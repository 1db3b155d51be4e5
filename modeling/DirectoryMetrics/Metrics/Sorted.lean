namespace DirectoryMetrics

namespace Sorted

/-- Before the first element that is not before it. -/
def insertBy (before : α → α → Bool) (x : α) : List α → List α
  | [] => [x]
  | y :: rest => if before y x then y :: insertBy before x rest else x :: y :: rest

def sortBy (before : α → α → Bool) (xs : List α) : List α :=
  xs.foldr (insertBy before) []

def put [DecidableEq κ] (before : κ → κ → Bool) (key : κ) (value : ν) :
    List (κ × ν) → List (κ × ν)
  | [] => [(key, value)]
  | (k, v) :: rest =>
      if key = k then (key, value) :: rest
      else if before key k then (key, value) :: (k, v) :: rest
      else (k, v) :: put before key value rest

def modify [DecidableEq κ] (key : κ) (f : ν → ν) (entries : List (κ × ν)) : List (κ × ν) :=
  entries.map fun (k, v) => if k = key then (k, f v) else (k, v)

def textBefore (a b : String) : Bool := decide (a < b)

def pairsBefore : List (String × String) → List (String × String) → Bool
  | _, [] => false
  | [], _ :: _ => true
  | (k, v) :: rest, (l, w) :: rest' =>
      if k = l then if v = w then pairsBefore rest rest' else textBefore v w
      else textBefore k l

end Sorted

end DirectoryMetrics
