import DirectoryMetrics.Metrics.Family

namespace DirectoryMetrics

/-!
The store of aggregated measurements that the exporters read. Each view has a row for every set of
tags that it has seen, and a family of exported series that follows its rows.
-/

structure StoreEntry (α : Type) where
  view : View
  family : Family α
  rows : List (Tags × α)
  deriving DecidableEq, Repr

namespace StoreEntry

/-- The values of the labels of a view; a missing tag is an empty one. -/
def labelValues (view : View) (tags : Tags) : List String :=
  view.tagKeys.map fun key => (tags.get? key).getD ""

def combined [Quantity α] (tags : Tags) (value : α) (entry : StoreEntry α) : α :=
  let row := (entry.rows.lookup (tags.restrict entry.view.tagKeys)).getD Quantity.zero
  entry.view.aggregation.combine row value

def exported [SeriesKey] [Quantity α] (tags : Tags) (value : α) (entry : StoreEntry α) :
    Except ExportFault (Family α) :=
  entry.family.set (labelValues entry.view (tags.restrict entry.view.tagKeys))
    (entry.combined tags value)

/-- A row is written even if its series cannot be. -/
def record [SeriesKey] [Quantity α] (tags : Tags) (value : α) (entry : StoreEntry α) :
    StoreEntry α :=
  { entry with
    rows := Sorted.put Tags.before (tags.restrict entry.view.tagKeys) (entry.combined tags value)
      entry.rows
    family :=
      match entry.exported tags value with
      | .ok family => family
      | .error _ => entry.family }

end StoreEntry

inductive Warning where
  | noView (measure : String)
  | noSeries (view : String) (fault : ExportFault)
  deriving DecidableEq, Repr

/-- Entries in the order of their names, each name once. -/
structure Store (α : Type) where
  entries : List (String × StoreEntry α)
  deriving DecidableEq, Repr

namespace Store

def empty : Store α := ⟨[]⟩

def get? (name : String) (store : Store α) : Option (StoreEntry α) := store.entries.lookup name

def names (store : Store α) : List String := store.entries.map Prod.fst

def views (store : Store α) : List View := store.entries.map (·.2.view)

def snapshot (store : Store α) : List (View × List (Tags × α)) :=
  store.entries.map fun (_, entry) => (entry.view, entry.rows)

def families (store : Store α) : List (Family α) := store.entries.map (·.2.family)

def retain (keep : List String) (store : Store α) : Store α :=
  ⟨store.entries.filter fun (name, _) => keep.contains name⟩

def isRegistered (view : View) (store : Store α) : Bool :=
  match store.get? view.name with
  | some entry => entry.view = view
  | none => false

def newEntry (view : View) : Except ExportError (StoreEntry α) :=
  match Family.ofView view with
  | .ok family => .ok ⟨view, family, []⟩
  | .error fault => .error ⟨view.name, fault⟩

def checkNames (seen : List String) : List (StoreEntry α) → Except ExportError Unit
  | [] => .ok ()
  | entry :: rest =>
      if seen.contains entry.family.name then .error ⟨entry.view.name, .duplicateName⟩
      else checkNames (entry.family.name :: seen) rest

/-- The entries to add for views that the store does not have as they are. -/
def pending (views : List View) (store : Store α) : Except ExportError (List (StoreEntry α)) := do
  let new ← (views.filter fun view => !store.isRegistered view).mapM newEntry
  let kept := (store.entries.map Prod.snd).filter fun entry =>
    !new.any fun entry' => entry'.view.name == entry.view.name
  checkNames [] (kept ++ new)
  return new

def put (entry : StoreEntry α) (store : Store α) : Store α :=
  ⟨Sorted.put Sorted.textBefore entry.view.name entry store.entries⟩

/-- Registers all views or none. A view that is there as it is keeps its rows. -/
def registerViews (views : List View) : ExceptT ExportError (StateM (Store α)) Unit := do
  let new ← (← get).pending views
  modify fun store => new.foldl (fun store entry => store.put entry) store

def record [SeriesKey] [Quantity α] (tags : Tags) (store : Store α) (m : Measurement α) :
    Store α :=
  ⟨Sorted.modify m.measure (StoreEntry.record tags m.value) store.entries⟩

/-- Measurements that no view is named for are dropped. -/
def commit [SeriesKey] [Quantity α] (batch : Batch α) (tags : Tags) (store : Store α) : Store α :=
  batch.foldl (record tags) store

def warning? [SeriesKey] [Quantity α] (tags : Tags) (store : Store α) (m : Measurement α) :
    Option Warning :=
  match store.get? m.measure with
  | none => some (.noView m.measure)
  | some entry =>
      match entry.exported tags m.value with
      | .ok _ => none
      | .error fault => some (.noSeries entry.view.name fault)

def warnings [SeriesKey] [Quantity α] (batch : Batch α) (tags : Tags) (store : Store α) :
    List Warning :=
  match batch with
  | [] => []
  | m :: rest => (warning? tags store m).toList ++ warnings rest tags (record tags store m)

end Store

end DirectoryMetrics
