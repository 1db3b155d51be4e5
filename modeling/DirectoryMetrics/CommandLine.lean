namespace DirectoryMetrics

namespace CommandLine

inductive Outcome where
  | run (config : String)
  | displayHelp
  | displayVersion
  | missingArgument
  | unknownArgument
  | invalidValue
  | tooManyValues
  deriving DecidableEq, Repr

def Outcome.message : Outcome → String
  | run config => s!"the configuration is {config}"
  | displayHelp => "help was asked for"
  | displayVersion => "the version was asked for"
  | missingArgument => "the path of the configuration is missing"
  | unknownArgument => "there is an argument that is not known"
  | invalidValue => "the path of the configuration is empty"
  | tooManyValues => "a flag does not take a value"

def program : String := "directory-metrics"

def version : String := program ++ " 0.1.0"

def usage : String := "Usage: " ++ program ++ " <CONFIG>"

def help : String :=
  "Collects attributes of directory servers and publishes them as metrics.\n\n" ++ usage ++
    "\n\n  <CONFIG>       path of the configuration file, in YAML\n" ++
    "  -h, --help     print help\n  -V, --version  print the version"

/-- Help and the version are shown at once, unless a path before them is empty. -/
def shown (path : Option String) (outcome : Outcome) : Outcome :=
  if path = some "" then .invalidValue else outcome

def shortFlag (path : Option String) : Option Char → Outcome
  | some 'h' => shown path .displayHelp
  | some 'V' => shown path .displayVersion
  | _ => .unknownArgument

def longFlag (path : Option String) (flag : List Char) : Outcome :=
  let name := String.ofList (flag.takeWhile (· ≠ '='))
  let known :=
    match name with
    | "help" => some (shown path .displayHelp)
    | "version" => some (shown path .displayVersion)
    | _ => none
  match known with
  | none => .unknownArgument
  | some outcome => if flag.contains '=' then .tooManyValues else outcome

def parseFrom (path : Option String) (flagsEnded : Bool) : List String → Outcome
  | [] =>
      match path with
      | none => .missingArgument
      | some "" => .invalidValue
      | some path => .run path
  | argument :: rest =>
      let positional : Outcome :=
        if path.isSome then .unknownArgument else parseFrom (some argument) flagsEnded rest
      if flagsEnded then positional
      else
        match argument.toList with
        | ['-', '-'] => parseFrom path true rest
        | '-' :: '-' :: flag => longFlag path flag
        | '-' :: c :: _ => shortFlag path (some c)
        | _ => positional

/-- The first argument is the name of the program. -/
def parse (arguments : List String) : Outcome := parseFrom none false (arguments.drop 1)

end CommandLine

end DirectoryMetrics
