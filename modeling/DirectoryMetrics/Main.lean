import DirectoryMetrics.Collection.Compiler
import DirectoryMetrics.CommandLine
import DirectoryMetrics.Configuration.Load

namespace DirectoryMetrics.CommandLine

def readFile (path : String) : IO FileContent := do
  try
    return .octets (← IO.FS.readBinFile path).toList
  catch
    | .noFileOrDirectory .. => return .missing
    | e => return .unreadable (toString e)

def report (path : String) : IO UInt32 := do
  let loaded := (Configuration.load path (← readFile path)).mapError ConfigError.message
  match loaded.bind fun (tree, _) => (Compiler.plans tree).mapError CompileError.message with
  | .ok (plans, _) =>
      plans.forM fun plan => plan.report.forM IO.println
      return 0
  | .error message =>
      IO.eprintln s!"error: {message}"
      return 1

def perform : Outcome → IO UInt32
  | .run config => report config
  | .displayHelp => do
      IO.println help
      return 0
  | .displayVersion => do
      IO.println version
      return 0
  | failed => do
      IO.eprintln s!"error: {failed.message}\n\n{usage}"
      return 2

end DirectoryMetrics.CommandLine

open DirectoryMetrics CommandLine in
def main (arguments : List String) : IO UInt32 := perform (parse (program :: arguments))
