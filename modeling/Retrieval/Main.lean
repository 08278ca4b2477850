import Retrieval.Command.Basic

namespace Retrieval

def problemOf : IO.Error → FileProblem
  | .noFileOrDirectory .. => .missing
  | .inappropriateType _ _ details =>
    if details.toLower = "is a directory" then .directory else .notDirectory
  | .invalidArgument _ _ "name too long" => .nameTooLong
  | e => .refused (toString e)

def readFile (path : String) : IO (Except FileProblem (List UInt8)) := do
  try
    let bytes ← IO.FS.readBinFile path
    pure (.ok bytes.toList)
  catch e => pure (.error (problemOf e))

/-- This machine. It has no database engine, so commands that read records end there. -/
def machine : Host IO where
  read := readFile
  environment := fun name => IO.getEnv name
  home := IO.getEnv "HOME"
  openDatabase path _ := pure (.error (.pool ("opening " ++ path ++ ": no database engine")))

def usage : String :=
  "usage: validate MODEL | list MODEL | compile MODEL REQUEST [--output sql|verbose] | " ++
    "query REQUEST [--model MODEL] [--database DATABASE] | " ++
    "identity COLLECTION PK [--model MODEL] [--database DATABASE]"

end Retrieval

def main (arguments : List String) : IO UInt32 := do
  match Retrieval.Command.ofList? arguments with
  | none =>
    IO.eprintln Retrieval.usage
    pure 2
  | some command =>
    let report ← Retrieval.Command.run Retrieval.machine command
    for line in report.lines do
      IO.println line
    for problem in report.problem do
      IO.eprintln problem
    pure (UInt32.ofNat report.exitCode)
