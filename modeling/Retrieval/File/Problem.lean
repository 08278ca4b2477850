import Retrieval.Text.Utf8

namespace Retrieval

inductive FileProblem where
  | missing
  | notDirectory
  | directory
  | nameTooLong
  | notText
  | refused (reason : String)
  deriving DecidableEq, Repr

namespace FileProblem

def message : FileProblem → String
  | missing => "No such file or directory (os error 2)"
  | notDirectory => "Not a directory (os error 20)"
  | directory => "Is a directory (os error 21)"
  | nameTooLong => "File name too long (os error 36)"
  | notText => "stream did not contain valid UTF-8"
  | refused reason => reason

def isPresent : FileProblem → Bool
  | missing | notDirectory | nameTooLong => false
  | directory | notText | refused _ => true

end FileProblem

def textOf (bytes : List UInt8) : Except FileProblem String :=
  match (Utf8.symbols bytes).mapM id with
  | some cs => .ok (String.ofList cs)
  | none => .error .notText

end Retrieval
