import Retrieval.Field.Basic

namespace Retrieval

/-- A result column: the label it is read by, the path its value is shown under, and how it is
read. -/
structure ResultColumn where
  path : String
  label : String
  scan : Scan
  deriving DecidableEq, Repr

end Retrieval
