import Retrieval.Query.Error

namespace Retrieval

inductive Run.Error where
  | compile (cause : Query.Error)
  | request (cause : Request.Error)
  | database (sql problem : String)
  | decode (column problem : String)
  | pool (problem : String)
  | mail (problem : String)
  deriving Repr

namespace Run.Error

def message : Run.Error → String
  | compile cause => cause.message
  | request cause => cause.message
  | database sql problem => "database error running \x60" ++ sql ++ "\x60: " ++ problem
  | decode column problem => "cannot decode column " ++ column ++ ": " ++ problem
  | pool problem => "connection pool: " ++ problem
  | mail problem => "mailer failed: " ++ problem

def isUser : Run.Error → Bool
  | compile cause => cause.isUser
  | request _ => true
  | database .. | decode .. | pool _ | mail _ => false

end Run.Error

end Retrieval
