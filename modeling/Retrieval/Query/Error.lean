import Retrieval.Request.Error

namespace Retrieval

inductive Query.Error where
  | request (cause : Request.Error)
  | unknownField (collection field : String)
  | notAReference (collection field : String)
  | unresolvedJoinToken (field token : String)
  | member (collection member : String) (cause : Query.Error)
  deriving Repr

namespace Query.Error

def message : Query.Error → String
  | request cause => cause.message
  | unknownField collection field =>
    "Collection " ++ collection ++ " has no field '" ++ field ++ "'"
  | notAReference collection field =>
    collection ++ "." ++ field ++ " is not a reference and cannot be joined through"
  | unresolvedJoinToken field token =>
    "Custom field " ++ field ++ " joins on '" ++ token ++ "', which is not joined in this query"
  | member collection path cause =>
    "resolving " ++ collection ++ "." ++ path ++ ": " ++ cause.message

/-- Whether the request, and not the model, is to blame. -/
def isUser : Query.Error → Bool
  | request _ => true
  | member _ _ cause => cause.isUser
  | unknownField .. | notAReference .. | unresolvedJoinToken .. => false

end Query.Error

end Retrieval
