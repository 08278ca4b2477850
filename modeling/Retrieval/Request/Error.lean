import Retrieval.Field.Basic

namespace Retrieval

inductive Request.Error where
  | unknownCollection (name : String)
  | unknownFieldSet (collection fieldSet : String)
  | unknownQuery (name : String)
  | unmappedField (field : String)
  | unmappedSort (field : String)
  | listRequired (field : String)
  | unknownComparator (text : String)
  | invalidValue (field : String) (cause : Field.Error)
  | condition (index : Nat) (cause : Request.Error)
  | offsetOutOfRange (offset : UInt64)
  | unboundField (field : String)
  | parameterCount (got expected : Nat)
  | notFound (collection : String) (pk : UInt64)
  deriving Repr

def Request.Error.message : Request.Error → String
  | unknownCollection name => "Collection " ++ name ++ " doesn't exist"
  | unknownFieldSet collection fieldSet =>
    "Fieldset " ++ fieldSet ++ " doesn't exist in " ++ collection
  | unknownQuery name => "Custom query " ++ name ++ " doesn't exist"
  | unmappedField field => "Cannot query on non mapped field '" ++ field ++ "'"
  | unmappedSort field => "Sort referenced non mapped field '" ++ field ++ "'"
  | listRequired field => "IN conditions on '" ++ field ++ "' require that val is an array"
  | unknownComparator text => "Compare method '" ++ text ++ "' not allowed"
  | invalidValue field cause => "Invalid value for '" ++ field ++ "': " ++ cause.message
  | condition index cause => "building condition " ++ toString index ++ ": " ++ cause.message
  | offsetOutOfRange offset => "Offset " ++ toString offset.toNat ++ " is out of range"
  | unboundField field => "Record has no field '" ++ field ++ "' to bind to the hook query"
  | parameterCount got expected =>
    "Could not run query, got " ++ toString got ++ " parameters, expected " ++ toString expected
  | notFound collection pk => "No " ++ collection ++ " record with id " ++ toString pk.toNat

end Retrieval
