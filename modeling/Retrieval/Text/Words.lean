import Retrieval.Text.Class
import Retrieval.Text.Digits

namespace Retrieval.Text

def words (term : List Char) : List (List Char) :=
  (splitWhere (fun c => !isAsciiAlphanumeric c) term).filter (fun piece => !piece.isEmpty)

/-- The number an all-digit term stands for, if it fits 64 bits. -/
def recordId? (term : List Char) : Option UInt64 :=
  if term.isEmpty || !term.all Char.isDigit then none
  else
    let n := digitsValue term
    if n < UInt64.size then some (UInt64.ofNat n) else none

end Retrieval.Text
