namespace Retrieval.Utf8

/-- Where the reader stands: between characters, or owing `more` continuation bytes of which the
next lies between `low` and `high`. -/
inductive State where
  | start
  | inside (code : Nat) (low high : Nat) (more : Nat)
  deriving DecidableEq, Repr

def first (b : Nat) : State × List (Option Char) :=
  if b < 0x80 then (.start, [some (Char.ofNat b)])
  else if b < 0xc2 then (.start, [none])
  else if b < 0xe0 then (.inside (b - 0xc0) 0x80 0xbf 0, [])
  else if b = 0xe0 then (.inside 0 0xa0 0xbf 1, [])
  else if b = 0xed then (.inside 0xd 0x80 0x9f 1, [])
  else if b < 0xf0 then (.inside (b - 0xe0) 0x80 0xbf 1, [])
  else if b = 0xf0 then (.inside 0 0x90 0xbf 2, [])
  else if b < 0xf4 then (.inside (b - 0xf0) 0x80 0xbf 2, [])
  else if b = 0xf4 then (.inside 4 0x80 0x8f 2, [])
  else (.start, [none])

/-- One byte. A character that it cannot continue ends there as ill-formed. -/
def step (state : State) (b : Nat) : State × List (Option Char) :=
  match state with
  | .start => first b
  | .inside code low high more =>
    if low ≤ b ∧ b ≤ high then
      let code := code * 64 + (b - 0x80)
      match more with
      | 0 => (.start, [some (Char.ofNat code)])
      | more + 1 => (.inside code 0x80 0xbf more, [])
    else
      let next := first b
      (next.1, none :: next.2)

def scan : State → List UInt8 → List (Option Char)
  | .start, [] => []
  | .inside .., [] => [none]
  | state, b :: rest =>
    let next := step state b.toNat
    next.2 ++ scan next.1 rest

/-- The characters of a byte sequence, with one `none` for each maximal part that is ill-formed. -/
def symbols (bytes : List UInt8) : List (Option Char) :=
  scan .start bytes

def decode (bytes : List UInt8) : String :=
  String.ofList ((symbols bytes).map (·.getD '\ufffd'))

example : decode [0x61, 0xc3, 0xa9, 0xf0, 0x9f, 0x98, 0x80] = "aé😀" := by decide +kernel

example : symbols [0xe2, 0x82, 0x41, 0xff, 0xc3] = [none, some 'A', none, none] := by
  decide +kernel

end Retrieval.Utf8
