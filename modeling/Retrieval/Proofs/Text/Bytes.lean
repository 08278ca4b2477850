import Mathlib.Data.List.Basic
import Retrieval.Dict

namespace Retrieval.Text

def bytes (s : String) : List UInt8 :=
  s.toUTF8.data.toList

theorem bytes_eq (s : String) : bytes s = s.toList.flatMap String.utf8EncodeChar := by
  rw [bytes, String.toUTF8_eq_toByteArray, ← String.utf8Encode_toList, List.utf8Encode,
    List.toList_data_toByteArray]

theorem digits_lt {v w : Nat} (h : v < w) :
    v / 262144 < w / 262144 ∨ v / 262144 = w / 262144 ∧ (v / 4096 % 64 < w / 4096 % 64 ∨
      v / 4096 % 64 = w / 4096 % 64 ∧ (v / 64 % 64 < w / 64 % 64 ∨
        v / 64 % 64 = w / 64 % 64 ∧ v % 64 < w % 64)) := by
  have hv : v / 64 / 64 = v / 4096 := Nat.div_div_eq_div_mul v 64 64
  have hv' : v / 4096 / 64 = v / 262144 := Nat.div_div_eq_div_mul v 4096 64
  have hw : w / 64 / 64 = w / 4096 := Nat.div_div_eq_div_mul w 64 64
  have hw' : w / 4096 / 64 = w / 262144 := Nat.div_div_eq_div_mul w 4096 64
  rw [← hv', ← hw', ← hv, ← hw]
  omega

/-- A character with a smaller code point has smaller bytes, whatever follows. A longer encoding
starts with a greater byte, and two of one length are compared digit by digit. -/
theorem utf8EncodeChar_lt {c d : Char} (h : c < d) (xs ys : List UInt8) :
    String.utf8EncodeChar c ++ xs < String.utf8EncodeChar d ++ ys := by
  have hlt : c.val.toNat < d.val.toNat := h
  have hd : d.val.toNat < 0x110000 := by
    have hvalid := d.valid
    unfold UInt32.isValidChar Nat.isValidChar at hvalid
    omega
  unfold String.utf8EncodeChar
  generalize c.val.toNat = v, d.val.toNat = w at hlt hd
  have hdigits := digits_lt hlt
  have hfirst : ∀ n, n < 0x110000 → (n / 262144 % 8 + 240) % 2 ^ 8 = n / 262144 + 240 := by omega
  have hrest : ∀ n, (n % 64 + 128) % 2 ^ 8 = n % 64 + 128 := by omega
  have hv := hfirst v (Nat.lt_trans hlt hd)
  have hw := hfirst w hd
  dsimp only
  split_ifs <;>
    simp only [List.cons_append, List.nil_append, List.cons_lt_cons_iff, UInt8.lt_iff_toNat_lt,
      ← UInt8.toNat_inj, UInt8.toNat_ofNat', hv, hw, hrest] <;>
    omega

theorem flatMap_utf8EncodeChar_lt {cs ds : List Char} (h : cs < ds) :
    cs.flatMap String.utf8EncodeChar < ds.flatMap String.utf8EncodeChar := by
  induction h with
  | @nil d ds =>
    rw [List.flatMap_nil, List.flatMap_cons]
    cases hd : String.utf8EncodeChar d with
    | nil => exact absurd hd String.utf8EncodeChar_ne_nil
    | cons b rest => exact .nil
  | rel hcd =>
    rw [List.flatMap_cons, List.flatMap_cons]
    exact utf8EncodeChar_lt hcd _ _
  | cons _ ih =>
    rw [List.flatMap_cons, List.flatMap_cons]
    exact List.append_left_lt ih

theorem bytes_lt {s t : String} (h : s < t) : bytes s < bytes t := by
  rw [bytes_eq, bytes_eq]
  exact flatMap_utf8EncodeChar_lt (String.lt_iff.1 h)

end Retrieval.Text

namespace Retrieval.Dict

theorem Ordered.bytes {α : Type} {d : Dict α} (h : d.Ordered) :
    (d.keys.map Text.bytes).Pairwise (· < ·) :=
  List.Pairwise.map _ (fun _ _ => Text.bytes_lt) h

end Retrieval.Dict
