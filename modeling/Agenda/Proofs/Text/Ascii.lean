import Agenda.Proofs.Text.Numeral
import Agenda.Text.Utf8

/-!
# ASCII texts

A character among the first 128 is one byte, in which it is written as it is. So a text of such
characters is as many bytes long as it has characters.
-/

namespace Agenda
namespace Text

variable {s : List Char} {c : Char}

def IsAscii (s : List Char) : Prop := ∀ c ∈ s, c.toNat < 128

theorem utf8Size_of_lt (h : c.toNat < 128) : c.utf8Size = 1 := by
  rw [Char.utf8Size_eq_one_iff, UInt32.le_iff_toNat_le]
  exact Nat.le_of_lt_succ h

theorem utf8ByteSize_ofList (h : IsAscii s) : (String.ofList s).utf8ByteSize = s.length := by
  induction s with
  | nil => rfl
  | cons c s ih =>
    have hhead : c.toNat < 128 := h c List.mem_cons_self
    have htail : IsAscii s := fun a ha => h a (List.mem_cons_of_mem c ha)
    rw [String.ofList_cons, String.utf8ByteSize_append, String.utf8ByteSize_singleton,
      utf8Size_of_lt hhead, ih htail, List.length_cons, Nat.add_comm]

/-- The byte of a character of an ASCII text. -/
def asciiByte (c : Char) : UInt8 := UInt8.ofNat c.toNat

theorem toNat_asciiByte (h : c.toNat < 128) : (asciiByte c).toNat = c.toNat := by
  apply UInt8.toNat_ofNat_of_lt'
  change c.toNat < 256
  omega

theorem asciiByte_ofNat_toNat (b : UInt8) : asciiByte (Char.ofNat b.toNat) = b := by
  have hlt : b.toNat < 256 := b.toNat_lt
  have hvalid : b.toNat.isValidChar := .inl (by omega)
  rw [asciiByte, Char.ofNat, dif_pos hvalid]
  exact UInt8.ofNat_toNat

theorem utf8Bytes_cons (h : c.toNat < 128) : utf8Bytes (c :: s) = asciiByte c :: utf8Bytes s := by
  rw [utf8Bytes, List.flatMap_cons, String.utf8EncodeChar_eq_singleton (utf8Size_of_lt h)]
  rfl

theorem isDigit_toNat_lt (h : c.isDigit = true) : c.toNat < 128 := by
  rw [Char.isDigit_iff_toNat] at h
  change 48 ≤ c.toNat ∧ c.toNat ≤ 57 at h
  omega

end Text
end Agenda
