import Agenda.Text.Utf8
import Mathlib.Data.Char
import Mathlib.Tactic

/-!
# Texts are read back from their bytes

The encoding of a character has one to four bytes. Its first byte says how many follow and carries
the highest bits of the character, every other byte carries six more. The bytes that begin a longer
encoding than the character needs, or a surrogate, are in none, so that the reader, which refuses
them, reads every character back, and every text. And the first bytes grow with the characters, so
that texts are ordered by their bytes as they are by their characters.
-/

namespace Agenda
namespace Text

variable {n : Nat} {c : Char}

/-- The byte that carries the six lowest bits of a number. -/
def continuation (n : Nat) : UInt8 := UInt8.ofNat (n % 64 + 128)

theorem toNat_continuation (n : Nat) : (continuation n).toNat = n % 64 + 128 := by
  rw [continuation, UInt8.toNat_ofNat']
  omega

@[simp] theorem payload_continuation (n : Nat) : payload (continuation n) = n % 64 := by
  rw [payload, toNat_continuation]
  omega

@[simp] theorem isContinuation_continuation (n : Nat) : isContinuation (continuation n) = true := by
  simp only [isContinuation, UInt8.le_iff_toNat_le, toNat_continuation, Bool.and_eq_true,
    decide_eq_true_eq, UInt8.reduceToNat]
  omega

theorem leading?_two (hlow : 2 ≤ n) (h : n < 32) :
    leading? (UInt8.ofNat (n + 192)) = some (n, 0) := by
  revert n
  decide

theorem leading?_three (h : n < 16) : leading? (UInt8.ofNat (n + 224)) = some (n, 1) := by
  revert n
  decide

theorem leading?_four (h : n < 5) : leading? (UInt8.ofNat (n + 240)) = some (n, 2) := by
  revert n
  decide

/-- A continuation byte is a second byte unless it would begin an encoding that is too long, a
surrogate or a number that is too large. -/
theorem isSecond_continuation {first : UInt8} (hthree : first.toNat = 0xE0 → 32 ≤ n % 64)
    (hsurrogate : first.toNat = 0xED → n % 64 < 32) (hfour : first.toNat = 0xF0 → 16 ≤ n % 64)
    (hlast : first.toNat = 0xF4 → n % 64 < 16) : isSecond first (continuation n) = true := by
  simp only [isSecond, ← UInt8.toNat_inj, isContinuation_continuation, UInt8.le_iff_toNat_le,
    toNat_continuation, UInt8.reduceToNat]
  split
  · simp only [Bool.and_eq_true, decide_eq_true_eq]
    omega
  · split
    · simp only [Bool.and_eq_true, decide_eq_true_eq]
      omega
    · split
      · simp only [Bool.and_eq_true, decide_eq_true_eq]
        omega
      · split
        · simp only [Bool.and_eq_true, decide_eq_true_eq]
          omega
        · rfl

theorem readContinuations_continuation (code count : Nat) (rest : List UInt8) :
    readContinuations code (count + 1) (continuation n :: rest) =
      readContinuations (code * 64 + n % 64) count rest := by
  rw [readContinuations, if_pos (isContinuation_continuation n), payload_continuation]

theorem readChar_second {first : UInt8} {code count : Nat}
    (hfirst : leading? first = some (code, count)) (hbyte : 128 ≤ first.toNat)
    (hsecond : isSecond first (continuation n) = true) (rest : List UInt8) :
    readChar first (continuation n :: rest) =
      readContinuations (code * 64 + n % 64) count rest := by
  have hascii : ¬ first < 0x80 := by
    rw [UInt8.lt_iff_toNat_lt]
    exact Nat.not_lt.mpr hbyte
  simp only [readChar, if_neg hascii, hfirst, if_pos hsecond, payload_continuation]

variable {v : Nat} (rest : List UInt8)

theorem readChar_one (h : v ≤ 127) :
    readChar (UInt8.ofNat v) rest = (Char.ofNat v, rest) := by
  have hbyte : (UInt8.ofNat v).toNat = v := by
    rw [UInt8.toNat_ofNat']
    omega
  have hascii : UInt8.ofNat v < 0x80 := by
    rw [UInt8.lt_iff_toNat_lt, hbyte]
    exact Nat.lt_succ_of_le h
  unfold readChar
  rw [if_pos hascii, hbyte]

theorem readChar_two (hlow : ¬ v ≤ 127) (h : v ≤ 2047) :
    readChar (UInt8.ofNat (v / 64 % 32 + 192)) (continuation v :: rest) =
      (Char.ofNat v, rest) := by
  have hbyte : (UInt8.ofNat (v / 64 % 32 + 192)).toNat = v / 64 % 32 + 192 := by
    rw [UInt8.toNat_ofNat']
    omega
  have hsecond : isSecond (UInt8.ofNat (v / 64 % 32 + 192)) (continuation v) = true := by
    apply isSecond_continuation <;> omega
  have hcode : v / 64 % 32 * 64 + v % 64 = v := by omega
  rw [readChar_second (leading?_two (by omega) (by omega)) (by omega) hsecond, hcode,
    readContinuations]

/-- Surrogates are no characters, so that their bytes need not be read back. -/
theorem readChar_three (hlow : ¬ v ≤ 2047) (h : v ≤ 65535) (hvalid : v < 0xD800 ∨ 0xDFFF < v) :
    readChar (UInt8.ofNat (v / 4096 % 16 + 224))
      (continuation (v / 64) :: continuation v :: rest) = (Char.ofNat v, rest) := by
  have hbyte : (UInt8.ofNat (v / 4096 % 16 + 224)).toNat = v / 4096 % 16 + 224 := by
    rw [UInt8.toNat_ofNat']
    omega
  have hsecond :
      isSecond (UInt8.ofNat (v / 4096 % 16 + 224)) (continuation (v / 64)) = true := by
    apply isSecond_continuation <;> omega
  have hcode : (v / 4096 % 16 * 64 + v / 64 % 64) * 64 + v % 64 = v := by omega
  rw [readChar_second (leading?_three (by omega)) (by omega) hsecond,
    readContinuations_continuation, hcode, readContinuations]

theorem readChar_four (hlow : ¬ v ≤ 65535) (h : v < 0x110000) :
    readChar (UInt8.ofNat (v / 262144 % 8 + 240))
      (continuation (v / 4096) :: continuation (v / 64) :: continuation v :: rest) =
      (Char.ofNat v, rest) := by
  have hbyte : (UInt8.ofNat (v / 262144 % 8 + 240)).toNat = v / 262144 % 8 + 240 := by
    rw [UInt8.toNat_ofNat']
    omega
  have hsecond :
      isSecond (UInt8.ofNat (v / 262144 % 8 + 240)) (continuation (v / 4096)) = true := by
    apply isSecond_continuation <;> omega
  have hcode :
      ((v / 262144 % 8 * 64 + v / 4096 % 64) * 64 + v / 64 % 64) * 64 + v % 64 = v := by
    omega
  rw [readChar_second (leading?_four (by omega)) (by omega) hsecond,
    readContinuations_continuation, readContinuations_continuation, hcode, readContinuations]

/-- A character is read back from its bytes, whatever follows. -/
theorem readChar_encoding (c : Char) :
    ∃ first bytes, String.utf8EncodeChar c = first :: bytes ∧
      readChar first (bytes ++ rest) = (c, rest) := by
  have hvalid : c.val.toNat < 0xD800 ∨ 0xDFFF < c.val.toNat ∧ c.val.toNat < 0x110000 := c.valid
  have hpair : (c, rest) = (Char.ofNat c.val.toNat, rest) := by
    rw [Char.toNat_val, Char.ofNat_toNat]
  simp only [String.utf8EncodeChar, hpair]
  generalize c.val.toNat = v at hvalid
  by_cases hone : v ≤ 127
  · exact ⟨_, _, if_pos hone, readChar_one rest hone⟩
  by_cases htwo : v ≤ 2047
  · exact ⟨_, _, (if_neg hone).trans (if_pos htwo), readChar_two rest hone htwo⟩
  rw [if_neg hone, if_neg htwo]
  by_cases hthree : v ≤ 65535
  · exact ⟨_, _, if_pos hthree, readChar_three rest htwo hthree (hvalid.imp_right And.left)⟩
  · exact ⟨_, _, if_neg hthree, readChar_four rest hthree (by omega)⟩

theorem decodeFrom_utf8Bytes (read s : List Char) :
    decodeFrom read (utf8Bytes s) = read.reverse ++ s := by
  induction s generalizing read with
  | nil => rw [utf8Bytes, List.flatMap_nil, decodeFrom, List.append_nil]
  | cons c s ih =>
    obtain ⟨first, bytes, hbytes, hread⟩ := readChar_encoding (utf8Bytes s) c
    have hcons : utf8Bytes (c :: s) = first :: (bytes ++ utf8Bytes s) := by
      rw [utf8Bytes, List.flatMap_cons, hbytes]
      rfl
    rw [hcons, decodeFrom, hread, ih]
    simp

theorem length_le_utf8ByteSize (s : List Char) : s.length ≤ (String.ofList s).utf8ByteSize := by
  induction s with
  | nil => simp
  | cons c s ih =>
    have hpos := c.utf8Size_pos
    rw [String.ofList_cons, String.utf8ByteSize_append, String.utf8ByteSize_singleton,
      List.length_cons]
    omega

theorem decodeUtf8_utf8Bytes (s : List Char) : decodeUtf8 (utf8Bytes s) = s :=
  decodeFrom_utf8Bytes [] s

/-- An encoding with `count` continuation bytes, whose first byte carries the highest bits above
`base`. -/
def encoding (base : Nat) : Nat → Nat → List UInt8 → List UInt8
  | 0, v, rest => UInt8.ofNat (base + v) :: rest
  | count + 1, v, rest => encoding base count (v / 64) (continuation v :: rest)

/-- The number is encoded with so many continuation bytes. -/
inductive HasEncoding (v : Nat) : Nat → Nat → Prop
  | one (h : v ≤ 127) : HasEncoding v 0 0
  | two (hlow : 127 < v) (h : v ≤ 2047) : HasEncoding v 192 1
  | three (hlow : 2047 < v) (h : v ≤ 65535) : HasEncoding v 224 2
  | four (hlow : 65535 < v) (h : v < 0x110000) : HasEncoding v 240 3

section Order

variable {w base base' count count' : Nat} {rest rest' : List UInt8} {d : Char} {s t : List Char}

theorem HasEncoding.first_lt (h : HasEncoding v base count) : base + v / 64 ^ count < 256 := by
  cases h <;> omega

theorem HasEncoding.eq_or_first_lt (hv : HasEncoding v base count)
    (hw : HasEncoding w base' count') (h : v < w) :
    (base = base' ∧ count = count') ∨ base + v / 64 ^ count < base' + w / 64 ^ count' := by
  cases hv <;> cases hw <;> omega

theorem exists_encoding_eq (c : Char) (rest : List UInt8) :
    ∃ base count, HasEncoding c.val.toNat base count ∧
      String.utf8EncodeChar c ++ rest = encoding base count c.val.toNat rest := by
  have hvalid : c.val.toNat < 0xD800 ∨ 0xDFFF < c.val.toNat ∧ c.val.toNat < 0x110000 := c.valid
  simp only [String.utf8EncodeChar]
  generalize c.val.toNat = v at hvalid
  split
  · refine ⟨0, 0, .one ‹_›, ?_⟩
    rw [encoding, Nat.zero_add]
    rfl
  · split
    · refine ⟨192, 1, .two (by omega) ‹_›, ?_⟩
      rw [encoding, encoding, Nat.mod_eq_of_lt (by omega), Nat.add_comm]
      rfl
    · split
      · refine ⟨224, 2, .three (by omega) ‹_›, ?_⟩
        rw [encoding, encoding, encoding, Nat.mod_eq_of_lt (by omega), Nat.add_comm,
          Nat.div_div_eq_div_mul]
        rfl
      · refine ⟨240, 3, .four (by omega) (by omega), ?_⟩
        rw [encoding, encoding, encoding, encoding, Nat.mod_eq_of_lt (by omega), Nat.add_comm,
          Nat.div_div_eq_div_mul, Nat.div_div_eq_div_mul, Nat.div_div_eq_div_mul]
        rfl

theorem encoding_eq_cons (base count v : Nat) (rest : List UInt8) :
    ∃ bytes, encoding base count v rest = UInt8.ofNat (base + v / 64 ^ count) :: bytes := by
  induction count generalizing v rest with
  | zero => exact ⟨rest, by rw [encoding, Nat.pow_zero, Nat.div_one]⟩
  | succ count ih =>
    obtain ⟨bytes, hbytes⟩ := ih (v / 64) (continuation v :: rest)
    refine ⟨bytes, ?_⟩
    rw [encoding, hbytes, Nat.div_div_eq_div_mul, Nat.pow_succ']

theorem toNat_first (h : HasEncoding v base count) :
    (UInt8.ofNat (base + v / 64 ^ count)).toNat = base + v / 64 ^ count :=
  UInt8.toNat_ofNat_of_lt' h.first_lt

theorem encoding_lt (h : v < w ∨ v = w ∧ rest < rest') (hfirst : base + w / 64 ^ count < 256) :
    encoding base count v rest < encoding base count w rest' := by
  induction count generalizing v w rest rest' with
  | zero =>
    rw [Nat.pow_zero, Nat.div_one] at hfirst
    have hle : v ≤ w := h.elim Nat.le_of_lt fun h => h.1.le
    have hfirst' : base + v < 256 := by omega
    rw [encoding, encoding, List.cons_lt_cons_iff, UInt8.lt_iff_toNat_lt,
      UInt8.toNat_ofNat_of_lt' hfirst, UInt8.toNat_ofNat_of_lt' hfirst']
    rcases h with hlt | ⟨rfl, hrest⟩
    · exact .inl (by omega)
    · exact .inr ⟨rfl, hrest⟩
  | succ count ih =>
    rw [Nat.pow_succ', ← Nat.div_div_eq_div_mul] at hfirst
    refine ih ?_ hfirst
    rcases h with hlt | ⟨rfl, hrest⟩
    · rcases Nat.lt_or_ge (v / 64) (w / 64) with hdiv | hdiv
      · exact .inl hdiv
      · refine .inr ⟨by omega, List.cons_lt_cons_iff.mpr (.inl ?_)⟩
        rw [UInt8.lt_iff_toNat_lt, toNat_continuation, toNat_continuation]
        omega
    · exact .inr ⟨rfl, List.cons_lt_cons_iff.mpr (.inr ⟨rfl, hrest⟩)⟩

theorem utf8EncodeChar_append_lt (h : c < d) (rest rest' : List UInt8) :
    String.utf8EncodeChar c ++ rest < String.utf8EncodeChar d ++ rest' := by
  have hlt : c.val.toNat < d.val.toNat := h
  obtain ⟨base, count, hc, hcbytes⟩ := exists_encoding_eq c rest
  obtain ⟨base', count', hd, hdbytes⟩ := exists_encoding_eq d rest'
  rw [hcbytes, hdbytes]
  rcases hc.eq_or_first_lt hd hlt with ⟨rfl, rfl⟩ | hfirst
  · exact encoding_lt (.inl hlt) hd.first_lt
  · obtain ⟨bytes, hbytes⟩ := encoding_eq_cons base count c.val.toNat rest
    obtain ⟨bytes', hbytes'⟩ := encoding_eq_cons base' count' d.val.toNat rest'
    rw [hbytes, hbytes', List.cons_lt_cons_iff, UInt8.lt_iff_toNat_lt, toNat_first hc,
      toNat_first hd]
    exact .inl hfirst

theorem append_lt_append_left_iff (bytes : List UInt8) {u v : List UInt8} :
    bytes ++ u < bytes ++ v ↔ u < v := by
  induction bytes with
  | nil => rfl
  | cons b bytes ih => simpa using ih

/-- Texts are ordered by their bytes as they are by their characters. -/
theorem utf8Bytes_lt_utf8Bytes_iff : utf8Bytes s < utf8Bytes t ↔ s < t := by
  have hcons : ∀ (c : Char) (s : List Char),
      utf8Bytes (c :: s) = String.utf8EncodeChar c ++ utf8Bytes s := fun _ _ => List.flatMap_cons
  induction s generalizing t with
  | nil =>
    cases t with
    | nil => simp [utf8Bytes]
    | cons d t =>
      obtain ⟨first, bytes, hbytes, -⟩ := readChar_encoding [] d
      simp [utf8Bytes, hbytes]
  | cons c s ih =>
    cases t with
    | nil => simp [utf8Bytes]
    | cons d t =>
      rw [hcons, hcons, List.cons_lt_cons_iff]
      rcases lt_trichotomy c d with hlt | rfl | hlt
      · exact iff_of_true (utf8EncodeChar_append_lt hlt _ _) (.inl hlt)
      · rw [append_lt_append_left_iff]
        simpa using @ih t
      · refine iff_of_false ?_ ?_
        · exact List.lt_asymm (utf8EncodeChar_append_lt hlt _ _)
        · rintro (h | ⟨rfl, -⟩)
          · exact absurd h (not_lt_of_gt hlt)
          · exact absurd hlt (lt_irrefl _)

end Order

end Text
end Agenda
