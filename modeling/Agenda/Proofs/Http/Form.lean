import Agenda.Http.Form
import Agenda.Proofs.Fields
import Agenda.Proofs.Text.Ascii
import Agenda.Proofs.Text.Hex
import Agenda.Proofs.Text.Utf8
import Mathlib.Data.List.Forall2

/-!
# Encoded texts in queries

In a query a text is encoded byte by byte: a plain character stands for itself, a plus sign for a
space, and a percent sign with two hexadecimal digits in either case for a byte. Every text has such
an encoding, none of them holds a sign that ends a name, a pair or a query, and all of them are read
as the text. So a query of encoded pairs with distinct names is read as these pairs.
-/

namespace Agenda
namespace Form

open Text

/-- The character stands for itself in a query. -/
structure IsPlain (c : Char) : Prop where
  toNat_lt : c.toNat < 128
  ne_plus : c ≠ '+'
  ne_percent : c ≠ '%'
  ne_ampersand : c ≠ '&'
  ne_equals : c ≠ '='

instance (c : Char) : Decidable (IsPlain c) :=
  decidable_of_iff (c.toNat < 128 ∧ c ≠ '+' ∧ c ≠ '%' ∧ c ≠ '&' ∧ c ≠ '=')
    ⟨fun ⟨h₁, h₂, h₃, h₄, h₅⟩ => ⟨h₁, h₂, h₃, h₄, h₅⟩,
      fun ⟨h₁, h₂, h₃, h₄, h₅⟩ => ⟨h₁, h₂, h₃, h₄, h₅⟩⟩

/-- The part of a query stands for the bytes. -/
inductive Escapes : List Char → List UInt8 → Prop
  | nil : Escapes [] []
  | plain {c : Char} {s : List Char} {bytes : List UInt8} (hc : IsPlain c) (hfragment : c ≠ '#')
      (hs : Escapes s bytes) : Escapes (c :: s) (asciiByte c :: bytes)
  | space {s : List Char} {bytes : List UInt8} (hs : Escapes s bytes) :
      Escapes ('+' :: s) (0x20 :: bytes)
  | escape {a b : Char} {x y : Nat} {s : List Char} {bytes : List UInt8} (ha : IsHexDigit a x)
      (hb : IsHexDigit b y) (hs : Escapes s bytes) :
      Escapes ('%' :: a :: b :: s) (UInt8.ofNat (16 * x + y) :: bytes)

/-- The part of a query stands for the text, that is, for its bytes. -/
def Encodes (s : List Char) (t : String) : Prop := Escapes s (utf8Bytes t.toList)

variable {s : List Char} {bytes : List UInt8} {t : String}

theorem asciiByte_ne {c : Char} (h : IsPlain c) : asciiByte c ≠ plus ∧ asciiByte c ≠ percent := by
  have hbyte := toNat_asciiByte h.toNat_lt
  constructor
  · intro heq
    rw [heq] at hbyte
    exact h.ne_plus (Char.toNat_inj.mp hbyte.symm)
  · intro heq
    rw [heq] at hbyte
    exact h.ne_percent (Char.toNat_inj.mp hbyte.symm)

theorem unescape_plain {b : UInt8} (h : b ≠ plus ∧ b ≠ percent) :
    unescape (b :: bytes) = b :: unescape bytes := by
  match bytes with
  | [] => simp [unescape, h.1]
  | [a] => simp [unescape, h.1]
  | _ :: _ :: _ => rw [unescape, if_neg h.1, if_neg h.2]

theorem unescape_plus : unescape (plus :: bytes) = 0x20 :: unescape bytes := by
  match bytes with
  | [] => simp [unescape]
  | [a] => simp [unescape]
  | _ :: _ :: _ => rw [unescape, if_pos rfl]

theorem escapedByte?_eq {a b : Char} {x y : Nat} (ha : IsHexDigit a x) (hb : IsHexDigit b y) :
    escapedByte? (asciiByte a) (asciiByte b) = some (UInt8.ofNat (16 * x + y)) := by
  rw [escapedByte?, toNat_asciiByte ha.toNat_lt, toNat_asciiByte hb.toNat_lt, Char.ofNat_toNat,
    Char.ofNat_toNat, hexValue?_eq_some_iff.mpr ha, hexValue?_eq_some_iff.mpr hb, Nat.mul_comm]

theorem Escapes.unescape_eq (h : Escapes s bytes) : unescape (utf8Bytes s) = bytes := by
  induction h with
  | nil => rfl
  | plain hc hfragment hs ih =>
    rw [utf8Bytes_cons hc.toNat_lt, unescape_plain (asciiByte_ne hc), ih]
  | space hs ih =>
    rw [utf8Bytes_cons (by decide), ← ih]
    exact unescape_plus
  | escape ha hb hs ih =>
    rw [utf8Bytes_cons (by decide), utf8Bytes_cons ha.toNat_lt, utf8Bytes_cons hb.toNat_lt,
      unescape, if_neg (by decide), if_pos (by decide), escapedByte?_eq ha hb, ih]

theorem Encodes.decode_eq (h : Encodes s t) : decode s = t := by
  rw [decode, h.unescape_eq, decodeUtf8_utf8Bytes, String.ofList_toList]

/-- The character ends a name, a pair or a query. -/
def IsDelimiter (c : Char) : Prop := c = '=' ∨ c = '&' ∨ c = '#'

theorem Escapes.not_isDelimiter (h : Escapes s bytes) : ∀ c ∈ s, ¬ IsDelimiter c := by
  have hdigit : ∀ {c : Char} {n : Nat}, IsHexDigit c n → ¬ IsDelimiter c := by
    rintro c n h (rfl | rfl | rfl) <;>
    · rw [isHexDigit_iff_toNat] at h
      simp only [Char.reduceToNat] at h
      omega
  induction h with
  | nil => simp
  | plain hc hfragment hs ih =>
    rw [List.forall_mem_cons]
    exact ⟨fun h => h.elim hc.ne_equals (Or.rec hc.ne_ampersand hfragment), ih⟩
  | space hs ih =>
    rw [List.forall_mem_cons]
    exact ⟨by simp [IsDelimiter], ih⟩
  | escape ha hb hs ih =>
    rw [List.forall_mem_cons, List.forall_mem_cons, List.forall_mem_cons]
    exact ⟨by simp [IsDelimiter], hdigit ha, hdigit hb, ih⟩

theorem encodes_of_isPlain (ht : t.toList = s) (h : ∀ c ∈ s, IsPlain c ∧ c ≠ '#') :
    Encodes s t := by
  rw [Encodes, ht]
  clear ht
  induction s with
  | nil => exact .nil
  | cons c s ih =>
    obtain ⟨hc, hs⟩ := List.forall_mem_cons.mp h
    rw [utf8Bytes_cons hc.1.toNat_lt]
    exact .plain hc.1 hc.2 (ih hs)

/-- The letters, digits and signs that need no escape. -/
def isUnreserved (c : Char) : Bool :=
  c.isAlphanum || c == '-' || c == '.' || c == '_' || c == '~'

/-- The text with an escape for each byte that is not written as it is. -/
def percentEncode (t : List Char) : List Char :=
  (utf8Bytes t).flatMap fun b =>
    if isUnreserved (Char.ofNat b.toNat) then [Char.ofNat b.toNat]
    else ['%', (hexDigit (b.toNat / 16)).toUpper, (hexDigit b.toNat).toUpper]

theorem isPlain_of_isUnreserved {c : Char} (h : isUnreserved c = true) : IsPlain c ∧ c ≠ '#' := by
  have hlt : c.toNat < 128 := by
    delta isUnreserved Char.isAlphanum Char.isAlpha Char.isUpper Char.isLower Char.isDigit at h
    simp only [Bool.or_eq_true, Bool.and_eq_true, decide_eq_true_eq, beq_iff_eq,
      UInt32.le_iff_toNat_le, ge_iff_le, Char.toNat_val] at h
    rcases h with ((((h | h) | rfl) | rfl) | rfl) | rfl
    all_goals first | decide | (simp at h; omega)
  refine ⟨⟨hlt, ?_, ?_, ?_, ?_⟩, ?_⟩ <;>
  · rintro rfl
    revert h
    decide

theorem encodes_of_isUnreserved (t : String) (h : t.toList.all isUnreserved = true) :
    Encodes t.toList t :=
  encodes_of_isPlain rfl fun c hc => isPlain_of_isUnreserved (List.all_eq_true.mp h c hc)

theorem isPlain_of_isDigit {c : Char} (h : c.isDigit = true) : IsPlain c ∧ c ≠ '#' := by
  apply isPlain_of_isUnreserved
  simp [isUnreserved, Char.isAlphanum, h]

theorem encodes_percentEncode (t : String) : Encodes (percentEncode t.toList) t := by
  rw [Encodes, percentEncode]
  induction utf8Bytes t.toList with
  | nil => exact .nil
  | cons b bytes ih =>
    rw [List.flatMap_cons]
    split
    · rename_i hunreserved
      obtain ⟨hplain, hfragment⟩ := isPlain_of_isUnreserved hunreserved
      have hescapes := Escapes.plain hplain hfragment ih
      rwa [asciiByte_ofNat_toNat] at hescapes
    · have hhigh : IsHexDigit (hexDigit (b.toNat / 16)).toUpper (b.toNat / 16 % 16) :=
        ⟨Nat.mod_lt _ (by decide), .inr rfl⟩
      have hlow : IsHexDigit (hexDigit b.toNat).toUpper (b.toNat % 16) :=
        ⟨Nat.mod_lt _ (by decide), .inr rfl⟩
      have hescapes := Escapes.escape hhigh hlow ih
      rwa [ofNat_digits] at hescapes

/-- The part of a query is this pair of a name and a value. -/
def IsPair (part : List Char) (field : String × String) : Prop :=
  ∃ name value, part = name ++ '=' :: value ∧ Encodes name field.1 ∧ Encodes value field.2

variable {part : List Char} {field : String × String} {names : List String}

theorem IsPair.pair_eq (h : IsPair part field) : pair part = field := by
  obtain ⟨name, value, rfl, hname, hvalue⟩ := h
  have hne : ∀ c ∈ name, decide (c ≠ '=') = true := by
    intro c hc
    rw [decide_eq_true_eq]
    exact fun heq => hname.not_isDelimiter c hc (.inl heq)
  have htake : (name ++ '=' :: value).takeWhile (· ≠ '=') = name := by
    rw [List.takeWhile_append_of_pos hne]
    simp
  have hdrop : (name ++ '=' :: value).dropWhile (· ≠ '=') = '=' :: value := by
    rw [List.dropWhile_append_of_pos hne]
    simp
  rw [pair, htake, hdrop, hname.decode_eq, List.drop_one, List.tail_cons, hvalue.decode_eq]

theorem IsPair.ne_nil (h : IsPair part field) : part ≠ [] := by
  obtain ⟨name, value, rfl, -⟩ := h
  simp

theorem IsPair.ne_of_mem (h : IsPair part field) {c : Char} (hc : c ∈ part) :
    c ≠ '&' ∧ c ≠ '#' := by
  obtain ⟨name, value, rfl, hname, hvalue⟩ := h
  have hdelimiter : ¬ IsDelimiter c → c ≠ '&' ∧ c ≠ '#' :=
    fun h => ⟨fun heq => h (.inr (.inl heq)), fun heq => h (.inr (.inr heq))⟩
  rw [List.mem_append, List.mem_cons] at hc
  rcases hc with hc | rfl | hc
  · exact hdelimiter (hname.not_isDelimiter c hc)
  · decide
  · exact hdelimiter (hvalue.not_isDelimiter c hc)

section Queries

variable {parts : List (List Char)} {fields : Fields}

theorem exists_isPair (h : List.Forall₂ IsPair parts fields) :
    ∀ part ∈ parts, ∃ field, IsPair part field := by
  induction h with
  | nil => simp
  | cons hpair hrest ih => exact List.forall_mem_cons.mpr ⟨⟨_, hpair⟩, ih⟩

theorem map_pair_eq (h : List.Forall₂ IsPair parts fields) : parts.map pair = fields := by
  induction h with
  | nil => rfl
  | cons hpair hrest ih => rw [List.map_cons, hpair.pair_eq, ih]

theorem pairs_eq (h : List.Forall₂ IsPair parts fields) :
    pairs (['&'].intercalate parts) = fields := by
  have hparts : ∀ part ∈ parts, part ≠ [] ∧ '&' ∉ part := by
    intro part hpart
    obtain ⟨field, hfield⟩ := exists_isPair h part hpart
    exact ⟨hfield.ne_nil, fun hc => (hfield.ne_of_mem hc).1 rfl⟩
  have hpairs := map_pair_eq h
  rw [pairs]
  cases parts with
  | nil => rw [← hpairs]; rfl
  | cons part parts =>
    rw [List.splitOn_intercalate _ (fun p hp => (hparts p hp).2) (List.cons_ne_nil _ _),
      List.filter_eq_self.mpr, hpairs]
    intro p hp
    simpa using (hparts p hp).1

theorem collect_eq_ok {rest : Fields} (hnames : ∀ field ∈ rest, field.1 ∈ names)
    (hdistinct : Fields.Distinct (rest.reverse ++ fields)) :
    collect names fields rest = .ok (rest.reverse ++ fields) := by
  induction rest generalizing fields with
  | nil => rfl
  | cons field rest ih =>
    obtain ⟨hname, hrest⟩ := List.forall_mem_cons.mp hnames
    rw [List.reverse_cons, List.append_assoc, List.singleton_append] at hdistinct ⊢
    rw [collect, if_pos hname, hdistinct.of_append_right.isGiven_eq_false,
      if_neg Bool.false_ne_true, ih hrest hdistinct]

/-- A query of encoded pairs whose names are asked for, no name twice, is read as these pairs. -/
theorem read_eq_ok (h : List.Forall₂ IsPair parts fields)
    (hnames : ∀ field ∈ fields, field.1 ∈ names) (hdistinct : fields.Distinct) :
    read names (['&'].intercalate parts) = .ok fields.reverse := by
  have hreverse : Fields.Distinct (fields.reverse ++ []) := by
    rw [List.append_nil]
    exact hdistinct.reverse
  rw [read, pairs_eq h, collect_eq_ok hnames hreverse, List.append_nil]

end Queries

end Form
end Agenda
