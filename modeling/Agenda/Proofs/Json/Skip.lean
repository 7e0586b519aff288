import Agenda.Json.Skip
import Agenda.Proofs.Json.Text
import Mathlib.Data.List.DropRight

/-!
# Values that nobody asks for

A value is a literal, a text, a number, or it holds other values between brackets, with space
between all tokens. A text that is skipped may escape surrogates that do not come in pairs. A number
ends where nothing goes on with it, and so every value is skipped in front of space, a comma or a
closing bracket, however deep its brackets are nested.
-/

namespace Agenda
namespace Json

def AllSpace (s : List Char) : Prop := ∀ c ∈ s, isSpace c = true

variable {s rest gap : List Char} {c : Char}

theorem allSpace_nil : AllSpace [] := by simp [AllSpace]

theorem skipSpace_append (h : AllSpace gap) (s : List Char) :
    skipSpace (gap ++ s) = skipSpace s :=
  List.dropWhile_append_of_pos h

theorem skipSpace_cons (h : isSpace c = false) (s : List Char) : skipSpace (c :: s) = c :: s := by
  rw [skipSpace, List.dropWhile_cons_of_neg (by simp [h])]

theorem skipSpace_eq_nil (h : AllSpace s) : skipSpace s = [] := by
  have hskip := skipSpace_append h []
  rwa [List.append_nil] at hskip

/-- What may stand between the quotes of a text that is skipped. -/
inductive IsInner : List Char → Prop
  | nil : IsInner []
  | plain {x : Char} {s : List Char} (hquote : x ≠ '"') (hbackslash : x ≠ '\\')
      (hcontrol : 0x20 ≤ x.toNat) (hs : IsInner s) : IsInner (x :: s)
  | short {letter x : Char} {s : List Char} (hletter : (letter, x) ∈ shortEscapes)
      (hs : IsInner s) : IsInner ('\\' :: letter :: s)
  | quad {a b c d : Char} {n : Nat} {s : List Char} (hn : IsQuad a b c d n) (hs : IsInner s) :
      IsInner ('\\' :: 'u' :: a :: b :: c :: d :: s)

theorem skipText_plain {x : Char} (hquote : x ≠ '"') (hbackslash : x ≠ '\\')
    (hcontrol : 0x20 ≤ x.toNat) : skipText (x :: rest) = skipText rest := by
  rw [skipText]
  · exact if_neg (Nat.not_lt.mpr hcontrol)
  all_goals simp_all

theorem skipText_short {letter x : Char} (h : (letter, x) ∈ shortEscapes) :
    skipText ('\\' :: letter :: rest) = skipText rest := by
  simp only [shortEscapes, List.mem_cons, Prod.mk.injEq, List.not_mem_nil, or_false] at h
  rcases h with ⟨rfl, rfl⟩ | ⟨rfl, rfl⟩ | ⟨rfl, rfl⟩ | ⟨rfl, rfl⟩ | ⟨rfl, rfl⟩ | ⟨rfl, rfl⟩ |
    ⟨rfl, rfl⟩ | ⟨rfl, rfl⟩ <;> simp [skipText, escapedChar?]

theorem IsInner.skipText_eq (h : IsInner s) (rest : List Char) :
    skipText (s ++ '"' :: rest) = some rest := by
  induction h with
  | nil => simp [skipText]
  | plain hquote hbackslash hcontrol hs ih =>
    rw [List.cons_append, skipText_plain hquote hbackslash hcontrol, ih]
  | short hletter hs ih =>
    rw [List.cons_append, List.cons_append, skipText_short hletter, ih]
  | quad hn hs ih =>
    simp only [List.cons_append, skipText, hn.hexQuad?_eq, ih]

theorem Spells.isInner {t : List Char} (h : Spells s t) : IsInner s := by
  induction h with
  | nil => exact .nil
  | plain hquote hbackslash hcontrol hs ih => exact .plain hquote hbackslash hcontrol ih
  | short hletter hs ih => exact .short hletter ih
  | quad hx hs ih => exact .quad hx ih
  | pair hhigh hlow hx hfirst hsecond hs ih => exact .quad hfirst (.quad hsecond ih)

structure AreDigits (s : List Char) : Prop where
  ne_nil : s ≠ []
  isDigit : ∀ c ∈ s, c.isDigit = true

/-- The digits in front of the point: a zero alone, or digits of which the first is none. -/
def IsWhole (s : List Char) : Prop := s = ['0'] ∨ AreDigits s ∧ s.head? ≠ some '0'

def IsFraction (s : List Char) : Prop := s = [] ∨ ∃ digits, AreDigits digits ∧ s = '.' :: digits

def IsExponent (s : List Char) : Prop :=
  s = [] ∨ ∃ e sign digits, e ∈ ['e', 'E'] ∧ sign ∈ [[], ['+'], ['-']] ∧ AreDigits digits ∧
    s = e :: (sign ++ digits)

/-- A number, with or without sign, fraction and exponent. -/
def IsNumber (s : List Char) : Prop :=
  ∃ sign whole fraction exponent, sign ∈ [[], ['-']] ∧ IsWhole whole ∧ IsFraction fraction ∧
    IsExponent exponent ∧ s = sign ++ (whole ++ (fraction ++ exponent))

/-- What may stand behind a value. -/
def EndsValue (rest : List Char) : Prop :=
  ∀ c ∈ rest.head?, isSpace c = true ∨ c = ',' ∨ c = ']' ∨ c = '\x7d'

theorem EndsValue.not_continues (h : EndsValue rest) (hc : c ∈ rest.head?) :
    c.isDigit = false ∧ c ≠ '.' ∧ c ≠ 'e' ∧ c ≠ 'E' := by
  rcases h c hc with hspace | rfl | rfl | rfl
  · simp only [isSpace, Bool.or_eq_true, beq_iff_eq] at hspace
    rcases hspace with ((rfl | rfl) | rfl) | rfl <;> decide
  all_goals decide

theorem AreDigits.skipDigits_eq (h : AreDigits s) (hrest : ∀ c ∈ rest.head?, c.isDigit = false) :
    skipDigits (s ++ rest) = some rest := by
  obtain ⟨hne, hdigit⟩ := h
  cases s with
  | nil => exact absurd rfl hne
  | cons c s =>
    obtain ⟨hc, hs⟩ := List.forall_mem_cons.mp hdigit
    have hdrop : rest.dropWhile Char.isDigit = rest := by
      cases rest with
      | nil => rfl
      | cons d rest => exact List.dropWhile_cons_of_neg (by simp [hrest d rfl])
    rw [List.cons_append, skipDigits, if_pos hc, List.dropWhile_append_of_pos hs, hdrop]

theorem skipExponent_eq_self (h : EndsValue rest) : skipExponent rest = some rest := by
  unfold skipExponent
  split
  · exact absurd rfl (h.not_continues rfl).2.2.1
  · exact absurd rfl (h.not_continues rfl).2.2.2
  · rfl

theorem AreDigits.exists_cons (h : AreDigits s) : ∃ c s', s = c :: s' ∧ c.isDigit = true := by
  obtain ⟨hne, hdigit⟩ := h
  cases s with
  | nil => exact absurd rfl hne
  | cons c s => exact ⟨c, s, rfl, hdigit c List.mem_cons_self⟩

theorem AreDigits.skipExponent_eq (h : AreDigits s) {e : Char} (he : e = 'e' ∨ e = 'E') :
    skipExponent (e :: (s ++ rest)) = skipDigits (s ++ rest) := by
  obtain ⟨c, s, rfl, hc⟩ := h.exists_cons
  have hplus : c ≠ '+' := by
    rintro rfl
    cases hc
  have hminus : c ≠ '-' := by
    rintro rfl
    cases hc
  rcases he with rfl | rfl <;> simp [skipExponent, hplus, hminus]

theorem IsExponent.skipExponent_eq (h : IsExponent s) (hrest : EndsValue rest) :
    skipExponent (s ++ rest) = some rest := by
  rcases h with rfl | ⟨e, sign, digits, he, hsign, hdigits, rfl⟩
  · exact skipExponent_eq_self hrest
  · have hskip := hdigits.skipDigits_eq fun c hc => (hrest.not_continues hc).1
    rw [List.cons_append, List.append_assoc]
    simp only [List.mem_cons, List.not_mem_nil, or_false] at he hsign
    rcases hsign with rfl | rfl | rfl
    · rw [List.nil_append, hdigits.skipExponent_eq he, hskip]
    · rcases he with rfl | rfl <;> exact hskip
    · rcases he with rfl | rfl <;> exact hskip

theorem IsExponent.head_ne (h : IsExponent s) (hrest : EndsValue rest)
    (hc : c ∈ (s ++ rest).head?) : c.isDigit = false ∧ c ≠ '.' := by
  rcases h with rfl | ⟨e, sign, digits, he, -, -, rfl⟩
  · obtain ⟨hdigit, hpoint, -⟩ := hrest.not_continues hc
    exact ⟨hdigit, hpoint⟩
  · obtain rfl : e = c := by simpa using hc
    simp only [List.mem_cons, List.not_mem_nil, or_false] at he
    rcases he with rfl | rfl <;> decide

theorem IsFraction.skipFraction_eq {exponent : List Char} (h : IsFraction s)
    (hexponent : IsExponent exponent) (hrest : EndsValue rest) :
    skipFraction (s ++ (exponent ++ rest)) = some rest := by
  rcases h with rfl | ⟨digits, hdigits, rfl⟩
  · have hskip := hexponent.skipExponent_eq hrest
    rw [List.nil_append]
    unfold skipFraction
    split
    · rename_i heq
      exact absurd rfl (hexponent.head_ne hrest (by rw [heq]; rfl)).2
    · exact hskip
  · have hskip := hdigits.skipDigits_eq fun c hc => (hexponent.head_ne hrest hc).1
    rw [List.cons_append, skipFraction, hskip, Option.bind_some, hexponent.skipExponent_eq hrest]

theorem IsFraction.head_ne {exponent : List Char} (h : IsFraction s)
    (hexponent : IsExponent exponent) (hrest : EndsValue rest)
    (hc : c ∈ (s ++ (exponent ++ rest)).head?) : c.isDigit = false := by
  rcases h with rfl | ⟨digits, -, rfl⟩
  · exact (hexponent.head_ne hrest hc).1
  · obtain rfl : '.' = c := by simpa using hc
    rfl

theorem IsWhole.skipMagnitude_eq {fraction exponent : List Char} (h : IsWhole s)
    (hfraction : IsFraction fraction) (hexponent : IsExponent exponent) (hrest : EndsValue rest) :
    skipMagnitude (s ++ (fraction ++ (exponent ++ rest))) = some rest := by
  have hskip := hfraction.skipFraction_eq hexponent hrest
  have hhead := fun c hc => hfraction.head_ne (c := c) hexponent hrest hc
  generalize fraction ++ (exponent ++ rest) = behind at hskip hhead
  rcases h with rfl | ⟨hdigits, hzero⟩
  · cases behind with
    | nil => exact hskip
    | cons c behind =>
      have hc : c.isDigit = false := hhead c rfl
      rw [List.singleton_append, skipMagnitude]
      simp only [hc, Bool.false_eq_true, if_false]
      exact hskip
  · have hdigitsSkip := hdigits.skipDigits_eq hhead
    unfold skipMagnitude
    split
    · rename_i heq
      obtain ⟨c, s, rfl, -⟩ := hdigits.exists_cons
      cases heq
      exact absurd rfl hzero
    · rw [hdigitsSkip, Option.bind_some, hskip]

theorem IsWhole.exists_cons (h : IsWhole s) : ∃ c s', s = c :: s' ∧ c.isDigit = true := by
  rcases h with rfl | ⟨hdigits, -⟩
  · exact ⟨'0', [], rfl, rfl⟩
  · exact hdigits.exists_cons

theorem skipAtom_eq_of_isDigit (hc : c.isDigit = true) (s : List Char) :
    skipAtom (c :: s) = skipMagnitude (c :: s) := by
  unfold skipAtom
  split
  case h_6 => rfl
  all_goals
    rename_i heq
    cases heq
    cases hc

theorem IsNumber.skipAtom_eq (h : IsNumber s) (hrest : EndsValue rest) :
    skipAtom (s ++ rest) = some rest := by
  obtain ⟨sign, whole, fraction, exponent, hsign, hwhole, hfraction, hexponent, rfl⟩ := h
  have hskip := hwhole.skipMagnitude_eq hfraction hexponent hrest
  simp only [List.append_assoc]
  simp only [List.mem_cons, List.not_mem_nil, or_false] at hsign
  rcases hsign with rfl | rfl
  · obtain ⟨c, whole, rfl, hc⟩ := hwhole.exists_cons
    exact (skipAtom_eq_of_isDigit hc _).trans hskip
  · exact hskip

/-- A value that holds no other values. -/
inductive IsAtom : List Char → Prop
  | null : IsAtom "null".toList
  | true : IsAtom "true".toList
  | false : IsAtom "false".toList
  | text {s : List Char} (h : IsInner s) : IsAtom ('"' :: s ++ ['"'])
  | number {s : List Char} (h : IsNumber s) : IsAtom s

theorem IsAtom.skipAtom_eq (h : IsAtom s) (hrest : EndsValue rest) :
    skipAtom (s ++ rest) = some rest := by
  cases h with
  | null => rfl
  | true => rfl
  | false => rfl
  | @text s h =>
    rw [List.append_assoc, List.cons_append, List.singleton_append]
    exact h.skipText_eq rest
  | number h => exact h.skipAtom_eq hrest

/-- The character is neither space nor a bracket. -/
structure StartsAtom (c : Char) : Prop where
  not_space : isSpace c = false
  not_bracket : c ∉ ['[', ']', '\x7b', '\x7d']

theorem startsAtom_of_isDigit (h : c.isDigit = true) : StartsAtom c := by
  constructor
  · rw [Bool.eq_false_iff]
    intro hspace
    simp only [isSpace, Bool.or_eq_true, beq_iff_eq] at hspace
    rcases hspace with ((rfl | rfl) | rfl) | rfl <;> cases h
  · intro hbracket
    simp only [List.mem_cons, List.not_mem_nil, or_false] at hbracket
    rcases hbracket with rfl | rfl | rfl | rfl <;> cases h

theorem IsAtom.exists_cons (h : IsAtom s) : ∃ c s', s = c :: s' ∧ StartsAtom c := by
  cases h with
  | null => exact ⟨'n', _, rfl, by decide, by decide⟩
  | true => exact ⟨'t', _, rfl, by decide, by decide⟩
  | false => exact ⟨'f', _, rfl, by decide, by decide⟩
  | text h => exact ⟨'"', _, rfl, by decide, by decide⟩
  | number h =>
    obtain ⟨sign, whole, _, _, hsign, hwhole, -, -, rfl⟩ := h
    simp only [List.mem_cons, List.not_mem_nil, or_false] at hsign
    rcases hsign with rfl | rfl
    · obtain ⟨c, whole, rfl, hc⟩ := hwhole.exists_cons
      exact ⟨c, _, rfl, startsAtom_of_isDigit hc⟩
    · exact ⟨'-', _, rfl, by decide, by decide⟩

def Frame.opening : Frame → Char
  | array => '['
  | object => '\x7b'

def Frame.closing : Frame → Char
  | array => ']'
  | object => '\x7d'

/-- What stands in front of a value between brackets: nothing in an array, a key in an object. -/
inductive IsLabel : Frame → List Char → Prop
  | array : IsLabel .array []
  | object {before key after : List Char} (hbefore : AllSpace before) (h : IsInner key)
      (hafter : AllSpace after) :
      IsLabel .object (before ++ '"' :: key ++ '"' :: after ++ [':'])

mutual

/-- A value without space around it. -/
inductive IsValue : List Char → Prop
  | atom {s : List Char} (h : IsAtom s) : IsValue s
  | empty {gap : List Char} (frame : Frame) (hgap : AllSpace gap) :
      IsValue (frame.opening :: gap ++ [frame.closing])
  | items {frame : Frame} {s : List Char} (h : AreItems frame s) : IsValue (frame.opening :: s)

/-- Values with commas between them, up to the closing bracket. -/
inductive AreItems : Frame → List Char → Prop
  | last {frame : Frame} {label before s after : List Char} (hlabel : IsLabel frame label)
      (hbefore : AllSpace before) (h : IsValue s) (hafter : AllSpace after) :
      AreItems frame (label ++ before ++ s ++ after ++ [frame.closing])
  | cons {frame : Frame} {label before s after rest : List Char} (hlabel : IsLabel frame label)
      (hbefore : AllSpace before) (h : IsValue s) (hafter : AllSpace after)
      (hrest : AreItems frame rest) :
      AreItems frame (label ++ before ++ s ++ after ++ ',' :: rest)

end

variable {frame : Frame} {frames : List Frame}

/-- The rest of an open bracket from the next item on. -/
def skipItem (frame : Frame) (outer : List Frame) (s : List Char) : Option (List Char) :=
  match frame with
  | .array => skipFrom (.array :: outer) .value s
  | .object => (skipKey s).bind (skipFrom (.object :: outer) .value)

/-- Where a value is expected, it begins behind space. Unlike the defining equation this one has no
proofs in its cases, so that the text in it can be rewritten. -/
theorem skipFrom_value (frames : List Frame) (s : List Char) :
    skipFrom frames .value s =
      match skipSpace s with
      | '[' :: rest => skipFrom (.array :: frames) .content rest
      | '\x7b' :: rest => skipFrom (.object :: frames) .content rest
      | start => (skipAtom start).bind (skipFrom frames .separator) := by
  rw [skipFrom]
  split
  · simp_all
  · simp_all
  · split <;> simp_all

theorem skipFrom_open (hs : skipSpace s = frame.opening :: rest) :
    skipFrom frames .value s = skipFrom (frame :: frames) .content rest := by
  rw [skipFrom_value, hs]
  cases frame <;> rfl

theorem skipFrom_atom (hs : skipSpace s = c :: rest) (hc : StartsAtom c) {behind : List Char}
    (hskip : skipAtom (c :: rest) = some behind) :
    skipFrom frames .value s = skipFrom frames .separator behind := by
  rw [skipFrom_value, hs]
  split
  · rename_i heq
    cases heq
    exact absurd hc.not_bracket (by decide)
  · rename_i heq
    cases heq
    exact absurd hc.not_bracket (by decide)
  · rw [hskip, Option.bind_some]

theorem skipFrom_close_content (hs : skipSpace s = frame.closing :: rest) :
    skipFrom (frame :: frames) .content s = skipFrom frames .separator rest := by
  cases frame <;> rw [skipFrom] <;> split <;> simp_all [Frame.closing]

theorem skipItem_skipSpace (frame : Frame) (frames : List Frame) (s : List Char) :
    skipItem frame frames (skipSpace s) = skipItem frame frames s := by
  have hskip : skipSpace (skipSpace s) = skipSpace s := List.dropWhile_idempotent _ s
  cases frame
  · simp only [skipItem, skipFrom_value, hskip]
  · simp only [skipItem, skipKey, hskip]

theorem skipFrom_content (hs : skipSpace s = c :: rest) (hc : c ≠ frame.closing) :
    skipFrom (frame :: frames) .content s = skipItem frame frames s := by
  rw [← skipItem_skipSpace, hs]
  cases frame
  · rw [skipFrom]
    split
    · rename_i heq
      cases hs.symm.trans heq
      exact absurd rfl hc
    · simp_all [skipItem]
  · rw [skipFrom]
    split
    · rename_i heq
      cases hs.symm.trans heq
      exact absurd rfl hc
    · split <;> simp_all [skipItem]

theorem skipFrom_comma (hs : skipSpace s = ',' :: rest) :
    skipFrom (frame :: frames) .separator s = skipItem frame frames rest := by
  cases frame
  · rw [skipFrom]
    split <;> simp_all [skipItem]
  · rw [skipFrom]
    split
    · split <;> simp_all [skipItem]
    · simp_all
    · simp_all

theorem skipFrom_close (hs : skipSpace s = frame.closing :: rest) :
    skipFrom (frame :: frames) .separator s = skipFrom frames .separator rest := by
  cases frame <;> rw [skipFrom] <;> split <;> simp_all [Frame.closing]

theorem Frame.isSpace_opening (frame : Frame) : isSpace frame.opening = false := by
  cases frame <;> rfl

theorem Frame.isSpace_closing (frame : Frame) : isSpace frame.closing = false := by
  cases frame <;> rfl

theorem Frame.opening_ne_closing (a b : Frame) : a.opening ≠ b.closing := by
  cases a <;> cases b <;> decide

theorem skipSpace_append_cons (hgap : AllSpace gap) (hc : isSpace c = false) (rest : List Char) :
    skipSpace (gap ++ c :: rest) = c :: rest := by
  rw [skipSpace_append hgap, skipSpace_cons hc]

theorem endsValue_append (hgap : AllSpace gap) (hc : c = ',' ∨ c = ']' ∨ c = '\x7d')
    (rest : List Char) : EndsValue (gap ++ c :: rest) := by
  intro d hd
  cases gap with
  | nil =>
    cases hd
    exact .inr hc
  | cons e gap =>
    cases hd
    exact .inl (hgap _ List.mem_cons_self)

theorem endsValue_closing (hgap : AllSpace gap) (frame : Frame) (rest : List Char) :
    EndsValue (gap ++ frame.closing :: rest) :=
  endsValue_append hgap (by cases frame <;> simp [Frame.closing]) rest

theorem IsLabel.skipItem_eq {label : List Char} (h : IsLabel frame label) (rest : List Char) :
    skipItem frame frames (label ++ rest) = skipFrom (frame :: frames) .value rest := by
  cases h with
  | array => rfl
  | @object before key after hbefore h hafter =>
    have hkey : skipSpace (before ++ '"' :: (key ++ '"' :: (after ++ ':' :: rest))) =
        '"' :: (key ++ '"' :: (after ++ ':' :: rest)) := skipSpace_append_cons hbefore rfl _
    have hcolon : skipSpace (after ++ ':' :: rest) = ':' :: rest :=
      skipSpace_append_cons hafter rfl _
    simp [skipItem, skipKey, List.append_assoc, hkey, h.skipText_eq, hcolon]

theorem IsValue.exists_cons (h : IsValue s) :
    ∃ c s', s = c :: s' ∧ isSpace c = false ∧ ∀ frame : Frame, c ≠ frame.closing := by
  cases h with
  | atom h =>
    obtain ⟨c, s', rfl, hspace, hbracket⟩ := h.exists_cons
    refine ⟨c, s', rfl, hspace, fun frame => ?_⟩
    rintro rfl
    revert hbracket
    cases frame <;> decide
  | empty frame hgap =>
    exact ⟨_, _, rfl, frame.isSpace_opening, frame.opening_ne_closing⟩
  | @items frame s h => exact ⟨_, _, rfl, frame.isSpace_opening, frame.opening_ne_closing⟩

theorem IsLabel.exists_skipSpace {label before : List Char} (hlabel : IsLabel frame label)
    (hbefore : AllSpace before) (h : IsValue s) :
    ∃ c s', c ≠ frame.closing ∧
      ∀ rest, skipSpace (label ++ before ++ s ++ rest) = c :: (s' ++ rest) := by
  cases hlabel with
  | array =>
    obtain ⟨c, s', rfl, hc, hclosing⟩ := h.exists_cons
    refine ⟨c, s', hclosing .array, fun rest => ?_⟩
    rw [List.nil_append, List.append_assoc, List.cons_append, skipSpace_append_cons hbefore hc]
  | @object space key after hspace hkey hafter =>
    refine ⟨'"', key ++ '"' :: after ++ [':'] ++ before ++ s, by decide, fun rest => ?_⟩
    simp only [List.append_assoc, List.cons_append]
    rw [skipSpace_append_cons hspace rfl]

theorem AreItems.exists_skipSpace {frame : Frame} {s : List Char} (h : AreItems frame s)
    (rest : List Char) :
    ∃ c s', c ≠ frame.closing ∧ skipSpace (s ++ rest) = c :: s' := by
  cases h with
  | @last frame label before s after hlabel hbefore h hafter =>
    obtain ⟨c, s', hc, hskip⟩ := hlabel.exists_skipSpace hbefore h
    refine ⟨c, s' ++ (after ++ ([frame.closing] ++ rest)), hc, ?_⟩
    rw [← hskip]
    simp only [List.append_assoc]
  | @cons frame label before s after items hlabel hbefore h hafter hitems =>
    obtain ⟨c, s', hc, hskip⟩ := hlabel.exists_skipSpace hbefore h
    refine ⟨c, s' ++ (after ++ (',' :: items ++ rest)), hc, ?_⟩
    rw [← hskip]
    simp only [List.append_assoc]

-- values and the items in their brackets hold each other, so that both are shown at once
mutual

/-- A value is skipped, behind space and in front of what may follow it. -/
theorem IsValue.skipFrom_eq {s : List Char} (h : IsValue s) {gap : List Char} (hgap : AllSpace gap)
    {rest : List Char} (hrest : EndsValue rest) (frames : List Frame) :
    skipFrom frames .value (gap ++ (s ++ rest)) = skipFrom frames .separator rest := by
  match h with
  | .atom h =>
    have hskip := h.skipAtom_eq hrest
    obtain ⟨c, s', rfl, hc⟩ := h.exists_cons
    exact skipFrom_atom (skipSpace_append_cons hgap hc.not_space _) hc hskip
  | @IsValue.empty inner frame hinner =>
    simp only [List.cons_append, List.append_assoc]
    rw [skipFrom_open (skipSpace_append_cons hgap frame.isSpace_opening _)]
    exact skipFrom_close_content (skipSpace_append_cons hinner frame.isSpace_closing rest)
  | @IsValue.items frame s h =>
    obtain ⟨c, s', hc, hskip⟩ := h.exists_skipSpace rest
    rw [List.cons_append, skipFrom_open (skipSpace_append_cons hgap frame.isSpace_opening _),
      skipFrom_content hskip hc, h.skipItem_eq rest frames]

theorem AreItems.skipItem_eq {frame : Frame} {s : List Char} (h : AreItems frame s)
    (rest : List Char) (frames : List Frame) :
    skipItem frame frames (s ++ rest) = skipFrom frames .separator rest := by
  match h with
  | .last hlabel hbefore h hafter =>
    simp only [List.append_assoc, List.singleton_append]
    rw [hlabel.skipItem_eq, h.skipFrom_eq hbefore (endsValue_closing hafter frame _)]
    exact skipFrom_close (skipSpace_append_cons hafter frame.isSpace_closing _)
  | .cons hlabel hbefore h hafter hrest =>
    simp only [List.append_assoc, List.cons_append]
    rw [hlabel.skipItem_eq, h.skipFrom_eq hbefore (endsValue_append hafter (.inl rfl) _)]
    exact (skipFrom_comma (skipSpace_append_cons hafter rfl _)).trans
      (hrest.skipItem_eq rest frames)

end

theorem IsValue.skipValue_eq (h : IsValue s) (hgap : AllSpace gap) (hrest : EndsValue rest) :
    skipValue (gap ++ (s ++ rest)) = some rest := by
  rw [skipValue, h.skipFrom_eq hgap hrest, skipFrom]

end Json
end Agenda
