/-!
# Selections

A selection is a non-empty set of members of `Fin n`, held as one bit for each member. It is built
from a list of members in any order, with repetitions allowed, and listed in ascending order.
-/

namespace Agenda

/-- A non-empty set of members of `Fin n`. -/
structure Selection (n : Nat) where
  bits : BitVec n
  bits_ne_zero : bits ≠ 0#n
deriving DecidableEq

namespace Selection

variable {n : Nat}

def ofBits? (bits : BitVec n) : Option (Selection n) :=
  if h : bits ≠ 0#n then some ⟨bits, h⟩ else none

/-- The bits of all listed members. -/
def bitsOf (members : List (Fin n)) : BitVec n :=
  members.foldl (fun bits (i : Fin n) => bits ||| BitVec.twoPow n i) 0#n

def ofList? (members : List (Fin n)) : Option (Selection n) := ofBits? (bitsOf members)

/-- The place `i` is selected; no place outside `Fin n` is. -/
def contains (s : Selection n) (i : Nat) : Bool := s.bits.getLsbD i

instance : Membership (Fin n) (Selection n) := ⟨fun s i => s.contains i = true⟩

instance (i : Fin n) (s : Selection n) : Decidable (i ∈ s) :=
  inferInstanceAs (Decidable (s.contains i = true))

theorem mem_def {i : Fin n} {s : Selection n} : i ∈ s ↔ s.contains i = true := Iff.rfl

def toList (s : Selection n) : List (Fin n) :=
  (List.finRange n).filter fun i => s.contains i

theorem mem_toList {s : Selection n} {i : Fin n} : i ∈ s.toList ↔ i ∈ s := by
  simp [toList, mem_def]

theorem getLsbD_foldl_twoPow (members : List (Fin n)) (bits : BitVec n) (i : Fin n) :
    (members.foldl (fun bits (j : Fin n) => bits ||| BitVec.twoPow n j) bits).getLsbD i = true ↔
      bits.getLsbD i = true ∨ i ∈ members := by
  induction members generalizing bits with
  | nil => simp
  | cons j rest ih =>
    rw [List.foldl_cons, ih, BitVec.getLsbD_or, BitVec.getLsbD_twoPow]
    by_cases h : i = j
    · subst h
      simp
    · have : ¬ (j : Nat) = i := fun e => h (Fin.ext e.symm)
      simp [h, this]

theorem getLsbD_bitsOf (members : List (Fin n)) (i : Fin n) :
    (bitsOf members).getLsbD i = true ↔ i ∈ members := by
  rw [bitsOf, getLsbD_foldl_twoPow]
  simp

theorem mem_of_ofList? {members : List (Fin n)} {s : Selection n}
    (h : ofList? members = some s) (i : Fin n) : i ∈ s ↔ i ∈ members := by
  unfold ofList? ofBits? at h
  split at h
  · cases h
    rw [mem_def, contains, getLsbD_bitsOf]
  · cases h

end Selection

end Agenda
