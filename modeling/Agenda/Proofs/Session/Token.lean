import Agenda.Proofs.Calendar.Day
import Agenda.Proofs.Text.Hex
import Agenda.Proofs.Text.Numeral
import Agenda.Session.Token

/-!
# Valid tokens

A token is valid when it is an integer literal of a later second, a point, and the digits of the
keyed digest of this second. The second may be spelled in every way that an integer literal can be,
and the digits in either case; there is no other freedom. A token that is issued is one of them, and
stays valid until the second that it names: eight hours after the second in which it was issued,
which can be earlier than eight hours after the moment.
-/

namespace Agenda

open Text

theorem Day.date_epoch : Day.epoch.date = ⟨1970, 1, 1⟩ := by decide

/-- The nanoseconds since 1970 began. -/
def Instant.nanoseconds (t : Instant) : Int := 10 ^ 9 * t.unix + (t.nanosecond : Nat)

/-- The seconds of the calendar and the lifetimes of their tokens fit in 64 bits. -/
theorem Instant.expiry_range (t : Instant) :
    int64Min ≤ t.unix + Token.lifetime ∧ t.unix + Token.lifetime ≤ int64Max := by
  have hfirst := t.day.first_le
  have hlast := t.day.le_last
  have hsecond := t.second.isLt
  simp only [yearStart, firstYear, lastYear] at hfirst hlast
  simp only [unix, Day.epoch, Token.lifetime, int64Min, int64Max]
  omega

namespace Token

variable {token password : String} {now issued : Instant}

theorem splitAt?_eq_some_iff {separator : Char} {s before after : List Char} :
    splitAt? separator s = some (before, after) ↔
      s = before ++ separator :: after ∧ separator ∉ before := by
  constructor
  · intro h
    have hcut := List.takeWhile_append_dropWhile (p := (· != separator)) (l := s)
    have hhead := List.head?_dropWhile_not (· != separator) s
    unfold splitAt? at h
    split at h
    · cases h
    · rename_i c rest hrest
      cases h
      rw [hrest] at hcut hhead
      obtain rfl : c = separator := by simpa using hhead
      refine ⟨hcut.symm, fun hmem => ?_⟩
      simpa using List.mem_takeWhile_imp hmem
  · rintro ⟨rfl, hnot⟩
    have hbefore : ∀ c ∈ before, (c != separator) = true := by
      intro c hc
      rw [bne_iff_ne]
      rintro rfl
      exact hnot hc
    unfold splitAt?
    rw [List.dropWhile_append_of_pos hbefore, List.takeWhile_append_of_pos hbefore]
    simp

/-- The token names a second at which it expires, and carries the digest of the second. -/
structure Names (password : String) (token : List Char) (expiry : Int) : Prop where
  min_le : int64Min ≤ expiry
  le_max : expiry ≤ int64Max
  exists_cut : ∃ numeral digest : List Char, token = numeral ++ '.' :: digest ∧ '.' ∉ numeral ∧
    IsInteger numeral expiry ∧ IsHex digest (signature password expiry)

theorem names_iff {token : List Char} {k : Int} : Names password token k ↔
    ∃ numeral digest, splitAt? '.' token = some (numeral, digest) ∧
      (readInt64 numeral).value? = some k ∧
      bytesOfHex? digest = some (signature password k) := by
  simp only [splitAt?_eq_some_iff, value?_readInt64_eq_some_iff, bytesOfHex?_eq_some_iff]
  constructor
  · rintro ⟨hmin, hmax, numeral, digest, hcut, hpoint, hinteger, hdigest⟩
    exact ⟨numeral, digest, ⟨hcut, hpoint⟩, ⟨hinteger, hmin, hmax⟩, hdigest⟩
  · rintro ⟨numeral, digest, ⟨hcut, hpoint⟩, ⟨hinteger, hmin, hmax⟩, hdigest⟩
    exact ⟨hmin, hmax, numeral, digest, hcut, hpoint, hinteger, hdigest⟩

theorem Names.unique {token : List Char} {k l : Int} (hk : Names password token k)
    (hl : Names password token l) : k = l := by
  obtain ⟨numeral, digest, hcut, hvalue, -⟩ := names_iff.mp hk
  obtain ⟨numeral', digest', hcut', hvalue', -⟩ := names_iff.mp hl
  rw [hcut] at hcut'
  cases hcut'
  exact Option.some.inj (hvalue.symm.trans hvalue')

theorem verify_eq_true_iff : verify token password now = true ↔
    password ≠ "" ∧ ∃ expiry, Names password token.toList expiry ∧ now.unix < expiry := by
  unfold verify
  constructor
  · intro h
    split at h
    · cases h
    · refine ⟨‹_›, ?_⟩
      split at h
      · cases h
      · rename_i numeral digest hcut
        split at h
        · rename_i expiry bytes hexpiry hbytes
          rw [Bool.and_eq_true, decide_eq_true_iff, beq_iff_eq] at h
          obtain ⟨hlater, rfl⟩ := h
          exact ⟨expiry, names_iff.mpr ⟨numeral, digest, hcut, hexpiry, hbytes⟩, hlater⟩
        · cases h
  · rintro ⟨hpassword, expiry, hnames, hlater⟩
    obtain ⟨numeral, digest, hcut, hexpiry, hbytes⟩ := names_iff.mp hnames
    rw [if_neg hpassword, hcut]
    simp only [hexpiry, hbytes, BEq.rfl, Bool.and_true, decide_eq_true_iff]
    exact hlater

theorem names_issue (password : String) (issued : Instant) :
    Names password (issue password issued).toList (issued.unix + lifetime) where
  min_le := issued.expiry_range.1
  le_max := issued.expiry_range.2
  exists_cut := by
    have hinteger := isInteger_decimal (issued.unix + lifetime)
    exact ⟨_, _, String.toList_ofList, hinteger.not_mem_point, hinteger, isHex_hexOfBytes _⟩

theorem issue_chars (password : String) (issued : Instant) :
    ∀ c ∈ (issue password issued).toList, 0x20 < c.toNat ∧ c.toNat ≤ 0x7E ∧ c ≠ ';' := by
  intro c hc
  rw [issue, String.toList_ofList, List.mem_append, List.mem_cons] at hc
  rcases hc with hc | rfl | hc
  · rcases (isInteger_decimal _).isDigit_or_sign c hc with hdigit | rfl | rfl
    · rw [Char.isDigit_iff_toNat] at hdigit
      change 48 ≤ c.toNat ∧ c.toNat ≤ 57 at hdigit
      refine ⟨by omega, by omega, ?_⟩
      rintro rfl
      simp at hdigit
    · decide
    · decide
  · decide
  · obtain ⟨n, hn⟩ := (isHex_hexOfBytes _).exists_isHexDigit c hc
    rw [isHexDigit_iff_toNat] at hn
    refine ⟨by omega, by omega, ?_⟩
    rintro rfl
    simp only [Char.reduceToNat] at hn
    omega

/-- What is issued is valid until its lifetime is over, both counted in whole seconds. -/
theorem verify_issue_eq_true_iff (hpassword : password ≠ "") :
    verify (issue password issued) password now = true ↔ now.unix < issued.unix + lifetime := by
  have hnames := names_issue password issued
  rw [verify_eq_true_iff]
  constructor
  · rintro ⟨-, expiry, hexpiry, hlater⟩
    rwa [hnames.unique hexpiry]
  · intro hlater
    exact ⟨hpassword, _, hnames, hlater⟩

/-- Outside leap seconds a token is valid for eight hours at most, and for all of them but a second at
least. -/
theorem lifetime_within_second (hpassword : password ≠ "")
    (hissued : (issued.nanosecond : Nat) < 10 ^ 9) (hnow : (now.nanosecond : Nat) < 10 ^ 9) :
    (now.nanoseconds + 10 ^ 9 ≤ issued.nanoseconds + 28800 * 10 ^ 9 →
      verify (issue password issued) password now = true) ∧
    (issued.nanoseconds + 28800 * 10 ^ 9 ≤ now.nanoseconds →
      verify (issue password issued) password now = false) := by
  have hvalid : verify (issue password issued) password now = true ↔
      now.unix < issued.unix + 28800 := verify_issue_eq_true_iff hpassword
  unfold Instant.nanoseconds
  constructor
  · intro hbefore
    rw [hvalid]
    omega
  · intro hafter
    rw [Bool.eq_false_iff, ne_eq, hvalid]
    omega

theorem signature_eq (password : String) (expiry : Int) : signature password expiry =
    Hmac.tag (bytesOf password) (utf8Bytes
      (hexOfBytes (Sha256.hash (bytesOf password)) ++ ':' :: decimal expiry)) := by
  rw [signature, passwordHash, String.toList_ofList]

theorem length_eq_of_isHex_signature {digest : List Char} {expiry : Int}
    (h : IsHex digest (signature password expiry)) : digest.length = 64 := by
  rw [h.length_eq, signature, Hmac.length_tag]

/-- The tokens that are valid under a password are exactly these: an integer literal of 64 bits for
a later second, a point, and 64 digits of the keyed digest of the canonical form of this second. A
token that is issued is one of them for eight hours, counted in whole seconds, before 1970 as well
as after. -/
theorem verify_exactly (password : String) :
    (∀ (token : String) (now : Instant), verify token password now = true ↔
      password ≠ "" ∧ ∃ (numeral digest : List Char) (expiry : Int),
        token.toList = numeral ++ '.' :: digest ∧ '.' ∉ numeral ∧
        IsInteger numeral expiry ∧ int64Min ≤ expiry ∧ expiry ≤ int64Max ∧ now.unix < expiry ∧
        digest.length = 64 ∧
        IsHex digest (Hmac.tag (bytesOf password) (utf8Bytes
          (hexOfBytes (Sha256.hash (bytesOf password)) ++ ':' :: decimal expiry)))) ∧
    (password ≠ "" → ∀ issued now : Instant,
      verify (issue password issued) password now = true ↔ now.unix < issued.unix + 28800) := by
  constructor
  · intro token now
    rw [verify_eq_true_iff]
    constructor
    · rintro ⟨hpassword, expiry, ⟨hmin, hmax, numeral, digest, hcut, hpoint, hinteger, hdigest⟩,
        hlater⟩
      have hlength := length_eq_of_isHex_signature hdigest
      rw [signature_eq] at hdigest
      exact ⟨hpassword, numeral, digest, expiry, hcut, hpoint, hinteger, hmin, hmax, hlater,
        hlength, hdigest⟩
    · rintro ⟨hpassword, numeral, digest, expiry, hcut, hpoint, hinteger, hmin, hmax, hlater, -,
        hdigest⟩
      refine ⟨hpassword, expiry, ⟨hmin, hmax, numeral, digest, hcut, hpoint, hinteger, ?_⟩, hlater⟩
      rwa [signature_eq]
  · intro hpassword issued now
    exact verify_issue_eq_true_iff hpassword

/-- A token that expires before 1970, up to its last nanosecond, and one with a sign and a zero
before its second. -/
theorem verify_exactly_secret : ∃ eve day : Day,
    eve.date = ⟨1969, 12, 31⟩ ∧ day.date = ⟨2024, 1, 26⟩ ∧
    verify (issue "secret" ⟨eve, 0, 0⟩) "secret" ⟨eve, 28799, 999999999⟩ = true ∧
    verify (issue "secret" ⟨eve, 0, 0⟩) "secret" ⟨eve, 28800, 0⟩ = false ∧
    verify (String.ofList ('+' :: padded 11 1706288400 ++ '.' ::
      hexOfBytes (signature "secret" 1706288400))) "secret" ⟨day, 61199, 0⟩ = true := by
  have hsecret : "secret" ≠ "" := by decide
  obtain ⟨hexactly, hissued⟩ := verify_exactly "secret"
  have hvalid := hissued hsecret
  refine ⟨⟨719162, by decide, by decide⟩, ⟨738911, by decide, by decide⟩, by decide, by decide,
    (hvalid _ _).mpr (by decide), ?_, ?_⟩
  · rw [Bool.eq_false_iff, ne_eq, hvalid]
    decide
  · have hinteger : IsInteger ('+' :: padded 11 1706288400) 1706288400 :=
      .plus (isDigits_padded 11 1706288400)
    have hdigest : IsHex (hexOfBytes (signature "secret" 1706288400)) _ := isHex_hexOfBytes _
    refine (hexactly _ _).mpr ⟨hsecret, _, _, _, String.toList_ofList, hinteger.not_mem_point,
      hinteger, by decide, by decide, by decide, length_eq_of_isHex_signature hdigest, ?_⟩
    rwa [← signature_eq]

/-- A token that is issued late in a second is refused before eight hours have passed, when its
last whole second is over. -/
theorem refused_before_eight_hours : ∃ token,
    token = issue "secret" ⟨Day.epoch, 0, 900000000⟩ ∧
    Instant.nanoseconds ⟨Day.epoch, 28800, 0⟩ <
      Instant.nanoseconds ⟨Day.epoch, 0, 900000000⟩ + 28800 * 10 ^ 9 ∧
    verify token "secret" ⟨Day.epoch, 28800, 0⟩ = false ∧
    Instant.nanoseconds ⟨Day.epoch, 28800, 500000000⟩ <
      Instant.nanoseconds ⟨Day.epoch, 0, 900000000⟩ + 28800 * 10 ^ 9 ∧
    verify token "secret" ⟨Day.epoch, 28800, 500000000⟩ = false := by
  have hrefused {now : Instant} (hnow : 28800 ≤ now.unix) :
      verify (issue "secret" ⟨Day.epoch, 0, 900000000⟩) "secret" now = false := by
    rw [Bool.eq_false_iff, ne_eq, verify_issue_eq_true_iff (by decide)]
    exact Int.not_lt.mpr hnow
  exact ⟨_, rfl, by decide, hrefused (by decide), by decide, hrefused (by decide)⟩

end Token
end Agenda
