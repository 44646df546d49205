import ClassInstrument.Bytes.Hexadecimal

/-!
# The digits of bytes

A byte is written as two digits, small letters counting as such.  A digit is read in either case.

* `Hexadecimal.spelled` — the two digits of a byte;
* `Hexadecimal.toList_encode` — bytes are written as the digits of each;
* `Hexadecimal.digit?_eq_some_iff` — what is read as a digit is one, up to its case.
-/

namespace ClassInstrument.Hexadecimal

/-- The two digits of a byte. -/
def spelled (byte : UInt8) : List Char :=
  [Nat.digitChar (byte.toNat / 16), Nat.digitChar (byte.toNat % 16)]

theorem toList_hexPadded (byte : UInt8) :
    (Text.hexPadded 2 byte.toNat).toList = spelled byte := by
  have bound : byte.toNat < 256 := UInt8.toNat_lt byte
  unfold Text.hexPadded Text.digits spelled
  rw [String.toList_ofList]
  rcases Nat.lt_or_ge byte.toNat 16 with small | large
  · rw [Nat.toDigits_of_lt_base small, Nat.div_eq_of_lt small, Nat.mod_eq_of_lt small]
    rfl
  · have high : byte.toNat / 16 < 16 := by omega
    rw [Nat.toDigits_of_base_le (by omega) large, Nat.toDigits_of_lt_base high]
    rfl

/-- Bytes are written as the digits of each. -/
theorem toList_encode (bytes : Bytes) : (encode bytes).toList = bytes.flatMap spelled := by
  unfold encode
  rw [String.toList_join, List.flatMap_map]
  exact congrArg (bytes.flatMap ·) (funext toList_hexPadded)

theorem length_flatMap_spelled (bytes : Bytes) :
    (bytes.flatMap spelled).length = 2 * bytes.length := by
  induction bytes with
  | nil => rfl
  | cons byte bytes ih =>
    rw [List.flatMap_cons, List.length_append, ih, List.length_cons]
    show 2 + _ = _
    omega

/-! ### Digits in either case -/

/-- Among the first characters, of which all digits are. -/
theorem digit?_ascii : ∀ code < 128, ∀ n < 16,
    digit? (Char.ofNat code) = some n ↔ (Char.ofNat code).toLower = Nat.digitChar n := by
  decide +kernel

theorem lt_of_digit? {c : Char} {n : Nat} (h : digit? c = some n) : c.toNat < 128 ∧ n < 16 := by
  unfold digit? at h
  have bounds : ∀ {low high : Char}, low ≤ c ∧ c ≤ high →
      low.toNat ≤ c.toNat ∧ c.toNat ≤ high.toNat := fun inside =>
    ⟨UInt32.le_iff_toNat_le.1 inside.1, UInt32.le_iff_toNat_le.1 inside.2⟩
  split at h
  · next digit =>
    have inside : 48 ≤ c.toNat ∧ c.toNat ≤ 57 := bounds digit
    obtain rfl : c.toNat - 48 = n := Option.some.inj h
    omega
  split at h
  · next small =>
    have inside : 97 ≤ c.toNat ∧ c.toNat ≤ 102 := bounds small
    obtain rfl : c.toNat - 97 + 10 = n := Option.some.inj h
    omega
  split at h
  · next large =>
    have inside : 65 ≤ c.toNat ∧ c.toNat ≤ 70 := bounds large
    obtain rfl : c.toNat - 65 + 10 = n := Option.some.inj h
    omega
  · cases h

theorem lt_of_toLower {c : Char} {n : Nat} (digit : n < 16) (h : c.toLower = Nat.digitChar n) :
    c.toNat < 128 := by
  unfold Char.toLower at h
  split at h
  · next large =>
    have small : c.toNat ≤ 90 := UInt32.le_iff_toNat_le.1 large.2
    omega
  · have first : ∀ n < 16, (Nat.digitChar n).toNat < 128 := by decide
    rw [h]
    exact first n digit

/-- **What is read as a digit is one, up to its case.** -/
theorem digit?_eq_some_iff {c : Char} {n : Nat} :
    digit? c = some n ↔ n < 16 ∧ c.toLower = Nat.digitChar n := by
  have own := Char.ofNat_toNat c
  constructor
  · intro h
    obtain ⟨first, digit⟩ := lt_of_digit? h
    rw [← own] at h ⊢
    exact ⟨digit, (digit?_ascii c.toNat first n digit).1 h⟩
  · rintro ⟨digit, h⟩
    have first := lt_of_toLower digit h
    rw [← own] at h ⊢
    exact (digit?_ascii c.toNat first n digit).2 h

/-- Digits as they are written are small. -/
theorem toLower_digitChar : ∀ n < 16, (Nat.digitChar n).toLower = Nat.digitChar n := by decide

theorem digitChar_ne_plus : ∀ n < 16, Nat.digitChar n ≠ '+' := by decide

theorem digitChar_inj : ∀ m < 16, ∀ n < 16, Nat.digitChar m = Nat.digitChar n → m = n := by decide

end ClassInstrument.Hexadecimal
