import Mathlib.Tactic.SplitIfs
import ClassInstrument.Text.Modified

/-!
# Texts read back

Every text is read back from its modified form.  Reading tries standard UTF-8 first, which takes
most of what writing produces for the same text and refuses the rest: no text is taken for
another one.

* `Dialect.next?_encodeChar_modified` — the modified form of a character is read for it;
* `Dialect.next?_encodeChar_standard` — standard reading takes it for the same character or
  refuses it;
* `decode?_encode` — the round trip.
-/

namespace ClassInstrument.Text

/-! ### Bytes of a form -/

theorem toNat_byte {n : Nat} (h : n < 256) : (UInt8.ofNat n).toNat = n :=
  UInt8.toNat_ofNat_of_lt' h

theorem toNat_continuation (value : Nat) : (continuation value).toNat = 0x80 + value % 64 :=
  toNat_byte (by omega)

@[simp] theorem isContinuation_continuation (value : Nat) :
    isContinuation (continuation value) = true := by
  simp only [isContinuation, Bool.and_eq_true, decide_eq_true_eq, UInt8.le_iff_toNat_le,
    toNat_continuation]
  exact ⟨Nat.le_add_right .., by show _ ≤ 0xBF; omega⟩

@[simp] theorem payload_continuation (value : Nat) :
    payload (continuation value) = value % 64 := by
  rw [payload, toNat_continuation]
  omega

/-- A character is no surrogate. -/
theorem char_bounds (c : Char) :
    c.toNat < 0xD800 ∨ (0xDFFF < c.toNat ∧ c.toNat < 0x110000) := c.valid

/-! ### One character -/

namespace Dialect

/-- A character of one byte is read alike in both dialects, but for NUL. -/
theorem next?_ascii (d : Dialect) {code : Nat} (rest : Bytes) (low : code < 0x80)
    (nonzero : code ≠ 0) :
    d.next? (UInt8.ofNat code :: rest) = some (Char.ofNat code, rest) := by
  have value : (UInt8.ofNat code).toNat = code := toNat_byte (by omega)
  have notNul : (UInt8.ofNat code == 0) = false := by
    rw [beq_eq_false_iff_ne, ne_eq, ← UInt8.toNat_inj, value]
    exact nonzero
  have small : UInt8.ofNat code < 0x80 := by
    rw [UInt8.lt_iff_toNat_lt, value]
    exact low
  simp only [next?, notNul, Bool.false_and, Bool.false_eq_true, if_false, if_pos small, value]

/-- A first byte from `C2` on belongs to a longer character. -/
theorem next?_long (d : Dialect) {code : Nat} (rest : Bytes) (high : 0x80 ≤ code)
    (byte : code < 256) :
    d.next? (UInt8.ofNat code :: rest) = d.nextLong? (UInt8.ofNat code) rest := by
  have value : (UInt8.ofNat code).toNat = code := toNat_byte byte
  have notNul : (UInt8.ofNat code == 0) = false := by
    rw [beq_eq_false_iff_ne, ne_eq, ← UInt8.toNat_inj, value]
    show ¬code = 0
    omega
  have large : ¬UInt8.ofNat code < 0x80 := by
    rw [UInt8.lt_iff_toNat_lt, value]
    show ¬code < 0x80
    omega
  simp only [next?, notNul, Bool.false_and, Bool.false_eq_true, if_false, if_neg large]

theorem next?_two (d : Dialect) {code : Nat} (rest : Bytes) (low : 0x80 ≤ code)
    (high : code < 0x800) :
    d.next? (UInt8.ofNat (0xC0 + code / 64) :: continuation code :: rest)
      = some (Char.ofNat code, rest) := by
  have value : (UInt8.ofNat (0xC0 + code / 64)).toNat = 0xC0 + code / 64 := toNat_byte (by omega)
  have range : (0xC2 ≤ UInt8.ofNat (0xC0 + code / 64)
      && UInt8.ofNat (0xC0 + code / 64) ≤ 0xDF) = true := by
    simp only [Bool.and_eq_true, decide_eq_true_eq, UInt8.le_iff_toNat_le, value]
    exact ⟨by show 0xC2 ≤ _; omega, by show _ ≤ 0xDF; omega⟩
  rw [next?_long d _ (by omega) (by omega)]
  simp only [nextLong?, range, if_true, isContinuation_continuation, payload_continuation, value]
  congr 3
  omega

/-- The two range tests on the first byte of a three-byte form. -/
theorem threeBytes_range {code : Nat} (high : code < 0x10000) :
    (UInt8.ofNat (0xE0 + code / 4096)).toNat = 0xE0 + code / 4096
      ∧ (0xC2 ≤ UInt8.ofNat (0xE0 + code / 4096)
          && UInt8.ofNat (0xE0 + code / 4096) ≤ 0xDF) = false
      ∧ (0xE0 ≤ UInt8.ofNat (0xE0 + code / 4096)
          && UInt8.ofNat (0xE0 + code / 4096) ≤ 0xEF) = true := by
  have value : (UInt8.ofNat (0xE0 + code / 4096)).toNat = 0xE0 + code / 4096 :=
    toNat_byte (by omega)
  refine ⟨value, ?_, ?_⟩
  · rw [Bool.and_eq_false_iff, decide_eq_false_iff_not, decide_eq_false_iff_not,
      UInt8.le_iff_toNat_le, UInt8.le_iff_toNat_le, value]
    right
    show ¬_ ≤ 0xDF
    omega
  · simp only [Bool.and_eq_true, decide_eq_true_eq, UInt8.le_iff_toNat_le, value]
    exact ⟨Nat.le_add_right .., by show _ ≤ 0xEF; omega⟩

/-- Whether a three-byte form opens a character: it is neither overlong nor a surrogate. -/
theorem threeByteOpens_iff {code : Nat} (low : 0x800 ≤ code) (high : code < 0x10000) :
    threeByteOpens (UInt8.ofNat (0xE0 + code / 4096)) (continuation (code / 64)) = true
      ↔ (code < 0xD800 ∨ 0xDFFF < code) := by
  obtain ⟨value, -, -⟩ := threeBytes_range high
  simp only [threeByteOpens, isContinuation_continuation, Bool.true_and, Bool.and_eq_true,
    Bool.or_eq_true, decide_eq_true_eq, ne_eq, ← UInt8.toNat_inj, UInt8.le_iff_toNat_le, value,
    toNat_continuation]
  change (¬0xE0 + code / 4096 = 0xE0 ∨ 0xA0 ≤ 0x80 + code / 64 % 64)
    ∧ (¬0xE0 + code / 4096 = 0xED ∨ 0x80 + code / 64 % 64 ≤ 0x9F) ↔ _
  omega

theorem next?_three (d : Dialect) {code : Nat} (rest : Bytes) (low : 0x800 ≤ code)
    (high : code < 0x10000) (scalar : code < 0xD800 ∨ 0xDFFF < code) :
    d.next? (threeBytes code ++ rest) = some (Char.ofNat code, rest) := by
  obtain ⟨value, notTwo, three⟩ := threeBytes_range high
  have opens := (threeByteOpens_iff low high).2 scalar
  rw [threeBytes, List.cons_append, next?_long d _ (by omega) (by omega)]
  simp only [nextLong?, notTwo, three, Bool.false_eq_true, if_false, if_true, List.cons_append,
    List.nil_append, opens, isContinuation_continuation, Bool.and_self, threeByteValue, value,
    payload_continuation]
  congr 3
  omega

/-- The form of a supplementary character starts like a three-byte form, which is refused. -/
theorem next?_surrogates (d : Dialect) {above : Nat} (rest : Bytes) (high : above < 0x100000) :
    d.next? (threeBytes (0xD800 + above / 1024) ++ threeBytes (0xDC00 + above % 1024) ++ rest)
      = if d = .modified then some (Char.ofNat (0x10000 + above), rest) else none := by
  have bound : 0xD800 + above / 1024 < 0x10000 := by omega
  obtain ⟨value, notTwo, three⟩ := threeBytes_range bound
  have closed : threeByteOpens (UInt8.ofNat (0xE0 + (0xD800 + above / 1024) / 4096))
      (continuation ((0xD800 + above / 1024) / 64)) = false := by
    rw [← Bool.not_eq_true, threeByteOpens_iff (by omega) bound]
    omega
  have first : (UInt8.ofNat (0xE0 + (0xD800 + above / 1024) / 4096) == 0xED) = true := by
    rw [beq_iff_eq, ← UInt8.toNat_inj, value]
    show _ = 0xED
    omega
  have fourth : UInt8.ofNat (0xE0 + (0xDC00 + above % 1024) / 4096) = 0xED := by
    rw [← UInt8.toNat_inj, toNat_byte (by omega)]
    show _ = 0xED
    omega
  have second : (0xA0 ≤ continuation ((0xD800 + above / 1024) / 64)
      && continuation ((0xD800 + above / 1024) / 64) ≤ 0xAF) = true := by
    simp only [Bool.and_eq_true, decide_eq_true_eq, UInt8.le_iff_toNat_le, toNat_continuation]
    exact ⟨by show 0xA0 ≤ _; omega, by show _ ≤ 0xAF; omega⟩
  have fifthLow : 0xB0 ≤ continuation ((0xDC00 + above % 1024) / 64) := by
    rw [UInt8.le_iff_toNat_le, toNat_continuation]
    show 0xB0 ≤ _
    omega
  have fifthHigh : continuation ((0xDC00 + above % 1024) / 64) ≤ 0xBF := by
    rw [UInt8.le_iff_toNat_le, toNat_continuation]
    show _ ≤ 0xBF
    omega
  rw [threeBytes, List.cons_append, List.cons_append, next?_long d _ (by omega) (by omega)]
  cases d with
  | standard =>
    simp only [nextLong?, notTwo, three, Bool.false_eq_true, if_false, if_true, threeBytes,
      List.cons_append, List.nil_append, closed, Bool.false_and, first, reduceCtorEq,
      show (Dialect.standard == Dialect.modified) = false from rfl, Bool.and_false]
  | modified =>
    simp only [nextLong?, notTwo, three, Bool.false_eq_true, if_false, if_true, threeBytes,
      List.cons_append, List.nil_append, closed, Bool.false_and, first, fourth, surrogateChar?,
      show (Dialect.modified == Dialect.modified) = true from rfl, Bool.and_self, second, fifthLow,
      fifthHigh, decide_true, isContinuation_continuation,
      show ((0xED : UInt8) == 0xED) = true from rfl, payload_continuation, toNat_continuation]
    congr 3
    omega

/-- **The modified form of a character is read for it**, whatever follows. -/
theorem next?_encodeChar_modified (c : Char) (rest : Bytes) :
    modified.next? (encodeChar c ++ rest) = some (c, rest) := by
  have bounds := char_bounds c
  have back := Char.ofNat_toNat c
  unfold encodeChar
  generalize hcode : c.toNat = code at bounds back
  simp only
  split_ifs with zero one two three
  · subst zero
    rw [← back]
    rfl
  · rw [List.singleton_append, next?_ascii _ rest one zero, back]
  · rw [List.cons_append, List.singleton_append, next?_two _ rest (by omega) two, back]
  · rw [next?_three _ rest (by omega) three (by omega), back]
  · rw [next?_surrogates _ rest (by omega), if_pos rfl,
      show 0x10000 + (code - 0x10000) = code by omega, back]

/-- Standard reading takes the modified form of a character for the same character or refuses
it. -/
theorem next?_encodeChar_standard (c : Char) (rest : Bytes) :
    standard.next? (encodeChar c ++ rest) = some (c, rest)
      ∨ standard.next? (encodeChar c ++ rest) = none := by
  have bounds := char_bounds c
  have back := Char.ofNat_toNat c
  unfold encodeChar
  generalize hcode : c.toNat = code at bounds back
  simp only
  split_ifs with zero one two three
  · right
    rfl
  · left
    rw [List.singleton_append, next?_ascii _ rest one zero, back]
  · left
    rw [List.cons_append, List.singleton_append, next?_two _ rest (by omega) two, back]
  · left
    rw [next?_three _ rest (by omega) three (by omega), back]
  · right
    rw [next?_surrogates _ rest (by omega), if_neg (by decide)]

/-! ### All characters -/

theorem chars?_nil (d : Dialect) (read : List Char) : d.chars? read [] = some read.reverse := by
  rw [chars?]
  rfl

/-- One character first, then the others. -/
theorem chars?_step (d : Dialect) (read : List Char) {bytes : Bytes} (h : bytes ≠ []) :
    d.chars? read bytes = (d.next? bytes).bind fun r => d.chars? (r.1 :: read) r.2 := by
  rw [chars?, if_neg (by simpa using h)]
  split <;> simp_all

theorem encodeChar_ne_nil (c : Char) (rest : Bytes) : encodeChar c ++ rest ≠ [] := by
  unfold encodeChar
  simp only
  split_ifs <;> simp [threeBytes]

theorem chars?_modified (chars read : List Char) :
    modified.chars? read (chars.flatMap encodeChar) = some (read.reverse ++ chars) := by
  induction chars generalizing read with
  | nil => rw [List.flatMap_nil, chars?_nil, List.append_nil]
  | cons c chars ih =>
    rw [List.flatMap_cons, chars?_step _ _ (encodeChar_ne_nil c _), next?_encodeChar_modified,
      Option.bind_some, ih, List.reverse_cons, List.append_assoc, List.singleton_append]

theorem chars?_standard (chars read : List Char) :
    standard.chars? read (chars.flatMap encodeChar) = some (read.reverse ++ chars)
      ∨ standard.chars? read (chars.flatMap encodeChar) = none := by
  induction chars generalizing read with
  | nil =>
    left
    rw [List.flatMap_nil, chars?_nil, List.append_nil]
  | cons c chars ih =>
    rw [List.flatMap_cons, chars?_step _ _ (encodeChar_ne_nil c _)]
    rcases next?_encodeChar_standard c (chars.flatMap encodeChar) with found | refused
    · rw [found, Option.bind_some]
      simpa using ih (c :: read)
    · right
      rw [refused, Option.bind_none]

end Dialect

/-- **Every text reads back from its modified form.** -/
@[simp] theorem decode?_encode (text : String) : decode? (encode text) = some text := by
  unfold decode? encode
  rw [Dialect.chars?_modified text.toList []]
  rcases Dialect.chars?_standard text.toList [] with found | refused
  · simp [found]
  · simp [refused]

end ClassInstrument.Text
