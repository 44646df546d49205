import Mathlib.Data.List.Forall2
import ClassInstrument.Bytes.Decoder
import ClassInstrument.Proofs.Bytes.Traverse

/-!
# What decoders read

A decoder *reads* some bytes if, wherever they stand and whatever follows them, it takes exactly
these bytes away and gives one value.  Such facts compose the way decoders do, so that a format is
read back field by field.

* `Decoder.Reads` — the bytes and the value, at every position;
* `Decoder.ReadsAt` — the same at one position, for formats with padding;
* `Reads.bind`, `Reads.times`, `Reads.table`, `Reads.iterate` — one law for each way in which
  decoders are put together;
* `Reads.onBytes` — reading some bytes as a whole.
-/

namespace ClassInstrument.Decoder

variable {α β σ : Type}

/-- Whatever follows the bytes, the decoder takes exactly them away and gives the value. -/
def ReadsAt (position : Nat) (d : Decoder α) (bytes : Bytes) (value : α) : Prop :=
  ∀ rest, d ⟨position, bytes ++ rest⟩ = .ok (value, ⟨position + bytes.length, rest⟩)

/-- The same wherever the bytes stand. -/
def Reads (d : Decoder α) (bytes : Bytes) (value : α) : Prop :=
  ∀ position, ReadsAt position d bytes value

/-! ### One decoder after another -/

theorem bind_eq (d : Decoder α) (f : α → Decoder β) (c : Cursor) :
    (d >>= f) c = (d c).bind fun r => f r.1 r.2 := rfl

theorem bind_of_ok {d : Decoder α} {f : α → Decoder β} {c c' : Cursor} {value : α}
    (h : d c = .ok (value, c')) : (d >>= f) c = f value c' := by
  rw [bind_eq, h]
  rfl

/-- A failure is not made good by what comes behind it. -/
theorem bind_of_error {d : Decoder α} {f : α → Decoder β} {c : Cursor} {e : Failure}
    (h : d c = .error e) : (d >>= f) c = .error e := by
  rw [bind_eq, h]
  rfl

/-- What two decoders give one after the other, they give each. -/
theorem bind_eq_ok_iff {d : Decoder α} {f : α → Decoder β} {c : Cursor} {r : β × Cursor} :
    (d >>= f) c = .ok r ↔ ∃ value c', d c = .ok (value, c') ∧ f value c' = .ok r := by
  rw [bind_eq]
  cases d c with
  | error e => exact ⟨fun h => (nomatch h), fun ⟨_, _, h, _⟩ => (nomatch h)⟩
  | ok first => exact ⟨fun h => ⟨_, _, rfl, h⟩, fun ⟨_, _, h, hf⟩ => by cases h; exact hf⟩

theorem ReadsAt.pure (position : Nat) (value : α) : ReadsAt position (pure value) [] value :=
  fun _ => rfl

theorem Reads.pure (value : α) : Reads (pure value) [] value := fun position =>
  ReadsAt.pure position value

theorem ReadsAt.bind {position : Nat} {d : Decoder α} {f : α → Decoder β} {front behind : Bytes}
    {value : α} {result : β} (first : ReadsAt position d front value)
    (second : ReadsAt (position + front.length) (f value) behind result) :
    ReadsAt position (d >>= f) (front ++ behind) result := by
  intro rest
  rw [List.append_assoc, bind_of_ok (first (behind ++ rest)), second rest, List.length_append,
    Nat.add_assoc]

/-- What is read behind a value stands behind its bytes. -/
theorem Reads.bind {d : Decoder α} {f : α → Decoder β} {front behind : Bytes} {value : α}
    {result : β} (first : Reads d front value) (second : Reads (f value) behind result) :
    Reads (d >>= f) (front ++ behind) result := fun position =>
  (first position).bind (second _)

/-- A last step that reads nothing. -/
theorem Reads.bind_pure {d : Decoder α} {f : α → Decoder β} {bytes : Bytes} {value : α}
    {result : β} (first : Reads d bytes value) (second : Reads (f value) [] result) :
    Reads (d >>= f) bytes result := by
  have both := first.bind second
  rwa [List.append_nil] at both

/-- A first step that reads nothing. -/
theorem Reads.pure_bind {d : Decoder α} {f : α → Decoder β} {bytes : Bytes} {value : α}
    {result : β} (first : Reads d [] value) (second : Reads (f value) bytes result) :
    Reads (d >>= f) bytes result := first.bind second

/-! ### The primitives -/

theorem Reads.word [Word α] (value : α) : Reads word (Word.encode value) value := by
  intro position rest
  rw [word_encode, Word.length_encode]

/-- A number below the bound of its width is read from its bytes. -/
theorem Reads.word_ofNat [Word α] {value : α} {width code : Nat} (hwidth : Word.width α = width)
    (hcode : Word.code value = code) : Reads Decoder.word (Bytes.ofNat width code) value := by
  subst hwidth hcode
  exact Reads.word value

theorem Reads.take (bytes : Bytes) : Reads (take bytes.length) bytes bytes := fun position rest =>
  take_append bytes position rest

/-- Bytes are taken by their number. -/
theorem Reads.take_of_length {count : Nat} {bytes : Bytes} (h : bytes.length = count) :
    Reads (Decoder.take count) bytes bytes := by
  subst h
  exact Reads.take bytes

theorem Reads.skip {count : Nat} {bytes : Bytes} (h : bytes.length = count) :
    Reads (skip count) bytes () := by
  intro position rest
  simp only [Decoder.skip, Bytes.split?_append h, h]

theorem Reads.ofExcept {result : Except Failure α} {value : α} (h : result = .ok value) :
    Reads (ofExcept result) [] value := by
  subst h
  exact fun _ _ => rfl

theorem ofExcept_eq_ok_iff {x : Except Failure α} {c c' : Cursor} {value : α} :
    Decoder.ofExcept x c = .ok (value, c') ↔ x = .ok value ∧ c' = c := by
  cases x with
  | error e => exact ⟨fun h => (nomatch h), fun ⟨h, _⟩ => (nomatch h)⟩
  | ok known =>
    constructor
    · intro h
      cases h
      exact ⟨rfl, rfl⟩
    · rintro ⟨h, rfl⟩
      cases h
      rfl

/-- What was looked up is what was found. -/
theorem ofExcept_eq_ok {result : Except Failure α} {c c' : Cursor} {value : α}
    (h : Decoder.ofExcept result c = .ok (value, c')) : result = .ok value :=
  (ofExcept_eq_ok_iff.1 h).1

/-- Padding up to a multiple of the alignment, counted from the start. -/
theorem ReadsAt.align {position alignment : Nat} {bytes : Bytes}
    (h : bytes.length = (alignment - position % alignment) % alignment) :
    ReadsAt position (align 0 alignment) bytes () := by
  intro rest
  exact Reads.skip h position rest

/-! ### The same decoder over and over -/

theorem ReadsAt.cons_times {position count : Nat} {d : Decoder α} {front behind : Bytes}
    {value : α} {values : List α} (first : ReadsAt position d front value)
    (others : ReadsAt (position + front.length) (times count d) behind values) :
    ReadsAt position (times (count + 1) d) (front ++ behind) (value :: values) := by
  intro rest
  rw [times_succ, List.append_assoc, first (behind ++ rest)]
  simp only [others rest, Except.map, List.length_append, Nat.add_assoc]

/-- Values one behind the other, each read from its own bytes. -/
theorem Reads.times {d : Decoder α} {chunks : List Bytes} {values : List α}
    (h : List.Forall₂ (fun bytes value => Reads d bytes value) chunks values) :
    Reads (times values.length d) chunks.flatten values := by
  induction h with
  | nil => exact fun _ _ => rfl
  | cons first _ ih => exact fun position => (first position).cons_times (ih _)

/-- The number of entries of a table. -/
theorem Reads.count {count : Nat} (fits : count < 65536) :
    Reads Decoder.word (Bytes.ofNat 2 count) (UInt16.ofNat count) :=
  Reads.word_ofNat rfl (UInt16.toNat_ofNat_of_lt' fits)

/-- A counted table, whose number of entries fits two bytes. -/
theorem Reads.table {d : Decoder α} {chunks : List Bytes} {values : List α}
    (h : List.Forall₂ (fun bytes value => Reads d bytes value) chunks values)
    (fits : values.length < 65536) :
    Reads (table d) (Bytes.ofNat 2 values.length ++ chunks.flatten) values := by
  refine (Reads.count fits).bind ?_
  rw [UInt16.toNat_ofNat_of_lt' fits]
  exact Reads.times h

/-- One step more at the front. -/
theorem Reads.cons_iterate {step : σ → Decoder σ} {count : Nat} {front behind : Bytes}
    {state next result : σ} (first : Reads (step state) front next)
    (others : Reads (iterate step count next) behind result) :
    Reads (iterate step (count + 1) state) (front ++ behind) result := by
  intro position rest
  have one := first position (behind ++ rest)
  have more := others (position + front.length) rest
  simp only [List.append_assoc, Decoder.iterate, one, more, List.length_append, Nat.add_assoc]

/-- A step that makes one value from another, once for each of several items. -/
theorem Reads.iterate {step : σ → Decoder σ} {next : σ → β → σ} {chunks : List Bytes}
    {items : List β}
    (h : List.Forall₂ (fun bytes item => ∀ state, Reads (step state) bytes (next state item))
      chunks items) (state : σ) :
    Reads (iterate step items.length state) chunks.flatten (items.foldl next state) := by
  induction h generalizing state with
  | nil => exact fun _ _ => rfl
  | cons first _ ih => exact (first state).cons_iterate (ih _)

/-! ### How many values there are -/

theorem length_times {d : Decoder α} {count : Nat} {c : Cursor} {r : List α × Cursor}
    (h : times count d c = .ok r) : r.1.length = count := by
  induction count generalizing c r with
  | zero =>
    cases h
    rfl
  | succ count ih =>
    rw [times_succ] at h
    cases hd : d c with
    | error e =>
      rw [hd] at h
      cases h
    | ok first =>
      rw [hd] at h
      obtain ⟨others, hothers, rfl⟩ := Traverse.map_eq_ok_iff.1 h
      rw [List.length_cons, ih hothers]

/-- The count of a table fits two bytes. -/
theorem length_le_of_table {d : Decoder α} {c : Cursor} {r : List α × Cursor}
    (h : table d c = .ok r) : r.1.length ≤ 65535 := by
  obtain ⟨count, rest, -, h⟩ := bind_eq_ok_iff.1 h
  have length := length_times h
  have bound := count.toNat_lt
  omega

/-! ### Whole bytes -/

/-- Bytes that are read to their end. -/
theorem Reads.onBytes {d : Decoder α} {bytes : Bytes} {value : α} (h : Reads d bytes value) :
    onBytes d bytes = .ok value := by
  have whole := h 0 []
  rw [List.append_nil] at whole
  simp only [Decoder.onBytes, Cursor.start, whole]

/-- What a decoder does at the start of some bytes decides what comes of them. -/
theorem onBytes_bind {d : Decoder α} {front : Bytes} {value : α} (h : Reads d front value)
    (f : α → Decoder β) (behind : Bytes) :
    onBytes (d >>= f) (front ++ behind)
      = (f value ⟨front.length, behind⟩).map Prod.fst := by
  have first := h 0 behind
  rw [Nat.zero_add] at first
  simp only [Decoder.onBytes, Cursor.start, bind_of_ok first]
  cases f value ⟨front.length, behind⟩ <;> rfl

end ClassInstrument.Decoder
