import ClassInstrument.Proofs.Bytes.Reads

/-!
# Decoders that do not see the end

Most decoders cannot tell how much stands behind what they read.  Given more bytes at the end they
do what they did before, and leave the new bytes over; only a run that asked for a byte which was
not there can turn out differently.

* `Decoder.Local` — this property;
* `Decoder.Local.word`, `Decoder.Local.take` — primitives that have it; `Decoder.atEnd` does not;
* `Decoder.Local.bind`, `Decoder.Local.times`, `Decoder.Local.table` — one law for each way in which
  decoders are put together.
-/

namespace ClassInstrument

/-- With more bytes at the end. -/
def Cursor.extend (c : Cursor) (more : Bytes) : Cursor := ⟨c.position, c.rest ++ more⟩

@[simp] theorem Cursor.rest_extend (c : Cursor) (more : Bytes) :
    (c.extend more).rest = c.rest ++ more := rfl

@[simp] theorem Cursor.position_extend (c : Cursor) (more : Bytes) :
    (c.extend more).position = c.position := rfl

namespace Decoder

variable {α β : Type}

/-- One run and then the others, as a decoder. -/
theorem times_succ_eq_bind (d : Decoder α) (count : Nat) :
    times (count + 1) d = d >>= fun value => times count d >>= fun values =>
      pure (value :: values) := by
  funext c
  rw [times_succ, bind_eq]
  cases d c with
  | error e => rfl
  | ok here =>
    show (times count d here.2).map (fun r => (here.1 :: r.1, r.2))
      = (times count d >>= fun values => pure (here.1 :: values)) here.2
    rw [bind_eq]
    cases times count d here.2 <;> rfl

/-- A run that does not ask for bytes that are missing goes the same way when more bytes follow:
it fails with the same failure, or it gives the same value and leaves the new bytes over as well. -/
def Local (d : Decoder α) : Prop :=
  ∀ (more : Bytes) (c : Cursor), d c = .error .outOfBounds ∨
    d (c.extend more) = (d c).map fun r => (r.1, r.2.extend more)

namespace Local

variable {d : Decoder α}

/-- What was read is read again. -/
theorem ok (h : Local d) {c c' : Cursor} {value : α} (run : d c = .ok (value, c')) (more : Bytes) :
    d (c.extend more) = .ok (value, c'.extend more) := by
  rcases h more c with short | same
  · rw [run] at short
    cases short
  · rw [same, run]
    rfl

/-- What was refused is refused again, unless bytes were missing. -/
theorem error (h : Local d) {c : Cursor} {e : Failure} (run : d c = .error e)
    (enough : e ≠ .outOfBounds) (more : Bytes) : d (c.extend more) = .error e := by
  rcases h more c with short | same
  · rw [run] at short
    exact absurd (Except.error.inj short) enough
  · rw [same, run]
    rfl

/-! ### Steps that read nothing -/

theorem pure (value : α) : Local (Pure.pure value) := fun _ _ => .inr rfl

theorem fail (e : Failure) : Local (fun _ => .error e : Decoder α) := fun _ _ => .inr rfl

theorem malformed (cause : Malformation) : Local (Decoder.malformed cause : Decoder α) := fail _

theorem ofExcept (result : Except Failure α) : Local (Decoder.ofExcept result) := by
  cases result with
  | ok value => exact pure value
  | error e => exact fail e

/-! ### Steps that read -/

/-- A front that was split off is split off again. -/
theorem split?_append {count : Nat} {bytes front rest : Bytes}
    (h : bytes.split? count = some (front, rest)) (more : Bytes) :
    (bytes ++ more).split? count = some (front, rest ++ more) := by
  obtain ⟨rfl, length⟩ := Bytes.split?_eq_some_iff.1 h
  rw [List.append_assoc, Bytes.split?_append length]

theorem take (count : Nat) : Local (Decoder.take count) := by
  intro more c
  unfold Decoder.take
  cases parted : c.rest.split? count with
  | none => exact .inl rfl
  | some parts =>
    right
    rw [Cursor.rest_extend, split?_append parted more]
    rfl

theorem word [Word α] : Local (Decoder.word (α := α)) := by
  intro more c
  unfold Decoder.word Word.read?
  cases parted : c.rest.split? (Word.width α) with
  | none => exact .inl rfl
  | some parts =>
    right
    rw [Cursor.rest_extend, split?_append parted more]
    rfl

/-! ### Decoders put together -/

theorem bind {f : α → Decoder β} (first : Local d) (second : ∀ value, Local (f value)) :
    Local (d >>= f) := by
  intro more c
  rw [bind_eq, bind_eq]
  rcases first more c with short | same
  · rw [short]
    exact .inl rfl
  · rw [same]
    cases d c with
    | error e => exact .inr rfl
    | ok r => exact second r.1 more r.2

theorem ite {p : Prop} [Decidable p] {d' : Decoder α} (yes : Local d) (no : Local d') :
    Local (if p then d else d') := by
  split
  · exact yes
  · exact no

theorem times (h : Local d) (count : Nat) : Local (Decoder.times count d) := by
  induction count with
  | zero => exact pure []
  | succ count ih =>
    rw [times_succ_eq_bind]
    exact h.bind fun value => ih.bind fun values => pure (value :: values)

/-- A counted table, whatever it counts. -/
theorem table (h : Local d) : Local (Decoder.table d) :=
  word.bind fun count => h.times count.toNat

/-! ### Whole bytes -/

/-- What such a decoder does at the start of some bytes and of longer ones: both runs fail, or both
go on with one value, and the second has the new bytes left. -/
theorem onBytes_bind (h : Local d) (f g : α → Decoder β) (bytes more : Bytes) :
    onBytes (d >>= f) bytes = .error .outOfBounds
      ∨ (∃ e, onBytes (d >>= f) bytes = .error e ∧ onBytes (d >>= g) (bytes ++ more) = .error e)
      ∨ ∃ value c, onBytes (d >>= f) bytes = (f value c).map Prod.fst
        ∧ onBytes (d >>= g) (bytes ++ more) = (g value (c.extend more)).map Prod.fst := by
  unfold onBytes
  cases run : d (.start bytes) with
  | error e =>
    rw [bind_of_error run]
    by_cases enough : e = .outOfBounds
    · exact .inl (congrArg Except.error enough)
    · refine .inr (.inl ⟨e, rfl, ?_⟩)
      rw [show Cursor.start (bytes ++ more) = (Cursor.start bytes).extend more from rfl,
        bind_of_error (h.error run enough more)]
  | ok r =>
    refine .inr (.inr ⟨r.1, r.2, ?_, ?_⟩)
    · rw [bind_of_ok run]
      cases f r.1 r.2 <;> rfl
    · rw [show Cursor.start (bytes ++ more) = (Cursor.start bytes).extend more from rfl,
        bind_of_ok (h.ok run more)]
      cases g r.1 (r.2.extend more) <;> rfl

end Local

end Decoder

end ClassInstrument
