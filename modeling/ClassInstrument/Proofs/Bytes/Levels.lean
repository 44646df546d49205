import ClassInstrument.Proofs.Bytes.Reads

/-!
# Values that nest

A value inside another one is one level further down, and readers follow only so many levels.  What
comes of a value is then known beforehand: the value itself if it is no deeper than is followed, and
otherwise the refusal of its kind, never another value.

* `followed` — the value or the refusal, by the levels that are followed;
* `deepest`, `mapM_followed` — among several values the deepest decides;
* `Decoder.Replies` — like `Decoder.Reads`, but what comes of the bytes may be a failure;
* `Reads.replies_bind`, `Replies.map`, `Replies.times`, `Replies.table` — one law for each way in
  which decoders are put together.
-/

namespace ClassInstrument

section Followed

variable {α β : Type} {cause : Malformation} {levels nesting : Nat}

/-- What comes of a value with some levels, if no more than so many are followed. -/
def followed (cause : Malformation) (levels nesting : Nat) (value : α) : Except Failure α :=
  if nesting ≤ levels then .ok value else .error (.malformed cause)

theorem followed_of_le (enough : nesting ≤ levels) (value : α) :
    followed cause levels nesting value = .ok value := if_pos enough

theorem followed_of_lt (deep : levels < nesting) (value : α) :
    followed cause levels nesting value = .error (.malformed cause) := if_neg (Nat.not_le.2 deep)

/-- One level more is followed of a value that has one level more. -/
theorem followed_succ (value : α) :
    followed cause (levels + 1) (nesting + 1) value = followed cause levels nesting value := by
  simp only [followed, Nat.add_le_add_iff_right]

theorem followed_map (value : α) (f : α → β) :
    (followed cause levels nesting value).map f = followed cause levels nesting (f value) := by
  unfold followed
  split <;> rfl

theorem followed_bind (value : α) (f : α → β) :
    (followed cause levels nesting value >>= fun v => .ok (f v))
      = followed cause levels nesting (f value) := by
  unfold followed
  split <;> rfl

/-- Of two values one after the other, the deeper one decides. -/
theorem followed_cons (first rest : Nat) (value : α) (values : List α) :
    (followed cause levels first value >>= fun v =>
        followed cause levels rest values >>= fun vs => pure (v :: vs))
      = followed cause levels (max first rest) (value :: values) := by
  unfold followed
  by_cases near : first ≤ levels
  · by_cases far : rest ≤ levels
    · rw [if_pos near, if_pos far, if_pos (Nat.max_le.2 ⟨near, far⟩)]
      rfl
    · rw [if_pos near, if_neg far, if_neg fun both => far (Nat.max_le.1 both).2]
      rfl
  · rw [if_neg near, if_neg fun both => near (Nat.max_le.1 both).1]
    rfl

/-- The depth of the deepest of some values. -/
def deepest (depth : α → Nat) (values : List α) : Nat := (values.map depth).foldr max 0

theorem deepest_le_iff {depth : α → Nat} {values : List α} :
    deepest depth values ≤ levels ↔ ∀ v ∈ values, depth v ≤ levels := by
  induction values with
  | nil => simp [deepest]
  | cons value values ih =>
    rw [List.forall_mem_cons, ← ih]
    exact Nat.max_le

/-- **Among several values the deepest decides.** -/
theorem mapM_followed (depth : α → Nat) (values : List α) :
    values.mapM (fun v => followed cause levels (depth v) v)
      = followed cause levels (deepest depth values) values := by
  induction values with
  | nil => exact (followed_of_le (Nat.zero_le _) _).symm
  | cons value values ih =>
    rw [List.mapM_cons, ih]
    exact followed_cons ..

end Followed

namespace Decoder

variable {α β : Type}

/-- Whatever follows the bytes, what comes of the decoder is decided; if it is a value, exactly these
bytes are taken away. -/
def Replies (d : Decoder α) (bytes : Bytes) (outcome : Except Failure α) : Prop :=
  ∀ position rest, d ⟨position, bytes ++ rest⟩
    = outcome.map fun value => (value, ⟨position + bytes.length, rest⟩)

/-- What is read is a reply, and a reply that is a value is read. -/
theorem replies_ok_iff {d : Decoder α} {bytes : Bytes} {value : α} :
    Replies d bytes (.ok value) ↔ Reads d bytes value := Iff.rfl

/-- What is refused is refused whatever the bytes are. -/
theorem Replies.malformed (cause : Malformation) (bytes : Bytes) :
    Replies (malformed cause : Decoder α) bytes (.error (.malformed cause)) := fun _ _ => rfl

/-- What comes of the bytes behind a value that is read. -/
theorem Reads.replies_bind {d : Decoder α} {f : α → Decoder β} {front behind : Bytes} {value : α}
    {outcome : Except Failure β} (first : Reads d front value)
    (second : Replies (f value) behind outcome) : Replies (d >>= f) (front ++ behind) outcome := by
  intro position rest
  rw [List.append_assoc, bind_of_ok (first position (behind ++ rest)), second _ rest,
    List.length_append, Nat.add_assoc]

/-- A last step that reads nothing. -/
theorem Replies.map {d : Decoder α} {bytes : Bytes} {outcome : Except Failure α}
    (h : Replies d bytes outcome) (f : α → β) :
    Replies (d >>= fun value => Pure.pure (f value)) bytes (outcome.map f) := by
  intro position rest
  rw [bind_eq, h position rest]
  cases outcome <;> rfl

/-- Values one behind the other: the first that fails, fails them all. -/
theorem Replies.times {d : Decoder α} {outcome : α → Except Failure α} {chunks : List Bytes}
    {values : List α}
    (h : List.Forall₂ (fun bytes value => Replies d bytes (outcome value)) chunks values) :
    Replies (times values.length d) chunks.flatten (values.mapM outcome) := by
  induction h with
  | nil => exact fun _ _ => rfl
  | @cons chunk value chunks values first _ ih =>
    intro position rest
    rw [List.length_cons, times_succ, List.flatten_cons, List.append_assoc, first position _,
      List.mapM_cons]
    cases outcome value with
    | error e => rfl
    | ok v =>
      have others := ih (position + chunk.length) rest
      simp only [Except.map] at others ⊢
      rw [others, List.length_append, ← Nat.add_assoc]
      cases values.mapM outcome <;> rfl

/-- A counted table, whose number of entries fits two bytes. -/
theorem Replies.table {d : Decoder α} {outcome : α → Except Failure α} {chunks : List Bytes}
    {values : List α}
    (h : List.Forall₂ (fun bytes value => Replies d bytes (outcome value)) chunks values)
    (fits : values.length < 65536) :
    Replies (table d) (Bytes.ofNat 2 values.length ++ chunks.flatten) (values.mapM outcome) := by
  refine (Reads.count fits).replies_bind ?_
  rw [UInt16.toNat_ofNat_of_lt' fits]
  exact Replies.times h

/-- Bytes as a whole. -/
theorem Replies.onBytes {d : Decoder α} {bytes : Bytes} {outcome : Except Failure α}
    (h : Replies d bytes outcome) : onBytes d bytes = outcome := by
  have whole := h 0 []
  rw [List.append_nil] at whole
  simp only [Decoder.onBytes, Cursor.start, whole]
  cases outcome <;> rfl

end Decoder

end ClassInstrument
