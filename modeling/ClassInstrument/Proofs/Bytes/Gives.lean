import ClassInstrument.Proofs.Bytes.Local

/-!
# What decoders give

Facts about a decoder that hold of every run that succeeds, whatever the bytes are.

* `Decoder.Gives` — every value that is given has a property;
* `Decoder.Consumes` — the bytes that are taken away would be read the same in any surroundings;
* `Decoder.Follows` — another decoder succeeds as well, with a value made from the first one's, and
  ends at the same place: the way of a decoder that only leaves out what the first one reads;
* `Decoder.Related` — another decoder succeeds as well, with a related value, and ends at the same
  place: the way of a decoder that reads the same and keeps less.
-/

namespace ClassInstrument.Decoder

variable {α β γ δ : Type}

/-! ### Properties of values -/

/-- Every value that the decoder gives has the property. -/
def Gives (d : Decoder α) (P : α → Prop) : Prop :=
  ∀ c value c', d c = .ok (value, c') → P value

namespace Gives

variable {d : Decoder α} {P Q : α → Prop}

theorem mono (h : Gives d P) (weaker : ∀ value, P value → Q value) : Gives d Q :=
  fun c value c' run => weaker value (h c value c' run)

theorem any (d : Decoder α) : Gives d fun _ => True := fun _ _ _ _ => trivial

theorem pure {value : α} (h : P value) : Gives (Pure.pure value) P := by
  intro c found c' run
  cases run
  exact h

theorem malformed {cause : Malformation} : Gives (Decoder.malformed cause : Decoder α) P :=
  fun _ _ _ run => nomatch run

theorem ofExcept {result : Except Failure α} (h : ∀ value, result = .ok value → P value) :
    Gives (Decoder.ofExcept result) P := fun _ value _ run => h value (ofExcept_eq_ok run)

theorem bind {f : α → Decoder β} {R : β → Prop} (first : Gives d P)
    (second : ∀ value, P value → Gives (f value) R) : Gives (d >>= f) R := by
  intro c result c' run
  obtain ⟨value, between, one, two⟩ := bind_eq_ok_iff.1 run
  exact second value (first c value between one) between result c' two

theorem ite {p : Prop} [Decidable p] {d' : Decoder α} (yes : p → Gives d P)
    (no : ¬p → Gives d' P) : Gives (if p then d else d') P := by
  split
  · exact yes ‹p›
  · exact no ‹¬p›

theorem times (h : Gives d P) (count : Nat) :
    Gives (Decoder.times count d) fun values => ∀ value ∈ values, P value := by
  induction count with
  | zero =>
    intro c values c' run
    cases run
    exact fun _ member => nomatch member
  | succ count ih =>
    intro c values c' run
    rw [times_succ] at run
    cases first : d c with
    | error e =>
      rw [first] at run
      cases run
    | ok here =>
      rw [first] at run
      obtain ⟨others, rest, same⟩ := Traverse.map_eq_ok_iff.1 run
      cases same
      exact List.forall_mem_cons.2
        ⟨h c here.1 here.2 first, ih here.2 others.1 others.2 rest⟩

theorem length_times (d : Decoder α) (count : Nat) :
    Gives (Decoder.times count d) fun values => values.length = count := by
  induction count with
  | zero =>
    intro c values c' run
    cases run
    rfl
  | succ count ih =>
    intro c values c' run
    rw [times_succ] at run
    cases first : d c with
    | error e =>
      rw [first] at run
      cases run
    | ok here =>
      rw [first] at run
      obtain ⟨others, rest, same⟩ := Traverse.map_eq_ok_iff.1 run
      cases same
      exact congrArg (· + 1) (ih here.2 others.1 others.2 rest)

theorem table (h : Gives d P) : Gives (Decoder.table d) fun values => ∀ value ∈ values, P value :=
  (any _).bind fun count _ => h.times count.toNat

/-- What every step keeps holds of the last state. -/
theorem iterate {step : α → Decoder α} (kept : ∀ state, P state → Gives (step state) P) (count : Nat)
    {state : α} (first : P state) : Gives (Decoder.iterate step count state) P := by
  induction count generalizing state with
  | zero =>
    intro c last c' run
    cases run
    exact first
  | succ count ih =>
    intro c last c' run
    rw [Decoder.iterate] at run
    dsimp only at run
    split at run
    · next next rest found => exact ih (kept state first _ _ _ found) _ _ _ run
    · cases run

theorem length_take (count : Nat) :
    Gives (Decoder.take count) fun bytes => bytes.length = count := by
  intro c bytes c' run
  unfold Decoder.take at run
  split at run
  · next front behind parted =>
    cases run
    exact (Bytes.split?_eq_some_iff.1 parted).2
  · cases run

/-- What is read from some bytes. -/
theorem onBytes (h : Gives d P) {bytes : Bytes} {value : α}
    (run : Decoder.onBytes d bytes = .ok value) : P value := by
  unfold Decoder.onBytes at run
  split at run
  · next found rest decoded =>
    cases run
    exact h _ _ _ decoded
  · cases run

end Gives

/-! ### Bytes that are taken away -/

/-- A run takes a front of the bytes away, and reads it whatever follows: what it leaves over had no
part in the value. -/
def Consumes (d : Decoder α) : Prop :=
  ∀ c value c', d c = .ok (value, c') → ∃ front, c.rest = front ++ c'.rest
    ∧ c'.position = c.position + front.length ∧ ReadsAt c.position d front value

namespace Consumes

variable {d : Decoder α}

theorem pure (value : α) : Consumes (Pure.pure value) := by
  intro c found c' run
  cases run
  exact ⟨[], rfl, rfl, ReadsAt.pure _ _⟩

theorem malformed {cause : Malformation} : Consumes (Decoder.malformed cause : Decoder α) :=
  fun _ _ _ run => nomatch run

theorem ofExcept (result : Except Failure α) : Consumes (Decoder.ofExcept result) := by
  cases result with
  | ok value => exact pure value
  | error e => exact fun _ _ _ run => nomatch run

theorem bind {f : α → Decoder β} (first : Consumes d) (second : ∀ value, Consumes (f value)) :
    Consumes (d >>= f) := by
  intro c result c' run
  obtain ⟨value, between, one, two⟩ := bind_eq_ok_iff.1 run
  obtain ⟨front, whole, moved, reads⟩ := first c value between one
  obtain ⟨behind, rest, last, others⟩ := second value between result c' two
  refine ⟨front ++ behind, ?_, ?_, ?_⟩
  · rw [whole, rest, List.append_assoc]
  · rw [last, moved, List.length_append, Nat.add_assoc]
  · rw [moved] at others
    exact reads.bind others

theorem ite {p : Prop} [Decidable p] {d' : Decoder α} (yes : p → Consumes d)
    (no : ¬p → Consumes d') : Consumes (if p then d else d') := by
  split
  · exact yes ‹p›
  · exact no ‹¬p›

theorem word [Word α] : Consumes (Decoder.word (α := α)) := by
  rintro ⟨position, rest⟩ value c' run
  unfold Decoder.word at run
  dsimp only at run
  split at run
  · next found behind parted =>
    cases run
    unfold Word.read? at parted
    obtain ⟨⟨front, left⟩, split, same⟩ := Option.map_eq_some_iff.1 parted
    cases same
    obtain ⟨rfl, length⟩ := Bytes.split?_eq_some_iff.1 split
    refine ⟨front, rfl, by rw [length], fun others => ?_⟩
    simp only [Decoder.word, Word.read?, Bytes.split?_append length, Option.map_some, length]
  · cases run

theorem skip (count : Nat) : Consumes (Decoder.skip count) := by
  rintro ⟨position, rest⟩ value c' run
  unfold Decoder.skip at run
  dsimp only at run
  split at run
  · next front behind parted =>
    cases run
    obtain ⟨rfl, length⟩ := Bytes.split?_eq_some_iff.1 parted
    exact ⟨front, rfl, by rw [length], Reads.skip length position⟩
  · cases run

theorem align (base alignment : Nat) : Consumes (Decoder.align base alignment) :=
  fun c => skip _ c

theorem times (h : Consumes d) (count : Nat) : Consumes (Decoder.times count d) := by
  induction count with
  | zero => exact pure []
  | succ count ih =>
    rw [times_succ_eq_bind]
    exact h.bind fun value => ih.bind fun values => pure (value :: values)

end Consumes

/-! ### Leaving out what another decoder reads -/

/-- Where `d` succeeds, `d'` does as well: it gives what `f` makes of the value, and it ends at the
same place. -/
def Follows (d : Decoder α) (d' : Decoder β) (f : α → β) : Prop :=
  ∀ c value c', d c = .ok (value, c') → d' c = .ok (f value, c')

/-- Leaving out two stretches of bytes one after the other. -/
theorem skip_add {first second : Nat} {c between c' : Cursor}
    (one : skip first c = .ok ((), between)) (two : skip second between = .ok ((), c')) :
    skip (first + second) c = .ok ((), c') := by
  obtain ⟨position, rest⟩ := c
  unfold skip at one two ⊢
  dsimp only at one ⊢
  split at one
  · next front behind parted =>
    cases one
    dsimp only at two
    split at two
    · next front' behind' parted' =>
      cases two
      obtain ⟨rfl, rfl⟩ := Bytes.split?_eq_some_iff.1 parted
      obtain ⟨rfl, rfl⟩ := Bytes.split?_eq_some_iff.1 parted'
      rw [← List.append_assoc, Bytes.split?_append (by simp), Nat.add_assoc]
    · cases two
  · cases one

namespace Follows

variable {d : Decoder α} {d' : Decoder β} {f : α → β}

theorem refl (d : Decoder α) : Follows d d id := fun _ _ _ run => run

theorem pure (value : α) (f : α → β) : Follows (Pure.pure value) (Pure.pure (f value)) f := by
  intro c found c' run
  cases run
  rfl

theorem bind {k : α → Decoder γ} {k' : β → Decoder δ} {g : γ → δ} (first : Follows d d' f)
    (second : ∀ value, Follows (k value) (k' (f value)) g) : Follows (d >>= k) (d' >>= k') g := by
  intro c result c' run
  obtain ⟨value, between, one, two⟩ := bind_eq_ok_iff.1 run
  rw [bind_of_ok (first c value between one)]
  exact second value between result c' two

theorem ite {p : Prop} [Decidable p] {d₂ : Decoder α} {d₂' : Decoder β} (yes : Follows d d' f)
    (no : Follows d₂ d₂' f) : Follows (if p then d else d₂) (if p then d' else d₂') f := by
  split
  · exact yes
  · exact no

/-- Use of results that persist. -/
theorem ofExcept {x y : Except Failure α} (h : Traverse.Persists x y) :
    Follows (Decoder.ofExcept x) (Decoder.ofExcept y) id := by
  intro c value c' run
  have found := ofExcept_eq_ok run
  subst found
  cases run
  rw [h value rfl]
  rfl

/-- A step that reads no bytes is not followed by anything. -/
theorem ofExcept_bind {result : Except Failure α} {k : α → Decoder γ} {d' : Decoder δ} {g : γ → δ}
    (h : ∀ value, result = .ok value → Follows (k value) d' g) :
    Follows (Decoder.ofExcept result >>= k) d' g := by
  intro c last c' run
  obtain ⟨value, between, one, two⟩ := bind_eq_ok_iff.1 run
  have found := ofExcept_eq_ok one
  subst found
  cases one
  exact h value rfl c last c' two

/-- A number is left out by its width. -/
theorem word [Word α] : Follows (Decoder.word (α := α)) (skip (Word.width α)) fun _ => () := by
  rintro ⟨position, rest⟩ value c' run
  unfold Decoder.word at run
  dsimp only at run
  split at run
  · next found behind parted =>
    cases run
    unfold Word.read? at parted
    obtain ⟨⟨front, left⟩, split, same⟩ := Option.map_eq_some_iff.1 parted
    cases same
    simp only [skip, split]
  · cases run

theorem take (count : Nat) : Follows (Decoder.take count) (skip count) fun _ => () := by
  rintro ⟨position, rest⟩ value c' run
  unfold Decoder.take at run
  dsimp only at run
  split at run
  · next front behind parted =>
    cases run
    simp only [skip, parted]
  · cases run

/-- Two decoders one after the other, where bytes of both are left out at once. -/
theorem skip_bind (first second : Nat) {k : α → Decoder γ} {k' : Unit → Decoder δ} {g : γ → δ}
    (one : Follows d (skip first) fun _ => ())
    (two : ∀ value, Follows (k value) (skip second >>= k') g) :
    Follows (d >>= k) (skip (first + second) >>= k') g := by
  intro c result c' run
  obtain ⟨value, between, here, rest⟩ := bind_eq_ok_iff.1 run
  obtain ⟨_, after, left, last⟩ := bind_eq_ok_iff.1 (two value between result c' rest)
  rw [bind_of_ok (skip_add (one c value between here) left)]
  exact last

theorem times (h : Follows d d' f) (count : Nat) :
    Follows (Decoder.times count d) (Decoder.times count d') (List.map f) := by
  induction count with
  | zero =>
    intro c values c' run
    cases run
    rfl
  | succ count ih =>
    intro c values c' run
    rw [times_succ] at run ⊢
    cases first : d c with
    | error e =>
      rw [first] at run
      cases run
    | ok here =>
      rw [first] at run
      obtain ⟨others, rest, same⟩ := Traverse.map_eq_ok_iff.1 run
      cases same
      simp only [h c here.1 here.2 first, ih here.2 others.1 others.2 rest, Except.map, List.map_cons]

theorem table (h : Follows d d' f) : Follows (Decoder.table d) (Decoder.table d') (List.map f) :=
  (refl _).bind fun count => h.times count.toNat

/-- The same values over and over. -/
theorem times_same {d' : Decoder α} (h : Follows d d' id) (count : Nat) :
    Follows (Decoder.times count d) (Decoder.times count d') id := by
  have all := h.times count
  rwa [List.map_id_fun] at all

theorem table_same {d' : Decoder α} (h : Follows d d' id) :
    Follows (Decoder.table d) (Decoder.table d') id := by
  have all := h.table
  rwa [List.map_id_fun] at all

theorem iterate {step step' : α → Decoder α} (each : ∀ state, Follows (step state) (step' state) id)
    (count : Nat) (state : α) :
    Follows (Decoder.iterate step count state) (Decoder.iterate step' count state) id := by
  induction count generalizing state with
  | zero => exact refl _
  | succ count ih =>
    intro c last c' run
    rw [Decoder.iterate] at run ⊢
    dsimp only at run ⊢
    split at run
    · next next rest found =>
      rw [each state c next rest found]
      exact ih next rest last c' run
    · cases run

/-- Rows of one width are left out at once. -/
theorem times_skip {width : Nat} (h : Follows d (skip width) fun _ => ()) (count : Nat) :
    Follows (Decoder.times count d) (skip (width * count)) fun _ => () := by
  induction count with
  | zero =>
    intro c values c' run
    cases run
    have nothing : Reads (skip 0) [] () := Reads.skip rfl
    exact nothing c.position c.rest
  | succ count ih =>
    intro c values c' run
    rw [times_succ] at run
    cases first : d c with
    | error e =>
      rw [first] at run
      cases run
    | ok here =>
      rw [first] at run
      obtain ⟨others, rest, same⟩ := Traverse.map_eq_ok_iff.1 run
      cases same
      rw [Nat.mul_succ, Nat.add_comm]
      exact skip_add (h c here.1 here.2 first) (ih here.2 others.1 others.2 rest)

/-- A counted table of such rows. -/
theorem table_bind {width : Nat} {k : List α → Decoder γ} {k' : Unit → Decoder δ} {g : γ → δ}
    (row : Follows d (skip width) fun _ => ()) (rest : ∀ values, Follows (k values) (k' ()) g) :
    Follows (Decoder.table d >>= k)
      (Decoder.word (α := UInt16) >>= fun count => skip (width * count.toNat) >>= k') g := by
  rw [Decoder.table, bind_assoc]
  exact bind (refl _) fun count => bind (row.times_skip count.toNat) rest

/-- Whole bytes. -/
theorem onBytes (h : Follows d d' f) {bytes : Bytes} {value : α}
    (run : Decoder.onBytes d bytes = .ok value) : Decoder.onBytes d' bytes = .ok (f value) := by
  unfold Decoder.onBytes at run ⊢
  split at run
  · next found rest decoded =>
    cases run
    rw [h _ _ _ decoded]
  · cases run

end Follows

/-! ### Two decoders side by side -/

/-- Where `d` succeeds, `d'` does as well, with a related value, and it ends at the same place. -/
def Related (R : α → β → Prop) (d : Decoder α) (d' : Decoder β) : Prop :=
  ∀ c value c', d c = .ok (value, c') → ∃ value', d' c = .ok (value', c') ∧ R value value'

namespace Related

variable {R : α → β → Prop} {S : γ → δ → Prop} {d : Decoder α} {d' : Decoder β}

theorem pure {value : α} {value' : β} (h : R value value') :
    Related R (Pure.pure value) (Pure.pure value') := by
  intro c found c' run
  cases run
  exact ⟨value', rfl, h⟩

theorem bind {k : α → Decoder γ} {k' : β → Decoder δ} (first : Related R d d')
    (second : ∀ value value', R value value' → Related S (k value) (k' value')) :
    Related S (d >>= k) (d' >>= k') := by
  intro c result c' run
  obtain ⟨value, between, one, two⟩ := bind_eq_ok_iff.1 run
  obtain ⟨value', one', related⟩ := first c value between one
  rw [bind_of_ok one']
  exact second value value' related between result c' two

/-- Both decoders start with the same one, of whose values something is known. -/
theorem bind_same {P : α → Prop} {k : α → Decoder γ} {k' : α → Decoder δ} (given : Gives d P)
    (second : ∀ value, P value → Related S (k value) (k' value)) :
    Related S (d >>= k) (d >>= k') := by
  intro c result c' run
  obtain ⟨value, between, one, two⟩ := bind_eq_ok_iff.1 run
  rw [bind_of_ok one]
  exact second value (given c value between one) between result c' two

theorem malformed {cause : Malformation} : Related R (Decoder.malformed cause) d' :=
  fun _ _ _ run => nomatch run

theorem ofExcept {result : Except Failure α} {result' : Except Failure β}
    (h : ∀ value, result = .ok value → ∃ value', result' = .ok value' ∧ R value value') :
    Related R (Decoder.ofExcept result) (Decoder.ofExcept result') := by
  intro c value c' run
  have found := ofExcept_eq_ok run
  subst found
  cases run
  obtain ⟨value', same, related⟩ := h value rfl
  rw [same]
  exact ⟨value', rfl, related⟩

/-- The second decoder leaves out what the first one has to compute. -/
theorem ofExcept_pure {result : Except Failure α} {b : β}
    (h : ∀ value, result = .ok value → R value b) :
    Related R (Decoder.ofExcept result) (Pure.pure b) :=
  show Related R (Decoder.ofExcept result) (Decoder.ofExcept (.ok b)) from
    ofExcept fun value found => ⟨b, rfl, h value found⟩

/-- What every step keeps side by side holds of the last states. -/
theorem iterate {R : α → β → Prop} {step : α → Decoder α} {step' : β → Decoder β}
    (each : ∀ state state', R state state' → Related R (step state) (step' state')) (count : Nat)
    {state : α} {state' : β} (first : R state state') :
    Related R (Decoder.iterate step count state) (Decoder.iterate step' count state') := by
  induction count generalizing state state' with
  | zero => exact pure first
  | succ count ih =>
    intro c last c' run
    rw [Decoder.iterate] at run ⊢
    dsimp only at run ⊢
    split at run
    · next next rest found =>
      obtain ⟨next', found', related⟩ := each state state' first c next rest found
      rw [found']
      exact ih related rest last c' run
    · cases run

/-- What is known of the values of either decoder besides. -/
theorem both {P : α → Prop} {Q : β → Prop} (h : Related R d d') (given : Gives d P)
    (given' : Gives d' Q) :
    Related (fun value value' => R value value' ∧ P value ∧ Q value') d d' := by
  intro c value c' run
  obtain ⟨value', run', related⟩ := h c value c' run
  exact ⟨value', run', related, given c value c' run, given' c value' c' run'⟩

/-- Whole bytes. -/
theorem onBytes (h : Related R d d') {bytes : Bytes} {value : α}
    (run : Decoder.onBytes d bytes = .ok value) :
    ∃ value', Decoder.onBytes d' bytes = .ok value' ∧ R value value' := by
  unfold Decoder.onBytes at run ⊢
  split at run
  · next found rest decoded =>
    cases run
    obtain ⟨value', decoded', related⟩ := h _ _ _ decoded
    exact ⟨value', by rw [decoded'], related⟩
  · cases run

end Related

end ClassInstrument.Decoder
