import ClassInstrument.Annotation.Codec
import ClassInstrument.Descriptor
import ClassInstrument.Proofs.Pool.Additions

/-!
# Faults that lie in a body

Encoding can fail because something is too large for the class file, or because a body says
something that has no class file form.  Only the code of bodies can fail in the second way.

* `EncodingFault.liesInBody` — the faults of the second kind;
* `Avoids` — a computation never fails in some way, with one law for every way in which computations
  are put together;
* `Blameless`, `Builder.Blameless` — a computation never fails in the second way;
* `Builder.Adds.blameless`, `Annotation.blameless_encodeAll` — constants and annotations are written
  without such a fault.
-/

namespace ClassInstrument

/-- The faults that lie in what a body says: a label that is not placed, an operand that does not
belong to its opcode, a number that its form has no room for, a variable that ends before it
starts. -/
def EncodingFault.liesInBody : EncodingFault → Bool
  | .unplacedLabel _ | .operandMismatch _ | .byteRange _ | .shortRange _ | .tableTargets ..
  | .variableBackwards _ => true
  | _ => false

/-- The failure is a fault that lies in a body. -/
def Failure.liesInBody : Failure → Bool
  | .encoding cause => cause.liesInBody
  | _ => false

/-! ### Results -/

/-- If this is a failure, it is none of some kind. -/
def Avoids {α : Type} (kind : Failure → Bool) (r : Except Failure α) : Prop :=
  ∀ e, r = .error e → kind e = false

namespace Avoids

variable {α β : Type} {kind : Failure → Bool}

theorem ok (value : α) : Avoids kind (.ok value) := fun _ h => nomatch h

theorem error {e : Failure} (h : kind e = false) : Avoids kind (.error e : Except Failure α) := by
  intro e' same
  cases same
  exact h

theorem bind {r : Except Failure α} {f : α → Except Failure β} (first : Avoids kind r)
    (second : ∀ value, r = .ok value → Avoids kind (f value)) : Avoids kind (r >>= f) := by
  intro e h
  cases known : r with
  | error e' =>
    rw [known] at h
    cases h
    exact first _ known
  | ok value =>
    rw [known] at h
    exact second value known e h

theorem map {r : Except Failure α} (f : α → β) (h : Avoids kind r) : Avoids kind (r.map f) := by
  cases r with
  | error e =>
    intro e' same
    cases same
    exact h e rfl
  | ok value => exact ok _

theorem mapM {f : α → Except Failure β} {l : List α} (h : ∀ a ∈ l, Avoids kind (f a)) :
    Avoids kind (l.mapM f) := by
  induction l with
  | nil => exact ok []
  | cons a l ih =>
    rw [List.mapM_cons]
    refine (h a List.mem_cons_self).bind fun b _ => ?_
    exact (ih fun a ha => h a (List.mem_cons_of_mem _ ha)).bind fun bs _ => ok _

/-- A descriptor that cannot be read fails as such. -/
theorem methodType (other : ∀ cause, kind (.malformed cause) = false) (desc : String) :
    Avoids kind (ClassInstrument.methodType desc) := by
  unfold ClassInstrument.methodType
  cases MethodType.parse desc with
  | error cause => exact error (other cause)
  | ok type => exact ok type

end Avoids

/-- If this is a failure, it does not lie in a body. -/
abbrev Blameless {α : Type} (r : Except Failure α) : Prop := Avoids Failure.liesInBody r

namespace Blameless

theorem countField (what : String) (count : Nat) :
    Blameless (ClassInstrument.countField what count) := by
  unfold ClassInstrument.countField
  split
  · exact .ok _
  · exact .error rfl

end Blameless

/-! ### Computations that add constants -/

namespace Builder

variable {α β : Type}

/-- Wherever the computation fails, the failure does not lie in a body. -/
def Blameless (build : Builder α) : Prop :=
  ∀ t e t', build t = .error e t' → e.liesInBody = false

namespace Blameless

theorem pure (value : α) : Blameless (Pure.pure value) := fun _ _ _ h => nomatch h

theorem throw {e : Failure} (h : e.liesInBody = false) : Blameless (throw e : Builder α) := by
  intro t e' t' same
  cases same
  exact h

/-- The second computation only has to go on from where the first one succeeds. -/
theorem bind_of_ok {build : Builder α} {f : α → Builder β} (first : build.Blameless)
    (second : ∀ t value t', build t = .ok value t' → (f value).Blameless) :
    Blameless (build >>= f) := by
  intro t e t' h
  rcases bind_eq_error_iff.1 h with failed | ⟨value, s, run, failed⟩
  · exact first _ _ _ failed
  · exact second t value s run _ _ _ failed

theorem bind {build : Builder α} {f : α → Builder β} (first : build.Blameless)
    (second : ∀ value, (f value).Blameless) : Blameless (build >>= f) :=
  first.bind_of_ok fun _ value _ _ => second value

theorem map {build : Builder α} (f : α → β) (h : build.Blameless) : Blameless (f <$> build) :=
  h.bind fun value => pure (f value)

theorem ite {p : Prop} [Decidable p] {first second : Builder α} (yes : p → first.Blameless)
    (no : ¬p → second.Blameless) : Blameless (if p then first else second) := by
  split
  · exact yes ‹p›
  · exact no ‹¬p›

theorem ofExcept {r : Except Failure α} (h : ClassInstrument.Blameless r) :
    Blameless (ofExcept r) := by
  cases r with
  | error e => exact throw (h e rfl)
  | ok value => exact pure value

theorem mapM {f : α → Builder β} {l : List α} (h : ∀ a ∈ l, (f a).Blameless) :
    Blameless (l.mapM f) := by
  induction l with
  | nil => exact pure []
  | cons a l ih =>
    rw [List.mapM_cons]
    refine (h a List.mem_cons_self).bind fun b => ?_
    exact (ih fun a ha => h a (List.mem_cons_of_mem _ ha)).bind fun bs => pure _

theorem concat {f : α → Builder Bytes} {l : List α} (h : ∀ a ∈ l, (f a).Blameless) :
    Blameless (concat f l) := by
  suffices general : ∀ written, (concatOnto f written l).Blameless from general []
  induction l with
  | nil => exact fun written => pure _
  | cons a l ih =>
    intro written
    refine (h a List.mem_cons_self).bind fun chunk => ?_
    exact ih (fun a ha => h a (List.mem_cons_of_mem _ ha)) (chunk :: written)

end Blameless

theorem blameless_count (what : String) (n : Nat) : (count what n).Blameless :=
  .ofExcept (.countField what n)

/-- A full table is no fault of a body. -/
theorem Adds.blameless {build : Builder α} (h : Adds build) : build.Blameless := by
  intro t e t' failed
  rcases h.full failed with rfl | rfl <;> rfl

theorem Blameless.withOwnBootstrap {build : Builder α} (h : build.Blameless) :
    (withOwnBootstrap build).Blameless := by
  rintro ⟨pool, bootstrap⟩ e t' run
  rw [Builder.withOwnBootstrap] at run
  split at run
  · cases run
  · next found =>
    cases run
    exact h _ _ _ found

end Builder

/-! ### Annotations -/

namespace ElementValue

open Builder

theorem blameless_addConst (t : UInt8) (value : Constant) : (addConst t value).Blameless := by
  unfold addConst
  split
  · exact .ite (fun _ => (adds_addUtf8 _).blameless) fun _ =>
      (adds_addConstant _).blameless.withOwnBootstrap
  · exact (adds_addConstant _).blameless.withOwnBootstrap

mutual

theorem blameless_encode (v : ElementValue) : (encode v).Blameless := by
  cases v with
  | const tag value => exact (blameless_addConst tag value).bind fun _ => .pure _
  | enum desc name =>
    exact (adds_addUtf8 desc).blameless.bind fun _ =>
      (adds_addUtf8 name).blameless.bind fun _ => .pure _
  | classRef desc => exact (adds_addUtf8 desc).blameless.bind fun _ => .pure _
  | nested desc values =>
    exact (adds_addUtf8 desc).blameless.bind fun _ => (blameless_count _ _).bind fun _ =>
      (blameless_encodeNamed [] values).bind fun _ => .pure _
  | array values =>
    exact (blameless_count _ _).bind fun _ => (blameless_encodeItems [] values).bind fun _ => .pure _

theorem blameless_encodeItems (written : List Bytes) (values : List ElementValue) :
    (encodeItems written values).Blameless := by
  cases values with
  | nil => exact .pure _
  | cons value values =>
    exact (blameless_encode value).bind fun chunk => blameless_encodeItems (chunk :: written) values

theorem blameless_encodeNamed (written : List Bytes) (values : List (String × ElementValue)) :
    (encodeNamed written values).Blameless := by
  cases values with
  | nil => exact .pure _
  | cons entry values =>
    obtain ⟨name, value⟩ := entry
    exact (adds_addUtf8 name).blameless.bind fun _ => (blameless_encode value).bind fun _ =>
      blameless_encodeNamed (_ :: written) values

end

end ElementValue

/-- **Annotations are written** without a fault that lies in a body. -/
theorem Annotation.blameless_encodeAll (annotations : List Annotation) :
    Builder.Blameless (encodeAll annotations) := by
  refine (Builder.blameless_count _ _).bind fun _ => (Builder.Blameless.concat fun a _ => ?_).bind
    fun _ => .pure _
  exact (Builder.adds_addUtf8 a.desc).blameless.bind fun _ =>
    (Builder.blameless_count _ _).bind fun _ =>
      (ElementValue.blameless_encodeNamed [] a.values).bind fun _ => .pure _

end ClassInstrument
