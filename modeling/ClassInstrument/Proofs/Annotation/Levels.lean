import ClassInstrument.Proofs.Annotation.RoundTrip
import ClassInstrument.Proofs.Pool.Survival

/-!
# Annotations read back exactly

Writing annotations has no bound on how deep they nest, reading them has one.  What was written is
read as what it was, against the pool that writing left and all that extend it, or it is refused
because some part of it stands too deep.  It is never read as something else.

* `ElementValue.levels`, `Annotation.levels` — the levels on which the parts of an annotation stand,
  the annotation itself on level 0;
* `Annotation.depth_le_iff` — the levels that reading counts are these;
* `Annotation.annotations_read_back` — **read exactly, or refused**.
-/

namespace ClassInstrument

open Builder Decoder

namespace ElementValue

mutual

/-- The level on which a value stands, and the levels of all that is in it.  A nested annotation is
one level below the value that it is. -/
def levels (level : Nat) : ElementValue → List Nat
  | .const _ _ | .enum _ _ | .classRef _ => [level]
  | .nested _ values => level :: (level + 1) :: levelsNamed (level + 2) values
  | .array values => level :: levelsAll (level + 1) values

/-- The levels of several values that stand on one level, and of all that is in them. -/
def levelsAll (level : Nat) : List ElementValue → List Nat
  | [] => []
  | value :: values => value.levels level ++ levelsAll level values

/-- The same for several named values. -/
def levelsNamed (level : Nat) : List (String × ElementValue) → List Nat
  | [] => []
  | (_, value) :: values => value.levels level ++ levelsNamed level values

end

mutual

/-- No part of a value stands below some level if the value is no deeper than what is left. -/
theorem levels_le_iff (v : ElementValue) (level bound : Nat) :
    (∀ l ∈ v.levels level, l ≤ bound) ↔ level + v.depth ≤ bound + 1 := by
  cases v with
  | const _ _ | enum _ _ | classRef _ => simp [levels, depth]
  | nested desc values =>
    simp only [levels, depth, List.forall_mem_cons]
    constructor
    · rintro ⟨-, inside, parts⟩
      have := (levelsNamed_le_iff values (level + 2) bound (by omega)).1 parts
      omega
    · intro fits
      exact ⟨by omega, by omega,
        (levelsNamed_le_iff values (level + 2) bound (by omega)).2 (by omega)⟩
  | array values =>
    simp only [levels, depth, List.forall_mem_cons]
    constructor
    · rintro ⟨here, parts⟩
      have := (levelsAll_le_iff values (level + 1) bound (by omega)).1 parts
      omega
    · intro fits
      exact ⟨by omega, (levelsAll_le_iff values (level + 1) bound (by omega)).2 (by omega)⟩

/-- The same for several values, of which there may be none. -/
theorem levelsAll_le_iff (values : List ElementValue) (level bound : Nat)
    (above : level ≤ bound + 1) :
    (∀ l ∈ levelsAll level values, l ≤ bound) ↔ level + depthAll values ≤ bound + 1 := by
  cases values with
  | nil => simpa [levelsAll, depthAll] using above
  | cons value values =>
    simp only [levelsAll, depthAll, List.forall_mem_append]
    rw [levels_le_iff value level bound, levelsAll_le_iff values level bound above]
    omega

/-- The same for several named values. -/
theorem levelsNamed_le_iff (values : List (String × ElementValue)) (level bound : Nat)
    (above : level ≤ bound + 1) :
    (∀ l ∈ levelsNamed level values, l ≤ bound) ↔ level + depthNamed values ≤ bound + 1 := by
  match values with
  | [] => simpa [levelsNamed, depthNamed] using above
  | (name, value) :: values =>
    simp only [levelsNamed, depthNamed, List.forall_mem_append]
    rw [levels_le_iff value level bound, levelsNamed_le_iff values level bound above]
    omega

end

end ElementValue

namespace Annotation

open ElementValue

/-- The levels on which the parts of an annotation stand, its own one being level 0. -/
def levels (a : Annotation) : List Nat := 0 :: levelsNamed 1 a.values

/-- **Reading counts the levels on which something stands**, level 0 included. -/
theorem depth_le_iff (a : Annotation) (bound : Nat) :
    a.depth ≤ bound + 1 ↔ ∀ level ∈ a.levels, level ≤ bound := by
  simp only [levels, depth, List.forall_mem_cons, Nat.zero_le, true_and]
  rw [levelsNamed_le_iff a.values 1 bound (Nat.le_add_left 1 bound), Nat.add_comm]

/-- **Annotations are read back exactly.**  What well-tagged annotations were written as is read as
these annotations, against every pool that extends the one behind, if no part of them stands below
level 64; if some part does, it is refused.  The types alone are read in the same cases. -/
theorem annotations_read_back {annotations : List Annotation} {t t' : ConstantTables} {bytes : Bytes}
    {p : Pool} (reached : t.Reached) (tagged : ∀ a ∈ annotations, WellTaggedNamed a.values)
    (written : encodeAll annotations t = .ok bytes t')
    (later : t'.pool.slots.toList <+: p.slots.toList) :
    ((∀ a ∈ annotations, ∀ level ∈ a.levels, level ≤ 64) →
        decodeAll p bytes = .ok annotations ∧ types p bytes = .ok (annotations.map (·.desc)))
      ∧ ((∃ a ∈ annotations, ∃ level ∈ a.levels, 64 < level) →
        decodeAll p bytes = .error (.malformed .annotationTooDeep)
          ∧ types p bytes = .error (.malformed .annotationTooDeep)) := by
  obtain ⟨-, -, read⟩ := yields_followed annotations t bytes t' reached.wellFormed written
  have outcome := read ⟨p, t'.bootstrap⟩ ⟨later, List.prefix_refl _⟩ tagged
  dsimp only at outcome
  refine ⟨fun shallow => ?_, fun ⟨a, member, level, stands, deep⟩ => ?_⟩
  · have enough : deepest depth annotations ≤ 65 :=
      deepest_le_iff.2 fun a member => (depth_le_iff a 64).2 (shallow a member)
    rw [types, outcome, nestingLevels, followed_of_le enough]
    exact ⟨rfl, rfl⟩
  · have tooDeep : 65 < deepest depth annotations := by
      refine Nat.not_le.1 fun enough => ?_
      have shallow := (depth_le_iff a 64).1 (deepest_le_iff.1 enough a member)
      exact absurd (shallow level stands) (Nat.not_le.2 deep)
    rw [types, outcome, nestingLevels, followed_of_lt tooDeep]
    exact ⟨rfl, rfl⟩

/-- An array of a number inside so many annotations. -/
def wrapped : Nat → ElementValue
  | 0 => .array [.const (tag 'I') (.int 7)]
  | n + 1 => .nested "A" [("v", wrapped n)]

theorem depth_wrapped (n : Nat) : (wrapped n).depth = 2 * n + 2 := by
  induction n with
  | zero => rfl
  | succ n ih =>
    simp only [wrapped, ElementValue.depth, depthNamed, ih]
    omega

theorem wellTagged_wrapped (n : Nat) : (wrapped n).WellTagged := by
  induction n with
  | zero => exact ⟨(by decide : tagFits (tag 'I') (.int 7) = true), trivial⟩
  | succ n ih => exact ⟨ih, trivial⟩

/-- One value with its name. -/
theorem needs_encodeNamed {name : String} {value : ElementValue} {n : Nat}
    (inner : Needs n (ElementValue.encode value)) :
    Needs (1 + (n + 0)) (encodeNamed [] [(name, value)]) :=
  (needs_add (.utf8 name)).bind fun _ => inner.bind fun _ => .pure _

theorem needs_encode_wrapped (n : Nat) : Needs (2 * n + 1) (ElementValue.encode (wrapped n)) := by
  induction n with
  | zero =>
    have number : Needs 1 (addConst (tag 'I') (.int 7)) := by
      show Needs 1 (withOwnBootstrap (add (.integer 7)))
      rw [withOwnBootstrap_add]
      exact needs_add (.integer 7)
    exact (Needs.count (by decide : 1 < 65536)).bind fun size =>
      ((number.bind fun i => .pure _).bind fun chunk => .pure _).bind fun body => .pure _
  | succ n ih =>
    have whole : Needs (1 + (0 + (1 + (2 * n + 1 + 0) + 0)))
        (ElementValue.encode (wrapped (n + 1))) :=
      (needs_add (.utf8 "A")).bind fun desc => (Needs.count (Nat.lt_of_sub_eq_succ rfl)).bind
        fun size => (needs_encodeNamed ih).bind fun body => .pure _
    exact (by omega : 1 + (0 + (1 + (2 * n + 1 + 0) + 0)) = 2 * (n + 1) + 1) ▸ whole

/-- An annotation with one value. -/
def holding (value : ElementValue) : Annotation := ⟨"A", [("v", value)]⟩

theorem needs_encodeAll_holding {value : ElementValue} {n : Nat}
    (inner : Needs n (ElementValue.encode value)) : Needs (n + 2) (encodeAll [holding value]) := by
  have whole : Needs (0 + (1 + (0 + (1 + (n + 0) + 0)) + 0 + 0)) (encodeAll [holding value]) :=
    (Needs.count (by decide : 1 < 65536)).bind fun size =>
      (((needs_add (.utf8 "A")).bind fun desc => (Needs.count (by decide : 1 < 65536)).bind
        fun size => (needs_encodeNamed inner).bind fun body => .pure _).bind fun chunk =>
          .pure _).bind fun body => .pure _
  exact (by omega : 0 + (1 + (0 + (1 + (n + 0) + 0)) + 0 + 0) = n + 2) ▸ whole

/-- The deepest part of the first annotation stands on level 64, that of the second on level 66. -/
theorem annotations_read_back_wrapped : ∃ t : ConstantTables, t.Reached
    ∧ (∃ bytes t', encodeAll [holding (wrapped 31)] t = .ok bytes t'
      ∧ decodeAll t'.pool bytes = .ok [holding (wrapped 31)] ∧ types t'.pool bytes = .ok ["A"])
    ∧ ∃ bytes t', encodeAll [holding (wrapped 32)] t = .ok bytes t'
      ∧ decodeAll t'.pool bytes = .error (.malformed .annotationTooDeep)
      ∧ types t'.pool bytes = .error (.malformed .annotationTooDeep) := by
  have reached : (ConstantTables.mk .empty .empty).Reached := ⟨_, [], .inl rfl, .inl rfl, rfl⟩
  have tagged : ∀ n, ∀ a ∈ [holding (wrapped n)], WellTaggedNamed a.values := fun n a member => by
    rw [List.mem_singleton.1 member]
    exact ⟨wellTagged_wrapped n, trivial⟩
  have levels : ∀ n bound, (∀ level ∈ (holding (wrapped n)).levels, level ≤ bound)
      ↔ 2 * n + 2 ≤ bound := fun n bound => by
    rw [← depth_le_iff]
    simp only [depth, holding, depthNamed, depth_wrapped]
    omega
  refine ⟨_, reached, ?_, ?_⟩
  · obtain ⟨bytes, t', written, -, -⟩ :=
      needs_encodeAll_holding (needs_encode_wrapped 31) ⟨.empty, .empty⟩ (by decide) (by decide)
    refine ⟨bytes, t', written, ?_⟩
    refine (annotations_read_back reached (tagged 31) written (List.prefix_refl _)).1 ?_
    intro a member
    rw [List.mem_singleton.1 member]
    exact (levels 31 64).2 (by decide)
  · obtain ⟨bytes, t', written, -, -⟩ :=
      needs_encodeAll_holding (needs_encode_wrapped 32) ⟨.empty, .empty⟩ (by decide) (by decide)
    refine ⟨bytes, t', written, ?_⟩
    refine (annotations_read_back reached (tagged 32) written (List.prefix_refl _)).2 ?_
    refine ⟨_, List.mem_singleton_self _, ?_⟩
    by_contra none
    exact absurd ((levels 32 64).1 fun level stands => Nat.not_lt.1 fun deep =>
      none ⟨level, stands, deep⟩) (by decide)

end Annotation

end ClassInstrument
