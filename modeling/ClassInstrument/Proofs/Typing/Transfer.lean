import ClassInstrument.Proofs.Typing.Actions
import ClassInstrument.Proofs.Typing.Outcome
import ClassInstrument.Typing.Merge

/-!
# What instructions keep

No instruction changes the number of locals, and the only objects without a constructor call in a
state are those that some `new` has created.

* `Slot.MadeBy` — a slot that refers to no allocation site but known ones;
* `State.Tracked` — such slots only, and a number of locals;
* `TypingContext.execute_tracked` — **both are kept by every instruction**, which never fails for
  want of an allocation site;
* `State.tracked_merge` — both are kept where states meet.
-/

namespace ClassInstrument

/-- The slot refers to none but known allocation sites. -/
def Slot.MadeBy (made : Nat → Prop) : Slot → Prop
  | .uninitialized site => made site.index
  | _ => True

/-- A state with a number of locals that refers to none but known allocation sites. -/
structure State.Tracked (made : Nat → Prop) (count : Nat) (s : State) : Prop where
  length : s.locals.length = count
  locals : ∀ slot ∈ s.locals, slot.MadeBy made
  stack : ∀ slot ∈ s.stack, slot.MadeBy made

variable {made : Nat → Prop} {count : Nat}

/-! ### Types of values -/

theorem fieldType_outcome (desc : String) : Ends (fun _ => True) (fieldType desc) := by
  unfold fieldType
  cases FieldType.parse desc with
  | ok type => exact trivial
  | error e => exact trivial

theorem methodType_outcome (desc : String) : Ends (fun _ => True) (methodType desc) := by
  unfold methodType
  cases MethodType.parse desc with
  | ok type => exact trivial
  | error e => exact trivial

namespace Slot

theorem madeBy_declared (type : VerificationType) : (declared type).MadeBy made := by
  cases type <;> exact trivial

theorem madeBy_constant (constant : Constant) : Ends (MadeBy made) constant.slot := by
  cases constant with
  | dynamic name desc handle args =>
    show Ends _ ((fieldType desc).map FieldType.slot)
    exact (fieldType_outcome desc).map fun type _ => madeBy_declared _
  | _ => exact trivial

end Slot

theorem elementSlot_outcome (array : Slot) : Ends (Slot.MadeBy made) (elementSlot array) := by
  cases array with
  | object name =>
    unfold elementSlot
    dsimp only
    split
    · exact (fieldType_outcome _).map fun type _ => Slot.madeBy_declared _
    · exact trivial
  | _ => exact trivial

/-! ### Types that meet -/

theorem Slot.madeBy_merge {h : Hierarchy} {current : Slot} (known : current.MadeBy made)
    (incoming : Slot) : (merge h current incoming).MadeBy made := by
  unfold merge
  split
  · exact known
  · split
    · exact trivial
    · exact trivial
    · split <;> exact trivial
    · exact trivial

theorem State.length_cutHalves (locals : List Slot) :
    (cutHalves locals).length = locals.length := by
  rw [cutHalves, List.length_zipWith, List.length_append, List.length_map, List.length_tail,
    List.length_singleton]
  omega

/-! ### Moves -/

namespace State

variable {s : State} (tracked : s.Tracked made count)

include tracked

theorem Tracked.push {slot : Slot} (known : slot.MadeBy made) :
    (s.push slot).Tracked made count where
  length := tracked.length
  locals := tracked.locals
  stack other member := by
    rcases List.mem_append.1 member with new | old
    · rw [List.mem_reverse, Slot.widen] at new
      split at new
      · rcases List.mem_cons.1 new with rfl | new
        · exact known
        · rw [List.mem_singleton.1 new]
          exact trivial
      · rw [List.mem_singleton.1 new]
        exact known
    · exact tracked.stack other old

theorem Tracked.pop :
    Ends (fun r => r.1.MadeBy made ∧ r.2.Tracked made count) s.pop := by
  unfold State.pop
  split
  · next slot stack same =>
    have each := tracked.stack
    rw [same] at each
    exact ⟨each slot List.mem_cons_self, tracked.length, tracked.locals,
      fun other member => each other (List.mem_cons_of_mem _ member)⟩
  · exact trivial

theorem Tracked.drop (n : Nat) : Ends (Tracked made count) (s.drop n) := by
  unfold State.drop
  split
  · exact ⟨tracked.length, tracked.locals, fun slot member =>
      tracked.stack slot (List.mem_of_mem_drop member)⟩
  · exact trivial

theorem Tracked.convert (n : Nat) {slot : Slot} (known : slot.MadeBy made) :
    Ends (Tracked made count) (s.convert n slot) :=
  (tracked.drop n).map fun _ kept => kept.push known

theorem Tracked.shuffle (n : Nat) (copies : List Nat) :
    Ends (Tracked made count) (s.shuffle n copies) := by
  unfold State.shuffle
  split
  · refine ⟨tracked.length, tracked.locals, fun slot member => ?_⟩
    rcases List.mem_append.1 member with copied | kept
    · obtain ⟨i, -, here⟩ := List.mem_filterMap.1 (List.mem_reverse.1 copied)
      exact tracked.stack slot (List.mem_of_getElem? here)
    · exact tracked.stack slot (List.mem_of_mem_drop kept)
  · exact trivial

theorem Tracked.load (index : UInt16) : Ends (Slot.MadeBy made) (s.load index) := by
  unfold State.load
  split
  · next slot here => exact tracked.locals slot (List.mem_of_getElem? here)
  · exact trivial

omit tracked in
/-- Whatever stands in a list in which one slot was replaced. -/
theorem madeBy_of_mem_set {locals : List Slot} {index : Nat} {slot other : Slot}
    (known : slot.MadeBy made) (each : ∀ slot ∈ locals, slot.MadeBy made)
    (member : other ∈ locals.set index slot) : other.MadeBy made := by
  rcases List.mem_or_eq_of_mem_set member with old | rfl
  · exact each other old
  · exact known

omit tracked in
theorem length_cutBefore (locals : List Slot) (index : Nat) :
    (cutBefore locals index).length = locals.length := by
  unfold cutBefore
  split
  · rfl
  · split
    · split
      · exact List.length_set
      · rfl
    · rfl

omit tracked in
theorem madeBy_of_mem_cutBefore {locals : List Slot} {index : Nat} {other : Slot}
    (each : ∀ slot ∈ locals, slot.MadeBy made) (member : other ∈ cutBefore locals index) :
    other.MadeBy made := by
  unfold cutBefore at member
  split at member
  · exact each other member
  · split at member
    · split at member
      · exact madeBy_of_mem_set (show Slot.MadeBy made .top from trivial) each member
      · exact each other member
    · exact each other member

theorem Tracked.store (index : UInt16) {slot : Slot} (known : slot.MadeBy made) :
    Ends (Tracked made count) (s.store index slot) := by
  have stored : ∀ other ∈ (cutBefore s.locals index.toNat).set index.toNat slot,
      other.MadeBy made := fun other member =>
    madeBy_of_mem_set known (fun _ => madeBy_of_mem_cutBefore tracked.locals) member
  have long : ((cutBefore s.locals index.toNat).set index.toNat slot).length = count := by
    rw [List.length_set, length_cutBefore, tracked.length]
  unfold State.store
  dsimp only
  split
  · exact trivial
  · split
    · refine ⟨by rw [List.length_set, long], fun other member => ?_, tracked.stack⟩
      exact madeBy_of_mem_set (show Slot.MadeBy made .top from trivial) stored member
    · exact ⟨long, stored, tracked.stack⟩

theorem Tracked.retype (source : Slot) {target : Slot} (known : target.MadeBy made) :
    (s.retype source target).Tracked made count := by
  have changed : ∀ (slots : List Slot), (∀ slot ∈ slots, slot.MadeBy made) →
      ∀ slot ∈ slots.map fun slot => if slot = source then target else slot,
        slot.MadeBy made := by
    intro slots each slot member
    obtain ⟨old, inside, rfl⟩ := List.mem_map.1 member
    split
    · exact known
    · exact each old inside
  exact ⟨by rw [State.retype, List.length_map, tracked.length], changed _ tracked.locals,
    changed _ tracked.stack⟩

/-- Where states meet, no site comes from anywhere else. -/
theorem tracked_merge {h : Hierarchy} {s' : State} (tracked' : s'.Tracked made count) :
    (merge h s s').Tracked made count := by
  have zipped : ∀ {l m : List Slot}, (∀ slot ∈ l, slot.MadeBy made) →
      ∀ slot ∈ List.zipWith (Slot.merge h) l m, slot.MadeBy made := by
    intro l m each slot member
    obtain ⟨i, here⟩ := List.mem_iff_getElem?.1 member
    obtain ⟨a, b, left, -, rfl⟩ := List.getElem?_zipWith_eq_some.1 here
    exact Slot.madeBy_merge (each a (List.mem_of_getElem? left)) b
  refine ⟨?_, fun slot member => ?_, zipped tracked.stack⟩
  · simp only [merge, length_cutHalves, List.length_zipWith, tracked.length, tracked'.length,
      Nat.min_self]
  · obtain ⟨i, here⟩ := List.mem_iff_getElem?.1 member
    obtain ⟨a, b, left, -, rfl⟩ := List.getElem?_zipWith_eq_some.1 here
    split
    · exact trivial
    · exact zipped tracked.locals a (List.mem_of_getElem? left)

end State

/-! ### Instructions -/

namespace TypingContext

variable {ctx : TypingContext} {s : State} (tracked : s.Tracked made count)
  (created : ∀ site, made site → site < ctx.steps.size)

include created in
/-- A known allocation site tells what its object is. -/
theorem initialized_outcome {receiver : Slot} (known : receiver.MadeBy made) :
    Ends (Slot.MadeBy made) (ctx.initialized receiver) := by
  cases receiver with
  | uninitialized site =>
    unfold initialized
    dsimp only
    rw [Array.getElem?_eq_getElem (created site.index known)]
    dsimp only
    split <;> exact trivial
  | _ => exact trivial

include tracked created in
theorem receive_tracked (opcode : Opcode) (name : String) :
    Ends (State.Tracked made count) (ctx.receive opcode name s) := by
  refine tracked.pop.bind fun ⟨receiver, s'⟩ ⟨known, kept⟩ => ?_
  dsimp only
  split
  · refine (initialized_outcome created known).bind fun target known' => ?_
    exact kept.retype receiver known'
  · exact kept

include tracked in
theorem result_tracked (type : MethodType) : (result type s).Tracked made count := by
  unfold result
  split
  · exact tracked.push (Slot.madeBy_declared _)
  · exact tracked

include tracked created in
theorem call_tracked (opcode : Opcode) (member : MemberRef) :
    Ends (State.Tracked made count) (ctx.call opcode member s) := by
  refine (methodType_outcome member.desc).bind fun type _ => ?_
  refine (tracked.drop _).bind fun s' kept => ?_
  dsimp only
  split
  · exact result_tracked kept type
  · refine (receive_tracked kept created opcode member.name).bind ?_
    exact fun s'' kept' => result_tracked kept' type

include tracked in
theorem field_tracked (opcode : Opcode) (type : FieldType) :
    Ends (State.Tracked made count) (field opcode type s) := by
  unfold field
  split
  · exact tracked.push (Slot.madeBy_declared _)
  · split
    · exact tracked.drop _
    · split
      · exact tracked.convert 1 (Slot.madeBy_declared _)
      · exact tracked.drop _

include tracked created in
/-- **Every instruction keeps** the number of locals, and that all allocation sites are known. -/
theorem execute_tracked {position : Nat} {step : Step}
    (site : step.opcode = Opcode.new → made position) :
    Ends (State.Tracked made count) (ctx.execute position step s) := by
  have known := Opcode.all_known step.opcode
  unfold execute
  split
  -- the table tells which types are put on the operand stack
  · exact tracked.drop _
  · next n type action =>
    rw [action] at known
    refine tracked.convert n ?_
    cases type <;> trivial
  · next constant action operand =>
    exact (Slot.madeBy_constant constant).map fun type known => tracked.push known
  · next type index action operand =>
    rw [action] at known
    refine tracked.push ?_
    cases type <;> trivial
  · next index action operand => exact (tracked.load index).map fun type known => tracked.push known
  · refine tracked.pop.bind fun ⟨_, s'⟩ ⟨_, kept⟩ => ?_
    refine kept.pop.bind fun ⟨array, s''⟩ ⟨_, kept'⟩ => ?_
    exact (elementSlot_outcome array).bind fun type known => kept'.push known
  · dsimp only
    refine Ends.ite_bind (tracked.drop 1) tracked fun s' kept => ?_
    refine kept.pop.bind fun ⟨type, s''⟩ ⟨known, kept'⟩ => ?_
    dsimp only
    split
    · exact kept'.store _ known
    · exact trivial
  · exact tracked.shuffle _ _
  · exact tracked.store _ trivial
  · exact trivial
  · next member action operand =>
    exact (fieldType_outcome member.desc).bind fun type _ => field_tracked tracked _ type
  · exact call_tracked tracked created _ _
  · next call action operand =>
    refine (methodType_outcome call.desc).bind fun type _ => ?_
    refine (tracked.drop _).bind ?_
    exact fun s' kept => result_tracked kept type
  · next action =>
    rw [action] at known
    exact tracked.push (site (eq_of_beq known))
  · split
    · exact tracked.convert 1 trivial
    · exact trivial
  · exact tracked.convert 1 trivial
  · exact tracked.convert 1 trivial
  · exact tracked.convert _ trivial
  · exact trivial
  · exact trivial

end TypingContext

end ClassInstrument
