import ClassInstrument.Proofs.Bytes.Levels
import ClassInstrument.Proofs.Pool.Growth

/-!
# Constants resolve to what was added

Each builder that adds a constant with everything it refers to gives an index from which the
constant is found again, in all later tables.

* `Handle.Representable` — a handle of a field does not say that its owner is an interface, which
  its entry in the pool has no room for;
* `Constant.handles`, `Constant.nesting` — the handles in a constant, and how many levels of
  computed values it has;
* `Builder.yields_addMember`, `Builder.yields_addHandle` — symbolic references;
* `Builder.yields_followed`, `Builder.yields_followed_call` — **values and call sites are found
  again** if their handles are representable and their nesting is followed so far, and are refused
  if it is not;
* `Builder.yields_addConstant`, `Builder.yields_addInvokeDynamic` — the first half of that.
-/

namespace ClassInstrument

/-! ### What can be found again -/

/-- The entry for a handle of a field has no room for the kind of its owner. -/
def Handle.Representable (h : Handle) : Prop :=
  h.kind ≤ Opcode.lastFieldKind → h.onInterface = false

instance (h : Handle) : Decidable h.Representable := inferInstanceAs (Decidable (_ → _))

mutual

/-- How many levels of computed values a constant has. -/
def Constant.nesting : Constant → Nat
  | .dynamic _ _ _ args => Constant.nestingAll args + 1
  | _ => 0

/-- The deepest nesting among some constants. -/
def Constant.nestingAll : List Constant → Nat
  | [] => 0
  | c :: cs => max c.nesting (Constant.nestingAll cs)

end

mutual

/-- The method handles in a constant. -/
def Constant.handles : Constant → List Handle
  | .handle h => [h]
  | .dynamic _ _ bootstrap args => bootstrap :: Constant.handlesAll args
  | _ => []

/-- The method handles in some constants. -/
def Constant.handlesAll : List Constant → List Handle
  | [] => []
  | c :: cs => c.handles ++ Constant.handlesAll cs

end

/-- How many levels of computed values a call has, its own one included. -/
def DynamicCall.nesting (call : DynamicCall) : Nat := Constant.nestingAll call.args + 1

/-- The method handles in a call. -/
def DynamicCall.handles (call : DynamicCall) : List Handle :=
  call.bootstrap :: Constant.handlesAll call.args

namespace Builder

/-! ### Entries with what they refer to -/

theorem yields_addUtf8 (text : String) :
    Yields (addUtf8 text) fun i t => t.pool.utf8 i = .ok text :=
  (yields_add Entry.noConfusion).mono fun _ _ h => Traverse.bind_of_ok h.2 rfl

/-- The entry behind the index of a class, and its name. -/
theorem yields_addClass (name : String) :
    Yields (addClass name) fun i t => i ≠ 0 ∧ t.pool.className i = .ok name
      ∧ ∃ text, t.pool.get i = .ok (.classRef text) ∧ t.pool.utf8 text = .ok name := by
  refine (yields_addUtf8 name).bind fun text => ?_
  refine (yields_add Entry.noConfusion).mono fun i t h ht => ?_
  refine ⟨h.1, ?_, text, h.2, ht⟩
  simp only [Pool.className, h.2]
  exact ht

/-- No class is index 0, which no class has. -/
theorem yields_addOptionalClass (name : Option String) :
    Yields (addOptionalClass name) fun i t => t.pool.optionalClassName i = .ok name := by
  cases name with
  | none => exact Yields.pure fun _ => rfl
  | some name =>
    refine (yields_addClass name).mono fun i t h => ?_
    unfold Pool.optionalClassName
    rw [if_neg (by simpa using h.1), h.2.1]
    rfl

theorem yields_addNameAndType (name desc : String) :
    Yields (addNameAndType name desc) fun i t => t.pool.nameAndType i = .ok (name, desc) := by
  refine (yields_addUtf8 name).bind fun n => (yields_addUtf8 desc).bind fun d => ?_
  refine (yields_add Entry.noConfusion).mono fun i t h hd hn => ?_
  exact Traverse.bind_of_ok h.2 (Traverse.bind_of_ok hn (Traverse.bind_of_ok hd rfl))

/-- The entry behind the index of a member, and what its parts stand for. -/
theorem yields_addMember {form : UInt16 → UInt16 → Entry} (usable : ∀ a b, form a b ≠ .unusable)
    (member : MemberRef) :
    Yields (addMember form member) fun i t => ∃ owner nameAndType,
      t.pool.get i = .ok (form owner nameAndType)
        ∧ t.pool.member owner nameAndType = .ok member := by
  refine (yields_addClass member.owner).bind fun owner => ?_
  refine (yields_addNameAndType member.name member.desc).bind fun nameAndType => ?_
  refine (yields_add (usable owner nameAndType)).mono fun i t h hn ho => ?_
  refine ⟨owner, nameAndType, h.2, ?_⟩
  exact Traverse.bind_of_ok ho.2.1 (Traverse.bind_of_ok hn rfl)

theorem yields_addFieldRef (member : MemberRef) :
    Yields (addFieldRef member) fun i t => t.pool.memberRef i = .ok (member, false) := by
  refine (yields_addMember (fun _ _ => Entry.noConfusion) member).mono ?_
  rintro i t ⟨owner, nameAndType, entry, parts⟩
  exact Traverse.bind_of_ok entry (Traverse.bind_of_ok parts rfl)

theorem yields_addMethodRef (member : MemberRef) (onInterface : Bool) :
    Yields (addMethodRef member onInterface)
      fun i t => t.pool.memberRef i = .ok (member, onInterface) := by
  cases onInterface <;>
  · refine (yields_addMember (fun _ _ => Entry.noConfusion) member).mono ?_
    rintro i t ⟨owner, nameAndType, entry, parts⟩
    exact Traverse.bind_of_ok entry (Traverse.bind_of_ok parts rfl)

/-- The entry behind the index of a handle, and the handle if it is representable. -/
theorem yields_addHandle (h : Handle) :
    Yields (addHandle h) fun i t =>
      (∃ reference, t.pool.get i = .ok (.methodHandle h.kind reference))
        ∧ (h.Representable → t.pool.handle i = .ok h) := by
  have entry : ∀ r, Yields (add (.methodHandle h.kind r)) fun i t =>
      (h.Representable → t.pool.memberRef r = .ok (h.member, h.onInterface)) →
        (∃ reference, t.pool.get i = .ok (.methodHandle h.kind reference))
          ∧ (h.Representable → t.pool.handle i = .ok h) := by
    intro r
    refine (yields_add Entry.noConfusion).mono fun i t found member => ?_
    refine ⟨⟨r, found.2⟩, fun fits => ?_⟩
    exact Traverse.bind_of_ok found.2 (Traverse.bind_of_ok (member fits) rfl)
  refine Yields.ite (fun field => ?_) fun method => ?_
  · refine (yields_addFieldRef _).bind fun r => (entry r).mono fun i t known found => ?_
    exact known fun fits => by rw [found, fits field]
  · refine (yields_addMethodRef _ _).bind fun r => (entry r).mono fun i t known found => ?_
    exact known fun _ => found

/-! ### Values and calls -/

/-- A computed value is found from its entry, its method and its parts; its arguments are one level
further down. -/
theorem dynamicCallWithin_of_parts {p : Pool} {b : BootstrapTable} {levels nesting : Nat}
    {index bootstrap nameAndType : UInt16} {method : BootstrapMethod} {call : DynamicCall}
    (parts : p.dynamicParts index = .ok (bootstrap, nameAndType))
    (found : b.get? bootstrap = some method)
    (named : p.nameAndType nameAndType = .ok (call.name, call.desc))
    (args : method.args.mapM (p.constantWith (p.dynamicCallWithin b levels))
      = followed .dynamicTooDeep levels nesting call.args)
    (handle : p.handle method.handle = .ok call.bootstrap) :
    p.dynamicCallWithin b (levels + 1) index
      = followed .dynamicTooDeep (levels + 1) (nesting + 1) call := by
  rw [followed_succ]
  unfold Pool.dynamicCallWithin
  refine Traverse.bind_of_ok parts ?_
  dsimp only
  rw [found]
  refine Traverse.bind_of_ok named ((bind_congr fun _ => Traverse.bind_of_ok handle rfl).trans ?_)
  rw [args]
  exact followed_bind ..

/-- The index of a call, given what comes of its arguments. -/
theorem yields_call {entry : UInt16 → UInt16 → Entry} {name desc : String} {bootstrap : Handle}
    {args : List Constant} (usable : ∀ a b, entry a b ≠ .unusable)
    (parts : ∀ (p : Pool) i a b, p.get i = .ok (entry a b) → p.dynamicParts i = .ok (a, b))
    (each : Yields (addConstants args) fun is t => (∀ h ∈ Constant.handlesAll args, h.Representable) →
      ∀ levels, is.mapM (t.pool.constantWith (t.pool.dynamicCallWithin t.bootstrap levels))
        = followed .dynamicTooDeep levels (Constant.nestingAll args) args) :
    Yields (do
      let handle ← addHandle bootstrap
      let args ← addConstants args
      let method ← addBootstrapMethod ⟨handle, args⟩
      let nameAndType ← addNameAndType name desc
      add (entry method nameAndType)) fun i t =>
        (∃ a b, t.pool.get i = .ok (entry a b))
          ∧ ((∀ h ∈ bootstrap :: Constant.handlesAll args, h.Representable) → ∀ levels,
            t.pool.dynamicCallWithin t.bootstrap levels i
              = followed .dynamicTooDeep levels (Constant.nestingAll args + 1)
                ⟨name, desc, bootstrap, args⟩) := by
  refine (yields_addHandle bootstrap).bind fun handle => each.bind fun is => ?_
  refine (yields_addBootstrapMethod ⟨handle, is⟩).bind fun method => ?_
  refine (yields_addNameAndType name desc).bind fun nameAndType => ?_
  refine (yields_add (usable method nameAndType)).mono
    fun i t found named known values handles => ?_
  refine ⟨⟨_, _, found.2⟩, fun fits levels => ?_⟩
  cases levels with
  | zero => exact (followed_of_lt (Nat.succ_pos _) _).symm
  | succ levels =>
    exact dynamicCallWithin_of_parts (parts _ _ _ _ found.2) known named
      (values (fun h hh => fits h (List.mem_cons_of_mem _ hh)) levels)
      (handles.2 (fits bootstrap List.mem_cons_self))

mutual

/-- **A loadable constant is found again** if its handles are representable and its nesting is
followed so far; otherwise it is refused. -/
theorem yields_followed (c : Constant) :
    Yields (addConstant c) fun i t => (∀ h ∈ c.handles, h.Representable) → ∀ levels,
      t.pool.constantWith (t.pool.dynamicCallWithin t.bootstrap levels) i
        = followed .dynamicTooDeep levels c.nesting c := by
  cases c with
  | int value =>
    refine (yields_add Entry.noConfusion).mono fun i t found _ levels => ?_
    exact Traverse.bind_of_ok found.2 rfl
  | float bits =>
    refine (yields_add Entry.noConfusion).mono fun i t found _ levels => ?_
    exact Traverse.bind_of_ok found.2 rfl
  | long value =>
    refine (yields_add Entry.noConfusion).mono fun i t found _ levels => ?_
    exact Traverse.bind_of_ok found.2 rfl
  | double bits =>
    refine (yields_add Entry.noConfusion).mono fun i t found _ levels => ?_
    exact Traverse.bind_of_ok found.2 rfl
  | string text =>
    refine (yields_addUtf8 text).bind fun n => ?_
    refine (yields_add Entry.noConfusion).mono fun i t found named _ levels => ?_
    exact Traverse.bind_of_ok found.2 (Traverse.bind_of_ok named rfl)
  | classRef name =>
    refine (yields_addClass name).mono ?_
    rintro i t ⟨-, -, n, found, named⟩ - levels
    exact Traverse.bind_of_ok found (Traverse.bind_of_ok named rfl)
  | methodType desc =>
    refine (yields_addUtf8 desc).bind fun n => ?_
    refine (yields_add Entry.noConfusion).mono fun i t found named _ levels => ?_
    exact Traverse.bind_of_ok found.2 (Traverse.bind_of_ok named rfl)
  | handle h =>
    refine (yields_addHandle h).mono ?_
    rintro i t ⟨⟨r, found⟩, named⟩ fits levels
    have known := named (fits h (by simp [Constant.handles]))
    exact Traverse.bind_of_ok found (Traverse.bind_of_ok known rfl)
  | dynamic name desc bootstrap args =>
    refine (yields_call (fun _ _ => Entry.noConfusion) (fun p i a b h => ?_)
      (yields_followedAll args)).mono ?_
    · exact Traverse.bind_of_ok h rfl
    · rintro i t ⟨⟨a, b, found⟩, called⟩ fits levels
      refine Traverse.bind_of_ok found ?_
      dsimp only
      rw [called (by simpa only [Constant.handles] using fits)]
      exact followed_bind ..

/-- The same for several constants: the deepest of them decides. -/
theorem yields_followedAll (cs : List Constant) :
    Yields (addConstants cs) fun is t => (∀ h ∈ Constant.handlesAll cs, h.Representable) →
      ∀ levels, is.mapM (t.pool.constantWith (t.pool.dynamicCallWithin t.bootstrap levels))
        = followed .dynamicTooDeep levels (Constant.nestingAll cs) cs := by
  cases cs with
  | nil => exact Yields.pure fun _ _ _ => rfl
  | cons c cs =>
    refine (yields_followed c).bind fun i => (yields_followedAll cs).bind fun is => ?_
    refine Yields.pure fun t others first fits levels => ?_
    simp only [Constant.handlesAll, List.mem_append] at fits
    rw [List.mapM_cons, first (fun h hh => fits h (.inl hh)) levels,
      others (fun h hh => fits h (.inr hh)) levels, Constant.nestingAll]
    exact followed_cons ..

end

/-- **A call site is found again** under the same conditions, and refused otherwise. -/
theorem yields_followed_call (call : DynamicCall) :
    Yields (addInvokeDynamic call) fun i t => (∀ h ∈ call.handles, h.Representable) → ∀ levels,
      t.pool.dynamicCallWithin t.bootstrap levels i
        = followed .dynamicTooDeep levels call.nesting call := by
  refine (yields_call (fun _ _ => Entry.noConfusion) (fun p i a b h => ?_)
    (yields_followedAll call.args)).mono fun i t found fits levels => ?_
  · exact Traverse.bind_of_ok h rfl
  · exact found.2 fits levels

theorem yields_addConstant (c : Constant) :
    Yields (addConstant c) fun i t => ∀ levels, c.nesting ≤ levels →
      (∀ h ∈ c.handles, h.Representable) →
      t.pool.constantWith (t.pool.dynamicCallWithin t.bootstrap levels) i = .ok c :=
  (yields_followed c).mono fun _ _ found levels enough fits =>
    (found fits levels).trans (followed_of_le enough c)

theorem yields_addInvokeDynamic (call : DynamicCall) :
    Yields (addInvokeDynamic call) fun i t => ∀ levels, call.nesting ≤ levels →
      (∀ h ∈ call.handles, h.Representable) →
      t.pool.dynamicCallWithin t.bootstrap levels i = .ok call :=
  (yields_followed_call call).mono fun _ _ found levels enough fits =>
    (found fits levels).trans (followed_of_le enough call)

end Builder

end ClassInstrument
