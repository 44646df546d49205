import ClassInstrument.Proofs.Pool.Additions
import ClassInstrument.Proofs.Pool.Constants
import ClassInstrument.Proofs.Pool.Repeated

/-!
# Constants survive

An index that adding a constant gave stands for that constant for ever: after any further calls, and
also when the tables are written and read back.  A constant that nests deeper than is followed is
refused, never mistaken for another one, and adding it once more gives the same index and changes
nothing.  The same goes for call sites.

* `Builder.Needs` — a computation succeeds if there is so much room;
* `Builder.needs_addConstant` — **a constant is added if there is room for its parts**;
* `Held` — what is known of a value at an index of some tables;
* `Lasting` — what stays true of tables, whatever is added to them, and however they are passed on;
* `ConstantTables.constants_survive` — **what was added is held, and that is lasting**.
-/

namespace ClassInstrument

namespace Builder

variable {α β : Type}

/-! ### Room -/

/-- With room for `n` slots and bootstrap methods more the computation succeeds, and it takes no
more. -/
def Needs (n : Nat) (m : Builder α) : Prop :=
  ∀ t, t.pool.size + n ≤ 65535 → t.bootstrap.size + n ≤ 65535 →
    ∃ v t', m t = .ok v t' ∧ t'.pool.size ≤ t.pool.size + n
      ∧ t'.bootstrap.size ≤ t.bootstrap.size + n

theorem Needs.pure (v : α) : Needs 0 (pure v) := fun t _ _ =>
  ⟨v, t, rfl, Nat.le_refl _, Nat.le_refl _⟩

theorem Needs.bind {m : Builder α} {f : α → Builder β} {a b : Nat} (first : Needs a m)
    (second : ∀ v, Needs b (f v)) : Needs (a + b) (m >>= f) := by
  intro t slots methods
  obtain ⟨v, s, run, pool, bootstrap⟩ := first t (by omega) (by omega)
  obtain ⟨w, t', rest, pool', bootstrap'⟩ := second v s (by omega) (by omega)
  exact ⟨w, t', bind_eq_ok_iff.2 ⟨v, s, run, rest⟩, by omega, by omega⟩

theorem Needs.ite {c : Prop} [Decidable c] {m m' : Builder α} {n : Nat} (yes : Needs n m)
    (no : Needs n m') : Needs n (if c then m else m') := by
  split
  · exact yes
  · exact no

theorem Needs.count {what : String} {n : Nat} (fits : n < 65536) : Needs 0 (count what n) := by
  unfold Builder.count countField
  rw [if_pos fits]
  exact .pure _

theorem needs_add (entry : Entry) : Needs entry.width (add entry) := by
  rintro ⟨pool, bootstrap⟩ slots methods
  rw [add_eq]
  rcases Pool.add_cases entry pool with ⟨index, -, run⟩ | ⟨-, -, run⟩ | ⟨-, full, -⟩
  · rw [run]
    exact ⟨index, _, rfl, Nat.le_add_right _ _, Nat.le_add_right _ _⟩
  · rw [run]
    exact ⟨_, _, rfl, Nat.le_of_eq (Pool.size_push pool entry), Nat.le_add_right _ _⟩
  · exact absurd slots (Nat.not_le.2 full)

theorem needs_addBootstrapMethod (method : BootstrapMethod) :
    Needs 1 (addBootstrapMethod method) := by
  rintro ⟨pool, bootstrap⟩ slots methods
  rw [addBootstrapMethod_eq]
  rcases BootstrapTable.add_cases method bootstrap with ⟨index, -, run⟩ | ⟨-, -, run⟩ | ⟨-, full, -⟩
  · rw [run]
    exact ⟨index, _, rfl, Nat.le_add_right _ _, Nat.le_add_right _ _⟩
  · rw [run]
    exact ⟨_, _, rfl, Nat.le_add_right _ _, Nat.le_of_eq (bootstrap.size_push method)⟩
  · exact absurd methods (by show ¬bootstrap.size + 1 ≤ 65535; omega)

theorem needs_addClass (name : String) : Needs 2 (addClass name) :=
  (needs_add (.utf8 name)).bind fun text => needs_add (.classRef text)

theorem needs_addNameAndType (name desc : String) : Needs 3 (addNameAndType name desc) :=
  (needs_add (.utf8 name)).bind fun n => (needs_add (.utf8 desc)).bind fun d =>
    needs_add (.nameAndType n d)

theorem needs_addMember {form : UInt16 → UInt16 → Entry} (narrow : ∀ a b, (form a b).width = 1)
    (member : MemberRef) : Needs 6 (addMember form member) :=
  (needs_addClass member.owner).bind fun owner =>
    (needs_addNameAndType member.name member.desc).bind fun nameAndType =>
      narrow owner nameAndType ▸ needs_add (form owner nameAndType)

theorem needs_addMethodRef (member : MemberRef) (onInterface : Bool) :
    Needs 6 (addMethodRef member onInterface) := by
  cases onInterface <;> exact needs_addMember (fun _ _ => rfl) member

theorem needs_addHandle (h : Handle) : Needs 7 (addHandle h) := by
  refine .ite ?_ ?_
  · exact (needs_addMember (fun _ _ => rfl) h.member).bind fun reference =>
      needs_add (.methodHandle h.kind reference)
  · exact (needs_addMethodRef h.member h.onInterface).bind fun reference =>
      needs_add (.methodHandle h.kind reference)

end Builder

mutual

/-- How many slots a constant takes at most, with all that it refers to; bootstrap methods are counted
as well. -/
def Constant.parts : Constant → Nat
  | .int _ | .float _ => 1
  | .long _ | .double _ | .string _ | .classRef _ | .methodType _ => 2
  | .handle _ => 7
  | .dynamic _ _ _ args => 12 + Constant.partsAll args

/-- The same for some constants. -/
def Constant.partsAll : List Constant → Nat
  | [] => 0
  | c :: cs => c.parts + Constant.partsAll cs

end

namespace Builder

mutual

/-- **A constant is added if there is room for its parts.** -/
theorem needs_addConstant (c : Constant) : Needs c.parts (addConstant c) := by
  cases c with
  | int value => exact needs_add (.integer value)
  | float bits => exact needs_add (.float bits)
  | long value => exact needs_add (.long value)
  | double bits => exact needs_add (.double bits)
  | string text => exact (needs_add (.utf8 text)).bind fun i => needs_add (.string i)
  | classRef name => exact needs_addClass name
  | methodType desc => exact (needs_add (.utf8 desc)).bind fun i => needs_add (.methodType i)
  | handle h => exact needs_addHandle h
  | dynamic name desc bootstrap args =>
    have whole : Needs (7 + (Constant.partsAll args + (1 + (3 + 1))))
        (addConstant (.dynamic name desc bootstrap args)) :=
      (needs_addHandle bootstrap).bind fun handle => (needs_addConstants args).bind fun is =>
        (needs_addBootstrapMethod ⟨handle, is⟩).bind fun method =>
          (needs_addNameAndType name desc).bind fun nameAndType =>
            needs_add (.dynamic method nameAndType)
    have parts : 7 + (Constant.partsAll args + (1 + (3 + 1)))
        = (Constant.dynamic name desc bootstrap args).parts := by
      rw [Constant.parts]
      omega
    exact parts ▸ whole

/-- The same for several constants. -/
theorem needs_addConstants (cs : List Constant) :
    Needs (Constant.partsAll cs) (addConstants cs) := by
  cases cs with
  | nil => exact .pure []
  | cons c cs =>
    exact (needs_addConstant c).bind fun i => (needs_addConstants cs).bind fun is =>
      .pure (i :: is)

end

end Builder

/-! ### Values at their indices -/

/-- What is known of a value at an index, for a kind of values with a way to add and a way to find
them: it is found there if it has no more than 33 levels of computed values, and refused if it has
more; and adding it once more gives the same index and changes nothing. -/
structure Held {α : Type} (add : α → Builder UInt16)
    (find : ConstantTables → UInt16 → Except Failure α) (nesting : α → Nat) (value : α)
    (index : UInt16) (t : ConstantTables) : Prop where
  found : nesting value ≤ 33 → find t index = .ok value
  refused : 33 < nesting value → find t index = .error (.malformed .dynamicTooDeep)
  again : add value t = .ok index t

namespace ConstantTables

/-- A constant at its index. -/
def HeldConstant (c : Constant) (index : UInt16) (t : ConstantTables) : Prop :=
  Held Builder.addConstant (fun t i => t.pool.constant t.bootstrap i) Constant.nesting c index t

/-- A call site at its index. -/
def HeldCall (call : DynamicCall) (index : UInt16) (t : ConstantTables) : Prop :=
  Held Builder.addInvokeDynamic (fun t i => t.pool.dynamicCall t.bootstrap i) DynamicCall.nesting
    call index t

/-- True of the tables after any further calls, whether these succeed or not; and if the tables can
be written after these, their bytes are read to their end and give tables of which it is true as
well. -/
def Lasting (P : ConstantTables → Prop) (t : ConstantTables) : Prop :=
  ∀ later, P (t.after later) ∧ ∀ pool bootstrap, (t.after later).pool.encode = .ok pool →
    (t.after later).bootstrap.encode = .ok bootstrap → ∃ t' : ConstantTables,
      Decoder.Reads Pool.decode pool t'.pool
        ∧ Decoder.Reads BootstrapTable.decode bootstrap t'.bootstrap ∧ P t'

/-- What is true of all well-formed tables that have grown from some is lasting for these. -/
theorem lasting_of_grown {P : ConstantTables → Prop} {t : ConstantTables} (wf : t.WellFormed)
    (h : ∀ s, t ≤ s → s.WellFormed → P s) : Lasting P t := by
  intro later
  have appends := t.appends_after later
  have wfl : (t.after later).WellFormed := ⟨appends.pool wf.pool, appends.bootstrap wf.bootstrap⟩
  refine ⟨h _ appends.grown wfl, fun poolBytes bootstrapBytes pool bootstrap => ?_⟩
  obtain ⟨p, wfp, slots, readPool⟩ := Pool.reads_encode wfl.pool pool
  obtain ⟨b, wfb, methods, readBootstrap⟩ := BootstrapTable.reads_encode wfl.bootstrap bootstrap
  have same : t.after later ≤ ⟨p, b⟩ :=
    ⟨slots ▸ List.prefix_refl _, methods ▸ List.prefix_refl _⟩
  exact ⟨⟨p, b⟩, readPool, readBootstrap, h _ (appends.grown.trans same) ⟨wfp, wfb⟩⟩

/-- A value that is followed so far is found, or refused. -/
theorem held_of_followed {α : Type} {add : α → Builder UInt16}
    {find : ConstantTables → UInt16 → Except Failure α} {nesting : α → Nat} {value : α}
    {index : UInt16} {t : ConstantTables}
    (found : find t index = followed .dynamicTooDeep 33 (nesting value) value)
    (again : add value t = .ok index t) : Held add find nesting value index t := by
  refine ⟨fun enough => ?_, fun deep => ?_, again⟩
  · rw [found, followed_of_le enough]
  · rw [found, followed_of_lt deep]

/-- **Constants and call sites survive.**  What was added to tables that are reached by reading and
adding is held at the index that this gave, and that is lasting, if its handles of fields do not say
that the owner is an interface. -/
theorem constants_survive {t : ConstantTables} (reached : t.Reached) :
    (∀ c index t', (∀ h ∈ c.handles, h.Representable) → Builder.addConstant c t = .ok index t' →
        Lasting (HeldConstant c index) t')
      ∧ ∀ call index t', (∀ h ∈ call.handles, h.Representable) →
        Builder.addInvokeDynamic call t = .ok index t' → Lasting (HeldCall call index) t' := by
  constructor
  · intro c index t' fits added
    obtain ⟨wf, -, found⟩ := Builder.yields_followed c t index t' reached.wellFormed added
    obtain ⟨-, -, again⟩ := (Builder.adds_addConstant c).repeats t index t' reached.wellFormed added
    exact lasting_of_grown wf fun s grown wfs =>
      held_of_followed (found s grown fits Pool.dynamicLevels) (again s grown wfs)
  · intro call index t' fits added
    obtain ⟨wf, -, found⟩ := Builder.yields_followed_call call t index t' reached.wellFormed added
    obtain ⟨-, -, again⟩ :=
      (Builder.adds_addInvokeDynamic call).repeats t index t' reached.wellFormed added
    exact lasting_of_grown wf fun s grown wfs =>
      held_of_followed (found s grown fits Pool.dynamicLevels) (again s grown wfs)

/-- A computed number whose arguments are a number and another computed one that shares it. -/
def sharing : Constant :=
  let handle : Handle := ⟨6, "A", "boot", "()V", false⟩
  .dynamic "x" "I" handle [.int 7, .dynamic "y" "I" handle [.int 7]]

theorem constants_survive_sharing : ∃ t index t', ConstantTables.Reached t
    ∧ Builder.addConstant sharing t = .ok index t' ∧ (∀ h ∈ sharing.handles, h.Representable)
    ∧ Lasting (HeldConstant sharing index) t' := by
  have reached : (ConstantTables.mk .empty .empty).Reached := ⟨_, [], .inl rfl, .inl rfl, rfl⟩
  obtain ⟨index, t', added, -, -⟩ := Builder.needs_addConstant sharing ⟨.empty, .empty⟩
    (by decide) (by decide)
  have fits : ∀ h ∈ sharing.handles, h.Representable := by decide
  exact ⟨_, index, t', reached, added, fits,
    (constants_survive reached).1 sharing index t' fits added⟩

end ConstantTables

end ClassInstrument
