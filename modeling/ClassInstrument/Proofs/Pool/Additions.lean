import ClassInstrument.Proofs.Pool.Growth

/-!
# Sequences of additions

Whatever adds constants does it entry by entry and bootstrap method by bootstrap method.  So what
holds of these two and survives sequencing holds of every builder of constants, and what a call
leaves behind is well-formed even if it fails half way.

* `Builder.Adds` — built from additions of entries and bootstrap methods, with one lemma for each
  builder of constants;
* `Builder.after` — the tables that a computation leaves behind, whether it succeeds or fails;
* `Builder.Adds.appends` — **nothing but appending happens**, also in a call that fails;
* `Builder.Adds.full` — the only way to fail is that a table is full;
* `Addition`, `TableCall`, `ConstantTables.after` — calls that add constants, and sequences of them;
* `ConstantTables.Reached` — the tables that reading and adding lead to.
-/

namespace ClassInstrument

namespace Builder

variable {α β : Type}

/-! ### What builders of constants are made of -/

/-- Built from additions of entries and bootstrap methods, one after the other. -/
inductive Adds : {α : Type} → Builder α → Prop
  | pure {α : Type} (value : α) : Adds (pure value)
  | bind {α β : Type} {m : Builder α} {f : α → Builder β} (first : Adds m)
    (second : ∀ value, Adds (f value)) : Adds (m >>= f)
  | entry {entry : Entry} (usable : entry ≠ .unusable) : Adds (add entry)
  | method (method : BootstrapMethod) : Adds (addBootstrapMethod method)

theorem Adds.ite {c : Prop} [Decidable c] {m n : Builder α} (yes : Adds m) (no : Adds n) :
    Adds (if c then m else n) := by
  split
  · exact yes
  · exact no

theorem Adds.mapM {f : α → Builder β} {l : List α} (h : ∀ a ∈ l, Adds (f a)) : Adds (l.mapM f) := by
  induction l with
  | nil => exact .pure []
  | cons a l ih =>
    rw [List.mapM_cons]
    refine (h a List.mem_cons_self).bind fun b => ?_
    exact (ih fun a member => h a (List.mem_cons_of_mem _ member)).bind fun bs => .pure _

theorem adds_addUtf8 (text : String) : Adds (addUtf8 text) := .entry Entry.noConfusion

theorem adds_addClass (name : String) : Adds (addClass name) :=
  (adds_addUtf8 name).bind fun _ => .entry Entry.noConfusion

theorem adds_addOptionalClass (name : Option String) : Adds (addOptionalClass name) := by
  cases name with
  | none => exact .pure 0
  | some name => exact adds_addClass name

theorem adds_addNameAndType (name desc : String) : Adds (addNameAndType name desc) :=
  (adds_addUtf8 name).bind fun _ => (adds_addUtf8 desc).bind fun _ => .entry Entry.noConfusion

theorem adds_addMember {form : UInt16 → UInt16 → Entry} (usable : ∀ a b, form a b ≠ .unusable)
    (member : MemberRef) : Adds (addMember form member) :=
  (adds_addClass member.owner).bind fun owner =>
    (adds_addNameAndType member.name member.desc).bind fun nameAndType =>
      .entry (usable owner nameAndType)

theorem adds_addFieldRef (member : MemberRef) : Adds (addFieldRef member) :=
  adds_addMember (fun _ _ => Entry.noConfusion) member

theorem adds_addMethodRef (member : MemberRef) (onInterface : Bool) :
    Adds (addMethodRef member onInterface) := by
  cases onInterface <;> exact adds_addMember (fun _ _ => Entry.noConfusion) member

theorem adds_addHandle (h : Handle) : Adds (addHandle h) :=
  .ite ((adds_addFieldRef h.member).bind fun _ => .entry Entry.noConfusion)
    ((adds_addMethodRef h.member h.onInterface).bind fun _ => .entry Entry.noConfusion)

/-- A call, if its arguments are added in this way. -/
theorem adds_call {entry : UInt16 → UInt16 → Entry} (usable : ∀ a b, entry a b ≠ .unusable)
    (name desc : String) (bootstrap : Handle) {args : List Constant}
    (each : Adds (addConstants args)) :
    Adds (do
      let handle ← addHandle bootstrap
      let args ← addConstants args
      let method ← addBootstrapMethod ⟨handle, args⟩
      let nameAndType ← addNameAndType name desc
      add (entry method nameAndType)) :=
  (adds_addHandle bootstrap).bind fun handle => each.bind fun is =>
    (Adds.method ⟨handle, is⟩).bind fun method =>
      (adds_addNameAndType name desc).bind fun nameAndType => .entry (usable method nameAndType)

mutual

theorem adds_addConstant (c : Constant) : Adds (addConstant c) := by
  cases c with
  | int value => exact .entry Entry.noConfusion
  | float bits => exact .entry Entry.noConfusion
  | long value => exact .entry Entry.noConfusion
  | double bits => exact .entry Entry.noConfusion
  | string text => exact (adds_addUtf8 text).bind fun _ => .entry Entry.noConfusion
  | classRef name => exact adds_addClass name
  | methodType desc => exact (adds_addUtf8 desc).bind fun _ => .entry Entry.noConfusion
  | handle h => exact adds_addHandle h
  | dynamic name desc bootstrap args =>
    exact adds_call (fun _ _ => Entry.noConfusion) name desc bootstrap (adds_addConstants args)

theorem adds_addConstants (cs : List Constant) : Adds (addConstants cs) := by
  cases cs with
  | nil => exact .pure []
  | cons c cs =>
    exact (adds_addConstant c).bind fun _ => (adds_addConstants cs).bind fun _ => .pure _

end

theorem adds_addInvokeDynamic (call : DynamicCall) : Adds (addInvokeDynamic call) :=
  adds_call (fun _ _ => Entry.noConfusion) call.name call.desc call.bootstrap
    (adds_addConstants call.args)

/-! ### What a call leaves behind -/

/-- The tables behind a computation, whether it succeeds or fails. -/
def after (m : Builder α) (t : ConstantTables) : ConstantTables :=
  match m t with
  | .ok _ t' | .error _ t' => t'

theorem after_of_ok {m : Builder α} {t t' : ConstantTables} {value : α} (h : m t = .ok value t') :
    m.after t = t' := by
  rw [after, h]

theorem after_of_error {m : Builder α} {t t' : ConstantTables} {e : Failure}
    (h : m t = .error e t') : m.after t = t' := by
  rw [after, h]

/-- A sequence stops behind its first part if that fails, and otherwise behind its second one. -/
theorem after_bind (m : Builder α) (f : α → Builder β) (t : ConstantTables) :
    (m >>= f).after t = (match m t with
      | .ok value t' => (f value).after t'
      | .error _ t' => t') := by
  have unfolded : (m >>= f) t = EStateM.bind m f t := rfl
  rw [after, unfolded, EStateM.bind]
  cases m t <;> rfl

/-- Each table stays well-formed, whatever the other one is, and keeps what it had. -/
structure Appends (t t' : ConstantTables) : Prop where
  pool : t.pool.WellFormed → t'.pool.WellFormed
  bootstrap : t.bootstrap.WellFormed → t'.bootstrap.WellFormed
  grown : t ≤ t'

theorem Appends.refl (t : ConstantTables) : Appends t t := ⟨id, id, le_refl t⟩

theorem Appends.trans {a b c : ConstantTables} (first : Appends a b) (second : Appends b c) :
    Appends a c :=
  ⟨second.pool ∘ first.pool, second.bootstrap ∘ first.bootstrap, first.grown.trans second.grown⟩

end Builder

/-! ### One addition -/

/-- **Everything that adding an entry can do**: find it, append it, or fail because it has no
room. -/
theorem Pool.add_cases (entry : Entry) (p : Pool) :
    (∃ index, p.lookup[entry]? = some index ∧ add entry p = .ok index p)
      ∨ p.lookup[entry]? = none ∧ p.size + entry.width ≤ 65535
        ∧ add entry p = .ok (UInt16.ofNat p.size) (p.push entry)
      ∨ p.lookup[entry]? = none ∧ 65535 < p.size + entry.width
        ∧ add entry p = .error (.encoding .poolFull) p := by
  unfold add
  cases p.lookup[entry]? with
  | some index => exact .inl ⟨index, rfl, rfl⟩
  | none =>
    by_cases fits : p.size + entry.width ≤ 65535
    · exact .inr (.inl ⟨rfl, fits, if_pos fits⟩)
    · exact .inr (.inr ⟨rfl, Nat.not_le.1 fits, if_neg fits⟩)

/-- Everything that adding a bootstrap method can do. -/
theorem BootstrapTable.add_cases (method : BootstrapMethod) (b : BootstrapTable) :
    (∃ index, b.lookup[method]? = some index ∧ add method b = .ok index b)
      ∨ b.lookup[method]? = none ∧ b.size < 65535
        ∧ add method b = .ok (UInt16.ofNat b.size) (b.push method)
      ∨ b.lookup[method]? = none ∧ 65535 ≤ b.size
        ∧ add method b = .error (.encoding .bootstrapFull) b := by
  unfold add
  cases b.lookup[method]? with
  | some index => exact .inl ⟨index, rfl, rfl⟩
  | none =>
    by_cases fits : b.size < 65535
    · exact .inr (.inl ⟨rfl, fits, if_pos fits⟩)
    · exact .inr (.inr ⟨rfl, Nat.not_lt.1 fits, if_neg fits⟩)

namespace Builder

variable {α : Type}

theorem add_eq (entry : Entry) (pool : Pool) (bootstrap : BootstrapTable) :
    add entry ⟨pool, bootstrap⟩ = (match Pool.add entry pool with
      | .ok index pool => .ok index ⟨pool, bootstrap⟩
      | .error e pool => .error e ⟨pool, bootstrap⟩) := rfl

theorem addBootstrapMethod_eq (method : BootstrapMethod) (pool : Pool)
    (bootstrap : BootstrapTable) :
    addBootstrapMethod method ⟨pool, bootstrap⟩ = (match BootstrapTable.add method bootstrap with
      | .ok index bootstrap => .ok index ⟨pool, bootstrap⟩
      | .error e bootstrap => .error e ⟨pool, bootstrap⟩) := rfl

theorem appends_add {entry : Entry} (usable : entry ≠ .unusable) (t : ConstantTables) :
    Appends t ((add entry).after t) := by
  obtain ⟨pool, bootstrap⟩ := t
  rw [after, add_eq]
  rcases Pool.add_cases entry pool with ⟨index, -, run⟩ | ⟨-, fits, run⟩ | ⟨-, -, run⟩
  · rw [run]
    exact .refl _
  · rw [run]
    refine ⟨fun wf => wf.push usable fits, id, ?_, List.prefix_refl _⟩
    show pool.slots.toList <+: (pool.push entry).slots.toList
    rw [Pool.toList_push]
    exact List.prefix_append ..
  · rw [run]
    exact .refl _

theorem appends_addBootstrapMethod (method : BootstrapMethod) (t : ConstantTables) :
    Appends t ((addBootstrapMethod method).after t) := by
  obtain ⟨pool, bootstrap⟩ := t
  rw [after, addBootstrapMethod_eq]
  rcases BootstrapTable.add_cases method bootstrap with ⟨index, -, run⟩ | ⟨-, fits, run⟩ | ⟨-, -, run⟩
  · rw [run]
    exact .refl _
  · rw [run]
    refine ⟨id, fun wf => wf.push fits method, List.prefix_refl _, ?_⟩
    show bootstrap.methods.toList <+: (bootstrap.push method).methods.toList
    rw [BootstrapTable.toList_push]
    exact List.prefix_append ..
  · rw [run]
    exact .refl _

/-- **Nothing but appending happens**, also in a computation that fails half way. -/
theorem Adds.appends {m : Builder α} (h : Adds m) (t : ConstantTables) : Appends t (m.after t) := by
  induction h generalizing t with
  | pure value => exact .refl t
  | entry usable => exact appends_add usable t
  | method method => exact appends_addBootstrapMethod method t
  | @bind _ _ m f first second first_ih second_ih =>
    have before := first_ih t
    rw [after_bind]
    cases run : m t with
    | ok value t' =>
      rw [after_of_ok run] at before
      exact before.trans (second_ih value t')
    | error e t' =>
      rw [after_of_error run] at before
      exact before

/-- The only way to fail is that a table is full. -/
theorem Adds.full {m : Builder α} (h : Adds m) {t t' : ConstantTables} {e : Failure}
    (failed : m t = .error e t') : e = .encoding .poolFull ∨ e = .encoding .bootstrapFull := by
  induction h generalizing t t' with
  | pure value => cases failed
  | @entry entry usable =>
    obtain ⟨pool, bootstrap⟩ := t
    rw [add_eq] at failed
    rcases Pool.add_cases entry pool with ⟨index, -, run⟩ | ⟨-, -, run⟩ | ⟨-, -, run⟩ <;>
      rw [run] at failed <;> cases failed
    exact .inl rfl
  | method method =>
    obtain ⟨pool, bootstrap⟩ := t
    rw [addBootstrapMethod_eq] at failed
    rcases BootstrapTable.add_cases method bootstrap with
      ⟨index, -, run⟩ | ⟨-, -, run⟩ | ⟨-, -, run⟩ <;> rw [run] at failed <;> cases failed
    exact .inr rfl
  | bind first second first_ih second_ih =>
    rcases bind_eq_error_iff.1 failed with failed | ⟨value, s, -, failed⟩
    · exact first_ih failed
    · exact second_ih value failed

end Builder

/-! ### Sequences of calls -/

/-- A call that adds something, with whatever that refers to. -/
inductive Addition where
  | entry (slot : Entry) (usable : slot ≠ .unusable)
  | bootstrapMethod (method : BootstrapMethod)
  | utf8 (text : String)
  | classRef (name : String)
  | nameAndType (name desc : String)
  | fieldRef (member : MemberRef)
  | methodRef (member : MemberRef) (onInterface : Bool)
  | handle (handle : Handle)
  | constant (value : Constant)
  | invokeDynamic (call : DynamicCall)

/-- What a call does. -/
def Addition.build : Addition → Builder UInt16
  | .entry slot _ => Builder.add slot
  | .bootstrapMethod method => Builder.addBootstrapMethod method
  | .utf8 text => Builder.addUtf8 text
  | .classRef name => Builder.addClass name
  | .nameAndType name desc => Builder.addNameAndType name desc
  | .fieldRef member => Builder.addFieldRef member
  | .methodRef member onInterface => Builder.addMethodRef member onInterface
  | .handle h => Builder.addHandle h
  | .constant value => Builder.addConstant value
  | .invokeDynamic call => Builder.addInvokeDynamic call

theorem Addition.adds (a : Addition) : Builder.Adds a.build := by
  cases a with
  | entry slot usable => exact .entry usable
  | bootstrapMethod method => exact .method method
  | utf8 text => exact Builder.adds_addUtf8 text
  | classRef name => exact Builder.adds_addClass name
  | nameAndType name desc => exact Builder.adds_addNameAndType name desc
  | fieldRef member => exact Builder.adds_addFieldRef member
  | methodRef member onInterface => exact Builder.adds_addMethodRef member onInterface
  | handle h => exact Builder.adds_addHandle h
  | constant value => exact Builder.adds_addConstant value
  | invokeDynamic call => exact Builder.adds_addInvokeDynamic call

/-- A call, with the tables that it works on: both of those at hand, or one of them together with
another table of the other kind. -/
inductive TableCall where
  | both (a : Addition)
  | poolWith (a : Addition) (other : BootstrapTable)
  | bootstrapWith (a : Addition) (other : Pool)

namespace ConstantTables

/-- The tables behind a call, which may fail. -/
def afterCall (t : ConstantTables) : TableCall → ConstantTables
  | .both a => a.build.after t
  | .poolWith a other => ⟨(a.build.after ⟨t.pool, other⟩).pool, t.bootstrap⟩
  | .bootstrapWith a other => ⟨t.pool, (a.build.after ⟨other, t.bootstrap⟩).bootstrap⟩

/-- The tables behind some calls, any of which may fail. -/
def after (t : ConstantTables) (calls : List TableCall) : ConstantTables := calls.foldl afterCall t

theorem after_append (t : ConstantTables) (earlier later : List TableCall) :
    t.after (earlier ++ later) = (t.after earlier).after later := List.foldl_append

theorem appends_afterCall (t : ConstantTables) (call : TableCall) :
    Builder.Appends t (t.afterCall call) := by
  cases call with
  | both a => exact a.adds.appends t
  | poolWith a other =>
    have appends := a.adds.appends ⟨t.pool, other⟩
    exact ⟨appends.pool, id, appends.grown.1, List.prefix_refl _⟩
  | bootstrapWith a other =>
    have appends := a.adds.appends ⟨other, t.bootstrap⟩
    exact ⟨id, appends.bootstrap, List.prefix_refl _, appends.grown.2⟩

/-- **Calls only append**, whether they fail or not. -/
theorem appends_after (t : ConstantTables) (calls : List TableCall) :
    Builder.Appends t (t.after calls) := by
  induction calls generalizing t with
  | nil => exact .refl t
  | cons call calls ih => exact (t.appends_afterCall call).trans (ih _)

end ConstantTables

/-! ### Tables that are reached -/

/-- A pool to start with: an empty one, or one that was read. -/
def Pool.Initial (p : Pool) : Prop := p = .empty ∨ ∃ c rest, decode c = .ok (p, rest)

/-- A bootstrap table to start with: an empty one, or one that was read. -/
def BootstrapTable.Initial (b : BootstrapTable) : Prop :=
  b = .empty ∨ ∃ c rest, decode c = .ok (b, rest)

theorem Pool.Initial.wellFormed {p : Pool} (h : p.Initial) : p.WellFormed := by
  rcases h with rfl | ⟨c, rest, read⟩
  · exact .empty
  · exact wellFormed_of_decode read

theorem BootstrapTable.Initial.wellFormed {b : BootstrapTable} (h : b.Initial) : b.WellFormed := by
  rcases h with rfl | ⟨c, rest, read⟩
  · exact .empty
  · exact wellFormed_of_decode read

/-- The tables that reading and adding lead to. -/
def ConstantTables.Reached (t : ConstantTables) : Prop :=
  ∃ (start : ConstantTables) (calls : List TableCall),
    start.pool.Initial ∧ start.bootstrap.Initial ∧ t = start.after calls

/-- **Tables that are reached are well-formed.** -/
theorem ConstantTables.Reached.wellFormed {t : ConstantTables} (h : t.Reached) : t.WellFormed := by
  obtain ⟨start, calls, pool, bootstrap, rfl⟩ := h
  have appends := start.appends_after calls
  exact ⟨appends.pool pool.wellFormed, appends.bootstrap bootstrap.wellFormed⟩

end ClassInstrument
