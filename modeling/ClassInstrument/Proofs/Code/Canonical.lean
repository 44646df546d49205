import Mathlib.Data.List.Sort
import ClassInstrument.Proofs.Code.Operands

/-!
# Operands as they are stored

Two things about an operand leave no trace in a class file: the order in which a switch lists its
keys, and whether the owner of a field that a handle refers to is an interface.  An operand is
canonical if it says about both what is read back.  Nothing that is written depends on more than
the canonical operand, nor on what its labels are called.

* `Handle.canonical`, `Constant.canonical`, `Operand.canonical` — what is read back;
* `Operand.Shallow.representable` — canonical constants can be found again;
* `Operand.addConstants_canonical` — **the same constants are added**;
* `Item.opBytes_canonical`, `Item.opBytes_mapLabels` — **the same bytes are written**.
-/

namespace ClassInstrument

open Builder

/-! ### Canonical constants -/

/-- The handle as its entry in the pool tells it. -/
def Handle.canonical (h : Handle) : Handle :=
  if h.kind ≤ Opcode.lastFieldKind then { h with onInterface := false } else h

theorem Handle.representable_canonical (h : Handle) : h.canonical.Representable := by
  unfold Representable canonical
  split
  · exact fun _ => rfl
  · next method => exact fun field => absurd field method

theorem Handle.canonical_canonical (h : Handle) : h.canonical.canonical = h.canonical := by
  unfold canonical
  split <;> simp_all

theorem addHandle_canonical (h : Handle) : addHandle h.canonical = addHandle h := by
  unfold Handle.canonical
  split
  · next field =>
    unfold addHandle
    dsimp only
    rw [if_pos field, if_pos field]
    rfl
  · rfl

mutual

/-- The constant with the handles in it as their entries tell them. -/
def Constant.canonical : Constant → Constant
  | .handle h => .handle h.canonical
  | .dynamic name desc bootstrap args =>
    .dynamic name desc bootstrap.canonical (Constant.canonicalAll args)
  | c => c

/-- The same for several constants. -/
def Constant.canonicalAll : List Constant → List Constant
  | [] => []
  | c :: cs => c.canonical :: Constant.canonicalAll cs

end

/-- The call with the handles in it as their entries tell them. -/
def DynamicCall.canonical (call : DynamicCall) : DynamicCall :=
  { call with bootstrap := call.bootstrap.canonical, args := Constant.canonicalAll call.args }

namespace Constant

theorem isWide_canonical (c : Constant) : c.canonical.isWide = c.isWide := by
  cases c <;> simp [canonical, isWide]

mutual

theorem nesting_canonical (c : Constant) : c.canonical.nesting = c.nesting := by
  cases c with
  | dynamic name desc bootstrap args =>
    simp only [canonical, nesting, nestingAll_canonical args]
  | _ => simp [canonical, nesting]

theorem nestingAll_canonical (cs : List Constant) :
    nestingAll (canonicalAll cs) = nestingAll cs := by
  cases cs with
  | nil => simp [canonicalAll]
  | cons c cs => simp only [canonicalAll, nestingAll, nesting_canonical c, nestingAll_canonical cs]

end

mutual

theorem representable_canonical (c : Constant) : ∀ h ∈ c.canonical.handles, h.Representable := by
  cases c with
  | handle h =>
    simp only [canonical, handles, List.mem_singleton, forall_eq]
    exact h.representable_canonical
  | dynamic name desc bootstrap args =>
    simp only [canonical, handles, List.forall_mem_cons]
    exact ⟨bootstrap.representable_canonical, representableAll_canonical args⟩
  | _ => simp [canonical, handles]

theorem representableAll_canonical (cs : List Constant) :
    ∀ h ∈ handlesAll (canonicalAll cs), h.Representable := by
  cases cs with
  | nil => simp [canonicalAll, handlesAll]
  | cons c cs =>
    simp only [canonicalAll, handlesAll, List.forall_mem_append]
    exact ⟨representable_canonical c, representableAll_canonical cs⟩

end

mutual

theorem canonical_canonical (c : Constant) : c.canonical.canonical = c.canonical := by
  cases c with
  | handle h => simp only [canonical, h.canonical_canonical]
  | dynamic name desc bootstrap args =>
    simp only [canonical, bootstrap.canonical_canonical, canonicalAll_canonicalAll args]
  | _ => simp [canonical]

theorem canonicalAll_canonicalAll (cs : List Constant) :
    canonicalAll (canonicalAll cs) = canonicalAll cs := by
  cases cs with
  | nil => simp [canonicalAll]
  | cons c cs => simp only [canonicalAll, canonical_canonical c, canonicalAll_canonicalAll cs]

end

mutual

/-- The same entries stand for a constant and what is read back of it. -/
theorem addConstant_canonical (c : Constant) : addConstant c.canonical = addConstant c := by
  cases c with
  | handle h => simp only [canonical, addConstant, addHandle_canonical]
  | dynamic name desc bootstrap args =>
    simp only [canonical, addConstant, addHandle_canonical, addConstants_canonical args]
  | _ => simp [canonical]

theorem addConstants_canonical (cs : List Constant) :
    addConstants (canonicalAll cs) = addConstants cs := by
  cases cs with
  | nil => simp [canonicalAll]
  | cons c cs =>
    simp only [canonicalAll, addConstants, addConstant_canonical c, addConstants_canonical cs]

end

end Constant

/-! ### Canonical operands -/

namespace Operand

/-- The operand as it is read back: keys in order, handles as their entries tell them. -/
def canonical : Operand → Operand
  | .load c => .load c.canonical
  | .invokeDynamic call => .invokeDynamic call.canonical
  | operand => operand.sorted

/-- Keys in order stay as they are. -/
theorem sorted_sorted (operand : Operand) : operand.sorted.sorted = operand.sorted := by
  cases operand with
  | lookupSwitch default pairs =>
    have order : (pairs.mergeSort fun a b => a.1 ≤ b.1).Pairwise fun a b => decide (a.1 ≤ b.1) := by
      refine List.pairwise_mergeSort (fun a b c first second => ?_) (fun a b => ?_) pairs
      · exact decide_eq_true (Int32.le_trans (of_decide_eq_true first) (of_decide_eq_true second))
      · simp only [Bool.or_eq_true, decide_eq_true_eq]
        exact Int32.le_total a.1 b.1
    simp only [sorted]
    rw [List.mergeSort_of_pairwise order]
  | _ => rfl

theorem canonical_canonical (operand : Operand) :
    operand.canonical.canonical = operand.canonical := by
  cases operand with
  | load c => simp only [canonical, c.canonical_canonical]
  | invokeDynamic call =>
    simp only [canonical, DynamicCall.canonical, call.bootstrap.canonical_canonical,
      Constant.canonicalAll_canonicalAll]
  | lookupSwitch default pairs =>
    exact sorted_sorted (.lookupSwitch default pairs)
  | _ => rfl

theorem canonical_sorted (operand : Operand) : operand.sorted.canonical = operand.canonical := by
  cases operand with
  | lookupSwitch default pairs => exact sorted_sorted (.lookupSwitch default pairs)
  | _ => rfl

theorem sorted_canonical (operand : Operand) : operand.canonical.sorted = operand.canonical := by
  cases operand with
  | lookupSwitch default pairs => exact sorted_sorted (.lookupSwitch default pairs)
  | _ => rfl

theorem canonical_mapLabels (f : Label → Label) (operand : Operand) :
    (operand.mapLabels f).canonical = operand.canonical.mapLabels f := by
  cases operand with
  | lookupSwitch default pairs => exact sorted_mapLabels f (.lookupSwitch default pairs)
  | _ => rfl

theorem targets_canonical (operand : Operand) :
    operand.canonical.targets = operand.sorted.targets := by
  cases operand <;> rfl

theorem addConstants_canonical (operand : Operand) :
    operand.canonical.addConstants = operand.addConstants := by
  cases operand with
  | load c => exact c.addConstant_canonical
  | invokeDynamic call =>
    simp only [canonical, addConstants, DynamicCall.canonical, addInvokeDynamic,
      addHandle_canonical, Constant.addConstants_canonical]
  | _ => rfl

theorem addConstants_mapLabels (f : Label → Label) (operand : Operand) :
    (operand.mapLabels f).addConstants = operand.addConstants := by
  cases operand <;> rfl

end Operand

/-- Computed constants in an operand are nested no deeper than they are followed. -/
def Operand.Shallow : Operand → Prop
  | .load c => c.nesting ≤ Pool.dynamicLevels
  | .invokeDynamic call => call.nesting ≤ Pool.dynamicLevels
  | _ => True

/-- Constants as they are read back can be found again, if they are followed so far. -/
theorem Operand.Shallow.representable {operand : Operand} (h : operand.Shallow) :
    operand.canonical.Representable := by
  cases operand with
  | load c =>
    exact ⟨(Nat.le_of_eq c.nesting_canonical).trans h, c.representable_canonical⟩
  | invokeDynamic call =>
    refine ⟨(Nat.le_of_eq ?_).trans h, ?_⟩
    · exact congrArg (· + 1) (Constant.nestingAll_canonical call.args)
    · exact List.forall_mem_cons.2 ⟨call.bootstrap.representable_canonical,
        Constant.representableAll_canonical call.args⟩
  | _ => trivial

theorem Operand.isEmptyTable_canonical (operand : Operand) :
    operand.canonical.isEmptyTable = operand.isEmptyTable := by
  cases operand <;> rfl

/-- The instruction with its operand as it is read back. -/
def Instruction.canonical : Instruction → Instruction
  | .op opcode operand => .op opcode operand.canonical
  | mark => mark

theorem Opcode.Takes.canonical {op : Opcode} {operand : Operand} (h : op.Takes operand) :
    op.Takes operand.canonical := by
  obtain ⟨form, known, takes⟩ := h
  refine ⟨form, known, ?_⟩
  cases takes <;> constructor

/-! ### Sizes and bytes -/

namespace Item

variable {offset : Nat} {index : UInt16} {far : Bool} {op : Opcode} {operand : Operand}

theorem opSize_canonical : opSize offset index far op operand.canonical
    = opSize offset index far op operand := by
  cases operand with
  | load c => simp only [Operand.canonical, opSize, c.isWide_canonical]
  | lookupSwitch default pairs =>
    simp only [Operand.canonical, Operand.sorted, opSize, List.length_mergeSort]
  | _ => rfl

theorem opSize_mapLabels (f : Label → Label) : opSize offset index far op (operand.mapLabels f)
    = opSize offset index far op operand := by
  cases operand with
  | tableSwitch default low high targets => simp only [Operand.mapLabels, opSize, List.length_map]
  | lookupSwitch default pairs => simp only [Operand.mapLabels, opSize, List.length_map]
  | _ => rfl

theorem loadBytes_canonical (c : Constant) (index : UInt16) :
    loadBytes c.canonical index = loadBytes c index := by
  unfold loadBytes
  rw [c.isWide_canonical]

theorem lookupBytes_sorted (labels : LabelTable) (offset : Nat) (default : Label)
    (pairs : List (Int32 × Label)) :
    lookupBytes labels offset default (pairs.mergeSort fun a b => a.1 ≤ b.1)
      = lookupBytes labels offset default pairs := by
  have again := Operand.sorted_sorted (.lookupSwitch default pairs)
  simp only [Operand.sorted, Operand.lookupSwitch.injEq, true_and] at again
  unfold lookupBytes
  simp only [again, List.length_mergeSort]

/-- The bytes of an instruction are those of what is read back of it. -/
theorem opBytes_canonical {labels : LabelTable} {bytes : Bytes} :
    opBytes labels offset index far op operand.canonical = .ok bytes
      ↔ opBytes labels offset index far op operand = .ok bytes := by
  cases operand with
  | load c =>
    unfold opBytes
    cases op.form? with
    | none => simp [Operand.canonical, mismatch]
    | some form => cases form <;> simp [Operand.canonical, mismatch, loadBytes_canonical]
  | invokeDynamic call =>
    unfold opBytes
    cases op.form? with
    | none => simp [Operand.canonical, mismatch]
    | some form => cases form <;> simp [Operand.canonical, mismatch]
  | lookupSwitch default pairs =>
    unfold opBytes
    cases op.form? with
    | none => simp [Operand.canonical, Operand.sorted, mismatch]
    | some form => cases form <;> simp [Operand.canonical, Operand.sorted, mismatch, lookupBytes_sorted]
  | _ => rfl

section Relabelled

variable {labels labels' : LabelTable} {f : Label → Label}

theorem distance_congr {l l' : Label} (h : labels'.offset l' = labels.offset l) (offset : Nat) :
    labels'.distance offset l' = labels.distance offset l := by
  unfold LabelTable.distance
  rw [h]

theorem farBytes_congr {l l' : Label} (h : labels'.offset l' = labels.offset l) (offset : Nat) :
    farBytes labels' offset l' = farBytes labels offset l := by
  unfold farBytes
  rw [distance_congr h]

theorem lookupBytes_mapLabels {default : Label} {pairs : List (Int32 × Label)}
    (known : ∀ l ∈ (Operand.lookupSwitch default pairs).targets,
      labels'.offset (f l) = labels.offset l) (offset : Nat) :
    lookupBytes labels' offset (f default) (pairs.map fun pair => (pair.1, f pair.2))
      = lookupBytes labels offset default pairs := by
  simp only [Operand.targets, List.forall_mem_cons, List.mem_map, forall_exists_index, and_imp,
    forall_apply_eq_imp_iff₂] at known
  have order := Operand.sorted_mapLabels f (.lookupSwitch default pairs)
  simp only [Operand.mapLabels, Operand.sorted, Operand.lookupSwitch.injEq, true_and] at order
  unfold lookupBytes
  simp only [farBytes_congr known.1 offset, order, List.length_map]
  congr 1
  funext front
  congr 1
  refine Traverse.mapM_map_congr fun pair member => ?_
  dsimp only
  rw [farBytes_congr (known.2 pair (List.mem_mergeSort.1 member)) offset]

/-- Other names for the labels give the same bytes. -/
theorem opBytes_mapLabels {bytes : Bytes}
    (known : ∀ l ∈ operand.targets, labels'.offset (f l) = labels.offset l) :
    opBytes labels' offset index far op (operand.mapLabels f) = .ok bytes
      ↔ opBytes labels offset index far op operand = .ok bytes := by
  cases operand with
  | jump target =>
    have same := distance_congr (known target List.mem_cons_self) offset
    unfold opBytes
    cases op.form? with
    | none => simp [Operand.mapLabels, mismatch]
    | some form => cases form <;> simp [Operand.mapLabels, mismatch, jumpBytes, same]
  | tableSwitch default low high targets =>
    simp only [Operand.targets, List.forall_mem_cons] at known
    have first := farBytes_congr known.1 offset
    have others : (targets.map f).mapM (farBytes labels' offset)
        = targets.mapM (farBytes labels offset) :=
      Traverse.mapM_map_congr fun l member => farBytes_congr (known.2 l member) offset
    unfold opBytes
    cases op.form? with
    | none => simp [Operand.mapLabels, mismatch]
    | some form => cases form <;> simp [Operand.mapLabels, mismatch, tableBytes, first, others]
  | lookupSwitch default pairs =>
    have same := lookupBytes_mapLabels known offset
    unfold opBytes
    cases op.form? with
    | none => simp [Operand.mapLabels, mismatch]
    | some form => cases form <;> simp [Operand.mapLabels, mismatch, same]
  | _ =>
    unfold opBytes
    cases op.form? with
    | none => simp [Operand.mapLabels]
    | some form => cases form <;> simp [Operand.mapLabels]

end Relabelled
end Item

end ClassInstrument
