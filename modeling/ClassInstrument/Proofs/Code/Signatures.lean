import ClassInstrument.Proofs.Code.Tables

/-!
# Signatures of variables

Variables and their generic signatures are in two tables, whose rows are matched by scope and slot.
Of several signatures for one scope and slot the last one counts, and the first variable takes it.

* `Marks.rejoined` — the variables as their tables are put together again;
* `Marks.variablesWithSignatures_eq` — **what the two tables of some variables give**;
* `Marks.SignedFirst` — of the variables that share scope and slot only the first one has a
  signature;
* `Marks.rejoined_eq_iff` — **each variable has its own signature again** exactly if that is so.
-/

namespace ClassInstrument.Marks

open Code

/-- The signature of the last variable with a scope and slot that has one. -/
def lastSignature (vs : List LocalVariable) (key : VariableKey) : Option String :=
  vs.reverse.findSome? fun v => if scopeKey v = key then v.signature else none

/-- Some variables as their tables are put together again: the first one of a scope and slot takes
the signature of the last one. -/
def rejoined (vs : List LocalVariable) : List LocalVariable :=
  vs.mapIdx fun i v => { v with
    signature := if (vs.take i).any (scopeKey · == scopeKey v) then none
      else lastSignature vs (scopeKey v) }

/-- Of the variables that share scope and slot only the first one may have a signature. -/
def SignedFirst (vs : List LocalVariable) : Prop :=
  vs.Pairwise fun v w => scopeKey w = scopeKey v → w.signature = none

/-! ### The last signature -/

theorem lastSignature_append (vs ws : List LocalVariable) (key : VariableKey) :
    lastSignature (vs ++ ws) key = (lastSignature ws key).or (lastSignature vs key) := by
  unfold lastSignature
  rw [List.reverse_append, List.findSome?_append]

theorem lastSignature_singleton (v : LocalVariable) (key : VariableKey) :
    lastSignature [v] key = if scopeKey v = key then v.signature else none :=
  List.findSome?_singleton

theorem lastSignature_cons (v : LocalVariable) (vs : List LocalVariable) (key : VariableKey) :
    lastSignature (v :: vs) key =
      (lastSignature vs key).or (if scopeKey v = key then v.signature else none) := by
  rw [← List.singleton_append, lastSignature_append, lastSignature_singleton]

theorem lastSignature_eq_none {vs : List LocalVariable} {key : VariableKey}
    (plain : ∀ w ∈ vs, scopeKey w = key → w.signature = none) : lastSignature vs key = none := by
  refine List.findSome?_eq_none_iff.2 fun w member => ?_
  split
  · next same => exact plain w (List.mem_reverse.1 member) same
  · rfl

/-- The table of signatures has the last one for each scope and slot. -/
theorem getElem?_signatures (vs : List LocalVariable) (map : Std.HashMap VariableKey String)
    (key : VariableKey) :
    ((signaturesOf vs).foldl (fun map row => map.insert row.1 row.2) map)[key]?
      = (lastSignature vs key).or map[key]? := by
  induction vs generalizing map with
  | nil => rfl
  | cons v vs ih =>
    rw [lastSignature_cons, Option.or_assoc]
    cases generic : v.signature with
    | none =>
      rw [signaturesOf, List.filterMap_cons_none (by rw [generic]; rfl), ite_self, Option.none_or]
      exact ih map
    | some text =>
      rw [signaturesOf, List.filterMap_cons_some (by rw [generic]; rfl), List.foldl_cons]
      refine (ih _).trans ?_
      rw [Std.HashMap.getElem?_insert]
      by_cases same : scopeKey v = key <;> simp [same]

/-! ### Taking signatures -/

/-- Variables take signatures behind some others, each of which took that of its scope and slot. -/
theorem foldl_takeSignature (front vs : List LocalVariable) (given : VariableKey → Option String)
    (signatures : Std.HashMap VariableKey String) (settled : List LocalVariable)
    (left : ∀ key, signatures[key]? =
      if front.any (scopeKey · == key) then none else given key) :
    ((vs.map fun v => (scopeKey v, { v with signature := none })).foldl takeSignature
      (signatures, settled)).2 =
      (vs.mapIdx fun i v => { v with
        signature := if (front ++ vs.take i).any (scopeKey · == scopeKey v) then none
          else given (scopeKey v) }).reverse ++ settled := by
  induction vs generalizing front signatures settled with
  | nil => rfl
  | cons v vs ih =>
    rw [List.map_cons, List.foldl_cons, List.mapIdx_cons]
    show (List.foldl takeSignature (signatures.erase (scopeKey v),
      { v with signature := signatures[scopeKey v]? } :: settled) _).2 = _
    rw [ih (front ++ [v]) (signatures.erase (scopeKey v)), List.reverse_cons, List.append_assoc]
    · simp [left]
    · intro key
      rw [Std.HashMap.getElem?_erase, left]
      by_cases same : scopeKey v = key <;> simp [same]

/-- **What the two tables of some variables give**. -/
theorem variablesWithSignatures_eq {m : Marks} {vs : List LocalVariable}
    (rows : m.localVariables = (vs.map fun v => (scopeKey v, { v with signature := none })).reverse)
    (signatures : m.signatures =
      (signaturesOf vs).foldl (fun map row => map.insert row.1 row.2) ∅) :
    m.variablesWithSignatures = rejoined vs := by
  unfold variablesWithSignatures
  rw [rows, List.reverse_reverse, foldl_takeSignature [] vs (lastSignature vs)]
  · simp [rejoined]
  · intro key
    rw [signatures, getElem?_signatures]
    simp

/-! ### Own signatures -/

/-- A variable as it is put together again. -/
theorem getElem?_rejoined (vs : List LocalVariable) {i : Nat} (inside : i < vs.length) :
    (rejoined vs)[i]? = some { vs[i] with
      signature := if (vs.take i).any (scopeKey · == scopeKey vs[i]) then none
        else lastSignature vs (scopeKey vs[i]) } := by
  unfold rejoined
  rw [List.getElem?_mapIdx, List.getElem?_eq_getElem inside]
  rfl

theorem getElem?_rejoined_outside (vs : List LocalVariable) {i : Nat} (outside : ¬i < vs.length) :
    (rejoined vs)[i]? = vs[i]? := by
  have short : (rejoined vs).length ≤ i := by
    rw [rejoined, List.length_mapIdx]
    exact Nat.not_lt.1 outside
  rw [List.getElem?_eq_none short, List.getElem?_eq_none (Nat.not_lt.1 outside)]

/-- A variable in front of which no other one shares its scope and slot. -/
theorem lastSignature_of_signedFirst {front behind : List LocalVariable} {v : LocalVariable}
    (signed : SignedFirst (front ++ v :: behind))
    (first : ∀ w ∈ front, scopeKey w ≠ scopeKey v) :
    lastSignature (front ++ v :: behind) (scopeKey v) = v.signature := by
  have later := (List.pairwise_cons.1 (List.pairwise_append.1 signed).2.1).1
  rw [lastSignature_append, lastSignature_cons, lastSignature_eq_none later,
    lastSignature_eq_none fun w member same => absurd same (first w member), if_pos rfl]
  simp

/-- **Each variable has its own signature again** exactly if of those that share scope and slot only
the first one has any. -/
theorem rejoined_eq_iff (vs : List LocalVariable) : rejoined vs = vs ↔ SignedFirst vs := by
  constructor
  · intro same
    refine List.pairwise_iff_getElem.2 fun i j hi hj before shared => ?_
    have earlier : (vs.take j).any (scopeKey · == scopeKey vs[j]) :=
      List.any_eq_true.2 ⟨vs[i], List.mem_take_iff_getElem.2 ⟨i, by omega, rfl⟩, by simp [shared]⟩
    have own := getElem?_rejoined vs hj
    rw [if_pos earlier, same, List.getElem?_eq_getElem hj] at own
    exact congrArg LocalVariable.signature (Option.some.inj own)
  · intro signed
    refine List.ext_getElem? fun i => ?_
    by_cases inside : i < vs.length
    · rw [getElem?_rejoined vs inside, List.getElem?_eq_getElem inside]
      split
      · next earlier =>
        obtain ⟨w, member, shared⟩ := List.any_eq_true.1 earlier
        obtain ⟨j, hj, rfl⟩ := List.mem_take_iff_getElem.1 member
        have plain := List.pairwise_iff_getElem.1 signed j i (by omega) inside (by omega)
          (beq_iff_eq.1 shared).symm
        rw [← plain]
      · next alone =>
        have first : ∀ w ∈ vs.take i, scopeKey w ≠ scopeKey vs[i] := by simpa using alone
        have parts : vs.take i ++ vs[i] :: vs.drop (i + 1) = vs := by
          rw [List.getElem_cons_drop, List.take_append_drop]
        have own := lastSignature_of_signedFirst (parts.symm ▸ signed) first
        rw [parts] at own
        rw [own]
    · exact getElem?_rejoined_outside vs inside

/-- Nothing but signatures can be lost. -/
theorem rejoined_eq_of_signatures {vs : List LocalVariable}
    (same : (rejoined vs).map LocalVariable.signature = vs.map LocalVariable.signature) :
    rejoined vs = vs := by
  refine List.ext_getElem? fun i => ?_
  by_cases inside : i < vs.length
  · have own := congrArg (·[i]?) same
    simp only [List.getElem?_map, getElem?_rejoined vs inside, List.getElem?_eq_getElem inside,
      Option.map_some, Option.some.injEq] at own
    rw [getElem?_rejoined vs inside, List.getElem?_eq_getElem inside, own]
  · exact getElem?_rejoined_outside vs inside

end ClassInstrument.Marks
