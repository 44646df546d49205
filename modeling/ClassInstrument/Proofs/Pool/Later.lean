import ClassInstrument.Proofs.Bytes.Traverse
import ClassInstrument.Proofs.Pool.Growth

/-!
# Constants in later tables

What an index stands for, it stands for in all later tables: the slots that are followed from it are
still where they were, and so are the bootstrap methods.

* `Pool.persists_get`, `Pool.persists_utf8`, `Pool.persists_className`, `Pool.persists_memberRef` —
  entries, texts, classes and members;
* `Pool.persists_dynamicCallWithin` — calls, by induction on the levels that are followed;
* `Pool.persists_constant` — **every constant**.
-/

namespace ClassInstrument.Pool

open Traverse

variable {t t' : ConstantTables} (later : t ≤ t')

include later

theorem persists_get (index : UInt16) : Persists (t.pool.get index) (t'.pool.get index) := by
  intro entry found
  unfold get at found
  split at found
  · cases found
  · cases found
  · next slot usable here =>
    cases found
    refine get_of_slot usable (ConstantTables.slot_of_le later ?_)
    rw [Array.getElem?_toList]
    exact here

theorem persists_utf8 (index : UInt16) : Persists (t.pool.utf8 index) (t'.pool.utf8 index) :=
  (persists_get later index).bind fun _ => Persists.refl _

theorem persists_className (index : UInt16) :
    Persists (t.pool.className index) (t'.pool.className index) := by
  refine (persists_get later index).bind fun entry => ?_
  cases entry with
  | classRef name => exact persists_utf8 later name
  | _ => exact Persists.refl _

theorem persists_optionalClassName (index : UInt16) :
    Persists (t.pool.optionalClassName index) (t'.pool.optionalClassName index) := by
  unfold optionalClassName
  split
  · exact Persists.refl _
  · exact (persists_className later index).map some

theorem persists_nameAndType (index : UInt16) :
    Persists (t.pool.nameAndType index) (t'.pool.nameAndType index) := by
  refine (persists_get later index).bind fun entry => ?_
  cases entry with
  | nameAndType name desc =>
    exact (persists_utf8 later name).bind fun _ => (persists_utf8 later desc).bind fun _ =>
      Persists.refl _
  | _ => exact Persists.refl _

theorem persists_member (owner nameAndType : UInt16) :
    Persists (t.pool.member owner nameAndType) (t'.pool.member owner nameAndType) :=
  (persists_className later owner).bind fun _ =>
    (persists_nameAndType later nameAndType).bind fun _ => Persists.refl _

theorem persists_memberRef (index : UInt16) :
    Persists (t.pool.memberRef index) (t'.pool.memberRef index) := by
  refine (persists_get later index).bind fun entry => ?_
  cases entry with
  | fieldRef owner member | methodRef owner member | interfaceMethodRef owner member =>
    exact (persists_member later owner member).bind fun _ => Persists.refl _
  | _ => exact Persists.refl _

theorem persists_handle (index : UInt16) :
    Persists (t.pool.handle index) (t'.pool.handle index) := by
  refine (persists_get later index).bind fun entry => ?_
  cases entry with
  | methodHandle kind reference =>
    exact (persists_memberRef later reference).bind fun _ => Persists.refl _
  | _ => exact Persists.refl _

/-! ### Computed values -/

theorem persists_constantWith {call call' : UInt16 → Except Failure DynamicCall}
    (calls : ∀ index, Persists (call index) (call' index)) (index : UInt16) :
    Persists (t.pool.constantWith call index) (t'.pool.constantWith call' index) := by
  refine (persists_get later index).bind fun entry => ?_
  cases entry with
  | string text | classRef text | methodType text =>
    exact (persists_utf8 later text).bind fun _ => Persists.refl _
  | methodHandle kind reference =>
    exact (persists_handle later index).bind fun _ => Persists.refl _
  | dynamic bootstrap member => exact (calls index).bind fun _ => Persists.refl _
  | _ => exact Persists.refl _

theorem persists_dynamicParts (index : UInt16) :
    Persists (t.pool.dynamicParts index) (t'.pool.dynamicParts index) :=
  (persists_get later index).bind fun _ => Persists.refl _

/-- Calls on every level that is followed: the arguments of a call are one level further down. -/
theorem persists_dynamicCallWithin (levels : Nat) (index : UInt16) :
    Persists (t.pool.dynamicCallWithin t.bootstrap levels index)
      (t'.pool.dynamicCallWithin t'.bootstrap levels index) := by
  induction levels generalizing index with
  | zero => exact Persists.refl _
  | succ levels ih =>
    refine (persists_dynamicParts later index).bind fun (bootstrap, nameAndType) => ?_
    dsimp only
    cases found : t.bootstrap.get? bootstrap with
    | none => exact fun _ h => nomatch h
    | some method =>
      have kept : t'.bootstrap.get? bootstrap = some method := by
        refine ConstantTables.get?_of_le later ?_
        rw [Array.getElem?_toList]
        exact found
      rw [kept]
      refine (persists_nameAndType later nameAndType).bind fun named => ?_
      refine (Persists.mapM fun arg _ => persists_constantWith later ih arg).bind fun args => ?_
      exact (persists_handle later method.handle).bind fun _ => Persists.refl _

theorem persists_dynamicCall (index : UInt16) :
    Persists (t.pool.dynamicCall t.bootstrap index) (t'.pool.dynamicCall t'.bootstrap index) :=
  persists_dynamicCallWithin later dynamicLevels index

/-- **A constant stays what it was.** -/
theorem persists_constant (index : UInt16) :
    Persists (t.pool.constant t.bootstrap index) (t'.pool.constant t'.bootstrap index) :=
  persists_constantWith later (persists_dynamicCall later) index

end ClassInstrument.Pool
