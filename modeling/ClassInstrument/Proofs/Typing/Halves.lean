import ClassInstrument.Proofs.Typing.Locals

/-!
# Both halves of a value

Behind a local that holds a `long` or `double` there is one that holds nothing, its second half.
Stores may overwrite either half, or a half of two values at once, states may agree on one half
only, and constructor calls change locals where they are.  Whatever code does to locals, no first
half is left without its second one.

* `Slot.Paired` — a second half behind every first one;
* `State.Reworked.paired`, `State.paired_cutHalves` — **instructions and merges keep both halves**;
* `State.Formed` — as many locals as there are to be, with both halves of every value.
-/

namespace ClassInstrument

namespace Slot

/-- Behind the first half of a value there is its second one, which holds nothing. -/
def Paired (slots : List Slot) : Prop :=
  ∀ (i : Nat) (slot : Slot), slots[i]? = some slot → slot.isWide = true →
    slots[i + 1]? = some .top

theorem paired_nil : Paired [] := nofun

theorem paired_cons_iff {slot : Slot} {slots : List Slot} :
    Paired (slot :: slots) ↔ (slot.isWide = true → slots[0]? = some .top) ∧ Paired slots := by
  constructor
  · exact fun paired => ⟨paired 0 slot rfl, fun i => paired (i + 1)⟩
  · rintro ⟨first, rest⟩ (_ | i) other here wide
    · cases here
      exact first wide
    · exact rest i other here wide

theorem Paired.append {slots slots' : List Slot} (paired : Paired slots) (paired' : Paired slots') :
    Paired (slots ++ slots') := by
  induction slots with
  | nil => exact paired'
  | cons slot slots ih =>
    obtain ⟨first, rest⟩ := paired_cons_iff.1 paired
    refine paired_cons_iff.2 ⟨fun wide => ?_, ih rest⟩
    have inside := (List.getElem?_eq_some_iff.1 (first wide)).1
    exact (List.getElem?_append_left inside).trans (first wide)

theorem paired_replicate_top (count : Nat) : Paired (List.replicate count .top) := by
  intro i slot here wide
  rw [List.eq_of_mem_replicate (List.mem_of_getElem? here)] at wide
  cases wide

theorem paired_widen (slot : Slot) : Paired (widen slot) := by
  unfold widen
  split
  · exact paired_cons_iff.2 ⟨fun _ => rfl, paired_cons_iff.2 ⟨nofun, paired_nil⟩⟩
  · next narrow => exact paired_cons_iff.2 ⟨fun wide => absurd wide narrow, paired_nil⟩

/-- The slots of entries have both halves. -/
theorem paired_expand (entries : List Slot) : Paired (expand entries) := by
  induction entries with
  | nil => exact paired_nil
  | cons entry entries ih => exact (paired_widen entry).append ih

end Slot

namespace State

/-! ### Stores -/

/-- Cutting a value leaves what holds nothing. -/
theorem getElem?_cutBefore_top {locals : List Slot} {index i : Nat}
    (half : locals[i]? = some .top) : (cutBefore locals index)[i]? = some .top := by
  unfold cutBefore
  split
  · exact half
  · split
    · split
      · rw [List.getElem?_set]
        split
        · next same => rw [same, if_pos (List.getElem?_eq_some_iff.1 half).1]
        · exact half
      · exact half
    · exact half

/-- No first half is left in front of the index. -/
theorem narrow_of_cutBefore {locals : List Slot} {i : Nat} {slot : Slot}
    (here : (cutBefore locals (i + 1))[i]? = some slot) : slot.isWide = false := by
  unfold cutBefore at here
  rw [if_neg (Nat.succ_ne_zero i), Nat.add_sub_cancel] at here
  split at here
  · next old there =>
    split at here
    · rw [List.getElem?_set_self (List.getElem?_eq_some_iff.1 there).1] at here
      cases here
      rfl
    · next narrow =>
      rw [there] at here
      cases here
      exact Bool.not_eq_true _ ▸ narrow
  · next absent =>
    rw [absent] at here
    cases here

/-- Apart from its own locals, a store does nothing but cut the value in front of them. -/
theorem getElem?_written_apart {locals : List Slot} {index i : Nat} {slot : Slot}
    (apart : i ≠ index) (behind : i ≠ index + 1) :
    (written locals index slot)[i]? = (cutBefore locals index)[i]? := by
  unfold written
  dsimp only
  split
  · rw [List.getElem?_set_ne behind.symm, List.getElem?_set_ne apart.symm]
  · rw [List.getElem?_set_ne apart.symm]

/-- A value that is stored has both of its halves. -/
theorem getElem?_written_half {locals : List Slot} {index : Nat} {slot : Slot}
    (wide : slot.isWide = true) (fits : index + slot.width ≤ locals.length) :
    (written locals index slot)[index + 1]? = some .top := by
  rw [Slot.width_wide wide] at fits
  unfold written
  dsimp only
  rw [if_pos wide]
  exact List.getElem?_set_self (by rw [List.length_set, length_cutBefore]; omega)

/-- **A store leaves both halves of every value**: of the one that is stored, and of every other one
that it does not overwrite in part. -/
theorem paired_written {locals : List Slot} {index : Nat} {slot : Slot}
    (paired : Slot.Paired locals) (fits : index + slot.width ≤ locals.length) :
    Slot.Paired (written locals index slot) := by
  intro i other here wide
  rcases getElem?_written here wide with ⟨rfl, rfl⟩ | ⟨apart, old⟩
  · exact getElem?_written_half wide fits
  · have half := paired i other old wide
    have front : i + 1 ≠ index := by
      -- the value in front of the index was cut, since its second half is overwritten
      rintro rfl
      rw [getElem?_written_apart (by omega) (by omega)] at here
      rw [narrow_of_cutBefore here] at wide
      cases wide
    rw [getElem?_written_apart front (by omega)]
    exact getElem?_cutBefore_top half

/-- **Instructions leave both halves of every value.** -/
theorem Reworked.paired {locals locals' : List Slot} (reworked : Reworked locals locals')
    (paired : Slot.Paired locals) : Slot.Paired locals' := by
  cases reworked with
  | kept => exact paired
  | written fits => exact paired_written paired fits
  | @retyped source target narrow =>
    intro i slot here wide
    have half := paired i slot (getElem?_retyped narrow here wide) wide
    rw [List.getElem?_map, half, Option.map_some]
    split
    · next same =>
      rcases narrow with rfl | ⟨other, -⟩
      · rw [same]
      · exact absurd same.symm other
    · rfl

/-! ### Merges -/

theorem getElem?_cutHalves (locals : List Slot) (i : Nat) :
    (cutHalves locals)[i]? = locals[i]?.map fun slot =>
      if slot.isWide && locals[i + 1]? != some .top then .top else slot := by
  have next : i < locals.length → (locals.tail.map some ++ [none])[i]? = some locals[i + 1]? := by
    intro less
    rw [List.getElem?_append, List.length_map, List.length_tail]
    split
    · next inside =>
      rw [List.getElem?_map, List.getElem?_tail, List.getElem?_eq_getElem (by omega)]
      rfl
    · next last =>
      rw [show i - (locals.length - 1) = 0 by omega, List.getElem?_eq_none (l := locals) (by omega)]
      rfl
  unfold cutHalves
  rw [List.getElem?_zipWith]
  by_cases less : i < locals.length
  · rw [List.getElem?_eq_getElem less, next less]
    rfl
  · rw [List.getElem?_eq_none (Nat.not_lt.1 less)]
    rfl

/-- **Merges leave both halves of every value**, whatever they merge. -/
theorem paired_cutHalves (locals : List Slot) : Slot.Paired (cutHalves locals) := by
  intro i slot here wide
  rw [getElem?_cutHalves] at here ⊢
  obtain ⟨old, there, rfl⟩ := Option.map_eq_some_iff.1 here
  split at wide
  · cases wide
  · next keeps =>
    rw [wide, Bool.true_and, bne_iff_ne, not_not] at keeps
    rw [keeps]
    rfl

/-! ### States -/

/-- **A state is well formed** if it has as many locals as there are to be, with both halves of
every value. -/
structure Formed (count : Nat) (s : State) : Prop where
  length : s.locals.length = count
  paired : Slot.Paired s.locals

variable {count : Nat} {s s' : State}

theorem length_merge {h : Hierarchy} (length : s.locals.length = s'.locals.length) :
    (merge h s s').locals.length = s.locals.length := by
  rw [merge, length_cutHalves, List.length_zipWith, ← length, Nat.min_self]

theorem Formed.merge {h : Hierarchy} (formed : s.Formed count) (formed' : s'.Formed count) :
    (State.merge h s s').Formed count where
  length := (length_merge (formed.length.trans formed'.length.symm)).trans formed.length
  paired := paired_cutHalves _

theorem Formed.execute {ctx : TypingContext} {position : Nat} {step : Step}
    (formed : s.Formed count) (executed : ctx.execute position step s = .ok s') :
    s'.Formed count where
  length := (TypingContext.execute_reworked executed).length.trans formed.length
  paired := (TypingContext.execute_reworked executed).paired formed.paired

end State

end ClassInstrument
