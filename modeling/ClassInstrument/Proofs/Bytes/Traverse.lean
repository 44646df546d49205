import Mathlib.Data.List.Forall2

/-!
# Lists of computations that may fail

A computation done for every element of a list succeeds exactly if it succeeds for each of them,
and gives their results in order.

* `Traverse.bind_eq_ok_iff` — two computations one after the other;
* `Traverse.mapM_eq_ok_iff` — the same computation for all elements;
* `Traverse.foldlM_of_step` — what every step keeps, a whole fold keeps;
* `Traverse.Persists` — a computation that gives whatever another one gives.
-/

namespace ClassInstrument.Traverse

variable {ε α β σ : Type}

theorem bind_eq_ok_iff {x : Except ε α} {f : α → Except ε β} {b : β} :
    (x >>= f) = .ok b ↔ ∃ a, x = .ok a ∧ f a = .ok b := by
  cases x with
  | error e => exact ⟨fun h => (nomatch h), fun ⟨_, h, _⟩ => (nomatch h)⟩
  | ok a => exact ⟨fun h => ⟨a, rfl, h⟩, fun ⟨_, h, hf⟩ => by cases h; exact hf⟩

/-- Behind a computation that succeeds it goes on with the value. -/
theorem bind_of_ok {x : Except ε α} {f : α → Except ε β} {a : α} {r : Except ε β}
    (first : x = .ok a) (rest : f a = r) : (x >>= f) = r := by
  rw [first]
  exact rest

/-- Two computations fail with the first one, or with the second one behind it. -/
theorem bind_eq_error_iff {x : Except ε α} {f : α → Except ε β} {e : ε} :
    (x >>= f) = .error e ↔ x = .error e ∨ ∃ a, x = .ok a ∧ f a = .error e := by
  cases x with
  | error e' =>
    refine ⟨fun h => .inl ?_, ?_⟩
    · cases h
      rfl
    · rintro (h | ⟨_, h, -⟩)
      · cases h
        rfl
      · cases h
  | ok a =>
    refine ⟨fun h => .inr ⟨a, rfl, h⟩, ?_⟩
    rintro (h | ⟨_, h, failed⟩)
    · cases h
    · cases h
      exact failed

/-- One of two computations before another one. -/
theorem ite_bind_eq_ok {c : Prop} [Decidable c] {x y : Except ε α} {f : α → Except ε β} {b : β}
    (h : (if c then x >>= f else y >>= f) = .ok b) :
    ∃ a, (if c then x else y) = .ok a ∧ f a = .ok b := by
  split at h
  · next holds =>
    obtain ⟨a, first, second⟩ := bind_eq_ok_iff.1 h
    exact ⟨a, (if_pos holds).trans first, second⟩
  · next fails =>
    obtain ⟨a, first, second⟩ := bind_eq_ok_iff.1 h
    exact ⟨a, (if_neg fails).trans first, second⟩

theorem map_eq_ok_iff {x : Except ε α} {f : α → β} {b : β} :
    x.map f = .ok b ↔ ∃ a, x = .ok a ∧ f a = b := by
  cases x with
  | error e => exact ⟨fun h => (nomatch h), fun ⟨_, h, _⟩ => (nomatch h)⟩
  | ok a =>
    simp only [Except.map, Except.ok.injEq]
    exact ⟨fun h => ⟨a, rfl, h⟩, fun ⟨_, h, hf⟩ => h ▸ hf⟩

/-- All elements succeed, with the results in order. -/
theorem mapM_eq_ok_iff {f : α → Except ε β} {l : List α} {r : List β} :
    l.mapM f = .ok r ↔ List.Forall₂ (fun a b => f a = .ok b) l r := by
  induction l generalizing r with
  | nil =>
    rw [List.mapM_nil, List.forall₂_nil_left_iff]
    exact ⟨fun h => (Except.ok.inj h).symm, fun h => h ▸ rfl⟩
  | cons a l ih =>
    rw [List.mapM_cons, bind_eq_ok_iff]
    constructor
    · rintro ⟨b, hb, h⟩
      obtain ⟨bs, hbs, h⟩ := bind_eq_ok_iff.1 h
      cases h
      exact .cons hb (ih.1 hbs)
    · intro h
      cases h with
      | cons hb hbs => exact ⟨_, hb, bind_eq_ok_iff.2 ⟨_, ih.2 hbs, rfl⟩⟩

/-- If all elements succeed, so does the list. -/
theorem exists_mapM {f : α → Except ε β} {l : List α} (h : ∀ a ∈ l, ∃ b, f a = .ok b) :
    ∃ r, l.mapM f = .ok r := by
  induction l with
  | nil => exact ⟨[], rfl⟩
  | cons a l ih =>
    obtain ⟨b, hb⟩ := h a List.mem_cons_self
    obtain ⟨bs, hbs⟩ := ih fun a' member => h a' (List.mem_cons_of_mem _ member)
    exact ⟨b :: bs, mapM_eq_ok_iff.2 (.cons hb (mapM_eq_ok_iff.1 hbs))⟩

/-- The first element that fails, fails the list. -/
theorem mapM_eq_error {f : α → Except ε β} {front behind : List α} {a : α} {e : ε}
    (before : ∀ b ∈ front, ∃ r, f b = .ok r) (here : f a = .error e) :
    (front ++ a :: behind).mapM f = .error e := by
  induction front with
  | nil =>
    rw [List.nil_append, List.mapM_cons]
    exact bind_eq_error_iff.2 (.inl here)
  | cons b front ih =>
    obtain ⟨r, first⟩ := before b List.mem_cons_self
    rw [List.cons_append, List.mapM_cons]
    exact bind_eq_error_iff.2 (.inr ⟨r, first, bind_eq_error_iff.2
      (.inl (ih fun c member => before c (List.mem_cons_of_mem _ member)))⟩)

/-- Elements that succeed where others do give the same results. -/
theorem mapM_eq_ok_map {f : α → Except ε β} {g : α → β} {l : List α}
    (h : ∀ a ∈ l, f a = .ok (g a)) : l.mapM f = .ok (l.map g) := by
  rw [mapM_eq_ok_iff, List.forall₂_map_right_iff, List.forall₂_same]
  exact h

/-- Elements that are made from others, and give what those give. -/
theorem mapM_map_congr {m : Type → Type} [Monad m] [LawfulMonad m] {γ : Type} {f : α → m γ}
    {g : β → m γ} {k : α → β} {l : List α} (h : ∀ a ∈ l, g (k a) = f a) :
    (l.map k).mapM g = l.mapM f := by
  induction l with
  | nil => rfl
  | cons a l ih =>
    rw [List.map_cons, List.mapM_cons, List.mapM_cons, h a List.mem_cons_self,
      ih fun a ha => h a (List.mem_cons_of_mem _ ha)]

/-- Every result comes from an element. -/
theorem exists_of_mem_right {R : α → β → Prop} {l : List α} {r : List β}
    (h : List.Forall₂ R l r) {b : β} (member : b ∈ r) : ∃ a ∈ l, R a b := by
  induction h with
  | nil => cases member
  | cons first _ ih =>
    rcases List.mem_cons.1 member with rfl | rest
    · exact ⟨_, List.mem_cons_self, first⟩
    · obtain ⟨a, ha, hab⟩ := ih rest
      exact ⟨a, List.mem_cons_of_mem _ ha, hab⟩

/-- Two relations one after the other. -/
theorem forall₂_trans {γ : Type} {R : α → β → Prop} {S : β → γ → Prop} {T : α → γ → Prop}
    (trans : ∀ a b c, R a b → S b c → T a c) {l : List α} {m : List β} {r : List γ}
    (first : List.Forall₂ R l m) (second : List.Forall₂ S m r) : List.Forall₂ T l r := by
  induction first generalizing r with
  | nil =>
    cases second
    exact .nil
  | cons hab _ ih =>
    cases second with
    | cons hbc rest => exact .cons (trans _ _ _ hab hbc) (ih rest)

/-- Elements that are related by way of something in between. -/
theorem forall₂_exists {γ : Type} {R : α → γ → Prop} {S : β → γ → Prop} {l : List α} {r : List β}
    (h : List.Forall₂ (fun a b => ∃ c, R a c ∧ S b c) l r) :
    ∃ between, List.Forall₂ R l between ∧ List.Forall₂ S r between := by
  induction h with
  | nil => exact ⟨[], .nil, .nil⟩
  | cons first _ ih =>
    obtain ⟨c, left, right⟩ := first
    obtain ⟨cs, lefts, rights⟩ := ih
    exact ⟨c :: cs, .cons left lefts, .cons right rights⟩

/-- What every step keeps, a whole fold keeps. -/
theorem foldlM_of_step {P : σ → Prop} {f : σ → α → Except ε σ} {l : List α} {s r : σ}
    (start : P s) (step : ∀ s, ∀ a ∈ l, ∀ s', P s → f s a = .ok s' → P s')
    (h : l.foldlM f s = .ok r) : P r := by
  induction l generalizing s with
  | nil =>
    cases h
    exact start
  | cons a l ih =>
    rw [List.foldlM_cons] at h
    obtain ⟨s', hs, h⟩ := bind_eq_ok_iff.1 h
    exact ih (step s a List.mem_cons_self s' start hs)
      (fun s a ha => step s a (List.mem_cons_of_mem _ ha)) h

/-- Two folds side by side: what every step keeps of both states, whole folds keep. -/
theorem exists_foldlM {τ : Type} {R : σ → τ → Prop} {f : σ → α → Except ε σ}
    {g : τ → α → Except ε τ} {l : List α}
    (each : ∀ a ∈ l, ∀ s t s', R s t → f s a = .ok s' → ∃ t', g t a = .ok t' ∧ R s' t')
    {s r : σ} {t : τ} (first : R s t) (h : l.foldlM f s = .ok r) :
    ∃ r', l.foldlM g t = .ok r' ∧ R r r' := by
  induction l generalizing s t with
  | nil =>
    cases h
    exact ⟨t, rfl, first⟩
  | cons a l ih =>
    obtain ⟨s', step, h⟩ := bind_eq_ok_iff.1 h
    obtain ⟨t', step', related⟩ := each a List.mem_cons_self s t s' first step
    obtain ⟨r', rest, last⟩ := ih (fun b member => each b (List.mem_cons_of_mem _ member)) related h
    exact ⟨r', bind_eq_ok_iff.2 ⟨t', step', rest⟩, last⟩

/-- A fold seen through a function that every step goes along with. -/
theorem foldlM_map {τ : Type} {f : σ → α → Except ε σ} {g : τ → α → Except ε τ} (view : σ → τ)
    (step : ∀ s a r, f s a = .ok r → g (view s) a = .ok (view r)) {l : List α} {s r : σ}
    (h : l.foldlM f s = .ok r) : l.foldlM g (view s) = .ok (view r) := by
  induction l generalizing s with
  | nil =>
    cases h
    rfl
  | cons a l ih =>
    rw [List.foldlM_cons] at h ⊢
    obtain ⟨s', hs, h⟩ := bind_eq_ok_iff.1 h
    exact bind_eq_ok_iff.2 ⟨view s', step s a s' hs, ih h⟩

/-- One fold goes on where another one ended. -/
theorem foldlM_append_of_ok {f : σ → α → Except ε σ} {front behind : List α} {s s' : σ}
    (h : front.foldlM f s = .ok s') : (front ++ behind).foldlM f s = behind.foldlM f s' := by
  rw [List.foldlM_append, h]
  rfl

/-- Steps that change nothing. -/
theorem foldlM_of_unchanged {f : σ → α → Except ε σ} {l : List α} {s : σ}
    (h : ∀ a ∈ l, f s a = .ok s) : l.foldlM f s = .ok s := by
  induction l with
  | nil => rfl
  | cons a l ih =>
    rw [List.foldlM_cons, h a List.mem_cons_self]
    exact ih fun b hb => h b (List.mem_cons_of_mem _ hb)

/-- Elements that change nothing can be left out. -/
theorem foldlM_filter {f : σ → α → Except ε σ} {p : α → Bool} {l : List α}
    (h : ∀ a ∈ l, p a = false → ∀ s, f s a = .ok s) (s : σ) :
    (l.filter p).foldlM f s = l.foldlM f s := by
  induction l generalizing s with
  | nil => rfl
  | cons a l ih =>
    have rest := ih fun b member => h b (List.mem_cons_of_mem _ member)
    cases kept : p a with
    | true =>
      rw [List.filter_cons_of_pos kept, List.foldlM_cons, List.foldlM_cons]
      exact bind_congr rest
    | false =>
      rw [List.filter_cons_of_neg (Bool.eq_false_iff.1 kept), List.foldlM_cons,
        h a List.mem_cons_self kept s]
      exact rest s

/-! ### Results that persist -/

/-- Whatever the first computation gives, the second one gives as well. -/
def Persists (x y : Except ε α) : Prop := ∀ a, x = .ok a → y = .ok a

namespace Persists

variable {x y : Except ε α}

theorem refl (x : Except ε α) : Persists x x := fun _ h => h

theorem bind {f g : α → Except ε β} (first : Persists x y) (second : ∀ a, Persists (f a) (g a)) :
    Persists (x >>= f) (y >>= g) := by
  intro b h
  obtain ⟨a, hx, hf⟩ := bind_eq_ok_iff.1 h
  exact bind_eq_ok_iff.2 ⟨a, first a hx, second a b hf⟩

theorem map (h : Persists x y) (f : α → β) : Persists (x.map f) (y.map f) := by
  intro b hb
  obtain ⟨a, hx, same⟩ := map_eq_ok_iff.1 hb
  exact map_eq_ok_iff.2 ⟨a, h a hx, same⟩

theorem mapM {f g : α → Except ε β} {l : List α} (each : ∀ a ∈ l, Persists (f a) (g a)) :
    Persists (l.mapM f) (l.mapM g) := by
  intro r h
  have all := (List.forall₂_and_left _ _).2
    ⟨fun a (member : a ∈ l) => member, mapM_eq_ok_iff.1 h⟩
  exact mapM_eq_ok_iff.2 (all.imp fun a b ⟨member, ok⟩ => each a member b ok)

theorem foldlM {f g : σ → α → Except ε σ} (each : ∀ s a, Persists (f s a) (g s a)) (l : List α)
    (s : σ) : Persists (l.foldlM f s) (l.foldlM g s) := by
  induction l generalizing s with
  | nil => exact refl _
  | cons a l ih =>
    rw [List.foldlM_cons, List.foldlM_cons]
    exact (each s a).bind ih

end Persists

end ClassInstrument.Traverse
