/-
# Chains of steps that may fail

A chain of steps has a result exactly if every step has one, and the error of a chain is that of
the first step that fails. Two chains go alike if their steps do. What reads a text takes a run of
characters off its front, which ends where the first other character stands.

Key definitions: `FailsOnlyBy`, `GivesOnly`, `GoAlike`.

Key theorems: `bind_eq_ok_iff`, `bind_eq_error_iff`, `mapM_eq_ok_iff`, `exists_of_mapM_error`,
`forall₂_comp`, `exists_of_forall₂`, `forall₂_filter`, `map_eq_of_forall₂`, `forall₂_and_eq_iff`,
`exists_forall₂`, `GoAlike.bind`, `takeWhile_run`, `dropWhile_run`.
-/
import Mathlib.Data.List.Forall2
import Mathlib.Data.List.TakeWhile

namespace MarkupRules

variable {ε α β : Type}

theorem ok_bind (a : α) (f : α → Except ε β) : (Except.ok a >>= f) = f a :=
  rfl

theorem bind_eq_ok_iff {x : Except ε α} {f : α → Except ε β} {b : β} :
    x >>= f = .ok b ↔ ∃ a, x = .ok a ∧ f a = .ok b := by
  cases x <;> simp [bind, Except.bind]

theorem bind_eq_error_iff {x : Except ε α} {f : α → Except ε β} {e : ε} :
    x >>= f = .error e ↔ x = .error e ∨ ∃ a, x = .ok a ∧ f a = .error e := by
  cases x <;> simp [bind, Except.bind]

/-- Chains agree if they go on in the same way from what their first step gives. -/
theorem bind_congr_ok {x : Except ε α} {f g : α → Except ε β} (h : ∀ a, x = .ok a → f a = g a) :
    x >>= f = x >>= g := by
  cases x with
  | error e => rfl
  | ok a => exact h a rfl

theorem toOption_eq_some_iff {x : Except ε α} {a : α} : x.toOption = some a ↔ x = .ok a := by
  cases x <;> simp [Except.toOption]

theorem map_eq_ok_iff {x : Except ε α} {f : α → β} {b : β} :
    x.map f = .ok b ↔ ∃ a, x = .ok a ∧ f a = b := by
  cases x <;> simp [Except.map]

theorem mapM_eq_ok_iff {f : α → Except ε β} {xs : List α} {ys : List β} :
    xs.mapM f = .ok ys ↔ List.Forall₂ (fun x y => f x = .ok y) xs ys := by
  induction xs generalizing ys with
  | nil => cases ys <;> simp [pure, Except.pure]
  | cons x xs ih =>
    rw [List.mapM_cons, bind_eq_ok_iff]
    constructor
    · rintro ⟨y, hy, h⟩
      obtain ⟨rest, hrest, h⟩ := bind_eq_ok_iff.1 h
      cases h
      exact .cons hy (ih.1 hrest)
    · intro h
      cases h with
      | cons hy hrest => exact ⟨_, hy, bind_eq_ok_iff.2 ⟨_, ih.2 hrest, rfl⟩⟩

/-- Where a chain over a list fails, it fails at some item. -/
theorem exists_of_mapM_error {f : α → Except ε β} {xs : List α} {e : ε}
    (h : xs.mapM f = .error e) : ∃ x ∈ xs, f x = .error e := by
  induction xs with
  | nil => cases h
  | cons x xs ih =>
    rw [List.mapM_cons] at h
    rcases bind_eq_error_iff.1 h with hx | ⟨y, -, h⟩
    · exact ⟨x, List.mem_cons_self, hx⟩
    · rcases bind_eq_error_iff.1 h with hxs | ⟨ys, -, h⟩
      · obtain ⟨z, hz, hfz⟩ := ih hxs
        exact ⟨z, List.mem_cons_of_mem x hz, hfz⟩
      · cases h

/-- Lists that are related item by item to a list between them are related item by item. -/
theorem forall₂_comp {γ : Type} {R : α → β → Prop} {S : β → γ → Prop} {T : α → γ → Prop}
    (hT : ∀ a b c, R a b → S b c → T a c) {xs : List α} {ys : List β} {zs : List γ}
    (hR : List.Forall₂ R xs ys) (hS : List.Forall₂ S ys zs) : List.Forall₂ T xs zs := by
  induction hR generalizing zs with
  | nil =>
    cases hS
    exact .nil
  | cons hab _ ih =>
    cases hS with
    | cons hbc hS => exact .cons (hT _ _ _ hab hbc) (ih hS)

/-- Every item of a list is related to some item of a list that is related to it item by item. -/
theorem exists_of_forall₂ {R : α → β → Prop} {xs : List α} {ys : List β}
    (h : List.Forall₂ R xs ys) : ∀ y ∈ ys, ∃ x ∈ xs, R x y := by
  induction h with
  | nil => simp
  | cons hxy _ ih =>
    refine List.forall_mem_cons.2 ⟨⟨_, List.mem_cons_self, hxy⟩, fun y hy => ?_⟩
    obtain ⟨x, hx, hxy⟩ := ih y hy
    exact ⟨x, List.mem_cons_of_mem _ hx, hxy⟩

/-- Where related items are kept together, what is kept is related item by item. -/
theorem forall₂_filter {R : α → β → Prop} {keep : α → Bool} {keep' : β → Bool}
    (hkeep : ∀ x y, R x y → keep x = keep' y) {xs : List α} {ys : List β}
    (h : List.Forall₂ R xs ys) : List.Forall₂ R (xs.filter keep) (ys.filter keep') := by
  refine List.rel_filter (fun x y hxy => ?_) h
  change keep x ↔ keep' y
  rw [hkeep x y hxy]

/-- A test holds for some item if it does for some item of a list that is related item by item. -/
theorem any_eq_of_forall₂ {R : α → β → Prop} {p : α → Bool} {q : β → Bool} {xs : List α}
    {ys : List β} (h : List.Forall₂ R xs ys) (hpq : ∀ x y, R x y → q y = p x) :
    ys.any q = xs.any p := by
  induction h with
  | nil => rfl
  | cons hxy _ ih => rw [List.any_cons, List.any_cons, hpq _ _ hxy, ih]

theorem map_eq_of_forall₂ {γ : Type} {R : α → β → Prop} {p : α → γ} {q : β → γ} {xs : List α}
    {ys : List β} (h : List.Forall₂ R xs ys) (hpq : ∀ x y, R x y → q y = p x) :
    ys.map q = xs.map p := by
  induction h with
  | nil => rfl
  | cons hxy _ ih => rw [List.map_cons, List.map_cons, hpq _ _ hxy, ih]

/-- A list that is related item by item by a function is the image of the other one. -/
theorem forall₂_and_eq_iff {P : α → Prop} {g : α → β} {xs : List α} {ys : List β} :
    List.Forall₂ (fun x y => P x ∧ y = g x) xs ys ↔ (∀ x ∈ xs, P x) ∧ ys = xs.map g := by
  constructor
  · intro h
    induction h with
    | nil => exact ⟨nofun, rfl⟩
    | cons hx _ ih => exact ⟨List.forall_mem_cons.2 ⟨hx.1, ih.1⟩, by rw [hx.2, ih.2, List.map_cons]⟩
  · rintro ⟨hxs, rfl⟩
    induction xs with
    | nil => exact .nil
    | cons x xs ih =>
      obtain ⟨hx, hxs⟩ := List.forall_mem_cons.1 hxs
      exact .cons ⟨hx, rfl⟩ (ih hxs)

/-- What can be chosen for every item of a list can be chosen for the list. -/
theorem exists_forall₂ {R : α → β → Prop} : ∀ {xs : List α}, (∀ x ∈ xs, ∃ y, R x y) →
    ∃ ys, List.Forall₂ R xs ys
  | [], _ => ⟨[], .nil⟩
  | x :: xs, h => by
    obtain ⟨⟨y, hy⟩, hxs⟩ := List.forall_mem_cons.1 h
    obtain ⟨ys, hys⟩ := exists_forall₂ hxs
    exact ⟨y :: ys, .cons hy hys⟩

/-! ### Kinds of errors -/

/-- If a step fails, its error is of a kind. -/
def FailsOnlyBy (kind : ε → Prop) (x : Except ε α) : Prop :=
  ∀ e, x = .error e → kind e

namespace FailsOnlyBy

variable {kind : ε → Prop}

theorem ok (a : α) : FailsOnlyBy kind (.ok a) :=
  nofun

theorem bind {x : Except ε α} {f : α → Except ε β} (hx : FailsOnlyBy kind x)
    (hf : ∀ a, FailsOnlyBy kind (f a)) : FailsOnlyBy kind (x >>= f) := by
  intro e h
  rcases bind_eq_error_iff.1 h with h | ⟨a, -, h⟩
  · exact hx e h
  · exact hf a e h

theorem mapM {f : α → Except ε β} (hf : ∀ a, FailsOnlyBy kind (f a)) (xs : List α) :
    FailsOnlyBy kind (xs.mapM f) := by
  intro e h
  obtain ⟨x, -, hx⟩ := exists_of_mapM_error h
  exact hf x e hx

end FailsOnlyBy

/-! ### What holds of results -/

/-- If a step has a result, something holds of it. -/
def GivesOnly (P : α → Prop) (x : Except ε α) : Prop :=
  ∀ a, x = .ok a → P a

namespace GivesOnly

variable {P : α → Prop} {Q : β → Prop}

theorem ok {a : α} (h : P a) : GivesOnly P (.ok a : Except ε α) := by
  rintro _ ⟨⟩
  exact h

theorem error (e : ε) : GivesOnly P (.error e) :=
  nofun

theorem bind {x : Except ε α} {f : α → Except ε β} (hx : GivesOnly P x)
    (hf : ∀ a, P a → GivesOnly Q (f a)) : GivesOnly Q (x >>= f) := by
  intro b h
  obtain ⟨a, ha, h⟩ := bind_eq_ok_iff.1 h
  exact hf a (hx a ha) b h

end GivesOnly

/-! ### Chains that go alike -/

/-- Two steps go alike if their results are related, or both fail with one error. -/
inductive GoAlike (R : α → β → Prop) : Except ε α → Except ε β → Prop where
  /-- Both have results. -/
  | ok {a : α} {b : β} (h : R a b) : GoAlike R (.ok a) (.ok b)
  /-- Both fail. -/
  | error (e : ε) : GoAlike R (.error e) (.error e)

namespace GoAlike

variable {α' β' : Type} {R : α → β → Prop} {S : α' → β' → Prop} {x : Except ε α} {y : Except ε β}

theorem bind {f : α → Except ε α'} {g : β → Except ε β'} (h : GoAlike R x y)
    (hfg : ∀ a b, R a b → GoAlike S (f a) (g b)) : GoAlike S (x >>= f) (y >>= g) := by
  cases h with
  | ok h => exact hfg _ _ h
  | error e => exact .error e

theorem map {f : α → α'} {g : β → β'} (h : GoAlike R x y) (hfg : ∀ a b, R a b → S (f a) (g b)) :
    GoAlike S (x.map f) (y.map g) := by
  cases h with
  | ok h => exact .ok (hfg _ _ h)
  | error e => exact .error e

/-- If results are related by a function, the second step is the first one followed by it. -/
theorem eq_map {f : α → β} (h : GoAlike R x y) (hf : ∀ a b, R a b → b = f a) : y = x.map f := by
  cases h with
  | ok h => rw [hf _ _ h, Except.map]
  | error e => rfl

/-- Steps that go alike with equal results are equal. -/
theorem eq {x y : Except ε α} (h : GoAlike (fun a b => b = a) x y) : y = x := by
  cases h with
  | ok h => rw [h]
  | error e => rfl

end GoAlike

section Runs

variable {p : α → Bool} {run rest : List α}

/-- A run ends before the first item that is not of its kind. -/
theorem takeWhile_run (hrun : ∀ x ∈ run, p x) (hrest : ∀ x ∈ rest.head?, p x = false) :
    (run ++ rest).takeWhile p = run := by
  rw [List.takeWhile_append_of_pos hrun]
  rcases rest with _ | ⟨x, rest⟩
  · simp
  · simp [hrest x rfl]

theorem dropWhile_run (hrun : ∀ x ∈ run, p x) (hrest : ∀ x ∈ rest.head?, p x = false) :
    (run ++ rest).dropWhile p = rest := by
  rw [List.dropWhile_append_of_pos hrun]
  rcases rest with _ | ⟨x, rest⟩
  · simp
  · simp [hrest x rfl]

end Runs

end MarkupRules
