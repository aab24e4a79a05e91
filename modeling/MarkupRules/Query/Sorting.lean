/-
# Sorting with repetitions left out

Steps find nodes in runs that already rise or fall in document order, and often find the same
nodes many times. So a list is cut into such runs, and the runs are merged two by two; items that
meet themselves are left out on the way.

Key definitions: `merge`, `runs`, `sortUniqueBy`, `InOrder`.

Key theorems: `mem_sortUniqueBy`, nothing is lost or added; `pairwise_sortUniqueBy`, the result
is in order.
-/

namespace MarkupRules.Query

variable {α : Type}

/-! ### Lists in order -/

section InOrder

variable {P : α → Prop} {R : α → α → Prop}

/-- A list in order, of items with a property. -/
structure InOrder (P : α → Prop) (R : α → α → Prop) (items : List α) : Prop where
  /-- All items have the property. -/
  all : ∀ x ∈ items, P x
  /-- The items are in order. -/
  pairwise : items.Pairwise R

theorem inOrder_nil : InOrder P R [] :=
  ⟨by simp, .nil⟩

theorem inOrder_singleton {a : α} (ha : P a) : InOrder P R [a] :=
  ⟨by simpa using ha, List.pairwise_singleton R a⟩

theorem inOrder_cons {a : α} {as : List α} :
    InOrder P R (a :: as) ↔ P a ∧ (∀ x ∈ as, R a x) ∧ InOrder P R as := by
  constructor
  · rintro ⟨hall, hpairwise⟩
    rw [List.pairwise_cons] at hpairwise
    rw [List.forall_mem_cons] at hall
    exact ⟨hall.1, hpairwise.1, hall.2, hpairwise.2⟩
  · rintro ⟨ha, hR, has⟩
    exact ⟨List.forall_mem_cons.2 ⟨ha, has.all⟩, List.pairwise_cons.2 ⟨hR, has.pairwise⟩⟩

theorem inOrder_concat {a : α} {as : List α} (has : InOrder P R as) (ha : P a)
    (hR : ∀ x ∈ as, R x a) : InOrder P R (as ++ [a]) where
  all x hx := by
    rcases List.mem_append.1 hx with hx | hx
    · exact has.all x hx
    · rwa [List.mem_singleton.1 hx]
  pairwise := by
    refine List.pairwise_append.2 ⟨has.pairwise, List.pairwise_singleton R a, fun x hx y hy => ?_⟩
    rw [List.mem_singleton.1 hy]
    exact hR x hx

end InOrder

/-! ### Runs and their merging -/

/-- A run being read, the last item first, and the runs before it in order, the last one first. -/
structure Runs (α : Type) where
  /-- The runs that are complete. -/
  done : List (List α)
  /-- The items of the run being read, the last one first. -/
  current : List α
  /-- Whether the run being read rises. -/
  rising : Bool

/-- The run being read, in rising order. -/
@[inline] def Runs.last (r : Runs α) : List α :=
  if r.rising then r.current.reverse else r.current

theorem Runs.mem_last {x : α} (r : Runs α) : x ∈ r.last ↔ x ∈ r.current := by
  rw [Runs.last]
  split <;> simp

variable [DecidableEq α] (le : α → α → Bool)

/-- Merges `a` and the items behind it, `as`, into a list; `mergeRest` merges `as` alone. -/
@[specialize] def mergeFrom (a : α) (as : List α) (mergeRest : List α → List α) : List α → List α
  | [] => a :: as
  | b :: bs =>
    if a = b then mergeRest (b :: bs)
    else if le a b then a :: mergeRest (b :: bs)
    else b :: mergeFrom a as mergeRest bs

/-- Merges two lists in order; an item that meets itself is kept once. -/
@[specialize] def merge : List α → List α → List α
  | [], bs => bs
  | a :: as, bs => mergeFrom le a as (merge as) bs

/-- Merges neighbouring lists. -/
@[specialize] def mergePairs : List (List α) → List (List α)
  | as :: bs :: rest => merge le as bs :: mergePairs rest
  | lists => lists

/-- Merges all lists, if that many rounds are enough. -/
@[specialize] def mergeAll : (rounds : Nat) → List (List α) → List α
  | _, [] => []
  | _, [as] => as
  | 0, lists => lists.flatten
  | rounds + 1, lists => mergeAll rounds (mergePairs le lists)

/-- Reads one more item: it continues the run, or begins a new one. -/
@[inline] def Runs.read (r : Runs α) (b : α) : Runs α :=
  match r.current with
  | [] => { r with current := [b] }
  | [a] => if a = b then r else { r with current := [b, a], rising := le a b }
  | a :: _ =>
    if a = b then r
    else if le a b = r.rising then { r with current := b :: r.current }
    else ⟨r.last :: r.done, [b], true⟩

/-- The runs of a list, each in rising order. -/
@[specialize] def runs (items : List α) : List (List α) :=
  let r : Runs α := items.foldl (Runs.read le) ⟨[], [], true⟩
  r.last :: r.done

/-- The items of a list in order, each once. -/
@[specialize] def sortUniqueBy (items : List α) : List α :=
  let rs := runs le items
  mergeAll le rs.length rs

/-! ### Nothing is lost or added -/

variable {le}

theorem mem_mergeFrom {a x : α} {as : List α} {mergeRest : List α → List α}
    (hrest : ∀ bs, x ∈ mergeRest bs ↔ x ∈ as ∨ x ∈ bs) (bs : List α) :
    x ∈ mergeFrom le a as mergeRest bs ↔ x = a ∨ x ∈ as ∨ x ∈ bs := by
  induction bs with
  | nil => simp [mergeFrom]
  | cons b bs ih =>
    rw [mergeFrom]
    split
    · next hab => grind
    · split <;> grind

theorem mem_merge {x : α} (as bs : List α) : x ∈ merge le as bs ↔ x ∈ as ∨ x ∈ bs := by
  induction as generalizing bs with
  | nil => simp [merge]
  | cons a as ih => simp [merge, mem_mergeFrom ih, or_assoc]

theorem mem_mergePairs {x : α} (lists : List (List α)) :
    x ∈ (mergePairs le lists).flatten ↔ x ∈ lists.flatten := by
  fun_induction mergePairs le lists with
  | case1 as bs rest ih => simp [mem_merge, ih, or_assoc]
  | case2 lists hshort => exact Iff.rfl

theorem mem_mergeAll {x : α} (rounds : Nat) (lists : List (List α)) :
    x ∈ mergeAll le rounds lists ↔ x ∈ lists.flatten := by
  fun_induction mergeAll le rounds lists with
  | case1 => simp
  | case2 => simp
  | case3 => exact Iff.rfl
  | case4 rounds lists hnil hone ih => rw [ih, mem_mergePairs]

theorem Runs.mem_read {x : α} (r : Runs α) (b : α) :
    x ∈ (r.read le b).current ∨ x ∈ (r.read le b).done.flatten ↔
      x = b ∨ x ∈ r.current ∨ x ∈ r.done.flatten := by
  rcases hr : r.current with _ | ⟨a, _ | ⟨c, older⟩⟩
  · simp [Runs.read, hr]
  · rw [Runs.read, hr]
    by_cases hab : a = b <;> simp [hab, hr, or_assoc]
  · rw [Runs.read, hr]
    by_cases hab : a = b
    · subst hab
      simp [hr]
      grind
    · by_cases hle : le a b = r.rising
      · simp [hab, hle, or_assoc]
      · simp [hab, hle, hr, Runs.mem_last, or_assoc]

theorem mem_runs {x : α} (items : List α) : x ∈ (runs le items).flatten ↔ x ∈ items := by
  have hfold : ∀ (r : Runs α),
      x ∈ (items.foldl (Runs.read le) r).current ∨
          x ∈ (items.foldl (Runs.read le) r).done.flatten ↔
        x ∈ items ∨ x ∈ r.current ∨ x ∈ r.done.flatten := by
    induction items with
    | nil => simp
    | cons b items ih =>
      intro r
      rw [List.foldl_cons, ih, Runs.mem_read, List.mem_cons]
      grind
  have hstart := hfold ⟨[], [], true⟩
  rw [runs, List.flatten_cons, List.mem_append, Runs.mem_last]
  simpa using hstart

/-- Sorting keeps exactly the items of a list. -/
theorem mem_sortUniqueBy {x : α} (items : List α) : x ∈ sortUniqueBy le items ↔ x ∈ items := by
  rw [sortUniqueBy, mem_mergeAll, mem_runs]

/-! ### The result is in order -/

variable {P : α → Prop} {R : α → α → Prop}

/-- On items with a property, a test tells in which order two different items are: those for which
it holds are in order, and all others are in order the other way round. -/
structure Decides (le : α → α → Bool) (P : α → Prop) (R : α → α → Prop) : Prop where
  /-- Order is transitive. -/
  trans : ∀ {a b c}, R a b → R b c → R a c
  /-- The test holds for items in order only. -/
  up : ∀ {a b}, P a → P b → a ≠ b → le a b → R a b
  /-- Where the test does not hold, items are in order the other way round. -/
  down : ∀ {a b}, P a → P b → ¬ le a b → R b a

theorem inOrder_mergeFrom (h : Decides le P R) {a : α} {as : List α}
    {mergeRest : List α → List α} (hmem : ∀ x bs, x ∈ mergeRest bs ↔ x ∈ as ∨ x ∈ bs)
    (hrest : ∀ bs, InOrder P R bs → InOrder P R (mergeRest bs)) (has : InOrder P R (a :: as)) :
    ∀ bs, InOrder P R bs → InOrder P R (mergeFrom le a as mergeRest bs)
  | [], _ => has
  | b :: bs, hbs => by
    obtain ⟨ha, haR, -⟩ := inOrder_cons.1 has
    obtain ⟨hb, hbR, hbs'⟩ := inOrder_cons.1 hbs
    rw [mergeFrom]
    split
    · exact hrest _ hbs
    · next hab =>
      split
      · next hle =>
        have hR : R a b := h.up ha hb hab hle
        refine inOrder_cons.2 ⟨ha, fun x hx => ?_, hrest _ hbs⟩
        rcases (hmem x _).1 hx with hx | hx
        · exact haR x hx
        · rcases List.mem_cons.1 hx with rfl | hx
          · exact hR
          · exact h.trans hR (hbR x hx)
      · next hle =>
        have hR : R b a := h.down ha hb hle
        refine inOrder_cons.2 ⟨hb, fun x hx => ?_, inOrder_mergeFrom h hmem hrest has bs hbs'⟩
        rcases (mem_mergeFrom (hmem x) bs).1 hx with rfl | hx | hx
        · exact hR
        · exact h.trans hR (haR x hx)
        · exact hbR x hx

theorem inOrder_merge (h : Decides le P R) {as bs : List α} (has : InOrder P R as)
    (hbs : InOrder P R bs) : InOrder P R (merge le as bs) := by
  induction as generalizing bs with
  | nil => exact hbs
  | cons a as ih =>
    exact inOrder_mergeFrom h (fun x bs => mem_merge as bs)
      (fun bs hbs => ih (inOrder_cons.1 has).2.2 hbs) has bs hbs

theorem inOrder_mergePairs (h : Decides le P R) {lists : List (List α)}
    (hlists : ∀ as ∈ lists, InOrder P R as) : ∀ as ∈ mergePairs le lists, InOrder P R as := by
  fun_induction mergePairs le lists with
  | case1 as bs rest ih =>
    simp only [List.mem_cons, forall_eq_or_imp] at hlists ⊢
    exact ⟨inOrder_merge h hlists.1 hlists.2.1, ih hlists.2.2⟩
  | case2 lists hshort => exact hlists

theorem length_mergePairs (lists : List (List α)) :
    (mergePairs le lists).length = (lists.length + 1) / 2 := by
  fun_induction mergePairs le lists with
  | case1 as bs rest ih =>
    simp only [List.length_cons, ih]
    omega
  | case2 lists hshort =>
    match lists with
    | [] => simp
    | [as] => simp
    | as :: bs :: rest => exact absurd rfl (hshort as bs rest)

theorem inOrder_mergeAll (h : Decides le P R) {rounds : Nat} {lists : List (List α)}
    (hrounds : lists.length ≤ rounds + 1) (hlists : ∀ as ∈ lists, InOrder P R as) :
    InOrder P R (mergeAll le rounds lists) := by
  fun_induction mergeAll le rounds lists with
  | case1 => exact inOrder_nil
  | case2 rounds as => exact hlists as (by simp)
  | case3 lists hnil hone =>
    match lists with
    | [] => exact inOrder_nil
    | [as] => simpa using hlists
    | as :: bs :: rest => simp at hrounds
  | case4 rounds lists hnil hone ih =>
    refine ih ?_ (inOrder_mergePairs h hlists)
    rw [length_mergePairs]
    omega

/-- What holds of a run being read: it is in order, seen from its direction, and so are the runs
before it. -/
structure Runs.Sound (P : α → Prop) (R : α → α → Prop) (r : Runs α) : Prop where
  /-- The run being read is in order. -/
  last : InOrder P R r.last
  /-- The runs before it are in order. -/
  done : ∀ as ∈ r.done, InOrder P R as

theorem Runs.sound_read (h : Decides le P R) {r : Runs α} (hr : r.Sound P R) {b : α} (hb : P b) :
    (r.read le b).Sound P R := by
  rcases hcurrent : r.current with _ | ⟨a, _ | ⟨c, older⟩⟩
  · rw [Runs.read, hcurrent]
    refine ⟨?_, hr.done⟩
    simpa [Runs.last] using inOrder_singleton hb
  · rw [Runs.read, hcurrent]
    have ha : P a := hr.last.all a ((Runs.mem_last r).2 (by simp [hcurrent]))
    by_cases hab : a = b
    · simpa [hab] using hr
    · refine ⟨?_, by simpa [hab] using hr.done⟩
      by_cases hle : le a b
      · simpa [hab, Runs.last, hle] using
          inOrder_concat (inOrder_singleton ha) hb (by simpa using h.up ha hb hab hle)
      · simpa [hab, Runs.last, hle] using
          inOrder_concat (inOrder_singleton hb) ha (by simpa using h.down ha hb hle)
  · rw [Runs.read, hcurrent]
    have ha : P a := hr.last.all a ((Runs.mem_last r).2 (by simp [hcurrent]))
    by_cases hab : a = b
    · simpa [hab] using hr
    · -- The item goes on in the direction of the run, or begins the next run.
      by_cases hle : le a b = r.rising
      · refine ⟨?_, by simpa [hab, hle] using hr.done⟩
        have hlast := hr.last
        cases hrise : r.rising with
        | true =>
          rw [hrise] at hle
          simp only [Runs.last, hrise, hcurrent, if_true] at hlast
          have hR : ∀ x ∈ c :: older, R x a := by
            have hpairwise := hlast.pairwise
            rw [List.pairwise_reverse, List.pairwise_cons] at hpairwise
            exact hpairwise.1
          have hgrown : InOrder P R ((a :: c :: older).reverse ++ [b]) := by
            refine inOrder_concat hlast hb fun x hx => ?_
            rcases List.mem_cons.1 (List.mem_reverse.1 hx) with rfl | hx
            · exact h.up ha hb hab hle
            · exact h.trans (hR x hx) (h.up ha hb hab hle)
          simpa [hab, hle, hrise, Runs.last] using hgrown
        | false =>
          rw [hrise] at hle
          simp only [Runs.last, hrise, hcurrent, Bool.false_eq_true, if_false] at hlast
          have hR : ∀ x ∈ c :: older, R a x := (inOrder_cons.1 hlast).2.1
          have hba : R b a := h.down ha hb (by simp [hle])
          have hgrown : InOrder P R (b :: a :: c :: older) := by
            refine inOrder_cons.2 ⟨hb, fun x hx => ?_, hlast⟩
            rcases List.mem_cons.1 hx with rfl | hx
            · exact hba
            · exact h.trans hba (hR x hx)
          simpa [hab, hle, hrise, Runs.last] using hgrown
      · refine ⟨?_, ?_⟩
        · simpa [hab, hle, Runs.last] using inOrder_singleton hb
        · simpa [hab, hle] using ⟨hr.last, hr.done⟩

theorem inOrder_runs (h : Decides le P R) {items : List α} (hitems : ∀ x ∈ items, P x) :
    ∀ as ∈ runs le items, InOrder P R as := by
  have hfold : ∀ r : Runs α, r.Sound P R → (items.foldl (Runs.read le) r).Sound P R := by
    induction items with
    | nil => exact fun r hr => hr
    | cons b items ih =>
      intro r hr
      rw [List.forall_mem_cons] at hitems
      exact ih hitems.2 _ (Runs.sound_read h hr hitems.1)
  have hall := hfold ⟨[], [], true⟩ ⟨inOrder_nil, by simp⟩
  simpa [runs] using ⟨hall.last, hall.done⟩

/-- Sorting leaves a list in order. -/
theorem pairwise_sortUniqueBy (h : Decides le P R) {items : List α} (hitems : ∀ x ∈ items, P x) :
    (sortUniqueBy le items).Pairwise R :=
  (inOrder_mergeAll h (by omega) (inOrder_runs h hitems)).pairwise

end MarkupRules.Query
