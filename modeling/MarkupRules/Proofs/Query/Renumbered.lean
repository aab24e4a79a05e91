/-
# Evaluation does not tell the numbers of nodes

Where a document is another one with its nodes renumbered, expressions evaluated at a place and at
its image go alike: they fail with the same error, or have values of which one is the image of the
other. This is shown for one level of evaluation over any two evaluators that go alike, and from
there for all levels.

Key definitions: `Evaluator.Alike`.

Key theorems: `apply_image`, `follow_image`, `evalLevel_image`, `eval_image`, `evaluate_image`.
-/
import MarkupRules.Proofs.Query.Images

namespace MarkupRules.Query

open Markup (Document NodeId)
open Markup.Document (Renumbered root)

variable {f : NodeId → NodeId} {d d' : Document}

/-- Two evaluators go alike at places and their images, with variables and their images. -/
def Evaluator.Alike (f : NodeId → NodeId) (d : Document) (sub sub' : Evaluator) : Prop :=
  ∀ e x y s t, FocusImage f d x y → ScopeImage f d s t →
    GoAlike (ValueImage f d) (sub e x s) (sub' e y t)

/-! ### Functions -/

theorem asNodes_image {v w : Value} (hv : ValueImage f d v w) :
    GoAlike (List.Forall₂ (ImageOf f d)) (asNodes v) (asNodes w) := by
  cases hv with
  | nodes hps => exact .ok hps
  | truth b => exact .error _
  | number x => exact .error _
  | text s => exact .error _

theorem isPresent_image {v w : Value} (hv : ValueImage f d v w) : isPresent w = isPresent v := by
  cases hv with
  | nodes hps => cases hps <;> rfl
  | truth b => rfl
  | number x => rfl
  | text s => rfl

namespace Index

section Functions

variable (h : Renumbered f d d') (hd : d.Linked) (hd' : d'.Linked)

include h hd hd'

/-- A part of a text whose length may be given. -/
theorem substring_image {a a' b b' : Value} (ha : ValueImage f d a a') (hb : ValueImage f d b b')
    {vs ws : List Value} (hvs : List.Forall₂ (ValueImage f d) vs ws) :
    (ofDocument d').substring a' b' ws.head? = (ofDocument d).substring a b vs.head? := by
  unfold substring
  rw [textOf_image h hd hd' ha, numberOf_image h hd hd' hb]
  cases hvs with
  | nil => rfl
  | cons hc _ =>
    dsimp only [List.head?_cons]
    rw [numberOf_image h hd hd' hc]

theorem separator_image {vs ws : List Value} (hvs : List.Forall₂ (ValueImage f d) vs ws) :
    ws.head?.map (ofDocument d').textOf = vs.head?.map (ofDocument d).textOf := by
  cases hvs with
  | nil => rfl
  | cons hv _ => exact congrArg some (textOf_image h hd hd' hv)

variable {x y : Focus} (hx : FocusImage f d x y)

include hx

theorem language?_focus :
    (ofDocument d').language? y.place.owner = (ofDocument d).language? x.place.owner := by
  obtain ⟨hin, himage⟩ := hx.place
  have howner : y.place.owner = f x.place.owner := by
    rw [himage]
    cases x.place <;> rfl
  rw [howner, language?_image h hd hd' hin.owner_lt]

variable {vs ws : List Value} (hvs : List.Forall₂ (ValueImage f d) vs ws)

include hvs

theorem textArg_image : (ofDocument d').textArg y ws = (ofDocument d).textArg x vs := by
  cases hvs with
  | nil => exact placeText_image h hd hd' hx.place
  | cons hv _ => exact textOf_image h hd hd' hv

omit hd hd' in
theorem nameArg_image :
    (ofDocument d').nameArg y ws = (ofDocument d).nameArg x vs := by
  cases hvs with
  | nil => exact congrArg Except.ok (placeName?_image h hx.place)
  | cons hv _ =>
    refine GoAlike.eq ((asNodes_image hv).map fun ps qs hps => ?_)
    cases hps with
    | nil => rfl
    | cons hp _ => exact placeName?_image h hp

/-- A function of images has the image of its value. -/
theorem apply_image (g : Builtin) :
    GoAlike (ValueImage f d) ((ofDocument d).apply g x vs) ((ofDocument d').apply g y ws) := by
  have htext := textArg_image h hd hd' hx hvs
  cases g
  -- What the focus alone decides.
  case last =>
    rw [apply, apply, hx.size]
    exact .ok (.number _)
  case position =>
    rw [apply, apply, hx.position]
    exact .ok (.number _)
  case yes | no => exact .ok (.truth _)
  -- An optional argument in place of the context node.
  case localName | namespaceUri | name =>
    rw [apply, apply, nameArg_image h hx hvs]
    cases (ofDocument d).nameArg x vs with
    | error e => exact .error e
    | ok n => exact .ok (.text _)
  case string | normalizeSpace =>
    rw [apply, apply, htext]
    exact .ok (.text _)
  case stringLength =>
    rw [apply, apply, htext]
    exact .ok (.number _)
  case number =>
    cases hvs with
    | nil =>
      rw [apply, apply, placeText_image h hd hd' hx.place]
      exact .ok (.number _)
    | cons hv _ =>
      rw [apply, apply, numberOf_image h hd hd' hv]
      exact .ok (.number _)
  -- All arguments.
  case concat =>
    have htexts : ws.map (ofDocument d').textOf = vs.map (ofDocument d).textOf :=
      map_eq_of_forall₂ hvs fun _ _ hv => textOf_image h hd hd' hv
    rw [apply, apply, htexts]
    exact .ok (.text _)
  -- One argument.
  case count =>
    cases hvs with
    | nil => exact .error _
    | cons hv _ =>
      refine (asNodes_image hv).map fun ps qs hps => ?_
      rw [hps.length_eq]
      exact .number _
  case sum =>
    cases hvs with
    | nil => exact .error _
    | cons hv _ =>
      refine (asNodes_image hv).map fun ps qs hps => ?_
      rw [total_image h hd hd' hps]
      exact .number _
  case id =>
    cases hvs with
    | nil => exact .error _
    | cons hv _ => exact .ok (.nodes (identified_image h hd hd' hv))
  case lang =>
    cases hvs with
    | nil => exact .error _
    | cons hv _ =>
      rw [apply, apply, textOf_image h hd hd' hv, language?_focus h hd hd' hx]
      exact .ok (.truth _)
  case boolean | not =>
    cases hvs with
    | nil => exact .error _
    | cons hv _ =>
      rw [apply, apply, truthOf_image hv]
      exact .ok (.truth _)
  case isPresent | isAbsent =>
    cases hvs with
    | nil => exact .error _
    | cons hv _ =>
      rw [apply, apply, isPresent_image hv]
      exact .ok (.truth _)
  case floor | ceiling | round =>
    cases hvs with
    | nil => exact .error _
    | cons hv _ =>
      rw [apply, apply, numberOf_image h hd hd' hv]
      exact .ok (.number _)
  case upperCase | lowerCase =>
    cases hvs with
    | nil => exact .error _
    | cons hv _ =>
      rw [apply, apply, textOf_image h hd hd' hv]
      exact .ok (.text _)
  case stringJoin =>
    cases hvs with
    | nil => exact .error _
    | cons hv hmore =>
      rw [apply, apply, textsOf_image h hd hd' hv, separator_image h hd hd' hmore]
      exact .ok (.text _)
  -- Two arguments.
  case startsWith | contains | endsWith =>
    rcases hvs with _ | ⟨ha, _ | ⟨hb, _⟩⟩
    · exact .error _
    · exact .error _
    · rw [apply, apply, textOf_image h hd hd' ha, textOf_image h hd hd' hb]
      exact .ok (.truth _)
  case substringBefore | substringAfter =>
    rcases hvs with _ | ⟨ha, _ | ⟨hb, _⟩⟩
    · exact .error _
    · exact .error _
    · rw [apply, apply, textOf_image h hd hd' ha, textOf_image h hd hd' hb]
      exact .ok (.text _)
  case substring =>
    rcases hvs with _ | ⟨ha, _ | ⟨hb, hmore⟩⟩
    · exact .error _
    · exact .error _
    · have hsubstring := substring_image h hd hd' ha hb hmore
      rw [apply, apply, hsubstring]
      exact .ok (.text _)
  -- Three arguments.
  case translate =>
    rcases hvs with _ | ⟨ha, _ | ⟨hb, _ | ⟨hc, hmore⟩⟩⟩
    · exact .error _
    · exact .error _
    · exact .error _
    · rw [apply, apply, textOf_image h hd hd' ha, textOf_image h hd hd' hb,
        textOf_image h hd hd' hc]
      exact .ok (.text _)

/-- A call on images finds the same function, or none as well. -/
theorem call_image (name : String) :
    GoAlike (ValueImage f d) ((ofDocument d).call name x vs) ((ofDocument d').call name y ws) := by
  unfold call
  cases function? name with
  | none => exact .error _
  | some s => exact apply_image h hd hd' hx hvs s.builtin

end Functions

end Index

/-! ### Predicates -/

section Evaluation

variable {sub sub' : Evaluator} (hsub : Evaluator.Alike f d sub sub') {s t : Scope}
  (hs : ScopeImage f d s t)

theorem holdsAt_image {x y : Focus} (hx : FocusImage f d x y) {v w : Value}
    (hv : ValueImage f d v w) : holdsAt y w = holdsAt x v := by
  have htruth := truthOf_image hv
  cases hv with
  | nodes hps => exact htruth
  | truth b => rfl
  | number z => rw [holdsAt, holdsAt, hx.position]
  | text s => rfl

include hsub hs

theorem keep_image (predicate : Expr) (size : Nat) {ps qs : List Place}
    (hps : List.Forall₂ (ImageOf f d) ps qs) (position : Nat) :
    GoAlike (List.Forall₂ (ImageOf f d)) (keep sub s predicate size position ps)
      (keep sub' t predicate size position qs) := by
  induction hps generalizing position with
  | nil => exact .ok .nil
  | @cons p q ps qs hp _ ih =>
    have hfocus : FocusImage f d ⟨p, position, size⟩ ⟨q, position, size⟩ := ⟨hp, rfl, rfl⟩
    refine (hsub predicate _ _ s t hfocus hs).bind fun v w hv => (ih (position + 1)).bind
      fun more more' hmore => ?_
    rw [holdsAt_image hfocus hv]
    split
    · exact .ok (.cons hp hmore)
    · exact .ok hmore

theorem keepAll_image : ∀ (predicates : List Expr) {ps qs : List Place},
    List.Forall₂ (ImageOf f d) ps qs →
      GoAlike (List.Forall₂ (ImageOf f d)) (keepAll sub s predicates ps)
        (keepAll sub' t predicates qs)
  | [], _, _, hps => .ok hps
  | predicate :: more, ps, qs, hps => by
    rw [keepAll, keepAll, hps.length_eq]
    exact (keep_image hsub hs predicate qs.length hps 1).bind fun _ _ hkept =>
      keepAll_image more hkept

theorem evalArgs_image {x y : Focus} (hx : FocusImage f d x y) : ∀ args : List Expr,
    GoAlike (List.Forall₂ (ValueImage f d)) (evalArgs sub x s args) (evalArgs sub' y t args)
  | [] => .ok .nil
  | e :: rest => (hsub e x y s t hx hs).bind fun _ _ hv =>
      (evalArgs_image hx rest).bind fun _ _ hmore => .ok (.cons hv hmore)

/-! ### Steps -/

namespace Index

variable (h : Renumbered f d d') (hd : d.Linked) (hd' : d'.Linked)

include h hd hd'

theorem stepFrom_image (step : Step) {p q : Place} (hp : ImageOf f d p q) :
    GoAlike (List.Forall₂ (ImageOf f d)) ((ofDocument d).stepFrom sub s step p)
      ((ofDocument d').stepFrom sub' t step q) := by
  have hpasses : ∀ p q, ImageOf f d p q →
      (ofDocument d).passes step.axis step.test p = (ofDocument d').passes step.axis step.test q :=
    fun _ _ hpq => (passes_image h step.axis step.test hpq).symm
  exact keepAll_image hsub hs step.predicates
    (forall₂_filter hpasses (along_image h hd hd' step.axis hp))

theorem stepFromAll_image (step : Step) {ps qs : List Place}
    (hps : List.Forall₂ (ImageOf f d) ps qs) :
    GoAlike (List.Forall₂ (ImageOf f d)) ((ofDocument d).stepFromAll sub s step ps)
      ((ofDocument d').stepFromAll sub' t step qs) := by
  induction hps with
  | nil => exact .ok .nil
  | cons hp _ ih =>
    exact (stepFrom_image hsub hs h hd hd' step hp).bind fun _ _ hhere =>
      ih.bind fun _ _ hmore => .ok (List.rel_append hhere hmore)

/-- Steps lead from images to the images of the places to which they lead. -/
theorem follow_image : ∀ (steps : List Step) {ps qs : List Place},
    List.Forall₂ (ImageOf f d) ps qs →
      GoAlike (List.Forall₂ (ImageOf f d)) ((ofDocument d).follow sub s steps ps)
        ((ofDocument d').follow sub' t steps qs)
  | [], _, _, hps => .ok hps
  | step :: steps, _, _, hps =>
    (stepFromAll_image hsub hs h hd hd' step hps).bind fun _ _ hfound =>
      follow_image steps (sortUnique_image h hd hd' hfound)

omit hd' in
theorem startPlaces_image {x y : Focus} (hx : FocusImage f d x y) : ∀ start : Start,
    GoAlike (List.Forall₂ (ImageOf f d)) (startPlaces sub x s start) (startPlaces sub' y t start)
  | .root => .ok (.cons ⟨hd.root_lt, by rw [Place.image, h.top]⟩ .nil)
  | .context => .ok (.cons hx.place .nil)
  | .nodes e => (hsub e x y s t hx hs).bind fun _ _ hv => asNodes_image hv

end Index

end Evaluation

/-! ### Expressions -/

namespace Index

variable (h : Renumbered f d d') (hd : d.Linked) (hd' : d'.Linked)

include h hd hd'

/-- Where the parts of an expression go alike, the expression does. -/
theorem evalLevel_image {sub sub' : Evaluator} (hsub : Evaluator.Alike f d sub sub') :
    Evaluator.Alike f d ((ofDocument d).evalLevel sub) ((ofDocument d').evalLevel sub') := by
  intro e x y s t hx hs
  have hpart : ∀ e, GoAlike (ValueImage f d) (sub e x s) (sub' e y t) := fun e =>
    hsub e x y s t hx hs
  cases e with
  | or left right =>
    refine (hpart left).bind fun a b ha => ?_
    rw [truthOf_image ha]
    split
    · exact .ok (.truth true)
    · refine (hpart right).bind fun a b ha => ?_
      rw [truthOf_image ha]
      exact .ok (.truth _)
  | and left right =>
    refine (hpart left).bind fun a b ha => ?_
    rw [truthOf_image ha]
    split
    · refine (hpart right).bind fun a b ha => ?_
      rw [truthOf_image ha]
      exact .ok (.truth _)
    · exact .ok (.truth false)
  | compare op left right =>
    refine (hpart left).bind fun a a' ha => (hpart right).bind fun b b' hb => ?_
    rw [compareValues_image h hd hd' op ha hb]
    exact .ok (.truth _)
  | arith op left right =>
    refine (hpart left).bind fun a a' ha => (hpart right).bind fun b b' hb => ?_
    rw [numberOf_image h hd hd' ha, numberOf_image h hd hd' hb]
    exact .ok (.number _)
  | negate operand =>
    refine (hpart operand).bind fun a a' ha => ?_
    rw [numberOf_image h hd hd' ha]
    exact .ok (.number _)
  | union left right =>
    refine (hpart left).bind fun a a' ha => (asNodes_image ha).bind fun as as' has =>
      (hpart right).bind fun b b' hb => (asNodes_image hb).bind fun bs bs' hbs => ?_
    exact .ok (.nodes (sortUnique_image h hd hd' (List.rel_append has hbs)))
  | path start steps =>
    refine (startPlaces_image hsub hs h hd hx start).bind fun ps qs hps => ?_
    exact (follow_image hsub hs h hd hd' steps hps).bind fun _ _ hfound => .ok (.nodes hfound)
  | filter primary predicates =>
    refine (hpart primary).bind fun v w hv => (asNodes_image hv).bind fun ps qs hps => ?_
    exact (keepAll_image hsub hs predicates hps).bind fun _ _ hkept => .ok (.nodes hkept)
  | literal body => exact .ok (.text body)
  | number z => exact .ok (.number z)
  | varRef name =>
    have hvalue := hs.get? name
    unfold evalLevel
    dsimp only
    generalize s.get? name = v, t.get? name = w at hvalue
    cases hvalue with
    | none => exact .error _
    | some hv => exact .ok hv
  | call function args =>
    exact (evalArgs_image hsub hs hx args).bind fun _ _ hvs =>
      call_image h hd hd' hx hvs function.label

/-- Expressions go alike at places and their images. -/
theorem eval_image : ∀ levels : Nat,
    Evaluator.Alike f d ((ofDocument d).eval levels) ((ofDocument d').eval levels)
  | 0 => fun _ _ _ _ _ _ _ => .error _
  | levels + 1 => evalLevel_image h hd hd' (eval_image levels)

theorem evaluate_image (q : Query) {p p' : Place} (hp : ImageOf f d p p') {s t : Scope}
    (hs : ScopeImage f d s t) :
    GoAlike (ValueImage f d) ((ofDocument d).evaluate q p s) ((ofDocument d').evaluate q p' t) :=
  eval_image h hd hd' (depthLimit + 1) q.expr _ _ s t ⟨hp, rfl, rfl⟩ hs

theorem select_image (q : Query) {p p' : Place} (hp : ImageOf f d p p') {s t : Scope}
    (hs : ScopeImage f d s t) :
    GoAlike (List.Forall₂ (ImageOf f d)) ((ofDocument d).select q p s)
      ((ofDocument d').select q p' t) :=
  (evaluate_image h hd hd' q hp hs).bind fun _ _ hv => asNodes_image hv

theorem test_image (q : Query) {p p' : Place} (hp : ImageOf f d p p') {s t : Scope}
    (hs : ScopeImage f d s t) :
    (ofDocument d').test q p' t = (ofDocument d).test q p s :=
  GoAlike.eq ((evaluate_image h hd hd' q hp hs).map fun _ _ hv => truthOf_image hv)

end Index

end MarkupRules.Query
