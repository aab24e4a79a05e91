/-
# Validation does not tell the numbers of nodes

Where a document is another one with its nodes renumbered, locations are the same, the matches of
rules are images in the same order, and every rule fires at the image of a node as it fires at the
node. So a program lists the same on both documents or fails with the same error, and what is found
depends on the tree alone and not on the order in which it was made.

Key definitions: `FiringImage`, `RunImage`, `Report.lists`.

Key theorems: `location_image`, `firstMatches_image`, `runRule_image`, `runPattern_image`,
`runProgram_image`, `results_follow_tree`.
-/
import MarkupRules.Proofs.Query.Renumbered
import MarkupRules.Proofs.Validation.Locations
import MarkupRules.Proofs.Validation.Matching
import MarkupRules.Proofs.Validation.Stack

namespace MarkupRules.Validation

open Markup (Built Document NodeId)
open Markup.Document (Renumbered root)
open Program (Check Definition MessagePart Pattern Rule)
open Query
open Query.Index

variable {f : NodeId → NodeId} {d d' : Document}

/-! ### Locations -/

section Locations

variable (h : Renumbered f d d') (hd : d.Linked) (hd' : d'.Linked)

include h hd

theorem stepTo_image {parent n : NodeId} (hover : d.Over parent n) :
    stepTo d' (f parent) (f n) = stepTo d parent n := by
  have hn : n < d.size := Document.lt_size_of_parent? hover
  have hover' : d'.Over (f parent) (f n) := by
    rw [Document.Over, h.parent n hn, hover, Option.map_some]
  obtain ⟨before, after, hsiblings, hfront, hsiblings', hfront'⟩ :
      ∃ before after, d.children parent = before ++ n :: after ∧ n ∉ before ∧
        d'.children (f parent) = before.map f ++ f n :: after.map f ∧ f n ∉ before.map f := by
    rw [← siblings_eq_children hover, ← siblings_eq_children hover']
    refine (siblings_parts h hd hn).resolve_left fun hnil => ?_
    rw [siblings_eq_children hover] at hnil
    exact List.not_mem_nil (hnil.1 ▸ hd.mem_children_iff.2 hover)
  have hcount : ((before.map f).filter fun c => sameKind (d.payload n) (d'.payload c)).length =
      (before.filter fun c => sameKind (d.payload n) (d.payload c)).length := by
    rw [List.filter_map, List.length_map]
    refine congrArg List.length (List.filter_congr fun c hc => ?_)
    have hchild : c ∈ d.children parent := by
      rw [hsiblings]
      exact List.mem_append_left _ hc
    rw [Function.comp_apply, h.payload c (hd.mem_children_lt hchild).2]
  have hnumber : siblingNumber d' (f parent) (f n) = siblingNumber d parent n := by
    rw [siblingNumber, countBefore_eq, hsiblings', takeWhile_ne_append hfront', h.payload n hn,
      hcount, siblingNumber, countBefore_eq, hsiblings, takeWhile_ne_append hfront]
  rw [stepTo, stepTo, h.payload n hn, hnumber]

include hd'

theorem nodeLocation_image {n : NodeId} (hn : n < d.size) :
    nodeLocation d' (f n) = nodeLocation d n := by
  refine hd.induction_above (P := fun n => nodeLocation d' (f n) = nodeLocation d n) ?_ ?_ hn
  · rw [h.top, nodeLocation_root hd, nodeLocation_root hd']
  · intro parent n hover ih
    have hover' : d'.Over (f parent) (f n) := by
      rw [Document.Over, h.parent n (Document.lt_size_of_parent? hover), hover, Option.map_some]
    rw [nodeLocation_of_over hd hover, nodeLocation_of_over hd' hover', ih, stepTo_image h hd hover]

/-- Images have the locations of what they are images of. -/
theorem location_image {p q : Place} (hpq : ImageOf f d p q) : location d' q = location d p := by
  obtain ⟨hp, rfl⟩ := hpq
  cases p with
  | node n => rw [Place.image, location, location, nodeLocation_image h hd hd' hp]
  | attr n i =>
    have hn : n < d.size := hp.owner_lt
    rw [Place.image, location, location, nodeLocation_image h hd hd' hn, h.attributes_eq hn]

end Locations

/-! ### Matches -/

/-- The second match is the first one at the image of its place. -/
def MatchImage {α : Type} (f : NodeId → NodeId) (d : Document) (m m' : Place × α) : Prop :=
  m.1.IsIn d ∧ m' = (m.1.image f, m.2)

section Matches

variable {α : Type} (h : Renumbered f d d') (hd : d.Linked) (hd' : d'.Linked)

include h

theorem keepFirst_image {ms ms' : List (Place × α)} (hms : List.Forall₂ (MatchImage f d) ms ms') :
    ∀ {before before' : Option Place}, Option.Rel (ImageOf f d) before before' →
      List.Forall₂ (MatchImage f d) (keepFirst before ms) (keepFirst before' ms') := by
  induction hms with
  | nil => exact fun _ => .nil
  | @cons m m' ms ms' hm _ ih =>
    intro before before' hbefore
    obtain ⟨hin, rfl⟩ := hm
    have hsame : before = some m.1 ↔ before' = some (m.1.image f) := by
      cases hbefore with
      | none => simp
      | @some p p' hp =>
        obtain ⟨hp, rfl⟩ := hp
        rw [Option.some.injEq, Option.some.injEq]
        exact ⟨fun heq => heq ▸ rfl, Place.image_inj h hp hin⟩
    rw [keepFirst, keepFirst]
    by_cases heq : before = some m.1
    · rw [if_pos heq, if_pos (hsame.1 heq)]
      exact ih hbefore
    · rw [if_neg heq, if_neg fun heq' => heq (hsame.2 heq')]
      exact .cons ⟨hin, rfl⟩ (ih (.some ⟨hin, rfl⟩))

include hd hd'

/-- The first matches at the images of places are the images of the first matches. -/
theorem firstMatches_image {ms ms' : List (Place × α)}
    (hms : List.Forall₂ (MatchImage f d) ms ms') :
    List.Forall₂ (MatchImage f d) (firstMatches (.ofDocument d) ms)
      (firstMatches (.ofDocument d') ms') := by
  obtain ⟨hin, rfl⟩ := forall₂_and_eq_iff.1 hms
  refine keepFirst_image h (forall₂_and_eq_iff.2 ⟨fun m hm => ?_, ?_⟩) .none
  · exact hin m (List.mem_mergeSort.1 hm)
  · refine (List.map_mergeSort fun a ha b hb => ?_).symm
    dsimp only
    rw [orderKey_image h hd hd' (hin a ha), orderKey_image h hd hd' (hin b hb)]

end Matches

/-! ### Variables and messages -/

theorem outcome_alike {α β : Type} {R : α → β → Prop} {x : Except QueryError α}
    {y : Except QueryError β} (q : Query) (hxy : GoAlike R x y) :
    GoAlike R (outcome q x) (outcome q y) := by
  cases hxy with
  | ok hab => exact .ok hab
  | error e => exact .error _

section Runs

variable (h : Renumbered f d d') (hd : d.Linked) (hd' : d'.Linked) {p p' : Place}
  (hp : ImageOf f d p p')

include h hd hd' hp

theorem defineAll_image : ∀ (ds : List (Definition Query)) {s t : Scope}, ScopeImage f d s t →
    GoAlike (ScopeImage f d) (defineAll (.ofDocument d) p ds s) (defineAll (.ofDocument d') p' ds t)
  | [], _, _, hs => .ok hs
  | e :: rest, _, _, hs =>
    (outcome_alike e.value (evaluate_image h hd hd' e.value hp hs)).bind fun _ _ hv =>
      defineAll_image rest (hs.push e.name hv)

variable {s t : Scope} (hs : ScopeImage f d s t)

include hs

theorem partText_image (part : MessagePart Query) :
    partText (.ofDocument d') p' t part = partText (.ofDocument d) p s part := by
  cases part with
  | text content => rfl
  | value q =>
    refine ((outcome_alike q (evaluate_image h hd hd' q hp hs)).bind fun v w hv => ?_).eq
    exact .ok (textOf_image h hd hd' hv)
  | name q =>
    refine ((outcome_alike q (select_image h hd hd' q hp hs)).bind fun ps qs hps => .ok ?_).eq
    cases hps with
    | nil => rfl
    | cons hfirst _ => rw [List.head?_cons, List.head?_cons, Option.bind_some, Option.bind_some,
        placeName?_image h hfirst]

theorem messageText_image (parts : List (MessagePart Query)) :
    messageText (.ofDocument d') p' t parts = messageText (.ofDocument d) p s parts := by
  rw [messageText, messageText, funext (partText_image h hd hd' hp hs)]

/-- A check finds at the image of a node what it finds at the node. -/
theorem runCheck_image (pattern : Option String) (rule : Rule Query) (c : Check Query) :
    runCheck (.ofDocument d') pattern rule p' t c = runCheck (.ofDocument d) pattern rule p s c := by
  have hlocation : location (Index.ofDocument d').doc p' = location (Index.ofDocument d).doc p :=
    location_image h hd hd' hp
  rw [runCheck, runCheck, test_image h hd hd' c.test hp hs,
    messageText_image h hd hd' hp hs c.message, hlocation]

end Runs

/-! ### Rules and patterns -/

/-- The second firing is the first one at the image of its node. -/
def FiringImage (f : NodeId → NodeId) (d : Document) (a b : Firing) : Prop :=
  a.place.IsIn d ∧ b = { a with place := a.place.image f }

/-- The second run of a pattern is the first one with images in place of nodes. -/
structure RunImage (f : NodeId → NodeId) (d : Document) (a b : PatternRun) : Prop where
  /-- The identifier of the pattern. -/
  id : a.id = b.id
  /-- The title of the pattern. -/
  title : a.title = b.title
  /-- What fired. -/
  firings : List.Forall₂ (FiringImage f d) a.firings b.firings

/-- What works on the stack goes alike: with related results, it leaves images of the variables. -/
def OnStack.Alike {α β : Type} (f : NodeId → NodeId) (d : Document) (R : α → β → Prop)
    (run : OnStack α) (run' : OnStack β) : Prop :=
  ∀ s t, ScopeImage f d s t →
    GoAlike (fun x y => R x.1 y.1 ∧ ScopeImage f d x.2 y.2) (run s) (run' t)

theorem ScopeImage.truncate {s t : Scope} (hs : ScopeImage f d s t) (mark : Nat) :
    ScopeImage f d (s.truncate mark) (t.truncate mark) := by
  have hsize : s.size = t.size := hs.length_eq
  rw [Scope.truncate, Scope.truncate, hsize]
  exact List.forall₂_drop _ hs

theorem onStackAll_alike {α α' β β' : Type} {S : α → α' → Prop} {R : β → β' → Prop}
    {step : α → OnStack β} {step' : α' → OnStack β'}
    (hstep : ∀ a a', S a a' → OnStack.Alike f d R (step a) (step' a')) {as : List α}
    {as' : List α'} (has : List.Forall₂ S as as') :
    OnStack.Alike f d (List.Forall₂ R) (onStackAll step as) (onStackAll step' as') := by
  induction has with
  | nil => exact fun s t hs => .ok ⟨.nil, hs⟩
  | @cons a a' as as' ha _ ih =>
    intro s t hs
    refine (hstep a a' ha s t hs).bind fun x y hxy => (ih x.2 y.2 hxy.2).bind fun xs ys hxys => ?_
    exact .ok ⟨.cons hxy.1 hxys.1, hxys.2⟩

section Runs

variable (h : Renumbered f d d') (hd : d.Linked) (hd' : d'.Linked)

include h hd hd'

theorem runRule_image (pattern : Option String) (rule : Rule Query) {p p' : Place}
    (hp : ImageOf f d p p') :
    OnStack.Alike f d (FiringImage f d) (runRule (.ofDocument d) pattern p rule)
      (runRule (.ofDocument d') pattern p' rule) := by
  intro s t hs
  have hsize : s.size = t.size := hs.length_eq
  refine (defineAll_image h hd hd' hp rule.definitions hs).bind fun inner inner' hinner => ?_
  rw [funext (runCheck_image h hd hd' hp hinner pattern rule), hsize, hp.2]
  cases rule.checks.mapM (runCheck (.ofDocument d) pattern rule p inner) with
  | error e => exact .error e
  | ok found => exact .ok ⟨⟨hp.1, rfl⟩, ScopeImage.truncate hinner t.size⟩

theorem matchesOf_image {s t : Scope} (hs : ScopeImage f d s t) : ∀ rules : List (Rule Query),
    GoAlike (List.Forall₂ (MatchImage f d)) (matchesOf (.ofDocument d) s rules)
      (matchesOf (.ofDocument d') t rules)
  | [] => .ok .nil
  | rule :: rest => by
    have hroot : ImageOf f d (.node root) (.node root) :=
      ⟨hd.root_lt, by rw [Place.image, h.top]⟩
    refine (outcome_alike _ (select_image h hd hd' rule.context hroot hs)).bind fun ps qs hps =>
      (matchesOf_image hs rest).bind fun more more' hmore => .ok (List.rel_append ?_ hmore)
    refine List.forall₂_map_left_iff.2 (List.forall₂_map_right_iff.2 (hps.imp fun p q hpq => ?_))
    exact ⟨hpq.1, by rw [hpq.2]⟩

theorem runPattern_image (pattern : Pattern Query) :
    OnStack.Alike f d (RunImage f d) (runPattern (.ofDocument d) pattern)
      (runPattern (.ofDocument d') pattern) := by
  intro s t hs
  have hroot : ImageOf f d (.node root) (.node root) := ⟨hd.root_lt, by rw [Place.image, h.top]⟩
  have hsize : s.size = t.size := hs.length_eq
  refine (defineAll_image h hd hd' hroot pattern.definitions hs).bind fun inner inner' hinner =>
    (matchesOf_image h hd hd' hinner pattern.rules).bind fun ms ms' hms => ?_
  have hfire : ∀ m m' : Place × Rule Query, MatchImage f d m m' →
      OnStack.Alike f d (FiringImage f d) (runRule (.ofDocument d) pattern.id m.1 m.2)
        (runRule (.ofDocument d') pattern.id m'.1 m'.2) := by
    rintro m _ ⟨hin, rfl⟩
    exact runRule_image h hd hd' pattern.id m.2 ⟨hin, rfl⟩
  refine (onStackAll_alike hfire (firstMatches_image h hd hd' hms) _ _ hinner).bind
    fun x y hxy => .ok ⟨⟨rfl, rfl, hxy.1⟩, ?_⟩
  dsimp only
  rw [hsize]
  exact ScopeImage.truncate hxy.2 t.size

end Runs

/-! ### Programs -/

/-- What is listed in a report: the patterns that ran, the rules that fired, and what was found. -/
def Report.lists (r : Report) : List String × List FiredRule × List Finding × List Finding :=
  (r.activePatterns, r.firedRules, r.failedAssertions, r.successfulReports)

/-- Parameters hold no nodes, so they are their own images. -/
theorem parameterScope_image (parameters : Option Parameters) :
    ScopeImage f d (parameterScope parameters) (parameterScope parameters) := by
  have hall : ∀ (es : List (String × Scalar)) (s : Scope), ScopeImage f d s s →
      ScopeImage f d (es.foldl (fun s e => s.push e.1 (Value.ofScalar e.2)) s)
        (es.foldl (fun s e => s.push e.1 (Value.ofScalar e.2)) s) := by
    intro es
    induction es with
    | nil => exact fun _ hs => hs
    | cons e es ih =>
      have hvalue : ValueImage f d (Value.ofScalar e.2) (Value.ofScalar e.2) := by
        cases e.2 with
        | bool b => exact .truth b
        | int n => exact .number _
        | real x => exact .number x
        | text s => exact .text s
      exact fun s hs => ih _ (hs.push e.1 hvalue)
  cases parameters with
  | none => exact .nil
  | some ps => exact hall ps.entries .empty .nil

section Programs

variable (h : Renumbered f d d') (hd : d.Linked) (hd' : d'.Linked)

include h hd hd'

theorem lists_image {r r' : Report} (hdoc : r.document = d) (hdoc' : r'.document = d')
    (hruns : List.Forall₂ (RunImage f d) r.patterns r'.patterns) : r'.lists = r.lists := by
  have hactive : r'.activePatterns = r.activePatterns :=
    map_eq_of_forall₂ hruns fun a b hab => by rw [PatternRun.label, PatternRun.label, hab.id]
  have hfired : r'.firedRules = r.firedRules := by
    refine congrArg List.flatten (map_eq_of_forall₂ hruns fun a b hab => ?_)
    refine map_eq_of_forall₂ hab.firings fun x y hxy => ?_
    obtain ⟨hin, rfl⟩ := hxy
    rw [hab.id, hdoc, hdoc', location_image h hd hd' ⟨hin, rfl⟩]
  have hfound : ∀ kind, r'.findingsOf kind = r.findingsOf kind := fun kind => by
    refine congrArg List.flatten (map_eq_of_forall₂ hruns fun a b hab => ?_)
    refine congrArg List.flatten (map_eq_of_forall₂ hab.firings fun x y hxy => ?_)
    rw [hxy.2]
  rw [Report.lists, Report.lists, hactive, hfired, Report.failedAssertions,
    Report.failedAssertions, Report.successfulReports, Report.successfulReports, hfound, hfound]

theorem runProgram_image (program : Program Query) (parameters : Option Parameters) :
    GoAlike (fun r r' => r'.lists = r.lists) (runProgram program d parameters)
      (runProgram program d' parameters) := by
  have hroot : ImageOf f d (.node root) (.node root) := ⟨hd.root_lt, by rw [Place.image, h.top]⟩
  have hpatterns : OnStack.Alike f d (List.Forall₂ (RunImage f d))
      (onStackAll (runPattern (.ofDocument d)) program.patterns)
      (onStackAll (runPattern (.ofDocument d')) program.patterns) :=
    onStackAll_alike (S := (· = ·)) (fun pattern _ hsame =>
      hsame ▸ runPattern_image h hd hd' pattern) (List.forall₂_eq_eq_eq ▸ rfl)
  refine (defineAll_image h hd hd' hroot program.definitions
    (parameterScope_image parameters)).bind fun scope scope' hscope => ?_
  refine (hpatterns scope scope' hscope).bind fun x y hxy => .ok ?_
  exact lists_image h hd hd' rfl rfl hxy.1

end Programs

/-- Where a document that can be built is another one with its nodes renumbered, every expression
has at the image of a place and with the images of variables the image of its value at the place,
or fails with the same error; and every program lists the same on both documents, or fails with
the same error. -/
theorem results_follow_tree (hbuilt : Built d) (hbuilt' : Built d') (h : Renumbered f d d') :
    (∀ (q : Query) (p : Place) (scope : Scope), p.IsIn d → scope.Within d →
      (Index.ofDocument d').evaluate q (p.image f) (scope.image f) =
        ((Index.ofDocument d).evaluate q p scope).map (Value.image f)) ∧
    ∀ (program : Program Query) (parameters : Option Parameters),
      (runProgram program d' parameters).map Report.lists =
        (runProgram program d parameters).map Report.lists := by
  refine ⟨fun q p scope hp hscope => ?_, fun program parameters => ?_⟩
  · have halike := evaluate_image h hbuilt.linked hbuilt'.linked q ⟨hp, rfl⟩ (scopeImage hscope)
    exact halike.eq_map fun _ _ hv => hv.eq_image
  · have halike := runProgram_image h hbuilt.linked hbuilt'.linked program parameters
    exact GoAlike.eq (halike.map fun _ _ hlists => hlists)

/-! ### The shelf in another order -/

/-- The shelf with the books and the comment made before what is in them. -/
def reorderedShelf : Document :=
  let d := (Document.empty.appendElement root (.plain "shelf")).1
  let d := (d.appendElement 1 (.plain "book")).1
  let d := (d.appendComment 1 "y").1
  let d := (d.appendElement 1 (.plain "book")).1
  let d := (d.appendText 2 "x").1
  d.setAttribute 2 (.plain "id") "a"

theorem built_reorderedShelf : Built reorderedShelf :=
  have hshelf := Built.empty.appendElement (p := root) (.plain "shelf") (by decide)
  have hbook := hshelf.appendElement (p := 1) (.plain "book") (by decide)
  have hcomment := hbook.appendComment (p := 1) "y" (by decide)
  have hempty := hcomment.appendElement (p := 1) (.plain "book") (by decide)
  have htext := hempty.appendText (p := 2) "x" (by decide)
  htext.setAttribute 2 (.plain "id") "a"

/-- The numbers that the nodes of the shelf have there. -/
def shelfNumber (n : NodeId) : NodeId :=
  [0, 1, 2, 5, 3, 4].getD n n

theorem renumbered_shelf : Renumbered shelfNumber .shelf reorderedShelf where
  top := rfl
  lt_size := by decide
  inj n m hn hm :=
    have hinj : ∀ n, n < Document.shelf.size → ∀ m, m < Document.shelf.size →
        shelfNumber n = shelfNumber m → n = m := by decide
    hinj n hn m hm
  onto := by decide
  payload := by decide
  parent := by decide
  children := by decide

/-- What comes before a place, together with the nodes of a variable. -/
def precedingOrBound : Query where
  source := "preceding::node() | $v"
  expr := .union (.path .context [.mk .preceding .anyNode []]) (.varRef "v")

/-- From the empty book, with the identifier of the other one in a variable: the identifier comes
between its book and the text in it, which is made last. And the program for the shelf lists there
what it lists for the shelf. -/
theorem results_follow_tree_on_shelf :
    (Index.ofDocument reorderedShelf).evaluate precedingOrBound (.node 4)
        (Scope.empty.push "v" (.nodes [.attr 2 0])) =
      .ok (.nodes [.node 2, .attr 2 0, .node 5, .node 3]) ∧
    (runProgram shelfProgram reorderedShelf none).map Report.lists =
      (runProgram shelfProgram .shelf none).map Report.lists := by
  have hfollow := results_follow_tree Markup.built_shelf built_reorderedShelf renumbered_shelf
  have hscope : (Scope.empty.push "v" (.nodes [.attr 2 0])).Within .shelf := by
    intro b hb
    obtain rfl := List.mem_singleton.1 hb
    have hin : ∀ p ∈ [Place.attr 2 0], p.IsIn Document.shelf := by decide
    exact hin
  have hshelf : (Index.ofDocument .shelf).evaluate precedingOrBound (.node 5)
      (Scope.empty.push "v" (.nodes [.attr 2 0])) =
        .ok (.nodes [.node 2, .attr 2 0, .node 3, .node 4]) := rfl
  refine ⟨?_, hfollow.2 shelfProgram none⟩
  have himage := hfollow.1 precedingOrBound (.node 5) _ (by decide) hscope
  rw [hshelf] at himage
  exact himage

end MarkupRules.Validation
