/-
# Substitution is simultaneous

A text falls into segments in one way only: runs without a dollar sign, and references, which are a
dollar sign with the longest run of name characters behind it. What is substituted in the text is
put together segment by segment, each looked at once and on its own. So what is put in for one
reference meets neither its neighbours nor the parameters again, and which parameter comes first
matters only among those of one name.

Key definitions: `Segment`, `FallsInto`, `Becomes`, `segments`.

Key theorems: `fallsInto_iff`, `substitute_eq`, `Becomes.perm`, `substitute_is_simultaneous`.
-/
import MarkupRules.Proofs.Schema.References
import MarkupRules.Proofs.Steps

namespace MarkupRules.Schema

/-! ### The segments of a text -/

/-- A part of a text. -/
inductive Segment where
  /-- Characters outside references. -/
  | run (text : List Char)
  /-- A reference to a parameter. -/
  | reference (name : List Char)

/-- A text falls into runs and references, all of them as long as can be. -/
inductive FallsInto : List Char → List Segment → Prop
  /-- There is nothing in an empty text. -/
  | nil : FallsInto [] []
  /-- A run goes on to the next dollar sign. -/
  | run {text rest : List Char} {more : List Segment} : text ≠ [] → '$' ∉ text →
    (∀ c ∈ rest.head?, c = '$') → FallsInto rest more → FallsInto (text ++ rest) (.run text :: more)
  /-- A reference goes on to the next character that belongs to no name. -/
  | reference {name rest : List Char} {more : List Segment} : (∀ c ∈ name, isReferenceChar c) →
    (∀ c ∈ rest.head?, isReferenceChar c = false) → FallsInto rest more →
    FallsInto ('$' :: (name ++ rest)) (.reference name :: more)

/-- The segments of a text, read from its front. -/
def segments : List Char → List Segment
  | [] => []
  | c :: rest =>
    if c = '$' then
      .reference (rest.takeWhile isReferenceChar) :: segments (rest.dropWhile isReferenceChar)
    else .run (c :: rest.takeWhile (· != '$')) :: segments (rest.dropWhile (· != '$'))
termination_by text => text.length
decreasing_by all_goals exact Nat.lt_succ_of_le (List.dropWhile_suffix _).length_le

/-- What is left behind a run begins with no item of its kind. -/
theorem head?_dropWhile {α : Type} {p : α → Bool} (xs : List α) :
    ∀ x ∈ (xs.dropWhile p).head?, p x = false := by
  intro x hx
  have h := List.head?_dropWhile_not p xs
  rw [hx] at h
  exact h

theorem fallsInto_segments (text : List Char) : FallsInto text (segments text) := by
  fun_induction segments text with
  | case1 => exact .nil
  | case2 rest ih =>
    have hname : ∀ c ∈ rest.takeWhile isReferenceChar, isReferenceChar c := fun c hc =>
      List.mem_takeWhile_imp hc
    have hsplit := FallsInto.reference hname (head?_dropWhile rest) ih
    rwa [List.takeWhile_append_dropWhile] at hsplit
  | case3 c rest hc ih =>
    have hrun : '$' ∉ c :: rest.takeWhile (· != '$') := by
      intro hmem
      rcases List.mem_cons.1 hmem with heq | hmem
      · exact hc heq.symm
      · simpa using List.mem_takeWhile_imp hmem
    have hrest : ∀ x ∈ (rest.dropWhile (· != '$')).head?, x = '$' := fun x hx => by
      simpa using head?_dropWhile rest x hx
    have hsplit := FallsInto.run (List.cons_ne_nil _ _) hrun hrest ih
    rwa [List.cons_append, List.takeWhile_append_dropWhile] at hsplit

theorem segments_eq {text : List Char} {parts : List Segment} (h : FallsInto text parts) :
    segments text = parts := by
  induction h with
  | nil => rw [segments]
  | @run text rest more hne hrun hrest _ ih =>
    obtain ⟨c, text, rfl⟩ := List.exists_cons_of_ne_nil hne
    have hc : c ≠ '$' := fun heq => hrun (heq ▸ List.mem_cons_self)
    have hrun' : ∀ x ∈ text, (x != '$') = true := fun x hx => by
      simpa using fun heq : x = '$' => hrun (heq ▸ List.mem_cons_of_mem c hx)
    have hrest' : ∀ x ∈ rest.head?, (x != '$') = false := fun x hx => by simpa using hrest x hx
    rw [List.cons_append, segments, if_neg hc, takeWhile_run hrun' hrest',
      dropWhile_run hrun' hrest', ih]
  | reference hname hrest _ ih =>
    rw [segments, if_pos rfl, takeWhile_run hname hrest, dropWhile_run hname hrest, ih]

/-- A text falls into its segments and into nothing else. -/
theorem fallsInto_iff {text : List Char} {parts : List Segment} :
    FallsInto text parts ↔ parts = segments text := by
  constructor
  · intro h
    exact (segments_eq h).symm
  · rintro rfl
    exact fallsInto_segments text

/-! ### What becomes of a segment -/

/-- What stands for a segment: a run stays, a reference becomes the value of the first parameter
with exactly its name, and stays as it is written if there is none. -/
inductive Becomes (parameters : List (String × String)) : Segment → List Char → Prop
  /-- A run stays. -/
  | run (text : List Char) : Becomes parameters (.run text) text
  /-- A parameter has the name, and none before it has. -/
  | replaced {before after : List (String × String)} {p : String × String} :
    parameters = before ++ p :: after → (∀ q ∈ before, q.1 ≠ p.1) →
    Becomes parameters (.reference p.1.toList) p.2.toList
  /-- No parameter has the name. -/
  | kept {name : List Char} : (∀ p ∈ parameters, p.1.toList ≠ name) →
    Becomes parameters (.reference name) ('$' :: name)

variable {parameters others : List (String × String)}

theorem Becomes.fill {name out : List Char} (h : Becomes parameters (.reference name) out) :
    (Piece.reference name).fill parameters = out := by
  cases h with
  | @replaced before after p hsplit hbefore =>
    have hfind : parameters.find? (fun q => q.1.toList = p.1.toList) = some p := by
      rw [List.find?_eq_some_iff_append]
      refine ⟨by simp, before, after, hsplit, fun q hq => ?_⟩
      simpa [String.toList_inj] using hbefore q hq
    rw [Piece.fill, hfind]
  | kept hnone =>
    have hfind : parameters.find? (fun p => p.1.toList = name) = none := by
      simpa using fun a b hab => hnone (a, b) hab
    rw [Piece.fill, hfind]

/-- Something becomes of every segment. -/
theorem exists_becomes (parameters : List (String × String)) (part : Segment) :
    ∃ out, Becomes parameters part out := by
  cases part with
  | run text => exact ⟨text, .run text⟩
  | reference name =>
    cases hfind : parameters.find? fun p => p.1.toList = name with
    | none =>
      refine ⟨_, .kept fun p hp => ?_⟩
      simpa using List.find?_eq_none.1 hfind p hp
    | some p =>
      obtain ⟨hname, before, after, hsplit, hbefore⟩ := List.find?_eq_some_iff_append.1 hfind
      obtain rfl : p.1.toList = name := by simpa using hname
      refine ⟨_, .replaced hsplit fun q hq heq => ?_⟩
      have hother := hbefore q hq
      simp [heq] at hother

/-- Where no two parameters have one name, any of them is the first. -/
theorem Becomes.of_mem (hnames : (parameters.map Prod.fst).Nodup) {p : String × String}
    (hp : p ∈ parameters) : Becomes parameters (.reference p.1.toList) p.2.toList := by
  obtain ⟨before, after, rfl⟩ := List.append_of_mem hp
  refine .replaced rfl fun q hq heq => ?_
  rw [List.map_append, List.map_cons, List.nodup_append] at hnames
  exact hnames.2.2 q.1 (List.mem_map_of_mem hq) p.1 List.mem_cons_self heq

/-- If no two parameters have one name, their order makes no difference. -/
theorem Becomes.perm (hperm : parameters.Perm others) (hnames : (parameters.map Prod.fst).Nodup)
    {part : Segment} {out : List Char} (h : Becomes parameters part out) :
    Becomes others part out := by
  cases h with
  | run => exact .run _
  | @replaced before after p hsplit _ =>
    have hp : p ∈ parameters := by simp [hsplit]
    exact .of_mem ((hperm.map Prod.fst).nodup_iff.1 hnames) (hperm.mem_iff.1 hp)
  | kept hnone => exact .kept fun p hp => hnone p (hperm.mem_iff.2 hp)

/-! ### The text put together -/

theorem pieces_run {text : List Char} (htext : '$' ∉ text) (rest : List Char) :
    pieces (text ++ rest) = text.map .plain ++ pieces rest := by
  induction text with
  | nil => rfl
  | cons c text ih =>
    obtain ⟨hc, htext⟩ := not_or.1 (mt List.mem_cons.2 htext)
    have hrest : piecesFrom none (text ++ rest) = text.map .plain ++ pieces rest := ih htext
    rw [List.cons_append, pieces, piecesFrom, if_neg (Ne.symm hc), hrest, List.map_cons,
      List.cons_append]

/-- A name is read on to its end, and nothing of it is lost. -/
theorem piecesFrom_name {rest : List Char} (hrest : ∀ c ∈ rest.head?, isReferenceChar c = false) :
    ∀ {name : List Char} (done : List Char), (∀ c ∈ name, isReferenceChar c) →
      piecesFrom (some done) (name ++ rest) = .reference (done.reverse ++ name) :: pieces rest
  | [], done, _ => by
    rw [List.nil_append, List.append_nil]
    cases rest with
    | nil => rfl
    | cons c rest =>
      rw [piecesFrom, hrest c rfl]
      rfl
  | c :: name, done, hname => by
    obtain ⟨hc, hname⟩ := List.forall_mem_cons.1 hname
    rw [List.cons_append, piecesFrom, if_pos hc, piecesFrom_name hrest (c :: done) hname]
    simp

theorem pieces_reference {name rest : List Char} (hname : ∀ c ∈ name, isReferenceChar c)
    (hrest : ∀ c ∈ rest.head?, isReferenceChar c = false) :
    pieces ('$' :: (name ++ rest)) = .reference name :: pieces rest := by
  rw [pieces, piecesFrom, if_pos rfl, piecesFrom_name hrest [] hname]
  rfl

theorem flatMap_fill {text : List Char} {parts : List Segment} (h : FallsInto text parts) :
    ∀ {values : List (List Char)}, List.Forall₂ (Becomes parameters) parts values →
      (pieces text).flatMap (Piece.fill parameters) = values.flatten := by
  induction h with
  | nil =>
    intro values hvalues
    cases hvalues
    rfl
  | @run text rest more _ hrun _ _ ih =>
    intro values hvalues
    cases hvalues with
    | cons hvalue hmore =>
      cases hvalue
      have hplain : (text.map Piece.plain).flatMap (Piece.fill parameters) = text := by
        rw [List.flatMap_map]
        exact List.flatMap_singleton' text
      rw [pieces_run hrun, List.flatMap_append, hplain, ih hmore, List.flatten_cons]
  | reference hname hrest _ ih =>
    intro values hvalues
    cases hvalues with
    | cons hvalue hmore =>
      rw [pieces_reference hname hrest, List.flatMap_cons, hvalue.fill, ih hmore,
        List.flatten_cons]

/-- What is substituted in a text is what becomes of its segments, one after the other. -/
theorem substitute_eq {text : String} {parts : List Segment} {values : List (List Char)}
    (h : FallsInto text.toList parts) (hvalues : List.Forall₂ (Becomes parameters) parts values) :
    substitute parameters text = String.ofList values.flatten := by
  rw [substitute, flatMap_fill h hvalues]

/-- Where no reference has the name of a parameter, nothing else becomes of the segments. -/
theorem exists_unchanged {text : List Char} {parts : List Segment} (h : FallsInto text parts)
    (hnone : ∀ name, .reference name ∈ parts → ∀ p ∈ parameters, p.1.toList ≠ name) :
    ∃ values, List.Forall₂ (Becomes parameters) parts values ∧ values.flatten = text := by
  induction h with
  | nil => exact ⟨[], .nil, rfl⟩
  | run _ _ _ _ ih =>
    obtain ⟨values, hvalues, rfl⟩ := ih fun name hname => hnone name (List.mem_cons_of_mem _ hname)
    exact ⟨_, .cons (.run _) hvalues, rfl⟩
  | reference _ _ _ ih =>
    obtain ⟨values, hvalues, rfl⟩ := ih fun name hname => hnone name (List.mem_cons_of_mem _ hname)
    exact ⟨_, .cons (.kept (hnone _ List.mem_cons_self)) hvalues, rfl⟩

/-- A text falls into runs and references in exactly one way, and what is substituted in it is what
becomes of these one by one, put one after the other. It stays as it is if no reference in it has
the name of a parameter; and if no two parameters have one name, they may come in any order. -/
theorem substitute_is_simultaneous (parameters : List (String × String)) (text : String) :
    ∃ parts, (∀ other, FallsInto text.toList other ↔ other = parts) ∧
      (∃ values, List.Forall₂ (Becomes parameters) parts values ∧
        (substitute parameters text).toList = values.flatten) ∧
      ((∀ name, .reference name ∈ parts → ∀ p ∈ parameters, p.1.toList ≠ name) →
        substitute parameters text = text) ∧
      ∀ others, parameters.Perm others → (parameters.map Prod.fst).Nodup →
        substitute others text = substitute parameters text := by
  have hparts : FallsInto text.toList (segments text.toList) := fallsInto_segments _
  obtain ⟨values, hvalues⟩ : ∃ values,
      List.Forall₂ (Becomes parameters) (segments text.toList) values :=
    exists_forall₂ fun part _ => exists_becomes parameters part
  have hsubstitute := substitute_eq hparts hvalues
  refine ⟨segments text.toList, fun other => fallsInto_iff, ⟨values, hvalues, ?_⟩, ?_, ?_⟩
  · rw [hsubstitute, String.toList_ofList]
  · intro hnone
    obtain ⟨same, hsame, hflatten⟩ := exists_unchanged hparts hnone
    rw [substitute_eq hparts hsame, hflatten, String.ofList_toList]
  · intro others hperm hnames
    have hothers := hvalues.imp fun _ _ hbecomes => Becomes.perm hperm hnames hbecomes
    rw [hsubstitute, substitute_eq hparts hothers]

/-- A name that is the front of another, a value that looks like a reference, a name that no
parameter has, and dollar signs without a name. -/
example : substitute [("a", "$b"), ("b", "x"), ("a-b", "y")] "$a+$a-b ($b$a$ab) $$" =
    "$b+y (x$b$ab) $$" := by
  decide +kernel

end MarkupRules.Schema
