/-
# What a pass through a text keeps

Reading a text adds nodes to a document one after the other. What holds of the document and of the
state of the pass, and is kept by each of the few things that a pass does, is kept by the whole
pass, however its functions call each other: it holds of every document that is read. The things
that are added are known to be well formed.

Key definitions: `Payload.IsRemark`, `Document.KeptAround`, `Progress.Kept`, `Progress.Holds`,
`innerScope`.

Key theorems: `startElement_eq_ok`, `endElement_eq_ok`, `takeContent_keeps`, `takeProlog_keeps`,
`Document.holds_of_chars`.
-/
import MarkupRules.Proofs.Markup.Taken

namespace MarkupRules.Markup

open Document (root)

/-! ### Around the element of a document -/

/-- What is added outside the element of a document: a comment or a processing instruction. -/
def Payload.IsRemark : Payload → Prop
  | comment s => IsRemarkText s
  | instruction target content => IsTarget target ∧ IsInstructionText content
  | _ => False

/-- What is kept when a comment or a processing instruction is added below the document node. -/
def Document.KeptAround (Q : Document → Prop) : Prop :=
  ∀ ⦃d : Document⦄ ⦃x : Payload⦄, x.IsRemark → Q d → Q (d.push root x).1

section Around

variable {Q : Document → Prop} (hQ : Document.KeptAround Q)

include hQ

theorem takeMisc_keeps : ∀ {fuel : Nat} {d d' : Document} {cs rest : List Char},
    takeMisc fuel d cs = .ok (d', rest) → Q d → Q d'
  | 0, d, d', cs, rest, h, hd => by
    cases h
    exact hd
  | fuel + 1, d, d', cs, rest, h, hd => by
    unfold takeMisc at h
    split at h
    · obtain ⟨⟨content, rest⟩, hremark, h⟩ := bind_eq_ok_iff.1 h
      exact takeMisc_keeps h (hQ (takeComment_isRemarkText hremark) hd)
    · obtain ⟨⟨⟨target, content⟩, rest⟩, hremark, h⟩ := bind_eq_ok_iff.1 h
      exact takeMisc_keeps h (hQ (takeInstruction_isInstruction hremark) hd)
    · cases h
      exact hd

theorem takeSubset_keeps : ∀ {fuel : Nat} {d d' : Document} {es es' : List Entity}
    {cs rest : List Char}, takeSubset fuel d es cs = .ok (d', es', rest) → Q d → Q d'
  | 0, d, d', es, es', cs, rest, h, hd => by cases h
  | fuel + 1, d, d', es, es', cs, rest, h, hd => by
    unfold takeSubset at h
    dsimp only at h
    split at h
    · obtain ⟨⟨entity, rest⟩, -, h⟩ := bind_eq_ok_iff.1 h
      exact takeSubset_keeps h hd
    · split at h
      · obtain ⟨rest, -, h⟩ := bind_eq_ok_iff.1 h
        exact takeSubset_keeps h hd
      · split at h
        · obtain ⟨⟨content, rest⟩, hremark, h⟩ := bind_eq_ok_iff.1 h
          exact takeSubset_keeps h (hQ (takeComment_isRemarkText hremark) hd)
        · obtain ⟨⟨⟨target, content⟩, rest⟩, hremark, h⟩ := bind_eq_ok_iff.1 h
          exact takeSubset_keeps h (hQ (takeInstruction_isInstruction hremark) hd)
        · obtain ⟨rest, -, h⟩ := bind_eq_ok_iff.1 h
          cases h
          exact hd
        · cases h
        · cases h

theorem takeDoctype_keeps {d d' : Document} {es : List Entity} {cs rest : List Char}
    (h : takeDoctype d cs = .ok (d', es, rest)) (hd : Q d) : Q d' := by
  unfold takeDoctype at h
  obtain ⟨cs, -, h⟩ := bind_eq_ok_iff.1 h
  obtain ⟨⟨name, cs⟩, -, h⟩ := bind_eq_ok_iff.1 h
  obtain ⟨⟨found, cs⟩, -, h⟩ := bind_eq_ok_iff.1 h
  dsimp only at h
  split at h
  · cases h
    exact hd
  · exact takeSubset_keeps hQ h hd
  · cases h
  · cases h

theorem takeProlog_keeps {d : Document} {es : List Entity} {cs rest : List Char}
    (h : takeProlog cs = .ok (d, es, rest)) (hempty : Q .empty) : Q d := by
  unfold takeProlog at h
  obtain ⟨⟨d₁, cs⟩, h₁, h⟩ := bind_eq_ok_iff.1 h
  have hd₁ : Q d₁ := takeMisc_keeps hQ h₁ hempty
  dsimp only at h
  split at h
  · obtain ⟨⟨d₂, es, cs⟩, h₂, h⟩ := bind_eq_ok_iff.1 h
    obtain ⟨⟨d₃, cs⟩, h₃, h⟩ := bind_eq_ok_iff.1 h
    cases h
    exact takeMisc_keeps hQ h₃ (takeDoctype_keeps hQ h₂ hd₁)
  · cases h
    exact hd₁

end Around

/-! ### Inside the element of a document -/

/-- The bindings in force inside an element that declares some. -/
def innerScope (declared outer : List Binding) : List Binding :=
  if declared = [] then outer else scopeWithin declared outer

section Steps

variable {p p' : Progress} {written : Qualified} {tag : TagContent} {isOpen : Bool}

/-- The start tag of an element adds it, with its names resolved under the bindings inside it. -/
theorem startElement_eq_ok (h : startElement p written tag isOpen = .ok p') :
    ∃ attributes uri,
      resolveAttributes (innerScope tag.bindings p.scope) [] tag.attributes = .ok attributes ∧
      uriOf (innerScope tag.bindings p.scope) written.label = .ok uri ∧
      p' =
        { p with
          doc := (p.doc.push p.parent (.element
            { name := nameIn (innerScope tag.bindings p.scope) uri written.localPart
              attributes
              bindings := (innerScope tag.bindings p.scope).filter
                fun b => !p.scope.contains b })).1
          path :=
            if isOpen then ⟨p.doc.size, written, innerScope tag.bindings p.scope⟩ :: p.path
            else p.path
          pending := .empty } := by
  unfold startElement at h
  obtain ⟨attributes, hattributes, h⟩ := bind_eq_ok_iff.1 h
  obtain ⟨uri, huri, h⟩ := bind_eq_ok_iff.1 h
  injection h with h
  exact ⟨attributes, uri, hattributes, huri, h.symm⟩

theorem startElement_pending (h : startElement p written tag isOpen = .ok p') :
    p'.pending = .empty := by
  obtain ⟨attributes, uri, -, -, rfl⟩ := startElement_eq_ok h
  rfl

/-- The end tag of an element closes the innermost open element. -/
theorem endElement_eq_ok (h : endElement p written = .ok p') :
    ∃ o path, p.path = o :: path ∧ p' = { p with path, pending := .empty } := by
  unfold endElement at h
  obtain ⟨attributes, -, h⟩ := bind_eq_ok_iff.1 h
  split at h
  · next o path hpath =>
    split at h
    · cases h
      exact ⟨o, path, hpath, rfl⟩
    · cases h
  · cases h

theorem endElement_pending (h : endElement p written = .ok p') : p'.pending = .empty := by
  obtain ⟨o, path, -, rfl⟩ := endElement_eq_ok h
  rfl

end Steps

/-- What each step of a pass keeps. -/
structure Progress.Kept (P : Progress → Prop) : Prop where
  /-- References are counted, and attributes wait for the next tag. -/
  wait : ∀ {p : Progress} (references : Nat) (pending : TagContent), P p →
    P { p with references, pending }
  /-- A comment or a processing instruction is added. -/
  add : ∀ {p : Progress} {x : Payload}, x.IsRemark → P p → P (p.add x)
  /-- Character data is added. -/
  addText : ∀ {p : Progress} {content : List Char}, (∀ c ∈ content, isMarkupChar c) → P p →
    P (p.addText content)
  /-- An element is added. -/
  startElement : ∀ {p p' : Progress} {written : Qualified} {tag : TagContent} {isOpen : Bool},
    startElement p written tag isOpen = .ok p' → Spelled written.label written.localPart →
      tag.Proper → P p → P p'
  /-- An element is closed. -/
  endElement : ∀ {p p' : Progress} {written : Qualified},
    endElement p written = .ok p' → P p → P p'

/-- A property of the pass, while what waits for the next tag is proper. -/
structure Progress.Holds (P : Progress → Prop) (p : Progress) : Prop where
  /-- The property itself. -/
  holds : P p
  /-- What waits for the next tag. -/
  pending : p.pending.Proper

section Inside

variable {P : Progress → Prop} (hP : Progress.Kept P)

include hP

theorem Progress.Kept.recount {p : Progress} (references : Nat) (hp : p.Holds P) :
    Progress.Holds P { p with references } :=
  ⟨hP.wait references p.pending hp.holds, hp.pending⟩

theorem takeElement_keeps {entities : List Entity} {levels : Nat} {nested isOpen : Bool}
    {p p' : Progress} {cs rest : List Char}
    (h : takeElement entities levels nested p cs = .ok (p', isOpen, rest)) (hp : p.Holds P) :
    p'.Holds P := by
  unfold takeElement at h
  obtain ⟨⟨written, cs⟩, hwritten, h⟩ := bind_eq_ok_iff.1 h
  dsimp only at h
  split at h
  · cases h
  · obtain ⟨⟨tag, ending, references, cs⟩, htake, h⟩ := bind_eq_ok_iff.1 h
    have htag : tag.Proper := takeTag_proper htake hp.pending
    dsimp only at h
    split at h
    · cases h
      exact ⟨hP.wait _ _ hp.holds, htag⟩
    · obtain ⟨q, hq, h⟩ := bind_eq_ok_iff.1 h
      cases h
      have hqkeeps := hP.startElement hq (takeQualified_spelled hwritten) htag
        (hP.recount references hp).holds
      exact ⟨hqkeeps, startElement_pending hq ▸ TagContent.proper_empty⟩

/-- Reading the value of an entity keeps a property. -/
def Expand.Keeps (P : Progress → Prop) (expand : Expand) : Prop :=
  ∀ (p p' : Progress) (cs : List Char), expand p cs = .ok p' → p.Holds P → p'.Holds P

theorem takeText_keeps {entities : List Entity} {expand : Expand} (hexpand : expand.Keeps P)
    {nested : Bool} : ∀ {fuel : Nat} {p p' : Progress} {buffer : List Char} {raw : Bool}
    {cs : List Char}, takeText entities expand nested fuel p buffer raw cs = .ok p' →
      (∀ c ∈ buffer, isMarkupChar c) → (∀ c ∈ cs, isMarkupChar c) → p.Holds P → p'.Holds P
  | 0, p, p', buffer, raw, cs, h, _, _, hp => by
    cases h
    exact hp
  | fuel + 1, p, p', buffer, raw, cs, h, hbuffer, hcs, hp => by
    -- What was collected is added at the end, and before the value of an entity is read.
    have hflush : Progress.Holds P (if buffer = [] then p else p.addText buffer.reverse) := by
      split
      · exact hp
      · exact ⟨hP.addText (by simpa using hbuffer) hp.holds, hp.pending⟩
    unfold takeText at h
    split at h
    · cases h
      exact hflush
    · next c rest =>
      obtain ⟨hc, hrest⟩ := List.forall_mem_cons.1 hcs
      split at h
      · refine takeText_keeps hexpand h ?_ hrest hp
        split
        · exact List.forall_mem_cons.2 ⟨hc, hbuffer⟩
        · exact pushTextChar_isMarkupChar hbuffer hc _
      · obtain ⟨⟨reference, rest'⟩, hreference, h⟩ := bind_eq_ok_iff.1 h
        have hrest' : ∀ c ∈ rest', isMarkupChar c := fun c hc =>
          hrest c (takeReference_subset hreference hc)
        dsimp only at h
        split at h
        · have hd := takeReference_isMarkupChar hreference
          split at h
          · exact takeText_keeps hexpand h (pushTextChar_isMarkupChar hbuffer hd _) hrest' hp
          · exact takeText_keeps hexpand h (List.forall_mem_cons.2 ⟨hd, hbuffer⟩) hrest' hp
        · split at h
          · cases h
          · obtain ⟨references, -, h⟩ := bind_eq_ok_iff.1 h
            obtain ⟨q, hq, h⟩ := bind_eq_ok_iff.1 h
            have hqkeeps : q.Holds P := hexpand _ _ _ hq (hP.recount _ hflush)
            refine takeText_keeps hexpand h (by simp) hrest' ?_
            split
            · exact hqkeeps
            · exact hP.recount _ hqkeeps

theorem takeContent_keeps {entities : List Entity} {levels : Nat} {expand : Expand}
    (hexpand : expand.Keeps P) {nested : Bool} : ∀ {fuel : Nat} {p p' : Progress} {depth : Nat}
    {tagged : Bool} {cs rest : List Char},
    takeContent entities levels expand nested fuel p depth tagged cs = .ok (p', rest) →
      p.Holds P → p'.Holds P
  | 0, p, p', depth, tagged, cs, rest, h, hp => by
    cases h
    exact hp
  | fuel + 1, p, p', depth, tagged, cs, rest, h, hp => by
    unfold takeContent at h
    split at h
    · cases h
      exact hp
    · split at h
      · obtain ⟨⟨content, rest⟩, hremark, h⟩ := bind_eq_ok_iff.1 h
        exact takeContent_keeps hexpand h
          ⟨hP.add (takeComment_isRemarkText hremark) hp.holds, hp.pending⟩
      · split at h
        · obtain ⟨⟨content, rest⟩, hcontent, h⟩ := bind_eq_ok_iff.1 h
          have hmarkup := normalizeLines_isMarkupChar (takeUntil_eq_ok hcontent).2.1
          exact takeContent_keeps hexpand h ⟨hP.addText hmarkup hp.holds, hp.pending⟩
        · cases h
    · obtain ⟨⟨⟨target, content⟩, rest⟩, hremark, h⟩ := bind_eq_ok_iff.1 h
      exact takeContent_keeps hexpand h
        ⟨hP.add (takeInstruction_isInstruction hremark) hp.holds, hp.pending⟩
    · obtain ⟨⟨written, rest⟩, -, h⟩ := bind_eq_ok_iff.1 h
      obtain ⟨rest, -, h⟩ := bind_eq_ok_iff.1 h
      split at h
      · cases h
      · obtain ⟨q, hq, h⟩ := bind_eq_ok_iff.1 h
        have hqkeeps : q.Holds P :=
          ⟨hP.endElement hq hp.holds, endElement_pending hq ▸ TagContent.proper_empty⟩
        split at h
        · cases h
          exact hqkeeps
        · exact takeContent_keeps hexpand h hqkeeps
    · cases h
    · obtain ⟨⟨q, isOpen, rest⟩, hq, h⟩ := bind_eq_ok_iff.1 h
      exact takeContent_keeps hexpand h (takeElement_keeps hP hq hp)
    · obtain ⟨⟨⟩, hcheck, h⟩ := bind_eq_ok_iff.1 h
      obtain ⟨q, hq, h⟩ := bind_eq_ok_iff.1 h
      have hchunk := checkText_isMarkupChar hcheck
      exact takeContent_keeps hexpand h (takeText_keeps hP hexpand hq (by simp) hchunk hp)

theorem expandEntity_keeps (entities : List Entity) :
    ∀ levels : Nat, (expandEntity entities levels).Keeps P
  | 0, p, p', cs, h, _ => by cases h
  | levels + 1, p, p', cs, h, hp => by
    unfold expandEntity at h
    obtain ⟨⟨q, rest⟩, hq, rfl⟩ := map_eq_ok_iff.1 h
    exact takeContent_keeps hP (expandEntity_keeps entities levels) hq hp

theorem takeRootElement_keeps {entities : List Entity} {d : Document} {p : Progress}
    {cs rest : List Char} (h : takeRootElement entities d cs = .ok (p, rest))
    (hd : P (.start d)) : P p := by
  have hstart : Progress.Holds P (.start d) := ⟨hd, TagContent.proper_empty⟩
  unfold takeRootElement at h
  split at h
  · obtain ⟨⟨q, isOpen, cs⟩, hq, h⟩ := bind_eq_ok_iff.1 h
    have hqkeeps := takeElement_keeps hP hq hstart
    dsimp only at h
    split at h
    · exact (takeContent_keeps hP (expandEntity_keeps hP entities entityLevels) h hqkeeps).holds
    · cases h
      exact hqkeeps.holds
  · cases h
    exact hd

end Inside

/-! ### Documents that are read -/

/-- What holds of the empty document and is kept by every step of reading holds of a document that
is read. -/
theorem Document.holds_of_chars {Q : Document → Prop} {P : Progress → Prop}
    (hempty : Q .empty) (haround : KeptAround Q) (hstart : ∀ d, Q d → P (.start d))
    (hinside : Progress.Kept P) (hdoc : ∀ p, P p → Q p.doc) {cs : List Char} {d : Document}
    (h : ofChars cs = .ok d) : Q d := by
  unfold ofChars at h
  obtain ⟨cs, -, h⟩ := bind_eq_ok_iff.1 h
  obtain ⟨⟨d₁, entities, cs⟩, h₁, h⟩ := bind_eq_ok_iff.1 h
  obtain ⟨⟨p, cs⟩, hp, h⟩ := bind_eq_ok_iff.1 h
  obtain ⟨⟨d₂, cs⟩, h₂, h⟩ := bind_eq_ok_iff.1 h
  have hp' : P p := takeRootElement_keeps hinside hp
    (hstart d₁ (takeProlog_keeps haround h₁ hempty))
  have hd₂ : Q d₂ := takeMisc_keeps haround h₂ (hdoc p hp')
  dsimp only at h
  split at h
  · cases h
  · split at h
    · cases h
    · split at h
      · cases h
      · cases h
        exact hd₂

end MarkupRules.Markup
