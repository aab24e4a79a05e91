/-
# How long a chain of references gets

A walk only ever stands in its schema and in documents that are read from the files, and what it
is following has a locator that is a path and a fragment that is the value of an attribute in one
of them. It follows nothing twice, so the chain of what it is following is no longer than there are
locators and fragments. Hence references are never resolved with too few levels.

Key definitions: `shortTexts`, `IsLocator`, `Walk.Sound`.

Key theorems: `mem_texts_of_readText`, `Walk.Sound.of_goes`, `Walk.Sound.chain_le`,
`resolveReferences_eq_circular_iff`.
-/
import Mathlib.Data.List.Perm.Subperm
import Mathlib.Data.List.ProdSigma
import Mathlib.Data.String.Basic
import MarkupRules.Proofs.Markup.Subtrees
import MarkupRules.Proofs.Query.Places
import MarkupRules.Proofs.Schema.Inclusion

namespace MarkupRules

open Markup (Document NodeId Tree)

/-! ### What is read from files -/

namespace Files

theorem texts_of_mem {name : String} {e : Entry} : ∀ {es : List (String × Entry)},
    (name, e) ∈ es → ∀ text ∈ e.texts, text ∈ Entry.textsOfAll es
  | (name', e') :: es, hmem, text, htext => by
    rw [Entry.textsOfAll, List.mem_append]
    rcases List.mem_cons.1 hmem with heq | hmem
    · obtain ⟨rfl, rfl⟩ := Prod.mk.inj heq
      exact .inl htext
    · exact .inr (texts_of_mem hmem text htext)

theorem texts_of_child? {e c : Entry} {name : String} (h : e.child? name = some c) :
    ∀ text ∈ c.texts, text ∈ e.texts := by
  obtain ⟨⟨name', c'⟩, hfind, rfl⟩ := Option.map_eq_some_iff.1 h
  have hmem := List.mem_of_find?_eq_some hfind
  cases e with
  | file text => cases hmem
  | directory es => exact texts_of_mem hmem

/-- Every entry of a chain of directories holds only texts of the root. -/
def Inside (fs : Files) (chain : List Entry) : Prop :=
  ∀ e ∈ chain, ∀ text ∈ e.texts, text ∈ fs.root.texts

theorem inside_follow {fs : Files} {chain chain' : List Entry} {name : String}
    (h : follow chain name = .ok chain') (hchain : fs.Inside chain) : fs.Inside chain' := by
  unfold follow at h
  split at h
  · cases h
  · cases h
  · next e above _ =>
    split at h
    · cases h
      exact hchain
    · split at h
      · cases h
        split
        · exact hchain
        · exact fun e he => hchain e (List.mem_cons_of_mem _ he)
      · split at h
        · cases h
        · split at h
          · next c hc =>
            cases h
            refine List.forall_mem_cons.2 ⟨fun text htext => ?_, hchain⟩
            exact hchain e List.mem_cons_self text (texts_of_child? hc text htext)
          · cases h

theorem inside_followAll {fs : Files} : ∀ {names : List String} {chain chain' : List Entry},
    followAll chain names = .ok chain' → fs.Inside chain → fs.Inside chain'
  | [], _, _, h, hchain => by
    cases h
    exact hchain
  | name :: names, chain, chain', h, hchain => by
    unfold followAll at h
    obtain ⟨next, hnext, h⟩ := bind_eq_ok_iff.1 h
    exact inside_followAll h (inside_follow hnext hchain)

/-- What a chain of directories ends with is at its head. -/
theorem exists_of_last {chain : List Entry} {e : Entry}
    (h : (match chain with
      | e :: _ => Except.ok e
      | [] => Except.error FileFault.notFound) = .ok e) : ∃ above, chain = e :: above := by
  cases chain with
  | nil => cases h
  | cons top above =>
    cases h
    exact ⟨above, rfl⟩

/-- What a path leads to is a path short enough, and holds texts of the root. -/
theorem texts_of_find {fs : Files} {path : String} {e : Entry} (h : fs.find path = .ok e) :
    path.utf8ByteSize ≤ pathLimit ∧ ∀ text ∈ e.texts, text ∈ fs.root.texts := by
  have hroot : fs.Inside [fs.root] := by simp [Inside]
  unfold find at h
  split at h
  · cases h
  · split at h
    · cases h
    · split at h
      · cases h
      · next hsize =>
        refine ⟨Nat.le_of_not_lt hsize, ?_⟩
        dsimp only at h
        split at h
        · rw [ok_bind] at h
          obtain ⟨chain, hchain, h⟩ := bind_eq_ok_iff.1 h
          obtain ⟨above, rfl⟩ := exists_of_last h
          exact inside_followAll hchain hroot _ List.mem_cons_self
        · obtain ⟨start, hstart, h⟩ := bind_eq_ok_iff.1 h
          obtain ⟨chain, hchain, h⟩ := bind_eq_ok_iff.1 h
          obtain ⟨above, rfl⟩ := exists_of_last h
          exact inside_followAll hchain (inside_followAll hstart hroot) _ List.mem_cons_self

theorem mem_texts_of_readText {fs : Files} {path text : String} (h : fs.readText path = .ok text) :
    path.utf8ByteSize ≤ pathLimit ∧ text ∈ fs.root.texts := by
  unfold readText at h
  obtain ⟨e, he, h⟩ := bind_eq_ok_iff.1 h
  obtain ⟨hsize, htexts⟩ := texts_of_find he
  split at h
  · cases h
    exact ⟨hsize, htexts text (by simp [Entry.texts])⟩
  · cases h
  · cases h

end Files

/-! ### How many texts there are -/

/-- All texts of at most so many characters of a list. -/
def shortTexts (cs : List Char) : Nat → List (List Char)
  | 0 => [[]]
  | n + 1 => [] :: (cs ×ˢ shortTexts cs n).map fun p => p.1 :: p.2

theorem mem_shortTexts {cs : List Char} (hcs : ∀ c, c ∈ cs) : ∀ {n : Nat} {text : List Char},
    text.length ≤ n → text ∈ shortTexts cs n
  | 0, text, h => by
    rw [List.eq_nil_of_length_eq_zero (Nat.le_zero.1 h)]
    exact List.mem_singleton_self _
  | n + 1, [], _ => List.mem_cons_self
  | n + 1, c :: text, h => by
    refine List.mem_cons_of_mem _ (List.mem_map.2 ⟨(c, text), ?_, rfl⟩)
    exact List.mem_product.2 ⟨hcs c, mem_shortTexts hcs (Nat.le_of_succ_le_succ h)⟩

theorem length_shortTexts (cs : List Char) : ∀ n : Nat,
    (shortTexts cs n).length ≤ Nat.pow (cs.length + 1) n
  | 0 => Nat.le_refl 1
  | n + 1 => by
    have hone : 1 ≤ Nat.pow (cs.length + 1) n := Nat.one_le_pow _ _ (Nat.succ_pos _)
    have hmore := Nat.mul_le_mul_left cs.length (length_shortTexts cs n)
    have hpow : Nat.pow (cs.length + 1) (n + 1) = Nat.pow (cs.length + 1) n * (cs.length + 1) := rfl
    rw [shortTexts, List.length_cons, List.length_map, List.length_product, hpow,
      Nat.mul_comm _ (cs.length + 1), Nat.succ_mul]
    omega

/-- All characters. -/
def allChars : List Char :=
  (List.range 0x110000).map Char.ofNat

theorem mem_allChars (c : Char) : c ∈ allChars := by
  refine List.mem_map.2 ⟨c.toNat, List.mem_range.2 ?_, Char.ofNat_toNat c⟩
  rcases c.valid with h | ⟨-, h⟩
  · exact Nat.lt_of_lt_of_le h (by simp)
  · exact h

/-- All texts that a path can be. -/
def allPaths : List String :=
  (shortTexts allChars Files.pathLimit).map String.ofList

theorem length_allPaths : allPaths.length ≤ Files.pathCount := by
  have hchars : allChars.length = 0x110000 := by
    rw [allChars, List.length_map, List.length_range]
  have hshort := length_shortTexts allChars Files.pathLimit
  rw [hchars] at hshort
  unfold Files.pathCount
  rwa [allPaths, List.length_map]

theorem length_le_utf8Len : ∀ cs : List Char, cs.length ≤ String.utf8Len cs
  | [] => Nat.zero_le _
  | c :: cs => by
    have hc := c.utf8Size_pos
    have hcs := length_le_utf8Len cs
    rw [String.utf8Len_cons, List.length_cons]
    omega

theorem mem_allPaths {path : String} (h : path.utf8ByteSize ≤ Files.pathLimit) :
    path ∈ allPaths := by
  rw [← String.ofList_toList (s := path), String.utf8ByteSize_ofList] at h
  refine List.mem_map.2 ⟨path.toList, mem_shortTexts mem_allChars ?_, String.ofList_toList⟩
  exact Nat.le_trans (length_le_utf8Len _) h

namespace Schema

open Markup.Tree (mem_subtreesOfAll mem_subtrees)

variable {files : Files} {schema : Document} {d : Document} {r : String}

/-! ### Where a walk stands -/

/-- A locator of the schema, or one that is a path. -/
def IsLocator (schema : Document) (locator : String) : Prop :=
  locator.utf8ByteSize ≤ Files.pathLimit ∨ locator = schema.origin.getD ""

/-- The document is the schema or one that is read from the files, but for its locator. -/
def IsSource (files : Files) (schema d : Document) : Prop :=
  ∃ source ∈ documentsOf files schema, d.nodes = source.nodes

/-- What holds wherever a walk from a schema stands. -/
structure Walk.Sound (files : Files) (schema : Document) (w : Walk) : Prop where
  /-- It stands in the schema or in a document that is read from the files. -/
  source : IsSource files schema w.document
  /-- The locator of the document is that of the schema or a path. -/
  locator : IsLocator schema (w.document.origin.getD "")
  /-- What it follows has such a locator, and a fragment that some attribute has as its value. -/
  chain : ∀ g ∈ w.chain, IsLocator schema g.locator ∧
    ∀ id, g.fragment = some id → id ∈ possibleFragments files schema
  /-- It follows nothing twice. -/
  nodup : w.keys.Nodup
  /-- Its trees are trees of the document. -/
  parts : ∀ s ∈ Tree.subtreesOfAll w.forest, ∃ m, s.payload = w.document.payload m

theorem attributeValues_congr {d d' : Document} (h : d.nodes = d'.nodes) :
    attributeValues d = attributeValues d' := by
  obtain ⟨nodes, origin⟩ := d
  obtain rfl : nodes = d'.nodes := h
  rfl

/-- A document that a reference leads to is the one it stands in, or is read from the files. -/
theorem openDocument_eq_ok {reference path : String} {found : Document}
    (h : openDocument files d reference path = .ok found) :
    path = "" ∧ found = d ∨
      path ≠ "" ∧ ∃ text, files.readText (Path.resolve d.origin path) = .ok text ∧
        Document.read text (some (Path.resolve d.origin path)) = .ok found := by
  unfold openDocument at h
  split at h
  · next hpath =>
    cases h
    exact .inl ⟨hpath, rfl⟩
  · next hpath =>
    refine .inr ⟨hpath, ?_⟩
    split at h
    · next hload =>
      cases h
      unfold Source.load Source.ofPath at hload
      dsimp only at hload
      split at hload
      · next text htext =>
        refine ⟨text, htext, ?_⟩
        unfold Source.readText at hload
        split at hload
        · next hread =>
          cases hload
          exact hread
        · cases hload
      · cases hload
    · cases h

theorem isSource_of_read {path text : String} {found : Document}
    (htext : files.readText path = .ok text) (hread : Document.read text (some path) = .ok found) :
    IsSource files schema found ∧ found.origin = some path ∧
      path.utf8ByteSize ≤ Files.pathLimit := by
  obtain ⟨hsize, hmem⟩ := Files.mem_texts_of_readText htext
  obtain ⟨plain, hplain, rfl⟩ := map_eq_ok_iff.1 hread
  have hsource : plain.withOrigin none ∈ documentsOf files schema := by
    refine List.mem_cons_of_mem _ (List.mem_filterMap.2 ⟨text, hmem, ?_⟩)
    rw [Document.read, hplain]
    rfl
  exact ⟨⟨_, hsource, rfl⟩, rfl, hsize⟩

theorem mem_attributeValues {n : NodeId} {fragment reference : String}
    (h : findElement d reference (some fragment) = .ok n) : fragment ∈ attributeValues d := by
  unfold findElement at h
  dsimp only at h
  split at h
  · next m hm =>
    have hany := List.find?_some hm
    obtain ⟨a, ha, hvalue⟩ := List.any_eq_true.1 hany
    obtain ⟨rfl, -⟩ : a.value = fragment ∧ _ := by simpa using hvalue
    refine List.mem_flatMap.2 ⟨m, List.mem_range.2 ?_, List.mem_map_of_mem ha⟩
    refine Nat.lt_of_not_le fun hm => ?_
    rw [Query.attributes_eq_nil hm] at ha
    cases ha
  · cases h

theorem Walk.keys_start (schema : Document) :
    (Walk.start schema).keys = schema.origin.toList := by
  cases h : schema.origin <;> simp [Walk.start, Walk.keys, Frame.key, h]

/-- The trees inside what is put in the place of a reference are trees of the document to which it
leads. -/
theorem payload_of_mem_replacement {t s : Tree} {target : Target}
    (hs : s ∈ Tree.subtreesOfAll (replacement t target)) :
    ∃ m, s.payload = target.document.payload m := by
  refine Document.payload_of_mem_subtrees (n := target.node) ?_
  unfold replacement at hs
  split at hs
  · obtain ⟨u, hu, hs⟩ := mem_subtreesOfAll.1 hs
    rwa [List.mem_singleton.1 hu] at hs
  · exact mem_subtrees.2 (.inr hs)

/-- The trees inside what is walked below a tree are inside it. -/
theorem mem_subtrees_of_partsBelow {t s : Tree} (hs : s ∈ Tree.subtreesOfAll (partsBelow t)) :
    s ∈ t.subtrees := by
  have hparts : partsBelow t = t.children ∨ partsBelow t = [] := by
    unfold partsBelow
    split
    · exact .inl rfl
    · split
      · exact .inr rfl
      · exact .inl rfl
    · exact .inr rfl
  rcases hparts with heq | heq
  · rw [heq] at hs
    exact mem_subtrees.2 (.inr hs)
  · rw [heq] at hs
    cases hs

theorem Walk.Sound.start (files : Files) (schema : Document) :
    (Walk.start schema).Sound files schema where
  source := ⟨schema, List.mem_cons_self, rfl⟩
  locator := .inr rfl
  chain := by
    intro g hg
    obtain ⟨origin, horigin, rfl⟩ := List.mem_map.1 hg
    rw [Option.mem_toList] at horigin
    exact ⟨.inr (by rw [horigin]; rfl), nofun⟩
  nodup := by
    rw [Walk.keys_start]
    cases schema.origin <;> simp
  parts := by
    intro s hs
    obtain ⟨t, ht, hs⟩ := mem_subtreesOfAll.1 hs
    rw [List.mem_singleton.1 ht] at hs
    exact Document.payload_of_mem_subtrees hs

theorem Walk.Sound.of_goes {w w' : Walk} (hw : w.Sound files schema) (h : w.Goes files w') :
    w'.Sound files schema := by
  cases h with
  | @across d chain t rest r target href htarget =>
    obtain ⟨hopen, hkey, hnew, hnode⟩ := locate_eq_ok htarget
    -- A reference leads to the document it stands in, or to a file that is read.
    obtain ⟨hsource, hlocator⟩ : IsSource files schema target.document ∧
        IsLocator schema (target.document.origin.getD "") := by
      rcases openDocument_eq_ok hopen with ⟨-, hsame⟩ | ⟨-, text, htext, hread⟩
      · rw [hsame]
        exact ⟨hw.source, hw.locator⟩
      · obtain ⟨hsource, horigin, hsize⟩ := @isSource_of_read _ schema _ _ _ htext hread
        rw [horigin]
        exact ⟨hsource, .inl hsize⟩
    have hfragment : ∀ id, (frameOf target.document r).fragment = some id →
        id ∈ possibleFragments files schema := by
      intro id hid
      obtain ⟨source, hmem, hnodes⟩ := hsource
      rw [show (splitReference r).2 = some id from hid] at hnode
      rw [possibleFragments, List.mem_flatMap]
      exact ⟨source, hmem, attributeValues_congr hnodes ▸ mem_attributeValues hnode⟩
    exact {
      source := hsource
      locator := hlocator
      chain := List.forall_mem_cons.2 ⟨⟨hlocator, hfragment⟩, hw.chain⟩
      nodup := List.nodup_cons.2 ⟨hkey ▸ hnew, hw.nodup⟩
      parts := fun s hs => payload_of_mem_replacement hs }
  | @down d chain t rest href =>
    refine ⟨hw.source, hw.locator, hw.chain, hw.nodup, fun s hs => hw.parts s ?_⟩
    exact mem_subtreesOfAll.2 ⟨t, List.mem_cons_self, mem_subtrees_of_partsBelow hs⟩
  | @on d chain t rest here levels hhere =>
    refine ⟨hw.source, hw.locator, hw.chain, hw.nodup, fun s hs => hw.parts s ?_⟩
    obtain ⟨u, hu, hs⟩ := mem_subtreesOfAll.1 hs
    exact mem_subtreesOfAll.2 ⟨u, List.mem_cons_of_mem t hu, hs⟩

theorem Walk.Sound.of_reaches {w w' : Walk} (hw : w.Sound files schema)
    (h : w.Reaches files w') : w'.Sound files schema := by
  induction h with
  | refl => exact hw
  | tail _ hgoes ih => exact ih.of_goes hgoes

/-- What a walk follows is no longer than there are locators and fragments. -/
theorem Walk.Sound.chain_le {w : Walk} (hw : w.Sound files schema) :
    w.chain.length ≤ chainLimit files schema := by
  let locators := schema.origin.getD "" :: allPaths
  let fragments := none :: (possibleFragments files schema).map some
  have hinside : w.chain.map (fun g => (g.locator, g.fragment)) ⊆ locators ×ˢ fragments := by
    intro p hp
    obtain ⟨g, hg, rfl⟩ := List.mem_map.1 hp
    obtain ⟨hlocator, hfragment⟩ := hw.chain g hg
    refine List.mem_product.2 ⟨?_, ?_⟩
    · rcases hlocator with hsize | heq
      · exact List.mem_cons_of_mem _ (mem_allPaths hsize)
      · exact heq ▸ List.mem_cons_self
    · cases hid : g.fragment with
      | none => exact List.mem_cons_self
      | some id => exact List.mem_cons_of_mem _ (List.mem_map_of_mem (hfragment id hid))
  have hnodup : (w.chain.map fun g => (g.locator, g.fragment)).Nodup := by
    refine (List.Nodup.of_map _ hw.nodup).map fun g g' heq => ?_
    obtain ⟨hlocator, hfragment⟩ := Prod.mk.inj heq
    obtain ⟨locator, fragment⟩ := g
    rw [Frame.mk.injEq]
    exact ⟨hlocator, hfragment⟩
  have hle := (List.subperm_of_subset hnodup hinside).length_le
  rw [List.length_map, List.length_product] at hle
  refine Nat.le_trans hle (Nat.mul_le_mul ?_ ?_)
  · rw [List.length_cons]
    exact Nat.add_le_add_right length_allPaths 1
  · rw [List.length_cons, List.length_map]

/-- References are resolved with enough levels to find exactly the circles to which a walk comes. -/
theorem resolveReferences_eq_circular_iff :
    resolveReferences files schema = .error (.circular r) ↔
      ∃ w, (Walk.start schema).Reaches files w ∧ w.Repeats files r := by
  have hstart : resolveReferences files schema = (do
      let forest ← (Walk.start schema).run files (chainLimit files schema + 1)
      .ok (Document.ofForest forest)) := by
    rw [Walk.run, Walk.keys_start]
    rfl
  have hshort : ∀ more, chainLimit files schema + 1 ≤ more →
      ¬ (Walk.start schema).RunsOut files more := by
    rintro more hmore ⟨w, hreach, hlength⟩
    have hle := ((Walk.Sound.start files schema).of_reaches hreach).chain_le
    omega
  rw [← run_eq_circular_iff hshort, hstart, bind_eq_error_iff]
  simp

end Schema

end MarkupRules
