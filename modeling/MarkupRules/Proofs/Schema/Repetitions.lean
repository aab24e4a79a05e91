/-
# Repetitions along a chain of references

A walk meets only references of its schema and of the documents in the files. What it is following
is compared by locators as they are written, so a repetition is one if the same locator comes
back. Where all locators are direct paths from one directory, the same file has the same locator,
and every chain that comes back to a file and fragment is reported. A reference with a detour
through a directory and back gives its own file a longer locator each time, and such a chain ends
only where the locator is too long for a path.

Key definitions: `references`, `Frame.spot`, `SpeltDirectly`, `detourPath`, `Walk.Detoured`.

Key theorems: `Walk.Sound.reference_mem`, `Walk.Direct.of_goes`, `inclusion_reports_repetitions`,
`resolve_detour`, `detour_is_no_repetition`.
-/
import MarkupRules.Proofs.Schema.Chains
import MarkupRules.Proofs.Storage.Paths

namespace MarkupRules.Schema

open Markup (Document NodeId Tree)

variable {files : Files} {schema d : Document} {r : String} {absolute : Bool}

/-! ### The references that a walk meets -/

/-- The references of a document. -/
def references (d : Document) : List String :=
  (List.range d.size).filterMap fun n => referenceOf? (.node (d.payload n) [])

theorem referenceOf?_congr {t t' : Tree} (h : t.payload = t'.payload) :
    referenceOf? t = referenceOf? t' := by
  obtain ⟨payload, below⟩ := t
  obtain ⟨payload', below'⟩ := t'
  obtain rfl : payload = payload' := h
  rfl

theorem mem_references {t : Tree} {m : NodeId} (hpayload : t.payload = d.payload m)
    (href : referenceOf? t = some r) : r ∈ references d := by
  have hnode : referenceOf? (.node (d.payload m) []) = some r :=
    (referenceOf?_congr hpayload).symm.trans href
  refine List.mem_filterMap.2 ⟨m, List.mem_range.2 (Nat.lt_of_not_le fun hm => ?_), hnode⟩
  have hpast : d.payload m = .document := by
    simp [Document.payload, Document.getElem?_eq_none hm]
  rw [hpast] at hnode
  cases hnode

theorem references_congr {d d' : Document} (h : d.nodes = d'.nodes) :
    references d = references d' := by
  obtain ⟨nodes, origin⟩ := d
  obtain rfl : nodes = d'.nodes := h
  rfl

/-- A reference before which a walk stands is one of the schema or of a document in the files. -/
theorem Walk.Sound.reference_mem {w : Walk} {t : Tree} {rest : List Tree}
    (hw : w.Sound files schema) (hforest : w.forest = t :: rest)
    (href : referenceOf? t = some r) : ∃ source ∈ documentsOf files schema,
      r ∈ references source := by
  obtain ⟨source, hsource, hnodes⟩ := hw.source
  obtain ⟨m, hm⟩ := hw.parts t <| by
    rw [hforest]
    exact Tree.mem_subtreesOfAll.2 ⟨t, List.mem_cons_self, t.self_mem_subtrees⟩
  exact ⟨source, hsource, references_congr hnodes ▸ mem_references hm href⟩

/-! ### Locators that are direct paths -/

/-- Where what is followed is: the spot of its document in the files, and its fragment. -/
def Frame.spot (files : Files) (g : Frame) : List (List Char) × Option String :=
  (Path.spot files.here g.locator, g.fragment)

/-- The schema is known by a direct path, and its references and those of the documents in the
files have direct paths. If it is known by a relative path, the references have relative ones. -/
structure SpeltDirectly (files : Files) (schema : Document) (absolute : Bool) : Prop where
  /-- The schema is known by such a path. -/
  origin : ∃ origin, schema.origin = some origin ∧ Path.IsDirect absolute origin
  /-- The references have such paths, or none. -/
  references : ∀ d ∈ documentsOf files schema, ∀ r ∈ references d, (splitReference r).1 = "" ∨
    Path.IsDirect false (splitReference r).1 ∨
      absolute = true ∧ Path.IsDirect true (splitReference r).1

/-- The walk stands in a document that is known by a direct path, and so is all that it follows. -/
structure Walk.Direct (absolute : Bool) (w : Walk) : Prop where
  /-- Its document is known by such a path. -/
  origin : ∃ origin, w.document.origin = some origin ∧ Path.IsDirect absolute origin
  /-- So is what it follows. -/
  chain : ∀ g ∈ w.chain, Path.IsDirect absolute g.locator

theorem SpeltDirectly.direct_start (h : SpeltDirectly files schema absolute) :
    (Walk.start schema).Direct absolute := by
  refine ⟨h.origin, fun g hg => ?_⟩
  obtain ⟨origin, horigin, hdirect⟩ := h.origin
  obtain ⟨origin', horigin', rfl⟩ := List.mem_map.1 hg
  rw [Option.mem_toList, horigin, Option.some.injEq] at horigin'
  exact horigin' ▸ hdirect

/-- What a direct reference leads to is known by a direct path. -/
theorem origin_of_openDocument {reference path : String} {found : Document}
    (hopen : openDocument files d reference path = .ok found)
    (hd : ∃ origin, d.origin = some origin ∧ Path.IsDirect absolute origin)
    (hpath : path = "" ∨ Path.IsDirect false path ∨ absolute = true ∧ Path.IsDirect true path) :
    ∃ origin, found.origin = some origin ∧ Path.IsDirect absolute origin := by
  rcases openDocument_eq_ok hopen with ⟨-, rfl⟩ | ⟨hne, text, htext, hread⟩
  · exact hd
  · obtain ⟨origin, horigin, hdirect⟩ := hd
    refine ⟨_, (@isSource_of_read _ d _ _ _ htext hread).2.1, ?_⟩
    rcases hpath with hempty | hrelative | ⟨rfl, habsolute⟩
    · exact absurd hempty hne
    · rw [horigin]
      exact hdirect.resolve hrelative
    · rwa [habsolute.resolve_absolute]

/-- What a walk stands before is known by a direct path. -/
theorem SpeltDirectly.direct_of_leadsTo (h : SpeltDirectly files schema absolute) {w : Walk}
    {g : Frame} (hsound : w.Sound files schema) (hdirect : w.Direct absolute)
    (hleads : w.LeadsTo files r g) : Path.IsDirect absolute g.locator := by
  obtain ⟨t, rest, found, hforest, href, hopen, rfl⟩ := hleads
  obtain ⟨source, hsource, hr⟩ := hsound.reference_mem hforest href
  obtain ⟨origin, horigin, hpath⟩ :=
    origin_of_openDocument hopen hdirect.origin (h.references source hsource r hr)
  rw [frameOf, horigin]
  exact hpath

theorem Walk.Direct.of_goes (h : SpeltDirectly files schema absolute) {w w' : Walk}
    (hsound : w.Sound files schema) (hdirect : w.Direct absolute) (hgoes : w.Goes files w') :
    w'.Direct absolute := by
  cases hgoes with
  | @across d chain t rest r target href htarget =>
    obtain ⟨hopen, -, -, -⟩ := locate_eq_ok htarget
    obtain ⟨source, hsource, hr⟩ := hsound.reference_mem rfl href
    have horigin := origin_of_openDocument hopen hdirect.origin (h.references source hsource r hr)
    refine ⟨horigin, List.forall_mem_cons.2 ⟨?_, hdirect.chain⟩⟩
    exact h.direct_of_leadsTo hsound hdirect ⟨t, rest, target.document, rfl, href, hopen, rfl⟩
  | down href => exact ⟨hdirect.origin, hdirect.chain⟩
  | on hhere => exact ⟨hdirect.origin, hdirect.chain⟩

theorem Walk.Direct.of_reaches (h : SpeltDirectly files schema absolute) {w : Walk}
    (hreach : (Walk.start schema).Reaches files w) : w.Direct absolute := by
  induction hreach with
  | refl => exact h.direct_start
  | tail hreach hgoes ih =>
    exact ih.of_goes h ((Walk.Sound.start files schema).of_reaches hreach) hgoes

theorem Frame.eq_of_spot {g g' : Frame} (hg : Path.IsDirect absolute g.locator)
    (hg' : Path.IsDirect absolute g'.locator) (hspot : g.spot files = g'.spot files) : g = g' := by
  obtain ⟨hlocator, hfragment⟩ := Prod.mk.inj hspot
  rw [Frame.mk.injEq]
  exact ⟨hg.eq_of_spot hg' hlocator, hfragment⟩

/-- Resolving references reports a circle exactly if a walk comes to a reference that leads to
something it is following, by its locator. So no walk follows a locator with a fragment twice, and
no chain is longer than there are such. If all locators are direct paths, what is compared are the
files: no walk follows a fragment of a file twice, and a reference to a file and fragment that are
being followed is reported. -/
theorem inclusion_reports_repetitions (files : Files) (schema : Document) :
    (∀ r, resolveReferences files schema = .error (.circular r) ↔
      ∃ w g, (Walk.start schema).Reaches files w ∧ w.LeadsTo files r g ∧ g.key ∈ w.keys) ∧
    (∀ w, (Walk.start schema).Reaches files w →
      w.keys.Nodup ∧ w.chain.length ≤ chainLimit files schema) ∧
    ∀ absolute, SpeltDirectly files schema absolute →
      ∀ w, (Walk.start schema).Reaches files w →
        (w.chain.map (Frame.spot files)).Nodup ∧
        ∀ r g, w.LeadsTo files r g → g.spot files ∈ w.chain.map (Frame.spot files) →
          resolveReferences files schema = .error (.circular r) := by
  have hsound : ∀ w, (Walk.start schema).Reaches files w → w.Sound files schema := fun w hreach =>
    (Walk.Sound.start files schema).of_reaches hreach
  refine ⟨fun r => ?_, fun w hreach => ?_, fun absolute hspelt w hreach => ?_⟩
  · rw [resolveReferences_eq_circular_iff]
    constructor
    · rintro ⟨w, hreach, g, hleads, hkey⟩
      exact ⟨w, g, hreach, hleads, hkey⟩
    · rintro ⟨w, g, hreach, hleads, hkey⟩
      exact ⟨w, hreach, g, hleads, hkey⟩
  · exact ⟨(hsound w hreach).nodup, (hsound w hreach).chain_le⟩
  · have hdirect : w.Direct absolute := Walk.Direct.of_reaches hspelt hreach
    refine ⟨?_, fun r g hleads hspot => ?_⟩
    · refine (List.Nodup.of_map _ (hsound w hreach).nodup).map_on fun g hg g' hg' hspot => ?_
      exact Frame.eq_of_spot (hdirect.chain g hg) (hdirect.chain g' hg') hspot
    · obtain ⟨g', hg', hsame⟩ := List.mem_map.1 hspot
      have hpath := hspelt.direct_of_leadsTo (hsound w hreach) hdirect hleads
      have heq : g' = g := Frame.eq_of_spot (hdirect.chain g' hg') hpath hsame
      refine resolveReferences_eq_circular_iff.2 ⟨w, hreach, g, hleads, ?_⟩
      exact List.mem_map_of_mem (heq ▸ hg')

/-! ### Two files that refer to each other -/

/-- A schema that refers to something. -/
def referringText (reference : String) : String :=
  "<schema xmlns='http://purl.oclc.org/dsdl/schematron'><include href='" ++ reference ++
    "'/></schema>"

/-- Its reference. -/
def referringPart (reference : String) : Tree :=
  .node (.element ⟨⟨some uri, none, "include"⟩, [⟨.plain "href", reference⟩], []⟩) []

/-- Its element. -/
def referringTree (reference : String) : Tree :=
  .node (.element ⟨⟨some uri, none, "schema"⟩, [], [⟨none, uri⟩]⟩) [referringPart reference]

/-- The schema as a document with a locator. -/
def referring (reference origin : String) : Document :=
  (Document.ofForest [referringTree reference]).withOrigin (some origin)

/-- The text is that of the schema. -/
def IsWritten (reference : String) : Prop :=
  Document.ofChars (referringText reference).toList =
    .ok (Document.ofForest [referringTree reference])

theorem IsWritten.read {reference : String} (h : IsWritten reference) (origin : String) :
    Document.read (referringText reference) (some origin) = .ok (referring reference origin) := by
  rw [Document.read, h]
  rfl

/-- Where the files are such schemas, the references are those written in them. -/
theorem IsWritten.mem_references {rs : List String} {reference origin : String}
    (hwritten : ∀ r ∈ rs, IsWritten r) (htexts : files.root.texts = rs.map referringText)
    (hreference : reference ∈ rs) (hd : d ∈ documentsOf files (referring reference origin))
    (hr : r ∈ references d) : r ∈ rs := by
  rcases List.mem_cons.1 hd with rfl | hd
  · obtain rfl := List.mem_singleton.1 (show r ∈ [reference] from hr)
    exact hreference
  · obtain ⟨text, htext, hread⟩ := List.mem_filterMap.1 hd
    rw [htexts] at htext
    obtain ⟨other, hother, rfl⟩ := List.mem_map.1 htext
    rw [Document.read, hwritten other hother] at hread
    obtain rfl := Option.some.inj hread
    obtain rfl := List.mem_singleton.1 (show r ∈ [other] from hr)
    exact hother

/-- A file that can be read and parsed is what a path to it leads to. -/
theorem openDocument_of_read {reference path text : String} {found : Document} (hpath : path ≠ "")
    (htext : files.readText (Path.resolve d.origin path) = .ok text)
    (hread : Document.read text (some (Path.resolve d.origin path)) = .ok found) :
    openDocument files d reference path = .ok found := by
  have hload : (Source.ofPath (Path.resolve d.origin path)).load files = .ok found := by
    rw [Source.ofPath, Source.load]
    dsimp only
    rw [htext]
    dsimp only
    rw [Source.readText, hread]
  rw [openDocument, if_neg hpath, hload]

/-- A walk comes to the reference of such a schema. -/
theorem reaches_referringPart {chain : List Frame} :
    Walk.Reaches files ⟨d, chain, [referringTree r]⟩ ⟨d, chain, [referringPart r]⟩ :=
  .single (.down rfl)

theorem start_reaches {origin : String} :
    (Walk.start (referring r origin)).Reaches files
      ⟨referring r origin, [⟨origin, none⟩], [referringPart r]⟩ :=
  .head (.down rfl) reaches_referringPart

/-- A path that consists of one name. -/
theorem isDirect_name {name : String} (h : Path.Plain name.toList)
    (hback : name.toList ≠ ['.', '.']) : Path.IsDirect false name := by
  refine ⟨[name.toList], List.cons_ne_nil _ _, by simpa using ⟨h, hback⟩, ?_⟩
  simp [Path.ofPieces, Path.joinWith]

/-- Two schemas of which each refers to the other. -/
def roundFiles : Files :=
  ⟨.directory [("a.sch", .file (some (referringText "b.sch"))),
    ("b.sch", .file (some (referringText "a.sch")))], []⟩

/-- The reference that leads back is reported. -/
theorem rounds_are_reported :
    Document.read (referringText "b.sch") (some "a.sch") = .ok (referring "b.sch" "a.sch") ∧
    SpeltDirectly roundFiles (referring "b.sch" "a.sch") false ∧
    resolveReferences roundFiles (referring "b.sch" "a.sch") = .error (.circular "a.sch") := by
  have ha : IsWritten "a.sch" := by
    unfold IsWritten
    decide +kernel
  have hb : IsWritten "b.sch" := by
    unfold IsWritten
    decide +kernel
  have hadirect : Path.IsDirect false "a.sch" :=
    isDirect_name ⟨by decide, by decide, by decide, by decide⟩ (by decide)
  have hbdirect : Path.IsDirect false "b.sch" :=
    isDirect_name ⟨by decide, by decide, by decide, by decide⟩ (by decide)
  have hspelt : SpeltDirectly roundFiles (referring "b.sch" "a.sch") false := by
    refine ⟨⟨_, rfl, hadirect⟩, fun d hd r hr => .inr (.inl ?_)⟩
    have hwritten : ∀ r ∈ ["b.sch", "a.sch"], IsWritten r := by simpa using ⟨hb, ha⟩
    have hmem := IsWritten.mem_references hwritten rfl (by simp) hd hr
    rcases List.mem_cons.1 hmem with rfl | hmem
    · exact hbdirect
    · exact List.mem_singleton.1 hmem ▸ hadirect
  have hopen : openDocument roundFiles (referring "b.sch" "a.sch") "b.sch" "b.sch" =
      .ok (referring "a.sch" "b.sch") :=
    openDocument_of_read (by decide) (by decide +kernel) (ha.read "b.sch")
  have hback : openDocument roundFiles (referring "a.sch" "b.sch") "a.sch" "a.sch" =
      .ok (referring "b.sch" "a.sch") :=
    openDocument_of_read (by decide) (by decide +kernel) (hb.read "a.sch")
  have hlocate : locate roundFiles (referring "b.sch" "a.sch") ["a.sch"] "b.sch" =
      .ok ⟨"b.sch", referring "a.sch" "b.sch", 1⟩ := by
    have hsplit : splitReference "b.sch" = ("b.sch", none) := by decide
    rw [locate_eq, hsplit, hopen, ok_bind, frameOf, hsplit]
    rfl
  have hreach : (Walk.start (referring "b.sch" "a.sch")).Reaches roundFiles
      ⟨referring "a.sch" "b.sch", [⟨"b.sch", none⟩, ⟨"a.sch", none⟩], [referringPart "a.sch"]⟩ :=
    (start_reaches.tail (.across rfl hlocate)).trans reaches_referringPart
  refine ⟨hb.read "a.sch", hspelt, ?_⟩
  refine ((inclusion_reports_repetitions _ _).2.2 false hspelt _ hreach).2 "a.sch" ⟨"a.sch", none⟩
    ?_ ?_
  · exact ⟨referringPart "a.sch", [], referring "b.sch" "a.sch", rfl, rfl, hback, rfl⟩
  · exact List.mem_map_of_mem (by simp)

/-! ### A detour -/

/-- The pieces of a path that goes to another directory and back so many times. -/
def turns : Nat → List (List Char)
  | 0 => []
  | k + 1 => turns k ++ ["parts".toList, "..".toList]

/-- The path by that many detours to a file. -/
def detourPath (k : Nat) : String :=
  Path.ofPieces false (turns k ++ ["a.sch".toList])

/-- A schema that refers to itself by a detour. -/
def detourFiles : Files :=
  ⟨.directory [("a.sch", .file (some (referringText "parts/../a.sch"))), ("parts", .directory [])], []⟩

theorem length_turns : ∀ k, (turns k).length = 2 * k
  | 0 => rfl
  | k + 1 => by
    rw [turns, List.length_append, length_turns k]
    rfl

theorem plain_turns : ∀ k, ∀ p ∈ turns k, Path.Plain p
  | 0, _, hp => nomatch hp
  | k + 1, p, hp => by
    rcases List.mem_append.1 hp with hp | hp
    · exact plain_turns k p hp
    · have hparts : Path.Plain "parts".toList := ⟨by decide, by decide, by decide, by decide⟩
      have hback : Path.Plain "..".toList := ⟨by decide, by decide, by decide, by decide⟩
      rcases List.mem_cons.1 hp with rfl | hp
      · exact hparts
      · rwa [List.mem_singleton.1 hp]

theorem plain_file : Path.Plain "a.sch".toList :=
  ⟨by decide, by decide, by decide, by decide⟩

theorem detourPath_inj {k j : Nat} (h : detourPath k = detourPath j) : k = j := by
  have hslash : ∀ k, ∀ p ∈ turns k ++ ["a.sch".toList], '/' ∉ p := fun k =>
    List.forall_mem_append.2 ⟨fun p hp => (plain_turns k p hp).slash_notMem,
      by simp⟩
  have hpieces : ∀ k, Path.splitOn '/' (detourPath k).toList = turns k ++ ["a.sch".toList] :=
    fun k => by
      rw [detourPath, Path.toList_ofPieces]
      exact Path.splitOn_joinWith (by simp) (hslash k)
  have hlength := congrArg List.length ((hpieces k).symm.trans (h ▸ hpieces j))
  simp only [List.length_append, length_turns] at hlength
  omega

/-- Seen from a path with detours, the reference leads one detour further. -/
theorem resolve_detour (k : Nat) :
    Path.resolve (some (detourPath k)) "parts/../a.sch" = detourPath (k + 1) := by
  have hreference : "parts/../a.sch" =
      Path.ofPieces false ["parts".toList, "..".toList, "a.sch".toList] := by decide
  have hplain : ∀ p ∈ ["parts".toList, "..".toList, "a.sch".toList], Path.Plain p := by
    have hparts := plain_turns 1
    intro p hp
    have hp' : p ∈ turns 1 ++ ["a.sch".toList] := hp
    rcases List.mem_append.1 hp' with hp | hp
    · exact hparts p hp
    · exact List.mem_singleton.1 hp ▸ plain_file
  rw [hreference, detourPath, Path.resolve_ofPieces (plain_turns k) plain_file hplain (by simp),
    detourPath, turns, List.append_assoc]
  rfl

/-- Where a walk along the detour stands: in the same schema, behind so many detours, and it follows
the schema behind fewer ones. -/
structure Walk.Detoured (k : Nat) (w : Walk) : Prop where
  /-- The locator of the document. -/
  origin : w.document.origin = some (detourPath k)
  /-- What is followed. -/
  chain : ∀ g ∈ w.chain, ∃ j ≤ k, g = ⟨detourPath j, none⟩

/-- The schema that refers to itself. -/
abbrev detourSchema : Document :=
  referring "parts/../a.sch" "a.sch"

theorem isWritten_detour : IsWritten "parts/../a.sch" := by
  unfold IsWritten
  decide +kernel

namespace Walk.Detoured

variable {w w' : Walk} {k : Nat} {t : Tree} {rest : List Tree} {found : Document} {g : Frame}

/-- The reference leads to the schema again, one detour further. -/
theorem frame_eq (hsound : w.Sound detourFiles detourSchema) (hw : w.Detoured k)
    (hforest : w.forest = t :: rest) (href : referenceOf? t = some r)
    (hopen : openDocument detourFiles w.document r (splitReference r).1 = .ok found) :
    found.origin = some (detourPath (k + 1)) ∧ frameOf found r = ⟨detourPath (k + 1), none⟩ := by
  obtain ⟨source, hsource, hr⟩ := hsound.reference_mem hforest href
  have hwritten : ∀ r ∈ ["parts/../a.sch"], IsWritten r := by simpa using isWritten_detour
  obtain rfl := List.mem_singleton.1 (IsWritten.mem_references hwritten rfl (by simp) hsource hr)
  have hsplit : splitReference "parts/../a.sch" = ("parts/../a.sch", none) := by decide
  rw [hsplit] at hopen
  rcases openDocument_eq_ok hopen with ⟨hempty, -⟩ | ⟨-, text, htext, hread⟩
  · exact absurd hempty (by decide)
  · have horigin := (@isSource_of_read _ detourSchema _ _ _ htext hread).2.1
    rw [hw.origin, resolve_detour] at horigin
    exact ⟨horigin, by rw [frameOf, horigin, hsplit, Option.getD_some]⟩

theorem start : (Walk.start detourSchema).Detoured 0 where
  origin := by decide
  chain g hg := by
    have hchain : (Walk.start detourSchema).chain = [⟨detourPath 0, none⟩] := by decide
    rw [hchain, List.mem_singleton] at hg
    exact ⟨0, Nat.le_refl _, hg⟩

theorem of_goes (hsound : w.Sound detourFiles detourSchema) (hw : w.Detoured k)
    (hgoes : w.Goes detourFiles w') : ∃ j, w'.Detoured j := by
  cases hgoes with
  | across href htarget =>
    obtain ⟨horigin, hframe⟩ := frame_eq hsound hw rfl href (locate_eq_ok htarget).1
    refine ⟨k + 1, horigin, List.forall_mem_cons.2 ⟨⟨k + 1, Nat.le_refl _, hframe⟩, fun g hg => ?_⟩⟩
    obtain ⟨j, hj, rfl⟩ := hw.chain g hg
    exact ⟨j, Nat.le_succ_of_le hj, rfl⟩
  | down href => exact ⟨k, hw.origin, hw.chain⟩
  | on hhere => exact ⟨k, hw.origin, hw.chain⟩

theorem of_reaches (hreach : (Walk.start detourSchema).Reaches detourFiles w) :
    ∃ k, w.Detoured k := by
  induction hreach with
  | refl => exact ⟨0, start⟩
  | tail hreach hgoes ih =>
    obtain ⟨k, hk⟩ := ih
    exact of_goes ((Walk.Sound.start detourFiles detourSchema).of_reaches hreach) hk hgoes

/-- So it never leads to something with a locator that is followed. -/
theorem not_repeats (hsound : w.Sound detourFiles detourSchema) (hw : w.Detoured k) :
    ¬ w.Repeats detourFiles r := by
  rintro ⟨g, ⟨t, rest, found, hforest, href, hopen, rfl⟩, hkey⟩
  rw [(frame_eq hsound hw hforest href hopen).2] at hkey
  obtain ⟨g, hg, hsame⟩ := List.mem_map.1 hkey
  obtain ⟨j, hj, rfl⟩ := hw.chain g hg
  have heq : j = k + 1 := detourPath_inj hsame
  omega

end Walk.Detoured

/-- A schema that refers to its own file by a detour leads to a file that is being followed, and no
circle is reported. -/
theorem detour_is_no_repetition :
    Document.read (referringText "parts/../a.sch") (some "a.sch") = .ok detourSchema ∧
    detourFiles.readText "a.sch" = .ok (referringText "parts/../a.sch") ∧
    (∃ w g, (Walk.start detourSchema).Reaches detourFiles w ∧
      w.LeadsTo detourFiles "parts/../a.sch" g ∧
      g.spot detourFiles ∈ w.chain.map (Frame.spot detourFiles)) ∧
    ∀ r, resolveReferences detourFiles detourSchema ≠ .error (.circular r) := by
  have hopen : openDocument detourFiles detourSchema "parts/../a.sch" "parts/../a.sch" =
      .ok (referring "parts/../a.sch" "parts/../a.sch") :=
    openDocument_of_read (by decide) (by decide +kernel) (isWritten_detour.read "parts/../a.sch")
  refine ⟨isWritten_detour.read "a.sch", by decide +kernel,
    ⟨_, ⟨"parts/../a.sch", none⟩, start_reaches, ?_, by decide⟩, fun r hcircular => ?_⟩
  · exact ⟨_, [], _, rfl, rfl, hopen, rfl⟩
  · obtain ⟨w, hreach, hrepeats⟩ := resolveReferences_eq_circular_iff.1 hcircular
    have hsound := (Walk.Sound.start detourFiles detourSchema).of_reaches hreach
    obtain ⟨k, hk⟩ := Walk.Detoured.of_reaches hreach
    exact hk.not_repeats hsound hrepeats

end MarkupRules.Schema
