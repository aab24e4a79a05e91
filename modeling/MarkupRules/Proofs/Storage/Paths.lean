/-
# Paths piece by piece

A path without pieces that carry no meaning is known from its pieces, and splitting gives them
back. Such a path has its parent in front of its last piece, and a reference by one leads from its
directory on. Followed piece by piece, `..` takes back the piece in front of it; so two paths can
lead to one spot, but not if neither has such a piece and both start at the same directory.

Key definitions: `Plain`, `ofPieces`, `spot`, `IsDirect`.

Key theorems: `splitOn_joinWith`, `parent?_ofPieces`, `resolve_ofPieces`, `spot_ofPieces`,
`IsDirect.resolve`, `IsDirect.eq_of_spot`.
-/
import Mathlib.Data.List.Basic
import MarkupRules.Storage.Files

namespace MarkupRules.Path

/-! ### Splitting and joining -/

section Pieces

variable {separator : Char}

theorem splitOn_of_notMem : ∀ {piece : List Char}, separator ∉ piece →
    splitOn separator piece = [piece]
  | [], _ => rfl
  | c :: piece, h => by
    obtain ⟨hc, hpiece⟩ := not_or.1 (mt List.mem_cons.2 h)
    rw [splitOn, if_neg (Ne.symm hc), splitOn_of_notMem hpiece]

theorem splitOn_append {rest : List Char} : ∀ {piece : List Char}, separator ∉ piece →
    splitOn separator (piece ++ separator :: rest) = piece :: splitOn separator rest
  | [], _ => by rw [List.nil_append, splitOn, if_pos rfl]
  | c :: piece, h => by
    obtain ⟨hc, hpiece⟩ := not_or.1 (mt List.mem_cons.2 h)
    rw [List.cons_append, splitOn, if_neg (Ne.symm hc), splitOn_append hpiece]

theorem joinWith_cons {piece : List Char} {pieces : List (List Char)} (h : pieces ≠ []) :
    joinWith separator (piece :: pieces) = piece ++ separator :: joinWith separator pieces := by
  cases pieces with
  | nil => exact absurd rfl h
  | cons q pieces => rfl

/-- What is joined is split again into the same pieces. -/
theorem splitOn_joinWith : ∀ {pieces : List (List Char)}, pieces ≠ [] →
    (∀ p ∈ pieces, separator ∉ p) → splitOn separator (joinWith separator pieces) = pieces
  | [], h, _ => absurd rfl h
  | [p], _, h => splitOn_of_notMem (h p List.mem_cons_self)
  | p :: q :: pieces, _, h => by
    obtain ⟨hp, hmore⟩ := List.forall_mem_cons.1 h
    rw [joinWith_cons (List.cons_ne_nil q pieces), splitOn_append hp,
      splitOn_joinWith (List.cons_ne_nil q pieces) hmore]

theorem joinWith_append : ∀ {ps qs : List (List Char)}, ps ≠ [] → qs ≠ [] →
    joinWith separator (ps ++ qs) = joinWith separator ps ++ separator :: joinWith separator qs
  | [], _, h, _ => absurd rfl h
  | [p], qs, _, hqs => joinWith_cons hqs
  | p :: q :: ps, qs, _, hqs => by
    rw [List.cons_append, joinWith_cons (by simp), joinWith_cons (List.cons_ne_nil q ps),
      joinWith_append (List.cons_ne_nil q ps) hqs, List.append_assoc, List.cons_append]

end Pieces

/-! ### Plain pieces -/

/-- A piece that carries meaning and cannot be read as the start of a scheme. -/
structure Plain (piece : List Char) : Prop where
  /-- It is not empty. -/
  ne_nil : piece ≠ []
  /-- It is not the current directory. -/
  ne_dot : piece ≠ ['.']
  /-- It is a single piece. -/
  slash_notMem : '/' ∉ piece
  /-- It does not begin like a scheme. -/
  noScheme : ¬ "file:".toList <+: piece

/-- The path of pieces, which starts at the root if it is absolute. -/
def ofPieces (absolute : Bool) (pieces : List (List Char)) : String :=
  String.ofList ((if absolute then ['/'] else []) ++ joinWith '/' pieces)

theorem Plain.not_isVoid {piece : List Char} (h : Plain piece) : isVoid piece = false := by
  simp [isVoid, h.ne_nil, h.ne_dot]

theorem dropWhile_isVoid {pieces : List (List Char)} (h : ∀ p ∈ pieces, Plain p) :
    pieces.dropWhile isVoid = pieces := by
  cases pieces with
  | nil => rfl
  | cons p pieces =>
    rw [List.dropWhile_cons_of_neg]
    simp [(h p List.mem_cons_self).not_isVoid]

/-- A text without the separator that stands at the front of a path stands at the front of its
first piece. -/
theorem prefix_of_prefix_append {rest : List Char} : ∀ {start piece : List Char}, '/' ∉ start →
    start <+: piece ++ '/' :: rest → start <+: piece
  | [], _, _, _ => List.nil_prefix
  | c :: start, [], h, hprefix => by
    obtain ⟨rfl, -⟩ := List.cons_prefix_cons.1 hprefix
    exact absurd List.mem_cons_self h
  | c :: start, d :: piece, h, hprefix => by
    obtain ⟨rfl, hrest⟩ := List.cons_prefix_cons.1 hprefix
    have hstart : '/' ∉ start := fun hmem => h (List.mem_cons_of_mem c hmem)
    exact List.cons_prefix_cons.2 ⟨rfl, prefix_of_prefix_append hstart hrest⟩

section Plain

variable {pieces ps qs : List (List Char)} {absolute : Bool}

/-- A path of plain pieces begins with its first one. -/
theorem exists_joinWith (hne : pieces ≠ []) (h : ∀ p ∈ pieces, Plain p) :
    ∃ c piece rest, Plain (c :: piece) ∧ joinWith '/' pieces = c :: piece ++ rest ∧
      (rest = [] ∨ ∃ more, rest = '/' :: more) := by
  match pieces, hne with
  | p :: pieces, _ =>
    have hp := h p List.mem_cons_self
    obtain ⟨c, piece, rfl⟩ := List.exists_cons_of_ne_nil hp.ne_nil
    by_cases hmore : pieces = []
    · exact ⟨c, piece, [], hp, by rw [hmore, List.append_nil, joinWith], .inl rfl⟩
    · exact ⟨c, piece, _, hp, joinWith_cons hmore, .inr ⟨_, rfl⟩⟩

theorem head?_joinWith_ne (h : ∀ p ∈ pieces, Plain p) :
    (joinWith '/' pieces).head? ≠ some '/' := by
  by_cases hne : pieces = []
  · simp [hne, joinWith]
  · obtain ⟨c, piece, rest, hp, hjoin, -⟩ := exists_joinWith hne h
    rw [hjoin, List.cons_append, List.head?_cons, Ne, Option.some.injEq]
    exact fun hc => hp.slash_notMem (hc ▸ List.mem_cons_self)

theorem getLast?_joinWith_ne (hne : pieces ≠ []) (h : ∀ p ∈ pieces, Plain p) :
    (joinWith '/' pieces).getLast? ≠ some '/' := by
  obtain ⟨front, last, rfl⟩ : ∃ front last, pieces = front ++ [last] :=
    ⟨_, _, (List.dropLast_concat_getLast hne).symm⟩
  have hlast : Plain last := h last (by simp)
  have hsame : (joinWith '/' (front ++ [last])).getLast? = last.getLast? := by
    by_cases hfront : front = []
    · rw [hfront, List.nil_append, joinWith]
    · rw [joinWith_append hfront (by simp), joinWith,
        List.getLast?_append_of_ne_nil _ (List.cons_ne_nil _ _),
        List.getLast?_cons_of_ne_nil hlast.ne_nil]
  rw [hsame]
  exact fun heq => hlast.slash_notMem (List.mem_of_getLast? heq)

theorem noScheme_joinWith (h : ∀ p ∈ pieces, Plain p) :
    ¬ "file:".toList <+: joinWith '/' pieces := by
  by_cases hne : pieces = []
  · simp [hne, joinWith]
  · obtain ⟨c, piece, rest, hp, hjoin, hrest⟩ := exists_joinWith hne h
    rw [hjoin]
    rcases hrest with rfl | ⟨more, rfl⟩
    · rw [List.append_nil]
      exact hp.noScheme
    · exact fun hprefix => hp.noScheme (prefix_of_prefix_append (by simp) hprefix)

theorem isAbsolute_ofPieces (h : ∀ p ∈ pieces, Plain p) :
    isAbsolute (ofPieces absolute pieces) = absolute := by
  cases absolute with
  | true => simp [isAbsolute, ofPieces]
  | false => simpa [isAbsolute, ofPieces] using head?_joinWith_ne h

theorem toList_ofPieces : (ofPieces absolute pieces).toList =
    (if absolute then ['/'] else []) ++ joinWith '/' pieces := by
  rw [ofPieces, String.toList_ofList]

theorem anchor_ofPieces (h : ∀ p ∈ pieces, Plain p) :
    anchor (ofPieces absolute pieces).toList =
      (if absolute then ['/'] else [], joinWith '/' pieces) := by
  rw [toList_ofPieces]
  cases absolute with
  | true => rfl
  | false =>
    change anchor (joinWith '/' pieces) = ([], joinWith '/' pieces)
    by_cases hne : pieces = []
    · rw [hne]
      rfl
    · obtain ⟨c, piece, rest, hp, hjoin, hrest⟩ := exists_joinWith hne h
      rw [hjoin]
      -- A plain piece has no slash in it and is not a dot alone, so no anchor stands in front.
      unfold anchor
      split
      · next more heq =>
        obtain ⟨rfl, -⟩ := List.cons.inj heq
        exact absurd List.mem_cons_self hp.slash_notMem
      · next heq =>
        obtain ⟨rfl, hnil⟩ := List.cons.inj heq
        rw [(List.append_eq_nil_iff.1 hnil).1] at hp
        exact absurd rfl hp.ne_dot
      · next more heq =>
        obtain ⟨rfl, hmore⟩ := List.cons.inj heq
        cases piece with
        | nil => exact absurd rfl hp.ne_dot
        | cons d piece =>
          obtain ⟨rfl, -⟩ := List.cons.inj hmore
          exact absurd (by simp) hp.slash_notMem
      · rfl

theorem stripScheme_eq {path : String} (h : ¬ "file:".toList <+: path.toList) :
    stripScheme path = path := by
  have hnone : ∀ {start : List Char}, "file:".toList <+: start →
      Text.dropStart? start path.toList = none := fun hstart => by
    rw [Option.eq_none_iff_forall_ne_some]
    intro rest hrest
    exact h (hstart.trans ⟨rest, (Text.append_of_dropStart? hrest).symm⟩)
  have hlong : Text.stripStart? "file://" path = none := by
    rw [Text.stripStart?, hnone (by decide), Option.map_none]
  have hshort : Text.stripStart? "file:" path = none := by
    rw [Text.stripStart?, hnone List.prefix_rfl, Option.map_none]
  rw [stripScheme, hlong, hshort]
  rfl

theorem stripScheme_ofPieces (h : ∀ p ∈ pieces, Plain p) :
    stripScheme (ofPieces absolute pieces) = ofPieces absolute pieces := by
  refine stripScheme_eq ?_
  rw [toList_ofPieces]
  cases absolute with
  | true => simp
  | false => exact noScheme_joinWith h

/-- The path in front of the last piece. -/
theorem parent?_ofPieces {last : List Char} (h : ∀ p ∈ ps, Plain p) (hlast : Plain last) :
    parent? (ofPieces absolute (ps ++ [last])) = some (ofPieces absolute ps) := by
  have hall : ∀ p ∈ ps ++ [last], Plain p := by
    simpa [or_imp, forall_and] using ⟨h, hlast⟩
  have hslash : ∀ p ∈ ps ++ [last], '/' ∉ p := fun p hp => (hall p hp).slash_notMem
  rw [parent?, anchor_ofPieces hall]
  dsimp only
  rw [splitOn_joinWith (by simp) hslash, List.reverse_append, List.reverse_singleton,
    List.singleton_append, List.dropWhile_cons_of_neg (by simp [hlast.not_isVoid])]
  dsimp only
  rw [dropWhile_isVoid fun p hp => h p (List.mem_reverse.1 hp), List.reverse_reverse, ofPieces]

theorem join_ofPieces (hps : ∀ p ∈ ps, Plain p) (hqs : ∀ p ∈ qs, Plain p) (hne : qs ≠ []) :
    join (ofPieces absolute ps) (ofPieces false qs) = ofPieces absolute (ps ++ qs) := by
  rw [join, if_neg (by simp [isAbsolute_ofPieces hqs])]
  by_cases hnil : ps = []
  · have hsplit : ofPieces absolute (ps ++ qs) = ofPieces absolute ps ++ ofPieces false qs := by
      subst hnil
      simp [ofPieces, joinWith, String.ofList_append]
    rw [hsplit, if_pos]
    subst hnil
    cases absolute with
    | true => exact .inr rfl
    | false => exact .inl rfl
  · have hsplit : ofPieces absolute (ps ++ qs) =
        ofPieces absolute ps ++ "/" ++ ofPieces false qs := by
      simp [ofPieces, joinWith_append hnil hne, String.ofList_append, String.append_assoc]
    have hjoin : joinWith '/' ps ≠ [] := by
      obtain ⟨c, piece, rest, -, heq, -⟩ := exists_joinWith hnil hps
      simp [heq]
    rw [hsplit, if_neg]
    rintro (hempty | hslash)
    · have hchars := congrArg String.toList hempty
      rw [toList_ofPieces] at hchars
      exact hjoin (List.append_eq_nil_iff.1 hchars).2
    · rw [toList_ofPieces, List.getLast?_append_of_ne_nil _ hjoin] at hslash
      exact getLast?_joinWith_ne hnil hps hslash

/-- A relative reference by plain pieces leads from the directory of the path on. -/
theorem resolve_ofPieces {last : List Char} (hps : ∀ p ∈ ps, Plain p) (hlast : Plain last)
    (hqs : ∀ p ∈ qs, Plain p) (hne : qs ≠ []) :
    resolve (some (ofPieces absolute (ps ++ [last]))) (ofPieces false qs) =
      ofPieces absolute (ps ++ qs) := by
  have hall : ∀ p ∈ ps ++ [last], Plain p := by
    simpa [or_imp, forall_and] using ⟨hps, hlast⟩
  rw [resolve, stripScheme_ofPieces hqs, isAbsolute_ofPieces hqs, if_neg (by simp),
    Option.bind_some, stripScheme_ofPieces hall, parent?_ofPieces hps hlast]
  exact join_ofPieces hps hqs hne

theorem resolve_absolute (base : Option String) (hqs : ∀ p ∈ qs, Plain p) :
    resolve base (ofPieces true qs) = ofPieces true qs := by
  rw [resolve, stripScheme_ofPieces hqs, isAbsolute_ofPieces hqs, if_pos rfl]

end Plain

/-! ### The spot to which a path leads -/

/-- One piece further: back for `..`, on for a name. The pieces are those from the root on, the
last one first. -/
def walk (spot : List (List Char)) (piece : List Char) : List (List Char) :=
  if isVoid piece then spot
  else if piece = ['.', '.'] then spot.drop 1
  else piece :: spot

/-- The spot to which a path leads, with `.` and `..` resolved: the pieces from the root on, the
last one first. A relative path starts at the working directory. -/
def spot (here : List String) (path : String) : List (List Char) :=
  (splitOn '/' path.toList).foldl walk
    (if isAbsolute path then [] else (here.map String.toList).reverse)

theorem foldl_walk : ∀ {pieces spot : List (List Char)},
    (∀ p ∈ pieces, Plain p ∧ p ≠ ['.', '.']) → pieces.foldl walk spot = pieces.reverse ++ spot
  | [], _, _ => rfl
  | p :: pieces, spot, h => by
    obtain ⟨⟨hp, hback⟩, hmore⟩ := List.forall_mem_cons.1 h
    have hstep : walk spot p = p :: spot := by
      rw [walk, hp.not_isVoid, if_neg (by simp), if_neg hback]
    rw [List.foldl_cons, hstep, foldl_walk hmore, List.reverse_cons, List.append_assoc,
      List.singleton_append]

/-- A path of names leads to the spot that has these names, seen from where it starts. -/
theorem spot_ofPieces (here : List String) {absolute : Bool} {pieces : List (List Char)}
    (hne : pieces ≠ []) (h : ∀ p ∈ pieces, Plain p ∧ p ≠ ['.', '.']) :
    spot here (ofPieces absolute pieces) =
      pieces.reverse ++ if absolute then [] else (here.map String.toList).reverse := by
  have hplain : ∀ p ∈ pieces, Plain p := fun p hp => (h p hp).1
  have hslash : ∀ p ∈ pieces, '/' ∉ p := fun p hp => (hplain p hp).slash_notMem
  rw [spot, isAbsolute_ofPieces hplain, toList_ofPieces]
  cases absolute with
  | true =>
    have hroot : splitOn '/' ('/' :: joinWith '/' pieces) = [] :: pieces := by
      rw [splitOn, if_pos rfl, splitOn_joinWith hne hslash]
    change (splitOn '/' ('/' :: joinWith '/' pieces)).foldl walk [] = _
    rw [hroot, List.foldl_cons]
    exact foldl_walk h
  | false =>
    change (splitOn '/' (joinWith '/' pieces)).foldl walk _ = _
    rw [splitOn_joinWith hne hslash, foldl_walk h]

/-! ### Direct paths -/

/-- The path consists of names alone. -/
def IsDirect (absolute : Bool) (path : String) : Prop :=
  ∃ pieces, pieces ≠ [] ∧ (∀ p ∈ pieces, Plain p ∧ p ≠ ['.', '.']) ∧
    path = ofPieces absolute pieces

/-- What a direct path names relative to the directory of a direct path has a direct path. -/
theorem IsDirect.resolve {absolute : Bool} {base reference : String} (hbase : IsDirect absolute base)
    (hreference : IsDirect false reference) :
    IsDirect absolute (resolve (some base) reference) := by
  obtain ⟨pieces, hne, hpieces, rfl⟩ := hbase
  obtain ⟨qs, hqs, hnames, rfl⟩ := hreference
  obtain ⟨ps, last, rfl⟩ : ∃ ps last, pieces = ps ++ [last] :=
    ⟨_, _, (List.dropLast_concat_getLast hne).symm⟩
  obtain ⟨hps, hlast⟩ := List.forall_mem_append.1 hpieces
  have hlast : Plain last := (hlast last List.mem_cons_self).1
  refine ⟨ps ++ qs, by simp [hqs], List.forall_mem_append.2 ⟨hps, hnames⟩, ?_⟩
  exact resolve_ofPieces (fun p hp => (hps p hp).1) hlast (fun q hq => (hnames q hq).1) hqs

theorem IsDirect.resolve_absolute {reference : String} (base : Option String)
    (h : IsDirect true reference) : Path.resolve base reference = reference := by
  obtain ⟨pieces, -, hpieces, rfl⟩ := h
  exact Path.resolve_absolute base fun p hp => (hpieces p hp).1

/-- Direct paths to one spot are one path if they start at the same directory. -/
theorem IsDirect.eq_of_spot {here : List String} {absolute : Bool} {path path' : String}
    (h : IsDirect absolute path) (h' : IsDirect absolute path')
    (hspot : spot here path = spot here path') : path = path' := by
  obtain ⟨pieces, hne, hpieces, rfl⟩ := h
  obtain ⟨pieces', hne', hpieces', rfl⟩ := h'
  rw [spot_ofPieces here hne hpieces, spot_ofPieces here hne' hpieces'] at hspot
  rw [List.reverse_injective (List.append_cancel_right hspot)]

end MarkupRules.Path
