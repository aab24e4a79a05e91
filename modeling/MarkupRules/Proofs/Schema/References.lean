/-
# Texts with references to parameters

The pieces of a text, written one after the other, are the text. So a text in which nothing is
replaced stays as it is: if there are no parameters, or no dollar sign.

Key definition: `Piece.written`.

Key theorems: `written_pieces`, `substitute_nil`, `substitute_of_notMem`.
-/
import MarkupRules.Schema.Substitution

namespace MarkupRules.Schema

/-- A piece as it is written. -/
def Piece.written : Piece → List Char
  | plain c => [c]
  | reference name => '$' :: name

/-- What stands before the pieces that are still to be read. -/
def writtenPending : Option (List Char) → List Char
  | none => []
  | some name => '$' :: name.reverse

theorem written_piecesFrom : ∀ (pending : Option (List Char)) (text : List Char),
    (piecesFrom pending text).flatMap Piece.written = writtenPending pending ++ text
  | none, [] => rfl
  | some name, [] => rfl
  | none, c :: rest => by
    rw [piecesFrom]
    by_cases hc : c = '$'
    · rw [if_pos hc, written_piecesFrom, hc]
      rfl
    · rw [if_neg hc, List.flatMap_cons, written_piecesFrom]
      rfl
  | some name, c :: rest => by
    rw [piecesFrom]
    by_cases hchar : isReferenceChar c
    · rw [if_pos hchar, written_piecesFrom]
      simp [writtenPending]
    · have hrest : (if c = '$' then piecesFrom (some []) rest
          else Piece.plain c :: piecesFrom none rest).flatMap Piece.written = c :: rest := by
        by_cases hc : c = '$'
        · rw [if_pos hc, written_piecesFrom, hc]
          rfl
        · rw [if_neg hc, List.flatMap_cons, written_piecesFrom]
          rfl
      rw [if_neg hchar, List.flatMap_cons, hrest]
      rfl

/-- The pieces of a text are the text. -/
theorem written_pieces (text : List Char) : (pieces text).flatMap Piece.written = text :=
  written_piecesFrom none text

theorem pieces_of_notMem : ∀ {text : List Char}, '$' ∉ text → pieces text = text.map .plain
  | [], _ => rfl
  | c :: text, h => by
    obtain ⟨hc, htext⟩ := not_or.1 (mt List.mem_cons.2 h)
    have hrest : piecesFrom none text = text.map .plain := pieces_of_notMem htext
    rw [pieces, piecesFrom, if_neg (Ne.symm hc), hrest, List.map_cons]

/-- Without parameters nothing is replaced. -/
theorem substitute_nil (text : String) : substitute [] text = text := by
  have hfill : Piece.fill [] = Piece.written := by
    funext p
    cases p <;> rfl
  rw [substitute, hfill, written_pieces, String.ofList_toList]

/-- Without dollar signs nothing is replaced. -/
theorem substitute_of_notMem {parameters : List (String × String)} {text : String}
    (h : '$' ∉ text.toList) : substitute parameters text = text := by
  rw [substitute, pieces_of_notMem h, List.flatMap_map]
  change String.ofList (text.toList.flatMap fun c => [c]) = text
  rw [List.flatMap_singleton', String.ofList_toList]

end MarkupRules.Schema
