/-
# Numbers from digits

The number written by a run of digits. Long runs are read by rounds: a round joins neighbouring
digits to digits of the squared base, so that each round halves the run.

Key definitions: `joinPairs`, `ofDigits`, `readNat`.

Key theorem: `readNat_eq_foldl`, reading by rounds gives what reading digit by digit gives.
-/

namespace MarkupRules.Decimal

/-- Neighbouring digits joined to digits of the squared base, the least significant first. -/
def joinPairs (base : Nat) : List Nat → List Nat
  | low :: high :: rest => (low + base * high) :: joinPairs base rest
  | digits => digits

/-- The number with the given digits, the least significant first, if that many rounds are enough
to join them all. -/
def ofDigits : (rounds base : Nat) → List Nat → Nat
  | _, _, [] => 0
  | _, _, [d] => d
  | 0, _, d :: _ => d
  | rounds + 1, base, digits => ofDigits rounds (base * base) (joinPairs base digits)

/-- The natural written by a run of digits. -/
def readNat (digits : List Char) : Nat :=
  ofDigits digits.length 10 (digits.reverse.map fun c => c.toNat - '0'.toNat)

theorem foldr_joinPairs (base : Nat) (digits : List Nat) :
    (joinPairs base digits).foldr (fun d n => d + base * base * n) 0 =
      digits.foldr (fun d n => d + base * n) 0 := by
  fun_induction joinPairs base digits with
  | case1 low high rest ih =>
    simp only [List.foldr_cons, ih]
    grind
  | case2 digits hshort =>
    match digits with
    | [] => rfl
    | [d] => simp
    | low :: high :: rest => exact absurd rfl (hshort low high rest)

theorem length_joinPairs (base : Nat) (digits : List Nat) :
    (joinPairs base digits).length = (digits.length + 1) / 2 := by
  fun_induction joinPairs base digits with
  | case1 low high rest ih =>
    simp only [List.length_cons, ih]
    omega
  | case2 digits hshort =>
    match digits with
    | [] => rfl
    | [d] => simp
    | low :: high :: rest => exact absurd rfl (hshort low high rest)

theorem ofDigits_eq_foldr {rounds base : Nat} {digits : List Nat}
    (h : digits.length ≤ rounds + 1) :
    ofDigits rounds base digits = digits.foldr (fun d n => d + base * n) 0 := by
  fun_induction ofDigits rounds base digits with
  | case1 => rfl
  | case2 => simp
  | case3 base d rest hone =>
    cases rest with
    | nil => simp
    | cons e rest => simp at h
  | case4 base digits rounds hnil hone ih =>
    rw [ih, foldr_joinPairs]
    rw [length_joinPairs]
    omega

/-- Reading by rounds gives what reading digit by digit gives. -/
theorem readNat_eq_foldl (digits : List Char) :
    readNat digits = digits.foldl (fun n c => 10 * n + (c.toNat - '0'.toNat)) 0 := by
  rw [readNat, ofDigits_eq_foldr (by simp), List.foldr_map, List.foldr_reverse]
  congr 1
  funext n c
  omega

end MarkupRules.Decimal
