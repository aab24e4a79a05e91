/-
# Positions as doubles

A position in a list of at most `2 ^ 53` nodes is a double of its own: it has at most 53
significant bits, so nothing is rounded, and its bits tell it from every other position. Reading
the digits of a position gives the same double.

Key definition: `TellsPositions`.

Key theorems: `nearestBits_of_lt`, `ofNat_beq_ofNat_iff`, `numberValue_toString`,
`tellsPositions_of_lt`.
-/
import Mathlib
import MarkupRules.Proofs.Query.Lexemes

namespace MarkupRules.Decimal

/-! ### The bits of a small natural -/

/-- A natural below `2 ^ 53` moved to the left until it has 53 bits. -/
def fullSignificand (n : Nat) : Nat :=
  n * 2 ^ (52 - n.log2)

theorem fullSignificand_bounds {n : Nat} (hpos : 0 < n) (h : n < 2 ^ 53) :
    2 ^ 52 ≤ fullSignificand n ∧ fullSignificand n < 2 ^ 53 := by
  have hlog : n.log2 ≤ 52 := Nat.le_of_lt_succ ((Nat.log2_lt hpos.ne').2 h)
  have hlow : 2 ^ n.log2 ≤ n := Nat.log2_self_le hpos.ne'
  have hhigh : n < 2 ^ (n.log2 + 1) := Nat.lt_log2_self
  have hmove : 0 < 2 ^ (52 - n.log2) := Nat.two_pow_pos _
  constructor
  · calc 2 ^ 52 = 2 ^ n.log2 * 2 ^ (52 - n.log2) := by rw [← pow_add, Nat.add_sub_cancel' hlog]
      _ ≤ n * 2 ^ (52 - n.log2) := Nat.mul_le_mul_right _ hlow
  · calc n * 2 ^ (52 - n.log2) < 2 ^ (n.log2 + 1) * 2 ^ (52 - n.log2) :=
        Nat.mul_lt_mul_of_pos_right hhigh hmove
      _ = 2 ^ 53 := by rw [← pow_add]; congr 1; omega

theorem scaled_of_nonpos (n : Nat) {q : Int} (hq : q ≤ 0) :
    scaled n 1 q = (n * 2 ^ (-q).toNat, 1) := by
  unfold scaled
  split
  · obtain rfl : q = 0 := by omega
    simp [twoTo]
  · rfl

/-- A natural below `2 ^ 53` is moved to full length, and nothing is rounded. -/
theorem quotientExponent_of_lt {n : Nat} (hpos : 0 < n) (h : n < 2 ^ 53) :
    quotientExponent n 1 = (n.log2 : Int) - 52 := by
  have hlog : n.log2 ≤ 52 := Nat.le_of_lt_succ ((Nat.log2_lt hpos.ne').2 h)
  have hone : Nat.log2 1 = 0 := by decide
  have hbounds := fullSignificand_bounds hpos h
  have hscaled := scaled_of_nonpos n (q := (n.log2 : Int) - 52) (by omega)
  have hmove : (-((n.log2 : Int) - 52)).toNat = 52 - n.log2 := by omega
  rw [hmove] at hscaled
  have hguess : ((n.log2 : Int) - (Nat.log2 1 : Nat) - fractionBits) = (n.log2 : Int) - 52 := by
    rw [hone, fractionBits]
    omega
  unfold quotientExponent
  dsimp only
  rw [hguess, hscaled]
  dsimp only
  rw [if_neg, leastExponent]
  · omega
  · rw [one_mul]
    exact Nat.not_lt.2 hbounds.1

theorem nearestBits_of_lt {n : Nat} (hpos : 0 < n) (h : n < 2 ^ 53) :
    nearestBits n 1 = (n.log2 + 1023) * 2 ^ 52 + (fullSignificand n - 2 ^ 52) := by
  have hlog : n.log2 ≤ 52 := Nat.le_of_lt_succ ((Nat.log2_lt hpos.ne').2 h)
  have hbounds := fullSignificand_bounds hpos h
  have hscaled := scaled_of_nonpos n (q := (n.log2 : Int) - 52) (by omega)
  have hmove : (-((n.log2 : Int) - 52)).toNat = 52 - n.log2 := by omega
  rw [hmove] at hscaled
  have hround : roundQuotient (fullSignificand n) 1 = fullSignificand n := by
    simp [roundQuotient, Nat.mod_one]
  unfold nearestBits
  rw [if_neg (by omega), quotientExponent_of_lt hpos h]
  dsimp only
  rw [hscaled]
  dsimp only
  have hfits : fullSignificand n ≠ twoTo (fractionBits + 1) := hbounds.2.ne
  have hfull : ¬ fullSignificand n < twoTo fractionBits := Nat.not_lt.2 hbounds.1
  rw [← fullSignificand, hround, if_neg hfits]
  dsimp only
  rw [if_neg (by rw [greatestExponent]; omega), magnitudeBits, if_neg hfull]
  have hexponent : ((n.log2 : Int) - 52 - leastExponent + 1).toNat = n.log2 + 1023 := by
    rw [leastExponent]
    omega
  rw [hexponent]
  rfl

/-- The bits tell naturals below `2 ^ 53` from each other. -/
theorem nearestBits_injective {i k : Nat} (hi : 0 < i) (hk : 0 < k) (hi' : i < 2 ^ 53)
    (hk' : k < 2 ^ 53) (h : nearestBits i 1 = nearestBits k 1) : i = k := by
  have hboundsi := fullSignificand_bounds hi hi'
  have hboundsk := fullSignificand_bounds hk hk'
  rw [nearestBits_of_lt hi hi', nearestBits_of_lt hk hk'] at h
  have hlog : i.log2 = k.log2 := by omega
  have hfull : fullSignificand i = fullSignificand k := by omega
  rw [fullSignificand, fullSignificand, hlog] at hfull
  exact Nat.eq_of_mul_eq_mul_right (Nat.two_pow_pos _) hfull

/-! ### Doubles -/

open Float.Model (Format UnpackedFloat)

/-- A double keeps its bits if they are not those of an infinity or of what is no number. -/
theorem toBits_ofBits {b : UInt64} (h : b.toNat < 2047 * 2 ^ 52) :
    (Float.ofBits b).toBits = b := by
  have hpack : (Float.ofBits b).toBits = UInt64.ofBitVec
      ((UnpackedFloat.unpack Format.binary64 b.toBitVec).pack Format.binary64) := rfl
  have hnan : @UnpackedFloat.isNaNBits Format.binary64 b.toBitVec = false := by
    refine decide_eq_false fun hbits => ?_
    have hfield := congrArg BitVec.toNat hbits.1
    rw [UnpackedFloat.unpackExponent_def, BitVec.extractLsb'_toNat, Nat.shiftRight_eq_div_pow]
      at hfield
    have hfield' : b.toNat / 2 ^ 52 % 2 ^ 11 = 2047 := hfield
    omega
  rw [hpack, UnpackedFloat.pack_unpack, hnan]
  rfl

/-- Doubles with different bits are different, unless one of them is zero or no number. -/
theorem ofBits_beq_ofBits_iff {a b : UInt64} (ha : a.toNat < 2047 * 2 ^ 52) (hapos : 0 < a.toNat)
    (hb : b.toNat < 2047 * 2 ^ 52) : (Float.ofBits a == Float.ofBits b) ↔ a = b := by
  have hnan : 2047 * 2 ^ 52 ≤ Float.nan.toBits.toNat := by decide +kernel
  have hzero : (0 : Float).toBits.toNat = 0 := by decide +kernel
  have hminus : 2047 * 2 ^ 52 ≤ (-0 : Float).toBits.toNat := by decide +kernel
  rw [Float.beq_iff_ne_nan_and_eq]
  constructor
  · rintro ⟨-, -, hab | ⟨hzero', -⟩ | ⟨hminus', -⟩⟩
    · rw [← toBits_ofBits ha, hab, toBits_ofBits hb]
    · rw [← hzero', toBits_ofBits ha] at hzero
      omega
    · rw [← hminus', toBits_ofBits ha] at hminus
      omega
  · rintro rfl
    have hne : Float.ofBits a ≠ Float.nan := by
      intro h
      rw [← h, toBits_ofBits ha] at hnan
      omega
    exact ⟨hne, hne, .inl rfl⟩

/-- Positions are told apart by their doubles. -/
theorem ofNat_beq_ofNat_iff {i k : Nat} (hi : 0 < i) (hk : 0 < k) (hi' : i < 2 ^ 53)
    (hk' : k < 2 ^ 53) : (ofNat i == ofNat k) ↔ i = k := by
  have hbits : ∀ {n : Nat}, 0 < n → n < 2 ^ 53 → 0 < nearestBits n 1 ∧
      nearestBits n 1 < 2047 * 2 ^ 52 := by
    intro n hn hn'
    have hlog : n.log2 ≤ 52 := Nat.le_of_lt_succ ((Nat.log2_lt hn.ne').2 hn')
    have hbounds := fullSignificand_bounds hn hn'
    rw [nearestBits_of_lt hn hn']
    omega
  have hword : ∀ {n : Nat}, 0 < n → n < 2 ^ 53 →
      (UInt64.ofNat (signBits false + nearestBits n 1)).toNat = nearestBits n 1 := by
    intro n hn hn'
    have hlt := (hbits hn hn').2
    rw [signBits, if_neg Bool.false_ne_true, zero_add, UInt64.toNat_ofNat']
    omega
  rw [ofNat, ofNat, nearest, nearest, ofBits_beq_ofBits_iff]
  · constructor
    · intro h
      have hsame := congrArg UInt64.toNat h
      rw [hword hi hi', hword hk hk'] at hsame
      exact nearestBits_injective hi hk hi' hk' hsame
    · rintro rfl
      rfl
  · rw [hword hi hi']
    exact (hbits hi hi').2
  · rw [hword hi hi']
    exact (hbits hi hi').1
  · rw [hword hk hk']
    exact (hbits hk hk').2

/-! ### The digits of a position -/

open Query (Token)

theorem readNat_toDigits (k : Nat) : readNat (Nat.toDigits 10 k) = k := by
  rw [readNat_eq_foldl, ← Nat.ofDigitChars_eq_foldl, Nat.ofDigitChars_ten_toDigits]

/-- The digits of a position are read as its double. -/
theorem numberValue_toString {k : Nat} (hk : 0 < k) (hk' : k < 2 ^ 53) :
    Token.numberValue (toString k) = ofNat k := by
  have hdecimal : ofDecimal false k 0 = ofNat k := by
    have hlog : k.log2 ≤ 52 := Nat.le_of_lt_succ ((Nat.log2_lt hk.ne').2 hk')
    unfold ofDecimal
    rw [if_neg hk.ne']
    dsimp only
    rw [if_neg (by omega), if_neg (by omega), if_pos (Int.le_refl 0)]
    simp [tenTo, ofNat]
  have hsome : (Nat.toDigits 10 k).isEmpty = false := by
    simp
  have hspan : spanDigits (Nat.toDigits 10 k) = (Nat.toDigits 10 k, []) := by
    rw [← List.append_nil (Nat.toDigits 10 k), spanDigits_toDigits k (by simp), List.append_nil]
  rw [Token.numberValue, Nat.toString_eq_ofList_toDigits, String.toList_ofList, readUnsigned?,
    hspan]
  simp [hsome, readExponent?, readNat_toDigits, hdecimal]

/-- Among the positions in a list of the given length, the digits of a position are read as a double
that is the double of this position and of no other. -/
def TellsPositions (length : Nat) : Prop :=
  ∀ i k, 0 < i → 0 < k → i ≤ length → k ≤ length →
    ((Token.numberValue (toString k) == ofNat i) ↔ i = k)

/-- Positions are told apart in every list that is shorter than `2 ^ 53`. -/
theorem tellsPositions_of_lt {length : Nat} (h : length < 2 ^ 53) : TellsPositions length := by
  intro i k hi hk hi' hk'
  rw [numberValue_toString hk (by omega), ofNat_beq_ofNat_iff hk hi (by omega) (by omega)]
  exact eq_comm

end MarkupRules.Decimal
