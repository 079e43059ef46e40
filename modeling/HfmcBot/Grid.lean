import HfmcBot.Types
import Mathlib.Tactic.FieldSimp
import Mathlib.Tactic.LinearCombination

/-!
# The rounding grid

`OnGrid dp x` says that `x` is an integer multiple of `10⁻ᵈᵖ`.  Rounding puts a
value on the grid and leaves the values that are there alone; sums and
differences stay on it.  Rounding keeps the order and moves a value by at most half
a unit, so what is above half a unit stays positive and nothing else does.
-/

namespace HfmcBot

/-- An integer multiple of `10⁻ᵈᵖ`. -/
def OnGrid (dp : Nat) (x : Decimal) : Prop := ∃ n : Int, x = n / 10 ^ dp

section OnGrid

variable {dp : Nat} {x y : Decimal}

theorem onGrid_roundDp (dp : Nat) (x : Decimal) : OnGrid dp (roundDp dp x) := ⟨_, rfl⟩

theorem onGrid_zero (dp : Nat) : OnGrid dp 0 := ⟨0, by simp⟩

theorem OnGrid.add (hx : OnGrid dp x) (hy : OnGrid dp y) : OnGrid dp (x + y) := by
  obtain ⟨m, rfl⟩ := hx
  obtain ⟨n, rfl⟩ := hy
  refine ⟨m + n, ?_⟩
  push_cast
  rw [add_div]

theorem OnGrid.neg (hx : OnGrid dp x) : OnGrid dp (-x) := by
  obtain ⟨n, rfl⟩ := hx
  refine ⟨-n, ?_⟩
  push_cast
  rw [neg_div]

theorem OnGrid.sub (hx : OnGrid dp x) (hy : OnGrid dp y) : OnGrid dp (x - y) := by
  rw [sub_eq_add_neg]
  exact hx.add hy.neg

/-- The number type has no places beyond its twenty-eight. -/
theorem Representable.onGrid (h : Representable x) : OnGrid 28 x := by
  obtain ⟨m, scale, -, hscale, rfl⟩ := h
  refine ⟨m * 10 ^ (28 - scale), ?_⟩
  push_cast
  rw [div_eq_div_iff (by positivity) (by positivity), mul_assoc, ← pow_add]
  congr 2
  omega

theorem roundHalfEven_intCast (n : Int) : roundHalfEven (n : Decimal) = n := by
  unfold roundHalfEven
  rw [Int.floor_intCast, sub_self, if_pos (by norm_num)]

/-- Rounding leaves the grid alone. -/
theorem OnGrid.roundDp_eq (hx : OnGrid dp x) : roundDp dp x = x := by
  obtain ⟨n, rfl⟩ := hx
  have hscale : (n / 10 ^ dp : Decimal) * 10 ^ dp = n := by
    field_simp
  rw [roundDp, hscale, roundHalfEven_intCast]

/-- The grid is where rounding does nothing. -/
theorem onGrid_iff : OnGrid dp x ↔ roundDp dp x = x := by
  constructor
  · exact OnGrid.roundDp_eq
  · intro h
    rw [← h]
    exact onGrid_roundDp dp x

/-- A quotient lies on the grid when its scaled dividend is a multiple of its divisor. -/
theorem onGrid_div_iff (hy : y ≠ 0) :
    OnGrid dp (x / y) ↔ ∃ n : Int, x * 10 ^ dp = n * y := by
  have hscale : (10 ^ dp : Decimal) ≠ 0 := by positivity
  constructor
  · rintro ⟨n, hn⟩
    refine ⟨n, ?_⟩
    rw [div_eq_div_iff hy hscale] at hn
    exact hn
  · rintro ⟨n, hn⟩
    refine ⟨n, ?_⟩
    rw [div_eq_div_iff hy hscale]
    exact hn

/-- A whole number is its own rounding. -/
theorem roundDp_intCast (dp : Nat) (z : Int) : roundDp dp (z : Decimal) = z := by
  have hgrid : OnGrid dp (z : Decimal) := ⟨z * 10 ^ dp, by push_cast; field_simp⟩
  exact hgrid.roundDp_eq

instance : Decidable (OnGrid dp x) := decidable_of_iff _ onGrid_iff.symm

end OnGrid

/-! ## Order and error -/

/-- Rounding to an integer moves a value by at most one half. -/
theorem abs_roundHalfEven_sub_le (x : Decimal) : |(roundHalfEven x : Decimal) - x| ≤ 1 / 2 := by
  have hlo : (⌊x⌋ : Decimal) ≤ x := Int.floor_le x
  have hhi : x < ⌊x⌋ + 1 := Int.lt_floor_add_one x
  rw [abs_le]
  unfold roundHalfEven
  split_ifs with hbelow habove heven
  · constructor <;> linarith
  · push_cast
    constructor <;> linarith
  · constructor <;> linarith
  · push_cast
    constructor <;> linarith

theorem roundHalfEven_mono {x y : Decimal} (h : x ≤ y) : roundHalfEven x ≤ roundHalfEven y := by
  obtain ⟨-, hx⟩ := abs_le.mp (abs_roundHalfEven_sub_le x)
  obtain ⟨hy, -⟩ := abs_le.mp (abs_roundHalfEven_sub_le y)
  by_contra hlt
  have hgap : (roundHalfEven y : Decimal) + 1 ≤ roundHalfEven x := by
    exact_mod_cast not_le.mp hlt
  -- the two are a whole unit apart, so both values are the same tie
  have heq : x = y := by linarith
  rw [heq] at hlt
  exact hlt (le_refl _)

theorem roundHalfEven_half : roundHalfEven (1 / 2) = 0 := by decide +kernel

/-- One half itself rounds down, to the even neighbour. -/
theorem roundHalfEven_pos_iff (x : Decimal) : 0 < roundHalfEven x ↔ 1 / 2 < x := by
  constructor
  · intro hpos
    by_contra hle
    have hzero := roundHalfEven_mono (not_lt.mp hle)
    rw [roundHalfEven_half] at hzero
    omega
  · intro hlt
    obtain ⟨hx, -⟩ := abs_le.mp (abs_roundHalfEven_sub_le x)
    have hpos : (0 : Decimal) < roundHalfEven x := by linarith
    exact_mod_cast hpos

/-- Half a unit of the last place. -/
def halfUnit (dp : Nat) : Decimal := 1 / 2 / 10 ^ dp

section Rounding

variable (dp : Nat) {x y : Decimal}

theorem abs_roundDp_sub_le (x : Decimal) : |roundDp dp x - x| ≤ halfUnit dp := by
  have hscale : (0 : Decimal) < 10 ^ dp := by positivity
  have hsplit : roundDp dp x - x =
      ((roundHalfEven (x * 10 ^ dp) : Decimal) - x * 10 ^ dp) / 10 ^ dp := by
    unfold roundDp
    field_simp
  rw [hsplit, abs_div, abs_of_pos hscale, halfUnit]
  exact div_le_div_of_nonneg_right (abs_roundHalfEven_sub_le _) hscale.le

theorem roundDp_mono (h : x ≤ y) : roundDp dp x ≤ roundDp dp y := by
  have hscale : (0 : Decimal) < 10 ^ dp := by positivity
  have hround : roundHalfEven (x * 10 ^ dp) ≤ roundHalfEven (y * 10 ^ dp) :=
    roundHalfEven_mono (mul_le_mul_of_nonneg_right h hscale.le)
  unfold roundDp
  apply div_le_div_of_nonneg_right _ hscale.le
  exact_mod_cast hround

theorem roundDp_nonneg (h : 0 ≤ x) : 0 ≤ roundDp dp x := by
  have hzero : roundDp dp 0 = 0 := (onGrid_zero dp).roundDp_eq
  rw [← hzero]
  exact roundDp_mono dp h

/-- What is above half a unit stays positive, and nothing else does. -/
theorem roundDp_pos_iff : 0 < roundDp dp x ↔ halfUnit dp < x := by
  have hscale : (0 : Decimal) < 10 ^ dp := by positivity
  have hpos : 0 < roundDp dp x ↔ 0 < roundHalfEven (x * 10 ^ dp) := by
    unfold roundDp
    rw [div_pos_iff_of_pos_right hscale, Int.cast_pos]
  rw [hpos, roundHalfEven_pos_iff, halfUnit, div_lt_iff₀ hscale]

end Rounding

end HfmcBot
