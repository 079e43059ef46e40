import HfmcBot.Grid
import HfmcBot.Strategy

/-!
# The funnel split

`split_into_slices` promises every slice but the last the share `total / n`, taken down
at four decimal places, and the last one what remains.  The code floors before it
rounds, so the share it hands out is a whole number of dollars.

* `splitIntoSlices_cases`: the two shapes of a split;
* `sum_splitIntoSlices`, `splitIntoSlices_pos`, `length_splitIntoSlices_le`: what every
  split keeps;
* `splitRule_iff`: when the split is the one that is promised.
-/

namespace HfmcBot

/-- The two shapes of a split: all of it in one slice, or whole dollars in all slices
but the last. -/
theorem splitIntoSlices_cases (total : Decimal) {n : Nat} (hn : 1 ≤ n) :
    ((n = 1 ∨ ⌊total / n⌋ ≤ 0) ∧ splitIntoSlices total n = [total]) ∨
    (2 ≤ n ∧ 0 < ⌊total / n⌋ ∧
      splitIntoSlices total n =
        List.replicate (n - 1) (⌊total / n⌋ : Decimal) ++
          [total - (⌊total / n⌋ : Decimal) * (n - 1 : Nat)]) := by
  have hpos : (0 : Decimal) < n := by exact_mod_cast hn
  unfold splitIntoSlices
  rw [if_neg (by omega)]
  split
  · rename_i hsingle
    rcases hsingle with hone | htotal
    · exact Or.inl ⟨Or.inl hone, rfl⟩
    · have hshare : total / n ≤ 0 := div_nonpos_of_nonpos_of_nonneg htotal hpos.le
      exact Or.inl ⟨Or.inr (Int.floor_nonpos hshare), rfl⟩
  · rename_i hmany
    obtain ⟨hne, -⟩ := not_or.mp hmany
    rw [roundDp_intCast]
    dsimp only
    split
    · rename_i hbase
      exact Or.inl ⟨Or.inr (by exact_mod_cast hbase), rfl⟩
    · rename_i hbase
      exact Or.inr ⟨by omega, by exact_mod_cast not_le.mp hbase, rfl⟩

section Split

variable {total : Decimal} {n : Nat}

/-- The share of a slice times the other slices, with what remains, is the total. -/
theorem share_mul_pred (hn : 1 ≤ n) :
    total / n * ((n - 1 : Nat) : Decimal) = total - total / n := by
  have hpos : (n : Decimal) ≠ 0 := by exact_mod_cast (by omega : n ≠ 0)
  rw [Nat.cast_sub hn, Nat.cast_one, mul_sub, div_mul_cancel₀ _ hpos, mul_one]

/-- The slices add up to the total. -/
theorem sum_splitIntoSlices (total : Decimal) {n : Nat} (hn : 1 ≤ n) :
    (splitIntoSlices total n).sum = total := by
  rcases splitIntoSlices_cases total hn with ⟨-, hsplit⟩ | ⟨-, -, hsplit⟩
  · rw [hsplit]
    simp
  · rw [hsplit, List.sum_append, List.sum_replicate, List.sum_singleton, nsmul_eq_mul]
    ring

/-- The slices of a positive total are positive. -/
theorem splitIntoSlices_pos (htotal : 0 < total) (n : Nat) :
    ∀ slice ∈ splitIntoSlices total n, 0 < slice := by
  rcases Nat.eq_zero_or_pos n with rfl | hn
  · simp [splitIntoSlices]
  rcases splitIntoSlices_cases total hn with ⟨-, hsplit⟩ | ⟨-, hbase, hsplit⟩
  · rw [hsplit]
    simpa using htotal
  · rw [hsplit]
    intro slice hslice
    rcases List.mem_append.mp hslice with hfirst | hlast
    · rw [List.eq_of_mem_replicate hfirst]
      exact_mod_cast hbase
    · rw [List.mem_singleton.mp hlast]
      have hquot : 0 < total / n := div_pos htotal (by exact_mod_cast hn)
      have hfloor : (⌊total / n⌋ : Decimal) * ((n - 1 : Nat) : Decimal) ≤
          total / n * ((n - 1 : Nat) : Decimal) :=
        mul_le_mul_of_nonneg_right (Int.floor_le _) (Nat.cast_nonneg _)
      rw [share_mul_pred hn] at hfloor
      linarith

/-- There are no more slices than asked for, and at least one. -/
theorem length_splitIntoSlices (total : Decimal) {n : Nat} (hn : 1 ≤ n) :
    (splitIntoSlices total n).length = 1 ∨ (splitIntoSlices total n).length = n := by
  rcases splitIntoSlices_cases total hn with ⟨-, hsplit⟩ | ⟨-, -, hsplit⟩
  · rw [hsplit]
    exact Or.inl rfl
  · rw [hsplit, List.length_append, List.length_replicate, List.length_singleton]
    exact Or.inr (by omega)

theorem length_splitIntoSlices_le (total : Decimal) {n : Nat} (hn : 1 ≤ n) :
    (splitIntoSlices total n).length ≤ n := by
  rcases length_splitIntoSlices total hn with h | h <;> omega

end Split

/-! ## The documented rule -/

/-- The value taken down to `dp` decimal places. -/
def floorDp (dp : Nat) (x : Decimal) : Decimal := (⌊x * 10 ^ dp⌋ : Decimal) / 10 ^ dp

section FloorDp

variable (dp : Nat) (x : Decimal)

theorem floorDp_le : floorDp dp x ≤ x := by
  have hscale : (0 : Decimal) < 10 ^ dp := by positivity
  rw [floorDp, div_le_iff₀ hscale]
  exact Int.floor_le _

theorem lt_floorDp_add : x < floorDp dp x + 1 / 10 ^ dp := by
  have hscale : (0 : Decimal) < 10 ^ dp := by positivity
  rw [floorDp, ← add_div, lt_div_iff₀ hscale]
  exact Int.lt_floor_add_one _

/-- Whole units are all that is left exactly if the fraction is below the last place. -/
theorem floor_eq_floorDp_iff : (⌊x⌋ : Decimal) = floorDp dp x ↔ Int.fract x < 1 / 10 ^ dp := by
  have hscale : (0 : Decimal) < 10 ^ dp := by positivity
  have hfract : Int.fract x = x - ⌊x⌋ := rfl
  constructor
  · intro h
    have hlt := lt_floorDp_add dp x
    rw [hfract]
    linarith
  · intro h
    -- the scaled value lies within one of the scaled floor
    have hfloor : ⌊x * 10 ^ dp⌋ = ⌊x⌋ * 10 ^ dp := by
      rw [Int.floor_eq_iff]
      push_cast
      rw [hfract, lt_div_iff₀ hscale] at h
      constructor
      · exact mul_le_mul_of_nonneg_right (Int.floor_le x) hscale.le
      · linarith
    rw [floorDp, hfloor]
    push_cast
    field_simp

end FloorDp

/-- The split that the documentation of `split_into_slices` describes. -/
structure SplitRule (total : Decimal) (n : Nat) (slices : List Decimal) : Prop where
  count : slices.length = 1 ∨ slices.length = n
  share : ∀ slice ∈ slices.dropLast, slice = floorDp 4 (total / n)
  remainder : slices.getLast? = some (total - slices.dropLast.sum)
  sum : slices.sum = total
  close : ∀ x ∈ slices, ∀ y ∈ slices, |x - y| < n / 10 ^ 4
  single : slices.length = 1 → n = 1 ∨ total / n < 1 / 10 ^ 4

section SplitRule

variable {total : Decimal} {n : Nat}

/-- One slice follows the rule where it may. -/
theorem splitRule_single (hn : 1 ≤ n) (h : n = 1 ∨ total / n < 1 / 10 ^ 4) :
    SplitRule total n [total] := by
  constructor
  · exact Or.inl rfl
  · simp
  · simp
  · simp
  · intro x hx y hy
    rw [List.mem_singleton.mp hx, List.mem_singleton.mp hy, sub_self, abs_zero]
    have hpos : (0 : Decimal) < n := by exact_mod_cast hn
    positivity
  · exact fun _ => h

/-- A share taken down at four places, with the remainder on the last slice, follows
the rule. -/
theorem splitRule_shares (hn : 2 ≤ n) :
    SplitRule total n
      (List.replicate (n - 1) (floorDp 4 (total / n)) ++
        [total - floorDp 4 (total / n) * (n - 1 : Nat)]) := by
  have hpos : (0 : Decimal) < n := by exact_mod_cast (by omega : 0 < n)
  have hlo := floorDp_le 4 (total / n)
  have hhi := lt_floorDp_add 4 (total / n)
  -- the last slice exceeds the others by `n` times what the share lost
  have hgap : total - floorDp 4 (total / n) * ((n - 1 : Nat) : Decimal) - floorDp 4 (total / n) =
      n * (total / n - floorDp 4 (total / n)) := by
    have hshare : (n : Decimal) * (total / n) = total := mul_div_cancel₀ _ hpos.ne'
    rw [mul_sub, hshare, Nat.cast_sub (by omega), Nat.cast_one]
    ring
  have hgap_nonneg : 0 ≤ (n : Decimal) * (total / n - floorDp 4 (total / n)) :=
    mul_nonneg hpos.le (sub_nonneg.mpr hlo)
  have hgap_lt : (n : Decimal) * (total / n - floorDp 4 (total / n)) < n / 10 ^ 4 := by
    rw [div_eq_mul_one_div (n : Decimal) (10 ^ 4)]
    exact mul_lt_mul_of_pos_left (by linarith) hpos
  constructor
  · rw [List.length_append, List.length_replicate, List.length_singleton]
    exact Or.inr (by omega)
  · intro slice hslice
    rw [List.dropLast_concat] at hslice
    exact List.eq_of_mem_replicate hslice
  · rw [List.getLast?_concat, List.dropLast_concat, List.sum_replicate, nsmul_eq_mul, mul_comm]
  · rw [List.sum_append, List.sum_replicate, List.sum_singleton, nsmul_eq_mul]
    ring
  · intro x hx y hy
    rw [List.mem_append, List.mem_singleton] at hx hy
    rw [abs_lt]
    rcases hx with hx | rfl <;> rcases hy with hy | rfl
    · rw [List.eq_of_mem_replicate hx, List.eq_of_mem_replicate hy]
      constructor <;> linarith
    · rw [List.eq_of_mem_replicate hx]
      constructor <;> linarith
    · rw [List.eq_of_mem_replicate hy]
      constructor <;> linarith
    · constructor <;> linarith
  · intro hlength
    rw [List.length_append, List.length_replicate, List.length_singleton] at hlength
    omega

/-- **When the split follows its documented rule**: one slice is asked for, or the share
of a slice is less than `10⁻⁴` above a whole number of dollars. -/
theorem splitRule_iff (htotal : 0 < total) (hn : 1 ≤ n) :
    SplitRule total n (splitIntoSlices total n) ↔
      n = 1 ∨ Int.fract (total / n) < 1 / 10 ^ 4 := by
  have hshare : 0 < total / n := div_pos htotal (by exact_mod_cast hn)
  rcases splitIntoSlices_cases total hn with ⟨hsingle, hsplit⟩ | ⟨hmany, hbase, hsplit⟩
  · -- a share below one dollar is its own fraction
    have hfract : n ≠ 1 → Int.fract (total / n) = total / n := by
      intro hne
      have hfloor : ⌊total / n⌋ = 0 :=
        le_antisymm (hsingle.resolve_left hne) (Int.floor_nonneg.mpr hshare.le)
      rw [Int.fract, hfloor, Int.cast_zero, sub_zero]
    rw [hsplit]
    constructor
    · intro hrule
      by_cases hone : n = 1
      · exact Or.inl hone
      · rw [hfract hone]
        exact hrule.single rfl
    · intro h
      apply splitRule_single hn
      by_cases hone : n = 1
      · exact Or.inl hone
      · rw [hfract hone] at h
        exact h
  · rw [hsplit, or_iff_right (by omega : n ≠ 1)]
    constructor
    · intro hrule
      have hmem : (⌊total / n⌋ : Decimal) ∈ (List.replicate (n - 1) (⌊total / n⌋ : Decimal) ++
          [total - (⌊total / n⌋ : Decimal) * (n - 1 : Nat)]).dropLast := by
        rw [List.dropLast_concat, List.mem_replicate]
        exact ⟨by omega, rfl⟩
      exact (floor_eq_floorDp_iff 4 _).mp (hrule.share _ hmem)
    · intro h
      rw [(floor_eq_floorDp_iff 4 _).mpr h]
      exact splitRule_shares hmany

/-- A hundred dollars in two slices. -/
theorem splitRule_hundred_in_two : SplitRule 100 2 (splitIntoSlices 100 2) :=
  (splitRule_iff (by decide +kernel) (by decide)).mpr (Or.inr (by decide +kernel))

/-- In three slices, the first gets 33 dollars and not 33.3333. -/
theorem splitRule_fails_in_three : ¬ SplitRule 100 3 (splitIntoSlices 100 3) := by
  intro hrule
  have hmem : (33 : Decimal) ∈ (splitIntoSlices 100 3).dropLast := by decide +kernel
  exact absurd (hrule.share 33 hmem) (by decide +kernel)

end SplitRule

end HfmcBot
