import Mathlib.Algebra.BigOperators.Group.List.Basic
import Mathlib.Algebra.Order.BigOperators.Group.List
import Mathlib.Algebra.Order.Field.Basic
import Mathlib.Tactic.Ring

/-!
# Weighted means

The mean of the values of a list, each counted with its weight.

* `mean_concat`: a mean can be kept up to date one entry at a time;
* `le_mean`, `mean_le`: with positive weights it lies between the bounds of the values;
* `mean_perm`: the order of the entries does not matter.
-/

namespace HfmcBot
namespace Foundation

section Mean

variable {α β : Type} [Field α] (weight value : β → α)

/-- The weight of a list. -/
def totalWeight (xs : List β) : α := (xs.map weight).sum

/-- The values of a list, each as often as it weighs. -/
def weightedSum (xs : List β) : α := (xs.map fun x => value x * weight x).sum

/-- The weighted mean of a list. -/
def weightedMean (xs : List β) : α := weightedSum weight value xs / totalWeight weight xs

theorem totalWeight_cons (x : β) (xs : List β) :
    totalWeight weight (x :: xs) = weight x + totalWeight weight xs := by
  simp [totalWeight]

theorem totalWeight_concat (xs : List β) (x : β) :
    totalWeight weight (xs ++ [x]) = totalWeight weight xs + weight x := by
  simp [totalWeight]

theorem weightedSum_cons (x : β) (xs : List β) :
    weightedSum weight value (x :: xs) = value x * weight x + weightedSum weight value xs := by
  simp [weightedSum]

theorem weightedSum_concat (xs : List β) (x : β) :
    weightedSum weight value (xs ++ [x]) = weightedSum weight value xs + value x * weight x := by
  simp [weightedSum]

/-- One more entry on top of the mean so far. -/
theorem mean_concat {xs : List β} (h : totalWeight weight xs ≠ 0) (x : β) :
    weightedMean weight value (xs ++ [x]) =
      (weightedMean weight value xs * totalWeight weight xs + value x * weight x) /
        (totalWeight weight xs + weight x) := by
  unfold weightedMean
  rw [weightedSum_concat, totalWeight_concat, div_mul_cancel₀ _ h]

variable {weight value}

theorem totalWeight_perm {xs ys : List β} (h : xs.Perm ys) :
    totalWeight weight xs = totalWeight weight ys := (h.map _).sum_eq

theorem mean_perm {xs ys : List β} (h : xs.Perm ys) :
    weightedMean weight value xs = weightedMean weight value ys := by
  have hsum : weightedSum weight value xs = weightedSum weight value ys := (h.map _).sum_eq
  rw [weightedMean, weightedMean, hsum, totalWeight_perm h]

theorem weightedSum_neg (xs : List β) :
    weightedSum weight (fun x => -value x) xs = -weightedSum weight value xs := by
  induction xs with
  | nil => simp [weightedSum]
  | cons x xs ih =>
      rw [weightedSum_cons, weightedSum_cons, ih]
      ring

variable [LinearOrder α] [IsStrictOrderedRing α]

theorem totalWeight_pos {xs : List β} (hne : xs ≠ []) (hpos : ∀ x ∈ xs, 0 < weight x) :
    0 < totalWeight weight xs := by
  apply List.sum_pos
  · intro w hw
    obtain ⟨x, hx, rfl⟩ := List.mem_map.mp hw
    exact hpos x hx
  · simpa using hne

theorem mul_totalWeight_le {xs : List β} {lo : α} (hpos : ∀ x ∈ xs, 0 < weight x)
    (hlo : ∀ x ∈ xs, lo ≤ value x) :
    lo * totalWeight weight xs ≤ weightedSum weight value xs := by
  induction xs with
  | nil => simp [totalWeight, weightedSum]
  | cons x xs ih =>
      have hfirst : lo * weight x ≤ value x * weight x :=
        mul_le_mul_of_nonneg_right (hlo x List.mem_cons_self) (hpos x List.mem_cons_self).le
      have hrest := ih (fun y hy => hpos y (List.mem_cons_of_mem x hy))
        (fun y hy => hlo y (List.mem_cons_of_mem x hy))
      rw [totalWeight_cons, weightedSum_cons, mul_add]
      exact add_le_add hfirst hrest

/-- The mean stays above a lower bound of the values. -/
theorem le_mean {xs : List β} {lo : α} (hne : xs ≠ []) (hpos : ∀ x ∈ xs, 0 < weight x)
    (hlo : ∀ x ∈ xs, lo ≤ value x) : lo ≤ weightedMean weight value xs := by
  rw [weightedMean, le_div_iff₀ (totalWeight_pos hne hpos)]
  exact mul_totalWeight_le hpos hlo

/-- And below an upper one. -/
theorem mean_le {xs : List β} {hi : α} (hne : xs ≠ []) (hpos : ∀ x ∈ xs, 0 < weight x)
    (hhi : ∀ x ∈ xs, value x ≤ hi) : weightedMean weight value xs ≤ hi := by
  have hneg : -hi * totalWeight weight xs ≤ weightedSum weight (fun x => -value x) xs :=
    mul_totalWeight_le hpos fun x hx => neg_le_neg (hhi x hx)
  rw [weightedSum_neg, neg_mul, neg_le_neg_iff] at hneg
  rw [weightedMean, div_le_iff₀ (totalWeight_pos hne hpos)]
  exact hneg

end Mean

end Foundation
end HfmcBot
