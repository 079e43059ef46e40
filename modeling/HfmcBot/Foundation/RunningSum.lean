import Mathlib.Algebra.BigOperators.Group.List.Basic
import Mathlib.Algebra.Order.BigOperators.Group.List
import Mathlib.Algebra.Order.Group.Defs
import Mathlib.Data.List.Induction

/-!
# Running sums against a limit

A sum is built up one summand at a time from a start value, and a latch engages
as soon as a running sum reaches a limit from above.  `Crosses` says that it
does.

* `crosses_append`, `crosses_iff_initial`: what crossing means for a list and its
  prefixes;
* `exists_perm_crosses_iff`, `forall_perm_crosses_iff`: when the summands may
  arrive in any order, some order crosses exactly when the negative summands
  alone reach the limit, and every order crosses exactly when the whole sum
  does.
-/

namespace HfmcBot
namespace Foundation

section Crosses

variable {α : Type} [AddCommGroup α] [LinearOrder α]

/-- Some running sum after the start is at or below the limit. -/
def Crosses (limit : α) : α → List α → Prop
  | _, [] => False
  | start, x :: xs => start + x ≤ limit ∨ Crosses limit (start + x) xs

instance decidableCrosses (limit : α) : (start : α) → (xs : List α) → Decidable (Crosses limit start xs)
  | _, [] => .isFalse id
  | start, x :: xs =>
      have := decidableCrosses limit (start + x) xs
      inferInstanceAs (Decidable (_ ∨ _))

@[simp] theorem not_crosses_nil (limit start : α) : ¬ Crosses limit start [] := id

theorem crosses_cons (limit start x : α) (xs : List α) :
    Crosses limit start (x :: xs) ↔ start + x ≤ limit ∨ Crosses limit (start + x) xs := Iff.rfl

theorem crosses_append (limit start : α) (xs ys : List α) :
    Crosses limit start (xs ++ ys) ↔
      Crosses limit start xs ∨ Crosses limit (start + xs.sum) ys := by
  induction xs generalizing start with
  | nil => simp
  | cons x xs ih =>
      rw [List.cons_append, crosses_cons, crosses_cons, ih, List.sum_cons, add_assoc, or_assoc]

theorem crosses_concat (limit start x : α) (xs : List α) :
    Crosses limit start (xs ++ [x]) ↔
      Crosses limit start xs ∨ start + xs.sum + x ≤ limit := by
  rw [crosses_append, crosses_cons, or_iff_left (not_crosses_nil _ _)]

theorem crosses_iff_initial (limit start : α) (xs : List α) :
    Crosses limit start xs ↔ ∃ ys, ys <+: xs ∧ ys ≠ [] ∧ start + ys.sum ≤ limit := by
  induction xs using List.reverseRecOn with
  | nil =>
      refine ⟨fun h => absurd h (not_crosses_nil _ _), ?_⟩
      rintro ⟨ys, hys, hne, -⟩
      exact absurd (List.prefix_nil.mp hys) hne
  | append_singleton xs x ih =>
      rw [crosses_concat, ih]
      constructor
      · rintro (⟨ys, hys, hne, hle⟩ | hle)
        · exact ⟨ys, hys.trans (List.prefix_append _ _), hne, hle⟩
        · refine ⟨xs ++ [x], List.prefix_refl _, by simp, ?_⟩
          rw [List.sum_append, List.sum_singleton, ← add_assoc]
          exact hle
      · rintro ⟨ys, hys, hne, hle⟩
        rcases List.prefix_concat_iff.mp hys with rfl | hys
        · right
          rw [List.sum_append, List.sum_singleton, ← add_assoc] at hle
          exact hle
        · exact Or.inl ⟨ys, hys, hne, hle⟩

end Crosses

section NegSum

variable {α : Type} [AddCommGroup α] [LinearOrder α]

/-- The sum of the negative summands. -/
def negSum (xs : List α) : α := (xs.filter (· < 0)).sum

theorem negSum_append (xs ys : List α) : negSum (xs ++ ys) = negSum xs + negSum ys := by
  rw [negSum, List.filter_append, List.sum_append]
  rfl

theorem negSum_perm {xs ys : List α} (h : xs.Perm ys) : negSum xs = negSum ys :=
  (h.filter _).sum_eq

end NegSum

section Orders

variable {α : Type} [AddCommGroup α] [LinearOrder α] [IsOrderedAddMonoid α]

theorem sum_nonpos {xs : List α} (h : ∀ x ∈ xs, x ≤ 0) : xs.sum ≤ 0 := by
  induction xs with
  | nil => exact le_refl _
  | cons x xs ih =>
      rw [List.sum_cons]
      exact add_nonpos (h x (by simp)) (ih fun y hy => h y (List.mem_cons_of_mem x hy))

theorem negSum_nonpos (xs : List α) : negSum xs ≤ 0 := by
  apply sum_nonpos
  intro x hx
  have hneg := (List.mem_filter.mp hx).2
  exact (of_decide_eq_true hneg).le

theorem negSum_le_sum (xs : List α) : negSum xs ≤ xs.sum := by
  induction xs with
  | nil => exact le_refl _
  | cons x xs ih =>
      by_cases hx : x < 0
      · rw [negSum, List.filter_cons_of_pos (by simpa using hx), List.sum_cons, List.sum_cons]
        exact add_le_add_right ih x
      · rw [negSum, List.filter_cons_of_neg (by simpa using hx), List.sum_cons]
        exact ih.trans (le_add_of_nonneg_left (not_lt.mp hx))

/-- No running sum falls below the start plus the negative summands. -/
theorem negSum_le_of_initial {xs ys : List α} (h : ys <+: xs) : negSum xs ≤ ys.sum := by
  obtain ⟨zs, rfl⟩ := h
  rw [negSum_append]
  calc negSum ys + negSum zs ≤ negSum ys := add_le_of_nonpos_right (negSum_nonpos zs)
    _ ≤ ys.sum := negSum_le_sum ys

/-- Some order of the summands crosses exactly when the negative ones alone do. -/
theorem exists_perm_crosses_iff {limit start : α} (hstart : limit < start) (xs : List α) :
    (∃ ys, ys.Perm xs ∧ Crosses limit start ys) ↔ start + negSum xs ≤ limit := by
  constructor
  · rintro ⟨ys, hperm, hcross⟩
    obtain ⟨zs, hzs, -, hle⟩ := (crosses_iff_initial _ _ _).mp hcross
    rw [← negSum_perm hperm]
    exact (add_le_add_right (negSum_le_of_initial hzs) start).trans hle
  · intro hle
    refine ⟨xs.filter (· < 0) ++ xs.filter (fun x => !decide (x < 0)),
      List.filter_append_perm _ xs, ?_⟩
    refine (crosses_iff_initial _ _ _).mpr ⟨xs.filter (· < 0), List.prefix_append _ _, ?_, hle⟩
    intro hnil
    rw [negSum, hnil, List.sum_nil, add_zero] at hle
    exact absurd hle (not_le.mpr hstart)

/-- Every order of the summands crosses exactly when the whole sum does. -/
theorem forall_perm_crosses_iff {limit start : α} (hstart : limit < start) (xs : List α) :
    (∀ ys, ys.Perm xs → Crosses limit start ys) ↔ start + xs.sum ≤ limit := by
  constructor
  · intro hall
    -- the gains first: no running sum of that order is below the whole sum and
    -- below the start
    have hperm : (xs.filter (fun x => decide (0 ≤ x)) ++
        xs.filter (fun x => !decide (0 ≤ x))).Perm xs := List.filter_append_perm _ xs
    have hgain : ∀ x ∈ xs.filter (fun x => decide (0 ≤ x)), 0 ≤ x := fun x hx =>
      of_decide_eq_true (List.mem_filter.mp hx).2
    have hloss : ∀ x ∈ xs.filter (fun x => !decide (0 ≤ x)), x ≤ 0 := fun x hx => by
      have hneg := (List.mem_filter.mp hx).2
      simp only [Bool.not_eq_true', decide_eq_false_iff_not, not_le] at hneg
      exact hneg.le
    rw [← hperm.sum_eq]
    rcases (crosses_append _ _ _ _).mp (hall _ hperm) with hcross | hcross
    · obtain ⟨ys, hys, -, hle⟩ := (crosses_iff_initial _ _ _).mp hcross
      have hnonneg : 0 ≤ ys.sum := List.sum_nonneg fun x hx => hgain x (hys.subset hx)
      exact absurd (hstart.trans_le (le_add_of_nonneg_right hnonneg)) (not_lt.mpr hle)
    · obtain ⟨ys, ⟨zs, hzs⟩, -, hle⟩ := (crosses_iff_initial _ _ _).mp hcross
      have hnonpos : zs.sum ≤ 0 := sum_nonpos fun x hx =>
        hloss x (by rw [← hzs]; exact List.mem_append_right _ hx)
      rw [List.sum_append, ← hzs, List.sum_append, ← add_assoc, ← add_assoc]
      exact (add_le_of_nonpos_right hnonpos).trans hle
  · intro hle ys hperm
    refine (crosses_iff_initial _ _ _).mpr ⟨ys, List.prefix_refl _, ?_, ?_⟩
    · rintro rfl
      rw [← hperm.sum_eq, List.sum_nil, add_zero] at hle
      exact absurd hle (not_le.mpr hstart)
    · rw [hperm.sum_eq]
      exact hle

end Orders

end Foundation
end HfmcBot
