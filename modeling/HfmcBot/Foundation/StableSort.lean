import Mathlib.Data.List.Sort

/-!
# Stable sorting by a key

A stable sort puts the entries of a list in the order of their keys and leaves the
entries of each key in the order they came in.

* `sortByKey_perm`, `sortByKey_sorted`, `sortByKey_filter`: the same entries, in the order
  of their keys, with ties left alone;
* `eq_of_filter_key`: no other list is sorted like this.
-/

namespace HfmcBot
namespace Foundation

section StableSort

variable {α β κ : Type} [LinearOrder κ] (key : α → κ)

/-- Sort by the key, stably. -/
def sortByKey (xs : List α) : List α := xs.insertionSort fun x y => key x ≤ key y

theorem sortByKey_perm (xs : List α) : (sortByKey key xs).Perm xs := List.perm_insertionSort _ _

@[simp] theorem mem_sortByKey {xs : List α} {x : α} : x ∈ sortByKey key xs ↔ x ∈ xs :=
  (sortByKey_perm key xs).mem_iff

@[simp] theorem length_sortByKey (xs : List α) : (sortByKey key xs).length = xs.length :=
  (sortByKey_perm key xs).length_eq

theorem sortByKey_sorted (xs : List α) :
    (sortByKey key xs).Pairwise fun x y => key x ≤ key y := by
  have : Std.Total fun x y : α => key x ≤ key y := ⟨fun x y => le_total (key x) (key y)⟩
  have : IsTrans α fun x y : α => key x ≤ key y := ⟨fun _ _ _ hxy hyz => le_trans hxy hyz⟩
  exact List.pairwise_insertionSort _ xs

/-- The entries of each key stay in their order. -/
theorem sortByKey_filter (xs : List α) (k : κ) :
    (sortByKey key xs).filter (fun x => key x = k) = xs.filter (fun x => key x = k) := by
  have : Std.Total fun x y : α => key x ≤ key y := ⟨fun x y => le_total (key x) (key y)⟩
  have : IsTrans α fun x y : α => key x ≤ key y := ⟨fun _ _ _ hxy hyz => le_trans hxy hyz⟩
  have hties : (xs.filter fun x => key x = k).Pairwise fun x y => key x ≤ key y := by
    apply List.pairwise_of_forall_mem_list
    intro x hx y hy
    have hxk := of_decide_eq_true (List.mem_filter.mp hx).2
    have hyk := of_decide_eq_true (List.mem_filter.mp hy).2
    rw [hxk, hyk]
  -- the entries of the key are a sorted part of the list, so the sort leaves them in place
  have hsub : (xs.filter fun x => key x = k).Sublist (sortByKey key xs) :=
    List.sublist_insertionSort hties List.filter_sublist
  have hfiltered := hsub.filter fun x => decide (key x = k)
  rw [List.filter_filter] at hfiltered
  simp only [Bool.and_self] at hfiltered
  exact (hfiltered.eq_of_length ((sortByKey_perm key xs).filter _).length_eq.symm).symm

/-- Two lists in the order of their keys that agree on the entries of each key are the
same. -/
theorem eq_of_filter_key {xs ys : List α} (hxs : xs.Pairwise fun x y => key x ≤ key y)
    (hys : ys.Pairwise fun x y => key x ≤ key y)
    (h : ∀ k, xs.filter (fun x => key x = k) = ys.filter fun x => key x = k) : xs = ys := by
  have hmem : ∀ {xs ys : List α},
      (∀ k, xs.filter (fun x => key x = k) = ys.filter fun x => key x = k) →
      ∀ x ∈ xs, x ∈ ys := by
    intro xs ys h x hx
    have hfiltered : x ∈ xs.filter fun z => key z = key x := by simp [hx]
    rw [h] at hfiltered
    exact List.mem_of_mem_filter hfiltered
  induction xs generalizing ys with
  | nil =>
      cases ys with
      | nil => rfl
      | cons y ys => exact absurd (hmem (fun k => (h k).symm) y (List.mem_cons_self ..)) (by simp)
  | cons x xs ih =>
      cases ys with
      | nil => exact absurd (hmem h x (List.mem_cons_self ..)) (by simp)
      | cons y ys =>
          obtain ⟨hx, hxs'⟩ := List.pairwise_cons.mp hxs
          obtain ⟨hy, hys'⟩ := List.pairwise_cons.mp hys
          -- both heads have the least key
          have hle : key x ≤ key y := by
            rcases List.mem_cons.mp (hmem (fun k => (h k).symm) y (List.mem_cons_self ..)) with
              rfl | hmem
            · exact le_refl _
            · exact hx y hmem
          have hge : key y ≤ key x := by
            rcases List.mem_cons.mp (hmem h x (List.mem_cons_self ..)) with rfl | hmem
            · exact le_refl _
            · exact hy x hmem
          have hkey : key x = key y := le_antisymm hle hge
          have hhead := h (key y)
          rw [List.filter_cons_of_pos (by simp [hkey]), List.filter_cons_of_pos (by simp)] at hhead
          obtain ⟨rfl, htails⟩ := List.cons.inj hhead
          have htail : ∀ k, xs.filter (fun z => key z = k) = ys.filter fun z => key z = k := by
            intro k
            by_cases hk : key x = k
            · rw [← hk]
              exact htails
            · have hk' := h k
              rwa [List.filter_cons_of_neg (by simpa using hk),
                List.filter_cons_of_neg (by simpa using hk)] at hk'
          rw [ih hxs' hys' htail]

end StableSort

end Foundation
end HfmcBot
