import HfmcBot.Foundation.FiniteMap
import Mathlib.Data.Finset.Max

/-!
# Keeping the greatest keys

A bounded ordered map makes room by dropping its smallest keys.  Whatever order its keys
arrive in, it then holds the greatest of all that arrived: what was dropped earlier would
be dropped again.

* `GreatestOf`: the greatest so many of a set, with the rule `GreatestOf.of_insert`;
* `evict`, `evict_greatest`, `lookup_evict`: dropping the smallest keys of a map;
* `lookupAtMost`: the entry with the greatest key up to a bound.
-/

namespace HfmcBot
namespace Foundation

section GreatestOf

variable {κ : Type} [LinearOrder κ]

/-- `t` holds the greatest `cap` elements of `s`, or all of them if there are fewer. -/
structure GreatestOf (cap : Nat) (s t : Finset κ) : Prop where
  sub : t ⊆ s
  card : t.card = min cap s.card
  below : ∀ j ∈ s, j ∉ t → ∀ k ∈ t, j < k

variable {cap : Nat} {s t u : Finset κ}

theorem greatestOf_all (h : s.card ≤ cap) : GreatestOf cap s s where
  sub := Finset.Subset.refl s
  card := (min_eq_right h).symm
  below := fun _ hj hout => absurd hj hout

/-- Dropping the smallest element first changes nothing while there are too many. -/
theorem GreatestOf.of_erase_min (hs : s.Nonempty) (hfull : cap < s.card)
    (h : GreatestOf cap (s.erase (s.min' hs)) t) : GreatestOf cap s t := by
  have hcard := Finset.card_erase_of_mem (s.min'_mem hs)
  constructor
  · exact h.sub.trans (Finset.erase_subset _ _)
  · rw [h.card, hcard]
    omega
  · intro j hj hout k hk
    by_cases hmin : j = s.min' hs
    · have hkept := Finset.mem_erase.mp (h.sub hk)
      rw [hmin]
      exact lt_of_le_of_ne (s.min'_le k hkept.2) hkept.1.symm
    · exact h.below j (Finset.mem_erase.mpr ⟨hmin, hj⟩) hout k hk

/-- What is not held is missed only if the set is full. -/
theorem GreatestOf.card_of_missing (h : GreatestOf cap s t) {j : κ} (hj : j ∈ s) (hout : j ∉ t) :
    t.card = cap := by
  have hlt : t.card < s.card := Finset.card_lt_card ⟨h.sub, fun hall => hout (hall hj)⟩
  have hcard := h.card
  omega

/-- One more key: the greatest of what was held and the key are the greatest of all. -/
theorem GreatestOf.of_insert (h : GreatestOf cap s t) {k : κ}
    (hu : GreatestOf cap (insert k t) u) : GreatestOf cap (insert k s) u := by
  constructor
  · exact hu.sub.trans (Finset.insert_subset_insert k h.sub)
  · rw [hu.card]
    by_cases hall : s ⊆ t
    · rw [Finset.Subset.antisymm h.sub hall]
    · obtain ⟨j, hj, hout⟩ := Finset.not_subset.mp hall
      have hfull := h.card_of_missing hj hout
      have ht : t.card ≤ (insert k t).card := Finset.card_le_card (Finset.subset_insert k t)
      have hs : (insert k t).card ≤ (insert k s).card :=
        Finset.card_le_card (Finset.insert_subset_insert k h.sub)
      omega
  · intro j hj hout i hi
    by_cases hinside : j ∈ insert k t
    · exact hu.below j hinside hout i hi
    · -- `j` was dropped before, so all that was held is greater
      obtain ⟨hjk, hjt⟩ := not_or.mp (fun hor => hinside (Finset.mem_insert.mpr hor))
      have hjs : j ∈ s := (Finset.mem_insert.mp hj).resolve_left hjk
      rcases Finset.mem_insert.mp (hu.sub hi) with rfl | hit
      · by_cases hkt : i ∈ t
        · exact h.below j hjs hjt i hkt
        · -- the new key is held, so something that was held has been dropped for it
          have hfull := h.card_of_missing hjs hjt
          have hinsert := Finset.card_insert_of_notMem hkt
          have hcard := hu.card
          have hmissing : ¬ insert i t ⊆ u := by
            intro hsub
            have hle := Finset.card_le_card hsub
            omega
          obtain ⟨m, hm, hmu⟩ := Finset.not_subset.mp hmissing
          have hmi : m < i := hu.below m hm hmu i hi
          have hmt : m ∈ t := (Finset.mem_insert.mp hm).resolve_left hmi.ne
          exact (h.below j hjs hjt m hmt).trans hmi
      · exact h.below j hjs hjt i hit

end GreatestOf

/-! ## Maps -/

section Evict

variable {κ ν : Type} [LinearOrder κ]

/-- Drop the smallest keys of a map until it fits. -/
def evict (cap : Nat) (m : FiniteMap κ ν) : FiniteMap κ ν :=
  if h : cap < m.keys.card then
    evict cap (m.erase (m.keys.min' (Finset.card_pos.mp (Nat.zero_lt_of_lt h))))
  else m
termination_by m.keys.card
decreasing_by
  rw [Finmap.keys_erase]
  exact Finset.card_erase_lt_of_mem (Finset.min'_mem _ _)

theorem evict_of_lt {cap : Nat} {m : FiniteMap κ ν} (h : cap < m.keys.card) :
    evict cap m =
      evict cap (m.erase (m.keys.min' (Finset.card_pos.mp (Nat.zero_lt_of_lt h)))) := by
  rw [evict]
  exact dif_pos h

theorem evict_of_le {cap : Nat} {m : FiniteMap κ ν} (h : m.keys.card ≤ cap) : evict cap m = m := by
  rw [evict]
  exact dif_neg (not_lt.mpr h)

/-- What stays are the greatest keys, with their values. -/
theorem evict_keeps (cap : Nat) : ∀ (n : Nat) (m : FiniteMap κ ν), m.keys.card = n →
    GreatestOf cap m.keys (evict cap m).keys ∧
      ∀ k ∈ (evict cap m).keys, (evict cap m).lookup k = m.lookup k := by
  intro n
  induction n with
  | zero =>
      intro m hm
      rw [evict_of_le (by omega)]
      exact ⟨greatestOf_all (by omega), fun _ _ => rfl⟩
  | succ n ih =>
      intro m hm
      rcases Nat.lt_or_ge cap m.keys.card with hfull | hfits
      · rw [evict_of_lt hfull]
        have hne : m.keys.Nonempty := Finset.card_pos.mp (Nat.zero_lt_of_lt hfull)
        have hkeys : (m.erase (m.keys.min' hne)).keys = m.keys.erase (m.keys.min' hne) :=
          Finmap.keys_erase _ _
        have hcard := Finset.card_erase_of_mem (m.keys.min'_mem hne)
        obtain ⟨hgreatest, hvalues⟩ := ih (m.erase (m.keys.min' hne)) (by rw [hkeys]; omega)
        rw [hkeys] at hgreatest
        refine ⟨hgreatest.of_erase_min hne hfull, fun k hk => ?_⟩
        rw [hvalues k hk, Finmap.lookup_erase_ne (Finset.mem_erase.mp (hgreatest.sub hk)).1]
      · rw [evict_of_le hfits]
        exact ⟨greatestOf_all hfits, fun _ _ => rfl⟩

theorem evict_greatest (cap : Nat) (m : FiniteMap κ ν) :
    GreatestOf cap m.keys (evict cap m).keys := (evict_keeps cap _ m rfl).1

theorem lookup_evict (cap : Nat) (m : FiniteMap κ ν) {k : κ} (hk : k ∈ (evict cap m).keys) :
    (evict cap m).lookup k = m.lookup k := (evict_keeps cap _ m rfl).2 k hk

/-- The entry with the greatest key up to a bound. -/
def lookupAtMost (m : FiniteMap κ ν) (bound : κ) : Option ν :=
  if h : (m.keys.filter (· ≤ bound)).Nonempty then
    m.lookup ((m.keys.filter (· ≤ bound)).max' h)
  else none

theorem exists_lookup {m : FiniteMap κ ν} {k : κ} (h : k ∈ m.keys) : ∃ v, m.lookup k = some v :=
  Option.isSome_iff_exists.mp (Finmap.lookup_isSome.mpr (Finmap.mem_keys.mp h))

theorem lookupAtMost_eq_some_iff (m : FiniteMap κ ν) (bound : κ) (v : ν) :
    lookupAtMost m bound = some v ↔
      ∃ k ∈ m.keys, k ≤ bound ∧ (∀ j ∈ m.keys, j ≤ bound → j ≤ k) ∧ m.lookup k = some v := by
  unfold lookupAtMost
  constructor
  · intro h
    split at h
    · rename_i hsome
      have hmax := Finset.mem_filter.mp (Finset.max'_mem _ hsome)
      refine ⟨_, hmax.1, hmax.2, ?_, h⟩
      intro j hj hle
      exact Finset.le_max' _ j (Finset.mem_filter.mpr ⟨hj, hle⟩)
    · exact absurd h (by simp)
  · rintro ⟨k, hk, hle, hgreatest, hv⟩
    have hmem : k ∈ m.keys.filter (· ≤ bound) := Finset.mem_filter.mpr ⟨hk, hle⟩
    have hmax : (m.keys.filter (· ≤ bound)).max' ⟨k, hmem⟩ = k := by
      have htop := Finset.mem_filter.mp (Finset.max'_mem _ ⟨k, hmem⟩)
      exact le_antisymm (hgreatest _ htop.1 htop.2) (Finset.le_max' _ k hmem)
    rw [dif_pos ⟨k, hmem⟩, hmax]
    exact hv

theorem lookupAtMost_eq_none_iff (m : FiniteMap κ ν) (bound : κ) :
    lookupAtMost m bound = none ↔ ∀ k ∈ m.keys, bound < k := by
  unfold lookupAtMost
  constructor
  · intro h k hk
    by_contra hle
    have hsome : (m.keys.filter (· ≤ bound)).Nonempty :=
      ⟨k, Finset.mem_filter.mpr ⟨hk, not_lt.mp hle⟩⟩
    rw [dif_pos hsome] at h
    obtain ⟨v, hv⟩ := exists_lookup (Finset.mem_filter.mp (Finset.max'_mem _ hsome)).1
    rw [hv] at h
    exact absurd h (by simp)
  · intro h
    rw [dif_neg]
    rintro ⟨k, hk⟩
    obtain ⟨hmem, hle⟩ := Finset.mem_filter.mp hk
    exact absurd hle (not_le.mpr (h k hmem))

end Evict

end Foundation
end HfmcBot
