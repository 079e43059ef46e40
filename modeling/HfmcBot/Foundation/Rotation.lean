import Mathlib.Algebra.Order.BigOperators.Group.Finset
import Mathlib.Data.Int.CardIntervalMod
import Mathlib.Data.List.Nodup

/-!
# Taking turns

Indices below `n` in cyclic order, and how often each of them is hit by a counter that
advances by the same amount every time.

* `inTurn`: each index once, from a start on and around the end;
* `hits`: how often the counter stands at a residue;
* `evenly_iff`: the residues get equal shares exactly if the advance has no factor in common
  with their number, or there are too few turns to notice;
* `count_picks_between`, `picks_evenly_iff`: the same for the entries of a list.
-/

namespace HfmcBot
namespace Foundation

/-! ## Once around -/

/-- The indices below `n` from `start` on, around the end. -/
def inTurn (n start : Nat) : List Nat := (List.range n).map fun k => (start + k) % n

@[simp]
theorem length_inTurn (n start : Nat) : (inTurn n start).length = n := by
  simp [inTurn]

theorem lt_of_mem_inTurn {n start i : Nat} (h : i ∈ inTurn n start) : i < n := by
  obtain ⟨k, hk, rfl⟩ := List.mem_map.mp h
  have hpos : k < n := List.mem_range.mp hk
  exact Nat.mod_lt _ (by omega)

/-- Two numbers less than a cycle apart have different residues. -/
theorem eq_of_add_mod_eq {n start j k : Nat} (hj : j < n) (hk : k < n)
    (h : (start + j) % n = (start + k) % n) : j = k := by
  have hmod : j % n = k % n := Nat.ModEq.add_left_cancel' start h
  rwa [Nat.mod_eq_of_lt hj, Nat.mod_eq_of_lt hk] at hmod

theorem nodup_inTurn (n start : Nat) : (inTurn n start).Nodup := by
  refine List.Nodup.map_on ?_ List.nodup_range
  intro j hj k hk h
  exact eq_of_add_mod_eq (List.mem_range.mp hj) (List.mem_range.mp hk) h

/-! ## Equal shares -/

/-- How often a counter that starts at `c` and advances by `q` stands at the residue `r` in
its first `k` turns. -/
def hits (m c q k r : Nat) : Nat := k.count fun j => (c + q * j) % m = r

/-- Each of the `m` shares of `k` is the quotient, rounded down or up. -/
def Evenly (m k : Nat) (share : Nat → Nat) : Prop :=
  ∀ r < m, share r = k / m ∨ share r = (k + (m - 1)) / m

section Shares

variable {m c q k : Nat}

/-- Two turns hit the same residue exactly if their distance is a multiple of the
period. -/
theorem hit_same_iff (hm : 0 < m) (i j : Nat) :
    (c + q * i) % m = (c + q * j) % m ↔ i ≡ j [MOD m / Nat.gcd m q] := by
  constructor
  · intro h
    have hmul : q * i ≡ q * j [MOD m] := Nat.ModEq.add_left_cancel' c h
    exact hmul.cancel_left_div_gcd hm
  · intro h
    obtain ⟨m', hm'⟩ := Nat.gcd_dvd_left m q
    obtain ⟨q', hq'⟩ := Nat.gcd_dvd_right m q
    have hgcd : 0 < Nat.gcd m q := Nat.gcd_pos_of_pos_left q hm
    have hperiod : m / Nat.gcd m q = m' := Nat.div_eq_of_eq_mul_right hgcd hm'
    rw [hperiod] at h
    have hscaled : Nat.gcd m q * q' * i ≡ Nat.gcd m q * q' * j [MOD Nat.gcd m q * m'] := by
      have hinner : q' * i ≡ q' * j [MOD m'] := h.mul_left q'
      rw [Nat.mul_assoc, Nat.mul_assoc]
      exact hinner.mul_left' (Nat.gcd m q)
    rw [← hq', ← hm'] at hscaled
    exact hscaled.add_left c

/-- A residue that is hit once is hit as often as its turn comes up. -/
theorem hits_of_hit (hm : 0 < m) {r v : Nat} (hv : (c + q * v) % m = r) :
    hits m c q k r = k.count (· ≡ v [MOD m / Nat.gcd m q]) := by
  unfold hits
  congr 1
  funext j
  rw [← hv]
  exact propext (hit_same_iff hm j v)

theorem hits_eq_zero {r : Nat} (h : ∀ v, (c + q * v) % m ≠ r) : hits m c q k r = 0 := by
  unfold hits
  rw [Nat.count_eq_card_filter_range, Finset.card_eq_zero, Finset.filter_eq_empty_iff]
  exact fun j _ => h j

/-- Without a common factor every residue is hit. -/
theorem exists_hit (hm : 0 < m) (hcoprime : Nat.gcd m q = 1) {r : Nat} (hr : r < m) :
    ∃ v, (c + q * v) % m = r := by
  have hinj : Function.Injective fun v : Fin m => (⟨(c + q * v) % m, Nat.mod_lt _ hm⟩ : Fin m) := by
    intro i j h
    have hsame := (hit_same_iff (c := c) (q := q) hm i j).mp (congrArg Fin.val h)
    rw [hcoprime, Nat.div_one] at hsame
    exact Fin.ext (hsame.eq_of_lt_of_lt i.isLt j.isLt)
  obtain ⟨v, hv⟩ := (Finite.injective_iff_surjective.mp hinj) ⟨r, hr⟩
  exact ⟨v, congrArg Fin.val hv⟩

/-- The quotient rounded up. -/
theorem ceil_eq (hm : 0 < m) (k : Nat) :
    (k + (m - 1)) / m = k / m + if k % m = 0 then 0 else 1 := by
  have hk := Nat.div_add_mod k m
  have hlt := Nat.mod_lt k hm
  split
  · rename_i hzero
    rw [Nat.add_zero]
    refine Nat.div_eq_of_lt_le ?_ ?_
    · rw [Nat.mul_comm]
      omega
    · rw [Nat.add_mul, Nat.mul_comm]
      omega
  · refine Nat.div_eq_of_lt_le ?_ ?_
    · rw [Nat.add_mul, Nat.mul_comm]
      omega
    · rw [Nat.add_mul, Nat.add_mul, Nat.mul_comm]
      omega

theorem evenly_of_coprime (hm : 0 < m) (hcoprime : Nat.gcd m q = 1) :
    Evenly m k (hits m c q k) := by
  intro r hr
  obtain ⟨v, hv⟩ := exists_hit (c := c) hm hcoprime hr
  rw [hits_of_hit hm hv, hcoprime, Nat.div_one, Nat.count_modEq_card k hm, ceil_eq hm]
  by_cases hturn : v % m < k % m
  · have hrest : k % m ≠ 0 := by omega
    simp [hturn, hrest]
  · simp [hturn]

/-- Before the period is over nothing is hit twice. -/
theorem hits_le_one (hm : 0 < m) (hfew : k ≤ m / Nat.gcd m q) (r : Nat) :
    hits m c q k r ≤ 1 := by
  by_cases hhit : ∃ v, (c + q * v) % m = r
  · obtain ⟨v, hv⟩ := hhit
    have hperiod : 0 < m / Nat.gcd m q :=
      Nat.div_pos (Nat.gcd_le_left q hm) (Nat.gcd_pos_of_pos_left q hm)
    rw [hits_of_hit hm hv, Nat.count_modEq_card k hperiod]
    rcases Nat.lt_or_ge k (m / Nat.gcd m q) with hlt | hge
    · rw [Nat.div_eq_of_lt hlt]
      split <;> omega
    · have hfull : k = m / Nat.gcd m q := by omega
      rw [← hfull] at hperiod ⊢
      rw [Nat.mod_self, Nat.div_self hperiod]
      simp
  · rw [hits_eq_zero fun v hv => hhit ⟨v, hv⟩]
    omega

theorem evenly_of_few (hm : 0 < m) (hcommon : Nat.gcd m q ≠ 1) (hfew : k ≤ m / Nat.gcd m q) :
    Evenly m k (hits m c q k) := by
  have hgcd : 0 < Nat.gcd m q := Nat.gcd_pos_of_pos_left q hm
  have hless : k < m := lt_of_le_of_lt hfew (Nat.div_lt_self hm (by omega))
  intro r _
  have hone := hits_le_one (c := c) hm hfew r
  rw [ceil_eq hm, Nat.div_eq_of_lt hless, Nat.mod_eq_of_lt hless]
  by_cases hnone : k = 0
  · subst hnone
    exact Or.inl rfl
  · rw [if_neg hnone]
    omega

/-- After a period the first residue comes up again. -/
theorem two_le_hits (hm : 0 < m) (hmany : m / Nat.gcd m q < k) :
    2 ≤ hits m c q k (c % m) := by
  have hperiod : 0 < m / Nat.gcd m q :=
    Nat.div_pos (Nat.gcd_le_left q hm) (Nat.gcd_pos_of_pos_left q hm)
  have hfirst : (c + q * 0) % m = c % m := by rw [Nat.mul_zero, Nat.add_zero]
  rw [hits_of_hit hm hfirst, Nat.count_modEq_card k hperiod]
  generalize m / Nat.gcd m q = period at hmany hperiod
  have hk := Nat.div_add_mod k period
  have hlt := Nat.mod_lt k hperiod
  have hpos : 0 < k / period := Nat.div_pos (by omega) hperiod
  split
  · omega
  · rename_i hexact
    have hzero : k % period = 0 := by
      rw [Nat.zero_mod] at hexact
      omega
    have htwo : k / period ≠ 1 := by
      intro hone
      rw [hone, hzero] at hk
      omega
    omega

/-- With a common factor the residue after the first never comes up. -/
theorem not_hit_next (hcommon : Nat.gcd m q ≠ 1) (v : Nat) :
    (c + q * v) % m ≠ (c + 1) % m := by
  intro h
  have hone : q * v ≡ 1 [MOD m] := Nat.ModEq.add_left_cancel' c h
  have hdvd : Nat.gcd m q ∣ q * v := (Nat.gcd_dvd_right m q).mul_right v
  have hunit := ((hone.of_dvd (Nat.gcd_dvd_left m q)).dvd_iff (dvd_refl _)).mp hdvd
  exact hcommon (Nat.dvd_one.mp hunit)

/-- Equal shares, exactly: no common factor, or at most one turn for each residue that is
hit at all. -/
theorem evenly_iff (hm : 0 < m) :
    Evenly m k (hits m c q k) ↔ Nat.gcd m q = 1 ∨ k ≤ m / Nat.gcd m q := by
  constructor
  · intro heven
    by_contra hno
    have hcommon : Nat.gcd m q ≠ 1 := fun h => hno (Or.inl h)
    have hmany : m / Nat.gcd m q < k := Nat.lt_of_not_le fun h => hno (Or.inr h)
    have htwice := two_le_hits (c := c) hm hmany
    have hnever := hits_eq_zero (k := k) (not_hit_next (c := c) hcommon)
    have hceil := ceil_eq hm k
    -- the first residue is hit twice, so the next one ought to be hit
    have hquotient : 1 ≤ k / m := by
      rcases heven (c % m) (Nat.mod_lt _ hm) with hdown | hup
      · omega
      · split at hceil <;> omega
    rcases heven ((c + 1) % m) (Nat.mod_lt _ hm) with hdown | hup
    · omega
    · omega
  · rintro (hcoprime | hfew)
    · exact evenly_of_coprime hm hcoprime
    · by_cases hcoprime : Nat.gcd m q = 1
      · exact evenly_of_coprime hm hcoprime
      · exact evenly_of_few hm hcoprime hfew

end Shares

/-! ## Picking from a list -/

section Picks

variable {α : Type} [DecidableEq α]

/-- The entries that a counter picks in its first `k` turns. -/
def picks (l : List α) (c q k : Nat) : List (Option α) :=
  (List.range k).map fun j => l[(c + q * j) % l.length]?

/-- The positions of an entry are as many as it is listed. -/
theorem card_positions (l : List α) (a : α) :
    ((Finset.range l.length).filter fun r => l[r]? = some a).card = l.count a := by
  rw [← Nat.count_eq_card_filter_range]
  induction l with
  | nil => rfl
  | cons b l ih =>
      have htail : l.length.count (fun r => (b :: l)[r + 1]? = some a) = l.count a := ih
      rw [List.length_cons, Nat.count_succ', List.count_cons, htail]
      simp

/-- An entry is picked as often as its positions are hit. -/
theorem count_picks (l : List α) (c q k : Nat) (a : α) :
    (picks l c q k).count (some a) =
      ∑ r ∈ (Finset.range l.length).filter fun r => l[r]? = some a, hits l.length c q k r := by
  have hpicked : (picks l c q k).count (some a) =
      ((Finset.range k).filter fun j => l[(c + q * j) % l.length]? = some a).card := by
    rw [← Nat.count_eq_card_filter_range, picks, List.count, List.countP_map,
      Nat.count, List.countP_eq_length_filter, List.countP_eq_length_filter]
    congr 2
    funext j
    exact Bool.beq_eq_decide_eq _ _
  rw [hpicked, Finset.card_eq_sum_card_fiberwise (f := fun j => (c + q * j) % l.length)
    (t := (Finset.range l.length).filter fun r => l[r]? = some a)]
  · refine Finset.sum_congr rfl fun r hr => ?_
    rw [hits, Nat.count_eq_card_filter_range, Finset.filter_filter]
    congr 1
    ext j
    simp only [Finset.mem_filter, Finset.mem_range] at hr ⊢
    constructor
    · rintro ⟨hj, -, hhit⟩
      exact ⟨hj, hhit⟩
    · rintro ⟨hj, hhit⟩
      rw [hhit]
      exact ⟨hj, hr.2, rfl⟩
  · intro j hj
    obtain ⟨-, hpick⟩ := Finset.mem_filter.mp (Finset.mem_coe.mp hj)
    obtain ⟨hlt, -⟩ := List.getElem?_eq_some_iff.mp hpick
    exact Finset.mem_coe.mpr (Finset.mem_filter.mpr ⟨Finset.mem_range.mpr hlt, hpick⟩)

/-- Equal shares for the positions are equal shares for the entries, each as often as it is
listed. -/
theorem count_picks_between {l : List α} {c q k : Nat}
    (heven : Evenly l.length k (hits l.length c q k)) (a : α) :
    l.count a * (k / l.length) ≤ (picks l c q k).count (some a) ∧
      (picks l c q k).count (some a) ≤ l.count a * ((k + (l.length - 1)) / l.length) := by
  rw [count_picks, ← card_positions]
  have hle : k / l.length ≤ (k + (l.length - 1)) / l.length :=
    Nat.div_le_div_right (Nat.le_add_right _ _)
  constructor
  · refine Finset.card_nsmul_le_sum _ _ _ fun r hr => ?_
    rcases heven r (Finset.mem_range.mp (Finset.mem_filter.mp hr).1) with h | h
    · exact h.ge
    · exact hle.trans h.ge
  · refine Finset.sum_le_card_nsmul _ _ _ fun r hr => ?_
    rcases heven r (Finset.mem_range.mp (Finset.mem_filter.mp hr).1) with h | h
    · exact h.le.trans hle
    · exact h.le

/-- An entry that is listed once is picked as often as its position is hit. -/
theorem count_picks_of_nodup {l : List α} (hnodup : l.Nodup) (c q k : Nat) {r : Nat}
    (hr : r < l.length) : (picks l c q k).count (some l[r]) = hits l.length c q k r := by
  have hone : ((Finset.range l.length).filter fun i => l[i]? = some l[r]) = {r} := by
    ext i
    simp only [Finset.mem_filter, Finset.mem_range, Finset.mem_singleton]
    constructor
    · rintro ⟨hi, heq⟩
      rw [List.getElem?_eq_getElem hi] at heq
      exact (hnodup.getElem_inj_iff).mp (Option.some.inj heq)
    · rintro rfl
      exact ⟨hr, List.getElem?_eq_getElem hr⟩
  rw [count_picks, hone, Finset.sum_singleton]

/-- Different entries are picked equally often exactly if the positions get equal shares. -/
theorem picks_evenly_iff {l : List α} (hnodup : l.Nodup) (c q k : Nat) :
    (∀ a ∈ l, (picks l c q k).count (some a) = k / l.length ∨
        (picks l c q k).count (some a) = (k + (l.length - 1)) / l.length) ↔
      Evenly l.length k (hits l.length c q k) := by
  constructor
  · intro h r hr
    rw [← count_picks_of_nodup hnodup c q k hr]
    exact h _ (List.getElem_mem hr)
  · intro h a ha
    obtain ⟨r, hr, rfl⟩ := List.mem_iff_getElem.mp ha
    rw [count_picks_of_nodup hnodup c q k hr]
    exact h r hr

end Picks

end Foundation
end HfmcBot
