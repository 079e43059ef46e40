import HfmcBot.Feed.TradeSubs

/-!
# The subscription plan

`plan_trade_subs` counts slots: what survives of the old subscriptions keeps its slots,
and new mints take what is left under the cap, in the order of the open book.

* `claimSlots_sublist`, `claimSlots_length_le`, `claimSlots_full`: what the loop over the
  open mints takes;
* `card_committed`: how many subscriptions there are after the plan;
* `planTradeSubs_plans`: the plan is exact, keeps to the cap, leaves no slot unused, and
  planning again changes nothing.
-/

namespace HfmcBot

open Foundation

/-! ## The loop over the open mints -/

section Claim

variable (subscribed : Finset Mint) (cap : Nat)

/-- It takes open mints, in their order. -/
theorem claimSlots_sublist (mints : List Mint) (used : Nat) :
    (claimSlots subscribed cap mints used).Sublist mints := by
  induction mints generalizing used with
  | nil => exact List.Sublist.refl _
  | cons m rest ih =>
      unfold claimSlots
      split_ifs
      · exact List.nil_sublist _
      · exact (ih used).cons m
      · exact (ih (used + 1)).cons_cons m

/-- It stops at the cap. -/
theorem claimSlots_length_le (mints : List Mint) (used : Nat) :
    used + (claimSlots subscribed cap mints used).length ≤ max cap used := by
  induction mints generalizing used with
  | nil => simp [claimSlots]
  | cons m rest ih =>
      unfold claimSlots
      split_ifs with hfull hold
      · simp
      · exact ih used
      · have hrest := ih (used + 1)
        rw [List.length_cons]
        omega

/-- If it does not reach the cap, it has left no new mint out. -/
theorem claimSlots_full (mints : List Mint) (used : Nat) :
    cap ≤ used + (claimSlots subscribed cap mints used).length ∨
      ∀ m ∈ mints, m ∈ subscribed ∨ m ∈ claimSlots subscribed cap mints used := by
  induction mints generalizing used with
  | nil => simp
  | cons m rest ih =>
      unfold claimSlots
      split_ifs with hfull hold
      · simp [hfull]
      · rcases ih used with hreached | hall
        · exact Or.inl hreached
        · exact Or.inr (List.forall_mem_cons.mpr ⟨Or.inl hold, hall⟩)
      · rcases ih (used + 1) with hreached | hall
        · left
          rw [List.length_cons]
          omega
        · right
          refine List.forall_mem_cons.mpr ⟨Or.inr List.mem_cons_self, ?_⟩
          intro n hn
          exact (hall n hn).imp_right (List.mem_cons_of_mem m)

/-- It takes nothing when all is subscribed. -/
theorem claimSlots_nothing {mints : List Mint} (h : ∀ m ∈ mints, m ∈ subscribed) (used : Nat) :
    claimSlots subscribed cap mints used = [] := by
  rw [List.eq_nil_iff_forall_not_mem]
  intro m hm
  exact claimSlots_new hm (h m ((claimSlots_sublist _ _ _ _).subset hm))

/-- Nor when the cap is reached. -/
theorem claimSlots_capped (mints : List Mint) {used : Nat} (h : cap ≤ used) :
    claimSlots subscribed cap mints used = [] := by
  have hlength := claimSlots_length_le subscribed cap mints used
  rw [← List.length_eq_zero_iff]
  omega

end Claim

/-! ## After the plan -/

/-- The subscriptions once a plan is carried out. -/
def committed (subscribed : Finset Mint) (toSub toUnsub : List Mint) : Finset Mint :=
  (subscribed \ toUnsub.toFinset) ∪ toSub.toFinset

section Committed

variable (openMints : List Mint) (subscribed : Finset Mint) (cap : Nat)

theorem mem_committed {m : Mint} :
    m ∈ committed subscribed (planTradeSubs openMints subscribed cap).1
        (planTradeSubs openMints subscribed cap).2 ↔
      (m ∈ subscribed ∧ m ∈ openMints) ∨ m ∈ (planTradeSubs openMints subscribed cap).1 := by
  unfold committed
  rw [Finset.mem_union, Finset.mem_sdiff, List.mem_toFinset, List.mem_toFinset, mem_toUnsub]
  constructor
  · rintro (⟨hold, hkept⟩ | hnew)
    · exact Or.inl ⟨hold, by_contra fun hgone => hkept ⟨hold, hgone⟩⟩
    · exact Or.inr hnew
  · rintro (⟨hold, hopen⟩ | hnew)
    · exact Or.inl ⟨hold, fun hgone => hgone.2 hopen⟩
    · exact Or.inr hnew

/-- What is kept, and what is new. -/
theorem card_committed (hnodup : openMints.Nodup) :
    (committed subscribed (planTradeSubs openMints subscribed cap).1
        (planTradeSubs openMints subscribed cap).2).card =
      (subscribed.filter fun m => m ∈ openMints).card +
        (planTradeSubs openMints subscribed cap).1.length := by
  have hkept : subscribed \ (planTradeSubs openMints subscribed cap).2.toFinset =
      subscribed.filter fun m => m ∈ openMints := by
    ext m
    rw [Finset.mem_sdiff, List.mem_toFinset, mem_toUnsub, Finset.mem_filter]
    tauto
  have hnew : (planTradeSubs openMints subscribed cap).1.Nodup :=
    (claimSlots_sublist _ _ _ _).nodup hnodup
  unfold committed
  rw [hkept, Finset.card_union_of_disjoint, List.toFinset_card_of_nodup hnew]
  rw [Finset.disjoint_left]
  intro m hold hclaimed
  exact toSub_new (List.mem_toFinset.mp hclaimed) (Finset.mem_filter.mp hold).1

/-- The plan, with the slots counted from what is kept. -/
theorem planTradeSubs_fst :
    (planTradeSubs openMints subscribed cap).1 =
      claimSlots subscribed cap openMints (subscribed.filter fun m => m ∈ openMints).card := by
  unfold planTradeSubs
  dsimp only
  rw [card_kept]

/-- All open mints are subscribed, or the cap is reached. -/
theorem committed_maximal (hnodup : openMints.Nodup) :
    (committed subscribed (planTradeSubs openMints subscribed cap).1
        (planTradeSubs openMints subscribed cap).2 = openMints.toFinset) ∨
      cap ≤ (committed subscribed (planTradeSubs openMints subscribed cap).1
        (planTradeSubs openMints subscribed cap).2).card := by
  rw [card_committed _ _ _ hnodup, planTradeSubs_fst]
  rcases claimSlots_full subscribed cap openMints
    (subscribed.filter fun m => m ∈ openMints).card with hreached | hall
  · exact Or.inr hreached
  · left
    rw [← planTradeSubs_fst] at hall ⊢
    ext m
    rw [mem_committed, List.mem_toFinset]
    constructor
    · rintro (⟨-, hopen⟩ | hnew)
      · exact hopen
      · exact (claimSlots_sublist _ _ _ _).subset hnew
    · intro hopen
      exact (hall m hopen).imp_left fun hold => ⟨hold, hopen⟩

/-- Nothing is left to do when all subscriptions are open, and all open mints are
subscribed or the cap is reached. -/
theorem planTradeSubs_idle (hopen : ∀ m ∈ subscribed, m ∈ openMints)
    (hfull : subscribed = openMints.toFinset ∨ cap ≤ subscribed.card) :
    planTradeSubs openMints subscribed cap = ([], []) := by
  have hunsub : (planTradeSubs openMints subscribed cap).2 = [] := by
    rw [List.eq_nil_iff_forall_not_mem]
    intro m hm
    exact (mem_toUnsub.mp hm).2 (hopen m (mem_toUnsub.mp hm).1)
  have hsub : (planTradeSubs openMints subscribed cap).1 = [] := by
    rw [planTradeSubs_fst, Finset.filter_true_of_mem hopen]
    rcases hfull with hall | hreached
    · apply claimSlots_nothing
      intro m hm
      rw [hall]
      exact List.mem_toFinset.mpr hm
    · exact claimSlots_capped _ _ _ hreached
  exact Prod.ext hsub hunsub

end Committed

/-- What a reconciliation promises. -/
structure Plans (openMints : List Mint) (subscribed : Finset Mint) (cap : Nat)
    (toSub toUnsub : List Mint) : Prop where
  unsub_sorted : toUnsub.Pairwise (· < ·)
  unsub_exact : ∀ m, m ∈ toUnsub ↔ m ∈ subscribed ∧ m ∉ openMints
  sub_sorted : toSub.Pairwise (· < ·)
  sub_new : ∀ m ∈ toSub, m ∈ openMints ∧ m ∉ subscribed
  within : ∀ m ∈ committed subscribed toSub toUnsub, m ∈ openMints
  keeps : ∀ m ∈ subscribed, m ∈ openMints → m ∈ committed subscribed toSub toUnsub
  bounded : (committed subscribed toSub toUnsub).card ≤
    max cap (subscribed.filter fun m => m ∈ openMints).card
  maximal : committed subscribed toSub toUnsub = openMints.toFinset ∨
    cap ≤ (committed subscribed toSub toUnsub).card
  stable : planTradeSubs openMints (committed subscribed toSub toUnsub) cap = ([], [])

/-- A sorted list without duplicates ascends strictly. -/
theorem pairwise_lt {mints : List Mint} (hsorted : mints.Pairwise (· ≤ ·))
    (hnodup : mints.Nodup) : mints.Pairwise (· < ·) :=
  (hsorted.and hnodup).imp fun h => lt_of_le_of_ne h.1 h.2

/-- **The plan is exact, stable and maximal**, for every sorted open book without
duplicates, every set of subscriptions and every cap. -/
theorem planTradeSubs_plans {openMints : List Mint} (hsorted : openMints.Pairwise (· ≤ ·))
    (hnodup : openMints.Nodup) (subscribed : Finset Mint) (cap : Nat) :
    Plans openMints subscribed cap (planTradeSubs openMints subscribed cap).1
      (planTradeSubs openMints subscribed cap).2 := by
  have hclaimed : (planTradeSubs openMints subscribed cap).1.Sublist openMints :=
    claimSlots_sublist _ _ _ _
  have hwithin : ∀ m ∈ committed subscribed (planTradeSubs openMints subscribed cap).1
      (planTradeSubs openMints subscribed cap).2, m ∈ openMints := by
    intro m hm
    rcases (mem_committed _ _ _).mp hm with ⟨-, hopen⟩ | hnew
    · exact hopen
    · exact hclaimed.subset hnew
  have hmaximal := committed_maximal openMints subscribed cap hnodup
  constructor
  · exact pairwise_lt (KeyOrder.ascending_sorted _) (KeyOrder.ascending.nodup _)
  · exact fun m => mem_toUnsub
  · exact (pairwise_lt hsorted hnodup).sublist hclaimed
  · exact fun m hm => ⟨hclaimed.subset hm, toSub_new hm⟩
  · exact hwithin
  · exact fun m hold hopen => (mem_committed _ _ _).mpr (Or.inl ⟨hold, hopen⟩)
  · rw [card_committed _ _ _ hnodup, planTradeSubs_fst]
    exact claimSlots_length_le _ _ _ _
  · exact hmaximal
  · exact planTradeSubs_idle _ _ _ hwithin hmaximal

/-- Three open mints and a cap of two, with one of them and a closed one subscribed. -/
theorem planTradeSubs_three :
    Plans ["A", "B", "C"] {"B", "Z"} 2 (planTradeSubs ["A", "B", "C"] {"B", "Z"} 2).1
      (planTradeSubs ["A", "B", "C"] {"B", "Z"} 2).2 :=
  planTradeSubs_plans (by decide) (by decide) {"B", "Z"} 2

example : planTradeSubs ["A", "B", "C"] {"B", "Z"} 2 = (["A"], ["Z"]) := by decide +kernel

end HfmcBot
