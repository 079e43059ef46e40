import HfmcBot.Engine.Machine

/-!
# Where the paper engine stays in range

In paper mode the executor computes in the same decimals as the engine, and each of their
operators can stop the program.  For every function of the two there is the range its results
have to keep, in the order in which they are computed.  A function that decides on a result
has its later ranges under that decision.

* `PaperExecutor.checked`: the paper executor in checked decimals;
* `BuyFits`, `SellFits`: an order it gets through;
* `LaunchFits`, `PriceFits`, `SweepFits`: what the engine makes of an event;
* `onEvent_finishes_iff`: an event is handled exactly if these ranges are kept.
-/

namespace HfmcBot

open Foundation

variable (fmt : NumberFormat)

/-! ## The paper executor -/

namespace PaperExecutor

/-- Depth-aware slippage, capped. -/
def checkedSlippage (px : PaperExecutor) (notionalUsd liquidityUsd : Decimal) :
    Except ArithStop Decimal :=
  if liquidityUsd ≤ 0 ∨ notionalUsd ≤ 0 then .ok (min px.slippagePct px.maxSlippagePct)
  else do
    let ratio ← fmt.div notionalUsd liquidityUsd
    let depthPct ← fmt.mul ratio 100
    let impact ← fmt.mul px.impactCoeff depthPct
    let eff ← fmt.add px.slippagePct impact
    return min eff px.maxSlippagePct

/-- The price across the spread; both factors are computed on either side. -/
def checkedPrice (side : Side) (refPrice effSlipPct : Decimal) : Except ArithStop Decimal := do
  let part ← fmt.div effSlipPct 100
  let slip ← fmt.add 1 part
  let anti ← fmt.sub 1 part
  match side with
  | .buy => fmt.mul refPrice slip
  | .sell => fmt.mul refPrice anti

/-- The fill at a slipped price. -/
def settle (px : PaperExecutor) (side : Side) (mint : Mint) (qty price : Decimal)
    (now : DateTime) (orderId : String) : Except ArithStop Fill := do
  let price := roundDp fillDp price
  let qty := roundDp fillDp qty
  let product ← fmt.mul price qty
  let notional := roundDp fillDp product
  let charge ← fmt.mul notional px.feeBps
  let fee ← fmt.div charge 10000
  return {
    orderId := orderId
    mint := mint
    side := side
    qty := qty
    priceUsd := price
    notionalUsd := notional
    feeUsd := roundDp fillDp fee
    ts := now }

def checkedFill (px : PaperExecutor) (side : Side) (mint : Mint)
    (qty refPrice effSlipPct : Decimal) (now : DateTime) (orderId : String) :
    Except ArithStop Answer :=
  if refPrice ≤ 0 ∨ qty ≤ 0 then
    .ok (.error (.rejected ["non-positive qty (", .dec qty, ") or price (", .dec refPrice,
      ") for ", mint]))
  else do
    let price ← checkedPrice fmt side refPrice effSlipPct
    if price ≤ 0 then
      return .error (.rejected ["slippage drove ", side.debug, " price non-positive for ", mint])
    else
      let fill ← settle fmt px side mint qty price now orderId
      return .ok fill

def checkedBuy (px : PaperExecutor) (req : BuyRequest) : Except ArithStop Answer :=
  if wouldFail req.orderId px.failureBps then .ok (simulatedFailure req.orderId)
  else if req.budgetUsd ≤ 0 ∨ req.priceUsd ≤ 0 then
    .ok (.error (.rejected ["non-positive budget (", .dec req.budgetUsd, ") or price (",
      .dec req.priceUsd, ") for ", req.mint]))
  else do
    let eff ← checkedSlippage fmt px req.budgetUsd req.liquidityUsd
    let part ← fmt.div eff 100
    let factor ← fmt.add 1 part
    let fillPrice ← fmt.mul req.priceUsd factor
    let qty ← fmt.div req.budgetUsd fillPrice
    checkedFill fmt px .buy req.mint qty req.priceUsd eff req.now req.orderId

def checkedSell (px : PaperExecutor) (req : SellRequest) : Except ArithStop Answer :=
  if wouldFail req.orderId px.failureBps then .ok (simulatedFailure req.orderId)
  else do
    let notional ← fmt.mul req.qty req.priceUsd
    let eff ← checkedSlippage fmt px notional req.liquidityUsd
    checkedFill fmt px .sell req.mint req.qty req.priceUsd eff req.now req.orderId

/-- The paper executor behind the trait. -/
def checked (px : PaperExecutor) : CheckedExecutor Unit where
  buy req st := do
    let answer ← checkedBuy fmt px req
    return (answer, st)
  sell req st := do
    let answer ← checkedSell fmt px req
    return (answer, st)

/-! ## Its ranges -/

variable {fmt} {px : PaperExecutor}

/-- The slippage of an order: notional over liquidity, in percent, scaled, on top of the
base. -/
def SlippageFits (fmt : NumberFormat) (px : PaperExecutor) (notionalUsd liquidityUsd : Decimal) :
    Prop :=
  ¬ (liquidityUsd ≤ 0 ∨ notionalUsd ≤ 0) →
    fmt.Fits (notionalUsd / liquidityUsd) ∧
    fmt.Fits (fmt.round (notionalUsd / liquidityUsd) * 100) ∧
    fmt.Fits (px.impactCoeff * fmt.round (fmt.round (notionalUsd / liquidityUsd) * 100)) ∧
    fmt.Fits (px.slippagePct +
      fmt.round (px.impactCoeff * fmt.round (fmt.round (notionalUsd / liquidityUsd) * 100)))

theorem checkedSlippage_finishes_iff (notionalUsd liquidityUsd : Decimal) :
    Finishes (checkedSlippage fmt px notionalUsd liquidityUsd) ↔
      SlippageFits fmt px notionalUsd liquidityUsd := by
  unfold checkedSlippage SlippageFits
  rw [finishes_ite]
  constructor
  · rintro ⟨-, h⟩ hknown
    have hranges := h hknown
    simp only [NumberFormat.finishes_div_bind_iff] at hranges
    simpa using hranges.2
  · intro h
    refine ⟨fun _ => finishes_ok _, fun hknown => ?_⟩
    have hliquidity : liquidityUsd ≠ 0 := (not_le.mp (not_or.mp hknown).1).ne'
    simpa [hliquidity] using h hknown

/-- The slipped price of an order. -/
def PriceSlipFits (fmt : NumberFormat) (side : Side) (refPrice effSlipPct : Decimal) : Prop :=
  fmt.Fits (effSlipPct / 100) ∧
  fmt.Fits (1 + fmt.round (effSlipPct / 100)) ∧
  fmt.Fits (1 - fmt.round (effSlipPct / 100)) ∧
  match side with
  | .buy => fmt.Fits (refPrice * fmt.round (1 + fmt.round (effSlipPct / 100)))
  | .sell => fmt.Fits (refPrice * fmt.round (1 - fmt.round (effSlipPct / 100)))

theorem checkedPrice_finishes_iff (side : Side) (refPrice effSlipPct : Decimal) :
    Finishes (checkedPrice fmt side refPrice effSlipPct) ↔
      PriceSlipFits fmt side refPrice effSlipPct := by
  unfold checkedPrice PriceSlipFits
  cases side with
  | buy => simp
  | sell => simp

/-- The notional and the fee of a fill. -/
def SettleFits (fmt : NumberFormat) (px : PaperExecutor) (qty price : Decimal) : Prop :=
  fmt.Fits (roundDp fillDp price * roundDp fillDp qty) ∧
  fmt.Fits (roundDp fillDp (fmt.round (roundDp fillDp price * roundDp fillDp qty)) * px.feeBps) ∧
  fmt.Fits (fmt.round (roundDp fillDp
    (fmt.round (roundDp fillDp price * roundDp fillDp qty)) * px.feeBps) / 10000)

theorem settle_finishes_iff (side : Side) (mint : Mint) (qty price : Decimal) (now : DateTime)
    (orderId : String) :
    Finishes (settle fmt px side mint qty price now orderId) ↔ SettleFits fmt px qty price := by
  unfold settle SettleFits
  simp

/-- A fill: its price, and at that price its notional and fee. -/
def FillFits (fmt : NumberFormat) (px : PaperExecutor) (side : Side)
    (qty refPrice effSlipPct : Decimal) : Prop :=
  ¬ (refPrice ≤ 0 ∨ qty ≤ 0) →
    PriceSlipFits fmt side refPrice effSlipPct ∧
    ∀ price, checkedPrice fmt side refPrice effSlipPct = .ok price → 0 < price →
      SettleFits fmt px qty price

theorem checkedFill_finishes_iff (side : Side) (mint : Mint) (qty refPrice effSlipPct : Decimal)
    (now : DateTime) (orderId : String) :
    Finishes (checkedFill fmt px side mint qty refPrice effSlipPct now orderId) ↔
      FillFits fmt px side qty refPrice effSlipPct := by
  unfold checkedFill FillFits
  rw [finishes_ite, finishes_bind_iff, checkedPrice_finishes_iff]
  have hrest : ∀ price, Finishes (if price ≤ 0 then
        pure (.error (.rejected ["slippage drove ", side.debug, " price non-positive for ", mint]))
      else do
        let fill ← settle fmt px side mint qty price now orderId
        return .ok fill : Except ArithStop Answer) ↔ (0 < price → SettleFits fmt px qty price) := by
    intro price
    rw [finishes_ite, not_le, ← settle_finishes_iff side mint qty price now orderId]
    simp
  simp only [hrest]
  exact and_iff_right fun _ => finishes_ok _

/-- A buy: its slippage, the price it divides the budget by, and the fill. -/
def BuyFits (fmt : NumberFormat) (px : PaperExecutor) (req : BuyRequest) : Prop :=
  wouldFail req.orderId px.failureBps = false → ¬ (req.budgetUsd ≤ 0 ∨ req.priceUsd ≤ 0) →
    SlippageFits fmt px req.budgetUsd req.liquidityUsd ∧
    ∀ eff, checkedSlippage fmt px req.budgetUsd req.liquidityUsd = .ok eff →
      fmt.Fits (eff / 100) ∧
      fmt.Fits (1 + fmt.round (eff / 100)) ∧
      fmt.Fits (req.priceUsd * fmt.round (1 + fmt.round (eff / 100))) ∧
      fmt.round (req.priceUsd * fmt.round (1 + fmt.round (eff / 100))) ≠ 0 ∧
      fmt.Fits (req.budgetUsd /
        fmt.round (req.priceUsd * fmt.round (1 + fmt.round (eff / 100)))) ∧
      FillFits fmt px .buy
        (fmt.round (req.budgetUsd /
          fmt.round (req.priceUsd * fmt.round (1 + fmt.round (eff / 100)))))
        req.priceUsd eff

theorem checkedBuy_finishes_iff (req : BuyRequest) :
    Finishes (checkedBuy fmt px req) ↔ BuyFits fmt px req := by
  unfold checkedBuy BuyFits
  rw [finishes_ite, finishes_ite, finishes_bind_iff, checkedSlippage_finishes_iff,
    Bool.not_eq_true]
  simp [checkedFill_finishes_iff]

/-- A sell: its notional, its slippage and the fill. -/
def SellFits (fmt : NumberFormat) (px : PaperExecutor) (req : SellRequest) : Prop :=
  wouldFail req.orderId px.failureBps = false →
    fmt.Fits (req.qty * req.priceUsd) ∧
    SlippageFits fmt px (fmt.round (req.qty * req.priceUsd)) req.liquidityUsd ∧
    ∀ eff, checkedSlippage fmt px (fmt.round (req.qty * req.priceUsd)) req.liquidityUsd = .ok eff →
      FillFits fmt px .sell req.qty req.priceUsd eff

theorem checkedSell_finishes_iff (req : SellRequest) :
    Finishes (checkedSell fmt px req) ↔ SellFits fmt px req := by
  unfold checkedSell SellFits
  rw [finishes_ite, NumberFormat.finishes_mul_bind_iff, finishes_bind_iff,
    checkedSlippage_finishes_iff, Bool.not_eq_true]
  simp [checkedFill_finishes_iff]

/-- What follows an order looks at its answer. -/
theorem finishes_answer_iff {β : Type} (x : Except ArithStop Answer) (st : Unit)
    (rejected : Unit → β) (filled : Fill → Unit → Except ArithStop β) :
    Finishes (do
      let (answer, st) ← (do
        let answer ← x
        return (answer, st) : Except ArithStop (Answer × Unit))
      match answer with
      | .error _ => return rejected st
      | .ok fill => filled fill st) ↔
      Finishes x ∧ ∀ fill, x = .ok (.ok fill) → Finishes (filled fill st) := by
  cases x with
  | error stop => exact iff_of_false (not_finishes_error stop) fun h => not_finishes_error stop h.1
  | ok answer =>
      cases answer with
      | error err =>
          refine iff_of_true (finishes_ok _) ⟨finishes_ok _, fun fill hfill => ?_⟩
          cases hfill
      | ok fill =>
          constructor
          · intro h
            refine ⟨finishes_ok _, fun fill' hfill' => ?_⟩
            cases hfill'
            exact h
          · exact fun h => h.2 fill rfl

end PaperExecutor

namespace Machine

variable {fmt} {px : PaperExecutor}

/-! ## Entries -/

/-- The daily-loss limit. -/
def LossLimitFits (fmt : NumberFormat) (r : RiskEngine) : Prop :=
  fmt.Fits (-r.equity * r.cfg.dailyLossLimitPct) ∧
  fmt.Fits (fmt.round (-r.equity * r.cfg.dailyLossLimitPct) / 100)

theorem lossLimit_finishes_iff (r : RiskEngine) :
    Finishes (lossLimit fmt r) ↔ LossLimitFits fmt r := by
  unfold lossLimit LossLimitFits
  simp

theorem checkEntry_finishes_iff (r : RiskEngine) (now : DateTime) :
    Finishes (checkEntry fmt r now) ↔ LossLimitFits fmt (r.refresh now) := by
  unfold checkEntry
  rw [finishes_bind_const_iff (P := True) fun _ => iff_true_intro (finishes_pure _), and_true]
  exact lossLimit_finishes_iff _

/-- The budget of a position. -/
def BudgetFits (fmt : NumberFormat) (cfg : Config) (equity deployedUsd : Decimal) : Prop :=
  fmt.Fits (equity * cfg.riskPerTradePct) ∧
  fmt.Fits (fmt.round (equity * cfg.riskPerTradePct) / 100) ∧
  fmt.Fits (equity - deployedUsd)

theorem positionBudget_finishes_iff (cfg : Config) (equity deployedUsd : Decimal) :
    Finishes (positionBudget fmt cfg equity deployedUsd) ↔
      BudgetFits fmt cfg equity deployedUsd := by
  unfold positionBudget BudgetFits
  simp

/-- The slices of a budget: all but the last are its floored quotient, the last is the rest. -/
def SplitFits (fmt : NumberFormat) (total : Decimal) (n : Nat) : Prop :=
  n ≠ 0 → ¬ (n = 1 ∨ total ≤ 0) →
    fmt.Fits (total / n) ∧
    (¬ roundDp 4 (⌊fmt.round (total / n)⌋ : Decimal) ≤ 0 →
      fmt.Fits (roundDp 4 (⌊fmt.round (total / n)⌋ : Decimal) * (n - 1 : Nat)) ∧
      fmt.Fits (total -
        fmt.round (roundDp 4 (⌊fmt.round (total / n)⌋ : Decimal) * (n - 1 : Nat))))

theorem splitIntoSlices_finishes_iff (total : Decimal) (n : Nat) :
    Finishes (splitIntoSlices fmt total n) ↔ SplitFits fmt total n := by
  unfold splitIntoSlices SplitFits
  rw [finishes_ite, finishes_ite, NumberFormat.finishes_div_bind_iff, finishes_ite]
  constructor
  · rintro ⟨-, h⟩ hn hmore
    obtain ⟨-, hquotient, -, hrest⟩ := (h hn).2 hmore
    exact ⟨hquotient, fun hbase => by simpa using hrest hbase⟩
  · intro h
    refine ⟨fun _ => finishes_ok _, fun hn => ⟨fun _ => finishes_ok _, fun hmore => ?_⟩⟩
    obtain ⟨hquotient, hrest⟩ := h hn hmore
    exact ⟨Nat.cast_ne_zero.mpr hn, hquotient, fun _ => finishes_pure _,
      fun hbase => by simpa using hrest hbase⟩

/-- The average entry price after a fill. -/
def AverageFits (fmt : NumberFormat) (pos : Position) (fill : Fill) (newQty : Decimal) : Prop :=
  0 < newQty →
    fmt.Fits (pos.entryPrice * pos.qty) ∧
    fmt.Fits (fill.priceUsd * fill.qty) ∧
    fmt.Fits (fmt.round (pos.entryPrice * pos.qty) + fmt.round (fill.priceUsd * fill.qty)) ∧
    fmt.Fits (fmt.round (fmt.round (pos.entryPrice * pos.qty) +
      fmt.round (fill.priceUsd * fill.qty)) / newQty)

theorem entryAfter_finishes_iff (pos : Position) (fill : Fill) (newQty : Decimal) :
    Finishes (entryAfter fmt pos fill newQty) ↔ AverageFits fmt pos fill newQty := by
  unfold entryAfter AverageFits
  rw [finishes_ite]
  constructor
  · rintro ⟨h, -⟩ hpos
    have hranges := h hpos
    simp only [NumberFormat.finishes_mul_bind_iff, NumberFormat.finishes_add_bind_iff,
      NumberFormat.finishes_div_iff] at hranges
    obtain ⟨hheld, hbought, hsum, -, haverage⟩ := hranges
    exact ⟨hheld, hbought, hsum, haverage⟩
  · intro h
    refine ⟨fun hpos => ?_, fun _ => finishes_ok _⟩
    obtain ⟨hheld, hbought, hsum, haverage⟩ := h hpos
    simp only [NumberFormat.finishes_mul_bind_iff, NumberFormat.finishes_add_bind_iff,
      NumberFormat.finishes_div_iff]
    exact ⟨hheld, hbought, hsum, hpos.ne', haverage⟩

/-- A buy on the book: its cost, the quantity, average and cost of the position, and the
deployed capital. -/
def BookFits (fmt : NumberFormat) (e : Engine Unit) (fill : Fill) (launchpad : Launchpad)
    (liquidityUsd : Decimal) : Prop :=
  fmt.Fits (fill.notionalUsd + fill.feeUsd) ∧
  fmt.Fits ((e.fillTarget fill launchpad liquidityUsd).qty + fill.qty) ∧
  AverageFits fmt (e.fillTarget fill launchpad liquidityUsd) fill
    (fmt.round ((e.fillTarget fill launchpad liquidityUsd).qty + fill.qty)) ∧
  fmt.Fits ((e.fillTarget fill launchpad liquidityUsd).costUsd +
    fmt.round (fill.notionalUsd + fill.feeUsd)) ∧
  fmt.Fits (e.deployedUsd + fmt.round (fill.notionalUsd + fill.feeUsd))

theorem applyBuyFill_finishes_iff (e : Engine Unit) (fill : Fill) (launchpad : Launchpad)
    (liquidityUsd : Decimal) :
    Finishes (applyBuyFill fmt e fill launchpad liquidityUsd) ↔
      BookFits fmt e fill launchpad liquidityUsd := by
  have hdeployed : ∀ pos : Position, Finishes (do
      let deployedUsd ← fmt.add e.deployedUsd (fmt.round (fill.notionalUsd + fill.feeUsd))
      let positions := e.positions.insert fill.mint pos
      return ({ e with
        positions := positions
        deployedUsd := deployedUsd
        risk := e.risk.setOpenPositions positions.keys.card } : Engine Unit)) ↔
      fmt.Fits (e.deployedUsd + fmt.round (fill.notionalUsd + fill.feeUsd)) := by
    intro pos
    simp
  unfold applyBuyFill BookFits
  rw [NumberFormat.finishes_add_bind_iff, finishes_bind_const_iff hdeployed, addFill,
    NumberFormat.finishes_add_bind_iff, finishes_bind_const_iff (P := fmt.Fits
      ((e.fillTarget fill launchpad liquidityUsd).costUsd +
        fmt.round (fill.notionalUsd + fill.feeUsd))) (fun _ => by simp),
    entryAfter_finishes_iff]
  simp only [and_assoc]

/-- A slice the throttle grants inside the window: the order, and its fill on the book. -/
def SliceFits (fmt : NumberFormat) (px : PaperExecutor) (e : Engine Unit) (launch : Launch)
    (deadline : DateTime) (slice : Decimal) : Prop :=
  ¬ deadline < launch.createdAt → (e.risk.checkOrder launch.createdAt).1 = .ok () →
    px.BuyFits fmt
      (Engine.sliceRequest launch deadline slice (e.nextOrderId launch.mint).1) ∧
    ∀ fill, px.checkedBuy fmt
        (Engine.sliceRequest launch deadline slice (e.nextOrderId launch.mint).1) =
          .ok (.ok fill) →
      BookFits fmt e fill launch.launchpad launch.liquidityUsd

theorem sendSlice_finishes_iff (e : Engine Unit) (launch : Launch) (deadline : DateTime)
    (slice : Decimal) :
    Finishes (sendSlice fmt (px.checked fmt) e launch deadline slice) ↔
      px.BuyFits fmt
        (Engine.sliceRequest launch deadline slice (e.nextOrderId launch.mint).1) ∧
      ∀ fill, px.checkedBuy fmt
          (Engine.sliceRequest launch deadline slice (e.nextOrderId launch.mint).1) =
            .ok (.ok fill) →
        BookFits fmt e fill launch.launchpad launch.liquidityUsd := by
  have hbook : ∀ fill, Finishes (do
      let e ← applyBuyFill fmt (e.submitted e.exec) fill launch.launchpad launch.liquidityUsd
      return (e, true)) ↔ BookFits fmt e fill launch.launchpad launch.liquidityUsd := by
    intro fill
    rw [finishes_bind_const_iff (P := True) fun _ => iff_true_intro (finishes_pure _), and_true]
    exact applyBuyFill_finishes_iff (e.submitted e.exec) fill _ _
  rw [← PaperExecutor.checkedBuy_finishes_iff]
  simp only [← hbook]
  exact PaperExecutor.finishes_answer_iff _ e.exec (fun st => (e.submitted st, false))
    fun fill st => do
      let e ← applyBuyFill fmt (e.submitted st) fill launch.launchpad launch.liquidityUsd
      return (e, true)

theorem funnelSlice_finishes_iff (e : Engine Unit) (launch : Launch) (deadline : DateTime)
    (slice : Decimal) :
    Finishes (funnelSlice fmt (px.checked fmt) e launch deadline slice) ↔
      SliceFits fmt px e launch deadline slice := by
  unfold funnelSlice SliceFits
  rw [finishes_ite]
  rcases hcheck : e.risk.checkOrder launch.createdAt with ⟨blocked | granted, risk⟩
  · refine iff_of_true ⟨fun _ => finishes_ok _, fun _ => finishes_ok _⟩ fun _ hgranted => ?_
    cases hgranted
  · have hsend := @sendSlice_finishes_iff fmt px (e.withRisk risk) launch deadline slice
    constructor
    · exact fun h hopen _ => hsend.mp (h.2 hopen)
    · exact fun h => ⟨fun _ => finishes_ok _, fun hopen => hsend.mpr (h hopen rfl)⟩

/-- A funnel: slice by slice, from the state the slices before have led to. -/
def FunnelFits (fmt : NumberFormat) (px : PaperExecutor) (launch : Launch) (deadline : DateTime) :
    List Decimal → Engine Unit → Prop
  | [], _ => True
  | slice :: rest, e =>
      SliceFits fmt px e launch deadline slice ∧
      ∀ e', funnelSlice fmt (px.checked fmt) e launch deadline slice = .ok (e', true) →
        FunnelFits fmt px launch deadline rest e'

theorem funnel_finishes_iff (launch : Launch) (deadline : DateTime) (slices : List Decimal)
    (e : Engine Unit) :
    Finishes (funnel fmt (px.checked fmt) launch deadline slices e) ↔
      FunnelFits fmt px launch deadline slices e := by
  induction slices generalizing e with
  | nil => exact iff_of_true (finishes_ok e) trivial
  | cons slice rest ih =>
      rw [funnel, FunnelFits, finishes_bind_iff, funnelSlice_finishes_iff]
      refine and_congr_right fun _ => ?_
      constructor
      · intro h e' he'
        exact (ih e').mp (h (e', true) he')
      · rintro h ⟨e', continues⟩ he'
        cases continues with
        | false => exact finishes_pure e'
        | true => exact (ih e').mpr (h e' he')

/-- A launch that passes the gate: the loss limit, and if the risk engine lets it in, the
budget, the end of the window, the slices and the funnel. -/
def LaunchFits (fmt : NumberFormat) (px : PaperExecutor) (e : Engine Unit) (launch : Launch) :
    Prop :=
  launch.mint ∉ e.positions → entryGate launch launch.createdAt e.cfg = .ok () →
    LossLimitFits fmt (e.risk.refresh launch.createdAt) ∧
    ∀ risk, checkEntry fmt e.risk launch.createdAt = .ok (none, risk) →
      BudgetFits fmt e.cfg e.equity e.deployedUsd ∧
      ∀ budget, positionBudget fmt e.cfg e.equity e.deployedUsd = .ok budget → ¬ budget ≤ 0 →
        Finishes (deadlineOf e.cfg launch) ∧
        ∀ deadline, deadlineOf e.cfg launch = .ok deadline →
          SplitFits fmt budget e.cfg.funnelSlices ∧
          ∀ slices, splitIntoSlices fmt budget e.cfg.funnelSlices = .ok slices →
            FunnelFits fmt px launch deadline slices (e.withRisk risk)

theorem onLaunch_finishes_iff (e : Engine Unit) (launch : Launch) :
    Finishes (onLaunch fmt (px.checked fmt) e launch) ↔ LaunchFits fmt px e launch := by
  unfold onLaunch LaunchFits
  dsimp only
  rw [finishes_ite]
  cases hgate : entryGate launch launch.createdAt e.cfg with
  | error err =>
      refine iff_of_true ⟨fun _ => finishes_ok e, fun _ => finishes_ok e⟩ fun _ hpass => ?_
      cases hpass
  | ok passed =>
      dsimp only
      rw [finishes_bind_iff, checkEntry_finishes_iff]
      have hrest : ∀ blocked risk, Finishes (if blocked.isSome = true then
            pure (e.withRisk risk)
          else do
            let budget ← positionBudget fmt e.cfg e.equity e.deployedUsd
            if budget ≤ 0 then
              return e.withRisk risk
            else
              let deadline ← deadlineOf e.cfg launch
              let slices ← splitIntoSlices fmt budget e.cfg.funnelSlices
              funnel fmt (px.checked fmt) launch deadline slices (e.withRisk risk) :
            Except ArithStop (Engine Unit)) ↔
          ((blocked : Option BlockReason) = none →
            BudgetFits fmt e.cfg e.equity e.deployedUsd ∧
            ∀ budget, positionBudget fmt e.cfg e.equity e.deployedUsd = .ok budget →
              ¬ budget ≤ 0 → Finishes (deadlineOf e.cfg launch) ∧
                ∀ deadline, deadlineOf e.cfg launch = .ok deadline →
                  SplitFits fmt budget e.cfg.funnelSlices ∧
                  ∀ slices, splitIntoSlices fmt budget e.cfg.funnelSlices = .ok slices →
                    FunnelFits fmt px launch deadline slices (e.withRisk risk)) := by
        intro blocked risk
        simp only [finishes_ite, finishes_bind_iff, positionBudget_finishes_iff,
          splitIntoSlices_finishes_iff, funnel_finishes_iff, finishes_pure, implies_true, true_and,
          Bool.not_eq_true, Option.isSome_eq_false_iff, Option.isNone_iff_eq_none]
      constructor
      · intro h hunheld _
        obtain ⟨hlimit, hgo⟩ := h.2 hunheld
        exact ⟨hlimit, fun risk hcheck => (hrest none risk).mp (hgo (none, risk) hcheck) rfl⟩
      · intro h
        refine ⟨fun _ => finishes_ok e, fun hunheld => ?_⟩
        obtain ⟨hlimit, hgo⟩ := h hunheld rfl
        refine ⟨hlimit, ?_⟩
        rintro ⟨blocked, risk⟩ hcheck
        refine (hrest blocked risk).mpr fun hblocked => ?_
        rw [hblocked] at hcheck
        exact hgo risk hcheck

/-! ## Exits -/

/-- The unrealized P&L in percent. -/
def PnlPctFits (fmt : NumberFormat) (pos : Position) (price : Decimal) : Prop :=
  pos.entryPrice ≠ 0 →
    fmt.Fits (price - pos.entryPrice) ∧
    fmt.Fits (fmt.round (price - pos.entryPrice) / pos.entryPrice) ∧
    fmt.Fits (fmt.round (fmt.round (price - pos.entryPrice) / pos.entryPrice) * 100)

theorem unrealizedPnlPct_finishes_iff (pos : Position) (price : Decimal) :
    Finishes (unrealizedPnlPct fmt pos price) ↔ PnlPctFits fmt pos price := by
  unfold unrealizedPnlPct PnlPctFits
  rw [finishes_ite]
  constructor
  · rintro ⟨-, h⟩ hentry
    have hranges := h hentry
    simp only [NumberFormat.finishes_sub_bind_iff, NumberFormat.finishes_div_bind_iff,
      NumberFormat.finishes_mul_iff] at hranges
    obtain ⟨hgain, -, hratio, hpct⟩ := hranges
    exact ⟨hgain, hratio, hpct⟩
  · intro h
    refine ⟨fun _ => finishes_ok _, fun hentry => ?_⟩
    obtain ⟨hgain, hratio, hpct⟩ := h hentry
    simp only [NumberFormat.finishes_sub_bind_iff, NumberFormat.finishes_div_bind_iff,
      NumberFormat.finishes_mul_iff]
    exact ⟨hgain, hentry, hratio, hpct⟩

/-- The price so many percent below the high-water mark. -/
def BelowFits (fmt : NumberFormat) (highWater pct : Decimal) : Prop :=
  fmt.Fits (pct / 100) ∧
  fmt.Fits (1 - fmt.round (pct / 100)) ∧
  fmt.Fits (highWater * fmt.round (1 - fmt.round (pct / 100)))

theorem below_finishes_iff (highWater pct : Decimal) :
    Finishes (below fmt highWater pct) ↔ BelowFits fmt highWater pct := by
  unfold below BelowFits
  simp

/-- The exit rules: the unrealized P&L, and the stop that is looked at with it. -/
def RulesFit (fmt : NumberFormat) (cfg : Config) (pos : Position) (price : Decimal) : Prop :=
  PnlPctFits fmt pos price ∧
  ∀ pnlPct, unrealizedPnlPct fmt pos price = .ok pnlPct →
    match pos.mode with
    | .flip => ¬ cfg.convictionMinPct ≤ pnlPct → ¬ cfg.takeProfitPct ≤ pnlPct →
        BelowFits fmt pos.highWater cfg.stopLossPct
    | .conviction => BelowFits fmt pos.highWater cfg.trailPct

theorem onPrice_finishes_iff (pos : Position) (price : Decimal) (now : DateTime) (cfg : Config) :
    Finishes (onPrice fmt pos price now cfg) ↔ RulesFit fmt cfg (pos.mark price) price := by
  unfold onPrice RulesFit
  dsimp only
  rw [finishes_bind_iff, unrealizedPnlPct_finishes_iff]
  refine and_congr_right fun _ => forall₂_congr fun pnlPct _ => ?_
  cases (pos.mark price).mode with
  | flip =>
      dsimp only
      rw [finishes_ite, finishes_ite, finishes_bind_const_iff (P := True) fun stopPrice =>
        iff_true_intro (by split_ifs <;> exact finishes_pure _), and_true, below_finishes_iff]
      simp
  | conviction =>
      dsimp only
      rw [finishes_bind_const_iff (P := True) fun trailStop =>
        iff_true_intro (by split_ifs <;> exact finishes_pure _), and_true, below_finishes_iff]

/-- The P&L of a closed trade, and its percentage. -/
def TradeFits (fmt : NumberFormat) (x : ExitArgs) (fill : Fill) : Prop :=
  fmt.Fits (fill.notionalUsd - fill.feeUsd) ∧
  fmt.Fits (roundDp fillDp (fmt.round (fill.notionalUsd - fill.feeUsd)) - x.cost) ∧
  (x.cost ≠ 0 →
    fmt.Fits (fmt.round
      (roundDp fillDp (fmt.round (fill.notionalUsd - fill.feeUsd)) - x.cost) / x.cost) ∧
    fmt.Fits (fmt.round (fmt.round
      (roundDp fillDp (fmt.round (fill.notionalUsd - fill.feeUsd)) - x.cost) / x.cost) * 100))

theorem tradeOf_finishes_iff (x : ExitArgs) (fill : Fill) (now : DateTime) :
    Finishes (tradeOf fmt x fill now) ↔ TradeFits fmt x fill := by
  have hpct : ∀ pnlUsd, Finishes (pnlPctOf fmt pnlUsd x.cost) ↔
      (x.cost ≠ 0 → fmt.Fits (pnlUsd / x.cost) ∧ fmt.Fits (fmt.round (pnlUsd / x.cost) * 100)) := by
    intro pnlUsd
    unfold pnlPctOf
    rw [finishes_ite]
    constructor
    · rintro ⟨-, h⟩ hcost
      have hranges := h hcost
      rw [NumberFormat.finishes_div_bind_iff] at hranges
      exact ⟨hranges.2.1, by simpa using hranges.2.2⟩
    · intro h
      refine ⟨fun _ => finishes_ok _, fun hcost => ?_⟩
      rw [NumberFormat.finishes_div_bind_iff]
      exact ⟨hcost, (h hcost).1, by simpa using (h hcost).2⟩
  unfold tradeOf TradeFits
  dsimp only
  rw [NumberFormat.finishes_sub_bind_iff, NumberFormat.finishes_sub_bind_iff,
    finishes_bind_const_iff (P := True) fun _ => iff_true_intro (finishes_pure _), and_true, hpct]

/-- A closed trade in the ledger: equity, deployed capital, the P&L of the day and the loss
limit. -/
def LedgerFits (fmt : NumberFormat) (e : Engine Unit) (now : DateTime) (trade : ClosedTrade) :
    Prop :=
  fmt.Fits (e.equity + trade.pnlUsd) ∧
  fmt.Fits (e.deployedUsd - trade.costUsd) ∧
  fmt.Fits ((e.risk.maybeRollover now).dayRealizedPnl + trade.pnlUsd) ∧
  LossLimitFits fmt (e.risk.maybeRollover now)

theorem settle_finishes_iff (e : Engine Unit) (now : DateTime) (trade : ClosedTrade) :
    Finishes (settle fmt e now trade) ↔ LedgerFits fmt e now trade := by
  unfold settle LedgerFits recordRealizedPnl
  dsimp only
  rw [NumberFormat.finishes_add_bind_iff, NumberFormat.finishes_sub_bind_iff,
    finishes_bind_const_iff (P := True) fun _ => iff_true_intro (finishes_pure _), and_true,
    NumberFormat.finishes_add_bind_iff,
    finishes_bind_const_iff (P := True) fun _ => iff_true_intro (finishes_pure _), and_true,
    lossLimit_finishes_iff]

/-- An exit: the order, and if it fills, the trade and the ledger. -/
def ExitFits (fmt : NumberFormat) (px : PaperExecutor) (e : Engine Unit) (x : ExitArgs)
    (now : DateTime) : Prop :=
  px.SellFits fmt (Engine.sellRequest x now (e.nextOrderId x.mint).1) ∧
  ∀ fill, px.checkedSell fmt (Engine.sellRequest x now (e.nextOrderId x.mint).1) =
      .ok (.ok fill) →
    TradeFits fmt x fill ∧
    ∀ trade, tradeOf fmt x fill now = .ok trade →
      LedgerFits fmt (e.withRisk (e.risk.noteSide .sell now)) now trade

theorem closePosition_finishes_iff (e : Engine Unit) (x : ExitArgs) (now : DateTime) :
    Finishes (closePosition fmt (px.checked fmt) e x now) ↔ ExitFits fmt px e x now := by
  have hsettle : ∀ fill, Finishes (do
      let trade ← tradeOf fmt x fill now
      settle fmt ((e.withRisk (e.risk.noteSide .sell now)).submitted e.exec) now trade) ↔
        TradeFits fmt x fill ∧ ∀ trade, tradeOf fmt x fill now = .ok trade →
          LedgerFits fmt (e.withRisk (e.risk.noteSide .sell now)) now trade := by
    intro fill
    rw [finishes_bind_iff, tradeOf_finishes_iff]
    refine and_congr_right fun _ => forall₂_congr fun trade _ => ?_
    exact settle_finishes_iff ((e.withRisk (e.risk.noteSide .sell now)).submitted e.exec) now trade
  unfold ExitFits
  rw [← PaperExecutor.checkedSell_finishes_iff]
  simp only [← hsettle]
  exact PaperExecutor.finishes_answer_iff _ e.exec
    (fun st => ((e.withRisk (e.risk.noteSide .sell now)).submitted st).countFailure x.mint)
    fun fill st => do
      let trade ← tradeOf fmt x fill now
      settle fmt ((e.withRisk (e.risk.noteSide .sell now)).submitted st) now trade

/-- A sweep: exit by exit, from the state the exits before have led to. -/
def SweepFits (fmt : NumberFormat) (px : PaperExecutor) (now : DateTime) :
    List ExitArgs → Engine Unit → Prop
  | [], _ => True
  | x :: rest, e =>
      ExitFits fmt px e x now ∧
      ∀ e', closePosition fmt (px.checked fmt) e x now = .ok e' → SweepFits fmt px now rest e'

theorem sweep_finishes_iff (now : DateTime) (exits : List ExitArgs) (e : Engine Unit) :
    Finishes (exits.foldlM (fun e x => closePosition fmt (px.checked fmt) e x now) e) ↔
      SweepFits fmt px now exits e := by
  induction exits generalizing e with
  | nil => exact iff_of_true (finishes_pure e) trivial
  | cons x rest ih =>
      rw [List.foldlM_cons, SweepFits, finishes_bind_iff, closePosition_finishes_iff]
      exact and_congr_right fun _ => forall₂_congr fun e' _ => ih e'

/-! ## Events -/

/-- A tick of a held mint: the exit rules, and the exit they decide on. -/
def PriceFits (fmt : NumberFormat) (px : PaperExecutor) (e : Engine Unit) (pu : PriceUpdate) :
    Prop :=
  ∀ pos, e.positions.lookup pu.mint = some pos →
    RulesFit fmt e.cfg (({ pos with
      lastPrice := pu.priceUsd
      lastLiquidityUsd := pu.liquidityUsd } : Position).mark pu.priceUsd) pu.priceUsd ∧
    ∀ pos' d, onPrice fmt { pos with
        lastPrice := pu.priceUsd
        lastLiquidityUsd := pu.liquidityUsd } pu.priceUsd pu.ts e.cfg = .ok (pos', some d) →
      ExitFits fmt px { e with positions := e.positions.insert pu.mint pos' }
        (pos'.exitArgs pu.priceUsd pu.liquidityUsd d.reason) pu.ts

theorem onPriceUpdate_finishes_iff (e : Engine Unit) (pu : PriceUpdate) :
    Finishes (onPriceUpdate fmt (px.checked fmt) e pu) ↔ PriceFits fmt px e pu := by
  unfold onPriceUpdate PriceFits
  cases hlookup : e.positions.lookup pu.mint with
  | none =>
      refine iff_of_true (finishes_ok e) fun pos hpos => ?_
      cases hpos
  | some pos =>
      dsimp only
      rw [finishes_bind_iff, onPrice_finishes_iff]
      constructor
      · rintro ⟨hrules, hrest⟩ pos' hpos'
        cases hpos'
        exact ⟨hrules, fun pos' d hd => (closePosition_finishes_iff _ _ _).mp (hrest _ hd)⟩
      · intro h
        obtain ⟨hrules, hexit⟩ := h pos rfl
        refine ⟨hrules, ?_⟩
        rintro ⟨pos', decision⟩ hdecision
        cases decision with
        | none => exact finishes_pure _
        | some d => exact (closePosition_finishes_iff _ _ _).mpr (hexit pos' d hdecision)

/-- An event: its handler, and the sweep after it. -/
def EventFits (fmt : NumberFormat) (px : PaperExecutor) (o : KeyOrder Mint) (e : Engine Unit)
    (ev : Event) : Prop :=
  (match ev with
    | .launch launch => LaunchFits fmt px e launch
    | .price pu => PriceFits fmt px e pu) ∧
  ∀ m, handle fmt (px.checked fmt) e ev = .ok m →
    SweepFits fmt px ev.ts ((m.positions.valuesIn o).filterMap (Engine.timeStopExit m.cfg ev.ts)) m

/-- The paper engine handles an event exactly if its ranges are kept. -/
theorem onEvent_finishes_iff (px : PaperExecutor) (o : KeyOrder Mint) (e : Engine Unit)
    (ev : Event) :
    Finishes (onEvent fmt (px.checked fmt) o e ev) ↔ EventFits fmt px o e ev := by
  have hhandle : Finishes (handle fmt (px.checked fmt) e ev) ↔
      match ev with
      | .launch launch => LaunchFits fmt px e launch
      | .price pu => PriceFits fmt px e pu := by
    cases ev with
    | launch launch => exact onLaunch_finishes_iff e launch
    | price pu => exact onPriceUpdate_finishes_iff e pu
  unfold onEvent EventFits
  rw [finishes_bind_iff, hhandle]
  exact and_congr_right fun _ => forall₂_congr fun m _ => sweep_finishes_iff _ _ m

end Machine

end HfmcBot
