import HfmcBot.Engine.Snapshot
import HfmcBot.Foundation.Checked

/-!
# The engine in checked decimals

`Engine` computes in exact numbers.  The operators of the source's number type round a result
that takes more than ninety-six bits or twenty-eight places, and stop the program beyond the
largest one.  Where the outcome hangs on that, the engine is run here: the same functions over
the same state, with every operator of the source a checked one, in the source's order.

The audit log and the alerts are left out: nothing of the state is computed from them.

* `CheckedExecutor`: an executor that may stop the program; any `Executor`, with whatever
  rounding of its own, is one that does not;
* `Machine.onEvent`, `Machine.restore`: the two ways a state changes;
* `Machine.Reachable`: the states a process reaches;
* `Machine.Reachable.held`: what a snapshot relies on holds of all of them, however the
  amounts were rounded.
-/

namespace HfmcBot

open Foundation

/-- Order router whose own arithmetic may stop the program. -/
structure CheckedExecutor (σ : Type) where
  buy : BuyRequest → σ → Except ArithStop (Answer × σ)
  sell : SellRequest → σ → Except ArithStop (Answer × σ)

/-- An executor that never does. -/
def Executor.lifted {σ : Type} (ex : Executor σ) : CheckedExecutor σ where
  buy req st := .ok (ex.buy req st)
  sell req st := .ok (ex.sell req st)

instance {σ : Type} : Coe (Executor σ) (CheckedExecutor σ) := ⟨Executor.lifted⟩

namespace Machine

variable {σ : Type} (fmt : NumberFormat)

/-- The format of the source's number type. -/
def decimals : NumberFormat where
  limit := maxDecimal
  round := roundDecimal

/-! ## Risk -/

/-- The day P&L at or below which the daily-loss breaker trips. -/
def lossLimit (r : RiskEngine) : Except ArithStop Decimal := do
  let scaled ← fmt.mul (-r.equity) r.cfg.dailyLossLimitPct
  fmt.div scaled 100

/-- The breaker after the day has come to a P&L. -/
def tripAt (r : RiskEngine) (day limit : Decimal) : RiskEngine :=
  { r with
    dayRealizedPnl := day
    dailyLossTripped := r.dailyLossTripped || decide (day ≤ limit) }

def recordRealizedPnl (r : RiskEngine) (pnlUsd : Decimal) (now : DateTime) :
    Except ArithStop RiskEngine := do
  let r := r.maybeRollover now
  let day ← fmt.add r.dayRealizedPnl pnlUsd
  let limit ← lossLimit fmt r
  return tripAt r day limit

/-- The answer is `none` where an entry is allowed. -/
def checkEntry (r : RiskEngine) (now : DateTime) :
    Except ArithStop (Option BlockReason × RiskEngine) := do
  let r := r.refresh now
  let limit ← lossLimit fmt r
  return (
    if r.dailyLossTripped ∨ r.dayRealizedPnl ≤ limit then
      some (.dailyLossLimit r.dayRealizedPnl r.cfg.dailyLossLimitPct r.equity)
    else if r.kill then some .killSwitch
    else if r.cfg.maxOpenPositions ≤ r.openPositions then
      some (.openPositionCap r.openPositions r.cfg.maxOpenPositions)
    else if r.throttleFull then
      some (.throttled (asU32 r.recentOrders.length) r.cfg.maxTradesPerMin)
    else none, r)

/-! ## Sizing -/

def positionBudget (cfg : Config) (equity deployedUsd : Decimal) :
    Except ArithStop Decimal := do
  let scaled ← fmt.mul equity cfg.riskPerTradePct
  let riskCap ← fmt.div scaled 100
  let budget := min riskCap cfg.maxSinglePosUsd
  let free ← fmt.sub equity deployedUsd
  return if free < 0 ∨ free < budget then max free 0 else budget

def splitIntoSlices (total : Decimal) (n : Nat) : Except ArithStop (List Decimal) :=
  if n = 0 then .ok []
  else if n = 1 ∨ total ≤ 0 then .ok [total]
  else do
    let quotient ← fmt.div total n
    let base := roundDp 4 (⌊quotient⌋ : Decimal)
    if base ≤ 0 then
      return [total]
    else
      let product ← fmt.mul base (n - 1 : Nat)
      let last ← fmt.sub total product
      return List.replicate (n - 1) base ++ [last]

/-! ## Entries -/

/-- The entry price of a position after a fill. -/
def entryAfter (pos : Position) (fill : Fill) (newQty : Decimal) : Except ArithStop Decimal :=
  if 0 < newQty then do
    let held ← fmt.mul pos.entryPrice pos.qty
    let bought ← fmt.mul fill.priceUsd fill.qty
    let weighted ← fmt.add held bought
    fmt.div weighted newQty
  else .ok pos.entryPrice

def addFill (pos : Position) (fill : Fill) (cost liquidityUsd : Decimal) :
    Except ArithStop Position := do
  let newQty ← fmt.add pos.qty fill.qty
  let entryPrice ← entryAfter fmt pos fill newQty
  let costUsd ← fmt.add pos.costUsd cost
  return { pos with
    entryPrice := entryPrice
    qty := newQty
    costUsd := costUsd
    lastPrice := fill.priceUsd
    lastLiquidityUsd := liquidityUsd
    highWater := if pos.highWater < fill.priceUsd then fill.priceUsd else pos.highWater }

def applyBuyFill (e : Engine σ) (fill : Fill) (launchpad : Launchpad) (liquidityUsd : Decimal) :
    Except ArithStop (Engine σ) := do
  let cost ← fmt.add fill.notionalUsd fill.feeUsd
  let pos ← addFill fmt (e.fillTarget fill launchpad liquidityUsd) fill cost liquidityUsd
  let deployedUsd ← fmt.add e.deployedUsd cost
  let positions := e.positions.insert fill.mint pos
  return { e with
    positions := positions
    deployedUsd := deployedUsd
    risk := e.risk.setOpenPositions positions.keys.card }

/-- Send one slice the throttle has granted.  The flag tells whether the funnel goes on. -/
def sendSlice (ex : CheckedExecutor σ) (e : Engine σ) (launch : Launch) (deadline : DateTime)
    (slice : Decimal) : Except ArithStop (Engine σ × Bool) := do
  let (answer, st) ← ex.buy
    (Engine.sliceRequest launch deadline slice (e.nextOrderId launch.mint).1) e.exec
  match answer with
  | .error _ => return (e.submitted st, false)
  | .ok fill => do
      let e ← applyBuyFill fmt (e.submitted st) fill launch.launchpad launch.liquidityUsd
      return (e, true)

def funnelSlice (ex : CheckedExecutor σ) (e : Engine σ) (launch : Launch) (deadline : DateTime)
    (slice : Decimal) : Except ArithStop (Engine σ × Bool) :=
  if deadline < launch.createdAt then .ok (e, false)
  else
    match e.risk.checkOrder launch.createdAt with
    | (.error _, risk) => .ok (e.withRisk risk, false)
    | (.ok (), risk) => sendSlice fmt ex (e.withRisk risk) launch deadline slice

/-- The funnel loop: slices back-to-back until one of them stops it. -/
def funnel (ex : CheckedExecutor σ) (launch : Launch) (deadline : DateTime) :
    List Decimal → Engine σ → Except ArithStop (Engine σ)
  | [], e => .ok e
  | slice :: rest, e => do
      let (e', continues) ← funnelSlice fmt ex e launch deadline slice
      if continues then funnel ex launch deadline rest e' else return e'

/-- The end of the funnel window, in the range of the time library. -/
def deadlineOf (cfg : Config) (launch : Launch) : Except ArithStop DateTime :=
  match Engine.checkedDeadline cfg launch with
  | some deadline => .ok deadline
  | none => .error .overflow

def onLaunch (ex : CheckedExecutor σ) (e : Engine σ) (launch : Launch) :
    Except ArithStop (Engine σ) :=
  let now := launch.createdAt
  if launch.mint ∈ e.positions then .ok e
  else
    match entryGate launch now e.cfg with
    | .error _ => .ok e
    | .ok () => do
        let (blocked, risk) ← checkEntry fmt e.risk now
        let e := e.withRisk risk
        if blocked.isSome then
          return e
        else
          let budget ← positionBudget fmt e.cfg e.equity e.deployedUsd
          if budget ≤ 0 then
            return e
          else
            let deadline ← deadlineOf e.cfg launch
            let slices ← splitIntoSlices fmt budget e.cfg.funnelSlices
            funnel fmt ex launch deadline slices e

/-! ## Exits -/

def unrealizedPnlPct (pos : Position) (price : Decimal) : Except ArithStop Decimal :=
  if pos.entryPrice = 0 then .ok 0
  else do
    let gain ← fmt.sub price pos.entryPrice
    let ratio ← fmt.div gain pos.entryPrice
    fmt.mul ratio 100

/-- The price so many percent below the high-water mark. -/
def below (highWater pct : Decimal) : Except ArithStop Decimal := do
  let part ← fmt.div pct 100
  let factor ← fmt.sub 1 part
  fmt.mul highWater factor

def onPrice (pos : Position) (price : Decimal) (now : DateTime) (cfg : Config) :
    Except ArithStop (Position × Option ExitDecision) := do
  let pos := pos.mark price
  let pnlPct ← unrealizedPnlPct fmt pos price
  match pos.mode with
  | .flip =>
      if cfg.convictionMinPct ≤ pnlPct then
        return ({ pos with mode := .conviction }, none)
      else if cfg.takeProfitPct ≤ pnlPct then
        return (pos, some ⟨"take_profit"⟩)
      else
        let stopPrice ← below fmt pos.highWater cfg.stopLossPct
        if price ≤ stopPrice then
          return (pos, some ⟨"stop_loss"⟩)
        else if asI64 cfg.maxHoldSecs ≤ numSeconds (now - pos.openedAt) then
          return (pos, some ⟨"max_hold"⟩)
        else return (pos, none)
  | .conviction =>
      let trailStop ← below fmt pos.highWater cfg.trailPct
      if price ≤ trailStop then
        return (pos, some ⟨"trail_stop"⟩)
      else if asI64 cfg.convictionMaxHoldSecs ≤ numSeconds (now - pos.openedAt) then
        return (pos, some ⟨"conviction_max_hold"⟩)
      else return (pos, none)

/-- The P&L of a closed trade in percent of its cost. -/
def pnlPctOf (pnlUsd cost : Decimal) : Except ArithStop Decimal :=
  if cost = 0 then .ok 0
  else do
    let ratio ← fmt.div pnlUsd cost
    let pct ← fmt.mul ratio 100
    return roundDp fillDp pct

/-- The closed trade of a filled exit. -/
def tradeOf (x : ExitArgs) (fill : Fill) (now : DateTime) : Except ArithStop ClosedTrade := do
  let net ← fmt.sub fill.notionalUsd fill.feeUsd
  let proceeds := roundDp fillDp net
  let pnlUsd ← fmt.sub proceeds x.cost
  let pnlPct ← pnlPctOf fmt pnlUsd x.cost
  return {
    mint := x.mint
    openedAt := fill.ts
    closedAt := now
    entryPrice := x.entryPrice
    exitPrice := fill.priceUsd
    qty := fill.qty
    costUsd := x.cost
    proceedsUsd := proceeds
    pnlUsd := pnlUsd
    pnlPct := pnlPct
    exitReason := x.reason
    mode := x.mode }

/-- Book a closed trade and drop its position. -/
def settle (e : Engine σ) (now : DateTime) (trade : ClosedTrade) :
    Except ArithStop (Engine σ) := do
  let equity ← fmt.add e.equity trade.pnlUsd
  let deployedUsd ← fmt.sub e.deployedUsd trade.costUsd
  let risk ← recordRealizedPnl fmt e.risk trade.pnlUsd now
  let positions := e.positions.erase trade.mint
  return { e with
    equity := equity
    deployedUsd := deployedUsd
    risk := risk.setOpenPositions positions.keys.card
    positions := positions
    closed := e.closed ++ [trade] }

/-- Flatten a position. -/
def closePosition (ex : CheckedExecutor σ) (e : Engine σ) (x : ExitArgs) (now : DateTime) :
    Except ArithStop (Engine σ) := do
  let e := e.withRisk (e.risk.noteSide .sell now)
  let (answer, st) ← ex.sell (Engine.sellRequest x now (e.nextOrderId x.mint).1) e.exec
  match answer with
  | .error _ => return (e.submitted st).countFailure x.mint
  | .ok fill => do
      let trade ← tradeOf fmt x fill now
      settle fmt (e.submitted st) now trade

/-- Flatten positions whose time stop elapsed, in the order in which the book is visited. -/
def sweepTimeStops (ex : CheckedExecutor σ) (o : KeyOrder Mint) (e : Engine σ) (now : DateTime) :
    Except ArithStop (Engine σ) :=
  ((e.positions.valuesIn o).filterMap (Engine.timeStopExit e.cfg now)).foldlM
    (fun e x => closePosition fmt ex e x now) e

def onPriceUpdate (ex : CheckedExecutor σ) (e : Engine σ) (pu : PriceUpdate) :
    Except ArithStop (Engine σ) :=
  match e.positions.lookup pu.mint with
  | none => .ok e
  | some pos => do
      let (pos, decision) ← onPrice fmt
        { pos with lastPrice := pu.priceUsd, lastLiquidityUsd := pu.liquidityUsd }
        pu.priceUsd pu.ts e.cfg
      let e := { e with positions := e.positions.insert pu.mint pos }
      match decision with
      | none => return e
      | some d =>
          closePosition fmt ex e (pos.exitArgs pu.priceUsd pu.liquidityUsd d.reason) pu.ts

/-! ## Events and snapshots -/

def handle (ex : CheckedExecutor σ) (e : Engine σ) : Event → Except ArithStop (Engine σ)
  | .launch l => onLaunch fmt ex e l
  | .price p => onPriceUpdate fmt ex e p

/-- One event: its handler, then the time-stop sweep. -/
def onEvent (ex : CheckedExecutor σ) (o : KeyOrder Mint) (e : Engine σ) (ev : Event) :
    Except ArithStop (Engine σ) := do
  let e ← handle fmt ex e ev
  sweepTimeStops fmt ex o e ev.ts

/-- A whole run. -/
def run (ex : CheckedExecutor σ) (e : Engine σ) (ds : List Delivery) :
    Except ArithStop (Engine σ) :=
  ds.foldlM (fun e d => onEvent fmt ex d.order e d.ev) e

/-- The sum of the costs on the book, in the order in which it is visited. -/
def openCost (o : KeyOrder Mint) (e : Engine σ) : Except ArithStop Decimal :=
  fmt.sum ((e.positions.valuesIn o).map Position.costUsd)

/-- The first closed trade whose P&L is not its proceeds less its cost. -/
def falseTrade : List ClosedTrade → Except ArithStop (Option ClosedTrade)
  | [] => .ok none
  | t :: rest => do
      let pnlUsd ← fmt.sub t.proceedsUsd t.costUsd
      if t.pnlUsd ≠ pnlUsd then return some t else falseTrade rest

/-- P&L conservation and deployed-capital reconciliation. -/
def checkInvariants (o : KeyOrder Mint) (e : Engine σ) :
    Except ArithStop (Except Text Unit) := do
  let closedPnl ← fmt.sum (e.closed.map ClosedTrade.pnlUsd)
  let expected ← fmt.add e.cfg.equityUsd closedPnl
  if e.equity ≠ expected then
    return .error ["equity $", .dec e.equity, " != start $", .dec e.cfg.equityUsd,
      " + realized $", .dec closedPnl]
  else
    let openCostUsd ← openCost fmt o e
    if e.deployedUsd ≠ openCostUsd then
      return .error ["deployed $", .dec e.deployedUsd, " != Σ open position cost $",
        .dec openCostUsd]
    else
      match (e.positions.valuesIn o).find? fun p => p.qty ≤ 0 ∨ p.costUsd ≤ 0 with
      | some p =>
          return .error ["open position ", p.mint, " has qty ", .dec p.qty, " / cost $",
            .dec p.costUsd]
      | none =>
          match ← falseTrade fmt e.closed with
          | some t =>
              return .error ["closed trade ", t.mint, ": pnl $", .dec t.pnlUsd,
                " != proceeds $", .dec t.proceedsUsd, " − cost $", .dec t.costUsd]
          | none => return .ok ()

/-- The log of an engine whose records are left out. -/
def quiet : AuditLog := .opened fun _ => false

/-- A fresh engine. -/
def new (cfg : Config) (st : σ) (today : Int) : Engine σ := Engine.new cfg st quiet today

/-- Rebuild an engine from a snapshot; a book that fails the money checks is refused. -/
def restore (cfg : Config) (st : σ) (today : Int) (o : KeyOrder Mint) (snap : EngineState) :
    Except ArithStop (Except Text (Engine σ)) := do
  let e := Engine.rebuilt cfg st quiet today snap
  match ← checkInvariants fmt o e with
  | .error msg => return .error msg
  | .ok () => return .ok e

/-- The states a process reaches with a configuration: from a fresh start, by events, and by
restarts from its own snapshots. -/
inductive Reachable (ex : CheckedExecutor σ) (cfg : Config) : Engine σ → Prop
  | new (st : σ) (today : Int) : Reachable ex cfg (new cfg st today)
  | event {e e' : Engine σ} (d : Delivery) (h : Reachable ex cfg e)
      (hevent : onEvent fmt ex d.order e d.ev = .ok e') : Reachable ex cfg e'
  | restored {e e' : Engine σ} (st : σ) (today : Int) (save load : KeyOrder Mint)
      (h : Reachable ex cfg e)
      (hrestore : restore fmt cfg st today load (e.state save) = .ok (.ok e')) :
      Reachable ex cfg e'

/-! ## What no rounding touches

The configuration, the kill flag, the mint a position is stored under and the count of the
book do not depend on any amount. -/

/-- The settings of the risk engine, which no operation changes. -/
structure RiskFrame (r r' : RiskEngine) : Prop where
  cfg : r'.cfg = r.cfg
  equity : r'.equity = r.equity
  kill : r'.kill = r.kill

/-- The states a snapshot can be taken of: resumable, and with nothing in the logs. -/
structure Held (cfg : Config) (e : Engine σ) : Prop extends e.Resumable cfg where
  audit : e.audit = quiet
  alerter : e.alerter = none

variable {fmt} {cfg : Config} {e e' : Engine σ} {ex : CheckedExecutor σ}

theorem RiskFrame.refresh (r : RiskEngine) (now : DateTime) : RiskFrame r (r.refresh now) :=
  ⟨r.refresh_cfg now, r.refresh_equity now, r.refresh_kill now⟩

theorem RiskFrame.recordRealizedPnl {r r' : RiskEngine} {pnlUsd : Decimal} {now : DateTime}
    (h : recordRealizedPnl fmt r pnlUsd now = .ok r') : RiskFrame r r' := by
  obtain ⟨day, -, h⟩ := exists_of_except_bind h
  obtain ⟨limit, -, h⟩ := exists_of_except_bind h
  cases h
  exact ⟨r.maybeRollover_cfg now, r.maybeRollover_equity now, r.maybeRollover_kill now⟩

/-- A state stays held if its settings stay and its book is keyed and counted. -/
theorem Held.of_fields (h : Held cfg e) (hcfg : e'.cfg = e.cfg)
    (hrisk : RiskFrame e.risk e'.risk) (hkeyed : e'.Keyed)
    (hcounter : e'.risk.openPositions = e'.positions.keys.card) (haudit : e'.audit = e.audit)
    (halerter : e'.alerter = e.alerter) : Held cfg e' where
  toResumable := h.toResumable.of_fields hcfg hrisk.cfg hrisk.equity hrisk.kill hkeyed hcounter
  audit := haudit.trans h.audit
  alerter := halerter.trans h.alerter

theorem Held.new (cfg : Config) (st : σ) (today : Int) : Held cfg (new cfg st today) where
  toResumable := ⟨rfl, rfl, rfl, id, Engine.keyed_new cfg st quiet today, rfl⟩
  audit := rfl
  alerter := rfl

theorem Held.withRisk (h : Held cfg e) {risk : RiskEngine} (hrisk : RiskFrame e.risk risk)
    (hcounter : risk.openPositions = e.risk.openPositions) : Held cfg (e.withRisk risk) :=
  h.of_fields rfl hrisk h.keyed (hcounter.trans h.counter) rfl rfl

theorem Held.pushOrder (h : Held cfg e) (now : DateTime) :
    Held cfg (e.withRisk (e.risk.pushOrder now)) := h.withRisk ⟨rfl, rfl, rfl⟩ rfl

theorem Held.submitted (h : Held cfg e) (st : σ) : Held cfg (e.submitted st) :=
  h.of_fields rfl ⟨rfl, rfl, rfl⟩ h.keyed h.counter rfl rfl

theorem addFill_mint {pos pos' : Position} {fill : Fill} {cost liquidityUsd : Decimal}
    (h : addFill fmt pos fill cost liquidityUsd = .ok pos') : pos'.mint = pos.mint := by
  obtain ⟨newQty, -, h⟩ := exists_of_except_bind h
  obtain ⟨entryPrice, -, h⟩ := exists_of_except_bind h
  obtain ⟨costUsd, -, h⟩ := exists_of_except_bind h
  cases h
  rfl

theorem Held.applyBuyFill (h : Held cfg e) {fill : Fill} {launchpad : Launchpad}
    {liquidityUsd : Decimal} (hfill : applyBuyFill fmt e fill launchpad liquidityUsd = .ok e') :
    Held cfg e' := by
  obtain ⟨cost, -, hfill⟩ := exists_of_except_bind hfill
  obtain ⟨pos, hpos, hfill⟩ := exists_of_except_bind hfill
  obtain ⟨deployedUsd, -, hfill⟩ := exists_of_except_bind hfill
  cases hfill
  refine h.of_fields rfl ⟨rfl, rfl, rfl⟩ ?_ rfl rfl rfl
  exact Engine.keyed_of_insert h.keyed
    ((addFill_mint hpos).trans (h.keyed.fillTarget_mint fill launchpad liquidityUsd)) rfl

theorem Held.countFailure (h : Held cfg e) (mint : Mint) : Held cfg (e.countFailure mint) := by
  refine h.of_fields rfl ⟨rfl, rfl, rfl⟩ (h.keyed.countFailure mint) ?_ rfl rfl
  change e.risk.openPositions = (Engine.bookFailure e.positions mint _).keys.card
  rw [h.counter, Engine.bookFailure]
  split
  · rename_i pos hlookup
    rw [FiniteMap.card_keys_insert_of_mem (Finmap.mem_of_lookup_eq_some hlookup)]
  · rfl

theorem Held.settle (h : Held cfg e) {now : DateTime} {trade : ClosedTrade}
    (hsettle : settle fmt e now trade = .ok e') : Held cfg e' := by
  obtain ⟨equity, -, hsettle⟩ := exists_of_except_bind hsettle
  obtain ⟨deployedUsd, -, hsettle⟩ := exists_of_except_bind hsettle
  obtain ⟨risk, hrisk, hsettle⟩ := exists_of_except_bind hsettle
  cases hsettle
  have hframe := RiskFrame.recordRealizedPnl hrisk
  exact h.of_fields rfl ⟨hframe.cfg, hframe.equity, hframe.kill⟩
    (Engine.keyed_of_erase h.keyed rfl) rfl rfl rfl

/-- An exit that gets through: the failure is counted, or the trade is booked. -/
theorem closePosition_cases {x : ExitArgs} {now : DateTime}
    (h : closePosition fmt ex e x now = .ok e') :
    (∃ st, e' = ((e.withRisk (e.risk.pushOrder now)).submitted st).countFailure x.mint) ∨
    ∃ st trade, settle fmt ((e.withRisk (e.risk.pushOrder now)).submitted st) now trade =
      .ok e' := by
  obtain ⟨⟨answer, st⟩, -, h⟩ := exists_of_except_bind h
  cases answer with
  | error err =>
      cases h
      exact Or.inl ⟨st, rfl⟩
  | ok fill =>
      obtain ⟨trade, -, hsettle⟩ := exists_of_except_bind h
      exact Or.inr ⟨st, trade, hsettle⟩

theorem Held.closePosition (h : Held cfg e) {x : ExitArgs} {now : DateTime}
    (hclose : closePosition fmt ex e x now = .ok e') : Held cfg e' := by
  rcases closePosition_cases hclose with ⟨st, rfl⟩ | ⟨st, trade, hsettle⟩
  · exact ((h.pushOrder now).submitted st).countFailure x.mint
  · exact ((h.pushOrder now).submitted st).settle hsettle

theorem Held.sweepTimeStops (h : Held cfg e) {o : KeyOrder Mint} {now : DateTime}
    (hsweep : sweepTimeStops fmt ex o e now = .ok e') : Held cfg e' :=
  foldlM_invariant (fun _ _ _ he hclose => he.closePosition hclose) h hsweep

/-- A tick moves a position within its holding. -/
theorem onPrice_mint {pos pos' : Position} {price : Decimal} {now : DateTime}
    {decision : Option ExitDecision} (h : onPrice fmt pos price now cfg = .ok (pos', decision)) :
    pos'.mint = pos.mint := by
  have hmark := (pos.mark_sameHolding price).mint
  obtain ⟨pnlPct, -, h⟩ := exists_of_except_bind h
  cases hmode : (pos.mark price).mode with
  | flip =>
      rw [hmode] at h
      dsimp only at h
      split at h
      · cases h
        exact hmark
      · split at h
        · cases h
          exact hmark
        · obtain ⟨stopPrice, -, h⟩ := exists_of_except_bind h
          split_ifs at h <;> cases h <;> exact hmark
  | conviction =>
      rw [hmode] at h
      dsimp only at h
      obtain ⟨trailStop, -, h⟩ := exists_of_except_bind h
      split_ifs at h <;> cases h <;> exact hmark

theorem Held.onPriceUpdate (h : Held cfg e) {pu : PriceUpdate}
    (hprice : onPriceUpdate fmt ex e pu = .ok e') : Held cfg e' := by
  unfold Machine.onPriceUpdate at hprice
  split at hprice
  · cases hprice
    exact h
  · rename_i pos hlookup
    obtain ⟨⟨pos', decision⟩, htick, hprice⟩ := exists_of_except_bind hprice
    have hmint : pos.mint = pu.mint := h.keyed _ _ hlookup
    have hticked : Held cfg { e with positions := e.positions.insert pu.mint pos' } := by
      refine h.of_fields rfl ⟨rfl, rfl, rfl⟩ ?_ ?_ rfl rfl
      · exact Engine.keyed_of_insert h.keyed ((onPrice_mint htick).trans hmint) rfl
      · change e.risk.openPositions = (e.positions.insert pu.mint pos').keys.card
        rw [FiniteMap.card_keys_insert_of_mem (Finmap.mem_of_lookup_eq_some hlookup), h.counter]
    dsimp only at hprice
    split at hprice
    · cases hprice
      exact hticked
    · exact hticked.closePosition hprice

theorem Held.funnelSlice (h : Held cfg e) {launch : Launch} {deadline : DateTime}
    {slice : Decimal} {continues : Bool}
    (hslice : funnelSlice fmt ex e launch deadline slice = .ok (e', continues)) :
    Held cfg e' := by
  unfold Machine.funnelSlice at hslice
  split at hslice
  · cases hslice
    exact h
  · -- the throttle answers from the refreshed state
    have hfresh := RiskFrame.refresh e.risk launch.createdAt
    have hcount := e.risk.refresh_openPositions launch.createdAt
    rcases e.risk.checkOrder_cases launch.createdAt with ⟨-, block, hcheck⟩ | ⟨-, hcheck⟩
    · rw [hcheck] at hslice
      cases hslice
      exact h.withRisk hfresh hcount
    · rw [hcheck] at hslice
      have hgranted : Held cfg (e.withRisk
          ((e.risk.refresh launch.createdAt).pushOrder launch.createdAt)) :=
        h.withRisk ⟨hfresh.cfg, hfresh.equity, hfresh.kill⟩ hcount
      dsimp only at hslice
      obtain ⟨⟨answer, st⟩, -, hslice⟩ := exists_of_except_bind hslice
      cases answer with
      | error err =>
          cases hslice
          exact hgranted.submitted st
      | ok fill =>
          obtain ⟨m, hfill, hslice⟩ := exists_of_except_bind hslice
          cases hslice
          exact (hgranted.submitted st).applyBuyFill hfill

theorem Held.funnel {launch : Launch} {deadline : DateTime} {slices : List Decimal}
    (h : Held cfg e) (hfunnel : funnel fmt ex launch deadline slices e = .ok e') :
    Held cfg e' := by
  induction slices generalizing e with
  | nil =>
      cases hfunnel
      exact h
  | cons slice rest ih =>
      obtain ⟨⟨m, continues⟩, hslice, hfunnel⟩ := exists_of_except_bind hfunnel
      have hm := h.funnelSlice hslice
      dsimp only at hfunnel
      split at hfunnel
      · exact ih hm hfunnel
      · cases hfunnel
        exact hm

theorem Held.onLaunch (h : Held cfg e) {launch : Launch}
    (hlaunch : onLaunch fmt ex e launch = .ok e') : Held cfg e' := by
  unfold Machine.onLaunch at hlaunch
  dsimp only at hlaunch
  split at hlaunch
  · cases hlaunch
    exact h
  · split at hlaunch
    · cases hlaunch
      exact h
    · obtain ⟨⟨blocked, risk⟩, hcheck, hlaunch⟩ := exists_of_except_bind hlaunch
      have hrisk : risk = e.risk.refresh launch.createdAt := by
        obtain ⟨limit, -, hcheck⟩ := exists_of_except_bind hcheck
        cases hcheck
        rfl
      have hchecked : Held cfg (e.withRisk risk) := by
        rw [hrisk]
        exact h.withRisk (.refresh _ _) (e.risk.refresh_openPositions _)
      dsimp only at hlaunch
      split at hlaunch
      · cases hlaunch
        exact hchecked
      · obtain ⟨budget, -, hlaunch⟩ := exists_of_except_bind hlaunch
        split at hlaunch
        · cases hlaunch
          exact hchecked
        · obtain ⟨deadline, -, hlaunch⟩ := exists_of_except_bind hlaunch
          obtain ⟨slices, -, hlaunch⟩ := exists_of_except_bind hlaunch
          exact hchecked.funnel hlaunch

theorem Held.handle (h : Held cfg e) {ev : Event} (hev : handle fmt ex e ev = .ok e') :
    Held cfg e' := by
  cases ev with
  | launch l => exact h.onLaunch hev
  | price p => exact h.onPriceUpdate hev

theorem Held.onEvent (h : Held cfg e) {o : KeyOrder Mint} {ev : Event}
    (hev : onEvent fmt ex o e ev = .ok e') : Held cfg e' := by
  obtain ⟨m, hhandle, hsweep⟩ := exists_of_except_bind hev
  exact (h.handle hhandle).sweepTimeStops hsweep

/-- A restored engine is the one the snapshot stands for. -/
theorem restore_eq_ok {st : σ} {today : Int} {o : KeyOrder Mint} {snap : EngineState}
    (h : restore fmt cfg st today o snap = .ok (.ok e')) :
    checkInvariants fmt o e' = .ok (.ok ()) ∧ e' = Engine.rebuilt cfg st quiet today snap := by
  obtain ⟨checked, hcheck, h⟩ := exists_of_except_bind h
  cases checked with
  | error msg => cases h
  | ok u =>
      cases h
      exact ⟨hcheck, rfl⟩

/-- A run that gets through is one of a process. -/
theorem Reachable.run (h : Reachable fmt ex cfg e) {ds : List Delivery}
    (hrun : run fmt ex e ds = .ok e') : Reachable fmt ex cfg e' :=
  foldlM_invariant (fun _ d _ he hevent => he.event d hevent) h hrun

/-- Every reachable state is resumable. -/
theorem Reachable.held (h : Reachable fmt ex cfg e) : Held cfg e := by
  induction h with
  | new st today => exact .new cfg st today
  | event d h hevent ih => exact ih.onEvent hevent
  | restored st today save load h hrestore ih =>
      obtain ⟨-, rfl⟩ := restore_eq_ok hrestore
      refine ⟨⟨rfl, rfl, rfl, ?_, Engine.keyed_bookOf _, rfl⟩, rfl, rfl⟩
      intro hkill
      change (cfg.killSwitch || _) = true
      rw [hkill, Bool.true_or]

end Machine

end HfmcBot
