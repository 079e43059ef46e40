import HfmcBot.Alerts
import HfmcBot.Exec
import HfmcBot.Foundation.FiniteMap
import HfmcBot.Persist
import HfmcBot.Strategy

/-!
# The engine

`engine.rs`: one event in, through strategy, risk, execution and persistence,
to the next state.  The functions keep the order of the source's effects; the
bodies of its loops and the two arms of `close_position` have names of their
own so that they can be reasoned about one at a time.

The position book is a finite map by mint.  The source walks it with
`HashMap::values_mut`, whose order is unspecified, so whoever drives the engine
supplies an iteration order with every event.
-/

namespace HfmcBot

open Foundation

/-- The open positions by mint. -/
abbrev Book := FiniteMap Mint Position

/-- The engine over an executor with state `σ`.  `alerter` is `none` until it is
armed; then it lists the calls of `fire`. -/
structure Engine (σ : Type) where
  cfg : Config
  risk : RiskEngine
  exec : σ
  audit : AuditLog
  equity : Decimal
  deployedUsd : Decimal
  positions : Book
  closed : List ClosedTrade
  orderSeq : Nat
  alerter : Option (List AlertCall)

/-- The arguments of `close_position`, captured when the exit is decided. -/
structure ExitArgs where
  mint : Mint
  qty : Decimal
  cost : Decimal
  mode : HoldMode
  entryPrice : Decimal
  refPrice : Decimal
  liquidityUsd : Decimal
  reason : String
  deriving DecidableEq

/-- The exit arguments read off a position. -/
def Position.exitArgs (pos : Position) (refPrice liquidityUsd : Decimal) (reason : String) :
    ExitArgs where
  mint := pos.mint
  qty := pos.qty
  cost := pos.costUsd
  mode := pos.mode
  entryPrice := pos.entryPrice
  refPrice := refPrice
  liquidityUsd := liquidityUsd
  reason := reason

/-- The position `or_insert` puts under a mint that is not held yet. -/
def openedBy (fill : Fill) (launchpad : Launchpad) (liquidityUsd : Decimal) : Position where
  mint := fill.mint
  launchpad := launchpad
  openedAt := fill.ts
  entryPrice := fill.priceUsd
  qty := 0
  costUsd := 0
  highWater := fill.priceUsd
  lastPrice := fill.priceUsd
  lastLiquidityUsd := liquidityUsd
  mode := .flip
  exitAttempts := 0
  stuck := false

/-- Accumulate one slice: quantity-weighted entry, cost with fees. -/
def Position.addFill (pos : Position) (fill : Fill) (liquidityUsd : Decimal) : Position :=
  { pos with
    entryPrice :=
      if 0 < pos.qty + fill.qty then
        (pos.entryPrice * pos.qty + fill.priceUsd * fill.qty) / (pos.qty + fill.qty)
      else pos.entryPrice
    qty := pos.qty + fill.qty
    costUsd := pos.costUsd + (fill.notionalUsd + fill.feeUsd)
    lastPrice := fill.priceUsd
    lastLiquidityUsd := liquidityUsd
    highWater := if pos.highWater < fill.priceUsd then fill.priceUsd else pos.highWater }

/-- Does this failed exit make the position stuck? -/
def Position.becomesStuck (pos : Position) (limit : UInt32) : Bool :=
  !pos.stuck && decide (limit ≤ pos.exitAttempts + 1)

/-- Count a failed exit, and mark the position stuck at the limit. -/
def Position.failExit (pos : Position) (limit : UInt32) : Position :=
  { pos with
    exitAttempts := pos.exitAttempts + 1
    stuck := pos.stuck || pos.becomesStuck limit }

/-- The urgency of an exit. -/
def HoldMode.exitTier : HoldMode → TipTier
  | .flip => .flipExit
  | .conviction => .convictionExit

namespace Engine

variable {σ : Type}

/-- A fresh engine.  `st` is the executor's initial state, `today` the
wall-clock day of the boot. -/
def new (cfg : Config) (st : σ) (audit : AuditLog) (today : Int) : Engine σ where
  cfg := cfg
  risk := RiskEngine.new cfg today
  exec := st
  audit := audit
  equity := cfg.equityUsd
  deployedUsd := 0
  positions := ∅
  closed := []
  orderSeq := 0
  alerter := none

/-- Arm alerting. -/
def withAlerter (e : Engine σ) : Engine σ := { e with alerter := some [] }

/-- A no-op until alerting is armed. -/
def alert (e : Engine σ) (kind : AlertKind) (detail : Text) : Engine σ :=
  { e with alerter := e.alerter.map fun calls => calls ++ [⟨kind, detail⟩] }

/-- `self.audit.append(..).ok()`. -/
def appendAudit (e : Engine σ) (record : AuditRecord) : Engine σ :=
  { e with audit := e.audit.append record }

def auditDecision (e : Engine σ) (now : DateTime) (mint : Mint) (action : String) (detail : Text) :
    Engine σ :=
  e.appendAudit (.decision now mint action detail)

def auditBlocked (e : Engine σ) (now : DateTime) (mint : Mint) (block : BlockReason) : Engine σ :=
  e.appendAudit (.decision now mint "entry_blocked" block.text)

/-- Advance the order counter; the id carries its new value. -/
def nextOrderId (e : Engine σ) (mint : Mint) : String × Engine σ :=
  (mint ++ "#" ++ toString (e.orderSeq + 1), { e with orderSeq := e.orderSeq + 1 })

/-! ## Entries -/

/-- Accumulate a funnel-slice fill into the per-token position. -/
def applyBuyFill (e : Engine σ) (fill : Fill) (launchpad : Launchpad) (liquidityUsd : Decimal) :
    Engine σ :=
  let pos := (e.positions.lookup fill.mint).getD (openedBy fill launchpad liquidityUsd)
  let positions := e.positions.insert fill.mint (pos.addFill fill liquidityUsd)
  { e with
    positions := positions
    deployedUsd := e.deployedUsd + (fill.notionalUsd + fill.feeUsd)
    risk := e.risk.setOpenPositions positions.keys.card }

def logOrderAndFill (e : Engine σ) (now : DateTime) (orderId : String) (mint : Mint) (side : Side)
    (budgetOrQty refPrice : Decimal) (fill : Fill) : Engine σ :=
  (e.appendAudit (.order now orderId mint side.lower budgetOrQty refPrice)).appendAudit
    (fillRecord fill)

/-- The error arm of a slice: an unknown buy pages the operator. -/
def buyFailed (e : Engine σ) (now : DateTime) (mint : Mint) (orderId : String) (err : ExecError) :
    Engine σ :=
  let e :=
    if err.isTransport then
      e.alert .transportUnknown
        (([mint, ": buy ", orderId, " unknown state — "] : Text) ++ err.text)
    else e
  e.auditDecision now mint "order_failed" err.text

/-- The end of the funnel window. -/
def funnelDeadline (cfg : Config) (launch : Launch) : DateTime :=
  launch.createdAt + seconds (asI64 cfg.funnelWindowSecs)

/-- The buy order of one slice. -/
def sliceRequest (launch : Launch) (deadline : DateTime) (slice : Decimal) (orderId : String) :
    BuyRequest where
  mint := launch.mint
  budgetUsd := slice
  priceUsd := launch.priceUsd
  liquidityUsd := launch.liquidityUsd
  now := launch.createdAt
  deadline := deadline
  orderId := orderId

/-- Send one slice the throttle has granted, and book what comes back.  The
flag tells whether the funnel goes on. -/
def sendSlice (ex : Executor σ) (e : Engine σ) (launch : Launch) (deadline : DateTime)
    (slice : Decimal) : Engine σ × Bool :=
  let now := launch.createdAt
  let (orderId, e) := e.nextOrderId launch.mint
  match ex.buy (sliceRequest launch deadline slice orderId) e.exec with
  | (.error err, st) => (({ e with exec := st }).buyFailed now launch.mint orderId err, false)
  | (.ok fill, st) =>
      let e := ({ e with exec := st }).applyBuyFill fill launch.launchpad launch.liquidityUsd
      (e.logOrderAndFill now orderId launch.mint .buy slice launch.priceUsd fill, true)

/-- One turn of the funnel loop, for slice number `idx` of `total`. -/
def funnelSlice (ex : Executor σ) (e : Engine σ) (launch : Launch) (deadline : DateTime)
    (idx total : Nat) (slice : Decimal) : Engine σ × Bool :=
  let now := launch.createdAt
  let mint := launch.mint
  if deadline < now then
    (e.auditDecision now mint "funnel_window_expired"
      ["slice ", .int (idx + 1), "/", .int total, " not sent"], false)
  else
    match e.risk.checkOrder now with
    | (.error block, risk) =>
        ((({ e with risk := risk }).auditBlocked now mint block).auditDecision now mint
          "funnel_aborted" ["slices ", .int (idx + 1), "/", .int total, " unfilled"], false)
    | (.ok (), risk) => ({ e with risk := risk }).sendSlice ex launch deadline slice

/-- The funnel loop: slices back-to-back until one of them stops it. -/
def funnel (ex : Executor σ) (launch : Launch) (deadline : DateTime) (total : Nat) :
    Nat → List Decimal → Engine σ → Engine σ
  | _, [], e => e
  | idx, slice :: rest, e =>
      let (e', continues) := e.funnelSlice ex launch deadline idx total slice
      if continues then funnel ex launch deadline total (idx + 1) rest e' else e'

/-- New launch: entry gate, risk checks, risk-first sizing, funnel. -/
def onLaunch (ex : Executor σ) (e : Engine σ) (launch : Launch) : Engine σ :=
  let now := launch.createdAt
  let mint := launch.mint
  if mint ∈ e.positions then
    e.auditDecision now mint "entry" ["already holding; skipping re-entry"]
  else
    match entryGate launch now e.cfg with
    | .error reason => e.auditDecision now mint "entry_rejected" reason.text
    | .ok () =>
        match e.risk.checkEntry now with
        | (.error block, risk) => ({ e with risk := risk }).auditBlocked now mint block
        | (.ok (), risk) =>
            let e := { e with risk := risk }
            let budget := positionBudget e.cfg e.equity e.deployedUsd
            if budget ≤ 0 then
              e.auditDecision now mint "entry_rejected" ["no free capital for a new position"]
            else
              let e := e.auditDecision now mint "entry_accepted"
                ["funnel budget $", .dec budget, " into ", launch.launchpad.asStr]
              let slices := splitIntoSlices budget e.cfg.funnelSlices
              funnel ex launch (funnelDeadline e.cfg launch) slices.length 0 slices e

/-- The end of the window as the code computes it: `none` where `Duration::seconds` or
the sum leaves the range of the time library. -/
def checkedDeadline (cfg : Config) (launch : Launch) : Option DateTime :=
  (trySeconds (asI64 cfg.funnelWindowSecs)).bind fun window => checkedAdd launch.createdAt window

/-- `on_launch` in that range: a deadline outside it stops the process before the first
slice, with the state it has then. -/
def tryOnLaunch (ex : Executor σ) (e : Engine σ) (launch : Launch) :
    Except (Engine σ) (Engine σ) :=
  let now := launch.createdAt
  let mint := launch.mint
  if mint ∈ e.positions then
    .ok (e.auditDecision now mint "entry" ["already holding; skipping re-entry"])
  else
    match entryGate launch now e.cfg with
    | .error reason => .ok (e.auditDecision now mint "entry_rejected" reason.text)
    | .ok () =>
        match e.risk.checkEntry now with
        | (.error block, risk) => .ok (({ e with risk := risk }).auditBlocked now mint block)
        | (.ok (), risk) =>
            let e := { e with risk := risk }
            let budget := positionBudget e.cfg e.equity e.deployedUsd
            if budget ≤ 0 then
              .ok (e.auditDecision now mint "entry_rejected"
                ["no free capital for a new position"])
            else
              let e := e.auditDecision now mint "entry_accepted"
                ["funnel budget $", .dec budget, " into ", launch.launchpad.asStr]
              match checkedDeadline e.cfg launch with
              | none => .error e
              | some deadline =>
                  let slices := splitIntoSlices budget e.cfg.funnelSlices
                  .ok (funnel ex launch deadline slices.length 0 slices e)

/-! ## Exits -/

/-- The error arm of `close_position`: the position stays, the attempt counts. -/
def exitFailed (e : Engine σ) (now : DateTime) (mint : Mint) (mode : HoldMode) (err : ExecError) :
    Engine σ :=
  let limit := e.cfg.maxExitAttempts
  let (attempts, newlyStuck, stuckCost, e) :=
    match e.positions.lookup mint with
    | some pos =>
        (pos.exitAttempts + 1, pos.becomesStuck limit, pos.costUsd,
          { e with positions := e.positions.insert mint (pos.failExit limit) })
    | none => (0, false, 0, e)
  let e :=
    if newlyStuck then
      (e.auditDecision now mint "position_stuck"
        [.int attempts.toNat, " failed exits (limit ", .int limit.toNat,
          "): treating as unsellable; $", .dec stuckCost,
          " stays deployed, fresh ticks still retry"]).alert .positionStuck
        [mint, ": ", .int attempts.toNat, " failed exits, $", .dec stuckCost, " stuck (mode ",
          mode.debug, ")"]
    else e
  let e :=
    if err.isTransport then
      e.alert .transportUnknown
        (([mint, " exit attempt ", .int attempts.toNat, ": "] : Text) ++ err.text)
    else e
  e.auditDecision now mint "exit_failed"
    ((["attempt ", .int attempts.toNat, ": "] : Text) ++ err.text)

/-- What a sell brings in, settled. -/
def proceedsOf (fill : Fill) : Decimal := roundDp fillDp (fill.notionalUsd - fill.feeUsd)

/-- The closed trade of a filled exit. -/
def tradeOf (x : ExitArgs) (fill : Fill) (now : DateTime) : ClosedTrade where
  mint := x.mint
  openedAt := fill.ts
  closedAt := now
  entryPrice := x.entryPrice
  exitPrice := fill.priceUsd
  qty := fill.qty
  costUsd := x.cost
  proceedsUsd := proceedsOf fill
  pnlUsd := proceedsOf fill - x.cost
  pnlPct :=
    if x.cost = 0 then 0 else roundDp fillDp ((proceedsOf fill - x.cost) / x.cost * 100)
  exitReason := x.reason
  mode := x.mode

/-- The success path of `close_position`: realize the trade and drop the
position. -/
def exitFilled (e : Engine σ) (now : DateTime) (x : ExitArgs) (orderId : String) (fill : Fill) :
    Engine σ :=
  let trade := tradeOf x fill now
  let wasKill := e.risk.killSwitch
  let e := { e with
    equity := e.equity + trade.pnlUsd
    deployedUsd := e.deployedUsd - x.cost
    risk := e.risk.recordRealizedPnl trade.pnlUsd now }
  let e :=
    if !wasKill && e.risk.killSwitch then
      e.appendAudit (.breaker now "daily loss limit tripped")
    else e
  let positions := e.positions.erase x.mint
  let e := { e with
    positions := positions
    risk := e.risk.setOpenPositions positions.keys.card }
  let e := e.appendAudit (.order now orderId x.mint "sell" x.qty x.refPrice)
  let e := e.appendAudit (fillRecord fill)
  let e := e.appendAudit (.tradeClosed trade)
  { e with closed := e.closed ++ [trade] }

/-- The sell order of an exit. -/
def sellRequest (x : ExitArgs) (now : DateTime) (orderId : String) : SellRequest where
  mint := x.mint
  qty := x.qty
  priceUsd := x.refPrice
  liquidityUsd := x.liquidityUsd
  now := now
  orderId := orderId
  tier := x.mode.exitTier

/-- Flatten a position.  Sells are never blocked by risk checks, they only
count towards the throttle. -/
def closePosition (ex : Executor σ) (e : Engine σ) (x : ExitArgs) (now : DateTime) : Engine σ :=
  let e := { e with risk := e.risk.noteSide .sell now }
  let (orderId, e) := e.nextOrderId x.mint
  match ex.sell (sellRequest x now orderId) e.exec with
  | (.error err, st) => ({ e with exec := st }).exitFailed now x.mint x.mode err
  | (.ok fill, st) => ({ e with exec := st }).exitFilled now x orderId fill

/-- The time-stop exit of one position, if it is due.  Stuck positions are
skipped. -/
def timeStopExit (cfg : Config) (now : DateTime) (pos : Position) : Option ExitArgs :=
  if pos.stuck then none
  else (onTime pos now cfg).map fun d =>
    pos.exitArgs pos.lastPrice pos.lastLiquidityUsd d.reason

/-- Flatten positions whose time stop elapsed: first all due exits are
collected, then they are sold one after the other. -/
def sweepTimeStops (ex : Executor σ) (o : KeyOrder Mint) (e : Engine σ) (now : DateTime) :
    Engine σ :=
  ((e.positions.valuesIn o).filterMap (timeStopExit e.cfg now)).foldl
    (fun e x => e.closePosition ex x now) e

/-- The position after a tick, before any sell, and the exit the tick decided. -/
def tickPosition (cfg : Config) (pu : PriceUpdate) (pos : Position) :
    Position × Option ExitDecision :=
  onPrice { pos with lastPrice := pu.priceUsd, lastLiquidityUsd := pu.liquidityUsd }
    pu.priceUsd pu.ts cfg

/-- Continuous price feed: exit rules and conviction promotion. -/
def onPriceUpdate (ex : Executor σ) (e : Engine σ) (pu : PriceUpdate) : Engine σ :=
  match e.positions.lookup pu.mint with
  | none => e
  | some pos =>
      let (pos, decision) := tickPosition e.cfg pu pos
      let e := { e with positions := e.positions.insert pu.mint pos }
      match decision with
      | none => e
      | some d => e.closePosition ex (pos.exitArgs pu.priceUsd pu.liquidityUsd d.reason) pu.ts

/-! ## Events -/

/-- The event's own handler, before the sweep. -/
def handle (ex : Executor σ) (e : Engine σ) : Event → Engine σ
  | .launch l => e.onLaunch ex l
  | .price p => e.onPriceUpdate ex p

/-- One event: its handler, the time-stop sweep, and the page on a breaker
edge. -/
def onEvent (ex : Executor σ) (o : KeyOrder Mint) (e : Engine σ) (ev : Event) : Engine σ :=
  let wasKill := e.risk.killSwitch
  let e := (e.handle ex ev).sweepTimeStops ex o ev.ts
  if !wasKill && e.risk.killSwitch then
    e.alert .dailyLossTrip
      ["breaker engaged: day realized P&L $", .dec e.risk.dayRealizedPnl]
  else e

/-! ## Snapshots and the self-check -/

/-- Capture the full resumable state. -/
def state (o : KeyOrder Mint) (e : Engine σ) : EngineState where
  version := EngineState.currentVersion
  equityUsd := e.equity
  deployedUsd := e.deployedUsd
  positions := (e.positions.valuesIn o).insertionSort fun p q => p.mint ≤ q.mint
  closed := e.closed
  orderSeq := e.orderSeq
  risk := e.risk.snapshotState

/-- P&L conservation and deployed-capital reconciliation. -/
def checkInvariants (o : KeyOrder Mint) (e : Engine σ) : Except Text Unit :=
  let closedPnl := (e.closed.map fun t => t.pnlUsd).sum
  let openCost := ((e.positions.valuesIn o).map fun p => p.costUsd).sum
  if e.equity ≠ e.cfg.equityUsd + closedPnl then
    .error ["equity $", .dec e.equity, " != start $", .dec e.cfg.equityUsd, " + realized $",
      .dec closedPnl]
  else if e.deployedUsd ≠ openCost then
    .error ["deployed $", .dec e.deployedUsd, " != Σ open position cost $", .dec openCost]
  else
    match (e.positions.valuesIn o).find? fun p => p.qty ≤ 0 ∨ p.costUsd ≤ 0 with
    | some p =>
        .error ["open position ", p.mint, " has qty ", .dec p.qty, " / cost $", .dec p.costUsd]
    | none =>
        match e.closed.find? fun t => t.pnlUsd ≠ t.proceedsUsd - t.costUsd with
        | some t =>
            .error ["closed trade ", t.mint, ": pnl $", .dec t.pnlUsd, " != proceeds $",
              .dec t.proceedsUsd, " − cost $", .dec t.costUsd]
        | none => .ok ()

/-- The book a snapshot's position list stands for. -/
def bookOf (positions : List Position) : Book :=
  positions.foldl (fun book p => book.insert p.mint p) ∅

/-- The engine a snapshot stands for, before it is checked.  The counter of open
positions is recomputed from the book. -/
def rebuilt (cfg : Config) (st : σ) (audit : AuditLog) (today : Int) (snap : EngineState) :
    Engine σ :=
  { Engine.new cfg st audit today with
    equity := snap.equityUsd
    deployedUsd := snap.deployedUsd
    positions := bookOf snap.positions
    closed := snap.closed
    orderSeq := snap.orderSeq
    risk := ((RiskEngine.new cfg today).restoreState snap.risk).setOpenPositions
      (bookOf snap.positions).keys.card }

/-- Rebuild an engine from a snapshot; a book that fails the money checks is
refused. -/
def restore (cfg : Config) (st : σ) (audit : AuditLog) (today : Int) (o : KeyOrder Mint)
    (snap : EngineState) : Except Text (Engine σ) :=
  match (rebuilt cfg st audit today snap).checkInvariants o with
  | .error msg => .error msg
  | .ok () => .ok (rebuilt cfg st audit today snap)

end Engine

end HfmcBot
