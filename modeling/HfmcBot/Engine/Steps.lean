import HfmcBot.Engine
import HfmcBot.Foundation.Runs

/-!
# The steps of an event

One call of `on_event` is a sequence of small steps: audit records, risk
refreshes, single orders, single ticks.  `Step` lists them with the guards they
passed; `handle_steps` and `onEvent_sweep` say that every event is such a
sequence.  Invariants are proved of one step and carried over events and runs
from there.

`Keyed` is the one invariant the decomposition itself needs: every position is
stored under its own mint, so the exits the sweep has collected stay valid while
it sells them one after the other.
-/

namespace HfmcBot

open Foundation Relation

namespace Engine

variable {σ : Type}

/-! ## Forgetting the logs -/

/-- The engine without its audit log and alerts: all that trading depends on. -/
def trading (e : Engine σ) : Engine σ :=
  { e with audit := .opened fun _ => false, alerter := none }

section Trading

variable (e : Engine σ) (now : DateTime) (mint : Mint)

@[simp] theorem trading_appendAudit (record : AuditRecord) :
    (e.appendAudit record).trading = e.trading := rfl

@[simp] theorem trading_alert (kind : AlertKind) (detail : Text) :
    (e.alert kind detail).trading = e.trading := rfl

@[simp] theorem trading_auditDecision (action : String) (detail : Text) :
    (e.auditDecision now mint action detail).trading = e.trading := rfl

@[simp] theorem trading_auditBlocked (block : BlockReason) :
    (e.auditBlocked now mint block).trading = e.trading := rfl

@[simp] theorem trading_logOrderAndFill (orderId : String) (side : Side)
    (budgetOrQty refPrice : Decimal) (fill : Fill) :
    (e.logOrderAndFill now orderId mint side budgetOrQty refPrice fill).trading = e.trading := rfl

@[simp] theorem trading_buyFailed (orderId : String) (err : ExecError) :
    (e.buyFailed now mint orderId err).trading = e.trading := by
  unfold buyFailed
  dsimp only
  rw [trading_auditDecision]
  split <;> rfl

end Trading

/-- Two engines with the same trading fields. -/
structure SameTrading (e e' : Engine σ) : Prop where
  cfg : e.cfg = e'.cfg
  risk : e.risk = e'.risk
  exec : e.exec = e'.exec
  equity : e.equity = e'.equity
  deployedUsd : e.deployedUsd = e'.deployedUsd
  positions : e.positions = e'.positions
  closed : e.closed = e'.closed
  orderSeq : e.orderSeq = e'.orderSeq

theorem fields_of_trading {e e' : Engine σ} (h : e.trading = e'.trading) : SameTrading e e' := by
  obtain ⟨h1, h2, h3, -, h5, h6, h7, h8, h9, -⟩ := Engine.mk.inj h
  exact ⟨h1, h2, h3, h5, h6, h7, h8, h9⟩

/-! ## What an order does to the book -/

/-- An order went out: the counter moved and the executor answered. -/
def submitted (e : Engine σ) (st : σ) : Engine σ :=
  { e with orderSeq := e.orderSeq + 1, exec := st }

/-- The risk engine replaced. -/
def withRisk (e : Engine σ) (risk : RiskEngine) : Engine σ := { e with risk := risk }

/-- The book after a failed sell: it counts on the position it was for. -/
def bookFailure (book : Book) (mint : Mint) (limit : UInt32) : Book :=
  match book.lookup mint with
  | some pos => book.insert mint (pos.failExit limit)
  | none => book

theorem bookFailure_of_lookup {book : Book} {mint : Mint} {pos : Position}
    (h : book.lookup mint = some pos) (limit : UInt32) :
    bookFailure book mint limit = book.insert mint (pos.failExit limit) := by
  rw [bookFailure, h]

theorem bookFailure_of_unheld {book : Book} {mint : Mint} (h : book.lookup mint = none)
    (limit : UInt32) : bookFailure book mint limit = book := by
  rw [bookFailure, h]

def countFailure (e : Engine σ) (mint : Mint) : Engine σ :=
  { e with positions := bookFailure e.positions mint e.cfg.maxExitAttempts }

/-- A filled sell realizes the trade and drops the position. -/
def settle (e : Engine σ) (now : DateTime) (x : ExitArgs) (fill : Fill) : Engine σ :=
  { e with
    equity := e.equity + (tradeOf x fill now).pnlUsd
    deployedUsd := e.deployedUsd - x.cost
    risk := (e.risk.recordRealizedPnl (tradeOf x fill now).pnlUsd now).setOpenPositions
      (e.positions.erase x.mint).keys.card
    positions := e.positions.erase x.mint
    closed := e.closed ++ [tradeOf x fill now] }

theorem trading_exitFailed (e : Engine σ) (now : DateTime) (mint : Mint) (mode : HoldMode)
    (err : ExecError) :
    (e.exitFailed now mint mode err).trading = (e.countFailure mint).trading := by
  unfold exitFailed countFailure
  cases hpos : e.positions.lookup mint with
  | none =>
      rw [bookFailure_of_unheld hpos]
      dsimp only
      rw [trading_auditDecision]
      split <;> rfl
  | some pos =>
      rw [bookFailure_of_lookup hpos]
      dsimp only
      rw [trading_auditDecision]
      split_ifs <;> rfl

theorem trading_exitFilled (e : Engine σ) (now : DateTime) (x : ExitArgs) (orderId : String)
    (fill : Fill) : (e.exitFilled now x orderId fill).trading = (e.settle now x fill).trading := by
  unfold exitFilled settle
  dsimp only
  split <;> rfl

section Orders

variable {ex : Executor σ} {e : Engine σ} {launch : Launch} {deadline : DateTime}
  {slice : Decimal} {x : ExitArgs} {now : DateTime} {err : ExecError} {fill : Fill} {st : σ}

theorem sendSlice_failed
    (hbuy : ex.buy (sliceRequest launch deadline slice (e.nextOrderId launch.mint).1) e.exec =
      (.error err, st)) :
    e.sendSlice ex launch deadline slice =
      ((e.submitted st).buyFailed launch.createdAt launch.mint (e.nextOrderId launch.mint).1 err,
        false) := by
  unfold sendSlice
  dsimp only [nextOrderId] at hbuy ⊢
  rw [hbuy]
  rfl

theorem sendSlice_filled
    (hbuy : ex.buy (sliceRequest launch deadline slice (e.nextOrderId launch.mint).1) e.exec =
      (.ok fill, st)) :
    e.sendSlice ex launch deadline slice =
      (((e.submitted st).applyBuyFill fill launch.launchpad launch.liquidityUsd).logOrderAndFill
        launch.createdAt (e.nextOrderId launch.mint).1 launch.mint .buy slice launch.priceUsd fill,
        true) := by
  unfold sendSlice
  dsimp only [nextOrderId] at hbuy ⊢
  rw [hbuy]
  rfl

theorem closePosition_failed
    (hsell : ex.sell (sellRequest x now (e.nextOrderId x.mint).1) e.exec = (.error err, st)) :
    e.closePosition ex x now =
      ((e.withRisk (e.risk.pushOrder now)).submitted st).exitFailed now x.mint x.mode err := by
  unfold closePosition
  dsimp only [nextOrderId] at hsell ⊢
  rw [hsell]
  rfl

theorem closePosition_filled
    (hsell : ex.sell (sellRequest x now (e.nextOrderId x.mint).1) e.exec = (.ok fill, st)) :
    e.closePosition ex x now =
      ((e.withRisk (e.risk.pushOrder now)).submitted st).exitFilled now x
        (e.nextOrderId x.mint).1 fill := by
  unfold closePosition
  dsimp only [nextOrderId] at hsell ⊢
  rw [hsell]
  rfl

end Orders

/-- The two ways a granted slice ends. -/
theorem sendSlice_cases (ex : Executor σ) (e : Engine σ) (launch : Launch) (deadline : DateTime)
    (slice : Decimal) :
    (∃ err st,
      ex.buy (sliceRequest launch deadline slice (e.nextOrderId launch.mint).1) e.exec =
        (.error err, st) ∧
      (e.sendSlice ex launch deadline slice).1.trading = (e.submitted st).trading ∧
      (e.sendSlice ex launch deadline slice).2 = false) ∨
    (∃ fill st,
      ex.buy (sliceRequest launch deadline slice (e.nextOrderId launch.mint).1) e.exec =
        (.ok fill, st) ∧
      (e.sendSlice ex launch deadline slice).1.trading =
        ((e.submitted st).applyBuyFill fill launch.launchpad launch.liquidityUsd).trading ∧
      (e.sendSlice ex launch deadline slice).2 = true) := by
  rcases hbuy : ex.buy (sliceRequest launch deadline slice (e.nextOrderId launch.mint).1) e.exec
    with ⟨err | fill, st⟩
  · refine Or.inl ⟨err, st, rfl, ?_, ?_⟩
    · rw [sendSlice_failed hbuy, trading_buyFailed]
    · rw [sendSlice_failed hbuy]
  · refine Or.inr ⟨fill, st, rfl, ?_, ?_⟩
    · rw [sendSlice_filled hbuy, trading_logOrderAndFill]
    · rw [sendSlice_filled hbuy]

/-- The two ways an exit ends. -/
theorem closePosition_cases (ex : Executor σ) (e : Engine σ) (x : ExitArgs) (now : DateTime) :
    (∃ err st,
      ex.sell (sellRequest x now (e.nextOrderId x.mint).1) e.exec = (.error err, st) ∧
      (e.closePosition ex x now).trading =
        (((e.withRisk (e.risk.pushOrder now)).submitted st).countFailure x.mint).trading) ∨
    (∃ fill st,
      ex.sell (sellRequest x now (e.nextOrderId x.mint).1) e.exec = (.ok fill, st) ∧
      (e.closePosition ex x now).trading =
        (((e.withRisk (e.risk.pushOrder now)).submitted st).settle now x fill).trading) := by
  rcases hsell : ex.sell (sellRequest x now (e.nextOrderId x.mint).1) e.exec
    with ⟨err | fill, st⟩
  · refine Or.inl ⟨err, st, rfl, ?_⟩
    rw [closePosition_failed hsell, trading_exitFailed]
  · refine Or.inr ⟨fill, st, rfl, ?_⟩
    rw [closePosition_filled hsell, trading_exitFilled]

/-! ## Positions under their own mint -/

/-- Every position is stored under its own mint. -/
def Keyed (e : Engine σ) : Prop := ∀ mint pos, e.positions.lookup mint = some pos → pos.mint = mint

theorem keyed_of_insert {e e' : Engine σ} {mint : Mint} {pos : Position} (h : e.Keyed)
    (hpos : pos.mint = mint) (hinsert : e'.positions = e.positions.insert mint pos) : e'.Keyed := by
  intro m p hp
  rw [hinsert] at hp
  rcases FiniteMap.lookup_insert_eq_some hp with ⟨rfl, rfl⟩ | ⟨-, hp⟩
  · exact hpos
  · exact h m p hp

theorem keyed_of_erase {e e' : Engine σ} {mint : Mint} (h : e.Keyed)
    (herase : e'.positions = e.positions.erase mint) : e'.Keyed := by
  intro m p hp
  rw [herase] at hp
  exact h m p (FiniteMap.lookup_erase_eq_some hp).2

theorem keyed_of_positions {e e' : Engine σ} (h : e.Keyed) (hpos : e'.positions = e.positions) :
    e'.Keyed := by
  intro m p hp
  rw [hpos] at hp
  exact h m p hp

theorem addFill_mint (pos : Position) (fill : Fill) (liquidityUsd : Decimal) :
    (pos.addFill fill liquidityUsd).mint = pos.mint := rfl

theorem failExit_mint (pos : Position) (limit : UInt32) : (pos.failExit limit).mint = pos.mint :=
  rfl

/-- The position a fill is accumulated into. -/
def fillTarget (e : Engine σ) (fill : Fill) (launchpad : Launchpad) (liquidityUsd : Decimal) :
    Position :=
  (e.positions.lookup fill.mint).getD (openedBy fill launchpad liquidityUsd)

theorem applyBuyFill_positions (e : Engine σ) (fill : Fill) (launchpad : Launchpad)
    (liquidityUsd : Decimal) :
    (e.applyBuyFill fill launchpad liquidityUsd).positions =
      e.positions.insert fill.mint
        ((e.fillTarget fill launchpad liquidityUsd).addFill fill liquidityUsd) := rfl

theorem Keyed.fillTarget_mint {e : Engine σ} (h : e.Keyed) (fill : Fill) (launchpad : Launchpad)
    (liquidityUsd : Decimal) : (e.fillTarget fill launchpad liquidityUsd).mint = fill.mint := by
  unfold fillTarget
  cases hpos : e.positions.lookup fill.mint with
  | none => rfl
  | some pos => exact h _ _ hpos

theorem Keyed.applyBuyFill {e : Engine σ} (h : e.Keyed) (fill : Fill) (launchpad : Launchpad)
    (liquidityUsd : Decimal) : (e.applyBuyFill fill launchpad liquidityUsd).Keyed :=
  keyed_of_insert h
    ((addFill_mint _ fill liquidityUsd).trans (h.fillTarget_mint fill launchpad liquidityUsd))
    (e.applyBuyFill_positions fill launchpad liquidityUsd)

theorem Keyed.countFailure {e : Engine σ} (h : e.Keyed) (mint : Mint) :
    (e.countFailure mint).Keyed := by
  cases hpos : e.positions.lookup mint with
  | none => exact keyed_of_positions h (bookFailure_of_unheld hpos _)
  | some pos =>
      exact keyed_of_insert h ((failExit_mint pos _).trans (h _ _ hpos))
        (bookFailure_of_lookup hpos _)

theorem Keyed.sendSlice {e : Engine σ} (h : e.Keyed) (ex : Executor σ) (launch : Launch)
    (deadline : DateTime) (slice : Decimal) : (e.sendSlice ex launch deadline slice).1.Keyed := by
  rcases sendSlice_cases ex e launch deadline slice with
    ⟨err, st, -, hsend, -⟩ | ⟨fill, st, -, hsend, -⟩
  · exact keyed_of_positions h (fields_of_trading hsend).positions
  · exact keyed_of_positions (Keyed.applyBuyFill (e := e.submitted st) h _ _ _)
      (fields_of_trading hsend).positions

theorem Keyed.closePosition {e : Engine σ} (h : e.Keyed) (ex : Executor σ) (x : ExitArgs)
    (now : DateTime) : (e.closePosition ex x now).Keyed := by
  rcases closePosition_cases ex e x now with ⟨err, st, -, hclose⟩ | ⟨fill, st, -, hclose⟩
  · exact keyed_of_positions
      (Keyed.countFailure (e := (e.withRisk (e.risk.pushOrder now)).submitted st) h _)
      (fields_of_trading hclose).positions
  · exact keyed_of_positions (keyed_of_erase h rfl) (fields_of_trading hclose).positions

/-- An exit touches no position but its own. -/
theorem closePosition_lookup_of_ne (ex : Executor σ) (e : Engine σ) (x : ExitArgs)
    (now : DateTime) {mint : Mint} (h : mint ≠ x.mint) :
    (e.closePosition ex x now).positions.lookup mint = e.positions.lookup mint := by
  rcases closePosition_cases ex e x now with ⟨err, st, -, hclose⟩ | ⟨fill, st, -, hclose⟩
  · rw [(fields_of_trading hclose).positions]
    change (bookFailure e.positions x.mint e.cfg.maxExitAttempts).lookup mint = _
    unfold bookFailure
    split
    · exact Finmap.lookup_insert_of_ne _ h
    · rfl
  · rw [(fields_of_trading hclose).positions]
    exact Finmap.lookup_erase_ne h

@[simp] theorem closePosition_cfg (ex : Executor σ) (e : Engine σ) (x : ExitArgs)
    (now : DateTime) : (e.closePosition ex x now).cfg = e.cfg := by
  rcases closePosition_cases ex e x now with ⟨err, st, -, hclose⟩ | ⟨fill, st, -, hclose⟩
  · rw [(fields_of_trading hclose).cfg]
    rfl
  · rw [(fields_of_trading hclose).cfg]
    rfl

/-! ## The step relation -/

/-- What holds from the entry checks of a launch to the last slice of its
funnel. -/
structure FunnelOpen (ex : Executor σ) (e : Engine σ) (launch : Launch) : Prop where
  gate : entryGate launch launch.createdAt e.cfg = .ok ()
  day : e.risk.day = dateNaive launch.createdAt
  not_tripped : e.risk.dailyLossTripped = false
  above_limit : e.risk.lossLimit < e.risk.dayRealizedPnl
  not_killed : e.risk.kill = false
  slot : ex.HonoursMint →
    launch.mint ∈ e.positions ∨ e.risk.openPositions < e.risk.cfg.maxOpenPositions

/-- The book after a tick, before any sell. -/
def ticked (e : Engine σ) (p : PriceUpdate) (pos : Position) : Engine σ :=
  { e with positions := e.positions.insert p.mint (tickPosition e.cfg p pos).1 }

/-- The two parts of an event: its own handler, then the sweep. -/
inductive Phase
  | handler
  | sweep

/-- The small steps of the event `ev`. -/
inductive Step (ex : Executor σ) (ev : Event) : Phase → Engine σ → Engine σ → Prop
  | note (e : Engine σ) (mint : Mint) (action : String) (detail : Text) :
      Step ex ev .handler e (e.auditDecision ev.ts mint action detail)
  | refresh (e : Engine σ) : Step ex ev .handler e (e.withRisk (e.risk.refresh ev.ts))
  | slice (e : Engine σ) (launch : Launch) (budgetUsd : Decimal) (hev : ev = .launch launch)
      (hopen : FunnelOpen ex e launch) (hwindow : launch.createdAt ≤ funnelDeadline e.cfg launch)
      (hroom : (e.risk.refresh launch.createdAt).throttleFull = false) :
      Step ex ev .handler e
        ((e.withRisk ((e.risk.refresh launch.createdAt).pushOrder launch.createdAt)).sendSlice ex
          launch (funnelDeadline e.cfg launch) budgetUsd).1
  | tick (e : Engine σ) (p : PriceUpdate) (pos : Position) (hev : ev = .price p)
      (hpos : e.positions.lookup p.mint = some pos) (hstay : (tickPosition e.cfg p pos).2 = none) :
      Step ex ev .handler e (e.ticked p pos)
  | tickExit (e : Engine σ) (p : PriceUpdate) (pos : Position) (d : ExitDecision)
      (hev : ev = .price p) (hpos : e.positions.lookup p.mint = some pos)
      (hexit : (tickPosition e.cfg p pos).2 = some d) :
      Step ex ev .handler e
        ((e.ticked p pos).closePosition ex
          ((tickPosition e.cfg p pos).1.exitArgs p.priceUsd p.liquidityUsd d.reason) p.ts)
  | timeExit (e : Engine σ) (pos : Position) (x : ExitArgs)
      (hpos : e.positions.lookup pos.mint = some pos)
      (hdue : timeStopExit e.cfg ev.ts pos = some x) :
      Step ex ev .sweep e (e.closePosition ex x ev.ts)
  | page (e : Engine σ) (kind : AlertKind) (detail : Text) :
      Step ex ev .sweep e (e.alert kind detail)

/-- Zero or more steps of one phase of an event. -/
abbrev Steps (ex : Executor σ) (ev : Event) (phase : Phase) : Engine σ → Engine σ → Prop :=
  ReflTransGen (Step ex ev phase)

theorem tickPosition_mint (cfg : Config) (p : PriceUpdate) (pos : Position) :
    (tickPosition cfg p pos).1.mint = pos.mint :=
  (onPrice_sameHolding _ _ _ _).mint

theorem tickPosition_keyed {e : Engine σ} (h : e.Keyed) {p : PriceUpdate} {pos : Position}
    (hpos : e.positions.lookup p.mint = some pos) : (tickPosition e.cfg p pos).1.mint = p.mint :=
  (tickPosition_mint _ _ _).trans (h _ _ hpos)

/-- The ticked position stands under its own mint. -/
theorem ticked_lookup {e : Engine σ} (h : e.Keyed) {p : PriceUpdate} {pos : Position}
    (hpos : e.positions.lookup p.mint = some pos) :
    (e.ticked p pos).positions.lookup (tickPosition e.cfg p pos).1.mint =
      some (tickPosition e.cfg p pos).1 := by
  rw [tickPosition_keyed h hpos]
  exact Finmap.lookup_insert _

theorem Keyed.ticked {e : Engine σ} (h : e.Keyed) {p : PriceUpdate} {pos : Position}
    (hpos : e.positions.lookup p.mint = some pos) : (e.ticked p pos).Keyed :=
  keyed_of_insert h (tickPosition_keyed h hpos) rfl

theorem Step.keyed {ex : Executor σ} {ev : Event} {phase : Phase} {e e' : Engine σ}
    (hstep : Step ex ev phase e e') (h : e.Keyed) : e'.Keyed := by
  cases hstep with
  | note e mint action detail => exact h
  | refresh e => exact h
  | slice e launch budgetUsd hev hopen hwindow hroom =>
      have hgranted : (e.withRisk
          ((e.risk.refresh launch.createdAt).pushOrder launch.createdAt)).Keyed := h
      exact hgranted.sendSlice _ _ _ _
  | tick e p pos hev hpos hstay => exact h.ticked hpos
  | tickExit e p pos d hev hpos hexit => exact (h.ticked hpos).closePosition _ _ _
  | timeExit e pos x hpos hdue => exact h.closePosition _ _ _
  | page e kind detail => exact h

theorem Steps.keyed {ex : Executor σ} {ev : Event} {phase : Phase} {e e' : Engine σ}
    (hsteps : Steps ex ev phase e e') (h : e.Keyed) : e'.Keyed := by
  induction hsteps with
  | refl => exact h
  | tail _ hstep ih => exact hstep.keyed ih

/-! ## Every event is a sequence of steps -/

theorem sendSlice_cfg (ex : Executor σ) (e : Engine σ) (launch : Launch) (deadline : DateTime)
    (slice : Decimal) : (e.sendSlice ex launch deadline slice).1.cfg = e.cfg := by
  rcases sendSlice_cases ex e launch deadline slice with
    ⟨err, st, -, hsend, -⟩ | ⟨fill, st, -, hsend, -⟩
  · exact (fields_of_trading hsend).cfg
  · exact (fields_of_trading hsend).cfg

/-- No step changes the configuration. -/
theorem Step.cfg {ex : Executor σ} {ev : Event} {phase : Phase} {e e' : Engine σ}
    (hstep : Step ex ev phase e e') : e'.cfg = e.cfg := by
  cases hstep with
  | note e mint action detail => rfl
  | refresh e => rfl
  | slice e launch budgetUsd hev hopen hwindow hroom => exact sendSlice_cfg _ _ _ _ _
  | tick e p pos hev hpos hstay => rfl
  | tickExit e p pos d hev hpos hexit => exact closePosition_cfg _ _ _ _
  | timeExit e pos x hpos hdue => exact closePosition_cfg _ _ _ _
  | page e kind detail => rfl

/-- A filled slice leaves the funnel open. -/
theorem FunnelOpen.sendSlice {ex : Executor σ} {e : Engine σ} {launch : Launch}
    (hopen : FunnelOpen ex e launch) (deadline : DateTime) (slice : Decimal)
    (hcontinues : (e.sendSlice ex launch deadline slice).2 = true) :
    FunnelOpen ex (e.sendSlice ex launch deadline slice).1 launch := by
  rcases sendSlice_cases ex e launch deadline slice with
    ⟨err, st, -, -, hstop⟩ | ⟨fill, st, hbuy, hsend, -⟩
  · rw [hstop] at hcontinues
    exact absurd hcontinues (by decide)
  · obtain ⟨hcfg, hrisk, -, -, -, hpos, -, -⟩ := fields_of_trading hsend
    have hcfg' : (e.sendSlice ex launch deadline slice).1.cfg = e.cfg := hcfg
    have hrisk' : (e.sendSlice ex launch deadline slice).1.risk =
        e.risk.setOpenPositions
          ((e.submitted st).applyBuyFill fill launch.launchpad
            launch.liquidityUsd).positions.keys.card := hrisk
    constructor
    · rw [hcfg']
      exact hopen.gate
    · rw [hrisk']
      exact hopen.day
    · rw [hrisk']
      exact hopen.not_tripped
    · rw [hrisk']
      exact hopen.above_limit
    · rw [hrisk']
      exact hopen.not_killed
    · intro hmint
      left
      rw [hpos, applyBuyFill_positions, hmint _ _ _ _ hbuy, Finmap.mem_insert]
      exact Or.inl rfl

theorem FunnelOpen.granted {ex : Executor σ} {e : Engine σ} {launch : Launch}
    (hopen : FunnelOpen ex e launch) :
    FunnelOpen ex
      (e.withRisk ((e.risk.refresh launch.createdAt).pushOrder launch.createdAt)) launch := by
  have hrefresh : e.risk.refresh launch.createdAt = e.risk.pruneOrders launch.createdAt := by
    rw [RiskEngine.refresh, e.risk.maybeRollover_of_day _ hopen.day]
  rw [hrefresh]
  exact ⟨hopen.gate, hopen.day, hopen.not_tripped, hopen.above_limit, hopen.not_killed, hopen.slot⟩

theorem funnelSlice_steps (ex : Executor σ) (e : Engine σ) (launch : Launch) (idx total : Nat)
    (slice : Decimal) (hopen : FunnelOpen ex e launch) :
    Steps ex (.launch launch) .handler e
        (e.funnelSlice ex launch (funnelDeadline e.cfg launch) idx total slice).1 ∧
      ((e.funnelSlice ex launch (funnelDeadline e.cfg launch) idx total slice).2 = true →
        FunnelOpen ex (e.funnelSlice ex launch (funnelDeadline e.cfg launch) idx total slice).1
          launch) := by
  unfold funnelSlice
  dsimp only
  split
  · refine ⟨ReflTransGen.single (Step.note e _ _ _), fun hcontinues => ?_⟩
    exact absurd hcontinues Bool.false_ne_true
  · rename_i hwindow
    rcases e.risk.checkOrder_cases launch.createdAt with ⟨-, block, hcheck⟩ | ⟨hroom, hcheck⟩
    · rw [hcheck]
      refine ⟨?_, fun hcontinues => absurd hcontinues Bool.false_ne_true⟩
      exact ((ReflTransGen.single (Step.refresh e)).tail (Step.note _ _ _ _)).tail
        (Step.note _ _ _ _)
    · rw [hcheck]
      exact ⟨ReflTransGen.single (Step.slice e launch slice rfl hopen (not_lt.mp hwindow) hroom),
        fun hcontinues => hopen.granted.sendSlice _ _ hcontinues⟩

@[simp] theorem funnelSlice_cfg (ex : Executor σ) (e : Engine σ) (launch : Launch)
    (deadline : DateTime) (idx total : Nat) (slice : Decimal) :
    (e.funnelSlice ex launch deadline idx total slice).1.cfg = e.cfg := by
  unfold funnelSlice
  dsimp only
  split
  · rfl
  · split
    · rfl
    · exact sendSlice_cfg _ _ _ _ _

/-- The funnel, by induction on the slices that are left. -/
theorem funnel_steps (ex : Executor σ) (launch : Launch) (total : Nat) (slices : List Decimal)
    (idx : Nat) (e : Engine σ) (hopen : FunnelOpen ex e launch) :
    Steps ex (.launch launch) .handler e
      (funnel ex launch (funnelDeadline e.cfg launch) total idx slices e) := by
  induction slices generalizing idx e with
  | nil => exact ReflTransGen.refl
  | cons slice rest ih =>
      obtain ⟨hsteps, hnext⟩ := funnelSlice_steps ex e launch idx total slice hopen
      unfold funnel
      dsimp only
      split
      · rename_i hcontinues
        have hrest := ih (idx + 1) _ (hnext hcontinues)
        rw [funnelSlice_cfg] at hrest
        exact hsteps.trans hrest
      · exact hsteps

theorem onLaunch_steps (ex : Executor σ) (e : Engine σ) (launch : Launch) :
    Steps ex (.launch launch) .handler e (e.onLaunch ex launch) := by
  unfold onLaunch
  dsimp only
  split
  · exact ReflTransGen.single (Step.note e _ _ _)
  · rename_i hnew
    cases hgate : entryGate launch launch.createdAt e.cfg with
    | error reason => exact ReflTransGen.single (Step.note e _ _ _)
    | ok u =>
        have hrefreshed : Steps ex (.launch launch) .handler e
            (e.withRisk (e.risk.refresh launch.createdAt)) := ReflTransGen.single (Step.refresh e)
        have hsnd := e.risk.checkEntry_snd launch.createdAt
        rcases hcheck : e.risk.checkEntry launch.createdAt with ⟨block | u', risk⟩
        · rw [hcheck] at hsnd
          obtain rfl : risk = e.risk.refresh launch.createdAt := hsnd
          exact hrefreshed.tail (Step.note _ _ _ _)
        · have hok := (e.risk.checkEntry_eq_ok_iff launch.createdAt).mp (by rw [hcheck])
          rw [hcheck] at hsnd
          obtain rfl : risk = e.risk.refresh launch.createdAt := hsnd
          have hopen : FunnelOpen ex (e.withRisk (e.risk.refresh launch.createdAt)) launch :=
            ⟨hgate, e.risk.refresh_day _, hok.not_tripped, hok.above_limit, hok.not_killed,
              fun _ => Or.inr hok.below_cap⟩
          dsimp only
          split
          · exact hrefreshed.tail (Step.note _ _ _ _)
          · have hnoted : FunnelOpen ex
                ((e.withRisk (e.risk.refresh launch.createdAt)).auditDecision launch.createdAt
                  launch.mint "entry_accepted"
                  ["funnel budget $", .dec (positionBudget e.cfg e.equity e.deployedUsd), " into ",
                    launch.launchpad.asStr]) launch :=
              ⟨hopen.gate, hopen.day, hopen.not_tripped, hopen.above_limit, hopen.not_killed,
                hopen.slot⟩
            exact (hrefreshed.tail (Step.note _ _ _ _)).trans
              (funnel_steps ex launch _ _ 0 _ hnoted)

/-- The handler of a launch closes no trade and leaves the manual kill flag. -/
theorem Step.launch_frame {ex : Executor σ} {launch : Launch} {e e' : Engine σ}
    (hstep : Step ex (.launch launch) .handler e e') :
    e'.closed = e.closed ∧ e'.risk.kill = e.risk.kill := by
  cases hstep with
  | note e mint action detail => exact ⟨rfl, rfl⟩
  | refresh e => exact ⟨rfl, e.risk.refresh_kill _⟩
  | slice e launch' budgetUsd hev hopen hwindow hroom =>
      have hkill := e.risk.refresh_kill launch'.createdAt
      rcases sendSlice_cases ex
          (e.withRisk ((e.risk.refresh launch'.createdAt).pushOrder launch'.createdAt)) launch'
          (funnelDeadline e.cfg launch') budgetUsd with
        ⟨err, st, -, hsend, -⟩ | ⟨fill, st, -, hsend, -⟩
      · obtain ⟨-, hrisk, -, -, -, -, hclosed, -⟩ := fields_of_trading hsend
        exact ⟨hclosed, (congrArg RiskEngine.kill hrisk).trans hkill⟩
      · obtain ⟨-, hrisk, -, -, -, -, hclosed, -⟩ := fields_of_trading hsend
        exact ⟨hclosed, (congrArg RiskEngine.kill hrisk).trans hkill⟩
  | tick e p pos hev hpos hstay => exact absurd hev (by simp)
  | tickExit e p pos d hev hpos hexit => exact absurd hev (by simp)

theorem onLaunch_frame (ex : Executor σ) (e : Engine σ) (launch : Launch) :
    (e.onLaunch ex launch).closed = e.closed ∧ (e.onLaunch ex launch).risk.kill = e.risk.kill := by
  refine steps_invariant (P := fun a : Engine σ => a.closed = e.closed ∧ a.risk.kill = e.risk.kill)
    ?_ (onLaunch_steps ex e launch) ⟨rfl, rfl⟩
  rintro a b hab ⟨hclosed, hkill⟩
  obtain ⟨hclosed', hkill'⟩ := hab.launch_frame
  exact ⟨hclosed'.trans hclosed, hkill'.trans hkill⟩

/-! ### A tick -/

section Tick

variable {ex : Executor σ} {e : Engine σ} {p : PriceUpdate} {pos : Position}

theorem onPriceUpdate_unheld (hpos : e.positions.lookup p.mint = none) :
    e.onPriceUpdate ex p = e := by
  unfold onPriceUpdate
  rw [hpos]

theorem onPriceUpdate_stay (hpos : e.positions.lookup p.mint = some pos)
    (hstay : (tickPosition e.cfg p pos).2 = none) : e.onPriceUpdate ex p = e.ticked p pos := by
  unfold onPriceUpdate
  rw [hpos]
  dsimp only
  rw [hstay]
  rfl

theorem onPriceUpdate_exit {d : ExitDecision} (hpos : e.positions.lookup p.mint = some pos)
    (hexit : (tickPosition e.cfg p pos).2 = some d) :
    e.onPriceUpdate ex p =
      (e.ticked p pos).closePosition ex
        ((tickPosition e.cfg p pos).1.exitArgs p.priceUsd p.liquidityUsd d.reason) p.ts := by
  unfold onPriceUpdate
  rw [hpos]
  dsimp only
  rw [hexit]
  rfl

end Tick

theorem onPriceUpdate_steps (ex : Executor σ) (e : Engine σ) (p : PriceUpdate) :
    Steps ex (.price p) .handler e (e.onPriceUpdate ex p) := by
  cases hpos : e.positions.lookup p.mint with
  | none =>
      rw [onPriceUpdate_unheld hpos]
  | some pos =>
      cases hexit : (tickPosition e.cfg p pos).2 with
      | none =>
          rw [onPriceUpdate_stay hpos hexit]
          exact ReflTransGen.single (Step.tick e p pos rfl hpos hexit)
      | some d =>
          rw [onPriceUpdate_exit hpos hexit]
          exact ReflTransGen.single (Step.tickExit e p pos d rfl hpos hexit)

theorem handle_steps (ex : Executor σ) (e : Engine σ) (ev : Event) :
    Steps ex ev .handler e (e.handle ex ev) := by
  cases ev with
  | launch l => exact onLaunch_steps ex e l
  | price p => exact onPriceUpdate_steps ex e p

theorem handle_cfg (ex : Executor σ) (e : Engine σ) (ev : Event) :
    (e.handle ex ev).cfg = e.cfg :=
  steps_invariant (P := fun e' : Engine σ => e'.cfg = e.cfg) (fun _ _ hab ha => hab.cfg.trans ha)
    (handle_steps ex e ev) rfl

/-! ### The sweep -/

theorem timeStopExit_mint {cfg : Config} {now : DateTime} {pos : Position} {x : ExitArgs}
    (h : timeStopExit cfg now pos = some x) : x.mint = pos.mint := by
  unfold timeStopExit at h
  split at h
  · exact absurd h (by simp)
  · obtain ⟨d, -, rfl⟩ := Option.map_eq_some_iff.mp h
    rfl

/-- Collected exits that are still what the sweep would decide. -/
def DueExits (e : Engine σ) (now : DateTime) (exits : List ExitArgs) : Prop :=
  (exits.map ExitArgs.mint).Nodup ∧
    ∀ x ∈ exits, ∃ pos, e.positions.lookup x.mint = some pos ∧ pos.mint = x.mint ∧
      timeStopExit e.cfg now pos = some x

theorem dueExits_collect {e : Engine σ} (h : e.Keyed) (o : KeyOrder Mint) (now : DateTime) :
    e.DueExits now ((e.positions.valuesIn o).filterMap (timeStopExit e.cfg now)) := by
  constructor
  · refine nodup_map_filterMap (fun _ _ => timeStopExit_mint) ?_
    rw [FiniteMap.map_valuesIn h]
    exact o.nodup _
  · intro x hx
    obtain ⟨pos, hpos, hdue⟩ := List.mem_filterMap.mp hx
    obtain ⟨mint, hlookup⟩ := FiniteMap.mem_valuesIn.mp hpos
    have hmint := timeStopExit_mint hdue
    refine ⟨pos, ?_, hmint.symm, hdue⟩
    rw [hmint, h _ _ hlookup]
    exact hlookup

/-- Selling one of them leaves the others due. -/
theorem DueExits.tail {e : Engine σ} {now : DateTime} {x : ExitArgs} {exits : List ExitArgs}
    (h : e.DueExits now (x :: exits)) (ex : Executor σ) :
    (e.closePosition ex x now).DueExits now exits := by
  obtain ⟨hnodup, hdue⟩ := h
  rw [List.map_cons, List.nodup_cons] at hnodup
  refine ⟨hnodup.2, fun y hy => ?_⟩
  obtain ⟨pos, hlookup, hmint, hexit⟩ := hdue y (List.mem_cons_of_mem _ hy)
  have hne : y.mint ≠ x.mint := by
    intro heq
    exact hnodup.1 (heq ▸ List.mem_map_of_mem hy)
  refine ⟨pos, ?_, hmint, ?_⟩
  · rw [closePosition_lookup_of_ne ex e x now hne]
    exact hlookup
  · rw [closePosition_cfg]
    exact hexit

theorem closeAll_steps (ex : Executor σ) (ev : Event) (exits : List ExitArgs) (e : Engine σ)
    (h : e.DueExits ev.ts exits) :
    Steps ex ev .sweep e (exits.foldl (fun e x => e.closePosition ex x ev.ts) e) := by
  induction exits generalizing e with
  | nil => exact ReflTransGen.refl
  | cons x rest ih =>
      obtain ⟨pos, hlookup, hmint, hexit⟩ := h.2 x (List.mem_cons_self)
      rw [← hmint] at hlookup
      exact ReflTransGen.head (Step.timeExit e pos x hlookup hexit) (ih _ (h.tail ex))

theorem sweepTimeStops_steps (ex : Executor σ) (o : KeyOrder Mint) (ev : Event) {e : Engine σ}
    (h : e.Keyed) : Steps ex ev .sweep e (e.sweepTimeStops ex o ev.ts) :=
  closeAll_steps ex ev _ e (dueExits_collect h o ev.ts)

/-- Where no exit is due, the sweep does nothing. -/
theorem sweepTimeStops_eq_self {ex : Executor σ} {o : KeyOrder Mint} {e : Engine σ}
    {now : DateTime}
    (h : ∀ mint pos, e.positions.lookup mint = some pos → timeStopExit e.cfg now pos = none) :
    e.sweepTimeStops ex o now = e := by
  have hnone : (e.positions.valuesIn o).filterMap (timeStopExit e.cfg now) = [] := by
    rw [List.filterMap_eq_nil_iff]
    intro pos hpos
    obtain ⟨mint, hlookup⟩ := FiniteMap.mem_valuesIn.mp hpos
    exact h mint pos hlookup
  rw [sweepTimeStops, hnone, List.foldl_nil]

/-- The page at the end of an event is no trading. -/
theorem trading_onEvent (ex : Executor σ) (o : KeyOrder Mint) (e : Engine σ) (ev : Event) :
    (e.onEvent ex o ev).trading = ((e.handle ex ev).sweepTimeStops ex o ev.ts).trading := by
  unfold onEvent
  dsimp only
  split <;> rfl

/-- What follows the handler is a sequence of sweep steps. -/
theorem onEvent_sweep (ex : Executor σ) (o : KeyOrder Mint) (ev : Event) {e : Engine σ}
    (h : e.Keyed) : Steps ex ev .sweep (e.handle ex ev) (e.onEvent ex o ev) := by
  have hsweep := sweepTimeStops_steps ex o ev ((handle_steps ex e ev).keyed h)
  unfold onEvent
  dsimp only
  split
  · exact hsweep.tail (Step.page _ _ _)
  · exact hsweep

/-- The invariant rule for one event. -/
theorem onEvent_invariant {ex : Executor σ} {ev : Event} {P : Engine σ → Prop}
    (hstep : ∀ phase e e', Step ex ev phase e e' → e.Keyed → P e → P e') (o : KeyOrder Mint)
    {e : Engine σ} (hkeyed : e.Keyed) (he : P e) : P (e.onEvent ex o ev) := by
  have hboth : ∀ phase a b, Step ex ev phase a b → a.Keyed ∧ P a → b.Keyed ∧ P b :=
    fun phase a b hab ha => ⟨hab.keyed ha.1, hstep phase a b hab ha.1 ha.2⟩
  have hhandled := steps_invariant (hboth .handler) (handle_steps ex e ev) ⟨hkeyed, he⟩
  exact (steps_invariant (hboth .sweep) (onEvent_sweep ex o ev hkeyed) hhandled).2

end Engine

end HfmcBot
