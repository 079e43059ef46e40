import HfmcBot.Engine.Orders
import HfmcBot.Engine.Run
import HfmcBot.Engine.Ledger

/-!
# The trading desk

The part of the engine that money moves through: the open positions, the orders sent,
the capital and the closed trades.  `DeskStep` says what a tick and the four outcomes of
an order do to it, and nothing about logs, pages and limits.

* `Step.desk`: a step of the engine is a sequence of these;
* `onEvent_desk`, `run_desk`: the invariant rules for an event and for a run.
-/

namespace HfmcBot

open Foundation Relation

/-- Positions, order history and money. -/
structure Desk where
  book : Book
  sent : List Sent
  equity : Decimal
  deployedUsd : Decimal
  closed : List ClosedTrade

namespace Desk

/-- An order went out and was answered. -/
def record (d : Desk) (order : Order) (answer : Answer) : Desk :=
  { d with sent := d.sent ++ [⟨order, answer⟩] }

/-- The position a fill is accumulated into. -/
def target (d : Desk) (fill : Fill) (launch : Launch) : Position :=
  (d.book.lookup fill.mint).getD (openedBy fill launch.launchpad launch.liquidityUsd)

/-- It is the held one, or a new one. -/
theorem target_cases (d : Desk) (fill : Fill) (launch : Launch) :
    (d.book.lookup fill.mint = none ∧
        d.target fill launch = openedBy fill launch.launchpad launch.liquidityUsd) ∨
      ∃ pos, d.book.lookup fill.mint = some pos ∧ d.target fill launch = pos := by
  unfold target
  cases hlookup : d.book.lookup fill.mint with
  | none => exact Or.inl ⟨rfl, rfl⟩
  | some pos => exact Or.inr ⟨pos, rfl, rfl⟩

/-- A filled buy. -/
def bought (d : Desk) (fill : Fill) (launch : Launch) : Desk :=
  { d with
    book := d.book.insert fill.mint ((d.target fill launch).addFill fill launch.liquidityUsd)
    deployedUsd := d.deployedUsd + (fill.notionalUsd + fill.feeUsd) }

/-- A failed sell of a held position. -/
def missed (d : Desk) (cfg : Config) (pos : Position) : Desk :=
  { d with book := d.book.insert pos.mint (pos.failExit cfg.maxExitAttempts) }

/-- A filled sell. -/
def sold (d : Desk) (x : ExitArgs) (fill : Fill) (now : DateTime) : Desk :=
  { d with
    book := d.book.erase x.mint
    equity := d.equity + (Engine.tradeOf x fill now).pnlUsd
    deployedUsd := d.deployedUsd - x.cost
    closed := d.closed ++ [Engine.tradeOf x fill now] }

end Desk

/-- What happens at the desk during the event `ev`. -/
inductive DeskStep {σ : Type} (ex : Executor σ) (cfg : Config) (ev : Event) : Desk → Desk → Prop
  | tick (d : Desk) (p : PriceUpdate) (pos : Position) (hev : ev = .price p)
      (hpos : d.book.lookup p.mint = some pos) :
      DeskStep ex cfg ev d { d with book := d.book.insert p.mint (Engine.tickPosition cfg p pos).1 }
  | buyFailed (d : Desk) (launch : Launch) (deadline : DateTime) (slice : Decimal)
      (orderId : String) (st : σ) (err : ExecError) (hev : ev = .launch launch)
      (hbuy : (ex.buy (Engine.sliceRequest launch deadline slice orderId) st).1 = .error err) :
      DeskStep ex cfg ev d
        (d.record (.buy (Engine.sliceRequest launch deadline slice orderId)) (.error err))
  | buyFilled (d : Desk) (launch : Launch) (deadline : DateTime) (slice : Decimal)
      (orderId : String) (st : σ) (fill : Fill) (hev : ev = .launch launch)
      (hbuy : (ex.buy (Engine.sliceRequest launch deadline slice orderId) st).1 = .ok fill) :
      DeskStep ex cfg ev d
        ((d.record (.buy (Engine.sliceRequest launch deadline slice orderId))
          (.ok fill)).bought fill launch)
  | sellFailed (d : Desk) (pos : Position) (refPrice liquidityUsd : Decimal) (reason : String)
      (orderId : String) (st : σ) (err : ExecError) (hpos : d.book.lookup pos.mint = some pos)
      (hsell : (ex.sell (Engine.sellRequest (pos.exitArgs refPrice liquidityUsd reason) ev.ts
        orderId) st).1 = .error err) :
      DeskStep ex cfg ev d
        ((d.record (.sell (Engine.sellRequest (pos.exitArgs refPrice liquidityUsd reason) ev.ts
          orderId)) (.error err)).missed cfg pos)
  | sellFilled (d : Desk) (pos : Position) (refPrice liquidityUsd : Decimal) (reason : String)
      (orderId : String) (st : σ) (fill : Fill) (hpos : d.book.lookup pos.mint = some pos)
      (hsell : (ex.sell (Engine.sellRequest (pos.exitArgs refPrice liquidityUsd reason) ev.ts
        orderId) st).1 = .ok fill) :
      DeskStep ex cfg ev d
        ((d.record (.sell (Engine.sellRequest (pos.exitArgs refPrice liquidityUsd reason) ev.ts
          orderId)) (.ok fill)).sold (pos.exitArgs refPrice liquidityUsd reason) fill ev.ts)

namespace Engine

variable {σ : Type} {ex : Executor σ} {ev : Event} {phase : Phase}
  {e e' : Engine (σ × List Sent)}

/-- The desk of an engine. -/
def desk (e : Engine (σ × List Sent)) : Desk where
  book := e.positions
  sent := e.sent
  equity := e.equity
  deployedUsd := e.deployedUsd
  closed := e.closed

theorem desk_of_trading (h : e.trading = e'.trading) : e.desk = e'.desk := by
  obtain ⟨-, -, hexec, hequity, hdeployed, hpos, hclosed, -⟩ := fields_of_trading h
  unfold desk sent
  rw [hexec, hequity, hdeployed, hpos, hclosed]

/-- An order that was answered is on record. -/
theorem buy_desk {req : BuyRequest} {answer : Answer} {st : σ × List Sent}
    (h : ex.recorded.buy req e.exec = (answer, st)) :
    (ex.buy req e.exec.1).1 = answer ∧ (e.submitted st).desk = e.desk.record (.buy req) answer := by
  obtain rfl : (ex.recorded.buy req e.exec).1 = answer := congrArg Prod.fst h
  obtain rfl : (ex.recorded.buy req e.exec).2 = st := congrArg Prod.snd h
  exact ⟨rfl, rfl⟩

theorem sell_desk {req : SellRequest} {answer : Answer} {st : σ × List Sent}
    (h : ex.recorded.sell req e.exec = (answer, st)) :
    (ex.sell req e.exec.1).1 = answer ∧
      (e.submitted st).desk = e.desk.record (.sell req) answer := by
  obtain rfl : (ex.recorded.sell req e.exec).1 = answer := congrArg Prod.fst h
  obtain rfl : (ex.recorded.sell req e.exec).2 = st := congrArg Prod.snd h
  exact ⟨rfl, rfl⟩

/-- A tick leaves the holding alone. -/
theorem tickPosition_sameHolding (cfg : Config) (p : PriceUpdate) (pos : Position) :
    pos.SameHolding (tickPosition cfg p pos).1 := by
  obtain ⟨h1, h2, h3, h4, h5, h6, h7⟩ := onPrice_sameHolding
    { pos with lastPrice := p.priceUsd, lastLiquidityUsd := p.liquidityUsd } p.priceUsd p.ts cfg
  exact ⟨h1, h2, h3, h4, h5, h6, h7⟩

/-- A granted slice at the desk. -/
theorem sendSlice_desk (ex : Executor σ) (e : Engine (σ × List Sent)) (launch : Launch)
    (deadline : DateTime) (slice : Decimal) :
    DeskStep ex e.cfg (.launch launch) e.desk
      (e.sendSlice ex.recorded launch deadline slice).1.desk := by
  rcases sendSlice_cases ex.recorded e launch deadline slice with
    ⟨err, st, hbuy, hsend, -⟩ | ⟨fill, st, hbuy, hsend, -⟩
  · obtain ⟨hanswer, hdesk⟩ := buy_desk hbuy
    rw [desk_of_trading hsend, hdesk]
    exact DeskStep.buyFailed _ launch deadline slice _ e.exec.1 err rfl hanswer
  · obtain ⟨hanswer, hdesk⟩ := buy_desk hbuy
    have hbooked : ((e.submitted st).applyBuyFill fill launch.launchpad launch.liquidityUsd).desk =
        (e.submitted st).desk.bought fill launch := rfl
    rw [desk_of_trading hsend, hbooked, hdesk]
    exact DeskStep.buyFilled _ launch deadline slice _ e.exec.1 fill rfl hanswer

/-- An exit of a held position at the desk. -/
theorem closePosition_desk (ex : Executor σ) (e : Engine (σ × List Sent)) {pos : Position}
    (refPrice liquidityUsd : Decimal) (reason : String) (ev : Event)
    (hpos : e.positions.lookup pos.mint = some pos) :
    DeskStep ex e.cfg ev e.desk
      (e.closePosition ex.recorded (pos.exitArgs refPrice liquidityUsd reason) ev.ts).desk := by
  rcases closePosition_cases ex.recorded e (pos.exitArgs refPrice liquidityUsd reason) ev.ts with
    ⟨err, st, hsell, hclose⟩ | ⟨fill, st, hsell, hclose⟩
  · obtain ⟨hanswer, hdesk⟩ := sell_desk hsell
    have hcount : (((e.withRisk (e.risk.pushOrder ev.ts)).submitted st).countFailure
        pos.mint).desk = (e.submitted st).desk.missed e.cfg pos := by
      unfold desk Desk.missed Engine.countFailure
      have hbook := bookFailure_of_lookup hpos e.cfg.maxExitAttempts
      exact congrArg (fun book : Book => (⟨book, _, _, _, _⟩ : Desk)) hbook
    rw [desk_of_trading hclose]
    show DeskStep ex e.cfg ev e.desk (((e.withRisk (e.risk.pushOrder ev.ts)).submitted
      st).countFailure pos.mint).desk
    rw [hcount, hdesk]
    exact DeskStep.sellFailed _ pos refPrice liquidityUsd reason _ e.exec.1 err hpos hanswer
  · obtain ⟨hanswer, hdesk⟩ := sell_desk hsell
    have hsettle : (((e.withRisk (e.risk.pushOrder ev.ts)).submitted st).settle ev.ts
        (pos.exitArgs refPrice liquidityUsd reason) fill).desk =
        (e.submitted st).desk.sold (pos.exitArgs refPrice liquidityUsd reason) fill ev.ts := rfl
    rw [desk_of_trading hclose, hsettle, hdesk]
    exact DeskStep.sellFilled _ pos refPrice liquidityUsd reason _ e.exec.1 fill hpos hanswer

/-- A step of the engine is a sequence of steps at the desk. -/
theorem Step.desk (hstep : Step ex.recorded ev phase e e') (hkeyed : e.Keyed) :
    ReflTransGen (DeskStep ex e.cfg ev) e.desk e'.desk := by
  cases hstep with
  | note e mint action detail => exact ReflTransGen.refl
  | refresh e => exact ReflTransGen.refl
  | slice e launch budgetUsd hev hopen hwindow hroom =>
      subst hev
      have hslice := sendSlice_desk ex
        (e.withRisk ((e.risk.refresh launch.createdAt).pushOrder launch.createdAt)) launch
        (funnelDeadline e.cfg launch) budgetUsd
      exact ReflTransGen.single hslice
  | tick e p pos hev hpos hstay => exact ReflTransGen.single (DeskStep.tick _ p pos hev hpos)
  | tickExit e p pos d hev hpos hexit =>
      have htick : DeskStep ex e.cfg ev e.desk (e.ticked p pos).desk :=
        DeskStep.tick _ p pos hev hpos
      have hsell := closePosition_desk ex (e.ticked p pos) p.priceUsd p.liquidityUsd d.reason ev
        (ticked_lookup hkeyed hpos)
      have hts : ev.ts = p.ts := by rw [hev]; rfl
      rw [hts] at hsell
      exact (ReflTransGen.single htick).tail hsell
  | timeExit e pos x hpos hdue =>
      obtain ⟨d, -, -, rfl⟩ := timeStopExit_eq_exitArgs hdue
      exact ReflTransGen.single (closePosition_desk ex e _ _ _ ev hpos)
  | page e kind detail => exact ReflTransGen.refl

/-! ## The rules -/

variable {P : Desk → Prop} {o : KeyOrder Mint}

/-- What every step at the desk preserves, an event preserves. -/
theorem onEvent_desk (hkeyed : e.Keyed)
    (hstep : ∀ a b, DeskStep ex e.cfg ev a b → P a → P b) (he : P e.desk) :
    P (e.onEvent ex.recorded o ev).desk := by
  have hstays : ∀ phase a b, Step ex.recorded ev phase a b → a.Keyed →
      a.cfg = e.cfg ∧ P a.desk → b.cfg = e.cfg ∧ P b.desk := by
    intro phase a b hab hkeyed' ha
    have hdesk := hab.desk hkeyed'
    rw [ha.1] at hdesk
    exact ⟨hab.cfg.trans ha.1, steps_invariant hstep hdesk ha.2⟩
  exact (onEvent_invariant hstays o hkeyed ⟨rfl, he⟩).2

/-- What every step of every event of a run preserves, the run preserves. -/
theorem run_desk {cfg : Config} (ds : List Delivery) :
    ∀ {e : Engine (σ × List Sent)}, e.Keyed → e.cfg = cfg →
      (∀ d ∈ ds, ∀ a b, DeskStep ex cfg d.ev a b → P a → P b) → P e.desk →
      P (run ex.recorded e ds).desk := by
  induction ds with
  | nil =>
      intro e _ _ _ he
      exact he
  | cons d rest ih =>
      intro e hkeyed hcfg hstep he
      have hfirst : P (e.deliver ex.recorded d).desk := by
        apply onEvent_desk hkeyed _ he
        rw [hcfg]
        exact hstep d List.mem_cons_self
      exact ih (hkeyed.deliver _ d) ((deliver_cfg hkeyed _ d).trans hcfg)
        (fun d' hd' => hstep d' (List.mem_cons_of_mem _ hd')) hfirst

end Engine

end HfmcBot
