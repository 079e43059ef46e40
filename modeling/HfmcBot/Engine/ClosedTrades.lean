import HfmcBot.Engine.ExitTurns
import HfmcBot.Engine.Lives

/-!
# Closed trades

A closed trade is put together from what was captured when the exit was decided, from
the sell fill, and from the time of the event.  All of it describes the position that is
closed, except for the opening time: that one is read off the sell fill.

* `deliver_closed`: the trades an event closes, turn by turn;
* `closed_trades_describe_iff`: when a trade describes its position.
-/

namespace HfmcBot

open Foundation Relation

/-- The trade describes the position it closes, the sell that closed it and the time of
the event. -/
structure ClosedTrade.Describes (trade : ClosedTrade) (pos : Position) (fill : Fill)
    (now : DateTime) : Prop where
  mint : trade.mint = pos.mint
  openedAt : trade.openedAt = pos.openedAt
  entryPrice : trade.entryPrice = pos.entryPrice
  costUsd : trade.costUsd = pos.costUsd
  mode : trade.mode = pos.mode
  exitPrice : trade.exitPrice = fill.priceUsd
  qty : trade.qty = fill.qty
  proceedsUsd : trade.proceedsUsd = roundDp fillDp (fill.notionalUsd - fill.feeUsd)
  pnlUsd : trade.pnlUsd = trade.proceedsUsd - trade.costUsd
  closedAt : trade.closedAt = now

/-- The trade a turn closes, if its sell fills. -/
def ExitTurn.trades {σ : Type} (ex : Executor σ) (now : DateTime) (turn : ExitTurn σ) :
    List ClosedTrade :=
  match turn.answer ex now with
  | .ok fill => [Engine.tradeOf turn.args fill now]
  | .error _ => []

namespace Engine

variable {σ : Type}

theorem closePosition_closed (ex : Executor σ) (e : Engine σ) (x : ExitArgs) (now : DateTime) :
    (e.closePosition ex x now).closed = e.closed ++ ExitTurn.trades ex now ⟨e, x⟩ := by
  unfold ExitTurn.trades ExitTurn.answer ExitTurn.request
  rcases closePosition_cases ex e x now with ⟨err, st, hsell, hclose⟩ | ⟨fill, st, hsell, hclose⟩
  · rw [(fields_of_trading hclose).closed]
    dsimp only
    rw [hsell]
    exact (List.append_nil _).symm
  · rw [(fields_of_trading hclose).closed]
    dsimp only
    rw [hsell]
    rfl

/-- The trades an event closes are those of its exits. -/
theorem deliver_closed (ex : Executor σ) (e : Engine σ) (d : Delivery) :
    (e.deliver ex d).closed =
      e.closed ++ (e.exitTurns ex d.order d.ev).flatMap (ExitTurn.trades ex d.ts) := by
  have hsweep := sweep_observe ex (Q := fun _ => True) (fun _ _ h => h)
    (fun e x _ => closePosition_closed ex e x d.ts) d.order (e := e.handle ex d.ev) trivial
  have hhandler : (e.handle ex d.ev).closed =
      e.closed ++ (e.handlerTurns d.ev).flatMap (ExitTurn.trades ex d.ts) := by
    obtain ⟨ev, o⟩ := d
    cases ev with
    | launch launch =>
        rw [handlerTurns, List.flatMap_nil, List.append_nil]
        exact (onLaunch_frame ex e launch).1
    | price p =>
        exact onPriceUpdate_observe ex (Q := fun _ => True)
          (fun e x _ => closePosition_closed ex e x p.ts) (fun _ _ h => ⟨rfl, h⟩) trivial
  have hdeliver := (fields_of_trading (trading_onEvent ex d.order e d.ev)).closed
  unfold exitTurns
  rw [List.flatMap_append, ← List.append_assoc, ← hhandler]
  exact hdeliver.trans hsweep

/-- Against its position, only the opening time of a trade can be off. -/
theorem tradeOf_describes_iff (pos : Position) (refPrice liquidityUsd : Decimal) (reason : String)
    (fill : Fill) (now : DateTime) :
    (tradeOf (pos.exitArgs refPrice liquidityUsd reason) fill now).Describes pos fill now ↔
      fill.ts = pos.openedAt := by
  constructor
  · exact fun h => h.openedAt
  · exact fun h => ⟨rfl, h, rfl, rfl, rfl, rfl, rfl, rfl, rfl, rfl⟩

/-- **When a closed trade describes its position**, for every run and every exit of it
whose sell fills: the position is held when it is sold, it carries the time of its first
buy fill, and the trade describes it if and only if the sell fill carries that time too.
A trade never opens after it closes when the sell fill carries the time of the event. -/
theorem closed_trades_describe_iff (cfg : Config) (ex : Executor σ) (st : σ) (audit : AuditLog)
    (today : Int) (ds : List Delivery) (d : Delivery) :
    let e := run ex.recorded (Engine.new cfg (st, []) audit today) ds
    let turns := e.exitTurns ex.recorded d.order d.ev
    (e.deliver ex.recorded d).closed =
        e.closed ++ turns.flatMap (ExitTurn.trades ex.recorded d.ts) ∧
      ∀ turn ∈ turns, ∀ fill, turn.answer ex.recorded d.ts = .ok fill →
        ∃ pos trade, turn.before.positions.lookup turn.args.mint = some pos ∧
          openedSince turn.before.sent turn.args.mint = some pos.openedAt ∧
          turn.trades ex.recorded d.ts = [trade] ∧
          (trade.Describes pos fill d.ts ↔ fill.ts = pos.openedAt) ∧
          (fill.ts = d.ts → trade.openedAt ≤ trade.closedAt) := by
  intro e turns
  refine ⟨deliver_closed ex.recorded e d, ?_⟩
  intro turn hturn fill hfill
  have hnew := keyed_new cfg (st, ([] : List Sent)) audit today
  have hkeyed : e.Keyed := hnew.run ex.recorded ds
  have hstart : (Engine.new cfg (st, ([] : List Sent)) audit today).desk.Lives Position.openedAt
      (fun fill => fill.ts) id := fun mint => rfl
  have hlives : e.desk.Lives Position.openedAt (fun fill => fill.ts) id :=
    run_desk ds hnew rfl (fun _ _ _ _ hstep h => hstep.lives (lifeField_openedAt cfg) h) hstart
  obtain ⟨pos, hheld, -⟩ := exitTurns_held hkeyed d.order turn hturn
  have hturnLives := exitTurns_desk (P := fun d' => d'.Lives Position.openedAt
    (fun fill => fill.ts) id) hkeyed
    (fun _ _ hstep h => hstep.lives (lifeField_openedAt e.cfg) h) hlives d.order turn hturn
  have hopened : (turn.before.positions.lookup pos.mint).map Position.openedAt =
      openedSince turn.before.sent pos.mint := hturnLives pos.mint
  rw [hheld.lookup, Option.map_some] at hopened
  obtain ⟨refPrice, liquidityUsd, reason, hargs⟩ := hheld.args
  have htrades : turn.trades ex.recorded d.ts = [tradeOf turn.args fill d.ts] := by
    unfold ExitTurn.trades
    rw [hfill]
  refine ⟨pos, tradeOf turn.args fill d.ts, ?_, ?_, htrades, ?_, ?_⟩
  · rw [hheld.mint]
    exact hheld.lookup
  · rw [hheld.mint]
    exact hopened.symm
  · rw [hargs]
    exact tradeOf_describes_iff pos refPrice liquidityUsd reason fill d.ts
  · intro hts
    show fill.ts ≤ d.ts
    exact hts.le

/-- A position bought at second 0 and stopped out at second 2: the trade says that it was
opened at second 2. -/
theorem closed_trade_opened_at_exit :
    let e := run Executor.oneToken.recorded
      (Engine.new .paperDefaults ((), []) (.opened fun _ => true) 0) [launchAt "A" 0 1]
    (e.positions.lookup "A").map Position.openedAt = some (seconds 0) ∧
      (e.deliver Executor.oneToken.recorded (priceAt "A" 2 (1 / 2))).closed.map
        ClosedTrade.openedAt = [seconds 2] := by
  exact ⟨by decide +kernel, by decide +kernel⟩

end Engine

end HfmcBot
