import HfmcBot.Engine.Snapshot

/-!
# Exits do not look at the risk state

Selling reports to the risk engine (`note_side`, `record_realized_pnl`) and asks
it nothing.  `holdings` forgets the risk engine together with the logs; every
exit path is a function of what is left.

* `closePosition_blind` -- one exit, the only place where money moves;
* `deliver_blind`, `run_blind` -- a tick with its sweep, any sequence of ticks;
* `ticks_ignore_risk` -- two engines that differ in their risk state only send
  the same sells and end with the same books.
-/

namespace HfmcBot

open Foundation

/-- A tick together with the order in which its sweep visits the book. -/
structure Tick where
  update : PriceUpdate
  order : KeyOrder Mint

def Tick.delivery (t : Tick) : Delivery := ⟨.price t.update, t.order⟩

namespace Engine

variable {σ : Type}

/-- The engine without risk state, audit log and alerts. -/
def holdings (e : Engine σ) : Engine σ := (e.withRisk (RiskEngine.new e.cfg 0)).trading

/-- The same engine under another risk state, with other logs. -/
def under (e : Engine σ) (risk : RiskEngine) (audit : AuditLog)
    (alerter : Option (List AlertCall)) : Engine σ :=
  { e with risk := risk, audit := audit, alerter := alerter }

@[simp] theorem holdings_under (e : Engine σ) (risk : RiskEngine) (audit : AuditLog)
    (alerter : Option (List AlertCall)) : (e.under risk audit alerter).holdings = e.holdings := rfl

theorem holdings_of_trading {e e' : Engine σ} (h : e.trading = e'.trading) :
    e.holdings = e'.holdings := by
  obtain ⟨audit, alerter, rfl⟩ := eq_of_trading h
  rfl

/-- Engines with the same holdings differ in risk state and logs only. -/
theorem eq_under_of_holdings {e e' : Engine σ} (h : e.holdings = e'.holdings) :
    e' = e.under e'.risk e'.audit e'.alerter := by
  obtain ⟨hcfg, -, hexec, hequity, hdeployed, hpos, hclosed, hseq⟩ := fields_of_trading h
  have hcfg' : e.cfg = e'.cfg := hcfg
  have hexec' : e.exec = e'.exec := hexec
  have hequity' : e.equity = e'.equity := hequity
  have hdeployed' : e.deployedUsd = e'.deployedUsd := hdeployed
  have hpos' : e.positions = e'.positions := hpos
  have hclosed' : e.closed = e'.closed := hclosed
  have hseq' : e.orderSeq = e'.orderSeq := hseq
  rw [under, hcfg', hexec', hequity', hdeployed', hpos', hclosed', hseq']

section Blind

variable {ex : Executor σ} {e e' : Engine σ}

/-- The order that goes out, the answer and the ledger update read nothing of
the risk state. -/
theorem closePosition_blind (h : e.holdings = e'.holdings) (x : ExitArgs) (now : DateTime) :
    (e.closePosition ex x now).holdings = (e'.closePosition ex x now).holdings := by
  rw [eq_under_of_holdings h]
  rcases hsell : ex.sell (sellRequest x now (e.nextOrderId x.mint).1) e.exec
    with ⟨err | fill, st⟩
  · -- a failed sell counts on the position, whatever the breaker says
    have hleft := trading_exitFailed
      ((e.withRisk (e.risk.pushOrder now)).submitted st) now x.mint x.mode err
    have hright := trading_exitFailed
      (((e.under e'.risk e'.audit e'.alerter).withRisk (e'.risk.pushOrder now)).submitted st) now
      x.mint x.mode err
    rw [closePosition_failed hsell,
      closePosition_failed (e := e.under e'.risk e'.audit e'.alerter) hsell,
      holdings_of_trading hleft]
    exact (holdings_of_trading hright).symm
  · -- a filled one is booked; the breaker it may trip is part of what is forgotten
    have hleft := trading_exitFilled
      ((e.withRisk (e.risk.pushOrder now)).submitted st) now x (e.nextOrderId x.mint).1 fill
    have hright := trading_exitFilled
      (((e.under e'.risk e'.audit e'.alerter).withRisk (e'.risk.pushOrder now)).submitted st) now
      x (e.nextOrderId x.mint).1 fill
    rw [closePosition_filled hsell,
      closePosition_filled (e := e.under e'.risk e'.audit e'.alerter) hsell,
      holdings_of_trading hleft]
    exact (holdings_of_trading hright).symm

theorem onPriceUpdate_blind (h : e.holdings = e'.holdings) (p : PriceUpdate) :
    (e.onPriceUpdate ex p).holdings = (e'.onPriceUpdate ex p).holdings := by
  rw [eq_under_of_holdings h]
  unfold onPriceUpdate
  dsimp only [under]
  split
  · rfl
  · split
    · rfl
    · apply closePosition_blind
      rfl

theorem closeAll_blind (h : e.holdings = e'.holdings) (exits : List ExitArgs) (now : DateTime) :
    (exits.foldl (fun e x => e.closePosition ex x now) e).holdings =
      (exits.foldl (fun e x => e.closePosition ex x now) e').holdings := by
  induction exits generalizing e e' with
  | nil => exact h
  | cons x rest ih => exact ih (closePosition_blind h x now)

/-- Which exits are due is decided on configuration and book. -/
theorem sweepTimeStops_blind (h : e.holdings = e'.holdings) (o : KeyOrder Mint)
    (now : DateTime) :
    (e.sweepTimeStops ex o now).holdings = (e'.sweepTimeStops ex o now).holdings := by
  have hdue : (e'.positions.valuesIn o).filterMap (timeStopExit e'.cfg now) =
      (e.positions.valuesIn o).filterMap (timeStopExit e.cfg now) := by
    rw [eq_under_of_holdings h]
    rfl
  unfold sweepTimeStops
  rw [hdue]
  exact closeAll_blind h _ now

theorem deliver_blind (h : e.holdings = e'.holdings) (t : Tick) :
    (e.deliver ex t.delivery).holdings = (e'.deliver ex t.delivery).holdings := by
  show (e.onEvent ex t.order (.price t.update)).holdings =
    (e'.onEvent ex t.order (.price t.update)).holdings
  rw [holdings_of_trading (trading_onEvent ex t.order e (.price t.update)),
    holdings_of_trading (trading_onEvent ex t.order e' (.price t.update))]
  apply sweepTimeStops_blind
  exact onPriceUpdate_blind h t.update

theorem run_blind (h : e.holdings = e'.holdings) (ticks : List Tick) :
    (run ex e (ticks.map Tick.delivery)).holdings =
      (run ex e' (ticks.map Tick.delivery)).holdings := by
  induction ticks generalizing e e' with
  | nil => exact h
  | cons t rest ih => exact ih (deliver_blind h t)

end Blind

/-! ## Ticks only sell -/

section Sells

variable {ex : Executor σ}

/-- Between the two states only sell orders went out. -/
def SoldOnly (e e' : Engine (σ × List Sent)) : Prop :=
  ∃ sells, e'.sent = e.sent ++ sells ∧ ∀ s ∈ sells, s.order.side = .sell

theorem SoldOnly.of_sent_eq {e e' : Engine (σ × List Sent)} (h : e'.sent = e.sent) :
    SoldOnly e e' := ⟨[], by rw [h, List.append_nil], by simp⟩

theorem SoldOnly.trans {a b c : Engine (σ × List Sent)} (hab : SoldOnly a b)
    (hbc : SoldOnly b c) : SoldOnly a c := by
  obtain ⟨first, hfirst, hsell⟩ := hab
  obtain ⟨second, hsecond, hsell'⟩ := hbc
  refine ⟨first ++ second, by rw [hsecond, hfirst, List.append_assoc], ?_⟩
  intro s hs
  cases List.mem_append.mp hs with
  | inl hs => exact hsell s hs
  | inr hs => exact hsell' s hs

theorem closePosition_soldOnly (e : Engine (σ × List Sent)) (x : ExitArgs) (now : DateTime) :
    SoldOnly e (e.closePosition ex.recorded x now) := by
  refine ⟨_, closePosition_sent ex e x now, ?_⟩
  intro s hs
  rw [List.mem_singleton.mp hs]
  rfl

theorem onPriceUpdate_soldOnly (e : Engine (σ × List Sent)) (p : PriceUpdate) :
    SoldOnly e (e.onPriceUpdate ex.recorded p) := by
  cases hpos : e.positions.lookup p.mint with
  | none =>
      rw [onPriceUpdate_unheld hpos]
      exact SoldOnly.of_sent_eq rfl
  | some pos =>
      cases hexit : (tickPosition e.cfg p pos).2 with
      | none =>
          rw [onPriceUpdate_stay hpos hexit]
          exact SoldOnly.of_sent_eq rfl
      | some d =>
          rw [onPriceUpdate_exit hpos hexit]
          exact closePosition_soldOnly (e.ticked p pos) _ _

theorem closeAll_soldOnly (exits : List ExitArgs) (now : DateTime) (e : Engine (σ × List Sent)) :
    SoldOnly e (exits.foldl (fun e x => e.closePosition ex.recorded x now) e) := by
  induction exits generalizing e with
  | nil => exact SoldOnly.of_sent_eq rfl
  | cons x rest ih => exact (closePosition_soldOnly e x now).trans (ih _)

theorem deliver_soldOnly (e : Engine (σ × List Sent)) (t : Tick) :
    SoldOnly e (e.deliver ex.recorded t.delivery) := by
  have hsweep : SoldOnly (e.onPriceUpdate ex.recorded t.update)
      ((e.onPriceUpdate ex.recorded t.update).sweepTimeStops ex.recorded t.order t.update.ts) :=
    closeAll_soldOnly _ _ _
  -- the page after the sweep is no order
  have hpage : (e.deliver ex.recorded t.delivery).sent =
      ((e.onPriceUpdate ex.recorded t.update).sweepTimeStops ex.recorded t.order
        t.update.ts).sent :=
    sent_of_trading (trading_onEvent ex.recorded t.order e (.price t.update))
  exact ((onPriceUpdate_soldOnly e t.update).trans hsweep).trans (SoldOnly.of_sent_eq hpage)

theorem run_soldOnly (ticks : List Tick) (e : Engine (σ × List Sent)) :
    SoldOnly e (run ex.recorded e (ticks.map Tick.delivery)) := by
  induction ticks generalizing e with
  | nil => exact SoldOnly.of_sent_eq rfl
  | cons t rest ih => exact (deliver_soldOnly e t).trans (ih _)

end Sells

end Engine

end HfmcBot
