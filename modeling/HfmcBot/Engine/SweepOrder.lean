import HfmcBot.Engine.MachineRestore
import HfmcBot.Foundation.RunningSum

/-!
# The order of the sweep

The sweep collects the due exits in the iteration order of the book and sells them in that
order.  Each sell moves four totals: equity, deployed capital, the P&L of the day and the
breaker.  With rounding sums each of them can come out differently in another order, and any
of them can leave the range of the number type on the way.  Everything else of the outcome is
the same in every order.

* `closeAll_outcome`: what selling a list of exits leaves behind, from the totals;
* `sweep_order_iff`: all orders of a sweep end alike exactly if they agree on the totals, and
  where no sum is rounded this is the condition on the breaker alone;
* `sweep_order_matters`: a reachable state in which two orders disagree.
-/

namespace HfmcBot

open Foundation

/-- Two answers settle alike: both fail, or both fill at the same terms.  The
order id the fill repeats may differ. -/
def Answer.SettlesAlike : Answer → Answer → Prop
  | .error _, .error _ => True
  | .ok fill, .ok fill' => fill = { fill' with orderId := fill.orderId }
  | _, _ => False

/-- The answer to a sell is a function of what is sold, at which quote, when and
how urgently: not of the orders before it, nor of its id. -/
def Executor.QuotesSells {σ : Type} (ex : Executor σ) : Prop :=
  ∀ req req' st st', req' = { req with orderId := req'.orderId } →
    Answer.SettlesAlike (ex.sell req st).1 (ex.sell req' st').1

theorem Executor.oneToken_quotesSells : Executor.oneToken.QuotesSells := by
  intro req req' st st' hreq
  rw [hreq]
  rfl

namespace Machine

variable {σ : Type} {fmt : NumberFormat} {cfg : Config} {e e' : Engine σ} {ex : Executor σ}

/-! ## Totals -/

/-- What a closed trade adds to. -/
structure Totals where
  equity : Decimal
  deployedUsd : Decimal
  dayRealizedPnl : Decimal
  dailyLossTripped : Bool
  deriving DecidableEq

/-- The totals of a state, on the day it has rolled over to. -/
def totalsOf (e : Engine σ) (now : DateTime) : Totals where
  equity := e.equity
  deployedUsd := e.deployedUsd
  dayRealizedPnl := (e.risk.maybeRollover now).dayRealizedPnl
  dailyLossTripped := (e.risk.maybeRollover now).dailyLossTripped

/-- The totals after one more trade, with the loss limit of a risk engine. -/
def Totals.close (fmt : NumberFormat) (r : RiskEngine) (t : Totals) (trade : ClosedTrade) :
    Except ArithStop Totals := do
  let equity ← fmt.add t.equity trade.pnlUsd
  let deployedUsd ← fmt.sub t.deployedUsd trade.costUsd
  let day ← fmt.add t.dayRealizedPnl trade.pnlUsd
  let limit ← lossLimit fmt r
  return {
    equity := equity
    deployedUsd := deployedUsd
    dayRealizedPnl := day
    dailyLossTripped := t.dailyLossTripped || decide (day ≤ limit) }

/-- The state after a trade has moved the totals. -/
def booked (e : Engine σ) (now : DateTime) (trade : ClosedTrade) (t : Totals) : Engine σ :=
  { e with
    equity := t.equity
    deployedUsd := t.deployedUsd
    risk := ({ e.risk.maybeRollover now with
      dayRealizedPnl := t.dayRealizedPnl
      dailyLossTripped := t.dailyLossTripped }).setOpenPositions
        (e.positions.erase trade.mint).keys.card
    positions := e.positions.erase trade.mint
    closed := e.closed ++ [trade] }

theorem lossLimit_of_frame {r r' : RiskEngine} (h : RiskFrame r r') :
    lossLimit fmt r' = lossLimit fmt r := by
  rw [lossLimit, lossLimit, h.cfg, h.equity]

/-- Booking a trade is moving the totals. -/
theorem settle_eq (e : Engine σ) (now : DateTime) (trade : ClosedTrade) :
    settle fmt e now trade =
      ((totalsOf e now).close fmt e.risk trade).map (booked e now trade) := by
  have hlimit : lossLimit fmt (e.risk.maybeRollover now) = lossLimit fmt e.risk :=
    lossLimit_of_frame ⟨e.risk.maybeRollover_cfg now, e.risk.maybeRollover_equity now,
      e.risk.maybeRollover_kill now⟩
  unfold settle Totals.close recordRealizedPnl
  change (fmt.add e.equity trade.pnlUsd >>= _) = (fmt.add e.equity trade.pnlUsd >>= _).map _
  cases fmt.add e.equity trade.pnlUsd with
  | error stop => rfl
  | ok equity =>
      change (fmt.sub e.deployedUsd trade.costUsd >>= _) =
        (fmt.sub e.deployedUsd trade.costUsd >>= _).map _
      cases fmt.sub e.deployedUsd trade.costUsd with
      | error stop => rfl
      | ok deployedUsd =>
          change ((fmt.add (e.risk.maybeRollover now).dayRealizedPnl trade.pnlUsd >>= _) >>= _) =
            (fmt.add (e.risk.maybeRollover now).dayRealizedPnl trade.pnlUsd >>= _).map _
          cases fmt.add (e.risk.maybeRollover now).dayRealizedPnl trade.pnlUsd with
          | error stop => rfl
          | ok day =>
              change ((lossLimit fmt (e.risk.maybeRollover now) >>= _) >>= _) =
                (lossLimit fmt e.risk >>= _).map _
              rw [hlimit]
              cases lossLimit fmt e.risk with
              | error stop => rfl
              | ok limit => rfl

/-! ## The trades of a sweep -/

/-- The trade an exit closes, if its sell fills; making it out can stop the program. -/
def quotedTrade (fmt : NumberFormat) (ex : Executor σ) (st : σ) (now : DateTime)
    (x : ExitArgs) : Option (Except ArithStop ClosedTrade) :=
  match (ex.sell (Engine.sellRequest x now "") st).1 with
  | .ok fill => some (tradeOf fmt x fill now)
  | .error _ => none

/-- The trades of the sweep, in the order of its visits. -/
def sweepTrades (fmt : NumberFormat) (ex : Executor σ) (o : KeyOrder Mint) (e : Engine σ)
    (now : DateTime) : List (Except ArithStop ClosedTrade) :=
  (e.positions.valuesIn o).filterMap fun pos =>
    (Engine.timeStopExit e.cfg now pos).bind (quotedTrade fmt ex e.exec now)

/-- The totals after some of these trades. -/
def closeTrades (fmt : NumberFormat) (r : RiskEngine)
    (trades : List (Except ArithStop ClosedTrade)) (t : Totals) : Except ArithStop Totals :=
  trades.foldlM (fun t quoted => quoted >>= t.close fmt r) t

/-- The trade of an exit has its mint. -/
theorem tradeOf_mint {x : ExitArgs} {fill : Fill} {now : DateTime} {trade : ClosedTrade}
    (h : tradeOf fmt x fill now = .ok trade) : trade.mint = x.mint := by
  obtain ⟨net, -, h⟩ := exists_of_except_bind h
  obtain ⟨pnlUsd, -, h⟩ := exists_of_except_bind h
  obtain ⟨pnlPct, -, h⟩ := exists_of_except_bind h
  cases h
  rfl

/-- Whatever state the executor is in and whatever id the order gets, the exit ends as
quoted. -/
theorem closePosition_quoted (fmt : NumberFormat) (hquotes : ex.QuotesSells) (st : σ)
    (e : Engine σ) (x : ExitArgs) (now : DateTime) :
    (quotedTrade fmt ex st now x = none ∧ ∃ st', closePosition fmt ex e x now =
      .ok (((e.withRisk (e.risk.pushOrder now)).submitted st').countFailure x.mint)) ∨
    (∃ fill, quotedTrade fmt ex st now x = some (tradeOf fmt x fill now) ∧
      ∃ st', closePosition fmt ex e x now = tradeOf fmt x fill now >>=
        settle fmt ((e.withRisk (e.risk.pushOrder now)).submitted st') now) := by
  have halike := hquotes (Engine.sellRequest x now (e.nextOrderId x.mint).1)
    (Engine.sellRequest x now "") e.exec st rfl
  unfold quotedTrade
  rcases hsell : ex.sell (Engine.sellRequest x now (e.nextOrderId x.mint).1) e.exec with
    ⟨err | fill, st'⟩
  · rw [hsell] at halike
    refine Or.inl ⟨?_, st', ?_⟩
    · cases hquote : (ex.sell (Engine.sellRequest x now "") st).1 with
      | error err' => rfl
      | ok fill' =>
          rw [hquote] at halike
          exact absurd halike id
    · unfold closePosition
      dsimp only [Engine.nextOrderId, Engine.withRisk, RiskEngine.noteSide_sell,
        Executor.lifted] at hsell ⊢
      rw [hsell]
      rfl
  · rw [hsell] at halike
    refine Or.inr ⟨fill, ?_, st', ?_⟩
    · cases hquote : (ex.sell (Engine.sellRequest x now "") st).1 with
      | error err' =>
          rw [hquote] at halike
          exact absurd halike id
      | ok fill' =>
          rw [hquote] at halike
          have hfill : fill = { fill' with orderId := fill.orderId } := halike
          rw [hfill]
          rfl
    · unfold closePosition
      dsimp only [Engine.nextOrderId, Engine.withRisk, RiskEngine.noteSide_sell,
        Executor.lifted] at hsell ⊢
      rw [hsell]
      rfl

/-! ## The book after the sweep -/

/-- What an exit does to the book. -/
def soldBook (fmt : NumberFormat) (ex : Executor σ) (st : σ) (now : DateTime)
    (limit : UInt32) (book : Book) (x : ExitArgs) : Book :=
  match quotedTrade fmt ex st now x with
  | none => Engine.bookFailure book x.mint limit
  | some _ => book.erase x.mint

theorem lookup_soldBook (fmt : NumberFormat) (ex : Executor σ) (st : σ) (now : DateTime)
    (limit : UInt32) (book : Book) (x : ExitArgs) (mint : Mint) :
    (soldBook fmt ex st now limit book x).lookup mint =
      if mint = x.mint then
        match quotedTrade fmt ex st now x with
        | none => (book.lookup mint).map fun pos => pos.failExit limit
        | some _ => none
      else book.lookup mint := by
  unfold soldBook
  by_cases hm : mint = x.mint
  · rw [if_pos hm, hm]
    cases quotedTrade fmt ex st now x with
    | some trade => exact Finmap.lookup_erase _ _
    | none =>
        dsimp only
        cases hpos : book.lookup x.mint with
        | none =>
            rw [Engine.bookFailure_of_unheld hpos, hpos]
            rfl
        | some pos =>
            rw [Engine.bookFailure_of_lookup hpos, Finmap.lookup_insert]
            rfl
  · rw [if_neg hm]
    cases quotedTrade fmt ex st now x with
    | some trade => exact Finmap.lookup_erase_ne hm
    | none =>
        dsimp only
        unfold Engine.bookFailure
        split
        · exact Finmap.lookup_insert_of_ne _ hm
        · rfl

/-- Exits of different mints change the book independently. -/
theorem soldBook_comm (fmt : NumberFormat) (ex : Executor σ) (st : σ) (now : DateTime)
    (limit : UInt32) (book : Book) {x y : ExitArgs} (h : x.mint ≠ y.mint) :
    soldBook fmt ex st now limit (soldBook fmt ex st now limit book x) y =
      soldBook fmt ex st now limit (soldBook fmt ex st now limit book y) x := by
  apply Finmap.ext_lookup
  intro mint
  rw [lookup_soldBook, lookup_soldBook, lookup_soldBook, lookup_soldBook]
  by_cases hx : mint = x.mint
  · have hy : mint ≠ y.mint := hx ▸ h
    rw [if_neg hy, if_pos hx, if_pos hx, if_neg hy]
  · rw [if_neg hx, if_neg hx]

/-- The book after a list of exits does not depend on their order. -/
theorem foldl_soldBook_perm (fmt : NumberFormat) (ex : Executor σ) (st : σ) (now : DateTime)
    (limit : UInt32) {exits exits' : List ExitArgs} (hperm : exits.Perm exits')
    (hnodup : (exits.map ExitArgs.mint).Nodup) (book : Book) :
    exits.foldl (soldBook fmt ex st now limit) book =
      exits'.foldl (soldBook fmt ex st now limit) book := by
  refine hperm.foldl_eq' (fun x hx y hy b => ?_) book
  by_cases hxy : x = y
  · rw [hxy]
  · exact soldBook_comm fmt ex st now limit b fun heq =>
      hxy (List.inj_on_of_nodup_map hnodup hx hy heq)

/-! ## What the sweep leaves behind -/

theorem maybeRollover_pushOrder (r : RiskEngine) (now : DateTime) :
    ((r.pushOrder now).maybeRollover now).dayRealizedPnl = (r.maybeRollover now).dayRealizedPnl ∧
      ((r.pushOrder now).maybeRollover now).dailyLossTripped =
        (r.maybeRollover now).dailyLossTripped := by
  unfold RiskEngine.maybeRollover
  change (if dateNaive now ≠ r.day then _ else _ : RiskEngine).dayRealizedPnl = _ ∧
    (if dateNaive now ≠ r.day then _ else _ : RiskEngine).dailyLossTripped = _
  split <;> exact ⟨rfl, rfl⟩

/-- The outcome `r` of closing the given trades from `e`, with the totals they come to. -/
structure ClosedOut (e r : Engine σ) (now : DateTime) (trades : List ClosedTrade) (t : Totals) :
    Prop where
  totals : totalsOf r now = t
  closed : r.closed = e.closed ++ trades
  cfg : r.cfg = e.cfg
  frame : RiskFrame e.risk r.risk
  untouched : trades = [] → r.risk.day = e.risk.day ∧
    r.risk.dayRealizedPnl = e.risk.dayRealizedPnl ∧
    r.risk.dailyLossTripped = e.risk.dailyLossTripped
  day : r.risk.day = e.risk.day ∨ r.risk.day = dateNaive now
  rolled : trades ≠ [] → r.risk.day = dateNaive now

theorem ClosedOut.refl (e : Engine σ) (now : DateTime) :
    ClosedOut e e now [] (totalsOf e now) :=
  ⟨rfl, (List.append_nil _).symm, rfl, ⟨rfl, rfl, rfl⟩, fun _ => ⟨rfl, rfl, rfl⟩, Or.inl rfl,
    fun hne => absurd rfl hne⟩

/-- Outcomes add up. -/
theorem ClosedOut.trans {m r : Engine σ} {now : DateTime} {trades trades' : List ClosedTrade}
    {t t' : Totals} (h : ClosedOut e m now trades t) (h' : ClosedOut m r now trades' t') :
    ClosedOut e r now (trades ++ trades') t' := by
  refine ⟨h'.totals, ?_, h'.cfg.trans h.cfg, ⟨h'.frame.cfg.trans h.frame.cfg,
    h'.frame.equity.trans h.frame.equity, h'.frame.kill.trans h.frame.kill⟩, ?_, ?_, ?_⟩
  · rw [h'.closed, h.closed, List.append_assoc]
  · intro hnil
    obtain ⟨h1, h2⟩ := List.append_eq_nil_iff.mp hnil
    obtain ⟨hday, hpnl, htripped⟩ := h.untouched h1
    obtain ⟨hday', hpnl', htripped'⟩ := h'.untouched h2
    exact ⟨hday'.trans hday, hpnl'.trans hpnl, htripped'.trans htripped⟩
  · exact h.day.elim (fun hsame => h'.day.imp (fun hsame' => hsame'.trans hsame) id)
      fun hm => Or.inr (h'.day.elim (fun hsame => hsame.trans hm) id)
  · intro hne
    by_cases hnil : trades' = []
    · rw [hnil, List.append_nil] at hne
      exact h'.day.elim (fun hsame => hsame.trans (h.rolled hne)) id
    · exact h'.rolled hnil

theorem totalsOf_pushOrder (e : Engine σ) (now : DateTime) (st : σ) :
    totalsOf ((e.withRisk (e.risk.pushOrder now)).submitted st) now = totalsOf e now := by
  obtain ⟨hpnl, htripped⟩ := maybeRollover_pushOrder e.risk now
  have hfields : totalsOf ((e.withRisk (e.risk.pushOrder now)).submitted st) now =
      { totalsOf e now with
        dayRealizedPnl := ((e.risk.pushOrder now).maybeRollover now).dayRealizedPnl
        dailyLossTripped := ((e.risk.pushOrder now).maybeRollover now).dailyLossTripped } := rfl
  rw [hfields, hpnl, htripped]
  rfl

theorem ClosedOut.of_failed (e : Engine σ) (now : DateTime) (mint : Mint) (st : σ) :
    ClosedOut e (((e.withRisk (e.risk.pushOrder now)).submitted st).countFailure mint) now []
      (totalsOf e now) := by
  refine ⟨totalsOf_pushOrder e now st, (List.append_nil _).symm, rfl, ⟨rfl, rfl, rfl⟩,
    fun _ => ⟨rfl, rfl, rfl⟩, Or.inl rfl, fun hne => absurd rfl hne⟩

theorem ClosedOut.of_booked (e : Engine σ) (now : DateTime) (trade : ClosedTrade) (st : σ)
    (t : Totals) :
    ClosedOut e (booked ((e.withRisk (e.risk.pushOrder now)).submitted st) now trade t) now
      [trade] t := by
  have hday : (booked ((e.withRisk (e.risk.pushOrder now)).submitted st) now trade t).risk.day =
      dateNaive now := (e.risk.pushOrder now).maybeRollover_day now
  have hsame := RiskEngine.maybeRollover_of_day _ now hday
  refine ⟨?_, rfl, rfl, ⟨?_, ?_, ?_⟩, fun hnil => absurd hnil (by simp), Or.inr hday,
    fun _ => hday⟩
  · unfold totalsOf
    rw [hsame]
    rfl
  · exact (e.risk.pushOrder now).maybeRollover_cfg now
  · exact (e.risk.pushOrder now).maybeRollover_equity now
  · exact (e.risk.pushOrder now).maybeRollover_kill now

/-- How selling some exits ends: the trades are closed and the totals come out, or both the
totals and the program stop. -/
inductive CloseAll (e : Engine σ) (now : DateTime) (book : Book)
    (quoted : List (Except ArithStop ClosedTrade)) :
    Except ArithStop (Engine σ) → Except ArithStop Totals → Prop
  | closed {r : Engine σ} {trades : List ClosedTrade} {t : Totals}
      (hquoted : quoted = trades.map Except.ok) (hout : ClosedOut e r now trades t)
      (hbook : r.positions = book) : CloseAll e now book quoted (.ok r) (.ok t)
  | stopped (stop stop' : ArithStop) : CloseAll e now book quoted (.error stop) (.error stop')

/-- What the first exits left behind goes in front of the rest. -/
theorem CloseAll.prepend {m : Engine σ} {now : DateTime} {trades : List ClosedTrade}
    {t : Totals} (h : ClosedOut e m now trades t) {book : Book}
    {quoted : List (Except ArithStop ClosedTrade)} {after : Except ArithStop (Engine σ)}
    {totals : Except ArithStop Totals} (hrest : CloseAll m now book quoted after totals) :
    CloseAll e now book (trades.map Except.ok ++ quoted) after totals := by
  cases hrest with
  | stopped stop stop' => exact .stopped stop stop'
  | closed hquoted hout hbook =>
      refine .closed ?_ (h.trans hout) hbook
      rw [hquoted, List.map_append]

/-- Selling a list of exits closes their quoted trades. -/
theorem closeAll_outcome (fmt : NumberFormat) (hquotes : ex.QuotesSells) (st : σ)
    (now : DateTime) (r : RiskEngine) (exits : List ExitArgs) (e : Engine σ)
    (hr : RiskFrame r e.risk) :
    CloseAll e now (exits.foldl (soldBook fmt ex st now e.cfg.maxExitAttempts) e.positions)
      (exits.filterMap (quotedTrade fmt ex st now))
      (exits.foldlM (fun e x => closePosition fmt ex e x now) e)
      (closeTrades fmt r (exits.filterMap (quotedTrade fmt ex st now)) (totalsOf e now)) := by
  induction exits generalizing e with
  | nil => exact .closed (show [] = List.map Except.ok [] from rfl) (ClosedOut.refl e now) rfl
  | cons x rest ih =>
      rw [List.foldlM_cons, List.foldl_cons, soldBook]
      rcases closePosition_quoted fmt hquotes st e x now with
        ⟨hquote, st', hclose⟩ | ⟨fill, hquote, st', hclose⟩
      · -- the sell failed: the totals stay where they are
        have hfailed := ClosedOut.of_failed e now x.mint st'
        have hrest := ih (((e.withRisk (e.risk.pushOrder now)).submitted st').countFailure
          x.mint) ⟨hr.cfg, hr.equity, hr.kill⟩
        rw [hclose, hquote, List.filterMap_cons_none hquote]
        rw [hfailed.totals] at hrest
        exact hrest.prepend hfailed
      · rw [hclose, hquote, List.filterMap_cons_some hquote]
        cases htrade : tradeOf fmt x fill now with
        | error stop => exact .stopped stop stop
        | ok trade =>
            rw [closeTrades, List.foldlM_cons]
            change CloseAll _ _ _ _ (settle fmt _ now trade >>= _)
              ((totalsOf e now).close fmt r trade >>= _)
            have hlimit : (totalsOf e now).close fmt r trade =
                (totalsOf e now).close fmt e.risk trade := by
              rw [Totals.close, Totals.close, lossLimit_of_frame hr]
            have hpushed : (totalsOf e now).close fmt
                ((e.withRisk (e.risk.pushOrder now)).submitted st').risk trade =
                  (totalsOf e now).close fmt e.risk trade := rfl
            rw [settle_eq, totalsOf_pushOrder, hpushed, hlimit]
            cases (totalsOf e now).close fmt e.risk trade with
            | error stop => exact .stopped stop stop
            | ok t =>
                have hbooked := ClosedOut.of_booked e now trade st' t
                have hrest := ih _ ⟨hbooked.frame.cfg.trans hr.cfg,
                  hbooked.frame.equity.trans hr.equity, hbooked.frame.kill.trans hr.kill⟩
                rw [hbooked.totals, hbooked.cfg] at hrest
                have hpositions : (booked ((e.withRisk (e.risk.pushOrder now)).submitted st') now
                    trade t).positions = e.positions.erase x.mint := by
                  rw [← tradeOf_mint htrade]
                  rfl
                rw [hpositions] at hrest
                exact hrest.prepend hbooked

/-- The sweep closes the trades of the due positions. -/
theorem sweep_outcome (hquotes : ex.QuotesSells) (o : KeyOrder Mint) (e : Engine σ)
    (now : DateTime) :
    CloseAll e now
      (((e.positions.valuesIn o).filterMap (Engine.timeStopExit e.cfg now)).foldl
        (soldBook fmt ex e.exec now e.cfg.maxExitAttempts) e.positions)
      (sweepTrades fmt ex o e now) (sweepTimeStops fmt ex o e now)
      (closeTrades fmt e.risk (sweepTrades fmt ex o e now) (totalsOf e now)) := by
  have hout := closeAll_outcome fmt hquotes e.exec now e.risk
    ((e.positions.valuesIn o).filterMap (Engine.timeStopExit e.cfg now)) e ⟨rfl, rfl, rfl⟩
  rw [List.filterMap_filterMap] at hout
  exact hout

/-! ## Two orders -/

/-- Two runs end alike: same money, same open positions, same closed trades in
whatever order, same day and same breaker. -/
structure SameOutcome (a b : Engine σ) : Prop where
  equity : a.equity = b.equity
  deployedUsd : a.deployedUsd = b.deployedUsd
  positions : a.positions = b.positions
  closed : a.closed.Perm b.closed
  dayRealizedPnl : a.risk.dayRealizedPnl = b.risk.dayRealizedPnl
  dailyLossTripped : a.risk.dailyLossTripped = b.risk.dailyLossTripped

/-- The program ends alike: in like states, or stopped both times. -/
def SameEnd : Except ArithStop (Engine σ) → Except ArithStop (Engine σ) → Prop
  | .ok a, .ok b => SameOutcome a b
  | .error _, .error _ => True
  | _, _ => False

/-- The totals the sweep comes to, if it does not stop. -/
def sweepTotals (fmt : NumberFormat) (ex : Executor σ) (o : KeyOrder Mint) (e : Engine σ)
    (now : DateTime) : Except ArithStop Totals :=
  closeTrades fmt e.risk (sweepTrades fmt ex o e now) (totalsOf e now)

/-- Two computations of the totals agree: on the totals, or in stopping. -/
def Agree : Except ArithStop Totals → Except ArithStop Totals → Prop
  | .ok t, .ok t' => t = t'
  | .error _, .error _ => True
  | _, _ => False

theorem sweepTrades_perm (fmt : NumberFormat) (ex : Executor σ) (o₁ o₂ : KeyOrder Mint)
    (e : Engine σ) (now : DateTime) :
    (sweepTrades fmt ex o₁ e now).Perm (sweepTrades fmt ex o₂ e now) :=
  (FiniteMap.valuesIn_perm o₁ o₂ e.positions).filterMap _

/-- The rollover depends on nothing but the day, its P&L and the breaker. -/
theorem totalsOf_rollover_congr {r r' : RiskEngine} (hday : r.day = r'.day)
    (hpnl : r.dayRealizedPnl = r'.dayRealizedPnl)
    (htripped : r.dailyLossTripped = r'.dailyLossTripped) (now : DateTime) :
    (r.maybeRollover now).dayRealizedPnl = (r'.maybeRollover now).dayRealizedPnl ∧
      (r.maybeRollover now).dailyLossTripped = (r'.maybeRollover now).dailyLossTripped := by
  unfold RiskEngine.maybeRollover
  rw [hday]
  split
  · exact ⟨rfl, rfl⟩
  · exact ⟨hpnl, htripped⟩

/-- Two outcomes of the same trades are alike exactly if their totals are. -/
theorem ClosedOut.same_iff {r₁ r₂ : Engine σ} {now : DateTime}
    {trades₁ trades₂ : List ClosedTrade} {t₁ t₂ : Totals}
    (h₁ : ClosedOut e r₁ now trades₁ t₁) (h₂ : ClosedOut e r₂ now trades₂ t₂)
    (hperm : trades₁.Perm trades₂) (hbook : r₁.positions = r₂.positions) :
    SameOutcome r₁ r₂ ↔ t₁ = t₂ := by
  -- with no trade the risk engine is untouched, with one it has rolled over
  have hrisk : r₁.risk.day = r₂.risk.day ∧
      (trades₁ = [] → r₁.risk.dayRealizedPnl = r₂.risk.dayRealizedPnl ∧
        r₁.risk.dailyLossTripped = r₂.risk.dailyLossTripped) := by
    by_cases hnil : trades₁ = []
    · obtain ⟨hday, hpnl, htripped⟩ := h₁.untouched hnil
      rw [hnil] at hperm
      obtain ⟨hday', hpnl', htripped'⟩ := h₂.untouched hperm.nil_eq.symm
      exact ⟨hday.trans hday'.symm, fun _ => ⟨hpnl.trans hpnl'.symm, htripped.trans htripped'.symm⟩⟩
    · have hne : trades₂ ≠ [] := fun hnil₂ => hnil (by rw [hnil₂] at hperm; exact hperm.eq_nil)
      exact ⟨(h₁.rolled hnil).trans (h₂.rolled hne).symm, fun h => absurd h hnil⟩
  rw [← h₁.totals, ← h₂.totals]
  constructor
  · intro hsame
    obtain ⟨hpnl, htripped⟩ := totalsOf_rollover_congr hrisk.1 hsame.dayRealizedPnl
      hsame.dailyLossTripped now
    unfold totalsOf
    rw [hsame.equity, hsame.deployedUsd, hpnl, htripped]
  · intro htotals
    obtain ⟨hequity, hdeployed, hpnl, htripped⟩ := Totals.mk.inj htotals
    have hclosed : r₁.closed.Perm r₂.closed := by
      rw [h₁.closed, h₂.closed]
      exact hperm.append_left _
    by_cases hnil : trades₁ = []
    · exact ⟨hequity, hdeployed, hbook, hclosed, (hrisk.2 hnil).1, (hrisk.2 hnil).2⟩
    · have hrolled := h₁.rolled hnil
      rw [RiskEngine.maybeRollover_of_day _ _ hrolled,
        RiskEngine.maybeRollover_of_day _ _ (hrisk.1.symm.trans hrolled)] at hpnl htripped
      exact ⟨hequity, hdeployed, hbook, hclosed, hpnl, htripped⟩

/-- Two orders of one sweep end alike exactly if they agree on the totals. -/
theorem sameEnd_sweep_iff (hquotes : ex.QuotesSells) (o₁ o₂ : KeyOrder Mint)
    (hkeyed : e.Keyed) (now : DateTime) :
    SameEnd (sweepTimeStops fmt ex o₁ e now) (sweepTimeStops fmt ex o₂ e now) ↔
      Agree (sweepTotals fmt ex o₁ e now) (sweepTotals fmt ex o₂ e now) := by
  have hbook := foldl_soldBook_perm fmt ex e.exec now e.cfg.maxExitAttempts
    ((FiniteMap.valuesIn_perm o₁ o₂ e.positions).filterMap (Engine.timeStopExit e.cfg now))
    (Engine.dueExits_collect hkeyed o₁ now).1 e.positions
  have hperm := sweepTrades_perm fmt ex o₁ o₂ e now
  have hcases : ∀ {a b : Except ArithStop (Engine σ)} {t t' : Except ArithStop Totals}
      {book₁ book₂ : Book}, book₁ = book₂ →
      CloseAll e now book₁ (sweepTrades fmt ex o₁ e now) a t →
        CloseAll e now book₂ (sweepTrades fmt ex o₂ e now) b t' → (SameEnd a b ↔ Agree t t') := by
    intro a b t t' book₁ book₂ hbook h₁ h₂
    cases h₁ with
    | stopped =>
        cases h₂ with
        | stopped => exact Iff.rfl
        | closed => exact Iff.rfl
    | closed hquoted₁ hout₁ hbook₁ =>
        cases h₂ with
        | stopped => exact Iff.rfl
        | closed hquoted₂ hout₂ hbook₂ =>
            rw [hquoted₁, hquoted₂,
              List.map_perm_map_iff (fun _ _ h => Except.ok.inj h)] at hperm
            exact hout₁.same_iff hout₂ hperm (hbook₁.trans (hbook.trans hbook₂.symm))
  exact hcases hbook (sweep_outcome hquotes o₁ e now) (sweep_outcome hquotes o₂ e now)

/-! ## Totals without rounding -/

/-- Every order of what is picked off the book is the one of some visiting order. -/
theorem exists_order_of_perm {α : Type} (book : Book) (pick : Position → Option α)
    {picked : List α} (hperm : picked.Perm ((book.valuesIn .ascending).filterMap pick)) :
    ∃ o, (book.valuesIn o).filterMap pick = picked := by
  have hpick : ∀ o : KeyOrder Mint, (book.valuesIn o).filterMap pick =
      (o.order book.keys).filterMap fun mint => (book.lookup mint).bind pick := by
    intro o
    rw [FiniteMap.valuesIn, List.filterMap_filterMap]
  rw [hpick] at hperm
  obtain ⟨keys, hkeys, hpicked⟩ := exists_perm_filterMap hperm.symm rfl
  have hall : (keys : Multiset Mint) = book.keys.val := by
    rw [← KeyOrder.ascending.order_eq book.keys, Multiset.coe_eq_coe]
    exact hkeys
  refine ⟨KeyOrder.ascending.replaced book.keys keys hall, ?_⟩
  rw [hpick]
  have horder : (KeyOrder.ascending.replaced book.keys keys hall).order book.keys = keys :=
    if_pos rfl
  rw [horder, hpicked]

/-- A sweep without rounding: every trade is made out, no sum of the totals and some of the
trades is rounded, and the breaker is tripped or the day above its limit. -/
structure Plain (fmt : NumberFormat) (ex : Executor σ) (e : Engine σ) (now : DateTime)
    (limit : Decimal) (trades : List ClosedTrade) : Prop where
  trades_eq : sweepTrades fmt ex .ascending e now = trades.map Except.ok
  limit_eq : lossLimit fmt e.risk = .ok limit
  equity : fmt.SumsExactly (e.equity :: trades.map ClosedTrade.pnlUsd)
  deployed : fmt.SumsExactly (e.deployedUsd :: trades.map fun t => -t.costUsd)
  day : fmt.SumsExactly
    ((e.risk.maybeRollover now).dayRealizedPnl :: trades.map ClosedTrade.pnlUsd)
  above : (e.risk.maybeRollover now).dailyLossTripped = false →
    limit < (e.risk.maybeRollover now).dayRealizedPnl

/-- The totals of trades without rounding are their sums. -/
theorem closeTrades_exact {r : RiskEngine} {limit : Decimal} (hlimit : lossLimit fmt r = .ok limit)
    (trades : List ClosedTrade) (t : Totals)
    (hequity : fmt.RunsExactly t.equity (trades.map ClosedTrade.pnlUsd))
    (hdeployed : fmt.RunsExactly t.deployedUsd (trades.map fun trade => -trade.costUsd))
    (hday : fmt.RunsExactly t.dayRealizedPnl (trades.map ClosedTrade.pnlUsd)) :
    closeTrades fmt r (trades.map Except.ok) t = .ok {
      equity := t.equity + (trades.map ClosedTrade.pnlUsd).sum
      deployedUsd := t.deployedUsd + (trades.map fun trade => -trade.costUsd).sum
      dayRealizedPnl := t.dayRealizedPnl + (trades.map ClosedTrade.pnlUsd).sum
      dailyLossTripped := t.dailyLossTripped ||
        decide (Crosses limit t.dayRealizedPnl (trades.map ClosedTrade.pnlUsd)) } := by
  induction trades generalizing t with
  | nil => simp [closeTrades, pure, Except.pure]
  | cons trade rest ih =>
      obtain ⟨hequity₁, hequity₂⟩ := hequity.step
      obtain ⟨hdeployed₁, hdeployed₂⟩ := hdeployed.step
      obtain ⟨hday₁, hday₂⟩ := hday.step
      let next : Totals := {
        equity := t.equity + trade.pnlUsd
        deployedUsd := t.deployedUsd + -trade.costUsd
        dayRealizedPnl := t.dayRealizedPnl + trade.pnlUsd
        dailyLossTripped := t.dailyLossTripped ||
          decide (t.dayRealizedPnl + trade.pnlUsd ≤ limit) }
      have hclose : t.close fmt r trade = .ok next := by
        have hsub : fmt.sub t.deployedUsd trade.costUsd =
            fmt.add t.deployedUsd (-trade.costUsd) := by
          rw [NumberFormat.sub, NumberFormat.add, sub_eq_add_neg]
        rw [Totals.close, hequity₁, hsub, hdeployed₁, hday₁, hlimit]
        rfl
      have hrest := ih next hequity₂ hdeployed₂ hday₂
      have hstep : closeTrades fmt r ((trade :: rest).map Except.ok) t =
          t.close fmt r trade >>= closeTrades fmt r (rest.map Except.ok) := rfl
      rw [hstep, hclose]
      show closeTrades fmt r (rest.map Except.ok) next = _
      rw [hrest]
      simp only [next, List.map_cons, List.sum_cons, crosses_cons, Bool.or_assoc, add_assoc,
        Bool.decide_or]

/-- The P&Ls of the trades that are made out. -/
def pnlsOf (quoted : List (Except ArithStop ClosedTrade)) : List Decimal :=
  quoted.filterMap fun q => q.toOption.map ClosedTrade.pnlUsd

theorem pnlsOf_map_ok (trades : List ClosedTrade) :
    pnlsOf (trades.map Except.ok) = trades.map ClosedTrade.pnlUsd := by
  rw [pnlsOf, List.filterMap_map]
  exact congrFun List.filterMap_eq_map trades

theorem exists_map_ok {quoted : List (Except ArithStop ClosedTrade)}
    (h : ∀ q ∈ quoted, ∃ trade, q = .ok trade) :
    ∃ trades : List ClosedTrade, quoted = trades.map Except.ok := by
  induction quoted with
  | nil => exact ⟨[], rfl⟩
  | cons q rest ih =>
      obtain ⟨trade, rfl⟩ := h q List.mem_cons_self
      obtain ⟨trades, rfl⟩ := ih fun q' hq' => h q' (List.mem_cons_of_mem _ hq')
      exact ⟨trade :: trades, rfl⟩

/-- In every order a plain sweep makes out the same trades, and the totals are their sums; the
breaker alone looks at the order. -/
theorem Plain.totals {now : DateTime} {limit : Decimal} {trades : List ClosedTrade}
    (h : Plain fmt ex e now limit trades) (o : KeyOrder Mint) :
    (pnlsOf (sweepTrades fmt ex o e now)).Perm (trades.map ClosedTrade.pnlUsd) ∧
      sweepTotals fmt ex o e now = .ok {
        equity := e.equity + (trades.map ClosedTrade.pnlUsd).sum
        deployedUsd := e.deployedUsd + (trades.map fun trade => -trade.costUsd).sum
        dayRealizedPnl := (e.risk.maybeRollover now).dayRealizedPnl +
          (trades.map ClosedTrade.pnlUsd).sum
        dailyLossTripped := (e.risk.maybeRollover now).dailyLossTripped ||
          decide (Crosses limit (e.risk.maybeRollover now).dayRealizedPnl
            (pnlsOf (sweepTrades fmt ex o e now))) } := by
  have hperm := sweepTrades_perm fmt ex o .ascending e now
  rw [h.trades_eq] at hperm
  obtain ⟨trades', htrades'⟩ := exists_map_ok fun q hq => by
    obtain ⟨trade, -, htrade⟩ := List.mem_map.mp (hperm.mem_iff.mp hq)
    exact ⟨trade, htrade.symm⟩
  rw [htrades', List.map_perm_map_iff fun _ _ hok => Except.ok.inj hok] at hperm
  have hpnls := hperm.map ClosedTrade.pnlUsd
  have hcosts := hperm.map fun trade => -trade.costUsd
  rw [sweepTotals, htrades', pnlsOf_map_ok]
  refine ⟨hpnls, ?_⟩
  rw [closeTrades_exact h.limit_eq trades' (totalsOf e now) (h.equity.runs hpnls)
    (h.deployed.runs hcosts) (h.day.runs hpnls), hpnls.sum_eq, hcosts.sum_eq]
  rfl

/-- The breaker does not depend on the order of the sweep: it is tripped already on this day,
or the losses alone cannot trip it, or the whole sum does. -/
def BreakerFree (limit : Decimal) (r : RiskEngine) (pnls : List Decimal) : Prop :=
  r.dailyLossTripped = true ∨ limit < r.dayRealizedPnl + negSum pnls ∨
    r.dayRealizedPnl + pnls.sum ≤ limit

/-- Without rounding, all orders agree on the totals exactly if the breaker does not depend on
them. -/
theorem Plain.agree_iff {now : DateTime} {limit : Decimal} {trades : List ClosedTrade}
    (h : Plain fmt ex e now limit trades) :
    (∀ o₁ o₂, Agree (sweepTotals fmt ex o₁ e now) (sweepTotals fmt ex o₂ e now)) ↔
      BreakerFree limit (e.risk.maybeRollover now) (trades.map ClosedTrade.pnlUsd) := by
  have hagree : ∀ o₁ o₂, Agree (sweepTotals fmt ex o₁ e now) (sweepTotals fmt ex o₂ e now) ↔
      ((e.risk.maybeRollover now).dailyLossTripped = true ∨
        (Crosses limit (e.risk.maybeRollover now).dayRealizedPnl
            (pnlsOf (sweepTrades fmt ex o₁ e now)) ↔
          Crosses limit (e.risk.maybeRollover now).dayRealizedPnl
            (pnlsOf (sweepTrades fmt ex o₂ e now)))) := by
    intro o₁ o₂
    rw [(h.totals o₁).2, (h.totals o₂).2, Agree, Totals.mk.injEq]
    simp only [true_and]
    cases (e.risk.maybeRollover now).dailyLossTripped with
    | true => simp
    | false => simp
  constructor
  · intro hall
    by_contra hnot
    rw [BreakerFree, not_or, not_or, Bool.not_eq_true, not_lt, not_le] at hnot
    obtain ⟨hreleased, hlosses, hsum⟩ := hnot
    have habove := h.above hreleased
    -- some order crosses the limit and some order does not
    obtain ⟨ys, hys, hcross⟩ := (exists_perm_crosses_iff habove _).mpr hlosses
    obtain ⟨zs, hzs, hnocross⟩ : ∃ zs : List Decimal,
        zs.Perm (trades.map ClosedTrade.pnlUsd) ∧
          ¬ Crosses limit (e.risk.maybeRollover now).dayRealizedPnl zs := by
      by_contra hno
      refine absurd ((forall_perm_crosses_iff habove _).mp fun zs hzs => ?_) (not_le.mpr hsum)
      by_contra hnocross
      exact hno ⟨zs, hzs, hnocross⟩
    have horder : ∀ pnls : List Decimal, pnls.Perm (trades.map ClosedTrade.pnlUsd) →
        ∃ o, pnlsOf (sweepTrades fmt ex o e now) = pnls := by
      intro pnls hpnls
      have hpick : ∀ o : KeyOrder Mint, pnlsOf (sweepTrades fmt ex o e now) =
          (e.positions.valuesIn o).filterMap fun pos =>
            ((Engine.timeStopExit e.cfg now pos).bind (quotedTrade fmt ex e.exec now)).bind
              fun q => q.toOption.map ClosedTrade.pnlUsd := by
        intro o
        rw [pnlsOf, sweepTrades, List.filterMap_filterMap]
      rw [← pnlsOf_map_ok, ← h.trades_eq, hpick] at hpnls
      obtain ⟨o, ho⟩ := exists_order_of_perm e.positions _ hpnls
      exact ⟨o, (hpick o).trans ho⟩
    obtain ⟨o₁, rfl⟩ := horder ys hys
    obtain ⟨o₂, rfl⟩ := horder zs hzs
    rcases (hagree o₁ o₂).mp (hall o₁ o₂) with htripped | hsame
    · rw [hreleased] at htripped
      exact absurd htripped (by decide)
    · exact hnocross (hsame.mp hcross)
  · intro hfree o₁ o₂
    rw [hagree]
    rcases hfree with htripped | hlosses | hsum
    · exact Or.inl htripped
    · right
      have habove : limit < (e.risk.maybeRollover now).dayRealizedPnl :=
        hlosses.trans_le (add_le_of_nonpos_right (negSum_nonpos _))
      have hnever : ∀ o, ¬ Crosses limit (e.risk.maybeRollover now).dayRealizedPnl
          (pnlsOf (sweepTrades fmt ex o e now)) := fun o hcross =>
        absurd ((exists_perm_crosses_iff habove _).mp ⟨_, (h.totals o).1, hcross⟩)
          (not_le.mpr hlosses)
      exact iff_of_false (hnever o₁) (hnever o₂)
    · by_cases hreleased : (e.risk.maybeRollover now).dailyLossTripped = true
      · exact Or.inl hreleased
      · right
        have habove := h.above (Bool.not_eq_true _ ▸ hreleased)
        have halways : ∀ o, Crosses limit (e.risk.maybeRollover now).dayRealizedPnl
            (pnlsOf (sweepTrades fmt ex o e now)) := fun o =>
          (forall_perm_crosses_iff habove _).mpr hsum _ (h.totals o).1
        exact iff_of_true (halways o₁) (halways o₂)

/-! ## Events -/

/-- All visiting orders of an event end alike exactly if those of its sweep agree on the
totals. -/
theorem sameEnd_event_iff (fmt : NumberFormat) (hquotes : ex.QuotesSells) (hheld : Held cfg e)
    (ev : Event) :
    (∀ o₁ o₂, SameEnd (onEvent fmt ex o₁ e ev) (onEvent fmt ex o₂ e ev)) ↔
      ∀ m, handle fmt ex e ev = .ok m → ∀ o₁ o₂,
        Agree (sweepTotals fmt ex o₁ m ev.ts) (sweepTotals fmt ex o₂ m ev.ts) := by
  unfold onEvent
  cases hhandle : handle fmt ex e ev with
  | error stop => exact iff_of_true (fun _ _ => trivial) fun m hm => by cases hm
  | ok m =>
      have hkeyed := (hheld.handle hhandle).keyed
      constructor
      · rintro hsame m' ⟨⟩ o₁ o₂
        exact (sameEnd_sweep_iff hquotes o₁ o₂ hkeyed ev.ts).mp (hsame o₁ o₂)
      · intro hagree o₁ o₂
        exact (sameEnd_sweep_iff hquotes o₁ o₂ hkeyed ev.ts).mpr (hagree m rfl o₁ o₂)

/-- **When the sweep does not depend on hash-map order.**  In every reachable state and for
every event, all visiting orders end alike if and only if they agree on the rounded totals of
the sweep.  Where nothing of the sweep is rounded, this is so exactly if the daily-loss breaker
does not depend on the order. -/
theorem sweep_order_iff (fmt : NumberFormat) (cfg : Config) (ex : Executor σ)
    (hquotes : ex.QuotesSells) (e : Engine σ) (hreach : Reachable fmt ex cfg e) (ev : Event) :
    ((∀ o₁ o₂, SameEnd (onEvent fmt ex o₁ e ev) (onEvent fmt ex o₂ e ev)) ↔
      ∀ m, handle fmt ex e ev = .ok m → ∀ o₁ o₂,
        Agree (sweepTotals fmt ex o₁ m ev.ts) (sweepTotals fmt ex o₂ m ev.ts)) ∧
    ∀ m limit trades, handle fmt ex e ev = .ok m → Plain fmt ex m ev.ts limit trades →
      ((∀ o₁ o₂, SameEnd (onEvent fmt ex o₁ e ev) (onEvent fmt ex o₂ e ev)) ↔
        BreakerFree limit (m.risk.maybeRollover ev.ts) (trades.map ClosedTrade.pnlUsd)) := by
  have hiff := sameEnd_event_iff fmt hquotes hreach.held ev
  refine ⟨hiff, fun m limit trades hhandle hplain => ?_⟩
  rw [hiff, ← hplain.agree_iff]
  constructor
  · exact fun hall => hall m hhandle
  · intro hall m' hm'
    rw [hhandle] at hm'
    cases hm'
    exact hall

/-! ## Two orders that disagree -/

/-- The defaults with a daily-loss limit of half a dollar. -/
def tightConfig : Config := { Config.paperDefaults with dailyLossLimitPct := 1 / 1000 }

/-- Two positions, one marked down and one marked up by the same amount, both past their
holding time at the next event. -/
def staleBook (cfg : Config) : Except ArithStop (Engine Unit) :=
  run decimals Executor.oneToken (new cfg () 0)
    [launchAt "A" 0 1, launchAt "B" 0 1, priceAt "A" 1 (4 / 5), priceAt "B" 1 (6 / 5)]

/-- Losses first trips the breaker, gains first does not. -/
theorem sweep_order_matters :
    tightConfig.Accepted ∧ Executor.oneToken.QuotesSells ∧
      ∃ e, staleBook tightConfig = .ok e ∧ Reachable decimals Executor.oneToken tightConfig e ∧
        ¬ SameEnd (onEvent decimals Executor.oneToken .ascending e (priceAt "C" 30000 1).ev)
          (onEvent decimals Executor.oneToken KeyOrder.ascending.reversed e
            (priceAt "C" 30000 1).ev) := by
  have hrun := eq_ok_of_isOk (staleBook tightConfig) (new tightConfig () 0) (by decide +kernel)
  refine ⟨⟨fun _ => true, by decide +kernel⟩, Executor.oneToken_quotesSells, _, hrun,
    (Reachable.new () 0).run hrun, fun hsame => ?_⟩
  have hfirst := eq_ok_of_isOk (onEvent decimals Executor.oneToken .ascending
    ((staleBook tightConfig).toOption.getD (new tightConfig () 0)) (priceAt "C" 30000 1).ev)
    (new tightConfig () 0) (by decide +kernel)
  have hsecond := eq_ok_of_isOk (onEvent decimals Executor.oneToken KeyOrder.ascending.reversed
    ((staleBook tightConfig).toOption.getD (new tightConfig () 0)) (priceAt "C" 30000 1).ev)
    (new tightConfig () 0) (by decide +kernel)
  rw [hfirst, hsecond] at hsame
  exact absurd hsame.dailyLossTripped (by decide +kernel)

-- rounding alone is enough: a different rest of the deployed capital is left behind
example :
    (((thirds >>= fun e => onEvent decimals Executor.oneAtQuote.recorded .ascending e
        (priceAt "D" 30000 1).ev).toOption.map Engine.deployedUsd) ≠
      ((thirds >>= fun e => onEvent decimals Executor.oneAtQuote.recorded
        KeyOrder.ascending.reversed e (priceAt "D" 30000 1).ev).toOption.map
          Engine.deployedUsd)) := by
  decide +kernel

/-- A price of a mint that is not held changes nothing. -/
theorem handle_price_of_unheld (fmt : NumberFormat) (ex : Executor σ) (e : Engine σ)
    {pu : PriceUpdate} (h : pu.mint ∉ e.positions) : handle fmt ex e (.price pu) = .ok e := by
  rw [handle, onPriceUpdate, Finmap.lookup_eq_none.mpr h]

/-- The two positions under the defaults. -/
def staleState : Engine Unit :=
  (staleBook .paperDefaults).toOption.getD (new .paperDefaults () 0)

/-- The trades of their sweep. -/
def staleTrades : List ClosedTrade :=
  (sweepTrades decimals Executor.oneToken .ascending staleState
    (priceAt "C" 30000 1).ev.ts).filterMap Except.toOption

theorem staleState_plain :
    Plain decimals Executor.oneToken staleState (priceAt "C" 30000 1).ev.ts (-5000)
      staleTrades := by
  refine ⟨by decide +kernel, by decide +kernel, ?_, ?_, ?_, by decide +kernel⟩
  all_goals
    apply NumberFormat.sumsExactly_of_sublists
    decide +kernel

/-- With the default limit the same two positions close alike in every order: no sum is
rounded, and the losses alone leave the day above the limit. -/
theorem sweep_order_iff_two :
    staleBook .paperDefaults = .ok staleState ∧ staleState.positions.keys.card = 2 ∧
      ∀ o₁ o₂, SameEnd
        (onEvent decimals Executor.oneToken o₁ staleState (priceAt "C" 30000 1).ev)
        (onEvent decimals Executor.oneToken o₂ staleState (priceAt "C" 30000 1).ev) := by
  have hrun : staleBook .paperDefaults = .ok staleState := eq_ok_of_isOk _ _ (by decide +kernel)
  have hunheld : "C" ∉ staleState.positions := by decide +kernel
  have hhandle : handle decimals Executor.oneToken staleState (priceAt "C" 30000 1).ev =
      .ok staleState := handle_price_of_unheld decimals Executor.oneToken staleState hunheld
  have hfree : BreakerFree (-5000) (staleState.risk.maybeRollover (priceAt "C" 30000 1).ev.ts)
      (staleTrades.map ClosedTrade.pnlUsd) := Or.inr (Or.inl (by decide +kernel))
  refine ⟨hrun, by decide +kernel, ?_⟩
  exact ((sweep_order_iff decimals .paperDefaults Executor.oneToken
    Executor.oneToken_quotesSells staleState ((Reachable.new () 0).run hrun)
    (priceAt "C" 30000 1).ev).2 staleState (-5000) staleTrades hhandle staleState_plain).mpr hfree

end Machine

end HfmcBot
