import HfmcBot.Engine.Orders
import HfmcBot.Foundation.History
import HfmcBot.Foundation.RunningSum

/-!
# The daily-loss breaker

The breaker is a flag: closes set it, the lazy rollover clears it, and an entry
reads it once.  `Breaker` says what it stands for at any time: the day P&L is
the sum over the trades closed on the breaker's day, and the flag is set exactly
when one of that day's running sums has reached the limit.

* `breaker_run`: the invariant holds at every point of a run whose timestamps do
  not decrease;
* `Breaker.of_funnelOpen`: with an open funnel, no running sum of the day, the
  empty one included, has reached the limit;
* `buys_respect_breakers`: so no buy is submitted after one has.
-/

namespace HfmcBot

open Foundation

/-- The configured daily-loss limit in dollars. -/
def Config.lossLimit (cfg : Config) : Decimal := -cfg.equityUsd * cfg.dailyLossLimitPct / 100

namespace Engine

variable {σ : Type}

/-- The realized P&L of the trades closed on a day, in the order of closing. -/
def dayPnls (closed : List ClosedTrade) (day : Int) : List Decimal :=
  (closed.filter fun t => dateNaive t.closedAt = day).map ClosedTrade.pnlUsd

theorem dayPnls_append (closed new : List ClosedTrade) (day : Int) :
    dayPnls (closed ++ new) day = dayPnls closed day ++ dayPnls new day := by
  simp [dayPnls]

theorem dayPnls_eq_nil {closed : List ClosedTrade} {day : Int}
    (h : ∀ t ∈ closed, dateNaive t.closedAt ≠ day) : dayPnls closed day = [] := by
  have hnone : closed.filter (fun t => dateNaive t.closedAt = day) = [] := by
    rw [List.filter_eq_nil_iff]
    intro t ht
    simpa using h t ht
  rw [dayPnls, hnone, List.map_nil]

/-- What the breaker fields stand for at time `t`. -/
structure Breaker (cfg : Config) (t : DateTime) (e : Engine σ) : Prop where
  risk_cfg : e.risk.cfg = cfg
  risk_equity : e.risk.equity = cfg.equityUsd
  past : ∀ trade ∈ e.closed, dateNaive trade.closedAt ≤ e.risk.day ∧ e.risk.day ≤ dateNaive t
  sum : e.risk.dayRealizedPnl = (dayPnls e.closed e.risk.day).sum
  tripped : e.risk.dailyLossTripped = true ↔
    Crosses e.risk.lossLimit 0 (dayPnls e.closed e.risk.day)
  -- with a limit at or above zero no entry was ever allowed
  limit_neg : e.risk.lossLimit < 0 ∨ (e.closed = [] ∧ e.positions = ∅)

theorem breaker_new (cfg : Config) (st : σ) (audit : AuditLog) (today : Int) (t : DateTime) :
    Breaker cfg t (Engine.new cfg st audit today) where
  risk_cfg := rfl
  risk_equity := rfl
  past := by simp [Engine.new]
  sum := rfl
  tripped := by simp [Engine.new, RiskEngine.new, dayPnls]
  limit_neg := Or.inr ⟨rfl, rfl⟩

theorem Breaker.wait {cfg : Config} {s t : DateTime} {e : Engine σ} (h : Breaker cfg s e)
    (hst : s ≤ t) : Breaker cfg t e :=
  { h with past := fun trade htrade =>
      ⟨(h.past trade htrade).1, (h.past trade htrade).2.trans (dateNaive_mono hst)⟩ }

theorem Breaker.of_trading {cfg : Config} {t : DateTime} {e e' : Engine σ} (h : Breaker cfg t e)
    (heq : e'.trading = e.trading) : Breaker cfg t e' := by
  obtain ⟨-, hrisk, -, -, -, hpos, hclosed, -⟩ := fields_of_trading heq
  obtain ⟨h1, h2, h3, h4, h5, h6⟩ := h
  rw [← hrisk] at h1 h2 h3 h4 h5 h6
  rw [← hclosed] at h3 h4 h5 h6
  rw [← hpos] at h6
  exact ⟨h1, h2, h3, h4, h5, h6⟩

/-- No trade has been closed on a day the breaker has not reached. -/
theorem Breaker.dayPnls_of_gt {cfg : Config} {t : DateTime} {e : Engine σ} (h : Breaker cfg t e)
    {day : Int} (hday : e.risk.day < day ∨ e.closed = []) : dayPnls e.closed day = [] := by
  apply dayPnls_eq_nil
  intro trade htrade
  rcases hday with hlt | hnil
  · have hle := (h.past trade htrade).1
    omega
  · rw [hnil] at htrade
    exact absurd htrade (by simp)

/-- The lazy rollover keeps the breaker: a new day starts without trades. -/
theorem Breaker.rollover {cfg : Config} {t : DateTime} {e : Engine σ} (h : Breaker cfg t e) :
    Breaker cfg t (e.withRisk (e.risk.maybeRollover t)) := by
  by_cases hday : e.risk.day = dateNaive t
  · rw [e.risk.maybeRollover_of_day t hday]
    exact h
  · have hroll : e.risk.maybeRollover t =
        { e.risk with day := dateNaive t, dayRealizedPnl := 0, dailyLossTripped := false } := by
      unfold RiskEngine.maybeRollover
      rw [if_pos (Ne.symm hday)]
    have hempty : dayPnls e.closed (dateNaive t) = [] := by
      apply h.dayPnls_of_gt
      rcases List.eq_nil_or_concat e.closed with hnil | ⟨init, trade, hlast⟩
      · exact Or.inr hnil
      · have hle := (h.past trade (by rw [hlast]; simp)).2
        left
        omega
    rw [hroll]
    refine { h with past := ?_, sum := ?_, tripped := ?_ }
    · intro trade htrade
      have hpast := h.past trade htrade
      exact ⟨hpast.1.trans hpast.2, le_refl _⟩
    · change (0 : Decimal) = (dayPnls e.closed (dateNaive t)).sum
      rw [hempty, List.sum_nil]
    · change false = true ↔ Crosses _ 0 (dayPnls e.closed (dateNaive t))
      rw [hempty]
      simp

theorem Breaker.refresh {cfg : Config} {t : DateTime} {e : Engine σ} (h : Breaker cfg t e) :
    Breaker cfg t (e.withRisk (e.risk.refresh t)) :=
  { h.rollover with }

/-- A close adds its P&L to the day and trips the flag at the limit. -/
theorem Breaker.settle {cfg : Config} {t : DateTime} {e : Engine σ} (h : Breaker cfg t e)
    (hlimit : e.risk.lossLimit < 0) (x : ExitArgs) (fill : Fill) :
    Breaker cfg t (e.settle t x fill) := by
  have hroll := h.rollover
  have hday : (e.risk.maybeRollover t).day = dateNaive t := e.risk.maybeRollover_day t
  -- the trade is the last of its day
  have hpnls : dayPnls (e.closed ++ [tradeOf x fill t]) (dateNaive t) =
      dayPnls e.closed (dateNaive t) ++ [(tradeOf x fill t).pnlUsd] := by
    have hlast : dayPnls [tradeOf x fill t] (dateNaive t) = [(tradeOf x fill t).pnlUsd] := by
      simp [dayPnls, tradeOf]
    rw [dayPnls_append, hlast]
  have hsum : (e.risk.maybeRollover t).dayRealizedPnl = (dayPnls e.closed (dateNaive t)).sum := by
    rw [← hday]
    exact hroll.sum
  have htripped : (e.risk.maybeRollover t).dailyLossTripped = true ↔
      Crosses e.risk.lossLimit 0 (dayPnls e.closed (dateNaive t)) := by
    rw [← hday, ← e.risk.lossLimit_maybeRollover t]
    exact hroll.tripped
  have hlimit' : (e.settle t x fill).risk.lossLimit = e.risk.lossLimit := by
    change (e.risk.recordRealizedPnl _ t).lossLimit = e.risk.lossLimit
    simp only [RiskEngine.lossLimit, RiskEngine.recordRealizedPnl_cfg,
      RiskEngine.recordRealizedPnl_equity]
  have hday' : (e.settle t x fill).risk.day = dateNaive t := e.risk.recordRealizedPnl_day t _
  constructor
  · exact (e.risk.recordRealizedPnl_cfg t _).trans h.risk_cfg
  · exact (e.risk.recordRealizedPnl_equity t _).trans h.risk_equity
  · intro trade htrade
    rw [hday']
    rcases List.mem_append.mp htrade with hold | hnew
    · have hpast := h.past trade hold
      exact ⟨hpast.1.trans hpast.2, le_refl _⟩
    · rw [List.mem_singleton.mp hnew]
      exact ⟨le_refl _, le_refl _⟩
  · rw [hday']
    change (e.risk.recordRealizedPnl _ t).dayRealizedPnl = (dayPnls (e.closed ++ _) _).sum
    rw [e.risk.recordRealizedPnl_dayRealizedPnl, hpnls, List.sum_append, List.sum_singleton, hsum]
  · rw [hday', hlimit']
    change (e.risk.recordRealizedPnl _ t).dailyLossTripped = true ↔
      Crosses _ 0 (dayPnls (e.closed ++ _) _)
    rw [e.risk.recordRealizedPnl_dailyLossTripped, hpnls, crosses_concat, Bool.or_eq_true,
      htripped, decide_eq_true_eq, hsum, zero_add]
  · exact Or.inl (hlimit'.symm ▸ hlimit)

/-- An open funnel: the day has realized more than the limit at all of its
points, its beginning included. -/
theorem Breaker.of_funnelOpen {cfg : Config} {ex : Executor σ} {e : Engine σ} {launch : Launch}
    (h : Breaker cfg launch.createdAt e) (hopen : FunnelOpen ex e launch) :
    e.risk.lossLimit < 0 ∧
      ∀ pnls, pnls <+: dayPnls e.closed (dateNaive launch.createdAt) →
        e.risk.lossLimit < pnls.sum := by
  have hlimit : e.risk.lossLimit < 0 := by
    rcases h.limit_neg with hneg | ⟨hnil, -⟩
    · exact hneg
    · have hsum := h.sum
      rw [h.dayPnls_of_gt (Or.inr hnil), List.sum_nil] at hsum
      rw [← hsum]
      exact hopen.above_limit
  refine ⟨hlimit, fun pnls hpnls => ?_⟩
  by_cases hnil : pnls = []
  · rw [hnil, List.sum_nil]
    exact hlimit
  · rw [← hopen.day] at hpnls
    by_contra hle
    have hcross : Crosses e.risk.lossLimit 0 (dayPnls e.closed e.risk.day) :=
      (crosses_iff_initial _ _ _).mpr ⟨pnls, hpnls, hnil, by rw [zero_add]; exact not_lt.mp hle⟩
    rw [← h.tripped, hopen.not_tripped] at hcross
    exact absurd hcross Bool.false_ne_true

theorem Breaker.lossLimit_eq {cfg : Config} {t : DateTime} {e : Engine σ} (h : Breaker cfg t e) :
    e.risk.lossLimit = cfg.lossLimit := by
  rw [RiskEngine.lossLimit, h.risk_cfg, h.risk_equity]
  rfl

/-! ## Steps -/

theorem Breaker.closePosition {cfg : Config} {t : DateTime} {e : Engine σ} (h : Breaker cfg t e)
    {ex : Executor σ} {x : ExitArgs} (hheld : e.positions ≠ ∅) :
    Breaker cfg t (e.closePosition ex x t) := by
  have hlimit : e.risk.lossLimit < 0 := h.limit_neg.resolve_right fun hnone => hheld hnone.2
  rcases closePosition_cases ex e x t with ⟨err, st, -, hclose⟩ | ⟨fill, st, -, hclose⟩
  · have hfailed : Breaker cfg t
        (((e.withRisk (e.risk.pushOrder t)).submitted st).countFailure x.mint) :=
      { h with limit_neg := Or.inl hlimit }
    exact hfailed.of_trading hclose
  · have hnoted : Breaker cfg t ((e.withRisk (e.risk.pushOrder t)).submitted st) := { h with }
    exact (hnoted.settle hlimit x fill).of_trading hclose

theorem ne_empty_of_lookup {book : Book} {mint : Mint} {pos : Position}
    (h : book.lookup mint = some pos) : book ≠ ∅ := by
  rintro rfl
  exact absurd h (by simp)

theorem Breaker.ticked {cfg : Config} {t : DateTime} {e : Engine σ} (h : Breaker cfg t e)
    {p : PriceUpdate} {pos : Position} (hpos : e.positions.lookup p.mint = some pos) :
    Breaker cfg t (e.ticked p pos) :=
  { h with
    limit_neg := Or.inl (h.limit_neg.resolve_right fun hnone => ne_empty_of_lookup hpos hnone.2) }

/-- Every small step keeps the breaker. -/
theorem Step.breaker {cfg : Config} {ex : Executor σ} {ev : Event} {phase : Phase}
    {e e' : Engine σ} (hstep : Step ex ev phase e e') (h : Breaker cfg ev.ts e) :
    Breaker cfg ev.ts e' := by
  cases hstep with
  | note e mint action detail => exact h.of_trading rfl
  | refresh e => exact h.refresh
  | slice e launch budgetUsd hev hopen hwindow hroom =>
      subst hev
      have hlimit := (h.of_funnelOpen hopen).1
      have hgranted : Breaker cfg launch.createdAt
          (e.withRisk ((e.risk.refresh launch.createdAt).pushOrder launch.createdAt)) :=
        { h.refresh with }
      rcases sendSlice_cases ex
          (e.withRisk ((e.risk.refresh launch.createdAt).pushOrder launch.createdAt)) launch
          (funnelDeadline e.cfg launch) budgetUsd with
        ⟨err, st, -, hsend, -⟩ | ⟨fill, st, -, hsend, -⟩
      · have hfailed : Breaker cfg launch.createdAt
            ((e.withRisk ((e.risk.refresh launch.createdAt).pushOrder
              launch.createdAt)).submitted st) := { hgranted with }
        exact hfailed.of_trading hsend
      · -- a book that is not empty needs a limit below zero
        have hlimit' : (e.risk.refresh launch.createdAt).lossLimit < 0 := by
          rw [RiskEngine.refresh_lossLimit]
          exact hlimit
        have hfilled : Breaker cfg launch.createdAt
            (((e.withRisk ((e.risk.refresh launch.createdAt).pushOrder
              launch.createdAt)).submitted st).applyBuyFill fill launch.launchpad
              launch.liquidityUsd) := { hgranted with limit_neg := Or.inl hlimit' }
        exact hfilled.of_trading hsend
  | tick e p pos hev hpos hstay => exact h.ticked hpos
  | tickExit e p pos d hev hpos hexit =>
      subst hev
      have hlookup : (e.ticked p pos).positions.lookup p.mint =
          some (tickPosition e.cfg p pos).1 := Finmap.lookup_insert _
      exact (h.ticked hpos).closePosition (ne_empty_of_lookup hlookup)
  | timeExit e pos x hpos hdue => exact h.closePosition (ne_empty_of_lookup hpos)
  | page e kind detail => exact h.of_trading rfl

/-! ## Runs -/

theorem breaker_run {cfg : Config} {ex : Executor σ} (st : σ) (audit : AuditLog) (today : Int)
    {ds : List Delivery} (hds : InTimeOrder Delivery.ts ds) {t : DateTime}
    (ht : ∀ d ∈ ds, d.ts ≤ t) : Breaker cfg t (run ex (Engine.new cfg st audit today) ds) :=
  timed_run_of_steps (fun _ _ _ hst h => h.wait hst) (fun _ _ _ _ hstep _ h => hstep.breaker h)
    (keyed_new cfg st audit today) (breaker_new cfg st audit today) hds ht

/-- The day has stayed above the limit, from its beginning on. -/
def DayAbove (cfg : Config) (closed : List ClosedTrade) (day : Int) : Prop :=
  ∀ pnls, pnls <+: dayPnls closed day → cfg.lossLimit < pnls.sum

/-- A launch whose handler sent an order found the breakers released. -/
theorem Breaker.of_launch_sent {cfg : Config} {ex : Executor σ} {launch : Launch}
    {e e' : Engine (σ × List Sent)} (h : Breaker cfg launch.createdAt e)
    (hsteps : Steps ex.recorded (.launch launch) .handler e e') (hsent : e'.sent ≠ e.sent) :
    e.risk.kill = false ∧ DayAbove cfg e.closed (dateNaive launch.createdAt) := by
  have hinv : Breaker cfg launch.createdAt e' ∧ e'.closed = e.closed ∧
      e'.risk.kill = e.risk.kill ∧ (e'.sent = e.sent ∨
        (e.risk.kill = false ∧ DayAbove cfg e.closed (dateNaive launch.createdAt))) := by
    refine steps_invariant
      (P := fun a : Engine (σ × List Sent) => Breaker cfg launch.createdAt a ∧
        a.closed = e.closed ∧ a.risk.kill = e.risk.kill ∧ (a.sent = e.sent ∨
          (e.risk.kill = false ∧ DayAbove cfg e.closed (dateNaive launch.createdAt))))
      ?_ hsteps ⟨h, rfl, rfl, Or.inl rfl⟩
    rintro a b hab ⟨ha, hclosed, hkill, hgood⟩
    obtain ⟨hclosed', hkill'⟩ := hab.launch_frame
    refine ⟨hab.breaker ha, hclosed'.trans hclosed, hkill'.trans hkill, ?_⟩
    rcases hab.sent_cases with ⟨hsame, -⟩ | ⟨s, hs, -, -, -, hside, hopen⟩
    · rw [hsame]
      exact hgood
    · obtain ⟨launch', hev, hopen⟩ := hopen (hside.mpr ⟨rfl, launch, rfl⟩)
      obtain rfl := Event.launch.inj hev
      refine Or.inr ⟨hkill ▸ hopen.not_killed, fun pnls hpnls => ?_⟩
      rw [← hclosed] at hpnls
      rw [← ha.lossLimit_eq]
      exact (ha.of_funnelOpen hopen).2 pnls hpnls
  exact hinv.2.2.2.resolve_left hsent

end Engine

end HfmcBot
