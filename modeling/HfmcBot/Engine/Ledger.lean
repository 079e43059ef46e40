import HfmcBot.Engine.Snapshot

/-!
# The ledger

`Ledger` collects what the money side of the engine keeps at all times: equity
against the closed trades, deployed capital against the open positions, sound
positions and trades, and the open-position counter against the book and its
cap.

* `Ledger.applyBuyFill`, `Ledger.countFailure`, `Ledger.settle`: the three ways
  an order changes the book keep it;
* `Step.ledger`: every small step keeps it, provided buys bring tokens of the
  requested mint and cost money;
* `ledger_run`: so it holds after every run, and `checkInvariants_ok` turns it
  into an accepted self-check.
-/

namespace HfmcBot

open Foundation

namespace Engine

variable {σ : Type}

/-- The money invariant of an engine that started with `cfg`. -/
structure Ledger (cfg : Config) (e : Engine σ) : Prop where
  cfg_eq : e.cfg = cfg
  risk_cfg : e.risk.cfg = cfg
  equity : e.equity = cfg.equityUsd + (e.closed.map ClosedTrade.pnlUsd).sum
  deployed : e.deployedUsd = FiniteMap.total Position.costUsd e.positions
  keyed : e.Keyed
  held : ∀ mint pos, e.positions.lookup mint = some pos → 0 < pos.qty ∧ 0 < pos.costUsd
  trades : ∀ t ∈ e.closed, t.pnlUsd = t.proceedsUsd - t.costUsd
  counter : e.risk.openPositions = e.positions.keys.card
  cap : e.positions.keys.card ≤ cfg.maxOpenPositions

theorem ledger_new (cfg : Config) (st : σ) (audit : AuditLog) (today : Int) :
    Ledger cfg (Engine.new cfg st audit today) where
  cfg_eq := rfl
  risk_cfg := rfl
  equity := by simp [Engine.new]
  deployed := rfl
  keyed := keyed_new cfg st audit today
  held := by simp [Engine.new]
  trades := by simp [Engine.new]
  counter := rfl
  cap := Nat.zero_le _

theorem Ledger.of_trading {cfg : Config} {e e' : Engine σ} (h : Ledger cfg e)
    (heq : e'.trading = e.trading) : Ledger cfg e' := by
  obtain ⟨hcfg, hrisk, -, hequity, hdeployed, hpos, hclosed, -⟩ := fields_of_trading heq
  refine ⟨?_, ?_, ?_, ?_, keyed_of_positions h.keyed hpos, ?_, ?_, ?_, ?_⟩
  · rw [hcfg, h.cfg_eq]
  · rw [hrisk, h.risk_cfg]
  · rw [hequity, hclosed, h.equity]
  · rw [hdeployed, hpos, h.deployed]
  · rw [hpos]
    exact h.held
  · rw [hclosed]
    exact h.trades
  · rw [hrisk, hpos, h.counter]
  · rw [hpos]
    exact h.cap

/-- A risk engine that only counted or refreshed keeps the ledger. -/
theorem Ledger.withRisk {cfg : Config} {e : Engine σ} (h : Ledger cfg e) {risk : RiskEngine}
    (hcfg : risk.cfg = e.risk.cfg) (hopen : risk.openPositions = e.risk.openPositions) :
    Ledger cfg (e.withRisk risk) :=
  { h with risk_cfg := hcfg.trans h.risk_cfg, counter := hopen.trans h.counter }

theorem Ledger.submitted {cfg : Config} {e : Engine σ} (h : Ledger cfg e) (st : σ) :
    Ledger cfg (e.submitted st) := { h with }

/-! ## The three bookings -/

/-- A booked buy changes a sum over the book by what it changes in its own position. -/
theorem total_applyBuyFill (e : Engine σ) (fill : Fill) (launchpad : Launchpad)
    (liquidityUsd : Decimal) {w : Position → Decimal}
    (hw : w (openedBy fill launchpad liquidityUsd) = 0) :
    FiniteMap.total w (e.applyBuyFill fill launchpad liquidityUsd).positions =
      FiniteMap.total w e.positions + (w ((e.fillTarget fill launchpad liquidityUsd).addFill fill
        liquidityUsd) - w (e.fillTarget fill launchpad liquidityUsd)) := by
  rw [applyBuyFill_positions]
  exact FiniteMap.total_insert_getD hw _ _ _

/-- A fill for a held mint, or for a new one below the cap, keeps the ledger. -/
theorem Ledger.applyBuyFill {cfg : Config} {e : Engine σ} (h : Ledger cfg e) {fill : Fill}
    (launchpad : Launchpad) (liquidityUsd : Decimal) (hqty : 0 < fill.qty)
    (hcost : 0 < fill.notionalUsd + fill.feeUsd)
    (hslot : fill.mint ∈ e.positions ∨ e.risk.openPositions < e.risk.cfg.maxOpenPositions) :
    Ledger cfg (e.applyBuyFill fill launchpad liquidityUsd) := by
  have hpositions := e.applyBuyFill_positions fill launchpad liquidityUsd
  have htarget : 0 ≤ (e.fillTarget fill launchpad liquidityUsd).qty ∧
      0 ≤ (e.fillTarget fill launchpad liquidityUsd).costUsd := by
    unfold fillTarget
    cases hlookup : e.positions.lookup fill.mint with
    | none => exact ⟨le_refl _, le_refl _⟩
    | some pos => exact ⟨(h.held _ _ hlookup).1.le, (h.held _ _ hlookup).2.le⟩
  have hcap : (e.applyBuyFill fill launchpad liquidityUsd).positions.keys.card ≤
      cfg.maxOpenPositions := by
    rw [hpositions]
    -- only a new mint takes a slot
    by_cases hmem : fill.mint ∈ e.positions
    · rw [FiniteMap.card_keys_insert_of_mem hmem]
      exact h.cap
    · rw [FiniteMap.card_keys_insert_of_notMem hmem]
      have hlt := hslot.resolve_left hmem
      rw [h.counter, h.risk_cfg] at hlt
      omega
  refine { h with
    deployed := ?_
    keyed := h.keyed.applyBuyFill fill launchpad liquidityUsd
    held := ?_
    counter := rfl
    cap := hcap }
  · have hdeployed : (e.applyBuyFill fill launchpad liquidityUsd).deployedUsd =
        e.deployedUsd + (fill.notionalUsd + fill.feeUsd) := rfl
    have hcost' : ((e.fillTarget fill launchpad liquidityUsd).addFill fill liquidityUsd).costUsd =
        (e.fillTarget fill launchpad liquidityUsd).costUsd + (fill.notionalUsd + fill.feeUsd) := rfl
    rw [hdeployed, total_applyBuyFill e fill launchpad liquidityUsd rfl, h.deployed, hcost',
      add_sub_cancel_left]
  · intro mint pos hlookup
    rw [hpositions] at hlookup
    rcases FiniteMap.lookup_insert_eq_some hlookup with ⟨-, rfl⟩ | ⟨-, hold⟩
    · exact ⟨add_pos_of_nonneg_of_pos htarget.1 hqty, add_pos_of_nonneg_of_pos htarget.2 hcost⟩
    · exact h.held _ _ hold

/-- Overwriting a position with one that holds and costs the same keeps the
ledger. -/
theorem Ledger.overwrite {cfg : Config} {e : Engine σ} (h : Ledger cfg e) {mint : Mint}
    {pos pos' : Position} (hlookup : e.positions.lookup mint = some pos)
    (hmint : pos'.mint = pos.mint) (hqty : pos'.qty = pos.qty)
    (hcost : pos'.costUsd = pos.costUsd) :
    Ledger cfg { e with positions := e.positions.insert mint pos' } := by
  have hmem : mint ∈ e.positions := Finmap.mem_of_lookup_eq_some hlookup
  have hcard := FiniteMap.card_keys_insert_of_mem hmem pos'
  refine { h with
    deployed := ?_
    keyed := keyed_of_insert h.keyed (hmint.trans (h.keyed _ _ hlookup)) rfl
    held := ?_
    counter := h.counter.trans hcard.symm
    cap := hcard.le.trans h.cap }
  · show e.deployedUsd = _
    rw [FiniteMap.total_insert_of_eq hlookup hcost]
    exact h.deployed
  · intro m p hp
    rcases FiniteMap.lookup_insert_eq_some hp with ⟨-, rfl⟩ | ⟨-, hold⟩
    · rw [hqty, hcost]
      exact h.held _ _ hlookup
    · exact h.held _ _ hold

theorem Ledger.countFailure {cfg : Config} {e : Engine σ} (h : Ledger cfg e) (mint : Mint) :
    Ledger cfg (e.countFailure mint) := by
  unfold Engine.countFailure
  cases hlookup : e.positions.lookup mint with
  | none =>
      rw [bookFailure_of_unheld hlookup]
      exact h
  | some pos =>
      rw [bookFailure_of_lookup hlookup]
      exact h.overwrite hlookup rfl rfl rfl

/-- Realizing a held position at its cost keeps the ledger. -/
theorem Ledger.settle {cfg : Config} {e : Engine σ} (h : Ledger cfg e) (now : DateTime)
    {x : ExitArgs} {pos : Position} (hlookup : e.positions.lookup x.mint = some pos)
    (hcost : x.cost = pos.costUsd) (fill : Fill) : Ledger cfg (e.settle now x fill) where
  cfg_eq := h.cfg_eq
  risk_cfg := (RiskEngine.recordRealizedPnl_cfg _ _ _).trans h.risk_cfg
  equity := by
    change e.equity + (tradeOf x fill now).pnlUsd =
      cfg.equityUsd + ((e.closed ++ [tradeOf x fill now]).map ClosedTrade.pnlUsd).sum
    rw [h.equity, List.map_append, List.sum_append, List.map_singleton, List.sum_singleton,
      add_assoc]
  deployed := by
    have htotal := FiniteMap.total_erase Position.costUsd hlookup
    change e.deployedUsd - x.cost = FiniteMap.total Position.costUsd (e.positions.erase x.mint)
    rw [h.deployed, hcost]
    linarith
  keyed := keyed_of_erase h.keyed rfl
  held := by
    intro m p hp
    exact h.held m p (FiniteMap.lookup_erase_eq_some hp).2
  trades := by
    intro t ht
    rcases List.mem_append.mp ht with hold | hnew
    · exact h.trades t hold
    · rw [List.mem_singleton.mp hnew]
      rfl
  counter := rfl
  cap := (FiniteMap.card_keys_erase_le _ _).trans h.cap

/-! ## Orders and steps -/

/-- An exit of a held position, at its cost, keeps the ledger either way. -/
theorem Ledger.closePosition {cfg : Config} {e : Engine σ} (h : Ledger cfg e) (ex : Executor σ)
    {x : ExitArgs} {pos : Position} (hlookup : e.positions.lookup x.mint = some pos)
    (hcost : x.cost = pos.costUsd) (now : DateTime) : Ledger cfg (e.closePosition ex x now) := by
  have hnoted : Ledger cfg (e.withRisk (e.risk.pushOrder now)) := h.withRisk rfl rfl
  rcases closePosition_cases ex e x now with ⟨err, st, -, hclose⟩ | ⟨fill, st, -, hclose⟩
  · exact ((hnoted.submitted st).countFailure x.mint).of_trading hclose
  · exact Ledger.of_trading (Ledger.settle (hnoted.submitted st) now hlookup hcost fill) hclose

/-- A slice keeps the ledger, filled or not. -/
theorem Ledger.sendSlice {cfg : Config} {e : Engine σ} (h : Ledger cfg e) {ex : Executor σ}
    (hmint : ex.HonoursMint) (hpays : ex.PaysForTokens) {launch : Launch}
    (hopen : FunnelOpen ex e launch) (deadline : DateTime) (slice : Decimal) :
    Ledger cfg (e.sendSlice ex launch deadline slice).1 := by
  rcases sendSlice_cases ex e launch deadline slice with
    ⟨err, st, -, hsend, -⟩ | ⟨fill, st, hbuy, hsend, -⟩
  · exact (h.submitted st).of_trading hsend
  · have hfill : fill.mint = launch.mint := hmint _ _ _ _ hbuy
    obtain ⟨hqty, hcost⟩ := hpays _ _ _ _ hbuy
    have hslot := hopen.slot hmint
    rw [← hfill] at hslot
    exact Ledger.of_trading
      (Ledger.applyBuyFill (h.submitted st) launch.launchpad launch.liquidityUsd hqty hcost hslot)
      hsend

theorem Ledger.ticked {cfg : Config} {e : Engine σ} (h : Ledger cfg e) {p : PriceUpdate}
    {pos : Position} (hlookup : e.positions.lookup p.mint = some pos) :
    Ledger cfg (e.ticked p pos) := by
  have hsame := onPrice_sameHolding
    { pos with lastPrice := p.priceUsd, lastLiquidityUsd := p.liquidityUsd } p.priceUsd p.ts e.cfg
  exact h.overwrite hlookup hsame.mint hsame.qty hsame.costUsd

theorem timeStopExit_eq_exitArgs {cfg : Config} {now : DateTime} {pos : Position} {x : ExitArgs}
    (h : timeStopExit cfg now pos = some x) :
    ∃ d, onTime pos now cfg = some d ∧ pos.stuck = false ∧
      x = pos.exitArgs pos.lastPrice pos.lastLiquidityUsd d.reason := by
  unfold timeStopExit at h
  split at h
  · exact absurd h (by simp)
  · rename_i hstuck
    obtain ⟨d, hd, rfl⟩ := Option.map_eq_some_iff.mp h
    exact ⟨d, hd, by simpa using hstuck, rfl⟩

/-- Every small step keeps the ledger. -/
theorem Step.ledger {cfg : Config} {ex : Executor σ} (hmint : ex.HonoursMint)
    (hpays : ex.PaysForTokens) {ev : Event} {phase : Phase} {e e' : Engine σ}
    (hstep : Step ex ev phase e e') (h : Ledger cfg e) : Ledger cfg e' := by
  cases hstep with
  | note e mint action detail => exact h.of_trading rfl
  | refresh e => exact h.withRisk (by simp) (by simp)
  | slice e launch budgetUsd hev hopen hwindow hroom =>
      have hgranted : Ledger cfg
          (e.withRisk ((e.risk.refresh launch.createdAt).pushOrder launch.createdAt)) :=
        h.withRisk (RiskEngine.refresh_cfg _ _) (RiskEngine.refresh_openPositions _ _)
      exact hgranted.sendSlice hmint hpays hopen.granted _ _
  | tick e p pos hev hpos hstay => exact h.ticked hpos
  | tickExit e p pos d hev hpos hexit =>
      exact (h.ticked hpos).closePosition ex (ticked_lookup h.keyed hpos) rfl _
  | timeExit e pos x hpos hdue =>
      obtain ⟨d, -, -, rfl⟩ := timeStopExit_eq_exitArgs hdue
      exact h.closePosition ex hpos rfl _
  | page e kind detail => exact h.of_trading rfl

/-! ## Runs -/

/-- The ledger after every run. -/
theorem ledger_run {cfg : Config} {ex : Executor σ} (hmint : ex.HonoursMint)
    (hpays : ex.PaysForTokens) (st : σ) (audit : AuditLog) (today : Int) (ds : List Delivery) :
    Ledger cfg (run ex (Engine.new cfg st audit today) ds) :=
  run_of_steps (fun _ _ _ _ hstep _ h => hstep.ledger hmint hpays h) (keyed_new cfg st audit today)
    (ledger_new cfg st audit today) ds

/-- The self-check accepts an engine with a sound ledger. -/
theorem Ledger.checkInvariants_ok {cfg : Config} {e : Engine σ} (h : Ledger cfg e)
    (o : KeyOrder Mint) : e.checkInvariants o = .ok () := by
  rw [checkInvariants_eq_ok_iff, h.cfg_eq]
  exact ⟨h.equity, h.deployed, h.held, h.trades⟩

/-- **The ledger invariant over whole runs**, for every configuration and every
executor whose filled buys carry the requested mint, bring tokens and cost
money. -/
theorem ledger_over_runs (cfg : Config) (ex : Executor σ) (hmint : ex.HonoursMint)
    (hpays : ex.PaysForTokens) (st : σ) (audit : AuditLog) (today : Int) (ds : List Delivery) :
    let e := run ex (Engine.new cfg st audit today) ds
    e.equity = cfg.equityUsd + (e.closed.map ClosedTrade.pnlUsd).sum ∧
      e.deployedUsd = FiniteMap.total Position.costUsd e.positions ∧
      (∀ mint pos, e.positions.lookup mint = some pos →
        pos.mint = mint ∧ 0 < pos.qty ∧ 0 < pos.costUsd) ∧
      (∀ t ∈ e.closed, t.pnlUsd = t.proceedsUsd - t.costUsd) ∧
      e.risk.openPositions = e.positions.keys.card ∧
      e.positions.keys.card ≤ cfg.maxOpenPositions ∧
      ∀ o, e.checkInvariants o = .ok () := by
  intro e
  have h : Ledger cfg e := ledger_run hmint hpays st audit today ds
  refine ⟨h.equity, h.deployed, ?_, h.trades, h.counter, h.cap, h.checkInvariants_ok⟩
  intro mint pos hlookup
  exact ⟨h.keyed mint pos hlookup, h.held mint pos hlookup⟩

/-- Two launches and a stop loss against the test executor: one position is
left, and the self-check accepts. -/
theorem ledger_over_runs_two_launches :
    let e := run Executor.oneToken (Engine.new .paperDefaults () (.opened fun _ => true) 0)
      [launchAt "A" 0 1, launchAt "B" 1 1, priceAt "A" 2 (1 / 2)]
    e.positions.keys.card = 1 ∧ e.closed.length = 1 ∧
      e.checkInvariants .ascending = .ok () := by
  have h := ledger_over_runs .paperDefaults Executor.oneToken Executor.oneToken_honoursMint
    Executor.oneToken_paysForTokens () (.opened fun _ => true) 0
    [launchAt "A" 0 1, launchAt "B" 1 1, priceAt "A" 2 (1 / 2)]
  exact ⟨by decide +kernel, by decide +kernel, h.2.2.2.2.2.2 .ascending⟩

end Engine

end HfmcBot
