import HfmcBot.Engine.Orders

/-!
# Snapshots

A snapshot drops the map keys and the open-position counter, or-s the kill flag
on restore and runs the self-check again.  `Resumable` is what makes this
harmless: positions under their own mint, a counter that counts the book, and a
kill flag at least as engaged as the configuration.

* `Reachable.resumable`: it holds of every state a process reaches, across
  restarts;
* `restore_state`: so restoring gives the trading state back;
* `run_congr`: engines that trade alike trade alike on every further run.
-/

namespace HfmcBot

open Foundation

namespace Engine

variable {σ : Type}

/-! ## The self-check -/

/-- What the self-check asks for, in any visiting order. -/
theorem checkInvariants_eq_ok_iff (o : KeyOrder Mint) (e : Engine σ) :
    e.checkInvariants o = .ok () ↔
      e.equity = e.cfg.equityUsd + (e.closed.map ClosedTrade.pnlUsd).sum ∧
      e.deployedUsd = FiniteMap.total Position.costUsd e.positions ∧
      (∀ mint pos, e.positions.lookup mint = some pos → 0 < pos.qty ∧ 0 < pos.costUsd) ∧
      ∀ t ∈ e.closed, t.pnlUsd = t.proceedsUsd - t.costUsd := by
  have htotal : ((e.positions.valuesIn o).map fun p => p.costUsd).sum =
      FiniteMap.total Position.costUsd e.positions := FiniteMap.sum_valuesIn _ o _
  have hheld : (e.positions.valuesIn o).find? (fun p => p.qty ≤ 0 ∨ p.costUsd ≤ 0) = none ↔
      ∀ mint pos, e.positions.lookup mint = some pos → 0 < pos.qty ∧ 0 < pos.costUsd := by
    rw [List.find?_eq_none]
    constructor
    · intro h mint pos hlookup
      have hpos := h pos (FiniteMap.mem_valuesIn.mpr ⟨mint, hlookup⟩)
      simpa using hpos
    · intro h pos hpos
      obtain ⟨mint, hlookup⟩ := FiniteMap.mem_valuesIn.mp hpos
      simpa using h mint pos hlookup
  have htrades : e.closed.find? (fun t => t.pnlUsd ≠ t.proceedsUsd - t.costUsd) = none ↔
      ∀ t ∈ e.closed, t.pnlUsd = t.proceedsUsd - t.costUsd := by
    simp [List.find?_eq_none]
  -- the four checks, in the order of the source
  unfold checkInvariants
  dsimp only
  rw [htotal]
  split
  · rename_i hne
    exact ⟨fun h => absurd h (by simp), fun h => absurd h.1 hne⟩
  · rename_i hequity
    split
    · rename_i hne
      exact ⟨fun h => absurd h (by simp), fun h => absurd h.2.1 hne⟩
    · rename_i hdeployed
      rw [← hheld, ← htrades]
      split
      · rename_i p hp
        exact ⟨fun h => absurd h (by simp), fun h => absurd (hp.symm.trans h.2.2.1) (by simp)⟩
      · rename_i hnone
        split
        · rename_i t ht
          exact ⟨fun h => absurd h (by simp), fun h => absurd (ht.symm.trans h.2.2.2) (by simp)⟩
        · rename_i hnone'
          exact ⟨fun _ => ⟨not_not.mp hequity, not_not.mp hdeployed, hnone, hnone'⟩, fun _ => rfl⟩

/-! ## Reachable states -/

theorem restore_eq_ok {cfg : Config} {st : σ} {audit : AuditLog} {today : Int}
    {o : KeyOrder Mint} {snap : EngineState} {e' : Engine σ}
    (h : restore cfg st audit today o snap = .ok e') : e' = rebuilt cfg st audit today snap := by
  unfold restore at h
  split at h
  · exact absurd h (by simp)
  · exact (Except.ok.inj h).symm

theorem keyed_bookOf (positions : List Position) (mint : Mint) (pos : Position)
    (h : (bookOf positions).lookup mint = some pos) : pos.mint = mint := by
  have hinv : ∀ m p, (bookOf positions).lookup m = some p → p.mint = m := by
    refine run_invariant (P := fun book : Book => ∀ m p, book.lookup m = some p → p.mint = m)
      ?_ (by simp) positions
    intro book p hbook m q hq
    rcases FiniteMap.lookup_insert_eq_some hq with ⟨rfl, rfl⟩ | ⟨-, hold⟩
    · rfl
    · exact hbook m q hold
  exact hinv mint pos h

/-- The states a process reaches with a configuration: from a fresh start, by
events, and by restarts from its own snapshots. -/
inductive Reachable (ex : Executor σ) (cfg : Config) : Engine σ → Prop
  | new (st : σ) (audit : AuditLog) (today : Int) :
      Reachable ex cfg (Engine.new cfg st audit today)
  | event {e : Engine σ} (d : Delivery) (h : Reachable ex cfg e) :
      Reachable ex cfg (e.deliver ex d)
  | restored {e e' : Engine σ} (st : σ) (audit : AuditLog) (today : Int)
      (save load : KeyOrder Mint) (h : Reachable ex cfg e)
      (hrestore : restore cfg st audit today load (e.state save) = .ok e') :
      Reachable ex cfg e'

/-- What a snapshot relies on. -/
structure Resumable (cfg : Config) (e : Engine σ) : Prop where
  cfg_eq : e.cfg = cfg
  risk_cfg : e.risk.cfg = cfg
  risk_equity : e.risk.equity = cfg.equityUsd
  kill : cfg.killSwitch = true → e.risk.kill = true
  keyed : e.Keyed
  counter : e.risk.openPositions = e.positions.keys.card

theorem Resumable.of_fields {cfg : Config} {e e' : Engine σ} (h : Resumable cfg e)
    (hcfg : e'.cfg = e.cfg) (hriskCfg : e'.risk.cfg = e.risk.cfg)
    (hequity : e'.risk.equity = e.risk.equity) (hkill : e'.risk.kill = e.risk.kill)
    (hkeyed : e'.Keyed) (hcounter : e'.risk.openPositions = e'.positions.keys.card) :
    Resumable cfg e' where
  cfg_eq := hcfg.trans h.cfg_eq
  risk_cfg := hriskCfg.trans h.risk_cfg
  risk_equity := hequity.trans h.risk_equity
  kill := fun hcfg => hkill.trans (h.kill hcfg)
  keyed := hkeyed
  counter := hcounter

theorem Resumable.closePosition {cfg : Config} {e : Engine σ} (h : Resumable cfg e)
    (ex : Executor σ) (x : ExitArgs) (now : DateTime) :
    Resumable cfg (e.closePosition ex x now) := by
  have hkeyed := h.keyed.closePosition ex x now
  rcases closePosition_cases ex e x now with ⟨err, st, -, hclose⟩ | ⟨fill, st, -, hclose⟩
  · obtain ⟨hcfg, hrisk, -, -, -, hpos, -, -⟩ := fields_of_trading hclose
    refine h.of_fields hcfg ((congrArg RiskEngine.cfg hrisk).trans rfl)
      ((congrArg RiskEngine.equity hrisk).trans rfl) ((congrArg RiskEngine.kill hrisk).trans rfl)
      hkeyed ?_
    apply (congrArg RiskEngine.openPositions hrisk).trans
    have hbook : (e.closePosition ex x now).positions =
        bookFailure e.positions x.mint e.cfg.maxExitAttempts := hpos
    rw [hbook]
    change e.risk.openPositions = _
    rw [h.counter, bookFailure]
    split
    · rename_i pos hlookup
      rw [FiniteMap.card_keys_insert_of_mem (Finmap.mem_of_lookup_eq_some hlookup)]
    · rfl
  · obtain ⟨hcfg, hrisk, -, -, -, hpos, -, -⟩ := fields_of_trading hclose
    refine h.of_fields hcfg ?_ ?_ ?_ hkeyed ?_
    · exact (congrArg RiskEngine.cfg hrisk).trans (RiskEngine.recordRealizedPnl_cfg _ _ _)
    · exact (congrArg RiskEngine.equity hrisk).trans (RiskEngine.recordRealizedPnl_equity _ _ _)
    · exact (congrArg RiskEngine.kill hrisk).trans (RiskEngine.recordRealizedPnl_kill _ _ _)
    · rw [hpos]
      exact congrArg RiskEngine.openPositions hrisk

theorem Resumable.ticked {cfg : Config} {e : Engine σ} (h : Resumable cfg e) {p : PriceUpdate}
    {pos : Position} (hpos : e.positions.lookup p.mint = some pos) :
    Resumable cfg (e.ticked p pos) := by
  refine h.of_fields rfl rfl rfl rfl (h.keyed.ticked hpos) ?_
  change e.risk.openPositions = (e.positions.insert p.mint _).keys.card
  rw [FiniteMap.card_keys_insert_of_mem (Finmap.mem_of_lookup_eq_some hpos), h.counter]

/-- Every small step keeps a state resumable, whatever the executor answers. -/
theorem Step.resumable {cfg : Config} {ex : Executor σ} {ev : Event} {phase : Phase}
    {e e' : Engine σ} (hstep : Step ex ev phase e e') (h : Resumable cfg e) :
    Resumable cfg e' := by
  have hkeyed := hstep.keyed h.keyed
  cases hstep with
  | note e mint action detail => exact { h with }
  | refresh e =>
      refine h.of_fields rfl (e.risk.refresh_cfg _) (e.risk.refresh_equity _)
        (e.risk.refresh_kill _) hkeyed ?_
      exact (e.risk.refresh_openPositions _).trans h.counter
  | slice e launch budgetUsd hev hopen hwindow hroom =>
      rcases sendSlice_cases ex
          (e.withRisk ((e.risk.refresh launch.createdAt).pushOrder launch.createdAt)) launch
          (funnelDeadline e.cfg launch) budgetUsd with
        ⟨err, st, -, hsend, -⟩ | ⟨fill, st, -, hsend, -⟩
      · obtain ⟨hcfg, hrisk, -, -, -, hpos, -, -⟩ := fields_of_trading hsend
        refine h.of_fields hcfg ((congrArg RiskEngine.cfg hrisk).trans (e.risk.refresh_cfg _))
          ((congrArg RiskEngine.equity hrisk).trans (e.risk.refresh_equity _))
          ((congrArg RiskEngine.kill hrisk).trans (e.risk.refresh_kill _)) hkeyed ?_
        rw [hpos]
        exact (congrArg RiskEngine.openPositions hrisk).trans
          ((e.risk.refresh_openPositions _).trans h.counter)
      · obtain ⟨hcfg, hrisk, -, -, -, hpos, -, -⟩ := fields_of_trading hsend
        refine h.of_fields hcfg ((congrArg RiskEngine.cfg hrisk).trans (e.risk.refresh_cfg _))
          ((congrArg RiskEngine.equity hrisk).trans (e.risk.refresh_equity _))
          ((congrArg RiskEngine.kill hrisk).trans (e.risk.refresh_kill _)) hkeyed ?_
        rw [hpos]
        exact congrArg RiskEngine.openPositions hrisk
  | tick e p pos hev hpos hstay => exact h.ticked hpos
  | tickExit e p pos d hev hpos hexit => exact (h.ticked hpos).closePosition _ _ _
  | timeExit e pos x hpos hdue => exact h.closePosition _ _ _
  | page e kind detail => exact { h with }

/-- Every reachable state is resumable. -/
theorem Reachable.resumable {ex : Executor σ} {cfg : Config} {e : Engine σ}
    (h : Reachable ex cfg e) : Resumable cfg e := by
  induction h with
  | new st audit today => exact ⟨rfl, rfl, rfl, id, keyed_new cfg st audit today, rfl⟩
  | event d h ih =>
      exact onEvent_invariant (P := Resumable cfg) (fun _ _ _ hstep _ he => hstep.resumable he)
        d.order ih.keyed ih
  | restored st audit today save load h hrestore ih =>
      rw [restore_eq_ok hrestore]
      refine ⟨rfl, rfl, rfl, ?_, keyed_bookOf _, rfl⟩
      intro hkill
      change (cfg.killSwitch || _) = true
      rw [hkill, Bool.true_or]

theorem Reachable.run {ex : Executor σ} {cfg : Config} {e : Engine σ} (h : Reachable ex cfg e)
    (ds : List Delivery) : Reachable ex cfg (run ex e ds) :=
  run_invariant (P := Reachable ex cfg) (fun _ d he => he.event d) h ds

/-! ## Restoring -/

/-- The position list of a snapshot stands for the book it was taken from. -/
theorem bookOf_state {e : Engine σ} (h : e.Keyed) (save : KeyOrder Mint) :
    bookOf (e.state save).positions = e.positions :=
  FiniteMap.fromValues_valuesIn h (List.perm_insertionSort _ _)

/-- The snapshot of a resumable state stands for the same trading state, up to the
executor's own. -/
theorem trading_rebuilt {cfg : Config} {e : Engine σ} (h : Resumable cfg e) (st : σ)
    (audit : AuditLog) (today : Int) (save : KeyOrder Mint) :
    (rebuilt cfg st audit today (e.state save)).trading =
      ({ e with exec := st } : Engine σ).trading := by
  have hbook := bookOf_state h.keyed save
  have hkill : (cfg.killSwitch || e.risk.kill) = e.risk.kill := by
    cases hk : cfg.killSwitch with
    | false => rfl
    | true => rw [h.kill hk, Bool.or_self]
  have hrisk : (rebuilt cfg st audit today (e.state save)).risk = e.risk := by
    have hfields : (rebuilt cfg st audit today (e.state save)).risk =
        { e.risk with
          cfg := cfg
          equity := cfg.equityUsd
          openPositions := (bookOf (e.state save).positions).keys.card
          kill := cfg.killSwitch || e.risk.kill } := rfl
    rw [hfields, hbook, hkill, ← h.counter, ← h.risk_equity, ← h.risk_cfg]
  have hfields : (rebuilt cfg st audit today (e.state save)).trading =
      ({ e with
        cfg := cfg
        exec := st
        positions := bookOf (e.state save).positions
        risk := (rebuilt cfg st audit today (e.state save)).risk } : Engine σ).trading := rfl
  rw [hfields, hbook, hrisk, ← h.cfg_eq]

/-- A snapshot of a resumable state that passes the self-check restores to the
same trading state, up to the executor's own. -/
theorem restore_state {cfg : Config} {e : Engine σ} (h : Resumable cfg e) {check : KeyOrder Mint}
    (hcheck : e.checkInvariants check = .ok ()) (st : σ) (audit : AuditLog) (today : Int)
    (save load : KeyOrder Mint) :
    ∃ e', restore cfg st audit today load (e.state save) = .ok e' ∧
      e'.trading = ({ e with exec := st } : Engine σ).trading := by
  have hrebuilt := trading_rebuilt h st audit today save
  have hok : (rebuilt cfg st audit today (e.state save)).checkInvariants load = .ok () := by
    obtain ⟨hcfg, -, -, hequity, hdeployed, hpos, hclosed, -⟩ := fields_of_trading hrebuilt
    rw [checkInvariants_eq_ok_iff] at hcheck ⊢
    rw [hcfg, hequity, hdeployed, hpos, hclosed]
    exact hcheck
  refine ⟨_, ?_, hrebuilt⟩
  unfold restore
  rw [hok]

/-! ## Engines that trade alike -/

theorem eq_of_trading {e e' : Engine σ} (h : e.trading = e'.trading) :
    ∃ audit alerter, e' = { e with audit := audit, alerter := alerter } := by
  obtain ⟨hcfg, hrisk, hexec, hequity, hdeployed, hpos, hclosed, hseq⟩ := fields_of_trading h
  refine ⟨e'.audit, e'.alerter, ?_⟩
  rw [hcfg, hrisk, hexec, hequity, hdeployed, hpos, hclosed, hseq]

section Congr

variable {ex : Executor σ} {e e' : Engine σ}

theorem sendSlice_congr (h : e.trading = e'.trading) (launch : Launch) (deadline : DateTime)
    (slice : Decimal) :
    (e.sendSlice ex launch deadline slice).1.trading =
        (e'.sendSlice ex launch deadline slice).1.trading ∧
      (e.sendSlice ex launch deadline slice).2 = (e'.sendSlice ex launch deadline slice).2 := by
  obtain ⟨audit, alerter, rfl⟩ := eq_of_trading h
  rcases hbuy : ex.buy (sliceRequest launch deadline slice (e.nextOrderId launch.mint).1) e.exec
    with ⟨err | fill, st⟩
  · rw [sendSlice_failed hbuy,
      sendSlice_failed (e := { e with audit := audit, alerter := alerter }) hbuy]
    dsimp only
    rw [trading_buyFailed, trading_buyFailed]
    exact ⟨rfl, rfl⟩
  · rw [sendSlice_filled hbuy,
      sendSlice_filled (e := { e with audit := audit, alerter := alerter }) hbuy]
    exact ⟨rfl, rfl⟩

theorem closePosition_congr (h : e.trading = e'.trading) (x : ExitArgs) (now : DateTime) :
    (e.closePosition ex x now).trading = (e'.closePosition ex x now).trading := by
  obtain ⟨audit, alerter, rfl⟩ := eq_of_trading h
  rcases hsell : ex.sell (sellRequest x now (e.nextOrderId x.mint).1) e.exec
    with ⟨err | fill, st⟩
  · rw [closePosition_failed hsell,
      closePosition_failed (e := { e with audit := audit, alerter := alerter }) hsell,
      trading_exitFailed, trading_exitFailed]
    rfl
  · rw [closePosition_filled hsell,
      closePosition_filled (e := { e with audit := audit, alerter := alerter }) hsell,
      trading_exitFilled, trading_exitFilled]
    rfl

theorem funnelSlice_congr (h : e.trading = e'.trading) (launch : Launch) (deadline : DateTime)
    (idx total : Nat) (slice : Decimal) :
    (e.funnelSlice ex launch deadline idx total slice).1.trading =
        (e'.funnelSlice ex launch deadline idx total slice).1.trading ∧
      (e.funnelSlice ex launch deadline idx total slice).2 =
        (e'.funnelSlice ex launch deadline idx total slice).2 := by
  obtain ⟨audit, alerter, rfl⟩ := eq_of_trading h
  unfold funnelSlice
  dsimp only
  split
  · exact ⟨rfl, rfl⟩
  · split
    · exact ⟨rfl, rfl⟩
    · refine sendSlice_congr ?_ launch deadline slice
      rfl

theorem funnel_congr (launch : Launch) (deadline : DateTime) (total : Nat)
    (slices : List Decimal) (idx : Nat) (h : e.trading = e'.trading) :
    (funnel ex launch deadline total idx slices e).trading =
      (funnel ex launch deadline total idx slices e').trading := by
  induction slices generalizing idx e e' with
  | nil => exact h
  | cons slice rest ih =>
      obtain ⟨hstate, hflag⟩ :
          (e.funnelSlice ex launch deadline idx total slice).1.trading =
              (e'.funnelSlice ex launch deadline idx total slice).1.trading ∧
            (e.funnelSlice ex launch deadline idx total slice).2 =
              (e'.funnelSlice ex launch deadline idx total slice).2 :=
        funnelSlice_congr h launch deadline idx total slice
      unfold funnel
      dsimp only
      rw [hflag]
      split
      · exact ih (idx + 1) hstate
      · exact hstate

theorem onLaunch_congr (h : e.trading = e'.trading) (launch : Launch) :
    (e.onLaunch ex launch).trading = (e'.onLaunch ex launch).trading := by
  obtain ⟨audit, alerter, rfl⟩ := eq_of_trading h
  unfold onLaunch
  dsimp only
  split
  · rfl
  · split
    · rfl
    · split
      · rfl
      · split
        · rfl
        · refine funnel_congr launch _ _ _ 0 ?_
          rfl

theorem onPriceUpdate_congr (h : e.trading = e'.trading) (p : PriceUpdate) :
    (e.onPriceUpdate ex p).trading = (e'.onPriceUpdate ex p).trading := by
  obtain ⟨audit, alerter, rfl⟩ := eq_of_trading h
  unfold onPriceUpdate
  dsimp only
  split
  · rfl
  · split
    · rfl
    · refine closePosition_congr ?_ _ _
      rfl

theorem sweepTimeStops_congr (h : e.trading = e'.trading) (o : KeyOrder Mint) (now : DateTime) :
    (e.sweepTimeStops ex o now).trading = (e'.sweepTimeStops ex o now).trading := by
  have hfold : ∀ exits : List ExitArgs, ∀ a a' : Engine σ, a.trading = a'.trading →
      (exits.foldl (fun e x => e.closePosition ex x now) a).trading =
        (exits.foldl (fun e x => e.closePosition ex x now) a').trading := by
    intro exits
    induction exits with
    | nil => exact fun _ _ ha => ha
    | cons x rest ih => exact fun a a' ha => ih _ _ (closePosition_congr ha x now)
  obtain ⟨hcfg, -, -, -, -, hpos, -, -⟩ := fields_of_trading h
  unfold sweepTimeStops
  rw [hcfg, hpos]
  exact hfold _ _ _ h

theorem deliver_congr (h : e.trading = e'.trading) (d : Delivery) :
    (e.deliver ex d).trading = (e'.deliver ex d).trading := by
  unfold deliver
  rw [trading_onEvent, trading_onEvent]
  refine sweepTimeStops_congr ?_ d.order d.ev.ts
  cases d.ev with
  | launch l => exact onLaunch_congr h l
  | price p => exact onPriceUpdate_congr h p

/-- Engines that trade alike go on trading alike. -/
theorem run_congr (h : e.trading = e'.trading) (ds : List Delivery) :
    (run ex e ds).trading = (run ex e' ds).trading := by
  induction ds generalizing e e' with
  | nil => exact h
  | cons d ds ih => exact ih (deliver_congr h d)

end Congr

end Engine

end HfmcBot
