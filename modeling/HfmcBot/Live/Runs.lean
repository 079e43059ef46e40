import HfmcBot.Engine.Ledger
import HfmcBot.Live.Checks
import HfmcBot.Live.Settlement

/-!
# The live bot over whole runs

The engine behind the live executor, on any upstream: whatever the network answers, in any
order and at any time.

* `Step.exec_cases`, `run_exec`: a run moves the state of its executor by orders only;
* `fills_cover_book`: every closed trade and every open position has a fill of its own;
* `order_bundles`: an order submits at most one bundle, none in simulation, and one if it
  fills otherwise;
* `buy_honest`: a filled buy brings tokens of the mint asked for and costs money;
* `live_books_sound`: the money invariants, without any assumption on the executor;
* `bundles_cover_book`: no entry of the book without a submitted bundle.
-/

namespace HfmcBot

open Foundation Foundation.Attempt

namespace Engine

variable {σ : Type}

/-! ## The executor of a run -/

/-- A step leaves the executor alone, or gives it one order. -/
theorem Step.exec_cases {ex : Executor σ} {ev : Event} {phase : Phase} {e e' : Engine σ}
    (hstep : Step ex ev phase e e') : e'.exec = e.exec ∨ ∃ o, e'.exec = (ex.place o e.exec).2 := by
  cases hstep with
  | note e mint action detail => exact Or.inl rfl
  | refresh e => exact Or.inl rfl
  | slice e launch budgetUsd hev hopen hwindow hroom =>
      exact Or.inr ⟨.buy _, sendSlice_exec ex _ launch _ budgetUsd⟩
  | tick e p pos hev hpos hstay => exact Or.inl rfl
  | tickExit e p pos d hev hpos hexit => exact Or.inr ⟨.sell _, closePosition_exec ex _ _ p.ts⟩
  | timeExit e pos x hpos hdue => exact Or.inr ⟨.sell _, closePosition_exec ex e x ev.ts⟩
  | page e kind detail => exact Or.inl rfl

/-- What every order keeps of the executor, every run keeps. -/
theorem run_exec {ex : Executor σ} {P : σ → Prop} (hplace : ∀ o st, P st → P (ex.place o st).2)
    {e : Engine σ} (hkeyed : e.Keyed) (he : P e.exec) (ds : List Delivery) :
    P (run ex e ds).exec := by
  refine run_of_steps (P := fun e => P e.exec) ?_ hkeyed he ds
  intro ev phase a b hstep _ ha
  rcases hstep.exec_cases with hsame | ⟨o, hmoved⟩
  · rw [hsame]
    exact ha
  · rw [hmoved]
    exact hplace o a.exec ha

/-! ## Fills and the book -/

/-- How many of these orders were filled. -/
def fills (orders : List Sent) : Nat := orders.countP Sent.filled

theorem fills_concat (orders : List Sent) (s : Sent) :
    fills (orders ++ [s]) = fills orders + if s.filled then 1 else 0 := by
  simp [fills, List.countP_append, List.countP_singleton]

/-- The entries of the book have a fill each. -/
def FillBacked (e : Engine (σ × List Sent)) : Prop :=
  e.closed.length + e.positions.keys.card ≤ fills e.sent

theorem FillBacked.of_fields {e e' : Engine (σ × List Sent)} (h : FillBacked e)
    (hclosed : e'.closed = e.closed) (hpos : e'.positions.keys.card = e.positions.keys.card)
    (hsent : fills e.sent ≤ fills e'.sent) : FillBacked e' := by
  unfold FillBacked at h ⊢
  rw [hclosed, hpos]
  omega

theorem card_bookFailure (book : Book) (mint : Mint) (limit : UInt32) :
    (bookFailure book mint limit).keys.card = book.keys.card := by
  unfold bookFailure
  cases hlookup : book.lookup mint with
  | none => rfl
  | some pos => exact FiniteMap.card_keys_insert_of_mem (Finmap.mem_of_lookup_eq_some hlookup) _

theorem FillBacked.ticked {e : Engine (σ × List Sent)} (h : FillBacked e) {p : PriceUpdate}
    {pos : Position} (hpos : e.positions.lookup p.mint = some pos) : FillBacked (e.ticked p pos) :=
  h.of_fields rfl (FiniteMap.card_keys_insert_of_mem (Finmap.mem_of_lookup_eq_some hpos) _)
    (Nat.le_refl _)

/-- An exit keeps the book covered: a sale that fills turns a position into a trade. -/
theorem FillBacked.closePosition {e : Engine (σ × List Sent)} (h : FillBacked e) (ex : Executor σ)
    (x : ExitArgs) (now : DateTime) : FillBacked (e.closePosition ex.recorded x now) := by
  have hsent := closePosition_sent ex e x now
  have hcount := congrArg fills hsent
  rw [fills_concat] at hcount
  rcases closePosition_cases ex.recorded e x now with
    ⟨err, st, hsell, hclose⟩ | ⟨fill, st, hsell, hclose⟩
  · have hfields := fields_of_trading hclose
    refine h.of_fields hfields.closed ?_ (by omega)
    rw [hfields.positions]
    exact card_bookFailure e.positions x.mint _
  · have hfields := fields_of_trading hclose
    have hfilled : Sent.filled ⟨.sell (sellRequest x now (e.nextOrderId x.mint).1),
        (ex.recorded.sell (sellRequest x now (e.nextOrderId x.mint).1) e.exec).1⟩ = true := by
      rw [hsell]
      rfl
    rw [hfilled, if_pos rfl] at hcount
    have hle := FiniteMap.card_keys_erase_le e.positions x.mint
    unfold FillBacked at h ⊢
    rw [hfields.closed, hfields.positions, hcount]
    show (e.closed ++ [_]).length + (e.positions.erase x.mint).keys.card ≤ _
    rw [List.length_append, List.length_singleton]
    omega

/-- A slice keeps the book covered: a buy that fills adds one position at most. -/
theorem FillBacked.sendSlice {e : Engine (σ × List Sent)} (h : FillBacked e) (ex : Executor σ)
    (launch : Launch) (deadline : DateTime) (slice : Decimal) :
    FillBacked (e.sendSlice ex.recorded launch deadline slice).1 := by
  have hsent := sendSlice_sent ex e launch deadline slice
  have hcount := congrArg fills hsent
  rw [fills_concat] at hcount
  rcases sendSlice_cases ex.recorded e launch deadline slice with
    ⟨err, st, hbuy, hsend, -⟩ | ⟨fill, st, hbuy, hsend, -⟩
  · have hfields := fields_of_trading hsend
    exact h.of_fields hfields.closed (by rw [hfields.positions]; rfl) (by omega)
  · have hfields := fields_of_trading hsend
    have hfilled : Sent.filled ⟨.buy (sliceRequest launch deadline slice
        (e.nextOrderId launch.mint).1), (ex.recorded.buy (sliceRequest launch deadline slice
          (e.nextOrderId launch.mint).1) e.exec).1⟩ = true := by
      rw [hbuy]
      rfl
    rw [hfilled, if_pos rfl] at hcount
    have hcard : (e.sendSlice ex.recorded launch deadline slice).1.positions.keys.card ≤
        e.positions.keys.card + 1 := by
      rw [hfields.positions, applyBuyFill_positions]
      rw [FiniteMap.keys_insert]
      exact Finset.card_insert_le _ _
    have hclosed : (e.sendSlice ex.recorded launch deadline slice).1.closed = e.closed :=
      hfields.closed
    unfold FillBacked at h ⊢
    rw [hclosed, hcount]
    omega

theorem Step.fillBacked {ex : Executor σ} {ev : Event} {phase : Phase}
    {e e' : Engine (σ × List Sent)} (hstep : Step ex.recorded ev phase e e') (h : FillBacked e) :
    FillBacked e' := by
  cases hstep with
  | note e mint action detail => exact h
  | refresh e => exact h
  | slice e launch budgetUsd hev hopen hwindow hroom =>
      have hgranted : FillBacked
          (e.withRisk ((e.risk.refresh launch.createdAt).pushOrder launch.createdAt)) := h
      exact hgranted.sendSlice ex launch _ _
  | tick e p pos hev hpos hstay => exact h.ticked hpos
  | tickExit e p pos d hev hpos hexit => exact (h.ticked hpos).closePosition ex _ _
  | timeExit e pos x hpos hdue => exact h.closePosition ex _ _
  | page e kind detail => exact h

/-- **No entry without a fill.**  After every run against any executor, the closed trades and
the open positions together are no more than the orders that filled. -/
theorem fills_cover_book (cfg : Config) (ex : Executor σ) (st : σ) (audit : AuditLog)
    (today : Int) (ds : List Delivery) :
    FillBacked (run ex.recorded (Engine.new cfg (st, []) audit today) ds) :=
  run_of_steps (fun _ _ _ _ hstep _ h => hstep.fillBacked h) (keyed_new cfg _ audit today)
    (Nat.le_refl _) ds

end Engine

/-! ## Bundles -/

/-- How many of these exchanges submit a bundle. -/
def bundles (log : List Exchange) : Nat := log.countP fun x => x.kind = .bundle

theorem bundles_append (before after : List Exchange) :
    bundles (before ++ after) = bundles before + bundles after := List.countP_append

theorem bundles_eq_zero {log : List Exchange} (h : ¬ Submitted log) : bundles log = 0 := by
  rw [bundles, List.countP_eq_zero]
  intro x hx hkind
  exact h ⟨x, hx, of_decide_eq_true hkind⟩

namespace Live

variable {ω : Type} (crates : Crates) (up : Upstream ω)

/-- What one order may submit, by its result. -/
structure OrderBundles (ex : LiveExecutor) (r : Except Halt Fill) (n : Nat) : Prop where
  once : n ≤ 1
  simulated : ex.simulateOnly = true → n = 0
  filled : ex.simulateOnly = false → ∀ fill, r = .ok fill → n = 1

/-- An order that ends in an error, or is simulated, may submit nothing. -/
theorem OrderBundles.of_none {ex : LiveExecutor} {r : Except Halt Fill} {n : Nat} (hn : n = 0)
    (h : ex.simulateOnly = true ∨ ∃ e, r = .error e) : OrderBundles ex r n where
  once := by omega
  simulated _ := hn
  filled hsend fill hfill := by
    rcases h with hsimulate | ⟨e, rfl⟩
    · cases hsend.symm.trans hsimulate
    · cases hfill

/-- What a computation without bundles logs. -/
theorem exists_log_of_only {α : Type} {C : RequestKind → Prop}
    {x : LiveM (ω × List Exchange) α} (hx : Only C x) (hC : ¬ C .bundle)
    {s s' : Live (ω × List Exchange)} {r : Except Halt α} (h : x.exec s = (r, s')) :
    ∃ new, exchanges s' = exchanges s ++ new ∧ bundles new = 0 := by
  obtain ⟨new, hlog, hnew⟩ := hx s
  rw [h] at hlog
  refine ⟨new, hlog, bundles_eq_zero (not_submitted fun e he hkind => hC ?_)⟩
  rw [← hkind]
  exact hnew e he

/-- An order submits at most one bundle, none in simulation, and one if it fills
otherwise. -/
theorem order_bundles (o : Order) (s : Live (ω × List Exchange)) :
    ∃ new, exchanges ((place crates up.recorded o).exec s).2 = exchanges s ++ new ∧
      OrderBundles s.ex ((place crates up.recorded o).exec s).1 (bundles new) := by
  -- by the stage at which the order ends: only a sent one gets to the submission
  have hway := place_way crates up.recorded o s
  generalize (place crates up.recorded o).exec s = p at hway ⊢
  cases hway with
  | unstaged hstage =>
      obtain ⟨new, hlog, hnone⟩ := exists_log_of_only (only_stage crates up o) (by decide) hstage
      exact ⟨new, hlog, .of_none hnone (.inr ⟨_, rfl⟩)⟩
  | unsigned hstage hsign =>
      obtain ⟨a, hlogA, ha⟩ := exists_log_of_only (only_stage crates up o) (by decide) hstage
      obtain ⟨b, hlogB, hb⟩ :=
        exists_log_of_only (only_signBundle crates up _ _) (by decide) hsign
      refine ⟨a ++ b, by rw [hlogB, hlogA, List.append_assoc], .of_none ?_ (.inr ⟨_, rfl⟩)⟩
      rw [bundles_append, ha, hb]
  | @simulated staged txs m m' hstage hsign hsimulate =>
      obtain ⟨a, hlogA, ha⟩ := exists_log_of_only (only_stage crates up o) (by decide) hstage
      obtain ⟨b, hlogB, hb⟩ :=
        exists_log_of_only (only_signBundle crates up _ _) (by decide) hsign
      rcases hsettle : (settle crates up.recorded o staged).exec m' with ⟨r, m''⟩
      obtain ⟨c, hlogC, hc⟩ := exists_log_of_only (only_settle crates up o staged) (by decide) hsettle
      refine ⟨a ++ b ++ c, ?_, .of_none ?_ (.inl hsimulate)⟩
      · rw [hlogC, hlogB, hlogA]
        simp only [List.append_assoc]
      · rw [bundles_append, bundles_append, ha, hb, hc]
  | @sent staged txs m m' hstage hsign hsend =>
      obtain ⟨a, hlogA, ha⟩ := exists_log_of_only (only_stage crates up o) (by decide) hstage
      obtain ⟨b, hlogB, hb⟩ :=
        exists_log_of_only (only_signBundle crates up _ _) (by decide) hsign
      obtain ⟨c, hlogC, id, response, later, rfl, hlater⟩ :=
        submit_settle_log crates up o staged txs m'
      have hone : bundles (⟨.sendBundle id txs, response⟩ :: later) = 1 := by
        rw [bundles, List.countP_cons_of_pos (by rfl)]
        exact congrArg (· + 1) (bundles_eq_zero hlater)
      have htotal : bundles (a ++ b ++ ⟨.sendBundle id txs, response⟩ :: later) = 1 := by
        rw [bundles_append, bundles_append, ha, hb, hone]
      refine ⟨a ++ b ++ ⟨.sendBundle id txs, response⟩ :: later, ?_, ?_⟩
      · rw [hlogC, hlogB, hlogA]
        simp only [List.append_assoc]
      · rw [htotal]
        refine ⟨le_refl 1, fun hsimulate => ?_, fun _ _ _ => rfl⟩
        cases hsend.symm.trans hsimulate

/-! ## Honest buys -/

section Buys

variable {crates up}

/-- A buy is prepared at a positive rate, with a positive budget. -/
theorem prepareBuy_positive {mint : Mint} {budgetUsd : Decimal} {s s' : Live ω}
    {prepared : JupiterQuote × UInt8 × SwapTx}
    (h : (prepareBuy crates up mint budgetUsd).exec s = (.ok prepared, s')) :
    0 < s.ex.solUsd ∧ 0 < budgetUsd := by
  rw [prepareBuy, exec_get_bind] at h
  obtain ⟨lamports, hlamports, -⟩ := exec_ofExcept_bind_eq_ok h
  obtain ⟨_, hrate, hlamports⟩ := exists_of_bind_eq_ok hlamports
  obtain ⟨_, hbudget, -⟩ := exists_of_bind_eq_ok hlamports
  exact ⟨not_le.mp (haltIf_eq_ok hrate), not_le.mp (haltIf_eq_ok hbudget)⟩

theorem settleBuy_mint {req : BuyRequest} {quote : JupiterQuote} {outDecimals : UInt8}
    {s s' : Live ω} {fill : Fill}
    (h : (settleBuy crates up req quote outDecimals).exec s = (.ok fill, s')) :
    fill.mint = req.mint := by
  unfold settleBuy at h
  rw [exec_get_bind] at h
  obtain ⟨qty, -, h⟩ := exec_ofExcept_bind_eq_ok h
  obtain ⟨_, -, h⟩ := exec_ofExcept_bind_eq_ok h
  obtain ⟨_, m, -, h⟩ := exec_bind_eq_ok h
  rw [exec_get_bind] at h
  cases h
  rfl

/-- A filled buy is of the mint asked for, brings tokens and costs money. -/
theorem buy_honest {req : BuyRequest} {s s' : Live ω} {fill : Fill}
    (h : (buy crates up req).exec s = (.ok fill, s')) :
    fill.mint = req.mint ∧ 0 < fill.qty ∧ 0 < fill.notionalUsd + fill.feeUsd := by
  unfold buy at h
  rw [exec_get_bind] at h
  obtain ⟨_, -, h⟩ := exec_ofExcept_bind_eq_ok h
  obtain ⟨_, -, h⟩ := exec_ofExcept_bind_eq_ok h
  obtain ⟨⟨quote, outDecimals, swapTx⟩, m, hprepare, h⟩ := exec_bind_eq_ok h
  obtain ⟨sigs, m', hsend, h⟩ := exec_bind_eq_ok h
  have hsame : settings m' = settings s :=
    (settings_of_exec (steady_signAndMaybeSend crates up _ _) hsend).trans
      (settings_of_exec (blind_settings.prepareBuy crates up _ _) hprepare)
  have hrate : m'.ex.solUsd = s.ex.solUsd := by
    show (settings m').solUsd = (settings s).solUsd
    rw [hsame]
  obtain ⟨hsol, hbudget⟩ := prepareBuy_positive hprepare
  obtain ⟨-, hqty, -, hnotional, hfee⟩ := settleBuy_amounts h
  refine ⟨settleBuy_mint h, hqty, ?_⟩
  -- the tip may be zero, so what the buy costs rests on the notional
  have htip : 0 ≤ fill.feeUsd := by
    rw [hfee]
    unfold LiveExecutor.tipFeeUsd lamportsToUsd
    rw [hrate]
    split
    · have := hsol.le
      unfold lamportsPerSol
      positivity
    · exact le_refl 0
  rw [hnotional]
  linarith

end Buys

theorem executor_honoursMint : (executor crates up).HonoursMint :=
  fun _ _ _ _ h => (buy_honest (answer_eq_ok h)).1

theorem executor_paysForTokens : (executor crates up).PaysForTokens :=
  fun _ _ _ _ h => (buy_honest (answer_eq_ok h)).2

/-! ## Runs -/

/-- **The books of the live bot.**  The engine behind the live executor keeps its money
invariants and passes its self-check after every run, for every configuration, library and
upstream: no answer of the network can break the books. -/
theorem live_books_sound (cfg : Config) (s : Live ω) (audit : AuditLog) (today : Int)
    (ds : List Delivery) :
    let e := Engine.run (executor crates up) (Engine.new cfg s audit today) ds
    e.equity = cfg.equityUsd + (e.closed.map ClosedTrade.pnlUsd).sum ∧
      e.deployedUsd = FiniteMap.total Position.costUsd e.positions ∧
      (∀ mint pos, e.positions.lookup mint = some pos →
        pos.mint = mint ∧ 0 < pos.qty ∧ 0 < pos.costUsd) ∧
      e.risk.openPositions = e.positions.keys.card ∧
      e.positions.keys.card ≤ cfg.maxOpenPositions ∧
      ∀ o, e.checkInvariants o = .ok () := by
  intro e
  have h : Engine.Ledger cfg e := Engine.ledger_run (executor_honoursMint crates up)
    (executor_paysForTokens crates up) s audit today ds
  refine ⟨h.equity, h.deployed, fun mint pos hlookup => ?_, h.counter, h.cap,
    h.checkInvariants_ok⟩
  exact ⟨h.keyed mint pos hlookup, h.held mint pos hlookup⟩

/-- What a run may have submitted, by the orders it placed. -/
structure RunBundles (ex : LiveExecutor) (st : Live (ω × List Exchange) × List Sent) : Prop where
  settings : settings st.1 = ex
  once : bundles (exchanges st.1) ≤ st.2.length
  simulated : ex.simulateOnly = true → bundles (exchanges st.1) = 0
  filled : ex.simulateOnly = false → Engine.fills st.2 ≤ bundles (exchanges st.1)

/-- One order. -/
theorem RunBundles.place {ex : LiveExecutor} {st : Live (ω × List Exchange) × List Sent}
    (h : RunBundles ex st) (o : Order) :
    RunBundles ex ((observed crates up.recorded).place o st).2 := by
  obtain ⟨new, hlog, hnew⟩ := order_bundles crates up o st.1
  have hsteady := steady_place crates up.recorded o st.1
  have hmode : st.1.ex.simulateOnly = ex.simulateOnly := by
    rw [← h.settings]
    rfl
  -- an order is recorded with the answer that stands for its result
  have hplaced : ((observed crates up.recorded).place o st).2 =
      (((Live.place crates up.recorded o).exec st.1).2, st.2 ++
        [⟨o, ((Live.place crates up.recorded o).exec st.1).1.mapError Halt.toExecError⟩]) := by
    cases o <;> rfl
  rw [hplaced]
  have hbefore := h.once
  have hone := hnew.once
  constructor
  · exact hsteady.trans h.settings
  · rw [hlog, bundles_append, List.length_append, List.length_singleton]
    omega
  · intro hsimulate
    rw [hlog, bundles_append, h.simulated hsimulate, hnew.simulated (hmode.trans hsimulate)]
  · intro hsend
    have hfills := h.filled hsend
    rw [hlog, bundles_append, Engine.fills_concat]
    cases hresult : ((Live.place crates up.recorded o).exec st.1).1 with
    | error e =>
        show Engine.fills st.2 + 0 ≤ _
        omega
    | ok fill =>
        have hsubmitted := hnew.filled (hmode.trans hsend) fill hresult
        show Engine.fills st.2 + 1 ≤ _
        omega

/-- **No entry without a bundle.**  Over every run on every upstream the live bot submits at
most one bundle for an order.  In simulation it submits none; otherwise its closed trades
and open positions together are no more than the bundles it submitted. -/
theorem bundles_cover_book (cfg : Config) (s : Live ω) (audit : AuditLog) (today : Int)
    (ds : List Delivery) :
    let e := Engine.run (observed crates up.recorded) (Engine.new cfg (record s, []) audit today) ds
    bundles (exchanges e.exec.1) ≤ e.sent.length ∧
      (s.ex.simulateOnly = true → bundles (exchanges e.exec.1) = 0) ∧
      (s.ex.simulateOnly = false →
        e.closed.length + e.positions.keys.card ≤ bundles (exchanges e.exec.1)) := by
  intro e
  have hrun : RunBundles (settings (record s)) e.exec := by
    refine Engine.run_exec (P := RunBundles (settings (record s)))
      (fun o st hst => hst.place crates up o) (Engine.keyed_new cfg _ audit today) ?_ ds
    exact ⟨rfl, Nat.le_refl _, fun _ => rfl, fun _ => Nat.le_refl _⟩
  have hbook : Engine.FillBacked e :=
    Engine.fills_cover_book cfg (executor crates up.recorded) (record s) audit today ds
  exact ⟨hrun.once, hrun.simulated, fun hsend => le_trans hbook (hrun.filled hsend)⟩

end Live

end HfmcBot
