import HfmcBot.Engine.Orders
import HfmcBot.Live.Requests

/-!
# The urgency price and the fee

The price of a tier goes out twice: as the priority fee of the swap and as the lamports of
the tip.  The fee of the fill counts it once.

* `committedLamports`: the lamports that an exchange puts on top of its swaps;
* `place_charged`: a filled order commits twice the price and is charged once;
* `accounts_run`: over a run of the engine the ledger's costs and proceeds are those of the
  filled orders, fees included;
* `fees_cover_iff`: over a run, fees and commitments agree exactly if every filled order was
  of a tier that costs nothing.
-/

namespace HfmcBot

open Foundation Foundation.Attempt

/-- The lamports of the tips among signed transactions. -/
def tipLamports (txs : List SignedTx) : Nat :=
  ((txs.filterMap SignedTx.transfer).map fun t => t.lamports.toNat).sum

/-- The lamports a request commits on top of a swap amount. -/
def Request.commits : Request → Nat
  | .swap _ _ prioritizationFeeLamports => prioritizationFeeLamports.toNat
  | .sendBundle _ txs => tipLamports txs
  | _ => 0

/-- The priority fees and the tips of some exchanges. -/
def committedLamports (log : List Exchange) : Nat := (log.map fun x => x.request.commits).sum

theorem committedLamports_append (before after : List Exchange) :
    committedLamports (before ++ after) = committedLamports before + committedLamports after := by
  rw [committedLamports, List.map_append, List.sum_append]
  rfl

theorem committedLamports_cons (x : Exchange) (log : List Exchange) :
    committedLamports (x :: log) = x.request.commits + committedLamports log := rfl

/-- Only swaps and bundles commit anything. -/
theorem committedLamports_eq_zero {log : List Exchange}
    (h : ∀ x ∈ log, x.kind ≠ .swap ∧ x.kind ≠ .bundle) : committedLamports log = 0 := by
  unfold committedLamports
  rw [List.sum_eq_zero_iff]
  intro n hn
  obtain ⟨x, hx, rfl⟩ := List.mem_map.mp hn
  obtain ⟨request, response⟩ := x
  cases request with
  | swap raw user fee => exact absurd rfl (h _ hx).1
  | sendBundle id txs => exact absurd rfl (h _ hx).2
  | _ => rfl

/-- The staging commits the priority fee. -/
theorem Requested.committed {crates : Crates} {ex : LiveExecutor} {o : Order}
    {new : List Exchange} {staged : Live.Staged} (h : Requested crates ex o new staged) :
    committedLamports new = (ex.jito.tipFor o.tier).toNat := by
  obtain ⟨before, amount, bps, quoteBody, between, swapBody, rfl, hsupply, -⟩ := h
  have hzero : ∀ log, (∀ x ∈ log, x.kind = .supply) → committedLamports log = 0 := by
    intro log hlog
    refine committedLamports_eq_zero fun x hx => ?_
    rw [hlog x hx]
    decide
  rw [committedLamports_append, committedLamports_cons, committedLamports_append,
    committedLamports_cons,
    hzero before fun x hx => hsupply x (List.mem_append_left _ hx),
    hzero between fun x hx => hsupply x (List.mem_append_right _ hx)]
  simp [Request.commits, committedLamports]

/-- The bundle commits the tip. -/
theorem Bundled.tipLamports {crates : Crates} {ex : LiveExecutor} {swapTx : SwapTx}
    {tier : TipTier} {txs : List SignedTx} (h : Bundled crates ex swapTx tier txs) :
    tipLamports txs = (ex.jito.tipFor tier).toNat := by
  obtain ⟨keypair, bytes, message, fresh, -, -, -, -, hzero | htip⟩ := h
  · obtain ⟨hprice, rfl⟩ := hzero
    rw [hprice]
    rfl
  · obtain ⟨-, text, -, account, -, rfl⟩ := htip
    exact Nat.add_zero _

/-! ## The fees in the ledger -/

namespace Engine

variable {σ : Type} {e e' : Engine (σ × List Sent)}

/-- What a filled buy costs. -/
def buyCost (s : Sent) : Decimal :=
  match s.order, s.answer with
  | .buy _, .ok fill => fill.notionalUsd + fill.feeUsd
  | _, _ => 0

/-- What a filled sell brings in. -/
def sellProceeds (s : Sent) : Decimal :=
  match s.order, s.answer with
  | .sell _, .ok fill => proceedsOf fill
  | _, _ => 0

/-- The costs on the book and of the closed trades are those of the filled buys, and the
proceeds are those of the filled sells. -/
structure Accounts (e : Engine (σ × List Sent)) : Prop where
  costs : e.deployedUsd + (e.closed.map ClosedTrade.costUsd).sum = (e.sent.map buyCost).sum
  proceeds : (e.closed.map ClosedTrade.proceedsUsd).sum = (e.sent.map sellProceeds).sum

theorem Accounts.of_fields (h : Accounts e) (hdeployed : e'.deployedUsd = e.deployedUsd)
    (hclosed : e'.closed = e.closed) (hsent : e'.sent = e.sent) : Accounts e' := by
  refine ⟨?_, ?_⟩
  · rw [hdeployed, hclosed, hsent]
    exact h.costs
  · rw [hclosed, hsent]
    exact h.proceeds

/-- One more order moves the ledger by its cost or its proceeds. -/
theorem Accounts.order (h : Accounts e) {s : Sent} (hsent : e'.sent = e.sent ++ [s])
    (hcosts : e'.deployedUsd + (e'.closed.map ClosedTrade.costUsd).sum =
      e.deployedUsd + (e.closed.map ClosedTrade.costUsd).sum + buyCost s)
    (hproceeds : (e'.closed.map ClosedTrade.proceedsUsd).sum =
      (e.closed.map ClosedTrade.proceedsUsd).sum + sellProceeds s) : Accounts e' := by
  refine ⟨?_, ?_⟩
  · rw [hcosts, h.costs, hsent, List.map_append, List.sum_append, List.map_singleton,
      List.sum_singleton]
  · rw [hproceeds, h.proceeds, hsent, List.map_append, List.sum_append, List.map_singleton,
      List.sum_singleton]

theorem Accounts.sendSlice (h : Accounts e) (ex : Executor σ) (launch : Launch)
    (deadline : DateTime) (slice : Decimal) :
    Accounts (e.sendSlice ex.recorded launch deadline slice).1 := by
  refine h.order (sendSlice_sent ex e launch deadline slice) ?_ ?_
  all_goals
    rcases sendSlice_cases ex.recorded e launch deadline slice with
      ⟨err, st, hbuy, hsend, -⟩ | ⟨fill, st, hbuy, hsend, -⟩
  · rw [(fields_of_trading hsend).deployedUsd, (fields_of_trading hsend).closed, hbuy]
    exact (add_zero _).symm
  · rw [(fields_of_trading hsend).deployedUsd, (fields_of_trading hsend).closed, hbuy]
    exact add_right_comm _ _ _
  · rw [(fields_of_trading hsend).closed]
    exact (add_zero _).symm
  · rw [(fields_of_trading hsend).closed]
    exact (add_zero _).symm

theorem Accounts.closePosition (h : Accounts e) (ex : Executor σ) (x : ExitArgs)
    (now : DateTime) : Accounts (e.closePosition ex.recorded x now) := by
  refine h.order (closePosition_sent ex e x now) ?_ ?_
  all_goals
    rcases closePosition_cases ex.recorded e x now with
      ⟨err, st, hsell, hclose⟩ | ⟨fill, st, hsell, hclose⟩
  · rw [(fields_of_trading hclose).deployedUsd, (fields_of_trading hclose).closed]
    exact (add_zero _).symm
  · rw [(fields_of_trading hclose).deployedUsd, (fields_of_trading hclose).closed]
    -- the cost moves from the book to the closed trade
    show e.deployedUsd - x.cost + ((e.closed ++ [tradeOf x fill now]).map
      ClosedTrade.costUsd).sum = e.deployedUsd + (e.closed.map ClosedTrade.costUsd).sum + 0
    rw [List.map_append, List.sum_append, List.map_singleton, List.sum_singleton]
    show e.deployedUsd - x.cost + ((e.closed.map ClosedTrade.costUsd).sum + x.cost) = _
    ring
  · rw [(fields_of_trading hclose).closed, hsell]
    exact (add_zero _).symm
  · rw [(fields_of_trading hclose).closed, hsell]
    show ((e.closed ++ [tradeOf x fill now]).map ClosedTrade.proceedsUsd).sum = _
    rw [List.map_append, List.sum_append, List.map_singleton, List.sum_singleton]
    rfl

theorem Step.accounts {ex : Executor σ} {ev : Event} {phase : Phase}
    (hstep : Step ex.recorded ev phase e e') (h : Accounts e) : Accounts e' := by
  cases hstep with
  | note e mint action detail => exact h.of_fields rfl rfl rfl
  | refresh e => exact h.of_fields rfl rfl rfl
  | slice e launch budgetUsd hev hopen hwindow hroom =>
      have hgranted : Accounts
          (e.withRisk ((e.risk.refresh launch.createdAt).pushOrder launch.createdAt)) :=
        h.of_fields rfl rfl rfl
      exact hgranted.sendSlice ex _ _ _
  | tick e p pos hev hpos hstay => exact h.of_fields rfl rfl rfl
  | tickExit e p pos d hev hpos hexit =>
      have hticked : Accounts (e.ticked p pos) := h.of_fields rfl rfl rfl
      exact hticked.closePosition ex _ _
  | timeExit e pos x hpos hdue => exact h.closePosition ex _ _
  | page e kind detail => exact h.of_fields rfl rfl rfl

/-- Whatever the executor charges on a fill goes into the ledger once: over every run, the
costs and the proceeds add up to those of the filled orders. -/
theorem accounts_run (cfg : Config) (ex : Executor σ) (st : σ) (audit : AuditLog) (today : Int)
    (ds : List Delivery) : Accounts (run ex.recorded (Engine.new cfg (st, []) audit today) ds) := by
  refine run_of_steps (fun _ _ _ _ hstep _ h => hstep.accounts h) (keyed_new cfg _ audit today) ?_
    ds
  exact ⟨add_zero _, rfl⟩

end Engine

namespace Live

variable {ω : Type} {crates : Crates} {up : Upstream ω}

/-! ## One order -/

/-- A filled order, by its tier, the fee of its fill and the lamports it committed. -/
structure Charged where
  tier : TipTier
  feeUsd : Decimal
  committed : Nat

/-- What a filled order settles at. -/
theorem settle_fee {o : Order} {staged : Staged} {s s' : Live ω} {fill : Fill}
    (htier : staged.tier = o.tier) (h : (settle crates up o staged).exec s = (.ok fill, s')) :
    fill.feeUsd = s.ex.tipFeeUsd o.tier (!s.ex.simulateOnly) := by
  cases o with
  | buy req => exact (settleBuy_amounts h).2.2.2.2
  | sell req => exact (settleSell_amounts h).2.2.2

/-- The signing commits nothing. -/
theorem signBundle_commits {swapTx : SwapTx} {tier : TipTier}
    {m m₁ : Live (ω × List Exchange)} {txs : List SignedTx}
    (hsign : (signBundle crates up.recorded swapTx tier).exec m = (.ok txs, m₁)) :
    ∃ quiet, exchanges m₁ = exchanges m ++ quiet ∧ committedLamports quiet = 0 := by
  obtain ⟨quiet, hquiet, hkind⟩ := only_signBundle crates up swapTx tier m
  rw [hsign] at hquiet
  refine ⟨quiet, hquiet, committedLamports_eq_zero fun x hx => ?_⟩
  rw [hkind x hx]
  decide

variable (crates up) in
/-- The submission commits the tip of the bundle, and nothing after it commits anything. -/
theorem submit_settle_commits (o : Order) (staged : Staged) (txs : List SignedTx)
    (m : Live (ω × List Exchange)) :
    ∃ last, exchanges ((submitBundle crates up.recorded txs >>= fun _ =>
        settle crates up.recorded o staged).exec m).2 = exchanges m ++ last ∧
      committedLamports last = tipLamports txs := by
  obtain ⟨last, hlast, id, response, later, rfl, hunsent⟩ :=
    submit_settle_log crates up o staged txs m
  obtain ⟨last', hlast', hkinds⟩ := only_submit_settle crates up o staged txs m
  obtain rfl : last' = ⟨.sendBundle id txs, response⟩ :: later :=
    List.append_cancel_left (hlast'.symm.trans hlast)
  have hlater : committedLamports later = 0 := by
    refine committedLamports_eq_zero fun x hx => ⟨?_, ?_⟩
    · intro hkind
      have hmem := hkinds x (List.mem_cons_of_mem _ hx)
      rw [hkind] at hmem
      exact absurd hmem (by decide)
    · exact fun hkind => hunsent ⟨x, hx, hkind⟩
  refine ⟨_, hlast, ?_⟩
  rw [committedLamports_cons, hlater]
  rfl

/-- A filled order that was sent has committed the price of its tier twice, and its fill is
charged once. -/
theorem place_charged {o : Order} {s s' : Live (ω × List Exchange)} {fill : Fill}
    (hlive : s.ex.simulateOnly = false) (h : (place crates up.recorded o).exec s = (.ok fill, s')) :
    fill.feeUsd = lamportsToUsd (s.ex.jito.tipFor o.tier) s.ex.solUsd ∧
      ∃ new, exchanges s' = exchanges s ++ new ∧
        committedLamports new = 2 * (s.ex.jito.tipFor o.tier).toNat := by
  rw [place_stages] at h
  obtain ⟨staged, m, hstage, h⟩ := exec_bind_eq_ok h
  obtain ⟨new, hnew, hrequested⟩ := stage_requested hstage
  have htier : staged.tier = o.tier := by
    obtain ⟨_, _, _, _, _, _, -, -, -, -, -, htier⟩ := hrequested
    exact htier
  obtain ⟨signatures, m', hsend, h⟩ := exec_bind_eq_ok h
  have hstaged : settings m = settings s :=
    settings_of_exec (blind_settings.stage crates up.recorded _) hstage
  have hsettings : settings m' = settings s :=
    (settings_of_exec (steady_signAndMaybeSend crates up.recorded _ _) hsend).trans hstaged
  constructor
  · have hfee : fill.feeUsd = (settings s).tipFeeUsd o.tier (!(settings s).simulateOnly) := by
      rw [← hsettings]
      exact settle_fee htier h
    have hsent : (!(settings s).simulateOnly) = true := by
      show (!s.ex.simulateOnly) = true
      rw [hlive]
      rfl
    rw [hfee, hsent]
    rfl
  · -- the staging commits the priority fee, the submission the tip
    obtain ⟨txs, m₁, hsign, hsend⟩ := exec_bind_eq_ok hsend
    have htips := (signBundle_eq_ok hsign).tipLamports
    have hjito : m.ex.jito = s.ex.jito := by
      show (settings m).jito = (settings s).jito
      rw [hstaged]
    rw [hjito, htier] at htips
    have hsim : m₁.ex.simulateOnly = false := by
      have hsigned := settings_of_exec (steady_signBundle crates up.recorded _ _) hsign
      show (settings m₁).simulateOnly = false
      rw [hsigned, hstaged]
      exact hlive
    rw [exec_get_bind, hsim] at hsend
    have hsubmit : (submitBundle crates up.recorded txs).exec m₁ = (.ok signatures, m') := hsend
    obtain ⟨quiet, hquiet, hsilent⟩ := signBundle_commits hsign
    obtain ⟨last, hlast, htip⟩ := submit_settle_commits crates up o staged txs m₁
    rw [exec_bind_ok hsubmit, h] at hlast
    have hall : exchanges s' = exchanges s ++ (new ++ (quiet ++ last)) := by
      have hlast₁ : exchanges s' = exchanges m₁ ++ last := hlast
      rw [hlast₁, hquiet, hnew]
      simp only [List.append_assoc]
    refine ⟨_, hall, ?_⟩
    rw [committedLamports_append, committedLamports_append, hrequested.committed, hsilent, htip,
      htips]
    omega

/-! ## Runs -/

variable (crates up) in
/-- The filled orders of a run. -/
def charges : Live (ω × List Exchange) → List (Nat × Order) → List Charged
  | _, [] => []
  | s, d :: rest =>
      let (r, s') := (place crates up.recorded d.2).exec (s.sleep d.1)
      match r with
      | .ok fill =>
          { tier := d.2.tier
            feeUsd := fill.feeUsd
            committed := committedLamports ((exchanges s').drop (exchanges s).length) } ::
            charges s' rest
      | .error _ => charges s' rest

/-- What lamports are worth. -/
def valueUsd (lamports : Nat) (solUsd : Decimal) : Decimal := lamports / lamportsPerSol * solUsd

theorem valueUsd_add (a b : Nat) (solUsd : Decimal) :
    valueUsd (a + b) solUsd = valueUsd a solUsd + valueUsd b solUsd := by
  unfold valueUsd
  push_cast
  ring

theorem valueUsd_eq_zero_iff {n : Nat} {solUsd : Decimal} (hsol : 0 < solUsd) :
    valueUsd n solUsd = 0 ↔ n = 0 := by
  have hscale : (lamportsPerSol : Decimal) ≠ 0 := by norm_num [lamportsPerSol]
  unfold valueUsd
  rw [mul_eq_zero, div_eq_zero_iff]
  constructor
  · rintro ((hn | hzero) | hzero)
    · exact_mod_cast hn
    · exact absurd hzero hscale
    · exact absurd hzero hsol.ne'
  · rintro rfl
    simp

/-- Every filled order of a run is charged its price once and commits it twice. -/
theorem charges_once (orders : List (Nat × Order)) : ∀ s : Live (ω × List Exchange),
    s.ex.simulateOnly = false → ∀ c ∈ charges crates up s orders,
      c.feeUsd = valueUsd (s.ex.jito.tipFor c.tier).toNat s.ex.solUsd ∧
        c.committed = 2 * (s.ex.jito.tipFor c.tier).toNat := by
  induction orders with
  | nil =>
      intro s _ c hc
      cases hc
  | cons d rest ih =>
      intro s hlive c hc
      unfold charges at hc
      rcases hplace : (place crates up.recorded d.2).exec (s.sleep d.1) with ⟨r, s'⟩
      rw [hplace] at hc
      have hsame : settings s' = settings s :=
        (settings_of_exec (steady_place crates up.recorded d.2) hplace :
          settings s' = settings (s.sleep d.1))
      have hlater := ih s' (by
        show (settings s').simulateOnly = false
        rw [hsame]
        exact hlive)
      have hjito : s'.ex.jito = s.ex.jito := by
        show (settings s').jito = (settings s).jito
        rw [hsame]
      have hsol : s'.ex.solUsd = s.ex.solUsd := by
        show (settings s').solUsd = (settings s).solUsd
        rw [hsame]
      rw [hjito, hsol] at hlater
      cases r with
      | error e => exact hlater c hc
      | ok fill =>
          rcases List.mem_cons.mp hc with rfl | hmem
          · obtain ⟨hfee, new, hlog, hcommitted⟩ :=
              place_charged (s := s.sleep d.1) hlive hplace
            have hnew : (exchanges s').drop (exchanges s).length = new := by
              rw [hlog]
              exact List.drop_left
            refine ⟨hfee, ?_⟩
            dsimp only
            rw [hnew]
            exact hcommitted
          · exact hlater c hmem

/-- What commits twice its price commits no more than it is charged exactly if it costs
nothing. -/
theorem charged_iff {c : Charged} {tip : Nat} {solUsd : Decimal} (hsol : 0 < solUsd)
    (hfee : c.feeUsd = valueUsd tip solUsd) (hcommitted : c.committed = 2 * tip) :
    c.feeUsd = valueUsd c.committed solUsd ↔ tip = 0 := by
  rw [hfee, hcommitted, Nat.two_mul, valueUsd_add, left_eq_add, valueUsd_eq_zero_iff hsol]

/-- The same for the sums over a run. -/
theorem charged_sum {charged : List Charged} {tip : TipTier → Nat} {solUsd : Decimal}
    (h : ∀ c ∈ charged, c.feeUsd = valueUsd (tip c.tier) solUsd ∧ c.committed = 2 * tip c.tier) :
    (charged.map Charged.feeUsd).sum = valueUsd (charged.map fun c => tip c.tier).sum solUsd ∧
      (charged.map Charged.committed).sum = 2 * (charged.map fun c => tip c.tier).sum := by
  induction charged with
  | nil => simp [valueUsd]
  | cons c rest ih =>
      obtain ⟨hfee, hcommitted⟩ := h c (by simp)
      obtain ⟨hfees, hall⟩ := ih fun c' hc' => h c' (List.mem_cons_of_mem _ hc')
      simp only [List.map_cons, List.sum_cons]
      rw [hfee, hfees, hcommitted, hall, valueUsd_add]
      exact ⟨rfl, by omega⟩

/-- Over a run of real orders at any price of SOL: each fee covers what its order commits,
and their sums agree, exactly if every filled order was of a tier without a tip. -/
theorem fees_cover_iff (s : Live (ω × List Exchange)) (orders : List (Nat × Order))
    (hlive : s.ex.simulateOnly = false) (hsol : 0 < s.ex.solUsd) :
    ((∀ c ∈ charges crates up s orders, c.feeUsd = valueUsd c.committed s.ex.solUsd) ↔
        ∀ c ∈ charges crates up s orders, s.ex.jito.tipFor c.tier = 0) ∧
      (((charges crates up s orders).map Charged.feeUsd).sum =
          valueUsd ((charges crates up s orders).map Charged.committed).sum s.ex.solUsd ↔
        ∀ c ∈ charges crates up s orders, s.ex.jito.tipFor c.tier = 0) := by
  have honce : ∀ c ∈ charges crates up s orders,
      c.feeUsd = valueUsd (s.ex.jito.tipFor c.tier).toNat s.ex.solUsd ∧
        c.committed = 2 * (s.ex.jito.tipFor c.tier).toNat := charges_once orders s hlive
  have hzero : ∀ tier, (s.ex.jito.tipFor tier).toNat = 0 ↔ s.ex.jito.tipFor tier = 0 := fun tier =>
    ⟨fun h => UInt64.toNat_inj.mp h, fun h => by rw [h]; rfl⟩
  refine ⟨forall₂_congr fun c hc => ?_, ?_⟩
  · rw [charged_iff hsol (honce c hc).1 (honce c hc).2, hzero]
  · obtain ⟨hfees, hall⟩ := @charged_sum (charges crates up s orders)
      (fun tier => (s.ex.jito.tipFor tier).toNat) s.ex.solUsd honce
    rw [hfees, hall, Nat.two_mul, valueUsd_add, left_eq_add, valueUsd_eq_zero_iff hsol,
      List.sum_eq_zero_iff]
    simp only [List.mem_map, forall_exists_index, and_imp, forall_apply_eq_imp_iff₂, hzero]

/-- The buy of the tests. -/
theorem fees_cover_mock :
    ∃ ex, Mock.executor = .ok ex ∧
      ((∀ c ∈ charges Mock.crates (Mock.upstream Mock.landed Mock.fiveTokens)
            (record ⟨ex, 0, ()⟩) [(0, .buy Mock.buyOrder)],
          c.feeUsd = valueUsd c.committed ex.solUsd) ↔
        ∀ c ∈ charges Mock.crates (Mock.upstream Mock.landed Mock.fiveTokens)
          (record ⟨ex, 0, ()⟩) [(0, .buy Mock.buyOrder)], ex.jito.tipFor c.tier = 0) := by
  refine ⟨_, rfl, ?_⟩
  exact (fees_cover_iff (record ⟨_, 0, ()⟩) [(0, .buy Mock.buyOrder)] rfl (by decide +kernel)).1

/-- A buy that commits two million lamports, at a hundred dollars per SOL, is charged for
one. -/
theorem mock_buy_undercharged :
    ∃ ex, Mock.executor = .ok ex ∧ ex.simulateOnly = false ∧ 0 < ex.solUsd ∧
      ¬ ∀ c ∈ charges Mock.crates (Mock.upstream Mock.landed Mock.fiveTokens)
          (record ⟨ex, 0, ()⟩) [(0, .buy Mock.buyOrder)],
        c.feeUsd = valueUsd c.committed ex.solUsd := by
  refine ⟨_, rfl, ?_⟩
  decide +kernel

end Live

end HfmcBot
