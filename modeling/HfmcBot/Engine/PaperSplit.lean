import HfmcBot.Engine.PaperFills
import HfmcBot.Slices

/-!
# Splitting an entry, on paper

A larger order slips at least as far as a smaller one at the same price and depth, so
the slices of a budget buy at least what the budget buys in one go.  Only the roundings
of the quantities can take some of it back, half a unit of the last place each.

* `effectiveSlippagePct_mono`: the slippage of a buy grows with its size;
* `split_buys_no_fewer`: the slices buy as many tokens, up to the roundings.
-/

namespace HfmcBot

open Foundation

/-- Slippage grows with the size of an order. -/
theorem effectiveSlippagePct_mono {base coeff cap liquidityUsd x y : Decimal}
    (hcoeff : 0 ≤ coeff) (hx : 0 < x) (hxy : x ≤ y) :
    effectiveSlippagePct base coeff cap x liquidityUsd ≤
      effectiveSlippagePct base coeff cap y liquidityUsd := by
  have hy : 0 < y := hx.trans_le hxy
  unfold effectiveSlippagePct
  by_cases hdepth : liquidityUsd ≤ 0
  · rw [if_pos (Or.inl hdepth), if_pos (Or.inl hdepth)]
  · have hliquidity : 0 < liquidityUsd := not_le.mp hdepth
    rw [if_neg (not_or.mpr ⟨hdepth, not_le.mpr hx⟩), if_neg (not_or.mpr ⟨hdepth, not_le.mpr hy⟩)]
    apply min_le_min_right
    have hshare : x / liquidityUsd ≤ y / liquidityUsd :=
      div_le_div_of_nonneg_right hxy hliquidity.le
    have himpact : coeff * (x / liquidityUsd * 100) ≤ coeff * (y / liquidityUsd * 100) :=
      mul_le_mul_of_nonneg_left (mul_le_mul_of_nonneg_right hshare (by norm_num)) hcoeff
    linarith

/-- Rounding a list of values moves their sum by at most half a unit each. -/
theorem sum_roundDp_ge (dp : Nat) (xs : List Decimal) :
    xs.sum - xs.length * halfUnit dp ≤ (xs.map (roundDp dp)).sum := by
  induction xs with
  | nil => simp
  | cons x xs ih =>
      obtain ⟨hlo, -⟩ := abs_le.mp (abs_roundDp_sub_le dp x)
      rw [List.map_cons, List.sum_cons, List.sum_cons, List.length_cons]
      push_cast
      linarith

namespace PaperExecutor

/-- No failure is ever drawn at a rate of zero. -/
theorem wouldFail_zero (orderId : String) : wouldFail orderId 0 = false := rfl

section Split

variable {cfg : Config} {req order : BuyRequest}

/-- A buy slips upwards, so its price stays positive. -/
theorem askedPrice_pos (h : cfg.Checked) (hprice : 0 < req.priceUsd) :
    0 < (new cfg).askedPrice (.buy req) := by
  have hslip : 0 ≤ (new cfg).slippageOf (.buy req) :=
    effectiveSlippagePct_nonneg h.slippage_nonneg h.impact_nonneg h.max_slippage_pos.le _ _
  show 0 < req.priceUsd * (1 + (new cfg).slippageOf (.buy req) / 100)
  positivity

/-- Without injected failures, every buy with a budget and a price fills. -/
theorem new_buy (h : cfg.Checked) (hbudget : 0 < req.budgetUsd) (hprice : 0 < req.priceUsd) :
    (new cfg).buy req = .ok ((new cfg).settled (.buy req)) :=
  ((new cfg).answer_eq_ok_iff (.buy req) _).mpr
    ⟨⟨wouldFail_zero _, hbudget, hprice, askedPrice_pos h hprice⟩, rfl⟩

/-- A smaller buy at the same quote asks for a price that is no higher. -/
theorem askedPrice_le (h : cfg.Checked) (hprice : 0 < req.priceUsd)
    (hquote : order.priceUsd = req.priceUsd ∧ order.liquidityUsd = req.liquidityUsd)
    (hpos : 0 < order.budgetUsd) (hle : order.budgetUsd ≤ req.budgetUsd) :
    (new cfg).askedPrice (.buy order) ≤ (new cfg).askedPrice (.buy req) := by
  have hslip : (new cfg).slippageOf (.buy order) ≤ (new cfg).slippageOf (.buy req) := by
    show effectiveSlippagePct _ _ _ order.budgetUsd order.liquidityUsd ≤ _
    rw [hquote.2]
    exact effectiveSlippagePct_mono h.impact_nonneg hpos hle
  show order.priceUsd * (1 + (new cfg).slippageOf (.buy order) / 100) ≤
    req.priceUsd * (1 + (new cfg).slippageOf (.buy req) / 100)
  rw [hquote.1]
  apply mul_le_mul_of_nonneg_left _ hprice.le
  linarith

/-- So it asks for at least its share of the tokens. -/
theorem share_le_askedQty (h : cfg.Checked) (hprice : 0 < req.priceUsd)
    (hquote : order.priceUsd = req.priceUsd ∧ order.liquidityUsd = req.liquidityUsd)
    (hpos : 0 < order.budgetUsd) (hle : order.budgetUsd ≤ req.budgetUsd) :
    order.budgetUsd / (new cfg).askedPrice (.buy req) ≤ (new cfg).askedQty (.buy order) := by
  have hslice : 0 < (new cfg).askedPrice (.buy order) := by
    apply askedPrice_pos h
    rw [hquote.1]
    exact hprice
  exact div_le_div_of_nonneg_left hpos.le hslice (askedPrice_le h hprice hquote hpos hle)

/-- Over all slices, the shares make up what the whole budget asks for. -/
theorem askedQty_le_sum (h : cfg.Checked) (hprice : 0 < req.priceUsd) {orders : List BuyRequest}
    (hquote : ∀ order ∈ orders,
      order.priceUsd = req.priceUsd ∧ order.liquidityUsd = req.liquidityUsd)
    (hpos : ∀ order ∈ orders, 0 < order.budgetUsd)
    (hle : ∀ order ∈ orders, order.budgetUsd ≤ req.budgetUsd) :
    (orders.map fun order => order.budgetUsd).sum / (new cfg).askedPrice (.buy req) ≤
      (orders.map fun order => (new cfg).askedQty (.buy order)).sum := by
  induction orders with
  | nil => simp
  | cons order rest ih =>
      have hrest := ih (fun o ho => hquote o (List.mem_cons_of_mem _ ho))
        (fun o ho => hpos o (List.mem_cons_of_mem _ ho))
        (fun o ho => hle o (List.mem_cons_of_mem _ ho))
      have hfirst := share_le_askedQty h hprice (hquote order List.mem_cons_self)
        (hpos order List.mem_cons_self) (hle order List.mem_cons_self)
      rw [List.map_cons, List.map_cons, List.sum_cons, List.sum_cons, add_div]
      exact add_le_add hfirst hrest

end Split

/-- **Splitting an entry buys no fewer tokens**: whatever the price, the liquidity and
the number of slices, every slice and the whole budget fill, and the slices bring at
least the quantity of the whole, less half a unit of the twelfth place for each rounding. -/
theorem split_buys_no_fewer {cfg : Config} (hcfg : cfg.Accepted) {req : BuyRequest}
    (hbudget : 0 < req.budgetUsd) (hprice : 0 < req.priceUsd) {n : Nat} (hn : 1 ≤ n)
    {orders : List BuyRequest}
    (hslices : orders.map (fun order => order.budgetUsd) = splitIntoSlices req.budgetUsd n)
    (hquote : ∀ order ∈ orders,
      order.priceUsd = req.priceUsd ∧ order.liquidityUsd = req.liquidityUsd) :
    ∃ (whole : Fill) (fills : List Fill),
      (new cfg).buy req = .ok whole ∧ orders.map (new cfg).buy = fills.map .ok ∧
        whole.qty - (n + 1) / 2 / 10 ^ 12 ≤ (fills.map fun fill => fill.qty).sum := by
  have hchecked := hcfg.checked
  have hpos : ∀ order ∈ orders, 0 < order.budgetUsd := by
    intro order horder
    apply splitIntoSlices_pos hbudget n
    rw [← hslices]
    exact List.mem_map_of_mem horder
  have hsum : (orders.map fun order => order.budgetUsd).sum = req.budgetUsd := by
    rw [hslices]
    exact sum_splitIntoSlices _ hn
  have hle : ∀ order ∈ orders, order.budgetUsd ≤ req.budgetUsd := by
    intro order horder
    rw [← hsum]
    apply List.single_le_sum _ _ (List.mem_map_of_mem horder)
    intro size hsize
    obtain ⟨o, ho, rfl⟩ := List.mem_map.mp hsize
    exact (hpos o ho).le
  have hcount : (orders.length : Decimal) ≤ n := by
    have hlength := length_splitIntoSlices_le req.budgetUsd hn
    rw [← hslices, List.length_map] at hlength
    exact_mod_cast hlength
  refine ⟨(new cfg).settled (.buy req),
    orders.map (fun order => (new cfg).settled (.buy order)), new_buy hchecked hbudget hprice,
    ?_, ?_⟩
  · rw [List.map_map]
    apply List.map_congr_left
    intro order horder
    apply new_buy hchecked (hpos order horder)
    rw [(hquote order horder).1]
    exact hprice
  · have hasked := askedQty_le_sum hchecked hprice hquote hpos hle
    rw [hsum] at hasked
    have hround := sum_roundDp_ge fillDp
      (orders.map fun order => (new cfg).askedQty (.buy order))
    rw [List.length_map, List.map_map] at hround
    obtain ⟨-, hwhole⟩ := abs_le.mp
      (abs_roundDp_sub_le fillDp ((new cfg).askedQty (.buy req)))
    have hunit : 0 ≤ halfUnit fillDp := by
      unfold halfUnit
      positivity
    have hloss : (orders.length : Decimal) * halfUnit fillDp ≤ n * halfUnit fillDp :=
      mul_le_mul_of_nonneg_right hcount hunit
    have hbound : ((n : Decimal) + 1) / 2 / 10 ^ 12 = n * halfUnit fillDp + halfUnit fillDp := by
      unfold halfUnit fillDp
      ring
    rw [List.map_map, hbound]
    show roundDp fillDp ((new cfg).askedQty (.buy req)) - _ ≤
      (orders.map (roundDp fillDp ∘ fun order => (new cfg).askedQty (.buy order))).sum
    have hqty : req.budgetUsd / (new cfg).askedPrice (.buy req) =
      (new cfg).askedQty (.buy req) := rfl
    linarith

/-- A hundred dollars for one token, in one order. -/
def wholeEntry : BuyRequest := Engine.sliceRequest (freshLaunch "A" 0 1) 5 100 "A#1"

/-- The same in the three slices of the funnel. -/
def threeSlices : List BuyRequest :=
  [Engine.sliceRequest (freshLaunch "A" 0 1) 5 33 "A#1",
    Engine.sliceRequest (freshLaunch "A" 0 1) 5 33 "A#2",
    Engine.sliceRequest (freshLaunch "A" 0 1) 5 34 "A#3"]

theorem split_buys_no_fewer_in_three :
    ∃ (whole : Fill) (fills : List Fill),
      (new .paperDefaults).buy wholeEntry = .ok whole ∧
        threeSlices.map (new .paperDefaults).buy = fills.map .ok ∧
        whole.qty - ((3 : Nat) + 1) / 2 / 10 ^ 12 ≤ (fills.map fun fill => fill.qty).sum :=
  split_buys_no_fewer Config.paperDefaults_accepted (by decide +kernel) (by decide +kernel)
    (by decide) (by decide +kernel) (by decide +kernel)

end PaperExecutor

end HfmcBot
