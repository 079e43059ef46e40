import HfmcBot.Engine.Desk
import HfmcBot.Grid

/-!
# What the paper executor settles

An order that the paper executor takes asks for a price, the reference price moved by
the slippage, and for a quantity.  Both are rounded, then their product, then the fee;
whether they are positive was checked before the first of these roundings.

* `answer_eq_ok_iff`: which orders fill, and with what;
* `settled_real_iff`: the fill is a real one exactly if what was asked for survives the
  roundings;
* `paper_fills_real`: so do the positions of a paper run, if its buys do.
-/

namespace HfmcBot

open Foundation

/-- The reference price of an order. -/
def Order.refPrice : Order → Decimal
  | .buy req => req.priceUsd
  | .sell req => req.priceUsd

/-- A fill that moved tokens for money. -/
structure Fill.Real (fill : Fill) : Prop where
  qty : 0 < fill.qty
  price : 0 < fill.priceUsd
  notional : 0 < fill.notionalUsd
  fee : 0 ≤ fill.feeUsd

/-- Slippage is never negative. -/
theorem effectiveSlippagePct_nonneg {base coeff cap : Decimal} (hbase : 0 ≤ base)
    (hcoeff : 0 ≤ coeff) (hcap : 0 ≤ cap) (notionalUsd liquidityUsd : Decimal) :
    0 ≤ effectiveSlippagePct base coeff cap notionalUsd liquidityUsd := by
  unfold effectiveSlippagePct
  split
  · exact le_min hbase hcap
  · rename_i hdepth
    obtain ⟨hliquidity, hnotional⟩ := not_or.mp hdepth
    have hshare : 0 ≤ notionalUsd / liquidityUsd :=
      div_nonneg (not_le.mp hnotional).le (not_le.mp hliquidity).le
    apply le_min _ hcap
    positivity

namespace PaperExecutor

/-- The executor's answer to an order of either side. -/
def answer (px : PaperExecutor) : Order → Answer
  | .buy req => px.buy req
  | .sell req => px.sell req

/-- The slippage of an order, from its size and the depth it quotes. -/
def slippageOf (px : PaperExecutor) : Order → Decimal
  | .buy req =>
      effectiveSlippagePct px.slippagePct px.impactCoeff px.maxSlippagePct req.budgetUsd
        req.liquidityUsd
  | .sell req =>
      effectiveSlippagePct px.slippagePct px.impactCoeff px.maxSlippagePct
        (req.qty * req.priceUsd) req.liquidityUsd

/-- The price an order asks for. -/
def askedPrice (px : PaperExecutor) (order : Order) : Decimal :=
  slippedPrice order.side order.refPrice (px.slippageOf order)

/-- The quantity it asks for. -/
def askedQty (px : PaperExecutor) : Order → Decimal
  | .buy req => req.budgetUsd / px.askedPrice (.buy req)
  | .sell req => req.qty

/-- The size of an order: the budget of a buy, the quantity of a sell. -/
def sizeOf : Order → Decimal
  | .buy req => req.budgetUsd
  | .sell req => req.qty

/-- The executor takes the order: no failure is drawn for its id, and size, reference
price and slipped price are positive. -/
def Takes (px : PaperExecutor) (order : Order) : Prop :=
  wouldFail order.orderId px.failureBps = false ∧ 0 < sizeOf order ∧ 0 < order.refPrice ∧
    0 < px.askedPrice order

instance (px : PaperExecutor) (order : Order) : Decidable (px.Takes order) := by
  unfold Takes
  infer_instance

/-- What the order asks for survives the roundings: price, quantity and their product
are each above half a unit of the last place. -/
def Resolves (px : PaperExecutor) (order : Order) : Prop :=
  halfUnit fillDp < px.askedPrice order ∧ halfUnit fillDp < px.askedQty order ∧
    halfUnit fillDp <
      roundDp fillDp (px.askedPrice order) * roundDp fillDp (px.askedQty order)

instance (px : PaperExecutor) (order : Order) : Decidable (px.Resolves order) := by
  unfold Resolves
  infer_instance

/-- The notional an order settles at. -/
def settledNotional (px : PaperExecutor) (order : Order) : Decimal :=
  roundDp fillDp (roundDp fillDp (px.askedPrice order) * roundDp fillDp (px.askedQty order))

/-- The fill of an order. -/
def settled (px : PaperExecutor) (order : Order) : Fill where
  orderId := order.orderId
  mint := order.mint
  side := order.side
  qty := roundDp fillDp (px.askedQty order)
  priceUsd := roundDp fillDp (px.askedPrice order)
  notionalUsd := px.settledNotional order
  feeUsd := roundDp fillDp (px.settledNotional order * px.feeBps / 10000)
  ts := order.now

section Answer

variable (px : PaperExecutor) (order : Order) (fill : Fill)

/-- `fill` settles a price and a quantity that are positive. -/
theorem fill_eq_ok_iff (side : Side) (mint : Mint) (qty refPrice eff : Decimal) (now : DateTime)
    (orderId : String) :
    px.fill side mint qty refPrice eff now orderId = .ok fill ↔
      (0 < refPrice ∧ 0 < qty ∧ 0 < slippedPrice side refPrice eff) ∧
        fill =
          { orderId := orderId
            mint := mint
            side := side
            qty := roundDp fillDp qty
            priceUsd := roundDp fillDp (slippedPrice side refPrice eff)
            notionalUsd := roundDp fillDp
              (roundDp fillDp (slippedPrice side refPrice eff) * roundDp fillDp qty)
            feeUsd := roundDp fillDp (roundDp fillDp
              (roundDp fillDp (slippedPrice side refPrice eff) * roundDp fillDp qty) *
                px.feeBps / 10000)
            ts := now } := by
  have hisOk := px.fill_isOk_iff side mint qty refPrice eff now orderId
  constructor
  · intro h
    have hgood := hisOk.mp (by rw [h]; rfl)
    refine ⟨hgood, ?_⟩
    unfold PaperExecutor.fill at h
    dsimp only at h
    split_ifs at h
    exact (Except.ok.inj h).symm
  · rintro ⟨⟨href, hqty, hslipped⟩, rfl⟩
    unfold PaperExecutor.fill
    rw [if_neg (not_or.mpr ⟨not_le.mpr href, not_le.mpr hqty⟩)]
    dsimp only
    rw [if_neg (not_le.mpr hslipped)]

/-- A failure that is drawn is the answer. -/
theorem answer_of_drawn (h : wouldFail order.orderId px.failureBps = true) :
    px.answer order = simulatedFailure order.orderId := by
  cases order with
  | buy req => exact if_pos h
  | sell req => exact if_pos h

theorem askedQty_pos (hsize : 0 < sizeOf order) (hprice : 0 < px.askedPrice order) :
    0 < px.askedQty order := by
  cases order with
  | buy req => exact div_pos hsize hprice
  | sell req => exact hsize

/-- Any other order settles at what it asks for, if it has a size. -/
theorem answer_of_spared (h : wouldFail order.orderId px.failureBps = false) :
    px.answer order = .ok fill ↔
      0 < sizeOf order ∧ px.fill order.side order.mint (px.askedQty order) order.refPrice
        (px.slippageOf order) order.now order.orderId = .ok fill := by
  have hspared : ¬ wouldFail order.orderId px.failureBps = true := by simp [h]
  cases order with
  | buy req =>
      have hsampled : ¬ wouldFail req.orderId px.failureBps = true := hspared
      show px.buy req = .ok fill ↔ _
      unfold buy
      rw [if_neg hsampled]
      split
      · rename_i hoff
        constructor
        · intro hanswer
          exact absurd hanswer (by simp)
        · rintro ⟨hsize, hfill⟩
          have href := ((px.fill_eq_ok_iff _ _ _ _ _ _ _ _).mp hfill).1.1
          rcases hoff with hle | hle
          · exact absurd hsize (not_lt.mpr hle)
          · exact absurd href (not_lt.mpr hle)
      · rename_i hgood
        have hsize : 0 < req.budgetUsd := not_le.mp (not_or.mp hgood).1
        exact (and_iff_right hsize).symm
  | sell req =>
      have hsampled : ¬ wouldFail req.orderId px.failureBps = true := hspared
      show px.sell req = .ok fill ↔ _
      unfold sell
      rw [if_neg hsampled]
      constructor
      · intro hfill
        exact ⟨((px.fill_eq_ok_iff _ _ _ _ _ _ _ _).mp hfill).1.2.1, hfill⟩
      · exact And.right

/-- Which orders fill, and with what. -/
theorem answer_eq_ok_iff :
    px.answer order = .ok fill ↔ px.Takes order ∧ fill = px.settled order := by
  unfold Takes
  cases hdrawn : wouldFail order.orderId px.failureBps with
  | true =>
      rw [answer_of_drawn px order hdrawn]
      simp [simulatedFailure]
  | false =>
      rw [answer_of_spared px order fill hdrawn, fill_eq_ok_iff]
      constructor
      · rintro ⟨hsize, ⟨href, -, hslipped⟩, rfl⟩
        exact ⟨⟨rfl, hsize, href, hslipped⟩, rfl⟩
      · rintro ⟨⟨-, hsize, href, hslipped⟩, rfl⟩
        exact ⟨hsize, ⟨href, px.askedQty_pos order hsize hslipped, hslipped⟩, rfl⟩

variable {px order fill}

/-- An order that is taken asks for a positive quantity. -/
theorem Takes.askedQty_pos (h : px.Takes order) : 0 < px.askedQty order :=
  px.askedQty_pos order h.2.1 h.2.2.2

theorem Takes.settledNotional_nonneg (h : px.Takes order) : 0 ≤ px.settledNotional order :=
  roundDp_nonneg _ (mul_nonneg (roundDp_nonneg _ h.2.2.2.le) (roundDp_nonneg _ h.askedQty_pos.le))

theorem Takes.fee_nonneg (h : px.Takes order) (hfee : 0 ≤ px.feeBps) :
    0 ≤ (px.settled order).feeUsd := by
  have hnotional := h.settledNotional_nonneg
  apply roundDp_nonneg
  positivity

/-- The fill of a taken order is a real one exactly if the order survives the
roundings. -/
theorem settled_real_iff (h : px.Takes order) (hfee : 0 ≤ px.feeBps) :
    (px.settled order).Real ↔ px.Resolves order := by
  constructor
  · rintro ⟨hqty, hprice, hnotional, -⟩
    exact ⟨(roundDp_pos_iff _).mp hprice, (roundDp_pos_iff _).mp hqty,
      (roundDp_pos_iff _).mp hnotional⟩
  · rintro ⟨hprice, hqty, hnotional⟩
    exact ⟨(roundDp_pos_iff _).mpr hqty, (roundDp_pos_iff _).mpr hprice,
      (roundDp_pos_iff _).mpr hnotional, h.fee_nonneg hfee⟩

variable (px order)

/-- Every fill of an order is a real one exactly if the order survives the roundings
whenever it is taken. -/
theorem answer_real_iff (hfee : 0 ≤ px.feeBps) :
    (∀ fill, px.answer order = .ok fill → fill.Real) ↔ (px.Takes order → px.Resolves order) := by
  constructor
  · intro hreal htakes
    exact (settled_real_iff htakes hfee).mp
      (hreal _ ((px.answer_eq_ok_iff order _).mpr ⟨htakes, rfl⟩))
  · intro hresolves fill hfill
    obtain ⟨htakes, rfl⟩ := (px.answer_eq_ok_iff order fill).mp hfill
    exact (settled_real_iff htakes hfee).mpr (hresolves htakes)

end Answer

theorem withFailureBps_fee_nonneg (cfg : Config) (failureBps : UInt64) :
    0 ≤ (withFailureBps cfg failureBps).feeBps := by
  show (0 : Decimal) ≤ (cfg.feeBps.toNat : Decimal)
  positivity

end PaperExecutor

/-! ## Paper runs -/

/-- Every position of the book has tokens and has cost money. -/
def Desk.Funded (d : Desk) : Prop :=
  ∀ mint pos, d.book.lookup mint = some pos → 0 < pos.qty ∧ 0 < pos.costUsd

theorem Desk.Funded.insert {d d' : Desk} (h : d.Funded) {mint : Mint} {pos : Position}
    (hpos : 0 < pos.qty ∧ 0 < pos.costUsd) (hbook : d'.book = d.book.insert mint pos) :
    d'.Funded := by
  intro m q hq
  rw [hbook] at hq
  rcases FiniteMap.lookup_insert_eq_some hq with ⟨-, rfl⟩ | ⟨-, hold⟩
  · exact hpos
  · exact h m q hold

/-- A slice goes on top of a funded position, or of an empty one. -/
theorem Desk.Funded.bought {d : Desk} (h : d.Funded) {fill : Fill} (launch : Launch)
    (hqty : 0 < fill.qty) (hcost : 0 < fill.notionalUsd + fill.feeUsd) :
    (d.bought fill launch).Funded := by
  have htarget : 0 ≤ (d.target fill launch).qty ∧ 0 ≤ (d.target fill launch).costUsd := by
    rcases d.target_cases fill launch with ⟨-, hnew⟩ | ⟨pos, hlookup, hold⟩
    · rw [hnew]
      exact ⟨le_refl _, le_refl _⟩
    · rw [hold]
      exact ⟨(h _ pos hlookup).1.le, (h _ pos hlookup).2.le⟩
  apply h.insert _ rfl
  exact ⟨add_pos_of_nonneg_of_pos htarget.1 hqty, add_pos_of_nonneg_of_pos htarget.2 hcost⟩

/-- Every buy on record that is taken survives the roundings. -/
def PaperExecutor.BuysResolve (px : PaperExecutor) (sent : List Sent) : Prop :=
  ∀ s ∈ sent, s.order.side = .buy → px.Takes s.order → px.Resolves s.order

section PaperRuns

variable {px : PaperExecutor} {cfg : Config} {ev : Event} {d d' : Desk}

/-- An order on record is one more that must survive. -/
theorem PaperExecutor.BuysResolve.of_record {order : Order} {answer : Answer}
    (h : px.BuysResolve (d.record order answer).sent) : px.BuysResolve d.sent := by
  intro s hs
  exact h s (List.mem_append_left _ hs)

theorem PaperExecutor.BuysResolve.last {order : Order} {answer : Answer}
    (h : px.BuysResolve (d.record order answer).sent) (hside : order.side = .buy)
    (htakes : px.Takes order) : px.Resolves order :=
  h ⟨order, answer⟩ (List.mem_append_right _ (List.mem_singleton.mpr rfl)) hside htakes

/-- A step at the desk keeps the book funded, as long as its buys survive. -/
theorem DeskStep.funded (hfee : 0 ≤ px.feeBps) (hstep : DeskStep px.executor cfg ev d d')
    (h : px.BuysResolve d.sent → d.Funded) : px.BuysResolve d'.sent → d'.Funded := by
  intro hbuys
  cases hstep with
  | tick p pos hev hpos =>
      have hheld := h hbuys p.mint pos hpos
      obtain ⟨-, -, -, hqty, hcost, -, -⟩ := Engine.tickPosition_sameHolding cfg p pos
      apply (h hbuys).insert _ rfl
      rw [hqty, hcost]
      exact hheld
  | buyFailed launch deadline slice orderId st err hev hbuy => exact h hbuys.of_record
  | buyFilled launch deadline slice orderId st fill hev hbuy =>
      have hfunded := h hbuys.of_record
      have hfill : px.answer (.buy (Engine.sliceRequest launch deadline slice orderId)) =
          .ok fill := hbuy
      obtain ⟨htakes, rfl⟩ := (px.answer_eq_ok_iff _ fill).mp hfill
      obtain ⟨hqty, -, hnotional, hfees⟩ :=
        (PaperExecutor.settled_real_iff htakes hfee).mpr (hbuys.last rfl htakes)
      exact hfunded.bought launch hqty (add_pos_of_pos_of_nonneg hnotional hfees)
  | sellFailed pos refPrice liquidityUsd reason orderId st err hpos hsell =>
      have hfunded := h hbuys.of_record
      have hheld : 0 < (pos.failExit cfg.maxExitAttempts).qty ∧
          0 < (pos.failExit cfg.maxExitAttempts).costUsd := hfunded _ pos hpos
      exact hfunded.insert hheld rfl
  | sellFilled pos refPrice liquidityUsd reason orderId st fill hpos hsell =>
      intro m q hq
      exact h hbuys.of_record m q (FiniteMap.lookup_erase_eq_some hq).2

end PaperRuns

/-- A sell of one token at a price far below the resolution. -/
def dustSell : Order :=
  .sell {
    mint := "A"
    qty := 1
    priceUsd := 1 / 10 ^ 13
    liquidityUsd := 8000
    now := 0
    orderId := "A#1"
    tier := .flipExit }

end HfmcBot
