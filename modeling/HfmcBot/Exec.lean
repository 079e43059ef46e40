import HfmcBot.Config

/-!
# Execution

The `Executor` trait of `exec.rs` and its paper implementation.

An executor is a state type with two state-passing functions, so any behaviour
over a run (answers that change over time, network results, a fixed script) is
some executor.  `recorded` wraps an executor so that its state also lists every
order it was sent and what it answered: the order history of a run is read off
there, and the engine itself carries no history of its own.
-/

namespace HfmcBot

/-- Monetary resolution of fills, in decimal places. -/
def fillDp : Nat := 12

inductive ExecError
  | rejected (msg : Text)
  | transport (msg : Text)
  | notArmed (msg : Text)
  deriving DecidableEq

def ExecError.text : ExecError → Text
  | .rejected msg => Fragment.str "fill rejected: " :: msg
  | .transport msg => Fragment.str "upstream transport failure: " :: msg
  | .notArmed msg => Fragment.str "live executor not armed: " :: msg

/-- `matches!(e, ExecError::Transport(_))`: the order state is unknown. -/
def ExecError.isTransport : ExecError → Bool
  | .transport _ => true
  | _ => false

/-- Urgency tier of an order. -/
inductive TipTier
  | entry
  | flipExit
  | convictionExit
  deriving DecidableEq

/-- The arguments of `Executor::buy`. -/
structure BuyRequest where
  mint : Mint
  budgetUsd : Decimal
  priceUsd : Decimal
  liquidityUsd : Decimal
  now : DateTime
  deadline : DateTime
  orderId : String
  deriving DecidableEq

/-- The arguments of `Executor::sell`. -/
structure SellRequest where
  mint : Mint
  qty : Decimal
  priceUsd : Decimal
  liquidityUsd : Decimal
  now : DateTime
  orderId : String
  tier : TipTier
  deriving DecidableEq

/-- What an executor answers to an order. -/
abbrev Answer := Except ExecError Fill

/-- Order router abstraction with internal state `σ`. -/
structure Executor (σ : Type) where
  buy : BuyRequest → σ → Answer × σ
  sell : SellRequest → σ → Answer × σ

/-! ## The order history -/

/-- An order as the executor received it. -/
inductive Order
  | buy (req : BuyRequest)
  | sell (req : SellRequest)
  deriving DecidableEq

namespace Order

def mint : Order → Mint
  | buy req => req.mint
  | sell req => req.mint

def orderId : Order → String
  | buy req => req.orderId
  | sell req => req.orderId

def now : Order → DateTime
  | buy req => req.now
  | sell req => req.now

def side : Order → Side
  | buy _ => .buy
  | sell _ => .sell

end Order

/-- An order sent to the executor, with the answer it got. -/
structure Sent where
  order : Order
  answer : Answer

/-- The order ended in an unknown state. -/
def Sent.unknown (s : Sent) : Bool :=
  match s.answer with
  | .ok _ => false
  | .error err => err.isTransport

/-- The order was filled. -/
def Sent.filled (s : Sent) : Bool :=
  match s.answer with
  | .ok _ => true
  | .error _ => false

/-- The same executor, keeping the list of the orders it was sent. -/
def Executor.recorded {σ : Type} (ex : Executor σ) : Executor (σ × List Sent) where
  buy req st :=
    ((ex.buy req st.1).1, (ex.buy req st.1).2, st.2 ++ [⟨.buy req, (ex.buy req st.1).1⟩])
  sell req st :=
    ((ex.sell req st.1).1, (ex.sell req st.1).2, st.2 ++ [⟨.sell req, (ex.sell req st.1).1⟩])

section Recorded

variable {σ : Type} (ex : Executor σ)

@[simp] theorem recorded_buy_fst (req : BuyRequest) (st : σ × List Sent) :
    (ex.recorded.buy req st).1 = (ex.buy req st.1).1 := rfl

@[simp] theorem recorded_sell_fst (req : SellRequest) (st : σ × List Sent) :
    (ex.recorded.sell req st).1 = (ex.sell req st.1).1 := rfl

theorem recorded_buy_log (req : BuyRequest) (st : σ × List Sent) :
    (ex.recorded.buy req st).2.2 = st.2 ++ [⟨.buy req, (ex.recorded.buy req st).1⟩] := rfl

theorem recorded_sell_log (req : SellRequest) (st : σ × List Sent) :
    (ex.recorded.sell req st).2.2 = st.2 ++ [⟨.sell req, (ex.recorded.sell req st).1⟩] := rfl

end Recorded

/-! ## What a run may assume of an executor -/

/-- Every buy that fills carries the requested mint. -/
def Executor.HonoursMint {σ : Type} (ex : Executor σ) : Prop :=
  ∀ req st fill st', ex.buy req st = (.ok fill, st') → fill.mint = req.mint

/-- Every buy that fills brings tokens and costs money. -/
def Executor.PaysForTokens {σ : Type} (ex : Executor σ) : Prop :=
  ∀ req st fill st', ex.buy req st = (.ok fill, st') →
    0 < fill.qty ∧ 0 < fill.notionalUsd + fill.feeUsd

/-- Every sell fills. -/
def Executor.SellsSucceed {σ : Type} (ex : Executor σ) : Prop :=
  ∀ req st, ∃ fill st', ex.sell req st = (.ok fill, st')

theorem Executor.HonoursMint.recorded {σ : Type} {ex : Executor σ} (h : ex.HonoursMint) :
    ex.recorded.HonoursMint := by
  intro req st fill st' hbuy
  have hfst : (ex.buy req st.1).1 = .ok fill := congrArg Prod.fst hbuy
  exact h req st.1 fill (ex.buy req st.1).2 (Prod.ext hfst rfl)

theorem Executor.SellsSucceed.recorded {σ : Type} {ex : Executor σ} (h : ex.SellsSucceed) :
    ex.recorded.SellsSucceed := by
  intro req st
  obtain ⟨fill, st', hsell⟩ := h req st.1
  exact ⟨fill, _, Prod.ext (congrArg Prod.fst hsell : (ex.sell req st.1).1 = .ok fill) rfl⟩

/-! ## A test double -/

/-- Every buy brings one token for a dollar, every sell fills at the quoted
price. -/
def Executor.oneToken : Executor Unit where
  buy req st :=
    (.ok {
      orderId := req.orderId
      mint := req.mint
      side := .buy
      qty := 1
      priceUsd := req.priceUsd
      notionalUsd := 1
      feeUsd := 0
      ts := req.now }, st)
  sell req st :=
    (.ok {
      orderId := req.orderId
      mint := req.mint
      side := .sell
      qty := req.qty
      priceUsd := req.priceUsd
      notionalUsd := req.priceUsd * req.qty
      feeUsd := 0
      ts := req.now }, st)

/-- Buys as above, but every sell is rejected. -/
def Executor.deadPool : Executor Unit where
  buy := Executor.oneToken.buy
  sell req st := (.error (.rejected ["simulated dead pool (order ", req.orderId, ")"]), st)

theorem Executor.oneToken_honoursMint : Executor.oneToken.HonoursMint := by
  intro req st fill st' hbuy
  obtain rfl := Except.ok.inj (congrArg Prod.fst hbuy)
  rfl

theorem Executor.oneToken_paysForTokens : Executor.oneToken.PaysForTokens := by
  intro req st fill st' hbuy
  obtain rfl := Except.ok.inj (congrArg Prod.fst hbuy)
  exact ⟨one_pos, by norm_num⟩

theorem Executor.oneToken_sellsSucceed : Executor.oneToken.SellsSucceed :=
  fun _ _ => ⟨_, _, rfl⟩

/-! ## Paper execution -/

/-- Depth-aware slippage, `base + coeff · (notional / liquidity · 100)`, capped.
Unknown depth falls back to the base. -/
def effectiveSlippagePct (basePct impactCoeff maxPct notionalUsd liquidityUsd : Decimal) :
    Decimal :=
  if liquidityUsd ≤ 0 ∨ notionalUsd ≤ 0 then min basePct maxPct
  else min (basePct + impactCoeff * (notionalUsd / liquidityUsd * 100)) maxPct

/-- Paper executor: deterministic simulation with an optional failure rate in
basis points, decided by the order id alone. -/
structure PaperExecutor where
  slippagePct : Decimal
  impactCoeff : Decimal
  maxSlippagePct : Decimal
  feeBps : Decimal
  failureBps : UInt64

namespace PaperExecutor

def new (cfg : Config) : PaperExecutor where
  slippagePct := cfg.paperSlippagePct
  impactCoeff := cfg.paperImpactCoeff
  maxSlippagePct := cfg.paperMaxSlippagePct
  feeBps := cfg.feeBps.toNat
  failureBps := 0

/-- Chaos-mode constructor: a fraction of orders fails. -/
def withFailureBps (cfg : Config) (failureBps : UInt64) : PaperExecutor :=
  { new cfg with failureBps := min failureBps 10000 }

/-- FNV-1a over the bytes of the order id, taken modulo 10000. -/
def wouldFail (orderId : String) (failureBps : UInt64) : Bool :=
  if failureBps = 0 then false
  else
    let h := orderId.toUTF8.toList.foldl
      (fun (h : UInt64) b => (h ^^^ b.toUInt64) * 0x00000100000001b3) 0xcbf29ce484222325
    decide (h % 10000 < failureBps)

/-- We cross the spread against ourselves. -/
def slippedPrice (side : Side) (refPrice effSlipPct : Decimal) : Decimal :=
  match side with
  | .buy => refPrice * (1 + effSlipPct / 100)
  | .sell => refPrice * (1 - effSlipPct / 100)

/-- Settle an order at its slipped price; every value is rounded to the fill
resolution. -/
def fill (px : PaperExecutor) (side : Side) (mint : Mint) (qty refPrice effSlipPct : Decimal)
    (now : DateTime) (orderId : String) : Answer :=
  if refPrice ≤ 0 ∨ qty ≤ 0 then
    .error (.rejected ["non-positive qty (", .dec qty, ") or price (", .dec refPrice, ") for ",
      mint])
  else
    let price := slippedPrice side refPrice effSlipPct
    if price ≤ 0 then
      .error (.rejected ["slippage drove ", side.debug, " price non-positive for ", mint])
    else
      let price := roundDp fillDp price
      let qty := roundDp fillDp qty
      let notional := roundDp fillDp (price * qty)
      let fee := roundDp fillDp (notional * px.feeBps / 10000)
      .ok {
        orderId := orderId
        mint := mint
        side := side
        qty := qty
        priceUsd := price
        notionalUsd := notional
        feeUsd := fee
        ts := now }

def simulatedFailure (orderId : String) : Answer :=
  .error (.rejected ["simulated fill failure (order ", orderId, ")"])

def buy (px : PaperExecutor) (req : BuyRequest) : Answer :=
  if wouldFail req.orderId px.failureBps then simulatedFailure req.orderId
  else if req.budgetUsd ≤ 0 ∨ req.priceUsd ≤ 0 then
    .error (.rejected ["non-positive budget (", .dec req.budgetUsd, ") or price (",
      .dec req.priceUsd, ") for ", req.mint])
  else
    let eff := effectiveSlippagePct px.slippagePct px.impactCoeff px.maxSlippagePct req.budgetUsd
      req.liquidityUsd
    let fillPrice := req.priceUsd * (1 + eff / 100)
    px.fill .buy req.mint (req.budgetUsd / fillPrice) req.priceUsd eff req.now req.orderId

def sell (px : PaperExecutor) (req : SellRequest) : Answer :=
  if wouldFail req.orderId px.failureBps then simulatedFailure req.orderId
  else
    let eff := effectiveSlippagePct px.slippagePct px.impactCoeff px.maxSlippagePct
      (req.qty * req.priceUsd) req.liquidityUsd
    px.fill .sell req.mint req.qty req.priceUsd eff req.now req.orderId

/-- The paper executor behind the trait: it keeps no state. -/
def executor (px : PaperExecutor) : Executor Unit where
  buy req st := (px.buy req, st)
  sell req st := (px.sell req, st)

/-- A filled order carries what was ordered. -/
theorem fill_ok {px : PaperExecutor} {side : Side} {mint : Mint} {qty refPrice eff : Decimal}
    {now : DateTime} {orderId : String} {f : Fill}
    (h : px.fill side mint qty refPrice eff now orderId = .ok f) :
    f.mint = mint ∧ f.side = side ∧ f.orderId = orderId ∧ f.ts = now := by
  unfold fill at h
  dsimp only at h
  split_ifs at h
  obtain rfl := Except.ok.inj h
  exact ⟨rfl, rfl, rfl, rfl⟩

/-- When an order settles: its price, quantity and slipped price are positive. -/
theorem fill_isOk_iff (px : PaperExecutor) (side : Side) (mint : Mint)
    (qty refPrice eff : Decimal) (now : DateTime) (orderId : String) :
    (px.fill side mint qty refPrice eff now orderId).isOk = true ↔
      0 < refPrice ∧ 0 < qty ∧ 0 < slippedPrice side refPrice eff := by
  unfold fill
  split
  · rename_i hoff
    constructor
    · intro h
      exact absurd h Bool.false_ne_true
    · rintro ⟨hprice, hqty, -⟩
      rcases hoff with hle | hle
      · exact absurd hprice (not_lt.mpr hle)
      · exact absurd hqty (not_lt.mpr hle)
  · rename_i hgood
    obtain ⟨hprice, hqty⟩ := not_or.mp hgood
    dsimp only
    split
    · rename_i hle
      constructor
      · intro h
        exact absurd h Bool.false_ne_true
      · rintro ⟨-, -, hslipped⟩
        exact absurd hslipped (not_lt.mpr hle)
    · rename_i hslipped
      constructor
      · intro _
        exact ⟨not_le.mp hprice, not_le.mp hqty, not_le.mp hslipped⟩
      · intro _
        rfl

theorem executor_honoursMint (px : PaperExecutor) : px.executor.HonoursMint := by
  intro req st f st' hbuy
  have hfill : px.buy req = .ok f := congrArg Prod.fst hbuy
  unfold buy simulatedFailure at hfill
  split_ifs at hfill
  exact (fill_ok hfill).1

end PaperExecutor

end HfmcBot
