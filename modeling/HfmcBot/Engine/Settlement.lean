import HfmcBot.Engine.Funnel
import HfmcBot.Engine.Ledger
import HfmcBot.Grid
import Mathlib.Algebra.Order.BigOperators.Group.Multiset

/-!
# Settlement on the grid

What the books look like when every fill is settled at the fill resolution.

* `Executor.placed` keeps every order with the state the executor was in and its
  answer;
* `Books`: costs, results, equity and deployed capital lie on the grid, and are
  bounded by what was turned over;
* `Step.books`: every small step keeps them, as long as the fills are settled;
* `Books.exact`: below the limit of a 96-bit mantissa, their sums are exact.
-/

namespace HfmcBot

open Foundation

/-! ## Fills -/

/-- The amounts of a fill lie on the grid. -/
structure Fill.Settled (fill : Fill) : Prop where
  qty : OnGrid fillDp fill.qty
  price : OnGrid fillDp fill.priceUsd
  notional : OnGrid fillDp fill.notionalUsd
  fee : OnGrid fillDp fill.feeUsd

instance (fill : Fill) : Decidable fill.Settled :=
  decidable_of_iff
    (OnGrid fillDp fill.qty ∧ OnGrid fillDp fill.priceUsd ∧ OnGrid fillDp fill.notionalUsd ∧
      OnGrid fillDp fill.feeUsd)
    ⟨fun h => ⟨h.1, h.2.1, h.2.2.1, h.2.2.2⟩, fun h => ⟨h.qty, h.price, h.notional, h.fee⟩⟩

/-- Every paper fill is settled. -/
theorem PaperExecutor.fill_settled {px : PaperExecutor} {side : Side} {mint : Mint}
    {qty refPrice eff : Decimal} {now : DateTime} {orderId : String} {f : Fill}
    (h : px.fill side mint qty refPrice eff now orderId = .ok f) : f.Settled := by
  unfold fill at h
  dsimp only at h
  split_ifs at h
  obtain rfl := Except.ok.inj h
  exact ⟨onGrid_roundDp _ _, onGrid_roundDp _ _, onGrid_roundDp _ _, onGrid_roundDp _ _⟩

theorem PaperExecutor.buy_settled {px : PaperExecutor} {req : BuyRequest} {f : Fill}
    (h : px.buy req = .ok f) : f.Settled := by
  unfold buy simulatedFailure at h
  split_ifs at h
  exact fill_settled h

theorem PaperExecutor.sell_settled {px : PaperExecutor} {req : SellRequest} {f : Fill}
    (h : px.sell req = .ok f) : f.Settled := by
  unfold sell simulatedFailure at h
  split_ifs at h
  exact fill_settled h

/-! ## Orders with the state they met -/

/-- An order, the state of the executor when it came in, and its answer. -/
structure Placed (σ : Type) where
  order : Order
  before : σ
  answer : Answer

namespace Placed

variable {σ : Type}

/-- If it filled, the fill is settled. -/
def Settled (p : Placed σ) : Prop := ∀ fill, p.answer = .ok fill → fill.Settled

instance (p : Placed σ) : Decidable p.Settled :=
  match h : p.answer with
  | .ok fill => decidable_of_iff fill.Settled
      ⟨fun hfill f hf => Except.ok.inj (h.symm.trans hf) ▸ hfill, fun hp => hp fill h⟩
  | .error _ => isTrue fun _ hf => absurd (h.symm.trans hf) (by simp)

/-- What it moved, in dollars. -/
def turnover (p : Placed σ) : Decimal :=
  match p.answer with
  | .ok fill => |fill.notionalUsd| + |fill.feeUsd|
  | .error _ => 0

theorem turnover_nonneg (p : Placed σ) : 0 ≤ p.turnover := by
  unfold turnover
  cases p.answer with
  | error err => exact le_refl 0
  | ok fill => positivity

end Placed

/-- The executor as a function of the order. -/
def Executor.place {σ : Type} (ex : Executor σ) (o : Order) (st : σ) : Answer × σ :=
  match o with
  | .buy req => ex.buy req st
  | .sell req => ex.sell req st

/-- The same executor, keeping the list of the orders it was given. -/
def Executor.placed {σ : Type} (ex : Executor σ) : Executor (σ × List (Placed σ)) where
  buy req st :=
    ((ex.buy req st.1).1, (ex.buy req st.1).2, st.2 ++ [⟨.buy req, st.1, (ex.buy req st.1).1⟩])
  sell req st :=
    ((ex.sell req st.1).1, (ex.sell req st.1).2, st.2 ++ [⟨.sell req, st.1, (ex.sell req st.1).1⟩])

theorem placed_buy_log {σ : Type} (ex : Executor σ) {req : BuyRequest}
    {st st' : σ × List (Placed σ)} {r : Answer} (h : ex.placed.buy req st = (r, st')) :
    st'.2 = st.2 ++ [⟨.buy req, st.1, r⟩] := by
  cases h
  rfl

theorem placed_sell_log {σ : Type} (ex : Executor σ) {req : SellRequest}
    {st st' : σ × List (Placed σ)} {r : Answer} (h : ex.placed.sell req st = (r, st')) :
    st'.2 = st.2 ++ [⟨.sell req, st.1, r⟩] := by
  cases h
  rfl

/-- What was turned over. -/
def turnover {σ : Type} (log : List (Placed σ)) : Decimal := (log.map Placed.turnover).sum

theorem turnover_concat {σ : Type} (log : List (Placed σ)) (p : Placed σ) :
    turnover (log ++ [p]) = turnover log + p.turnover := by
  simp [turnover]

/-! ## The books -/

namespace Engine

variable {σ : Type}

/-- The orders placed so far. -/
def placed (e : Engine (σ × List (Placed σ))) : List (Placed σ) := e.exec.2

/-- The books of an engine that started with so much equity, over orders with so
much turnover. -/
structure Books (start traded : Decimal) (e : Engine σ) : Prop where
  equity : OnGrid fillDp (e.equity - start)
  deployed : e.deployedUsd = FiniteMap.total Position.costUsd e.positions
  costs : ∀ mint pos, e.positions.lookup mint = some pos → OnGrid fillDp pos.costUsd
  trades : ∀ t ∈ e.closed, OnGrid fillDp t.costUsd ∧ OnGrid fillDp t.pnlUsd
  bounded : |e.equity - start| + FiniteMap.total (fun pos => |pos.costUsd|) e.positions ≤ traded

section Books

variable {start traded : Decimal} {e e' : Engine σ}

theorem Books.of_fields (h : Books start traded e) (hequity : e'.equity = e.equity)
    (hdeployed : e'.deployedUsd = e.deployedUsd) (hpos : e'.positions = e.positions)
    (hclosed : e'.closed = e.closed) : Books start traded e' where
  equity := by rw [hequity]; exact h.equity
  deployed := by rw [hdeployed, hpos]; exact h.deployed
  costs := by rw [hpos]; exact h.costs
  trades := by rw [hclosed]; exact h.trades
  bounded := by rw [hequity, hpos]; exact h.bounded

theorem Books.of_trading (h : Books start traded e) (heq : e'.trading = e.trading) :
    Books start traded e' := by
  obtain ⟨-, -, -, hequity, hdeployed, hpos, hclosed, -⟩ := fields_of_trading heq
  exact h.of_fields hequity hdeployed hpos hclosed

theorem Books.mono (h : Books start traded e) {traded' : Decimal} (hle : traded ≤ traded') :
    Books start traded' e :=
  { h with bounded := h.bounded.trans hle }

/-- A settled buy keeps the books, with its amounts on top. -/
theorem Books.applyBuyFill (h : Books start traded e) {fill : Fill} (hfill : fill.Settled)
    (launchpad : Launchpad) (liquidityUsd : Decimal) :
    Books start (traded + (|fill.notionalUsd| + |fill.feeUsd|))
      (e.applyBuyFill fill launchpad liquidityUsd) := by
  have hpositions := e.applyBuyFill_positions fill launchpad liquidityUsd
  have hspent : OnGrid fillDp (fill.notionalUsd + fill.feeUsd) := hfill.notional.add hfill.fee
  have hspent_le : |fill.notionalUsd + fill.feeUsd| ≤ |fill.notionalUsd| + |fill.feeUsd| :=
    abs_add_le _ _
  have hadd : ((e.fillTarget fill launchpad liquidityUsd).addFill fill liquidityUsd).costUsd =
      (e.fillTarget fill launchpad liquidityUsd).costUsd + (fill.notionalUsd + fill.feeUsd) := rfl
  have htarget : OnGrid fillDp (e.fillTarget fill launchpad liquidityUsd).costUsd := by
    unfold fillTarget
    cases hlookup : e.positions.lookup fill.mint with
    | none => exact onGrid_zero _
    | some pos => exact h.costs _ _ hlookup
  constructor
  · exact h.equity
  · rw [total_applyBuyFill e fill launchpad liquidityUsd rfl, hadd]
    show e.deployedUsd + (fill.notionalUsd + fill.feeUsd) = _
    rw [h.deployed]
    ring
  · intro mint pos hlookup
    rw [hpositions] at hlookup
    rcases FiniteMap.lookup_insert_eq_some hlookup with ⟨-, rfl⟩ | ⟨-, hold⟩
    · rw [hadd]
      exact htarget.add hspent
    · exact h.costs _ _ hold
  · exact h.trades
  · rw [total_applyBuyFill e fill launchpad liquidityUsd (w := fun pos => |pos.costUsd|) abs_zero]
    show |e.equity - start| + _ ≤ _
    have hbounded := h.bounded
    -- costs are bounded by what was traded, whatever their sign
    have habs : |((e.fillTarget fill launchpad liquidityUsd).addFill fill liquidityUsd).costUsd| ≤
        |(e.fillTarget fill launchpad liquidityUsd).costUsd| + |fill.notionalUsd + fill.feeUsd| := by
      rw [hadd]
      exact abs_add_le _ _
    linarith

/-- Overwriting a position with one of the same cost keeps the books. -/
theorem Books.overwrite (h : Books start traded e) {mint : Mint} {pos pos' : Position}
    (hlookup : e.positions.lookup mint = some pos) (hcost : pos'.costUsd = pos.costUsd) :
    Books start traded { e with positions := e.positions.insert mint pos' } := by
  constructor
  · exact h.equity
  · show e.deployedUsd = _
    rw [FiniteMap.total_insert_of_eq hlookup hcost]
    exact h.deployed
  · intro m p hp
    rcases FiniteMap.lookup_insert_eq_some hp with ⟨-, rfl⟩ | ⟨-, hold⟩
    · rw [hcost]
      exact h.costs _ _ hlookup
    · exact h.costs _ _ hold
  · exact h.trades
  · show |e.equity - start| + _ ≤ _
    have hsame : |pos'.costUsd| = |pos.costUsd| := congrArg abs hcost
    have htotal : FiniteMap.total (fun pos : Position => |pos.costUsd|)
        (e.positions.insert mint pos') = FiniteMap.total (fun pos => |pos.costUsd|) e.positions :=
      FiniteMap.total_insert_of_eq hlookup hsame
    rw [htotal]
    exact h.bounded

theorem Books.countFailure (h : Books start traded e) (mint : Mint) :
    Books start traded (e.countFailure mint) := by
  unfold Engine.countFailure
  cases hlookup : e.positions.lookup mint with
  | none =>
      rw [bookFailure_of_unheld hlookup]
      exact h
  | some pos =>
      rw [bookFailure_of_lookup hlookup]
      exact h.overwrite hlookup rfl

/-- The proceeds of a settled sell need no rounding. -/
theorem proceedsOf_settled {fill : Fill} (h : fill.Settled) :
    proceedsOf fill = fill.notionalUsd - fill.feeUsd :=
  (h.notional.sub h.fee).roundDp_eq

/-- A settled sell of a held position, at its cost, keeps the books. -/
theorem Books.settle (h : Books start traded e) (now : DateTime) {x : ExitArgs} {pos : Position}
    (hlookup : e.positions.lookup x.mint = some pos) (hcost : x.cost = pos.costUsd) {fill : Fill}
    (hfill : fill.Settled) :
    Books start (traded + (|fill.notionalUsd| + |fill.feeUsd|)) (e.settle now x fill) := by
  have hgrid : OnGrid fillDp x.cost := by
    rw [hcost]
    exact h.costs _ _ hlookup
  have hproceeds : OnGrid fillDp (proceedsOf fill) := onGrid_roundDp _ _
  have hpnl : (tradeOf x fill now).pnlUsd = proceedsOf fill - x.cost := rfl
  have hequity : (e.settle now x fill).equity - start =
      (e.equity - start) + (proceedsOf fill - x.cost) := by
    show e.equity + (tradeOf x fill now).pnlUsd - start = _
    rw [hpnl]
    ring
  constructor
  · rw [hequity]
    exact h.equity.add (hproceeds.sub hgrid)
  · show e.deployedUsd - x.cost = FiniteMap.total Position.costUsd (e.positions.erase x.mint)
    have htotal := FiniteMap.total_erase Position.costUsd hlookup
    rw [h.deployed, hcost]
    linarith
  · intro m p hp
    exact h.costs m p (FiniteMap.lookup_erase_eq_some hp).2
  · intro t ht
    rcases List.mem_append.mp ht with hold | hnew
    · exact h.trades t hold
    · rw [List.mem_singleton.mp hnew]
      exact ⟨hgrid, hproceeds.sub hgrid⟩
  · rw [hequity]
    show _ + FiniteMap.total (fun pos => |pos.costUsd|) (e.positions.erase x.mint) ≤ _
    have htotal := FiniteMap.total_erase (fun pos : Position => |pos.costUsd|) hlookup
    have hbounded := h.bounded
    -- the P&L is what the fill brings less the cost, which leaves the book
    have hstep : |e.equity - start + (proceedsOf fill - x.cost)| ≤
        |e.equity - start| + (|fill.notionalUsd| + |fill.feeUsd| + |pos.costUsd|) := by
      rw [proceedsOf_settled hfill, hcost]
      calc |e.equity - start + (fill.notionalUsd - fill.feeUsd - pos.costUsd)|
          ≤ |e.equity - start| + |fill.notionalUsd - fill.feeUsd - pos.costUsd| := abs_add_le _ _
        _ ≤ |e.equity - start| + (|fill.notionalUsd - fill.feeUsd| + |pos.costUsd|) := by
            have hsub := abs_sub (fill.notionalUsd - fill.feeUsd) pos.costUsd
            linarith
        _ ≤ |e.equity - start| + (|fill.notionalUsd| + |fill.feeUsd| + |pos.costUsd|) := by
            have hsub := abs_sub fill.notionalUsd fill.feeUsd
            linarith
    linarith

/-- An engine that has not started has traded nothing. -/
theorem Books.new (cfg : Config) (st : σ) (audit : AuditLog) (today : Int) :
    Books cfg.equityUsd 0 (Engine.new cfg st audit today) where
  equity := by
    show OnGrid fillDp (cfg.equityUsd - cfg.equityUsd)
    rw [sub_self]
    exact onGrid_zero fillDp
  deployed := rfl
  costs := by simp [Engine.new]
  trades := by simp [Engine.new]
  bounded := by
    show |cfg.equityUsd - cfg.equityUsd| + FiniteMap.total _ (∅ : FiniteMap Mint Position) ≤ 0
    rw [sub_self, abs_zero, FiniteMap.total_empty, add_zero]

end Books

/-! ## Orders and steps -/

theorem closePosition_exec (ex : Executor σ) (e : Engine σ) (x : ExitArgs) (now : DateTime) :
    (e.closePosition ex x now).exec =
      (ex.sell (sellRequest x now (e.nextOrderId x.mint).1) e.exec).2 := by
  rcases closePosition_cases ex e x now with ⟨err, st, hsell, hclose⟩ | ⟨fill, st, hsell, hclose⟩
  · rw [(fields_of_trading hclose).exec, hsell]
    rfl
  · rw [(fields_of_trading hclose).exec, hsell]
    rfl

section Steps

variable {start : Decimal} {e e' : Engine (σ × List (Placed σ))}

/-- The books of the engine, unless some fill was off the grid. -/
def Settling (start : Decimal) (e : Engine (σ × List (Placed σ))) : Prop :=
  (∀ p ∈ e.placed, p.Settled) → Books start (turnover e.placed) e

theorem Settling.of_trading (h : Settling start e) (heq : e'.trading = e.trading) :
    Settling start e' := by
  have hexec := (fields_of_trading heq).exec
  have hplaced : e'.placed = e.placed := congrArg Prod.snd hexec
  intro hall
  rw [hplaced] at hall ⊢
  exact (h hall).of_trading heq

/-- One more order. -/
theorem Settling.order (h : Settling start e) {p : Placed σ} (hplaced : e'.placed = e.placed ++ [p])
    (hbooks : p.Settled → Books start (turnover e.placed) e →
      Books start (turnover e.placed + p.turnover) e') : Settling start e' := by
  intro hall
  rw [hplaced] at hall ⊢
  rw [turnover_concat]
  apply hbooks
  · exact hall p (List.mem_append_right _ (List.mem_singleton_self p))
  · exact h fun q hq => hall q (List.mem_append_left _ hq)

/-- A slice, filled or not. -/
theorem Settling.sendSlice (h : Settling start e) (ex : Executor σ) (launch : Launch)
    (deadline : DateTime) (slice : Decimal) :
    Settling start (e.sendSlice ex.placed launch deadline slice).1 := by
  rcases sendSlice_cases ex.placed e launch deadline slice with
    ⟨err, st, hbuy, hsend, -⟩ | ⟨fill, st, hbuy, hsend, -⟩
  · have hexec := (fields_of_trading hsend).exec
    apply h.order ((congrArg Prod.snd hexec).trans (placed_buy_log ex hbuy))
    intro _ hbooks
    have hsubmitted : Books start (turnover e.placed) (e.submitted st) :=
      hbooks.of_fields rfl rfl rfl rfl
    exact (hsubmitted.mono (le_add_of_nonneg_right (Placed.turnover_nonneg _))).of_trading hsend
  · have hexec := (fields_of_trading hsend).exec
    apply h.order ((congrArg Prod.snd hexec).trans (placed_buy_log ex hbuy))
    intro hsettled hbooks
    have hsubmitted : Books start (turnover e.placed) (e.submitted st) :=
      hbooks.of_fields rfl rfl rfl rfl
    exact (hsubmitted.applyBuyFill (hsettled fill rfl) _ _).of_trading hsend

/-- An exit of a held position, at its cost. -/
theorem Settling.closePosition (h : Settling start e) (ex : Executor σ) {x : ExitArgs}
    {pos : Position} (hlookup : e.positions.lookup x.mint = some pos) (hcost : x.cost = pos.costUsd)
    (now : DateTime) : Settling start (e.closePosition ex.placed x now) := by
  rcases closePosition_cases ex.placed e x now with
    ⟨err, st, hsell, hclose⟩ | ⟨fill, st, hsell, hclose⟩
  · have hexec := (fields_of_trading hclose).exec
    apply h.order ((congrArg Prod.snd hexec).trans (placed_sell_log ex hsell))
    intro _ hbooks
    have hsubmitted : Books start (turnover e.placed)
        ((e.withRisk (e.risk.pushOrder now)).submitted st) := hbooks.of_fields rfl rfl rfl rfl
    exact ((hsubmitted.countFailure x.mint).mono
      (le_add_of_nonneg_right (Placed.turnover_nonneg _))).of_trading hclose
  · have hexec := (fields_of_trading hclose).exec
    apply h.order ((congrArg Prod.snd hexec).trans (placed_sell_log ex hsell))
    intro hsettled hbooks
    have hsubmitted : Books start (turnover e.placed)
        ((e.withRisk (e.risk.pushOrder now)).submitted st) := hbooks.of_fields rfl rfl rfl rfl
    exact (hsubmitted.settle now hlookup hcost (hsettled fill rfl)).of_trading hclose

theorem Settling.ticked (h : Settling start e) {p : PriceUpdate} {pos : Position}
    (hlookup : e.positions.lookup p.mint = some pos) : Settling start (e.ticked p pos) := by
  intro hall
  have hsame := onPrice_sameHolding
    { pos with lastPrice := p.priceUsd, lastLiquidityUsd := p.liquidityUsd } p.priceUsd p.ts e.cfg
  exact (h hall).overwrite hlookup hsame.costUsd

/-- Every small step keeps the books, as long as the fills are settled. -/
theorem Step.books {ex : Executor σ} {ev : Event} {phase : Phase}
    (hstep : Step ex.placed ev phase e e') (hkeyed : e.Keyed) (h : Settling start e) :
    Settling start e' := by
  cases hstep with
  | note e mint action detail => exact h.of_trading rfl
  | refresh e =>
      intro hall
      exact (h hall).of_fields rfl rfl rfl rfl
  | slice e launch budgetUsd hev hopen hwindow hroom =>
      have hgranted : Settling start
          (e.withRisk ((e.risk.refresh launch.createdAt).pushOrder launch.createdAt)) := by
        intro hall
        exact (h hall).of_fields rfl rfl rfl rfl
      exact hgranted.sendSlice ex _ _ _
  | tick e p pos hev hpos hstay => exact h.ticked hpos
  | tickExit e p pos d hev hpos hexit =>
      exact (h.ticked hpos).closePosition ex (ticked_lookup hkeyed hpos) rfl _
  | timeExit e pos x hpos hdue =>
      obtain ⟨d, -, -, rfl⟩ := timeStopExit_eq_exitArgs hdue
      exact h.closePosition ex hpos rfl _
  | page e kind detail => exact h.of_trading rfl

/-- The list of placed orders grows by one order at a time, with the answer the
executor gave in the state it was in. -/
theorem Step.placed {ex : Executor σ} {ev : Event} {phase : Phase}
    (hstep : Step ex.placed ev phase e e') :
    e'.placed = e.placed ∨
      ∃ o, e'.placed = e.placed ++ [⟨o, e.exec.1, (ex.place o e.exec.1).1⟩] := by
  have hexit : ∀ (m : Engine (σ × List (Placed σ))) (x : ExitArgs) (now : DateTime),
      m.exec = e.exec → ∃ o, (m.closePosition ex.placed x now).placed =
        e.placed ++ [⟨o, e.exec.1, (ex.place o e.exec.1).1⟩] := by
    intro m x now hm
    refine ⟨.sell (sellRequest x now (m.nextOrderId x.mint).1), ?_⟩
    show (m.closePosition ex.placed x now).exec.2 = e.exec.2 ++ _
    rw [closePosition_exec, hm]
    rfl
  cases hstep with
  | note e mint action detail => exact Or.inl rfl
  | refresh e => exact Or.inl rfl
  | slice e launch budgetUsd hev hopen hwindow hroom =>
      right
      refine ⟨.buy (sliceRequest launch (funnelDeadline e.cfg launch) budgetUsd
        (e.nextOrderId launch.mint).1), ?_⟩
      have hexec := sendSlice_exec ex.placed
        (e.withRisk ((e.risk.refresh launch.createdAt).pushOrder launch.createdAt)) launch
        (funnelDeadline e.cfg launch) budgetUsd
      exact congrArg Prod.snd hexec
  | tick e p pos hev hpos hstay => exact Or.inl rfl
  | tickExit e p pos d hev hpos hexit' => exact Or.inr (hexit _ _ _ rfl)
  | timeExit e pos x hpos hdue => exact Or.inr (hexit _ _ _ rfl)
  | page e kind detail => exact Or.inl rfl

end Steps

/-! ## Runs -/

/-- The books after every run. -/
theorem books_run (cfg : Config) (ex : Executor σ) (st : σ) (audit : AuditLog) (today : Int)
    (ds : List Delivery) :
    Settling cfg.equityUsd (run ex.placed (Engine.new cfg (st, []) audit today) ds) := by
  refine run_of_steps (fun _ _ _ _ hstep hkeyed h => hstep.books hkeyed h)
    (keyed_new cfg _ audit today) ?_ ds
  intro _
  exact Books.new cfg (st, []) audit today

/-- Every answer of a run is that of the executor, to the order it was given in the
state it was in. -/
theorem placed_answers (cfg : Config) (ex : Executor σ) (st : σ) (audit : AuditLog) (today : Int)
    (ds : List Delivery) :
    ∀ p ∈ (run ex.placed (Engine.new cfg (st, []) audit today) ds).placed,
      p.answer = (ex.place p.order p.before).1 := by
  refine run_of_steps (P := fun e => ∀ p ∈ e.placed, p.answer = (ex.place p.order p.before).1) ?_
    (keyed_new cfg _ audit today) ?_ ds
  · intro ev phase e e' hstep _ h p hp
    rcases hstep.placed with hsame | ⟨o, hmore⟩
    · rw [hsame] at hp
      exact h p hp
    · rw [hmore] at hp
      rcases List.mem_append.mp hp with hold | hnew
      · exact h p hold
      · rw [List.mem_singleton.mp hnew]
  · intro p hp
    exact absurd hp List.not_mem_nil

/-! ## Exact sums -/

/-- A 96-bit mantissa at the fill resolution. -/
def FitsMantissa (x : Decimal) : Prop := ∃ m : Int, |m| < 2 ^ 96 ∧ x = m / 10 ^ fillDp

/-- A value on the grid fits, below the limit. -/
theorem fitsMantissa_of_abs_lt {x : Decimal} (hx : OnGrid fillDp x)
    (hlt : |x| * 10 ^ fillDp < 2 ^ 96) : FitsMantissa x := by
  obtain ⟨m, rfl⟩ := hx
  refine ⟨m, ?_, rfl⟩
  have hscale : (0 : Decimal) < 10 ^ fillDp := by positivity
  rw [abs_div, abs_of_pos hscale, div_mul_cancel₀ _ hscale.ne'] at hlt
  exact_mod_cast hlt

theorem Books.deployed_onGrid {start traded : Decimal} {e : Engine σ} (h : Books start traded e) :
    OnGrid fillDp e.deployedUsd := by
  rw [h.deployed]
  exact FiniteMap.total_induction (OnGrid fillDp) (fun _ _ => OnGrid.add) (onGrid_zero _) h.costs

/-- So is equity itself, from a start equity on the grid, while both together stay below. -/
theorem Books.equity_exact {start traded : Decimal} {e : Engine σ} (h : Books start traded e)
    (hstart : OnGrid fillDp start) (hlt : (|start| + traded) * 10 ^ fillDp < 2 ^ 96) :
    FitsMantissa e.equity := by
  have hscale : (0 : Decimal) ≤ 10 ^ fillDp := by positivity
  have hsplit : e.equity = start + (e.equity - start) := by ring
  have hgrid : OnGrid fillDp e.equity := by
    rw [hsplit]
    exact hstart.add h.equity
  have hcosts : 0 ≤ FiniteMap.total (fun pos => |pos.costUsd|) e.positions :=
    FiniteMap.total_induction (0 ≤ ·) (fun _ _ => add_nonneg) le_rfl fun _ _ _ => abs_nonneg _
  have hbound : |e.equity| ≤ |start| + traded := by
    have htriangle := abs_add_le start (e.equity - start)
    have hbounded := h.bounded
    rw [← hsplit] at htriangle
    linarith
  exact fitsMantissa_of_abs_lt hgrid
    (lt_of_le_of_lt (mul_le_mul_of_nonneg_right hbound hscale) hlt)

/-- The sums of the books are exact while the turnover stays below the limit of the
mantissa. -/
theorem Books.exact {start traded : Decimal} {e : Engine σ} (h : Books start traded e)
    (hlt : traded * 10 ^ fillDp < 2 ^ 96) :
    FitsMantissa (e.equity - start) ∧ FitsMantissa e.deployedUsd := by
  have hscale : (0 : Decimal) ≤ 10 ^ fillDp := by positivity
  have hdeployed : |e.deployedUsd| ≤ FiniteMap.total (fun pos => |pos.costUsd|) e.positions := by
    rw [h.deployed]
    unfold FiniteMap.total
    refine Multiset.abs_sum_le_sum_abs.trans (le_of_eq ?_)
    rw [Multiset.map_map]
    rfl
  have hbounded := h.bounded
  have hequity_nonneg := abs_nonneg (e.equity - start)
  have hdeployed_nonneg := abs_nonneg e.deployedUsd
  constructor
  · apply fitsMantissa_of_abs_lt h.equity
    refine lt_of_le_of_lt (mul_le_mul_of_nonneg_right ?_ hscale) hlt
    linarith
  · apply fitsMantissa_of_abs_lt h.deployed_onGrid
    refine lt_of_le_of_lt (mul_le_mul_of_nonneg_right ?_ hscale) hlt
    linarith

end Engine

end HfmcBot
