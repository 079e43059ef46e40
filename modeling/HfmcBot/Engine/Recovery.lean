import HfmcBot.Engine.ExitRecords
import HfmcBot.Grid

/-!
# The book from the audit trail

`recover` folds the fill records of a log into a book of its own: a buy adds to
its mint, a sell realizes what the mint has cost and clears it.

* `Recovers`: the recovered book is the engine's, and held quantities lie on the
  fill grid;
* `Step.recovers`: every small step keeps that, over an executor that settles on
  the grid;
* `recover_run`: so the trail of a paper run determines its book after every event.
-/

namespace HfmcBot

open Foundation

/-! ## The fold -/

/-- What the trail says is held of a mint. -/
structure Holding where
  qty : Decimal
  costUsd : Decimal
  deriving DecidableEq

def Position.holding (pos : Position) : Holding := ⟨pos.qty, pos.costUsd⟩

/-- The book read off a trail.  `residuals` lists what each sell left of its mint
before the mint was cleared. -/
structure Recovered where
  held : FiniteMap Mint Holding
  deployedUsd : Decimal
  equityUsd : Decimal
  residuals : List Decimal

namespace Recovered

def start (equityUsd : Decimal) : Recovered := ⟨∅, 0, equityUsd, []⟩

/-- What is held of a mint; nothing if the mint is not open. -/
def holdingOf (r : Recovered) (mint : Mint) : Holding := (r.held.lookup mint).getD ⟨0, 0⟩

/-- A buy adds its quantity, and its notional with the fee. -/
def bought (r : Recovered) (mint : Mint) (qty spentUsd : Decimal) : Recovered :=
  { r with
    held := r.held.insert mint ⟨(r.holdingOf mint).qty + qty, (r.holdingOf mint).costUsd + spentUsd⟩
    deployedUsd := r.deployedUsd + spentUsd }

/-- A sell subtracts its quantity, realizes the proceeds against the accumulated
cost, and clears the mint. -/
def sold (r : Recovered) (mint : Mint) (qty proceedsUsd : Decimal) : Recovered where
  held := r.held.erase mint
  deployedUsd := r.deployedUsd - (r.holdingOf mint).costUsd
  equityUsd := r.equityUsd + (proceedsUsd - (r.holdingOf mint).costUsd)
  residuals := r.residuals ++ [(r.holdingOf mint).qty - qty]

/-- One record: only fills count. -/
def record (r : Recovered) : AuditRecord → Recovered
  | .fill _ _ mint side qty _ notionalUsd feeUsd =>
      if side = Side.lower .buy then r.bought mint qty (notionalUsd + feeUsd)
      else r.sold mint qty (roundDp fillDp (notionalUsd - feeUsd))
  | _ => r

end Recovered

/-- The fold over a whole trail. -/
def recover (equityUsd : Decimal) (lines : List AuditRecord) : Recovered :=
  lines.foldl Recovered.record (.start equityUsd)

def AuditRecord.isFill : AuditRecord → Bool
  | .fill .. => true
  | _ => false

theorem Recovered.record_of_quiet (r : Recovered) {record : AuditRecord}
    (h : record.isFill = false) : r.record record = r := by
  cases record with
  | fill ts orderId mint side qty priceUsd notionalUsd feeUsd => cases h
  | _ => rfl

/-- Records that are no fills change nothing. -/
theorem recover_append_quiet (equityUsd : Decimal) (lines : List AuditRecord)
    {notes : List AuditRecord} (h : ∀ record ∈ notes, record.isFill = false) :
    recover equityUsd (lines ++ notes) = recover equityUsd lines := by
  rw [recover, List.foldl_append, ← recover]
  induction notes generalizing lines with
  | nil => rfl
  | cons record rest ih =>
      rw [List.foldl_cons, Recovered.record_of_quiet _ (h record List.mem_cons_self)]
      exact ih lines fun r hr => h r (List.mem_cons_of_mem _ hr)

theorem recover_concat (equityUsd : Decimal) (lines : List AuditRecord) (record : AuditRecord) :
    recover equityUsd (lines ++ [record]) = (recover equityUsd lines).record record := by
  rw [recover, List.foldl_append]
  rfl

theorem record_fillRecord_buy (r : Recovered) {fill : Fill} (hside : fill.side = .buy) :
    r.record (fillRecord fill) = r.bought fill.mint fill.qty (fill.notionalUsd + fill.feeUsd) := by
  show (if fill.side.lower = Side.lower .buy then _ else _) = _
  rw [hside, if_pos rfl]

theorem record_fillRecord_sell (r : Recovered) {fill : Fill} (hside : fill.side = .sell) :
    r.record (fillRecord fill) = r.sold fill.mint fill.qty (Engine.proceedsOf fill) := by
  show (if fill.side.lower = Side.lower .buy then _ else _) = _
  rw [hside, if_neg (by decide)]
  rfl

/-- Filled buys bring a quantity on the grid; filled sells sell what they were asked
to, where that lies on the grid. -/
structure Executor.SettlesOnGrid {σ : Type} (ex : Executor σ) : Prop where
  buy : ∀ req st fill st', ex.buy req st = (.ok fill, st') →
    fill.side = .buy ∧ OnGrid fillDp fill.qty
  sell : ∀ req st fill st', ex.sell req st = (.ok fill, st') →
    fill.side = .sell ∧ fill.mint = req.mint ∧ (OnGrid fillDp req.qty → fill.qty = req.qty)

/-- The paper executor rounds what it fills. -/
theorem PaperExecutor.fill_qty {px : PaperExecutor} {side : Side} {mint : Mint}
    {qty refPrice eff : Decimal} {now : DateTime} {orderId : String} {f : Fill}
    (h : px.fill side mint qty refPrice eff now orderId = .ok f) : f.qty = roundDp fillDp qty := by
  unfold fill at h
  dsimp only at h
  split_ifs at h
  obtain rfl := Except.ok.inj h
  rfl

theorem PaperExecutor.settlesOnGrid (px : PaperExecutor) : px.executor.SettlesOnGrid where
  buy req st f st' hbuy := by
    have hfill : px.buy req = .ok f := congrArg Prod.fst hbuy
    unfold PaperExecutor.buy simulatedFailure at hfill
    split_ifs at hfill
    rw [fill_qty hfill]
    exact ⟨(fill_ok hfill).2.1, onGrid_roundDp _ _⟩
  sell req st f st' hsell := by
    have hfill : px.sell req = .ok f := congrArg Prod.fst hsell
    unfold PaperExecutor.sell simulatedFailure at hfill
    split_ifs at hfill
    rw [fill_qty hfill]
    exact ⟨(fill_ok hfill).2.1, (fill_ok hfill).1, OnGrid.roundDp_eq⟩

namespace Engine

variable {σ : Type}

/-- The trail determines the book: the log takes every append, the fold over it gives
the engine's book, and what is held lies on the fill grid. -/
structure Recovers (equityUsd : Decimal) (e : Engine σ) : Prop where
  reliable : e.audit.Reliable
  held : ∀ mint, (recover equityUsd e.audit.lines).held.lookup mint =
    (e.positions.lookup mint).map Position.holding
  deployed : (recover equityUsd e.audit.lines).deployedUsd = e.deployedUsd
  equity : (recover equityUsd e.audit.lines).equityUsd = e.equity
  residuals : ∀ q ∈ (recover equityUsd e.audit.lines).residuals, q = 0
  grid : ∀ mint pos, e.positions.lookup mint = some pos → OnGrid fillDp pos.qty

section Recovers

variable {equityUsd : Decimal} {e e' : Engine σ}

/-- The trail and the money stay, and every position holds what it held. -/
theorem Recovers.of_fields (h : Recovers equityUsd e) (haudit : e'.audit = e.audit)
    (hdeployed : e'.deployedUsd = e.deployedUsd) (hequity : e'.equity = e.equity)
    (hheld : ∀ mint, (e'.positions.lookup mint).map Position.holding =
      (e.positions.lookup mint).map Position.holding) : Recovers equityUsd e' where
  reliable := by rw [haudit]; exact h.reliable
  held mint := by rw [haudit, h.held, hheld]
  deployed := by rw [haudit, h.deployed, hdeployed]
  equity := by rw [haudit, h.equity, hequity]
  residuals := by rw [haudit]; exact h.residuals
  grid mint pos hpos := by
    have hsome := hheld mint
    rw [hpos] at hsome
    obtain ⟨pos', hpos', hsame⟩ := Option.map_eq_some_iff.mp hsome.symm
    have hqty : pos'.qty = pos.qty := congrArg Holding.qty hsame
    rw [← hqty]
    exact h.grid mint pos' hpos'

theorem Recovers.note (h : Recovers equityUsd e) {record : AuditRecord}
    (hquiet : record.isFill = false) : Recovers equityUsd (e.appendAudit record) := by
  have hsame : recover equityUsd (e.appendAudit record).audit.lines =
      recover equityUsd e.audit.lines := by
    show recover equityUsd (e.audit.append record).lines = _
    rw [h.reliable.lines_append, recover_concat, Recovered.record_of_quiet _ hquiet]
  refine ⟨h.reliable.append record, ?_, ?_, ?_, ?_, h.grid⟩
  · rw [hsame]
    exact h.held
  · rw [hsame]
    exact h.deployed
  · rw [hsame]
    exact h.equity
  · rw [hsame]
    exact h.residuals

theorem Recovers.alert (h : Recovers equityUsd e) (kind : AlertKind) (detail : Text) :
    Recovers equityUsd (e.alert kind detail) := h.of_fields rfl rfl rfl fun _ => rfl

/-- Records and pages that are written under a condition. -/
theorem Recovers.ite (h : Recovers equityUsd e) (h' : Recovers equityUsd e') {c : Prop}
    [Decidable c] : Recovers equityUsd (if c then e' else e) := by
  split
  · exact h'
  · exact h

theorem Recovers.holdingOf (h : Recovers equityUsd e) (mint : Mint) :
    (recover equityUsd e.audit.lines).holdingOf mint =
      ((e.positions.lookup mint).map Position.holding).getD ⟨0, 0⟩ := by
  rw [Recovered.holdingOf, h.held]

/-! ## The orders -/

theorem Recovers.buyFailed (h : Recovers equityUsd e) (now : DateTime) (mint : Mint)
    (orderId : String) (err : ExecError) :
    Recovers equityUsd (e.buyFailed now mint orderId err) := by
  unfold Engine.buyFailed
  exact (h.ite (h.alert _ _)).note rfl

/-- A failed sell counts on its position, which holds what it held. -/
theorem Recovers.countFailure (h : Recovers equityUsd e) (mint : Mint) :
    Recovers equityUsd (e.countFailure mint) := by
  refine h.of_fields rfl rfl rfl fun m => ?_
  show ((bookFailure e.positions mint e.cfg.maxExitAttempts).lookup m).map Position.holding = _
  cases hpos : e.positions.lookup mint with
  | none => rw [bookFailure_of_unheld hpos]
  | some pos =>
      rw [bookFailure_of_lookup hpos]
      by_cases hm : m = mint
      · rw [hm, Finmap.lookup_insert, hpos]
        rfl
      · rw [Finmap.lookup_insert_of_ne _ hm]

theorem Recovers.exitFailed (h : Recovers equityUsd e) (now : DateTime) (x : ExitArgs)
    (err : ExecError) : Recovers equityUsd (e.exitFailed now x.mint x.mode err) := by
  rw [exitFailed_eq]
  have hcounted : Recovers equityUsd (e.countFailure x.mint) := h.countFailure x.mint
  have hnoted : Recovers equityUsd ((e.countFailure x.mint).noteStuck now ⟨e, x⟩) :=
    hcounted.ite ((hcounted.note rfl).alert _ _)
  have hpaged : Recovers equityUsd
      (((e.countFailure x.mint).noteStuck now ⟨e, x⟩).pageUnknown ⟨e, x⟩ err) :=
    hnoted.ite (hnoted.alert _ _)
  exact hpaged.note rfl

/-- A filled slice and its record. -/
theorem Recovers.bought (h : Recovers equityUsd e) {fill : Fill} (hside : fill.side = .buy)
    (hqty : OnGrid fillDp fill.qty) (launchpad : Launchpad) (liquidityUsd : Decimal)
    (now : DateTime) (orderId : String) (mint : Mint) (slice refPrice : Decimal) :
    Recovers equityUsd
      ((e.applyBuyFill fill launchpad liquidityUsd).logOrderAndFill now orderId mint .buy slice
        refPrice fill) := by
  have hlines : ((e.applyBuyFill fill launchpad liquidityUsd).logOrderAndFill now orderId mint .buy
      slice refPrice fill).audit.lines =
      e.audit.lines ++ [.order now orderId mint Side.buy.lower slice refPrice] ++
        [fillRecord fill] := by
    show ((e.audit.append _).append _).lines = _
    rw [(h.reliable.append _).lines_append, h.reliable.lines_append]
  have hbook : recover equityUsd ((e.applyBuyFill fill launchpad liquidityUsd).logOrderAndFill now
      orderId mint .buy slice refPrice fill).audit.lines =
      (recover equityUsd e.audit.lines).bought fill.mint fill.qty
        (fill.notionalUsd + fill.feeUsd) := by
    rw [hlines, recover_concat, record_fillRecord_buy _ hside, recover_concat,
      Recovered.record_of_quiet _ rfl]
  -- the position the fill goes into holds what the trail says
  have htarget : (e.fillTarget fill launchpad liquidityUsd).holding =
      (recover equityUsd e.audit.lines).holdingOf fill.mint := by
    rw [h.holdingOf, fillTarget]
    cases e.positions.lookup fill.mint with
    | none => rfl
    | some pos => rfl
  have hpositions : ((e.applyBuyFill fill launchpad liquidityUsd).logOrderAndFill now orderId mint
      .buy slice refPrice fill).positions =
      e.positions.insert fill.mint
        ((e.fillTarget fill launchpad liquidityUsd).addFill fill liquidityUsd) := rfl
  refine ⟨(h.reliable.append _).append _, ?_, ?_, ?_, ?_, ?_⟩
  · intro m
    rw [hbook, hpositions]
    show ((recover equityUsd e.audit.lines).held.insert _ _).lookup m = _
    by_cases hm : m = fill.mint
    · rw [hm, Finmap.lookup_insert, Finmap.lookup_insert, ← htarget]
      rfl
    · rw [Finmap.lookup_insert_of_ne _ hm, Finmap.lookup_insert_of_ne _ hm, h.held]
  · rw [hbook]
    show (recover equityUsd e.audit.lines).deployedUsd + _ = e.deployedUsd + _
    rw [h.deployed]
  · rw [hbook]
    exact h.equity
  · rw [hbook]
    exact h.residuals
  · intro m pos hpos
    rw [hpositions] at hpos
    rcases FiniteMap.lookup_insert_eq_some hpos with ⟨rfl, rfl⟩ | ⟨-, hold⟩
    · show OnGrid fillDp ((e.fillTarget fill launchpad liquidityUsd).qty + fill.qty)
      refine OnGrid.add ?_ hqty
      unfold fillTarget
      cases hlookup : e.positions.lookup fill.mint with
      | none => exact onGrid_zero fillDp
      | some pos => exact h.grid _ _ hlookup
    · exact h.grid _ _ hold

/-- What a filled exit writes: perhaps the breaker, the order, the fill, the trade. -/
theorem exitFilled_lines (hlogged : e.Logged) (now : DateTime) (x : ExitArgs)
    (orderId : String) (fill : Fill) :
    ∃ notes, (∀ record ∈ notes, record.isFill = false) ∧
      (e.exitFilled now x orderId fill).audit.lines =
        e.audit.lines ++ notes ++ [fillRecord fill] ++ [.tradeClosed (tradeOf x fill now)] := by
  refine ⟨(if !e.risk.killSwitch &&
      (e.risk.recordRealizedPnl (tradeOf x fill now).pnlUsd now).killSwitch then
    [.breaker now "daily loss limit tripped"] else []) ++
      [.order now orderId x.mint "sell" x.qty x.refPrice], ?_, ?_⟩
  · intro record hrecord
    rcases List.mem_append.mp hrecord with hbreaker | horder
    · split at hbreaker
      · rw [List.mem_singleton.mp hbreaker]
        rfl
      · exact absurd hbreaker (by simp)
    · rw [List.mem_singleton.mp horder]
      rfl
  · rw [exitFilled_records x now orderId fill hlogged]
    simp

/-- A filled exit of a held position and its record. -/
theorem Recovers.sold (h : Recovers equityUsd e) {x : ExitArgs} {pos : Position}
    (hpos : e.positions.lookup x.mint = some pos) (hqty : x.qty = pos.qty)
    (hcost : x.cost = pos.costUsd) {fill : Fill} (hside : fill.side = .sell)
    (hmint : fill.mint = x.mint) (hfilled : fill.qty = x.qty) (now : DateTime)
    (orderId : String) : Recovers equityUsd (e.exitFilled now x orderId fill) := by
  obtain ⟨notes, hquiet, hlines⟩ := exitFilled_lines h.reliable now x orderId fill
  obtain ⟨-, -, -, hequity, hdeployed, hpositions, -, -⟩ :=
    fields_of_trading (trading_exitFilled e now x orderId fill)
  have hbook : recover equityUsd (e.exitFilled now x orderId fill).audit.lines =
      (recover equityUsd e.audit.lines).sold x.mint fill.qty (proceedsOf fill) := by
    rw [hlines, recover_concat, Recovered.record_of_quiet _ rfl, recover_concat,
      recover_append_quiet equityUsd _ hquiet, record_fillRecord_sell _ hside, hmint]
  -- the exit was for the whole position
  have hheld : (recover equityUsd e.audit.lines).holdingOf x.mint = pos.holding := by
    rw [h.holdingOf, hpos]
    rfl
  refine ⟨exitFilled_logged x now orderId fill h.reliable, ?_, ?_, ?_, ?_, ?_⟩
  · intro m
    rw [hbook, hpositions]
    show ((recover equityUsd e.audit.lines).held.erase x.mint).lookup m =
      ((e.positions.erase x.mint).lookup m).map Position.holding
    by_cases hm : m = x.mint
    · rw [hm, Finmap.lookup_erase, Finmap.lookup_erase]
      rfl
    · rw [Finmap.lookup_erase_ne hm, Finmap.lookup_erase_ne hm, h.held]
  · rw [hbook, hdeployed]
    show (recover equityUsd e.audit.lines).deployedUsd - _ = e.deployedUsd - x.cost
    rw [h.deployed, hheld, hcost]
    rfl
  · rw [hbook, hequity]
    show (recover equityUsd e.audit.lines).equityUsd + (proceedsOf fill - _) =
      e.equity + (proceedsOf fill - x.cost)
    rw [h.equity, hheld, hcost]
    rfl
  · intro q hq
    rw [hbook] at hq
    rcases List.mem_append.mp hq with hold | hlast
    · exact h.residuals q hold
    · rw [List.mem_singleton.mp hlast, hheld, hfilled, hqty]
      exact sub_self _
  · intro m p hp
    rw [hpositions] at hp
    exact h.grid m p (FiniteMap.lookup_erase_eq_some hp).2

variable {ex : Executor σ}

theorem Recovers.sendSlice (h : Recovers equityUsd e) (hgrid : ex.SettlesOnGrid)
    (launch : Launch) (deadline : DateTime) (slice : Decimal) :
    Recovers equityUsd (e.sendSlice ex launch deadline slice).1 := by
  rcases hbuy : ex.buy (sliceRequest launch deadline slice (e.nextOrderId launch.mint).1) e.exec
    with ⟨err | fill, st⟩
  · have hsubmitted : Recovers equityUsd (e.submitted st) := h.of_fields rfl rfl rfl fun _ => rfl
    rw [sendSlice_failed hbuy]
    exact hsubmitted.buyFailed _ _ _ _
  · have hsubmitted : Recovers equityUsd (e.submitted st) := h.of_fields rfl rfl rfl fun _ => rfl
    obtain ⟨hside, hqty⟩ := hgrid.buy _ _ _ _ hbuy
    rw [sendSlice_filled hbuy]
    exact hsubmitted.bought hside hqty _ _ _ _ _ _ _

theorem Recovers.closePosition (h : Recovers equityUsd e) (hgrid : ex.SettlesOnGrid)
    {x : ExitArgs} {pos : Position} (hpos : e.positions.lookup x.mint = some pos)
    (hqty : x.qty = pos.qty) (hcost : x.cost = pos.costUsd) (now : DateTime) :
    Recovers equityUsd (e.closePosition ex x now) := by
  rcases hsell : ex.sell (sellRequest x now (e.nextOrderId x.mint).1) e.exec
    with ⟨err | fill, st⟩
  · have hsubmitted : Recovers equityUsd
        ((e.withRisk (e.risk.pushOrder now)).submitted st) := h.of_fields rfl rfl rfl fun _ => rfl
    rw [closePosition_failed hsell]
    exact hsubmitted.exitFailed now x err
  · have hsubmitted : Recovers equityUsd
        ((e.withRisk (e.risk.pushOrder now)).submitted st) := h.of_fields rfl rfl rfl fun _ => rfl
    obtain ⟨hside, hmint, hfilled⟩ := hgrid.sell _ _ _ _ hsell
    -- a held quantity is on the grid, so the fill is for all of it
    have honGrid : OnGrid fillDp x.qty := by
      rw [hqty]
      exact h.grid _ _ hpos
    rw [closePosition_filled hsell]
    exact hsubmitted.sold hpos hqty hcost hside hmint (hfilled honGrid) _ _

/-- A tick holds what was held. -/
theorem Recovers.ticked (h : Recovers equityUsd e) {p : PriceUpdate} {pos : Position}
    (hpos : e.positions.lookup p.mint = some pos) : Recovers equityUsd (e.ticked p pos) := by
  have hsame := onPrice_sameHolding
    { pos with lastPrice := p.priceUsd, lastLiquidityUsd := p.liquidityUsd } p.priceUsd p.ts e.cfg
  refine h.of_fields rfl rfl rfl fun m => ?_
  show ((e.positions.insert p.mint _).lookup m).map Position.holding = _
  by_cases hm : m = p.mint
  · rw [hm, Finmap.lookup_insert, hpos, Option.map_some, Option.map_some, Position.holding,
      Position.holding, tickPosition, hsame.qty, hsame.costUsd]
  · rw [Finmap.lookup_insert_of_ne _ hm]

/-- Every small step keeps the trail and the book in line. -/
theorem Step.recovers (hgrid : ex.SettlesOnGrid) {ev : Event} {phase : Phase}
    (hstep : Step ex ev phase e e') (hkeyed : e.Keyed) (h : Recovers equityUsd e) :
    Recovers equityUsd e' := by
  cases hstep with
  | note e mint action detail => exact h.note rfl
  | refresh e => exact h.of_fields rfl rfl rfl fun _ => rfl
  | slice e launch budgetUsd hev hopen hwindow hroom =>
      have hgranted : Recovers equityUsd
          (e.withRisk ((e.risk.refresh launch.createdAt).pushOrder launch.createdAt)) :=
        h.of_fields rfl rfl rfl fun _ => rfl
      exact hgranted.sendSlice hgrid _ _ _
  | tick e p pos hev hpos hstay => exact h.ticked hpos
  | tickExit e p pos d hev hpos hexit =>
      exact (h.ticked hpos).closePosition hgrid (ticked_lookup hkeyed hpos) rfl rfl _
  | timeExit e pos x hpos hdue =>
      obtain ⟨d, -, -, rfl⟩ := timeStopExit_eq_exitArgs hdue
      exact h.closePosition hgrid hpos rfl rfl _
  | page e kind detail => exact h.alert _ _

end Recovers

theorem recovers_new (cfg : Config) (st : σ) (today : Int) :
    Recovers cfg.equityUsd (Engine.new cfg st (.opened fun _ => true) today) where
  reliable _ := rfl
  held _ := rfl
  deployed := rfl
  equity := rfl
  residuals := by simp [Engine.new, AuditLog.opened, recover, Recovered.start]
  grid := by simp [Engine.new]

theorem recovers_run {ex : Executor σ} (hgrid : ex.SettlesOnGrid) (cfg : Config) (st : σ)
    (today : Int) (ds : List Delivery) :
    Recovers cfg.equityUsd (run ex (Engine.new cfg st (.opened fun _ => true) today) ds) :=
  run_of_steps (fun _ _ _ _ hstep hkeyed h => hstep.recovers hgrid hkeyed h)
    (keyed_new _ _ _ _) (recovers_new cfg st today) ds

/-- **The audit trail determines the book.**  In every paper run, with any failure
rate and a log that takes every append, folding the fill records gives after every
event the engine's open mints with their quantities and costs, its deployed capital
and its equity; and every sell leaves nothing of its mint. -/
theorem recover_run (cfg : Config) (px : PaperExecutor) (today : Int) (ds : List Delivery) :
    let e := run px.executor (Engine.new cfg () (.opened fun _ => true) today) ds
    let book := recover cfg.equityUsd e.audit.lines
    (∀ mint, book.held.lookup mint = (e.positions.lookup mint).map Position.holding) ∧
      book.deployedUsd = e.deployedUsd ∧ book.equityUsd = e.equity ∧
      ∀ residual ∈ book.residuals, residual = 0 := by
  intro e book
  have h : Recovers cfg.equityUsd e := recovers_run px.settlesOnGrid cfg () today ds
  exact ⟨h.held, h.deployed, h.equity, h.residuals⟩

end Engine

end HfmcBot
