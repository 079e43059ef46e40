import HfmcBot.Engine.Machine

/-!
# Restoring in checked decimals

The self-check compares `deployed_usd`, which grew one fill at a time, with the sum of the
costs on the book, which is taken in the iteration order of a hash map.  With rounding sums
the order counts, and the next process iterates in another one.

* `checkInvariants_ok_iff`: what the self-check asks for, in its visiting order;
* `restore_resumes_iff`: a state that passed it comes back whole exactly if the costs sum up
  to `deployed_usd` in the order of the process that restores;
* `openCost_of_exact`: they do in every order where nothing is rounded;
* `restore_refused`: three positions whose snapshot is refused.
-/

namespace HfmcBot

open Foundation

namespace Machine

variable {σ : Type} {fmt : NumberFormat} {cfg : Config} {e e' : Engine σ} {ex : Executor σ}

/-- A computation that gets through gets its value. -/
theorem eq_ok_of_isOk {α : Type} (x : Except ArithStop α) (a : α) (h : x.isOk = true) :
    x = .ok (x.toOption.getD a) := by
  cases x with
  | error stop => cases h
  | ok b => rfl

/-! ## The self-check -/

/-- The books whose positions all have something in them. -/
def Filled (book : Book) : Prop :=
  ∀ mint pos, book.lookup mint = some pos → 0 < pos.qty ∧ 0 < pos.costUsd

theorem find_unfilled_eq_none_iff (o : KeyOrder Mint) (book : Book) :
    (book.valuesIn o).find? (fun p => p.qty ≤ 0 ∨ p.costUsd ≤ 0) = none ↔ Filled book := by
  rw [List.find?_eq_none]
  constructor
  · intro h mint pos hlookup
    simpa using h pos (FiniteMap.mem_valuesIn.mpr ⟨mint, hlookup⟩)
  · intro h pos hpos
    obtain ⟨mint, hlookup⟩ := FiniteMap.mem_valuesIn.mp hpos
    simpa using h mint pos hlookup

/-- What the self-check asks for.  Only the open costs depend on the visiting order. -/
theorem checkInvariants_ok_iff (o : KeyOrder Mint) (e : Engine σ) :
    checkInvariants fmt o e = .ok (.ok ()) ↔
      ((∃ closedPnl, fmt.sum (e.closed.map ClosedTrade.pnlUsd) = .ok closedPnl ∧
          fmt.add e.cfg.equityUsd closedPnl = .ok e.equity) ∧
        Filled e.positions ∧ falseTrade fmt e.closed = .ok none) ∧
      openCost fmt o e = .ok e.deployedUsd := by
  rw [← find_unfilled_eq_none_iff o]
  constructor
  · intro h
    obtain ⟨closedPnl, hclosed, h⟩ := exists_of_except_bind h
    obtain ⟨expected, hexpected, h⟩ := exists_of_except_bind h
    split at h
    · cases h
    · rename_i hequity
      obtain ⟨cost, hcost, h⟩ := exists_of_except_bind h
      split at h
      · cases h
      · rename_i hdeployed
        split at h
        · cases h
        · rename_i hfilled
          obtain ⟨trade, htrade, h⟩ := exists_of_except_bind h
          cases trade with
          | some t => cases h
          | none =>
              rw [not_not.mp hequity, not_not.mp hdeployed]
              exact ⟨⟨⟨closedPnl, hclosed, hexpected⟩, hfilled, htrade⟩, hcost⟩
  · rintro ⟨⟨⟨closedPnl, hclosed, hequity⟩, hfilled, htrade⟩, hcost⟩
    unfold checkInvariants
    rw [hclosed]
    show (fmt.add e.cfg.equityUsd closedPnl >>= _) = _
    rw [hequity]
    show (if e.equity ≠ e.equity then _ else openCost fmt o e >>= _) = _
    rw [if_neg (not_not.mpr rfl), hcost]
    show (if e.deployedUsd ≠ e.deployedUsd then _ else _) = _
    rw [if_neg (not_not.mpr rfl), hfilled]
    show (falseTrade fmt e.closed >>= _) = _
    rw [htrade]
    rfl

/-! ## Restoring -/

/-- The snapshot of a held state stands for that state, up to the executor's own. -/
theorem Held.rebuilt (h : Held cfg e) (st : σ) (today : Int) (save : KeyOrder Mint) :
    Engine.rebuilt cfg st quiet today (e.state save) = { e with exec := st } := by
  have htrading := Engine.trading_rebuilt h.toResumable st quiet today save
  have hleft : (Engine.rebuilt cfg st quiet today (e.state save)).trading =
      Engine.rebuilt cfg st quiet today (e.state save) := rfl
  have hright : ({ e with exec := st } : Engine σ).trading = { e with exec := st } := by
    show ({ e with exec := st, audit := quiet, alerter := none } : Engine σ) =
      { e with exec := st, audit := e.audit, alerter := e.alerter }
    rw [h.audit, h.alerter]
  rw [hleft, hright] at htrading
  exact htrading

/-- A state that passed the self-check is restored, and whole, exactly if its costs sum up in
the order of the restoring process. -/
theorem Held.restore_iff (h : Held cfg e) {check : KeyOrder Mint}
    (hcheck : checkInvariants fmt check e = .ok (.ok ())) (st : σ) (today : Int)
    (save load : KeyOrder Mint) :
    restore fmt cfg st today load (e.state save) = .ok (.ok { e with exec := st }) ↔
      openCost fmt load e = .ok e.deployedUsd := by
  have hrest := ((checkInvariants_ok_iff check e).mp hcheck).1
  have hsame : checkInvariants fmt load ({ e with exec := st } : Engine σ) = .ok (.ok ()) ↔
      openCost fmt load e = .ok e.deployedUsd :=
    (checkInvariants_ok_iff load ({ e with exec := st } : Engine σ)).trans (and_iff_right hrest)
  rw [← hsame, restore, h.rebuilt st today save]
  constructor
  · intro hrestore
    obtain ⟨checked, hchecked, hrestore⟩ := exists_of_except_bind hrestore
    cases checked with
    | error msg => cases hrestore
    | ok u => exact hchecked
  · intro hchecked
    rw [hchecked]
    rfl

/-- The other process resumes the state: every field is back, and from the same executor
state it sends the same orders and reaches the same states, or stops as they do, on every
further run. -/
structure Resumes (fmt : NumberFormat) (ex : Executor σ) (e e' : Engine (σ × List Sent)) :
    Prop where
  equity : e'.equity = e.equity
  deployedUsd : e'.deployedUsd = e.deployedUsd
  positions : e'.positions = e.positions
  closed : e'.closed = e.closed
  orderSeq : e'.orderSeq = e.orderSeq
  kill : e'.risk.kill = e.risk.kill
  dailyLossTripped : e'.risk.dailyLossTripped = e.risk.dailyLossTripped
  day : e'.risk.day = e.risk.day
  dayRealizedPnl : e'.risk.dayRealizedPnl = e.risk.dayRealizedPnl
  recentOrders : e'.risk.recentOrders = e.risk.recentOrders
  openPositions : e'.risk.openPositions = e.risk.openPositions
  runs : e'.exec = e.exec → ∀ ds, run fmt ex.recorded e' ds = run fmt ex.recorded e ds

/-- **When snapshot then restore resumes exactly.**  Take any state a process can reach, by
events and by earlier restarts, in which the self-check accepts.  Restoring its snapshot in a
process that iterates in the order `load` succeeds and resumes the state if and only if the
rounded sum of the open costs in that order is `deployed_usd`. -/
theorem restore_resumes_iff (fmt : NumberFormat) (cfg : Config) (ex : Executor σ)
    (e : Engine (σ × List Sent)) (hreach : Reachable fmt ex.recorded cfg e)
    (check : KeyOrder Mint) (hcheck : checkInvariants fmt check e = .ok (.ok ()))
    (st : σ) (today : Int) (save load : KeyOrder Mint) :
    (∃ e', restore fmt cfg (st, e.sent) today load (e.state save) = .ok (.ok e') ∧
        Resumes fmt ex e e') ↔
      openCost fmt load e = .ok e.deployedUsd := by
  rw [← hreach.held.restore_iff hcheck (st, e.sent) today save load]
  constructor
  · rintro ⟨e', hrestore, -⟩
    obtain ⟨-, rfl⟩ := restore_eq_ok hrestore
    rw [hrestore, hreach.held.rebuilt]
  · intro hrestore
    refine ⟨_, hrestore, rfl, rfl, rfl, rfl, rfl, rfl, rfl, rfl, rfl, rfl, rfl, ?_⟩
    intro hexec ds
    have hstate : (st, e.sent) = e.exec := hexec
    have hsame : ({ e with exec := (st, e.sent) } : Engine (σ × List Sent)) = e := by
      rw [hstate]
    rw [hsame]

/-- Where no sum of open costs has to be rounded, every order gives the same sum: a snapshot
of a state that passed the self-check is restored in every process. -/
theorem openCost_of_exact {o : KeyOrder Mint}
    (hexact : fmt.SumsExactly ((e.positions.valuesIn o).map Position.costUsd))
    (load : KeyOrder Mint) : openCost fmt load e = openCost fmt o e := by
  have hperm := (FiniteMap.valuesIn_perm o load e.positions).map Position.costUsd
  rw [openCost, openCost, hexact.sum_eq, (hexact.perm hperm).sum_eq, hperm.sum_eq]

/-- The paper executor in the middle of two positions. -/
def twoHeld : Except ArithStop (Engine (Unit × List Sent)) :=
  run decimals (PaperExecutor.new .paperDefaults).executor.recorded.lifted
    (new .paperDefaults ((), []) 0) [launchAt "A" 0 1, launchAt "B" 1 1]

/-- A process that iterates the other way round restores it. -/
theorem restore_resumes_paper :
    ∃ e, twoHeld = .ok e ∧ e.positions.keys.card = 2 ∧
      ∃ e', restore decimals .paperDefaults ((), e.sent) 1 KeyOrder.ascending.reversed
          (e.state .ascending) = .ok (.ok e') ∧
        Resumes decimals (PaperExecutor.new .paperDefaults).executor e e' := by
  have hrun := eq_ok_of_isOk twoHeld (new .paperDefaults ((), []) 0) (by decide +kernel)
  refine ⟨_, hrun, by decide +kernel, ?_⟩
  exact (restore_resumes_iff decimals .paperDefaults (PaperExecutor.new .paperDefaults).executor _
    ((Reachable.new ((), []) 0).run hrun) .ascending (by decide +kernel) () 1 .ascending
    KeyOrder.ascending.reversed).mpr (by decide +kernel)

/-! ## A snapshot that is refused -/

end Machine

/-- Every buy brings one token for the quoted price. -/
def Executor.oneAtQuote : Executor Unit where
  buy req st :=
    (.ok {
      orderId := req.orderId
      mint := req.mint
      side := .buy
      qty := 1
      priceUsd := req.priceUsd
      notionalUsd := req.priceUsd
      feeUsd := 0
      ts := req.now }, st)
  sell := Executor.oneToken.sell

theorem Executor.oneAtQuote_honoursMint : Executor.oneAtQuote.HonoursMint := by
  intro req st fill st' hbuy
  obtain rfl := Except.ok.inj (congrArg Prod.fst hbuy)
  rfl

namespace Machine

/-- The defaults with one slice to a position. -/
def oneSlice : Config := { Config.paperDefaults with funnelSlices := 1 }

/-- A third of ten dollars, to the last place the number type holds. -/
def thirdOfTen : Decimal := 33333333333333333333333333333 / 10 ^ 28

/-- Two positions of a third of ten dollars, and one of five. -/
def thirds : Except ArithStop (Engine (Unit × List Sent)) :=
  run decimals Executor.oneAtQuote.recorded.lifted (new oneSlice ((), []) 0)
    [launchAt "A" 0 thirdOfTen, launchAt "B" 1 thirdOfTen, launchAt "C" 2 5]

/-- The costs sum up to `deployed_usd` in the order in which they were bought.  The other way
round the second sum has a place less to hold, and the last digit comes out one lower. -/
theorem restore_refused :
    oneSlice.Accepted ∧ Executor.oneAtQuote.HonoursMint ∧
      ∃ e, thirds = .ok e ∧ Reachable decimals Executor.oneAtQuote.recorded oneSlice e ∧
        checkInvariants decimals .ascending e = .ok (.ok ()) ∧
        ¬ ∃ e', restore decimals oneSlice ((), e.sent) 0 KeyOrder.ascending.reversed
          (e.state .ascending) = .ok (.ok e') := by
  have hrun := eq_ok_of_isOk thirds (new oneSlice ((), []) 0) (by decide +kernel)
  have hstart : Reachable decimals Executor.oneAtQuote.recorded.lifted oneSlice
      (new oneSlice ((), []) 0) := .new ((), []) 0
  have hreach := hstart.run hrun
  have hcheck : checkInvariants decimals .ascending
      (thirds.toOption.getD (new oneSlice ((), []) 0)) = .ok (.ok ()) := by decide +kernel
  refine ⟨⟨fun _ => true, by decide +kernel⟩, Executor.oneAtQuote_honoursMint, _, hrun, hreach,
    hcheck, ?_⟩
  rintro ⟨e', hrestore⟩
  obtain ⟨-, rfl⟩ := restore_eq_ok hrestore
  rw [hreach.held.rebuilt] at hrestore
  have hsum := (hreach.held.restore_iff hcheck _ _ _ _).mp hrestore
  exact absurd hsum (by decide +kernel)

end Machine

end HfmcBot
