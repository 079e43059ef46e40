import HfmcBot.Engine.Lives
import HfmcBot.Engine.ExitTurns
import HfmcBot.Engine.Throttle

/-!
# Events all of whose orders fail

An order that fails moves no money.  What it leaves behind is a number in the order
counter, a mark in the throttle, and for a sell one more failed exit on its own position.
The count of these is a `u32`, so one more than `2 ^ 32 - 1` is zero.

* `deliver_untouched`: the book and the money after an event all of whose orders fail;
* `deliver_dayPnl`: its day P&L, up to the calendar rollover;
* `onLaunch_stopped`: a funnel that is stopped by a slice leaves what the slices before it
  built;
* `failed_orders_keep_money`: the three together, from every reachable state, and exactly
  when each failed sell raises the count by one;
* `count_wraps`: a run in which a failed sell sets it back to zero.
-/

namespace HfmcBot

open Foundation Relation

/-- What a failed order must leave alone in a position, and the one count it may raise. -/
structure PositionCore where
  qty : Decimal
  costUsd : Decimal
  entryPrice : Decimal
  openedAt : DateTime
  exitAttempts : UInt32

def Position.core (pos : Position) : PositionCore where
  qty := pos.qty
  costUsd := pos.costUsd
  entryPrice := pos.entryPrice
  openedAt := pos.openedAt
  exitAttempts := pos.exitAttempts

/-- So many exits failed. -/
def PositionCore.fail (h : PositionCore) (n : Nat) : PositionCore :=
  { h with exitAttempts := h.exitAttempts + UInt32.ofNat n }

theorem PositionCore.fail_succ (h : PositionCore) (n : Nat) : h.fail (n + 1) = (h.fail n).fail 1 := by
  unfold PositionCore.fail
  rw [UInt32.ofNat_add, UInt32.add_assoc]

/-- The failed sells of a mint among some orders. -/
def failedSells (orders : List Sent) (mint : Mint) : Nat :=
  orders.countP fun s => decide (s.order.side = .sell ∧ s.order.mint = mint ∧ s.filled = false)

theorem failedSells_concat (orders : List Sent) (s : Sent) (mint : Mint) :
    failedSells (orders ++ [s]) mint =
      failedSells orders mint +
        if s.order.side = .sell ∧ s.order.mint = mint ∧ s.filled = false then 1 else 0 := by
  unfold failedSells
  rw [List.countP_append, List.countP_singleton]
  simp

namespace Desk

/-- The desk after orders that all failed: the money is what it was, and each position
holds what it held, with its own failed sells counted as far as a `u32` counts. -/
structure Untouched (d d' : Desk) (orders : List Sent) : Prop where
  equity : d'.equity = d.equity
  deployedUsd : d'.deployedUsd = d.deployedUsd
  closed : d'.closed = d.closed
  book : ∀ mint, (d'.book.lookup mint).map Position.core =
    (d.book.lookup mint).map fun pos => pos.core.fail (failedSells orders mint)

theorem Untouched.refl (d : Desk) : d.Untouched d [] := by
  have hnone : ∀ h : PositionCore, h.fail 0 = h := fun h => by
    unfold PositionCore.fail
    rw [show UInt32.ofNat 0 = 0 from rfl, UInt32.add_zero]
  refine ⟨rfl, rfl, rfl, fun mint => congrArg (fun f => (d.book.lookup mint).map f) ?_⟩
  exact funext fun pos => (hnone pos.core).symm

/-- A failed buy changes nothing. -/
theorem Untouched.buyFailed {d d' : Desk} {orders : List Sent} (h : d.Untouched d' orders)
    (req : BuyRequest) (err : ExecError) :
    d.Untouched (d'.record (.buy req) (.error err)) (orders ++ [⟨.buy req, .error err⟩]) := by
  refine ⟨h.equity, h.deployedUsd, h.closed, fun mint => ?_⟩
  have hsame : failedSells (orders ++ [⟨.buy req, .error err⟩]) mint = failedSells orders mint := by
    rw [failedSells_concat, if_neg (by simp [Order.side]), add_zero]
  rw [hsame]
  exact h.book mint

/-- A tick leaves every holding alone. -/
theorem Untouched.tick {d d' : Desk} {orders : List Sent} (h : d.Untouched d' orders)
    {cfg : Config} {p : PriceUpdate} {pos : Position} (hpos : d'.book.lookup p.mint = some pos) :
    d.Untouched { d' with book := d'.book.insert p.mint (Engine.tickPosition cfg p pos).1 }
      orders := by
  refine ⟨h.equity, h.deployedUsd, h.closed, fun mint => ?_⟩
  rw [← h.book mint]
  by_cases hmint : mint = p.mint
  · subst hmint
    obtain ⟨-, h2, h3, h4, h5, h6, -⟩ := Engine.tickPosition_sameHolding cfg p pos
    rw [Finmap.lookup_insert, hpos, Option.map_some, Option.map_some, Option.some_inj]
    unfold Position.core
    rw [h2, h3, h4, h5, h6]
  · rw [Finmap.lookup_insert_of_ne _ hmint]

/-- A failed sell counts on its own position, and on no other. -/
theorem Untouched.sellFailed {d d' : Desk} {orders : List Sent} (h : d.Untouched d' orders)
    {cfg : Config} {pos : Position} (hpos : d'.book.lookup pos.mint = some pos)
    {req : SellRequest} (hreq : req.mint = pos.mint) (err : ExecError) :
    d.Untouched ((d'.record (.sell req) (.error err)).missed cfg pos)
      (orders ++ [⟨.sell req, .error err⟩]) := by
  refine ⟨h.equity, h.deployedUsd, h.closed, fun mint => ?_⟩
  have hbook := h.book mint
  rw [failedSells_concat]
  show ((d'.book.insert pos.mint (pos.failExit cfg.maxExitAttempts)).lookup mint).map _ = _
  by_cases hmint : mint = pos.mint
  · subst hmint
    rw [if_pos ⟨rfl, hreq, rfl⟩, Finmap.lookup_insert, Option.map_some]
    rw [hpos, Option.map_some] at hbook
    cases hstart : d.book.lookup pos.mint with
    | none =>
        rw [hstart] at hbook
        exact absurd hbook (by simp)
    | some start =>
        rw [hstart, Option.map_some, Option.some_inj] at hbook
        have hcount : (pos.failExit cfg.maxExitAttempts).core = pos.core.fail 1 := rfl
        rw [Option.map_some, Option.some_inj, hcount, hbook]
        exact (PositionCore.fail_succ _ _).symm
  · rw [if_neg fun hall => hmint (hall.2.1.symm.trans hreq), add_zero,
      Finmap.lookup_insert_of_ne _ hmint]
    exact hbook

end Desk

section Desks

variable {σ : Type} {ex : Executor σ} {cfg : Config} {ev : Event} {start d d' : Desk}

/-- The orders since `start` are on record, and if they all failed the money is as it
was. -/
def Desk.KeptSince (start d : Desk) : Prop :=
  ∃ orders, d.sent = start.sent ++ orders ∧
    ((∀ s ∈ orders, s.filled = false) → start.Untouched d orders)

/-- One more order on record. -/
theorem Desk.KeptSince.record {d₂ : Desk} (h : start.KeptSince d) {s : Sent}
    (hsent : d₂.sent = d.sent ++ [s])
    (hstep : ∀ orders, s.filled = false → start.Untouched d orders →
      start.Untouched d₂ (orders ++ [s])) : start.KeptSince d₂ := by
  obtain ⟨orders, hlog, hkept⟩ := h
  refine ⟨orders ++ [s], by rw [hsent, hlog, List.append_assoc], fun hall => ?_⟩
  have hlast : s.filled = false := hall s (List.mem_append_right _ (List.mem_singleton.mpr rfl))
  exact hstep orders hlast (hkept fun s' hs' => hall s' (List.mem_append_left _ hs'))

theorem DeskStep.keptSince (hstep : DeskStep ex cfg ev d d') (h : start.KeptSince d) :
    start.KeptSince d' := by
  cases hstep with
  | tick p pos hev hpos =>
      obtain ⟨orders, hlog, hkept⟩ := h
      exact ⟨orders, hlog, fun hall => (hkept hall).tick hpos⟩
  | buyFailed launch deadline slice orderId st err hev hbuy =>
      exact h.record rfl fun orders _ hkept => hkept.buyFailed _ err
  | buyFilled launch deadline slice orderId st fill hev hbuy =>
      exact h.record rfl fun orders hfilled _ => absurd hfilled (by simp [Sent.filled])
  | sellFailed pos refPrice liquidityUsd reason orderId st err hpos hsell =>
      exact h.record rfl fun orders _ hkept => hkept.sellFailed hpos rfl err
  | sellFilled pos refPrice liquidityUsd reason orderId st fill hpos hsell =>
      exact h.record rfl fun orders hfilled _ => absurd hfilled (by simp [Sent.filled])

end Desks

namespace Engine

variable {σ : Type} {ex : Executor σ}

/-- The book and the money after an event all of whose orders fail. -/
theorem deliver_untouched {e : Engine (σ × List Sent)} (hkeyed : e.Keyed) (d : Delivery)
    (hfailed : ∀ s ∈ sentSince e (e.deliver ex.recorded d), s.filled = false) :
    e.desk.Untouched (e.deliver ex.recorded d).desk (sentSince e (e.deliver ex.recorded d)) := by
  have hstart : e.desk.KeptSince e.desk :=
    ⟨[], (List.append_nil _).symm, fun _ => Desk.Untouched.refl _⟩
  have hevent : e.desk.KeptSince (e.deliver ex.recorded d).desk :=
    onEvent_desk hkeyed (fun _ _ hstep h => DeskStep.keptSince hstep h) hstart
  obtain ⟨orders, hlog, hkept⟩ := hevent
  have hsince : sentSince e (e.deliver ex.recorded d) = orders := sentSince_of_append hlog
  rw [hsince] at hfailed ⊢
  exact hkept hfailed

/-! ## Day P&L -/

/-- The day P&L is kept, or it rolled over to the day of `now`. -/
def DayKept (now : DateTime) (r r' : RiskEngine) : Prop :=
  (r'.day = r.day ∧ r'.dayRealizedPnl = r.dayRealizedPnl) ∨
    (r'.day = dateNaive now ∧ r'.dayRealizedPnl = (r.maybeRollover now).dayRealizedPnl)

theorem DayKept.refresh {now : DateTime} {r r' : RiskEngine} (h : DayKept now r r') :
    DayKept now r (r'.refresh now) := by
  right
  refine ⟨r'.refresh_day now, ?_⟩
  rw [RiskEngine.refresh_dayRealizedPnl]
  rcases h with ⟨hday, hpnl⟩ | ⟨hday, hpnl⟩
  · unfold RiskEngine.maybeRollover
    rw [hday]
    split
    · rfl
    · exact hpnl
  · rw [r'.maybeRollover_of_day now hday, hpnl]

/-- The day P&L is kept as long as no order since `start` was filled. -/
def DayKeptSince (ev : Event) (start e : Engine (σ × List Sent)) : Prop :=
  ∃ orders, e.sent = start.sent ++ orders ∧
    ((∀ s ∈ orders, s.filled = false) → DayKept ev.ts start.risk e.risk)

theorem DayKeptSince.order {ev : Event} {start e e' : Engine (σ × List Sent)}
    (h : DayKeptSince ev start e) {s : Sent} (hsent : e'.sent = e.sent ++ [s])
    (hrisk : s.filled = false → DayKept ev.ts start.risk e.risk →
      DayKept ev.ts start.risk e'.risk) : DayKeptSince ev start e' := by
  obtain ⟨orders, hlog, hkept⟩ := h
  refine ⟨orders ++ [s], by rw [hsent, hlog, List.append_assoc], fun hall => ?_⟩
  exact hrisk (hall s (List.mem_append_right _ (List.mem_singleton.mpr rfl)))
    (hkept fun s' hs' => hall s' (List.mem_append_left _ hs'))

/-- An exit that fails only marks the throttle. -/
theorem DayKeptSince.closePosition {ev : Event} {start e : Engine (σ × List Sent)}
    (h : DayKeptSince ev start e) (x : ExitArgs) :
    DayKeptSince ev start (e.closePosition ex.recorded x ev.ts) := by
  refine h.order (closePosition_sent ex e x ev.ts) fun hfailed hkept => ?_
  rcases closePosition_cases ex.recorded e x ev.ts with
    ⟨err, st, -, hclose⟩ | ⟨fill, st, hsell, -⟩
  · rw [(fields_of_trading hclose).risk]
    exact hkept
  · rw [hsell] at hfailed
    exact absurd hfailed (by simp [Sent.filled])

theorem Step.dayKeptSince {ev : Event} {phase : Phase} {start e e' : Engine (σ × List Sent)}
    (hstep : Step ex.recorded ev phase e e') (h : DayKeptSince ev start e) :
    DayKeptSince ev start e' := by
  cases hstep with
  | note e mint action detail => exact h
  | refresh e =>
      obtain ⟨orders, hlog, hkept⟩ := h
      exact ⟨orders, hlog, fun hall => (hkept hall).refresh⟩
  | slice e launch budgetUsd hev hopen hwindow hroom =>
      subst hev
      refine h.order (sendSlice_sent ex
        (e.withRisk ((e.risk.refresh launch.createdAt).pushOrder launch.createdAt)) launch
        (funnelDeadline e.cfg launch) budgetUsd) fun hfailed hkept => ?_
      rcases sendSlice_cases ex.recorded
        (e.withRisk ((e.risk.refresh launch.createdAt).pushOrder launch.createdAt)) launch
        (funnelDeadline e.cfg launch) budgetUsd with
        ⟨err, st, -, hsend, -⟩ | ⟨fill, st, hbuy, -, -⟩
      · rw [(fields_of_trading hsend).risk]
        exact hkept.refresh
      · rw [hbuy] at hfailed
        exact absurd hfailed (by simp [Sent.filled])
  | tick e p pos hev hpos hstay => exact h
  | tickExit e p pos d hev hpos hexit =>
      have hts : p.ts = ev.ts := by rw [hev]; rfl
      have hticked : DayKeptSince ev start (e.ticked p pos) := h
      rw [hts]
      exact hticked.closePosition _
  | timeExit e pos x hpos hdue => exact h.closePosition x
  | page e kind detail => exact h

/-- The day P&L after an event all of whose orders fail. -/
theorem deliver_dayPnl {e : Engine (σ × List Sent)} (hkeyed : e.Keyed) (d : Delivery)
    (hfailed : ∀ s ∈ sentSince e (e.deliver ex.recorded d), s.filled = false) :
    (e.deliver ex.recorded d).risk.dayRealizedPnl = e.risk.dayRealizedPnl ∨
      (e.deliver ex.recorded d).risk.dayRealizedPnl =
        (e.risk.maybeRollover d.ts).dayRealizedPnl := by
  have hstart : DayKeptSince d.ev e e :=
    ⟨[], (List.append_nil _).symm, fun _ => Or.inl ⟨rfl, rfl⟩⟩
  obtain ⟨orders, hlog, hkept⟩ := onEvent_invariant (P := DayKeptSince d.ev e)
    (fun _ _ _ hstep _ h => hstep.dayKeptSince h) d.order hkeyed hstart
  have hsince : sentSince e (e.deliver ex.recorded d) = orders := sentSince_of_append hlog
  rw [hsince] at hfailed
  rcases hkept hfailed with ⟨-, hpnl⟩ | ⟨-, hpnl⟩
  · exact Or.inl hpnl
  · exact Or.inr hpnl

/-! ## A funnel that is stopped -/

/-- The book and the money. -/
def books (e : Engine σ) : Book × Decimal × Decimal × List ClosedTrade :=
  (e.positions, e.equity, e.deployedUsd, e.closed)

theorem books_of_trading {e e' : Engine σ} (h : e.trading = e'.trading) : e.books = e'.books := by
  obtain ⟨-, -, -, hequity, hdeployed, hpos, hclosed, -⟩ := fields_of_trading h
  unfold books
  rw [hequity, hdeployed, hpos, hclosed]

/-- A slice that does not fill leaves the books as it found them. -/
theorem SliceTurn.books_after {ex : Executor σ} {launch : Launch} {deadline : DateTime}
    {total : Nat} (turn : SliceTurn σ) (h : turn.fills ex launch deadline total = false) :
    (turn.after ex launch deadline total).books = turn.before.books := by
  unfold SliceTurn.fills at h
  unfold SliceTurn.after
  rcases funnelSlice_cases ex turn.before launch deadline turn.idx total turn.slice with
    ⟨-, hturn⟩ | ⟨-, -, block, hturn⟩ | ⟨-, -, hturn⟩
  · rw [hturn]
    rfl
  · rw [hturn]
    rfl
  · rw [hturn] at h ⊢
    rcases sendSlice_cases ex (turn.before.withRisk
      ((turn.before.risk.refresh launch.createdAt).pushOrder launch.createdAt)) launch deadline
      turn.slice with ⟨err, st, -, hsend, -⟩ | ⟨fill, st, -, -, hflag⟩
    · exact (books_of_trading hsend).trans rfl
    · rw [hflag] at h
      exact absurd h (by simp)

/-- A funnel that a slice stops has the books of the funnel on the slices before it. -/
theorem funnel_stopped {ex : Executor σ} {launch : Launch} {deadline : DateTime} {total : Nat}
    (slices : List Decimal) : ∀ (idx : Nat) (e : Engine σ),
      ∀ turn ∈ funnelTurns ex launch deadline total idx slices e,
        turn.fills ex launch deadline total = false →
          idx ≤ turn.idx ∧
          (funnel ex launch deadline total idx slices e).books =
            (funnel ex launch deadline total idx (slices.take (turn.idx - idx)) e).books := by
  induction slices with
  | nil =>
      intro idx e turn hturn
      exact absurd hturn (by simp [funnelTurns])
  | cons slice rest ih =>
      intro idx e turn hturn hstop
      unfold funnelTurns at hturn
      rcases List.mem_cons.mp hturn with rfl | hlater
      · -- the first slice stops it, so there is no slice before
        have hflag := SliceTurn.stops ex launch deadline total ⟨e, idx, slice⟩ hstop
        refine ⟨le_refl idx, ?_⟩
        rw [Nat.sub_self, List.take_zero]
        unfold funnel
        dsimp only
        rw [if_neg hflag]
        exact SliceTurn.books_after ⟨e, idx, slice⟩ hstop
      · by_cases hgo : (e.funnelSlice ex launch deadline idx total slice).2 = true
        · rw [if_pos hgo] at hlater
          obtain ⟨hle, hbooks⟩ := ih (idx + 1) _ turn hlater hstop
          obtain ⟨k, hk⟩ : ∃ k, turn.idx - idx = k + 1 := ⟨turn.idx - (idx + 1), by omega⟩
          have hk' : turn.idx - (idx + 1) = k := by omega
          refine ⟨by omega, ?_⟩
          rw [hk, List.take_succ_cons]
          rw [hk'] at hbooks
          unfold funnel
          dsimp only
          rw [if_pos hgo, if_pos hgo]
          exact hbooks
        · rw [if_neg hgo] at hlater
          exact absurd hlater (by simp)

/-- The same for a launch. -/
theorem onLaunch_stopped {ex : Executor σ} {e : Engine σ} {launch : Launch}
    (hadmitted : e.Admitted launch) {turn : SliceTurn σ}
    (hturn : turn ∈ launchTurns ex e launch)
    (hstop : turn.fills ex launch (funnelDeadline e.cfg launch) e.slices.length = false) :
    (e.onLaunch ex launch).books =
      (funnel ex launch (funnelDeadline e.cfg launch) e.slices.length 0
        (e.slices.take turn.idx) (e.funnelStart launch)).books := by
  rw [onLaunch_admitted ex hadmitted]
  exact (funnel_stopped e.slices 0 (e.funnelStart launch) turn hturn hstop).2

/-! ## Every reachable state -/

/-- All orders of the event fail. -/
def AllFail (ex : Executor σ) (e : Engine (σ × List Sent)) (d : Delivery) : Prop :=
  ∀ s ∈ sentSince e (e.deliver ex.recorded d), s.filled = false

/-- What a failed sell should do to the book: one more failed exit on its own position, and
nothing else. -/
def CountsOnce (ex : Executor σ) (now : DateTime) (turn : ExitTurn σ) : Prop :=
  ∃ pos pos', turn.before.positions.lookup turn.args.mint = some pos ∧
    (turn.after ex now).positions = turn.before.positions.insert turn.args.mint pos' ∧
    pos'.exitAttempts.toNat = pos.exitAttempts.toNat + 1

/-- A failed sell does so as long as the count has room for one more. -/
theorem countsOnce_iff {ex : Executor σ} {now : DateTime} {turn : ExitTurn σ} {pos : Position}
    (hlookup : turn.before.positions.lookup turn.args.mint = some pos) {err : ExecError}
    (herr : turn.answer ex now = .error err) :
    CountsOnce ex now turn ↔ pos.exitAttempts.toNat + 1 < 2 ^ 32 := by
  have hbook : (turn.after ex now).positions = turn.before.positions.insert turn.args.mint
      (pos.failExit turn.before.cfg.maxExitAttempts) := by
    rcases closePosition_cases ex turn.before turn.args now with
      ⟨err', st, -, hclose⟩ | ⟨fill, st, hsell, -⟩
    · exact ((fields_of_trading hclose).positions).trans (bookFailure_of_lookup hlookup _)
    · have hok : turn.answer ex now = .ok fill := congrArg Prod.fst hsell
      rw [herr] at hok
      exact absurd hok (by simp)
  have hnext : (pos.failExit turn.before.cfg.maxExitAttempts).exitAttempts.toNat =
      (pos.exitAttempts.toNat + 1) % 2 ^ 32 := UInt32.toNat_add _ _
  have hlt : pos.exitAttempts.toNat < 2 ^ 32 := pos.exitAttempts.toNat_lt
  constructor
  · rintro ⟨q, q', hq, hinsert, hcount⟩
    rw [hlookup, Option.some_inj] at hq
    subst hq
    have hsame : q' = pos.failExit turn.before.cfg.maxExitAttempts := by
      have hentry := congrArg (Finmap.lookup turn.args.mint) (hinsert.symm.trans hbook)
      rw [Finmap.lookup_insert, Finmap.lookup_insert] at hentry
      exact Option.some.inj hentry
    rw [hsame, hnext] at hcount
    omega
  · intro hroom
    refine ⟨pos, _, hlookup, hbook, ?_⟩
    rw [hnext, Nat.mod_eq_of_lt hroom]

/-- **The money under failed orders**: an event all of whose orders fail leaves equity,
deployed capital, closed trades and holdings alone, keeps the day P&L up to the calendar
rollover, and counts each failed sell once on its own position; and a funnel that a later
slice stops leaves what the slices before it built. -/
structure KeepsMoney (ex : Executor σ) (e : Engine (σ × List Sent)) (d : Delivery) : Prop where
  untouched : AllFail ex e d →
    e.desk.Untouched (e.deliver ex.recorded d).desk (sentSince e (e.deliver ex.recorded d))
  dayPnl : AllFail ex e d →
    (e.deliver ex.recorded d).risk.dayRealizedPnl = e.risk.dayRealizedPnl ∨
      (e.deliver ex.recorded d).risk.dayRealizedPnl =
        (e.risk.maybeRollover d.ts).dayRealizedPnl
  counts : AllFail ex e d →
    ∀ turn ∈ e.exitTurns ex.recorded d.order d.ev, CountsOnce ex.recorded d.ts turn
  stopped : ∀ launch, e.Admitted launch → ∀ turn ∈ launchTurns ex.recorded e launch,
    turn.fills ex.recorded launch (funnelDeadline e.cfg launch) e.slices.length = false →
      (e.onLaunch ex.recorded launch).books =
        (funnel ex.recorded launch (funnelDeadline e.cfg launch) e.slices.length 0
          (e.slices.take turn.idx) (e.funnelStart launch)).books

/-- A position that a tick exit is about to sell can count one more failure. -/
def CountRoom (e : Engine σ) (ev : Event) : Prop :=
  ∀ p pos, ev = .price p → e.positions.lookup p.mint = some pos →
    (tickPosition e.cfg p pos).2 ≠ none → pos.exitAttempts.toNat + 1 < 2 ^ 32

/-- The flag is set at the limit in every reachable state. -/
theorem Reachable.stuckAtLimit {cfg : Config} {e : Engine (σ × List Sent)}
    (h : Reachable ex.recorded cfg e) : e.desk.StuckAtLimit cfg := by
  induction h with
  | new st audit today => exact fun mint pos hpos => absurd hpos (by simp [desk, Engine.new])
  | event d h ih =>
      refine onEvent_desk h.resumable.keyed (fun _ _ hstep hd => ?_) ih
      rw [h.resumable.cfg_eq] at hstep
      exact hstep.stuckAtLimit hd
  | @restored e e' st audit today save load h hrestore ih =>
      have hbook : e'.positions = e.positions := by
        rw [restore_eq_ok hrestore]
        exact bookOf_state h.resumable.keyed save
      intro mint pos hpos
      have hold : e.desk.book.lookup mint = some pos := by
        change e'.positions.lookup mint = some pos at hpos
        rw [hbook] at hpos
        exact hpos
      exact ih mint pos hold

/-- If all orders fail, each exit of the event is refused. -/
theorem AllFail.refused {e : Engine (σ × List Sent)} {d : Delivery} (h : AllFail ex e d) :
    ∀ turn ∈ e.exitTurns ex.recorded d.order d.ev,
      ∃ err, turn.answer ex.recorded d.ts = .error err := by
  intro turn hturn
  obtain ⟨buys, hsent, -⟩ := deliver_sent ex e d
  have hsince := sentSince_of_append (hsent.trans (List.append_assoc _ _ _))
  have hfailed := h (orderOf ex d.ts turn) (by
    rw [hsince]
    exact List.mem_append_right _ (List.mem_map_of_mem hturn))
  cases hanswer : turn.answer ex.recorded d.ts with
  | error err => exact ⟨err, rfl⟩
  | ok fill =>
      unfold Sent.filled orderOf at hfailed
      dsimp only at hfailed
      rw [hanswer] at hfailed
      exact absurd hfailed (by simp)

/-- A sweep sells positions that are not stuck, and these have room. -/
theorem sweepTurns_room {cfg : Config} {e : Engine (σ × List Sent)}
    (hreach : Reachable ex.recorded cfg e) (d : Delivery) :
    ∀ turn ∈ sweepTurns ex.recorded d.order (e.handle ex.recorded d.ev) d.ts,
      ∃ pos, turn.before.positions.lookup turn.args.mint = some pos ∧
        pos.exitAttempts.toNat + 1 < 2 ^ 32 := by
  intro turn hturn
  have hhandled := (handle_steps ex.recorded e d.ev).keyed hreach.resumable.keyed
  obtain ⟨pos, hheld, -, hstuck⟩ :=
    closeTurns_held _ hhandled (dueExits_collect hhandled d.order d.ts) turn hturn
  have hlimit : turn.before.desk.StuckAtLimit cfg :=
    exitTurns_desk hreach.resumable.keyed (fun _ _ hstep hd => by
      rw [hreach.resumable.cfg_eq] at hstep
      exact hstep.stuckAtLimit hd) hreach.stuckAtLimit d.order turn
      (List.mem_append_right _ hturn)
  refine ⟨pos, by rw [hheld.mint]; exact hheld.lookup, ?_⟩
  by_contra hfull
  have hlt : pos.exitAttempts.toNat < 2 ^ 32 := pos.exitAttempts.toNat_lt
  have hmax : cfg.maxExitAttempts.toNat < 2 ^ 32 := cfg.maxExitAttempts.toNat_lt
  have hset := hlimit _ pos hheld.lookup
    (by rw [UInt32.lt_iff_toNat_lt]; exact (by omega : 0 < pos.exitAttempts.toNat))
    (by rw [UInt32.le_iff_toNat_le]; omega)
  rw [hstuck] at hset
  exact absurd hset (by simp)

/-- All of it holds exactly if no tick exit is refused at a position whose count is full. -/
theorem keepsMoney_iff {cfg : Config} {ex : Executor σ} {e : Engine (σ × List Sent)}
    (hreach : Reachable ex.recorded cfg e) (d : Delivery) :
    KeepsMoney ex e d ↔ (AllFail ex e d → CountRoom e d.ev) := by
  have hkeyed : e.Keyed := hreach.resumable.keyed
  refine ⟨fun h hfailed p pos hev hpos hexit => ?_, fun h => ?_⟩
  · -- the tick's own exit is one of the turns
    obtain ⟨dec, hdec⟩ := Option.ne_none_iff_exists'.mp hexit
    let turn : ExitTurn (σ × List Sent) := ⟨e.ticked p pos,
      (tickPosition e.cfg p pos).1.exitArgs p.priceUsd p.liquidityUsd dec.reason⟩
    have hturn : turn ∈ e.exitTurns ex.recorded d.order d.ev := by
      rw [exitTurns, hev]
      refine List.mem_append_left _ ?_
      show turn ∈ e.tickTurns p
      rw [tickTurns_exit hpos hdec]
      exact List.mem_singleton.mpr rfl
    obtain ⟨err, herr⟩ := hfailed.refused turn hturn
    have hroom := (countsOnce_iff (ticked_lookup hkeyed hpos) herr).mp (h.counts hfailed turn hturn)
    rw [(tickPosition_sameHolding e.cfg p pos).exitAttempts] at hroom
    exact hroom
  · refine ⟨deliver_untouched hkeyed d, deliver_dayPnl hkeyed d, fun hfailed turn hturn => ?_,
      fun launch hadm turn hturn hstop => onLaunch_stopped hadm hturn hstop⟩
    obtain ⟨err, herr⟩ := hfailed.refused turn hturn
    rcases List.mem_append.mp hturn with hhandler | hsweep
    · obtain ⟨launch | p, order⟩ := d
      · exact absurd hhandler List.not_mem_nil
      · have hticks : turn ∈ e.tickTurns p := hhandler
        cases hpos : e.positions.lookup p.mint with
        | none =>
            rw [tickTurns_unheld hpos] at hticks
            exact absurd hticks List.not_mem_nil
        | some pos =>
            cases hexit : (tickPosition e.cfg p pos).2 with
            | none =>
                rw [tickTurns_stay hpos hexit] at hticks
                exact absurd hticks List.not_mem_nil
            | some dec =>
                rw [tickTurns_exit hpos hexit] at hticks
                obtain rfl := List.mem_singleton.mp hticks
                have hroom := h hfailed p pos rfl hpos (by rw [hexit]; simp)
                rw [← (tickPosition_sameHolding e.cfg p pos).exitAttempts] at hroom
                exact (countsOnce_iff (ticked_lookup hkeyed hpos) herr).mpr hroom
    · obtain ⟨pos, hlookup, hroom⟩ := sweepTurns_room hreach d turn hsweep
      exact (countsOnce_iff hlookup herr).mpr hroom

/-- **Failed orders move no money**, from every reachable state.  All of it holds of an event
exactly if, when all its orders fail, no tick exit is refused at a position whose count
stands at `2 ^ 32 - 1`; and the money is left alone even then. -/
theorem failed_orders_keep_money {cfg : Config} {ex : Executor σ} {e : Engine (σ × List Sent)}
    (hreach : Reachable ex.recorded cfg e) (d : Delivery) :
    (KeepsMoney ex e d ↔ (AllFail ex e d → CountRoom e d.ev)) ∧
    (AllFail ex e d →
      e.desk.Untouched (e.deliver ex.recorded d).desk
        (sentSince e (e.deliver ex.recorded d)) ∧
      ((e.deliver ex.recorded d).risk.dayRealizedPnl = e.risk.dayRealizedPnl ∨
        (e.deliver ex.recorded d).risk.dayRealizedPnl =
          (e.risk.maybeRollover d.ts).dayRealizedPnl)) :=
  ⟨keepsMoney_iff hreach d, fun hfailed =>
    ⟨deliver_untouched hreach.resumable.keyed d hfailed,
      deliver_dayPnl hreach.resumable.keyed d hfailed⟩⟩

/-- One position under an executor whose sells all fail, and a tick below its stop loss:
the money stays, and the failed sell counts. -/
theorem failed_orders_keep_money_dead_pool :
    let e := run Executor.deadPool.recorded
      (Engine.new .paperDefaults ((), []) (.opened fun _ => true) 0) [launchAt "A" 0 1]
    let e' := e.deliver Executor.deadPool.recorded (priceAt "A" 2 (1 / 2))
    e'.deployedUsd = e.deployedUsd ∧
      KeepsMoney Executor.deadPool e (priceAt "A" 2 (1 / 2)) := by
  intro e e'
  have hreach : Reachable Executor.deadPool.recorded .paperDefaults e :=
    Reachable.event _ (Reachable.new _ _ _)
  obtain ⟨hkeeps, huntouched⟩ := failed_orders_keep_money hreach (priceAt "A" 2 (1 / 2))
  have hfailed : AllFail Executor.deadPool e (priceAt "A" 2 (1 / 2)) := by
    unfold AllFail
    decide +kernel
  refine ⟨(huntouched hfailed).1.deployedUsd, hkeeps.mpr fun _ p pos hev hpos _ => ?_⟩
  obtain rfl : (⟨"A", 2000000000, 1 / 2, 8000⟩ : PriceUpdate) = p := Event.price.inj hev
  have hnone : (e.positions.lookup "A").map Position.exitAttempts = some 0 := by decide +kernel
  rw [show e.positions.lookup "A" = some pos from hpos, Option.map_some, Option.some_inj] at hnone
  rw [hnone]
  decide

/-- The tick of a jammed engine sends one sell, which fails. -/
theorem Jammed.allFail {k : Nat} {e : Engine (Unit × List Sent)} (h : Jammed k e) :
    AllFail Executor.deadPool e (priceAt "A" 0 (1 / 2)) := by
  obtain ⟨pos, hbook, -, -, hentry, hhigh, hmode⟩ := h.book
  have hlookup : e.positions.lookup "A" = some pos := by
    rw [hbook]
    exact Finmap.lookup_singleton_eq
  have hexit : (tickPosition e.cfg ⟨"A", 0, 1 / 2, 8000⟩ pos).2 = some ⟨"stop_loss"⟩ := by
    rw [h.cfg, stopLoss_tick hentry hhigh hmode]
  have hturns : 1 ≤ (e.exitTurns Executor.deadPool.recorded .ascending
      (priceAt "A" 0 (1 / 2)).ev).length := by
    rw [exitTurns, List.length_append]
    change 1 ≤ (e.tickTurns ⟨"A", 0, 1 / 2, 8000⟩).length + _
    rw [tickTurns_exit hlookup hexit, List.length_singleton]
    omega
  obtain ⟨buys, hsent, -⟩ := deliver_sent Executor.deadPool e (priceAt "A" 0 (1 / 2))
  -- only one order is new, so the event bought nothing
  have hlength := congrArg List.length hsent
  rw [h.tick.count, List.length_append, List.length_append, List.length_map, h.count] at hlength
  have hnone : buys = [] := List.eq_nil_of_length_eq_zero (by
    change 1 ≤ List.length (e.exitTurns Executor.deadPool.recorded
      (priceAt "A" 0 (1 / 2)).order (priceAt "A" 0 (1 / 2)).ev) at hturns
    omega)
  intro s hs
  rw [sentSince_of_append (hsent.trans (List.append_assoc _ _ _)), hnone, List.nil_append] at hs
  obtain ⟨turn, -, rfl⟩ := List.mem_map.mp hs
  rfl

/-- After `2 ^ 32 - 1` failed sells the next one sets the count back to zero. -/
theorem count_wraps :
    let e := run Executor.deadPool.recorded
      (Engine.new .paperDefaults ((), []) (.opened fun _ => true) 0) (failingTicks (2 ^ 32 - 1))
    Reachable Executor.deadPool.recorded .paperDefaults e ∧
      AllFail Executor.deadPool e (priceAt "A" 0 (1 / 2)) ∧
      ¬ KeepsMoney Executor.deadPool e (priceAt "A" 0 (1 / 2)) := by
  have hjammed := jammed_failingTicks (2 ^ 32 - 1)
  have hreach : Reachable Executor.deadPool.recorded .paperDefaults (run Executor.deadPool.recorded
      (Engine.new .paperDefaults ((), []) (.opened fun _ => true) 0)
      (failingTicks (2 ^ 32 - 1))) := (Reachable.new _ _ _).run _
  generalize run Executor.deadPool.recorded
    (Engine.new .paperDefaults ((), []) (.opened fun _ => true) 0) (failingTicks (2 ^ 32 - 1)) = e
    at hjammed hreach ⊢
  intro e
  have hfailed := hjammed.allFail
  refine ⟨hreach, hfailed, fun hkeeps => ?_⟩
  obtain ⟨pos, hbook, -, -, hentry, hhigh, hmode⟩ := hjammed.book
  obtain ⟨n, hn, -, hattempts⟩ := hjammed.tries
  have hlookup : e.positions.lookup "A" = some pos := by
    rw [hbook]
    exact Finmap.lookup_singleton_eq
  have hroom := ((keepsMoney_iff hreach _).mp hkeeps hfailed) _ pos rfl hlookup (by
    rw [hjammed.cfg]
    change (tickPosition .paperDefaults ⟨"A", 0, 1 / 2, 8000⟩ pos).2 ≠ none
    rw [stopLoss_tick hentry hhigh hmode]
    simp)
  obtain rfl : n = 2 ^ 32 - 1 := by omega
  rw [hlookup, Option.map_some, Option.some_inj] at hattempts
  rw [hattempts] at hroom
  exact absurd hroom (by decide)

end Engine

end HfmcBot
