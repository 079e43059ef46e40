import HfmcBot.Engine.Orders
import HfmcBot.Foundation.History
import Mathlib.Data.List.MinMax

/-!
# Exit rules over runs

What a position that is still open has survived.  The price history of a holding
is read off the events and the recorded orders alone: a filled buy marks its
fill price, a tick marks its price while the token is held, a filled sell ends
the holding.

* `sweep_leaves_undue`: with sells that succeed, the sweep leaves no position
  behind whose clock has run out;
* `Marked`: every open position has survived its history, and unheld mints have
  none; `Marked.onEvent` keeps it over one event;
* `chartedRun_engine`: a run with the histories beside it is the run of the engine;
* `exit_rules_over_runs`: the statement about runs.
-/

namespace HfmcBot

open Foundation Relation

/-! ## The price history of a holding -/

/-- A price a holding has seen. -/
inductive Mark
  | fill (price : Decimal)
  | tick (price : Decimal)
  deriving DecidableEq

def Mark.price : Mark → Decimal
  | .fill price => price
  | .tick price => price

/-- What an order does to the history of a mint. -/
def marksAfterOrder (mint : Mint) (marks : List Mark) (s : Sent) : List Mark :=
  if s.order.mint = mint then
    match s.order, s.answer with
    | .buy _, .ok fill => marks ++ [.fill fill.priceUsd]
    | .sell _, .ok _ => []
    | _, .error _ => marks
  else marks

/-- What an event does to it before any order: a tick marks a token that is
held, that is, one with a history. -/
def marksAfterTick (mint : Mint) (marks : List Mark) : Event → List Mark
  | .price p => if p.mint = mint ∧ marks ≠ [] then marks ++ [.tick p.priceUsd] else marks
  | .launch _ => marks

/-- The histories of all mints after some orders. -/
def marksAfterOrders (marks : Mint → List Mark) (orders : List Sent) : Mint → List Mark :=
  fun mint => orders.foldl (marksAfterOrder mint) (marks mint)

/-- The highest price of a history. -/
def highOf (marks : List Mark) : WithBot Decimal := (marks.map Mark.price).maximum

theorem highOf_concat (marks : List Mark) (m : Mark) :
    highOf (marks ++ [m]) = max (highOf marks) m.price := by
  rw [highOf, List.map_append, List.map_singleton, List.maximum_concat]
  rfl

/-- A tick at `price` is strictly above `pct` percent below the high at it. -/
def AboveStop (pct : Decimal) (before : List Mark) (price : Decimal) : Prop :=
  ∀ high : Decimal, highOf (before ++ [.tick price]) = high → high * (1 - pct / 100) < price

/-- What an open position has survived. -/
structure Survived (cfg : Config) (marks : List Mark) (pos : Position) : Prop where
  highWater : highOf marks = pos.highWater
  flip : pos.mode = .flip → EachAfter (fun before m => ∀ price, m = .tick price →
    pos.unrealizedPnlPct price < cfg.convictionMinPct ∧
      pos.unrealizedPnlPct price < cfg.takeProfitPct ∧
      AboveStop cfg.stopLossPct before price) marks
  conviction : pos.mode = .conviction → ∃ before price after,
    marks = before ++ .tick price :: after ∧ cfg.convictionMinPct ≤ pos.unrealizedPnlPct price ∧
      EachAfter (fun later m => ∀ q, m = .tick q →
        AboveStop cfg.trailPct (before ++ .tick price :: later) q) after

theorem highOf_tick {marks : List Mark} {high price : Decimal} (h : highOf marks = high) :
    highOf (marks ++ [.tick price]) = (max high price : Decimal) := by
  rw [highOf_concat, h, WithBot.coe_max]
  rfl

theorem aboveStop_of_high {pct high price : Decimal} {marks : List Mark}
    (hhigh : highOf marks = high) (habove : max high price * (1 - pct / 100) < price) :
    AboveStop pct marks price := by
  intro h hh
  rw [highOf_tick hhigh] at hh
  rw [← WithBot.coe_injective hh]
  exact habove

theorem Engine.tickPosition_unrealizedPnlPct (cfg : Config) (p : PriceUpdate) (pos : Position)
    (price : Decimal) :
    (Engine.tickPosition cfg p pos).1.unrealizedPnlPct price = pos.unrealizedPnlPct price := by
  have hentry : (Engine.tickPosition cfg p pos).1.entryPrice = pos.entryPrice :=
    (onPrice_sameHolding _ _ _ _).entryPrice
  rw [Position.unrealizedPnlPct, hentry, Position.unrealizedPnlPct]

/-- A tick without an exit is one more thing survived. -/
theorem Survived.tick {cfg : Config} {marks : List Mark} {pos : Position} {p : PriceUpdate}
    (h : Survived cfg marks pos) (hstay : (Engine.tickPosition cfg p pos).2 = none) :
    Survived cfg (marks ++ [.tick p.priceUsd]) (Engine.tickPosition cfg p pos).1 := by
  have hhigh : (Engine.tickPosition cfg p pos).1.highWater = max pos.highWater p.priceUsd :=
    onPrice_highWater _ _ _ _
  have hgain := Engine.tickPosition_unrealizedPnlPct cfg p pos
  constructor
  · -- the marks and the position agree on the high
    rw [highOf_tick h.highWater, hhigh]
  · intro hflip
    rcases onPrice_stays hstay with ⟨-, -, hmode⟩ | ⟨hpos, hmin, hprofit, hstop, -⟩ | ⟨-, -, hmode⟩
    · exact absurd (hflip.symm.trans hmode) (by simp)
    · refine eachAfter_concat.mpr ⟨?_, ?_⟩
      · intro before m after hsplit price hm
        rw [hgain]
        exact h.flip hpos before m after hsplit price hm
      · rintro price ⟨⟩
        rw [hgain]
        exact ⟨hmin, hprofit, aboveStop_of_high h.highWater hstop⟩
    · exact absurd (hflip.symm.trans hmode) (by simp)
  · intro hconviction
    rcases onPrice_stays hstay with ⟨-, hmin, -⟩ | ⟨-, -, -, -, hmode⟩ | ⟨hpos, htrail, -⟩
    · -- the promotion itself: nothing has come after it yet
      refine ⟨marks, p.priceUsd, [], rfl, ?_, eachAfter_nil _⟩
      rw [hgain]
      exact hmin
    · exact absurd (hconviction.symm.trans hmode) (by simp)
    · obtain ⟨before, price, after, rfl, hmin, hafter⟩ := h.conviction hpos
      refine ⟨before, price, after ++ [.tick p.priceUsd], by simp, ?_, ?_⟩
      · rw [hgain]
        exact hmin
      · refine eachAfter_concat.mpr ⟨hafter, ?_⟩
        rintro q ⟨⟩
        exact aboveStop_of_high h.highWater htrail

/-- A position that was only bought has survived nothing yet. -/
theorem Survived.of_fills {cfg : Config} {marks : List Mark} {pos : Position}
    (hhigh : highOf marks = pos.highWater) (hfills : ∀ m ∈ marks, ∃ price, m = .fill price)
    (hmode : pos.mode = .flip) : Survived cfg marks pos := by
  refine ⟨hhigh, ?_, fun hconviction => ?_⟩
  · rintro - before m after hsplit price rfl
    obtain ⟨price', hprice'⟩ := hfills (.tick price) (by rw [hsplit]; simp)
    exact absurd hprice' (by simp)
  · exact absurd (hmode.symm.trans hconviction) (by simp)

namespace Engine

variable {σ : Type}

/-! ## The sweep leaves nothing due -/

section Sweep

variable {ex : Executor σ}

/-- A filled exit removes its position. -/
theorem closePosition_lookup_self (hsells : ex.SellsSucceed) (e : Engine σ) (x : ExitArgs)
    (now : DateTime) : (e.closePosition ex x now).positions.lookup x.mint = none := by
  rcases closePosition_cases ex e x now with ⟨err, st, hsell, -⟩ | ⟨fill, st, -, hclose⟩
  · obtain ⟨fill, st', hfilled⟩ := hsells (sellRequest x now (e.nextOrderId x.mint).1) e.exec
    rw [hfilled] at hsell
    exact absurd (congrArg Prod.fst hsell) (by simp)
  · rw [(fields_of_trading hclose).positions]
    exact Finmap.lookup_erase x.mint e.positions

theorem closeAll_lookup (hsells : ex.SellsSucceed) (now : DateTime) (mint : Mint)
    (exits : List ExitArgs) (e : Engine σ) :
    (exits.foldl (fun e x => e.closePosition ex x now) e).positions.lookup mint =
      if mint ∈ exits.map ExitArgs.mint then none else e.positions.lookup mint := by
  induction exits generalizing e with
  | nil => simp
  | cons x rest ih =>
      rw [List.foldl_cons, ih, List.map_cons]
      by_cases hx : mint = x.mint
      · rw [hx, closePosition_lookup_self hsells, if_pos List.mem_cons_self]
        split <;> rfl
      · rw [closePosition_lookup_of_ne ex e x now hx]
        simp only [List.mem_cons, hx, false_or]

/-- What is left after the sweep was there before it, and is not due. -/
theorem sweep_leaves_undue (hsells : ex.SellsSucceed) {e : Engine σ} (hkeyed : e.Keyed)
    (o : KeyOrder Mint) (now : DateTime) {mint : Mint} {pos : Position}
    (h : (e.sweepTimeStops ex o now).positions.lookup mint = some pos) :
    e.positions.lookup mint = some pos ∧ timeStopExit e.cfg now pos = none := by
  rw [sweepTimeStops, closeAll_lookup hsells] at h
  split at h
  · exact absurd h (by simp)
  · rename_i hnotdue
    refine ⟨h, ?_⟩
    by_contra hdue
    obtain ⟨x, hx⟩ := Option.ne_none_iff_exists'.mp hdue
    refine hnotdue (List.mem_map.mpr ⟨x, List.mem_filterMap.mpr ⟨pos, ?_, hx⟩, ?_⟩)
    · exact FiniteMap.mem_valuesIn.mpr ⟨mint, h⟩
    · exact (timeStopExit_mint hx).trans (hkeyed _ _ h)

end Sweep

/-! ## The book and its price histories -/

/-- What is held under a mint has survived the mint's history; without a position
there is none. -/
def MarkedAt (cfg : Config) (held : Option Position) (marks : List Mark) : Prop :=
  match held with
  | none => marks = []
  | some pos => pos.stuck = false ∧ Survived cfg marks pos

/-- The book and the price histories belong together. -/
def Marked (e : Engine σ) (marks : Mint → List Mark) : Prop :=
  ∀ mint, MarkedAt e.cfg (e.positions.lookup mint) (marks mint)

theorem Marked.of_fields {e e' : Engine σ} {marks : Mint → List Mark} (h : Marked e marks)
    (hcfg : e'.cfg = e.cfg) (hpos : e'.positions = e.positions) : Marked e' marks := by
  intro mint
  rw [hcfg, hpos]
  exact h mint

theorem marksAfterOrders_singleton_of_ne {marks : Mint → List Mark} {s : Sent} {mint : Mint}
    (h : mint ≠ s.order.mint) : marksAfterOrders marks [s] mint = marks mint :=
  if_neg (Ne.symm h)

theorem marksAfterOrders_append (marks : Mint → List Mark) (orders orders' : List Sent) :
    marksAfterOrders marks (orders ++ orders') =
      marksAfterOrders (marksAfterOrders marks orders) orders' :=
  funext fun _ => List.foldl_append

/-- A filled exit ends the history it was for; the other ones go on. -/
theorem closePosition_marked {ex : Executor σ} (hsells : ex.SellsSucceed)
    {e : Engine (σ × List Sent)} {marks : Mint → List Mark} {x : ExitArgs} (now : DateTime)
    (h : ∀ mint, mint ≠ x.mint → MarkedAt e.cfg (e.positions.lookup mint) (marks mint)) :
    ∃ s, (e.closePosition ex.recorded x now).sent = e.sent ++ [s] ∧
      Marked (e.closePosition ex.recorded x now) (marksAfterOrders marks [s]) := by
  refine ⟨_, closePosition_sent ex e x now, fun mint => ?_⟩
  rw [closePosition_cfg]
  by_cases hx : mint = x.mint
  · rw [hx, closePosition_lookup_self hsells.recorded]
    obtain ⟨fill, st, hsell⟩ :=
      hsells.recorded (sellRequest x now (e.nextOrderId x.mint).1) e.exec
    rw [hsell]
    exact if_pos rfl
  · rw [closePosition_lookup_of_ne ex.recorded e x now hx, marksAfterOrders_singleton_of_ne]
    · exact h mint hx
    · exact hx

/-- The history of a mint in the middle of its funnel: fills only, and no
promotion yet. -/
structure Fresh (e : Engine σ) (marks : Mint → List Mark) (mint : Mint) : Prop where
  fills : ∀ m ∈ marks mint, ∃ price, m = .fill price
  flip : ∀ pos, e.positions.lookup mint = some pos → pos.mode = .flip

theorem addFill_highWater (pos : Position) (fill : Fill) (liquidityUsd : Decimal) :
    (pos.addFill fill liquidityUsd).highWater = max pos.highWater fill.priceUsd := by
  change (if pos.highWater < fill.priceUsd then fill.priceUsd else pos.highWater) = _
  split
  · rename_i hlt
    exact (max_eq_right hlt.le).symm
  · rename_i hge
    exact (max_eq_left (not_lt.mp hge)).symm

/-- A fill of the funnel is one more mark on a fresh history. -/
theorem applyBuyFill_marked {e : Engine σ} {marks : Mint → List Mark} {fill : Fill}
    (h : Marked e marks) (hfresh : Fresh e marks fill.mint) (launchpad : Launchpad)
    (liquidityUsd : Decimal) {marks' : Mint → List Mark}
    (hself : marks' fill.mint = marks fill.mint ++ [.fill fill.priceUsd])
    (hother : ∀ mint, mint ≠ fill.mint → marks' mint = marks mint) :
    Marked (e.applyBuyFill fill launchpad liquidityUsd) marks' ∧
      Fresh (e.applyBuyFill fill launchpad liquidityUsd) marks' fill.mint := by
  have hfills : ∀ m ∈ marks' fill.mint, ∃ price, m = .fill price := by
    intro m hm
    rw [hself, List.mem_append, List.mem_singleton] at hm
    rcases hm with hold | rfl
    · exact hfresh.fills m hold
    · exact ⟨_, rfl⟩
  -- the target of the fill: a new position, or the one the earlier slices built
  have htarget : (e.fillTarget fill launchpad liquidityUsd).mode = .flip ∧
      (e.fillTarget fill launchpad liquidityUsd).stuck = false ∧
      highOf (marks' fill.mint) =
        (max (e.fillTarget fill launchpad liquidityUsd).highWater fill.priceUsd : Decimal) := by
    have hat := h fill.mint
    unfold fillTarget
    cases hpos : e.positions.lookup fill.mint with
    | none =>
        rw [hpos] at hat
        have hnone : marks fill.mint = [] := hat
        refine ⟨rfl, rfl, ?_⟩
        rw [hself, hnone]
        exact congrArg _ (max_self fill.priceUsd).symm
    | some pos =>
        rw [hpos] at hat
        refine ⟨hfresh.flip pos hpos, hat.1, ?_⟩
        rw [hself, highOf_concat, hat.2.highWater]
        exact (WithBot.coe_max _ _).symm
  obtain ⟨hmode, hstuck, hhigh⟩ := htarget
  have hlookup : (e.applyBuyFill fill launchpad liquidityUsd).positions.lookup fill.mint =
      some ((e.fillTarget fill launchpad liquidityUsd).addFill fill liquidityUsd) := by
    rw [applyBuyFill_positions]
    exact Finmap.lookup_insert e.positions
  constructor
  · intro mint
    by_cases hm : mint = fill.mint
    · rw [hm, hlookup]
      refine ⟨hstuck, Survived.of_fills ?_ hfills hmode⟩
      rw [addFill_highWater]
      exact hhigh
    · rw [applyBuyFill_positions, Finmap.lookup_insert_of_ne _ hm, hother mint hm]
      exact h mint
  · refine ⟨hfills, fun pos hpos => ?_⟩
    obtain rfl := Option.some.inj (hlookup.symm.trans hpos)
    exact hmode

/-- One slice keeps the histories of the book, and the launched one fresh. -/
theorem sendSlice_marked {ex : Executor σ} (hmint : ex.HonoursMint)
    {e : Engine (σ × List Sent)} {marks : Mint → List Mark} {launch : Launch}
    (deadline : DateTime) (slice : Decimal) (h : Marked e marks)
    (hfresh : Fresh e marks launch.mint) :
    ∃ s, (e.sendSlice ex.recorded launch deadline slice).1.sent = e.sent ++ [s] ∧
      Marked (e.sendSlice ex.recorded launch deadline slice).1 (marksAfterOrders marks [s]) ∧
      Fresh (e.sendSlice ex.recorded launch deadline slice).1 (marksAfterOrders marks [s])
        launch.mint := by
  have hsent := sendSlice_sent ex e launch deadline slice
  refine ⟨_, hsent, ?_⟩
  rcases sendSlice_cases ex.recorded e launch deadline slice with
    ⟨err, st, hbuy, hsend, -⟩ | ⟨fill, st, hbuy, hsend, -⟩
  · obtain ⟨hcfg, -, -, -, -, hpos, -, -⟩ := fields_of_trading hsend
    have hsame : marksAfterOrders marks
        [⟨.buy (sliceRequest launch deadline slice (e.nextOrderId launch.mint).1), .error err⟩] =
          marks := funext fun mint => ite_self _
    rw [hbuy, hsame]
    refine ⟨h.of_fields hcfg hpos, hfresh.fills, fun pos hlookup => ?_⟩
    rw [hpos] at hlookup
    exact hfresh.flip pos hlookup
  · obtain ⟨hcfg, -, -, -, -, hpos, -, -⟩ := fields_of_trading hsend
    have hfill : fill.mint = launch.mint := hmint.recorded _ _ _ _ hbuy
    rw [hbuy]
    -- the fill is the next mark of its own mint, and of no other
    have hself : marksAfterOrders marks
        [⟨.buy (sliceRequest launch deadline slice (e.nextOrderId launch.mint).1), .ok fill⟩]
          fill.mint = marks fill.mint ++ [.fill fill.priceUsd] := by
      rw [hfill]
      exact if_pos rfl
    have hother : ∀ mint, mint ≠ fill.mint → marksAfterOrders marks
        [⟨.buy (sliceRequest launch deadline slice (e.nextOrderId launch.mint).1), .ok fill⟩]
          mint = marks mint := by
      intro mint hne
      rw [hfill] at hne
      exact marksAfterOrders_singleton_of_ne hne
    rw [← hfill] at hfresh ⊢
    obtain ⟨hmarked, hfresh'⟩ := applyBuyFill_marked (e := e.submitted st) h
      ⟨hfresh.fills, hfresh.flip⟩ launch.launchpad launch.liquidityUsd hself hother
    refine ⟨hmarked.of_fields hcfg hpos, hfresh'.fills, fun pos hlookup => ?_⟩
    rw [hpos] at hlookup
    exact hfresh'.flip pos hlookup

/-- The handler of a launch of a held token changes no position. -/
theorem onLaunch_held (ex : Executor σ) {e : Engine σ} {launch : Launch}
    (h : launch.mint ∈ e.positions) : (e.onLaunch ex launch).trading = e.trading := by
  unfold onLaunch
  dsimp only
  rw [if_pos h]
  rfl

/-- A launch keeps the histories. -/
theorem onLaunch_marked {ex : Executor σ} (hmint : ex.HonoursMint) {e : Engine (σ × List Sent)}
    {marks : Mint → List Mark} (h : Marked e marks) (launch : Launch) :
    ∃ new, (e.onLaunch ex.recorded launch).sent = e.sent ++ new ∧
      Marked (e.onLaunch ex.recorded launch) (marksAfterOrders marks new) := by
  by_cases hheld : launch.mint ∈ e.positions
  · have hsame := onLaunch_held ex.recorded hheld
    obtain ⟨hcfg, -, -, -, -, hpos, -, -⟩ := fields_of_trading hsame
    refine ⟨[], ?_, h.of_fields hcfg hpos⟩
    rw [sent_of_trading hsame, List.append_nil]
  · have hnone : e.positions.lookup launch.mint = none := Finmap.lookup_eq_none.mpr hheld
    have hempty : marks launch.mint = [] := by
      have hat := h launch.mint
      rw [hnone] at hat
      exact hat
    have hfresh : Fresh e marks launch.mint := by
      refine ⟨fun m hm => ?_, fun pos hpos => ?_⟩
      · rw [hempty] at hm
        exact absurd hm (by simp)
      · rw [hnone] at hpos
        exact absurd hpos (by simp)
    -- slice by slice; the launched mint stays in flip mode on the way
    have hsteps := steps_invariant (P := fun e' : Engine (σ × List Sent) => ∃ new,
        e'.sent = e.sent ++ new ∧ Marked e' (marksAfterOrders marks new) ∧
          Fresh e' (marksAfterOrders marks new) launch.mint) ?_
      (onLaunch_steps ex.recorded e launch) ⟨[], (List.append_nil _).symm, h, hfresh⟩
    · obtain ⟨new, hsent, hmarked, -⟩ := hsteps
      exact ⟨new, hsent, hmarked⟩
    · rintro a b hab ⟨new, hsent, hmarked, hfresh⟩
      cases hab with
      | note e mint action detail =>
          exact ⟨new, hsent, hmarked.of_fields rfl rfl, hfresh.fills, hfresh.flip⟩
      | refresh e => exact ⟨new, hsent, hmarked.of_fields rfl rfl, hfresh.fills, hfresh.flip⟩
      | slice e launch' budgetUsd hev hopen hwindow hroom =>
          obtain rfl : launch = launch' := Event.launch.inj hev
          obtain ⟨s, hs, hmarked', hfresh'⟩ := sendSlice_marked hmint
            (e := a.withRisk ((a.risk.refresh launch.createdAt).pushOrder launch.createdAt))
            (funnelDeadline a.cfg launch) budgetUsd (hmarked.of_fields rfl rfl)
            ⟨hfresh.fills, hfresh.flip⟩
          rw [← marksAfterOrders_append] at hmarked' hfresh'
          refine ⟨new ++ [s], ?_, hmarked', hfresh'⟩
          rw [hs, ← List.append_assoc, ← hsent]
          rfl
      | tick e p pos hev hpos hstay => exact absurd hev (by simp)
      | tickExit e p pos d hev hpos hexit => exact absurd hev (by simp)

/-- The sweep keeps the histories. -/
theorem Steps.sweep_marked {ex : Executor σ} (hsells : ex.SellsSucceed) {ev : Event}
    {e e' : Engine (σ × List Sent)} {marks : Mint → List Mark}
    (hsteps : Steps ex.recorded ev .sweep e e') (h : Marked e marks) :
    ∃ new, e'.sent = e.sent ++ new ∧ Marked e' (marksAfterOrders marks new) := by
  refine steps_invariant (P := fun e' : Engine (σ × List Sent) => ∃ new,
    e'.sent = e.sent ++ new ∧ Marked e' (marksAfterOrders marks new)) ?_ hsteps
    ⟨[], (List.append_nil _).symm, h⟩
  rintro a b hab ⟨new, hsent, hmarked⟩
  cases hab with
  | timeExit e pos x hpos hdue =>
      obtain ⟨s, hs, hmarked'⟩ := closePosition_marked hsells (x := x) ev.ts
        fun mint _ => hmarked mint
      rw [← marksAfterOrders_append] at hmarked'
      exact ⟨new ++ [s], by rw [hs, hsent, List.append_assoc], hmarked'⟩
  | page e kind detail => exact ⟨new, hsent, hmarked.of_fields rfl rfl⟩

/-- A tick marks no other token. -/
theorem marksAfterTick_of_ne {marks : List Mark} {p : PriceUpdate} {mint : Mint}
    (h : mint ≠ p.mint) : marksAfterTick mint marks (.price p) = marks :=
  if_neg fun hboth => h hboth.1.symm

/-- A tick of a token that is not held marks nothing. -/
theorem marked_of_unheld {e : Engine (σ × List Sent)} {marks : Mint → List Mark} {p : PriceUpdate}
    (h : Marked e marks) (hpos : e.positions.lookup p.mint = none) :
    Marked e fun mint => marksAfterTick mint (marks mint) (.price p) := by
  have hat := h p.mint
  rw [hpos] at hat
  have hnone : marks p.mint = [] := hat
  intro mint
  have hsame : marksAfterTick mint (marks mint) (.price p) = marks mint := by
    by_cases hm : mint = p.mint
    · rw [hm]
      exact if_neg fun hboth => hboth.2 hnone
    · exact marksAfterTick_of_ne hm
  change MarkedAt _ _ (marksAfterTick mint (marks mint) (.price p))
  rw [hsame]
  exact h mint

/-- The tick of a held token leaves the other ones alone. -/
theorem ticked_marked_of_ne {e : Engine (σ × List Sent)} {marks : Mint → List Mark}
    (h : Marked e marks) (p : PriceUpdate) (pos : Position) {mint : Mint} (hm : mint ≠ p.mint) :
    MarkedAt e.cfg ((e.ticked p pos).positions.lookup mint)
      (marksAfterTick mint (marks mint) (.price p)) := by
  rw [marksAfterTick_of_ne hm]
  change MarkedAt e.cfg ((e.positions.insert p.mint _).lookup mint) _
  rw [Finmap.lookup_insert_of_ne _ hm]
  exact h mint

/-- A held token that stays has survived the tick. -/
theorem ticked_marked_of_stay {e : Engine (σ × List Sent)} {marks : Mint → List Mark}
    (h : Marked e marks) {p : PriceUpdate} {pos : Position}
    (hpos : e.positions.lookup p.mint = some pos) (hexit : (tickPosition e.cfg p pos).2 = none) :
    MarkedAt e.cfg ((e.ticked p pos).positions.lookup p.mint)
      (marksAfterTick p.mint (marks p.mint) (.price p)) := by
  have hat := h p.mint
  rw [hpos] at hat
  obtain ⟨hstuck, hsurvived⟩ := hat
  have hne : marks p.mint ≠ [] := by
    intro hnil
    have hhigh := hsurvived.highWater
    rw [hnil] at hhigh
    exact WithBot.bot_ne_coe hhigh
  have hself : marksAfterTick p.mint (marks p.mint) (.price p) =
      marks p.mint ++ [.tick p.priceUsd] := if_pos ⟨rfl, hne⟩
  rw [hself]
  change MarkedAt e.cfg ((e.positions.insert p.mint _).lookup p.mint) _
  rw [Finmap.lookup_insert]
  exact ⟨(onPrice_sameHolding _ _ _ _).stuck.trans hstuck, hsurvived.tick hexit⟩

/-- The handler of a tick: first the tick's mark, then the order it may cause. -/
theorem onPriceUpdate_marked {ex : Executor σ} (hsells : ex.SellsSucceed)
    {e : Engine (σ × List Sent)} (hkeyed : e.Keyed) {marks : Mint → List Mark}
    (h : Marked e marks) (p : PriceUpdate) :
    ∃ new, (e.onPriceUpdate ex.recorded p).sent = e.sent ++ new ∧
      Marked (e.onPriceUpdate ex.recorded p)
        (marksAfterOrders (fun mint => marksAfterTick mint (marks mint) (.price p)) new) := by
  cases hpos : e.positions.lookup p.mint with
  | none =>
      rw [onPriceUpdate_unheld hpos]
      exact ⟨[], (List.append_nil _).symm, marked_of_unheld h hpos⟩
  | some pos =>
      cases hexit : (tickPosition e.cfg p pos).2 with
      | none =>
          rw [onPriceUpdate_stay hpos hexit]
          refine ⟨[], (List.append_nil _).symm, fun mint => ?_⟩
          by_cases hm : mint = p.mint
          · rw [hm]
            exact ticked_marked_of_stay h hpos hexit
          · exact ticked_marked_of_ne h p pos hm
      | some d =>
          rw [onPriceUpdate_exit hpos hexit]
          -- the history of the ticked mint itself is about to end
          have hrest : ∀ mint, mint ≠ ((tickPosition e.cfg p pos).1.exitArgs p.priceUsd
              p.liquidityUsd d.reason).mint →
              MarkedAt (e.ticked p pos).cfg ((e.ticked p pos).positions.lookup mint)
                (marksAfterTick mint (marks mint) (.price p)) := by
            intro mint hm
            refine ticked_marked_of_ne h p pos fun heq => hm (heq.trans ?_)
            exact (tickPosition_keyed hkeyed hpos).symm
          obtain ⟨s, hs, hmarked⟩ := closePosition_marked hsells p.ts hrest
          exact ⟨[s], hs, hmarked⟩

/-! ## A promotion is for good -/

theorem sendSlice_lookup_of_ne {ex : Executor σ} (hmint : ex.HonoursMint) (e : Engine σ)
    (launch : Launch) (deadline : DateTime) (slice : Decimal) {mint : Mint}
    (h : mint ≠ launch.mint) :
    (e.sendSlice ex launch deadline slice).1.positions.lookup mint = e.positions.lookup mint := by
  rcases sendSlice_cases ex e launch deadline slice with
    ⟨err, st, -, hsend, -⟩ | ⟨fill, st, hbuy, hsend, -⟩
  · rw [(fields_of_trading hsend).positions]
    rfl
  · have hfill : fill.mint = launch.mint := hmint _ _ _ _ hbuy
    rw [(fields_of_trading hsend).positions, applyBuyFill_positions, hfill,
      Finmap.lookup_insert_of_ne _ h]
    rfl

/-- A launch touches no position but the one it opens. -/
theorem onLaunch_lookup_of_ne {ex : Executor σ} (hmint : ex.HonoursMint) (e : Engine σ)
    (launch : Launch) {mint : Mint} (h : mint ≠ launch.mint) :
    (e.onLaunch ex launch).positions.lookup mint = e.positions.lookup mint := by
  refine steps_invariant
    (P := fun e' : Engine σ => e'.positions.lookup mint = e.positions.lookup mint) ?_
    (onLaunch_steps ex e launch) rfl
  intro a b hab ha
  cases hab with
  | note e mint action detail => exact ha
  | refresh e => exact ha
  | slice e launch' budgetUsd hev hopen hwindow hroom =>
      obtain rfl : launch = launch' := Event.launch.inj hev
      exact (sendSlice_lookup_of_ne hmint _ launch _ budgetUsd h).trans ha
  | tick e p pos hev hpos hstay => exact absurd hev (by simp)
  | tickExit e p pos d hev hpos hexit => exact absurd hev (by simp)

/-- A launch leaves a held position as it is. -/
theorem onLaunch_lookup_of_held {ex : Executor σ} (hmint : ex.HonoursMint) {e : Engine σ}
    (launch : Launch) {mint : Mint} {pos : Position} (h : e.positions.lookup mint = some pos) :
    (e.onLaunch ex launch).positions.lookup mint = some pos := by
  by_cases hm : mint = launch.mint
  · have hheld : launch.mint ∈ e.positions :=
      hm ▸ Finmap.mem_of_lookup_eq_some h
    rw [(fields_of_trading (onLaunch_held ex hheld)).positions]
    exact h
  · rw [onLaunch_lookup_of_ne hmint e launch hm]
    exact h

/-- A tick leaves a promoted position promoted. -/
theorem onPriceUpdate_conviction {ex : Executor σ} (hsells : ex.SellsSucceed) {e : Engine σ}
    (hkeyed : e.Keyed) (p : PriceUpdate) {mint : Mint} {pos pos' : Position}
    (hpos : e.positions.lookup mint = some pos) (hmode : pos.mode = .conviction)
    (hpos' : (e.onPriceUpdate ex p).positions.lookup mint = some pos') :
    pos'.mode = .conviction := by
  by_cases hm : mint = p.mint
  · rw [hm] at hpos hpos'
    cases hexit : (tickPosition e.cfg p pos).2 with
    | none =>
        rw [onPriceUpdate_stay hpos hexit] at hpos'
        obtain rfl := Option.some.inj ((Finmap.lookup_insert e.positions).symm.trans hpos')
        rw [tickPosition, onPrice_fst, if_neg (by simp [hmode]), Position.mark_mode]
        exact hmode
    | some d =>
        -- a position that exits is gone
        have hx : ((tickPosition e.cfg p pos).1.exitArgs p.priceUsd p.liquidityUsd
            d.reason).mint = p.mint := tickPosition_keyed hkeyed hpos
        have hgone := closePosition_lookup_self hsells (e.ticked p pos)
          ((tickPosition e.cfg p pos).1.exitArgs p.priceUsd p.liquidityUsd d.reason) p.ts
        rw [onPriceUpdate_exit hpos hexit, ← hx, hgone] at hpos'
        exact absurd hpos' (by simp)
  · have hother : (e.onPriceUpdate ex p).positions.lookup mint = e.positions.lookup mint := by
      refine steps_invariant
        (P := fun e' : Engine σ => e'.Keyed ∧ e'.positions.lookup mint = e.positions.lookup mint)
        ?_ (onPriceUpdate_steps ex e p) ⟨hkeyed, rfl⟩ |>.2
      rintro a b hab ⟨hak, ha⟩
      refine ⟨hab.keyed hak, ?_⟩
      cases hab with
      | note e mint action detail => exact ha
      | refresh e => exact ha
      | slice e launch budgetUsd hev hopen hwindow hroom => exact absurd hev (by simp)
      | tick e q pos hev hpos hstay =>
          obtain rfl : p = q := Event.price.inj hev
          exact (Finmap.lookup_insert_of_ne _ hm).trans ha
      | tickExit e q pos d hev hpos hexit =>
          obtain rfl : p = q := Event.price.inj hev
          have hx : mint ≠ ((tickPosition a.cfg p pos).1.exitArgs p.priceUsd p.liquidityUsd
              d.reason).mint := fun heq =>
            hm (heq.trans (tickPosition_keyed hak hpos))
          rw [closePosition_lookup_of_ne ex _ _ _ hx]
          exact (Finmap.lookup_insert_of_ne _ hm).trans ha
    rw [hother, hpos] at hpos'
    obtain rfl := Option.some.inj hpos'
    exact hmode

theorem onEvent_positions (ex : Executor σ) (o : KeyOrder Mint) (e : Engine σ) (ev : Event) :
    (e.onEvent ex o ev).positions = ((e.handle ex ev).sweepTimeStops ex o ev.ts).positions :=
  (fields_of_trading (trading_onEvent ex o e ev)).positions

/-- A position that is held before and after an event does not lose its
promotion. -/
theorem deliver_conviction {ex : Executor σ} (hmint : ex.HonoursMint) (hsells : ex.SellsSucceed)
    {e : Engine σ} (hkeyed : e.Keyed) (d : Delivery) {mint : Mint} {pos pos' : Position}
    (hpos : e.positions.lookup mint = some pos) (hmode : pos.mode = .conviction)
    (hpos' : (e.deliver ex d).positions.lookup mint = some pos') : pos'.mode = .conviction := by
  rw [deliver, onEvent_positions] at hpos'
  obtain ⟨hhandled, -⟩ := sweep_leaves_undue hsells ((handle_steps ex e d.ev).keyed hkeyed)
    d.order d.ev.ts hpos'
  cases hev : d.ev with
  | launch launch =>
      rw [hev] at hhandled
      obtain rfl := Option.some.inj
        ((onLaunch_lookup_of_held hmint launch hpos).symm.trans hhandled)
      exact hmode
  | price p =>
      rw [hev] at hhandled
      exact onPriceUpdate_conviction hsells hkeyed p hpos hmode hhandled

/-! ## Runs -/

/-- A run with the price history of every mint beside it. -/
structure Charted (σ : Type) where
  engine : Engine (σ × List Sent)
  marks : Mint → List Mark

/-- One delivery: the tick's mark, then the orders of the event. -/
def chart (ex : Executor σ) (c : Charted σ) (d : Delivery) : Charted σ where
  engine := c.engine.deliver ex.recorded d
  marks := marksAfterOrders (fun mint => marksAfterTick mint (c.marks mint) d.ev)
    (sentSince c.engine (c.engine.deliver ex.recorded d))

/-- The run from an engine that holds nothing. -/
def chartedRun (ex : Executor σ) (e : Engine (σ × List Sent)) (ds : List Delivery) : Charted σ :=
  ds.foldl (chart ex) ⟨e, fun _ => []⟩

theorem chartedRun_concat (ex : Executor σ) (e : Engine (σ × List Sent)) (ds : List Delivery)
    (d : Delivery) : chartedRun ex e (ds ++ [d]) = chart ex (chartedRun ex e ds) d :=
  List.foldl_append

theorem chartedRun_engine (ex : Executor σ) (e : Engine (σ × List Sent)) (ds : List Delivery) :
    (chartedRun ex e ds).engine = run ex.recorded e ds := by
  induction ds using List.reverseRecOn with
  | nil => rfl
  | append_singleton ds d ih =>
      rw [run_concat, ← ih, chartedRun_concat]
      rfl

/-- One delivery keeps the histories. -/
theorem Marked.chart {ex : Executor σ} (hmint : ex.HonoursMint) (hsells : ex.SellsSucceed)
    {c : Charted σ} (hkeyed : c.engine.Keyed) (h : Marked c.engine c.marks) (d : Delivery) :
    Marked (Engine.chart ex c d).engine (Engine.chart ex c d).marks := by
  have hhandled : ∃ new, (c.engine.handle ex.recorded d.ev).sent = c.engine.sent ++ new ∧
      Marked (c.engine.handle ex.recorded d.ev)
        (marksAfterOrders (fun mint => marksAfterTick mint (c.marks mint) d.ev) new) := by
    cases d.ev with
    | launch launch => exact onLaunch_marked hmint h launch
    | price p => exact onPriceUpdate_marked hsells hkeyed h p
  obtain ⟨new, hnew, hmarked⟩ := hhandled
  obtain ⟨swept, hswept, hmarked'⟩ :=
    (onEvent_sweep ex.recorded d.order d.ev hkeyed).sweep_marked hsells hmarked
  have hsince : sentSince c.engine (c.engine.deliver ex.recorded d) = new ++ swept :=
    sentSince_of_append (by rw [deliver, hswept, hnew, List.append_assoc])
  rw [← marksAfterOrders_append, ← hsince] at hmarked'
  exact hmarked'

theorem chartedRun_marked {ex : Executor σ} (hmint : ex.HonoursMint) (hsells : ex.SellsSucceed)
    (cfg : Config) (st : σ) (audit : AuditLog) (today : Int) (ds : List Delivery) :
    let c := chartedRun ex (Engine.new cfg (st, []) audit today) ds
    c.engine.cfg = cfg ∧ c.engine.Keyed ∧ Marked c.engine c.marks := by
  refine run_invariant (f := Engine.chart ex)
    (P := fun c => c.engine.cfg = cfg ∧ c.engine.Keyed ∧ Marked c.engine c.marks) ?_ ?_ ds
  · rintro c d ⟨hcfg, hkeyed, hmarked⟩
    exact ⟨(deliver_cfg hkeyed ex.recorded d).trans hcfg, hkeyed.deliver ex.recorded d,
      hmarked.chart hmint hsells hkeyed d⟩
  · exact ⟨rfl, keyed_new cfg _ audit today, fun mint => rfl⟩

/-- The clock of a position has not run out. -/
def InTime (cfg : Config) (now : DateTime) (pos : Position) : Prop :=
  match pos.mode with
  | .flip => numSeconds (now - pos.openedAt) < cfg.maxHoldSecs.toNat
  | .conviction => numSeconds (now - pos.openedAt) < cfg.convictionMaxHoldSecs.toNat

/-- What the clock sweep lets through is in time. -/
theorem inTime_of_undue {cfg : Config} (hflip : cfg.maxHoldSecs.toNat < 2 ^ 63)
    (hconviction : cfg.convictionMaxHoldSecs.toNat < 2 ^ 63) {now : DateTime} {pos : Position}
    (hstuck : pos.stuck = false) (hundue : timeStopExit cfg now pos = none) :
    InTime cfg now pos := by
  rw [timeStopExit, hstuck, if_neg Bool.false_ne_true, Option.map_eq_none_iff,
    onTime_eq_none_iff] at hundue
  unfold InTime
  cases hmode : pos.mode with
  | flip =>
      rw [hmode] at hundue
      dsimp only at hundue ⊢
      rwa [asI64_of_lt hflip] at hundue
  | conviction =>
      rw [hmode] at hundue
      dsimp only at hundue ⊢
      rwa [asI64_of_lt hconviction] at hundue

/-- **Exit rules over runs.**  After every event of every run, each open position
has survived its whole price history, its clock has not run out, and if it was
held in conviction mode before the event it still is. -/
theorem exit_rules_over_runs (cfg : Config) (hflip : cfg.maxHoldSecs.toNat < 2 ^ 63)
    (hconviction : cfg.convictionMaxHoldSecs.toNat < 2 ^ 63) (ex : Executor σ)
    (hmint : ex.HonoursMint) (hsells : ex.SellsSucceed) (st : σ) (audit : AuditLog) (today : Int)
    (ds : List Delivery) (d : Delivery) :
    let before := chartedRun ex (Engine.new cfg (st, []) audit today) ds
    let after := chartedRun ex (Engine.new cfg (st, []) audit today) (ds ++ [d])
    ∀ mint pos, after.engine.positions.lookup mint = some pos →
      Survived cfg (after.marks mint) pos ∧ InTime cfg d.ts pos ∧
        ∀ pos₀, before.engine.positions.lookup mint = some pos₀ → pos₀.mode = .conviction →
          pos.mode = .conviction := by
  intro before after mint pos hpos
  obtain ⟨hcfg, hkeyed, -⟩ := chartedRun_marked hmint hsells cfg st audit today ds
  obtain ⟨hcfg', -, hmarked⟩ := chartedRun_marked hmint hsells cfg st audit today (ds ++ [d])
  have hat := hmarked mint
  have hstep : after.engine = before.engine.deliver ex.recorded d :=
    congrArg Charted.engine (chartedRun_concat ex _ ds d)
  rw [hcfg'] at hat
  change MarkedAt cfg (after.engine.positions.lookup mint) (after.marks mint) at hat
  rw [hpos] at hat
  obtain ⟨hstuck, hsurvived⟩ := hat
  refine ⟨hsurvived, inTime_of_undue hflip hconviction hstuck ?_, ?_⟩
  · rw [hstep, deliver, onEvent_positions] at hpos
    have hundue := (sweep_leaves_undue hsells.recorded
      ((handle_steps ex.recorded before.engine d.ev).keyed hkeyed) d.order d.ev.ts hpos).2
    rw [handle_cfg] at hundue
    change timeStopExit before.engine.cfg d.ts pos = none at hundue
    rwa [show before.engine.cfg = cfg from hcfg] at hundue
  · intro pos₀ hpos₀ hmode
    rw [hstep] at hpos
    exact deliver_conviction hmint.recorded hsells.recorded hkeyed d hpos₀ hmode hpos

/-- A position that was promoted at fourfold its entry and has dipped since. -/
theorem exit_rules_over_runs_promoted :
    let c := chartedRun Executor.oneToken
      (Engine.new Config.paperDefaults ((), []) (.opened fun _ => true) 0)
      ([launchAt "A" 0 1, priceAt "A" 60 (9 / 10), priceAt "A" 120 5] ++ [priceAt "A" 180 4])
    ∃ pos, c.engine.positions.lookup "A" = some pos ∧ pos.mode = .conviction ∧
      c.marks "A" = [.fill 1, .fill 1, .fill 1, .tick (9 / 10), .tick 5, .tick 4] ∧
      Survived Config.paperDefaults (c.marks "A") pos ∧
      InTime Config.paperDefaults (seconds 180) pos := by
  intro c
  have hheld : (c.engine.positions.lookup "A").isSome = true := by decide +kernel
  obtain ⟨pos, hpos⟩ := Option.isSome_iff_exists.mp hheld
  have hmode : (c.engine.positions.lookup "A").map Position.mode = some .conviction := by
    decide +kernel
  have hmarks : c.marks "A" = [.fill 1, .fill 1, .fill 1, .tick (9 / 10), .tick 5, .tick 4] := by
    decide +kernel
  rw [hpos] at hmode
  obtain ⟨hsurvived, htime, -⟩ := exit_rules_over_runs Config.paperDefaults (by decide) (by decide)
    Executor.oneToken Executor.oneToken_honoursMint Executor.oneToken_sellsSucceed ()
    (.opened fun _ => true) 0 _ _ "A" pos hpos
  exact ⟨pos, hpos, Option.some.inj hmode, hmarks, hsurvived, htime⟩

end Engine

end HfmcBot
