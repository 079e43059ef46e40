import HfmcBot.Engine.Desk

/-!
# The exits of an event

An event sells on two paths: a tick on which an exit rule fires, and the sweep, which
collects what is due and sells it one after the other.  `exitTurns` lists these exits,
each with the state it finds, so that what an event writes or books for its exits can be
read off the list.

* `onPriceUpdate_observe`, `sweep_observe`: what changes in exits only is what it was
  before, and what each turn adds;
* `exitTurns_desk`: what the desk looks like in a turn;
* `exitTurns_held`: a turn sells the whole of a position that is held;
* `deliver_sent`: the sells of an event are those of its exits;
* `deliver_preserves`: an invariant rule by launches, ticks and exits.
-/

namespace HfmcBot

open Foundation Relation

/-- The turn of one exit: the state it finds, and what was decided. -/
structure ExitTurn (σ : Type) where
  before : Engine σ
  args : ExitArgs

namespace ExitTurn

variable {σ : Type}

/-- The sell order of the turn. -/
def request (turn : ExitTurn σ) (now : DateTime) : SellRequest :=
  Engine.sellRequest turn.args now (turn.before.nextOrderId turn.args.mint).1

/-- What the executor answers to it. -/
def answer (ex : Executor σ) (now : DateTime) (turn : ExitTurn σ) : Answer :=
  (ex.sell (turn.request now) turn.before.exec).1

/-- The state the turn leaves. -/
def after (ex : Executor σ) (now : DateTime) (turn : ExitTurn σ) : Engine σ :=
  turn.before.closePosition ex turn.args now

end ExitTurn

namespace Engine

variable {σ : Type}

/-- The exit of a tick: of a held token, if an exit rule fires. -/
def tickTurns (e : Engine σ) (p : PriceUpdate) : List (ExitTurn σ) :=
  match e.positions.lookup p.mint with
  | none => []
  | some pos =>
      match (tickPosition e.cfg p pos).2 with
      | none => []
      | some d =>
          [⟨e.ticked p pos,
            (tickPosition e.cfg p pos).1.exitArgs p.priceUsd p.liquidityUsd d.reason⟩]

/-- The exits of the event's own handler: a launch has none. -/
def handlerTurns (e : Engine σ) : Event → List (ExitTurn σ)
  | .launch _ => []
  | .price p => e.tickTurns p

/-- Exits sold one after the other. -/
def closeTurns (ex : Executor σ) (now : DateTime) : List ExitArgs → Engine σ → List (ExitTurn σ)
  | [], _ => []
  | x :: rest, e => ⟨e, x⟩ :: closeTurns ex now rest (e.closePosition ex x now)

/-- The exits of a sweep. -/
def sweepTurns (ex : Executor σ) (o : KeyOrder Mint) (e : Engine σ) (now : DateTime) :
    List (ExitTurn σ) :=
  closeTurns ex now ((e.positions.valuesIn o).filterMap (timeStopExit e.cfg now)) e

/-- The exits of an event. -/
def exitTurns (ex : Executor σ) (o : KeyOrder Mint) (e : Engine σ) (ev : Event) :
    List (ExitTurn σ) :=
  e.handlerTurns ev ++ sweepTurns ex o (e.handle ex ev) ev.ts

section Cases

variable {e : Engine σ} {p : PriceUpdate} {pos : Position}

theorem tickTurns_unheld (hpos : e.positions.lookup p.mint = none) : e.tickTurns p = [] := by
  unfold tickTurns
  rw [hpos]

theorem tickTurns_stay (hpos : e.positions.lookup p.mint = some pos)
    (hstay : (tickPosition e.cfg p pos).2 = none) : e.tickTurns p = [] := by
  unfold tickTurns
  rw [hpos]
  dsimp only
  rw [hstay]

theorem tickTurns_exit {d : ExitDecision} (hpos : e.positions.lookup p.mint = some pos)
    (hexit : (tickPosition e.cfg p pos).2 = some d) :
    e.tickTurns p =
      [⟨e.ticked p pos,
        (tickPosition e.cfg p pos).1.exitArgs p.priceUsd p.liquidityUsd d.reason⟩] := by
  unfold tickTurns
  rw [hpos]
  dsimp only
  rw [hexit]

end Cases

/-! ## Observations -/

section Observe

variable {β : Type} (ex : Executor σ) {g : Engine σ → List β} {w : ExitTurn σ → List β}
  {Q : Engine σ → Prop} {now : DateTime}

/-- What the exits of a list add, exit by exit, where `Q` holds throughout. -/
theorem closeAll_observe (hkeep : ∀ e x, Q e → Q (e.closePosition ex x now))
    (hclose : ∀ e x, Q e → g (e.closePosition ex x now) = g e ++ w ⟨e, x⟩)
    (exits : List ExitArgs) : ∀ e : Engine σ, Q e →
      g (exits.foldl (fun e x => e.closePosition ex x now) e) =
        g e ++ (closeTurns ex now exits e).flatMap w := by
  induction exits with
  | nil =>
      intro e _
      exact (List.append_nil _).symm
  | cons x rest ih =>
      intro e he
      show g (rest.foldl _ (e.closePosition ex x now)) =
        g e ++ (w ⟨e, x⟩ ++ (closeTurns ex now rest (e.closePosition ex x now)).flatMap w)
      rw [ih _ (hkeep e x he), hclose e x he, List.append_assoc]

/-- What a sweep adds. -/
theorem sweep_observe (hkeep : ∀ e x, Q e → Q (e.closePosition ex x now))
    (hclose : ∀ e x, Q e → g (e.closePosition ex x now) = g e ++ w ⟨e, x⟩)
    (o : KeyOrder Mint) {e : Engine σ} (he : Q e) :
    g (e.sweepTimeStops ex o now) = g e ++ (sweepTurns ex o e now).flatMap w :=
  closeAll_observe ex hkeep hclose _ e he

/-- What a tick adds. -/
theorem onPriceUpdate_observe {p : PriceUpdate}
    (hclose : ∀ e x, Q e → g (e.closePosition ex x p.ts) = g e ++ w ⟨e, x⟩)
    (htick : ∀ e pos, Q e → g (ticked e p pos) = g e ∧ Q (ticked e p pos)) {e : Engine σ}
    (he : Q e) : g (e.onPriceUpdate ex p) = g e ++ (e.tickTurns p).flatMap w := by
  cases hpos : e.positions.lookup p.mint with
  | none =>
      rw [onPriceUpdate_unheld hpos, tickTurns_unheld hpos]
      exact (List.append_nil _).symm
  | some pos =>
      obtain ⟨hsame, hticked⟩ := htick e pos he
      cases hexit : (tickPosition e.cfg p pos).2 with
      | none =>
          rw [onPriceUpdate_stay hpos hexit, tickTurns_stay hpos hexit, hsame]
          exact (List.append_nil _).symm
      | some d =>
          rw [onPriceUpdate_exit hpos hexit, tickTurns_exit hpos hexit, hclose _ _ hticked, hsame,
            List.flatMap_singleton]

end Observe

/-! ## What a turn finds -/

/-- What a turn is about: the whole of a position that is held, in a book that is in
order. -/
structure Held (turn : ExitTurn σ) (pos : Position) : Prop where
  keyed : turn.before.Keyed
  lookup : turn.before.positions.lookup pos.mint = some pos
  args : ∃ refPrice liquidityUsd reason, turn.args = pos.exitArgs refPrice liquidityUsd reason

theorem Held.mint {turn : ExitTurn σ} {pos : Position} (h : Held turn pos) :
    turn.args.mint = pos.mint := by
  obtain ⟨refPrice, liquidityUsd, reason, hargs⟩ := h.args
  rw [hargs]
  rfl

section Turns

variable {ex : Executor σ} {ev : Event}

theorem tickTurns_held {e : Engine σ} (hkeyed : e.Keyed) (p : PriceUpdate) :
    ∀ turn ∈ e.tickTurns p, ∃ pos, Held turn pos ∧ turn.before.cfg = e.cfg := by
  intro turn hturn
  cases hpos : e.positions.lookup p.mint with
  | none =>
      rw [tickTurns_unheld hpos] at hturn
      exact absurd hturn List.not_mem_nil
  | some pos =>
      cases hexit : (tickPosition e.cfg p pos).2 with
      | none =>
          rw [tickTurns_stay hpos hexit] at hturn
          exact absurd hturn List.not_mem_nil
      | some d =>
          rw [tickTurns_exit hpos hexit] at hturn
          obtain rfl := List.mem_singleton.mp hturn
          exact ⟨_, ⟨hkeyed.ticked hpos, ticked_lookup hkeyed hpos, _, _, _, rfl⟩, rfl⟩

theorem closeTurns_held {now : DateTime} (exits : List ExitArgs) : ∀ {e : Engine σ},
    e.Keyed → e.DueExits now exits →
      ∀ turn ∈ closeTurns ex now exits e,
        ∃ pos, Held turn pos ∧ turn.before.cfg = e.cfg ∧ pos.stuck = false := by
  induction exits with
  | nil =>
      intro e _ _ turn hturn
      exact absurd hturn List.not_mem_nil
  | cons x rest ih =>
      intro e hkeyed hdue turn hturn
      rcases List.mem_cons.mp hturn with rfl | hrest
      · obtain ⟨pos, hlookup, hmint, hexit⟩ := hdue.2 x List.mem_cons_self
        obtain ⟨d, -, hstuck, hargs⟩ := timeStopExit_eq_exitArgs hexit
        rw [← hmint] at hlookup
        exact ⟨pos, ⟨hkeyed, hlookup, _, _, _, hargs⟩, rfl, hstuck⟩
      · obtain ⟨pos, hheld, hcfg, hstuck⟩ :=
          ih (hkeyed.closePosition ex x now) (hdue.tail ex) turn hrest
        exact ⟨pos, hheld, hcfg.trans (closePosition_cfg ex e x now), hstuck⟩

/-- The exits that have a turn are those of the list. -/
theorem closeTurns_args {now : DateTime} (exits : List ExitArgs) : ∀ {e : Engine σ},
    ∀ turn ∈ closeTurns ex now exits e, turn.args ∈ exits := by
  induction exits with
  | nil => exact fun turn hturn => absurd hturn List.not_mem_nil
  | cons x rest ih =>
      intro e turn hturn
      rcases List.mem_cons.mp hturn with rfl | hrest
      · exact List.mem_cons_self
      · exact List.mem_cons_of_mem _ (ih turn hrest)

/-- The sweep gives up on stuck positions. -/
theorem sweepTurns_unstuck {e : Engine σ} (hkeyed : e.Keyed) (o : KeyOrder Mint)
    (now : DateTime) : ∀ turn ∈ sweepTurns ex o e now,
      ∃ pos, e.positions.lookup turn.args.mint = some pos ∧ pos.stuck = false := by
  intro turn hturn
  obtain ⟨pos, hlookup, -, hexit⟩ :=
    (dueExits_collect hkeyed o now).2 turn.args (closeTurns_args _ turn hturn)
  obtain ⟨dec, -, hstuck, -⟩ := timeStopExit_eq_exitArgs hexit
  exact ⟨pos, hlookup, hstuck⟩

/-- A turn of an event sells the whole of a position that is held. -/
theorem exitTurns_held {e : Engine σ} (hkeyed : e.Keyed) (o : KeyOrder Mint) :
    ∀ turn ∈ e.exitTurns ex o ev, ∃ pos, Held turn pos ∧ turn.before.cfg = e.cfg := by
  intro turn hturn
  rcases List.mem_append.mp hturn with hhandler | hsweep
  · cases ev with
    | launch launch => exact absurd hhandler List.not_mem_nil
    | price p => exact tickTurns_held hkeyed p turn hhandler
  · have hhandled := (handle_steps ex e ev).keyed hkeyed
    obtain ⟨pos, hheld, hcfg, -⟩ :=
      closeTurns_held _ hhandled (dueExits_collect hhandled o ev.ts) turn hsweep
    exact ⟨pos, hheld, hcfg.trans (handle_cfg ex e ev)⟩

end Turns

/-! ## The desk in a turn -/

section DeskTurns

variable {ex : Executor σ} {ev : Event} {P : Desk → Prop}

/-- The exits of a list keep what every step at the desk keeps. -/
theorem closeTurns_desk (exits : List ExitArgs) : ∀ {e : Engine (σ × List Sent)},
    (∀ a b, DeskStep ex e.cfg ev a b → P a → P b) → e.Keyed → e.DueExits ev.ts exits → P e.desk →
      ∀ turn ∈ closeTurns ex.recorded ev.ts exits e, P turn.before.desk := by
  induction exits with
  | nil =>
      intro e _ _ _ _ turn hturn
      exact absurd hturn List.not_mem_nil
  | cons x rest ih =>
      intro e hstep hkeyed hdue he turn hturn
      rcases List.mem_cons.mp hturn with rfl | hrest
      · exact he
      · obtain ⟨pos, hlookup, hmint, hexit⟩ := hdue.2 x List.mem_cons_self
        obtain ⟨d, -, -, hargs⟩ := timeStopExit_eq_exitArgs hexit
        rw [← hmint] at hlookup
        have hsold : P (e.closePosition ex.recorded x ev.ts).desk := by
          rw [hargs]
          exact hstep _ _ (closePosition_desk ex e _ _ _ ev hlookup) he
        refine ih ?_ (hkeyed.closePosition _ x _) (hdue.tail _) hsold turn hrest
        rw [closePosition_cfg]
        exact hstep

/-- What every step at the desk keeps holds in every turn of an event. -/
theorem exitTurns_desk {e : Engine (σ × List Sent)} (hkeyed : e.Keyed)
    (hstep : ∀ a b, DeskStep ex e.cfg ev a b → P a → P b) (he : P e.desk) (o : KeyOrder Mint) :
    ∀ turn ∈ e.exitTurns ex.recorded o ev, P turn.before.desk := by
  intro turn hturn
  rcases List.mem_append.mp hturn with hhandler | hsweep
  · cases ev with
    | launch launch => exact absurd hhandler List.not_mem_nil
    | price p =>
        cases hpos : e.positions.lookup p.mint with
        | none =>
            have hnone : turn ∈ e.tickTurns p := hhandler
            rw [tickTurns_unheld hpos] at hnone
            exact absurd hnone List.not_mem_nil
        | some pos =>
            have hturn' : turn ∈ e.tickTurns p := hhandler
            cases hexit : (tickPosition e.cfg p pos).2 with
            | none =>
                rw [tickTurns_stay hpos hexit] at hturn'
                exact absurd hturn' List.not_mem_nil
            | some d =>
                rw [tickTurns_exit hpos hexit] at hturn'
                obtain rfl := List.mem_singleton.mp hturn'
                exact hstep _ _ (DeskStep.tick e.desk p pos rfl hpos) he
  · have hhandled := (handle_steps ex.recorded e ev).keyed hkeyed
    have hboth : ∀ a b, Step ex.recorded ev .handler a b →
        a.Keyed ∧ a.cfg = e.cfg ∧ P a.desk → b.Keyed ∧ b.cfg = e.cfg ∧ P b.desk := by
      intro a b hab ha
      have hdesk := hab.desk ha.1
      rw [ha.2.1] at hdesk
      exact ⟨hab.keyed ha.1, hab.cfg.trans ha.2.1, steps_invariant hstep hdesk ha.2.2⟩
    obtain ⟨-, hcfg, hmid⟩ := steps_invariant hboth (handle_steps ex.recorded e ev)
      ⟨hkeyed, rfl, he⟩
    refine closeTurns_desk _ ?_ hhandled (dueExits_collect hhandled o ev.ts) hmid turn hsweep
    rw [hcfg]
    exact hstep

end DeskTurns

/-! ## The orders of an event -/

/-- The order of a turn, with its answer. -/
def orderOf (ex : Executor σ) (now : DateTime) (turn : ExitTurn (σ × List Sent)) : Sent :=
  ⟨.sell (turn.request now), turn.answer ex.recorded now⟩

/-- An event sends its buys, and then one sell for each of its exits. -/
theorem deliver_sent (ex : Executor σ) (e : Engine (σ × List Sent)) (d : Delivery) :
    ∃ buys, (e.deliver ex.recorded d).sent =
        e.sent ++ buys ++ (e.exitTurns ex.recorded d.order d.ev).map (orderOf ex d.ts) ∧
      ∀ s ∈ buys, s.order.side = .buy := by
  have hclose : ∀ (e : Engine (σ × List Sent)) (x : ExitArgs), True →
      (e.closePosition ex.recorded x d.ts).sent = e.sent ++ [orderOf ex d.ts ⟨e, x⟩] :=
    fun e x _ => closePosition_sent ex e x d.ts
  have hhandler : ∃ buys, (e.handle ex.recorded d.ev).sent =
        e.sent ++ buys ++ (e.handlerTurns d.ev).map (orderOf ex d.ts) ∧
      ∀ s ∈ buys, s.order.side = .buy := by
    obtain ⟨ev, o⟩ := d
    cases ev with
    | launch launch =>
        obtain ⟨buys, hsent, hside⟩ := Steps.launch_buys (onLaunch_steps ex.recorded e launch)
        exact ⟨buys, hsent.trans (List.append_nil _).symm, hside⟩
    | price p =>
        have htick := onPriceUpdate_observe ex.recorded (Q := fun _ => True) (g := sent)
          (w := fun turn => [orderOf ex p.ts turn]) (p := p) hclose (fun _ _ h => ⟨rfl, h⟩)
          (e := e) trivial
        refine ⟨[], ?_, by simp⟩
        rw [List.append_nil, List.map_eq_flatMap]
        exact htick
  obtain ⟨buys, hsent, hside⟩ := hhandler
  have hsweep := sweep_observe ex.recorded (Q := fun _ => True) (g := sent)
    (w := fun turn => [orderOf ex d.ts turn]) (fun _ _ h => h) hclose d.order
    (e := e.handle ex.recorded d.ev) trivial
  have hdeliver : (e.deliver ex.recorded d).sent =
      ((e.handle ex.recorded d.ev).sweepTimeStops ex.recorded d.order d.ts).sent :=
    sent_of_trading (trading_onEvent ex.recorded d.order e d.ev)
  refine ⟨buys, ?_, hside⟩
  unfold exitTurns
  rw [hdeliver, hsweep, hsent, List.map_append, List.append_assoc, List.append_assoc,
    List.append_assoc, ← List.map_eq_flatMap]
  rfl

/-! ## A rule for events -/

/-- What launches, ticks and exits of held positions preserve, the handler and the sweep of
an event preserve. -/
theorem swept_preserves {ex : Executor σ} {ev : Event} {P : Engine σ → Prop}
    (hlaunch : ∀ e launch, ev = .launch launch → P e → P (e.onLaunch ex launch))
    (htick : ∀ e p pos, e.positions.lookup p.mint = some pos → P e → P (ticked e p pos))
    (hclose : ∀ e pos refPrice liquidityUsd reason, e.positions.lookup pos.mint = some pos →
      P e → P (e.closePosition ex (pos.exitArgs refPrice liquidityUsd reason) ev.ts))
    {e : Engine σ} (hkeyed : e.Keyed) (he : P e) (o : KeyOrder Mint) :
    P ((e.handle ex ev).sweepTimeStops ex o ev.ts) := by
  have hhandled : P (e.handle ex ev) := by
    cases ev with
    | launch launch => exact hlaunch e launch rfl he
    | price p =>
        show P (e.onPriceUpdate ex p)
        cases hpos : e.positions.lookup p.mint with
        | none =>
            rw [onPriceUpdate_unheld hpos]
            exact he
        | some pos =>
            cases hexit : (tickPosition e.cfg p pos).2 with
            | none =>
                rw [onPriceUpdate_stay hpos hexit]
                exact htick e p pos hpos he
            | some dec =>
                rw [onPriceUpdate_exit hpos hexit]
                exact hclose _ _ _ _ _ (ticked_lookup hkeyed hpos) (htick e p pos hpos he)
  have hswept : ∀ (exits : List ExitArgs) (e : Engine σ), e.DueExits ev.ts exits → P e →
      P (exits.foldl (fun e x => e.closePosition ex x ev.ts) e) := by
    intro exits
    induction exits with
    | nil => exact fun e _ he => he
    | cons x rest ih =>
        intro e hdue he
        obtain ⟨pos, hlookup, hmint, hexit⟩ := hdue.2 x List.mem_cons_self
        obtain ⟨dec, -, -, hargs⟩ := timeStopExit_eq_exitArgs hexit
        rw [← hmint] at hlookup
        apply ih _ (hdue.tail ex)
        rw [hargs]
        exact hclose e pos _ _ _ hlookup he
  exact hswept _ _ (dueExits_collect ((handle_steps ex e ev).keyed hkeyed) o ev.ts) hhandled

/-- With the page at its end, what they preserve, the event preserves. -/
theorem deliver_preserves {ex : Executor σ} {d : Delivery} {P : Engine σ → Prop}
    (hlaunch : ∀ e launch, d.ev = .launch launch → P e → P (e.onLaunch ex launch))
    (htick : ∀ e p pos, e.positions.lookup p.mint = some pos → P e → P (ticked e p pos))
    (hclose : ∀ e pos refPrice liquidityUsd reason, e.positions.lookup pos.mint = some pos →
      P e → P (e.closePosition ex (pos.exitArgs refPrice liquidityUsd reason) d.ts))
    (hpage : ∀ e detail, P e → P (e.alert .dailyLossTrip detail))
    {e : Engine σ} (hkeyed : e.Keyed) (he : P e) : P (e.deliver ex d) := by
  have hswept := swept_preserves hlaunch htick hclose hkeyed he d.order
  show P (e.onEvent ex d.order d.ev)
  unfold onEvent
  dsimp only
  split
  · exact hpage _ _ hswept
  · exact hswept

end Engine

end HfmcBot
