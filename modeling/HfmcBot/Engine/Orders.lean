import HfmcBot.Engine.Funnel

/-!
# The order history

Over a recorded executor, `sent` is the list of all orders the engine submitted,
in order, with their answers.  `Step.sent_cases` says what one step can add to
it: nothing, or one order at the event's time with the next id, a buy only from
an open funnel in the handler of a launch.
-/

namespace HfmcBot

open Foundation

namespace Engine

variable {σ : Type}

/-- The orders submitted so far. -/
def sent (e : Engine (σ × List Sent)) : List Sent := e.exec.2

/-- The orders submitted between two states of a run. -/
def sentSince (e e' : Engine (σ × List Sent)) : List Sent := e'.sent.drop e.sent.length

theorem sent_of_trading {e e' : Engine (σ × List Sent)} (h : e.trading = e'.trading) :
    e.sent = e'.sent :=
  congrArg Prod.snd (fields_of_trading h).exec

/-- A slice is one buy order, recorded with the answer it got. -/
theorem sendSlice_sent (ex : Executor σ) (e : Engine (σ × List Sent)) (launch : Launch)
    (deadline : DateTime) (slice : Decimal) :
    (e.sendSlice ex.recorded launch deadline slice).1.sent =
      e.sent ++
        [⟨.buy (sliceRequest launch deadline slice (e.nextOrderId launch.mint).1),
          (ex.recorded.buy (sliceRequest launch deadline slice (e.nextOrderId launch.mint).1)
            e.exec).1⟩] := by
  have hlog := recorded_buy_log ex
    (sliceRequest launch deadline slice (e.nextOrderId launch.mint).1) e.exec
  rcases sendSlice_cases ex.recorded e launch deadline slice with
    ⟨err, st, hbuy, hsend, -⟩ | ⟨fill, st, hbuy, hsend, -⟩
  · rw [hbuy] at hlog ⊢
    rw [sent_of_trading hsend]
    exact hlog
  · rw [hbuy] at hlog ⊢
    rw [sent_of_trading hsend]
    exact hlog

theorem sendSlice_orderSeq (ex : Executor σ) (e : Engine σ) (launch : Launch)
    (deadline : DateTime) (slice : Decimal) :
    (e.sendSlice ex launch deadline slice).1.orderSeq = e.orderSeq + 1 := by
  rcases sendSlice_cases ex e launch deadline slice with
    ⟨err, st, -, hsend, -⟩ | ⟨fill, st, -, hsend, -⟩
  · exact (fields_of_trading hsend).orderSeq
  · exact (fields_of_trading hsend).orderSeq

/-- An exit is one sell order, recorded with the answer it got. -/
theorem closePosition_sent (ex : Executor σ) (e : Engine (σ × List Sent)) (x : ExitArgs)
    (now : DateTime) :
    (e.closePosition ex.recorded x now).sent =
      e.sent ++
        [⟨.sell (sellRequest x now (e.nextOrderId x.mint).1),
          (ex.recorded.sell (sellRequest x now (e.nextOrderId x.mint).1) e.exec).1⟩] := by
  have hlog := recorded_sell_log ex (sellRequest x now (e.nextOrderId x.mint).1) e.exec
  rcases closePosition_cases ex.recorded e x now with
    ⟨err, st, hsell, hclose⟩ | ⟨fill, st, hsell, hclose⟩
  · rw [hsell] at hlog ⊢
    rw [sent_of_trading hclose]
    exact hlog
  · rw [hsell] at hlog ⊢
    rw [sent_of_trading hclose]
    exact hlog

theorem closePosition_orderSeq (ex : Executor σ) (e : Engine σ) (x : ExitArgs)
    (now : DateTime) : (e.closePosition ex x now).orderSeq = e.orderSeq + 1 := by
  rcases closePosition_cases ex e x now with ⟨err, st, -, hclose⟩ | ⟨fill, st, -, hclose⟩
  · exact (fields_of_trading hclose).orderSeq
  · exact (fields_of_trading hclose).orderSeq

/-- What one step adds to the history. -/
theorem Step.sent_cases {ex : Executor σ} {ev : Event} {phase : Phase}
    {e e' : Engine (σ × List Sent)} (hstep : Step ex.recorded ev phase e e') :
    (e'.sent = e.sent ∧ e'.orderSeq = e.orderSeq) ∨
      ∃ s, e'.sent = e.sent ++ [s] ∧ e'.orderSeq = e.orderSeq + 1 ∧ s.order.now = ev.ts ∧
        s.order.orderId = (e.nextOrderId s.order.mint).1 ∧
        (s.order.side = .buy ↔ phase = .handler ∧ ∃ launch, ev = .launch launch) ∧
        (s.order.side = .buy → ∃ launch, ev = .launch launch ∧ FunnelOpen ex.recorded e launch) := by
  cases hstep with
  | note e mint action detail => exact Or.inl ⟨rfl, rfl⟩
  | refresh e => exact Or.inl ⟨rfl, rfl⟩
  | slice e launch budgetUsd hev hopen hwindow hroom =>
      have hsent := sendSlice_sent ex
        (e.withRisk ((e.risk.refresh launch.createdAt).pushOrder launch.createdAt)) launch
        (funnelDeadline e.cfg launch) budgetUsd
      refine Or.inr ⟨_, hsent, sendSlice_orderSeq _ _ _ _ _, ?_, rfl, ?_, ?_⟩
      · rw [hev]
        rfl
      · exact ⟨fun _ => ⟨rfl, launch, hev⟩, fun _ => rfl⟩
      · exact fun _ => ⟨launch, hev, hopen⟩
  | tick e p pos hev hpos hstay => exact Or.inl ⟨rfl, rfl⟩
  | tickExit e p pos d hev hpos hexit =>
      have hsent := closePosition_sent ex (e.ticked p pos)
        ((tickPosition e.cfg p pos).1.exitArgs p.priceUsd p.liquidityUsd d.reason) p.ts
      refine Or.inr ⟨_, hsent, closePosition_orderSeq _ _ _ _, ?_, rfl, ?_, ?_⟩
      · rw [hev]
        rfl
      · constructor
        · intro hbuy
          exact absurd hbuy (by simp [Order.side])
        · -- a tick is no launch
          rintro ⟨-, launch, hlaunch⟩
          rw [hev] at hlaunch
          exact absurd hlaunch (by simp)
      · intro hbuy
        exact absurd hbuy (by simp [Order.side])
  | timeExit e pos x hpos hdue =>
      have hsent := closePosition_sent ex e x ev.ts
      refine Or.inr ⟨_, hsent, closePosition_orderSeq _ _ _ _, rfl, rfl, ?_, ?_⟩
      · constructor
        · intro hbuy
          exact absurd hbuy (by simp [Order.side])
        · -- a time stop belongs to the sweep, not to the handler
          rintro ⟨hphase, -⟩
          exact absurd hphase (by simp)
      · intro hbuy
        exact absurd hbuy (by simp [Order.side])
  | page e kind detail => exact Or.inl ⟨rfl, rfl⟩

/-- Orders are only ever added, and what holds of each order a step adds holds of
all of them. -/
theorem Steps.sent_append {ex : Executor σ} {ev : Event} {phase : Phase}
    {e e' : Engine (σ × List Sent)} (hsteps : Steps ex.recorded ev phase e e') {P : Sent → Prop}
    (hnew : ∀ a b s, Step ex.recorded ev phase a b → b.sent = a.sent ++ [s] → P s) :
    ∃ new, e'.sent = e.sent ++ new ∧ ∀ s ∈ new, P s := by
  refine steps_invariant
    (P := fun e' : Engine (σ × List Sent) => ∃ new, e'.sent = e.sent ++ new ∧ ∀ s ∈ new, P s)
    ?_ hsteps ⟨[], by simp, by simp⟩
  rintro a b hab ⟨new, hsent, hall⟩
  rcases hab.sent_cases with ⟨hsame, -⟩ | ⟨s, hs, -⟩
  · exact ⟨new, hsame.trans hsent, hall⟩
  · refine ⟨new ++ [s], by rw [hs, hsent, List.append_assoc], ?_⟩
    intro s' hs'
    rcases List.mem_append.mp hs' with hold | hlast
    · exact hall s' hold
    · rw [List.mem_singleton.mp hlast]
      exact hnew a b s hab hs

/-- The one order a step adds, by its side. -/
theorem Step.side_of_sent {ex : Executor σ} {ev : Event} {phase : Phase}
    {e e' : Engine (σ × List Sent)} (hstep : Step ex.recorded ev phase e e') {s : Sent}
    (hs : e'.sent = e.sent ++ [s]) :
    s.order.side = .buy ↔ phase = .handler ∧ ∃ launch, ev = .launch launch := by
  rcases hstep.sent_cases with ⟨hsame, -⟩ | ⟨s', hs', -, -, -, hside, -⟩
  · rw [hsame] at hs
    exact absurd hs (by simp)
  · obtain rfl : s = s' := by
      have happend := hs.symm.trans hs'
      simpa using happend
    exact hside

theorem side_sell_of_ne {side : Side} (h : side ≠ .buy) : side = .sell := by
  cases side with
  | buy => exact absurd rfl h
  | sell => rfl

/-- The sweep only sells. -/
theorem Steps.sweep_sells {ex : Executor σ} {ev : Event} {e e' : Engine (σ × List Sent)}
    (hsteps : Steps ex.recorded ev .sweep e e') :
    ∃ new, e'.sent = e.sent ++ new ∧ ∀ s ∈ new, s.order.side = .sell := by
  refine hsteps.sent_append fun a b s hab hs => side_sell_of_ne fun hbuy => ?_
  have hphase := ((hab.side_of_sent hs).mp hbuy).1
  exact absurd hphase (by simp)

/-- The handler of a tick only sells. -/
theorem Steps.tick_sells {ex : Executor σ} {p : PriceUpdate} {e e' : Engine (σ × List Sent)}
    (hsteps : Steps ex.recorded (.price p) .handler e e') :
    ∃ new, e'.sent = e.sent ++ new ∧ ∀ s ∈ new, s.order.side = .sell := by
  refine hsteps.sent_append fun a b s hab hs => side_sell_of_ne fun hbuy => ?_
  obtain ⟨-, launch, hlaunch⟩ := (hab.side_of_sent hs).mp hbuy
  exact absurd hlaunch (by simp)

/-- The handler of a launch only buys. -/
theorem Steps.launch_buys {ex : Executor σ} {launch : Launch} {e e' : Engine (σ × List Sent)}
    (hsteps : Steps ex.recorded (.launch launch) .handler e e') :
    ∃ new, e'.sent = e.sent ++ new ∧ ∀ s ∈ new, s.order.side = .buy :=
  hsteps.sent_append fun _ _ _ hab hs => (hab.side_of_sent hs).mpr ⟨rfl, launch, rfl⟩

theorem sentSince_of_append {e e' : Engine (σ × List Sent)} {new : List Sent}
    (h : e'.sent = e.sent ++ new) : sentSince e e' = new := by
  rw [sentSince, h, List.drop_left]

/-! ## A launch that is let in buys -/

/-- The slice that passes the throttle is sent first. -/
theorem funnel_sends (ex : Executor σ) (e : Engine (σ × List Sent)) (launch : Launch)
    (total idx : Nat) (slice : Decimal) (rest : List Decimal)
    (hopen : FunnelOpen ex.recorded e launch)
    (hwindow : launch.createdAt ≤ funnelDeadline e.cfg launch)
    (hroom : (e.risk.refresh launch.createdAt).throttleFull = false) :
    ∃ s later, s.order.side = .buy ∧ s.order.now = launch.createdAt ∧
      (funnel ex.recorded launch (funnelDeadline e.cfg launch) total idx (slice :: rest) e).sent =
        e.sent ++ s :: later := by
  have hslice : e.funnelSlice ex.recorded launch (funnelDeadline e.cfg launch) idx total slice =
      (e.withRisk ((e.risk.refresh launch.createdAt).pushOrder launch.createdAt)).sendSlice
        ex.recorded launch (funnelDeadline e.cfg launch) slice := by
    rcases funnelSlice_cases ex.recorded e launch (funnelDeadline e.cfg launch) idx total slice
      with ⟨hlate, -⟩ | ⟨-, hfull, -⟩ | ⟨-, -, hturn⟩
    · exact absurd hwindow (not_le.mpr hlate)
    · rw [hroom] at hfull
      exact absurd hfull Bool.false_ne_true
    · exact hturn
  have hsent := sendSlice_sent ex
    (e.withRisk ((e.risk.refresh launch.createdAt).pushOrder launch.createdAt)) launch
    (funnelDeadline e.cfg launch) slice
  obtain ⟨-, hnext⟩ := funnelSlice_steps ex.recorded e launch idx total slice hopen
  rw [← hslice] at hsent
  obtain ⟨s, hside, hnow, hlog⟩ : ∃ s : Sent, s.order.side = .buy ∧
      s.order.now = launch.createdAt ∧
      (e.funnelSlice ex.recorded launch (funnelDeadline e.cfg launch) idx total slice).1.sent =
        e.sent ++ [s] := ⟨_, rfl, rfl, hsent⟩
  unfold funnel
  dsimp only
  split
  · rename_i hcontinues
    obtain ⟨later, hlater, -⟩ := Steps.launch_buys
      (funnel_steps ex.recorded launch total rest (idx + 1) _ (hnext hcontinues))
    rw [funnelSlice_cfg, hlog, List.append_assoc] at hlater
    exact ⟨s, later, hside, hnow, hlater⟩
  · exact ⟨s, [], hside, hnow, hlog⟩

/-- A launch that passes every check of `on_launch` buys. -/
theorem onLaunch_sends (ex : Executor σ) (e : Engine (σ × List Sent)) (launch : Launch)
    (hnew : launch.mint ∉ e.positions) (hgate : entryGate launch launch.createdAt e.cfg = .ok ())
    (hentry : (e.risk.refresh launch.createdAt).EntryOk)
    (hbudget : 0 < positionBudget e.cfg e.equity e.deployedUsd) (hslices : 1 ≤ e.cfg.funnelSlices)
    (hwindow : launch.createdAt ≤ funnelDeadline e.cfg launch) :
    ∃ s later, s.order.side = .buy ∧ s.order.now = launch.createdAt ∧
      (e.onLaunch ex.recorded launch).sent = e.sent ++ s :: later := by
  have hadmitted : e.Admitted launch := ⟨hnew, hgate, hentry, hbudget⟩
  obtain ⟨slice, rest, hsplit⟩ : ∃ slice rest, e.slices = slice :: rest :=
    List.exists_cons_of_ne_nil (splitIntoSlices_ne_nil e.budget hslices)
  have hopen : FunnelOpen ex.recorded (e.funnelStart launch) launch :=
    ⟨hgate, e.risk.refresh_day _, hentry.not_tripped, hentry.above_limit, hentry.not_killed,
      fun _ => Or.inr hentry.below_cap⟩
  rw [onLaunch_admitted _ hadmitted, hsplit]
  apply funnel_sends ex (e.funnelStart launch) launch _ 0 slice rest hopen hwindow
  show ((e.risk.refresh launch.createdAt).refresh launch.createdAt).throttleFull = false
  rw [RiskEngine.refresh_refresh]
  exact hentry.below_throttle

end Engine

end HfmcBot
