import HfmcBot.Engine.Funnel
import HfmcBot.Engine.Orders
import Mathlib.Algebra.Order.BigOperators.Group.Finset

/-!
# The funnel window on a wall clock

The engine and the live executor both compare the deadline of a funnel with the
time of the launch, which no order moves.  Here the orders take time: the state
of the executor carries a wall clock, and every order the deadline check lets
through is noted with the time the clock shows.

* `Executor.watched` is the executor on such a clock, behind the checks of
  `LiveExecutor::buy`;
* `OnTime` is the promise of the window, for one launch;
* `onTime_iff` says for which launches it is kept.
-/

namespace HfmcBot

open Foundation

/-- A wall clock, and the times at which orders were let through. -/
structure Watch where
  wall : DateTime
  started : List DateTime

/-- One more order, which takes so long. -/
def Watch.order (w : Watch) (latency : Nat) : Watch where
  wall := w.wall + latency
  started := w.started ++ [w.wall]

/-- The refusal of `LiveExecutor::buy`. -/
def pastDeadline (req : BuyRequest) : ExecError :=
  .rejected ["funnel_window_expired: slice for ", req.mint, " (order ", req.orderId,
    ") past deadline"]

/-- An armed executor on a wall clock: slices past the deadline are refused, and
the `n`-th order that is let through takes `latency n` nanoseconds. -/
def Executor.watched {σ : Type} (ex : Executor σ) (latency : Nat → Nat) :
    Executor (σ × Watch) where
  buy req st :=
    if req.deadline < req.now then (.error (pastDeadline req), st)
    else
      ((ex.buy req st.1).1, (ex.buy req st.1).2, st.2.order (latency st.2.started.length))
  sell req st :=
    ((ex.sell req st.1).1, (ex.sell req st.1).2, st.2.order (latency st.2.started.length))

/-- A slice within its deadline is let through. -/
theorem watched_buy_watch {σ : Type} (ex : Executor σ) (latency : Nat → Nat) {req : BuyRequest}
    (h : req.now ≤ req.deadline) (st : σ × Watch) :
    ((ex.watched latency).buy req st).2.2 = st.2.order (latency st.2.started.length) := by
  simp only [Executor.watched, if_neg (not_lt.mpr h)]

namespace Engine

variable {σ : Type}

/-- The clock of the executor. -/
def watch (e : Engine (σ × Watch)) : Watch := e.exec.2

/-- The clock shows the time of the launch. -/
def startClock (e : Engine (σ × Watch)) (launch : Launch) : Engine (σ × Watch) :=
  { e with exec := (e.exec.1, ⟨launch.createdAt, []⟩) }

/-- The turn of a slice past the window: refused, and noted as expired. -/
def SliceTurn.Expired (ex : Executor σ) (launch : Launch) (deadline : DateTime) (total : Nat)
    (turn : SliceTurn σ) : Prop :=
  turn.before.funnelSlice ex launch deadline turn.idx total turn.slice =
    (turn.before.auditDecision launch.createdAt launch.mint "funnel_window_expired"
      ["slice ", .int (turn.idx + 1), "/", .int total, " not sent"], false)

/-- The promise of the window: nothing is let through after it, and a slice whose
turn comes later is refused and noted as expired. -/
structure OnTime (ex : Executor σ) (latency : Nat → Nat) (e : Engine (σ × Watch))
    (launch : Launch) : Prop where
  submitted : ∀ t ∈ ((e.startClock launch).onLaunch (ex.watched latency) launch).watch.started,
    t ≤ funnelDeadline e.cfg launch
  refused : e.Admitted launch →
    ∀ turn ∈ launchTurns (ex.watched latency) (e.startClock launch) launch,
      funnelDeadline e.cfg launch < turn.before.watch.wall →
        turn.Expired (ex.watched latency) launch (funnelDeadline e.cfg launch) e.slices.length

/-- The wall clock after the first `n` orders of a launch. -/
def wallAfter (latency : Nat → Nat) (launch : Launch) (n : Nat) : DateTime :=
  launch.createdAt + ∑ i ∈ Finset.range n, latency i

/-- What every turn finds: as many orders let through as slices came before it,
and the clock moved by them. -/
structure OnClock (latency : Nat → Nat) (launch : Launch) (idx : Nat) (e : Engine (σ × Watch)) :
    Prop where
  started : e.watch.started.length = idx
  wall : e.watch.wall = wallAfter latency launch idx

section Turn

variable (ex : Executor σ) (latency : Nat → Nat) {launch : Launch} {deadline : DateTime}
  (total : Nat) {idx : Nat} {slice : Decimal} {e : Engine (σ × Watch)}

/-- Within the window of the launch, a turn sends its slice or gives up without
an order; it is never noted as expired. -/
theorem watched_turn (e : Engine (σ × Watch)) (idx : Nat) (slice : Decimal)
    (hwindow : launch.createdAt ≤ deadline) :
    ((e.funnelSlice (ex.watched latency) launch deadline idx total slice).2 = false ∧
        (e.funnelSlice (ex.watched latency) launch deadline idx total slice).1.watch = e.watch ∨
      (e.funnelSlice (ex.watched latency) launch deadline idx total slice).1.watch =
        e.watch.order (latency e.watch.started.length)) ∧
      ¬ SliceTurn.Expired (ex.watched latency) launch deadline total ⟨e, idx, slice⟩ := by
  unfold SliceTurn.Expired
  rcases funnelSlice_cases (ex.watched latency) e launch deadline idx total slice with
    ⟨hlate, -⟩ | ⟨-, -, block, hblocked⟩ | ⟨-, -, hsent⟩
  · exact absurd hwindow (not_le.mpr hlate)
  · rw [hblocked]
    refine ⟨Or.inl ⟨rfl, rfl⟩, ?_⟩
    -- the throttle is noted with two records, an expired slice with one
    intro hexpired
    have happends := congrArg (fun r => r.1.audit.appends) hexpired
    change e.audit.appends + 1 + 1 = e.audit.appends + 1 at happends
    omega
  · rw [hsent]
    refine ⟨Or.inr ?_, ?_⟩
    · have hexec := sendSlice_exec (ex.watched latency)
        (e.withRisk ((e.risk.refresh launch.createdAt).pushOrder launch.createdAt)) launch deadline
        slice
      show Prod.snd (sendSlice _ _ _ _ _).1.exec = _
      rw [hexec]
      apply watched_buy_watch
      exact hwindow
    · -- a slice that is sent takes an order number
      intro hexpired
      have hseq := congrArg (fun r => r.1.orderSeq) hexpired
      change (sendSlice _ _ _ _ _).1.orderSeq = e.orderSeq at hseq
      rw [sendSlice_orderSeq] at hseq
      change e.orderSeq + 1 = e.orderSeq at hseq
      omega

theorem OnClock.step (hwindow : launch.createdAt ≤ deadline) (he : e.OnClock latency launch idx)
    (hgo : (e.funnelSlice (ex.watched latency) launch deadline idx total slice).2 = true) :
    (e.funnelSlice (ex.watched latency) launch deadline idx total slice).1.OnClock latency launch
      (idx + 1) := by
  obtain ⟨hturn, -⟩ := watched_turn ex latency total e idx slice hwindow
  rcases hturn with ⟨hstop, -⟩ | hsent
  · rw [hstop] at hgo
    exact absurd hgo Bool.false_ne_true
  · constructor
    · rw [hsent, Watch.order, List.length_append, he.started]
      rfl
    · rw [hsent, Watch.order, he.started, he.wall, wallAfter, wallAfter, Finset.sum_range_succ]
      push_cast
      ring

end Turn

section Launch

variable (ex : Executor σ) (latency : Nat → Nat) (e : Engine (σ × Watch)) (launch : Launch)

/-- The clock at every turn of a launch that starts within its window. -/
theorem launchTurns_onClock (hwindow : launch.createdAt ≤ funnelDeadline e.cfg launch) :
    ∀ turn ∈ launchTurns (ex.watched latency) (e.startClock launch) launch,
      turn.before.OnClock latency launch turn.idx := by
  apply funnelTurns_invariant (P := OnClock latency launch)
  · intro idx slice e' he' hgo
    exact he'.step ex latency _ hwindow hgo
  · constructor
    · rfl
    · simp [wallAfter, funnelStart, startClock, watch, auditDecision, appendAudit, withRisk]

theorem wallAfter_mono (latency : Nat → Nat) (launch : Launch) {m n : Nat} (h : m ≤ n) :
    wallAfter latency launch m ≤ wallAfter latency launch n := by
  have hsub : Finset.range m ⊆ Finset.range n := Finset.range_subset_range.mpr h
  have hsum : ∑ i ∈ Finset.range m, latency i ≤ ∑ i ∈ Finset.range n, latency i :=
    Finset.sum_le_sum_of_subset hsub
  show launch.createdAt + _ ≤ launch.createdAt + _
  exact Int.add_le_add_left (by exact_mod_cast hsum) _

/-- Every number below the number of turns is the number of a turn. -/
theorem exists_turn_iff (idx : Nat) :
    (∃ turn ∈ launchTurns (ex.watched latency) (e.startClock launch) launch, turn.idx = idx) ↔
      idx < (launchTurns (ex.watched latency) (e.startClock launch) launch).length := by
  have hidx : (launchTurns (ex.watched latency) (e.startClock launch) launch).map
      (fun turn => turn.idx) =
        List.range' 0 (launchTurns (ex.watched latency) (e.startClock launch) launch).length :=
    funnelTurns_idx _ _ _
  rw [← List.mem_map, hidx, List.mem_range'_1]
  omega

variable {ex latency e launch}

theorem admitted_startClock_iff : (e.startClock launch).Admitted launch ↔ e.Admitted launch := by
  constructor
  · intro h
    exact ⟨h.unheld, h.gate, h.entry, h.budget⟩
  · intro h
    exact ⟨h.unheld, h.gate, h.entry, h.budget⟩

/-- If no turn lets anything through too late, the launch does not. -/
theorem submitted_of_turns (hadmitted : e.Admitted launch)
    (hturns : ∀ turn ∈ launchTurns (ex.watched latency) (e.startClock launch) launch,
      (∀ t ∈ turn.before.watch.started, t ≤ funnelDeadline e.cfg launch) →
        ∀ t ∈ (turn.before.funnelSlice (ex.watched latency) launch (funnelDeadline e.cfg launch)
          turn.idx e.slices.length turn.slice).1.watch.started, t ≤ funnelDeadline e.cfg launch) :
    ∀ t ∈ ((e.startClock launch).onLaunch (ex.watched latency) launch).watch.started,
      t ≤ funnelDeadline e.cfg launch := by
  rw [onLaunch_admitted _ (admitted_startClock_iff.mpr hadmitted)]
  apply funnel_invariant (Q := fun e' : Engine (σ × Watch) =>
    ∀ t ∈ e'.watch.started, t ≤ funnelDeadline e.cfg launch)
  · exact hturns
  · intro t ht
    exact absurd ht (by simp [funnelStart, startClock, watch, auditDecision, appendAudit,
      withRisk])

/-- A launch that is turned away sends nothing. -/
theorem OnTime.of_refused (h : ¬ e.Admitted launch) : e.OnTime ex latency launch := by
  constructor
  · have hexec := (onLaunch_refused_fields (ex.watched latency)
      (admitted_startClock_iff.not.mpr h)).1
    intro t ht
    rw [watch, hexec] at ht
    have hnone : t ∈ ([] : List DateTime) := ht
    exact absurd hnone (by simp)
  · intro hadmitted
    exact absurd hadmitted h

/-- A window that is over before it begins lets nothing through. -/
theorem OnTime.of_late (hadmitted : e.Admitted launch)
    (hlate : funnelDeadline e.cfg launch < launch.createdAt) : e.OnTime ex latency launch := by
  have hexpired : ∀ turn : SliceTurn (σ × Watch), turn.Expired (ex.watched latency) launch
      (funnelDeadline e.cfg launch) e.slices.length := by
    intro turn
    rcases funnelSlice_cases (ex.watched latency) turn.before launch
      (funnelDeadline e.cfg launch) turn.idx e.slices.length turn.slice with
      ⟨-, hexpired⟩ | ⟨hwindow, -⟩ | ⟨hwindow, -⟩
    · exact hexpired
    · exact absurd hlate (not_lt.mpr hwindow)
    · exact absurd hlate (not_lt.mpr hwindow)
  constructor
  · apply submitted_of_turns hadmitted
    intro turn _ hbefore
    rw [show turn.before.funnelSlice _ _ _ _ _ _ = _ from hexpired turn]
    exact hbefore
  · intro _ turn _ _
    exact hexpired turn

/-- If the clock is within the window at every turn, the promise is kept. -/
theorem OnTime.of_walls (hadmitted : e.Admitted launch)
    (hwindow : launch.createdAt ≤ funnelDeadline e.cfg launch)
    (hwalls : ∀ turn ∈ launchTurns (ex.watched latency) (e.startClock launch) launch,
      turn.before.watch.wall ≤ funnelDeadline e.cfg launch) : e.OnTime ex latency launch := by
  constructor
  · apply submitted_of_turns hadmitted
    intro turn hmem hbefore t ht
    rcases (watched_turn ex latency e.slices.length turn.before turn.idx turn.slice
      hwindow).1 with ⟨-, hsame⟩ | hsent
    · rw [hsame] at ht
      exact hbefore t ht
    · rw [hsent] at ht
      rcases List.mem_append.mp ht with hold | hnew
      · exact hbefore t hold
      · rw [List.mem_singleton.mp hnew]
        exact hwalls turn hmem
  · intro _ turn hmem hlate
    exact absurd (hwalls turn hmem) (not_le.mpr hlate)

/-- Where the promise is kept, the clock is within the window at every turn. -/
theorem OnTime.walls (htime : e.OnTime ex latency launch) (hadmitted : e.Admitted launch)
    (hwindow : launch.createdAt ≤ funnelDeadline e.cfg launch) :
    ∀ turn ∈ launchTurns (ex.watched latency) (e.startClock launch) launch,
      turn.before.watch.wall ≤ funnelDeadline e.cfg launch := by
  intro turn hmem
  by_contra hover
  have hexpired := htime.refused hadmitted turn hmem (not_le.mp hover)
  exact (watched_turn ex latency _ turn.before turn.idx turn.slice hwindow).2 hexpired

/-- The clock is within the window at every turn if it is at the last one. -/
theorem walls_iff (hwindow : launch.createdAt ≤ funnelDeadline e.cfg launch) :
    (∀ turn ∈ launchTurns (ex.watched latency) (e.startClock launch) launch,
      turn.before.watch.wall ≤ funnelDeadline e.cfg launch) ↔
    wallAfter latency launch
        ((launchTurns (ex.watched latency) (e.startClock launch) launch).length - 1) ≤
      funnelDeadline e.cfg launch := by
  have hclock := launchTurns_onClock ex latency e launch hwindow
  constructor
  · intro hwalls
    rcases Nat.eq_zero_or_pos
      (launchTurns (ex.watched latency) (e.startClock launch) launch).length with hnone | hsome
    · rw [hnone]
      simpa [wallAfter] using hwindow
    · obtain ⟨turn, hmem, hlast⟩ :=
        (exists_turn_iff ex latency e launch _).mpr (Nat.sub_lt hsome one_pos)
      rw [← hlast, ← (hclock turn hmem).wall]
      exact hwalls turn hmem
  · intro hlast turn hmem
    have hidx := (exists_turn_iff ex latency e launch turn.idx).mp ⟨turn, hmem, rfl⟩
    rw [(hclock turn hmem).wall]
    exact le_trans (wallAfter_mono latency launch (by omega)) hlast

variable (ex latency e launch)

/-- **When the funnel window is kept.**  For a launch that is let in, the promise
is kept exactly if the window was over before it began, or the orders before the
last slice that gets its turn take together no longer than the window: neither
the engine nor the executor looks at the time that passes. -/
theorem onTime_iff :
    e.OnTime ex latency launch ↔
      (e.Admitted launch → funnelDeadline e.cfg launch < launch.createdAt ∨
        wallAfter latency launch
            ((launchTurns (ex.watched latency) (e.startClock launch) launch).length - 1) ≤
          funnelDeadline e.cfg launch) := by
  constructor
  · intro htime hadmitted
    rcases lt_or_ge (funnelDeadline e.cfg launch) launch.createdAt with hlate | hwindow
    · exact Or.inl hlate
    · exact Or.inr ((walls_iff hwindow).mp (htime.walls hadmitted hwindow))
  · intro hbound
    by_cases hadmitted : e.Admitted launch
    · rcases lt_or_ge (funnelDeadline e.cfg launch) launch.createdAt with hlate | hwindow
      · exact OnTime.of_late hadmitted hlate
      · have hlast := (hbound hadmitted).resolve_left (not_lt.mpr hwindow)
        exact OnTime.of_walls hadmitted hwindow ((walls_iff hwindow).mpr hlast)
    · exact OnTime.of_refused hadmitted

end Launch

/-- Three slices of ten seconds each in a window of five: the second and the
third are let through long after the deadline. -/
theorem slow_orders_overrun :
    ¬ OnTime Executor.oneToken (fun _ => 10000000000)
      (Engine.new Config.paperDefaults ((), ⟨0, []⟩) (.opened fun _ => true) 0)
      (freshLaunch "A" 0 1) := by
  intro h
  exact absurd h.submitted (by decide +kernel)

end Engine

end HfmcBot
