import HfmcBot.Engine.Orders

/-!
# Orders after an unknown one

`ExecError::Transport` leaves an order in an unknown state.  The engine has no
step that would settle it, so the contract of the error asks for no further
order of that mint.  The engine looks at the error only to page the operator;
whether it sends another order is decided by the checks of `on_launch`, the exit
rules and the clock alone.

* `onLaunch_log`, `onPriceUpdate_log`, `sweep_log`: what each of the three places
  that send orders adds to the history;
* `deliver_noResubmission_iff`: when one event resubmits nothing;
* `no_resubmission_iff`: a run resubmits nothing exactly when all its events are
  such;
* `sweep_resubmits_tick_exit`: a run in which the sweep sends the sell of the
  tick again.
-/

namespace HfmcBot

open Foundation

/-- Some order for this mint ended in an unknown state. -/
def Unsettled (log : List Sent) (mint : Mint) : Prop :=
  ∃ s ∈ log, s.unknown = true ∧ s.order.mint = mint

/-- No order follows an unknown one for the same mint. -/
def NoResubmission (log : List Sent) : Prop :=
  log.Pairwise fun s s' => s.unknown = true → s'.order.mint ≠ s.order.mint

instance (log : List Sent) : Decidable (NoResubmission log) := by
  unfold NoResubmission
  infer_instance

/-- Adding orders that are harmless among themselves: each must be for a mint
without an unknown order. -/
theorem noResubmission_append {log new : List Sent} (hnew : NoResubmission new) :
    NoResubmission (log ++ new) ↔
      NoResubmission log ∧ ∀ s ∈ new, ¬ Unsettled log s.order.mint := by
  unfold NoResubmission
  rw [List.pairwise_append]
  constructor
  · rintro ⟨hlog, -, hcross⟩
    refine ⟨hlog, fun s hs => ?_⟩
    rintro ⟨old, hold, hunknown, hmint⟩
    exact hcross old hold s hs hunknown hmint.symm
  · rintro ⟨hlog, hcross⟩
    refine ⟨hlog, hnew, fun old hold s hs hunknown hmint => ?_⟩
    exact hcross s hs ⟨old, hold, hunknown, hmint.symm⟩

namespace Engine

variable {σ : Type}

/-! ## The funnel -/

/-- A turn of the funnel loop sends at most one order, and goes on only after a
fill. -/
theorem funnelSlice_log (ex : Executor σ) (e : Engine (σ × List Sent)) (launch : Launch)
    (deadline : DateTime) (idx total : Nat) (slice : Decimal) :
    ∃ new, (e.funnelSlice ex.recorded launch deadline idx total slice).1.sent = e.sent ++ new ∧
      (∀ s ∈ new, s.order.mint = launch.mint) ∧ NoResubmission new ∧
      ((e.funnelSlice ex.recorded launch deadline idx total slice).2 = true →
        ∀ s ∈ new, s.unknown = false) := by
  rcases funnelSlice_cases ex.recorded e launch deadline idx total slice with
    ⟨-, hturn⟩ | ⟨-, -, block, hturn⟩ | ⟨-, -, hturn⟩
  · rw [hturn]
    exact ⟨[], (List.append_nil _).symm, by simp, List.Pairwise.nil, by simp⟩
  · rw [hturn]
    exact ⟨[], (List.append_nil _).symm, by simp, List.Pairwise.nil, by simp⟩
  · rw [hturn]
    refine ⟨_, sendSlice_sent ex _ launch deadline slice, ?_, List.pairwise_singleton _ _,
      fun hcontinues => ?_⟩
    · intro s hs
      rw [List.mem_singleton.mp hs]
      rfl
    · intro s hs
      rw [List.mem_singleton.mp hs]
      rcases sendSlice_cases ex.recorded (e.withRisk
          ((e.risk.refresh launch.createdAt).pushOrder launch.createdAt)) launch deadline slice
        with ⟨err, st, -, -, hstop⟩ | ⟨fill, st, hbuy, -, -⟩
      · exact absurd (hstop.symm.trans hcontinues) Bool.false_ne_true
      · rw [hbuy]
        rfl

/-- The orders of a funnel: all of them for its mint, and only the last one can
be unknown. -/
theorem funnel_log (ex : Executor σ) (launch : Launch) (deadline : DateTime) (total : Nat)
    (slices : List Decimal) (idx : Nat) (e : Engine (σ × List Sent)) :
    ∃ new, (funnel ex.recorded launch deadline total idx slices e).sent = e.sent ++ new ∧
      (∀ s ∈ new, s.order.mint = launch.mint) ∧ NoResubmission new := by
  induction slices generalizing idx e with
  | nil => exact ⟨[], (List.append_nil _).symm, by simp, List.Pairwise.nil⟩
  | cons slice rest ih =>
      obtain ⟨new, hsent, hmint, hnew, hfilled⟩ :=
        funnelSlice_log ex e launch deadline idx total slice
      unfold funnel
      dsimp only
      split
      · rename_i hcontinues
        obtain ⟨later, hlater, hmint', hlog⟩ := ih (idx + 1)
          (e.funnelSlice ex.recorded launch deadline idx total slice).1
        refine ⟨new ++ later, ?_, ?_, ?_⟩
        · rw [hlater, hsent, List.append_assoc]
        · intro s hs
          exact (List.mem_append.mp hs).elim (hmint s) (hmint' s)
        · refine (noResubmission_append hlog).mpr ⟨hnew, ?_⟩
          rintro s - ⟨old, hold, hunknown, -⟩
          rw [hfilled hcontinues old hold] at hunknown
          exact absurd hunknown Bool.false_ne_true
      · exact ⟨new, hsent, hmint, hnew⟩

/-- After the window nothing is sent. -/
theorem funnel_expired (ex : Executor σ) (launch : Launch) {deadline : DateTime} (total : Nat)
    (slices : List Decimal) (idx : Nat) (e : Engine (σ × List Sent))
    (h : deadline < launch.createdAt) :
    (funnel ex.recorded launch deadline total idx slices e).sent = e.sent := by
  cases slices with
  | nil => rfl
  | cons slice rest =>
      have hslice : e.funnelSlice ex.recorded launch deadline idx total slice =
          (e.auditDecision launch.createdAt launch.mint "funnel_window_expired"
            ["slice ", .int (idx + 1), "/", .int total, " not sent"], false) := if_pos h
      unfold funnel
      rw [hslice]
      rfl

/-! ## A launch -/

/-- Every check between a launch and its first order passes. -/
structure LetIn (e : Engine σ) (launch : Launch) : Prop where
  unheld : launch.mint ∉ e.positions
  gate : entryGate launch launch.createdAt e.cfg = .ok ()
  entry : (e.risk.refresh launch.createdAt).EntryOk
  budget : 0 < positionBudget e.cfg e.equity e.deployedUsd
  slices : 1 ≤ e.cfg.funnelSlices
  window : launch.createdAt ≤ funnelDeadline e.cfg launch

theorem LetIn.admitted {e : Engine σ} {launch : Launch} (h : e.LetIn launch) :
    e.Admitted launch := ⟨h.unheld, h.gate, h.entry, h.budget⟩

/-- A launch that fails one of the checks sends nothing. -/
theorem onLaunch_refused (ex : Executor σ) {e : Engine (σ × List Sent)} {launch : Launch}
    (h : ¬ e.LetIn launch) : (e.onLaunch ex.recorded launch).sent = e.sent := by
  by_cases hadmitted : e.Admitted launch
  · rw [onLaunch_admitted _ hadmitted]
    by_cases hwindow : launch.createdAt ≤ funnelDeadline e.cfg launch
    · -- only the slice count is left, and without a slice there is no order
      have hslices : e.cfg.funnelSlices = 0 := by
        by_contra hne
        exact h ⟨hadmitted.unheld, hadmitted.gate, hadmitted.entry, hadmitted.budget,
          Nat.pos_of_ne_zero hne, hwindow⟩
      have hnone : e.slices = [] := if_pos hslices
      rw [hnone]
      rfl
    · exact funnel_expired ex launch _ _ _ _ (not_le.mp hwindow)
  · exact congrArg Prod.snd (onLaunch_refused_fields ex.recorded hadmitted).1

/-- The orders of a launch: for its mint, in a funnel, if it is let in. -/
theorem onLaunch_log (ex : Executor σ) (e : Engine (σ × List Sent)) (launch : Launch) :
    ∃ new, (e.onLaunch ex.recorded launch).sent = e.sent ++ new ∧
      (∀ s ∈ new, s.order.mint = launch.mint) ∧ NoResubmission new ∧
        (new ≠ [] ↔ e.LetIn launch) := by
  by_cases hlet : e.LetIn launch
  · obtain ⟨s, later, -, -, hsends⟩ := onLaunch_sends ex e launch hlet.unheld hlet.gate hlet.entry
      hlet.budget hlet.slices hlet.window
    have hfunnel : ∃ new, (e.onLaunch ex.recorded launch).sent = e.sent ++ new ∧
        (∀ s ∈ new, s.order.mint = launch.mint) ∧ NoResubmission new := by
      rw [onLaunch_admitted _ hlet.admitted]
      exact funnel_log ex launch _ _ _ _ _
    obtain ⟨new, hsent, hmint, hlog⟩ := hfunnel
    refine ⟨new, hsent, hmint, hlog, fun _ => hlet, fun _ hnil => ?_⟩
    rw [hsent, hnil] at hsends
    exact absurd (List.append_cancel_left hsends) (by simp)
  · refine ⟨[], ?_, by simp, List.Pairwise.nil, fun hne => absurd rfl hne, fun h => absurd h hlet⟩
    rw [onLaunch_refused ex hlet, List.append_nil]

/-! ## A tick -/

/-- The tick is of a held token, and an exit rule fires on it. -/
def TickExits (e : Engine σ) (p : PriceUpdate) : Prop :=
  ∃ pos d, e.positions.lookup p.mint = some pos ∧ (tickPosition e.cfg p pos).2 = some d

/-- The orders of a tick: one sell of its mint, if an exit rule fires. -/
theorem onPriceUpdate_log (ex : Executor σ) {e : Engine (σ × List Sent)} (hkeyed : e.Keyed)
    (p : PriceUpdate) :
    ∃ new, (e.onPriceUpdate ex.recorded p).sent = e.sent ++ new ∧
      (∀ s ∈ new, s.order.mint = p.mint) ∧ NoResubmission new ∧ (new ≠ [] ↔ e.TickExits p) := by
  cases hpos : e.positions.lookup p.mint with
  | none =>
      refine ⟨[], ?_, by simp, List.Pairwise.nil, fun hne => absurd rfl hne, ?_⟩
      · rw [onPriceUpdate_unheld hpos, List.append_nil]
      · rintro ⟨pos, d, hheld, -⟩
        rw [hpos] at hheld
        exact absurd hheld (by simp)
  | some pos =>
      cases hexit : (tickPosition e.cfg p pos).2 with
      | none =>
          refine ⟨[], ?_, by simp, List.Pairwise.nil, fun hne => absurd rfl hne, ?_⟩
          · rw [onPriceUpdate_stay hpos hexit, List.append_nil]
            rfl
          · rintro ⟨pos', d, hheld, hfires⟩
            rw [hpos] at hheld
            obtain rfl := Option.some.inj hheld
            rw [hexit] at hfires
            exact absurd hfires (by simp)
      | some d =>
          rw [onPriceUpdate_exit hpos hexit]
          refine ⟨_, closePosition_sent ex (e.ticked p pos) _ p.ts, fun s hs => ?_,
            List.pairwise_singleton _ _, fun _ => ⟨pos, d, hpos, hexit⟩, fun _ => by simp⟩
          rw [List.mem_singleton.mp hs]
          exact tickPosition_keyed hkeyed hpos

/-- The event's own handler sends an order. -/
def HandlerSends (e : Engine σ) : Event → Prop
  | .launch l => e.LetIn l
  | .price p => e.TickExits p

theorem handle_log (ex : Executor σ) {e : Engine (σ × List Sent)} (hkeyed : e.Keyed)
    (ev : Event) :
    ∃ new, (e.handle ex.recorded ev).sent = e.sent ++ new ∧
      (∀ s ∈ new, s.order.mint = ev.mint) ∧ NoResubmission new ∧
        (new ≠ [] ↔ e.HandlerSends ev) := by
  cases ev with
  | launch l => exact onLaunch_log ex e l
  | price p => exact onPriceUpdate_log ex hkeyed p

/-! ## The sweep -/

/-- The sweep finds a position of this mint that is not stuck and whose clock has
run out. -/
def SweepSells (e : Engine σ) (now : DateTime) (mint : Mint) : Prop :=
  ∃ pos x, e.positions.lookup mint = some pos ∧ timeStopExit e.cfg now pos = some x

theorem closeAll_log (ex : Executor σ) (now : DateTime) (exits : List ExitArgs)
    (e : Engine (σ × List Sent)) :
    ∃ new, (exits.foldl (fun e x => e.closePosition ex.recorded x now) e).sent = e.sent ++ new ∧
      new.map (fun s => s.order.mint) = exits.map ExitArgs.mint := by
  induction exits generalizing e with
  | nil => exact ⟨[], (List.append_nil _).symm, rfl⟩
  | cons x rest ih =>
      obtain ⟨new, hsent, hmints⟩ := ih (e.closePosition ex.recorded x now)
      rw [closePosition_sent, List.append_assoc] at hsent
      refine ⟨_, hsent, ?_⟩
      rw [List.singleton_append, List.map_cons, List.map_cons, hmints]
      rfl

/-- The orders of the sweep: one sell for every mint that is due. -/
theorem sweep_log (ex : Executor σ) (o : KeyOrder Mint) {e : Engine (σ × List Sent)}
    (hkeyed : e.Keyed) (now : DateTime) :
    ∃ new, (e.sweepTimeStops ex.recorded o now).sent = e.sent ++ new ∧ NoResubmission new ∧
      ∀ mint, (∃ s ∈ new, s.order.mint = mint) ↔ e.SweepSells now mint := by
  obtain ⟨new, hsent, hmints⟩ := closeAll_log ex now
    ((e.positions.valuesIn o).filterMap (timeStopExit e.cfg now)) e
  obtain ⟨hnodup, hdue⟩ := dueExits_collect hkeyed o now
  refine ⟨new, hsent, ?_, fun mint => ?_⟩
  · rw [← hmints] at hnodup
    exact (List.pairwise_map.mp hnodup).imp fun hne _ => hne.symm
  · rw [← List.mem_map (f := fun s : Sent => s.order.mint), hmints, List.mem_map]
    constructor
    · rintro ⟨x, hx, rfl⟩
      obtain ⟨pos, hpos, -, hexit⟩ := hdue x hx
      exact ⟨pos, x, hpos, hexit⟩
    · rintro ⟨pos, x, hpos, hexit⟩
      refine ⟨x, List.mem_filterMap.mpr ⟨pos, ?_, hexit⟩, ?_⟩
      · exact FiniteMap.mem_valuesIn.mpr ⟨mint, hpos⟩
      · exact (timeStopExit_mint hexit).trans (hkeyed _ _ hpos)

/-! ## Events and runs -/

/-- An event leaves unknown orders alone: its handler sends nothing if an order
of its mint is unknown, and no mint with an unknown order is due when the sweep
starts. -/
structure Settled (ex : Executor σ) (e : Engine (σ × List Sent)) (d : Delivery) : Prop where
  handler : Unsettled e.sent d.ev.mint → ¬ e.HandlerSends d.ev
  sweep : ∀ mint, Unsettled (e.handle ex.recorded d.ev).sent mint →
    ¬ (e.handle ex.recorded d.ev).SweepSells d.ts mint

theorem deliver_noResubmission_iff (ex : Executor σ) {e : Engine (σ × List Sent)}
    (hkeyed : e.Keyed) (d : Delivery) :
    NoResubmission (e.deliver ex.recorded d).sent ↔
      NoResubmission e.sent ∧ Settled ex e d := by
  obtain ⟨handled, hsent, hmint, hlog, hsends⟩ := handle_log ex hkeyed d.ev
  obtain ⟨swept, hsent', hlog', hdue⟩ := sweep_log ex d.order
    ((handle_steps ex.recorded e d.ev).keyed hkeyed) d.ts
  have hdeliver : (e.deliver ex.recorded d).sent = (e.handle ex.recorded d.ev).sent ++ swept :=
    (sent_of_trading (trading_onEvent ex.recorded d.order e d.ev)).trans hsent'
  rw [hdeliver, noResubmission_append hlog', hsent, noResubmission_append hlog, and_assoc,
    ← hsent]
  refine and_congr_right fun _ => ⟨?_, ?_⟩
  · rintro ⟨hhandled, hswept⟩
    refine ⟨fun hunsettled hhandler => ?_, fun mint hunsettled hsells => ?_⟩
    · obtain ⟨s, hs⟩ := List.exists_mem_of_ne_nil _ (hsends.mpr hhandler)
      exact hhandled s hs (hmint s hs ▸ hunsettled)
    · obtain ⟨s, hs, rfl⟩ := (hdue mint).mpr hsells
      exact hswept s hs hunsettled
  · rintro ⟨hhandler, hsweep⟩
    refine ⟨fun s hs hunsettled => ?_, fun s hs hunsettled => ?_⟩
    · rw [hmint s hs] at hunsettled
      exact hhandler hunsettled (hsends.mp (List.ne_nil_of_mem hs))
    · exact hsweep _ hunsettled ((hdue _).mp ⟨s, hs, rfl⟩)

/-- **When a run resubmits nothing.**  No order of a run follows an unknown one
for the same mint, if and only if every event of the run leaves unknown orders
alone. -/
theorem no_resubmission_iff (cfg : Config) (ex : Executor σ) (st : σ) (audit : AuditLog)
    (today : Int) (ds : List Delivery) :
    NoResubmission (run ex.recorded (Engine.new cfg (st, []) audit today) ds).sent ↔
      Along (deliver ex.recorded) (Settled ex) (Engine.new cfg (st, []) audit today) ds := by
  induction ds using List.reverseRecOn with
  | nil => exact ⟨fun _ => trivial, fun _ => List.Pairwise.nil⟩
  | append_singleton ds d ih =>
      have hkeyed := (keyed_new cfg (st, ([] : List Sent)) audit today).run ex.recorded ds
      rw [run_concat, deliver_noResubmission_iff ex hkeyed, along_concat, ih]
      exact Iff.rfl

/-! ## The sweep sends a sell again -/

end Engine

/-- Buys as before, and every sell is lost on the way: nobody knows whether it
filled. -/
def Executor.lostSells : Executor Unit where
  buy := Executor.oneToken.buy
  sell _ st := (.error (.transport ["bundle status never resolved"]), st)

namespace Engine

/-- A launch, and one tick that is below the stop loss after the holding time has
run out: the sell of the tick is unknown, and the sweep of the same event sends
a second one. -/
theorem sweep_resubmits_tick_exit :
    Config.paperDefaults.Accepted ∧
      ¬ NoResubmission (run Executor.lostSells.recorded
        (Engine.new Config.paperDefaults ((), []) (.opened fun _ => true) 0)
        [launchAt "A" 0 1, priceAt "A" 30000 (1 / 2)]).sent :=
  ⟨⟨fun _ => true, by decide +kernel⟩, by decide +kernel⟩

end Engine

end HfmcBot
