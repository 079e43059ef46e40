import HfmcBot.Alerter
import HfmcBot.Engine.Resubmission
import HfmcBot.Engine.StuckExits

/-!
# Critical alerts

The engine calls `fire` for every order whose state is unknown and for every position
that becomes stuck, each time with the mint in front.  The rate limit of the alerter
does not look at the mint.

* `Paging`: the calls of the engine are those orders and positions; `alerted_run`;
* `critical_alerts_logged_iff`: each of them has a log line exactly if no two of a kind
  come within one rate window.
-/

namespace HfmcBot

open Foundation

/-- The alerts about money whose whereabouts are unknown. -/
def AlertKind.critical : AlertKind → Bool
  | .positionStuck => true
  | .transportUnknown => true
  | _ => false

/-- The text begins with the mint. -/
def AlertCall.names (mint : Mint) (c : AlertCall) : Bool :=
  decide (c.detail.head? = some (.str mint))

/-- How many calls of a kind name the mint. -/
def pages (kind : AlertKind) (mint : Mint) (calls : List AlertCall) : Nat :=
  ((calls.filter fun c => c.kind = kind).filter (AlertCall.names mint)).length

/-- How many orders of the mint ended in an unknown state. -/
def unknownOrders (sent : List Sent) (mint : Mint) : Nat :=
  (sent.filter fun s => s.unknown && decide (s.order.mint = mint)).length

theorem pages_append (kind : AlertKind) (mint : Mint) (calls new : List AlertCall) :
    pages kind mint (calls ++ new) = pages kind mint calls + pages kind mint new := by
  simp [pages]

theorem unknownOrders_append (sent new : List Sent) (mint : Mint) :
    unknownOrders (sent ++ new) mint = unknownOrders sent mint + unknownOrders new mint := by
  simp [unknownOrders]

theorem pages_singleton (kind : AlertKind) (mint : Mint) (c : AlertCall) :
    pages kind mint [c] = if c.kind = kind ∧ c.names mint = true then 1 else 0 := by
  unfold pages
  by_cases hkind : c.kind = kind
  · cases hnames : c.names mint <;> simp [hkind, hnames]
  · simp [hkind]

theorem unknownOrders_singleton (s : Sent) (mint : Mint) :
    unknownOrders [s] mint = if s.unknown = true ∧ s.order.mint = mint then 1 else 0 := by
  unfold unknownOrders
  cases hunknown : s.unknown
  · simp [hunknown]
  · by_cases hmint : s.order.mint = mint <;> simp [hunknown, hmint]

theorem names_iff {kind : AlertKind} {mint m : Mint} {rest : Text} :
    AlertCall.names mint ⟨kind, .str m :: rest⟩ = true ↔ m = mint := by
  simp [AlertCall.names]

namespace Engine

variable {σ : Type}

/-- The calls of the engine are one for each unknown order, and so many for stuck
positions; each critical one names a mint. -/
def Paging (stuck : Mint → Nat) (e : Engine (σ × List Sent)) : Prop :=
  ∃ calls, e.alerter = some calls ∧
    (∀ c ∈ calls, c.kind.critical = true → ∃ mint, c.names mint = true) ∧
    ∀ mint, pages .transportUnknown mint calls = unknownOrders e.sent mint ∧
      pages .positionStuck mint calls = stuck mint

theorem Paging.append {stuck stuck' : Mint → Nat} {e e' : Engine (σ × List Sent)}
    (h : Paging stuck e) {new : List AlertCall} {orders : List Sent}
    (halerter : e'.alerter = e.alerter.map (· ++ new)) (hsent : e'.sent = e.sent ++ orders)
    (hnamed : ∀ c ∈ new, c.kind.critical = true → ∃ mint, c.names mint = true)
    (hunknown : ∀ mint, pages .transportUnknown mint new = unknownOrders orders mint)
    (hstuck : ∀ mint, stuck' mint = stuck mint + pages .positionStuck mint new) :
    Paging stuck' e' := by
  obtain ⟨calls, hcalls, hall, hcounts⟩ := h
  refine ⟨calls ++ new, ?_, fun c hc => ?_, fun mint => ?_⟩
  · rw [halerter, hcalls]
    rfl
  · exact (List.mem_append.mp hc).elim (hall c) (hnamed c)
  · rw [pages_append, pages_append, hsent, unknownOrders_append, hunknown mint, hstuck mint,
      (hcounts mint).1, (hcounts mint).2]
    exact ⟨rfl, rfl⟩

section Calls

variable {stuck : Mint → Nat} {ex : Executor σ} {e : Engine (σ × List Sent)}

/-- A slice pages if its buy is unknown. -/
theorem pages_sliceCalls (req : BuyRequest) (answer : Answer) (mint : Mint) :
    pages .transportUnknown mint (sliceCalls req.mint req.orderId answer) =
      unknownOrders [⟨.buy req, answer⟩] mint := by
  rw [unknownOrders_singleton]
  unfold Sent.unknown sliceCalls
  cases answer with
  | ok fill => simp [pages]
  | error err =>
      dsimp only
      by_cases htransport : err.isTransport = true
      · rw [if_pos htransport, pages_singleton]
        simp [names_iff, buyCall, Order.mint, htransport]
      · rw [if_neg htransport, if_neg fun hand => htransport hand.1]
        rfl

theorem Paging.sendSlice (h : Paging stuck e) (ex : Executor σ) (launch : Launch)
    (deadline : DateTime) (slice : Decimal) :
    Paging stuck (e.sendSlice ex.recorded launch deadline slice).1 := by
  refine h.append (sendSlice_alerter ex.recorded e launch deadline slice)
    (sendSlice_sent ex e launch deadline slice) ?_
    (pages_sliceCalls (sliceRequest launch deadline slice (e.nextOrderId launch.mint).1) _)
    (fun mint => ?_)
  · intro c hc _
    obtain ⟨err, rfl⟩ := mem_sliceCalls hc
    exact ⟨launch.mint, names_iff.mpr rfl⟩
  · unfold sliceCalls
    split
    · split <;> simp [pages, buyCall]
    · simp [pages]

/-- An exit pages if its sell is unknown. -/
theorem pages_calls_unknown (ex : Executor σ) (now : DateTime) (turn : ExitTurn (σ × List Sent))
    (mint : Mint) :
    pages .transportUnknown mint (turn.calls ex.recorded now) =
      unknownOrders [orderOf ex now turn] mint := by
  have hmint : (orderOf ex now turn).order.mint = turn.args.mint := rfl
  rw [unknownOrders_singleton, hmint]
  unfold ExitTurn.calls orderOf
  cases hanswer : turn.answer ex.recorded now with
  | ok fill => simp [pages, Sent.unknown]
  | error err =>
      dsimp only
      rw [pages_append]
      have hother : pages .transportUnknown mint
          (if turn.becomesStuck then [turn.stuckCall] else []) = 0 := by
        split <;> simp [pages, ExitTurn.stuckCall]
      rw [hother, zero_add]
      cases htransport : err.isTransport with
      | true =>
          rw [if_pos rfl, pages_singleton]
          simp [names_iff, Sent.unknown, htransport, ExitTurn.unknownCall]
      | false => simp [pages, Sent.unknown, htransport]

/-- And if it makes the position stuck. -/
theorem pages_calls_stuck (ex : Executor σ) (now : DateTime) (turn : ExitTurn σ) (mint : Mint) :
    pages .positionStuck mint (turn.calls ex now) =
      if turn.args.mint = mint ∧ turn.makesStuck ex now = true then 1 else 0 := by
  unfold ExitTurn.calls ExitTurn.makesStuck
  cases hanswer : turn.answer ex now with
  | ok fill => simp [pages]
  | error err =>
      dsimp only
      rw [pages_append]
      have hother : pages .positionStuck mint
          (if err.isTransport then [turn.unknownCall err] else []) = 0 := by
        split <;> simp [pages, ExitTurn.unknownCall]
      rw [hother, add_zero]
      cases hstuck : turn.becomesStuck with
      | true =>
          rw [if_pos rfl, pages_singleton]
          simp [names_iff, ExitTurn.stuckCall]
      | false => simp [pages]

theorem Paging.closePosition (h : Paging stuck e) (ex : Executor σ) (x : ExitArgs)
    (now : DateTime) :
    Paging (fun mint => stuck mint +
        if x.mint = mint ∧ ExitTurn.makesStuck ex.recorded now ⟨e, x⟩ = true then 1 else 0)
      (e.closePosition ex.recorded x now) := by
  refine h.append (closePosition_alerter ex.recorded x now) (closePosition_sent ex e x now) ?_
    (pages_calls_unknown ex now ⟨e, x⟩) (fun mint => ?_)
  · intro c hc _
    refine ⟨x.mint, ?_⟩
    rcases ExitTurn.mem_calls ex.recorded now ⟨e, x⟩ hc with rfl | ⟨err, rfl⟩
    · exact names_iff.mpr rfl
    · exact names_iff.mpr rfl
  · rw [pages_calls_stuck]

theorem Paging.onLaunch (h : Paging stuck e) (ex : Executor σ) (launch : Launch) :
    Paging stuck (e.onLaunch ex.recorded launch) :=
  onLaunch_preserves (P := Paging stuck) (fun _ h => h) (fun _ h => h) (fun _ _ _ _ h => h)
    (fun _ deadline slice h => h.sendSlice ex launch deadline slice) h

end Calls

/-! ## Runs -/

/-- Count and flag agree with the history, and the calls with both. -/
structure Alerted (cfg : Config) (e : Engine (σ × List Sent)) : Prop where
  counted : Counted cfg e
  paging : Paging (stuckLives cfg.maxExitAttempts.toNat e.sent) e

section Runs

variable {cfg : Config} {ex : Executor σ} {e : Engine (σ × List Sent)}

theorem Alerted.closePosition (hlimit : 1 ≤ cfg.maxExitAttempts.toNat) (h : Alerted cfg e)
    (ev : Event) {pos : Position} (hpos : e.positions.lookup pos.mint = some pos)
    (refPrice liquidityUsd : Decimal) (reason : String) :
    Alerted cfg
      (e.closePosition ex.recorded (pos.exitArgs refPrice liquidityUsd reason) ev.ts) := by
  refine ⟨h.counted.closePosition ev hpos _ _ _, ?_⟩
  have hpaging := h.paging.closePosition ex (pos.exitArgs refPrice liquidityUsd reason) ev.ts
  have hlives : stuckLives cfg.maxExitAttempts.toNat (e.closePosition ex.recorded
      (pos.exitArgs refPrice liquidityUsd reason) ev.ts).sent = _ :=
    funext (h.counted.stuckLives_closePosition hlimit rfl hpos ev.ts)
  rw [hlives]
  exact hpaging

theorem Alerted.onLaunch (hlimit : 1 ≤ cfg.maxExitAttempts.toNat) (h : Alerted cfg e)
    (ex : Executor σ) (launch : Launch) : Alerted cfg (e.onLaunch ex.recorded launch) := by
  obtain ⟨hcounted, hlives⟩ := h.counted.onLaunch hlimit ex launch
  refine ⟨hcounted, ?_⟩
  rw [funext hlives]
  exact h.paging.onLaunch ex launch

/-- The page of the breaker is not critical. -/
theorem Paging.breakerPage {stuck : Mint → Nat} (h : Paging stuck e) (detail : Text) :
    Paging stuck (e.alert .dailyLossTrip detail) := by
  have hpage : (e.alert .dailyLossTrip detail).alerter =
      e.alerter.map (· ++ [⟨.dailyLossTrip, detail⟩]) := rfl
  refine h.append hpage (List.append_nil _).symm ?_ ?_ ?_
  · intro c hc hcritical
    obtain rfl := List.mem_singleton.mp hc
    exact absurd hcritical (by simp [AlertKind.critical])
  · intro mint
    simp [pages, unknownOrders]
  · intro mint
    simp [pages]

/-- The calls agree with the history throughout a run. -/
theorem alerted_run (hlimit : 1 ≤ cfg.maxExitAttempts.toNat) (ex : Executor σ) (st : σ)
    (audit : AuditLog) (today : Int) (ds : List Delivery) :
    Alerted cfg (run ex.recorded (Engine.new cfg (st, []) audit today).withAlerter ds) := by
  refine run_invariant (P := Alerted cfg) (fun e d he => ?_) ?_ ds
  · exact deliver_preserves (P := Alerted cfg) (fun _ launch _ h => h.onLaunch hlimit ex launch)
      (fun _ _ _ hpos h => ⟨h.counted.ticked ex hpos, h.paging⟩)
      (fun _ _ _ _ _ hpos h => h.closePosition hlimit d.ev hpos _ _ _)
      (fun _ detail h => ⟨{ h.counted with }, h.paging.breakerPage detail⟩) he.counted.keyed he
  · refine ⟨{ counted_new cfg st audit today with }, [], rfl, by simp, fun mint => ⟨rfl, rfl⟩⟩

end Runs

end Engine

/-! ## What is logged -/

/-- Where every call names a mint, what goes through is everything exactly if no mint
has lost a line. -/
theorem eq_of_counts {lines calls : List AlertCall} (hsub : lines.Sublist calls)
    (hnamed : ∀ c ∈ calls, ∃ mint, c.names mint = true)
    (hcounts : ∀ mint, (lines.filter (AlertCall.names mint)).length =
      (calls.filter (AlertCall.names mint)).length) : lines = calls := by
  have hsame : ∀ mint, lines.filter (AlertCall.names mint) = calls.filter (AlertCall.names mint) :=
    fun mint => (hsub.filter _).eq_of_length (hcounts mint)
  have hperm : lines.Perm calls := by
    rw [List.perm_iff_count]
    intro c
    by_cases hc : c ∈ calls
    · obtain ⟨mint, hmint⟩ := hnamed c hc
      rw [← List.count_filter hmint, hsame mint, List.count_filter hmint]
    · rw [List.count_eq_zero_of_not_mem hc, List.count_eq_zero_of_not_mem fun h => hc (hsub.subset h)]
  exact hsub.eq_of_length hperm.length_eq

namespace Engine

variable {σ : Type}

/-- The calls of `fire` on an armed alerter: those of the engine, and whatever others
fire that is not critical. -/
def FiredBy (e : Engine σ) (fired : List Fired) : Prop :=
  ∃ calls, e.alerter = some calls ∧
    ((fired.map Fired.call).filter fun c => c.kind.critical) =
      calls.filter fun c => c.kind.critical

/-- Each unknown order and each position that became stuck has a log line of its own
that names its mint. -/
def NothingLost (cfg : Config) (e : Engine (σ × List Sent)) (lines : List AlertCall) : Prop :=
  ∀ mint, pages .transportUnknown mint lines = unknownOrders e.sent mint ∧
    pages .positionStuck mint lines = stuckLives cfg.maxExitAttempts.toNat e.sent mint

/-- The critical calls of a kind on the alerter are the engine's. -/
theorem ofKind_of_fired {calls : List AlertCall} {fired : List Fired}
    (h : ((fired.map Fired.call).filter fun c => c.kind.critical) =
      calls.filter fun c => c.kind.critical) {kind : AlertKind} (hkind : kind.critical = true) :
    (Alerter.ofKind kind fired).map Fired.call = calls.filter fun c => c.kind = kind := by
  have hcritical : ∀ cs : List AlertCall,
      ((cs.filter fun c => c.kind.critical).filter fun c => c.kind = kind) =
        cs.filter fun c => c.kind = kind := by
    intro cs
    rw [List.filter_filter]
    refine List.filter_congr fun c _ => ?_
    by_cases hc : c.kind = kind <;> simp [hc, hkind]
  rw [← hcritical calls, ← h, hcritical, List.filter_map]
  rfl

theorem later_ofKind {fired : List Fired} (htime : InTimeOrder Fired.time fired)
    (kind : AlertKind) : Later Fired.time none (Alerter.ofKind kind fired) := by
  refine ⟨by simp, ?_⟩
  exact (List.pairwise_map.mp htime).sublist List.filter_sublist

/-- A kind loses no line exactly if its calls are spaced. -/
theorem letThrough_counts_iff {fired : List Fired} (htime : InTimeOrder Fired.time fired)
    (a : Alerter) (hfresh : ∀ kind, a.lastSent kind = none) {kind : AlertKind}
    (hnamed : ∀ f ∈ Alerter.ofKind kind fired, ∃ mint, f.call.names mint = true) :
    (∀ mint, (((a.letThrough kind fired).map Fired.call).filter (AlertCall.names mint)).length =
        (((Alerter.ofKind kind fired).map Fired.call).filter (AlertCall.names mint)).length) ↔
      Spaced a.minInterval Fired.time (Alerter.ofKind kind fired) := by
  have hself : a.letThrough kind fired = Alerter.ofKind kind fired ↔
      Spaced a.minInterval Fired.time (Alerter.ofKind kind fired) := by
    unfold Alerter.letThrough
    rw [hfresh, admitted_eq_self_iff (later_ofKind htime kind)]
    simp
  rw [← hself]
  have hsub : (a.letThrough kind fired).Sublist (Alerter.ofKind kind fired) := admitted_sublist _ _
  constructor
  · intro hcounts
    have hsame := eq_of_counts (hsub.map Fired.call)
      (List.forall_mem_map.mpr hnamed) hcounts
    exact hsub.eq_of_length (by simpa using congrArg List.length hsame)
  · intro hsame mint
    rw [hsame]

/-- **When no critical alert is lost.**  Take any run with an alerter armed, any rate
window, and the calls of `fire` at instants that do not go backwards.  Then every order
that ended in an unknown state and every position that became stuck has an `ALERT` line
with its mint, and the deliveries of each kind are a window apart, if and only if no two
unknown orders and no two stuck positions were paged within one window. -/
theorem critical_alerts_logged_iff {cfg : Config} (hcfg : cfg.Accepted) (ex : Executor σ) (st : σ)
    (audit : AuditLog) (today : Int) (ds : List Delivery) (webhook : Bool)
    (minIntervalSecs : UInt64) (fired : List Fired)
    (hfired : FiredBy (run ex.recorded (Engine.new cfg (st, []) audit today).withAlerter ds) fired)
    (htime : InTimeOrder Fired.time fired) :
    let e := run ex.recorded (Engine.new cfg (st, []) audit today).withAlerter ds
    let a := (Alerter.new webhook minIntervalSecs).fireAll fired
    (NothingLost cfg e a.lines ∧ ∀ kind,
        Spaced (durationSecs minIntervalSecs) Fired.time (Alerter.ofKind kind a.queued)) ↔
      ∀ kind, kind.critical = true →
        Spaced (durationSecs minIntervalSecs) Fired.time (Alerter.ofKind kind fired) := by
  intro e a
  have hlimit : 1 ≤ cfg.maxExitAttempts.toNat := hcfg.checked.exit_attempts_pos
  obtain ⟨calls, hcalls, hsame⟩ := hfired
  obtain ⟨calls', hcalls', hnamed, hcounts⟩ := (alerted_run hlimit ex st audit today ds).paging
  obtain rfl : calls = calls' := Option.some.inj (hcalls.symm.trans hcalls')
  -- the lines and deliveries of a kind
  have hlines : ∀ kind, (a.lines.filter fun c => c.kind = kind) =
      ((Alerter.new webhook minIntervalSecs).letThrough kind fired).map Fired.call := fun kind =>
    (Alerter.fireAll_kind kind fired (Alerter.new webhook minIntervalSecs)).1
  have hqueued : ∀ kind,
      Spaced (durationSecs minIntervalSecs) Fired.time (Alerter.ofKind kind a.queued) := by
    intro kind
    have hsent : Alerter.ofKind kind a.queued = [] ++ if webhook then
        (Alerter.new webhook minIntervalSecs).letThrough kind fired else [] :=
      (Alerter.fireAll_kind kind fired (Alerter.new webhook minIntervalSecs)).2
    rw [hsent, List.nil_append]
    split
    · exact (admitted_spaced (later_ofKind htime kind)).2
    · exact List.Pairwise.nil
  have hkept : ∀ kind, kind.critical = true →
      ((∀ mint, pages kind mint a.lines = pages kind mint calls) ↔
        Spaced (durationSecs minIntervalSecs) Fired.time (Alerter.ofKind kind fired)) := by
    intro kind hkind
    have hmints : ∀ f ∈ Alerter.ofKind kind fired, ∃ mint, f.call.names mint = true := by
      intro f hf
      have hcall : f.call ∈ calls.filter fun c => c.kind = kind := by
        rw [← ofKind_of_fired hsame hkind]
        exact List.mem_map_of_mem hf
      obtain ⟨hmem, hof⟩ := List.mem_filter.mp hcall
      exact hnamed _ hmem (by rw [of_decide_eq_true hof]; exact hkind)
    have hiff := letThrough_counts_iff htime (Alerter.new webhook minIntervalSecs) (fun _ => rfl)
      hmints
    unfold pages
    rw [hlines, ← ofKind_of_fired hsame hkind]
    exact hiff
  constructor
  · rintro ⟨hlost, -⟩ kind hkind
    refine (hkept kind hkind).mp fun mint => ?_
    cases kind with
    | transportUnknown => exact (hlost mint).1.trans (hcounts mint).1.symm
    | positionStuck => exact (hlost mint).2.trans (hcounts mint).2.symm
    | killSwitch => exact absurd hkind (by decide)
    | dailyLossTrip => exact absurd hkind (by decide)
    | snapshotFailed => exact absurd hkind (by decide)
  · intro hspaced
    refine ⟨fun mint => ⟨?_, ?_⟩, hqueued⟩
    · exact ((hkept _ rfl).mpr (hspaced _ rfl) mint).trans (hcounts mint).1
    · exact ((hkept _ rfl).mpr (hspaced _ rfl) mint).trans (hcounts mint).2

/-- Two positions are stopped out ten seconds apart, and both sells are unknown. -/
def twoUnknown : Engine (Unit × List Sent) :=
  run Executor.lostSells.recorded
    (Engine.new .paperDefaults ((), []) (.opened fun _ => true) 0).withAlerter
    [launchAt "A" 0 1, launchAt "B" 1 1, priceAt "A" 60 (1 / 2), priceAt "B" 70 (1 / 2)]

/-- The calls, at these seconds of the monotonic clock. -/
def firedAt (e : Engine (Unit × List Sent)) (secs : List UInt64) : List Fired :=
  List.zipWith (fun s c => ⟨durationSecs s, c⟩) secs (e.alerter.getD [])

/-- A window apart, both are logged. -/
theorem unknown_logged_apart :
    NothingLost .paperDefaults twoUnknown
      ((Alerter.new true 300).fireAll (firedAt twoUnknown [60, 360])).lines := by
  have hfired : FiredBy twoUnknown (firedAt twoUnknown [60, 360]) :=
    ⟨twoUnknown.alerter.getD [], by decide +kernel, by decide +kernel⟩
  have htime : InTimeOrder Fired.time (firedAt twoUnknown [60, 360]) := by
    unfold InTimeOrder
    decide +kernel
  refine ((critical_alerts_logged_iff Config.paperDefaults_accepted Executor.lostSells () _ 0 _ true
    300 _ hfired htime).mpr fun kind hkind => ?_).1
  cases kind with
  | transportUnknown => decide +kernel
  | positionStuck => decide +kernel
  | killSwitch => exact absurd hkind (by decide)
  | dailyLossTrip => exact absurd hkind (by decide)
  | snapshotFailed => exact absurd hkind (by decide)

/-- Ten seconds apart, the second leaves no line. -/
theorem second_unknown_unlogged :
    FiredBy twoUnknown (firedAt twoUnknown [60, 70]) ∧
      InTimeOrder Fired.time (firedAt twoUnknown [60, 70]) ∧
      ¬ NothingLost .paperDefaults twoUnknown
        ((Alerter.new true 300).fireAll (firedAt twoUnknown [60, 70])).lines := by
  refine ⟨⟨twoUnknown.alerter.getD [], by decide +kernel, by decide +kernel⟩, ?_, fun h => ?_⟩
  · unfold InTimeOrder
    decide +kernel
  · have hlines : pages .transportUnknown "B"
        ((Alerter.new true 300).fireAll (firedAt twoUnknown [60, 70])).lines = 0 := by
      decide +kernel
    have horders : unknownOrders twoUnknown.sent "B" = 1 := by
      decide +kernel
    have hkept := (h "B").1
    rw [hlines, horders] at hkept
    exact absurd hkept (by simp)

end Engine

end HfmcBot
