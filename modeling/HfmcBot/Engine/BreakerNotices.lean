import HfmcBot.Engine.Breaker
import HfmcBot.Engine.ExitRecords

/-!
# The notices of the breaker

A close that trips the breaker is recorded in the audit log, and the event it belongs to
pages.  Both look for an edge of one flag that stands for the manual kill switch and the
breaker together, and read its old value before the lazy rollover has cleared a trip of
an earlier day.

* `Trips`: the first close that takes the day to the limit;
* `Watched`: what the exits of an event have recorded so far;
* `announced_iff`: an event announces a trip as it should unless the flag was set before
  it;
* `breaker_notices_iff`: so for every event of a run, and for every day of it.
-/

namespace HfmcBot

open Foundation

def AuditRecord.isBreaker : AuditRecord → Bool
  | .breaker _ _ => true
  | _ => false

/-- A trip of that day. -/
def AuditRecord.isBreakerOn (day : Int) : AuditRecord → Bool
  | .breaker ts _ => decide (dateNaive ts = day)
  | _ => false

theorem LaunchRecord.not_breaker (record : AuditRecord) (h : Engine.LaunchRecord record) :
    record.isBreaker = false := by
  cases record with
  | breaker => exact h.elim
  | _ => rfl

namespace Engine

variable {σ : Type}

/-- The record of a trip. -/
def tripRecord (now : DateTime) : AuditRecord := .breaker now "daily loss limit tripped"

def breakerRecords (e : Engine σ) : List AuditRecord := e.audit.lines.filter AuditRecord.isBreaker

/-- The pages of the breaker. -/
def breakerPages (e : Engine σ) : List AlertCall :=
  (e.alerter.getD []).filter fun c => c.kind = .dailyLossTrip

/-- The trades closed in between are the first to take the day to the limit. -/
def Trips (cfg : Config) (day : Int) (before after : List ClosedTrade) : Prop :=
  ¬ Crosses cfg.lossLimit 0 (dayPnls before day) ∧ Crosses cfg.lossLimit 0 (dayPnls after day)

instance (cfg : Config) (day : Int) (before after : List ClosedTrade) :
    Decidable (Trips cfg day before after) := by
  unfold Trips
  infer_instance

/-- A day that has reached the limit has reached it for good. -/
theorem crosses_grow {cfg : Config} {before : List ClosedTrade} {day : Int}
    (h : Crosses cfg.lossLimit 0 (dayPnls before day)) (new : List ClosedTrade) :
    Crosses cfg.lossLimit 0 (dayPnls (before ++ new) day) := by
  rw [dayPnls_append, crosses_append]
  exact Or.inl h

/-- Today's trades have reached the limit: the breaker is at today, and tripped. -/
theorem Breaker.tripped_today {cfg : Config} {now : DateTime} {e : Engine σ}
    (h : Breaker cfg now e) (hcross : Crosses cfg.lossLimit 0 (dayPnls e.closed (dateNaive now))) :
    e.risk.day = dateNaive now ∧ e.risk.dailyLossTripped = true := by
  have hday : e.risk.day = dateNaive now := by
    by_contra hne
    have hempty : dayPnls e.closed (dateNaive now) = [] := by
      apply h.dayPnls_of_gt
      rcases List.eq_nil_or_concat e.closed with hnil | ⟨init, trade, hlast⟩
      · exact Or.inr hnil
      · have hle := (h.past trade (by rw [hlast]; simp)).2
        left
        omega
    rw [hempty] at hcross
    exact hcross
  refine ⟨hday, h.tripped.mpr ?_⟩
  rw [h.lossLimit_eq, hday]
  exact hcross

/-! ## What an exit records -/

theorem ExitTurn_breakerRecords (ex : Executor σ) (now : DateTime) (turn : ExitTurn σ) :
    (turn.records ex now).filter AuditRecord.isBreaker =
      match turn.answer ex now with
      | .error _ => []
      | .ok fill => if turn.trips now fill then [tripRecord now] else [] := by
  unfold ExitTurn.records
  cases turn.answer ex now with
  | error err =>
      cases turn.becomesStuck <;> rfl
  | ok fill =>
      dsimp only
      cases turn.trips now fill <;> rfl

section Close

variable (ex : Executor σ) {e : Engine σ} (x : ExitArgs) (now : DateTime)

/-- An exit, as the breaker sees it: nothing is closed, or a trade of today is, and
recorded as a trip if that sets the flag. -/
theorem closePosition_breaker (h : e.Logged) :
    ((e.closePosition ex x now).closed = e.closed ∧
        (e.closePosition ex x now).risk.dailyLossTripped = e.risk.dailyLossTripped ∧
        (e.closePosition ex x now).breakerRecords = e.breakerRecords) ∨
      ∃ trade, (e.closePosition ex x now).closed = e.closed ++ [trade] ∧
        dateNaive trade.closedAt = dateNaive now ∧
        (e.closePosition ex x now).breakerRecords = e.breakerRecords ++
          if !e.risk.killSwitch && (e.closePosition ex x now).risk.killSwitch then [tripRecord now]
          else [] := by
  have hrecords : (e.closePosition ex x now).breakerRecords = e.breakerRecords ++
      (ExitTurn.records ex now ⟨e, x⟩).filter AuditRecord.isBreaker := by
    unfold breakerRecords
    rw [closePosition_lines ex x now h, List.filter_append]
  rw [ExitTurn_breakerRecords] at hrecords
  unfold ExitTurn.answer ExitTurn.request at hrecords
  dsimp only at hrecords
  rcases hsell : ex.sell (sellRequest x now (e.nextOrderId x.mint).1) e.exec with ⟨err | fill, st⟩
  · left
    rw [hsell] at hrecords
    have htrading := (trading_exitFailed
      ((e.withRisk (e.risk.pushOrder now)).submitted st) now x.mint x.mode err)
    rw [← closePosition_failed hsell] at htrading
    obtain ⟨-, hrisk, -, -, -, -, hclosed, -⟩ := fields_of_trading htrading
    exact ⟨hclosed, (congrArg RiskEngine.dailyLossTripped hrisk).trans rfl,
      hrecords.trans (List.append_nil _)⟩
  · right
    rw [hsell] at hrecords
    have htrading := (trading_exitFilled
      ((e.withRisk (e.risk.pushOrder now)).submitted st) now x (e.nextOrderId x.mint).1 fill)
    rw [← closePosition_filled hsell] at htrading
    obtain ⟨-, hrisk, -, -, -, -, hclosed, -⟩ := fields_of_trading htrading
    refine ⟨tradeOf x fill now, hclosed, rfl, ?_⟩
    rw [hrecords, hrisk]
    rfl

end Close

theorem closePosition_kill (ex : Executor σ) (e : Engine σ) (x : ExitArgs) (now : DateTime) :
    (e.closePosition ex x now).risk.kill = e.risk.kill := by
  rcases closePosition_cases ex e x now with ⟨err, st, -, hclose⟩ | ⟨fill, st, -, hclose⟩
  · have hrisk := (fields_of_trading hclose).risk
    exact (congrArg RiskEngine.kill hrisk).trans rfl
  · have hrisk := (fields_of_trading hclose).risk
    exact (congrArg RiskEngine.kill hrisk).trans (RiskEngine.recordRealizedPnl_kill _ _ _)

/-! ## What is paged on the way -/

/-- Calls of other kinds are no pages of the breaker. -/
theorem breakerPages_append {e e' : Engine σ} {new : List AlertCall}
    (halerter : e'.alerter = e.alerter.map (· ++ new))
    (hother : ∀ c ∈ new, c.kind ≠ .dailyLossTrip) :
    e'.breakerPages = e.breakerPages ∧ e'.alerter.isSome = e.alerter.isSome := by
  unfold breakerPages
  rw [halerter]
  cases e.alerter with
  | none => exact ⟨rfl, rfl⟩
  | some calls =>
      have hnone : new.filter (fun c => c.kind = .dailyLossTrip) = [] :=
        List.filter_eq_nil_iff.mpr fun c hc => by simpa using hother c hc
      refine ⟨?_, rfl⟩
      show (calls ++ new).filter _ = calls.filter _
      rw [List.filter_append, hnone, List.append_nil]

theorem calls_not_breaker (ex : Executor σ) (now : DateTime) (turn : ExitTurn σ) :
    ∀ c ∈ turn.calls ex now, c.kind ≠ .dailyLossTrip := by
  intro c hc
  rcases turn.mem_calls ex now hc with rfl | ⟨err, rfl⟩
  · simp [ExitTurn.stuckCall]
  · simp [ExitTurn.unknownCall]

theorem sliceCalls_not_breaker (mint : Mint) (orderId : String) (answer : Answer) :
    ∀ c ∈ sliceCalls mint orderId answer, c.kind ≠ .dailyLossTrip := by
  intro c hc
  obtain ⟨err, rfl⟩ := mem_sliceCalls hc
  simp [buyCall]

/-- A launch pages nothing about the breaker, and trips nothing. -/
theorem onLaunch_breaker (ex : Executor σ) (e : Engine σ) (launch : Launch) :
    (e.onLaunch ex launch).breakerPages = e.breakerPages ∧
      (e.onLaunch ex launch).alerter.isSome = e.alerter.isSome ∧
        (e.risk.dailyLossTripped = false →
          (e.onLaunch ex launch).risk.dailyLossTripped = false) := by
  refine onLaunch_preserves (P := fun a : Engine σ => a.breakerPages = e.breakerPages ∧
    a.alerter.isSome = e.alerter.isSome ∧
      (e.risk.dailyLossTripped = false → a.risk.dailyLossTripped = false))
    ?_ (fun _ h => h) (fun _ _ _ _ h => h) ?_ ⟨rfl, rfl, id⟩
  · rintro a ⟨hpages, harmed, htripped⟩
    refine ⟨hpages, harmed, fun hfalse => ?_⟩
    show (a.risk.maybeRollover launch.createdAt).dailyLossTripped = false
    unfold RiskEngine.maybeRollover
    split
    · rfl
    · exact htripped hfalse
  · rintro a deadline slice ⟨hpages, harmed, htripped⟩
    obtain ⟨hkept, hsome⟩ := breakerPages_append (sendSlice_alerter ex a launch deadline slice)
      (sliceCalls_not_breaker _ _ _)
    refine ⟨hkept.trans hpages, hsome.trans harmed, fun hfalse => ?_⟩
    rcases sendSlice_cases ex a launch deadline slice with
      ⟨err, st, -, hsend, -⟩ | ⟨fill, st, -, hsend, -⟩
    · have hrisk := (fields_of_trading hsend).risk
      rw [hrisk]
      exact htripped hfalse
    · have hrisk := (fields_of_trading hsend).risk
      rw [hrisk]
      exact htripped hfalse

/-! ## An event, exit by exit -/

/-- What the exits of an event at `now` have recorded so far, from the state before it. -/
structure Watched (cfg : Config) (now : DateTime) (e₀ e : Engine σ) : Prop where
  breaker : Breaker cfg now e
  logged : e.Logged
  armed : e.alerter.isSome = true
  pages : e.breakerPages = e₀.breakerPages
  kill : e.risk.kill = e₀.risk.kill
  closed : ∃ new, e.closed = e₀.closed ++ new ∧ ∀ t ∈ new, dateNaive t.closedAt = dateNaive now
  -- without a trip there is no record, and a trip has one unless the flag hid it
  quiet : ¬ Trips cfg (dateNaive now) e₀.closed e.closed → e.breakerRecords = e₀.breakerRecords
  noted : e₀.risk.killSwitch = false →
    e.breakerRecords = e₀.breakerRecords ∧ e.risk.dailyLossTripped = false ∨
      e.breakerRecords = e₀.breakerRecords ++ [tripRecord now] ∧
        Trips cfg (dateNaive now) e₀.closed e.closed

theorem killSwitch_eq_false_iff {r : RiskEngine} :
    r.killSwitch = false ↔ r.kill = false ∧ r.dailyLossTripped = false := by
  unfold RiskEngine.killSwitch
  rw [Bool.or_eq_false_iff]

section Watch

variable {cfg : Config} {now : DateTime} {e₀ e : Engine σ}

theorem Watched.start (hbreaker : Breaker cfg now e) (hlogged : e.Logged)
    (harmed : e.alerter.isSome = true) : Watched cfg now e e where
  breaker := hbreaker
  logged := hlogged
  armed := harmed
  pages := rfl
  kill := rfl
  closed := ⟨[], (List.append_nil _).symm, by simp⟩
  quiet := fun _ => rfl
  noted := fun hclear => Or.inl ⟨rfl, (killSwitch_eq_false_iff.mp hclear).2⟩

theorem Watched.ticked (h : Watched cfg now e₀ e) {p : PriceUpdate} {pos : Position}
    (hpos : e.positions.lookup p.mint = some pos) : Watched cfg now e₀ (e.ticked p pos) :=
  { h with breaker := h.breaker.ticked hpos }

theorem Watched.onLaunch (ex : Executor σ) {launch : Launch}
    (h : Watched cfg launch.createdAt e₀ e) :
    Watched cfg launch.createdAt e₀ (e.onLaunch ex launch) := by
  have hsteps := onLaunch_steps ex e launch
  obtain ⟨hclosed, hkill⟩ := onLaunch_frame ex e launch
  have hlog : LogsOnly AuditRecord.isBreaker e.breakerRecords (e.onLaunch ex launch) :=
    onLaunch_filter ex LaunchRecord.not_breaker ⟨h.logged, rfl⟩ launch
  obtain ⟨hpages, harmed, htripped⟩ := onLaunch_breaker ex e launch
  have hrecords : (e.onLaunch ex launch).breakerRecords = e.breakerRecords := hlog.2
  exact {
    breaker := steps_invariant (fun _ _ hstep ha => hstep.breaker ha) hsteps h.breaker
    logged := hlog.1
    armed := harmed.trans h.armed
    pages := hpages.trans h.pages
    kill := hkill.trans h.kill
    closed := by rw [hclosed]; exact h.closed
    quiet := by rw [hclosed, hrecords]; exact h.quiet
    noted := by
      rw [hclosed, hrecords]
      intro hclear
      exact (h.noted hclear).imp (fun hquiet => ⟨hquiet.1, htripped hquiet.2⟩) id }

/-- A trip stays a trip when more is closed. -/
theorem Trips.grow {day : Int} {before after : List ClosedTrade} (h : Trips cfg day before after)
    (new : List ClosedTrade) : Trips cfg day before (after ++ new) :=
  ⟨h.1, crosses_grow h.2 new⟩

/-- A close of today sets the breaker at today: it is tripped exactly if today's trades
have reached the limit. -/
theorem Breaker.tripped_iff_of_today (h : Breaker cfg now e) {trade : ClosedTrade}
    (htrade : trade ∈ e.closed) (htoday : dateNaive trade.closedAt = dateNaive now) :
    e.risk.dailyLossTripped = true ↔
      Crosses cfg.lossLimit 0 (dayPnls e.closed (dateNaive now)) := by
  have hpast := h.past trade htrade
  have hday : e.risk.day = dateNaive now := by omega
  rw [h.tripped, h.lossLimit_eq, hday]

/-- The flag goes up where the manual switch is off and the breaker trips. -/
theorem edge_eq_true_iff {r r' : RiskEngine} (hkill : r'.kill = r.kill) :
    (!r.killSwitch && r'.killSwitch) = true ↔
      r.kill = false ∧ r.dailyLossTripped = false ∧ r'.dailyLossTripped = true := by
  unfold RiskEngine.killSwitch
  rw [hkill]
  cases r.kill <;> cases r.dailyLossTripped <;> simp

/-- A breaker that trips on a close takes the day to the limit for the first time. -/
theorem Watched.trips (h : Watched cfg now e₀ e) {e' : Engine σ} (hbreaker : Breaker cfg now e')
    {trade : ClosedTrade} (hclosed : e'.closed = e.closed ++ [trade])
    (htoday : dateNaive trade.closedAt = dateNaive now) (hwas : e.risk.dailyLossTripped = false)
    (hafter : e'.risk.dailyLossTripped = true) :
    Trips cfg (dateNaive now) e₀.closed e'.closed := by
  obtain ⟨new, hnew, -⟩ := h.closed
  constructor
  · intro hcross
    have hgrown : Crosses cfg.lossLimit 0 (dayPnls e.closed (dateNaive now)) := by
      rw [hnew]
      exact crosses_grow hcross new
    have htripped := (h.breaker.tripped_today hgrown).2
    rw [hwas] at htripped
    exact absurd htripped (by simp)
  · have hmem : trade ∈ e'.closed := by
      rw [hclosed]
      simp
    exact (hbreaker.tripped_iff_of_today hmem htoday).mp hafter

/-- An exit of a held position: it records the first close that takes the day to the
limit, if the flag is clear. -/
theorem Watched.closePosition (ex : Executor σ) (h : Watched cfg now e₀ e) {x : ExitArgs}
    (hheld : e.positions ≠ ∅) : Watched cfg now e₀ (e.closePosition ex x now) := by
  have hbreaker : Breaker cfg now (e.closePosition ex x now) := h.breaker.closePosition hheld
  have hkill := closePosition_kill ex e x now
  have hlogged := closePosition_logged ex x now h.logged
  obtain ⟨hpages, harmed⟩ := breakerPages_append (closePosition_alerter ex x now)
    (calls_not_breaker ex now ⟨e, x⟩)
  rcases closePosition_breaker ex x now h.logged with
    ⟨hclosed, htripped, hrecords⟩ | ⟨trade, hclosed, htoday, hrecords⟩
  · exact {
      breaker := hbreaker
      logged := hlogged
      armed := harmed.trans h.armed
      pages := hpages.trans h.pages
      kill := hkill.trans h.kill
      closed := by rw [hclosed]; exact h.closed
      quiet := by rw [hclosed, hrecords]; exact h.quiet
      noted := by rw [hclosed, hrecords, htripped]; exact h.noted }
  · obtain ⟨new, hnew, hall⟩ := h.closed
    have hedge := edge_eq_true_iff hkill
    have htrips := h.trips hbreaker hclosed htoday
    refine {
      breaker := hbreaker
      logged := hlogged
      armed := harmed.trans h.armed
      pages := hpages.trans h.pages
      kill := hkill.trans h.kill
      closed := ⟨new ++ [trade], by rw [hclosed, hnew, List.append_assoc], ?_⟩
      quiet := fun hquiet => ?_
      noted := fun hclear => ?_ }
    · intro t ht
      rcases List.mem_append.mp ht with hold | hlast
      · exact hall t hold
      · rw [List.mem_singleton.mp hlast]
        exact htoday
    · have hearlier : ¬ Trips cfg (dateNaive now) e₀.closed e.closed := fun hold =>
        hquiet (by rw [hclosed]; exact hold.grow [trade])
      have hnoedge : ¬ (!e.risk.killSwitch &&
          (e.closePosition ex x now).risk.killSwitch) = true := by
        intro hset
        obtain ⟨-, hwas, hafter⟩ := hedge.mp hset
        exact hquiet (htrips hwas hafter)
      rw [hrecords, if_neg hnoedge, List.append_nil, h.quiet hearlier]
    · have hoff : e.risk.kill = false := h.kill.trans (killSwitch_eq_false_iff.mp hclear).1
      rcases h.noted hclear with ⟨hsame, hwas⟩ | ⟨hsame, hold⟩
      · rw [hrecords, hsame]
        cases hafter : (e.closePosition ex x now).risk.dailyLossTripped with
        | false =>
            left
            rw [if_neg (by simp [hedge, hafter]), List.append_nil]
            exact ⟨rfl, rfl⟩
        | true =>
            right
            rw [if_pos (hedge.mpr ⟨hoff, hwas, hafter⟩)]
            exact ⟨rfl, htrips hwas hafter⟩
      · -- the trip is behind us, and the flag with it
        have hwas := (h.breaker.tripped_today hold.2).2
        right
        rw [hrecords, hsame, if_neg (by simp [hedge, hwas]), List.append_nil, hclosed]
        exact ⟨rfl, hold.grow [trade]⟩

end Watch

/-! ## Events -/

/-- A trip is recorded and paged once, and nothing else is. -/
structure Announced (cfg : Config) (d : Delivery) (e e' : Engine σ) : Prop where
  trip : Trips cfg (dateNaive d.ts) e.closed e'.closed →
    e'.breakerRecords = e.breakerRecords ++ [tripRecord d.ts] ∧
      ∃ page, e'.breakerPages = e.breakerPages ++ [page]
  quiet : ¬ Trips cfg (dateNaive d.ts) e.closed e'.closed →
    e'.breakerRecords = e.breakerRecords ∧ e'.breakerPages = e.breakerPages

/-- The state before an event at time `t`: the breaker is in order, every append reaches
the log, and the alerter is armed. -/
structure Ready (cfg : Config) (t : DateTime) (e : Engine σ) : Prop where
  keyed : e.Keyed
  breaker : Breaker cfg t e
  logged : e.Logged
  armed : e.alerter.isSome = true

section Deliver

variable {cfg : Config} {e : Engine σ} {d : Delivery}

/-- The state before the page at the end of the event. -/
theorem Ready.watched (h : Ready cfg d.ts e) (ex : Executor σ) :
    Watched cfg d.ts e ((e.handle ex d.ev).sweepTimeStops ex d.order d.ev.ts) := by
  refine swept_preserves (P := Watched cfg d.ts e) ?_ (fun _ _ _ hpos ha => ha.ticked hpos)
    (fun _ _ _ _ _ hpos ha => ha.closePosition ex (ne_empty_of_lookup hpos)) h.keyed
    (Watched.start h.breaker h.logged h.armed) d.order
  intro a launch hev ha
  have hts : d.ts = launch.createdAt := congrArg Event.ts hev
  rw [hts] at ha ⊢
  exact ha.onLaunch ex

/-- The page at the end of an event. -/
theorem deliver_pages (ex : Executor σ) (e : Engine σ) (d : Delivery) :
    let a := (e.handle ex d.ev).sweepTimeStops ex d.order d.ev.ts
    (e.deliver ex d).closed = a.closed ∧ (e.deliver ex d).risk = a.risk ∧
      (e.deliver ex d).breakerRecords = a.breakerRecords ∧
      (e.deliver ex d).alerter.isSome = a.alerter.isSome ∧
      (a.alerter.isSome = true →
        if !e.risk.killSwitch && a.risk.killSwitch then
          ∃ page, (e.deliver ex d).breakerPages = a.breakerPages ++ [page]
        else (e.deliver ex d).breakerPages = a.breakerPages) := by
  intro a
  have hdeliver : e.deliver ex d = if !e.risk.killSwitch && a.risk.killSwitch then
      a.alert .dailyLossTrip ["breaker engaged: day realized P&L $", .dec a.risk.dayRealizedPnl]
      else a := rfl
  rw [hdeliver]
  split
  · refine ⟨rfl, rfl, rfl, ?_, fun harmed => ?_⟩
    · show (a.alerter.map _).isSome = _
      rw [Option.isSome_map]
    · obtain ⟨calls, hcalls⟩ := Option.isSome_iff_exists.mp harmed
      refine ⟨⟨.dailyLossTrip,
        ["breaker engaged: day realized P&L $", .dec a.risk.dayRealizedPnl]⟩, ?_⟩
      unfold breakerPages alert
      rw [hcalls]
      simp
  · exact ⟨rfl, rfl, rfl, rfl, fun _ => rfl⟩

theorem Ready.deliver (h : Ready cfg d.ts e) (ex : Executor σ) :
    Ready cfg d.ts (e.deliver ex d) := by
  have hwatched := h.watched ex
  obtain ⟨-, -, -, harmed, -⟩ := deliver_pages ex e d
  exact {
    keyed := h.keyed.deliver ex d
    breaker := hwatched.breaker.of_trading (trading_onEvent ex d.order e d.ev)
    logged := by
      unfold Logged
      rw [show (e.deliver ex d).audit = _ from onEvent_audit ex d.order e d.ev]
      exact hwatched.logged
    armed := harmed.trans hwatched.armed }

/-- **When an event announces.**  A trip is recorded and paged once, and nothing else
is, unless the event trips the breaker while the flag is set. -/
theorem announced_iff (h : Ready cfg d.ts e) (ex : Executor σ) :
    Announced cfg d e (e.deliver ex d) ↔
      (Trips cfg (dateNaive d.ts) e.closed (e.deliver ex d).closed →
        e.risk.killSwitch = false) := by
  have hwatched := h.watched ex
  obtain ⟨hclosed, -, hrecords, -, hpage⟩ := deliver_pages ex e d
  have hpage := hpage hwatched.armed
  have hedge := edge_eq_true_iff hwatched.kill
  rw [hwatched.pages] at hpage
  constructor
  · intro hannounced htrips
    obtain ⟨-, page, hpages⟩ := hannounced.trip htrips
    by_contra hset
    rw [Bool.not_eq_false] at hset
    rw [if_neg (by simp [hset]), hpages] at hpage
    exact absurd hpage (by simp)
  · intro hclear
    rw [hclosed] at hclear
    refine ⟨fun htrips => ?_, fun hquiet => ?_⟩
    · rw [hclosed] at htrips
      have hunset := hclear htrips
      obtain ⟨hoff, hwas⟩ := killSwitch_eq_false_iff.mp hunset
      have hnow := (hwatched.breaker.tripped_today htrips.2).2
      rw [if_pos (hedge.mpr ⟨hoff, hwas, hnow⟩)] at hpage
      refine ⟨?_, hpage⟩
      rcases hwatched.noted hunset with ⟨-, hnot⟩ | ⟨hnoted, -⟩
      · rw [hnot] at hnow
        exact absurd hnow (by simp)
      · exact hrecords.trans hnoted
    · rw [hclosed] at hquiet
      refine ⟨hrecords.trans (hwatched.quiet hquiet), ?_⟩
      have hnoedge : ¬ (!e.risk.killSwitch &&
          ((e.handle ex d.ev).sweepTimeStops ex d.order d.ev.ts).risk.killSwitch) = true := by
        intro hset
        obtain ⟨hoff, hwas, hnow⟩ := hedge.mp hset
        rcases hwatched.noted (killSwitch_eq_false_iff.mpr ⟨hoff, hwas⟩) with
          ⟨-, hnot⟩ | ⟨-, htrips⟩
        · rw [hnot] at hnow
          exact absurd hnow (by simp)
        · exact absurd htrips hquiet
      rw [if_neg hnoedge] at hpage
      exact hpage

end Deliver

/-! ## Runs with the manual kill switch -/

/-- An event, or the operator turning the manual kill switch between two events. -/
inductive BotAct where
  | event (d : Delivery)
  | engageKillSwitch
  | releaseKillSwitch

/-- Events carry a time, the switch does not. -/
def BotAct.time : BotAct → Option DateTime
  | .event d => some d.ts
  | _ => none

def botStep (ex : Executor σ) (e : Engine σ) : BotAct → Engine σ
  | .event d => e.deliver ex d
  | .engageKillSwitch => e.withRisk e.risk.engageKillSwitch
  | .releaseKillSwitch => e.withRisk e.risk.releaseKillSwitch

/-- The flag is clear before an event that trips the breaker. -/
def Unmasked (cfg : Config) (ex : Executor σ) (e : Engine σ) : BotAct → Prop
  | .event d => Trips cfg (dateNaive d.ts) e.closed (e.deliver ex d).closed →
      e.risk.killSwitch = false
  | _ => True

/-- The event records and pages what it should. -/
def AnnouncedAct (cfg : Config) (ex : Executor σ) (e : Engine σ) : BotAct → Prop
  | .event d => Announced cfg d e (e.deliver ex d)
  | _ => True

/-- The engine at its launch, with a log that takes every append and an alerter. -/
def armed (cfg : Config) (st : σ) (today : Int) : Engine σ :=
  (Engine.new cfg st (.opened fun _ => true) today).withAlerter

section Run

variable {cfg : Config} {ex : Executor σ} {e : Engine σ}

theorem Ready.wait {s t : DateTime} (h : Ready cfg s e) (hst : s ≤ t) : Ready cfg t e :=
  { h with breaker := h.breaker.wait hst }

/-- The manual switch is none of the breaker's fields. -/
theorem Ready.act {t : DateTime} (h : Ready cfg t e) {act : BotAct}
    (htime : act.time = some t ∨ act.time = none) : Ready cfg t (botStep ex e act) := by
  cases act with
  | event d =>
      rcases htime with htime | htime
      · obtain rfl : d.ts = t := Option.some.inj htime
        exact h.deliver ex
      · exact absurd htime (by simp [BotAct.time])
  | engageKillSwitch => exact { h with breaker := { h.breaker with } }
  | releaseKillSwitch => exact { h with breaker := { h.breaker with } }

theorem ready_armed (cfg : Config) (st : σ) (today : Int) (t : DateTime) :
    Ready cfg t (armed cfg st today) where
  keyed := keyed_new cfg st (.opened fun _ => true) today
  breaker := (breaker_new cfg st (.opened fun _ => true) today t).of_trading rfl
  logged := fun _ => rfl
  armed := rfl

theorem ready_run (cfg : Config) (ex : Executor σ) (st : σ) (today : Int) {acts : List BotAct}
    (hacts : InOrderOf BotAct.time acts) {t : DateTime}
    (ht : ∀ s ∈ acts.filterMap BotAct.time, s ≤ t) :
    Ready cfg t (acts.foldl (botStep ex) (armed cfg st today)) :=
  timed_run_invariant_along BotAct.time (C := fun _ _ => True) (P := Ready cfg)
    (fun _ _ _ hst h => h.wait hst) (fun _ _ _ _ htime h => h.act htime)
    (ready_armed cfg st today) hacts (along_of_forall (fun _ _ => trivial) _ acts) ht

/-- The breaker records of a day. -/
def recordsOn (e : Engine σ) (day : Int) : List AuditRecord :=
  e.breakerRecords.filter (AuditRecord.isBreakerOn day)

/-- One record for each day that has reached the limit, none for another, and as many
pages as records. -/
structure Noticed (cfg : Config) (e : Engine σ) : Prop where
  records : ∀ day, (e.recordsOn day).length =
    if Crosses cfg.lossLimit 0 (dayPnls e.closed day) then 1 else 0
  pages : e.breakerPages.length = e.breakerRecords.length

theorem noticed_armed (cfg : Config) (st : σ) (today : Int) : Noticed cfg (armed cfg st today) where
  records := fun _ => rfl
  pages := rfl

/-- An event that announces what it should keeps the notices of every day. -/
theorem Noticed.deliver {d : Delivery} (h : Noticed cfg e) (hready : Ready cfg d.ts e)
    (hannounced : Announced cfg d e (e.deliver ex d)) : Noticed cfg (e.deliver ex d) := by
  obtain ⟨new, hclosed, hnew⟩ := (hready.watched ex).closed
  rw [← (deliver_pages ex e d).1] at hclosed
  -- the event closes trades of its own day only
  have hother : ∀ day, dateNaive d.ts ≠ day →
      dayPnls (e.deliver ex d).closed day = dayPnls e.closed day := by
    intro day hday
    have hnone : dayPnls new day = [] := dayPnls_eq_nil fun t ht => by
      rw [hnew t ht]
      exact hday
    rw [hclosed, dayPnls_append, hnone, List.append_nil]
  by_cases htrips : Trips cfg (dateNaive d.ts) e.closed (e.deliver ex d).closed
  · obtain ⟨hrecord, page, hpage⟩ := hannounced.trip htrips
    refine ⟨fun day => ?_, by simp [hrecord, hpage, h.pages]⟩
    have hbefore := h.records day
    unfold recordsOn at hbefore ⊢
    rw [hrecord, List.filter_append, List.length_append, hbefore]
    by_cases hday : dateNaive d.ts = day
    · subst hday
      rw [if_neg htrips.1, if_pos htrips.2]
      simp [tripRecord, AuditRecord.isBreakerOn]
    · rw [hother day hday]
      simp [tripRecord, AuditRecord.isBreakerOn, hday]
  · obtain ⟨hrecords, hpages⟩ := hannounced.quiet htrips
    refine ⟨fun day => ?_, by rw [hrecords, hpages, h.pages]⟩
    have hbefore := h.records day
    unfold recordsOn at hbefore ⊢
    rw [hrecords, hbefore]
    by_cases hday : dateNaive d.ts = day
    · subst hday
      -- without a trip the day has reached the limit before, or not at all
      have hsame : Crosses cfg.lossLimit 0 (dayPnls e.closed (dateNaive d.ts)) ↔
          Crosses cfg.lossLimit 0 (dayPnls (e.deliver ex d).closed (dateNaive d.ts)) := by
        constructor
        · intro hcross
          rw [hclosed]
          exact crosses_grow hcross new
        · intro hcross
          by_contra hnot
          exact htrips ⟨hnot, hcross⟩
      simp only [hsame]
    · rw [hother day hday]

theorem announcedAct_iff {act : BotAct} (h : ∀ t, act.time = some t → Ready cfg t e) :
    AnnouncedAct cfg ex e act ↔ Unmasked cfg ex e act := by
  cases act with
  | event d => exact announced_iff (h d.ts rfl) ex
  | engageKillSwitch => exact Iff.rfl
  | releaseKillSwitch => exact Iff.rfl

/-- The switch changes none of the counts. -/
theorem Noticed.act {act : BotAct} (h : Noticed cfg e)
    (hready : ∀ t, act.time = some t → Ready cfg t e) (hannounced : AnnouncedAct cfg ex e act) :
    Noticed cfg (botStep ex e act) := by
  cases act with
  | event d => exact h.deliver (hready d.ts rfl) hannounced
  | engageKillSwitch => exact ⟨h.records, h.pages⟩
  | releaseKillSwitch => exact ⟨h.records, h.pages⟩

end Run

/-- The defaults, with a limit that a single stop loss can reach. -/
def onePctConfig : Config := { Config.paperDefaults with dailyLossLimitPct := 1 }

/-- A stop loss of a day with the manual switch turned in between. -/
def stoppedOut : List BotAct :=
  [.event (launchAt "A" 86200 1), .engageKillSwitch, .releaseKillSwitch,
    .event (launchAt "B" 86250 1), .event (priceAt "A" 86300 (1 / 10000))]

end Engine

end HfmcBot
