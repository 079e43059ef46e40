import HfmcBot.Engine.ExitTurns

/-!
# What exits write

A failed exit notes the attempt, and at the limit the stuck position; a filled one
records the order, the fill and the trade, and the breaker if it trips.  Failed exits
also page: for a position that becomes stuck, and for an order whose state is unknown.

* `closePosition_lines`, `closePosition_alerter`: the records and pages of an exit;
* `onLaunch_filter`: what a launch does not write;
* `deliver_filter`: so what an event writes beyond that is what its exits write.
-/

namespace HfmcBot

open Foundation

namespace ExitTurn

variable {σ : Type} (ex : Executor σ) (now : DateTime) (turn : ExitTurn σ)

/-- The position the turn is about, as the book has it. -/
def position : Option Position := turn.before.positions.lookup turn.args.mint

/-- If the sell fails, which attempt was it? -/
def attempts : UInt32 := (turn.position.map fun pos => pos.exitAttempts + 1).getD 0

/-- Does a failed sell make the position stuck? -/
def becomesStuck : Bool :=
  (turn.position.map fun pos => pos.becomesStuck turn.before.cfg.maxExitAttempts).getD false

/-- What the position has cost. -/
def stuckCost : Decimal := (turn.position.map Position.costUsd).getD 0

/-- The note of a position that becomes stuck. -/
def stuckRecord : AuditRecord :=
  .decision now turn.args.mint "position_stuck"
    [.int turn.attempts.toNat, " failed exits (limit ", .int turn.before.cfg.maxExitAttempts.toNat,
      "): treating as unsellable; $", .dec turn.stuckCost,
      " stays deployed, fresh ticks still retry"]

/-- The note of a failed exit. -/
def failedRecord (err : ExecError) : AuditRecord :=
  .decision now turn.args.mint "exit_failed"
    ((["attempt ", .int turn.attempts.toNat, ": "] : Text) ++ err.text)

/-- Does the trade of this fill trip the breaker? -/
def trips (fill : Fill) : Bool :=
  !turn.before.risk.killSwitch &&
    ((turn.before.risk.pushOrder now).recordRealizedPnl
      (Engine.tradeOf turn.args fill now).pnlUsd now).killSwitch

/-- The audit records of the turn. -/
def records : List AuditRecord :=
  match turn.answer ex now with
  | .error err =>
      (if turn.becomesStuck then [turn.stuckRecord now] else []) ++ [turn.failedRecord now err]
  | .ok fill =>
      (if turn.trips now fill then [.breaker now "daily loss limit tripped"] else []) ++
        [.order now (turn.request now).orderId turn.args.mint "sell" turn.args.qty
            turn.args.refPrice,
          fillRecord fill, .tradeClosed (Engine.tradeOf turn.args fill now)]

/-- The page for a position that becomes stuck. -/
def stuckCall : AlertCall :=
  ⟨.positionStuck, [turn.args.mint, ": ", .int turn.attempts.toNat, " failed exits, $",
    .dec turn.stuckCost, " stuck (mode ", turn.args.mode.debug, ")"]⟩

/-- The page for a sell whose state is unknown. -/
def unknownCall (err : ExecError) : AlertCall :=
  ⟨.transportUnknown,
    ([turn.args.mint, " exit attempt ", .int turn.attempts.toNat, ": "] : Text) ++ err.text⟩

/-- The pages of the turn. -/
def calls : List AlertCall :=
  match turn.answer ex now with
  | .error err =>
      (if turn.becomesStuck then [turn.stuckCall] else []) ++
        (if err.isTransport then [turn.unknownCall err] else [])
  | .ok _ => []

/-- An exit pages about a stuck position and about an unknown sell, and nothing else. -/
theorem mem_calls {c : AlertCall} (hc : c ∈ turn.calls ex now) :
    c = turn.stuckCall ∨ ∃ err, c = turn.unknownCall err := by
  unfold calls at hc
  split at hc
  · rename_i err _
    rcases List.mem_append.mp hc with hstuck | hunknown
    · split at hstuck
      · exact Or.inl (List.mem_singleton.mp hstuck)
      · exact absurd hstuck (by simp)
    · split at hunknown
      · exact Or.inr ⟨err, List.mem_singleton.mp hunknown⟩
      · exact absurd hunknown (by simp)
  · exact absurd hc (by simp)

end ExitTurn

namespace Engine

variable {σ : Type}

/-- Every append to the log reaches the file. -/
def Logged (e : Engine σ) : Prop := e.audit.Reliable

theorem Logged.appendAudit {e : Engine σ} (h : e.Logged) (record : AuditRecord) :
    (e.appendAudit record).Logged := h.append record

theorem Logged.lines_appendAudit {e : Engine σ} (h : e.Logged) (record : AuditRecord) :
    (e.appendAudit record).audit.lines = e.audit.lines ++ [record] := h.lines_append record

/-- A page on a condition. -/
theorem alertIf_alerter (e : Engine σ) (c : Prop) [Decidable c] (call : AlertCall) :
    (if c then e.alert call.kind call.detail else e).alerter =
      e.alerter.map (· ++ if c then [call] else []) := by
  split
  · rfl
  · cases hcalls : e.alerter with
    | none => rfl
    | some calls => simp

/-- The note and the page of a turn that makes its position stuck. -/
def noteStuck (e : Engine σ) (now : DateTime) (turn : ExitTurn σ) : Engine σ :=
  if turn.becomesStuck then
    (e.appendAudit (turn.stuckRecord now)).alert turn.stuckCall.kind turn.stuckCall.detail
  else e

/-- The page of a turn whose sell is unknown. -/
def pageUnknown (e : Engine σ) (turn : ExitTurn σ) (err : ExecError) : Engine σ :=
  if err.isTransport then e.alert (turn.unknownCall err).kind (turn.unknownCall err).detail else e

section Parts

variable (e : Engine σ) (now : DateTime) (turn : ExitTurn σ) (err : ExecError)

theorem noteStuck_logged (h : e.Logged) : (e.noteStuck now turn).Logged := by
  unfold noteStuck
  split
  · exact h.append _
  · exact h

theorem noteStuck_lines (h : e.Logged) :
    (e.noteStuck now turn).audit.lines =
      e.audit.lines ++ if turn.becomesStuck then [turn.stuckRecord now] else [] := by
  unfold noteStuck
  split
  · exact h.lines_append _
  · exact (List.append_nil _).symm

theorem noteStuck_alerter :
    (e.noteStuck now turn).alerter =
      e.alerter.map (· ++ if turn.becomesStuck then [turn.stuckCall] else []) := by
  rw [← alertIf_alerter]
  unfold noteStuck
  split <;> rfl

theorem pageUnknown_audit : (e.pageUnknown turn err).audit = e.audit := by
  unfold pageUnknown
  split <;> rfl

theorem pageUnknown_alerter :
    (e.pageUnknown turn err).alerter =
      e.alerter.map (· ++ if err.isTransport then [turn.unknownCall err] else []) :=
  alertIf_alerter e _ (turn.unknownCall err)

/-- A failed exit: the attempt is counted, the stuck position noted, the unknown order
paged, and the failure noted. -/
theorem exitFailed_eq (x : ExitArgs) :
    e.exitFailed now x.mint x.mode err =
      (((e.countFailure x.mint).noteStuck now ⟨e, x⟩).pageUnknown ⟨e, x⟩ err).appendAudit
        (ExitTurn.failedRecord now ⟨e, x⟩ err) := by
  unfold exitFailed countFailure noteStuck pageUnknown ExitTurn.becomesStuck ExitTurn.stuckRecord
    ExitTurn.stuckCall ExitTurn.unknownCall ExitTurn.failedRecord ExitTurn.attempts
    ExitTurn.stuckCost ExitTurn.position
  cases hpos : e.positions.lookup x.mint with
  | none =>
      rw [bookFailure_of_unheld hpos]
      rfl
  | some pos =>
      rw [bookFailure_of_lookup hpos]
      rfl

end Parts

section Failed

variable {e : Engine σ} (x : ExitArgs) (now : DateTime) (err : ExecError)

/-- What a failed exit writes. -/
theorem exitFailed_records (h : e.Logged) :
    (e.exitFailed now x.mint x.mode err).audit.lines =
      e.audit.lines ++
        ((if ExitTurn.becomesStuck ⟨e, x⟩ then [ExitTurn.stuckRecord now ⟨e, x⟩] else []) ++
          [ExitTurn.failedRecord now ⟨e, x⟩ err]) := by
  have hcount : (e.countFailure x.mint).Logged := h
  have hpaged : (((e.countFailure x.mint).noteStuck now ⟨e, x⟩).pageUnknown ⟨e, x⟩ err).Logged := by
    unfold Logged
    rw [pageUnknown_audit]
    exact noteStuck_logged _ now ⟨e, x⟩ hcount
  rw [exitFailed_eq, hpaged.lines_appendAudit, pageUnknown_audit, noteStuck_lines _ _ _ hcount,
    ← List.append_assoc]
  rfl

theorem exitFailed_logged (h : e.Logged) : (e.exitFailed now x.mint x.mode err).Logged := by
  have hcount : (e.countFailure x.mint).Logged := h
  rw [exitFailed_eq]
  unfold Logged
  apply AuditLog.Reliable.append
  rw [pageUnknown_audit]
  exact noteStuck_logged _ now ⟨e, x⟩ hcount

/-- Whom it pages. -/
theorem exitFailed_alerter :
    (e.exitFailed now x.mint x.mode err).alerter =
      e.alerter.map (· ++
        ((if ExitTurn.becomesStuck ⟨e, x⟩ then [ExitTurn.stuckCall ⟨e, x⟩] else []) ++
          if err.isTransport then [ExitTurn.unknownCall ⟨e, x⟩ err] else [])) := by
  rw [exitFailed_eq]
  show (((e.countFailure x.mint).noteStuck now ⟨e, x⟩).pageUnknown ⟨e, x⟩ err).alerter = _
  rw [pageUnknown_alerter, noteStuck_alerter, Option.map_map]
  show e.alerter.map _ = e.alerter.map _
  congr 1
  funext calls
  exact List.append_assoc _ _ _

end Failed

section Filled

variable {e : Engine σ} (x : ExitArgs) (now : DateTime) (orderId : String) (fill : Fill)

/-- The record of a breaker that trips. -/
def noteBreaker (e : Engine σ) (now : DateTime) (trips : Bool) : Engine σ :=
  if trips then e.appendAudit (.breaker now "daily loss limit tripped") else e

theorem noteBreaker_logged (trips : Bool) (h : e.Logged) : (e.noteBreaker now trips).Logged := by
  unfold noteBreaker
  split
  · exact h.append _
  · exact h

theorem noteBreaker_lines {trips : Bool} (h : e.Logged) :
    (e.noteBreaker now trips).audit.lines =
      e.audit.lines ++ if trips then [.breaker now "daily loss limit tripped"] else [] := by
  unfold noteBreaker
  split
  · exact h.lines_append _
  · exact (List.append_nil _).symm

/-- The audit log after a filled exit. -/
theorem exitFilled_audit :
    (e.exitFilled now x orderId fill).audit =
      ((((e.noteBreaker now (!e.risk.killSwitch &&
        (e.risk.recordRealizedPnl (tradeOf x fill now).pnlUsd now).killSwitch)).appendAudit
        (.order now orderId x.mint "sell" x.qty x.refPrice)).appendAudit
          (fillRecord fill)).appendAudit (.tradeClosed (tradeOf x fill now))).audit := by
  unfold exitFilled noteBreaker
  dsimp only
  split <;> rfl

theorem exitFilled_alerter : (e.exitFilled now x orderId fill).alerter = e.alerter := by
  unfold exitFilled
  dsimp only
  split <;> rfl

/-- What a filled exit writes. -/
theorem exitFilled_records (h : e.Logged) :
    (e.exitFilled now x orderId fill).audit.lines =
      e.audit.lines ++
        ((if !e.risk.killSwitch &&
            (e.risk.recordRealizedPnl (tradeOf x fill now).pnlUsd now).killSwitch then
          [.breaker now "daily loss limit tripped"] else []) ++
        [.order now orderId x.mint "sell" x.qty x.refPrice, fillRecord fill,
          .tradeClosed (tradeOf x fill now)]) := by
  rw [exitFilled_audit]
  have hbreaker := noteBreaker_logged now (!e.risk.killSwitch &&
    (e.risk.recordRealizedPnl (tradeOf x fill now).pnlUsd now).killSwitch) h
  have horder := hbreaker.appendAudit (.order now orderId x.mint "sell" x.qty x.refPrice)
  have hfill := horder.appendAudit (fillRecord fill)
  rw [hfill.lines_appendAudit, horder.lines_appendAudit, hbreaker.lines_appendAudit,
    noteBreaker_lines now h]
  simp

theorem exitFilled_logged (h : e.Logged) : (e.exitFilled now x orderId fill).Logged := by
  unfold Logged
  rw [exitFilled_audit]
  exact (((noteBreaker_logged now _ h).appendAudit _).appendAudit _).appendAudit _

end Filled

/-! ## Exits -/

section Exits

variable (ex : Executor σ) {e : Engine σ} (x : ExitArgs) (now : DateTime)

/-- The audit records of an exit. -/
theorem closePosition_lines (h : e.Logged) :
    (e.closePosition ex x now).audit.lines =
      e.audit.lines ++ ExitTurn.records ex now ⟨e, x⟩ := by
  unfold ExitTurn.records ExitTurn.answer ExitTurn.request
  dsimp only
  rcases hsell : ex.sell (sellRequest x now (e.nextOrderId x.mint).1) e.exec with ⟨err | fill, st⟩
  · rw [closePosition_failed hsell]
    exact exitFailed_records x now err h
  · rw [closePosition_filled hsell]
    exact exitFilled_records x now _ fill h

theorem closePosition_logged (h : e.Logged) : (e.closePosition ex x now).Logged := by
  rcases hsell : ex.sell (sellRequest x now (e.nextOrderId x.mint).1) e.exec with ⟨err | fill, st⟩
  · rw [closePosition_failed hsell]
    exact exitFailed_logged x now err h
  · rw [closePosition_filled hsell]
    exact exitFilled_logged x now _ fill h

/-- Its pages. -/
theorem closePosition_alerter :
    (e.closePosition ex x now).alerter =
      e.alerter.map (· ++ ExitTurn.calls ex now ⟨e, x⟩) := by
  unfold ExitTurn.calls ExitTurn.answer ExitTurn.request
  dsimp only
  rcases hsell : ex.sell (sellRequest x now (e.nextOrderId x.mint).1) e.exec with ⟨err | fill, st⟩
  · rw [closePosition_failed hsell]
    exact exitFailed_alerter x now err
  · rw [closePosition_filled hsell, exitFilled_alerter]
    show e.alerter = e.alerter.map (· ++ [])
    cases e.alerter with
    | none => rfl
    | some calls => simp

end Exits

/-! ## Slices -/

/-- The page of a buy whose state is unknown. -/
def buyCall (mint : Mint) (orderId : String) (err : ExecError) : AlertCall :=
  ⟨.transportUnknown, ([mint, ": buy ", orderId, " unknown state — "] : Text) ++ err.text⟩

/-- The pages of a slice with this answer. -/
def sliceCalls (mint : Mint) (orderId : String) : Answer → List AlertCall
  | .error err => if err.isTransport then [buyCall mint orderId err] else []
  | .ok _ => []

/-- A slice pages about an unknown buy, and nothing else. -/
theorem mem_sliceCalls {mint : Mint} {orderId : String} {answer : Answer} {c : AlertCall}
    (hc : c ∈ sliceCalls mint orderId answer) : ∃ err, c = buyCall mint orderId err := by
  unfold sliceCalls at hc
  split at hc
  · rename_i err
    split at hc
    · exact ⟨err, List.mem_singleton.mp hc⟩
    · exact absurd hc (by simp)
  · exact absurd hc (by simp)

theorem buyFailed_alerter (e : Engine σ) (now : DateTime) (mint : Mint) (orderId : String)
    (err : ExecError) :
    (e.buyFailed now mint orderId err).alerter =
      e.alerter.map (· ++ sliceCalls mint orderId (.error err)) :=
  alertIf_alerter e _ (buyCall mint orderId err)

/-- What a slice pages. -/
theorem sendSlice_alerter (ex : Executor σ) (e : Engine σ) (launch : Launch) (deadline : DateTime)
    (slice : Decimal) :
    (e.sendSlice ex launch deadline slice).1.alerter =
      e.alerter.map (· ++ sliceCalls launch.mint (e.nextOrderId launch.mint).1
        (ex.buy (sliceRequest launch deadline slice (e.nextOrderId launch.mint).1) e.exec).1) := by
  rcases hbuy : ex.buy (sliceRequest launch deadline slice (e.nextOrderId launch.mint).1) e.exec
    with ⟨err | fill, st⟩
  · rw [sendSlice_failed hbuy]
    exact buyFailed_alerter _ _ _ _ _
  · rw [sendSlice_filled hbuy]
    show e.alerter = _
    cases e.alerter <;> simp [sliceCalls]

/-! ## Events -/

/-- The records a launch writes: its notes, and what its orders leave. -/
def LaunchRecord : AuditRecord → Prop
  | .decision _ _ action _ => action = "order_failed" ∨ action ∈ launchActions
  | .order .. => True
  | .fill .. => True
  | _ => False

section Events

variable (ex : Executor σ) {p : AuditRecord → Bool}

/-- A log and what of it is of interest. -/
def LogsOnly (p : AuditRecord → Bool) (lines : List AuditRecord) (e : Engine σ) : Prop :=
  e.Logged ∧ e.audit.lines.filter p = lines

theorem LogsOnly.appendAudit {lines : List AuditRecord} {e : Engine σ} (h : LogsOnly p lines e)
    {record : AuditRecord} (hrecord : p record = false) :
    LogsOnly p lines (e.appendAudit record) := by
  refine ⟨h.1.appendAudit record, ?_⟩
  rw [h.1.lines_appendAudit, List.filter_append, h.2, List.filter_singleton, hrecord]
  exact List.append_nil lines

theorem LogsOnly.sendSlice (hp : ∀ record, LaunchRecord record → p record = false)
    {lines : List AuditRecord} {e : Engine σ} (h : LogsOnly p lines e) (launch : Launch)
    (deadline : DateTime) (slice : Decimal) :
    LogsOnly p lines (e.sendSlice ex launch deadline slice).1 := by
  rcases hbuy : ex.buy (sliceRequest launch deadline slice (e.nextOrderId launch.mint).1) e.exec
    with ⟨err | fill, st⟩
  · rw [sendSlice_failed hbuy]
    unfold buyFailed
    dsimp only
    have hpaged : ∀ kind detail, LogsOnly p lines (if err.isTransport = true then
        (e.submitted st).alert kind detail else e.submitted st) := by
      intro kind detail
      split
      · exact h
      · exact h
    exact (hpaged _ _).appendAudit (hp _ (Or.inl rfl))
  · rw [sendSlice_filled hbuy]
    have hbooked : LogsOnly p lines
        ((e.submitted st).applyBuyFill fill launch.launchpad launch.liquidityUsd) := h
    exact (hbooked.appendAudit (hp (.order ..) trivial)).appendAudit (hp (.fill ..) trivial)

/-- What a launch does not write, it leaves as it is. -/
theorem onLaunch_filter (hp : ∀ record, LaunchRecord record → p record = false)
    {lines : List AuditRecord} {e : Engine σ} (h : LogsOnly p lines e) (launch : Launch) :
    LogsOnly p lines (e.onLaunch ex launch) :=
  onLaunch_preserves (P := LogsOnly p lines) (fun _ h => h) (fun _ h => h)
    (fun _ _ _ haction h => h.appendAudit (hp _ (Or.inr haction)))
    (fun _ deadline slice h => h.sendSlice ex hp launch deadline slice) h

/-- The page at the end of an event writes nothing. -/
theorem onEvent_audit (o : KeyOrder Mint) (e : Engine σ) (ev : Event) :
    (e.onEvent ex o ev).audit = ((e.handle ex ev).sweepTimeStops ex o ev.ts).audit := by
  unfold onEvent
  dsimp only
  split <;> rfl

/-- What an event writes, launches aside, is what its exits write. -/
theorem deliver_filter (hp : ∀ record, LaunchRecord record → p record = false) {e : Engine σ}
    (h : e.Logged) (d : Delivery) :
    (e.deliver ex d).Logged ∧
      (e.deliver ex d).audit.lines.filter p =
        e.audit.lines.filter p ++ (e.exitTurns ex d.order d.ev).flatMap fun turn =>
          (turn.records ex d.ts).filter p := by
  have hclose : ∀ (e : Engine σ) (x : ExitArgs), e.Logged →
      (e.closePosition ex x d.ts).audit.lines.filter p =
        e.audit.lines.filter p ++ (ExitTurn.records ex d.ts ⟨e, x⟩).filter p := by
    intro e x he
    rw [closePosition_lines ex x d.ts he, List.filter_append]
  have hkeep : ∀ (e : Engine σ) (x : ExitArgs), e.Logged →
      (e.closePosition ex x d.ts).Logged := fun _ x he => closePosition_logged ex x d.ts he
  have hhandler : (e.handle ex d.ev).Logged ∧
      (e.handle ex d.ev).audit.lines.filter p =
        e.audit.lines.filter p ++ (e.handlerTurns d.ev).flatMap fun turn =>
          (turn.records ex d.ts).filter p := by
    obtain ⟨ev, o⟩ := d
    cases ev with
    | launch launch =>
        obtain ⟨hlogged, hlines⟩ := onLaunch_filter ex hp
          (⟨h, rfl⟩ : LogsOnly p (e.audit.lines.filter p) e) launch
        exact ⟨hlogged, hlines.trans (List.append_nil _).symm⟩
    | price q =>
        have htick := onPriceUpdate_observe ex (Q := Logged)
          (g := fun e : Engine σ => e.audit.lines.filter p)
          (w := fun turn => (turn.records ex q.ts).filter p) (p := q) hclose
          (fun _ _ he => ⟨rfl, he⟩) h
        refine ⟨?_, htick⟩
        show (e.onPriceUpdate ex q).Logged
        cases hpos : e.positions.lookup q.mint with
        | none =>
            rw [onPriceUpdate_unheld hpos]
            exact h
        | some pos =>
            cases hexit : (tickPosition e.cfg q pos).2 with
            | none =>
                rw [onPriceUpdate_stay hpos hexit]
                exact h
            | some dec =>
                rw [onPriceUpdate_exit hpos hexit]
                exact closePosition_logged ex _ _ h
  have hsweep := sweep_observe ex (Q := Logged)
    (g := fun e : Engine σ => e.audit.lines.filter p)
    (w := fun turn => (turn.records ex d.ts).filter p) hkeep hclose d.order hhandler.1
  have hswept : ((e.handle ex d.ev).sweepTimeStops ex d.order d.ts).Logged :=
    run_invariant hkeep hhandler.1 _
  have haudit : (e.deliver ex d).audit =
      ((e.handle ex d.ev).sweepTimeStops ex d.order d.ts).audit := onEvent_audit ex d.order e d.ev
  constructor
  · unfold Logged
    rw [haudit]
    exact hswept
  · unfold exitTurns
    rw [haudit, List.flatMap_append, ← List.append_assoc, ← hhandler.2]
    exact hsweep

end Events

end Engine

end HfmcBot
