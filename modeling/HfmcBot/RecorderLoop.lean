import HfmcBot.LiveLoop

/-!
# The recorder over its runs

`run_ws_loop` of `wsfeed.rs`, the loop of the recorder binary: it connects with a backoff,
archives every text frame verbatim before anything else, then writes what the frame gives into
the events file, and ends on a signal after the frame in hand.  The files outlive the process,
which may also be killed between two frames, and is booted again.

* `lineRecords`: what a line gives at a time;
* `recordFrame_archives`: one frame;
* `recorder_rederives`: over every run, the texts given to the raw file give the events file
  again, up to the clocks, which they do not carry.
-/

namespace HfmcBot

open Foundation

/-! ## The loop -/

/-- What happens to the recorder: a connection attempt with the outcome of its subscription, a
message, the end of the stream, the end of a pause, a signal that the loop sees, a kill between
two frames, and a new boot. -/
inductive RecorderAct
  | connect (opened subscribed : Bool)
  | message (now : Instant) (msg : WsMessage)
  | ended
  | slept
  | signal
  | kill
  | boot

/-- The recorder and its files, with the frames since the last boot. -/
structure RecorderLoop where
  left : Recorder
  reconnects : Nat
  maxGapSecs : Nat
  lastMsg : Option Instant
  backoffSecs : Nat
  phase : LoopPhase
  session : List Inbound

/-- The typed raw of a line at a time, and its event if there is a rate and it can be made. -/
def lineRecords (crates : FeedCrates) (solUsd : Option Decimal) (nowWall : Int64)
    (line : String) : List FeedRecord :=
  match parseWsLine crates line with
  | .malformed => []
  | .chatter => []
  | .tradeAttempt v =>
      match extractTrade crates v with
      | none => []
      | some t =>
          let event := solUsd.bind fun rate =>
            (enrichTrade crates t (atMillis nowWall) rate).toOption
          .raw ⟨nowWall, rawOfTrade t⟩ :: (event.map FeedRecord.event).toList
  | .createAttempt v =>
      match extractCreate crates v with
      | none => []
      | some c =>
          let event := solUsd.bind fun rate =>
            ((enrichCreate crates c (atMillis nowWall) rate).map EnrichedLaunch.event).toOption
          .raw ⟨nowWall, rawOfCreate crates c⟩ :: (event.map FeedRecord.event).toList

/-- What a frame gives. -/
def Inbound.records (crates : FeedCrates) (solUsd : Option Decimal) (i : Inbound) :
    List FeedRecord :=
  (i.text.map (lineRecords crates solUsd i.nowWall)).getD []

def FeedRecord.isRaw : FeedRecord → Bool
  | .raw _ => true
  | .event _ => false

def Event.undated : Event → Event
  | .launch l => .launch { l with createdAt := atMillis 0 }
  | .price p => .price { p with ts := atMillis 0 }

/-- A record without the clock, which no line carries. -/
def FeedRecord.undated : FeedRecord → FeedRecord
  | .raw r => .raw { r with atMs := 0 }
  | .event ev => .event ev.undated

/-- What a text of the raw file gives again. -/
def derived (crates : FeedCrates) (solUsd : Option Decimal) (line : String) : List FeedRecord :=
  (lineRecords crates solUsd 0 line).map FeedRecord.undated

namespace RecorderLoop

def noStats : FeedStats := ⟨0, 0, 0, 0, 0, 0, 0⟩

/-- A first boot, without files. -/
def start : RecorderLoop where
  left := ⟨[], noStats, []⟩
  reconnects := 0
  maxGapSecs := 0
  lastMsg := none
  backoffSecs := 1
  phase := .connecting
  session := []

/-- A later boot on the same files. -/
def reboot (s : RecorderLoop) : RecorderLoop :=
  { start with left := { s.left with stats := noStats } }

/-- A message came in. -/
def gap (s : RecorderLoop) (now : Instant) : RecorderLoop :=
  let gapSecs := ((s.lastMsg.map fun last => now - last).getD 0) / 1000000000
  { s with
    lastMsg := some now
    maxGapSecs := if s.maxGapSecs < gapSecs then gapSecs else s.maxGapSecs }

/-- A text or binary frame. -/
def onFrame (crates : FeedCrates) (solUsd : Option Decimal) (s : RecorderLoop) (i : Inbound) :
    RecorderLoop :=
  let (left, stop) := recordFrame crates solUsd s.left i
  { s with
    left := left
    phase := if stop.isSome then .panicked else s.phase
    session := s.session ++ [i] }

/-- One thing that happens; what cannot happen in a phase changes nothing. -/
def step (crates : FeedCrates) (solUsd : Option Decimal) (s : RecorderLoop) :
    RecorderAct → RecorderLoop
  | .connect opened subscribed =>
      if s.phase = .connecting then
        { s with
          reconnects := s.reconnects + 1
          backoffSecs := if opened then 1 else s.backoffSecs
          phase := if opened && subscribed then .streaming else .waiting }
      else s
  | .message now msg =>
      if s.phase = .streaming then
        match msg with
        | .frame i => (s.gap now).onFrame crates solUsd i
        | .control => s.gap now
        | .closed => { s.gap now with phase := .waiting }
      else s
  | .ended => if s.phase = .streaming then { s with phase := .waiting } else s
  | .slept =>
      if s.phase = .waiting then
        { s with
          backoffSecs := nextBackoffSecs s.backoffSecs
          phase := .connecting }
      else s
  | .signal => if s.phase = .panicked then s else { s with phase := .stopped }
  | .kill => if s.phase = .panicked then s else { s with phase := .stopped }
  | .boot => if s.phase = .stopped ∨ s.phase = .panicked then s.reboot else s

def run (crates : FeedCrates) (solUsd : Option Decimal) (acts : List RecorderAct) : RecorderLoop :=
  acts.foldl (step crates solUsd) start

end RecorderLoop

/-! ## One frame -/

section Frames

variable (crates : FeedCrates) (solUsd : Option Decimal)

/-- The typed raw of a frame, and its event if it was made. -/
theorem typed_records (s : Recorder) (raw : StampedRawEvent)
    (enriched : Option (Except EnrichStop Event)) :
    (s.typed raw enriched).1 =
      { s with
        records := s.records ++
          (.raw raw :: ((enriched.bind Except.toOption).map FeedRecord.event).toList) } := by
  match enriched with
  | none => rfl
  | some (.error .refused) => rfl
  | some (.error (.panic stop)) => rfl
  | some (.ok ev) => simp [Recorder.typed, Recorder.record, Except.toOption]

/-- What the recorder has after a frame, a panic included. -/
structure Archives (s s' : Recorder) (i : Inbound) : Prop where
  raw : s'.rawLines = s.rawLines ++ i.text.toList
  records : s'.records = s.records ++ i.records crates solUsd
  messages : s'.stats.wsMessages = s.stats.wsMessages + 1
  classified : s'.stats.classified = s.stats.classified + 1
  typed : s'.stats.creates + s'.stats.wsTrades =
    s.stats.creates + s.stats.wsTrades + (i.records crates solUsd).countP FeedRecord.isRaw

theorem countP_raw (raw : StampedRawEvent) (event : Option Event) :
    (FeedRecord.raw raw :: (event.map FeedRecord.event).toList).countP FeedRecord.isRaw = 1 := by
  cases event <;> rfl

variable {crates solUsd}

/-- A frame that gives nothing. -/
theorem Archives.of_nothing {s s' : Recorder} {i : Inbound} (hnone : i.records crates solUsd = [])
    (hraw : s'.rawLines = s.rawLines ++ i.text.toList) (hrecords : s'.records = s.records)
    (hmessages : s'.stats.wsMessages = s.stats.wsMessages + 1)
    (hclassified : s'.stats.classified = s.stats.classified + 1)
    (htyped : s'.stats.creates + s'.stats.wsTrades = s.stats.creates + s.stats.wsTrades) :
    Archives crates solUsd s s' i where
  raw := hraw
  records := by rw [hnone, List.append_nil, hrecords]
  messages := hmessages
  classified := hclassified
  typed := by rw [hnone, List.countP_nil, Nat.add_zero, htyped]

/-- A frame that gives a typed raw. -/
theorem Archives.of_typed {s s' : Recorder} {i : Inbound} {raw : StampedRawEvent}
    {event : Option Event}
    (hsome : i.records crates solUsd = .raw raw :: (event.map FeedRecord.event).toList)
    (hraw : s'.rawLines = s.rawLines ++ i.text.toList)
    (hrecords : s'.records = s.records ++ .raw raw :: (event.map FeedRecord.event).toList)
    (hmessages : s'.stats.wsMessages = s.stats.wsMessages + 1)
    (hclassified : s'.stats.classified = s.stats.classified + 1)
    (htyped : s'.stats.creates + s'.stats.wsTrades = s.stats.creates + s.stats.wsTrades + 1) :
    Archives crates solUsd s s' i where
  raw := hraw
  records := by rw [hsome, hrecords]
  messages := hmessages
  classified := hclassified
  typed := by rw [hsome, countP_raw, htyped]

variable (crates solUsd)

theorem recordFrame_archives (s : Recorder) (i : Inbound) :
    Archives crates solUsd s (recordFrame crates solUsd s i).1 i := by
  obtain ⟨nowWall, frame⟩ := i
  cases frame with
  | binary =>
      refine .of_nothing rfl (List.append_nil _).symm rfl rfl ?_ rfl
      simp only [recordFrame, Recorder.binary, FeedStats.classified]
      omega
  | text line =>
      have hrecords : Inbound.records crates solUsd ⟨nowWall, .text line⟩ =
          lineRecords crates solUsd nowWall line := rfl
      unfold recordFrame recordText
      dsimp only
      cases hline : parseWsLine crates line with
      | malformed =>
          refine .of_nothing (hrecords.trans (by simp [lineRecords, hline])) rfl rfl rfl ?_ rfl
          simp only [Recorder.received, FeedStats.classified]
          omega
      | chatter =>
          refine .of_nothing (hrecords.trans (by simp [lineRecords, hline])) rfl rfl rfl ?_ rfl
          simp only [Recorder.received, FeedStats.classified]
          omega
      | tradeAttempt v =>
          dsimp only
          unfold recordTrade
          cases hextract : extractTrade crates v with
          | none =>
              refine .of_nothing (hrecords.trans (by simp [lineRecords, hline, hextract])) rfl rfl
                rfl ?_ rfl
              simp only [Recorder.received, FeedStats.classified]
              omega
          | some t =>
              dsimp only
              -- the raw is written before the enrichment, so it stays when that stops
              rw [typed_records]
              have hsome : lineRecords crates solUsd nowWall line =
                  .raw ⟨nowWall, rawOfTrade t⟩ ::
                    (((solUsd.map fun rate => enrichTrade crates t (atMillis nowWall) rate).bind
                      Except.toOption).map FeedRecord.event).toList := by
                simp [lineRecords, hline, hextract, Option.bind_map]
              refine .of_typed (hrecords.trans hsome) rfl rfl rfl ?_ ?_
              · simp only [Recorder.received, FeedStats.classified]
                omega
              · simp only [Recorder.received]
                omega
      | createAttempt v =>
          dsimp only
          unfold recordCreate
          cases hextract : extractCreate crates v with
          | none =>
              refine .of_nothing (hrecords.trans (by simp [lineRecords, hline, hextract])) rfl rfl
                rfl ?_ rfl
              simp only [Recorder.received, FeedStats.classified]
              omega
          | some c =>
              dsimp only
              rw [typed_records]
              have hsome : lineRecords crates solUsd nowWall line =
                  .raw ⟨nowWall, rawOfCreate crates c⟩ ::
                    (((solUsd.map fun rate =>
                      (enrichCreate crates c (atMillis nowWall) rate).map
                        EnrichedLaunch.event).bind
                      Except.toOption).map FeedRecord.event).toList := by
                simp [lineRecords, hline, hextract, Option.bind_map]
              refine .of_typed (hrecords.trans hsome) rfl rfl rfl ?_ ?_
              · simp only [Recorder.received, FeedStats.classified]
                omega
              · simp only [Recorder.received]
                omega

/-- The clock of a line is all that its records take from it. -/
theorem enrichTrade_undated (t : PumpPortalTrade) (now now' : DateTime) (rate : Decimal) :
    (enrichTrade crates t now rate).toOption.map Event.undated =
      (enrichTrade crates t now' rate).toOption.map Event.undated := by
  unfold enrichTrade
  cases quoteReserves crates t.vsolSol t.vtokensTokens rate <;> rfl

theorem enrichCreate_undated (c : PumpPortalCreate) (now now' : DateTime) (rate : Decimal) :
    ((enrichCreate crates c now rate).map EnrichedLaunch.event).toOption.map Event.undated =
      ((enrichCreate crates c now' rate).map EnrichedLaunch.event).toOption.map
        Event.undated := by
  unfold enrichCreate
  cases quoteReserves crates c.vsolSol c.vtokensTokens rate with
  | error stop => rfl
  | ok quote => cases creatorHold crates c.initialBuyTokens <;> rfl

/-- A typed raw with its event, without their clocks. -/
theorem undated_typed (raw : StampedRawEvent) (event : Option Event) :
    (FeedRecord.raw raw :: (event.map FeedRecord.event).toList).map FeedRecord.undated =
      .raw { raw with atMs := 0 } :: ((event.map Event.undated).map FeedRecord.event).toList := by
  cases event <;> rfl

theorem lineRecords_undated (now : Int64) (line : String) :
    (lineRecords crates solUsd now line).map FeedRecord.undated = derived crates solUsd line := by
  unfold derived lineRecords
  cases parseWsLine crates line with
  | malformed => rfl
  | chatter => rfl
  | tradeAttempt v =>
      dsimp only
      cases extractTrade crates v with
      | none => rfl
      | some t =>
          dsimp only
          rw [undated_typed, undated_typed]
          cases solUsd with
          | none => rfl
          | some rate =>
              rw [Option.bind_some, Option.bind_some,
                enrichTrade_undated crates t (atMillis now) (atMillis 0)]
  | createAttempt v =>
      dsimp only
      cases extractCreate crates v with
      | none => rfl
      | some c =>
          dsimp only
          rw [undated_typed, undated_typed]
          cases solUsd with
          | none => rfl
          | some rate =>
              rw [Option.bind_some, Option.bind_some,
                enrichCreate_undated crates c (atMillis now) (atMillis 0)]

theorem records_undated (i : Inbound) :
    (i.records crates solUsd).map FeedRecord.undated =
      i.text.toList.flatMap (derived crates solUsd) := by
  obtain ⟨now, line | _⟩ := i
  · exact (lineRecords_undated crates solUsd now line).trans (List.append_nil _).symm
  · rfl

end Frames

/-! ## What every act keeps -/

namespace RecorderLoop

/-- The files against each other, and the counters against the frames since the boot. -/
structure Rederives (crates : FeedCrates) (solUsd : Option Decimal) (s : RecorderLoop) :
    Prop where
  given : s.left.records.map FeedRecord.undated = s.left.rawLines.flatMap (derived crates solUsd)
  messages : s.left.stats.wsMessages = s.session.length
  classified : s.left.stats.classified = s.session.length
  typed : s.left.stats.creates + s.left.stats.wsTrades =
    (s.session.flatMap (Inbound.records crates solUsd)).countP FeedRecord.isRaw
  backoff : 1 ≤ s.backoffSecs ∧ s.backoffSecs ≤ 60

namespace Rederives

variable {crates : FeedCrates} {solUsd : Option Decimal} {s : RecorderLoop}

theorem start : Rederives crates solUsd .start where
  given := rfl
  messages := rfl
  classified := rfl
  typed := rfl
  backoff := by decide

/-- Nothing is written. -/
theorem moved (h : Rederives crates solUsd s) {s' : RecorderLoop} (hleft : s'.left = s.left)
    (hsession : s'.session = s.session)
    (hbackoff : 1 ≤ s'.backoffSecs ∧ s'.backoffSecs ≤ 60) : Rederives crates solUsd s' where
  given := by
    rw [hleft]
    exact h.given
  messages := by
    rw [hleft, hsession]
    exact h.messages
  classified := by
    rw [hleft, hsession]
    exact h.classified
  typed := by
    rw [hleft, hsession]
    exact h.typed
  backoff := hbackoff

theorem gap (h : Rederives crates solUsd s) (now : Instant) :
    Rederives crates solUsd (s.gap now) :=
  h.moved rfl rfl h.backoff

theorem onFrame (h : Rederives crates solUsd s) (i : Inbound) :
    Rederives crates solUsd (s.onFrame crates solUsd i) := by
  have harchives := recordFrame_archives crates solUsd s.left i
  -- but for the clock, the text in the raw file gives what the frame gave
  have hgiven : ((s.onFrame crates solUsd i).left.rawLines).flatMap (derived crates solUsd) =
      s.left.rawLines.flatMap (derived crates solUsd) ++
        (i.records crates solUsd).map FeedRecord.undated := by
    rw [records_undated, ← List.flatMap_append, ← harchives.raw]
    rfl
  have hsession : (s.onFrame crates solUsd i).session.length = s.session.length + 1 :=
    List.length_append
  have hrecords : (s.onFrame crates solUsd i).left.records =
      s.left.records ++ i.records crates solUsd := harchives.records
  constructor
  · rw [hgiven, hrecords, List.map_append, h.given]
  · rw [hsession, ← h.messages]
    exact harchives.messages
  · rw [hsession, ← h.classified]
    exact harchives.classified
  · show _ = ((s.session ++ [i]).flatMap _).countP _
    rw [List.flatMap_append, List.countP_append, List.flatMap_singleton, ← h.typed]
    exact harchives.typed
  · exact h.backoff

theorem reboot (h : Rederives crates solUsd s) : Rederives crates solUsd s.reboot where
  given := h.given
  messages := rfl
  classified := rfl
  typed := rfl
  backoff := show 1 ≤ 1 ∧ 1 ≤ 60 by decide

theorem step (h : Rederives crates solUsd s) (a : RecorderAct) :
    Rederives crates solUsd (s.step crates solUsd a) := by
  cases a with
  | connect opened subscribed =>
      simp only [RecorderLoop.step]
      split
      · refine h.moved rfl rfl ?_
        cases opened with
        | false => exact h.backoff
        | true => exact show 1 ≤ 1 ∧ 1 ≤ 60 by decide
      · exact h
  | message now msg =>
      simp only [RecorderLoop.step]
      split
      · cases msg with
        | frame i => exact (h.gap now).onFrame i
        | control => exact h.gap now
        | closed => exact (h.gap now).moved rfl rfl h.backoff
      · exact h
  | ended =>
      simp only [RecorderLoop.step]
      split
      · exact h.moved rfl rfl h.backoff
      · exact h
  | slept =>
      simp only [RecorderLoop.step]
      split
      · exact h.moved rfl rfl (nextBackoffSecs_within h.backoff)
      · exact h
  | signal =>
      simp only [RecorderLoop.step]
      split
      · exact h
      · exact h.moved rfl rfl h.backoff
  | kill =>
      simp only [RecorderLoop.step]
      split
      · exact h
      · exact h.moved rfl rfl h.backoff
  | boot =>
      simp only [RecorderLoop.step]
      split
      · exact h.reboot
      · exact h

end Rederives

end RecorderLoop

theorem rederives_run (crates : FeedCrates) (solUsd : Option Decimal) (acts : List RecorderAct) :
    (RecorderLoop.run crates solUsd acts).Rederives crates solUsd :=
  run_invariant (fun _ a hs => hs.step a) RecorderLoop.Rederives.start acts

/-- Over every run of the recorder with one rate, on a disk that takes its writes, with its
reconnects, signals, panics, kills between frames and boots: the events file is what the texts
given to the raw file give, in their order and without their clocks; since the boot every frame
is in one class, and each typed raw is counted as a create or a trade; and the pause before a
reconnect is between a second and a minute. -/
theorem recorder_rederives (crates : FeedCrates) (solUsd : Option Decimal)
    (acts : List RecorderAct) :
    let s := RecorderLoop.run crates solUsd acts
    s.left.records.map FeedRecord.undated = s.left.rawLines.flatMap (derived crates solUsd) ∧
      (s.left.stats.wsMessages = s.session.length ∧
        s.left.stats.classified = s.session.length) ∧
      s.left.stats.creates + s.left.stats.wsTrades =
        (s.session.flatMap (Inbound.records crates solUsd)).countP FeedRecord.isRaw ∧
      1 ≤ s.backoffSecs ∧ s.backoffSecs ≤ 60 := by
  intro s
  have h := rederives_run crates solUsd acts
  exact ⟨h.given, ⟨h.messages, h.classified⟩, h.typed, h.backoff⟩

end HfmcBot
