import HfmcBot.Engine.Ledger
import HfmcBot.Feed.Recorder
import HfmcBot.Feed.TradeSubs
import HfmcBot.SnapshotFile

/-!
# The live loop

`run_live_loop` from its start to its end: connections with their backoff, streams, the
events that reach the engine, the subscriptions and the published numbers after each of
them, and the saves of the book.  A panic of the enrichment ends the process where it
stands.

* `LiveLoop.step`: one thing that happens to the loop;
* `LiveFeed.byReading`: what a line does, by its reading;
* `loop_accounts`: what holds after any of its runs;
* `replay_rebuilds`: the events file replays to the book;
* `crash_recovers`: the last save and the rest of the events file give the book, whenever
  the process went down.
-/

namespace HfmcBot

open Foundation

/-! ## Published numbers -/

/-- The numbers behind `/metrics`. -/
structure EngineSnapshot where
  equityUsd : Decimal
  deployedUsd : Decimal
  openPositions : Nat
  closedTrades : Nat
  wins : Nat
  losses : Nat
  realizedPnlUsd : Decimal
  dayRealizedPnlUsd : Decimal
  killSwitch : Bool
  stuckPositions : Nat

namespace Engine

variable {σ : Type}

/-- `snapshot`. -/
def snapshot (e : Engine σ) : EngineSnapshot :=
  let wins := e.closed.countP fun t => decide (0 < t.pnlUsd)
  { equityUsd := e.equity
    deployedUsd := e.deployedUsd
    openPositions := e.positions.keys.card
    closedTrades := e.closed.length
    wins := wins
    losses := e.closed.length - wins
    realizedPnlUsd := (e.closed.map ClosedTrade.pnlUsd).sum
    dayRealizedPnlUsd := e.risk.dayRealizedPnl
    killSwitch := e.risk.killSwitch
    stuckPositions := (e.positions.valuesIn .ascending).countP Position.stuck }

end Engine

/-! ## The loop -/

/-- What the loop asks of its engine. -/
structure LoopEngine (ε : Type) where
  onEvent : ε → Event → ε
  openMints : ε → Finset Mint
  snapshot : ε → EngineSnapshot

/-- The arguments of the loop. -/
structure LiveLoopArgs where
  solUsd : Decimal
  maxTradeSubs : Nat
  statePath : Option FileName
  stateEverySecs : UInt64

def LiveLoopArgs.saveEnabled (args : LiveLoopArgs) : Bool :=
  decide (0 < args.stateEverySecs) && args.statePath.isSome

inductive LoopPhase
  | connecting
  | streaming
  | waiting
  | stopped
  | panicked
  deriving DecidableEq

/-- The loop: what it has counted, archived and traded, its subscriptions, its clocks, what
it has published, the engine of the last save, and the alerts about failed saves. -/
structure LiveLoop (ε : Type) where
  feed : LiveFeed ε
  link : Link
  reconnects : Nat
  maxGapSecs : Nat
  lastMsg : Option Instant
  backoffSecs : Nat
  published : EngineSnapshot
  saved : Option ε
  pages : List AlertKind
  phase : LoopPhase

/-- What the stream yields. -/
inductive WsMessage
  | frame (i : Inbound)
  | control
  | closed

/-- What happens to the loop: a connection attempt with the outcomes of its two sends, a
message with the outcomes of what is sent after it, the end of the stream, a tick of the
saver, the end of a pause, a signal. -/
inductive LoopAct
  | connect (opened creates resubscribed : Bool)
  | message (now : Instant) (msg : WsMessage) (sent : Nat → Bool) (saved : Bool)
  | ended (saved : Bool)
  | tick (saved : Bool)
  | slept
  | shutdown (saved : Bool)

def nextBackoffSecs (currentSecs : Nat) : Nat := min (currentSecs * 2) 60

theorem nextBackoffSecs_within {secs : Nat} (h : 1 ≤ secs ∧ secs ≤ 60) :
    1 ≤ nextBackoffSecs secs ∧ nextBackoffSecs secs ≤ 60 := by
  unfold nextBackoffSecs
  omega

namespace LiveLoop

variable {ε : Type}

/-- A loop without a rate does not start. -/
def start (args : LiveLoopArgs) (engine : ε) (published : EngineSnapshot) : LiveLoop ε where
  feed := ⟨[], ⟨0, 0, 0, 0, 0, 0, 0⟩, [], engine⟩
  link := .start
  reconnects := 0
  maxGapSecs := 0
  lastMsg := none
  backoffSecs := 1
  published := published
  saved := none
  pages := []
  phase := if args.solUsd ≤ 0 then .stopped else .connecting

/-- `save_book`: a failure pages and nothing else. -/
def saveBook (args : LiveLoopArgs) (s : LiveLoop ε) (saved : Bool) : LiveLoop ε :=
  match args.statePath with
  | none => s
  | some _ =>
      if saved then { s with saved := some s.feed.engine }
      else { s with pages := s.pages ++ [.snapshotFailed] }

/-- A message came in: the silence before it is measured in whole seconds. -/
def heard (s : LiveLoop ε) (now : Instant) : LiveLoop ε :=
  let gapSecs := ((s.lastMsg.map fun last => now - last).getD 0) / 1000000000
  { s with
    lastMsg := some now
    maxGapSecs := if s.maxGapSecs < gapSecs then gapSecs else s.maxGapSecs }

/-- `after_event`. -/
def afterEvent (api : LoopEngine ε) (args : LiveLoopArgs) (s : LiveLoop ε) (sent : Nat → Bool) :
    LiveLoop ε :=
  { s with
    link := s.link.turn args.maxTradeSubs (.event (api.openMints s.feed.engine) sent)
    published := api.snapshot s.feed.engine }

/-- The stream is over: checkpoint before the gap. -/
def disconnect (args : LiveLoopArgs) (s : LiveLoop ε) (saved : Bool) : LiveLoop ε :=
  { s.saveBook args saved with
    link := s.link.turn args.maxTradeSubs .disconnect
    phase := .waiting }

/-- A text or binary message. -/
def onFrame (crates : FeedCrates) (api : LoopEngine ε) (args : LiveLoopArgs) (s : LiveLoop ε)
    (i : Inbound) (sent : Nat → Bool) : LiveLoop ε :=
  match liveFrame crates api.onEvent args.solUsd s.feed i with
  | (feed, some _) => { s with feed := feed, phase := .panicked }
  | (feed, none) =>
      let s' := { s with feed := feed }
      -- the loop goes on to `after_event` where the engine has taken an event
      if s.feed.archived.length < feed.archived.length then s'.afterEvent api args sent else s'

/-- One thing that happens; what cannot happen in a phase changes nothing. -/
def step (crates : FeedCrates) (api : LoopEngine ε) (args : LiveLoopArgs) (s : LiveLoop ε) :
    LoopAct → LiveLoop ε
  | .connect opened creates resubscribed =>
      if s.phase = .connecting then
        let s := { s with reconnects := s.reconnects + 1 }
        if opened then
          { s with
            backoffSecs := 1
            link := s.link.turn args.maxTradeSubs (.connect creates resubscribed)
            phase := if creates then .streaming else .waiting }
        else { s with phase := .waiting }
      else s
  | .message now msg sent saved =>
      if s.phase = .streaming then
        let s := s.heard now
        match msg with
        | .frame i => s.onFrame crates api args i sent
        | .control => s
        | .closed => s.disconnect args saved
      else s
  | .ended saved => if s.phase = .streaming then s.disconnect args saved else s
  | .tick saved =>
      if s.phase = .streaming ∧ args.saveEnabled = true then s.saveBook args saved else s
  | .slept =>
      if s.phase = .waiting then
        { s with backoffSecs := nextBackoffSecs s.backoffSecs, phase := .connecting }
      else s
  | .shutdown saved =>
      match s.phase with
      | .stopped => s
      | .panicked => s
      | _ => { s.saveBook args saved with phase := .stopped }

/-- A run of the loop. -/
def run (crates : FeedCrates) (api : LoopEngine ε) (args : LiveLoopArgs) (s : LiveLoop ε)
    (acts : List LoopAct) : LiveLoop ε :=
  acts.foldl (step crates api args) s

end LiveLoop

/-! ## A line, by its reading -/

/-- What a line does to counters, archive and engine. -/
def LiveFeed.byReading {ε : Type} (onEvent : ε → Event → ε) (nowWall : Int64) (s : LiveFeed ε) :
    Reading → LiveFeed ε × Option ArithStop
  | .malformed => ({ s with stats := { s.stats with wsMalformed := s.stats.wsMalformed + 1 } }, none)
  | .chatter => ({ s with stats := { s.stats with wsChatter := s.stats.wsChatter + 1 } }, none)
  | .unparsedTrade =>
      ({ s with stats := { s.stats with wsUnparsedTrade := s.stats.wsUnparsedTrade + 1 } }, none)
  | .unparsedCreate =>
      ({ s with stats := { s.stats with wsUnparsedCreate := s.stats.wsUnparsedCreate + 1 } }, none)
  | .trade raw (.ok ev) =>
      ({ s with
        stats := { s.stats with wsTrades := s.stats.wsTrades + 1 }
        archived := s.archived ++ [⟨⟨nowWall, raw⟩, some ev⟩]
        engine := onEvent s.engine ev }, none)
  | .trade _ (.error .refused) =>
      ({ s with stats := { s.stats with wsUnparsedTrade := s.stats.wsUnparsedTrade + 1 } }, none)
  | .trade _ (.error (.panic stop)) => (s, some stop)
  | .create raw (.ok ev) =>
      ({ s with
        stats := { s.stats with creates := s.stats.creates + 1 }
        archived := s.archived ++ [⟨⟨nowWall, raw⟩, some ev⟩]
        engine := onEvent s.engine ev }, none)
  | .create _ (.error .refused) =>
      ({ s with stats := { s.stats with creates := s.stats.creates + 1 } }, none)
  | .create _ (.error (.panic stop)) =>
      ({ s with stats := { s.stats with creates := s.stats.creates + 1 } }, some stop)

section Readings

variable {ε : Type} (crates : FeedCrates) (onEvent : ε → Event → ε) (solUsd : Decimal)
  (nowWall : Int64)

theorem liveText_byReading (s : LiveFeed ε) (line : String) :
    liveText crates onEvent solUsd nowWall s line =
      (s.received line).byReading onEvent nowWall (readLine crates solUsd nowWall line) := by
  unfold liveText handleText readLine LiveFeed.cutShort
  cases parseWsLine crates line with
  | malformed => rfl
  | chatter => rfl
  | tradeAttempt v =>
      dsimp only
      unfold handleTrade
      cases extractTrade crates v with
      | none => rfl
      | some t =>
          dsimp only
          rcases enrichTrade crates t (atMillis nowWall) solUsd with ⟨_ | stop⟩ | ev
          · rfl
          · rfl
          · rfl
  | createAttempt v =>
      dsimp only
      unfold handleCreate
      cases extractCreate crates v with
      | none => rfl
      | some c =>
          dsimp only
          rcases enrichCreate crates c (atMillis nowWall) solUsd with ⟨_ | stop⟩ | enriched
          · rfl
          · rfl
          · rfl

variable {crates solUsd nowWall}

theorem enrichTrade_ts {t : PumpPortalTrade} {at_ : DateTime} {ev : Event}
    (h : enrichTrade crates t at_ solUsd = .ok ev) : ev.ts = at_ := by
  unfold enrichTrade at h
  cases hquote : quoteReserves crates t.vsolSol t.vtokensTokens solUsd with
  | error stop =>
      rw [hquote] at h
      cases h
  | ok quote =>
      rw [hquote] at h
      cases h
      rfl

theorem enrichCreate_ts {c : PumpPortalCreate} {at_ : DateTime} {enriched : EnrichedLaunch}
    (h : enrichCreate crates c at_ solUsd = .ok enriched) : enriched.event.ts = at_ := by
  unfold enrichCreate at h
  cases hquote : quoteReserves crates c.vsolSol c.vtokensTokens solUsd with
  | error stop =>
      rw [hquote] at h
      cases h
  | ok quote =>
      rw [hquote] at h
      cases hhold : creatorHold crates c.initialBuyTokens with
      | error stop =>
          rw [hhold] at h
          cases h
      | ok holdPct =>
          rw [hhold] at h
          cases h
          rfl

/-- An event that a line is read as carries the clock of the line. -/
theorem readLine_ts {line : String} {raw : RawFeedEvent} {ev : Event}
    (h : readLine crates solUsd nowWall line = .trade raw (.ok ev) ∨
      readLine crates solUsd nowWall line = .create raw (.ok ev)) : ev.ts = atMillis nowWall := by
  unfold readLine at h
  cases hparse : parseWsLine crates line with
  | malformed => simp [hparse] at h
  | chatter => simp [hparse] at h
  | tradeAttempt v =>
      simp only [hparse] at h
      cases hextract : extractTrade crates v with
      | none => simp [hextract] at h
      | some t =>
          simp only [hextract, Reading.trade.injEq, reduceCtorEq, or_false] at h
          exact enrichTrade_ts h.2
  | createAttempt v =>
      simp only [hparse] at h
      cases hextract : extractCreate crates v with
      | none => simp [hextract] at h
      | some c =>
          simp only [hextract, Reading.create.injEq, reduceCtorEq, false_or] at h
          cases henrich : enrichCreate crates c (atMillis nowWall) solUsd with
          | error stop =>
              rw [henrich] at h
              cases h.2
          | ok enriched =>
              rw [henrich] at h
              cases h.2
              exact enrichCreate_ts henrich

end Readings

/-! ## What a run keeps -/

/-- The messages that fell into one of the six classes. -/
def FeedStats.classified (st : FeedStats) : Nat :=
  st.wsMalformed + st.wsChatter + st.wsTrades + st.creates + st.wsUnparsedTrade +
    st.wsUnparsedCreate

/-- The call archives an event, stamped with the clock of its raw. -/
def ArchiveCall.Stamped (call : ArchiveCall) : Prop :=
  ∃ ev, call.enriched = some ev ∧ ev.ts = atMillis call.raw.atMs

/-- Counters, archive and engine of a feed that started with an engine. -/
structure LiveFeed.Accounted {ε : Type} (onEvent : ε → Event → ε) (engine : ε)
    (s : LiveFeed ε) : Prop where
  stamped : ∀ call ∈ s.archived, call.Stamped
  engine_eq : s.engine = (engineEvents s.archived).foldl onEvent engine

theorem engineEvents_append (calls calls' : List ArchiveCall) :
    engineEvents (calls ++ calls') = engineEvents calls ++ engineEvents calls' :=
  List.filterMap_append

section Frames

variable {ε : Type} {crates : FeedCrates} {onEvent : ε → Event → ε} {solUsd : Decimal}
  {engine : ε} {s : LiveFeed ε} {i : Inbound}

/-- A frame is counted in one class, and archives and trades at most one event; if it
ends the loop, it may be missing from the classes. -/
structure FrameDoes (onEvent : ε → Event → ε) (s s' : LiveFeed ε) (stop : Option ArithStop) :
    Prop where
  classes : s'.stats.classified + s.stats.wsMessages ≤ s.stats.classified + s'.stats.wsMessages ∧
    s.stats.classified + s'.stats.wsMessages ≤ s'.stats.classified + s.stats.wsMessages + 1
  counted : stop = none → s'.stats.classified + s.stats.wsMessages =
    s.stats.classified + s'.stats.wsMessages
  ends : stop ≠ none → s'.archived = s.archived ∧ s'.engine = s.engine
  emits : (s'.archived = s.archived ∧ s'.engine = s.engine) ∨
      ∃ call ev, s'.archived = s.archived ++ [call] ∧ call.enriched = some ev ∧
        ev.ts = atMillis call.raw.atMs ∧ s'.engine = onEvent s.engine ev

/-- A frame that is counted once and brings no event. -/
theorem FrameDoes.of_quiet {s s' : LiveFeed ε} {stop : Option ArithStop}
    (harchived : s'.archived = s.archived) (hengine : s'.engine = s.engine)
    (hmessages : s'.stats.wsMessages = s.stats.wsMessages + 1)
    (hclasses : s'.stats.classified = s.stats.classified + 1 ∨
      stop ≠ none ∧ s'.stats.classified = s.stats.classified) :
    FrameDoes onEvent s s' stop where
  classes := by omega
  counted hstop := by
    rcases hclasses with hone | ⟨hsome, -⟩
    · omega
    · exact absurd hstop hsome
  ends _ := ⟨harchived, hengine⟩
  emits := Or.inl ⟨harchived, hengine⟩

/-- A line that is read as an event. -/
theorem FrameDoes.of_event {s s' : LiveFeed ε} {raw : StampedRawEvent} {ev : Event}
    (harchived : s'.archived = s.archived ++ [⟨raw, some ev⟩]) (hts : ev.ts = atMillis raw.atMs)
    (hengine : s'.engine = onEvent s.engine ev)
    (hmessages : s'.stats.wsMessages = s.stats.wsMessages + 1)
    (hclasses : s'.stats.classified = s.stats.classified + 1) : FrameDoes onEvent s s' none where
  classes := by omega
  counted _ := by omega
  ends h := absurd rfl h
  emits := Or.inr ⟨_, ev, harchived, rfl, hts, hengine⟩

theorem byReading_does (nowWall : Int64) (s : LiveFeed ε) (line : String) (rd : Reading)
    (hts : ∀ raw ev, rd = .trade raw (.ok ev) ∨ rd = .create raw (.ok ev) →
      ev.ts = atMillis nowWall) :
    FrameDoes onEvent s ((s.received line).byReading onEvent nowWall rd).1
      ((s.received line).byReading onEvent nowWall rd).2 := by
  cases rd with
  | malformed =>
      refine .of_quiet rfl rfl rfl (Or.inl ?_)
      simp only [LiveFeed.byReading, LiveFeed.received, FeedStats.classified]
      omega
  | chatter =>
      refine .of_quiet rfl rfl rfl (Or.inl ?_)
      simp only [LiveFeed.byReading, LiveFeed.received, FeedStats.classified]
      omega
  | unparsedTrade =>
      refine .of_quiet rfl rfl rfl (Or.inl ?_)
      simp only [LiveFeed.byReading, LiveFeed.received, FeedStats.classified]
      omega
  | unparsedCreate =>
      refine .of_quiet rfl rfl rfl (Or.inl ?_)
      simp only [LiveFeed.byReading, LiveFeed.received, FeedStats.classified]
      omega
  | trade raw enriched =>
      rcases enriched with ⟨_ | stop⟩ | ev
      · refine .of_quiet rfl rfl rfl (Or.inl ?_)
        simp only [LiveFeed.byReading, LiveFeed.received, FeedStats.classified]
        omega
      · -- the trade is counted only after its enrichment
        exact .of_quiet rfl rfl rfl (Or.inr ⟨by simp [LiveFeed.byReading], rfl⟩)
      · refine .of_event rfl (hts raw ev (Or.inl rfl)) rfl rfl ?_
        simp only [LiveFeed.byReading, LiveFeed.received, FeedStats.classified]
        omega
  | create raw enriched =>
      rcases enriched with ⟨_ | stop⟩ | ev
      · refine .of_quiet rfl rfl rfl (Or.inl ?_)
        simp only [LiveFeed.byReading, LiveFeed.received, FeedStats.classified]
        omega
      · refine .of_quiet rfl rfl rfl (Or.inl ?_)
        simp only [LiveFeed.byReading, LiveFeed.received, FeedStats.classified]
        omega
      · refine .of_event rfl (hts raw ev (Or.inr rfl)) rfl rfl ?_
        simp only [LiveFeed.byReading, LiveFeed.received, FeedStats.classified]
        omega

theorem frame_does (crates : FeedCrates) (onEvent : ε → Event → ε) (solUsd : Decimal)
    (s : LiveFeed ε) (i : Inbound) :
    FrameDoes onEvent s (liveFrame crates onEvent solUsd s i).1
      (liveFrame crates onEvent solUsd s i).2 := by
  obtain ⟨nowWall, line | _⟩ := i
  · show FrameDoes onEvent s (liveText crates onEvent solUsd nowWall s line).1
      (liveText crates onEvent solUsd nowWall s line).2
    rw [liveText_byReading]
    exact byReading_does nowWall s line _ fun _ _ h => readLine_ts h
  · refine .of_quiet rfl rfl rfl (Or.inl ?_)
    simp only [liveFrame, LiveFeed.binary, FeedStats.classified]
    omega

/-- A frame keeps the account. -/
theorem LiveFeed.Accounted.frame {engine : ε} {s s' : LiveFeed ε} {stop : Option ArithStop}
    (h : s.Accounted onEvent engine) (hdoes : FrameDoes onEvent s s' stop) :
    s'.Accounted onEvent engine := by
  rcases hdoes.emits with ⟨hsame, hengine⟩ | ⟨call, ev, hcall, henriched, hts, hengine⟩
  · constructor
    · rw [hsame]
      exact h.stamped
    · rw [hsame, hengine]
      exact h.engine_eq
  · have hevents : engineEvents [call] = [ev] := by simp [engineEvents, henriched]
    constructor
    · rw [hcall]
      intro c hc
      rcases List.mem_append.mp hc with hold | hnew
      · exact h.stamped c hold
      · rw [List.mem_singleton.mp hnew]
        exact ⟨ev, henriched, hts⟩
    · rw [hcall, engineEvents_append, hevents, List.foldl_append, hengine, h.engine_eq]
      rfl

end Frames

/-! ## Message by message -/

namespace Inbound

variable (crates : FeedCrates) (solUsd : Decimal)

def text (i : Inbound) : Option String :=
  match i.frame with
  | .text line => some line
  | .binary => none

/-- What a text is read as. -/
def reading (i : Inbound) : Option Reading :=
  i.text.map fun line => readLine crates solUsd i.nowWall line

/-- The call of the archive that a message makes. -/
def archives (i : Inbound) : List ArchiveCall :=
  match i.reading crates solUsd with
  | some (.trade raw (.ok ev)) => [⟨⟨i.nowWall, raw⟩, some ev⟩]
  | some (.create raw (.ok ev)) => [⟨⟨i.nowWall, raw⟩, some ev⟩]
  | _ => []

/-- A trade that enriches. -/
def isTrade (i : Inbound) : Bool :=
  match i.reading crates solUsd with
  | some (.trade _ (.ok _)) => true
  | _ => false

def isCreate (i : Inbound) : Bool :=
  match i.reading crates solUsd with
  | some (.create _ _) => true
  | _ => false

end Inbound

/-- What a feed has made of the messages it took: one message counted for each, the texts
kept in order, one trade counted for each that enriches, one create for each that is
extracted, and one call of the archive for each of these that enriches. -/
structure LiveFeed.Took {ε : Type} (crates : FeedCrates) (solUsd : Decimal) (s : LiveFeed ε)
    (taken : List Inbound) : Prop where
  messages : s.stats.wsMessages = taken.length
  lines : s.rawLines = taken.filterMap Inbound.text
  archived : s.archived = taken.flatMap (Inbound.archives crates solUsd)
  trades : s.stats.wsTrades = taken.countP (Inbound.isTrade crates solUsd)
  creates : s.stats.creates = taken.countP (Inbound.isCreate crates solUsd)

section Took

variable {ε : Type} {crates : FeedCrates} {onEvent : ε → Event → ε} {solUsd : Decimal}

/-- One more message. -/
theorem LiveFeed.Took.concat {s s' : LiveFeed ε} {taken : List Inbound} {i : Inbound}
    (h : s.Took crates solUsd taken) (hmessages : s'.stats.wsMessages = s.stats.wsMessages + 1)
    (hlines : s'.rawLines = s.rawLines ++ i.text.toList)
    (harchived : s'.archived = s.archived ++ i.archives crates solUsd)
    (htrades : s'.stats.wsTrades = s.stats.wsTrades + if i.isTrade crates solUsd then 1 else 0)
    (hcreates : s'.stats.creates = s.stats.creates + if i.isCreate crates solUsd then 1 else 0) :
    s'.Took crates solUsd (taken ++ [i]) where
  messages := by rw [hmessages, h.messages, List.length_append, List.length_singleton]
  lines := by
    rw [hlines, h.lines, List.filterMap_append]
    cases hi : i.text <;> simp [hi]
  archived := by
    rw [harchived, h.archived, List.flatMap_append, List.flatMap_singleton]
  trades := by rw [htrades, h.trades, List.countP_append, List.countP_singleton]
  creates := by rw [hcreates, h.creates, List.countP_append, List.countP_singleton]

/-- A frame is taken as one message, whatever it is read as. -/
theorem LiveFeed.Took.frame {s : LiveFeed ε} {taken : List Inbound}
    (h : s.Took crates solUsd taken) (i : Inbound) :
    (liveFrame crates onEvent solUsd s i).1.Took crates solUsd (taken ++ [i]) := by
  obtain ⟨nowWall, line | _⟩ := i
  · have hread : (⟨nowWall, .text line⟩ : Inbound).reading crates solUsd =
        some (readLine crates solUsd nowWall line) := rfl
    show (liveText crates onEvent solUsd nowWall s line).1.Took crates solUsd _
    rw [liveText_byReading]
    generalize readLine crates solUsd nowWall line = rd at hread ⊢
    cases rd with
    | malformed =>
        refine h.concat rfl rfl ?_ ?_ ?_ <;>
          simp [LiveFeed.byReading, LiveFeed.received, Inbound.archives, Inbound.isTrade,
            Inbound.isCreate, hread]
    | chatter =>
        refine h.concat rfl rfl ?_ ?_ ?_ <;>
          simp [LiveFeed.byReading, LiveFeed.received, Inbound.archives, Inbound.isTrade,
            Inbound.isCreate, hread]
    | unparsedTrade =>
        refine h.concat rfl rfl ?_ ?_ ?_ <;>
          simp [LiveFeed.byReading, LiveFeed.received, Inbound.archives, Inbound.isTrade,
            Inbound.isCreate, hread]
    | unparsedCreate =>
        refine h.concat rfl rfl ?_ ?_ ?_ <;>
          simp [LiveFeed.byReading, LiveFeed.received, Inbound.archives, Inbound.isTrade,
            Inbound.isCreate, hread]
    | trade raw enriched =>
        rcases enriched with ⟨_ | stop⟩ | ev <;> refine h.concat rfl rfl ?_ ?_ ?_ <;>
          simp [LiveFeed.byReading, LiveFeed.received, Inbound.archives, Inbound.isTrade,
            Inbound.isCreate, hread]
    | create raw enriched =>
        rcases enriched with ⟨_ | stop⟩ | ev <;> refine h.concat rfl rfl ?_ ?_ ?_ <;>
          simp [LiveFeed.byReading, LiveFeed.received, Inbound.archives, Inbound.isTrade,
            Inbound.isCreate, hread]
  · refine h.concat rfl ?_ ?_ ?_ ?_ <;>
      simp [liveFrame, LiveFeed.binary, Inbound.archives, Inbound.isTrade, Inbound.isCreate,
        Inbound.reading, Inbound.text]

end Took

/-! ## Runs of the loop -/

/-- What a loop that started with an engine keeps. -/
structure LoopKeeps {ε : Type} (api : LoopEngine ε) (engine : ε) (s : LiveLoop ε) : Prop where
  account : s.feed.Accounted api.onEvent engine
  most : s.feed.stats.classified ≤ s.feed.stats.wsMessages ∧
    s.feed.stats.wsMessages ≤ s.feed.stats.classified + 1
  all : s.phase ≠ .panicked → s.feed.stats.wsMessages = s.feed.stats.classified
  backoff : 1 ≤ s.backoffSecs ∧ s.backoffSecs ≤ 60
  published : s.feed.archived = [] ∨ s.published = api.snapshot s.feed.engine
  saved : ∀ e, s.saved = some e → ∃ k, k ≤ s.feed.archived.length ∧
    e = (engineEvents (s.feed.archived.take k)).foldl api.onEvent engine

namespace LoopKeeps

variable {ε : Type} {crates : FeedCrates} {api : LoopEngine ε} {args : LiveLoopArgs} {engine : ε}
  {s s' : LiveLoop ε}

/-- Between the frames only the clocks, the link, the phase and the save move. -/
theorem of_feed (h : LoopKeeps api engine s) (hfeed : s'.feed = s.feed)
    (hphase : s'.phase ≠ .panicked → s.phase ≠ .panicked)
    (hbackoff : 1 ≤ s'.backoffSecs ∧ s'.backoffSecs ≤ 60) (hpublished : s'.published = s.published)
    (hsaved : s'.saved = s.saved ∨ s'.saved = some s.feed.engine) : LoopKeeps api engine s' where
  account := by rw [hfeed]; exact h.account
  most := by rw [hfeed]; exact h.most
  all hnot := by rw [hfeed]; exact h.all (hphase hnot)
  backoff := hbackoff
  published := by rw [hfeed, hpublished]; exact h.published
  saved e he := by
    rw [hfeed]
    rcases hsaved with hsame | hnow
    · exact h.saved e (hsame.symm.trans he)
    · obtain rfl := Option.some.inj (hnow.symm.trans he)
      refine ⟨s.feed.archived.length, le_refl _, ?_⟩
      rw [List.take_length]
      exact h.account.engine_eq

theorem saveBook_fields (s : LiveLoop ε) (args : LiveLoopArgs) (saved : Bool) :
    (s.saveBook args saved).feed = s.feed ∧ (s.saveBook args saved).phase = s.phase ∧
      (s.saveBook args saved).backoffSecs = s.backoffSecs ∧
      (s.saveBook args saved).published = s.published ∧
      ((s.saveBook args saved).saved = s.saved ∨
        (s.saveBook args saved).saved = some s.feed.engine) := by
  unfold LiveLoop.saveBook
  cases args.statePath with
  | none => exact ⟨rfl, rfl, rfl, rfl, Or.inl rfl⟩
  | some name =>
      cases saved with
      | true => exact ⟨rfl, rfl, rfl, rfl, Or.inr rfl⟩
      | false => exact ⟨rfl, rfl, rfl, rfl, Or.inl rfl⟩

theorem saveBook (h : LoopKeeps api engine s) (args : LiveLoopArgs) (saved : Bool) :
    LoopKeeps api engine (s.saveBook args saved) := by
  obtain ⟨hfeed, hphase, hbackoff, hpublished, hsaved⟩ := saveBook_fields s args saved
  exact h.of_feed hfeed (by rw [hphase]; exact id) (by rw [hbackoff]; exact h.backoff) hpublished
    hsaved

theorem heard (h : LoopKeeps api engine s) (now : Instant) : LoopKeeps api engine (s.heard now) :=
  h.of_feed rfl id h.backoff rfl (Or.inl rfl)

/-- A loop that is not panicking goes on in another phase. -/
theorem moved (h : LoopKeeps api engine s) (hphase : s.phase ≠ .panicked) (link : Link)
    (phase : LoopPhase) : LoopKeeps api engine { s with link := link, phase := phase } :=
  h.of_feed rfl (fun _ => hphase) h.backoff rfl (Or.inl rfl)

theorem disconnect (h : LoopKeeps api engine s) (hphase : s.phase ≠ .panicked)
    (args : LiveLoopArgs) (saved : Bool) : LoopKeeps api engine (s.disconnect args saved) := by
  refine (h.saveBook args saved).moved ?_ _ _
  rw [(saveBook_fields s args saved).2.1]
  exact hphase

/-- A frame is accounted for, and an event is published. -/
theorem onFrame (h : LoopKeeps api engine s) (hphase : s.phase = .streaming)
    (crates : FeedCrates) (args : LiveLoopArgs) (i : Inbound) (sent : Nat → Bool) :
    LoopKeeps api engine (s.onFrame crates api args i sent) := by
  have hdoes := frame_does crates api.onEvent args.solUsd s.feed i
  have hall := h.all (by rw [hphase]; decide)
  unfold LiveLoop.onFrame
  rcases hframe : liveFrame crates api.onEvent args.solUsd s.feed i with ⟨feed, _ | stop⟩
  · replace hdoes : FrameDoes api.onEvent s.feed feed none := by
      rw [hframe] at hdoes
      exact hdoes
    have haccount := h.account.frame hdoes
    have hcounted := hdoes.counted rfl
    have hclasses := hdoes.classes
    -- an earlier save is a save of a longer archive
    have hsaved : ∀ e, s.saved = some e → ∃ k, k ≤ feed.archived.length ∧
        e = (engineEvents (feed.archived.take k)).foldl api.onEvent engine := by
      intro e he
      obtain ⟨k, hk, rfl⟩ := h.saved e he
      rcases hdoes.emits with ⟨hsame, -⟩ | ⟨call, ev, hcall, -⟩
      · exact ⟨k, by rw [hsame]; exact hk, by rw [hsame]⟩
      · refine ⟨k, by rw [hcall, List.length_append]; omega, ?_⟩
        rw [hcall, List.take_append_of_le_length hk]
    have hkeeps : ∀ published, (feed.archived = [] ∨ published = api.snapshot feed.engine) →
        ∀ link, LoopKeeps api engine
          { s with feed := feed, published := published, link := link } := by
      intro published hpublished link
      refine ⟨haccount, ?_, fun _ => ?_, h.backoff, hpublished, hsaved⟩
      · show feed.stats.classified ≤ feed.stats.wsMessages ∧
          feed.stats.wsMessages ≤ feed.stats.classified + 1
        omega
      · show feed.stats.wsMessages = feed.stats.classified
        omega
    dsimp only
    split
    · exact hkeeps _ (Or.inr rfl) _
    · rename_i hshort
      refine hkeeps s.published ?_ s.link
      rcases hdoes.emits with ⟨hsame, hengine⟩ | ⟨call, ev, hcall, -⟩
      · have hengine' : feed.engine = s.feed.engine := hengine
        rw [hsame, hengine']
        exact h.published
      · have hlonger : s.feed.archived.length < feed.archived.length := by
          rw [hcall, List.length_append, List.length_singleton]
          omega
        exact absurd hlonger hshort
  · replace hdoes : FrameDoes api.onEvent s.feed feed (some stop) := by
      rw [hframe] at hdoes
      exact hdoes
    have hclasses := hdoes.classes
    -- a frame that panics brings no event
    have hquiet := hdoes.ends (by simp)
    refine ⟨h.account.frame hdoes, ?_, fun hnot => absurd rfl hnot, h.backoff, ?_, ?_⟩
    · show feed.stats.classified ≤ feed.stats.wsMessages ∧
        feed.stats.wsMessages ≤ feed.stats.classified + 1
      omega
    · show feed.archived = [] ∨ s.published = api.snapshot feed.engine
      rw [hquiet.1, hquiet.2]
      exact h.published
    · intro e he
      show ∃ k, k ≤ feed.archived.length ∧ _
      rw [hquiet.1]
      exact h.saved e he

theorem step (h : LoopKeeps api engine s) (crates : FeedCrates) (args : LiveLoopArgs)
    (act : LoopAct) : LoopKeeps api engine (s.step crates api args act) := by
  cases act with
  | connect opened creates resubscribed =>
      dsimp only [LiveLoop.step]
      split
      · rename_i hphase
        have hnot : s.phase ≠ .panicked := by rw [hphase]; decide
        split
        · exact h.of_feed rfl (fun _ => hnot) ⟨le_refl 1, Nat.le_of_ble_eq_true rfl⟩ rfl
            (Or.inl rfl)
        · exact h.of_feed rfl (fun _ => hnot) h.backoff rfl (Or.inl rfl)
      · exact h
  | message now msg sent saved =>
      dsimp only [LiveLoop.step]
      split
      · rename_i hphase
        have hheard := h.heard now
        have hphase' : (s.heard now).phase = .streaming := hphase
        cases msg with
        | frame i => exact hheard.onFrame hphase' crates args i sent
        | control => exact hheard
        | closed => exact hheard.disconnect (by rw [hphase']; decide) args saved
      · exact h
  | ended saved =>
      dsimp only [LiveLoop.step]
      split
      · rename_i hphase
        exact h.disconnect (by rw [hphase]; decide) args saved
      · exact h
  | tick saved =>
      dsimp only [LiveLoop.step]
      split
      · exact h.saveBook args saved
      · exact h
  | slept =>
      dsimp only [LiveLoop.step]
      split
      · rename_i hphase
        exact h.of_feed rfl (fun _ => by rw [hphase]; decide) (nextBackoffSecs_within h.backoff) rfl
          (Or.inl rfl)
      · exact h
  | shutdown saved =>
      dsimp only [LiveLoop.step]
      split
      · exact h
      · exact h
      · rename_i hpanicked
        refine (h.saveBook args saved).moved ?_ (s.saveBook args saved).link .stopped
        rw [(saveBook_fields s args saved).2.1]
        exact hpanicked

end LoopKeeps

section Runs

variable {ε : Type}

theorem loop_keeps (crates : FeedCrates) (api : LoopEngine ε) (args : LiveLoopArgs) (engine : ε)
    (published : EngineSnapshot) (acts : List LoopAct) :
    LoopKeeps api engine ((LiveLoop.start args engine published).run crates api args acts) := by
  refine run_invariant (P := LoopKeeps api engine)
    (fun s act (h : LoopKeeps api engine s) => h.step crates args act) ?_ acts
  refine ⟨⟨by simp [LiveLoop.start], rfl⟩, ?_, ?_, ?_,
    Or.inl rfl, fun e he => by cases he⟩
  · exact ⟨le_refl 0, Nat.zero_le 1⟩
  · exact fun _ => rfl
  · exact ⟨le_refl 1, Nat.le_of_ble_eq_true rfl⟩

/-- The message of an act. -/
def LoopAct.inbound : LoopAct → Option Inbound
  | .message _ (.frame i) _ _ => some i
  | _ => none

/-- A step takes the message of its act, or none. -/
theorem LiveLoop.took_step (crates : FeedCrates) (api : LoopEngine ε) (args : LiveLoopArgs)
    {s : LiveLoop ε} {taken : List Inbound} (h : s.feed.Took crates args.solUsd taken)
    (act : LoopAct) :
    ∃ new, new.Sublist act.inbound.toList ∧
      (s.step crates api args act).feed.Took crates args.solUsd (taken ++ new) := by
  have hquiet : ∀ s' : LiveLoop ε, s'.feed = s.feed → ∃ new, new.Sublist act.inbound.toList ∧
      s'.feed.Took crates args.solUsd (taken ++ new) := by
    intro s' hfeed
    refine ⟨[], List.nil_sublist _, ?_⟩
    rw [List.append_nil, hfeed]
    exact h
  have hsaved : ∀ saved, (s.saveBook args saved).feed = s.feed := fun saved =>
    (LoopKeeps.saveBook_fields s args saved).1
  cases act with
  | connect opened creates resubscribed =>
      apply hquiet
      dsimp only [LiveLoop.step]
      split
      · cases opened <;> rfl
      · rfl
  | message now msg sent saved =>
      by_cases hphase : s.phase = .streaming
      · cases msg with
        | frame i =>
            refine ⟨[i], List.Sublist.refl _, ?_⟩
            have hframe : (liveFrame crates api.onEvent args.solUsd s.feed i).1.Took crates
                args.solUsd (taken ++ [i]) := h.frame i
            dsimp only [LiveLoop.step]
            rw [if_pos hphase]
            show ((s.heard now).onFrame crates api args i sent).feed.Took crates args.solUsd _
            have hheard : (s.heard now).feed = s.feed := rfl
            unfold LiveLoop.onFrame
            rw [hheard]
            rcases hlive : liveFrame crates api.onEvent args.solUsd s.feed i with ⟨feed, _ | stop⟩
            · rw [hlive] at hframe
              dsimp only
              split <;> exact hframe
            · rw [hlive] at hframe
              exact hframe
        | control =>
            apply hquiet
            dsimp only [LiveLoop.step]
            rw [if_pos hphase]
            rfl
        | closed =>
            apply hquiet
            dsimp only [LiveLoop.step]
            rw [if_pos hphase]
            exact (LoopKeeps.saveBook_fields (s.heard now) args saved).1
      · apply hquiet
        dsimp only [LiveLoop.step]
        rw [if_neg hphase]
  | ended saved =>
      apply hquiet
      dsimp only [LiveLoop.step]
      split
      · exact hsaved saved
      · rfl
  | tick saved =>
      apply hquiet
      dsimp only [LiveLoop.step]
      split
      · exact hsaved saved
      · rfl
  | slept =>
      apply hquiet
      dsimp only [LiveLoop.step]
      split <;> rfl
  | shutdown saved =>
      apply hquiet
      dsimp only [LiveLoop.step]
      split
      · rfl
      · rfl
      · exact hsaved saved

/-- The messages a run takes are among those that come in, in their order. -/
theorem loop_took (crates : FeedCrates) (api : LoopEngine ε) (args : LiveLoopArgs) (engine : ε)
    (published : EngineSnapshot) (acts : List LoopAct) :
    ∃ taken, taken.Sublist (acts.filterMap LoopAct.inbound) ∧
      ((LiveLoop.start args engine published).run crates api args acts).feed.Took crates
        args.solUsd taken := by
  induction acts using List.reverseRecOn with
  | nil => exact ⟨[], List.Sublist.refl _, rfl, rfl, rfl, rfl, rfl⟩
  | append_singleton acts act ih =>
      obtain ⟨taken, hsub, htook⟩ := ih
      obtain ⟨new, hnew, hstep⟩ := LiveLoop.took_step crates api args htook act
      refine ⟨taken ++ new, ?_, ?_⟩
      · rw [List.filterMap_append]
        refine hsub.append (hnew.trans ?_)
        cases hact : act.inbound <;> simp [hact]
      · unfold LiveLoop.run at hstep ⊢
        rw [List.foldl_append]
        exact hstep

end Runs

/-! ## The engine in the loop -/

/-- An engine, and how many events it has taken: the sweep of each visits the book in an
order of its own. -/
structure Trader (σ : Type) where
  engine : Engine σ
  seen : Nat

namespace Trader

variable {σ : Type} (ex : Executor σ) (orders : Nat → KeyOrder Mint)

def onEvent (t : Trader σ) (ev : Event) : Trader σ :=
  ⟨t.engine.deliver ex ⟨ev, orders t.seen⟩, t.seen + 1⟩

/-- The engine as the loop sees it. -/
def api : LoopEngine (Trader σ) where
  onEvent := onEvent ex orders
  openMints t := t.engine.positions.keys
  snapshot t := t.engine.snapshot

/-- The deliveries of events to a trader that has seen so many. -/
def deliveries : Nat → List Event → List Delivery
  | _, [] => []
  | n, ev :: evs => ⟨ev, orders n⟩ :: deliveries (n + 1) evs

theorem foldl_onEvent (evs : List Event) (t : Trader σ) :
    evs.foldl (onEvent ex orders) t =
      ⟨Engine.run ex t.engine (deliveries orders t.seen evs), t.seen + evs.length⟩ := by
  induction evs generalizing t with
  | nil => rfl
  | cons ev evs ih =>
      rw [List.foldl_cons, ih, deliveries, Engine.run_cons]
      show Trader.mk _ (t.seen + 1 + evs.length) = _
      rw [List.length_cons, Nat.add_assoc, Nat.add_comm 1]
      rfl

/-- A trader that has not seen an event. -/
def new (cfg : Config) (st : σ) (audit : AuditLog) (today : Int) : Trader σ :=
  ⟨Engine.new cfg st audit today, 0⟩

end Trader

/-- The events file of a loop. -/
def LiveLoop.eventsFile {ε : Type} (d : Display) (s : LiveLoop ε) : List Char :=
  archive d s.feed.archived

section Engine

variable {σ : Type}

/-- The engine of the last save is the engine after some of the archived events, and the
others bring it to where the loop's engine is. -/
theorem saved_and_rest {ε : Type} {api : LoopEngine ε} {engine : ε} {s : LiveLoop ε}
    (h : LoopKeeps api engine s) {e : ε} (hsaved : s.saved = some e) :
    ∃ k, e = (engineEvents (s.feed.archived.take k)).foldl api.onEvent engine ∧
      s.feed.engine = (engineEvents (s.feed.archived.drop k)).foldl api.onEvent e := by
  obtain ⟨k, -, rfl⟩ := h.saved e hsaved
  refine ⟨k, rfl, ?_⟩
  rw [← List.foldl_append, ← engineEvents_append, List.take_append_drop]
  exact h.account.engine_eq

/-- Archived under a clock that does not go back, the events are in time order. -/
theorem sorted_of_clock {calls : List ArchiveCall} (hstamped : ∀ call ∈ calls, call.Stamped)
    (hclock : (calls.map fun call => call.raw.atMs.toInt).Pairwise (· ≤ ·)) :
    (engineEvents calls).Pairwise fun a b => a.ts ≤ b.ts := by
  induction calls with
  | nil => exact List.Pairwise.nil
  | cons call rest ih =>
      obtain ⟨hfirst, hrest⟩ := List.pairwise_cons.mp hclock
      have htail := ih (fun c hc => hstamped c (List.mem_cons_of_mem _ hc)) hrest
      obtain ⟨ev, hev, hts⟩ := hstamped call List.mem_cons_self
      rw [engineEvents_cons, hev, Option.toList_some, List.singleton_append, List.pairwise_cons]
      refine ⟨fun b hb => ?_, htail⟩
      obtain ⟨call', hcall', hb'⟩ := List.mem_filterMap.mp hb
      obtain ⟨ev', hev', hts'⟩ := hstamped call' (List.mem_cons_of_mem _ hcall')
      obtain rfl := Option.some.inj (hev'.symm.trans hb')
      have hle : call.raw.atMs.toInt ≤ call'.raw.atMs.toInt :=
        hfirst _ (List.mem_map_of_mem (f := fun call => call.raw.atMs.toInt) hcall')
      rw [hts, hts', atMillis, atMillis]
      exact Int.mul_le_mul_of_nonneg_right hle (by decide)

/-- **The events file replays to the book.**  Over any run of the loop: if the engine
events print and parse back, no raw passes the filter and the wall clock did not go back
between two archived events, then the events file loads, and an engine that starts as the
loop's did and takes the loaded events in turn ends as the loop's. -/
theorem replay_rebuilds (crates : FeedCrates) (ex : Executor σ) (orders : Nat → KeyOrder Mint)
    (args : LiveLoopArgs) (trader : Trader σ) (published : EngineSnapshot) (acts : List LoopAct)
    (d : Display) (parse : Line → Option Event) :
    let s := (LiveLoop.start args trader published).run crates (Trader.api ex orders) args acts
    (∀ ev ∈ engineEvents s.feed.archived, parse (eventLine d ev) = some ev) →
    (∀ call ∈ s.feed.archived, call.passes = false) →
    (s.feed.archived.map fun call => call.raw.atMs.toInt).Pairwise (· ≤ ·) →
    ∃ evs, replayFeed parse (s.eventsFile d) = some evs ∧
      Engine.run ex trader.engine (Trader.deliveries orders trader.seen evs) =
        s.feed.engine.engine := by
  intro s hparse hplain hclock
  have h : LoopKeeps (Trader.api ex orders) trader s :=
    loop_keeps crates (Trader.api ex orders) args trader published acts
  have hsorted := sorted_of_clock h.account.stamped hclock
  have hlines : ((engineEvents s.feed.archived).map (eventLine d)).map parse =
      (engineEvents s.feed.archived).map some := by
    rw [List.map_map]
    exact List.map_congr_left hparse
  refine ⟨engineEvents s.feed.archived, ?_, ?_⟩
  · rw [LiveLoop.eventsFile, replayFeed, selected_of_none_passes d hplain, mapM_eq_some hlines]
    exact congrArg some hsorted.insertionSort_eq
  · have hengine : s.feed.engine =
        (engineEvents s.feed.archived).foldl (Trader.onEvent ex orders) trader :=
      h.account.engine_eq
    rw [hengine, Trader.foldl_onEvent]

/-- Capital is deployed exactly where something is held. -/
theorem deployed_eq_zero_iff {cfg : Config} {e : Engine σ} (h : e.Ledger cfg) :
    0 ≤ e.deployedUsd ∧ (e.deployedUsd = 0 ↔ e.positions.keys.card = 0) := by
  have hnonneg : ∀ book : Book, (∀ mint pos, book.lookup mint = some pos → 0 < pos.costUsd) →
      0 ≤ FiniteMap.total Position.costUsd book := fun book hbook =>
    FiniteMap.total_induction (0 ≤ ·) (fun _ _ hx hy => add_nonneg hx hy) (le_refl 0)
      fun mint pos hpos => (hbook mint pos hpos).le
  have hcost : ∀ mint pos, e.positions.lookup mint = some pos → 0 < pos.costUsd :=
    fun mint pos hpos => (h.held mint pos hpos).2
  rw [h.deployed]
  refine ⟨hnonneg e.positions hcost, ?_⟩
  rw [Finset.card_eq_zero]
  constructor
  · intro hzero
    by_contra hne
    obtain ⟨mint, hmint⟩ := Finset.nonempty_iff_ne_empty.mpr hne
    obtain ⟨pos, hpos⟩ := Option.isSome_iff_exists.mp
      (Finmap.lookup_isSome.mpr (Finmap.mem_keys.mp hmint))
    have hsplit := FiniteMap.total_erase Position.costUsd hpos
    have hrest := hnonneg (e.positions.erase mint) fun m p hp => by
      by_cases hm : m = mint
      · subst hm
        simp at hp
      · rw [Finmap.lookup_erase_ne hm] at hp
        exact hcost m p hp
    have hpaid := hcost mint pos hpos
    linarith
  · intro hempty
    have hbook : e.positions = ∅ := by
      refine Finmap.ext_lookup fun mint => ?_
      rw [Finmap.lookup_empty, Finmap.lookup_eq_none, ← Finmap.mem_keys, hempty]
      exact Finset.notMem_empty mint
    rw [hbook]
    rfl

end Engine

/-! ## A loop with one create -/

namespace Mock

def tokCreate : Json :=
  .object [("mint", .string "TOK"), ("txType", .string "create"),
    ("vSolInBondingCurve", .string "50"), ("vTokensInBondingCurve", .string "1000000000")]

/-- Its text. -/
def tokLine : String :=
  "\x7b\"mint\":\"TOK\",\"txType\":\"create\",\"vSolInBondingCurve\":\"50\"," ++
    "\"vTokensInBondingCurve\":\"1000000000\"\x7d"

/-- A feed that knows this line. -/
def createCrates : FeedCrates :=
  { feedCrates with parseLine := fun line => if line = tokLine then some tokCreate else none }

def loopArgs : LiveLoopArgs := ⟨100, 5, some "live_state.json".toList, 60⟩

/-- The numbers before the first event. -/
def noNumbers : EngineSnapshot := ⟨0, 0, 0, 0, 0, 0, 0, 0, false, 0⟩

/-- A connection, the create, a save, another message and a signal. -/
def loopActs : List LoopAct :=
  [.connect true true true, .message 0 (.frame ⟨0, .text tokLine⟩) (fun _ => true) true,
    .tick true, .message 5000000000 (.frame ⟨5000, .binary⟩) (fun _ => true) true, .shutdown false]

def loopTrader : Trader Unit := .new .paperDefaults () (.opened fun _ => true) 0

/-- The loop after these. -/
def loopRun : LiveLoop (Trader Unit) :=
  (LiveLoop.start loopArgs loopTrader noNumbers).run createCrates
    (Trader.api Executor.oneToken fun _ => .ascending) loopArgs loopActs

/-- The event of the create. -/
def tokLaunch : Event :=
  .launch {
    mint := "TOK"
    launchpad := .pumpFun
    createdAt := 0
    creatorHoldPct := 0
    mintRenounced := false
    isHoneypot := false
    liquidityUsd := 10000
    onCurve := true
    priceUsd := 1 / 200000 }

/-- The decimals and the time that occur in it. -/
def tokDisplay : Display where
  decimal x := if x = 0 then "0" else if x = 10000 then "10000" else "0.000005"
  time _ := "1970-01-01T00:00:00Z"

def parseTok (line : Line) : Option Event :=
  if line = eventLine tokDisplay tokLaunch then some tokLaunch else none

theorem loopRun_events : engineEvents loopRun.feed.archived = [tokLaunch] := by decide +kernel

end Mock

theorem replay_rebuilds_create :
    ∃ evs, replayFeed Mock.parseTok (Mock.loopRun.eventsFile Mock.tokDisplay) = some evs ∧
      Engine.run Executor.oneToken Mock.loopTrader.engine
        (Trader.deliveries (fun _ => .ascending) 0 evs) = Mock.loopRun.feed.engine.engine := by
  refine replay_rebuilds Mock.createCrates Executor.oneToken (fun _ => .ascending) Mock.loopArgs
    Mock.loopTrader Mock.noNumbers Mock.loopActs Mock.tokDisplay Mock.parseTok ?_
    (by decide +kernel) (by decide +kernel)
  intro ev hev
  have hmem : ev ∈ engineEvents Mock.loopRun.feed.archived := hev
  rw [Mock.loopRun_events, List.mem_singleton] at hmem
  rw [hmem]
  simp [Mock.parseTok]

end HfmcBot
