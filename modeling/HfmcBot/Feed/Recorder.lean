import HfmcBot.Feed.WireRange

/-!
# The recorder and the live loop

`run_ws_loop` records the feed, `stream_loop` trades on it; both classify, count and
archive every frame with code of their own.  A panic ends a loop where it stands, and
what is counted and written by then stays.

* `recordText`, `recordFrame`: one turn of the recorder;
* `liveText`, `liveFrame`: one turn of the live loop, also when it is cut short;
* `Reading`: what a line is to either of them;
* `recorder_agrees_iff`: the two leave the same behind exactly if every line that
  extracts also enriches.
-/

namespace HfmcBot

open Foundation

/-! ## The recorder -/

/-- One line of the events file. -/
inductive FeedRecord
  | raw (raw : StampedRawEvent)
  | event (ev : Event)

/-- What a loop leaves behind: the raw file, the counters and the events file. -/
structure Recorder where
  rawLines : List String
  stats : FeedStats
  records : List FeedRecord

namespace Recorder

def received (s : Recorder) (line : String) : Recorder :=
  { s with
    rawLines := s.rawLines ++ [line]
    stats := { s.stats with wsMessages := s.stats.wsMessages + 1 } }

def record (s : Recorder) (r : FeedRecord) : Recorder := { s with records := s.records ++ [r] }

/-- An unexpected frame is counted. -/
def binary (s : Recorder) : Recorder :=
  { s with
    stats := { s.stats with
      wsMessages := s.stats.wsMessages + 1
      wsChatter := s.stats.wsChatter + 1 } }

/-- The typed raw, then the enriched event if there is a rate and it can be made.  A
panic comes after the raw. -/
def typed (s : Recorder) (raw : StampedRawEvent) (enriched : Option (Except EnrichStop Event)) :
    Recorder × Option ArithStop :=
  let s := s.record (.raw raw)
  match enriched with
  | none => (s, none)
  | some (.error .refused) => (s, none)
  | some (.error (.panic stop)) => (s, some stop)
  | some (.ok ev) => (s.record (.event ev), none)

end Recorder

section Record

variable (crates : FeedCrates) (solUsd : Option Decimal) (nowWall : Int64)

def recordTrade (s : Recorder) (v : Json) : Recorder × Option ArithStop :=
  match extractTrade crates v with
  | none =>
      ({ s with stats := { s.stats with wsUnparsedTrade := s.stats.wsUnparsedTrade + 1 } }, none)
  | some t =>
      Recorder.typed { s with stats := { s.stats with wsTrades := s.stats.wsTrades + 1 } }
        ⟨nowWall, rawOfTrade t⟩
        (solUsd.map fun rate => enrichTrade crates t (atMillis nowWall) rate)

def recordCreate (s : Recorder) (v : Json) : Recorder × Option ArithStop :=
  match extractCreate crates v with
  | none =>
      ({ s with stats := { s.stats with wsUnparsedCreate := s.stats.wsUnparsedCreate + 1 } }, none)
  | some c =>
      Recorder.typed { s with stats := { s.stats with creates := s.stats.creates + 1 } }
        ⟨nowWall, rawOfCreate crates c⟩
        (solUsd.map fun rate =>
          (enrichCreate crates c (atMillis nowWall) rate).map EnrichedLaunch.event)

/-- One turn of the recorder on a text line. -/
def recordText (s : Recorder) (line : String) : Recorder × Option ArithStop :=
  let s := s.received line
  match parseWsLine crates line with
  | .malformed => ({ s with stats := { s.stats with wsMalformed := s.stats.wsMalformed + 1 } }, none)
  | .chatter => ({ s with stats := { s.stats with wsChatter := s.stats.wsChatter + 1 } }, none)
  | .tradeAttempt v => recordTrade crates solUsd nowWall s v
  | .createAttempt v => recordCreate crates solUsd nowWall s v

end Record

/-! ## Frames -/

inductive Frame
  | text (line : String)
  | binary

/-- A frame with the wall clock at which it came in. -/
structure Inbound where
  nowWall : Int64
  frame : Frame

def recordFrame (crates : FeedCrates) (solUsd : Option Decimal) (s : Recorder) (i : Inbound) :
    Recorder × Option ArithStop :=
  match i.frame with
  | .text line => recordText crates solUsd i.nowWall s line
  | .binary => (s.binary, none)

/-! ## The live loop -/

/-- The lines that one call of `archive_typed` writes. -/
def ArchiveCall.records (call : ArchiveCall) : List FeedRecord :=
  .raw call.raw :: (call.enriched.map FeedRecord.event).toList

/-- What the live loop leaves behind. -/
def LiveFeed.left {ε : Type} (s : LiveFeed ε) : Recorder where
  rawLines := s.rawLines
  stats := s.stats
  records := s.archived.flatMap ArchiveCall.records

def LiveFeed.binary {ε : Type} (s : LiveFeed ε) : LiveFeed ε :=
  { s with
    stats := { s.stats with
      wsMessages := s.stats.wsMessages + 1
      wsChatter := s.stats.wsChatter + 1 } }

section Live

variable {ε : Type} (crates : FeedCrates) (onEvent : ε → Event → ε) (solUsd : Decimal)

/-- What is in place when the enrichment of a line stops the loop: the line itself, and
the count of a create. -/
def LiveFeed.cutShort (s : LiveFeed ε) (line : String) : LiveFeed ε :=
  let s := s.received line
  match parseWsLine crates line with
  | .createAttempt _ => { s with stats := { s.stats with creates := s.stats.creates + 1 } }
  | _ => s

/-- One turn of the live loop on a text line, with an engine that takes every event. -/
def liveText (nowWall : Int64) (s : LiveFeed ε) (line : String) :
    LiveFeed ε × Option ArithStop :=
  match handleText crates (fun e ev => .ok (onEvent e ev)) solUsd nowWall s line with
  | .ok s' => (s', none)
  | .error stop => (s.cutShort crates line, some stop)

def liveFrame (s : LiveFeed ε) (i : Inbound) : LiveFeed ε × Option ArithStop :=
  match i.frame with
  | .text line => liveText crates onEvent solUsd i.nowWall s line
  | .binary => (s.binary, none)

end Live

/-- A loop goes on until it is stopped. -/
def turn {S : Type} (step : S → Inbound → S × Option ArithStop) :
    S × Option ArithStop → Inbound → S × Option ArithStop
  | (s, none), i => step s i
  | (s, some stop), _ => (s, some stop)

/-- `run_ws_loop` on these frames. -/
def recorderLoop (crates : FeedCrates) (solUsd : Option Decimal) (s : Recorder)
    (frames : List Inbound) : Recorder × Option ArithStop :=
  frames.foldl (turn (recordFrame crates solUsd)) (s, none)

/-- `stream_loop` on these frames. -/
def liveLoop {ε : Type} (crates : FeedCrates) (onEvent : ε → Event → ε) (solUsd : Decimal)
    (s : LiveFeed ε) (frames : List Inbound) : LiveFeed ε × Option ArithStop :=
  frames.foldl (turn (liveFrame crates onEvent solUsd)) (s, none)

/-! ## What a line is to either loop -/

/-- A line as both loops read it: what its fields give, and how its enrichment ends. -/
inductive Reading
  | malformed
  | chatter
  | unparsedTrade
  | unparsedCreate
  | trade (raw : RawFeedEvent) (enriched : Except EnrichStop Event)
  | create (raw : RawFeedEvent) (enriched : Except EnrichStop Event)

def readLine (crates : FeedCrates) (solUsd : Decimal) (nowWall : Int64) (line : String) : Reading :=
  match parseWsLine crates line with
  | .malformed => .malformed
  | .chatter => .chatter
  | .tradeAttempt v =>
      match extractTrade crates v with
      | none => .unparsedTrade
      | some t => .trade (rawOfTrade t) (enrichTrade crates t (atMillis nowWall) solUsd)
  | .createAttempt v =>
      match extractCreate crates v with
      | none => .unparsedCreate
      | some c =>
          .create (rawOfCreate crates c)
            ((enrichCreate crates c (atMillis nowWall) solUsd).map EnrichedLaunch.event)

namespace Reading

/-- What extracts also enriches. -/
def Enriches : Reading → Prop
  | .trade _ enriched => ∃ ev, enriched = .ok ev
  | .create _ enriched => ∃ ev, enriched = .ok ev
  | _ => True

/-- The panic of the enrichment. -/
def stop : Reading → Option ArithStop
  | .trade _ (.error (.panic stop)) => some stop
  | .create _ (.error (.panic stop)) => some stop
  | _ => none

/-- How many lines the recorder writes into the events file. -/
def recorded : Reading → Nat
  | .trade _ (.ok _) => 2
  | .create _ (.ok _) => 2
  | .trade _ (.error _) => 1
  | .create _ (.error _) => 1
  | _ => 0

/-- How many the live loop writes. -/
def archived : Reading → Nat
  | .trade _ (.ok _) => 2
  | .create _ (.ok _) => 2
  | _ => 0

theorem Enriches.stop {rd : Reading} (h : rd.Enriches) : rd.stop = none := by
  cases rd with
  | trade raw enriched =>
      obtain ⟨ev, rfl⟩ := h
      rfl
  | create raw enriched =>
      obtain ⟨ev, rfl⟩ := h
      rfl
  | _ => rfl

theorem archived_le (rd : Reading) : rd.archived ≤ rd.recorded := by
  rcases rd with _ | _ | _ | _ | ⟨raw, _ | ev⟩ | ⟨raw, _ | ev⟩ <;> simp [archived, recorded]

theorem archived_lt {rd : Reading} (h : ¬ rd.Enriches) : rd.archived < rd.recorded := by
  rcases rd with _ | _ | _ | _ | ⟨raw, _ | ev⟩ | ⟨raw, _ | ev⟩ <;>
    simp_all [archived, recorded, Enriches]

end Reading

/-- The recorder on a line, by its reading. -/
def Recorder.byRecorder (nowWall : Int64) (s : Recorder) : Reading → Recorder × Option ArithStop
  | .malformed => ({ s with stats := { s.stats with wsMalformed := s.stats.wsMalformed + 1 } }, none)
  | .chatter => ({ s with stats := { s.stats with wsChatter := s.stats.wsChatter + 1 } }, none)
  | .unparsedTrade =>
      ({ s with stats := { s.stats with wsUnparsedTrade := s.stats.wsUnparsedTrade + 1 } }, none)
  | .unparsedCreate =>
      ({ s with stats := { s.stats with wsUnparsedCreate := s.stats.wsUnparsedCreate + 1 } }, none)
  | .trade raw enriched =>
      Recorder.typed { s with stats := { s.stats with wsTrades := s.stats.wsTrades + 1 } }
        ⟨nowWall, raw⟩ (some enriched)
  | .create raw enriched =>
      Recorder.typed { s with stats := { s.stats with creates := s.stats.creates + 1 } }
        ⟨nowWall, raw⟩ (some enriched)

/-- What the live loop has counted and archived after a line, by its reading: a trade
that does not enrich is counted as unparsed, and neither kind is archived then. -/
def Recorder.byLive (nowWall : Int64) (s : Recorder) : Reading → Recorder × Option ArithStop
  | .malformed => ({ s with stats := { s.stats with wsMalformed := s.stats.wsMalformed + 1 } }, none)
  | .chatter => ({ s with stats := { s.stats with wsChatter := s.stats.wsChatter + 1 } }, none)
  | .unparsedTrade =>
      ({ s with stats := { s.stats with wsUnparsedTrade := s.stats.wsUnparsedTrade + 1 } }, none)
  | .unparsedCreate =>
      ({ s with stats := { s.stats with wsUnparsedCreate := s.stats.wsUnparsedCreate + 1 } }, none)
  | .trade raw (.ok ev) =>
      ({ s with
        stats := { s.stats with wsTrades := s.stats.wsTrades + 1 }
        records := s.records ++ [.raw ⟨nowWall, raw⟩, .event ev] }, none)
  | .trade _ (.error .refused) =>
      ({ s with stats := { s.stats with wsUnparsedTrade := s.stats.wsUnparsedTrade + 1 } }, none)
  | .trade _ (.error (.panic stop)) => (s, some stop)
  | .create raw (.ok ev) =>
      ({ s with
        stats := { s.stats with creates := s.stats.creates + 1 }
        records := s.records ++ [.raw ⟨nowWall, raw⟩, .event ev] }, none)
  | .create _ (.error .refused) =>
      ({ s with stats := { s.stats with creates := s.stats.creates + 1 } }, none)
  | .create _ (.error (.panic stop)) =>
      ({ s with stats := { s.stats with creates := s.stats.creates + 1 } }, some stop)

section Readings

variable {ε : Type} {crates : FeedCrates} {onEvent : ε → Event → ε} {solUsd : Decimal}
  {nowWall : Int64}

theorem recordText_eq (s : Recorder) (line : String) :
    recordText crates (some solUsd) nowWall s line =
      (s.received line).byRecorder nowWall (readLine crates solUsd nowWall line) := by
  unfold recordText readLine
  cases parseWsLine crates line with
  | malformed => rfl
  | chatter => rfl
  | tradeAttempt v =>
      dsimp only
      unfold recordTrade
      cases extractTrade crates v with
      | none => rfl
      | some t => rfl
  | createAttempt v =>
      dsimp only
      unfold recordCreate
      cases extractCreate crates v with
      | none => rfl
      | some c => rfl

/-- An event that is emitted leaves its raw and itself. -/
theorem left_emitted (s : LiveFeed ε) (raw : StampedRawEvent) (ev : Event) (engine : ε) :
    LiveFeed.left { s with archived := s.archived ++ [⟨raw, some ev⟩], engine := engine } =
      { s.left with records := s.left.records ++ [.raw raw, .event ev] } := by
  unfold LiveFeed.left
  dsimp only
  rw [List.flatMap_append]
  rfl

theorem liveText_eq (crates : FeedCrates) (onEvent : ε → Event → ε) (solUsd : Decimal)
    (nowWall : Int64) (s : LiveFeed ε) (line : String) :
    ((liveText crates onEvent solUsd nowWall s line).1.left,
        (liveText crates onEvent solUsd nowWall s line).2) =
      (s.left.received line).byLive nowWall (readLine crates solUsd nowWall line) := by
  unfold liveText handleText readLine LiveFeed.cutShort
  cases parseWsLine crates line with
  | malformed => rfl
  | chatter => rfl
  | tradeAttempt v =>
      dsimp only
      unfold handleTrade
      cases extractTrade crates v with
      | none => rfl
      | some t =>
          dsimp only
          rcases enrichTrade crates t (atMillis nowWall) solUsd with ⟨_ | stop⟩ | ev
          · rfl
          · rfl
          · exact congrArg (fun out : Recorder => (out, (none : Option ArithStop)))
              (left_emitted _ _ _ _)
  | createAttempt v =>
      dsimp only
      unfold handleCreate
      cases extractCreate crates v with
      | none => rfl
      | some c =>
          dsimp only
          rcases enrichCreate crates c (atMillis nowWall) solUsd with ⟨_ | stop⟩ | enriched
          · rfl
          · rfl
          · exact congrArg (fun out : Recorder => (out, (none : Option ArithStop)))
              (left_emitted _ _ _ _)

/-- A line that enriches is the same to both. -/
theorem byRecorder_of_enriches {rd : Reading} (h : rd.Enriches) (s : Recorder) :
    s.byRecorder nowWall rd = s.byLive nowWall rd := by
  cases rd with
  | trade raw enriched =>
      obtain ⟨ev, rfl⟩ := h
      simp [Recorder.byRecorder, Recorder.byLive, Recorder.typed, Recorder.record]
  | create raw enriched =>
      obtain ⟨ev, rfl⟩ := h
      simp [Recorder.byRecorder, Recorder.byLive, Recorder.typed, Recorder.record]
  | _ => rfl

theorem byRecorder_count (nowWall : Int64) (s : Recorder) (rd : Reading) :
    (s.byRecorder nowWall rd).2 = rd.stop ∧
      (s.byRecorder nowWall rd).1.records.length = s.records.length + rd.recorded := by
  rcases rd with _ | _ | _ | _ | ⟨raw, ⟨_ | stop⟩ | ev⟩ | ⟨raw, ⟨_ | stop⟩ | ev⟩ <;>
    simp [Recorder.byRecorder, Recorder.typed, Recorder.record, Reading.stop, Reading.recorded]

theorem byLive_count (nowWall : Int64) (s : Recorder) (rd : Reading) :
    (s.byLive nowWall rd).2 = rd.stop ∧
      (s.byLive nowWall rd).1.records.length = s.records.length + rd.archived := by
  rcases rd with _ | _ | _ | _ | ⟨raw, ⟨_ | stop⟩ | ev⟩ | ⟨raw, ⟨_ | stop⟩ | ev⟩ <;>
    simp [Recorder.byLive, Reading.stop, Reading.archived]

end Readings

/-! ## The two loops side by side -/

/-- If the frame is a line that extracts, it also enriches. -/
def Inbound.Enriches (crates : FeedCrates) (solUsd : Decimal) (i : Inbound) : Prop :=
  match i.frame with
  | .text line => (readLine crates solUsd i.nowWall line).Enriches
  | .binary => True

section Loops

variable {ε : Type} {crates : FeedCrates} {onEvent : ε → Event → ε} {solUsd : Decimal}

/-- A frame that enriches leaves the same behind in both loops, and stops neither. -/
theorem frame_agrees {i : Inbound} (h : i.Enriches crates solUsd) (live : LiveFeed ε) :
    recordFrame crates (some solUsd) live.left i =
        ((liveFrame crates onEvent solUsd live i).1.left, none) ∧
      (liveFrame crates onEvent solUsd live i).2 = none := by
  obtain ⟨nowWall, _ | _⟩ := i
  case text line =>
    have henriches : (readLine crates solUsd nowWall line).Enriches := h
    have hlive := liveText_eq crates onEvent solUsd nowWall live line
    have hstop := (byLive_count nowWall (live.left.received line)
      (readLine crates solUsd nowWall line)).1
    rw [← hlive, henriches.stop] at hstop
    refine ⟨?_, hstop⟩
    show recordText crates (some solUsd) nowWall live.left line = _
    rw [recordText_eq, byRecorder_of_enriches henriches, ← hlive]
    exact Prod.ext rfl hstop
  case binary => exact ⟨rfl, rfl⟩

/-- A frame stops both loops or neither, and the recorder writes at least as many
lines; if the frame does not enrich, more. -/
theorem frame_counts (crates : FeedCrates) (onEvent : ε → Event → ε) (solUsd : Decimal)
    (i : Inbound) (s : Recorder) (live : LiveFeed ε) :
    (recordFrame crates (some solUsd) s i).2 = (liveFrame crates onEvent solUsd live i).2 ∧
      ∃ recorded archived,
        (recordFrame crates (some solUsd) s i).1.records.length = s.records.length + recorded ∧
        (liveFrame crates onEvent solUsd live i).1.left.records.length =
          live.left.records.length + archived ∧
        archived ≤ recorded ∧ (¬ i.Enriches crates solUsd → archived < recorded) := by
  obtain ⟨nowWall, _ | _⟩ := i
  case text line =>
    have hlive := liveText_eq crates onEvent solUsd nowWall live line
    obtain ⟨hstop, hlength⟩ :=
      byLive_count nowWall (live.left.received line) (readLine crates solUsd nowWall line)
    obtain ⟨hstop', hlength'⟩ :=
      byRecorder_count nowWall (s.received line) (readLine crates solUsd nowWall line)
    rw [← hlive] at hstop hlength
    rw [← recordText_eq] at hstop' hlength'
    exact ⟨hstop'.trans hstop.symm, _, _, hlength', hlength, Reading.archived_le _,
      Reading.archived_lt⟩
  case binary => exact ⟨rfl, 0, 0, rfl, rfl, le_refl 0, fun h => absurd trivial h⟩

/-- The states of the two loops after frames that all enrich, or of which some did not. -/
structure SideBySide (enriched : Prop) (r : Recorder × Option ArithStop)
    (l : LiveFeed ε × Option ArithStop) : Prop where
  stop : r.2 = l.2
  agree : enriched → r = (l.1.left, none)
  apart : ¬ enriched → l.1.left.records.length < r.1.records.length

theorem SideBySide.turn {enriched : Prop} {r : Recorder × Option ArithStop}
    {l : LiveFeed ε × Option ArithStop} (h : SideBySide enriched r l) (crates : FeedCrates)
    (onEvent : ε → Event → ε) (solUsd : Decimal) (i : Inbound) :
    SideBySide (enriched ∧ i.Enriches crates solUsd)
      (turn (recordFrame crates (some solUsd)) r i)
      (turn (liveFrame crates onEvent solUsd) l i) := by
  obtain ⟨s, stop⟩ := r
  obtain ⟨live, stop'⟩ := l
  obtain rfl : stop = stop' := h.stop
  cases stop with
  | none =>
      obtain ⟨hstop, recorded, archived, hrecorded, harchived, hle, hlt⟩ :=
        frame_counts crates onEvent solUsd i s live
      refine ⟨hstop, ?_, fun hnot => ?_⟩
      · rintro ⟨hbefore, henriches⟩
        obtain rfl : s = live.left := congrArg Prod.fst (h.agree hbefore)
        exact (frame_agrees henriches live).1
      · show (liveFrame crates onEvent solUsd live i).1.left.records.length <
          (recordFrame crates (some solUsd) s i).1.records.length
        rw [hrecorded, harchived]
        by_cases hbefore : enriched
        · obtain rfl : s = live.left := congrArg Prod.fst (h.agree hbefore)
          have hmore := hlt fun henriches => hnot ⟨hbefore, henriches⟩
          omega
        · have hapart : live.left.records.length < s.records.length := h.apart hbefore
          omega
  | some stop =>
      -- a stopped loop has met a frame that does not enrich
      have hbefore : ¬ enriched := fun hbefore =>
        absurd (congrArg Prod.snd (h.agree hbefore)) (by simp)
      exact ⟨rfl, fun hnow => absurd hnow.1 hbefore, fun _ => h.apart hbefore⟩

theorem loops_sideBySide (crates : FeedCrates) (onEvent : ε → Event → ε) (solUsd : Decimal)
    (live : LiveFeed ε) (frames : List Inbound) :
    SideBySide (∀ i ∈ frames, i.Enriches crates solUsd)
      (recorderLoop crates (some solUsd) live.left frames)
      (liveLoop crates onEvent solUsd live frames) := by
  induction frames using List.reverseRecOn with
  | nil => exact ⟨rfl, fun _ => rfl, fun h => absurd (by simp) h⟩
  | append_singleton frames i ih =>
      have hturn := ih.turn crates onEvent solUsd i
      have hall : (∀ j ∈ frames ++ [i], j.Enriches crates solUsd) ↔
          (∀ j ∈ frames, j.Enriches crates solUsd) ∧ i.Enriches crates solUsd := by
        simp [or_imp, forall_and]
      unfold recorderLoop liveLoop
      rw [List.foldl_append, List.foldl_append, hall]
      exact hturn

end Loops

/-! ## A trade beyond the decimals -/

/-- A buy on a curve with `10³⁰` tokens: a fine double, and no decimal. -/
def vastTrade : Json :=
  .object [("mint", .string "VAST"), ("txType", .string "buy"),
    ("vSolInBondingCurve", .string "30"), ("vTokensInBondingCurve", .string "1e30")]

/-- Its text. -/
def vastLine : String :=
  "\x7b\"mint\":\"VAST\",\"txType\":\"buy\",\"vSolInBondingCurve\":\"30\"," ++
    "\"vTokensInBondingCurve\":\"1e30\"\x7d"

/-- A feed that knows this line. -/
def Mock.tradeCrates : FeedCrates :=
  { Mock.feedCrates with parseLine := fun line => if line = vastLine then some vastTrade else none }

/-- The paper engine, on one event. -/
def Mock.afterPaperEvent (e : Engine Unit) (ev : Event) : Engine Unit :=
  e.onEvent (PaperExecutor.new .paperDefaults).executor .ascending ev

end HfmcBot
