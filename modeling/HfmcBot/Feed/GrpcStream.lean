import HfmcBot.Feed.Transactions
import HfmcBot.Foundation.History

/-!
# The gRPC feed over its runs

`LiveFeed` of `ingest.rs`: it connects with a backoff, applies the updates of the stream, and
hands out buffered events.  A block meta sets the clock, a transaction is decoded and stamped.

* `applyTransaction_counts`: what one transaction does to the buffer and to every counter;
* `Follows`, `Follows.step`: the feed follows the updates it has seen;
* `grpc_feed_accounts`: over every run, each decoded event is handed out or buffered once and
  in order, with the stamp of the clock at its update, or counted as dropped; the counters are
  those of what came; and no stamp is from the future.
-/

namespace HfmcBot

open Foundation

/-! ## Updates and acts -/

/-- An update of the stream, as far as the feed looks at it. -/
inductive FeedUpdate
  | transaction (tx : TxUpdate)
  | blockMeta (slot : UInt64) (blockTime : Option Int64)
  | other

/-- What happens to the feed: a connection attempt, an update, the end of the stream or an
error on it, the end of a pause, and the reader taking an event. -/
inductive GrpcAct
  | connect (opened : Bool)
  | update (u : FeedUpdate)
  | ended
  | slept
  | pop

inductive GrpcPhase
  | connecting
  | streaming
  | waiting
  | panicked
  deriving DecidableEq

/-- The feed in its run, with the updates it has seen and the events it has handed out. -/
structure GrpcFeed where
  feed : TxFeed
  reconnects : Nat
  backoffSecs : Nat
  phase : GrpcPhase
  seen : List FeedUpdate
  popped : List StampedRawEvent

namespace GrpcFeed

/-- `LiveFeed::new`. -/
def new : GrpcFeed where
  feed := ⟨[], .empty, ⟨0, 0, 0, 0, 0⟩⟩
  reconnects := 0
  backoffSecs := 1
  phase := .connecting
  seen := []
  popped := []

/-- `apply_update`; the block time in milliseconds may be beyond the word. -/
def applyUpdate (base58 : List UInt8 → String) (overflowChecks : Bool) (feed : TxFeed) :
    FeedUpdate → Option TxFeed
  | .transaction tx => (feed.applyTransaction base58 tx).toOption
  | .blockMeta slot (some timestamp) =>
      if overflowChecks = true ∧ (timestamp * 1000).toInt ≠ timestamp.toInt * 1000 then none
      else some { feed with clock := feed.clock.insert slot (timestamp * 1000) }
  | .blockMeta _ none => some feed
  | .other => some feed

/-- `pop_raw`, which `next_event` only calls to drop what it gives. -/
def popRaw (s : GrpcFeed) : GrpcFeed :=
  match s.feed.buffer with
  | [] => s
  | raw :: rest =>
      { s with
        feed := { s.feed with buffer := rest }
        popped := s.popped ++ [raw] }

/-- One thing that happens; what cannot happen in a phase changes nothing. -/
def step (base58 : List UInt8 → String) (overflowChecks : Bool) (s : GrpcFeed) :
    GrpcAct → GrpcFeed
  | .connect opened =>
      if s.phase = .connecting then
        { s with
          reconnects := s.reconnects + 1
          backoffSecs := if opened then 1 else s.backoffSecs
          phase := if opened then .streaming else .waiting }
      else s
  | .update u =>
      if s.phase = .streaming then
        match applyUpdate base58 overflowChecks s.feed u with
        | some feed => { s with feed := feed, seen := s.seen ++ [u] }
        | none => { s with phase := .panicked }
      else s
  | .ended => if s.phase = .streaming then { s with phase := .waiting } else s
  | .slept =>
      if s.phase = .waiting then
        { s with
          backoffSecs := min (s.backoffSecs * 2) 60
          phase := .connecting }
      else s
  | .pop => s.popRaw

def run (base58 : List UInt8 → String) (overflowChecks : Bool) (acts : List GrpcAct) : GrpcFeed :=
  acts.foldl (step base58 overflowChecks) new

end GrpcFeed

/-! ## What the updates say -/

/-- The block times among the updates, in milliseconds. -/
def blockTimes (us : List FeedUpdate) : List (UInt64 × Int64) :=
  us.filterMap fun u =>
    match u with
    | .blockMeta slot (some timestamp) => some (slot, timestamp * 1000)
    | _ => none

/-- The events of a transaction, sorted by mint. -/
def TxUpdate.events (base58 : List UInt8 → String) (tx : TxUpdate) : List RawFeedEvent :=
  sortByKey (fun ev => ev.mint) ((tx.produced base58).map fun p => p.2)

/-- Its instructions for the pump program. -/
def TxUpdate.pumps (base58 : List UInt8 → String) (tx : TxUpdate) : List WireIx :=
  pumpIxs (tx.instructions.filterMap (TxFeed.toWire (tx.staticKeys.map base58)))

def FeedUpdate.events (base58 : List UInt8 → String) : FeedUpdate → List RawFeedEvent
  | .transaction tx => tx.events base58
  | _ => []

def FeedUpdate.pumps (base58 : List UInt8 → String) : FeedUpdate → List WireIx
  | .transaction tx => tx.pumps base58
  | _ => []

/-- Events with one stamp, or none without it. -/
def stampAll (stamp : Option Int64) (events : List RawFeedEvent) : List StampedRawEvent :=
  match stamp with
  | some atMs => events.map fun ev => ⟨atMs, ev⟩
  | none => []

/-- The stamped events of an update, by the block times before it. -/
def stampedBy (base58 : List UInt8 → String) (before : List FeedUpdate) :
    FeedUpdate → List StampedRawEvent
  | .transaction tx =>
      stampAll ((SlotClock.filled (blockTimes before)).lookup tx.slot) (tx.events base58)
  | _ => []

/-- The variant of a raw event. -/
inductive RawTag
  | create
  | trade
  | migrate
  | wsTrade
  deriving DecidableEq

def RawKind.tag : RawKind → RawTag
  | .create .. => .create
  | .trade .. => .trade
  | .migrate .. => .migrate
  | .wsTrade .. => .wsTrade

def tagged (tag : RawTag) (raws : List StampedRawEvent) : Nat :=
  raws.countP fun raw => raw.event.kind.tag = tag

/-! ## One transaction -/

/-- The counters of a feed that has stamped these events, dropped so many without a stamp, and
met so many unknown instructions. -/
structure TxFeed.Counts (feed : TxFeed) (raws : List StampedRawEvent) (dropped unknown : Nat) :
    Prop where
  creates : feed.stats.creates = tagged .create raws
  trades : feed.stats.trades = tagged .trade raws
  migrates : feed.stats.migrates = tagged .migrate raws
  dropped : feed.stats.unstampedDropped = dropped
  unknown : feed.stats.unknownIx = unknown

/-- How many of the events a stamp leaves out. -/
def leftOut (stamp : Option Int64) (events : List RawFeedEvent) : Nat :=
  match stamp with
  | some _ => 0
  | none => events.length

theorem length_stampAll_add (stamp : Option Int64) (events : List RawFeedEvent) :
    (stampAll stamp events).length + leftOut stamp events = events.length := by
  cases stamp with
  | some atMs => exact List.length_map _
  | none => exact Nat.zero_add _

section Transaction

variable {feed : TxFeed} {raws : List StampedRawEvent} {dropped unknown : Nat} {slot : UInt64}

/-- One event: it is stamped and counted under its variant, or counted as dropped. -/
theorem TxFeed.Counts.bufferOne (h : feed.Counts raws dropped unknown) {ev : RawFeedEvent}
    (hslot : ev.slot = some slot) (htag : ev.kind.tag ≠ .wsTrade) :
    (TxFeed.bufferOne feed ev).clock = feed.clock ∧
      (TxFeed.bufferOne feed ev).Counts (raws ++ stampAll (feed.clock.lookup slot) [ev])
        (dropped + leftOut (feed.clock.lookup slot) [ev]) unknown := by
  obtain ⟨hcreates, htrades, hmigrates, hdropped, hunknown⟩ := h
  unfold TxFeed.bufferOne
  rw [hslot, Option.bind_some]
  cases feed.clock.lookup slot with
  | none =>
      refine ⟨rfl, ?_, ?_, ?_, ?_, hunknown⟩
      · simpa [stampAll] using hcreates
      · simpa [stampAll] using htrades
      · simpa [stampAll] using hmigrates
      · simpa [leftOut] using hdropped
  | some atMs =>
      obtain ⟨evSlot, mint, kind⟩ := ev
      refine ⟨rfl, ?_⟩
      cases kind with
      | create => constructor <;> simpa [stampAll, leftOut, tagged, RawKind.tag, TxFeedStats.count]
      | trade => constructor <;> simpa [stampAll, leftOut, tagged, RawKind.tag, TxFeedStats.count]
      | migrate =>
          constructor <;> simpa [stampAll, leftOut, tagged, RawKind.tag, TxFeedStats.count]
      | wsTrade => exact absurd rfl htag

theorem stampAll_cons (stamp : Option Int64) (ev : RawFeedEvent) (rest : List RawFeedEvent) :
    stampAll stamp (ev :: rest) = stampAll stamp [ev] ++ stampAll stamp rest := by
  cases stamp <;> rfl

theorem leftOut_cons (stamp : Option Int64) (ev : RawFeedEvent) (rest : List RawFeedEvent) :
    leftOut stamp (ev :: rest) = leftOut stamp [ev] + leftOut stamp rest := by
  cases stamp with
  | some atMs => rfl
  | none => exact Nat.add_comm _ _

/-- The events of one slot, in turn. -/
theorem TxFeed.Counts.foldl (h : feed.Counts raws dropped unknown) {events : List RawFeedEvent}
    (hevents : ∀ ev ∈ events, ev.slot = some slot ∧ ev.kind.tag ≠ .wsTrade) :
    (events.foldl TxFeed.bufferOne feed).clock = feed.clock ∧
      (events.foldl TxFeed.bufferOne feed).Counts
        (raws ++ stampAll (feed.clock.lookup slot) events)
        (dropped + leftOut (feed.clock.lookup slot) events) unknown := by
  induction events generalizing feed raws dropped with
  | nil =>
      refine ⟨rfl, ?_⟩
      cases feed.clock.lookup slot with
      | none => simpa [stampAll, leftOut] using h
      | some atMs => simpa [stampAll, leftOut] using h
  | cons ev rest ih =>
      obtain ⟨hslot, htag⟩ := hevents ev List.mem_cons_self
      obtain ⟨hclock, hone⟩ := h.bufferOne hslot htag
      obtain ⟨hclocks, hrest⟩ := ih hone fun ev' hev => hevents ev' (List.mem_cons_of_mem _ hev)
      rw [hclock] at hrest hclocks
      rw [stampAll_cons, leftOut_cons, ← List.append_assoc, ← Nat.add_assoc]
      exact ⟨hclocks, hrest⟩

end Transaction

theorem Denotes.tag_ne {slot : UInt64} {wire : WireIx} {ev : RawFeedEvent}
    (h : Denotes slot wire ev) : ev.kind.tag ≠ .wsTrade := by
  intro htag
  cases h <;> cases htag

/-- The events of a transaction have its slot, and none comes from the other feed. -/
theorem TxUpdate.events_slot {base58 : List UInt8 → String} {tx : TxUpdate} {ev : RawFeedEvent}
    (h : ev ∈ tx.events base58) : ev.slot = some tx.slot ∧ ev.kind.tag ≠ .wsTrade := by
  unfold TxUpdate.events at h
  rw [mem_sortByKey] at h
  obtain ⟨⟨ix, ev'⟩, hp, rfl⟩ := List.mem_map.mp h
  obtain ⟨wire, -, hdenotes⟩ := TxUpdate.denotes_of_eventOf (TxUpdate.mem_produced.mp hp).2
  exact ⟨hdenotes.slot, hdenotes.tag_ne⟩

/-- A feed with these counts takes a transaction: its events are buffered with the stamp of its
slot, or dropped without one, and its other pump instructions are counted as unknown. -/
def TxFeed.Takes (base58 : List UInt8 → String) (feed : TxFeed) (raws : List StampedRawEvent)
    (dropped unknown : Nat) (tx : TxUpdate) : Prop :=
  ∃ feed' news, feed.applyTransaction base58 tx = .ok feed' ∧ feed'.clock = feed.clock ∧
    feed'.buffer = feed.buffer ++ stampAll (feed.clock.lookup tx.slot) (tx.events base58) ∧
    feed'.Counts (raws ++ stampAll (feed.clock.lookup tx.slot) (tx.events base58))
      (dropped + leftOut (feed.clock.lookup tx.slot) (tx.events base58)) (unknown + news) ∧
    (tx.events base58).length + news = (tx.pumps base58).length

/-- Without instructions nothing happens. -/
theorem TxFeed.takes_nothing {base58 : List UInt8 → String} {feed : TxFeed}
    {raws : List StampedRawEvent} {dropped unknown : Nat}
    (h : feed.Counts raws dropped unknown) {tx : TxUpdate} (hnone : tx.instructions = [])
    (happly : feed.applyTransaction base58 tx = .ok feed) :
    feed.Takes base58 raws dropped unknown tx := by
  have hevents : tx.events base58 = [] := by
    unfold TxUpdate.events
    rw [TxUpdate.produced_eq_nil hnone]
    rfl
  have hpumps : tx.pumps base58 = [] := by
    unfold TxUpdate.pumps
    rw [hnone]
    rfl
  refine ⟨feed, 0, happly, rfl, ?_⟩
  rw [hevents, hpumps]
  cases feed.clock.lookup tx.slot with
  | none => simpa [stampAll, leftOut] using h
  | some atMs => simpa [stampAll, leftOut] using h

theorem TxFeed.applyTransaction_counts (base58 : List UInt8 → String) {feed : TxFeed}
    {raws : List StampedRawEvent} {dropped unknown : Nat}
    (h : feed.Counts raws dropped unknown) (tx : TxUpdate) :
    feed.Takes base58 raws dropped unknown tx := by
  obtain ⟨slot, transaction⟩ := tx
  cases transaction with
  | none => exact takes_nothing h rfl rfl
  | some info =>
      obtain ⟨message, txMeta⟩ := info
      cases message with
      | none => exact takes_nothing h rfl rfl
      | some msg =>
          obtain ⟨outcomes, houtcomes, hhandle⟩ := handleInstructions_eq slot
            (msg.accountKeys.map base58)
            ((compiledIxs msg txMeta).filterMap (toWire (msg.accountKeys.map base58)))
          have hevents : sortByKey (fun ev => ev.mint) (outcomes.filterMap id) =
              TxUpdate.events base58 ⟨slot, some ⟨some msg, txMeta⟩⟩ := by
            rw [houtcomes.events_eq]
            rfl
          have happly : feed.applyTransaction base58 ⟨slot, some ⟨some msg, txMeta⟩⟩ =
              .ok ((TxUpdate.events base58 ⟨slot, some ⟨some msg, txMeta⟩⟩).foldl bufferOne
                { feed with
                  stats :=
                    { feed.stats with
                      unknownIx := feed.stats.unknownIx + outcomes.countP Option.isNone } }) := by
            rw [← hevents]
            unfold applyTransaction
            dsimp only
            rw [hhandle, ok_bind]
            rfl
          have hstart : TxFeed.Counts
              { feed with
                stats :=
                  { feed.stats with
                    unknownIx := feed.stats.unknownIx + outcomes.countP Option.isNone } }
              raws dropped (unknown + outcomes.countP Option.isNone) :=
            ⟨h.creates, h.trades, h.migrates, h.dropped,
              congrArg (· + outcomes.countP Option.isNone) h.unknown⟩
          have hslots : ∀ ev ∈ TxUpdate.events base58 ⟨slot, some ⟨some msg, txMeta⟩⟩,
              ev.slot = some slot ∧ ev.kind.tag ≠ .wsTrade := fun ev hev =>
            TxUpdate.events_slot hev
          obtain ⟨hclock, hcounts⟩ := hstart.foldl hslots
          refine ⟨_, outcomes.countP Option.isNone, happly, hclock, ?_, hcounts, ?_⟩
          · rw [foldl_bufferOne _ fun ev hev => (hslots ev hev).1]
            rfl
          · rw [← hevents, length_sortByKey, length_filterMap_add_countP]
            exact houtcomes.length_eq.symm

/-! ## Runs -/

/-- The feed follows the updates it has seen. -/
structure Follows (base58 : List UInt8 → String) (s : GrpcFeed) : Prop where
  clock : s.feed.clock = .filled (blockTimes s.seen)
  stamped : s.popped ++ s.feed.buffer = given (stampedBy base58) s.seen
  /-- Every event is stamped or dropped, and every other pump instruction is unknown. -/
  counts : ∃ dropped unknown,
    s.feed.Counts (s.popped ++ s.feed.buffer) dropped unknown ∧
      (s.popped ++ s.feed.buffer).length + dropped =
        (s.seen.map fun u => (u.events base58).length).sum ∧
      (s.popped ++ s.feed.buffer).length + dropped + unknown =
        (s.seen.map fun u => (u.pumps base58).length).sum
  backoff : 1 ≤ s.backoffSecs ∧ s.backoffSecs ≤ 60

namespace GrpcFeed

variable {base58 : List UInt8 → String} {overflowChecks : Bool} {s : GrpcFeed}

theorem follows_new : Follows base58 new where
  clock := rfl
  stamped := rfl
  counts := ⟨0, 0, ⟨rfl, rfl, rfl, rfl, rfl⟩, rfl, rfl⟩
  backoff := by decide

/-- An update without events that leaves the buffer and the counters alone. -/
theorem Follows.quiet (h : Follows base58 s) {u : FeedUpdate} {clock : SlotClock}
    (hclock : clock = .filled (blockTimes (s.seen ++ [u])))
    (hstamped : ∀ before, stampedBy base58 before u = []) (hevents : u.events base58 = [])
    (hpumps : u.pumps base58 = []) :
    Follows base58 { s with feed := { s.feed with clock := clock }, seen := s.seen ++ [u] } := by
  obtain ⟨dropped, unknown, hcounts, hsum, hpump⟩ := h.counts
  refine ⟨hclock, ?_, ⟨dropped, unknown, ⟨hcounts.creates, hcounts.trades, hcounts.migrates,
    hcounts.dropped, hcounts.unknown⟩, ?_, ?_⟩, h.backoff⟩
  · dsimp only
    rw [given_concat, hstamped, List.append_nil]
    exact h.stamped
  · rw [List.map_append, List.sum_append]
    simpa [hevents] using hsum
  · rw [List.map_append, List.sum_append]
    simpa [hpumps] using hpump

/-- A transaction. -/
theorem Follows.transaction (h : Follows base58 s) (tx : TxUpdate) :
    ∃ feed, s.feed.applyTransaction base58 tx = .ok feed ∧
      Follows base58 { s with feed := feed, seen := s.seen ++ [.transaction tx] } := by
  obtain ⟨dropped, unknown, hcounts, hsum, hpump⟩ := h.counts
  obtain ⟨feed, news, happly, hclock, hbuffer, hafter, hnews⟩ :=
    TxFeed.applyTransaction_counts base58 hcounts tx
  have hall : s.popped ++ feed.buffer = s.popped ++ s.feed.buffer ++
      stampAll (s.feed.clock.lookup tx.slot) (tx.events base58) := by
    rw [hbuffer, List.append_assoc]
  -- the stamp comes from the block metas before this transaction
  have hlength := length_stampAll_add (s.feed.clock.lookup tx.slot) (tx.events base58)
  refine ⟨feed, happly, ⟨?_, ?_,
    ⟨dropped + leftOut (s.feed.clock.lookup tx.slot) (tx.events base58), unknown + news, ?_, ?_, ?_⟩,
    h.backoff⟩⟩
  · dsimp only
    rw [hclock, h.clock, blockTimes, blockTimes, List.filterMap_append]
    simp
  · dsimp only
    rw [hall, given_concat, h.stamped, h.clock]
    rfl
  · dsimp only
    rw [hall]
    exact hafter
  · dsimp only
    rw [hall, List.map_append, List.sum_append, ← hsum, List.length_append]
    have hthis : ([FeedUpdate.transaction tx].map fun u => (u.events base58).length).sum =
        (tx.events base58).length := by simp [FeedUpdate.events]
    omega
  · dsimp only
    rw [hall, List.map_append, List.sum_append, ← hpump, List.length_append]
    have hthis : ([FeedUpdate.transaction tx].map fun u => (u.pumps base58).length).sum =
        (tx.pumps base58).length := by simp [FeedUpdate.pumps]
    omega

/-- An update that does not stop the process. -/
theorem Follows.update (h : Follows base58 s) {u : FeedUpdate} {feed : TxFeed}
    (happly : applyUpdate base58 overflowChecks s.feed u = some feed) :
    Follows base58 { s with feed := feed, seen := s.seen ++ [u] } := by
  cases u with
  | transaction tx =>
      obtain ⟨feed', happly', hfollows⟩ := Follows.transaction h tx
      simp only [applyUpdate, happly', Except.toOption] at happly
      cases happly
      exact hfollows
  | blockMeta slot blockTime =>
      cases blockTime with
      | none =>
          cases happly
          refine @Follows.quiet _ s h (.blockMeta slot none) s.feed.clock ?_ (fun _ => rfl) rfl rfl
          rw [h.clock, blockTimes, blockTimes, List.filterMap_append]
          simp
      | some timestamp =>
          simp only [applyUpdate] at happly
          split at happly
          · cases happly
          · cases happly
            refine Follows.quiet h (u := .blockMeta slot (some timestamp)) ?_ (fun _ => rfl) rfl
              rfl
            rw [h.clock, blockTimes, blockTimes, List.filterMap_append, SlotClock.filled,
              SlotClock.filled, List.foldl_append]
            rfl
  | other =>
      cases happly
      refine @Follows.quiet _ s h .other s.feed.clock ?_ (fun _ => rfl) rfl rfl
      rw [h.clock, blockTimes, blockTimes, List.filterMap_append]
      simp

/-- The reader takes the oldest event. -/
theorem Follows.popRaw (h : Follows base58 s) : Follows base58 s.popRaw := by
  unfold GrpcFeed.popRaw
  split
  · exact h
  · rename_i raw rest hbuffer
    -- handed out and buffered together stay one list
    have hall : s.popped ++ [raw] ++ rest = s.popped ++ s.feed.buffer := by
      rw [hbuffer, List.append_assoc]
      rfl
    obtain ⟨dropped, unknown, hcounts, hsum, hpump⟩ := h.counts
    refine ⟨h.clock, hall.trans h.stamped, ⟨dropped, unknown, ?_, ?_, ?_⟩, h.backoff⟩
    · dsimp only
      rw [hall]
      exact ⟨hcounts.creates, hcounts.trades, hcounts.migrates, hcounts.dropped, hcounts.unknown⟩
    · dsimp only
      rw [hall]
      exact hsum
    · dsimp only
      rw [hall]
      exact hpump

/-- Everything that happens keeps it. -/
theorem Follows.step (h : Follows base58 s) (act : GrpcAct) :
    Follows base58 (s.step base58 overflowChecks act) := by
  cases act with
  | connect opened =>
      simp only [GrpcFeed.step]
      split
      · refine ⟨h.clock, h.stamped, h.counts, ?_⟩
        cases opened with
        | true => exact ⟨Nat.le_refl 1, by norm_num⟩
        | false => exact h.backoff
      · exact h
  | update u =>
      simp only [GrpcFeed.step]
      split
      · split
        · rename_i feed happly
          exact Follows.update h happly
        · exact ⟨h.clock, h.stamped, h.counts, h.backoff⟩
      · exact h
  | ended =>
      simp only [GrpcFeed.step]
      split
      · exact ⟨h.clock, h.stamped, h.counts, h.backoff⟩
      · exact h
  | slept =>
      simp only [GrpcFeed.step]
      split
      · refine ⟨h.clock, h.stamped, h.counts, ?_⟩
        have hbackoff := h.backoff
        dsimp only
        omega
      · exact h
  | pop => exact Follows.popRaw h

theorem follows_run (base58 : List UInt8 → String) (overflowChecks : Bool)
    (acts : List GrpcAct) : Follows base58 (run base58 overflowChecks acts) := by
  unfold run
  induction acts using List.reverseRecOn with
  | nil => exact follows_new
  | append_singleton acts act ih =>
      rw [List.foldl_append]
      exact Follows.step ih act

end GrpcFeed

/-- A stamp is the time of a block at or below the slot of the event. -/
theorem exists_block_of_stamped {base58 : List UInt8 → String} {us : List FeedUpdate}
    {raw : StampedRawEvent} (h : raw ∈ given (stampedBy base58) us) :
    ∃ slot, raw.event.slot = some slot ∧
      ∃ p ∈ blockTimes us, p.1.toNat ≤ slot.toNat ∧ p.2 = raw.atMs := by
  obtain ⟨before, u, after, rfl, hraw⟩ := exists_of_mem_given _ h
  cases u with
  | blockMeta slot blockTime => cases hraw
  | other => cases hraw
  | transaction tx =>
      simp only [stampedBy, stampAll] at hraw
      split at hraw
      · rename_i atMs hlookup
        obtain ⟨ev, hev, rfl⟩ := List.mem_map.mp hraw
        refine ⟨tx.slot, (TxUpdate.events_slot hev).1, ?_⟩
        obtain ⟨held, hmem, hle, -, hvalue⟩ := (lookupAtMost_eq_some_iff _ _ _).mp hlookup
        rw [(keepsNewest_filled (blockTimes before)).last held hmem] at hvalue
        obtain ⟨p, hp, rfl, rfl⟩ := mem_of_lastInserted hvalue
        refine ⟨p, ?_, hle, rfl⟩
        unfold blockTimes at *
        rw [List.filterMap_append]
        exact List.mem_append_left _ hp
      · cases hraw

/-- Over every run of the feed, with any reconnects, updates and takes: what was handed out
and what is buffered are the decoded events of the updates seen, in order, each stamped by the
clock of the blocks before it; the counters of the variants are those of these events, every
event is there or counted as dropped, and every other pump instruction is counted as unknown;
the backoff stays between one second and a minute; and where block times rise with the slots,
no stamp is later than the time of a block from the event's slot on. -/
theorem grpc_feed_accounts (base58 : List UInt8 → String) (overflowChecks : Bool)
    (acts : List GrpcAct) :
    let s := GrpcFeed.run base58 overflowChecks acts
    let all := s.popped ++ s.feed.buffer
    let stats := s.feed.stats
    all = given (stampedBy base58) s.seen ∧
      stats.creates = tagged .create all ∧ stats.trades = tagged .trade all ∧
      stats.migrates = tagged .migrate all ∧
      all.length + stats.unstampedDropped =
        (s.seen.map fun u => (u.events base58).length).sum ∧
      all.length + stats.unstampedDropped + stats.unknownIx =
        (s.seen.map fun u => (u.pumps base58).length).sum ∧
      1 ≤ s.backoffSecs ∧ s.backoffSecs ≤ 60 ∧
      (TimesRise (blockTimes s.seen) → ∀ raw ∈ all, ∃ slot, raw.event.slot = some slot ∧
        ∀ p ∈ blockTimes s.seen, slot.toNat ≤ p.1.toNat → raw.atMs ≤ p.2) := by
  have h := GrpcFeed.follows_run base58 overflowChecks acts
  obtain ⟨dropped, unknown, hcounts, hsum, hpump⟩ := h.counts
  rw [← hcounts.dropped] at hsum hpump
  rw [← hcounts.unknown] at hpump
  refine ⟨h.stamped, hcounts.creates, hcounts.trades, hcounts.migrates, hsum, hpump,
    h.backoff.1, h.backoff.2, ?_⟩
  intro hrise raw hraw
  rw [h.stamped] at hraw
  obtain ⟨slot, hslot, q, hq, hle, hstamp⟩ := exists_block_of_stamped hraw
  refine ⟨slot, hslot, fun p hp hfrom => ?_⟩
  rw [← hstamp]
  exact hrise q hq p hp (hle.trans hfrom)

end HfmcBot
