import HfmcBot.Feed.Instructions
import HfmcBot.Feed.SlotClock

/-!
# Transactions on the feed

`apply_transaction` of `ingest.rs` turns the account indices of a transaction into keys,
decodes its instructions and buffers the stamped events.  A transaction has more accounts
than its message lists: those of its lookup tables come behind, in the order of the
metadata.  The code looks into the message alone, and reads an index beyond it as the
empty name.

* `TxFeed.applyTransaction_eq`: what a transaction buffers, and which instructions it
  comes from;
* `Names`, `StaticAccounts`: the promise, and where it is kept;
* `buffered_names_iff`: it is kept exactly there.
-/

namespace HfmcBot

open Foundation

/-! ## The transaction -/

/-- An instruction with indices for its program and accounts. -/
structure CompiledIx where
  programIdIndex : UInt32
  accounts : List UInt8
  data : List UInt8

structure TxMessage where
  accountKeys : List (List UInt8)
  instructions : List CompiledIx

/-- The metadata, with the addresses that lookup tables contributed. -/
structure TxMeta where
  innerInstructions : List (List CompiledIx)
  loadedWritable : List (List UInt8)
  loadedReadonly : List (List UInt8)

/-- The message is that of the transaction, if it carries one. -/
structure TxInfo where
  message : Option TxMessage
  txMeta : Option TxMeta

structure TxUpdate where
  slot : UInt64
  transaction : Option TxInfo

/-! ## The feed -/

/-- The counters of `FeedStats` that a transaction moves. -/
structure TxFeedStats where
  creates : Nat
  trades : Nat
  migrates : Nat
  unknownIx : Nat
  unstampedDropped : Nat

/-- `LiveFeed`, as far as a transaction reads and moves it. -/
structure TxFeed where
  buffer : List StampedRawEvent
  clock : SlotClock
  stats : TxFeedStats

def TxFeedStats.count (stats : TxFeedStats) : RawKind → TxFeedStats
  | .create .. => { stats with creates := stats.creates + 1 }
  | .trade .. => { stats with trades := stats.trades + 1 }
  | .migrate .. => { stats with migrates := stats.migrates + 1 }
  | .wsTrade .. => { stats with unknownIx := stats.unknownIx + 1 }

namespace TxFeed

/-- The closure `get`: the key at an index, or nothing. -/
def getKey (keys : List String) (i : Nat) : String := keys[i]?.getD ""

/-- One instruction with its indices resolved; without a program it is left out. -/
def toWire (keys : List String) (ix : CompiledIx) : Option WireIx :=
  if getKey keys ix.programIdIndex.toNat = "" then none
  else some {
    program := getKey keys ix.programIdIndex.toNat
    accounts := ix.accounts.map fun i => getKey keys i.toNat
    data := ix.data }

/-- The top-level instructions, and then the inner ones. -/
def compiledIxs (msg : TxMessage) (txMeta : Option TxMeta) : List CompiledIx :=
  msg.instructions ++
    match txMeta with
    | some txMeta => txMeta.innerInstructions.flatten
    | none => []

/-- Stamp and buffer one event, or drop it. -/
def bufferOne (feed : TxFeed) (ev : RawFeedEvent) : TxFeed :=
  match ev.slot.bind feed.clock.lookup with
  | some atMs =>
      { feed with
        stats := feed.stats.count ev.kind
        buffer := feed.buffer ++ [⟨atMs, ev⟩] }
  | none =>
      { feed with
        stats := { feed.stats with unstampedDropped := feed.stats.unstampedDropped + 1 } }

/-- One transaction.  `base58` is the encoding of keys. -/
def applyTransaction (base58 : List UInt8 → String) (feed : TxFeed) (tx : TxUpdate) :
    Except Panic TxFeed :=
  match tx.transaction with
  | none => .ok feed
  | some info =>
      match info.message with
      | none => .ok feed
      | some msg => do
          let keys := msg.accountKeys.map base58
          let ixs := (compiledIxs msg info.txMeta).filterMap (toWire keys)
          let (events, unknown) ← handleInstructions tx.slot keys ixs
          let feed :=
            { feed with stats := { feed.stats with unknownIx := feed.stats.unknownIx + unknown } }
          pure (events.foldl bufferOne feed)

end TxFeed

/-! ## Where events come from -/

namespace TxUpdate

/-- The keys that the message lists. -/
def staticKeys (tx : TxUpdate) : List (List UInt8) :=
  match tx.transaction.bind fun info => info.message with
  | some msg => msg.accountKeys
  | none => []

/-- All accounts of the transaction: those of the message, then the loaded ones. -/
def accountList (tx : TxUpdate) : List (List UInt8) :=
  tx.staticKeys ++
    match tx.transaction.bind fun info => info.txMeta with
    | some txMeta => txMeta.loadedWritable ++ txMeta.loadedReadonly
    | none => []

/-- All its instructions. -/
def instructions (tx : TxUpdate) : List CompiledIx :=
  match tx.transaction with
  | some ⟨some msg, txMeta⟩ => TxFeed.compiledIxs msg txMeta
  | _ => []

/-- The event that the code makes of an instruction. -/
def eventOf (base58 : List UInt8 → String) (tx : TxUpdate) (ix : CompiledIx) :
    Option RawFeedEvent :=
  (TxFeed.toWire (tx.staticKeys.map base58) ix).bind fun wire =>
    match HfmcBot.eventOf tx.slot wire with
    | .ok o => o
    | .error _ => none

/-- The instructions that give events, each with its event. -/
def produced (base58 : List UInt8 → String) (tx : TxUpdate) : List (CompiledIx × RawFeedEvent) :=
  tx.instructions.filterMap fun ix => (tx.eventOf base58 ix).map fun ev => (ix, ev)

end TxUpdate

/-- The events of the pump instructions are those of all instructions. -/
theorem Outcomes.filterMap_eq {slot : UInt64} {ixs : List WireIx}
    {outcomes : List (Option RawFeedEvent)} (h : Outcomes slot ixs outcomes) :
    outcomes.filterMap id = ixs.filterMap fun wire =>
      match eventOf slot wire with
      | .ok o => o
      | .error _ => none := by
  unfold Outcomes pumpIxs at h
  induction ixs generalizing outcomes with
  | nil =>
      cases h
      rfl
  | cons wire rest ih =>
      obtain ⟨o, hevent, ho⟩ := eventOf_decides slot wire
      by_cases hpump : wire.program = pumpProgram
      · rw [List.filter_cons_of_pos (by simpa using hpump)] at h
        cases h with
        | cons hfirst hrest =>
            rename_i o' outcomes'
            have hsame : o = o' := Option.ext fun ev => (ho ev).trans (hfirst ev).symm
            rw [List.filterMap_cons, List.filterMap_cons, hevent, ih hrest, hsame]
            rfl
      · rw [List.filter_cons_of_neg (by simpa using hpump)] at h
        have hnone : o = none := by
          rw [Option.eq_none_iff_forall_ne_some]
          intro ev hev
          cases (ho ev).mp hev with
          | create hc => exact hpump hc.addressed
          | trade ht => exact hpump ht.addressed
          | migrate hm => exact hpump hm.addressed
        rw [List.filterMap_cons, hevent, hnone]
        exact ih h

namespace TxFeed

/-- Events of one slot are all stamped alike, or all dropped. -/
theorem foldl_bufferOne (events : List RawFeedEvent) {slot : UInt64}
    (hslot : ∀ ev ∈ events, ev.slot = some slot) : ∀ feed : TxFeed,
      (events.foldl bufferOne feed).buffer = feed.buffer ++
        match feed.clock.lookup slot with
        | some atMs => events.map fun ev => ⟨atMs, ev⟩
        | none => [] := by
  induction events with
  | nil =>
      intro feed
      cases feed.clock.lookup slot with
      | none => exact (List.append_nil _).symm
      | some atMs => exact (List.append_nil _).symm
  | cons ev rest ih =>
      intro feed
      have hstep : (bufferOne feed ev).clock = feed.clock ∧
          (bufferOne feed ev).buffer = feed.buffer ++
            match feed.clock.lookup slot with
            | some atMs => [⟨atMs, ev⟩]
            | none => [] := by
        unfold bufferOne
        rw [hslot ev List.mem_cons_self, Option.bind_some]
        cases feed.clock.lookup slot with
        | none => exact ⟨rfl, (List.append_nil _).symm⟩
        | some atMs => exact ⟨rfl, rfl⟩
      rw [List.foldl_cons, ih (fun ev' h => hslot ev' (List.mem_cons_of_mem _ h)), hstep.1,
        hstep.2, List.append_assoc]
      cases feed.clock.lookup slot with
      | none => rfl
      | some atMs => rfl

end TxFeed

theorem TxUpdate.mem_produced {base58 : List UInt8 → String} {tx : TxUpdate} {ix : CompiledIx}
    {ev : RawFeedEvent} :
    (ix, ev) ∈ tx.produced base58 ↔ ix ∈ tx.instructions ∧ tx.eventOf base58 ix = some ev := by
  unfold TxUpdate.produced
  rw [List.mem_filterMap]
  constructor
  · rintro ⟨ix', hix, hev⟩
    obtain ⟨ev', hev', hpair⟩ := Option.map_eq_some_iff.mp hev
    obtain ⟨rfl, rfl⟩ := Prod.mk.inj hpair
    exact ⟨hix, hev'⟩
  · rintro ⟨hix, hev⟩
    exact ⟨ix, hix, by rw [hev]; rfl⟩

/-- What the code makes of an instruction is what the resolved instruction denotes. -/
theorem TxUpdate.denotes_of_eventOf {base58 : List UInt8 → String} {tx : TxUpdate}
    {ix : CompiledIx} {ev : RawFeedEvent} (h : tx.eventOf base58 ix = some ev) :
    ∃ wire, TxFeed.toWire (tx.staticKeys.map base58) ix = some wire ∧
      Denotes tx.slot wire ev := by
  obtain ⟨wire, hwire, hev⟩ := Option.bind_eq_some_iff.mp h
  obtain ⟨o, hevent, ho⟩ := HfmcBot.eventOf_decides tx.slot wire
  rw [hevent] at hev
  exact ⟨wire, hwire, (ho ev).mp hev⟩

theorem Denotes.slot {slot : UInt64} {wire : WireIx} {ev : RawFeedEvent}
    (h : Denotes slot wire ev) : ev.slot = some slot := by
  cases h <;> rfl

theorem TxUpdate.produced_eq_nil {base58 : List UInt8 → String} {tx : TxUpdate}
    (h : tx.instructions = []) : tx.produced base58 = [] := by
  unfold TxUpdate.produced
  rw [h]
  rfl

/-- The events of the resolved instructions are the events that the transaction produces. -/
theorem Outcomes.events_eq {base58 : List UInt8 → String} {slot : UInt64} {msg : TxMessage}
    {txMeta : Option TxMeta} {outcomes : List (Option RawFeedEvent)}
    (h : Outcomes slot ((TxFeed.compiledIxs msg txMeta).filterMap
      (TxFeed.toWire (msg.accountKeys.map base58))) outcomes) :
    outcomes.filterMap id =
      ((TxUpdate.mk slot (some ⟨some msg, txMeta⟩)).produced base58).map fun p => p.2 := by
  rw [h.filterMap_eq, List.filterMap_filterMap]
  unfold TxUpdate.produced
  rw [List.map_filterMap]
  congr 1
  funext ix
  show TxUpdate.eventOf base58 ⟨slot, some ⟨some msg, txMeta⟩⟩ ix = _
  cases TxUpdate.eventOf base58 ⟨slot, some ⟨some msg, txMeta⟩⟩ ix <;> rfl

/-- What a transaction buffers: the events of its instructions, sorted by mint and all
with the stamp of its slot, or none if the slot has no stamp. -/
theorem TxFeed.applyTransaction_eq (base58 : List UInt8 → String) (feed : TxFeed)
    (tx : TxUpdate) :
    ∃ feed', feed.applyTransaction base58 tx = .ok feed' ∧
      feed'.buffer = feed.buffer ++
        match feed.clock.lookup tx.slot with
        | some atMs =>
            (sortByKey (fun ev => ev.mint) ((tx.produced base58).map fun p => p.2)).map
              fun ev => ⟨atMs, ev⟩
        | none => [] := by
  obtain ⟨slot, transaction⟩ := tx
  have hnothing : ∀ tx : TxUpdate, tx.instructions = [] →
      feed.buffer = feed.buffer ++
        match feed.clock.lookup tx.slot with
        | some atMs =>
            (sortByKey (fun ev => ev.mint) ((tx.produced base58).map fun p => p.2)).map
              fun ev => ⟨atMs, ev⟩
        | none => [] := by
    intro tx hnone
    rw [TxUpdate.produced_eq_nil hnone]
    cases feed.clock.lookup tx.slot with
    | none => exact (List.append_nil _).symm
    | some atMs => exact (List.append_nil _).symm
  cases transaction with
  | none => exact ⟨feed, rfl, hnothing ⟨slot, none⟩ rfl⟩
  | some info =>
      obtain ⟨message, txMeta⟩ := info
      cases message with
      | none => exact ⟨feed, rfl, hnothing ⟨slot, some ⟨none, txMeta⟩⟩ rfl⟩
      | some msg =>
          obtain ⟨outcomes, houtcomes, hhandle⟩ := handleInstructions_eq slot
            (msg.accountKeys.map base58)
            ((compiledIxs msg txMeta).filterMap (toWire (msg.accountKeys.map base58)))
          have hevents := houtcomes.events_eq
          have hslot : ∀ ev ∈ sortByKey (fun ev => ev.mint) (outcomes.filterMap id),
              ev.slot = some slot := by
            intro ev hev
            rw [mem_sortByKey, hevents] at hev
            obtain ⟨⟨ix, ev'⟩, hp, rfl⟩ := List.mem_map.mp hev
            obtain ⟨wire, -, hdenotes⟩ :=
              TxUpdate.denotes_of_eventOf (TxUpdate.mem_produced.mp hp).2
            exact hdenotes.slot
          have happly : feed.applyTransaction base58 ⟨slot, some ⟨some msg, txMeta⟩⟩ =
              .ok ((sortByKey (fun ev => ev.mint) (outcomes.filterMap id)).foldl bufferOne
                { feed with
                  stats :=
                    { feed.stats with
                      unknownIx := feed.stats.unknownIx + outcomes.countP Option.isNone } }) := by
            unfold applyTransaction
            dsimp only
            rw [hhandle, ok_bind]
            rfl
          refine ⟨_, happly, ?_⟩
          rw [foldl_bufferOne _ hslot, hevents]

/-! ## The names of the accounts -/

/-- Where an instruction says which mint an event is about. -/
def RawKind.mintIndex : RawKind → Nat
  | .create .. => 0
  | .trade _ _ v2 _ _ => (tradeAccounts v2).1
  | .migrate .. => 2
  | .wsTrade .. => 0

/-- Where it says which curve and which pool, with the names that the event carries. -/
def RawKind.otherNames : RawKind → List (Nat × String)
  | .create bondingCurve _ _ _ _ => [(2, bondingCurve)]
  | .trade bondingCurve _ v2 _ _ => [((tradeAccounts v2).2.1, bondingCurve)]
  | .migrate bondingCurve pool => [(3, bondingCurve), (9, pool)]
  | .wsTrade .. => []

/-- All names of an event, with their places in the instruction. -/
def RawFeedEvent.names (ev : RawFeedEvent) : List (Nat × String) :=
  (ev.kind.mintIndex, ev.mint) :: ev.kind.otherNames

/-- The account that an instruction means by its `i`-th account. -/
def CompiledIx.account (accounts : List (List UInt8)) (ix : CompiledIx) (i : Nat) :
    Option (List UInt8) := ix.accounts[i]?.bind fun j => accounts[j.toNat]?

/-- Every name of the event is the name of the account that the instruction means, and
the mint has a name. -/
structure Names (base58 : List UInt8 → String) (tx : TxUpdate) (ix : CompiledIx)
    (ev : RawFeedEvent) : Prop where
  accounts : ∀ p ∈ ev.names, ∃ key, ix.account tx.accountList p.1 = some key ∧ p.2 = base58 key
  mint : ev.mint ≠ ""

/-- The names an event needs are those of accounts that the message lists; one that is
not may still be right if the account it means has the empty key. -/
structure StaticAccounts (tx : TxUpdate) (ix : CompiledIx) (ev : RawFeedEvent) : Prop where
  mint : ∃ key, ix.account tx.staticKeys ev.kind.mintIndex = some key ∧ key ≠ []
  others : ∀ p ∈ ev.kind.otherNames, (ix.account tx.staticKeys p.1).isSome ∨
    ix.account tx.accountList p.1 = some []

/-- Every event that the transaction buffers names the accounts of its instruction. -/
def NamesAccounts (base58 : List UInt8 → String) (feed : TxFeed) (tx : TxUpdate) : Prop :=
  (feed.clock.lookup tx.slot).isSome → ∀ p ∈ tx.produced base58, Names base58 tx p.1 p.2

/-- The names of an event are the accounts of the instruction that denotes it. -/
theorem Denotes.names {slot : UInt64} {wire : WireIx} {ev : RawFeedEvent}
    (h : Denotes slot wire ev) : ∀ p ∈ ev.names, wire.accounts[p.1]? = some p.2 := by
  cases h with
  | create hc =>
      intro p hp
      simp only [RawFeedEvent.names, createEvent, RawKind.mintIndex, RawKind.otherNames,
        List.mem_cons, List.not_mem_nil, or_false] at hp
      rcases hp with rfl | rfl
      · exact hc.mint
      · exact hc.curve
  | trade ht =>
      intro p hp
      simp only [RawFeedEvent.names, tradeEvent, RawKind.mintIndex, RawKind.otherNames,
        List.mem_cons, List.not_mem_nil, or_false] at hp
      rcases hp with rfl | rfl
      · exact ht.mint
      · exact ht.curve
  | migrate hm =>
      intro p hp
      simp only [RawFeedEvent.names, migrateEvent, RawKind.mintIndex, RawKind.otherNames,
        List.mem_cons, List.not_mem_nil, or_false] at hp
      rcases hp with rfl | rfl | rfl
      · exact hm.mint
      · exact hm.curve
      · exact hm.pool

section Resolve

variable {base58 : List UInt8 → String} {tx : TxUpdate} {ix : CompiledIx}

theorem toWire_accounts {wire : WireIx}
    (h : TxFeed.toWire (tx.staticKeys.map base58) ix = some wire) :
    wire.accounts =
      ix.accounts.map fun j => TxFeed.getKey (tx.staticKeys.map base58) j.toNat := by
  unfold TxFeed.toWire at h
  split_ifs at h
  rw [← Option.some.inj h]

/-- What the code reads at a place of an instruction: the name of the account if the
message lists it, else the empty name. -/
theorem wire_account {wire : WireIx}
    (h : TxFeed.toWire (tx.staticKeys.map base58) ix = some wire) {i : Nat} {name : String}
    (hname : wire.accounts[i]? = some name) :
    (∃ key, ix.account tx.staticKeys i = some key ∧ name = base58 key) ∨
      (ix.account tx.staticKeys i = none ∧ name = "") := by
  rw [toWire_accounts h, List.getElem?_map] at hname
  obtain ⟨j, hj, rfl⟩ := Option.map_eq_some_iff.mp hname
  unfold CompiledIx.account TxFeed.getKey
  rw [hj, Option.bind_some, List.getElem?_map]
  cases tx.staticKeys[j.toNat]? with
  | none => exact Or.inr ⟨rfl, rfl⟩
  | some key => exact Or.inl ⟨key, rfl, rfl⟩

/-- An account that the message lists is the same in the full list. -/
theorem account_accountList {i : Nat} {key : List UInt8}
    (h : ix.account tx.staticKeys i = some key) : ix.account tx.accountList i = some key := by
  obtain ⟨j, hj, hkey⟩ := Option.bind_eq_some_iff.mp h
  obtain ⟨hlt, -⟩ := List.getElem?_eq_some_iff.mp hkey
  unfold CompiledIx.account TxUpdate.accountList
  rw [hj, Option.bind_some, List.getElem?_append_left hlt]
  exact hkey

/-- A name is right exactly if the message lists the account, or the account has the
empty key. -/
theorem name_right_iff (hbase58 : ∀ key, base58 key = "" ↔ key = []) {wire : WireIx}
    (h : TxFeed.toWire (tx.staticKeys.map base58) ix = some wire) {i : Nat} {name : String}
    (hname : wire.accounts[i]? = some name) :
    (∃ key, ix.account tx.accountList i = some key ∧ name = base58 key) ↔
      (ix.account tx.staticKeys i).isSome ∨ ix.account tx.accountList i = some [] := by
  rcases wire_account h hname with ⟨key, hkey, hbase⟩ | ⟨hnone, rfl⟩
  · rw [hkey]
    exact iff_of_true ⟨key, account_accountList hkey, hbase⟩ (Or.inl rfl)
  · rw [hnone]
    constructor
    · rintro ⟨key, hkey, hempty⟩
      rw [(hbase58 key).mp hempty.symm] at hkey
      exact Or.inr hkey
    · rintro (habsent | hkey)
      · exact absurd habsent Bool.false_ne_true
      · exact ⟨[], hkey, ((hbase58 []).mpr rfl).symm⟩

/-- An event that the code makes has the right names exactly if its accounts are static. -/
theorem names_iff_static (hbase58 : ∀ key, base58 key = "" ↔ key = []) {ev : RawFeedEvent}
    (h : tx.eventOf base58 ix = some ev) : Names base58 tx ix ev ↔ StaticAccounts tx ix ev := by
  obtain ⟨wire, hwire, hdenotes⟩ := TxUpdate.denotes_of_eventOf h
  have hnames := hdenotes.names
  have hmint : wire.accounts[ev.kind.mintIndex]? = some ev.mint :=
    hnames (ev.kind.mintIndex, ev.mint) List.mem_cons_self
  constructor
  · rintro ⟨haccounts, hnamed⟩
    constructor
    · rcases wire_account hwire hmint with ⟨key, hkey, hbase⟩ | ⟨-, hempty⟩
      · refine ⟨key, hkey, ?_⟩
        rintro rfl
        exact hnamed (hbase.trans ((hbase58 []).mpr rfl))
      · exact absurd hempty hnamed
    · intro p hp
      have hmem := List.mem_cons_of_mem (ev.kind.mintIndex, ev.mint) hp
      exact (name_right_iff hbase58 hwire (hnames p hmem)).mp (haccounts p hmem)
  · rintro ⟨⟨key, hkey, hne⟩, hothers⟩
    have hright : ev.mint = base58 key := by
      rcases wire_account hwire hmint with ⟨key', hkey', hbase⟩ | ⟨hnone, -⟩
      · rw [hkey] at hkey'
        rw [hbase, Option.some.inj hkey']
      · rw [hkey] at hnone
        exact absurd hnone (by simp)
    constructor
    · intro p hp
      rcases List.mem_cons.mp hp with rfl | hother
      · exact ⟨key, account_accountList hkey, hright⟩
      · exact (name_right_iff hbase58 hwire (hnames p hp)).mpr (hothers p hother)
    · intro hempty
      exact hne ((hbase58 key).mp (hright.symm.trans hempty))

end Resolve

/-- **When feed events name their accounts.**  For every transaction, clock and encoding
of keys: what is buffered are the events of the instructions, sorted and stamped; and
each of them names the accounts its instruction means in the full account list, with a
mint that is not empty, exactly if the slot has no stamp or the accounts that the events
need are listed in the message itself. -/
theorem buffered_names_iff {base58 : List UInt8 → String}
    (hbase58 : ∀ key, base58 key = "" ↔ key = []) (feed : TxFeed) (tx : TxUpdate) :
    (∃ feed', feed.applyTransaction base58 tx = .ok feed' ∧
      feed'.buffer = feed.buffer ++
        match feed.clock.lookup tx.slot with
        | some atMs =>
            (sortByKey (fun ev => ev.mint) ((tx.produced base58).map fun p => p.2)).map
              fun ev => ⟨atMs, ev⟩
        | none => []) ∧
    (NamesAccounts base58 feed tx ↔
      feed.clock.lookup tx.slot = none ∨
        ∀ p ∈ tx.produced base58, StaticAccounts tx p.1 p.2) := by
  refine ⟨feed.applyTransaction_eq base58 tx, ?_⟩
  have hiff : ∀ p ∈ tx.produced base58,
      (Names base58 tx p.1 p.2 ↔ StaticAccounts tx p.1 p.2) := by
    rintro ⟨ix, ev⟩ hp
    exact names_iff_static hbase58 (TxUpdate.mem_produced.mp hp).2
  unfold NamesAccounts
  cases hstamp : feed.clock.lookup tx.slot with
  | none => exact iff_of_true (fun h => absurd h Bool.false_ne_true) (Or.inl rfl)
  | some atMs =>
      constructor
      · intro hnames
        exact Or.inr fun p hp => (hiff p hp).mp (hnames rfl p hp)
      · rintro (hnone | hstatic)
        · exact absurd hnone (by simp)
        · exact fun _ p hp => (hiff p hp).mpr (hstatic p hp)

/-! ## A key behind a lookup table -/

/-- The digits of a number in base 58, the high one first. -/
def base58Digits : Nat → Nat → List Char → List Char
  | 0, _, acc => acc
  | fuel + 1, n, acc =>
      if n = 0 then acc
      else base58Digits fuel (n / 58)
        ("123456789ABCDEFGHJKLMNPQRSTUVWXYZabcdefghijkmnopqrstuvwxyz".toList.getD (n % 58) '1' ::
          acc)

/-- Base 58 as it is documented: a one for each leading zero byte, then the digits of
the number. -/
def bs58 (key : List UInt8) : String :=
  let zeros := key.takeWhile fun b => b == 0
  let number := key.foldl (fun n b => n * 256 + b.toNat) 0
  String.ofList (zeros.map (fun _ => '1') ++ base58Digits (2 * key.length) number [])

theorem base58Digits_ne_nil (fuel n : Nat) {acc : List Char} (h : acc ≠ []) :
    base58Digits fuel n acc ≠ [] := by
  induction fuel generalizing n acc with
  | zero => exact h
  | succ fuel ih =>
      unfold base58Digits
      split
      · exact h
      · exact ih _ (by simp)

theorem foldl_bytes_pos (key : List UInt8) {n : Nat} (h : 0 < n) :
    0 < key.foldl (fun n b => n * 256 + b.toNat) n := by
  induction key generalizing n with
  | nil => exact h
  | cons b rest ih =>
      have hnext : 0 < n * 256 + b.toNat := by omega
      exact ih hnext

/-- Only the empty key has the empty name. -/
theorem bs58_eq_empty_iff (key : List UInt8) : bs58 key = "" ↔ key = [] := by
  constructor
  · intro h
    cases key with
    | nil => rfl
    | cons b rest =>
        have hchars := congrArg String.toList h
        unfold bs58 at hchars
        dsimp only at hchars
        rw [String.toList_ofList] at hchars
        obtain ⟨hzeros, hdigits⟩ := List.append_eq_nil_iff.mp hchars
        by_cases hb : b = 0
        · rw [hb] at hzeros
          exact absurd hzeros (by simp)
        · have hpos : 0 < b.toNat := by
            have hne : b.toNat ≠ 0 := fun hzero => hb (UInt8.toNat_inj.mp hzero)
            omega
          have hstart : 0 < 0 * 256 + b.toNat := by omega
          have hnumber := foldl_bytes_pos rest hstart
          rw [List.foldl_cons, List.length_cons, Nat.mul_add, base58Digits] at hdigits
          rw [if_neg (by omega)] at hdigits
          exact absurd hdigits (base58Digits_ne_nil _ _ (by simp))
  · rintro rfl
    rfl

/-- The key of the pump program. -/
def pumpKey : List UInt8 :=
  [1, 86, 224, 246, 147, 102, 90, 207, 68, 219, 21, 104, 191, 23, 91, 170, 81, 137, 203, 151, 245,
    210, 255, 59, 101, 93, 43, 182, 253, 109, 24, 176]

/-- A buy whose mint and curve are the accounts with the given numbers. -/
def buyIx (mint curve : UInt8) : CompiledIx where
  programIdIndex := 1
  accounts := [0, 0, mint, curve]
  data := buyDisc ++ List.replicate 16 1

/-- A payer and the program in the message, with one account behind each loaded list. -/
def lookupTx (ix : CompiledIx) : TxUpdate where
  slot := 7
  transaction := some {
    message := some {
      accountKeys := [List.replicate 32 9, pumpKey]
      instructions := [ix] }
    txMeta := some {
      innerInstructions := []
      loadedWritable := [List.replicate 32 5]
      loadedReadonly := [List.replicate 32 6] } }

/-- A feed whose clock knows the slot. -/
def stampedFeed : TxFeed where
  buffer := []
  clock := ⟨Finmap.singleton 7 1000⟩
  stats := ⟨0, 0, 0, 0, 0⟩

/-- A buy whose mint and curve both stand in the message. -/
theorem buffered_names_static :
    (∃ feed', stampedFeed.applyTransaction bs58 (lookupTx (buyIx 0 1)) = .ok feed' ∧
      feed'.buffer = stampedFeed.buffer ++
        match stampedFeed.clock.lookup (lookupTx (buyIx 0 1)).slot with
        | some atMs =>
            (sortByKey (fun ev => ev.mint)
              (((lookupTx (buyIx 0 1)).produced bs58).map fun p => p.2)).map
                fun ev => ⟨atMs, ev⟩
        | none => []) ∧
    (NamesAccounts bs58 stampedFeed (lookupTx (buyIx 0 1)) ↔
      stampedFeed.clock.lookup (lookupTx (buyIx 0 1)).slot = none ∨
        ∀ p ∈ (lookupTx (buyIx 0 1)).produced bs58, StaticAccounts (lookupTx (buyIx 0 1)) p.1 p.2) :=
  buffered_names_iff bs58_eq_empty_iff stampedFeed (lookupTx (buyIx 0 1))

/-- A buy whose mint and curve come from a lookup table is buffered with an empty mint. -/
theorem lookup_table_mint_lost :
    bs58 pumpKey = pumpProgram ∧
      ((lookupTx (buyIx 3 2)).produced bs58).map (fun p => p.2.mint) = [""] ∧
      ¬ NamesAccounts bs58 stampedFeed (lookupTx (buyIx 3 2)) := by
  have hmints : ((lookupTx (buyIx 3 2)).produced bs58).map (fun p => p.2.mint) = [""] := by
    decide +kernel
  refine ⟨by decide +kernel, hmints, ?_⟩
  intro hnames
  have hstamped : (stampedFeed.clock.lookup (lookupTx (buyIx 3 2)).slot).isSome = true := by
    decide +kernel
  have hempty : "" ∈ ((lookupTx (buyIx 3 2)).produced bs58).map fun p => p.2.mint := by
    rw [hmints]
    exact List.mem_singleton.mpr rfl
  obtain ⟨p, hp, hmint⟩ := List.mem_map.mp hempty
  exact (hnames hstamped p hp).mint hmint

end HfmcBot
