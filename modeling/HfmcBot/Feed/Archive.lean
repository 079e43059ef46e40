import HfmcBot.Foundation.JsonText
import HfmcBot.Types
import Mathlib.Data.List.Sort

/-!
# The archive and its replay filter

The events file mixes two kinds of lines: raw feed events, and the engine events
made of them.  A replay keeps the lines in which `"type"` occurs, wherever it
occurs.  The recording is that of `ingest.rs` and `liveloop.rs`; how decimals and
times print, and how an engine line is parsed, are left open.

* `recordRaw`, `recordEvent`, `archiveTyped`: the file;
* `readLines`, `selected`, `replayFeed`: the way back;
* `containsType_rawLine_iff`: which raw lines the filter lets through;
* `exact_iff`: when a replay is the live sequence.
-/

namespace HfmcBot

open Foundation Foundation.JsonText

/-! ## Raw events -/

inductive RawKind
  | create (bondingCurve creatorHex name symbol : String) (mayhem : Bool)
  | trade (bondingCurve : String) (buy v2 : Bool) (amountBaseUnits limitQuoteUnits : UInt64)
  | wsTrade (bondingCurve : String) (buy : Bool)
  | migrate (bondingCurve pool : String)

/-- A decoded feed event before enrichment. -/
structure RawFeedEvent where
  slot : Option UInt64
  mint : Mint
  kind : RawKind

/-- A raw event with its wall clock in milliseconds. -/
structure StampedRawEvent where
  atMs : Int64
  event : RawFeedEvent

/-- The members of the kind, tag first. -/
def RawKind.members : RawKind → List Field
  | .create bondingCurve creatorHex name symbol mayhem =>
      [("kind", .str "create"), ("bonding_curve", .str bondingCurve),
        ("creator_hex", .str creatorHex), ("name", .str name), ("symbol", .str symbol),
        ("mayhem", .bool mayhem)]
  | .trade bondingCurve buy v2 amountBaseUnits limitQuoteUnits =>
      [("kind", .str "trade"), ("bonding_curve", .str bondingCurve), ("buy", .bool buy),
        ("v2", .bool v2), ("amount_base_units", .num amountBaseUnits.toNat),
        ("limit_quote_units", .num limitQuoteUnits.toNat)]
  | .wsTrade bondingCurve buy =>
      [("kind", .str "ws_trade"), ("bonding_curve", .str bondingCurve), ("buy", .bool buy)]
  | .migrate bondingCurve pool =>
      [("kind", .str "migrate"), ("bonding_curve", .str bondingCurve), ("pool", .str pool)]

def slotValue : Option UInt64 → Scalar
  | none => .null
  | some slot => .num slot.toNat

/-- `Archived`: the kind is flattened into the record. -/
def StampedRawEvent.members (raw : StampedRawEvent) : List Field :=
  ("at_ms", .num raw.atMs.toInt) :: ("slot", slotValue raw.event.slot) ::
    ("mint", .str raw.event.mint) :: raw.event.kind.members

/-! ## Engine events -/

/-- How decimals and times print. -/
structure Display where
  decimal : Decimal → String
  time : DateTime → String

/-- The members of an engine event, tag first. -/
def Event.members (d : Display) : Event → List Field
  | .launch l =>
      [("type", .str "launch"), ("mint", .str l.mint), ("launchpad", .str l.launchpad.asStr),
        ("created_at", .str (d.time l.createdAt)),
        ("creator_hold_pct", .str (d.decimal l.creatorHoldPct)),
        ("mint_renounced", .bool l.mintRenounced), ("is_honeypot", .bool l.isHoneypot),
        ("liquidity_usd", .str (d.decimal l.liquidityUsd)), ("on_curve", .bool l.onCurve),
        ("price_usd", .str (d.decimal l.priceUsd))]
  | .price p =>
      [("type", .str "price"), ("mint", .str p.mint), ("ts", .str (d.time p.ts)),
        ("price_usd", .str (d.decimal p.priceUsd)),
        ("liquidity_usd", .str (d.decimal p.liquidityUsd))]

/-! ## The file -/

/-- A line without its newline. -/
abbrev Line := List Char

def rawLine (raw : StampedRawEvent) : Line := recordText raw.members

def eventLine (d : Display) (ev : Event) : Line := recordText (ev.members d)

def recordRaw (file : List Char) (raw : StampedRawEvent) : List Char :=
  file ++ (rawLine raw ++ ['\n'])

def recordEvent (d : Display) (file : List Char) (ev : Event) : List Char :=
  file ++ (eventLine d ev ++ ['\n'])

/-- One call of `archive_typed`. -/
structure ArchiveCall where
  raw : StampedRawEvent
  enriched : Option Event

/-- The raw, and its engine event if there is one. -/
def archiveTyped (d : Display) (file : List Char) (call : ArchiveCall) : List Char :=
  match call.enriched with
  | none => recordRaw file call.raw
  | some ev => recordEvent d (recordRaw file call.raw) ev

/-- The file after these calls. -/
def archive (d : Display) (calls : List ArchiveCall) : List Char :=
  calls.foldl (archiveTyped d) []

/-- The engine events of these calls. -/
def engineEvents (calls : List ArchiveCall) : List Event :=
  calls.filterMap fun call => call.enriched

/-! ## The way back -/

/-- A newline may have a carriage return before it. -/
def stripReturn (line : Line) : Line :=
  if line.getLast? = some '\r' then line.dropLast else line

/-- `lines`: split at newlines.  What follows the last one is a line as it stands, if it is
not empty. -/
def readLines (file : List Char) : List Line :=
  let parts := file.splitOn '\n'
  parts.dropLast.map stripReturn ++ parts.getLast?.toList.filter fun last => !last.isEmpty

/-- The word the filter looks for, in double quotes. -/
def typeWord : List Char := ['t', 'y', 'p', 'e']

/-- `l.contains("\"type\"")`. -/
def containsType (line : Line) : Bool := decide (Shows typeWord line)

/-- The lines a replay keeps. -/
def selected (file : List Char) : List Line := (readLines file).filter containsType

/-- `ReplayFeed` over the kept lines: parsed, and sorted by time.  A line that does
not parse ends the replay. -/
def replayFeed (parse : Line → Option Event) (file : List Char) : Option (List Event) :=
  ((selected file).mapM parse).map fun evs => evs.insertionSort fun a b => a.ts ≤ b.ts

/-! ## Lines -/

/-- The lines of one call. -/
def ArchiveCall.lines (d : Display) (call : ArchiveCall) : List Line :=
  rawLine call.raw :: (call.enriched.map (eventLine d)).toList

theorem archiveTyped_eq (d : Display) (file : List Char) (call : ArchiveCall) :
    archiveTyped d file call = file ++ (call.lines d).flatMap fun line => line ++ ['\n'] := by
  unfold archiveTyped ArchiveCall.lines
  cases call.enriched with
  | none => simp [recordRaw]
  | some ev => simp [recordRaw, recordEvent]

theorem archive_eq (d : Display) (calls : List ArchiveCall) :
    archive d calls =
      (calls.flatMap fun call => call.lines d).flatMap fun line => line ++ ['\n'] := by
  have hfrom : ∀ file : List Char, calls.foldl (archiveTyped d) file =
      file ++ (calls.flatMap fun call => call.lines d).flatMap fun line => line ++ ['\n'] := by
    induction calls with
    | nil => simp
    | cons call rest ih =>
        intro file
        rw [List.foldl_cons, ih, archiveTyped_eq]
        simp
  rw [archive, hfrom, List.nil_append]

/-- What is written line by line is read line by line. -/
theorem readLines_flatMap {lines : List Line} (hnewline : ∀ line ∈ lines, '\n' ∉ line)
    (hreturn : ∀ line ∈ lines, line.getLast? ≠ some '\r') :
    readLines (lines.flatMap fun line => line ++ ['\n']) = lines := by
  have hsplit : (lines.flatMap fun line => line ++ ['\n']).splitOn '\n' = lines ++ [[]] := by
    clear hreturn
    induction lines with
    | nil => rfl
    | cons line rest ih =>
        rw [List.flatMap_cons, List.append_assoc, List.singleton_append,
          List.splitOn_append_cons_self_of_not_mem (hnewline line (by simp)), ih]
        · rfl
        · intro l hl
          exact hnewline l (List.mem_cons_of_mem _ hl)
  unfold readLines
  dsimp only
  rw [hsplit, List.dropLast_concat]
  have hstrip : ∀ line ∈ lines, stripReturn line = line := by
    intro line hline
    rw [stripReturn, if_neg (hreturn line hline)]
  rw [List.map_congr_left hstrip]
  simp

theorem mem_lines {d : Display} {call : ArchiveCall} {line : Line} (h : line ∈ call.lines d) :
    ∃ fs, line = recordText fs := by
  rcases List.mem_cons.mp h with rfl | hevent
  · exact ⟨_, rfl⟩
  · obtain ⟨ev, -, rfl⟩ := Option.map_eq_some_iff.mp (Option.mem_toList.mp hevent)
    exact ⟨_, rfl⟩

/-- The archive reads back as the lines that were written. -/
theorem readLines_archive (d : Display) (calls : List ArchiveCall) :
    readLines (archive d calls) = calls.flatMap fun call => call.lines d := by
  rw [archive_eq]
  apply readLines_flatMap
  · intro line hline
    obtain ⟨call, -, hcall⟩ := List.mem_flatMap.mp hline
    obtain ⟨fs, rfl⟩ := mem_lines hcall
    exact newline_notMem_record fs
  · intro line hline
    obtain ⟨call, -, hcall⟩ := List.mem_flatMap.mp hline
    obtain ⟨fs, rfl⟩ := mem_lines hcall
    rw [recordText_getLast?]
    decide

/-! ## What the filter lets through -/

theorem letters_typeWord : Letters typeWord := by
  intro c hc
  simp only [typeWord, List.mem_cons, List.not_mem_nil, or_false] at hc
  rcases hc with rfl | rfl | rfl | rfl <;> decide

/-- A text that looks like the tag once it is quoted: the word itself, or one that
ends in a quote and the word. -/
def LooksTagged (s : String) : Prop := Hits typeWord s.toList

instance (s : String) : Decidable (LooksTagged s) :=
  inferInstanceAs (Decidable (_ ∨ _))

theorem containsType_iff (fs : List Field) :
    containsType (recordText fs) = true ↔ ∃ f ∈ fs, FieldHits typeWord f := by
  rw [containsType, decide_eq_true_iff, shows_record_iff letters_typeWord]

/-- Every engine line passes, whatever its values. -/
theorem containsType_eventLine (d : Display) (ev : Event) :
    containsType (eventLine d ev) = true := by
  rw [eventLine, containsType_iff]
  have htag : LooksTagged "type" := by decide
  cases ev with
  | launch l => exact ⟨_, List.mem_cons_self, Or.inl htag⟩
  | price p => exact ⟨_, List.mem_cons_self, Or.inl htag⟩

def RawKind.strings : RawKind → List String
  | .create bondingCurve creatorHex name symbol _ => [bondingCurve, creatorHex, name, symbol]
  | .trade bondingCurve _ _ _ _ => [bondingCurve]
  | .wsTrade bondingCurve _ => [bondingCurve]
  | .migrate bondingCurve pool => [bondingCurve, pool]

/-- The strings of a raw event that come from outside. -/
def StampedRawEvent.strings (raw : StampedRawEvent) : List String :=
  raw.event.mint :: raw.event.kind.strings

/-- The member names and tags of the raw records. -/
def rawNames : List String :=
  ["at_ms", "slot", "mint", "kind", "create", "trade", "ws_trade", "migrate", "bonding_curve",
    "creator_hex", "name", "symbol", "mayhem", "buy", "v2", "amount_base_units",
    "limit_quote_units", "pool"]

theorem rawNames_plain : ∀ name ∈ rawNames, ¬ LooksTagged name := by decide

/-- No member of a raw record passes by its name. -/
theorem members_names (raw : StampedRawEvent) : ∀ f ∈ raw.members, f.1 ∈ rawNames := by
  unfold StampedRawEvent.members
  cases raw.event.kind with
  | create bondingCurve creatorHex name symbol mayhem => simp [RawKind.members, rawNames]
  | trade bondingCurve buy v2 amountBaseUnits limitQuoteUnits => simp [RawKind.members, rawNames]
  | wsTrade bondingCurve buy => simp [RawKind.members, rawNames]
  | migrate bondingCurve pool => simp [RawKind.members, rawNames]

/-- The values that can pass are the strings from outside. -/
theorem values_hit_iff (raw : StampedRawEvent) :
    (∃ f ∈ raw.members, f.2.Hits typeWord) ↔ ∃ s ∈ raw.strings, LooksTagged s := by
  have htag : ∀ name ∈ rawNames, ¬ Scalar.Hits typeWord (.str name) := rawNames_plain
  have hslot : ¬ (slotValue raw.event.slot).Hits typeWord := by
    cases raw.event.slot with
    | none => exact id
    | some slot => exact id
  have hnum : ∀ n, ¬ (Scalar.num n).Hits typeWord := fun _ => id
  have hbool : ∀ b, ¬ (Scalar.bool b).Hits typeWord := fun _ => id
  have hstr : ∀ s, (Scalar.str s).Hits typeWord ↔ LooksTagged s := fun _ => Iff.rfl
  unfold StampedRawEvent.members StampedRawEvent.strings
  cases raw.event.kind with
  | create bondingCurve creatorHex name symbol mayhem =>
      simp [RawKind.members, RawKind.strings, hslot, hnum, hbool, hstr,
        rawNames_plain "create" (by simp [rawNames])]
  | trade bondingCurve buy v2 amountBaseUnits limitQuoteUnits =>
      simp [RawKind.members, RawKind.strings, hslot, hnum, hbool, hstr,
        rawNames_plain "trade" (by simp [rawNames])]
  | wsTrade bondingCurve buy =>
      simp [RawKind.members, RawKind.strings, hslot, hnum, hbool, hstr,
        rawNames_plain "ws_trade" (by simp [rawNames])]
  | migrate bondingCurve pool =>
      simp [RawKind.members, RawKind.strings, hslot, hnum, hstr,
        rawNames_plain "migrate" (by simp [rawNames])]

/-- A raw line passes exactly if one of its strings looks like the tag. -/
theorem containsType_rawLine_iff (raw : StampedRawEvent) :
    containsType (rawLine raw) = true ↔ ∃ s ∈ raw.strings, LooksTagged s := by
  rw [rawLine, containsType_iff, ← values_hit_iff]
  constructor
  · rintro ⟨f, hf, hname | hvalue⟩
    · exact absurd hname (rawNames_plain _ (members_names raw f hf))
    · exact ⟨f, hf, hvalue⟩
  · rintro ⟨f, hf, hvalue⟩
    exact ⟨f, hf, Or.inr hvalue⟩

/-! ## Replays -/

/-- The raw line of this call passes. -/
def ArchiveCall.passes (call : ArchiveCall) : Bool := containsType (rawLine call.raw)

/-- What the filter keeps of one call: its engine line, and perhaps its raw line. -/
theorem filter_lines (d : Display) (call : ArchiveCall) :
    (call.lines d).filter containsType =
      (if call.passes then [rawLine call.raw] else []) ++
        (call.enriched.map (eventLine d)).toList := by
  have hevent : (call.enriched.map (eventLine d)).toList.filter containsType =
      (call.enriched.map (eventLine d)).toList := by
    cases call.enriched with
    | none => rfl
    | some ev => simp [containsType_eventLine]
  unfold ArchiveCall.lines ArchiveCall.passes
  cases hraw : containsType (rawLine call.raw) with
  | true => rw [List.filter_cons_of_pos hraw, hevent]; rfl
  | false => rw [List.filter_cons_of_neg (by simp [hraw]), hevent]; rfl

theorem selected_archive (d : Display) (calls : List ArchiveCall) :
    selected (archive d calls) = calls.flatMap fun call =>
      (if call.passes then [rawLine call.raw] else []) ++
        (call.enriched.map (eventLine d)).toList := by
  rw [selected, readLines_archive, List.filter_flatMap]
  congr 1
  funext call
  exact filter_lines d call

theorem engineEvents_cons (call : ArchiveCall) (rest : List ArchiveCall) :
    engineEvents (call :: rest) = call.enriched.toList ++ engineEvents rest := by
  rw [engineEvents, List.filterMap_cons]
  cases call.enriched with
  | none => rfl
  | some ev => rfl

/-- The filter keeps one line for each engine event, and one for each raw that
passes. -/
theorem length_selected (d : Display) (calls : List ArchiveCall) :
    (selected (archive d calls)).length =
      (engineEvents calls).length + calls.countP fun call => call.passes := by
  rw [selected_archive]
  induction calls with
  | nil => rfl
  | cons call rest ih =>
      rw [List.flatMap_cons, List.length_append, ih, List.countP_cons, engineEvents_cons,
        List.length_append, List.length_append]
      have hevent : (call.enriched.map (eventLine d)).toList.length =
          call.enriched.toList.length := by
        cases call.enriched with
        | none => rfl
        | some ev => rfl
      have hraw : (if call.passes then [rawLine call.raw] else []).length =
          if call.passes then 1 else 0 := by
        cases call.passes with
        | true => rfl
        | false => rfl
      rw [hevent, hraw]
      omega

/-- Where no raw passes, the filter keeps the engine lines. -/
theorem selected_of_none_passes (d : Display) {calls : List ArchiveCall}
    (h : ∀ call ∈ calls, call.passes = false) :
    selected (archive d calls) = (engineEvents calls).map (eventLine d) := by
  rw [selected_archive]
  induction calls with
  | nil => rfl
  | cons call rest ih =>
      have hcall := h call (by simp)
      rw [List.flatMap_cons, ih fun c hc => h c (List.mem_cons_of_mem _ hc), hcall,
        engineEvents_cons, List.map_append]
      cases call.enriched with
      | none => rfl
      | some ev => rfl

theorem mapM_eq_some {α β : Type} {f : α → Option β} {as : List α} {bs : List β}
    (h : as.map f = bs.map some) : as.mapM f = some bs := by
  induction as generalizing bs with
  | nil =>
      cases bs with
      | nil => rfl
      | cons b bs => simp at h
  | cons a as ih =>
      cases bs with
      | nil => simp at h
      | cons b bs =>
          obtain ⟨hhead, htail⟩ := List.cons.inj h
          rw [List.mapM_cons, hhead, ih htail]
          rfl

/-- The archive replays exactly: the filter keeps the lines of the engine events, in
order, each parses back to its event, and the replay feed is the live sequence. -/
structure Exact (d : Display) (parse : Line → Option Event) (calls : List ArchiveCall) : Prop where
  selected : selected (archive d calls) = (engineEvents calls).map (eventLine d)
  parsed : (HfmcBot.selected (archive d calls)).map parse = (engineEvents calls).map some
  replayed : replayFeed parse (archive d calls) = some (engineEvents calls)

/-- **When a replay is exact.**  If the engine events of an archive print and parse
back, its replay is exact precisely if no string of a raw event looks like the tag
and the engine events were archived in time order. -/
theorem exact_iff (d : Display) (parse : Line → Option Event) (calls : List ArchiveCall)
    (hround : ∀ ev ∈ engineEvents calls, parse (eventLine d ev) = some ev) :
    Exact d parse calls ↔
      (∀ call ∈ calls, ∀ s ∈ call.raw.strings, ¬ LooksTagged s) ∧
        (engineEvents calls).Pairwise fun a b => a.ts ≤ b.ts := by
  have hplain : (∀ call ∈ calls, ∀ s ∈ call.raw.strings, ¬ LooksTagged s) ↔
      ∀ call ∈ calls, call.passes = false := by
    apply forall₂_congr
    intro call _
    rw [← Bool.not_eq_true, ArchiveCall.passes, containsType_rawLine_iff]
    simp
  have hparse : ((engineEvents calls).map (eventLine d)).map parse =
      (engineEvents calls).map some := by
    rw [List.map_map]
    exact List.map_congr_left hround
  rw [hplain]
  constructor
  · intro h
    constructor
    · -- one line too many for each raw that passes
      have hlength := length_selected d calls
      rw [h.selected, List.length_map] at hlength
      have hnone : calls.countP (fun call => call.passes) = 0 := by omega
      intro call hcall
      simpa using List.countP_eq_zero.mp hnone call hcall
    · -- the feed sorts stably, so it keeps an order only if it is sorted
      have hreplayed := h.replayed
      rw [replayFeed, h.selected, mapM_eq_some hparse] at hreplayed
      have hsorted := List.pairwise_insertionSort (fun a b : Event => a.ts ≤ b.ts)
        (engineEvents calls)
      have hsame : (engineEvents calls).insertionSort (fun a b => a.ts ≤ b.ts) =
          engineEvents calls := Option.some.inj hreplayed
      rw [hsame] at hsorted
      exact hsorted
  · rintro ⟨hnone, hsorted⟩
    have hselected := selected_of_none_passes d hnone
    constructor
    · exact hselected
    · rw [hselected]
      exact hparse
    · rw [replayFeed, hselected, mapM_eq_some hparse]
      exact congrArg some hsorted.insertionSort_eq

/-! ## A token called type -/

namespace Mock

/-- The launch of a create at the epoch. -/
def launchEvent : Event :=
  .launch {
    mint := "MintA"
    launchpad := .pumpFun
    createdAt := 0
    creatorHoldPct := 0
    mintRenounced := true
    isHoneypot := false
    liquidityUsd := 8000
    onCurve := true
    priceUsd := 1 / 1000 }

/-- A trade of the token one second later. -/
def tradeEvent : Event :=
  .price {
    mint := "MintA"
    ts := 1000000000
    priceUsd := 1 / 1000
    liquidityUsd := 8000 }

/-- The decimals and the times that occur in them. -/
def display : Display where
  decimal x := if x = 0 then "0" else if x = 8000 then "8000" else "0.001"
  time t := if t = 0 then "1970-01-01T00:00:00Z" else "1970-01-01T00:00:01Z"

/-- The parser, on their lines. -/
def parseEvent (line : Line) : Option Event :=
  if line = eventLine display launchEvent then some launchEvent
  else if line = eventLine display tradeEvent then some tradeEvent
  else none

/-- The archive call of the create, for a token with this symbol. -/
def createCall (symbol : String) : ArchiveCall where
  raw := {
    atMs := 0
    event := {
      slot := none
      mint := "MintA"
      kind := .create "CurveA" "0b" "Token" symbol false } }
  enriched := some launchEvent

/-- The archive call of the trade. -/
def tradeCall : ArchiveCall where
  raw := {
    atMs := 1000
    event := {
      slot := none
      mint := "MintA"
      kind := .wsTrade "CurveA" true } }
  enriched := some tradeEvent

/-- The create twice, the second time without an engine event, and then the trade. -/
def tradedArchive (symbol : String) : List ArchiveCall :=
  [createCall symbol, { createCall symbol with enriched := none }, tradeCall]

theorem parseEvent_eventLine {calls : List ArchiveCall}
    (h : ∀ ev ∈ engineEvents calls, ev = launchEvent ∨ ev = tradeEvent) :
    ∀ ev ∈ engineEvents calls, parseEvent (eventLine display ev) = some ev := by
  have hother : eventLine display tradeEvent ≠ eventLine display launchEvent := by decide +kernel
  intro ev hev
  rcases h ev hev with rfl | rfl
  · rw [parseEvent, if_pos rfl]
  · rw [parseEvent, if_neg hother, if_pos rfl]

end Mock

theorem ordinary_symbol_exact :
    Exact Mock.display Mock.parseEvent (Mock.tradedArchive "TOK") :=
  (exact_iff Mock.display Mock.parseEvent (Mock.tradedArchive "TOK")
    (Mock.parseEvent_eventLine (by simp [engineEvents, Mock.tradedArchive, Mock.createCall,
      Mock.tradeCall]))).mpr (by decide +kernel)

/-- The raw line of a token with the symbol `type` passes the filter. -/
theorem type_symbol_passes :
    (∀ ev ∈ engineEvents [Mock.createCall "type"],
      Mock.parseEvent (eventLine Mock.display ev) = some ev) ∧
      ¬ Exact Mock.display Mock.parseEvent [Mock.createCall "type"] := by
  refine ⟨Mock.parseEvent_eventLine (by simp [engineEvents, Mock.createCall]), ?_⟩
  intro h
  have hlength := congrArg List.length h.selected
  exact absurd hlength (by decide +kernel)

end HfmcBot
