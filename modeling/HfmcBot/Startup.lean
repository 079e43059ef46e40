import HfmcBot.Engine.Ledger
import HfmcBot.Environment
import HfmcBot.Feed.Archive
import HfmcBot.Foundation.StableSort
import HfmcBot.SnapshotFile

/-!
# Starting up

`main` up to the moment the engine gets its feed, with the operator key of `keys.rs` and
the replay feed of `ingest.rs`.  The stages run in the order of the source, and the first
one that refuses ends the start.

* `loadKeypairOpt`: the operator key;
* `fromPath_reads`: the events of a replay file, or its first bad line;
* `startup`: the stages;
* `live_start_iff`: what a live start asks for;
* `live_executor_fed_live`: a live executor is fed from the live stream, and only from it;
* `paper_start_ignores_book`: what is in the snapshot file never stops a paper start;
* `started_runs_sound`: the runs of every engine that is started keep the books.
-/

namespace HfmcBot

open Foundation

/-! ## The operator key -/

/-- The variable a key came from. -/
inductive KeySource
  | hfmSecretKey
  | secretKey
  deriving DecidableEq

def KeySource.varName : KeySource → String
  | .hfmSecretKey => "HFM_SECRET_KEY"
  | .secretKey => "SECRET_KEY"

/-- The libraries that decode keys: a JSON array of bytes, base58, a key of 64 bytes, a
seed of 32, and the public key of a keypair. -/
structure KeyCrates where
  jsonArray : String → Except String Bytes
  base58 : String → Except String Bytes
  ofBytes : Bytes → Except String Bytes
  ofSeed : Bytes → Except String Bytes
  pubkey : Bytes → String

section Keys

variable (crates : KeyCrates)

/-- `KeyError::Invalid`. -/
def invalidKey (var reason : String) : Text :=
  ["invalid key in ", var, ": ", reason, " (value redacted)"]

def bytesToKeypair (bytes : Bytes) (var : String) : Except Text Bytes :=
  if bytes.length = 64 then
    match crates.ofBytes bytes with
    | .ok keypair => .ok keypair
    | .error e => .error (invalidKey var ("invalid 64-byte key: " ++ e))
  else if bytes.length = 32 then
    match crates.ofSeed bytes with
    | .ok keypair => .ok keypair
    | .error e => .error (invalidKey var ("invalid 32-byte seed: " ++ e))
  else
    .error (invalidKey var
      ("expected 64-byte key or 32-byte seed, got " ++ toString bytes.length ++ " bytes"))

/-- A JSON array if it starts like one, base58 otherwise. -/
def parseSecretKey (raw : String) (var : String) : Except Text Bytes :=
  if raw.toList.head? = some '[' then
    match crates.jsonArray raw with
    | .ok nums => bytesToKeypair crates nums var
    | .error e => .error (invalidKey var ("invalid JSON array: " ++ e))
  else
    match crates.base58 raw with
    | .ok bytes => bytesToKeypair crates bytes var
    | .error e => .error (invalidKey var ("invalid base58: " ++ e))

/-- The first source that is set and not blank decides. -/
def loadFrom (boot : Boot) : List KeySource → Except Text (Option (LoadedKey × KeySource))
  | [] => .ok none
  | source :: rest =>
      match boot.nonBlank source.varName with
      | none => loadFrom boot rest
      | some raw =>
          match parseSecretKey crates (trim raw) source.varName with
          | .error e => .error e
          | .ok keypair => .ok (some (⟨keypair, crates.pubkey keypair⟩, source))

def loadKeypairOpt (boot : Boot) : Except Text (Option (LoadedKey × KeySource)) :=
  loadFrom crates boot [.hfmSecretKey, .secretKey]

end Keys

/-! ## The replay feed -/

/-- A line that `ReplayFeed` passes over: blank, or a comment. -/
def skipsLine (trimmed : List Char) : Bool :=
  trimmed.isEmpty || ['/', '/'].isPrefixOf trimmed

/-- A line as it is parsed. -/
def trimLine (line : Line) : Line := (trim (String.ofList line)).toList

def lineError (path : String) (lineno : Nat) (e : String) : Text :=
  [path, ":", .int lineno, ": ", e]

/-- What the reader hands over for a line: its text, or an error.  Bytes that are no UTF-8
are such an error. -/
abbrev LineRead := Except String Line

/-- `from_path` on what the reader hands over, numbered from the given line. -/
def parseLines (parse : Line → Except String Event) (path : String) :
    Nat → List LineRead → Except Text (List Event)
  | _, [] => .ok []
  | _, .error e :: _ => .error [e]
  | lineno, .ok line :: rest =>
      if skipsLine (trimLine line) then parseLines parse path (lineno + 1) rest
      else
        match parse (trimLine line) with
        | .error e => .error (lineError path lineno e)
        | .ok ev =>
            match parseLines parse path (lineno + 1) rest with
            | .error e => .error e
            | .ok evs => .ok (ev :: evs)

/-- `from_path`: the first bad line refuses the file; the events are sorted by time, and
those of one time keep their order. -/
def fromPath (parse : Line → Except String Event) (path : String) (reads : List LineRead) :
    Except Text (List Event) :=
  match parseLines parse path 1 reads with
  | .error e => .error e
  | .ok evs => .ok (sortByKey Event.ts evs)

section ReplayFile

variable {parse : Line → Except String Event} {path : String}

/-- The lines of a file that hold events. -/
def eventLines (lines : List Line) : List Line :=
  (lines.map trimLine).filter fun line => !skipsLine line

theorem eventLines_cons_skipped {line : Line} (h : skipsLine (trimLine line) = true)
    (rest : List Line) : eventLines (line :: rest) = eventLines rest := by
  simp [eventLines, h]

theorem eventLines_cons {line : Line} (h : ¬ skipsLine (trimLine line) = true)
    (rest : List Line) : eventLines (line :: rest) = trimLine line :: eventLines rest := by
  simp [eventLines, h]

/-- Lines that are all read. -/
theorem parseLines_read_iff {n : Nat} {lines : List Line} {evs : List Event} :
    parseLines parse path n (lines.map .ok) = .ok evs ↔
      List.Forall₂ (fun line ev => parse line = .ok ev) (eventLines lines) evs := by
  induction lines generalizing n evs with
  | nil => simp [parseLines, eventLines, eq_comm]
  | cons line rest ih =>
      rw [List.map_cons]
      unfold parseLines
      split
      · rename_i hskip
        rw [eventLines_cons_skipped hskip]
        exact ih
      · rename_i hskip
        rw [eventLines_cons hskip]
        cases hline : parse (trimLine line) with
        | error e => cases evs <;> simp [hline]
        | ok ev =>
            cases hrest : parseLines parse path (n + 1) (rest.map .ok) with
            | error e =>
                have hnone : ∀ read, ¬ List.Forall₂ (fun line ev => parse line = .ok ev)
                    (eventLines rest) read := fun read hread => by
                  cases hrest.symm.trans (ih.mpr hread)
                cases evs <;> simp [hnone]
            | ok read =>
                have hread := ih.mp hrest
                constructor
                · rintro ⟨⟩
                  exact .cons hline hread
                · intro hall
                  cases hall with
                  | cons hev htail =>
                      cases hline.symm.trans hev
                      rw [Except.ok.inj (hrest.symm.trans (ih.mpr htail))]

/-- A file that is accepted was read to its end. -/
theorem reads_of_ok {n : Nat} {reads : List LineRead} {evs : List Event}
    (h : parseLines parse path n reads = .ok evs) : ∃ lines : List Line, reads = lines.map .ok := by
  induction reads generalizing n evs with
  | nil => exact ⟨[], rfl⟩
  | cons read rest ih =>
      cases read with
      | error e => exact absurd h (by simp [parseLines])
      | ok line =>
          have hrest : ∃ evs', parseLines parse path (n + 1) rest = .ok evs' := by
            unfold parseLines at h
            split at h
            · exact ⟨evs, h⟩
            · split at h
              · exact absurd h (by simp)
              · split at h
                · exact absurd h (by simp)
                · rename_i evs' hevs
                  exact ⟨evs', hevs⟩
          obtain ⟨evs', hevs⟩ := hrest
          obtain ⟨lines, rfl⟩ := ih hevs
          exact ⟨line :: lines, rfl⟩

theorem parseLines_eq_ok_iff {n : Nat} {reads : List LineRead} {evs : List Event} :
    parseLines parse path n reads = .ok evs ↔ ∃ lines : List Line, reads = lines.map .ok ∧
      List.Forall₂ (fun line ev => parse line = .ok ev) (eventLines lines) evs := by
  constructor
  · intro h
    obtain ⟨lines, rfl⟩ := reads_of_ok h
    exact ⟨lines, rfl, parseLines_read_iff.mp h⟩
  · rintro ⟨lines, rfl, hread⟩
    exact parseLines_read_iff.mpr hread

/-- A line that refuses the file, and the message: the error of a line that cannot be read,
as it is; path, number and error of one that does not parse. -/
inductive BadLine (parse : Line → Except String Event) (path : String) (lineno : Nat) :
    LineRead → Text → Prop
  | unread (e : String) : BadLine parse path lineno (.error e) [e]
  | unparsed (line : Line) (e : String) (hkept : skipsLine (trimLine line) = false)
      (herr : parse (trimLine line) = .error e) :
      BadLine parse path lineno (.ok line) (lineError path lineno e)

/-- The message about the first bad line of a file that is numbered from `n`. -/
def FirstBad (parse : Line → Except String Event) (path : String) (n : Nat)
    (reads : List LineRead) (msg : Text) : Prop :=
  ∃ (before : List Line) (bad : LineRead) (after : List LineRead),
    reads = before.map .ok ++ bad :: after ∧
    (∀ good ∈ eventLines before, ∃ ev, parse good = .ok ev) ∧
    BadLine parse path (n + before.length) bad msg

/-- A line that is skipped or parses is not the bad one. -/
theorem firstBad_cons {n : Nat} {line : Line} {rest : List LineRead} {msg : Text}
    (hline : skipsLine (trimLine line) = true ∨ ∃ ev, parse (trimLine line) = .ok ev) :
    FirstBad parse path n (.ok line :: rest) msg ↔ FirstBad parse path (n + 1) rest msg := by
  have hgood : ∀ before : List Line,
      (∀ good ∈ eventLines (line :: before), ∃ ev, parse good = .ok ev) ↔
        ∀ good ∈ eventLines before, ∃ ev, parse good = .ok ev := by
    intro before
    by_cases hskip : skipsLine (trimLine line) = true
    · rw [eventLines_cons_skipped hskip]
    · rw [eventLines_cons hskip]
      simp [hline.resolve_left hskip]
  constructor
  · rintro ⟨before, bad, after, hreads, hbefore, hbad⟩
    cases before with
    | nil =>
        cases hreads
        cases hbad with
        | unparsed _ e hkept herr =>
            rcases hline with hskip | ⟨ev, hev⟩
            · cases hkept.symm.trans hskip
            · cases herr.symm.trans hev
    | cons first before =>
        cases hreads
        refine ⟨before, bad, after, rfl, (hgood before).mp hbefore, ?_⟩
        rw [List.length_cons, ← Nat.add_assoc, Nat.add_right_comm] at hbad
        exact hbad
  · rintro ⟨before, bad, after, rfl, hbefore, hbad⟩
    refine ⟨line :: before, bad, after, rfl, (hgood before).mpr hbefore, ?_⟩
    rw [List.length_cons, ← Nat.add_assoc, Nat.add_right_comm]
    exact hbad

/-- The error of a file is about its first bad line. -/
theorem parseLines_eq_error_iff {n : Nat} {reads : List LineRead} {msg : Text} :
    parseLines parse path n reads = .error msg ↔ FirstBad parse path n reads msg := by
  induction reads generalizing n with
  | nil => simp [parseLines, FirstBad]
  | cons read rest ih =>
      cases read with
      | error e =>
          unfold parseLines
          constructor
          · rintro ⟨⟩
            exact ⟨[], .error e, rest, rfl, by simp [eventLines], .unread e⟩
          · rintro ⟨before, bad, after, hreads, -, hbad⟩
            cases before with
            | nil =>
                cases hreads
                cases hbad
                rfl
            | cons first before => cases hreads
      | ok line =>
          unfold parseLines
          split
          · rename_i hskip
            rw [firstBad_cons (.inl hskip)]
            exact ih
          · rename_i hskip
            cases hline : parse (trimLine line) with
            | ok ev =>
                rw [firstBad_cons (.inr ⟨ev, hline⟩), ← ih]
                cases parseLines parse path (n + 1) rest <;> simp
            | error e =>
                constructor
                · rintro ⟨⟩
                  exact ⟨[], .ok line, rest, rfl, by simp [eventLines],
                    .unparsed line e (by simpa using hskip) hline⟩
                · rintro ⟨before, bad, after, hreads, hbefore, hbad⟩
                  cases before with
                  | nil =>
                      cases hreads
                      cases hbad with
                      | unparsed _ e' hkept herr =>
                          cases hline.symm.trans herr
                          rfl
                  | cons first before =>
                      cases hreads
                      rw [eventLines_cons hskip] at hbefore
                      obtain ⟨ev, hev⟩ := hbefore _ (List.mem_cons_self ..)
                      cases hline.symm.trans hev

/-- **Reading a replay file.**  It is accepted exactly if every line of it can be read and all
its event lines parse: then the events come out in the order of their times, each once,
and those of one time in the order of the file.  Otherwise the message is about the first
line that is bad: with path and number where it does not parse, and the bare error where
it cannot be read. -/
theorem fromPath_reads (parse : Line → Except String Event) (path : String)
    (reads : List LineRead) :
    (∀ evs, fromPath parse path reads = .ok evs ↔ ∃ lines : List Line, reads = lines.map .ok ∧
      ∃ read, List.Forall₂ (fun line ev => parse line = .ok ev) (eventLines lines) read ∧
        evs.Perm read ∧ (evs.Pairwise fun a b => a.ts ≤ b.ts) ∧
        ∀ t, (evs.filter fun ev => ev.ts = t) = read.filter fun ev => ev.ts = t) ∧
      ∀ msg, fromPath parse path reads = .error msg ↔ FirstBad parse path 1 reads msg := by
  unfold fromPath
  refine ⟨fun evs => ?_, fun msg => ?_⟩
  · constructor
    · intro h
      split at h
      · cases h
      · rename_i read hread
        cases h
        obtain ⟨lines, hlines, hparsed⟩ := parseLines_eq_ok_iff.mp hread
        exact ⟨lines, hlines, read, hparsed, sortByKey_perm _ _, sortByKey_sorted _ _,
          sortByKey_filter _ _⟩
    · rintro ⟨lines, hlines, read, hread, -, hsorted, hties⟩
      rw [parseLines_eq_ok_iff.mpr ⟨lines, hlines, hread⟩]
      refine congrArg _ (eq_of_filter_key Event.ts (sortByKey_sorted _ _) hsorted fun t => ?_)
      rw [sortByKey_filter, hties]
  · rw [← parseLines_eq_error_iff]
    cases parseLines parse path 1 reads <;> simp

end ReplayFile

/-! ## The stages -/

/-- What a start finds: the environment and the argument, how `{:?}` prints a text, the
libraries, whether the mirror is compiled in, how the outside answers, and how the executor
is boxed: a live one, or nothing for the paper executor.  `stateExists` is `Path::exists`,
which also denies a file whose metadata cannot be read. -/
structure StartWorld (σ : Type) where
  boot : Boot
  arg : Option String
  debug : String → String
  keyCrates : KeyCrates
  codec : StateCodec
  parseEvent : Line → Except String Event
  hasPg : Bool
  openAudit : String → Except String AuditLog
  reopenAudit : String → Except String AuditLog
  connectPg : String → Except String Unit
  stateFile : String → Option (Except String (List UInt8))
  stateExists : String → Bool
  replayFile : String → Except String (List LineRead)
  blockhash : Config → Except String Unit
  today : Int
  now : Instant
  load : KeyOrder Mint
  box : Option LiveExecutor → σ

/-- What feeds the engine. -/
inductive Fed
  | live (wsUrl : String) (stateEverySecs : UInt64)
  | shadow (wsUrl : String) (stateEverySecs : UInt64)
  | replay (events : List Event)
  | idle

/-- A start that got through. -/
structure Started (σ : Type) where
  cfg : Config
  engine : Engine σ
  fed : Fed

section Stages

variable {σ : Type} (w : StartWorld σ)

/-- A refusal with a text. -/
def refusedAs {α : Type} (what : Text → Text) : Except Text α → Except BootStop α
  | .ok a => .ok a
  | .error e => .error (.refused (what e))

/-- The configuration; what is refused says so. -/
def startConfig : Except BootStop Config :=
  match w.boot.fromEnv with
  | .ok cfg => .ok cfg
  | .error (.refused msg) => .error (.refused ("config error: " :: msg))
  | .error .overflow => .error .overflow

def startKey : Except BootStop (Option (LoadedKey × KeySource)) :=
  refusedAs ("operator key error: " :: ·) (loadKeypairOpt w.keyCrates w.boot)

/-- `HFM_ALERT_MIN_SECS`, `HFM_STATE_EVERY_SECS`: seconds, with a default. -/
def startSecs (key : String) (default : UInt64) : Except BootStop UInt64 :=
  match w.boot.nonBlank key with
  | none => .ok default
  | some raw =>
      match parseU64 (trim raw) with
      | some v => .ok v
      | none => .error (.refused ["bad ", key, "=", w.debug raw, ": want seconds >= 0"])

/-- The argument wins over the variable. -/
def replayPath : Option String := w.arg.or (w.boot.nonBlank "HFM_REPLAY_EVENTS_PATH")

def auditPath : String := w.boot.envStr "HFM_AUDIT_LOG_PATH" "data/audit.jsonl"

def startAudit : Except BootStop AuditLog :=
  match w.openAudit (auditPath w) with
  | .ok audit => .ok audit
  | .error e => .error (.refused ["cannot open audit log ", auditPath w, ": ", e])

def pgDsn : String := trim (w.boot.envStr "HFM_PG_DSN" "")

/-- The mirror: a dead one stops a live start, and so does one that is not compiled in any
start. -/
def startMirror (cfg : Config) : Except BootStop Unit :=
  if pgDsn w = "" then .ok ()
  else if w.hasPg = false then
    .error (.refused ["HFM_PG_DSN is set but this binary was built without --features pg ",
      "(mirror compiled out)"])
  else
    match w.connectPg (pgDsn w) with
    | .ok () => .ok ()
    | .error e => if cfg.mode = .live then .error (.refused ["live boot refused: ", e]) else .ok ()

def soakUrl : Option String := w.boot.nonBlank "HFM_SOAK_WS_URL"

/-- Live data for the paper executor. -/
def isShadow (cfg : Config) : Bool :=
  decide (cfg.mode = .paper) && (replayPath w).isNone && (soakUrl w).isSome

def statePath (cfg : Config) : String :=
  (w.boot.nonBlank "HFM_STATE_PATH").getD
    (if isShadow w cfg then "data/shadow_state.json" else "data/live_state.json")

/-- `load_state` on what is at the path. -/
def loadAt (path : String) : Except Text EngineState :=
  match w.stateFile path with
  | none => .error (LoadError.notFound.text path)
  | some (.error e) => .error [e]
  | some (.ok bytes) =>
      match loadState w.codec (some bytes) with
      | .ok state => .ok state
      | .error e => .error (e.text path)

/-- The snapshot to resume from.  An unreadable one stops a live start; paper starts flat. -/
def startResume (cfg : Config) : Except BootStop (Option EngineState) :=
  let path := statePath w cfg
  match loadAt w path with
  | .ok state => .ok (some state)
  | .error e =>
      if w.stateExists path = true ∧ cfg.mode = .live then
        .error (.refused ("live boot refused: unreadable state snapshot " :: path :: ": " :: e))
      else .ok none

/-- The live executor: no replay, a key, an RPC that answers. -/
def startLive (cfg : Config) (key : Option (LoadedKey × KeySource)) :
    Except BootStop LiveExecutor :=
  if (replayPath w).isSome then
    .error (.refused ["HFM_MODE=live with a replay file: refusing — replay is paper-only ",
      "(unset HFM_MODE or drop the file arg)"])
  else
    match key with
    | none =>
        .error (.refused ["HFM_MODE=live requires an operator keypair: set HFM_SECRET_KEY ",
          "(or SECRET_KEY)"])
    | some (loaded, _) =>
        match w.blockhash cfg with
        | .error e => .error (.refused ["live boot refused: RPC unreachable: ", e])
        | .ok () =>
            match LiveExecutor.armedWithSigner cfg loaded w.now with
            | .error (.err e) => .error (.refused ("cannot arm live executor: " :: e.text))
            | .error .overflow => .error .overflow
            | .ok ex => .ok ex

/-- The engine: a book that fails the money checks stops a live start; paper starts flat on
a reopened log. -/
def startEngine (cfg : Config) (audit : AuditLog) (key : Option (LoadedKey × KeySource))
    (resume : Option EngineState) : Except BootStop (Engine σ) :=
  match cfg.mode with
  | .live =>
      match startLive w cfg key with
      | .error stop => .error stop
      | .ok ex =>
          match resume with
          | none => .ok (Engine.new cfg (w.box (some ex)) audit w.today)
          | some snap =>
              refusedAs ("live boot refused: snapshot failed money invariants: " :: ·)
                (Engine.restore cfg (w.box (some ex)) audit w.today w.load snap)
  | .paper =>
      match resume with
      | none => .ok (Engine.new cfg (w.box none) audit w.today)
      | some snap =>
          match Engine.restore cfg (w.box none) audit w.today w.load snap with
          | .ok e => .ok e
          | .error _ =>
              match w.reopenAudit (auditPath w) with
              | .ok audit => .ok (Engine.new cfg (w.box none) audit w.today)
              | .error e =>
                  .error (.refused ["cannot reopen audit log ", auditPath w, ": ", e])

/-- `WsFeedConfig::from_parts`. -/
def wsUrlOf (url : String) : Except Text String :=
  let url := trim url
  if "ws://".toList.isPrefixOf url.toList ∨ "wss://".toList.isPrefixOf url.toList then .ok url
  else .error ["bad WS url '", url, "' (expected ws:// or wss://)"]

/-- The feed: the stream where there is no replay file and the mode or a URL asks for it. -/
def startFeed (cfg : Config) : Except BootStop Fed :=
  match replayPath w with
  | some path =>
      match w.replayFile path with
      | .error e => .error (.refused ["replay feed error: ", e])
      | .ok reads => refusedAs ("replay feed error: " :: ·)
          ((fromPath w.parseEvent path reads).map Fed.replay)
  | none =>
      if cfg.mode = .live ∨ isShadow w cfg = true then
        match soakUrl w with
        | none =>
            .error (.refused ["HFM_MODE=live needs HFM_SOAK_WS_URL (the keyless stream that ",
              "feeds the engine) — see .env.example"])
        | some url =>
            if cfg.solUsd ≤ 0 then
              .error (.refused
                ["live/shadow loop needs HFM_SOL_USD > 0 (operator rate for enrichment)"])
            else
              match wsUrlOf url with
              | .error e => .error (.refused ("bad HFM_SOAK_WS_URL: " :: e))
              | .ok url =>
                  match startSecs w "HFM_STATE_EVERY_SECS" 60 with
                  | .error stop => .error stop
                  | .ok secs =>
                      .ok (if isShadow w cfg then .shadow url secs else .live url secs)
      else .ok .idle

/-- The whole start. -/
def startup : Except BootStop (Started σ) := do
  let cfg ← startConfig w
  let key ← startKey w
  let _ ← startSecs w "HFM_ALERT_MIN_SECS" 300
  let audit ← startAudit w
  startMirror w cfg
  let resume ← startResume w cfg
  let engine ← startEngine w cfg audit key resume
  let fed ← startFeed w cfg
  return ⟨cfg, engine, fed⟩

/-! ## A start that gets through -/

variable {w} {s : Started σ}

theorem bind_eq_ok_iff {ε α β : Type} {x : Except ε α} {f : α → Except ε β} {b : β} :
    (x >>= f) = .ok b ↔ ∃ a, x = .ok a ∧ f a = .ok b := by
  cases x with
  | error e => simp [bind, Except.bind]
  | ok a => simp [bind, Except.bind]

/-- What every stage handed on. -/
structure Passed (w : StartWorld σ) (s : Started σ) (key : Option (LoadedKey × KeySource))
    (log : AuditLog) (book : Option EngineState) : Prop where
  config : startConfig w = .ok s.cfg
  operatorKey : startKey w = .ok key
  alertSecs : ∃ secs, startSecs w "HFM_ALERT_MIN_SECS" 300 = .ok secs
  audit : startAudit w = .ok log
  mirror : startMirror w s.cfg = .ok ()
  resume : startResume w s.cfg = .ok book
  engine : startEngine w s.cfg log key book = .ok s.engine
  fed : startFeed w s.cfg = .ok s.fed

theorem startup_eq_ok_iff : startup w = .ok s ↔ ∃ key log book, Passed w s key log book := by
  unfold startup
  simp only [bind_eq_ok_iff]
  constructor
  · rintro ⟨cfg, hconfig, key, hkey, secs, hsecs, log, hlog, ⟨⟩, hmirror, book, hbook, engine,
      hengine, fed, hfed, hs⟩
    cases hs
    exact ⟨key, log, book, hconfig, hkey, ⟨secs, hsecs⟩, hlog, hmirror, hbook, hengine, hfed⟩
  · rintro ⟨key, log, book, h⟩
    obtain ⟨secs, hsecs⟩ := h.alertSecs
    exact ⟨s.cfg, h.config, key, h.operatorKey, secs, hsecs, log, h.audit, (), h.mirror, book, h.resume,
      s.engine, h.engine, s.fed, h.fed, rfl⟩

theorem startConfig_eq_ok_iff {cfg : Config} :
    startConfig w = .ok cfg ↔ w.boot.fromEnv = .ok cfg := by
  unfold startConfig
  split <;> simp_all

theorem startKey_eq_ok_iff {key : Option (LoadedKey × KeySource)} :
    startKey w = .ok key ↔ loadKeypairOpt w.keyCrates w.boot = .ok key := by
  unfold startKey refusedAs
  split <;> simp_all

/-- The log of a start. -/
theorem startAudit_eq_ok_iff {log : AuditLog} :
    startAudit w = .ok log ↔ w.openAudit (auditPath w) = .ok log := by
  unfold startAudit
  split <;> simp_all

/-- The book at a path, read whole. -/
def ReadsBook (w : StartWorld σ) (path : String) (snap : EngineState) : Prop :=
  ∃ bytes, w.stateFile path = some (.ok bytes) ∧ loadState w.codec (some bytes) = .ok snap

/-- What a live start asks for.  The check of `HFM_SOL_USD` in front of the stream is not
among it: arming has made it. -/
structure LiveReady (w : StartWorld σ) (s : Started σ) : Prop where
  live : s.cfg.mode = .live
  config : w.boot.fromEnv = .ok s.cfg
  alertSecs : ∃ secs, startSecs w "HFM_ALERT_MIN_SECS" 300 = .ok secs
  mirror : pgDsn w = "" ∨ w.hasPg = true ∧ w.connectPg (pgDsn w) = .ok ()
  noReplay : replayPath w = none
  reachable : w.blockhash s.cfg = .ok ()
  /-- The executor is armed with the operator key.  A book that can be read is restored; without
  one the engine is fresh, and then no file was seen at the path. -/
  book : ∃ loaded source ex log,
    loadKeypairOpt w.keyCrates w.boot = .ok (some (loaded, source)) ∧
    LiveExecutor.armedWithSigner s.cfg loaded w.now = .ok ex ∧
    w.openAudit (auditPath w) = .ok log ∧
    ((∃ snap, ReadsBook w (statePath w s.cfg) snap ∧
        Engine.restore s.cfg (w.box (some ex)) log w.today w.load snap = .ok s.engine) ∨
      (∀ snap, ¬ ReadsBook w (statePath w s.cfg) snap) ∧
        w.stateExists (statePath w s.cfg) = false ∧
        s.engine = Engine.new s.cfg (w.box (some ex)) log w.today)
  fed : ∃ raw url secs, soakUrl w = some raw ∧ wsUrlOf raw = .ok url ∧
    startSecs w "HFM_STATE_EVERY_SECS" 60 = .ok secs ∧ s.fed = .live url secs

theorem startMirror_live {cfg : Config} (hlive : cfg.mode = .live) :
    startMirror w cfg = .ok () ↔
      pgDsn w = "" ∨ w.hasPg = true ∧ w.connectPg (pgDsn w) = .ok () := by
  unfold startMirror
  split
  · rename_i hdsn
    simp [hdsn]
  · rename_i hdsn
    split
    · rename_i hpg
      simp [hdsn, hpg]
    · rename_i hpg
      cases hconnect : w.connectPg (pgDsn w) with
      | ok _ => simp [hpg]
      | error e => simp [hdsn]

theorem loadAt_eq_ok_iff {path : String} {snap : EngineState} :
    loadAt w path = .ok snap ↔ ReadsBook w path snap := by
  unfold loadAt ReadsBook
  cases w.stateFile path with
  | none => simp
  | some content =>
      cases content with
      | error e => simp
      | ok bytes => cases hload : loadState w.codec (some bytes) <;> simp [hload]

theorem startResume_live {cfg : Config} (hlive : cfg.mode = .live) {book : Option EngineState} :
    startResume w cfg = .ok book ↔
      ((∀ snap, ¬ ReadsBook w (statePath w cfg) snap) ∧
        w.stateExists (statePath w cfg) = false ∧ book = none) ∨
      ∃ snap, ReadsBook w (statePath w cfg) snap ∧ book = some snap := by
  have hread := @loadAt_eq_ok_iff σ w (statePath w cfg)
  unfold startResume
  dsimp only
  cases hload : loadAt w (statePath w cfg) with
  | ok snap =>
      have hsome := hread.mp hload
      constructor
      · rintro ⟨⟩
        exact .inr ⟨snap, hsome, rfl⟩
      · rintro (⟨hnone, -⟩ | ⟨snap', hsnap', rfl⟩)
        · exact absurd hsome (hnone snap)
        · rw [Except.ok.inj (hload.symm.trans (hread.mpr hsnap'))]
  | error e =>
      have hnot : ∀ snap, ¬ ReadsBook w (statePath w cfg) snap := by
        intro snap hsnap
        cases hload.symm.trans (hread.mpr hsnap)
      cases hexists : w.stateExists (statePath w cfg) with
      | false => simp [hnot, eq_comm]
      | true => simp [hlive, hnot]

theorem startLive_eq_ok_iff {cfg : Config} {key : Option (LoadedKey × KeySource)}
    {ex : LiveExecutor} :
    startLive w cfg key = .ok ex ↔ replayPath w = none ∧ w.blockhash cfg = .ok () ∧
      ∃ loaded source, key = some (loaded, source) ∧
        LiveExecutor.armedWithSigner cfg loaded w.now = .ok ex := by
  unfold startLive
  cases hreplay : replayPath w with
  | some path => simp
  | none =>
      cases key with
      | none => simp
      | some found =>
          obtain ⟨loaded, source⟩ := found
          cases hhash : w.blockhash cfg with
          | error e => simp
          | ok _ =>
              cases harmed : LiveExecutor.armedWithSigner cfg loaded w.now with
              | ok armed => simp [harmed]
              | error halt => cases halt <;> simp [harmed]

/-- Arming has looked at the rate of the operator. -/
theorem armedWithSigner_solUsd {cfg : Config} {loaded : LoadedKey} {now : Instant}
    {ex : LiveExecutor} (h : LiveExecutor.armedWithSigner cfg loaded now = .ok ex) :
    0 < cfg.solUsd := by
  unfold LiveExecutor.armedWithSigner at h
  simp only [bind_eq_ok_iff] at h
  obtain ⟨-, -, u, hrate, -⟩ := h
  by_contra hneg
  rw [haltIf, if_pos (not_lt.mp hneg)] at hrate
  cases hrate

theorem startFeed_live {cfg : Config} (hlive : cfg.mode = .live) (hreplay : replayPath w = none)
    (hrate : 0 < cfg.solUsd) {fed : Fed} :
    startFeed w cfg = .ok fed ↔ ∃ raw url secs, soakUrl w = some raw ∧ wsUrlOf raw = .ok url ∧
      startSecs w "HFM_STATE_EVERY_SECS" 60 = .ok secs ∧ fed = .live url secs := by
  have hshadow : isShadow w cfg = false := by simp [isShadow, hlive]
  unfold startFeed
  rw [hreplay]
  dsimp only
  rw [if_pos (.inl hlive)]
  cases hurl : soakUrl w with
  | none => simp
  | some raw =>
      dsimp only
      rw [if_neg (not_le.mpr hrate)]
      cases hws : wsUrlOf raw with
      | error e => simp [hws]
      | ok url =>
          cases hsecs : startSecs w "HFM_STATE_EVERY_SECS" 60 with
          | error stop => simp
          | ok secs => simp [hws, hshadow, eq_comm]

/-- What an engine has when it is started with a configuration. -/
structure SoundStart (w : StartWorld σ) (cfg : Config) (e : Engine σ) : Prop where
  resumable : Engine.Resumable cfg e
  checked : ∀ o, e.checkInvariants o = .ok ()
  boxed : ∃ inside, e.exec = w.box inside ∧ (inside.isSome ↔ cfg.mode = .live)

theorem sound_new {cfg : Config} {inside : Option LiveExecutor}
    (hinside : inside.isSome ↔ cfg.mode = .live) (log : AuditLog) (today : Int) :
    SoundStart w cfg (Engine.new cfg (w.box inside) log today) where
  resumable := ⟨rfl, rfl, rfl, id, Engine.keyed_new cfg _ log today, rfl⟩
  checked := (Engine.ledger_new cfg _ log today).checkInvariants_ok
  boxed := ⟨inside, rfl, hinside⟩

/-- A restored book has passed the self-check in one order, so it passes in every. -/
theorem sound_restore {cfg : Config} {inside : Option LiveExecutor}
    (hinside : inside.isSome ↔ cfg.mode = .live) {log : AuditLog} {today : Int}
    {load : KeyOrder Mint} {snap : EngineState} {e : Engine σ}
    (h : Engine.restore cfg (w.box inside) log today load snap = .ok e) : SoundStart w cfg e := by
  have hcheck : e.checkInvariants load = .ok () := by
    have hrebuilt := Engine.restore_eq_ok h
    unfold Engine.restore at h
    split at h
    · cases h
    · rename_i hok
      rw [hrebuilt]
      exact hok
  cases Engine.restore_eq_ok h
  refine ⟨⟨rfl, rfl, rfl, ?_, Engine.keyed_bookOf _, rfl⟩, fun o => ?_, inside, rfl, hinside⟩
  · intro hkill
    change (cfg.killSwitch || _) = true
    rw [hkill, Bool.true_or]
  · rw [Engine.checkInvariants_eq_ok_iff] at hcheck ⊢
    exact hcheck

theorem startEngine_sound {cfg : Config} {log : AuditLog}
    {key : Option (LoadedKey × KeySource)} {book : Option EngineState} {e : Engine σ}
    (h : startEngine w cfg log key book = .ok e) : SoundStart w cfg e := by
  unfold startEngine at h
  cases hmode : cfg.mode with
  | live =>
      rw [hmode] at h
      dsimp only at h
      have hsome : ∀ ex : LiveExecutor, (some ex).isSome ↔ cfg.mode = .live := by simp [hmode]
      cases hex : startLive w cfg key with
      | error stop => simp [hex] at h
      | ok ex =>
          rw [hex] at h
          cases book with
          | none =>
              cases h
              exact sound_new (hsome ex) _ _
          | some snap =>
              dsimp only [refusedAs] at h
              split at h
              · rename_i hrestore
                cases h
                exact sound_restore (hsome ex) hrestore
              · cases h
  | paper =>
      rw [hmode] at h
      dsimp only at h
      have hnone : (none : Option LiveExecutor).isSome ↔ cfg.mode = .live := by simp [hmode]
      cases book with
      | none =>
          cases h
          exact sound_new hnone _ _
      | some snap =>
          dsimp only at h
          split at h
          · rename_i hrestore
            cases h
            exact sound_restore hnone hrestore
          · split at h
            · cases h
              exact sound_new hnone _ _
            · cases h

/-- What feeds the engine fits its mode: a file and a shadow stream only ever feed the paper
executor, and the live executor only ever gets the live stream. -/
theorem startFeed_fits {cfg : Config} {log : AuditLog} {key : Option (LoadedKey × KeySource)}
    {book : Option EngineState} {e : Engine σ} {fed : Fed}
    (hengine : startEngine w cfg log key book = .ok e) (h : startFeed w cfg = .ok fed) :
    cfg.mode = .live ↔ ∃ url secs, fed = .live url secs := by
  constructor
  · intro hlive
    unfold startEngine at hengine
    rw [hlive] at hengine
    dsimp only at hengine
    cases hex : startLive w cfg key with
    | error stop => simp [hex] at hengine
    | ok ex =>
        obtain ⟨hreplay, -, loaded, source, -, harmed⟩ := startLive_eq_ok_iff.mp hex
        obtain ⟨raw, url, secs, -, -, -, hfed⟩ :=
          (startFeed_live hlive hreplay (armedWithSigner_solUsd harmed)).mp h
        exact ⟨url, secs, hfed⟩
  · rintro ⟨url, secs, rfl⟩
    unfold startFeed at h
    split at h
    · rename_i path _
      split at h
      · cases h
      · rename_i reads _
        dsimp only [refusedAs, Except.map] at h
        cases hevs : fromPath w.parseEvent path reads <;> simp [hevs] at h
    · split at h
      · rename_i hor
        rcases hor with hlive | hshadow
        · exact hlive
        · simp only [hshadow, if_true] at h
          split at h
          · cases h
          · split at h
            · cases h
            · split at h
              · cases h
              · split at h <;> cases h
      · cases h

/-- **Only the live stream reaches the live executor.**  In every start that gets through,
the executor in the box is a live one exactly if the engine is fed from the live stream: a
replay file, a shadow stream and an idle start drive the paper executor. -/
theorem live_executor_fed_live (hstart : startup w = .ok s) :
    ∃ inside, s.engine.exec = w.box inside ∧
      (inside.isSome ↔ ∃ url secs, s.fed = .live url secs) := by
  obtain ⟨key, log, book, h⟩ := startup_eq_ok_iff.mp hstart
  obtain ⟨inside, hbox, hinside⟩ := (startEngine_sound h.engine).boxed
  exact ⟨inside, hbox, hinside.trans (startFeed_fits h.engine h.fed)⟩

/-! ## Paper starts -/

/-- The same world, with other files where snapshots are kept. -/
def StartWorld.withState (w : StartWorld σ)
    (stateFile : String → Option (Except String (List UInt8))) : StartWorld σ :=
  { w with stateFile := stateFile }

theorem startFeed_withState (stateFile : String → Option (Except String (List UInt8)))
    (cfg : Config) : startFeed (w.withState stateFile) cfg = startFeed w cfg := by
  unfold startFeed
  rfl

theorem startResume_paper {cfg : Config} (hpaper : cfg.mode = .paper) :
    ∃ book, startResume w cfg = .ok book := by
  unfold startResume
  dsimp only
  split
  · exact ⟨_, rfl⟩
  · rw [if_neg (by simp [hpaper])]
    exact ⟨_, rfl⟩

/-- On paper no book stops the start, as long as the log can be opened again. -/
theorem startEngine_paper {cfg : Config} (hpaper : cfg.mode = .paper) {again : AuditLog}
    (hagain : w.reopenAudit (auditPath w) = .ok again) (log : AuditLog)
    (key : Option (LoadedKey × KeySource)) (book : Option EngineState) :
    ∃ e, startEngine w cfg log key book = .ok e := by
  unfold startEngine
  rw [hpaper]
  dsimp only
  cases book with
  | none => exact ⟨_, rfl⟩
  | some snap =>
      dsimp only
      split
      · exact ⟨_, rfl⟩
      · rw [hagain]
        exact ⟨_, rfl⟩

/-- **A paper start ignores a bad book.**  Whatever is put where the snapshots are kept, a
paper start that gets through still does, with the same configuration and the same feed. -/
theorem paper_start_ignores_book (hstart : startup w = .ok s) (hpaper : s.cfg.mode = .paper)
    {again : AuditLog} (hagain : w.reopenAudit (auditPath w) = .ok again)
    (stateFile : String → Option (Except String (List UInt8))) :
    ∃ s', startup (w.withState stateFile) = .ok s' ∧ s'.cfg = s.cfg ∧ s'.fed = s.fed := by
  obtain ⟨key, log, _, h⟩ := startup_eq_ok_iff.mp hstart
  obtain ⟨book, hbook⟩ := @startResume_paper σ (w.withState stateFile) s.cfg hpaper
  obtain ⟨e, he⟩ := startEngine_paper (w := w.withState stateFile) hpaper hagain log key book
  refine ⟨⟨s.cfg, e, s.fed⟩, startup_eq_ok_iff.mpr ⟨key, log, book, ?_⟩, rfl, rfl⟩
  -- no other stage looks at the snapshot
  exact {
    config := h.config
    operatorKey := h.operatorKey
    alertSecs := h.alertSecs
    audit := h.audit
    mirror := h.mirror
    resume := hbook
    engine := he
    fed := (startFeed_withState stateFile s.cfg).trans h.fed }

/-! ## Runs -/

/-- **Whatever the start found, the books stay sound.**  Take any start that gets through,
flat or from a snapshot file with any content, on any world.  From its engine, as long as
the book fits the cap it started with, every run of every executor whose buys are honest
passes the self-check, keeps the counter and the cap, and ends in a state that the next
start can resume from. -/
theorem started_runs_sound (hstart : startup w = .ok s) {ex : Executor σ}
    (hmint : ex.HonoursMint) (hpays : ex.PaysForTokens)
    (hfits : s.engine.positions.keys.card ≤ s.cfg.maxOpenPositions) (ds : List Delivery) :
    let e := Engine.run ex s.engine ds
    (∀ o, e.checkInvariants o = .ok ()) ∧
      e.risk.openPositions = e.positions.keys.card ∧
      e.positions.keys.card ≤ s.cfg.maxOpenPositions ∧
      ∀ st audit today save load, ∃ e',
        Engine.restore s.cfg st audit today load (e.state save) = .ok e' ∧
          e'.trading = ({ e with exec := st } : Engine σ).trading := by
  intro e
  obtain ⟨key, log, book, h⟩ := startup_eq_ok_iff.mp hstart
  have hsound := startEngine_sound h.engine
  have hresumable := hsound.resumable
  obtain ⟨hequity, hdeployed, hheld, htrades⟩ :=
    (Engine.checkInvariants_eq_ok_iff .ascending s.engine).mp (hsound.checked _)
  rw [hresumable.cfg_eq] at hequity
  have hledger : Engine.Ledger s.cfg s.engine := {
    cfg_eq := hresumable.cfg_eq
    risk_cfg := hresumable.risk_cfg
    equity := hequity
    deployed := hdeployed
    keyed := hresumable.keyed
    held := hheld
    trades := htrades
    counter := hresumable.counter
    cap := hfits }
  have hkept : Engine.Ledger s.cfg e := Engine.run_of_steps
    (fun _ _ _ _ hstep _ he => hstep.ledger hmint hpays he) hresumable.keyed hledger ds
  have hresumes : Engine.Resumable s.cfg e := Engine.run_of_steps
    (fun _ _ _ _ hstep _ he => hstep.resumable he) hresumable.keyed hresumable ds
  refine ⟨hkept.checkInvariants_ok, hkept.counter, hkept.cap, ?_⟩
  intro st audit today save load
  exact Engine.restore_state hresumes (hkept.checkInvariants_ok load) st audit today save load

end Stages

/-! ## A live start and a paper start -/

namespace Mock

/-- The operator key in base58: a blank seed and the public key. -/
def operatorKey58 : String := "11111111111111111111111111111111" ++ operator

def keyCrates : KeyCrates where
  jsonArray _ := .error "unused"
  base58 raw := if raw = operatorKey58 then .ok loaded.keypairBytes else .error "invalid"
  ofBytes bytes := if bytes = loaded.keypairBytes then .ok bytes else .error "invalid"
  ofSeed _ := .error "invalid"
  pubkey _ := operator

/-- A boot with the given variables. -/
def bootWith (vars : List (String × String)) : Boot where
  var key := vars.lookup key
  parseDecimal raw := if raw = "100" then .ok 100 else .error "invalid"
  lowercase word := word
  pubkeyOk _ := true
  overflowChecks := false

/-- A world where everything answers, and with the book of one order in the given file. -/
def startWorld {σ : Type} (box : Option LiveExecutor → σ) (vars : List (String × String))
    (path : String) : StartWorld σ where
  boot := bootWith vars
  arg := none
  debug raw := "\"" ++ raw ++ "\""
  keyCrates := keyCrates
  codec := emptyBookCodec
  parseEvent _ := .error "unused"
  hasPg := false
  openAudit _ := .ok (.opened fun _ => true)
  reopenAudit _ := .ok (.opened fun _ => true)
  connectPg _ := .error "unused"
  stateFile found := if found = path then some (.ok (emptyBookBytes 1)) else none
  stateExists found := decide (found = path)
  replayFile _ := .error "unused"
  blockhash _ := .ok ()
  today := 0
  now := 0
  load := .ascending
  box := box

def liveStart {σ : Type} (box : Option LiveExecutor → σ) : StartWorld σ :=
  startWorld box [("HFM_MODE", "live"), ("HFM_SOL_USD", "100"), ("SECRET_KEY", operatorKey58),
    ("HFM_JITO_TIP_ACCOUNT", solMint), ("HFM_SOAK_WS_URL", "wss://pumpportal.fun/api/data")]
    "data/live_state.json"

def shadowStart : StartWorld (Option LiveExecutor) :=
  startWorld id [("HFM_SOL_USD", "100"), ("HFM_SOAK_WS_URL", "wss://pumpportal.fun/api/data")]
    "data/shadow_state.json"

end Mock

/-- A paper start with the book of one order, and with a file that is no snapshot. -/
theorem paper_start_ignores_book_shadow :
    ∃ s s', startup Mock.shadowStart = .ok s ∧
      startup (Mock.shadowStart.withState fun _ => some (.ok [0])) = .ok s' ∧
      s'.cfg = s.cfg ∧ s'.fed = s.fed := by
  have hruns : ((startup Mock.shadowStart).toOption.map fun s => s.cfg.mode) = some .paper := by
    decide +kernel
  cases hstart : startup Mock.shadowStart with
  | error stop => simp [hstart, Except.toOption] at hruns
  | ok s =>
      rw [hstart] at hruns
      obtain ⟨s', hstart', hsame⟩ := @paper_start_ignores_book _ _ _ hstart
        (Option.some.inj hruns) (.opened fun _ => true) rfl fun _ => some (.ok [0])
      exact ⟨s, s', rfl, hstart', hsame⟩

/-- The live start resumes the book of one order, and goes on against the test executor. -/
theorem started_runs_sound_resumed :
    ∃ s, startup (Mock.liveStart fun _ => ()) = .ok s ∧ s.engine.orderSeq = 1 ∧
      ∀ o, (Engine.run Executor.oneToken s.engine [launchAt "A" 0 1]).checkInvariants o =
        .ok () := by
  have hruns : ((startup (Mock.liveStart fun _ => ())).toOption.map fun s =>
      (s.engine.orderSeq, decide (s.engine.positions.keys.card ≤ s.cfg.maxOpenPositions))) =
      some (1, true) := by
    decide +kernel
  cases hstart : startup (Mock.liveStart fun _ => ()) with
  | error stop => simp [hstart, Except.toOption] at hruns
  | ok s =>
      rw [hstart] at hruns
      obtain ⟨hseq, hfits⟩ := Prod.mk.inj (Option.some.inj hruns)
      have hsound := started_runs_sound hstart Executor.oneToken_honoursMint
        Executor.oneToken_paysForTokens (of_decide_eq_true hfits) [launchAt "A" 0 1]
      exact ⟨s, rfl, hseq, hsound.1⟩

theorem live_executor_fed_live_starts :
    ∃ s, startup (Mock.liveStart id) = .ok s ∧ ∃ inside, s.engine.exec = inside ∧
      (inside.isSome ↔ ∃ url secs, s.fed = .live url secs) := by
  have hruns : (startup (Mock.liveStart id)).toBool = true := by decide +kernel
  cases hstart : startup (Mock.liveStart id) with
  | error stop => simp [hstart, Except.toBool] at hruns
  | ok s => exact ⟨s, rfl, live_executor_fed_live hstart⟩

end HfmcBot
