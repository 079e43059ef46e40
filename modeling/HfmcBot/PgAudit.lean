import HfmcBot.Engine.Recovery
import HfmcBot.Feed.Archive
import HfmcBot.Foundation.Channel

/-!
# The audit mirror

`pg_audit.rs`: every record that goes to the audit log is also offered to a bounded
channel, and one worker inserts what it takes from there into a table.  Nothing is
retried.  The log itself never waits for the mirror and never looks at it.

* `AuditRecord.members`, `recordParts`: the two encodings of a record, and
  `recordParts_eq_members`: they name the same columns;
* `MirroredLog.act`: an append, or a step of the worker;
* `mirror_accounts`: what the table holds after any interleaving;
* `table_recovers`: the book of a paper run, read off a table that lacks nothing.
-/

namespace HfmcBot

open Foundation Foundation.JsonText

/-! ## The two encodings of a record -/

/-- How the parts of an audit record print. -/
structure AuditDisplay extends Display where
  text : Text → String

def HoldMode.variant : HoldMode → String
  | .flip => "Flip"
  | .conviction => "Conviction"

def ClosedTrade.members (d : AuditDisplay) (t : ClosedTrade) : List Field :=
  [("mint", .str t.mint), ("opened_at", .str (d.time t.openedAt)),
    ("closed_at", .str (d.time t.closedAt)), ("entry_price", .str (d.decimal t.entryPrice)),
    ("exit_price", .str (d.decimal t.exitPrice)), ("qty", .str (d.decimal t.qty)),
    ("cost_usd", .str (d.decimal t.costUsd)), ("proceeds_usd", .str (d.decimal t.proceedsUsd)),
    ("pnl_usd", .str (d.decimal t.pnlUsd)), ("pnl_pct", .str (d.decimal t.pnlPct)),
    ("exit_reason", .str t.exitReason), ("mode", .str t.mode.variant)]

/-- The members of a record, tag first. -/
def AuditRecord.members (d : AuditDisplay) : AuditRecord → List Field
  | .decision ts mint action detail =>
      [("kind", .str "decision"), ("ts", .str (d.time ts)), ("mint", .str mint),
        ("action", .str action), ("detail", .str (d.text detail))]
  | .order ts orderId mint side budgetOrQty refPrice =>
      [("kind", .str "order"), ("ts", .str (d.time ts)), ("order_id", .str orderId),
        ("mint", .str mint), ("side", .str side), ("budget_or_qty", .str (d.decimal budgetOrQty)),
        ("ref_price", .str (d.decimal refPrice))]
  | .fill ts orderId mint side qty priceUsd notionalUsd feeUsd =>
      [("kind", .str "fill"), ("ts", .str (d.time ts)), ("order_id", .str orderId),
        ("mint", .str mint), ("side", .str side), ("qty", .str (d.decimal qty)),
        ("price_usd", .str (d.decimal priceUsd)), ("notional_usd", .str (d.decimal notionalUsd)),
        ("fee_usd", .str (d.decimal feeUsd))]
  | .tradeClosed trade => ("kind", .str "trade_closed") :: trade.members d
  | .breaker ts reason =>
      [("kind", .str "breaker"), ("ts", .str (d.time ts)), ("reason", .str reason)]

/-- The line of a record, without its newline. -/
def auditLine (d : AuditDisplay) (record : AuditRecord) : Line :=
  JsonText.recordText (record.members d)

/-- The indexed columns: timestamp, kind and mint. -/
def recordParts : AuditRecord → DateTime × String × Option Mint
  | .decision ts mint _ _ => (ts, "decision", some mint)
  | .order ts _ mint _ _ _ => (ts, "order", some mint)
  | .fill ts _ mint _ _ _ _ _ => (ts, "fill", some mint)
  | .tradeClosed t => (t.closedAt, "trade_closed", some t.mint)
  | .breaker ts _ => (ts, "breaker", none)

/-- The value of a member. -/
def member (name : String) (fields : List Field) : Option Scalar :=
  (fields.find? fun f => f.1 = name).map Prod.snd

/-- The member the timestamp column is taken from. -/
def AuditRecord.clockName : AuditRecord → String
  | .tradeClosed _ => "closed_at"
  | _ => "ts"

/-- The columns say what the members say. -/
theorem recordParts_eq_members (d : AuditDisplay) (record : AuditRecord) :
    member "kind" (record.members d) = some (.str (recordParts record).2.1) ∧
      member record.clockName (record.members d) = some (.str (d.time (recordParts record).1)) ∧
      member "mint" (record.members d) = (recordParts record).2.2.map .str := by
  cases record <;>
    simp [member, AuditRecord.members, ClosedTrade.members, recordParts, AuditRecord.clockName]

/-! ## The mirror -/

/-- `MIRROR_CHANNEL_DEPTH`. -/
def mirrorChannelDepth : Nat := 10000

/-- One row: the indexed columns and the whole record. -/
structure MirrorItem where
  ts : DateTime
  kind : String
  mint : Option Mint
  payload : Line
  deriving DecidableEq

def mirrorItem (d : AuditDisplay) (record : AuditRecord) : MirrorItem where
  ts := (recordParts record).1
  kind := (recordParts record).2.1
  mint := (recordParts record).2.2
  payload := auditLine d record

/-- How an insert ends: with a confirmation, with an error, or with the end of the
worker.  Without a confirmation the row may or may not have landed. -/
inductive InsertOutcome
  | ok
  | error (landed : Bool)
  | cut (landed : Bool)
  deriving DecidableEq

namespace InsertOutcome

def landed : InsertOutcome → Bool
  | .ok => true
  | .error landed => landed
  | .cut landed => landed

def isOk : InsertOutcome → Bool
  | .ok => true
  | _ => false

def isError : InsertOutcome → Bool
  | .error _ => true
  | _ => false

def isCut : InsertOutcome → Bool
  | .cut _ => true
  | _ => false

end InsertOutcome

/-- The mirror: the channel with its worker, if there is one, and the count of dropped
records. -/
structure PgMirror where
  tx : Option (Courier MirrorItem InsertOutcome)
  dropped : Nat

namespace PgMirror

def disabled : PgMirror := ⟨none, 0⟩

/-- Connected, with an empty channel and the worker running. -/
def connected : PgMirror := ⟨some (.opened (some mirrorChannelDepth)), 0⟩

/-- `log`: never blocks and never fails; what finds no room or no worker is counted. -/
def log (d : AuditDisplay) (m : PgMirror) (record : AuditRecord) : PgMirror :=
  match m.tx with
  | none => m
  | some courier =>
      let (courier, sent) := courier.offer (mirrorItem d record)
      ⟨some courier, if sent then m.dropped else m.dropped + 1⟩

/-- The worker receives the next item. -/
def recv (m : PgMirror) : PgMirror := { m with tx := m.tx.map Courier.take }

/-- The insert of the item in hand is confirmed. -/
def inserted (m : PgMirror) : PgMirror := { m with tx := m.tx.map fun c => c.finish .ok }

/-- The insert of the item in hand ends with an error: it is counted and not retried. -/
def insertFailed (m : PgMirror) (landed : Bool) : PgMirror where
  tx := m.tx.map fun c => c.finish (.error landed)
  dropped := if (m.tx.bind Courier.hand).isSome then m.dropped + 1 else m.dropped

/-- The worker goes away. -/
def gone (m : PgMirror) (landed : Bool) : PgMirror :=
  { m with tx := m.tx.map fun c => c.stop (.cut landed) }

end PgMirror

/-- The audit log with its mirror. -/
structure MirroredLog where
  file : AuditLog
  mirror : PgMirror

/-- An append of the program, or a step of the worker. -/
inductive MirrorAct
  | append (record : AuditRecord)
  | recv
  | inserted
  | insertFailed (landed : Bool)
  | gone (landed : Bool)

namespace MirroredLog

/-- A log on a disk with the given behaviour and a mirror just connected. -/
def opened (writable : Nat → Bool) : MirroredLog := ⟨.opened writable, .connected⟩

/-- `append`: the mirror first, then the file. -/
def append (d : AuditDisplay) (t : MirroredLog) (record : AuditRecord) : MirroredLog :=
  ⟨t.file.append record, t.mirror.log d record⟩

def act (d : AuditDisplay) (t : MirroredLog) : MirrorAct → MirroredLog
  | .append record => t.append d record
  | .recv => { t with mirror := t.mirror.recv }
  | .inserted => { t with mirror := t.mirror.inserted }
  | .insertFailed landed => { t with mirror := t.mirror.insertFailed landed }
  | .gone landed => { t with mirror := t.mirror.gone landed }

/-- The acts in turn. -/
def run (d : AuditDisplay) (t : MirroredLog) (acts : List MirrorAct) : MirroredLog :=
  acts.foldl (act d) t

end MirroredLog

/-- The records appended, oldest first. -/
def appended (acts : List MirrorAct) : List AuditRecord :=
  acts.filterMap fun
    | .append record => some record
    | _ => none

namespace PgMirror

/-- The inserts that have ended, oldest first. -/
def inserts (m : PgMirror) : List (MirrorItem × InsertOutcome) :=
  match m.tx with
  | some courier => courier.done
  | none => []

/-- The rows of `hfmcbot_audit` in the order of their ids. -/
def table (m : PgMirror) : List MirrorItem :=
  (m.inserts.filter fun x => x.2.landed).map Prod.fst

/-- How many inserts have ended in a certain way. -/
def tally (m : PgMirror) (how : InsertOutcome → Bool) : Nat := m.inserts.countP fun x => how x.2

/-- Items let in whose insert has not ended: in hand, in the channel, or lost with the
worker. -/
def pending (m : PgMirror) : List MirrorItem :=
  match m.tx with
  | some courier => courier.pending
  | none => []

/-- Items in the channel. -/
def queue (m : PgMirror) : List MirrorItem :=
  match m.tx with
  | some courier => courier.channel.waiting
  | none => []

end PgMirror

/-! ## Any interleaving -/

/-- What an act is for the channel and its worker. -/
def MirrorAct.courier (d : AuditDisplay) : MirrorAct → Courier.Act MirrorItem InsertOutcome
  | .append record => .offer (mirrorItem d record)
  | .recv => .take
  | .inserted => .finish .ok
  | .insertFailed landed => .finish (.error landed)
  | .gone landed => .stop (.cut landed)

theorem offered_courier (d : AuditDisplay) (acts : List MirrorAct) :
    Courier.offered (acts.map (MirrorAct.courier d)) = (appended acts).map (mirrorItem d) := by
  induction acts with
  | nil => rfl
  | cons act rest ih =>
      rw [Courier.offered] at ih ⊢
      cases act <;> simp [appended, MirrorAct.courier, ih]

namespace MirroredLog

variable (d : AuditDisplay)

/-- The mirror moves as its channel and worker do. -/
theorem act_tx (t : MirroredLog) (act : MirrorAct) :
    (t.act d act).mirror.tx = t.mirror.tx.map fun c => c.act (act.courier d) := by
  obtain ⟨file, ⟨tx, dropped⟩⟩ := t
  cases act with
  | append record => cases tx <;> rfl
  | recv => rfl
  | inserted => rfl
  | insertFailed landed => rfl
  | gone landed => rfl

/-- The file does not depend on the mirror. -/
theorem act_file (t : MirroredLog) (act : MirrorAct) :
    (t.act d act).file = (appended [act]).foldl AuditLog.append t.file := by
  cases act <;> rfl

/-- The courier after a run from a connected mirror. -/
def courierAfter (acts : List MirrorAct) : Courier MirrorItem InsertOutcome :=
  (acts.map (MirrorAct.courier d)).foldl Courier.act (.opened (some mirrorChannelDepth))

theorem courierAfter_concat (acts : List MirrorAct) (last : MirrorAct) :
    courierAfter d (acts ++ [last]) = (courierAfter d acts).act (last.courier d) := by
  rw [courierAfter, List.map_append, List.foldl_append]
  rfl

theorem run_concat (t : MirroredLog) (acts : List MirrorAct) (last : MirrorAct) :
    t.run d (acts ++ [last]) = (t.run d acts).act d last := by
  rw [run, List.foldl_append]
  rfl

theorem run_tx (writable : Nat → Bool) (acts : List MirrorAct) :
    ((opened writable).run d acts).mirror.tx = some (courierAfter d acts) := by
  induction acts using List.reverseRecOn with
  | nil => rfl
  | append_singleton acts last ih =>
      rw [run_concat, act_tx, ih, Option.map_some, courierAfter_concat]

theorem run_file (writable : Nat → Bool) (acts : List MirrorAct) :
    ((opened writable).run d acts).file =
      (appended acts).foldl AuditLog.append (.opened writable) := by
  induction acts using List.reverseRecOn with
  | nil => rfl
  | append_singleton acts last ih =>
      rw [run_concat, act_file, ih, ← List.foldl_append, appended, appended, appended,
        ← List.filterMap_append]

end MirroredLog

/-- The count of dropped records moves with what is refused and what fails. -/
theorem act_dropped (d : AuditDisplay) {t : MirroredLog}
    {c : Courier MirrorItem InsertOutcome} (htx : t.mirror.tx = some c) (act : MirrorAct) :
    (t.act d act).mirror.dropped + (c.act (act.courier d)).channel.accepted.length +
        c.done.countP (fun x => x.2.isError) =
      t.mirror.dropped + c.channel.accepted.length + (appended [act]).length +
        (c.act (act.courier d)).done.countP fun x => x.2.isError := by
  obtain ⟨file, ⟨tx, dropped⟩⟩ := t
  obtain rfl : tx = some c := htx
  rw [Courier.act_accepted]
  cases act with
  | append record =>
      -- let in or dropped, the record is one more on either side
      have hdone : (c.act (.offer (mirrorItem d record))).done = c.done := rfl
      have hdropped : (MirroredLog.act d ⟨file, some c, dropped⟩ (.append record)).mirror.dropped =
          if (c.offer (mirrorItem d record)).2 then dropped else dropped + 1 := rfl
      rw [hdropped, MirrorAct.courier, hdone]
      cases hsent : (c.offer (mirrorItem d record)).2 <;> simp [appended, hsent] <;> omega
  | recv =>
      have hdone : (c.act .take).done = c.done := by
        show c.take.done = c.done
        rcases c.take_cases with hsame | ⟨-, -, -, hdone⟩
        · rw [hsame]
        · exact hdone
      rw [MirrorAct.courier, hdone]
      simp [MirroredLog.act, PgMirror.recv, appended]
  | inserted =>
      cases hhand : c.hand <;>
        simp [MirroredLog.act, PgMirror.inserted, MirrorAct.courier, Courier.act, Courier.finish,
          appended, hhand, InsertOutcome.isError]
  | insertFailed landed =>
      cases hhand : c.hand with
      | none =>
          simp [MirroredLog.act, PgMirror.insertFailed, MirrorAct.courier, Courier.act,
            Courier.finish, appended, hhand]
      | some item =>
          -- counted as dropped although it was let in
          simp [MirroredLog.act, PgMirror.insertFailed, MirrorAct.courier, Courier.act,
            Courier.finish, appended, hhand, InsertOutcome.isError]
          omega
  | gone landed =>
      cases hhand : c.hand <;>
        simp [MirroredLog.act, PgMirror.gone, MirrorAct.courier, Courier.act, Courier.finish,
          Courier.stop, appended, hhand, InsertOutcome.isError]

/-- Over a run: dropped records and records let in are the appended ones, where a failed
insert counts on both sides. -/
theorem run_dropped (d : AuditDisplay) (writable : Nat → Bool) (acts : List MirrorAct) :
    ((MirroredLog.opened writable).run d acts).mirror.dropped +
        (MirroredLog.courierAfter d acts).channel.accepted.length =
      (appended acts).length +
        (MirroredLog.courierAfter d acts).done.countP fun x => x.2.isError := by
  induction acts using List.reverseRecOn with
  | nil => rfl
  | append_singleton acts last ih =>
      have hstep := act_dropped d (MirroredLog.run_tx d writable acts) last
      have hlogged : (appended (acts ++ [last])).length =
          (appended acts).length + (appended [last]).length := by
        rw [appended, List.filterMap_append, List.length_append]
        rfl
      rw [MirroredLog.run_concat, MirroredLog.courierAfter_concat, hlogged]
      omega

/-- An insert ends in one of three ways. -/
theorem countP_outcomes (inserts : List (MirrorItem × InsertOutcome)) :
    inserts.countP (fun x => x.2.isOk) + inserts.countP (fun x => x.2.isError) +
      inserts.countP (fun x => x.2.isCut) = inserts.length := by
  induction inserts with
  | nil => rfl
  | cons x rest ih =>
      obtain ⟨item, outcome⟩ := x
      cases outcome <;>
        simp [InsertOutcome.isOk, InsertOutcome.isError, InsertOutcome.isCut] at ih ⊢ <;> omega

/-- What is confirmed has landed. -/
theorem countP_isOk_le (inserts : List (MirrorItem × InsertOutcome)) :
    inserts.countP (fun x => x.2.isOk) ≤ (inserts.filter fun x => x.2.landed).length := by
  rw [← List.countP_eq_length_filter]
  refine List.countP_mono_left fun x _ hx => ?_
  obtain ⟨item, outcome⟩ := x
  cases outcome with
  | ok => rfl
  | error landed => cases hx
  | cut landed => cases hx

/-- The rows are mirrored records in the order of the log, each at most once. -/
theorem table_sublist (d : AuditDisplay) (writable : Nat → Bool) (acts : List MirrorAct) :
    ((MirroredLog.opened writable).run d acts).mirror.table.Sublist
      ((appended acts).map (mirrorItem d)) := by
  have hsent := Courier.accepted_sublist (some mirrorChannelDepth)
    (acts.map (MirrorAct.courier d))
  rw [offered_courier, ← MirroredLog.courierAfter, Courier.accepted_eq] at hsent
  rw [PgMirror.table, PgMirror.inserts, MirroredLog.run_tx]
  exact (List.filter_sublist.map Prod.fst).trans ((List.sublist_append_left _ _).trans hsent)

/-- Every appended record is confirmed, dropped, cut off with the worker or on its way. -/
theorem records_accounted (d : AuditDisplay) (writable : Nat → Bool) (acts : List MirrorAct) :
    let m := ((MirroredLog.opened writable).run d acts).mirror
    m.tally InsertOutcome.isOk + m.dropped + m.tally InsertOutcome.isCut + m.pending.length =
      (appended acts).length := by
  intro m
  have hdropped := run_dropped d writable acts
  rw [Courier.accepted_eq, List.length_append, List.length_map] at hdropped
  have houtcomes := countP_outcomes (MirroredLog.courierAfter d acts).done
  simp only [m, PgMirror.tally, PgMirror.inserts, PgMirror.pending, MirroredLog.run_tx]
  omega

/-- A confirmed insert has a row. -/
theorem confirmed_le_table (m : PgMirror) : m.tally InsertOutcome.isOk ≤ m.table.length := by
  rw [PgMirror.tally, PgMirror.table, List.length_map]
  exact countP_isOk_le m.inserts

theorem queue_le (d : AuditDisplay) (writable : Nat → Bool) (acts : List MirrorAct) :
    ((MirroredLog.opened writable).run d acts).mirror.queue.length ≤ mirrorChannelDepth := by
  rw [PgMirror.queue, MirroredLog.run_tx]
  exact Courier.waiting_le mirrorChannelDepth (acts.map (MirrorAct.courier d))

/-- **What the table holds.**  Whatever the order of appends, receipts, inserts, failures
and the end of the worker, and whatever the disk does: the rows are mirrored records in
the order of the log, each at most once; every appended record is confirmed, dropped
and counted, cut off with the worker or on its way, and only the last three kinds can
lack a row; the channel stays within its depth; and the file is what it would be without
a mirror. -/
theorem mirror_accounts (d : AuditDisplay) (writable : Nat → Bool) (acts : List MirrorAct) :
    let t := (MirroredLog.opened writable).run d acts
    let m := t.mirror
    m.table.Sublist ((appended acts).map (mirrorItem d)) ∧
      m.tally InsertOutcome.isOk + m.dropped + m.tally InsertOutcome.isCut + m.pending.length =
        (appended acts).length ∧
      m.tally InsertOutcome.isOk ≤ m.table.length ∧
      m.queue.length ≤ mirrorChannelDepth ∧
      t.file = (appended acts).foldl AuditLog.append (.opened writable) :=
  ⟨table_sublist d writable acts, records_accounted d writable acts, confirmed_le_table _,
    queue_le d writable acts, MirroredLog.run_file d writable acts⟩

/-! ## The book in the table -/

/-- The records a reader of the payloads finds. -/
def PgMirror.readTable (m : PgMirror) (read : Line → Option AuditRecord) : List AuditRecord :=
  m.table.filterMap fun row => read row.payload

/-- Nothing is missing that the mirror knows of. -/
structure PgMirror.Complete (m : PgMirror) : Prop where
  dropped : m.dropped = 0
  cut : m.tally InsertOutcome.isCut = 0
  pending : m.pending = []

theorem filterMap_read {d : AuditDisplay} {read : Line → Option AuditRecord}
    {records : List AuditRecord} (hread : ∀ r ∈ records, read (auditLine d r) = some r) :
    (records.map (mirrorItem d)).filterMap (fun row => read row.payload) = records := by
  rw [List.filterMap_map]
  induction records with
  | nil => rfl
  | cons r rest ih =>
      have hr : ((fun row : MirrorItem => read row.payload) ∘ mirrorItem d) r = some r :=
        hread r List.mem_cons_self
      rw [List.filterMap_cons_some hr, ih fun s hs => hread s (List.mem_cons_of_mem r hs)]

/-- A mirror that lacks nothing has every row. -/
theorem table_of_complete {d : AuditDisplay} {writable : Nat → Bool} {acts : List MirrorAct}
    (h : ((MirroredLog.opened writable).run d acts).mirror.Complete) :
    ((MirroredLog.opened writable).run d acts).mirror.table =
      (appended acts).map (mirrorItem d) := by
  have haccounted := records_accounted d writable acts
  have hconfirmed := confirmed_le_table ((MirroredLog.opened writable).run d acts).mirror
  simp only [h.dropped, h.cut, h.pending, List.length_nil] at haccounted
  -- as many rows as records
  refine (table_sublist d writable acts).eq_of_length_le ?_
  rw [List.length_map]
  omega

/-- **The table of a paper run determines its book.**  Whatever the interleaving of the
run's appends with the worker's steps: if nothing was dropped, cut off or is on its way,
then the fill records read back from the payloads give the engine's open mints with their
quantities and costs, its deployed capital and its equity. -/
theorem table_recovers (cfg : Config) (px : PaperExecutor) (today : Int) (ds : List Delivery)
    (d : AuditDisplay) (read : Line → Option AuditRecord) (acts : List MirrorAct)
    (hacts : appended acts =
      (Engine.run px.executor (Engine.new cfg () (.opened fun _ => true) today) ds).audit.lines)
    (hread : ∀ r ∈ appended acts, read (auditLine d r) = some r)
    (hcomplete : ((MirroredLog.opened fun _ => true).run d acts).mirror.Complete) :
    let e := Engine.run px.executor (Engine.new cfg () (.opened fun _ => true) today) ds
    let book := recover cfg.equityUsd
      (((MirroredLog.opened fun _ => true).run d acts).mirror.readTable read)
    (∀ mint, book.held.lookup mint = (e.positions.lookup mint).map Position.holding) ∧
      book.deployedUsd = e.deployedUsd ∧ book.equityUsd = e.equity := by
  intro e book
  have hbook : book = recover cfg.equityUsd e.audit.lines := by
    show recover _ (PgMirror.readTable _ read) = _
    rw [PgMirror.readTable, table_of_complete hcomplete, filterMap_read hread, hacts]
  have h : Engine.Recovers cfg.equityUsd e :=
    Engine.recovers_run px.settlesOnGrid cfg () today ds
  rw [hbook]
  exact ⟨h.held, h.deployed, h.equity⟩

namespace Mock

/-- A paper executor of the default configuration. -/
def paperExecutor : PaperExecutor := .new .paperDefaults

/-- Two launches that are bought, and a tick that sells the first one at a loss. -/
def tradedEvents : List Delivery :=
  [launchAt "MintA" 0 1, launchAt "MintB" 1 1, priceAt "MintA" 2 (1 / 2)]

/-- The engine after them. -/
def tradedEngine : Engine Unit :=
  Engine.run paperExecutor.executor (Engine.new .paperDefaults () (.opened fun _ => true) 0)
    tradedEvents

/-- How a record prints: fractions in full, times in nanoseconds. -/
def auditDisplay : AuditDisplay where
  decimal x := toString x.num ++ "/" ++ toString x.den
  time t := toString t
  text _ := "decision"

/-- The reader of the payloads, on these lines. -/
def readRecord (line : Line) : Option AuditRecord :=
  tradedEngine.audit.lines.find? fun r => decide (auditLine auditDisplay r = line)

/-- The records are appended, and then received and inserted one after the other. -/
def mirrorActs : List MirrorAct :=
  tradedEngine.audit.lines.map .append ++
    (tradedEngine.audit.lines.map fun _ => [.recv, .inserted]).flatten

end Mock

theorem table_recovers_trades :
    let book := recover Config.paperDefaults.equityUsd (((MirroredLog.opened fun _ => true).run
      Mock.auditDisplay Mock.mirrorActs).mirror.readTable Mock.readRecord)
    book.held.lookup "MintA" = none ∧
      book.held.lookup "MintB" =
        (Mock.tradedEngine.positions.lookup "MintB").map Position.holding ∧
      book.deployedUsd = Mock.tradedEngine.deployedUsd ∧ book.equityUsd = Mock.tradedEngine.equity ∧
      Mock.tradedEngine.closed.length = 1 := by
  intro book
  obtain ⟨hheld, hdeployed, hequity⟩ := table_recovers .paperDefaults Mock.paperExecutor 0
    Mock.tradedEvents Mock.auditDisplay Mock.readRecord Mock.mirrorActs (by decide +kernel)
    (by decide +kernel) ⟨by decide +kernel, by decide +kernel, by decide +kernel⟩
  refine ⟨(hheld "MintA").trans ?_, hheld "MintB", hdeployed, hequity, by decide +kernel⟩
  decide +kernel

end HfmcBot
