import HfmcBot.Engine.OrderIds
import HfmcBot.Foundation.AtomicFile
import HfmcBot.Foundation.Separator

/-!
# The snapshot file

`save_state` and `load_state` of `persist.rs`.  A save creates a temporary file named
after the process, writes the document into it and renames it over the snapshot; a crash
or an error may come between any two calls.  How a state is encoded is left open.

* `tmpName_ne`, `tmpName_injective`: the temporary name is never the snapshot's, and
  never that of another process;
* `snapshot_whole`: with any number of processes saving at once, the snapshot is at every
  moment what it was at the start or a document that some process saved;
* `Bot`: one process with its engine and its files;
* `bot_refines`: it does what the process with a `saved` register does.
-/

namespace HfmcBot

open Foundation

/-! ## Names -/

/-- A file name in the snapshot's directory. -/
abbrev FileName := List Char

/-- `file_stem`: the name up to its last dot, if something comes before it. -/
def fileStem (name : FileName) : FileName :=
  match splitAtLast '.' name with
  | some ([], _) => name
  | some (head, _) => head
  | none => name

/-- `with_extension`. -/
def withExtension (name ext : FileName) : FileName := fileStem name ++ '.' :: ext

/-- The temporary file of a save, by process. -/
def tmpName (name : FileName) (pid : Nat) : FileName :=
  withExtension name ("tmp.".toList ++ (toString pid).toList)

theorem tmpName_eq (name : FileName) (pid : Nat) :
    tmpName name pid = (fileStem name ++ ".tmp".toList) ++ '.' :: Nat.toDigits 10 pid := by
  have hdigits : (toString pid).toList = Nat.toDigits 10 pid := Nat.toList_repr
  rw [tmpName, withExtension, hdigits]
  simp

theorem dot_notMem_digits (n : Nat) : '.' ∉ Nat.toDigits 10 n := by
  intro h
  have hdigit := Nat.isDigit_of_mem_toDigits (by decide) (by decide) h
  exact absurd hdigit (by decide)

/-- The temporary file is never the snapshot itself: a name that ends like one has a
longer stem. -/
theorem tmpName_ne (name : FileName) (pid : Nat) : tmpName name pid ≠ name := by
  intro h
  have hsplit : splitAtLast '.' (tmpName name pid) =
      some (fileStem name ++ ".tmp".toList, '.' :: Nat.toDigits 10 pid) := by
    rw [tmpName_eq]
    exact splitAtLast_append (dot_notMem_digits pid)
  rw [h] at hsplit
  have hstem : fileStem name = fileStem name ++ ".tmp".toList := by
    conv_lhs => rw [fileStem, hsplit]
    split
    · rename_i hnil
      have hlength := congrArg (fun parts => (parts.1.length : Nat)) (Option.some.inj hnil)
      simp at hlength
    · rename_i head tail _ hsome
      exact (congrArg Prod.fst (Option.some.inj hsome)).symm
    · rename_i hnone
      cases hnone
  have hlength := congrArg List.length hstem
  simp at hlength

theorem tmpName_injective (name : FileName) : Function.Injective (tmpName name) := by
  intro pid pid' h
  rw [tmpName_eq, tmpName_eq] at h
  have hdigits := List.append_cancel_left h
  have hvalue := congrArg (fun ds => Nat.ofDigitChars 10 ds 0) (List.cons.inj hdigits).2
  simp only [Nat.ofDigitChars_toDigits (by decide : 1 < 10) (by decide : 10 ≤ 10)] at hvalue
  exact hvalue

/-- The snapshot and the temporary files beside it. -/
def stateLayout (name : FileName) : Layout FileName Nat where
  target := name
  scratch := tmpName name
  apart := tmpName_ne name
  own := tmpName_injective name

/-! ## Saving and loading -/

/-- How a state is written, and read back. -/
structure StateCodec where
  encode : EngineState → List UInt8
  decode : List UInt8 → Except String EngineState

/-- The document of a state: its encoding and a newline. -/
def StateCodec.document (codec : StateCodec) (state : EngineState) : List UInt8 :=
  codec.encode state ++ [10]

inductive LoadError
  | notFound
  | corrupt (e : String)
  | unsupported (version : Nat)
  deriving DecidableEq

/-- The texts of the errors that name the snapshot. -/
def LoadError.text (path : String) : LoadError → Text
  | .notFound => ["No such file or directory (os error 2)"]
  | .corrupt e => ["snapshot ", path, " is corrupt: ", e]
  | .unsupported version =>
      ["snapshot version ", .int version, " != supported ", .int EngineState.currentVersion]

/-- `load_state`, on the content of the file if it exists. -/
def loadState (codec : StateCodec) (content : Option (List UInt8)) :
    Except LoadError EngineState :=
  match content with
  | none => .error .notFound
  | some bytes =>
      match codec.decode bytes with
      | .error e => .error (.corrupt e)
      | .ok state =>
          if state.version ≠ EngineState.currentVersion then .error (.unsupported state.version)
          else .ok state

/-- The codec reads a state back from its document. -/
def StateCodec.Reads (codec : StateCodec) (state : EngineState) : Prop :=
  codec.decode (codec.document state) = .ok state ∧ state.version = EngineState.currentVersion

theorem StateCodec.Reads.loadState {codec : StateCodec} {state : EngineState}
    (h : codec.Reads state) : loadState codec (some (codec.document state)) = .ok state := by
  dsimp only [HfmcBot.loadState]
  rw [h.1]
  simp [h.2]

/-! ## Any number of processes -/

/-- A call of `save_state`, with the state it is saving. -/
inductive SaveCall
  | creates (state : EngineState)
  | writes (n : Nat)
  | renames
  | fails
  | stops

def SaveCall.fileCall (codec : StateCodec) : SaveCall → FileCall UInt8
  | .creates state => .creates (codec.document state)
  | .writes n => .writes n
  | .renames => .renames
  | .fails => .fails
  | .stops => .stops

/-- The states that processes set out to save. -/
def savedStates (calls : List (Nat × SaveCall)) : List EngineState :=
  calls.filterMap fun call =>
    match call.2 with
    | .creates state => some state
    | _ => none

/-- The calls of the processes on their files, from a disk on which nobody writes. -/
def saveAll (codec : StateCodec) (name : FileName) (disk : FileName → Option (List UInt8))
    (calls : List (Nat × SaveCall)) : Replacing FileName Nat UInt8 :=
  (Replacing.start disk).run (stateLayout name)
    (calls.map fun call => (call.1, call.2.fileCall codec))

theorem created_saveCalls (codec : StateCodec) (calls : List (Nat × SaveCall)) :
    created (calls.map fun call => (call.1, call.2.fileCall codec)) =
      (savedStates calls).map codec.document := by
  induction calls with
  | nil => rfl
  | cons call rest ih =>
      obtain ⟨pid, call⟩ := call
      cases call with
      | creates state => exact congrArg (codec.document state :: ·) ih
      | _ => exact ih

/-- **The snapshot is never torn.**  Any number of processes save states to one path, and
every call may fail or be the last one of its process.  Whatever the order of the calls:
a load answers what it would have answered at the start, as long as no rename has come
through, and after that the state of the last rename. -/
theorem snapshot_whole (codec : StateCodec) (name : FileName)
    (disk : FileName → Option (List UInt8)) (calls : List (Nat × SaveCall))
    (hreads : ∀ state ∈ savedStates calls, codec.Reads state) :
    let files := saveAll codec name disk calls
    (files.replaced = [] ∧ files.disk name = disk name) ∨
      ∃ state ∈ savedStates calls, files.replaced.getLast? = some (codec.document state) ∧
        loadState codec (files.disk name) = .ok state := by
  intro files
  have hsound : Sound (stateLayout name) (disk name) files := sound_run (stateLayout name) disk _
  have htarget : files.disk name = files.replaced.getLast?.or (disk name) := hsound.target
  cases hlast : files.replaced.getLast? with
  | none =>
      exact Or.inl ⟨List.getLast?_eq_none_iff.mp hlast, by rw [htarget, hlast, Option.none_or]⟩
  | some doc =>
      have hdoc := replaced_subset (stateLayout name) disk _ doc (List.mem_of_getLast? hlast)
      rw [created_saveCalls] at hdoc
      obtain ⟨state, hstate, rfl⟩ := List.mem_map.mp hdoc
      refine Or.inr ⟨state, hstate, rfl, ?_⟩
      rw [htarget, hlast, Option.some_or]
      exact (hreads state hstate).loadState

/-! ## One process and its file -/

/-- The engine of a boot from the snapshot file: an unreadable snapshot stops a live boot,
paper then starts flat. -/
def bootFile {σ : Type} (codec : StateCodec) (cfg : Config) (st : σ) (audit : AuditLog)
    (today : Int) (load : KeyOrder Mint) (content : Option (List UInt8)) : Option (Engine σ) :=
  match loadState codec content with
  | .ok state => boot cfg st audit today load (some state)
  | .error _ =>
      if content.isSome ∧ cfg.mode = .live then none else boot cfg st audit today load none

/-- A process, its engine and its files.  `up` is false after a refused boot. -/
structure Bot (σ : Type) where
  engine : Engine (σ × List Sent)
  files : Replacing FileName Nat UInt8
  pid : Nat
  up : Bool

/-- An event, a call of a save, or a crash with the boot of the next process. -/
inductive BotAct (σ : Type)
  | event (d : Delivery)
  | creates (o : KeyOrder Mint)
  | writes (n : Nat)
  | renames
  | fails
  | crash (pid : Nat) (cfg : Config) (st : σ) (audit : AuditLog) (today : Int)
      (load : KeyOrder Mint)

namespace Bot

variable {σ : Type} (ex : Executor σ) (codec : StateCodec) (name : FileName)

/-- A first start, with no file there. -/
def start (cfg : Config) (st : σ) (audit : AuditLog) (today : Int) (pid : Nat) : Bot σ :=
  ⟨Engine.new cfg (st, []) audit today, .start fun _ => none, pid, true⟩

/-- A call on the files. -/
def call (b : Bot σ) (c : FileCall UInt8) : Bot σ :=
  { b with files := b.files.act (stateLayout name) b.pid c }

/-- One act.  A save runs to its end before the next event is taken. -/
def act (b : Bot σ) : BotAct σ → Bot σ
  | .event d =>
      match b.up, b.files.writer b.pid with
      | true, .idle => { b with engine := b.engine.deliver ex.recorded d }
      | _, _ => b
  | .creates o => if b.up then b.call name (.creates (codec.document (b.engine.state o))) else b
  | .writes n => b.call name (.writes n)
  | .renames => b.call name .renames
  | .fails => b.call name .fails
  | .crash pid cfg st audit today load =>
      let files := b.files.act (stateLayout name) b.pid .stops
      match bootFile codec cfg (st, b.engine.sent) audit today load (files.disk name) with
      | some e => ⟨e, files, pid, true⟩
      | none => ⟨b.engine, files, pid, false⟩

/-- A save is of a state that reads back. -/
def Readable (b : Bot σ) : BotAct σ → Prop
  | .creates o => codec.Reads (b.engine.state o)
  | _ => True

/-- The files of a bot stand for the register of a process: the target holds the document
of the saved state, and a document in the making is that of the engine's state. -/
structure Refines (b : Bot σ) (p : Process σ) : Prop where
  engine : b.engine = p.engine
  up : b.up = p.up
  disk : b.files.disk name = p.saved.map codec.document
  reads : ∀ state ∈ p.saved, codec.Reads state
  scratch : ∀ pid written rest, b.files.writer pid = .writing written rest →
    b.files.disk (tmpName name pid) = some written
  others : ∀ pid, pid ≠ b.pid → b.files.writer pid = .idle
  making : ∀ written rest, b.files.writer b.pid = .writing written rest →
    b.up = true ∧ ∃ o, codec.Reads (b.engine.state o) ∧
      written ++ rest = codec.document (b.engine.state o)

section Refines

variable {ex codec name} {b : Bot σ} {p : Process σ}

theorem Refines.start (cfg : Config) (st : σ) (audit : AuditLog) (today : Int) (pid : Nat) :
    Refines codec name (start cfg st audit today pid) (Process.start cfg st audit today) where
  engine := rfl
  up := rfl
  disk := rfl
  reads _ h := by cases h
  scratch _ _ _ h := by cases h
  others _ _ := rfl
  making _ _ h := by cases h

/-- A process that gives up its save keeps what it has. -/
theorem Refines.idle (h : Refines codec name b p) :
    Refines codec name
      { b with files := { b.files with
        writer := Function.update b.files.writer b.pid .idle } } p where
  engine := h.engine
  up := h.up
  disk := h.disk
  reads := h.reads
  scratch pid written rest hw := by
    by_cases hp : pid = b.pid
    · subst hp
      simp at hw
    · exact h.scratch pid written rest (by simpa [Function.update_of_ne hp] using hw)
  others pid hp := by
    show Function.update b.files.writer b.pid .idle pid = _
    rw [Function.update_of_ne hp]
    exact h.others pid hp
  making written rest hw := by simp at hw

/-- The process moves its temporary file on. -/
theorem Refines.write (h : Refines codec name b p) {written rest : List UInt8} (hup : b.up = true)
    (hdoc : ∃ o, codec.Reads (b.engine.state o) ∧
      written ++ rest = codec.document (b.engine.state o)) :
    Refines codec name
      { b with files := { b.files with
        disk := Function.update b.files.disk (tmpName name b.pid) (some written)
        writer := Function.update b.files.writer b.pid (.writing written rest) } } p where
  engine := h.engine
  up := h.up
  disk := by
    show Function.update b.files.disk (tmpName name b.pid) (some written) name = _
    rw [Function.update_of_ne (tmpName_ne name b.pid).symm]
    exact h.disk
  reads := h.reads
  scratch pid written' rest' hw := by
    show Function.update b.files.disk (tmpName name b.pid) (some written) (tmpName name pid) = _
    by_cases hp : pid = b.pid
    · subst hp
      simp only [Function.update_self, Writer.writing.injEq] at hw
      rw [Function.update_self, hw.1]
    · rw [Function.update_of_ne ((tmpName_injective name).ne hp)]
      exact h.scratch pid written' rest' (by simpa [Function.update_of_ne hp] using hw)
  others pid hp := by
    show Function.update b.files.writer b.pid _ pid = _
    rw [Function.update_of_ne hp]
    exact h.others pid hp
  making written' rest' hw := by
    simp only [Function.update_self, Writer.writing.injEq] at hw
    rw [← hw.1, ← hw.2]
    exact ⟨hup, hdoc⟩

/-- A rename is the moment of the save. -/
theorem Refines.rename (h : Refines codec name b p) {written : List UInt8}
    (hw : b.files.writer b.pid = .writing written []) :
    ∃ o, Refines codec name (b.call name .renames) (p.act ex (.save o)) := by
  -- the engine stands still during a save, so the document is that of its state
  obtain ⟨hup, o, hreads, hdoc⟩ := h.making written [] hw
  rw [List.append_nil] at hdoc
  have hcall : (b.call name .renames).files =
      { disk := Function.update (Function.update b.files.disk name
          (b.files.disk (tmpName name b.pid))) (tmpName name b.pid) none
        writer := Function.update b.files.writer b.pid .idle
        replaced := b.files.replaced ++ [written] } := by
    dsimp only [call, Replacing.act]
    rw [hw]
    rfl
  have hsaved : p.act ex (.save o) = { p with saved := some (p.engine.state o) } := by
    dsimp only [Process.act]
    rw [← h.up, hup, if_pos rfl]
  refine ⟨o, ?_⟩
  rw [hsaved]
  refine ⟨h.engine, h.up, ?_, ?_, ?_, ?_, ?_⟩
  · show (b.call name .renames).files.disk name = _
    rw [hcall]
    show Function.update (Function.update b.files.disk name _) (tmpName name b.pid) none name = _
    rw [Function.update_of_ne (tmpName_ne name b.pid).symm, Function.update_self,
      h.scratch b.pid written [] hw, hdoc, ← h.engine]
    rfl
  · intro state hstate
    obtain rfl := Option.some.inj hstate
    rw [← h.engine]
    exact hreads
  · intro pid written' rest' hw'
    rw [hcall] at hw' ⊢
    have hp : pid ≠ b.pid := by
      rintro rfl
      simp at hw'
    show Function.update (Function.update b.files.disk name _) (tmpName name b.pid) none
      (tmpName name pid) = _
    rw [Function.update_of_ne ((tmpName_injective name).ne hp),
      Function.update_of_ne (tmpName_ne name pid)]
    exact h.scratch pid written' rest' (by simpa [Function.update_of_ne hp] using hw')
  · intro pid hp
    have hne : pid ≠ b.pid := hp
    rw [hcall]
    show Function.update b.files.writer b.pid .idle pid = _
    rw [Function.update_of_ne hne]
    exact h.others pid hne
  · intro written' rest' hw'
    rw [hcall] at hw'
    have hw'' : Function.update b.files.writer b.pid .idle b.pid = .writing written' rest' := hw'
    simp at hw''

/-- The file boots the engine that the register boots. -/
theorem Refines.boot (h : Refines codec name b p) (cfg : Config) (st : σ) (audit : AuditLog)
    (today : Int) (load : KeyOrder Mint) :
    bootFile codec cfg (st, b.engine.sent) audit today load (b.files.disk name) =
      HfmcBot.boot cfg (st, p.engine.sent) audit today load p.saved := by
  rw [h.disk, ← h.engine]
  dsimp only [bootFile]
  cases hsaved : p.saved with
  | none => rfl
  | some state =>
      have hreads : codec.Reads state := h.reads state hsaved
      rw [Option.map_some, hreads.loadState]

/-- One act of the bot is no, or one, act of the process. -/
theorem Refines.act (h : Refines codec name b p) {a : BotAct σ} (hreads : Readable codec b a) :
    ∃ acts : List (ProcessAct σ),
      Refines codec name (b.act ex codec name a) (acts.foldl (Process.act ex) p) := by
  cases a with
  | event d =>
      dsimp only [Bot.act]
      split
      · rename_i hup hidle
        refine ⟨[.event d], ?_⟩
        have hact : p.act ex (.event d) = { p with engine := p.engine.deliver ex.recorded d } := by
          dsimp only [Process.act]
          rw [← h.up, hup, if_pos rfl]
        rw [List.foldl_cons, List.foldl_nil, hact]
        exact {
          engine := congrArg (fun e => e.deliver ex.recorded d) h.engine
          up := h.up
          disk := h.disk
          reads := h.reads
          scratch := h.scratch
          others := h.others
          making := fun written rest hw => absurd (hidle.symm.trans hw) (by simp) }
      · exact ⟨[], h⟩
  | creates o =>
      dsimp only [Bot.act]
      split
      · rename_i hup
        refine ⟨[], ?_⟩
        dsimp only [call, Replacing.act]
        split
        · exact h.write hup ⟨o, hreads, rfl⟩
        · exact h
      · exact ⟨[], h⟩
  | writes n =>
      refine ⟨[], ?_⟩
      dsimp only [Bot.act, call, Replacing.act]
      split
      · exact h
      · rename_i written rest hw
        obtain ⟨hup, o, ho, hdoc⟩ := h.making written rest hw
        refine h.write hup ⟨o, ho, ?_⟩
        rw [List.append_assoc, List.take_append_drop, hdoc]
  | renames =>
      cases hw : b.files.writer b.pid with
      | idle =>
          refine ⟨[], ?_⟩
          dsimp only [Bot.act, call, Replacing.act]
          rw [hw]
          exact h
      | writing written rest =>
          cases rest with
          | nil =>
              have hsaved : ∃ o, Refines codec name (b.call name .renames) (p.act ex (.save o)) :=
                h.rename hw
              obtain ⟨o, ho⟩ := hsaved
              exact ⟨[.save o], ho⟩
          | cons x rest =>
              refine ⟨[], ?_⟩
              dsimp only [Bot.act, call, Replacing.act]
              rw [hw]
              exact h
  | fails => exact ⟨[], h.idle⟩
  | crash pid cfg st audit today load =>
      refine ⟨[.crash cfg st audit today load], ?_⟩
      have hidle := h.idle
      have hothers : ∀ q, Function.update b.files.writer b.pid .idle q = .idle := by
        intro q
        by_cases hq : q = b.pid
        · rw [hq, Function.update_self]
        · rw [Function.update_of_ne hq]
          exact h.others q hq
      have hboot := h.boot cfg st audit today load
      dsimp only [Bot.act, Replacing.act, List.foldl_cons, List.foldl_nil, Process.act]
      rw [hboot]
      cases HfmcBot.boot cfg (st, p.engine.sent) audit today load p.saved with
      | none =>
          exact {
            engine := h.engine
            up := rfl
            disk := h.disk
            reads := h.reads
            scratch := hidle.scratch
            others := fun q _ => hothers q
            making := fun written rest hw => absurd ((hothers pid).symm.trans hw) (by simp) }
      | some e =>
          exact {
            engine := rfl
            up := rfl
            disk := h.disk
            reads := h.reads
            scratch := hidle.scratch
            others := fun q _ => hothers q
            making := fun written rest hw => absurd ((hothers pid).symm.trans hw) (by simp) }

/-- **The file is the register.**  A bot that saves through the file system, where a call
of a save may fail and a crash may come between any two calls, does what some run of the
process with a `saved` register does: the same engine with the same orders, boots refused
alike, and in the file the document of the register's state. -/
theorem bot_refines (cfg : Config) (st : σ) (audit : AuditLog) (today : Int) (pid : Nat)
    (acts : List (BotAct σ))
    (hreads : Along (act ex codec name) (Readable codec) (start cfg st audit today pid) acts) :
    ∃ pacts : List (ProcessAct σ),
      let b := acts.foldl (act ex codec name) (start cfg st audit today pid)
      let p := pacts.foldl (Process.act ex) (Process.start cfg st audit today)
      b.engine = p.engine ∧ b.up = p.up ∧ b.files.disk name = p.saved.map codec.document := by
  have hrun : ∃ pacts : List (ProcessAct σ),
      Refines codec name (acts.foldl (act ex codec name) (start cfg st audit today pid))
        (pacts.foldl (Process.act ex) (Process.start cfg st audit today)) := by
    refine run_invariant_along (P := fun b : Bot σ => ∃ pacts : List (ProcessAct σ),
      Refines codec name b (pacts.foldl (Process.act ex) (Process.start cfg st audit today)))
      ?_ ⟨[], Refines.start cfg st audit today pid⟩ hreads
    rintro b a ha ⟨pacts, h⟩
    have hmatched : ∃ more : List (ProcessAct σ), Refines codec name (b.act ex codec name a)
        (more.foldl (Process.act ex) (pacts.foldl (Process.act ex)
          (Process.start cfg st audit today))) := h.act ha
    obtain ⟨more, hmore⟩ := hmatched
    exact ⟨pacts ++ more, by rw [List.foldl_append]; exact hmore⟩
  obtain ⟨pacts, h⟩ := hrun
  exact ⟨pacts, h.engine, h.up, h.disk⟩

end Refines

end Bot

/-! ## Snapshots of an empty book -/

namespace Mock

/-- The snapshot of an engine that has not traded, by its order counter. -/
def emptyBook (orderSeq : Nat) : EngineState :=
  { Process.onPaper.engine.state .ascending with orderSeq := orderSeq }

/-- How such a snapshot is written. -/
def emptyBookText (orderSeq : Nat) : String :=
  "\x7b\"version\":1,\"equity_usd\":\"50000\",\"deployed_usd\":\"0\",\"positions\":[]," ++
    "\"closed\":[],\"order_seq\":" ++ toString orderSeq ++
    ",\"risk\":\x7b\"day_realized_pnl\":\"0\",\"day\":\"1970-01-01\"," ++
    "\"daily_loss_tripped\":false,\"kill\":false,\"recent_orders\":[]\x7d\x7d"

/-- The document of such a snapshot. -/
def emptyBookBytes (orderSeq : Nat) : List UInt8 :=
  (emptyBookText orderSeq).toUTF8.data.toList ++ [10]

/-- The codec, on two snapshots of an empty book. -/
def emptyBookCodec : StateCodec where
  encode state := (emptyBookText state.orderSeq).toUTF8.data.toList
  decode bytes :=
    if bytes = emptyBookBytes 0 then .ok (emptyBook 0)
    else if bytes = emptyBookBytes 1 then .ok (emptyBook 1)
    else .error "expected value at line 1 column 1"

theorem document_emptyBook (orderSeq : Nat) :
    emptyBookCodec.document (emptyBook orderSeq) = emptyBookBytes orderSeq := rfl

theorem emptyBookBytes_ne : emptyBookBytes 1 ≠ emptyBookBytes 0 := by decide +kernel

theorem decode_emptyBook (bytes : List UInt8) :
    emptyBookCodec.decode bytes =
      if bytes = emptyBookBytes 0 then .ok (emptyBook 0)
      else if bytes = emptyBookBytes 1 then .ok (emptyBook 1)
      else .error "expected value at line 1 column 1" := rfl

theorem emptyBookCodec_reads_zero : emptyBookCodec.Reads (emptyBook 0) := by
  rw [StateCodec.Reads, document_emptyBook, decode_emptyBook, if_pos (Eq.refl _)]
  exact ⟨rfl, rfl⟩

theorem emptyBookCodec_reads_one : emptyBookCodec.Reads (emptyBook 1) := by
  rw [StateCodec.Reads, document_emptyBook, decode_emptyBook, if_neg emptyBookBytes_ne,
    if_pos (Eq.refl _)]
  exact ⟨rfl, rfl⟩

/-- Two processes save at once; one is through, the other stops in the middle. -/
def racingSaves : List (Nat × SaveCall) :=
  [(7, .creates (emptyBook 0)), (8, .creates (emptyBook 1)), (7, .writes 20), (8, .writes 4096),
    (8, .renames), (7, .writes 5), (7, .stops)]

end Mock

theorem snapshot_whole_race :
    loadState Mock.emptyBookCodec ((saveAll Mock.emptyBookCodec "live_state.json".toList
      (fun _ => none) Mock.racingSaves).disk "live_state.json".toList) =
      .ok (Mock.emptyBook 1) := by
  have h := snapshot_whole Mock.emptyBookCodec "live_state.json".toList (fun _ => none)
    Mock.racingSaves ?_
  · have hlast : (saveAll Mock.emptyBookCodec "live_state.json".toList (fun _ => none)
        Mock.racingSaves).replaced = [Mock.emptyBookCodec.document (Mock.emptyBook 1)] := by
      decide +kernel
    rcases h with ⟨hnone, -⟩ | ⟨state, hstate, hrenamed, hload⟩
    · rw [hlast] at hnone
      cases hnone
    · rw [hlast] at hrenamed
      have hdoc := Option.some.inj hrenamed
      rw [Mock.document_emptyBook] at hdoc
      simp only [savedStates, Mock.racingSaves, List.filterMap_cons, List.filterMap_nil,
        List.mem_cons, List.not_mem_nil, or_false] at hstate
      rcases hstate with rfl | rfl
      · rw [Mock.document_emptyBook] at hdoc
        exact absurd hdoc Mock.emptyBookBytes_ne
      · exact hload
  · intro state hstate
    simp only [savedStates, Mock.racingSaves, List.filterMap_cons, List.filterMap_nil,
      List.mem_cons, List.not_mem_nil, or_false] at hstate
    rcases hstate with rfl | rfl
    · exact Mock.emptyBookCodec_reads_zero
    · exact Mock.emptyBookCodec_reads_one

namespace Mock

/-- The snapshot of an engine that holds three tokens of `A`. -/
def heldBook : EngineState :=
  (Engine.run Executor.oneToken.recorded Process.onPaper.engine [launchAt "A" 0 1]).state .ascending

/-- How it is written. -/
def heldText : String :=
  "\x7b\"version\":1,\"equity_usd\":\"50000\",\"deployed_usd\":\"3\",\"positions\":[\x7b" ++
    "\"mint\":\"A\",\"launchpad\":\"pumpfun\",\"opened_at\":\"1970-01-01T00:00:00Z\"," ++
    "\"entry_price\":\"1\",\"qty\":\"3\",\"cost_usd\":\"3\",\"high_water\":\"1\"," ++
    "\"last_price\":\"1\",\"last_liquidity_usd\":\"8000\",\"mode\":\"Flip\"," ++
    "\"exit_attempts\":0,\"stuck\":false\x7d],\"closed\":[],\"order_seq\":3," ++
    "\"risk\":\x7b\"day_realized_pnl\":\"0\",\"day\":\"1970-01-01\"," ++
    "\"daily_loss_tripped\":false,\"kill\":false,\"recent_orders\":[" ++
    "\"1970-01-01T00:00:00Z\",\"1970-01-01T00:00:00Z\",\"1970-01-01T00:00:00Z\"]\x7d\x7d"

/-- The codec, on the snapshots of that engine before and after. -/
def heldCodec : StateCodec where
  encode state :=
    (if state.positions = [] then emptyBookText state.orderSeq else heldText).toUTF8.data.toList
  decode bytes :=
    if bytes = heldText.toUTF8.data.toList ++ [10] then .ok heldBook
    else if bytes = emptyBookBytes 0 then .ok (emptyBook 0)
    else .error "expected value at line 1 column 1"

theorem heldCodec_reads : heldCodec.Reads heldBook := by
  have hheld : heldBook.positions ≠ [] := by decide +kernel
  have hdoc : heldCodec.document heldBook = heldText.toUTF8.data.toList ++ [10] := by
    rw [StateCodec.document, heldCodec]
    dsimp only
    rw [if_neg hheld]
  have hdecode : ∀ bytes, heldCodec.decode bytes =
      if bytes = heldText.toUTF8.data.toList ++ [10] then .ok heldBook
      else if bytes = emptyBookBytes 0 then .ok (emptyBook 0)
      else .error "expected value at line 1 column 1" := fun _ => rfl
  rw [StateCodec.Reads, hdoc, hdecode, if_pos rfl]
  exact ⟨rfl, rfl⟩

end Mock

namespace Bot

/-- A paper bot on its first start. -/
def onPaper : Bot Unit := start Config.paperDefaults () (.opened fun _ => true) 0 7

/-- It buys, saves the position, tries to save again and goes down in the middle. -/
def savesAndCrashes : List (BotAct Unit) :=
  [.event (launchAt "A" 0 1), .creates .ascending, .writes 4096, .renames, .creates .ascending,
    .writes 20, .crash 8 Config.paperDefaults () (.opened fun _ => true) 0 .ascending]

/-- What the bot comes to. -/
def afterCrash : Bot Unit :=
  savesAndCrashes.foldl (act Executor.oneToken Mock.heldCodec "live_state.json".toList) onPaper

/-- The next process holds the position that was saved. -/
theorem bot_refines_paper :
    afterCrash.up = true ∧ afterCrash.engine.positions.keys = {"A"} ∧
      ∃ pacts : List (ProcessAct Unit),
        afterCrash.engine =
          (pacts.foldl (Process.act Executor.oneToken) Process.onPaper).engine := by
  refine ⟨by decide +kernel, by decide +kernel, ?_⟩
  obtain ⟨pacts, hengine, -, -⟩ := @bot_refines _ Executor.oneToken Mock.heldCodec
    "live_state.json".toList Config.paperDefaults () (.opened fun _ => true) 0 7 savesAndCrashes
    ⟨trivial, Mock.heldCodec_reads, trivial, trivial, Mock.heldCodec_reads, trivial, trivial,
      trivial⟩
  exact ⟨pacts, hengine⟩

end Bot

end HfmcBot
