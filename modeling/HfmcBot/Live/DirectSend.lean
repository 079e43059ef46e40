import HfmcBot.Live.Executor

/-!
# Direct sends

The part of the RPC client that airdrops, reads a balance, submits a transaction and waits
for a signature.  The endpoints of a client are fixed; the state keeps the preferred one, the
clock, and the list of all posts with what came back.

* `CallPosts`, `rpcCall_posts`: what a call posts, and what it hands on;
* `WaitEnds`, `confirmFrom_posts`: how a wait for a signature ends, by what it posted;
* `confirmed_by_evidence`: a wait ends well exactly on an explicit status.
-/

namespace HfmcBot

open Foundation Foundation.Attempt

/-! ## Posts -/

/-- The RPC methods of a direct send. -/
inductive DirectMethod
  | requestAirdrop (pubkey : Pubkey) (lamports : UInt64)
  | getBalance (pubkey : Pubkey)
  | getLatestBlockhash
  | sendTransaction (tx : SignedTx)
  | getSignatureStatuses (sig : String)
  deriving DecidableEq

def DirectMethod.name : DirectMethod → String
  | .requestAirdrop _ _ => "requestAirdrop"
  | .getBalance _ => "getBalance"
  | .getLatestBlockhash => "getLatestBlockhash"
  | .sendTransaction _ => "sendTransaction"
  | .getSignatureStatuses _ => "getSignatureStatuses"

/-- One post: where to, what for, and what came back. -/
structure Post where
  url : String
  method : DirectMethod
  response : Response

/-- A node: its answers may depend on everything it was asked. -/
structure Node (ω : Type) where
  answer : String → DirectMethod → ω → Reply × ω

/-- A client at work. -/
structure Direct (ω : Type) where
  active : Nat
  clock : Instant
  outside : ω
  posts : List Post

abbrev DirectM (ω : Type) := Attempt Halt (Direct ω)

namespace Direct

variable {ω : Type}

/-- Time passes. -/
def sleep (s : Direct ω) (duration : Nat) : Direct ω := { s with clock := s.clock + duration }

section Client

variable (crates : Crates) (node : Node ω) (urls : List String)

/-- `post_one`. -/
def postOne (url : String) (method : DirectMethod) : DirectM ω Response := do
  let s ← get
  let (reply, outside) := node.answer url method s.outside
  set { s with
    clock := s.clock + reply.elapsed
    outside := outside
    posts := s.posts ++ [Post.mk url method reply.response] }
  return reply.response

/-- Try the endpoints with these indices; the first one that answers becomes the
preferred one. -/
def rpcTry (method : DirectMethod) : List Nat → Halt → DirectM ω Body
  | [], lastErr => throw lastErr
  | i :: rest, _ => do
      match ← postOne node (urls.getD i "") method with
      | .ok body => do
          modify fun s => { s with active := i }
          return body
      | .error e => rpcTry method rest (e.halt ("rpc " ++ method.name) " body unreadable: ")

/-- One call, starting at the preferred endpoint and wrapping around. -/
def rpcCall (method : DirectMethod) : DirectM ω Body := do
  let s ← get
  let start := min s.active (urls.length - 1)
  rpcTry node urls method ((List.range urls.length).map fun k => (start + k) % urls.length)
    (.transport ["rpc: no endpoints configured"])

/-! ## The methods -/

/-- A `result` that is a text; an `error` member refuses. -/
def parseStringResult (method : String) (body : Body) : Except Halt String := do
  let v ← readJson ("rpc " ++ method) body
  match v.get "error" with
  | some err => .error (.rejected ["rpc ", method, " refused: ", crates.jsonText err])
  | none =>
      orReject ["rpc ", method, " missing string 'result'"]
        (((v.get "result").bind Json.asStr).filter fun s => s ≠ "")

def parseBalanceResponse (body : Body) : Except Halt UInt64 := do
  let v ← readJson "rpc balance" body
  orReject ["rpc balance missing 'result.value'"] ((resultValue v).bind Json.asU64)

inductive SigStatus
  | confirmed
  | failed (err : String)
  | pending
  deriving DecidableEq

/-- The state of a status entry.  A null error and an explicit `Ok` are none. -/
def entryStatus (entry : Json) : SigStatus :=
  let settled :=
    match (entry.get "confirmationStatus").bind Json.asStr with
    | some "finalized" => SigStatus.confirmed
    | some "confirmed" => SigStatus.confirmed
    | _ => SigStatus.pending
  if entry.isNull then .pending
  else
    match entry.get "err" with
    | some err =>
        if err.isNull then settled
        else if (err.get "Ok").isSome then settled
        else .failed (crates.jsonText err)
    | none => settled

def parseSigStatus (body : Body) : Except Halt SigStatus := do
  let v ← readJson "rpc sig status" body
  let entry ← orReject ["rpc sig status missing 'result.value[0]'"]
    (((resultValue v).bind Json.asArray).bind List.head?)
  return entryStatus crates entry

def requestAirdrop (pubkey : Pubkey) (lamports : UInt64) : DirectM ω String := do
  let body ← rpcCall node urls (.requestAirdrop pubkey lamports)
  ofExcept (parseStringResult crates "airdrop" body)

def getBalance (pubkey : Pubkey) : DirectM ω UInt64 := do
  let body ← rpcCall node urls (.getBalance pubkey)
  ofExcept (parseBalanceResponse body)

def fetchRecentBlockhash : DirectM ω (String × UInt64) := do
  let body ← rpcCall node urls .getLatestBlockhash
  ofExcept (parseBlockhashResponse crates body)

def sendTransaction (tx : SignedTx) : DirectM ω String := do
  let body ← rpcCall node urls (.sendTransaction tx)
  ofExcept (parseStringResult crates "sendTransaction" body)

/-- The status of a signature. -/
def sigStatus (sig : String) : DirectM ω SigStatus := do
  let body ← rpcCall node urls (.getSignatureStatuses sig)
  ofExcept (parseSigStatus crates body)

/-! ## What a call posts -/

/-- The bodies that came back. -/
def answersOf (posts : List Post) : List Body := posts.filterMap fun p => p.response.toOption

theorem answersOf_append (before after : List Post) :
    answersOf (before ++ after) = answersOf before ++ answersOf after :=
  List.filterMap_append

/-- The posts of a call: the same question to each endpoint in turn, up to the first answer,
which is the result.  A call without one has tried them all. -/
structure CallPosts (method : DirectMethod) (new : List Post) (r : Except Halt Body) : Prop where
  sent : ∀ p ∈ new, p.url ∈ urls ∧ p.method = method
  once : new.length ≤ urls.length
  answer : answersOf new = r.toOption.toList
  unanswered : ∀ h, r = .error h → new.length = urls.length ∧ ∃ msg, h = .transport msg

theorem exec_postOne (url : String) (method : DirectMethod) (s : Direct ω) :
    (postOne node url method).exec s =
      (.ok (node.answer url method s.outside).1.response,
        { s with
          clock := s.clock + (node.answer url method s.outside).1.elapsed
          outside := (node.answer url method s.outside).2
          posts := s.posts ++ [⟨url, method, (node.answer url method s.outside).1.response⟩] }) :=
  rfl

theorem rpcTry_posts (method : DirectMethod) (is : List Nat) (his : ∀ i ∈ is, i < urls.length)
    (lastErr : Text) :
    Meets (rpcTry node urls method is (.transport lastErr)) fun s r s' =>
      s.clock ≤ s'.clock ∧ ∃ new, s'.posts = s.posts ++ new ∧
        (∀ p ∈ new, p.url ∈ urls ∧ p.method = method) ∧ new.length ≤ is.length ∧
        answersOf new = r.toOption.toList ∧
        ∀ h, r = .error h → new.length = is.length ∧ ∃ msg, h = .transport msg := by
  induction is generalizing lastErr with
  | nil =>
      intro s
      refine ⟨Nat.le_refl _, [], (List.append_nil _).symm, by simp, by simp, rfl, ?_⟩
      intro h hr
      exact ⟨rfl, lastErr, (Except.error.inj hr).symm⟩
  | cons i rest ih =>
      intro s
      have hurl : urls.getD i "" ∈ urls := by
        rw [List.getD_eq_getElem?_getD, List.getElem?_eq_getElem (his i (by simp))]
        exact List.getElem_mem _
      have hrest : ∀ j ∈ rest, j < urls.length := fun j hj => his j (List.mem_cons_of_mem _ hj)
      unfold rpcTry
      rw [exec_bind_ok (exec_postOne node _ method s)]
      rcases node.answer (urls.getD i "") method s.outside with ⟨⟨e | body, elapsed⟩, outside⟩
      · obtain ⟨msg, hmsg⟩ : ∃ msg,
            e.halt ("rpc " ++ method.name) " body unreadable: " = .transport msg := by
          cases e <;> exact ⟨_, rfl⟩
        obtain ⟨hclock, new, hposts, hsent, hlength, hanswer, hunanswered⟩ :=
          ih hrest msg
            { s with
              clock := s.clock + elapsed
              outside := outside
              posts := s.posts ++ [⟨urls.getD i "", method, .error e⟩] }
        dsimp only
        rw [hmsg]
        refine ⟨(Nat.le_add_right _ _).trans hclock, ⟨urls.getD i "", method, .error e⟩ :: new,
          ?_, ?_, Nat.succ_le_succ hlength, hanswer, ?_⟩
        · simpa using hposts
        · intro p hp
          rcases List.mem_cons.mp hp with rfl | hmem
          · exact ⟨hurl, rfl⟩
          · exact hsent p hmem
        · intro h hr
          obtain ⟨hall, hhalt⟩ := hunanswered h hr
          exact ⟨congrArg Nat.succ hall, hhalt⟩
      · refine ⟨Nat.le_add_right _ _, [⟨urls.getD i "", method, .ok body⟩], rfl, ?_, by simp, rfl,
          fun h hr => nomatch hr⟩
        intro p hp
        rw [List.mem_singleton.mp hp]
        exact ⟨hurl, rfl⟩

/-- A call only moves the clock forward and asks. -/
theorem rpcCall_posts (method : DirectMethod) :
    Meets (rpcCall node urls method) fun s r s' =>
      s.clock ≤ s'.clock ∧ ∃ new, s'.posts = s.posts ++ new ∧ CallPosts urls method new r := by
  intro s
  obtain ⟨hclock, new, hposts, hsent, hlength, hanswer, hunanswered⟩ :=
    rpcTry_posts node urls method
      ((List.range urls.length).map fun k => (min s.active (urls.length - 1) + k) % urls.length)
      (by
        intro i hi
        obtain ⟨k, hk, rfl⟩ := List.mem_map.mp hi
        exact Nat.mod_lt _ (Nat.zero_lt_of_lt (List.mem_range.mp hk)))
      ["rpc: no endpoints configured"] s
  rw [List.length_map, List.length_range] at hlength hunanswered
  exact ⟨hclock, new, hposts, hsent, hlength, hanswer, hunanswered⟩

/-- A method is a call with its answer parsed. -/
theorem parsed_posts {α : Type} (method : DirectMethod) (parse : Body → Except Halt α) :
    Meets (rpcCall node urls method >>= fun body => (ofExcept (parse body) : DirectM ω α))
      fun s r s' => s.clock ≤ s'.clock ∧ ∃ new r₀, s'.posts = s.posts ++ new ∧
        CallPosts urls method new r₀ ∧ r = r₀ >>= parse := by
  intro s
  obtain ⟨hclock, new, hposts, hcall⟩ := rpcCall_posts node urls method s
  rw [exec_bind]
  rcases hrun : (rpcCall node urls method).exec s with ⟨e | body, m⟩
  · rw [hrun] at hclock hposts hcall
    exact ⟨hclock, new, _, hposts, hcall, rfl⟩
  · rw [hrun] at hclock hposts hcall
    dsimp only
    rw [exec_ofExcept]
    exact ⟨hclock, new, _, hposts, hcall, rfl⟩

/-! ## Waiting for a signature -/

/-- What the wait does with a status: stop with a result, or keep waiting. -/
def sigVerdict (sig : String) : Except Halt SigStatus → Option (Except Halt Unit)
  | .ok .confirmed => some (.ok ())
  | .ok (.failed err) =>
      some (.error (.rejected ["transaction ", sig, " failed on-chain: ", err]))
  | .ok .pending => none
  | .error e => some (.error e)

/-- The text of a wait that gave up. -/
def unconfirmed (sig : String) (timeoutSecs : UInt64) : Text :=
  ["signature ", sig, " unconfirmed after ", .int timeoutSecs.toNat,
    "s — reconcile before re-issuing"]

theorem sigStatus_posts (sig : String) :
    Meets (sigStatus crates node urls sig) fun s r s' =>
      s.clock ≤ s'.clock ∧ ∃ new r₀, s'.posts = s.posts ++ new ∧
        CallPosts urls (.getSignatureStatuses sig) new r₀ ∧ r = r₀ >>= parseSigStatus crates :=
  parsed_posts node urls (.getSignatureStatuses sig) (parseSigStatus crates)

/-- A sleep before the deadline leaves less time. -/
theorem waited_lt {deadline before after : Nat} (hclock : before ≤ after)
    (hleft : ¬ deadline ≤ after) : deadline - (after + 2000000000) < deadline - before := by
  omega

/-- The wait from a state: ask, stop on a verdict or at the deadline, else sleep for two
seconds. -/
def confirmFrom (sig : String) (timeoutSecs : UInt64) (deadline : Instant) (s : Direct ω) :
    Except Halt Unit × Direct ω :=
  match _h : (sigStatus crates node urls sig).exec s with
  | (status, s') =>
      match sigVerdict sig status with
      | some result => (result, s')
      | none =>
          if _hleft : deadline ≤ s'.clock then
            (.error (.transport (unconfirmed sig timeoutSecs)), s')
          else confirmFrom sig timeoutSecs deadline (s'.sleep 2000000000)
termination_by deadline - s.clock
decreasing_by
  have hclock : s.clock ≤ s'.clock := by
    have hle := (sigStatus_posts crates node urls sig s).1
    rw [_h] at hle
    exact hle
  exact waited_lt hclock _hleft

/-- One round of the wait. -/
theorem confirmFrom_eq (sig : String) (timeoutSecs : UInt64) (deadline : Instant)
    {s s' : Direct ω} {status : Except Halt SigStatus}
    (hask : (sigStatus crates node urls sig).exec s = (status, s')) :
    confirmFrom crates node urls sig timeoutSecs deadline s =
      match sigVerdict sig status with
      | some result => (result, s')
      | none =>
          if deadline ≤ s'.clock then (.error (.transport (unconfirmed sig timeoutSecs)), s')
          else confirmFrom crates node urls sig timeoutSecs deadline (s'.sleep 2000000000) := by
  rw [confirmFrom]
  split
  next status₀ s₀ hask₀ =>
    obtain ⟨rfl, rfl⟩ := Prod.mk.inj (hask.symm.trans hask₀)
    split
    · rfl
    · rfl

/-- Poll until the signature is confirmed, has failed, or the time is up. -/
def confirmSignature (sig : String) (timeoutSecs : UInt64) : DirectM ω Unit :=
  .of fun s => confirmFrom crates node urls sig timeoutSecs (s.clock + durationSecs timeoutSecs) s

theorem exec_confirmSignature (sig : String) (timeoutSecs : UInt64) (s : Direct ω) :
    (confirmSignature crates node urls sig timeoutSecs).exec s =
      confirmFrom crates node urls sig timeoutSecs (s.clock + durationSecs timeoutSecs) s :=
  exec_of _ s

/-- These answers all said that the signature was pending. -/
def AllPending (answers : List Body) : Prop :=
  ∀ body ∈ answers, parseSigStatus crates body = .ok .pending

/-- How a wait ends, by what it posted: on the first answer that is not a pending status; at
the deadline; or with a call that no endpoint answered. -/
inductive WaitEnds (sig : String) (timeoutSecs : UInt64) (deadline : Instant) :
    List Post → Except Halt Unit → Instant → Prop
  | settled {new : List Post} {pendings : List Body} {last : Body} {result : Except Halt Unit}
      {clock : Instant} (hanswers : answersOf new = pendings ++ [last])
      (hpendings : AllPending crates pendings)
      (hlast : sigVerdict sig (parseSigStatus crates last) = some result) :
      WaitEnds sig timeoutSecs deadline new result clock
  | late {new : List Post} {clock : Instant} (hpending : AllPending crates (answersOf new))
      (hclock : deadline ≤ clock) :
      WaitEnds sig timeoutSecs deadline new (.error (.transport (unconfirmed sig timeoutSecs)))
        clock
  | unanswered {before call : List Post} {msg : Text} {clock : Instant}
      (hpending : AllPending crates (answersOf before)) (hcall : answersOf call = [])
      (hall : call.length = urls.length) :
      WaitEnds sig timeoutSecs deadline (before ++ call) (.error (.transport msg)) clock

/-- A round that was answered and keeps waiting may stand before it. -/
theorem WaitEnds.round {sig : String} {timeoutSecs : UInt64} {deadline clock : Instant}
    {call new : List Post} {r : Except Halt Unit}
    (h : WaitEnds crates urls sig timeoutSecs deadline new r clock)
    (hcall : AllPending crates (answersOf call)) :
    WaitEnds crates urls sig timeoutSecs deadline (call ++ new) r clock := by
  have happend : ∀ {answers : List Body}, AllPending crates answers →
      AllPending crates (answersOf call ++ answers) := by
    intro answers hanswers body hbody
    rcases List.mem_append.mp hbody with hmem | hmem
    · exact hcall body hmem
    · exact hanswers body hmem
  cases h with
  | settled hanswers hpendings hlast =>
      refine .settled ?_ (happend hpendings) hlast
      rw [answersOf_append, hanswers, List.append_assoc]
  | late hpending hclock =>
      refine .late ?_ hclock
      rw [answersOf_append]
      exact happend hpending
  | unanswered hpending hlast hall =>
      rw [← List.append_assoc]
      refine .unanswered ?_ hlast hall
      rw [answersOf_append]
      exact happend hpending

/-- What one round hands to the verdict, and what it posted. -/
theorem round_posts {sig : String} {s s' : Direct ω} {status : Except Halt SigStatus}
    (hask : (sigStatus crates node urls sig).exec s = (status, s')) :
    ∃ new, s'.posts = s.posts ++ new ∧
      (∀ p ∈ new, p.url ∈ urls ∧ p.method = .getSignatureStatuses sig) ∧
      ((∃ body, answersOf new = [body] ∧ status = parseSigStatus crates body) ∨
        answersOf new = [] ∧ new.length = urls.length ∧
          ∃ msg, status = .error (.transport msg)) := by
  obtain ⟨-, new, r₀, hposts, hcall, hr⟩ := sigStatus_posts crates node urls sig s
  rw [hask] at hposts hr
  refine ⟨new, hposts, hcall.sent, ?_⟩
  cases r₀ with
  | ok body => exact Or.inl ⟨body, hcall.answer, hr⟩
  | error h =>
      obtain ⟨hall, msg, rfl⟩ := hcall.unanswered h rfl
      exact Or.inr ⟨hcall.answer, hall, msg, hr⟩

/-- A round that keeps waiting was answered with a pending status. -/
theorem allPending_of_verdict {sig : String} {call : List Post} {status : Except Halt SigStatus}
    (hround : (∃ body, answersOf call = [body] ∧ status = parseSigStatus crates body) ∨
      answersOf call = [] ∧ call.length = urls.length ∧ ∃ msg, status = .error (.transport msg))
    (hverdict : sigVerdict sig status = none) : AllPending crates (answersOf call) := by
  rcases hround with ⟨body, hanswer, hstatus⟩ | ⟨-, -, msg, rfl⟩
  · intro b hb
    rw [hanswer, List.mem_singleton] at hb
    rw [hb, ← hstatus]
    unfold sigVerdict at hverdict
    split at hverdict
    · cases hverdict
    · cases hverdict
    · rfl
    · cases hverdict
  · cases hverdict

/-- The run of the wait: round by round. -/
theorem confirmFrom_posts (sig : String) (timeoutSecs : UInt64) (deadline : Instant)
    (s : Direct ω) :
    let run := confirmFrom crates node urls sig timeoutSecs deadline s
    ∃ new, run.2.posts = s.posts ++ new ∧
      (∀ p ∈ new, p.url ∈ urls ∧ p.method = .getSignatureStatuses sig) ∧
      WaitEnds crates urls sig timeoutSecs deadline new run.1 run.2.clock := by
  induction s using confirmFrom.induct crates node urls sig deadline with
  | case1 s status s' hask result hverdict =>
      obtain ⟨call, hposts, hsent, hround⟩ := round_posts crates node urls hask
      rw [confirmFrom_eq crates node urls sig timeoutSecs deadline hask, hverdict]
      refine ⟨call, hposts, hsent, ?_⟩
      rcases hround with ⟨body, hanswer, rfl⟩ | ⟨hanswer, hall, msg, rfl⟩
      · exact .settled (show answersOf call = [] ++ [body] from hanswer) (fun _ h => nomatch h)
          hverdict
      · cases hverdict
        rw [← List.nil_append call]
        exact .unanswered (fun _ h => nomatch h) hanswer hall
  | case2 s status s' hask hverdict hleft =>
      obtain ⟨call, hposts, hsent, hround⟩ := round_posts crates node urls hask
      rw [confirmFrom_eq crates node urls sig timeoutSecs deadline hask, hverdict]
      dsimp only
      rw [if_pos hleft]
      exact ⟨call, hposts, hsent,
        .late (allPending_of_verdict crates urls hround hverdict) hleft⟩
  | case3 s status s' hask hverdict hleft ih =>
      obtain ⟨call, hposts, hsent, hround⟩ := round_posts crates node urls hask
      obtain ⟨new, hnew, hsentnew, hends⟩ := ih
      rw [confirmFrom_eq crates node urls sig timeoutSecs deadline hask, hverdict]
      dsimp only
      rw [if_neg hleft]
      refine ⟨call ++ new, ?_, ?_,
        hends.round crates urls (allPending_of_verdict crates urls hround hverdict)⟩
      · rw [hnew, ← List.append_assoc, ← hposts]
        rfl
      · intro p hp
        rcases List.mem_append.mp hp with hmem | hmem
        · exact hsent p hmem
        · exact hsentnew p hmem

/-- The answers end with an explicit landing, and before it only pending statuses came. -/
def Confirms (answers : List Body) : Prop :=
  ∃ pendings last, answers = pendings ++ [last] ∧ AllPending crates pendings ∧
    parseSigStatus crates last = .ok .confirmed

/-- A wait has ended well exactly if its answers end with an explicit landing. -/
theorem WaitEnds.ok_iff {sig : String} {timeoutSecs : UInt64} {deadline clock : Instant}
    {new : List Post} {r : Except Halt Unit}
    (h : WaitEnds crates urls sig timeoutSecs deadline new r clock) :
    r = .ok () ↔ Confirms crates (answersOf new) := by
  -- answers that are all pending do not end with a landing
  have hnone : ∀ {answers : List Body}, AllPending crates answers →
      ¬ Confirms crates answers := by
    rintro answers hpending ⟨pendings, last, rfl, -, hlast⟩
    have hpends := hpending last (by simp)
    rw [hlast] at hpends
    cases hpends
  cases h with
  | settled hanswers hpendings hlast =>
      rename_i pendings last
      constructor
      · rintro rfl
        refine ⟨pendings, last, hanswers, hpendings, ?_⟩
        unfold sigVerdict at hlast
        split at hlast
        · assumption
        · cases hlast
        · cases hlast
        · cases hlast
      · rintro ⟨pendings', last', hanswers', -, hlast'⟩
        rw [hanswers] at hanswers'
        obtain ⟨-, rfl⟩ := List.append_inj' hanswers' rfl |>.imp_right List.singleton_inj.mp
        rw [hlast'] at hlast
        exact (Option.some.inj hlast).symm
  | late hpending hclock => simp [hnone hpending]
  | unanswered hpending hcall hall =>
      rw [answersOf_append, hcall, List.append_nil]
      simp [hnone hpending]

/-- A wait posts what its rounds post. -/
theorem confirmSignature_posts (sig : String) (timeoutSecs : UInt64) :
    Meets (confirmSignature crates node urls sig timeoutSecs) fun s r s' =>
      ∃ new, s'.posts = s.posts ++ new ∧
        (∀ p ∈ new, p.url ∈ urls ∧ p.method = .getSignatureStatuses sig) ∧
        (r = .ok () ↔ Confirms crates (answersOf new)) ∧
        WaitEnds crates urls sig timeoutSecs (s.clock + durationSecs timeoutSecs) new r
          s'.clock := by
  intro s
  rw [exec_confirmSignature]
  obtain ⟨new, hposts, hsent, hends⟩ :=
    confirmFrom_posts crates node urls sig timeoutSecs (s.clock + durationSecs timeoutSecs) s
  exact ⟨new, hposts, hsent, hends.ok_iff, hends⟩

/-- On every node, a wait for a signature asks for nothing but its status, at the endpoints of
the client, and ends well exactly if the answers end with an explicit landing after pending
ones; otherwise with what that answer says, or as unknown, at the deadline or when no endpoint
answered. -/
theorem confirmed_by_evidence (sig : String) (timeoutSecs : UInt64) (s : Direct ω) :
    let run := (confirmSignature crates node urls sig timeoutSecs).exec s
    ∃ new, run.2.posts = s.posts ++ new ∧
      (∀ p ∈ new, p.url ∈ urls ∧ p.method = .getSignatureStatuses sig) ∧
      (run.1 = .ok () ↔ Confirms crates (answersOf new)) ∧
      WaitEnds crates urls sig timeoutSecs (s.clock + durationSecs timeoutSecs) new run.1
        run.2.clock :=
  confirmSignature_posts crates node urls sig timeoutSecs s

end Client

end Direct

end HfmcBot
