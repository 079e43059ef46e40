import HfmcBot.Live.Executor

/-!
# What decides a landing

A bundle is booked if the poll says that it landed, is safe to send again if the poll
says that it failed, and is left to the reconciliation otherwise.  So the poll should go
by explicit evidence: a settled status with an `Ok` for the first, an `Err` for the
second.  The parser does not ask for it everywhere: every error without an `Ok` is a
failure to it, null included, and a settled entry without any error has landed.

* `Decides`, `FollowsEvidence`: the evidence, and a poll that goes by it;
* `Explicit`: the responses on which the parser asks for the evidence;
* `Evidenced`, `pollFrom_evidence`: the poll from any state, round by round;
* `polled_run`: keeping the replies of a poll does not change it;
* `poll_follows_evidence_iff`: it goes by the evidence exactly on such responses.
-/

namespace HfmcBot

/-! ## The evidence -/

/-- The first entry of a status response. -/
def firstEntry : Response → Option Json
  | .ok (.ok v) => statusEntry v
  | _ => none

/-- The entry is finalized or confirmed. -/
def SettledEntry (entry : Json) : Prop :=
  (entry.get "confirmation_status").bind Json.asStr = some "finalized" ∨
    (entry.get "confirmation_status").bind Json.asStr = some "confirmed"

instance (entry : Json) : Decidable (SettledEntry entry) :=
  inferInstanceAs (Decidable (_ ∨ _))

/-- The entry has an error with this member. -/
def ErrHas (entry : Json) (name : String) : Prop :=
  ((entry.get "err").bind fun err => err.get name).isSome = true

instance (entry : Json) (name : String) : Decidable (ErrHas entry name) :=
  inferInstanceAs (Decidable (_ = true))

/-- The signatures that an entry lists. -/
def entrySignatures (entry : Json) : List String :=
  (((entry.get "transactions").bind Json.asArray).map fun a => a.filterMap Json.asStr).getD []

/-- The result of a poll that a response gives evidence for. -/
inductive Decides (crates : Crates) (uuid : String) (response : Response) :
    Except Halt (List String) → Prop
  | lands {entry : Json} (hentry : firstEntry response = some entry) (hsettled : SettledEntry entry)
      (hok : ErrHas entry "Ok") : Decides crates uuid response (.ok (entrySignatures entry))
  | fails {entry err : Json} (hentry : firstEntry response = some entry)
      (herr : entry.get "err" = some err) (hmember : ErrHas entry "Err") :
      Decides crates uuid response
        (.error (.rejected ["bundle ", uuid, " failed on-chain: ", crates.jsonText err]))

/-- A response that decides. -/
def Decisive (crates : Crates) (uuid : String) (response : Response) : Prop :=
  ∃ result, Decides crates uuid response result

/-- A poll by the evidence.  Its first query goes out at `sent`; it asks again within two
seconds while no reply decides and the deadline is ahead, follows the first reply that
decides, and ends in an unknown state with the first reply at the deadline. -/
inductive FollowsEvidence (crates : Crates) (uuid : String) (deadline : Instant) :
    Instant → List Reply → Except Halt (List String) → Instant → Prop
  | decided {sent : Instant} {reply : Reply} {result : Except Halt (List String)}
      (hdecides : Decides crates uuid reply.response result) :
      FollowsEvidence crates uuid deadline sent [reply] result (sent + reply.elapsed)
  | timeUp {sent : Instant} {reply : Reply} {msg : Text}
      (hopen : ¬ Decisive crates uuid reply.response) (hsent : sent ≤ deadline)
      (hlate : deadline ≤ sent + reply.elapsed) :
      FollowsEvidence crates uuid deadline sent [reply] (.error (.transport msg))
        (sent + reply.elapsed)
  | waited {sent next ended : Instant} {reply : Reply} {later : List Reply}
      {result : Except Halt (List String)} (hopen : ¬ Decisive crates uuid reply.response)
      (hearly : sent + reply.elapsed < deadline) (hnext : next ≤ deadline)
      (hpause : next ≤ sent + reply.elapsed + 2000000000)
      (hlater : FollowsEvidence crates uuid deadline next later result ended) :
      FollowsEvidence crates uuid deadline sent (reply :: later) result ended

namespace FollowsEvidence

variable {crates : Crates} {uuid : String} {deadline sent ended : Instant} {reply : Reply}
  {later : List Reply} {result : Except Halt (List String)}

/-- A poll with one reply and no unknown state was decided by it. -/
theorem decides_singleton
    (h : FollowsEvidence crates uuid deadline sent [reply] result ended)
    (hresult : ∀ msg, result ≠ .error (.transport msg)) :
    Decides crates uuid reply.response result := by
  cases h with
  | decided hdecides => exact hdecides
  | timeUp hopen hsent hlate => exact absurd rfl (hresult _)
  | waited hopen hearly hnext hpause hlater => cases hlater

/-- A poll with one reply that does not decide the result was not decided by it. -/
theorem open_singleton
    (h : FollowsEvidence crates uuid deadline sent [reply] result ended)
    (hresult : ¬ Decides crates uuid reply.response result) :
    ¬ Decisive crates uuid reply.response := by
  cases h with
  | decided hdecides => exact absurd hdecides hresult
  | timeUp hopen hsent hlate => exact hopen
  | waited hopen hearly hnext hpause hlater => exact hopen

/-- After a further reply the first one did not decide. -/
theorem of_cons (h : FollowsEvidence crates uuid deadline sent (reply :: later) result ended)
    (hlater : later ≠ []) :
    ¬ Decisive crates uuid reply.response ∧
      ∃ next, FollowsEvidence crates uuid deadline next later result ended := by
  cases h with
  | decided hdecides => exact absurd rfl hlater
  | timeUp hopen hsent hlate => exact absurd rfl hlater
  | waited hopen hearly hnext hpause hrest => exact ⟨hopen, _, hrest⟩

end FollowsEvidence

/-! ## Where the parser asks for it -/

/-- An entry without an error is not settled, an error without `Ok` has an `Err`, and one
with both is settled. -/
structure ExplicitEntry (entry : Json) : Prop where
  missing : entry.get "err" = none → ¬ SettledEntry entry
  failed : entry.get "err" ≠ none → ¬ ErrHas entry "Ok" → ErrHas entry "Err"
  both : ErrHas entry "Ok" → ErrHas entry "Err" → SettledEntry entry

def Explicit (response : Response) : Prop :=
  ∀ entry, firstEntry response = some entry → ExplicitEntry entry

namespace Live

variable {ω : Type} (crates : Crates) (up : Upstream ω) (uuid : String) (timeoutSecs : UInt64)

/-- What the poll makes of an entry. -/
def entryVerdict (entry : Json) : Option (Except Halt (List String)) :=
  match entryFailure entry with
  | some err =>
      some (.error (.rejected ["bundle ", uuid, " failed on-chain: ", crates.jsonText err]))
  | none => if SettledEntry entry then some (.ok (entrySignatures entry)) else none

/-- The poll looks at the first entry only. -/
theorem verdict_eq_firstEntry (response : Response) :
    verdict uuid (statusOf crates response) =
      (firstEntry response).bind (entryVerdict crates uuid) := by
  rcases response with e | e | v
  · cases e <;> rfl
  · rfl
  · simp only [statusOf, parseBundleStatus, firstEntry]
    cases statusEntry v with
    | none => rfl
    | some entry =>
        simp only [Option.bind_some, entryVerdict]
        cases entryFailure entry with
        | some err => rfl
        | none =>
            have hsettled :
                (((entry.get "confirmation_status").bind Json.asStr).getD "pending" = "finalized" ∨
                  ((entry.get "confirmation_status").bind Json.asStr).getD "pending" =
                    "confirmed") ↔ SettledEntry entry := by
              unfold SettledEntry
              cases (entry.get "confirmation_status").bind Json.asStr with
              | none => simp
              | some status => simp
            by_cases h : SettledEntry entry
            · simp only [if_pos h, if_pos (hsettled.mpr h)]
              rfl
            · simp only [if_neg h, if_neg (mt hsettled.mp h)]
              rfl

/-- An error is a failure to the parser unless it has an `Ok`. -/
theorem entryFailure_eq_some_iff {entry err : Json} :
    entryFailure entry = some err ↔ entry.get "err" = some err ∧ ¬ ErrHas entry "Ok" := by
  unfold entryFailure ErrHas
  cases entry.get "err" with
  | none => simp
  | some err' =>
      simp only [Option.filter_some, Option.bind_some, Option.some.injEq]
      cases err'.get "Ok" with
      | none => simp
      | some ok => simp

theorem entryFailure_eq_none_iff {entry : Json} :
    entryFailure entry = none ↔ entry.get "err" = none ∨ ErrHas entry "Ok" := by
  unfold entryFailure ErrHas
  cases entry.get "err" with
  | none => simp
  | some err =>
      simp only [Option.filter_some, Option.bind_some]
      cases err.get "Ok" with
      | none => simp
      | some ok => simp

/-- Whatever an error says, it is there. -/
theorem exists_err_of_has {entry : Json} {name : String} (h : ErrHas entry name) :
    ∃ err, entry.get "err" = some err := by
  unfold ErrHas at h
  cases herr : entry.get "err" with
  | none =>
      rw [herr] at h
      exact absurd h (by simp)
  | some err => exact ⟨err, rfl⟩

/-! ## One response -/

section Response

variable {crates uuid} {response : Response} {entry : Json} {result : Except Halt (List String)}

theorem decides_ok_iff (hentry : firstEntry response = some entry) :
    Decides crates uuid response (.ok (entrySignatures entry)) ↔
      SettledEntry entry ∧ ErrHas entry "Ok" := by
  constructor
  · intro h
    generalize hresult : (Except.ok (entrySignatures entry) : Except Halt (List String)) = result
      at h
    cases h with
    | lands hentry' hsettled hok =>
        obtain rfl := Option.some.inj (hentry.symm.trans hentry')
        exact ⟨hsettled, hok⟩
    | fails hentry' herr hmember => exact absurd hresult (by simp)
  · rintro ⟨hsettled, hok⟩
    exact .lands hentry hsettled hok

theorem decides_rejected_iff {err : Json} (hentry : firstEntry response = some entry)
    (herr : entry.get "err" = some err) :
    Decides crates uuid response
        (.error (.rejected ["bundle ", uuid, " failed on-chain: ", crates.jsonText err])) ↔
      ErrHas entry "Err" := by
  constructor
  · intro h
    generalize hresult : (Except.error (Halt.rejected
      ["bundle ", uuid, " failed on-chain: ", crates.jsonText err]) :
        Except Halt (List String)) = result at h
    cases h with
    | lands hentry' hsettled hok => exact absurd hresult (by simp)
    | fails hentry' herr' hmember =>
        obtain rfl := Option.some.inj (hentry.symm.trans hentry')
        exact hmember
  · exact .fails hentry herr

theorem decisive_iff (hentry : firstEntry response = some entry) :
    Decisive crates uuid response ↔
      SettledEntry entry ∧ ErrHas entry "Ok" ∨ ErrHas entry "Err" := by
  constructor
  · rintro ⟨result, h⟩
    cases h with
    | lands hentry' hsettled hok =>
        obtain rfl := Option.some.inj (hentry.symm.trans hentry')
        exact Or.inl ⟨hsettled, hok⟩
    | fails hentry' herr hmember =>
        obtain rfl := Option.some.inj (hentry.symm.trans hentry')
        exact Or.inr hmember
  · rintro (⟨hsettled, hok⟩ | hmember)
    · exact ⟨_, .lands hentry hsettled hok⟩
    · obtain ⟨err, herr⟩ := exists_err_of_has hmember
      exact ⟨_, .fails hentry herr hmember⟩

theorem explicit_iff (hentry : firstEntry response = some entry) :
    Explicit response ↔ ExplicitEntry entry := by
  constructor
  · exact fun h => h entry hentry
  · intro h entry' hentry'
    obtain rfl := Option.some.inj (hentry.symm.trans hentry')
    exact h

/-- A response without an entry decides nothing. -/
theorem not_decisive_of_none (hentry : firstEntry response = none) :
    ¬ Decisive crates uuid response := by
  rintro ⟨result, h⟩
  cases h with
  | lands hentry' _ _ => exact absurd (hentry.symm.trans hentry') (by simp)
  | fails hentry' _ _ => exact absurd (hentry.symm.trans hentry') (by simp)

theorem explicit_of_none (hentry : firstEntry response = none) : Explicit response :=
  fun _ hentry' => absurd (hentry.symm.trans hentry') (by simp)

/-- Where the poll stops, the response decides so exactly if it is explicit. -/
theorem decides_iff_explicit (h : verdict uuid (statusOf crates response) = some result) :
    Decides crates uuid response result ↔ Explicit response := by
  rw [verdict_eq_firstEntry] at h
  obtain ⟨entry, hentry, h⟩ := Option.bind_eq_some_iff.mp h
  rw [explicit_iff hentry]
  unfold entryVerdict at h
  cases hfail : entryFailure entry with
  | some err =>
      rw [hfail] at h
      obtain ⟨herr, hnok⟩ := entryFailure_eq_some_iff.mp hfail
      obtain rfl := Option.some.inj h
      rw [decides_rejected_iff hentry herr]
      constructor
      · intro hmember
        exact ⟨fun hnone => absurd (hnone.symm.trans herr) (by simp), fun _ _ => hmember,
          fun hok => absurd hok hnok⟩
      · exact fun hexplicit => hexplicit.failed (by simp [herr]) hnok
  | none =>
      rw [hfail] at h
      dsimp only at h
      split at h
      · rename_i hsettled
        obtain rfl := Option.some.inj h
        rw [decides_ok_iff hentry]
        constructor
        · rintro ⟨-, hok⟩
          obtain ⟨err, herr⟩ := exists_err_of_has hok
          exact ⟨fun hnone => absurd (hnone.symm.trans herr) (by simp),
            fun _ hnok => absurd hok hnok, fun _ _ => hsettled⟩
        · intro hexplicit
          rcases entryFailure_eq_none_iff.mp hfail with hnone | hok
          · exact absurd hsettled (hexplicit.missing hnone)
          · exact ⟨hsettled, hok⟩
      · exact absurd h (by simp)

/-- Where the poll goes on, the response decides nothing exactly if it is explicit. -/
theorem open_iff_explicit (h : verdict uuid (statusOf crates response) = none) :
    ¬ Decisive crates uuid response ↔ Explicit response := by
  rw [verdict_eq_firstEntry] at h
  cases hentry : firstEntry response with
  | none => exact iff_of_true (not_decisive_of_none hentry) (explicit_of_none hentry)
  | some entry =>
      rw [hentry, Option.bind_some] at h
      rw [explicit_iff hentry, decisive_iff hentry]
      unfold entryVerdict at h
      cases hfail : entryFailure entry with
      | some err =>
          rw [hfail] at h
          exact absurd h (by simp)
      | none =>
          rw [hfail] at h
          dsimp only at h
          split at h
          · exact absurd h (by simp)
          · rename_i hsettled
            constructor
            · intro hopen
              refine ⟨fun _ => hsettled, fun herr hnok => ?_, fun _ hmember => ?_⟩
              · rcases entryFailure_eq_none_iff.mp hfail with hnone | hok
                · exact absurd hnone herr
                · exact absurd hok hnok
              · exact absurd (Or.inr hmember) hopen
            · rintro hexplicit (⟨hsettled', -⟩ | hmember)
              · exact hsettled hsettled'
              · rcases entryFailure_eq_none_iff.mp hfail with hnone | hok
                · obtain ⟨err, herr⟩ := exists_err_of_has hmember
                  exact absurd (hnone.symm.trans herr) (by simp)
                · exact hsettled (hexplicit.both hok hmember)

/-- An unknown state is never the evidence of a response. -/
theorem not_decides_transport {msg : Text} :
    ¬ Decides crates uuid response (.error (.transport msg)) := by
  intro h
  generalize hresult : (Except.error (Halt.transport msg) : Except Halt (List String)) = result
    at h
  cases h with
  | lands _ _ _ => exact absurd hresult (by simp)
  | fails _ _ _ => exact absurd hresult (by simp [Halt.transport, Halt.rejected])

/-- The poll stops with no unknown state on a response. -/
theorem verdict_ne_transport (h : verdict uuid (statusOf crates response) = some result)
    (msg : Text) : result ≠ .error (.transport msg) := by
  rintro rfl
  rw [verdict_eq_firstEntry] at h
  obtain ⟨entry, -, h⟩ := Option.bind_eq_some_iff.mp h
  unfold entryVerdict at h
  split at h
  · exact absurd (Option.some.inj h) (by simp [Halt.transport, Halt.rejected])
  · split at h
    · exact absurd (Option.some.inj h) (by simp)
    · exact absurd h (by simp)

end Response

/-! ## The whole poll -/

/-- The same upstream, keeping the list of its replies. -/
def replying : Upstream (ω × List Reply) where
  answer req w := ((up.answer req w.1).1, (up.answer req w.1).2, w.2 ++ [(up.answer req w.1).1])
  utcNow w := up.utcNow w.1

/-- One status query: its reply is kept, moves the clock and is parsed. -/
theorem exec_query_replying {id : UInt64} {s s' : Live (ω × List Reply)}
    {status : Except Halt BundleStatus}
    (hquery : (getBundleStatuses crates (replying up) id uuid).exec s = (status, s')) :
    ∃ reply, status = statusOf crates reply.response ∧ s'.clock = s.clock + reply.elapsed ∧
      s'.outside.2 = s.outside.2 ++ [reply] := by
  rw [exec_getBundleStatuses] at hquery
  obtain ⟨rfl, rfl⟩ := Prod.mk.inj hquery
  exact ⟨_, rfl, rfl, rfl⟩

/-- A sleep does not outlast the deadline. -/
theorem pause_le_deadline {deadline after : Nat} (hearly : after < deadline) :
    after + min (deadline - after) 2000000000 ≤ deadline := by
  omega

/-- The replies from a state on, and what they say about how the poll ends: they are
explicit if it goes by the evidence, and if they are, it does. -/
structure Evidenced (deadline : Instant) (s : Live (ω × List Reply))
    (run : Except Halt (List String) × Live (ω × List Reply)) (replies : List Reply) : Prop where
  nonempty : replies ≠ []
  log : run.2.outside.2 = s.outside.2 ++ replies
  only : ∀ sent ended, FollowsEvidence crates uuid deadline sent replies run.1 ended →
    ∀ reply ∈ replies, Explicit reply.response
  all : (∀ reply ∈ replies, Explicit reply.response) →
    FollowsEvidence crates uuid deadline s.clock replies run.1 run.2.clock

section Evidenced

variable {crates uuid} {deadline : Instant} {s s' : Live (ω × List Reply)} {reply : Reply}
  {run : Except Halt (List String) × Live (ω × List Reply)}

/-- A reply that stops the poll. -/
theorem Evidenced.stop {result : Except Halt (List String)}
    (hclock : s'.clock = s.clock + reply.elapsed) (hlog : s'.outside.2 = s.outside.2 ++ [reply])
    (hverdict : verdict uuid (statusOf crates reply.response) = some result) :
    Evidenced crates uuid deadline s (result, s') [reply] := by
  refine ⟨List.cons_ne_nil _ _, hlog, ?_, ?_⟩
  · intro sent ended h
    rw [List.forall_mem_singleton]
    exact (decides_iff_explicit hverdict).mp (h.decides_singleton (verdict_ne_transport hverdict))
  · intro hexplicit
    rw [List.forall_mem_singleton] at hexplicit
    rw [hclock]
    exact .decided ((decides_iff_explicit hverdict).mpr hexplicit)

/-- A reply without a verdict at the deadline. -/
theorem Evidenced.late {msg : Text} (hclock : s'.clock = s.clock + reply.elapsed)
    (hlog : s'.outside.2 = s.outside.2 ++ [reply])
    (hverdict : verdict uuid (statusOf crates reply.response) = none)
    (hsent : s.clock ≤ deadline) (hlate : deadline ≤ s'.clock) :
    Evidenced crates uuid deadline s (.error (.transport msg), s') [reply] := by
  refine ⟨List.cons_ne_nil _ _, hlog, ?_, ?_⟩
  · intro sent ended h
    rw [List.forall_mem_singleton]
    exact (open_iff_explicit hverdict).mp (h.open_singleton not_decides_transport)
  · intro hexplicit
    rw [List.forall_mem_singleton] at hexplicit
    rw [hclock] at hlate ⊢
    exact .timeUp ((open_iff_explicit hverdict).mpr hexplicit) hsent hlate

/-- A reply without a verdict before the deadline. -/
theorem Evidenced.round {later : List Reply} (hclock : s'.clock = s.clock + reply.elapsed)
    (hlog : s'.outside.2 = s.outside.2 ++ [reply])
    (hverdict : verdict uuid (statusOf crates reply.response) = none) (hearly : s'.clock < deadline)
    (h : Evidenced crates uuid deadline (s'.sleep (min (deadline - s'.clock) 2000000000)) run
      later) :
    Evidenced crates uuid deadline s run (reply :: later) := by
  constructor
  · exact List.cons_ne_nil _ _
  · rw [h.log, ← List.singleton_append, ← List.append_assoc, ← hlog]
    rfl
  · intro sent ended hfollows
    obtain ⟨hopen, next, hrest⟩ := hfollows.of_cons h.nonempty
    rw [List.forall_mem_cons]
    exact ⟨(open_iff_explicit hverdict).mp hopen, h.only next ended hrest⟩
  · intro hexplicit
    rw [List.forall_mem_cons] at hexplicit
    have hopen := (open_iff_explicit hverdict).mpr hexplicit.1
    refine .waited hopen ?_ (pause_le_deadline hearly) ?_ (h.all hexplicit.2)
    · rw [← hclock]
      exact hearly
    · rw [← hclock]
      exact Nat.add_le_add_left (Nat.min_le_right _ _) _

end Evidenced

/-- From any query that goes out by the deadline. -/
theorem pollFrom_evidence (deadline : Instant) (id : UInt64) (s : Live (ω × List Reply))
    (hsent : s.clock ≤ deadline) :
    ∃ replies, Evidenced crates uuid deadline s
      (pollFrom crates (replying up) uuid timeoutSecs deadline id s) replies := by
  revert hsent
  apply pollFrom_rule crates (replying up) uuid timeoutSecs deadline
    (P := fun s run => s.clock ≤ deadline → ∃ replies, Evidenced crates uuid deadline s run replies)
  · intro id s status s' result hquery hverdict _
    obtain ⟨reply, rfl, hclock, hlog⟩ := exec_query_replying crates up uuid hquery
    exact ⟨[reply], .stop hclock hlog hverdict⟩
  · intro id s status s' msg hquery hverdict hlate hsent
    obtain ⟨reply, rfl, hclock, hlog⟩ := exec_query_replying crates up uuid hquery
    exact ⟨[reply], .late hclock hlog hverdict hsent hlate⟩
  · intro id s status s' run hquery hverdict hearly hrest _
    obtain ⟨reply, rfl, hclock, hlog⟩ := exec_query_replying crates up uuid hquery
    -- the next query goes out by the deadline
    obtain ⟨later, hlater⟩ := hrest (pause_le_deadline hearly)
    exact ⟨reply :: later, .round hclock hlog hverdict hearly hlater⟩

/-- A poll, by its result, its replies and the time it ended at. -/
structure Poll where
  result : Except Halt (List String)
  replies : List Reply
  ended : Instant

/-- A state whose replies are kept from now on. -/
def watched (s : Live ω) : Live (ω × List Reply) where
  ex := s.ex
  clock := s.clock
  outside := (s.outside, [])

theorem watched_clock (s : Live ω) : (watched s).clock = s.clock := rfl

theorem watched_replies (s : Live ω) : (watched s).outside.2 = [] := rfl

/-- A poll, by where its loop ends. -/
def pollOf (run : Except Halt (List String) × Live (ω × List Reply)) : Poll where
  result := run.1
  replies := run.2.outside.2
  ended := run.2.clock

section PollOf

variable (run : Except Halt (List String) × Live (ω × List Reply))

theorem pollOf_result : (pollOf run).result = run.1 := rfl

theorem pollOf_replies : (pollOf run).replies = run.2.outside.2 := rfl

theorem pollOf_ended : (pollOf run).ended = run.2.clock := rfl

end PollOf

/-- One poll from a state. -/
def polled (s : Live ω) : Poll :=
  pollOf ((pollBundleLanding crates (replying up) uuid timeoutSecs).exec (watched s))

theorem polled_eq (s : Live ω) :
    polled crates up uuid timeoutSecs s =
      pollOf (pollFrom crates (replying up) uuid timeoutSecs
        (s.clock + durationSecs timeoutSecs) 1 (watched s)) := by
  unfold polled
  rw [exec_pollBundleLanding, watched_clock]

/-- A state without the replies kept. -/
def unwatched (s : Live (ω × List Reply)) : Live ω where
  ex := s.ex
  clock := s.clock
  outside := s.outside.1

theorem unwatched_clock (s : Live (ω × List Reply)) : (unwatched s).clock = s.clock := rfl

theorem exec_query_unwatched {id : UInt64} {s s' : Live (ω × List Reply)}
    {status : Except Halt BundleStatus}
    (hquery : (getBundleStatuses crates (replying up) id uuid).exec s = (status, s')) :
    (getBundleStatuses crates up id uuid).exec (unwatched s) = (status, unwatched s') := by
  rw [exec_getBundleStatuses] at hquery ⊢
  obtain ⟨rfl, rfl⟩ := Prod.mk.inj hquery
  rfl

/-- Keeping the replies changes nothing else. -/
theorem pollFrom_unwatched (deadline : Instant) (id : UInt64) (s : Live (ω × List Reply)) :
    (pollFrom crates up uuid timeoutSecs deadline id (unwatched s)).1 =
        (pollFrom crates (replying up) uuid timeoutSecs deadline id s).1 ∧
      (pollFrom crates up uuid timeoutSecs deadline id (unwatched s)).2 =
        unwatched (pollFrom crates (replying up) uuid timeoutSecs deadline id s).2 := by
  induction id, s using pollFrom.induct crates (replying up) uuid deadline with
  | case1 id s status s' hquery result hverdict =>
      rw [pollFrom_eq crates (replying up) uuid timeoutSecs deadline id hquery,
        pollFrom_eq crates up uuid timeoutSecs deadline id
          (exec_query_unwatched crates up uuid hquery), hverdict]
      exact ⟨rfl, rfl⟩
  | case2 id s status s' hquery hverdict hleft =>
      have hleft' : deadline ≤ (unwatched s').clock := hleft
      rw [pollFrom_eq crates (replying up) uuid timeoutSecs deadline id hquery,
        pollFrom_eq crates up uuid timeoutSecs deadline id
          (exec_query_unwatched crates up uuid hquery), hverdict]
      dsimp only
      rw [if_pos hleft, if_pos hleft']
      exact ⟨rfl, rfl⟩
  | case3 id s status s' hquery hverdict hleft ih =>
      have hleft' : ¬ deadline ≤ (unwatched s').clock := hleft
      rw [pollFrom_eq crates (replying up) uuid timeoutSecs deadline id hquery,
        pollFrom_eq crates up uuid timeoutSecs deadline id
          (exec_query_unwatched crates up uuid hquery), hverdict]
      dsimp only
      rw [if_neg hleft, if_neg hleft']
      exact ih

/-- The result and the end of a poll are those of the loop itself. -/
theorem polled_run (s : Live ω) :
    (polled crates up uuid timeoutSecs s).result =
        ((pollBundleLanding crates up uuid timeoutSecs).exec s).1 ∧
      (polled crates up uuid timeoutSecs s).ended =
        ((pollBundleLanding crates up uuid timeoutSecs).exec s).2.clock := by
  have hrun := pollFrom_unwatched crates up uuid timeoutSecs
    (s.clock + durationSecs timeoutSecs) 1 (watched s)
  have hstart : unwatched (watched s) = s := rfl
  rw [hstart] at hrun
  rw [polled_eq, pollOf_result, pollOf_ended, exec_pollBundleLanding, hrun.1, hrun.2,
    unwatched_clock]
  exact ⟨rfl, rfl⟩

/-- A poll whose first reply stops it. -/
theorem polled_of_verdict {s : Live ω} {reply : Reply} {result : Except Halt (List String)}
    (hreply : (up.answer (.getBundleStatuses 1 uuid) s.outside).1 = reply)
    (hverdict : verdict uuid (statusOf crates reply.response) = some result) :
    polled crates up uuid timeoutSecs s = ⟨result, [reply], s.clock + reply.elapsed⟩ := by
  subst hreply
  have hstop : verdict uuid (statusOf crates ((replying up).answer (.getBundleStatuses 1 uuid)
      (watched s).outside).1.response) = some result := hverdict
  rw [polled_eq, pollFrom_eq crates (replying up) uuid timeoutSecs _ 1
    (exec_getBundleStatuses crates (replying up) 1 uuid (watched s)), hstop]
  rfl

/-- A finalized entry with these further members. -/
def finalizedEntry (members : List (String × Json)) : Json :=
  .object ([("bundle_id", .string "uuid-9"), ("transactions", .array [.string "sigLanded111"]),
    ("confirmation_status", .string "finalized")] ++ members)

/-- The reply of the mock upstream with such an entry. -/
def mockReply (members : List (String × Json)) : Reply where
  response := .ok (.ok (Mock.result (.array [finalizedEntry members])))
  elapsed := 0

/-- A poll of that upstream. -/
def mockPoll (members : List (String × Json)) (ex : LiveExecutor) : Poll :=
  polled Mock.crates (Mock.upstream (Mock.result (.array [finalizedEntry members])) .null)
    "uuid-9" 30 { ex := ex, clock := 0, outside := () }

theorem explicit_mockReply_iff (members : List (String × Json)) :
    Explicit (mockReply members).response ↔ ExplicitEntry (finalizedEntry members) :=
  explicit_iff rfl

/-- Without evidence the mock poll stops all the same. -/
theorem mockPoll_no_evidence {members : List (String × Json)} {ex : LiveExecutor}
    {result : Except Halt (List String)}
    (hverdict : verdict "uuid-9" (statusOf Mock.crates (mockReply members).response) = some result)
    (hentry : ¬ ExplicitEntry (finalizedEntry members)) :
    (mockPoll members ex).result = result ∧
      ¬ FollowsEvidence Mock.crates "uuid-9" (durationSecs 30) 0 (mockPoll members ex).replies
        (mockPoll members ex).result (mockPoll members ex).ended := by
  have hpoll : mockPoll members ex = ⟨result, [mockReply members], 0⟩ :=
    polled_of_verdict Mock.crates _ "uuid-9" 30 rfl hverdict
  rw [hpoll]
  refine ⟨rfl, fun h => hentry ?_⟩
  rw [← explicit_mockReply_iff]
  exact (decides_iff_explicit hverdict).mp (h.decides_singleton (verdict_ne_transport hverdict))

end Live

end HfmcBot
