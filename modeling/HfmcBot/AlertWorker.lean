import HfmcBot.Alerter
import HfmcBot.Foundation.Channel

/-!
# The webhook worker

`run_worker` of `alerts.rs` behind the alerter: `fire` sends what it lets through into an
unbounded channel, and the worker posts one alert at a time until every sender is gone and the
channel is empty.  A POST that fails is not tried again.  The process may end at any moment,
with a POST under way.

* `AlertPipe`: the alerter, the channel and the worker, act by act;
* `Piped`, `Piped.act`: what every act keeps;
* `alert_delivery`: over every interleaving, the posts are what the rate limits let through,
  in order and once each, and a worker that returns has posted all of it.
-/

namespace HfmcBot

open Foundation

/-- How a POST ends, as far as anyone knows. -/
inductive PostOutcome
  | ok
  | failed (e : String)
  | cut

/-- What happens to the pipe: someone fires, the senders are dropped, the worker waits for an
alert, its POST ends, the process ends. -/
inductive PipeAct
  | fire (now : Instant) (call : AlertCall)
  | dropSenders
  | recv
  | posted (outcome : PostOutcome)
  | exit

/-- The alerter and the worker, with the calls of `fire` so far. -/
structure AlertPipe where
  alerter : Alerter
  courier : Courier Fired PostOutcome
  senders : Bool
  returned : Bool
  fired : List Fired

namespace AlertPipe

/-- `Alerter::new` and the worker that is spawned for it. -/
def new (webhook : Bool) (minIntervalSecs : UInt64) : AlertPipe where
  alerter := .new webhook minIntervalSecs
  courier := .opened none
  senders := true
  returned := false
  fired := []

/-- `fire`, with its send; a receiver that is gone is no error. -/
def fire (p : AlertPipe) (now : Instant) (call : AlertCall) : AlertPipe :=
  let (alerter, new) := p.alerter.fire now call
  { p with
    alerter := alerter
    courier := if new && alerter.webhook then (p.courier.offer ⟨now, call⟩).1 else p.courier
    fired := p.fired ++ [⟨now, call⟩] }

/-- `rx.recv()`: the next alert, or the end where the channel is empty and closed. -/
def recv (p : AlertPipe) : AlertPipe :=
  if p.courier.hand.isNone && p.courier.channel.waiting.isEmpty && !p.senders then
    { p with returned := p.courier.channel.live }
  else { p with courier := p.courier.take }

def act (p : AlertPipe) : PipeAct → AlertPipe
  | .fire now call => if p.senders then p.fire now call else p
  | .dropSenders => { p with senders := false }
  | .recv => if p.returned then p else p.recv
  | .posted outcome => { p with courier := p.courier.finish outcome }
  | .exit => { p with courier := p.courier.stop .cut }

def run (webhook : Bool) (minIntervalSecs : UInt64) (acts : List PipeAct) : AlertPipe :=
  acts.foldl act (new webhook minIntervalSecs)

/-- The alerts that were posted, whatever came of it. -/
def posts (p : AlertPipe) : List Fired := p.courier.done.map Prod.fst

end AlertPipe

/-! ## What every act keeps -/

/-- What `fire` queues. -/
theorem Alerter.fire_queued (a : Alerter) (now : Instant) (call : AlertCall) :
    (a.fire now call).1.webhook = a.webhook ∧
      (a.fire now call).1.queued =
        a.queued ++ if (a.fire now call).2 && a.webhook then [⟨now, call⟩] else [] := by
  unfold Alerter.fire
  cases a.lastSent call.kind with
  | none => cases a.webhook <;> simp
  | some last =>
      by_cases hinside : now - last < a.minInterval
      · simp [hinside]
      · cases a.webhook <;> simp [hinside]

/-- What the channel let in is what the alerter queued, as long as there is a worker; once it
is gone, it is a part of that from the front. -/
structure Piped (webhook : Bool) (minIntervalSecs : UInt64) (p : AlertPipe) : Prop where
  alerter : p.alerter = (Alerter.new webhook minIntervalSecs).fireAll p.fired
  unbounded : p.courier.channel.capacity = none
  prefixed : p.courier.channel.accepted <+: p.alerter.queued
  live : p.courier.channel.live = true → p.courier.channel.accepted = p.alerter.queued
  returned : p.returned = true → p.senders = false ∧ p.courier.hand = none ∧
    p.posts = p.alerter.queued

namespace Piped

variable {webhook : Bool} {minIntervalSecs : UInt64} {p : AlertPipe}

theorem new (webhook : Bool) (minIntervalSecs : UInt64) :
    Piped webhook minIntervalSecs (.new webhook minIntervalSecs) where
  alerter := rfl
  unbounded := rfl
  prefixed := List.prefix_rfl
  live _ := rfl
  returned h := nomatch h

/-- Someone fires. -/
theorem fire (h : Piped webhook minIntervalSecs p) (hsenders : p.senders = true)
    (now : Instant) (call : AlertCall) :
    Piped webhook minIntervalSecs (p.fire now call) := by
  obtain ⟨hwebhook, hqueued⟩ := p.alerter.fire_queued now call
  have haccepted : (p.fire now call).courier.channel.capacity = none ∧
      (p.fire now call).courier.channel.live = p.courier.channel.live ∧
      (p.fire now call).courier.channel.accepted = p.courier.channel.accepted ++
        if ((p.alerter.fire now call).2 && p.alerter.webhook) && p.courier.channel.live
        then [⟨now, call⟩] else [] := by
    unfold AlertPipe.fire
    dsimp only
    rw [hwebhook]
    cases hnew : (p.alerter.fire now call).2 && p.alerter.webhook with
    | false => exact ⟨h.unbounded, rfl, (List.append_nil _).symm⟩
    | true =>
        refine ⟨(p.courier.channel.trySend_capacity _).trans h.unbounded,
          p.courier.channel.trySend_live _, ?_⟩
        -- an unbounded channel refuses only without a receiver
        have hsend := p.courier.channel.trySend_accepted ⟨now, call⟩
        have hsent : (p.courier.channel.trySend ⟨now, call⟩).2 = p.courier.channel.live := by
          rcases p.courier.channel.trySend_cases ⟨now, call⟩ with
            ⟨hyes, hlive, -⟩ | ⟨hno, hdead | hroom⟩
          · rw [hyes, hlive]
          · rw [hno, hdead]
          · simp [Channel.hasRoom, h.unbounded] at hroom
        rw [hsent] at hsend
        exact hsend
  obtain ⟨hcapacity, hlive, haccepted⟩ := haccepted
  have hall : (p.fire now call).alerter.queued = p.alerter.queued ++
      if (p.alerter.fire now call).2 && p.alerter.webhook then [⟨now, call⟩] else [] := hqueued
  have hsame : p.courier.channel.live = true →
      (p.fire now call).courier.channel.accepted = (p.fire now call).alerter.queued := by
    intro hup
    rw [haccepted, hall, hup, Bool.and_true, h.live hup]
  refine ⟨?_, hcapacity, ?_, fun hup => hsame (hlive.symm.trans hup), fun hreturned => ?_⟩
  · unfold AlertPipe.fire
    dsimp only
    rw [h.alerter, Alerter.fireAll, Alerter.fireAll, List.foldl_append]
    rfl
  · cases hup : p.courier.channel.live with
    | true => exact ⟨[], (List.append_nil _).trans (hsame hup)⟩
    | false =>
        rw [haccepted, hup, Bool.and_false, if_neg Bool.false_ne_true, List.append_nil, hall]
        exact h.prefixed.trans (List.prefix_append _ _)
  · rw [(h.returned hreturned).1] at hsenders
    cases hsenders

/-- The worker takes an alert, or returns. -/
theorem recv (h : Piped webhook minIntervalSecs p) (hworks : p.returned = false) :
    Piped webhook minIntervalSecs p.recv := by
  unfold AlertPipe.recv
  split
  · rename_i hdone
    rw [Bool.and_eq_true, Bool.and_eq_true, Option.isNone_iff_eq_none, List.isEmpty_iff,
      Bool.not_eq_true'] at hdone
    obtain ⟨⟨hhand, hwaiting⟩, hsenders⟩ := hdone
    refine ⟨h.alerter, h.unbounded, h.prefixed, h.live, fun hlive => ⟨hsenders, hhand, ?_⟩⟩
    have haccepted := p.courier.accepted_eq
    rw [Courier.pending, hhand, hwaiting, p.courier.channel.keeps hlive] at haccepted
    rw [← h.live hlive, haccepted]
    simp [AlertPipe.posts]
  · have haccepted := p.courier.act_accepted .take
    rw [List.append_nil] at haccepted
    refine ⟨h.alerter, (p.courier.act_capacity .take).trans h.unbounded, ?_, fun hlive => ?_,
      fun hreturned => ?_⟩
    · exact haccepted.symm ▸ h.prefixed
    · have hup := @Courier.act_live _ _ p.courier .take (fun _ hact => by cases hact)
      exact haccepted.trans (h.live (hup.symm.trans hlive))
    · rw [hworks] at hreturned
      cases hreturned

/-- The worker's side of the courier: the end of a POST, or of the process. -/
theorem finish (h : Piped webhook minIntervalSecs p) {courier : Courier Fired PostOutcome}
    (haccepted : courier.channel.accepted = p.courier.channel.accepted)
    (hcapacity : courier.channel.capacity = p.courier.channel.capacity)
    (hlive : courier.channel.live = true → p.courier.channel.live = true)
    (hidle : p.courier.hand = none → courier.hand = none ∧ courier.done = p.courier.done) :
    Piped webhook minIntervalSecs { p with courier := courier } where
  alerter := h.alerter
  unbounded := hcapacity.trans h.unbounded
  prefixed := haccepted.symm ▸ h.prefixed
  live hup := haccepted.trans (h.live (hlive hup))
  returned hreturned := by
    obtain ⟨hsenders, hhand, hposts⟩ := h.returned hreturned
    obtain ⟨hhand', hdone⟩ := hidle hhand
    refine ⟨hsenders, hhand', ?_⟩
    unfold AlertPipe.posts at *
    rw [hdone]
    exact hposts

theorem act (h : Piped webhook minIntervalSecs p) (a : PipeAct) :
    Piped webhook minIntervalSecs (p.act a) := by
  cases a with
  | fire now call =>
      simp only [AlertPipe.act]
      split
      · rename_i hsenders
        exact h.fire hsenders now call
      · exact h
  | dropSenders =>
      refine ⟨h.alerter, h.unbounded, h.prefixed, h.live, fun hreturned => ?_⟩
      exact ⟨rfl, (h.returned hreturned).2⟩
  | recv =>
      simp only [AlertPipe.act]
      split
      · exact h
      · rename_i hworks
        exact h.recv (Bool.not_eq_true _ ▸ hworks)
  | posted outcome =>
      have haccepted := p.courier.act_accepted (.finish outcome)
      rw [List.append_nil] at haccepted
      refine h.finish haccepted rfl id fun hhand => ⟨rfl, ?_⟩
      simp [Courier.finish, hhand]
  | exit =>
      have haccepted := p.courier.act_accepted (.stop .cut)
      rw [List.append_nil] at haccepted
      refine h.finish haccepted rfl (fun hup => nomatch hup) fun hhand => ⟨rfl, ?_⟩
      simp [Courier.stop, Courier.finish, hhand]

end Piped

theorem piped_run (webhook : Bool) (minIntervalSecs : UInt64) (acts : List PipeAct) :
    Piped webhook minIntervalSecs (AlertPipe.run webhook minIntervalSecs acts) :=
  run_invariant (P := Piped webhook minIntervalSecs) (fun _ a hp => hp.act a)
    (.new webhook minIntervalSecs) acts

/-- Over every interleaving of calls of `fire`, receives, ends of POSTs, the end of the senders
and the end of the process: the alerts posted, the one in hand and those waiting or lost come
in the order in which they were let through, each once, and as long as the process runs these
are all that were let through, which for each kind is what its rate window lets through of the
calls; where the calls come in time order, the posts of a kind are of calls a window apart; and
a worker that returns by itself has posted all that was let through. -/
theorem alert_delivery (webhook : Bool) (minIntervalSecs : UInt64) (acts : List PipeAct) :
    let p := AlertPipe.run webhook minIntervalSecs acts
    p.posts ++ p.courier.pending <+: p.alerter.queued ∧
      (p.courier.channel.live = true → p.posts ++ p.courier.pending = p.alerter.queued) ∧
      (∀ kind, Alerter.ofKind kind p.alerter.queued =
        if webhook then
          admitted (durationSecs minIntervalSecs) Fired.time none (Alerter.ofKind kind p.fired)
        else []) ∧
      (p.fired.Pairwise (fun f g => f.time ≤ g.time) → ∀ kind,
        Spaced (durationSecs minIntervalSecs) Fired.time (Alerter.ofKind kind p.posts)) ∧
      (p.returned = true → p.posts = p.alerter.queued) := by
  intro p
  have h := piped_run webhook minIntervalSecs acts
  have haccepted : p.posts ++ p.courier.pending = p.courier.channel.accepted :=
    p.courier.accepted_eq.symm
  have hkinds : ∀ kind, Alerter.ofKind kind p.alerter.queued =
      if webhook then
        admitted (durationSecs minIntervalSecs) Fired.time none (Alerter.ofKind kind p.fired)
      else [] := by
    intro kind
    have hkind := (Alerter.fireAll_kind kind p.fired (.new webhook minIntervalSecs)).2
    rw [← h.alerter] at hkind
    exact hkind
  rw [haccepted]
  refine ⟨h.prefixed, h.live, hkinds, fun htimes kind => ?_, fun hreturned =>
    (h.returned hreturned).2.2⟩
  have hposts : p.posts.Sublist p.alerter.queued := by
    refine List.Sublist.trans ?_ h.prefixed.sublist
    rw [← haccepted]
    exact List.sublist_append_left _ _
  have hspaced : Spaced (durationSecs minIntervalSecs) Fired.time
      (Alerter.ofKind kind p.alerter.queued) := by
    rw [hkinds]
    cases webhook with
    | false => exact List.Pairwise.nil
    | true => exact (admitted_spaced ⟨by simp, htimes.filter _⟩).2
  exact List.Pairwise.sublist (hposts.filter _) hspaced

end HfmcBot
