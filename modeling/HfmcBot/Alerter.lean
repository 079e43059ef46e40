import HfmcBot.Alerts
import HfmcBot.Foundation.RateLimit
import HfmcBot.Live.Upstream

/-!
# The alerter

`Alerter::fire` of `alerts.rs`.  The rate window of a kind is checked before anything
else, so a call inside it is neither queued for the webhook nor logged.

* `fire`, `fireAll`: the calls of `fire`, one after the other;
* `fireAll_kind`: the log lines and deliveries of a kind are what the
  rate limit of that kind lets through.
-/

namespace HfmcBot

open Foundation

/-- One call of `fire` and the instant of it. -/
structure Fired where
  time : Instant
  call : AlertCall

/-- The alerter: whether a webhook is configured, the rate window, the last instant of
each kind, the `ALERT` lines of the log and the alerts queued for delivery. -/
structure Alerter where
  webhook : Bool
  minInterval : Nat
  lastSent : AlertKind → Option Instant
  lines : List AlertCall
  queued : List Fired

namespace Alerter

/-- Nothing fired yet.  The window is configured in whole seconds. -/
def new (webhook : Bool) (minIntervalSecs : UInt64) : Alerter where
  webhook := webhook
  minInterval := durationSecs minIntervalSecs
  lastSent := fun _ => none
  lines := []
  queued := []

/-- `fire`: true if the alert was new, false if it was limited away. -/
def fire (a : Alerter) (now : Instant) (call : AlertCall) : Alerter × Bool :=
  let limited := match a.lastSent call.kind with
    | some last => decide (now - last < a.minInterval)
    | none => false
  if limited then (a, false)
  else
    ({ a with
      lastSent := fun kind => if kind = call.kind then some now else a.lastSent kind
      lines := a.lines ++ [call]
      queued := if a.webhook then a.queued ++ [⟨now, call⟩] else a.queued }, true)

/-- Calls one after the other. -/
def fireAll (a : Alerter) (fired : List Fired) : Alerter :=
  fired.foldl (fun a f => (a.fire f.time f.call).1) a

/-- The calls of a kind. -/
def ofKind (kind : AlertKind) (fired : List Fired) : List Fired :=
  fired.filter fun f => f.call.kind = kind

/-- The calls of a kind that the rate window lets through. -/
def letThrough (a : Alerter) (kind : AlertKind) (fired : List Fired) : List Fired :=
  admitted a.minInterval Fired.time (a.lastSent kind) (ofKind kind fired)

theorem fire_limited {a : Alerter} {f : Fired}
    (h : admits a.minInterval (a.lastSent f.call.kind) f.time = false) :
    (a.fire f.time f.call).1 = a := by
  unfold fire admits at *
  cases hlast : a.lastSent f.call.kind with
  | none =>
      rw [hlast] at h
      exact absurd h (by simp)
  | some last =>
      rw [hlast] at h
      have hinside : f.time - last < a.minInterval := by simpa using h
      simp [hinside]

theorem fire_sent {a : Alerter} {f : Fired}
    (h : admits a.minInterval (a.lastSent f.call.kind) f.time = true) :
    (a.fire f.time f.call).1 =
      { a with
        lastSent := fun kind => if kind = f.call.kind then some f.time else a.lastSent kind
        lines := a.lines ++ [f.call]
        queued := if a.webhook then a.queued ++ [f] else a.queued } := by
  unfold fire admits at *
  cases hlast : a.lastSent f.call.kind with
  | none => simp
  | some last =>
      rw [hlast] at h
      have houtside : ¬ f.time - last < a.minInterval := by simpa using h
      simp [houtside]

/-- One call, by what it means for a kind: a call of another kind changes nothing, one
inside the window nothing either, and one outside is logged, and queued if there is a
webhook. -/
theorem fireAll_kind (kind : AlertKind) (fired : List Fired) : ∀ a : Alerter,
    ((a.fireAll fired).lines.filter fun c => c.kind = kind) =
        (a.lines.filter fun c => c.kind = kind) ++ (a.letThrough kind fired).map Fired.call ∧
      ofKind kind (a.fireAll fired).queued =
        ofKind kind a.queued ++ if a.webhook then a.letThrough kind fired else [] := by
  induction fired with
  | nil =>
      intro a
      simp [fireAll, letThrough, ofKind, admitted]
  | cons f rest ih =>
      intro a
      have hstep : a.fireAll (f :: rest) = (a.fire f.time f.call).1.fireAll rest := rfl
      obtain ⟨hlines, hqueued⟩ := ih (a.fire f.time f.call).1
      rw [hstep, hlines, hqueued]
      cases hadmits : admits a.minInterval (a.lastSent f.call.kind) f.time with
      | false =>
          rw [fire_limited hadmits]
          have hsame : a.letThrough kind (f :: rest) = a.letThrough kind rest := by
            unfold letThrough ofKind
            by_cases hkind : f.call.kind = kind
            · rw [List.filter_cons_of_pos (by simpa using hkind)]
              subst hkind
              exact if_neg (by rw [hadmits]; exact Bool.false_ne_true)
            · rw [List.filter_cons_of_neg (by simpa using hkind)]
          rw [hsame]
          exact ⟨rfl, rfl⟩
      | true =>
          rw [fire_sent hadmits]
          by_cases hkind : f.call.kind = kind
          · subst hkind
            have hfirst : a.letThrough f.call.kind (f :: rest) =
                f :: admitted a.minInterval Fired.time (some f.time) (ofKind f.call.kind rest) := by
              unfold letThrough ofKind
              rw [List.filter_cons_of_pos (by simp)]
              exact if_pos hadmits
            rw [hfirst]
            unfold letThrough ofKind
            cases a.webhook <;> simp [List.filter_append]
          · have hsame : a.letThrough kind (f :: rest) = a.letThrough kind rest := by
              unfold letThrough ofKind
              rw [List.filter_cons_of_neg (by simpa using hkind)]
            rw [hsame]
            have hother : kind ≠ f.call.kind := fun h => hkind h.symm
            unfold letThrough ofKind
            cases a.webhook <;> simp [List.filter_append, hkind, hother]

end Alerter

end HfmcBot
