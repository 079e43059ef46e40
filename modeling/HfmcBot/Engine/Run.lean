import HfmcBot.Engine.Steps
import HfmcBot.Foundation.Runs

/-!
# Runs of the engine

A run feeds a list of events to `on_event`, each together with the order in
which the sweep of that event happens to visit the book.
-/

namespace HfmcBot

open Foundation Relation

/-- One event on its way into the engine. -/
structure Delivery where
  ev : Event
  order : KeyOrder Mint

/-- The time of a delivery is the time of its event. -/
def Delivery.ts (d : Delivery) : DateTime := d.ev.ts

namespace Engine

variable {σ : Type}

/-- One delivery. -/
def deliver (ex : Executor σ) (e : Engine σ) (d : Delivery) : Engine σ := e.onEvent ex d.order d.ev

/-- A whole run. -/
def run (ex : Executor σ) (e : Engine σ) (ds : List Delivery) : Engine σ := ds.foldl (deliver ex) e

theorem run_cons (ex : Executor σ) (e : Engine σ) (d : Delivery) (ds : List Delivery) :
    run ex e (d :: ds) = run ex (deliver ex e d) ds := rfl

theorem run_append (ex : Executor σ) (e : Engine σ) (ds ds' : List Delivery) :
    run ex e (ds ++ ds') = run ex (run ex e ds) ds' := List.foldl_append

theorem run_concat (ex : Executor σ) (e : Engine σ) (ds : List Delivery) (d : Delivery) :
    run ex e (ds ++ [d]) = deliver ex (run ex e ds) d := run_append ex e ds [d]

theorem keyed_new (cfg : Config) (st : σ) (audit : AuditLog) (today : Int) :
    (Engine.new cfg st audit today).Keyed := by
  intro mint pos hpos
  exact absurd hpos (by simp [Engine.new])

theorem Keyed.deliver {e : Engine σ} (h : e.Keyed) (ex : Executor σ) (d : Delivery) :
    (e.deliver ex d).Keyed :=
  onEvent_invariant (P := Keyed) (fun _ _ _ hstep _ he => hstep.keyed he) d.order h h

theorem deliver_cfg {e : Engine σ} (h : e.Keyed) (ex : Executor σ) (d : Delivery) :
    (e.deliver ex d).cfg = e.cfg :=
  onEvent_invariant (P := fun e' => e'.cfg = e.cfg) (fun _ _ _ hstep _ he => hstep.cfg.trans he)
    d.order h rfl

theorem Keyed.run {e : Engine σ} (h : e.Keyed) (ex : Executor σ) (ds : List Delivery) :
    (run ex e ds).Keyed :=
  run_invariant (fun _ d he => he.deliver ex d) h ds

/-- The invariant rule: what every step preserves holds after every run. -/
theorem run_of_steps {ex : Executor σ} {P : Engine σ → Prop}
    (hstep : ∀ ev phase e e', Step ex ev phase e e' → e.Keyed → P e → P e') {e : Engine σ}
    (hkeyed : e.Keyed) (he : P e) (ds : List Delivery) : P (run ex e ds) := by
  have hboth : (run ex e ds).Keyed ∧ P (run ex e ds) := by
    refine run_invariant (P := fun e => e.Keyed ∧ P e) ?_ ⟨hkeyed, he⟩ ds
    intro a d ha
    exact ⟨ha.1.deliver ex d, onEvent_invariant (hstep d.ev) d.order ha.1 ha.2⟩
  exact hboth.2

theorem run_cfg {e : Engine σ} (h : e.Keyed) (ex : Executor σ) (ds : List Delivery) :
    (run ex e ds).cfg = e.cfg :=
  run_of_steps (P := fun e' => e'.cfg = e.cfg) (fun _ _ _ _ hstep _ he => hstep.cfg.trans he) h rfl
    ds

/-- The same for an invariant that speaks about the time reached, in runs whose
timestamps do not decrease. -/
theorem timed_run_of_steps {ex : Executor σ} {P : DateTime → Engine σ → Prop}
    (hwait : ∀ s t e, s ≤ t → P s e → P t e)
    (hstep : ∀ ev phase e e', Step ex ev phase e e' → e.Keyed → P ev.ts e → P ev.ts e')
    {e : Engine σ} (hkeyed : e.Keyed) (he : ∀ t, P t e) {ds : List Delivery}
    (hds : InTimeOrder Delivery.ts ds) {t : DateTime} (ht : ∀ d ∈ ds, d.ts ≤ t) :
    P t (run ex e ds) := by
  have hboth : (run ex e ds).Keyed ∧ P t (run ex e ds) := by
    refine timed_run_invariant Delivery.ts (P := fun t e => e.Keyed ∧ P t e) ?_ ?_
      (fun t => ⟨hkeyed, he t⟩) hds ht
    · intro s t e hst hs
      exact ⟨hs.1, hwait s t e hst hs.2⟩
    · intro a d ha
      exact ⟨ha.1.deliver ex d,
        onEvent_invariant (P := P d.ev.ts) (hstep d.ev) d.order ha.1 ha.2⟩
  exact hboth.2

end Engine

/-! ## Inputs in the manner of the engine's tests -/

/-- A launch that passes the default entry gate, so many seconds after the epoch. -/
def freshLaunch (mint : Mint) (secs : Int) (priceUsd : Decimal) : Launch where
  mint := mint
  launchpad := .pumpFun
  createdAt := seconds secs
  creatorHoldPct := 1
  mintRenounced := true
  isHoneypot := false
  liquidityUsd := 8000
  onCurve := true
  priceUsd := priceUsd

def launchAt (mint : Mint) (secs : Int) (priceUsd : Decimal) : Delivery where
  ev := .launch (freshLaunch mint secs priceUsd)
  order := .ascending

/-- A tick, so many seconds after the epoch. -/
def priceAt (mint : Mint) (secs : Int) (priceUsd : Decimal) : Delivery where
  ev := .price { mint := mint, ts := seconds secs, priceUsd := priceUsd, liquidityUsd := 8000 }
  order := .ascending

end HfmcBot
