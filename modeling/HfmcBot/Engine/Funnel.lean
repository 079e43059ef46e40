import HfmcBot.Engine.Run

/-!
# The funnel of a launch

`on_launch` is a row of entry checks and then the funnel.  `Admitted` collects the
checks; an admitted launch is its funnel from `funnelStart`, any other leaves the
book and the executor alone.  `funnelTurns` lists the states in which the slices
have their turn.
-/

namespace HfmcBot

open Foundation

namespace Engine

variable {σ : Type}

/-- The entry checks of a launch pass. -/
structure Admitted (e : Engine σ) (launch : Launch) : Prop where
  unheld : launch.mint ∉ e.positions
  gate : entryGate launch launch.createdAt e.cfg = .ok ()
  entry : (e.risk.refresh launch.createdAt).EntryOk
  budget : 0 < positionBudget e.cfg e.equity e.deployedUsd

/-- The budget of the launch. -/
def budget (e : Engine σ) : Decimal := positionBudget e.cfg e.equity e.deployedUsd

/-- The slices of its funnel. -/
def slices (e : Engine σ) : List Decimal := splitIntoSlices e.budget e.cfg.funnelSlices

/-- Where the funnel starts: the risk state is refreshed and the budget noted. -/
def funnelStart (e : Engine σ) (launch : Launch) : Engine σ :=
  (e.withRisk (e.risk.refresh launch.createdAt)).auditDecision launch.createdAt launch.mint
    "entry_accepted" ["funnel budget $", .dec e.budget, " into ", launch.launchpad.asStr]

section Launch

variable (ex : Executor σ) {e : Engine σ} {launch : Launch}

/-- An admitted launch is its funnel. -/
theorem onLaunch_admitted (h : e.Admitted launch) :
    e.onLaunch ex launch =
      funnel ex launch (funnelDeadline e.cfg launch) e.slices.length 0 e.slices
        (e.funnelStart launch) := by
  have hcheck : e.risk.checkEntry launch.createdAt = (.ok (), e.risk.refresh launch.createdAt) :=
    Prod.ext ((e.risk.checkEntry_eq_ok_iff launch.createdAt).mpr h.entry)
      (e.risk.checkEntry_snd launch.createdAt)
  unfold onLaunch
  dsimp only
  rw [if_neg h.unheld, h.gate, hcheck]
  dsimp only
  rw [if_neg (not_le.mpr h.budget)]
  rfl

/-- A launch that is turned away trades nothing; at most the risk state is
refreshed. -/
theorem onLaunch_refused_trading (h : ¬ e.Admitted launch) :
    (e.onLaunch ex launch).trading = e.trading ∨
      (e.onLaunch ex launch).trading = (e.withRisk (e.risk.refresh launch.createdAt)).trading := by
  unfold onLaunch
  dsimp only
  split
  · exact Or.inl rfl
  · rename_i hunheld
    cases hgate : entryGate launch launch.createdAt e.cfg with
    | error reason => exact Or.inl rfl
    | ok u =>
        have hsnd := e.risk.checkEntry_snd launch.createdAt
        rcases hcheck : e.risk.checkEntry launch.createdAt with ⟨block | u', risk⟩
        · rw [hcheck] at hsnd
          obtain rfl : risk = e.risk.refresh launch.createdAt := hsnd
          exact Or.inr rfl
        · have hentry := (e.risk.checkEntry_eq_ok_iff launch.createdAt).mp (by rw [hcheck])
          rw [hcheck] at hsnd
          obtain rfl : risk = e.risk.refresh launch.createdAt := hsnd
          dsimp only
          split
          · exact Or.inr rfl
          · rename_i hbudget
            exact absurd ⟨hunheld, hgate, hentry, not_le.mp hbudget⟩ h

/-- A launch that is turned away sends nothing and books nothing. -/
theorem onLaunch_refused_fields (h : ¬ e.Admitted launch) :
    (e.onLaunch ex launch).exec = e.exec ∧ (e.onLaunch ex launch).positions = e.positions ∧
      (e.onLaunch ex launch).equity = e.equity ∧
      (e.onLaunch ex launch).deployedUsd = e.deployedUsd := by
  rcases onLaunch_refused_trading ex h with hsame | hsame
  · obtain ⟨-, -, hexec, hequity, hdeployed, hpos, -, -⟩ := fields_of_trading hsame
    exact ⟨hexec, hpos, hequity, hdeployed⟩
  · obtain ⟨-, -, hexec, hequity, hdeployed, hpos, -, -⟩ := fields_of_trading hsame
    exact ⟨hexec, hpos, hequity, hdeployed⟩

end Launch

/-! ## The turns of a funnel -/

/-- The turn of one slice: the state it finds, its number and its size. -/
structure SliceTurn (σ : Type) where
  before : Engine σ
  idx : Nat
  slice : Decimal

/-- The turns of a funnel, up to the one that stops it. -/
def funnelTurns (ex : Executor σ) (launch : Launch) (deadline : DateTime) (total : Nat) :
    Nat → List Decimal → Engine σ → List (SliceTurn σ)
  | _, [], _ => []
  | idx, slice :: rest, e =>
      ⟨e, idx, slice⟩ ::
        if (e.funnelSlice ex launch deadline idx total slice).2 then
          funnelTurns ex launch deadline total (idx + 1) rest
            (e.funnelSlice ex launch deadline idx total slice).1
        else []

/-- The turns of the funnel of an admitted launch. -/
def launchTurns (ex : Executor σ) (e : Engine σ) (launch : Launch) : List (SliceTurn σ) :=
  funnelTurns ex launch (funnelDeadline e.cfg launch) e.slices.length 0 e.slices
    (e.funnelStart launch)

/-- The three ways of a turn: past the window it notes so, without room in the
throttle it gives up, else it is sent. -/
theorem funnelSlice_cases (ex : Executor σ) (e : Engine σ) (launch : Launch) (deadline : DateTime)
    (idx total : Nat) (slice : Decimal) :
    (deadline < launch.createdAt ∧
      e.funnelSlice ex launch deadline idx total slice =
        (e.auditDecision launch.createdAt launch.mint "funnel_window_expired"
          ["slice ", .int (idx + 1), "/", .int total, " not sent"], false)) ∨
    (launch.createdAt ≤ deadline ∧ (e.risk.refresh launch.createdAt).throttleFull = true ∧
      ∃ block, e.funnelSlice ex launch deadline idx total slice =
        (((e.withRisk (e.risk.refresh launch.createdAt)).auditBlocked launch.createdAt launch.mint
          block).auditDecision launch.createdAt launch.mint "funnel_aborted"
            ["slices ", .int (idx + 1), "/", .int total, " unfilled"], false)) ∨
    (launch.createdAt ≤ deadline ∧ (e.risk.refresh launch.createdAt).throttleFull = false ∧
      e.funnelSlice ex launch deadline idx total slice =
        (e.withRisk ((e.risk.refresh launch.createdAt).pushOrder launch.createdAt)).sendSlice ex
          launch deadline slice) := by
  unfold funnelSlice
  dsimp only
  by_cases hwindow : deadline < launch.createdAt
  · rw [if_pos hwindow]
    exact Or.inl ⟨hwindow, rfl⟩
  · rw [if_neg hwindow]
    have hle : launch.createdAt ≤ deadline := not_lt.mp hwindow
    rcases e.risk.checkOrder_cases launch.createdAt with
      ⟨hfull, block, hcheck⟩ | ⟨hroom, hcheck⟩
    · rw [hcheck]
      exact Or.inr (Or.inl ⟨hle, hfull, block, rfl⟩)
    · rw [hcheck]
      exact Or.inr (Or.inr ⟨hle, hroom, rfl⟩)

section Outcome

variable (ex : Executor σ) (launch : Launch) (deadline : DateTime) (total : Nat)

/-- The engine after a turn. -/
def SliceTurn.after (turn : SliceTurn σ) : Engine σ :=
  (turn.before.funnelSlice ex launch deadline turn.idx total turn.slice).1

/-- Did the slice fill? -/
def SliceTurn.fills (turn : SliceTurn σ) : Bool :=
  (turn.before.funnelSlice ex launch deadline turn.idx total turn.slice).2

/-- A slice that does not fill ends the funnel. -/
theorem SliceTurn.stops (turn : SliceTurn σ)
    (h : turn.fills ex launch deadline total = false) :
    ¬ (turn.before.funnelSlice ex launch deadline turn.idx total turn.slice).2 = true := by
  show ¬ turn.fills ex launch deadline total = true
  rw [h]
  exact Bool.false_ne_true

/-- The turns whose slices fill. -/
def filled (turns : List (SliceTurn σ)) : List (SliceTurn σ) :=
  turns.filter fun turn => turn.fills ex launch deadline total

/-- The slices of a launch that fill. -/
def launchFills (e : Engine σ) : List (SliceTurn σ) :=
  filled ex launch (funnelDeadline e.cfg launch) e.slices.length (launchTurns ex e launch)

end Outcome

/-- A slice leaves the executor in the state its buy led to. -/
theorem sendSlice_exec (ex : Executor σ) (e : Engine σ) (launch : Launch) (deadline : DateTime)
    (slice : Decimal) :
    (e.sendSlice ex launch deadline slice).1.exec =
      (ex.buy (sliceRequest launch deadline slice (e.nextOrderId launch.mint).1) e.exec).2 := by
  rcases sendSlice_cases ex e launch deadline slice with
    ⟨err, st, hbuy, hsend, -⟩ | ⟨fill, st, hbuy, hsend, -⟩
  · rw [(fields_of_trading hsend).exec, hbuy]
    rfl
  · rw [(fields_of_trading hsend).exec, hbuy]
    rfl

/-! ### Reasoning about a funnel turn by turn -/

section Rules

variable {ex : Executor σ} {launch : Launch} {deadline : DateTime} {total : Nat}

/-- What every turn preserves that lets the funnel go on holds before each turn. -/
theorem funnelTurns_invariant {P : Nat → Engine σ → Prop}
    (hstep : ∀ idx slice e, P idx e →
      (e.funnelSlice ex launch deadline idx total slice).2 = true →
      P (idx + 1) (e.funnelSlice ex launch deadline idx total slice).1)
    (slices : List Decimal) : ∀ (idx : Nat) (e : Engine σ), P idx e →
      ∀ turn ∈ funnelTurns ex launch deadline total idx slices e, P turn.idx turn.before := by
  induction slices with
  | nil =>
      intro idx e _ turn hturn
      exact absurd hturn (by simp [funnelTurns])
  | cons slice rest ih =>
      intro idx e he turn hturn
      unfold funnelTurns at hturn
      rcases List.mem_cons.mp hturn with rfl | hlater
      · exact he
      · by_cases hgo : (e.funnelSlice ex launch deadline idx total slice).2 = true
        · rw [if_pos hgo] at hlater
          exact ih (idx + 1) _ (hstep idx slice e he hgo) turn hlater
        · rw [if_neg hgo] at hlater
          exact absurd hlater (by simp)

/-- What every turn of the funnel preserves holds after it. -/
theorem funnel_invariant {Q : Engine σ → Prop} (slices : List Decimal) :
    ∀ (idx : Nat) (e : Engine σ),
      (∀ turn ∈ funnelTurns ex launch deadline total idx slices e, Q turn.before →
        Q (turn.before.funnelSlice ex launch deadline turn.idx total turn.slice).1) →
      Q e → Q (funnel ex launch deadline total idx slices e) := by
  induction slices with
  | nil =>
      intro idx e _ he
      exact he
  | cons slice rest ih =>
      intro idx e hstep he
      have hfirst := hstep ⟨e, idx, slice⟩ (by simp [funnelTurns]) he
      unfold funnel
      dsimp only
      by_cases hgo : (e.funnelSlice ex launch deadline idx total slice).2 = true
      · rw [if_pos hgo]
        apply ih (idx + 1) _ _ hfirst
        intro turn hturn
        apply hstep turn
        unfold funnelTurns
        rw [if_pos hgo]
        exact List.mem_cons_of_mem _ hturn
      · rw [if_neg hgo]
        exact hfirst

/-- A quantity that only filled slices move adds up over the funnel. -/
theorem funnel_total {q : Engine σ → Decimal} {w : SliceTurn σ → Decimal} (slices : List Decimal) :
    ∀ (idx : Nat) (e : Engine σ),
      (∀ turn ∈ funnelTurns ex launch deadline total idx slices e,
        q (turn.after ex launch deadline total) =
          q turn.before + if turn.fills ex launch deadline total then w turn else 0) →
      q (funnel ex launch deadline total idx slices e) =
        q e + ((filled ex launch deadline total
          (funnelTurns ex launch deadline total idx slices e)).map w).sum := by
  induction slices with
  | nil =>
      intro idx e _
      simp [funnel, funnelTurns, filled]
  | cons slice rest ih =>
      intro idx e hturns
      have hfirst := hturns ⟨e, idx, slice⟩ (by simp [funnelTurns])
      unfold funnel funnelTurns filled
      dsimp only
      cases hgo : SliceTurn.fills ex launch deadline total ⟨e, idx, slice⟩ with
      | true =>
          have hflag : (e.funnelSlice ex launch deadline idx total slice).2 = true := hgo
          have hlater := ih (idx + 1) (e.funnelSlice ex launch deadline idx total slice).1 (by
            intro turn hturn
            apply hturns
            unfold funnelTurns
            rw [if_pos hflag]
            exact List.mem_cons_of_mem _ hturn)
          rw [hgo, if_pos rfl] at hfirst
          rw [if_pos hflag, if_pos hflag, List.filter_cons_of_pos hgo, List.map_cons,
            List.sum_cons, ← add_assoc, ← hfirst]
          exact hlater
      | false =>
          have hflag : ¬ (e.funnelSlice ex launch deadline idx total slice).2 = true :=
            SliceTurn.stops ex launch deadline total ⟨e, idx, slice⟩ hgo
          rw [hgo, if_neg Bool.false_ne_true] at hfirst
          rw [if_neg hflag, if_neg hflag, List.filter_singleton, hgo]
          exact hfirst

/-- The turns are numbered one after the other. -/
theorem funnelTurns_idx (slices : List Decimal) : ∀ (idx : Nat) (e : Engine σ),
    (funnelTurns ex launch deadline total idx slices e).map (fun turn => turn.idx) =
      List.range' idx (funnelTurns ex launch deadline total idx slices e).length := by
  induction slices with
  | nil =>
      intro idx e
      rfl
  | cons slice rest ih =>
      intro idx e
      unfold funnelTurns
      by_cases hgo : (e.funnelSlice ex launch deadline idx total slice).2 = true
      · rw [if_pos hgo]
        rw [List.map_cons, ih (idx + 1), List.length_cons, List.range'_succ]
      · rw [if_neg hgo]
        rfl

end Rules

/-! ### Reasoning about a launch as a whole -/

/-- The actions a launch notes in the audit log, apart from what its orders leave there. -/
def launchActions : List String :=
  ["entry", "entry_rejected", "entry_blocked", "entry_accepted", "funnel_window_expired",
    "funnel_aborted"]

section LaunchRule

variable {ex : Executor σ} {launch : Launch} {P : Engine σ → Prop}

/-- What the throttle, the notes of a funnel and its orders preserve, the funnel
preserves. -/
theorem funnel_preserves
    (hrefresh : ∀ e, P e → P (e.withRisk (e.risk.refresh launch.createdAt)))
    (hpush : ∀ e, P e → P (e.withRisk (e.risk.pushOrder launch.createdAt)))
    (hnote : ∀ e action detail, action ∈ launchActions → P e →
      P (e.auditDecision launch.createdAt launch.mint action detail))
    (hsend : ∀ e deadline slice, P e → P (e.sendSlice ex launch deadline slice).1)
    {deadline : DateTime} {total idx : Nat} (slices : List Decimal) {e : Engine σ} (he : P e) :
    P (funnel ex launch deadline total idx slices e) := by
  refine funnel_invariant slices idx e (fun turn _ hturn => ?_) he
  have hfresh := hrefresh turn.before hturn
  rcases funnelSlice_cases ex turn.before launch deadline turn.idx total turn.slice with
    ⟨-, hslice⟩ | ⟨-, -, block, hslice⟩ | ⟨-, -, hslice⟩
  · rw [hslice]
    exact hnote _ _ _ (by simp [launchActions]) hturn
  · rw [hslice]
    have hblocked := hnote _ "entry_blocked" block.text (by simp [launchActions]) hfresh
    exact hnote _ _ _ (by simp [launchActions]) hblocked
  · rw [hslice]
    exact hsend _ _ _ (hpush _ hfresh)

/-- The same for the launch. -/
theorem onLaunch_preserves
    (hrefresh : ∀ e, P e → P (e.withRisk (e.risk.refresh launch.createdAt)))
    (hpush : ∀ e, P e → P (e.withRisk (e.risk.pushOrder launch.createdAt)))
    (hnote : ∀ e action detail, action ∈ launchActions → P e →
      P (e.auditDecision launch.createdAt launch.mint action detail))
    (hsend : ∀ e deadline slice, P e → P (e.sendSlice ex launch deadline slice).1)
    {e : Engine σ} (he : P e) : P (e.onLaunch ex launch) := by
  have hfresh := hrefresh e he
  by_cases hadmitted : e.Admitted launch
  · rw [onLaunch_admitted ex hadmitted]
    apply funnel_preserves hrefresh hpush hnote hsend
    exact hnote _ _ _ (by simp [launchActions]) hfresh
  · unfold onLaunch
    dsimp only
    split
    · exact hnote _ _ _ (by simp [launchActions]) he
    · rename_i hunheld
      cases hgate : entryGate launch launch.createdAt e.cfg with
      | error reason => exact hnote _ _ _ (by simp [launchActions]) he
      | ok u =>
          have hsnd := e.risk.checkEntry_snd launch.createdAt
          rcases hcheck : e.risk.checkEntry launch.createdAt with ⟨block | u', risk⟩
          · rw [hcheck] at hsnd
            obtain rfl : risk = e.risk.refresh launch.createdAt := hsnd
            exact hnote _ _ _ (by simp [launchActions]) hfresh
          · have hentry := (e.risk.checkEntry_eq_ok_iff launch.createdAt).mp (by rw [hcheck])
            rw [hcheck] at hsnd
            obtain rfl : risk = e.risk.refresh launch.createdAt := hsnd
            dsimp only
            split
            · exact hnote _ _ _ (by simp [launchActions]) hfresh
            · -- all checks passed, so the launch was admitted
              rename_i hbudget
              exact absurd ⟨hunheld, hgate, hentry, not_le.mp hbudget⟩ hadmitted

end LaunchRule

end Engine

end HfmcBot
