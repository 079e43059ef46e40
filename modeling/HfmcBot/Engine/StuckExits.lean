import HfmcBot.Engine.ExitRecords
import HfmcBot.Engine.Throttle

/-!
# Stuck positions

A position whose sells keep failing becomes stuck: the sweep gives up on it, a tick does
not.  The flag says that its failed sells have reached the limit, so each position is
noted as stuck at most once, at the failure that reaches it.  The counter beside the flag
is a `u32` and starts again from zero.

* `stuckLives`: how many positions of a mint, past and present, have reached the limit,
  read off the order history;
* `Noted`: the counter, the flag and the notes agree with the history; `noted_run`;
* `StuckMachine`: the state machine; `stuckMachine_iff`, `stuck_position_machine`: exactly
  when it is there;
* `stuck_count_wraps`: a run in which the counter has wrapped.
-/

namespace HfmcBot

open Foundation

/-! ## The history -/

/-- A number of failed exits that has reached the limit. -/
def reachedLimit (limit : Nat) (attempts : Option Nat) : Bool :=
  (attempts.map fun n => decide (limit ≤ n)).getD false

/-- What one order does to the failed sells of the open position, and to the number of
closed positions that had reached the limit. -/
def stuckStep (limit : Nat) (mint : Mint) (a : Option Nat × Nat) (s : Sent) : Option Nat × Nat :=
  let next := lifeStep (fun _ => 0) (fun n => n + 1) mint a.1 s
  (next, if next = none ∧ reachedLimit limit a.1 = true then a.2 + 1 else a.2)

/-- The positions of a mint, past and present, whose failed sells have reached the
limit. -/
def stuckLives (limit : Nat) (sent : List Sent) (mint : Mint) : Nat :=
  let a := sent.foldl (stuckStep limit mint) (none, 0)
  a.2 + if reachedLimit limit a.1 then 1 else 0

section History

variable {limit : Nat} {mint : Mint}

/-- The fold carries the failed sells of the open position along. -/
theorem stuckStep_foldl_fst (sent : List Sent) :
    ∀ a : Option Nat × Nat, (sent.foldl (stuckStep limit mint) a).1 =
      sent.foldl (lifeStep (fun _ => 0) (fun n => n + 1) mint) a.1 := by
  induction sent with
  | nil => exact fun _ => rfl
  | cons s rest ih => exact fun a => ih (stuckStep limit mint a s)

/-- How one more order changes the count, from what the open position stood at. -/
theorem stuckLives_concat (limit : Nat) (mint : Mint) (sent : List Sent) (s : Sent) :
    ∃ closed : Nat,
      stuckLives limit sent mint =
        closed + (if reachedLimit limit (failedSince sent mint) then 1 else 0) ∧
      stuckLives limit (sent ++ [s]) mint =
        (if failedSince (sent ++ [s]) mint = none ∧
            reachedLimit limit (failedSince sent mint) = true then closed + 1 else closed) +
          (if reachedLimit limit (failedSince (sent ++ [s]) mint) then 1 else 0) := by
  have hfst : (sent.foldl (stuckStep limit mint) (none, 0)).1 = failedSince sent mint :=
    stuckStep_foldl_fst sent (none, 0)
  have hnext : failedSince (sent ++ [s]) mint =
      lifeStep (fun _ => 0) (fun n => n + 1) mint (failedSince sent mint) s := life_concat _ _ _ _ _
  refine ⟨(sent.foldl (stuckStep limit mint) (none, 0)).2, ?_, ?_⟩
  · unfold stuckLives
    dsimp only
    rw [hfst]
  · unfold stuckLives
    rw [List.foldl_append, List.foldl_cons, List.foldl_nil, hnext, ← hfst]
    rfl

/-- An order that neither fails nor fills a sell of the mint reaches no limit. -/
theorem stuckLives_of_kept (hlimit : 1 ≤ limit) {sent : List Sent} {s : Sent}
    (hkept : failedSince (sent ++ [s]) mint = failedSince sent mint ∨
      failedSince sent mint = none ∧ failedSince (sent ++ [s]) mint = some 0) :
    stuckLives limit (sent ++ [s]) mint = stuckLives limit sent mint := by
  obtain ⟨closed, hbefore, hafter⟩ := stuckLives_concat limit mint sent s
  rw [hbefore, hafter]
  rcases hkept with hsame | ⟨hnone, hzero⟩
  · rw [hsame]
    cases hheld : failedSince sent mint with
    | none => rfl
    | some n => simp
  · rw [hnone, hzero]
    simp [reachedLimit]
    omega

/-- A position that is closed is counted as before. -/
theorem stuckLives_of_closed {sent : List Sent} {s : Sent}
    (hclosed : failedSince (sent ++ [s]) mint = none) :
    stuckLives limit (sent ++ [s]) mint = stuckLives limit sent mint := by
  obtain ⟨closed, hbefore, hafter⟩ := stuckLives_concat limit mint sent s
  rw [hbefore, hafter, hclosed]
  cases hreached : reachedLimit limit (failedSince sent mint) with
  | true => simp [reachedLimit]
  | false => simp [reachedLimit]

/-- A failed sell counts one more position if it is the one that reaches the limit. -/
theorem stuckLives_of_failed {sent : List Sent} {s : Sent} {n : Nat}
    (hbefore : failedSince sent mint = some n)
    (hafter : failedSince (sent ++ [s]) mint = some (n + 1)) :
    stuckLives limit (sent ++ [s]) mint =
      stuckLives limit sent mint + if n + 1 = limit then 1 else 0 := by
  obtain ⟨closed, hone, htwo⟩ := stuckLives_concat limit mint sent s
  rw [hone, htwo, hbefore, hafter]
  simp only [reduceCtorEq, false_and, if_false, reachedLimit, Option.map_some, Option.getD_some,
    decide_eq_true_iff]
  split_ifs <;> omega

end History

/-! ## The notes -/

/-- A note that a position of the mint became stuck. -/
def AuditRecord.isStuckNote (mint : Mint) : AuditRecord → Bool
  | .decision _ m action _ => decide (m = mint) && decide (action = "position_stuck")
  | _ => false

theorem LaunchRecord.not_stuckNote (mint : Mint) (record : AuditRecord)
    (h : Engine.LaunchRecord record) : record.isStuckNote mint = false := by
  cases record with
  | decision ts m action detail =>
      have haction : action ≠ "position_stuck" := by
        rintro rfl
        rcases h with h | h
        · exact absurd h (by decide)
        · exact absurd h (by decide)
      simp [AuditRecord.isStuckNote, haction]
  | order => rfl
  | fill => rfl
  | tradeClosed => rfl
  | breaker => rfl

namespace ExitTurn

variable {σ : Type} {ex : Executor σ} {now : DateTime} {turn : ExitTurn σ} {mint : Mint}

/-- The notes of a turn whose sell fails: one if its position becomes stuck. -/
theorem stuckNotes_of_failed {err : ExecError} (herr : turn.answer ex now = .error err) :
    ((turn.records ex now).filter (AuditRecord.isStuckNote mint)).length =
      if turn.args.mint = mint ∧ turn.becomesStuck = true then 1 else 0 := by
  unfold records
  rw [herr]
  by_cases hmint : turn.args.mint = mint
  · cases hstuck : turn.becomesStuck with
    | true => simp [stuckRecord, failedRecord, AuditRecord.isStuckNote, hmint]
    | false => simp [failedRecord, AuditRecord.isStuckNote]
  · cases hstuck : turn.becomesStuck with
    | true => simp [stuckRecord, failedRecord, AuditRecord.isStuckNote, hmint]
    | false => simp [failedRecord, AuditRecord.isStuckNote]

/-- A sell that fills notes nothing of the kind. -/
theorem stuckNotes_of_filled {fill : Fill} (hfill : turn.answer ex now = .ok fill) :
    (turn.records ex now).filter (AuditRecord.isStuckNote mint) = [] := by
  unfold records
  rw [hfill]
  cases htrips : turn.trips now fill with
  | true => simp [AuditRecord.isStuckNote, fillRecord]
  | false => simp [AuditRecord.isStuckNote, fillRecord]

/-- Does the turn fail and make its position stuck? -/
def makesStuck (ex : Executor σ) (now : DateTime) (turn : ExitTurn σ) : Bool :=
  match turn.answer ex now with
  | .error _ => turn.becomesStuck
  | .ok _ => false

theorem stuckNotes_length :
    ((turn.records ex now).filter (AuditRecord.isStuckNote mint)).length =
      if turn.args.mint = mint ∧ turn.makesStuck ex now = true then 1 else 0 := by
  unfold makesStuck
  cases hanswer : turn.answer ex now with
  | error err => exact stuckNotes_of_failed hanswer
  | ok fill =>
      rw [stuckNotes_of_filled hanswer]
      simp

end ExitTurn

namespace Engine

variable {σ : Type}

/-- The notes about stuck positions of a mint. -/
def stuckNotes (e : Engine σ) (mint : Mint) : List AuditRecord :=
  e.audit.lines.filter (AuditRecord.isStuckNote mint)

/-- Counter and flag agree with the order history. -/
structure Counted (cfg : Config) (e : Engine (σ × List Sent)) : Prop where
  cfg_eq : e.cfg = cfg
  keyed : e.Keyed
  lives : e.desk.Lives Position.exitCount (fun _ => (0, false)) (countExit cfg.maxExitAttempts)

/-- Counter, flag and notes agree with the order history. -/
structure Noted (cfg : Config) (e : Engine (σ × List Sent)) : Prop where
  counted : Counted cfg e
  logged : e.Logged
  notes : ∀ mint, (e.stuckNotes mint).length =
    stuckLives cfg.maxExitAttempts.toNat e.sent mint

section Steps

variable {cfg : Config} {ex : Executor σ} {e : Engine (σ × List Sent)}

/-- What the history says of a held position: so many sells failed, and the counter has
their number up to a multiple of `2 ^ 32`. -/
structure FailedTimes (limit : UInt32) (pos : Position) (n : Nat) : Prop where
  attempts : pos.exitAttempts = UInt32.ofNat n
  stuck : pos.stuck = decide (limit.toNat ≤ n)

/-- The number is read off the history. -/
theorem lives_failedSince {d : Desk} {limit : UInt32} (hlimit : 1 ≤ limit.toNat)
    (h : d.Lives Position.exitCount (fun _ => (0, false)) (countExit limit)) {mint : Mint}
    {pos : Position} (hpos : d.book.lookup mint = some pos) :
    ∃ n, failedSince d.sent mint = some n ∧ FailedTimes limit pos n := by
  have hlife := h mint
  rw [hpos, life_exitCount hlimit, Option.map_some, eq_comm, Option.map_eq_some_iff] at hlife
  obtain ⟨n, hn, hcount⟩ := hlife
  exact ⟨n, hn, (congrArg Prod.fst hcount).symm, (congrArg Prod.snd hcount).symm⟩

theorem Counted.times (hlimit : 1 ≤ cfg.maxExitAttempts.toNat) (h : Counted cfg e)
    {mint : Mint} {pos : Position} (hpos : e.positions.lookup mint = some pos) :
    ∃ n, failedSince e.sent mint = some n ∧ FailedTimes cfg.maxExitAttempts pos n :=
  lives_failedSince hlimit h.lives hpos

/-- Where the history has failed sells, a position is held. -/
theorem Counted.held (hlimit : 1 ≤ cfg.maxExitAttempts.toNat) (h : Counted cfg e) {mint : Mint}
    {n : Nat} (hn : failedSince e.sent mint = some n) :
    ∃ pos, e.positions.lookup mint = some pos ∧ FailedTimes cfg.maxExitAttempts pos n := by
  have hlife : (e.positions.lookup mint).map Position.exitCount = _ := h.lives mint
  have hsent : e.desk.sent = e.sent := rfl
  rw [life_exitCount hlimit, hsent, hn, Option.map_some, Option.map_eq_some_iff] at hlife
  obtain ⟨pos, hpos, hcount⟩ := hlife
  exact ⟨pos, hpos, congrArg Prod.fst hcount, congrArg Prod.snd hcount⟩

/-- A position becomes stuck at the failure that reaches the limit. -/
theorem FailedTimes.becomesStuck_iff {pos : Position} {limit : UInt32} {n : Nat}
    (h : FailedTimes limit pos n) : pos.becomesStuck limit = true ↔ n + 1 = limit.toNat := by
  have hstep := congrArg Prod.snd (countExit_ofNat limit n)
  change (decide (limit.toNat ≤ n) || decide (limit ≤ UInt32.ofNat n + 1)) =
    decide (limit.toNat ≤ n + 1) at hstep
  unfold Position.becomesStuck
  rw [h.attempts, h.stuck]
  by_cases hle : limit.toNat ≤ n
  · simp [hle]
    omega
  · simp only [hle, decide_false, Bool.false_or, Bool.not_false, Bool.true_and] at hstep ⊢
    rw [hstep, decide_eq_true_iff]
    omega

/-- An order of another mint leaves the history of a mint alone. -/
theorem failedSince_sell_of_ne {sent : List Sent} {req : SellRequest} {answer : Answer}
    {mint : Mint} (hmint : req.mint ≠ mint) :
    failedSince (sent ++ [⟨.sell req, answer⟩]) mint = failedSince sent mint := by
  unfold failedSince
  rw [life_concat]
  cases answer with
  | ok fill => exact if_neg hmint
  | error err => exact if_neg hmint

/-- A buy leaves the failed sells alone, or opens a position without any. -/
theorem failedSince_buy {sent : List Sent} {s : Sent} (hbuy : s.order.side = .buy) (mint : Mint) :
    failedSince (sent ++ [s]) mint = failedSince sent mint ∨
      failedSince sent mint = none ∧ failedSince (sent ++ [s]) mint = some 0 := by
  obtain ⟨order, answer⟩ := s
  unfold failedSince
  rw [life_concat]
  cases order with
  | sell req => exact absurd hbuy (by simp [Order.side])
  | buy req =>
      cases answer with
      | error err => exact Or.inl rfl
      | ok fill =>
          unfold lifeStep
          dsimp only
          by_cases hmint : fill.mint = mint
          · rw [if_pos hmint]
            cases hheld : life (fun _ => 0) (fun n => n + 1) sent mint with
            | none => exact Or.inr ⟨rfl, rfl⟩
            | some n => exact Or.inl rfl
          · rw [if_neg hmint]
            exact Or.inl rfl

/-- Buys leave the number of stuck positions alone. -/
theorem stuckLives_buys {limit : Nat} (hlimit : 1 ≤ limit) (mint : Mint) (buys : List Sent) :
    ∀ sent : List Sent, (∀ s ∈ buys, s.order.side = .buy) →
      stuckLives limit (sent ++ buys) mint = stuckLives limit sent mint := by
  induction buys using List.reverseRecOn with
  | nil =>
      intro sent _
      rw [List.append_nil]
  | append_singleton buys s ih =>
      intro sent hbuys
      have hlast := hbuys s (List.mem_append_right _ (List.mem_singleton.mpr rfl))
      rw [← List.append_assoc, stuckLives_of_kept hlimit (failedSince_buy hlast mint)]
      exact ih sent fun s' hs' => hbuys s' (List.mem_append_left _ hs')

/-- A filled sell ends the life of its mint. -/
theorem failedSince_sold (sent : List Sent) (req : SellRequest) (fill : Fill) :
    failedSince (sent ++ [⟨.sell req, .ok fill⟩]) req.mint = none := by
  unfold failedSince
  rw [life_concat]
  exact if_pos rfl

/-- A failed sell counts once. -/
theorem failedSince_failed {sent : List Sent} {req : SellRequest} {n : Nat}
    (h : failedSince sent req.mint = some n) (err : ExecError) :
    failedSince (sent ++ [⟨.sell req, .error err⟩]) req.mint = some (n + 1) := by
  unfold failedSince at h ⊢
  rw [life_concat, h]
  exact if_pos rfl

/-- A turn about a held position makes it stuck at the failure that reaches the limit. -/
theorem turn_becomesStuck_iff {turn : ExitTurn (σ × List Sent)} (hcfg : turn.before.cfg = cfg)
    {pos : Position} {n : Nat} (hfailed : FailedTimes cfg.maxExitAttempts pos n)
    (hpos : turn.before.positions.lookup turn.args.mint = some pos) :
    turn.becomesStuck = true ↔ n + 1 = cfg.maxExitAttempts.toNat := by
  unfold ExitTurn.becomesStuck ExitTurn.position
  rw [hpos, Option.map_some, Option.getD_some, hcfg]
  exact hfailed.becomesStuck_iff

/-- An exit of a held position reaches the limit if it fails and makes the position
stuck. -/
theorem Counted.stuckLives_closePosition (hlimit : 1 ≤ cfg.maxExitAttempts.toNat)
    (h : Counted cfg e) {x : ExitArgs} {pos : Position} (hx : x.mint = pos.mint)
    (hpos : e.positions.lookup pos.mint = some pos) (now : DateTime) (mint : Mint) :
    stuckLives cfg.maxExitAttempts.toNat (e.closePosition ex.recorded x now).sent mint =
      stuckLives cfg.maxExitAttempts.toNat e.sent mint +
        if x.mint = mint ∧ ExitTurn.makesStuck ex.recorded now ⟨e, x⟩ = true then 1 else 0 := by
  have hsent : (e.closePosition ex.recorded x now).sent = e.sent ++ [orderOf ex now ⟨e, x⟩] :=
    closePosition_sent ex e x now
  rw [← hx] at hpos
  obtain ⟨n, hfailed, htimes⟩ := h.times hlimit hpos
  rw [hsent]
  unfold orderOf ExitTurn.makesStuck
  cases hanswer : ExitTurn.answer ex.recorded now ⟨e, x⟩ with
  | ok fill =>
      rw [if_neg (by simp), add_zero]
      by_cases hmint : x.mint = mint
      · subst hmint
        have hclosed : failedSince (e.sent ++
            [⟨.sell (ExitTurn.request ⟨e, x⟩ now), .ok fill⟩]) x.mint = none :=
          failedSince_sold e.sent (ExitTurn.request ⟨e, x⟩ now) fill
        exact stuckLives_of_closed hclosed
      · exact stuckLives_of_kept hlimit (Or.inl (failedSince_sell_of_ne hmint))
  | error err =>
      by_cases hmint : x.mint = mint
      · subst hmint
        have hstuck : ExitTurn.becomesStuck (⟨e, x⟩ : ExitTurn (σ × List Sent)) = true ↔
            n + 1 = cfg.maxExitAttempts.toNat := turn_becomesStuck_iff h.cfg_eq htimes hpos
        rw [stuckLives_of_failed hfailed (failedSince_failed hfailed err)]
        simp only [hstuck, true_and]
      · rw [if_neg fun hand => hmint hand.1, add_zero]
        exact stuckLives_of_kept hlimit (Or.inl (failedSince_sell_of_ne hmint))

/-- An exit of a held position keeps counter and flag. -/
theorem Counted.closePosition (h : Counted cfg e)
    (ev : Event) {pos : Position} (hpos : e.positions.lookup pos.mint = some pos)
    (refPrice liquidityUsd : Decimal) (reason : String) :
    Counted cfg
      (e.closePosition ex.recorded (pos.exitArgs refPrice liquidityUsd reason) ev.ts) := by
  have hdesk := closePosition_desk ex e refPrice liquidityUsd reason ev hpos
  rw [h.cfg_eq] at hdesk
  exact {
    cfg_eq := (closePosition_cfg _ _ _ _).trans h.cfg_eq
    keyed := h.keyed.closePosition _ _ _
    lives := hdesk.lives (lifeField_exitCount cfg) h.lives }

theorem Counted.ticked (ex : Executor σ) (h : Counted cfg e) {p : PriceUpdate} {pos : Position}
    (hpos : e.positions.lookup p.mint = some pos) : Counted cfg (e.ticked p pos) := by
  have hdesk : DeskStep ex e.cfg (.price p) e.desk (e.ticked p pos).desk :=
    DeskStep.tick e.desk p pos rfl hpos
  rw [h.cfg_eq] at hdesk
  exact {
    cfg_eq := h.cfg_eq
    keyed := h.keyed.ticked hpos
    lives := hdesk.lives (lifeField_exitCount cfg) h.lives }

/-- A launch keeps them, and reaches no limit. -/
theorem Counted.onLaunch (hlimit : 1 ≤ cfg.maxExitAttempts.toNat) (h : Counted cfg e)
    (ex : Executor σ) (launch : Launch) :
    Counted cfg (e.onLaunch ex.recorded launch) ∧
      ∀ mint, stuckLives cfg.maxExitAttempts.toNat (e.onLaunch ex.recorded launch).sent mint =
        stuckLives cfg.maxExitAttempts.toNat e.sent mint := by
  obtain ⟨buys, hsent, hside⟩ := Steps.launch_buys (onLaunch_steps ex.recorded e launch)
  have hstep : ∀ a b, Step ex.recorded (.launch launch) .handler a b →
      Counted cfg a → Counted cfg b := by
    intro a b hab ha
    have hdesk := hab.desk ha.keyed
    rw [ha.cfg_eq] at hdesk
    exact {
      cfg_eq := hab.cfg.trans ha.cfg_eq
      keyed := hab.keyed ha.keyed
      lives := steps_invariant (fun _ _ hstep ha => hstep.lives (lifeField_exitCount cfg) ha)
        hdesk ha.lives }
  refine ⟨steps_invariant hstep (onLaunch_steps ex.recorded e launch) h, fun mint => ?_⟩
  rw [hsent]
  exact stuckLives_buys hlimit mint buys e.sent hside

theorem counted_new (cfg : Config) (st : σ) (audit : AuditLog) (today : Int) :
    Counted cfg (Engine.new cfg (st, []) audit today) where
  cfg_eq := rfl
  keyed := keyed_new cfg (st, []) audit today
  lives := fun _ => rfl

/-- The notes an exit of a held position adds are the limits it reaches. -/
theorem Noted.closePosition (hlimit : 1 ≤ cfg.maxExitAttempts.toNat) (h : Noted cfg e)
    (ev : Event) {pos : Position} (hpos : e.positions.lookup pos.mint = some pos)
    (refPrice liquidityUsd : Decimal) (reason : String) :
    Noted cfg (e.closePosition ex.recorded (pos.exitArgs refPrice liquidityUsd reason) ev.ts) := by
  refine ⟨h.counted.closePosition ev hpos _ _ _, closePosition_logged _ _ _ h.logged,
    fun mint => ?_⟩
  unfold stuckNotes
  rw [closePosition_lines ex.recorded _ _ h.logged, List.filter_append, List.length_append,
    ExitTurn.stuckNotes_length, h.counted.stuckLives_closePosition hlimit rfl hpos]
  exact congrArg (· + _) (h.notes mint)

theorem Noted.ticked (ex : Executor σ) (h : Noted cfg e) {p : PriceUpdate} {pos : Position}
    (hpos : e.positions.lookup p.mint = some pos) : Noted cfg (e.ticked p pos) :=
  ⟨h.counted.ticked ex hpos, h.logged, h.notes⟩

/-- A launch buys, and neither notes nor reaches a limit. -/
theorem Noted.onLaunch (hlimit : 1 ≤ cfg.maxExitAttempts.toNat) (h : Noted cfg e)
    (launch : Launch) : Noted cfg (e.onLaunch ex.recorded launch) := by
  have hlog : ∀ mint, LogsOnly (AuditRecord.isStuckNote mint) (e.stuckNotes mint)
      (e.onLaunch ex.recorded launch) := fun mint =>
    onLaunch_filter ex.recorded (LaunchRecord.not_stuckNote mint) ⟨h.logged, rfl⟩ launch
  obtain ⟨hcounted, hlives⟩ := h.counted.onLaunch hlimit ex launch
  refine ⟨hcounted, (hlog launch.mint).1, fun mint => ?_⟩
  unfold stuckNotes
  rw [(hlog mint).2, hlives mint]
  exact h.notes mint

/-- Count, flag and notes agree with the history throughout a run. -/
theorem noted_run (hlimit : 1 ≤ cfg.maxExitAttempts.toNat) (ex : Executor σ) (st : σ)
    (today : Int) (ds : List Delivery) :
    Noted cfg (run ex.recorded (Engine.new cfg (st, []) (.opened fun _ => true) today) ds) := by
  refine run_invariant (P := Noted cfg) (fun e d he => ?_) ?_ ds
  · exact deliver_preserves (P := Noted cfg) (fun _ launch _ h => h.onLaunch hlimit launch)
      (fun _ _ _ hpos h => h.ticked ex hpos)
      (fun _ _ _ _ _ hpos h => h.closePosition hlimit d.ev hpos _ _ _)
      (fun _ _ h => ⟨{ h.counted with }, h.logged, h.notes⟩) he.counted.keyed he
  · exact ⟨counted_new cfg st _ today, fun _ => rfl, fun _ => rfl⟩

/-! ## The state machine -/

/-- No more sells have failed than were sent. -/
theorem failedSince_le {mint : Mint} (sent : List Sent) :
    ∀ n, failedSince sent mint = some n → n ≤ sent.length := by
  induction sent using List.reverseRecOn with
  | nil => exact fun n hn => absurd hn (by simp [failedSince, life])
  | append_singleton sent s ih =>
      intro n hn
      rw [List.length_append, List.length_singleton]
      obtain ⟨order, answer⟩ := s
      cases order with
      | buy req =>
          rcases failedSince_buy (s := ⟨.buy req, answer⟩) rfl mint with hsame | ⟨-, hzero⟩
          · exact Nat.le_succ_of_le (ih n (hsame.symm.trans hn))
          · rw [hzero, Option.some_inj] at hn
            omega
      | sell req =>
          by_cases hmint : req.mint = mint
          · subst hmint
            cases answer with
            | ok fill =>
                rw [failedSince_sold] at hn
                exact absurd hn (by simp)
            | error err =>
                unfold failedSince at hn ih
                rw [life_concat] at hn
                simp only [lifeStep, if_true, Option.map_eq_some_iff] at hn
                obtain ⟨m, hm, rfl⟩ := hn
                exact Nat.succ_le_succ (ih m hm)
          · rw [failedSince_sell_of_ne hmint] at hn
            exact Nat.le_succ_of_le (ih n hn)

/-- While no sell of a mint fills, its failed sells only grow. -/
theorem failedSince_mono {mint : Mint} (orders : List Sent) : ∀ {sent : List Sent} {n : Nat},
    failedSince sent mint = some n →
      (∀ s ∈ orders, s.order.side = .sell → s.order.mint = mint → s.filled = false) →
        ∃ m, n ≤ m ∧ failedSince (sent ++ orders) mint = some m := by
  induction orders using List.reverseRecOn with
  | nil =>
      intro sent n hn _
      exact ⟨n, le_refl n, by rw [List.append_nil]; exact hn⟩
  | append_singleton orders s ih =>
      intro sent n hn hall
      obtain ⟨m, hle, hm⟩ := ih hn fun s' hs' => hall s' (List.mem_append_left _ hs')
      have hlast := hall s (List.mem_append_right _ (List.mem_singleton.mpr rfl))
      obtain ⟨order, answer⟩ := s
      rw [← List.append_assoc]
      cases order with
      | buy req =>
          rcases failedSince_buy (s := ⟨.buy req, answer⟩) rfl mint with hsame | ⟨hnone, -⟩
          · exact ⟨m, hle, hsame.trans hm⟩
          · rw [hnone] at hm
            exact absurd hm (by simp)
      | sell req =>
          by_cases hmint : req.mint = mint
          · subst hmint
            cases answer with
            | ok fill => exact absurd (hlast rfl rfl) (by simp [Sent.filled])
            | error err => exact ⟨m + 1, by omega, failedSince_failed hm err⟩
          · exact ⟨m, hle, (failedSince_sell_of_ne hmint).trans hm⟩

/-- A stuck position that is not sold stays stuck. -/
theorem Counted.stays_stuck {e' : Engine (σ × List Sent)} (hlimit : 1 ≤ cfg.maxExitAttempts.toNat)
    (h : Counted cfg e) (h' : Counted cfg e') {orders : List Sent}
    (hsent : e'.sent = e.sent ++ orders) {mint : Mint} {pos : Position}
    (hpos : e.positions.lookup mint = some pos) (hstuck : pos.stuck = true)
    (hunsold : ∀ s ∈ orders, s.order.side = .sell → s.order.mint = mint → s.filled = false) :
    ∃ pos', e'.positions.lookup mint = some pos' ∧ pos'.stuck = true := by
  obtain ⟨n, hn, htimes⟩ := h.times hlimit hpos
  obtain ⟨m, hle, hm⟩ := failedSince_mono orders hn hunsold
  rw [← hsent] at hm
  obtain ⟨pos', hpos', htimes'⟩ := h'.held hlimit hm
  have hreached : cfg.maxExitAttempts.toNat ≤ n := by
    rw [htimes.stuck] at hstuck
    exact of_decide_eq_true hstuck
  exact ⟨pos', hpos', by rw [htimes'.stuck, decide_eq_true_iff]; omega⟩

/-- What holds of stuck positions whatever their counter reads: a stuck position that is not
sold stays stuck; each position that reaches the limit is noted once, by the exit that
fails at the limit; the sweep sells no stuck position; and a tick on which an exit rule
fires sells whatever the flag says.  The sells of the event are those of its exits. -/
structure StuckRules (cfg : Config) (ex : Executor σ) (e : Engine (σ × List Sent))
    (d : Delivery) : Prop where
  kept : ∀ mint pos, e.positions.lookup mint = some pos → pos.stuck = true →
    (∀ s ∈ sentSince e (e.deliver ex.recorded d),
      s.order.side = .sell → s.order.mint = mint → s.filled = false) →
        ∃ pos', (e.deliver ex.recorded d).positions.lookup mint = some pos' ∧ pos'.stuck = true
  notes : ∀ mint, (e.stuckNotes mint).length =
    stuckLives cfg.maxExitAttempts.toNat e.sent mint
  noted : ∀ turn ∈ e.exitTurns ex.recorded d.order d.ev, ∀ err,
    turn.answer ex.recorded d.ts = .error err →
      ((turn.records ex.recorded d.ts).filter
        (AuditRecord.isStuckNote turn.args.mint)).length =
        if (failedSince turn.before.sent turn.args.mint).map (fun n => n + 1) =
            some cfg.maxExitAttempts.toNat
          then 1 else 0
  swept : ∀ turn ∈ sweepTurns ex.recorded d.order (e.handle ex.recorded d.ev) d.ts,
    ∃ pos, (e.handle ex.recorded d.ev).positions.lookup turn.args.mint = some pos ∧
      pos.stuck = false
  ticked : ∀ p pos dec, d.ev = .price p → e.positions.lookup p.mint = some pos →
    (tickPosition cfg p pos).2 = some dec →
      ∃ turn, e.handlerTurns d.ev = [turn] ∧ turn.args.mint = p.mint
  orders : ∃ buys, (e.deliver ex.recorded d).sent =
      e.sent ++ buys ++ (e.exitTurns ex.recorded d.order d.ev).map (orderOf ex d.ts) ∧
    ∀ s ∈ buys, s.order.side = .buy

/-- The whole state machine: these rules, the counter is the number of failed sells since
the position opened, and the flag says that the counter has reached the limit. -/
structure StuckMachine (cfg : Config) (ex : Executor σ) (e : Engine (σ × List Sent))
    (d : Delivery) : Prop extends StuckRules cfg ex e d where
  attempts : ∀ mint, (e.positions.lookup mint).map (fun pos => pos.exitAttempts.toNat) =
    failedSince e.sent mint
  stuck : ∀ mint pos, e.positions.lookup mint = some pos →
    (pos.stuck = true ↔ cfg.maxExitAttempts ≤ pos.exitAttempts)

/-- The note of a failed exit, by what its position stood at. -/
theorem Counted.noted (hlimit : 1 ≤ cfg.maxExitAttempts.toNat) (h : Counted cfg e) (d : Delivery) :
    ∀ turn ∈ e.exitTurns ex.recorded d.order d.ev, ∀ err,
      turn.answer ex.recorded d.ts = .error err →
        ((turn.records ex.recorded d.ts).filter
          (AuditRecord.isStuckNote turn.args.mint)).length =
          if (failedSince turn.before.sent turn.args.mint).map (fun n => n + 1) =
              some cfg.maxExitAttempts.toNat
            then 1 else 0 := by
  intro turn hturn err herr
  obtain ⟨pos, hheld, hturnCfg⟩ := exitTurns_held h.keyed d.order turn hturn
  have hlives := exitTurns_desk (P := fun d' =>
    d'.Lives Position.exitCount (fun _ => (0, false)) (countExit cfg.maxExitAttempts))
    h.keyed (fun _ _ hstep ha => by
      rw [h.cfg_eq] at hstep
      exact hstep.lives (lifeField_exitCount cfg) ha) h.lives d.order turn hturn
  have hlookup := hheld.lookup
  rw [← hheld.mint] at hlookup
  obtain ⟨n, hn, htimes⟩ := lives_failedSince hlimit hlives hlookup
  have hsent : turn.before.desk.sent = turn.before.sent := rfl
  rw [hsent] at hn
  have hbecomes := turn_becomesStuck_iff (hturnCfg.trans h.cfg_eq) htimes hlookup
  rw [ExitTurn.stuckNotes_of_failed herr, hn, Option.map_some]
  simp only [hbecomes, true_and, Option.some_inj]

/-- The rules hold throughout a run. -/
theorem stuckRules_run (hlimit : 1 ≤ cfg.maxExitAttempts.toNat) (ex : Executor σ) (st : σ)
    (today : Int) (ds : List Delivery) (d : Delivery) :
    StuckRules cfg ex
      (run ex.recorded (Engine.new cfg (st, []) (.opened fun _ => true) today) ds) d := by
  have hnoted := noted_run hlimit ex st today ds
  have hnoted' := noted_run hlimit ex st today (ds ++ [d])
  rw [run_concat] at hnoted'
  generalize run ex.recorded (Engine.new cfg (st, []) (.opened fun _ => true) today) ds = e
    at hnoted hnoted'
  have hkeyed := hnoted.counted.keyed
  obtain ⟨buys, hsent, hbuys⟩ := deliver_sent ex e d
  refine ⟨?_, hnoted.notes, hnoted.counted.noted hlimit d, ?_, ?_, buys, hsent, hbuys⟩
  · intro mint pos hpos hstuck hunsold
    have hsince : sentSince e (e.deliver ex.recorded d) =
        buys ++ (e.exitTurns ex.recorded d.order d.ev).map (orderOf ex d.ts) :=
      sentSince_of_append (hsent.trans (List.append_assoc _ _ _))
    rw [hsince] at hunsold
    exact hnoted.counted.stays_stuck hlimit hnoted'.counted
      (hsent.trans (List.append_assoc _ _ _)) hpos hstuck hunsold
  · exact sweepTurns_unstuck ((handle_steps ex.recorded e d.ev).keyed hkeyed) d.order d.ts
  · intro p pos dec hev hpos hexit
    rw [← hnoted.counted.cfg_eq] at hexit
    rw [hev]
    exact ⟨_, tickTurns_exit hpos hexit, tickPosition_keyed hkeyed hpos⟩

/-- The counter is exact below `2 ^ 32` failed sells, and nowhere else. -/
theorem FailedTimes.attempts_eq_iff {limit : UInt32} {pos : Position} {n : Nat}
    (h : FailedTimes limit pos n) : pos.exitAttempts.toNat = n ↔ n < 2 ^ 32 := by
  rw [h.attempts, UInt32.toNat_ofNat']
  exact Nat.mod_eq_iff_lt (by decide)

/-- There the flag says that the counter has reached the limit. -/
theorem FailedTimes.stuck_iff {limit : UInt32} {pos : Position} {n : Nat}
    (h : FailedTimes limit pos n) (hn : n < 2 ^ 32) :
    pos.stuck = true ↔ limit ≤ pos.exitAttempts := by
  rw [UInt32.le_iff_toNat_le, h.attempts_eq_iff.mpr hn, h.stuck, decide_eq_true_iff]

end Steps

/-- The whole state machine is there exactly if no open position has failed to sell `2 ^ 32`
times or more. -/
theorem stuckMachine_iff {cfg : Config} (hlimit : 1 ≤ cfg.maxExitAttempts.toNat)
    {ex : Executor σ} {e : Engine (σ × List Sent)} {d : Delivery} (hcounted : Counted cfg e)
    (hrules : StuckRules cfg ex e d) :
    StuckMachine cfg ex e d ↔ ∀ mint n, failedSince e.sent mint = some n → n < 2 ^ 32 := by
  constructor
  · intro h mint n hn
    obtain ⟨pos, hpos, htimes⟩ := hcounted.held hlimit hn
    have hattempts := h.attempts mint
    rw [hpos, hn, Option.map_some, Option.some_inj] at hattempts
    exact htimes.attempts_eq_iff.mp hattempts
  · intro hsmall
    refine ⟨hrules, fun mint => ?_, fun mint pos hpos => ?_⟩
    · cases hn : failedSince e.sent mint with
      | some n =>
          obtain ⟨pos, hpos, htimes⟩ := hcounted.held hlimit hn
          rw [hpos, Option.map_some, htimes.attempts_eq_iff.mpr (hsmall mint n hn)]
      | none =>
          cases hpos : e.positions.lookup mint with
          | none => rfl
          | some pos =>
              obtain ⟨n, hsome, -⟩ := hcounted.times hlimit hpos
              rw [hn] at hsome
              exact absurd hsome (by simp)
    · obtain ⟨n, hn, htimes⟩ := hcounted.times hlimit hpos
      exact htimes.stuck_iff (hsmall mint n hn)

/-- **Stuck positions over whole runs**, under every accepted configuration and every
executor, for the event `d` after any run: the rules hold; the counter of a position is the
number of its failed sells up to a multiple of `2 ^ 32`, and its flag says that they have
reached the limit; and the whole state machine is there exactly if no open position has
failed to sell `2 ^ 32` times or more. -/
theorem stuck_position_machine {cfg : Config} (hcfg : cfg.Accepted) (ex : Executor σ) (st : σ)
    (today : Int) (ds : List Delivery) (d : Delivery) :
    let e := run ex.recorded (Engine.new cfg (st, []) (.opened fun _ => true) today) ds
    StuckRules cfg ex e d ∧
    (∀ mint pos, e.positions.lookup mint = some pos →
      ∃ n, failedSince e.sent mint = some n ∧ FailedTimes cfg.maxExitAttempts pos n) ∧
    (StuckMachine cfg ex e d ↔ ∀ mint n, failedSince e.sent mint = some n → n < 2 ^ 32) := by
  intro e
  have hlimit : 1 ≤ cfg.maxExitAttempts.toNat := hcfg.checked.exit_attempts_pos
  have hrules : StuckRules cfg ex e d := stuckRules_run hlimit ex st today ds d
  have hcounted : Counted cfg e := (noted_run hlimit ex st today ds).counted
  exact ⟨hrules, fun mint pos hpos => hcounted.times hlimit hpos,
    stuckMachine_iff hlimit hcounted hrules⟩

/-- Five failed exits under the defaults: the position is stuck, and noted once. -/
theorem stuck_after_five :
    let e := run Executor.deadPool.recorded
      (Engine.new .paperDefaults ((), []) (.opened fun _ => true) 0)
      [launchAt "A" 0 1, priceAt "A" 2 (1 / 2), priceAt "A" 3 (1 / 2), priceAt "A" 4 (1 / 2),
        priceAt "A" 5 (1 / 2), priceAt "A" 6 (1 / 2)]
    (e.positions.lookup "A").map (fun pos => pos.exitAttempts.toNat) = some 5 ∧
      (e.stuckNotes "A").length = 1 := by
  intro e
  obtain ⟨-, -, hmachine⟩ := stuck_position_machine Config.paperDefaults_accepted
    Executor.deadPool () 0
    [launchAt "A" 0 1, priceAt "A" 2 (1 / 2), priceAt "A" 3 (1 / 2), priceAt "A" 4 (1 / 2),
      priceAt "A" 5 (1 / 2), priceAt "A" 6 (1 / 2)] (priceAt "A" 7 (1 / 2))
  have hfew : ∀ mint n, failedSince e.sent mint = some n → n < 2 ^ 32 := by
    intro mint n hn
    have hle := failedSince_le e.sent n hn
    have hlength : e.sent.length = 8 := by decide +kernel
    omega
  have h := hmachine.mpr hfew
  refine ⟨(h.attempts "A").trans (by decide +kernel), (h.notes "A").trans (by decide +kernel)⟩

/-- After `2 ^ 32` failed sells the counter of the position reads zero. -/
theorem stuck_count_wraps :
    let e := run Executor.deadPool.recorded
      (Engine.new .paperDefaults ((), []) (.opened fun _ => true) 0) (failingTicks (2 ^ 32))
    Config.paperDefaults.Accepted ∧ failedSince e.sent "A" = some (2 ^ 32) ∧
      (e.positions.lookup "A").map Position.exitAttempts = some 0 ∧
      ¬ StuckMachine .paperDefaults Executor.deadPool e (priceAt "A" 0 (1 / 2)) := by
  have hjammed := jammed_failingTicks (2 ^ 32)
  generalize run Executor.deadPool.recorded
    (Engine.new .paperDefaults ((), []) (.opened fun _ => true) 0) (failingTicks (2 ^ 32)) = e
    at hjammed ⊢
  intro e
  obtain ⟨n, hn, hfailed, hattempts⟩ := hjammed.tries
  obtain rfl : n = 2 ^ 32 := by omega
  refine ⟨Config.paperDefaults_accepted, hfailed, hattempts, fun h => ?_⟩
  have hcount := h.attempts "A"
  rw [hfailed] at hcount
  obtain ⟨pos, hpos, htoNat⟩ := Option.map_eq_some_iff.mp hcount
  have hlt : pos.exitAttempts.toNat < 2 ^ 32 := pos.exitAttempts.toNat_lt
  omega

end Engine

end HfmcBot
