import HfmcBot.Engine.MachineRange
import HfmcBot.Feed.Wire
import HfmcBot.Grid

/-!
# Lines beyond the range of the decimals

Extraction lets every finite positive reserve through.  What the enrichment computes
of them has a range of its own, and so has what the engine makes of the event.

* `FeedCrates.Documented` is what the libraries promise;
* `quoteReserves_panic_iff`, `enrichTrade_panic_iff`, `enrichCreate_panic_iff`: where
  an enrichment ends with the program instead of `None`;
* `handleText_finishes_iff`: a line gets through exactly if its reserves keep the range and
  the engine handles the event made of it;
* `line_handled_iff`: the same of the paper engine, down to the ranges of its operators;
* `no_bot_is_safe`: at no rate and in no engine state do all lines get through.
-/

namespace HfmcBot

open Foundation

/-! ## The libraries -/

/-- What the decimal library promises: a number that is a decimal is kept, no decimal
is beyond the limit, and rounding moves a result by less than one. -/
structure FeedCrates.Documented (crates : FeedCrates) : Prop where
  retains : ∀ (m : Int) (scale : Nat), |m| < 2 ^ 96 → scale ≤ 28 →
    crates.fromF64Retain (.finite (m / 10 ^ scale)) = some (m / 10 ^ scale : Decimal)
  inRange : ∀ x d, crates.fromF64Retain x = some d → |d| ≤ maxDecimal
  close : ∀ x, |crates.round x - x| < 1

/-! ## Panics of a sequence -/

section Panics

variable {α β : Type} {stop : ArithStop}

theorem refuseIf_bind_panic_iff {bad : Prop} [Decidable bad] {f : Unit → Except EnrichStop β} :
    (refuseIf bad >>= f) = .error (.panic stop) ↔ ¬ bad ∧ f () = .error (.panic stop) := by
  unfold refuseIf
  by_cases h : bad
  · rw [if_pos h]
    simp [h, bind, Except.bind]
  · rw [if_neg h]
    simp [h, bind, Except.bind]

theorem orRefuse_bind_panic_iff {x : Option α} {f : α → Except EnrichStop β} :
    (orRefuse x >>= f) = .error (.panic stop) ↔ ∃ a, x = some a ∧ f a = .error (.panic stop) := by
  cases x with
  | none => simp [orRefuse, bind, Except.bind]
  | some a => simp [orRefuse, bind, Except.bind]

/-- An operator stops a sequence beyond the limit; within it the sequence goes on with
the rounded result. -/
theorem checked_fit_bind_panic_iff {fmt : NumberFormat} {x : Decimal}
    {f : Decimal → Except EnrichStop β} :
    (checked (fmt.fit x) >>= f) = .error (.panic stop) ↔
      stop = .overflow ∧ fmt.limit < |x| ∨
        |x| ≤ fmt.limit ∧ f (fmt.round x) = .error (.panic stop) := by
  rcases lt_or_ge fmt.limit |x| with hbeyond | hwithin
  · rw [NumberFormat.fit_of_lt hbeyond]
    simp [checked, Except.mapError, bind, Except.bind, hbeyond, not_le.mpr hbeyond, eq_comm]
  · rw [NumberFormat.fit_of_le hwithin]
    simp [checked, Except.mapError, bind, Except.bind, hwithin, not_lt.mpr hwithin]

theorem pure_ne_panic {a : β} : (pure a : Except EnrichStop β) ≠ .error (.panic stop) := by
  simp [pure, Except.pure]

end Panics

/-! ## The enrichment -/

section Enrich

variable (crates : FeedCrates) {stop : ArithStop}

/-- The reserves leave the range at this rate: by their quotient, by the price in
dollars, or by the liquidity. -/
def BeyondRange (vsol vtok solUsd : Decimal) : Prop :=
  maxDecimal < |vsol / vtok| ∨ maxDecimal < |crates.round (vsol / vtok) * solUsd| ∨
    maxDecimal < |2 * vsol| ∨ maxDecimal < |crates.round (2 * vsol) * solUsd|

/-- Both reserves convert to positive decimals, and leave the range. -/
def ReservesStop (vsolSol vtokensTokens : F64) (solUsd : Decimal) : Prop :=
  ∃ vsol vtok, crates.fromF64Retain vsolSol = some vsol ∧
    crates.fromF64Retain vtokensTokens = some vtok ∧ 0 < vsol ∧ 0 < vtok ∧
    BeyondRange crates vsol vtok solUsd

/-- Where the shared part stops the program. -/
theorem quoteReserves_panic_iff {vsolSol vtokensTokens : F64} {solUsd : Decimal} :
    quoteReserves crates vsolSol vtokensTokens solUsd = .error (.panic stop) ↔
      0 < solUsd ∧ stop = .overflow ∧ ReservesStop crates vsolSol vtokensTokens solUsd := by
  unfold quoteReserves
  rw [refuseIf_bind_panic_iff, not_le, orRefuse_bind_panic_iff]
  constructor
  · rintro ⟨hsol, vsol, hvsol, h⟩
    obtain ⟨vtok, hvtok, h⟩ := orRefuse_bind_panic_iff.mp h
    obtain ⟨hpositive, h⟩ := refuseIf_bind_panic_iff.mp h
    obtain ⟨hvsol_pos, hvtok_pos⟩ := not_or.mp hpositive
    have hstops : BeyondRange crates vsol vtok solUsd →
        ReservesStop crates vsolSol vtokensTokens solUsd := fun hbeyond =>
      ⟨vsol, vtok, hvsol, hvtok, not_le.mp hvsol_pos, not_le.mp hvtok_pos, hbeyond⟩
    refine ⟨hsol, ?_⟩
    -- the four operators, in the order of the source
    rw [NumberFormat.div_of_ne (not_le.mp hvtok_pos).ne'] at h
    rcases checked_fit_bind_panic_iff.mp h with ⟨hstop, hbeyond⟩ | ⟨-, h⟩
    · exact ⟨hstop, hstops (Or.inl hbeyond)⟩
    rcases checked_fit_bind_panic_iff.mp h with ⟨hstop, hbeyond⟩ | ⟨-, h⟩
    · exact ⟨hstop, hstops (Or.inr (Or.inl hbeyond))⟩
    rcases checked_fit_bind_panic_iff.mp h with ⟨hstop, hbeyond⟩ | ⟨-, h⟩
    · exact ⟨hstop, hstops (Or.inr (Or.inr (Or.inl hbeyond)))⟩
    rcases checked_fit_bind_panic_iff.mp h with ⟨hstop, hbeyond⟩ | ⟨-, h⟩
    · exact ⟨hstop, hstops (Or.inr (Or.inr (Or.inr hbeyond)))⟩
    · exact absurd h pure_ne_panic
  · rintro ⟨hsol, rfl, vsol, vtok, hvsol, hvtok, hvsol_pos, hvtok_pos, hbeyond⟩
    refine ⟨hsol, vsol, hvsol, ?_⟩
    rw [orRefuse_bind_panic_iff]
    refine ⟨vtok, hvtok, ?_⟩
    rw [refuseIf_bind_panic_iff, NumberFormat.div_of_ne hvtok_pos.ne']
    refine ⟨not_or.mpr ⟨not_le.mpr hvsol_pos, not_le.mpr hvtok_pos⟩, ?_⟩
    rw [checked_fit_bind_panic_iff]
    rcases lt_or_ge maxDecimal |vsol / vtok| with h | h₁
    · exact Or.inl ⟨rfl, h⟩
    refine Or.inr ⟨h₁, ?_⟩
    unfold NumberFormat.mul
    rw [checked_fit_bind_panic_iff]
    rcases lt_or_ge maxDecimal |crates.round (vsol / vtok) * solUsd| with h | h₂
    · exact Or.inl ⟨rfl, h⟩
    refine Or.inr ⟨h₂, ?_⟩
    rw [checked_fit_bind_panic_iff]
    rcases lt_or_ge maxDecimal |2 * vsol| with h | h₃
    · exact Or.inl ⟨rfl, h⟩
    refine Or.inr ⟨h₃, ?_⟩
    rw [checked_fit_bind_panic_iff]
    rcases hbeyond with h | h | h | h
    · exact absurd h (not_lt.mpr h₁)
    · exact absurd h (not_lt.mpr h₂)
    · exact absurd h (not_lt.mpr h₃)
    · exact Or.inl ⟨rfl, h⟩

/-- A trade stops the program exactly where its reserves do. -/
theorem enrichTrade_panic_iff {t : PumpPortalTrade} {ts : DateTime} {solUsd : Decimal}
    (hsol : 0 < solUsd) :
    enrichTrade crates t ts solUsd = .error (.panic stop) ↔
      stop = .overflow ∧ ReservesStop crates t.vsolSol t.vtokensTokens solUsd := by
  have hquote : enrichTrade crates t ts solUsd = .error (.panic stop) ↔
      quoteReserves crates t.vsolSol t.vtokensTokens solUsd = .error (.panic stop) := by
    unfold enrichTrade
    cases quoteReserves crates t.vsolSol t.vtokensTokens solUsd with
    | error err => simp [bind, Except.bind]
    | ok quote => simp [bind, Except.bind, pure, Except.pure]
  rw [hquote, quoteReserves_panic_iff]
  exact and_iff_right hsol

/-- The share of the creator stays far within the range. -/
theorem creatorHold_ne_panic (hdoc : crates.Documented) {initialBuyTokens : F64} :
    creatorHold crates initialBuyTokens ≠ .error (.panic stop) := by
  intro h
  unfold creatorHold at h
  obtain ⟨buy, hbuy, h⟩ := orRefuse_bind_panic_iff.mp h
  obtain ⟨-, h⟩ := refuseIf_bind_panic_iff.mp h
  have hsupply : pumpSupplyTokens ≠ 0 := by
    norm_num [pumpSupplyTokens]
  -- a decimal divided by a billion has room for the rounding and the hundred
  have hshare : |buy / pumpSupplyTokens| ≤ maxDecimal / 1000000000 := by
    rw [abs_div, pumpSupplyTokens, abs_of_pos (by norm_num : (0 : Decimal) < 1000000000)]
    exact div_le_div_of_nonneg_right (hdoc.inRange _ _ hbuy) (by norm_num)
  have hround : |crates.round (buy / pumpSupplyTokens)| ≤ maxDecimal / 1000000000 + 1 := by
    have hclose := (hdoc.close (buy / pumpSupplyTokens)).le
    have hsplit : crates.round (buy / pumpSupplyTokens) =
        (crates.round (buy / pumpSupplyTokens) - buy / pumpSupplyTokens) +
          buy / pumpSupplyTokens := by ring
    rw [hsplit]
    have htriangle := abs_add_le (crates.round (buy / pumpSupplyTokens) - buy / pumpSupplyTokens)
      (buy / pumpSupplyTokens)
    linarith
  rw [NumberFormat.div_of_ne hsupply] at h
  rcases checked_fit_bind_panic_iff.mp h with ⟨-, hbeyond⟩ | ⟨-, h⟩
  · have hlimit : maxDecimal < |buy / pumpSupplyTokens| := hbeyond
    unfold maxDecimal at hlimit hshare
    linarith
  rcases checked_fit_bind_panic_iff.mp h with ⟨-, hbeyond⟩ | ⟨-, h⟩
  · have hlimit : maxDecimal < |crates.round (buy / pumpSupplyTokens) * 100| := hbeyond
    rw [abs_mul, abs_of_pos (by norm_num : (0 : Decimal) < 100)] at hlimit
    unfold maxDecimal at hlimit hround
    linarith
  · exact pure_ne_panic (refuseIf_bind_panic_iff.mp h).2

/-- So does a create. -/
theorem enrichCreate_panic_iff (hdoc : crates.Documented) {c : PumpPortalCreate}
    {createdAt : DateTime} {solUsd : Decimal} (hsol : 0 < solUsd) :
    enrichCreate crates c createdAt solUsd = .error (.panic stop) ↔
      stop = .overflow ∧ ReservesStop crates c.vsolSol c.vtokensTokens solUsd := by
  have hquote : enrichCreate crates c createdAt solUsd = .error (.panic stop) ↔
      quoteReserves crates c.vsolSol c.vtokensTokens solUsd = .error (.panic stop) := by
    unfold enrichCreate
    cases quoteReserves crates c.vsolSol c.vtokensTokens solUsd with
    | error err => simp [bind, Except.bind]
    | ok quote =>
        -- only the quote can stop: the share is in range
        have hhold : creatorHold crates c.initialBuyTokens ≠ .error (.panic stop) :=
          creatorHold_ne_panic crates hdoc
        cases hcase : creatorHold crates c.initialBuyTokens with
        | error err =>
            rw [hcase] at hhold
            simpa [bind, Except.bind] using hhold
        | ok holdPct => simp [bind, Except.bind, pure, Except.pure]
  rw [hquote, quoteReserves_panic_iff]
  exact and_iff_right hsol

end Enrich

/-! ## The live loop -/

/-- A line gets through to an engine that handles such events: what is extracted of it keeps
the range of the enrichment, and the event made of it, if there is one, is such an event. -/
def LineGoes (crates : FeedCrates) (solUsd : Decimal) (nowWall : Int64) (line : String)
    (Handles : Event → Prop) : Prop :=
  match parseWsLine crates line with
  | .tradeAttempt v => ∀ t, extractTrade crates v = some t →
      ¬ ReservesStop crates t.vsolSol t.vtokensTokens solUsd ∧
      ∀ ev, enrichTrade crates t (atMillis nowWall) solUsd = .ok ev → Handles ev
  | .createAttempt v => ∀ c, extractCreate crates v = some c →
      ¬ ReservesStop crates c.vsolSol c.vtokensTokens solUsd ∧
      ∀ enriched, enrichCreate crates c (atMillis nowWall) solUsd = .ok enriched →
        Handles enriched.event
  | .chatter => True
  | .malformed => True

section Handle

variable {crates : FeedCrates} {ε : Type} {onEvent : ε → Event → Except ArithStop ε}
  {solUsd : Decimal} {nowWall : Int64}

/-- An event goes into the archive and the engine; only the engine can stop. -/
theorem emit_finishes_iff (s : LiveFeed ε) (raw : RawFeedEvent) (ev : Event) :
    Finishes (LiveFeed.emit onEvent s nowWall raw ev) ↔ Finishes (onEvent s.engine ev) := by
  unfold LiveFeed.emit
  rw [finishes_bind_const_iff (P := True) fun _ => iff_true_intro (finishes_pure _), and_true]

/-- An enrichment that does not panic had nothing to panic at. -/
theorem not_stops {α : Type} {x : Except EnrichStop α} {Stops : Prop}
    (hpanic : ∀ stop, x = .error (.panic stop) ↔ stop = .overflow ∧ Stops)
    (hx : x ≠ .error (.panic .overflow)) : ¬ Stops :=
  fun h => hx ((hpanic .overflow).mpr ⟨rfl, h⟩)

theorem handleTrade_finishes_iff (hsol : 0 < solUsd) (s : LiveFeed ε) (v : Json) :
    Finishes (handleTrade crates onEvent solUsd nowWall s v) ↔
      ∀ t, extractTrade crates v = some t →
        ¬ ReservesStop crates t.vsolSol t.vtokensTokens solUsd ∧
        ∀ ev, enrichTrade crates t (atMillis nowWall) solUsd = .ok ev →
          Finishes (onEvent s.engine ev) := by
  unfold handleTrade
  cases hextract : extractTrade crates v with
  | none =>
      refine iff_of_true (finishes_ok _) fun t ht => ?_
      cases ht
  | some t =>
      have hpanic := fun stop => @enrichTrade_panic_iff crates stop t (atMillis nowWall) solUsd hsol
      simp only [Option.some.injEq, forall_eq']
      generalize enrichTrade crates t (atMillis nowWall) solUsd = x at hpanic ⊢
      rcases x with (_ | stop) | a
      · exact iff_of_true (finishes_ok _) ⟨not_stops hpanic (by simp), by simp⟩
      · exact iff_of_false (not_finishes_error stop) fun h => h.1 ((hpanic stop).mp rfl).2
      · simp [emit_finishes_iff, not_stops hpanic (by simp)]

theorem handleCreate_finishes_iff (hdoc : crates.Documented) (hsol : 0 < solUsd)
    (s : LiveFeed ε) (v : Json) :
    Finishes (handleCreate crates onEvent solUsd nowWall s v) ↔
      ∀ c, extractCreate crates v = some c →
        ¬ ReservesStop crates c.vsolSol c.vtokensTokens solUsd ∧
        ∀ enriched, enrichCreate crates c (atMillis nowWall) solUsd = .ok enriched →
          Finishes (onEvent s.engine enriched.event) := by
  unfold handleCreate
  cases hextract : extractCreate crates v with
  | none =>
      refine iff_of_true (finishes_ok _) fun c hc => ?_
      cases hc
  | some c =>
      have hpanic := fun stop =>
        @enrichCreate_panic_iff crates stop hdoc c (atMillis nowWall) solUsd hsol
      simp only [Option.some.injEq, forall_eq']
      generalize enrichCreate crates c (atMillis nowWall) solUsd = x at hpanic ⊢
      rcases x with (_ | stop) | a
      · exact iff_of_true (finishes_ok _) ⟨not_stops hpanic (by simp), by simp⟩
      · exact iff_of_false (not_finishes_error stop) fun h => h.1 ((hpanic stop).mp rfl).2
      · simp [emit_finishes_iff, not_stops hpanic (by simp)]

/-- A line is handled exactly if it gets through to an engine that handles its event. -/
theorem handleText_finishes_iff (hdoc : crates.Documented) (hsol : 0 < solUsd) (s : LiveFeed ε)
    (line : String) :
    Finishes (handleText crates onEvent solUsd nowWall s line) ↔
      LineGoes crates solUsd nowWall line fun ev => Finishes (onEvent s.engine ev) := by
  unfold LineGoes handleText
  cases parseWsLine crates line with
  | malformed => exact iff_of_true (finishes_ok _) trivial
  | chatter => exact iff_of_true (finishes_ok _) trivial
  | tradeAttempt v => exact handleTrade_finishes_iff hsol (s.received line) v
  | createAttempt v => exact handleCreate_finishes_iff hdoc hsol (s.received line) v

end Handle

/-- The ranges of a line: those of the enrichment, and those of the paper engine on the event
made of it. -/
def LineFits (crates : FeedCrates) (px : PaperExecutor) (o : KeyOrder Mint) (solUsd : Decimal)
    (nowWall : Int64) (e : Engine Unit) (line : String) : Prop :=
  LineGoes crates solUsd nowWall line (Machine.EventFits crates.decimals px o e)

/-- **When a line is handled.**  At every positive rate, in every state of the paper engine and
for every order in which it visits its book, the live loop gets through a line exactly if the
line, the rate and the state keep the ranges of the operators they lead to. -/
theorem line_handled_iff {crates : FeedCrates} (hdoc : crates.Documented) (px : PaperExecutor)
    (o : KeyOrder Mint) {solUsd : Decimal} (hsol : 0 < solUsd) (nowWall : Int64)
    (s : LiveFeed (Engine Unit)) (line : String) :
    Finishes (handleText crates
        (Machine.onEvent crates.decimals (px.checked crates.decimals) o) solUsd nowWall s line) ↔
      LineFits crates px o solUsd nowWall s.engine line := by
  rw [handleText_finishes_iff hdoc hsol]
  simp only [Machine.onEvent_finishes_iff]
  rfl

/-! ## A line beyond the range -/

/-- A create with `2⁹⁵` SOL against a quarter of a token. -/
def hugeCreate : Json :=
  .object [("mint", .string "HUGE"), ("txType", .string "create"),
    ("vSolInBondingCurve", .string "39614081257132168796771975168"),
    ("vTokensInBondingCurve", .string "0.25")]

/-- Its text. -/
def hugeLine : String :=
  "\x7b\"mint\":\"HUGE\",\"txType\":\"create\",\"vSolInBondingCurve\":" ++
    "\"39614081257132168796771975168\",\"vTokensInBondingCurve\":\"0.25\"\x7d"

section Huge

variable {crates : FeedCrates}

/-- The reserves of that create as it is extracted. -/
theorem extractCreate_huge :
    ∃ c, extractCreate crates hugeCreate = some c ∧ c.vsolSol = .finite (2 ^ 95) ∧
      c.vtokensTokens = .finite (1 / 4) := by
  have hvsol : numFlex crates (.string "39614081257132168796771975168") =
      some (.finite (2 ^ 95)) := by
    show parseF64 (trim "39614081257132168796771975168") = _
    decide +kernel
  have hvtokens : numFlex crates (.string "0.25") = some (.finite (1 / 4)) := by
    show parseF64 (trim "0.25") = _
    decide +kernel
  -- the members of the create under the names that are asked for
  have hget : hugeCreate.get "vSolInBondingCurve" =
        some (.string "39614081257132168796771975168") ∧
      hugeCreate.get "vTokensInBondingCurve" = some (.string "0.25") ∧
      hugeCreate.get "vSol" = none ∧ hugeCreate.get "v_sol" = none ∧
      hugeCreate.get "vTokens" = none ∧ hugeCreate.get "v_tokens" = none ∧
      hugeCreate.get "initialBuy" = none ∧ hugeCreate.get "initial_buy" = none :=
    ⟨rfl, rfl, rfl, rfl, rfl, rfl, rfl, rfl⟩
  have htokens : firstNum crates hugeCreate ["vTokensInBondingCurve", "vTokens", "v_tokens"] =
      some (.finite (1 / 4)) := by
    simp [firstNum, hget, hvtokens]
  have hsol : firstNum crates hugeCreate ["vSolInBondingCurve", "vSol", "v_sol"] =
      some (.finite (2 ^ 95)) := by
    simp [firstNum, hget, hvsol]
  have hbuy : firstNum crates hugeCreate ["initialBuy", "initial_buy"] = none := by
    simp [firstNum, hget]
  have hreserves : extractReserves crates hugeCreate =
      some (.finite (1 / 4), .finite (2 ^ 95)) := by
    unfold extractReserves
    rw [htokens, hsol]
    norm_num [F64.isFinite, F64.nonpos]
  have hmint : firstStr hugeCreate ["mint"] = some "HUGE" := rfl
  have htx : (hugeCreate.get "txType").bind Json.asStr = some "create" := rfl
  have hobject : hugeCreate.isObject = true := rfl
  unfold extractCreate
  rw [hobject, if_pos rfl, hmint]
  simp [hreserves, hbuy, htx, F64.isFinite, F64.neg]

theorem reservesStop_huge (hdoc : crates.Documented) (solUsd : Decimal) :
    ReservesStop crates (.finite (2 ^ 95)) (.finite (1 / 4)) solUsd := by
  have hvsol := hdoc.retains (2 ^ 95) 0 (by norm_num) (by norm_num)
  have hvtok := hdoc.retains 25 2 (by norm_num) (by norm_num)
  refine ⟨2 ^ 95, 1 / 4, ?_, ?_, by norm_num, by norm_num, Or.inl ?_⟩
  · norm_num at hvsol ⊢
    exact hvsol
  · norm_num at hvtok ⊢
    exact hvtok
  · unfold maxDecimal
    norm_num

theorem not_lineGoes_huge (hdoc : crates.Documented)
    (hjson : crates.parseLine hugeLine = some hugeCreate) (solUsd : Decimal) (nowWall : Int64)
    (Handles : Event → Prop) : ¬ LineGoes crates solUsd nowWall hugeLine Handles := by
  have hcreate : parseWsLine crates hugeLine = .createAttempt hugeCreate := by
    unfold parseWsLine
    rw [hjson]
    rfl
  obtain ⟨c, hextract, hvsol, hvtokens⟩ := @extractCreate_huge crates
  unfold LineGoes
  rw [hcreate]
  intro h
  refine (h c hextract).1 ?_
  rw [hvsol, hvtokens]
  exact reservesStop_huge hdoc solUsd

/-- No bot is safe from every line, at whatever rate and with whatever engine. -/
theorem no_bot_is_safe (hdoc : crates.Documented)
    (hjson : crates.parseLine hugeLine = some hugeCreate) {ε : Type}
    (onEvent : ε → Event → Except ArithStop ε) {solUsd : Decimal} (hsol : 0 < solUsd)
    (nowWall : Int64) (s : LiveFeed ε) :
    ¬ ∀ line, Finishes (handleText crates onEvent solUsd nowWall s line) := by
  intro hall
  have hgoes := (handleText_finishes_iff hdoc hsol s hugeLine).mp (hall hugeLine)
  exact not_lineGoes_huge hdoc hjson solUsd nowWall _ hgoes

end Huge

/-! ## The paper engine at a hundred dollars per SOL -/

namespace Mock

/-- Decimals of twenty-eight places, within the limit. -/
def retain : F64 → Option Decimal
  | .finite x => if |roundDp 28 x| ≤ maxDecimal then some (roundDp 28 x) else none
  | _ => none

/-- An ordinary create, as a launch begins. -/
def plainCreate : Json :=
  .object [("mint", .string "PUMP"), ("txType", .string "create"),
    ("vSolInBondingCurve", .number (.posInt 30)),
    ("vTokensInBondingCurve", .number (.posInt 1073000000))]

/-- Its text. -/
def plainLine : String :=
  "\x7b\"mint\":\"PUMP\",\"txType\":\"create\",\"vSolInBondingCurve\":30," ++
    "\"vTokensInBondingCurve\":1073000000\x7d"

/-- A feed that knows two lines. -/
def feedCrates : FeedCrates where
  parseLine line :=
    if line = hugeLine then some hugeCreate
    else if line = plainLine then some plainCreate
    else none
  floatOf _ := .nan
  fromF64Retain := retain
  round := roundDecimal
  base58Decode _ := none

theorem feedCrates_hugeLine : feedCrates.parseLine hugeLine = some hugeCreate := by
  show (if hugeLine = hugeLine then some hugeCreate
    else if hugeLine = plainLine then some plainCreate else none) = _
  rw [if_pos rfl]

theorem feedCrates_documented : feedCrates.Documented where
  retains m scale hm hscale := by
    -- 28 places keep every decimal of a smaller scale as it is
    have hgrid : OnGrid 28 (m / 10 ^ scale : Decimal) :=
      Representable.onGrid ⟨m, scale, hm, hscale, rfl⟩
    have hrange : |(m / 10 ^ scale : Decimal)| ≤ maxDecimal := by
      have hpow : (1 : Decimal) ≤ 10 ^ scale := one_le_pow₀ (by norm_num)
      have hle : |(m : Decimal)| ≤ maxDecimal := by
        unfold maxDecimal
        have hint : |m| ≤ 2 ^ 96 - 1 := by omega
        exact_mod_cast hint
      rw [abs_div, abs_of_pos (by positivity : (0 : Decimal) < 10 ^ scale)]
      exact (div_le_self (abs_nonneg _) hpow).trans hle
    show retain (.finite (m / 10 ^ scale)) = _
    rw [retain, hgrid.roundDp_eq, if_pos hrange]
  inRange x d h := by
    have hretain : retain x = some d := h
    unfold retain at hretain
    split at hretain
    · split at hretain
      · rename_i hle
        cases hretain
        exact hle
      · cases hretain
    · cases hretain
  close x := by
    -- at whatever place it rounds, by half a unit of it at most
    have hclose : ∀ places, |roundDp places x - x| < 1 := by
      intro places
      apply lt_of_le_of_lt (abs_roundDp_sub_le places x)
      have hpow : (1 : Decimal) ≤ 10 ^ places := one_le_pow₀ (by norm_num)
      unfold halfUnit
      rw [div_lt_one (by positivity)]
      linarith
    exact hclose _

/-- The loop over the paper engine of the tests. -/
def paperFeed : LiveFeed (Engine Unit) where
  rawLines := []
  stats := ⟨0, 0, 0, 0, 0, 0, 0⟩
  archived := []
  engine := Engine.new .paperDefaults () (.opened fun _ => true) 0

/-- That engine, on one event. -/
def onPaperEvent : Engine Unit → Event → Except ArithStop (Engine Unit) :=
  Machine.onEvent feedCrates.decimals
    ((PaperExecutor.new .paperDefaults).checked feedCrates.decimals) .ascending

end Mock

/-- The paper engine handles an ordinary create at a hundred dollars per SOL, so the line keeps
all ranges on its way. -/
theorem line_handled_iff_create :
    Finishes (handleText Mock.feedCrates Mock.onPaperEvent 100 0 Mock.paperFeed Mock.plainLine) ∧
      LineFits Mock.feedCrates (PaperExecutor.new .paperDefaults) .ascending 100 0
        Mock.paperFeed.engine Mock.plainLine := by
  have hrun : Finishes (handleText Mock.feedCrates Mock.onPaperEvent 100 0 Mock.paperFeed
      Mock.plainLine) := finishes_iff_isOk.mpr (by decide +kernel)
  exact ⟨hrun, (line_handled_iff Mock.feedCrates_documented (PaperExecutor.new .paperDefaults)
    .ascending (by norm_num) 0 Mock.paperFeed Mock.plainLine).mp hrun⟩

/-- The create beyond the range stops the program there. -/
theorem huge_line_stops :
    ¬ Finishes (handleText Mock.feedCrates Mock.onPaperEvent 100 0 Mock.paperFeed hugeLine) := by
  intro hrun
  have hgoes := (handleText_finishes_iff Mock.feedCrates_documented (by norm_num) Mock.paperFeed
    hugeLine).mp hrun
  exact not_lineGoes_huge Mock.feedCrates_documented Mock.feedCrates_hugeLine 100 0 _ hgoes

end HfmcBot
