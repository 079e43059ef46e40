import HfmcBot.Live.AfterSubmission
import HfmcBot.Live.Settlement
import HfmcBot.Live.TipRotation

/-!
# What comes before a bundle

A bundle goes out at most once in an order, and only at the end of a chain of
checks.  `Staging` and `Bundled` list what the two halves of the chain have
established when they get through: the order up to the swap transaction, and the
signing.

* `stage_eq_ok`, `signBundle_eq_ok`: the two halves, inverted;
* `place_way`: the four ways an order goes;
* `BeyondRange`: the orders on which the program stops before anything is sent;
* `guarded_iff`: the whole statement, and that these are the only orders on which
  it stops instead of answering.
-/

namespace HfmcBot

open Foundation Foundation.Attempt

/-- The mints an order trades, the input first. -/
def Order.pair : Order → Mint × Mint
  | .buy req => (solMint, req.mint)
  | .sell req => (req.mint, solMint)

/-- The urgency of an order. -/
def Order.tier : Order → TipTier
  | .buy _ => .entry
  | .sell req => req.tier

/-- A budget that converts, converts to at least one lamport. -/
theorem usdToLamportsFloor_eq_ok {fmt : NumberFormat} {budgetUsd solUsd : Decimal}
    {lamports : UInt64} (h : usdToLamportsFloor fmt budgetUsd solUsd = .ok lamports) :
    lamports ≠ 0 := by
  obtain ⟨_, -, h⟩ := exists_of_bind_eq_ok h
  obtain ⟨_, -, h⟩ := exists_of_bind_eq_ok h
  obtain ⟨_, -, h⟩ := exists_of_bind_eq_ok h
  obtain ⟨_, -, h⟩ := exists_of_bind_eq_ok h
  obtain ⟨v, -, h⟩ := exists_of_bind_eq_ok h
  obtain ⟨_, hzero, h⟩ := exists_of_bind_eq_ok h
  cases h
  exact Live.haltIf_eq_ok hzero

/-- Nineteen decimals are the most that a `u64` power of ten has room for. -/
theorem pow10_eq_error_iff {decimals : UInt8} {e : Halt} :
    pow10 decimals = .error e ↔ e = .overflow ∧ 19 < decimals.toNat := by
  have hroom : 10 ^ decimals.toNat < 2 ^ 64 ↔ decimals.toNat ≤ 19 := by
    constructor
    · intro hlt
      by_contra hmany
      have hle : 10 ^ 20 ≤ 10 ^ decimals.toNat := Nat.pow_le_pow_right (by decide) (by omega)
      omega
    · intro hle
      have hpow : 10 ^ decimals.toNat ≤ 10 ^ 19 := Nat.pow_le_pow_right (by decide) hle
      omega
  unfold pow10
  by_cases hlt : 10 ^ decimals.toNat < 2 ^ 64
  · rw [if_pos hlt]
    have hle := hroom.mp hlt
    simp only [reduceCtorEq, false_iff, not_and, not_lt]
    exact fun _ => hle
  · rw [if_neg hlt]
    have hmany : 19 < decimals.toNat := by
      rw [hroom] at hlt
      omega
    simp [hmany, eq_comm]

/-- The result is an answer: the program does not stop on an overflow. -/
def Answers {α : Type} (r : Except Halt α) : Prop := r ≠ .error .overflow

section Answers

variable {α β : Type}

theorem answers_ok (a : α) : Answers (.ok a) := by
  rintro ⟨⟩

theorem answers_err (e : ExecError) : Answers (.error (.err e) : Except Halt α) := by
  rintro ⟨⟩

theorem answers_orReject (msg : Text) (a : Option α) : Answers (orReject msg a) := by
  cases a with
  | some a => exact answers_ok a
  | none => exact answers_err _

theorem answers_haltIf (bad : Prop) [Decidable bad] (e : ExecError) :
    Answers (haltIf bad (.err e)) := by
  rw [haltIf]
  split
  · exact answers_err e
  · exact answers_ok ()

theorem answers_orRejectWith (what : String) (r : Except String α) :
    Answers (orRejectWith what r) := by
  cases r with
  | error e => exact answers_err _
  | ok a => exact answers_ok a

theorem answers_readJson (what : String) (body : Body) : Answers (readJson what body) := by
  cases body with
  | error e => exact answers_err _
  | ok v => exact answers_ok v

theorem Answers.bind {x : Except Halt α} {f : α → Except Halt β} (hx : Answers x)
    (hf : ∀ a, Answers (f a)) : Answers (x >>= f) := by
  cases x with
  | error e =>
      intro h
      cases h
      exact hx rfl
  | ok a => exact hf a

theorem answers_mapM {f : α → Except Halt β} (hf : ∀ a, Answers (f a)) (as : List α) :
    Answers (as.mapM f) := by
  induction as with
  | nil => exact answers_ok []
  | cons a as ih =>
      rw [List.mapM_cons]
      exact (hf a).bind fun b => ih.bind fun bs => answers_ok _

/-- A sequence stops on an overflow in its first step, or in a later one. -/
theorem overflow_bind_iff {x : Except Halt α} {f : α → Except Halt β} :
    (x >>= f) = .error .overflow ↔
      x = .error .overflow ∨ ∃ a, x = .ok a ∧ f a = .error .overflow := by
  cases x with
  | error e =>
      show Except.error e = _ ↔ _
      simp
  | ok a =>
      show f a = _ ↔ _
      simp

/-- A passed refusal leaves an overflow to the rest. -/
theorem haltIf_bind_overflow_iff {bad : Prop} [Decidable bad] {msg : Text}
    {f : Unit → Except Halt β} :
    (haltIf bad (.rejected msg) >>= f) = .error .overflow ↔
      ¬ bad ∧ f () = .error .overflow := by
  unfold haltIf
  split
  · rename_i h
    exact iff_of_false (answers_err _) fun hboth => hboth.1 h
  · rename_i h
    exact (and_iff_right h).symm

theorem haltIf_overflow_iff {bad : Prop} [Decidable bad] :
    haltIf bad .overflow = .error .overflow ↔ bad := by
  unfold haltIf
  split
  · rename_i h
    simp [h]
  · rename_i h
    simp [h]

/-- An operator stops beyond the limit, and rounds within it. -/
theorem orStop_fit (fmt : NumberFormat) (x : Decimal) :
    orStop (fmt.fit x) =
      if fmt.limit < |x| then .error .overflow else .ok (fmt.round x) := by
  unfold NumberFormat.fit
  split <;> rfl

theorem orStop_fit_overflow_iff {fmt : NumberFormat} {x : Decimal} :
    orStop (fmt.fit x) = .error .overflow ↔ fmt.limit < |x| := by
  rw [orStop_fit]
  split
  · rename_i h
    simp [h]
  · rename_i h
    simp [h]

theorem orStop_fit_ok_iff {fmt : NumberFormat} {x y : Decimal} :
    orStop (fmt.fit x) = .ok y ↔ |x| ≤ fmt.limit ∧ fmt.round x = y := by
  rw [orStop_fit]
  split
  · rename_i h
    simp [not_le.mpr h]
  · rename_i h
    simp [not_lt.mp h]

theorem answers_quoteField (v : Json) (name : String) : Answers (quoteField v name) :=
  answers_orReject _ _

theorem answers_quoteU64 (v : Json) (name : String) : Answers (quoteU64 v name) :=
  (answers_quoteField v name).bind fun _ => answers_orReject _ _

theorem answers_parseQuoteResponse (crates : Crates) (body : Body) :
    Answers (parseQuoteResponse crates body) := by
  refine (answers_readJson _ _).bind fun v => (answers_orReject _ _).bind fun bps => ?_
  refine (answers_quoteField _ _).bind fun impact => (answers_orReject _ _).bind fun pct => ?_
  refine (answers_quoteField _ _).bind fun _ => (answers_quoteField _ _).bind fun _ => ?_
  refine (answers_quoteU64 _ _).bind fun _ => (answers_quoteU64 _ _).bind fun _ => ?_
  exact (answers_quoteU64 _ _).bind fun _ => (answers_quoteField _ _).bind fun _ => answers_ok _

theorem answers_parseSwapResponse (body : Body) : Answers (parseSwapResponse body) :=
  (answers_readJson _ _).bind fun _ => (answers_orReject _ _).bind fun _ =>
    (answers_orReject _ _).bind fun _ => answers_ok _

theorem answers_parseBlockhashResponse (crates : Crates) (body : Body) :
    Answers (parseBlockhashResponse crates body) := by
  refine (answers_readJson _ _).bind fun v => (answers_orReject _ _).bind fun value => ?_
  refine (answers_orReject _ _).bind fun hash => (answers_orReject _ _).bind fun _ => ?_
  exact (answers_orReject _ _).bind fun _ => answers_ok _

theorem answers_parseTokenSupplyDecimals (body : Body) :
    Answers (parseTokenSupplyDecimals body) :=
  (answers_readJson _ _).bind fun _ => answers_orReject _ _

theorem answers_signVersionedTx (crates : Crates) (txB64 : String) (keypair : Keypair)
    (blockhash : String) : Answers (signVersionedTx crates txB64 keypair blockhash) := by
  apply (answers_orRejectWith _ _).bind
  intro bytes
  refine (answers_orRejectWith _ _).bind fun message => (answers_orReject _ _).bind fun payer => ?_
  refine (answers_haltIf _ _).bind fun _ => (answers_orReject _ _).bind fun fresh => ?_
  apply (answers_orRejectWith _ _).bind
  intro _
  exact (answers_orRejectWith _ _).bind fun _ => answers_ok _

theorem answers_buildTipTx (crates : Crates) (operator : Keypair) (account : Pubkey)
    (lamports : UInt64) (blockhash : String) :
    Answers (buildTipTx crates operator account lamports blockhash) := by
  refine (answers_haltIf _ _).bind fun _ => (answers_orReject _ _).bind fun fresh => ?_
  apply (answers_orRejectWith _ _).bind
  intro _
  exact (answers_orRejectWith _ _).bind fun _ => answers_ok _

theorem answers_signer (crates : Crates) (ex : LiveExecutor) : Answers (ex.signer crates) := by
  unfold LiveExecutor.signer
  split
  · exact answers_err _
  · split
    · exact answers_err _
    · exact answers_ok _

/-- The budgets whose conversion leaves the range of the number type. -/
def BudgetBeyond (fmt : NumberFormat) (budgetUsd solUsd : Decimal) : Prop :=
  0 < solUsd ∧ 0 < budgetUsd ∧
    (fmt.limit < |budgetUsd / solUsd| ∨
      fmt.limit < |fmt.round (budgetUsd / solUsd) * lamportsPerSol|)

theorem usdToLamportsFloor_overflow_iff {fmt : NumberFormat} {budgetUsd solUsd : Decimal} :
    usdToLamportsFloor fmt budgetUsd solUsd = .error .overflow ↔
      BudgetBeyond fmt budgetUsd solUsd := by
  have hrest : ∀ lamports : Decimal, Answers (do
      let v ← orReject ["buy budget ", .dec budgetUsd, " overflows u64 lamports"]
        (floorU64 lamports)
      haltIf (v = 0) (.rejected ["buy budget ", .dec budgetUsd, " rounds to zero lamports"])
      return v) := fun _ =>
    (answers_orReject _ _).bind fun _ => (answers_haltIf _ _).bind fun _ => answers_ok _
  unfold usdToLamportsFloor BudgetBeyond
  rw [haltIf_bind_overflow_iff, not_le]
  refine and_congr_right fun hsol => ?_
  rw [haltIf_bind_overflow_iff, not_le]
  refine and_congr_right fun _ => ?_
  rw [NumberFormat.div_of_ne hsol.ne', overflow_bind_iff, orStop_fit_overflow_iff]
  -- the quotient is in range, or the sequence has stopped there
  rcases lt_or_ge fmt.limit |budgetUsd / solUsd| with hbeyond | hwithin
  · exact iff_of_true (Or.inl hbeyond) (Or.inl hbeyond)
  · rw [or_iff_right (not_lt.mpr hwithin), or_iff_right (not_lt.mpr hwithin)]
    constructor
    · rintro ⟨sol, hround, hstop⟩
      obtain ⟨-, rfl⟩ := orStop_fit_ok_iff.mp hround
      rcases overflow_bind_iff.mp hstop with hmul | ⟨lamports, -, htail⟩
      · exact orStop_fit_overflow_iff.mp hmul
      · exact absurd htail (hrest lamports)
    · intro hmul
      exact ⟨_, orStop_fit_ok_iff.mpr ⟨hwithin, rfl⟩,
        overflow_bind_iff.mpr (Or.inl (orStop_fit_overflow_iff.mpr hmul))⟩

/-- The conversion of a positive quantity needs the power of ten and the product. -/
theorem decimalToRawFloor_overflow_iff (qty : Decimal) (decimals : UInt8) :
    decimalToRawFloor qty decimals = .error .overflow ↔
      0 < qty ∧ (19 < decimals.toNat ∨ maxDecimal < qty * 10 ^ decimals.toNat) := by
  unfold decimalToRawFloor
  rw [haltIf_bind_overflow_iff, not_le]
  refine and_congr_right fun _ => ?_
  cases hpow : pow10 decimals with
  | error e =>
      obtain ⟨rfl, hmany⟩ := pow10_eq_error_iff.mp hpow
      exact iff_of_true rfl (Or.inl hmany)
  | ok scale =>
      have hfew : ¬ 19 < decimals.toNat := fun hmany => by
        have herror := pow10_eq_error_iff.mpr ⟨rfl, hmany⟩
        rw [hpow] at herror
        cases herror
      have hscale : (scale : Decimal) = 10 ^ decimals.toNat := by
        unfold pow10 at hpow
        split at hpow
        · cases hpow
          push_cast
          rfl
        · cases hpow
      rw [or_iff_right hfew, ← hscale]
      show (haltIf (maxDecimal < qty * scale) .overflow >>= _) = _ ↔ _
      rw [overflow_bind_iff, haltIf_overflow_iff, or_iff_left]
      rintro ⟨_, -, hstop⟩
      exact ((answers_orReject _ _).bind fun v =>
        (answers_haltIf _ _).bind fun _ => answers_ok _) hstop

/-- Ten billion tokens of nineteen decimals. -/
example : decimalToRawFloor (10 ^ 10) 19 = .error .overflow := by decide +kernel

theorem slippagePctToBps_overflow_iff {pct : Decimal} :
    slippagePctToBps pct = .error .overflow ↔ maxDecimal < pct * 100 := by
  unfold slippagePctToBps
  rw [haltIf_bind_overflow_iff, not_lt, overflow_bind_iff, haltIf_overflow_iff, or_iff_left]
  · refine and_iff_right_of_imp fun hbeyond => ?_
    have hpos : (0 : Decimal) ≤ maxDecimal := by norm_num [maxDecimal]
    linarith
  · rintro ⟨_, -, hstop⟩
    exact answers_orReject _ _ hstop

theorem rawToDecimal_overflow_iff (raw : UInt64) (decimals : UInt8) :
    rawToDecimal raw decimals = .error .overflow ↔ 19 < decimals.toNat := by
  unfold rawToDecimal
  cases hpow : pow10 decimals with
  | error e =>
      obtain ⟨rfl, hmany⟩ := pow10_eq_error_iff.mp hpow
      exact iff_of_true rfl hmany
  | ok scale =>
      apply iff_of_false (answers_ok _)
      intro hmany
      have herror := pow10_eq_error_iff.mpr ⟨rfl, hmany⟩
      rw [hpow] at herror
      cases herror

end Answers

/-- A swap gets signed only if the signer pays for it. -/
theorem signVersionedTx_eq_ok {crates : Crates} {txB64 blockhash : String} {keypair : Keypair}
    {tx : SignedTx} (h : signVersionedTx crates txB64 keypair blockhash = .ok tx) :
    ∃ bytes message fresh, crates.base64Decode (trim txB64) = .ok bytes ∧
      crates.deserializeTx bytes = .ok message ∧
      message.accountKeys.head? = some keypair.pubkey ∧
      crates.parseHash blockhash = some fresh ∧
      tx = .swap { message with recentBlockhash := fresh } keypair.pubkey := by
  obtain ⟨bytes, hbytes, h⟩ := exists_of_bind_eq_ok h
  obtain ⟨message, hmessage, h⟩ := exists_of_bind_eq_ok h
  obtain ⟨payer, hpayer, h⟩ := exists_of_bind_eq_ok h
  obtain ⟨_, hsame, h⟩ := exists_of_bind_eq_ok h
  obtain ⟨fresh, hfresh, h⟩ := exists_of_bind_eq_ok h
  obtain ⟨_, -, h⟩ := exists_of_bind_eq_ok h
  obtain ⟨_, -, h⟩ := exists_of_bind_eq_ok h
  -- the only refusal that decides anything: the payer is the signer
  have hoperator : payer = keypair.pubkey := not_not.mp (Live.haltIf_eq_ok hsame)
  have hdecoded : crates.base64Decode (trim txB64) = .ok bytes := by
    cases hdecode : crates.base64Decode (trim txB64) with
    | error e =>
        rw [hdecode] at hbytes
        cases hbytes
    | ok b =>
        rw [hdecode] at hbytes
        cases hbytes
        rfl
  have hread : crates.deserializeTx bytes = .ok message := by
    cases hdeserialize : crates.deserializeTx bytes with
    | error e =>
        rw [hdeserialize] at hmessage
        cases hmessage
    | ok m =>
        rw [hdeserialize] at hmessage
        cases hmessage
        rfl
  refine ⟨bytes, message, fresh, hdecoded, hread, ?_, eq_some_of_orReject hfresh, ?_⟩
  · rw [← hoperator]
    exact eq_some_of_orReject hpayer
  · cases h
    rfl

/-- The account in turn is one of the configured ones. -/
theorem pickTipAccount_mem {crates : Crates} {texts : List String} {accounts : List Pubkey}
    {counter : UInt64} {account : Pubkey}
    (hparse : texts.mapM (parseTipAccount crates) = .ok accounts)
    (hpick : pickTipAccount accounts counter = some account) :
    ∃ text ∈ texts, parseTipAccount crates text = .ok account := by
  have hmem : account ∈ accounts := List.mem_of_getElem? hpick
  -- the parsed list stands for the configured one entry by entry
  clear hpick
  induction texts generalizing accounts with
  | nil =>
      cases hparse
      exact absurd hmem (by simp)
  | cons text rest ih =>
      rw [List.mapM_cons] at hparse
      obtain ⟨first, hfirst, hparse⟩ := exists_of_bind_eq_ok hparse
      obtain ⟨others, hothers, hparse⟩ := exists_of_bind_eq_ok hparse
      cases hparse
      rcases List.mem_cons.mp hmem with rfl | hlater
      · exact ⟨text, List.mem_cons_self, hfirst⟩
      · obtain ⟨t, ht, haccount⟩ := ih hothers hlater
        exact ⟨t, List.mem_cons_of_mem _ ht, haccount⟩

/-! ## The two halves of the chain -/

/-- What is known of a quote and of the swap assembled from it: both were asked for
in this order, and the quote has passed the preflight. -/
structure Prepared (crates : Crates) (ex : LiveExecutor) (pair : Mint × Mint)
    (log : List Exchange) (quote : JupiterQuote) (swapTx : SwapTx) : Prop where
  quoted : ∃ amountRaw bps body, ⟨.quote pair.1 pair.2 amountRaw bps, .ok body⟩ ∈ log ∧
    parseQuoteResponse crates body = .ok quote
  inputMint : quote.inputMint = pair.1
  outputMint : quote.outputMint = pair.2
  output : quote.outAmountRaw ≠ 0
  impact : |quote.priceImpactPct| ≤ ex.maxSlippagePct
  assembled : ∃ fee body, ⟨.swap quote.raw ex.operatorPubkey fee, .ok body⟩ ∈ log ∧
    parseSwapResponse body = .ok swapTx

/-- What an order has passed when its swap transaction is assembled. -/
structure Staging (crates : Crates) (ex : LiveExecutor) (o : Order) (log : List Exchange)
    (staged : Live.Staged) : Prop where
  armed : ex.isArmed = true
  tier : staged.tier = o.tier
  /-- A buy is in time, and its budget converts to at least one lamport. -/
  buy : ∀ req, o = .buy req → req.now ≤ req.deadline ∧
    ∃ lamports, usdToLamportsFloor crates.decimals req.budgetUsd ex.solUsd = .ok lamports ∧
      lamports ≠ 0
  prepared : Prepared crates ex o.pair log staged.quote staged.swapTx

/-- What has been signed when the signing is through: a swap that the operator pays
for, and the tip of the tier to a configured account, if the tier has one. -/
def Bundled (crates : Crates) (ex : LiveExecutor) (swapTx : SwapTx) (tier : TipTier)
    (txs : List SignedTx) : Prop :=
  ∃ keypair bytes message fresh, ex.signer crates = .ok keypair ∧
    crates.base64Decode (trim swapTx.txBase64) = .ok bytes ∧
    crates.deserializeTx bytes = .ok message ∧
    message.accountKeys.head? = some keypair.pubkey ∧
    ((ex.jito.tipFor tier = 0 ∧
        txs = [.swap { message with recentBlockhash := fresh } keypair.pubkey]) ∨
      (ex.jito.tipFor tier ≠ 0 ∧ ∃ text ∈ ex.jito.tipAccounts, ∃ account,
        parseTipAccount crates text = .ok account ∧
        txs = [.swap { message with recentBlockhash := fresh } keypair.pubkey,
          .tip {
            operator := keypair.pubkey
            account := account
            lamports := ex.jito.tipFor tier
            blockhash := fresh }]))

namespace Live

variable {ω α β : Type} {crates : Crates} {up : Upstream ω}

theorem buildTip_eq_ok {keypair : Keypair} {blockhash : String} {tier : TipTier} {s s' : Live ω}
    {tip : Option SignedTx}
    (h : (buildTip crates keypair blockhash tier).exec s = (.ok tip, s')) :
    (s.ex.jito.tipFor tier = 0 ∧ tip = none) ∨
      (s.ex.jito.tipFor tier ≠ 0 ∧ ∃ text ∈ s.ex.jito.tipAccounts, ∃ account fresh,
        parseTipAccount crates text = .ok account ∧ crates.parseHash blockhash = some fresh ∧
        tip = some (.tip {
          operator := keypair.pubkey
          account := account
          lamports := s.ex.jito.tipFor tier
          blockhash := fresh })) := by
  rw [buildTip, exec_get_bind] at h
  dsimp only at h
  split at h
  · rename_i hzero
    cases h
    exact Or.inl ⟨hzero, rfl⟩
  · rename_i hprice
    -- the counter picks the account, out of the configured ones
    obtain ⟨n, m, hid, h⟩ := exec_bind_eq_ok h
    cases hid
    rw [exec_get_bind] at h
    obtain ⟨accounts, hparse, h⟩ := exec_ofExcept_bind_eq_ok h
    obtain ⟨account, hpick, h⟩ := exec_ofExcept_bind_eq_ok h
    obtain ⟨tx, hbuild, h⟩ := exec_ofExcept_bind_eq_ok h
    obtain ⟨text, hmem, htext⟩ := pickTipAccount_mem hparse (eq_some_of_orReject hpick)
    obtain ⟨fresh, hfresh, rfl⟩ := buildTipTx_eq_ok hbuild
    cases h
    exact Or.inr ⟨hprice, text, hmem, account, fresh, htext, hfresh, rfl⟩

theorem signBundle_eq_ok {swapTx : SwapTx} {tier : TipTier} {s s' : Live ω}
    {txs : List SignedTx} (h : (signBundle crates up swapTx tier).exec s = (.ok txs, s')) :
    Bundled crates s.ex swapTx tier txs := by
  rw [signBundle, exec_get_bind] at h
  obtain ⟨keypair, hkeypair, h⟩ := exec_ofExcept_bind_eq_ok h
  obtain ⟨⟨blockhash, height⟩, m, hhash, h⟩ := exec_bind_eq_ok h
  obtain ⟨swap, hsign, h⟩ := exec_ofExcept_bind_eq_ok h
  obtain ⟨tip, m', htip, h⟩ := exec_bind_eq_ok h
  obtain ⟨bytes, message, fresh, hdecode, hread, hpayer, hfresh, rfl⟩ := signVersionedTx_eq_ok hsign
  -- fetching the blockhash changes none of the tip settings
  have hsame := settings_of_exec (blind_settings.freshBlockhash crates up) hhash
  have hjito : m.ex.jito = s.ex.jito := by
    show (settings m).jito = (settings s).jito
    rw [hsame]
  have hbuilt := buildTip_eq_ok htip
  rw [hjito] at hbuilt
  cases h
  refine ⟨keypair, bytes, message, fresh, hkeypair, hdecode, hread, hpayer, ?_⟩
  rcases hbuilt with ⟨hzero, rfl⟩ | ⟨hprice, text, hmem, account, fresh', htext, hfresh', rfl⟩
  · exact Or.inl ⟨hzero, rfl⟩
  · obtain rfl : fresh = fresh' := Option.some.inj (hfresh.symm.trans hfresh')
    exact Or.inr ⟨hprice, text, hmem, account, htext, rfl⟩

theorem prepareBuy_eq_ok {mint : Mint} {budgetUsd : Decimal} {s s' : Live (ω × List Exchange)}
    {quote : JupiterQuote} {outDecimals : UInt8} {swapTx : SwapTx}
    (h : (prepareBuy crates up.recorded mint budgetUsd).exec s =
      (.ok (quote, outDecimals, swapTx), s')) :
    (∃ lamports, usdToLamportsFloor crates.decimals budgetUsd s.ex.solUsd = .ok lamports ∧
        lamports ≠ 0) ∧
      Prepared crates s.ex (solMint, mint) (exchanges s') quote swapTx := by
  rw [prepareBuy, exec_get_bind] at h
  obtain ⟨lamports, hlamports, h⟩ := exec_ofExcept_bind_eq_ok h
  obtain ⟨bps, -, h⟩ := exec_ofExcept_bind_eq_ok h
  obtain ⟨quote', m, hquote, h⟩ := exec_bind_eq_ok h
  obtain ⟨_, hpair, h⟩ := exec_ofExcept_bind_eq_ok h
  obtain ⟨_, hout, h⟩ := exec_ofExcept_bind_eq_ok h
  obtain ⟨_, himpact, h⟩ := exec_ofExcept_bind_eq_ok h
  -- past the checks: what the quote said stands in the log from here on
  obtain ⟨decimals, m₂, hdecimals, h⟩ := exec_bind_eq_ok h
  obtain ⟨swapTx', m₃, hswap, h⟩ := exec_bind_eq_ok h
  cases h
  obtain ⟨body, hlog, hparse⟩ := jupiterQuote_eq_ok hquote
  obtain ⟨swapBody, hswapLog, hswapParse⟩ := jupiterSwap_eq_ok hswap
  have hpair' := not_or.mp (haltIf_eq_ok hpair)
  refine ⟨⟨lamports, hlamports, usdToLamportsFloor_eq_ok hlamports⟩, ?_, ?_, ?_, ?_, ?_, ?_⟩
  · refine ⟨lamports, bps, body, ?_, hparse⟩
    apply mem_exchanges_of_exec (only_jupiterSwap up _ _ _) hswap
    apply mem_exchanges_of_exec (only_fetchTokenDecimals up _) hdecimals
    rw [hlog]
    exact List.mem_append_right _ (List.mem_singleton_self _)
  · exact not_not.mp hpair'.1
  · exact not_not.mp hpair'.2
  · exact haltIf_eq_ok hout
  · exact not_lt.mp (haltIf_eq_ok himpact)
  · refine ⟨s.ex.jito.tips.entry, swapBody, ?_, hswapParse⟩
    rw [hswapLog]
    exact List.mem_append_right _ (List.mem_singleton_self _)

theorem prepareSell_eq_ok {mint : Mint} {qty : Decimal} {tier : TipTier}
    {s s' : Live (ω × List Exchange)} {quote : JupiterQuote} {swapTx : SwapTx}
    (h : (prepareSell crates up.recorded mint qty tier).exec s = (.ok (quote, swapTx), s')) :
    Prepared crates s.ex (mint, solMint) (exchanges s') quote swapTx := by
  obtain ⟨inDecimals, m, hdecimals, h⟩ := exec_bind_eq_ok h
  obtain ⟨inRaw, -, h⟩ := exec_ofExcept_bind_eq_ok h
  rw [exec_get_bind] at h
  obtain ⟨bps, -, h⟩ := exec_ofExcept_bind_eq_ok h
  obtain ⟨quote', m₂, hquote, h⟩ := exec_bind_eq_ok h
  obtain ⟨_, hpair, h⟩ := exec_ofExcept_bind_eq_ok h
  obtain ⟨_, hout, h⟩ := exec_ofExcept_bind_eq_ok h
  obtain ⟨_, himpact, h⟩ := exec_ofExcept_bind_eq_ok h
  obtain ⟨swapTx', m₃, hswap, h⟩ := exec_bind_eq_ok h
  cases h
  -- the limits are read after the decimals were fetched; they are settings
  have hsame := settings_of_exec (blind_settings.fetchTokenDecimals up.recorded mint) hdecimals
  have hmax : m.ex.maxSlippagePct = s.ex.maxSlippagePct := by
    show (settings m).maxSlippagePct = (settings s).maxSlippagePct
    rw [hsame]
  have hoperator : m.ex.operatorPubkey = s.ex.operatorPubkey := by
    show (settings m).operatorPubkey = (settings s).operatorPubkey
    rw [hsame]
  obtain ⟨body, hlog, hparse⟩ := jupiterQuote_eq_ok hquote
  obtain ⟨swapBody, hswapLog, hswapParse⟩ := jupiterSwap_eq_ok hswap
  have hpair' := not_or.mp (haltIf_eq_ok hpair)
  rw [hoperator] at hswapLog
  constructor
  · refine ⟨inRaw, bps, body, ?_, hparse⟩
    apply mem_exchanges_of_exec (only_jupiterSwap up _ _ _) hswap
    rw [hlog]
    exact List.mem_append_right _ (List.mem_singleton_self _)
  · exact not_not.mp hpair'.1
  · exact not_not.mp hpair'.2
  · exact haltIf_eq_ok hout
  · rw [← hmax]
    exact not_lt.mp (haltIf_eq_ok himpact)
  · refine ⟨m.ex.jito.tipFor tier, swapBody, ?_, hswapParse⟩
    rw [hswapLog]
    exact List.mem_append_right _ (List.mem_singleton_self _)

theorem stage_eq_ok {o : Order} {s s' : Live (ω × List Exchange)} {staged : Staged}
    (h : (stage crates up.recorded o).exec s = (.ok staged, s')) :
    Staging crates s.ex o (exchanges s') staged := by
  cases o with
  | buy req =>
      rw [stage, exec_get_bind] at h
      obtain ⟨_, harmed, h⟩ := exec_ofExcept_bind_eq_ok h
      obtain ⟨_, htime, h⟩ := exec_ofExcept_bind_eq_ok h
      obtain ⟨⟨quote, outDecimals, swapTx⟩, m, hprepare, h⟩ := exec_bind_eq_ok h
      cases h
      obtain ⟨hlamports, hprepared⟩ := prepareBuy_eq_ok hprepare
      refine ⟨by simpa using haltIf_eq_ok harmed, rfl, ?_, hprepared⟩
      intro req' hreq
      cases hreq
      exact ⟨not_lt.mp (haltIf_eq_ok htime), hlamports⟩
  | sell req =>
      rw [stage, exec_get_bind] at h
      obtain ⟨_, harmed, h⟩ := exec_ofExcept_bind_eq_ok h
      obtain ⟨⟨quote, swapTx⟩, m, hprepare, h⟩ := exec_bind_eq_ok h
      cases h
      refine ⟨by simpa using haltIf_eq_ok harmed, rfl, ?_, prepareSell_eq_ok hprepare⟩
      intro req' hreq
      cases hreq

/-! ## The four ways an order goes -/

section Ways

variable (crates up)

theorem sendBundle_log (id : UInt64) (txs : List SignedTx) :
    Appends exchanges (fun new _ => ∃ response, new = [⟨.sendBundle id txs, response⟩])
      (sendBundle crates up.recorded id txs) := by
  refine Appends.bind (Q := fun _ new _ => ∀ e ∈ new, False) (call_log up _)
    (fun response _ _ => ?_) ?_ ?_
  · -- whatever the response, nothing more is sent
    show Only (fun _ => False) _
    split
    · exact only_throw _
    · exact only_throw _
    · split
      · exact only_pure _
      · exact only_throw _
  · intro new e hnew
    obtain ⟨response, hr, -⟩ := hnew
    cases hr
  · intro response new later r hnew hlater
    obtain ⟨response', -, rfl⟩ := hnew
    obtain rfl : later = [] := List.eq_nil_iff_forall_not_mem.mpr hlater
    exact ⟨response', rfl⟩

/-- Past the signing, the bundle goes out first and is followed up after. -/
theorem submit_settle_log (o : Order) (staged : Staged) (txs : List SignedTx) :
    Appends exchanges
      (fun new _ => ∃ id response later, new = ⟨.sendBundle id txs, response⟩ :: later ∧
        ¬ Submitted later)
      (submitBundle crates up.recorded txs >>= fun _ => settle crates up.recorded o staged) := by
  -- polling and settling ask for statuses and balances only
  have hafter : ∀ uuid, Only (fun k => k ≠ .bundle)
      ((do
        let s ← get
        let _ ← pollBundleLanding crates up.recorded uuid s.ex.bundleTimeoutSecs
        settle crates up.recorded o staged) : LiveM (ω × List Exchange) Fill) := by
    intro uuid
    refine only_get_bind fun s => Only.bind ?_ fun _ => ?_
    · apply (only_pollBundleLanding crates up uuid _).mono
      intro k hk
      rw [hk]
      decide
    · apply (only_settle crates up o staged).mono
      intro k hk
      rw [hk]
      decide
  simp only [submitBundle, bind_assoc]
  refine Appends.bind (P := fun new r => new = [] ∧ ∃ id, r = .ok id)
    (fun s => ⟨[], (List.append_nil _).symm, rfl, _, rfl⟩)
    (Q := fun id new _ => ∃ response later, new = ⟨.sendBundle id txs, response⟩ :: later ∧
      ¬ Submitted later) ?_ ?_ ?_
  · intro id new _
    refine Appends.bind (sendBundle_log crates up id txs) (fun uuid _ _ => hafter uuid) ?_ ?_
    · intro new e hnew
      obtain ⟨response, rfl⟩ := hnew
      exact ⟨response, [], rfl, not_submitted (by simp)⟩
    · intro uuid new later r hnew hlater
      obtain ⟨response, rfl⟩ := hnew
      exact ⟨response, later, rfl, not_submitted hlater⟩
  · intro new e hnew
    obtain ⟨-, id, hr⟩ := hnew
    cases hr
  · intro id new later r hnew hlater
    obtain ⟨rfl, -⟩ := hnew
    exact ⟨id, hlater⟩

/-- How far an order gets: the result and the last state of each way. -/
inductive Way (o : Order) (s : Live ω) : Except Halt Fill × Live ω → Prop
  | unstaged {e : Halt} {m : Live ω} (hstage : (stage crates up o).exec s = (.error e, m)) :
      Way o s (.error e, m)
  | unsigned {staged : Staged} {e : Halt} {m m' : Live ω}
      (hstage : (stage crates up o).exec s = (.ok staged, m))
      (hsign : (signBundle crates up staged.swapTx staged.tier).exec m = (.error e, m')) :
      Way o s (.error e, m')
  | simulated {staged : Staged} {txs : List SignedTx} {m m' : Live ω}
      (hstage : (stage crates up o).exec s = (.ok staged, m))
      (hsign : (signBundle crates up staged.swapTx staged.tier).exec m = (.ok txs, m'))
      (hsimulate : s.ex.simulateOnly = true) :
      Way o s ((settle crates up o staged).exec m')
  | sent {staged : Staged} {txs : List SignedTx} {m m' : Live ω}
      (hstage : (stage crates up o).exec s = (.ok staged, m))
      (hsign : (signBundle crates up staged.swapTx staged.tier).exec m = (.ok txs, m'))
      (hsend : s.ex.simulateOnly = false) :
      Way o s ((submitBundle crates up txs >>= fun _ => settle crates up o staged).exec m')

/-- Staging and signing leave the settings alone. -/
theorem settings_of_signed {o : Order} {s m m' : Live ω} {staged : Staged}
    {r : Except Halt (List SignedTx)} (hstage : (stage crates up o).exec s = (.ok staged, m))
    (hsign : (signBundle crates up staged.swapTx staged.tier).exec m = (r, m')) :
    settings m' = settings s := by
  have hstaged := settings_of_exec (blind_settings.stage crates up o) hstage
  have hsigned := settings_of_exec (steady_signBundle crates up _ _) hsign
  rw [hsigned, hstaged]

/-- Every order goes one of the four ways. -/
theorem place_way (o : Order) (s : Live ω) : Way crates up o s ((place crates up o).exec s) := by
  rw [place_stages, exec_bind]
  rcases hstage : (stage crates up o).exec s with ⟨e | staged, m⟩
  · exact .unstaged hstage
  · dsimp only
    rw [signAndMaybeSend, bind_assoc, exec_bind]
    rcases hsign : (signBundle crates up staged.swapTx staged.tier).exec m with ⟨e | txs, m'⟩
    · exact .unsigned hstage hsign
    · have hsim : m'.ex.simulateOnly = s.ex.simulateOnly := by
        show (settings m').simulateOnly = (settings s).simulateOnly
        rw [settings_of_signed crates up hstage hsign]
      dsimp only
      rw [bind_assoc, exec_get_bind, hsim]
      cases hsend : s.ex.simulateOnly with
      | true => exact .simulated hstage hsign hsend
      | false => exact .sent hstage hsign hsend

end Ways

/-! ## Where the program stops -/

section Stops

/-- The computation answers from every state. -/
def AlwaysAnswers (x : LiveM ω α) : Prop := Meets x fun _ r _ => Answers r

theorem always_pure (a : α) : AlwaysAnswers (pure a : LiveM ω α) := fun _ => answers_ok a

theorem always_throw (e : ExecError) : AlwaysAnswers (throw (.err e) : LiveM ω α) :=
  fun _ => answers_err e

theorem always_ofExcept {r : Except Halt α} (h : Answers r) :
    AlwaysAnswers (ofExcept r : LiveM ω α) := by
  intro s
  rw [exec_ofExcept]
  exact h

theorem always_get_bind {f : Live ω → LiveM ω α} (h : ∀ s, AlwaysAnswers (f s)) :
    AlwaysAnswers (get >>= f) :=
  fun s => h s s

theorem AlwaysAnswers.bind {x : LiveM ω α} {f : α → LiveM ω β} (hx : AlwaysAnswers x)
    (hf : ∀ a, AlwaysAnswers (f a)) : AlwaysAnswers (x >>= f) := by
  refine Meets.bind hx (fun _ a _ _ => hf a) ?_ fun _ _ _ _ _ _ hr => hr
  intro s e s' he hover
  cases hover
  exact he rfl

theorem AlwaysAnswers.ne_overflow {x : LiveM ω α} (hx : AlwaysAnswers x) {s s' : Live ω} :
    x.exec s ≠ (.error .overflow, s') := by
  intro h
  have hanswers := hx s
  rw [h] at hanswers
  exact hanswers rfl

variable (crates up)

theorem always_jupiterCall (what skipped : String) (req : Request) :
    AlwaysAnswers (jupiterCall up what skipped req) := by
  refine AlwaysAnswers.bind (x := takeToken) (fun _ => answers_ok _) fun granted => ?_
  split
  · refine AlwaysAnswers.bind (x := call up req) (fun _ => answers_ok _) fun response => ?_
    split
    · exact always_pure _
    · rename_i e
      obtain ⟨msg, hmsg⟩ := exists_transport_of_halt e what " body unreadable: "
      rw [hmsg]
      exact always_throw _
  · exact always_throw _

theorem always_rpcTry (method : RpcMethod) (is : List Nat) {lastErr : Halt}
    (hlast : ∃ msg, lastErr = .transport msg) : AlwaysAnswers (rpcTry up method is lastErr) := by
  induction is generalizing lastErr with
  | nil =>
      obtain ⟨msg, rfl⟩ := hlast
      exact always_throw _
  | cons i rest ih =>
      apply always_get_bind
      intro s
      refine AlwaysAnswers.bind (x := call up _) (fun _ => answers_ok _) fun response => ?_
      split
      · exact AlwaysAnswers.bind (fun _ => answers_ok _) fun _ => always_pure _
      · exact ih (exists_transport_of_halt _ _ _)

theorem always_rpcCall (method : RpcMethod) : AlwaysAnswers (rpcCall up method) :=
  always_get_bind fun _ => always_rpcTry up method _ ⟨_, rfl⟩

theorem always_jupiterQuote (inputMint outputMint : String) (amountRaw slippageBps : UInt64) :
    AlwaysAnswers (jupiterQuote crates up inputMint outputMint amountRaw slippageBps) :=
  (always_jupiterCall up _ _ _).bind fun body =>
    always_ofExcept (answers_parseQuoteResponse crates body)

theorem always_jupiterSwap (quote : JupiterQuote) (userPubkey : String) (fee : UInt64) :
    AlwaysAnswers (jupiterSwap up quote userPubkey fee) :=
  (always_jupiterCall up _ _ _).bind fun body => always_ofExcept (answers_parseSwapResponse body)

theorem always_fetchTokenDecimals (mint : String) : AlwaysAnswers (fetchTokenDecimals up mint) :=
  (always_rpcCall up _).bind fun body => always_ofExcept (answers_parseTokenSupplyDecimals body)

/-- What a quote is checked for answers. -/
theorem always_preflight (quote : JupiterQuote) (pair : Mint × Mint) (maxSlippagePct : Decimal)
    (mismatch empty : Text) {x : LiveM ω α} (hx : AlwaysAnswers x) :
    AlwaysAnswers (do
      ofExcept (haltIf (quote.inputMint ≠ pair.1 ∨ quote.outputMint ≠ pair.2) (.rejected mismatch))
      ofExcept (haltIf (quote.outAmountRaw = 0) (.rejected empty))
      ofExcept (quoteWithinBudget quote maxSlippagePct)
      x) :=
  (always_ofExcept (answers_haltIf _ _)).bind fun _ =>
    (always_ofExcept (answers_haltIf _ _)).bind fun _ =>
      (always_ofExcept (answers_haltIf _ _)).bind fun _ => hx

/-- The computation stops the program from this state. -/
def Stops (x : LiveM ω α) (s : Live ω) : Prop := ∃ m, x.exec s = (.error .overflow, m)

theorem AlwaysAnswers.not_stops {x : LiveM ω α} (hx : AlwaysAnswers x) (s : Live ω) :
    ¬ Stops x s := fun ⟨_, h⟩ => hx.ne_overflow h

theorem stops_get_bind {f : Live ω → LiveM ω α} {s : Live ω} :
    Stops (get >>= f) s ↔ Stops (f s) s := Iff.rfl

/-- A sequence stops in its first part, or in the rest. -/
theorem stops_bind {x : LiveM ω α} {f : α → LiveM ω β} {s : Live ω} :
    Stops (x >>= f) s ↔ Stops x s ∨ ∃ a m, x.exec s = (.ok a, m) ∧ Stops (f a) m := by
  constructor
  · rintro ⟨m, h⟩
    rcases exec_bind_eq_error h with hx | ⟨a, m', hx, hrest⟩
    · exact Or.inl ⟨m, hx⟩
    · exact Or.inr ⟨a, m', hx, m, hrest⟩
  · rintro (⟨m, hx⟩ | ⟨a, m', hx, m, hrest⟩)
    · exact ⟨m, exec_bind_error hx⟩
    · exact ⟨m, (exec_bind_ok hx).trans hrest⟩

theorem stops_bind_of_answers {x : LiveM ω α} {f : α → LiveM ω β} {s : Live ω}
    (hf : ∀ a, AlwaysAnswers (f a)) : Stops (x >>= f) s ↔ Stops x s := by
  rw [stops_bind, or_iff_left]
  rintro ⟨a, m, -, hrest⟩
  exact (hf a).not_stops m hrest

theorem AlwaysAnswers.stops_bind {x : LiveM ω α} (hx : AlwaysAnswers x) {f : α → LiveM ω β}
    {s : Live ω} : Stops (x >>= f) s ↔ ∃ a m, x.exec s = (.ok a, m) ∧ Stops (f a) m := by
  rw [Live.stops_bind, or_iff_right (hx.not_stops s)]

/-- A pure step stops the program, or hands on to the rest. -/
theorem stops_ofExcept_bind {r : Except Halt α} {f : α → LiveM ω β} {s : Live ω} :
    Stops (ofExcept r >>= f) s ↔ r = .error .overflow ∨ ∃ a, r = .ok a ∧ Stops (f a) s := by
  rw [stops_bind]
  refine or_congr ?_ ?_
  · constructor
    · rintro ⟨m, h⟩
      exact (Prod.mk.inj ((exec_ofExcept r s).symm.trans h)).1
    · intro h
      exact ⟨s, (exec_ofExcept r s).trans (by rw [h])⟩
  · constructor
    · rintro ⟨a, m, hx, hrest⟩
      obtain ⟨hr, rfl⟩ := exec_ofExcept_eq_ok hx
      exact ⟨a, hr, hrest⟩
    · rintro ⟨a, hr, hrest⟩
      exact ⟨a, s, (exec_ofExcept r s).trans (by rw [hr]), hrest⟩

theorem stops_haltIf_bind {bad : Prop} [Decidable bad] {halt : Halt} (hhalt : halt ≠ .overflow)
    {f : Unit → LiveM ω β} {s : Live ω} :
    Stops (ofExcept (haltIf bad halt) >>= f) s ↔ ¬ bad ∧ Stops (f ()) s := by
  rw [stops_ofExcept_bind]
  unfold haltIf
  split
  · rename_i h
    simp [h, hhalt]
  · rename_i h
    refine ⟨?_, fun hboth => Or.inr ⟨(), rfl, hboth.2⟩⟩
    rintro (hover | ⟨_, -, hrest⟩)
    · cases hover
    · exact ⟨h, hrest⟩

/-- The slippage budgets whose basis points leave the range of the number type. -/
def SlippageBeyond (ex : LiveExecutor) : Prop := maxDecimal < ex.maxSlippagePct * 100

/-- A buy stops where its budget or the slippage leaves the range. -/
theorem prepareBuy_stops_iff {mint : Mint} {budgetUsd : Decimal} {s : Live ω} :
    Stops (prepareBuy crates up mint budgetUsd) s ↔
      BudgetBeyond crates.decimals budgetUsd s.ex.solUsd ∨
        (∃ lamports, usdToLamportsFloor crates.decimals budgetUsd s.ex.solUsd = .ok lamports) ∧
          SlippageBeyond s.ex := by
  rw [prepareBuy, stops_get_bind, stops_ofExcept_bind, usdToLamportsFloor_overflow_iff]
  refine or_congr_right ?_
  rw [← exists_and_right]
  refine exists_congr fun lamports => and_congr_right fun _ => ?_
  rw [stops_ofExcept_bind, slippagePctToBps_overflow_iff]
  refine or_iff_left ?_
  rintro ⟨bps, -, hrest⟩
  refine AlwaysAnswers.not_stops ?_ s hrest
  apply (always_jupiterQuote crates up _ _ _ _).bind
  intro quote
  apply always_preflight quote (solMint, mint) _ _ _
  apply (always_fetchTokenDecimals up mint).bind
  intro outDecimals
  exact (always_jupiterSwap up _ _ _).bind fun swapTx => always_pure _

/-- The quantities whose conversion leaves the range. -/
def QuantityBeyond (qty : Decimal) (decimals : UInt8) : Prop :=
  0 < qty ∧ (19 < decimals.toNat ∨ maxDecimal < qty * 10 ^ decimals.toNat)

/-- A sell stops where its quantity, at the decimals it reads, or the slippage leaves the
range. -/
theorem prepareSell_stops_iff {mint : Mint} {qty : Decimal} {tier : TipTier} {s : Live ω} :
    Stops (prepareSell crates up mint qty tier) s ↔
      ∃ decimals m, (fetchTokenDecimals up mint).exec s = (.ok decimals, m) ∧
        (QuantityBeyond qty decimals ∨
          (∃ raw, decimalToRawFloor qty decimals = .ok raw) ∧ SlippageBeyond s.ex) := by
  rw [prepareSell, (always_fetchTokenDecimals up mint).stops_bind]
  refine exists_congr fun decimals => exists_congr fun m => and_congr_right fun hfetch => ?_
  -- the slippage is read after the decimals were fetched; it is a setting
  have hsame := settings_of_exec (blind_settings.fetchTokenDecimals up mint) hfetch
  have hslippage : m.ex.maxSlippagePct = s.ex.maxSlippagePct := by
    show (settings m).maxSlippagePct = (settings s).maxSlippagePct
    rw [hsame]
  rw [stops_ofExcept_bind, decimalToRawFloor_overflow_iff]
  refine or_congr_right ?_
  rw [← exists_and_right]
  refine exists_congr fun raw => and_congr_right fun _ => ?_
  rw [stops_get_bind, stops_ofExcept_bind, slippagePctToBps_overflow_iff, SlippageBeyond,
    hslippage]
  refine or_iff_left ?_
  rintro ⟨bps, -, hrest⟩
  refine AlwaysAnswers.not_stops ?_ m hrest
  apply (always_jupiterQuote crates up _ _ _ _).bind
  intro quote
  apply always_preflight quote (mint, solMint) _ _ _
  exact (always_jupiterSwap up _ _ _).bind fun swapTx => always_pure _

theorem always_signBundle (swapTx : SwapTx) (tier : TipTier) :
    AlwaysAnswers (signBundle crates up swapTx tier) := by
  refine always_get_bind fun s => (always_ofExcept (answers_signer _ _)).bind fun keypair => ?_
  refine AlwaysAnswers.bind ?_ fun hash => ?_
  · apply always_get_bind
    intro s
    split
    · exact always_pure _
    · refine AlwaysAnswers.bind ?_ fun hash =>
        AlwaysAnswers.bind (fun _ => answers_ok _) fun _ => always_pure _
      exact (always_rpcCall up _).bind fun body =>
        always_ofExcept (answers_parseBlockhashResponse crates body)
  · apply (always_ofExcept (answers_signVersionedTx _ _ _ _)).bind
    intro swap
    refine AlwaysAnswers.bind ?_ fun tip => always_pure _
    apply always_get_bind
    intro s
    dsimp only
    split
    · exact always_pure _
    · refine AlwaysAnswers.bind (x := nextId) (fun _ => answers_ok _) fun n => ?_
      apply always_get_bind
      intro s
      refine (always_ofExcept (answers_mapM (fun _ => answers_orReject _ _) _)).bind fun _ => ?_
      apply (always_ofExcept (answers_orReject _ _)).bind
      intro account
      exact (always_ofExcept (answers_buildTipTx _ _ _ _ _)).bind fun _ => always_pure _

/-- The orders that stop before a swap is assembled: an armed executor meets, in time, a
budget, a quantity or a slippage budget that leaves the range of a conversion. -/
def StageBeyond (o : Order) (s : Live ω) : Prop :=
  s.ex.isArmed = true ∧
    match o with
    | .buy req => req.now ≤ req.deadline ∧
        (BudgetBeyond crates.decimals req.budgetUsd s.ex.solUsd ∨
          (∃ lamports,
            usdToLamportsFloor crates.decimals req.budgetUsd s.ex.solUsd = .ok lamports) ∧
            SlippageBeyond s.ex)
    | .sell req => ∃ decimals m, (fetchTokenDecimals up req.mint).exec s = (.ok decimals, m) ∧
        (QuantityBeyond req.qty decimals ∨
          (∃ raw, decimalToRawFloor req.qty decimals = .ok raw) ∧ SlippageBeyond s.ex)

/-- The fills whose amounts leave the range: the decimals of what was bought are too many,
or a price or the proceeds are too large. -/
def FillBeyond (solUsd : Decimal) : Order → Staged → Prop
  | .buy req, staged =>
      19 < staged.outDecimals.toNat ∨
        maxDecimal <
          |req.budgetUsd / (staged.quote.outAmountRaw.toNat / 10 ^ staged.outDecimals.toNat)|
  | .sell req, staged =>
      maxDecimal < |lamportsToUsd staged.quote.outAmountRaw solUsd| ∨
        maxDecimal <
          |crates.roundDecimal (lamportsToUsd staged.quote.outAmountRaw solUsd) / req.qty|

/-- The orders on which the program stops before anything is sent: in the staging, or at the
fill of a simulated order. -/
def BeyondRange (o : Order) (s : Live ω) : Prop :=
  StageBeyond crates up o s ∨
    s.ex.simulateOnly = true ∧ ∃ staged txs m m',
      (stage crates up o).exec s = (.ok staged, m) ∧
        (signBundle crates up staged.swapTx staged.tier).exec m = (.ok txs, m') ∧
        FillBeyond crates s.ex.solUsd o staged

theorem stage_stops_iff (o : Order) (s : Live ω) :
    Stops (stage crates up o) s ↔ StageBeyond crates up o s := by
  unfold StageBeyond
  cases o with
  | buy req =>
      refine (stops_haltIf_bind (by rintro ⟨⟩)).trans ?_
      rw [Bool.not_eq_false]
      refine and_congr_right fun _ => (stops_haltIf_bind (by rintro ⟨⟩)).trans ?_
      rw [not_lt]
      refine and_congr_right fun _ => ?_
      exact (stops_bind_of_answers fun _ => always_pure _).trans (prepareBuy_stops_iff crates up)
  | sell req =>
      refine (stops_haltIf_bind (by rintro ⟨⟩)).trans ?_
      rw [Bool.not_eq_false]
      refine and_congr_right fun _ => ?_
      exact (stops_bind_of_answers fun _ => always_pure _).trans (prepareSell_stops_iff crates up)

/-- Settling keeps within the range, or stops. -/
theorem settledIn_range {fmt : NumberFormat} {fill : Fill} {notionalUsd : Decimal}
    (hlimit : 0 ≤ fmt.limit) (hqty : fill.qty ≠ 0) (hfee : fill.feeUsd = 0)
    (hnotional : notionalIn fmt fill = .ok notionalUsd) :
    (settledIn fmt fill = .error .overflow ∧ fmt.limit < |notionalUsd / fill.qty|) ∨
      (∃ settled, settledIn fmt fill = .ok settled) ∧ |notionalUsd / fill.qty| ≤ fmt.limit := by
  have hsteps : settledIn fmt fill = (do
      let priceUsd ← orStop (fmt.fit (notionalUsd / fill.qty))
      let feeUsd ← orStop (fmt.fit 0)
      return { fill with priceUsd := priceUsd, notionalUsd := notionalUsd, feeUsd := feeUsd }) := by
    rw [settledIn, hnotional, hfee, ← NumberFormat.div_of_ne hqty]
    rfl
  rw [hsteps]
  rcases lt_or_ge fmt.limit |notionalUsd / fill.qty| with hbeyond | hwithin
  · left
    rw [orStop_fit_overflow_iff.mpr hbeyond]
    exact ⟨rfl, hbeyond⟩
  · right
    have hzero : |(0 : Decimal)| ≤ fmt.limit := by rwa [abs_zero]
    rw [orStop_fit_ok_iff.mpr ⟨hwithin, rfl⟩, orStop_fit_ok_iff.mpr ⟨hzero, rfl⟩]
    exact ⟨⟨_, rfl⟩, hwithin⟩

theorem maxDecimal_nonneg : (0 : Decimal) ≤ maxDecimal := by norm_num [maxDecimal]

/-- A simulated order settles with a fill, unless an amount of it leaves the range. -/
theorem settle_simulated {o : Order} {staged : Staged} {s : Live ω}
    (hsimulate : s.ex.simulateOnly = true) (hout : staged.quote.outAmountRaw ≠ 0)
    (hqty : ∀ req, o = .sell req → 0 < req.qty) :
    (((settle crates up o staged).exec s).1 >>= settledIn crates.decimals) = .error .overflow ∧
        FillBeyond crates s.ex.solUsd o staged ∨
      (∃ fill,
        (((settle crates up o staged).exec s).1 >>= settledIn crates.decimals) = .ok fill) ∧
        ¬ FillBeyond crates s.ex.solUsd o staged := by
  cases o with
  | buy req =>
      cases hraw : rawToDecimal staged.quote.outAmountRaw staged.outDecimals with
      | error e =>
          cases e with
          | err e => exact (rawToDecimal_error hraw).elim
          | overflow =>
              refine Or.inl ⟨?_, Or.inl ((rawToDecimal_overflow_iff _ _).mp hraw)⟩
              show (((settleBuy crates up req staged.quote staged.outDecimals).exec s).1 >>= _) = _
              rw [settleBuy, exec_get_bind, hraw]
              rfl
      | ok qty =>
          have hpos := rawToDecimal_pos hout hraw
          have hfew : ¬ 19 < staged.outDecimals.toNat := fun hmany => by
            have herror := (rawToDecimal_overflow_iff staged.quote.outAmountRaw
              staged.outDecimals).mpr hmany
            rw [hraw] at herror
            cases herror
          obtain ⟨fill, hfill, hside, hamounts⟩ : ∃ fill,
              ((settleBuy crates up req staged.quote staged.outDecimals).exec s).1 = .ok fill ∧
                fill.side = .buy ∧ fill.qty = qty ∧ fill.notionalUsd = req.budgetUsd ∧
                fill.feeUsd = 0 := by
            rw [settleBuy, exec_get_bind, hsimulate, hraw, exec_bind_ok (exec_ofExcept _ _),
              haltIf, if_neg (not_le.mpr hpos)]
            exact ⟨_, rfl, rfl, rfl, rfl, rfl⟩
          obtain ⟨hfillQty, hnotional, hfee⟩ := hamounts
          have hworth : notionalIn crates.decimals fill = .ok req.budgetUsd := by
            rw [notionalIn, hside, hnotional]
          have hrange := settledIn_range maxDecimal_nonneg (hfillQty ▸ hpos.ne') hfee hworth
          rw [hfillQty, rawToDecimal_eq_ok hraw] at hrange
          have hsettled : ((settle crates up (.buy req) staged).exec s).1 = .ok fill := hfill
          have hbeyond : FillBeyond crates s.ex.solUsd (.buy req) staged ↔ _ := or_iff_right hfew
          rw [hsettled, hbeyond]
          exact hrange.imp id fun h => ⟨h.1, not_lt.mpr h.2⟩
  | sell req =>
      have hpos := hqty req rfl
      obtain ⟨fill, hfill, hside, hfillQty, hnotional, hfee⟩ : ∃ fill,
          ((settleSell crates up req staged.quote).exec s).1 = .ok fill ∧ fill.side = .sell ∧
            fill.qty = req.qty ∧
            fill.notionalUsd = lamportsToUsd staged.quote.outAmountRaw s.ex.solUsd ∧
            fill.feeUsd = 0 := by
        rw [settleSell, exec_get_bind, hsimulate]
        exact ⟨_, rfl, rfl, rfl, rfl, rfl⟩
      have hsettled : ((settle crates up (.sell req) staged).exec s).1 = .ok fill := hfill
      rw [hsettled]
      rcases lt_or_ge maxDecimal |lamportsToUsd staged.quote.outAmountRaw s.ex.solUsd| with
        hbeyond | hwithin
      · refine Or.inl ⟨?_, Or.inl hbeyond⟩
        show settledIn crates.decimals fill = _
        rw [settledIn, notionalIn, hside, hnotional]
        dsimp only
        rw [orStop_fit_overflow_iff.mpr hbeyond]
        rfl
      · have hworth : notionalIn crates.decimals fill =
            .ok (crates.roundDecimal (lamportsToUsd staged.quote.outAmountRaw s.ex.solUsd)) := by
          rw [notionalIn, hside, hnotional]
          exact orStop_fit_ok_iff.mpr ⟨hwithin, rfl⟩
        have hrange := settledIn_range maxDecimal_nonneg (hfillQty ▸ hpos.ne') hfee hworth
        have hbeyond : FillBeyond crates s.ex.solUsd (.sell req) staged ↔ _ :=
          or_iff_right (not_lt.mpr hwithin)
        rw [hfillQty] at hrange
        rw [hbeyond]
        exact hrange.imp id fun h => ⟨h.1, not_lt.mpr h.2⟩

end Stops

end Live

/-! ## The guarantee of an order -/

variable {crates : Crates}

/-- What an order keeps to.  Its bundle goes out at most once, behind all checks, and
is the swap with the tip of its tier.  Without a bundle the order ends in an error or
in a simulated fill. -/
structure Guarded (crates : Crates) (ex : LiveExecutor) (o : Order) (r : Except Halt Fill)
    (log : List Exchange) : Prop where
  once : (log.filter fun x => x.kind = .bundle).length ≤ 1
  checked : ∀ id txs response, ⟨.sendBundle id txs, response⟩ ∈ log →
    ex.simulateOnly = false ∧
      ∃ staged, Staging crates ex o log staged ∧ Bundled crates ex staged.swapTx o.tier txs
  answered : ¬ Submitted log →
    (∃ e, r = .error (.err e)) ∨ ex.simulateOnly = true ∧ ∃ fill, r = .ok fill

theorem filter_bundle_eq_nil {log : List Exchange} (h : ¬ Submitted log) :
    (log.filter fun x => x.kind = .bundle) = [] := by
  rw [List.filter_eq_nil_iff]
  intro x hx hkind
  exact h ⟨x, hx, of_decide_eq_true hkind⟩

theorem Prepared.mono {ex : LiveExecutor} {pair : Mint × Mint} {before log : List Exchange}
    {quote : JupiterQuote} {swapTx : SwapTx} (h : Prepared crates ex pair before quote swapTx)
    (hsub : before ⊆ log) : Prepared crates ex pair log quote swapTx := by
  obtain ⟨amountRaw, bps, body, hquote, hparse⟩ := h.quoted
  obtain ⟨fee, swapBody, hswap, hswapParse⟩ := h.assembled
  exact { h with
    quoted := ⟨amountRaw, bps, body, hsub hquote, hparse⟩
    assembled := ⟨fee, swapBody, hsub hswap, hswapParse⟩ }

/-- An order that has sent nothing is guarded by its answer alone. -/
theorem Guarded.of_unsent {ex : LiveExecutor} {o : Order} {r : Except Halt Fill}
    {log : List Exchange} (hunsent : ¬ Submitted log)
    (hanswer : (∃ e, r = .error (.err e)) ∨ ex.simulateOnly = true ∧ ∃ fill, r = .ok fill) :
    Guarded crates ex o r log where
  once := by rw [filter_bundle_eq_nil hunsent]; exact Nat.zero_le _
  checked id txs response hx := absurd ⟨_, hx, rfl⟩ hunsent
  answered _ := hanswer

/-- An order that stops before anything is sent has not answered. -/
theorem not_guarded_overflow {ex : LiveExecutor} {o : Order} {log : List Exchange}
    (hunsent : ¬ Submitted log) : ¬ Guarded crates ex o (.error .overflow) log := by
  intro hguarded
  rcases hguarded.answered hunsent with ⟨e, he⟩ | ⟨-, fill, hfill⟩
  · cases he
  · cases hfill

/-- One bundle, sent in order, guards the whole log. -/
theorem Guarded.of_sent {ex : LiveExecutor} {o : Order} {r : Except Halt Fill}
    {before later : List Exchange} {id : UInt64} {txs : List SignedTx} {response : Response}
    {staged : Live.Staged} (hsend : ex.simulateOnly = false)
    (hstaging : Staging crates ex o before staged)
    (hbundled : Bundled crates ex staged.swapTx o.tier txs) (hbefore : ¬ Submitted before)
    (hlater : ¬ Submitted later) :
    Guarded crates ex o r (before ++ ⟨.sendBundle id txs, response⟩ :: later) where
  once := by
    have hkind : Exchange.kind ⟨.sendBundle id txs, response⟩ = .bundle := rfl
    rw [List.filter_append, List.filter_cons, filter_bundle_eq_nil hbefore,
      filter_bundle_eq_nil hlater]
    simp [hkind]
  checked id' txs' response' hx := by
    rcases List.mem_append.mp hx with hx | hx
    · exact absurd ⟨_, hx, rfl⟩ hbefore
    rcases List.mem_cons.mp hx with hx | hx
    · obtain ⟨hrequest, -⟩ := Exchange.mk.inj hx
      obtain ⟨-, rfl⟩ := Request.sendBundle.inj hrequest
      refine ⟨hsend, staged, ?_, hbundled⟩
      exact { hstaging with
        prepared := hstaging.prepared.mono (List.subset_append_left _ _) }
    · exact absurd ⟨⟨.sendBundle id' txs', response'⟩, hx, rfl⟩ hlater
  answered hunsent := by
    refine absurd ⟨⟨.sendBundle id txs, response⟩, ?_, rfl⟩ hunsent
    exact List.mem_append_right _ List.mem_cons_self

namespace Live

variable {ω α β : Type} {crates : Crates} {up : Upstream ω}

theorem unsent_of_only {C : RequestKind → Prop} {x : LiveM (ω × List Exchange) α}
    (hx : Only C x) (hC : ¬ C .bundle) {s s' : Live (ω × List Exchange)} {r : Except Halt α}
    (h : x.exec s = (r, s')) (hs : ¬ Submitted (exchanges s)) : ¬ Submitted (exchanges s') := by
  obtain ⟨new, hlog, hnew⟩ := hx s
  rw [h] at hlog
  have hlog' : exchanges s' = exchanges s ++ new := hlog
  rw [hlog', submitted_append]
  rintro (hold | ⟨e, he, hkind⟩)
  · exact hs hold
  · have hmem := hnew e he
    rw [hkind] at hmem
    exact hC hmem

variable (crates up)

theorem only_stage (o : Order) : Only (· ∈ stageKinds) (stage crates up.recorded o) :=
  Appends.mono (stage_yields crates up o) fun _ _ h => h.1

section Unsent

variable {o : Order} {s m m' : Live (ω × List Exchange)} {staged : Staged}
  {r : Except Halt (List SignedTx)}

/-- Neither staging nor signing submits anything. -/
theorem unsent_of_staged {r : Except Halt Staged} (hs : ¬ Submitted (exchanges s))
    (hstage : (stage crates up.recorded o).exec s = (r, m)) : ¬ Submitted (exchanges m) :=
  unsent_of_only (only_stage crates up o) (by decide) hstage hs

theorem unsent_of_signed (hs : ¬ Submitted (exchanges s))
    (hstage : (stage crates up.recorded o).exec s = (.ok staged, m))
    (hsign : (signBundle crates up.recorded staged.swapTx staged.tier).exec m = (r, m')) :
    ¬ Submitted (exchanges m') :=
  unsent_of_only (only_signBundle crates up _ _) (by decide) hsign
    (unsent_of_staged crates up hs hstage)

end Unsent

/-- An order that is not staged is beyond the range exactly if it stopped there. -/
theorem beyondRange_iff_of_unstaged {o : Order} {s m : Live ω} {e : Halt}
    (hstage : (stage crates up o).exec s = (.error e, m)) :
    BeyondRange crates up o s ↔ e = .overflow := by
  constructor
  · rintro (hbeyond | ⟨-, staged, txs, m₁, m₂, hok, -⟩)
    · obtain ⟨m', hstop⟩ := (stage_stops_iff crates up o s).mpr hbeyond
      rw [hstop] at hstage
      cases hstage
      rfl
    · rw [hok] at hstage
      cases hstage
  · rintro rfl
    exact Or.inl ((stage_stops_iff crates up o s).mp ⟨m, hstage⟩)

/-- An order that is staged has not stopped before. -/
theorem not_stageBeyond_of_staged {o : Order} {s m : Live ω} {staged : Staged}
    (hstage : (stage crates up o).exec s = (.ok staged, m)) : ¬ StageBeyond crates up o s := by
  intro hbeyond
  obtain ⟨m', hstop⟩ := (stage_stops_iff crates up o s).mpr hbeyond
  rw [hstop] at hstage
  cases hstage

/-- An order that is not signed has answered. -/
theorem not_beyondRange_of_unsigned {o : Order} {s m m' : Live ω} {staged : Staged} {e : Halt}
    (hstage : (stage crates up o).exec s = (.ok staged, m))
    (hsign : (signBundle crates up staged.swapTx staged.tier).exec m = (.error e, m')) :
    ¬ BeyondRange crates up o s := by
  rintro (hbeyond | ⟨-, staged', txs, m₁, m₂, hok, hsigned, -⟩)
  · exact not_stageBeyond_of_staged crates up hstage hbeyond
  · rw [hok] at hstage
    cases hstage
    rw [hsigned] at hsign
    cases hsign

/-- A signed order is beyond the range at the fill of a simulation. -/
theorem beyondRange_iff_of_signed {o : Order} {s m m' : Live ω} {staged : Staged}
    {txs : List SignedTx} (hstage : (stage crates up o).exec s = (.ok staged, m))
    (hsign : (signBundle crates up staged.swapTx staged.tier).exec m = (.ok txs, m')) :
    BeyondRange crates up o s ↔
      s.ex.simulateOnly = true ∧ FillBeyond crates s.ex.solUsd o staged := by
  constructor
  · rintro (hbeyond | ⟨hsimulate, staged', txs', m₁, m₂, hok, -, hfill⟩)
    · exact absurd hbeyond (not_stageBeyond_of_staged crates up hstage)
    · rw [hok] at hstage
      cases hstage
      exact ⟨hsimulate, hfill⟩
  · rintro ⟨hsimulate, hfill⟩
    exact Or.inr ⟨hsimulate, staged, txs, m, m', hstage, hsign, hfill⟩

section Ways

variable {o : Order} {s m m' : Live (ω × List Exchange)} {staged : Staged} {txs : List SignedTx}

/-- An order that is not staged keeps to its guarantee unless it overflows. -/
theorem guarded_unstaged_iff {e : Halt} (hfresh : ¬ Submitted (exchanges s))
    (hstage : (stage crates up.recorded o).exec s = (.error e, m)) :
    Guarded crates s.ex o (.error e) (exchanges m) ↔ ¬ BeyondRange crates up.recorded o s := by
  have hunsent := unsent_of_staged crates up hfresh hstage
  rw [beyondRange_iff_of_unstaged crates up.recorded hstage]
  cases e with
  | err e =>
      have hguarded : Guarded crates s.ex o (.error (.err e)) (exchanges m) :=
        .of_unsent hunsent (Or.inl ⟨e, rfl⟩)
      exact iff_of_true hguarded (by simp)
  | overflow => exact iff_of_false (not_guarded_overflow hunsent) (not_not.mpr rfl)

/-- So does one that is not signed. -/
theorem guarded_unsigned_iff {e : Halt} (hfresh : ¬ Submitted (exchanges s))
    (hstage : (stage crates up.recorded o).exec s = (.ok staged, m))
    (hsign : (signBundle crates up.recorded staged.swapTx staged.tier).exec m = (.error e, m')) :
    Guarded crates s.ex o (.error e) (exchanges m') ↔ ¬ BeyondRange crates up.recorded o s := by
  have hunsent := unsent_of_signed crates up hfresh hstage hsign
  cases e with
  | err e =>
      have hguarded : Guarded crates s.ex o (.error (.err e)) (exchanges m') :=
        .of_unsent hunsent (Or.inl ⟨e, rfl⟩)
      exact iff_of_true hguarded (not_beyondRange_of_unsigned crates up.recorded hstage hsign)
  -- signing takes no power of ten
  | overflow => exact absurd hsign (always_signBundle crates up.recorded _ _).ne_overflow

/-- Nothing of a simulated order is sent, so its fill is simulated, if its amounts are in
range. -/
theorem guarded_simulated_iff (hfresh : ¬ Submitted (exchanges s))
    (hstage : (stage crates up.recorded o).exec s = (.ok staged, m))
    (hsign : (signBundle crates up.recorded staged.swapTx staged.tier).exec m = (.ok txs, m'))
    (hsimulate : s.ex.simulateOnly = true) :
    Guarded crates s.ex o
        (((settle crates up.recorded o staged).exec m').1 >>= settledIn crates.decimals)
        (exchanges ((settle crates up.recorded o staged).exec m').2) ↔
      ¬ BeyondRange crates up.recorded o s := by
  have hsame := settings_of_signed crates up.recorded hstage hsign
  have hsim : m'.ex.simulateOnly = true := by
    show (settings m').simulateOnly = true
    rw [hsame]
    exact hsimulate
  have hsol : m'.ex.solUsd = s.ex.solUsd := by
    show (settings m').solUsd = (settings s).solUsd
    rw [hsame]
  have hunsent : ¬ Submitted (exchanges ((settle crates up.recorded o staged).exec m').2) :=
    unsent_of_only (only_settle crates up o staged) (by decide) rfl
      (unsent_of_signed crates up hfresh hstage hsign)
  have hout := (stage_eq_ok hstage).prepared.output
  have hqty : ∀ req, o = .sell req → 0 < req.qty := by
    rintro req rfl
    exact stage_sell_pos hstage
  rw [beyondRange_iff_of_signed crates up.recorded hstage hsign, ← hsol]
  rcases settle_simulated crates up.recorded hsim hout hqty with
    ⟨hover, hbeyond⟩ | ⟨⟨fill, hfill⟩, hwithin⟩
  · rw [hover]
    exact iff_of_false (not_guarded_overflow hunsent) (not_not.mpr ⟨hsimulate, hbeyond⟩)
  · rw [hfill]
    exact iff_of_true (.of_unsent hunsent (Or.inr ⟨hsimulate, fill, rfl⟩))
      fun hboth => hwithin hboth.2

/-- An order that is sent keeps to its guarantee. -/
theorem guarded_sent_iff (hfresh : ¬ Submitted (exchanges s))
    (hstage : (stage crates up.recorded o).exec s = (.ok staged, m))
    (hsign : (signBundle crates up.recorded staged.swapTx staged.tier).exec m = (.ok txs, m'))
    (hsend : s.ex.simulateOnly = false) :
    Guarded crates s.ex o
        (((submitBundle crates up.recorded txs >>= fun _ =>
          settle crates up.recorded o staged).exec m').1 >>= settledIn crates.decimals)
        (exchanges ((submitBundle crates up.recorded txs >>= fun _ =>
          settle crates up.recorded o staged).exec m').2) ↔
      ¬ BeyondRange crates up.recorded o s := by
  have hsame := settings_of_exec (blind_settings.stage crates up.recorded o) hstage
  have hstaging := stage_eq_ok hstage
  have hbundled : Bundled crates s.ex staged.swapTx o.tier txs := by
    have hsigned := signBundle_eq_ok hsign
    rw [hstaging.tier] at hsigned
    show Bundled crates (settings s) staged.swapTx o.tier txs
    rw [← hsame]
    exact hsigned
  have hbefore := unsent_of_signed crates up hfresh hstage hsign
  -- the bundle is the first thing the submission logs, and the last of its kind
  obtain ⟨new, hlog, id, response, later, rfl, hlater⟩ :=
    submit_settle_log crates up o staged txs m'
  have hstaging' : Staging crates s.ex o (exchanges m') staged :=
    { hstaging with
      prepared := hstaging.prepared.mono fun x hx =>
        mem_exchanges_of_exec (only_signBundle crates up _ _) hsign hx }
  rw [beyondRange_iff_of_signed crates up.recorded hstage hsign, hlog]
  apply iff_of_true
  · exact .of_sent hsend hstaging' hbundled hbefore hlater
  · rintro ⟨hsimulate, -⟩
    rw [hsend] at hsimulate
    cases hsimulate

end Ways

/-- **A bundle goes out only after every check, and at most once.**  The order always
keeps to its guarantee, except that the program stops, instead of answering, where an
amount leaves the range of a conversion or of the fill before anything is sent. -/
theorem guarded_iff (o : Order) (s : Live ω) :
    Guarded crates s.ex o ((traced crates up o s).1 >>= settledIn crates.decimals)
        (traced crates up o s).2 ↔
      ¬ BeyondRange crates up.recorded o (record s) := by
  have hway := place_way crates up.recorded o (record s)
  have hfresh : ¬ Submitted (exchanges (record s)) := not_submitted (by simp [exchanges, record])
  show Guarded crates (record s).ex o
    (((place crates up.recorded o).exec (record s)).1 >>= settledIn crates.decimals)
    (exchanges ((place crates up.recorded o).exec (record s)).2) ↔ _
  generalize (place crates up.recorded o).exec (record s) = p at hway
  generalize record s = start at hway hfresh
  cases hway with
  | unstaged hstage => exact guarded_unstaged_iff crates up hfresh hstage
  | unsigned hstage hsign => exact guarded_unsigned_iff crates up hfresh hstage hsign
  | simulated hstage hsign hsimulate =>
      exact guarded_simulated_iff crates up hfresh hstage hsign hsimulate
  | sent hstage hsign hsend => exact guarded_sent_iff crates up hfresh hstage hsign hsend

/-- A token whose mint has sixty-four decimals. -/
def manyDecimals : Upstream Unit where
  answer req w :=
    match req with
    | .rpc _ (.getTokenSupply _) =>
        ({ response := .ok (.ok (Mock.result (.object [("decimals", Mock.num 64)]))), elapsed := 0 },
          w)
    | _ => (Mock.upstream Mock.landed Mock.fiveTokens).answer req w
  utcNow _ := 0

/-- A simulated buy of such a token ends in neither an error nor a fill. -/
theorem manyDecimals_stops :
    ∃ ex, LiveExecutor.armedWithSigner { Mock.config with simulateOnly := true } Mock.loaded 0 =
        .ok ex ∧
      let run := traced Mock.crates manyDecimals (.buy Mock.buyOrder)
        { ex := ex, clock := 0, outside := () }
      let settled := run.1 >>= settledIn Mock.crates.decimals
      settled = .error .overflow ∧ ¬ Guarded Mock.crates ex (.buy Mock.buyOrder) settled run.2 := by
  refine ⟨_, rfl, ?_⟩
  intro run settled
  -- the order is evaluated once
  have hrun : settled = .error .overflow ∧ ¬ Submitted run.2 := by decide +kernel
  obtain ⟨hover, hunsent⟩ := hrun
  rw [hover]
  exact ⟨rfl, not_guarded_overflow hunsent⟩

end Live

end HfmcBot
