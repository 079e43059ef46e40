import HfmcBot.Live.Requests

/-!
# The amount of a swap

The amount is written into the quote request.  What the swap is assembled from is the quote
that comes back, and nothing compares the two: the pair, the output and the price impact of a
quote are checked, its input amount is not.  The amount of a buy is a floor, but one that is
taken of rounded numbers.

* `SwapsAsAsked`: the swap of an order is for the amount that the order asks for;
* `swapsAsAsked_iff`: it is, exactly if the quote echoes the amount of its request and no
  rounding carries the lamports of a buy above its budget.
-/

namespace HfmcBot

open Foundation Foundation.Attempt

/-- What a fill books, which is what the order asked for. -/
def Books : Order → Fill → Prop
  | .buy req, fill => fill.notionalUsd = req.budgetUsd
  | .sell req, fill => fill.qty = req.qty

/-- The quote that goes into a `/swap` request has the amount that the order asks for, which
for a buy is worth no more than its budget, and what is booked is what was asked. -/
structure SwapsAsAsked (crates : Crates) (ex : LiveExecutor) (o : Order) (log : List Exchange)
    (r : Except Halt Fill) : Prop where
  amount : ∀ x ∈ log, ∀ raw user fee, x.request = .swap raw user fee →
    ∃ quote amount, parseQuoteResponse crates (.ok raw) = .ok quote ∧
      Asks crates ex log o amount ∧ quote.inAmountRaw = amount
  worth : ∀ req amount, o = .buy req → Asks crates ex log o amount →
    lamportsToUsd amount ex.solUsd ≤ req.budgetUsd
  booked : ∀ fill, r = .ok fill → Books o fill

/-- A quote that can be read echoes the amount of its request. -/
def Exchange.echoes (crates : Crates) (x : Exchange) : Bool :=
  match x.request, x.response with
  | .quote _ _ amountRaw _, .ok body =>
      match parseQuoteResponse crates body with
      | .ok quote => quote.inAmountRaw == amountRaw
      | .error _ => true
  | _, _ => true

theorem echoes_quote {crates : Crates} {inputMint outputMint : String}
    {amountRaw slippageBps : UInt64} {body : Body} {quote : JupiterQuote}
    (hparse : parseQuoteResponse crates body = .ok quote) :
    Exchange.echoes crates ⟨.quote inputMint outputMint amountRaw slippageBps, .ok body⟩ = true ↔
      quote.inAmountRaw = amountRaw := by
  unfold Exchange.echoes
  dsimp only
  rw [hparse]
  exact beq_iff_eq

/-- Only a quote can fail to echo. -/
theorem echoes_of_kind {crates : Crates} {x : Exchange} (h : x.kind ≠ .quote) :
    x.echoes crates = true := by
  obtain ⟨request, response⟩ := x
  cases request with
  | quote inputMint outputMint amountRaw slippageBps => exact absurd rfl h
  | _ => rfl

/-- Only a swap request is of the swap kind. -/
theorem kind_of_swap {x : Exchange} {raw : Json} {user : String} {fee : UInt64}
    (h : x.request = .swap raw user fee) : x.kind = .swap := by
  rw [Exchange.kind, h]
  rfl

/-- A quote carries the document it was read from. -/
theorem body_of_parseQuote {crates : Crates} {body : Body} {quote : JupiterQuote}
    (h : parseQuoteResponse crates body = .ok quote) : body = .ok quote.raw := by
  obtain ⟨v, hread, h⟩ := exists_of_bind_eq_ok h
  obtain ⟨_, -, h⟩ := exists_of_bind_eq_ok h
  obtain ⟨_, -, h⟩ := exists_of_bind_eq_ok h
  obtain ⟨_, -, h⟩ := exists_of_bind_eq_ok h
  obtain ⟨_, -, h⟩ := exists_of_bind_eq_ok h
  obtain ⟨_, -, h⟩ := exists_of_bind_eq_ok h
  obtain ⟨_, -, h⟩ := exists_of_bind_eq_ok h
  obtain ⟨_, -, h⟩ := exists_of_bind_eq_ok h
  obtain ⟨_, -, h⟩ := exists_of_bind_eq_ok h
  obtain ⟨_, -, h⟩ := exists_of_bind_eq_ok h
  have hraw : quote.raw = v := by
    cases h
    rfl
  rw [hraw]
  cases body with
  | error e => cases hread
  | ok w =>
      cases hread
      rfl

section Requested

variable {crates : Crates} {ex : LiveExecutor} {o : Order} {new later : List Exchange}
  {staged : Live.Staged}

/-- Nothing late tells the decimals. -/
theorem Asks.of_late (hlater : ∀ x ∈ later, x.kind ∈ Live.lateKinds) :
    ∀ {o : Order} {amount : UInt64}, Asks crates ex (new ++ later) o amount →
      Asks crates ex new o amount
  | .buy _, _, h => h
  | .sell _, _, ⟨url, body, decimals, hmem, h⟩ => by
      rcases List.mem_append.mp hmem with hnew | hlate
      · exact ⟨url, body, decimals, hnew, h⟩
      · have hkind : RequestKind.supply ∈ Live.lateKinds := hlater _ hlate
        exact absurd hkind (by decide)

theorem ne_quote_of_late {x : Exchange} (h : x.kind ∈ Live.lateKinds) :
    x.kind ≠ .quote ∧ x.kind ≠ .swap := by
  constructor
  · intro hkind
    rw [hkind] at h
    exact absurd h (by decide)
  · intro hkind
    rw [hkind] at h
    exact absurd h (by decide)

/-- The one swap of a submitted order is assembled from the one quote, which was asked for
the amount of the order. -/
theorem Requested.swap (h : Requested crates ex o new staged)
    (hlater : ∀ x ∈ later, x.kind ∈ Live.lateKinds) :
    ∃ amount, Asks crates ex (new ++ later) o amount ∧
      (∀ other, Asks crates ex (new ++ later) o other → other = amount) ∧
      (∀ x ∈ new ++ later, ∀ raw user fee, x.request = .swap raw user fee →
        parseQuoteResponse crates (.ok raw) = .ok staged.quote) ∧
      (∃ x ∈ new ++ later, ∃ user fee, x.request = .swap staged.quote.raw user fee) ∧
      ((∀ x ∈ new ++ later, x.echoes crates = true) ↔ staged.quote.inAmountRaw = amount) := by
  obtain ⟨before, amount, bps, quoteBody, between, swapBody, rfl, hsupply, hparse, hasks, honly, -⟩ := h
  -- everything but the two requests is of another kind
  have hcases : ∀ x ∈ (before ++ ⟨.quote o.pair.1 o.pair.2 amount bps, .ok quoteBody⟩ ::
      (between ++ [⟨.swap staged.quote.raw ex.operatorPubkey (ex.jito.tipFor o.tier),
        .ok swapBody⟩])) ++ later,
      x = ⟨.quote o.pair.1 o.pair.2 amount bps, .ok quoteBody⟩ ∨
        x = ⟨.swap staged.quote.raw ex.operatorPubkey (ex.jito.tipFor o.tier), .ok swapBody⟩ ∨
        (x.kind ≠ .quote ∧ x.kind ≠ .swap) := by
    intro x hx
    simp only [List.mem_append, List.mem_cons, List.not_mem_nil, or_false] at hx
    rcases hx with (hmem | rfl | hmem | rfl) | hmem
    · have hkind := hsupply x (List.mem_append_left _ hmem)
      exact Or.inr (Or.inr (by rw [hkind]; decide))
    · exact Or.inl rfl
    · have hkind := hsupply x (List.mem_append_right _ hmem)
      exact Or.inr (Or.inr (by rw [hkind]; decide))
    · exact Or.inr (Or.inl rfl)
    · exact Or.inr (Or.inr (ne_quote_of_late (hlater x hmem)))
  refine ⟨amount, hasks.mono (List.subset_append_left _ _),
    fun other hother => honly other (hother.of_late hlater), ?_, ?_, ?_⟩
  · intro x hx raw user fee hrequest
    rcases hcases x hx with rfl | rfl | ⟨-, hkind⟩
    · cases hrequest
    · cases hrequest
      rw [← body_of_parseQuote hparse]
      exact hparse
    · exact absurd (kind_of_swap hrequest) hkind
  · refine ⟨⟨.swap staged.quote.raw ex.operatorPubkey (ex.jito.tipFor o.tier), .ok swapBody⟩,
      List.mem_append_left _ (List.mem_append_right _ (List.mem_cons_of_mem _ ?_)), _, _, rfl⟩
    exact List.mem_append_right _ (List.mem_singleton_self _)
  · constructor
    · intro h
      exact (echoes_quote hparse).mp
        (h _ (List.mem_append_left _ (List.mem_append_right _ List.mem_cons_self)))
    · intro heq x hx
      rcases hcases x hx with rfl | rfl | ⟨hkind, -⟩
      · exact (echoes_quote hparse).mpr heq
      · rfl
      · exact echoes_of_kind hkind

end Requested

namespace Live

variable {ω : Type} {crates : Crates} {up : Upstream ω}

/-- A fill books what the order asked for. -/
theorem books_of_place {o : Order} {s s' : Live ω} {fill : Fill}
    (h : (place crates up o).exec s = (.ok fill, s')) : Books o fill := by
  rw [place_stages] at h
  obtain ⟨staged, m, -, h⟩ := exec_bind_eq_ok h
  obtain ⟨signatures, m', -, h⟩ := exec_bind_eq_ok h
  cases o with
  | buy req => exact (settleBuy_amounts h).2.2.2.1
  | sell req => exact (settleSell_amounts h).1

/-- What the amount of an order is rounded to does not exceed what it was rounded from. -/
def AsksWithin (crates : Crates) (ex : LiveExecutor) : Order → Prop
  | .buy req => FloorsDown crates.decimals req.budgetUsd ex.solUsd
  | .sell _ => True

/-- A buy that asks for an amount asks for no more than its budget if no rounding carries it
up. -/
theorem asksWithin_iff {ex : LiveExecutor} {log : List Exchange} {o : Order} {amount : UInt64}
    (hasks : Asks crates ex log o amount)
    (honly : ∀ other, Asks crates ex log o other → other = amount) :
    (∀ req other, o = .buy req → Asks crates ex log o other →
        lamportsToUsd other ex.solUsd ≤ req.budgetUsd) ↔ AsksWithin crates ex o := by
  cases o with
  | buy req =>
      constructor
      · intro hworth
        exact (worth_iff hasks).mp (hworth req amount rfl hasks)
      · rintro hdown req' other ⟨⟩ hother
        rw [honly other hother]
        exact (worth_iff hasks).mpr hdown
  | sell req => exact iff_of_true (fun req' other ho => by cases ho) trivial

/-- In a submitted order the swap is for the amount asked exactly if the quote echoes it and
the amount is within the budget. -/
theorem swapsAsAsked_iff_echoes (o : Order) (s : Live ω)
    (hsub : Submitted (traced crates up o s).2) :
    SwapsAsAsked crates s.ex o (traced crates up o s).2 (traced crates up o s).1 ↔
      (∀ x ∈ (traced crates up o s).2, x.echoes crates = true) ∧ AsksWithin crates s.ex o := by
  obtain ⟨staged, new, later, hlog, hrequested, hlate⟩ := placed_requested o s hsub
  have hbooked : ∀ fill, (traced crates up o s).1 = .ok fill → Books o fill := fun fill hfill =>
    books_of_place (Prod.ext hfill rfl : (place crates up.recorded o).exec (record s) = (.ok fill, _))
  obtain ⟨amount, hasks, honly, hswaps, ⟨x, hx, user, fee, hswap⟩, hechoes⟩ :=
    hrequested.swap hlate
  rw [hlog, hechoes, ← asksWithin_iff hasks honly]
  constructor
  · intro h
    obtain ⟨quote, asked, hparse, hasked, heq⟩ := h.amount x hx _ _ _ hswap
    have hquote : quote = staged.quote :=
      Except.ok.inj (hparse.symm.trans (hswaps x hx _ _ _ hswap))
    refine ⟨?_, h.worth⟩
    rw [← hquote, heq]
    exact honly asked hasked
  · rintro ⟨heq, hworth⟩
    refine ⟨fun y hy raw user fee hrequest => ?_, hworth, hbooked⟩
    exact ⟨staged.quote, amount, hswaps y hy raw user fee hrequest, hasks, heq⟩

theorem not_swapsAsAsked (o : Order) (s : Live ω)
    (h : Submitted (traced crates up o s).2 ∧
      ¬ ∀ x ∈ (traced crates up o s).2, x.echoes crates = true) :
    Submitted (traced crates up o s).2 ∧
      ¬ SwapsAsAsked crates s.ex o (traced crates up o s).2 (traced crates up o s).1 :=
  ⟨h.1, fun has => h.2 ((swapsAsAsked_iff_echoes o s h.1).mp has).1⟩

/-- A submitted order has swapped the amount it asked for, within its budget, exactly if the
quote echoed the amount of its request and no rounding carried the lamports of a buy above
the budget. -/
theorem swapsAsAsked_iff (o : Order) (s : Live ω) (hsub : Submitted (traced crates up o s).2) :
    SwapsAsAsked crates s.ex o (traced crates up o s).2 (traced crates up o s).1 ↔
      (∀ x ∈ (traced crates up o s).2, x.echoes crates = true) ∧ AsksWithin crates s.ex o :=
  swapsAsAsked_iff_echoes o s hsub

/-- The buy of the tests is quoted for the one SOL it asks for. -/
theorem swapsAsAsked_mock :
    ∃ ex, Mock.executor = .ok ex ∧
      SwapsAsAsked Mock.crates ex (.buy Mock.buyOrder)
        (traced Mock.crates (Mock.upstream Mock.landed Mock.fiveTokens) (.buy Mock.buyOrder)
          { ex := ex, clock := 0, outside := () }).2
        (traced Mock.crates (Mock.upstream Mock.landed Mock.fiveTokens) (.buy Mock.buyOrder)
          { ex := ex, clock := 0, outside := () }).1 := by
  refine ⟨_, rfl, ?_⟩
  have hdown : FloorsDown Mock.crates.decimals Mock.buyOrder.budgetUsd 100 := by
    unfold FloorsDown
    decide +kernel
  exact And.elim
    (fun hsub hechoes =>
      (swapsAsAsked_iff (.buy Mock.buyOrder) ⟨_, 0, ()⟩ hsub).mpr ⟨hechoes, hdown⟩)
    (by decide +kernel)

/-- The upstream of the tests, but the quote is for ten times the amount asked. -/
def tenfold : Upstream Unit where
  answer req w :=
    match req with
    | .quote _ _ _ _ =>
        ({ response := .ok (.ok (.object [("inputMint", .string solMint),
            ("inAmount", .string "10000000000"), ("outputMint", .string Mock.mint),
            ("outAmount", .string "5000000"), ("otherAmountThreshold", .string "4950000"),
            ("swapMode", .string "ExactIn"), ("slippageBps", Mock.num 1000),
            ("priceImpactPct", .string "0.5")])), elapsed := 0 }, w)
    | _ => (Mock.upstream Mock.landed Mock.fiveTokens).answer req w
  utcNow _ := 0

/-- A buy for a hundred dollars submits a swap of a thousand dollars' worth of SOL. -/
theorem tenfold_submitted :
    ∃ ex, Mock.executor = .ok ex ∧
      Submitted (traced Mock.crates tenfold (.buy Mock.buyOrder)
        { ex := ex, clock := 0, outside := () }).2 ∧
      ¬ SwapsAsAsked Mock.crates ex (.buy Mock.buyOrder)
        (traced Mock.crates tenfold (.buy Mock.buyOrder) { ex := ex, clock := 0, outside := () }).2
        (traced Mock.crates tenfold (.buy Mock.buyOrder)
          { ex := ex, clock := 0, outside := () }).1 := by
  refine ⟨_, rfl, ?_⟩
  exact not_swapsAsAsked (.buy Mock.buyOrder) ⟨_, 0, ()⟩ (by decide +kernel)

end Live

end HfmcBot
