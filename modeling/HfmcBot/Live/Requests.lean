import HfmcBot.Live.Checks
import HfmcBot.Live.Failover
import HfmcBot.Live.Settlement

/-!
# The requests of an order

An order that is staged has made one quote request and one swap request, in this order, and
besides them only asked for the decimals of its mint.  Nothing after the staging asks for a
quote or a swap again.

* `Asks`: the amount an order requests;
* `worth_iff`: when the amount of a buy is worth no more than its budget;
* `stage_requested`: the requests of the staging;
* `placed_requested`: the same for the whole exchange of a submitted order.
-/

namespace HfmcBot

open Foundation Foundation.Attempt

/-- The amount that an order asks a quote for: a buy what its budget converts to, a sell what
its quantity converts to at the decimals that were read. -/
def Asks (crates : Crates) (ex : LiveExecutor) (log : List Exchange) : Order → UInt64 → Prop
  | .buy req, amount =>
      usdToLamportsFloor crates.decimals req.budgetUsd ex.solUsd = .ok amount
  | .sell req, amount => ∃ url body decimals,
      ⟨.rpc url (.getTokenSupply req.mint), .ok body⟩ ∈ log ∧
        parseTokenSupplyDecimals body = .ok decimals ∧
        decimalToRawFloor req.qty decimals = .ok amount ∧
        (amount.toNat : Decimal) ≤ req.qty * 10 ^ decimals.toNat

theorem Asks.mono {crates : Crates} {ex : LiveExecutor} {before log : List Exchange}
    (hsub : before ⊆ log) :
    ∀ {o : Order} {amount : UInt64}, Asks crates ex before o amount → Asks crates ex log o amount
  | .buy _, _, h => h
  | .sell _, _, ⟨url, body, decimals, hmem, h⟩ => ⟨url, body, decimals, hsub hmem, h⟩

/-- The requests of a staged order.  What was asked leaves no choice of the amount. -/
def Requested (crates : Crates) (ex : LiveExecutor) (o : Order) (new : List Exchange)
    (staged : Live.Staged) : Prop :=
  ∃ before amount bps quoteBody between swapBody,
    new = before ++ ⟨.quote o.pair.1 o.pair.2 amount bps, .ok quoteBody⟩ :: (between ++
      [⟨.swap staged.quote.raw ex.operatorPubkey (ex.jito.tipFor o.tier), .ok swapBody⟩]) ∧
    (∀ x ∈ before ++ between, x.kind = .supply) ∧
    parseQuoteResponse crates quoteBody = .ok staged.quote ∧ Asks crates ex new o amount ∧
    (∀ other, Asks crates ex new o other → other = amount) ∧ staged.tier = o.tier

/-- A floor that fits is the number of units it says. -/
theorem floorU64_toNat {x : Decimal} {v : UInt64} (h : floorU64 x = some v) :
    (v.toNat : Int) = ⌊x⌋ := by
  unfold floorU64 at h
  split at h
  · rename_i hrange
    cases h
    have hnat : (UInt64.ofNat ⌊x⌋.toNat).toNat = ⌊x⌋.toNat :=
      UInt64.toNat_ofNat_of_lt' (by show ⌊x⌋.toNat < 2 ^ 64; omega)
    rw [hnat, Int.toNat_of_nonneg hrange.1]
  · cases h

theorem floorU64_le {x : Decimal} {v : UInt64} (h : floorU64 x = some v) :
    (v.toNat : Decimal) ≤ x := by
  have hfloor : ((v.toNat : Int) : Decimal) ≤ x := by
    rw [floorU64_toNat h]
    exact Int.floor_le x
  exact_mod_cast hfloor

/-- The rounding of the operators does not carry the lamports of a budget up to the next
whole one. -/
def FloorsDown (fmt : NumberFormat) (budgetUsd solUsd : Decimal) : Prop :=
  ⌊fmt.round (fmt.round (budgetUsd / solUsd) * lamportsPerSol)⌋ ≤
    ⌊budgetUsd / solUsd * lamportsPerSol⌋

/-- The lamports of a budget are the floor of the rounded product. -/
theorem usdToLamportsFloor_toNat {fmt : NumberFormat} {budgetUsd solUsd : Decimal}
    {lamports : UInt64} (h : usdToLamportsFloor fmt budgetUsd solUsd = .ok lamports) :
    0 < solUsd ∧ (lamports.toNat : Int) =
      ⌊fmt.round (fmt.round (budgetUsd / solUsd) * lamportsPerSol)⌋ := by
  obtain ⟨_, hsol, h⟩ := exists_of_bind_eq_ok h
  obtain ⟨_, -, h⟩ := exists_of_bind_eq_ok h
  obtain ⟨sol, hquotient, h⟩ := exists_of_bind_eq_ok h
  obtain ⟨product, hproduct, h⟩ := exists_of_bind_eq_ok h
  obtain ⟨v, hfloor, h⟩ := exists_of_bind_eq_ok h
  obtain ⟨_, -, h⟩ := exists_of_bind_eq_ok h
  cases h
  have hpos : 0 < solUsd := not_le.mp (Live.haltIf_eq_ok hsol)
  rw [NumberFormat.div_of_ne hpos.ne'] at hquotient
  obtain ⟨-, rfl⟩ := orStop_fit_ok_iff.mp hquotient
  obtain ⟨-, rfl⟩ := orStop_fit_ok_iff.mp hproduct
  exact ⟨hpos, floorU64_toNat (eq_some_of_orReject hfloor)⟩

/-- The lamports of a budget are worth no more than it exactly if no rounding carried them
up. -/
theorem worth_iff {fmt : NumberFormat} {budgetUsd solUsd : Decimal} {lamports : UInt64}
    (h : usdToLamportsFloor fmt budgetUsd solUsd = .ok lamports) :
    lamportsToUsd lamports solUsd ≤ budgetUsd ↔ FloorsDown fmt budgetUsd solUsd := by
  obtain ⟨hpos, hlamports⟩ := usdToLamportsFloor_toNat h
  have hscale : (0 : Decimal) < lamportsPerSol := by norm_num [lamportsPerSol]
  have hcast : ((lamports.toNat : Int) : Decimal) = lamports.toNat := by norm_cast
  rw [FloorsDown, ← hlamports, Int.le_floor, hcast, lamportsToUsd, ← le_div_iff₀ hpos,
    div_le_iff₀ hscale]

/-- A budget of just under three dollars, at three dollars per SOL: the quotient rounds to
one SOL. -/
theorem budget_rounds_up :
    usdToLamportsFloor Mock.crates.decimals (3 - 1 / 10 ^ 28) 3 = .ok 1000000000 ∧
      ¬ FloorsDown Mock.crates.decimals (3 - 1 / 10 ^ 28) 3 := by
  have hconverts : usdToLamportsFloor Mock.crates.decimals (3 - 1 / 10 ^ 28) 3 =
      .ok 1000000000 := by decide +kernel
  refine ⟨hconverts, fun hdown => ?_⟩
  have hworth := (worth_iff hconverts).mpr hdown
  exact absurd hworth (by decide +kernel)

/-- The raw units of a quantity are no more than it. -/
theorem decimalToRawFloor_le {qty : Decimal} {decimals : UInt8} {raw : UInt64}
    (h : decimalToRawFloor qty decimals = .ok raw) :
    (raw.toNat : Decimal) ≤ qty * 10 ^ decimals.toNat := by
  obtain ⟨_, -, h⟩ := exists_of_bind_eq_ok h
  obtain ⟨scale, hscale, h⟩ := exists_of_bind_eq_ok h
  obtain ⟨_, -, h⟩ := exists_of_bind_eq_ok h
  obtain ⟨v, hfloor, h⟩ := exists_of_bind_eq_ok h
  obtain ⟨_, -, h⟩ := exists_of_bind_eq_ok h
  cases h
  have hle := floorU64_le (eq_some_of_orReject hfloor)
  unfold pow10 at hscale
  split at hscale
  · cases hscale
    push_cast at hle
    exact hle
  · cases hscale

namespace Live

variable {ω : Type} {crates : Crates} {up : Upstream ω}

/-- A failover call that gets through has the body it answers with from its last attempt. -/
theorem rpcCall_eq_ok {method : RpcMethod} {s s' : Live (ω × List Exchange)} {body : Body}
    (h : (rpcCall up.recorded method).exec s = (.ok body, s')) :
    ∃ failed url, exchanges s' = exchanges s ++ (failed ++ [⟨.rpc url method, .ok body⟩]) ∧
      ∀ x ∈ failed, x.kind = method.kind ∧ x.Failed := by
  rw [rpcCall, exec_get_bind] at h
  obtain ⟨new, out, hlog, hattempts, hends⟩ :=
    rpcTry_attempted up method _ (⟨_, rfl⟩ : ∃ msg, Halt.transport
      ["rpc: no endpoints configured"] = .transport msg) s
  rw [h] at hlog hends
  have hrequests : ∀ x ∈ new, ∃ url, x.request = .rpc url method := by
    intro x hx
    have hmem : x.request ∈ new.map Exchange.request := List.mem_map_of_mem hx
    rw [hattempts.requests] at hmem
    obtain ⟨i, -, hi⟩ := List.mem_map.mp hmem
    exact ⟨_, hi.symm⟩
  cases out with
  | none =>
      obtain ⟨⟨msg, hr⟩, -⟩ := hends
      cases hr
  | some answer =>
      obtain ⟨i, body'⟩ := answer
      obtain ⟨hr, -⟩ := hends
      cases hr
      obtain ⟨⟨failed, last, rfl, hlast, hfailed⟩, -⟩ := hattempts.of_some
      obtain ⟨url, hurl⟩ := hrequests last (List.mem_append_right _ (List.mem_singleton_self _))
      refine ⟨failed, url, ?_, fun x hx => ⟨?_, hfailed x hx⟩⟩
      · rw [← hurl, ← hlast]
        exact hlog
      · obtain ⟨url', hurl'⟩ := hrequests x (List.mem_append_left _ hx)
        rw [Exchange.kind, hurl']
        rfl

theorem fetchTokenDecimals_eq_ok {mint : Mint} {s s' : Live (ω × List Exchange)}
    {decimals : UInt8}
    (h : (fetchTokenDecimals up.recorded mint).exec s = (.ok decimals, s')) :
    ∃ failed url body,
      exchanges s' =
        exchanges s ++ (failed ++ [⟨.rpc url (.getTokenSupply mint), .ok body⟩]) ∧
      (∀ x ∈ failed, x.kind = .supply ∧ x.Failed) ∧
      parseTokenSupplyDecimals body = .ok decimals := by
  obtain ⟨body, m, hcall, h⟩ := exec_bind_eq_ok h
  obtain ⟨hparse, rfl⟩ := exec_ofExcept_eq_ok h
  obtain ⟨failed, url, hlog, hfailed⟩ := rpcCall_eq_ok hcall
  exact ⟨failed, url, body, hlog, hfailed, hparse⟩

/-- The attempts at reading the decimals are of one kind. -/
theorem kind_of_supply {failed : List Exchange} {url : String} {mint : Mint} {body : Body}
    (hfailed : ∀ x ∈ failed, x.kind = .supply ∧ x.Failed) :
    ∀ x ∈ failed ++ [⟨.rpc url (.getTokenSupply mint), .ok body⟩], x.kind = .supply := by
  intro x hx
  rcases List.mem_append.mp hx with hmem | hmem
  · exact (hfailed x hmem).1
  · rw [List.mem_singleton.mp hmem]
    rfl

/-! ## The staging -/

theorem prepareBuy_requested {req : BuyRequest} {s s' : Live (ω × List Exchange)}
    {quote : JupiterQuote} {outDecimals : UInt8} {swapTx : SwapTx}
    (h : (prepareBuy crates up.recorded req.mint req.budgetUsd).exec s =
      (.ok (quote, outDecimals, swapTx), s')) :
    ∃ new, exchanges s' = exchanges s ++ new ∧
      Requested crates s.ex (.buy req) new
        { quote := quote, outDecimals := outDecimals, swapTx := swapTx, tier := .entry } := by
  rw [prepareBuy, exec_get_bind] at h
  obtain ⟨lamports, hlamports, h⟩ := exec_ofExcept_bind_eq_ok h
  obtain ⟨bps, -, h⟩ := exec_ofExcept_bind_eq_ok h
  obtain ⟨quote', m₁, hquote, h⟩ := exec_bind_eq_ok h
  obtain ⟨_, -, h⟩ := exec_ofExcept_bind_eq_ok h
  obtain ⟨_, -, h⟩ := exec_ofExcept_bind_eq_ok h
  obtain ⟨_, -, h⟩ := exec_ofExcept_bind_eq_ok h
  obtain ⟨decimals, m₂, hdecimals, h⟩ := exec_bind_eq_ok h
  obtain ⟨swapTx', m₃, hswap, h⟩ := exec_bind_eq_ok h
  cases h
  obtain ⟨body, hlog, hparse⟩ := jupiterQuote_eq_ok hquote
  obtain ⟨failed, url, supplyBody, hlog', hfailed, -⟩ := fetchTokenDecimals_eq_ok hdecimals
  obtain ⟨swapBody, hlog'', -⟩ := jupiterSwap_eq_ok hswap
  refine ⟨_, ?_, [], lamports, bps, body, failed ++ [⟨.rpc url (.getTokenSupply req.mint),
    .ok supplyBody⟩], swapBody, rfl, kind_of_supply hfailed, hparse, ?_, ?_, rfl⟩
  · rw [hlog'', hlog', hlog]
    simp only [List.append_assoc, List.nil_append, List.cons_append]
    rfl
  · exact hlamports
  · exact fun other hother => Except.ok.inj (hother.symm.trans hlamports)

theorem prepareSell_requested {req : SellRequest} {s s' : Live (ω × List Exchange)}
    {quote : JupiterQuote} {swapTx : SwapTx}
    (h : (prepareSell crates up.recorded req.mint req.qty req.tier).exec s =
      (.ok (quote, swapTx), s')) :
    ∃ new, exchanges s' = exchanges s ++ new ∧
      Requested crates s.ex (.sell req) new
        { quote := quote, outDecimals := 0, swapTx := swapTx, tier := req.tier } := by
  obtain ⟨inDecimals, m, hdecimals, h⟩ := exec_bind_eq_ok h
  obtain ⟨inRaw, hraw, h⟩ := exec_ofExcept_bind_eq_ok h
  rw [exec_get_bind] at h
  obtain ⟨bps, -, h⟩ := exec_ofExcept_bind_eq_ok h
  obtain ⟨quote', m₂, hquote, h⟩ := exec_bind_eq_ok h
  obtain ⟨_, -, h⟩ := exec_ofExcept_bind_eq_ok h
  obtain ⟨_, -, h⟩ := exec_ofExcept_bind_eq_ok h
  obtain ⟨_, -, h⟩ := exec_ofExcept_bind_eq_ok h
  obtain ⟨swapTx', m₃, hswap, h⟩ := exec_bind_eq_ok h
  cases h
  -- the operator and the price are read after the decimals were fetched; they are settings
  have hsame := settings_of_exec (blind_settings.fetchTokenDecimals up.recorded req.mint) hdecimals
  have hoperator : m.ex.operatorPubkey = s.ex.operatorPubkey := by
    show (settings m).operatorPubkey = (settings s).operatorPubkey
    rw [hsame]
  have hjito : m.ex.jito = s.ex.jito := by
    show (settings m).jito = (settings s).jito
    rw [hsame]
  obtain ⟨failed, url, supplyBody, hlog, hfailed, hparseSupply⟩ :=
    fetchTokenDecimals_eq_ok hdecimals
  obtain ⟨body, hlog', hparse⟩ := jupiterQuote_eq_ok hquote
  obtain ⟨swapBody, hlog'', -⟩ := jupiterSwap_eq_ok hswap
  rw [hoperator, hjito] at hlog''
  refine ⟨_, ?_, failed ++ [⟨.rpc url (.getTokenSupply req.mint), .ok supplyBody⟩], inRaw, bps,
    body, [], swapBody, rfl, ?_, hparse, ?_, ?_, rfl⟩
  · rw [hlog'', hlog', hlog]
    simp only [List.append_assoc, List.nil_append, List.cons_append]
    rfl
  · rw [List.append_nil]
    exact kind_of_supply hfailed
  · exact ⟨url, supplyBody, inDecimals, by simp, hparseSupply, hraw, decimalToRawFloor_le hraw⟩
  · -- the one attempt that was answered decides the decimals
    rintro other ⟨url', body', decimals', hmem, hparse', hraw', -⟩
    simp only [List.mem_append, List.mem_cons, List.not_mem_nil, or_false, Exchange.mk.injEq,
      Request.rpc.injEq, reduceCtorEq, false_and, List.nil_append] at hmem
    rcases hmem with hmem | ⟨-, hbody⟩
    · obtain ⟨e, he⟩ := (hfailed _ hmem).2
      cases he
    · cases hbody
      obtain rfl := Except.ok.inj (hparse'.symm.trans hparseSupply)
      exact Except.ok.inj (hraw'.symm.trans hraw)

theorem stage_requested {o : Order} {s s' : Live (ω × List Exchange)} {staged : Staged}
    (h : (stage crates up.recorded o).exec s = (.ok staged, s')) :
    ∃ new, exchanges s' = exchanges s ++ new ∧ Requested crates s.ex o new staged := by
  cases o with
  | buy req =>
      rw [stage, exec_get_bind] at h
      obtain ⟨_, -, h⟩ := exec_ofExcept_bind_eq_ok h
      obtain ⟨_, -, h⟩ := exec_ofExcept_bind_eq_ok h
      obtain ⟨⟨quote, outDecimals, swapTx⟩, m, hprepare, h⟩ := exec_bind_eq_ok h
      cases h
      exact prepareBuy_requested hprepare
  | sell req =>
      rw [stage, exec_get_bind] at h
      obtain ⟨_, -, h⟩ := exec_ofExcept_bind_eq_ok h
      obtain ⟨⟨quote, swapTx⟩, m, hprepare, h⟩ := exec_bind_eq_ok h
      cases h
      exact prepareSell_requested hprepare

/-! ## After the staging -/

/-- The kinds of requests from the signing on. -/
def lateKinds : List RequestKind := [.blockhash, .bundle, .status, .balance]

section Late

variable (crates up)

theorem late_settle (o : Order) (staged : Staged) :
    Only (· ∈ lateKinds) (settle crates up.recorded o staged) := by
  apply (only_settle crates up o staged).mono
  intro k hk
  rw [hk]
  decide

theorem late_submitBundle (txs : List SignedTx) :
    Only (· ∈ lateKinds) (submitBundle crates up.recorded txs) := by
  refine only_nextId.bind fun id => Only.bind ?_ fun uuid => only_get_bind fun s => ?_
  · apply (sendBundle_log crates up id txs).mono
    rintro new r ⟨response, rfl⟩ x hx
    rw [List.mem_singleton.mp hx]
    show RequestKind.bundle ∈ lateKinds
    decide
  · apply (only_pollBundleLanding crates up uuid _).mono
    intro k hk
    rw [hk]
    decide

theorem late_signBundle (swapTx : SwapTx) (tier : TipTier) :
    Only (· ∈ lateKinds) (signBundle crates up.recorded swapTx tier) := by
  apply (only_signBundle crates up swapTx tier).mono
  intro k hk
  rw [hk]
  decide

/-- From the signing on nothing is quoted or assembled. -/
theorem only_late (o : Order) (staged : Staged) :
    Only (· ∈ lateKinds) (do
      let _ ← signAndMaybeSend crates up.recorded staged.swapTx staged.tier
      settle crates up.recorded o staged) := by
  refine Only.bind ?_ fun _ => late_settle crates up o staged
  refine (late_signBundle crates up _ _).bind fun txs => only_get_bind fun s => ?_
  split
  · exact only_pure _
  · exact late_submitBundle crates up txs

theorem only_submit_settle (o : Order) (staged : Staged) (txs : List SignedTx) :
    Only (· ∈ lateKinds) (submitBundle crates up.recorded txs >>= fun _ =>
      settle crates up.recorded o staged) :=
  (late_submitBundle crates up txs).bind fun _ => late_settle crates up o staged

end Late

/-- What a submitted order has exchanged: the requests of its staging, and nothing after them
that asks for a quote or a swap. -/
theorem placed_requested (o : Order) (s : Live ω) (hsub : Submitted (traced crates up o s).2) :
    ∃ staged new later, (traced crates up o s).2 = new ++ later ∧
      Requested crates s.ex o new staged ∧ ∀ x ∈ later, x.kind ∈ lateKinds := by
  have hlog : (traced crates up o s).2 =
      exchanges ((place crates up.recorded o).exec (record s)).2 := rfl
  rw [place_stages, exec_bind] at hlog
  rcases hstage : (stage crates up.recorded o).exec (record s) with ⟨e | staged, m⟩
  · rw [hstage] at hlog
    have hnot := unsent_of_staged crates up (s := record s) (by simp [record, exchanges, Submitted])
      hstage
    rw [hlog] at hsub
    exact absurd hsub hnot
  · rw [hstage] at hlog
    obtain ⟨new, hnew, hrequested⟩ := stage_requested hstage
    obtain ⟨later, hlater, hkinds⟩ := only_late crates up o staged m
    refine ⟨staged, new, later, ?_, hrequested, hkinds⟩
    rw [hlog, hlater, hnew]
    rfl

end Live

end HfmcBot
