import HfmcBot.Live.Frame

/-!
# What an order leaves alone

An order moves the clock, the governor, the preferred endpoint, the cached
blockhash and the request counter.  Everything else of the executor stays as it
was armed: `settings` is the executor without the five.

* `steady_place`: no order changes the settings;
* `jupiterQuote_eq_ok`, `jupiterSwap_eq_ok`: a call that gets through has left its
  exchange in the log.
-/

namespace HfmcBot

open Foundation Foundation.Attempt

namespace Live

variable {ω α β : Type}

/-- The executor as it was armed. -/
def settings (s : Live ω) : LiveExecutor :=
  { s.ex with
    bucket := ⟨0, 0, 0, 0⟩
    rpc := { s.ex.rpc with active := 0 }
    cachedBlockhash := none
    reqId := 0 }

/-- The computation does not change the settings. -/
abbrev Steady (x : LiveM ω α) : Prop := Keeps settings x

variable (crates : Crates) (up : Upstream ω)

/-- The settings leave out what the frame leaves out, and the request counter. -/
theorem blind_settings : Blind (settings : Live ω → LiveExecutor) := fun _ _ _ _ _ _ => rfl

theorem steady_nextId : Steady (nextId : LiveM ω UInt64) := fun _ => rfl

theorem steady_buildTip (signer : Keypair) (blockhash : String) (tier : TipTier) :
    Steady (buildTip crates signer blockhash tier : LiveM ω (Option SignedTx)) := by
  apply keeps_get_bind
  intro s
  dsimp only
  split
  · exact keeps_pure _
  · refine steady_nextId.bind fun n => keeps_get_bind fun s => ?_
    refine (keeps_ofExcept _).bind fun accounts => (keeps_ofExcept _).bind fun dest => ?_
    exact (keeps_ofExcept _).bind fun tip => keeps_pure _

theorem steady_signBundle (swapTx : SwapTx) (tier : TipTier) :
    Steady (signBundle crates up swapTx tier) := by
  refine keeps_get_bind fun s => (keeps_ofExcept _).bind fun signer => ?_
  apply (blind_settings.freshBlockhash crates up).bind
  intro hash
  apply (keeps_ofExcept _).bind
  intro signed
  exact (steady_buildTip crates _ _ _).bind fun tip => keeps_pure _

theorem steady_submitBundle (txs : List SignedTx) : Steady (submitBundle crates up txs) :=
  steady_nextId.bind fun id => (blind_settings.sendBundle crates up id txs).bind fun uuid =>
    keeps_get_bind fun _ => blind_settings.pollBundleLanding crates up uuid _

theorem steady_signAndMaybeSend (swapTx : SwapTx) (tier : TipTier) :
    Steady (signAndMaybeSend crates up swapTx tier) := by
  refine (steady_signBundle crates up swapTx tier).bind fun txs => keeps_get_bind fun s => ?_
  split
  · exact keeps_pure _
  · exact steady_submitBundle crates up txs

/-- No order changes the settings, however it ends. -/
theorem steady_place (o : Order) : Steady (place crates up o) := by
  rw [place_stages]
  exact (blind_settings.stage crates up o).bind fun staged =>
    (steady_signAndMaybeSend crates up _ _).bind fun _ => blind_settings.settle crates up o staged

/-! ## Calls that get through -/

section Through

variable {crates up}

/-- A state that an execution reaches has the settings it started with. -/
theorem settings_of_exec {x : LiveM ω α} (hx : Steady x) {s s' : Live ω} {r : Except Halt α}
    (h : x.exec s = (r, s')) : settings s' = settings s := by
  have hsame := hx s
  rw [h] at hsame
  exact hsame

/-- A governed call that gets through is one exchange with a readable body. -/
theorem jupiterCall_eq_ok {what skipped : String} {req : Request}
    {s s' : Live (ω × List Exchange)} {body : Body}
    (h : (jupiterCall up.recorded what skipped req).exec s = (.ok body, s')) :
    exchanges s' = exchanges s ++ [⟨req, .ok body⟩] := by
  obtain ⟨granted, m, htoken, h⟩ := exec_bind_eq_ok h
  have hquiet : exchanges m = exchanges s := by
    cases htoken
    rfl
  cases granted with
  | false => cases h
  | true =>
      obtain ⟨response, m', hcall, h⟩ := exec_bind_eq_ok h
      obtain ⟨new, hlog, response', hresponse, rfl⟩ := call_log up req m
      rw [hcall] at hlog hresponse
      cases hresponse
      cases response with
      | error e => cases h
      | ok body' =>
          cases h
          rw [← hquiet]
          exact hlog

theorem jupiterQuote_eq_ok {inputMint outputMint : String} {amountRaw slippageBps : UInt64}
    {s s' : Live (ω × List Exchange)} {quote : JupiterQuote}
    (h : (jupiterQuote crates up.recorded inputMint outputMint amountRaw slippageBps).exec s =
      (.ok quote, s')) :
    ∃ body, exchanges s' =
        exchanges s ++ [⟨.quote inputMint outputMint amountRaw slippageBps, .ok body⟩] ∧
      parseQuoteResponse crates body = .ok quote := by
  obtain ⟨body, m, hcall, h⟩ := exec_bind_eq_ok h
  obtain ⟨hparse, rfl⟩ := exec_ofExcept_eq_ok h
  exact ⟨body, jupiterCall_eq_ok hcall, hparse⟩

theorem jupiterSwap_eq_ok {quote : JupiterQuote} {userPubkey : String} {fee : UInt64}
    {s s' : Live (ω × List Exchange)} {swapTx : SwapTx}
    (h : (jupiterSwap up.recorded quote userPubkey fee).exec s = (.ok swapTx, s')) :
    ∃ body, exchanges s' = exchanges s ++ [⟨.swap quote.raw userPubkey fee, .ok body⟩] ∧
      parseSwapResponse body = .ok swapTx := by
  obtain ⟨body, m, hcall, h⟩ := exec_bind_eq_ok h
  obtain ⟨hparse, rfl⟩ := exec_ofExcept_eq_ok h
  exact ⟨body, jupiterCall_eq_ok hcall, hparse⟩

/-- A passed early return says that its condition is false. -/
theorem haltIf_eq_ok {bad : Prop} [Decidable bad] {halt : Halt} {u : Unit}
    (h : haltIf bad halt = .ok u) : ¬ bad := by
  intro hbad
  rw [haltIf, if_pos hbad] at h
  cases h

/-- The log of a state that an execution reaches extends the log before. -/
theorem mem_exchanges_of_exec {C : RequestKind → Prop} {x : LiveM (ω × List Exchange) α}
    (hx : Only C x) {s s' : Live (ω × List Exchange)} {r : Except Halt α}
    (h : x.exec s = (r, s')) {e : Exchange} (he : e ∈ exchanges s) : e ∈ exchanges s' := by
  obtain ⟨new, hlog, -⟩ := hx s
  rw [h] at hlog
  have hlog' : exchanges s' = exchanges s ++ new := hlog
  rw [hlog']
  exact List.mem_append_left _ he

end Through

end Live

end HfmcBot
