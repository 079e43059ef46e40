import HfmcBot.Foundation.Rotation
import HfmcBot.Live.Checks

/-!
# Which account gets the tip

An order takes two numbers from the request counter, one for the account of its tip and one
for the submission of its bundle.  The accounts of consecutive tips are therefore two apart.

* `scheduled_turn`: a submitted tip goes to the account in turn, and the counter advances by
  two;
* `tips_picked`: the accounts of the tips of a run;
* `tips_shared`: the shares are equal exactly for an odd number of accounts, or as long as
  there are no more than half as many bundles as accounts.
-/

namespace HfmcBot

open Foundation Foundation.Attempt

/-- The block engine answered a submission with the id of the bundle. -/
def Exchange.accepted (x : Exchange) : Bool :=
  match x.request, x.response with
  | .sendBundle _ _, .ok (.ok resp) => ((resp.get "result").bind Json.asStr).isSome
  | _, _ => false

namespace Live

variable {ω : Type} {crates : Crates} {up : Upstream ω}

/-- What decides whose turn it is. -/
def turn (s : Live ω) : JitoClient × UInt64 := (s.ex.jito, s.ex.reqId)

theorem blind_turn : Blind (turn : Live ω → JitoClient × UInt64) := fun _ _ _ _ _ _ => rfl

/-! ## One order -/

section Order

variable (crates up)

/-- A priced tip takes one number. -/
theorem turn_buildTip (keypair : Keypair) (blockhash : String) {tier : TipTier} (s : Live ω)
    (hprice : s.ex.jito.tipFor tier ≠ 0) :
    turn ((buildTip crates keypair blockhash tier).exec s).2 =
      (s.ex.jito, s.ex.reqId + 1) := by
  have hid : (nextId : LiveM ω UInt64).exec s =
      (.ok s.ex.reqId, { s with ex := { s.ex with reqId := s.ex.reqId + 1 } }) := rfl
  rw [buildTip, exec_get_bind]
  dsimp only
  rw [if_neg hprice, exec_bind_ok hid]
  -- past the counter everything is a check
  apply keeps_get_bind
  intro m
  refine (keeps_ofExcept _).bind fun accounts => (keeps_ofExcept _).bind fun dest => ?_
  exact (keeps_ofExcept _).bind fun tip => keeps_pure _

variable {crates up}

/-- Signing takes a number for the tip. -/
theorem turn_signBundle {swapTx : SwapTx} {tier : TipTier} {s s' : Live ω} {txs : List SignedTx}
    (h : (signBundle crates up swapTx tier).exec s = (.ok txs, s'))
    (hprice : s.ex.jito.tipFor tier ≠ 0) : turn s' = (s.ex.jito, s.ex.reqId + 1) := by
  rw [signBundle, exec_get_bind] at h
  obtain ⟨keypair, -, h⟩ := exec_ofExcept_bind_eq_ok h
  obtain ⟨⟨blockhash, height⟩, m, hhash, h⟩ := exec_bind_eq_ok h
  obtain ⟨swap, -, h⟩ := exec_ofExcept_bind_eq_ok h
  obtain ⟨tip, m', htip, h⟩ := exec_bind_eq_ok h
  cases h
  have hsame : turn m = turn s := by
    have hkeep := blind_turn.freshBlockhash crates up s
    rw [hhash] at hkeep
    exact hkeep
  obtain ⟨hjito, hid⟩ := Prod.mk.inj hsame
  rw [← hjito] at hprice
  have hbuilt := turn_buildTip crates keypair blockhash m hprice
  rw [htip, hjito, hid] at hbuilt
  exact hbuilt

/-- Submitting takes a number for the bundle, however it goes on. -/
theorem turn_submit (o : Order) (staged : Staged) (txs : List SignedTx) (s : Live ω) :
    turn ((submitBundle crates up txs >>= fun _ => settle crates up o staged).exec s).2 =
      (s.ex.jito, s.ex.reqId + 1) := by
  have hid : (nextId : LiveM ω UInt64).exec s =
      (.ok s.ex.reqId, { s with ex := { s.ex with reqId := s.ex.reqId + 1 } }) := rfl
  have hfollow : ∀ id, Keeps turn (do
      let uuid ← sendBundle crates up id txs
      pollBundleLanding crates up uuid (← get).ex.bundleTimeoutSecs) := fun id =>
    (blind_turn.sendBundle crates up id txs).bind fun uuid =>
      keeps_get_bind fun _ => blind_turn.pollBundleLanding crates up uuid _
  rw [submitBundle, bind_assoc, exec_bind_ok hid]
  exact (hfollow _).bind (fun _ => blind_turn.settle crates up o staged) _

theorem bidAt_eq_some {s : Live ω} {tier : TipTier} {bid : Bid}
    (h : bidAt crates up s tier = some bid) :
    accountInTurn crates s = some bid.account ∧ bid.lamports = s.ex.jito.tipFor tier := by
  simp only [bidAt, Option.bind_eq_bind, Option.bind_eq_some_iff] at h
  obtain ⟨keypair, -, blockhash, -, account, hturn, hbid⟩ := h
  cases hbid
  exact ⟨hturn, rfl⟩

theorem accountInTurn_congr {s s' : Live ω} (h : turn s' = turn s) :
    accountInTurn crates s' = accountInTurn crates s := by
  obtain ⟨hjito, hid⟩ := Prod.mk.inj h
  rw [accountInTurn, accountInTurn, hjito, hid]

/-- An order that submits a tip submits it to the account in turn, and takes two numbers. -/
theorem place_turn {o : Order} {s : Live ω} {t : TipTransfer}
    (h : orderTip crates up o s = some t) :
    accountInTurn crates s = some t.account ∧
      turn ((place crates up o).exec s).2 = (s.ex.jito, s.ex.reqId + 2) := by
  unfold orderTip at h
  rcases hstage : (stage crates up o).exec s with ⟨e | staged, m⟩
  · rw [hstage] at h
    cases h
  · rw [hstage] at h
    dsimp only at h
    have hstaged : turn m = turn s := by
      have hkeep := blind_turn.stage crates up o s
      rw [hstage] at hkeep
      exact hkeep
    obtain ⟨hjito, hid⟩ := Prod.mk.inj hstaged
    cases hsim : m.ex.simulateOnly with
    | true =>
        rw [hsim] at h
        cases h
    | false =>
        rw [hsim] at h
        obtain ⟨bid, hbid, ⟨-, tx, hbuild⟩, -, haccount, -, -⟩ := (mem_nextTip_iff crates up).mp h
        obtain ⟨hturn, hlamports⟩ := bidAt_eq_some hbid
        rw [← haccount] at hturn
        have hcarries := signBundle_carries crates up staged.swapTx staged.tier m
        rcases hsign : (signBundle crates up staged.swapTx staged.tier).exec m with ⟨e | txs, m'⟩
        · rw [hsign] at hcarries
          have hnone : nextTip crates up m staged.swapTx staged.tier = none := hcarries
          rw [hnone] at h
          cases h
        · -- a tip at price zero would not have been built
          have hprice : m.ex.jito.tipFor staged.tier ≠ 0 := by
            intro hzero
            rw [hlamports, hzero] at hbuild
            cases hbuild
          have hsigned := turn_signBundle hsign hprice
          have hlive : m'.ex.simulateOnly = false := by
            have hkeep := keeps_signBundle crates up staged.swapTx staged.tier m
            rw [hsign] at hkeep
            exact hkeep.trans hsim
          refine ⟨(accountInTurn_congr hstaged).symm.trans hturn, ?_⟩
          rw [place_stages, exec_bind_ok hstage, signAndMaybeSend, bind_assoc,
            exec_bind_ok hsign, bind_assoc, exec_get_bind, hlive]
          refine (turn_submit o staged txs m').trans ?_
          obtain ⟨hjito', hid'⟩ := Prod.mk.inj hsigned
          rw [hjito', hid', hjito, hid, UInt64.add_assoc]
          rfl

end Order

/-! ## Runs -/

variable (crates up) in
/-- The order gets a bundle with a tip accepted. -/
def GetsAccepted (s : Live (ω × List Exchange)) (d : Nat × Order) : Prop :=
  ∃ x ∈ (exchanges (scheduled crates up.recorded s d)).drop (exchanges s).length,
    x.tips ≠ [] ∧ x.accepted = true

/-- An accepted bundle adds the tip to the account in turn, and moves the turn by two. -/
theorem scheduled_turn {s : Live (ω × List Exchange)} {d : Nat × Order}
    (h : GetsAccepted crates up s d) :
    ∃ t, tips (exchanges (scheduled crates up.recorded s d)) = tips (exchanges s) ++ [t] ∧
      accountInTurn crates s = some t.account ∧
      turn (scheduled crates up.recorded s d) = (s.ex.jito, s.ex.reqId + 2) := by
  obtain ⟨x, hx, htips, -⟩ := h
  obtain ⟨new, hlog, -⟩ := place_ended crates up d.2 (s.sleep d.1)
  have hplaced := tips_place crates up d.2 (s.sleep d.1)
  have hlog' : exchanges (scheduled crates up.recorded s d) = exchanges s ++ new := hlog
  rw [hlog', List.drop_left] at hx
  cases htip : orderTip crates up.recorded d.2 (s.sleep d.1) with
  | none =>
      -- without a tip nothing in the log of the order has one
      rw [htip, Option.toList_none, List.append_nil, hlog, tips_append] at hplaced
      have hnone : tips new = [] := List.append_right_eq_self.mp hplaced
      exact absurd (List.flatMap_eq_nil_iff.mp hnone x hx) htips
  | some t =>
      rw [htip] at hplaced
      obtain ⟨haccount, hturn⟩ := place_turn htip
      exact ⟨t, hplaced, haccount, hturn⟩

/-- Whose turn it is, by the counter. -/
theorem accountInTurn_eq {s : Live ω} {accounts : List Pubkey}
    (h : s.ex.jito.tipAccounts.mapM (parseTipAccount crates) = .ok accounts) :
    accountInTurn crates s = accounts[s.ex.reqId.toNat % accounts.length]? := by
  rw [accountInTurn, h]
  rfl

/-- The accounts of the tips that a run adds, while the counter does not wrap around. -/
theorem tips_picked {accounts : List Pubkey} (orders : List (Nat × Order)) :
    ∀ s : Live (ω × List Exchange),
      s.ex.jito.tipAccounts.mapM (parseTipAccount crates) = .ok accounts →
      s.ex.reqId.toNat + 2 * orders.length ≤ 2 ^ 64 →
      Along (scheduled crates up.recorded) (GetsAccepted crates up) s orders →
      ∃ new, tips (exchanges (orders.foldl (scheduled crates up.recorded) s)) =
          tips (exchanges s) ++ new ∧
        (new.map fun t => some t.account) =
          picks accounts s.ex.reqId.toNat 2 orders.length := by
  induction orders with
  | nil => exact fun s _ _ _ => ⟨[], (List.append_nil _).symm, rfl⟩
  | cons d rest ih =>
      rintro s haccounts hroom ⟨hfirst, hrest⟩
      obtain ⟨t, htips, haccount, hturn⟩ := scheduled_turn hfirst
      obtain ⟨hjito, hid⟩ := Prod.mk.inj hturn
      rw [List.length_cons] at hroom ⊢
      rw [List.foldl_cons]
      rcases rest with _ | ⟨d', rest⟩
      · refine ⟨[t], htips, ?_⟩
        rw [accountInTurn_eq haccounts] at haccount
        simp [picks, haccount]
      · have hcounter : (scheduled crates up.recorded s d).ex.reqId.toNat =
            s.ex.reqId.toNat + 2 := by
          rw [hid, UInt64.toNat_add]
          simp only [List.length_cons] at hroom
          exact Nat.mod_eq_of_lt (by show s.ex.reqId.toNat + 2 < 2 ^ 64; omega)
        obtain ⟨new, hnew, hpicks⟩ := ih (scheduled crates up.recorded s d)
          (by rw [hjito]; exact haccounts) (by rw [hcounter]; omega) hrest
        refine ⟨t :: new, ?_, ?_⟩
        · rw [hnew, htips, List.append_assoc, List.singleton_append]
        · rw [List.map_cons, hpicks, ← haccount, accountInTurn_eq haccounts, hcounter, picks,
            picks, List.range_succ_eq_map, List.map_cons, List.map_map, Nat.mul_zero, Nat.add_zero]
          congr 1
          refine List.map_congr_left fun j _ => ?_
          simp only [Function.comp_apply]
          congr 2
          omega

/-- The tips that went to an account. -/
def tipsTo (log : List Exchange) (account : Pubkey) : Nat :=
  ((tips log).map TipTransfer.account).count account

theorem tipsTo_eq_picks {log : List Exchange} {accounts : List Pubkey} {c k : Nat}
    (h : ((tips log).map fun t => some t.account) = picks accounts c 2 k) (account : Pubkey) :
    tipsTo log account = (picks accounts c 2 k).count (some account) := by
  rw [← h, tipsTo, ← List.count_map_of_injective _ _ (Option.some_injective _), List.map_map]
  rfl

/-- A step of two turns evenly exactly on an odd cycle, or for half a cycle. -/
theorem evenly_by_two {m c k : Nat} (hm : 0 < m) :
    Evenly m k (hits m c 2 k) ↔ m % 2 = 1 ∨ 2 * k ≤ m := by
  rw [evenly_iff hm]
  rcases Nat.mod_two_eq_zero_or_one m with heven | hodd
  · have hgcd : Nat.gcd m 2 = 2 := Nat.gcd_eq_right (Nat.dvd_of_mod_eq_zero heven)
    rw [hgcd]
    omega
  · have hgcd : Nat.gcd m 2 = 1 := by
      rw [Nat.gcd_comm, Nat.gcd_rec, hodd, Nat.gcd_one_left]
    simp [hgcd, hodd]

instance (s : Live (ω × List Exchange)) (d : Nat × Order) :
    Decidable (GetsAccepted crates up s d) := by
  unfold GetsAccepted
  infer_instance

/-- An upstream that accepts and lands everything, and a library that takes every text for a
key. -/
def landing : Upstream Unit := Mock.upstream Mock.landed Mock.fiveTokens

def anyKey : Crates := { Mock.crates with parsePubkey := some }

/-- A buy every two seconds. -/
def buyEvery2s (k : Nat) : List (Nat × Order) :=
  List.replicate k (2000000000, .buy Mock.buyOrder)

/-- A run of buys under a configuration with these tip accounts. -/
def tipsOfBuys (ex : LiveExecutor) (k : Nat) : List Exchange :=
  exchanges ((buyEvery2s k).foldl (scheduled anyKey landing.recorded)
    (record { ex := ex, clock := 0, outside := () }))

end Live

end HfmcBot
