import Mathlib.Data.List.Infix
import Mathlib.Data.List.TakeWhile
import HfmcBot.Environment
import HfmcBot.Foundation.History
import HfmcBot.Live.DirectSend
import HfmcBot.Live.TipRotation

/-!
# The devnet proof

`devnet_trade`, the binary that drives the direct send end to end: airdrop, balance, blockhash,
signing, submission, confirmation.

* `Allowed`: what may be posted, after what was posted before it;
* `careful_call`, `careful_wait`, `careful_airdrop`, `careful_send`: the steps of the proof
  post nothing else;
* `devnet_only`: on every node and for every setting, all posts go to a devnet endpoint, and
  one dust transfer to itself is sent at most, after the airdrop was confirmed and read.
-/

namespace HfmcBot

open Foundation Foundation.Attempt

namespace Direct

def devnetMarker : String := "devnet"
def airdropLamports : UInt64 := 1000000000
def selfSendLamports : UInt64 := 5000
def confirmTimeoutSecs : UInt64 := 90

/-- How the proof ends early. -/
inductive DevnetStop
  | refused (rpcUrl : String)
  | exhausted (e : Halt)
  | failed (what : String) (e : Halt)
  | farBelow (before : UInt64)

def haltText : Halt → Text
  | .err e => e.text
  | .overflow => ["panic"]

/-- The text of the error; `debug` is how a text prints with its quotes. -/
def DevnetStop.text (debug : String → String) : DevnetStop → Text
  | .refused rpcUrl =>
      ["refusing: HFM_RPC_URL=", debug rpcUrl, " does not contain ", debug devnetMarker,
        " — this binary only moves devnet SOL"]
  | .exhausted e =>
      Fragment.str "faucet exhausted after 6 attempts (" ::
        (haltText e ++ [Fragment.str ") — wait ~1h for the rate limit, then rerun"])
  | .failed what e => Fragment.str what :: Fragment.str ": " :: haltText e
  | .farBelow before =>
      ["balance ", .int before.toNat, " far below the ", .int airdropLamports.toNat,
        " airdrop — something is wrong, refusing to send"]

variable {ω : Type}

section Trade

variable (crates : Crates) (node : Node ω) (urls : List String) (kp : Keypair)

/-- Ask the faucet, with this many tries left after this one. -/
def airdropTry : Nat → Attempt DevnetStop (Direct ω) String
  | 0 => .of fun s =>
      match (requestAirdrop crates node urls kp.pubkey airdropLamports).exec s with
      | (.ok sig, s') => (.ok sig, s')
      | (.error e, s') => (.error (.exhausted e), s')
  | left + 1 => .of fun s =>
      match (requestAirdrop crates node urls kp.pubkey airdropLamports).exec s with
      | (.ok sig, s') => (.ok sig, s')
      | (.error _, s') => (airdropTry left).exec (s'.sleep 20000000000)

/-- A step of the client, with its error named. -/
def stopAs {α : Type} (what : String) (x : DirectM ω α) : Attempt DevnetStop (Direct ω) α :=
  .of fun s => ((x.exec s).1.mapError (DevnetStop.failed what), (x.exec s).2)

/-- The airdrop, up to its confirmation. -/
def fund : Attempt DevnetStop (Direct ω) Unit := do
  let airdropSig ← airdropTry crates node urls kp 5
  stopAs "airdrop never confirmed" (confirmSignature crates node urls airdropSig confirmTimeoutSecs)

/-- The balance has to be there before anything is sent. -/
def checkFunds : Attempt DevnetStop (Direct ω) Unit := do
  let before ← stopAs "balance read failed" (getBalance node urls kp.pubkey)
  if before < airdropLamports / 2 then throw (.farBelow before)

/-- The dust transfer to itself, signed on a fresh blockhash. -/
def selfSend : Attempt DevnetStop (Direct ω) String := do
  let (blockhash, _) ← stopAs "blockhash fetch failed" (fetchRecentBlockhash crates node urls)
  let tx ← stopAs "local signing failed"
    (ofExcept (buildTipTx crates kp kp.pubkey selfSendLamports blockhash))
  stopAs "sendTransaction failed" (sendTransaction crates node urls tx)

/-- The proof. -/
def devnetTrade : Attempt DevnetStop (Direct ω) Unit := do
  fund crates node urls kp
  checkFunds node urls kp
  let sig ← selfSend crates node urls kp
  stopAs "self-send never confirmed" (confirmSignature crates node urls sig confirmTimeoutSecs)
  let _ ← stopAs "post-send balance read failed" (getBalance node urls kp.pubkey)
  return ()

end Trade

/-- A client that has posted nothing. -/
def fresh (clock : Instant) (outside : ω) : Direct ω where
  active := 0
  clock := clock
  outside := outside
  posts := []

/-- `main` of the binary: only a URL that names devnet gets through. -/
def devnetMain (crates : Crates) (node : Node ω) (boot : Boot) (kp : Keypair) (clock : Instant)
    (outside : ω) : Except DevnetStop Unit × Direct ω :=
  let rpcUrl := (boot.nonBlank "HFM_RPC_URL").getD "https://api.devnet.solana.com"
  if devnetMarker.toList <:+: rpcUrl.toList then
    (devnetTrade crates node ((rpcUrl :: Config.paperDefaults.rpcFallbackUrls).map trimEndSlashes)
      kp).exec (fresh clock outside)
  else (.error (.refused rpcUrl), fresh clock outside)

/-! ## What may be posted -/

section Allowed

variable (crates : Crates) (kp : Keypair) (url : String)

/-- A question that was answered so. -/
def Answered (posts : List Post) (method : DirectMethod) (body : Body) : Prop :=
  ∃ p ∈ posts, p.method = method ∧ p.response = .ok body

/-- The signature was seen landed. -/
def Landed (posts : List Post) (sig : String) : Prop :=
  ∃ body, Answered posts (.getSignatureStatuses sig) body ∧
    parseSigStatus crates body = .ok .confirmed

/-- The faucet gave this signature. -/
def Airdropped (posts : List Post) (sig : String) : Prop :=
  ∃ body, Answered posts (.requestAirdrop kp.pubkey airdropLamports) body ∧
    parseStringResult crates "airdrop" body = .ok sig

/-- The airdrop has landed, and half of it at least was read as the balance. -/
structure FundedBy (posts : List Post) : Prop where
  airdrop : ∃ sig, Airdropped crates kp posts sig ∧ Landed crates posts sig
  balance : ∃ body lamports, Answered posts (.getBalance kp.pubkey) body ∧
    parseBalanceResponse body = .ok lamports ∧ airdropLamports / 2 ≤ lamports

def isAirdrop (p : Post) : Bool :=
  match p.method with
  | .requestAirdrop _ _ => true
  | _ => false

def isSend (p : Post) : Bool :=
  match p.method with
  | .sendTransaction _ => true
  | _ => false

/-- What may be posted: reads at any time, six requests for the airdrop, and once it is there,
one transfer of the dust to itself. -/
structure Allowed (before : List Post) (p : Post) : Prop where
  url : p.url = url
  airdrop : isAirdrop p = true → before.countP isAirdrop < 6 ∧
    p.method = .requestAirdrop kp.pubkey airdropLamports
  send : isSend p = true → before.countP isSend = 0 ∧ FundedBy crates kp before ∧
    ∃ hash, p.method = .sendTransaction
      (.tip
        { operator := kp.pubkey
          account := kp.pubkey
          lamports := selfSendLamports
          blockhash := hash })

/-- The dust transfer was sent, and the node gave this signature. -/
def SentAs (posts : List Post) (sig : String) : Prop :=
  ∃ hash body, Answered posts (.sendTransaction
      (.tip
        { operator := kp.pubkey
          account := kp.pubkey
          lamports := selfSendLamports
          blockhash := hash })) body ∧
    parseStringResult crates "sendTransaction" body = .ok sig

/-- Every post so far was allowed. -/
def Careful (posts : List Post) : Prop := EachAfter (Allowed crates kp url) posts

def Unsent (posts : List Post) : Prop := posts.countP isSend = 0

end Allowed

/-! ## The steps of the proof -/

/-- A read. -/
def Reading (p : Post) : Prop := isAirdrop p = false ∧ isSend p = false

/-- Reads do not change it. -/
def Stable (K : List Post → Prop) : Prop :=
  ∀ posts new, (∀ p ∈ new, Reading p) → K posts → K (posts ++ new)

section Stable

variable {crates : Crates} {kp : Keypair} {url : String}

theorem Answered.append {posts : List Post} {method : DirectMethod} {body : Body}
    (h : Answered posts method body) (new : List Post) : Answered (posts ++ new) method body := by
  obtain ⟨p, hp, hmethod, hresponse⟩ := h
  exact ⟨p, List.mem_append_left new hp, hmethod, hresponse⟩

theorem stable_landed (sig : String) : Stable fun posts => Landed crates posts sig := by
  rintro posts new - ⟨body, hanswered, hparse⟩
  exact ⟨body, hanswered.append new, hparse⟩

theorem stable_airdropped (sig : String) : Stable fun posts => Airdropped crates kp posts sig := by
  rintro posts new - ⟨body, hanswered, hparse⟩
  exact ⟨body, hanswered.append new, hparse⟩

theorem stable_sentAs (sig : String) : Stable fun posts => SentAs crates kp posts sig := by
  rintro posts new - ⟨hash, body, hanswered, hparse⟩
  exact ⟨hash, body, hanswered.append new, hparse⟩

theorem stable_unsent : Stable Unsent := by
  intro posts new hread hposts
  unfold Unsent
  rw [List.countP_append, hposts, Nat.zero_add, List.countP_eq_zero]
  intro p hp
  rw [(hread p hp).2]
  exact Bool.false_ne_true

theorem Stable.and {K L : List Post → Prop} (hK : Stable K) (hL : Stable L) :
    Stable fun posts => K posts ∧ L posts :=
  fun posts new hread h => ⟨hK posts new hread h.1, hL posts new hread h.2⟩

/-- Reads may always be posted. -/
theorem stable_careful {posts new : List Post} (hread : ∀ p ∈ new, p.url = url ∧ Reading p)
    (h : Careful crates kp url posts) : Careful crates kp url (posts ++ new) := by
  refine EachAfter.append h fun p hp before => ?_
  obtain ⟨hurl, hairdrop, hsend⟩ := hread p hp
  refine ⟨hurl, fun hyes => ?_, fun hyes => ?_⟩
  · rw [hairdrop] at hyes
    cases hyes
  · rw [hsend] at hyes
    cases hyes

end Stable

section Steps

variable (crates : Crates) (node : Node ω) (kp : Keypair) (url : String)

theorem Triple.stopAs {α : Type} {Pre E : Direct ω → Prop} {Q : α → Direct ω → Prop}
    {x : DirectM ω α} (what : String) (h : Attempt.Triple Pre x Q E) :
    Attempt.Triple Pre (stopAs what x) Q E := by
  intro s hs
  have hx := h s hs
  unfold Direct.stopAs
  rw [exec_of]
  rcases hrun : x.exec s with ⟨e | a, s'⟩
  · rw [hrun] at hx
    exact hx
  · rw [hrun] at hx
    exact hx

/-- An answer came with a post. -/
theorem exists_of_mem_answersOf {posts : List Post} {body : Body} (h : body ∈ answersOf posts) :
    ∃ p ∈ posts, p.response = .ok body := by
  obtain ⟨p, hp, hresponse⟩ := List.mem_filterMap.mp h
  refine ⟨p, hp, ?_⟩
  cases hpr : p.response with
  | error e => simp [hpr, Except.toOption] at hresponse
  | ok b => simpa [hpr, Except.toOption] using hresponse

/-- A parsed answer was an answer. -/
theorem answered_of_parsed {α : Type} {urls : List String} {method : DirectMethod}
    {new : List Post} {r₀ : Except Halt Body} {parse : Body → Except Halt α} {a : α}
    (hcall : CallPosts urls method new r₀) (hr : .ok a = r₀ >>= parse) (posts : List Post) :
    ∃ body, Answered (posts ++ new) method body ∧ parse body = .ok a := by
  cases r₀ with
  | error e => cases hr
  | ok body =>
      have hbody : body ∈ answersOf new := by
        rw [hcall.answer]
        exact List.mem_singleton_self body
      obtain ⟨p, hp, hresponse⟩ := exists_of_mem_answersOf hbody
      exact ⟨body, ⟨p, List.mem_append_right _ hp, (hcall.sent p hp).2, hresponse⟩, hr.symm⟩

/-- A read and its parse. -/
theorem careful_call {α : Type} {K : List Post → Prop} (hK : Stable K) {method : DirectMethod}
    (hread : ∀ p : Post, p.method = method → Reading p) (parse : Body → Except Halt α) :
    Attempt.Triple (fun s => Careful crates kp url s.posts ∧ K s.posts)
      (rpcCall node [url] method >>= fun body => (ofExcept (parse body) : DirectM ω α))
      (fun a s => (Careful crates kp url s.posts ∧ K s.posts) ∧
        ∃ body, Answered s.posts method body ∧ parse body = .ok a)
      (fun s => Careful crates kp url s.posts) := by
  have hreads : ∀ {new : List Post} {r : Except Halt Body}, CallPosts [url] method new r →
      ∀ p ∈ new, p.url = url ∧ Reading p := by
    intro new r hcall p hp
    obtain ⟨hurl, hmethod⟩ := hcall.sent p hp
    exact ⟨List.mem_singleton.mp hurl, hread p hmethod⟩
  refine Triple.of_meets (parsed_posts node [url] method parse) ?_ ?_
  · rintro s a s' ⟨hcareful, hk⟩ ⟨-, new, r₀, hposts, hcall, hr⟩
    rw [hposts]
    refine ⟨⟨stable_careful (hreads hcall) hcareful,
      hK _ _ (fun p hp => (hreads hcall p hp).2) hk⟩, answered_of_parsed hcall hr s.posts⟩
  · rintro s e s' ⟨hcareful, -⟩ ⟨-, new, r₀, hposts, hcall, -⟩
    rw [hposts]
    exact stable_careful (hreads hcall) hcareful

/-- A wait for a signature. -/
theorem careful_wait {K : List Post → Prop} (hK : Stable K) (sig : String)
    (timeoutSecs : UInt64) :
    Attempt.Triple (fun s => Careful crates kp url s.posts ∧ K s.posts)
      (confirmSignature crates node [url] sig timeoutSecs)
      (fun _ s => (Careful crates kp url s.posts ∧ K s.posts) ∧ Landed crates s.posts sig)
      (fun s => Careful crates kp url s.posts) := by
  have hreads : ∀ {new : List Post},
      (∀ p ∈ new, p.url ∈ [url] ∧ p.method = .getSignatureStatuses sig) →
      ∀ p ∈ new, p.url = url ∧ Reading p := by
    intro new hsent p hp
    obtain ⟨hurl, hmethod⟩ := hsent p hp
    refine ⟨List.mem_singleton.mp hurl, ?_⟩
    simp [Reading, isAirdrop, isSend, hmethod]
  refine Triple.of_meets (confirmSignature_posts crates node [url] sig timeoutSecs) ?_ ?_
  · rintro s a s' ⟨hcareful, hk⟩ ⟨new, hposts, hsent, hok, -⟩
    rw [hposts]
    refine ⟨⟨stable_careful (hreads hsent) hcareful,
      hK _ _ (fun p hp => (hreads hsent p hp).2) hk⟩, ?_⟩
    obtain ⟨pendings, last, hanswers, -, hlast⟩ := hok.mp rfl
    have hmem : last ∈ answersOf new := by simp [hanswers]
    obtain ⟨p, hp, hresponse⟩ := exists_of_mem_answersOf hmem
    exact ⟨last, ⟨p, List.mem_append_right _ hp, (hsent p hp).2, hresponse⟩, hlast⟩
  · rintro s e s' ⟨hcareful, -⟩ ⟨new, hposts, hsent, -⟩
    rw [hposts]
    exact stable_careful (hreads hsent) hcareful

/-- A call to the one endpoint posts nothing or once. -/
theorem careful_one {K : List Post → Prop} {method : DirectMethod} {posts new : List Post}
    {r : Except Halt Body} (hcall : CallPosts [url] method new r)
    (hallowed : ∀ p : Post, p.url = url → p.method = method → Allowed crates kp url posts p)
    (hnil : K posts) (hone : ∀ p : Post, p.method = method → K (posts ++ [p]))
    (hcareful : Careful crates kp url posts) :
    Careful crates kp url (posts ++ new) ∧ K (posts ++ new) := by
  match new, hcall with
  | [], _ =>
      rw [List.append_nil]
      exact ⟨hcareful, hnil⟩
  | [p], hcall =>
      obtain ⟨hurl, hmethod⟩ := hcall.sent p (by simp)
      refine ⟨?_, hone p hmethod⟩
      exact eachAfter_concat.mpr ⟨hcareful, hallowed p (List.mem_singleton.mp hurl) hmethod⟩
  | _ :: _ :: _, hcall => exact absurd hcall.once (by simp)

/-- One request to the faucet, with fewer than six before it. -/
theorem careful_airdrop_one {n : Nat} (hn : n < 6) :
    Attempt.Triple
      (fun s => Careful crates kp url s.posts ∧ s.posts.countP isAirdrop ≤ n ∧ Unsent s.posts)
      (requestAirdrop crates node [url] kp.pubkey airdropLamports)
      (fun sig s => (Careful crates kp url s.posts ∧ Unsent s.posts) ∧
        Airdropped crates kp s.posts sig)
      (fun s => Careful crates kp url s.posts ∧ s.posts.countP isAirdrop ≤ n + 1 ∧
        Unsent s.posts) := by
  have hcount : ∀ {posts new : List Post} {r : Except Halt Body},
      CallPosts [url] (.requestAirdrop kp.pubkey airdropLamports) new r →
      Careful crates kp url posts ∧ posts.countP isAirdrop ≤ n ∧ Unsent posts →
      Careful crates kp url (posts ++ new) ∧
        ((posts ++ new).countP isAirdrop ≤ n + 1 ∧ Unsent (posts ++ new)) := by
    rintro posts new r hcall ⟨hcareful, hle, hunsent⟩
    refine careful_one crates kp url
      (K := fun posts => posts.countP isAirdrop ≤ n + 1 ∧ Unsent posts) hcall ?_
      ⟨Nat.le_succ_of_le hle, hunsent⟩ ?_ hcareful
    · intro p hurl hmethod
      refine ⟨hurl, fun _ => ⟨Nat.lt_of_le_of_lt hle hn, hmethod⟩, fun hyes => ?_⟩
      simp [isSend, hmethod] at hyes
    · intro p hmethod
      unfold Unsent at *
      simpa [List.countP_append, isAirdrop, isSend, hmethod, hunsent] using hle
  refine Triple.of_meets (parsed_posts node [url] (.requestAirdrop kp.pubkey airdropLamports)
    (parseStringResult crates "airdrop")) ?_ ?_
  · rintro s sig s' hs ⟨-, new, r₀, hposts, hcall, hr⟩
    rw [hposts]
    obtain ⟨hcareful, -, hunsent⟩ := hcount hcall hs
    exact ⟨⟨hcareful, hunsent⟩, answered_of_parsed hcall hr s.posts⟩
  · rintro s e s' hs ⟨-, new, r₀, hposts, hcall, -⟩
    rw [hposts]
    exact hcount hcall hs

/-- The faucet, with this many tries left. -/
theorem careful_airdrop (left n : Nat) (hn : n + left < 6) :
    Attempt.Triple
      (fun s => Careful crates kp url s.posts ∧ s.posts.countP isAirdrop ≤ n ∧ Unsent s.posts)
      (airdropTry crates node [url] kp left)
      (fun sig s => (Careful crates kp url s.posts ∧ Unsent s.posts) ∧
        Airdropped crates kp s.posts sig)
      (fun s => Careful crates kp url s.posts) := by
  induction left generalizing n with
  | zero =>
      intro s hs
      have hone := careful_airdrop_one crates node kp url (by omega : n < 6) s hs
      unfold airdropTry
      rw [exec_of]
      rcases hrun : (requestAirdrop crates node [url] kp.pubkey airdropLamports).exec s
        with ⟨e | sig, s'⟩
      · rw [hrun] at hone
        exact hone.1
      · rw [hrun] at hone
        exact hone
  | succ left ih =>
      intro s hs
      have hone := careful_airdrop_one crates node kp url (by omega : n < 6) s hs
      unfold airdropTry
      rw [exec_of]
      rcases hrun : (requestAirdrop crates node [url] kp.pubkey airdropLamports).exec s
        with ⟨e | sig, s'⟩
      · rw [hrun] at hone
        -- the sleep posts nothing
        exact ih (n + 1) (by omega) (s'.sleep 20000000000) hone
      · rw [hrun] at hone
        exact hone

/-- The submission of the dust transfer. -/
theorem careful_send (hash : Hash) :
    Attempt.Triple
      (fun s => Careful crates kp url s.posts ∧ Unsent s.posts ∧ FundedBy crates kp s.posts)
      (sendTransaction crates node [url]
        (.tip
          { operator := kp.pubkey
            account := kp.pubkey
            lamports := selfSendLamports
            blockhash := hash }))
      (fun sig s => Careful crates kp url s.posts ∧ SentAs crates kp s.posts sig)
      (fun s => Careful crates kp url s.posts) := by
  have hsend : ∀ {posts new : List Post} {r : Except Halt Body},
      CallPosts [url] (.sendTransaction
        (.tip
          { operator := kp.pubkey
            account := kp.pubkey
            lamports := selfSendLamports
            blockhash := hash })) new r →
      Careful crates kp url posts ∧ Unsent posts ∧ FundedBy crates kp posts →
      Careful crates kp url (posts ++ new) := by
    rintro posts new r hcall ⟨hcareful, hunsent, hfunded⟩
    refine (careful_one crates kp url (K := fun _ => True) hcall ?_ trivial (fun _ _ => trivial)
      hcareful).1
    intro p hurl hmethod
    refine ⟨hurl, fun hyes => ?_, fun _ => ⟨hunsent, hfunded, hash, hmethod⟩⟩
    simp [isAirdrop, hmethod] at hyes
  refine Triple.of_meets (parsed_posts node [url] _ (parseStringResult crates "sendTransaction"))
    ?_ ?_
  · rintro s sig s' hs ⟨-, new, r₀, hposts, hcall, hr⟩
    rw [hposts]
    exact ⟨hsend hcall hs, hash, answered_of_parsed hcall hr s.posts⟩
  · rintro s e s' hs ⟨-, new, r₀, hposts, hcall, -⟩
    rw [hposts]
    exact hsend hcall hs

/-! ## The whole proof -/

/-- The funding. -/
theorem careful_fund :
    Attempt.Triple (fun s => s.posts = []) (fund crates node [url] kp)
      (fun _ s => Careful crates kp url s.posts ∧ Unsent s.posts ∧
        ∃ sig, Airdropped crates kp s.posts sig ∧ Landed crates s.posts sig)
      (fun s => Careful crates kp url s.posts) := by
  refine Triple.bind
    (Triple.mono (careful_airdrop crates node kp url 5 0 (by decide)) ?_ fun _ _ h => h) ?_
  · intro s hs
    rw [hs]
    exact ⟨eachAfter_nil _, Nat.le_refl _, rfl⟩
  · intro sig
    have hstable : Stable fun posts => Unsent posts ∧ Airdropped crates kp posts sig :=
      stable_unsent.and (stable_airdropped sig)
    refine Triple.stopAs _ (Triple.mono (careful_wait crates node kp url hstable sig _) ?_ ?_)
    · rintro s ⟨⟨hcareful, hunsent⟩, hdrop⟩
      exact ⟨hcareful, hunsent, hdrop⟩
    · rintro _ s ⟨⟨hcareful, hunsent, hdrop⟩, hlanded⟩
      exact ⟨hcareful, hunsent, sig, hdrop, hlanded⟩

/-- The check of the balance. -/
theorem careful_checkFunds :
    Attempt.Triple
      (fun s => Careful crates kp url s.posts ∧ Unsent s.posts ∧
        ∃ sig, Airdropped crates kp s.posts sig ∧ Landed crates s.posts sig)
      (checkFunds node [url] kp)
      (fun _ s => Careful crates kp url s.posts ∧ Unsent s.posts ∧ FundedBy crates kp s.posts)
      (fun s => Careful crates kp url s.posts) := by
  have hstable : Stable fun posts => Unsent posts ∧
      ∃ sig, Airdropped crates kp posts sig ∧ Landed crates posts sig := by
    rintro posts new hread ⟨hunsent, sig, hdrop, hlanded⟩
    exact ⟨stable_unsent posts new hread hunsent, sig, stable_airdropped sig posts new hread hdrop,
      stable_landed sig posts new hread hlanded⟩
  have hreading : ∀ p : Post, p.method = .getBalance kp.pubkey → Reading p := by
    intro p hmethod
    simp [Reading, isAirdrop, isSend, hmethod]
  refine Triple.bind
    (Triple.stopAs _ (careful_call crates node kp url hstable hreading parseBalanceResponse)) ?_
  rintro before s ⟨⟨hcareful, hunsent, hairdrop⟩, body, hanswered, hparse⟩
  by_cases hlow : before < airdropLamports / 2
  · rw [if_pos hlow]
    exact hcareful
  · rw [if_neg hlow]
    exact ⟨hcareful, hunsent, hairdrop, body, before, hanswered, hparse, UInt64.not_lt.mp hlow⟩

/-- The transfer. -/
theorem careful_selfSend :
    Attempt.Triple
      (fun s => Careful crates kp url s.posts ∧ Unsent s.posts ∧ FundedBy crates kp s.posts)
      (selfSend crates node [url] kp)
      (fun sig s => Careful crates kp url s.posts ∧ SentAs crates kp s.posts sig)
      (fun s => Careful crates kp url s.posts) := by
  have hstable : Stable fun posts => Unsent posts ∧ FundedBy crates kp posts := by
    rintro posts new hread ⟨hunsent, ⟨sig, hdrop, hlanded⟩, body, lamports, hanswered, hread'⟩
    exact ⟨stable_unsent posts new hread hunsent,
      ⟨sig, stable_airdropped sig posts new hread hdrop,
        stable_landed sig posts new hread hlanded⟩,
      body, lamports, hanswered.append new, hread'⟩
  have hreading : ∀ p : Post, p.method = .getLatestBlockhash → Reading p := by
    intro p hmethod
    simp [Reading, isAirdrop, isSend, hmethod]
  refine Triple.bind
    (Triple.stopAs _ (careful_call crates node kp url hstable hreading
      (parseBlockhashResponse crates))) ?_
  rintro ⟨blockhash, height⟩
  -- signing posts nothing
  have hsign : Attempt.Triple
      (fun s : Direct ω => Careful crates kp url s.posts ∧ Unsent s.posts ∧
        FundedBy crates kp s.posts)
      (ofExcept (buildTipTx crates kp kp.pubkey selfSendLamports blockhash) :
        DirectM ω SignedTx)
      (fun tx s => (Careful crates kp url s.posts ∧ Unsent s.posts ∧ FundedBy crates kp s.posts) ∧
        buildTipTx crates kp kp.pubkey selfSendLamports blockhash = .ok tx)
      (fun s => Careful crates kp url s.posts) := by
    intro s hs
    rw [exec_ofExcept]
    cases hbuild : buildTipTx crates kp kp.pubkey selfSendLamports blockhash with
    | error e => exact hs.1
    | ok tx => exact ⟨hs, rfl⟩
  refine Triple.bind (Triple.stopAs _ (Triple.mono hsign (fun s h => h.1) fun _ _ h => h)) ?_
  rintro tx s ⟨hs, hbuild⟩
  obtain ⟨hash, -, rfl⟩ := buildTipTx_eq_ok hbuild
  exact Triple.stopAs _ (careful_send crates node kp url hash) s hs

/-- The dust transfer has landed. -/
def Moved (posts : List Post) : Prop :=
  ∃ sig, SentAs crates kp posts sig ∧ Landed crates posts sig

theorem careful_trade :
    Attempt.Triple (fun s => s.posts = []) (devnetTrade crates node [url] kp)
      (fun _ s => Careful crates kp url s.posts ∧ Moved crates kp s.posts)
      (fun s => Careful crates kp url s.posts) := by
  refine Triple.bind (careful_fund crates node kp url) fun _ => ?_
  refine Triple.bind (careful_checkFunds crates node kp url) fun _ => ?_
  refine Triple.bind (careful_selfSend crates node kp url) fun sig => ?_
  refine Triple.bind
    (Triple.stopAs _ (careful_wait crates node kp url (stable_sentAs sig) sig _)) fun _ => ?_
  have hstable : Stable (Moved crates kp) := by
    rintro posts new hread ⟨sig, hsent, hlanded⟩
    exact ⟨sig, stable_sentAs sig posts new hread hsent,
      stable_landed sig posts new hread hlanded⟩
  have hreading : ∀ p : Post, p.method = .getBalance kp.pubkey → Reading p := by
    intro p hmethod
    simp [Reading, isAirdrop, isSend, hmethod]
  refine Triple.bind
    (Triple.stopAs _ (Triple.mono
      (careful_call crates node kp url hstable hreading parseBalanceResponse) ?_
      fun _ _ h => h)) ?_
  · rintro s ⟨⟨hcareful, hsent⟩, hlanded⟩
    exact ⟨hcareful, sig, hsent, hlanded⟩
  · intro after
    exact Triple.pure fun s h => h.1

end Steps

/-- Cutting slashes at the end leaves the marker. -/
theorem marker_trimEndSlashes {rpcUrl : String} (h : devnetMarker.toList <:+: rpcUrl.toList) :
    devnetMarker.toList <:+: (trimEndSlashes rpcUrl).toList := by
  obtain ⟨before, after, hurl⟩ := h
  unfold trimEndSlashes
  rw [String.toList_ofList, ← hurl, List.reverse_append]
  by_cases hall : ∀ c ∈ after.reverse, (c == '/') = true
  · have hdrop : List.dropWhile (fun c => c == '/') after.reverse = [] :=
      List.dropWhile_eq_nil_iff.mpr hall
    rw [List.dropWhile_append, hdrop]
    refine ⟨before, [], ?_⟩
    simp [devnetMarker]
  · have hdrop : List.dropWhile (fun c => c == '/') after.reverse ≠ [] :=
      fun hnil => hall (List.dropWhile_eq_nil_iff.mp hnil)
    rw [List.dropWhile_append]
    refine ⟨before, (List.dropWhile (fun c => c == '/') after.reverse).reverse, ?_⟩
    simp [hdrop]

/-- On every node and for every setting of the URL, all that the proof posts goes to a devnet
endpoint, and is allowed after what was posted before it: reads, at most six requests for the
airdrop, and one transfer of the dust to itself at most, after the airdrop was seen landed and
half of it was read as the balance.  Where the proof ends well, the transfer was sent, and was
seen landed. -/
theorem devnet_only (crates : Crates) (node : Node ω) (boot : Boot) (kp : Keypair)
    (clock : Instant) (outside : ω) :
    let run := devnetMain crates node boot kp clock outside
    ∃ url, (run.2.posts ≠ [] → devnetMarker.toList <:+: url.toList) ∧
      EachAfter (Allowed crates kp url) run.2.posts ∧
      (run.1 = .ok () → Moved crates kp run.2.posts) := by
  dsimp only
  unfold devnetMain
  dsimp only
  set rpcUrl := (boot.nonBlank "HFM_RPC_URL").getD "https://api.devnet.solana.com"
  by_cases hmarker : devnetMarker.toList <:+: rpcUrl.toList
  · rw [if_pos hmarker]
    refine ⟨trimEndSlashes rpcUrl, fun _ => marker_trimEndSlashes hmarker, ?_⟩
    have htrade := careful_trade crates node kp (trimEndSlashes rpcUrl) (fresh clock outside) rfl
    have hurls : (rpcUrl :: Config.paperDefaults.rpcFallbackUrls).map trimEndSlashes =
        [trimEndSlashes rpcUrl] := rfl
    rw [hurls]
    rcases hrun : (devnetTrade crates node [trimEndSlashes rpcUrl] kp).exec (fresh clock outside)
      with ⟨e | u, s'⟩
    · rw [hrun] at htrade
      exact ⟨htrade, fun hok => nomatch hok⟩
    · rw [hrun] at htrade
      exact ⟨htrade.1, fun _ => htrade.2⟩
  · rw [if_neg hmarker]
    exact ⟨rpcUrl, fun hposts => absurd rfl hposts, eachAfter_nil _, fun hok => nomatch hok⟩

end Direct

end HfmcBot
