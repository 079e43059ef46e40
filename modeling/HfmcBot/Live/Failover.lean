import HfmcBot.Foundation.Rotation
import HfmcBot.Live.Exchanges

/-!
# Failover of the RPC client

Calls one after the other on the same client.  Which endpoint a call starts with is what
the calls before it have left in the cursor.

* `Attempted`: the attempts down a list of endpoints, up to the first that answers;
* `rpcTry_attempted`: that is what the loop of a call makes;
* `failsOver_run`: every call of a run goes once around from the endpoint that answered
  last.
-/

namespace HfmcBot

open Foundation Foundation.Attempt

namespace RpcClient

/-- A client that has not called yet. -/
def withUrls (urls : List String) : RpcClient where
  urls := urls
  active := 0

/-- The preferred endpoint. -/
def activeUrl (rpc : RpcClient) : String := rpc.urls.getD (min rpc.active (rpc.urls.length - 1)) ""

end RpcClient

/-- The attempt got no body. -/
def Exchange.Failed (x : Exchange) : Prop := ∃ e, x.response = .error e

/-- A call of the client as it went: its attempts, its result, and the endpoint preferred
after it. -/
structure RpcServed where
  method : RpcMethod
  attempts : List Exchange
  result : Except Halt Body
  activeUrl : String

namespace RpcServed

/-- The first endpoints in turn, as many as there were attempts. -/
def tried (c : RpcServed) (n good : Nat) : List Nat := (inTurn n good).take c.attempts.length

/-- The endpoint that answered last, where `good` did before the call. -/
def goodAfter (c : RpcServed) (n good : Nat) : Nat :=
  match c.result with
  | .ok _ => (c.tried n good).getLastD good
  | .error _ => good

end RpcServed

/-- A call goes around the endpoints from the good one on, each once, up to the first that
answers. -/
structure FailsOver (urls : List String) (good : Nat) (c : RpcServed) : Prop where
  inOrder : c.attempts.map Exchange.request =
    (c.tried urls.length good).map fun i => .rpc (urls.getD i "") c.method
  once : (c.tried urls.length good).Nodup
  /-- A success is that of the last attempt, and every attempt before it failed. -/
  answered : ∀ body, c.result = .ok body → ∃ failed last, c.attempts = failed ++ [last] ∧
    last.response = .ok body ∧ ∀ x ∈ failed, x.Failed
  /-- An error means that every endpoint was tried and failed, and nothing else. -/
  exhausted : (∃ h, c.result = .error h) ↔
    c.attempts.length = urls.length ∧ ∀ x ∈ c.attempts, x.Failed
  unknown : ∀ h, c.result = .error h → ∃ msg, h = .transport msg
  preferred : c.activeUrl = urls.getD (c.goodAfter urls.length good) ""

/-- Every call of a run starts at the endpoint of the last success before it. -/
def FailoverRun (urls : List String) : Nat → List RpcServed → Prop
  | _, [] => True
  | good, c :: cs => FailsOver urls good c ∧ FailoverRun urls (c.goodAfter urls.length good) cs

/-! ## Attempts -/

/-- Attempts at the endpoints with these indices, and the one that answered. -/
inductive Attempted (urls : List String) (method : RpcMethod) :
    List Nat → List Exchange → Option (Nat × Body) → Prop
  | exhausted : Attempted urls method [] [] none
  | answered (i : Nat) (rest : List Nat) (body : Body) :
      Attempted urls method (i :: rest) [⟨.rpc (urls.getD i "") method, .ok body⟩] (some (i, body))
  | failed (i : Nat) {rest : List Nat} {new : List Exchange} {out : Option (Nat × Body)}
      (e : HttpError) (hrest : Attempted urls method rest new out) :
      Attempted urls method (i :: rest) (⟨.rpc (urls.getD i "") method, .error e⟩ :: new) out

section Attempts

variable {urls : List String} {method : RpcMethod} {is : List Nat} {new : List Exchange}
  {out : Option (Nat × Body)}

/-- They go down the list. -/
theorem Attempted.requests (h : Attempted urls method is new out) :
    new.map Exchange.request =
      (is.take new.length).map fun i => .rpc (urls.getD i "") method := by
  induction h with
  | exhausted => rfl
  | answered i rest body => rfl
  | failed i e _ ih =>
      rw [List.length_cons, List.take_succ_cons, List.map_cons, List.map_cons, ih]

/-- Where one answered, it was the last, and all before it failed. -/
theorem Attempted.of_some {i : Nat} {body : Body}
    (h : Attempted urls method is new (some (i, body))) :
    (∃ failed last, new = failed ++ [last] ∧ last.response = .ok body ∧
        ∀ x ∈ failed, x.Failed) ∧
      (is.take new.length).getLast? = some i := by
  generalize hout : some (i, body) = out at h
  induction h with
  | exhausted => cases hout
  | answered j rest body' =>
      cases hout
      exact ⟨⟨[], _, rfl, rfl, by simp⟩, rfl⟩
  | failed j e hrest ih =>
      obtain ⟨⟨failed, last, rfl, hlast, hfailed⟩, hget⟩ := ih hout
      refine ⟨⟨_ :: failed, last, rfl, hlast, ?_⟩, ?_⟩
      · intro x hx
        rcases List.mem_cons.mp hx with rfl | hmem
        · exact ⟨e, rfl⟩
        · exact hfailed x hmem
      · rw [List.length_cons, List.take_succ_cons, List.getLast?_cons, hget, Option.getD_some]

/-- Where none answered, all were tried and failed. -/
theorem Attempted.of_none (h : Attempted urls method is new none) :
    new.length = is.length ∧ ∀ x ∈ new, x.Failed := by
  generalize hout : (none : Option (Nat × Body)) = out at h
  induction h with
  | exhausted => exact ⟨rfl, by simp⟩
  | answered j rest body => cases hout
  | failed j e hrest ih =>
      obtain ⟨hlength, hfailed⟩ := ih hout
      refine ⟨by rw [List.length_cons, List.length_cons, hlength], ?_⟩
      intro x hx
      rcases List.mem_cons.mp hx with rfl | hmem
      · exact ⟨e, rfl⟩
      · exact hfailed x hmem

/-! The two ways in which attempts around the endpoints make a call. -/

variable {good : Nat}

theorem once_of_inTurn (n good k : Nat) : ((inTurn n good).take k).Nodup :=
  (nodup_inTurn n good).sublist (List.take_sublist _ _)

/-- None answered: an error, and the good endpoint stays the preferred one. -/
theorem Attempted.failsOver_of_none {msg : Text}
    (h : Attempted urls method (inTurn urls.length good) new none) :
    FailsOver urls good ⟨method, new, .error (.transport msg), urls.getD good ""⟩ := by
  obtain ⟨hlength, hfailed⟩ := h.of_none
  rw [length_inTurn] at hlength
  refine ⟨h.requests, once_of_inTurn _ _ _, by simp, ⟨fun _ => ⟨hlength, hfailed⟩, ?_⟩, ?_, rfl⟩
  · exact fun _ => ⟨_, rfl⟩
  · rintro e ⟨⟩
    exact ⟨msg, rfl⟩

/-- The endpoint that answered is one of them. -/
theorem Attempted.lt_of_some {i : Nat} {body : Body}
    (h : Attempted urls method (inTurn urls.length good) new (some (i, body))) :
    i < urls.length :=
  lt_of_mem_inTurn (List.mem_of_mem_take (List.mem_of_getLast? h.of_some.2))

/-- It is the good one after the call. -/
theorem Attempted.goodAfter_of_some {i : Nat} {body : Body} (url : String)
    (h : Attempted urls method (inTurn urls.length good) new (some (i, body))) :
    RpcServed.goodAfter ⟨method, new, .ok body, url⟩ urls.length good = i := by
  show ((inTurn urls.length good).take new.length).getLastD good = i
  rw [List.getLastD_eq_getLast?, h.of_some.2, Option.getD_some]

/-- One answered: its body, and it is the preferred one. -/
theorem Attempted.failsOver_of_some {i : Nat} {body : Body}
    (h : Attempted urls method (inTurn urls.length good) new (some (i, body))) :
    FailsOver urls good ⟨method, new, .ok body, urls.getD i ""⟩ := by
  obtain ⟨⟨failed, last, hsplit, hlast, hfailed⟩, -⟩ := h.of_some
  refine ⟨h.requests, once_of_inTurn _ _ _, ?_, ⟨?_, ?_⟩, by simp, ?_⟩
  · rintro _ ⟨⟩
    exact ⟨failed, last, hsplit, hlast, hfailed⟩
  · rintro ⟨e, hr⟩
    cases hr
  · -- the attempt that answered is among them
    rintro ⟨-, hall⟩
    obtain ⟨e, he⟩ := hall last (by rw [hsplit]; simp)
    rw [hlast] at he
    cases he
  · rw [h.goodAfter_of_some]

end Attempts

namespace Live

variable {ω : Type} (up : Upstream ω)

/-- How a call ends: with the body of the endpoint that answered, which is now preferred,
or with an unknown state and the cursor as it was. -/
def Ends (rpc : RpcClient) (out : Option (Nat × Body)) (r : Except Halt Body)
    (rpc' : RpcClient) : Prop :=
  match out with
  | some (i, body) => r = .ok body ∧ rpc' = { rpc with active := i }
  | none => (∃ msg, r = .error (.transport msg)) ∧ rpc' = rpc

/-- The loop of a call makes the attempts. -/
theorem rpcTry_attempted (method : RpcMethod) (is : List Nat) {lastErr : Halt}
    (hlast : ∃ msg, lastErr = .transport msg) (s : Live (ω × List Exchange)) :
    ∃ new out, exchanges ((rpcTry up.recorded method is lastErr).exec s).2 = exchanges s ++ new ∧
      Attempted s.ex.rpc.urls method is new out ∧
      Ends s.ex.rpc out ((rpcTry up.recorded method is lastErr).exec s).1
        ((rpcTry up.recorded method is lastErr).exec s).2.ex.rpc := by
  induction is generalizing lastErr s with
  | nil =>
      obtain ⟨msg, rfl⟩ := hlast
      exact ⟨[], none, (List.append_nil _).symm, .exhausted, ⟨msg, rfl⟩, rfl⟩
  | cons i rest ih =>
      obtain ⟨new, hlog, response, hresponse, rfl⟩ :=
        call_log up (.rpc (s.ex.rpc.urls.getD i "") method) s
      have hex : ((call up.recorded (.rpc (s.ex.rpc.urls.getD i "") method)).exec s).2.ex =
          s.ex := rfl
      rw [rpcTry, exec_get_bind]
      rcases hcall : (call up.recorded (.rpc (s.ex.rpc.urls.getD i "") method)).exec s with ⟨r, m⟩
      rw [hcall] at hlog hresponse hex
      cases hresponse
      rw [exec_bind_ok hcall]
      cases response with
      | ok body =>
          refine ⟨_, some (i, body), hlog, .answered i rest body, rfl, ?_⟩
          rw [← hex]
          rfl
      | error e =>
          obtain ⟨new, out, hlater, hattempts, hends⟩ := ih (exists_transport_of_halt e _ _) m
          have hrpc : m.ex.rpc = s.ex.rpc := congrArg LiveExecutor.rpc hex
          rw [hrpc] at hattempts hends
          refine ⟨_ :: new, out, ?_, .failed i e hattempts, hends⟩
          rw [hlater, List.append_cons]
          exact congrArg (· ++ new) hlog

/-! ## Runs -/

/-- One call, and the client after it. -/
def rpcServed (method : RpcMethod) (s : Live (ω × List Exchange)) :
    RpcServed × Live (ω × List Exchange) :=
  let (result, s') := (rpcCall up.recorded method).exec s
  ({ method := method
     attempts := (exchanges s').drop (exchanges s).length
     result := result
     activeUrl := s'.ex.rpc.activeUrl }, s')

/-- Calls one after the other. -/
def rpcRun : List RpcMethod → Live (ω × List Exchange) → List RpcServed
  | [], _ => []
  | method :: rest, s => (rpcServed up method s).1 :: rpcRun rest (rpcServed up method s).2

/-- One call goes around from the preferred endpoint, and leaves the one that answered as
the preferred one. -/
theorem rpcServed_failsOver (method : RpcMethod) {s : Live (ω × List Exchange)}
    (hgood : s.ex.rpc.active < s.ex.rpc.urls.length) :
    FailsOver s.ex.rpc.urls s.ex.rpc.active (rpcServed up method s).1 ∧
      (rpcServed up method s).2.ex.rpc =
        { s.ex.rpc with
          active := (rpcServed up method s).1.goodAfter s.ex.rpc.urls.length s.ex.rpc.active } ∧
      (rpcServed up method s).1.goodAfter s.ex.rpc.urls.length s.ex.rpc.active <
        s.ex.rpc.urls.length := by
  have hstart : ∀ i < s.ex.rpc.urls.length, min i (s.ex.rpc.urls.length - 1) = i := by
    intro i hi
    omega
  have hexec : (rpcCall up.recorded method).exec s =
      (rpcTry up.recorded method (inTurn s.ex.rpc.urls.length s.ex.rpc.active)
        (.transport ["rpc: no endpoints configured"])).exec s := by
    rw [rpcCall, exec_get_bind]
    dsimp only
    rw [hstart _ hgood]
    rfl
  have hnone : ∃ msg, Halt.transport ["rpc: no endpoints configured"] = .transport msg := ⟨_, rfl⟩
  obtain ⟨new, out, hlog, hattempts, hends⟩ := rpcTry_attempted up method
    (inTurn s.ex.rpc.urls.length s.ex.rpc.active) hnone s
  rw [← hexec] at hlog hends
  unfold rpcServed
  rcases hrun : (rpcCall up.recorded method).exec s with ⟨r, s'⟩
  rw [hrun] at hlog hends
  have hnew : (exchanges s').drop (exchanges s).length = new := by
    rw [show exchanges s' = exchanges s ++ new from hlog, List.drop_left]
  dsimp only
  rw [hnew]
  cases out with
  | none =>
      obtain ⟨⟨msg, rfl⟩, hrpc⟩ := hends
      have hsame : s'.ex.rpc = s.ex.rpc := hrpc
      rw [hsame, RpcClient.activeUrl, hstart _ hgood]
      exact ⟨hattempts.failsOver_of_none, rfl, hgood⟩
  | some answer =>
      obtain ⟨i, body⟩ := answer
      obtain ⟨rfl, hrpc⟩ := hends
      have hmoved : s'.ex.rpc = { s.ex.rpc with active := i } := hrpc
      have hurl : s'.ex.rpc.activeUrl = s.ex.rpc.urls.getD i "" := by
        rw [hmoved, RpcClient.activeUrl]
        dsimp only
        rw [hstart i hattempts.lt_of_some]
      rw [hurl, hmoved, hattempts.goodAfter_of_some]
      exact ⟨hattempts.failsOver_of_some, rfl, hattempts.lt_of_some⟩

theorem rpcRun_failsOver (methods : List RpcMethod) {s : Live (ω × List Exchange)}
    (hgood : s.ex.rpc.active < s.ex.rpc.urls.length) :
    FailoverRun s.ex.rpc.urls s.ex.rpc.active (rpcRun up methods s) := by
  induction methods generalizing s with
  | nil => trivial
  | cons method rest ih =>
      obtain ⟨hcall, hrpc, hafter⟩ := rpcServed_failsOver up method hgood
      have hlater := ih (s := (rpcServed up method s).2) (by rw [hrpc]; exact hafter)
      rw [hrpc] at hlater
      exact ⟨hcall, hlater⟩

/-- A client with any endpoints, at least a primary one, whatever they answer: its first
call starts at the primary one, and every later one at the last that answered. -/
theorem failsOver_run (primary : String) (fallbacks : List String) (ex : LiveExecutor)
    (clock : Instant) (outside : ω × List Exchange) (methods : List RpcMethod) :
    (RpcClient.withUrls (primary :: fallbacks)).activeUrl = primary ∧
      FailoverRun (primary :: fallbacks) 0
        (rpcRun up methods
          { ex := { ex with rpc := .withUrls (primary :: fallbacks) }
            clock := clock
            outside := outside }) :=
  ⟨rfl, rpcRun_failsOver up methods
    (s := ⟨{ ex with rpc := .withUrls (primary :: fallbacks) }, clock, outside⟩)
    (Nat.zero_lt_succ _)⟩

end Live

end HfmcBot
