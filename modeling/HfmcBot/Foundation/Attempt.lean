import Mathlib.Data.List.Basic

/-!
# Computations that may fail, over a state with a log

An `Attempt ε σ α` changes a state `σ` and ends with an `α` or an error `ε`; the
changes made before an error stay.  `Meets x R` says that every execution of `x`,
from any state, is related by `R` to its outcome and its last state.

Where the state carries a log that only grows, most relations speak about what
an execution appended to it: `Appends log P x`.

* `Meets.bind`: a specification of a sequence from those of its parts;
* `Keeps.bind`: the same for a part of the state that stays the same;
* `Appends.bind`: the same for what is appended;
* `Triple.bind`: the same for a condition before and a condition after.
-/

namespace HfmcBot
namespace Foundation

/-- A computation over the state `σ` that may end in an error `ε`. -/
abbrev Attempt (ε σ : Type) := ExceptT ε (StateM σ)

namespace Attempt

variable {ε σ α β γ : Type}

/-- The outcome from a state, and the state after it. -/
def exec (x : Attempt ε σ α) (s : σ) : Except ε α × σ := x.run.run s

theorem exec_pure (a : α) (s : σ) : (pure a : Attempt ε σ α).exec s = (.ok a, s) := rfl

theorem exec_ofExcept (r : Except ε α) (s : σ) :
    (ofExcept r : Attempt ε σ α).exec s = (r, s) := by
  cases r with
  | error e => rfl
  | ok a => rfl

/-- A computation given by its executions. -/
def of (f : σ → Except ε α × σ) : Attempt ε σ α := f

theorem exec_of (f : σ → Except ε α × σ) (s : σ) : (of f).exec s = f s := rfl

theorem exec_bind (x : Attempt ε σ α) (f : α → Attempt ε σ β) (s : σ) :
    (x >>= f).exec s =
      match x.exec s with
      | (.ok a, s') => (f a).exec s'
      | (.error e, s') => (.error e, s') := by
  simp only [exec, ExceptT.run_bind, StateT.run_bind]
  change (match x.run.run s with | (r, s') => _) = _
  rcases x.run.run s with ⟨e | a, s'⟩
  · rfl
  · rfl

theorem exec_bind_ok {x : Attempt ε σ α} {f : α → Attempt ε σ β} {s s' : σ} {a : α}
    (h : x.exec s = (.ok a, s')) : (x >>= f).exec s = (f a).exec s' := by
  rw [exec_bind, h]

theorem exec_bind_error {x : Attempt ε σ α} {f : α → Attempt ε σ β} {s s' : σ} {e : ε}
    (h : x.exec s = (.error e, s')) : (x >>= f).exec s = (.error e, s') := by
  rw [exec_bind, h]

theorem exec_get_bind (f : σ → Attempt ε σ α) (s : σ) : (get >>= f).exec s = (f s).exec s := rfl

/-- A sequence that gets through has got through its first part. -/
theorem exec_bind_eq_ok {x : Attempt ε σ α} {f : α → Attempt ε σ β} {s s' : σ} {b : β}
    (h : (x >>= f).exec s = (.ok b, s')) :
    ∃ a m, x.exec s = (.ok a, m) ∧ (f a).exec m = (.ok b, s') := by
  rw [exec_bind] at h
  rcases hrun : x.exec s with ⟨e | a, m⟩
  · rw [hrun] at h
    cases h
  · rw [hrun] at h
    exact ⟨a, m, rfl, h⟩

/-- A sequence that fails has failed in one of its parts. -/
theorem exec_bind_eq_error {x : Attempt ε σ α} {f : α → Attempt ε σ β} {s s' : σ} {e : ε}
    (h : (x >>= f).exec s = (.error e, s')) :
    x.exec s = (.error e, s') ∨ ∃ a m, x.exec s = (.ok a, m) ∧ (f a).exec m = (.error e, s') := by
  rw [exec_bind] at h
  rcases hrun : x.exec s with ⟨e' | a, m⟩
  · rw [hrun] at h
    cases h
    exact Or.inl rfl
  · rw [hrun] at h
    exact Or.inr ⟨a, m, rfl, h⟩

/-- A pure step leaves the state alone. -/
theorem exec_ofExcept_eq_ok {r : Except ε α} {s s' : σ} {a : α}
    (h : (ofExcept r : Attempt ε σ α).exec s = (.ok a, s')) : r = .ok a ∧ s = s' := by
  rw [exec_ofExcept] at h
  exact Prod.mk.inj h

/-- A pure step in front of the rest. -/
theorem exec_ofExcept_bind_eq_ok {r : Except ε α} {f : α → Attempt ε σ β} {s s' : σ} {b : β}
    (h : ((ofExcept r : Attempt ε σ α) >>= f).exec s = (.ok b, s')) :
    ∃ a, r = .ok a ∧ (f a).exec s = (.ok b, s') := by
  obtain ⟨a, m, hx, hrest⟩ := exec_bind_eq_ok h
  obtain ⟨hr, rfl⟩ := exec_ofExcept_eq_ok hx
  exact ⟨a, hr, hrest⟩

/-! ## Specifications -/

/-- Every execution of `x` is related by `R` to its outcome and its last state. -/
def Meets (x : Attempt ε σ α) (R : σ → Except ε α → σ → Prop) : Prop :=
  ∀ s, R s (x.exec s).1 (x.exec s).2

section Meets

variable {P R : σ → Except ε α → σ → Prop} {x : Attempt ε σ α}

theorem Meets.mono (h : Meets x P) (himp : ∀ s r s', P s r s' → R s r s') : Meets x R :=
  fun s => himp _ _ _ (h s)

/-- The rule of sequence: an error of the first part is the error of the whole,
and a value of it is handed on, with what the first part says about it. -/
theorem Meets.bind {Q : α → σ → Except ε β → σ → Prop} {S : σ → Except ε β → σ → Prop}
    {f : α → Attempt ε σ β} (hx : Meets x P)
    (hf : ∀ s a m, P s (.ok a) m → Meets (f a) (Q a))
    (herror : ∀ s e s', P s (.error e) s' → S s (.error e) s')
    (hok : ∀ s a m r s', P s (.ok a) m → Q a m r s' → S s r s') : Meets (x >>= f) S := by
  intro s
  have hfirst := hx s
  rw [exec_bind]
  rcases hrun : x.exec s with ⟨e | a, m⟩
  · rw [hrun] at hfirst
    exact herror s e m hfirst
  · rw [hrun] at hfirst
    exact hok s a m _ _ hfirst (hf s a m hfirst m)

end Meets

/-! ## What stays the same -/

/-- No execution of `x` changes this part of the state. -/
def Keeps {κ : Type} (part : σ → κ) (x : Attempt ε σ α) : Prop :=
  Meets x fun s _ s' => part s' = part s

section Keeps

variable {κ : Type} {part : σ → κ} {x : Attempt ε σ α}

theorem keeps_pure (a : α) : Keeps part (pure a : Attempt ε σ α) := fun _ => rfl

theorem keeps_throw (e : ε) : Keeps part (throw e : Attempt ε σ α) := fun _ => rfl

theorem keeps_ofExcept (r : Except ε α) : Keeps part (ofExcept r : Attempt ε σ α) := by
  intro s
  rw [exec_ofExcept]

theorem keeps_get_bind {f : σ → Attempt ε σ α} (h : ∀ s, Keeps part (f s)) :
    Keeps part (get >>= f) :=
  fun s => h s s

theorem keeps_modify {f : σ → σ} (h : ∀ s, part (f s) = part s) :
    Keeps part (modify f : Attempt ε σ Unit) := h

/-- What is read off a part that stays the same stays the same. -/
theorem Keeps.comp {ι : Type} (hx : Keeps part x) (g : κ → ι) :
    Keeps (fun s => g (part s)) x :=
  Meets.mono hx fun _ _ _ h => congrArg g h

theorem Keeps.bind {f : α → Attempt ε σ β} (hx : Keeps part x) (hf : ∀ a, Keeps part (f a)) :
    Keeps part (x >>= f) :=
  Meets.bind hx (fun _ a _ _ => hf a) (fun _ _ _ h => h) fun _ _ _ _ _ hm hlast => hlast.trans hm

end Keeps

/-! ## What is appended to a log -/

/-- Every execution of `x` appends to the log, and what it appends is related by
`P` to its outcome. -/
def Appends (log : σ → List γ) (P : List γ → Except ε α → Prop) (x : Attempt ε σ α) : Prop :=
  Meets x fun s r s' => ∃ new, log s' = log s ++ new ∧ P new r

section Appends

variable {log : σ → List γ} {P R : List γ → Except ε α → Prop} {x : Attempt ε σ α}

theorem Appends.mono (h : Appends log P x) (himp : ∀ new r, P new r → R new r) :
    Appends log R x :=
  Meets.mono h fun _ _ _ ⟨new, hlog, hP⟩ => ⟨new, hlog, himp new _ hP⟩

/-- What is appended is determined, so two facts about it hold together. -/
theorem Appends.and (hP : Appends log P x) (hR : Appends log R x) :
    Appends log (fun new r => P new r ∧ R new r) x := by
  intro s
  obtain ⟨new, hnew, hPnew⟩ := hP s
  obtain ⟨new', hnew', hRnew⟩ := hR s
  obtain rfl : new = new' := List.append_cancel_left (hnew.symm.trans hnew')
  exact ⟨new, hnew, hPnew, hRnew⟩

/-- A computation that leaves the state alone appends nothing. -/
theorem appends_of_silent (hsilent : ∀ s, (x.exec s).2 = s) (hP : ∀ s, P [] (x.exec s).1) :
    Appends log P x := by
  intro s
  refine ⟨[], ?_, hP s⟩
  rw [hsilent s, List.append_nil]

theorem appends_pure {a : α} (h : P [] (.ok a)) : Appends log P (pure a) :=
  appends_of_silent (fun _ => rfl) fun _ => h

theorem appends_throw {e : ε} (h : P [] (.error e)) : Appends log P (throw e) :=
  appends_of_silent (fun _ => rfl) fun _ => h

theorem appends_ofExcept {r : Except ε α} (h : P [] r) : Appends log P (ofExcept r) := by
  refine appends_of_silent (fun s => ?_) fun s => ?_
  · rw [exec_ofExcept]
  · rw [exec_ofExcept]
    exact h

/-- Reading the state appends nothing. -/
theorem appends_get_bind {f : σ → Attempt ε σ α} (h : ∀ s, Appends log P (f s)) :
    Appends log P (get >>= f) :=
  fun s => h s s

/-- A change of the state that leaves the log alone. -/
theorem appends_modify {R : List γ → Except ε Unit → Prop} {f : σ → σ}
    (hlog : ∀ s, log (f s) = log s) (hR : R [] (.ok ())) :
    Appends log R (modify f : Attempt ε σ Unit) := by
  intro s
  refine ⟨[], ?_, hR⟩
  rw [List.append_nil]
  exact hlog s

/-- The rule of sequence for logs. -/
theorem Appends.bind {Q : α → List γ → Except ε β → Prop} {S : List γ → Except ε β → Prop}
    {f : α → Attempt ε σ β} (hx : Appends log P x)
    (hf : ∀ a new, P new (.ok a) → Appends log (Q a) (f a))
    (herror : ∀ new e, P new (.error e) → S new (.error e))
    (hok : ∀ a new later r, P new (.ok a) → Q a later r → S (new ++ later) r) :
    Appends log S (x >>= f) := by
  refine Meets.bind hx (Q := fun a s r s' => ∃ later, log s' = log s ++ later ∧ Q a later r)
    ?_ ?_ ?_
  · rintro s a m ⟨new, -, hP⟩
    exact hf a new hP
  · rintro s e s' ⟨new, hlog, hP⟩
    exact ⟨new, hlog, herror new e hP⟩
  · rintro s a m r s' ⟨new, hlog, hP⟩ ⟨later, hlater, hQ⟩
    refine ⟨new ++ later, ?_, hok a new later r hP hQ⟩
    rw [hlater, hlog, List.append_assoc]

end Appends

/-! ## Pre- and postconditions -/

/-- From a state with `Pre`, `x` ends with a value and a state related by `Q`, or with an
error in a state with `E`. -/
def Triple (Pre : σ → Prop) (x : Attempt ε σ α) (Q : α → σ → Prop) (E : σ → Prop) : Prop :=
  ∀ s, Pre s →
    match x.exec s with
    | (.ok a, s') => Q a s'
    | (.error _, s') => E s'

section Triple

variable {Pre E : σ → Prop} {Q : α → σ → Prop} {R : β → σ → Prop} {x : Attempt ε σ α}

/-- The rule of consequence. -/
theorem Triple.mono {Pre' : σ → Prop} {Q' : α → σ → Prop} (h : Triple Pre x Q E)
    (hpre : ∀ s, Pre' s → Pre s) (hok : ∀ a s, Q a s → Q' a s) : Triple Pre' x Q' E := by
  intro s hs
  have hx := h s (hpre s hs)
  rcases hrun : x.exec s with ⟨e | a, s'⟩
  · rw [hrun] at hx
    exact hx
  · rw [hrun] at hx
    exact hok a s' hx

theorem Triple.bind {f : α → Attempt ε σ β} (hx : Triple Pre x Q E)
    (hf : ∀ a, Triple (Q a) (f a) R E) : Triple Pre (x >>= f) R E := by
  intro s hs
  have hfirst := hx s hs
  rw [exec_bind]
  rcases hrun : x.exec s with ⟨e | a, m⟩
  · rw [hrun] at hfirst
    exact hfirst
  · rw [hrun] at hfirst
    exact hf a m hfirst

theorem Triple.pure {a : α} (h : ∀ s, Pre s → Q a s) : Triple Pre (pure a : Attempt ε σ α) Q E :=
  h

theorem Triple.throw {e : ε} (h : ∀ s, Pre s → E s) :
    Triple Pre (throw e : Attempt ε σ α) Q E :=
  h

/-- A specification gives a triple wherever it implies one. -/
theorem Triple.of_meets {P : σ → Except ε α → σ → Prop} (hx : Meets x P)
    (hok : ∀ s a s', Pre s → P s (.ok a) s' → Q a s')
    (herror : ∀ s e s', Pre s → P s (.error e) s' → E s') : Triple Pre x Q E := by
  intro s hs
  have hmeets := hx s
  rcases hrun : x.exec s with ⟨e | a, s'⟩
  · rw [hrun] at hmeets
    exact herror s e s' hs hmeets
  · rw [hrun] at hmeets
    exact hok s a s' hs hmeets

end Triple

end Attempt

end Foundation
end HfmcBot
