import Mathlib.Data.List.Induction

/-!
# Conditions on histories

A history is a list that grows at its end.  `EachAfter P` says that every entry
met `P` when it was made, given the entries before it; it is kept up one entry
at a time.

* `eachAfter_concat`: the condition on a history with one more entry;
* `concat_eq_split_iff`: where an entry of such a history is;
* `exists_split_of_notMem`: an entry that the later part does not hold is in the
  earlier one;
* `EachAfter.append`: two histories, one after the other;
* `given`: what the entries give, each after the entries before it.
-/

namespace HfmcBot
namespace Foundation

variable {α : Type}

/-- Every entry of the history meets `P`, given the entries before it. -/
def EachAfter (P : List α → α → Prop) (history : List α) : Prop :=
  ∀ before x after, history = before ++ x :: after → P before x

theorem eachAfter_nil (P : List α → α → Prop) : EachAfter P [] := by
  intro before x after hsplit
  exact absurd hsplit (by simp)

/-- An entry of a history is its last one or an earlier one. -/
theorem concat_eq_split_iff {history before after : List α} {y x : α} :
    history ++ [y] = before ++ x :: after ↔
      (history = before ∧ y = x ∧ after = []) ∨
        ∃ rest, history = before ++ x :: rest ∧ after = rest ++ [y] := by
  constructor
  · intro hsplit
    induction after using List.reverseRecOn with
    | nil =>
        obtain ⟨hhistory, hlast⟩ := List.append_inj' hsplit rfl
        exact Or.inl ⟨hhistory, List.singleton_inj.mp hlast, rfl⟩
    | append_singleton rest z _ =>
        rw [← List.cons_append, ← List.append_assoc] at hsplit
        obtain ⟨hhistory, hlast⟩ := List.append_inj' hsplit rfl
        rw [List.singleton_inj.mp hlast]
        exact Or.inr ⟨rest, hhistory, rfl⟩
  · rintro (⟨rfl, rfl, rfl⟩ | ⟨rest, rfl, rfl⟩)
    · rfl
    · rw [List.append_assoc, List.cons_append]

/-- An entry that is not in the second of two histories splits the first one. -/
theorem exists_split_of_notMem {first second before after : List α} {x : α}
    (h : first ++ second = before ++ x :: after) (hx : x ∉ second) :
    ∃ rest, first = before ++ x :: rest := by
  rcases List.append_eq_append_iff.mp h with ⟨mid, -, hsecond⟩ | ⟨mid, hfirst, hmid⟩
  · have hmem : x ∈ second := by
      rw [hsecond]
      simp
    exact absurd hmem hx
  · cases mid with
    | nil =>
        have hmem : x ∈ second := by
          rw [← List.nil_append second, ← hmid]
          simp
        exact absurd hmem hx
    | cons y rest =>
        obtain ⟨rfl, -⟩ := List.cons.inj hmid
        exact ⟨rest, hfirst⟩

theorem eachAfter_concat {P : List α → α → Prop} {history : List α} {y : α} :
    EachAfter P (history ++ [y]) ↔ EachAfter P history ∧ P history y := by
  constructor
  · intro h
    refine ⟨fun before x after hsplit => h before x (after ++ [y]) ?_, h history y [] rfl⟩
    exact concat_eq_split_iff.mpr (Or.inr ⟨after, hsplit, rfl⟩)
  · rintro ⟨hhistory, hlast⟩ before x after hsplit
    rcases concat_eq_split_iff.mp hsplit with ⟨rfl, rfl, -⟩ | ⟨rest, hrest, -⟩
    · exact hlast
    · exact hhistory before x rest hrest

/-- Entries that meet `P` after whatever came before may follow. -/
theorem EachAfter.append {P : List α → α → Prop} {history new : List α} (h : EachAfter P history)
    (hnew : ∀ x ∈ new, ∀ before, P before x) : EachAfter P (history ++ new) := by
  induction new using List.reverseRecOn with
  | nil => rwa [List.append_nil]
  | append_singleton new y ih =>
      rw [← List.append_assoc, eachAfter_concat]
      exact ⟨ih fun x hx => hnew x (List.mem_append_left _ hx), hnew y (by simp) _⟩

/-! ## What a history gives -/

section Given

variable {β : Type} (f : List α → α → List β)

/-- Every entry gives something, depending on the entries before it. -/
def givenFrom : List α → List α → List β
  | _, [] => []
  | before, x :: rest => f before x ++ givenFrom (before ++ [x]) rest

/-- All that a history gives, in its order. -/
def given (history : List α) : List β := givenFrom f [] history

theorem givenFrom_concat (before history : List α) (y : α) :
    givenFrom f before (history ++ [y]) = givenFrom f before history ++ f (before ++ history) y := by
  induction history generalizing before with
  | nil => simp [givenFrom]
  | cons x rest ih =>
      rw [List.cons_append, givenFrom, givenFrom, ih, List.append_assoc, List.append_assoc]
      rfl

theorem given_concat (history : List α) (y : α) :
    given f (history ++ [y]) = given f history ++ f history y :=
  givenFrom_concat f [] history y

/-- What is given comes from an entry. -/
theorem exists_of_mem_given {history : List α} {b : β} (h : b ∈ given f history) :
    ∃ before x after, history = before ++ x :: after ∧ b ∈ f before x := by
  induction history using List.reverseRecOn with
  | nil => cases h
  | append_singleton history y ih =>
      rw [given_concat] at h
      rcases List.mem_append.mp h with hearlier | hlast
      · obtain ⟨before, x, after, rfl, hb⟩ := ih hearlier
        exact ⟨before, x, after ++ [y], by simp, hb⟩
      · exact ⟨history, y, [], rfl, hlast⟩

end Given

end Foundation
end HfmcBot
