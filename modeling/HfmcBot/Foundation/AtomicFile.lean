import HfmcBot.Foundation.Runs
import Mathlib.Logic.Function.Basic

/-!
# Replacing a file in one step

Any number of writers replace one target file.  Each writes a whole document into a
scratch file of its own, piece by piece, and then renames it over the target.  A writer
may be told of an error or go down between any two calls.

* `Replacing.act`: one call of one writer, with `Replacing.replaced` the documents renamed
  so far;
* `Sound`: a scratch file holds what its writer has written, and the target what was
  renamed last;
* `sound_run`, `replaced_subset`: so after any interleaving the target is what it was at
  the start or a whole document that some writer set out to put there.
-/

namespace HfmcBot
namespace Foundation

variable {ν π β : Type}

/-- The names of the files: the target, and a scratch file for each writer. -/
structure Layout (ν π : Type) where
  target : ν
  scratch : π → ν
  apart : ∀ p, scratch p ≠ target
  own : Function.Injective scratch

/-- A writer: idle, or between the creation of its scratch file and the rename. -/
inductive Writer (β : Type)
  | idle
  | writing (written rest : List β)

/-- The files, the writers, and the documents renamed so far, oldest first. -/
structure Replacing (ν π β : Type) where
  disk : ν → Option (List β)
  writer : π → Writer β
  replaced : List (List β)

/-- A call of a writer.  `fails` is any call that is answered with an error, `stops` the
end of the process. -/
inductive FileCall (β : Type)
  | creates (doc : List β)
  | writes (n : Nat)
  | renames
  | fails
  | stops

namespace Replacing

variable [DecidableEq ν] [DecidableEq π]

/-- Nobody writes. -/
def start (disk : ν → Option (List β)) : Replacing ν π β := ⟨disk, fun _ => .idle, []⟩

/-- One call of one writer.  A call that is out of turn does nothing. -/
def act (L : Layout ν π) (w : Replacing ν π β) (p : π) : FileCall β → Replacing ν π β
  | .creates doc =>
      match w.writer p with
      | .idle =>
          { w with
            disk := Function.update w.disk (L.scratch p) (some [])
            writer := Function.update w.writer p (.writing [] doc) }
      | .writing _ _ => w
  | .writes n =>
      match w.writer p with
      | .idle => w
      | .writing written rest =>
          { w with
            disk := Function.update w.disk (L.scratch p) (some (written ++ rest.take n))
            writer := Function.update w.writer p (.writing (written ++ rest.take n) (rest.drop n)) }
  | .renames =>
      match w.writer p with
      | .writing written [] =>
          { disk := Function.update (Function.update w.disk L.target (w.disk (L.scratch p)))
              (L.scratch p) none
            writer := Function.update w.writer p .idle
            replaced := w.replaced ++ [written] }
      | _ => w
  | .fails => { w with writer := Function.update w.writer p .idle }
  | .stops => { w with writer := Function.update w.writer p .idle }

/-- The calls of all writers, in any order. -/
def run (L : Layout ν π) (w : Replacing ν π β) (calls : List (π × FileCall β)) :
    Replacing ν π β :=
  calls.foldl (fun w call => w.act L call.1 call.2) w

/-- What one call does. -/
theorem act_cases (L : Layout ν π) (w : Replacing ν π β) (p : π) (call : FileCall β) :
    w.act L p call = w ∨
      (∃ doc, call = .creates doc ∧ w.writer p = .idle ∧ w.act L p call =
        { w with
          disk := Function.update w.disk (L.scratch p) (some [])
          writer := Function.update w.writer p (.writing [] doc) }) ∨
      (∃ written more rest, w.writer p = .writing written (more ++ rest) ∧ w.act L p call =
        { w with
          disk := Function.update w.disk (L.scratch p) (some (written ++ more))
          writer := Function.update w.writer p (.writing (written ++ more) rest) }) ∨
      (∃ written, call = .renames ∧ w.writer p = .writing written [] ∧ w.act L p call =
        { disk := Function.update (Function.update w.disk L.target (w.disk (L.scratch p)))
            (L.scratch p) none
          writer := Function.update w.writer p .idle
          replaced := w.replaced ++ [written] }) ∨
      w.act L p call = { w with writer := Function.update w.writer p .idle } := by
  cases call with
  | creates doc =>
      dsimp only [act]
      split
      · rename_i hidle
        exact Or.inr (Or.inl ⟨doc, rfl, hidle, rfl⟩)
      · exact Or.inl rfl
  | writes n =>
      dsimp only [act]
      split
      · exact Or.inl rfl
      · rename_i written rest hwriting
        refine Or.inr (Or.inr (Or.inl ⟨written, rest.take n, rest.drop n, ?_, rfl⟩))
        rw [hwriting, List.take_append_drop]
  | renames =>
      dsimp only [act]
      split
      · rename_i written hwriting
        exact Or.inr (Or.inr (Or.inr (Or.inl ⟨written, rfl, hwriting, rfl⟩)))
      · exact Or.inl rfl
  | fails => exact Or.inr (Or.inr (Or.inr (Or.inr rfl)))
  | stops => exact Or.inr (Or.inr (Or.inr (Or.inr rfl)))

end Replacing

/-- Every scratch file in use holds what its writer has written, and the target holds the
document renamed last, or what was there at the start. -/
structure Sound (L : Layout ν π) (initial : Option (List β)) (w : Replacing ν π β) : Prop where
  target : w.disk L.target = w.replaced.getLast?.or initial
  scratch : ∀ p written rest, w.writer p = .writing written rest →
    w.disk (L.scratch p) = some written

theorem sound_start {L : Layout ν π} (disk : ν → Option (List β)) :
    Sound L (disk L.target) (Replacing.start disk : Replacing ν π β) where
  target := rfl
  scratch p written rest h := by cases h

section Sound

variable [DecidableEq ν] [DecidableEq π] {L : Layout ν π} {initial : Option (List β)}
  {w : Replacing ν π β}

omit [DecidableEq ν] in
/-- A writer that goes idle takes nothing with it. -/
theorem Sound.idle (h : Sound L initial w) (p : π) :
    Sound L initial { w with writer := Function.update w.writer p .idle } where
  target := h.target
  scratch q written rest hq := by
    by_cases hp : q = p
    · subst hp
      simp at hq
    · refine h.scratch q written rest ?_
      simpa [Function.update_of_ne hp] using hq

/-- A writer may write into its own scratch file. -/
theorem Sound.write (h : Sound L initial w) (p : π) (written rest : List β) :
    Sound L initial
      { w with
        disk := Function.update w.disk (L.scratch p) (some written)
        writer := Function.update w.writer p (.writing written rest) } where
  target := by
    show Function.update w.disk (L.scratch p) (some written) L.target = _
    rw [Function.update_of_ne (L.apart p).symm]
    exact h.target
  scratch q written' rest' hq := by
    show Function.update w.disk (L.scratch p) (some written) (L.scratch q) = _
    by_cases hp : q = p
    · subst hp
      simp only [Function.update_self, Writer.writing.injEq] at hq
      rw [Function.update_self, hq.1]
    · -- no other writer has this scratch file
      rw [Function.update_of_ne (L.own.ne hp)]
      refine h.scratch q written' rest' ?_
      simpa [Function.update_of_ne hp] using hq

/-- A rename puts the whole document in place and touches no other writer. -/
theorem Sound.rename (h : Sound L initial w) {p : π} {written : List β}
    (hwriting : w.writer p = .writing written []) :
    Sound L initial
      { disk := Function.update (Function.update w.disk L.target (w.disk (L.scratch p)))
          (L.scratch p) none
        writer := Function.update w.writer p .idle
        replaced := w.replaced ++ [written] } where
  target := by
    show Function.update (Function.update w.disk L.target _) (L.scratch p) none L.target = _
    -- the writer has nothing left to write, so its scratch file holds the whole document
    rw [Function.update_of_ne (L.apart p).symm, Function.update_self,
      h.scratch p written [] hwriting]
    simp
  scratch q written' rest' hq := by
    show Function.update (Function.update w.disk L.target _) (L.scratch p) none (L.scratch q) = _
    by_cases hp : q = p
    · subst hp
      simp at hq
    · rw [Function.update_of_ne (L.own.ne hp), Function.update_of_ne (L.apart q)]
      refine h.scratch q written' rest' ?_
      simpa [Function.update_of_ne hp] using hq

theorem Sound.act (h : Sound L initial w) (p : π) (call : FileCall β) :
    Sound L initial (w.act L p call) := by
  rcases w.act_cases L p call with
    hact | ⟨doc, -, -, hact⟩ | ⟨written, more, rest, -, hact⟩ | ⟨written, -, hwriting, hact⟩ | hact
  · rw [hact]
    exact h
  · rw [hact]
    exact h.write p [] doc
  · rw [hact]
    exact h.write p (written ++ more) rest
  · rw [hact]
    exact h.rename hwriting
  · rw [hact]
    exact h.idle p

theorem sound_run (L : Layout ν π) (disk : ν → Option (List β))
    (calls : List (π × FileCall β)) :
    Sound L (disk L.target) ((Replacing.start disk).run L calls) :=
  run_invariant (P := Sound L (disk L.target)) (fun _ call h => h.act call.1 call.2)
    (sound_start disk) calls

/-- The documents that writers set out to put in place. -/
def created (calls : List (π × FileCall β)) : List (List β) :=
  calls.filterMap fun call =>
    match call.2 with
    | .creates doc => some doc
    | _ => none

/-- What is written and what is still to be written make up one of the documents, and
only such documents are renamed. -/
def FromDocs (docs : List (List β)) (w : Replacing ν π β) : Prop :=
  (∀ p written rest, w.writer p = .writing written rest → written ++ rest ∈ docs) ∧
    ∀ doc ∈ w.replaced, doc ∈ docs

theorem FromDocs.act {docs : List (List β)} (h : FromDocs docs w) (p : π) {call : FileCall β}
    (hcall : ∀ doc, call = .creates doc → doc ∈ docs) : FromDocs docs (w.act L p call) := by
  obtain ⟨hwriting, hreplaced⟩ := h
  have hother : ∀ (next : Writer β) q written rest, q ≠ p →
      Function.update w.writer p next q = .writing written rest → written ++ rest ∈ docs := by
    intro next q written rest hp hq
    exact hwriting q written rest (by simpa [Function.update_of_ne hp] using hq)
  have hidle : ∀ q written rest, Function.update w.writer p .idle q = .writing written rest →
      written ++ rest ∈ docs := by
    intro q written rest hq
    by_cases hp : q = p
    · subst hp
      simp at hq
    · exact hother _ q written rest hp hq
  rcases w.act_cases L p call with
    hact | ⟨doc, hdoc, -, hact⟩ | ⟨written, more, rest, hw, hact⟩ | ⟨written, -, hw, hact⟩ | hact
  · rw [hact]
    exact ⟨hwriting, hreplaced⟩
  · rw [hact]
    refine ⟨fun q written rest hq => ?_, hreplaced⟩
    by_cases hp : q = p
    · subst hp
      simp only [Function.update_self, Writer.writing.injEq] at hq
      rw [← hq.1, ← hq.2]
      exact hcall doc hdoc
    · exact hother _ q written rest hp hq
  · rw [hact]
    refine ⟨fun q written' rest' hq => ?_, hreplaced⟩
    by_cases hp : q = p
    · subst hp
      simp only [Function.update_self, Writer.writing.injEq] at hq
      rw [← hq.1, ← hq.2, List.append_assoc]
      exact hwriting q written (more ++ rest) hw
    · exact hother _ q written' rest' hp hq
  · rw [hact]
    refine ⟨hidle, fun doc hdoc => ?_⟩
    rcases List.mem_append.mp hdoc with hold | hnew
    · exact hreplaced doc hold
    · rw [List.mem_singleton.mp hnew, ← List.append_nil written]
      exact hwriting p written [] hw
  · rw [hact]
    exact ⟨hidle, hreplaced⟩

/-- Only whole documents are renamed. -/
theorem replaced_subset (L : Layout ν π) (disk : ν → Option (List β))
    (calls : List (π × FileCall β)) :
    ∀ doc ∈ ((Replacing.start disk).run L calls).replaced, doc ∈ created calls := by
  -- by induction on the calls so far: a document is created before it is renamed
  have hrun : ∀ pre, pre <+: calls →
      FromDocs (created calls) ((Replacing.start disk : Replacing ν π β).run L pre) := by
    intro pre
    induction pre using List.reverseRecOn with
    | nil => exact fun _ => ⟨fun p written rest h => (by cases h), fun doc h => (by cases h)⟩
    | append_singleton pre last ih =>
        intro hpre
        have hbefore := ih ((List.prefix_append pre [last]).trans hpre)
        rw [Replacing.run, List.foldl_append]
        refine hbefore.act last.1 fun doc hdoc => ?_
        have hmem : last ∈ calls := hpre.subset (by simp)
        exact List.mem_filterMap.mpr ⟨last, hmem, by rw [hdoc]⟩
  exact (hrun calls (List.prefix_refl calls)).2

end Sound

end Foundation
end HfmcBot
