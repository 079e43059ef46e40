import Mathlib.Data.List.Infix
import Mathlib.Data.String.Basic

/-!
# Flat JSON records as text

The compact text of a record of scalars, with the escapes of the usual encoders,
and what a search for a quoted word finds in it.

* `escape`, `quoted`, `recordText`: the encoding;
* `Shows w text`: the word `w` in double quotes occurs in the text;
* `shows_record_iff`: a record shows a word of letters exactly if one of its keys
  or string values is the word, or ends in a quote followed by the word.
-/

namespace HfmcBot
namespace Foundation
namespace JsonText

/-! ## The encoding -/

/-- The escape of a control character, after the backslash. -/
def controlEscape (n : Nat) : List Char :=
  match n with
  | 8 => ['b']
  | 9 => ['t']
  | 10 => ['n']
  | 12 => ['f']
  | 13 => ['r']
  | n => ['u', '0', '0', Nat.digitChar (n / 16), Nat.digitChar (n % 16)]

def escapeChar (c : Char) : List Char :=
  if c = '"' then ['\\', '"']
  else if c = '\\' then ['\\', '\\']
  else if c.toNat < 32 then '\\' :: controlEscape c.toNat
  else [c]

def escape : List Char → List Char
  | [] => []
  | c :: s => escapeChar c ++ escape s

/-- A string literal. -/
def quoted (s : List Char) : List Char := '"' :: (escape s ++ ['"'])

/-- The values of a flat record. -/
inductive Scalar
  | null
  | bool (b : Bool)
  | num (n : Int)
  | str (s : String)

def Scalar.text : Scalar → List Char
  | .null => ['n', 'u', 'l', 'l']
  | .bool true => ['t', 'r', 'u', 'e']
  | .bool false => ['f', 'a', 'l', 's', 'e']
  | .num n => (toString n).toList
  | .str s => quoted s.toList

abbrev Field := String × Scalar

def fieldText (f : Field) : List Char := quoted f.1.toList ++ ':' :: f.2.text

/-- The members after the first, and the closing brace. -/
def tailText : List Field → List Char
  | [] => ['\x7d']
  | f :: rest => ',' :: (fieldText f ++ tailText rest)

def recordText : List Field → List Char
  | [] => ['\x7b', '\x7d']
  | f :: rest => '\x7b' :: (fieldText f ++ tailText rest)

/-! ## Characters -/

/-- Neither a quote nor a newline stands in the escape of a control character. -/
theorem controlEscape_clean : ∀ n < 32, '"' ∉ controlEscape n ∧ '\n' ∉ controlEscape n := by
  decide

theorem controlChar_not_alpha : ∀ n < 32, (Char.ofNat n).isAlpha = false := by
  decide

theorem isAlpha_of_control {c : Char} (h : c.toNat < 32) : c.isAlpha = false := by
  rw [← Char.ofNat_toNat c]
  exact controlChar_not_alpha c.toNat h

/-- Any character but the quote stands for itself, or its escape starts with a
backslash and holds no quote. -/
theorem escapeChar_cases {c : Char} (h : c ≠ '"') :
    (escapeChar c = [c] ∧ c ≠ '\\') ∨
      (c.isAlpha = false ∧ ∃ t, escapeChar c = '\\' :: t ∧ '"' ∉ t) := by
  unfold escapeChar
  rw [if_neg h]
  by_cases hslash : c = '\\'
  · right
    rw [if_pos hslash, hslash]
    exact ⟨rfl, ['\\'], rfl, by decide⟩
  · rw [if_neg hslash]
    by_cases hcontrol : c.toNat < 32
    · right
      rw [if_pos hcontrol]
      exact ⟨isAlpha_of_control hcontrol, _, rfl, (controlEscape_clean _ hcontrol).1⟩
    · left
      rw [if_neg hcontrol]
      exact ⟨rfl, hslash⟩

theorem notMem_escapeChar {c : Char} (h : c ≠ '"') : '"' ∉ escapeChar c := by
  rcases escapeChar_cases h with ⟨hself, -⟩ | ⟨-, t, hescape, ht⟩
  · rw [hself]
    simpa using h.symm
  · rw [hescape]
    simpa using ht

theorem newline_notMem_escapeChar (c : Char) : '\n' ∉ escapeChar c := by
  unfold escapeChar
  split
  · decide
  · split
    · decide
    · split
      · rename_i hcontrol
        simpa using (controlEscape_clean _ hcontrol).2
      · rename_i hcontrol
        intro hmem
        rw [List.mem_singleton] at hmem
        rw [← hmem] at hcontrol
        exact hcontrol (by decide)

theorem newline_notMem_escape (s : List Char) : '\n' ∉ escape s := by
  induction s with
  | nil => simp [escape]
  | cons c s ih => simp [escape, ih, newline_notMem_escapeChar]

theorem newline_notMem_quoted (s : List Char) : '\n' ∉ quoted s := by
  simp [quoted, newline_notMem_escape]

/-- A printed integer is made of digits and a sign. -/
theorem mem_intText {n : Int} {c : Char} (h : c ∈ (toString n).toList) :
    c.isDigit = true ∨ c = '-' := by
  have hnat : ∀ m : Nat, c ∈ (toString m).toList → c.isDigit = true := by
    intro m hm
    have hdigits : (toString m).toList = Nat.toDigits 10 m := by
      simp
    rw [hdigits] at hm
    exact Nat.isDigit_of_mem_toDigits (by decide) (by decide) hm
  cases n with
  | ofNat m => exact Or.inl (hnat m h)
  | negSucc m =>
      have hsplit : (toString (Int.negSucc m)).toList = '-' :: (toString (m + 1)).toList := by
        show ("-" ++ toString (m + 1)).toList = _
        simp
      rw [hsplit] at h
      rcases List.mem_cons.mp h with hsign | hdigit
      · exact Or.inr hsign
      · exact Or.inl (hnat (m + 1) hdigit)

theorem quote_notMem_intText (n : Int) : '"' ∉ (toString n).toList := by
  intro h
  rcases mem_intText h with hdigit | hsign
  · exact absurd hdigit (by decide)
  · exact absurd hsign (by decide)

theorem newline_notMem_intText (n : Int) : '\n' ∉ (toString n).toList := by
  intro h
  rcases mem_intText h with hdigit | hsign
  · exact absurd hdigit (by decide)
  · exact absurd hsign (by decide)

/-! ## Looking for a quoted word -/

/-- The word in double quotes. -/
def quotedWord (w : List Char) : List Char := '"' :: (w ++ ['"'])

/-- The quoted word occurs in the text. -/
abbrev Shows (w text : List Char) : Prop := quotedWord w <:+: text

/-- A string literal with this content shows the word: it is the word, or an inner
quote and the word end it. -/
def Hits (w s : List Char) : Prop := s = w ∨ ('"' :: w) <:+ s

/-- A word of letters. -/
def Letters (w : List Char) : Prop := ∀ c ∈ w, c.isAlpha = true

section Search

variable {w t : List Char} {c : Char}

theorem shows_cons_of_ne (h : c ≠ '"') : Shows w (c :: t) ↔ Shows w t := by
  rw [Shows, List.infix_cons_iff]
  constructor
  · rintro (hstart | hlater)
    · exact absurd (List.cons_prefix_cons.mp hstart).1.symm h
    · exact hlater
  · exact Or.inr

theorem shows_quote_cons : Shows w ('"' :: t) ↔ (w ++ ['"']) <+: t ∨ Shows w t := by
  rw [Shows, List.infix_cons_iff, quotedWord, List.cons_prefix_cons]
  constructor
  · intro h
    exact h.imp_left fun hstart => hstart.2
  · intro h
    exact h.imp_left fun hstart => ⟨rfl, hstart⟩

/-- A stretch without quotes shows nothing. -/
theorem shows_append_of_notMem {a : List Char} (h : '"' ∉ a) : Shows w (a ++ t) ↔ Shows w t := by
  induction a with
  | nil => rfl
  | cons c a ih =>
      rw [List.mem_cons, not_or] at h
      rw [List.cons_append, shows_cons_of_ne (fun hc => h.1 hc.symm), ih h.2]

/-- What a closing quote is followed by: neither a quote nor a letter. -/
structure Separator (c : Char) : Prop where
  not_quote : c ≠ '"'
  not_letter : c.isAlpha = false

/-- No word starts at a separator. -/
theorem Separator.not_prefix (hc : Separator c) (hw : Letters w) :
    ¬ (w ++ ['"']) <+: c :: t := by
  intro h
  cases w with
  | nil => exact hc.not_quote (List.cons_prefix_cons.mp h).1.symm
  | cons x w =>
      have hx : x = c := (List.cons_prefix_cons.mp h).1
      have halpha := hw x (by simp)
      rw [hx, hc.not_letter] at halpha
      exact absurd halpha Bool.false_ne_true

theorem separator_backslash : Separator '\\' where
  not_quote := by decide
  not_letter := by decide

/-- The word and the closing quote follow an opening quote exactly if the content
is the word. -/
theorem prefix_escape_iff (hw : Letters w) {s : List Char} :
    (w ++ ['"']) <+: escape s ++ '"' :: t ↔ s = w := by
  induction s generalizing w with
  | nil =>
      cases w with
      | nil => simp [escape]
      | cons x w =>
          have hx := hw x (by simp)
          constructor
          · intro h
            have hquote : x = '"' := (List.cons_prefix_cons.mp h).1
            rw [hquote] at hx
            exact absurd hx (by decide)
          · intro h
            exact absurd h (by simp)
  | cons c s ih =>
      by_cases hquote : c = '"'
      · -- an escaped quote: the literal goes on with a backslash
        subst hquote
        constructor
        · intro h
          exact absurd h (separator_backslash.not_prefix hw)
        · intro h
          have halpha := hw '"' (by simp [← h])
          exact absurd halpha (by decide)
      · rcases escapeChar_cases hquote with ⟨hself, hslash⟩ | ⟨hletter, t', hescape, -⟩
        · -- a character that stands for itself
          have hcons : escape (c :: s) = c :: escape s := by rw [escape, hself]; rfl
          rw [hcons]
          cases w with
          | nil =>
              constructor
              · intro h
                exact absurd (List.cons_prefix_cons.mp h).1.symm hquote
              · intro h
                exact absurd h (by simp)
          | cons x w =>
              have hw' : Letters w := fun y hy => hw y (List.mem_cons_of_mem _ hy)
              have hrest := ih (w := w) hw'
              rw [List.cons_append, List.cons_append, List.cons_prefix_cons, hrest, List.cons.injEq]
              exact and_congr_left fun _ => eq_comm
        · -- any other escape begins with a backslash, and none is for a letter
          have hcons : escape (c :: s) = '\\' :: (t' ++ escape s) := by
            rw [escape, hescape]
            rfl
          rw [hcons]
          constructor
          · intro h
            exact absurd h (separator_backslash.not_prefix hw)
          · intro h
            have halpha := hw c (by simp [← h])
            rw [hletter] at halpha
            exact absurd halpha Bool.false_ne_true

/-- Inside a literal the word shows exactly where an inner quote and the word end
the content. -/
theorem shows_escape_iff (hw : Letters w) {s : List Char} :
    Shows w (escape s ++ '"' :: t) ↔ ('"' :: w) <:+ s ∨ Shows w ('"' :: t) := by
  induction s with
  | nil => simp [escape]
  | cons c s ih =>
      rw [List.suffix_cons_iff]
      by_cases hquote : c = '"'
      · subst hquote
        have hslash : escape ('"' :: s) = '\\' :: '"' :: escape s := rfl
        rw [hslash, List.cons_append, List.cons_append, shows_cons_of_ne (by decide),
          shows_quote_cons, prefix_escape_iff hw, ih, List.cons.injEq]
        rw [or_assoc]
        apply or_congr_left
        constructor
        · intro h
          exact ⟨rfl, h.symm⟩
        · intro h
          exact h.2.symm
      · have hne : ¬ '"' :: w = c :: s := by
          intro h
          exact hquote (List.cons.inj h).1.symm
        rw [escape, List.append_assoc, shows_append_of_notMem (notMem_escapeChar hquote), ih]
        simp [hne]

/-- What a string literal shows, in front of a separator. -/
theorem shows_quoted_iff (hw : Letters w) {s : List Char} (hc : Separator c) :
    Shows w (quoted s ++ c :: t) ↔ Hits w s ∨ Shows w (c :: t) := by
  have htext : quoted s ++ c :: t = '"' :: (escape s ++ '"' :: c :: t) := by simp [quoted]
  rw [htext, shows_quote_cons, prefix_escape_iff hw, shows_escape_iff hw, shows_quote_cons,
    Hits, or_assoc]
  simp [hc.not_prefix hw]

/-- The value shows the word. -/
def Scalar.Hits (w : List Char) : Scalar → Prop
  | .str s => JsonText.Hits w s.toList
  | _ => False

theorem shows_scalar_iff (hw : Letters w) (hc : Separator c) (v : Scalar) :
    Shows w (v.text ++ c :: t) ↔ v.Hits w ∨ Shows w (c :: t) := by
  cases v with
  | null =>
      rw [shows_append_of_notMem (by decide)]
      simp [Scalar.Hits]
  | bool b =>
      have hplain : '"' ∉ (Scalar.bool b).text := by
        cases b with
        | true => decide
        | false => decide
      rw [shows_append_of_notMem hplain]
      simp [Scalar.Hits]
  | num n =>
      have hplain : '"' ∉ (Scalar.num n).text := quote_notMem_intText n
      rw [shows_append_of_notMem hplain]
      simp [Scalar.Hits]
  | str s => exact shows_quoted_iff hw hc

/-- A member shows the word. -/
def FieldHits (w : List Char) (f : Field) : Prop := Hits w f.1.toList ∨ f.2.Hits w

theorem shows_field_iff (hw : Letters w) (hc : Separator c) (f : Field) :
    Shows w (fieldText f ++ c :: t) ↔ FieldHits w f ∨ Shows w (c :: t) := by
  have hcolon : Separator ':' := ⟨by decide, by decide⟩
  have htext : fieldText f ++ c :: t = quoted f.1.toList ++ ':' :: (f.2.text ++ c :: t) := by
    simp [fieldText]
  rw [htext, shows_quoted_iff hw hcolon, shows_cons_of_ne hcolon.not_quote,
    shows_scalar_iff hw hc, FieldHits, or_assoc]

/-- The rest of a record starts with a separator. -/
theorem tailText_cons (fs : List Field) : ∃ c t, tailText fs = c :: t ∧ Separator c := by
  cases fs with
  | nil => exact ⟨_, _, rfl, by decide, by decide⟩
  | cons f rest => exact ⟨_, _, rfl, by decide, by decide⟩

theorem shows_tail_iff (hw : Letters w) (fs : List Field) :
    Shows w (tailText fs) ↔ ∃ f ∈ fs, FieldHits w f := by
  induction fs with
  | nil =>
      have hclose : ¬ Shows w ['\x7d'] := by
        rw [shows_cons_of_ne (by decide)]
        simp [Shows, quotedWord]
      simp [tailText, hclose]
  | cons f rest ih =>
      obtain ⟨c, t, htail, hc⟩ := tailText_cons rest
      rw [tailText, shows_cons_of_ne (by decide), htail, shows_field_iff hw hc, ← htail, ih]
      simp

/-- **What a record shows.** -/
theorem shows_record_iff (hw : Letters w) (fs : List Field) :
    Shows w (recordText fs) ↔ ∃ f ∈ fs, FieldHits w f := by
  cases fs with
  | nil =>
      have hclose : ¬ Shows w ['\x7b', '\x7d'] := by
        rw [shows_cons_of_ne (by decide), shows_cons_of_ne (by decide)]
        simp [Shows, quotedWord]
      simp [recordText, hclose]
  | cons f rest =>
      obtain ⟨c, t, htail, hc⟩ := tailText_cons rest
      rw [recordText, shows_cons_of_ne (by decide), htail, shows_field_iff hw hc, ← htail,
        shows_tail_iff hw]
      simp

end Search

/-! ## Records on one line -/

theorem newline_notMem_scalar (v : Scalar) : '\n' ∉ v.text := by
  cases v with
  | null => decide
  | bool b =>
      cases b with
      | true => decide
      | false => decide
  | num n => exact newline_notMem_intText n
  | str s => exact newline_notMem_quoted _

theorem newline_notMem_field (f : Field) : '\n' ∉ fieldText f := by
  simp [fieldText, newline_notMem_quoted, newline_notMem_scalar]

theorem newline_notMem_tail (fs : List Field) : '\n' ∉ tailText fs := by
  induction fs with
  | nil => decide
  | cons f rest ih => simp [tailText, newline_notMem_field, ih]

/-- A record is one line. -/
theorem newline_notMem_record (fs : List Field) : '\n' ∉ recordText fs := by
  cases fs with
  | nil => decide
  | cons f rest => simp [recordText, newline_notMem_field, newline_notMem_tail]

theorem tailText_getLast? (fs : List Field) : (tailText fs).getLast? = some '\x7d' := by
  induction fs with
  | nil => rfl
  | cons f rest ih =>
      rw [tailText, List.getLast?_cons, List.getLast?_append, ih]
      rfl

/-- A record ends with its brace. -/
theorem recordText_getLast? (fs : List Field) : (recordText fs).getLast? = some '\x7d' := by
  cases fs with
  | nil => rfl
  | cons f rest =>
      rw [recordText, List.getLast?_cons, List.getLast?_append, tailText_getLast?]
      rfl

end JsonText
end Foundation
end HfmcBot
