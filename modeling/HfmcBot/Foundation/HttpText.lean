import HfmcBot.Foundation.Cursor

/-!
# The text of an HTTP response

A response with a status, a content type and a body whose length in bytes its head states, and
the reader of such a text.

* `HttpResponse.text`, `readResponse`: the two directions;
* `readResponse_text`: a response whose head holds no carriage return is read back.
-/

namespace HfmcBot
namespace Foundation

/-- A response that closes its connection. -/
structure HttpResponse where
  status : List Char
  contentType : List Char
  body : List Char

/-- The number of bytes of a text. -/
def byteLength (text : List Char) : Nat := (utf8Bytes (String.ofList text)).length

def crlf : List Char := ['\r', '\n']

def HttpResponse.text (r : HttpResponse) : List Char :=
  "HTTP/1.1 ".toList ++ r.status ++ crlf ++
    ("content-type: ".toList ++ r.contentType ++ crlf ++
      ("content-length: ".toList ++ (toString (byteLength r.body)).toList ++ crlf ++
        ("connection: close".toList ++ crlf ++ (crlf ++ r.body))))

/-- The part before the first line end, and the part after it. -/
def cutCrlf : List Char → Option (List Char × List Char)
  | [] => none
  | [_] => none
  | c :: d :: rest =>
      if c = '\r' ∧ d = '\n' then some ([], rest)
      else (cutCrlf (d :: rest)).map fun p => (c :: p.1, p.2)

/-- What follows a prefix. -/
def dropWord (word line : List Char) : Option (List Char) :=
  if word <+: line then some (line.drop word.length) else none

/-- Read a response: its head line by line, and as its body all the rest, which has to have
the stated length. -/
def readResponse (text : List Char) : Option HttpResponse := do
  let (statusLine, text) ← cutCrlf text
  let status ← dropWord "HTTP/1.1 ".toList statusLine
  let (typeLine, text) ← cutCrlf text
  let contentType ← dropWord "content-type: ".toList typeLine
  let (lengthLine, text) ← cutCrlf text
  let length ← dropWord "content-length: ".toList lengthLine
  let (_, text) ← cutCrlf text
  let (blank, body) ← cutCrlf text
  if blank = [] ∧ length = (toString (byteLength body)).toList then
    some ⟨status, contentType, body⟩
  else none

/-- A line without a carriage return is cut off at the line end behind it. -/
theorem cutCrlf_append {line : List Char} (h : '\r' ∉ line) (rest : List Char) :
    cutCrlf (line ++ crlf ++ rest) = some (line, rest) := by
  induction line with
  | nil => simp [cutCrlf, crlf]
  | cons c line ih =>
      have hc : c ≠ '\r' := fun heq => h (heq ▸ List.mem_cons_self)
      have hline : '\r' ∉ line := fun hmem => h (List.mem_cons_of_mem _ hmem)
      cases line with
      | nil =>
          have hrest := ih hline
          simp only [crlf, List.cons_append, List.nil_append] at hrest ⊢
          rw [cutCrlf, if_neg (fun hboth => hc hboth.1), hrest]
          rfl
      | cons d line =>
          have hrest := ih hline
          simp only [List.cons_append] at hrest ⊢
          rw [cutCrlf, if_neg (fun hboth => hc hboth.1), hrest]
          rfl

theorem dropWord_append (word line : List Char) : dropWord word (word ++ line) = some line := by
  rw [dropWord, if_pos (List.prefix_append _ _), List.drop_left]

theorem notMem_digits {c : Char} (hc : c.isDigit = false) (n : Nat) : c ∉ (toString n).toList := by
  intro hmem
  have hdigit := Nat.isDigit_of_mem_toDigits (by decide) (by decide) (Nat.toList_repr ▸ hmem)
  rw [hc] at hdigit
  cases hdigit

/-- A response is read back. -/
theorem readResponse_text {r : HttpResponse} (hstatus : '\r' ∉ r.status)
    (htype : '\r' ∉ r.contentType) : readResponse r.text = some r := by
  have hword : ∀ {word line : List Char}, '\r' ∉ word → '\r' ∉ line → '\r' ∉ word ++ line :=
    fun hword hline hmem => (List.mem_append.mp hmem).elim hword hline
  unfold readResponse HttpResponse.text
  rw [cutCrlf_append (hword (by decide) hstatus)]
  simp only [Option.bind_eq_bind, Option.bind_some]
  rw [dropWord_append, cutCrlf_append (hword (by decide) htype)]
  simp only [Option.bind_some]
  rw [dropWord_append, cutCrlf_append (hword (by decide) (notMem_digits (by decide) _))]
  simp only [Option.bind_some]
  rw [dropWord_append, cutCrlf_append (by decide)]
  simp only [Option.bind_some]
  have hblank := cutCrlf_append (List.not_mem_nil (a := '\r')) r.body
  rw [List.nil_append] at hblank
  rw [hblank]
  simp

end Foundation
end HfmcBot
