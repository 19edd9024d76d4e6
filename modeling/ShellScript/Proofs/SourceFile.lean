/-
# ShellScript.Proofs.SourceFile -- a file reads as its text

The bytes of a text are decoded to that text again, character by character, and then every way
to end a line becomes a line feed.  So a text without carriage returns, its lines all ended in
one way, is read from a file as it is (`decode_content`), and what is done with the file is what
is done with the text (`file_reads_as_text`).

A carriage return alone is only taken for one if no line feed follows it.  Where lines end in
carriage returns alone there is no line feed to follow (`head?_write_carriageReturn`).
-/
import ShellScript.SourceFile

namespace ShellScript

set_option autoImplicit false

/-- The ways to end a line. -/
inductive LineEnd where
  | lineFeed
  | carriageReturn
  | both

namespace LineEnd

/-- The characters of an end of a line. -/
def chars : LineEnd → List Char
  | lineFeed => ['\n']
  | carriageReturn => ['\r']
  | both => ['\r', '\n']

/-- A text with all its lines ended in one way. -/
def write (e : LineEnd) (cs : List Char) : List Char :=
  cs.flatMap fun c => if c = '\n' then e.chars else [c]

/-- The bytes of a file that holds a text, its lines ended in one way, in UTF-8. -/
def content (e : LineEnd) (s : String) : ByteArray := (String.ofList (e.write s.toList)).toUTF8

variable (e : LineEnd)

theorem write_newline (cs : List Char) : e.write ('\n' :: cs) = e.chars ++ e.write cs := rfl

theorem write_cons {c : Char} (inner : c ≠ '\n') (cs : List Char) :
    e.write (c :: cs) = c :: e.write cs := by
  simp [write, inner]

/-- Lines ended by carriage returns leave no line feed. -/
theorem head?_write_carriageReturn (cs : List Char) :
    (carriageReturn.write cs).head? ≠ some '\n' := by
  cases cs with
  | nil => exact fun same => nomatch same
  | cons c cs =>
    by_cases newline : c = '\n'
    · subst newline
      exact fun same => absurd (Option.some.inj same) (by decide)
    · rw [write_cons _ newline, List.head?_cons]
      exact fun same => newline (Option.some.inj same)

end LineEnd

namespace SourceFile

theorem unifyLines_cons {c : Char} (plain : c ≠ '\r') (cs : List Char) :
    unifyLines (c :: cs) = c :: unifyLines cs := by
  rw [unifyLines]
  · exact fun _ same _ => plain same
  · exact fun same => plain same

theorem unifyLines_return {cs : List Char} (alone : cs.head? ≠ some '\n') :
    unifyLines ('\r' :: cs) = '\n' :: unifyLines cs := by
  rw [unifyLines]
  rintro ds rfl
  exact alone rfl

theorem unifyLines_write (e : LineEnd) {cs : List Char} (no_return : '\r' ∉ cs) :
    unifyLines (e.write cs) = cs := by
  induction cs with
  | nil => rfl
  | cons c cs ih =>
    obtain ⟨plain, no_others⟩ := not_or.1 (mt List.mem_cons.2 no_return)
    by_cases newline : c = '\n'
    · subst newline
      rw [e.write_newline]
      cases e with
      | lineFeed => exact (unifyLines_cons (by decide) _).trans (congrArg _ (ih no_others))
      | carriageReturn =>
        have alone := LineEnd.head?_write_carriageReturn cs
        exact (unifyLines_return alone).trans (congrArg _ (ih no_others))
      | both =>
        show unifyLines ('\r' :: '\n' :: LineEnd.both.write cs) = _
        rw [unifyLines, ih no_others]
    · rw [e.write_cons newline, unifyLines_cons (Ne.symm plain), ih no_others]

/-- The bytes of a text are decoded to the text. -/
theorem fromUTF8?_toUTF8 (s : String) : String.fromUTF8? s.toUTF8 = some s := by
  rw [String.fromUTF8?, String.toUTF8_eq_toByteArray, dif_pos s.isValidUTF8]
  rfl

/-- A text without carriage returns is read from a file as it is. -/
theorem decode_content (e : LineEnd) {s : String} (no_return : '\r' ∉ s.toList) :
    decode (e.content s) = .ok s := by
  rw [decode, LineEnd.content, fromUTF8?_toUTF8]
  show Except.ok (String.ofList (unifyLines (String.ofList (e.write s.toList)).toList)) = _
  rw [String.toList_ofList, unifyLines_write e no_return, String.ofList_toList]

end SourceFile

/-- **A file reads as its text.**  If a file holds a text without carriage returns in UTF-8, all
lines ended in one of the three ways, the tokens and the program of the file are those of the
text, and so are its errors. -/
theorem file_reads_as_text (e : LineEnd) (s : String) (strict : Bool)
    (no_return : '\r' ∉ s.toList) :
    tokenizeFile (some (e.content s)) strict = .ok (tokenize s strict) ∧
      parseFile (some (e.content s)) strict = .ok (parse s strict) := by
  have read : SourceFile.read (some (e.content s)) = .ok s :=
    SourceFile.decode_content e no_return
  constructor
  · rw [tokenizeFile, read]
    rfl
  · rw [parseFile, read]
    rfl

/-- Characters of one to four bytes, their lines ended by both characters. -/
theorem file_reads_as_text_wide :
    (LineEnd.both.content "é\n日\n😀").data =
        #[0xC3, 0xA9, 0x0D, 0x0A, 0xE6, 0x97, 0xA5, 0x0D, 0x0A, 0xF0, 0x9F, 0x98, 0x80] ∧
      '\r' ∉ "é\n日\n😀".toList ∧
      tokenizeFile (some (LineEnd.both.content "é\n日\n😀")) true = .ok (tokenize "é\n日\n😀" true) ∧
      parseFile (some (LineEnd.both.content "é\n日\n😀")) true = .ok (parse "é\n日\n😀" true) := by
  have no_return : '\r' ∉ "é\n日\n😀".toList := by decide
  exact ⟨by decide +kernel, no_return, file_reads_as_text .both "é\n日\n😀" true no_return⟩

end ShellScript
