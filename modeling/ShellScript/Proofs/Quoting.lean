/-
# ShellScript.Proofs.Quoting -- what quoting writes, reading gives back

A text is put into quotes by protecting its marks and backslashes (`Text.protected`).  The
lexer reads what is written so as one token with that very text, wherever it stands and
whatever stands behind it: the closing mark is the first that nothing protects
(`Lexeme.inside_protected`).

Conversely a quoted string of any script, seen by the offsets of its own lexeme, is what such
writing can be (`Token.Quotes`): every mark in it is protected, and it says what is left
without the backslashes that protect.  The lexeme read on its own is read as it was in its
script (`Lexeme.inside_alone`), so the offsets of the script do not matter.
-/
import ShellScript.Proofs.Lexing.Munch
import ShellScript.Proofs.Lexing.Pieces
import ShellScript.Proofs.Lexing.Reread
import ShellScript.Scanner

namespace ShellScript

set_option autoImplicit false

open Lexing (protects spoken)

/-- A text in quotes: its marks and backslashes are protected inside. -/
def Text.enclosed (mark : Char) (cs : List Char) : List Char :=
  mark :: Text.protected mark cs ++ [mark]

example : Text.enclosed '"' ['a', '"', '\\', '\''] =
    ['"', 'a', '\\', '"', '\\', '\\', '\'', '"'] := by decide

/-- The token of a text in quotes that starts at `here`. -/
def Token.ofEnclosed (mark : Char) (cs : List Char) (here : Cursor) : Token :=
  let raw := Text.enclosed mark cs
  ⟨.quotedString, String.ofList cs, String.ofList raw, some (here.spanTo (here.advance raw))⟩

/-- A quoted string is its mark, `body`, and the mark again if the string is closed.  Every
mark in the body stands behind a backslash that protects it, the closing one does not; and
the text is the body without the backslashes that protect. -/
structure Token.Quotes (t : Token) (mark : Char) (body : List Char) (closed : Bool) : Prop where
  isQuote : Charset.isQuote mark = true
  lexeme : t.lexeme.toList = mark :: body ++ if closed then [mark] else []
  text : t.text.toList = spoken t.lexeme.toList 0 1 (body.length + 1)
  inner : ∀ n, body[n]? = some mark → protects t.lexeme.toList 0 n = true
  outer : closed = true → protects t.lexeme.toList 0 body.length = false

namespace Lexeme

variable {mark : Char}

theorem ne_backslash (isQuote : Charset.isQuote mark = true) : mark ≠ '\\' := by
  rintro rfl
  cases isQuote

/-- The inside of a quoted string is read alike without what stands behind it. -/
theorem inside_alone (other : mark ≠ '\\') (cs : List Char) :
    inside mark (inside mark cs).raw = { inside mark cs with rest := [] } := by
  cases closed : (inside mark cs).closed with
  | true => simpa using inside_again other closed []
  | false =>
    have last := rest_inside_of_open closed
    have split := inside_split mark cs
    rw [last, List.append_nil] at split
    rw [split]
    simp only [← last]

/-- A quoted string by the offsets of its lexeme. -/
theorem quotes_token (isQuote : Charset.isQuote mark = true) (cs : List Char) (here : Cursor) :
    ∃ body, ((quotedString mark cs).token here).Quotes mark body (inside mark cs).closed := by
  have other := ne_backslash isQuote
  obtain ⟨raw, raw_eq⟩ : ∃ raw, (inside mark cs).raw = raw := ⟨_, rfl⟩
  obtain ⟨n, first, text, ends, closed⟩ := Lexing.isFirst_inside other
    (show mark :: raw = [mark] ++ raw from rfl) (i := 0) (Nat.lt_succ_self 0) rfl
  rw [← raw_eq, inside_alone other, raw_eq] at text ends closed
  simp only [List.length_cons, List.length_nil] at first text ends closed
  obtain ⟨m, rfl⟩ : ∃ m, n = m + 1 := ⟨n - 1, by have := first.le; omega⟩
  have bound : m ≤ raw.length := Nat.le_of_succ_le_succ first.le_end
  have length : (raw.take m).length = m := List.length_take_of_le bound
  have lexeme : raw = raw.take m ++ if (inside mark cs).closed then [mark] else [] := by
    cases shut : (inside mark cs).closed with
    | true =>
      have stop := (first.at_stop (closed.1 shut)).1
      rw [shut, if_pos rfl] at ends
      rw [List.getElem?_cons_succ] at stop
      calc raw = raw.take (m + 1) := (List.take_of_length_le (by omega)).symm
        _ = raw.take m ++ [mark] := by rw [List.take_add_one, stop, Option.toList_some]
    | false =>
      rw [shut, if_neg Bool.false_ne_true] at ends
      rw [if_neg Bool.false_ne_true, List.append_nil, List.take_of_length_le (by omega)]
  refine ⟨raw.take m, isQuote, ?_, ?_, fun k found => ?_, fun shut => ?_⟩
  all_goals simp only [token, quotedString, String.toList_ofList, raw_eq, length]
  · exact congrArg (mark :: ·) lexeme
  · exact text
  · obtain ⟨below, -⟩ := List.getElem?_eq_some_iff.1 found
    rw [length] at below
    rw [List.getElem?_take_of_lt below] at found
    simpa [found] using first.before (k + 1) (by omega) (by omega)
  · exact (first.at_stop (closed.1 shut)).2

theorem quotedString_of_kind {c : Char} {cs : List Char} (kind : (read c cs).kind = .quotedString) :
    Charset.isQuote c = true ∧ read c cs = quotedString c cs := by
  have cases := kind_read_cases c cs
  rw [kind] at cases
  simpa [Kind.isOperator, Kind.isKeyword, Kind.operators, Kind.doubleOperators, Kind.keywords]
    using cases

/-- A text in quotes is one lexeme, which says that text. -/
theorem read_enclosed (isQuote : Charset.isQuote mark = true) (cs rest : List Char) :
    ∃ ds, Text.enclosed mark cs ++ rest = mark :: ds ∧
      read mark ds = ⟨.quotedString, cs, Text.enclosed mark cs, rest, none⟩ := by
  have quoted (ds : List Char) : read mark ds = quotedString mark ds := by
    have which : mark = '"' ∨ mark = '\'' := by simpa [Charset.isQuote] using isQuote
    rcases which with rfl | rfl <;> rfl
  refine ⟨Text.protected mark cs ++ mark :: rest, by simp [Text.enclosed], ?_⟩
  rw [quoted, quotedString, Lexing.inside_protected (ne_backslash isQuote)]
  rfl

end Lexeme

namespace Lexing

/-- A run reads a text in quotes as one token, with nothing to warn of, and goes on behind it. -/
theorem run_enclosed {mark : Char} (isQuote : Charset.isQuote mark = true) (strict : Bool)
    (here : Cursor) (cs rest : List Char) :
    run strict here (Text.enclosed mark cs ++ rest) =
      (run strict (here.advance (Text.enclosed mark cs)) rest).push
        (Token.ofEnclosed mark cs here) := by
  have solid : Charset.isBlank mark = false := by
    have which : mark = '"' ∨ mark = '\'' := by simpa [Charset.isQuote] using isQuote
    rcases which with rfl | rfl <;> rfl
  obtain ⟨ds, split, found⟩ := Lexeme.read_enclosed isQuote cs rest
  rw [split, run_closed strict solid (by rw [found]), found]
  rfl

/-- A quoted string among the tokens of a script, and what is reported of it if it is left
open. -/
theorem exists_quotes {source : String} {t : Token} (member : t ∈ (ofScript source false).tokens)
    (kind : t.kind = .quotedString) :
    ∃ mark body closed, t.Quotes mark body closed ∧
      (closed = false → t.stop = source.toList.length ∧
        ∃ d ∈ (ofScript source false).warnings, d.code = some "L002" ∧ d.position = t.position) := by
  rcases read_of_mem_tokens .start source.toList member with
    rfl | ⟨passed, mark, rest, split, -, rfl, reported⟩
  · cases kind
  obtain ⟨isQuote, quoted⟩ := Lexeme.quotedString_of_kind kind
  obtain ⟨body, quotes⟩ := Lexeme.quotes_token isQuote rest (Cursor.start.advance passed)
  rw [← quoted] at quotes
  refine ⟨mark, body, _, quotes, fun left_open => ?_⟩
  have unclosed : (Lexeme.read mark rest).unclosed = some (.quote mark.toString) := by
    simp [quoted, Lexeme.quotedString, left_open]
  refine ⟨?_, _, reported _ unclosed, rfl, rfl⟩
  have whole := Lexeme.read_split mark rest
  rw [Lexeme.rest_eq_nil_of_unclosed unclosed, List.append_nil] at whole
  rw [(spans_token _ _).stop_eq, whole, split, List.length_append, Cursor.offset_advance]
  exact congrArg (· + _) (Nat.zero_add _)

end Lexing

/-- **What quoting writes, reading gives back**, and what is read as a quoted string is written
so.  Any text in quotes of either sort, in front of any other, is one token with that text and
that spelling: neither is there anything to warn of in it, nor does strict work fail there, be
it in a run over the script or at a single request.

A quoted string of a script is its mark, an inside, and the mark again, unless the script ends
there and the lexer warned of it.  The marks inside are protected and the closing one is not;
the text is the inside without the backslashes that protect. -/
theorem quoting_round_trips :
    (∀ (mark : Char) (text rest : List Char), Charset.isQuote mark = true →
      (∀ (strict : Bool) (here : Cursor),
        Lexing.run strict here (Text.enclosed mark text ++ rest) =
          (Lexing.run strict (here.advance (Text.enclosed mark text)) rest).push
            (Token.ofEnclosed mark text here)) ∧
      ∀ s : Scanner, s.remaining = Text.enclosed mark text ++ rest →
        s.next = (.ok (Token.ofEnclosed mark text s.cursor), s.pass (Text.enclosed mark text))) ∧
    ∀ (source : String), ∀ t ∈ (Lexing.ofScript source false).tokens, t.kind = .quotedString →
      ∃ mark body closed, t.Quotes mark body closed ∧
        (closed = false → t.stop = source.toList.length ∧
          ∃ d ∈ (Lexing.ofScript source false).warnings,
            d.code = some "L002" ∧ d.position = t.position) := by
  refine ⟨fun mark text rest isQuote => ⟨fun strict here => ?_, fun s ahead => ?_⟩, ?_⟩
  · exact Lexing.run_enclosed isQuote strict here text rest
  · obtain ⟨ds, split, found⟩ := Lexeme.read_enclosed isQuote text rest
    simp only [Scanner.next, ahead, split, found]
    rfl
  · exact fun source t member kind => Lexing.exists_quotes member kind

end ShellScript
