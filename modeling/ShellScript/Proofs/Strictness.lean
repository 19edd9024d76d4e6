/-
# ShellScript.Proofs.Strictness -- what strict work changes

A delimiter left open takes the rest of its script (`Lexeme.rest_eq_nil_of_unclosed`), so
a run comes upon at most one, and upon nothing behind it (`Lexing.run_open`).  There the
lenient run warns and the strict one fails, with one report in two severities.  Without an
open delimiter strict work changes nothing (`Scanner.tokenize_strict`, `Parser.parse_strict`):
neither requests nor reports look at the strictness of who makes them.
-/
import ShellScript.Proofs.Parse.Script
import ShellScript.Scanner

namespace ShellScript

set_option autoImplicit false

/-! ## The run over the text -/

namespace Lexing

/-- A run that warns does so once, of the token in front of the end mark, which takes the
rest of the text; the strict run over that text fails there. -/
theorem run_open (here : Cursor) (cs : List Char) (warns : (run false here cs).warnings ≠ []) :
    ∃ delimiter ts t, (run false here cs).tokens = ts ++ [t, Token.endMark (here.advance cs)] ∧
      t.stop = here.offset + cs.length ∧
      (run false here cs).warnings = [Unclosed.report Diagnostic.warning t.position delimiter] ∧
      (run true here cs).failure =
        some (Unclosed.report Diagnostic.error t.position delimiter) := by
  induction here, cs using run_induction with
  | stop here => simp at warns
  | blank here c cs blank ih =>
    rw [run_blank false blank] at warns ⊢
    obtain ⟨delimiter, ts, t, tokens, stop, rest⟩ := ih warns
    refine ⟨delimiter, ts, t, tokens, ?_, by rwa [run_blank true blank]⟩
    rw [stop, Cursor.offset_step, List.length_cons]
    omega
  | lexeme here c cs solid ih =>
    have split := Lexeme.read_split c cs
    have length : (Lexeme.read c cs).raw.length + (Lexeme.read c cs).rest.length =
        (c :: cs).length := by
      rw [← List.length_append, split]
    rw [tokens_run_lexeme solid, warnings_run_lexeme solid]
    cases unclosed : (Lexeme.read c cs).unclosed with
    | none =>
      rw [run_closed false solid unclosed] at warns
      obtain ⟨delimiter, ts, t, tokens, stop, warning, failure⟩ := ih warns
      refine ⟨delimiter, (Lexeme.read c cs).token here :: ts, t, ?_, ?_, ?_, ?_⟩
      · rw [tokens, ← Cursor.advance_append, split]
        rfl
      · rw [stop, Cursor.offset_advance]
        omega
      · rw [warning]
        rfl
      · rw [run_closed true solid unclosed]
        exact failure
    | some delimiter =>
      -- Nothing is left behind the lexeme, so the run over what is left is its end mark.
      have last := Lexeme.rest_eq_nil_of_unclosed unclosed
      rw [last, List.append_nil] at split
      rw [last, List.length_nil] at length
      refine ⟨delimiter, [], (Lexeme.read c cs).token here, ?_, ?_, ?_, ?_⟩
      · rw [last, run_nil, split]
        rfl
      · rw [(spans_token _ here).stop_eq]
        omega
      · rw [last, run_nil]
        rfl
      · rw [run]
        simp [solid, unclosed]

end Lexing

/-! ## Requests -/

variable {source : String}

/-- A scanner finds the same tokens in strict work. -/
theorem Scanner.tokenize_strict (quiet : (Lexing.ofScript source false).warnings = []) :
    (Scanner.ofScript source true).tokenize =
      ((Scanner.ofScript source false).tokenize.1,
        { (Scanner.ofScript source false).tokenize.2 with strict := true }) := by
  have same : Lexing.ofScript source true = Lexing.ofScript source false :=
    Lexing.run_eq_lenient true _ _ quiet
  have closed : (Lexing.ofScript source false).failure = none := Lexing.failure_run_lenient _ _
  simp [Scanner.tokenize, Scanner.ofScript, same, closed]

namespace Parser

theorem step_strict {α : Type} (p : Parser) (piece : Parse α) (strict : Bool) :
    { p with strict := strict }.step piece =
      ((p.step piece).1, { (p.step piece).2 with strict := strict }) := by
  have window : { p with strict := strict }.window = p.window := rfl
  simp only [step, window]
  cases piece p.window <;> rfl

/-- The strictness of a parser says nothing about how it goes through its tokens. -/
theorem parseTokens_strict (p : Parser) (strict : Bool) :
    { p with strict := strict }.parseTokens =
      (p.parseTokens.1, { p.parseTokens.2 with strict := strict }) := by
  have body : { p with strict := strict }.stepBody =
      (p.stepBody.1, { p.stepBody.2 with strict := strict }) := rfl
  rcases read : p.stepBody with ⟨e | ss, q⟩
  · simp [parseTokens, body, read]
  · simp only [parseTokens, body, read]
    exact step_strict q (program ss q.tokens) strict

/-- A parser gives the same answer in strict work, and holds the same. -/
theorem parse_strict (quiet : (Lexing.ofScript source false).warnings = []) :
    (ofSource (.text source) true).parse =
      ((ofSource (.text source) false).parse.1,
        { (ofSource (.text source) false).parse.2 with strict := true }) := by
  have same : Lexing.ofScript source true = Lexing.ofScript source false :=
    Lexing.run_eq_lenient true _ _ quiet
  have closed : (Lexing.ofScript source false).failure = none := Lexing.failure_run_lenient _ _
  have loaded : loaded source true = { loaded source false with strict := true } := by
    simp [Parser.loaded, same]
  rw [parse_of_closed (same ▸ closed), parse_of_closed closed, loaded, parseTokens_strict]
  rcases (Parser.loaded source false).parseTokens with ⟨e | p, q⟩ <;> rfl

end Parser

/-- **Strict work differs at an open delimiter only.**  A lenient scanner has tokens for
every script.  Either it warns of nothing: then a strict scanner and a strict parser give
the same answers as lenient ones, and hold the same.  Or it warns once, of the token that
stands in front of the end mark and ends where the script ends: then a strict scanner and a
strict parser fail with that very report as an error, whatever else the script holds, and
the parser is left with nothing. -/
theorem strict_eq_lenient_or_unclosed (source : String) :
    ∃ tokens, (Scanner.ofScript source false).tokenize.1 = .ok tokens ∧
      (((Scanner.ofScript source false).tokenize.2.warnings = [] ∧
          (Scanner.ofScript source true).tokenize =
            (.ok tokens, { (Scanner.ofScript source false).tokenize.2 with strict := true }) ∧
          (Parser.ofSource (.text source) true).parse =
            ((Parser.ofSource (.text source) false).parse.1,
              { (Parser.ofSource (.text source) false).parse.2 with strict := true })) ∨
        ∃ warning ts t stop, (Scanner.ofScript source false).tokenize.2.warnings = [warning] ∧
          tokens = ts ++ [t, Token.endMark stop] ∧ t.stop = source.toList.length ∧
          t.position = warning.position ∧
          (Scanner.ofScript source true).tokenize.1 =
            .error (.unclosed { warning with severity := Diagnostic.error }) ∧
          (Parser.ofSource (.text source) true).parse.1 =
            .error ⟨{ warning with severity := Diagnostic.error }, none⟩ ∧
          (Parser.ofSource (.text source) true).parse.2.tokens = [] ∧
          (Parser.ofSource (.text source) true).parse.2.warnings = [] ∧
          (Parser.ofSource (.text source) true).parse.2.lexerWarnings = []) := by
  have lenient : (Lexing.ofScript source false).failure = none := Lexing.failure_run_lenient _ _
  have answer : (Scanner.ofScript source false).tokenize.1 =
        .ok (Lexing.ofScript source false).tokens ∧
      (Scanner.ofScript source false).tokenize.2.warnings =
        (Lexing.ofScript source false).warnings := by
    simp [Scanner.tokenize, Scanner.ofScript, lenient]
  refine ⟨_, answer.1, ?_⟩
  rw [answer.2]
  by_cases quiet : (Lexing.ofScript source false).warnings = []
  · left
    refine ⟨quiet, ?_, Parser.parse_strict quiet⟩
    rw [← answer.1]
    exact Scanner.tokenize_strict quiet
  · right
    obtain ⟨delimiter, ts, t, tokens, stop, warning, failure⟩ :=
      Lexing.run_open .start source.toList quiet
    have sameReport : { Unclosed.report Diagnostic.warning t.position delimiter with
        severity := Diagnostic.error } = Unclosed.report Diagnostic.error t.position delimiter := by
      cases delimiter <;> rfl
    have position : (Unclosed.report Diagnostic.warning t.position delimiter).position =
        t.position := by
      cases delimiter <;> rfl
    have strictParse : (Parser.ofSource (.text source) true).parse = _ :=
      Parser.parse_of_open failure
    refine ⟨_, ts, t, _, warning, tokens, ?_, position.symm, ?_, ?_, ?_, ?_, ?_⟩
    · rw [stop]
      exact Nat.zero_add _
    · rw [sameReport]
      have fails : (Lexing.ofScript source true).failure = _ := failure
      simp [Scanner.tokenize, Scanner.ofScript, fails]
    · rw [sameReport, strictParse]
      cases delimiter <;> rfl
    · rw [strictParse]
      rfl
    · rw [strictParse]
      rfl
    · rw [strictParse]
      rfl

end ShellScript
