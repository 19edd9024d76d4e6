/-
# ShellScript.Proofs.Lexing.Line -- the lexer goes on behind a line feed

No closed lexeme takes a line feed that stands behind it (`Lexeme.read_append_line`).  So a
text with nothing left open gives the same tokens in front of more lines, then the line feed
itself, and then the run goes on there (`run_append_line`).

A run that starts elsewhere gives the same, moved there (`run_shift`).
-/
import ShellScript.Proofs.Lexing.Reread
import ShellScript.Proofs.Motion

namespace ShellScript

set_option autoImplicit false

/-! ## Runs that start elsewhere -/

namespace Cursor

variable (offset lines : Nat)

/-- The place `offset` characters and `lines` lines on, in the same column. -/
def shift (here : Cursor) : Cursor := ⟨here.offset + offset, here.line + lines, here.column⟩

theorem step_shift (here : Cursor) (c : Char) :
    (here.shift offset lines).step c = (here.step c).shift offset lines := by
  unfold step shift
  split <;> simp only [Cursor.mk.injEq, and_true] <;> omega

theorem advance_shift (here : Cursor) (cs : List Char) :
    (here.shift offset lines).advance cs = (here.advance cs).shift offset lines := by
  induction cs generalizing here with
  | nil => rfl
  | cons c cs ih => rw [advance_cons, advance_cons, step_shift, ih]

theorem spanTo_shift (a b : Cursor) :
    (a.shift offset lines).spanTo (b.shift offset lines) = (a.spanTo b).shift offset lines := by
  simp [spanTo, shift, Span.shift]

end Cursor

theorem Unclosed.report_move (m : Motion) (delimiter : Unclosed) (severity : String)
    (position : Option Span) :
    (delimiter.report severity position).move m =
      delimiter.report severity (m.position position) := by
  cases delimiter <;> rfl

namespace Lexing

variable (offset lines : Nat)

/-- What a run leaves, moved on. -/
def shift (l : Lexing) : Lexing where
  tokens := l.tokens.map (Token.move (.shift offset lines))
  warnings := l.warnings.map (Diagnostic.move (.shift offset lines))
  stop := l.stop.shift offset lines
  failure := l.failure.map (Diagnostic.move (.shift offset lines))

theorem token_shift (x : Lexeme) (here : Cursor) :
    x.token (here.shift offset lines) = (x.token here).move (.shift offset lines) := by
  simp only [Lexeme.token, Token.move, Motion.position, Option.map_some, Cursor.advance_shift,
    Cursor.spanTo_shift]
  rfl

/-- **A run that starts elsewhere gives the same, moved there.** -/
theorem run_shift (strict : Bool) (here : Cursor) (cs : List Char) :
    run strict (here.shift offset lines) cs = (run strict here cs).shift offset lines := by
  induction here, cs using run_induction with
  | stop here =>
    simp only [run_nil, shift, List.map_cons, List.map_nil, Token.endMark, Token.move,
      Motion.position, Option.map_some, Option.map_none, Cursor.spanTo_shift]
    rfl
  | blank here c cs blank ih =>
    rw [run_blank strict blank, run_blank strict blank, Cursor.step_shift, ih]
  | lexeme here c cs solid ih =>
    rw [run, run]
    simp only [solid, Bool.false_eq_true, if_false]
    rw [Cursor.advance_shift, ih, token_shift]
    cases (Lexeme.read c cs).unclosed with
    | none => rfl
    | some delimiter =>
      have report (severity : String) :=
        delimiter.report_move (.shift offset lines) severity
          ((Lexeme.read c cs).token here).position
      cases strict with
      | false => simp [shift, push, warn, report, Token.move]
      | true => simp [shift, report, Token.move]

end Lexing

/-! ## A line feed behind a lexeme -/

namespace Lexeme

/-- A lexeme in front of more text. -/
def before (x : Lexeme) (ds : List Char) : Lexeme := { x with rest := x.rest ++ ds }

/-- **A closed lexeme does not take the line feed behind it.** -/
theorem read_append_line {c : Char} {cs : List Char} (closed : (read c cs).unclosed = none)
    (ds : List Char) : read c (cs ++ '\n' :: ds) = (read c cs).before ('\n' :: ds) := by
  have split := read_split c cs
  -- the lexeme ended inside the text, or the line feed ends it
  have ends : (read c cs).EndsAt ((read c cs).rest ++ '\n' :: ds).head? := by
    cases left : (read c cs).rest with
    | nil => exact Or.inr (Or.inl (by simp))
    | cons d es => exact Or.inl (by rw [left]; rfl)
  obtain ⟨w, raw, again⟩ := rereads_read c cs closed _ ends
  have text : cs = w ++ (read c cs).rest := by
    rw [raw] at split
    exact (List.cons.inj split).2.symm
  calc read c (cs ++ '\n' :: ds) = read c (w ++ ((read c cs).rest ++ '\n' :: ds)) := by
        rw [← List.append_assoc, ← text]
    _ = (read c cs).before ('\n' :: ds) := again

end Lexeme

/-! ## A line feed behind a text -/

/-- The token of a line feed. -/
def Token.lineFeed (here : Cursor) : Token :=
  ⟨.newline, "\n", "\n", some (here.spanTo (here.step '\n'))⟩

namespace Lexing

/-- Tokens in front of what a run leaves. -/
def behind (ws : List Token) (l : Lexing) : Lexing := { l with tokens := ws ++ l.tokens }

/-- **A text with nothing left open lexes the same in front of more lines.**  In the place of
its end mark stands the line feed, and the run goes on behind that. -/
theorem run_append_line (strict : Bool) (here : Cursor) (cs ds : List Char)
    (quiet : (run false here cs).warnings = []) :
    ∃ ws, (run strict here cs).tokens = ws ++ [Token.endMark (here.advance cs)] ∧
      run strict here (cs ++ '\n' :: ds) =
        (run strict ((here.advance cs).step '\n') ds).behind
          (ws ++ [Token.lineFeed (here.advance cs)]) := by
  induction here, cs using run_induction with
  | stop here =>
    refine ⟨[], by simp, ?_⟩
    rw [List.nil_append, run_closed strict rfl rfl]
    rfl
  | blank here c cs blank ih =>
    rw [run_blank false blank] at quiet
    obtain ⟨ws, tokens, goes_on⟩ := ih quiet
    refine ⟨ws, ?_, ?_⟩
    · rw [run_blank strict blank, tokens]
      rfl
    · rw [List.cons_append, run_blank strict blank, goes_on]
      rfl
  | lexeme here c cs solid ih =>
    obtain ⟨closed, quiet⟩ := closed_of_quiet solid quiet
    obtain ⟨ws, tokens, goes_on⟩ := ih quiet
    have place : (here.advance (Lexeme.read c cs).raw).advance (Lexeme.read c cs).rest =
        here.advance (c :: cs) := by
      rw [← Cursor.advance_append, Lexeme.read_split]
    rw [place] at tokens goes_on
    refine ⟨(Lexeme.read c cs).token here :: ws, ?_, ?_⟩
    · rw [run_closed strict solid closed]
      exact congrArg (List.cons _) tokens
    · have read := Lexeme.read_append_line closed ds
      rw [List.cons_append, run_closed strict solid (by rw [read]; exact closed), read]
      show push ((Lexeme.read c cs).token here)
        (run strict (here.advance (Lexeme.read c cs).raw) ((Lexeme.read c cs).rest ++ _)) = _
      rw [goes_on]
      rfl

end Lexing

end ShellScript
