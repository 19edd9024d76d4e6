/-
# ShellScript.Lexing -- the tokens of a script

`Lexing.run` reads lexeme after lexeme and skips the blanks between them.  A
delimiter left open ends the run: its token takes the rest of the script, and the
run either goes on to the end mark with a warning or, in strict work, stops with
that report as its failure.  The same report serves as both (`Unclosed.report`).
What was read before a failure is kept.

`Lexing.ofScript` is the run over a whole script, `tokenize` its tokens.
-/
import ShellScript.Diagnostic
import ShellScript.Lexeme
import ShellScript.Token.Basic

namespace ShellScript

set_option autoImplicit false

namespace Unclosed

/-- The report on a delimiter left open by what stands at `position`. -/
def report (severity : String) (position : Option Span) : Unclosed → Diagnostic
  | quote mark =>
      { message := "Unterminated quoted string"
        position := position
        severity := severity
        code := some "L002"
        helpText := some s!"Quoted strings must be closed with a matching {mark} quote."
        suggestions := some [s!"Add a closing {mark} quote", "Check for an escaped closing quote"] }
  | reference =>
      { message := "Unterminated variable reference"
        position := position
        severity := severity
        code := some "L003"
        helpText := some "Braced variable references must be closed with '\x7d'."
        suggestions := some ["Add a closing '\x7d'"] }

end Unclosed

namespace Lexeme

/-- The token of a lexeme that starts at `here`. -/
def token (x : Lexeme) (here : Cursor) : Token :=
  ⟨x.kind, String.ofList x.text, String.ofList x.raw,
    some (here.spanTo (here.advance x.raw))⟩

end Lexeme

/-- What a run of the lexer leaves: the tokens, the warnings, where it stopped,
and the report it failed with, if it did. -/
structure Lexing where
  tokens : List Token
  warnings : List Diagnostic
  stop : Cursor
  failure : Option Diagnostic

namespace Lexing

/-- One token more in front. -/
def push (t : Token) (l : Lexing) : Lexing := { l with tokens := t :: l.tokens }

/-- One warning more in front. -/
def warn (d : Diagnostic) (l : Lexing) : Lexing := { l with warnings := d :: l.warnings }

/-- The run over the characters that follow `here`. -/
def run (strict : Bool) (here : Cursor) : List Char → Lexing
  | [] => ⟨[Token.endMark here], [], here, none⟩
  | c :: cs =>
      if Charset.isBlank c then run strict (here.step c) cs
      else
        let x := Lexeme.read c cs
        let t := x.token here
        let stop := here.advance x.raw
        match x.unclosed with
        | none => (run strict stop x.rest).push t
        | some delimiter =>
            if strict then ⟨[], [], stop, some (delimiter.report Diagnostic.error t.position)⟩
            else
              ((run strict stop x.rest).push t).warn
                (delimiter.report Diagnostic.warning t.position)
termination_by cs => cs.length
decreasing_by
  · exact Nat.lt_succ_self cs.length
  · exact Lexeme.length_rest_lt c cs
  · exact Lexeme.length_rest_lt c cs

/-- The run over a whole script. -/
def ofScript (source : String) (strict : Bool) : Lexing := run strict .start source.toList

/-- The tokens and warnings of a run, or the report it failed with. -/
def result (l : Lexing) : Except Diagnostic (List Token × List Diagnostic) :=
  match l.failure with
  | some d => .error d
  | none => .ok (l.tokens, l.warnings)

end Lexing

/-- The tokens of a script, the end mark last; in strict work the report on a
delimiter left open. -/
def tokenize (source : String) (strict : Bool) : Except Diagnostic (List Token) :=
  (Lexing.ofScript source strict).result.map Prod.fst

end ShellScript
