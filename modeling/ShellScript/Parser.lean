/-
# ShellScript.Parser -- a parser that moves on request

A parser keeps the tokens of a script and a cursor among them.  It parses the
whole script (`Parser.parse`), or is asked for one piece at a time
(`Parser.step`); a request that fails still gives the parser it leaves.

The cursor may be set anywhere.  Behind the last token there is nothing to see; a
negative cursor counts back from the end of the tokens, and a parser that starts
there goes on with the first token after the last.

`parse` is the parse of a whole script.
-/
import ShellScript.Lexing
import ShellScript.Parse.Program
import ShellScript.Tree.Node

namespace ShellScript

set_option autoImplicit false

/-- Tokens and a cursor, with the tokens skipped and the lexer's warnings so far. -/
structure Parser where
  source : Source
  strict : Bool
  tokens : List Token
  cursor : Int
  skipped : List Token
  lexerWarnings : List Diagnostic

namespace Parser

/-- A parser that has not looked at its script. -/
def ofSource (source : Source) (strict : Bool) : Parser := ⟨source, strict, [], 0, [], []⟩

/-- The warnings of the tokens skipped so far. -/
def warnings (p : Parser) : List ParseReport := p.skipped.map .skipped

/-- The tokens from the cursor on. -/
def window (p : Parser) : List Token :=
  if 0 ≤ p.cursor then p.tokens.drop p.cursor.toNat
  else if 0 ≤ p.cursor + p.tokens.length then
    p.tokens.drop (p.cursor + p.tokens.length).toNat ++ p.tokens
  else []

/-- The parser moved forward until only `rest` of its window remains. -/
def moveTo (p : Parser) (rest : List Token) : Parser :=
  { p with cursor := p.cursor + (p.window.length - rest.length : Nat) }

/-- A request for one piece: its outcome, and the parser it leaves. -/
def step {α : Type} (p : Parser) (piece : Parse α) : Except Failure α × Parser :=
  match piece p.window with
  | .ok a rest => (.ok a, p.moveTo rest)
  | .error e rest => (.error e, p.moveTo rest)

/-- A request for the top level from the cursor on. -/
def stepBody (p : Parser) : Except Failure (List Statement) × Parser :=
  let b := Body.read p.window
  (b.result, { p.moveTo b.rest with skipped := p.skipped ++ b.skipped })

/-- A request to skip one token. -/
def stepSkip (p : Parser) : Except Failure Unit × Parser :=
  match p.step Parse.skipToken with
  | (.ok t, p) => (.ok (), { p with skipped := p.skipped ++ [t] })
  | (.error e, p) => (.error e, p)

/-- The position of the token at the cursor; none behind the last token. -/
def currentPosition (p : Parser) : Except Failure (Option Span) :=
  match p.window with
  | t :: _ => .ok t.position
  | [] => if p.cursor < p.tokens.length then .error (.fault .tokenOutOfRange) else .ok none

/-- Why the tokens of a script cannot be loaded. -/
inductive LoadError where
  | unclosed (report : Diagnostic)
  | fault (f : Fault)

/-- Loads the tokens of the script and returns to the first.  Warnings stay as
they were; if the tokens cannot be had, everything does. -/
def load (p : Parser) : Except LoadError Unit × Parser :=
  match p.source.script with
  | .error f => (.error (.fault f), p)
  | .ok script =>
      match tokenize script p.strict with
      | .error d => (.error (.unclosed d), p)
      | .ok tokens => (.ok (), { p with tokens := tokens, cursor := 0 })

/-- Keeps the first `n` tokens; a negative number drops tokens from the end. -/
def truncate (p : Parser) (n : Int) : Parser :=
  let keep := if 0 ≤ n then n.toNat else (n + p.tokens.length).toNat
  { p with tokens := p.tokens.take keep }

/-- The program of a parser that stands at the end of its tokens. -/
def program (statements : List Statement) : List Token → Parse Program
  | [] => throw (.fault .tokenOutOfRange)
  | t :: _ => return ⟨statements, ← Parse.spanFrom t.position⟩

/-- The parse of the tokens of a parser that has nothing else yet. -/
def parseTokens (p : Parser) : Except Failure Program × Parser :=
  match p.stepBody with
  | (.error e, p) => (.error e, p)
  | (.ok statements, p) => p.step (program statements p.tokens)

/-- The parse of the whole script, from its start.  It forgets whatever the parser
did before; what it held when it failed is kept. -/
def parse (p : Parser) : Except ParseReport Program × Parser :=
  let fresh := ofSource p.source p.strict
  match p.source.script with
  | .error f => (.error (.ofFault f none), fresh)
  | .ok script =>
      match (Lexing.ofScript script p.strict).result with
      | .error d => (.error (.ofLexing d), fresh)
      | .ok (tokens, warnings) =>
          match parseTokens { fresh with tokens := tokens, lexerWarnings := warnings } with
          | (.ok program, p) => (.ok program, p)
          | (.error e, p) => (.error (e.report (p.window.head?.bind Token.position)), p)

end Parser

/-- The program of a script, or the report of why it is refused. -/
def parse (source : String) (strict : Bool) : Except ParseReport Program :=
  (Parser.ofSource (.text source) strict).parse.1

/-- The version of this library, as it is reported. -/
def version : String := "0.1.0"

end ShellScript
