/-
# ShellScript.Parse.Program -- the top level of a script

The top level is lenient: a token that starts no statement is skipped, with a
warning, and the parser goes on behind it.  A statement that has started must be
well formed, though; if it is not, the script is refused.

`Body.read` goes through the rounds of the top level and keeps what it has when
one fails, because the warnings up to a failure are reported with it.
-/
import ShellScript.Parse.Statement

namespace ShellScript

set_option autoImplicit false

namespace Parse

/-- Drops a token at the top level. -/
def skipToken : Parse Token := advance

/-- What one round of the top level takes. -/
inductive Item where
  | lineFeed
  | comment
  | statement (s : Statement)
  | skipped (t : Token)

/-- The piece at the front of the top level, which is no end mark. -/
def item : Parse Item := do
  if ← accept .newline then return .lineFeed
  else
    let t ← peek
    match ← Parse.statement with
    | some s => return .statement s
    | none => if t.kind = .comment then return .comment else return .skipped (← skipToken)

/-- What follows a piece in its round: one separator, but none after a line feed. -/
def Item.finish : Item → Parse Unit
  | lineFeed => return
  | _ => separator

end Parse

/-- What the top level of a script gives: its statements, the tokens skipped, the
tokens left, and why it failed, if it did. -/
structure Body where
  statements : List Statement
  skipped : List Token
  rest : List Token
  failure : Option Failure

namespace Body

/-- A body that stops without another round. -/
def stop (rest : List Token) (failure : Option Failure) : Body := ⟨[], [], rest, failure⟩

/-- One piece more in front. -/
def push (i : Parse.Item) (b : Body) : Body :=
  match i with
  | .lineFeed => b
  | .comment => b
  | .statement s => { b with statements := s :: b.statements }
  | .skipped t => { b with skipped := t :: b.skipped }

/-- The rounds of the top level up to the end mark, at most one for each token of
`budget`. -/
def readWithin : List Token → List Token → Body
  | [], rest => stop rest (some (.fault .tokenOutOfRange))
  | _, [] => stop [] (some (.fault .tokenOutOfRange))
  | _ :: budget, t :: ts =>
      if t.kind = .eof then stop (t :: ts) none
      else
        match Parse.item (t :: ts) with
        | .error e rest => stop rest (some e)
        | .ok i rest =>
            match i.finish rest with
            | .error e rest => (stop rest (some e)).push i
            | .ok _ rest => (readWithin budget rest).push i

/-- The top level of a script.  Each round takes a token, so there are never more
rounds than tokens. -/
def read (ts : List Token) : Body := readWithin ts ts

/-- The outcome of a body. -/
def result (b : Body) : Except Failure (List Statement) :=
  match b.failure with
  | some e => .error e
  | none => .ok b.statements

end Body

/-- The report of a failure, at the position where the parser stands. -/
def Failure.report (position : Option Span) : Failure → ParseReport
  | malformed e => e.report
  | tooDeep => .tooDeep position
  | fault f => .ofFault f position

end ShellScript
