/-
# ShellScript.Parse.Basic -- parsers over the remaining tokens

A parser reads from the tokens that remain and gives a value or fails; either
way the tokens it leaves are known.  A complete list of tokens ends in the end
mark, and no parser ever goes past an end mark (`advance`), so a look at a token
that is not there is a fault of whoever cut the list short.

`many` is the one loop: it repeats a step for as long as the step has something
to give.  Such a step takes at least one token, so there are never more rounds
than tokens.
-/
import ShellScript.Parse.Report

namespace ShellScript

set_option autoImplicit false

/-- Why a parser fails. -/
inductive Failure where
  /-- The script is malformed. -/
  | malformed (e : SyntaxError)
  /-- Compound statements nest too deeply. -/
  | tooDeep
  /-- The caller is at fault. -/
  | fault (f : Fault)
deriving DecidableEq

/-- A parser over the remaining tokens. -/
abbrev Parse := EStateM Failure (List Token)

namespace Parse

variable {α : Type}

/-- Fails because the script is malformed. -/
def malformed (e : SyntaxError) : Parse α := throw (.malformed e)

/-- The next token, which stays. -/
def peek : Parse Token := fun
  | [] => .error (.fault .tokenOutOfRange) []
  | t :: ts => .ok t (t :: ts)

/-- The next token, which is taken unless it is an end mark. -/
def advance : Parse Token := fun
  | [] => .error (.fault .tokenOutOfRange) []
  | t :: ts => .ok t (if t.kind = .eof then t :: ts else ts)

/-- Whether the next token is an end mark. -/
def atEnd : Parse Bool := return (← peek).kind = .eof

/-- Whether the next token is of a kind. -/
def check (k : Kind) : Parse Bool := return (← peek).kind = k

/-- Takes the next token if it is of a kind, and says whether it was. -/
def accept (k : Kind) : Parse Bool := do
  if ← check k then
    let _ ← advance
    return true
  else return false

/-- Takes a token of a kind, or fails with a message. -/
def expect (k : Kind) (message : String) : Parse Token := do
  if ← check k then advance
  else malformed (.missingKind k message (← peek))

/-- Takes the word with a certain text, or fails. -/
def expectWord (text : String) : Parse Token := do
  let t ← peek
  if t.isWord text then advance
  else malformed (.missingText text t)

/-- Takes one separator between statements, if there is one. -/
def separator : Parse Unit := do
  if ← accept .semicolon then return
  let _ ← accept .newline

/-- The span that starts like `start` and reaches to the end of the next token. -/
def spanFrom (start : Option Span) : Parse (Option Span) :=
  return Span.reach? start (← peek).position

/-- Whether an assignment starts here: a word and then the word `=`. -/
def isAssignment : Parse Bool := do
  if ← check .word then
    match ← get with
    | _ :: t :: _ => return t.isWord "="
    | _ => return false
  else return false

/-- A step repeated for as long as it gives something, at most once for each token
of `budget`. -/
def manyWithin (step : Parse (Option α)) : List Token → Parse (List α)
  | [] => throw (.fault .tokenOutOfRange)
  | _ :: budget => do
      match ← step with
      | none => return []
      | some a => return a :: (← manyWithin step budget)

/-- A step repeated for as long as it gives something.  Where no token remains the
step would find none, which is the same fault. -/
def many (step : Parse (Option α)) : Parse (List α) := do
  manyWithin step (← get)

end Parse

end ShellScript
