/-
# ShellScript.Proofs.Unbounded -- the parser without bounds

The parser counts: a loop goes through at most one round for each token, and statements nest at
most so deep.  Here neither is counted.  A loop goes on for as long as its step gives something,
and a statement, its blocks and the statements inside them call each other as deep as they will.

What goes round and round uses up fuel, and gives nothing when there is no more.  There may be
any amount of it, and none is promised to be enough.  A parser comes to an end if from some amount
on it gives an outcome, and always the same.  On the way it has noted the tokens that were left
where each round of a block or of the top level began.
-/
import ShellScript.Proofs.Parse.Program

namespace ShellScript

set_option autoImplicit false

open Parse

/-- A parser over the remaining tokens that may run out of fuel, and that notes the tokens left
where its rounds begin. -/
abbrev Unbounded := ExceptT Failure (StateT (List Token × List (List Token)) Option)

namespace Unbounded

variable {α : Type}

/-- The outcome of a parser, with the rounds noted so far. -/
def noted (rounds : List (List Token)) :
    EStateM.Result Failure (List Token) α → Except Failure α × (List Token × List (List Token))
  | .ok a rest => (.ok a, rest, rounds)
  | .error e rest => (.error e, rest, rounds)

/-- A parser that uses up no fuel and goes through no round. -/
def lift (p : Parse α) : Unbounded α := fun (ts, rounds) => some (noted rounds (p ts))

/-- Notes that a round begins. -/
def note : Unbounded Unit := fun (ts, rounds) => some (.ok (), ts, rounds ++ [ts])

/-- There is no more fuel. -/
def exhausted : Unbounded α := fun _ => none

/-- A step repeated for as long as it gives something. -/
def many (step : Nat → Unbounded (Option α)) : Nat → Unbounded (List α)
  | 0 => exhausted
  | fuel + 1 => do
      match ← step fuel with
      | none => return []
      | some a => return a :: (← many step fuel)

/-! ## Simple statements -/

/-- The words after a condition, or after the first word of a loop. -/
def trailingWords : Nat → Unbounded (List Expr) := many fun _ => lift expression?

/-- A simple command. -/
def command (fuel : Nat) : Unbounded Command := do
  let name ← lift (expect .word "Expected command name")
  let parts ← many (fun _ => lift part?) fuel
  let position ← lift (spanFrom name.position)
  return {
    name := name.text
    args := parts.filterMap Part.text?
    arguments := parts.filterMap Part.expr?
    redirections := parts.filterMap Part.redirection?
    position := position }

/-- The command after a `|`, if there is one. -/
def pipedCommand? (fuel : Nat) : Unbounded (Option Command) := do
  if ← lift (accept .pipe) then return some (← command fuel)
  else return none

/-- Commands joined by `|`. -/
def pipeline (fuel : Nat) : Unbounded Statement := do
  let first ← command fuel
  match ← many pipedCommand? fuel with
  | [] => return .command first
  | second :: others => return .pipeline first second others (← lift (spanFrom first.position))

/-- A statement that holds no other, if one starts here. -/
def simple? (fuel : Nat) : Unbounded (Option Statement) := do
  if ← lift isAssignment then return some (← lift assignment)
  else if ← lift (check .word) then return some (← pipeline fuel)
  else return none

/-- Takes everything that may stand between a header and its `then` or `do`. -/
def headerSeparators (fuel : Nat) : Unbounded Unit := do
  let _ ← many (fun _ => lift headerSeparator?) fuel

/-! ## Compound statements, around their blocks -/

/-- One round of a block. -/
def blockItem? (statement : Unbounded (Option Statement)) (b : Block) :
    Unbounded (Option (Option Statement)) := do
  let t ← lift peek
  if t.kind = .eof || b.terminators.contains t.kind then return none
  else
    note
    if ← lift (accept .newline) then return some none
    else
      match ← statement with
      | some s =>
          lift separator
          return some (some s)
      | none => if t.kind = .comment then return some none else lift (refuse b t)

section Compound

variable (block : Block → Unbounded (List Statement)) (fuel : Nat)

/-- The part of a conditional after `else`, if there is one. -/
def elsePart? : Unbounded (Option (List Statement)) := do
  if ← lift (accept .kwElse) then return some (← block .elsePart)
  else return none

/-- A conditional. -/
def conditional : Unbounded Statement := do
  let opener ← lift (expect .kwIf "Expected 'if'")
  let condition ← lift expression
  let args ← trailingWords fuel
  headerSeparators fuel
  let _ ← lift (expect .kwThen "Expected 'then'")
  let thenBody ← block .thenPart
  let elseBody ← elsePart? block
  let _ ← lift (expect .kwFi "Expected 'fi'")
  return .conditional condition args thenBody elseBody (← lift (spanFrom opener.position))

/-- The body of a loop, from its header to its `done`. -/
def loopBody : Unbounded (List Statement) := do
  headerSeparators fuel
  let _ ← lift (expect .kwDo "Expected 'do'")
  let body ← block .loopBody
  let _ ← lift (expect .kwDone "Expected 'done'")
  return body

/-- A loop over words, after its `for`. -/
def forLoop (opener : Token) : Unbounded Statement := do
  let name ← lift (expect .word "Expected loop variable")
  let _ ← lift (expectWord "in")
  let iterable ← lift expression
  let others ← trailingWords fuel
  let body ← loopBody block fuel
  return .loop (.forIn name.text iterable) [] (iterable :: others) body
    (← lift (spanFrom opener.position))

/-- A conditional loop, after its `while`. -/
def whileLoop (opener : Token) : Unbounded Statement := do
  let condition ← lift expression
  let args ← trailingWords fuel
  let body ← loopBody block fuel
  return .loop (.whileDo condition) args [] body (← lift (spanFrom opener.position))

/-- A loop. -/
def loop : Unbounded Statement := do
  let opener ← lift advance
  if opener.kind = .kwFor then forLoop block fuel opener
  else whileLoop block fuel opener

/-- A function. -/
def function : Unbounded Statement := do
  let opener ← lift (expect .kwFunction "Expected 'function'")
  let name ← lift (expect .word "Expected function name")
  let _ ← lift (expect .lparen "Expected '('")
  let _ ← lift (expect .rparen "Expected ')'")
  let _ ← lift (expect .lbrace "Expected '\x7b'")
  let body ← block .functionBody
  let _ ← lift (expect .rbrace "Expected '\x7d'")
  return .function name.text body (← lift (spanFrom opener.position))

/-- The compound statement that a kind opens. -/
def compound? : Kind → Option (Unbounded Statement)
  | .kwIf => some (conditional block fuel)
  | .kwFor => some (loop block fuel)
  | .kwWhile => some (loop block fuel)
  | .kwFunction => some (function block)
  | _ => none

/-- One statement around its blocks, if one starts here. -/
def around : Unbounded (Option Statement) := do
  let t ← lift peek
  if t.kind = .comment then
    let _ ← lift advance
    return none
  else if t.kind = .eof then return none
  else
    match compound? block fuel t.kind with
    | some compound => return some (← compound)
    | none => simple? fuel

end Compound

/-! ## Statements and blocks -/

mutual

/-- One statement, if one starts here. -/
def statement : Nat → Unbounded (Option Statement)
  | 0 => exhausted
  | fuel + 1 => around (block fuel) fuel

/-- The statements of a block. -/
def block : Nat → Block → Unbounded (List Statement)
  | 0, _ => exhausted
  | fuel + 1, b => do
      match ← blockItem? (statement fuel) b with
      | none => return []
      | some i => return i.toList ++ (← block fuel b)

end

/-! ## The top level -/

/-- The piece at the front of the top level. -/
def item (fuel : Nat) : Unbounded Item := do
  if ← lift (accept .newline) then return .lineFeed
  else
    let t ← lift peek
    match ← statement fuel with
    | some s => return .statement s
    | none => if t.kind = .comment then return .comment else return .skipped (← lift skipToken)

/-- The top level of a script: its statements, and the tokens it drops. -/
def body : Nat → Unbounded (List Statement × List Token)
  | 0 => exhausted
  | fuel + 1 => do
      if ← lift atEnd then return ([], [])
      else
        note
        let i ← item fuel
        lift i.finish
        return i.cons (← body fuel)

end Unbounded

end ShellScript
