/-
# ShellScript.Parse.Statement -- statements and the blocks inside them

A block is a list of statements up to a closing token, which is left for whoever
opened the block.  It is strict: apart from line feeds and comments everything
in it must be a statement, and a token that closes some other block means that
the closer of this one is missing.

Statements nest.  The parsers of compound statements take the parser of the
statements inside them as an argument, and `statementWithin` ties the knot with
a bound on the depth, so that it recurses on that bound alone.
-/
import ShellScript.Parse.Command

namespace ShellScript.Parse

set_option autoImplicit false

/-- A parser of one statement.  It gives none, and takes at most a comment, where
no statement starts. -/
abbrev Inner := Parse (Option Statement)

/-- What a block is: the kinds that end it, the kind that is missing if it is not
ended, and what to call it. -/
structure Block where
  terminators : List Kind
  closer : Kind
  context : String

namespace Block

/-- What follows `then`. -/
def thenPart : Block := ⟨[.kwElse, .kwFi], .kwFi, "if body"⟩

/-- What follows `else`. -/
def elsePart : Block := ⟨[.kwFi], .kwFi, "else body"⟩

/-- What follows `do`. -/
def loopBody : Block := ⟨[.kwDone], .kwDone, "loop body"⟩

/-- What follows the opening brace of a function. -/
def functionBody : Block := ⟨[.rbrace], .rbrace, "function body"⟩

end Block

/-- The message for a missing closer. -/
def closerMessage? : Kind → Option String
  | .kwFi => some "Expected 'fi'"
  | .kwDone => some "Expected 'done'"
  | .rbrace => some "Expected '\x7d'"
  | _ => none

/-- Fails at a token that belongs in no block. -/
def refuse {α : Type} (b : Block) (t : Token) : Parse α :=
  if t.kind.isBlockCloser then
    match closerMessage? b.closer with
    | some message => malformed (.missingKind b.closer message t)
    | none => throw (.fault (.noCloser b.closer))
  else malformed (.unexpected t b.context)

/-- One round of a block: nothing at its end, else a statement or what may stand
between statements. -/
def blockItem? (inner : Inner) (b : Block) : Parse (Option (Option Statement)) := do
  let t ← peek
  if t.kind = .eof || b.terminators.contains t.kind then return none
  else if ← accept .newline then return some none
  else
    match ← inner with
    | some s =>
        separator
        return some (some s)
    | none => if t.kind = .comment then return some none else refuse b t

/-- The statements of a block. -/
def block (inner : Inner) (b : Block) : Parse (List Statement) := do
  return (← many (blockItem? inner b)).filterMap id

/-- Takes one separator of a header, if one stands here. -/
def headerSeparator? : Parse (Option Unit) := do
  if (← peek).kind.isHeaderSeparator then
    let _ ← advance
    return some ()
  else return none

/-- Takes everything that may stand between a header and its `then` or `do`. -/
def headerSeparators : Parse Unit := do
  let _ ← many headerSeparator?

/-- The part of a conditional after `else`, if there is one. -/
def elsePart? (inner : Inner) : Parse (Option (List Statement)) := do
  if ← accept .kwElse then return some (← block inner .elsePart)
  else return none

/-- A conditional. -/
def conditional (inner : Inner) : Parse Statement := do
  let opener ← expect .kwIf "Expected 'if'"
  let condition ← expression
  let args ← trailingWords
  headerSeparators
  let _ ← expect .kwThen "Expected 'then'"
  let thenBody ← block inner .thenPart
  let elseBody ← elsePart? inner
  let _ ← expect .kwFi "Expected 'fi'"
  return .conditional condition args thenBody elseBody (← spanFrom opener.position)

/-- The body of a loop, from its header to its `done`. -/
def loopBody (inner : Inner) : Parse (List Statement) := do
  headerSeparators
  let _ ← expect .kwDo "Expected 'do'"
  let body ← block inner .loopBody
  let _ ← expect .kwDone "Expected 'done'"
  return body

/-- A loop over words, after its `for`. -/
def forLoop (inner : Inner) (opener : Token) : Parse Statement := do
  let name ← expect .word "Expected loop variable"
  let _ ← expectWord "in"
  let iterable ← expression
  let others ← trailingWords
  let body ← loopBody inner
  return .loop (.forIn name.text iterable) [] (iterable :: others) body
    (← spanFrom opener.position)

/-- A conditional loop, after its `while`. -/
def whileLoop (inner : Inner) (opener : Token) : Parse Statement := do
  let condition ← expression
  let args ← trailingWords
  let body ← loopBody inner
  return .loop (.whileDo condition) args [] body (← spanFrom opener.position)

/-- A loop.  Any first token but `for` is taken for a `while`. -/
def loop (inner : Inner) : Parse Statement := do
  let opener ← advance
  if opener.kind = .kwFor then forLoop inner opener
  else whileLoop inner opener

/-- A function. -/
def function (inner : Inner) : Parse Statement := do
  let opener ← expect .kwFunction "Expected 'function'"
  let name ← expect .word "Expected function name"
  let _ ← expect .lparen "Expected '('"
  let _ ← expect .rparen "Expected ')'"
  let _ ← expect .lbrace "Expected '\x7b'"
  let body ← block inner .functionBody
  let _ ← expect .rbrace "Expected '\x7d'"
  return .function name.text body (← spanFrom opener.position)

/-- The compound statement opened by a token of some kind, given the parser of
the statements inside it. -/
def compound? : Kind → Option (Inner → Parse Statement)
  | .kwIf => some conditional
  | .kwFor => some loop
  | .kwWhile => some loop
  | .kwFunction => some function
  | _ => none

/-- A statement that holds no other, if one starts here. -/
def simple? : Inner := do
  if ← isAssignment then return some (← assignment)
  else if ← check .word then return some (← pipeline)
  else return none

/-- One statement, if one starts here.  A comment is taken and gives none.
Compound statements nest at most `depth` deep. -/
def statementWithin (depth : Nat) : Inner := do
  let t ← peek
  if t.kind = .comment then
    let _ ← advance
    return none
  else if t.kind = .eof then return none
  else
    match compound? t.kind with
    | some compound =>
        match depth with
        | 0 => throw .tooDeep
        | depth + 1 => return some (← compound (statementWithin depth))
    | none => simple?

/-- How deep compound statements may nest.  The number stands for a limit of the machine, which
is somewhere between 120 levels and 1000 (`le_nestingLimit`, `nestingLimit_lt`).  No result may
rest on more than these bounds, so the number itself is sealed. -/
@[irreducible]
def nestingLimit : Nat := 250

theorem le_nestingLimit : 120 ≤ nestingLimit := by
  unfold nestingLimit
  decide

theorem nestingLimit_lt : nestingLimit < 1000 := by
  unfold nestingLimit
  decide

/-- One statement, if one starts here. -/
def statement : Inner := statementWithin nestingLimit

end ShellScript.Parse
