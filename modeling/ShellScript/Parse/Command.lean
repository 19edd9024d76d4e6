/-
# ShellScript.Parse.Command -- expressions, commands, pipelines, assignments

The statements that hold no other statements.  A command takes every word and
every redirection that follows its name, in any order; only a token that is
neither ends it.  The position of a piece starts with its first token and reaches
to the end of the token after its last one.
-/
import ShellScript.Parse.Basic
import ShellScript.Tree.Basic

namespace ShellScript.Parse

set_option autoImplicit false

/-- A word, a quoted string or a reference to a variable. -/
def expression : Parse Expr := do
  let t ← peek
  match t.kind with
  | .word =>
      let _ ← advance
      return .literal t.text false t.position
  | .quotedString =>
      let _ ← advance
      return .literal t.text true t.position
  | .reference =>
      let _ ← advance
      return .reference t.text t.position
  | _ => malformed (.noExpression t)

/-- An expression, if one starts here. -/
def expression? : Parse (Option Expr) := do
  if (← peek).isWordLike then return some (← expression)
  else return none

/-- The words after a condition, or after the first word of a loop. -/
def trailingWords : Parse (List Expr) := many expression?

/-- A redirection.  Whatever stands here is taken for its operator. -/
def redirection : Parse Redirection := do
  let operator ← advance
  let t ← peek
  if t.isWordLike then
    let target ← expression
    return ⟨operator.text, target, ← spanFrom operator.position⟩
  else malformed (.missingKind .word "Expected redirection target" t)

/-- What may follow the name of a command. -/
inductive Part where
  | argument (text : String) (e : Expr)
  | redirection (r : Redirection)

namespace Part

/-- The text of an argument. -/
def text? : Part → Option String
  | argument text _ => some text
  | redirection _ => none

/-- An argument as an expression. -/
def expr? : Part → Option Expr
  | argument _ e => some e
  | redirection _ => none

/-- A redirection. -/
def redirection? : Part → Option Redirection
  | argument _ _ => none
  | redirection r => some r

end Part

/-- The text a token has as an argument: a reference as it is written, anything
else as what it says. -/
def argumentText (t : Token) : String := if t.kind = .reference then t.lexeme else t.text

/-- An argument or a redirection, if one starts here. -/
def part? : Parse (Option Part) := do
  let t ← peek
  if t.isWordLike then return some (.argument (argumentText t) (← expression))
  else if t.kind.isRedirection then return some (.redirection (← redirection))
  else return none

/-- A simple command. -/
def command : Parse Command := do
  let name ← expect .word "Expected command name"
  let parts ← many part?
  let position ← spanFrom name.position
  return {
    name := name.text
    args := parts.filterMap Part.text?
    arguments := parts.filterMap Part.expr?
    redirections := parts.filterMap Part.redirection?
    position := position }

/-- The command after a `|`, if there is one. -/
def pipedCommand? : Parse (Option Command) := do
  if ← accept .pipe then return some (← command)
  else return none

/-- Commands joined by `|`.  A command alone is that command. -/
def pipeline : Parse Statement := do
  let first ← command
  match ← many pipedCommand? with
  | [] => return .command first
  | second :: others => return .pipeline first second others (← spanFrom first.position)

/-- An assignment.  Whatever stands here is taken for its name. -/
def assignment : Parse Statement := do
  let name ← advance
  let _ ← expectWord "="
  let value ← expression
  return .assignment name.text value (← spanFrom name.position)

end ShellScript.Parse
