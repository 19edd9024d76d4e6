/-
# ShellScript.Tree.Checked -- building statements from loose parts

Whoever builds a tree by hand may give a pipeline any number of commands and a
loop any of its parts.  The functions here build the statement if the parts make
one and say what is wrong if they do not.
-/
import ShellScript.Text.Quoted
import ShellScript.Tree.Basic

namespace ShellScript

set_option autoImplicit false

/-- Why loose parts make no statement. -/
inductive TreeError where
  /-- A pipeline of fewer than two commands. -/
  | shortPipeline
  /-- A loop over words without a name or a first word, or with a condition. -/
  | forLoopParts
  /-- A conditional loop without a condition, or with a name or a first word. -/
  | whileLoopParts
  /-- A loop opened by neither of the two words. -/
  | unknownLoopKind (kind : String)
deriving DecidableEq

/-- The wording of a fault in the parts of a statement. -/
def TreeError.message : TreeError → String
  | shortPipeline => "a Pipeline needs at least two commands"
  | forLoopParts => "a for loop needs a variable and an iterable and no condition"
  | whileLoopParts => "a while loop needs a condition and no variable or iterable"
  | unknownLoopKind kind => s!"unknown loop kind: {Text.quoted kind}"

/-- The header of a loop opened by `kind`, from the parts given for it. -/
def LoopHeader.ofParts (kind : String) (name : Option String) (iterable condition : Option Expr) :
    Except TreeError LoopHeader :=
  if kind = forWord then
    match name, iterable, condition with
    | some name, some iterable, none => .ok (.forIn name iterable)
    | _, _, _ => .error .forLoopParts
  else if kind = whileWord then
    match name, iterable, condition with
    | none, none, some condition => .ok (.whileDo condition)
    | _, _, _ => .error .whileLoopParts
  else .error (.unknownLoopKind kind)

/-- A pipeline of the given commands. -/
def Statement.pipelineOf (commands : List Command) (position : Option Span) :
    Except TreeError Statement :=
  match commands with
  | first :: second :: others => .ok (.pipeline first second others position)
  | _ => .error .shortPipeline

end ShellScript
