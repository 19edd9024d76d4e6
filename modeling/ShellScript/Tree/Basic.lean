/-
# ShellScript.Tree.Basic -- the tree of a script

A script is a list of statements.  A statement is a command, a pipeline, one of
the compound statements, or an assignment; commands hold arguments and
redirections, whose words are expressions.

A tree may be parsed or built by hand, so the types rule out only what is never
allowed: a pipeline has at least two commands, and a loop over words has a name
and a first word where a conditional loop has a condition.  A hand-built tree
may lack positions, and its lists may be anything.
-/
import ShellScript.Position

namespace ShellScript

set_option autoImplicit false

/-- A word or quoted string, or a reference to a variable, which stays as it is. -/
inductive Expr where
  | literal (value : String) (quoted : Bool) (position : Option Span)
  | reference (name : String) (position : Option Span)
deriving DecidableEq

/-- A redirection of a command: its operator and where it leads. -/
structure Redirection where
  operator : String
  target : Expr
  position : Option Span
deriving DecidableEq

/-- A simple command.  `args` are the texts of the arguments, a variable as it is
written, and `arguments` the same arguments as expressions. -/
structure Command where
  name : String
  args : List String
  arguments : List Expr
  redirections : List Redirection
  position : Option Span
deriving DecidableEq

/-- What drives a loop: a name that takes each of some words in turn, or a
condition. -/
inductive LoopHeader where
  | forIn (name : String) (iterable : Expr)
  | whileDo (condition : Expr)
deriving DecidableEq

/-- A statement.  An absent `elseBody` is not the same as an empty one. -/
inductive Statement where
  | command (c : Command)
  | pipeline (first second : Command) (others : List Command) (position : Option Span)
  | conditional (condition : Expr) (conditionArgs : List Expr) (thenBody : List Statement)
      (elseBody : Option (List Statement)) (position : Option Span)
  | loop (header : LoopHeader) (conditionArgs items : List Expr) (body : List Statement)
      (position : Option Span)
  | function (name : String) (body : List Statement) (position : Option Span)
  | assignment (name : String) (value : Expr) (position : Option Span)

/-- A whole script. -/
structure Program where
  body : List Statement
  position : Option Span

/-- The position of an expression. -/
def Expr.position : Expr → Option Span
  | .literal _ _ position => position
  | .reference _ position => position

namespace LoopHeader

/-- The word for a loop over words. -/
def forWord : String := "for"

/-- The word for a conditional loop. -/
def whileWord : String := "while"

/-- The word that opens a loop. -/
def kind : LoopHeader → String
  | forIn _ _ => forWord
  | whileDo _ => whileWord

/-- The name of a loop over words. -/
def name? : LoopHeader → Option String
  | forIn name _ => some name
  | whileDo _ => none

/-- The first word of a loop over words. -/
def iterable? : LoopHeader → Option Expr
  | forIn _ iterable => some iterable
  | whileDo _ => none

/-- The condition of a conditional loop. -/
def condition? : LoopHeader → Option Expr
  | forIn _ _ => none
  | whileDo condition => some condition

end LoopHeader

/-- The position of a statement. -/
def Statement.position : Statement → Option Span
  | .command c => c.position
  | .pipeline _ _ _ position => position
  | .conditional _ _ _ _ position => position
  | .loop _ _ _ _ position => position
  | .function _ _ position => position
  | .assignment _ _ position => position

end ShellScript
