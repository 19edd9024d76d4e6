/-
# ShellScript.Proofs.Tree.WellFormed -- the trees that scripts have

What is so of every tree that is parsed from a script, but not of every tree that can
be built by hand: its words are words, its references can be written, the texts of
a command's arguments are those of its expressions, and no command that opens a
statement would be taken for an assignment.  None of this is a matter of positions.
-/
import Mathlib.Data.List.Forall2
import ShellScript.Proofs.Lexing.Lexeme
import ShellScript.Tree.Basic

namespace ShellScript

set_option autoImplicit false

/-- A text that a word can have: a run of word characters that is no reserved word, or
one character with no role of its own. -/
def IsWordText (s : String) : Prop :=
  (s.toList ≠ [] ∧ (∀ c ∈ s.toList, Charset.isWord c = true) ∧ Kind.keywords.lookup s = none) ∨
    ∃ c, s.toList = [c] ∧ Charset.Loose c ∧ Charset.isBlank c = false

/-- A literal without quotes is a word, and a name ends before its closing brace. -/
def Expr.WellFormed : Expr → Prop
  | literal value false _ => IsWordText value
  | literal _ true _ => True
  | reference name _ => '\x7d' ∉ name.toList

/-- The text of an argument and its expression.  A variable is written as it is. -/
inductive IsArgument : String → Expr → Prop
  | literal {value : String} {quoted : Bool} {position : Option Span}
      (h : (Expr.literal value quoted position).WellFormed) :
      IsArgument value (.literal value quoted position)
  | bare {name : String} {position : Option Span}
      (inside : ∀ c ∈ name.toList, Charset.isWord c = true) :
      IsArgument ("$" ++ name) (.reference name position)
  | braced {name : String} {position : Option Span} (inside : '\x7d' ∉ name.toList) :
      IsArgument ("$\x7b" ++ name ++ "\x7d") (.reference name position)

/-- A redirection has one of the three operators. -/
structure Redirection.WellFormed (r : Redirection) : Prop where
  operator : r.operator = ">" ∨ r.operator = ">>" ∨ r.operator = "<"
  target : r.target.WellFormed

/-- A command, at whatever place. -/
structure Command.WellFormed (c : Command) : Prop where
  name : IsWordText c.name
  arguments : List.Forall₂ IsArgument c.args c.arguments
  redirections : ∀ r ∈ c.redirections, r.WellFormed

/-- A command that is no assignment even if it opens a statement: the word `=` can
be its first argument only behind a redirection. -/
def Command.NoAssignment (c : Command) : Prop :=
  c.redirections = [] → ∀ position, c.arguments.head? ≠ some (.literal "=" false position)

namespace Statement

mutual

/-- A statement that a script can have. -/
def WellFormed : Statement → Prop
  | command c => c.WellFormed ∧ c.NoAssignment
  | pipeline first second others _ =>
      first.WellFormed ∧ first.NoAssignment ∧ ∀ c ∈ second :: others, c.WellFormed
  | conditional condition args thenBody none _ =>
      (∀ e ∈ condition :: args, e.WellFormed) ∧ WellFormedAll thenBody
  | conditional condition args thenBody (some elseBody) _ =>
      (∀ e ∈ condition :: args, e.WellFormed) ∧ WellFormedAll thenBody ∧ WellFormedAll elseBody
  | loop (.forIn name iterable) args items body _ =>
      IsWordText name ∧ args = [] ∧ items.head? = some iterable ∧
        (∀ e ∈ items, e.WellFormed) ∧ WellFormedAll body
  | loop (.whileDo condition) args items body _ =>
      (∀ e ∈ condition :: args, e.WellFormed) ∧ items = [] ∧ WellFormedAll body
  | function name body _ => IsWordText name ∧ WellFormedAll body
  | assignment name value _ => IsWordText name ∧ value.WellFormed

/-- Statements that a script can have. -/
def WellFormedAll : List Statement → Prop
  | [] => True
  | s :: ss => WellFormed s ∧ WellFormedAll ss

end

end Statement

/-- A program that a script can have. -/
def Program.WellFormed (p : Program) : Prop := Statement.WellFormedAll p.body

end ShellScript
