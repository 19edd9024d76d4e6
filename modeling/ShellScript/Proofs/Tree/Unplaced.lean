/-
# ShellScript.Proofs.Tree.Unplaced -- trees up to positions

`unplaced` takes every position out of a tree and leaves everything else, so two
trees agree up to positions exactly if they are the same without.  The same goes for reports.
-/
import ShellScript.Lexing
import ShellScript.Proofs.Grammar

namespace ShellScript

set_option autoImplicit false

/-- An expression without its position. -/
def Expr.unplaced : Expr → Expr
  | literal value quoted _ => .literal value quoted none
  | reference name _ => .reference name none

/-- A redirection without its positions. -/
def Redirection.unplaced (r : Redirection) : Redirection := ⟨r.operator, r.target.unplaced, none⟩

/-- A command without its positions. -/
def Command.unplaced (c : Command) : Command where
  name := c.name
  args := c.args
  arguments := c.arguments.map Expr.unplaced
  redirections := c.redirections.map Redirection.unplaced
  position := none

/-- The header of a loop without its positions. -/
def LoopHeader.unplaced : LoopHeader → LoopHeader
  | forIn name iterable => .forIn name iterable.unplaced
  | whileDo condition => .whileDo condition.unplaced

namespace Statement

mutual

/-- A statement without its positions. -/
def unplaced : Statement → Statement
  | command c => .command c.unplaced
  | pipeline first second others _ =>
      .pipeline first.unplaced second.unplaced (others.map Command.unplaced) none
  | conditional condition args thenBody none _ =>
      .conditional condition.unplaced (args.map Expr.unplaced) (unplacedAll thenBody) none none
  | conditional condition args thenBody (some elseBody) _ =>
      .conditional condition.unplaced (args.map Expr.unplaced) (unplacedAll thenBody)
        (some (unplacedAll elseBody)) none
  | loop header args items body _ =>
      .loop header.unplaced (args.map Expr.unplaced) (items.map Expr.unplaced) (unplacedAll body)
        none
  | function name body _ => .function name (unplacedAll body) none
  | assignment name value _ => .assignment name value.unplaced none

/-- Statements without their positions. -/
def unplacedAll : List Statement → List Statement
  | [] => []
  | s :: ss => unplaced s :: unplacedAll ss

end

mutual

/-- Nesting is no matter of positions. -/
theorem nesting_unplaced : (s : Statement) → s.unplaced.nesting = s.nesting
  | command _ => rfl
  | pipeline _ _ _ _ => rfl
  | conditional _ _ thenBody none _ => by
      simp only [unplaced, nesting, nestingAll_unplacedAll thenBody]
  | conditional _ _ thenBody (some elseBody) _ => by
      simp only [unplaced, nesting, nestingAll_unplacedAll thenBody,
        nestingAll_unplacedAll elseBody]
  | loop _ _ _ body _ => by simp only [unplaced, nesting, nestingAll_unplacedAll body]
  | function _ body _ => by simp only [unplaced, nesting, nestingAll_unplacedAll body]
  | assignment _ _ _ => rfl

theorem nestingAll_unplacedAll : (ss : List Statement) →
    nestingAll (unplacedAll ss) = nestingAll ss
  | [] => rfl
  | s :: ss => by simp only [unplacedAll, nestingAll, nesting_unplaced s, nestingAll_unplacedAll ss]

end

end Statement

/-- A program without its positions. -/
def Program.unplaced (p : Program) : Program := ⟨Statement.unplacedAll p.body, none⟩

/-! ## Reports -/

/-- A token without its position. -/
def Token.unplaced (t : Token) : Token := { t with position := none }

/-- A report without its position. -/
def Diagnostic.unplaced (d : Diagnostic) : Diagnostic := { d with position := none }

/-- A report of the parser without its position and that of its token. -/
def ParseReport.unplaced (r : ParseReport) : ParseReport :=
  ⟨r.diagnostic.unplaced, r.token.map Token.unplaced⟩

/-- Where a delimiter is left open does not change what is said about it. -/
theorem Unclosed.unplaced_report (delimiter : Unclosed) (severity : String) (s t : Option Span) :
    (delimiter.report severity s).unplaced = (delimiter.report severity t).unplaced := by
  cases delimiter <;> rfl

end ShellScript
