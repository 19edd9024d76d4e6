/-
# ShellScript.Proofs.Motion -- other positions for the same script

A `Motion` gives every span another one, in such a way that a span stretched to the end of
another is moved to the moved span stretched to the moved end.  Positions are made by
stretching alone, so it makes no difference whether the tokens are moved or what is made
of them.

What is moved keeps everything but its positions.  Two motions matter here: `Motion.shift`
puts a text behind another, and `Motion.retract` takes back one character from what ends
just behind a certain place.
-/
import ShellScript.Parse.Program

namespace ShellScript

set_option autoImplicit false

/-- Another span for every span, the same for a stretched span as for its parts. -/
structure Motion where
  apply : Span → Span
  reach : ∀ s t : Span, apply (s.reach t.endOffset) = (apply s).reach (apply t).endOffset

/-- The span moved on by `offset` characters and `lines` lines, in the same column. -/
def Span.shift (offset lines : Nat) (s : Span) : Span :=
  ⟨s.startOffset + offset, s.endOffset + offset, s.line + lines, s.column⟩

/-- The span ended at `n` where it ends one further. -/
def Span.retract (n : Nat) (s : Span) : Span :=
  { s with endOffset := if s.endOffset = n + 1 then n else s.endOffset }

theorem Span.retract_of_le {n : Nat} {s : Span} (inside : s.endOffset ≤ n) : s.retract n = s := by
  have stays : s.endOffset ≠ n + 1 := by omega
  simp [Span.retract, stays]

namespace Motion

/-- On by `offset` characters and `lines` lines. -/
def shift (offset lines : Nat) : Motion where
  apply := Span.shift offset lines
  reach s t := by
    simp only [Span.shift, Span.reach, Span.mk.injEq, true_and, and_true]
    omega

/-- Back to `n` from one further. -/
def retract (n : Nat) : Motion where
  apply := Span.retract n
  reach s t := by
    simp only [Span.retract, Span.reach, Span.mk.injEq, true_and, and_true]
    omega

/-- The position of a moved piece. -/
def position (m : Motion) : Option Span → Option Span := Option.map m.apply

theorem position_reach? (m : Motion) (s t : Option Span) :
    m.position (Span.reach? s t) = Span.reach? (m.position s) (m.position t) := by
  cases s with
  | none => rfl
  | some s =>
    cases t with
    | none => rfl
    | some t => exact congrArg some (m.reach s t)

end Motion

/-! ## Moved tokens and trees -/

variable (m : Motion)

/-- A token at another place. -/
def Token.move (t : Token) : Token := { t with position := m.position t.position }

theorem Token.move_eq_self {m : Motion} {t : Token}
    (fixed : m.position t.position = t.position) : t.move m = t := by
  rw [Token.move, fixed]

/-- An expression at another place. -/
def Expr.move : Expr → Expr
  | literal value quoted position => .literal value quoted (m.position position)
  | reference name position => .reference name (m.position position)

/-- A redirection at another place. -/
def Redirection.move (r : Redirection) : Redirection :=
  ⟨r.operator, r.target.move m, m.position r.position⟩

/-- A command at another place. -/
def Command.move (c : Command) : Command where
  name := c.name
  args := c.args
  arguments := c.arguments.map (Expr.move m)
  redirections := c.redirections.map (Redirection.move m)
  position := m.position c.position

/-- The header of a loop at another place. -/
def LoopHeader.move : LoopHeader → LoopHeader
  | forIn name iterable => .forIn name (iterable.move m)
  | whileDo condition => .whileDo (condition.move m)

namespace Statement

mutual

/-- A statement at another place. -/
def move : Statement → Statement
  | command c => .command (c.move m)
  | pipeline first second others p =>
      .pipeline (first.move m) (second.move m) (others.map (Command.move m)) (m.position p)
  | conditional condition args thenBody none p =>
      .conditional (condition.move m) (args.map (Expr.move m)) (moveAll thenBody) none
        (m.position p)
  | conditional condition args thenBody (some elseBody) p =>
      .conditional (condition.move m) (args.map (Expr.move m)) (moveAll thenBody)
        (some (moveAll elseBody)) (m.position p)
  | loop header args items body p =>
      .loop (header.move m) (args.map (Expr.move m)) (items.map (Expr.move m)) (moveAll body)
        (m.position p)
  | function name body p => .function name (moveAll body) (m.position p)
  | assignment name value p => .assignment name (value.move m) (m.position p)

/-- Statements at another place. -/
def moveAll : List Statement → List Statement
  | [] => []
  | s :: ss => move s :: moveAll ss

end

@[simp] theorem moveAll_eq_map (ss : List Statement) : moveAll m ss = ss.map (move m) := by
  induction ss with
  | nil => simp [moveAll]
  | cons s ss ih => simp [moveAll, ih]

end Statement

/-! ## Tokens that look the same -/

/-- A token without its place. -/
def Token.look (t : Token) : Kind × String × String := (t.kind, t.text, t.lexeme)

/-- Every place taken for the same one. -/
def Motion.erase : Motion := ⟨fun _ => ⟨0, 0, 0, 0⟩, fun _ _ => rfl⟩

/-- Tokens that look the same are the same but for their places. -/
theorem move_erase_eq {us vs : List Token} (placed : ∀ t ∈ us, t.position.isSome = true)
    (placed' : ∀ t ∈ vs, t.position.isSome = true) (alike : us.map Token.look = vs.map Token.look) :
    us.map (Token.move .erase) = vs.map (Token.move .erase) := by
  let bare (l : Kind × String × String) : Token := ⟨l.1, l.2.1, l.2.2, some ⟨0, 0, 0, 0⟩⟩
  have same {ts : List Token} (placed : ∀ t ∈ ts, t.position.isSome = true) :
      ts.map (Token.move .erase) = (ts.map Token.look).map bare := by
    rw [List.map_map]
    refine List.map_congr_left fun t member => ?_
    obtain ⟨span, position⟩ := Option.isSome_iff_exists.1 (placed t member)
    simp only [Token.move, Motion.position, position, Option.map_some, Function.comp_apply]
    rfl
  rw [same placed, same placed', alike]

/-! ## Moved reports -/

/-- A report on another place. -/
def Diagnostic.move (d : Diagnostic) : Diagnostic := { d with position := m.position d.position }

/-- A report of the parser on another place. -/
def ParseReport.move (r : ParseReport) : ParseReport :=
  ⟨r.diagnostic.move m, r.token.map (Token.move m)⟩

/-- An error at another place. -/
def SyntaxError.move : SyntaxError → SyntaxError
  | missingKind expected message found => .missingKind expected message (found.move m)
  | missingText expected found => .missingText expected (found.move m)
  | unexpected found context => .unexpected (found.move m) context
  | noExpression found => .noExpression (found.move m)

/-- A failure at another place. -/
def Failure.move : Failure → Failure
  | malformed e => .malformed (e.move m)
  | tooDeep => .tooDeep
  | fault f => .fault f

theorem SyntaxError.report_move (e : SyntaxError) : (e.move m).report = e.report.move m := by
  cases e <;> rfl

/-- A moved failure is reported as before, at the other place. -/
theorem Failure.report_move (e : Failure) (position : Option Span) :
    (e.move m).report (m.position position) = (e.report position).move m := by
  cases e with
  | malformed e => exact e.report_move m
  | tooDeep => rfl
  | fault f => rfl

theorem ParseReport.skipped_move (t : Token) :
    ParseReport.skipped (t.move m) = (ParseReport.skipped t).move m := rfl

/-- A body at another place. -/
def Body.move (b : Body) : Body where
  statements := b.statements.map (Statement.move m)
  skipped := b.skipped.map (Token.move m)
  rest := b.rest.map (Token.move m)
  failure := b.failure.map (Failure.move m)

end ShellScript
