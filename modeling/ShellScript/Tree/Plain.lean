/-
# ShellScript.Tree.Plain -- trees as plain data

A tree is handed to other programs as plain data: every piece becomes a record
of its tag, under `type`, and all of its fields, in a fixed order.  An absent
field is a null, so an absent list differs from an empty one.
-/
import ShellScript.Tree.Node

namespace ShellScript

set_option autoImplicit false

/-- Plain data: nulls, truth values, numbers, texts, lists and records. -/
inductive Plain where
  | null
  | bool (b : Bool)
  | int (i : Int)
  | text (s : String)
  | list (items : List Plain)
  | record (fields : List (String × Plain))

namespace Plain

/-- A value that may be absent. -/
def ofOption {α : Type} (f : α → Plain) : Option α → Plain
  | none => null
  | some a => f a

/-- A list of values. -/
def ofList {α : Type} (f : α → Plain) (as : List α) : Plain := list (as.map f)

/-- The record of a piece with the given tag and fields. -/
def piece (tag : Tag) (fields : List (String × Plain)) : Plain :=
  record (("type", text tag.name) :: fields)

end Plain

/-- A span as plain data. -/
def Span.plain (s : Span) : Plain :=
  .record [("start_offset", .int s.startOffset), ("end_offset", .int s.endOffset),
    ("line", .int s.line), ("column", .int s.column)]

/-- A position, which may be absent, as plain data. -/
def Plain.position (p : Option Span) : Plain := .ofOption Span.plain p

/-- An expression as plain data. -/
def Expr.plain : Expr → Plain
  | .literal value quoted p =>
      .piece .literal [("value", .text value), ("quoted", .bool quoted), ("position", .position p)]
  | .reference name p => .piece .reference [("name", .text name), ("position", .position p)]

/-- A redirection as plain data. -/
def Redirection.plain (r : Redirection) : Plain :=
  .piece .redirection [("operator", .text r.operator), ("target", r.target.plain),
    ("position", .position r.position)]

/-- A command as plain data. -/
def Command.plain (c : Command) : Plain :=
  .piece .command [("name", .text c.name), ("args", .ofList .text c.args),
    ("arguments", .ofList Expr.plain c.arguments),
    ("redirections", .ofList Redirection.plain c.redirections), ("position", .position c.position)]

namespace Statement

mutual

/-- A statement as plain data. -/
def plain : Statement → Plain
  | command c => c.plain
  | pipeline first second others p =>
      .piece .pipeline [("commands", .ofList Command.plain (first :: second :: others)),
        ("position", .position p)]
  | conditional condition args thenBody none p =>
      .piece .conditional [("condition", condition.plain), ("then_body", .list (plainAll thenBody)),
        ("else_body", .null), ("condition_args", .ofList Expr.plain args),
        ("position", .position p)]
  | conditional condition args thenBody (some elseBody) p =>
      .piece .conditional [("condition", condition.plain), ("then_body", .list (plainAll thenBody)),
        ("else_body", .list (plainAll elseBody)), ("condition_args", .ofList Expr.plain args),
        ("position", .position p)]
  | loop header args items body p =>
      .piece .loop [("kind", .text header.kind), ("body", .list (plainAll body)),
        ("condition", .ofOption Expr.plain header.condition?),
        ("variable", .ofOption .text header.name?),
        ("iterable", .ofOption Expr.plain header.iterable?),
        ("condition_args", .ofList Expr.plain args), ("items", .ofList Expr.plain items),
        ("position", .position p)]
  | function name body p =>
      .piece .function [("name", .text name), ("body", .list (plainAll body)),
        ("position", .position p)]
  | assignment name value p =>
      .piece .assignment [("name", .text name), ("value", value.plain), ("position", .position p)]

/-- Statements as plain data, one by one. -/
def plainAll : List Statement → List Plain
  | [] => []
  | s :: ss => plain s :: plainAll ss

end

theorem plainAll_eq_map (ss : List Statement) : plainAll ss = ss.map plain := by
  induction ss with
  | nil => rfl
  | cons s ss ih => rw [plainAll, ih, List.map_cons]

end Statement

/-- A program as plain data. -/
def Program.plain (p : Program) : Plain :=
  .piece .program [("body", .ofList Statement.plain p.body), ("position", .position p.position)]

/-- A piece of a tree as plain data. -/
def Node.plain : Node → Plain
  | program p => p.plain
  | statement s => s.plain
  | redirection r => r.plain
  | expr e => e.plain

end ShellScript
