/-
# ShellScript.Tree.Visitor -- visits that record what they meet

A visitor has handlers for some tags.  Where a piece has a handler it is
recorded, and the handler either goes on to the children or stops there; where it
has none, the visit goes straight on to the children and has no result.  The
result of a handler is how many pieces are recorded by then, its own included.
-/
import ShellScript.Tree.Node

namespace ShellScript

set_option autoImplicit false

/-- What a handler does once it has recorded a piece. -/
inductive Descent where
  | descend
  | stop
deriving DecidableEq

/-- The handlers of a visitor. -/
structure Visitor where
  handler : Tag → Option Descent

namespace Visitor

/-- A visit to a piece, after `seen` have been recorded: its result, and what is
recorded afterwards. -/
def visit (v : Visitor) (n : Node) (seen : List Node) : Option Nat × List Node :=
  let below (seen : List Node) : List Node :=
    n.children.attach.foldl (fun seen c => (visit v c.1 seen).2) seen
  match v.handler n.tag with
  | none => (none, below seen)
  | some .descend => (some (seen.length + 1), below (seen ++ [n]))
  | some .stop => (some (seen.length + 1), seen ++ [n])
termination_by sizeOf n
decreasing_by exact Node.sizeOf_lt c.2

/-- A visit to a piece: its result, and the pieces recorded, in order. -/
def accept (v : Visitor) (n : Node) : Option Nat × List Node := v.visit n []

/-- What a visit records below a piece: the visits to its children in turn. -/
def visitAll (v : Visitor) (ns : List Node) (seen : List Node) : List Node :=
  ns.foldl (fun seen c => (v.visit c seen).2) seen

theorem visit_eq (v : Visitor) (n : Node) (seen : List Node) :
    v.visit n seen =
      match v.handler n.tag with
      | none => (none, v.visitAll n.children seen)
      | some .descend => (some (seen.length + 1), v.visitAll n.children (seen ++ [n]))
      | some .stop => (some (seen.length + 1), seen ++ [n]) := by
  have below (seen : List Node) :
      n.children.attach.foldl (fun seen c => (visit v c.1 seen).2) seen =
        v.visitAll n.children seen := by
    rw [visitAll, List.foldl_subtype (g := fun seen c => (visit v c seen).2) fun _ _ _ => rfl,
      List.unattach_attach]
  rw [visit]
  simp only [below]

end Visitor

end ShellScript
