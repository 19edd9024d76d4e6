/-
# ShellScript.Tree.Node -- every piece of a tree, and the walk over them

A `Node` is any piece of a tree: a program, a statement, a redirection or an
expression.  It has a tag, a position and children, and the walk visits it and
then walks its children in turn (`walk_eq`).

The children of a conditional loop start with its condition and the words after
it.  A loop over words has its words in `items`, so its children are those words
and the body.  Children are smaller than their parent (`sizeOf_lt`), which is why
every walk ends.
-/
import ShellScript.Tree.Basic

namespace ShellScript

set_option autoImplicit false

/-- The tags of the pieces of a tree. -/
inductive Tag where
  | program
  | command
  | pipeline
  | conditional
  | loop
  | function
  | assignment
  | redirection
  | literal
  | reference
deriving DecidableEq

namespace Tag

/-- Every tag, in its fixed order. -/
def all : List Tag :=
  [program, command, pipeline, conditional, loop, function, assignment, redirection, literal,
    reference]

/-- The printed name of a tag. -/
def name : Tag → String
  | program => "program"
  | command => "command"
  | pipeline => "pipeline"
  | conditional => "conditional"
  | loop => "loop"
  | function => "function"
  | assignment => "assignment"
  | redirection => "redirection"
  | literal => "literal"
  | reference => "variable"

end Tag

/-- A piece of a tree. -/
inductive Node where
  | program (p : Program)
  | statement (s : Statement)
  | redirection (r : Redirection)
  | expr (e : Expr)

namespace Node

/-- A command as a piece of a tree. -/
def command (c : Command) : Node := statement (.command c)

/-- The tag of a piece. -/
def tag : Node → Tag
  | program _ => .program
  | statement (.command _) => .command
  | statement (.pipeline ..) => .pipeline
  | statement (.conditional ..) => .conditional
  | statement (.loop ..) => .loop
  | statement (.function ..) => .function
  | statement (.assignment ..) => .assignment
  | redirection _ => .redirection
  | expr (.literal ..) => .literal
  | expr (.reference ..) => .reference

/-- The position of a piece. -/
def position : Node → Option Span
  | program p => p.position
  | statement s => s.position
  | redirection r => r.position
  | expr e => e.position

/-- The text by which a piece is known: its name, its value, its operator, or the
word that opens it.  A program, a pipeline and a conditional have none. -/
def label : Node → Option String
  | program _ => none
  | statement (.command c) => some c.name
  | statement (.pipeline ..) => none
  | statement (.conditional ..) => none
  | statement (.loop header ..) => some header.kind
  | statement (.function name ..) => some name
  | statement (.assignment name ..) => some name
  | redirection r => some r.operator
  | expr (.literal value ..) => some value
  | expr (.reference name _) => some name

/-- The pieces directly inside a piece. -/
def children : Node → List Node
  | program p => p.body.map statement
  | statement (.command c) => c.arguments.map expr ++ c.redirections.map redirection
  | statement (.pipeline first second others _) => (first :: second :: others).map command
  | statement (.conditional condition args thenBody elseBody _) =>
      (condition :: args).map expr ++ thenBody.map statement ++
        (elseBody.getD []).map statement
  | statement (.loop (.whileDo condition) args items body _) =>
      (condition :: args).map expr ++ items.map expr ++ body.map statement
  | statement (.loop (.forIn _ _) _ items body _) => items.map expr ++ body.map statement
  | statement (.function _ body _) => body.map statement
  | statement (.assignment _ value _) => [expr value]
  | redirection r => [expr r.target]
  | expr _ => []

/-! ## Children are smaller -/

theorem sizeOf_lt_of_mem_expr {n : Node} {es : List Expr} (h : n ∈ es.map expr) :
    sizeOf n < 1 + sizeOf es := by
  obtain ⟨e, he, rfl⟩ := List.mem_map.1 h
  have := List.sizeOf_lt_of_mem he
  simp; omega

theorem sizeOf_lt_of_mem_statement {n : Node} {ss : List Statement} (h : n ∈ ss.map statement) :
    sizeOf n < 1 + sizeOf ss := by
  obtain ⟨s, hs, rfl⟩ := List.mem_map.1 h
  have := List.sizeOf_lt_of_mem hs
  simp; omega

theorem sizeOf_lt_of_mem_redirection {n : Node} {rs : List Redirection}
    (h : n ∈ rs.map redirection) : sizeOf n < 1 + sizeOf rs := by
  obtain ⟨r, hr, rfl⟩ := List.mem_map.1 h
  have := List.sizeOf_lt_of_mem hr
  simp; omega

theorem sizeOf_command (c : Command) : sizeOf (command c) = 2 + sizeOf c := by
  show 1 + (1 + sizeOf c) = 2 + sizeOf c
  omega

theorem sizeOf_command_pos (c : Command) : 0 < sizeOf c := by
  cases c
  simp only [Command.mk.sizeOf_spec]
  omega

/-- A child is smaller than its parent. -/
theorem sizeOf_lt {c n : Node} (h : c ∈ n.children) : sizeOf c < sizeOf n := by
  match n with
  | program ⟨body, p⟩ =>
    have := sizeOf_lt_of_mem_statement h
    simp at this ⊢; omega
  | statement (.command ⟨name, args, arguments, redirections, p⟩) =>
    rcases List.mem_append.1 h with h | h
    · have := sizeOf_lt_of_mem_expr h
      simp at this ⊢; omega
    · have := sizeOf_lt_of_mem_redirection h
      simp at this ⊢; omega
  | statement (.pipeline first second others p) =>
    obtain ⟨d, hd, rfl⟩ := List.mem_map.1 h
    have hfirst := sizeOf_command_pos first
    have hsecond := sizeOf_command_pos second
    rw [sizeOf_command]
    rcases List.mem_cons.1 hd with rfl | hd
    · simp; omega
    rcases List.mem_cons.1 hd with rfl | hd
    · simp; omega
    · have := List.sizeOf_lt_of_mem hd
      simp; omega
  | statement (.conditional condition args thenBody elseBody p) =>
    rcases List.mem_append.1 h with h | h
    · rcases List.mem_append.1 h with h | h
      · rcases List.mem_cons.1 h with rfl | h
        · simp; omega
        · have := sizeOf_lt_of_mem_expr h
          simp; omega
      · have := sizeOf_lt_of_mem_statement h
        simp; omega
    · cases elseBody with
      | none => simp at h
      | some body =>
        have := sizeOf_lt_of_mem_statement h
        simp at this ⊢; omega
  | statement (.loop (.whileDo condition) args items body p) =>
    rcases List.mem_append.1 h with h | h
    · rcases List.mem_append.1 h with h | h
      · rcases List.mem_cons.1 h with rfl | h
        · simp; omega
        · have := sizeOf_lt_of_mem_expr h
          simp; omega
      · have := sizeOf_lt_of_mem_expr h
        simp; omega
    · have := sizeOf_lt_of_mem_statement h
      simp; omega
  | statement (.loop (.forIn name iterable) args items body p) =>
    rcases List.mem_append.1 h with h | h
    · have := sizeOf_lt_of_mem_expr h
      simp; omega
    · have := sizeOf_lt_of_mem_statement h
      simp; omega
  | statement (.function name body p) =>
    have := sizeOf_lt_of_mem_statement h
    simp; omega
  | statement (.assignment name value p) =>
    obtain rfl := List.mem_singleton.1 h
    simp; omega
  | redirection ⟨op, target, p⟩ =>
    obtain rfl := List.mem_singleton.1 h
    simp; omega
  | expr e => simp [children] at h

/-- A piece and everything below it, parents before children and children in
their order. -/
def walk (n : Node) : List Node := n :: n.children.attach.flatMap fun c => walk c.1
termination_by sizeOf n
decreasing_by exact sizeOf_lt c.2

/-- A walk visits the piece and then walks its children in turn. -/
theorem walk_eq (n : Node) : n.walk = n :: n.children.flatMap walk := by
  rw [walk]
  congr 1
  rw [List.flatMap_subtype (g := walk) fun _ _ => rfl, List.unattach_attach]

end Node

end ShellScript
