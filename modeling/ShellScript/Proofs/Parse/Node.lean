/-
# ShellScript.Proofs.Parse.Node -- every piece of a tree is a phrase

A piece of a tree is made by a rule of the grammar, like the whole (`IsNode`): it is the
meaning of some of the tokens of the whole, in front of the token that stands behind them
there (`Phrase.Inside`).  Pieces that stand one behind another are a row of phrases
(`Phrase.Row`).  So it is for the children of a piece, rule by rule (`row_of_rows`), hence
for all that a walk comes to (`inside_of_walk`) and for every piece of a parsed script
(`node_of_parse`).

The arguments of a command and its redirections may stand in any order, and the tree no
longer says in which; so the children of a command are two rows (`Node.rows`), and those of
any other piece are one.

What is to be shown of every piece of a parsed tree may therefore be read off one rule.
-/
import ShellScript.Proofs.Parse.Script
import ShellScript.Tree.Node

namespace ShellScript

set_option autoImplicit false

open Grammar Parse

/-! ## Phrases among other tokens -/

namespace Phrase

variable {α β : Type} {G : Phrase α} {H : Phrase β} {next : Token} {us vs ws : List Token}

/-- Some tokens in a row are a phrase of `G`. -/
def Inside (G : Phrase α) : Phrase α := fun next ws a =>
  ∃ us vs zs, ws = us ++ vs ++ zs ∧ G (follow zs next) vs a

theorem Inside.self {a : α} (h : G next ws a) : Inside G next ws a :=
  ⟨[], ws, [], by simp, h⟩

theorem Inside.left {a : α} (h : Inside G (follow vs next) us a) :
    Inside G next (us ++ vs) a := by
  obtain ⟨before, inner, behind, rfl, found⟩ := h
  rw [← follow_append] at found
  exact ⟨before, inner, behind ++ vs, by simp, found⟩

theorem Inside.right {a : α} (h : Inside G next vs a) (us : List Token) :
    Inside G next (us ++ vs) a := by
  obtain ⟨before, inner, behind, rfl, found⟩ := h
  exact ⟨us ++ before, inner, behind, by simp, found⟩

/-- What is inside a phrase of `G` is inside whatever holds that phrase. -/
theorem Inside.trans {a : α} {b : β} (h : Inside G next ws a)
    (inner : ∀ next vs, G next vs a → Inside H next vs b) : Inside H next ws b := by
  obtain ⟨us, vs, zs, rfl, found⟩ := h
  exact ((inner _ vs found).right us).left

theorem Inside.forall_mem {a : α} {P : Token → Prop} (h : Inside G next ws a)
    (all : ∀ t ∈ ws, P t) : ∃ next vs, G next vs a ∧ ∀ t ∈ vs, P t := by
  obtain ⟨us, vs, zs, rfl, found⟩ := h
  exact ⟨_, vs, found, fun t member => all t (by simp [member])⟩

/-- Phrases of `G` one behind another, among tokens that may be anything else. -/
inductive Row (G : Phrase α) : Phrase (List α)
  | nil {next : Token} {ws : List Token} : Row G next ws []
  | cons {next : Token} {us vs ws : List Token} {a : α} {as : List α}
      (first : G (follow ws next) vs a) (others : Row G next ws as) :
      Row G next (us ++ vs ++ ws) (a :: as)

theorem Row.single {a : α} (h : G next ws a) : Row G next ws [a] := by
  have row : Row G next ([] ++ ws ++ []) [a] := .cons h .nil
  rwa [List.nil_append, List.append_nil] at row

theorem Row.right {as : List α} (h : Row G next vs as) (us : List Token) :
    Row G next (us ++ vs) as := by
  cases h with
  | nil => exact .nil
  | cons first others =>
    rw [← List.append_assoc, ← List.append_assoc]
    exact .cons first others

theorem Row.append {as bs : List α} (left : Row G (follow vs next) us as)
    (right : Row G next vs bs) : Row G next (us ++ vs) (as ++ bs) := by
  generalize behind : follow vs next = mid at left
  induction left with
  | nil => exact right.right _
  | cons first others ih =>
    subst behind
    rw [← follow_append] at first
    rw [List.append_assoc]
    exact .cons first (ih rfl)

theorem Row.left {as : List α} (h : Row G (follow vs next) us as) :
    Row G next (us ++ vs) as := by
  have row : Row G next (us ++ vs) (as ++ []) := h.append .nil
  rwa [List.append_nil] at row

theorem Row.map {as : List α} (h : Row G next ws as) {f : α → β}
    (each : ∀ next ws a, G next ws a → H next ws (f a)) : Row H next ws (as.map f) := by
  induction h with
  | nil => exact .nil
  | cons first _ ih => exact .cons (each _ _ _ first) ih

theorem Row.inside {as : List α} (h : Row G next ws as) : ∀ a ∈ as, Inside G next ws a := by
  induction h with
  | nil => simp
  | @cons _ us vs ws a as first _ ih =>
    refine List.forall_mem_cons.2 ⟨?_, fun b member => (ih b member).right (us ++ vs)⟩
    exact ((Inside.self first).right us).left

end Phrase

open Phrase (Inside Row)

/-! ## Pieces of a tree -/

/-- The children of a piece, in rows that stand in the script as they do here. -/
def Node.rows : Node → List (List Node)
  | statement (.command c) => [c.arguments.map expr, c.redirections.map redirection]
  | n => [n.children]

theorem Node.flatten_rows (n : Node) : n.rows.flatten = n.children := by
  unfold rows
  split
  · simp [children]
  · exact List.append_nil _

/-- The meaning of some tokens as a piece of a tree. -/
inductive IsNode : Phrase Node
  | expr {next t : Token} {e : Expr} (h : IsExpr t e) : IsNode next [t] (.expr e)
  | redirection {next : Token} {ws : List Token} {r : Redirection} (h : IsRedirection next ws r) :
      IsNode next ws (.redirection r)
  | command {next : Token} {ws : List Token} {c : Command} (h : IsCommand next ws c) :
      IsNode next ws (.command c)
  | statement {next : Token} {ws : List Token} {s : Statement} (h : IsStatement next ws s) :
      IsNode next ws (.statement s)

section Children

variable {next : Token} {ws : List Token}

theorem row_of_forall₂ {es : List Expr} (h : List.Forall₂ IsExpr ws es) :
    Row IsNode next ws (es.map .expr) := by
  induction h with
  | nil => exact .nil
  | cons first _ ih => exact (Row.single (IsNode.expr first)).append ih

theorem row_of_isHeader {e : Expr} {es : List Expr} (h : IsHeader ws e es) :
    Row IsNode next ws ((e :: es).map .expr) := by
  cases h with
  | mk first others => exact (row_of_forall₂ (.cons first others)).left

theorem rows_of_isParts {parts : List Part} (h : IsParts next ws parts) :
    Row IsNode next ws ((parts.filterMap Part.expr?).map .expr) ∧
      Row IsNode next ws ((parts.filterMap Part.redirection?).map .redirection) := by
  induction h with
  | nil => exact ⟨.nil, .nil⟩
  | @argument _ t _ _ _ first _ ih =>
    exact ⟨(Row.single (IsNode.expr first)).append ih.1, ih.2.right [t]⟩
  | @redirection _ us _ _ _ first _ ih =>
    exact ⟨ih.1.right us, (Row.single (IsNode.redirection first)).append ih.2⟩

theorem rows_of_isCommand {c : Command} (h : IsCommand next ws c) :
    ∀ row ∈ (Node.command c).rows, Row IsNode next ws row := by
  cases h with
  | @mk _ name _ _ _ inside =>
    obtain ⟨exprs, redirections⟩ := rows_of_isParts inside
    exact List.forall_mem_cons.2 ⟨exprs.right [name],
      List.forall_mem_singleton.2 (redirections.right [name])⟩

theorem row_of_isPiped {cs : List Command} (h : IsPiped next ws cs) :
    Row IsNode next ws (cs.map .command) := by
  induction h with
  | nil => exact .nil
  | @cons _ bar _ _ _ _ _ first _ ih =>
    exact ((Row.single (IsNode.command first)).right [bar]).append ih

/-- The statements of a block, for any phrases `S` of statements. -/
theorem row_of_isBlock {S : Phrase Statement} {ss : List Statement} (h : IsBlock S next ws ss) :
    Row S next ws ss := by
  induction h with
  | nil => exact .nil
  | @newline _ t _ _ _ _ ih => exact ih.right [t]
  | @comment _ t _ _ _ _ ih => exact ih.right [t]
  | statement first _ ih => exact (Row.single first).append ih
  | @separated _ t _ _ _ _ first _ _ ih => exact (Row.single first).append (ih.right [t])

/-- The statements of a block as pieces of a tree. -/
theorem row_of_body {ss : List Statement} (h : IsBlock IsStatement next ws ss) :
    Row IsNode next ws (ss.map .statement) :=
  (row_of_isBlock h).map fun _ _ _ found => .statement found

theorem row_of_isConditional {s : Statement} (h : IsConditional IsStatement next ws s) :
    Row IsNode next ws (Node.statement s).children := by
  cases h with
  | @noElse _ kwIf kwThen _ _ _ _ _ _ _ header _ block =>
    have parts := ((row_of_isHeader header).right [kwIf]).append ((row_of_body block).right [kwThen])
    exact parts.append .nil
  | @withElse _ kwIf kwThen kwElse _ _ _ _ _ _ _ _ _ header _ block _ block' =>
    have parts := ((row_of_isHeader header).right [kwIf]).append ((row_of_body block).right [kwThen])
    exact (parts.append ((row_of_body block').right [kwElse])).left

theorem row_of_isLoop {s : Statement} (h : IsLoop IsStatement next ws s) :
    Row IsNode next ws (Node.statement s).children := by
  cases h with
  | @forIn _ kwFor name kwIn kwDo _ _ _ _ _ _ _ _ _ header _ block =>
    exact (((row_of_isHeader header).right [kwFor, name, kwIn]).append
      ((row_of_body block).right [kwDo])).left
  | @whileDo _ kwWhile kwDo _ _ _ e es body _ header _ block =>
    show Row IsNode next _ ((e :: es).map Node.expr ++ [] ++ body.map Node.statement)
    rw [List.append_nil]
    exact (((row_of_isHeader header).right [kwWhile]).append
      ((row_of_body block).right [kwDo])).left

theorem rows_of_isStatement {s : Statement} (h : IsStatement next ws s) :
    ∀ row ∈ (Node.statement s).rows, Row IsNode next ws row := by
  cases h with
  | assignment h =>
    cases h with
    | @mk _ name equals _ _ _ _ value =>
      exact List.forall_mem_singleton.2 ((Row.single (IsNode.expr value)).right [name, equals])
  | pipeline h =>
    cases h with
    | command only => exact rows_of_isCommand only
    | pipeline first others =>
      exact List.forall_mem_singleton.2
        ((Row.single (IsNode.command first)).append (row_of_isPiped others))
  | conditional h =>
    have row := row_of_isConditional h
    cases h <;> exact List.forall_mem_singleton.2 row
  | loop h =>
    have row := row_of_isLoop h
    cases h <;> exact List.forall_mem_singleton.2 row
  | function h =>
    cases h with
    | @mk _ kwFunction name lparen rparen lbrace _ _ _ _ _ _ _ _ block =>
      exact List.forall_mem_singleton.2
        ((row_of_body block).right [kwFunction, name, lparen, rparen, lbrace]).left

/-- The children of a piece are rows of phrases among its tokens. -/
theorem row_of_rows {n : Node} (h : IsNode next ws n) : ∀ row ∈ n.rows, Row IsNode next ws row := by
  cases h with
  | expr => exact List.forall_mem_singleton.2 .nil
  | redirection h =>
    cases h with
    | @mk _ operator _ _ _ target =>
      exact List.forall_mem_singleton.2 ((Row.single (IsNode.expr target)).right [operator])
  | command h => exact rows_of_isCommand h
  | statement h => exact rows_of_isStatement h

/-- What stands in the rows of a piece is inside their tokens. -/
theorem inside_of_rows {n : Node} (rows : ∀ row ∈ n.rows, Row IsNode next ws row) :
    ∀ m ∈ n.children, Inside IsNode next ws m := by
  intro m member
  rw [← n.flatten_rows] at member
  obtain ⟨row, isRow, member⟩ := List.mem_flatten.1 member
  exact (rows row isRow).inside m member

end Children

/-- Everything that a walk comes to is a phrase inside the piece where it starts. -/
theorem inside_of_walk {next : Token} {ws : List Token} {n m : Node} (h : IsNode next ws n)
    (member : m ∈ n.walk) : Inside IsNode next ws m := by
  rw [Node.walk_eq] at member
  rcases List.mem_cons.1 member with rfl | below
  · exact .self h
  · obtain ⟨child, isChild, below⟩ := List.mem_flatMap.1 below
    exact (inside_of_rows (row_of_rows h) child isChild).trans fun _ _ found => inside_of_walk found below
termination_by sizeOf n
decreasing_by exact Node.sizeOf_lt isChild

/-! ## Parsed scripts -/

/-- The statements of a body, for any phrases `S` of statements. -/
theorem row_of_isBody {S : Phrase Statement} {next : Token} {ws : List Token}
    {b : List Statement × List Token} (h : IsBody S next ws b) : Row S next ws b.1 := by
  induction h with
  | stop => exact .nil
  | @round next us vs ws _ _ first _ _ ih =>
    have others : Row S next (us ++ (vs ++ ws)) _ := (ih.right vs).right us
    cases first with
    | lineFeed => exact others
    | comment => exact others
    | statement h => exact (Row.single h).append (ih.right vs)
    | skipped => exact others

/-- The statements of a parsed script are a row of phrases, and its program spans all tokens. -/
theorem row_of_parse {source : String} {strict : Bool} {p : Program}
    (parsed : parse source strict = .ok p) :
    ∃ ws last, (Lexing.ofScript source strict).tokens = ws ++ [last] ∧
      Row (Within nestingLimit) last ws p.body ∧
      p.position = Span.reach? (follow ws last).position last.position := by
  obtain ⟨-, ws, last, split, body, position⟩ := Parser.parse_ok_iff.1 ⟨parsed, rfl⟩
  exact ⟨ws, last, split, row_of_isBody body, position⟩

/-- **Every piece of a parsed tree is a phrase of the script.** -/
theorem node_of_parse {source : String} {strict : Bool} {p : Program}
    (parsed : parse source strict = .ok p) :
    ∃ ws last, (Lexing.ofScript source strict).tokens = ws ++ [last] ∧
      (∀ s ∈ p.body, Inside IsStatement last ws s) ∧
      ∀ n ∈ (Node.program p).walk, n = .program p ∨ Inside IsNode last ws n := by
  obtain ⟨ws, last, split, body, -⟩ := row_of_parse parsed
  have statements : ∀ s ∈ p.body, Inside IsStatement last ws s := fun s member =>
    (body.inside s member).trans fun _ _ found => .self found.1
  refine ⟨ws, last, split, statements, fun n member => ?_⟩
  rw [Node.walk_eq] at member
  rcases List.mem_cons.1 member with same | below
  · exact Or.inl same
  · obtain ⟨child, isChild, below⟩ := List.mem_flatMap.1 below
    obtain ⟨s, isStatement, rfl⟩ := List.mem_map.1 isChild
    exact Or.inr ((statements s isStatement).trans fun _ _ found =>
      inside_of_walk (.statement found) below)

end ShellScript
