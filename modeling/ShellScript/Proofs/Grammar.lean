/-
# ShellScript.Proofs.Grammar -- the grammar of a script

What a script may say, apart from how it is parsed.  Every rule gives the tokens of
a phrase, the token `next` behind it where that matters, and the tree they mean.
A command goes on for as long as arguments and redirections follow, a pipeline for
as long as commands follow; so neither may stand in front of a token that would
belong to it.  The position of a piece starts with its first token and reaches to
the end of `next`.

The rules of compound statements take the phrases of the statements inside them as
an argument `S`; `IsStatement` closes the circle.
-/
import Mathlib.Data.List.Forall2
import ShellScript.Parse.Statement
import ShellScript.Proofs.Parse.Phrase

namespace ShellScript

set_option autoImplicit false

namespace Statement

mutual

/-- How deep compound statements nest in a statement. -/
def nesting : Statement → Nat
  | command _ => 0
  | pipeline _ _ _ _ => 0
  | conditional _ _ thenBody none _ => nestingAll thenBody + 1
  | conditional _ _ thenBody (some elseBody) _ =>
      max (nestingAll thenBody) (nestingAll elseBody) + 1
  | loop _ _ _ body _ => nestingAll body + 1
  | function _ body _ => nestingAll body + 1
  | assignment _ _ _ => 0

/-- How deep compound statements nest in a list of statements. -/
def nestingAll : List Statement → Nat
  | [] => 0
  | s :: ss => max (nesting s) (nestingAll ss)

end

end Statement

/-- The kinds with which a statement starts. -/
def Kind.opensStatement : Kind → Bool
  | word | kwIf | kwFor | kwWhile | kwFunction => true
  | _ => false

theorem Kind.ne_of_opensStatement {k l : Kind} (starts : k.opensStatement = true)
    (plain : l.opensStatement = false) : k ≠ l := by
  intro same
  rw [same, plain] at starts
  cases starts

/-- How deep compound statements nest in a program. -/
def Program.nesting (p : Program) : Nat := Statement.nestingAll p.body

namespace Grammar

open Parse (Part argumentText)

/-! ## Simple statements -/

/-- `expr = word | quoted string | reference` -/
inductive IsExpr : Token → Expr → Prop
  | word {t : Token} (kind : t.kind = .word) : IsExpr t (.literal t.text false t.position)
  | quoted {t : Token} (kind : t.kind = .quotedString) :
      IsExpr t (.literal t.text true t.position)
  | reference {t : Token} (kind : t.kind = .reference) : IsExpr t (.reference t.text t.position)

/-- `redir = ('>' | '>>' | '<') expr` -/
inductive IsRedirection : Phrase Redirection
  | mk {next operator t : Token} {e : Expr} (kind : operator.kind.isRedirection = true)
      (target : IsExpr t e) :
      IsRedirection next [operator, t]
        ⟨operator.text, e, Span.reach? operator.position next.position⟩

/-- `(expr | redir)*` -/
inductive IsParts : Phrase (List Part)
  | nil {next : Token} : IsParts next [] []
  | argument {next t : Token} {e : Expr} {ws : List Token} {parts : List Part}
      (first : IsExpr t e) (others : IsParts next ws parts) :
      IsParts next (t :: ws) (.argument (argumentText t) e :: parts)
  | redirection {next : Token} {us ws : List Token} {r : Redirection} {parts : List Part}
      (first : IsRedirection (follow ws next) us r) (others : IsParts next ws parts) :
      IsParts next (us ++ ws) (.redirection r :: parts)

/-- `command = word (expr | redir)*`, as long as it can be. -/
inductive IsCommand : Phrase Command
  | mk {next name : Token} {ws : List Token} {parts : List Part} (kind : name.kind = .word)
      (inside : IsParts next ws parts) (no_argument : next.isWordLike = false)
      (no_redirection : next.kind.isRedirection = false) :
      IsCommand next (name :: ws)
        ⟨name.text, parts.filterMap Part.text?, parts.filterMap Part.expr?,
          parts.filterMap Part.redirection?, Span.reach? name.position next.position⟩

/-- `('|' command)*`, as long as it can be. -/
inductive IsPiped : Phrase (List Command)
  | nil {next : Token} (no_pipe : next.kind ≠ .pipe) : IsPiped next [] []
  | cons {next bar : Token} {us ws : List Token} {c : Command} {cs : List Command}
      (kind : bar.kind = .pipe) (first : IsCommand (follow ws next) us c)
      (others : IsPiped next ws cs) : IsPiped next (bar :: us ++ ws) (c :: cs)

/-- `pipeline = command ('|' command)*`; one command alone is that command. -/
inductive IsPipeline : Phrase Statement
  | command {next : Token} {ws : List Token} {c : Command} (only : IsCommand next ws c)
      (no_pipe : next.kind ≠ .pipe) : IsPipeline next ws (.command c)
  | pipeline {next : Token} {us ws : List Token} {c d : Command} {cs : List Command}
      (first : IsCommand (follow ws next) us c) (others : IsPiped next ws (d :: cs)) :
      IsPipeline next (us ++ ws)
        (.pipeline c d cs (Span.reach? c.position next.position))

/-- `assign = word '=' expr` -/
inductive IsAssignment : Phrase Statement
  | mk {next name equals t : Token} {e : Expr} (kind : name.kind = .word)
      (sign : equals.isWord "=" = true) (value : IsExpr t e) :
      IsAssignment next [name, equals, t]
        (.assignment name.text e (Span.reach? name.position next.position))

/-- An assignment starts with these tokens, whatever they go on with. -/
def StartsAssignment (ws : List Token) : Prop :=
  ∃ name equals others, ws = name :: equals :: others ∧ name.kind = .word ∧
    equals.isWord "=" = true

/-! ## Compound statements -/

section Compound

variable (S : Phrase Statement)

/-- `block = (line feed | comment | statement [';' | line feed])*` -/
inductive IsBlock : Phrase (List Statement)
  | nil {next : Token} : IsBlock next [] []
  | newline {next t : Token} {ws : List Token} {ss : List Statement} (kind : t.kind = .newline)
      (others : IsBlock next ws ss) : IsBlock next (t :: ws) ss
  | comment {next t : Token} {ws : List Token} {ss : List Statement} (kind : t.kind = .comment)
      (others : IsBlock next ws ss) : IsBlock next (t :: ws) ss
  | statement {next : Token} {us ws : List Token} {s : Statement} {ss : List Statement}
      (first : S (follow ws next) us s) (others : IsBlock next ws ss) :
      IsBlock next (us ++ ws) (s :: ss)
  | separated {next t : Token} {us ws : List Token} {s : Statement} {ss : List Statement}
      (first : S t us s) (kind : t.kind = .semicolon ∨ t.kind = .newline)
      (others : IsBlock next ws ss) : IsBlock next (us ++ t :: ws) (s :: ss)

/-- `header = expr expr* (';' | line feed | comment)*` -/
inductive IsHeader : List Token → Expr → List Expr → Prop
  | mk {t : Token} {e : Expr} {ws seps : List Token} {es : List Expr} (first : IsExpr t e)
      (others : List.Forall₂ IsExpr ws es)
      (separators : ∀ t ∈ seps, t.kind.isHeaderSeparator = true) :
      IsHeader (t :: ws ++ seps) e es

/-- `if header then block [else block] fi` -/
inductive IsConditional : Phrase Statement
  | noElse {next kwIf kwThen kwFi : Token} {hs ws : List Token} {e : Expr} {es : List Expr}
      {thenBody : List Statement} (if_kind : kwIf.kind = .kwIf) (header : IsHeader hs e es)
      (then_kind : kwThen.kind = .kwThen) (then_body : IsBlock S kwFi ws thenBody)
      (fi_kind : kwFi.kind = .kwFi) :
      IsConditional next (kwIf :: hs ++ kwThen :: ws ++ [kwFi])
        (.conditional e es thenBody none (Span.reach? kwIf.position next.position))
  | withElse {next kwIf kwThen kwElse kwFi : Token} {hs us ws : List Token} {e : Expr}
      {es : List Expr} {thenBody elseBody : List Statement} (if_kind : kwIf.kind = .kwIf)
      (header : IsHeader hs e es) (then_kind : kwThen.kind = .kwThen)
      (then_body : IsBlock S kwElse us thenBody) (else_kind : kwElse.kind = .kwElse)
      (else_body : IsBlock S kwFi ws elseBody) (fi_kind : kwFi.kind = .kwFi) :
      IsConditional next (kwIf :: hs ++ kwThen :: us ++ kwElse :: ws ++ [kwFi])
        (.conditional e es thenBody (some elseBody) (Span.reach? kwIf.position next.position))

/-- `for word 'in' header do block done` and `while header do block done` -/
inductive IsLoop : Phrase Statement
  | forIn {next kwFor name kwIn kwDo kwDone : Token} {hs ws : List Token} {e : Expr}
      {es : List Expr} {body : List Statement} (for_kind : kwFor.kind = .kwFor)
      (name_kind : name.kind = .word) (in_word : kwIn.isWord "in" = true)
      (header : IsHeader hs e es) (do_kind : kwDo.kind = .kwDo)
      (inside : IsBlock S kwDone ws body) (done_kind : kwDone.kind = .kwDone) :
      IsLoop next (kwFor :: name :: kwIn :: hs ++ kwDo :: ws ++ [kwDone])
        (.loop (.forIn name.text e) [] (e :: es) body
          (Span.reach? kwFor.position next.position))
  | whileDo {next kwWhile kwDo kwDone : Token} {hs ws : List Token} {e : Expr} {es : List Expr}
      {body : List Statement} (while_kind : kwWhile.kind = .kwWhile) (header : IsHeader hs e es)
      (do_kind : kwDo.kind = .kwDo) (inside : IsBlock S kwDone ws body)
      (done_kind : kwDone.kind = .kwDone) :
      IsLoop next (kwWhile :: hs ++ kwDo :: ws ++ [kwDone])
        (.loop (.whileDo e) es [] body (Span.reach? kwWhile.position next.position))

/-- `function word '(' ')' '{' block '}'` -/
inductive IsFunction : Phrase Statement
  | mk {next kwFunction name lparen rparen lbrace rbrace : Token} {ws : List Token}
      {body : List Statement} (function_kind : kwFunction.kind = .kwFunction)
      (name_kind : name.kind = .word) (lparen_kind : lparen.kind = .lparen)
      (rparen_kind : rparen.kind = .rparen) (lbrace_kind : lbrace.kind = .lbrace)
      (inside : IsBlock S rbrace ws body) (rbrace_kind : rbrace.kind = .rbrace) :
      IsFunction next (kwFunction :: name :: lparen :: rparen :: lbrace :: ws ++ [rbrace])
        (.function name.text body (Span.reach? kwFunction.position next.position))

end Compound

/-- `statement = assign | pipeline | conditional | loop | function`.  What starts
like an assignment is no pipeline. -/
inductive IsStatement : Phrase Statement
  | assignment {next : Token} {ws : List Token} {s : Statement} (h : IsAssignment next ws s) :
      IsStatement next ws s
  | pipeline {next : Token} {ws : List Token} {s : Statement} (h : IsPipeline next ws s)
      (other : ¬ StartsAssignment ws) : IsStatement next ws s
  | conditional {next : Token} {ws : List Token} {s : Statement}
      (h : IsConditional IsStatement next ws s) : IsStatement next ws s
  | loop {next : Token} {ws : List Token} {s : Statement} (h : IsLoop IsStatement next ws s) :
      IsStatement next ws s
  | function {next : Token} {ws : List Token} {s : Statement}
      (h : IsFunction IsStatement next ws s) : IsStatement next ws s

/-- A script is a block up to the end mark, and its program spans all of it. -/
inductive IsScript : List Token → Program → Prop
  | mk {ws : List Token} {last : Token} {body : List Statement} (last_kind : last.kind = .eof)
      (block : IsBlock IsStatement last ws body) :
      IsScript (ws ++ [last]) ⟨body, Span.reach? (follow ws last).position last.position⟩

end Grammar

end ShellScript
