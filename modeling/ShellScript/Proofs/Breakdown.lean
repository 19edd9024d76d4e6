/-
# ShellScript.Proofs.Breakdown -- the grammar of what goes wrong

Where a script breaks a rule of the grammar, and what is said about it, apart from how it
is parsed.  Every rule here is one of the grammar, broken off: it gives the tokens of the
phrase that are still right, the first token `t` that is not, and the failure.

The rules of compound statements take as arguments the phrases `S` of the statements inside
them and the failures `E` of those that are broken; `Broken` closes the circle, with a bound
on the depth.
-/
import ShellScript.Proofs.Parse.Statement
import ShellScript.Proofs.Parse.Fails

namespace ShellScript

set_option autoImplicit false

namespace Grammar

open Parse

/-! ## Simple statements -/

/-- A command without its name, or a redirection without its target. -/
inductive BrokenCommand : Phrase Failure
  | name {t : Token} (kind : t.kind ≠ .word) :
      BrokenCommand t [] (.malformed (.missingKind .word "Expected command name" t))
  | target {t name operator : Token} {ws : List Token} {parts : List Part}
      (kind : name.kind = .word) (inside : IsParts operator ws parts)
      (operator_kind : operator.kind.isRedirection = true) (plain : t.isWordLike = false) :
      BrokenCommand t (name :: ws ++ [operator])
        (.malformed (.missingKind .word "Expected redirection target" t))

/-- Commands, each behind a `|`, of which the last is broken. -/
inductive BrokenPiped : Phrase Failure
  | here {t bar : Token} {ws : List Token} {e : Failure} (kind : bar.kind = .pipe)
      (broken : BrokenCommand t ws e) : BrokenPiped t (bar :: ws) e
  | later {t bar : Token} {us ws : List Token} {c : Command} {e : Failure} (kind : bar.kind = .pipe)
      (first : IsCommand (follow ws t) us c) (others : BrokenPiped t ws e) :
      BrokenPiped t (bar :: us ++ ws) e

/-- A pipeline of which the last command is broken. -/
inductive BrokenPipeline : Phrase Failure
  | first {t : Token} {ws : List Token} {e : Failure} (broken : BrokenCommand t ws e) :
      BrokenPipeline t ws e
  | piped {t : Token} {us ws : List Token} {c : Command} {e : Failure}
      (first : IsCommand (follow ws t) us c) (others : BrokenPiped t ws e) :
      BrokenPipeline t (us ++ ws) e

/-- A statement that holds no other: an assignment without its value, or a pipeline. -/
inductive BrokenSimple : Phrase Failure
  | assignment {t name equals : Token} (kind : name.kind = .word) (sign : equals.isWord "=" = true)
      (plain : t.isWordLike = false) :
      BrokenSimple t [name, equals] (.malformed (.noExpression t))
  | pipeline {t name : Token} {ws : List Token} {e : Failure} (kind : name.kind = .word)
      (broken : BrokenPipeline t (name :: ws) e) (other : ¬ StartsAssignment (name :: ws ++ [t])) :
      BrokenSimple t (name :: ws) e

/-! ## Compound statements -/

/-- A header up to `k`: it has no first word, or `k` is missing behind it. -/
inductive BrokenHeader (k : Kind) (message : String) : Phrase Failure
  | condition {t : Token} (plain : t.isWordLike = false) :
      BrokenHeader k message t [] (.malformed (.noExpression t))
  | opener {t u : Token} {e : Expr} {ws seps : List Token} {es : List Expr} (first : IsExpr u e)
      (others : List.Forall₂ IsExpr ws es)
      (separators : ∀ t ∈ seps, t.kind.isHeaderSeparator = true)
      (plain : (follow seps t).isWordLike = false) (solid : t.kind.isHeaderSeparator = false)
      (kind : t.kind ≠ k) :
      BrokenHeader k message t (u :: ws ++ seps) (.malformed (.missingKind k message t))

section Compound

variable (S : Phrase Statement) (E : Phrase Failure)

/-- In a block stands a token that belongs in none, or a statement that is broken. -/
inductive BrokenItem (b : Block) : Phrase Failure
  | closer {t : Token} {message : String} (inside : ¬ b.Ends t) (kind : t.kind.isBlockCloser = true)
      (known : closerMessage? b.closer = some message) :
      BrokenItem b t [] (.malformed (.missingKind b.closer message t))
  | unexpected {t : Token} (inside : ¬ b.Ends t) (no_opener : t.kind.opensStatement = false)
      (no_newline : t.kind ≠ .newline) (no_comment : t.kind ≠ .comment)
      (no_closer : t.kind.isBlockCloser = false) :
      BrokenItem b t [] (.malformed (.unexpected t b.context))
  | statement {t : Token} {ws : List Token} {e : Failure} (inside : ¬ b.Ends (follow ws t))
      (broken : E t ws e) : BrokenItem b t ws e

/-- A block is broken behind some of its rounds. -/
def BrokenBlock (b : Block) : Phrase Failure :=
  (Phrase.Rounds (BlockItem S b)).bind fun _ => BrokenItem E b

/-- A block with its closer: the block is broken, or the script ends before the closer. -/
inductive BrokenBody (b : Block) : Phrase Failure
  | inside {t : Token} {ws : List Token} {e : Failure} (broken : BrokenBlock S E b t ws e) :
      BrokenBody b t ws e
  | closer {t : Token} {ws : List Token} {ss : List Statement} {message : String}
      (block : IsBlock S t ws ss) (last : t.kind = .eof)
      (known : closerMessage? b.closer = some message) :
      BrokenBody b t ws (.malformed (.missingKind b.closer message t))

/-- A broken conditional. -/
inductive BrokenConditional : Phrase Failure
  | header {t kwIf : Token} {ws : List Token} {e : Failure} (if_kind : kwIf.kind = .kwIf)
      (broken : BrokenHeader .kwThen "Expected 'then'" t ws e) :
      BrokenConditional t (kwIf :: ws) e
  | thenPart {t kwIf kwThen : Token} {hs ws : List Token} {c : Expr} {es : List Expr} {e : Failure}
      (if_kind : kwIf.kind = .kwIf) (header : IsHeader hs c es) (then_kind : kwThen.kind = .kwThen)
      (broken : BrokenBody S E .thenPart t ws e) :
      BrokenConditional t (kwIf :: hs ++ kwThen :: ws) e
  | elsePart {t kwIf kwThen kwElse : Token} {hs us ws : List Token} {c : Expr} {es : List Expr}
      {thenBody : List Statement} {e : Failure} (if_kind : kwIf.kind = .kwIf)
      (header : IsHeader hs c es) (then_kind : kwThen.kind = .kwThen)
      (then_body : IsBlock S kwElse us thenBody) (else_kind : kwElse.kind = .kwElse)
      (broken : BrokenBody S E .elsePart t ws e) :
      BrokenConditional t (kwIf :: hs ++ kwThen :: us ++ kwElse :: ws) e

/-- A broken loop. -/
inductive BrokenLoop : Phrase Failure
  | name {t kwFor : Token} (for_kind : kwFor.kind = .kwFor) (kind : t.kind ≠ .word) :
      BrokenLoop t [kwFor] (.malformed (.missingKind .word "Expected loop variable" t))
  | inWord {t kwFor name : Token} (for_kind : kwFor.kind = .kwFor) (name_kind : name.kind = .word)
      (other : t.isWord "in" = false) :
      BrokenLoop t [kwFor, name] (.malformed (.missingText "in" t))
  | forHeader {t kwFor name kwIn : Token} {ws : List Token} {e : Failure}
      (for_kind : kwFor.kind = .kwFor) (name_kind : name.kind = .word)
      (in_word : kwIn.isWord "in" = true)
      (broken : BrokenHeader .kwDo "Expected 'do'" t ws e) :
      BrokenLoop t (kwFor :: name :: kwIn :: ws) e
  | forBody {t kwFor name kwIn kwDo : Token} {hs ws : List Token} {c : Expr} {es : List Expr}
      {e : Failure} (for_kind : kwFor.kind = .kwFor) (name_kind : name.kind = .word)
      (in_word : kwIn.isWord "in" = true) (header : IsHeader hs c es) (do_kind : kwDo.kind = .kwDo)
      (broken : BrokenBody S E .loopBody t ws e) :
      BrokenLoop t (kwFor :: name :: kwIn :: hs ++ kwDo :: ws) e
  | whileHeader {t kwWhile : Token} {ws : List Token} {e : Failure}
      (while_kind : kwWhile.kind = .kwWhile)
      (broken : BrokenHeader .kwDo "Expected 'do'" t ws e) :
      BrokenLoop t (kwWhile :: ws) e
  | whileBody {t kwWhile kwDo : Token} {hs ws : List Token} {c : Expr} {es : List Expr}
      {e : Failure} (while_kind : kwWhile.kind = .kwWhile) (header : IsHeader hs c es)
      (do_kind : kwDo.kind = .kwDo) (broken : BrokenBody S E .loopBody t ws e) :
      BrokenLoop t (kwWhile :: hs ++ kwDo :: ws) e

/-- A broken function. -/
inductive BrokenFunction : Phrase Failure
  | name {t kwFunction : Token} (function_kind : kwFunction.kind = .kwFunction)
      (kind : t.kind ≠ .word) :
      BrokenFunction t [kwFunction] (.malformed (.missingKind .word "Expected function name" t))
  | lparen {t kwFunction name : Token} (function_kind : kwFunction.kind = .kwFunction)
      (name_kind : name.kind = .word) (kind : t.kind ≠ .lparen) :
      BrokenFunction t [kwFunction, name] (.malformed (.missingKind .lparen "Expected '('" t))
  | rparen {t kwFunction name lparen : Token} (function_kind : kwFunction.kind = .kwFunction)
      (name_kind : name.kind = .word) (lparen_kind : lparen.kind = .lparen)
      (kind : t.kind ≠ .rparen) :
      BrokenFunction t [kwFunction, name, lparen]
        (.malformed (.missingKind .rparen "Expected ')'" t))
  | lbrace {t kwFunction name lparen rparen : Token}
      (function_kind : kwFunction.kind = .kwFunction) (name_kind : name.kind = .word)
      (lparen_kind : lparen.kind = .lparen) (rparen_kind : rparen.kind = .rparen)
      (kind : t.kind ≠ .lbrace) :
      BrokenFunction t [kwFunction, name, lparen, rparen]
        (.malformed (.missingKind .lbrace "Expected '\x7b'" t))
  | body {t kwFunction name lparen rparen lbrace : Token} {ws : List Token} {e : Failure}
      (function_kind : kwFunction.kind = .kwFunction) (name_kind : name.kind = .word)
      (lparen_kind : lparen.kind = .lparen) (rparen_kind : rparen.kind = .rparen)
      (lbrace_kind : lbrace.kind = .lbrace) (broken : BrokenBody S E .functionBody t ws e) :
      BrokenFunction t (kwFunction :: name :: lparen :: rparen :: lbrace :: ws) e

end Compound

/-- A statement that is broken, where compound statements nest at most so deep. -/
def Broken : Nat → Phrase Failure
  | 0 => fun t ws e =>
      BrokenSimple t ws e ∨ (ws = [] ∧ (compound? t.kind).isSome = true ∧ e = .tooDeep)
  | depth + 1 => fun t ws e =>
      BrokenSimple t ws e ∨ BrokenConditional (Within depth) (Broken depth) t ws e ∨
        BrokenLoop (Within depth) (Broken depth) t ws e ∨
        BrokenFunction (Within depth) (Broken depth) t ws e

end Grammar

end ShellScript
