/-
# ShellScript.Proofs.Recognition -- the parser accepts exactly its grammar

`Accepts` says that a script has a program and that no token was dropped on the
way.  Then the tokens of the script derive the program by the rules of the grammar,
and a program that they derive and that does not nest too deep is accepted
(`parse_recognizes_grammar`).  The grammar is unambiguous (`IsScript.unique`), because
one parser reads all of it.
-/
import ShellScript.Proofs.Parse.Front
import ShellScript.Proofs.Parse.Script

namespace ShellScript

set_option autoImplicit false

open Grammar Parse

/-- A script has a program, and no token of it was dropped. -/
def Accepts (source : String) (p : Program) : Prop :=
  (Parser.ofSource (.text source) false).parse.1 = .ok p ∧
    (Parser.ofSource (.text source) false).parse.2.warnings = []

/-- Tokens derive one program at most: a block of sufficient depth, left open up to the
end mark, would have both for its statements. -/
theorem Grammar.IsScript.unique {ts : List Token} {p q : Program} (complete : Complete ts)
    (hp : IsScript ts p) (hq : IsScript ts q) : p = q := by
  obtain ⟨last_kind, block⟩ := hp
  rename_i ws last ss
  generalize split : ws ++ [last] = ts at complete hq
  obtain ⟨last_kind', block'⟩ := hq
  rename_i ws' last' ss'
  obtain ⟨rfl, rfl⟩ := List.append_singleton_inj.1 split
  let depth := max (Statement.nestingAll ss) (Statement.nestingAll ss')
  have closes : Block.loopBody.Closes := by decide
  have reads := (reads_block (reads_statementWithin depth) (opens_within depth) closes _ complete).ok
  have first := (reads ss [last]).2 ⟨ws, last, [], rfl, rfl,
    isBlock_within.2 ⟨block, Nat.le_max_left _ _⟩, Or.inl last_kind⟩
  have second := (reads ss' [last]).2 ⟨ws, last, [], rfl, rfl,
    isBlock_within.2 ⟨block', Nat.le_max_right _ _⟩, Or.inl last_kind⟩
  rw [first] at second
  injection second with statements
  rw [statements]

theorem accepts_iff (source : String) (p : Program) :
    Accepts source p ↔
      IsScript (Lexing.ofScript source false).tokens p ∧ p.nesting ≤ nestingLimit := by
  have quiet : (Parser.ofSource (.text source) false).parse.2.warnings = [] ↔
      (Parser.ofSource (.text source) false).parse.2.skipped = [] := List.map_eq_nil_iff
  have closed : (Lexing.ofScript source false).failure = none := Lexing.failure_run_lenient _ _
  rw [Accepts, quiet, Parser.parse_ok_iff]
  constructor
  · rintro ⟨-, ws, last, split, body, position⟩
    have tidy := Lexing.isChain_run .start source.toList
    rw [Lexing.ofScript] at split
    rw [split] at tidy
    obtain ⟨block, shallow⟩ := isBlock_within.1 (isBlock_of_isBody body rfl tidy)
    refine ⟨?_, shallow⟩
    obtain ⟨ss, _⟩ := p
    subst position
    rw [Lexing.ofScript, split]
    exact .mk (eof_of_isBody body) block
  · rintro ⟨script, shallow⟩
    refine ⟨closed, ?_⟩
    generalize (Lexing.ofScript source false).tokens = ts at script
    obtain ⟨last_kind, block⟩ := script
    exact ⟨_, _, rfl, isBody_of_isBlock (opens_within _) (isBlock_within.2 ⟨block, shallow⟩)
      last_kind, rfl⟩

/-- **The parser accepts exactly its grammar.**  A script is accepted with no program but one
that its tokens derive, and with every such program that nests less than 120 deep.  And its
tokens derive one program at most. -/
theorem parse_recognizes_grammar (source : String) :
    (∀ p, Accepts source p → IsScript (Lexing.ofScript source false).tokens p) ∧
      (∀ p, IsScript (Lexing.ofScript source false).tokens p → p.nesting < 120 →
        Accepts source p) ∧
      ∀ p q, IsScript (Lexing.ofScript source false).tokens p →
        IsScript (Lexing.ofScript source false).tokens q → p = q := by
  refine ⟨fun p accepted => ?_, fun p script shallow => ?_, fun p q => ?_⟩
  · exact ((accepts_iff source p).1 accepted).1
  · have within : p.nesting ≤ nestingLimit := Nat.le_trans (Nat.le_of_lt shallow) le_nestingLimit
    exact (accepts_iff source p).2 ⟨script, within⟩
  · exact IsScript.unique (Lexing.complete_run _ _)

/-- A word or operator on the first line, which says what is written. -/
def plainToken (k : Kind) (text : String) (start : Nat) : Token :=
  ⟨k, text, text, some ⟨start, start + text.length, 1, start + 1⟩⟩

theorem parse_recognizes_grammar_conditional :
    ∃ p, IsScript (Lexing.ofScript "if a;then b|c;fi" false).tokens p ∧ p.nesting < 120 ∧
      Accepts "if a;then b|c;fi" p := by
  have tokens : (Lexing.ofScript "if a;then b|c;fi" false).tokens =
      [plainToken .kwIf "if" 0, plainToken .word "a" 3, plainToken .semicolon ";" 4,
        plainToken .kwThen "then" 5, plainToken .word "b" 10, plainToken .pipe "|" 11,
        plainToken .word "c" 12, plainToken .semicolon ";" 13, plainToken .kwFi "fi" 14,
        plainToken .eof "" 16] := by decide +kernel
  have if_kind : (plainToken .kwIf "if" 0).kind = .kwIf := rfl
  have then_kind : (plainToken .kwThen "then" 5).kind = .kwThen := rfl
  have header : IsHeader [plainToken .word "a" 3, plainToken .semicolon ";" 4] _ [] :=
    .mk (.word rfl) .nil (by decide)
  have pipeline : IsPipeline (plainToken .semicolon ";" 13)
      [plainToken .word "b" 10, plainToken .pipe "|" 11, plainToken .word "c" 12] _ :=
    .pipeline (.mk rfl .nil rfl rfl) (.cons rfl (.mk rfl .nil rfl rfl) (.nil Kind.noConfusion))
  have statement := IsStatement.pipeline pipeline (by rintro ⟨_, _, _, ⟨⟩, -, ⟨⟩⟩)
  have inside : IsBlock IsStatement (plainToken .kwFi "fi" 14) _ _ :=
    .separated statement (Or.inl rfl) .nil
  have conditional : IsConditional IsStatement (plainToken .eof "" 16) _ _ :=
    .noElse if_kind header then_kind inside rfl
  have last_kind : (plainToken .eof "" 16).kind = .eof := rfl
  have script := IsScript.mk last_kind
    (@IsBlock.statement _ _ _ [] _ _ (.conditional conditional) .nil)
  rw [tokens]
  refine ⟨_, script, by decide, (parse_recognizes_grammar _).2.1 _ ?_ (by decide)⟩
  rw [tokens]
  exact script

end ShellScript
