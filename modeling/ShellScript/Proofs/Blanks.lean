/-
# ShellScript.Proofs.Blanks -- blanks between tokens do not matter

A script is its gaps and its lexemes in turn (`Lexing.woven`).  Where the lexer warns of
nothing, the same lexemes with other gaps are read as the same tokens: every lexeme ends by
itself in front of a blank, or it stands in front of the text it stood in front of
(`Lexing.run_respaced`).  And the parser sees no gaps (`sameOutcome_of_look`).
-/
import ShellScript.Proofs.Lexing.Spacing
import ShellScript.Proofs.Look

namespace ShellScript

set_option autoImplicit false

open Lexing

/-- The tokens of a script, with their gaps. -/
theorem spaced_tokenize {source : String} {tokens : List Token}
    (lexed : tokenize source false = .ok tokens) :
    tokens = (ofScript source false).tokens ∧
      Spaced .start source.toList (gaps source.toList 0 tokens) tokens := by
  obtain rfl := Except.ok.inj ((tokenize_eq source).symm.trans lexed)
  exact ⟨rfl, spaced_ofScript source⟩

/-- **Blanks between tokens do not matter.**  The lexer warns of nothing.  Other blanks may
stand in front of every token and at the end, but none directly behind a comment, and some
where there were some.  The tokens look the same, there is nothing to warn of, and the
outcome of the parse is the same up to positions. -/
theorem blanks_do_not_matter {source : String} {tokens : List Token} {gaps' : List (List Char)}
    (lexed : tokenize source false = .ok tokens)
    (quiet : (ofScript source false).warnings = [])
    (respaced : Respaced none (gaps source.toList 0 tokens) tokens gaps') :
    ∃ tokens', tokenize (String.ofList (woven gaps' tokens)) false = .ok tokens' ∧
      tokens'.map Token.look = tokens.map Token.look ∧
      (ofScript (String.ofList (woven gaps' tokens)) false).warnings = [] ∧
      SameOutcome source (String.ofList (woven gaps' tokens)) := by
  obtain ⟨same, spaced⟩ := spaced_tokenize lexed
  have text : (String.ofList (woven gaps' tokens)).toList = woven gaps' tokens :=
    String.toList_ofList
  obtain ⟨looks, silent⟩ := run_respaced spaced quiet respaced .start
  rw [← text] at looks silent
  exact ⟨_, tokenize_eq _, looks, silent, sameOutcome_of_look (same ▸ looks)⟩

/-- Blanks in front of a script, around an operator that touches its neighbours, and behind;
none behind a comment. -/
theorem blanks_do_not_matter_apart :
    ∃ tokens, tokenize "a b>>c # d\nx=$y" false = .ok tokens ∧
      (ofScript "a b>>c # d\nx=$y" false).warnings = [] ∧
      SameOutcome "a b>>c # d\nx=$y" "\t a \tb >> c  # d\n x = $y\t" := by
  generalize script : "a b>>c # d\nx=$y" = source
  have quiet : (ofScript source false).warnings = [] := by
    subst script
    decide +kernel
  let gaps' := ["\t ", " \t", " ", " ", "  ", "", " ", " ", " ", "\t"].map String.toList
  have respaced : Respaced none (gaps source.toList 0 (ofScript source false).tokens)
      (ofScript source false).tokens gaps' := by
    subst script
    decide +kernel
  have written : String.ofList (woven gaps' (ofScript source false).tokens) =
      "\t a \tb >> c  # d\n x = $y\t" := by
    subst script
    decide +kernel
  obtain ⟨-, -, -, -, same⟩ := blanks_do_not_matter (tokenize_eq source) quiet respaced
  rw [written] at same
  exact ⟨_, tokenize_eq source, quiet, same⟩

end ShellScript
