/-
# ShellScript.Proofs.Comments -- comments do not matter

A script without its comments has the other tokens of the script (`Lexing.run_uncommented`), and
to the parser comments are nothing (`Parse.transparent_body`).  So a script gives the same with its
comments and without, up to positions (`gist`).
-/
import ShellScript.Proofs.Lexing.Spacing
import ShellScript.Proofs.Look
import ShellScript.Proofs.Parse.Comment
import ShellScript.Proofs.Strictness

namespace ShellScript

set_option autoImplicit false

open Lexing

/-! ## What a script gives -/

/-- What a script gives, up to positions: its program and the warnings of the parser.  Nothing,
if it is refused. -/
def gist (source : String) (strict : Bool) : Option (Program × List ParseReport) :=
  match (Parser.ofSource (.text source) strict).parse with
  | (.ok p, parser) => some (p.unplaced, parser.warnings.map ParseReport.unplaced)
  | (.error _, _) => none

section Gist

variable {source : String} {strict : Bool}

theorem gist_of_ok {p : Program} (parses : parse source strict = .ok p) :
    gist source strict = some (p.unplaced,
      (Parser.ofSource (.text source) strict).parse.2.warnings.map ParseReport.unplaced) := by
  revert parses
  unfold parse gist
  rcases (Parser.ofSource (.text source) strict).parse with ⟨r, parser⟩
  rintro ⟨⟩
  rfl

theorem gist_of_error {r : ParseReport} (refused : parse source strict = .error r) :
    gist source strict = none := by
  revert refused
  unfold parse gist
  rcases (Parser.ofSource (.text source) strict).parse with ⟨r', parser⟩
  rintro ⟨⟩
  rfl

end Gist

/-- A script gives what the top level makes of its tokens, all taken to one place. -/
theorem gist_eq (source : String) :
    gist source false =
      (Parse.given (Parse.body ((ofScript source false).tokens.map (Token.move .erase)))).map
        fun (ss, dropped) => (⟨Statement.unplacedAll ss, none⟩,
          (dropped.map ParseReport.skipped).map ParseReport.unplaced) := by
  rcases read : Body.read ((ofScript source false).tokens.map (Token.move .erase)) with
    ⟨ss, dropped, rest, _ | e⟩
  · obtain ⟨p, parses, tree, warnings⟩ := exists_program_of_read read
    rw [gist_of_ok parses, tree, Parse.body_of_read read, ← parseWarnings, warnings]
    rfl
  · obtain ⟨f, position, -, refused⟩ := exists_failure_of_read read
    rw [gist_of_error refused, Parse.body_of_failure read]
    rfl

/-- Strict work gives the same, unless a delimiter is left open. -/
theorem gist_strict (source : String) :
    gist source true =
      if (ofScript source false).warnings = [] then gist source false else none := by
  by_cases quiet : (ofScript source false).warnings = []
  · rw [if_pos quiet, gist, gist, Parser.parse_strict quiet]
    rcases (Parser.ofSource (.text source) false).parse with ⟨_ | p, parser⟩ <;> rfl
  · obtain ⟨delimiter, ts, t, -, -, -, failure⟩ := run_open .start source.toList quiet
    rw [if_neg quiet, gist, Parser.parse_of_open failure]

/-! ## Scripts without comments -/

/-- A script without its comments.  The script is its gaps and its lexemes in turn
(`Lexing.Tiling.woven_gaps`); here those lexemes that are comments are left out. -/
def withoutComments (source : String) : String :=
  let tokens := (ofScript source false).tokens
  String.ofList (uncommented (gaps source.toList 0 tokens) tokens)

/-- The place of every token that is taken to one place. -/
theorem position_move_erase {t : Token} (placed : t.position.isSome = true) :
    (t.move .erase).position = some ⟨0, 0, 0, 0⟩ := by
  obtain ⟨span, position⟩ := Option.isSome_iff_exists.1 placed
  rw [Token.move, position]
  rfl

/-- The tokens of a script, taken to one place. -/
theorem tidy_erased (source : String) :
    Parse.Tidy (some ⟨0, 0, 0, 0⟩) ((ofScript source false).tokens.map (Token.move .erase)) where
  complete := complete_move.2 (complete_run _ _)
  chain := (List.isChain_map _).2 (isChain_run _ _)
  placed := by
    intro t moved
    obtain ⟨u, member, rfl⟩ := List.mem_map.1 moved
    exact position_move_erase (isSome_position source u member)

/-- The tokens of a script without its comments, taken to one place. -/
theorem erased_withoutComments {source : String}
    (looks : (ofScript (withoutComments source) false).tokens.map Token.look =
      ((ofScript source false).tokens.filter fun t => t.kind ≠ .comment).map Token.look) :
    (ofScript (withoutComments source) false).tokens.map (Token.move .erase) =
      Parse.strip ((ofScript source false).tokens.map (Token.move .erase)) := by
  have placed : ∀ t ∈ (ofScript source false).tokens.filter fun t => t.kind ≠ .comment,
      t.position.isSome = true :=
    fun t member => isSome_position source t (List.mem_of_mem_filter member)
  rw [move_erase_eq (isSome_position _) placed looks, Parse.strip, List.filter_map]
  rfl

/-- **Comments do not matter.**  Without its comments a script has the same other tokens, and
leaves the same delimiters open.  It gives the same program with the same warnings up to positions,
or it is refused, too. -/
theorem comments_do_not_matter (source : String) :
    ∃ tokens tokens', tokenize source false = .ok tokens ∧
      tokenize (withoutComments source) false = .ok tokens' ∧
      tokens'.map Token.look = (tokens.filter fun t => t.kind ≠ .comment).map Token.look ∧
      (ofScript (withoutComments source) false).warnings.map Diagnostic.unplaced =
        (ofScript source false).warnings.map Diagnostic.unplaced ∧
      ∀ strict, gist (withoutComments source) strict = gist source strict := by
  have text : (withoutComments source).toList =
      uncommented (gaps source.toList 0 (ofScript source false).tokens)
        (ofScript source false).tokens := String.toList_ofList
  obtain ⟨looks, warnings⟩ := run_uncommented (spaced_ofScript source) .start
  rw [← text, ← ofScript] at looks
  rw [← text, ← ofScript, ← ofScript] at warnings
  refine ⟨_, _, tokenize_eq source, tokenize_eq _, looks, warnings, ?_⟩
  have lenient : gist (withoutComments source) false = gist source false := by
    have same := Parse.transparent_body _ (tidy_erased source)
    rw [gist_eq, gist_eq, erased_withoutComments looks, same.given_eq]
  have quiet : (ofScript (withoutComments source) false).warnings = [] ↔
      (ofScript source false).warnings = [] := by
    rw [← List.map_eq_nil_iff (f := Diagnostic.unplaced), warnings, List.map_eq_nil_iff]
  intro strict
  cases strict with
  | false => exact lenient
  | true => simp only [gist_strict, quiet, lenient]

example : withoutComments "if a # b\nthen # c\n\"d # e\"\nfi#" =
    "if a \nthen \n\"d # e\"\nfi" := by
  decide +kernel

end ShellScript
