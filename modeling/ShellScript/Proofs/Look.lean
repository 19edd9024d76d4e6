/-
# ShellScript.Proofs.Look -- what a script says, whatever its places

The parser looks at positions only to stretch spans (`Body.read_move`).  So the looks of the
tokens decide the outcome of a parse up to positions (`sameOutcome_of_look`): take all
positions for one and the same, and scripts whose tokens look the same have the same tokens.
-/
import ShellScript.Proofs.Parse.Elsewhere
import ShellScript.Proofs.Parse.Script

namespace ShellScript

set_option autoImplicit false

/-! ## Moved reports without positions -/

theorem ParseReport.unplaced_move (m : Motion) (r : ParseReport) :
    (r.move m).unplaced = r.unplaced := by
  rcases r with ⟨d, _ | t⟩ <;> rfl

theorem ParseReport.unplaced_skipped (m : Motion) (t : Token) :
    (ParseReport.skipped (t.move m)).unplaced = (ParseReport.skipped t).unplaced := rfl

/-- Where the parser stands does not change what it says of a failure. -/
theorem Failure.unplaced_report (e : Failure) (s t : Option Span) :
    (e.report s).unplaced = (e.report t).unplaced := by
  cases e <;> rfl

/-- Failures that differ in places only are reported alike. -/
theorem Failure.unplaced_report_eq {m : Motion} {e f : Failure} (same : f.move m = e.move m)
    (s t : Option Span) : (f.report t).unplaced = (e.report s).unplaced := by
  calc (f.report t).unplaced = ((f.move m).report (m.position t)).unplaced := by
        rw [report_move, ParseReport.unplaced_move]
    _ = ((e.move m).report (m.position s)).unplaced := by
        rw [same, unplaced_report]
    _ = (e.report s).unplaced := by
        rw [report_move, ParseReport.unplaced_move]

/-! ## The same outcome -/

/-- The warnings of the parse of a script. -/
def parseWarnings (source : String) : List ParseReport :=
  (Parser.ofSource (.text source) false).parse.2.warnings

section Erased

variable {source : String} {ss : List Statement} {dropped rest : List Token}

/-- Where the top level gets through the tokens of a script, all taken to one place, the script
has a program.  Up to positions it is what was read, with a warning of every token dropped. -/
theorem exists_program_of_read
    (read : Body.read ((Lexing.ofScript source false).tokens.map (Token.move .erase)) =
      ⟨ss, dropped, rest, none⟩) :
    ∃ p, parse source false = .ok p ∧ p.unplaced = ⟨Statement.unplacedAll ss, none⟩ ∧
      (parseWarnings source).map ParseReport.unplaced =
        (dropped.map ParseReport.skipped).map ParseReport.unplaced := by
  have closed : (Lexing.ofScript source false).failure = none := Lexing.failure_run_lenient _ _
  have complete := Parser.complete_loaded closed
  rw [Body.read_move] at read
  rcases placed : Body.read (Parser.loaded source false).tokens with ⟨ss', dropped', rest', failure⟩
  have same : Body.move .erase ⟨ss', dropped', rest', failure⟩ = ⟨ss, dropped, rest, none⟩ := by
    rw [← placed]
    exact read
  injection same with statements skipped _ failures
  obtain rfl := Option.map_eq_none_iff.1 failures
  obtain ⟨ws, last, split, rfl, -⟩ := (read_eq_iff complete).1 placed
  obtain ⟨parses, kept⟩ := Parser.parse_of_read closed split placed
  refine ⟨_, parses, ?_, ?_⟩
  · show Program.mk _ none = _
    rw [← Statement.unplacedAll_move .erase ss', statements]
  · rw [parseWarnings, Parser.warnings, kept, ← skipped]
    simp only [List.map_map, Function.comp_def, ParseReport.unplaced_skipped]

/-- Where the top level fails at the tokens of a script, all taken to one place, the script is
refused with that failure, up to positions. -/
theorem exists_failure_of_read {e : Failure}
    (read : Body.read ((Lexing.ofScript source false).tokens.map (Token.move .erase)) =
      ⟨ss, dropped, rest, some e⟩) :
    ∃ (f : Failure) (position : Option Span), f.move .erase = e ∧
      parse source false = .error (f.report position) := by
  rw [Body.read_move] at read
  rcases placed : Body.read (Parser.loaded source false).tokens with ⟨ss', dropped', rest', failure⟩
  have same : Body.move .erase ⟨ss', dropped', rest', failure⟩ = ⟨ss, dropped, rest, some e⟩ := by
    rw [← placed]
    exact read
  injection same with _ _ _ failures
  obtain ⟨f, rfl, moved⟩ := Option.map_eq_some_iff.1 failures
  exact ⟨f, _, moved, Parser.parse_of_failure (Lexing.failure_run_lenient _ _) placed⟩

end Erased

/-- Both scripts have a program, or neither has; up to positions it is the same program with
the same warnings, or the same report. -/
inductive SameOutcome (source other : String) : Prop
  | program {p q : Program} (parses : parse source false = .ok p)
      (parses' : parse other false = .ok q) (same : q.unplaced = p.unplaced)
      (warnings : (parseWarnings other).map ParseReport.unplaced =
        (parseWarnings source).map ParseReport.unplaced) : SameOutcome source other
  | refused {r s : ParseReport} (refused : parse source false = .error r)
      (refused' : parse other false = .error s) (same : s.unplaced = r.unplaced) :
      SameOutcome source other

/-- **The looks of the tokens decide the outcome.** -/
theorem sameOutcome_of_look {source other : String}
    (alike : (Lexing.ofScript other false).tokens.map Token.look =
      (Lexing.ofScript source false).tokens.map Token.look) : SameOutcome source other := by
  have erased := move_erase_eq (isSome_position other) (isSome_position source) alike
  rcases read : Body.read ((Lexing.ofScript source false).tokens.map (Token.move .erase)) with
    ⟨ss, dropped, rest, _ | e⟩
  · obtain ⟨p, parses, tree, warnings⟩ := exists_program_of_read read
    obtain ⟨q, parses', tree', warnings'⟩ := exists_program_of_read (erased ▸ read)
    exact .program parses parses' (tree'.trans tree.symm) (warnings'.trans warnings.symm)
  · obtain ⟨f, position, same, refused⟩ := exists_failure_of_read read
    obtain ⟨f', position', same', refused'⟩ := exists_failure_of_read (erased ▸ read)
    exact .refused refused refused'
      (Failure.unplaced_report_eq (same'.trans same.symm) position position')

end ShellScript
