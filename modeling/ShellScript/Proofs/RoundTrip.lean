/-
# ShellScript.Proofs.RoundTrip -- printing and parsing

A well-formed program that nests within the limit, once printed, is read as itself up
to positions, with nothing dropped and nothing left open (`accepts_print`).  Every
program that is parsed from a script with nothing left open is such a program
(`wellFormed_of_parse`); so parsing what was printed gives it back (`parse_print`).
-/
import ShellScript.Proofs.Parse.WellFormed
import ShellScript.Proofs.Print.Statement
import ShellScript.Proofs.Recognition

namespace ShellScript

set_option autoImplicit false

open Grammar Lexing Parse

/-- The tokens of a printed program, up to the end mark, form its block. -/
theorem isScript_print {p : Program} (h : p.WellFormed) :
    ∃ q, IsScript (Lexing.ofScript p.print false).tokens q ∧ q.unplaced = p.unplaced ∧
      (Lexing.ofScript p.print false).warnings = [] := by
  obtain ⟨ws, stop, shown, tokens, warnings⟩ := readsBackAll p.body h .start [] trivial
  rw [List.append_nil, run_nil] at tokens warnings
  obtain ⟨ss, block, same⟩ := shown (Token.endMark stop)
  have text : p.print.toList = Text.unlines (Statement.linesAll p.body) := String.toList_ofList
  have script := IsScript.mk rfl block
  rw [← tokens, ← text] at script
  rw [← text] at warnings
  refine ⟨_, script, ?_, warnings⟩
  rw [Program.unplaced, Program.unplaced, same]

/-- A well-formed program can be printed and is read again. -/
theorem accepts_print {p : Program} (h : p.WellFormed) (shallow : p.nesting ≤ nestingLimit) :
    ∃ q, Accepts p.print q ∧ q.unplaced = p.unplaced ∧
      (Lexing.ofScript p.print false).warnings = [] := by
  obtain ⟨q, script, same, quiet⟩ := isScript_print h
  have nesting : q.nesting = p.nesting := by
    rw [Program.nesting, ← Statement.nestingAll_unplacedAll, Program.nesting,
      ← Statement.nestingAll_unplacedAll p.body]
    exact congrArg (fun r : Program => Statement.nestingAll r.body) same
  exact ⟨q, (accepts_iff p.print q).2 ⟨script, nesting ▸ shallow⟩, same, quiet⟩

/-- **Parsing what is printed gives the program back.**  The program of a script with
nothing left open, printed and parsed again, is the same up to positions; and neither
the lexer nor the parser has anything to warn of. -/
theorem parse_print (source : String) (quiet : (Lexing.ofScript source false).warnings = [])
    (p : Program) (parsed : parse source false = .ok p) :
    ∃ q, parse p.print false = .ok q ∧ q.unplaced = p.unplaced ∧
      (Parser.ofSource (.text p.print) false).parse.2.warnings = [] ∧
      (Parser.ofSource (.text p.print) false).parse.2.lexerWarnings = [] := by
  obtain ⟨formed, shallow⟩ := wellFormed_of_parse quiet parsed
  obtain ⟨q, ⟨again, kept⟩, same, closed⟩ := accepts_print formed shallow
  refine ⟨q, again, same, kept, ?_⟩
  rw [Parser.lexerWarnings_parse (Lexing.failure_run_lenient _ _), closed]

/-- Redirections move to the front, quotes become double, and an empty `then` stays. -/
theorem parse_print_rearranged :
    ∃ p, parse "echo 'a\"b' > f = $x; if c\nthen else d | e = $\x7bg h\x7d fi" false = .ok p ∧
      p.print = "echo > f \"a\\\"b\" = $x\nif c\nthen\nelse\nd | e = $\x7bg h\x7d\nfi\n" ∧
      ∃ q, parse p.print false = .ok q ∧ q.unplaced = p.unplaced ∧
        (Parser.ofSource (.text p.print) false).parse.2.warnings = [] ∧
        (Parser.ofSource (.text p.print) false).parse.2.lexerWarnings = [] := by
  generalize script : "echo 'a\"b' > f = $x; if c\nthen else d | e = $\x7bg h\x7d fi" = source
  have quiet : (Lexing.ofScript source false).warnings = [] := by
    subst script
    decide +kernel
  have printed : (parse source false).toOption.map Program.print =
      some "echo > f \"a\\\"b\" = $x\nif c\nthen\nelse\nd | e = $\x7bg h\x7d\nfi\n" := by
    subst script
    decide +kernel
  cases parsed : parse source false with
  | error r => simp [parsed, Except.toOption] at printed
  | ok p =>
    rw [parsed] at printed
    exact ⟨p, rfl, Option.some.inj printed, parse_print source quiet p parsed⟩

end ShellScript
