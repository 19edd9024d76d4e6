/-
# ShellScript.Proofs.Refusal -- how a script is refused

A script that has no program is refused with a report of its own: of a delimiter
left open, where the work is strict, or of the token at which the parser gave up
(`Refuses`).  No fault comes of a text (`parse_never_faults`): the parser never looks
for a token behind the end mark, never misses the message for a closer, and gives
the checked constructors of a tree only parts that they take (`Statement.Checked`).
-/
import ShellScript.Proofs.Parse.Script
import ShellScript.Tree.Checked

namespace ShellScript

set_option autoImplicit false

open Parse

/-! ## Trees built from loose parts -/

theorem LoopHeader.ofParts_self (h : LoopHeader) :
    ofParts h.kind h.name? h.iterable? h.condition? = .ok h := by
  have other : whileWord ≠ forWord := by decide
  cases h with
  | forIn name iterable => simp [ofParts, kind, name?, iterable?, condition?]
  | whileDo condition => simp [ofParts, kind, name?, iterable?, condition?, other]

/-- The checked constructors make the statement of its parts. -/
def Statement.Checked : Statement → Prop
  | pipeline first second others position =>
      pipelineOf (first :: second :: others) position =
        .ok (.pipeline first second others position)
  | loop header _ _ _ _ =>
      LoopHeader.ofParts header.kind header.name? header.iterable? header.condition? = .ok header
  | _ => True

theorem Statement.checked (s : Statement) : s.Checked := by
  cases s with
  | pipeline first second others position => rfl
  | loop header => exact header.ofParts_self
  | _ => trivial

/-! ## The codes of a refusal -/

/-- The codes under which a script is refused. -/
def refusalCodes (strict : Bool) : List String :=
  ["P001", "P002", "P005", "P010", "P014"] ++ if strict then ["L002", "L003"] else []

theorem SyntaxError.code_mem (e : SyntaxError) (strict : Bool) : e.code ∈ refusalCodes strict := by
  have codeAt_mem (t : Token) (code : String) (known : code ∈ refusalCodes strict) :
      codeAt t code ∈ refusalCodes strict := by
    unfold codeAt
    split
    · simp [refusalCodes]
    · exact known
  cases e with
  | missingKind _ _ t => exact codeAt_mem t "P002" (by simp [refusalCodes])
  | missingText _ t => exact codeAt_mem t "P002" (by simp [refusalCodes])
  | unexpected => simp [code, refusalCodes]
  | noExpression t => exact codeAt_mem t "P005" (by simp [refusalCodes])

theorem code_mem_of_refuses {e : Failure} {t : Token} (refuses : Refuses e t) (strict : Bool)
    (position : Option Span) :
    ∃ c ∈ refusalCodes strict, (e.report position).diagnostic.code = some c := by
  cases refuses with
  | @malformed e => exact ⟨e.code, e.code_mem strict, rfl⟩
  | tooDeep => exact ⟨"P014", by simp [refusalCodes], rfl⟩

theorem Unclosed.code_mem (delimiter : Unclosed) (severity : String) (position : Option Span) :
    ∃ c ∈ refusalCodes true, (delimiter.report severity position).code = some c := by
  cases delimiter with
  | quote mark => exact ⟨"L002", by simp [refusalCodes], rfl⟩
  | reference => exact ⟨"L003", by simp [refusalCodes], rfl⟩

/-- **No script provokes a fault.**  The parse of a text gives a program, whose pipelines
and loops the checked constructors make of their parts, or it refuses the script under
one of the codes for that; those of the lexer come of strict work only. -/
theorem parse_never_faults (source : String) (strict : Bool) :
    match (Parser.ofSource (.text source) strict).parse.1 with
    | .ok p => ∀ s, Node.statement s ∈ (Node.program p).walk → s.Checked
    | .error r => ∃ c ∈ refusalCodes strict, r.diagnostic.code = some c := by
  cases closed : (Lexing.ofScript source strict).failure with
  | some d =>
    rw [Parser.parse_of_open closed]
    cases strict with
    | false =>
      have lenient := Lexing.failure_run_lenient .start source.toList
      rw [Lexing.ofScript, lenient] at closed
      cases closed
    | true =>
      obtain ⟨delimiter, position, rfl⟩ := Lexing.failure_run_strict _ _ closed
      exact delimiter.code_mem Diagnostic.error position
  | none =>
    cases failure : (Body.read (Parser.loaded source strict).tokens).failure with
    | some e =>
      obtain ⟨-, t, -, -, refuses, error⟩ := Parser.parse_of_refused closed failure
      rw [error]
      exact code_mem_of_refuses refuses strict t.position
    | none =>
      obtain ⟨p, result⟩ := Parser.exists_program closed failure
      rw [result]
      exact fun s _ => s.checked

end ShellScript
