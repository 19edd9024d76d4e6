/-
# ShellScript.Parse.Report -- what the parser has to say about a script

A syntax error is one of four causes, each with the token it was found at
(`SyntaxError.found`).  The wording of every cause is here: message, code, help
and suggestions.  The code is P010 for whatever the script ends too early for.

A `ParseReport` is the finished report, with the token where there is one.  The
parser warns of tokens it skips, and refuses scripts that nest too deeply; a
fault on the way is reported as well.
-/
import ShellScript.Diagnostic
import ShellScript.Fault
import ShellScript.Spelling
import ShellScript.Token.Basic

namespace ShellScript

set_option autoImplicit false

/-- A report of the parser, and the token it is about. -/
structure ParseReport where
  diagnostic : Diagnostic
  token : Option Token
deriving DecidableEq

/-- A report in one line. -/
def ParseReport.summary (r : ParseReport) : String :=
  match r.diagnostic.position with
  | some s => s!"ParseError at line {s.line}, column {s.column}: {r.diagnostic.message}"
  | none => s!"ParseError: {r.diagnostic.message}"

/-- What to do about a missing token of some kind. -/
def Kind.hints : Kind → List String
  | kwThen => ["Add 'then' after the if condition"]
  | kwFi => ["Add 'fi' to close the if statement"]
  | kwDo => ["Add 'do' after the loop header"]
  | kwDone => ["Add 'done' to close the loop"]
  | lparen => ["Add '()' after the function name"]
  | rparen => ["Add a closing parenthesis ')'"]
  | lbrace => ["Add an opening brace '\x7b' to start the function body"]
  | rbrace => ["Add a closing brace '\x7d' to end the function body"]
  | _ => []

/-- The spellings of `expected` that a word was perhaps meant to be. -/
def Kind.meant (expected : Kind) (word : String) : List String :=
  (Spelling.corrections word).filter fun k => keywords.lookup k = some expected

/-- What to do about a missing token, given what stands in its place.  If that is
a word like the missing reserved word, the misspelling comes first. -/
def Kind.suggest (expected : Kind) (found : Option Token) : List String :=
  match found with
  | some t =>
      if t.kind = .word then
        (expected.meant t.text).map (fun k => s!"Did you mean '{k}'?") ++ expected.hints
      else expected.hints
  | none => expected.hints

/-- Why a script is refused. -/
inductive SyntaxError where
  /-- A token of another kind stands where `expected` must. -/
  | missingKind (expected : Kind) (message : String) (found : Token)
  /-- Another token stands where one certain word must. -/
  | missingText (expected : String) (found : Token)
  /-- A token that starts no statement stands inside `context`. -/
  | unexpected (found : Token) (context : String)
  /-- No word, string or reference stands where one must. -/
  | noExpression (found : Token)
deriving DecidableEq

namespace SyntaxError

/-- The token at which the error was found. -/
def found : SyntaxError → Token
  | missingKind _ _ t => t
  | missingText _ t => t
  | unexpected t _ => t
  | noExpression t => t

/-- The message of an error. -/
def message : SyntaxError → String
  | missingKind _ message _ => message
  | missingText expected _ => s!"Expected '{expected}'"
  | unexpected t context => s!"Unexpected token {Text.quoted t.lexeme} in {context}"
  | noExpression _ => "Expected expression"

/-- The code of an error that is `code` within the script: P010 at its end. -/
def codeAt (t : Token) (code : String) : String := if t.kind = .eof then "P010" else code

/-- The code of an error. -/
def code : SyntaxError → String
  | missingKind _ _ t => codeAt t "P002"
  | missingText _ t => codeAt t "P002"
  | unexpected _ _ => "P001"
  | noExpression t => codeAt t "P005"

/-- The line of help for an error. -/
def helpText : SyntaxError → String
  | missingKind expected _ t =>
      let what := if t.kind = .eof then "end of input" else t.kind.name
      s!"The parser expected {expected.name} at this position, but found {what}."
  | missingText expected t =>
      s!"The parser expected the word '{expected}' here, but found {Text.quoted t.lexeme}."
  | unexpected t _ => s!"{t.kind.name} cannot start a statement here."
  | noExpression _ => "A word, quoted string or variable reference is required here."

/-- The suggestions for an error; none at all differs from an empty list. -/
def suggestions : SyntaxError → Option (List String)
  | missingKind expected _ t => some (expected.suggest (some t))
  | missingText expected _ => some [s!"Insert '{expected}'"]
  | unexpected _ _ => some ["Check for a misplaced operator or a missing command name"]
  | noExpression _ => none

/-- The report of an error. -/
def report (e : SyntaxError) : ParseReport where
  diagnostic :=
    { message := e.message
      position := e.found.position
      severity := Diagnostic.error
      code := some e.code
      helpText := some e.helpText
      suggestions := e.suggestions }
  token := some e.found

end SyntaxError

namespace ParseReport

/-- The warning of a token that was skipped. -/
def skipped (t : Token) : ParseReport where
  diagnostic :=
    { message := s!"Skipped unexpected token {Text.quoted t.lexeme}"
      position := t.position
      severity := Diagnostic.warning
      code := some "P001"
      helpText := none
      suggestions := none }
  token := some t

/-- The report of statements that nest too deeply. -/
def tooDeep (position : Option Span) : ParseReport where
  diagnostic :=
    { message := "Statements nested too deeply"
      position := position
      severity := Diagnostic.error
      code := some "P014"
      helpText := some <| "Nesting of if/for/while/function is bounded by the interpreter " ++
        "recursion limit (1000)."
      suggestions := some ["Split the script into functions", "Reduce the nesting depth"] }
  token := none

/-- The report of a fault. -/
def ofFault (f : Fault) (position : Option Span) : ParseReport where
  diagnostic :=
    { message := s!"Unexpected error: {f.text}"
      position := position
      severity := Diagnostic.error
      code := some "P013"
      helpText := some s!"{f.name} raised during parsing."
      suggestions := none }
  token := none

/-- The report of a delimiter left open, as the parser passes it on. -/
def ofLexing (d : Diagnostic) : ParseReport := ⟨{ d with severity := Diagnostic.error }, none⟩

end ParseReport

end ShellScript
