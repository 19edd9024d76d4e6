/-
# ShellScript.Scanner -- a lexer that moves on request

A scanner keeps a place in a script and moves it one request at a time: over
blanks, over a number of characters, over one token, or through the whole
script.  Each request gives its answer and the scanner after it; a request that
fails still gives the scanner it leaves.

The script may be exchanged under a scanner.  The place is then kept as it is,
even past the end of the new script.
-/
import ShellScript.Fault
import ShellScript.Lexing

namespace ShellScript

set_option autoImplicit false

/-- Why a request to a scanner fails. -/
inductive ScanError where
  /-- A delimiter is left open, in strict work. -/
  | unclosed (report : Diagnostic)
  /-- The caller asked for what is not there. -/
  | fault (f : Fault)
deriving DecidableEq

/-- A place in a script, with what the last run over the script has left. -/
structure Scanner where
  source : String
  strict : Bool
  cursor : Cursor
  tokens : List Token
  warnings : List Diagnostic

namespace Scanner

/-- A scanner before the first character of a script. -/
def ofScript (source : String) (strict : Bool) : Scanner := ⟨source, strict, .start, [], []⟩

/-- The characters after the place. -/
def remaining (s : Scanner) : List Char := s.source.toList.drop s.cursor.offset

/-- Whether a delimiter was left open. -/
def hasWarnings (s : Scanner) : Bool := !s.warnings.isEmpty

/-- The scanner moved past `cs`. -/
def pass (s : Scanner) (cs : List Char) : Scanner := { s with cursor := s.cursor.advance cs }

/-- Past all blanks at the place. -/
def skipBlanks (s : Scanner) : Scanner := s.pass (s.remaining.takeWhile Charset.isBlank)

/-- Past `n` characters, or all that remain; a negative number moves nothing. -/
def skip (s : Scanner) (n : Int) : Scanner := s.pass (s.remaining.take n.toNat)

/-- The character at the place. -/
def current (s : Scanner) : Option Char := s.remaining.head?

/-- The character `ahead` places on, none past the end.  A place before the start
of the script counts back from its end, and fails before the start again. -/
def peek (s : Scanner) (ahead : Int) : Except ScanError (Option Char) :=
  let cs := s.source.toList
  let i := (s.cursor.offset : Int) + ahead
  if 0 ≤ i then .ok cs[i.toNat]?
  else if 0 ≤ i + cs.length then .ok cs[(i + cs.length).toNat]?
  else .error (.fault .characterOutOfRange)

/-- The token at the place, where a blank is a word of one character.  The token
is not added to those of the last run. -/
def next (s : Scanner) : Except ScanError Token × Scanner :=
  match s.remaining with
  | [] => (.error (.fault .characterOutOfRange), s)
  | c :: cs =>
      let x := Lexeme.read c cs
      let t := x.token s.cursor
      let after := s.pass x.raw
      match x.unclosed with
      | none => (.ok t, after)
      | some delimiter =>
          if s.strict then
            (.error (.unclosed (delimiter.report Diagnostic.error t.position)), after)
          else
            (.ok t, { after with
              warnings := after.warnings ++ [delimiter.report Diagnostic.warning t.position] })

/-- A run over the whole script, from its start. -/
def tokenize (s : Scanner) : Except ScanError (List Token) × Scanner :=
  let l := Lexing.ofScript s.source s.strict
  let after := { s with cursor := l.stop, tokens := l.tokens, warnings := l.warnings }
  match l.failure with
  | some d => (.error (.unclosed d), after)
  | none => (.ok l.tokens, after)

end Scanner

end ShellScript
