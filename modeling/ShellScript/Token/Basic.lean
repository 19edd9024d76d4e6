/-
# ShellScript.Token.Basic -- tokens

A token keeps both what it says (`text`: quotes, `$` and `#` taken off) and what
was written (`lexeme`: the exact piece of the script).  A token read from a script
has a position; one that is made by hand may lack it.  A token is written in two
ways: `summary` for a reader, `describe` for a programmer.
-/
import ShellScript.Position
import ShellScript.Text.Quoted
import ShellScript.Token.Kind

namespace ShellScript

set_option autoImplicit false

/-- A lexical token of a script. -/
structure Token where
  kind : Kind
  text : String
  lexeme : String
  position : Option Span
deriving DecidableEq

namespace Token

/-- A reserved word. -/
def isKeyword (t : Token) : Bool := t.kind.isKeyword

/-- A token that can stand as an argument. -/
def isWordLike (t : Token) : Bool := t.kind.isWordLike

/-- The lexeme of a token, and its text where that differs. -/
def summary (t : Token) : String :=
  if t.text = t.lexeme then s!"{t.kind.name}({Text.quoted t.lexeme})"
  else s!"{t.kind.name}({Text.quoted t.lexeme} -> {Text.quoted t.text})"

/-- All fields of a token. -/
def describe (t : Token) : String :=
  let place := (t.position.map Span.describe).getD "None"
  s!"Token({t.kind.name}, {Text.quoted t.text}, {Text.quoted t.lexeme}, {place})"

/-- The mark at the end of a script. -/
def endMark (c : Cursor) : Token := ⟨.eof, "", "", some (c.spanTo c)⟩

/-- A word with exactly the given text. -/
def isWord (t : Token) (text : String) : Bool := t.kind = .word && t.text = text

end Token

end ShellScript
