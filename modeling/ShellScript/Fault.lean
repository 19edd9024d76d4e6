/-
# ShellScript.Fault -- uses that no script can provoke

A fault is a mistake of the caller, not of a script: a value that is no text
where a script is wanted, or a look past the end of what there is.  A fault has a
class, by which a caller may tell faults apart, and a text.
-/
import ShellScript.Token.Kind

namespace ShellScript

set_option autoImplicit false

/-- A mistake of the caller. -/
inductive Fault where
  /-- A value of the given type where a script is wanted. -/
  | noLength (type : String)
  /-- No character where one is asked for. -/
  | characterOutOfRange
  /-- No token where one is asked for. -/
  | tokenOutOfRange
  /-- A block that is to be closed by a kind of token that closes none. -/
  | noCloser (kind : Kind)
  /-- A fault of some other making. -/
  | foreign (name text : String)
deriving DecidableEq

namespace Fault

/-- The class of a fault. -/
def name : Fault → String
  | noLength _ => "TypeError"
  | characterOutOfRange => "IndexError"
  | tokenOutOfRange => "IndexError"
  | noCloser _ => "KeyError"
  | foreign name _ => name

/-- The text of a fault. -/
def text : Fault → String
  | noLength type => s!"object of type '{type}' has no len()"
  | characterOutOfRange => "string index out of range"
  | tokenOutOfRange => "list index out of range"
  | noCloser kind => s!"<TokenType.{kind.name}: {kind.number}>"
  | foreign _ text => text

end Fault

/-- What a caller hands in for a script: a text, or a value that is none. -/
inductive Source where
  | text (script : String)
  | absent
  | number
deriving DecidableEq

/-- The script that was handed in. -/
def Source.script : Source → Except Fault String
  | text script => .ok script
  | absent => .error (.noLength "NoneType")
  | number => .error (.noLength "int")

end ShellScript
