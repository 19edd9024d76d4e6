/-
# ShellScript.SourceFile -- the script a file holds

A file is read as strict UTF-8.  A line may end in a line feed, a carriage
return, or both in this order; each becomes one line feed.  Nothing else is
changed: a mark of the byte order stays, as a character of the script.

`tokenizeFile` and `parseFile` read a file and go on with the script in it.
-/
import ShellScript.Parser

namespace ShellScript

set_option autoImplicit false

/-- Why a file holds no script. -/
inductive FileError where
  | notFound
  | notUtf8
deriving DecidableEq

namespace SourceFile

/-- Every line ended by one line feed. -/
def unifyLines : List Char → List Char
  | '\r' :: '\n' :: cs => '\n' :: unifyLines cs
  | '\r' :: cs => '\n' :: unifyLines cs
  | c :: cs => c :: unifyLines cs
  | [] => []

/-- The script of a file's content. -/
def decode (content : ByteArray) : Except FileError String :=
  match String.fromUTF8? content with
  | none => .error .notUtf8
  | some s => .ok (String.ofList (unifyLines s.toList))

/-- The script of a file, given its content if there is such a file. -/
def read : Option ByteArray → Except FileError String
  | none => .error .notFound
  | some content => decode content

end SourceFile

/-- The tokens of the script in a file. -/
def tokenizeFile (content : Option ByteArray) (strict : Bool) :
    Except FileError (Except Diagnostic (List Token)) := do
  return tokenize (← SourceFile.read content) strict

/-- The program of the script in a file, or the report of why it is refused. -/
def parseFile (content : Option ByteArray) (strict : Bool) :
    Except FileError (Except ParseReport Program) := do
  return parse (← SourceFile.read content) strict

end ShellScript
