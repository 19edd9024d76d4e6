/-
# ShellScript.Proofs.Print -- scripts written from trees

A program is written line by line, a line as words with a space between each two.
A command puts its redirections before its arguments: so an argument `=` is kept
apart from the name, as it was wherever such a command has been parsed from.

Quoted texts are written in double quotes, whatever quotes they had.  An argument
that is a variable is written as it was; elsewhere a variable is written in braces.
-/
import ShellScript.Tree.Basic

namespace ShellScript

set_option autoImplicit false

/-- A text as it is written between two marks: a backslash protects the backslashes
and the marks inside. -/
def Text.protected (mark : Char) : List Char → List Char
  | [] => []
  | c :: cs =>
      if c = '\\' ∨ c = mark then '\\' :: c :: Text.protected mark cs
      else c :: Text.protected mark cs

/-- An expression as it is written. -/
def Expr.written : Expr → List Char
  | literal value false _ => value.toList
  | literal value true _ => '"' :: Text.protected '"' value.toList ++ ['"']
  | reference name _ => '$' :: '\x7b' :: name.toList ++ ['\x7d']

/-- An argument as it is written, given its text. -/
def Expr.writtenAs (text : String) : Expr → List Char
  | literal value quoted position => (literal value quoted position).written
  | reference _ _ => text.toList

/-- The words of a redirection. -/
def Redirection.words (r : Redirection) : List (List Char) := [r.operator.toList, r.target.written]

/-- The words of a command. -/
def Command.words (c : Command) : List (List Char) :=
  c.name.toList :: c.redirections.flatMap Redirection.words ++
    List.zipWith Expr.writtenAs c.args c.arguments

namespace Statement

mutual

/-- The lines of a statement, each with its words. -/
def lines : Statement → List (List (List Char))
  | command c => [c.words]
  | pipeline first second others _ =>
      [first.words ++ (second :: others).flatMap fun c => ['|'] :: c.words]
  | conditional condition args thenBody none _ =>
      ("if".toList :: (condition :: args).map Expr.written) :: ["then".toList] ::
        linesAll thenBody ++ [["fi".toList]]
  | conditional condition args thenBody (some elseBody) _ =>
      ("if".toList :: (condition :: args).map Expr.written) :: ["then".toList] ::
        linesAll thenBody ++ ["else".toList] :: linesAll elseBody ++ [["fi".toList]]
  | loop (.forIn name _) _ items body _ =>
      ("for".toList :: name.toList :: "in".toList :: items.map Expr.written) ::
        ["do".toList] :: linesAll body ++ [["done".toList]]
  | loop (.whileDo condition) args _ body _ =>
      ("while".toList :: (condition :: args).map Expr.written) ::
        ["do".toList] :: linesAll body ++ [["done".toList]]
  | function name body _ =>
      ["function".toList, name.toList ++ ['(', ')'], ['\x7b']] :: linesAll body ++ [[['\x7d']]]
  | assignment name value _ => [[name.toList, ['='], value.written]]

/-- The lines of statements, one after another. -/
def linesAll : List Statement → List (List (List Char))
  | [] => []
  | s :: ss => lines s ++ linesAll ss

end

end Statement

/-- Words with a space between each two. -/
def Text.spaced : List (List Char) → List Char
  | [] => []
  | w :: ws => w ++ ws.flatMap (' ' :: ·)

/-- Lines, each ended by a line feed. -/
def Text.unlines (lines : List (List (List Char))) : List Char :=
  lines.flatMap fun ws => Text.spaced ws ++ ['\n']

/-- A program as a script. -/
def Program.print (p : Program) : String :=
  String.ofList (Text.unlines (Statement.linesAll p.body))

end ShellScript
