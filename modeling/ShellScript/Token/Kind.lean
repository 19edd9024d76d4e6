/-
# ShellScript.Token.Kind -- the kinds of a token

The kinds in their fixed order, their printed names, and the three spelling
tables: reserved words, operators of one character, operators of two.  A table
keeps the order in which its entries are reported.
-/
namespace ShellScript

set_option autoImplicit false

/-- What a token is.  The reserved words are `kwIf` to `kwFunction`. -/
inductive Kind where
  | eof
  | newline
  | comment
  | word
  | quotedString
  | reference
  | kwIf
  | kwThen
  | kwElse
  | kwFi
  | kwFor
  | kwWhile
  | kwDo
  | kwDone
  | kwFunction
  | pipe
  | doublePipe
  | ampersand
  | doubleAmpersand
  | redirectOut
  | redirectAppend
  | redirectIn
  | semicolon
  | lparen
  | rparen
  | lbrace
  | rbrace
deriving DecidableEq

namespace Kind

/-- Every kind, in its fixed order. -/
def all : List Kind :=
  [eof, newline, comment, word, quotedString, reference, kwIf, kwThen, kwElse, kwFi, kwFor,
    kwWhile, kwDo, kwDone, kwFunction, pipe, doublePipe, ampersand, doubleAmpersand, redirectOut,
    redirectAppend, redirectIn, semicolon, lparen, rparen, lbrace, rbrace]

/-- The printed name of a kind. -/
def name : Kind → String
  | eof => "EOF"
  | newline => "NEWLINE"
  | comment => "COMMENT"
  | word => "WORD"
  | quotedString => "QUOTED_STRING"
  | reference => "VARIABLE"
  | kwIf => "IF"
  | kwThen => "THEN"
  | kwElse => "ELSE"
  | kwFi => "FI"
  | kwFor => "FOR"
  | kwWhile => "WHILE"
  | kwDo => "DO"
  | kwDone => "DONE"
  | kwFunction => "FUNCTION"
  | pipe => "PIPE"
  | doublePipe => "OR"
  | ampersand => "AMPERSAND"
  | doubleAmpersand => "AND"
  | redirectOut => "REDIRECT_OUT"
  | redirectAppend => "REDIRECT_APPEND"
  | redirectIn => "REDIRECT_IN"
  | semicolon => "SEMICOLON"
  | lparen => "LPAREN"
  | rparen => "RPAREN"
  | lbrace => "LBRACE"
  | rbrace => "RBRACE"

/-- The number of a kind: its place in the fixed order, counted from one. -/
def number (k : Kind) : Nat := all.idxOf k + 1

/-- The kind of a printed name. -/
def ofName? (s : String) : Option Kind := all.find? (·.name = s)

/-- The reserved words.  There is no context: `if` is reserved even as an argument. -/
def keywords : List (String × Kind) :=
  [("if", kwIf), ("then", kwThen), ("else", kwElse), ("fi", kwFi), ("for", kwFor),
    ("while", kwWhile), ("do", kwDo), ("done", kwDone), ("function", kwFunction)]

/-- The operators and punctuation of one character. -/
def operators : List (Char × Kind) :=
  [('|', pipe), ('&', ampersand), ('>', redirectOut), ('<', redirectIn), (';', semicolon),
    ('(', lparen), (')', rparen), ('\x7b', lbrace), ('\x7d', rbrace)]

/-- The operators of two characters, which win over those of one. -/
def doubleOperators : List ((Char × Char) × Kind) :=
  [(('|', '|'), doublePipe), (('&', '&'), doubleAmpersand), (('>', '>'), redirectAppend)]

/-- The kinds of the reserved words. -/
def isKeyword (k : Kind) : Bool := keywords.any (·.2 = k)

/-- The kinds that can stand as an argument. -/
def isWordLike : Kind → Bool
  | word | quotedString | reference => true
  | _ => false

/-- The kinds that open a redirection. -/
def isRedirection : Kind → Bool
  | redirectOut | redirectAppend | redirectIn => true
  | _ => false

/-- The kinds that may stand between a condition or a list of words and the
`then` or `do` after it. -/
def isHeaderSeparator : Kind → Bool
  | semicolon | newline | comment => true
  | _ => false

/-- The kinds that close a part of a compound statement and start no statement. -/
def isBlockCloser : Kind → Bool
  | kwThen | kwElse | kwFi | kwDo | kwDone | rbrace => true
  | _ => false

/-- The kind of a run of word characters: its reserved word, else a word. -/
def ofWord (s : String) : Kind := (keywords.lookup s).getD word

end Kind

end ShellScript
