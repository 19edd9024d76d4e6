/-
# ShellScript.Lexeme -- one lexeme at the front of the remaining characters

`Lexeme.read` takes the longest lexeme that can stand at the front of a nonempty
text.  What it finds depends on the first character alone: a comment, a line
feed, an operator (two characters win over one), a quoted string, a variable
reference, a run of word characters, or else that one character as a word.

The classes of characters it tells apart (`Charset`) hold ASCII characters only, so a
letter with an accent is in none of them.

Nothing is lost: `read_split` says that the lexeme followed by the rest is the
text, and `length_rest_lt` that the rest is shorter.
-/
import ShellScript.Token.Kind

namespace ShellScript

set_option autoImplicit false

namespace Charset

/-- A blank separates tokens and belongs to none of them.  The line feed is no
blank, because it ends a statement. -/
def isBlank (c : Char) : Bool := c = ' ' || c = '\t'

/-- A character of which words and bare variable names are made. -/
def isWord (c : Char) : Bool :=
  c.isAlphanum || c = '_' || c = '.' || c = '/' || c = '-'

/-- A character that opens a quoted string, and closes it again. -/
def isQuote (c : Char) : Bool := c = '"' || c = '\''

/-- The ASCII characters of a class, in code point order. -/
def listing (cls : Char → Bool) : String :=
  String.ofList (((List.range 128).map Char.ofNat).filter cls)

end Charset

/-- A delimiter that was opened and runs to the end of the script. -/
inductive Unclosed where
  | quote (mark : String)
  | reference
deriving DecidableEq

/-- One lexeme: what it is, what it says, how it is written, what follows it, and
the delimiter it leaves open, if it does. -/
structure Lexeme where
  kind : Kind
  text : List Char
  raw : List Char
  rest : List Char
  unclosed : Option Unclosed

namespace Lexeme

/-- A lexeme that says what is written. -/
def plain (kind : Kind) (raw rest : List Char) : Lexeme := ⟨kind, raw, raw, rest, none⟩

/-- After `#`: a comment runs to the end of its line. -/
def comment (cs : List Char) : Lexeme :=
  let text := cs.takeWhile (· != '\n')
  ⟨.comment, text, '#' :: text, cs.dropWhile (· != '\n'), none⟩

/-- After the operator character `c` of kind `single`: the pair with the next
character, if that is an operator, else `c` alone. -/
def operator (c : Char) (single : Kind) : List Char → Lexeme
  | [] => plain single [c] []
  | d :: ds =>
      match Kind.doubleOperators.lookup (c, d) with
      | some double => plain double [c, d] ds
      | none => plain single [c] (d :: ds)

/-- The inside of a quoted string: what it says, how it is written with the
closing mark, what follows, and whether there was a closing mark. -/
structure Inside where
  text : List Char
  raw : List Char
  rest : List Char
  closed : Bool

/-- One character more in front of an inside, `raw` as written. -/
def Inside.prepend (text raw : List Char) (i : Inside) : Inside :=
  { i with text := text ++ i.text, raw := raw ++ i.raw }

/-- After an opening `mark`.  A backslash lets the next character stand for
itself, whatever it is; a backslash that ends the script says nothing. -/
def inside (mark : Char) : List Char → Inside
  | [] => ⟨[], [], [], false⟩
  | ['\\'] => ⟨[], ['\\'], [], false⟩
  | '\\' :: c :: cs => (inside mark cs).prepend [c] ['\\', c]
  | c :: cs => if c = mark then ⟨[], [c], cs, true⟩ else (inside mark cs).prepend [c] [c]

/-- After an opening `mark`: a quoted string runs to the next such mark that no
backslash protects, else to the end of the script. -/
def quotedString (mark : Char) (cs : List Char) : Lexeme :=
  let i := inside mark cs
  ⟨.quotedString, i.text, mark :: i.raw, i.rest,
    if i.closed then none else some (.quote mark.toString)⟩

/-- After `$` and an opening brace: the name runs to the next closing brace, else
to the end of the script. -/
def bracedReference (cs : List Char) : Lexeme :=
  let name := cs.takeWhile (· != '\x7d')
  match cs.dropWhile (· != '\x7d') with
  | [] => ⟨.reference, name, '$' :: '\x7b' :: name, [], some .reference⟩
  | close :: rest => ⟨.reference, name, '$' :: '\x7b' :: (name ++ [close]), rest, none⟩

/-- After `$`: a name in braces, else a run of word characters, which may be
empty. -/
def reference : List Char → Lexeme
  | [] => ⟨.reference, [], ['$'], [], none⟩
  | c :: cs =>
      if c = '\x7b' then bracedReference cs
      else
        let name := (c :: cs).takeWhile Charset.isWord
        ⟨.reference, name, '$' :: name, (c :: cs).dropWhile Charset.isWord, none⟩

/-- A run of word characters that starts with `c`. -/
def word (c : Char) (cs : List Char) : Lexeme :=
  let run := c :: cs.takeWhile Charset.isWord
  plain (Kind.ofWord (String.ofList run)) run (cs.dropWhile Charset.isWord)

/-- The lexeme at the front of `c :: cs`.  A character with no role of its own,
a blank included, is a word of one character. -/
def read (c : Char) (cs : List Char) : Lexeme :=
  if c = '#' then comment cs
  else if c = '\n' then plain .newline [c] cs
  else
    match Kind.operators.lookup c with
    | some single => operator c single cs
    | none =>
        if Charset.isQuote c then quotedString c cs
        else if c = '$' then reference cs
        else if Charset.isWord c then word c cs
        else plain .word [c] cs

/-! ## Nothing is lost -/

theorem comment_split (cs : List Char) : (comment cs).raw ++ (comment cs).rest = '#' :: cs := by
  simp [comment]

theorem operator_split (c : Char) (single : Kind) (cs : List Char) :
    (operator c single cs).raw ++ (operator c single cs).rest = c :: cs := by
  cases cs with
  | nil => rfl
  | cons d ds => simp only [operator]; split <;> simp [plain]

theorem inside_split (mark : Char) (cs : List Char) :
    (inside mark cs).raw ++ (inside mark cs).rest = cs := by
  fun_induction inside mark cs with
  | case1 => rfl
  | case2 => rfl
  | case3 c cs ih => simpa [Inside.prepend] using ih
  | case4 cs => rfl
  | case5 c cs _ _ _ ih => simpa [Inside.prepend] using ih

theorem quotedString_split (mark : Char) (cs : List Char) :
    (quotedString mark cs).raw ++ (quotedString mark cs).rest = mark :: cs := by
  simp [quotedString, inside_split]

theorem bracedReference_split (cs : List Char) :
    (bracedReference cs).raw ++ (bracedReference cs).rest = '$' :: '\x7b' :: cs := by
  have whole := List.takeWhile_append_dropWhile (p := (· != '\x7d')) (l := cs)
  simp only [bracedReference]
  split
  · next empty => rw [empty, List.append_nil] at whole; simp [whole]
  · next close rest eq => rw [eq] at whole; simp [whole]

theorem reference_split (cs : List Char) :
    (reference cs).raw ++ (reference cs).rest = '$' :: cs := by
  cases cs with
  | nil => rfl
  | cons c cs =>
    by_cases brace : c = '\x7b'
    · rw [reference, if_pos brace, bracedReference_split, brace]
    · simp only [reference, if_neg brace, List.cons_append, List.takeWhile_append_dropWhile]

theorem word_split (c : Char) (cs : List Char) :
    (word c cs).raw ++ (word c cs).rest = c :: cs := by
  simp [word, plain]

/-- The lexeme and the rest are the text. -/
theorem read_split (c : Char) (cs : List Char) :
    (read c cs).raw ++ (read c cs).rest = c :: cs := by
  unfold read
  split
  · next hash => rw [comment_split, hash]
  split
  · rfl
  split
  · exact operator_split c _ cs
  split
  · exact quotedString_split c cs
  split
  · next dollar => rw [reference_split, dollar]
  split
  · exact word_split c cs
  · rfl

theorem reference_raw_ne_nil (cs : List Char) : (reference cs).raw ≠ [] := by
  cases cs with
  | nil => simp [reference]
  | cons c cs =>
    by_cases brace : c = '\x7b'
    · rw [reference, if_pos brace, bracedReference]
      split <;> simp
    · simp [reference, if_neg brace]

/-- A lexeme is never empty. -/
theorem raw_ne_nil (c : Char) (cs : List Char) : (read c cs).raw ≠ [] := by
  unfold read
  split
  · simp [comment]
  split
  · simp [plain]
  split
  · cases cs with
    | nil => simp [operator, plain]
    | cons d ds => simp only [operator]; split <;> simp [plain]
  split
  · simp [quotedString]
  split
  · exact reference_raw_ne_nil cs
  split
  · simp [word, plain]
  · simp [plain]

/-- The rest is shorter than the text. -/
theorem length_rest_lt (c : Char) (cs : List Char) :
    (read c cs).rest.length < (c :: cs).length := by
  rw [← read_split c cs, List.length_append]
  have := List.length_pos_iff.2 (raw_ne_nil c cs)
  omega

end Lexeme

end ShellScript
