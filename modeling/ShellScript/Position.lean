/-
# ShellScript.Position -- spans of a script, and the cursor that measures them

A `Span` says where a token or a piece of a tree stands: a half-open range of
code points, with the line and column of its start.  Its numbers are integers,
because a span may also be handed in by a caller, who is free to write nonsense.

A `Cursor` is a place between two characters of a script.  It only ever moves
forward, past characters (`Cursor.advance`), so its line and column are always
those of its offset; `advance_append` lets two moves be read as one.
-/
namespace ShellScript

set_option autoImplicit false

/-- A range of a script.  Offsets count code points and the end is exclusive;
line and column are counted from one and are those of the start. -/
structure Span where
  startOffset : Int
  endOffset : Int
  line : Int
  column : Int
deriving DecidableEq

namespace Span

/-- The place of a span as `line:column`. -/
def place (s : Span) : String := s!"{s.line}:{s.column}"

/-- All four numbers of a span, for a programmer to read. -/
def describe (s : Span) : String :=
  s!"SourcePosition({s.startOffset}, {s.endOffset}, {s.line}, {s.column})"

/-- The span stretched to the right until it covers `stop`; never shrunk. -/
def reach (s : Span) (stop : Int) : Span := { s with endOffset := max s.endOffset stop }

/-- A span stretched to the end of another.  If either is unknown, so is the
result. -/
def reach? : Option Span → Option Span → Option Span
  | some s, some t => some (s.reach t.endOffset)
  | _, _ => none

end Span

/-- A place between two characters of a script. -/
structure Cursor where
  offset : Nat
  line : Nat
  column : Nat
deriving DecidableEq

namespace Cursor

/-- The place before the first character. -/
def start : Cursor := ⟨0, 1, 1⟩

/-- The place after `c`: a line feed opens a new line, any other character takes
one column. -/
def step (here : Cursor) (c : Char) : Cursor :=
  if c = '\n' then ⟨here.offset + 1, here.line + 1, 1⟩
  else ⟨here.offset + 1, here.line, here.column + 1⟩

/-- The place after all of `cs`. -/
def advance (here : Cursor) (cs : List Char) : Cursor := cs.foldl step here

/-- The span from one place to another. -/
def spanTo (a b : Cursor) : Span := ⟨a.offset, b.offset, a.line, a.column⟩

@[simp] theorem advance_nil (a : Cursor) : a.advance [] = a := rfl

@[simp] theorem advance_cons (a : Cursor) (c : Char) (cs : List Char) :
    a.advance (c :: cs) = (a.step c).advance cs := rfl

theorem advance_append (a : Cursor) (cs ds : List Char) :
    a.advance (cs ++ ds) = (a.advance cs).advance ds := List.foldl_append

@[simp] theorem offset_step (a : Cursor) (c : Char) : (a.step c).offset = a.offset + 1 := by
  unfold step; split <;> rfl

@[simp] theorem offset_advance (a : Cursor) (cs : List Char) :
    (a.advance cs).offset = a.offset + cs.length := by
  induction cs generalizing a with
  | nil => rfl
  | cons c cs ih => rw [advance_cons, ih, offset_step, List.length_cons]; omega

end Cursor

end ShellScript
