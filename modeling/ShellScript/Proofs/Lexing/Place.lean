/-
# ShellScript.Proofs.Lexing.Place -- the line and the column of an offset

The line of an offset is counted by the line feeds before it, its column from the last
of them on.  A cursor is `Placed` in a text if its line and column are those of its
offset, and so is a span if they are those of its start.

A cursor stays placed as long as it moves past the characters that follow it
(`Cursor.Placed.advance`).  A run of the lexer does nothing else, so whatever it gives
is placed (`placed_run`), also where it fails.
-/
import ShellScript.Proofs.Lexing.Lexeme
import ShellScript.Proofs.Lexing.Basic

namespace ShellScript

set_option autoImplicit false

namespace Text

/-- The line of an offset: one more than the line feeds before it. -/
def lineAt (cs : List Char) (n : Nat) : Nat := 1 + (cs.take n).count '\n'

/-- The offset at which the line of an offset starts: just behind the last line feed
before it, or else zero. -/
def lineStart (cs : List Char) : Nat → Nat
  | 0 => 0
  | n + 1 => if cs[n]? = some '\n' then n + 1 else lineStart cs n

/-- The column of an offset: one more than the characters of its line before it. -/
def columnAt (cs : List Char) (n : Nat) : Nat := n - lineStart cs n + 1

theorem lineStart_le (cs : List Char) (n : Nat) : lineStart cs n ≤ n := by
  induction n with
  | zero => exact Nat.le_refl 0
  | succ n ih =>
    unfold lineStart
    split
    · exact Nat.le_refl _
    · omega

variable {cs : List Char} {n : Nat} {c : Char}

theorem lineAt_succ (found : cs[n]? = some c) :
    lineAt cs (n + 1) = lineAt cs n + if c = '\n' then 1 else 0 := by
  rw [lineAt, lineAt, List.take_add_one, found, Option.toList_some, List.count_append]
  by_cases feed : c = '\n' <;> simp [feed, Nat.add_assoc]

theorem columnAt_succ (found : cs[n]? = some c) :
    columnAt cs (n + 1) = if c = '\n' then 1 else columnAt cs n + 1 := by
  have := lineStart_le cs n
  by_cases feed : c = '\n'
  · simp [columnAt, lineStart, found, feed]
  · simp only [columnAt, lineStart, found, Option.some.injEq, feed, if_false]
    omega

end Text

/-- What stands at an offset, and what follows it. -/
theorem Text.drop_cons {cs rest : List Char} {n : Nat} {c : Char} (ahead : cs.drop n = c :: rest) :
    cs[n]? = some c ∧ cs.drop (n + 1) = rest := by
  constructor
  · rw [← List.head?_drop, ahead]
    rfl
  · rw [← List.tail_drop, ahead]
    rfl

/-! ## Placed cursors and spans -/

/-- A cursor stands in the text `whole`, on the line and in the column of its offset. -/
structure Cursor.Placed (here : Cursor) (whole : List Char) : Prop where
  le : here.offset ≤ whole.length
  line : here.line = Text.lineAt whole here.offset
  column : here.column = Text.columnAt whole here.offset

/-- A span starts at an offset of the text `whole`, with the line and the column of that
offset. -/
def Span.Placed (s : Span) (whole : List Char) : Prop :=
  ∃ n : Nat, n ≤ whole.length ∧ s.startOffset = n ∧ s.line = Text.lineAt whole n ∧
    s.column = Text.columnAt whole n

/-- A token has a position, which is placed in the text `whole`. -/
def Token.Placed (t : Token) (whole : List Char) : Prop :=
  ∃ s, t.position = some s ∧ s.Placed whole

/-- A report has a position, which is placed in the text `whole`. -/
def Diagnostic.Placed (d : Diagnostic) (whole : List Char) : Prop :=
  ∃ s, d.position = some s ∧ s.Placed whole

namespace Cursor

variable {whole : List Char} {here : Cursor}

theorem placed_start (whole : List Char) : start.Placed whole := by
  refine ⟨Nat.zero_le _, ?_, rfl⟩
  simp [start, Text.lineAt]

theorem Placed.step {c : Char} (placed : here.Placed whole)
    (found : whole[here.offset]? = some c) : (here.step c).Placed whole := by
  obtain ⟨bound, -⟩ := List.getElem?_eq_some_iff.1 found
  refine ⟨?_, ?_, ?_⟩
  · rw [offset_step]
    omega
  · rw [offset_step, Text.lineAt_succ found, ← placed.line]
    unfold Cursor.step
    split <;> rfl
  · rw [offset_step, Text.columnAt_succ found, ← placed.column]
    unfold Cursor.step
    split <;> rfl

theorem Placed.advance {cs : List Char} (placed : here.Placed whole)
    (ahead : cs <+: whole.drop here.offset) : (here.advance cs).Placed whole := by
  induction cs generalizing here with
  | nil => exact placed
  | cons c cs ih =>
    obtain ⟨rest, split⟩ := ahead
    obtain ⟨found, left⟩ := Text.drop_cons split.symm
    refine ih (placed.step found) ⟨rest, ?_⟩
    rw [offset_step, left, List.append_eq]

theorem Placed.spanTo (placed : here.Placed whole) (stop : Cursor) :
    (here.spanTo stop).Placed whole := by
  refine ⟨here.offset, placed.le, rfl, ?_, ?_⟩
  · rw [← placed.line]
    rfl
  · rw [← placed.column]
    rfl

end Cursor

/-! ## Runs of the lexer -/

theorem Unclosed.position_report (delimiter : Unclosed) (severity : String)
    (position : Option Span) : (delimiter.report severity position).position = position := by
  cases delimiter <;> rfl

namespace Lexing

variable {whole : List Char} {here : Cursor}

/-- Everything that a run gives is placed. -/
structure Placed (l : Lexing) (whole : List Char) : Prop where
  tokens : ∀ t ∈ l.tokens, t.Placed whole
  warnings : ∀ d ∈ l.warnings, d.Placed whole
  stop : l.stop.Placed whole
  failure : ∀ d, l.failure = some d → d.Placed whole

theorem placed_token (placed : here.Placed whole) (x : Lexeme) : (x.token here).Placed whole :=
  ⟨_, rfl, placed.spanTo _⟩

theorem placed_report (placed : here.Placed whole) (x : Lexeme) (delimiter : Unclosed)
    (severity : String) :
    (delimiter.report severity (x.token here).position).Placed whole := by
  obtain ⟨s, position, start⟩ := placed_token placed x
  exact ⟨s, by rw [delimiter.position_report, position], start⟩

/-- A lexeme takes characters that follow. -/
theorem placed_lexeme {c : Char} {cs : List Char} (placed : here.Placed whole)
    (ahead : whole.drop here.offset = c :: cs) :
    (here.advance (Lexeme.read c cs).raw).Placed whole ∧
      whole.drop (here.advance (Lexeme.read c cs).raw).offset = (Lexeme.read c cs).rest := by
  have split := Lexeme.read_split c cs
  rw [← ahead] at split
  refine ⟨placed.advance ⟨_, split⟩, ?_⟩
  rw [Cursor.offset_advance, ← List.drop_drop, ← split, List.drop_left]

theorem Placed.push {l : Lexing} (placed : l.Placed whole) {t : Token} (first : t.Placed whole) :
    (l.push t).Placed whole where
  tokens := List.forall_mem_cons.2 ⟨first, placed.tokens⟩
  warnings := placed.warnings
  stop := placed.stop
  failure := placed.failure

theorem Placed.warn {l : Lexing} (placed : l.Placed whole) {d : Diagnostic}
    (first : d.Placed whole) : (l.warn d).Placed whole where
  tokens := placed.tokens
  warnings := List.forall_mem_cons.2 ⟨first, placed.warnings⟩
  stop := placed.stop
  failure := placed.failure

theorem placed_run (strict : Bool) (here : Cursor) (cs : List Char) (placed : here.Placed whole)
    (ahead : whole.drop here.offset = cs) : (run strict here cs).Placed whole := by
  induction here, cs using run_induction with
  | stop here =>
    rw [run_nil]
    refine ⟨fun t member => ?_, by simp, placed, by simp⟩
    rw [List.mem_singleton.1 member]
    exact ⟨_, rfl, placed.spanTo here⟩
  | blank here c cs blank ih =>
    obtain ⟨found, left⟩ := Text.drop_cons ahead
    rw [run_blank strict blank]
    refine ih (placed.step found) ?_
    rw [Cursor.offset_step, left]
  | lexeme here c cs solid ih =>
    obtain ⟨moved, left⟩ := placed_lexeme placed ahead
    have others := ih moved left
    have first := placed_token placed (Lexeme.read c cs)
    cases h : (Lexeme.read c cs).unclosed with
    | none =>
      rw [run_closed strict solid h]
      exact others.push first
    | some delimiter =>
      have report (severity : String) := placed_report placed (Lexeme.read c cs) delimiter severity
      rw [run]
      simp only [solid, h, Bool.false_eq_true, if_false]
      cases strict with
      | false => exact (others.push first).warn (report _)
      | true =>
        refine ⟨by simp, by simp, moved, fun d failed => ?_⟩
        simp only [if_true, Option.some.injEq] at failed
        rw [← failed]
        exact report _

end Lexing

end ShellScript
