/-
# ShellScript.Proofs.Lexing.Basic -- a run of the lexer, lexeme by lexeme

The equations of a lenient run, and the induction that goes with them
(`run_induction`): the text ends, or a blank is skipped, or one lexeme is read.
Every token but the end mark is the token of such a lexeme (`read_of_mem_tokens`).

A strict run differs from the lenient one only where that one warns
(`run_eq_lenient`, `warnings_eq_nil_of_strict`).
-/
import ShellScript.Lexing

namespace ShellScript.Lexing

set_option autoImplicit false

variable {here : Cursor} {c : Char} {cs : List Char}

/-! ## One step of a run -/

@[simp] theorem run_nil (strict : Bool) (here : Cursor) :
    run strict here [] = ⟨[Token.endMark here], [], here, none⟩ := by
  rw [run]

theorem run_blank (strict : Bool) (blank : Charset.isBlank c = true) :
    run strict here (c :: cs) = run strict (here.step c) cs := by
  rw [run, if_pos blank]

theorem run_closed (strict : Bool) (solid : Charset.isBlank c = false)
    (closed : (Lexeme.read c cs).unclosed = none) :
    run strict here (c :: cs) =
      (run strict (here.advance (Lexeme.read c cs).raw) (Lexeme.read c cs).rest).push
        ((Lexeme.read c cs).token here) := by
  rw [run]
  simp only [solid, Bool.false_eq_true, if_false]
  split
  · rfl
  · next delimiter eq => rw [closed] at eq; cases eq

theorem tokens_run_lexeme (solid : Charset.isBlank c = false) :
    (run false here (c :: cs)).tokens =
      (Lexeme.read c cs).token here ::
        (run false (here.advance (Lexeme.read c cs).raw) (Lexeme.read c cs).rest).tokens := by
  rw [run]
  simp only [solid, Bool.false_eq_true, if_false]
  split <;> rfl

theorem warnings_run_lexeme (solid : Charset.isBlank c = false) :
    (run false here (c :: cs)).warnings =
      ((Lexeme.read c cs).unclosed.map fun delimiter =>
        delimiter.report Diagnostic.warning ((Lexeme.read c cs).token here).position).toList ++
        (run false (here.advance (Lexeme.read c cs).raw) (Lexeme.read c cs).rest).warnings := by
  rw [run]
  simp only [solid, Bool.false_eq_true, if_false]
  split
  · next closed => rw [closed]; rfl
  · next delimiter eq => rw [eq]; rfl

/-- Where a run warns of nothing, it leaves nothing open. -/
theorem closed_of_quiet (solid : Charset.isBlank c = false)
    (quiet : (run false here (c :: cs)).warnings = []) :
    (Lexeme.read c cs).unclosed = none ∧
      (run false (here.advance (Lexeme.read c cs).raw) (Lexeme.read c cs).rest).warnings = [] := by
  rw [warnings_run_lexeme solid, List.append_eq_nil_iff] at quiet
  obtain ⟨first, others⟩ := quiet
  cases unclosed : (Lexeme.read c cs).unclosed with
  | none => exact ⟨rfl, others⟩
  | some delimiter => simp [unclosed] at first

/-- Induction along a run. -/
@[elab_as_elim]
theorem run_induction {motive : Cursor → List Char → Prop} (stop : ∀ here, motive here [])
    (blank : ∀ here c cs, Charset.isBlank c = true → motive (here.step c) cs →
      motive here (c :: cs))
    (lexeme : ∀ here c cs, Charset.isBlank c = false →
      motive (here.advance (Lexeme.read c cs).raw) (Lexeme.read c cs).rest →
      motive here (c :: cs))
    (here : Cursor) (cs : List Char) : motive here cs :=
  match cs with
  | [] => stop here
  | c :: cs =>
      match h : Charset.isBlank c with
      | true => blank here c cs h (run_induction stop blank lexeme (here.step c) cs)
      | false =>
          lexeme here c cs h (run_induction stop blank lexeme
            (here.advance (Lexeme.read c cs).raw) (Lexeme.read c cs).rest)
termination_by cs.length
decreasing_by
  · exact Nat.lt_succ_self cs.length
  · exact Lexeme.length_rest_lt c cs

/-! ## Lenient and strict runs -/

theorem failure_run_lenient (here : Cursor) (cs : List Char) :
    (run false here cs).failure = none := by
  induction here, cs using run_induction with
  | stop here => simp
  | blank here c cs blank ih => rw [run_blank false blank, ih]
  | lexeme here c cs solid ih =>
    rw [run]
    simp only [solid, Bool.false_eq_true, if_false]
    split <;> exact ih

/-- In lenient work every script has its tokens. -/
theorem tokenize_eq (source : String) :
    tokenize source false = .ok (ofScript source false).tokens := by
  rw [tokenize, result, ofScript, failure_run_lenient]
  rfl

/-- Where the lenient run has nothing to warn of, the strict one is the same. -/
theorem run_eq_lenient (strict : Bool) (here : Cursor) (cs : List Char)
    (quiet : (run false here cs).warnings = []) : run strict here cs = run false here cs := by
  induction here, cs using run_induction with
  | stop here => simp
  | blank here c cs blank ih =>
    rw [run_blank false blank] at quiet ⊢
    rw [run_blank strict blank, ih quiet]
  | lexeme here c cs solid ih =>
    obtain ⟨closed, quiet⟩ := closed_of_quiet solid quiet
    rw [run_closed strict solid closed, run_closed false solid closed, ih quiet]

/-- A strict run that succeeds leaves nothing to warn of. -/
theorem warnings_eq_nil_of_strict (here : Cursor) (cs : List Char)
    (succeeds : (run true here cs).failure = none) : (run false here cs).warnings = [] := by
  induction here, cs using run_induction with
  | stop here => simp
  | blank here c cs blank ih =>
    rw [run_blank true blank] at succeeds
    rw [run_blank false blank, ih succeeds]
  | lexeme here c cs solid ih =>
    cases h : (Lexeme.read c cs).unclosed with
    | none =>
      rw [run_closed true solid h] at succeeds
      rw [run_closed false solid h]
      exact ih succeeds
    | some delimiter =>
      rw [run] at succeeds
      simp [solid, h] at succeeds

/-- A run that succeeds reads what the lenient run reads. -/
theorem run_eq_lenient_of_success (strict : Bool) (here : Cursor) (cs : List Char)
    (succeeds : (run strict here cs).failure = none) : run strict here cs = run false here cs := by
  cases strict with
  | false => rfl
  | true => exact run_eq_lenient true here cs (warnings_eq_nil_of_strict here cs succeeds)

/-- The report a strict run fails with is that of the delimiter left open. -/
theorem failure_run_strict (here : Cursor) (cs : List Char) {d : Diagnostic}
    (fails : (run true here cs).failure = some d) :
    ∃ delimiter : Unclosed, ∃ position, d = delimiter.report Diagnostic.error position := by
  induction here, cs using run_induction with
  | stop here => simp at fails
  | blank here c cs blank ih =>
    rw [run_blank true blank] at fails
    exact ih fails
  | lexeme here c cs solid ih =>
    cases h : (Lexeme.read c cs).unclosed with
    | none =>
      rw [run_closed true solid h] at fails
      exact ih fails
    | some delimiter =>
      rw [run] at fails
      simp only [solid, h, Bool.false_eq_true, if_false, if_true, Option.some.injEq] at fails
      exact ⟨delimiter, _, fails.symm⟩

/-! ## The tokens of a run -/

/-- A token of a lenient run is the end mark behind its text, or the token of a lexeme
that the run reads where it has come to.  A delimiter that this lexeme leaves open is
reported. -/
theorem read_of_mem_tokens {t : Token} (here : Cursor) (cs : List Char)
    (member : t ∈ (run false here cs).tokens) :
    t = Token.endMark (here.advance cs) ∨
      ∃ passed c rest, cs = passed ++ c :: rest ∧ Charset.isBlank c = false ∧
        t = (Lexeme.read c rest).token (here.advance passed) ∧
        ∀ delimiter, (Lexeme.read c rest).unclosed = some delimiter →
          delimiter.report Diagnostic.warning t.position ∈ (run false here cs).warnings := by
  induction here, cs using run_induction with
  | stop here =>
    left
    simpa using member
  | blank here c cs blank ih =>
    rw [run_blank false blank] at member ⊢
    rcases ih member with rfl | ⟨passed, d, rest, rfl, solid, rfl, reported⟩
    · exact Or.inl rfl
    · exact Or.inr ⟨c :: passed, d, rest, rfl, solid, rfl, reported⟩
  | lexeme here c cs solid ih =>
    rw [tokens_run_lexeme solid, List.mem_cons] at member
    rw [warnings_run_lexeme solid]
    rcases member with rfl | member
    · right
      refine ⟨[], c, cs, rfl, solid, rfl, fun delimiter unclosed => ?_⟩
      exact List.mem_append_left _ (by simp [unclosed])
    · have split := Lexeme.read_split c cs
      rcases ih member with rfl | ⟨passed, d, rest, left, solid', rfl, reported⟩
      · left
        rw [← split, Cursor.advance_append]
      · right
        refine ⟨(Lexeme.read c cs).raw ++ passed, d, rest, ?_, solid', ?_,
          fun delimiter unclosed => ?_⟩
        · rw [List.append_assoc, ← left, split]
        · rw [Cursor.advance_append]
        · exact List.mem_append_right _ (reported delimiter unclosed)

/-- Where the run has nothing to warn of, every lexeme is closed. -/
theorem mem_tokens_run {t : Token} (here : Cursor) (cs : List Char)
    (member : t ∈ (run false here cs).tokens) :
    (∃ stop, t = Token.endMark stop) ∨
      ∃ start c rest, Charset.isBlank c = false ∧ t = (Lexeme.read c rest).token start ∧
        ((run false here cs).warnings = [] → (Lexeme.read c rest).unclosed = none) := by
  rcases read_of_mem_tokens here cs member with last | ⟨passed, c, rest, -, solid, eq, reported⟩
  · exact Or.inl ⟨_, last⟩
  · refine Or.inr ⟨_, c, rest, solid, eq, fun quiet => ?_⟩
    cases unclosed : (Lexeme.read c rest).unclosed with
    | none => rfl
    | some delimiter =>
      have := reported delimiter unclosed
      rw [quiet] at this
      cases this

end ShellScript.Lexing
