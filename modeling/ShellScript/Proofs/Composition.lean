/-
# ShellScript.Proofs.Composition -- scripts compose line by line

A script followed by a line feed and another script is read as one after the other, if
nothing is left open in the first: the tokens of the first, the line feed in the place of
its end mark, and the tokens of the second, moved there (`ofScript_append_line`).

So it is with the statements.  Those of the first script are the same, but that what went up
to its end now goes up to the end of the line feed (`read_first`); the second script is
read, or refused, as it is alone, only moved (`append_line_composes`).
-/
import ShellScript.Proofs.Lexing.Line
import ShellScript.Proofs.Lexing.Place
import ShellScript.Proofs.Parse.Line
import ShellScript.Proofs.Parse.Motion
import ShellScript.Proofs.Parse.Script

namespace ShellScript

set_option autoImplicit false

open Grammar Parse

/-! ## The tokens -/

/-- The motion of a script behind the script `a` and a line feed. -/
def Motion.behind (a : String) : Motion :=
  .shift (a.toList.length + 1) (a.toList.count '\n' + 1)

/-- The token of the line feed behind the script `a`. -/
def feedBehind (a : String) : Token where
  kind := .newline
  text := "\n"
  lexeme := "\n"
  position := some ⟨a.toList.length, a.toList.length + 1,
    Text.lineAt a.toList a.toList.length, Text.columnAt a.toList a.toList.length⟩

/-- The cursor behind all of a script. -/
theorem advance_start (cs : List Char) :
    Cursor.start.advance cs =
      ⟨cs.length, Text.lineAt cs cs.length, Text.columnAt cs cs.length⟩ := by
  obtain ⟨-, line, column⟩ := (Cursor.placed_start cs).advance (List.prefix_refl cs)
  have offset : (Cursor.start.advance cs).offset = cs.length := by
    rw [Cursor.offset_advance]
    exact Nat.zero_add _
  rw [offset] at line column
  rw [← line, ← column, ← offset]

theorem lineFeed_start (a : String) :
    Token.lineFeed (Cursor.start.advance a.toList) = feedBehind a := by
  rw [advance_start]
  rfl

/-- Behind the line feed the second script starts as at the start, only moved. -/
theorem step_start (a : String) :
    (Cursor.start.advance a.toList).step '\n' =
      Cursor.start.shift (a.toList.length + 1) (a.toList.count '\n' + 1) := by
  rw [advance_start]
  simp only [Cursor.step, if_true, Cursor.start, Cursor.shift, Text.lineAt, List.take_length]
  congr 1
  omega

section Tokens

variable {a : String} {strict : Bool} (closed : (Lexing.ofScript a strict).failure = none)
  (quiet : (Lexing.ofScript a strict).warnings = [])

include closed quiet

theorem quiet_lenient : (Lexing.ofScript a false).warnings = [] := by
  rw [Lexing.ofScript] at closed quiet ⊢
  rwa [Lexing.run_eq_lenient_of_success strict _ _ closed] at quiet

/-- **The tokens of two scripts, a line feed between them.** -/
theorem ofScript_append_line (b : String) :
    ∃ ws, (Lexing.ofScript a strict).tokens =
        ws ++ [Token.endMark (Cursor.start.advance a.toList)] ∧
      Lexing.ofScript (a ++ "\n" ++ b) strict =
        ((Lexing.ofScript b strict).shift (a.toList.length + 1) (a.toList.count '\n' + 1)).behind
          (ws ++ [feedBehind a]) := by
  obtain ⟨ws, tokens, goes_on⟩ :=
    Lexing.run_append_line strict .start a.toList b.toList (quiet_lenient closed quiet)
  have text : (a ++ "\n" ++ b).toList = a.toList ++ '\n' :: b.toList := by simp
  refine ⟨ws, tokens, ?_⟩
  rw [Lexing.ofScript, text, goes_on, lineFeed_start, step_start, Lexing.run_shift]
  rfl

omit quiet in
/-- The tokens of the first script but its end mark end at its end or before. -/
theorem move_retract {ws : List Token} {last : Token}
    (tokens : (Lexing.ofScript a strict).tokens = ws ++ [last]) :
    ∀ t ∈ ws, t.move (.retract a.toList.length) = t := by
  have tiling := Lexing.tiling_run [] a.toList .start rfl
  rw [List.nil_append] at tiling
  obtain ⟨body, last', split, -, covers⟩ := tiling.split
  rw [Lexing.ofScript, Lexing.run_eq_lenient_of_success strict _ _ closed, split] at tokens
  obtain ⟨rfl, -⟩ := List.append_inj' tokens rfl
  intro t member
  obtain ⟨line, column, position⟩ := (covers t member).spans
  have inside := (covers t member).stop_le
  apply Token.move_eq_self
  rw [position]
  exact congrArg some (Span.retract_of_le (Int.ofNat_le.2 inside))

end Tokens

/-! ## The statements of the first script -/

/-- What the top level drops is among its tokens. -/
theorem mem_of_dropped {S : Phrase Statement} {next t : Token} {ws : List Token}
    {b : List Statement × List Token} (h : IsBody S next ws b) (member : t ∈ b.2) : t ∈ ws := by
  induction h with
  | stop => cases member
  | @round next us vs ws i b first _ _ ih =>
    have others (inside : t ∈ b.2) : t ∈ us ++ (vs ++ ws) := by simp [ih inside]
    cases first with
    | lineFeed => exact others member
    | comment => exact others member
    | statement => exact others member
    | skipped =>
      rcases List.mem_cons.1 member with rfl | inside
      · simp
      · exact others inside

/-- **The first script is read up to the line feed as it was up to its end.**  What ended at
the end mark now ends at `far`, which the motion `m` takes back to the end mark. -/
theorem isBody_retracted {m : Motion} {ws : List Token} {last far : Token}
    {b : List Statement × List Token} (h : IsBody (Within nestingLimit) last ws b)
    (inner : ∀ t ∈ ws, t.kind ≠ .eof) (fixed : ∀ t ∈ ws, t.move m = t) (back : far.move m = last) :
    ∃ ss, ss.map (Statement.move m) = b.1 ∧
      IsBody (Within nestingLimit) far ws (ss, b.2) := by
  have last_kind : last.kind = .eof := eof_of_isBody h
  have far_kind : far.kind = .eof := by rw [← last_kind, ← back, Token.kind_move]
  have complete {t : Token} (kind : t.kind = .eof) : Complete (ws ++ [t]) :=
    complete_append inner kind
  have same : (ws ++ [far]).map (Token.move m) = ws ++ [last] := by
    rw [List.map_append, List.map_congr_left fixed, List.map_id', List.map_singleton, back]
  have moved := Body.read_move (m := m) (ws ++ [far])
  rw [same, (read_eq_iff (complete last_kind)).2 ⟨ws, last, rfl, rfl, h⟩] at moved
  rcases read : Body.read (ws ++ [far]) with ⟨ss, dropped, rest, failure⟩
  simp only [read, Body.move, Body.mk.injEq] at moved
  obtain ⟨statements, skipped, -, failed⟩ := moved
  obtain rfl := Option.map_eq_none_iff.1 failed.symm
  obtain ⟨ws', last', split, rfl, body⟩ := (read_eq_iff (complete far_kind)).1 read
  obtain ⟨rfl, rfl⟩ := List.append_singleton_inj.1 split
  have kept : dropped.map (Token.move m) = dropped := by
    rw [List.map_congr_left fun t member => fixed t (mem_of_dropped body member), List.map_id']
  refine ⟨ss, statements.symm, ?_⟩
  rw [skipped, kept]
  exact body

/-! ## The parse -/

section Parses

variable {a b : String} {strict : Bool} (closed : (Lexing.ofScript a strict).failure = none)
  (quiet : (Lexing.ofScript a strict).warnings = [])

include closed quiet

/-- The top level of both scripts, where the first has a program. -/
theorem read_append_line {p : Program} (parsed : parse a strict = .ok p)
    (closed' : (Lexing.ofScript b strict).failure = none) :
    ∃ ss, ss.map (Statement.move (.retract a.toList.length)) = p.body ∧
      (Lexing.ofScript (a ++ "\n" ++ b) strict).failure = none ∧
      Body.read (Parser.loaded (a ++ "\n" ++ b) strict).tokens =
        Body.after (ss, (Parser.ofSource (.text a) strict).parse.2.skipped)
          ((Body.read (Parser.loaded b strict).tokens).move (.behind a)) := by
  obtain ⟨ws, split, whole⟩ := ofScript_append_line closed quiet b
  obtain ⟨-, ws', last, split', body, -⟩ := Parser.parse_ok_iff.1 ⟨parsed, rfl⟩
  rw [split] at split'
  obtain ⟨rfl, rfl⟩ := List.append_singleton_inj.1 split'
  have complete := Parser.complete_loaded closed
  rw [Parser.loaded, split] at complete
  let far : Token := { feedBehind a with kind := .eof, text := "", lexeme := "" }
  have back : far.move (.retract a.toList.length) =
      Token.endMark (Cursor.start.advance a.toList) := by
    rw [advance_start]
    simp [far, feedBehind, Token.move, Motion.position, Motion.retract, Span.retract,
      Token.endMark, Cursor.spanTo]
  obtain ⟨ss, first, body⟩ :=
    isBody_retracted body complete.inner (move_retract closed split) back
  have failure : (Lexing.ofScript (a ++ "\n" ++ b) strict).failure = none := by
    rw [whole]
    show ((Lexing.ofScript b strict).failure.map _) = none
    rw [closed']
    rfl
  have tokens : (Parser.loaded (a ++ "\n" ++ b) strict).tokens =
      ws ++ feedBehind a :: (Parser.loaded b strict).tokens.map (Token.move (.behind a)) := by
    rw [Parser.loaded, whole]
    simp [Lexing.behind, Lexing.shift, Parser.loaded, Motion.behind]
  have complete' := Parser.complete_loaded failure
  rw [tokens, List.append_cons] at complete'
  have moved : (Parser.loaded b strict).tokens.map (Token.move (.behind a)) ≠ [] := by
    intro empty
    rw [List.map_eq_nil_iff] at empty
    have := Parser.complete_loaded closed'
    rw [empty] at this
    exact this
  refine ⟨ss, first, failure, ?_⟩
  rw [tokens, ← Body.read_move]
  exact Body.read_append_line body complete.inner rfl rfl (complete'.of_append moved)

/-- The program of both scripts, where each has one. -/
theorem parse_append_line {p q : Program} (parsed : parse a strict = .ok p)
    (parsed' : parse b strict = .ok q) :
    ∃ r ss, parse (a ++ "\n" ++ b) strict = .ok r ∧
      r.body = ss ++ q.body.map (Statement.move (.behind a)) ∧
      ss.map (Statement.move (.retract a.toList.length)) = p.body ∧
      (Parser.ofSource (.text (a ++ "\n" ++ b)) strict).parse.2.warnings =
        (Parser.ofSource (.text a) strict).parse.2.warnings ++
          (Parser.ofSource (.text b) strict).parse.2.warnings.map (ParseReport.move (.behind a)) ∧
      (Parser.ofSource (.text (a ++ "\n" ++ b)) strict).parse.2.lexerWarnings =
        (Parser.ofSource (.text b) strict).parse.2.lexerWarnings.map
          (Diagnostic.move (.behind a)) := by
  obtain ⟨_, _, whole⟩ := ofScript_append_line closed quiet b
  obtain ⟨closed', ws, last, split, body, -⟩ := Parser.parse_ok_iff.1 ⟨parsed', rfl⟩
  obtain ⟨ss, first, failure, read⟩ := read_append_line closed quiet parsed closed'
  have read' := (read_eq_iff (Parser.complete_loaded closed')).2 ⟨ws, last, split, rfl, body⟩
  rw [read'] at read
  obtain ⟨ws', last', split', left, -⟩ := (read_eq_iff (Parser.complete_loaded failure)).1 read
  obtain rfl : last.move (.behind a) = last' := (List.cons.inj left).1
  obtain ⟨result, skipped⟩ := Parser.parse_of_read failure split' read
  refine ⟨_, ss, result, rfl, first, ?_, ?_⟩
  · rw [Parser.warnings, skipped]
    simp [Parser.warnings, Body.move, Function.comp_def, ParseReport.skipped_move]
  · rw [Parser.lexerWarnings_parse failure, Parser.lexerWarnings_parse closed', whole]
    rfl

/-- The report on both scripts, where only the second is refused. -/
theorem parse_append_line_error {p : Program} (parsed : parse a strict = .ok p) {e : ParseReport}
    (refused : parse b strict = .error e) :
    parse (a ++ "\n" ++ b) strict = .error (e.move (.behind a)) := by
  obtain ⟨_, _, whole⟩ := ofScript_append_line closed quiet b
  cases failure' : (Lexing.ofScript b strict).failure with
  | some d =>
    have fails : (Lexing.ofScript (a ++ "\n" ++ b) strict).failure =
        some (d.move (.behind a)) := by
      rw [whole]
      show (Lexing.ofScript b strict).failure.map _ = _
      rw [failure']
      rfl
    rw [parse, Parser.parse_of_open failure'] at refused
    rw [parse, Parser.parse_of_open fails, ← Except.error.inj refused]
    rfl
  | none =>
    obtain ⟨ss, -, failure, read⟩ := read_append_line closed quiet parsed failure'
    rcases read' : Body.read (Parser.loaded b strict).tokens with ⟨ss', dropped, rest, _ | f⟩
    · obtain ⟨q, succeeds⟩ := Parser.exists_program failure' (by rw [read'])
      rw [parse, succeeds] at refused
      cases refused
    · rw [read'] at read
      rw [parse, Parser.parse_of_failure failure' read'] at refused
      rw [parse, Parser.parse_of_failure failure read, ← Except.error.inj refused,
        ← Failure.report_move]
      cases rest <;> rfl

end Parses

/-- **Scripts compose line by line.**  Nothing is left open in the script `a`.  Then the
tokens of `a`, a line feed and the script `b` are those of `a` without their end mark, the
line feed, and those of `b` behind it; a delimiter that `b` leaves open is reported there.

Let `a` have a program.  If `b` has one, the statements are those of `a` and then those of `b`
behind it; in those of `a` only what ended with `a` may end behind the line feed.  The parser
warns of what it warned of in `a` and then in `b`, and the lexer of what it warned of in `b`.
If `b` is refused, so is the whole, with the report of `b` behind `a`. -/
theorem append_line_composes (a b : String) (strict : Bool)
    (closed : (Lexing.ofScript a strict).failure = none)
    (quiet : (Lexing.ofScript a strict).warnings = []) :
    (∃ ws last, tokenize a strict = .ok (ws ++ [last]) ∧ last.kind = .eof ∧
      tokenize (a ++ "\n" ++ b) strict = match tokenize b strict with
        | .ok ts => .ok (ws ++ feedBehind a :: ts.map (Token.move (.behind a)))
        | .error d => .error (d.move (.behind a))) ∧
      ∀ p, parse a strict = .ok p →
        (∀ q, parse b strict = .ok q → ∃ r ss, parse (a ++ "\n" ++ b) strict = .ok r ∧
          r.body = ss ++ q.body.map (Statement.move (.behind a)) ∧
          ss.map (Statement.move (.retract a.toList.length)) = p.body ∧
          (Parser.ofSource (.text (a ++ "\n" ++ b)) strict).parse.2.warnings =
            (Parser.ofSource (.text a) strict).parse.2.warnings ++
              (Parser.ofSource (.text b) strict).parse.2.warnings.map
                (ParseReport.move (.behind a)) ∧
          (Parser.ofSource (.text (a ++ "\n" ++ b)) strict).parse.2.lexerWarnings =
            (Parser.ofSource (.text b) strict).parse.2.lexerWarnings.map
              (Diagnostic.move (.behind a))) ∧
        ∀ e, parse b strict = .error e →
          parse (a ++ "\n" ++ b) strict = .error (e.move (.behind a)) := by
  obtain ⟨ws, split, whole⟩ := ofScript_append_line closed quiet b
  refine ⟨⟨ws, Token.endMark (Cursor.start.advance a.toList), ?_, rfl, ?_⟩, fun p parsed =>
    ⟨fun q => parse_append_line closed quiet parsed,
      fun e => parse_append_line_error closed quiet parsed⟩⟩
  · rw [tokenize, Lexing.result, closed, ← split]
    rfl
  · simp only [tokenize, Lexing.result, whole, Lexing.behind, Lexing.shift]
    cases failure : (Lexing.ofScript b strict).failure with
    | some d => rfl
    | none => simp [Except.map, Motion.behind]

/-- A redirection that goes up to the end of the first script, then a token that is dropped
and a string that is left open. -/
theorem append_line_composes_open :
    ∃ p q r ss, parse "a | b > f" false = .ok p ∧ parse ") c \"d" false = .ok q ∧
      parse ("a | b > f" ++ "\n" ++ ") c \"d") false = .ok r ∧
      r.body = ss ++ q.body.map (Statement.move (.behind "a | b > f")) ∧
      ss.map (Statement.move (.retract "a | b > f".toList.length)) = p.body := by
  generalize first : "a | b > f" = a
  generalize second : ") c \"d" = b
  have closed : (Lexing.ofScript a false).failure = none := by
    subst first
    decide +kernel
  have quiet : (Lexing.ofScript a false).warnings = [] := by
    subst first
    decide +kernel
  have parses : (parse a false).isOk = true ∧ (parse b false).isOk = true := by
    subst first second
    decide +kernel
  cases parsed : parse a false with
  | error e => simp [parsed, Except.isOk, Except.toBool] at parses
  | ok p =>
    cases parsed' : parse b false with
    | error e => simp [parsed', Except.isOk, Except.toBool] at parses
    | ok q =>
      obtain ⟨r, ss, whole, body, same, -⟩ :=
        ((append_line_composes a b false closed quiet).2 p parsed).1 q parsed'
      exact ⟨p, q, r, ss, rfl, rfl, whole, body, same⟩

end ShellScript
