/-
# ShellScript.Proofs.FirstError -- an error stands at the first token that is wrong

The top level finishes a front of its script and breaks off in the statement behind it
(`Body.exists_broken`).  The front, the tokens of the broken statement and the token at
which it breaks decide that, and with what failure; nothing behind them is looked at
(`Body.read_broken`).  And the tokens in front of that token are no error yet: there is a
text with which they go on to a script (`exists_tail`).

So the error is found as early as any parser could find it (`first_error`).
-/
import ShellScript.Proofs.Completion
import ShellScript.Proofs.Lexing.Reread
import ShellScript.Proofs.Parse.Breakdown
import ShellScript.Proofs.Parse.Front
import ShellScript.Proofs.Parse.Script

namespace ShellScript

set_option autoImplicit false

open Grammar Parse

/-! ## Where the top level breaks off -/

/-- A round fails with the statement it tries. -/
theorem item_of_error {t : Token} {ts rest : List Token} {e : Failure} (solid : t.kind ≠ .newline)
    (fails : Parse.statement (t :: ts) = .error e rest) : item (t :: ts) = .error e rest := by
  rw [item_cons solid]
  exact bind_of_error fails _

namespace Body

variable {ts : List Token} {e : Failure}

/-- The front that the top level finishes, and the statement that breaks behind it. -/
theorem exists_broken (complete : Complete ts) (fails : (read ts).failure = some e) :
    ∃ front ws t others b, ts = front ++ (ws ++ t :: others) ∧
      IsFront (Within nestingLimit) (follow ws t) front b ∧ Broken nestingLimit t ws e ∧
      read ts = after b (stop (t :: others) (some e)) := by
  obtain ⟨front, next, behind, b, rfl, isFront, ⟨-, -, done⟩ | ⟨f, rest, refused, done⟩⟩ :=
    exists_front ts complete
  · rw [done] at fails
    cases fails
  rw [done] at fails
  obtain rfl : f = e := Option.some.inj fails
  have whole := complete.of_append (List.cons_ne_nil next behind)
  obtain ⟨ws, t, others, split, rfl, broken⟩ := (fails_statement _ whole f rest).1 refused
  rw [← follow_eq_of_split split] at isFront
  exact ⟨front, ws, t, others, b, by rw [split], isFront, broken, done⟩

/-- Behind a front, where a statement breaks, the top level breaks off. -/
theorem read_broken {front ws others : List Token} {t : Token} {b : List Statement × List Token}
    (isFront : IsFront (Within nestingLimit) (follow ws t) front b)
    (broken : Broken nestingLimit t ws e)
    (complete : Complete (front ++ (ws ++ t :: others))) :
    read (front ++ (ws ++ t :: others)) = after b (stop (t :: others) (some e)) := by
  have starts := opensBroken_broken nestingLimit t ws e broken
  obtain ⟨behind, split⟩ := append_cons_eq_follow ws t others
  have refused := (fails_statement _ (complete.of_append (by simp)) e _).2
    ⟨ws, t, others, rfl, rfl, broken⟩
  rw [split] at complete refused ⊢
  have round := item_of_error (Kind.ne_of_opensStatement starts rfl) refused
  rw [read_front isFront complete, read_of_error (Kind.ne_of_opensStatement starts rfl) round]

/-- **What stands behind the token of a failure has no part in it.** -/
theorem read_of_read {us others others' dropped : List Token} {t : Token} {ss : List Statement}
    (complete : Complete (us ++ t :: others)) (complete' : Complete (us ++ t :: others'))
    (fails : read (us ++ t :: others) = ⟨ss, dropped, t :: others, some e⟩) :
    read (us ++ t :: others') = ⟨ss, dropped, t :: others', some e⟩ := by
  obtain ⟨front, ws, u, behind, b, split, isFront, broken, done⟩ :=
    exists_broken complete (by rw [fails])
  rw [fails] at done
  injection done with statements skipped rest
  obtain ⟨rfl, rfl⟩ := List.cons.inj rest
  rw [← List.append_assoc] at split
  obtain rfl := List.append_cancel_right split
  rw [List.append_assoc] at complete' ⊢
  rw [read_broken isFront broken complete', statements, skipped]
  rfl

end Body

/-! ## Tokens that look the same -/

/-- **The tokens up to a failure decide it**, wherever they stand. -/
theorem Body.exists_read_of_alike {us vs others others' dropped : List Token} {t u : Token}
    {ss : List Statement} {e : Failure} (complete : Complete (us ++ t :: others))
    (complete' : Complete (vs ++ u :: others'))
    (alike : (us ++ [t]).map (Token.move .erase) = (vs ++ [u]).map (Token.move .erase))
    (fails : read (us ++ t :: others) = ⟨ss, dropped, t :: others, some e⟩) :
    ∃ ss' dropped' f, read (vs ++ u :: others') = ⟨ss', dropped', u :: others', some f⟩ ∧
      f.move .erase = e.move .erase := by
  have moved (ws ts : List Token) (v : Token) : (ws ++ v :: ts).map (Token.move .erase) =
      (ws ++ [v]).map (Token.move .erase) ++ ts.map (Token.move .erase) := by simp
  have here := read_move (m := .erase) (us ++ t :: others)
  have there := read_move (m := .erase) (vs ++ u :: others')
  have whole := complete_move (m := .erase) |>.2 complete
  have whole' := complete_move (m := .erase) |>.2 complete'
  rw [fails] at here
  rw [moved] at there whole'
  rw [← alike] at there whole'
  simp only [List.map_append, List.map_cons, List.map_nil, List.append_assoc, List.cons_append,
    List.nil_append] at here there whole whole'
  rw [read_of_read whole whole' here] at there
  rcases result : read (vs ++ u :: others') with ⟨ss', dropped', rest, failure⟩
  rw [result] at there
  injection there with _ _ rest_eq failure_eq
  obtain ⟨f, rfl, same⟩ := Option.map_eq_some_iff.1 failure_eq.symm
  obtain ⟨ws, v, behind, split, left, -⟩ := refuses_of_read complete' (by rw [result])
  rw [result] at left
  subst left
  have length := congrArg List.length rest_eq
  simp only [List.length_cons, List.length_map] at length
  obtain ⟨-, same_rest⟩ := List.append_inj' split (by simpa using length)
  rw [same_rest]
  exact ⟨ss', dropped', f, rfl, same⟩

/-! ## What is in front of an error goes on to a script -/

/-- What fillers are written with may stand behind the tokens that they complete. -/
theorem clear_fillers {fs : List Filler} {ws : List Token}
    (starts : fs.head? = some .newline ∨ OpenLine ws) :
    ∃ d ds, fs.flatMap Filler.written ++ ['\n'] = d :: ds ∧ Lexing.Clear ws d := by
  rcases fs with _ | ⟨f, fs⟩
  · exact ⟨'\n', [], rfl, Or.inl rfl⟩
  cases f with
  | newline => exact ⟨'\n', _, rfl, Or.inl rfl⟩
  | _ =>
    refine ⟨' ', _, rfl, Or.inr ⟨rfl, starts.resolve_left ?_⟩⟩
    rintro ⟨⟩

/-- The top level reads a script that ends in a statement on a line of its own. -/
theorem Body.read_of_ready {front ws : List Token} {feed last t : Token}
    {b : List Statement × List Token} {s : Statement}
    (isFront : IsFront (Within nestingLimit) (follow ws t) front b) (some_token : ws ≠ [])
    (statement : Within nestingLimit feed ws s) (kind : feed.kind = .newline)
    (last_kind : last.kind = .eof) (complete : Complete (front ++ (ws ++ [feed, last]))) :
    (read (front ++ (ws ++ [feed, last]))).failure = none := by
  obtain ⟨w, ws, rfl⟩ := List.exists_cons_of_ne_nil some_token
  have whole : Complete (w :: ws ++ [feed, last]) := complete.of_append (by simp)
  have body : IsBody (Within nestingLimit) last (w :: ws ++ ([feed] ++ [])) (s :: [], []) :=
    .round (.statement statement) (.taken (Or.inr kind)) (.stop last_kind)
  have ends := (read_eq_iff whole).2 ⟨w :: ws ++ [feed], last, by simp, rfl, by simpa using body⟩
  have through : read (front ++ (w :: ws ++ [feed, last])) =
      after b (read (w :: ws ++ [feed, last])) := read_front isFront complete
  rw [through, ends]
  rfl

/-- A line feed at the end of a text is its last token. -/
theorem tokens_line_feed (here : Cursor) : ∃ feed last, feed.kind = .newline ∧
    last.kind = .eof ∧ (Lexing.run false here ['\n']).tokens = [feed, last] := by
  refine ⟨(Lexeme.read '\n' []).token here, .endMark (here.step '\n'), rfl, rfl, ?_⟩
  rw [Lexing.tokens_run_lexeme rfl, show (Lexeme.read '\n' []).rest = [] from rfl, Lexing.run_nil]
  rfl

/-- **The text in front of a token may be completed.**  Where the fillers may stand, its tokens
are as they were, and the fillers and a line feed come behind them. -/
theorem exists_filled {source : String} (quiet : (Lexing.ofScript source false).warnings = [])
    {us others : List Token} {t : Token}
    (tokens : (Lexing.ofScript source false).tokens = us ++ t :: others) {fs : List Filler}
    (starts : fs.head? = some .newline ∨ OpenLine us) :
    ∃ tail vs feed last, List.Forall₂ Filler.Stands fs vs ∧ feed.kind = .newline ∧
      last.kind = .eof ∧
      (Lexing.ofScript (String.ofList (source.toList.take t.start) ++ tail) false).tokens =
        us ++ (vs ++ [feed, last]) := by
  obtain ⟨xs, ys, text, -, start, goes_on⟩ := Lexing.run_cut .start source.toList quiet tokens
  have cut : source.toList.take t.start = xs := by
    rw [start, text, Cursor.offset_advance]
    simp [Cursor.start]
  obtain ⟨d, ds, written, clear⟩ := clear_fillers starts
  obtain ⟨vs, stop, stand, filled, -⟩ := Filler.lexes_all fs (Cursor.start.advance xs) ['\n']
    ⟨'\n', [], rfl, Or.inr (Or.inl rfl)⟩
  obtain ⟨feed, last, kind, last_kind, ends⟩ := tokens_line_feed stop
  refine ⟨String.ofList (d :: ds), vs, feed, last, stand, kind, last_kind, ?_⟩
  rw [cut, Lexing.ofScript, String.toList_append, String.toList_ofList, String.toList_ofList,
    (goes_on d clear ds).1, ← written, filled, ends]

/-- **The text in front of an error goes on to a script.** -/
theorem exists_tail {source : String} (quiet : (Lexing.ofScript source false).warnings = [])
    {us others : List Token} {t : Token}
    (tokens : (Lexing.ofScript source false).tokens = us ++ t :: others) {e : SyntaxError}
    {ss : List Statement} {dropped : List Token}
    (fails : Body.read (us ++ t :: others) = ⟨ss, dropped, t :: others, some (.malformed e)⟩) :
    ∃ tail p, parse (String.ofList (source.toList.take t.start) ++ tail) false = .ok p := by
  have complete : Complete (us ++ t :: others) := tokens ▸ Lexing.complete_run _ _
  obtain ⟨front, ws, u, behind, b, split, isFront, broken, done⟩ :=
    Body.exists_broken complete (by rw [fails])
  rw [fails] at done
  injection done with _ _ rest
  obtain ⟨rfl, rfl⟩ := List.cons.inj rest
  rw [← List.append_assoc] at split
  obtain rfl := List.append_cancel_right split
  obtain ⟨some_token, fs, starts, completes⟩ := completes_broken nestingLimit t ws e broken
  have line : fs.head? = some .newline ∨ OpenLine (front ++ ws) := by
    refine starts.imp_right fun plain v last => plain v ?_
    rw [List.getLast?_append_of_ne_nil _ some_token] at last
    exact last
  obtain ⟨tail, vs, feed, last, stand, kind, last_kind, filled⟩ := exists_filled quiet tokens line
  obtain ⟨s, statement⟩ := completes vs stand feed kind
  -- the fillers finish the statement that was broken, and the front is the one it was
  have loaded : (Parser.loaded (String.ofList (source.toList.take t.start) ++ tail) false).tokens =
      front ++ ((ws ++ vs) ++ [feed, last]) := filled.trans (by simp)
  have closed := Lexing.failure_run_lenient .start
    (String.ofList (source.toList.take t.start) ++ tail).toList
  have whole := Parser.complete_loaded closed
  rw [← follow_append_of_ne_nil some_token vs t t] at isFront
  rw [loaded] at whole
  have succeeds := Body.read_of_ready isFront (List.append_ne_nil_of_left_ne_nil some_token vs)
    statement kind last_kind whole
  exact ⟨tail, Parser.exists_program closed (by rw [loaded]; exact succeeds)⟩

/-! ## The report -/

/-- Errors that differ in places only are reported alike. -/
theorem SyntaxError.report_eq_of_move {e f : SyntaxError} (same : f.move .erase = e.move .erase) :
    f.report = ⟨{ e.report.diagnostic with position := f.found.position }, some f.found⟩ := by
  have reports := congrArg SyntaxError.report same
  rw [report_move, report_move] at reports
  injection reports with diagnostics
  injection diagnostics with message _ severity code helpText suggestions
  simp only [report] at message code helpText suggestions ⊢
  rw [message, code, helpText, suggestions]

section Reports

variable {source : String} {e : SyntaxError} {us others dropped : List Token} {ss : List Statement}

/-- A script that is refused with the code of a syntax error has one, at one of its tokens. -/
theorem exists_error {r : ParseReport} (refused : parse source false = .error r)
    (code : r.diagnostic.code ∈ [some "P001", some "P002", some "P005", some "P010"]) :
    ∃ us e others ss dropped, (Lexing.ofScript source false).tokens = us ++ e.found :: others ∧
      Body.read (us ++ e.found :: others) =
        ⟨ss, dropped, e.found :: others, some (.malformed e)⟩ ∧ r = e.report := by
  have closed : (Lexing.ofScript source false).failure = none := Lexing.failure_run_lenient _ _
  have complete : Complete (Parser.loaded source false).tokens := Parser.complete_loaded closed
  rcases read : Body.read (Parser.loaded source false).tokens with ⟨ss, dropped, rest, _ | f⟩
  · obtain ⟨p, parses⟩ := Parser.exists_program closed (by rw [read])
    rw [parse, parses] at refused
    cases refused
  obtain ⟨us, t, others, tokens, left, refuses⟩ := refuses_of_read complete (e := f) (by rw [read])
  rw [read] at left
  subst left
  rw [parse, Parser.parse_of_failure closed read] at refused
  obtain rfl := Except.error.inj refused
  cases refuses with
  | tooDeep => simp [Failure.report, ParseReport.tooDeep] at code
  | @malformed e => exact ⟨us, e, others, ss, dropped, tokens, tokens ▸ read, rfl⟩

/-- Tokens that look the same up to one are tokens up to another, behind as many. -/
theorem exists_of_alike {ts : List Token} {t : Token}
    (alike : (ts.take (us.length + 1)).map Token.look = (us ++ [t]).map Token.look) :
    ∃ vs u others, ts = vs ++ u :: others ∧ vs.length = us.length ∧
      (us ++ [t]).map Token.look = (vs ++ [u]).map Token.look := by
  obtain ⟨vs, _, front, left, right⟩ := List.map_eq_append_iff.1 (alike.trans List.map_append)
  obtain ⟨u, rfl, -⟩ := List.map_eq_singleton_iff.1 right
  refine ⟨vs, u, ts.drop (us.length + 1), ?_, by simpa using congrArg List.length left, ?_⟩
  · rw [List.append_cons, ← front, List.take_append_drop]
  · rw [← front, alike]

/-- The tokens of a script up to some token have places. -/
theorem placed_of_split {t : Token}
    (tokens : (Lexing.ofScript source false).tokens = us ++ t :: others) :
    ∀ u ∈ us ++ [t], u.position.isSome = true := by
  intro u member
  refine isSome_position source u ?_
  rw [tokens, List.append_cons]
  exact List.mem_append_left others member

/-- A script whose tokens look the same up to the error has this error, too. -/
theorem parse_of_alike (tokens : (Lexing.ofScript source false).tokens = us ++ e.found :: others)
    (fails : Body.read (us ++ e.found :: others) =
      ⟨ss, dropped, e.found :: others, some (.malformed e)⟩)
    {other : String} (alike : ((Lexing.ofScript other false).tokens.take (us.length + 1)).map
      Token.look = (us ++ [e.found]).map Token.look) :
    ∃ u, (Lexing.ofScript other false).tokens[us.length]? = some u ∧
      parse other false = .error ⟨{ e.report.diagnostic with position := u.position }, some u⟩ := by
  have closed : (Lexing.ofScript other false).failure = none := Lexing.failure_run_lenient _ _
  obtain ⟨vs, u, others', split, length, same_look⟩ := exists_of_alike alike
  have erased := move_erase_eq (placed_of_split tokens) (placed_of_split split) same_look
  have complete : Complete (us ++ e.found :: others) := tokens ▸ Lexing.complete_run _ _
  have complete' : Complete (vs ++ u :: others') := split ▸ Lexing.complete_run _ _
  obtain ⟨ss', dropped', f, read, same⟩ := Body.exists_read_of_alike complete complete' erased fails
  have loaded : (Parser.loaded other false).tokens = vs ++ u :: others' := split
  refine ⟨u, by rw [split, ← length]; simp, ?_⟩
  rw [parse, Parser.parse_of_failure closed (loaded ▸ read)]
  cases f with
  | malformed f =>
    -- the report of a syntax error names the token that it was found at
    obtain ⟨_, v, _, _, rest, refuses⟩ := refuses_of_read complete' (by rw [read])
    rw [read] at rest
    obtain rfl := (List.cons.inj rest).1
    cases refuses
    injection same with same
    exact congrArg Except.error (SyntaxError.report_eq_of_move same)
  | tooDeep => cases same
  | fault => cases same

end Reports

/-- **A syntax error is reported at the first token that is wrong.**  The lexer warns of
nothing, and the script is refused for an unexpected token, a missing one or a missing
expression, be it at its end.  Then the error stands at some token of the script.

The text in front of that token goes on to a script that is accepted; so there is no error in
it.  And this text with the token decides the error: whatever other script has tokens that look
the same up to there is refused at its token in that place, with the same report. -/
theorem first_error (source : String) (quiet : (Lexing.ofScript source false).warnings = [])
    {r : ParseReport} (refused : parse source false = .error r)
    (code : r.diagnostic.code ∈ [some "P001", some "P002", some "P005", some "P010"]) :
    ∃ tokens k t, tokenize source false = .ok tokens ∧ tokens[k]? = some t ∧ r.token = some t ∧
      r.diagnostic.position = t.position ∧
      (∃ tail p, parse (String.ofList (source.toList.take t.start) ++ tail) false = .ok p) ∧
      ∀ other tokens', tokenize other false = .ok tokens' →
        (tokens'.take (k + 1)).map Token.look = (tokens.take (k + 1)).map Token.look →
        ∃ u, tokens'[k]? = some u ∧
          parse other false = .error ⟨{ r.diagnostic with position := u.position }, some u⟩ := by
  have tokenized (s : String) : tokenize s false = .ok (Lexing.ofScript s false).tokens := by
    rw [tokenize, Lexing.result, Lexing.ofScript, Lexing.failure_run_lenient]
    rfl
  obtain ⟨us, e, others, ss, dropped, tokens, fails, rfl⟩ := exists_error refused code
  refine ⟨_, us.length, e.found, tokenized source, by simp [tokens], rfl, rfl,
    exists_tail quiet tokens fails, fun other tokens' found alike => ?_⟩
  obtain rfl := Except.ok.inj ((tokenized other).symm.trans found)
  have front : (Lexing.ofScript source false).tokens.take (us.length + 1) = us ++ [e.found] := by
    rw [tokens, List.append_cons, List.take_left' (by simp)]
  rw [front] at alike
  exact parse_of_alike tokens fails alike

/-- A loop is closed inside a conditional. -/
theorem first_error_closer : ∃ (r : ParseReport) (tokens : List Token) (k : Nat) (t : Token),
    parse "if a; then b\ndone |" false = .error r ∧
    r.diagnostic.message = "Expected 'fi'" ∧ tokenize "if a; then b\ndone |" false = .ok tokens ∧
    tokens[k]? = some t ∧ r.token = some t ∧ t.text = "done" ∧
    ∃ tail p, parse (String.ofList ("if a; then b\ndone |".toList.take t.start) ++ tail) false =
      .ok p := by
  generalize script : "if a; then b\ndone |" = source
  have quiet : (Lexing.ofScript source false).warnings = [] := by
    subst script
    decide +kernel
  have fails : ((parse source false).casesOn (fun r => decide (r.diagnostic.code = some "P002" ∧
      r.diagnostic.message = "Expected 'fi'" ∧ r.token.map Token.text = some "done"))
      fun _ => false) = true := by
    subst script
    decide +kernel
  cases refused : parse source false with
  | ok p => simp [refused] at fails
  | error r =>
    simp only [refused, decide_eq_true_eq] at fails
    obtain ⟨code, message, text⟩ := fails
    obtain ⟨tokens, k, t, tokenized, inside, token, -, viable, -⟩ :=
      first_error source quiet refused (by simp [code])
    rw [token] at text
    exact ⟨r, tokens, k, t, rfl, message, tokenized, inside, token, Option.some.inj text, viable⟩

end ShellScript
