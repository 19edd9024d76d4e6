/-
# ShellScript.Proofs.Parse.Script -- the parse of a whole script

The tokens of a script are a complete list (`complete_run`), and a comment among
them ends its line (`isChain_run`).  So what the parsers read in front of complete
lists is what they read of a script: `parse_ok_iff` says which program a script
has and which tokens the top level drops on the way.
-/
import ShellScript.Parser
import ShellScript.Proofs.Lexing.Lossless
import ShellScript.Proofs.Parse.Program

namespace ShellScript

set_option autoImplicit false

open Grammar Parse

/-! ## The tokens of a script -/

namespace Lexing

theorem complete_run (here : Cursor) (cs : List Char) : Complete (run false here cs).tokens := by
  induction here, cs using run_induction with
  | stop here =>
    rw [run_nil]
    rfl
  | blank here c cs blank ih =>
    rw [run_blank false blank]
    exact ih
  | lexeme here c cs solid ih =>
    rw [tokens_run_lexeme solid, complete_cons]
    · exact ⟨Lexeme.kind_read_ne_eof c cs, ih⟩
    · intro empty
      rw [empty] at ih
      exact ih

/-- Only the last token of a script is an end mark. -/
theorem inner_ofScript {source : String} {ws : List Token} {last : Token}
    (tokens : (ofScript source false).tokens = ws ++ [last]) : ∀ t ∈ ws, t.kind ≠ .eof := by
  have complete := complete_run .start source.toList
  rw [ofScript] at tokens
  rw [tokens] at complete
  exact complete.inner

/-- A comment runs to a line feed or to the end mark. -/
theorem isChain_run (here : Cursor) (cs : List Char) :
    (run false here cs).tokens.IsChain CommentEndsLine := by
  induction here, cs using run_induction with
  | stop here =>
    rw [run_nil]
    exact List.isChain_singleton _
  | blank here c cs blank ih =>
    rw [run_blank false blank]
    exact ih
  | lexeme here c cs solid ih =>
    rw [tokens_run_lexeme solid]
    refine List.isChain_cons.2 ⟨fun u next kind => ?_, ih⟩
    rw [(Lexeme.comment_of_kind kind).2] at next
    cases left : cs.dropWhile (· != '\n') with
    | nil =>
      simp only [Lexeme.comment, left, run_nil, List.head?_cons, Option.mem_some_iff] at next
      exact Or.inr (next ▸ rfl)
    | cons d ds =>
      have feed : d = '\n' := by
        have := List.head?_dropWhile_not (· != '\n') cs
        simpa [left] using this
      subst feed
      simp only [Lexeme.comment, left, tokens_run_lexeme (c := '\n') rfl, List.head?_cons,
        Option.mem_some_iff] at next
      exact Or.inl (next ▸ rfl)

end Lexing

/-! ## The parse of a script -/

namespace Parser

variable {source : String} {strict : Bool}

/-- A parser that has moved to the end of its window sees what is left of it. -/
theorem window_moveTo {p : Parser} (atStart : p.cursor = 0) {ws rest : List Token}
    (split : p.tokens = ws ++ rest) : (p.moveTo rest).window = rest := by
  have window : p.window = ws ++ rest := by
    simp [Parser.window, atStart, split]
  simp only [Parser.window, Parser.moveTo, atStart, split] at window ⊢
  simp

theorem parse_of_open {d : Diagnostic} (fails : (Lexing.ofScript source strict).failure = some d) :
    (ofSource (.text source) strict).parse =
      (.error (.ofLexing d), ofSource (.text source) strict) := by
  simp [parse, ofSource, Source.script, Lexing.result, fails]

/-- The parser that holds the tokens of a script and stands at the first of them. -/
def loaded (source : String) (strict : Bool) : Parser where
  source := .text source
  strict := strict
  tokens := (Lexing.ofScript source strict).tokens
  cursor := 0
  skipped := []
  lexerWarnings := (Lexing.ofScript source strict).warnings

theorem parse_of_closed (closed : (Lexing.ofScript source strict).failure = none) :
    (ofSource (.text source) strict).parse =
      match (loaded source strict).parseTokens with
      | (.ok program, p) => (.ok program, p)
      | (.error e, p) => (.error (e.report (p.window.head?.bind Token.position)), p) := by
  have result : (Lexing.ofScript source strict).result =
      .ok ((Lexing.ofScript source strict).tokens, (Lexing.ofScript source strict).warnings) := by
    rw [Lexing.result, closed]
  simp only [parse, ofSource, Source.script, result]
  rfl

theorem lexerWarnings_step {α : Type} (p : Parser) (piece : Parse α) :
    (p.step piece).2.lexerWarnings = p.lexerWarnings := by
  unfold step
  split <;> rfl

/-- Parsing leaves the warnings of the lexer as they are. -/
theorem lexerWarnings_parse (closed : (Lexing.ofScript source strict).failure = none) :
    (ofSource (.text source) strict).parse.2.lexerWarnings =
      (Lexing.ofScript source strict).warnings := by
  have tokens (p : Parser) : p.parseTokens.2.lexerWarnings = p.lexerWarnings := by
    have body : p.stepBody.2.lexerWarnings = p.lexerWarnings := rfl
    unfold parseTokens
    split
    · next eq => rw [← body, eq]
    · next eq => rw [lexerWarnings_step, ← body, eq]
  have loaded := tokens (loaded source strict)
  rw [parse_of_closed closed]
  split
  · next eq => rw [eq] at loaded; exact loaded
  · next eq => rw [eq] at loaded; exact loaded

theorem tokens_step {α : Type} (p : Parser) (piece : Parse α) :
    (p.step piece).2.tokens = p.tokens ∧ (p.step piece).2.skipped = p.skipped := by
  unfold step
  split <;> exact ⟨rfl, rfl⟩

/-- A parser that is done holds the tokens of the script, and those that the top level has
dropped. -/
theorem tokens_parse (closed : (Lexing.ofScript source strict).failure = none) :
    (ofSource (.text source) strict).parse.2.tokens = (Lexing.ofScript source strict).tokens ∧
      (ofSource (.text source) strict).parse.2.skipped =
        (Body.read (Lexing.ofScript source strict).tokens).skipped := by
  have body : (loaded source strict).stepBody.2.tokens =
        (Lexing.ofScript source strict).tokens ∧
      (loaded source strict).stepBody.2.skipped =
        (Body.read (Lexing.ofScript source strict).tokens).skipped := by
    simp [stepBody, moveTo, window, loaded]
  have tokens : (loaded source strict).parseTokens.2.tokens =
        (Lexing.ofScript source strict).tokens ∧
      (loaded source strict).parseTokens.2.skipped =
        (Body.read (Lexing.ofScript source strict).tokens).skipped := by
    unfold parseTokens
    split
    · next eq => rw [eq] at body; exact body
    · next eq =>
      rw [eq] at body
      rw [(tokens_step _ _).1, (tokens_step _ _).2]
      exact body
  rw [parse_of_closed closed]
  split
  · next eq => rw [eq] at tokens; exact tokens
  · next eq => rw [eq] at tokens; exact tokens

theorem complete_loaded (closed : (Lexing.ofScript source strict).failure = none) :
    Complete (loaded source strict).tokens := by
  show Complete (Lexing.ofScript source strict).tokens
  unfold Lexing.ofScript at closed ⊢
  rw [Lexing.run_eq_lenient_of_success strict _ _ closed]
  exact Lexing.complete_run _ _

/-- A text that has tokens leaves nothing open. -/
theorem closed_of_tokenize {ts : List Token} (lexed : tokenize source strict = .ok ts) :
    (Lexing.ofScript source strict).failure = none ∧
      (Lexing.ofScript source strict).tokens = ts := by
  rw [tokenize, Lexing.result] at lexed
  cases closed : (Lexing.ofScript source strict).failure with
  | some d =>
    rw [closed] at lexed
    cases lexed
  | none =>
    rw [closed] at lexed
    exact ⟨rfl, Except.ok.inj lexed⟩

/-- The tokens of a text are complete. -/
theorem complete_of_tokenize {ts : List Token} (lexed : tokenize source strict = .ok ts) :
    Complete ts := by
  obtain ⟨closed, rfl⟩ := closed_of_tokenize lexed
  exact complete_loaded closed

theorem window_loaded : (loaded source strict).window = (loaded source strict).tokens := by
  simp [Parser.window, loaded]

/-- Where the top level fails, the parser stays at the token left in front. -/
theorem parseTokens_of_failure {e : Failure} {dropped ws rest : List Token} {ss : List Statement}
    (split : (loaded source strict).tokens = ws ++ rest)
    (read : Body.read (loaded source strict).tokens = ⟨ss, dropped, rest, some e⟩) :
    (loaded source strict).parseTokens.1 = .error e ∧
      (loaded source strict).parseTokens.2.window = rest := by
  let done : Parser := { (loaded source strict).moveTo rest with skipped := dropped }
  have moved : done.window = rest := window_moveTo (p := loaded source strict) rfl split
  have result : (loaded source strict).parseTokens = (.error e, done) := by
    simp only [parseTokens, stepBody, window_loaded, read, Body.result]
    rfl
  rw [result]
  exact ⟨rfl, moved⟩

/-- The program of a script spans all its tokens. -/
theorem parseTokens_of_read {ws : List Token} {last : Token} {ss : List Statement}
    {dropped : List Token} (split : (loaded source strict).tokens = ws ++ [last])
    (read : Body.read (loaded source strict).tokens = ⟨ss, dropped, [last], none⟩) :
    ((loaded source strict).parseTokens).1 =
        .ok ⟨ss, Span.reach? (follow ws last).position last.position⟩ ∧
      ((loaded source strict).parseTokens).2.skipped = dropped := by
  let done : Parser := { (loaded source strict).moveTo [last] with skipped := dropped }
  have moved : done.window = [last] := window_moveTo (p := loaded source strict) rfl split
  obtain ⟨others, head⟩ := append_cons_eq_follow ws last []
  have body : (loaded source strict).stepBody = (.ok ss, done) := by
    simp only [stepBody, window_loaded, read, Body.result]
    rfl
  have whole : done.step (program ss (loaded source strict).tokens) =
      (.ok ⟨ss, Span.reach? (follow ws last).position last.position⟩, done.moveTo [last]) := by
    rw [step, moved, split, head]
    rfl
  have result : (loaded source strict).parseTokens =
      (.ok ⟨ss, Span.reach? (follow ws last).position last.position⟩, done.moveTo [last]) := by
    rw [parseTokens, body]
    exact whole
  rw [result]
  exact ⟨rfl, rfl⟩

/-- The program of a script and the tokens dropped on the way, where it has one. -/
theorem parse_ok_iff {p : Program} {dropped : List Token} :
    ((ofSource (.text source) strict).parse.1 = .ok p ∧
        (ofSource (.text source) strict).parse.2.skipped = dropped) ↔
      (Lexing.ofScript source strict).failure = none ∧ ∃ ws last,
        (Lexing.ofScript source strict).tokens = ws ++ [last] ∧
        IsBody (Within nestingLimit) last ws (p.body, dropped) ∧
        p.position = Span.reach? (follow ws last).position last.position := by
  cases closed : (Lexing.ofScript source strict).failure with
  | some d => simp [parse_of_open closed]
  | none =>
    have complete := complete_loaded closed
    have same : (loaded source strict).tokens = (Lexing.ofScript source strict).tokens := rfl
    rw [parse_of_closed closed]
    rcases read : Body.read (loaded source strict).tokens with ⟨ss, dropped', rest, _ | e⟩
    · obtain ⟨ws, last, split, rfl, body⟩ := (read_eq_iff complete).1 read
      obtain ⟨result, skipped⟩ := parseTokens_of_read split read
      rcases whole : (loaded source strict).parseTokens with ⟨r, q⟩
      rw [whole] at result skipped
      subst result skipped
      constructor
      · rintro ⟨⟨⟩, rfl⟩
        exact ⟨rfl, ws, last, split, body, rfl⟩
      · rintro ⟨-, ws', last', split', body', position⟩
        have again := (read_eq_iff complete).2 ⟨ws', last', split', rfl, body'⟩
        rw [read] at again
        injection again with statements skipped left
        obtain rfl := (List.cons.inj left).1
        rw [← same, split] at split'
        obtain rfl := List.append_cancel_right split'
        obtain ⟨body, _⟩ := p
        subst statements position
        exact ⟨rfl, skipped⟩
    · have fails : (Body.read (loaded source strict).tokens).failure = some e := by rw [read]
      obtain ⟨ws, t, others, split, left, -⟩ := refuses_of_read complete fails
      rw [read] at left
      subst left
      have error := (parseTokens_of_failure split read).1
      rcases whole : (loaded source strict).parseTokens with ⟨r, q⟩
      rw [whole] at error
      subst error
      constructor
      · rintro ⟨⟨⟩, -⟩
      · rintro ⟨-, ws, last, split, body, -⟩
        have again := (read_eq_iff complete).2 ⟨ws, last, split, rfl, body⟩
        rw [read] at again
        injection again with _ _ _ none_eq
        cases none_eq

/-- A script has a program where its tokens can be had and the top level does not fail. -/
theorem exists_program (closed : (Lexing.ofScript source strict).failure = none)
    (succeeds : (Body.read (loaded source strict).tokens).failure = none) :
    ∃ p, (ofSource (.text source) strict).parse.1 = .ok p := by
  rcases read : Body.read (loaded source strict).tokens with ⟨ss, dropped, rest, failure⟩
  rw [read] at succeeds
  subst succeeds
  obtain ⟨ws, last, split, rfl, body⟩ := (read_eq_iff (complete_loaded closed)).1 read
  let p : Program := ⟨ss, Span.reach? (follow ws last).position last.position⟩
  exact ⟨p, ((parse_ok_iff (p := p)).2 ⟨closed, ws, last, split, body, rfl⟩).1⟩

/-- The parse of a script whose top level does not fail. -/
theorem parse_of_read (closed : (Lexing.ofScript source strict).failure = none) {ws : List Token}
    {last : Token} {ss : List Statement} {dropped : List Token}
    (split : (loaded source strict).tokens = ws ++ [last])
    (read : Body.read (loaded source strict).tokens = ⟨ss, dropped, [last], none⟩) :
    (ofSource (.text source) strict).parse.1 =
        .ok ⟨ss, Span.reach? (follow ws last).position last.position⟩ ∧
      (ofSource (.text source) strict).parse.2.skipped = dropped := by
  obtain ⟨result, skipped⟩ := parseTokens_of_read split read
  rw [parse_of_closed closed]
  rcases whole : (loaded source strict).parseTokens with ⟨r, q⟩
  rw [whole] at result skipped
  subst result skipped
  exact ⟨rfl, rfl⟩

/-- The parse of a script whose top level fails. -/
theorem parse_of_failure (closed : (Lexing.ofScript source strict).failure = none) {e : Failure}
    {ss : List Statement} {dropped rest : List Token}
    (read : Body.read (loaded source strict).tokens = ⟨ss, dropped, rest, some e⟩) :
    (ofSource (.text source) strict).parse.1 =
      .error (e.report (rest.head?.bind Token.position)) := by
  have fails : (Body.read (loaded source strict).tokens).failure = some e := by rw [read]
  obtain ⟨ws, t, others, split, left, -⟩ := refuses_of_read (complete_loaded closed) fails
  rw [read] at left
  subst left
  obtain ⟨error, window⟩ := parseTokens_of_failure split read
  rw [parse_of_closed closed]
  rcases whole : (loaded source strict).parseTokens with ⟨r, q⟩
  rw [whole] at error window
  subst error
  show Except.error (e.report (q.window.head?.bind Token.position)) = _
  rw [window]

/-- The report of a script whose tokens can be had but that is refused: it is refused at
one of its tokens, and what has no place of its own is reported there. -/
theorem parse_of_refused (closed : (Lexing.ofScript source strict).failure = none) {e : Failure}
    (fails : (Body.read (loaded source strict).tokens).failure = some e) :
    ∃ ws t others, (Lexing.ofScript source strict).tokens = ws ++ t :: others ∧ Refuses e t ∧
      (ofSource (.text source) strict).parse.1 = .error (e.report t.position) := by
  obtain ⟨ws, t, others, split, left, refuses⟩ := refuses_of_read (complete_loaded closed) fails
  refine ⟨ws, t, others, split, refuses, ?_⟩
  rcases read : Body.read (loaded source strict).tokens with ⟨ss, dropped, rest, failure⟩
  rw [read] at fails left
  subst fails left
  exact parse_of_failure closed read

end Parser

end ShellScript
