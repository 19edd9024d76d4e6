/-
# ShellScript.Proofs.Session -- a parser never loses its cursor

A session is any number of requests to one parser, in any order; each starts where the one
before it stopped, also if that one failed.  Whatever is asked, the parser keeps its tokens,
and its cursor goes forward and stays among them (`Ready`): a request leaves the end of the
tokens it was given (`Parse.Orderly`).

A request that fails blames the token then under the cursor (`Blames`): a piece fails before
it takes the token it cannot have.
-/
import ShellScript.Parser
import ShellScript.Proofs.Lexing.Basic
import ShellScript.Proofs.Parse.Orderly
import ShellScript.Proofs.Parse.Script

namespace ShellScript.Parser

set_option autoImplicit false

open Parse Grammar

/-! ## Sessions -/

/-- What may be asked of a parser.  A block may end at any kinds of token, and lacks one of
the closers. -/
inductive Request where
  | statement
  | block (terminators : List Kind) (closer : Kind) (context : String)
      (known : closer ∈ [Kind.kwFi, .kwDone, .rbrace])
  | programBody
  | conditional
  | loop
  | loopBody
  | function
  | assignment
  | pipeline
  | command
  | redirection
  | expression
  | trailingWords
  | isAssignment
  | expectWord (text : String)
  | skipToken
  | separator
  | headerSeparators
  | spanFrom (start : Span)
  | currentPosition
  | accept (k : Kind)
  | check (k : Kind)
  | advance
  | atEnd
  | peek
  | expect (k : Kind) (message : String)

/-- What a request gives. -/
inductive Answer where
  | statement (s : Statement)
  | statement? (s : Option Statement)
  | statements (ss : List Statement)
  | command (c : Command)
  | redirection (r : Redirection)
  | expression (e : Expr)
  | expressions (es : List Expr)
  | token (t : Token)
  | flag (b : Bool)
  | position (s : Option Span)
  | done

/-- An outcome taken for an answer. -/
def reply {α : Type} (f : α → Answer) (r : Except Failure α × Parser) :
    Except Failure Answer × Parser := (r.1.map f, r.2)

/-- The answer to a request, and the parser after it. -/
def answer (p : Parser) : Request → Except Failure Answer × Parser
  | .statement => reply .statement? (p.step Parse.statement)
  | .block terminators closer context _ =>
      reply .statements (p.step (block Parse.statement ⟨terminators, closer, context⟩))
  | .programBody => reply .statements p.stepBody
  | .conditional => reply .statement (p.step (conditional Parse.statement))
  | .loop => reply .statement (p.step (loop Parse.statement))
  | .loopBody => reply .statements (p.step (loopBody Parse.statement))
  | .function => reply .statement (p.step (function Parse.statement))
  | .assignment => reply .statement (p.step assignment)
  | .pipeline => reply .statement (p.step pipeline)
  | .command => reply .command (p.step command)
  | .redirection => reply .redirection (p.step redirection)
  | .expression => reply .expression (p.step expression)
  | .trailingWords => reply .expressions (p.step trailingWords)
  | .isAssignment => reply .flag (p.step isAssignment)
  | .expectWord text => reply .token (p.step (expectWord text))
  | .skipToken => reply (fun _ => .done) p.stepSkip
  | .separator => reply (fun _ => .done) (p.step separator)
  | .headerSeparators => reply (fun _ => .done) (p.step headerSeparators)
  | .spanFrom start => reply .position (p.step (spanFrom (some start)))
  | .currentPosition => reply .position (p.currentPosition, p)
  | .accept k => reply .flag (p.step (accept k))
  | .check k => reply .flag (p.step (check k))
  | .advance => reply .token (p.step advance)
  | .atEnd => reply .flag (p.step atEnd)
  | .peek => reply .token (p.step peek)
  | .expect k message => reply .token (p.step (expect k message))

/-- The parser after requests made in turn. -/
def after (p : Parser) (rs : List Request) : Parser := rs.foldl (fun p r => (p.answer r).2) p

/-! ## Cursors -/

/-- A parser of complete tokens, with its cursor among them. -/
structure Ready (p : Parser) : Prop where
  complete : Complete p.tokens
  low : 0 ≤ p.cursor
  high : p.cursor < p.tokens.length

/-- The parser `q` is `p` gone forward, but not past the last token. -/
structure Forward (p q : Parser) : Prop where
  tokens : q.tokens = p.tokens
  low : p.cursor ≤ q.cursor
  high : q.cursor < p.tokens.length

/-- The failure is of the token under the cursor.  It is an error that carries this token and
its position, with the code of a script that ends too early if it is the end mark; or the
token opens a statement within as many others as may be open. -/
def Blames (p : Parser) : Failure → Prop
  | .malformed e => ∃ t, p.tokens[p.cursor.toNat]? = some t ∧ e.report.token = some t ∧
      e.report.diagnostic.position = t.position ∧
      (e.report.diagnostic.code = some "P010" ↔ t.kind = .eof)
  | .tooDeep => ∃ us ws t others, p.tokens = us ++ (ws ++ t :: others) ∧
      p.cursor = (us ++ ws).length ∧ Broken nestingLimit t ws .tooDeep
  | .fault _ => False

variable {p q : Parser}

theorem Ready.forward (ready : p.Ready) (forward : p.Forward q) : q.Ready where
  complete := forward.tokens ▸ ready.complete
  low := Int.le_trans ready.low forward.low
  high := forward.tokens ▸ forward.high

theorem Forward.refl (ready : p.Ready) : p.Forward p := ⟨rfl, Int.le_refl _, ready.high⟩

theorem Forward.trans {r : Parser} (first : p.Forward q) (second : q.Forward r) : p.Forward r where
  tokens := second.tokens.trans first.tokens
  low := Int.le_trans first.low second.low
  high := first.tokens ▸ second.high

/-- Only the end mark makes an error one of a script that ends too early. -/
theorem code_eq_iff {e : SyntaxError} (inside : ∀ t context, e = .unexpected t context →
    t.kind ≠ .eof) : e.code = "P010" ↔ e.found.kind = .eof := by
  have codeAt_eq_iff (t : Token) {code : String} (other : code ≠ "P010") :
      SyntaxError.codeAt t code = "P010" ↔ t.kind = .eof := by
    unfold SyntaxError.codeAt
    split
    · simp [*]
    · simp [*]
  cases e with
  | missingKind _ _ t => exact codeAt_eq_iff t (by decide)
  | missingText _ t => exact codeAt_eq_iff t (by decide)
  | noExpression t => exact codeAt_eq_iff t (by decide)
  | unexpected t context =>
    refine ⟨fun code => ?_, fun last => absurd last (inside t context rfl)⟩
    exact absurd code (show "P001" ≠ "P010" by decide)

/-- What is blamed on a token is blamed by the parser that has come to it. -/
theorem blames_of_blamed {us ws others : List Token} {t : Token} {e : Failure}
    (split : p.tokens = us ++ (ws ++ t :: others)) (here : p.cursor = (us ++ ws).length)
    (blamed : Blamed t ws e) : p.Blames e := by
  obtain ⟨refuses, deep⟩ := blamed
  cases refuses with
  | @malformed e inside =>
    refine ⟨e.found, ?_, rfl, rfl, by simpa [SyntaxError.report] using code_eq_iff inside⟩
    rw [split, here, ← List.append_assoc, Int.toNat_natCast, List.getElem?_append_right (by simp)]
    simp
  | tooDeep =>
    obtain ⟨vs, vs', rfl, broken⟩ := deep rfl
    exact ⟨us ++ vs, vs', t, others, by simp [split], by simp [here], broken⟩

/-! ## One request -/

/-- The parser that a request leaves has gone forward, to the token of the failure if there is
one. -/
structure Keeps {α : Type} (p : Parser) (r : Except Failure α × Parser) : Prop where
  forward : p.Forward r.2
  blames : ∀ e, r.1 = .error e → r.2.Blames e

theorem Keeps.reply {α : Type} {f : α → Answer} {r : Except Failure α × Parser}
    (keeps : p.Keeps r) : p.Keeps (reply f r) := by
  refine ⟨keeps.forward, fun e failure => keeps.blames e ?_⟩
  rcases r with ⟨_ | a, q⟩
  · cases failure
    rfl
  · cases failure

/-- A parser sees the tokens from its cursor on. -/
theorem Ready.exists_window (ready : p.Ready) :
    ∃ us, p.tokens = us ++ p.window ∧ p.cursor = us.length ∧ Complete p.window := by
  have low := ready.low
  have high := ready.high
  have window : p.window = p.tokens.drop p.cursor.toNat := by rw [window, if_pos ready.low]
  refine ⟨p.tokens.take p.cursor.toNat, ?_, ?_, ?_⟩
  · rw [window, List.take_append_drop]
  · rw [List.length_take]
    omega
  · have whole := ready.complete
    rw [← List.take_append_drop p.cursor.toNat p.tokens] at whole
    rw [window]
    refine whole.of_append fun nil => ?_
    rw [List.drop_eq_nil_iff] at nil
    omega

/-- The cursor moves forward by the tokens that are taken. -/
theorem moveTo_eq {ws rest : List Token} (split : p.window = ws ++ rest) :
    p.moveTo rest = { p with cursor := p.cursor + ws.length } := by
  have taken : p.window.length - rest.length = ws.length := by
    rw [split, List.length_append]
    omega
  rw [moveTo, taken]

/-- A parser moves forward past tokens it sees. -/
theorem Ready.moveTo (ready : p.Ready) {ws others : List Token} {t : Token}
    (split : p.window = ws ++ t :: others) :
    p.Forward (p.moveTo (t :: others)) ∧
      ∀ e, Blamed t ws e → (p.moveTo (t :: others)).Blames e := by
  obtain ⟨us, tokens, here, -⟩ := ready.exists_window
  have moved : (p.moveTo (t :: others)).cursor = (us ++ ws).length := by
    rw [moveTo_eq split, List.length_append, here]
    rfl
  rw [split] at tokens
  refine ⟨⟨rfl, ?_, ?_⟩, fun e => blames_of_blamed tokens moved⟩
  · rw [moved, here, List.length_append]
    omega
  · rw [moved, tokens]
    simp only [List.length_append, List.length_cons]
    omega

variable (ready : p.Ready)

include ready

theorem keeps_step {α : Type} {piece : Parse α} (orderly : Orderly piece) :
    p.Keeps (p.step piece) := by
  obtain ⟨-, -, -, complete⟩ := ready.exists_window
  unfold step
  cases outcome : piece p.window with
  | ok a rest =>
    obtain ⟨ws, t, others, split, rfl⟩ := (orderly _ complete).ok a rest outcome
    exact ⟨(ready.moveTo split).1, by rintro e ⟨⟩⟩
  | error e rest =>
    obtain ⟨ws, t, others, split, rfl, blamed⟩ := (orderly _ complete).error e rest outcome
    refine ⟨(ready.moveTo split).1, ?_⟩
    rintro _ ⟨⟩
    exact (ready.moveTo split).2 e blamed

theorem keeps_stepBody : p.Keeps p.stepBody := by
  obtain ⟨-, -, -, complete⟩ := ready.exists_window
  obtain ⟨ws, t, others, split, rest, blamed⟩ := orderly_read complete
  obtain ⟨forward, blames⟩ := ready.moveTo split
  simp only [stepBody, rest]
  refine ⟨⟨rfl, forward.low, forward.high⟩, fun e failure => ?_⟩
  have failed : (Body.read p.window).failure = some e := by
    unfold Body.result at failure
    split at failure
    · cases failure
      assumption
    · cases failure
  have here := blames e (blamed e failed)
  cases e with
  | malformed e => exact here
  | tooDeep => exact here
  | fault f => exact here

theorem keeps_stepSkip : p.Keeps p.stepSkip := by
  have keeps : p.Keeps (p.step skipToken) := keeps_step ready orderly_advance
  unfold stepSkip
  generalize p.step skipToken = r at keeps
  rcases r with ⟨e | t, q⟩
  · refine ⟨keeps.forward, ?_⟩
    rintro _ ⟨⟩
    exact keeps.blames e rfl
  · exact ⟨⟨keeps.forward.tokens, keeps.forward.low, keeps.forward.high⟩, by rintro _ ⟨⟩⟩

theorem keeps_currentPosition : p.Keeps (p.currentPosition, p) := by
  obtain ⟨-, -, -, complete⟩ := ready.exists_window
  refine ⟨.refl ready, ?_⟩
  unfold currentPosition
  cases seen : p.window with
  | nil =>
    rw [seen] at complete
    exact complete.elim
  | cons t others => rintro _ ⟨⟩

/-- Every request keeps the cursor among the tokens. -/
theorem keeps_answer (r : Request) : p.Keeps (p.answer r) := by
  cases r with
  | statement => exact (keeps_step ready orderly_statement).reply
  | block terminators closer context known =>
    have message : ∀ k ∈ [Kind.kwFi, .kwDone, .rbrace], (closerMessage? k).isSome = true := by
      decide
    exact (keeps_step ready (orderly_block (message closer known))).reply
  | programBody => exact (keeps_stepBody ready).reply
  | conditional => exact (keeps_step ready orderly_conditional).reply
  | loop => exact (keeps_step ready orderly_loop).reply
  | loopBody => exact (keeps_step ready orderly_loopBody).reply
  | function => exact (keeps_step ready orderly_function).reply
  | assignment => exact (keeps_step ready orderly_assignment).reply
  | pipeline => exact (keeps_step ready orderly_pipeline).reply
  | command => exact (keeps_step ready orderly_command).reply
  | redirection => exact (keeps_step ready orderly_redirection).reply
  | expression => exact (keeps_step ready orderly_expression).reply
  | trailingWords => exact (keeps_step ready orderly_trailingWords).reply
  | isAssignment => exact (keeps_step ready orderly_isAssignment).reply
  | expectWord text => exact (keeps_step ready (orderly_expectWord text)).reply
  | skipToken => exact (keeps_stepSkip ready).reply
  | separator => exact (keeps_step ready orderly_separator).reply
  | headerSeparators => exact (keeps_step ready orderly_headerSeparators).reply
  | spanFrom start => exact (keeps_step ready (orderly_spanFrom _)).reply
  | currentPosition => exact (keeps_currentPosition ready).reply
  | accept k => exact (keeps_step ready (orderly_accept k)).reply
  | check k => exact (keeps_step ready (orderly_check k)).reply
  | advance => exact (keeps_step ready orderly_advance).reply
  | atEnd => exact (keeps_step ready orderly_atEnd).reply
  | peek => exact (keeps_step ready orderly_peek).reply
  | expect k message => exact (keeps_step ready (orderly_expect k message)).reply

/-! ## Any session -/

/-- A session goes forward as its requests do. -/
theorem forward_after (rs : List Request) : p.Forward (p.after rs) := by
  induction rs generalizing p with
  | nil => exact .refl ready
  | cons r rs ih =>
    have first := (keeps_answer ready r).forward
    exact first.trans (ih (ready.forward first))

omit ready

/-- **A session never loses its cursor.**  Let a parser hold the tokens of a text, with its
cursor among them.  After any requests, and through any one more, it holds the same tokens,
and the cursor has not gone back and is among them.  If the last request fails, the failure is
of the token then under the cursor. -/
theorem session_keeps_cursor {source : String} {strict : Bool}
    (lexed : tokenize source strict = .ok p.tokens) (low : 0 ≤ p.cursor)
    (high : p.cursor < p.tokens.length) (rs : List Request) (r : Request) :
    let before := p.after rs
    let (outcome, behind) := before.answer r
    before.tokens = p.tokens ∧ behind.tokens = p.tokens ∧
      p.cursor ≤ before.cursor ∧ before.cursor ≤ behind.cursor ∧
      behind.cursor < p.tokens.length ∧
      ∀ e, outcome = .error e → behind.Blames e := by
  have ready : p.Ready := ⟨complete_of_tokenize lexed, low, high⟩
  have there := forward_after ready rs
  obtain ⟨forward, blames⟩ := keeps_answer (ready.forward there) r
  exact ⟨there.tokens, forward.tokens.trans there.tokens, there.low, forward.low,
    there.tokens ▸ forward.high, blames⟩

/-- A session in the middle of a conditional, whose first request fails: the last one then
misses the target of a redirection, at the end mark. -/
theorem session_keeps_cursor_torn :
    let p : Parser := { loaded "if a; then\n) b >" false with cursor := 2 }
    let before := p.after [.loopBody, .expect .kwThen "Expected 'then'",
      .block [.rparen] .kwDone "part" (by decide), .advance]
    let behind := (before.answer .command).2
    tokenize "if a; then\n) b >" false = .ok p.tokens ∧ 0 ≤ p.cursor ∧
      p.cursor < p.tokens.length ∧ before.cursor = 6 ∧ behind.cursor = 8 ∧
      ∃ e, (before.answer .command).1 = .error e ∧ behind.Blames e := by
  generalize script : "if a; then\n) b >" = source
  intro p before behind
  have lexed : tokenize source false = .ok p.tokens := Lexing.tokenize_eq source
  have low : 0 ≤ p.cursor := show (0 : Int) ≤ 2 by decide
  have inside : p.cursor < p.tokens.length ∧ before.cursor = 6 ∧ behind.cursor = 8 ∧
      (before.answer .command).1.isOk = false := by
    subst script
    decide +kernel
  obtain ⟨high, there, last, failed⟩ := inside
  obtain ⟨-, -, -, -, -, blames⟩ := session_keeps_cursor lexed low high
    [.loopBody, .expect .kwThen "Expected 'then'", .block [.rparen] .kwDone "part" (by decide),
      .advance] .command
  cases outcome : (before.answer .command).1 with
  | ok a => simp [outcome, Except.isOk, Except.toBool] at failed
  | error e => exact ⟨lexed, low, high, there, last, e, rfl, blames e outcome⟩

end ShellScript.Parser
