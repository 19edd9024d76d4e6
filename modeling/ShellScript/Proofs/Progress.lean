/-
# ShellScript.Proofs.Progress -- every attempt at a statement makes progress

An attempt at a statement fails, takes a token or more for a statement, or gives none; then it
takes a comment, or nothing.  So whatever stands in front of it, a round of a block or of the top
level fails or takes a token, and no loop goes on for ever (`Parse.Unbounded`).

All of this is said of a parser with any complete tokens and its cursor at any of them.
-/
import ShellScript.Proofs.Parse.Level
import ShellScript.Proofs.Parse.Unbounded
import ShellScript.Proofs.Session

namespace ShellScript

set_option autoImplicit false

open Grammar Parse

theorem Body.eq_of_failure {b : Body} (succeeds : b.failure = none) :
    b = ⟨b.statements, b.skipped, b.rest, none⟩ := by
  rw [← succeeds]

namespace Parser

/-- The parser `q` is `p` gone forward by a token or more, but not past the last token. -/
structure Further (p q : Parser) : Prop where
  forward : p.Forward q
  moved : p.cursor < q.cursor

/-- How an attempt at a statement in front of `t` may end: it fails because of the script, or it
gives a statement behind some tokens, or it gives none, and stands behind `t` if that is a comment
and in front of it otherwise. -/
def Attempted (p : Parser) (t : Token) : Except Failure (Option Statement) × Parser → Prop
  | (.error e, _) => ∀ f, e ≠ .fault f
  | (.ok (some _), q) => p.Further q
  | (.ok none, q) => q = { p with cursor := p.cursor + if t.kind = .comment then 1 else 0 }

/-- How a round of a loop may end: it fails because of the script, or it takes a token. -/
def Advanced {α : Type} (p : Parser) : Except Failure α × Parser → Prop
  | (.error e, _) => ∀ f, e ≠ .fault f
  | (.ok _, q) => p.Further q

/-- How the top level may end: it fails because of the script, or it stands at the end mark. -/
def Finished {α : Type} (p : Parser) : Except Failure α × Parser → Prop
  | (.error e, _) => ∀ f, e ≠ .fault f
  | (.ok _, q) => q.tokens = p.tokens ∧
      ∃ last, p.tokens[q.cursor.toNat]? = some last ∧ last.kind = .eof

/-- How a round of the block `b` in front of `t` may end.  Where the block ends, the round takes
nothing and is the last.  Elsewhere it fails, or it takes a token.  If there is a message for a
missing closer of the block, it fails because of the script. -/
def Rounded (p : Parser) (b : Block) (t : Token) :
    Except Failure (Option (Option Statement)) × Parser → Prop
  | (.error e, _) => ¬ b.Ends t ∧
      ((closerMessage? b.closer).isSome = true → ∀ f, e ≠ .fault f)
  | (.ok (some _), q) => ¬ b.Ends t ∧ p.Further q
  | (.ok none, q) => b.Ends t ∧ q = p

/-- With any fuel from some amount on, the parser `q` without bounds comes to the end that `piece`
comes to, unless this one stops for the depth.  No two rounds begin at one token, and none at the
end mark. -/
def Terminates {α : Type} (p : Parser) (q : Nat → Unbounded α) (piece : Parse α) : Prop :=
  (∀ rest, piece p.window ≠ .error .tooDeep rest) →
    ∃ rounds, (∃ enough, ∀ fuel ≥ enough,
        q fuel (p.window, []) = some (Unbounded.noted rounds (piece p.window))) ∧
      rounds.Sublist (starts p.window) ∧ rounds.length < p.window.length

variable {p : Parser} {t : Token} {ts : List Token}

theorem Ready.further (ready : p.Ready) {ws others : List Token} {u : Token}
    (split : p.window = ws ++ u :: others) (some : ws ≠ []) :
    p.Further (p.moveTo (u :: others)) := by
  refine ⟨(ready.moveTo split).1, ?_⟩
  have taken := List.length_pos_iff.2 some
  rw [moveTo_eq split]
  show p.cursor < p.cursor + ws.length
  omega

/-- The token at the cursor is the first that the parser sees. -/
theorem Ready.exists_cons (ready : p.Ready) (front : p.tokens[p.cursor.toNat]? = some t) :
    ∃ ts, p.window = t :: ts ∧ Complete (t :: ts) := by
  obtain ⟨us, tokens, here, complete⟩ := ready.exists_window
  have first : p.window.head? = some t := by
    rw [← front, here, Int.toNat_natCast]
    conv_rhs => rw [tokens]
    rw [List.getElem?_append_right (Nat.le_refl _), Nat.sub_self, List.head?_eq_getElem?]
  obtain ⟨ts, window⟩ := List.head?_eq_some_iff.1 first
  exact ⟨ts, window, window ▸ complete⟩

section Rounds

variable (ready : p.Ready) (window : p.window = t :: ts) (complete : Complete (t :: ts))

include ready window complete

theorem attempted_step (depth : Nat) : p.Attempted t (p.step (statementWithin depth)) := by
  have reads := reads_statementWithin depth _ complete
  unfold step
  rw [window]
  cases outcome : statementWithin depth (t :: ts) with
  | error e rest =>
    obtain ⟨ws, u, others, -, -, refuses⟩ := reads.error e rest outcome
    exact refuses.ne_fault
  | ok o rest =>
    obtain ⟨ws, u, others, split, rfl, attempt⟩ := (reads.ok o rest).1 outcome
    cases o with
    | some s => exact ready.further (window.trans split) (attempt.ne_nil (opens_within depth))
    | none =>
      show p.moveTo _ = _
      rw [moveTo_eq (window.trans split)]
      cases attempt with
      | comment kind =>
        obtain ⟨rfl, -⟩ := List.cons.inj split
        rw [if_pos kind]
        rfl
      | nothing _ kind =>
        obtain ⟨rfl, -⟩ := List.cons.inj split
        rw [if_neg kind]
        rfl

theorem rounded_step (depth : Nat) (b : Block) :
    p.Rounded b t (p.step (blockItem? (statementWithin depth) b)) := by
  have reads := reads_statementWithin depth
  have opens := opens_within depth
  unfold step
  rw [window]
  cases outcome : blockItem? (statementWithin depth) b (t :: ts) with
  | error e rest =>
    refine ⟨fun ends => ?_, fun known => ?_⟩
    · rw [blockItem?_of_ends ends] at outcome
      cases outcome
    · obtain ⟨ws, u, others, -, -, refuses⟩ :=
        (reads_blockItem? reads opens known _ complete).error e rest outcome
      exact refuses.ne_fault
  | ok o rest =>
    obtain ⟨ws, u, others, split, rfl, item⟩ := exists_blockItem reads opens complete outcome
    cases o with
    | none =>
      cases item with
      | stop ends =>
        obtain ⟨rfl, -⟩ := List.cons.inj split
        refine ⟨ends, ?_⟩
        rw [moveTo_eq (window.trans split), List.length_nil, Int.natCast_zero, Int.add_zero]
    | some i =>
      refine ⟨fun ends => ?_, ready.further (window.trans split) (item.ne_nil opens)⟩
      rw [blockItem?_of_ends ends] at outcome
      cases outcome

theorem advanced_step (inner : t.kind ≠ .eof) :
    p.Advanced (p.step (do
      let i ← item
      i.finish)) := by
  have reads := (readsAt_item complete inner).bind fun i mid first =>
    reads_finish i mid (length_lt_of_round complete inner first).1
  unfold step
  rw [window]
  cases outcome : (item >>= Item.finish) (t :: ts) with
  | error e rest =>
    obtain ⟨ws, u, others, -, -, refuses⟩ := reads.error e rest outcome
    exact refuses.ne_fault
  | ok o rest =>
    obtain ⟨_, u, others, split, rfl, us, vs, i, rfl, piece, -⟩ := (reads.ok o rest).1 outcome
    obtain ⟨v, vs', rfl, -⟩ := ne_eof_of_isPiece (opens_within nestingLimit) piece
    exact ready.further (window.trans split) (List.cons_ne_nil v _)

omit window complete

theorem finished_stepBody : p.Finished p.stepBody := by
  obtain ⟨us, tokens, here, complete⟩ := ready.exists_window
  cases failed : (Body.read p.window).failure with
  | some e =>
    obtain ⟨_, _, _, -, -, refuses⟩ := refuses_of_read complete failed
    simp only [stepBody, Body.result, failed]
    exact refuses.ne_fault
  | none =>
    obtain ⟨ws, last, split, rest, whole⟩ := (read_eq_iff complete).1 (Body.eq_of_failure failed)
    simp only [stepBody, Body.result, failed]
    refine ⟨rfl, last, ?_, eof_of_isBody whole⟩
    have cursor : (p.moveTo (Body.read p.window).rest).cursor = (us ++ ws).length := by
      rw [rest, moveTo_eq split, List.length_append, here]
      rfl
    show p.tokens[(p.moveTo _).cursor.toNat]? = _
    rw [cursor, Int.toNat_natCast]
    conv_lhs => rw [tokens, split]
    rw [← List.append_assoc, List.getElem?_concat_length]

/-- What the parsers do that comes to an end is said of the rounds from the first on. -/
theorem terminates_of_follows {α : Type} {q : Nat → Unbounded α} {piece : Parse α}
    (follows : Follows q piece) : p.Terminates q piece := by
  obtain ⟨-, -, -, complete⟩ := ready.exists_window
  intro shallow
  obtain ⟨rounds, turns, enough, ends⟩ := follows _ complete shallow
  refine ⟨rounds, ⟨enough, fun fuel more => ends fuel more []⟩, turns.sublist, ?_⟩
  have few := turns.sublist.length_le
  have all := length_starts complete
  omega

end Rounds

/-- **Every attempt at a statement makes progress**, in front of any token of a complete list and
however deep statements may nest: it fails because of the script, or takes a token or more for a
statement, or gives none and takes nothing but a comment.  So each round of a block and of the
top level fails or takes a token.

The loops and the recursion would come to the same end without their bounds.  No statement and no
block reaches a bound on the depth that is as high as the number of tokens left.  Without any
bound, the rounds of all loops together are fewer than these tokens, each at a token of its own.
If the top level does not fail, it stands at the end mark. -/
theorem attempts_make_progress (complete : Complete p.tokens) (low : 0 ≤ p.cursor)
    (front : p.tokens[p.cursor.toNat]? = some t) :
    (∀ depth, p.Attempted t (p.step (statementWithin depth))) ∧
    (∀ depth b, p.Rounded b t (p.step (blockItem? (statementWithin depth) b))) ∧
    (t.kind ≠ .eof → p.Advanced (p.step (do
      let i ← item
      i.finish))) ∧
    (∀ depth, p.window.length ≤ depth → ∀ rest,
      statementWithin depth p.window ≠ .error .tooDeep rest ∧
      ∀ b, block (statementWithin depth) b p.window ≠ .error .tooDeep rest) ∧
    (∀ depth, p.Terminates Unbounded.statement (statementWithin depth)) ∧
    (∀ depth b, p.Terminates (fun fuel => Unbounded.block fuel b)
      (block (statementWithin depth) b)) ∧
    p.Terminates Unbounded.body body ∧
    p.Finished p.stepBody := by
  have high : p.cursor < p.tokens.length := by
    obtain ⟨inside, -⟩ := List.getElem?_eq_some_iff.1 front
    omega
  have ready : p.Ready := ⟨complete, low, high⟩
  obtain ⟨ts, window, whole⟩ := ready.exists_cons front
  refine ⟨fun depth => attempted_step ready window whole depth,
    fun depth b => rounded_step ready window whole depth b,
    fun inner => advanced_step ready window whole inner, fun depth enough rest => ?_,
    fun depth => terminates_of_follows ready (follows_statement depth),
    fun depth b => terminates_of_follows ready (follows_block b fun _ _ => halts_statement depth),
    terminates_of_follows ready follows_body, finished_stepBody ready⟩
  rw [window] at enough ⊢
  exact ⟨statementWithin_ne_tooDeep whole enough rest,
    fun b => block_ne_tooDeep b whole enough rest⟩

/-- In front of a conditional with a comment in its block, and with a token behind it that starts
no statement. -/
theorem attempts_make_progress_conditional :
    let p := loaded "if a; then b # c\nfi )" false
    Complete p.tokens ∧ 0 ≤ p.cursor ∧
      (∃ t, p.tokens[p.cursor.toNat]? = some t ∧ t.kind = .kwIf) ∧
      (∃ s, (p.step statement).1 = .ok (some s)) ∧ p.Further (p.step statement).2 ∧
      (∃ rounds, (∃ enough, ∀ fuel ≥ enough, Unbounded.body fuel (p.window, []) =
        some (Unbounded.noted rounds (body p.window))) ∧ rounds.length < 10) ∧
      p.stepBody.2.cursor = 9 ∧ p.Finished p.stepBody := by
  generalize script : "if a; then b # c\nfi )" = source
  intro p
  have lexed : tokenize source false = .ok p.tokens := Lexing.tokenize_eq source
  have complete := complete_of_tokenize lexed
  have low : 0 ≤ p.cursor := Int.le_refl 0
  have inside : p.tokens.head?.map Token.kind = some .kwIf ∧
      (p.step statement).1.toOption.join.isSome = true ∧
      (Body.read p.window).failure.isNone = true ∧
      p.stepBody.2.cursor = 9 ∧ p.window.length = 10 := by
    subst script
    decide +kernel
  obtain ⟨kind, found, succeeds, last, length⟩ := inside
  obtain ⟨t, front, kind⟩ := Option.map_eq_some_iff.1 kind
  rw [List.head?_eq_getElem?] at front
  obtain ⟨attempts, -, -, -, -, -, halts, finished⟩ := attempts_make_progress complete low front
  obtain ⟨s, found⟩ : ∃ s, (p.step statement).1 = .ok (some s) := by
    revert found
    cases (p.step statement).1 with
    | error e => exact nofun
    | ok o =>
      cases o with
      | none => exact nofun
      | some s => exact fun _ => ⟨s, rfl⟩
  have moved : p.Further (p.step statement).2 := by
    have attempt := attempts nestingLimit
    rwa [show p.step (statementWithin nestingLimit) = (.ok (some s), (p.step statement).2) from
      Prod.ext found rfl] at attempt
  have shallow (rest : List Token) : body p.window ≠ .error .tooDeep rest := by
    rw [body_of_read (Body.eq_of_failure (Option.isNone_iff_eq_none.1 succeeds))]
    exact nofun
  obtain ⟨rounds, run, -, few⟩ := halts shallow
  exact ⟨complete, low, ⟨t, front, kind⟩, ⟨s, found⟩, moved, ⟨rounds, run, length ▸ few⟩, last,
    finished⟩

end Parser

end ShellScript
