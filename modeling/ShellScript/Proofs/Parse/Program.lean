/-
# ShellScript.Proofs.Parse.Program -- what the top level of a script reads

The top level goes through its pieces one after another and drops the tokens that
start none (`IsBody`).  As a parser (`bodyWithin`) it is put together like any
other, so its phrases are read off its parts (`readsAt_bodyWithin`).

A body without dropped tokens is a block up to the end mark (`isBlock_of_isBody`).  A line
feed may stand for itself or end a comment, so the pieces are not those of the block; and a
comment takes a semicolon for its separator, which no comment of a script has behind it
(`CommentEndsLine`).
-/
import Mathlib.Data.List.Chain
import ShellScript.Parse.Program
import ShellScript.Proofs.Parse.Statement

namespace ShellScript

set_option autoImplicit false

open Grammar Parse

/-! ## Pieces -/

/-- What one round of the top level takes, where statements are phrases of `S`. -/
inductive IsPiece (S : Phrase Statement) : Phrase Item
  | lineFeed {next t : Token} (kind : t.kind = .newline) : IsPiece S next [t] .lineFeed
  | comment {next t : Token} (kind : t.kind = .comment) : IsPiece S next [t] .comment
  | statement {next : Token} {ws : List Token} {s : Statement} (h : S next ws s) :
      IsPiece S next ws (.statement s)
  | skipped {next t : Token} (inner : t.kind ≠ .eof) (plain : t.kind.opensStatement = false)
      (no_newline : t.kind ≠ .newline) (no_comment : t.kind ≠ .comment) :
      IsPiece S next [t] (.skipped t)

/-- What stands behind a piece in its round. -/
def IsFinish : Item → Phrase Unit
  | .lineFeed => Phrase.pure ()
  | _ => IsSeparator

/-- A piece in front of the statements and the dropped tokens of later rounds. -/
def Parse.Item.cons : Item → List Statement × List Token → List Statement × List Token
  | .lineFeed, b => b
  | .comment, b => b
  | .statement s, b => (s :: b.1, b.2)
  | .skipped t, b => (b.1, t :: b.2)

/-- The top level of a script: its statements, and the tokens it drops. -/
inductive IsBody (S : Phrase Statement) : Phrase (List Statement × List Token)
  | stop {next : Token} (last : next.kind = .eof) : IsBody S next [] ([], [])
  | round {next : Token} {us vs ws : List Token} {i : Item} {b : List Statement × List Token}
      (first : IsPiece S (follow (vs ++ ws) next) us i) (finish : IsFinish i (follow ws next) vs ())
      (others : IsBody S next ws b) : IsBody S next (us ++ (vs ++ ws)) (i.cons b)

/-- A piece takes a token, and no end mark. -/
theorem ne_eof_of_isPiece {S : Phrase Statement} (opens : Opens S) {next : Token}
    {us : List Token} {i : Item} (h : IsPiece S next us i) :
    ∃ t ts, us = t :: ts ∧ t.kind ≠ .eof := by
  cases h with
  | lineFeed kind => exact ⟨_, _, rfl, by rw [kind]; exact Kind.noConfusion⟩
  | comment kind => exact ⟨_, _, rfl, by rw [kind]; exact Kind.noConfusion⟩
  | statement h =>
    obtain ⟨t, ts, rfl, starts⟩ := opens _ _ _ h
    exact ⟨t, ts, rfl, Kind.ne_of_opensStatement starts rfl⟩
  | skipped inner => exact ⟨_, _, rfl, inner⟩

theorem reads_finish : ∀ i : Item, Reads i.finish (IsFinish i)
  | .lineFeed => .pure ()
  | .comment => reads_separator
  | .statement _ => reads_separator
  | .skipped _ => reads_separator

/-- What the top level makes of an attempt at a statement. -/
theorem reads_attempted (t : Token) (o : Option Statement) :
    Reads (match o with
      | some s => return .statement s
      | none => if t.kind = .comment then return .comment else return .skipped (← skipToken) :
        Parse Item)
      fun next ws i => (∃ s, o = some s ∧ ws = [] ∧ i = .statement s) ∨
        (o = none ∧ t.kind = .comment ∧ ws = [] ∧ i = .comment) ∨
        (o = none ∧ t.kind ≠ .comment ∧ ∃ u, ((u.kind ≠ .eof ∧ ws = [u]) ∨
          (u.kind = .eof ∧ ws = [] ∧ u = next)) ∧ i = .skipped u) := by
  cases o with
  | some s => exact (Reads.pure (Item.statement s)).congr fun next ws i => by simp
  | none =>
    refine (Reads.ite (fun _ => .pure Item.comment) fun _ =>
      (reads_advance).bind fun u => .pure (Item.skipped u)).congr fun next ws i => ?_
    rw [Phrase.bind_pure]
    simp

/-- Where no line feed stands, a round tries a statement. -/
theorem Parse.item_cons {t : Token} {ts : List Token} (no_newline : t.kind ≠ .newline) :
    item (t :: ts) = (do
      match ← statement with
      | some s => return Item.statement s
      | none =>
          if t.kind = Kind.comment then return Item.comment
          else return Item.skipped (← skipToken)) (t :: ts) := by
  exact bind_of_ok (accept_of_ne Kind.noConfusion no_newline ts) _

/-- The piece in front of a token that is no end mark. -/
theorem readsAt_item {t : Token} {ts : List Token} (complete : Complete (t :: ts))
    (inner : t.kind ≠ .eof) : ReadsAt item (IsPiece (Within nestingLimit)) (t :: ts) := by
  refine (((reads_accept Kind.noConfusion).bind fun taken => Reads.ite
    (fun _ => .pure Item.lineFeed) fun _ => (reads_peek).bind fun u =>
      (reads_statement).bind (reads_attempted u)) (t :: ts) complete).congr ?_
  intro next ws others i split
  have head : follow ws next = t := follow_eq_of_split split
  constructor
  · rintro ⟨us, vs, taken, rfl, ⟨rfl, u, rfl, kind⟩ | ⟨rfl, rfl, plain⟩, h⟩
    · rcases h with ⟨-, rfl, rfl⟩ | ⟨no, -⟩
      · exact .lineFeed kind
      · exact absurd rfl no
    · rcases h with ⟨no, -⟩ | ⟨-, h⟩
      · cases no
      · obtain ⟨us, ws, o, rfl, attempt, h⟩ := Phrase.bind_ask.1 h
        rcases h with ⟨s, rfl, rfl, rfl⟩ | ⟨rfl, comment, rfl, rfl⟩ | ⟨rfl, comment, v, taken, rfl⟩
        · cases attempt with
          | statement h =>
            rw [List.append_nil]
            exact .statement h
        · cases attempt with
          | comment kind => exact .comment kind
          | nothing _ other => exact absurd comment other
        · cases attempt with
          | comment kind => exact absurd kind comment
          | nothing plain' other =>
            rcases taken with ⟨-, rfl⟩ | ⟨eof, rfl, rfl⟩
            · obtain rfl : v = t := head
              exact .skipped inner plain' plain other
            · exact absurd (head ▸ eof) inner
  · intro h
    cases h with
    | @lineFeed _ u kind =>
      exact ⟨[u], [], true, rfl, Or.inl ⟨rfl, u, rfl, kind⟩, Or.inl ⟨rfl, rfl, rfl⟩⟩
    | @comment _ u kind =>
      have plain : u.kind ≠ .newline := kind.trans_ne Kind.noConfusion
      exact ⟨[], [u], false, rfl, Or.inr ⟨rfl, rfl, plain⟩, Or.inr ⟨Bool.false_ne_true,
        Phrase.bind_ask.2 ⟨[u], [], none, rfl, .comment kind,
          Or.inr (Or.inl ⟨rfl, kind, rfl, rfl⟩)⟩⟩⟩
    | @statement _ _ s h =>
      obtain ⟨u, us, rfl, starts⟩ := opens_within nestingLimit _ _ _ h
      have plain : u.kind ≠ .newline := Kind.ne_of_opensStatement starts rfl
      exact ⟨[], u :: us, false, rfl, Or.inr ⟨rfl, rfl, plain⟩, Or.inr ⟨Bool.false_ne_true,
        Phrase.bind_ask.2 ⟨u :: us, [], some s, by rw [List.append_nil], .statement h,
          Or.inl ⟨s, rfl, rfl, rfl⟩⟩⟩⟩
    | @skipped _ u _ plain no_newline no_comment =>
      obtain ⟨rfl, -⟩ := List.cons.inj split
      exact ⟨[], [t], false, rfl, Or.inr ⟨rfl, rfl, no_newline⟩, Or.inr ⟨Bool.false_ne_true,
        Phrase.bind_ask.2 ⟨[], [t], none, rfl, .nothing plain no_comment,
          Or.inr (Or.inr ⟨rfl, no_comment, t, Or.inl ⟨inner, rfl⟩, rfl⟩)⟩⟩⟩

/-! ## The whole body -/

namespace Body

@[simp] theorem failure_push (b : Body) (i : Item) : (b.push i).failure = b.failure := by
  cases i <;> rfl

@[simp] theorem rest_push (b : Body) (i : Item) : (b.push i).rest = b.rest := by
  cases i <;> rfl

theorem push_eq_cons (b : Body) (i : Item) :
    ((b.push i).statements, (b.push i).skipped) = i.cons (b.statements, b.skipped) := by
  cases i <;> rfl

end Body

/-- The rounds of the top level as a parser. -/
def bodyWithin (budget : List Token) : Parse (List Statement × List Token) := fun ts =>
  let b := Body.readWithin budget ts
  match b.failure with
  | none => .ok (b.statements, b.skipped) b.rest
  | some e => .error e b.rest

/-- A round of the top level, and the rounds after it. -/
theorem bodyWithin_cons (b : Token) (budget : List Token) {t : Token} (ts : List Token)
    (inner : t.kind ≠ .eof) :
    bodyWithin (b :: budget) (t :: ts) = (do
      let i ← item
      i.finish
      return i.cons (← bodyWithin budget)) (t :: ts) := by
  show bodyWithin (b :: budget) (t :: ts) = EStateM.bind item _ (t :: ts)
  unfold bodyWithin EStateM.bind
  simp only [Body.readWithin, if_neg inner]
  cases item (t :: ts) with
  | error e rest => rfl
  | ok i rest =>
    show _ = EStateM.bind i.finish _ rest
    unfold EStateM.bind
    cases finish : i.finish rest with
    | error e left => simp [finish, Body.stop]
    | ok _ left =>
      show _ = EStateM.bind (bodyWithin budget) _ left
      unfold bodyWithin EStateM.bind
      simp only [finish, Body.failure_push, Body.rest_push, Body.push_eq_cons]
      cases (Body.readWithin budget left).failure <;> rfl

/-- At the end mark the top level stops. -/
theorem readsAt_bodyWithin_eof (b : Token) (budget : List Token) {t : Token} (ts : List Token)
    (last : t.kind = .eof) :
    ReadsAt (bodyWithin (b :: budget)) (IsBody (Within nestingLimit)) (t :: ts) := by
  have same : bodyWithin (b :: budget) (t :: ts) = .ok ([], []) (t :: ts) := by
    unfold bodyWithin
    simp only [Body.readWithin, if_pos last]
    rfl
  refine ReadsAt.congr (ReadsAt.of_eq same (.pure ([], []) t ts)) ?_
  intro next ws others a split
  constructor
  · rintro ⟨rfl, rfl⟩
    obtain ⟨rfl, -⟩ := List.cons.inj split
    exact .stop last
  · intro h
    cases h with
    | stop => exact ⟨rfl, rfl⟩
    | round first =>
      obtain ⟨u, us, rfl, inner⟩ := ne_eof_of_isPiece (opens_within nestingLimit) first
      exact absurd ((List.cons.inj split).1 ▸ last) inner

/-- A round leaves fewer tokens than it finds. -/
theorem length_lt_of_round {t : Token} {ts mid : List Token} {i : Item}
    (complete : Complete (t :: ts)) (inner : t.kind ≠ .eof) (first : item (t :: ts) = .ok i mid) :
    Complete mid ∧ ∀ left, i.finish mid = .ok () left →
      Complete left ∧ left.length < (t :: ts).length := by
  obtain ⟨us, next, others, split, rfl, piece⟩ := ((readsAt_item complete inner).ok i mid).1 first
  obtain ⟨u, us, rfl, -⟩ := ne_eof_of_isPiece (opens_within nestingLimit) piece
  rw [split] at complete ⊢
  have whole := complete.of_append (List.cons_ne_nil next others)
  refine ⟨whole, fun left finish => ?_⟩
  obtain ⟨vs, next', others', split', rfl, -⟩ := ((reads_finish i _ whole).ok () left).1 finish
  have length := congrArg List.length split'
  rw [split'] at whole
  refine ⟨whole.of_append (List.cons_ne_nil next' others'), ?_⟩
  simp only [List.length_append, List.length_cons] at length ⊢
  omega

theorem readsAt_bodyWithin (budget ts : List Token) (enough : ts.length ≤ budget.length)
    (complete : Complete ts) :
    ReadsAt (bodyWithin budget) (IsBody (Within nestingLimit)) ts := by
  induction budget generalizing ts with
  | nil =>
    rw [List.eq_nil_of_length_eq_zero (Nat.le_zero.1 enough)] at complete
    exact complete.elim
  | cons b budget ih =>
    cases ts with
    | nil => exact complete.elim
    | cons t ts =>
      by_cases last : t.kind = .eof
      · exact readsAt_bodyWithin_eof b budget ts last
      -- every round takes a token, so the budget of the others lasts
      have fits {left : List Token} (shorter : left.length < (t :: ts).length) :
          left.length ≤ budget.length := Nat.le_of_lt_succ (Nat.lt_of_lt_of_le shorter enough)
      have rounds := (readsAt_item complete last).bind fun i mid first =>
        have ⟨whole, after⟩ := length_lt_of_round complete last first
        (reads_finish i mid whole).bind fun _ left finish =>
          (ih left (fits (after left finish).2) (after left finish).1).map i.cons
      refine ReadsAt.congr (rounds.of_eq (bodyWithin_cons b budget ts last)) ?_
      intro next ws others a split
      constructor
      · rintro ⟨us, _, i, rfl, first, vs, ws, _, rfl, finish, b, rest, rfl⟩
        exact .round first finish rest
      · intro h
        cases h with
        | stop eof => exact absurd ((List.cons.inj split).1 ▸ eof) last
        | round first finish rest =>
          exact ⟨_, _, _, rfl, first, _, _, (), rfl, finish, _, rest, rfl⟩

theorem eof_of_isBody {S : Phrase Statement} {next : Token} {ws : List Token}
    {b : List Statement × List Token} (h : IsBody S next ws b) : next.kind = .eof := by
  induction h with
  | stop last => exact last
  | round _ _ _ ih => exact ih

/-- The top level of a script, up to its end mark. -/
theorem read_eq_iff {ts : List Token} (complete : Complete ts) {ss : List Statement}
    {dropped rest : List Token} :
    Body.read ts = ⟨ss, dropped, rest, none⟩ ↔
      ∃ ws last, ts = ws ++ [last] ∧ rest = [last] ∧
        IsBody (Within nestingLimit) last ws (ss, dropped) := by
  have reads := (readsAt_bodyWithin ts ts (Nat.le_refl _) complete).ok (ss, dropped) rest
  have same : Body.read ts = ⟨ss, dropped, rest, none⟩ ↔
      bodyWithin ts ts = .ok (ss, dropped) rest := by
    unfold bodyWithin Body.read
    rcases Body.readWithin ts ts with ⟨ss', dropped', rest', _ | e⟩
    · simp [and_assoc]
    · simp
  rw [same, reads]
  constructor
  · rintro ⟨ws, last, others, split, rfl, h⟩
    rw [split] at complete
    have whole := complete.of_append (List.cons_ne_nil last others)
    obtain rfl := whole.eq_nil (eof_of_isBody h)
    exact ⟨ws, last, split, rfl, h⟩
  · rintro ⟨ws, last, split, rfl, h⟩
    exact ⟨ws, last, [], split, rfl, h⟩

/-- Where the top level fails, it refuses the script at the token it has come to. -/
theorem refuses_of_read {ts : List Token} (complete : Complete ts) {e : Failure}
    (fails : (Body.read ts).failure = some e) :
    ∃ ws t others, ts = ws ++ t :: others ∧ (Body.read ts).rest = t :: others ∧ Refuses e t := by
  refine (readsAt_bodyWithin ts ts (Nat.le_refl _) complete).error e (Body.read ts).rest ?_
  unfold bodyWithin
  unfold Body.read at fails ⊢
  simp only [fails]

/-! ## Bodies without dropped tokens are blocks -/

/-- A comment runs to the end of its line. -/
def CommentEndsLine (t u : Token) : Prop := t.kind = .comment → u.kind = .newline ∨ u.kind = .eof

section Whole

variable {S : Phrase Statement} {next : Token}

theorem isBlock_of_isBody {ws : List Token} {b : List Statement × List Token}
    (h : IsBody S next ws b) (whole : b.2 = [])
    (tidy : (ws ++ [next]).IsChain CommentEndsLine) : IsBlock S next ws b.1 := by
  induction h with
  | stop => exact .nil
  | @round next us vs ws i b first finish _ ih =>
    have others (kept : b.2 = []) : IsBlock S next ws b.1 := by
      refine ih kept ?_
      rw [← List.append_assoc, List.append_assoc] at tidy
      exact tidy.right_of_append
    cases first with
    | lineFeed kind =>
      obtain ⟨rfl, -⟩ := finish
      exact .newline kind (others whole)
    | @comment _ t kind =>
      cases finish with
      | @taken _ u kind' =>
        have behind := (List.isChain_cons_cons.1 tidy).1 kind
        have feed : u.kind = .newline := by
          rcases kind' with kind' | kind'
          · rw [kind'] at behind
            rcases behind with h | h <;> cases h
          · exact kind'
        exact .comment kind (.newline feed (others whole))
      | none => exact .comment kind (others whole)
    | statement h =>
      cases finish with
      | taken kind => exact .separated h kind (others whole)
      | none => exact .statement h (others whole)
    | skipped => cases whole

theorem isFinish_of_separator {i : Item} (solid : i ≠ .lineFeed) {vs : List Token}
    (separator : IsSeparator next vs ()) : IsFinish i next vs () := by
  cases i with
  | lineFeed => exact absurd rfl solid
  | _ => exact separator

end Whole

end ShellScript
