/-
# ShellScript.Proofs.Parse.Line -- the top level goes on behind a line feed

A phrase asks of the token behind it only where that token stands and that it does not
belong to the phrase.  So a line feed may stand there for the end mark (`Alike`), and what
is read up to the end of a script is also read in front of more lines
(`Body.read_append_line`).
-/
import ShellScript.Proofs.Parse.Program

namespace ShellScript

set_option autoImplicit false

open Grammar Parse

/-! ## Tokens that end a phrase alike -/

/-- The second token ends a phrase where the first does: it is the same, or it stands in the
same place and no command goes on with it. -/
inductive Alike : Token → Token → Prop
  | refl (t : Token) : Alike t t
  | moved {t u : Token} (position : u.position = t.position) (no_argument : u.isWordLike = false)
      (no_redirection : u.kind.isRedirection = false) (no_pipe : u.kind ≠ .pipe) : Alike t u

namespace Alike

variable {t u : Token}

theorem position (alike : Alike t u) : u.position = t.position := by
  cases alike with
  | refl => rfl
  | moved position => exact position

theorem follow (alike : Alike t u) (ws : List Token) : Alike (follow ws t) (follow ws u) := by
  cases ws with
  | nil => exact alike
  | cons w ws => exact .refl w

theorem no_argument (alike : Alike t u) (plain : t.isWordLike = false) : u.isWordLike = false := by
  cases alike with
  | refl => exact plain
  | moved _ no_argument => exact no_argument

theorem no_redirection (alike : Alike t u) (plain : t.kind.isRedirection = false) :
    u.kind.isRedirection = false := by
  cases alike with
  | refl => exact plain
  | moved _ _ no_redirection => exact no_redirection

theorem no_pipe (alike : Alike t u) (plain : t.kind ≠ .pipe) : u.kind ≠ .pipe := by
  cases alike with
  | refl => exact plain
  | moved _ _ _ no_pipe => exact no_pipe

/-- A line feed ends phrases like any token in its place. -/
theorem of_newline (feed : u.kind = .newline) (same : u.position = t.position) : Alike t u := by
  refine .moved same ?_ ?_ ?_
  · rw [Token.isWordLike, feed]
    rfl
  · rw [feed]
    rfl
  · rw [feed]
    exact Kind.noConfusion

end Alike

/-! ## Phrases in front of such tokens -/

section Phrases

variable {t u : Token} {ws : List Token} (alike : Alike t u)

include alike

theorem isRedirection_alike {r : Redirection} (h : IsRedirection t ws r) :
    IsRedirection u ws r := by
  cases h with
  | mk kind target =>
    rw [← alike.position]
    exact .mk kind target

theorem isParts_alike {parts : List Part} (h : IsParts t ws parts) : IsParts u ws parts := by
  induction h with
  | nil => exact .nil
  | argument first _ ih => exact .argument first (ih alike)
  | redirection first _ ih =>
    exact .redirection (isRedirection_alike (alike.follow _) first) (ih alike)

theorem isCommand_alike {c : Command} (h : IsCommand t ws c) : IsCommand u ws c := by
  cases h with
  | mk kind inside plain other =>
    rw [← alike.position]
    exact .mk kind (isParts_alike alike inside) (alike.no_argument plain)
      (alike.no_redirection other)

theorem isPiped_alike {cs : List Command} (h : IsPiped t ws cs) : IsPiped u ws cs := by
  induction h with
  | nil plain => exact .nil (alike.no_pipe plain)
  | cons kind first _ ih => exact .cons kind (isCommand_alike (alike.follow _) first) (ih alike)

theorem isPipeline_alike {s : Statement} (h : IsPipeline t ws s) : IsPipeline u ws s := by
  cases h with
  | command only plain => exact .command (isCommand_alike alike only) (alike.no_pipe plain)
  | pipeline first others =>
    rw [← alike.position]
    exact .pipeline (isCommand_alike (alike.follow _) first) (isPiped_alike alike others)

theorem isAssignment_alike {s : Statement} (h : IsAssignment t ws s) : IsAssignment u ws s := by
  cases h with
  | mk kind sign value =>
    rw [← alike.position]
    exact .mk kind sign value

variable {S : Phrase Statement}

theorem isConditional_alike {s : Statement} (h : IsConditional S t ws s) :
    IsConditional S u ws s := by
  cases h with
  | noElse if_kind header then_kind then_body fi_kind =>
    rw [← alike.position]
    exact .noElse if_kind header then_kind then_body fi_kind
  | withElse if_kind header then_kind then_body else_kind else_body fi_kind =>
    rw [← alike.position]
    exact .withElse if_kind header then_kind then_body else_kind else_body fi_kind

theorem isLoop_alike {s : Statement} (h : IsLoop S t ws s) : IsLoop S u ws s := by
  cases h with
  | forIn for_kind name_kind in_word header do_kind inside done_kind =>
    rw [← alike.position]
    exact .forIn for_kind name_kind in_word header do_kind inside done_kind
  | whileDo while_kind header do_kind inside done_kind =>
    rw [← alike.position]
    exact .whileDo while_kind header do_kind inside done_kind

theorem isFunction_alike {s : Statement} (h : IsFunction S t ws s) : IsFunction S u ws s := by
  cases h with
  | mk function_kind name_kind lparen_kind rparen_kind lbrace_kind inside rbrace_kind =>
    rw [← alike.position]
    exact .mk function_kind name_kind lparen_kind rparen_kind lbrace_kind inside rbrace_kind

/-- Only a simple statement goes up to the token behind it; the others end in a token of
their own. -/
theorem isStatement_alike {s : Statement} (h : IsStatement t ws s) : IsStatement u ws s := by
  cases h with
  | assignment h => exact .assignment (isAssignment_alike alike h)
  | pipeline h other => exact .pipeline (isPipeline_alike alike h) other
  | conditional h => exact .conditional (isConditional_alike alike h)
  | loop h => exact .loop (isLoop_alike alike h)
  | function h => exact .function (isFunction_alike alike h)

theorem isPiece_alike {depth : Nat} {i : Item} (h : IsPiece (Within depth) t ws i) :
    IsPiece (Within depth) u ws i := by
  cases h with
  | lineFeed kind => exact .lineFeed kind
  | comment kind => exact .comment kind
  | statement h => exact .statement ⟨isStatement_alike alike h.1, h.2⟩
  | skipped inner plain no_newline no_comment =>
    exact .skipped inner plain no_newline no_comment

end Phrases

/-! ## Rounds of the top level -/

namespace Body

/-- A budget of one token for each token is enough; what it has beyond that is not used. -/
theorem readWithin_eq (budget budget' : List Token) {ts : List Token} (complete : Complete ts)
    (enough : ts.length ≤ budget.length) (enough' : ts.length ≤ budget'.length) :
    readWithin budget ts = readWithin budget' ts := by
  induction budget generalizing budget' ts with
  | nil =>
    rw [List.eq_nil_of_length_eq_zero (Nat.le_zero.1 enough)] at complete
    exact complete.elim
  | cons b budget ih =>
    cases ts with
    | nil => exact complete.elim
    | cons t ts =>
      cases budget' with
      | nil => simp at enough'
      | cons b' budget' =>
        simp only [readWithin]
        split
        · rfl
        next inner =>
          cases first : item (t :: ts) with
          | error e rest => rfl
          | ok i mid =>
            have after := (length_lt_of_round complete inner first).2
            simp only
            cases finish : i.finish mid with
            | error e rest => rfl
            | ok _ left =>
              obtain ⟨whole, shorter⟩ := after left finish
              simp only [List.length_cons] at enough enough' shorter
              simp only
              rw [ih budget' whole (by omega) (by omega)]

/-- One round of the top level, and the top level behind it. -/
theorem read_round {t : Token} {ts mid left : List Token} {i : Item} (complete : Complete (t :: ts))
    (inner : t.kind ≠ .eof) (first : item (t :: ts) = .ok i mid)
    (finish : i.finish mid = .ok () left) : read (t :: ts) = (read left).push i := by
  obtain ⟨whole, shorter⟩ := (length_lt_of_round complete inner first).2 left finish
  show readWithin (t :: ts) (t :: ts) = _
  simp only [readWithin, if_neg inner, first, finish]
  rw [read, readWithin_eq ts left whole (Nat.le_of_lt_succ shorter) (Nat.le_refl _)]

/-- A round where the pieces are known. -/
theorem read_piece (us vs : List Token) {ws : List Token} {next next' : Token}
    {others : List Token} {i : Item} (complete : Complete (us ++ (vs ++ ws)))
    (piece : IsPiece (Within nestingLimit) next us i) (ahead : vs ++ ws = next :: others)
    (finish : IsFinish i next' vs ()) (behind : ∃ others', ws = next' :: others') :
    read (us ++ (vs ++ ws)) = (read ws).push i := by
  obtain ⟨others', rfl⟩ := behind
  obtain ⟨u, us, rfl, inner⟩ := ne_eof_of_isPiece (opens_within nestingLimit) piece
  have whole := complete.of_append (List.append_ne_nil_of_right_ne_nil vs (List.cons_ne_nil _ _))
  have first : item (u :: us ++ (vs ++ next' :: others')) = .ok i (vs ++ next' :: others') :=
    ((readsAt_item complete inner).ok i _).2
      ⟨u :: us, next, others, by rw [ahead]; rfl, ahead, piece⟩
  exact read_round complete inner first
    (((reads_finish i _ whole).ok () _).2 ⟨vs, next', others', rfl, rfl, finish⟩)

/-- Statements and dropped tokens in front of what a body has. -/
def after (b : List Statement × List Token) (l : Body) : Body :=
  { l with statements := b.1 ++ l.statements, skipped := b.2 ++ l.skipped }

theorem after_cons (i : Item) (b : List Statement × List Token) (l : Body) :
    after (i.cons b) l = (after b l).push i := by
  cases i <;> rfl

/-- A line feed in front gives nothing. -/
theorem read_newline {feed : Token} {ts : List Token} (kind : feed.kind = .newline)
    (complete : Complete ts) : read (feed :: ts) = read ts := by
  have inner : ∀ t ∈ [feed], t.kind ≠ .eof := by simp [kind]
  cases ts with
  | nil => exact complete.elim
  | cons t ts =>
    exact read_piece [feed] [] (complete_append inner complete) (.lineFeed kind) rfl ⟨rfl, rfl⟩
      ⟨ts, rfl⟩

/-- What ends a round in front of the end mark ends it in front of a line feed; or else there
is nothing yet, and the line feed itself ends it. -/
theorem finish_newline {i : Item} {vs ws : List Token} {last feed : Token}
    (kind : feed.kind = .newline) (finish : IsFinish i (follow ws last) vs ()) :
    IsFinish i (follow ws feed) vs () ∨
      (vs = [] ∧ ws = [] ∧ ∀ next, IsFinish i next [feed] ()) := by
  cases ws with
  | cons w ws => exact Or.inl finish
  | nil =>
    by_cases solid : i = .lineFeed
    · subst solid
      exact Or.inl finish
    · have taken (next : Token) : IsFinish i next [feed] () :=
        isFinish_of_separator solid (.taken (Or.inr kind))
      have separator : IsSeparator last vs () := by
        cases i with
        | lineFeed => exact absurd rfl solid
        | _ => exact finish
      cases separator with
      | taken kind' => exact Or.inl (isFinish_of_separator solid (.taken kind'))
      | none => exact Or.inr ⟨rfl, rfl, taken⟩

/-- **What is read up to the end mark is read in front of a line feed**, which stands where
the end mark stood, and the top level goes on behind it.  The line feed ends the last piece,
or is a piece of its own behind one that has its separator. -/
theorem read_append_line {ws ts : List Token} {last feed : Token} {b : List Statement × List Token}
    (h : IsBody (Within nestingLimit) last ws b) (inner : ∀ t ∈ ws, t.kind ≠ .eof)
    (kind : feed.kind = .newline) (same : feed.position = last.position) (complete : Complete ts) :
    read (ws ++ feed :: ts) = after b (read ts) := by
  have feed_inner : ∀ t ∈ [feed], t.kind ≠ .eof := by simp [kind]
  have whole : Complete (feed :: ts) := complete_append feed_inner complete
  induction h with
  | stop => exact read_newline kind complete
  | @round last us vs ws i b first finish others ih =>
    obtain ⟨left, right⟩ := List.forall_mem_append.1 inner
    obtain ⟨middle, behind⟩ := List.forall_mem_append.1 right
    have round := complete_append left (complete_append middle (complete_append behind whole))
    rw [after_cons, ← ih behind same, List.append_assoc, List.append_assoc]
    have next := isPiece_alike ((Alike.of_newline kind same).follow (vs ++ ws)) first
    obtain ⟨others', ahead⟩ := append_cons_eq_follow (vs ++ ws) feed ts
    rw [List.append_assoc] at ahead
    rcases finish_newline kind finish with ended | ⟨rfl, rfl, ended⟩
    · exact read_piece us vs round next ahead ended (append_cons_eq_follow ws feed ts)
    · rw [List.nil_append, List.nil_append, read_newline kind complete]
      cases ts with
      | nil => exact complete.elim
      | cons t ts => exact read_piece us [feed] round next rfl (ended t) ⟨ts, rfl⟩

end Body

end ShellScript
