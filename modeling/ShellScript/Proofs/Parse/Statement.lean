/-
# ShellScript.Proofs.Parse.Statement -- the parser of a statement reads the grammar

What a statement is shows in its first token (`isStatement_iff`), but for an
assignment, which the token after that word gives away (`readsAt_simple?`).  The
bound on the depth goes into the phrases: with depth `d` the parser reads the
statements that nest at most `d` deep (`reads_statementWithin`), by induction on `d`.
-/
import ShellScript.Proofs.Parse.Compound

namespace ShellScript.Parse

set_option autoImplicit false

open Grammar

/-! ## Simple statements -/

theorem isAssignment_cons (t : Token) (ts : List Token) :
    isAssignment (t :: ts) =
      .ok (decide (t.kind = .word) && (ts.head?.any fun u => u.isWord "=")) (t :: ts) := by
  have first : check .word (t :: ts) = .ok (decide (t.kind = .word)) (t :: ts) := rfl
  unfold isAssignment
  show EStateM.bind (check .word) _ (t :: ts) = _
  simp only [EStateM.bind, first]
  by_cases kind : t.kind = .word
  · simp only [kind, decide_true, if_true, Bool.true_and]
    cases ts <;> rfl
  · simp only [kind, decide_false, Bool.false_eq_true, if_false, Bool.false_and]
    rfl

/-- A simple statement starts with a word. -/
theorem simple?_plain {t : Token} (no_word : t.kind ≠ .word) (ts : List Token) :
    simple? (t :: ts) = .ok none (t :: ts) := by
  show EStateM.bind isAssignment _ _ = _
  simp [EStateM.bind, isAssignment_cons, no_word, check, peek, bind, pure, EStateM.pure]

/-- A statement that holds no other. -/
def IsSimple : Phrase Statement := fun next ws s =>
  IsAssignment next ws s ∨ (IsPipeline next ws s ∧ ¬ StartsAssignment ws)

theorem equals_of_startsAssignment {t next : Token} {ts ws others : List Token}
    (starts : StartsAssignment ws) (split : t :: ts = ws ++ next :: others) :
    (ts.head?.any fun u => u.isWord "=") = true := by
  obtain ⟨name, equals, vs, rfl, -, sign⟩ := starts
  obtain ⟨-, rfl⟩ := List.cons.inj split
  simpa using sign

/-- Behind a pipeline stands nothing that could still belong to its last command. -/
theorem not_isWordLike_of_isPiped {next : Token} {ws : List Token} {cs : List Command}
    (h : IsPiped next ws cs) (some_command : cs ≠ []) : next.isWordLike = false := by
  induction h with
  | nil => exact absurd rfl some_command
  | cons _ first others ih =>
    cases others with
    | nil =>
      cases first with
      | mk _ _ plain => exact plain
    | cons => exact ih (List.cons_ne_nil _ _)

theorem not_isWordLike_of_isPipeline {next : Token} {ws : List Token} {s : Statement}
    (h : IsPipeline next ws s) : next.isWordLike = false := by
  cases h with
  | command only =>
    cases only with
    | mk _ _ plain => exact plain
  | pipeline _ others => exact not_isWordLike_of_isPiped others (List.cons_ne_nil _ _)

theorem word_of_isPipeline {next : Token} {ws : List Token} {s : Statement}
    (h : IsPipeline next ws s) : ∃ t ts, ws = t :: ts ∧ t.kind = .word := by
  cases h with
  | command only =>
    cases only with
    | mk kind => exact ⟨_, _, rfl, kind⟩
  | pipeline first =>
    cases first with
    | mk kind => exact ⟨_, _, rfl, kind⟩

/-- A statement that starts with a word.  What it is shows in the token after that
word, which need not belong to it. -/
theorem readsAt_simple? {t : Token} {ts : List Token} (complete : Complete (t :: ts))
    (kind : t.kind = .word) :
    ReadsAt simple? (fun next ws o => ∃ s, IsSimple next ws s ∧ o = some s) (t :: ts) := by
  by_cases assigns : (ts.head?.any fun u => u.isWord "=") = true
  · have same : simple? (t :: ts) = (do return some (← assignment)) (t :: ts) := by
      show (isAssignment >>= _) (t :: ts) = _
      simp [bind, EStateM.bind, isAssignment_cons, kind, assigns]
    refine (ReadsAt.of_eq same ((reads_assignment _ complete).map some)).congr ?_
    intro next ws others o split
    constructor
    · rintro ⟨s, ⟨name, equals, u, e, rfl, -, sign, value, rfl⟩, rfl⟩
      obtain ⟨rfl, -⟩ := List.cons.inj split
      exact ⟨_, Or.inl (.mk kind sign value), rfl⟩
    · rintro ⟨s, h | ⟨h, other⟩, rfl⟩
      · cases h with
        | @mk _ name equals u e name_kind sign value =>
          have inner : name.kind ≠ .eof := name_kind.trans_ne Kind.noConfusion
          exact ⟨_, ⟨name, equals, u, e, rfl, inner, sign, value, rfl⟩, rfl⟩
      · -- the `=` would be an argument, or stand behind a command that it still belongs to
        exfalso
        have plain := not_isWordLike_of_isPipeline h
        obtain ⟨u, us, rfl, -⟩ := word_of_isPipeline h
        obtain ⟨rfl, rfl⟩ := List.cons.inj split
        cases us with
        | nil =>
          have word := (kind_of_isWord (by simpa using assigns)).1
          rw [Token.isWordLike, word] at plain
          cases plain
        | cons equals us =>
          exact other ⟨t, equals, us, rfl, kind, by simpa using assigns⟩
  · have same : simple? (t :: ts) = (do return some (← pipeline)) (t :: ts) := by
      show (isAssignment >>= _) (t :: ts) = _
      simp [bind, EStateM.bind, isAssignment_cons, kind, assigns, check, peek, pure, EStateM.pure]
    refine (ReadsAt.of_eq same ((reads_pipeline _ complete).map some)).congr ?_
    intro next ws others o split
    constructor
    · rintro ⟨s, h, rfl⟩
      exact ⟨s, Or.inr ⟨h, fun starts => assigns (equals_of_startsAssignment starts split)⟩, rfl⟩
    · rintro ⟨s, h | ⟨h, -⟩, rfl⟩
      · cases h with
        | @mk _ name equals u e name_kind sign value =>
          exact absurd (equals_of_startsAssignment ⟨name, equals, [u], rfl, name_kind, sign⟩ split)
            assigns
      · exact ⟨s, h, rfl⟩

/-! ## All statements, up to a depth -/

/-- A statement that nests at most `depth` deep. -/
def Within (depth : Nat) : Phrase Statement := fun next ws s =>
  IsStatement next ws s ∧ s.nesting ≤ depth

theorem isBlock_within {depth : Nat} {next : Token} {ws : List Token} {ss : List Statement} :
    IsBlock (Within depth) next ws ss ↔
      IsBlock IsStatement next ws ss ∧ Statement.nestingAll ss ≤ depth := by
  constructor
  · intro h
    induction h with
    | nil => exact ⟨.nil, Nat.zero_le depth⟩
    | newline kind _ ih => exact ⟨.newline kind ih.1, ih.2⟩
    | comment kind _ ih => exact ⟨.comment kind ih.1, ih.2⟩
    | statement first _ ih => exact ⟨.statement first.1 ih.1, Nat.max_le.2 ⟨first.2, ih.2⟩⟩
    | separated first kind _ ih =>
      exact ⟨.separated first.1 kind ih.1, Nat.max_le.2 ⟨first.2, ih.2⟩⟩
  · rintro ⟨h, shallow⟩
    induction h with
    | nil => exact .nil
    | newline kind _ ih => exact .newline kind (ih shallow)
    | comment kind _ ih => exact .comment kind (ih shallow)
    | statement first _ ih =>
      obtain ⟨here, others⟩ := Nat.max_le.1 shallow
      exact .statement ⟨first, here⟩ (ih others)
    | separated first kind _ ih =>
      obtain ⟨here, others⟩ := Nat.max_le.1 shallow
      exact .separated ⟨first, here⟩ kind (ih others)

theorem isConditional_within {depth : Nat} {next : Token} {ws : List Token} {s : Statement} :
    IsConditional (Within depth) next ws s ↔
      IsConditional IsStatement next ws s ∧ s.nesting ≤ depth + 1 := by
  constructor
  · intro h
    cases h with
    | noElse if_kind header then_kind then_body fi_kind =>
      obtain ⟨inside, shallow⟩ := isBlock_within.1 then_body
      exact ⟨.noElse if_kind header then_kind inside fi_kind, Nat.succ_le_succ shallow⟩
    | withElse if_kind header then_kind then_body else_kind else_body fi_kind =>
      obtain ⟨inside, shallow⟩ := isBlock_within.1 then_body
      obtain ⟨inside', shallow'⟩ := isBlock_within.1 else_body
      exact ⟨.withElse if_kind header then_kind inside else_kind inside' fi_kind,
        Nat.succ_le_succ (Nat.max_le.2 ⟨shallow, shallow'⟩)⟩
  · rintro ⟨h, shallow⟩
    cases h with
    | noElse if_kind header then_kind then_body fi_kind =>
      have inside := isBlock_within.2 ⟨then_body, Nat.le_of_succ_le_succ shallow⟩
      exact .noElse if_kind header then_kind inside fi_kind
    | withElse if_kind header then_kind then_body else_kind else_body fi_kind =>
      obtain ⟨left, right⟩ := Nat.max_le.1 (Nat.le_of_succ_le_succ shallow)
      exact .withElse if_kind header then_kind (isBlock_within.2 ⟨then_body, left⟩) else_kind
        (isBlock_within.2 ⟨else_body, right⟩) fi_kind

theorem isLoop_within {depth : Nat} {next : Token} {ws : List Token} {s : Statement} :
    IsLoop (Within depth) next ws s ↔ IsLoop IsStatement next ws s ∧ s.nesting ≤ depth + 1 := by
  constructor
  · intro h
    cases h with
    | forIn for_kind name_kind in_word header do_kind inside done_kind =>
      obtain ⟨inside, shallow⟩ := isBlock_within.1 inside
      exact ⟨.forIn for_kind name_kind in_word header do_kind inside done_kind,
        Nat.succ_le_succ shallow⟩
    | whileDo while_kind header do_kind inside done_kind =>
      obtain ⟨inside, shallow⟩ := isBlock_within.1 inside
      exact ⟨.whileDo while_kind header do_kind inside done_kind, Nat.succ_le_succ shallow⟩
  · rintro ⟨h, shallow⟩
    cases h with
    | forIn for_kind name_kind in_word header do_kind inside done_kind =>
      have inside := isBlock_within.2 ⟨inside, Nat.le_of_succ_le_succ shallow⟩
      exact .forIn for_kind name_kind in_word header do_kind inside done_kind
    | whileDo while_kind header do_kind inside done_kind =>
      have inside := isBlock_within.2 ⟨inside, Nat.le_of_succ_le_succ shallow⟩
      exact .whileDo while_kind header do_kind inside done_kind

theorem isFunction_within {depth : Nat} {next : Token} {ws : List Token} {s : Statement} :
    IsFunction (Within depth) next ws s ↔
      IsFunction IsStatement next ws s ∧ s.nesting ≤ depth + 1 := by
  constructor
  · rintro ⟨function_kind, name_kind, lparen_kind, rparen_kind, lbrace_kind, inside, rbrace_kind⟩
    obtain ⟨inside, shallow⟩ := isBlock_within.1 inside
    exact ⟨.mk function_kind name_kind lparen_kind rparen_kind lbrace_kind inside rbrace_kind,
      Nat.succ_le_succ shallow⟩
  · rintro ⟨h, shallow⟩
    cases h with
    | mk function_kind name_kind lparen_kind rparen_kind lbrace_kind inside rbrace_kind =>
      have inside := isBlock_within.2 ⟨inside, Nat.le_of_succ_le_succ shallow⟩
      exact .mk function_kind name_kind lparen_kind rparen_kind lbrace_kind inside rbrace_kind

/-- What a statement is shows in the kind of its first token. -/
theorem isStatement_iff {next : Token} {ws : List Token} {s : Statement} :
    IsStatement next ws s ↔ ∃ t ts, ws = t :: ts ∧
      ((t.kind = .word ∧ IsSimple next ws s) ∨
        (t.kind = .kwIf ∧ IsConditional IsStatement next ws s) ∨
        ((t.kind = .kwFor ∨ t.kind = .kwWhile) ∧ IsLoop IsStatement next ws s) ∨
        (t.kind = .kwFunction ∧ IsFunction IsStatement next ws s)) := by
  constructor
  · intro h
    cases h with
    | assignment h =>
      cases h with
      | mk kind sign value => exact ⟨_, _, rfl, Or.inl ⟨kind, Or.inl (.mk kind sign value)⟩⟩
    | pipeline h other =>
      obtain ⟨t, ts, rfl, kind⟩ := word_of_isPipeline h
      exact ⟨t, ts, rfl, Or.inl ⟨kind, Or.inr ⟨h, other⟩⟩⟩
    | conditional h =>
      have whole := h
      cases h with
      | noElse if_kind => exact ⟨_, _, rfl, Or.inr (Or.inl ⟨if_kind, whole⟩)⟩
      | withElse if_kind => exact ⟨_, _, rfl, Or.inr (Or.inl ⟨if_kind, whole⟩)⟩
    | loop h =>
      have whole := h
      cases h with
      | forIn for_kind =>
        exact ⟨_, _, rfl, Or.inr (Or.inr (Or.inl ⟨Or.inl for_kind, whole⟩))⟩
      | whileDo while_kind =>
        exact ⟨_, _, rfl, Or.inr (Or.inr (Or.inl ⟨Or.inr while_kind, whole⟩))⟩
    | function h =>
      have whole := h
      cases h with
      | mk function_kind => exact ⟨_, _, rfl, Or.inr (Or.inr (Or.inr ⟨function_kind, whole⟩))⟩
  · rintro ⟨t, ts, -, ⟨-, h | ⟨h, other⟩⟩ | ⟨-, h⟩ | ⟨-, h⟩ | ⟨-, h⟩⟩
    · exact .assignment h
    · exact .pipeline h other
    · exact .conditional h
    · exact .loop h
    · exact .function h

theorem nesting_of_isSimple {next : Token} {ws : List Token} {s : Statement}
    (h : IsSimple next ws s) : s.nesting = 0 := by
  rcases h with h | ⟨h, -⟩
  · cases h
    rfl
  · cases h <;> rfl

theorem opens_isStatement : Opens IsStatement := by
  intro next ws s h
  obtain ⟨t, ts, rfl, ⟨kind, -⟩ | ⟨kind, -⟩ | ⟨kind | kind, -⟩ | ⟨kind, -⟩⟩ := isStatement_iff.1 h <;>
  exact ⟨t, ts, rfl, by rw [kind]; rfl⟩

theorem opens_within (depth : Nat) : Opens (Within depth) :=
  fun next ws s h => opens_isStatement next ws s h.1

section Attempts

variable {p : Inner} {S : Phrase Statement} {t : Token} {ts : List Token}

theorem readsAt_nothing (opens : Opens S) (plain : t.kind.opensStatement = false)
    (kind : t.kind ≠ .comment) (same : p (t :: ts) = .ok none (t :: ts)) :
    ReadsAt p (Attempt S) (t :: ts) := by
  refine ReadsAt.congr (ReadsAt.of_eq same (.pure none t ts)) fun next ws others o split => ?_
  constructor
  · rintro ⟨rfl, rfl⟩
    obtain ⟨rfl, -⟩ := List.cons.inj split
    exact .nothing plain kind
  · intro h
    cases h with
    | statement h =>
      obtain ⟨u, us, rfl, starts⟩ := opens _ _ _ h
      rw [← (List.cons.inj split).1, plain] at starts
      cases starts
    | comment kind' => exact absurd ((List.cons.inj split).1 ▸ kind') kind
    | nothing => exact ⟨rfl, rfl⟩

theorem readsAt_comment (opens : Opens S) (complete : Complete (t :: ts)) (kind : t.kind = .comment)
    (same : p (t :: ts) = .ok none ts) : ReadsAt p (Attempt S) (t :: ts) := by
  have inner : t.kind ≠ .eof := kind.trans_ne Kind.noConfusion
  have taken : p (t :: ts) = (advance >>= fun _ => pure none) (t :: ts) := by
    rw [same, bind_of_ok (advance_cons inner ts)]
    rfl
  refine ((reads_advance.bind fun _ => .pure none) _ complete |>.of_eq taken).congr ?_
  intro next ws others o split
  rw [Phrase.bind_pure]
  constructor
  · rintro ⟨u, ⟨-, rfl⟩ | ⟨eof, rfl, rfl⟩, rfl⟩
    · obtain ⟨rfl, -⟩ := List.cons.inj split
      exact .comment kind
    · exact absurd ((List.cons.inj split).1 ▸ eof) inner
  · intro h
    cases h with
    | statement h =>
      obtain ⟨u, us, rfl, starts⟩ := opens _ _ _ h
      rw [← (List.cons.inj split).1, kind] at starts
      cases starts
    | @comment _ u kind' =>
      obtain ⟨rfl, -⟩ := List.cons.inj split
      exact ⟨t, Or.inl ⟨inner, rfl⟩, rfl⟩
    | nothing _ other => exact absurd ((List.cons.inj split).1 ▸ kind) other

/-- A parser that reads the statements that the first token leaves open. -/
theorem readsAt_statement (starts : t.kind.opensStatement = true) {G : Phrase (Option Statement)}
    (reads : ReadsAt p G (t :: ts))
    (same : ∀ next ws others o, t :: ts = ws ++ next :: others →
      (G next ws o ↔ ∃ s, S next ws s ∧ o = some s)) :
    ReadsAt p (Attempt S) (t :: ts) := by
  refine reads.congr fun next ws others o split => ?_
  rw [same next ws others o split]
  constructor
  · rintro ⟨s, h, rfl⟩
    exact .statement h
  · intro h
    cases h with
    | statement h => exact ⟨_, h, rfl⟩
    | comment kind =>
      rw [(List.cons.inj split).1, kind] at starts
      cases starts
    | nothing plain =>
      rw [(List.cons.inj split).1, plain] at starts
      cases starts

end Attempts

/-- The statement that a token of some kind opens, where the inner statements nest at
most `depth` deep. -/
theorem readsAt_compound {depth : Nat}
    (reads : Reads (statementWithin depth) (Attempt (Within depth)))
    {t : Token} {ts : List Token} (complete : Complete (t :: ts))
    {compound : Inner → Parse Statement} (opener : compound? t.kind = some compound) :
    ReadsAt (compound (statementWithin depth)) (Within (depth + 1)) (t :: ts) := by
  have opens := opens_within depth
  have head {next : Token} {ws others : List Token} {s : Statement} (h : IsStatement next ws s)
      (split : t :: ts = ws ++ next :: others) :
      (t.kind = .word ∧ IsSimple next ws s) ∨ (t.kind = .kwIf ∧ IsConditional IsStatement next ws s) ∨
        ((t.kind = .kwFor ∨ t.kind = .kwWhile) ∧ IsLoop IsStatement next ws s) ∨
        (t.kind = .kwFunction ∧ IsFunction IsStatement next ws s) := by
    obtain ⟨u, us, rfl, cases⟩ := isStatement_iff.1 h
    rwa [(List.cons.inj split).1]
  cases kind : t.kind <;> simp only [compound?, kind, reduceCtorEq, Option.some.injEq] at opener
  all_goals subst opener
  · refine (reads_conditional reads opens _ complete).congr fun next ws others s split => ?_
    rw [isConditional_within]
    exact and_congr_left fun _ => ⟨.conditional, fun h => by simpa [kind] using head h split⟩
  · refine (readsAt_loop reads opens complete (Or.inl kind)).congr fun next ws others s split => ?_
    rw [isLoop_within]
    exact and_congr_left fun _ => ⟨.loop, fun h => by simpa [kind] using head h split⟩
  · refine (readsAt_loop reads opens complete (Or.inr kind)).congr fun next ws others s split => ?_
    rw [isLoop_within]
    exact and_congr_left fun _ => ⟨.loop, fun h => by simpa [kind] using head h split⟩
  · refine (reads_function reads opens _ complete).congr fun next ws others s split => ?_
    rw [isFunction_within]
    exact and_congr_left fun _ => ⟨.function, fun h => by simpa [kind] using head h split⟩

theorem statementWithin_cons (depth : Nat) (t : Token) (ts : List Token) :
    statementWithin depth (t :: ts) =
      (if t.kind = .comment then advance >>= fun _ => pure none
      else if t.kind = .eof then pure none
      else
        match compound? t.kind, depth with
        | some _, 0 => throw .tooDeep
        | some compound, depth + 1 => do return some (← compound (statementWithin depth))
        | none, _ => simple? : Inner) (t :: ts) := by
  rw [statementWithin]
  show (if t.kind = .comment then _ else _ : Inner) (t :: ts) = _
  split
  · rfl
  · split
    · rfl
    · cases compound? t.kind <;> cases depth <;> rfl

/-- Where no statement starts, only a comment is taken. -/
theorem statementWithin_plain (depth : Nat) {t : Token} (ts : List Token)
    (plain : compound? t.kind = none) (no_word : t.kind ≠ .word) :
    statementWithin depth (t :: ts) = .ok none (if t.kind = .comment then ts else t :: ts) := by
  rw [statementWithin_cons]
  by_cases comment : t.kind = .comment
  · have inner : t.kind ≠ .eof := comment.trans_ne Kind.noConfusion
    rw [if_pos comment, if_pos comment]
    exact bind_of_ok (advance_cons inner ts) _
  · rw [if_neg comment, if_neg comment, plain]
    split
    · rfl
    · exact simple?_plain no_word ts

/-- A statement that starts with a word is read at any depth. -/
theorem readsAt_word (depth : Nat) {t : Token} {ts : List Token} (complete : Complete (t :: ts))
    (kind : t.kind = .word) :
    ReadsAt (statementWithin depth) (Attempt (Within depth)) (t :: ts) := by
  have same : statementWithin depth (t :: ts) = simple? (t :: ts) := by
    rw [statementWithin_cons, kind]
    rfl
  refine readsAt_statement (by rw [kind]; rfl) ((readsAt_simple? complete kind).of_eq same) ?_
  intro next ws others o split
  constructor
  · rintro ⟨s, h, rfl⟩
    have shallow : s.nesting ≤ depth := by
      rw [nesting_of_isSimple h]
      exact Nat.zero_le depth
    refine ⟨s, ⟨?_, shallow⟩, rfl⟩
    rcases h with h | ⟨h, other⟩
    · exact .assignment h
    · exact .pipeline h other
  · rintro ⟨s, ⟨h, -⟩, rfl⟩
    obtain ⟨u, us, rfl, cases⟩ := isStatement_iff.1 h
    obtain ⟨rfl, -⟩ := List.cons.inj split
    exact ⟨s, by simpa [kind] using cases, rfl⟩

/-- A compound statement nests at least one deep. -/
theorem nesting_pos {next t : Token} {ws : List Token} {s : Statement}
    (h : IsStatement next (t :: ws) s) (kind : t.kind ≠ .word) : 0 < s.nesting := by
  obtain ⟨u, us, same, ⟨word, -⟩ | ⟨-, h⟩ | ⟨-, h⟩ | ⟨-, h⟩⟩ := isStatement_iff.1 h
  · exact absurd ((List.cons.inj same).1 ▸ word) kind
  · cases h <;> exact Nat.succ_pos _
  · cases h <;> exact Nat.succ_pos _
  · cases h
    exact Nat.succ_pos _

/-- Every statement but a compound one is read at any depth. -/
theorem readsAt_plain (depth : Nat) {t : Token} {ts : List Token} (complete : Complete (t :: ts))
    (plain : compound? t.kind = none) :
    ReadsAt (statementWithin depth) (Attempt (Within depth)) (t :: ts) := by
  have opens := opens_within depth
  by_cases word : t.kind = .word
  · exact readsAt_word depth complete word
  have result := statementWithin_plain depth ts plain word
  by_cases comment : t.kind = .comment
  · rw [if_pos comment] at result
    exact readsAt_comment opens complete comment result
  · have starts : t.kind.opensStatement = false := by
      revert plain word
      cases t.kind <;> simp [compound?, Kind.opensStatement]
    rw [if_neg comment] at result
    exact readsAt_nothing opens starts comment result

/-- With depth `depth`, a parser of statements reads those that nest at most so deep. -/
theorem reads_statementWithin (depth : Nat) :
    Reads (statementWithin depth) (Attempt (Within depth)) := by
  have starts {k : Kind} {compound : Inner → Parse Statement} (opener : compound? k = some compound) :
      k.opensStatement = true ∧ k ≠ .word ∧ k ≠ .comment ∧ k ≠ .eof := by
    revert opener
    cases k <;> simp [compound?, Kind.opensStatement]
  induction depth with
  | zero =>
    rintro (_ | ⟨t, ts⟩) complete
    · exact complete.elim
    cases opener : compound? t.kind with
    | none => exact readsAt_plain 0 complete opener
    | some compound =>
      obtain ⟨opens, no_word, no_comment, inner⟩ := starts opener
      have fails : statementWithin 0 (t :: ts) = .error .tooDeep (t :: ts) := by
        rw [statementWithin_cons, if_neg no_comment, if_neg inner, opener]
        rfl
      refine readsAt_statement opens (.refuse fails .tooDeep) fun next ws others o split => ?_
      refine ⟨False.elim, ?_⟩
      rintro ⟨s, ⟨h, shallow⟩, -⟩
      obtain ⟨u, us, rfl, -⟩ := isStatement_iff.1 h
      obtain ⟨rfl, -⟩ := List.cons.inj split
      exact absurd (nesting_pos h no_word) (Nat.not_lt.2 shallow)
  | succ depth ih =>
    rintro (_ | ⟨t, ts⟩) complete
    · exact complete.elim
    cases opener : compound? t.kind with
    | none => exact readsAt_plain (depth + 1) complete opener
    | some compound =>
      obtain ⟨opens, -, no_comment, inner⟩ := starts opener
      have same : statementWithin (depth + 1) (t :: ts) =
          (do return some (← compound (statementWithin depth))) (t :: ts) := by
        rw [statementWithin_cons, if_neg no_comment, if_neg inner, opener]
      exact readsAt_statement opens
        (((readsAt_compound ih complete opener).map some).of_eq same) fun _ _ _ _ _ => Iff.rfl

theorem reads_statement : Reads statement (Attempt (Within nestingLimit)) :=
  reads_statementWithin nestingLimit

end ShellScript.Parse
