/-
# ShellScript.Proofs.Parse.Elsewhere -- phrases at another place

Moved tokens are a statement exactly if the tokens are one themselves (`isStatement_move`),
because one parser reads both.  If all are moved to one place, any two tokens that end a
phrase end it alike; so a statement is one in front of each of them, up to positions
(`exists_isStatement`).

A block up to a line feed is the block that holds the line feed as its last token
(`isBlock_concat`, `isBlock_of_concat`), for no statement ends in one.
-/
import ShellScript.Proofs.Parse.Line
import ShellScript.Proofs.Parse.Motion
import ShellScript.Proofs.Tree.Unplaced

namespace ShellScript

set_option autoImplicit false

open Grammar Parse

/-! ## Moved trees -/

section Unplaced

variable (m : Motion)

theorem Expr.unplaced_move (e : Expr) : (e.move m).unplaced = e.unplaced := by
  cases e <;> rfl

theorem Redirection.unplaced_move (r : Redirection) : (r.move m).unplaced = r.unplaced := by
  simp [Redirection.move, Redirection.unplaced, Expr.unplaced_move]

theorem Command.unplaced_move (c : Command) : (c.move m).unplaced = c.unplaced := by
  simp [Command.move, Command.unplaced, Expr.unplaced_move, Redirection.unplaced_move]

theorem LoopHeader.unplaced_move (h : LoopHeader) : (h.move m).unplaced = h.unplaced := by
  cases h <;> simp [LoopHeader.move, LoopHeader.unplaced, Expr.unplaced_move]

namespace Statement

mutual

/-- Positions are all that moves. -/
theorem unplaced_move : (s : Statement) → (s.move m).unplaced = s.unplaced
  | command c => by simp only [move, unplaced, Command.unplaced_move]
  | pipeline first second others p => by
      simp [move, unplaced, Command.unplaced_move]
  | conditional condition args thenBody none p => by
      simp [move, unplaced, Expr.unplaced_move, unplacedAll_move thenBody]
  | conditional condition args thenBody (some elseBody) p => by
      simp [move, unplaced, Expr.unplaced_move, unplacedAll_move thenBody,
        unplacedAll_move elseBody]
  | loop header args items body p => by
      simp [move, unplaced, LoopHeader.unplaced_move, Expr.unplaced_move, unplacedAll_move body]
  | function name body p => by simp [move, unplaced, unplacedAll_move body]
  | assignment name value p => by simp only [move, unplaced, Expr.unplaced_move]

theorem unplacedAll_move : (ss : List Statement) →
    unplacedAll (ss.map (move m)) = unplacedAll ss
  | [] => rfl
  | s :: ss => by
      simp only [List.map_cons, unplacedAll, unplaced_move s, unplacedAll_move ss]

end

/-- Statements nest as deep wherever they stand. -/
theorem nestingAll_move (ss : List Statement) : nestingAll (ss.map (move m)) = nestingAll ss := by
  rw [← nestingAll_unplacedAll, unplacedAll_move, nestingAll_unplacedAll]

end Statement

end Unplaced

/-! ## Moved phrases -/

section Moved

variable (m : Motion) {next : Token}

theorem follow_move (ws : List Token) (next : Token) :
    follow (ws.map (Token.move m)) (next.move m) = (follow ws next).move m := by
  cases ws <;> rfl

/-- Tokens that hold no end mark stand at the front of complete ones. -/
theorem exists_complete {ws : List Token} (inner : ∀ t ∈ ws, t.kind ≠ .eof) (next : Token) :
    ∃ others, Complete (ws ++ next :: others) := by
  by_cases last : next.kind = .eof
  · exact ⟨[], complete_append inner last⟩
  · exact ⟨[Token.endMark .start], complete_append inner ⟨last, rfl⟩⟩

variable {m}

theorem complete_move {ts : List Token} : Complete (ts.map (Token.move m)) ↔ Complete ts := by
  induction ts with
  | nil => exact Iff.rfl
  | cons t ts ih =>
    cases ts with
    | nil => exact Iff.rfl
    | cons u ts => exact and_congr_right fun _ => ih

/-- What a parser reads of moved tokens is what it reads of the tokens themselves. -/
theorem phrase_move {α β : Type} {p : Parse α} {q : Parse β} {F : α → β} {G : Phrase α}
    {H : Phrase β} (reads : Reads p G) (reads' : Reads q H) (moves : Moves m F p q)
    {ws : List Token} (inner : ∀ t ∈ ws, t.kind ≠ .eof) {b : β} :
    H (next.move m) (ws.map (Token.move m)) b ↔ ∃ a, G next ws a ∧ F a = b := by
  obtain ⟨others, complete⟩ := exists_complete inner next
  have whole : (ws ++ next :: others).map (Token.move m) =
      ws.map (Token.move m) ++ next.move m :: others.map (Token.move m) := by simp
  have complete' := complete_move (m := m) |>.2 complete
  have same := moves (ws ++ next :: others)
  rw [whole] at same complete'
  have here := (reads' _ complete').ok
  constructor
  · intro h
    have found := (here b _).2 ⟨_, _, _, rfl, rfl, h⟩
    rw [found] at same
    cases result : p (ws ++ next :: others) with
    | error e rest =>
      rw [result] at same
      cases same
    | ok a rest =>
      rw [result] at same
      injection same with value left
      obtain ⟨vs, u, others', split, rfl, phrase⟩ := ((reads _ complete).ok a rest).1 result
      have length := congrArg List.length left
      simp only [List.length_cons, List.length_map] at length
      obtain ⟨rfl, same⟩ := List.append_inj' split (by simpa using length)
      obtain rfl := (List.cons.inj same).1
      exact ⟨a, phrase, value.symm⟩
  · rintro ⟨a, h, rfl⟩
    have found := ((reads _ complete).ok a _).2 ⟨_, _, _, rfl, rfl, h⟩
    rw [found] at same
    obtain ⟨vs, u, others', split, left, phrase⟩ := (here _ _).1 same
    rw [List.map_cons] at left
    rw [← left] at split
    obtain rfl := List.append_cancel_right split
    obtain rfl := (List.cons.inj left).1
    exact phrase

theorem attempt_some {S : Phrase Statement} {ws : List Token} {s : Statement} :
    Attempt S next ws (some s) ↔ S next ws s := by
  constructor
  · intro h
    cases h with
    | statement h => exact h
  · exact .statement

/-- Moved tokens are a statement exactly if the tokens are one themselves. -/
theorem isStatement_move {ws : List Token} (inner : ∀ t ∈ ws, t.kind ≠ .eof) {s' : Statement} :
    IsStatement (next.move m) (ws.map (Token.move m)) s' ↔
      ∃ s, IsStatement next ws s ∧ s.move m = s' := by
  have within (depth : Nat) :
      Attempt (Within depth) (next.move m) (ws.map (Token.move m)) (some s') ↔
      ∃ o, Attempt (Within depth) next ws o ∧ o.map (Statement.move m) = some s' :=
    phrase_move (reads_statementWithin depth) (reads_statementWithin depth)
      (moves_statementWithin depth) inner
  constructor
  · intro h
    obtain ⟨o, attempt, moved⟩ := (within s'.nesting).1 (attempt_some.2 ⟨h, Nat.le_refl _⟩)
    obtain ⟨s, rfl, same⟩ := Option.map_eq_some_iff.1 moved
    exact ⟨s, (attempt_some.1 attempt).1, same⟩
  · rintro ⟨s, h, rfl⟩
    have attempt := attempt_some.2 (show Within s.nesting next ws s from ⟨h, Nat.le_refl _⟩)
    exact (attempt_some.1 ((within s.nesting).2 ⟨some s, attempt, rfl⟩)).1

theorem isBlock_move {ws : List Token} (inner : ∀ t ∈ ws, t.kind ≠ .eof) {ss : List Statement}
    (h : IsBlock IsStatement next ws ss) :
    IsBlock IsStatement (next.move m) (ws.map (Token.move m)) (ss.map (Statement.move m)) := by
  induction h with
  | nil => exact .nil
  | newline kind _ ih => exact .newline kind (ih (List.forall_mem_cons.1 inner).2)
  | comment kind _ ih => exact .comment kind (ih (List.forall_mem_cons.1 inner).2)
  | statement first _ ih =>
    obtain ⟨left, right⟩ := List.forall_mem_append.1 inner
    rw [List.map_append]
    refine .statement ?_ (ih right)
    rw [follow_move]
    exact (isStatement_move left).2 ⟨_, first, rfl⟩
  | separated first kind _ ih =>
    obtain ⟨left, right⟩ := List.forall_mem_append.1 inner
    rw [List.map_append]
    exact .separated ((isStatement_move left).2 ⟨_, first, rfl⟩) kind
      (ih (List.forall_mem_cons.1 right).2)

/-- A block of moved tokens was one before. -/
theorem exists_isBlock_of_move {ws : List Token} (inner : ∀ t ∈ ws, t.kind ≠ .eof)
    {ss' : List Statement}
    (h : IsBlock IsStatement (next.move m) (ws.map (Token.move m)) ss') :
    ∃ ss, IsBlock IsStatement next ws ss ∧ ss.map (Statement.move m) = ss' := by
  generalize moved : ws.map (Token.move m) = ws' at h
  generalize behind : next.move m = next' at h
  induction h generalizing ws with
  | nil =>
    obtain rfl := List.map_eq_nil_iff.1 moved
    exact ⟨[], .nil, rfl⟩
  | newline kind _ ih =>
    obtain ⟨t, ts, rfl, rfl, others⟩ := List.map_eq_cons_iff.1 moved
    obtain ⟨ss, block, same⟩ := ih (List.forall_mem_cons.1 inner).2 others behind
    exact ⟨ss, .newline kind block, same⟩
  | comment kind _ ih =>
    obtain ⟨t, ts, rfl, rfl, others⟩ := List.map_eq_cons_iff.1 moved
    obtain ⟨ss, block, same⟩ := ih (List.forall_mem_cons.1 inner).2 others behind
    exact ⟨ss, .comment kind block, same⟩
  | statement first _ ih =>
    obtain ⟨us, vs, rfl, rfl, others⟩ := List.map_eq_append_iff.1 moved
    obtain ⟨left, right⟩ := List.forall_mem_append.1 inner
    obtain ⟨ss, block, rfl⟩ := ih right others behind
    rw [← others, ← behind, follow_move] at first
    obtain ⟨s, statement, rfl⟩ := (isStatement_move left).1 first
    exact ⟨s :: ss, .statement statement block, rfl⟩
  | separated first kind _ ih =>
    obtain ⟨us, vs, rfl, rfl, rest⟩ := List.map_eq_append_iff.1 moved
    obtain ⟨t, ts, rfl, rfl, others⟩ := List.map_eq_cons_iff.1 rest
    obtain ⟨left, right⟩ := List.forall_mem_append.1 inner
    obtain ⟨ss, block, rfl⟩ := ih (List.forall_mem_cons.1 right).2 others behind
    obtain ⟨s, statement, rfl⟩ := (isStatement_move left).1 first
    exact ⟨s :: ss, .separated statement kind block, rfl⟩

end Moved

/-! ## Another token behind -/

/-- No command and no pipeline goes on with this token. -/
structure Token.Parts (t : Token) : Prop where
  no_argument : t.isWordLike = false
  no_redirection : t.kind.isRedirection = false
  no_pipe : t.kind ≠ .pipe

theorem Token.Parts.of_kind {t : Token} {k : Kind} (kind : t.kind = k)
    (no_argument : k.isWordLike = false) (no_redirection : k.isRedirection = false)
    (no_pipe : k ≠ .pipe) : t.Parts := by
  subst kind
  exact ⟨no_argument, no_redirection, no_pipe⟩

section Behind

variable {t u : Token} {ws : List Token}

/-- The parts of a command in front of another token, where redirections reach elsewhere. -/
theorem exists_isParts {parts : List Part} (h : IsParts t ws parts) (u : Token) :
    ∃ parts', IsParts u ws parts' ∧ parts'.filterMap Part.text? = parts.filterMap Part.text? ∧
      parts'.filterMap Part.expr? = parts.filterMap Part.expr? ∧
      (parts'.filterMap Part.redirection?).map Redirection.unplaced =
        (parts.filterMap Part.redirection?).map Redirection.unplaced := by
  induction h with
  | nil => exact ⟨[], .nil, rfl, rfl, rfl⟩
  | argument first _ ih =>
    obtain ⟨parts, others, texts, exprs, redirections⟩ := ih
    exact ⟨_, .argument first others, congrArg (_ :: ·) texts, congrArg (_ :: ·) exprs, redirections⟩
  | redirection first _ ih =>
    obtain ⟨parts, others, texts, exprs, redirections⟩ := ih
    cases first with
    | mk kind target =>
      exact ⟨_, .redirection (.mk kind target) others, texts, exprs,
        congrArg (_ :: ·) redirections⟩

theorem exists_isCommand {c : Command} (h : IsCommand t ws c) (ends : u.Parts) :
    ∃ c', IsCommand u ws c' ∧ c'.unplaced = c.unplaced := by
  cases h with
  | mk kind inside =>
    obtain ⟨parts, others, texts, exprs, redirections⟩ := exists_isParts inside u
    refine ⟨_, .mk kind others ends.no_argument ends.no_redirection, ?_⟩
    simp only [Command.unplaced, texts, exprs, redirections]

/-- A command in front of other tokens, or in front of the token behind them all. -/
theorem exists_isCommand_follow {us : List Token} {c : Command}
    (h : IsCommand (follow ws t) us c) (ends : u.Parts) :
    ∃ c', IsCommand (follow ws u) us c' ∧ c'.unplaced = c.unplaced := by
  cases ws with
  | nil => exact exists_isCommand h ends
  | cons w ws => exact ⟨c, h, rfl⟩

theorem exists_isPiped {cs : List Command} (h : IsPiped t ws cs) (ends : u.Parts) :
    ∃ cs', IsPiped u ws cs' ∧ cs'.map Command.unplaced = cs.map Command.unplaced := by
  induction h with
  | nil => exact ⟨[], .nil ends.no_pipe, rfl⟩
  | cons kind first _ ih =>
    obtain ⟨cs, others, same⟩ := ih
    obtain ⟨c, command, same'⟩ := exists_isCommand_follow first ends
    refine ⟨c :: cs, .cons kind command others, ?_⟩
    rw [List.map_cons, List.map_cons, same, same']

theorem exists_isPipeline {s : Statement} (h : IsPipeline t ws s) (ends : u.Parts) :
    ∃ s', IsPipeline u ws s' ∧ s'.unplaced = s.unplaced := by
  cases h with
  | command only =>
    obtain ⟨c, command, same⟩ := exists_isCommand only ends
    exact ⟨_, .command command ends.no_pipe, congrArg Statement.command same⟩
  | pipeline first others =>
    obtain ⟨cs, piped, same⟩ := exists_isPiped others ends
    obtain ⟨c, command, same'⟩ := exists_isCommand_follow first ends
    cases cs with
    | nil => simp at same
    | cons d cs =>
      obtain ⟨second, rest⟩ := List.cons.inj same
      refine ⟨_, .pipeline command piped, ?_⟩
      simp only [Statement.unplaced, same', second, rest]

/-- A statement is one in front of any token that ends it, up to positions. -/
theorem exists_isStatement {s : Statement} (h : IsStatement t ws s) (ends : u.Parts) :
    ∃ s', IsStatement u ws s' ∧ s'.unplaced = s.unplaced := by
  cases h with
  | assignment h =>
    cases h with
    | mk kind sign value => exact ⟨_, .assignment (.mk kind sign value), rfl⟩
  | pipeline h other =>
    obtain ⟨s, pipeline, same⟩ := exists_isPipeline h ends
    exact ⟨s, .pipeline pipeline other, same⟩
  | conditional h =>
    cases h with
    | noElse if_kind header then_kind then_body fi_kind =>
      exact ⟨_, .conditional (.noElse if_kind header then_kind then_body fi_kind), rfl⟩
    | withElse if_kind header then_kind then_body else_kind else_body fi_kind =>
      exact ⟨_, .conditional (.withElse if_kind header then_kind then_body else_kind else_body
        fi_kind), rfl⟩
  | loop h =>
    cases h with
    | forIn for_kind name_kind in_word header do_kind inside done_kind =>
      exact ⟨_, .loop (.forIn for_kind name_kind in_word header do_kind inside done_kind), rfl⟩
    | whileDo while_kind header do_kind inside done_kind =>
      exact ⟨_, .loop (.whileDo while_kind header do_kind inside done_kind), rfl⟩
  | function h =>
    cases h with
    | mk function_kind name_kind lparen_kind rparen_kind lbrace_kind inside rbrace_kind =>
      exact ⟨_, .function (.mk function_kind name_kind lparen_kind rparen_kind lbrace_kind inside
        rbrace_kind), rfl⟩

theorem exists_within {depth : Nat} {s : Statement} (h : Within depth t ws s) (ends : u.Parts) :
    ∃ s', Within depth u ws s' ∧ s'.unplaced = s.unplaced := by
  obtain ⟨s', statement, same⟩ := exists_isStatement h.1 ends
  refine ⟨s', ⟨statement, ?_⟩, same⟩
  rw [← Statement.nesting_unplaced, same, Statement.nesting_unplaced]
  exact h.2

/-- Only the last statement of a block sees the token behind it. -/
theorem exists_isBlock {S : Phrase Statement}
    (renewed : ∀ {us s}, S t us s → ∃ s', S u us s' ∧ s'.unplaced = s.unplaced)
    {ss : List Statement} (h : IsBlock S t ws ss) :
    ∃ ss', IsBlock S u ws ss' ∧ Statement.unplacedAll ss' = Statement.unplacedAll ss := by
  induction h with
  | nil => exact ⟨[], .nil, rfl⟩
  | newline kind _ ih =>
    obtain ⟨ss, block, same⟩ := ih renewed
    exact ⟨ss, .newline kind block, same⟩
  | comment kind _ ih =>
    obtain ⟨ss, block, same⟩ := ih renewed
    exact ⟨ss, .comment kind block, same⟩
  | @statement _ us ws s ss first _ ih =>
    obtain ⟨ss, block, same⟩ := ih renewed
    cases ws with
    | nil =>
      obtain ⟨s, statement, same'⟩ := renewed first
      exact ⟨s :: ss, .statement statement block, by simp only [Statement.unplacedAll, same, same']⟩
    | cons w ws =>
      exact ⟨s :: ss, .statement first block, by simp only [Statement.unplacedAll, same]⟩
  | @separated _ _ _ _ s _ first kind _ ih =>
    obtain ⟨ss, block, same⟩ := ih renewed
    exact ⟨s :: ss, .separated first kind block, by simp only [Statement.unplacedAll, same]⟩

end Behind

/-! ## A line feed at the end of a block -/

section LineFeed

variable {next feed : Token} {ws : List Token} {ss : List Statement}

/-- A block behind a block. -/
theorem isBlock_append {S : Phrase Statement} {us vs : List Token} {first others : List Statement}
    (left : IsBlock S (follow vs next) us first) (right : IsBlock S next vs others) :
    IsBlock S next (us ++ vs) (first ++ others) := by
  generalize behind : follow vs next = u at left
  induction left with
  | nil => exact right
  | newline kind _ ih => exact .newline kind (ih behind)
  | comment kind _ ih => exact .comment kind (ih behind)
  | statement s _ ih =>
    rw [List.append_assoc]
    refine .statement ?_ (ih behind)
    rw [follow_append, behind]
    exact s
  | separated s kind _ ih =>
    rw [List.append_assoc]
    exact .separated s kind (ih behind)

/-- A line feed behind a block becomes its last token. -/
theorem isBlock_concat {S : Phrase Statement} (kind : feed.kind = .newline)
    (h : IsBlock S feed ws ss) : IsBlock S next (ws ++ [feed]) ss := by
  have last : IsBlock S next [feed] [] := .newline kind .nil
  have whole := isBlock_append h last
  rwa [List.append_nil] at whole

theorem isParts_concat {parts : List Part} {us : List Token} {t : Token}
    (h : IsParts next (us ++ [t]) parts) : t.isWordLike = true := by
  generalize split : us ++ [t] = ws at h
  induction h generalizing us with
  | nil => simp at split
  | @argument _ v _ ws _ first _ ih =>
    cases us with
    | nil =>
      obtain ⟨rfl, rfl⟩ := List.cons.inj split
      exact isWordLike_iff.2 ⟨_, first⟩
    | cons u us => exact ih (List.cons.inj split).2
  | @redirection _ _ ws _ _ first _ ih =>
    cases first with
    | mk kind target =>
      rcases us with _ | ⟨u, _ | ⟨v, us⟩⟩
      · simp at split
      · simp only [List.cons_append, List.nil_append, List.cons.injEq] at split
        obtain ⟨-, rfl, -⟩ := split
        exact isWordLike_iff.2 ⟨_, target⟩
      · simp only [List.cons_append, List.nil_append, List.cons.injEq] at split
        exact ih split.2.2

theorem isCommand_concat {c : Command} {us : List Token} {t : Token}
    (h : IsCommand next (us ++ [t]) c) : t.isWordLike = true := by
  generalize split : us ++ [t] = ws at h
  cases h with
  | mk kind inside =>
    cases us with
    | nil =>
      obtain ⟨rfl, -⟩ := List.cons.inj split
      exact isWordLike_iff.2 ⟨_, .word kind⟩
    | cons u us =>
      obtain ⟨-, rfl⟩ := List.cons.inj split
      exact isParts_concat inside

theorem isPiped_concat {cs : List Command} {us : List Token} {t : Token}
    (h : IsPiped next (us ++ [t]) cs) : t.isWordLike = true := by
  generalize split : us ++ [t] = ws at h
  induction h generalizing us with
  | nil => simp at split
  | @cons _ _ vs ws _ _ _ first others ih =>
    cases ws using List.reverseRecOn with
    | nil =>
      cases vs using List.reverseRecOn with
      | nil => cases first
      | append_singleton vs v =>
        rw [List.append_nil, ← List.cons_append] at split
        obtain ⟨-, rfl⟩ := List.append_singleton_inj.1 split
        exact isCommand_concat first
    | append_singleton ws w =>
      rw [← List.append_assoc] at split
      obtain ⟨-, rfl⟩ := List.append_singleton_inj.1 split
      exact ih rfl

/-- A statement that holds no other ends in an expression, and any other in its closer. -/
theorem isStatement_concat {s : Statement} {us : List Token} {t : Token}
    (h : IsStatement next (us ++ [t]) s) : t.kind ≠ .newline := by
  have expression {v : Token} (like : v.isWordLike = true) : v.kind ≠ .newline := by
    intro kind
    rw [Token.isWordLike, kind] at like
    cases like
  have last {vs : List Token} {v : Token} {k : Kind} (split : us ++ [t] = vs ++ [v])
      (kind : v.kind = k) (other : k ≠ .newline) : t.kind ≠ .newline := by
    obtain ⟨-, same⟩ := List.append_singleton_inj.1 split
    rw [same, kind]
    exact other
  generalize split : us ++ [t] = ws at h
  cases h with
  | assignment h =>
    cases h with
    | @mk _ name equals u e kind sign value =>
      obtain ⟨-, rfl⟩ :=
        List.append_singleton_inj.1 (split.trans (List.append_cons [name] equals [u]))
      exact expression (isWordLike_iff.2 ⟨e, value⟩)
  | pipeline h =>
    cases h with
    | command only => exact expression (isCommand_concat (split ▸ only))
    | @pipeline _ vs ws _ _ _ first others =>
      cases ws using List.reverseRecOn with
      | nil => cases others
      | append_singleton ws w =>
        rw [← List.append_assoc] at split
        obtain ⟨-, rfl⟩ := List.append_singleton_inj.1 split
        exact expression (isPiped_concat others)
  | conditional h =>
    cases h with
    | noElse _ _ _ _ kind => exact last split kind Kind.noConfusion
    | withElse _ _ _ _ _ _ kind => exact last split kind Kind.noConfusion
  | loop h =>
    cases h with
    | forIn _ _ _ _ _ _ kind => exact last split kind Kind.noConfusion
    | whileDo _ _ _ _ kind => exact last split kind Kind.noConfusion
  | function h =>
    cases h with
    | mk _ _ _ _ _ _ kind => exact last split kind Kind.noConfusion

/-- A statement takes a token. -/
theorem eq_nil_of_isBlock {S : Phrase Statement} (opens : Opens S) (h : IsBlock S next [] ss) :
    ss = [] := by
  generalize empty : [] = ws at h
  cases h with
  | nil => rfl
  | newline => cases empty
  | comment => cases empty
  | statement first =>
    obtain ⟨t, ts, rfl, -⟩ := opens _ _ _ first
    cases empty
  | separated first =>
    obtain ⟨t, ts, rfl, -⟩ := opens _ _ _ first
    cases empty

/-- A line feed in front of a block says nothing. -/
theorem isBlock_of_cons {S : Phrase Statement} (opens : Opens S) (kind : feed.kind = .newline)
    (h : IsBlock S next (feed :: ws) ss) : IsBlock S next ws ss := by
  have other {us vs : List Token} {t : Token} {s : Statement} (first : S t us s)
      (split : feed :: ws = us ++ vs) : False := by
    obtain ⟨u, us, rfl, starts⟩ := opens _ _ _ first
    rw [← (List.cons.inj split).1, kind] at starts
    cases starts
  generalize split : feed :: ws = ts at h
  cases h with
  | nil => cases split
  | newline _ others =>
    obtain ⟨-, rfl⟩ := List.cons.inj split
    exact others
  | comment kind' =>
    rw [← (List.cons.inj split).1, kind] at kind'
    cases kind'
  | statement first => exact (other first split).elim
  | separated first => exact (other first split).elim

/-- The tokens of a block without statements. -/
theorem blank_of_isBlock {S : Phrase Statement} (h : IsBlock S next ws []) :
    ∀ t ∈ ws, t.kind = .newline ∨ t.kind = .comment := by
  generalize none_inside : [] = ss at h
  induction h with
  | nil => simp
  | newline kind _ ih => exact List.forall_mem_cons.2 ⟨Or.inl kind, ih none_inside⟩
  | comment kind _ ih => exact List.forall_mem_cons.2 ⟨Or.inr kind, ih none_inside⟩
  | statement => cases none_inside
  | separated => cases none_inside

/-- The line feed at the end of a block stands behind a block. -/
theorem isBlock_of_concat (kind : feed.kind = .newline)
    (h : IsBlock IsStatement next (ws ++ [feed]) ss) : IsBlock IsStatement feed ws ss := by
  generalize split : ws ++ [feed] = ts at h
  induction h generalizing ws with
  | nil => simp at split
  | newline kind' others ih =>
    cases ws with
    | nil =>
      obtain ⟨rfl, rfl⟩ := List.cons.inj split
      rw [eq_nil_of_isBlock opens_isStatement others]
      exact .nil
    | cons w ws =>
      obtain ⟨rfl, rest⟩ := List.cons.inj split
      exact .newline kind' (ih rest)
  | comment kind' others ih =>
    cases ws with
    | nil =>
      obtain ⟨rfl, -⟩ := List.cons.inj split
      rw [kind] at kind'
      cases kind'
    | cons w ws =>
      obtain ⟨rfl, rest⟩ := List.cons.inj split
      exact .comment kind' (ih rest)
  | @statement _ us vs s ss first _ ih =>
    cases vs using List.reverseRecOn with
    | nil =>
      rw [List.append_nil] at split
      exact absurd kind (isStatement_concat (split ▸ first))
    | append_singleton vs v =>
      rw [← List.append_assoc] at split
      obtain ⟨rfl, rfl⟩ := List.append_singleton_inj.1 split
      rw [follow_append] at first
      exact .statement first (ih rfl)
  | @separated _ t us vs s ss first kind' others ih =>
    cases vs using List.reverseRecOn with
    | nil =>
      obtain ⟨rfl, rfl⟩ := List.append_singleton_inj.1 split
      rw [eq_nil_of_isBlock opens_isStatement others]
      have alone : IsBlock IsStatement feed (ws ++ []) [s] := .statement first .nil
      rwa [List.append_nil] at alone
    | append_singleton vs v =>
      rw [← List.cons_append, ← List.append_assoc] at split
      obtain ⟨rfl, rfl⟩ := List.append_singleton_inj.1 split
      exact .separated first kind' (ih rfl)

end LineFeed

end ShellScript
