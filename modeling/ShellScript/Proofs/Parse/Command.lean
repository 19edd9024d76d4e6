/-
# ShellScript.Proofs.Parse.Command -- the parsers of simple statements read the grammar

Each parser of an expression, a command, a pipeline or an assignment reads exactly
the phrases of its rule.  The loops take words, redirections and commands for as
long as there are any, which is the side condition on the token behind.
-/
import ShellScript.Proofs.Grammar

namespace ShellScript.Parse

set_option autoImplicit false

open Grammar

/-! ## Expressions -/

theorem isWordLike_iff {t : Token} : t.isWordLike = true ↔ ∃ e, IsExpr t e := by
  constructor
  · intro like
    cases kind : t.kind <;>
      simp only [Token.isWordLike, Kind.isWordLike, kind, Bool.false_eq_true] at like
    · exact ⟨_, .word kind⟩
    · exact ⟨_, .quoted kind⟩
    · exact ⟨_, .reference kind⟩
  · rintro ⟨e, h⟩
    cases h <;> next kind => simp [Token.isWordLike, Kind.isWordLike, kind]

theorem kind_ne_eof_of_isExpr {t : Token} {e : Expr} (h : IsExpr t e) : t.kind ≠ .eof := by
  cases h <;> next kind => rw [kind]; exact Kind.noConfusion

theorem expression_of_isExpr {t : Token} {e : Expr} (h : IsExpr t e) (ts : List Token) :
    expression (t :: ts) = .ok e ts := by
  have taken := advance_cons (kind_ne_eof_of_isExpr h) ts
  cases h <;> next kind =>
    simp only [expression, bind, EStateM.bind, peek, kind, taken, pure, EStateM.pure]

theorem expression_of_not_isWordLike {t : Token} (plain : t.isWordLike = false)
    (ts : List Token) : expression (t :: ts) = .error (.malformed (.noExpression t)) (t :: ts) := by
  simp only [expression, bind, EStateM.bind, peek]
  unfold Token.isWordLike at plain
  cases kind : t.kind <;> rw [kind] at plain
  case word => cases plain
  case quotedString => cases plain
  case reference => cases plain
  all_goals rfl

theorem reads_expression : Reads expression (Phrase.single IsExpr) := by
  refine Reads.single (fun t ts e h => ⟨kind_ne_eof_of_isExpr h, expression_of_isExpr h ts⟩) ?_
  intro t ts other
  have plain : t.isWordLike = false := by
    rw [← isWordLike_iff] at other
    simpa using other
  exact ⟨_, expression_of_not_isWordLike plain ts,
    .malformed (e := .noExpression t) fun _ _ => SyntaxError.noConfusion⟩

/-- An expression, or nothing in front of a token that starts none. -/
abbrev OptionalExpr : Phrase (Option Expr) := fun next ws o =>
  (∃ t e, ws = [t] ∧ IsExpr t e ∧ o = some e) ∨ (ws = [] ∧ next.isWordLike = false ∧ o = none)

theorem OptionalExpr.ne_nil {next : Token} {ws : List Token} {e : Expr}
    (h : OptionalExpr next ws (some e)) : ws ≠ [] := by
  rcases h with ⟨t, e', rfl, -, -⟩ | ⟨-, -, none_eq⟩
  · exact List.cons_ne_nil t []
  · cases none_eq

theorem reads_expression? : Reads expression? OptionalExpr := by
  refine (reads_peek.bind fun t => Reads.ite
    (fun _ => (reads_expression).bind fun e => .pure (some e)) fun _ => .pure none).congr ?_
  intro next ws o
  rw [Phrase.bind_ask, Phrase.bind_pure]
  constructor
  · rintro (⟨-, e, ⟨t, rfl, h⟩, rfl⟩ | ⟨plain, rfl, rfl⟩)
    · exact Or.inl ⟨t, e, rfl, h, rfl⟩
    · exact Or.inr ⟨rfl, by simpa using plain, rfl⟩
  · rintro (⟨t, e, rfl, h, rfl⟩ | ⟨rfl, plain, rfl⟩)
    · exact Or.inl ⟨isWordLike_iff.2 ⟨e, h⟩, e, ⟨t, rfl, h⟩, rfl⟩
    · exact Or.inr ⟨by simp [plain], rfl, rfl⟩

theorem reads_trailingWords :
    Reads trailingWords fun next ws es => List.Forall₂ IsExpr ws es ∧ next.isWordLike = false := by
  refine (reads_expression?.many fun _ _ _ => OptionalExpr.ne_nil).congr fun next ws es => ?_
  constructor
  · intro h
    induction h with
    | stop last =>
      rcases last with ⟨t, e, -, -, some_eq⟩ | ⟨rfl, plain, -⟩
      · cases some_eq
      · exact ⟨.nil, plain⟩
    | more first _ ih =>
      rcases first with ⟨t, e, rfl, h, same⟩ | ⟨-, -, none_eq⟩
      · cases same
        exact ⟨.cons h ih.1, ih.2⟩
      · cases none_eq
  · rintro ⟨all, plain⟩
    induction all with
    | nil => exact .stop (Or.inr ⟨rfl, plain, rfl⟩)
    | cons h _ ih => exact @Phrase.Many.more _ _ _ [_] _ _ _ (Or.inl ⟨_, _, rfl, h, rfl⟩) ih

/-! ## Commands -/

theorem reads_redirection :
    Reads redirection fun next ws r =>
      ∃ operator t e, ws = [operator, t] ∧ operator.kind ≠ .eof ∧ IsExpr t e ∧
        r = ⟨operator.text, e, Span.reach? operator.position next.position⟩ := by
  refine (reads_advance.bind fun operator => Reads.peek fun t ts complete => ReadsAt.ite
    (fun _ => (reads_expression.bind fun target => (reads_spanFrom operator.position).bind
      fun position => .pure (Redirection.mk operator.text target position)) _ complete)
    fun _ => .refuse rfl (.malformed (e := .missingKind .word "Expected redirection target" t)
      fun _ _ => SyntaxError.noConfusion)).congr ?_
  intro next ws r
  constructor
  · rintro ⟨us, vs, operator, rfl, taken, h⟩
    rcases h with ⟨like, h⟩ | ⟨-, h⟩
    · rw [Phrase.bind_single] at h
      obtain ⟨t, vs, e, rfl, target, h⟩ := h
      rw [Phrase.bind_ask] at h
      obtain ⟨rfl, rfl⟩ := h
      rcases taken with ⟨inner, rfl⟩ | ⟨eof, rfl, rfl⟩
      · exact ⟨operator, t, e, rfl, inner, target, rfl⟩
      · exact absurd eof (kind_ne_eof_of_isExpr target)
    · exact h.elim
  · rintro ⟨operator, t, e, rfl, inner, target, rfl⟩
    refine ⟨[operator], [t], operator, rfl, Or.inl ⟨inner, rfl⟩, Or.inl ?_⟩
    refine ⟨isWordLike_iff.2 ⟨e, target⟩, Phrase.bind_single.2 ⟨t, [], e, rfl, target, ?_⟩⟩
    exact Phrase.bind_ask.2 ⟨rfl, rfl⟩

theorem not_isWordLike_of_isRedirection {k : Kind} (kind : k.isRedirection = true) :
    k.isWordLike = false := by
  revert kind
  cases k <;> decide

/-- An argument or a redirection, or nothing in front of a token that starts neither. -/
abbrev OptionalPart : Phrase (Option Part) := fun next ws o =>
  (∃ t e, ws = [t] ∧ IsExpr t e ∧ o = some (.argument (argumentText t) e)) ∨
    (∃ r, IsRedirection next ws r ∧ o = some (.redirection r)) ∨
    (ws = [] ∧ next.isWordLike = false ∧ next.kind.isRedirection = false ∧ o = none)

theorem OptionalPart.ne_nil {next : Token} {ws : List Token} {p : Part}
    (h : OptionalPart next ws (some p)) : ws ≠ [] := by
  rcases h with ⟨t, e, rfl, -, -⟩ | ⟨r, h, -⟩ | ⟨-, -, -, none_eq⟩
  · exact List.cons_ne_nil t []
  · cases h
    exact List.cons_ne_nil _ _
  · cases none_eq

theorem reads_part? : Reads part? OptionalPart := by
  refine (reads_peek.bind fun t => Reads.ite
    (fun _ => (reads_expression).bind fun e => .pure (some (Part.argument (argumentText t) e)))
    fun _ => Reads.ite
      (fun _ => (reads_redirection).bind fun r => .pure (some (Part.redirection r)))
      fun _ => .pure none).congr ?_
  intro next ws o
  rw [Phrase.bind_ask]
  simp only [Phrase.bind_pure, Phrase.pure_iff, Phrase.single, id]
  constructor
  · rintro (⟨-, e, ⟨t, rfl, h⟩, rfl⟩ | ⟨plain, ⟨kind, r, ⟨op, t, e, rfl, -, h, rfl⟩, rfl⟩ |
      ⟨kind, rfl, rfl⟩⟩)
    · exact Or.inl ⟨t, e, rfl, h, rfl⟩
    · exact Or.inr (Or.inl ⟨_, .mk kind h, rfl⟩)
    · exact Or.inr (Or.inr ⟨rfl, by simpa using plain, by simpa using kind, rfl⟩)
  · rintro (⟨t, e, rfl, h, rfl⟩ | ⟨r, h, rfl⟩ | ⟨rfl, plain, kind, rfl⟩)
    · exact Or.inl ⟨isWordLike_iff.2 ⟨e, h⟩, e, ⟨t, rfl, h⟩, rfl⟩
    · cases h with
      | @mk _ op t e kind h =>
        have inner : op.kind ≠ .eof := by
          intro eof
          rw [eof] at kind
          cases kind
        have plain : ¬ op.isWordLike = true := by
          show ¬ op.kind.isWordLike = true
          rw [not_isWordLike_of_isRedirection kind]
          exact Bool.false_ne_true
        exact Or.inr ⟨plain, Or.inl ⟨kind, _, ⟨op, t, e, rfl, inner, h, rfl⟩, rfl⟩⟩
    · exact Or.inr ⟨by simp [plain], Or.inr ⟨by simp [kind], rfl, rfl⟩⟩

theorem reads_parts :
    Reads (many part?) fun next ws parts =>
      IsParts next ws parts ∧ next.isWordLike = false ∧ next.kind.isRedirection = false := by
  refine (reads_part?.many fun _ _ _ => OptionalPart.ne_nil).congr fun next ws parts => ?_
  constructor
  · intro h
    induction h with
    | stop last =>
      rcases last with ⟨t, e, -, -, some_eq⟩ | ⟨r, -, some_eq⟩ | ⟨rfl, plain, kind, -⟩
      · cases some_eq
      · cases some_eq
      · exact ⟨.nil, plain, kind⟩
    | more first _ ih =>
      rcases first with ⟨t, e, rfl, h, same⟩ | ⟨r, h, same⟩ | ⟨-, -, -, none_eq⟩
      · cases same
        exact ⟨.argument h ih.1, ih.2⟩
      · cases same
        exact ⟨.redirection h ih.1, ih.2⟩
      · cases none_eq
  · rintro ⟨all, plain, kind⟩
    induction all with
    | nil => exact .stop (Or.inr (Or.inr ⟨rfl, plain, kind, rfl⟩))
    | argument h _ ih =>
      exact @Phrase.Many.more _ _ _ [_] _ _ _ (Or.inl ⟨_, _, rfl, h, rfl⟩) (ih plain kind)
    | redirection h _ ih => exact .more (Or.inr (Or.inl ⟨_, h, rfl⟩)) (ih plain kind)

theorem reads_command : Reads command IsCommand := by
  refine ((reads_expect Kind.noConfusion _).bind fun name => (reads_parts).bind fun parts =>
    (reads_spanFrom name.position).bind fun position => .pure (Command.mk name.text
      (parts.filterMap Part.text?) (parts.filterMap Part.expr?)
      (parts.filterMap Part.redirection?) position)).congr ?_
  intro next ws c
  rw [Phrase.bind_single]
  constructor
  · rintro ⟨name, _, _, rfl, ⟨kind, rfl⟩, us, vs, parts, rfl, ⟨inside, plain, other⟩, h⟩
    obtain ⟨rfl, rfl⟩ := Phrase.bind_ask.1 h
    rw [List.append_nil]
    exact .mk kind inside plain other
  · intro h
    cases h with
    | @mk _ name ws parts kind inside plain other =>
      refine ⟨name, ws, name, rfl, ⟨kind, rfl⟩, ws, [], parts, by rw [List.append_nil],
        ⟨inside, plain, other⟩, Phrase.bind_ask.2 ⟨rfl, rfl⟩⟩

/-! ## Pipelines and assignments -/

/-- A command behind a `|`, or nothing in front of another token. -/
abbrev OptionalPiped : Phrase (Option Command) := fun next ws o =>
  (∃ bar us c, ws = bar :: us ∧ bar.kind = .pipe ∧ IsCommand next us c ∧ o = some c) ∨
    (ws = [] ∧ next.kind ≠ .pipe ∧ o = none)

theorem OptionalPiped.ne_nil {next : Token} {ws : List Token} {c : Command}
    (h : OptionalPiped next ws (some c)) : ws ≠ [] := by
  rcases h with ⟨bar, us, c', rfl, -, -, -⟩ | ⟨-, -, none_eq⟩
  · exact List.cons_ne_nil bar us
  · cases none_eq

theorem reads_pipedCommand? : Reads pipedCommand? OptionalPiped :=
  reads_optional Kind.noConfusion reads_command

theorem reads_pipedCommands : Reads (many pipedCommand?) IsPiped := by
  refine (reads_pipedCommand?.many fun _ _ _ => OptionalPiped.ne_nil).congr fun next ws cs => ?_
  constructor
  · intro h
    induction h with
    | stop last =>
      rcases last with ⟨bar, us, c, -, -, -, some_eq⟩ | ⟨rfl, kind, -⟩
      · cases some_eq
      · exact .nil kind
    | more first _ ih =>
      rcases first with ⟨bar, us, c, rfl, kind, h, same⟩ | ⟨-, -, none_eq⟩
      · cases same
        exact .cons kind h ih
      · cases none_eq
  · intro h
    induction h with
    | nil kind => exact .stop (Or.inr ⟨rfl, kind, rfl⟩)
    | cons kind h _ ih => exact .more (Or.inl ⟨_, _, _, rfl, kind, h, rfl⟩) ih

theorem reads_pipeline : Reads pipeline IsPipeline := by
  refine (reads_command.bind fun first => Reads.bind (H := fun cs next ws s => ws = [] ∧
    ((cs = [] ∧ s = .command first) ∨ ∃ second others, cs = second :: others ∧
      s = .pipeline first second others (Span.reach? first.position next.position)))
    reads_pipedCommands fun cs => ?later).congr ?_
  case later =>
    cases cs with
    | nil => exact (Reads.pure _).congr fun next ws s => by simp
    | cons second others =>
      exact ((reads_spanFrom first.position).bind fun p => .pure _).congr fun next ws s => by simp
  intro next ws s
  constructor
  · rintro ⟨us, _, c, rfl, first, vs, _, cs, rfl, others, rfl, ⟨rfl, rfl⟩ | ⟨d, ds, rfl, rfl⟩⟩
    · cases others with
      | nil kind =>
        rw [List.append_nil, List.append_nil]
        exact .command first kind
    · rw [List.append_nil] at first ⊢
      exact .pipeline first others
  · intro h
    cases h with
    | command first kind =>
      exact ⟨ws, [], _, by rw [List.append_nil], first, [], [], [], rfl, .nil kind, rfl,
        Or.inl ⟨rfl, rfl⟩⟩
    | @pipeline _ us vs c d cs first others =>
      exact ⟨us, vs, c, rfl, first, vs, [], d :: cs, by rw [List.append_nil], others, rfl,
        Or.inr ⟨d, cs, rfl, rfl⟩⟩

/-- An assignment, whatever stands in the place of its name. -/
theorem reads_assignment :
    Reads assignment fun next ws s =>
      ∃ name equals t e, ws = [name, equals, t] ∧ name.kind ≠ .eof ∧ equals.isWord "=" = true ∧
        IsExpr t e ∧ s = .assignment name.text e (Span.reach? name.position next.position) := by
  refine (reads_advance.bind fun name => (reads_expectWord "=").bind fun _ =>
    (reads_expression).bind fun value => (reads_spanFrom name.position).bind fun position =>
      .pure (Statement.assignment name.text value position)).congr ?_
  intro next ws s
  constructor
  · rintro ⟨us, vs, name, rfl, taken, h⟩
    obtain ⟨_, _, equals, rfl, ⟨sign, rfl⟩, behind⟩ := Phrase.bind_single.1 h
    obtain ⟨t, _, e, rfl, value, last⟩ := Phrase.bind_single.1 behind
    obtain ⟨rfl, rfl⟩ := Phrase.bind_ask.1 last
    rcases taken with ⟨inner, rfl⟩ | ⟨eof, rfl, rfl⟩
    · exact ⟨name, equals, t, e, rfl, inner, sign, value, rfl⟩
    · rw [(kind_of_isWord sign).1] at eof
      cases eof
  · rintro ⟨name, equals, t, e, rfl, inner, sign, value, rfl⟩
    exact ⟨[name], [equals, t], name, rfl, Or.inl ⟨inner, rfl⟩,
      Phrase.bind_single.2 ⟨equals, [t], equals, rfl, ⟨sign, rfl⟩,
        Phrase.bind_single.2 ⟨t, [], e, rfl, value, Phrase.bind_ask.2 ⟨rfl, rfl⟩⟩⟩⟩

end ShellScript.Parse
