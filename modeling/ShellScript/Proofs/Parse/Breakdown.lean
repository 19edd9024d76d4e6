/-
# ShellScript.Proofs.Parse.Breakdown -- the parsers fail as the grammar breaks

Each parser fails exactly where its rule is broken off, with the failure of the broken rule.
The failures are read off the parts of a parser, as its phrases are; so is the bound on the
depth (`fails_statementWithin`), by induction on it.
-/
import ShellScript.Proofs.Breakdown

namespace ShellScript.Parse

set_option autoImplicit false

open Grammar

/-! ## Loops and expressions -/

/-- A loop whose step never fails. -/
theorem Fails.many_never {α : Type} {step : Parse (Option α)} {G : Phrase (Option α)}
    (reads : Reads step G) (progress : ∀ next ws a, G next ws (some a) → ws ≠ [])
    (fails : Fails step Phrase.never) : Fails (Parse.many step) Phrase.never := by
  refine (many reads progress fails).congr fun t ws e => ⟨?_, False.elim⟩
  rintro ⟨_, _, _, _, _, h⟩
  exact h

theorem fails_expression :
    Fails expression
      (Phrase.refuse (·.isWordLike = false) fun t => .malformed (.noExpression t)) := by
  refine .refuse (fun t ts like => ?_) fun t ts plain => expression_of_not_isWordLike plain ts
  obtain ⟨e, h⟩ := isWordLike_iff.1 (by simpa using like)
  exact ⟨e, ts, expression_of_isExpr h ts⟩

theorem fails_expression? : Fails expression? Phrase.never := by
  refine (Fails.peek fun u ts complete => FailsAt.ite
    (fun _ => (fails_expression.andThen reads_expression fun e => .pure (some e)) _ complete)
    fun _ => .never rfl).congr fun t ws e => ⟨?_, False.elim⟩
  rintro (⟨like, rfl, plain, -⟩ | ⟨-, h⟩)
  · rw [follow_nil, plain] at like
    cases like
  · exact h

theorem fails_trailingWords : Fails trailingWords Phrase.never :=
  (fails_expression?).many_never reads_expression? fun _ _ _ => OptionalExpr.ne_nil

theorem fails_headerSeparators : Fails headerSeparators Phrase.never := by
  have step : Fails headerSeparator? Phrase.never := by
    refine (Fails.peek fun u ts complete => FailsAt.ite
      (fun _ => (fails_advance.andThen reads_advance fun _ => .pure (some ())) _ complete)
      fun _ => .never rfl).congr fun t ws e => ⟨?_, False.elim⟩
    rintro (⟨-, h⟩ | ⟨-, h⟩) <;> exact h
  exact (step.many_never reads_headerSeparator? fun _ _ _ => OptionalSeparator.ne_nil).andThen
    (reads_headerSeparator?.many fun _ _ _ => OptionalSeparator.ne_nil) fun _ => .pure ()

/-! ## Commands -/

theorem rounds_part {next : Token} {ws : List Token} {parts : List Part} :
    Phrase.Rounds OptionalPart next ws parts ↔ IsParts next ws parts := by
  constructor
  · intro h
    induction h with
    | stop => exact .nil
    | more first _ ih =>
      rcases first with ⟨t, e, rfl, h, same⟩ | ⟨r, h, same⟩ | ⟨-, -, -, none_eq⟩
      · cases same
        exact .argument h ih
      · cases same
        exact .redirection h ih
      · cases none_eq
  · intro h
    induction h with
    | nil => exact .stop
    | argument h _ ih =>
      exact @Phrase.Rounds.more _ _ _ [_] _ _ _ (Or.inl ⟨_, _, rfl, h, rfl⟩) ih
    | redirection h _ ih => exact .more (Or.inr (Or.inl ⟨_, h, rfl⟩)) ih

/-- A redirection fails where its target is missing.  At the end mark nothing is taken for
its operator. -/
theorem fails_redirection :
    Fails redirection fun t ws e =>
      ((∃ operator, operator.kind ≠ .eof ∧ ws = [operator]) ∨ (t.kind = .eof ∧ ws = [])) ∧
      t.isWordLike = false ∧
      e = .malformed (.missingKind .word "Expected redirection target" t) := by
  refine (fails_advance.after reads_advance fun operator => Fails.peek fun u ts complete =>
    FailsAt.ite (fun _ => (fails_expression.andThen reads_expression fun target =>
      (fails_spanFrom _).andThen (reads_spanFrom _) fun position =>
        .pure (Redirection.mk operator.text target position)) _ complete)
    fun _ => .fail rfl).congr fun t ws e => ?_
  constructor
  · rintro ⟨us, vs, operator, rfl, taken, ⟨like, rfl, plain, -⟩ | ⟨plain, rfl, same, rfl⟩⟩
    · rw [follow_nil, plain] at like
      cases like
    · rw [follow_nil] at plain taken
      refine ⟨?_, by simpa using plain, by rw [same]; rfl⟩
      rcases taken with ⟨inner, rfl⟩ | ⟨eof, rfl, rfl⟩
      · exact Or.inl ⟨operator, inner, rfl⟩
      · exact Or.inr ⟨eof, rfl⟩
  · rintro ⟨⟨operator, inner, rfl⟩ | ⟨eof, rfl⟩, plain, rfl⟩
    · exact ⟨[operator], [], operator, rfl, Or.inl ⟨inner, rfl⟩,
        Or.inr ⟨by simp [plain], rfl, rfl, rfl⟩⟩
    · exact ⟨[], [], t, rfl, Or.inr ⟨eof, rfl, rfl⟩, Or.inr ⟨by simp [plain], rfl, rfl, rfl⟩⟩

theorem fails_part? :
    Fails part? fun t ws e => ∃ operator, ws = [operator] ∧ operator.kind.isRedirection = true ∧
      t.isWordLike = false ∧
      e = .malformed (.missingKind .word "Expected redirection target" t) := by
  refine (Fails.peek fun u ts complete => FailsAt.ite
    (fun _ => (fails_expression.andThen reads_expression fun e =>
      .pure (some (Part.argument (argumentText u) e))) _ complete)
    fun _ => FailsAt.ite
      (fun _ => (fails_redirection.andThen reads_redirection fun r =>
        .pure (some (Part.redirection r))) _ complete)
      fun _ => .never rfl).congr fun t ws e => ?_
  constructor
  · rintro (⟨like, rfl, plain, -⟩ | ⟨-, ⟨kind, ⟨operator, -, rfl⟩ | ⟨eof, rfl⟩, plain, rfl⟩ |
      ⟨-, h⟩⟩)
    · rw [follow_nil, plain] at like
      cases like
    · exact ⟨operator, rfl, kind, plain, rfl⟩
    · rw [follow_nil, eof] at kind
      cases kind
    · exact h.elim
  · rintro ⟨operator, rfl, kind, plain, rfl⟩
    have inner : operator.kind ≠ .eof := by
      intro eof
      rw [eof] at kind
      cases kind
    have other : ¬ operator.isWordLike = true := by
      show ¬ operator.kind.isWordLike = true
      rw [not_isWordLike_of_isRedirection kind]
      exact Bool.false_ne_true
    exact Or.inr ⟨other, Or.inl ⟨kind, Or.inl ⟨operator, inner, rfl⟩, plain, rfl⟩⟩

theorem fails_command : Fails command BrokenCommand := by
  have parts := Fails.many reads_part? (fun _ _ _ => OptionalPart.ne_nil) fails_part?
  refine (fails_expect_bind Kind.noConfusion "Expected command name" fun name =>
    parts.andThen reads_parts fun parts => (fails_spanFrom name.position).andThen
      (reads_spanFrom name.position) fun position => .pure (Command.mk name.text
        (parts.filterMap Part.text?) (parts.filterMap Part.expr?)
        (parts.filterMap Part.redirection?) position)).congr fun t ws e => ?_
  constructor
  · rintro (⟨rfl, kind, rfl⟩ | ⟨name, _, rfl, kind, us, _, parts, rfl, rounds, operator, rfl,
      operator_kind, plain, rfl⟩)
    · exact .name kind
    · exact .target kind (rounds_part.1 rounds) operator_kind plain
  · intro h
    cases h with
    | name kind => exact Or.inl ⟨rfl, kind, rfl⟩
    | @target _ name operator us parts kind inside operator_kind plain =>
      exact Or.inr ⟨name, us ++ [operator], rfl, kind, us, [operator], parts, rfl,
        rounds_part.2 inside, operator, rfl, operator_kind, plain, rfl⟩

/-! ## Pipelines and statements that hold no other -/

theorem brokenPiped_iff {t : Token} {ws : List Token} {e : Failure} :
    ((Phrase.Rounds OptionalPiped).bind fun _ t ws e =>
      ∃ bar us, ws = bar :: us ∧ bar.kind = .pipe ∧ BrokenCommand t us e) t ws e ↔
      BrokenPiped t ws e := by
  constructor
  · rintro ⟨us, _, cs, rfl, rounds, bar, vs, rfl, kind, broken⟩
    generalize behind : follow (bar :: vs) t = next at rounds
    induction rounds with
    | stop => exact .here kind broken
    | more first _ ih =>
      rcases first with ⟨bar', us, c, rfl, kind', h, -⟩ | ⟨-, -, none_eq⟩
      · rw [List.append_assoc]
        rw [← behind, ← follow_append] at h
        exact .later kind' h (ih behind)
      · cases none_eq
  · intro h
    induction h with
    | here kind broken => exact ⟨[], _, [], rfl, .stop, _, _, rfl, kind, broken⟩
    | later kind first _ ih =>
      obtain ⟨us, vs, cs, rfl, rounds, broken⟩ := ih
      rw [follow_append] at first
      exact ⟨_ ++ us, vs, _, (List.append_assoc _ us vs).symm,
        .more (Or.inl ⟨_, _, _, rfl, kind, first, rfl⟩) rounds, broken⟩

theorem fails_pipeline : Fails pipeline BrokenPipeline := by
  have piped := Fails.many reads_pipedCommand? (fun _ _ _ => OptionalPiped.ne_nil)
    (fails_optional Kind.noConfusion reads_command fails_command)
  refine (fails_command.bind reads_command fun first => piped.andThen reads_pipedCommands fun cs =>
    ?later).congr fun t ws e => ?_
  case later =>
    cases cs with
    | nil => exact .pure _
    | cons second others =>
      exact (fails_spanFrom first.position).andThen (reads_spanFrom _) fun p => .pure _
  constructor
  · rintro (h | ⟨us, vs, c, rfl, first, others⟩)
    · exact .first h
    · exact .piped first (brokenPiped_iff.1 others)
  · intro h
    cases h with
    | first h => exact Or.inl h
    | piped first others => exact Or.inr ⟨_, _, _, rfl, first, brokenPiped_iff.2 others⟩

/-- An assignment, whatever stands in the place of its name. -/
theorem fails_assignment :
    Fails assignment fun t ws e => ∃ us vs name, ws = us ++ vs ∧
      ((name.kind ≠ .eof ∧ us = [name]) ∨
        (name.kind = .eof ∧ us = [] ∧ name = follow vs t)) ∧
      ((vs = [] ∧ t.isWord "=" = false ∧ e = .malformed (.missingText "=" t)) ∨
        ∃ equals, vs = [equals] ∧ equals.isWord "=" = true ∧ t.isWordLike = false ∧
          e = .malformed (.noExpression t)) := by
  refine (fails_advance.after reads_advance fun name =>
    (fails_expectWord "=").bind (reads_expectWord "=") fun _ =>
      (fails_expression).andThen reads_expression fun value =>
        (fails_spanFrom name.position).andThen (reads_spanFrom name.position) fun position =>
          .pure (Statement.assignment name.text value position)).congr fun t ws e => ?_
  constructor
  · rintro ⟨us, vs, name, rfl, taken, h | h⟩
    · exact ⟨us, vs, name, rfl, taken, Or.inl h⟩
    · obtain ⟨equals, _, _, rfl, ⟨sign, -⟩, rfl, plain, rfl⟩ := Phrase.bind_single.1 h
      exact ⟨us, [equals], name, rfl, taken, Or.inr ⟨equals, rfl, sign, plain, rfl⟩⟩
  · rintro ⟨us, vs, name, rfl, taken, h | ⟨equals, rfl, sign, plain, rfl⟩⟩
    · exact ⟨us, vs, name, rfl, taken, Or.inl h⟩
    · exact ⟨us, [equals], name, rfl, taken, Or.inr
        (Phrase.bind_single.2 ⟨equals, [], equals, rfl, ⟨sign, rfl⟩, rfl, plain, rfl⟩)⟩

/-- What starts like an assignment shows it in the token behind its first. -/
theorem startsAssignment_iff {t u : Token} {ts ws others : List Token} (kind : t.kind = .word)
    (split : ts = ws ++ u :: others) :
    StartsAssignment (t :: ws ++ [u]) ↔ (ts.head?.any fun u => u.isWord "=") = true := by
  subst split
  cases ws with
  | nil =>
    constructor
    · rintro ⟨name, equals, vs, same, -, sign⟩
      obtain ⟨-, rfl, -⟩ : t = name ∧ u = equals ∧ [] = vs := by simpa using same
      simpa using sign
    · intro sign
      exact ⟨t, u, [], rfl, kind, by simpa using sign⟩
  | cons w ws =>
    constructor
    · rintro ⟨name, equals, vs, same, -, sign⟩
      obtain ⟨-, rfl, -⟩ : t = name ∧ w = equals ∧ ws ++ [u] = vs := by simpa using same
      simpa using sign
    · intro sign
      exact ⟨t, w, ws ++ [u], rfl, kind, by simpa using sign⟩

/-- A broken pipeline has its first word, unless that is missing. -/
theorem cons_of_brokenPipeline {t : Token} {ws : List Token} {e : Failure}
    (h : BrokenPipeline t ws e) : (ws = [] ∧ t.kind ≠ .word) ∨
      ∃ name us, ws = name :: us ∧ name.kind = .word := by
  cases h with
  | first broken =>
    cases broken with
    | name kind => exact Or.inl ⟨rfl, kind⟩
    | target kind => exact Or.inr ⟨_, _, rfl, kind⟩
  | piped first =>
    cases first with
    | mk kind => exact Or.inr ⟨_, _, rfl, kind⟩

/-- What starts like an assignment fails where its value is missing. -/
theorem failsAt_assigned {t : Token} {ts : List Token} (complete : Complete (t :: ts))
    (kind : t.kind = .word) (assigns : (ts.head?.any fun u => u.isWord "=") = true) :
    FailsAt simple? BrokenSimple (t :: ts) := by
  have same : simple? (t :: ts) = (do return some (← assignment)) (t :: ts) := by
    show (isAssignment >>= _) (t :: ts) = _
    simp [bind, EStateM.bind, isAssignment_cons, kind, assigns]
  refine (FailsAt.of_eq same ((fails_assignment.andThen reads_assignment fun s =>
    .pure (some s)) _ complete)).congr fun u ws others e split => ?_
  constructor
  · rintro ⟨us, vs, name, rfl, taken, h⟩
    rcases taken with ⟨-, rfl⟩ | ⟨eof, rfl, rfl⟩
    · obtain ⟨rfl, rest⟩ := List.cons.inj split
      rcases h with ⟨rfl, plain, -⟩ | ⟨equals, rfl, sign, plain, rfl⟩
      · rw [rest] at assigns
        simp [plain] at assigns
      · exact .assignment kind sign plain
    · rw [List.nil_append] at split
      rw [follow_eq_of_split split, kind] at eof
      cases eof
  · intro h
    cases h with
    | @assignment _ name equals kind' sign plain =>
      have inner : name.kind ≠ .eof := kind'.trans_ne Kind.noConfusion
      exact ⟨[name], [equals], name, rfl, Or.inl ⟨inner, rfl⟩,
        Or.inr ⟨equals, rfl, sign, plain, rfl⟩⟩
    | pipeline _ _ other =>
      obtain ⟨rfl, rest⟩ := List.cons.inj split
      exact absurd ((startsAssignment_iff kind rest).2 assigns) other

/-- What starts with a word and not like an assignment fails as a pipeline does. -/
theorem failsAt_piped {t : Token} {ts : List Token} (complete : Complete (t :: ts))
    (kind : t.kind = .word) (assigns : ¬ (ts.head?.any fun u => u.isWord "=") = true) :
    FailsAt simple? BrokenSimple (t :: ts) := by
  have same : simple? (t :: ts) = (do return some (← pipeline)) (t :: ts) := by
    show (isAssignment >>= _) (t :: ts) = _
    simp [bind, EStateM.bind, isAssignment_cons, kind, assigns, check, peek, pure, EStateM.pure]
  refine (FailsAt.of_eq same ((fails_pipeline.andThen reads_pipeline fun s =>
    .pure (some s)) _ complete)).congr fun u ws others e split => ?_
  constructor
  · intro h
    rcases cons_of_brokenPipeline h with ⟨rfl, no_word⟩ | ⟨name, us, rfl, -⟩
    · exact absurd ((List.cons.inj split).1 ▸ kind) no_word
    · obtain ⟨rfl, rest⟩ := List.cons.inj split
      exact .pipeline kind h fun starts => assigns ((startsAssignment_iff kind rest).1 starts)
  · intro h
    cases h with
    | assignment _ sign =>
      obtain ⟨rfl, rfl⟩ := List.cons.inj split
      exact absurd (by simpa using sign) assigns
    | pipeline _ broken => exact broken

theorem failsAt_simple? {t : Token} {ts : List Token} (complete : Complete (t :: ts))
    (kind : t.kind = .word) : FailsAt simple? BrokenSimple (t :: ts) := by
  by_cases assigns : (ts.head?.any fun u => u.isWord "=") = true
  · exact failsAt_assigned complete kind assigns
  · exact failsAt_piped complete kind assigns

/-! ## Headers -/

/-- Where a header breaks up to the token of kind `k` that ends it, or what follows breaks. -/
theorem brokenHeader_iff {k : Kind} (plain : k.isWordLike = false)
    (solid : k.isHeaderSeparator = false) {message : String} {F : Expr → List Expr → Phrase Failure}
    {t : Token} {ws : List Token} {e : Failure} :
    (Phrase.refuse (·.isWordLike = false) (fun t => .malformed (.noExpression t)) t ws e ∨
      ((Phrase.single IsExpr).bind fun c => TrailingWords.bind fun es =>
        HeaderSeparators.bind fun _ => fun t ws e =>
          Phrase.refuse (·.kind ≠ k) (fun t => .malformed (.missingKind k message t)) t ws e ∨
            ((Phrase.single fun t u => t.kind = k ∧ u = t).bind fun _ => F c es) t ws e) t ws e) ↔
      BrokenHeader k message t ws e ∨ ∃ hs opener vs c es, ws = hs ++ opener :: vs ∧
        IsHeader hs c es ∧ opener.kind = k ∧ F c es t vs e := by
  constructor
  · rintro (⟨rfl, no_word, rfl⟩ | h)
    · exact Or.inl (.condition no_word)
    · obtain ⟨u, _, c, rfl, first, us, _, es, rfl, ⟨others, stop⟩, seps, _, _, rfl,
        ⟨all, last⟩, h⟩ := Phrase.bind_single.1 h
      rcases h with ⟨rfl, kind, rfl⟩ | h
      · rw [List.append_nil] at stop ⊢
        exact Or.inl (.opener first others all stop last kind)
      · obtain ⟨opener, vs, _, rfl, ⟨kind, rfl⟩, inside⟩ := Phrase.bind_single.1 h
        exact Or.inr ⟨u :: us ++ seps, _, vs, c, es, by simp, .mk first others all, kind, inside⟩
  · rintro (h | ⟨_, opener, vs, c, es, rfl, ⟨first, others, all⟩, kind, inside⟩)
    · cases h with
      | condition no_word => exact Or.inl ⟨rfl, no_word, rfl⟩
      | @opener _ u c us seps es first others all stop last kind =>
        exact Or.inr (Phrase.bind_single.2 ⟨u, us ++ seps, c, rfl, first, us, seps, es, rfl,
          ⟨others, stop⟩, seps, [], (), by rw [List.append_nil], ⟨all, last⟩,
          Or.inl ⟨rfl, kind, rfl⟩⟩)
    · rename_i u us seps
      have plain' : opener.isWordLike = false := by
        show opener.kind.isWordLike = false
        rw [kind, plain]
      have solid' : opener.kind.isHeaderSeparator = false := by rw [kind, solid]
      have stop : (follow (seps ++ opener :: vs) t).isWordLike = false := by
        rw [follow_append, follow_cons]
        exact not_isWordLike_follow all plain'
      exact Or.inr (Phrase.bind_single.2 ⟨u, us ++ (seps ++ opener :: vs), c, by simp, first, us, _,
        es, rfl, ⟨others, stop⟩, seps, _, (), rfl, ⟨all, solid'⟩,
        Or.inr (Phrase.bind_single.2 ⟨opener, vs, opener, rfl, ⟨kind, rfl⟩, inside⟩)⟩)

/-! ## Blocks -/

section Blocks

variable {inner : Inner} {S : Phrase Statement} {E : Phrase Failure} {b : Block}

theorem fails_separator : Fails separator Phrase.never := by
  refine ((fails_accept Kind.noConfusion).after (reads_accept Kind.noConfusion) fun b => Fails.ite
    (fun _ => .pure ()) fun _ => (fails_accept Kind.noConfusion).andThen
      (reads_accept Kind.noConfusion) fun _ => .pure ()).congr fun t ws e => ⟨?_, False.elim⟩
  rintro ⟨_, _, _, _, _, ⟨-, h⟩ | ⟨-, h⟩⟩ <;> exact h

/-- A broken statement starts as statements do. -/
def OpensBroken (E : Phrase Failure) : Prop :=
  ∀ t ws e, E t ws e → (follow ws t).kind.opensStatement = true

/-- What is said of a token that belongs in no block. -/
def Refused (b : Block) (t : Token) (e : Failure) : Prop :=
  (t.kind.isBlockCloser = true ∧ ∃ message, closerMessage? b.closer = some message ∧
      e = .malformed (.missingKind b.closer message t)) ∨
    (t.kind.isBlockCloser = false ∧ e = .malformed (.unexpected t b.context))

theorem failsAt_refuse {α : Type} (known : (closerMessage? b.closer).isSome = true) (t : Token)
    (ts : List Token) :
    FailsAt (refuse b t : Parse α) (fun u ws e => ws = [] ∧ u = t ∧ Refused b t e) (t :: ts) := by
  obtain ⟨message, known⟩ := Option.isSome_iff_exists.1 known
  unfold refuse
  by_cases kind : t.kind.isBlockCloser = true
  · rw [if_pos kind, known]
    refine (FailsAt.fail rfl).congr fun u ws _ e _ => and_congr_right fun _ =>
      and_congr_right fun _ => ⟨fun same => Or.inl ⟨kind, message, known, same⟩, ?_⟩
    rintro (⟨-, message', known', rfl⟩ | ⟨other, -⟩)
    · obtain rfl := Option.some.inj (known.symm.trans known')
      rfl
    · exact absurd (kind.symm.trans other) Bool.noConfusion
  · rw [if_neg kind]
    refine (FailsAt.fail rfl).congr fun u ws _ e _ => ?_
    simp [Refused, kind]

theorem failsAt_attempted (known : (closerMessage? b.closer).isSome = true) {t : Token}
    {o : Option Statement} {left : List Token} (complete : Complete left)
    (untouched : o = none → t.kind ≠ .comment → ∃ ts, left = t :: ts) :
    FailsAt (match o with
      | some s => do
          separator
          return some (some s)
      | none => if t.kind = .comment then return some none else refuse b t : Parse _)
      (fun u ws e => o = none ∧ t.kind ≠ .comment ∧ ws = [] ∧ u = t ∧ Refused b t e) left := by
  cases o with
  | some s =>
    have succeeds : Fails (do
        separator
        return some (some s) : Parse _) Phrase.never :=
      (fails_separator).andThen reads_separator fun _ => .pure _
    refine (succeeds left complete).congr fun u ws _ e _ => ⟨False.elim, ?_⟩
    rintro ⟨none_eq, -⟩
    cases none_eq
  | none =>
    have refused (plain : ¬ t.kind = .comment) : FailsAt
        (refuse b t : Parse (Option (Option Statement)))
        (fun u ws e => ws = [] ∧ u = t ∧ Refused b t e) left := by
      obtain ⟨ts, rfl⟩ := untouched rfl plain
      exact failsAt_refuse known t ts
    refine (FailsAt.ite (fun _ => .never rfl) refused).congr fun u ws _ e _ => ?_
    simp [Phrase.never]

theorem fails_blockItem? (reads : Reads inner (Attempt S)) (fails : Fails inner E)
    (opens : OpensBroken E) (known : (closerMessage? b.closer).isSome = true) :
    Fails (blockItem? inner b) (BrokenItem E b) := by
  have feed := reads_accept (k := .newline) Kind.noConfusion
  refine (Fails.peek fun t ts complete => FailsAt.ite (fun _ => .never rfl) fun inside =>
    FailsAt.bind (feed _ complete) (fails_accept Kind.noConfusion _ complete) fun taken mid first =>
      have whole := (feed _ complete).complete_rest complete first
      FailsAt.ite (fun _ => .never rfl) fun plain =>
        FailsAt.bind (reads mid whole) (fails mid whole) fun o left tried =>
          failsAt_attempted known ((reads mid whole).complete_rest whole tried)
            (untouched reads complete first plain tried)).congr fun t ws e => ?_
  rw [b.ends_iff]
  constructor
  · rintro (⟨-, h⟩ | ⟨inside, h | ⟨us, vs, taken, rfl, first, h⟩⟩)
    · exact h.elim
    · exact h.elim
    rcases first with ⟨rfl, -⟩ | ⟨rfl, rfl, no_newline⟩
    · rcases h with ⟨-, h⟩ | ⟨no, -⟩
      · exact h.elim
      · exact absurd rfl no
    rcases h with ⟨no, -⟩ | ⟨-, h | ⟨us, vs, o, rfl, attempt, rfl, no_comment, rfl, same, h⟩⟩
    · cases no
    · exact .statement inside h
    · cases attempt with
      | comment kind => exact absurd kind no_comment
      | nothing no_opener _ =>
        rcases h with ⟨kind, message, known, rfl⟩ | ⟨no_closer, rfl⟩
        · exact .closer inside kind known
        · exact .unexpected inside no_opener no_newline no_comment no_closer
  · intro h
    refine Or.inr ?_
    cases h with
    | @closer _ message inside kind known =>
      have plain : t.kind ≠ .newline ∧ t.kind ≠ .comment ∧ t.kind.opensStatement = false := by
        revert kind
        cases t.kind <;> decide
      exact ⟨inside, Or.inr ⟨[], [], false, rfl, Or.inr ⟨rfl, rfl, plain.1⟩,
        Or.inr ⟨Bool.false_ne_true, Or.inr ⟨[], [], none, rfl, .nothing plain.2.2 plain.2.1,
          rfl, plain.2.1, rfl, rfl, Or.inl ⟨kind, message, known, rfl⟩⟩⟩⟩⟩
    | unexpected inside no_opener no_newline no_comment no_closer =>
      exact ⟨inside, Or.inr ⟨[], [], false, rfl, Or.inr ⟨rfl, rfl, no_newline⟩,
        Or.inr ⟨Bool.false_ne_true, Or.inr ⟨[], [], none, rfl, .nothing no_opener no_comment,
          rfl, no_comment, rfl, rfl, Or.inr ⟨no_closer, rfl⟩⟩⟩⟩⟩
    | statement inside broken =>
      have plain : (follow ws t).kind ≠ .newline :=
        Kind.ne_of_opensStatement (opens _ _ _ broken) rfl
      exact ⟨inside, Or.inr ⟨[], ws, false, rfl, Or.inr ⟨rfl, rfl, plain⟩,
        Or.inr ⟨Bool.false_ne_true, Or.inl broken⟩⟩⟩

theorem fails_block (reads : Reads inner (Attempt S)) (opens : Opens S) (fails : Fails inner E)
    (opensBroken : OpensBroken E) (known : (closerMessage? b.closer).isSome = true) :
    Fails (block inner b) (BrokenBlock S E b) :=
  (Fails.many (reads_blockItem? reads opens known) (fun _ _ _ => BlockItem.ne_nil opens)
    (fails_blockItem? reads fails opensBroken known)).andThen
    ((reads_blockItem? reads opens known).many fun _ _ _ => BlockItem.ne_nil opens)
    fun _ => .pure _

/-- A block that ends breaks before its closer only at the end mark. -/
theorem brokenBody_iff (only : b.terminators = [b.closer]) (inner_kind : b.closer ≠ .eof)
    {message : String} (known : closerMessage? b.closer = some message) {t : Token}
    {ws : List Token} {e : Failure} :
    (BrokenBlock S E b t ws e ∨
      (Phrase.bind (fun next ws ss => IsBlock S next ws ss ∧ b.Ends next) fun _ =>
        Phrase.refuse (·.kind ≠ b.closer) fun t => .malformed (.missingKind b.closer message t))
        t ws e) ↔ BrokenBody S E b t ws e := by
  constructor
  · rintro (h | ⟨us, _, ss, rfl, ⟨block, ends⟩, rfl, kind, rfl⟩)
    · exact .inside h
    · rw [List.append_nil]
      rcases ends with last | member
      · exact .closer block last known
      · rw [only, List.mem_singleton] at member
        exact absurd member kind
  · intro h
    cases h with
    | inside h => exact Or.inl h
    | @closer _ _ ss message' block last known' =>
      rw [known] at known'
      obtain rfl := Option.some.inj known'
      have other : t.kind ≠ b.closer := last ▸ inner_kind.symm
      exact Or.inr ⟨_, [], ss, (List.append_nil _).symm, ⟨block, Or.inl last⟩, rfl, other, rfl⟩

end Blocks

/-! ## Compound statements -/

section Compound

variable {inner : Inner} {S : Phrase Statement} {E : Phrase Failure}
  (reads : Reads inner (Attempt S)) (opens : Opens S) (fails : Fails inner E)
  (opensBroken : OpensBroken E)

include reads opens fails opensBroken

theorem fails_loopBody :
    Fails (loopBody inner) (HeaderSeparators.bind fun _ => fun t ws e =>
      Phrase.refuse (·.kind ≠ .kwDo) (fun t => .malformed (.missingKind .kwDo "Expected 'do'" t))
        t ws e ∨ ((Phrase.single fun t u => t.kind = .kwDo ∧ u = t).bind fun _ =>
          BrokenBody S E .loopBody) t ws e) := by
  have closes : Block.loopBody.Closes := by decide
  have body := ((fails_block reads opens fails opensBroken closes.message).bind
    (reads_block reads opens closes) fun body =>
      (fails_expect (k := .kwDone) Kind.noConfusion "Expected 'done'").andThen
        (reads_expect Kind.noConfusion _) fun _ => .pure body).congr fun t ws e =>
          brokenBody_iff (b := Block.loopBody) rfl Kind.noConfusion rfl
  exact (fails_headerSeparators).after reads_headerSeparators fun _ =>
    (fails_expect Kind.noConfusion _).bind (reads_expect Kind.noConfusion _) fun _ => body

omit reads opens fails opensBroken in
/-- Where the part behind `then` breaks, or the one behind `else`, or `fi` is missing. -/
theorem brokenThen_iff {t : Token} {ws : List Token} {e : Failure} :
    (BrokenBlock S E .thenPart t ws e ∨
      (Phrase.bind (fun next ws ss => IsBlock S next ws ss ∧ Block.thenPart.Ends next) fun _ =>
        fun t ws e => (∃ u us, ws = u :: us ∧ u.kind = .kwElse ∧ BrokenBlock S E .elsePart t us e) ∨
          (Phrase.bind (fun next ws (o : Option (List Statement)) =>
            (∃ u us ss, ws = u :: us ∧ u.kind = .kwElse ∧
              (IsBlock S next us ss ∧ Block.elsePart.Ends next) ∧ o = some ss) ∨
              (ws = [] ∧ next.kind ≠ .kwElse ∧ o = none)) fun _ =>
            Phrase.refuse (·.kind ≠ .kwFi) fun t =>
              .malformed (.missingKind .kwFi "Expected 'fi'" t)) t ws e) t ws e) ↔
      BrokenBody S E .thenPart t ws e ∨ ∃ us kwElse vs ss, ws = us ++ kwElse :: vs ∧
        IsBlock S kwElse us ss ∧ kwElse.kind = .kwElse ∧ BrokenBody S E .elsePart t vs e := by
  have elsePart (t : Token) (ws : List Token) (e : Failure) :
      _ ↔ BrokenBody S E .elsePart t ws e := brokenBody_iff rfl Kind.noConfusion rfl
  constructor
  · rintro (h | ⟨us, _, ss, rfl, ⟨block, ends⟩, ⟨kwElse, vs, rfl, else_kind, h⟩ |
      ⟨vs, _, o, rfl, ⟨kwElse, vs, ss', rfl, else_kind, inside, -⟩ | ⟨rfl, no_else, -⟩, rfl, kind,
      rfl⟩⟩)
    · exact Or.inl (.inside h)
    · exact Or.inr ⟨us, kwElse, vs, ss, rfl, block, else_kind, .inside h⟩
    · refine Or.inr ⟨us, kwElse, vs, ss, by simp, ?_, else_kind, ?_⟩
      · simpa using block
      · exact (elsePart _ _ _).1 (Or.inr ⟨vs, [], ss', (List.append_nil vs).symm, inside, rfl, kind,
          rfl⟩)
    · rw [List.append_nil, List.append_nil] at *
      have last : t.kind = .eof := by
        rcases ends with last | member
        · exact last
        · simp [Block.thenPart, kind] at member
          exact absurd member no_else
      exact Or.inl (.closer block last rfl)
  · rintro (h | ⟨us, kwElse, vs, ss, rfl, block, else_kind, h⟩)
    · cases h with
      | inside h => exact Or.inl h
      | @closer _ _ ss message block last known =>
        obtain rfl := Option.some.inj known
        have other (k : Kind) (inner_kind : k ≠ .eof) : t.kind ≠ k := last ▸ inner_kind.symm
        exact Or.inr ⟨_, [], ss, (List.append_nil _).symm, ⟨block, Or.inl last⟩, Or.inr
          ⟨[], [], none, rfl, Or.inr ⟨rfl, other _ Kind.noConfusion, rfl⟩, rfl,
            other _ Kind.noConfusion, rfl⟩⟩
    · have ends : Block.thenPart.Ends kwElse := Or.inr (by rw [else_kind]; decide)
      refine Or.inr ⟨us, kwElse :: vs, ss, rfl, ⟨block, ends⟩, ?_⟩
      rcases (elsePart _ _ _).2 h with h | ⟨vs, _, ss', rfl, inside, rfl, kind, rfl⟩
      · exact Or.inl ⟨kwElse, vs, rfl, else_kind, h⟩
      · exact Or.inr ⟨kwElse :: vs, [], some ss', rfl,
          Or.inl ⟨kwElse, vs, ss', rfl, else_kind, inside, rfl⟩, rfl, kind, rfl⟩

theorem failsAt_conditional {t : Token} {ts : List Token} (complete : Complete (t :: ts))
    (kind : t.kind = .kwIf) : FailsAt (conditional inner) (BrokenConditional S E) (t :: ts) := by
  have closes : Block.thenPart.Closes := by decide
  have elsePart := fails_optional (k := .kwElse) Kind.noConfusion
    (reads_block (b := .elsePart) reads opens (by decide))
    (fails_block reads opens fails opensBroken (by decide))
  have whole := fails_expect_bind (k := .kwIf) Kind.noConfusion "Expected 'if'" fun opener =>
    (fails_expression).bind reads_expression fun condition =>
      (fails_trailingWords).after reads_trailingWords fun args =>
        (fails_headerSeparators).after reads_headerSeparators fun _ =>
          (fails_expect (k := .kwThen) Kind.noConfusion "Expected 'then'").bind
            (reads_expect Kind.noConfusion _) fun _ =>
              (fails_block reads opens fails opensBroken closes.message).bind
                (reads_block reads opens closes) fun thenBody =>
                  elsePart.bind (reads_elsePart? reads opens) fun elseBody =>
                    (fails_expect (k := .kwFi) Kind.noConfusion "Expected 'fi'").andThen
                      (reads_expect Kind.noConfusion _) fun _ =>
                        (fails_spanFrom opener.position).andThen (reads_spanFrom _) fun position =>
                          .pure (Statement.conditional condition args thenBody elseBody position)
  refine (whole _ complete).congr fun u ws others e split => ?_
  simp only [brokenHeader_iff (k := .kwThen) rfl rfl, brokenThen_iff]
  constructor
  · rintro (⟨rfl, other, -⟩ | ⟨kwIf, us, rfl, if_kind, h | ⟨hs, kwThen, vs, c, es, rfl,
      header, then_kind, h | ⟨us, kwElse, vs, ss, rfl, block, else_kind, h⟩⟩⟩)
    · exact absurd ((List.cons.inj split).1 ▸ kind) other
    · exact .header if_kind h
    · exact .thenPart if_kind header then_kind h
    · have broken : BrokenConditional S E u _ _ :=
        .elsePart if_kind header then_kind block else_kind h
      simpa using broken
  · intro h
    refine Or.inr ?_
    cases h with
    | @header _ kwIf us _ if_kind h => exact ⟨kwIf, us, rfl, if_kind, Or.inl h⟩
    | @thenPart _ kwIf kwThen hs us c es _ if_kind header then_kind h =>
      exact ⟨kwIf, hs ++ kwThen :: us, rfl, if_kind, Or.inr ⟨hs, kwThen, us, c, es, rfl,
        header, then_kind, Or.inl h⟩⟩
    | @elsePart _ kwIf kwThen kwElse hs us vs c es ss _ if_kind header then_kind block else_kind
        h =>
      exact ⟨kwIf, hs ++ kwThen :: (us ++ kwElse :: vs), by simp, if_kind,
        Or.inr ⟨hs, kwThen, _, c, es, rfl, header, then_kind,
          Or.inr ⟨us, kwElse, vs, ss, rfl, block, else_kind, h⟩⟩⟩

theorem fails_forLoop (opener : Token) :
    Fails (forLoop inner opener) fun t ws e =>
      (ws = [] ∧ t.kind ≠ .word ∧ e = .malformed (.missingKind .word "Expected loop variable" t)) ∨
      ∃ name us, ws = name :: us ∧ name.kind = .word ∧
        ((us = [] ∧ t.isWord "in" = false ∧ e = .malformed (.missingText "in" t)) ∨
        ∃ kwIn vs, us = kwIn :: vs ∧ kwIn.isWord "in" = true ∧
          (BrokenHeader .kwDo "Expected 'do'" t vs e ∨ ∃ hs kwDo us c es, vs = hs ++ kwDo :: us ∧
            IsHeader hs c es ∧ kwDo.kind = .kwDo ∧ BrokenBody S E .loopBody t us e)) := by
  have body := fails_loopBody reads opens fails opensBroken
  refine (fails_expect_bind Kind.noConfusion "Expected loop variable" fun name =>
    (fails_expectWord "in").bind (reads_expectWord "in") fun _ =>
      (fails_expression).bind reads_expression fun iterable =>
        (fails_trailingWords).after reads_trailingWords fun words =>
          body.andThen (reads_loopBody reads opens) fun body =>
            (fails_spanFrom opener.position).andThen (reads_spanFrom _) fun position =>
              .pure (Statement.loop (.forIn name.text iterable) [] (iterable :: words) body
                position)).congr fun t ws e => ?_
  refine or_congr Iff.rfl (exists_congr fun name => exists_congr fun us => and_congr_right fun _ =>
    and_congr_right fun _ => or_congr Iff.rfl ?_)
  constructor
  · intro h
    obtain ⟨kwIn, vs, _, rfl, ⟨in_word, rfl⟩, header⟩ := Phrase.bind_single.1 h
    exact ⟨_, vs, rfl, in_word, (brokenHeader_iff rfl rfl).1 header⟩
  · rintro ⟨kwIn, vs, rfl, in_word, h⟩
    exact Phrase.bind_single.2 ⟨kwIn, vs, kwIn, rfl, ⟨in_word, rfl⟩, (brokenHeader_iff rfl rfl).2 h⟩

theorem fails_whileLoop (opener : Token) :
    Fails (whileLoop inner opener) fun t ws e =>
      BrokenHeader .kwDo "Expected 'do'" t ws e ∨ ∃ hs kwDo us c es, ws = hs ++ kwDo :: us ∧
        IsHeader hs c es ∧ kwDo.kind = .kwDo ∧ BrokenBody S E .loopBody t us e := by
  have body := fails_loopBody reads opens fails opensBroken
  refine (fails_expression.bind reads_expression fun condition =>
    (fails_trailingWords).after reads_trailingWords fun args =>
      body.andThen (reads_loopBody reads opens) fun body =>
        (fails_spanFrom opener.position).andThen (reads_spanFrom _) fun position =>
          .pure (Statement.loop (.whileDo condition) args [] body position)).congr fun t ws e => ?_
  exact brokenHeader_iff (k := .kwDo) rfl rfl

theorem failsAt_loop {t : Token} {ts : List Token} (complete : Complete (t :: ts))
    (kind : t.kind = .kwFor ∨ t.kind = .kwWhile) :
    FailsAt (loop inner) (BrokenLoop S E) (t :: ts) := by
  have inner_kind : t.kind ≠ .eof := by
    rcases kind with kind | kind <;> rw [kind] <;> exact Kind.noConfusion
  refine ((fails_advance.after reads_advance fun opener => Fails.ite
    (fun _ => fails_forLoop reads opens fails opensBroken opener)
    fun _ => fails_whileLoop reads opens fails opensBroken opener) (t :: ts) complete).congr ?_
  intro u ws others e split
  constructor
  · rintro ⟨us, vs, opener, rfl, ⟨-, rfl⟩ | ⟨eof, rfl, rfl⟩, h⟩
    · obtain ⟨rfl, -⟩ := List.cons.inj split
      rcases h with ⟨for_kind, ⟨rfl, other, rfl⟩ | ⟨name, us, rfl, name_kind, ⟨rfl, other, rfl⟩ |
        ⟨kwIn, vs, rfl, in_word, h | ⟨hs, kwDo, us, c, es, rfl, header, do_kind, h⟩⟩⟩⟩ |
        ⟨other, h | ⟨hs, kwDo, us, c, es, rfl, header, do_kind, h⟩⟩
      · exact .name for_kind other
      · exact .inWord for_kind name_kind other
      · exact .forHeader for_kind name_kind in_word h
      · exact .forBody for_kind name_kind in_word header do_kind h
      · exact .whileHeader (kind.resolve_left other) h
      · exact .whileBody (kind.resolve_left other) header do_kind h
    · exact absurd eof (follow_eq_of_split split ▸ inner_kind)
  · intro h
    have for_inner {v : Token} (for_kind : v.kind = .kwFor) : v.kind ≠ .eof :=
      for_kind.trans_ne Kind.noConfusion
    have while_inner {v : Token} (while_kind : v.kind = .kwWhile) :
        v.kind ≠ .eof ∧ v.kind ≠ .kwFor := by
      rw [while_kind]
      decide
    cases h with
    | @name _ kwFor for_kind other =>
      exact ⟨[kwFor], [], kwFor, rfl, Or.inl ⟨for_inner for_kind, rfl⟩,
        Or.inl ⟨for_kind, Or.inl ⟨rfl, other, rfl⟩⟩⟩
    | @inWord _ kwFor name for_kind name_kind other =>
      exact ⟨[kwFor], [name], kwFor, rfl, Or.inl ⟨for_inner for_kind, rfl⟩,
        Or.inl ⟨for_kind, Or.inr ⟨name, [], rfl, name_kind, Or.inl ⟨rfl, other, rfl⟩⟩⟩⟩
    | @forHeader _ kwFor name kwIn us _ for_kind name_kind in_word h =>
      exact ⟨[kwFor], name :: kwIn :: us, kwFor, rfl, Or.inl ⟨for_inner for_kind, rfl⟩,
        Or.inl ⟨for_kind, Or.inr ⟨name, _, rfl, name_kind, Or.inr ⟨kwIn, us, rfl, in_word,
          Or.inl h⟩⟩⟩⟩
    | @forBody _ kwFor name kwIn kwDo hs us c es _ for_kind name_kind in_word header do_kind h =>
      exact ⟨[kwFor], name :: kwIn :: (hs ++ kwDo :: us), kwFor, rfl,
        Or.inl ⟨for_inner for_kind, rfl⟩, Or.inl ⟨for_kind, Or.inr ⟨name, _, rfl, name_kind,
          Or.inr ⟨kwIn, _, rfl, in_word, Or.inr ⟨hs, kwDo, us, c, es, rfl, header, do_kind, h⟩⟩⟩⟩⟩
    | @whileHeader _ kwWhile us _ while_kind h =>
      exact ⟨[kwWhile], us, kwWhile, rfl, Or.inl ⟨(while_inner while_kind).1, rfl⟩,
        Or.inr ⟨(while_inner while_kind).2, Or.inl h⟩⟩
    | @whileBody _ kwWhile kwDo hs us c es _ while_kind header do_kind h =>
      exact ⟨[kwWhile], hs ++ kwDo :: us, kwWhile, rfl, Or.inl ⟨(while_inner while_kind).1, rfl⟩,
        Or.inr ⟨(while_inner while_kind).2, Or.inr ⟨hs, kwDo, us, c, es, rfl, header, do_kind, h⟩⟩⟩

theorem fails_functionBody (opener name : Token) :
    Fails (do
      let body ← block inner .functionBody
      let _ ← expect .rbrace "Expected '\x7d'"
      return Statement.function name.text body (← spanFrom opener.position))
      (BrokenBody S E .functionBody) := by
  have closes : Block.functionBody.Closes := by decide
  refine ((fails_block reads opens fails opensBroken closes.message).bind
    (reads_block reads opens closes) fun body =>
      (fails_expect (k := .rbrace) Kind.noConfusion "Expected '\x7d'").andThen
        (reads_expect Kind.noConfusion _) fun _ => (fails_spanFrom opener.position).andThen
          (reads_spanFrom _) fun position => .pure _).congr fun t ws e => ?_
  exact brokenBody_iff (b := Block.functionBody) rfl Kind.noConfusion rfl

theorem failsAt_function {t : Token} {ts : List Token} (complete : Complete (t :: ts))
    (kind : t.kind = .kwFunction) :
    FailsAt (function inner) (BrokenFunction S E) (t :: ts) := by
  refine (fails_expect_bind Kind.noConfusion "Expected 'function'" (fun opener =>
    fails_expect_bind Kind.noConfusion "Expected function name" fun name =>
      fails_expect_bind Kind.noConfusion "Expected '('" fun _ =>
        fails_expect_bind Kind.noConfusion "Expected ')'" fun _ =>
          fails_expect_bind Kind.noConfusion "Expected '\x7b'" fun _ =>
            fails_functionBody reads opens fails opensBroken opener name) _ complete).congr ?_
  intro u ws others e split
  constructor
  · rintro (⟨rfl, other, -⟩ | ⟨opener, _, rfl, function_kind, ⟨rfl, other, rfl⟩ | ⟨name, _, rfl,
      name_kind, ⟨rfl, other, rfl⟩ | ⟨lparen, _, rfl, lparen_kind, ⟨rfl, other, rfl⟩ | ⟨rparen, _,
      rfl, rparen_kind, ⟨rfl, other, rfl⟩ | ⟨lbrace, us, rfl, lbrace_kind, h⟩⟩⟩⟩⟩)
    · exact absurd ((List.cons.inj split).1 ▸ kind) other
    · exact .name function_kind other
    · exact .lparen function_kind name_kind other
    · exact .rparen function_kind name_kind lparen_kind other
    · exact .lbrace function_kind name_kind lparen_kind rparen_kind other
    · exact .body function_kind name_kind lparen_kind rparen_kind lbrace_kind h
  · intro h
    refine Or.inr ?_
    cases h with
    | name function_kind other => exact ⟨_, _, rfl, function_kind, Or.inl ⟨rfl, other, rfl⟩⟩
    | lparen function_kind name_kind other =>
      exact ⟨_, _, rfl, function_kind, Or.inr ⟨_, _, rfl, name_kind, Or.inl ⟨rfl, other, rfl⟩⟩⟩
    | rparen function_kind name_kind lparen_kind other =>
      exact ⟨_, _, rfl, function_kind, Or.inr ⟨_, _, rfl, name_kind,
        Or.inr ⟨_, _, rfl, lparen_kind, Or.inl ⟨rfl, other, rfl⟩⟩⟩⟩
    | lbrace function_kind name_kind lparen_kind rparen_kind other =>
      exact ⟨_, _, rfl, function_kind, Or.inr ⟨_, _, rfl, name_kind, Or.inr ⟨_, _, rfl, lparen_kind,
        Or.inr ⟨_, _, rfl, rparen_kind, Or.inl ⟨rfl, other, rfl⟩⟩⟩⟩⟩
    | body function_kind name_kind lparen_kind rparen_kind lbrace_kind h =>
      exact ⟨_, _, rfl, function_kind, Or.inr ⟨_, _, rfl, name_kind, Or.inr ⟨_, _, rfl, lparen_kind,
        Or.inr ⟨_, _, rfl, rparen_kind, Or.inr ⟨_, _, rfl, lbrace_kind, h⟩⟩⟩⟩⟩

end Compound

/-! ## All statements, up to a depth -/

section Heads

variable {S : Phrase Statement} {E : Phrase Failure} {t : Token} {ws : List Token} {e : Failure}

theorem kind_of_brokenSimple (h : BrokenSimple t ws e) : (follow ws t).kind = .word := by
  cases h <;> assumption

theorem kind_of_brokenConditional (h : BrokenConditional S E t ws e) :
    (follow ws t).kind = .kwIf := by
  cases h <;> assumption

theorem kind_of_brokenLoop (h : BrokenLoop S E t ws e) :
    (follow ws t).kind = .kwFor ∨ (follow ws t).kind = .kwWhile := by
  cases h with
  | name for_kind => exact Or.inl for_kind
  | inWord for_kind => exact Or.inl for_kind
  | forHeader for_kind => exact Or.inl for_kind
  | forBody for_kind => exact Or.inl for_kind
  | whileHeader while_kind => exact Or.inr while_kind
  | whileBody while_kind => exact Or.inr while_kind

theorem kind_of_brokenFunction (h : BrokenFunction S E t ws e) :
    (follow ws t).kind = .kwFunction := by
  cases h <;> assumption

/-- How a statement breaks shows in the kind of its first token. -/
theorem broken_cases {depth : Nat} (h : Broken depth t ws e) :
    ((follow ws t).kind = .word ∧ BrokenSimple t ws e) ∨
      (compound? (follow ws t).kind).isSome = true := by
  cases depth with
  | zero =>
    rcases h with h | ⟨rfl, opener, -⟩
    · exact Or.inl ⟨kind_of_brokenSimple h, h⟩
    · exact Or.inr opener
  | succ depth =>
    rcases h with h | h | h | h
    · exact Or.inl ⟨kind_of_brokenSimple h, h⟩
    · exact Or.inr (by rw [kind_of_brokenConditional h]; rfl)
    · rcases kind_of_brokenLoop h with kind | kind <;> exact Or.inr (by rw [kind]; rfl)
    · exact Or.inr (by rw [kind_of_brokenFunction h]; rfl)

theorem opensBroken_broken (depth : Nat) : OpensBroken (Broken depth) := by
  intro t ws e h
  rcases broken_cases h with ⟨kind, -⟩ | opener
  · rw [kind]
    rfl
  · revert opener
    cases (follow ws t).kind <;> decide

end Heads

section Depth

variable {depth : Nat} {t : Token} {ts : List Token}

/-- A compound statement breaks as the rule of its first token does. -/
theorem failsAt_compound (fails : Fails (statementWithin depth) (Broken depth))
    (complete : Complete (t :: ts)) {compound : Inner → Parse Statement}
    (opener : compound? t.kind = some compound) :
    FailsAt (compound (statementWithin depth)) (Broken (depth + 1)) (t :: ts) := by
  have reads := reads_statementWithin depth
  have opens := opens_within depth
  have opensBroken := opensBroken_broken depth
  have only {u : Token} {ws others : List Token} {e : Failure} {k : Kind} (kind : t.kind = k)
      (split : t :: ts = ws ++ u :: others) (h : Broken (depth + 1) u ws e) :
      (k = .word ∧ BrokenSimple u ws e) ∨
        (k = .kwIf ∧ BrokenConditional (Within depth) (Broken depth) u ws e) ∨
        ((k = .kwFor ∨ k = .kwWhile) ∧ BrokenLoop (Within depth) (Broken depth) u ws e) ∨
        (k = .kwFunction ∧ BrokenFunction (Within depth) (Broken depth) u ws e) := by
    have head : (follow ws u).kind = k := by rw [follow_eq_of_split split, kind]
    rcases h with h | h | h | h
    · exact Or.inl ⟨head ▸ kind_of_brokenSimple h, h⟩
    · exact Or.inr (Or.inl ⟨head ▸ kind_of_brokenConditional h, h⟩)
    · exact Or.inr (Or.inr (Or.inl ⟨head ▸ kind_of_brokenLoop h, h⟩))
    · exact Or.inr (Or.inr (Or.inr ⟨head ▸ kind_of_brokenFunction h, h⟩))
  cases kind : t.kind <;> simp only [compound?, kind, reduceCtorEq, Option.some.injEq] at opener
  all_goals subst opener
  · refine (failsAt_conditional reads opens fails opensBroken complete kind).congr
      fun u ws others e split => ⟨fun h => Or.inr (Or.inl h), fun h => ?_⟩
    simpa using only kind split h
  · refine (failsAt_loop reads opens fails opensBroken complete (Or.inl kind)).congr
      fun u ws others e split => ⟨fun h => Or.inr (Or.inr (Or.inl h)), fun h => ?_⟩
    simpa using only kind split h
  · refine (failsAt_loop reads opens fails opensBroken complete (Or.inr kind)).congr
      fun u ws others e split => ⟨fun h => Or.inr (Or.inr (Or.inl h)), fun h => ?_⟩
    simpa using only kind split h
  · refine (failsAt_function reads opens fails opensBroken complete kind).congr
      fun u ws others e split => ⟨fun h => Or.inr (Or.inr (Or.inr h)), fun h => ?_⟩
    simpa using only kind split h

/-- Where no compound statement opens, only a statement that starts with a word breaks. -/
theorem failsAt_plain (depth : Nat) (complete : Complete (t :: ts))
    (plain : compound? t.kind = none) :
    FailsAt (statementWithin depth) (Broken depth) (t :: ts) := by
  have simple {u : Token} {ws others : List Token} {e : Failure}
      (split : t :: ts = ws ++ u :: others) (h : Broken depth u ws e) :
      t.kind = .word ∧ BrokenSimple u ws e := by
    have head := broken_cases h
    rw [follow_eq_of_split split, plain] at head
    exact head.resolve_right (by simp)
  by_cases word : t.kind = .word
  · have same : statementWithin depth (t :: ts) = simple? (t :: ts) := by
      rw [statementWithin_cons, word]
      rfl
    refine (FailsAt.of_eq same (failsAt_simple? complete word)).congr fun u ws others e split =>
      ⟨fun h => ?_, fun h => (simple split h).2⟩
    cases depth with
    | zero => exact Or.inl h
    | succ depth => exact Or.inl h
  · exact (FailsAt.never (statementWithin_plain depth ts plain word)).congr
      fun u ws others e split => ⟨False.elim, fun h => absurd (simple split h).1 word⟩

/-- With depth `depth`, a parser of statements fails as those do that nest at most so deep. -/
theorem fails_statementWithin (depth : Nat) : Fails (statementWithin depth) (Broken depth) := by
  have starts {k : Kind} {compound : Inner → Parse Statement}
      (opener : compound? k = some compound) : k ≠ .word ∧ k ≠ .comment ∧ k ≠ .eof := by
    revert opener
    cases k <;> simp [compound?]
  induction depth with
  | zero =>
    rintro (_ | ⟨t, ts⟩) complete
    · exact complete.elim
    cases opener : compound? t.kind with
    | none => exact failsAt_plain 0 complete opener
    | some compound =>
      obtain ⟨no_word, no_comment, inner⟩ := starts opener
      have fails : statementWithin 0 (t :: ts) = .error .tooDeep (t :: ts) := by
        rw [statementWithin_cons, if_neg no_comment, if_neg inner, opener]
        rfl
      refine (FailsAt.fail fails).congr fun u ws others e split => ⟨?_, ?_⟩
      · rintro ⟨rfl, rfl, rfl⟩
        exact Or.inr ⟨rfl, by simp [opener], rfl⟩
      · rintro (h | ⟨rfl, -, rfl⟩)
        · exact absurd (follow_eq_of_split split ▸ kind_of_brokenSimple h) no_word
        · exact ⟨rfl, (List.cons.inj split).1.symm, rfl⟩
  | succ depth ih =>
    rintro (_ | ⟨t, ts⟩) complete
    · exact complete.elim
    cases opener : compound? t.kind with
    | none => exact failsAt_plain (depth + 1) complete opener
    | some compound =>
      obtain ⟨-, no_comment, inner⟩ := starts opener
      have same : statementWithin (depth + 1) (t :: ts) =
          (do return some (← compound (statementWithin depth))) (t :: ts) := by
        rw [statementWithin_cons, if_neg no_comment, if_neg inner, opener]
      exact FailsAt.of_eq same (FailsAt.map (failsAt_compound ih complete opener) some)

theorem fails_statement : Fails statement (Broken nestingLimit) :=
  fails_statementWithin nestingLimit

end Depth

end ShellScript.Parse
