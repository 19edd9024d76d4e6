/-
# ShellScript.Proofs.Parse.Compound -- the parsers of compound statements

Conditionals, loops and functions are read by their rules, for whatever the parser
of the statements inside them reads.  A header ends where its `then` or `do`
stands, so what the loops over words and separators ask of the token behind them
always holds there (`header_iff`).
-/
import ShellScript.Proofs.Parse.Block

namespace ShellScript.Parse

set_option autoImplicit false

open Grammar

/-! ## Headers -/

theorem ne_eof_of_isHeaderSeparator {t : Token} (separator : t.kind.isHeaderSeparator = true) :
    t.kind ≠ .eof := by
  intro eof
  rw [eof] at separator
  cases separator

/-- One separator of a header, or nothing in front of another token. -/
abbrev OptionalSeparator : Phrase (Option Unit) := fun next ws o =>
  (∃ t, ws = [t] ∧ t.kind.isHeaderSeparator = true ∧ o = some ()) ∨
    (ws = [] ∧ next.kind.isHeaderSeparator = false ∧ o = none)

theorem OptionalSeparator.ne_nil {next : Token} {ws : List Token} {u : Unit}
    (h : OptionalSeparator next ws (some u)) : ws ≠ [] := by
  rcases h with ⟨t, rfl, -, -⟩ | ⟨-, -, none_eq⟩
  · exact List.cons_ne_nil t []
  · cases none_eq

theorem reads_headerSeparator? : Reads headerSeparator? OptionalSeparator := by
  refine (reads_peek.bind fun t => Reads.ite
    (fun _ => (reads_advance).bind fun _ => .pure (some ())) fun _ => .pure none).congr ?_
  intro next ws o
  rw [Phrase.bind_ask, Phrase.bind_pure, id]
  constructor
  · rintro (⟨kind, t, ⟨-, rfl⟩ | ⟨eof, rfl, rfl⟩, rfl⟩ | ⟨plain, rfl, rfl⟩)
    · exact Or.inl ⟨t, rfl, kind, rfl⟩
    · rw [follow_nil, eof] at kind
      cases kind
    · exact Or.inr ⟨rfl, by simpa using plain, rfl⟩
  · rintro (⟨t, rfl, kind, rfl⟩ | ⟨rfl, plain, rfl⟩)
    · exact Or.inl ⟨kind, t, Or.inl ⟨ne_eof_of_isHeaderSeparator kind, rfl⟩, rfl⟩
    · exact Or.inr ⟨by simp [plain], rfl, rfl⟩

theorem reads_headerSeparators :
    Reads headerSeparators fun next ws _ =>
      (∀ t ∈ ws, t.kind.isHeaderSeparator = true) ∧ next.kind.isHeaderSeparator = false := by
  refine ((reads_headerSeparator?.many fun _ _ _ => OptionalSeparator.ne_nil).bind fun _ =>
    .pure ()).congr fun next ws u => ?_
  rw [Phrase.bind_pure]
  constructor
  · rintro ⟨us, h, -⟩
    induction h with
    | stop last =>
      rcases last with ⟨t, -, -, some_eq⟩ | ⟨rfl, plain, -⟩
      · cases some_eq
      · exact ⟨fun t member => absurd member List.not_mem_nil, plain⟩
    | more first _ ih =>
      rcases first with ⟨t, rfl, kind, -⟩ | ⟨-, -, none_eq⟩
      · exact ⟨List.forall_mem_cons.2 ⟨kind, ih.1⟩, ih.2⟩
      · cases none_eq
  · rintro ⟨all, plain⟩
    induction ws with
    | nil => exact ⟨[], .stop (Or.inr ⟨rfl, plain, rfl⟩), rfl⟩
    | cons t ws ih =>
      obtain ⟨us, h, same⟩ := ih (List.forall_mem_cons.1 all).2
      have first := (List.forall_mem_cons.1 all).1
      exact ⟨() :: us, @Phrase.Many.more _ _ _ [t] _ _ _ (Or.inl ⟨t, rfl, first, rfl⟩) h, same⟩

/-- What may follow the first word of a header. -/
abbrev TrailingWords : Phrase (List Expr) := fun next ws es =>
  List.Forall₂ IsExpr ws es ∧ next.isWordLike = false

/-- What may stand between a header and its `then` or `do`. -/
abbrev HeaderSeparators : Phrase Unit := fun next ws _ =>
  (∀ t ∈ ws, t.kind.isHeaderSeparator = true) ∧ next.kind.isHeaderSeparator = false

theorem not_isWordLike_follow {seps : List Token} {next : Token}
    (all : ∀ t ∈ seps, t.kind.isHeaderSeparator = true) (plain : next.isWordLike = false) :
    (follow seps next).isWordLike = false := by
  cases seps with
  | nil => exact plain
  | cons t ts =>
    have kind := all t List.mem_cons_self
    show t.kind.isWordLike = false
    revert kind
    cases t.kind <;> decide

/-- The parts of a header in turn, up to the token of kind `k` that ends it. -/
theorem header_iff {β : Type} {k : Kind} (plain : k.isWordLike = false)
    (solid : k.isHeaderSeparator = false) {H : Expr → List Expr → Phrase β} {next : Token}
    {ws : List Token} {b : β} :
    ((Phrase.single IsExpr).bind fun e => TrailingWords.bind fun es =>
      HeaderSeparators.bind fun _ => (Phrase.single fun t u => t.kind = k ∧ u = t).bind fun _ =>
        H e es) next ws b ↔
      ∃ hs opener vs e es, ws = hs ++ opener :: vs ∧ IsHeader hs e es ∧ opener.kind = k ∧
        H e es next vs b := by
  constructor
  · intro h
    obtain ⟨t, _, e, rfl, first, us, _, es, rfl, ⟨others, -⟩, seps, _, _, rfl, ⟨all, -⟩, h⟩ :=
      Phrase.bind_single.1 h
    obtain ⟨_, vs, opener, rfl, ⟨kind, rfl⟩, inside⟩ := Phrase.bind_single.1 h
    exact ⟨t :: us ++ seps, opener, vs, e, es, by simp, .mk first others all, kind, inside⟩
  · rintro ⟨_, opener, vs, e, es, rfl, ⟨first, others, all⟩, kind, inside⟩
    rename_i t us seps
    have plain' : opener.isWordLike = false := by
      show opener.kind.isWordLike = false
      rw [kind, plain]
    have solid' : opener.kind.isHeaderSeparator = false := by rw [kind, solid]
    have stop : (follow (seps ++ opener :: vs) next).isWordLike = false := by
      rw [follow_append, follow_cons]
      exact not_isWordLike_follow all plain'
    refine Phrase.bind_single.2 ⟨t, us ++ (seps ++ opener :: vs), e, by simp, first, us, _, es, rfl,
      ⟨others, stop⟩, seps, _, (), rfl, ⟨all, solid'⟩, ?_⟩
    exact Phrase.bind_single.2 ⟨opener, vs, opener, rfl, ⟨kind, rfl⟩, inside⟩

/-! ## Compound statements -/

section Compound

variable {inner : Inner} {S : Phrase Statement}

theorem reads_elsePart? (reads : Reads inner (Attempt S)) (opens : Opens S) :
    Reads (elsePart? inner) fun next ws o =>
      (∃ t us ss, ws = t :: us ∧ t.kind = .kwElse ∧
        (IsBlock S next us ss ∧ Block.elsePart.Ends next) ∧ o = some ss) ∨
        (ws = [] ∧ next.kind ≠ .kwElse ∧ o = none) :=
  reads_optional Kind.noConfusion (reads_block reads opens (by decide))

theorem reads_conditional (reads : Reads inner (Attempt S)) (opens : Opens S) :
    Reads (conditional inner) (IsConditional S) := by
  have closes : Block.thenPart.Closes := by decide
  refine ((reads_expect Kind.noConfusion _).bind fun opener =>
    (reads_expression).bind fun condition => (reads_trailingWords).bind fun args =>
      (reads_headerSeparators).bind fun _ =>
      (reads_expect Kind.noConfusion _).bind fun _ => (reads_block reads opens closes).bind
        fun thenBody => (reads_elsePart? reads opens).bind fun elseBody =>
          (reads_expect Kind.noConfusion _).bind fun _ => (reads_spanFrom opener.position).bind
            fun position => .pure (Statement.conditional condition args thenBody elseBody
              position)).congr ?_
  intro next ws s
  rw [Phrase.bind_single]
  simp only [header_iff (k := .kwThen) rfl rfl]
  constructor
  · rintro ⟨_, _, kwIf, rfl, ⟨if_kind, rfl⟩, hs, kwThen, _, e, es, rfl, header, then_kind,
      us, _, thenBody, rfl, ⟨then_body, -⟩, vs, _, o, rfl, else_part, h⟩
    obtain ⟨_, _, kwFi, rfl, ⟨fi_kind, rfl⟩, last⟩ := Phrase.bind_single.1 h
    obtain ⟨rfl, rfl⟩ := Phrase.bind_ask.1 last
    rcases else_part with ⟨kwElse, ws, elseBody, rfl, else_kind, ⟨else_body, -⟩, rfl⟩ |
      ⟨rfl, -, rfl⟩
    · have whole : IsConditional S next _ _ :=
        .withElse if_kind header then_kind then_body else_kind else_body fi_kind
      simpa using whole
    · have whole : IsConditional S next _ _ := .noElse if_kind header then_kind then_body fi_kind
      simpa using whole
  · intro h
    cases h with
    | @noElse _ kwIf kwThen kwFi hs us e es thenBody if_kind header then_kind then_body fi_kind =>
      have plain : kwFi.kind ≠ .kwElse := fi_kind.trans_ne Kind.noConfusion
      have ends : Block.thenPart.Ends kwFi := Or.inr (by rw [fi_kind]; decide)
      exact ⟨kwIf, hs ++ kwThen :: (us ++ [kwFi]), kwIf, by simp, ⟨if_kind, rfl⟩,
        hs, kwThen, us ++ [kwFi], e, es, rfl, header, then_kind,
        us, [kwFi], thenBody, rfl, ⟨then_body, ends⟩, [], [kwFi], none, rfl,
        Or.inr ⟨rfl, plain, rfl⟩,
        Phrase.bind_single.2 ⟨kwFi, [], kwFi, rfl, ⟨fi_kind, rfl⟩, Phrase.bind_ask.2 ⟨rfl, rfl⟩⟩⟩
    | @withElse _ kwIf kwThen kwElse kwFi hs us vs e es thenBody elseBody if_kind header then_kind
        then_body else_kind else_body fi_kind =>
      have ends : Block.thenPart.Ends kwElse := Or.inr (by rw [else_kind]; decide)
      have ends' : Block.elsePart.Ends kwFi := Or.inr (by rw [fi_kind]; decide)
      exact ⟨kwIf, hs ++ kwThen :: (us ++ kwElse :: (vs ++ [kwFi])), kwIf, by simp, ⟨if_kind, rfl⟩,
        hs, kwThen, us ++ kwElse :: (vs ++ [kwFi]), e, es, rfl, header, then_kind,
        us, kwElse :: (vs ++ [kwFi]), thenBody, rfl, ⟨then_body, ends⟩,
        kwElse :: vs, [kwFi], some elseBody, rfl,
        Or.inl ⟨kwElse, vs, elseBody, rfl, else_kind, ⟨else_body, ends'⟩, rfl⟩,
        Phrase.bind_single.2 ⟨kwFi, [], kwFi, rfl, ⟨fi_kind, rfl⟩, Phrase.bind_ask.2 ⟨rfl, rfl⟩⟩⟩

/-- What a loop is behind its header, in turn. -/
abbrev LoopBody (S : Phrase Statement) : Phrase (List Statement) :=
  HeaderSeparators.bind fun _ => (Phrase.single fun t u => t.kind = .kwDo ∧ u = t).bind fun _ =>
    Phrase.bind (fun next ws ss => IsBlock S next ws ss ∧ Block.loopBody.Ends next) fun body =>
      (Phrase.single fun t u => t.kind = .kwDone ∧ u = t).bind fun _ => Phrase.pure body

theorem reads_loopBody (reads : Reads inner (Attempt S)) (opens : Opens S) :
    Reads (loopBody inner) (LoopBody S) :=
  (reads_headerSeparators).bind fun _ => (reads_expect Kind.noConfusion _).bind fun _ =>
    (reads_block reads opens (by decide)).bind fun body =>
      (reads_expect Kind.noConfusion _).bind fun _ => .pure body

/-- The parts of a loop in turn, from its header to its `done`. -/
theorem loop_iff {β : Type} {H : Expr → List Expr → List Statement → Phrase β} {next : Token}
    {ws : List Token} {b : β} :
    ((Phrase.single IsExpr).bind fun e => TrailingWords.bind fun es => (LoopBody S).bind (H e es))
      next ws b ↔
      ∃ hs kwDo us kwDone vs e es body, ws = hs ++ kwDo :: us ++ kwDone :: vs ∧ IsHeader hs e es ∧
        kwDo.kind = .kwDo ∧ IsBlock S kwDone us body ∧ kwDone.kind = .kwDone ∧
        H e es body next vs b := by
  simp only [LoopBody, Phrase.bind_assoc, header_iff (k := .kwDo) rfl rfl]
  constructor
  · rintro ⟨hs, kwDo, _, e, es, rfl, header, do_kind, us, _, _, rfl, ⟨inside, -⟩, h⟩
    obtain ⟨_, _, kwDone, rfl, ⟨done_kind, rfl⟩, _, vs, body, rfl, ⟨rfl, rfl⟩, last⟩ :=
      Phrase.bind_single.1 h
    exact ⟨hs, kwDo, us, kwDone, vs, e, es, body, by simp, header, do_kind, inside, done_kind, last⟩
  · rintro ⟨hs, kwDo, us, kwDone, vs, e, es, body, rfl, header, do_kind, inside, done_kind, last⟩
    have ends : Block.loopBody.Ends kwDone := Or.inr (by rw [done_kind]; decide)
    exact ⟨hs, kwDo, us ++ kwDone :: vs, e, es, by simp, header, do_kind, us, kwDone :: vs, body,
      rfl, ⟨inside, ends⟩, Phrase.bind_single.2 ⟨kwDone, vs, kwDone, rfl, ⟨done_kind, rfl⟩,
        [], vs, body, rfl, ⟨rfl, rfl⟩, last⟩⟩

theorem reads_forLoop (reads : Reads inner (Attempt S)) (opens : Opens S) (opener : Token) :
    Reads (forLoop inner opener) fun next ws s =>
      ∃ name kwIn hs kwDo us kwDone e es body,
        ws = name :: kwIn :: hs ++ kwDo :: us ++ [kwDone] ∧ name.kind = .word ∧
        kwIn.isWord "in" = true ∧ IsHeader hs e es ∧ kwDo.kind = .kwDo ∧
        IsBlock S kwDone us body ∧ kwDone.kind = .kwDone ∧
        s = .loop (.forIn name.text e) [] (e :: es) body
          (Span.reach? opener.position next.position) := by
  refine ((reads_expect Kind.noConfusion _).bind fun name => (reads_expectWord "in").bind fun _ =>
    (reads_expression).bind fun iterable => (reads_trailingWords).bind fun others =>
      (reads_loopBody reads opens).bind fun body => (reads_spanFrom opener.position).bind
        fun position => .pure (Statement.loop (.forIn name.text iterable) [] (iterable :: others)
          body position)).congr ?_
  intro next ws s
  constructor
  · intro h
    obtain ⟨_, _, name, rfl, ⟨name_kind, rfl⟩, h₁⟩ := Phrase.bind_single.1 h
    obtain ⟨_, _, kwIn, rfl, ⟨in_word, rfl⟩, h₂⟩ := Phrase.bind_single.1 h₁
    obtain ⟨hs, kwDo, us, kwDone, _, e, es, body, rfl, header, do_kind, inside, done_kind, last⟩ :=
      loop_iff.1 h₂
    obtain ⟨rfl, rfl⟩ := Phrase.bind_ask.1 last
    exact ⟨name, kwIn, hs, kwDo, us, kwDone, e, es, body, by simp, name_kind, in_word, header,
      do_kind, inside, done_kind, rfl⟩
  · rintro ⟨name, kwIn, hs, kwDo, us, kwDone, e, es, body, rfl, name_kind, in_word, header,
      do_kind, inside, done_kind, rfl⟩
    refine Phrase.bind_single.2 ⟨name, kwIn :: (hs ++ kwDo :: us ++ [kwDone]), name, by simp,
      ⟨name_kind, rfl⟩, Phrase.bind_single.2 ⟨kwIn, _, kwIn, rfl, ⟨in_word, rfl⟩, loop_iff.2 ?_⟩⟩
    exact ⟨hs, kwDo, us, kwDone, [], e, es, body, by simp, header, do_kind, inside, done_kind,
      Phrase.bind_ask.2 ⟨rfl, rfl⟩⟩

theorem reads_whileLoop (reads : Reads inner (Attempt S)) (opens : Opens S) (opener : Token) :
    Reads (whileLoop inner opener) fun next ws s =>
      ∃ hs kwDo us kwDone e es body,
        ws = hs ++ kwDo :: us ++ [kwDone] ∧ IsHeader hs e es ∧ kwDo.kind = .kwDo ∧
        IsBlock S kwDone us body ∧ kwDone.kind = .kwDone ∧
        s = .loop (.whileDo e) es [] body (Span.reach? opener.position next.position) := by
  refine (reads_expression.bind fun condition => (reads_trailingWords).bind fun args =>
    (reads_loopBody reads opens).bind fun body => (reads_spanFrom opener.position).bind
      fun position => .pure (Statement.loop (.whileDo condition) args [] body position)).congr ?_
  intro next ws s
  rw [loop_iff]
  constructor
  · rintro ⟨hs, kwDo, us, kwDone, _, e, es, body, rfl, header, do_kind, inside, done_kind, last⟩
    obtain ⟨rfl, rfl⟩ := Phrase.bind_ask.1 last
    exact ⟨hs, kwDo, us, kwDone, e, es, body, rfl, header, do_kind, inside, done_kind, rfl⟩
  · rintro ⟨hs, kwDo, us, kwDone, e, es, body, rfl, header, do_kind, inside, done_kind, rfl⟩
    exact ⟨hs, kwDo, us, kwDone, [], e, es, body, rfl, header, do_kind, inside, done_kind,
      Phrase.bind_ask.2 ⟨rfl, rfl⟩⟩

/-- A loop, where its first token is the word of a loop. -/
theorem readsAt_loop (reads : Reads inner (Attempt S)) (opens : Opens S) {t : Token}
    {ts : List Token} (complete : Complete (t :: ts)) (kind : t.kind = .kwFor ∨ t.kind = .kwWhile) :
    ReadsAt (loop inner) (IsLoop S) (t :: ts) := by
  have inner_kind : t.kind ≠ .eof := by
    rcases kind with kind | kind <;> rw [kind] <;> exact Kind.noConfusion
  refine ((reads_advance.bind fun opener => Reads.ite
    (fun _ => reads_forLoop reads opens opener)
    fun _ => reads_whileLoop reads opens opener) (t :: ts) complete).congr ?_
  intro next ws others s split
  constructor
  · rintro ⟨us, vs, opener, rfl, ⟨-, rfl⟩ | ⟨eof, rfl, rfl⟩, h⟩
    · obtain ⟨rfl, -⟩ := List.cons.inj split
      rcases h with ⟨for_kind, name, kwIn, hs, kwDo, us, kwDone, e, es, body, rfl, name_kind,
        in_word, header, do_kind, inside, done_kind, rfl⟩ | ⟨other, hs, kwDo, us, kwDone, e, es,
        body, rfl, header, do_kind, inside, done_kind, rfl⟩
      · exact .forIn for_kind name_kind in_word header do_kind inside done_kind
      · exact .whileDo (kind.resolve_left other) header do_kind inside done_kind
    · exact absurd eof (follow_eq_of_split split ▸ inner_kind)
  · intro h
    cases h with
    | @forIn _ kwFor name kwIn kwDo kwDone hs us e es body for_kind name_kind in_word header do_kind
        inside done_kind =>
      have inner : kwFor.kind ≠ .eof := for_kind.trans_ne Kind.noConfusion
      exact ⟨[kwFor], _, kwFor, rfl, Or.inl ⟨inner, rfl⟩, Or.inl ⟨for_kind, name, kwIn, hs, kwDo,
        us, kwDone, e, es, body, rfl, name_kind, in_word, header, do_kind, inside, done_kind, rfl⟩⟩
    | @whileDo _ kwWhile kwDo kwDone hs us e es body while_kind header do_kind inside done_kind =>
      have inner : kwWhile.kind ≠ .eof ∧ kwWhile.kind ≠ .kwFor := by
        rw [while_kind]
        decide
      exact ⟨[kwWhile], _, kwWhile, rfl, Or.inl ⟨inner.1, rfl⟩, Or.inr ⟨inner.2, hs, kwDo, us,
        kwDone, e, es, body, rfl, header, do_kind, inside, done_kind, rfl⟩⟩

theorem reads_function (reads : Reads inner (Attempt S)) (opens : Opens S) :
    Reads (function inner) (IsFunction S) := by
  have closes : Block.functionBody.Closes := by decide
  refine ((reads_expect Kind.noConfusion _).bind fun opener =>
    (reads_expect Kind.noConfusion _).bind fun name => (reads_expect Kind.noConfusion _).bind
      fun _ => (reads_expect Kind.noConfusion _).bind fun _ =>
        (reads_expect Kind.noConfusion _).bind fun _ => (reads_block reads opens closes).bind
          fun body => (reads_expect Kind.noConfusion _).bind fun _ =>
            (reads_spanFrom opener.position).bind fun position =>
              .pure (Statement.function name.text body position)).congr ?_
  intro next ws s
  constructor
  · intro h
    obtain ⟨_, _, opener, rfl, ⟨function_kind, rfl⟩, h₁⟩ := Phrase.bind_single.1 h
    obtain ⟨_, _, name, rfl, ⟨name_kind, rfl⟩, h₂⟩ := Phrase.bind_single.1 h₁
    obtain ⟨_, _, lparen, rfl, ⟨lparen_kind, rfl⟩, h₃⟩ := Phrase.bind_single.1 h₂
    obtain ⟨_, _, rparen, rfl, ⟨rparen_kind, rfl⟩, h₄⟩ := Phrase.bind_single.1 h₃
    obtain ⟨_, _, lbrace, rfl, ⟨lbrace_kind, rfl⟩, us, _, body, rfl, ⟨inside, -⟩, h₅⟩ :=
      Phrase.bind_single.1 h₄
    obtain ⟨_, _, rbrace, rfl, ⟨rbrace_kind, rfl⟩, last⟩ := Phrase.bind_single.1 h₅
    obtain ⟨rfl, rfl⟩ := Phrase.bind_ask.1 last
    exact .mk function_kind name_kind lparen_kind rparen_kind lbrace_kind inside rbrace_kind
  · rintro ⟨function_kind, name_kind, lparen_kind, rparen_kind, lbrace_kind, inside, rbrace_kind⟩
    rename_i opener name lparen rparen lbrace rbrace us body
    have ends : Block.functionBody.Ends rbrace := Or.inr (by rw [rbrace_kind]; decide)
    refine Phrase.bind_single.2 ⟨opener, _, opener, rfl, ⟨function_kind, rfl⟩,
      Phrase.bind_single.2 ⟨name, _, name, rfl, ⟨name_kind, rfl⟩,
        Phrase.bind_single.2 ⟨lparen, _, lparen, rfl, ⟨lparen_kind, rfl⟩,
          Phrase.bind_single.2 ⟨rparen, _, rparen, rfl, ⟨rparen_kind, rfl⟩,
            Phrase.bind_single.2 ⟨lbrace, _, lbrace, rfl, ⟨lbrace_kind, rfl⟩,
              us, [rbrace], body, rfl, ⟨inside, ends⟩, ?_⟩⟩⟩⟩⟩
    exact Phrase.bind_single.2 ⟨rbrace, [], rbrace, rfl, ⟨rbrace_kind, rfl⟩,
      Phrase.bind_ask.2 ⟨rfl, rfl⟩⟩

end Compound

end ShellScript.Parse
