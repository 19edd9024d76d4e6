/-
# ShellScript.Proofs.Parse.Comment -- statements without their comments

Each parser is shown to be transparent: it makes the same of a script with and without comments.
Comments matter to three loops, and to all of them a comment is nothing: it is one of the
separators of a header, and a round that gives nothing in a block and at the top level.

A statement takes one separator behind it.  With a comment there it takes none, where without
the comment it takes the line feed; but that would be a round that gives nothing
(`transparentAt_separated`).
-/
import ShellScript.Proofs.Parse.Strip

namespace ShellScript.Parse

set_option autoImplicit false

variable {place : Option Span} {α β : Type}

/-! ## Simple statements -/

theorem not_isWordLike_of_endsLine {t : Token} (ends : t.kind.endsLine = true) :
    t.isWordLike = false := by
  unfold Token.isWordLike
  revert ends
  cases t.kind <;> decide

theorem transparent_expression : Transparent place expression := by
  refine .of_waits (o := none) (fun t ts ends => ?_) fun t ts tidy inside => ?_
  · exact ⟨_, _, expression_of_not_isWordLike (not_isWordLike_of_endsLine ends) ts⟩
  · by_cases like : t.isWordLike = true
    · obtain ⟨e, h⟩ := isWordLike_iff.1 like
      exact transparentAt_take tidy inside (expression_of_isExpr h)
    · exact transparentAt_refuse inside (expression_of_not_isWordLike (by simpa using like))

theorem transparent_expression? : Transparent place expression? := by
  refine .of_waits (o := some none) (fun t ts ends => ?_) fun t ts tidy inside => ?_
  · show (if t.isWordLike = true then _ else _ : Parse _) (t :: ts) = _
    rw [if_neg (by simp [not_isWordLike_of_endsLine ends])]
    rfl
  · exact transparentAt_peek inside
      (.ite (fun _ => (transparent_expression _ tidy).map some) fun _ => .pure none tidy)

theorem transparent_trailingWords : Transparent place trailingWords :=
  (transparent_expression?).many reads_expression? fun _ _ _ => OptionalExpr.ne_nil

/-- A redirection, where its operator stands. -/
theorem transparentAt_redirection {t : Token} {ts : List Token} (tidy : Tidy place (t :: ts))
    (inside : t.kind.endsLine = false) : TransparentAt place redirection (t :: ts) := by
  refine (transparentAt_advance tidy inside).bind fun operator rest _ tidy => ?_
  refine Transparent.of_waits (o := none) (fun u us ends => ?_) (fun u us tidy inside => ?_)
    rest tidy
  · refine ⟨.malformed (.missingKind .word "Expected redirection target" u), u :: us, ?_⟩
    show (if u.isWordLike = true then _ else _ : Parse _) (u :: us) = _
    rw [if_neg (by simp [not_isWordLike_of_endsLine ends])]
    rfl
  · refine transparentAt_peek inside (.ite (fun _ => ?_) fun _ =>
      transparentAt_refuse inside fun _ => rfl)
    exact (transparent_expression _ tidy).bind fun target rest _ tidy =>
      (transparent_spanFrom operator.position rest tidy).map (Redirection.mk operator.text target)

theorem transparent_part? : Transparent place part? := by
  refine .of_waits (o := some none) (fun t ts ends => ?_) fun t ts tidy inside => ?_
  · have plain : t.kind.isRedirection = false := by
      revert ends
      cases t.kind <;> decide
    show (if t.isWordLike = true then _ else if t.kind.isRedirection = true then _ else _ :
      Parse _) (t :: ts) = _
    rw [if_neg (by simp [not_isWordLike_of_endsLine ends]), if_neg (by simp [plain])]
    rfl
  · exact transparentAt_peek inside (.ite
      (fun _ => (transparent_expression _ tidy).map
        fun e => some (Part.argument (argumentText t) e))
      fun _ => .ite
        (fun _ => (transparentAt_redirection tidy inside).map fun r => some (Part.redirection r))
        fun _ => .pure none tidy)

theorem transparent_command : Transparent place command :=
  (transparent_expect rfl _).bind fun name =>
    (transparent_part?.many reads_part? fun _ _ _ => OptionalPart.ne_nil).bind fun _ =>
      (transparent_spanFrom name.position).map _

theorem transparent_pipedCommand? : Transparent place pipedCommand? :=
  (transparent_accept rfl).bind fun _ => .ite (transparent_command.map some) (.pure none)

theorem transparent_pipeline : Transparent place pipeline := by
  refine (transparent_command).bind fun first =>
    (transparent_pipedCommand?.many reads_pipedCommand? fun _ _ _ => OptionalPiped.ne_nil).bind
      fun others => ?_
  cases others with
  | nil => exact .pure (Statement.command first)
  | cons second others =>
    exact (transparent_spanFrom first.position).map (Statement.pipeline first second others)

/-- An assignment, where its name stands. -/
theorem transparentAt_assignment {t : Token} {ts : List Token} (tidy : Tidy place (t :: ts))
    (inside : t.kind.endsLine = false) : TransparentAt place assignment (t :: ts) :=
  (transparentAt_advance tidy inside).bind fun name rest _ tidy =>
    ((transparent_expectWord "=").bind fun _ => (transparent_expression).bind fun value =>
      (transparent_spanFrom name.position).map (Statement.assignment name.text value)) rest tidy

/-- Neither a comment nor the token behind it is the `=` of an assignment. -/
theorem any_isWord_strip {ts : List Token} (tidy : Tidy place ts) :
    ((strip ts).head?.any fun u => u.isWord "=") = ts.head?.any fun u => u.isWord "=" := by
  cases ts with
  | nil => exact tidy.complete.elim
  | cons t ts =>
    obtain ⟨u, us, eq, -, rfl | ⟨comment, ends⟩⟩ := tidy.exists_strip
    · rw [eq]
      rfl
    · rw [eq]
      rcases ends with kind | kind <;> simp [Token.isWord, comment, kind]

theorem transparentAt_isAssignment {t : Token} {ts : List Token} (tidy : Tidy place (t :: ts))
    (inside : t.kind.endsLine = false) : TransparentAt place isAssignment (t :: ts) := by
  have same := any_isWord_strip (tidy.tail (ne_eof inside))
  unfold TransparentAt
  rw [strip_within inside, isAssignment_cons, isAssignment_cons, same, ← strip_within inside]
  exact .ok tidy

theorem transparent_simple? : Transparent place simple? := by
  refine .of_waits (o := some none) (fun t ts ends => ?_) fun t ts tidy inside => ?_
  · exact simple?_plain (ne_of_endsLine ends rfl) ts
  · refine (transparentAt_isAssignment tidy inside).bind fun assigns rest looked _ => ?_
    rw [isAssignment_cons] at looked
    cases looked
    refine .ite (fun _ => (transparentAt_assignment tidy inside).map some) fun _ => ?_
    exact ((transparent_check rfl).bind fun _ => .ite (transparent_pipeline.map some) (.pure none))
      _ tidy

/-! ## Headers and blocks -/

/-- Comments are header separators, and line feeds are, too. -/
theorem transparent_headerSeparators : Transparent place headerSeparators := by
  have passed {t : Token} {ts : List Token} (complete : Complete (t :: ts)) {k : Kind}
      (kind : t.kind = k) (separates : k.isHeaderSeparator = true) :
      headerSeparators (t :: ts) = headerSeparators ts := by
    rw [headerSeparators_cons complete, kind, if_pos separates]
  refine .of_rounds (fun t ts complete newline => passed complete newline rfl)
    (fun t u us complete comment _ => passed complete comment rfl)
    fun t ts tidy newline comment later => ?_
  have complete := complete_strip tidy.complete
  rw [strip_cons comment] at complete
  unfold TransparentAt
  rw [strip_cons comment, headerSeparators_cons tidy.complete, headerSeparators_cons complete]
  by_cases separator : t.kind.isHeaderSeparator = true
  · rw [if_pos separator, if_pos separator]
    exact later ts (Nat.le_refl _) (tidy.tail (ne_eof_of_isHeaderSeparator separator))
  · rw [if_neg separator, if_neg separator, ← strip_cons comment]
    exact .ok tidy

/-- Behind a separator, if there is one.  Whether it is a semicolon can be seen without the
comments; and if it is a line feed, the parser would go over it itself. -/
theorem transparentAt_separated {p : Parse α} {rest : List Token} (tidy : Tidy place rest)
    (feeds : ∀ t ts, Complete (t :: ts) → t.kind = .newline → p (t :: ts) = p ts)
    (clear : ∀ left, left.length ≤ rest.length → Tidy place left → TransparentAt place p left)
    (f : α → β) : TransparentAt place (do separator; return f (← p)) rest := by
  cases rest with
  | nil => exact tidy.complete.elim
  | cons t ts =>
    obtain ⟨u, us, eq, -, first⟩ := tidy.exists_strip
    have complete := complete_strip tidy.complete
    rw [eq] at complete
    unfold TransparentAt
    rw [separated_eq (feeds t ts tidy.complete) f, eq, separated_eq (feeds u us complete) f]
    by_cases semicolon : t.kind = .semicolon
    · have plain : t.kind ≠ .comment := semicolon.trans_ne Kind.noConfusion
      have inner : t.kind ≠ .eof := semicolon.trans_ne Kind.noConfusion
      rw [strip_cons plain] at eq
      obtain ⟨rfl, rfl⟩ := List.cons.inj eq
      rw [if_pos semicolon, if_pos semicolon]
      exact (clear ts (Nat.le_succ _) (tidy.tail inner)).map f
    · have other : u.kind ≠ .semicolon := by
        rcases first with rfl | ⟨-, kind | kind⟩
        · exact semicolon
        · rw [kind]
          exact Kind.noConfusion
        · rw [kind]
          exact Kind.noConfusion
      rw [if_neg semicolon, if_neg other, ← eq]
      exact (clear _ (Nat.le_refl _) tidy).map f

theorem transparent_block {inner : Inner} {S : Phrase Statement} {b : Block}
    (reads : Reads inner (Attempt S)) (opens : Opens S) (closes : b.Closes)
    (clear : Transparent place inner) : Transparent place (block inner b) := by
  have inside {k : Kind} {t : Token} (kind : t.kind = k) (inner : k ≠ .eof)
      (plain : k.isBlockCloser = false) : ¬ b.Ends t :=
    closes.inside (kind ▸ inner) (kind ▸ plain)
  have feeds (t : Token) (ts : List Token) (complete : Complete (t :: ts))
      (newline : t.kind = .newline) : block inner b (t :: ts) = block inner b ts :=
    block_newline reads opens complete (inside newline Kind.noConfusion rfl) newline
  refine .of_rounds feeds (fun t u us complete comment _ => block_comment reads opens complete
    (inside comment Kind.noConfusion rfl) comment) fun t ts tidy newline comment later => ?_
  have complete := complete_strip tidy.complete
  rw [strip_cons comment] at complete
  by_cases ends : b.Ends t
  · unfold TransparentAt
    rw [strip_cons comment, block_of_ends reads opens tidy.complete ends,
      block_of_ends reads opens complete ends, ← strip_cons comment]
    exact .ok tidy
  refine .of_eq (block_inside reads opens tidy.complete ends newline)
    (by rw [strip_cons comment, block_inside reads opens complete ends newline]) ?_
  refine (clear _ tidy).bind fun o rest tried tidy' => ?_
  cases o with
  | none =>
    obtain ⟨e, refuses⟩ := exists_refuse b t
    unfold TransparentAt
    simp only [if_neg comment, refuses]
    exact .error
  | some s =>
    have fewer := reads.length_lt (fun _ _ _ => Attempt.ne_nil opens) tidy.complete tried
    exact transparentAt_separated tidy' feeds (fun left small => later left
      (Nat.le_trans small (Nat.le_of_lt_succ fewer))) (s :: ·)

/-! ## Compound statements -/

section Compound

variable {inner : Inner} {S : Phrase Statement} (reads : Reads inner (Attempt S))
  (opens : Opens S) (clear : Transparent place inner)

include reads opens clear

theorem transparent_elsePart? : Transparent place (elsePart? inner) :=
  (transparent_accept rfl).bind fun _ =>
    .ite ((transparent_block reads opens (by decide) clear).map some) (.pure none)

theorem transparent_conditional : Transparent place (conditional inner) :=
  (transparent_expect rfl _).bind fun opener => (transparent_expression).bind fun condition =>
    (transparent_trailingWords).bind fun args => (transparent_headerSeparators).bind fun _ =>
      (transparent_expect rfl _).bind fun _ =>
        (transparent_block reads opens (by decide) clear).bind fun thenBody =>
          (transparent_elsePart? reads opens clear).bind fun elseBody =>
            (transparent_expect rfl _).bind fun _ => (transparent_spanFrom opener.position).map
              (Statement.conditional condition args thenBody elseBody)

theorem transparent_loopBody : Transparent place (loopBody inner) :=
  (transparent_headerSeparators).bind fun _ => (transparent_expect rfl _).bind fun _ =>
    (transparent_block reads opens (by decide) clear).bind fun body =>
      (transparent_expect rfl _).map fun _ => body

theorem transparent_forLoop (opener : Token) : Transparent place (forLoop inner opener) :=
  (transparent_expect rfl _).bind fun name => (transparent_expectWord "in").bind fun _ =>
    (transparent_expression).bind fun iterable => (transparent_trailingWords).bind fun others =>
      (transparent_loopBody reads opens clear).bind fun body =>
        (transparent_spanFrom opener.position).map
          (Statement.loop (.forIn name.text iterable) [] (iterable :: others) body)

theorem transparent_whileLoop (opener : Token) : Transparent place (whileLoop inner opener) :=
  (transparent_expression).bind fun condition => (transparent_trailingWords).bind fun args =>
    (transparent_loopBody reads opens clear).bind fun body =>
      (transparent_spanFrom opener.position).map (Statement.loop (.whileDo condition) args [] body)

/-- A loop, where its first word stands. -/
theorem transparentAt_loop {t : Token} {ts : List Token} (tidy : Tidy place (t :: ts))
    (inside : t.kind.endsLine = false) : TransparentAt place (loop inner) (t :: ts) :=
  (transparentAt_advance tidy inside).bind fun opener rest _ tidy =>
    .ite (fun _ => transparent_forLoop reads opens clear opener rest tidy)
      fun _ => transparent_whileLoop reads opens clear opener rest tidy

theorem transparent_function : Transparent place (function inner) :=
  (transparent_expect rfl _).bind fun opener => (transparent_expect rfl _).bind fun name =>
    (transparent_expect rfl _).bind fun _ => (transparent_expect rfl _).bind fun _ =>
      (transparent_expect rfl _).bind fun _ =>
        (transparent_block reads opens (by decide) clear).bind fun body =>
          (transparent_expect rfl _).bind fun _ =>
            (transparent_spanFrom opener.position).map (Statement.function name.text body)

/-- The statement that a token of some kind opens. -/
theorem transparentAt_compound {t : Token} {ts : List Token} (tidy : Tidy place (t :: ts))
    {compound : Inner → Parse Statement} (opener : compound? t.kind = some compound) :
    TransparentAt place (compound inner) (t :: ts) := by
  cases kind : t.kind <;> simp only [compound?, kind, reduceCtorEq, Option.some.injEq] at opener
  all_goals subst opener
  · exact transparent_conditional reads opens clear _ tidy
  · exact transparentAt_loop reads opens clear tidy (by rw [kind]; rfl)
  · exact transparentAt_loop reads opens clear tidy (by rw [kind]; rfl)
  · exact transparent_function reads opens clear _ tidy

end Compound

/-- A statement of any depth, by induction on how deep it may nest. -/
theorem transparent_statementWithin (depth : Nat) : Transparent place (statementWithin depth) := by
  induction depth using Nat.strongRecOn with
  | ind depth ih =>
    rintro (_ | ⟨t, ts⟩) tidy
    · exact tidy.complete.elim
    have nothing {u : Token} (us : List Token) (ends : u.kind.endsLine = true) :
        statementWithin depth (u :: us) = .ok none (if u.kind = .comment then us else u :: us) :=
      statementWithin_plain depth us (by revert ends; cases u.kind <;> decide)
        (ne_of_endsLine ends rfl)
    cases ends : t.kind.endsLine with
    | true =>
      obtain ⟨u, us, eq, ends', plain⟩ := tidy.exists_strip_of_endsLine ends
      unfold TransparentAt
      rw [nothing ts ends, eq, nothing us ends', if_neg plain, ← eq]
      by_cases comment : t.kind = .comment
      · rw [if_pos comment, strip_comment comment]
        exact .ok (tidy.tail (by rw [comment]; exact Kind.noConfusion))
      · rw [if_neg comment]
        exact .ok tidy
    | false =>
      have here (ts : List Token) := statementWithin_cons depth t ts
      simp only [if_neg (ne_comment ends), if_neg (ne_eof ends)] at here
      refine .of_eq (here ts) (by rw [strip_within ends, here]) ?_
      cases opener : compound? t.kind with
      | none => exact transparent_simple? _ tidy
      | some compound =>
        cases depth with
        | zero => exact .error
        | succ depth =>
          exact (transparentAt_compound (reads_statementWithin depth) (opens_within depth)
            (ih depth (Nat.lt_succ_self depth)) tidy opener).map some

/-! ## The top level -/

theorem transparent_body : Transparent place body := by
  have feeds (t : Token) (ts : List Token) (complete : Complete (t :: ts))
      (newline : t.kind = .newline) : body (t :: ts) = body ts := body_newline complete newline
  refine .of_rounds feeds (fun t u us => body_comment) fun t ts tidy newline comment later => ?_
  have complete := complete_strip tidy.complete
  rw [strip_cons comment] at complete
  by_cases last : t.kind = .eof
  · unfold TransparentAt
    rw [strip_cons comment, body_of_eof ts last, body_of_eof _ last, ← strip_cons comment]
    exact .ok tidy
  refine .of_eq (body_inside tidy.complete last newline comment)
    (by rw [strip_cons comment, body_inside complete last newline comment]) ?_
  refine (transparent_statementWithin nestingLimit _ tidy).bind fun o rest tried tidy' => ?_
  cases o with
  | some s =>
    have fewer := (reads_statement).length_lt
      (fun _ _ _ => Attempt.ne_nil (opens_within nestingLimit))
      tidy.complete tried
    exact transparentAt_separated tidy' feeds (fun left small => later left
      (Nat.le_trans small (Nat.le_of_lt_succ fewer))) (Item.statement s).cons
  | none =>
    have inside : t.kind.endsLine = false := by
      revert comment newline last
      cases t.kind <;> simp [Kind.endsLine]
    obtain rfl := eq_of_attempt reads_statement tidy.complete comment tried
    refine (transparentAt_advance tidy inside).bind fun u rest taken tidy' => ?_
    rw [advance_cons last] at taken
    cases taken
    exact transparentAt_separated tidy' feeds later (Item.skipped t).cons

end ShellScript.Parse
