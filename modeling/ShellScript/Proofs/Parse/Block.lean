/-
# ShellScript.Proofs.Parse.Block -- the parser of a block reads the grammar

The parser of a block takes the parser of the statements inside as an argument, as
the rule of a block takes their phrases; so it is shown to read that rule for
whatever the inner parser reads (`Attempt`).

The parser takes a line feed behind a statement as that statement's separator,
where the grammar also lets it stand for itself; `rounds_of_isBlock` chooses as the
parser does.
-/
import ShellScript.Proofs.Parse.Command
import ShellScript.Proofs.Parse.Fails

namespace ShellScript.Parse

set_option autoImplicit false

open Grammar

/-! ## Attempts -/

/-- What an inner parser takes where statements are phrases of `S`. -/
inductive Attempt (S : Phrase Statement) : Phrase (Option Statement)
  | statement {next : Token} {ws : List Token} {s : Statement} (h : S next ws s) :
      Attempt S next ws (some s)
  | comment {next t : Token} (kind : t.kind = .comment) : Attempt S next [t] none
  | nothing {next : Token} (opens : next.kind.opensStatement = false)
      (kind : next.kind ≠ .comment) : Attempt S next [] none

/-- A phrase of `S` starts as statements do. -/
def Opens (S : Phrase Statement) : Prop :=
  ∀ next ws s, S next ws s → ∃ t ts, ws = t :: ts ∧ t.kind.opensStatement = true

/-- An attempt that gives a statement takes a token. -/
theorem Attempt.ne_nil {S : Phrase Statement} (opens : Opens S) {next : Token} {ws : List Token}
    {s : Statement} (h : Attempt S next ws (some s)) : ws ≠ [] := by
  cases h with
  | statement h =>
    obtain ⟨t, ts, rfl, -⟩ := opens _ _ _ h
    exact List.cons_ne_nil t ts

/-- One separator between statements, where one stands. -/
inductive IsSeparator : Phrase Unit
  | taken {next t : Token} (kind : t.kind = .semicolon ∨ t.kind = .newline) :
      IsSeparator next [t] ()
  | none {next : Token} (no_semicolon : next.kind ≠ .semicolon)
      (no_newline : next.kind ≠ .newline) : IsSeparator next [] ()

theorem separator_cons (t : Token) (ts : List Token) :
    separator (t :: ts) =
      .ok () (if t.kind = .semicolon ∨ t.kind = .newline then ts else t :: ts) := by
  by_cases semicolon : t.kind = .semicolon
  · rw [if_pos (Or.inl semicolon)]
    exact bind_of_ok (accept_of_kind Kind.noConfusion semicolon ts) _
  refine (bind_of_ok (accept_of_ne Kind.noConfusion semicolon ts) _).trans ?_
  by_cases newline : t.kind = .newline
  · rw [if_pos (Or.inr newline)]
    exact bind_of_ok (accept_of_kind Kind.noConfusion newline ts) _
  · rw [if_neg (not_or.2 ⟨semicolon, newline⟩)]
    exact bind_of_ok (accept_of_ne Kind.noConfusion newline ts) _

theorem reads_separator : Reads separator IsSeparator := by
  refine ((reads_accept Kind.noConfusion).bind fun b => Reads.ite (fun _ => .pure ())
    fun _ => (reads_accept Kind.noConfusion).bind fun _ => .pure ()).congr ?_
  intro next ws u
  constructor
  · rintro ⟨us, vs, b, rfl, ⟨rfl, t, rfl, kind⟩ | ⟨rfl, rfl, first⟩, h⟩
    · rcases h with ⟨-, rfl, rfl⟩ | ⟨no, -⟩
      · exact .taken (Or.inl kind)
      · exact absurd rfl no
    · rcases h with ⟨yes, -⟩ | ⟨-, h⟩
      · cases yes
      · obtain ⟨c, ⟨-, t, rfl, kind⟩ | ⟨-, rfl, second⟩, rfl⟩ := Phrase.bind_pure.1 h
        · exact .taken (Or.inr kind)
        · exact .none first second
  · intro h
    cases h with
    | @taken _ t kind =>
      rcases kind with kind | kind
      · exact ⟨[t], [], true, rfl, Or.inl ⟨rfl, t, rfl, kind⟩, Or.inl ⟨rfl, rfl, rfl⟩⟩
      · refine ⟨[], [t], false, rfl, Or.inr ⟨rfl, rfl, ?_⟩,
          Or.inr ⟨Bool.false_ne_true, Phrase.bind_pure.2 ⟨true, Or.inl ⟨rfl, t, rfl, kind⟩, rfl⟩⟩⟩
        show t.kind ≠ .semicolon
        rw [kind]
        exact Kind.noConfusion
    | none first second =>
      exact ⟨[], [], false, rfl, Or.inr ⟨rfl, rfl, first⟩, Or.inr ⟨Bool.false_ne_true,
        Phrase.bind_pure.2 ⟨false, Or.inr ⟨rfl, rfl, second⟩, rfl⟩⟩⟩

/-- Statements do not start with separators. -/
theorem IsSeparator.none_of_opens {t : Token} (starts : t.kind.opensStatement = true) :
    IsSeparator t [] () :=
  .none (Kind.ne_of_opensStatement starts rfl) (Kind.ne_of_opensStatement starts rfl)

/-- A kind that is no separator. -/
theorem IsSeparator.none_of_kind {t : Token} {k : Kind} (kind : t.kind = k)
    (no_semicolon : k ≠ .semicolon) (no_newline : k ≠ .newline) : IsSeparator t [] () := by
  subst kind
  exact .none no_semicolon no_newline

/-! ## Blocks -/

/-- A token that ends a block. -/
def Block.Ends (b : Block) (t : Token) : Prop := t.kind = .eof ∨ t.kind ∈ b.terminators

theorem Block.ends_iff (b : Block) (t : Token) :
    (decide (t.kind = .eof) || b.terminators.contains t.kind) = true ↔ b.Ends t := by
  simp [Block.Ends]

/-- One round of a block. -/
inductive BlockItem (S : Phrase Statement) (b : Block) : Phrase (Option (Option Statement))
  | stop {next : Token} (ends : b.Ends next) : BlockItem S b next [] none
  | newline {next t : Token} (inside : ¬ b.Ends t) (kind : t.kind = .newline) :
      BlockItem S b next [t] (some none)
  | comment {next t : Token} (inside : ¬ b.Ends t) (kind : t.kind = .comment) :
      BlockItem S b next [t] (some none)
  | statement {next : Token} {us vs : List Token} {s : Statement}
      (inside : ¬ b.Ends (follow (us ++ vs) next)) (first : S (follow vs next) us s)
      (separator : IsSeparator next vs ()) : BlockItem S b next (us ++ vs) (some (some s))

section Blocks

variable {inner : Inner} {S : Phrase Statement} {b : Block}

/-- A block as there are: its terminators close blocks, and there is a message for
the one that is missing. -/
structure Block.Closes (b : Block) : Prop where
  terminators : ∀ k ∈ b.terminators, k.isBlockCloser = true
  message : (closerMessage? b.closer).isSome = true

instance (b : Block) : Decidable b.Closes :=
  decidable_of_iff ((∀ k ∈ b.terminators, k.isBlockCloser = true) ∧
    (closerMessage? b.closer).isSome = true) ⟨fun h => ⟨h.1, h.2⟩, fun h => ⟨h.1, h.2⟩⟩

/-- A token that belongs in no block is refused. -/
theorem readsAt_refuse {α : Type} (known : (closerMessage? b.closer).isSome = true) {t : Token}
    (inner : t.kind ≠ .eof) (ts : List Token) :
    ReadsAt (refuse b t : Parse α) (fun _ _ _ => False) (t :: ts) := by
  obtain ⟨message, known⟩ := Option.isSome_iff_exists.1 known
  unfold refuse
  split
  · rw [known]
    exact .refuse rfl (.malformed (e := .missingKind b.closer message t)
      fun _ _ => SyntaxError.noConfusion)
  · refine .refuse rfl (.malformed (e := .unexpected t b.context) ?_)
    rintro _ _ ⟨⟩
    exact inner

/-- What a round makes of an attempt at a statement.  If nothing was taken, the token
`t` at the front is still there. -/
theorem readsAt_attempted (known : (closerMessage? b.closer).isSome = true) {t : Token}
    (inner : t.kind ≠ .eof) {o : Option Statement} {left : List Token} (complete : Complete left)
    (untouched : o = none → t.kind ≠ .comment → ∃ ts, left = t :: ts) :
    ReadsAt (match o with
      | some s => do
          separator
          return some (some s)
      | none => if t.kind = .comment then return some none else refuse b t : Parse _)
      (fun next ws i => (∃ s, o = some s ∧ IsSeparator next ws () ∧ i = some (some s)) ∨
        (o = none ∧ t.kind = .comment ∧ ws = [] ∧ i = some none)) left := by
  cases o with
  | some s =>
    refine ((reads_separator _ complete).map fun _ => some (some s)).congr fun next ws _ i _ => ?_
    constructor
    · rintro ⟨⟨⟩, found, rfl⟩
      exact Or.inl ⟨s, rfl, found, rfl⟩
    · rintro (⟨_, same, found, rfl⟩ | ⟨no, -⟩)
      · cases same
        exact ⟨(), found, rfl⟩
      · cases no
  | none =>
    refine (ReadsAt.ite (fun _ => Reads.pure (some none) _ complete) fun plain => ?_).congr
      fun next ws _ i _ => (by simp : (t.kind = .comment ∧ Phrase.pure (some none) next ws i) ∨
        (¬ t.kind = .comment ∧ False) ↔ _)
    obtain ⟨ts, rfl⟩ := untouched rfl plain
    exact readsAt_refuse known inner ts

/-- An attempt at a statement takes a comment. -/
theorem attempt_comment (reads : Reads inner (Attempt S)) {t : Token} {ts : List Token}
    (complete : Complete (t :: ts)) (comment : t.kind = .comment) :
    inner (t :: ts) = .ok none ts := by
  have others : Complete ts := complete.tail (by rw [comment]; exact Kind.noConfusion)
  cases ts with
  | nil => exact others.elim
  | cons u us => exact ((reads _ complete).ok _ _).2 ⟨[t], u, us, rfl, rfl, .comment comment⟩

/-- An attempt at a statement that finds none takes nothing else. -/
theorem eq_of_attempt (reads : Reads inner (Attempt S)) {t : Token} {ts rest : List Token}
    (complete : Complete (t :: ts)) (no_comment : t.kind ≠ .comment)
    (tried : inner (t :: ts) = .ok none rest) : rest = t :: ts := by
  obtain ⟨us, u, others, split, rfl, attempt⟩ := ((reads _ complete).ok _ _).1 tried
  cases attempt with
  | comment kind => exact absurd ((List.cons.inj split).1 ▸ kind) no_comment
  | nothing => exact split.symm

/-- After no line feed and no statement the parser stands where it was. -/
theorem untouched (reads : Reads inner (Attempt S)) {t : Token} {ts mid left : List Token}
    {taken : Bool} {o : Option Statement} (complete : Complete (t :: ts))
    (first : accept .newline (t :: ts) = .ok taken mid) (plain : ¬ taken = true)
    (tried : inner mid = .ok o left) (nothing : o = none) (no_comment : t.kind ≠ .comment) :
    ∃ ts, left = t :: ts := by
  subst nothing
  have feed := reads_accept (k := .newline) Kind.noConfusion
  obtain ⟨us, u, others, split, rfl, ⟨yes, -⟩ | ⟨-, rfl, -⟩⟩ := ((feed _ complete).ok _ _).1 first
  · exact absurd yes plain
  obtain ⟨rfl, rfl⟩ := List.cons.inj split
  exact ⟨ts, eq_of_attempt reads complete no_comment tried⟩

theorem reads_blockItem? (reads : Reads inner (Attempt S)) (opens : Opens S)
    (known : (closerMessage? b.closer).isSome = true) :
    Reads (blockItem? inner b) (BlockItem S b) := by
  have feed := reads_accept (k := .newline) Kind.noConfusion
  have inner_kind {t : Token}
      (inside : ¬ (decide (t.kind = .eof) || b.terminators.contains t.kind) = true) :
      t.kind ≠ .eof := by
    rw [b.ends_iff] at inside
    exact fun last => inside (Or.inl last)
  refine (Reads.peek fun t ts complete => ReadsAt.ite (fun _ => .pure none t ts) fun inside =>
    (feed _ complete).bind fun taken mid first =>
      have whole := (feed _ complete).complete_rest complete first
      ReadsAt.ite (fun _ => Reads.pure (some none) mid whole) fun plain =>
        (reads mid whole).bind fun o left tried =>
          readsAt_attempted known (inner_kind inside) ((reads mid whole).complete_rest whole tried)
            (untouched reads complete first plain tried)).congr ?_
  intro next ws i
  rw [b.ends_iff]
  constructor
  · rintro (⟨ends, rfl, rfl⟩ | ⟨inside, us, vs, taken, rfl, first, h⟩)
    · exact .stop ends
    · rcases first with ⟨rfl, t, rfl, kind⟩ | ⟨rfl, rfl, plain⟩
      · rcases h with ⟨-, rfl, rfl⟩ | ⟨no, -⟩
        · exact .newline inside kind
        · exact absurd rfl no
      · rcases h with ⟨no, -⟩ | ⟨-, us, vs, o, rfl, attempt, h⟩
        · cases no
        · rcases h with ⟨s, rfl, separator, rfl⟩ | ⟨rfl, kind, rfl, rfl⟩
          · cases attempt with
            | statement first =>
              show BlockItem S b next (us ++ vs) (some (some s))
              exact .statement inside first separator
          · cases attempt with
            | comment => exact .comment inside kind
            | nothing _ other => exact absurd kind other
  · intro h
    cases h with
    | stop ends => exact Or.inl ⟨ends, rfl, rfl⟩
    | @newline _ t inside kind =>
      exact Or.inr ⟨inside, [t], [], true, rfl, Or.inl ⟨rfl, t, rfl, kind⟩,
        Or.inl ⟨rfl, rfl, rfl⟩⟩
    | @comment _ t inside kind =>
      have plain : t.kind ≠ .newline := kind.trans_ne Kind.noConfusion
      exact Or.inr ⟨inside, [], [t], false, rfl, Or.inr ⟨rfl, rfl, plain⟩,
        Or.inr ⟨Bool.false_ne_true, [t], [], none, rfl, .comment kind,
          Or.inr ⟨rfl, kind, rfl, rfl⟩⟩⟩
    | @statement _ us vs s inside first separator =>
      obtain ⟨t, ts, rfl, starts⟩ := opens _ _ _ first
      have plain : t.kind ≠ .newline := Kind.ne_of_opensStatement starts rfl
      exact Or.inr ⟨inside, [], t :: ts ++ vs, false, rfl, Or.inr ⟨rfl, rfl, plain⟩,
        Or.inr ⟨Bool.false_ne_true, t :: ts, vs, some s, rfl, .statement first,
          Or.inl ⟨s, rfl, separator, rfl⟩⟩⟩

theorem BlockItem.ne_nil (opens : Opens S) {next : Token} {ws : List Token}
    {o : Option Statement} (h : BlockItem S b next ws (some o)) : ws ≠ [] := by
  cases h with
  | newline => exact List.cons_ne_nil _ _
  | comment => exact List.cons_ne_nil _ _
  | statement _ first =>
    obtain ⟨t, ts, rfl, -⟩ := opens _ _ _ first
    exact List.cons_ne_nil _ _

/-- A round in front of a block. -/
theorem isBlock_round {next : Token} {us ws : List Token} {i : Option Statement}
    {ss : List Statement} (first : BlockItem S b (follow ws next) us (some i))
    (others : IsBlock S next ws ss) : IsBlock S next (us ++ ws) (i.toList ++ ss) := by
  cases first with
  | newline _ kind => exact .newline kind others
  | comment _ kind => exact .comment kind others
  | statement _ first separator =>
    cases separator with
    | taken kind =>
      rw [List.append_assoc]
      exact .separated first kind others
    | none =>
      rw [List.append_nil]
      exact .statement first others

/-- Some rounds make a block, whatever stands behind them. -/
theorem isBlock_of_rounds {next : Token} {ws : List Token} {items : List (Option Statement)}
    (h : Phrase.Rounds (BlockItem S b) next ws items) : ∃ ss, IsBlock S next ws ss := by
  induction h with
  | stop => exact ⟨[], .nil⟩
  | more first _ ih =>
    obtain ⟨ss, others⟩ := ih
    exact ⟨_, isBlock_round first others⟩

theorem isBlock_of_many {next : Token} {ws : List Token} {items : List (Option Statement)}
    (h : Phrase.Many (BlockItem S b) next ws items) :
    IsBlock S next ws (items.filterMap id) ∧ b.Ends next := by
  induction h with
  | stop last =>
    cases last with
    | stop ends => exact ⟨.nil, ends⟩
  | @more _ _ _ i items first _ ih =>
    obtain ⟨others, ends⟩ := ih
    have items_eq : (i :: items).filterMap id = i.toList ++ items.filterMap id := by
      cases i <;> rfl
    rw [items_eq]
    exact ⟨isBlock_round first others, ends⟩

theorem Block.Closes.inside (closes : b.Closes) {t : Token} (inner : t.kind ≠ .eof)
    (plain : t.kind.isBlockCloser = false) : ¬ b.Ends t := by
  rintro (last | member)
  · exact inner last
  · rw [closes.terminators t.kind member] at plain
    cases plain

theorem Block.Closes.inside_of_opens (closes : b.Closes) {t : Token}
    (starts : t.kind.opensStatement = true) : ¬ b.Ends t := by
  have plain : t.kind ≠ .eof ∧ t.kind.isBlockCloser = false := by
    revert starts
    cases t.kind <;> decide
  exact closes.inside plain.1 plain.2

theorem Block.Closes.separator_none (closes : b.Closes) {t : Token} (ends : b.Ends t) :
    IsSeparator t [] () := by
  have other (k : Kind) (inner : k ≠ .eof) (plain : k.isBlockCloser = false) : t.kind ≠ k := by
    intro kind
    subst kind
    exact closes.inside inner plain ends
  exact .none (other .semicolon Kind.noConfusion rfl) (other .newline Kind.noConfusion rfl)

/-- The rounds of a block, as the parser goes through them: a line feed behind a
statement belongs to that statement's round. -/
theorem rounds_of_isBlock (opens : Opens S) (closes : b.Closes) {next : Token} {ws : List Token}
    {ss : List Statement} (h : IsBlock S next ws ss) (no_separator : IsSeparator next [] ()) :
    ∃ items, Phrase.Rounds (BlockItem S b) next ws items ∧ items.filterMap id = ss := by
  induction h with
  | nil => exact ⟨[], .stop, rfl⟩
  | newline kind _ ih =>
    obtain ⟨items, others, rfl⟩ := ih no_separator
    have inside := closes.inside (by rw [kind]; exact Kind.noConfusion) (by rw [kind]; rfl)
    exact ⟨none :: items, .more (.newline inside kind) others, rfl⟩
  | comment kind _ ih =>
    obtain ⟨items, others, rfl⟩ := ih no_separator
    have inside := closes.inside (by rw [kind]; exact Kind.noConfusion) (by rw [kind]; rfl)
    exact ⟨none :: items, .more (.comment inside kind) others, rfl⟩
  | @statement next us ws s ss first _ ih =>
    obtain ⟨items, others, rfl⟩ := ih no_separator
    obtain ⟨u, us, rfl, starts⟩ := opens _ _ _ first
    have inside := closes.inside_of_opens starts
    have alone (separator : IsSeparator (follow ws next) [] ()) :
        Phrase.Rounds (BlockItem S b) next (u :: us ++ ws) (some s :: items) := by
      have round : BlockItem S b (follow ws next) (u :: us ++ []) (some (some s)) :=
        .statement inside first separator
      rw [List.append_nil] at round
      exact .more round others
    cases others with
    | stop => exact ⟨[some s], alone no_separator, rfl⟩
    | @more _ us' ws _ items item rest =>
      cases item with
      | @newline _ t _ kind =>
        refine ⟨some s :: items, ?_, rfl⟩
        rw [← List.append_assoc]
        exact .more (.statement inside first (.taken (Or.inr kind))) rest
      | comment _ kind =>
        exact ⟨_, alone (.none_of_kind kind Kind.noConfusion Kind.noConfusion), rfl⟩
      | statement _ first' =>
        obtain ⟨t, ts, rfl, starts'⟩ := opens _ _ _ first'
        exact ⟨_, alone (.none_of_opens starts'), rfl⟩
  | @separated next t us ws s ss first kind _ ih =>
    obtain ⟨items, others, rfl⟩ := ih no_separator
    obtain ⟨u, us, rfl, starts⟩ := opens _ _ _ first
    refine ⟨some s :: items, ?_, rfl⟩
    rw [List.append_cons]
    exact .more (.statement (closes.inside_of_opens starts) first (.taken kind)) others

theorem reads_block (reads : Reads inner (Attempt S)) (opens : Opens S) (closes : b.Closes) :
    Reads (block inner b) fun next ws ss => IsBlock S next ws ss ∧ b.Ends next := by
  have rounds := (reads_blockItem? reads opens closes.message).many fun _ _ _ =>
    BlockItem.ne_nil opens
  refine (rounds.bind fun items => .pure (items.filterMap id)).congr fun next ws ss => ?_
  rw [Phrase.bind_pure]
  constructor
  · rintro ⟨items, rounds, rfl⟩
    exact isBlock_of_many rounds
  · rintro ⟨h, ends⟩
    obtain ⟨items, rounds, rfl⟩ := rounds_of_isBlock opens closes h (closes.separator_none ends)
    exact ⟨items, rounds.many (.stop ends), rfl⟩

end Blocks

end ShellScript.Parse
