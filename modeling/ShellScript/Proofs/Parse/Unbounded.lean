/-
# ShellScript.Proofs.Parse.Unbounded -- the parsers without bounds come to an end

With enough fuel the parsers without bounds do what those with bounds do, unless these stop for
the depth (`Halts`).  The statement goes through the ways parsers are put together, as for what
they read; a loop is taken by induction on the tokens that are left, and the statements inside a
statement by induction on the depth of the parser that has one.

It carries along where rounds begin.  Each begins at a token, and none at a token where another
has begun, since it takes that token before anything inside it begins (`Halts.note`).
-/
import ShellScript.Proofs.Parse.Orderly
import ShellScript.Proofs.Parse.Rounds
import ShellScript.Proofs.Unbounded

namespace ShellScript

set_option autoImplicit false

open Grammar Parse

/-! ## Where rounds may begin -/

/-- The tokens from each one on that is no end mark. -/
def starts : List Token → List (List Token)
  | [] => []
  | t :: ts => if t.kind = .eof then [] else (t :: ts) :: starts ts

theorem starts_cons {t : Token} (inner : t.kind ≠ .eof) (ts : List Token) :
    starts (t :: ts) = (t :: ts) :: starts ts :=
  if_neg inner

theorem length_starts {ts : List Token} (complete : Complete ts) :
    (starts ts).length + 1 = ts.length := by
  induction ts with
  | nil => exact complete.elim
  | cons t ts ih =>
    by_cases last : t.kind = .eof
    · obtain rfl := complete.eq_nil last
      simp [starts, last]
    · rw [starts_cons last, List.length_cons, List.length_cons, ih (complete.tail last)]

theorem starts_sublist {ws : List Token} {t : Token} {others : List Token}
    (complete : Complete (ws ++ t :: others)) :
    (starts (t :: others)).Sublist (starts (ws ++ t :: others)) := by
  induction ws with
  | nil => exact List.Sublist.refl _
  | cons w ws ih =>
    rw [List.cons_append, complete_cons (by simp)] at complete
    rw [List.cons_append, starts_cons complete.1]
    exact (ih complete.2).cons _

theorem starts_tail {t : Token} {ts : List Token} (complete : Complete (t :: ts)) :
    (starts ts).Sublist (starts (t :: ts)) := by
  by_cases last : t.kind = .eof
  · obtain rfl := complete.eq_nil last
    exact List.nil_sublist _
  · rw [starts_cons last]
    exact List.sublist_cons_self _ _

/-- The rounds of an outcome begin at some of `top`, in that order and each at another, and all
of them in front of what is left. -/
def InTurn {α : Type} (top rounds : List (List Token)) :
    EStateM.Result Failure (List Token) α → Prop
  | .ok _ rest => Complete rest ∧ (rounds ++ starts rest).Sublist top
  | .error _ _ => rounds.Sublist top

theorem InTurn.sublist {α : Type} {top rounds : List (List Token)}
    {r : EStateM.Result Failure (List Token) α} (turns : InTurn top rounds r) :
    rounds.Sublist top := by
  cases r with
  | ok a rest => exact (List.sublist_append_left _ _).trans turns.2
  | error e rest => exact turns

/-! ## Parsers that come to an end -/

/-- In front of `ts`, `q` ends as `p` does with any fuel from some amount on, if `p` does not
stop for the depth; the rounds on the way begin in turn at some of `top`. -/
def Halts {α : Type} (q : Nat → Unbounded α) (p : Parse α) (ts : List Token)
    (top : List (List Token)) : Prop :=
  (∀ rest, p ts ≠ .error .tooDeep rest) → ∃ rounds, InTurn top rounds (p ts) ∧
    ∃ enough, ∀ fuel ≥ enough, ∀ before,
      q fuel (ts, before) = some (Unbounded.noted (before ++ rounds) (p ts))

/-- `q` ends as `p` does in front of every complete list. -/
def Follows {α : Type} (q : Nat → Unbounded α) (p : Parse α) : Prop :=
  ∀ ts, Complete ts → Halts q p ts (starts ts)

variable {α β : Type}

namespace Unbounded

theorem bind_of_ok {q : Unbounded α} {g : α → Unbounded β}
    {s s' : List Token × List (List Token)} {a : α} (run : q s = some (.ok a, s')) :
    (q >>= g) s = g a s' := by
  show (q s).bind _ = _
  rw [run]
  rfl

theorem bind_of_error {q : Unbounded α} {g : α → Unbounded β}
    {s s' : List Token × List (List Token)} {e : Failure} (run : q s = some (.error e, s')) :
    (q >>= g) s = some (.error e, s') := by
  show (q s).bind _ = _
  rw [run]
  rfl

theorem lift_of_ok {p : Parse α} {ts rest : List Token} {a : α} (taken : p ts = .ok a rest)
    (rounds : List (List Token)) : lift p (ts, rounds) = some (.ok a, rest, rounds) := by
  simp only [lift, taken, noted]

end Unbounded

namespace Halts

variable {q : Nat → Unbounded α} {p : Parse α} {g : Nat → α → Unbounded β} {f : α → Parse β}
  {t : Token} {ts mid : List Token} {top : List (List Token)} {a : α}

theorem congr {q' : Nat → Unbounded α} {p' : Parse α} (halts : Halts q' p' ts top)
    (run : ∀ fuel before, q fuel (ts, before) = q' fuel (ts, before)) (same : p ts = p' ts) :
    Halts q p ts top := by
  unfold Halts
  rw [same]
  intro shallow
  obtain ⟨rounds, turns, enough, ends⟩ := halts shallow
  exact ⟨rounds, turns, enough, fun fuel more before => (run fuel before).trans
    (ends fuel more before)⟩

/-- A parser that needs more fuel by one. -/
theorem succ {q' : Nat → Unbounded α} (halts : Halts q' p ts top)
    (run : ∀ fuel before, q (fuel + 1) (ts, before) = q' fuel (ts, before)) :
    Halts q p ts top := by
  intro shallow
  obtain ⟨rounds, turns, enough, ends⟩ := halts shallow
  refine ⟨rounds, turns, enough + 1, fun fuel more before => ?_⟩
  obtain ⟨fuel, rfl⟩ := Nat.exists_eq_add_of_le' (Nat.le_of_add_left_le more)
  rw [run]
  exact ends fuel (Nat.le_of_succ_le_succ more) before

theorem mono {top' : List (List Token)} (halts : Halts q p ts top) (more : top.Sublist top') :
    Halts q p ts top' := by
  intro shallow
  obtain ⟨rounds, turns, ends⟩ := halts shallow
  refine ⟨rounds, ?_, ends⟩
  cases done : p ts with
  | error e rest =>
    rw [done] at turns
    exact turns.trans more
  | ok a rest =>
    rw [done] at turns
    exact ⟨turns.1, turns.2.trans more⟩

/-- A parser that goes through no round. -/
theorem quiet (run : ∀ fuel before, q fuel (ts, before) = some (Unbounded.noted before (p ts)))
    (turns : InTurn top [] (p ts)) : Halts q p ts top := by
  intro _
  refine ⟨[], turns, 0, fun fuel _ before => ?_⟩
  rw [run, List.append_nil]

theorem pure (complete : Complete ts) (a : α) :
    Halts (fun _ => Pure.pure a) (Pure.pure a) ts (starts ts) :=
  quiet (fun _ _ => rfl) ⟨complete, List.Sublist.refl _⟩

/-- A parser that comes to an end by itself, in front of tokens that end in `ts`. -/
theorem lift {us : List Token} (complete : Complete ts)
    (leaves : ∀ a rest, p us = .ok a rest →
      ∃ ws u others, ts = ws ++ u :: others ∧ rest = u :: others) :
    Halts (fun _ => Unbounded.lift p) p us (starts ts) := by
  refine quiet (fun _ _ => rfl) ?_
  cases taken : p us with
  | error e rest => exact List.nil_sublist _
  | ok a rest =>
    obtain ⟨ws, u, others, rfl, rfl⟩ := leaves a rest taken
    exact ⟨complete.of_append (List.cons_ne_nil u others), starts_sublist complete⟩

theorem bind (first : Halts q p ts top)
    (second : ∀ a mid, Complete mid → p ts = .ok a mid →
      Halts (fun fuel => g fuel a) (f a) mid (starts mid)) :
    Halts (fun fuel => q fuel >>= g fuel) (p >>= f) ts top := by
  intro shallow
  have shallow' (rest : List Token) : p ts ≠ .error .tooDeep rest :=
    fun deep => shallow rest (Parse.bind_of_error deep f)
  obtain ⟨rounds, turns, enough, ends⟩ := first shallow'
  cases taken : p ts with
  | error e rest =>
    rw [taken] at ends turns
    rw [Parse.bind_of_error taken]
    exact ⟨rounds, turns, enough, fun fuel more before =>
      Unbounded.bind_of_error (ends fuel more before)⟩
  | ok a mid =>
    rw [taken] at ends turns
    obtain ⟨whole, order⟩ := turns
    have same : (p >>= f) ts = f a mid := Parse.bind_of_ok taken f
    rw [same] at shallow ⊢
    obtain ⟨rounds', turns', enough', ends'⟩ := second a mid whole taken shallow
    refine ⟨rounds ++ rounds', ?_, max enough enough', fun fuel more before => ?_⟩
    · cases done : f a mid with
      | error e rest =>
        rw [done] at turns'
        exact ((List.Sublist.refl rounds).append turns').trans order
      | ok b rest =>
        rw [done] at turns'
        refine ⟨turns'.1, ?_⟩
        rw [List.append_assoc]
        exact ((List.Sublist.refl rounds).append turns'.2).trans order
    · obtain ⟨more, more'⟩ := Nat.max_le.1 more
      rw [← List.append_assoc]
      exact (Unbounded.bind_of_ok (ends fuel more before)).trans (ends' fuel more' _)

/-- Behind a parser that goes through no round and leaves `mid`. -/
theorem behind (enough : Nat)
    (run : ∀ fuel ≥ enough, ∀ before, q fuel (ts, before) = some (.ok a, mid, before))
    (taken : p ts = .ok a mid) (second : Halts (fun fuel => g fuel a) (f a) mid top) :
    Halts (fun fuel => q fuel >>= g fuel) (p >>= f) ts top := by
  have same : (p >>= f) ts = f a mid := Parse.bind_of_ok taken f
  unfold Halts
  rw [same]
  intro shallow
  obtain ⟨rounds, turns, enough', ends⟩ := second shallow
  refine ⟨rounds, turns, max enough enough', fun fuel more before => ?_⟩
  obtain ⟨more, more'⟩ := Nat.max_le.1 more
  exact (Unbounded.bind_of_ok (run fuel more before)).trans (ends fuel more' before)

/-- Behind a parser that comes to an end by itself. -/
theorem behind_lift (taken : p ts = .ok a mid)
    (second : Halts (fun fuel => g fuel a) (f a) mid top) :
    Halts (fun fuel => Unbounded.lift p >>= g fuel) (p >>= f) ts top :=
  behind 0 (fun _ _ => Unbounded.lift_of_ok taken) taken second

/-- A round begins at the first token.  What begins inside it begins behind that token. -/
theorem note (inner : t.kind ≠ .eof) (inside : Halts q p (t :: ts) (starts ts)) :
    Halts (fun fuel => Unbounded.note >>= fun _ => q fuel) p (t :: ts) (starts (t :: ts)) := by
  intro shallow
  obtain ⟨rounds, turns, enough, ends⟩ := inside shallow
  refine ⟨(t :: ts) :: rounds, ?_, enough, fun fuel more before => ?_⟩
  · rw [starts_cons inner]
    cases done : p (t :: ts) with
    | error e rest =>
      rw [done] at turns
      exact turns.cons_cons _
    | ok a rest =>
      rw [done] at turns
      exact ⟨turns.1, turns.2.cons_cons _⟩
  · rw [List.append_cons, ← ends fuel more]
    exact Unbounded.bind_of_ok rfl

end Halts

namespace Follows

variable {q : Nat → Unbounded α} {p : Parse α} {g : Nat → α → Unbounded β} {f : α → Parse β}

theorem pure (a : α) : Follows (fun _ => Pure.pure a) (Pure.pure a) :=
  fun _ complete => .pure complete a

theorem lift (orderly : Orderly p) : Follows (fun _ => Unbounded.lift p) p :=
  fun ts complete => .lift complete (orderly ts complete).ok

theorem lift_of_reads {G : Phrase α} (reads : Reads p G) :
    Follows (fun _ => Unbounded.lift p) p := by
  intro ts complete
  refine .lift complete fun a rest taken => ?_
  obtain ⟨ws, u, others, split, left, -⟩ := ((reads ts complete).ok a rest).1 taken
  exact ⟨ws, u, others, split, left⟩

theorem bind (first : Follows q p) (second : ∀ a, Follows (fun fuel => g fuel a) (f a)) :
    Follows (fun fuel => q fuel >>= g fuel) (p >>= f) :=
  fun ts complete => (first ts complete).bind fun a mid whole _ => second a mid whole

theorem ite {c : Prop} [Decidable c] {q' : Nat → Unbounded α} {p' : Parse α} (yes : Follows q p)
    (no : Follows q' p') :
    Follows (fun fuel => if c then q fuel else q' fuel) (if c then p else p') := by
  by_cases h : c
  · simp only [if_pos h]
    exact yes
  · simp only [if_neg h]
    exact no

/-- A loop, by induction on the tokens that are left. -/
theorem many {q : Nat → Unbounded (Option α)} {p : Parse (Option α)} (follows : Follows q p)
    (shrinks : Shrinks p) : Follows (Unbounded.many q) (Parse.many p) := by
  intro ts complete
  induction size : ts.length using Nat.strongRecOn generalizing ts with
  | ind size' ih =>
    subst size
    refine Halts.succ ?_ fun _ _ => rfl
    refine Halts.congr ?_ (fun _ _ => rfl) (shrinks.many_eq complete)
    refine (follows ts complete).bind fun o mid whole round => ?_
    cases o with
    | none => exact .pure whole []
    | some a =>
      have shorter := (shrinks ts a mid complete round).2
      exact (ih _ shorter mid whole rfl).bind fun as rest whole _ => .pure whole (a :: as)

end Follows

/-! ## Simple statements -/

theorem follows_trailingWords : Follows Unbounded.trailingWords trailingWords :=
  (Follows.lift_of_reads reads_expression?).many
    ((reads_expression?).shrinks fun _ _ _ => OptionalExpr.ne_nil)

theorem follows_headerSeparators : Follows Unbounded.headerSeparators headerSeparators :=
  ((Follows.lift_of_reads reads_headerSeparator?).many
    ((reads_headerSeparator?).shrinks fun _ _ _ => OptionalSeparator.ne_nil)).bind fun _ => .pure ()

theorem follows_parts : Follows (Unbounded.many fun _ => Unbounded.lift part?) (many part?) :=
  (Follows.lift_of_reads reads_part?).many
    ((reads_part?).shrinks fun _ _ _ => OptionalPart.ne_nil)

theorem follows_command : Follows Unbounded.command command :=
  (Follows.lift (orderly_expect _ _)).bind fun name => (follows_parts).bind fun _ =>
    (Follows.lift (orderly_spanFrom name.position)).bind fun _ => .pure _

theorem follows_pipedCommands :
    Follows (Unbounded.many Unbounded.pipedCommand?) (many pipedCommand?) :=
  ((Follows.lift (orderly_accept .pipe)).bind fun _ =>
    .ite ((follows_command).bind fun c => .pure (some c)) (.pure none)).many
      ((reads_pipedCommand?).shrinks fun _ _ _ => OptionalPiped.ne_nil)

/-- What a pipeline makes of its first command and the others. -/
theorem follows_piped (first : Command) :
    Follows (fun fuel => do
      match ← Unbounded.many Unbounded.pipedCommand? fuel with
      | [] => return Statement.command first
      | second :: others =>
          return Statement.pipeline first second others
            (← Unbounded.lift (spanFrom first.position))) (do
      match ← many pipedCommand? with
      | [] => return Statement.command first
      | second :: others =>
          return Statement.pipeline first second others (← spanFrom first.position)) := by
  refine (follows_pipedCommands).bind fun others => ?_
  cases others with
  | nil => exact .pure _
  | cons second others =>
    exact (Follows.lift (orderly_spanFrom first.position)).bind fun _ => .pure _

section Word

variable {t : Token} {ts : List Token} (complete : Complete (t :: ts)) (word : t.kind = .word)

include complete word

/-- A pipeline takes the word it starts with. -/
theorem halts_pipeline : Halts Unbounded.pipeline pipeline (t :: ts) (starts ts) := by
  have inner : t.kind ≠ .eof := word.trans_ne Kind.noConfusion
  have others := complete.tail inner
  have name : expect .word "Expected command name" (t :: ts) = .ok t ts :=
    expect_of_kind Kind.noConfusion _ word ts
  have first : Halts Unbounded.command command (t :: ts) (starts ts) :=
    .behind_lift name (((follows_parts).bind fun _ =>
      (Follows.lift (orderly_spanFrom t.position)).bind fun _ => .pure _) ts others)
  exact first.bind fun c mid whole _ => follows_piped c mid whole

/-- An assignment takes the word it starts with. -/
theorem halts_assignment :
    Halts (fun _ => Unbounded.lift assignment) assignment (t :: ts) (starts ts) := by
  have inner : t.kind ≠ .eof := word.trans_ne Kind.noConfusion
  refine .lift (complete.tail inner) fun s rest taken => ?_
  obtain ⟨ws, u, others, split, rfl, name, equals, v, e, rfl, -⟩ :=
    ((reads_assignment _ complete).ok s rest).1 taken
  exact ⟨_, u, others, (List.cons.inj split).2, rfl⟩

/-- A statement that starts with a word is simple. -/
theorem halts_simple? : Halts Unbounded.simple? simple? (t :: ts) (starts ts) := by
  refine .behind_lift (isAssignment_cons t ts) ?_
  split
  · exact (halts_assignment complete word).bind fun s mid whole _ => .pure whole (some s)
  · refine .behind_lift (check_of_kind word ts) ?_
    exact (halts_pipeline complete word).bind fun s mid whole _ => .pure whole (some s)

end Word

/-! ## Attempts at a statement -/

theorem Unbounded.simple?_plain (fuel : Nat) {t : Token} (no_word : t.kind ≠ .word)
    (ts : List Token) (rounds : List (List Token)) :
    Unbounded.simple? fuel (t :: ts, rounds) = some (.ok none, t :: ts, rounds) := by
  have assigns : isAssignment (t :: ts) = .ok false (t :: ts) := by
    rw [isAssignment_cons, decide_eq_false no_word]
    rfl
  exact (Unbounded.bind_of_ok (Unbounded.lift_of_ok assigns rounds)).trans
    (Unbounded.bind_of_ok (Unbounded.lift_of_ok (check_of_ne no_word ts) rounds))

theorem Unbounded.statement_cons (fuel : Nat) (t : Token) (ts : List Token)
    (rounds : List (List Token)) :
    Unbounded.statement (fuel + 1) (t :: ts, rounds) =
      (if t.kind = .comment then Unbounded.lift advance >>= fun _ => pure none
      else if t.kind = .eof then pure none
      else
        match Unbounded.compound? (Unbounded.block fuel) fuel t.kind with
        | some compound => do return some (← compound)
        | none => Unbounded.simple? fuel : Unbounded (Option Statement)) (t :: ts, rounds) :=
  Unbounded.bind_of_ok (Unbounded.lift_of_ok (p := peek) rfl rounds)

/-- Where no statement starts, only a comment is taken. -/
theorem Unbounded.statement_plain (fuel : Nat) {t : Token} (ts : List Token)
    (plain : t.kind.opensStatement = false) (rounds : List (List Token)) :
    Unbounded.statement (fuel + 1) (t :: ts, rounds) =
      some (.ok none, if t.kind = .comment then ts else t :: ts, rounds) := by
  rw [Unbounded.statement_cons]
  by_cases comment : t.kind = .comment
  · have inner : t.kind ≠ .eof := comment.trans_ne Kind.noConfusion
    rw [if_pos comment, if_pos comment]
    exact Unbounded.bind_of_ok (Unbounded.lift_of_ok (advance_cons inner ts) rounds)
  rw [if_neg comment, if_neg comment]
  by_cases last : t.kind = .eof
  · rw [if_pos last]
    rfl
  rw [if_neg last]
  have no_opener : Unbounded.compound? (Unbounded.block fuel) fuel t.kind = none := by
    revert plain
    cases t.kind <;> first | exact fun _ => rfl | (intro plain; cases plain)
  have no_word : t.kind ≠ .word := by
    intro word
    rw [word] at plain
    cases plain
  rw [no_opener]
  exact Unbounded.simple?_plain fuel no_word ts rounds

/-- So it is with a bound. -/
theorem statementWithin_of_plain (depth : Nat) {t : Token} (ts : List Token)
    (plain : t.kind.opensStatement = false) :
    statementWithin depth (t :: ts) = .ok none (if t.kind = .comment then ts else t :: ts) := by
  have no_opener : compound? t.kind = none ∧ t.kind ≠ .word := by
    revert plain
    cases t.kind <;> decide
  exact statementWithin_plain depth ts no_opener.1 no_opener.2

section Attempts

variable {depth : Nat} {g : Nat → Option Statement → Unbounded α} {f : Option Statement → Parse α}
  {t : Token} {ts : List Token}

/-- Behind an attempt at a statement.  One that gives none leaves the token, unless it is a
comment. -/
theorem Halts.attempt (complete : Complete (t :: ts))
    (opened : t.kind.opensStatement = true →
      Halts Unbounded.statement (statementWithin depth) (t :: ts) (starts ts))
    (found : ∀ s, Follows (fun fuel => g fuel (some s)) (f (some s)))
    (none : Halts (fun fuel => g fuel none) (f none) (if t.kind = .comment then ts else t :: ts)
      (starts ts)) :
    Halts (fun fuel => Unbounded.statement fuel >>= g fuel) (statementWithin depth >>= f) (t :: ts)
      (starts ts) := by
  by_cases opens : t.kind.opensStatement = true
  · refine (opened opens).bind fun o mid whole tried => ?_
    cases o with
    | some s => exact found s mid whole
    | none =>
      obtain ⟨ws, next, others, split, -, attempt⟩ :=
        ((reads_statementWithin depth _ complete).ok _ mid).1 tried
      cases attempt with
      | comment kind =>
        rw [(List.cons.inj split).1, kind] at opens
        cases opens
      | nothing plain =>
        rw [(List.cons.inj split).1, plain] at opens
        cases opens
  · have plain : t.kind.opensStatement = false := by simpa using opens
    refine .behind 1 (fun fuel more before => ?_)
      (statementWithin_of_plain depth ts plain) none
    obtain ⟨fuel, rfl⟩ := Nat.exists_eq_add_of_le' more
    exact Unbounded.statement_plain fuel ts plain before

end Attempts

/-! ## Blocks -/

namespace Unbounded

variable {inner : Unbounded (Option Statement)} {b : Block} {t : Token}

theorem blockItem?_of_ends (ends : b.Ends t) (ts : List Token) (rounds : List (List Token)) :
    blockItem? inner b (t :: ts, rounds) = some (.ok none, t :: ts, rounds) := by
  refine (bind_of_ok (lift_of_ok (p := peek) rfl rounds)).trans ?_
  exact congrFun (if_pos ((b.ends_iff t).2 ends)) (t :: ts, rounds)

theorem blockItem?_inside (inside : ¬ b.Ends t) (ts : List Token) (rounds : List (List Token)) :
    blockItem? inner b (t :: ts, rounds) = (do
      note
      if ← lift (accept .newline) then return some none
      else
        match ← inner with
        | some s =>
            lift separator
            return some (some s)
        | none => if t.kind = .comment then return some none else lift (refuse b t) :
        Unbounded (Option (Option Statement))) (t :: ts, rounds) := by
  refine (bind_of_ok (lift_of_ok (p := peek) rfl rounds)).trans ?_
  exact congrFun (if_neg (by rwa [b.ends_iff])) (t :: ts, rounds)

end Unbounded

section Block

variable {depth : Nat} (b : Block) (opened : ∀ t ts, Complete (t :: ts) →
  t.kind.opensStatement = true →
    Halts Unbounded.statement (statementWithin depth) (t :: ts) (starts ts))

include opened

/-- A round of a block. -/
theorem follows_blockItem? :
    Follows (fun fuel => Unbounded.blockItem? (Unbounded.statement fuel) b)
      (blockItem? (statementWithin depth) b) := by
  rintro (_ | ⟨t, ts⟩) complete
  · exact complete.elim
  by_cases ends : b.Ends t
  · have stop : blockItem? (statementWithin depth) b (t :: ts) = .ok none (t :: ts) :=
      blockItem?_of_ends ends ts
    exact (Halts.pure complete none).congr
      (fun _ => Unbounded.blockItem?_of_ends ends ts) stop
  have inner : t.kind ≠ .eof := fun last => ends (Or.inl last)
  have others := complete.tail inner
  refine Halts.congr (.note inner ?_) (fun _ => Unbounded.blockItem?_inside ends ts)
    (blockItem?_inside ends ts)
  by_cases newline : t.kind = .newline
  · exact .behind_lift (accept_of_kind Kind.noConfusion newline ts) (.pure others (some none))
  refine .behind_lift (accept_of_ne Kind.noConfusion newline ts) ?_
  refine .attempt complete (opened t ts complete) (fun s => ?_) ?_
  · exact (Follows.lift orderly_separator).bind fun _ => .pure (some (some s))
  by_cases comment : t.kind = .comment
  · simp only [if_pos comment]
    exact .pure others (some none)
  · obtain ⟨e, refuses⟩ := exists_refuse b t
    simp only [if_neg comment]
    refine .lift others fun a rest taken => ?_
    rw [refuses] at taken
    cases taken

/-- A block, by induction on the tokens that are left. -/
theorem follows_block :
    Follows (fun fuel => Unbounded.block fuel b) (block (statementWithin depth) b) := by
  have reads := reads_statementWithin depth
  have opens := opens_within depth
  intro ts complete
  induction size : ts.length using Nat.strongRecOn generalizing ts with
  | ind size' ih =>
    subst size
    refine Halts.succ ?_ fun _ _ => rfl
    refine Halts.congr ?_ (fun _ _ => rfl) (block_eq reads opens complete)
    refine (follows_blockItem? b opened ts complete).bind fun o mid whole round => ?_
    cases o with
    | none => exact .pure whole []
    | some i =>
      have shorter := (shrinks_blockItem? reads opens ts i mid complete round).2
      exact (ih _ shorter mid whole rfl).bind fun ss rest whole _ => .pure whole (i.toList ++ ss)

end Block

/-! ## Compound statements -/

section Compound

variable {inner : Inner}
  (blocks : ∀ b, Follows (fun fuel => Unbounded.block fuel b) (block inner b))

include blocks

theorem follows_elsePart? :
    Follows (fun fuel => Unbounded.elsePart? (Unbounded.block fuel)) (elsePart? inner) :=
  (Follows.lift (orderly_accept .kwElse)).bind fun _ =>
    .ite ((blocks .elsePart).bind fun ss => .pure (some ss)) (.pure none)

theorem follows_loopBody :
    Follows (fun fuel => Unbounded.loopBody (Unbounded.block fuel) fuel) (loopBody inner) :=
  (follows_headerSeparators).bind fun _ => (Follows.lift (orderly_expect _ _)).bind fun _ =>
    (blocks .loopBody).bind fun ss => (Follows.lift (orderly_expect _ _)).bind fun _ => .pure ss

theorem follows_forLoop (opener : Token) :
    Follows (fun fuel => Unbounded.forLoop (Unbounded.block fuel) fuel opener)
      (forLoop inner opener) :=
  (Follows.lift (orderly_expect _ _)).bind fun _ =>
    (Follows.lift (orderly_expectWord _)).bind fun _ =>
      (Follows.lift orderly_expression).bind fun _ => (follows_trailingWords).bind fun _ =>
        (follows_loopBody blocks).bind fun _ =>
          (Follows.lift (orderly_spanFrom opener.position)).bind fun _ => .pure _

theorem follows_whileLoop (opener : Token) :
    Follows (fun fuel => Unbounded.whileLoop (Unbounded.block fuel) fuel opener)
      (whileLoop inner opener) :=
  (Follows.lift orderly_expression).bind fun _ => (follows_trailingWords).bind fun _ =>
    (follows_loopBody blocks).bind fun _ =>
      (Follows.lift (orderly_spanFrom opener.position)).bind fun _ => .pure _

variable {t : Token} {ts : List Token} (complete : Complete (t :: ts))

include complete

/-- A conditional takes its `if` before it comes to a block. -/
theorem halts_conditional (kind : t.kind = .kwIf) :
    Halts (fun fuel => Unbounded.conditional (Unbounded.block fuel) fuel) (conditional inner)
      (t :: ts) (starts ts) := by
  have last : t.kind ≠ .eof := kind.trans_ne Kind.noConfusion
  have opener : expect .kwIf "Expected 'if'" (t :: ts) = .ok t ts :=
    expect_of_kind Kind.noConfusion _ kind ts
  exact .behind_lift opener (Follows.bind (Follows.lift orderly_expression) (fun _ =>
    (follows_trailingWords).bind fun _ => (follows_headerSeparators).bind fun _ =>
      (Follows.lift (orderly_expect _ _)).bind fun _ => (blocks .thenPart).bind fun _ =>
        (follows_elsePart? blocks).bind fun _ => (Follows.lift (orderly_expect _ _)).bind fun _ =>
          (Follows.lift (orderly_spanFrom t.position)).bind fun _ => .pure _)
    ts (complete.tail last))

/-- A loop takes its first word before it comes to its block. -/
theorem halts_loop (last : t.kind ≠ .eof) :
    Halts (fun fuel => Unbounded.loop (Unbounded.block fuel) fuel) (loop inner) (t :: ts)
      (starts ts) :=
  .behind_lift (advance_cons last ts)
    (Follows.ite (follows_forLoop blocks t) (follows_whileLoop blocks t) ts (complete.tail last))

/-- A function takes its `function` before it comes to its block. -/
theorem halts_function (kind : t.kind = .kwFunction) :
    Halts (fun fuel => Unbounded.function (Unbounded.block fuel)) (function inner) (t :: ts)
      (starts ts) := by
  have last : t.kind ≠ .eof := kind.trans_ne Kind.noConfusion
  have opener : expect .kwFunction "Expected 'function'" (t :: ts) = .ok t ts :=
    expect_of_kind Kind.noConfusion _ kind ts
  exact .behind_lift opener (Follows.bind (Follows.lift (orderly_expect _ _)) (fun _ =>
    (Follows.lift (orderly_expect _ _)).bind fun _ =>
      (Follows.lift (orderly_expect _ _)).bind fun _ =>
        (Follows.lift (orderly_expect _ _)).bind fun _ => (blocks .functionBody).bind fun _ =>
          (Follows.lift (orderly_expect _ _)).bind fun _ =>
            (Follows.lift (orderly_spanFrom t.position)).bind fun _ => .pure _)
    ts (complete.tail last))

/-- A compound statement takes its opener before it comes to a round. -/
theorem halts_compound {compound : Inner → Parse Statement}
    (opener : compound? t.kind = some compound) :
    ∃ q, (∀ fuel, Unbounded.compound? (Unbounded.block fuel) fuel t.kind = some (q fuel)) ∧
      Halts q (compound inner) (t :: ts) (starts ts) := by
  cases kind : t.kind <;> simp only [compound?, kind, reduceCtorEq, Option.some.injEq] at opener
  all_goals
    subst opener
    have last : t.kind ≠ .eof := kind.trans_ne Kind.noConfusion
  · exact ⟨_, fun _ => rfl, halts_conditional blocks complete kind⟩
  · exact ⟨_, fun _ => rfl, halts_loop blocks complete last⟩
  · exact ⟨_, fun _ => rfl, halts_loop blocks complete last⟩
  · exact ⟨_, fun _ => rfl, halts_function blocks complete kind⟩

end Compound

/-! ## Statements -/

theorem halts_word (depth : Nat) {t : Token} {ts : List Token} (complete : Complete (t :: ts))
    (word : t.kind = .word) :
    Halts Unbounded.statement (statementWithin depth) (t :: ts) (starts ts) := by
  refine ((halts_simple? complete word).congr (fun _ _ => rfl) ?_).succ fun fuel before => ?_
  · rw [statementWithin_cons, word]
    rfl
  · rw [Unbounded.statement_cons, word]
    rfl

/-- A statement takes its first token before it comes to a round. -/
theorem halts_statement (depth : Nat) {t : Token} {ts : List Token} (complete : Complete (t :: ts))
    (opens : t.kind.opensStatement = true) :
    Halts Unbounded.statement (statementWithin depth) (t :: ts) (starts ts) := by
  have cases_of_opens {k : Kind} (opens : k.opensStatement = true) :
      k ≠ .comment ∧ k ≠ .eof ∧ (k = .word ∨ ∃ compound, compound? k = some compound) := by
    revert opens
    cases k <;> simp [Kind.opensStatement, compound?]
  induction depth generalizing t ts with
  | zero =>
    obtain ⟨no_comment, inner, word | ⟨compound, opener⟩⟩ := cases_of_opens opens
    · exact halts_word 0 complete word
    · intro shallow
      refine absurd ?_ (shallow (t :: ts))
      rw [statementWithin_cons, if_neg no_comment, if_neg inner, opener]
      rfl
  | succ depth ih =>
    obtain ⟨no_comment, inner, word | ⟨compound, opener⟩⟩ := cases_of_opens opens
    · exact halts_word (depth + 1) complete word
    · have blocks (b : Block) :
          Follows (fun fuel => Unbounded.block fuel b) (block (statementWithin depth) b) :=
        follows_block b fun t ts => ih
      obtain ⟨q, compound', halts⟩ := halts_compound blocks complete opener
      have given : Halts (fun fuel => do return some (← q fuel))
          (do return some (← compound (statementWithin depth))) (t :: ts) (starts ts) :=
        halts.bind fun s mid whole _ => .pure whole (some s)
      refine (given.congr (fun _ _ => rfl) ?_).succ fun fuel before => ?_
      · rw [statementWithin_cons, if_neg no_comment, if_neg inner, opener]
      · rw [Unbounded.statement_cons, if_neg no_comment, if_neg inner, compound']

/-- **A statement comes to an end**, as it does with any bound that is not too low. -/
theorem follows_statement (depth : Nat) :
    Follows Unbounded.statement (statementWithin depth) := by
  rintro (_ | ⟨t, ts⟩) complete
  · exact complete.elim
  by_cases opens : t.kind.opensStatement = true
  · exact (halts_statement depth complete opens).mono (starts_tail complete)
  have plain : t.kind.opensStatement = false := by simpa using opens
  have none := statementWithin_of_plain depth ts plain
  have turns : InTurn (starts (t :: ts)) [] (statementWithin depth (t :: ts)) := by
    rw [none]
    by_cases comment : t.kind = .comment
    · have inner : t.kind ≠ .eof := comment.trans_ne Kind.noConfusion
      rw [if_pos comment]
      exact ⟨complete.tail inner, starts_tail complete⟩
    · rw [if_neg comment]
      exact ⟨complete, List.Sublist.refl _⟩
  refine Halts.succ (.quiet (q := fun _ => Unbounded.lift (statementWithin depth))
    (fun _ _ => rfl) turns) fun fuel before => ?_
  rw [Unbounded.statement_plain fuel ts plain, Unbounded.lift_of_ok none]

/-! ## The top level -/

/-- The piece at the front of the top level takes its first token before it comes to a round
inside. -/
theorem halts_item {t : Token} {ts : List Token} (complete : Complete (t :: ts))
    (inner : t.kind ≠ .eof) : Halts Unbounded.item item (t :: ts) (starts ts) := by
  have others := complete.tail inner
  by_cases newline : t.kind = .newline
  · exact .behind_lift (accept_of_kind Kind.noConfusion newline ts) (.pure others Item.lineFeed)
  refine .behind_lift (accept_of_ne Kind.noConfusion newline ts) ?_
  refine .behind_lift (p := peek) rfl ?_
  refine .attempt complete (halts_statement nestingLimit complete) (fun s => ?_) ?_
  · exact .pure (Item.statement s)
  by_cases comment : t.kind = .comment
  · simp only [if_pos comment]
    exact .pure others Item.comment
  · simp only [if_neg comment]
    exact .behind_lift (advance_cons inner ts) (.pure others (Item.skipped t))

theorem Unbounded.body_cons (fuel : Nat) {t : Token} (inner : t.kind ≠ .eof) (ts : List Token)
    (rounds : List (List Token)) :
    Unbounded.body (fuel + 1) (t :: ts, rounds) = (do
      Unbounded.note
      let i ← Unbounded.item fuel
      Unbounded.lift i.finish
      return i.cons (← Unbounded.body fuel) : Unbounded (List Statement × List Token))
        (t :: ts, rounds) := by
  have more : atEnd (t :: ts) = .ok false (t :: ts) := check_of_ne inner ts
  exact Unbounded.bind_of_ok (Unbounded.lift_of_ok more rounds)

theorem Unbounded.body_of_eof (fuel : Nat) {t : Token} (last : t.kind = .eof) (ts : List Token)
    (rounds : List (List Token)) :
    Unbounded.body (fuel + 1) (t :: ts, rounds) = some (.ok ([], []), t :: ts, rounds) := by
  have stop : atEnd (t :: ts) = .ok true (t :: ts) := check_of_kind last ts
  exact Unbounded.bind_of_ok (Unbounded.lift_of_ok stop rounds)

/-- The top level, by induction on the tokens that are left. -/
theorem follows_body : Follows Unbounded.body body := by
  intro ts complete
  induction size : ts.length using Nat.strongRecOn generalizing ts with
  | ind size' ih =>
    subst size
    cases ts with
    | nil => exact complete.elim
    | cons t ts =>
      by_cases last : t.kind = .eof
      · exact ((Halts.pure complete ([], [])).congr (fun _ _ => rfl) (body_of_eof ts last)).succ
          fun fuel => Unbounded.body_of_eof fuel last ts
      refine Halts.succ ?_ fun fuel => Unbounded.body_cons fuel last ts
      refine Halts.congr (.note last ?_) (fun _ _ => rfl) (body_cons complete last)
      refine (halts_item complete last).bind fun i mid whole first => ?_
      refine (Follows.lift_of_reads (reads_finish i) mid whole).bind fun _ left whole finish => ?_
      have shorter := ((length_lt_of_round complete last first).2 left finish).2
      exact (ih _ shorter left whole rfl).bind fun b rest whole _ => .pure whole (i.cons b)

end ShellScript
