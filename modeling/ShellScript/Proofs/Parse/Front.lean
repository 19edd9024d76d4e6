/-
# ShellScript.Proofs.Parse.Front -- what the top level has done where it stops

The rounds that the top level has finished are a front of its script (`IsFront`), whatever
stands behind them.  It goes through a front round by round (`Body.read_front`), so what it
does behind one does not depend on it.  A block is such a front (`isFront_of_isBlock`), and up
to the end mark it is the whole script (`isBody_of_isBlock`).

Of any script the top level finishes a front (`exists_front`).  Then there is the end mark, or
a token that opens a statement which is no statement.
-/
import ShellScript.Proofs.Parse.Line

namespace ShellScript

set_option autoImplicit false

open Grammar Parse

/-- Rounds of the top level up to any token: their statements, and the tokens they drop. -/
inductive IsFront (S : Phrase Statement) : Phrase (List Statement × List Token)
  | stop {next : Token} : IsFront S next [] ([], [])
  | round {next : Token} {us vs ws : List Token} {i : Item} {b : List Statement × List Token}
      (first : IsPiece S (follow (vs ++ ws) next) us i) (finish : IsFinish i (follow ws next) vs ())
      (others : IsFront S next ws b) : IsFront S next (us ++ (vs ++ ws)) (i.cons b)

/-- The rounds of a whole script are a front of it. -/
theorem IsBody.isFront {S : Phrase Statement} {next : Token} {ws : List Token}
    {b : List Statement × List Token} (h : IsBody S next ws b) : IsFront S next ws b := by
  induction h with
  | stop => exact .stop
  | round first finish _ ih => exact .round first finish ih

/-- A front of grammatical statements is one of statements as deep as they nest. -/
theorem IsFront.within {depth : Nat} {next : Token} {ws : List Token}
    {b : List Statement × List Token} (h : IsFront IsStatement next ws b)
    (shallow : Statement.nestingAll b.1 ≤ depth) : IsFront (Within depth) next ws b := by
  induction h with
  | stop => exact .stop
  | round first finish _ ih =>
    cases first with
    | lineFeed kind => exact .round (.lineFeed kind) finish (ih shallow)
    | comment kind => exact .round (.comment kind) finish (ih shallow)
    | statement h =>
      obtain ⟨here, others⟩ := Nat.max_le.1 shallow
      exact .round (.statement ⟨h, here⟩) finish (ih others)
    | skipped inner plain no_newline no_comment =>
      exact .round (.skipped inner plain no_newline no_comment) finish (ih shallow)

/-! ## Blocks at the top level -/

section Blocks

variable {S : Phrase Statement} {next : Token} {ws : List Token}

/-- Up to the end mark a front is a whole script. -/
theorem IsFront.isBody {b : List Statement × List Token} (h : IsFront S next ws b)
    (last : next.kind = .eof) : IsBody S next ws b := by
  induction h with
  | stop => exact .stop last
  | round first finish _ ih => exact .round first finish (ih last)

/-- One piece more in front of some rounds.  A line feed behind it becomes its separator. -/
theorem isFront_cons (opens : Opens S) {us : List Token} {i : Item}
    {b : List Statement × List Token} (solid : i ≠ .lineFeed)
    (first : IsPiece S (follow ws next) us i) (others : IsFront S next ws b) (whole : b.2 = [])
    (no_separator : IsSeparator next [] ()) : IsFront S next (us ++ ws) (i.cons b) := by
  have alone (separator : IsSeparator (follow ws next) [] ()) :
      IsFront S next (us ++ ([] ++ ws)) (i.cons b) :=
    .round first (isFinish_of_separator solid separator) others
  cases others with
  | stop => exact alone no_separator
  | round first' finish' rest =>
    cases first' with
    | @lineFeed _ t kind =>
      obtain ⟨rfl, -⟩ := finish'
      exact .round first (isFinish_of_separator solid (.taken (Or.inr kind))) rest
    | comment kind => exact alone (.none_of_kind kind Kind.noConfusion Kind.noConfusion)
    | statement h =>
      obtain ⟨t, ts, rfl, starts⟩ := opens _ _ _ h
      exact alone (.none_of_opens starts)
    | skipped => cases whole

/-- A block is read at the top level, too, if no separator behind it is taken with it. -/
theorem isFront_of_isBlock (opens : Opens S) {ss : List Statement} (h : IsBlock S next ws ss)
    (no_separator : IsSeparator next [] ()) : IsFront S next ws (ss, []) := by
  induction h with
  | nil => exact .stop
  | newline kind _ ih => exact .round (.lineFeed kind) ⟨rfl, rfl⟩ (ih no_separator)
  | comment kind _ ih =>
    exact isFront_cons opens Item.noConfusion (.comment kind) (ih no_separator) rfl no_separator
  | statement first _ ih =>
    exact isFront_cons opens Item.noConfusion (.statement first) (ih no_separator) rfl no_separator
  | separated first kind _ ih =>
    exact .round (.statement first) (.taken kind) (ih no_separator)

/-- A block up to the end mark is a whole script. -/
theorem isBody_of_isBlock (opens : Opens S) {ss : List Statement} (h : IsBlock S next ws ss)
    (last : next.kind = .eof) : IsBody S next ws (ss, []) :=
  (isFront_of_isBlock opens h (.none_of_kind last Kind.noConfusion Kind.noConfusion)).isBody last

end Blocks

/-! ## Rounds that fail -/

/-- Separators are optional, so looking for one never fails. -/
theorem finish_ok (i : Item) {ts : List Token} (complete : Complete ts) :
    ∃ left, i.finish ts = .ok () left := by
  have look : ∃ left, separator ts = .ok () left := by
    cases ts with
    | nil => exact complete.elim
    | cons t ts => exact ⟨_, separator_cons t ts⟩
  cases i with
  | lineFeed => exact ⟨ts, rfl⟩
  | _ => exact look

/-- A round fails where a statement does. -/
theorem item_error {t : Token} {ts rest : List Token} {e : Failure}
    (complete : Complete (t :: ts)) (fails : item (t :: ts) = .error e rest) :
    Parse.statement (t :: ts) = .error e rest := by
  by_cases newline : t.kind = .newline
  · have taken : item (t :: ts) = .ok .lineFeed ts :=
      bind_of_ok (accept_of_kind Kind.noConfusion newline ts) _
    rw [taken] at fails
    cases fails
  rw [item_cons newline] at fails
  rcases bind_error fails with attempt | ⟨o, left, attempt, last⟩
  · exact attempt
  have whole := (reads_statement _ complete).complete_rest complete attempt
  cases left with
  | nil => exact whole.elim
  | cons v left =>
    cases o with
    | some s => cases last
    | none =>
      by_cases comment : t.kind = .comment
      · simp only [if_pos comment] at last
        cases last
      · simp only [if_neg comment] at last
        rcases bind_error last with skip | ⟨v, mid, -, done⟩
        · cases skip
        · cases done

/-! ## The front that is finished -/

namespace Body

/-- The top level goes through a front, and on behind it. -/
theorem read_front {next : Token} {ws others : List Token} {b : List Statement × List Token}
    (front : IsFront (Within nestingLimit) next ws b) (complete : Complete (ws ++ next :: others)) :
    read (ws ++ next :: others) = after b (read (next :: others)) := by
  induction front with
  | stop => rfl
  | @round next us vs ws i b first finish _ ih =>
    have behind := append_cons_eq_follow ws next others
    obtain ⟨ahead', ahead⟩ := append_cons_eq_follow (vs ++ ws) next others
    rw [List.append_assoc] at ahead
    simp only [List.append_assoc] at complete ⊢
    have whole : Complete (ws ++ next :: others) := by
      rw [← List.append_assoc] at complete
      exact complete.of_append (by simp)
    rw [read_piece us vs complete first ahead finish behind, ih whole, after_cons]

/-- The top level stops at a token where no statement can be had. -/
theorem read_of_error {t : Token} {ts rest : List Token} {e : Failure} (inner : t.kind ≠ .eof)
    (fails : item (t :: ts) = .error e rest) : read (t :: ts) = stop rest (some e) := by
  show readWithin (t :: ts) (t :: ts) = _
  simp only [readWithin, if_neg inner, fails]

/-- The rounds the top level finishes, and what stands behind them. -/
theorem exists_front (ts : List Token) (complete : Complete ts) :
    ∃ ws next others b, ts = ws ++ next :: others ∧ IsFront (Within nestingLimit) next ws b ∧
      ((others = [] ∧ next.kind = .eof ∧ read ts = after b (stop [next] none)) ∨
        ∃ e rest, Parse.statement (next :: others) = .error e rest ∧
          read ts = after b (stop rest (some e))) := by
  match ts with
  | [] => exact complete.elim
  | t :: ts =>
    by_cases last : t.kind = .eof
    · obtain rfl := complete.eq_nil last
      refine ⟨[], t, [], ([], []), rfl, .stop, Or.inl ⟨rfl, last, ?_⟩⟩
      show readWithin [t] [t] = _
      simp only [readWithin, if_pos last]
      rfl
    cases first : item (t :: ts) with
    | error e rest =>
      refine ⟨[], t, ts, ([], []), rfl, .stop, Or.inr ⟨e, rest, item_error complete first, ?_⟩⟩
      rw [read_of_error last first]
      rfl
    | ok i mid =>
      obtain ⟨whole, after_finish⟩ := length_lt_of_round complete last first
      obtain ⟨left, finish⟩ := finish_ok i whole
      obtain ⟨whole', shorter⟩ := after_finish left finish
      obtain ⟨ws, next, others, b, rfl, front, stops⟩ := exists_front left whole'
      obtain ⟨us, _, behind, here, rfl, piece⟩ := ((readsAt_item complete last).ok i mid).1 first
      obtain ⟨vs, _, behind', middle, left, ended⟩ :=
        ((reads_finish i _ whole).ok () _).1 finish
      rw [← follow_eq_of_split left.symm] at ended
      rw [← left, ← List.append_assoc] at middle
      rw [← follow_eq_of_split middle] at piece
      rw [middle, ← List.append_assoc] at here
      have round : read (t :: ts) = (read (ws ++ next :: others)).push i :=
        read_round complete last first finish
      refine ⟨us ++ (vs ++ ws), next, others, i.cons b, here, .round piece ended front, ?_⟩
      simp only [round, after_cons]
      rcases stops with ⟨nil, kind, read⟩ | ⟨e, rest, fails, read⟩
      · exact Or.inl ⟨nil, kind, by rw [read]⟩
      · exact Or.inr ⟨e, rest, fails, by rw [read]⟩
termination_by ts.length
decreasing_by exact shorter

end Body

end ShellScript
