/-
# ShellScript.Proofs.Accounting -- where the tokens of a script went

Of the tokens of a script, the top level gives each row of tokens to a statement, drops a
token with a warning, or passes one between statements (`Share`).  Such shares follow one
another through the script (`Share.Account`) up to the end mark, or up to the first token of
the statement for which the script is refused.  They are read off the rounds that the top
level has finished (`exists_shares`).

A round that is not just a line feed looks for one separator at its end.  So of the semicolons
between statements those are passed that stand where a separator is due, and the others are
dropped (`Share.Paced`).
-/
import ShellScript.Proofs.Parse.Front
import ShellScript.Proofs.Parse.Script

namespace ShellScript

set_option autoImplicit false

open Grammar Parse

/-- What the top level makes of tokens that stand in a row. -/
inductive Share where
  /-- They are a statement. -/
  | statement (ws : List Token) (s : Statement)
  /-- A token that starts none is dropped. -/
  | dropped (t : Token)
  /-- A token between statements says nothing. -/
  | passed (t : Token)

namespace Share

/-- The tokens of a share. -/
def tokens : Share → List Token
  | statement ws _ => ws
  | dropped t => [t]
  | passed t => [t]

/-- The statement of a share, if it is one. -/
def statement? : Share → Option Statement
  | statement _ s => some s
  | _ => none

/-- The token that is dropped, if one is. -/
def dropped? : Share → Option Token
  | dropped t => some t
  | _ => none

/-- What a share must be in front of the tokens `behind`: the parser of statements takes
exactly the tokens of a statement, what is dropped starts nothing, and what is passed is
a separator or a comment. -/
def Fair (behind : List Token) : Share → Prop
  | statement ws s => ws ≠ [] ∧ Parse.statement (ws ++ behind) = .ok (some s) behind
  | dropped t =>
      t.kind ∉ [.eof, .word, .kwIf, .kwFor, .kwWhile, .kwFunction, .newline, .comment]
  | passed t => t.kind ∈ [.newline, .comment, .semicolon]

/-- Shares one after another in front of the tokens `rest`. -/
def Account : List Share → List Token → Prop
  | [], _ => True
  | x :: xs, rest => x.Fair (xs.flatMap tokens ++ rest) ∧ Account xs rest

/-- Whether one separator is looked for behind a share. -/
def takesSeparator : Share → Bool
  | statement _ _ => true
  | dropped _ => true
  | passed t => t.kind = .comment

/-- Of a semicolon between statements: that it is passed if a separator is due, and dropped
if none is. -/
def InTurn (due : Bool) : Share → Prop
  | statement _ _ => True
  | dropped t => t.kind = .semicolon → due = false
  | passed t => t.kind = .semicolon → due = true

/-- Shares one after another whose semicolons are passed exactly where a separator is due,
when one may be due in front of the first. -/
def Paced : Bool → List Share → Prop
  | _, [] => True
  | due, x :: xs => x.InTurn due ∧ Paced x.takesSeparator xs

/-- Whether a separator is due does not matter in front of any other token. -/
theorem Paced.of_follow {due : Bool} {xs : List Share} {next : Token} (paced : Paced due xs)
    (other : (follow (xs.flatMap tokens) next).kind ≠ .semicolon) (due' : Bool) :
    Paced due' xs := by
  cases xs with
  | nil => trivial
  | cons x xs =>
    refine ⟨?_, paced.2⟩
    cases x with
    | statement ws s => trivial
    | dropped t => exact fun kind => absurd kind other
    | passed t => exact fun kind => absurd kind other

theorem dropped_sublist (xs : List Share) :
    (xs.filterMap dropped?).Sublist (xs.flatMap tokens) := by
  induction xs with
  | nil => exact .slnil
  | cons x xs ih =>
    rw [List.flatMap_cons]
    cases x with
    | statement ws s => exact ih.trans (List.sublist_append_right ws _)
    | dropped t => exact ih.cons_cons t
    | passed t => exact ih.cons t

end Share

open Share

/-! ## The shares of a front -/

/-- Whether a separator is looked for at the end of a round. -/
def Parse.Item.takesSeparator : Item → Bool
  | .lineFeed => false
  | _ => true

/-- A separator behind a piece is passed. -/
theorem exists_shares_finish {i : Item} {next : Token} {vs rest : List Token} {xs : List Share}
    (finish : IsFinish i (follow (xs.flatMap tokens) next) vs ()) (account : Account xs rest)
    (paced : Paced false xs) :
    ∃ ys, ys.flatMap tokens = vs ++ xs.flatMap tokens ∧ Account ys rest ∧
      ys.filterMap statement? = xs.filterMap statement? ∧
      ys.filterMap dropped? = xs.filterMap dropped? ∧ Paced i.takesSeparator ys := by
  have separator (found : IsSeparator (follow (xs.flatMap tokens) next) vs ()) : ∃ ys,
      ys.flatMap tokens = vs ++ xs.flatMap tokens ∧ Account ys rest ∧
      ys.filterMap statement? = xs.filterMap statement? ∧
      ys.filterMap dropped? = xs.filterMap dropped? ∧ Paced true ys := by
    cases found with
    | none no_semicolon _ =>
      exact ⟨xs, rfl, account, rfl, rfl, paced.of_follow no_semicolon true⟩
    | @taken _ t kind =>
      have behind : (Share.passed t).takesSeparator = false := by
        rcases kind with kind | kind <;> simp [Share.takesSeparator, kind]
      refine ⟨.passed t :: xs, rfl, ⟨?_, account⟩, rfl, rfl, fun _ => rfl, behind ▸ paced⟩
      rcases kind with kind | kind <;> simp [Fair, kind]
  cases i with
  | lineFeed =>
    obtain ⟨rfl, -⟩ := finish
    exact ⟨xs, rfl, account, rfl, rfl, paced⟩
  | comment => exact separator finish
  | statement s => exact separator finish
  | skipped t => exact separator finish

/-- The shares that the rounds of a front make, in turn, with separators where they are due. -/
theorem exists_paced_shares {next : Token} {ws others : List Token}
    {b : List Statement × List Token} (front : IsFront (Within nestingLimit) next ws b)
    (complete : Complete (ws ++ next :: others)) :
    ∃ xs, ws = xs.flatMap tokens ∧ Account xs (next :: others) ∧
      xs.filterMap statement? = b.1 ∧ xs.filterMap dropped? = b.2 ∧ Paced false xs := by
  induction front with
  | stop => exact ⟨[], rfl, trivial, rfl, rfl, trivial⟩
  | @round next us vs ws i b first finish _ ih =>
    rw [List.append_assoc, List.append_assoc] at complete
    have whole : Complete (ws ++ next :: others) := by
      rw [← List.append_assoc] at complete
      exact complete.of_append (by simp)
    obtain ⟨xs, rfl, account, statements, dropped, paced⟩ := ih whole
    obtain ⟨ys, same, account, statements', dropped', paced⟩ :=
      exists_shares_finish finish account paced
    rw [statements] at statements'
    rw [dropped] at dropped'
    rw [← same] at first ⊢
    rw [← List.append_assoc vs, ← same] at complete
    cases first with
    | @lineFeed _ t kind =>
      refine ⟨.passed t :: ys, rfl, ⟨by simp [Fair, kind], account⟩, statements', dropped', ?_⟩
      have behind : (Share.passed t).takesSeparator = false := by
        simp [Share.takesSeparator, kind]
      exact ⟨fun semicolon => absurd (kind.symm.trans semicolon) Kind.noConfusion,
        behind ▸ paced⟩
    | @comment _ t kind =>
      refine ⟨.passed t :: ys, rfl, ⟨by simp [Fair, kind], account⟩, statements', dropped', ?_⟩
      have behind : (Share.passed t).takesSeparator = true := by
        simp [Share.takesSeparator, kind]
      exact ⟨fun semicolon => absurd (kind.symm.trans semicolon) Kind.noConfusion,
        behind ▸ paced⟩
    | @statement _ us s h =>
      obtain ⟨others', ahead⟩ := append_cons_eq_follow (ys.flatMap tokens) next others
      obtain ⟨t, ts, rfl, -⟩ := opens_within nestingLimit _ _ _ h
      refine ⟨.statement (t :: ts) s :: ys, rfl, ⟨⟨List.cons_ne_nil t ts, ?_⟩, account⟩, ?_,
        dropped', trivial, paced⟩
      · exact ((reads_statement _ complete).ok (some s) _).2
          ⟨t :: ts, _, others', by rw [ahead], ahead, .statement h⟩
      · exact congrArg (s :: ·) statements'
    | @skipped _ t inner plain no_newline no_comment =>
      refine ⟨.dropped t :: ys, rfl, ⟨?_, account⟩, statements', congrArg (t :: ·) dropped',
        fun _ => rfl, paced⟩
      show t.kind ∉ _
      revert inner plain no_newline no_comment
      cases t.kind <;> decide

/-- The shares that the rounds of a front make, in turn. -/
theorem exists_shares {next : Token} {ws others : List Token} {b : List Statement × List Token}
    (front : IsFront (Within nestingLimit) next ws b) (complete : Complete (ws ++ next :: others)) :
    ∃ xs, ws = xs.flatMap tokens ∧ Account xs (next :: others) ∧
      xs.filterMap statement? = b.1 ∧ xs.filterMap dropped? = b.2 := by
  obtain ⟨xs, split, account, statements, dropped, -⟩ := exists_paced_shares front complete
  exact ⟨xs, split, account, statements, dropped⟩

/-- Where a statement cannot be had, one is opened. -/
theorem opens_of_error {t : Token} {ts rest : List Token} {e : Failure}
    (complete : Complete (t :: ts)) (fails : Parse.statement (t :: ts) = .error e rest) :
    t.kind.opensStatement = true := by
  by_contra plain
  have attempt : ∃ o left, Parse.statement (t :: ts) = .ok o left := by
    by_cases comment : t.kind = .comment
    · cases ts with
      | nil => exact absurd (complete.symm.trans comment) Kind.noConfusion
      | cons u ts =>
        exact ⟨none, u :: ts, ((reads_statement _ complete).ok _ _).2
          ⟨[t], u, ts, rfl, rfl, .comment comment⟩⟩
    · exact ⟨none, t :: ts, ((reads_statement _ complete).ok _ _).2
        ⟨[], t, ts, rfl, rfl, .nothing (by simpa using plain) comment⟩⟩
  obtain ⟨o, left, succeeds⟩ := attempt
  rw [fails] at succeeds
  cases succeeds

/-- **Every token of a script is accounted for.**  The tokens, up to those of `rest`, are
shares one after another: rows that the parser of statements takes, tokens that are dropped,
and separators and comments.  The parser has warned of exactly the tokens that are dropped,
each once and in the order of the script, with code P001 and at its own place.

If the script has a program, its statements are those of the shares, and only the end mark
is left.  If it is refused, a statement is opened behind the shares that cannot be had, and
the report is on that. -/
theorem parse_accounts_for_tokens (source : String) :
    ∃ shares rest, tokenize source false = .ok (shares.flatMap Share.tokens ++ rest) ∧
      Account shares rest ∧
      (Parser.ofSource (.text source) false).parse.2.warnings =
        (shares.filterMap Share.dropped?).map ParseReport.skipped ∧
      (∀ w ∈ (Parser.ofSource (.text source) false).parse.2.warnings, ∃ t, w.token = some t ∧
        w.diagnostic.position = t.position ∧ w.diagnostic.code = some "P001") ∧
      (shares.filterMap Share.dropped?).Pairwise (fun t u => t.start < u.start) ∧
      match parse source false with
      | .ok p =>
          shares.filterMap Share.statement? = p.body ∧ ∃ last, rest = [last] ∧ last.kind = .eof
      | .error r =>
          ∃ t ts e left, rest = t :: ts ∧ t.kind.opensStatement = true ∧
            Parse.statement rest = .error e left ∧
            r = e.report (left.head?.bind Token.position) := by
  have closed : (Lexing.ofScript source false).failure = none := Lexing.failure_run_lenient _ _
  have complete := Parser.complete_loaded closed
  have tokens : tokenize source false = .ok (Lexing.ofScript source false).tokens := by
    rw [tokenize, Lexing.result, closed]
    rfl
  obtain ⟨ws, next, others, b, split, front, stops⟩ := Body.exists_front _ complete
  obtain ⟨xs, rfl, account, statements, dropped⟩ := exists_shares front (split ▸ complete)
  have ordered := (Lexing.tiling_run [] source.toList .start rfl).ordered
  have skipped : (Parser.ofSource (.text source) false).parse.2.skipped =
      xs.filterMap dropped? := by
    rw [(Parser.tokens_parse closed).2, dropped]
    rcases stops with ⟨-, -, read⟩ | ⟨e, rest, -, read⟩ <;> rw [Parser.loaded] at read <;>
      simp [read, Body.after, Body.stop]
  have warnings : (Parser.ofSource (.text source) false).parse.2.warnings =
      (xs.filterMap dropped?).map ParseReport.skipped := by
    rw [Parser.warnings, skipped]
  refine ⟨xs, next :: others, ?_, account, warnings, ?_, ?_, ?_⟩
  · rw [tokens, ← split]
    rfl
  · rw [warnings]
    intro w member
    obtain ⟨t, -, rfl⟩ := List.mem_map.1 member
    exact ⟨t, rfl, rfl, rfl⟩
  · have sublist :
        (xs.filterMap dropped?).Sublist (Lexing.run false .start source.toList).tokens := by
      rw [show (Lexing.run false .start source.toList).tokens = _ from split]
      exact (dropped_sublist xs).trans (List.sublist_append_left _ _)
    exact (ordered.imp And.left).sublist sublist
  · rcases stops with ⟨rfl, last, read⟩ | ⟨e, left, fails, read⟩
    · have whole : Body.read (Parser.loaded source false).tokens = ⟨b.1, b.2, [next], none⟩ := by
        rw [read]
        simp [Body.after, Body.stop]
      have result : parse source false = _ := (Parser.parse_of_read closed split whole).1
      rw [result]
      exact ⟨statements, next, rfl, last⟩
    · have whole : Body.read (Parser.loaded source false).tokens = ⟨b.1, b.2, left, some e⟩ := by
        rw [read]
        simp [Body.after, Body.stop]
      have result : parse source false = _ := Parser.parse_of_failure closed whole
      have behind : Complete (next :: others) :=
        (split ▸ complete).of_append (List.cons_ne_nil _ _)
      rw [result]
      exact ⟨next, others, e, left, rfl, opens_of_error behind fails, fails, rfl⟩

end ShellScript
