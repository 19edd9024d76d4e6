/-
# ShellScript.Proofs.Separators -- which semicolons between statements are reported

Behind a statement one semicolon is passed without a word.  But the top level looks for a
separator at the end of every round, so one is passed behind a dropped token as well.  Every
other semicolon between statements is dropped with one warning (`semicolons_reported`).

In a run of semicolons, then, those that are dropped and those that are passed take turns
(`Share.exists_run`), and a run at the start of a script has half as many warnings as
semicolons.
-/
import ShellScript.Proofs.Accounting
import ShellScript.Proofs.Look

namespace ShellScript

set_option autoImplicit false

open Grammar Parse

namespace Share

/-- Whether a share is a statement or a dropped token. -/
def isPiece : Share → Bool
  | statement _ _ => true
  | dropped _ => true
  | passed _ => false

variable {xs front behind : List Share} {x : Share} {t : Token} {rest : List Token} {due : Bool}

/-! ## Semicolons in turn -/

/-- No statement starts with a semicolon. -/
theorem ne_semicolon_of_fair {ws : List Token} {s : Statement}
    (fair : (statement (t :: ws) s).Fair rest) : t.kind ≠ .semicolon := by
  intro kind
  have attempt := Parse.statementWithin_plain nestingLimit (t := t) (ws ++ rest)
    (by rw [kind]; rfl) (by rw [kind]; exact Kind.noConfusion)
  have both := fair.2.symm.trans attempt
  cases both

/-- What stands in front of a share decides whether a separator is due. -/
theorem Paced.inTurn (paced : Paced due (front ++ x :: behind)) :
    x.InTurn ((front.getLast?.map takesSeparator).getD due) := by
  induction front generalizing due with
  | nil => exact paced.1
  | cons y front ih =>
    have later := ih paced.2
    rw [List.getLast?_cons]
    cases last : front.getLast? with
    | none =>
      rw [last] at later
      exact later
    | some z =>
      rw [last] at later
      exact later

/-- In a row of semicolons, every other one is dropped. -/
theorem exists_run {last : Token} {semicolons others : List Token} (ends : last.kind = .eof)
    (account : Account xs [last]) (paced : Paced due xs)
    (split : xs.flatMap tokens ++ [last] = semicolons ++ others)
    (run : ∀ t ∈ semicolons, t.kind = .semicolon) :
    ∃ ys zs, xs = ys ++ zs ∧ ys.flatMap tokens = semicolons ∧
      (ys.filterMap dropped?).length = (semicolons.length + if due then 0 else 1) / 2 := by
  induction semicolons generalizing xs due with
  | nil => exact ⟨[], xs, rfl, rfl, by cases due <;> rfl⟩
  | cons t semicolons ih =>
    have kind : t.kind = .semicolon := run t List.mem_cons_self
    have later : ∀ u ∈ semicolons, u.kind = .semicolon := fun u member =>
      run u (List.mem_cons_of_mem t member)
    cases xs with
    | nil =>
      obtain ⟨rfl, -⟩ := List.cons.inj split
      exact absurd (ends.symm.trans kind) Kind.noConfusion
    | cons x xs =>
      obtain ⟨fair, account⟩ := account
      obtain ⟨turn, paced⟩ := paced
      cases x with
      | statement ws s =>
        cases ws with
        | nil => exact absurd rfl fair.1
        | cons u ws =>
          obtain ⟨rfl, -⟩ := List.cons.inj split
          exact absurd kind (ne_semicolon_of_fair fair)
      | dropped u =>
        obtain ⟨rfl, behind⟩ := List.cons.inj split
        obtain rfl : due = false := turn kind
        obtain ⟨ys, zs, rfl, rfl, half⟩ := ih account paced behind later
        refine ⟨.dropped u :: ys, zs, rfl, rfl, ?_⟩
        simp only [takesSeparator, if_true] at half
        simp only [List.filterMap_cons, dropped?, List.length_cons, half, Bool.false_eq_true,
          if_false]
        omega
      | passed u =>
        obtain ⟨rfl, behind⟩ := List.cons.inj split
        obtain rfl : due = true := turn kind
        obtain ⟨ys, zs, rfl, rfl, half⟩ := ih account paced behind later
        have none_due : (passed u).takesSeparator = false := by
          simp [takesSeparator, kind]
        rw [none_due] at half
        exact ⟨.passed u :: ys, zs, rfl, rfl, half⟩

/-! ## Dropped tokens of shares that have no token in common -/

/-- A token is dropped once if its share drops it, and never otherwise. -/
theorem count_dropped (apart : ((front ++ x :: behind).flatMap tokens).Nodup)
    (member : t ∈ x.tokens) :
    ((front ++ x :: behind).filterMap dropped?).count t = if x.dropped? = some t then 1 else 0 := by
  rw [List.flatMap_append, List.flatMap_cons, List.nodup_append, List.nodup_append] at apart
  obtain ⟨-, ⟨-, -, after⟩, before⟩ := apart
  have not_before : t ∉ front.filterMap dropped? := fun drop =>
    before t ((dropped_sublist front).subset drop) t (List.mem_append_left _ member) rfl
  have not_after : t ∉ behind.filterMap dropped? := fun drop =>
    after t member t ((dropped_sublist behind).subset drop) rfl
  rw [List.filterMap_append, List.count_append, List.count_eq_zero_of_not_mem not_before,
    Nat.zero_add, List.filterMap_cons]
  cases drop : x.dropped? with
  | none => simp [List.count_eq_zero_of_not_mem not_after]
  | some u => simp [List.count_cons, List.count_eq_zero_of_not_mem not_after]

/-- Of the dropped tokens those of the front are the ones among its tokens. -/
theorem countP_dropped (apart : ((front ++ behind).flatMap tokens).Nodup) :
    ((front ++ behind).filterMap dropped?).countP (fun t => t ∈ front.flatMap tokens) =
      (front.filterMap dropped?).length := by
  rw [List.flatMap_append, List.nodup_append] at apart
  have inside : (front.filterMap dropped?).countP (fun t => t ∈ front.flatMap tokens) =
      (front.filterMap dropped?).length :=
    List.countP_eq_length.2 fun t drop => by
      simpa only [decide_eq_true_eq] using (dropped_sublist front).subset drop
  have outside : (behind.filterMap dropped?).countP (fun t => t ∈ front.flatMap tokens) = 0 :=
    List.countP_eq_zero.2 fun t drop => by
      simpa only [decide_eq_true_eq] using fun member =>
        apart.2.2 t member t ((dropped_sublist behind).subset drop) rfl
  rw [List.filterMap_append, List.countP_append, inside, outside, Nat.add_zero]

/-! ## The shares of a script -/

/-- Behind a share, a separator is due for a semicolon only if the share is a piece: comments
end with their line. -/
theorem takesSeparator_of_semicolon {last : Token}
    (tidy : ((front ++ x :: behind).flatMap tokens ++ [last]).IsChain CommentEndsLine)
    (member : t ∈ x.tokens) (kind : t.kind = .semicolon) (single : x.statement? = none) :
    (front.getLast?.map takesSeparator).getD false = front.getLast?.any isPiece := by
  have alone : x.tokens = [t] := by
    cases x with
    | statement ws s => cases single
    | dropped u => rw [List.mem_singleton.1 member, tokens]
    | passed u => rw [List.mem_singleton.1 member, tokens]
  cases nearest : front.getLast? with
  | none => rfl
  | some y =>
    cases y with
    | statement ws s => rfl
    | dropped u => rfl
    | passed c =>
      obtain ⟨front, rfl⟩ := List.getLast?_eq_some_iff.1 nearest
      have adjacent : CommentEndsLine c t := by
        have own : (passed c).tokens = [c] := rfl
        simp only [List.flatMap_append, List.flatMap_cons, own, alone, List.append_assoc,
          List.cons_append, List.nil_append] at tidy
        exact (List.isChain_cons_cons.1 tidy.right_of_append).1
      have no_comment : c.kind ≠ .comment := fun comment => by
        rcases adjacent comment with other | other <;>
          exact absurd (kind.symm.trans other) Kind.noConfusion
      simp [takesSeparator, isPiece, no_comment]

end Share

open Share

/-- Shares that make up a script with a program, in front of its end mark. -/
structure MadeUp (source : String) (p : Program) (xs : List Share) (last : Token) : Prop where
  tokens : (Lexing.ofScript source false).tokens = xs.flatMap Share.tokens ++ [last]
  ends : last.kind = .eof
  account : Account xs [last]
  paced : Paced false xs
  statements : xs.filterMap statement? = p.body
  warnings : parseWarnings source = (xs.filterMap dropped?).map ParseReport.skipped

theorem exists_madeUp {source : String} {p : Program} (parsed : parse source false = .ok p) :
    ∃ xs last, MadeUp source p xs last := by
  obtain ⟨closed, ws, last, split, body, -⟩ := Parser.parse_ok_iff.1 ⟨parsed, rfl⟩
  have complete : Complete (ws ++ [last]) := split ▸ Parser.complete_loaded closed
  obtain ⟨xs, rfl, account, statements, dropped, paced⟩ :=
    exists_paced_shares body.isFront complete
  have ends : Complete [last] := complete.of_append (List.cons_ne_nil _ _)
  refine ⟨xs, last, split, ends, account, paced, statements, ?_⟩
  rw [dropped, parseWarnings, Parser.warnings]

namespace MadeUp

variable {source : String} {p : Program} {xs : List Share} {last : Token}

theorem tidy (madeUp : MadeUp source p xs last) :
    (xs.flatMap Share.tokens ++ [last]).IsChain CommentEndsLine :=
  madeUp.tokens ▸ Lexing.isChain_run .start source.toList

/-- No token stands twice in a script. -/
theorem apart (madeUp : MadeUp source p xs last) : (xs.flatMap Share.tokens).Nodup := by
  have ordered := (Lexing.tiling_run [] source.toList .start rfl).ordered
  rw [← Lexing.ofScript, madeUp.tokens] at ordered
  exact (List.pairwise_append.1 ordered).1.imp fun before same => by simp [same] at before

/-- A token is reported once if its share drops it, and never otherwise. -/
theorem countP_token {front behind : List Share} {x : Share}
    (madeUp : MadeUp source p (front ++ x :: behind) last) {t : Token} (member : t ∈ x.tokens) :
    (parseWarnings source).countP (fun w => w.token = some t) =
      if x.dropped? = some t then 1 else 0 := by
  have about : (fun w : ParseReport => decide (w.token = some t)) ∘ ParseReport.skipped =
      (· == t) := by
    funext u
    exact decide_eq_decide.2 Option.some_inj
  rw [madeUp.warnings, List.countP_map, about, ← count_dropped madeUp.apart member]
  rfl

/-- A semicolon between statements is reported unless it stands behind a piece. -/
theorem countP_semicolon {front behind : List Share} {x : Share}
    (madeUp : MadeUp source p (front ++ x :: behind) last) (single : x.statement? = none)
    {t : Token} (member : t ∈ x.tokens) (kind : t.kind = .semicolon) :
    (parseWarnings source).countP (fun w => w.token = some t) =
      if front.getLast?.any isPiece then 0 else 1 := by
  have turn := madeUp.paced.inTurn
  rw [takesSeparator_of_semicolon madeUp.tidy member kind single] at turn
  rw [madeUp.countP_token member]
  cases x with
  | statement ws s => cases single
  | dropped u =>
    obtain rfl := List.mem_singleton.1 member
    simp [turn kind, dropped?]
  | passed u =>
    obtain rfl := List.mem_singleton.1 member
    simp [turn kind, dropped?]

/-- Of a run of semicolons at the start, half are reported. -/
theorem countP_run (madeUp : MadeUp source p xs last) {semicolons others : List Token}
    (split : xs.flatMap Share.tokens = semicolons ++ others)
    (run : ∀ t ∈ semicolons, t.kind = .semicolon) :
    (parseWarnings source).countP (fun w => w.token.any (· ∈ semicolons)) =
      (semicolons.length + 1) / 2 := by
  have whole : xs.flatMap Share.tokens ++ [last] = semicolons ++ (others ++ [last]) := by
    rw [split, List.append_assoc]
  obtain ⟨ys, zs, rfl, rfl, half⟩ := exists_run madeUp.ends madeUp.account madeUp.paced whole run
  calc (parseWarnings source).countP (fun w => w.token.any (· ∈ ys.flatMap Share.tokens))
      = ((ys ++ zs).filterMap dropped?).countP (fun t => t ∈ ys.flatMap Share.tokens) := by
        rw [madeUp.warnings, List.countP_map]
        rfl
    _ = (ys.filterMap dropped?).length := countP_dropped madeUp.apart
    _ = ((ys.flatMap Share.tokens).length + 1) / 2 := half

end MadeUp

/-- **Which semicolons between statements are reported.**  The tokens of a script that has a
program are shares one after another, up to the end mark.  A semicolon that is a share of its
own is reported by one warning, with code P001, unless it stands directly behind a statement
or a dropped token; then there is none.  So of a run of semicolons at the start every other
one is reported. -/
theorem semicolons_reported (source : String) {p : Program} (parsed : parse source false = .ok p) :
    ∃ shares last, tokenize source false = .ok (shares.flatMap Share.tokens ++ [last]) ∧
      Account shares [last] ∧ shares.filterMap Share.statement? = p.body ∧
      (∀ w ∈ parseWarnings source, w.diagnostic.code = some "P001") ∧
      (∀ front x behind, shares = front ++ x :: behind → x.statement? = none →
        ∀ t ∈ x.tokens, t.kind = .semicolon →
          (parseWarnings source).countP (fun w => w.token = some t) =
            if front.getLast?.any Share.isPiece then 0 else 1) ∧
      ∀ semicolons others, shares.flatMap Share.tokens = semicolons ++ others →
        (∀ t ∈ semicolons, t.kind = .semicolon) →
          (parseWarnings source).countP (fun w => w.token.any (· ∈ semicolons)) =
            (semicolons.length + 1) / 2 := by
  obtain ⟨xs, last, madeUp⟩ := exists_madeUp parsed
  refine ⟨xs, last, by rw [Lexing.tokenize_eq, madeUp.tokens], madeUp.account, madeUp.statements,
    ?_, ?_, fun _ _ => madeUp.countP_run⟩
  · intro w member
    rw [madeUp.warnings] at member
    obtain ⟨t, -, rfl⟩ := List.mem_map.1 member
    rfl
  · rintro front x behind rfl single t member kind
    exact madeUp.countP_semicolon single member kind

/-- Three semicolons. -/
theorem semicolons_reported_three : ∃ p semicolons last, parse ";;;" false = .ok p ∧
    tokenize ";;;" false = .ok (semicolons ++ [last]) ∧
    semicolons.map Token.kind = [.semicolon, .semicolon, .semicolon] ∧
    (parseWarnings ";;;").countP (fun w => w.token.any (· ∈ semicolons)) = 2 := by
  generalize script : ";;;" = source
  have kinds : (Lexing.ofScript source false).tokens.map Token.kind =
      [.semicolon, .semicolon, .semicolon] ++ [.eof] := by
    subst script
    decide +kernel
  have parses : ((parse source false).casesOn (fun _ => false) fun _ => true) = true := by
    subst script
    decide +kernel
  cases parsed : parse source false with
  | error e => simp [parsed] at parses
  | ok p =>
    obtain ⟨shares, last, tokens, -, -, -, -, runs⟩ := semicolons_reported source parsed
    have split := Except.ok.inj ((Lexing.tokenize_eq source).symm.trans tokens)
    rw [split, List.map_append] at kinds
    obtain ⟨kinds, -⟩ := List.append_inj' kinds rfl
    have run : ∀ t ∈ shares.flatMap Share.tokens, t.kind = .semicolon := fun t member => by
      have := List.mem_map_of_mem (f := Token.kind) member
      rw [kinds] at this
      simpa using this
    have three : (shares.flatMap Share.tokens).length = 3 := by
      rw [← List.length_map (f := Token.kind), kinds]
      rfl
    refine ⟨p, _, last, rfl, tokens, kinds, ?_⟩
    rw [runs _ [] (List.append_nil _).symm run, three]

/-- Two semicolons: the second is passed, though it follows no statement. -/
theorem semicolon_passed_over : ∃ p t u last, parse ";;" false = .ok p ∧ p.body = [] ∧
    tokenize ";;" false = .ok [t, u, last] ∧ t.kind = .semicolon ∧ u.kind = .semicolon ∧
    (parseWarnings ";;").map ParseReport.token = [some t] ∧
    (parseWarnings ";;").countP (fun w => w.token = some u) = 0 := by
  generalize script : ";;" = source
  have kinds : (Lexing.ofScript source false).tokens.map (fun t => (t.kind, t.start)) =
      [(.semicolon, 0), (.semicolon, 1), (.eof, 2)] := by
    subst script
    decide +kernel
  have parses : ((parse source false).casesOn (fun _ => false) fun p => p.body.isEmpty) = true := by
    subst script
    decide +kernel
  have warned : (parseWarnings source).map ParseReport.token =
      (Lexing.ofScript source false).tokens.head?.toList.map some := by
    subst script
    decide +kernel
  obtain ⟨t, _, tokens, t_kind, rest⟩ := List.map_eq_cons_iff.1 kinds
  obtain ⟨u, _, rfl, u_kind, rest⟩ := List.map_eq_cons_iff.1 rest
  obtain ⟨last, rfl, -⟩ := List.map_eq_singleton_iff.1 rest
  obtain ⟨t_kind, t_start⟩ := Prod.mk.inj t_kind
  obtain ⟨u_kind, u_start⟩ := Prod.mk.inj u_kind
  rw [tokens] at warned
  cases parsed : parse source false with
  | error e => simp [parsed] at parses
  | ok p =>
    simp only [parsed, List.isEmpty_iff] at parses
    refine ⟨p, t, u, last, rfl, parses, by rw [Lexing.tokenize_eq, tokens], t_kind, u_kind, warned,
      List.countP_eq_zero.2 fun w member => ?_⟩
    have token : w.token = some t := by
      have := List.mem_map_of_mem (f := ParseReport.token) member
      rw [warned] at this
      simpa using this
    have other : t ≠ u := fun same => by simp [← same, t_start] at u_start
    simpa [token] using other

end ShellScript
