/-
# ShellScript.Proofs.Nesting -- nesting alone makes a script too deep

The parser goes into a compound statement for each that is open, and comes back at its closer.
So a script is refused for its depth only at a token where more than 120 compound statements are
open, counting openers and closers up to there (`exists_level_of_tooDeep`).  How many statements,
words, pipes or lines it has does not matter.

And where a thousand are open, it always is.  Openers that stand one in the block of another
(`IsOpeners`) are a block and then statements that are left open (`IsOpeners.exists_isOpen`), and
these are refused where there is no more room (`exists_tooDeep`), before anything behind them is
looked at.
-/
import Mathlib.Data.List.Infix
import ShellScript.Proofs.MissingCloser
import ShellScript.Proofs.Parse.Level
import ShellScript.Proofs.Refusal

namespace ShellScript

set_option autoImplicit false

open Grammar Parse

/-! ## Only nesting -/

/-- A syntax error is reported under a code of its own. -/
theorem SyntaxError.code_ne_tooDeep (e : SyntaxError) : e.code ≠ "P014" := by
  have codeAt_ne (t : Token) {code : String} (other : code ≠ "P014") :
      codeAt t code ≠ "P014" := by
    unfold codeAt
    split
    · decide
    · exact other
  cases e with
  | missingKind _ _ t => exact codeAt_ne t (by decide)
  | missingText _ t => exact codeAt_ne t (by decide)
  | unexpected => exact (by decide : "P001" ≠ "P014")
  | noExpression t => exact codeAt_ne t (by decide)

/-- **A script is refused for its depth at a token behind which more than 120 compound statements
are open.** -/
theorem exists_level_of_tooDeep {source : String} {strict : Bool} {r : ParseReport}
    (refused : parse source strict = .error r) (code : r.diagnostic.code = some "P014") :
    ∃ us t others, (Lexing.ofScript source strict).tokens = us ++ t :: others ∧
      r.diagnostic.position = t.position ∧ 120 < level 0 (us ++ [t]) := by
  cases closed : (Lexing.ofScript source strict).failure with
  | some d =>
    rw [parse, Parser.parse_of_open closed] at refused
    obtain rfl := Except.error.inj refused
    cases strict with
    | false =>
      rw [Lexing.ofScript, Lexing.failure_run_lenient] at closed
      cases closed
    | true =>
      obtain ⟨delimiter, position, rfl⟩ := Lexing.failure_run_strict _ _ closed
      cases delimiter <;> exact absurd (Option.some.inj code) (by decide)
  | none =>
    have complete := Parser.complete_loaded closed
    cases fails : (Body.read (Parser.loaded source strict).tokens).failure with
    | none =>
      obtain ⟨p, parses⟩ := Parser.exists_program closed fails
      rw [parse, parses] at refused
      cases refused
    | some e =>
      obtain ⟨front, ws, t, others, b, tokens, isFront, broken, done⟩ :=
        Body.exists_broken complete fails
      have whole : Body.read (Parser.loaded source strict).tokens =
          ⟨b.1, b.2, t :: others, some e⟩ := by
        rw [done]
        simp [Body.after, Body.stop]
      rw [parse, Parser.parse_of_failure closed whole] at refused
      obtain rfl := Except.error.inj refused
      obtain ⟨_, _, _, -, -, refuses⟩ := refuses_of_read complete fails
      cases refuses with
      | @malformed e => exact absurd (Option.some.inj code) e.code_ne_tooDeep
      | tooDeep =>
        refine ⟨front ++ ws, t, others, by rw [List.append_assoc]; exact tokens, rfl, ?_⟩
        rw [List.append_assoc, level_append, level_of_isFront (raises_within _) isFront,
          raises_of_broken broken, Nat.zero_add]
        exact Nat.lt_succ_of_le le_nestingLimit

/-! ## Always where nesting is too deep -/

namespace Grammar

/-- Openers, `n` of them, each in the block of the one before and behind statements there. -/
inductive IsOpeners : Nat → List Token → Prop
  | nil : IsOpeners 0 []
  | cons {b : Block} {n d : Nat} {t : Token} {us ts ws : List Token} {ss : List Statement}
      (before : IsBlock IsStatement t us ss) (opener : IsOpener b d (t :: ts))
      (others : IsOpeners n ws) : IsOpeners (n + 1) (us ++ (t :: ts ++ ws))

theorem IsOpeners.append {m n : Nat} {us ws : List Token} (first : IsOpeners m us)
    (second : IsOpeners n ws) : IsOpeners (m + n) (us ++ ws) := by
  induction first with
  | nil => simpa using second
  | cons before opener _ ih =>
    rw [Nat.add_right_comm, List.append_assoc, List.append_assoc]
    exact .cons before opener ih

/-- Openers are a block and then statements that are left open, as many as there are. -/
theorem IsOpeners.exists_isOpen {n : Nat} {ws : List Token} (h : IsOpeners n ws) (some : 0 < n)
    (t : Token) : ∃ us vs ss b outer depth, ws = us ++ vs ∧
      IsBlock IsStatement (follow vs t) us ss ∧ IsOpen t b outer depth vs ∧ n ≤ depth := by
  induction h with
  | nil => exact absurd some (Nat.lt_irrefl 0)
  | @cons b n d u us ts ws ss before opener others ih =>
    rcases Nat.eq_zero_or_pos n with rfl | more
    · cases others
      refine ⟨us, u :: ts ++ [], ss, b, [], _, rfl, before, .innermost opener .nil, ?_⟩
      exact Nat.le_add_left 1 _
    · obtain ⟨vs, vs', ss', a, outer, depth, rfl, body, opened, enough⟩ := ih more
      refine ⟨us, u :: ts ++ vs ++ vs', ss, a, b :: outer, _, by simp, before,
        .inside opener body opened, ?_⟩
      exact Nat.succ_le_succ (Nat.le_trans enough (Nat.le_max_right _ _))

/-- What nests too deep opens a statement. -/
theorem Overflows.opens {depth : Nat} {ws : List Token} (h : Overflows depth ws) (next : Token) :
    (follow ws next).kind.opensStatement = true := by
  obtain ⟨us, t, vs, rfl, broken⟩ := h
  rw [follow_append]
  exact opensBroken_broken depth t us _ broken

end Grammar

/-- A block and statements that are left open behind it nest too deep in one of the statements
of the block or behind all of them. -/
theorem exists_overflows {depth : Nat} {next : Token} {us ws : List Token} {ss : List Statement}
    (block : IsBlock IsStatement (follow ws next) us ss) (overflows : Overflows depth ws) :
    ∃ front vs f, us ++ ws = front ++ vs ∧ IsFront (Within depth) (follow vs next) front f ∧
      Overflows depth vs := by
  have isFront {front vs : List Token} {ss : List Statement}
      (block : IsBlock (Within depth) (follow vs next) front ss) (deep : Overflows depth vs) :
      IsFront (Within depth) (follow vs next) front (ss, []) :=
    isFront_of_isBlock (opens_within depth) block (.none_of_opens (deep.opens next))
  by_cases shallow : Statement.nestingAll ss ≤ depth
  · exact ⟨us, ws, _, rfl, isFront (isBlock_within.2 ⟨block, shallow⟩) overflows, overflows⟩
  · obtain ⟨front, vs, zs, ss', s, rfl, before, found, deep⟩ :=
      exists_deep block (Nat.lt_of_not_le shallow)
    have inside := (overflows_of_isStatement found deep).append (zs ++ ws)
    rw [← follow_append, List.append_assoc] at before
    exact ⟨front, vs ++ (zs ++ ws), _, by simp, isFront before inside, inside⟩

/-- **More openers than may be open are refused for their depth**, whatever stands on the lines
behind them. -/
theorem exists_tooDeep_of_isOpeners {source : String}
    (quiet : (Lexing.ofScript source false).warnings = []) {ws : List Token} {last : Token}
    (tokens : (Lexing.ofScript source false).tokens = ws ++ [last]) {n : Nat}
    (openers : IsOpeners n ws) (deep : nestingLimit < n) (rest : String) :
    ∃ t ∈ ws, parse (source ++ "\n" ++ rest) false = .error (.tooDeep t.position) := by
  obtain ⟨ws', tokens', whole⟩ :=
    ofScript_append_line (Lexing.failure_run_lenient _ _) quiet rest
  obtain ⟨rfl, rfl⟩ := List.append_singleton_inj.1 (tokens'.symm.trans tokens)
  obtain ⟨us, vs, ss, b, outer, depth, rfl, block, opened, enough⟩ :=
    openers.exists_isOpen (Nat.zero_lt_of_lt deep) (feedBehind source)
  have overflows := overflows_of_isOpen opened (Nat.lt_of_lt_of_le deep enough)
  obtain ⟨front, vs', f, split, isFront, overflows⟩ := exists_overflows block overflows
  have lexed : tokenize (source ++ "\n" ++ rest) false = .ok (front ++ (vs' ++
      feedBehind source :: (Lexing.ofScript rest false).tokens.map
        (Token.move (.behind source)))) := by
    rw [Lexing.tokenize_eq, whole, ← List.append_assoc, ← split]
    simp [Lexing.behind, Lexing.shift, Motion.behind]
  obtain ⟨t, member, refused⟩ := exists_tooDeep lexed isFront overflows
  exact ⟨t, split ▸ List.mem_append_right front member, refused⟩

/-! ## The two together -/

/-- **Nesting alone makes a script too deep, and it always does.**  Where never more than 120
compound statements are open at once, a script is not refused for its depth, however long it is;
where it is refused for that, more than 120 are open at the token of the report.

And let a script be a sequence of at least a thousand openers, each in the block of the one
before and behind grammatical statements there, with no delimiter left open.  With any text on
the lines behind it, it is refused for its depth at one of its own tokens. -/
theorem too_deep_by_nesting_alone (source : String) :
    (∀ strict, (∀ us, us <+: (Lexing.ofScript source strict).tokens → level 0 us ≤ 120) →
      ∀ r, parse source strict = .error r → r.diagnostic.code ≠ some "P014") ∧
    (∀ strict r, parse source strict = .error r → r.diagnostic.code = some "P014" →
      ∃ us t others, (Lexing.ofScript source strict).tokens = us ++ t :: others ∧
        r.diagnostic.position = t.position ∧ 120 < level 0 (us ++ [t])) ∧
    ∀ ws last n, (Lexing.ofScript source false).warnings = [] →
      (Lexing.ofScript source false).tokens = ws ++ [last] → IsOpeners n ws → 1000 ≤ n →
      ∀ rest, ∃ t ∈ ws, parse (source ++ "\n" ++ rest) false = .error (.tooDeep t.position) := by
  refine ⟨fun strict few r refused code => ?_, fun strict r => exists_level_of_tooDeep,
    fun ws last n quiet tokens openers many rest => ?_⟩
  · obtain ⟨us, t, others, tokens, -, deep⟩ := exists_level_of_tooDeep refused code
    have enough := few (us ++ [t]) ⟨others, by rw [tokens, List.append_assoc]; rfl⟩
    exact absurd deep (Nat.not_lt_of_le enough)
  · exact exists_tooDeep_of_isOpeners quiet tokens openers
      (Nat.lt_of_lt_of_le nestingLimit_lt many) rest

/-- Conditionals, each left open in the one before and on lines of its own. -/
def openConditionals : Nat → String
  | 0 => ""
  | n + 1 => openConditionals n ++ "\n" ++ "if x\nthen"

/-- Such conditionals are openers. -/
theorem exists_isOpeners (n : Nat) :
    (Lexing.ofScript (openConditionals n) false).warnings = [] ∧
      ∃ ws last, (Lexing.ofScript (openConditionals n) false).tokens = ws ++ [last] ∧
        IsOpeners n ws := by
  induction n with
  | zero =>
    have empty : (Lexing.ofScript "" false).warnings = [] ∧
        (Lexing.ofScript "" false).tokens = [Token.endMark .start] := by decide +kernel
    exact ⟨empty.1, [], _, empty.2, .nil⟩
  | succ n ih =>
    obtain ⟨quiet, ws, last, tokens, openers⟩ := ih
    obtain ⟨ws', tokens', whole⟩ :=
      ofScript_append_line (Lexing.failure_run_lenient _ _) quiet "if x\nthen"
    obtain ⟨rfl, -⟩ := List.append_singleton_inj.1 (tokens'.symm.trans tokens)
    have opener : (Lexing.ofScript "if x\nthen" false).warnings = [] ∧
        (Lexing.ofScript "if x\nthen" false).tokens.map Token.kind =
          [.kwIf, .word, .newline, .kwThen, .eof] := by decide +kernel
    obtain ⟨quiet', kinds⟩ := opener
    obtain ⟨kwIf, _, split, if_kind, kinds⟩ := List.map_eq_cons_iff.1 kinds
    obtain ⟨x, _, rfl, x_kind, kinds⟩ := List.map_eq_cons_iff.1 kinds
    obtain ⟨endLine, _, rfl, line_kind, kinds⟩ := List.map_eq_cons_iff.1 kinds
    obtain ⟨kwThen, _, rfl, then_kind, kinds⟩ := List.map_eq_cons_iff.1 kinds
    obtain ⟨mark, rfl, -⟩ := List.map_eq_singleton_iff.1 kinds
    let m := Motion.behind (openConditionals n)
    have header : IsHeader ([x.move m] ++ [endLine.move m]) _ [] :=
      .mk (.word x_kind) .nil (by simp [line_kind, Kind.isHeaderSeparator])
    have next : IsOpeners (0 + 1) ([feedBehind (openConditionals n)] ++
        (kwIf.move m :: ([x.move m] ++ [endLine.move m] ++ [kwThen.move m]) ++ [])) :=
      .cons (.newline rfl .nil) (.thenPart if_kind header then_kind) .nil
    refine ⟨?_, ws' ++ _, mark.move m, ?_, openers.append next⟩
    · rw [openConditionals, whole]
      simp [Lexing.behind, Lexing.shift, quiet']
    · rw [openConditionals, whole]
      simp [Lexing.behind, Lexing.shift, split, m, Motion.behind]

/-- A conditional without its closer, and a thousand of them with a string that is left open
behind them. -/
theorem too_deep_by_nesting_alone_conditionals :
    (∃ r, parse "if a\nthen b" false = .error r ∧ r.diagnostic.code ≠ some "P014") ∧
    ∃ r us t others, parse (openConditionals 1000 ++ "\n" ++ "fi \"c") false = .error r ∧
      r.diagnostic.code = some "P014" ∧
      (Lexing.ofScript (openConditionals 1000 ++ "\n" ++ "fi \"c") false).tokens =
        us ++ t :: others ∧ 120 < level 0 (us ++ [t]) := by
  constructor
  · have few : ∀ us ∈ (Lexing.ofScript "if a\nthen b" false).tokens.inits, level 0 us ≤ 120 := by
      decide +kernel
    have parses : (parse "if a\nthen b" false).isOk = false := by decide +kernel
    cases refused : parse "if a\nthen b" false with
    | ok p => simp [refused, Except.isOk, Except.toBool] at parses
    | error r =>
      have shallow := (too_deep_by_nesting_alone _).1 false fun us ahead =>
        few us ((List.mem_inits us _).2 ahead)
      exact ⟨r, rfl, shallow r refused⟩
  · obtain ⟨quiet, ws, last, tokens, openers⟩ := exists_isOpeners 1000
    generalize openConditionals 1000 = source at quiet tokens
    obtain ⟨t, -, refused⟩ := (too_deep_by_nesting_alone source).2.2 ws last 1000 quiet tokens
      openers (Nat.le_refl 1000) "fi \"c"
    obtain ⟨us, u, others, split, -, deep⟩ :=
      (too_deep_by_nesting_alone _).2.1 false _ refused rfl
    exact ⟨_, us, u, others, refused, rfl, split, deep⟩

end ShellScript
