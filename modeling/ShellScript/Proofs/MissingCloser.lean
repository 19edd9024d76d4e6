/-
# ShellScript.Proofs.MissingCloser -- a missing closer is that of the innermost block

Let compound statements be left open, one in the block of another, and let the last block be
followed by a token that can neither go on with it nor end it: the end of the script, or a word
that closes some other block.  If all this nests less than 120 deep, the script is refused at
that token, and what is said to be missing is the closer of the last block
(`missing_closer_names_innermost`).  The blocks around it have no part in that, even where the
token would close one of them, and nor has what stands behind the token.

The parser notices in two ways: at the end of the script it looks for the closer behind the
block, and at any other word it gives up inside the block (`brokenBody_of_misplaced`).  Both
say the same.  Either way the failure is that of every statement around it, as in
`broken_of_opener`.
-/
import ShellScript.Proofs.FirstError
import ShellScript.Proofs.Open
import ShellScript.Proofs.Wrapping

namespace ShellScript

set_option autoImplicit false

open Grammar Parse

/-! ## Tokens that cut a block short -/

/-- A token that can neither go on with a block nor end it. -/
def Parse.Block.CutBy (b : Block) (t : Token) : Prop :=
  t.kind = .eof ∨ (t.kind.isBlockCloser = true ∧ t.kind ∉ b.terminators)

/-- What is said of a block whose closer is missing. -/
inductive SaysMissing : Block → String → Prop
  | thenPart : SaysMissing .thenPart "Expected 'fi'"
  | elsePart : SaysMissing .elsePart "Expected 'fi'"
  | loopBody : SaysMissing .loopBody "Expected 'done'"
  | functionBody : SaysMissing .functionBody "Expected '\x7d'"

theorem exists_message {t : Token} {b : Block} {outer : List Block} {n : Nat} {ws : List Token}
    (opened : IsOpen t b outer n ws) :
    ∃ message, closerMessage? b.closer = some message ∧ SaysMissing b message := by
  obtain ⟨d, us, opener⟩ : ∃ d us, IsOpener b d us := by
    induction opened with
    | innermost opener => exact ⟨_, _, opener⟩
    | inside _ _ _ ih => exact ih
  cases opener with
  | thenPart => exact ⟨_, rfl, .thenPart⟩
  | elsePart => exact ⟨_, rfl, .elsePart⟩
  | forBody => exact ⟨_, rfl, .loopBody⟩
  | whileBody => exact ⟨_, rfl, .loopBody⟩
  | functionBody => exact ⟨_, rfl, .functionBody⟩

section Cut

variable {b : Block} {t : Token} {message : String}

/-- A block that is cut short breaks there, for its closer. -/
theorem brokenBody_of_cut (closes : b.Closes) (known : closerMessage? b.closer = some message)
    (cut : b.CutBy t) {depth : Nat} {ws : List Token} {ss : List Statement}
    (body : IsBlock (Within depth) t ws ss) :
    BrokenBody (Within depth) (Broken depth) b t ws
      (.malformed (.missingKind b.closer message t)) := by
  rcases cut with last | ⟨closer, other⟩
  · exact .closer body last known
  have plain : t.kind ≠ .eof ∧ t.kind ≠ .semicolon ∧ t.kind ≠ .newline := by
    revert closer
    cases t.kind <;> decide
  obtain ⟨items, rounds, -⟩ :=
    rounds_of_isBlock (opens_within depth) closes body (.none plain.2.1 plain.2.2)
  have inside : ¬ b.Ends t := not_or.2 ⟨plain.1, other⟩
  exact .inside ⟨ws, [], items, (List.append_nil ws).symm, rounds, .closer inside closer known⟩

/-- Statements that are left open break where the innermost block is cut short. -/
theorem broken_of_cut (known : closerMessage? b.closer = some message) (cut : b.CutBy t)
    {outer : List Block} {n depth : Nat} {ws : List Token} (opened : IsOpen t b outer n ws)
    (room : n ≤ depth) :
    Broken depth t ws (.malformed (.missingKind b.closer message t)) := by
  induction opened generalizing depth with
  | innermost opener body =>
    cases depth with
    | zero => exact absurd room (Nat.not_succ_le_zero _)
    | succ depth =>
      obtain ⟨first, inBody⟩ := Nat.max_le.1 (Nat.le_of_succ_le_succ room)
      exact broken_of_opener opener first
        (brokenBody_of_cut (closes_of_isOpener opener) known cut
          (isBlock_within.2 ⟨body, inBody⟩))
  | inside opener body _ ih =>
    cases depth with
    | zero => exact absurd room (Nat.not_succ_le_zero _)
    | succ depth =>
      obtain ⟨here, others⟩ := Nat.max_le.1 (Nat.le_of_succ_le_succ room)
      obtain ⟨first, inBody⟩ := Nat.max_le.1 here
      rw [List.append_assoc]
      exact broken_of_opener opener first
        (brokenBody_of_statement (closes_of_isOpener opener)
          (isBlock_within.2 ⟨body, inBody⟩) (ih others))

end Cut

/-! ## Scripts with missing closers -/

/-- A word alone is a command. -/
theorem isBlock_of_word {word next : Token} (kind : word.kind = .word) (ends : next.Parts) :
    IsBlock IsStatement next [word]
      [.command ⟨word.text, [], [], [], Span.reach? word.position next.position⟩] := by
  have command : IsCommand next [word] _ := .mk kind .nil ends.no_argument ends.no_redirection
  have alone : ¬ StartsAssignment [word] := by
    rintro ⟨name, equals, rest, same, -⟩
    cases (List.cons.inj same).2
  have statement := IsStatement.pipeline (.command command ends.no_pipe) alone
  have block : IsBlock IsStatement next ([word] ++ []) _ := .statement statement .nil
  exact block

/-- A script is refused as the statement behind its front is. -/
theorem parse_of_broken {source : String} {strict : Bool} {front ws others : List Token} {t : Token}
    {f : List Statement × List Token} {e : Failure}
    (tokens : tokenize source strict = .ok (front ++ (ws ++ t :: others)))
    (isFront : IsFront (Within nestingLimit) (follow ws t) front f)
    (broken : Broken nestingLimit t ws e) :
    parse source strict = .error (e.report t.position) := by
  have read := Body.read_broken isFront broken (Parser.complete_of_tokenize tokens)
  obtain ⟨closed, same⟩ := Parser.closed_of_tokenize tokens
  have whole : Body.read (Parser.loaded source strict).tokens =
      ⟨f.1, f.2, t :: others, some e⟩ := by
    rw [Parser.loaded, same, read]
    simp [Body.after, Body.stop]
  exact Parser.parse_of_failure closed whole

/-- A script is refused for its depth where the statement behind its front nests too deep. -/
theorem exists_tooDeep {source : String} {strict : Bool} {front ws others : List Token} {t : Token}
    {f : List Statement × List Token}
    (tokens : tokenize source strict = .ok (front ++ (ws ++ t :: others)))
    (isFront : IsFront (Within nestingLimit) (follow ws t) front f)
    (overflows : Overflows nestingLimit ws) :
    ∃ u ∈ ws, parse source strict = .error (.tooDeep u.position) := by
  obtain ⟨us, u, vs, rfl, broken⟩ := overflows
  rw [follow_append] at isFront
  rw [List.append_assoc] at tokens
  exact ⟨u, by simp, parse_of_broken tokens isFront broken⟩

/-- **A missing closer is that of the innermost block.**  Behind a front of whole statements,
which nest less than 120 deep, compound statements are left open, and a token cuts the innermost
block short.  If these, with the statements in their blocks, nest less than 120 deep, too, the
script is refused at that token, for the closer of that block, whichever blocks are open around
it and whatever stands behind the token.  If they nest a thousand deep, it is refused for that. -/
theorem missing_closer_names_innermost {source : String} {strict : Bool}
    {front ws others : List Token} {t : Token} {f : List Statement × List Token} {b : Block}
    {outer : List Block} {n : Nat}
    (tokens : tokenize source strict = .ok (front ++ (ws ++ t :: others)))
    (isFront : IsFront IsStatement (follow ws t) front f)
    (shallow : Statement.nestingAll f.1 < 120)
    (opened : IsOpen t b outer n ws) (cut : b.CutBy t) :
    (n < 120 → ∃ r, parse source strict = .error r ∧
      r.token = some t ∧ r.diagnostic.position = t.position ∧
        SaysMissing b r.diagnostic.message ∧
        r.diagnostic.code = some (if t.kind = .eof then "P010" else "P002")) ∧
    (1000 ≤ n → ∃ r, parse source strict = .error r ∧ r.diagnostic.code = some "P014") := by
  have inFront := isFront.within (Nat.le_trans (Nat.le_of_lt shallow) le_nestingLimit)
  constructor
  · intro few
    obtain ⟨message, known, said⟩ := exists_message opened
    have room : n ≤ nestingLimit := Nat.le_trans (Nat.le_of_lt few) le_nestingLimit
    have broken := broken_of_cut known cut opened room
    exact ⟨_, parse_of_broken tokens inFront broken, rfl, rfl, said, rfl⟩
  · intro many
    have deep : nestingLimit < n := Nat.lt_of_lt_of_le nestingLimit_lt many
    obtain ⟨u, -, refused⟩ := exists_tooDeep tokens inFront (overflows_of_isOpen opened deep)
    exact ⟨_, refused, rfl⟩

/-- A loop inside a conditional, where the conditional would be closed. -/
theorem missing_closer_names_innermost_loop :
    ∃ r, parse "if a then while b do c fi d" false = .error r ∧
      r.token.map Token.kind = some .kwFi ∧ r.diagnostic.message = "Expected 'done'" ∧
      r.diagnostic.code = some "P002" := by
  generalize script : "if a then while b do c fi d" = source
  have kinds : (Lexing.ofScript source false).tokens.map Token.kind =
      [.kwIf, .word, .kwThen, .kwWhile, .word, .kwDo, .word, .kwFi, .word, .eof] := by
    subst script
    decide +kernel
  have tokens := Lexing.tokenize_eq source
  generalize (Lexing.ofScript source false).tokens = ts at kinds tokens
  obtain ⟨kwIf, _, rfl, if_kind, kinds⟩ := List.map_eq_cons_iff.1 kinds
  obtain ⟨a, _, rfl, a_kind, kinds⟩ := List.map_eq_cons_iff.1 kinds
  obtain ⟨kwThen, _, rfl, then_kind, kinds⟩ := List.map_eq_cons_iff.1 kinds
  obtain ⟨kwWhile, _, rfl, while_kind, kinds⟩ := List.map_eq_cons_iff.1 kinds
  obtain ⟨b, _, rfl, b_kind, kinds⟩ := List.map_eq_cons_iff.1 kinds
  obtain ⟨kwDo, _, rfl, do_kind, kinds⟩ := List.map_eq_cons_iff.1 kinds
  obtain ⟨c, _, rfl, c_kind, kinds⟩ := List.map_eq_cons_iff.1 kinds
  obtain ⟨kwFi, others, rfl, fi_kind, -⟩ := List.map_eq_cons_iff.1 kinds
  have word {t : Token} (kind : t.kind = .word) : IsHeader ([t] ++ []) _ [] :=
    .mk (.word kind) .nil (by simp)
  have body := isBlock_of_word c_kind (.of_kind fi_kind rfl rfl Kind.noConfusion)
  have opened := IsOpen.inside (.thenPart if_kind (word a_kind) then_kind) .nil
    (.innermost (.whileBody while_kind (word b_kind) do_kind) body)
  have cut : Block.loopBody.CutBy kwFi := Or.inr ⟨by rw [fi_kind]; rfl, by rw [fi_kind]; decide⟩
  have shallow : Statement.nestingAll [] < 120 := by decide
  obtain ⟨r, refused, token, -, said, code⟩ :=
    (missing_closer_names_innermost tokens .stop shallow opened cut).1
      (by simp [Statement.nesting, Statement.nestingAll])
  refine ⟨r, refused, by simp [token, fi_kind], ?_, by simpa [fi_kind] using code⟩
  generalize message : r.diagnostic.message = text at said
  cases said
  rfl

/-! ## Blocks that nest too deep -/

/-- Conditionals one inside another, so many deep. -/
def nestedConditionals : Nat → String
  | 0 => "b"
  | depth + 1 => Wrapper.conditional.wrap (nestedConditionals depth)

/-- Such conditionals are grammatical, however deep. -/
theorem exists_isBlock_nested (depth : Nat) :
    (Lexing.ofScript (nestedConditionals depth) false).warnings = [] ∧
      ∃ ws last ss, (Lexing.ofScript (nestedConditionals depth) false).tokens = ws ++ [last] ∧
        IsBlock IsStatement last ws ss ∧ Statement.nestingAll ss = depth := by
  induction depth with
  | zero =>
    have kinds : (Lexing.ofScript "b" false).tokens.map Token.kind = [.word, .eof] := by
      decide +kernel
    obtain ⟨b, _, tokens, b_kind, kinds⟩ := List.map_eq_cons_iff.1 kinds
    obtain ⟨last, rfl, last_kind⟩ := List.map_eq_singleton_iff.1 kinds
    have body := isBlock_of_word b_kind (.of_kind last_kind rfl rfl Kind.noConfusion)
    exact ⟨by decide +kernel, [b], last, _, tokens, body, rfl⟩
  | succ depth ih =>
    obtain ⟨quiet, ws, last, ss, tokens, body, nesting⟩ := ih
    refine ⟨Wrapper.quiet_wrap _ quiet, ?_⟩
    obtain ⟨ws', last', m, ts, mark, tokens', -, wrapped, -, around⟩ :=
      Wrapper.conditional.tokens_wrap quiet
    obtain ⟨rfl, rfl⟩ := List.append_singleton_inj.1 (tokens'.symm.trans tokens)
    have inner := Lexing.inner_ofScript tokens
    obtain ⟨s, -, statement, -, -, deeper, -⟩ :=
      Wrapper.exists_isStatement_of_around around (isBlock_move inner body) mark
    rw [Statement.nestingAll_move, nesting] at deeper
    have whole : IsBlock IsStatement mark (ts ++ []) [s] := .statement statement .nil
    rw [List.append_nil] at whole
    exact ⟨ts, mark, [s], wrapped, whole, by simp [Statement.nestingAll, deeper]⟩

/-- Behind an opening, a block that nests too deep is refused for that, though the script ends
before the block does. -/
theorem exists_deep_body {source : String} (quiet : (Lexing.ofScript source false).warnings = [])
    {ws : List Token} {last : Token} {ss : List Statement}
    (tokens : (Lexing.ofScript source false).tokens = ws ++ [last])
    (body : IsBlock IsStatement last ws ss) :
    ∃ vs t, tokenize ("if x\nthen\n" ++ source) false = .ok (vs ++ [t]) ∧ t.kind = .eof ∧
      IsOpen t .thenPart [] (Statement.nestingAll ss + 1) vs := by
  obtain ⟨ws', last', front, tokens', last_kind, opened, kinds, -⟩ :=
    Wrapper.conditional.tokens_opened quiet
  obtain ⟨rfl, rfl⟩ := List.append_singleton_inj.1 (tokens'.symm.trans tokens)
  have inner := Lexing.inner_ofScript tokens
  obtain ⟨kwIf, _, rfl, if_kind, kinds⟩ := List.map_eq_cons_iff.1 kinds
  obtain ⟨x, _, rfl, x_kind, kinds⟩ := List.map_eq_cons_iff.1 kinds
  obtain ⟨endLine, _, rfl, line_kind, kinds⟩ := List.map_eq_cons_iff.1 kinds
  obtain ⟨kwThen, rfl, then_kind⟩ := List.map_eq_singleton_iff.1 kinds
  have header : IsHeader ([x] ++ [endLine]) _ [] :=
    .mk (.word x_kind) .nil (by simp [line_kind, Kind.isHeaderSeparator])
  have moved := isBlock_move (m := .behind Wrapper.conditional.opening) inner body
  have inside : IsBlock IsStatement _ (feedBehind Wrapper.conditional.opening :: _) _ :=
    .newline rfl moved
  have stack := IsOpen.innermost (.thenPart if_kind header then_kind) inside
  rw [Statement.nestingAll_move, Nat.zero_max] at stack
  exact ⟨_, last'.move (.behind Wrapper.conditional.opening),
    (Lexing.tokenize_eq _).trans (congrArg Except.ok opened), last_kind, stack⟩

/-- **A block that is cut short may nest too deep before that.**  A conditional is left open at
the end of the script.  In its block stands a grammatical statement that nests a thousand deep,
and the script is refused for that, not for the closer. -/
theorem missing_closer_behind_deep_statement :
    ∃ ws t n, tokenize ("if x\nthen\n" ++ nestedConditionals 1000) false = .ok (ws ++ [t]) ∧
      IsOpen t .thenPart [] n ws ∧ t.kind = .eof ∧
      ∃ r, parse ("if x\nthen\n" ++ nestedConditionals 1000) false = .error r ∧
        r.diagnostic.code = some "P014" := by
  obtain ⟨quiet, ws, last, ss, tokens, body, nesting⟩ := exists_isBlock_nested 1000
  generalize nestedConditionals 1000 = source at quiet tokens
  obtain ⟨vs, t, tokens, last_kind, opened⟩ := exists_deep_body quiet tokens body
  have deep : nestingLimit < Statement.nestingAll ss + 1 := by
    rw [nesting]
    exact Nat.lt_succ_of_lt nestingLimit_lt
  have whole : tokenize _ false = .ok ([] ++ (vs ++ t :: [])) := tokens
  obtain ⟨u, -, refused⟩ := exists_tooDeep whole .stop (overflows_of_isOpen opened deep)
  exact ⟨vs, t, _, tokens, opened, last_kind, _, refused, rfl⟩

end ShellScript
