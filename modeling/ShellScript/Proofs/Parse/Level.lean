/-
# ShellScript.Proofs.Parse.Level -- how many compound statements are open

Going through tokens one may count the compound statements that are open (`level`): `if`, `for`,
`while` and `function` open one, and `fi`, `done` and a closing brace close one.  The phrases of
the grammar close what they open, so they leave the level as it was (`raises_within`), however
long they are.  So do the rounds of the top level, where a closer that is dropped has nothing to
close (`level_of_isFront`).

So where a statement is refused for its depth, the level is just as high as the depth says
(`raises_of_broken`).  Both are shown rule by rule, and by induction on the depth.  A bound on the
depth that is as high as the number of tokens is never reached (`block_ne_tooDeep`).
-/
import ShellScript.Proofs.Parse.Orderly
import ShellScript.Proofs.Parse.Rounds

namespace ShellScript

set_option autoImplicit false

open Grammar Parse

/-! ## Levels -/

namespace Kind

/-- The kinds that open a compound statement. -/
def opensCompound : Kind → Bool
  | kwIf | kwFor | kwWhile | kwFunction => true
  | _ => false

/-- The kinds that close a compound statement. -/
def closesCompound : Kind → Bool
  | kwFi | kwDone | rbrace => true
  | _ => false

/-- The kinds that neither open nor close one. -/
def isLevel (k : Kind) : Bool := !(k.opensCompound || k.closesCompound)

end Kind

/-- How many compound statements are open behind a token, if `n` are in front of it.  Where none
is open, none can be closed. -/
def Token.levelBehind (n : Nat) (t : Token) : Nat :=
  if t.kind.opensCompound then n + 1 else if t.kind.closesCompound then n - 1 else n

/-- How many compound statements are open behind some tokens, if `n` are in front of them. -/
def level (n : Nat) (ws : List Token) : Nat := ws.foldl Token.levelBehind n

theorem level_cons (n : Nat) (t : Token) (ws : List Token) :
    level n (t :: ws) = level (t.levelBehind n) ws := rfl

theorem level_append (n : Nat) (us ws : List Token) :
    level n (us ++ ws) = level (level n us) ws := List.foldl_append

/-- A token opens at most one compound statement. -/
theorem level_le (n : Nat) (ws : List Token) : level n ws ≤ n + ws.length := by
  induction ws generalizing n with
  | nil => exact Nat.le_refl n
  | cons t ws ih =>
    have one : t.levelBehind n ≤ n + 1 := by
      unfold Token.levelBehind
      split
      · exact Nat.le_refl _
      split <;> omega
    have others := ih (t.levelBehind n)
    rw [level_cons, List.length_cons]
    omega

theorem Token.levelBehind_of_isLevel {t : Token} (flat : t.kind.isLevel = true) (n : Nat) :
    t.levelBehind n = n := by
  unfold levelBehind
  revert flat
  cases t.kind <;> simp [Kind.isLevel, Kind.opensCompound, Kind.closesCompound]

/-- Tokens behind which `d` more compound statements are open than in front of them. -/
def Raises (d : Nat) (ws : List Token) : Prop := ∀ n, level n ws = n + d

namespace Raises

variable {c d : Nat} {t : Token} {us ws : List Token}

theorem nil : Raises 0 [] := fun _ => rfl

theorem append (first : Raises c us) (second : Raises d ws) : Raises (c + d) (us ++ ws) := by
  intro n
  rw [level_append, first, second, Nat.add_assoc]

/-- Behind tokens that close what they open. -/
theorem behind (first : Raises 0 us) (second : Raises d ws) : Raises d (us ++ ws) := by
  have whole := first.append second
  rwa [Nat.zero_add] at whole

theorem opener {k : Kind} (others : Raises d ws) (kind : t.kind = k)
    (opens : k.opensCompound = true) : Raises (d + 1) (t :: ws) := by
  intro n
  subst kind
  rw [level_cons, Token.levelBehind, if_pos opens, others, Nat.add_assoc, Nat.add_comm 1]

theorem closer {k : Kind} (first : Raises (d + 1) ws) (kind : t.kind = k)
    (closes : k.closesCompound = true) : Raises d (ws ++ [t]) := by
  intro n
  subst kind
  have plain : ¬ t.kind.opensCompound = true := by
    revert closes
    cases t.kind <;> decide
  rw [level_append, first, level_cons, Token.levelBehind, if_neg plain, if_pos closes]
  rfl

/-- A token that neither opens nor closes a compound statement. -/
theorem skip {k : Kind} (others : Raises d ws) (kind : t.kind = k) (flat : k.isLevel = true) :
    Raises d (t :: ws) := by
  intro n
  rw [level_cons, Token.levelBehind_of_isLevel (kind ▸ flat), others]

theorem of_isLevel (flat : ∀ t ∈ ws, t.kind.isLevel = true) : Raises 0 ws := by
  induction ws with
  | nil => exact nil
  | cons t ws ih =>
    obtain ⟨first, others⟩ := List.forall_mem_cons.1 flat
    exact (ih others).skip rfl first

end Raises

/-! ## Simple statements -/

section Phrases

variable {next : Token} {ws : List Token}

theorem isLevel_of_isExpr {t : Token} {e : Expr} (h : IsExpr t e) : t.kind.isLevel = true := by
  cases h <;> next kind => rw [kind]; rfl

theorem raises_of_isExpr {t : Token} {e : Expr} (h : IsExpr t e) {d : Nat} (others : Raises d ws) :
    Raises d (t :: ws) :=
  others.skip rfl (isLevel_of_isExpr h)

theorem raises_of_forall₂ {es : List Expr} (h : List.Forall₂ IsExpr ws es) : Raises 0 ws := by
  induction h with
  | nil => exact .nil
  | cons first _ ih => exact raises_of_isExpr first ih

theorem raises_of_isRedirection {r : Redirection} (h : IsRedirection next ws r) : Raises 0 ws := by
  cases h with
  | @mk _ operator t e kind target =>
    have flat : operator.kind.isLevel = true := by
      revert kind
      cases operator.kind <;> decide
    exact (raises_of_isExpr target .nil).skip rfl flat

theorem raises_of_isParts {parts : List Part} (h : IsParts next ws parts) : Raises 0 ws := by
  induction h with
  | nil => exact .nil
  | argument first _ ih => exact raises_of_isExpr first ih
  | redirection first _ ih => exact (raises_of_isRedirection first).behind ih

theorem raises_of_isCommand {c : Command} (h : IsCommand next ws c) : Raises 0 ws := by
  cases h with
  | mk kind inside => exact (raises_of_isParts inside).skip kind rfl

theorem raises_of_isPiped {cs : List Command} (h : IsPiped next ws cs) : Raises 0 ws := by
  induction h with
  | nil => exact .nil
  | cons kind first _ ih => exact ((raises_of_isCommand first).behind ih).skip kind rfl

/-- A statement that holds no other opens none. -/
theorem raises_of_isSimple {s : Statement} (h : IsSimple next ws s) : Raises 0 ws := by
  rcases h with h | ⟨h, -⟩
  · cases h with
    | mk kind sign value =>
      exact ((raises_of_isExpr value .nil).skip (kind_of_isWord sign).1 rfl).skip kind rfl
  · cases h with
    | command only => exact raises_of_isCommand only
    | pipeline first others => exact (raises_of_isCommand first).behind (raises_of_isPiped others)

theorem raises_of_isHeader {e : Expr} {es : List Expr} (h : IsHeader ws e es) : Raises 0 ws := by
  obtain ⟨first, others, separators⟩ := h
  refine (raises_of_isExpr first (raises_of_forall₂ others)).behind (.of_isLevel fun t member => ?_)
  have separator := separators t member
  revert separator
  cases t.kind <;> decide

theorem raises_of_isFinish {i : Item} (h : IsFinish i next ws ()) : Raises 0 ws := by
  have separator (h : IsSeparator next ws ()) : Raises 0 ws := by
    cases h with
    | taken kind =>
      rcases kind with kind | kind
      · exact (Raises.nil).skip kind rfl
      · exact (Raises.nil).skip kind rfl
    | none => exact .nil
  cases i with
  | lineFeed =>
    obtain ⟨rfl, -⟩ := h
    exact .nil
  | comment => exact separator h
  | statement => exact separator h
  | skipped => exact separator h

end Phrases

/-! ## Compound statements -/

/-- Phrases that close what they open. -/
def ClosedPhrases (S : Phrase Statement) : Prop := ∀ next ws s, S next ws s → Raises 0 ws

section Compound

variable {S : Phrase Statement} (inner : ClosedPhrases S) {next : Token} {ws : List Token}

include inner

theorem raises_of_isBlock {ss : List Statement} (h : IsBlock S next ws ss) : Raises 0 ws := by
  induction h with
  | nil => exact .nil
  | newline kind _ ih => exact ih.skip kind rfl
  | comment kind _ ih => exact ih.skip kind rfl
  | statement first _ ih => exact (inner _ _ _ first).behind ih
  | separated first kind _ ih =>
    rcases kind with kind | kind
    · exact (inner _ _ _ first).behind (ih.skip kind rfl)
    · exact (inner _ _ _ first).behind (ih.skip kind rfl)

theorem raises_of_isConditional {s : Statement} (h : IsConditional S next ws s) : Raises 0 ws := by
  cases h with
  | noElse if_kind header then_kind then_body fi_kind =>
    have headed := (raises_of_isHeader header).behind
      ((raises_of_isBlock inner then_body).skip then_kind rfl)
    exact (headed.opener if_kind rfl).closer fi_kind rfl
  | withElse if_kind header then_kind then_body else_kind else_body fi_kind =>
    have headed := (raises_of_isHeader header).behind
      (((raises_of_isBlock inner then_body).skip then_kind rfl).behind
        ((raises_of_isBlock inner else_body).skip else_kind rfl))
    have whole := (headed.opener if_kind rfl).closer fi_kind rfl
    simpa using whole

theorem raises_of_isLoop {s : Statement} (h : IsLoop S next ws s) : Raises 0 ws := by
  cases h with
  | forIn for_kind name_kind in_word header do_kind inside done_kind =>
    have headed := (raises_of_isHeader header).behind
      ((raises_of_isBlock inner inside).skip do_kind rfl)
    have named := (headed.skip (kind_of_isWord in_word).1 rfl).skip name_kind rfl
    exact (named.opener for_kind rfl).closer done_kind rfl
  | whileDo while_kind header do_kind inside done_kind =>
    have headed := (raises_of_isHeader header).behind
      ((raises_of_isBlock inner inside).skip do_kind rfl)
    exact (headed.opener while_kind rfl).closer done_kind rfl

theorem raises_of_isFunction {s : Statement} (h : IsFunction S next ws s) : Raises 0 ws := by
  cases h with
  | mk function_kind name_kind lparen_kind rparen_kind lbrace_kind inside rbrace_kind =>
    have headed := ((((raises_of_isBlock inner inside).skip lbrace_kind rfl).skip
      rparen_kind rfl).skip lparen_kind rfl).skip name_kind rfl
    exact (headed.opener function_kind rfl).closer rbrace_kind rfl

/-- At the top level nothing is open between two rounds. -/
theorem level_of_isFront {b : List Statement × List Token} (h : IsFront S next ws b) :
    level 0 ws = 0 := by
  induction h with
  | stop => rfl
  | @round _ us vs ws _ _ first finish _ ih =>
    have start : level 0 us = 0 := by
      cases first with
      | lineFeed kind => exact (Raises.nil.skip kind rfl) 0
      | comment kind => exact (Raises.nil.skip kind rfl) 0
      | statement h => exact (inner _ _ _ h) 0
      | @skipped _ t _ plain =>
        -- what is dropped may be a closer, but it opens nothing
        show t.levelBehind 0 = 0
        unfold Token.levelBehind
        revert plain
        cases t.kind <;> decide
    rw [level_append, start, level_append, raises_of_isFinish finish 0]
    exact ih

end Compound

/-- Statements of any depth close what they open. -/
theorem raises_within (depth : Nat) : ClosedPhrases (Within depth) := by
  induction depth with
  | zero =>
    rintro next ws s ⟨h, shallow⟩
    obtain ⟨t, ts, rfl, cases⟩ := isStatement_iff.1 h
    have deep (compound : t.kind ≠ .word) : Raises 0 (t :: ts) :=
      absurd (nesting_pos h compound) (Nat.not_lt.2 shallow)
    rcases cases with ⟨-, h⟩ | ⟨kind, -⟩ | ⟨kind | kind, -⟩ | ⟨kind, -⟩
    · exact raises_of_isSimple h
    all_goals exact deep (by simp [kind])
  | succ depth ih =>
    rintro next ws s ⟨h, shallow⟩
    obtain ⟨t, ts, rfl, ⟨-, h⟩ | ⟨-, h⟩ | ⟨-, h⟩ | ⟨-, h⟩⟩ := isStatement_iff.1 h
    · exact raises_of_isSimple h
    · exact raises_of_isConditional ih (isConditional_within.2 ⟨h, shallow⟩)
    · exact raises_of_isLoop ih (isLoop_within.2 ⟨h, shallow⟩)
    · exact raises_of_isFunction ih (isFunction_within.2 ⟨h, shallow⟩)

/-! ## Statements that are refused for their depth -/

section Deep

variable {t : Token} {ws : List Token}

theorem BrokenSimple.shallow : ¬ BrokenSimple t ws .tooDeep := by
  intro h
  cases h with
  | pipeline _ broken => exact BrokenPipeline.shallow broken

theorem BrokenHeader.shallow {k : Kind} {message : String} :
    ¬ BrokenHeader k message t ws .tooDeep := by
  intro h
  cases h

variable {S : Phrase Statement} {E : Phrase Failure} {d : Nat} (inner : ClosedPhrases S)
  (deep : ∀ t ws, E t ws .tooDeep → Raises d (ws ++ [t]))

include inner deep

/-- A block is refused for its depth in one of its statements. -/
theorem raises_of_brokenBody {b : Block} (h : BrokenBody S E b t ws .tooDeep) :
    Raises d (ws ++ [t]) := by
  cases h with
  | inside broken =>
    obtain ⟨us, vs, items, rfl, rounds, item⟩ := broken
    obtain ⟨ss, block⟩ := isBlock_of_rounds rounds
    cases item with
    | statement _ broken =>
      rw [List.append_assoc]
      exact (raises_of_isBlock inner block).behind (deep _ _ broken)

theorem raises_of_brokenConditional (h : BrokenConditional S E t ws .tooDeep) :
    Raises (d + 1) (ws ++ [t]) := by
  cases h with
  | header _ broken => exact absurd broken BrokenHeader.shallow
  | thenPart if_kind header then_kind broken =>
    have headed := (raises_of_isHeader header).behind
      ((raises_of_brokenBody inner deep broken).skip then_kind rfl)
    simpa using headed.opener if_kind rfl
  | elsePart if_kind header then_kind then_body else_kind broken =>
    have headed := (raises_of_isHeader header).behind
      (((raises_of_isBlock inner then_body).skip then_kind rfl).behind
        ((raises_of_brokenBody inner deep broken).skip else_kind rfl))
    simpa using headed.opener if_kind rfl

theorem raises_of_brokenLoop (h : BrokenLoop S E t ws .tooDeep) : Raises (d + 1) (ws ++ [t]) := by
  cases h with
  | forHeader _ _ _ broken => exact absurd broken BrokenHeader.shallow
  | whileHeader _ broken => exact absurd broken BrokenHeader.shallow
  | forBody for_kind name_kind in_word header do_kind broken =>
    have headed := (raises_of_isHeader header).behind
      ((raises_of_brokenBody inner deep broken).skip do_kind rfl)
    have named := (headed.skip (kind_of_isWord in_word).1 rfl).skip name_kind rfl
    simpa using named.opener for_kind rfl
  | whileBody while_kind header do_kind broken =>
    have headed := (raises_of_isHeader header).behind
      ((raises_of_brokenBody inner deep broken).skip do_kind rfl)
    simpa using headed.opener while_kind rfl

theorem raises_of_brokenFunction (h : BrokenFunction S E t ws .tooDeep) :
    Raises (d + 1) (ws ++ [t]) := by
  cases h with
  | body function_kind name_kind lparen_kind rparen_kind lbrace_kind broken =>
    have headed := ((((raises_of_brokenBody inner deep broken).skip lbrace_kind rfl).skip
      rparen_kind rfl).skip lparen_kind rfl).skip name_kind rfl
    exact headed.opener function_kind rfl

end Deep

/-- **A statement is refused for its depth where one more is open than may be.** -/
theorem raises_of_broken {depth : Nat} {t : Token} {ws : List Token}
    (h : Broken depth t ws .tooDeep) : Raises (depth + 1) (ws ++ [t]) := by
  induction depth generalizing t ws with
  | zero =>
    rcases h with h | ⟨rfl, opener, -⟩
    · exact absurd h BrokenSimple.shallow
    · refine (Raises.nil).opener rfl ?_
      revert opener
      cases t.kind <;> simp [compound?, Kind.opensCompound]
  | succ depth ih =>
    have inner := raises_within depth
    have deep (u : Token) (vs : List Token) (broken : Broken depth u vs .tooDeep) :
        Raises (depth + 1) (vs ++ [u]) := ih broken
    rcases h with h | h | h | h
    · exact absurd h BrokenSimple.shallow
    · exact raises_of_brokenConditional inner deep h
    · exact raises_of_brokenLoop inner deep h
    · exact raises_of_brokenFunction inner deep h

/-- Where statements may nest as deep as there are tokens, none is refused for its depth. -/
theorem statementWithin_ne_tooDeep {depth : Nat} {ts : List Token} (complete : Complete ts)
    (enough : ts.length ≤ depth) (rest : List Token) :
    statementWithin depth ts ≠ .error .tooDeep rest := by
  intro deep
  obtain ⟨ws, t, others, rfl, -, broken⟩ :=
    (fails_statementWithin depth ts complete .tooDeep rest).1 deep
  have reached := raises_of_broken broken 0
  have small := level_le 0 (ws ++ [t])
  simp only [List.length_append, List.length_cons, List.length_nil] at enough small
  omega

theorem refuse_ne_tooDeep {α : Type} (b : Block) (t : Token) (ts rest : List Token) :
    (refuse b t : Parse α) ts ≠ .error .tooDeep rest := by
  unfold refuse
  split
  · cases closerMessage? b.closer <;> exact nofun
  · exact nofun

/-- A round of a block is refused for its depth in its statement only. -/
theorem blockItem?_ne_tooDeep {inner : Inner} {S : Phrase Statement}
    (reads : Reads inner (Attempt S)) (b : Block) {ts : List Token} (complete : Complete ts)
    (shallow : ∀ rest, inner ts ≠ .error .tooDeep rest) (rest : List Token) :
    blockItem? inner b ts ≠ .error .tooDeep rest := by
  rcases ts with _ | ⟨t, ts⟩
  · exact complete.elim
  intro deep
  by_cases ends : b.Ends t
  · rw [blockItem?_of_ends ends] at deep
    cases deep
  rw [blockItem?_inside ends] at deep
  by_cases newline : t.kind = .newline
  · rw [bind_of_ok (accept_of_kind Kind.noConfusion newline ts)] at deep
    cases deep
  rw [bind_of_ok (accept_of_ne Kind.noConfusion newline ts)] at deep
  rcases bind_error deep with deep | ⟨o, mid, tried, deep⟩
  · exact shallow rest deep
  cases o with
  | some s =>
    have whole : Complete mid := by
      obtain ⟨ws, u, others, split, rfl, -⟩ := ((reads _ complete).ok _ _).1 tried
      rw [split] at complete
      exact complete.of_append (List.cons_ne_nil u others)
    rcases bind_error deep with failed | ⟨_, _, -, given⟩
    · obtain ⟨_, _, _, -, -, never⟩ := (fails_separator mid whole _ _).1 failed
      exact never
    · cases given
  | none =>
    by_cases comment : t.kind = .comment
    · simp only [if_pos comment] at deep
      cases deep
    · simp only [if_neg comment] at deep
      exact refuse_ne_tooDeep b t mid rest deep

/-- Nor does a block go deeper than its statements. -/
theorem block_ne_tooDeep {depth : Nat} (b : Block) {ts : List Token} (complete : Complete ts)
    (enough : ts.length ≤ depth) (rest : List Token) :
    block (statementWithin depth) b ts ≠ .error .tooDeep rest := by
  have reads := reads_statementWithin depth
  have opens := opens_within depth
  induction size : ts.length using Nat.strongRecOn generalizing ts rest with
  | ind size' ih =>
    subst size
    intro deep
    rw [block_eq reads opens complete] at deep
    rcases bind_error deep with deep | ⟨o, mid, round, deep⟩
    · exact blockItem?_ne_tooDeep reads b complete (statementWithin_ne_tooDeep complete enough)
        rest deep
    cases o with
    | none => cases deep
    | some i =>
      obtain ⟨whole, shorter⟩ := shrinks_blockItem? reads opens ts i mid complete round
      rcases bind_error deep with deep | ⟨_, _, -, given⟩
      · exact ih _ shorter whole (by omega) rest rfl deep
      · cases given

end ShellScript
