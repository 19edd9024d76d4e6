/-
# ShellScript.Proofs.Parse.Expected -- the wording of a refusal names the kind that is missing

A refusal for a missing token has a message and the kind that is missing, and what it suggests
depends on the kind alone.  Wherever a statement breaks, the two belong together
(`worded_of_broken`), so the kind can be read off the message (`missing_of_message`).
-/
import ShellScript.Proofs.Breakdown

namespace ShellScript

set_option autoImplicit false

open Parse

namespace Grammar

/-- The kinds that a statement may lack, each with the message for it. -/
def expectations : List (Kind × String) :=
  [(.word, "Expected command name"), (.word, "Expected redirection target"),
    (.word, "Expected loop variable"), (.word, "Expected function name"),
    (.lparen, "Expected '('"), (.rparen, "Expected ')'"), (.lbrace, "Expected '\x7b'"),
    (.kwThen, "Expected 'then'"), (.kwDo, "Expected 'do'"), (.kwFi, "Expected 'fi'"),
    (.kwDone, "Expected 'done'"), (.rbrace, "Expected '\x7d'")]

/-- A failure that words what is missing as it is worded for its kind. -/
def Worded : Failure → Prop
  | .malformed (.missingKind k message _) => (k, message) ∈ expectations
  | .malformed (.missingText text _) => text = "in"
  | _ => True

variable {t : Token} {ws : List Token} {e : Failure}

theorem worded_of_brokenCommand (broken : BrokenCommand t ws e) : Worded e := by
  cases broken <;> simp [Worded, expectations]

theorem worded_of_brokenPiped (broken : BrokenPiped t ws e) : Worded e := by
  induction broken with
  | here _ broken => exact worded_of_brokenCommand broken
  | later _ _ _ ih => exact ih

theorem worded_of_brokenPipeline (broken : BrokenPipeline t ws e) : Worded e := by
  cases broken with
  | first broken => exact worded_of_brokenCommand broken
  | piped _ others => exact worded_of_brokenPiped others

theorem worded_of_brokenSimple (broken : BrokenSimple t ws e) : Worded e := by
  cases broken with
  | assignment => trivial
  | pipeline _ broken => exact worded_of_brokenPipeline broken

theorem worded_of_brokenHeader {k : Kind} {message : String} (known : (k, message) ∈ expectations)
    (broken : BrokenHeader k message t ws e) : Worded e := by
  cases broken with
  | condition => trivial
  | opener => exact known

theorem mem_expectations_of_closer {k : Kind} {message : String}
    (known : closerMessage? k = some message) : (k, message) ∈ expectations := by
  unfold closerMessage? at known
  split at known
  · obtain rfl := Option.some.inj known
    simp [expectations]
  · obtain rfl := Option.some.inj known
    simp [expectations]
  · obtain rfl := Option.some.inj known
    simp [expectations]
  · cases known

section Compound

variable {S : Phrase Statement} {E : Phrase Failure}

theorem worded_of_brokenBody {b : Block} (inside : ∀ {t ws e}, E t ws e → Worded e)
    (broken : BrokenBody S E b t ws e) : Worded e := by
  cases broken with
  | closer _ _ known => exact mem_expectations_of_closer known
  | inside broken =>
    obtain ⟨_, _, _, -, -, item⟩ := broken
    cases item with
    | closer _ _ known => exact mem_expectations_of_closer known
    | unexpected => trivial
    | statement _ broken => exact inside broken

theorem worded_of_brokenConditional (inside : ∀ {t ws e}, E t ws e → Worded e)
    (broken : BrokenConditional S E t ws e) : Worded e := by
  cases broken with
  | header _ broken => exact worded_of_brokenHeader (by simp [expectations]) broken
  | thenPart _ _ _ broken => exact worded_of_brokenBody inside broken
  | elsePart _ _ _ _ _ broken => exact worded_of_brokenBody inside broken

theorem worded_of_brokenLoop (inside : ∀ {t ws e}, E t ws e → Worded e)
    (broken : BrokenLoop S E t ws e) : Worded e := by
  cases broken with
  | name => simp [Worded, expectations]
  | inWord => rfl
  | forHeader _ _ _ broken => exact worded_of_brokenHeader (by simp [expectations]) broken
  | forBody _ _ _ _ _ broken => exact worded_of_brokenBody inside broken
  | whileHeader _ broken => exact worded_of_brokenHeader (by simp [expectations]) broken
  | whileBody _ _ _ broken => exact worded_of_brokenBody inside broken

theorem worded_of_brokenFunction (inside : ∀ {t ws e}, E t ws e → Worded e)
    (broken : BrokenFunction S E t ws e) : Worded e := by
  cases broken with
  | body _ _ _ _ _ broken => exact worded_of_brokenBody inside broken
  | _ => simp [Worded, expectations]

end Compound

/-- Wherever a statement breaks, what is missing is worded as for its kind. -/
theorem worded_of_broken {depth : Nat} (broken : Broken depth t ws e) : Worded e := by
  induction depth generalizing t ws e with
  | zero =>
    rcases broken with broken | ⟨-, -, rfl⟩
    · exact worded_of_brokenSimple broken
    · trivial
  | succ depth ih =>
    rcases broken with broken | broken | broken | broken
    · exact worded_of_brokenSimple broken
    · exact worded_of_brokenConditional ih broken
    · exact worded_of_brokenLoop ih broken
    · exact worded_of_brokenFunction ih broken

/-- A message for something missing is only used where a token of its kind is. -/
theorem missing_of_message {e : SyntaxError} (worded : Worded (.malformed e)) {k : Kind}
    {message : String} (known : (k, message) ∈ expectations) (same : e.message = message) :
    e = .missingKind k message e.found := by
  have one_kind : ∀ p ∈ expectations, ∀ q ∈ expectations, p.2 = q.2 → p.1 = q.1 := by decide
  have no_other : ∀ p ∈ expectations, p.2 ≠ "Expected '" ++ "in" ++ "'" ∧
      p.2 ≠ "Expected expression" ∧ p.2.toList.head? = some 'E' := by decide
  obtain ⟨no_text, no_expression, initial⟩ := no_other _ known
  cases e with
  | missingKind k' message' t =>
    obtain rfl : message' = message := same
    obtain rfl : k' = k := one_kind _ worded _ known rfl
    rfl
  | missingText text t =>
    have is_in : text = "in" := worded
    have wording : "Expected '" ++ text ++ "'" = message := same
    exact absurd (is_in ▸ wording).symm no_text
  | unexpected t context =>
    have wording : "Unexpected token " ++ Text.quoted t.lexeme ++ " in " ++ context = message :=
      same
    rw [← wording] at initial
    simp at initial
  | noExpression t => exact absurd same.symm no_expression

end Grammar

end ShellScript
