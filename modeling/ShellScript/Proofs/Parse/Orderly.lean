/-
# ShellScript.Proofs.Parse.Orderly -- every parser goes forward, and stops at what it blames

A piece may be asked for where the grammar would not put it, and in front of any complete
tokens.  Still the tokens that are left are the end of those that were given, and where a
parser fails, the first of them is the token of the failure; only statements are ever nested
too deeply, and then so many of them are open in front of that token (`Blamed`).

For the pieces that hold no statements this is read off what they read and how they fail
(`Orderly.of_fails`), and so it is for statements and blocks.  Compound statements are put
together from these (`Orderly.bind`), because without their opening token in front there is
no phrase that they would read.
-/
import ShellScript.Proofs.Parse.Breakdown
import ShellScript.Proofs.Parse.Front

namespace ShellScript.Parse

set_option autoImplicit false

open Grammar

variable {α β : Type}

/-- A failure behind `ws` that is blamed on the token `t` there: an error found at that token,
or a statement that opens there within as many others as may be open. -/
def Blamed : Phrase Failure := fun t ws e =>
  Refuses e t ∧ (e = .tooDeep → ∃ us vs, ws = us ++ vs ∧ Broken nestingLimit t vs .tooDeep)

theorem Blamed.behind {t : Token} {us ws : List Token} {e : Failure} (blamed : Blamed t ws e) :
    Blamed t (us ++ ws) e := by
  refine ⟨blamed.1, fun deep => ?_⟩
  obtain ⟨vs, vs', rfl, broken⟩ := blamed.2 deep
  exact ⟨us ++ vs, vs', (List.append_assoc us vs vs').symm, broken⟩

/-- In front of `ts`, `p` leaves the end of these tokens, with a token that is blamed first if
it fails. -/
structure OrderlyAt (p : Parse α) (ts : List Token) : Prop where
  ok : ∀ a rest, p ts = .ok a rest → ∃ ws t others, ts = ws ++ t :: others ∧ rest = t :: others
  error : ∀ e rest, p ts = .error e rest →
    ∃ ws t others, ts = ws ++ t :: others ∧ rest = t :: others ∧ Blamed t ws e

/-- A parser that goes forward in front of every complete list. -/
def Orderly (p : Parse α) : Prop := ∀ ts, Complete ts → OrderlyAt p ts

namespace Orderly

/-- What is known of a parser's phrases and failures is enough. -/
theorem of_fails {p : Parse α} {G : Phrase α} {E : Phrase Failure} (reads : Reads p G)
    (fails : Fails p E)
    (deep : ∀ t ws, E t ws .tooDeep → ∃ us vs, ws = us ++ vs ∧ Broken nestingLimit t vs .tooDeep) :
    Orderly p := by
  intro ts complete
  refine ⟨fun a rest h => ?_, fun e rest h => ?_⟩
  · obtain ⟨ws, t, others, split, left, -⟩ := ((reads ts complete).ok a rest).1 h
    exact ⟨ws, t, others, split, left⟩
  · obtain ⟨ws, t, others, rfl, rfl, refuses⟩ := (reads ts complete).error e rest h
    obtain ⟨vs, u, others', split, left, failure⟩ := (fails _ complete e _).1 h
    obtain ⟨rfl, rfl⟩ := List.cons.inj left
    obtain rfl := List.append_cancel_right split
    refine ⟨ws, t, others, rfl, rfl, refuses, ?_⟩
    rintro rfl
    exact deep t ws failure

/-- A parser that never fails. -/
theorem of_never {p : Parse α} {G : Phrase α} (reads : Reads p G) (fails : Fails p Phrase.never) :
    Orderly p :=
  of_fails reads fails fun _ _ => False.elim

/-- A parser that only looks. -/
theorem of_look {p : Parse α} (looks : ∀ t ts, ∃ a, p (t :: ts) = .ok a (t :: ts)) : Orderly p
  | [], complete => complete.elim
  | t :: ts, _ => by
    obtain ⟨a, result⟩ := looks t ts
    refine ⟨fun b rest h => ?_, fun e rest h => ?_⟩
    · cases result.symm.trans h
      exact ⟨[], t, ts, rfl, rfl⟩
    · cases result.symm.trans h

theorem pure (a : α) : Orderly (Pure.pure a) := of_look fun _ _ => ⟨a, rfl⟩

theorem bind {p : Parse α} {f : α → Parse β} (first : Orderly p) (second : ∀ a, Orderly (f a)) :
    Orderly (p >>= f) := by
  intro ts complete
  refine ⟨fun b rest h => ?_, fun e rest h => ?_⟩
  · obtain ⟨a, mid, hp, hf⟩ := bind_ok.1 h
    obtain ⟨us, u, others, rfl, rfl⟩ := (first ts complete).ok a mid hp
    obtain ⟨vs, t, others', split, left⟩ :=
      (second a _ (complete.of_append (List.cons_ne_nil u others))).ok b rest hf
    exact ⟨us ++ vs, t, others', by rw [split, List.append_assoc], left⟩
  · rcases bind_error h with hp | ⟨a, mid, hp, hf⟩
    · exact (first ts complete).error e rest hp
    · obtain ⟨us, u, others, rfl, rfl⟩ := (first ts complete).ok a mid hp
      obtain ⟨vs, t, others', split, left, blamed⟩ :=
        (second a _ (complete.of_append (List.cons_ne_nil u others))).error e rest hf
      exact ⟨us ++ vs, t, others', by rw [split, List.append_assoc], left, blamed.behind⟩

theorem ite {c : Prop} [Decidable c] {p q : Parse α} (yes : Orderly p) (no : Orderly q) :
    Orderly (if c then p else q) := by
  by_cases h : c
  · rw [if_pos h]
    exact yes
  · rw [if_neg h]
    exact no

end Orderly

/-! ## Tokens -/

theorem orderly_peek : Orderly peek := .of_look fun t _ => ⟨t, rfl⟩

theorem orderly_atEnd : Orderly atEnd := .of_look fun t _ => ⟨decide (t.kind = .eof), rfl⟩

theorem orderly_check (k : Kind) : Orderly (check k) :=
  .of_look fun t _ => ⟨decide (t.kind = k), rfl⟩

theorem orderly_isAssignment : Orderly isAssignment :=
  .of_look fun t ts => ⟨_, isAssignment_cons t ts⟩

theorem orderly_spanFrom (start : Option Span) : Orderly (spanFrom start) :=
  .of_look fun t _ => ⟨Span.reach? start t.position, rfl⟩

theorem orderly_advance : Orderly advance := .of_never reads_advance fails_advance

theorem orderly_accept (k : Kind) : Orderly (accept k) :=
  (orderly_check k).bind fun _ => .ite (orderly_advance.bind fun _ => .pure true) (.pure false)

/-- An error found at the next token. -/
theorem orderly_expect (k : Kind) (message : String) : Orderly (expect k message)
  | [], complete => complete.elim
  | t :: ts, complete => by
    have result := expect_cons k message t ts
    by_cases kind : t.kind = k
    · rw [if_pos kind] at result
      refine ⟨fun a rest h => ?_, fun e rest h => ?_⟩
      · exact (orderly_advance _ complete).ok a rest (result ▸ h)
      · exact (orderly_advance _ complete).error e rest (result ▸ h)
    · rw [if_neg kind] at result
      refine ⟨fun a rest h => ?_, fun e rest h => ?_⟩
      · cases result.symm.trans h
      · cases result.symm.trans h
        exact ⟨[], t, ts, rfl, rfl, .malformed fun _ _ => SyntaxError.noConfusion,
          Failure.noConfusion⟩

theorem orderly_expectWord (text : String) : Orderly (expectWord text) := by
  refine .of_fails (reads_expectWord text) (fails_expectWord text) ?_
  rintro t ws ⟨-, -, deep⟩
  cases deep

theorem orderly_separator : Orderly separator := .of_never reads_separator fails_separator

/-! ## Pieces without statements -/

theorem orderly_expression : Orderly expression := by
  refine .of_fails reads_expression fails_expression ?_
  rintro t ws ⟨-, -, deep⟩
  cases deep

theorem orderly_trailingWords : Orderly trailingWords :=
  .of_never reads_trailingWords fails_trailingWords

theorem orderly_headerSeparators : Orderly headerSeparators :=
  .of_never reads_headerSeparators fails_headerSeparators

theorem orderly_redirection : Orderly redirection := by
  refine .of_fails reads_redirection fails_redirection ?_
  rintro t ws ⟨-, -, deep⟩
  cases deep

theorem orderly_assignment : Orderly assignment := by
  refine .of_fails reads_assignment fails_assignment ?_
  rintro t ws ⟨us, vs, name, -, -, ⟨-, -, deep⟩ | ⟨equals, -, -, -, deep⟩⟩ <;> cases deep

theorem BrokenCommand.shallow {t : Token} {ws : List Token} : ¬ BrokenCommand t ws .tooDeep := by
  intro h
  cases h

theorem BrokenPiped.shallow {t : Token} {ws : List Token} {e : Failure} (h : BrokenPiped t ws e) :
    e ≠ .tooDeep := by
  induction h with
  | here _ broken =>
    rintro rfl
    exact BrokenCommand.shallow broken
  | later _ _ _ ih => exact ih

theorem BrokenPipeline.shallow {t : Token} {ws : List Token} :
    ¬ BrokenPipeline t ws .tooDeep := by
  intro h
  cases h with
  | first broken => exact BrokenCommand.shallow broken
  | piped _ others => exact BrokenPiped.shallow others rfl

theorem orderly_command : Orderly command :=
  .of_fails reads_command fails_command fun _ _ h => (BrokenCommand.shallow h).elim

theorem orderly_pipeline : Orderly pipeline :=
  .of_fails reads_pipeline fails_pipeline fun _ _ h => (BrokenPipeline.shallow h).elim

/-! ## Statements and what is made of them -/

theorem orderly_statement : Orderly statement :=
  .of_fails reads_statement fails_statement fun _ ws broken => ⟨[], ws, rfl, broken⟩

/-- A block may end at any tokens, if there is a message for its missing closer. -/
theorem orderly_block {b : Block} (known : (closerMessage? b.closer).isSome = true) :
    Orderly (block statement b) := by
  have opens := opens_within nestingLimit
  have rounds := (reads_blockItem? reads_statement opens known).many fun _ _ _ =>
    BlockItem.ne_nil opens
  refine .of_fails (rounds.bind fun items => .pure (items.filterMap id))
    (fails_block reads_statement opens fails_statement (opensBroken_broken nestingLimit) known) ?_
  rintro t ws ⟨us, vs, -, rfl, -, item⟩
  cases item with
  | statement _ broken => exact ⟨us, vs, rfl, broken⟩

theorem orderly_elsePart? : Orderly (elsePart? statement) :=
  (orderly_accept .kwElse).bind fun _ =>
    .ite ((orderly_block rfl).bind fun ss => .pure (some ss)) (.pure none)

theorem orderly_conditional : Orderly (conditional statement) :=
  (orderly_expect _ _).bind fun opener => (orderly_expression).bind fun _ =>
    (orderly_trailingWords).bind fun _ => (orderly_headerSeparators).bind fun _ =>
      (orderly_expect _ _).bind fun _ => (orderly_block rfl).bind fun _ =>
        (orderly_elsePart?).bind fun _ => (orderly_expect _ _).bind fun _ =>
          (orderly_spanFrom opener.position).bind fun _ => .pure _

theorem orderly_loopBody : Orderly (loopBody statement) :=
  (orderly_headerSeparators).bind fun _ => (orderly_expect _ _).bind fun _ =>
    (orderly_block rfl).bind fun _ => (orderly_expect _ _).bind fun _ => .pure _

theorem orderly_forLoop (opener : Token) : Orderly (forLoop statement opener) :=
  (orderly_expect _ _).bind fun _ => (orderly_expectWord _).bind fun _ =>
    (orderly_expression).bind fun _ => (orderly_trailingWords).bind fun _ =>
      (orderly_loopBody).bind fun _ => (orderly_spanFrom opener.position).bind fun _ => .pure _

theorem orderly_whileLoop (opener : Token) : Orderly (whileLoop statement opener) :=
  (orderly_expression).bind fun _ => (orderly_trailingWords).bind fun _ =>
    (orderly_loopBody).bind fun _ => (orderly_spanFrom opener.position).bind fun _ => .pure _

theorem orderly_loop : Orderly (loop statement) :=
  (orderly_advance).bind fun opener => .ite (orderly_forLoop opener) (orderly_whileLoop opener)

theorem orderly_function : Orderly (function statement) :=
  (orderly_expect _ _).bind fun opener => (orderly_expect _ _).bind fun _ =>
    (orderly_expect _ _).bind fun _ => (orderly_expect _ _).bind fun _ =>
      (orderly_expect _ _).bind fun _ => (orderly_block rfl).bind fun _ =>
        (orderly_expect _ _).bind fun _ => (orderly_spanFrom opener.position).bind fun _ => .pure _

/-! ## The top level -/

/-- The top level stops at the end mark, or at the token its failure is blamed on. -/
theorem orderly_read {ts : List Token} (complete : Complete ts) :
    ∃ ws t others, ts = ws ++ t :: others ∧ (Body.read ts).rest = t :: others ∧
      ∀ e, (Body.read ts).failure = some e → Blamed t ws e := by
  obtain ⟨front, next, behind, b, rfl, -, ⟨rfl, -, done⟩ | ⟨e, rest, refused, done⟩⟩ :=
    Body.exists_front ts complete
  · rw [done]
    exact ⟨front, next, [], rfl, rfl, by rintro _ ⟨⟩⟩
  · have whole := complete.of_append (List.cons_ne_nil next behind)
    obtain ⟨ws, t, others, split, rfl, blamed⟩ := (orderly_statement _ whole).error e rest refused
    rw [done]
    refine ⟨front ++ ws, t, others, by rw [split, List.append_assoc], rfl, ?_⟩
    rintro _ ⟨⟩
    exact blamed.behind

end ShellScript.Parse
