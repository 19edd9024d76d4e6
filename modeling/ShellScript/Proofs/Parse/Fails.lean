/-
# ShellScript.Proofs.Parse.Fails -- where and why a parser fails

A parser that fails has taken some tokens and come to another one; `Fails p E` says that it
fails exactly where the phrase `E` of failures stands in front of that token, with the failure
of the phrase.  So whether it fails, and how, does not depend on what comes behind the
token.

The statement goes through the same ways of putting parsers together as `Reads` does.  A
parser made of two fails where the first does, or behind a phrase of the first where the
second does (`Fails.bind`); a loop fails behind some of its rounds (`Fails.many`).
-/
import ShellScript.Proofs.Parse.Phrase

namespace ShellScript

set_option autoImplicit false

namespace Phrase

variable {α : Type}

/-- No failure at all. -/
def never : Phrase Failure := fun _ _ _ => False

/-- The failure `f` has for a token that stands in front, where `R` holds of it. -/
def refuse (R : Token → Prop) (f : Token → Failure) : Phrase Failure :=
  fun t ws e => ws = [] ∧ R t ∧ e = f t

/-- A phrase repeated any number of times, each time to give something. -/
inductive Rounds (G : Phrase (Option α)) : Phrase (List α)
  | stop {next : Token} : Rounds G next [] []
  | more {next : Token} {us vs : List Token} {a : α} {as : List α}
      (first : G (follow vs next) us (some a)) (others : Rounds G next vs as) :
      Rounds G next (us ++ vs) (a :: as)

/-- Rounds behind which nothing more is given are all there are. -/
theorem Rounds.many {G : Phrase (Option α)} {next : Token} {ws : List Token} {as : List α}
    (rounds : Rounds G next ws as) (last : G next [] none) : Many G next ws as := by
  induction rounds with
  | stop => exact .stop last
  | more first _ ih => exact .more first (ih last)

/-- A failure behind some rounds is there at once, or behind a round and some more. -/
theorem rounds_bind {G : Phrase (Option α)} {E : Phrase Failure} {t : Token} {ws : List Token}
    {e : Failure} :
    ((Rounds G).bind fun _ => E) t ws e ↔
      E t ws e ∨ (G.bind fun
        | none => never
        | some _ => (Rounds G).bind fun _ => E) t ws e := by
  constructor
  · rintro ⟨us, vs, as, rfl, rounds, fails⟩
    cases rounds with
    | stop => exact Or.inl fails
    | @more _ us us' a as first others =>
      rw [← follow_append] at first
      exact Or.inr ⟨us, us' ++ vs, some a, List.append_assoc us us' vs, first, us', vs, as, rfl,
        others, fails⟩
  · rintro (fails | ⟨us, _, o, rfl, first, h⟩)
    · exact ⟨[], ws, [], rfl, .stop, fails⟩
    · cases o with
      | none => exact h.elim
      | some a =>
        obtain ⟨us', vs, as, rfl, others, fails⟩ := h
        rw [follow_append] at first
        exact ⟨us ++ us', vs, a :: as, (List.append_assoc us us' vs).symm, .more first others,
          fails⟩

end Phrase

namespace Parse

variable {α β : Type}

/-- In front of `ts`, `p` fails exactly where a failure of `E` stands behind the tokens it
has taken; it stops at the token of the failure. -/
def FailsAt (p : Parse α) (E : Phrase Failure) (ts : List Token) : Prop :=
  ∀ e rest, p ts = .error e rest ↔
    ∃ ws t others, ts = ws ++ t :: others ∧ rest = t :: others ∧ E t ws e

/-- A parser fails as `E` says in front of every complete list. -/
def Fails (p : Parse α) (E : Phrase Failure) : Prop := ∀ ts, Complete ts → FailsAt p E ts

namespace FailsAt

variable {ts : List Token}

theorem of_eq {p q : Parse α} {E : Phrase Failure} (same : p ts = q ts) (fails : FailsAt q E ts) :
    FailsAt p E ts := by
  intro e rest
  rw [same]
  exact fails e rest

/-- Only failures at the front of the tokens matter. -/
theorem congr {p : Parse α} {E F : Phrase Failure} (fails : FailsAt p E ts)
    (same : ∀ t ws others e, ts = ws ++ t :: others → (E t ws e ↔ F t ws e)) :
    FailsAt p F ts := by
  intro e rest
  rw [fails e rest]
  constructor
  · rintro ⟨ws, t, others, split, left, h⟩
    exact ⟨ws, t, others, split, left, (same t ws others e split).1 h⟩
  · rintro ⟨ws, t, others, split, left, h⟩
    exact ⟨ws, t, others, split, left, (same t ws others e split).2 h⟩

theorem never {p : Parse α} {a : α} {rest : List Token} (succeeds : p ts = .ok a rest) :
    FailsAt p Phrase.never ts := by
  intro e left
  rw [succeeds]
  constructor
  · intro h
    cases h
  · rintro ⟨_, _, _, _, _, h⟩
    exact h.elim

/-- A parser that fails at the next token. -/
theorem fail {p : Parse α} {e : Failure} {t : Token} {ts : List Token}
    (fails : p (t :: ts) = .error e (t :: ts)) :
    FailsAt p (fun u ws f => ws = [] ∧ u = t ∧ f = e) (t :: ts) := by
  intro f rest
  rw [fails]
  constructor
  · intro h
    cases h
    exact ⟨[], t, ts, rfl, rfl, rfl, rfl, rfl⟩
  · rintro ⟨_, u, others, split, rfl, rfl, rfl, rfl⟩
    obtain ⟨-, rfl⟩ := List.cons.inj split
    rfl

theorem ite {c : Prop} [Decidable c] {p q : Parse α} {E F : Phrase Failure}
    (yes : c → FailsAt p E ts) (no : ¬ c → FailsAt q F ts) :
    FailsAt (if c then p else q) (fun t ws e => (c ∧ E t ws e) ∨ (¬ c ∧ F t ws e)) ts := by
  by_cases h : c
  · rw [if_pos h]
    exact (yes h).congr fun t ws _ e _ => by simp [h]
  · rw [if_neg h]
    exact (no h).congr fun t ws _ e _ => by simp [h]

theorem bind {p : Parse α} {f : α → Parse β} {G : Phrase α} {E : Phrase Failure}
    {F : α → Phrase Failure} (reads : ReadsAt p G ts) (first : FailsAt p E ts)
    (second : ∀ a mid, p ts = .ok a mid → FailsAt (f a) (F a) mid) :
    FailsAt (p >>= f) (fun t ws e => E t ws e ∨ G.bind F t ws e) ts := by
  intro e rest
  constructor
  · intro h
    rcases bind_error h with hp | ⟨a, mid, hp, hf⟩
    · obtain ⟨ws, t, others, split, left, fails⟩ := (first e rest).1 hp
      exact ⟨ws, t, others, split, left, Or.inl fails⟩
    · obtain ⟨us, u, others, split, rfl, phrase⟩ := (reads.ok a mid).1 hp
      obtain ⟨vs, t, others', split', rfl, fails⟩ := (second a _ hp e rest).1 hf
      rw [← follow_eq_of_split split'] at phrase
      exact ⟨us ++ vs, t, others', by rw [split, split', List.append_assoc], rfl,
        Or.inr ⟨us, vs, a, rfl, phrase, fails⟩⟩
  · rintro ⟨ws, t, others, split, rfl, fails | ⟨us, vs, a, rfl, phrase, fails⟩⟩
    · have hp := (first e _).2 ⟨ws, t, others, split, rfl, fails⟩
      exact bind_of_error hp f
    · obtain ⟨others', split'⟩ := append_cons_eq_follow vs t others
      have hp : p ts = .ok a (vs ++ t :: others) :=
        (reads.ok a _).2 ⟨us, _, others', by rw [split, List.append_assoc, split'], split', phrase⟩
      have hf := (second a _ hp e _).2 ⟨vs, t, others, rfl, rfl, fails⟩
      exact (bind_of_ok hp f).trans hf

theorem map {p : Parse α} {E : Phrase Failure} (fails : FailsAt p E ts) (f : α → β) :
    FailsAt (do return f (← p)) E ts := by
  intro e rest
  rw [← fails e rest]
  show EStateM.bind p _ ts = _ ↔ _
  unfold EStateM.bind
  cases p ts with
  | ok a mid =>
    constructor
    · intro h
      cases h
    · intro h
      cases h
  | error e mid =>
    constructor
    · intro h
      cases h
      rfl
    · intro h
      cases h
      rfl

end FailsAt

namespace Fails

theorem congr {p : Parse α} {E F : Phrase Failure} (fails : Fails p E)
    (same : ∀ t ws e, E t ws e ↔ F t ws e) : Fails p F :=
  fun ts complete => (fails ts complete).congr fun t ws _ e _ => same t ws e

/-- A parser that never fails. -/
theorem never {p : Parse α} (succeeds : ∀ ts, Complete ts → ∃ a rest, p ts = .ok a rest) :
    Fails p Phrase.never := by
  intro ts complete
  obtain ⟨a, rest, result⟩ := succeeds ts complete
  exact .never result

theorem pure (a : α) : Fails (Pure.pure a) Phrase.never := never fun ts _ => ⟨a, ts, rfl⟩

theorem bind {p : Parse α} {f : α → Parse β} {G : Phrase α} {E : Phrase Failure}
    {F : α → Phrase Failure} (reads : Reads p G) (first : Fails p E)
    (second : ∀ a, Fails (f a) (F a)) :
    Fails (p >>= f) fun t ws e => E t ws e ∨ G.bind F t ws e :=
  fun ts complete => .bind (reads ts complete) (first ts complete) fun a mid h =>
    second a mid ((reads ts complete).complete_rest complete h)

/-- Behind a parser that never fails. -/
theorem after {p : Parse α} {f : α → Parse β} {G : Phrase α} {F : α → Phrase Failure}
    (reads : Reads p G) (first : Fails p Phrase.never) (second : ∀ a, Fails (f a) (F a)) :
    Fails (p >>= f) (G.bind F) :=
  (bind reads first second).congr fun _ _ _ => by simp [Phrase.never]

/-- In front of a parser that never fails. -/
theorem andThen {p : Parse α} {f : α → Parse β} {G : Phrase α} {E : Phrase Failure}
    (reads : Reads p G) (first : Fails p E) (second : ∀ a, Fails (f a) Phrase.never) :
    Fails (p >>= f) E := by
  refine (bind reads first second).congr fun t ws e => ⟨?_, Or.inl⟩
  rintro (fails | ⟨_, _, _, _, _, h⟩)
  · exact fails
  · exact h.elim

theorem ite {c : Prop} [Decidable c] {p q : Parse α} {E F : Phrase Failure} (yes : c → Fails p E)
    (no : ¬ c → Fails q F) :
    Fails (if c then p else q) fun t ws e => (c ∧ E t ws e) ∨ (¬ c ∧ F t ws e) :=
  fun ts complete => .ite (fun h => yes h ts complete) fun h => no h ts complete

/-- A parser that goes on as the next token says. -/
theorem peek {f : Token → Parse α} {E : Token → Phrase Failure}
    (fails : ∀ t ts, Complete (t :: ts) → FailsAt (f t) (E t) (t :: ts)) :
    Fails (Parse.peek >>= f) fun t ws e => E (follow ws t) t ws e
  | [], complete => complete.elim
  | t :: ts, complete => by
    have same : (Parse.peek >>= f) (t :: ts) = f t (t :: ts) := rfl
    refine ((fails t ts complete).of_eq same).congr fun u ws others e split => ?_
    rw [follow_eq_of_split split]

/-- A parser that takes the next token or refuses it. -/
theorem refuse {p : Parse α} {R : Token → Prop} {f : Token → Failure}
    (hit : ∀ t ts, ¬ R t → ∃ a rest, p (t :: ts) = .ok a rest)
    (miss : ∀ t ts, R t → p (t :: ts) = .error (f t) (t :: ts)) : Fails p (Phrase.refuse R f)
  | [], complete => complete.elim
  | t :: ts, _ => by
    intro e rest
    by_cases refused : R t
    · rw [miss t ts refused]
      constructor
      · intro h
        cases h
        exact ⟨[], t, ts, rfl, rfl, rfl, refused, rfl⟩
      · rintro ⟨_, u, others, split, rfl, rfl, -, rfl⟩
        obtain ⟨rfl, rfl⟩ := List.cons.inj split
        rfl
    · obtain ⟨a, left, result⟩ := hit t ts refused
      rw [result]
      constructor
      · intro h
        cases h
      · rintro ⟨_, u, others, split, -, rfl, refused', -⟩
        obtain ⟨rfl, -⟩ := List.cons.inj split
        exact absurd refused' refused

theorem manyWithin {step : Parse (Option α)} {G : Phrase (Option α)} {E : Phrase Failure}
    (reads : Reads step G) (progress : ∀ next ws a, G next ws (some a) → ws ≠ [])
    (fails : Fails step E) (budget ts : List Token) (enough : ts.length ≤ budget.length)
    (complete : Complete ts) :
    FailsAt (Parse.manyWithin step budget) ((Phrase.Rounds G).bind fun _ => E) ts := by
  induction budget generalizing ts with
  | nil =>
    rw [List.eq_nil_of_length_eq_zero (Nat.le_zero.1 enough)] at complete
    exact complete.elim
  | cons b budget ih =>
    have here := reads ts complete
    refine FailsAt.congr (FailsAt.bind here (fails ts complete) fun o mid h => ?_)
      fun t ws _ e _ => Phrase.rounds_bind.symm
    obtain ⟨us, t, others, rfl, rfl, -⟩ := (here.ok o mid).1 h
    cases o with
    | none => exact .never rfl
    | some a =>
      have fewer := reads.length_lt progress complete h
      have shorter : (t :: others).length ≤ budget.length := by
        rw [List.length_cons] at enough
        omega
      have whole := complete.of_append (List.cons_ne_nil t others)
      have later := Reads.manyWithin reads progress budget (t :: others) shorter whole
      refine FailsAt.congr (FailsAt.bind later (ih (t :: others) shorter whole) fun as mid h =>
        .never rfl) fun t ws _ e _ => ⟨?_, Or.inl⟩
      rintro (h | ⟨_, _, _, _, _, h⟩)
      · exact h
      · exact h.elim

/-- A loop whose step takes a token whenever it gives something. -/
theorem many {step : Parse (Option α)} {G : Phrase (Option α)} {E : Phrase Failure}
    (reads : Reads step G) (progress : ∀ next ws a, G next ws (some a) → ws ≠ [])
    (fails : Fails step E) : Fails (Parse.many step) ((Phrase.Rounds G).bind fun _ => E) :=
  fun ts complete => FailsAt.of_eq (q := Parse.manyWithin step ts) rfl
    (manyWithin reads progress fails ts ts (Nat.le_refl _) complete)

end Fails

/-! ## Looking at a token and taking it -/

theorem fails_peek : Fails peek Phrase.never := by
  refine .never fun ts complete => ?_
  cases ts with
  | nil => exact complete.elim
  | cons t ts => exact ⟨t, t :: ts, rfl⟩

theorem fails_ask {f : Token → α} : Fails (do return f (← peek)) Phrase.never :=
  (fails_peek).andThen reads_peek fun _ => .pure _

theorem fails_advance : Fails advance Phrase.never := by
  refine .never fun ts complete => ?_
  cases ts with
  | nil => exact complete.elim
  | cons t ts => exact ⟨t, _, rfl⟩

theorem fails_accept {k : Kind} (inner : k ≠ .eof) : Fails (accept k) Phrase.never := by
  refine .never fun ts complete => ?_
  cases ts with
  | nil => exact complete.elim
  | cons t ts =>
    rw [accept_cons inner]
    by_cases kind : t.kind = k
    · exact ⟨true, ts, if_pos kind⟩
    · exact ⟨false, t :: ts, if_neg kind⟩

theorem fails_spanFrom (start : Option Span) : Fails (spanFrom start) Phrase.never := fails_ask

/-- What is optional fails only behind the token that announces it. -/
theorem fails_optional {k : Kind} (inner : k ≠ .eof) {p : Parse α} {G : Phrase α}
    {E : Phrase Failure} (reads : Reads p G) (fails : Fails p E) :
    Fails (do if ← accept k then return some (← p) else return none) fun t ws e =>
      ∃ u us, ws = u :: us ∧ u.kind = k ∧ E t us e := by
  refine ((fails_accept inner).after (reads_accept inner) fun b => Fails.ite
    (fun _ => fails.andThen reads fun a => .pure (some a)) fun _ => .pure none).congr ?_
  intro t ws e
  constructor
  · rintro ⟨us, vs, b, rfl, ⟨-, u, rfl, kind⟩ | ⟨rfl, -⟩, ⟨yes, h⟩ | ⟨-, h⟩⟩
    · exact ⟨u, vs, rfl, kind, h⟩
    · exact h.elim
    · cases yes
    · exact h.elim
  · rintro ⟨u, us, rfl, kind, h⟩
    exact ⟨[u], us, true, rfl, Or.inl ⟨rfl, u, rfl, kind⟩, Or.inl ⟨rfl, h⟩⟩

theorem fails_expect {k : Kind} (inner : k ≠ .eof) (message : String) :
    Fails (expect k message)
      (Phrase.refuse (·.kind ≠ k) fun t => .malformed (.missingKind k message t)) := by
  refine .refuse (fun t ts taken => ?_) fun t ts refused => ?_
  · exact ⟨t, ts, expect_of_kind inner message (Decidable.not_not.1 taken) ts⟩
  · rw [expect_cons, if_neg refused]

/-- A token of the kind is missing, or what stands behind it fails. -/
theorem fails_expect_bind {k : Kind} (inner : k ≠ .eof) (message : String) {p : Token → Parse α}
    {F : Token → Phrase Failure} (behind : ∀ u, Fails (p u) (F u)) :
    Fails (expect k message >>= p) fun t ws e =>
      (ws = [] ∧ t.kind ≠ k ∧ e = .malformed (.missingKind k message t)) ∨
        ∃ u vs, ws = u :: vs ∧ u.kind = k ∧ F u t vs e := by
  refine ((fails_expect inner message).bind (reads_expect inner message) behind).congr
    fun t ws e => or_congr Iff.rfl ?_
  rw [Phrase.bind_single]
  constructor
  · rintro ⟨u, vs, _, rfl, ⟨kind, rfl⟩, h⟩
    exact ⟨_, vs, rfl, kind, h⟩
  · rintro ⟨u, vs, rfl, kind, h⟩
    exact ⟨u, vs, u, rfl, ⟨kind, rfl⟩, h⟩

theorem fails_expectWord (text : String) :
    Fails (expectWord text)
      (Phrase.refuse (·.isWord text = false) fun t => .malformed (.missingText text t)) := by
  refine .refuse (fun t ts taken => ?_) fun t ts refused => ?_
  · have word : t.isWord text = true := by simpa using taken
    have inner : t.kind ≠ .eof := by
      rw [(kind_of_isWord word).1]
      exact Kind.noConfusion
    rw [expectWord_cons, if_pos word]
    exact ⟨t, ts, advance_cons inner ts⟩
  · rw [expectWord_cons, if_neg (by simp [refused])]

end Parse

end ShellScript
