/-
# ShellScript.Proofs.Parse.Phrase -- what a parser reads

A `Phrase` says what a run of tokens means when a given token follows it: the
token behind a phrase matters, because a phrase is as long as it can be and its
position reaches to the end of that token.  `Reads p G` says that the parser `p`
succeeds exactly where a phrase of `G` stands in front, with the value of that
phrase, and takes exactly its tokens.

The statement goes through the ways parsers are put together: one after another
(`Reads.bind`), by cases (`Reads.ite`), and repeated (`Reads.many`).  So the phrases
of a parser are read off its parts, in both directions at once.
-/
import ShellScript.Parse.Basic

namespace ShellScript

set_option autoImplicit false

/-- A complete list of tokens: it ends in an end mark and holds no other. -/
def Complete : List Token → Prop
  | [] => False
  | [t] => t.kind = .eof
  | t :: u :: ts => t.kind ≠ .eof ∧ Complete (u :: ts)

theorem complete_cons {t : Token} {ts : List Token} (others : ts ≠ []) :
    Complete (t :: ts) ↔ t.kind ≠ .eof ∧ Complete ts := by
  cases ts with
  | nil => exact absurd rfl others
  | cons u us => rfl

theorem Complete.tail {t : Token} {ts : List Token} (complete : Complete (t :: ts))
    (inner : t.kind ≠ .eof) : Complete ts := by
  cases ts with
  | nil => exact absurd complete inner
  | cons u us => exact complete.2

theorem Complete.eq_nil {t : Token} {ts : List Token} (complete : Complete (t :: ts))
    (last : t.kind = .eof) : ts = [] := by
  cases ts with
  | nil => rfl
  | cons u us => exact absurd last complete.1

theorem Complete.of_append {us vs : List Token} (complete : Complete (us ++ vs))
    (others : vs ≠ []) : Complete vs := by
  induction us with
  | nil => exact complete
  | cons u us ih =>
    rw [List.cons_append, complete_cons (List.append_ne_nil_of_right_ne_nil us others)] at complete
    exact ih complete.2

theorem complete_append {us vs : List Token} (inner : ∀ t ∈ us, t.kind ≠ .eof)
    (complete : Complete vs) : Complete (us ++ vs) := by
  induction us with
  | nil => exact complete
  | cons u us ih =>
    obtain ⟨first, others⟩ := List.forall_mem_cons.1 inner
    have whole := ih others
    rw [List.cons_append, complete_cons]
    · exact ⟨first, whole⟩
    · intro empty
      rw [empty] at whole
      exact whole

theorem Complete.inner {us : List Token} {last : Token} (complete : Complete (us ++ [last])) :
    ∀ t ∈ us, t.kind ≠ .eof := by
  induction us with
  | nil => simp
  | cons u us ih =>
    rw [List.cons_append, complete_cons (by simp)] at complete
    exact List.forall_mem_cons.2 ⟨complete.1, ih complete.2⟩

/-! ## Phrases -/

/-- The meaning of tokens in front of a given token. -/
abbrev Phrase (α : Type) := Token → List Token → α → Prop

/-- The first token of `ws`, or the token `next` behind them. -/
def follow (ws : List Token) (next : Token) : Token := ws.headD next

@[simp] theorem follow_nil (next : Token) : follow [] next = next := rfl

@[simp] theorem follow_cons (t : Token) (ws : List Token) (next : Token) :
    follow (t :: ws) next = t := rfl

@[simp] theorem follow_append (us vs : List Token) (next : Token) :
    follow (us ++ vs) next = follow us (follow vs next) := by
  cases us <;> rfl

theorem follow_eq_of_split {ws others others' : List Token} {next t : Token}
    (split : t :: others' = ws ++ next :: others) : follow ws next = t := by
  cases ws with
  | nil => exact (List.cons.inj split).1.symm
  | cons w ws => exact (List.cons.inj split).1.symm

theorem append_cons_eq_follow (ws : List Token) (next : Token) (others : List Token) :
    ∃ others', ws ++ next :: others = follow ws next :: others' := by
  cases ws with
  | nil => exact ⟨others, rfl⟩
  | cons w ws => exact ⟨ws ++ next :: others, rfl⟩

namespace Phrase

variable {α β : Type}

/-- No token at all, with a given value. -/
def pure (a : α) : Phrase α := fun _ ws b => ws = [] ∧ b = a

/-- No token at all, with the value `f` has for the token behind. -/
def ask (f : Token → α) : Phrase α := fun next ws a => ws = [] ∧ a = f next

/-- One token, whose value is as `R` says. -/
def single (R : Token → α → Prop) : Phrase α := fun _ ws a => ∃ t, ws = [t] ∧ R t a

/-- A phrase and then another, chosen by the value of the first. -/
def bind (G : Phrase α) (H : α → Phrase β) : Phrase β := fun next ws b =>
  ∃ us vs a, ws = us ++ vs ∧ G (follow vs next) us a ∧ H a next vs b

/-- A phrase repeated for as long as it gives something. -/
inductive Many (G : Phrase (Option α)) : Phrase (List α)
  | stop {next : Token} {ws : List Token} (last : G next ws none) : Many G next ws []
  | more {next : Token} {us vs : List Token} {a : α} {as : List α}
      (first : G (follow vs next) us (some a)) (others : Many G next vs as) :
      Many G next (us ++ vs) (a :: as)

@[simp] theorem pure_iff {a b : α} {next : Token} {ws : List Token} :
    Phrase.pure a next ws b ↔ ws = [] ∧ b = a := Iff.rfl

@[simp] theorem ask_iff {f : Token → α} {next : Token} {ws : List Token} {a : α} :
    ask f next ws a ↔ ws = [] ∧ a = f next := Iff.rfl

@[simp] theorem bind_ask {f : Token → α} {H : α → Phrase β} {next : Token} {ws : List Token}
    {b : β} : (ask f).bind H next ws b ↔ H (f (follow ws next)) next ws b := by
  constructor
  · rintro ⟨us, vs, t, rfl, ⟨rfl, rfl⟩, h⟩
    exact h
  · intro h
    exact ⟨[], ws, _, rfl, ⟨rfl, rfl⟩, h⟩

@[simp] theorem bind_single {R : Token → α → Prop} {H : α → Phrase β} {next : Token}
    {ws : List Token} {b : β} :
    (single R).bind H next ws b ↔ ∃ t vs a, ws = t :: vs ∧ R t a ∧ H a next vs b := by
  constructor
  · rintro ⟨us, vs, a, rfl, ⟨t, rfl, found⟩, h⟩
    exact ⟨t, vs, a, rfl, found, h⟩
  · rintro ⟨t, vs, a, rfl, found, h⟩
    exact ⟨[t], vs, a, rfl, ⟨t, rfl, found⟩, h⟩

@[simp] theorem bind_pure {G : Phrase α} {f : α → β} {next : Token} {ws : List Token} {b : β} :
    (G.bind fun a => Phrase.pure (f a)) next ws b ↔ ∃ a, G next ws a ∧ b = f a := by
  constructor
  · rintro ⟨us, vs, a, rfl, h, rfl, rfl⟩
    rw [List.append_nil]
    exact ⟨a, h, rfl⟩
  · rintro ⟨a, h, rfl⟩
    exact ⟨ws, [], a, (List.append_nil ws).symm, h, rfl, rfl⟩

theorem bind_assoc {γ : Type} (G : Phrase α) (H : α → Phrase β) (K : β → Phrase γ) :
    (G.bind H).bind K = G.bind fun a => (H a).bind K := by
  funext next ws c
  apply propext
  constructor
  · rintro ⟨_, vs, b, rfl, ⟨us, us', a, rfl, first, second⟩, third⟩
    rw [← follow_append] at first
    exact ⟨us, us' ++ vs, a, List.append_assoc us us' vs, first, us', vs, b, rfl, second, third⟩
  · rintro ⟨us, _, a, rfl, first, us', vs, b, rfl, second, third⟩
    rw [follow_append] at first
    exact ⟨us ++ us', vs, b, (List.append_assoc us us' vs).symm,
      ⟨us, us', a, rfl, first, second⟩, third⟩

/-- A repeated phrase gives nothing, or gives something and is repeated. -/
theorem many_iff {G : Phrase (Option α)} {next : Token} {ws : List Token} {as : List α} :
    Many G next ws as ↔
      (G.bind fun
        | none => Phrase.pure []
        | some a => (Many G).bind fun as => Phrase.pure (a :: as)) next ws as := by
  constructor
  · intro h
    cases h with
    | stop last => exact ⟨ws, [], none, (List.append_nil ws).symm, last, rfl, rfl⟩
    | more first others => exact ⟨_, _, _, rfl, first, bind_pure.2 ⟨_, others, rfl⟩⟩
  · rintro ⟨us, vs, o, rfl, first, h⟩
    cases o with
    | none =>
      obtain ⟨rfl, rfl⟩ := h
      rw [List.append_nil]
      exact .stop first
    | some a =>
      obtain ⟨as, others, rfl⟩ := bind_pure.1 h
      exact .more first others

end Phrase

/-! ## Parsers that read phrases -/

namespace Parse

variable {α β : Type}

theorem bind_ok {p : Parse α} {f : α → Parse β} {ts rest : List Token} {b : β} :
    (p >>= f) ts = .ok b rest ↔ ∃ a mid, p ts = .ok a mid ∧ f a mid = .ok b rest := by
  show EStateM.bind p f ts = _ ↔ _
  unfold EStateM.bind
  cases p ts with
  | ok a mid =>
    constructor
    · intro h
      exact ⟨a, mid, rfl, h⟩
    · rintro ⟨a', mid', same, h⟩
      cases same
      exact h
  | error e mid =>
    constructor
    · intro h
      cases h
    · rintro ⟨a', mid', same, h⟩
      cases same

theorem bind_error {p : Parse α} {f : α → Parse β} {ts rest : List Token} {e : Failure}
    (h : (p >>= f) ts = .error e rest) :
    p ts = .error e rest ∨ ∃ a mid, p ts = .ok a mid ∧ f a mid = .error e rest := by
  change EStateM.bind p f ts = _ at h
  unfold EStateM.bind at h
  cases hp : p ts with
  | ok a mid =>
    rw [hp] at h
    exact Or.inr ⟨a, mid, rfl, h⟩
  | error e' mid =>
    rw [hp] at h
    cases h
    exact Or.inl rfl

theorem bind_of_ok {p : Parse α} {ts rest : List Token} {a : α} (taken : p ts = .ok a rest)
    (f : α → Parse β) : (p >>= f) ts = f a rest := by
  show EStateM.bind p f ts = _
  simp only [EStateM.bind, taken]

theorem bind_of_error {p : Parse α} {ts rest : List Token} {e : Failure}
    (fails : p ts = .error e rest) (f : α → Parse β) : (p >>= f) ts = .error e rest := by
  show EStateM.bind p f ts = _
  simp only [EStateM.bind, fails]

theorem bind_eq {p q : Parse α} {ts : List Token} (same : p ts = q ts) (f : α → Parse β) :
    (p >>= f) ts = (q >>= f) ts := by
  show EStateM.bind p f ts = EStateM.bind q f ts
  unfold EStateM.bind
  rw [same]

/-- A script is refused at a token: for its nesting, or with an error found there.
Only the end mark is never unexpected. -/
inductive Refuses : Failure → Token → Prop
  | malformed {e : SyntaxError}
      (inside : ∀ t context, e = .unexpected t context → t.kind ≠ .eof) :
      Refuses (.malformed e) e.found
  | tooDeep {t : Token} : Refuses .tooDeep t

theorem Refuses.ne_fault {e : Failure} {t : Token} (refuses : Refuses e t) (f : Fault) :
    e ≠ .fault f := by
  cases refuses <;> exact Failure.noConfusion

/-- In front of `ts`, `p` succeeds exactly where a phrase of `G` stands; it gives the
value of the phrase and leaves the tokens behind it.  If it fails, it refuses the
script at the token it has come to. -/
structure ReadsAt (p : Parse α) (G : Phrase α) (ts : List Token) : Prop where
  ok : ∀ a rest, p ts = .ok a rest ↔
    ∃ ws next others, ts = ws ++ next :: others ∧ rest = next :: others ∧ G next ws a
  error : ∀ e rest, p ts = .error e rest →
    ∃ ws t others, ts = ws ++ t :: others ∧ rest = t :: others ∧ Refuses e t

/-- A parser reads phrases in front of every complete list. -/
def Reads (p : Parse α) (G : Phrase α) : Prop := ∀ ts, Complete ts → ReadsAt p G ts

namespace ReadsAt

variable {ts : List Token}

theorem of_eq {p q : Parse α} {G : Phrase α} (same : p ts = q ts) (reads : ReadsAt q G ts) :
    ReadsAt p G ts := by
  constructor
  · rw [same]
    exact reads.ok
  · rw [same]
    exact reads.error

/-- Only phrases at the front of the tokens matter. -/
theorem congr {p : Parse α} {G H : Phrase α} (reads : ReadsAt p G ts)
    (same : ∀ next ws others a, ts = ws ++ next :: others → (G next ws a ↔ H next ws a)) :
    ReadsAt p H ts := by
  refine ⟨fun a rest => ?_, reads.error⟩
  rw [reads.ok a rest]
  constructor
  · rintro ⟨ws, next, others, split, left, h⟩
    exact ⟨ws, next, others, split, left, (same next ws others a split).1 h⟩
  · rintro ⟨ws, next, others, split, left, h⟩
    exact ⟨ws, next, others, split, left, (same next ws others a split).2 h⟩

theorem pure (a : α) (t : Token) (ts : List Token) :
    ReadsAt (Pure.pure a) (Phrase.pure a) (t :: ts) := by
  refine ⟨fun b rest => ⟨?_, ?_⟩, fun e rest h => by cases h⟩
  · intro h
    cases h
    exact ⟨[], t, ts, rfl, rfl, rfl, rfl⟩
  · rintro ⟨ws, next, others, split, rfl, rfl, rfl⟩
    rw [split]
    rfl

/-- A parser that refuses the next token reads no phrase. -/
theorem refuse {p : Parse α} {e : Failure} {t : Token} {ts : List Token}
    (fails : p (t :: ts) = .error e (t :: ts)) (refuses : Refuses e t) :
    ReadsAt p (fun _ _ _ => False) (t :: ts) := by
  refine ⟨fun a rest => ⟨?_, ?_⟩, fun e' rest h => ?_⟩
  · intro h
    rw [fails] at h
    cases h
  · rintro ⟨_, _, _, _, _, h⟩
    exact h.elim
  · rw [fails] at h
    cases h
    exact ⟨[], t, ts, rfl, rfl, refuses⟩

theorem ite {c : Prop} [Decidable c] {p q : Parse α} {G H : Phrase α} (yes : c → ReadsAt p G ts)
    (no : ¬ c → ReadsAt q H ts) :
    ReadsAt (if c then p else q) (fun next ws a => (c ∧ G next ws a) ∨ (¬ c ∧ H next ws a))
      ts := by
  by_cases h : c
  · rw [if_pos h]
    exact (yes h).congr fun next ws _ a _ => by simp [h]
  · rw [if_neg h]
    exact (no h).congr fun next ws _ a _ => by simp [h]

/-- What is left where a phrase is read is not empty. -/
theorem rest_eq {p : Parse α} {G : Phrase α} (reads : ReadsAt p G ts) {a : α}
    {rest : List Token} (h : p ts = .ok a rest) : ∃ t others, rest = t :: others := by
  obtain ⟨_, t, others, _, rfl, _⟩ := (reads.ok a rest).1 h
  exact ⟨t, others, rfl⟩

/-- What is left where a phrase is read of a complete list is complete. -/
theorem complete_rest {p : Parse α} {G : Phrase α} (reads : ReadsAt p G ts)
    (complete : Complete ts) {a : α} {rest : List Token} (h : p ts = .ok a rest) :
    Complete rest := by
  obtain ⟨_, t, others, rfl, rfl, _⟩ := (reads.ok a rest).1 h
  exact complete.of_append (List.cons_ne_nil t others)

theorem bind {p : Parse α} {f : α → Parse β} {G : Phrase α} {H : α → Phrase β}
    (first : ReadsAt p G ts)
    (second : ∀ a mid, p ts = .ok a mid → ReadsAt (f a) (H a) mid) :
    ReadsAt (p >>= f) (G.bind H) ts := by
  refine ⟨fun b rest => ?_, fun e rest h => ?_⟩
  · rw [bind_ok]
    constructor
    · rintro ⟨a, mid, hp, hf⟩
      obtain ⟨us, t, others, split, rfl, left⟩ := (first.ok a mid).1 hp
      obtain ⟨vs, next, others', split', rfl, right⟩ := ((second a _ hp).ok b rest).1 hf
      rw [← follow_eq_of_split split'] at left
      exact ⟨us ++ vs, next, others', by rw [split, split', List.append_assoc], rfl,
        us, vs, a, rfl, left, right⟩
    · rintro ⟨_, next, others, split, rfl, us, vs, a, rfl, left, right⟩
      obtain ⟨others', split'⟩ := append_cons_eq_follow vs next others
      have hp : p ts = .ok a (vs ++ next :: others) :=
        (first.ok a _).2 ⟨us, _, others', by rw [split, List.append_assoc, split'], split', left⟩
      exact ⟨a, _, hp, ((second a _ hp).ok b _).2 ⟨vs, next, others, rfl, rfl, right⟩⟩
  · rcases bind_error h with hp | ⟨a, mid, hp, hf⟩
    · exact first.error e rest hp
    · obtain ⟨us, u, others, split, rfl, -⟩ := (first.ok a mid).1 hp
      obtain ⟨vs, t, others', split', rfl, refuses⟩ := (second a _ hp).error e rest hf
      exact ⟨us ++ vs, t, others', by rw [split, split', List.append_assoc], rfl, refuses⟩

theorem map {p : Parse α} {G : Phrase α} (reads : ReadsAt p G ts) (f : α → β) :
    ReadsAt (do return f (← p)) (fun next ws b => ∃ a, G next ws a ∧ b = f a) ts := by
  refine (reads.bind fun a mid h => ?_).congr fun next ws _ b _ => Phrase.bind_pure
  obtain ⟨t, others, rfl⟩ := reads.rest_eq h
  exact .pure (f a) t others

end ReadsAt

namespace Reads

theorem congr {p : Parse α} {G H : Phrase α} (reads : Reads p G)
    (same : ∀ next ws a, G next ws a ↔ H next ws a) : Reads p H :=
  fun ts complete => (reads ts complete).congr fun next ws _ a _ => same next ws a

theorem pure (a : α) : Reads (Pure.pure a) (Phrase.pure a)
  | [], complete => complete.elim
  | t :: ts, _ => .pure a t ts

theorem bind {p : Parse α} {f : α → Parse β} {G : Phrase α} {H : α → Phrase β}
    (first : Reads p G) (second : ∀ a, Reads (f a) (H a)) : Reads (p >>= f) (G.bind H) :=
  fun ts complete => (first ts complete).bind fun a mid h =>
    second a mid ((first ts complete).complete_rest complete h)

theorem ite {c : Prop} [Decidable c] {p q : Parse α} {G H : Phrase α} (yes : c → Reads p G)
    (no : ¬ c → Reads q H) :
    Reads (if c then p else q) fun next ws a => (c ∧ G next ws a) ∨ (¬ c ∧ H next ws a) :=
  fun ts complete => .ite (fun h => yes h ts complete) fun h => no h ts complete

/-- A parser that goes on as the next token says. -/
theorem peek {f : Token → Parse α} {H : Token → Phrase α}
    (reads : ∀ t ts, Complete (t :: ts) → ReadsAt (f t) (H t) (t :: ts)) :
    Reads (Parse.peek >>= f) fun next ws a => H (follow ws next) next ws a
  | [], complete => complete.elim
  | t :: ts, complete => by
    have same : (Parse.peek >>= f) (t :: ts) = f t (t :: ts) := rfl
    refine ((reads t ts complete).of_eq same).congr fun next ws others a split => ?_
    rw [follow_eq_of_split split]

/-- A parser of one token. -/
theorem single {p : Parse α} {R : Token → α → Prop}
    (hit : ∀ t ts a, R t a → t.kind ≠ .eof ∧ p (t :: ts) = .ok a ts)
    (miss : ∀ t ts, (¬ ∃ a, R t a) → ∃ e, p (t :: ts) = .error e (t :: ts) ∧ Refuses e t) :
    Reads p (Phrase.single R)
  | [], complete => complete.elim
  | t :: ts, complete => by
    by_cases found : ∃ a, R t a
    · obtain ⟨a, found⟩ := found
      obtain ⟨inner, taken⟩ := hit t ts a found
      refine ⟨fun b rest => ⟨fun h => ?_, ?_⟩, fun e rest h => ?_⟩
      · rw [taken] at h
        cases h
        cases ts with
        | nil => exact (complete.tail inner).elim
        | cons next others => exact ⟨[t], next, others, rfl, rfl, t, rfl, found⟩
      · rintro ⟨_, next, others, split, rfl, u, rfl, found⟩
        obtain ⟨rfl, rfl⟩ := List.cons.inj split
        exact (hit t _ b found).2
      · rw [taken] at h
        cases h
    · obtain ⟨e, fails, refuses⟩ := miss t ts found
      refine (ReadsAt.refuse fails refuses).congr fun next ws others a split => ?_
      constructor
      · exact False.elim
      · rintro ⟨u, rfl, h⟩
        obtain ⟨rfl, -⟩ := List.cons.inj split
        exact found ⟨a, h⟩

/-- A step that gives something leaves fewer tokens. -/
theorem length_lt {step : Parse (Option α)} {G : Phrase (Option α)} (reads : Reads step G)
    (progress : ∀ next ws a, G next ws (some a) → ws ≠ []) {ts rest : List Token} {a : α}
    (complete : Complete ts) (round : step ts = .ok (some a) rest) : rest.length < ts.length := by
  obtain ⟨ws, next, others, rfl, rfl, phrase⟩ := ((reads ts complete).ok _ _).1 round
  have := List.length_pos_iff.2 (progress next ws a phrase)
  simp only [List.length_append]
  omega

theorem manyWithin {step : Parse (Option α)} {G : Phrase (Option α)} (reads : Reads step G)
    (progress : ∀ next ws a, G next ws (some a) → ws ≠ []) (budget ts : List Token)
    (enough : ts.length ≤ budget.length) (complete : Complete ts) :
    ReadsAt (Parse.manyWithin step budget) (Phrase.Many G) ts := by
  induction budget generalizing ts with
  | nil =>
    rw [List.eq_nil_of_length_eq_zero (Nat.le_zero.1 enough)] at complete
    exact complete.elim
  | cons b budget ih =>
    have here := reads ts complete
    refine ReadsAt.congr (here.bind fun o mid h => ?_) fun next ws _ as _ => Phrase.many_iff.symm
    obtain ⟨us, t, others, rfl, rfl, -⟩ := (here.ok o mid).1 h
    cases o with
    | none => exact .pure [] t others
    | some a =>
      have fewer := length_lt reads progress complete h
      have shorter : (t :: others).length ≤ budget.length := by
        rw [List.length_cons] at enough
        omega
      have later := ih (t :: others) shorter (complete.of_append (List.cons_ne_nil t others))
      refine later.bind fun as mid h => ?_
      obtain ⟨u, others', rfl⟩ := later.rest_eq h
      exact .pure (a :: as) u others'

/-- A loop whose step takes a token whenever it gives something. -/
theorem many {step : Parse (Option α)} {G : Phrase (Option α)} (reads : Reads step G)
    (progress : ∀ next ws a, G next ws (some a) → ws ≠ []) :
    Reads (Parse.many step) (Phrase.Many G) :=
  fun ts complete => ReadsAt.of_eq (q := Parse.manyWithin step ts) rfl
    (manyWithin reads progress ts ts (Nat.le_refl _) complete)

end Reads

/-! ## Rounds of a loop -/

/-- A step that leaves fewer tokens whenever it gives something, and a complete list of them. -/
def Shrinks (step : Parse (Option α)) : Prop :=
  ∀ ts a rest, Complete ts → step ts = .ok (some a) rest →
    Complete rest ∧ rest.length < ts.length

theorem Reads.shrinks {step : Parse (Option α)} {G : Phrase (Option α)} (reads : Reads step G)
    (progress : ∀ next ws a, G next ws (some a) → ws ≠ []) : Shrinks step :=
  fun ts _ _ complete round => ⟨(reads ts complete).complete_rest complete round,
    reads.length_lt progress complete round⟩

namespace Shrinks

variable {step : Parse (Option α)} (shrinks : Shrinks step)

include shrinks

/-- A budget of one token for each token is enough; what it has beyond that is not used. -/
theorem manyWithin_eq (budget budget' : List Token) {ts : List Token} (complete : Complete ts)
    (enough : ts.length ≤ budget.length) (enough' : ts.length ≤ budget'.length) :
    Parse.manyWithin step budget ts = Parse.manyWithin step budget' ts := by
  induction budget generalizing budget' ts with
  | nil =>
    rw [List.eq_nil_of_length_eq_zero (Nat.le_zero.1 enough)] at complete
    exact complete.elim
  | cons b budget ih =>
    cases budget' with
    | nil =>
      rw [List.eq_nil_of_length_eq_zero (Nat.le_zero.1 enough')] at complete
      exact complete.elim
    | cons b' budget' =>
      show EStateM.bind step _ ts = EStateM.bind step _ ts
      unfold EStateM.bind
      cases round : step ts with
      | error e rest => rfl
      | ok o rest =>
        cases o with
        | none => rfl
        | some a =>
          obtain ⟨whole, shorter⟩ := shrinks ts a rest complete round
          simp only [List.length_cons] at enough enough'
          show EStateM.bind _ _ rest = EStateM.bind _ _ rest
          simp only [EStateM.bind, ih budget' whole (by omega) (by omega)]

/-- One round of a loop, and the loop behind it. -/
theorem many_eq {ts : List Token} (complete : Complete ts) :
    Parse.many step ts = (do
      match ← step with
      | none => return []
      | some a => return a :: (← Parse.many step)) ts := by
  cases ts with
  | nil => exact complete.elim
  | cons t ts =>
    show EStateM.bind step _ (t :: ts) = EStateM.bind step _ (t :: ts)
    unfold EStateM.bind
    cases round : step (t :: ts) with
    | error e rest => rfl
    | ok o rest =>
      cases o with
      | none => rfl
      | some a =>
        obtain ⟨whole, shorter⟩ := shrinks _ a rest complete round
        have same : Parse.manyWithin step ts rest = Parse.many step rest :=
          shrinks.manyWithin_eq ts rest whole (Nat.le_of_lt_succ shorter) (Nat.le_refl _)
        show EStateM.bind _ _ rest = EStateM.bind _ _ rest
        simp only [EStateM.bind, same]

end Shrinks

/-! ## Looking at a token and taking it -/

theorem reads_peek : Reads peek (Phrase.ask id)
  | [], complete => complete.elim
  | t :: ts, _ => by
    have same : peek (t :: ts) = (pure t : Parse Token) (t :: ts) := rfl
    refine ReadsAt.congr (ReadsAt.of_eq same (.pure t t ts)) fun next ws others u split => ?_
    constructor
    · rintro ⟨rfl, rfl⟩
      exact ⟨rfl, (List.cons.inj split).1⟩
    · rintro ⟨rfl, rfl⟩
      exact ⟨rfl, (List.cons.inj split).1.symm⟩

/-- A parser that only looks at the next token. -/
theorem reads_ask (f : Token → α) : Reads (do return f (← peek)) (Phrase.ask f) :=
  (reads_peek.bind fun t => .pure (f t)).congr fun next ws a => by
    rw [Phrase.bind_ask]
    constructor
    · rintro ⟨rfl, rfl⟩
      exact ⟨rfl, rfl⟩
    · rintro ⟨rfl, rfl⟩
      exact ⟨rfl, rfl⟩

theorem reads_check (k : Kind) : Reads (check k) (Phrase.ask fun t => t.kind = k) := reads_ask _

theorem reads_spanFrom (start : Option Span) :
    Reads (spanFrom start) (Phrase.ask fun t => Span.reach? start t.position) := reads_ask _

theorem advance_cons {t : Token} (inner : t.kind ≠ .eof) (ts : List Token) :
    advance (t :: ts) = .ok t ts := by
  simp [advance, inner]

theorem reads_advance :
    Reads advance fun next ws t =>
      (t.kind ≠ .eof ∧ ws = [t]) ∨ (t.kind = .eof ∧ ws = [] ∧ t = next)
  | [], complete => complete.elim
  | t :: ts, complete => by
    by_cases last : t.kind = .eof
    · have stays : advance (t :: ts) = (pure t : Parse Token) (t :: ts) := by
        simp [advance, last, pure, EStateM.pure]
      refine ReadsAt.congr (ReadsAt.of_eq stays (.pure t t ts)) fun next ws others u split => ?_
      constructor
      · rintro ⟨rfl, rfl⟩
        exact Or.inr ⟨last, rfl, (List.cons.inj split).1⟩
      · rintro (⟨inner, rfl⟩ | ⟨-, rfl, rfl⟩)
        · exact absurd ((List.cons.inj split).1 ▸ last) inner
        · exact ⟨rfl, (List.cons.inj split).1.symm⟩
    · have taken := advance_cons last ts
      refine ⟨fun u rest => ⟨fun h => ?_, ?_⟩, fun e rest h => ?_⟩
      · rw [taken] at h
        cases h
        cases ts with
        | nil => exact (complete.tail last).elim
        | cons next others => exact ⟨[t], next, others, rfl, rfl, Or.inl ⟨last, rfl⟩⟩
      · rintro ⟨ws, next, others, split, rfl, ⟨-, rfl⟩ | ⟨eof, rfl, rfl⟩⟩
        · obtain ⟨rfl, rfl⟩ := List.cons.inj split
          exact taken
        · exact absurd ((List.cons.inj split).1 ▸ eof) last
      · rw [taken] at h
        cases h

theorem check_of_kind {k : Kind} {t : Token} (kind : t.kind = k) (ts : List Token) :
    check k (t :: ts) = .ok true (t :: ts) :=
  congrArg (EStateM.Result.ok · (t :: ts)) (decide_eq_true kind)

theorem check_of_ne {k : Kind} {t : Token} (other : t.kind ≠ k) (ts : List Token) :
    check k (t :: ts) = .ok false (t :: ts) :=
  congrArg (EStateM.Result.ok · (t :: ts)) (decide_eq_false other)

theorem accept_cons {k : Kind} (inner : k ≠ .eof) (t : Token) (ts : List Token) :
    accept k (t :: ts) = if t.kind = k then .ok true ts else .ok false (t :: ts) := by
  by_cases kind : t.kind = k
  · simp [accept, check, peek, advance, kind, inner, bind, EStateM.bind, pure, EStateM.pure]
  · simp [accept, check, peek, kind, bind, EStateM.bind, pure, EStateM.pure]

theorem accept_of_kind {k : Kind} (inner : k ≠ .eof) {t : Token} (kind : t.kind = k)
    (ts : List Token) : accept k (t :: ts) = .ok true ts := by
  rw [accept_cons inner, if_pos kind]

theorem accept_of_ne {k : Kind} (inner : k ≠ .eof) {t : Token} (other : t.kind ≠ k)
    (ts : List Token) : accept k (t :: ts) = .ok false (t :: ts) := by
  rw [accept_cons inner, if_neg other]

/-- The next token is taken if it is of kind `k`. -/
theorem reads_accept {k : Kind} (inner : k ≠ .eof) :
    Reads (accept k) fun next ws b =>
      (b = true ∧ ∃ t, ws = [t] ∧ t.kind = k) ∨ (b = false ∧ ws = [] ∧ next.kind ≠ k) := by
  refine ((reads_check k).bind fun b =>
    Reads.ite (fun _ => (reads_advance).bind fun _ => .pure true) fun _ => .pure false).congr ?_
  intro next ws b
  rw [Phrase.bind_ask, Phrase.bind_pure]
  simp only [decide_eq_true_eq, Phrase.pure_iff]
  constructor
  · rintro (⟨kind, t, ⟨-, rfl⟩ | ⟨eof, rfl, rfl⟩, rfl⟩ | ⟨kind, rfl, rfl⟩)
    · exact Or.inl ⟨rfl, t, rfl, kind⟩
    · exact absurd (kind.symm.trans eof) inner
    · exact Or.inr ⟨rfl, rfl, kind⟩
  · rintro (⟨rfl, t, rfl, kind⟩ | ⟨rfl, rfl, kind⟩)
    · exact Or.inl ⟨kind, t, Or.inl ⟨kind ▸ inner, rfl⟩, rfl⟩
    · exact Or.inr ⟨kind, rfl, rfl⟩

/-- A phrase behind a token of kind `k`, if there is such a token. -/
theorem reads_optional {k : Kind} (inner : k ≠ .eof) {p : Parse α} {G : Phrase α}
    (reads : Reads p G) :
    Reads (do if ← accept k then return some (← p) else return none) fun next ws o =>
      (∃ t us a, ws = t :: us ∧ t.kind = k ∧ G next us a ∧ o = some a) ∨
        (ws = [] ∧ next.kind ≠ k ∧ o = none) := by
  refine ((reads_accept inner).bind fun b => Reads.ite
    (fun _ => reads.bind fun a => .pure (some a)) fun _ => .pure none).congr ?_
  intro next ws o
  constructor
  · rintro ⟨us, vs, b, rfl, ⟨rfl, t, rfl, kind⟩ | ⟨rfl, rfl, other⟩, h⟩
    · rcases h with ⟨-, h⟩ | ⟨no, -⟩
      · obtain ⟨a, found, rfl⟩ := Phrase.bind_pure.1 h
        exact Or.inl ⟨t, vs, a, rfl, kind, found, rfl⟩
      · exact absurd rfl no
    · rcases h with ⟨yes, -⟩ | ⟨-, rfl, rfl⟩
      · cases yes
      · exact Or.inr ⟨rfl, other, rfl⟩
  · rintro (⟨t, us, a, rfl, kind, found, rfl⟩ | ⟨rfl, other, rfl⟩)
    · exact ⟨[t], us, true, rfl, Or.inl ⟨rfl, t, rfl, kind⟩,
        Or.inl ⟨rfl, Phrase.bind_pure.2 ⟨a, found, rfl⟩⟩⟩
    · exact ⟨[], [], false, rfl, Or.inr ⟨rfl, rfl, other⟩, Or.inr ⟨Bool.false_ne_true, rfl, rfl⟩⟩

theorem expect_cons (k : Kind) (message : String) (t : Token) (ts : List Token) :
    expect k message (t :: ts) =
      if t.kind = k then advance (t :: ts)
      else .error (.malformed (.missingKind k message t)) (t :: ts) := by
  by_cases kind : t.kind = k
  · rw [if_pos kind]
    show (if decide (t.kind = k) = true then advance else _) (t :: ts) = _
    rw [if_pos (decide_eq_true kind)]
  · rw [if_neg kind]
    show (if decide (t.kind = k) = true then advance else _) (t :: ts) = _
    rw [if_neg (by simpa using kind)]
    rfl

theorem expect_of_kind {k : Kind} (inner : k ≠ .eof) (message : String) {t : Token}
    (kind : t.kind = k) (ts : List Token) : expect k message (t :: ts) = .ok t ts := by
  rw [expect_cons, if_pos kind]
  exact advance_cons (kind ▸ inner) ts

theorem reads_expect {k : Kind} (inner : k ≠ .eof) (message : String) :
    Reads (expect k message) (Phrase.single fun t u => t.kind = k ∧ u = t) := by
  refine Reads.single ?_ ?_
  · rintro _ ts t ⟨kind, rfl⟩
    exact ⟨kind ▸ inner, expect_of_kind inner message kind ts⟩
  · intro t ts other
    have plain : t.kind ≠ k := fun kind => other ⟨t, kind, rfl⟩
    rw [expect_cons, if_neg plain]
    exact ⟨_, rfl,
      .malformed (e := .missingKind k message t) fun _ _ => SyntaxError.noConfusion⟩

theorem expectWord_cons (text : String) (t : Token) (ts : List Token) :
    expectWord text (t :: ts) =
      if t.isWord text = true then advance (t :: ts)
      else .error (.malformed (.missingText text t)) (t :: ts) := by
  show (if t.isWord text = true then advance else _) (t :: ts) = _
  split <;> rfl

theorem kind_of_isWord {t : Token} {text : String} (word : t.isWord text = true) :
    t.kind = .word ∧ t.text = text := by
  simpa [Token.isWord] using word

theorem reads_expectWord (text : String) :
    Reads (expectWord text) (Phrase.single fun t u => t.isWord text = true ∧ u = t) := by
  refine Reads.single ?_ ?_
  · rintro _ ts t ⟨word, rfl⟩
    have inner : t.kind ≠ .eof := by
      rw [(kind_of_isWord word).1]
      exact Kind.noConfusion
    rw [expectWord_cons, if_pos word]
    exact ⟨inner, advance_cons inner ts⟩
  · intro t ts other
    have plain : ¬ t.isWord text = true := fun word => other ⟨t, word, rfl⟩
    rw [expectWord_cons, if_neg plain]
    exact ⟨_, rfl,
      .malformed (e := .missingText text t) fun _ _ => SyntaxError.noConfusion⟩

end Parse

end ShellScript
