/-
# ShellScript.Proofs.Parse.Strip -- tokens without the comments among them

To a `Transparent` parser comments are nothing: with them and without (`strip`) it gives the same
value, or fails both times.  Parsers put together of transparent ones are transparent.

A comment of a script ends its line, so what stands behind it ends the line as well.  There most
parsers wait: they take nothing, whether the line ends in a comment or not (`Waits`).  So
they need be looked at within a line only, where the next token is the same without the comments
(`Transparent.of_waits`).

Spans reach up to the next token, which may be a comment; so all tokens stand at one place here.
-/
import Mathlib.Data.List.Chain
import ShellScript.Proofs.Parse.Rounds

namespace ShellScript

set_option autoImplicit false

/-- The kinds with which a line ends, where a comment counts as the end of its line. -/
def Kind.endsLine : Kind → Bool
  | .eof | .newline | .comment => true
  | _ => false

namespace Parse

/-- The tokens that are no comments. -/
def strip (ts : List Token) : List Token := ts.filter fun t => t.kind ≠ .comment

theorem strip_comment {t : Token} (comment : t.kind = .comment) (ts : List Token) :
    strip (t :: ts) = strip ts :=
  List.filter_cons_of_neg (by simpa using comment)

theorem strip_cons {t : Token} (plain : t.kind ≠ .comment) (ts : List Token) :
    strip (t :: ts) = t :: strip ts :=
  List.filter_cons_of_pos (by simpa using plain)

/-- Without its comments a complete list is complete. -/
theorem complete_strip {ts : List Token} (complete : Complete ts) : Complete (strip ts) := by
  induction ts with
  | nil => exact complete.elim
  | cons t ts ih =>
    by_cases comment : t.kind = .comment
    · have inner : t.kind ≠ .eof := comment.trans_ne Kind.noConfusion
      rw [strip_comment comment]
      exact ih (complete.tail inner)
    rw [strip_cons comment]
    by_cases last : t.kind = .eof
    · obtain rfl := complete.eq_nil last
      exact last
    · have whole := ih (complete.tail last)
      refine (complete_cons ?_).2 ⟨last, whole⟩
      intro empty
      rw [empty] at whole
      exact whole

/-- Complete tokens, all at one place, where comments end their lines. -/
structure Tidy (place : Option Span) (ts : List Token) : Prop where
  complete : Complete ts
  chain : ts.IsChain CommentEndsLine
  placed : ∀ t ∈ ts, t.position = place

variable {place : Option Span}

namespace Tidy

variable {t : Token} {ts : List Token}

theorem tail (tidy : Tidy place (t :: ts)) (inner : t.kind ≠ .eof) : Tidy place ts :=
  ⟨tidy.complete.tail inner, tidy.chain.tail, (List.forall_mem_cons.1 tidy.placed).2⟩

/-- Behind a comment its line ends. -/
theorem behind (tidy : Tidy place (t :: ts)) (comment : t.kind = .comment) :
    ∃ u us, ts = u :: us ∧ (u.kind = .newline ∨ u.kind = .eof) ∧ Tidy place ts := by
  have inner : t.kind ≠ .eof := comment.trans_ne Kind.noConfusion
  have whole := tidy.tail inner
  cases ts with
  | nil => exact whole.complete.elim
  | cons u us => exact ⟨u, us, rfl, (List.isChain_cons_cons.1 tidy.chain).1 comment, whole⟩

/-- The first token that is no comment: it stands in front, or a comment does and it ends
the line. -/
theorem exists_strip (tidy : Tidy place (t :: ts)) :
    ∃ u us, strip (t :: ts) = u :: us ∧ u.position = place ∧
      (u = t ∨ t.kind = .comment ∧ (u.kind = .newline ∨ u.kind = .eof)) := by
  by_cases comment : t.kind = .comment
  · obtain ⟨u, us, rfl, ends, whole⟩ := tidy.behind comment
    have plain : u.kind ≠ .comment := by
      rcases ends with kind | kind <;> rw [kind] <;> exact Kind.noConfusion
    rw [strip_comment comment, strip_cons plain]
    exact ⟨u, strip us, rfl, whole.placed u List.mem_cons_self, Or.inr ⟨comment, ends⟩⟩
  · rw [strip_cons comment]
    exact ⟨t, strip ts, rfl, tidy.placed t List.mem_cons_self, Or.inl rfl⟩

/-- Where a line ends it also ends without the comments. -/
theorem exists_strip_of_endsLine (tidy : Tidy place (t :: ts)) (ends : t.kind.endsLine = true) :
    ∃ u us, strip (t :: ts) = u :: us ∧ u.kind.endsLine = true ∧ u.kind ≠ .comment := by
  obtain ⟨u, us, eq, -, first⟩ := tidy.exists_strip
  have plain : u.kind ≠ .comment := by
    have member : u ∈ strip (t :: ts) := eq ▸ List.mem_cons_self
    simpa [strip] using (List.mem_filter.1 member).2
  refine ⟨u, us, eq, ?_, plain⟩
  rcases first with rfl | ⟨-, kind | kind⟩
  · exact ends
  · rw [kind]
    rfl
  · rw [kind]
    rfl

end Tidy

/-! ## Parsers to which comments are nothing -/

variable {α β : Type}

/-- An outcome with comments, and one without: the same value, where the tokens left differ
in the comments alone, or a failure both times. -/
inductive Agrees (place : Option Span) :
    EStateM.Result Failure (List Token) α → EStateM.Result Failure (List Token) α → Prop
  | ok {a : α} {rest : List Token} (tidy : Tidy place rest) :
      Agrees place (.ok a rest) (.ok a (strip rest))
  | error {e e' : Failure} {rest rest' : List Token} :
      Agrees place (.error e rest) (.error e' rest')

/-- What an outcome gives, whatever it leaves. -/
def given : EStateM.Result Failure (List Token) α → Option α
  | .ok a _ => some a
  | .error _ _ => none

theorem Agrees.given_eq {r r' : EStateM.Result Failure (List Token) α}
    (agrees : Agrees place r r') : given r' = given r := by
  cases agrees <;> rfl

/-- In front of `ts` the parser does the same as in front of its tokens without comments. -/
def TransparentAt (place : Option Span) (p : Parse α) (ts : List Token) : Prop :=
  Agrees place (p ts) (p (strip ts))

/-- To a parser the comments are nothing. -/
def Transparent (place : Option Span) (p : Parse α) : Prop :=
  ∀ ts, Tidy place ts → TransparentAt place p ts

namespace TransparentAt

variable {ts : List Token}

theorem of_eq {p q : Parse α} (same : p ts = q ts) (same' : p (strip ts) = q (strip ts))
    (clear : TransparentAt place q ts) : TransparentAt place p ts := by
  unfold TransparentAt
  rw [same, same']
  exact clear

theorem pure (a : α) (tidy : Tidy place ts) : TransparentAt place (Pure.pure a) ts := .ok tidy

theorem bind {p : Parse α} {f : α → Parse β} (first : TransparentAt place p ts)
    (second : ∀ a rest, p ts = .ok a rest → Tidy place rest → TransparentAt place (f a) rest) :
    TransparentAt place (p >>= f) ts := by
  unfold TransparentAt at first
  show Agrees place (EStateM.bind p f ts) (EStateM.bind p f (strip ts))
  unfold EStateM.bind
  generalize p (strip ts) = there at first
  generalize here : p ts = result at first
  cases first with
  | @ok a rest tidy => exact second a rest here tidy
  | error => exact .error

theorem ite {c : Prop} [Decidable c] {p q : Parse α} (yes : c → TransparentAt place p ts)
    (no : ¬ c → TransparentAt place q ts) : TransparentAt place (if c then p else q) ts := by
  by_cases h : c
  · rw [if_pos h]
    exact yes h
  · rw [if_neg h]
    exact no h

theorem map {p : Parse α} (clear : TransparentAt place p ts) (f : α → β) :
    TransparentAt place (do return f (← p)) ts :=
  clear.bind fun a _ _ tidy => .pure (f a) tidy

end TransparentAt

namespace Transparent

theorem bind {p : Parse α} {f : α → Parse β} (first : Transparent place p)
    (second : ∀ a, Transparent place (f a)) : Transparent place (p >>= f) :=
  fun ts tidy => (first ts tidy).bind fun a rest _ tidy => second a rest tidy

theorem map {p : Parse α} (clear : Transparent place p) (f : α → β) :
    Transparent place (do return f (← p)) := fun ts tidy => (clear ts tidy).map f

theorem pure (a : α) : Transparent place (Pure.pure a) := fun _ => .pure a

theorem ite {c : Prop} [Decidable c] {p q : Parse α} (yes : Transparent place p)
    (no : Transparent place q) : Transparent place (if c then p else q) :=
  fun ts tidy => .ite (fun _ => yes ts tidy) fun _ => no ts tidy

/-- A loop, by induction on the tokens that are left. -/
theorem many {step : Parse (Option α)} {G : Phrase (Option α)} (clear : Transparent place step)
    (reads : Reads step G) (progress : ∀ next ws a, G next ws (some a) → ws ≠ []) :
    Transparent place (Parse.many step) := by
  intro ts tidy
  induction size : ts.length using Nat.strongRecOn generalizing ts with
  | ind size' ih =>
    subst size
    have shrinks := reads.shrinks progress
    refine .of_eq (shrinks.many_eq tidy.complete) (shrinks.many_eq (complete_strip tidy.complete)) ?_
    refine (clear ts tidy).bind fun o rest round tidy' => ?_
    cases o with
    | none => exact .pure [] tidy'
    | some a =>
      exact (ih _ (shrinks ts a rest tidy.complete round).2 rest tidy' rfl).map (a :: ·)

/-- A parser that goes over line feeds and comments is looked at in front of other tokens only.
By induction on the tokens that are left: in front of fewer it is known to be transparent. -/
theorem of_rounds {p : Parse α}
    (feeds : ∀ t ts, Complete (t :: ts) → t.kind = .newline → p (t :: ts) = p ts)
    (comments : ∀ t u us, Complete (t :: u :: us) → t.kind = .comment →
      u.kind = .newline ∨ u.kind = .eof → p (t :: u :: us) = p (u :: us))
    (others : ∀ t ts, Tidy place (t :: ts) → t.kind ≠ .newline → t.kind ≠ .comment →
      (∀ left, left.length ≤ ts.length → Tidy place left → TransparentAt place p left) →
      TransparentAt place p (t :: ts)) : Transparent place p := by
  intro ts tidy
  induction size : ts.length using Nat.strongRecOn generalizing ts with
  | ind size' ih =>
    subst size
    cases ts with
    | nil => exact tidy.complete.elim
    | cons t ts =>
      have later (left : List Token) (fewer : left.length ≤ ts.length) (tidy : Tidy place left) :
          TransparentAt place p left := ih left.length (Nat.lt_succ_of_le fewer) left tidy rfl
      by_cases comment : t.kind = .comment
      · obtain ⟨u, us, rfl, ends, tidy'⟩ := tidy.behind comment
        unfold TransparentAt
        rw [comments t u us tidy.complete comment ends, strip_comment comment]
        exact later (u :: us) (Nat.le_refl _) tidy'
      by_cases newline : t.kind = .newline
      · have complete := complete_strip tidy.complete
        rw [strip_cons comment] at complete
        unfold TransparentAt
        rw [strip_cons comment, feeds t ts tidy.complete newline, feeds t _ complete newline]
        exact later ts (Nat.le_refl _) (tidy.tail (by rw [newline]; exact Kind.noConfusion))
      · exact others t ts tidy newline comment later

end Transparent

/-! ## Parsers that wait at the end of a line -/

/-- At the end of a line the parser takes nothing; it gives `a`, or fails if there is no `a`. -/
def Waits (p : Parse α) : Option α → Prop
  | some a => ∀ t ts, t.kind.endsLine = true → p (t :: ts) = .ok a (t :: ts)
  | none => ∀ t ts, t.kind.endsLine = true → ∃ e rest, p (t :: ts) = .error e rest

/-- A parser that waits at the end of a line is looked at within the line only. -/
theorem Transparent.of_waits {p : Parse α} {o : Option α} (waits : Waits p o)
    (within : ∀ t ts, Tidy place (t :: ts) → t.kind.endsLine = false →
      TransparentAt place p (t :: ts)) : Transparent place p
  | [], tidy => tidy.complete.elim
  | t :: ts, tidy => by
    cases ends : t.kind.endsLine with
    | false => exact within t ts tidy ends
    | true =>
      obtain ⟨u, us, eq, ends', -⟩ := tidy.exists_strip_of_endsLine ends
      unfold TransparentAt
      rw [eq]
      cases o with
      | some a =>
        rw [waits t ts ends, waits u us ends', ← eq]
        exact .ok tidy
      | none =>
        obtain ⟨e, rest, fails⟩ := waits t ts ends
        obtain ⟨e', rest', fails'⟩ := waits u us ends'
        rw [fails, fails']
        exact .error

section Within

variable {t : Token} {ts : List Token}

theorem ne_of_endsLine {k k' : Kind} (ends : k.endsLine = true) (within : k'.endsLine = false) :
    k ≠ k' := by
  rintro rfl
  rw [ends] at within
  cases within

theorem ne_comment (within : t.kind.endsLine = false) : t.kind ≠ .comment :=
  (ne_of_endsLine rfl within).symm

theorem ne_eof (within : t.kind.endsLine = false) : t.kind ≠ .eof :=
  (ne_of_endsLine rfl within).symm

/-- Within a line the next token is there without the comments as well. -/
theorem strip_within (within : t.kind.endsLine = false) (ts : List Token) :
    strip (t :: ts) = t :: strip ts := strip_cons (ne_comment within) ts

theorem transparentAt_peek (within : t.kind.endsLine = false) {f : Token → Parse α}
    (clear : TransparentAt place (f t) (t :: ts)) : TransparentAt place (peek >>= f) (t :: ts) := by
  refine .of_eq (q := f t) rfl ?_ clear
  rw [strip_within within]
  rfl

/-- A parser that takes the next token. -/
theorem transparentAt_take (tidy : Tidy place (t :: ts)) (within : t.kind.endsLine = false)
    {p : Parse α} {a : α} (takes : ∀ ts, p (t :: ts) = .ok a ts) :
    TransparentAt place p (t :: ts) := by
  unfold TransparentAt
  rw [strip_within within, takes, takes]
  exact .ok (tidy.tail (ne_eof within))

/-- A parser that only looks at the next token. -/
theorem transparentAt_look (tidy : Tidy place (t :: ts)) (within : t.kind.endsLine = false)
    {p : Parse α} {a : α} (looks : ∀ ts, p (t :: ts) = .ok a (t :: ts)) :
    TransparentAt place p (t :: ts) := by
  unfold TransparentAt
  rw [strip_within within, looks, looks, ← strip_within within]
  exact .ok tidy

/-- A parser that refuses the next token. -/
theorem transparentAt_refuse (within : t.kind.endsLine = false) {p : Parse α} {e : Failure}
    (fails : ∀ ts, p (t :: ts) = .error e (t :: ts)) : TransparentAt place p (t :: ts) := by
  unfold TransparentAt
  rw [strip_within within, fails, fails]
  exact .error

theorem transparentAt_advance (tidy : Tidy place (t :: ts)) (within : t.kind.endsLine = false) :
    TransparentAt place advance (t :: ts) :=
  transparentAt_take tidy within (advance_cons (ne_eof within))

end Within

theorem transparent_check {k : Kind} (within : k.endsLine = false) :
    Transparent place (check k) := by
  have looks (t : Token) (ts : List Token) :
      check k (t :: ts) = .ok (decide (t.kind = k)) (t :: ts) := rfl
  refine .of_waits (o := some false) (fun t ts ends => ?_) fun t ts tidy inside =>
    transparentAt_look tidy inside (looks t)
  rw [looks, decide_eq_false (ne_of_endsLine ends within)]

theorem transparent_accept {k : Kind} (within : k.endsLine = false) :
    Transparent place (accept k) := by
  have inner : k ≠ .eof := (ne_of_endsLine rfl within).symm
  refine .of_waits (o := some false) (fun t ts ends => ?_) fun t ts tidy inside => ?_
  · exact accept_of_ne inner (ne_of_endsLine ends within) ts
  · by_cases kind : t.kind = k
    · exact transparentAt_take tidy inside (accept_of_kind inner kind)
    · exact transparentAt_look tidy inside (accept_of_ne inner kind)

theorem transparent_expect {k : Kind} (within : k.endsLine = false) (message : String) :
    Transparent place (expect k message) := by
  refine .of_waits (o := none) (fun t ts ends => ?_) fun t ts tidy inside => ?_
  · exact ⟨_, _, by rw [expect_cons, if_neg (ne_of_endsLine ends within)]⟩
  · by_cases kind : t.kind = k
    · exact transparentAt_take tidy inside fun ts => by
        rw [expect_cons, if_pos kind, advance_cons (ne_eof inside)]
    · exact transparentAt_refuse inside fun ts => by rw [expect_cons, if_neg kind]

theorem transparent_expectWord (text : String) : Transparent place (expectWord text) := by
  refine .of_waits (o := none) (fun t ts ends => ?_) fun t ts tidy inside => ?_
  · have plain : ¬ t.isWord text = true := fun word =>
      ne_of_endsLine ends rfl (kind_of_isWord word).1
    exact ⟨_, _, by rw [expectWord_cons, if_neg plain]⟩
  · by_cases word : t.isWord text = true
    · exact transparentAt_take tidy inside fun ts => by
        rw [expectWord_cons, if_pos word, advance_cons (ne_eof inside)]
    · exact transparentAt_refuse inside fun ts => by rw [expectWord_cons, if_neg word]

/-- Where a span ends is the same, since all tokens stand at one place. -/
theorem transparent_spanFrom (start : Option Span) : Transparent place (spanFrom start)
  | [], tidy => tidy.complete.elim
  | t :: ts, tidy => by
    obtain ⟨u, us, eq, position, -⟩ := tidy.exists_strip
    have here : spanFrom start (t :: ts) = .ok (Span.reach? start place) (t :: ts) := by
      rw [← tidy.placed t List.mem_cons_self]
      rfl
    have there : spanFrom start (u :: us) = .ok (Span.reach? start place) (u :: us) := by
      rw [← position]
      rfl
    unfold TransparentAt
    rw [here, eq, there, ← eq]
    exact .ok tidy

end Parse

end ShellScript
