/-
# ShellScript.Proofs.Lexing.Reread -- a lexeme depends on one character behind it

What a closed lexeme is, its own characters decide and the one behind them.  So where the
text behind it is replaced by one that starts with the same character, or with one that ends
every lexeme, the same lexeme is read again (`Lexeme.rereads_read`).

A text may therefore be cut in front of any of its tokens and go on otherwise: the tokens in
front stay as they are (`Lexing.run_cut`).
-/
import Mathlib.Data.List.TakeWhile
import ShellScript.Proofs.Lexing.Lossless

namespace ShellScript

set_option autoImplicit false

/-! ## Runs of characters -/

/-- The character in front of which a run ends does not belong to it. -/
theorem stop_of_head {p : Char → Bool} {cs : List Char} {d : Char}
    (head : (cs.dropWhile p).head? = some d) : p d = false := by
  have stop := List.head?_dropWhile_not p cs
  rw [head] at stop
  exact stop

/-- A run of characters ends at the same place in front of another text, if that does not go
on with it. -/
theorem span_again (p : Char → Bool) (cs : List Char) {ds : List Char}
    (stop : ∀ d ∈ ds.head?, p d = false) :
    (cs.takeWhile p ++ ds).takeWhile p = cs.takeWhile p ∧
      (cs.takeWhile p ++ ds).dropWhile p = ds := by
  have run : ∀ c ∈ cs.takeWhile p, p c = true := fun _ member => List.mem_takeWhile_imp member
  cases ds with
  | nil =>
    rw [List.append_nil]
    exact ⟨List.takeWhile_eq_self_iff.2 run, List.dropWhile_eq_nil_iff.2 run⟩
  | cons d ds => exact span_stop run (stop d rfl) ds

namespace Lexeme

/-- A text that starts with `d`, or is empty, ends the lexeme: it ended there before, or this
ends any lexeme.  A blank does not end a comment. -/
def EndsAt (x : Lexeme) (d : Option Char) : Prop :=
  x.rest.head? = d ∨ d ∈ [none, some '\n'] ∨ (d ∈ [some ' ', some '\t'] ∧ x.kind ≠ .comment)

/-- After `c`, a closed lexeme is read again where other text stands behind it that ends it. -/
def Rereads (c : Char) (f : List Char → Lexeme) : Prop :=
  ∀ cs, (f cs).unclosed = none → ∀ ds, (f cs).EndsAt ds.head? → ∃ w,
    (f cs).raw = c :: w ∧ f (w ++ ds) = { f cs with rest := ds }

/-- Characters that belong to no lexeme with others, but to a comment or a string. -/
def looseEnds : List Char := ['\n', ' ', '\t']

theorem EndsAt.loose {x : Lexeme} {d : Option Char} (ends : x.EndsAt d) :
    x.rest.head? = d ∨ ∀ c ∈ d, c ∈ looseEnds := by
  refine ends.imp_right ?_
  rintro (feed | ⟨blank, -⟩) c rfl
  · obtain rfl : c = '\n' := by simpa using feed
    exact List.mem_cons_self
  · exact List.mem_cons_of_mem '\n' (by simpa using blank)

theorem EndsAt.stop {x : Lexeme} {p : Char → Bool} {cs : List Char} {d : Option Char}
    (ends : x.EndsAt d) (left : x.rest = cs.dropWhile p)
    (loose : looseEnds.any p = false) : ∀ c ∈ d, p c = false := by
  intro c member
  rcases ends.loose with same | others
  · exact stop_of_head (left ▸ same.trans member)
  · exact Bool.eq_false_iff.2 (List.any_eq_false.1 loose c (others c member))

theorem rereads_plain {c : Char} {k : Kind} : Rereads c (plain k [c]) :=
  fun _ _ _ _ => ⟨[], rfl, rfl⟩

theorem rereads_comment : Rereads '#' comment := by
  intro cs _ ds ends
  have stop : ∀ d ∈ ds.head?, (d != '\n') = false := by
    rcases ends with same | others | ⟨-, plain⟩
    · exact fun d head => stop_of_head (p := (· != '\n')) (same.trans head)
    · intro d head
      rw [head] at others
      obtain rfl : d = '\n' := by simpa using others
      rfl
    · exact absurd rfl plain
  obtain ⟨text, left⟩ := span_again (· != '\n') cs stop
  exact ⟨_, rfl, by simp only [comment, text, left]⟩

theorem rereads_word {c : Char} : Rereads c (word c) := by
  intro cs _ ds ends
  obtain ⟨run, left⟩ := span_again Charset.isWord cs (ends.stop rfl (by decide))
  exact ⟨_, rfl, by simp only [word, run, left]; rfl⟩

theorem rereads_operator {c : Char} {single : Kind} : Rereads c (operator c single) := by
  have alone {ds : List Char}
      (none_found : ∀ d ∈ ds.head?, Kind.doubleOperators.lookup (c, d) = none) :
      operator c single ds = plain single [c] ds := by
    cases ds with
    | nil => rfl
    | cons d ds => simp only [operator, none_found d rfl]
  have loose : ∀ e ∈ looseEnds, Kind.doubleOperators.lookup (c, e) = none := by
    have solid : ∀ entry ∈ Kind.doubleOperators, entry.1.2 ∉ looseEnds := by decide
    intro e others
    cases found : Kind.doubleOperators.lookup (c, e) with
    | none => rfl
    | some double => exact absurd others (solid _ (mem_of_lookup found))
  rintro (_ | ⟨e, es⟩) - ds ends
  · refine ⟨[], rfl, alone ?_⟩
    rcases ends.loose with same | others
    · rintro d head
      cases same.trans head
    · exact fun d head => loose d (others d head)
  cases found : Kind.doubleOperators.lookup (c, e) with
  | none =>
    have here : operator c single (e :: es) = plain single [c] (e :: es) :=
      alone (by simpa using found)
    rw [here] at ends ⊢
    refine ⟨[], rfl, alone ?_⟩
    rcases ends.loose with same | others
    · rintro d head
      obtain rfl := Option.some.inj (same.trans head)
      exact found
    · exact fun d head => loose d (others d head)
  | some double =>
    have pair (rest : List Char) :
        operator c single (e :: rest) = plain double [c, e] rest := by
      simp only [operator, found]
    rw [pair es]
    exact ⟨[e], rfl, pair ds⟩

/-- What is closed is read again whatever stands behind it. -/
theorem inside_again {mark : Char} (other : mark ≠ '\\') {cs : List Char}
    (closed : (inside mark cs).closed = true) (ds : List Char) :
    inside mark ((inside mark cs).raw ++ ds) = { inside mark cs with rest := ds } := by
  fun_induction inside mark cs with
  | case1 => cases closed
  | case2 => cases closed
  | case3 c cs ih =>
    simp only [Inside.prepend, List.cons_append, List.nil_append, inside, ih closed]
  | case4 cs => rw [List.cons_append, inside_cons other, if_pos rfl, List.nil_append]
  | case5 c cs lone escape differs ih =>
    have plain : c ≠ '\\' := by
      rintro rfl
      cases cs with
      | nil => exact lone rfl rfl
      | cons d ds => exact escape d ds rfl rfl
    simp only [Inside.prepend, List.cons_append, List.nil_append, inside_cons plain, if_neg differs,
      ih closed]

theorem rereads_quotedString {mark : Char} (other : mark ≠ '\\') :
    Rereads mark (quotedString mark) := by
  intro cs closed ds _
  have shut : (inside mark cs).closed = true := by
    cases open_ : (inside mark cs).closed with
    | true => rfl
    | false => simp [quotedString, open_] at closed
  exact ⟨_, rfl, by simp only [quotedString, inside_again other shut]⟩

/-- A name in braces is read again whatever stands behind it. -/
theorem bracedReference_again {cs : List Char} (closed : (bracedReference cs).unclosed = none)
    (ds : List Char) : ∃ w, (bracedReference cs).raw = '$' :: '\x7b' :: w ∧
      bracedReference (w ++ ds) = { bracedReference cs with rest := ds } := by
  cases left : cs.dropWhile (· != '\x7d') with
  | nil => simp [bracedReference, left] at closed
  | cons close rest =>
    have shut : (close != '\x7d') = false := stop_of_head (p := (· != '\x7d')) (by rw [left]; rfl)
    have stops : ∀ d ∈ (close :: ds).head?, (d != '\x7d') = false := by simpa using shut
    obtain ⟨name, behind⟩ := span_again (· != '\x7d') cs stops
    refine ⟨cs.takeWhile (· != '\x7d') ++ [close], by simp only [bracedReference, left], ?_⟩
    simp only [bracedReference, List.append_assoc, List.cons_append, List.nil_append, name, behind,
      left]

theorem rereads_reference : Rereads '$' reference := by
  have bare {cs : List Char} (plain : cs.head? ≠ some '\x7b') : reference cs =
      ⟨.reference, cs.takeWhile Charset.isWord, '$' :: cs.takeWhile Charset.isWord,
        cs.dropWhile Charset.isWord, none⟩ := by
    cases cs with
    | nil => rfl
    | cons c cs =>
      have other : c ≠ '\x7b' := fun brace => plain (congrArg some brace)
      simp only [reference, if_neg other]
  intro cs closed ds ends
  by_cases brace : cs.head? = some '\x7b'
  · obtain ⟨cs, rfl⟩ := List.head?_eq_some_iff.1 brace
    simp only [reference, if_true] at closed ⊢
    obtain ⟨w, raw, again⟩ := bracedReference_again closed ds
    exact ⟨'\x7b' :: w, raw, by simp only [List.cons_append, if_true, again]⟩
  · rw [bare brace] at ends ⊢
    obtain ⟨name, behind⟩ := span_again Charset.isWord cs (ends.stop rfl (by decide))
    refine ⟨_, rfl, ?_⟩
    have plain : (cs.takeWhile Charset.isWord ++ ds).head? ≠ some '\x7b' := by
      cases run : cs.takeWhile Charset.isWord with
      | nil =>
        have whole := List.takeWhile_append_dropWhile (p := Charset.isWord) (l := cs)
        rw [run, List.nil_append] at whole
        rw [List.nil_append]
        rcases ends.loose with same | others
        · rw [← same]
          exact whole.symm ▸ brace
        · intro head
          exact absurd (others _ head) (by decide)
      | cons c w =>
        have word : Charset.isWord c = true :=
          List.mem_takeWhile_imp (run ▸ List.mem_cons_self : c ∈ cs.takeWhile Charset.isWord)
        rintro ⟨⟩
        cases word
    rw [bare plain, name, behind]

/-- **A closed lexeme depends on one character behind it.** -/
theorem rereads_read (c : Char) : Rereads c (read c) := by
  by_cases hash : c = '#'
  · subst hash
    exact rereads_comment
  by_cases feed : c = '\n'
  · subst feed
    exact rereads_plain
  cases op : Kind.operators.lookup c with
  | some single =>
    have same : read c = operator c single := by
      funext cs
      simp only [read, if_neg hash, if_neg feed, op]
    rw [same]
    exact rereads_operator
  | none =>
    by_cases quote : Charset.isQuote c = true
    · have same : read c = quotedString c := by
        funext cs
        simp only [read, if_neg hash, if_neg feed, op, if_pos quote]
      rw [same]
      refine rereads_quotedString ?_
      rintro rfl
      cases quote
    by_cases dollar : c = '$'
    · subst dollar
      exact rereads_reference
    by_cases isWord : Charset.isWord c = true
    · have same : read c = word c := by
        funext cs
        simp only [read, if_neg hash, if_neg feed, op, if_neg quote, if_neg dollar, if_pos isWord]
      rw [same]
      exact rereads_word
    · have same : read c = plain .word [c] := by
        funext cs
        simp only [read, if_neg hash, if_neg feed, op, if_neg quote, if_neg dollar, if_neg isWord]
      rw [same]
      exact rereads_plain

end Lexeme

/-! ## A text cut in front of a token -/

namespace Lexing

/-- The character `d` may stand behind the tokens `us` and touch none of them. -/
def Clear (us : List Token) (d : Char) : Prop :=
  d = '\n' ∨ (d = ' ' ∧ ∀ u ∈ us.getLast?, u.kind ≠ .comment)

theorem Clear.tail {u : Token} {us : List Token} {d : Char} (clear : Clear (u :: us) d) :
    Clear us d := by
  refine clear.imp_right fun ⟨space, plain⟩ => ⟨space, fun v last => plain v ?_⟩
  rw [List.getLast?_cons, last]
  rfl

/-- Behind a lexeme stands what stood there, or the new text at once: it ends there. -/
theorem Clear.endsAt {x : Lexeme} {here : Cursor} {us : List Token} {xs ys : List Char} {d : Char}
    (clear : Clear (x.token here :: us) d) (left : x.rest = xs ++ ys) (bare : xs = [] → us = [])
    (ds : List Char) : x.EndsAt (xs ++ d :: ds).head? := by
  cases xs with
  | nil =>
    rw [bare rfl] at clear
    rcases clear with rfl | ⟨rfl, plain⟩
    · exact Or.inr (Or.inl (by simp))
    · exact Or.inr (Or.inr ⟨by simp, plain _ rfl⟩)
  | cons x xs => exact Or.inl (by rw [left]; rfl)

/-- **A text may go on otherwise from any of its tokens.**  The tokens in front are the same
where it does. -/
theorem run_cut (here : Cursor) (cs : List Char) {us vs : List Token} {t : Token}
    (quiet : (run false here cs).warnings = [])
    (tokens : (run false here cs).tokens = us ++ t :: vs) :
    ∃ xs ys, cs = xs ++ ys ∧ (xs = [] → us = []) ∧ t.start = (here.advance xs).offset ∧
      ∀ d, Clear us d → ∀ ds,
        (run false here (xs ++ d :: ds)).tokens =
            us ++ (run false (here.advance xs) (d :: ds)).tokens ∧
          (run false here (xs ++ d :: ds)).warnings =
            (run false (here.advance xs) (d :: ds)).warnings := by
  induction here, cs using run_induction generalizing us with
  | stop here =>
    rw [run_nil] at tokens
    obtain ⟨rfl, rfl⟩ : us = [] ∧ Token.endMark here = t := by
      cases us with
      | nil => exact ⟨rfl, (List.cons.inj tokens).1⟩
      | cons u us => simp at tokens
    exact ⟨[], [], rfl, fun _ => rfl, (spans_endMark here).start_eq, fun _ _ _ => ⟨rfl, rfl⟩⟩
  | blank here c cs blank ih =>
    rw [run_blank false blank] at quiet tokens
    obtain ⟨xs, ys, rfl, -, start, goes_on⟩ := ih quiet tokens
    refine ⟨c :: xs, ys, rfl, nofun, start, fun d clear ds => ?_⟩
    rw [List.cons_append, run_blank false blank]
    exact goes_on d clear ds
  | lexeme here c cs solid ih =>
    obtain ⟨closed, quiet⟩ := closed_of_quiet solid quiet
    rw [tokens_run_lexeme solid] at tokens
    cases us with
    | nil =>
      obtain ⟨rfl, -⟩ := List.cons.inj tokens
      exact ⟨[], c :: cs, rfl, fun _ => rfl, (spans_token _ here).start_eq,
        fun _ _ _ => ⟨rfl, rfl⟩⟩
    | cons u us =>
      obtain ⟨rfl, others⟩ := List.cons.inj tokens
      obtain ⟨xs, ys, left, bare, start, goes_on⟩ := ih quiet others
      refine ⟨(Lexeme.read c cs).raw ++ xs, ys, ?_, ?_, ?_, fun d clear ds => ?_⟩
      · rw [List.append_assoc, ← left, Lexeme.read_split]
      · intro empty
        exact absurd (List.append_eq_nil_iff.1 empty).1 (Lexeme.raw_ne_nil c cs)
      · rw [start, Cursor.advance_append]
      obtain ⟨w, raw, again⟩ := Lexeme.rereads_read c cs closed _ (clear.endsAt left bare ds)
      rw [Cursor.advance_append, List.append_assoc]
      rw [raw, List.cons_append, tokens_run_lexeme solid, warnings_run_lexeme solid, again, closed]
      obtain ⟨tokens', quiet'⟩ := goes_on d clear.tail ds
      rw [← raw]
      exact ⟨congrArg (List.cons _) tokens', quiet'⟩

end Lexing

end ShellScript
