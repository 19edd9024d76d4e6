/-
# ShellScript.Proofs.Lexing.Lossless -- the tokens of a script are the script

The tokens of a lenient run lie in the script one after another, each exactly
where its position says, and between them there are blanks only (`Tiling`).  So
nothing is lost: `tokenize_lossless` reads off where every character went, and
that the gaps and the lexemes, put together in turn, are the script.
-/
import ShellScript.Proofs.Lexing.Basic
import ShellScript.Proofs.Lexing.Lexeme

namespace ShellScript

set_option autoImplicit false

namespace Token

/-- The offset at which a token starts; zero if it has no position. -/
def start (t : Token) : Nat := (t.position.map fun s => s.startOffset.toNat).getD 0

/-- The offset behind the last character of a token; zero if it has no position. -/
def stop (t : Token) : Nat := (t.position.map fun s => s.endOffset.toNat).getD 0

/-- A token stands from offset `i` up to offset `j`. -/
def Spans (t : Token) (i j : Nat) : Prop :=
  ∃ line column : Int, t.position = some ⟨i, j, line, column⟩

theorem Spans.start_eq {t : Token} {i j : Nat} (spans : t.Spans i j) : t.start = i := by
  obtain ⟨line, column, position⟩ := spans
  simp [start, position]

theorem Spans.stop_eq {t : Token} {i j : Nat} (spans : t.Spans i j) : t.stop = j := by
  obtain ⟨line, column, position⟩ := spans
  simp [stop, position]

/-- A token that stands for a piece of the text `whole`: at least one character,
and exactly those between its offsets. -/
structure Covers (t : Token) (whole : List Char) : Prop where
  kind_ne : t.kind ≠ .eof
  spans : t.Spans t.start t.stop
  start_lt : t.start < t.stop
  stop_le : t.stop ≤ whole.length
  lexeme_eq : t.lexeme.toList = whole.extract t.start t.stop

/-- The end mark of the text `whole`. -/
structure Ends (t : Token) (whole : List Char) : Prop where
  kind_eq : t.kind = .eof
  spans : t.Spans whole.length whole.length
  lexeme_eq : t.lexeme = ""

end Token

namespace Lexing

/-- The characters of `whole` from offset `i` up to offset `j` are blanks. -/
def Blank (whole : List Char) (i j : Nat) : Prop :=
  ∀ n (h : n < whole.length), i ≤ n → n < j → Charset.isBlank whole[n] = true

/-- The tokens lie in `whole` from offset `at` on, with blanks between them, and
the last of them is the end mark. -/
inductive Tiling (whole : List Char) : Nat → List Token → Prop
  | stop {n : Nat} {t : Token} (inside : n ≤ whole.length) (blank : Blank whole n whole.length)
      (ends : t.Ends whole) : Tiling whole n [t]
  | token {n : Nat} {t : Token} {ts : List Token} (after : n ≤ t.start)
      (blank : Blank whole n t.start) (covers : t.Covers whole)
      (others : Tiling whole t.stop ts) : Tiling whole n (t :: ts)

/-- The text between two tokens that stand at their offsets, before each of `ts`
in turn, the first piece from offset `n` on. -/
def gaps (whole : List Char) : Nat → List Token → List (List Char)
  | _, [] => []
  | n, t :: ts => whole.extract n t.start :: gaps whole t.stop ts

/-- Each gap with the lexeme after it. -/
def woven (gaps : List (List Char)) (ts : List Token) : List Char :=
  (List.zipWith (fun gap t => gap ++ t.lexeme.toList) gaps ts).flatten

/-! ## A run tiles its text -/

theorem spans_token (x : Lexeme) (here : Cursor) :
    (x.token here).Spans here.offset (here.offset + x.raw.length) :=
  ⟨here.line, here.column, by simp [Lexeme.token, Cursor.spanTo]⟩

theorem spans_endMark (here : Cursor) : (Token.endMark here).Spans here.offset here.offset :=
  ⟨here.line, here.column, rfl⟩

/-- A tiling may start earlier, at a blank. -/
theorem Tiling.blank {whole : List Char} {n : Nat} {ts : List Token} (inside : n < whole.length)
    (blank : Charset.isBlank whole[n] = true) (tiling : Tiling whole (n + 1) ts) :
    Tiling whole n ts := by
  have extend : ∀ {j}, Blank whole (n + 1) j → Blank whole n j := by
    intro j blanks m bound low high
    by_cases first : m = n
    · subst first; exact blank
    · exact blanks m bound (by omega) high
  cases tiling with
  | stop _ blanks ends => exact .stop (by omega) (extend blanks) ends
  | token after blanks covers others => exact .token (by omega) (extend blanks) covers others

/-- The token of the lexeme in front of the text left, after all of `before`. -/
theorem covers_token {before : List Char} {here : Cursor} {c : Char} {cs : List Char}
    (placed : here.offset = before.length) :
    ((Lexeme.read c cs).token here).Covers (before ++ c :: cs) := by
  have spans := spans_token (Lexeme.read c cs) here
  have split := Lexeme.read_split c cs
  have long := List.length_pos_iff.2 (Lexeme.raw_ne_nil c cs)
  refine ⟨Lexeme.kind_read_ne_eof c cs, ?_, ?_, ?_, ?_⟩
  · rw [spans.start_eq, spans.stop_eq]
    exact spans
  · rw [spans.start_eq, spans.stop_eq]
    omega
  · rw [spans.stop_eq, placed, ← split]
    simp only [List.length_append]
    omega
  · rw [spans.start_eq, spans.stop_eq, placed, ← split]
    simp [Lexeme.token, List.extract_eq_take_drop]

theorem tiling_run (before cs : List Char) (here : Cursor) (placed : here.offset = before.length) :
    Tiling (before ++ cs) before.length (run false here cs).tokens := by
  induction here, cs using run_induction generalizing before with
  | stop here =>
    rw [run_nil, List.append_nil]
    have spans := spans_endMark here
    rw [placed] at spans
    exact .stop (Nat.le_refl _) (fun n bound low high => by omega) ⟨rfl, spans, rfl⟩
  | blank here c cs blank ih =>
    rw [run_blank false blank]
    have rest := ih (before ++ [c]) (by simp [placed])
    rw [List.append_assoc, List.singleton_append, List.length_append] at rest
    exact rest.blank (by simp) (by simpa using blank)
  | lexeme here c cs solid ih =>
    rw [tokens_run_lexeme solid]
    have spans := spans_token (Lexeme.read c cs) here
    have rest := ih (before ++ (Lexeme.read c cs).raw) (by simp [placed])
    rw [List.append_assoc, Lexeme.read_split, List.length_append, ← placed, ← spans.stop_eq] at rest
    refine .token ?_ ?_ (covers_token placed) rest
    · exact Nat.le_of_eq (placed.symm.trans spans.start_eq.symm)
    · intro n bound low high
      rw [spans.start_eq, placed] at high
      omega

/-! ## What a tiling says -/

section Tiling

variable {whole : List Char} {n : Nat} {ts : List Token}

/-- All tokens but the last cover their piece of the text; the last is the end mark. -/
theorem Tiling.split (tiling : Tiling whole n ts) :
    ∃ body last, ts = body ++ [last] ∧ last.Ends whole ∧ ∀ t ∈ body, t.Covers whole := by
  induction tiling with
  | stop _ _ ends => exact ⟨[], _, rfl, ends, by simp⟩
  | @token n t ts _ _ covers _ ih =>
    obtain ⟨body, last, rfl, ends, all⟩ := ih
    refine ⟨t :: body, last, rfl, ends, ?_⟩
    intro u member
    rcases List.mem_cons.1 member with rfl | member
    · exact covers
    · exact all u member

theorem Tiling.le_start (tiling : Tiling whole n ts) : ∀ t ∈ ts, n ≤ t.start := by
  induction tiling with
  | stop inside _ ends =>
    intro t member
    rw [List.mem_singleton.1 member, ends.spans.start_eq]
    exact inside
  | @token n t ts after _ covers _ ih =>
    intro u member
    rcases List.mem_cons.1 member with rfl | member
    · exact after
    · have := ih u member
      have := covers.start_lt
      omega

theorem Tiling.ordered (tiling : Tiling whole n ts) :
    ts.Pairwise fun t u => t.start < u.start ∧ t.stop ≤ u.start := by
  induction tiling with
  | stop => exact List.pairwise_singleton _ _
  | token _ _ covers others ih =>
    refine List.pairwise_cons.2 ⟨fun u member => ?_, ih⟩
    have := others.le_start u member
    have := covers.start_lt
    omega

/-- What no token covers is blank. -/
theorem Tiling.blank_of_uncovered (tiling : Tiling whole n ts) {m : Nat} (bound : m < whole.length)
    (low : n ≤ m) (uncovered : ∀ t ∈ ts, ¬ (t.start ≤ m ∧ m < t.stop)) :
    Charset.isBlank whole[m] = true := by
  induction tiling with
  | stop _ blank => exact blank m bound low bound
  | @token n t ts _ blank _ _ ih =>
    have here := uncovered t List.mem_cons_self
    by_cases before : m < t.start
    · exact blank m bound low before
    · exact ih (by omega) fun u member => uncovered u (List.mem_cons_of_mem t member)

theorem Tiling.gaps_blank (tiling : Tiling whole n ts) :
    ∀ gap ∈ gaps whole n ts, ∀ c ∈ gap, Charset.isBlank c = true := by
  have extract : ∀ {i j : Nat}, Blank whole i j →
      ∀ c ∈ whole.extract i j, Charset.isBlank c = true := by
    intro i j blank c member
    obtain ⟨k, bound, rfl⟩ := List.getElem_of_mem member
    simp only [List.extract_eq_take_drop, List.length_take, List.length_drop] at bound
    simp only [List.extract_eq_take_drop, List.getElem_take, List.getElem_drop]
    exact blank (i + k) (by omega) (by omega) (by omega)
  induction tiling with
  | @stop n t _ blank ends =>
    intro gap member
    simp only [gaps, List.mem_singleton] at member
    rw [member, ends.spans.start_eq]
    exact extract blank
  | @token n t ts _ blank _ _ ih =>
    intro gap member
    simp only [gaps, List.mem_cons] at member
    rcases member with rfl | member
    · exact extract blank
    · exact ih gap member

theorem extract_append_drop {i j : Nat} (order : i ≤ j) (cs : List Char) :
    cs.extract i j ++ cs.drop j = cs.drop i := by
  have := List.take_append_drop (j - i) (cs.drop i)
  rwa [List.drop_drop, Nat.add_sub_cancel' order] at this

/-- The gaps and the lexemes in turn are the text from `n` on. -/
theorem Tiling.woven_gaps (tiling : Tiling whole n ts) :
    woven (gaps whole n ts) ts = whole.drop n := by
  induction tiling with
  | @stop n t inside _ ends =>
    simp only [gaps, woven, List.zipWith_cons_cons, List.zipWith_nil_right, List.flatten_cons,
      List.flatten_nil, ends.lexeme_eq, ends.spans.start_eq, List.append_nil]
    have tail := extract_append_drop inside whole
    rw [List.drop_length] at tail
    exact tail
  | @token n t ts after _ covers _ ih =>
    calc woven (gaps whole n (t :: ts)) (t :: ts)
        = whole.extract n t.start ++ (t.lexeme.toList ++ woven (gaps whole t.stop ts) ts) := by
          simp [woven, gaps]
      _ = whole.extract n t.start ++ (whole.extract t.start t.stop ++ whole.drop t.stop) := by
          rw [covers.lexeme_eq, ih]
      _ = whole.drop n := by
          rw [extract_append_drop (Nat.le_of_lt covers.start_lt), extract_append_drop after]

end Tiling

end Lexing

/-- Every token of a script has a place. -/
theorem isSome_position (source : String) :
    ∀ t ∈ (Lexing.ofScript source false).tokens, t.position.isSome = true := by
  have tiling := Lexing.tiling_run [] source.toList .start rfl
  obtain ⟨body, last, split, ends, covers⟩ := tiling.split
  intro t member
  have spans : ∃ i j, t.Spans i j := by
    rw [Lexing.ofScript, split] at member
    rcases List.mem_append.1 member with member | member
    · exact ⟨_, _, (covers t member).spans⟩
    · rw [List.mem_singleton.1 member]
      exact ⟨_, _, ends.spans⟩
  obtain ⟨i, j, line, column, position⟩ := spans
  rw [position]
  rfl

/-- **No character of a script is lost.**  The tokens stand in the script one after
another without overlap, each with exactly the characters between its offsets for
a lexeme; the end mark stands behind the last character; a character that no token
covers is a space or a tab; and the gaps with the lexemes between them are the
script again. -/
theorem tokenize_lossless (source : String) :
    ∃ body last, tokenize source false = .ok (body ++ [last]) ∧
      (∀ t ∈ body, t.Covers source.toList) ∧ last.Ends source.toList ∧
      (body ++ [last]).Pairwise (fun t u => t.start < u.start ∧ t.stop ≤ u.start) ∧
      (∀ n (inside : n < source.toList.length),
        (∀ t ∈ body, ¬ (t.start ≤ n ∧ n < t.stop)) →
          source.toList[n] = ' ' ∨ source.toList[n] = '\t') ∧
      (∀ gap ∈ Lexing.gaps source.toList 0 (body ++ [last]), ∀ c ∈ gap, c = ' ' ∨ c = '\t') ∧
      Lexing.woven (Lexing.gaps source.toList 0 (body ++ [last])) (body ++ [last]) =
        source.toList := by
  have isBlank : ∀ {c : Char}, Charset.isBlank c = true → c = ' ' ∨ c = '\t' := by
    intro c blank
    simpa [Charset.isBlank] using blank
  have tiling := Lexing.tiling_run [] source.toList .start rfl
  rw [List.nil_append] at tiling
  obtain ⟨body, last, eq, ends, covers⟩ := tiling.split
  rw [eq] at tiling
  refine ⟨body, last, ?_, covers, ends, tiling.ordered, ?_, ?_, tiling.woven_gaps⟩
  · rw [tokenize, Lexing.result, Lexing.ofScript, Lexing.failure_run_lenient]
    exact congrArg Except.ok eq
  · intro n inside uncovered
    refine isBlank (tiling.blank_of_uncovered inside (Nat.zero_le n) fun t member => ?_)
    rcases List.mem_append.1 member with member | member
    · exact uncovered t member
    · rw [List.mem_singleton.1 member, ends.spans.start_eq]
      omega
  · exact fun gap member c inGap => isBlank (tiling.gaps_blank gap member c inGap)

end ShellScript
