/-
# ShellScript.Proofs.Lexing.Spacing -- what stands between the tokens

The gaps and the tokens of a script follow its run: a blank goes to the gap in front of the
next token, and a lexeme is the next token (`Spaced`).  So what is written with the same
tokens and other gaps (`Respaced`), or without the comments (`uncommented`), is run over in
the same steps.

A closed lexeme is read again if what stands behind it now ends it (`Lexeme.rereads_read`).
Blanks end every lexeme but a comment, and where a comment is missing the line ends, or the
text.
-/
import ShellScript.Proofs.Lexing.Reread
import ShellScript.Proofs.Motion
import ShellScript.Proofs.Tree.Unplaced

namespace ShellScript.Lexing

set_option autoImplicit false

/-! ## Gaps along a run -/

/-- The gaps and the tokens of a text, in the steps of its run. -/
inductive Spaced : Cursor → List Char → List (List Char) → List Token → Prop
  | stop {here : Cursor} : Spaced here [] [[]] [Token.endMark here]
  | blank {here : Cursor} {c : Char} {cs gap : List Char} {gaps : List (List Char)}
      {t : Token} {ts : List Token} (blank : Charset.isBlank c = true)
      (others : Spaced (here.step c) cs (gap :: gaps) (t :: ts)) :
      Spaced here (c :: cs) ((c :: gap) :: gaps) (t :: ts)
  | lexeme {here : Cursor} {c : Char} {cs : List Char} {gaps : List (List Char)}
      {ts : List Token} (solid : Charset.isBlank c = false)
      (others : Spaced (here.advance (Lexeme.read c cs).raw) (Lexeme.read c cs).rest gaps ts) :
      Spaced here (c :: cs) ([] :: gaps) ((Lexeme.read c cs).token here :: ts)

theorem extract_cons {before cs : List Char} {c : Char} {j : Nat} (low : before.length < j) :
    (before ++ c :: cs).extract before.length j =
      c :: (before ++ c :: cs).extract (before.length + 1) j := by
  have here : (before ++ c :: cs).drop before.length = c :: cs := List.drop_left
  have next : (before ++ c :: cs).drop (before.length + 1) = cs := by simp [List.drop_append]
  have width : j - before.length = (j - (before.length + 1)) + 1 := by omega
  rw [List.extract_eq_take_drop, List.extract_eq_take_drop, here, next, width, List.take_succ_cons]

theorem spaced_run (before cs : List Char) (here : Cursor) (placed : here.offset = before.length) :
    Spaced here cs (gaps (before ++ cs) before.length (run false here cs).tokens)
      (run false here cs).tokens := by
  induction here, cs using run_induction generalizing before with
  | stop here =>
    have empty : before.extract before.length before.length = [] := by simp
    rw [run_nil, List.append_nil, gaps, gaps, (spans_endMark here).start_eq, placed, empty]
    exact .stop
  | blank here c cs blank ih =>
    have others := ih (before ++ [c]) (by simp [placed])
    have inside := tiling_run (before ++ [c]) cs (here.step c) (by simp [placed])
    rw [List.append_assoc, List.singleton_append, List.length_append] at others inside
    rw [run_blank false blank]
    cases tokens : (run false (here.step c) cs).tokens with
    | nil =>
      rw [tokens] at inside
      cases inside
    | cons t ts =>
      rw [tokens] at others inside
      have low := inside.le_start t List.mem_cons_self
      rw [gaps, extract_cons low]
      exact .blank blank others
  | lexeme here c cs solid ih =>
    have spans := spans_token (Lexeme.read c cs) here
    have others := ih (before ++ (Lexeme.read c cs).raw) (by simp [placed])
    rw [List.append_assoc, Lexeme.read_split, List.length_append, ← placed, ← spans.stop_eq]
      at others
    have empty : (before ++ c :: cs).extract before.length before.length = [] := by simp
    rw [tokens_run_lexeme solid, gaps, spans.start_eq, placed, empty]
    exact .lexeme solid others

/-- The gaps and the tokens of a script. -/
theorem spaced_ofScript (source : String) :
    Spaced .start source.toList (gaps source.toList 0 (ofScript source false).tokens)
      (ofScript source false).tokens := by
  have spaced := spaced_run [] source.toList .start rfl
  rwa [List.nil_append] at spaced

variable {here : Cursor} {cs : List Char} {gaps gaps' : List (List Char)} {ts : List Token}

theorem toList_lexeme (x : Lexeme) (here : Cursor) : (x.token here).lexeme.toList = x.raw :=
  String.toList_ofList

/-- Blanks in front of a text give nothing. -/
theorem run_blanks (strict : Bool) {gap : List Char} (blank : ∀ c ∈ gap, Charset.isBlank c = true)
    (here : Cursor) (cs : List Char) :
    run strict here (gap ++ cs) = run strict (here.advance gap) cs := by
  induction gap generalizing here with
  | nil => rfl
  | cons c gap ih =>
    obtain ⟨first, others⟩ := List.forall_mem_cons.1 blank
    rw [List.cons_append, run_blank strict first, ih others, Cursor.advance_cons]

theorem woven_cons (gap : List Char) (gaps : List (List Char)) (t : Token) (ts : List Token) :
    woven (gap :: gaps) (t :: ts) = gap ++ (t.lexeme.toList ++ woven gaps ts) := by
  simp [woven]

/-! ## Other gaps -/

/-- Other gaps in front of the same tokens, behind a token of kind `k` if there is one: blanks,
and some where there were some, but none behind a comment. -/
inductive Respaced : Option Kind → List (List Char) → List Token → List (List Char) → Prop
  | nil {k : Option Kind} : Respaced k [] [] []
  | cons {k : Option Kind} {gap gap' : List Char} {gaps gaps' : List (List Char)} {t : Token}
      {ts : List Token} (blank : ∀ c ∈ gap', Charset.isBlank c = true)
      (solid : gap ≠ [] → gap' ≠ []) (plain : k = some .comment → gap' = [])
      (others : Respaced (some t.kind) gaps ts gaps') :
      Respaced k (gap :: gaps) (t :: ts) (gap' :: gaps')

/-- Whether gaps are such others can be tested. -/
instance decidableRespaced : (k : Option Kind) → (gaps : List (List Char)) → (ts : List Token) →
    (gaps' : List (List Char)) → Decidable (Respaced k gaps ts gaps')
  | _, [], [], [] => .isTrue .nil
  | k, gap :: gaps, t :: ts, gap' :: gaps' =>
      have := decidableRespaced (some t.kind) gaps ts gaps'
      decidable_of_iff (gap'.all Charset.isBlank = true ∧ (gap ≠ [] → gap' ≠ []) ∧
        (k = some .comment → gap' = []) ∧ Respaced (some t.kind) gaps ts gaps')
        ⟨fun ⟨blank, solid, plain, others⟩ => .cons (List.all_eq_true.1 blank) solid plain others,
          fun | .cons blank solid plain others => ⟨List.all_eq_true.2 blank, solid, plain, others⟩⟩
  | _, _ :: _, [], _ => .isFalse nofun
  | _, [], _ :: _, _ => .isFalse nofun
  | _, [], [], _ :: _ => .isFalse nofun
  | _, _ :: _, _ :: _, [] => .isFalse nofun

/-- Where less is in a gap, no more must be. -/
theorem Respaced.fewer {k : Option Kind} {c : Char} {gap : List Char}
    (respaced : Respaced k ((c :: gap) :: gaps) ts gaps') : Respaced k (gap :: gaps) ts gaps' := by
  cases respaced with
  | cons blank solid plain others =>
    exact .cons blank (fun _ => solid (List.cons_ne_nil c gap)) plain others

/-- What stands behind a lexeme now ends it. -/
theorem Respaced.endsAt {x : Lexeme} (respaced : Respaced (some x.kind) gaps ts gaps')
    (spaced : Spaced here x.rest gaps ts) : x.EndsAt (woven gaps' ts).head? := by
  cases respaced with
  | nil => exact Or.inr (Or.inl (by simp [woven]))
  | @cons _ gap gap' gaps gaps' t ts blank solid plain others =>
    rw [woven_cons]
    cases gap' with
    | cons d gap' =>
      have here : d = ' ' ∨ d = '\t' := by simpa [Charset.isBlank] using blank d List.mem_cons_self
      have code : x.kind ≠ .comment := fun comment =>
        List.cons_ne_nil d gap' (plain (congrArg some comment))
      exact Or.inr (Or.inr ⟨by simpa using here, code⟩)
    | nil =>
      generalize left : x.rest = rest at spaced
      cases spaced with
      | stop =>
        cases others
        exact Or.inl (by rw [left]; rfl)
      | blank => exact absurd rfl (solid (List.cons_ne_nil _ _))
      | @lexeme _ c cs _ _ _ _ =>
        obtain ⟨w, raw⟩ := Lexeme.exists_raw c cs
        exact Or.inl (by rw [left]; simp [toList_lexeme, raw])

/-- **The tokens of a text do not depend on its gaps.** -/
theorem run_respaced {k : Option Kind} (spaced : Spaced here cs gaps ts)
    (quiet : (run false here cs).warnings = []) (respaced : Respaced k gaps ts gaps')
    (there : Cursor) :
    (run false there (woven gaps' ts)).tokens.map Token.look = ts.map Token.look ∧
      (run false there (woven gaps' ts)).warnings = [] := by
  induction spaced generalizing k gaps' there with
  | @stop here =>
    cases respaced with
    | @cons _ _ gap' _ _ _ _ blank _ _ others =>
      cases others
      have written : woven [gap'] [Token.endMark here] = gap' ++ [] := by
        simp [woven, Token.endMark]
      rw [written, run_blanks false blank, run_nil]
      exact ⟨rfl, rfl⟩
  | blank blank _ ih =>
    rw [run_blank false blank] at quiet
    exact ih quiet respaced.fewer there
  | @lexeme here c cs gaps ts solid others ih =>
    obtain ⟨closed, quiet⟩ := closed_of_quiet solid quiet
    cases respaced with
    | @cons _ _ gap' _ gaps' _ _ blank _ _ behind =>
      obtain ⟨w, raw, again⟩ := Lexeme.rereads_read c cs closed _ (behind.endsAt others)
      obtain ⟨tokens, silent⟩ := ih quiet behind
        ((there.advance gap').advance (Lexeme.read c cs).raw)
      rw [woven_cons, run_blanks false blank, toList_lexeme, raw, List.cons_append,
        tokens_run_lexeme solid, warnings_run_lexeme solid, again, closed]
      exact ⟨congrArg (List.cons _) tokens, silent⟩

/-! ## No comments -/

/-- Each gap with the lexeme after it, unless that is a comment. -/
def uncommented (gaps : List (List Char)) (ts : List Token) : List Char :=
  (List.zipWith (fun gap t => if t.kind = .comment then gap else gap ++ t.lexeme.toList)
    gaps ts).flatten

theorem uncommented_cons (gap : List Char) (gaps : List (List Char)) (t : Token) (ts : List Token) :
    uncommented (gap :: gaps) (t :: ts) =
      gap ++ ((if t.kind = .comment then [] else t.lexeme.toList) ++ uncommented gaps ts) := by
  by_cases comment : t.kind = .comment
  · simp [uncommented, comment]
  · simp [uncommented, comment]

/-- Nothing is written of an end mark. -/
theorem uncommented_endMark (here : Cursor) : uncommented [[]] [Token.endMark here] = [] := rfl

/-- Without the comments, what stands behind a lexeme still ends it: for a comment there is
the end of its line. -/
theorem Spaced.endsAt {x : Lexeme} (spaced : Spaced here x.rest gaps ts) :
    x.EndsAt (uncommented gaps ts).head? := by
  generalize left : x.rest = rest at spaced
  cases spaced with
  | stop => exact Or.inl (by rw [left]; rfl)
  | blank => exact Or.inl (by rw [left, uncommented_cons]; rfl)
  | @lexeme _ c cs gaps ts _ others =>
    rw [uncommented_cons, List.nil_append]
    by_cases comment : ((Lexeme.read c cs).token here).kind = .comment
    · rw [if_pos comment, List.nil_append]
      obtain ⟨-, eq⟩ := Lexeme.comment_of_kind comment
      have feed : ∀ d ∈ (Lexeme.read c cs).rest.head?, d = '\n' := by
        intro d head
        rw [eq] at head
        simpa using stop_of_head (p := (· != '\n')) head
      generalize (Lexeme.read c cs).rest = rest at others feed
      cases others with
      | stop => exact Or.inr (Or.inl List.mem_cons_self)
      | @blank _ d _ _ _ _ _ blank =>
        obtain rfl := feed d rfl
        cases blank
      | @lexeme _ d ds =>
        obtain rfl := feed d rfl
        refine Or.inr (Or.inl ?_)
        rw [uncommented_cons, if_neg (show ¬ ((Lexeme.read '\n' ds).token _).kind = .comment from
          Kind.noConfusion)]
        obtain ⟨w, raw⟩ := Lexeme.exists_raw '\n' ds
        simp [toList_lexeme, raw]
    · rw [if_neg comment]
      obtain ⟨w, raw⟩ := Lexeme.exists_raw c cs
      exact Or.inl (by rw [left]; simp [toList_lexeme, raw])

/-- A lexeme is read again without the comments behind it. -/
theorem Spaced.read_again {c : Char} (spaced : Spaced here (Lexeme.read c cs).rest gaps ts) :
    ∃ w, (Lexeme.read c cs).raw = c :: w ∧ Lexeme.read c (w ++ uncommented gaps ts) =
      { Lexeme.read c cs with rest := uncommented gaps ts } := by
  by_cases unclosed : (Lexeme.read c cs).unclosed = none
  · exact Lexeme.rereads_read c cs unclosed _ spaced.endsAt
  · obtain ⟨delimiter, unclosed⟩ := Option.ne_none_iff_exists'.1 unclosed
    -- what is left open runs to the end, so nothing stands behind it
    have left := Lexeme.rest_eq_nil_of_unclosed unclosed
    obtain ⟨w, raw⟩ := Lexeme.exists_raw c cs
    have split := Lexeme.read_split c cs
    rw [left] at spaced
    cases spaced
    rw [raw, left, List.append_nil] at split
    obtain rfl := (List.cons.inj split).2
    refine ⟨w, raw, ?_⟩
    rw [uncommented_endMark, List.append_nil, ← left]

/-- **The tokens of a text without its comments are its other tokens**, and the same
delimiters are left open. -/
theorem run_uncommented (spaced : Spaced here cs gaps ts) (there : Cursor) :
    (run false there (uncommented gaps ts)).tokens.map Token.look =
        (ts.filter fun t => t.kind ≠ .comment).map Token.look ∧
      (run false there (uncommented gaps ts)).warnings.map Diagnostic.unplaced =
        (run false here cs).warnings.map Diagnostic.unplaced := by
  induction spaced generalizing there with
  | stop =>
    rw [uncommented_endMark, run_nil, run_nil]
    exact ⟨rfl, rfl⟩
  | @blank here c cs gap gaps t ts blank _ ih =>
    have written : uncommented ((c :: gap) :: gaps) (t :: ts) =
        c :: uncommented (gap :: gaps) (t :: ts) := by
      rw [uncommented_cons, uncommented_cons, List.cons_append]
    rw [written, run_blank false blank, run_blank false blank]
    exact ih (there.step c)
  | @lexeme here c cs gaps ts solid others ih =>
    rw [uncommented_cons, List.nil_append, warnings_run_lexeme solid]
    by_cases comment : ((Lexeme.read c cs).token here).kind = .comment
    · obtain ⟨-, eq⟩ := Lexeme.comment_of_kind comment
      have closed : (Lexeme.read c cs).unclosed = none := by rw [eq]; rfl
      rw [if_pos comment, List.filter_cons_of_neg (by simpa using comment), closed]
      exact ih there
    · obtain ⟨w, raw, again⟩ := others.read_again
      obtain ⟨tokens, warnings⟩ := ih (there.advance (Lexeme.read c cs).raw)
      rw [if_neg comment, List.filter_cons_of_pos (by simpa using comment), toList_lexeme,
        raw, List.cons_append, tokens_run_lexeme solid, warnings_run_lexeme solid, again]
      refine ⟨congrArg (List.cons _) tokens, ?_⟩
      rw [List.map_append, List.map_append, ← raw, warnings]
      congr 1
      cases (Lexeme.read c cs).unclosed with
      | none => rfl
      | some delimiter => exact congrArg (fun d => [d]) (delimiter.unplaced_report _ _ _)

end ShellScript.Lexing
