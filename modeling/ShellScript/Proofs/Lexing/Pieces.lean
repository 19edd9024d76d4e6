/-
# ShellScript.Proofs.Lexing.Pieces -- texts whose tokens are known

`Lexes F cs P` says that the text `cs` gives tokens of which `P` holds, with nothing
to warn of, in front of every text that `F` allows.  A run of word characters, for
one, must not stand in front of more of them; so a word that is written is followed
by a blank, a line feed or a parenthesis (`Breaks`).
-/
import ShellScript.Proofs.Lexing.Basic
import ShellScript.Proofs.Print
import ShellScript.Proofs.Tree.WellFormed

namespace ShellScript

set_option autoImplicit false

namespace Lexing

variable {F G : List Char → Prop} {cs ds : List Char} {P Q : List Token → Prop}

/-- The text `cs` gives tokens as `P` says, in front of any text that `F` allows. -/
def Lexes (F : List Char → Prop) (cs : List Char) (P : List Token → Prop) : Prop :=
  ∀ here rest, F rest → ∃ ws stop, P ws ∧
    (run false here (cs ++ rest)).tokens = ws ++ (run false stop rest).tokens ∧
    (run false here (cs ++ rest)).warnings = (run false stop rest).warnings

/-- A text that no word goes on into. -/
def Breaks (rest : List Char) : Prop :=
  ∃ c cs, rest = c :: cs ∧ (c = ' ' ∨ c = '\n' ∨ c = '(' ∨ c = ')')

/-- Any text at all. -/
def Anything (_ : List Char) : Prop := True

/-- One token, of which kind, text and spelling are known. -/
def Single (kind : Kind) (text lexeme : String) (ws : List Token) : Prop :=
  ∃ t : Token, ws = [t] ∧ t.kind = kind ∧ t.text = text ∧ t.lexeme = lexeme

/-- Tokens of one sort and then tokens of another. -/
def Both (P Q : List Token → Prop) (ws : List Token) : Prop :=
  ∃ us vs, ws = us ++ vs ∧ P us ∧ Q vs

/-- Tokens of one sort, a line feed, and then tokens of another. -/
def Lined (P Q : List Token → Prop) (ws : List Token) : Prop :=
  ∃ us t vs, ws = us ++ t :: vs ∧ P us ∧ t.kind = .newline ∧ Q vs

namespace Lexes

theorem mono (h : Lexes F cs P) (weaker : ∀ ws, P ws → Q ws) : Lexes F cs Q := by
  intro here rest follow
  obtain ⟨ws, stop, found, tokens, quiet⟩ := h here rest follow
  exact ⟨ws, stop, weaker ws found, tokens, quiet⟩

theorem nil (h : P []) : Lexes F [] P :=
  fun here _ _ => ⟨[], here, h, rfl, rfl⟩

theorem append (first : Lexes F cs P) (second : Lexes G ds Q)
    (follow : ∀ rest, G rest → F (ds ++ rest)) : Lexes G (cs ++ ds) (Both P Q) := by
  intro here rest allowed
  obtain ⟨us, mid, left, tokens, quiet⟩ := first here (ds ++ rest) (follow rest allowed)
  obtain ⟨vs, stop, right, tokens', quiet'⟩ := second mid rest allowed
  refine ⟨us ++ vs, stop, ⟨us, vs, rfl, left, right⟩, ?_, ?_⟩
  · rw [List.append_assoc, tokens, tokens', List.append_assoc]
  · rw [List.append_assoc, quiet, quiet']

/-- A space in front gives no token. -/
theorem space (h : Lexes F cs P) : Lexes F (' ' :: cs) P := by
  intro here rest follow
  obtain ⟨ws, stop, found, tokens, quiet⟩ := h (here.step ' ') rest follow
  refine ⟨ws, stop, found, ?_, ?_⟩
  · rw [List.cons_append, run_blank false rfl, tokens]
  · rw [List.cons_append, run_blank false rfl, quiet]

/-- A text that is one lexeme. -/
theorem lexeme {kind : Kind} {text raw : List Char}
    (read : ∀ rest, F rest → ∃ c cs, raw ++ rest = c :: cs ∧ Charset.isBlank c = false ∧
      Lexeme.read c cs = ⟨kind, text, raw, rest, none⟩) :
    Lexes F raw (Single kind (String.ofList text) (String.ofList raw)) := by
  intro here rest follow
  obtain ⟨c, cs, split, solid, found⟩ := read rest follow
  refine ⟨[(Lexeme.read c cs).token here], here.advance raw, ?_, ?_, ?_⟩
  · rw [found]
    exact ⟨_, rfl, rfl, rfl, rfl⟩
  · rw [split, tokens_run_lexeme solid, found]
    rfl
  · rw [split, warnings_run_lexeme solid, found]
    rfl

end Lexes

/-! ## Words -/

theorem Breaks.isWord_eq_false {rest : List Char} (breaks : Breaks rest) :
    ∃ c cs, rest = c :: cs ∧ Charset.isWord c = false := by
  obtain ⟨c, cs, rfl, rfl | rfl | rfl | rfl⟩ := breaks <;> exact ⟨_, cs, rfl, by decide⟩

/-- Where word characters end, the run of them ends. -/
theorem takeWhile_append_breaks {w rest : List Char} (all : ∀ c ∈ w, Charset.isWord c = true)
    (breaks : Breaks rest) :
    (w ++ rest).takeWhile Charset.isWord = w ∧ (w ++ rest).dropWhile Charset.isWord = rest := by
  obtain ⟨c, cs, rfl, other⟩ := breaks.isWord_eq_false
  exact span_stop all other cs

/-- A run of word characters in front of what breaks it. -/
theorem lexes_run {w : List Char} (nonempty : w ≠ []) (all : ∀ c ∈ w, Charset.isWord c = true) :
    Lexes Breaks w (Single (Kind.ofWord (String.ofList w)) (String.ofList w) (String.ofList w)) := by
  apply Lexes.lexeme
  intro rest breaks
  cases w with
  | nil => exact absurd rfl nonempty
  | cons c w =>
    obtain ⟨solid, eq⟩ := Lexeme.read_of_isWord (all c List.mem_cons_self) (w ++ rest)
    obtain ⟨run, left⟩ :=
      takeWhile_append_breaks (fun d member => all d (List.mem_cons_of_mem c member)) breaks
    refine ⟨c, w ++ rest, rfl, solid, ?_⟩
    rw [eq, Lexeme.word, run, left]
    rfl

/-- A reserved word. -/
theorem lexes_keyword {s : String} {k : Kind} (listed : (s, k) ∈ Kind.keywords) :
    Lexes Breaks s.toList (Single k s s) := by
  have table : ∀ entry ∈ Kind.keywords, entry.1.toList ≠ [] ∧
      entry.1.toList.all Charset.isWord = true ∧ Kind.ofWord entry.1 = entry.2 := by
    decide
  obtain ⟨nonempty, all, kind⟩ := table _ listed
  have run := lexes_run nonempty (List.all_eq_true.1 all)
  rw [String.ofList_toList, kind] at run
  exact run

/-- The text of a word. -/
theorem lexes_wordText {s : String} (h : IsWordText s) :
    Lexes Breaks s.toList (Single .word s s) := by
  rcases h with ⟨nonempty, all, free⟩ | ⟨c, chars, loose, solid⟩
  · have run := lexes_run nonempty all
    rw [String.ofList_toList, Kind.ofWord, free] at run
    exact run
  · have text : s = String.ofList [c] := by rw [← chars, String.ofList_toList]
    rw [chars, text]
    apply Lexes.lexeme
    intro rest _
    refine ⟨c, rest, rfl, solid, ?_⟩
    obtain ⟨hash, feed, op, quote, dollar, other⟩ := loose
    simp [Lexeme.read, hash, feed, op, quote, dollar, other, Lexeme.plain]

/-! ## Operators -/

/-- An operator of one character in front of what is no operator. -/
theorem lexes_operator {c : Char} {k : Kind} (listed : (c, k) ∈ Kind.operators) :
    Lexes Breaks [c] (Single k (String.ofList [c]) (String.ofList [c])) := by
  have table : ∀ entry ∈ Kind.operators, Charset.isBlank entry.1 = false ∧ entry.1 ≠ '#' ∧
      entry.1 ≠ '\n' ∧ Kind.operators.lookup entry.1 = some entry.2 ∧
      [' ', '\n', '(', ')'].all (fun d => (Kind.doubleOperators.lookup (entry.1, d)).isNone) := by
    decide
  obtain ⟨solid, hash, feed, found, single⟩ := table _ listed
  apply Lexes.lexeme
  intro rest breaks
  obtain ⟨d, ds, rfl, which⟩ := breaks
  refine ⟨c, d :: ds, rfl, solid, ?_⟩
  have alone : Kind.doubleOperators.lookup (c, d) = none :=
    Option.isNone_iff_eq_none.1 (List.all_eq_true.1 single d (by simpa using which))
  simp only [Lexeme.read, if_neg hash, if_neg feed, found, Lexeme.operator, alone]
  rfl

theorem lexes_appendOperator :
    Lexes Breaks ['>', '>'] (Single .redirectAppend ">>" ">>") := by
  apply Lexes.lexeme
  intro rest _
  exact ⟨'>', '>' :: rest, rfl, rfl, rfl⟩

theorem lexes_newline : Lexes Anything ['\n'] (Single .newline "\n" "\n") := by
  apply Lexes.lexeme
  intro rest _
  exact ⟨'\n', rest, rfl, rfl, rfl⟩

/-! ## Quoted strings and references -/

/-- What is protected reads as it was, up to the closing mark. -/
theorem inside_protected {mark : Char} (other : mark ≠ '\\') (cs rest : List Char) :
    Lexeme.inside mark (Text.protected mark cs ++ mark :: rest) =
      ⟨cs, Text.protected mark cs ++ [mark], rest, true⟩ := by
  induction cs with
  | nil =>
    show Lexeme.inside mark (mark :: rest) = _
    rw [Lexeme.inside_cons other, if_pos rfl]
    rfl
  | cons c cs ih =>
    by_cases special : c = '\\' ∨ c = mark
    · rw [Text.protected, if_pos special]
      show Lexeme.inside mark ('\\' :: c :: (Text.protected mark cs ++ mark :: rest)) = _
      rw [Lexeme.inside, ih]
      rfl
    · rw [Text.protected, if_neg special]
      obtain ⟨plain, inner⟩ := not_or.1 special
      show Lexeme.inside mark (c :: (Text.protected mark cs ++ mark :: rest)) = _
      rw [Lexeme.inside_cons plain, if_neg inner, ih]
      rfl

theorem lexes_quoted (value : List Char) :
    Lexes Breaks ('"' :: Text.protected '"' value ++ ['"'])
      (Single .quotedString (String.ofList value)
        (String.ofList ('"' :: Text.protected '"' value ++ ['"']))) := by
  apply Lexes.lexeme
  intro rest _
  refine ⟨'"', Text.protected '"' value ++ '"' :: rest, by simp, rfl, ?_⟩
  show Lexeme.quotedString '"' _ = _
  rw [Lexeme.quotedString, inside_protected (by decide)]
  rfl

theorem lexes_braced {name : List Char} (inside : '\x7d' ∉ name) :
    Lexes Breaks ('$' :: '\x7b' :: name ++ ['\x7d'])
      (Single .reference (String.ofList name)
        (String.ofList ('$' :: '\x7b' :: name ++ ['\x7d']))) := by
  apply Lexes.lexeme
  intro rest _
  refine ⟨'$', '\x7b' :: (name ++ '\x7d' :: rest), by simp, rfl, ?_⟩
  have all : ∀ c ∈ name, (c != '\x7d') = true := by
    intro c member
    have : c ≠ '\x7d' := fun same => inside (same ▸ member)
    simpa using this
  have run : (name ++ '\x7d' :: rest).takeWhile (· != '\x7d') = name := by
    rw [List.takeWhile_append_of_pos all]
    simp
  have left : (name ++ '\x7d' :: rest).dropWhile (· != '\x7d') = '\x7d' :: rest := by
    rw [List.dropWhile_append_of_pos all]
    simp
  show Lexeme.bracedReference (name ++ '\x7d' :: rest) = _
  rw [Lexeme.bracedReference, run, left]
  rfl

theorem lexes_bare {name : List Char} (all : ∀ c ∈ name, Charset.isWord c = true) :
    Lexes Breaks ('$' :: name)
      (Single .reference (String.ofList name) (String.ofList ('$' :: name))) := by
  apply Lexes.lexeme
  intro rest breaks
  refine ⟨'$', name ++ rest, rfl, rfl, ?_⟩
  obtain ⟨run, left⟩ := takeWhile_append_breaks all breaks
  show Lexeme.reference (name ++ rest) = _
  cases split : name ++ rest with
  | nil =>
    obtain ⟨c, cs, rfl, -⟩ := breaks
    simp at split
  | cons c cs =>
    have brace : c ≠ '\x7b' := by
      cases name with
      | nil =>
        obtain ⟨d, ds, rfl, which⟩ := breaks
        obtain ⟨rfl, -⟩ := List.cons.inj split
        rcases which with rfl | rfl | rfl | rfl <;> decide
      | cons d ds =>
        obtain ⟨rfl, -⟩ := List.cons.inj split
        have := all d List.mem_cons_self
        intro same
        rw [same] at this
        cases this
    rw [Lexeme.reference, if_neg brace, ← split, run, left]

/-! ## Words in a line, lines in a script -/

/-- What starts with a space, or is empty, breaks a word if what follows does. -/
theorem breaks_spaces {ws : List (List Char)} {rest : List Char} (breaks : Breaks rest) :
    Breaks (ws.flatMap (' ' :: ·) ++ rest) := by
  cases ws with
  | nil => exact breaks
  | cons w ws => exact ⟨' ', _, rfl, Or.inl rfl⟩

/-- Words with a space before each. -/
abbrev Trails (ws : List (List Char)) (P : List Token → Prop) : Prop :=
  Lexes Breaks (ws.flatMap (' ' :: ·)) P

namespace Trails

variable {w : List Char} {us ws : List (List Char)}

theorem nil : Trails [] (· = []) := Lexes.nil rfl

theorem cons (first : Lexes Breaks w P) (others : Trails ws Q) : Trails (w :: ws) (Both P Q) :=
  (first.append others fun _ => breaks_spaces).space

theorem append (first : Trails us P) (others : Trails ws Q) : Trails (us ++ ws) (Both P Q) := by
  rw [Trails, List.flatMap_append]
  exact Lexes.append first others fun _ => breaks_spaces

theorem spaced (first : Lexes Breaks w P) (others : Trails ws Q) :
    Lexes Breaks (Text.spaced (w :: ws)) (Both P Q) :=
  first.append others fun _ => breaks_spaces

end Trails

/-- A line in front of others. -/
theorem Lexes.line {line : List (List Char)} {lines : List (List (List Char))}
    (first : Lexes Breaks (Text.spaced line) P) (others : Lexes Anything (Text.unlines lines) Q) :
    Lexes Anything (Text.unlines (line :: lines)) (Lined P Q) := by
  have feed : Lexes Anything ('\n' :: Text.unlines lines) _ :=
    lexes_newline.append others fun _ _ => trivial
  have whole := first.append feed fun rest _ => ⟨'\n', Text.unlines lines ++ rest, rfl, by simp⟩
  rw [Text.unlines, List.flatMap_cons, List.append_assoc]
  refine whole.mono ?_
  rintro _ ⟨us, _, rfl, found, _, vs, rfl, ⟨t, rfl, kind, -, -⟩, others⟩
  exact ⟨us, t, vs, rfl, found, kind, others⟩

/-- Lines in front of others. -/
theorem Lexes.lines {front lines : List (List (List Char))}
    (first : Lexes Anything (Text.unlines front) P)
    (others : Lexes Anything (Text.unlines lines) Q) :
    Lexes Anything (Text.unlines (front ++ lines)) (Both P Q) := by
  rw [Text.unlines, List.flatMap_append]
  exact first.append others fun _ _ => trivial

end Lexing

end ShellScript
