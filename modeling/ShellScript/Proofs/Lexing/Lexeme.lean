/-
# ShellScript.Proofs.Lexing.Lexeme -- what a lexeme can be

`Lexeme.read_cases` lists the lexemes that a character can start, once for all.
A table of spellings is used through its entries only (`mem_of_lookup`), so a fact
about all operators or all reserved words is a fact about a short list.
-/
import ShellScript.Lexing

namespace ShellScript

set_option autoImplicit false

theorem mem_of_lookup {α β : Type} [BEq α] [LawfulBEq α] {table : List (α × β)} {a : α} {b : β}
    (found : table.lookup a = some b) : (a, b) ∈ table := by
  obtain ⟨before, after, rfl, -⟩ := List.lookup_eq_some_iff.1 found
  exact List.mem_append_right before List.mem_cons_self

/-- A run of characters ends in front of one that does not belong to it. -/
theorem span_stop {p : Char → Bool} {w : List Char} (all : ∀ c ∈ w, p c = true) {d : Char}
    (stop : p d = false) (ds : List Char) :
    (w ++ d :: ds).takeWhile p = w ∧ (w ++ d :: ds).dropWhile p = d :: ds := by
  constructor
  · rw [List.takeWhile_append_of_pos all, List.takeWhile_cons_of_neg (by simp [stop]),
      List.append_nil]
  · rw [List.dropWhile_append_of_pos all, List.dropWhile_cons_of_neg (by simp [stop])]

namespace Charset

/-- A character with no role of its own: it is a word by itself. -/
def Loose (c : Char) : Prop :=
  c ≠ '#' ∧ c ≠ '\n' ∧ Kind.operators.lookup c = none ∧ isQuote c = false ∧ c ≠ '$' ∧
    isWord c = false

instance (c : Char) : Decidable (Loose c) :=
  inferInstanceAs (Decidable (c ≠ '#' ∧ c ≠ '\n' ∧ Kind.operators.lookup c = none ∧
    isQuote c = false ∧ c ≠ '$' ∧ isWord c = false))

end Charset

namespace Kind

/-- The kinds of the operators and of punctuation. -/
def isOperator (k : Kind) : Bool :=
  operators.any (fun entry => entry.2 = k) || doubleOperators.any fun entry => entry.2 = k

theorem isOperator_of_operators {c : Char} {k : Kind} (found : operators.lookup c = some k) :
    k.isOperator = true := by
  have all : ∀ entry ∈ operators, entry.2.isOperator = true := by decide
  exact all _ (mem_of_lookup found)

theorem isOperator_of_doubleOperators {c d : Char} {k : Kind}
    (found : doubleOperators.lookup (c, d) = some k) : k.isOperator = true := by
  have all : ∀ entry ∈ doubleOperators, entry.2.isOperator = true := by decide
  exact all _ (mem_of_lookup found)

/-- A run of word characters is a word or a reserved word. -/
theorem ofWord_cases (s : String) :
    (ofWord s = .word ∧ keywords.lookup s = none) ∨ (s, ofWord s) ∈ keywords := by
  unfold ofWord
  cases found : keywords.lookup s with
  | none => exact Or.inl ⟨rfl, rfl⟩
  | some k => exact Or.inr (mem_of_lookup found)

theorem ofWord_eq_word_or_isKeyword (s : String) :
    ofWord s = .word ∨ (ofWord s).isKeyword = true := by
  rcases ofWord_cases s with ⟨word, -⟩ | listed
  · exact Or.inl word
  · have all : ∀ entry ∈ keywords, entry.2.isKeyword = true := by decide
    exact Or.inr (all _ listed)

end Kind

namespace Lexeme

/-- The lexemes that can be read. -/
theorem read_cases (c : Char) (cs : List Char) :
    (c = '#' ∧ read c cs = comment cs) ∨
      (c = '\n' ∧ read c cs = plain .newline ['\n'] cs) ∨
      (∃ single, Kind.operators.lookup c = some single ∧ read c cs = operator c single cs) ∨
      (Charset.isQuote c = true ∧ read c cs = quotedString c cs) ∨
      (c = '$' ∧ read c cs = reference cs) ∨
      (Charset.isWord c = true ∧ read c cs = word c cs) ∨
      (Charset.Loose c ∧ read c cs = plain .word [c] cs) := by
  unfold read
  by_cases hash : c = '#'
  · exact Or.inl ⟨hash, by rw [if_pos hash]⟩
  rw [if_neg hash]
  refine Or.inr ?_
  by_cases feed : c = '\n'
  · exact Or.inl ⟨feed, by rw [if_pos feed, feed]⟩
  rw [if_neg feed]
  refine Or.inr ?_
  cases op : Kind.operators.lookup c with
  | some single => exact Or.inl ⟨single, rfl, rfl⟩
  | none =>
    refine Or.inr ?_
    by_cases quote : Charset.isQuote c = true
    · exact Or.inl ⟨quote, by simp only [if_pos quote]⟩
    simp only [if_neg quote]
    refine Or.inr ?_
    by_cases dollar : c = '$'
    · exact Or.inl ⟨dollar, by rw [if_pos dollar]⟩
    rw [if_neg dollar]
    refine Or.inr ?_
    by_cases isWord : Charset.isWord c = true
    · exact Or.inl ⟨isWord, by rw [if_pos isWord]⟩
    rw [if_neg isWord]
    exact Or.inr ⟨⟨hash, feed, op, by simpa using quote, dollar, by simpa using isWord⟩, rfl⟩

/-- A word character has no other role. -/
theorem read_of_isWord {c : Char} (isWord : Charset.isWord c = true) (cs : List Char) :
    Charset.isBlank c = false ∧ read c cs = word c cs := by
  have role {d : Char} (other : Charset.isWord d = false) : c ≠ d := by
    intro same
    rw [same, other] at isWord
    cases isWord
  constructor
  · simp [Charset.isBlank, role (d := ' ') rfl, role (d := '\t') rfl]
  rcases read_cases c cs with ⟨hash, -⟩ | ⟨feed, -⟩ | ⟨single, found, -⟩ | ⟨quote, -⟩ |
    ⟨dollar, -⟩ | ⟨-, eq⟩ | ⟨loose, -⟩
  · exact absurd hash (role rfl)
  · exact absurd feed (role rfl)
  · have others : ∀ entry ∈ Kind.operators, Charset.isWord entry.1 = false := by decide
    have other : Charset.isWord c = false := others (c, single) (mem_of_lookup found)
    exact absurd rfl (role other)
  · simp [Charset.isQuote, role (d := '"') rfl, role (d := '\'') rfl] at quote
  · exact absurd dollar (role rfl)
  · exact eq
  · obtain ⟨-, -, -, -, -, other⟩ := loose
    exact absurd rfl (role other)

/-- The operators that an operator character can start. -/
theorem operator_cases (c : Char) (single : Kind) (cs : List Char) :
    operator c single cs = plain single [c] cs ∨
      ∃ d ds double, cs = d :: ds ∧ Kind.doubleOperators.lookup (c, d) = some double ∧
        operator c single cs = plain double [c, d] ds := by
  cases cs with
  | nil => exact Or.inl rfl
  | cons d ds =>
    simp only [operator]
    cases found : Kind.doubleOperators.lookup (c, d) with
    | none => exact Or.inl rfl
    | some double => exact Or.inr ⟨d, ds, double, rfl, found, rfl⟩

theorem kind_reference (cs : List Char) : (reference cs).kind = .reference := by
  cases cs with
  | nil => rfl
  | cons c cs =>
    simp only [reference, bracedReference]
    split
    · split <;> rfl
    · rfl

theorem inside_cons {mark c : Char} (plain : c ≠ '\\') (cs : List Char) :
    inside mark (c :: cs) =
      if c = mark then ⟨[], [c], cs, true⟩ else (inside mark cs).prepend [c] [c] := by
  rw [inside]
  · exact fun same _ => plain same
  · exact fun _ _ same _ => plain same

theorem rest_inside_of_open {mark : Char} {cs : List Char}
    (unclosed : (inside mark cs).closed = false) :
    (inside mark cs).rest = [] := by
  fun_induction inside mark cs with
  | case1 => rfl
  | case2 => rfl
  | case3 c cs ih => exact ih unclosed
  | case4 cs => cases unclosed
  | case5 c cs _ _ _ ih => exact ih unclosed

/-- What is left open runs to the end of the script. -/
theorem rest_eq_nil_of_unclosed {c : Char} {cs : List Char} {delimiter : Unclosed}
    (unclosed : (read c cs).unclosed = some delimiter) : (read c cs).rest = [] := by
  rcases read_cases c cs with ⟨-, eq⟩ | ⟨-, eq⟩ | ⟨single, -, eq⟩ | ⟨-, eq⟩ | ⟨-, eq⟩ | ⟨-, eq⟩ |
    ⟨-, eq⟩ <;> rw [eq] at unclosed ⊢
  · cases unclosed
  · cases unclosed
  · rcases operator_cases c single cs with eq | ⟨d, ds, double, -, -, eq⟩ <;>
      rw [eq] at unclosed <;> cases unclosed
  · apply rest_inside_of_open
    cases closed : (inside c cs).closed with
    | false => rfl
    | true => simp [quotedString, closed] at unclosed
  · cases cs with
    | nil => rfl
    | cons d ds =>
      by_cases brace : d = '\x7b'
      · rw [reference, if_pos brace] at unclosed ⊢
        cases left : ds.dropWhile (· != '\x7d') with
        | nil => simp only [bracedReference, left]
        | cons close rest => simp [bracedReference, left] at unclosed
      · simp [reference, brace] at unclosed
  · cases unclosed
  · cases unclosed

theorem isOperator_kind {c : Char} {single : Kind} (found : Kind.operators.lookup c = some single)
    (cs : List Char) : (operator c single cs).kind.isOperator = true := by
  rcases operator_cases c single cs with eq | ⟨d, ds, double, -, found', eq⟩ <;> rw [eq]
  · exact Kind.isOperator_of_operators found
  · exact Kind.isOperator_of_doubleOperators found'

/-- The kinds that the classes of lexemes have. -/
theorem kind_read_cases (c : Char) (cs : List Char) :
    ((read c cs).kind = .comment ∧ c = '#' ∧ read c cs = comment cs) ∨
      ((read c cs).kind = .newline ∧ c = '\n' ∧ read c cs = plain .newline ['\n'] cs) ∨
      ((read c cs).kind.isOperator = true ∧
        ∃ single, Kind.operators.lookup c = some single ∧ read c cs = operator c single cs) ∨
      ((read c cs).kind = .quotedString ∧ Charset.isQuote c = true ∧
        read c cs = quotedString c cs) ∨
      ((read c cs).kind = .reference ∧ c = '$' ∧ read c cs = reference cs) ∨
      ((read c cs).kind.isKeyword = true ∧ Charset.isWord c = true ∧ read c cs = word c cs) ∨
      ((read c cs).kind = .word ∧ ((Charset.isWord c = true ∧ read c cs = word c cs) ∨
        (Charset.Loose c ∧ read c cs = plain .word [c] cs))) := by
  rcases read_cases c cs with ⟨hash, eq⟩ | ⟨feed, eq⟩ | ⟨single, found, eq⟩ | ⟨quote, eq⟩ |
    ⟨dollar, eq⟩ | ⟨isWord, eq⟩ | ⟨loose, eq⟩
  · exact Or.inl ⟨by rw [eq]; rfl, hash, eq⟩
  · exact Or.inr (Or.inl ⟨by rw [eq]; rfl, feed, eq⟩)
  · exact Or.inr (Or.inr (Or.inl ⟨by rw [eq]; exact isOperator_kind found cs, single, found, eq⟩))
  · exact Or.inr (Or.inr (Or.inr (Or.inl ⟨by rw [eq]; rfl, quote, eq⟩)))
  · exact Or.inr (Or.inr (Or.inr (Or.inr (Or.inl ⟨by rw [eq, kind_reference], dollar, eq⟩))))
  · refine Or.inr (Or.inr (Or.inr (Or.inr (Or.inr ?_))))
    rcases Kind.ofWord_eq_word_or_isKeyword (String.ofList (c :: cs.takeWhile Charset.isWord)) with
      kind | kind
    · exact Or.inr ⟨by rw [eq]; exact kind, Or.inl ⟨isWord, eq⟩⟩
    · exact Or.inl ⟨by rw [eq]; exact kind, isWord, eq⟩
  · exact Or.inr (Or.inr (Or.inr (Or.inr (Or.inr (Or.inr ⟨by rw [eq]; rfl, Or.inr ⟨loose, eq⟩⟩)))))

/-- No lexeme is an end mark. -/
theorem kind_read_ne_eof (c : Char) (cs : List Char) : (read c cs).kind ≠ .eof := by
  intro eof
  have cases := kind_read_cases c cs
  rw [eof] at cases
  simp [Kind.isOperator, Kind.isKeyword, Kind.operators, Kind.doubleOperators, Kind.keywords]
    at cases

theorem comment_of_kind {c : Char} {cs : List Char} (kind : (read c cs).kind = .comment) :
    c = '#' ∧ read c cs = comment cs := by
  have cases := kind_read_cases c cs
  rw [kind] at cases
  simpa [Kind.isOperator, Kind.isKeyword, Kind.operators, Kind.doubleOperators, Kind.keywords]
    using cases

/-- A lexeme starts with the character it is read from. -/
theorem exists_raw (c : Char) (cs : List Char) : ∃ w, (read c cs).raw = c :: w := by
  have split := read_split c cs
  cases raw : (read c cs).raw with
  | nil => exact absurd raw (raw_ne_nil c cs)
  | cons d w =>
    rw [raw] at split
    exact ⟨w, congrArg (· :: w) (List.cons.inj split).1⟩

end Lexeme

end ShellScript
