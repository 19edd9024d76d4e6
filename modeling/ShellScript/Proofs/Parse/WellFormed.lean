/-
# ShellScript.Proofs.Parse.WellFormed -- what parsed trees look like

A token of a script with nothing left open has a text as its kind demands
(`Token.Genuine`).  So what is parsed from such tokens can be written again: every
rule makes a well-formed tree of them, by induction on the depth of the statement
(`wellFormed_within`).
-/
import ShellScript.Proofs.Parse.Script
import ShellScript.Proofs.Tree.WellFormed

namespace ShellScript

set_option autoImplicit false

open Grammar Parse

/-! ## Genuine tokens -/

/-- A token whose text and spelling are such as the lexer gives its kind. -/
structure Token.Genuine (t : Token) : Prop where
  word : t.kind = .word → IsWordText t.text
  reference : t.kind = .reference → ∀ position, IsArgument t.lexeme (.reference t.text position)
  redirection : t.kind.isRedirection = true → t.text = ">" ∨ t.text = ">>" ∨ t.text = "<"

/-- A token of a kind that says nothing about its text. -/
theorem Token.Genuine.of_kind {t : Token} (no_word : t.kind ≠ .word)
    (no_reference : t.kind ≠ .reference) (plain : t.kind.isRedirection = false) : t.Genuine where
  word kind := absurd kind no_word
  reference kind := absurd kind no_reference
  redirection kind := by rw [plain] at kind; cases kind

namespace Lexing

variable {c : Char} {rest : List Char} (here : Cursor)

theorem genuine_operator {single : Kind} (found : Kind.operators.lookup c = some single) :
    ((Lexeme.operator c single rest).token here).Genuine := by
  have ones : ∀ entry ∈ Kind.operators, entry.2 ≠ .word ∧ entry.2 ≠ .reference ∧
      (entry.2.isRedirection = true → entry.1 = '>' ∨ entry.1 = '<') := by decide
  have twos : ∀ entry ∈ Kind.doubleOperators, entry.2 ≠ .word ∧ entry.2 ≠ .reference ∧
      (entry.2.isRedirection = true → entry.1 = ('>', '>')) := by decide
  rcases Lexeme.operator_cases c single rest with eq | ⟨d, ds, double, -, found', eq⟩
  · obtain ⟨no_word, no_reference, redirects⟩ := ones _ (mem_of_lookup found)
    rw [eq]
    refine ⟨fun kind => absurd kind no_word, fun kind => absurd kind no_reference, fun kind => ?_⟩
    rcases redirects kind with rfl | rfl
    · exact Or.inl rfl
    · exact Or.inr (Or.inr rfl)
  · obtain ⟨no_word, no_reference, redirects⟩ := twos _ (mem_of_lookup found')
    rw [eq]
    refine ⟨fun kind => absurd kind no_word, fun kind => absurd kind no_reference, fun kind => ?_⟩
    obtain ⟨rfl, rfl⟩ : c = '>' ∧ d = '>' := by simpa using redirects kind
    exact Or.inr (Or.inl rfl)

theorem isArgument_bare {name : List Char} (inside : ∀ d ∈ name, Charset.isWord d = true)
    (position : Option Span) :
    IsArgument (String.ofList ('$' :: name)) (.reference (String.ofList name) position) := by
  have text : String.ofList ('$' :: name) = "$" ++ String.ofList name := by
    rw [← String.toList_inj]
    simp
  rw [text]
  exact .bare (by simpa using inside)

theorem isArgument_braced {name : List Char} (inside : '\x7d' ∉ name) (position : Option Span) :
    IsArgument (String.ofList ('$' :: '\x7b' :: (name ++ ['\x7d'])))
      (.reference (String.ofList name) position) := by
  have text : String.ofList ('$' :: '\x7b' :: (name ++ ['\x7d'])) =
      "$\x7b" ++ String.ofList name ++ "\x7d" := by
    rw [← String.toList_inj]
    simp
  rw [text]
  exact .braced (by simpa using inside)

theorem genuine_reference (closed : (Lexeme.reference rest).unclosed = none) :
    ((Lexeme.reference rest).token here).Genuine := by
  have kind : ((Lexeme.reference rest).token here).kind = .reference := Lexeme.kind_reference rest
  refine ⟨fun word => ?_, fun _ position => ?_, fun redirects => ?_⟩
  · rw [kind] at word
    cases word
  · cases rest with
    | nil => exact isArgument_bare (by simp) position
    | cons d ds =>
      by_cases brace : d = '\x7b'
      · rw [Lexeme.reference, if_pos brace] at closed ⊢
        have inside : '\x7d' ∉ ds.takeWhile (· != '\x7d') := by
          intro member
          have := List.all_eq_true.1 List.all_takeWhile _ member
          simp at this
        cases left : ds.dropWhile (· != '\x7d') with
        | nil => simp [Lexeme.bracedReference, left] at closed
        | cons close others =>
          have stop : close = '\x7d' := by
            have := List.head?_dropWhile_not (· != '\x7d') ds
            simpa [left] using this
          simp only [Lexeme.bracedReference, left, Lexeme.token, stop]
          exact isArgument_braced inside position
      · rw [Lexeme.reference, if_neg brace]
        exact isArgument_bare (List.all_eq_true.1 List.all_takeWhile) position
  · rw [kind] at redirects
    cases redirects

theorem genuine_word (kind : (Lexeme.word c rest).kind = .word) (isWord : Charset.isWord c = true) :
    ((Lexeme.word c rest).token here).Genuine := by
  have kind' : ((Lexeme.word c rest).token here).kind = .word := kind
  have inside : ∀ d ∈ c :: rest.takeWhile Charset.isWord, Charset.isWord d = true := by
    intro d member
    rcases List.mem_cons.1 member with rfl | member
    · exact isWord
    · exact List.all_eq_true.1 List.all_takeWhile d member
  have free : Kind.keywords.lookup (String.ofList (c :: rest.takeWhile Charset.isWord)) = none := by
    rcases Kind.ofWord_cases (String.ofList (c :: rest.takeWhile Charset.isWord)) with
      ⟨-, free⟩ | listed
    · exact free
    · have reserved : ∀ entry ∈ Kind.keywords, entry.2 ≠ .word := by decide
      exact absurd kind (reserved _ listed)
  refine ⟨fun _ => Or.inl ⟨?_, ?_, free⟩, fun other => ?_, fun redirects => ?_⟩
  · simp [Lexeme.token, Lexeme.word, Lexeme.plain]
  · simpa [Lexeme.token, Lexeme.word, Lexeme.plain] using inside
  · rw [kind'] at other
    cases other
  · rw [kind'] at redirects
    cases redirects

theorem genuine_loose (loose : Charset.Loose c) (solid : Charset.isBlank c = false) :
    ((Lexeme.plain .word [c] rest).token here).Genuine where
  word _ := Or.inr ⟨c, by simp [Lexeme.token, Lexeme.plain], loose, solid⟩
  reference kind := by cases kind
  redirection kind := by cases kind

/-- The token of a closed lexeme is genuine. -/
theorem genuine_token (solid : Charset.isBlank c = false)
    (shut : (Lexeme.read c rest).unclosed = none) : ((Lexeme.read c rest).token here).Genuine := by
  have plain {k : Kind} (kind : (Lexeme.read c rest).kind = k) (no_word : k ≠ .word)
      (no_reference : k ≠ .reference) (no_redirection : k.isRedirection = false) :
      ((Lexeme.read c rest).token here).Genuine := by
    subst kind
    exact .of_kind no_word no_reference no_redirection
  rcases Lexeme.kind_read_cases c rest with ⟨kind, -⟩ | ⟨kind, -⟩ | ⟨-, single, found, eq⟩ |
    ⟨kind, -⟩ | ⟨-, -, eq⟩ | ⟨kind, -⟩ | ⟨kind, ⟨isWord, eq⟩ | ⟨loose, eq⟩⟩
  · exact plain kind Kind.noConfusion Kind.noConfusion rfl
  · exact plain kind Kind.noConfusion Kind.noConfusion rfl
  · rw [eq]
    exact genuine_operator here found
  · exact plain kind Kind.noConfusion Kind.noConfusion rfl
  · rw [eq] at shut ⊢
    exact genuine_reference here shut
  · have reserved : ∀ entry ∈ Kind.keywords, entry.2 ≠ .word ∧ entry.2 ≠ .reference ∧
        entry.2.isRedirection = false := by decide
    obtain ⟨entry, listed, same⟩ : ∃ entry ∈ Kind.keywords, entry.2 = (Lexeme.read c rest).kind := by
      simpa [Kind.isKeyword] using kind
    obtain ⟨no_word, no_reference, no_redirection⟩ := reserved entry listed
    exact plain same.symm no_word no_reference no_redirection
  · rw [eq] at kind ⊢
    exact genuine_word here kind isWord
  · rw [eq]
    exact genuine_loose here loose solid

/-- The tokens of a script with nothing left open are genuine. -/
theorem genuine_of_mem {t : Token} {cs : List Char} (quiet : (run false here cs).warnings = [])
    (member : t ∈ (run false here cs).tokens) : t.Genuine := by
  rcases mem_tokens_run here cs member with ⟨stop, rfl⟩ | ⟨start, c, rest, solid, rfl, closed⟩
  · exact .of_kind Kind.noConfusion Kind.noConfusion rfl
  · exact genuine_token start solid (closed quiet)

end Lexing

/-! ## Phrases of genuine tokens -/

theorem IsArgument.wellFormed {text : String} {e : Expr} (h : IsArgument text e) :
    e.WellFormed := by
  cases h with
  | literal h => exact h
  | bare inside =>
    intro member
    have := inside _ member
    cases this
  | braced inside => exact inside

section Phrases

variable {next t : Token} {ws : List Token}

theorem isArgument_of_isExpr {e : Expr} (genuine : t.Genuine) (h : IsExpr t e) :
    IsArgument (argumentText t) e := by
  cases h with
  | word kind =>
    rw [argumentText, if_neg (by rw [kind]; exact Kind.noConfusion)]
    exact .literal (genuine.word kind)
  | quoted kind =>
    rw [argumentText, if_neg (by rw [kind]; exact Kind.noConfusion)]
    exact .literal trivial
  | reference kind =>
    rw [argumentText, if_pos kind]
    exact genuine.reference kind _

theorem wellFormed_of_isExpr {e : Expr} (genuine : t.Genuine) (h : IsExpr t e) : e.WellFormed :=
  (isArgument_of_isExpr genuine h).wellFormed

theorem wellFormed_of_forall₂ {es : List Expr} (h : List.Forall₂ IsExpr ws es)
    (genuine : ∀ t ∈ ws, t.Genuine) : ∀ e ∈ es, e.WellFormed := by
  induction h with
  | nil => simp
  | cons first _ ih =>
    obtain ⟨here, others⟩ := List.forall_mem_cons.1 genuine
    exact List.forall_mem_cons.2 ⟨wellFormed_of_isExpr here first, ih others⟩

theorem wellFormed_of_isRedirection {r : Redirection} (h : IsRedirection next ws r)
    (genuine : ∀ t ∈ ws, t.Genuine) : r.WellFormed := by
  cases h with
  | mk kind target =>
    have first := genuine _ List.mem_cons_self
    have second := genuine _ (List.mem_cons_of_mem _ List.mem_cons_self)
    exact ⟨first.redirection kind, wellFormed_of_isExpr second target⟩

theorem wellFormed_of_isParts {parts : List Part} (h : IsParts next ws parts)
    (genuine : ∀ t ∈ ws, t.Genuine) :
    List.Forall₂ IsArgument (parts.filterMap Part.text?) (parts.filterMap Part.expr?) ∧
      ∀ r ∈ parts.filterMap Part.redirection?, r.WellFormed := by
  induction h with
  | nil => exact ⟨.nil, by simp⟩
  | argument first _ ih =>
    obtain ⟨here, others⟩ := List.forall_mem_cons.1 genuine
    obtain ⟨arguments, redirections⟩ := ih others
    exact ⟨.cons (isArgument_of_isExpr here first) arguments, redirections⟩
  | redirection first _ ih =>
    obtain ⟨here, others⟩ := List.forall_mem_append.1 genuine
    obtain ⟨arguments, redirections⟩ := ih others
    exact ⟨arguments, List.forall_mem_cons.2 ⟨wellFormed_of_isRedirection first here, redirections⟩⟩

theorem wellFormed_of_isCommand {c : Command} (h : IsCommand next ws c)
    (genuine : ∀ t ∈ ws, t.Genuine) : c.WellFormed := by
  cases h with
  | mk kind inside =>
    obtain ⟨here, others⟩ := List.forall_mem_cons.1 genuine
    obtain ⟨arguments, redirections⟩ := wellFormed_of_isParts inside others
    exact ⟨here.word kind, arguments, redirections⟩

/-- A command with the word `=` for its first argument, and with no redirection that
could stand before it, starts like an assignment. -/
theorem noAssignment_of_isCommand {c : Command} (h : IsCommand next ws c) {vs : List Token}
    (other : ¬ StartsAssignment (ws ++ vs)) : c.NoAssignment := by
  intro none position head
  cases h with
  | @mk _ name us parts kind inside =>
    cases inside with
    | nil => cases head
    | @argument _ u e us parts first others =>
      have same : e = .literal "=" false position := Option.some.inj head
      cases first with
      | word word =>
        obtain ⟨text, -, -⟩ := Expr.literal.inj same
        exact other ⟨name, u, us ++ vs, rfl, kind, by simp [Token.isWord, word, text]⟩
      | quoted => simp at same
      | reference => simp at same
    | redirection => cases none

theorem wellFormed_of_isPiped {cs : List Command} (h : IsPiped next ws cs)
    (genuine : ∀ t ∈ ws, t.Genuine) : ∀ c ∈ cs, c.WellFormed := by
  induction h with
  | nil => simp
  | cons _ first _ ih =>
    obtain ⟨left, right⟩ := List.forall_mem_append.1 genuine
    obtain ⟨-, here⟩ := List.forall_mem_cons.1 left
    exact List.forall_mem_cons.2 ⟨wellFormed_of_isCommand first here, ih right⟩

theorem wellFormed_of_isSimple {s : Statement} (h : IsSimple next ws s)
    (genuine : ∀ t ∈ ws, t.Genuine) : s.WellFormed := by
  rcases h with h | ⟨h, other⟩
  · cases h with
    | @mk _ name equals t e kind sign value =>
      exact ⟨(genuine name (by simp)).word kind, wellFormed_of_isExpr (genuine t (by simp)) value⟩
  · cases h with
    | command only =>
      rw [← List.append_nil ws] at other
      exact ⟨wellFormed_of_isCommand only genuine, noAssignment_of_isCommand only other⟩
    | pipeline first others =>
      obtain ⟨left, right⟩ := List.forall_mem_append.1 genuine
      exact ⟨wellFormed_of_isCommand first left, noAssignment_of_isCommand first other,
        wellFormed_of_isPiped others right⟩

theorem wellFormed_of_isHeader {e : Expr} {es : List Expr} (h : IsHeader ws e es)
    (genuine : ∀ t ∈ ws, t.Genuine) : ∀ d ∈ e :: es, d.WellFormed := by
  cases h with
  | mk first others =>
    obtain ⟨left, -⟩ := List.forall_mem_append.1 genuine
    obtain ⟨here, rest⟩ := List.forall_mem_cons.1 left
    exact List.forall_mem_cons.2 ⟨wellFormed_of_isExpr here first, wellFormed_of_forall₂ others rest⟩

end Phrases

/-! ## Compound statements -/

/-- Phrases that make well-formed statements of genuine tokens. -/
def WellFormedPhrases (S : Phrase Statement) : Prop :=
  ∀ next ws s, S next ws s → (∀ t ∈ ws, t.Genuine) → s.WellFormed

section Compound

variable {S : Phrase Statement} (inner : WellFormedPhrases S) {next : Token} {ws : List Token}

include inner

theorem wellFormed_of_isBlock {ss : List Statement} (h : IsBlock S next ws ss)
    (genuine : ∀ t ∈ ws, t.Genuine) : Statement.WellFormedAll ss := by
  induction h with
  | nil => trivial
  | newline _ _ ih => exact ih (List.forall_mem_cons.1 genuine).2
  | comment _ _ ih => exact ih (List.forall_mem_cons.1 genuine).2
  | statement first _ ih =>
    obtain ⟨left, right⟩ := List.forall_mem_append.1 genuine
    exact ⟨inner _ _ _ first left, ih right⟩
  | separated first _ _ ih =>
    obtain ⟨left, right⟩ := List.forall_mem_append.1 genuine
    exact ⟨inner _ _ _ first left, ih (List.forall_mem_cons.1 right).2⟩

theorem wellFormed_of_isConditional {s : Statement} (h : IsConditional S next ws s)
    (genuine : ∀ t ∈ ws, t.Genuine) : s.WellFormed := by
  cases h with
  | noElse _ header _ block =>
    exact ⟨wellFormed_of_isHeader header fun t member => genuine t (by simp [member]),
      wellFormed_of_isBlock inner block fun t member => genuine t (by simp [member])⟩
  | withElse _ header _ block _ block' =>
    exact ⟨wellFormed_of_isHeader header fun t member => genuine t (by simp [member]),
      wellFormed_of_isBlock inner block fun t member => genuine t (by simp [member]),
      wellFormed_of_isBlock inner block' fun t member => genuine t (by simp [member])⟩

theorem wellFormed_of_isLoop {s : Statement} (h : IsLoop S next ws s)
    (genuine : ∀ t ∈ ws, t.Genuine) : s.WellFormed := by
  cases h with
  | @forIn _ _ name _ _ _ _ _ _ _ _ _ kind _ header _ block =>
    exact ⟨(genuine name (by simp)).word kind, rfl, rfl,
      wellFormed_of_isHeader header fun t member => genuine t (by simp [member]),
      wellFormed_of_isBlock inner block fun t member => genuine t (by simp [member])⟩
  | whileDo _ header _ block =>
    exact ⟨wellFormed_of_isHeader header fun t member => genuine t (by simp [member]), rfl,
      wellFormed_of_isBlock inner block fun t member => genuine t (by simp [member])⟩

theorem wellFormed_of_isFunction {s : Statement} (h : IsFunction S next ws s)
    (genuine : ∀ t ∈ ws, t.Genuine) : s.WellFormed := by
  cases h with
  | @mk _ _ name _ _ _ _ _ _ _ kind _ _ _ block =>
    exact ⟨(genuine name (by simp)).word kind,
      wellFormed_of_isBlock inner block fun t member => genuine t (by simp [member])⟩

theorem wellFormed_of_isBody {b : List Statement × List Token} (h : IsBody S next ws b)
    (genuine : ∀ t ∈ ws, t.Genuine) : Statement.WellFormedAll b.1 := by
  induction h with
  | stop => trivial
  | round first _ _ ih =>
    have others := ih fun t member => genuine t (by simp [member])
    cases first with
    | lineFeed => exact others
    | comment => exact others
    | statement h => exact ⟨inner _ _ _ h fun t member => genuine t (by simp [member]), others⟩
    | skipped => exact others

end Compound

/-- Statements of any depth are well-formed. -/
theorem wellFormed_within (depth : Nat) : WellFormedPhrases (Within depth) := by
  induction depth with
  | zero =>
    rintro next ws s ⟨h, shallow⟩ genuine
    obtain ⟨t, ts, rfl, cases⟩ := isStatement_iff.1 h
    have deep (compound : t.kind ≠ .word) : s.WellFormed :=
      absurd (nesting_pos h compound) (Nat.not_lt.2 shallow)
    rcases cases with ⟨-, simple⟩ | ⟨kind, -⟩ | ⟨kind | kind, -⟩ | ⟨kind, -⟩
    · exact wellFormed_of_isSimple simple genuine
    all_goals exact deep (by simp [kind])
  | succ depth ih =>
    rintro next ws s ⟨h, shallow⟩ genuine
    obtain ⟨t, ts, rfl, ⟨-, simple⟩ | ⟨-, h⟩ | ⟨-, h⟩ | ⟨-, h⟩⟩ := isStatement_iff.1 h
    · exact wellFormed_of_isSimple simple genuine
    · exact wellFormed_of_isConditional ih (isConditional_within.2 ⟨h, shallow⟩) genuine
    · exact wellFormed_of_isLoop ih (isLoop_within.2 ⟨h, shallow⟩) genuine
    · exact wellFormed_of_isFunction ih (isFunction_within.2 ⟨h, shallow⟩) genuine

/-- What the top level reads nests as deep as its statements may. -/
theorem nesting_of_isBody {depth : Nat} {next : Token} {ws : List Token}
    {b : List Statement × List Token} (h : IsBody (Within depth) next ws b) :
    Statement.nestingAll b.1 ≤ depth := by
  induction h with
  | stop => exact Nat.zero_le depth
  | round first _ _ ih =>
    cases first with
    | lineFeed => exact ih
    | comment => exact ih
    | statement h => exact Nat.max_le.2 ⟨h.2, ih⟩
    | skipped => exact ih

/-- The program of a script with nothing left open is well-formed. -/
theorem wellFormed_of_parse {source : String} {p : Program}
    (quiet : (Lexing.ofScript source false).warnings = []) (parsed : parse source false = .ok p) :
    p.WellFormed ∧ p.nesting ≤ nestingLimit := by
  obtain ⟨-, ws, last, split, body, -⟩ := Parser.parse_ok_iff.1 ⟨parsed, rfl⟩
  have genuine : ∀ t ∈ ws, t.Genuine := by
    intro t member
    apply Lexing.genuine_of_mem _ quiet
    rw [← Lexing.ofScript, split]
    exact List.mem_append_left [last] member
  exact ⟨wellFormed_of_isBody (wellFormed_within nestingLimit) body genuine, nesting_of_isBody body⟩

end ShellScript
