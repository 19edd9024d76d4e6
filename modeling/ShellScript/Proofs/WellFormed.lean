/-
# ShellScript.Proofs.WellFormed -- every piece of a parsed tree is well-formed

A tree that is built by hand may hold any texts and lists.  A tree that is parsed may not,
and whoever works on one relies on it: what a loop has besides its kind, which texts the
arguments of a command have, what a word can be, and that no command which opens a statement
is an assignment in disguise.

`Node.WellFormed` says so of one piece, by its kind.  Each piece is a phrase of the script
(`node_of_parse`), and the lexer gives each kind of token the texts that it can have
(`Lexing.written_of_mem`).  So every piece is well-formed (`parse_well_formed`), at any depth
and whatever the script leaves open.
-/
import ShellScript.Proofs.Parse.Node
import ShellScript.Proofs.Parse.WellFormed

namespace ShellScript

set_option autoImplicit false

open Grammar Parse

/-! ## Well-formed pieces -/

/-- The text of an argument and its expression, in a script that may leave a reference
open: where `unclosed` holds, a name in braces may lack its closing brace. -/
inductive IsArgumentIn (unclosed : Prop) : String → Expr → Prop
  | closed {text : String} {e : Expr} (h : IsArgument text e) : IsArgumentIn unclosed text e
  | opened {name : String} {position : Option Span} (left_open : unclosed) :
      IsArgumentIn unclosed ("$\x7b" ++ name) (.reference name position)

/-- What a loop over words has, and what a conditional loop has. -/
def LoopHeader.Fits (header : LoopHeader) (args items : List Expr) : Prop :=
  (header.kind = forWord ∧ (∃ name, header.name? = some name ∧ IsWordText name) ∧
      header.condition? = none ∧ args = [] ∧ items ≠ [] ∧ header.iterable? = items.head?) ∨
    (header.kind = whileWord ∧ header.condition?.isSome = true ∧ header.name? = none ∧
      header.iterable? = none ∧ items = [])

namespace Node

/-- What is so of a piece of a parsed tree; `unclosed` says that a reference was left open. -/
def WellFormed (unclosed : Prop) : Node → Prop
  | program _ => True
  | statement (.command c) =>
      IsWordText c.name ∧ List.Forall₂ (IsArgumentIn unclosed) c.args c.arguments
  | statement (.pipeline first second others position) =>
      let n := statement (.pipeline first second others position)
      2 ≤ n.children.length ∧ ∀ m ∈ n.children, m.tag = .command
  | statement (.conditional ..) => True
  | statement (.loop header args items _ _) => header.Fits args items
  | statement (.function name _ _) => IsWordText name
  | statement (.assignment name _ _) => IsWordText name
  | redirection r => r.operator = ">" ∨ r.operator = ">>" ∨ r.operator = "<"
  | expr (.literal value quoted _) => quoted = false → IsWordText value
  | expr (.reference _ _) => True

/-- A command opens a statement of a piece: it is the first of a pipeline, or a statement
itself. -/
def Leads (n : Node) (c : Command) : Prop :=
  match n with
  | statement (.pipeline first _ _ _) => c = first
  | n => command c ∈ n.children

end Node

/-! ## What is left open -/

/-- What is left open is a quoted string, or a reference without its closing brace. -/
theorem Lexeme.open_cases {c : Char} {cs : List Char} {delimiter : Unclosed}
    (unclosed : (read c cs).unclosed = some delimiter) :
    (read c cs).kind = .quotedString ∨
      (delimiter = .reference ∧ (read c cs).kind = .reference ∧
        (read c cs).raw = '$' :: '\x7b' :: (read c cs).text) := by
  rcases read_cases c cs with ⟨-, eq⟩ | ⟨-, eq⟩ | ⟨single, -, eq⟩ | ⟨-, eq⟩ | ⟨-, eq⟩ | ⟨-, eq⟩ |
    ⟨-, eq⟩ <;> rw [eq] at unclosed ⊢
  · cases unclosed
  · cases unclosed
  · rcases operator_cases c single cs with eq | ⟨d, ds, double, -, -, eq⟩ <;>
      rw [eq] at unclosed <;> cases unclosed
  · exact Or.inl rfl
  · right
    cases cs with
    | nil => cases unclosed
    | cons d ds =>
      by_cases brace : d = '\x7b'
      · rw [reference, if_pos brace] at unclosed ⊢
        cases left : ds.dropWhile (· != '\x7d') with
        | nil =>
          simp only [bracedReference, left, Option.some.injEq] at unclosed
          simp only [bracedReference, left, unclosed, and_self]
        | cons close rest => simp [bracedReference, left] at unclosed
      · simp [reference, brace] at unclosed
  · cases unclosed
  · cases unclosed

/-- A token with a text as its kind demands, in a script that may leave a reference open. -/
def Token.Written (unclosed : Prop) (t : Token) : Prop :=
  t.Genuine ∨ (unclosed ∧ t.kind = .reference ∧ t.lexeme = "$\x7b" ++ t.text)

/-- The lexer warned of a reference without its closing brace. -/
def WarnsOfReference (warnings : List Diagnostic) : Prop :=
  ∃ d ∈ warnings, d.code = some "L003"

/-- Every token of a script has a text as its kind demands; only a reference may lack its
closing brace, and then the lexer warned of it. -/
theorem Lexing.written_of_mem {t : Token} (here : Cursor) (cs : List Char)
    (member : t ∈ (run false here cs).tokens) :
    t.Written (WarnsOfReference (run false here cs).warnings) := by
  rcases read_of_mem_tokens here cs member with rfl | ⟨passed, c, rest, -, solid, rfl, reported⟩
  · exact Or.inl (.of_kind Kind.noConfusion Kind.noConfusion rfl)
  cases unclosed : (Lexeme.read c rest).unclosed with
  | none => exact Or.inl (genuine_token _ solid unclosed)
  | some delimiter =>
    rcases Lexeme.open_cases unclosed with kind | ⟨rfl, kind, raw⟩
    · left
      have quoted : ((Lexeme.read c rest).token (here.advance passed)).kind = .quotedString := kind
      refine .of_kind ?_ ?_ ?_ <;> rw [quoted]
      · exact Kind.noConfusion
      · exact Kind.noConfusion
      · rfl
    · refine Or.inr ⟨⟨_, reported _ unclosed, rfl⟩, kind, ?_⟩
      rw [← String.toList_inj]
      simp [Lexeme.token, raw]

/-! ## Phrases -/

section Phrases

variable {unclosed : Prop} {next t : Token} {ws : List Token}

theorem Token.Written.word (written : t.Written unclosed) (kind : t.kind = .word) :
    IsWordText t.text := by
  rcases written with genuine | ⟨-, reference, -⟩
  · exact genuine.word kind
  · rw [kind] at reference
    cases reference

theorem Token.Written.redirection (written : t.Written unclosed)
    (kind : t.kind.isRedirection = true) : t.text = ">" ∨ t.text = ">>" ∨ t.text = "<" := by
  rcases written with genuine | ⟨-, reference, -⟩
  · exact genuine.redirection kind
  · rw [reference] at kind
    cases kind

theorem isArgumentIn_of_isExpr {e : Expr} (written : t.Written unclosed) (h : IsExpr t e) :
    IsArgumentIn unclosed (argumentText t) e := by
  rcases written with genuine | ⟨left_open, reference, lexeme⟩
  · exact .closed (isArgument_of_isExpr genuine h)
  · cases h with
    | word kind => simp [kind] at reference
    | quoted kind => simp [kind] at reference
    | reference =>
      rw [argumentText, if_pos reference, lexeme]
      exact .opened left_open

theorem isArgumentIn_of_isParts {parts : List Part} (h : IsParts next ws parts)
    (written : ∀ t ∈ ws, t.Written unclosed) : List.Forall₂ (IsArgumentIn unclosed)
      (parts.filterMap Part.text?) (parts.filterMap Part.expr?) := by
  induction h with
  | nil => exact .nil
  | argument first _ ih =>
    obtain ⟨here, others⟩ := List.forall_mem_cons.1 written
    exact .cons (isArgumentIn_of_isExpr here first) (ih others)
  | redirection _ _ ih => exact ih (List.forall_mem_append.1 written).2

theorem wellFormed_of_command {c : Command} (h : IsCommand next ws c)
    (written : ∀ t ∈ ws, t.Written unclosed) : (Node.command c).WellFormed unclosed := by
  cases h with
  | mk kind inside =>
    obtain ⟨here, others⟩ := List.forall_mem_cons.1 written
    exact ⟨here.word kind, isArgumentIn_of_isParts inside others⟩

theorem wellFormed_of_isStatement {s : Statement} (h : IsStatement next ws s)
    (written : ∀ t ∈ ws, t.Written unclosed) : (Node.statement s).WellFormed unclosed := by
  cases h with
  | assignment h =>
    cases h with
    | @mk _ name _ _ _ kind => exact (written name (by simp)).word kind
  | pipeline h =>
    cases h with
    | command only => exact wellFormed_of_command only written
    | pipeline =>
      refine ⟨by simp [Node.children], fun m member => ?_⟩
      obtain ⟨c, -, rfl⟩ := List.mem_map.1 member
      rfl
  | conditional h => cases h <;> trivial
  | loop h =>
    cases h with
    | @forIn _ _ name _ _ _ _ _ _ _ _ _ kind =>
      exact Or.inl ⟨rfl, ⟨name.text, rfl, (written name (by simp)).word kind⟩, rfl, rfl,
        List.cons_ne_nil _ _, rfl⟩
    | whileDo => exact Or.inr ⟨rfl, rfl, rfl, rfl, rfl⟩
  | function h =>
    cases h with
    | @mk _ _ name _ _ _ _ _ _ _ kind => exact (written name (by simp)).word kind

/-- A phrase of tokens with texts as their kinds demand is a well-formed piece. -/
theorem wellFormed_of_isNode {n : Node} (h : IsNode next ws n)
    (written : ∀ t ∈ ws, t.Written unclosed) : n.WellFormed unclosed := by
  cases h with
  | @expr _ t e h =>
    cases h with
    | word kind => exact fun _ => (written t (by simp)).word kind
    | quoted => exact fun bare => nomatch bare
    | reference => trivial
  | redirection h =>
    cases h with
    | @mk _ operator _ _ kind => exact (written operator (by simp)).redirection kind
  | command h => exact wellFormed_of_command h written
  | statement h => exact wellFormed_of_isStatement h written

/-! ## Commands that open statements -/

/-- A command that is a statement starts like no assignment. -/
theorem noAssignment_of_isStatement {c : Command} (h : IsStatement next ws (.command c)) :
    c.NoAssignment := by
  cases h with
  | assignment h => cases h
  | pipeline h other =>
    cases h with
    | command only => exact noAssignment_of_isCommand only (by rwa [List.append_nil])
  | conditional h => cases h
  | loop h => cases h
  | function h => cases h

/-- A command among the statements of a block. -/
theorem noAssignment_of_isBlock {ss : List Statement} (h : IsBlock IsStatement next ws ss)
    {c : Command} (member : Node.command c ∈ ss.map Node.statement) : c.NoAssignment := by
  obtain ⟨s, inside, same⟩ := List.mem_map.1 member
  obtain rfl : s = .command c := Node.statement.inj same
  obtain ⟨_, _, _, -, found⟩ := (row_of_isBlock h).inside _ inside
  exact noAssignment_of_isStatement found

/-- A command that opens a statement of a piece starts like no assignment. -/
theorem noAssignment_of_leads {n : Node} (h : IsNode next ws n) {c : Command} (leads : n.Leads c) :
    c.NoAssignment := by
  have no_expr {es : List Expr} (member : Node.command c ∈ es.map Node.expr) : False := by
    obtain ⟨_, -, same⟩ := List.mem_map.1 member
    cases same
  have no_part {d : Command} (member : Node.command c ∈ (Node.command d).children) : False := by
    rcases List.mem_append.1 member with member | member
    · exact no_expr member
    · obtain ⟨_, -, same⟩ := List.mem_map.1 member
      cases same
  cases h with
  | expr => cases leads
  | redirection => cases List.mem_singleton.1 leads
  | command => exact (no_part leads).elim
  | statement h =>
    cases h with
    | assignment h =>
      cases h
      cases List.mem_singleton.1 leads
    | pipeline h other =>
      cases h with
      | command => exact (no_part leads).elim
      | pipeline first =>
        obtain rfl := leads
        exact noAssignment_of_isCommand first other
    | conditional h =>
      cases h with
      | noElse _ _ _ block =>
        rcases List.mem_append.1 leads with member | member
        · exact noAssignment_of_isBlock block ((List.mem_append.1 member).resolve_left no_expr)
        · cases member
      | withElse _ _ _ block _ block' =>
        rcases List.mem_append.1 leads with member | member
        · exact noAssignment_of_isBlock block ((List.mem_append.1 member).resolve_left no_expr)
        · exact noAssignment_of_isBlock block' member
    | loop h =>
      cases h with
      | forIn _ _ _ _ _ block =>
        exact noAssignment_of_isBlock block ((List.mem_append.1 leads).resolve_left no_expr)
      | whileDo _ _ _ block =>
        rcases List.mem_append.1 leads with member | member
        · rcases List.mem_append.1 member with member | member
          · exact (no_expr member).elim
          · cases member
        · exact noAssignment_of_isBlock block member
    | function h =>
      cases h with
      | mk _ _ _ _ _ block => exact noAssignment_of_isBlock block leads

end Phrases

/-- **Every parsed tree is well-formed.**  Each piece of it is what pieces of its kind can be:
a pipeline has two commands or more, a loop has the parts of its kind and no others, the texts
of a command's arguments are those of its expressions, an operator leads out of or into a file,
and names and bare words are words.  Only where the lexer has warned of it may a reference lack
its closing brace.  And a command that opens a statement is no assignment. -/
theorem parse_well_formed (source : String) {p : Program} (parsed : parse source false = .ok p) :
    ∀ n ∈ (Node.program p).walk,
      n.WellFormed (WarnsOfReference (Parser.ofSource (.text source) false).parse.2.lexerWarnings) ∧
        ∀ c, n.Leads c → c.NoAssignment := by
  obtain ⟨closed, -⟩ := Parser.parse_ok_iff.1 ⟨parsed, rfl⟩
  obtain ⟨ws, last, split, statements, nodes⟩ := node_of_parse parsed
  have written : ∀ t ∈ ws,
      t.Written (WarnsOfReference (Lexing.ofScript source false).warnings) := by
    intro t member
    apply Lexing.written_of_mem
    rw [← Lexing.ofScript, split]
    exact List.mem_append_left [last] member
  rw [Parser.lexerWarnings_parse closed]
  intro n member
  rcases nodes n member with rfl | inside
  · refine ⟨trivial, fun c leads => ?_⟩
    obtain ⟨s, isStatement, same⟩ := List.mem_map.1 leads
    obtain rfl : s = .command c := Node.statement.inj same
    obtain ⟨_, _, _, -, found⟩ := statements _ isStatement
    exact noAssignment_of_isStatement found
  · obtain ⟨next, vs, found, written⟩ := inside.forall_mem written
    exact ⟨wellFormed_of_isNode found written, fun c => noAssignment_of_leads found⟩

/-- A pipeline inside a loop, and behind it a command whose argument is left open. -/
theorem parse_well_formed_open :
    ∃ p, parse "for x in y\ndo\nb $x | c\ndone\nd $\x7be" false = .ok p ∧
      p.body.map (fun s => (Node.statement s).tag) = [.loop, .command] ∧
      ∀ n ∈ (Node.program p).walk, n.WellFormed (WarnsOfReference (Parser.ofSource
          (.text "for x in y\ndo\nb $x | c\ndone\nd $\x7be") false).parse.2.lexerWarnings) ∧
        ∀ c, n.Leads c → c.NoAssignment := by
  generalize script : "for x in y\ndo\nb $x | c\ndone\nd $\x7be" = source
  have parses : ((parse source false).casesOn (fun _ => false) fun p =>
      decide (p.body.map (fun s => (Node.statement s).tag) = [.loop, .command])) = true := by
    subst script
    decide +kernel
  cases parsed : parse source false with
  | error e => simp [parsed] at parses
  | ok p =>
    simp only [parsed, decide_eq_true_eq] at parses
    exact ⟨p, rfl, parses, parse_well_formed source parsed⟩

end ShellScript
