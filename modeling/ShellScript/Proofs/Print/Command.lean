/-
# ShellScript.Proofs.Print.Command -- what written commands read as

The tokens of expressions, redirections and commands as they are written, and the
phrases that these tokens form.  A phrase means what was written, up to positions;
so of a tree it is only said which tokens show it (`Expr.Shown`, `Command.Shown`).
-/
import ShellScript.Proofs.Lexing.Pieces
import ShellScript.Proofs.Tree.Unplaced

namespace ShellScript

set_option autoImplicit false

open Grammar Lexing Parse

/-! ## Expressions -/

/-- One token that means an expression. -/
def Expr.Shown (e : Expr) (ws : List Token) : Prop :=
  ∃ t e', ws = [t] ∧ IsExpr t e' ∧ e'.unplaced = e.unplaced

/-- One token that means an expression and has the given text as an argument. -/
def Expr.ShownAs (text : String) (e : Expr) (ws : List Token) : Prop :=
  ∃ t e', ws = [t] ∧ IsExpr t e' ∧ e'.unplaced = e.unplaced ∧ argumentText t = text

/-- Tokens that mean expressions, one each. -/
def Expr.ShownAll (es : List Expr) (ws : List Token) : Prop :=
  ∃ es', List.Forall₂ IsExpr ws es' ∧ es'.map unplaced = es.map unplaced

/-- Tokens that mean arguments, with their texts. -/
def Expr.ShownAllAs (texts : List String) (es : List Expr) (ws : List Token) : Prop :=
  ∃ es', List.Forall₂ IsExpr ws es' ∧ es'.map unplaced = es.map unplaced ∧
    ws.map argumentText = texts

theorem Expr.ShownAs.shown {text : String} {e : Expr} {ws : List Token} (h : e.ShownAs text ws) :
    e.Shown ws := by
  obtain ⟨t, e', rfl, means, same, -⟩ := h
  exact ⟨t, e', rfl, means, same⟩

section Expressions

variable {text lexeme : String} {position : Option Span} {ws : List Token}

theorem shownAs_word (h : Single .word text lexeme ws) :
    (Expr.literal text false position).ShownAs text ws := by
  obtain ⟨t, rfl, kind, rfl, -⟩ := h
  exact ⟨t, _, rfl, .word kind, rfl, by simp [argumentText, kind]⟩

theorem shownAs_quoted (h : Single .quotedString text lexeme ws) :
    (Expr.literal text true position).ShownAs text ws := by
  obtain ⟨t, rfl, kind, rfl, -⟩ := h
  exact ⟨t, _, rfl, .quoted kind, rfl, by simp [argumentText, kind]⟩

theorem shownAs_reference (h : Single .reference text lexeme ws) :
    (Expr.reference text position).ShownAs lexeme ws := by
  obtain ⟨t, rfl, kind, rfl, rfl⟩ := h
  exact ⟨t, _, rfl, .reference kind, rfl, by simp [argumentText, kind]⟩

end Expressions

theorem lexes_literal {value : String} {quoted : Bool} {position : Option Span}
    (h : (Expr.literal value quoted position).WellFormed) :
    Lexes Breaks (Expr.literal value quoted position).written
      ((Expr.literal value quoted position).ShownAs value) := by
  cases quoted with
  | false => exact (lexes_wordText h).mono fun ws => shownAs_word
  | true =>
    have quoted := lexes_quoted value.toList
    rw [String.ofList_toList] at quoted
    exact quoted.mono fun ws => shownAs_quoted

theorem lexes_written {e : Expr} (h : e.WellFormed) : Lexes Breaks e.written e.Shown := by
  cases e with
  | literal value quoted position => exact (lexes_literal h).mono fun ws => Expr.ShownAs.shown
  | reference name position =>
    have braced := lexes_braced h
    rw [String.ofList_toList] at braced
    exact braced.mono fun ws shown => (shownAs_reference shown).shown

theorem lexes_writtenAs {text : String} {e : Expr} (h : IsArgument text e) :
    Lexes Breaks (e.writtenAs text) (e.ShownAs text) := by
  cases h with
  | literal h => exact lexes_literal h
  | @bare name position inside =>
    have bare := lexes_bare inside
    have chars : ("$" ++ name).toList = '$' :: name.toList := by simp
    rw [String.ofList_toList, ← chars, String.ofList_toList] at bare
    exact bare.mono fun ws => shownAs_reference
  | @braced name position inside =>
    have braced := lexes_braced inside
    have chars : ("$\x7b" ++ name ++ "\x7d").toList = '$' :: '\x7b' :: name.toList ++ ['\x7d'] := by
      simp
    rw [String.ofList_toList, ← chars, String.ofList_toList] at braced
    exact braced.mono fun ws => shownAs_reference

theorem trails_written {es : List Expr} (h : ∀ e ∈ es, e.WellFormed) :
    Trails (es.map Expr.written) (Expr.ShownAll es) := by
  induction es with
  | nil => exact Lexes.nil ⟨[], .nil, rfl⟩
  | cons e es ih =>
    have first := lexes_written (h e List.mem_cons_self)
    have others := ih fun d member => h d (List.mem_cons_of_mem e member)
    refine (Trails.cons first others).mono ?_
    rintro _ ⟨_, vs, rfl, ⟨t, e', rfl, means, same⟩, es', all, sames⟩
    exact ⟨e' :: es', .cons means all, congrArg₂ List.cons same sames⟩

theorem trails_writtenAs {texts : List String} {es : List Expr}
    (h : List.Forall₂ IsArgument texts es) :
    Trails (List.zipWith Expr.writtenAs texts es) (Expr.ShownAllAs texts es) := by
  induction h with
  | nil => exact Lexes.nil ⟨[], .nil, rfl, rfl⟩
  | cons first _ ih =>
    refine (Trails.cons (lexes_writtenAs first) ih).mono ?_
    rintro _ ⟨_, vs, rfl, ⟨t, e', rfl, means, same, written⟩, es', all, sames, texts⟩
    exact ⟨e' :: es', .cons means all, congrArg₂ List.cons same sames,
      congrArg₂ List.cons written texts⟩

/-! ## Redirections -/

/-- Tokens that mean redirections, in front of whatever parts of a command. -/
structure Redirection.ShownAll (rs : List Redirection) (ws : List Token) : Prop where
  parts : ∀ next vs parts, IsParts next vs parts → ∃ rs' : List Redirection,
    IsParts next (ws ++ vs) (rs'.map Part.redirection ++ parts) ∧
      rs'.map unplaced = rs.map unplaced
  opens : (rs = [] ∧ ws = []) ∨ ∃ t us, ws = t :: us ∧ t.kind.isRedirection = true

theorem lexes_redirectionOperator {operator : String}
    (h : operator = ">" ∨ operator = ">>" ∨ operator = "<") :
    Lexes Breaks operator.toList fun ws =>
      ∃ t : Token, ws = [t] ∧ t.kind.isRedirection = true ∧ t.text = operator := by
  have opens {k : Kind} {lexeme : String} (redirects : k.isRedirection = true) (ws : List Token)
      (h : Single k operator lexeme ws) :
      ∃ t : Token, ws = [t] ∧ t.kind.isRedirection = true ∧ t.text = operator := by
    obtain ⟨t, rfl, kind, text, -⟩ := h
    exact ⟨t, rfl, by rw [kind, redirects], text⟩
  rcases h with rfl | rfl | rfl
  · exact (lexes_operator (c := '>') (by decide)).mono (opens (k := .redirectOut) rfl)
  · exact lexes_appendOperator.mono (opens rfl)
  · exact (lexes_operator (c := '<') (by decide)).mono (opens (k := .redirectIn) rfl)

theorem trails_redirections {rs : List Redirection} (h : ∀ r ∈ rs, r.WellFormed) :
    Trails (rs.flatMap Redirection.words) (Redirection.ShownAll rs) := by
  induction rs with
  | nil => exact Lexes.nil ⟨fun next vs parts others => ⟨[], others, rfl⟩, Or.inl ⟨rfl, rfl⟩⟩
  | cons r rs ih =>
    obtain ⟨operator, target⟩ := h r List.mem_cons_self
    have others := ih fun d member => h d (List.mem_cons_of_mem r member)
    have whole := Trails.cons (lexes_redirectionOperator operator)
      (Trails.cons (lexes_written target) others)
    refine whole.mono ?_
    rintro _ ⟨_, _, rfl, ⟨t, rfl, redirects, text⟩, _, ws, rfl, ⟨u, e, rfl, means, same⟩, shown⟩
    refine ⟨fun next vs parts others => ?_, Or.inr ⟨t, [u] ++ ws, rfl, redirects⟩⟩
    obtain ⟨rs', all, sames⟩ := shown.parts next vs parts others
    let r' : Redirection := ⟨t.text, e, Span.reach? t.position (follow (ws ++ vs) next).position⟩
    have whole : IsParts next ([t, u] ++ (ws ++ vs))
        ((r' :: rs').map Part.redirection ++ parts) := .redirection (.mk redirects means) all
    refine ⟨r' :: rs', whole, congrArg₂ List.cons ?_ sames⟩
    simp [r', Redirection.unplaced, text, same]

/-! ## Commands -/

/-- A token that ends a command. -/
def EndsCommand (t : Token) : Prop := t.isWordLike = false ∧ t.kind.isRedirection = false

/-- Tokens that mean a command, in front of what ends it. -/
structure Command.Shown (c : Command) (ws : List Token) : Prop where
  reads : ∀ next, EndsCommand next → ∃ c', IsCommand next ws c' ∧ c'.unplaced = c.unplaced
  other : c.NoAssignment → ∀ vs, (∀ t ∈ vs.head?, t.kind ≠ .word) → ¬ StartsAssignment (ws ++ vs)

/-- Arguments alone are the parts of a command. -/
theorem isParts_arguments {next : Token} {ws : List Token} {es : List Expr}
    (h : List.Forall₂ IsExpr ws es) :
    IsParts next ws (List.zipWith Part.argument (ws.map argumentText) es) := by
  induction h with
  | nil => exact .nil
  | cons first _ ih => exact .argument first ih

/-- The parts of a command, sorted: redirections first. -/
theorem parts_sorted (rs : List Redirection) {texts : List String} {es : List Expr}
    (same : texts.length = es.length) :
    let parts := rs.map Part.redirection ++ List.zipWith Part.argument texts es
    parts.filterMap Part.text? = texts ∧ parts.filterMap Part.expr? = es ∧
      parts.filterMap Part.redirection? = rs := by
  have arguments : (List.zipWith Part.argument texts es).filterMap Part.text? = texts ∧
      (List.zipWith Part.argument texts es).filterMap Part.expr? = es ∧
      (List.zipWith Part.argument texts es).filterMap Part.redirection? = [] := by
    induction texts generalizing es with
    | nil =>
      obtain rfl : es = [] := List.eq_nil_of_length_eq_zero same.symm
      exact ⟨rfl, rfl, rfl⟩
    | cons text texts ih =>
      cases es with
      | nil => cases same
      | cons e es =>
        obtain ⟨left, mid, right⟩ := ih (Nat.succ.inj same)
        exact ⟨congrArg (text :: ·) left, congrArg (e :: ·) mid, right⟩
  obtain ⟨left, mid, right⟩ := arguments
  simp only [List.filterMap_append, left, mid, right, List.filterMap_map]
  refine ⟨?_, ?_, ?_⟩
  · simp [Function.comp_def, Part.text?]
  · simp [Function.comp_def, Part.expr?]
  · simp [Function.comp_def, Part.redirection?]

section Shown

variable {c : Command} {t : Token} {us vs : List Token}

theorem isCommand_of_shown (kind : t.kind = .word) (text : t.text = c.name)
    (first : Redirection.ShownAll c.redirections us)
    (others : Expr.ShownAllAs c.args c.arguments vs) {next : Token} (ends : EndsCommand next) :
    ∃ c', IsCommand next (t :: (us ++ vs)) c' ∧ c'.unplaced = c.unplaced := by
  obtain ⟨es, all, sames, texts⟩ := others
  obtain ⟨rs, parts, sames'⟩ := first.parts next vs _ (isParts_arguments all)
  have length : (vs.map argumentText).length = es.length := by
    rw [List.length_map, all.length_eq]
  obtain ⟨left, mid, right⟩ := parts_sorted rs length
  refine ⟨_, .mk kind parts ends.1 ends.2, ?_⟩
  simp only [Command.unplaced, left, mid, right, text, sames, sames']
  rw [texts]

/-- A token that means the first of some expressions, up to positions, where that is no
word `=`. -/
theorem not_isWord_of_isExpr {e : Expr} {es ds : List Expr} (means : IsExpr t e)
    (sames : (e :: es).map Expr.unplaced = ds.map Expr.unplaced)
    (free : ∀ position, ds.head? ≠ some (.literal "=" false position)) : ¬ t.isWord "=" = true := by
  intro sign
  obtain ⟨word, value⟩ : t.kind = .word ∧ t.text = "=" := by simpa [Token.isWord] using sign
  cases means with
  | word =>
    cases ds with
    | nil => cases sames
    | cons d ds =>
      have same := (List.cons.inj sames).1
      cases d with
      | literal value' quoted position =>
        obtain ⟨rfl, rfl⟩ : t.text = value' ∧ false = quoted := by
          simpa [Expr.unplaced] using same
        exact free position (by rw [value]; rfl)
      | reference => simp [Expr.unplaced] at same
  | quoted kind => rw [kind] at word; cases word
  | reference kind => rw [kind] at word; cases word

/-- No redirection is the word `=`, and neither is the first argument. -/
theorem not_startsAssignment_of_shown (first : Redirection.ShownAll c.redirections us)
    (others : Expr.ShownAllAs c.args c.arguments vs) (free : c.NoAssignment) {ws : List Token}
    (last : ∀ t ∈ ws.head?, t.kind ≠ .word) : ¬ StartsAssignment (t :: (us ++ vs) ++ ws) := by
  rintro ⟨name, equals, rest, split, -, sign⟩
  have word : equals.kind = .word := (kind_of_isWord sign).1
  have behind : us ++ vs ++ ws = equals :: rest := (List.cons.inj split).2
  obtain ⟨es, all, sames, -⟩ := others
  rcases first.opens with ⟨none, rfl⟩ | ⟨u, us, rfl, redirects⟩
  · cases all with
    | nil => exact last equals (by simpa using congrArg List.head? behind) word
    | cons means _ =>
      obtain rfl := (List.cons.inj behind).1
      exact not_isWord_of_isExpr means sames (free none) sign
  · obtain rfl := (List.cons.inj behind).1
    rw [word] at redirects
    cases redirects

end Shown

theorem lexes_command {c : Command} (h : c.WellFormed) :
    Lexes Breaks (Text.spaced c.words) c.Shown := by
  have whole := Trails.spaced (lexes_wordText h.name)
    (Trails.append (trails_redirections h.redirections) (trails_writtenAs h.arguments))
  refine whole.mono ?_
  rintro _ ⟨_, _, rfl, ⟨t, rfl, kind, text, -⟩, us, vs, rfl, first, others⟩
  exact ⟨fun next => isCommand_of_shown kind text first others,
    fun free ws => not_startsAssignment_of_shown first others free⟩

/-- Tokens that mean commands, each with a bar in front. -/
structure Command.ShownPiped (cs : List Command) (ws : List Token) : Prop where
  reads : ∀ next, EndsCommand next → next.kind ≠ .pipe →
    ∃ cs', IsPiped next ws cs' ∧ cs'.map unplaced = cs.map unplaced
  bar : ∀ t ∈ ws.head?, t.kind = .pipe

theorem Command.ShownPiped.endsCommand {cs : List Command} {ws : List Token} {next : Token}
    (h : ShownPiped cs ws) (ends : EndsCommand next) : EndsCommand (follow ws next) := by
  cases ws with
  | nil => exact ends
  | cons t ws =>
    have kind := h.bar t (by simp)
    exact ⟨by simp [Token.isWordLike, kind, Kind.isWordLike], by simp [kind, Kind.isRedirection]⟩

theorem trails_piped {cs : List Command} (h : ∀ c ∈ cs, c.WellFormed) :
    Trails (cs.flatMap fun c => ['|'] :: c.words) (Command.ShownPiped cs) := by
  induction cs with
  | nil => exact Lexes.nil ⟨fun next _ no_pipe => ⟨[], .nil no_pipe, rfl⟩, by simp⟩
  | cons c cs ih =>
    have bar : Lexes Breaks ['|'] _ := lexes_operator (c := '|') (k := .pipe) (by decide)
    have first : Trails c.words c.Shown := (lexes_command (h c List.mem_cons_self)).space
    have others := ih fun d member => h d (List.mem_cons_of_mem c member)
    have whole := Trails.append (Trails.cons bar first) others
    refine whole.mono ?_
    rintro _ ⟨_, ws, rfl, ⟨_, us, rfl, ⟨t, rfl, kind, -, -⟩, shown⟩, piped⟩
    refine ⟨fun next ends no_pipe => ?_, by simp [kind]⟩
    obtain ⟨cs', all, sames⟩ := piped.reads next ends no_pipe
    obtain ⟨c', reads, same⟩ := shown.reads _ (piped.endsCommand ends)
    exact ⟨c' :: cs', .cons kind reads all, congrArg₂ List.cons same sames⟩

end ShellScript
