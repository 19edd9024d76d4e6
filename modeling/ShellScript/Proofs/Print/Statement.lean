/-
# ShellScript.Proofs.Print.Statement -- what written statements read as

A statement is written in lines, and the line feed behind its last line is the token
that follows it.  `readsBack` goes through the tree: one lemma for each rule says that
a statement reads back if those inside do.
-/
import ShellScript.Proofs.Print.Command

namespace ShellScript

set_option autoImplicit false

open Grammar Lexing Parse

namespace Statement

/-- Tokens that mean a statement, and the line feed that ends its last line. -/
def Shown (s : Statement) (ws : List Token) : Prop :=
  ∃ us t s', ws = us ++ [t] ∧ t.kind = .newline ∧ IsStatement t us s' ∧ s'.unplaced = s.unplaced

/-- Tokens that mean statements, line after line. -/
def ShownAll (ss : List Statement) (ws : List Token) : Prop :=
  ∀ next, ∃ ss', IsBlock IsStatement next ws ss' ∧ unplacedAll ss' = unplacedAll ss

/-- The lines of a statement read as that statement. -/
abbrev ReadsBack (s : Statement) : Prop := Lexes Anything (Text.unlines s.lines) s.Shown

/-- The lines of statements read as those statements. -/
abbrev ReadsBackAll (ss : List Statement) : Prop :=
  Lexes Anything (Text.unlines (linesAll ss)) (ShownAll ss)

theorem ShownAll.newline {ss : List Statement} {t : Token} {ws : List Token}
    (kind : t.kind = .newline) (h : ShownAll ss ws) : ShownAll ss (t :: ws) := by
  intro next
  obtain ⟨ss', block, same⟩ := h next
  exact ⟨ss', .newline kind block, same⟩

end Statement

open Statement (ShownAll ReadsBackAll unplaced unplacedAll)

/-- A line feed ends a command and a pipeline. -/
theorem ends_of_newline {t : Token} (kind : t.kind = .newline) :
    EndsCommand t ∧ t.kind ≠ .pipe := by
  rw [EndsCommand, Token.isWordLike, kind]
  exact ⟨⟨rfl, rfl⟩, Kind.noConfusion⟩

/-! ## Statements of one line -/

/-- A line that gives a statement in front of a line feed. -/
theorem lexes_oneLine {s : Statement} {line : List (List Char)} {P : List Token → Prop}
    (first : Lexes Breaks (Text.spaced line) P)
    (reads : ∀ ws t, P ws → t.kind = .newline →
      ∃ s', IsStatement t ws s' ∧ s'.unplaced = s.unplaced) :
    Lexes Anything (Text.unlines [line]) s.Shown := by
  have whole : Lexes Anything (Text.unlines [line]) (Lined P (· = [])) := first.line (.nil rfl)
  refine whole.mono ?_
  rintro _ ⟨us, t, _, rfl, found, kind, rfl⟩
  obtain ⟨s', h, same⟩ := reads us t found kind
  exact ⟨us, t, s', rfl, kind, h, same⟩

theorem readsBack_command {c : Command} (h : c.WellFormed) (free : c.NoAssignment) :
    (Statement.command c).ReadsBack := by
  refine lexes_oneLine (lexes_command h) fun ws t shown kind => ?_
  obtain ⟨ends, no_pipe⟩ := ends_of_newline kind
  obtain ⟨c', reads, same⟩ := shown.reads t ends
  have other := shown.other free [] (by simp)
  rw [List.append_nil] at other
  exact ⟨_, .pipeline (.command reads no_pipe) other, congrArg Statement.command same⟩

theorem lexes_pipelineLine {c : Command} {cs : List Command} (h : c.WellFormed)
    (others : ∀ d ∈ cs, d.WellFormed) :
    Lexes Breaks (Text.spaced (c.words ++ cs.flatMap fun d => ['|'] :: d.words))
      (Both c.Shown (Command.ShownPiped cs)) := by
  have split : Text.spaced (c.words ++ cs.flatMap fun d => ['|'] :: d.words) =
      Text.spaced c.words ++ (cs.flatMap fun d => ['|'] :: d.words).flatMap (' ' :: ·) := by
    simp [Command.words, Text.spaced]
  rw [split]
  exact (lexes_command h).append (trails_piped others) fun _ => breaks_spaces

theorem readsBack_pipeline {first second : Command} {others : List Command} {position : Option Span}
    (h : first.WellFormed) (free : first.NoAssignment)
    (all : ∀ c ∈ second :: others, c.WellFormed) :
    (Statement.pipeline first second others position).ReadsBack := by
  refine lexes_oneLine (lexes_pipelineLine h all) ?_
  rintro _ t ⟨us, vs, rfl, shown, piped⟩ kind
  obtain ⟨ends, no_pipe⟩ := ends_of_newline kind
  obtain ⟨c, reads, same⟩ := shown.reads _ (piped.endsCommand ends)
  obtain ⟨ds, rest, sames⟩ := piped.reads t ends no_pipe
  have bar : ∀ u ∈ vs.head?, u.kind ≠ .word := by
    intro u head word
    rw [piped.bar u head] at word
    cases word
  cases ds with
  | nil => cases sames
  | cons d ds =>
    obtain ⟨same', sames⟩ := List.cons.inj sames
    refine ⟨_, .pipeline (.pipeline reads rest) (shown.other free vs bar), ?_⟩
    simp [unplaced, same, same', sames]

theorem readsBack_assignment {name : String} {value : Expr} {position : Option Span}
    (h : IsWordText name) (inside : value.WellFormed) :
    (Statement.assignment name value position).ReadsBack := by
  have equals : IsWordText "=" := Or.inr ⟨'=', rfl, by decide, rfl⟩
  have line := Trails.spaced (lexes_wordText h) (Trails.cons (lexes_wordText equals)
    (Trails.cons (lexes_written inside) Trails.nil))
  refine lexes_oneLine line ?_
  intro ws t given _
  obtain ⟨_, _, rfl, ⟨u, rfl, kind, text, -⟩, behind⟩ := given
  obtain ⟨_, _, rfl, ⟨equals, rfl, word, equal, -⟩, last⟩ := behind
  obtain ⟨_, _, rfl, ⟨v, e, rfl, means, same⟩, rfl⟩ := last
  have sign : equals.isWord "=" = true := by simp [Token.isWord, word, equal]
  refine ⟨_, .assignment (.mk kind sign means), ?_⟩
  simp [unplaced, text, same]

/-! ## Parts of compound statements -/

/-- Tokens that mean the header of a compound statement. -/
def Expr.ShownHeader (e : Expr) (es : List Expr) (ws : List Token) : Prop :=
  ∃ e' es', IsHeader ws e' es' ∧ e'.unplaced = e.unplaced ∧ es'.map unplaced = es.map unplaced

/-- The first line of a compound statement, with its header at the end. -/
theorem lexes_headed {opening : List (List Char)} (nonempty : opening ≠ []) {e : Expr}
    {es : List Expr} {lines : List (List (List Char))} {P Q : List Token → Prop}
    (first : Lexes Breaks (Text.spaced opening) P) (header : ∀ d ∈ e :: es, d.WellFormed)
    (others : Lexes Anything (Text.unlines lines) Q) :
    Lexes Anything (Text.unlines ((opening ++ (e :: es).map Expr.written) :: lines))
      (Both P (Both (Expr.ShownHeader e es) Q)) := by
  have split : Text.spaced (opening ++ (e :: es).map Expr.written) =
      Text.spaced opening ++ ((e :: es).map Expr.written).flatMap (' ' :: ·) := by
    cases opening with
    | nil => exact absurd rfl nonempty
    | cons w ws => simp [Text.spaced]
  have line : Lexes Breaks (Text.spaced (opening ++ (e :: es).map Expr.written)) _ :=
    split ▸ first.append (trails_written header) fun _ => breaks_spaces
  refine (line.line others).mono ?_
  rintro _ ⟨_, t, vs, rfl, ⟨us, ws, rfl, found, es', all, sames⟩, kind, rest⟩
  cases all with
  | nil => cases sames
  | @cons u e' ws es' means all =>
    obtain ⟨same, sames⟩ := List.cons.inj sames
    have separators : ∀ s ∈ [t], s.kind.isHeaderSeparator = true := by
      simp [kind, Kind.isHeaderSeparator]
    exact ⟨us, u :: ws ++ [t] ++ vs, by simp, found, u :: ws ++ [t], vs, rfl,
      ⟨e', es', .mk means all separators, same, sames⟩, rest⟩

/-- A line with a reserved word, in front of statements. -/
theorem lexes_opened {s : String} {k : Kind} (listed : (s, k) ∈ Kind.keywords)
    {ss : List Statement} {lines : List (List (List Char))}
    (inside : Lexes Anything (Text.unlines lines) (ShownAll ss)) :
    Lexes Anything (Text.unlines ([s.toList] :: lines)) fun ws =>
      ∃ t vs, ws = t :: vs ∧ t.kind = k ∧ ShownAll ss vs := by
  have word : Lexes Breaks (Text.spaced [s.toList]) (Single k s s) := by
    simpa [Text.spaced] using lexes_keyword listed
  refine (word.line inside).mono ?_
  rintro _ ⟨_, nl, vs, rfl, ⟨t, rfl, kind, -, -⟩, feed, shown⟩
  exact ⟨t, nl :: vs, rfl, kind, shown.newline feed⟩

/-- The last line of a compound statement. -/
theorem lexes_closed {w : List Char} {k : Kind} {text lexeme : String}
    (closer : Lexes Breaks w (Single k text lexeme)) :
    Lexes Anything (Text.unlines [[w]]) fun ws =>
      ∃ t nl, ws = [t, nl] ∧ t.kind = k ∧ nl.kind = .newline := by
  have word : Lexes Breaks (Text.spaced [w]) (Single k text lexeme) := by
    simpa [Text.spaced] using closer
  have whole : Lexes Anything (Text.unlines [[w]]) (Lined _ (· = [])) := word.line (.nil rfl)
  refine whole.mono ?_
  rintro _ ⟨_, nl, _, rfl, ⟨t, rfl, kind, -, -⟩, feed, rfl⟩
  exact ⟨t, nl, rfl, kind, feed⟩

/-! ## Compound statements -/

section Compound

variable {position : Option Span} {condition : Expr} {args : List Expr}
  {body thenBody elseBody : List Statement}

/-- A conditional up to the end of its first block. -/
theorem lexes_ifThen (header : ∀ e ∈ condition :: args, e.WellFormed)
    (inside : ReadsBackAll thenBody) :
    Lexes Anything (Text.unlines (("if".toList :: (condition :: args).map Expr.written) ::
        ["then".toList] :: Statement.linesAll thenBody)) fun ws =>
      ∃ kwIf hs kwThen us, ws = kwIf :: hs ++ kwThen :: us ∧ kwIf.kind = .kwIf ∧
        condition.ShownHeader args hs ∧ kwThen.kind = .kwThen ∧ ShownAll thenBody us := by
  have opening : Lexes Breaks (Text.spaced ["if".toList]) (Single .kwIf "if" "if") :=
    lexes_keyword (by decide)
  have whole := lexes_headed (by simp) opening header
    (lexes_opened (s := "then") (k := .kwThen) (by decide) inside)
  refine whole.mono ?_
  intro ws given
  obtain ⟨_, _, rfl, ⟨kwIf, rfl, if_kind, -, -⟩, hs, _, rfl, head, kwThen, us, rfl, then_kind,
    shown⟩ := given
  exact ⟨kwIf, hs, kwThen, us, rfl, if_kind, head, then_kind, shown⟩

theorem readsBack_noElse (header : ∀ e ∈ condition :: args, e.WellFormed)
    (inside : ReadsBackAll thenBody) :
    (Statement.conditional condition args thenBody none position).ReadsBack := by
  have whole := (lexes_ifThen header inside).lines
    (lexes_closed (lexes_keyword (s := "fi") (k := .kwFi) (by decide)))
  refine whole.mono ?_
  intro ws given
  obtain ⟨_, _, rfl, front, kwFi, nl, rfl, fi_kind, feed⟩ := given
  obtain ⟨kwIf, hs, kwThen, ws, rfl, if_kind, head, then_kind, shown⟩ := front
  obtain ⟨e, es, means, same, sames⟩ := head
  obtain ⟨ss, block, statements⟩ := shown kwFi
  refine ⟨kwIf :: hs ++ kwThen :: ws ++ [kwFi], nl, _, by simp, feed,
    .conditional (.noElse if_kind means then_kind block fi_kind), ?_⟩
  simp [unplaced, same, sames, statements]

theorem readsBack_withElse (header : ∀ e ∈ condition :: args, e.WellFormed)
    (inside : ReadsBackAll thenBody) (inside' : ReadsBackAll elseBody) :
    (Statement.conditional condition args thenBody (some elseBody) position).ReadsBack := by
  have second := lexes_opened (s := "else") (k := .kwElse) (by decide) inside'
  have whole := ((lexes_ifThen header inside).lines second).lines
    (lexes_closed (lexes_keyword (s := "fi") (k := .kwFi) (by decide)))
  refine whole.mono ?_
  intro ws given
  obtain ⟨_, _, rfl, parts, kwFi, nl, rfl, fi_kind, feed⟩ := given
  obtain ⟨_, _, rfl, front, kwElse, ws, rfl, else_kind, shown'⟩ := parts
  obtain ⟨kwIf, hs, kwThen, us, rfl, if_kind, head, then_kind, shown⟩ := front
  obtain ⟨e, es, means, same, sames⟩ := head
  obtain ⟨ss, block, statements⟩ := shown kwElse
  obtain ⟨ss', block', statements'⟩ := shown' kwFi
  refine ⟨kwIf :: hs ++ kwThen :: us ++ kwElse :: ws ++ [kwFi], nl, _, by simp, feed,
    .conditional (.withElse if_kind means then_kind block else_kind block' fi_kind), ?_⟩
  simp [unplaced, same, sames, statements, statements']

/-- What stands behind the header of a loop. -/
theorem lexes_loopBody (inside : ReadsBackAll body) {opening : List (List Char)}
    (nonempty : opening ≠ []) {P : List Token → Prop} (first : Lexes Breaks (Text.spaced opening) P)
    (header : ∀ e ∈ condition :: args, e.WellFormed) :
    Lexes Anything (Text.unlines ((opening ++ (condition :: args).map Expr.written) ::
        ["do".toList] :: Statement.linesAll body ++ [["done".toList]])) fun ws =>
      ∃ us hs kwDo vs kwDone nl, ws = us ++ hs ++ kwDo :: vs ++ [kwDone] ++ [nl] ∧ P us ∧
        condition.ShownHeader args hs ∧ kwDo.kind = .kwDo ∧ ShownAll body vs ∧
        kwDone.kind = .kwDone ∧ nl.kind = .newline := by
  have front := lexes_headed nonempty first header
    (lexes_opened (s := "do") (k := .kwDo) (by decide) inside)
  have whole := front.lines (lexes_closed (lexes_keyword (s := "done") (k := .kwDone) (by decide)))
  refine whole.mono ?_
  intro ws given
  obtain ⟨_, _, rfl, front, kwDone, nl, rfl, done_kind, feed⟩ := given
  obtain ⟨us, _, rfl, found, hs, _, rfl, head, kwDo, vs, rfl, do_kind, shown⟩ := front
  exact ⟨us, hs, kwDo, vs, kwDone, nl, by simp, found, head, do_kind, shown, done_kind, feed⟩

theorem readsBack_while (header : ∀ e ∈ condition :: args, e.WellFormed)
    (inside : ReadsBackAll body) :
    (Statement.loop (.whileDo condition) args [] body position).ReadsBack := by
  have opening : Lexes Breaks (Text.spaced ["while".toList]) (Single .kwWhile "while" "while") :=
    lexes_keyword (by decide)
  refine (lexes_loopBody inside (by simp) opening header).mono ?_
  intro ws given
  obtain ⟨_, hs, kwDo, vs, kwDone, nl, rfl, ⟨kwWhile, rfl, while_kind, -, -⟩, head, do_kind,
    shown, done_kind, feed⟩ := given
  obtain ⟨e, es, means, same, sames⟩ := head
  obtain ⟨ss, block, statements⟩ := shown kwDone
  refine ⟨kwWhile :: hs ++ kwDo :: vs ++ [kwDone], nl, _, rfl, feed,
    .loop (.whileDo while_kind means do_kind block done_kind), ?_⟩
  simp [unplaced, LoopHeader.unplaced, same, sames, statements]

theorem readsBack_for {name : String} (h : IsWordText name)
    (header : ∀ e ∈ condition :: args, e.WellFormed)
    (inside : ReadsBackAll body) :
    (Statement.loop (.forIn name condition) [] (condition :: args) body position).ReadsBack := by
  have letters : "in".toList.all Charset.isWord = true := by decide
  have sign : IsWordText "in" := Or.inl ⟨by decide, List.all_eq_true.1 letters, by decide⟩
  have opening := Trails.spaced (lexes_keyword (s := "for") (k := .kwFor) (by decide))
    (Trails.cons (lexes_wordText h) (Trails.cons (lexes_wordText sign) Trails.nil))
  refine (lexes_loopBody inside (by simp) opening header).mono ?_
  intro ws given
  obtain ⟨_, hs, kwDo, vs, kwDone, nl, rfl, opened, head, do_kind, shown, done_kind, feed⟩ := given
  obtain ⟨_, _, rfl, ⟨kwFor, rfl, for_kind, -, -⟩, behind⟩ := opened
  obtain ⟨_, _, rfl, ⟨t, rfl, name_kind, text, -⟩, last⟩ := behind
  obtain ⟨_, _, rfl, ⟨kwIn, rfl, word, equal, -⟩, rfl⟩ := last
  obtain ⟨e, es, means, same, sames⟩ := head
  obtain ⟨ss, block, statements⟩ := shown kwDone
  have in_word : kwIn.isWord "in" = true := by simp [Token.isWord, word, equal]
  refine ⟨kwFor :: t :: kwIn :: hs ++ kwDo :: vs ++ [kwDone], nl, _, rfl, feed,
    .loop (.forIn for_kind name_kind in_word means do_kind block done_kind), ?_⟩
  simp [unplaced, LoopHeader.unplaced, text, same, sames, statements]

theorem readsBack_function {name : String} (h : IsWordText name)
    (inside : ReadsBackAll body) : (Statement.function name body position).ReadsBack := by
  have parentheses : Lexes Breaks ['(', ')'] _ :=
    (lexes_operator (c := '(') (k := .lparen) (by decide)).append
      (lexes_operator (c := ')') (k := .rparen) (by decide))
      fun rest _ => ⟨')', rest, rfl, by simp⟩
  have called := (lexes_wordText h).append parentheses fun rest _ => ⟨'(', ')' :: rest, rfl, by simp⟩
  have opening := Trails.spaced (lexes_keyword (s := "function") (k := .kwFunction) (by decide))
    (Trails.cons called (Trails.cons (lexes_operator (c := '\x7b') (k := .lbrace) (by decide))
      Trails.nil))
  have whole := (opening.line inside).lines
    (lexes_closed (lexes_operator (c := '\x7d') (k := .rbrace) (by decide)))
  refine whole.mono ?_
  intro ws given
  obtain ⟨_, _, rfl, front, rbrace, nl, rfl, rbrace_kind, feed'⟩ := given
  obtain ⟨_, start, ws, rfl, opened, feed, shown⟩ := front
  obtain ⟨_, _, rfl, ⟨kwFunction, rfl, function_kind, -, -⟩, behind⟩ := opened
  obtain ⟨_, _, rfl, signature, _, _, rfl, ⟨lbrace, rfl, lbrace_kind, -, -⟩, rfl⟩ := behind
  obtain ⟨_, _, rfl, ⟨t, rfl, name_kind, text, -⟩, parenthesized⟩ := signature
  obtain ⟨_, _, rfl, ⟨lparen, rfl, lparen_kind, -, -⟩, rparen, rfl, rparen_kind, -, -⟩ :=
    parenthesized
  obtain ⟨ss, block, statements⟩ := shown rbrace
  refine ⟨kwFunction :: t :: lparen :: rparen :: lbrace :: (start :: ws) ++ [rbrace], nl, _,
    by simp, feed', .function (.mk function_kind name_kind lparen_kind rparen_kind lbrace_kind
      (.newline feed block) rbrace_kind), ?_⟩
  simp [unplaced, text, statements]

end Compound

/-! ## Trees -/

theorem readsBackAll_cons {s : Statement} {ss : List Statement}
    (first : s.ReadsBack) (others : ReadsBackAll ss) : ReadsBackAll (s :: ss) := by
  refine (first.lines others).mono ?_
  rintro _ ⟨_, ws, rfl, ⟨us, t, s', rfl, kind, h, same⟩, shown⟩ next
  obtain ⟨ss', block, sames⟩ := shown next
  refine ⟨s' :: ss', ?_, congrArg₂ List.cons same sames⟩
  rw [List.append_assoc]
  exact .separated h (Or.inr kind) block

mutual

/-- Well-formed statements read back. -/
theorem readsBack : (s : Statement) → s.WellFormed → s.ReadsBack
  | .command _, ⟨h, free⟩ => readsBack_command h free
  | .pipeline _ _ _ _, ⟨h, free, all⟩ => readsBack_pipeline h free all
  | .conditional _ _ thenBody none _, ⟨header, inside⟩ =>
      readsBack_noElse header (readsBackAll thenBody inside)
  | .conditional _ _ thenBody (some elseBody) _, ⟨header, inside, inside'⟩ =>
      readsBack_withElse header (readsBackAll thenBody inside) (readsBackAll elseBody inside')
  | .loop (.forIn name iterable) args (e :: es) body _, h => by
      obtain ⟨word, rfl, head, header, inside⟩ := h
      obtain rfl : e = iterable := Option.some.inj head
      exact readsBack_for word header (readsBackAll body inside)
  | .loop (.forIn _ _) _ [] _ _, ⟨_, _, head, _, _⟩ => nomatch head
  | .loop (.whileDo _) _ items body _, h => by
      obtain ⟨header, rfl, inside⟩ := h
      exact readsBack_while header (readsBackAll body inside)
  | .function _ body _, ⟨h, inside⟩ => readsBack_function h (readsBackAll body inside)
  | .assignment _ _ _, ⟨h, inside⟩ => readsBack_assignment h inside

theorem readsBackAll : (ss : List Statement) → Statement.WellFormedAll ss → ReadsBackAll ss
  | [], _ => .nil fun _ => ⟨[], .nil, rfl⟩
  | s :: ss, ⟨h, others⟩ => readsBackAll_cons (readsBack s h) (readsBackAll ss others)

end

end ShellScript
