/-
# ShellScript.Proofs.Wrapping -- a script inside a compound statement

A script on its own is read by the lenient top level, and inside a compound statement by the
strict parser of blocks.  Where the script is accepted both give the same statements: a
`Wrapper` around it is accepted as one statement exactly if the script is accepted, and holds
its statements (`wrap_accepts`).

The tokens of a wrapped script are those of the script, moved, with an opening and a closing
around them (`Wrapper.Around`).  No script closes the wrapper early to open another behind
it: the statement that starts with the opening ends with the last token.
-/
import ShellScript.Proofs.Composition
import ShellScript.Proofs.Parse.Elsewhere
import ShellScript.Proofs.Recognition

namespace ShellScript

set_option autoImplicit false

open Grammar Parse

/-! ## Parts of a statement -/

namespace Statement

/-- The statements inside a compound statement, without those behind `else`. -/
def block? : Statement → Option (List Statement)
  | conditional _ _ thenBody _ _ => some thenBody
  | loop _ _ _ body _ => some body
  | function _ body _ => some body
  | _ => none

/-- The statements behind `else`, if there is one. -/
def elseBody? : Statement → Option (List Statement)
  | conditional _ _ _ elseBody _ => elseBody
  | _ => none

theorem nesting_of_block {s : Statement} {body : List Statement} (inside : s.block? = some body) :
    nestingAll body + 1 ≤ s.nesting := by
  cases s with
  | conditional _ _ _ elseBody _ =>
    obtain rfl := Option.some.inj inside
    cases elseBody with
    | none => exact Nat.le_refl _
    | some elseBody => exact Nat.succ_le_succ (Nat.le_max_left _ _)
  | loop =>
    obtain rfl := Option.some.inj inside
    exact Nat.le_refl _
  | function =>
    obtain rfl := Option.some.inj inside
    exact Nat.le_refl _
  | command => cases inside
  | pipeline => cases inside
  | assignment => cases inside

end Statement

/-! ## Wrappers -/

/-- A compound statement around a script. -/
inductive Wrapper where
  | conditional
  | loop
  | function

namespace Wrapper

/-- The lines in front of the script. -/
def opening : Wrapper → String
  | conditional => "if x\nthen"
  | loop => "while x\ndo"
  | function => "function f() \x7b"

/-- The line behind the script. -/
def closing : Wrapper → String
  | conditional => "fi"
  | loop => "done"
  | function => "\x7d"

/-- A script inside the wrapper. -/
def wrap (w : Wrapper) (source : String) : String :=
  w.opening ++ "\n" ++ source ++ "\n" ++ w.closing

/-- The kinds of the tokens in front of the script. -/
def openingKinds : Wrapper → List Kind
  | conditional => [.kwIf, .word, .newline, .kwThen]
  | loop => [.kwWhile, .word, .newline, .kwDo]
  | function => [.kwFunction, .word, .lparen, .rparen, .lbrace]

/-- The kind of the token behind the script. -/
def closer : Wrapper → Kind
  | conditional => .kwFi
  | loop => .kwDone
  | function => .rbrace

/-- The tokens of a wrapper around `ws`, which stand on lines of their own. -/
inductive Around (ws : List Token) : Wrapper → List Token → Prop
  | conditional {kwIf word endLine kwThen feed feed' kwFi : Token} (if_kind : kwIf.kind = .kwIf)
      (word_kind : word.kind = .word) (line_kind : endLine.kind = .newline)
      (then_kind : kwThen.kind = .kwThen) (feed_kind : feed.kind = .newline)
      (feed_kind' : feed'.kind = .newline) (fi_kind : kwFi.kind = .kwFi) :
      Around ws .conditional (kwIf :: word :: endLine :: kwThen :: feed :: ws ++ [feed', kwFi])
  | loop {kwWhile word endLine kwDo feed feed' kwDone : Token}
      (while_kind : kwWhile.kind = .kwWhile) (word_kind : word.kind = .word)
      (line_kind : endLine.kind = .newline) (do_kind : kwDo.kind = .kwDo)
      (feed_kind : feed.kind = .newline) (feed_kind' : feed'.kind = .newline)
      (done_kind : kwDone.kind = .kwDone) :
      Around ws .loop (kwWhile :: word :: endLine :: kwDo :: feed :: ws ++ [feed', kwDone])
  | function {kwFunction name lparen rparen lbrace feed feed' rbrace : Token}
      (function_kind : kwFunction.kind = .kwFunction) (name_kind : name.kind = .word)
      (lparen_kind : lparen.kind = .lparen) (rparen_kind : rparen.kind = .rparen)
      (lbrace_kind : lbrace.kind = .lbrace) (feed_kind : feed.kind = .newline)
      (feed_kind' : feed'.kind = .newline) (rbrace_kind : rbrace.kind = .rbrace) :
      Around ws .function
        (kwFunction :: name :: lparen :: rparen :: lbrace :: feed :: ws ++ [feed', rbrace])

theorem around_of_kinds {w : Wrapper} {front ws : List Token} {feed feed' last : Token}
    (kinds : front.map Token.kind = w.openingKinds) (feed_kind : feed.kind = .newline)
    (feed_kind' : feed'.kind = .newline) (closer_kind : last.kind = w.closer) :
    Around ws w (front ++ feed :: ws ++ [feed', last]) := by
  cases w with
  | conditional =>
    obtain ⟨kwIf, _, rfl, if_kind, kinds⟩ := List.map_eq_cons_iff.1 kinds
    obtain ⟨word, _, rfl, word_kind, kinds⟩ := List.map_eq_cons_iff.1 kinds
    obtain ⟨endLine, _, rfl, line_kind, kinds⟩ := List.map_eq_cons_iff.1 kinds
    obtain ⟨kwThen, rfl, then_kind⟩ := List.map_eq_singleton_iff.1 kinds
    exact .conditional if_kind word_kind line_kind then_kind feed_kind feed_kind' closer_kind
  | loop =>
    obtain ⟨kwWhile, _, rfl, while_kind, kinds⟩ := List.map_eq_cons_iff.1 kinds
    obtain ⟨word, _, rfl, word_kind, kinds⟩ := List.map_eq_cons_iff.1 kinds
    obtain ⟨endLine, _, rfl, line_kind, kinds⟩ := List.map_eq_cons_iff.1 kinds
    obtain ⟨kwDo, rfl, do_kind⟩ := List.map_eq_singleton_iff.1 kinds
    exact .loop while_kind word_kind line_kind do_kind feed_kind feed_kind' closer_kind
  | function =>
    obtain ⟨kwFunction, _, rfl, function_kind, kinds⟩ := List.map_eq_cons_iff.1 kinds
    obtain ⟨name, _, rfl, name_kind, kinds⟩ := List.map_eq_cons_iff.1 kinds
    obtain ⟨lparen, _, rfl, lparen_kind, kinds⟩ := List.map_eq_cons_iff.1 kinds
    obtain ⟨rparen, _, rfl, rparen_kind, kinds⟩ := List.map_eq_cons_iff.1 kinds
    obtain ⟨lbrace, rfl, lbrace_kind⟩ := List.map_eq_singleton_iff.1 kinds
    exact .function function_kind name_kind lparen_kind rparen_kind lbrace_kind feed_kind
      feed_kind' closer_kind

/-! ## The tokens of a wrapped script -/

theorem tokens_opening (w : Wrapper) :
    (Lexing.ofScript w.opening false).tokens.map Token.kind = w.openingKinds ++ [.eof] ∧
      (Lexing.ofScript w.opening false).warnings = [] := by
  cases w <;> decide +kernel

theorem tokens_closing (w : Wrapper) :
    (Lexing.ofScript w.closing false).tokens.map Token.kind = [w.closer, .eof] := by
  cases w <;> decide +kernel

/-- The tokens of a script and of the same script behind an opening. -/
theorem tokens_opened (w : Wrapper) {source : String}
    (quiet : (Lexing.ofScript source false).warnings = []) :
    ∃ ws last front, (Lexing.ofScript source false).tokens = ws ++ [last] ∧ last.kind = .eof ∧
      (Lexing.ofScript (w.opening ++ "\n" ++ source) false).tokens =
        front ++ feedBehind w.opening :: ws.map (Token.move (.behind w.opening)) ++
          [last.move (.behind w.opening)] ∧
      front.map Token.kind = w.openingKinds ∧
      (Lexing.ofScript (w.opening ++ "\n" ++ source) false).warnings = [] := by
  have closed (s : String) : (Lexing.ofScript s false).failure = none :=
    Lexing.failure_run_lenient _ _
  obtain ⟨opening_kinds, opening_quiet⟩ := w.tokens_opening
  obtain ⟨ws, tokens, -⟩ := ofScript_append_line (closed source) quiet ""
  obtain ⟨front, front_tokens, first⟩ :=
    ofScript_append_line (closed w.opening) opening_quiet source
  rw [front_tokens, List.map_append, List.map_singleton] at opening_kinds
  obtain ⟨kinds, -⟩ := List.append_inj' opening_kinds rfl
  refine ⟨ws, _, front, tokens, rfl, ?_, kinds, ?_⟩
  · rw [first]
    simp [Lexing.behind, Lexing.shift, tokens, Motion.behind]
  · rw [first]
    simp [Lexing.behind, Lexing.shift, quiet]

/-- The tokens of a script and of the wrapped script. -/
theorem tokens_wrap (w : Wrapper) {source : String}
    (quiet : (Lexing.ofScript source false).warnings = []) :
    ∃ ws last m ts last', (Lexing.ofScript source false).tokens = ws ++ [last] ∧
      last.kind = .eof ∧ (Lexing.ofScript (w.wrap source) false).tokens = ts ++ [last'] ∧
      last'.kind = .eof ∧ Around (ws.map (Token.move m)) w ts := by
  obtain ⟨ws, last, front, tokens, last_kind, opened, kinds, quiet'⟩ := w.tokens_opened quiet
  obtain ⟨before, before_tokens, whole⟩ :=
    ofScript_append_line (Lexing.failure_run_lenient _ _) quiet' w.closing
  -- what stands in front of the closing is the opening, a line feed, and the moved script
  obtain ⟨rfl, -⟩ := List.append_inj' (before_tokens.symm.trans opened) rfl
  have closing := w.tokens_closing
  rcases split : (Lexing.ofScript w.closing false).tokens with _ | ⟨last', _ | ⟨mark, _ | _⟩⟩ <;>
    simp only [split, List.map_cons, List.map_nil, reduceCtorEq, List.cons.injEq, and_true,
      and_false] at closing
  refine ⟨ws, last, .behind w.opening, front ++ feedBehind w.opening ::
    ws.map (Token.move (.behind w.opening)) ++ [feedBehind (w.opening ++ "\n" ++ source),
      last'.move (.behind (w.opening ++ "\n" ++ source))],
    mark.move (.behind (w.opening ++ "\n" ++ source)), tokens, last_kind, ?_, closing.2,
    around_of_kinds kinds rfl rfl closing.1⟩
  rw [wrap, whole]
  simp [Lexing.behind, Lexing.shift, split, Motion.behind]

theorem quiet_wrap (w : Wrapper) {source : String}
    (quiet : (Lexing.ofScript source false).warnings = []) :
    (Lexing.ofScript (w.wrap source) false).warnings = [] := by
  obtain ⟨_, _, _, -, -, -, -, quiet'⟩ := w.tokens_opened quiet
  obtain ⟨_, -, whole⟩ :=
    ofScript_append_line (Lexing.failure_run_lenient _ _) quiet' w.closing
  have closing : (Lexing.ofScript w.closing false).warnings = [] := by
    cases w <;> decide +kernel
  rw [wrap, whole]
  simp [Lexing.behind, Lexing.shift, closing]

/-! ## The statement of a wrapped script -/

section Statements

variable {w : Wrapper} {next : Token} {ws ts : List Token} {s : Statement}

/-- A block inside a wrapper makes a statement of the tokens around it. -/
theorem exists_isStatement_of_around (around : Around ws w ts) {t : Token} {ss : List Statement}
    (block : IsBlock IsStatement t ws ss) (next : Token) :
    ∃ s body, IsStatement next ts s ∧ s.block? = some body ∧ s.elseBody? = none ∧
      s.nesting = Statement.nestingAll ss + 1 ∧
      Statement.unplacedAll body = Statement.unplacedAll ss := by
  have inside {feed feed' : Token} (kind : feed.kind = .newline) (kind' : feed'.kind = .newline)
      (closer : Token) : ∃ body, IsBlock IsStatement closer (feed :: ws ++ [feed']) body ∧
        Statement.nestingAll body = Statement.nestingAll ss ∧
        Statement.unplacedAll body = Statement.unplacedAll ss := by
    have ends : feed'.Parts := .of_kind kind' rfl rfl Kind.noConfusion
    obtain ⟨body, inner, same⟩ := exists_isBlock (fun h => exists_isStatement h ends) block
    refine ⟨body, .newline kind (isBlock_concat kind' inner), ?_, same⟩
    rw [← Statement.nestingAll_unplacedAll, same, Statement.nestingAll_unplacedAll]
  have header {word endLine : Token} (word_kind : word.kind = .word)
      (line_kind : endLine.kind = .newline) : IsHeader ([word] ++ [endLine]) _ [] :=
    .mk (.word word_kind) .nil (by simp [line_kind, Kind.isHeaderSeparator])
  cases around with
  | @conditional kwIf _ _ kwThen _ _ kwFi if_kind word_kind line_kind then_kind feed_kind feed_kind'
      fi_kind =>
    obtain ⟨body, inner, nesting, same⟩ := inside feed_kind feed_kind' kwFi
    have whole : IsConditional IsStatement next _ _ :=
      .noElse if_kind (header word_kind line_kind) then_kind inner fi_kind
    have statement := IsStatement.conditional whole
    simp only [List.cons_append, List.nil_append, List.append_assoc] at statement
    exact ⟨_, body, by simpa using statement, rfl, rfl, congrArg (· + 1) nesting, same⟩
  | @loop kwWhile _ _ kwDo _ _ kwDone while_kind word_kind line_kind do_kind feed_kind feed_kind'
      done_kind =>
    obtain ⟨body, inner, nesting, same⟩ := inside feed_kind feed_kind' kwDone
    have whole : IsLoop IsStatement next _ _ :=
      .whileDo while_kind (header word_kind line_kind) do_kind inner done_kind
    have statement := IsStatement.loop whole
    simp only [List.cons_append, List.nil_append, List.append_assoc] at statement
    exact ⟨_, body, by simpa using statement, rfl, rfl, congrArg (· + 1) nesting, same⟩
  | @function _ _ _ _ _ _ _ rbrace function_kind name_kind lparen_kind rparen_kind lbrace_kind
      feed_kind feed_kind' rbrace_kind =>
    obtain ⟨body, inner, nesting, same⟩ := inside feed_kind feed_kind' rbrace
    have whole : IsFunction IsStatement next _ _ :=
      .mk function_kind name_kind lparen_kind rparen_kind lbrace_kind inner rbrace_kind
    have statement := IsStatement.function whole
    simp only [List.cons_append, List.nil_append, List.append_assoc] at statement
    exact ⟨_, body, by simpa using statement, rfl, rfl, congrArg (· + 1) nesting, same⟩

/-- Two lists are split at the same place if both are split at the first token of a kind. -/
theorem split_unique {k : Kind} {xs ys us vs : List Token} {a b : Token}
    (left : ∀ t ∈ xs, t.kind ≠ k) (here : a.kind = k) (right : ∀ t ∈ ys, t.kind ≠ k)
    (here' : b.kind = k) (same : xs ++ a :: us = ys ++ b :: vs) : xs = ys ∧ us = vs := by
  induction xs generalizing ys with
  | nil =>
    cases ys with
    | nil => exact ⟨rfl, (List.cons.inj same).2⟩
    | cons y ys => exact absurd ((List.cons.inj same).1 ▸ here) (right y List.mem_cons_self)
  | cons x xs ih =>
    cases ys with
    | nil => exact absurd ((List.cons.inj same).1 ▸ here') (left x List.mem_cons_self)
    | cons y ys =>
      obtain ⟨rfl, rest⟩ := List.cons.inj same
      obtain ⟨rfl, others⟩ :=
        ih (List.forall_mem_cons.1 left).2 (List.forall_mem_cons.1 right).2 rest
      exact ⟨rfl, others⟩

/-- A header holds words and separators only. -/
theorem kind_ne_of_isHeader {k : Kind} (plain : k.isWordLike = false)
    (solid : k.isHeaderSeparator = false) {hs : List Token} {e : Expr} {es : List Expr}
    (header : IsHeader hs e es) : ∀ t ∈ hs, t.kind ≠ k := by
  have word {t : Token} {e : Expr} (h : IsExpr t e) : t.kind ≠ k := by
    rintro rfl
    have like : t.isWordLike = true := isWordLike_iff.2 ⟨e, h⟩
    rw [Token.isWordLike, plain] at like
    cases like
  cases header with
  | mk first others separators =>
    refine List.forall_mem_append.2 ⟨List.forall_mem_cons.2 ⟨word first, ?_⟩, fun t member => ?_⟩
    · clear separators
      induction others with
      | nil => simp
      | cons h _ ih => exact List.forall_mem_cons.2 ⟨word h, ih⟩
    · rintro rfl
      rw [separators t member] at solid
      cases solid

/-- The statement of a wrapper holds the tokens inside as a block up to the line feed behind
them.  Its header and its block end where those of the wrapper end. -/
theorem exists_isBlock_of_around (around : Around ws w ts) (h : IsStatement next ts s)
    (alone : s.elseBody? = none) :
    ∃ body t, s.block? = some body ∧ t.kind = .newline ∧ IsBlock IsStatement t ws body := by
  have inside {feed feed' last closer : Token} {us : List Token} {body : List Statement}
      (kind : feed.kind = .newline) (kind' : feed'.kind = .newline)
      (split : us ++ [closer] = feed :: ws ++ [feed', last])
      (block : IsBlock IsStatement closer us body) : IsBlock IsStatement feed' ws body := by
    obtain ⟨rfl, -⟩ := List.append_inj' (split.trans (List.append_cons _ feed' [last])) rfl
    exact isBlock_of_cons opens_isStatement kind (isBlock_of_concat kind' block)
  have front {word endLine : Token} {k : Kind} (word_kind : word.kind = .word)
      (line_kind : endLine.kind = .newline) (no_word : k ≠ .word) (no_line : k ≠ .newline) :
      ∀ t ∈ [word, endLine], t.kind ≠ k := by
    simp [word_kind, line_kind, no_word.symm, no_line.symm]
  generalize whole : ts = vs at h
  obtain ⟨u, us, rfl, shape⟩ := isStatement_iff.1 h
  cases around with
  | @conditional kwIf word endLine kwThen feed feed' kwFi if_kind word_kind line_kind then_kind
      feed_kind feed_kind' =>
    obtain ⟨rfl, rest⟩ := List.cons.inj whole
    simp only [if_kind, reduceCtorEq, false_and, true_and, false_or, or_false] at shape
    generalize tokens : kwIf :: us = vs at shape
    cases shape with
    | @noElse _ _ opener closer hs us' _ _ _ _ header then_kind' then_body fi_kind =>
      obtain ⟨-, rfl⟩ := List.cons.inj tokens
      have split : hs ++ opener :: (us' ++ [closer]) =
          [word, endLine] ++ kwThen :: (feed :: ws ++ [feed', kwFi]) := by simpa using rest.symm
      obtain ⟨-, same⟩ := split_unique (kind_ne_of_isHeader rfl rfl header) then_kind'
        (front word_kind line_kind Kind.noConfusion Kind.noConfusion) then_kind split
      exact ⟨_, feed', rfl, feed_kind', inside feed_kind feed_kind' same then_body⟩
    | withElse => cases alone
  | @loop kwWhile word endLine kwDo feed feed' kwDone while_kind word_kind line_kind do_kind
      feed_kind feed_kind' =>
    obtain ⟨rfl, rest⟩ := List.cons.inj whole
    simp only [while_kind, reduceCtorEq, false_and, true_and, false_or, or_false, or_true] at shape
    generalize tokens : kwWhile :: us = vs at shape
    cases shape with
    | forIn for_kind =>
      rw [← (List.cons.inj tokens).1, while_kind] at for_kind
      cases for_kind
    | @whileDo _ _ opener closer hs us' _ _ _ _ header do_kind' block done_kind =>
      obtain ⟨-, rfl⟩ := List.cons.inj tokens
      have split : hs ++ opener :: (us' ++ [closer]) =
          [word, endLine] ++ kwDo :: (feed :: ws ++ [feed', kwDone]) := by simpa using rest.symm
      obtain ⟨-, same⟩ := split_unique (kind_ne_of_isHeader rfl rfl header) do_kind'
        (front word_kind line_kind Kind.noConfusion Kind.noConfusion) do_kind split
      exact ⟨_, feed', rfl, feed_kind', inside feed_kind feed_kind' same block⟩
  | @function kwFunction name lparen rparen lbrace feed feed' rbrace function_kind _ _ _ _ feed_kind
      feed_kind' =>
    obtain ⟨rfl, rest⟩ := List.cons.inj whole
    simp only [function_kind, reduceCtorEq, false_and, true_and, false_or, or_false] at shape
    generalize tokens : kwFunction :: us = vs at shape
    cases shape with
    | @mk _ _ _ _ _ _ closer us' _ _ _ _ _ _ block =>
      obtain ⟨-, rfl⟩ := List.cons.inj tokens
      have split : us' ++ [closer] = feed :: ws ++ [feed', rbrace] :=
        congrArg (List.drop 4) rest.symm
      exact ⟨_, feed', rfl, feed_kind', inside feed_kind feed_kind' split block⟩

/-- The first token of a wrapper opens a statement, and the last is no separator. -/
theorem opens_of_around (around : Around ws w ts) : ∃ t us last, ts = t :: us ++ [last] ∧
    t.kind.opensStatement = true ∧ last.kind ∉ [.newline, .comment, .semicolon] := by
  cases around with
  | @conditional kwIf word endLine kwThen feed feed' kwFi if_kind _ _ _ _ _ fi_kind =>
    exact ⟨kwIf, word :: endLine :: kwThen :: feed :: ws ++ [feed'], kwFi, by simp,
      by rw [if_kind]; rfl, by rw [fi_kind]; decide⟩
  | @loop kwWhile word endLine kwDo feed feed' kwDone while_kind _ _ _ _ _ done_kind =>
    exact ⟨kwWhile, word :: endLine :: kwDo :: feed :: ws ++ [feed'], kwDone, by simp,
      by rw [while_kind]; rfl, by rw [done_kind]; decide⟩
  | @function kwFunction name lparen rparen lbrace feed feed' rbrace function_kind _ _ _ _ _ _
      rbrace_kind =>
    exact ⟨kwFunction, name :: lparen :: rparen :: lbrace :: feed :: ws ++ [feed'], rbrace, by simp,
      by rw [function_kind]; rfl, by rw [rbrace_kind]; decide⟩

/-- A wrapper that is one statement of a script is that statement with its last token. -/
theorem isStatement_of_alone (around : Around ws w ts) (h : IsBlock IsStatement next ts [s]) :
    IsStatement next ts s := by
  obtain ⟨t, us, last, rfl, starts, solid⟩ := opens_of_around around
  have ends {vs ts' : List Token} (split : t :: us ++ [last] = vs ++ ts')
      (blank : ∀ t ∈ ts', t.kind ∈ [.newline, .comment, .semicolon]) : ts' = [] := by
    cases ts' using List.reverseRecOn with
    | nil => rfl
    | append_singleton ts' u =>
      rw [← List.append_assoc] at split
      obtain ⟨-, same⟩ := List.append_singleton_inj.1 split
      exact absurd (same ▸ blank u (by simp)) solid
  have blank {ts' : List Token} (h : IsBlock IsStatement next ts' []) :
      ∀ t ∈ ts', t.kind ∈ [.newline, .comment, .semicolon] := by
    intro t member
    rcases blank_of_isBlock h t member with kind | kind <;> simp [kind]
  generalize whole : t :: us ++ [last] = vs at h
  generalize single : [s] = ss at h
  cases h with
  | nil => cases single
  | newline kind =>
    rw [← (List.cons.inj whole).1] at kind
    rw [kind] at starts
    cases starts
  | comment kind =>
    rw [← (List.cons.inj whole).1] at kind
    rw [kind] at starts
    cases starts
  | statement first others =>
    obtain ⟨rfl, rfl⟩ := List.cons.inj single
    obtain rfl := ends whole (blank others)
    rw [List.append_nil]
    exact first
  | separated first kind others =>
    obtain ⟨rfl, rfl⟩ := List.cons.inj single
    have behind := ends whole (List.forall_mem_cons.2
      ⟨by rcases kind with kind | kind <;> simp [kind], blank others⟩)
    cases behind

end Statements

end Wrapper

/-! ## Scripts -/

open Wrapper

/-- A script that is accepted is accepted in a wrapper, which holds its statements. -/
theorem accepts_wrap (w : Wrapper) {source : String}
    (quiet : (Lexing.ofScript source false).warnings = []) {p : Program}
    (accepted : Accepts source p) (shallow : p.nesting < nestingLimit) :
    ∃ q s body, Accepts (w.wrap source) q ∧ q.body = [s] ∧ s.elseBody? = none ∧
      s.block? = some body ∧ Statement.unplacedAll body = Statement.unplacedAll p.body := by
  obtain ⟨ws, last, m, ts, last', tokens, last_kind, tokens', last_kind', around⟩ :=
    w.tokens_wrap quiet
  have inner := Lexing.inner_ofScript tokens
  obtain ⟨script, -⟩ := (accepts_iff source p).1 accepted
  rw [tokens] at script
  generalize split : ws ++ [last] = us at script
  obtain ⟨-, block⟩ := script
  obtain ⟨rfl, rfl⟩ := List.append_singleton_inj.1 split
  obtain ⟨s, body, statement, inside, alone, nesting, bodies⟩ :=
    exists_isStatement_of_around around (isBlock_move inner block) last'
  rw [Statement.nestingAll_move] at nesting
  rw [Statement.unplacedAll_move] at bodies
  have whole : IsBlock IsStatement last' (ts ++ []) [s] := .statement statement .nil
  rw [List.append_nil] at whole
  have script := IsScript.mk last_kind' whole
  rw [← tokens'] at script
  refine ⟨_, s, body, (accepts_iff _ _).2 ⟨script, ?_⟩, rfl, alone, inside, bodies⟩
  show max s.nesting 0 ≤ nestingLimit
  rw [Nat.max_zero, nesting]
  exact shallow

/-- A wrapper that is accepted as one statement without `else` holds a script that is
accepted. -/
theorem accepts_of_wrap (w : Wrapper) {source : String}
    (quiet : (Lexing.ofScript source false).warnings = []) {q : Program} {s : Statement}
    (accepted : Accepts (w.wrap source) q) (single : q.body = [s]) (alone : s.elseBody? = none) :
    ∃ p, Accepts source p := by
  obtain ⟨ws, last, m, ts, last', tokens, last_kind, tokens', last_kind', around⟩ :=
    w.tokens_wrap quiet
  have inner := Lexing.inner_ofScript tokens
  obtain ⟨script, shallow⟩ := (accepts_iff _ q).1 accepted
  rw [tokens'] at script
  generalize split : ts ++ [last'] = us at script
  obtain ⟨-, block⟩ := script
  obtain ⟨rfl, rfl⟩ := List.append_singleton_inj.1 split
  obtain rfl := single
  have statement := isStatement_of_alone around block
  obtain ⟨body, feed, inside, -, block⟩ := exists_isBlock_of_around around statement alone
  have ends : (last.move m).Parts := .of_kind last_kind rfl rfl Kind.noConfusion
  obtain ⟨body', moved, same⟩ := exists_isBlock (fun h => exists_isStatement h ends) block
  obtain ⟨ss, own, rfl⟩ := exists_isBlock_of_move inner moved
  have script := IsScript.mk last_kind own
  rw [← tokens] at script
  refine ⟨_, (accepts_iff _ _).2 ⟨script, ?_⟩⟩
  have deep := Statement.nesting_of_block inside
  rw [Statement.unplacedAll_move] at same
  have nesting : Statement.nestingAll ss = Statement.nestingAll body := by
    rw [← Statement.nestingAll_unplacedAll, same, Statement.nestingAll_unplacedAll]
  have whole : s.nesting ≤ nestingLimit := Nat.le_trans (Nat.le_max_left _ _) shallow
  show Statement.nestingAll ss ≤ nestingLimit
  omega

/-- **A script is accepted exactly if it is accepted inside a compound statement.**  Let a
script leave nothing open and nest less than 120 deep.  It is accepted on its own exactly if
any wrapper around it is accepted as one statement, which has no `else` part; and then that
statement holds the statements of the script, up to positions. -/
theorem wrap_accepts (w : Wrapper) (source : String)
    (quiet : (Lexing.ofScript source false).warnings = [])
    (shallow : ∀ p, parse source false = .ok p → p.nesting < 120) :
    ((∃ p, Accepts source p) ↔
      ∃ q s, Accepts (w.wrap source) q ∧ q.body = [s] ∧ s.elseBody? = none) ∧
    ∀ p q s, Accepts source p → Accepts (w.wrap source) q → q.body = [s] →
      ∃ body, s.block? = some body ∧
        Statement.unplacedAll body = Statement.unplacedAll p.body := by
  have wrapped {p : Program} (accepted : Accepts source p) :=
    accepts_wrap w quiet accepted (Nat.lt_of_lt_of_le (shallow p accepted.1) le_nestingLimit)
  refine ⟨⟨?_, ?_⟩, ?_⟩
  · rintro ⟨p, accepted⟩
    obtain ⟨q, s, -, whole, single, alone, -⟩ := wrapped accepted
    exact ⟨q, s, whole, single, alone⟩
  · rintro ⟨q, s, whole, single, alone⟩
    exact accepts_of_wrap w quiet whole single alone
  · intro p q s accepted whole single
    obtain ⟨q', s', body, whole', single', -, inside, same⟩ := wrapped accepted
    obtain rfl : q = q' := Except.ok.inj (whole.1.symm.trans whole'.1)
    obtain rfl : s = s' := (List.cons.inj (single.symm.trans single')).1
    exact ⟨body, inside, same⟩

/-- A comment, a conditional with two branches, and a pipeline that ends with the script. -/
theorem wrap_accepts_function :
    ∃ q s, Accepts (Wrapper.function.wrap "# a\nif b; then c; else\nfi; d | e > f") q ∧
      q.body = [s] ∧ s.elseBody? = none := by
  generalize script : "# a\nif b; then c; else\nfi; d | e > f" = source
  have quiet : (Lexing.ofScript source false).warnings = [] := by
    subst script
    decide +kernel
  have parses : (parse source false).toOption.any (fun p => decide (p.nesting = 1)) = true ∧
      (Parser.ofSource (.text source) false).parse.2.warnings = [] := by
    subst script
    decide +kernel
  cases parsed : parse source false with
  | error e => simp [parsed, Except.toOption] at parses
  | ok p =>
    have nesting : p.nesting = 1 := by simpa [parsed, Except.toOption] using parses.1
    have shallow : ∀ q, parse source false = .ok q → q.nesting < 120 := by
      intro q parsed'
      rw [parsed] at parsed'
      obtain rfl := Except.ok.inj parsed'
      omega
    exact ((wrap_accepts .function source quiet shallow).1).1 ⟨p, parsed, parses.2⟩

end ShellScript
