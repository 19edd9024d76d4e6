/-
# ShellScript.Proofs.Parse.Tally -- what becomes of words and operators in a tree

`Tally us ns` says that the pieces `ns` of a tree hold what the tokens `us` bring: each
word, string or reference is one of their expressions or is spent on a name; each operator of
a redirection is a redirection, and each bar stands between two commands of a pipeline.

Tallies add up (`Tally.append`), in any order (`Tally.perm`).  So the phrases of the grammar
tally with everything below the piece they mean, rule by rule, and by induction on the depth
of a statement (`tally_within`).
-/
import Mathlib.Algebra.GroupWithZero.Nat
import Mathlib.Algebra.Order.Group.Multiset
import ShellScript.Proofs.Parse.Program
import ShellScript.Tree.Node

namespace ShellScript

set_option autoImplicit false

open Grammar Parse

/-! ## Expressions of tokens, and what other pieces take -/

/-- The expression that a token is where it stands for one. -/
def Token.expr? (t : Token) : Option Expr :=
  if t.kind = .word then some (.literal t.text false t.position)
  else if t.kind = .quotedString then some (.literal t.text true t.position)
  else if t.kind = .reference then some (.reference t.text t.position)
  else none

theorem isExpr_iff {t : Token} {e : Expr} : IsExpr t e ↔ t.expr? = some e := by
  constructor
  · intro h
    cases h <;> next kind => simp [Token.expr?, kind]
  · intro h
    unfold Token.expr? at h
    split at h
    · next kind =>
      cases h
      exact .word kind
    split at h
    · next kind =>
      cases h
      exact .quoted kind
    split at h
    · next kind =>
      cases h
      exact .reference kind
    · cases h

/-- A word without quotes. -/
def Expr.isBare : Expr → Bool
  | literal _ quoted _ => !quoted
  | reference _ _ => false

namespace Node

/-- A piece that is an expression. -/
def expr? : Node → Option Expr
  | expr e => some e
  | _ => none

/-- How many words a piece takes for its name, the words `in` and `=` included. -/
def names : Node → Nat
  | statement (.command _) => 1
  | statement (.loop (.forIn _ _) _ _ _ _) => 2
  | statement (.function _ _ _) => 1
  | statement (.assignment _ _ _) => 2
  | _ => 0

/-- How many bars a piece has: one less than a pipeline has commands. -/
def bars : Node → Nat
  | statement (.pipeline first second others _) => (first :: second :: others).length - 1
  | _ => 0

theorem walk_expr (e : Expr) : (expr e).walk = [expr e] := by
  rw [walk_eq]
  rfl

theorem walk_redirection (r : Redirection) :
    (redirection r).walk = [redirection r, expr r.target] := by
  rw [walk_eq]
  show _ :: ([expr r.target].flatMap walk) = _
  rw [List.flatMap_singleton, walk_expr]

theorem flatMap_walk_expr (es : List Expr) : (es.map expr).flatMap walk = es.map expr := by
  induction es with
  | nil => rfl
  | cons e es ih => rw [List.map_cons, List.flatMap_cons, walk_expr, ih, List.singleton_append]

/-- Everything in some statements. -/
def walkAll (ss : List Statement) : List Node := (ss.map statement).flatMap walk

@[simp] theorem walkAll_nil : walkAll [] = [] := rfl

@[simp] theorem walkAll_cons (s : Statement) (ss : List Statement) :
    walkAll (s :: ss) = (statement s).walk ++ walkAll ss := rfl

theorem walk_conditional (condition : Expr) (args : List Expr) (thenBody : List Statement)
    (elseBody : Option (List Statement)) (p : Option Span) :
    (statement (.conditional condition args thenBody elseBody p)).walk =
      statement (.conditional condition args thenBody elseBody p) ::
        ((condition :: args).map expr ++ walkAll thenBody ++ walkAll (elseBody.getD [])) := by
  rw [walk_eq, children, List.flatMap_append, List.flatMap_append, flatMap_walk_expr]
  rfl

theorem walk_forIn (name : String) (iterable : Expr) (args items : List Expr)
    (body : List Statement) (p : Option Span) :
    (statement (.loop (.forIn name iterable) args items body p)).walk =
      statement (.loop (.forIn name iterable) args items body p) ::
        (items.map expr ++ walkAll body) := by
  rw [walk_eq, children, List.flatMap_append, flatMap_walk_expr]
  rfl

theorem walk_whileDo (condition : Expr) (args items : List Expr) (body : List Statement)
    (p : Option Span) :
    (statement (.loop (.whileDo condition) args items body p)).walk =
      statement (.loop (.whileDo condition) args items body p) ::
        ((condition :: args).map expr ++ items.map expr ++ walkAll body) := by
  rw [walk_eq, children, List.flatMap_append, List.flatMap_append, flatMap_walk_expr,
    flatMap_walk_expr]
  rfl

theorem walk_function (name : String) (body : List Statement) (p : Option Span) :
    (statement (.function name body p)).walk =
      statement (.function name body p) :: walkAll body := by
  rw [walk_eq]
  rfl

end Node

/-! ## Tallies -/

/-- The kinds that neither stand as arguments nor are operators of a redirection or a pipeline. -/
def Kind.isNeutral (k : Kind) : Bool := !(k.isWordLike || k.isRedirection || k = .pipe)

/-- The tokens `us` are what the pieces `ns` hold. -/
structure Tally (us : List Token) (ns : List Node) : Prop where
  words : ∃ names : Multiset Expr,
    (us.filterMap Token.expr? : Multiset Expr) = (ns.filterMap Node.expr? : Multiset Expr) + names ∧
      (∀ e ∈ names, e.isBare = true) ∧ names.card = (ns.map Node.names).sum
  redirections : us.countP (·.kind.isRedirection) = ns.countP (·.tag = .redirection)
  bars : us.countP (·.kind = .pipe) = (ns.map Node.bars).sum

namespace Tally

variable {us vs : List Token} {ns ms : List Node}

theorem nil : Tally [] [] where
  words := ⟨0, by simp, by simp, by simp⟩
  redirections := by simp
  bars := by simp

theorem append (first : Tally us ns) (second : Tally vs ms) : Tally (us ++ vs) (ns ++ ms) where
  words := by
    obtain ⟨left, same, bare, count⟩ := first.words
    obtain ⟨right, same', bare', count'⟩ := second.words
    refine ⟨left + right, ?_, ?_, ?_⟩
    · rw [List.filterMap_append, List.filterMap_append, ← Multiset.coe_add, ← Multiset.coe_add,
        same, same', add_add_add_comm]
    · intro e member
      rcases Multiset.mem_add.1 member with member | member
      · exact bare e member
      · exact bare' e member
    · rw [Multiset.card_add, count, count', List.map_append, List.sum_append]
  redirections := by
    rw [List.countP_append, List.countP_append, first.redirections, second.redirections]
  bars := by
    rw [List.countP_append, List.map_append, List.sum_append, first.bars, second.bars]

theorem perm (tally : Tally us ns) (tokens : us.Perm vs) (pieces : ns.Perm ms) : Tally vs ms where
  words := by
    obtain ⟨names, same, bare, count⟩ := tally.words
    refine ⟨names, ?_, bare, ?_⟩
    · rw [← Multiset.coe_eq_coe.2 (tokens.filterMap _), same,
        Multiset.coe_eq_coe.2 (pieces.filterMap _)]
    · rw [count, (pieces.map _).sum_nat]
  redirections := by
    rw [← tokens.countP_eq, tally.redirections, pieces.countP_eq]
  bars := by
    rw [← tokens.countP_eq, tally.bars, (pieces.map _).sum_nat]

/-- A token that is no word and no such operator. -/
theorem skip {t : Token} {k : Kind} (tally : Tally us ns) (kind : t.kind = k)
    (neutral : k.isNeutral = true) : Tally (t :: us) ns := by
  have single : Tally [t] [] := by
    have others : k.isWordLike = false ∧ k.isRedirection = false ∧ k ≠ .pipe := by
      simpa [Kind.isNeutral, and_assoc] using neutral
    obtain ⟨plain, no_redirection, no_pipe⟩ := others
    subst kind
    have no_expr : t.expr? = none := by
      cases found : t.expr? with
      | none => rfl
      | some e =>
        have like := isWordLike_iff.2 ⟨e, isExpr_iff.2 found⟩
        rw [Token.isWordLike, plain] at like
        cases like
    exact ⟨⟨0, by simp [no_expr], by simp, by simp⟩, by simp [no_redirection], by simp [no_pipe]⟩
  exact single.append tally

/-- A piece that is no expression, made of as many words as it takes for its name. -/
theorem head {n : Node} (words : ∀ t ∈ us, t.kind = .word) (count : us.length = n.names)
    (no_expr : n.expr? = none) (no_redirection : n.tag ≠ .redirection) (no_bars : n.bars = 0) :
    Tally us [n] where
  words := by
    let bare (t : Token) : Expr := .literal t.text false t.position
    have all : us.filterMap Token.expr? = us.map bare := by
      rw [← List.filterMap_eq_map]
      refine List.filterMap_congr fun t member => ?_
      simp [Token.expr?, words t member, bare]
    refine ⟨(us.map bare : List Expr), ?_, ?_, ?_⟩
    · simp [all, no_expr]
    · simp [bare, Expr.isBare]
    · simp [count]
  redirections := by
    have none_found : us.countP (·.kind.isRedirection) = 0 := by
      refine List.countP_eq_zero.2 fun t member => ?_
      rw [words t member]
      exact Bool.false_ne_true
    simp [none_found, no_redirection]
  bars := by
    have none_found : us.countP (·.kind = .pipe) = 0 := by
      refine List.countP_eq_zero.2 fun t member => ?_
      rw [words t member]
      decide
    simp [none_found, no_bars]

/-- The words of its name in front of what is in a piece. -/
theorem named {n : Node} (words : ∀ t ∈ us, t.kind = .word) (count : us.length = n.names)
    (no_expr : n.expr? = none) (no_redirection : n.tag ≠ .redirection) (no_bars : n.bars = 0)
    (inside : Tally vs ns) : Tally (us ++ vs) (n :: ns) :=
  (head words count no_expr no_redirection no_bars).append inside

/-- A piece that holds nothing but what is in it. -/
theorem hold {n : Node} (no_names : n.names = 0) (no_expr : n.expr? = none)
    (no_redirection : n.tag ≠ .redirection) (no_bars : n.bars = 0) (inside : Tally us ns) :
    Tally us (n :: ns) := by
  have no_words : ∀ t ∈ ([] : List Token), t.kind = .word := by simp
  exact named no_words no_names.symm no_expr no_redirection no_bars inside

theorem expr {t : Token} {e : Expr} (h : IsExpr t e) : Tally [t] [.expr e] where
  words := ⟨0, by simp [isExpr_iff.1 h, Node.expr?], by simp, by simp [Node.names]⟩
  redirections := by
    cases h <;> next kind => simp [kind, Kind.isRedirection, Node.tag]
  bars := by
    cases h <;> next kind => simp [kind, Node.bars]

/-- The operator of a redirection. -/
theorem operator {t : Token} {r : Redirection} (kind : t.kind.isRedirection = true) :
    Tally [t] [.redirection r] := by
  have no_expr : t.expr? = none := by
    unfold Token.expr?
    revert kind
    cases t.kind <;> simp [Kind.isRedirection]
  have no_pipe : t.kind ≠ .pipe := by
    intro pipe
    rw [pipe] at kind
    cases kind
  have no_expr' : (Node.redirection r).expr? = none := rfl
  exact ⟨⟨0, by simp [no_expr, no_expr'], by simp, by simp [Node.names]⟩,
    by simp [kind, Node.tag], by simp [no_pipe, Node.bars]⟩

/-- The bars of a pipeline. -/
theorem pipes {first second : Command} {others : List Command} {position : Option Span}
    (bars : ∀ t ∈ us, t.kind = .pipe) (count : us.length = others.length + 1) :
    Tally us [.statement (.pipeline first second others position)] where
  words := by
    have no_expr : us.filterMap Token.expr? = [] := by
      refine List.filterMap_eq_nil_iff.2 fun t member => ?_
      simp [Token.expr?, bars t member]
    have no_expr' : (Node.statement (.pipeline first second others position)).expr? = none := rfl
    exact ⟨0, by simp [no_expr, no_expr'], by simp, by simp [Node.names]⟩
  redirections := by
    have none_found : us.countP (·.kind.isRedirection) = 0 := by
      refine List.countP_eq_zero.2 fun t member => ?_
      rw [bars t member]
      exact Bool.false_ne_true
    simp [none_found, Node.tag]
  bars := by
    have all : us.countP (·.kind = .pipe) = us.length :=
      List.countP_eq_length.2 fun t member => by simp [bars t member]
    simp [all, count, Node.bars]

end Tally

/-! ## Simple statements -/

section Phrases

variable {next : Token} {ws : List Token}

theorem tally_of_forall₂ {es : List Expr} (h : List.Forall₂ IsExpr ws es) :
    Tally ws (es.map Node.expr) := by
  induction h with
  | nil => exact .nil
  | cons first _ ih => exact (Tally.expr first).append ih

theorem tally_of_isRedirection {r : Redirection} (h : IsRedirection next ws r) :
    Tally ws (Node.redirection r).walk := by
  cases h with
  | mk kind target =>
    rw [Node.walk_redirection]
    exact (Tally.operator kind).append (.expr target)

/-- Arguments and redirections are kept apart in a command, so what was mixed is sorted. -/
theorem tally_of_isParts {parts : List Part} (h : IsParts next ws parts) :
    Tally ws ((parts.filterMap Part.expr?).map Node.expr ++
      ((parts.filterMap Part.redirection?).map Node.redirection).flatMap Node.walk) := by
  induction h with
  | nil => exact .nil
  | argument first _ ih => exact (Tally.expr first).append ih
  | redirection first _ ih =>
    refine ((tally_of_isRedirection first).append ih).perm (.refl _) ?_
    exact List.perm_append_comm_assoc _ _ _

theorem tally_of_isCommand {c : Command} (h : IsCommand next ws c) :
    Tally ws (Node.command c).walk := by
  cases h with
  | @mk _ name us parts kind inside =>
    have whole := tally_of_isParts inside
    rw [← Node.flatMap_walk_expr, ← List.flatMap_append] at whole
    rw [Node.walk_eq]
    have words : ∀ t ∈ [name], t.kind = .word := by simp [kind]
    exact .named words rfl rfl Tag.noConfusion rfl whole

/-- The bars of a pipeline, and its commands behind them. -/
theorem tally_of_isPiped {cs : List Command} (h : IsPiped next ws cs) :
    ∃ bars us, ws.Perm (bars ++ us) ∧ (∀ t ∈ bars, t.kind = .pipe) ∧ bars.length = cs.length ∧
      Tally us ((cs.map Node.command).flatMap Node.walk) := by
  induction h with
  | nil => exact ⟨[], [], .refl _, by simp, rfl, .nil⟩
  | @cons _ bar us ws c cs kind first _ ih =>
    obtain ⟨bars, vs, split, all, count, others⟩ := ih
    refine ⟨bar :: bars, us ++ vs, ?_, ?_, ?_, (tally_of_isCommand first).append others⟩
    · refine List.Perm.cons bar ((split.append_left us).trans ?_)
      exact List.perm_append_comm_assoc us bars vs
    · exact List.forall_mem_cons.2 ⟨kind, all⟩
    · simp [count]

theorem tally_of_isPipeline {s : Statement} (h : IsPipeline next ws s) :
    Tally ws (Node.statement s).walk := by
  cases h with
  | command only => exact tally_of_isCommand only
  | @pipeline _ us ws c d cs first others =>
    obtain ⟨bars, vs, split, all, count, inside⟩ := tally_of_isPiped others
    rw [Node.walk_eq]
    have commands := (tally_of_isCommand first).append inside
    refine ((Tally.pipes all count).append commands).perm ?_ (.refl _)
    refine (List.perm_append_comm_assoc bars us vs).trans ?_
    exact split.symm.append_left us

theorem tally_of_isAssignment {s : Statement} (h : IsAssignment next ws s) :
    Tally ws (Node.statement s).walk := by
  cases h with
  | @mk _ name equals t e kind sign value =>
    have words : ∀ u ∈ [name, equals], u.kind = .word := by simp [kind, (kind_of_isWord sign).1]
    rw [Node.walk_eq]
    refine Tally.named words rfl rfl Tag.noConfusion rfl ?_
    rw [Node.children, List.flatMap_singleton, Node.walk_expr]
    exact .expr value

/-- What stands between a header and its `then` or `do` is in no piece. -/
theorem tally_of_separators (all : ∀ t ∈ ws, t.kind.isHeaderSeparator = true) : Tally ws [] := by
  induction ws with
  | nil => exact .nil
  | cons t ws ih =>
    obtain ⟨first, others⟩ := List.forall_mem_cons.1 all
    refine (ih others).skip rfl ?_
    revert first
    cases t.kind <;> decide

theorem tally_of_isHeader {e : Expr} {es : List Expr} (h : IsHeader ws e es) :
    Tally ws ((e :: es).map Node.expr) := by
  obtain ⟨first, others, separators⟩ := h
  have words := (Tally.expr first).append (tally_of_forall₂ others)
  have whole := words.append (tally_of_separators separators)
  rw [List.append_nil] at whole
  exact whole

/-- What ends a round of the top level is in no piece. -/
theorem tally_of_isFinish {i : Item} (h : IsFinish i next ws ()) : Tally ws [] := by
  have separator (h : IsSeparator next ws ()) : Tally ws [] := by
    cases h with
    | taken kind =>
      rcases kind with kind | kind
      · exact (Tally.nil).skip kind rfl
      · exact (Tally.nil).skip kind rfl
    | none => exact .nil
  cases i with
  | lineFeed =>
    obtain ⟨rfl, -⟩ := h
    exact .nil
  | comment => exact separator h
  | statement => exact separator h
  | skipped => exact separator h

end Phrases

/-! ## Compound statements -/

/-- Phrases that tally with everything in the statements they mean. -/
def TallyPhrases (S : Phrase Statement) : Prop :=
  ∀ next ws s, S next ws s → Tally ws (Node.statement s).walk

section Compound

variable {S : Phrase Statement} (inner : TallyPhrases S) {next : Token} {ws : List Token}

include inner

theorem tally_of_isBlock {ss : List Statement} (h : IsBlock S next ws ss) :
    Tally ws (Node.walkAll ss) := by
  induction h with
  | nil => exact .nil
  | newline kind _ ih => exact ih.skip kind rfl
  | comment kind _ ih => exact ih.skip kind rfl
  | statement first _ ih => exact (inner _ _ _ first).append ih
  | separated first kind _ ih =>
    rcases kind with kind | kind
    · exact (inner _ _ _ first).append (ih.skip kind rfl)
    · exact (inner _ _ _ first).append (ih.skip kind rfl)

theorem tally_of_isConditional {s : Statement} (h : IsConditional S next ws s) :
    Tally ws (Node.statement s).walk := by
  cases h with
  | noElse if_kind header then_kind then_body fi_kind =>
    rw [Node.walk_conditional]
    refine Tally.hold rfl rfl Tag.noConfusion rfl ?_
    have headed := ((tally_of_isHeader header).skip if_kind rfl).append
      ((tally_of_isBlock inner then_body).skip then_kind rfl)
    simpa using headed.append (Tally.nil.skip fi_kind rfl)
  | withElse if_kind header then_kind then_body else_kind else_body fi_kind =>
    rw [Node.walk_conditional]
    refine Tally.hold rfl rfl Tag.noConfusion rfl ?_
    have headed := ((tally_of_isHeader header).skip if_kind rfl).append
      ((tally_of_isBlock inner then_body).skip then_kind rfl)
    have whole := headed.append ((tally_of_isBlock inner else_body).skip else_kind rfl)
    simpa using whole.append (Tally.nil.skip fi_kind rfl)

theorem tally_of_isLoop {s : Statement} (h : IsLoop S next ws s) :
    Tally ws (Node.statement s).walk := by
  cases h with
  | @forIn _ kwFor name kwIn kwDo kwDone hs us e es body for_kind name_kind in_word header do_kind
      inside done_kind =>
    have words : ∀ t ∈ [name, kwIn], t.kind = .word := by
      simp [name_kind, (kind_of_isWord in_word).1]
    rw [Node.walk_forIn]
    have headed := (tally_of_isHeader header).append
      ((tally_of_isBlock inner inside).skip do_kind rfl)
    have whole : Tally (hs ++ kwDo :: us ++ [kwDone])
        ((e :: es).map Node.expr ++ Node.walkAll body) := by
      simpa using headed.append (Tally.nil.skip done_kind rfl)
    exact (Tally.named words rfl rfl Tag.noConfusion rfl whole).skip for_kind rfl
  | whileDo while_kind header do_kind inside done_kind =>
    rw [Node.walk_whileDo]
    refine Tally.hold rfl rfl Tag.noConfusion rfl ?_
    have headed := ((tally_of_isHeader header).skip while_kind rfl).append
      ((tally_of_isBlock inner inside).skip do_kind rfl)
    simpa using headed.append (Tally.nil.skip done_kind rfl)

theorem tally_of_isFunction {s : Statement} (h : IsFunction S next ws s) :
    Tally ws (Node.statement s).walk := by
  cases h with
  | @mk _ kwFunction name lparen rparen lbrace rbrace us body function_kind name_kind lparen_kind
      rparen_kind lbrace_kind inside rbrace_kind =>
    have words : ∀ t ∈ [name], t.kind = .word := by simp [name_kind]
    rw [Node.walk_function]
    have closed := (tally_of_isBlock inner inside).append (Tally.nil.skip rbrace_kind rfl)
    rw [List.append_nil] at closed
    have parens := ((closed.skip lbrace_kind rfl).skip rparen_kind rfl).skip lparen_kind rfl
    exact (Tally.named words rfl rfl Tag.noConfusion rfl parens).skip function_kind rfl

/-- What the top level keeps of its tokens tallies with its statements. -/
theorem tally_of_isBody {b : List Statement × List Token} (h : IsBody S next ws b) :
    ∃ kept, ws.Perm (kept ++ b.2) ∧ Tally kept (Node.walkAll b.1) ∧
      ∀ t ∈ b.2, t.kind ≠ .word := by
  induction h with
  | stop => exact ⟨[], .refl _, .nil, by simp⟩
  | @round next us vs ws i b first finish _ ih =>
    obtain ⟨kept, split, tally, dropped⟩ := ih
    have others : (vs ++ ws).Perm (vs ++ kept ++ b.2) := by
      rw [List.append_assoc]
      exact split.append_left vs
    have behind : Tally (vs ++ kept) (Node.walkAll b.1) := (tally_of_isFinish finish).append tally
    cases first with
    | @lineFeed _ t kind =>
      exact ⟨t :: (vs ++ kept), others.cons t, behind.skip kind rfl, dropped⟩
    | @comment _ t kind =>
      exact ⟨t :: (vs ++ kept), others.cons t, behind.skip kind rfl, dropped⟩
    | statement h =>
      refine ⟨us ++ (vs ++ kept), ?_, (inner _ _ _ h).append behind, dropped⟩
      rw [List.append_assoc]
      exact others.append_left us
    | @skipped _ t _ plain =>
      refine ⟨vs ++ kept, (others.cons t).trans List.perm_middle.symm, behind, ?_⟩
      refine List.forall_mem_cons.2 ⟨fun word => ?_, dropped⟩
      rw [word] at plain
      cases plain

end Compound

/-- Statements of any depth tally with everything in them. -/
theorem tally_within (depth : Nat) : TallyPhrases (Within depth) := by
  have simple {next : Token} {ws : List Token} {s : Statement} (h : IsSimple next ws s) :
      Tally ws (Node.statement s).walk := by
    rcases h with h | ⟨h, -⟩
    · exact tally_of_isAssignment h
    · exact tally_of_isPipeline h
  induction depth with
  | zero =>
    rintro next ws s ⟨h, shallow⟩
    obtain ⟨t, ts, rfl, cases⟩ := isStatement_iff.1 h
    have deep (compound : t.kind ≠ .word) : Tally (t :: ts) (Node.statement s).walk :=
      absurd (nesting_pos h compound) (Nat.not_lt.2 shallow)
    rcases cases with ⟨-, h⟩ | ⟨kind, -⟩ | ⟨kind | kind, -⟩ | ⟨kind, -⟩
    · exact simple h
    all_goals exact deep (by simp [kind])
  | succ depth ih =>
    rintro next ws s ⟨h, shallow⟩
    obtain ⟨t, ts, rfl, ⟨-, h⟩ | ⟨-, h⟩ | ⟨-, h⟩ | ⟨-, h⟩⟩ := isStatement_iff.1 h
    · exact simple h
    · exact tally_of_isConditional ih (isConditional_within.2 ⟨h, shallow⟩)
    · exact tally_of_isLoop ih (isLoop_within.2 ⟨h, shallow⟩)
    · exact tally_of_isFunction ih (isFunction_within.2 ⟨h, shallow⟩)

end ShellScript
