/-
# ShellScript.Proofs.Spans -- where the pieces of a parsed tree stand

The tokens of a script stand one behind another (`InOrder`).  A phrase is taken by one parser
(`Node.TakenFrom`), and its piece starts where its first token does and reaches to the end of
the token behind it (`Node.PlacedAt`), which is never before the end of a token in it.

So a piece lies inside the piece around it, and phrases in a row start one behind another
(`walks_of_row`).  Every piece of a parsed tree is a phrase of the script and its children
are rows of phrases, so this holds throughout the tree (`parse_spans`).
-/
import ShellScript.Proofs.Parse.Node

namespace ShellScript

set_option autoImplicit false

open Grammar Parse
open Phrase (Inside Row)

/-! ## Tokens in order -/

/-- Tokens that have places, one behind another. -/
structure InOrder (ts : List Token) : Prop where
  spans : ∀ t ∈ ts, t.Spans t.start t.stop
  start_le : ∀ t ∈ ts, t.start ≤ t.stop
  ordered : ts.Pairwise fun t u => t.start < u.start ∧ t.stop ≤ u.start

theorem InOrder.sublist {ts us : List Token} (order : InOrder ts) (part : us.Sublist ts) :
    InOrder us :=
  ⟨fun t member => order.spans t (part.subset member),
    fun t member => order.start_le t (part.subset member), order.ordered.sublist part⟩

/-- The last token of a script stands at its end. -/
theorem stop_ofScript {source : String} {ws : List Token} {last : Token}
    (tokens : (Lexing.ofScript source false).tokens = ws ++ [last]) :
    last.stop = source.toList.length := by
  have tiling := Lexing.tiling_run [] source.toList .start rfl
  obtain ⟨body, final, split, ends, -⟩ := tiling.split
  obtain ⟨-, rfl⟩ := List.append_singleton_inj.1 (tokens.symm.trans split)
  exact ends.spans.stop_eq

theorem inOrder_ofScript (source : String) : InOrder (Lexing.ofScript source false).tokens := by
  have tiling := Lexing.tiling_run [] source.toList .start rfl
  obtain ⟨body, last, split, ends, covers⟩ := tiling.split
  have placed : ∀ t ∈ body ++ [last], t.Spans t.start t.stop ∧ t.start ≤ t.stop := by
    refine List.forall_mem_append.2 ⟨fun t member => ?_, List.forall_mem_singleton.2 ?_⟩
    · exact ⟨(covers t member).spans, Nat.le_of_lt (covers t member).start_lt⟩
    · rw [ends.spans.start_eq, ends.spans.stop_eq]
      exact ⟨ends.spans, Nat.le_refl _⟩
  rw [← split] at placed
  exact ⟨fun t member => (placed t member).1, fun t member => (placed t member).2,
    tiling.ordered⟩

section InOrder

variable {next : Token} {ws : List Token}

/-- No token starts before the first. -/
theorem InOrder.follow_le (order : InOrder (ws ++ [next])) :
    ∀ t ∈ ws ++ [next], (follow ws next).start ≤ t.start := by
  cases ws with
  | nil => simp
  | cons u us =>
    have behind := (List.pairwise_cons.1 order.ordered).1
    exact List.forall_mem_cons.2 ⟨Nat.le_refl _, fun t member => Nat.le_of_lt (behind t member).1⟩

/-- No token ends behind the last. -/
theorem InOrder.le_stop (order : InOrder (ws ++ [next])) :
    ∀ t ∈ ws ++ [next], t.stop ≤ next.stop := by
  have last := order.start_le next (by simp)
  have before := (List.pairwise_append.1 order.ordered).2.2
  refine List.forall_mem_append.2 ⟨fun t member => ?_, by simp⟩
  exact Nat.le_trans (before t member next (by simp)).2 last

theorem follow_sublist (ws : List Token) (next : Token) :
    [follow ws next].Sublist (ws ++ [next]) := by
  cases ws <;> simp

/-- A phrase inside some tokens is made of tokens among them, in the same order. -/
theorem Phrase.Inside.sublist {α : Type} {G : Phrase α} {a : α} (h : Inside G next ws a) :
    ∃ mid vs, G mid vs a ∧ vs ⊆ ws ∧ (vs ++ [mid]).Sublist (ws ++ [next]) := by
  obtain ⟨us, vs, zs, rfl, found⟩ := h
  refine ⟨_, vs, found, fun t member => by simp [member], ?_⟩
  rw [List.append_assoc, List.append_assoc]
  exact ((List.Sublist.refl vs).append (follow_sublist zs next)).trans
    (List.sublist_append_right us _)

/-- The first token reaches to the end of the last. -/
theorem InOrder.reach (order : InOrder (ws ++ [next])) :
    ∃ s, (follow ws next).position = some s ∧
      Span.reach? (follow ws next).position next.position =
        some { s with endOffset := next.stop } := by
  have first : follow ws next ∈ ws ++ [next] := (follow_sublist ws next).subset (by simp)
  obtain ⟨line, column, here⟩ := order.spans _ first
  obtain ⟨line', column', there⟩ := order.spans next (by simp)
  have behind := order.le_stop _ first
  refine ⟨_, here, ?_⟩
  rw [here, there]
  simp only [Span.reach?, Span.reach, Option.some.injEq, Span.mk.injEq, and_true, true_and]
  omega

end InOrder

/-! ## The tokens of a piece -/

namespace Node

/-- The offset at which a piece starts; zero if it has no position. -/
def start (n : Node) : Nat := (n.position.map fun s => s.startOffset.toNat).getD 0

/-- The offset at which a piece ends; zero if it has no position. -/
def stop (n : Node) : Nat := (n.position.map fun s => s.endOffset.toNat).getD 0

/-- The parser of pieces of this kind takes exactly the tokens `ws` in front of `rest`, and
gives this one.  A program is taken by none of them. -/
def TakenFrom (ws rest : List Token) : Node → Prop
  | program _ => False
  | statement (.command c) => Parse.command (ws ++ rest) = .ok c rest
  | statement s => Parse.statement (ws ++ rest) = .ok (some s) rest
  | redirection r => Parse.redirection (ws ++ rest) = .ok r rest
  | expr e => Parse.expression (ws ++ rest) = .ok e rest

/-- The position that the tokens `ws` in front of `next` give a piece: an expression has that
of its only token, any other piece starts like the first of its tokens and ends like `next`. -/
def PlacedAt (ws : List Token) (next : Token) : Node → Prop
  | expr e => ∃ t s, ws = [t] ∧ t.position = some s ∧ e.position = some s
  | n => ∃ t us s, ws = t :: us ∧ t.position = some s ∧
      n.position = some { s with endOffset := next.stop }

/-- How deep compound statements nest in a piece. -/
def nesting : Node → Nat
  | program p => p.nesting
  | statement s => s.nesting
  | redirection _ => 0
  | expr _ => 0

theorem nesting_le_of_mem_statements {m : Node} {ss : List Statement}
    (member : m ∈ ss.map statement) : m.nesting ≤ Statement.nestingAll ss := by
  induction ss with
  | nil => cases member
  | cons s ss ih =>
    rw [Statement.nestingAll]
    rcases List.mem_cons.1 member with rfl | member
    · exact Nat.le_max_left _ _
    · exact Nat.le_trans (ih member) (Nat.le_max_right _ _)

/-- Words nest nothing, so what a header and a block hold nests as the block does. -/
theorem nesting_le_of_mem_headed {m : Node} {es : List Expr} {ss : List Statement}
    (member : m ∈ es.map expr ++ ss.map statement) : m.nesting ≤ Statement.nestingAll ss := by
  rcases List.mem_append.1 member with member | member
  · obtain ⟨e, -, rfl⟩ := List.mem_map.1 member
    exact Nat.zero_le _
  · exact nesting_le_of_mem_statements member

/-- A child nests no deeper than its parent. -/
theorem nesting_le {m n : Node} (child : m ∈ n.children) : m.nesting ≤ n.nesting := by
  match n with
  | program p => exact nesting_le_of_mem_statements child
  | statement (.command c) =>
    rcases List.mem_append.1 child with child | child
    · obtain ⟨e, -, rfl⟩ := List.mem_map.1 child
      exact Nat.zero_le _
    · obtain ⟨r, -, rfl⟩ := List.mem_map.1 child
      exact Nat.zero_le _
  | statement (.pipeline ..) =>
    obtain ⟨c, -, rfl⟩ := List.mem_map.1 child
    exact Nat.zero_le _
  | statement (.conditional _ _ _ none _) =>
    simp only [children, Option.getD_none, List.map_nil, List.append_nil] at child
    exact Nat.le_succ_of_le (nesting_le_of_mem_headed child)
  | statement (.conditional _ _ _ (some _) _) =>
    rcases List.mem_append.1 child with child | child
    · exact Nat.le_succ_of_le (Nat.le_trans (nesting_le_of_mem_headed child)
        (Nat.le_max_left _ _))
    · exact Nat.le_succ_of_le (Nat.le_trans (nesting_le_of_mem_statements child)
        (Nat.le_max_right _ _))
  | statement (.loop (.whileDo _) _ _ _ _) =>
    rw [children, ← List.map_append] at child
    exact Nat.le_succ_of_le (nesting_le_of_mem_headed child)
  | statement (.loop (.forIn _ _) _ _ _ _) =>
    exact Nat.le_succ_of_le (nesting_le_of_mem_headed child)
  | statement (.function ..) => exact Nat.le_succ_of_le (nesting_le_of_mem_statements child)
  | statement (.assignment ..) =>
    obtain rfl := List.mem_singleton.1 child
    exact Nat.zero_le _
  | redirection r =>
    obtain rfl := List.mem_singleton.1 child
    exact Nat.zero_le _
  | expr e => cases child

/-- What a walk comes to nests no deeper than the piece where it starts. -/
theorem nesting_le_of_mem_walk {m n : Node} (member : m ∈ n.walk) : m.nesting ≤ n.nesting := by
  rw [walk_eq] at member
  rcases List.mem_cons.1 member with rfl | below
  · exact Nat.le_refl _
  · obtain ⟨child, isChild, below⟩ := List.mem_flatMap.1 below
    exact Nat.le_trans (nesting_le_of_mem_walk below) (nesting_le isChild)
termination_by sizeOf n
decreasing_by exact sizeOf_lt isChild

end Node

/-! ## The places of phrases -/

theorem Span.reach?_reach? {o : Option Span} {u v : Span} (further : u.endOffset ≤ v.endOffset) :
    reach? (reach? o (some u)) (some v) = reach? o (some v) := by
  cases o with
  | none => rfl
  | some s =>
    simp only [reach?, reach, Option.some.injEq, Span.mk.injEq, and_true, true_and]
    omega

section Pieces

variable {next : Token} {ws : List Token}

/-- A command reaches from its first token to the end of the token behind it. -/
theorem reach_of_isCommand {c : Command} (h : IsCommand next ws c) :
    ∃ t us, ws = t :: us ∧ c.position = Span.reach? t.position next.position := by
  cases h with
  | mk => exact ⟨_, _, rfl, rfl⟩

/-- A statement reaches from its first token to the end of the token behind it. -/
theorem reach_of_isStatement {s : Statement} (h : IsStatement next ws s)
    (order : InOrder (ws ++ [next])) :
    ∃ t us, ws = t :: us ∧ s.position = Span.reach? t.position next.position := by
  cases h with
  | assignment h =>
    cases h with
    | mk => exact ⟨_, _, rfl, rfl⟩
  | pipeline h =>
    cases h with
    | command only => exact reach_of_isCommand only
    | @pipeline _ us vs c d cs first others =>
      -- The first command reaches to the end of its bar only, which the pipeline goes beyond.
      obtain ⟨t, us, rfl, position⟩ := reach_of_isCommand first
      refine ⟨t, us ++ vs, rfl, ?_⟩
      have mid : follow vs next ∈ t :: us ++ vs ++ [next] := by
        rw [List.append_assoc]
        exact List.mem_append_right _ ((follow_sublist vs next).subset (by simp))
      have further := order.le_stop _ mid
      obtain ⟨line, column, here⟩ := order.spans _ mid
      obtain ⟨line', column', there⟩ := order.spans next (by simp)
      show Span.reach? c.position next.position = _
      rw [position, here, there]
      exact Span.reach?_reach? (Int.ofNat_le.2 further)
  | conditional h => cases h <;> exact ⟨_, _, rfl, rfl⟩
  | loop h => cases h <;> exact ⟨_, _, rfl, rfl⟩
  | function h =>
    cases h with
    | mk => exact ⟨_, _, rfl, rfl⟩

/-- Tokens in order give a phrase its place. -/
theorem placedAt_of_isNode {n : Node} (h : IsNode next ws n) (order : InOrder (ws ++ [next])) :
    n.PlacedAt ws next := by
  cases h with
  | @expr _ t e h =>
    obtain ⟨line, column, here⟩ := order.spans t (by simp)
    cases h
    all_goals exact ⟨t, _, rfl, here, here⟩
  | redirection h =>
    cases h with
    | mk =>
      obtain ⟨s, here, reach⟩ := order.reach
      exact ⟨_, _, s, rfl, here, reach⟩
  | command h =>
    obtain ⟨t, us, rfl, position⟩ := reach_of_isCommand h
    obtain ⟨s, here, reach⟩ := order.reach
    exact ⟨t, us, s, rfl, here, position.trans reach⟩
  | statement h =>
    obtain ⟨t, us, rfl, position⟩ := reach_of_isStatement h order
    obtain ⟨s, here, reach⟩ := order.reach
    exact ⟨t, us, s, rfl, here, position.trans reach⟩

/-- The parser of its kind takes exactly the tokens of a phrase that does not nest too deep. -/
theorem takenFrom_of_isNode {n : Node} (h : IsNode next ws n) (shallow : n.nesting ≤ nestingLimit)
    {others : List Token} (complete : Complete (ws ++ next :: others)) :
    n.TakenFrom ws (next :: others) := by
  have taken {α : Type} {p : Parse α} {G : Phrase α} {a : α} (reads : Reads p G)
      (found : G next ws a) : p (ws ++ next :: others) = .ok a (next :: others) :=
    ((reads _ complete).ok a _).2 ⟨ws, next, others, rfl, rfl, found⟩
  cases h with
  | expr h => exact taken reads_expression ⟨_, rfl, h⟩
  | redirection h =>
    cases h with
    | @mk _ operator _ _ kind target =>
      have inner : operator.kind ≠ .eof := by
        intro eof
        rw [eof] at kind
        cases kind
      exact taken reads_redirection ⟨operator, _, _, rfl, inner, target, rfl⟩
  | command h => exact taken reads_command h
  | @statement _ _ s h =>
    have whole := taken reads_statement (.statement ⟨h, shallow⟩)
    cases s with
    | command c =>
      cases h with
      | assignment h => cases h
      | pipeline h =>
        cases h with
        | command only => exact taken reads_command only
      | conditional h => cases h
      | loop h => cases h
      | function h => cases h
    | pipeline => exact whole
    | conditional => exact whole
    | loop => exact whole
    | function => exact whole
    | assignment => exact whole

end Pieces

section Places

variable {next : Token} {ws : List Token} {n : Node}

/-- A piece that has children is no expression. -/
theorem Node.PlacedAt.cases (placed : n.PlacedAt ws next) : ∃ t us s, ws = t :: us ∧
    t.position = some s ∧ ((n.children = [] ∧ us = [] ∧ n.position = some s) ∨
      n.position = some { s with endOffset := next.stop }) := by
  have reaches (found : ∃ t us s, ws = t :: us ∧ t.position = some s ∧
      n.position = some { s with endOffset := next.stop }) : ∃ t us s, ws = t :: us ∧
      t.position = some s ∧ ((n.children = [] ∧ us = [] ∧ n.position = some s) ∨
        n.position = some { s with endOffset := next.stop }) := by
    obtain ⟨t, us, s, split, here, position⟩ := found
    exact ⟨t, us, s, split, here, Or.inr position⟩
  cases n with
  | expr e =>
    obtain ⟨t, s, rfl, here, position⟩ := placed
    exact ⟨t, [], s, rfl, here, Or.inl ⟨rfl, rfl, position⟩⟩
  | program p => exact reaches placed
  | statement st => exact reaches placed
  | redirection r => exact reaches placed

/-- A piece has a token, and starts where its first does. -/
theorem Node.PlacedAt.start_eq (placed : n.PlacedAt ws next) :
    ∃ t us, ws = t :: us ∧ n.start = t.start := by
  obtain ⟨t, us, s, split, here, ⟨-, -, position⟩ | position⟩ := placed.cases
  · exact ⟨t, us, split, by simp [Node.start, Token.start, position, here]⟩
  · exact ⟨t, us, split, by simp [Node.start, Token.start, position, here]⟩

/-- A piece reaches over its tokens, at most to the end of the token behind them. -/
theorem Node.PlacedAt.le_stop (placed : n.PlacedAt ws next) (order : InOrder (ws ++ [next])) :
    (∀ t ∈ ws, t.stop ≤ n.stop) ∧ n.stop ≤ next.stop := by
  have further := order.le_stop
  obtain ⟨t, us, s, rfl, here, ⟨-, rfl, position⟩ | position⟩ := placed.cases
  · have same : n.stop = t.stop := by simp [Node.stop, Token.stop, position, here]
    rw [same]
    exact ⟨by simp, further t (by simp)⟩
  · have same : n.stop = next.stop := by simp [Node.stop, position]
    rw [same]
    exact ⟨fun u member => further u (List.mem_append_left _ member), Nat.le_refl _⟩

/-- A piece with children reaches to the end of the token behind it. -/
theorem Node.PlacedAt.stop_eq (placed : n.PlacedAt ws next) {m : Node} (child : m ∈ n.children) :
    n.stop = next.stop := by
  obtain ⟨t, us, s, -, -, ⟨none, -⟩ | position⟩ := placed.cases
  · rw [none] at child
    cases child
  · simp [Node.stop, position]

/-- A piece inside some tokens starts where one of them does, and reaches at most to the end of
the token behind them. -/
theorem bounds_of_inside (h : Inside IsNode next ws n) (order : InOrder (ws ++ [next])) :
    (∃ t ∈ ws, n.start = t.start) ∧ n.stop ≤ next.stop := by
  obtain ⟨mid, vs, found, among, part⟩ := h.sublist
  have inner := order.sublist part
  have placed := placedAt_of_isNode found inner
  refine ⟨?_, Nat.le_trans (placed.le_stop inner).2 (order.le_stop mid (part.subset (by simp)))⟩
  obtain ⟨t, us, rfl, start⟩ := placed.start_eq
  exact ⟨t, among List.mem_cons_self, start⟩

/-- Everything in a piece of a row starts before everything in the pieces behind it. -/
theorem walks_of_row {ns : List Node} (h : Row IsNode next ws ns)
    (order : InOrder (ws ++ [next])) :
    ns.Pairwise fun m n => ∀ k ∈ m.walk, ∀ l ∈ n.walk, k.start < l.start := by
  induction h with
  | nil => exact .nil
  | @cons next us vs ws m ns first others ih =>
    rw [List.append_assoc] at order
    have behind : InOrder (ws ++ [next]) := order.sublist (List.sublist_append_right _ _)
    refine List.pairwise_cons.2 ⟨fun n member k inFirst l inLater => ?_, ih behind⟩
    have upTo : InOrder (us ++ vs ++ [follow ws next]) :=
      order.sublist ((List.Sublist.refl (us ++ vs)).append (follow_sublist ws next))
    obtain ⟨⟨t, before, start⟩, -⟩ :=
      bounds_of_inside ((inside_of_walk first inFirst).right us) upTo
    obtain ⟨⟨u, after, start'⟩, -⟩ := bounds_of_inside
      ((others.inside n member).trans fun _ _ found => inside_of_walk found inLater) behind
    have apart := (List.pairwise_append.1 order.ordered).2.2
    rw [start, start']
    exact (apart t before u (List.mem_append_left _ after)).1

end Places

/-! ## Pieces laid out among tokens -/

/-- A piece that starts with the first of some tokens, whose children are rows of phrases among
them, and that reaches to the end of the token behind them if it has children. -/
structure Node.LaidOut (ws : List Token) (next : Token) (n : Node) : Prop where
  order : InOrder (ws ++ [next])
  start_eq : n.start = (follow ws next).start
  stop_eq : ∀ m ∈ n.children, n.stop = next.stop
  rows : ∀ row ∈ n.rows, Row IsNode next ws row

theorem laidOut_of_isNode {next : Token} {ws : List Token} {n : Node} (h : IsNode next ws n)
    (order : InOrder (ws ++ [next])) : n.LaidOut ws next := by
  have placed := placedAt_of_isNode h order
  obtain ⟨t, us, rfl, start⟩ := placed.start_eq
  exact ⟨order, start, fun _ child => placed.stop_eq child, row_of_rows h⟩

theorem Node.self_mem_walk (n : Node) : n ∈ n.walk := by
  rw [walk_eq]
  exact List.mem_cons_self

namespace Node.LaidOut

variable {next : Token} {ws : List Token} {n : Node}

/-- What a walk comes to below a piece is inside its tokens. -/
theorem inside (laid : n.LaidOut ws next) {m : Node} (below : m ∈ n.children.flatMap walk) :
    Inside IsNode next ws m := by
  obtain ⟨child, isChild, below⟩ := List.mem_flatMap.1 below
  exact (inside_of_rows laid.rows child isChild).trans fun _ _ found => inside_of_walk found below

/-- What a walk comes to is laid out like the piece where it starts. -/
theorem of_walk (laid : n.LaidOut ws next) {m : Node} (member : m ∈ n.walk) :
    ∃ vs mid, m.LaidOut vs mid := by
  rw [walk_eq] at member
  rcases List.mem_cons.1 member with rfl | below
  · exact ⟨ws, next, laid⟩
  · obtain ⟨mid, vs, found, -, part⟩ := (laid.inside below).sublist
    exact ⟨vs, mid, laidOut_of_isNode found (laid.order.sublist part)⟩

/-- What is below a piece starts no earlier, and ends no later. -/
theorem nested (laid : n.LaidOut ws next) {m : Node} (below : m ∈ n.children.flatMap walk) :
    n.start ≤ m.start ∧ m.stop ≤ n.stop := by
  obtain ⟨child, isChild, -⟩ := List.mem_flatMap.1 below
  obtain ⟨⟨t, member, start⟩, further⟩ := bounds_of_inside (laid.inside below) laid.order
  rw [laid.start_eq, laid.stop_eq child isChild, start]
  exact ⟨laid.order.follow_le t (List.mem_append_left _ member), further⟩

/-- Everything in a piece of a row starts before everything in the pieces behind it. -/
theorem walks (laid : n.LaidOut ws next) : ∀ row ∈ n.rows,
    row.Pairwise fun m m' => ∀ k ∈ m.walk, ∀ l ∈ m'.walk, k.start < l.start :=
  fun row isRow => walks_of_row (laid.rows row isRow) laid.order

end Node.LaidOut

/-! ## Parsed scripts -/

/-- A parsed program is laid out among the tokens of its script. -/
theorem laidOut_of_parse {source : String} {p : Program} (parsed : parse source false = .ok p) :
    ∃ ws last, (Lexing.ofScript source false).tokens = ws ++ [last] ∧
      (Node.program p).LaidOut ws last := by
  obtain ⟨ws, last, split, body, position⟩ := row_of_parse parsed
  have order := inOrder_ofScript source
  rw [split] at order
  obtain ⟨s, here, reach⟩ := order.reach
  rw [← position] at reach
  refine ⟨ws, last, split, order, ?_, fun _ _ => ?_, List.forall_mem_singleton.2 ?_⟩
  · simp [Node.start, Node.position, Token.start, reach, here]
  · simp [Node.stop, Node.position, reach]
  · exact body.map fun _ _ _ found => .statement found.1

/-- A piece inside tokens in order is taken from them and has their place. -/
theorem exists_taken {next : Token} {ws : List Token} {n : Node}
    (h : Inside IsNode next ws n) (shallow : n.nesting ≤ nestingLimit)
    (order : InOrder (ws ++ [next])) (complete : Complete (ws ++ [next])) :
    ∃ before vs mid others, ws ++ [next] = before ++ vs ++ mid :: others ∧
      n.TakenFrom vs (mid :: others) ∧ n.PlacedAt vs mid ∧
      ∀ t ∈ vs, n.start ≤ t.start ∧ t.stop ≤ n.stop := by
  obtain ⟨us, vs, zs, rfl, found⟩ := h
  obtain ⟨others, ahead⟩ := append_cons_eq_follow zs next []
  have split : us ++ vs ++ zs ++ [next] = us ++ (vs ++ follow zs next :: others) := by
    simp [ahead]
  rw [split] at complete order
  have inner : InOrder (vs ++ [follow zs next]) := by
    refine order.sublist (List.Sublist.trans ?_ (List.sublist_append_right us _))
    exact (List.Sublist.refl vs).append (by simp)
  have placed := placedAt_of_isNode found inner
  refine ⟨us, vs, follow zs next, others, by rw [split, List.append_assoc],
    takenFrom_of_isNode found shallow (complete.of_append (by simp)), placed, fun t member => ?_⟩
  refine ⟨?_, (placed.le_stop inner).1 t member⟩
  obtain ⟨u, us, rfl, start⟩ := placed.start_eq
  rw [start]
  exact inner.follow_le t (List.mem_append_left _ member)

/-- Where a program of `source` and its pieces stand, if `ts` are the tokens of the script. -/
structure Program.Spanned (source : String) (ts : List Token) (p : Program) : Prop where
  /-- The tokens are those of the script. -/
  tokens : tokenize source false = .ok ts
  /-- The end mark stands at the end of the script. -/
  ends : ∀ t ∈ ts, t.kind = .eof → t.stop = source.toList.length
  /-- The program starts with the first token and reaches to the end of the script. -/
  root : ∃ t s, ts.head? = some t ∧ t.position = some s ∧
    p.position = some { s with endOffset := source.toList.length }
  /-- Any other piece is taken from tokens of the script, has the place that these give it, and
  reaches over all of them. -/
  pieces : ∀ n ∈ (Node.program p).walk.tail, ∃ before ws next others,
    ts = before ++ ws ++ next :: others ∧ n.TakenFrom ws (next :: others) ∧
      n.PlacedAt ws next ∧ ∀ t ∈ ws, n.start ≤ t.start ∧ t.stop ≤ n.stop
  /-- A piece lies inside the piece around it. -/
  nested : ∀ n ∈ (Node.program p).walk, ∀ m ∈ n.children, n.start ≤ m.start ∧ m.stop ≤ n.stop
  /-- The pieces of a row start one behind another: so do the statements of a body, the commands
  of a pipeline and the arguments of a command. -/
  ordered : ∀ n ∈ (Node.program p).walk, ∀ row ∈ n.rows,
    row.Pairwise fun m m' => m.start < m'.start

/-- **Every piece of a parsed tree stands where its tokens do**, inside the piece around it and
behind the pieces in front of it. -/
theorem parse_spans (source : String) {p : Program} (parsed : parse source false = .ok p) :
    ∃ ts, p.Spanned source ts := by
  obtain ⟨ws, last, split, body, position⟩ := row_of_parse parsed
  have tokens := Lexing.tokenize_eq source
  rw [split] at tokens
  obtain ⟨ws', last', split', laid⟩ := laidOut_of_parse parsed
  obtain ⟨rfl, rfl⟩ := List.append_singleton_inj.1 (split'.symm.trans split)
  have ends := stop_ofScript split
  obtain ⟨s, here, reach⟩ := laid.order.reach
  rw [← position, ends] at reach
  refine ⟨ws' ++ [last'], tokens, ?_, ⟨follow ws' last', s, ?_, here, reach⟩, ?_, ?_, ?_⟩
  · refine List.forall_mem_append.2 ⟨fun t member eof => ?_, List.forall_mem_singleton.2 ?_⟩
    · exact absurd eof (Lexing.inner_ofScript split t member)
    · exact fun _ => ends
  · cases ws' <;> rfl
  · intro n below
    rw [Node.walk_eq, List.tail_cons] at below
    refine exists_taken (laid.inside below) ?_ laid.order (Parser.complete_of_tokenize tokens)
    obtain ⟨child, isChild, below⟩ := List.mem_flatMap.1 below
    obtain ⟨s, isStatement, rfl⟩ := List.mem_map.1 isChild
    obtain ⟨_, _, _, -, -, shallow⟩ := body.inside s isStatement
    exact Nat.le_trans (Node.nesting_le_of_mem_walk below) shallow
  · intro n member m child
    obtain ⟨vs, mid, inner⟩ := laid.of_walk member
    exact inner.nested (List.mem_flatMap.2 ⟨m, child, m.self_mem_walk⟩)
  · intro n member row isRow
    obtain ⟨vs, mid, inner⟩ := laid.of_walk member
    exact (inner.walks row isRow).imp fun apart =>
      apart _ (Node.self_mem_walk _) _ (Node.self_mem_walk _)

/-- A pipeline inside a conditional, with a redirection between two arguments. -/
theorem parse_spans_conditional :
    ∃ p, parse "if a\nthen b x >y z | c\nfi" false = .ok p ∧
      p.position = some ⟨0, 25, 1, 1⟩ ∧
      ∃ ts, p.Spanned "if a\nthen b x >y z | c\nfi" ts := by
  generalize script : "if a\nthen b x >y z | c\nfi" = source
  have parses : ((parse source false).casesOn (fun _ => false) fun p =>
      decide (p.position = some ⟨0, 25, 1, 1⟩)) = true := by
    subst script
    decide +kernel
  cases parsed : parse source false with
  | error e => simp [parsed] at parses
  | ok p =>
    simp only [parsed, decide_eq_true_eq] at parses
    exact ⟨p, rfl, parses, parse_spans source parsed⟩

end ShellScript
