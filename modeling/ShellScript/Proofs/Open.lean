/-
# ShellScript.Proofs.Open -- compound statements that are left open

A compound statement is a piece that opens a block (`IsOpener`), the block, and a closer
(`opener_of_isStatement`).  Without the closers, such pieces stand one in the block of another
(`IsOpen`), and the last block goes on with whatever comes next.

What goes wrong in a block goes wrong in the statement that opens it (`broken_of_opener`).  In
particular a statement that nests too deep is refused inside, at the first of its openers for
which there is no room (`overflows_of_isStatement`), and so are statements that are left open
(`overflows_of_isOpen`).  The induction is on the room that is left: an opener takes one level
of it for everything in its block.
-/
import ShellScript.Proofs.Parse.Breakdown

namespace ShellScript

set_option autoImplicit false

open Parse

namespace Grammar

/-! ## Openers -/

/-- The part of a compound statement in front of one of its blocks.  It holds statements itself
where that is the block behind `else`, and `depth` says how deep these nest. -/
inductive IsOpener : Block → Nat → List Token → Prop
  | thenPart {kwIf kwThen : Token} {hs : List Token} {c : Expr} {es : List Expr}
      (if_kind : kwIf.kind = .kwIf) (header : IsHeader hs c es)
      (then_kind : kwThen.kind = .kwThen) : IsOpener .thenPart 0 (kwIf :: hs ++ [kwThen])
  | elsePart {kwIf kwThen kwElse : Token} {hs us : List Token} {c : Expr} {es : List Expr}
      {ss : List Statement} (if_kind : kwIf.kind = .kwIf) (header : IsHeader hs c es)
      (then_kind : kwThen.kind = .kwThen) (then_body : IsBlock IsStatement kwElse us ss)
      (else_kind : kwElse.kind = .kwElse) :
      IsOpener .elsePart (Statement.nestingAll ss) (kwIf :: hs ++ kwThen :: us ++ [kwElse])
  | forBody {kwFor name kwIn kwDo : Token} {hs : List Token} {c : Expr} {es : List Expr}
      (for_kind : kwFor.kind = .kwFor) (name_kind : name.kind = .word)
      (in_word : kwIn.isWord "in" = true) (header : IsHeader hs c es)
      (do_kind : kwDo.kind = .kwDo) :
      IsOpener .loopBody 0 (kwFor :: name :: kwIn :: hs ++ [kwDo])
  | whileBody {kwWhile kwDo : Token} {hs : List Token} {c : Expr} {es : List Expr}
      (while_kind : kwWhile.kind = .kwWhile) (header : IsHeader hs c es)
      (do_kind : kwDo.kind = .kwDo) : IsOpener .loopBody 0 (kwWhile :: hs ++ [kwDo])
  | functionBody {kwFunction name lparen rparen lbrace : Token}
      (function_kind : kwFunction.kind = .kwFunction) (name_kind : name.kind = .word)
      (lparen_kind : lparen.kind = .lparen) (rparen_kind : rparen.kind = .rparen)
      (lbrace_kind : lbrace.kind = .lbrace) :
      IsOpener .functionBody 0 [kwFunction, name, lparen, rparen, lbrace]

/-- Compound statements left open in front of `t`: each is an opener with statements behind it,
and the next stands in the block of the one before.  The last opens the block `b`, the others
those of `outer`, and all of it nests `depth` deep. -/
inductive IsOpen (t : Token) (b : Block) : List Block → Nat → List Token → Prop
  | innermost {d : Nat} {us ws : List Token} {ss : List Statement} (opener : IsOpener b d us)
      (body : IsBlock IsStatement t ws ss) :
      IsOpen t b [] (max d (Statement.nestingAll ss) + 1) (us ++ ws)
  | inside {a : Block} {outer : List Block} {d depth : Nat} {us ws vs : List Token}
      {ss : List Statement} (opener : IsOpener a d us)
      (body : IsBlock IsStatement (follow vs t) ws ss) (others : IsOpen t b outer depth vs) :
      IsOpen t b (a :: outer) (max (max d (Statement.nestingAll ss)) depth + 1) (us ++ ws ++ vs)

section Openers

variable {b : Block} {d : Nat} {us : List Token}

theorem closes_of_isOpener (opener : IsOpener b d us) : b.Closes := by
  cases opener <;> decide

/-- An opener starts as a compound statement. -/
theorem compound_of_isOpener (opener : IsOpener b d us) :
    ∃ t ts, us = t :: ts ∧ (compound? t.kind).isSome = true := by
  cases opener with
  | thenPart kind => exact ⟨_, _, rfl, by rw [kind]; rfl⟩
  | elsePart kind => exact ⟨_, _, rfl, by rw [kind]; rfl⟩
  | forBody kind => exact ⟨_, _, rfl, by rw [kind]; rfl⟩
  | whileBody kind => exact ⟨_, _, rfl, by rw [kind]; rfl⟩
  | functionBody kind => exact ⟨_, _, rfl, by rw [kind]; rfl⟩

/-- A compound statement is an opener, a block and a closer. -/
theorem opener_of_isStatement {next : Token} {ws : List Token} {s : Statement}
    (h : IsStatement next ws s) (compound : 0 < s.nesting) :
    ∃ b d us vs ss closer, ws = us ++ vs ++ [closer] ∧ IsOpener b d us ∧
      IsBlock IsStatement closer vs ss ∧ s.nesting = max d (Statement.nestingAll ss) + 1 := by
  obtain ⟨t, ts, rfl, ⟨-, simple⟩ | ⟨-, h⟩ | ⟨-, h⟩ | ⟨-, h⟩⟩ := isStatement_iff.1 h
  · rw [nesting_of_isSimple simple] at compound
    exact absurd compound (Nat.lt_irrefl 0)
  · cases h with
    | noElse if_kind header then_kind then_body =>
      exact ⟨_, _, _, _, _, _, by simp, .thenPart if_kind header then_kind, then_body,
        by simp [Statement.nesting]⟩
    | withElse if_kind header then_kind then_body else_kind else_body =>
      exact ⟨_, _, _, _, _, _, by simp, .elsePart if_kind header then_kind then_body else_kind,
        else_body, by simp [Statement.nesting]⟩
  · cases h with
    | forIn for_kind name_kind in_word header do_kind body =>
      exact ⟨_, _, _, _, _, _, by simp, .forBody for_kind name_kind in_word header do_kind, body,
        by simp [Statement.nesting]⟩
    | whileDo while_kind header do_kind body =>
      exact ⟨_, _, _, _, _, _, by simp, .whileBody while_kind header do_kind, body,
        by simp [Statement.nesting]⟩
  · cases h with
    | mk function_kind name_kind lparen_kind rparen_kind lbrace_kind body =>
      exact ⟨_, _, _, _, _, _, by simp,
        .functionBody function_kind name_kind lparen_kind rparen_kind lbrace_kind, body,
        by simp [Statement.nesting]⟩

/-- What breaks the block behind an opener breaks the statement. -/
theorem broken_of_opener (opener : IsOpener b d us) {depth : Nat} (shallow : d ≤ depth)
    {t : Token} {ws : List Token} {e : Failure}
    (broken : BrokenBody (Within depth) (Broken depth) b t ws e) :
    Broken (depth + 1) t (us ++ ws) e := by
  cases opener with
  | thenPart if_kind header then_kind =>
    rw [List.append_assoc]
    exact Or.inr (Or.inl (.thenPart if_kind header then_kind broken))
  | elsePart if_kind header then_kind then_body else_kind =>
    rw [List.append_assoc]
    have inside := isBlock_within.2 ⟨then_body, shallow⟩
    exact Or.inr (Or.inl (.elsePart if_kind header then_kind inside else_kind broken))
  | forBody for_kind name_kind in_word header do_kind =>
    rw [List.append_assoc]
    exact Or.inr (Or.inr (Or.inl (.forBody for_kind name_kind in_word header do_kind broken)))
  | whileBody while_kind header do_kind =>
    rw [List.append_assoc]
    exact Or.inr (Or.inr (Or.inl (.whileBody while_kind header do_kind broken)))
  | functionBody function_kind name_kind lparen_kind rparen_kind lbrace_kind =>
    exact Or.inr (Or.inr (Or.inr
      (.body function_kind name_kind lparen_kind rparen_kind lbrace_kind broken)))

/-- A block is broken where it holds a broken statement behind whole ones. -/
theorem brokenBody_of_statement (closes : b.Closes) {depth : Nat} {t : Token} {vs ws : List Token}
    {ss : List Statement} {e : Failure} (body : IsBlock (Within depth) (follow ws t) vs ss)
    (broken : Broken depth t ws e) :
    BrokenBody (Within depth) (Broken depth) b t (vs ++ ws) e := by
  have starts := opensBroken_broken depth t ws e broken
  obtain ⟨items, rounds, -⟩ :=
    rounds_of_isBlock (opens_within depth) closes body (.none_of_opens starts)
  exact .inside ⟨vs, ws, items, rfl, rounds, .statement (closes.inside_of_opens starts) broken⟩

end Openers

/-! ## Statements that nest too deep -/

/-- Among the tokens `ws` stands one at which statements nest more than `depth` deep. -/
def Overflows (depth : Nat) (ws : List Token) : Prop :=
  ∃ us t vs, ws = us ++ t :: vs ∧ Broken depth t us .tooDeep

theorem Overflows.append {depth : Nat} {ws : List Token} (h : Overflows depth ws)
    (vs : List Token) : Overflows depth (ws ++ vs) := by
  obtain ⟨us, t, behind, rfl, broken⟩ := h
  exact ⟨us, t, behind ++ vs, by simp, broken⟩

/-- Where there is no room, an opener is refused. -/
theorem overflows_zero {t : Token} {ts : List Token} (compound : (compound? t.kind).isSome = true) :
    Overflows 0 (t :: ts) :=
  ⟨[], t, ts, rfl, Or.inr ⟨rfl, compound, rfl⟩⟩

/-- A block that nests too deep holds a first statement that does. -/
theorem exists_deep {depth : Nat} {next : Token} {ws : List Token} {ss : List Statement}
    (h : IsBlock IsStatement next ws ss) (deep : depth < Statement.nestingAll ss) :
    ∃ us vs zs front s, ws = us ++ (vs ++ zs) ∧
      IsBlock (Within depth) (follow (vs ++ zs) next) us front ∧
      IsStatement (follow zs next) vs s ∧ depth < s.nesting := by
  induction h with
  | nil => exact absurd deep (Nat.not_lt_zero depth)
  | @newline _ t _ _ kind _ ih =>
    obtain ⟨us, vs, zs, front, s, rfl, before, found, deep⟩ := ih deep
    exact ⟨t :: us, vs, zs, front, s, rfl, .newline kind before, found, deep⟩
  | @comment _ t _ _ kind _ ih =>
    obtain ⟨us, vs, zs, front, s, rfl, before, found, deep⟩ := ih deep
    exact ⟨t :: us, vs, zs, front, s, rfl, .comment kind before, found, deep⟩
  | @statement next us ws s ss first _ ih =>
    by_cases here : depth < s.nesting
    · exact ⟨[], us, ws, [], s, rfl, .nil, first, here⟩
    have shallow := Nat.le_of_not_lt here
    have behind : depth < Statement.nestingAll ss := by
      rw [Statement.nestingAll] at deep
      omega
    obtain ⟨us', vs, zs, front, s', rfl, before, found, deep⟩ := ih behind
    rw [follow_append] at first
    exact ⟨us ++ us', vs, zs, s :: front, s', (List.append_assoc _ _ _).symm,
      .statement ⟨first, shallow⟩ before, found, deep⟩
  | @separated next t us ws s ss first kind _ ih =>
    by_cases here : depth < s.nesting
    · exact ⟨[], us, t :: ws, [], s, rfl, .nil, first, here⟩
    have shallow := Nat.le_of_not_lt here
    have behind : depth < Statement.nestingAll ss := by
      rw [Statement.nestingAll] at deep
      omega
    obtain ⟨us', vs, zs, front, s', rfl, before, found, deep⟩ := ih behind
    exact ⟨us ++ t :: us', vs, zs, s :: front, s', by simp,
      .separated ⟨first, shallow⟩ kind before, found, deep⟩

section Overflow

variable {depth : Nat} (overflows : ∀ {next : Token} {ws : List Token} {s : Statement},
  IsStatement next ws s → depth < s.nesting → Overflows depth ws)

include overflows

/-- A block that nests too deep breaks at the token where it does. -/
theorem brokenBody_of_deep {b : Block} (closes : b.Closes) {next : Token} {ws : List Token}
    {ss : List Statement} (h : IsBlock IsStatement next ws ss)
    (deep : depth < Statement.nestingAll ss) :
    ∃ us t vs, ws = us ++ t :: vs ∧
      BrokenBody (Within depth) (Broken depth) b t us .tooDeep := by
  obtain ⟨us, vs, zs, front, s, rfl, before, found, deep⟩ := exists_deep h deep
  obtain ⟨vs, t, behind, rfl, broken⟩ := overflows found deep
  rw [List.append_assoc, follow_append] at before
  exact ⟨us ++ vs, t, behind ++ zs, by simp, brokenBody_of_statement closes before broken⟩

/-- An opener whose block, or what it holds itself, nests too deep. -/
theorem overflows_of_opener {b : Block} {d : Nat} {us : List Token} (opener : IsOpener b d us)
    {next : Token} {ws : List Token} {ss : List Statement} (body : IsBlock IsStatement next ws ss)
    (deep : depth < max d (Statement.nestingAll ss)) : Overflows (depth + 1) (us ++ ws) := by
  by_cases here : depth < d
  · cases opener with
    | @elsePart kwIf kwThen kwElse hs vs c es _ if_kind header then_kind then_body else_kind =>
      obtain ⟨vs, t, behind, rfl, broken⟩ :=
        brokenBody_of_deep overflows (b := .thenPart) (by decide) then_body here
      exact ⟨_, t, behind ++ [kwElse] ++ ws, by simp,
        Or.inr (Or.inl (.thenPart if_kind header then_kind broken))⟩
    | thenPart => exact absurd here (Nat.not_lt_zero depth)
    | forBody => exact absurd here (Nat.not_lt_zero depth)
    | whileBody => exact absurd here (Nat.not_lt_zero depth)
    | functionBody => exact absurd here (Nat.not_lt_zero depth)
  · have inBody : depth < Statement.nestingAll ss := by omega
    obtain ⟨vs, t, behind, rfl, broken⟩ :=
      brokenBody_of_deep overflows (closes_of_isOpener opener) body inBody
    exact ⟨us ++ vs, t, behind, by simp,
      broken_of_opener opener (Nat.le_of_not_lt here) broken⟩

end Overflow

/-- A statement that nests too deep is refused at one of its tokens. -/
theorem overflows_of_isStatement {depth : Nat} {next : Token} {ws : List Token} {s : Statement}
    (h : IsStatement next ws s) (deep : depth < s.nesting) : Overflows depth ws := by
  induction depth generalizing next ws s with
  | zero =>
    obtain ⟨b, d, us, vs, ss, closer, rfl, opener, -⟩ := opener_of_isStatement h deep
    obtain ⟨t, ts, rfl, compound⟩ := compound_of_isOpener opener
    exact overflows_zero compound
  | succ depth ih =>
    obtain ⟨b, d, us, vs, ss, closer, rfl, opener, body, nesting⟩ :=
      opener_of_isStatement h (Nat.zero_lt_of_lt deep)
    rw [nesting] at deep
    exact (overflows_of_opener ih opener body (Nat.lt_of_succ_lt_succ deep)).append [closer]

/-- Statements that are left open and nest too deep are refused at one of their tokens. -/
theorem overflows_of_isOpen {t : Token} {b : Block} {outer : List Block} {depth n : Nat}
    {ws : List Token} (h : IsOpen t b outer n ws) (deep : depth < n) : Overflows depth ws := by
  induction h generalizing depth with
  | innermost opener body =>
    cases depth with
    | zero =>
      obtain ⟨t, ts, rfl, compound⟩ := compound_of_isOpener opener
      exact overflows_zero compound
    | succ depth =>
      exact overflows_of_opener overflows_of_isStatement opener body (Nat.lt_of_succ_lt_succ deep)
  | @inside a outer d n us ws vs ss opener body _ ih =>
    cases depth with
    | zero =>
      obtain ⟨t, ts, rfl, compound⟩ := compound_of_isOpener opener
      exact overflows_zero compound
    | succ depth =>
      by_cases here : depth < max d (Statement.nestingAll ss)
      · exact (overflows_of_opener overflows_of_isStatement opener body here).append vs
      obtain ⟨first, inBody⟩ := Nat.max_le.1 (Nat.le_of_not_lt here)
      obtain ⟨vs, u, behind, rfl, broken⟩ := ih (show depth < n by omega)
      have before := isBlock_within.2 ⟨body, inBody⟩
      rw [follow_append] at before
      have inside := brokenBody_of_statement (closes_of_isOpener opener) before broken
      refine ⟨us ++ (ws ++ vs), u, behind, by simp, broken_of_opener opener first inside⟩

end Grammar

end ShellScript
