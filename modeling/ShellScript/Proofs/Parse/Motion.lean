/-
# ShellScript.Proofs.Parse.Motion -- moved tokens give a moved tree

`Moves m F p q` says that on moved tokens the parser `q` does what `p` does on the tokens
themselves: it gives the value that `F` makes of the value of `p`, or fails with the moved
failure, and leaves the moved rest.  Ways of putting parsers together keep this up, so it
holds of every parser, and of the rounds of the top level (`read_move`).  No parser looks
at a position but to stretch a span.
-/
import ShellScript.Proofs.Motion
import ShellScript.Proofs.Parse.Program

namespace ShellScript

set_option autoImplicit false

variable {m : Motion}

@[simp] theorem Token.kind_move (t : Token) : (t.move m).kind = t.kind := rfl

namespace Parse

variable {α β γ δ : Type} {F : α → β} {G : γ → δ}

/-- An outcome on moved tokens, where the value is moved by `F`. -/
def moved (m : Motion) (F : α → β) :
    EStateM.Result Failure (List Token) α → EStateM.Result Failure (List Token) β
  | .ok a rest => .ok (F a) (rest.map (Token.move m))
  | .error e rest => .error (e.move m) (rest.map (Token.move m))

/-- On moved tokens `q` does what `p` does. -/
def Moves (m : Motion) (F : α → β) (p : Parse α) (q : Parse β) : Prop :=
  ∀ ts, q (ts.map (Token.move m)) = moved m F (p ts)

namespace Moves

theorem pure (a : α) : Moves m F (Pure.pure a) (Pure.pure (F a)) := by
  intro ts
  rfl

theorem malformed (e : SyntaxError) :
    Moves m F (Parse.malformed e) (Parse.malformed (e.move m)) := by
  intro ts
  rfl

theorem bind {p : Parse α} {q : Parse β} {f : α → Parse γ} {g : β → Parse δ}
    (first : Moves m F p q) (second : ∀ a, Moves m G (f a) (g (F a))) :
    Moves m G (p >>= f) (q >>= g) := by
  intro ts
  show EStateM.bind q g _ = moved m G (EStateM.bind p f ts)
  unfold EStateM.bind
  rw [first ts]
  cases p ts with
  | ok a rest => exact second a rest
  | error e rest => rfl

theorem ite {c d : Prop} [Decidable c] [Decidable d] (same : c ↔ d) {p p' : Parse α}
    {q q' : Parse β} (yes : Moves m F p q) (no : Moves m F p' q') :
    Moves m F (if c then p else p') (if d then q else q') := by
  by_cases h : d
  · rw [if_pos h, if_pos (same.2 h)]
    exact yes
  · rw [if_neg h, if_neg (mt same.1 h)]
    exact no

theorem peek : Moves m (Token.move m) Parse.peek Parse.peek
  | [] => rfl
  | _ :: _ => rfl

theorem advance : Moves m (Token.move m) Parse.advance Parse.advance
  | [] => rfl
  | t :: ts => by
    by_cases last : t.kind = .eof <;> simp [Parse.advance, moved, last]

theorem check (k : Kind) : Moves m id (Parse.check k) (Parse.check k) :=
  (peek).bind fun _ => .pure _

theorem accept (k : Kind) : Moves m id (Parse.accept k) (Parse.accept k) :=
  (check k).bind fun _ => .ite Iff.rfl (advance.bind fun _ => .pure true) (.pure false)

theorem expect (k : Kind) (message : String) :
    Moves m (Token.move m) (Parse.expect k message) (Parse.expect k message) :=
  (check k).bind fun _ => .ite Iff.rfl advance (peek.bind fun _ => .malformed _)

theorem expectWord (text : String) :
    Moves m (Token.move m) (Parse.expectWord text) (Parse.expectWord text) :=
  (peek).bind fun _ => .ite Iff.rfl advance (.malformed _)

theorem separator : Moves m id Parse.separator Parse.separator :=
  (accept _).bind fun _ => .ite Iff.rfl (.pure ()) ((accept _).bind fun _ => .pure ())

theorem spanFrom (start : Option Span) :
    Moves m m.position (Parse.spanFrom start) (Parse.spanFrom (m.position start)) :=
  (peek).bind fun t => by
    show Moves m m.position (Pure.pure _) (Pure.pure (Span.reach? _ (m.position t.position)))
    rw [← m.position_reach?]
    exact .pure _

theorem isAssignment : Moves m id Parse.isAssignment Parse.isAssignment
  | [] => rfl
  | t :: ts => by
    rw [List.map_cons, isAssignment_cons, isAssignment_cons]
    cases ts <;> rfl

theorem manyWithin {p : Parse (Option α)} {q : Parse (Option β)}
    (step : Moves m (Option.map F) p q) (budget : List Token) :
    Moves m (List.map F) (Parse.manyWithin p budget)
      (Parse.manyWithin q (budget.map (Token.move m))) := by
  induction budget with
  | nil =>
    intro ts
    rfl
  | cons b budget ih =>
    refine step.bind fun o => ?_
    cases o with
    | none => exact .pure []
    | some a => exact ih.bind fun as => .pure (a :: as)

theorem many {p : Parse (Option α)} {q : Parse (Option β)} (step : Moves m (Option.map F) p q) :
    Moves m (List.map F) (Parse.many p) (Parse.many q) := by
  intro ts
  exact manyWithin step ts ts

/-- What is given if there is something to read. -/
theorem some {p : Parse α} {q : Parse β} (inner : Moves m F p q) :
    Moves m (Option.map F) (do return Option.some (← p)) (do return Option.some (← q)) :=
  inner.bind fun a => .pure (Option.some a)

end Moves

/-! ## Simple statements -/

theorem moves_expression : Moves m (Expr.move m) expression expression := by
  refine (Moves.peek).bind fun t => ?_
  rw [Token.kind_move]
  cases t.kind
  case word => exact (Moves.advance).bind fun _ => .pure (Expr.literal t.text false t.position)
  case quotedString =>
    exact (Moves.advance).bind fun _ => .pure (Expr.literal t.text true t.position)
  case reference => exact (Moves.advance).bind fun _ => .pure (Expr.reference t.text t.position)
  all_goals exact .malformed (.noExpression t)

theorem moves_expression? : Moves m (Option.map (Expr.move m)) expression? expression? :=
  (Moves.peek).bind fun _ => .ite Iff.rfl (moves_expression).some (.pure none)

theorem moves_trailingWords : Moves m (List.map (Expr.move m)) trailingWords trailingWords :=
  (moves_expression?).many

theorem moves_redirection : Moves m (Redirection.move m) redirection redirection :=
  (Moves.advance).bind fun operator => (Moves.peek).bind fun _ => .ite Iff.rfl
    (moves_expression.bind fun _ => (Moves.spanFrom operator.position).bind fun _ => .pure _)
    (.malformed _)

/-- An argument or a redirection at another place. -/
def Part.move (m : Motion) : Part → Part
  | .argument text e => .argument text (e.move m)
  | .redirection r => .redirection (r.move m)

theorem moves_part? : Moves m (Option.map (Part.move m)) part? part? :=
  (Moves.peek).bind fun t => .ite Iff.rfl
    (moves_expression.bind fun e => .pure (some (Part.argument (argumentText t) e)))
    (.ite Iff.rfl (moves_redirection.bind fun r => .pure (some (Part.redirection r))) (.pure none))

theorem move_parts (name : String) (position : Option Span) (parts : List Part) :
    (Command.mk name (parts.filterMap Part.text?) (parts.filterMap Part.expr?)
        (parts.filterMap Part.redirection?) position).move m =
      ⟨name, (parts.map (Part.move m)).filterMap Part.text?,
        (parts.map (Part.move m)).filterMap Part.expr?,
        (parts.map (Part.move m)).filterMap Part.redirection?, m.position position⟩ := by
  have text : Part.text? ∘ Part.move m = Part.text? := by
    funext part
    cases part <;> rfl
  have expr : Part.expr? ∘ Part.move m = Option.map (Expr.move m) ∘ Part.expr? := by
    funext part
    cases part <;> rfl
  have redirection :
      Part.redirection? ∘ Part.move m = Option.map (Redirection.move m) ∘ Part.redirection? := by
    funext part
    cases part <;> rfl
  simp only [Command.move, List.filterMap_map, List.map_filterMap, text, expr, redirection]
  rfl

theorem moves_command : Moves m (Command.move m) command command :=
  (Moves.expect _ _).bind fun name => (moves_part?).many.bind fun parts =>
    (Moves.spanFrom name.position).bind fun position => by
      show Moves m (Command.move m) (pure _) (pure (Command.mk _ _ _ _ _))
      rw [← move_parts]
      exact .pure _

theorem moves_pipedCommand? : Moves m (Option.map (Command.move m)) pipedCommand? pipedCommand? :=
  (Moves.accept _).bind fun _ => .ite Iff.rfl (moves_command).some (.pure none)

theorem moves_pipeline : Moves m (Statement.move m) pipeline pipeline := by
  refine (moves_command).bind fun first => (moves_pipedCommand?).many.bind fun others => ?_
  cases others with
  | nil => exact .pure (Statement.command first)
  | cons second others =>
    exact (Moves.spanFrom first.position).bind fun p =>
      .pure (Statement.pipeline first second others p)

theorem moves_assignment : Moves m (Statement.move m) assignment assignment :=
  (Moves.advance).bind fun name => (Moves.expectWord "=").bind fun _ =>
    (moves_expression).bind fun value => (Moves.spanFrom name.position).bind fun p =>
      .pure (Statement.assignment name.text value p)

/-! ## Blocks and compound statements -/

section Compound

variable {inner : Inner} (moves : Moves m (Option.map (Statement.move m)) inner inner)

theorem moves_refuse (b : Block) (t : Token) :
    Moves m F (refuse b t) (refuse b (t.move m)) := by
  unfold refuse
  refine .ite Iff.rfl ?_ (.malformed (.unexpected t b.context))
  cases closerMessage? b.closer with
  | some message => exact .malformed (.missingKind b.closer message t)
  | none =>
    intro ts
    rfl

theorem moves_headerSeparators : Moves m id headerSeparators headerSeparators :=
  have separator : Moves m (Option.map id) headerSeparator? headerSeparator? :=
    (Moves.peek).bind fun _ =>
      .ite Iff.rfl ((Moves.advance).bind fun _ => .pure (some ())) (.pure none)
  separator.many.bind fun _ => .pure ()

include moves

theorem moves_blockItem? (b : Block) :
    Moves m (Option.map (Option.map (Statement.move m))) (blockItem? inner b)
      (blockItem? inner b) := by
  refine (Moves.peek).bind fun t => .ite Iff.rfl (.pure none) <| (Moves.accept _).bind fun _ =>
    .ite Iff.rfl (.pure (some none)) <| moves.bind fun o => ?_
  cases o with
  | some s => exact (Moves.separator).bind fun _ => .pure (some (some s))
  | none => exact .ite Iff.rfl (.pure (some none)) (moves_refuse b t)

theorem moves_block (b : Block) :
    Moves m (List.map (Statement.move m)) (block inner b) (block inner b) :=
  (moves_blockItem? moves b).many.bind fun items => by
    have same : (items.filterMap id).map (Statement.move m) =
        (items.map (Option.map (Statement.move m))).filterMap id := by
      rw [List.filterMap_map, List.map_filterMap]
      rfl
    rw [← same]
    exact .pure _

theorem moves_elsePart? :
    Moves m (Option.map (List.map (Statement.move m))) (elsePart? inner) (elsePart? inner) :=
  (Moves.accept _).bind fun _ => .ite Iff.rfl (moves_block moves _).some (.pure none)

theorem moves_conditional : Moves m (Statement.move m) (conditional inner) (conditional inner) := by
  refine (Moves.expect _ _).bind fun opener => (moves_expression).bind fun condition =>
    (moves_trailingWords).bind fun args => (moves_headerSeparators).bind fun _ =>
      (Moves.expect _ _).bind fun _ => (moves_block moves _).bind fun thenBody =>
        (moves_elsePart? moves).bind fun elseBody => (Moves.expect _ _).bind fun _ =>
          (Moves.spanFrom opener.position).bind fun p => ?_
  have same : (Statement.conditional condition args thenBody elseBody p).move m =
      .conditional (condition.move m) (args.map (Expr.move m)) (thenBody.map (Statement.move m))
        (elseBody.map (List.map (Statement.move m))) (m.position p) := by
    cases elseBody <;> simp [Statement.move]
  rw [← same]
  exact .pure _

theorem moves_loopBody :
    Moves m (List.map (Statement.move m)) (loopBody inner) (loopBody inner) :=
  (moves_headerSeparators).bind fun _ => (Moves.expect _ _).bind fun _ =>
    (moves_block moves _).bind fun _ => (Moves.expect _ _).bind fun _ => .pure _

theorem moves_forLoop (opener : Token) :
    Moves m (Statement.move m) (forLoop inner opener) (forLoop inner (opener.move m)) := by
  refine (Moves.expect _ _).bind fun name => (Moves.expectWord _).bind fun _ =>
    (moves_expression).bind fun iterable => (moves_trailingWords).bind fun others =>
      (moves_loopBody moves).bind fun body => (Moves.spanFrom opener.position).bind fun p => ?_
  have same : (Statement.loop (.forIn name.text iterable) [] (iterable :: others) body p).move m =
      .loop (.forIn name.text (iterable.move m)) []
        (iterable.move m :: others.map (Expr.move m)) (body.map (Statement.move m))
        (m.position p) := by
    simp [Statement.move, LoopHeader.move]
  show Moves m _ _ (pure (Statement.loop (.forIn name.text _) _ _ _ _))
  rw [← same]
  exact .pure _

theorem moves_whileLoop (opener : Token) :
    Moves m (Statement.move m) (whileLoop inner opener) (whileLoop inner (opener.move m)) := by
  refine (moves_expression).bind fun condition => (moves_trailingWords).bind fun args =>
    (moves_loopBody moves).bind fun body => (Moves.spanFrom opener.position).bind fun p => ?_
  have same : (Statement.loop (.whileDo condition) args [] body p).move m =
      .loop (.whileDo (condition.move m)) (args.map (Expr.move m)) []
        (body.map (Statement.move m)) (m.position p) := by
    simp [Statement.move, LoopHeader.move]
  rw [← same]
  exact .pure _

theorem moves_loop : Moves m (Statement.move m) (loop inner) (loop inner) :=
  (Moves.advance).bind fun opener =>
    .ite Iff.rfl (moves_forLoop moves opener) (moves_whileLoop moves opener)

theorem moves_function : Moves m (Statement.move m) (function inner) (function inner) := by
  refine (Moves.expect _ _).bind fun opener => (Moves.expect _ _).bind fun name =>
    (Moves.expect _ _).bind fun _ => (Moves.expect _ _).bind fun _ =>
      (Moves.expect _ _).bind fun _ => (moves_block moves _).bind fun body =>
        (Moves.expect _ _).bind fun _ => (Moves.spanFrom opener.position).bind fun p => ?_
  have same : (Statement.function name.text body p).move m =
      .function name.text (body.map (Statement.move m)) (m.position p) := by
    simp [Statement.move]
  show Moves m _ _ (pure (Statement.function name.text _ _))
  rw [← same]
  exact .pure _

theorem moves_compound {k : Kind} {compound : Inner → Parse Statement}
    (opener : compound? k = some compound) :
    Moves m (Statement.move m) (compound inner) (compound inner) := by
  cases k <;> simp only [compound?, reduceCtorEq, Option.some.injEq] at opener
  all_goals subst opener
  · exact moves_conditional moves
  · exact moves_loop moves
  · exact moves_loop moves
  · exact moves_function moves

end Compound

theorem moves_simple? : Moves m (Option.map (Statement.move m)) simple? simple? :=
  (Moves.isAssignment).bind fun _ => .ite Iff.rfl (moves_assignment).some <|
    (Moves.check _).bind fun _ => .ite Iff.rfl (moves_pipeline).some (.pure none)

/-- A statement of any depth, by induction on how deep it may nest. -/
theorem moves_statementWithin (depth : Nat) :
    Moves m (Option.map (Statement.move m)) (statementWithin depth) (statementWithin depth) := by
  induction depth using Nat.strongRecOn with
  | ind depth ih =>
    rintro (_ | ⟨t, ts⟩)
    · rw [List.map_nil, statementWithin]
      rfl
    rw [List.map_cons, statementWithin_cons, statementWithin_cons, ← List.map_cons]
    refine Moves.ite (F := Option.map (Statement.move m)) Iff.rfl
      (Moves.advance.bind fun _ => .pure none) (.ite Iff.rfl (.pure none) ?_) (t :: ts)
    rw [Token.kind_move]
    cases opener : compound? t.kind with
    | none => exact moves_simple?
    | some compound =>
      cases depth with
      | zero =>
        intro ts
        rfl
      | succ depth => exact (moves_compound (ih depth (Nat.lt_succ_self depth)) opener).some

/-! ## The top level -/

/-- A piece of the top level at another place. -/
def Item.move (m : Motion) : Item → Item
  | .lineFeed => .lineFeed
  | .comment => .comment
  | .statement s => .statement (s.move m)
  | .skipped t => .skipped (t.move m)

theorem moves_item : Moves m (Item.move m) item item := by
  refine (Moves.accept _).bind fun _ => .ite Iff.rfl (.pure Item.lineFeed) <|
    (Moves.peek).bind fun t => (moves_statementWithin nestingLimit).bind fun o => ?_
  cases o with
  | some s => exact .pure (Item.statement s)
  | none =>
    exact .ite Iff.rfl (.pure Item.comment) (Moves.advance.bind fun u => .pure (Item.skipped u))

theorem moves_finish (i : Item) : Moves m id i.finish (i.move m).finish := by
  cases i with
  | lineFeed => exact .pure ()
  | comment => exact Moves.separator
  | statement => exact Moves.separator
  | skipped => exact Moves.separator

end Parse

open Parse

theorem Body.push_move (b : Body) (i : Item) : (b.push i).move m = (b.move m).push (i.move m) := by
  cases i <;> rfl

theorem Body.readWithin_move (budget ts : List Token) :
    Body.readWithin (budget.map (Token.move m)) (ts.map (Token.move m)) =
      (Body.readWithin budget ts).move m := by
  induction budget generalizing ts with
  | nil => rfl
  | cons b budget ih =>
    cases ts with
    | nil => rfl
    | cons t ts =>
      have first := moves_item (m := m) (t :: ts)
      simp only [List.map_cons] at first
      simp only [List.map_cons, Body.readWithin, Token.kind_move, first]
      split
      · rfl
      cases item (t :: ts) with
      | error e rest => rfl
      | ok i rest =>
        have finish := moves_finish (m := m) i rest
        simp only [moved, finish]
        cases i.finish rest with
        | error e left => exact (Body.push_move (Body.stop left (some e)) i).symm
        | ok u left =>
          simp only [ih]
          exact (Body.push_move (Body.readWithin budget left) i).symm

/-- **The body of moved tokens is the moved body.** -/
theorem Body.read_move (ts : List Token) :
    Body.read (ts.map (Token.move m)) = (Body.read ts).move m := Body.readWithin_move ts ts

end ShellScript
