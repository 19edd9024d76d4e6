/-
# ShellScript.Proofs.Conservation -- no word is lost between tokens and tree

The tokens of a script are those that its tree holds and those that were dropped
(`tally_of_parse`).  No two tokens stand in the same place (`nodup_position`), so the
place of an expression tells the one token it was.  With that, what a tally counts is what
became of every single token (`parse_conserves_words`).
-/
import ShellScript.Proofs.Parse.Script
import ShellScript.Proofs.Parse.Tally

namespace ShellScript

set_option autoImplicit false

open Grammar Parse

/-- A loop over words. -/
def Node.isForIn : Node → Bool
  | statement (.loop (.forIn _ _) _ _ _ _) => true
  | _ => false

/-- Names are those of commands, functions, loops over words and assignments. -/
theorem sum_names (ns : List Node) :
    (ns.map Node.names).sum =
      ns.countP (·.tag = .command) + ns.countP (·.tag = .function) + 2 * ns.countP Node.isForIn +
        2 * ns.countP (·.tag = .assignment) := by
  induction ns with
  | nil => rfl
  | cons n ns ih =>
    have here : n.names =
        (if n.tag = .command then 1 else 0) + (if n.tag = .function then 1 else 0) +
        2 * (if n.isForIn then 1 else 0) + 2 * (if n.tag = .assignment then 1 else 0) := by
      rcases n with p | s | r | e
      · rfl
      · cases s with
        | loop header => cases header <;> rfl
        | _ => rfl
      · rfl
      · cases e <;> rfl
    simp only [List.map_cons, List.sum_cons, ih, here, List.countP_cons, decide_eq_true_eq]
    omega

/-- No two tokens of a script stand in the same place. -/
theorem nodup_position (source : String) :
    ((Lexing.ofScript source false).tokens.map Token.position).Nodup := by
  have tiling := Lexing.tiling_run [] source.toList .start rfl
  refine List.pairwise_map.2 (tiling.ordered.imp fun {t u} ordered same => ?_)
  have starts : t.start = u.start := by rw [Token.start, same, Token.start]
  omega

/-- The tokens that the tree of a script holds, and those that were dropped. -/
theorem tally_of_parse {source : String} {p : Program} (parsed : parse source false = .ok p) :
    ∃ kept, (Lexing.ofScript source false).tokens.Perm
        (kept ++ (Parser.ofSource (.text source) false).parse.2.skipped) ∧
      Tally kept (Node.program p).walk ∧
      ∀ t ∈ (Parser.ofSource (.text source) false).parse.2.skipped, t.kind ≠ .word := by
  obtain ⟨-, ws, last, tokens, body, -⟩ := Parser.parse_ok_iff.1 ⟨parsed, rfl⟩
  obtain ⟨kept, split, tally, dropped⟩ := tally_of_isBody (tally_within nestingLimit) body
  refine ⟨last :: kept, ?_, ?_, dropped⟩
  · rw [tokens]
    exact (List.perm_append_singleton last ws).trans (split.cons last)
  · rw [Node.walk_eq]
    exact .hold rfl rfl Tag.noConfusion rfl (tally.skip (eof_of_isBody body) rfl)

/-! ## What a tally says of single tokens -/

theorem position_of_expr? {t : Token} {e : Expr} (found : t.expr? = some e) :
    e.position = t.position := by
  cases isExpr_iff.2 found <;> rfl

section Tallied

variable {ts kept dropped : List Token} {ns : List Node}

/-- The place of a token tells it from all others. -/
theorem filter_position (apart : (ts.map Token.position).Nodup) {t : Token} (member : t ∈ ts) :
    ts.filter (·.position = t.position) = [t] := by
  have only : ∀ u ∈ ts, (decide (u.position = t.position)) = decide (u = t) := by
    intro u inside
    rw [decide_eq_decide]
    constructor
    · exact List.inj_on_of_nodup_map apart inside member
    · intro same
      rw [same]
  rw [List.filter_congr only, List.filter_eq, List.count_eq_one_of_mem apart.of_map member]
  rfl

variable (split : ts.Perm (kept ++ dropped)) (tally : Tally kept ns)

include split tally

/-- An expression is a token that was kept. -/
theorem token_of_expr {e : Expr} (member : e ∈ ns.filterMap Node.expr?) :
    ∃ t ∈ ts, t.expr? = some e := by
  obtain ⟨names, same, -⟩ := tally.words
  have inside : e ∈ (kept.filterMap Token.expr? : Multiset Expr) := by
    rw [same]
    exact Multiset.mem_add.2 (Or.inl member)
  obtain ⟨t, found, expr⟩ := List.mem_filterMap.1 inside
  exact ⟨t, split.mem_iff.2 (List.mem_append_left dropped found), expr⟩

/-- Every word is an expression or spent on a name. -/
theorem countP_word (no_word : ∀ t ∈ dropped, t.kind ≠ .word) :
    ts.countP (·.kind = .word) =
      (ns.filterMap Node.expr?).countP Expr.isBare + (ns.map Node.names).sum := by
  obtain ⟨names, same, bare, count⟩ := tally.words
  have none_dropped : dropped.countP (·.kind = .word) = 0 :=
    List.countP_eq_zero.2 fun t member => by simpa using no_word t member
  have kept_words : kept.countP (·.kind = .word) =
      (kept.filterMap Token.expr?).countP Expr.isBare := by
    rw [List.countP_filterMap]
    refine List.countP_congr fun t _ => ?_
    unfold Token.expr?
    split
    · next word => simp [word, Expr.isBare]
    next other =>
    split
    · simp [other, Expr.isBare]
    split <;> simp [other, Expr.isBare]
  have both := congrArg (Multiset.countP fun e => e.isBare = true) same
  rw [Multiset.countP_add, Multiset.coe_countP, Multiset.coe_countP,
    Multiset.countP_eq_card.2 bare, count] at both
  rw [split.countP_eq, List.countP_append, none_dropped, kept_words]
  simpa using both

variable (apart : (ts.map Token.position).Nodup)

include apart

theorem nodup_positions : ((ns.filterMap Node.expr?).map Expr.position).Nodup := by
  obtain ⟨names, same, -⟩ := tally.words
  have kept_apart : (kept.map Token.position).Nodup := by
    have all := (split.map Token.position).nodup_iff.1 apart
    rw [List.map_append] at all
    exact all.of_append_left
  have exprs_apart : ((kept.filterMap Token.expr?).map Expr.position).Nodup := by
    refine List.pairwise_map.2 ((List.pairwise_map.1 kept_apart).filterMap Token.expr? ?_)
    intro t u differ e found f found'
    rwa [position_of_expr? found, position_of_expr? found']
  have le : ((ns.filterMap Node.expr? : List Expr) : Multiset Expr).map Expr.position ≤
      ((kept.filterMap Token.expr? : List Expr) : Multiset Expr).map Expr.position := by
    rw [same]
    exact Multiset.map_le_map (Multiset.le_add_right _ _)
  exact Multiset.nodup_of_le le exprs_apart

/-- Of a token that is no word, the expressions in its place are as many as it was kept. -/
theorem countP_position {t : Token} (member : t ∈ ts) {e : Expr} (found : t.expr? = some e)
    (marked : e.isBare = false) :
    (ns.filterMap Node.expr?).countP (·.position = t.position) = kept.count t := by
  obtain ⟨names, same, bare, -⟩ := tally.words
  have known (u : Token) (inside : u ∈ kept) (place : u.position = t.position) : u = t :=
    List.inj_on_of_nodup_map apart (split.mem_iff.2 (List.mem_append_left dropped inside)) member
      place
  have no_name : names.countP (·.position = t.position) = 0 := by
    refine Multiset.countP_eq_zero.2 fun f inside place => ?_
    have origin : f ∈ (kept.filterMap Token.expr? : Multiset Expr) := by
      rw [same]
      exact Multiset.mem_add.2 (Or.inr inside)
    obtain ⟨u, inside', found'⟩ := List.mem_filterMap.1 origin
    obtain rfl := known u inside' ((position_of_expr? found').symm.trans place)
    rw [found] at found'
    have unmarked := bare f inside
    rw [← Option.some.inj found', marked] at unmarked
    cases unmarked
  have kept_places : (kept.filterMap Token.expr?).countP (·.position = t.position) =
      kept.count t := by
    rw [List.countP_filterMap, List.count_eq_countP]
    refine List.countP_congr fun u inside => ?_
    constructor
    · intro place
      cases found' : u.expr? with
      | none => simp [found'] at place
      | some f =>
        have same_place : f.position = t.position := by simpa [found'] using place
        rw [known u inside ((position_of_expr? found').symm.trans same_place)]
        exact beq_self_eq_true t
    · intro same_token
      rw [eq_of_beq same_token, found]
      simpa using position_of_expr? found
  have both := congrArg (Multiset.countP (·.position = t.position)) same
  rw [Multiset.countP_add, Multiset.coe_countP, Multiset.coe_countP, no_name, kept_places] at both
  exact both.symm

end Tallied

/-- A parser warns of just the tokens that it dropped. -/
theorem Parser.countP_warnings (p : Parser) (f : Token → Bool) :
    p.warnings.countP (·.token.any f) = p.skipped.countP f := by
  rw [Parser.warnings, List.countP_map]
  rfl

/-- **No word is lost, duplicated or altered between tokens and tree.**  No two expressions of
a tree stand in the same place, and each is the one token that stands in its place.  A string
or a reference is one expression or was dropped with one warning, never both.  Every word is
an expression or spent on a name; every operator of a redirection is a redirection and every
bar joins two commands, unless it was dropped with a warning. -/
theorem parse_conserves_words (source : String) (p : Program)
    (parsed : parse source false = .ok p) :
    let ts := (Lexing.ofScript source false).tokens
    let ns := (Node.program p).walk
    let es := ns.filterMap Node.expr?
    let warned := (Parser.ofSource (.text source) false).parse.2.warnings
    (es.map Expr.position).Nodup ∧
      (∀ e ∈ es, ∃ t, ts.filter (·.position = e.position) = [t] ∧ IsExpr t e) ∧
      (∀ t ∈ ts, t.kind = .quotedString ∨ t.kind = .reference →
        es.countP (·.position = t.position) + warned.countP (·.token = some t) = 1) ∧
      ts.countP (·.kind = .word) =
        es.countP Expr.isBare + ns.countP (·.tag = .command) + ns.countP (·.tag = .function) +
          2 * ns.countP Node.isForIn + 2 * ns.countP (·.tag = .assignment) ∧
      ts.countP (·.kind.isRedirection) =
        ns.countP (·.tag = .redirection) +
          warned.countP (·.token.any (·.kind.isRedirection)) ∧
      ts.countP (·.kind = .pipe) =
        (ns.map Node.bars).sum + warned.countP (·.token.any (·.kind = .pipe)) := by
  intro ts ns es warned
  obtain ⟨kept, split, tally, no_word⟩ := tally_of_parse parsed
  have apart := nodup_position source
  refine ⟨nodup_positions split tally apart, fun e member => ?_, fun t member marked => ?_, ?_, ?_,
    ?_⟩
  · obtain ⟨t, inside, found⟩ := token_of_expr split tally member
    refine ⟨t, ?_, isExpr_iff.2 found⟩
    rw [position_of_expr? found]
    exact filter_position apart inside
  · obtain ⟨e, found, quoted⟩ : ∃ e, t.expr? = some e ∧ e.isBare = false := by
      rcases marked with kind | kind
      · exact ⟨_, isExpr_iff.1 (.quoted kind), rfl⟩
      · exact ⟨_, isExpr_iff.1 (.reference kind), rfl⟩
    have kept_once : es.countP (·.position = t.position) = kept.count t :=
      countP_position split tally apart member found quoted
    have dropped_once : warned.countP (·.token = some t) =
        (Parser.ofSource (.text source) false).parse.2.skipped.count t := by
      rw [List.count_eq_countP, ← Parser.countP_warnings]
      refine List.countP_congr fun w _ => ?_
      cases w.token <;> simp
    rw [kept_once, dropped_once, ← List.count_append, ← split.count_eq]
    exact List.count_eq_one_of_mem apart.of_map member
  · have words : ts.countP (·.kind = .word) = es.countP Expr.isBare + (ns.map Node.names).sum :=
      countP_word split tally no_word
    rw [words, sum_names]
    omega
  · rw [Parser.countP_warnings, split.countP_eq, List.countP_append, tally.redirections]
  · rw [Parser.countP_warnings, split.countP_eq, List.countP_append, tally.bars]

/-- A loop around a pipeline, then a bar and a string that are both dropped. -/
theorem parse_conserves_words_loop :
    ∃ p, parse "for f in a\ndo\nls $f | wc > out\ndone\n| \"c\"" false = .ok p ∧
      (((Node.program p).walk.filterMap Node.expr?).map Expr.position).Nodup ∧
      6 = ((Node.program p).walk.filterMap Node.expr?).countP Expr.isBare +
        (Node.program p).walk.countP (·.tag = .command) +
        (Node.program p).walk.countP (·.tag = .function) +
        2 * (Node.program p).walk.countP Node.isForIn +
        2 * (Node.program p).walk.countP (·.tag = .assignment) ∧
      2 = ((Node.program p).walk.map Node.bars).sum + 1 := by
  generalize script : "for f in a\ndo\nls $f | wc > out\ndone\n| \"c\"" = source
  have parses : (parse source false).isOk = true := by
    subst script
    decide +kernel
  have words : (Lexing.ofScript source false).tokens.countP (·.kind = .word) = 6 := by
    subst script
    decide +kernel
  have pipes : (Lexing.ofScript source false).tokens.countP (·.kind = .pipe) = 2 := by
    subst script
    decide +kernel
  have dropped : (Parser.ofSource (.text source) false).parse.2.warnings.countP
      (·.token.any (·.kind = .pipe)) = 1 := by
    subst script
    decide +kernel
  cases parsed : parse source false with
  | error e => simp [parsed, Except.isOk, Except.toBool] at parses
  | ok p =>
    obtain ⟨apart, -, -, names, -, bars⟩ := parse_conserves_words source p parsed
    rw [words] at names
    rw [pipes, dropped] at bars
    exact ⟨p, rfl, apart, names, bars⟩

end ShellScript
