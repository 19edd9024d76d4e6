/-
# ShellScript.Proofs.Parse.Rounds -- the loops of the parser, round by round

Header separators, blocks and the top level are read in rounds.  What a round takes shows in its
first token, so each loop has one equation for each kind of token it can meet.

A line feed and a comment are rounds that give nothing, both in a block and at the top level.
That is why it makes no difference whether a line feed behind a statement is taken for its
separator or left to the next round (`separated_eq`).
-/
import ShellScript.Proofs.Parse.Line

namespace ShellScript.Parse

set_option autoImplicit false

variable {α β : Type}

/-! ## Header separators -/

theorem headerSeparators_cons {t : Token} {ts : List Token} (complete : Complete (t :: ts)) :
    headerSeparators (t :: ts) =
      if t.kind.isHeaderSeparator = true then headerSeparators ts else .ok () (t :: ts) := by
  have round :=
    ((reads_headerSeparator?).shrinks fun _ _ _ => OptionalSeparator.ne_nil).many_eq complete
  refine (bind_eq round _).trans ?_
  rw [bind_assoc]
  by_cases separator : t.kind.isHeaderSeparator = true
  · have step : headerSeparator? (t :: ts) = .ok (some ()) ts := by
      show (if t.kind.isHeaderSeparator = true then _ else _ : Parse _) (t :: ts) = _
      rw [if_pos separator]
      exact bind_of_ok (advance_cons (ne_eof_of_isHeaderSeparator separator) ts) _
    rw [if_pos separator, bind_of_ok step, bind_assoc]
    rfl
  · have step : headerSeparator? (t :: ts) = .ok none (t :: ts) := by
      show (if t.kind.isHeaderSeparator = true then _ else _ : Parse _) (t :: ts) = _
      rw [if_neg separator]
      rfl
    rw [if_neg separator, bind_of_ok step]
    rfl

/-! ## Separators -/

/-- What stands behind an optional separator, to a parser that goes over line feeds itself. -/
theorem separated_eq {p : Parse α} {t : Token} {ts : List Token}
    (feeds : t.kind = .newline → p (t :: ts) = p ts) (f : α → β) :
    (do separator; return f (← p)) (t :: ts) =
      (do return f (← p)) (if t.kind = Kind.semicolon then ts else t :: ts) := by
  rw [bind_of_ok (separator_cons t ts)]
  by_cases semicolon : t.kind = .semicolon
  · rw [if_pos semicolon, if_pos (Or.inl semicolon)]
  · rw [if_neg semicolon]
    by_cases newline : t.kind = .newline
    · rw [if_pos (Or.inr newline)]
      show EStateM.bind p _ ts = EStateM.bind p _ (t :: ts)
      simp only [EStateM.bind, feeds newline]
    · rw [if_neg (by simp [semicolon, newline])]

/-! ## Blocks -/

/-- What belongs in no block is refused, whatever stands behind it. -/
theorem exists_refuse (b : Block) (t : Token) :
    ∃ e, ∀ (α : Type) (ts : List Token), (refuse b t : Parse α) ts = .error e ts := by
  unfold refuse
  split
  · cases closerMessage? b.closer with
    | some message => exact ⟨_, fun _ _ => rfl⟩
    | none => exact ⟨_, fun _ _ => rfl⟩
  · exact ⟨_, fun _ _ => rfl⟩

section Block

variable {inner : Inner} {S : Phrase Statement} {b : Block}

theorem blockItem?_of_ends {t : Token} (ends : b.Ends t) (ts : List Token) :
    blockItem? inner b (t :: ts) = .ok none (t :: ts) := by
  show (if (decide (t.kind = .eof) || b.terminators.contains t.kind) = true then _ else _ :
    Parse (Option (Option Statement))) (t :: ts) = _
  rw [if_pos ((b.ends_iff t).2 ends)]
  rfl

theorem blockItem?_inside {t : Token} (inside : ¬ b.Ends t) (ts : List Token) :
    blockItem? inner b (t :: ts) = (do
      if ← accept .newline then return some none
      else
        match ← inner with
        | some s =>
            separator
            return some (some s)
        | none => if t.kind = Kind.comment then return some none else refuse b t) (t :: ts) := by
  show (if (decide (t.kind = .eof) || b.terminators.contains t.kind) = true then _ else _ :
    Parse (Option (Option Statement))) (t :: ts) = _
  exact congrFun (if_neg (by rwa [b.ends_iff])) (t :: ts)

/-- Which closer is missing matters to a round that fails only. -/
theorem blockItem?_ok_of_closer (k : Kind) {ts rest : List Token} {o : Option (Option Statement)}
    (round : blockItem? inner b ts = .ok o rest) :
    blockItem? inner { b with closer := k } ts = .ok o rest := by
  cases ts with
  | nil => cases round
  | cons t ts =>
    by_cases ends : b.Ends t
    · rw [blockItem?_of_ends ends] at round
      rw [← round]
      exact blockItem?_of_ends (show Block.Ends { b with closer := k } t from ends) ts
    rw [blockItem?_inside ends, bind_ok] at round
    obtain ⟨taken, mid, feed, round⟩ := round
    rw [blockItem?_inside (show ¬ Block.Ends { b with closer := k } t from ends), bind_ok]
    refine ⟨taken, mid, feed, ?_⟩
    cases taken with
    | true => exact round
    | false =>
      obtain ⟨o', left, tried, round⟩ := bind_ok.1 round
      refine bind_ok.2 ⟨o', left, tried, ?_⟩
      cases o' with
      | some s => exact round
      | none =>
        by_cases comment : t.kind = .comment
        · simp only [if_pos comment] at round ⊢
          exact round
        · obtain ⟨e, refuses⟩ := exists_refuse b t
          simp only [if_neg comment, refuses] at round
          cases round

variable (reads : Reads inner (Attempt S)) (opens : Opens S)

include reads opens

/-- What a round of a block takes, whatever closer the block may have. -/
theorem exists_blockItem {ts rest : List Token} {o : Option (Option Statement)}
    (complete : Complete ts) (round : blockItem? inner b ts = .ok o rest) :
    ∃ ws next others, ts = ws ++ next :: others ∧ rest = next :: others ∧
      BlockItem S b next ws o := by
  have known := blockItem?_ok_of_closer .kwFi round
  obtain ⟨ws, next, others, split, left, item⟩ :=
    ((reads_blockItem? reads opens rfl ts complete).ok o rest).1 known
  refine ⟨ws, next, others, split, left, ?_⟩
  cases item with
  | stop ends => exact .stop ends
  | newline inside kind => exact .newline inside kind
  | comment inside kind => exact .comment inside kind
  | statement inside first separator => exact .statement inside first separator

/-- A round of a block that gives something takes a token. -/
theorem shrinks_blockItem? : Shrinks (blockItem? inner b) := by
  intro ts i rest complete round
  obtain ⟨ws, next, others, rfl, rfl, item⟩ := exists_blockItem reads opens complete round
  refine ⟨complete.of_append (List.cons_ne_nil next others), ?_⟩
  have taken := List.length_pos_iff.2 (item.ne_nil opens)
  rw [List.length_append]
  omega

/-- A round of a block, and the block behind it. -/
theorem block_eq {ts : List Token} (complete : Complete ts) :
    block inner b ts = (do
      match ← blockItem? inner b with
      | none => return []
      | some i => return i.toList ++ (← block inner b)) ts := by
  have round := (shrinks_blockItem? (b := b) reads opens).many_eq complete
  refine (bind_eq round _).trans ?_
  rw [bind_assoc]
  refine congrFun (congrArg (blockItem? inner b >>= ·) (funext fun o => ?_)) ts
  cases o with
  | none => rfl
  | some i =>
    simp only [block, bind_assoc, pure_bind]
    refine congrArg (many (blockItem? inner b) >>= ·) (funext fun items => ?_)
    cases i <;> rfl

variable {t : Token} {ts : List Token}

theorem block_of_ends (complete : Complete (t :: ts)) (ends : b.Ends t) :
    block inner b (t :: ts) = .ok [] (t :: ts) := by
  rw [block_eq reads opens complete, bind_of_ok (blockItem?_of_ends ends ts)]
  rfl

/-- A block goes over a line feed. -/
theorem block_newline (complete : Complete (t :: ts)) (inside : ¬ b.Ends t)
    (newline : t.kind = .newline) :
    block inner b (t :: ts) = block inner b ts := by
  have item : blockItem? inner b (t :: ts) = .ok (some none) ts := by
    rw [blockItem?_inside inside, bind_of_ok (accept_of_kind Kind.noConfusion newline ts)]
    rfl
  rw [block_eq reads opens complete, bind_of_ok item]
  exact congrFun (bind_pure (block inner b)) ts

/-- Within a line a block goes on with a statement. -/
theorem block_inside (complete : Complete (t :: ts)) (inside : ¬ b.Ends t)
    (no_newline : t.kind ≠ .newline) :
    block inner b (t :: ts) = (do
      match ← inner with
      | some s =>
          separator
          return s :: (← block inner b)
      | none => if t.kind = Kind.comment then block inner b else refuse b t) (t :: ts) := by
  have item : blockItem? inner b (t :: ts) = (do
      match ← inner with
      | some s =>
          separator
          return some (some s)
      | none => if t.kind = Kind.comment then return some none else refuse b t) (t :: ts) := by
    rw [blockItem?_inside inside, bind_of_ok (accept_of_ne Kind.noConfusion no_newline ts)]
    rfl
  rw [block_eq reads opens complete]
  refine (bind_eq item _).trans ?_
  rw [bind_assoc]
  refine congrFun (congrArg (inner >>= ·) (funext fun o => ?_)) (t :: ts)
  cases o with
  | some s =>
    simp only [bind_assoc, pure_bind]
    rfl
  | none =>
    by_cases comment : t.kind = .comment
    · simp only [if_pos comment, pure_bind]
      exact bind_pure (block inner b)
    · obtain ⟨e, refuses⟩ := exists_refuse b t
      funext ts
      simp only [if_neg comment]
      rw [refuses]
      exact bind_of_error (refuses _ ts) _

/-- A block goes over a comment. -/
theorem block_comment (complete : Complete (t :: ts)) (inside : ¬ b.Ends t)
    (comment : t.kind = .comment) :
    block inner b (t :: ts) = block inner b ts := by
  have no_newline : t.kind ≠ .newline := comment.trans_ne Kind.noConfusion
  rw [block_inside reads opens complete inside no_newline,
    bind_of_ok (attempt_comment reads complete comment), if_pos comment]

end Block

/-! ## The top level -/

/-- The top level as a parser. -/
def body : Parse (List Statement × List Token) := fun ts => bodyWithin ts ts

section Body

variable {t : Token} {ts dropped rest : List Token} {ss : List Statement}

theorem body_of_read (read : Body.read ts = ⟨ss, dropped, rest, none⟩) :
    body ts = .ok (ss, dropped) rest := by
  unfold Body.read at read
  simp only [body, bodyWithin, read]

theorem body_of_failure {e : Failure} (read : Body.read ts = ⟨ss, dropped, rest, some e⟩) :
    body ts = .error e rest := by
  unfold Body.read at read
  simp only [body, bodyWithin, read]

theorem body_of_eof (ts : List Token) (last : t.kind = .eof) :
    body (t :: ts) = .ok ([], []) (t :: ts) := by
  simp only [body, bodyWithin, Body.readWithin, if_pos last]
  rfl

/-- The top level goes over a line feed. -/
theorem body_newline (complete : Complete (t :: ts)) (newline : t.kind = .newline) :
    body (t :: ts) = body ts := by
  have inner : t.kind ≠ .eof := newline.trans_ne Kind.noConfusion
  have same : Body.readWithin (t :: ts) (t :: ts) = Body.readWithin ts ts :=
    Body.read_newline newline (complete.tail inner)
  simp only [body, bodyWithin, same]

/-- A round of the top level, and the top level behind it. -/
theorem body_cons (complete : Complete (t :: ts)) (inner : t.kind ≠ .eof) :
    body (t :: ts) = (do
      let i ← item
      i.finish
      return i.cons (← body)) (t :: ts) := by
  refine (bodyWithin_cons t ts ts inner).trans ?_
  show EStateM.bind item _ _ = EStateM.bind item _ _
  unfold EStateM.bind
  cases first : item (t :: ts) with
  | error e rest => rfl
  | ok i mid =>
    show EStateM.bind i.finish _ mid = EStateM.bind i.finish _ mid
    unfold EStateM.bind
    cases finish : i.finish mid with
    | error e rest => rfl
    | ok _ left =>
      obtain ⟨whole, shorter⟩ := (length_lt_of_round complete inner first).2 left finish
      have same : bodyWithin ts left = body left := by
        simp only [body, bodyWithin,
          Body.readWithin_eq ts left whole (Nat.le_of_lt_succ shorter) (Nat.le_refl _)]
      show EStateM.bind (bodyWithin ts) _ left = EStateM.bind body _ left
      simp only [EStateM.bind, same]

/-- The top level goes over a comment, and over the line feed behind it. -/
theorem body_comment {u : Token} {us : List Token} (complete : Complete (t :: u :: us))
    (comment : t.kind = .comment) (ends : u.kind = .newline ∨ u.kind = .eof) :
    body (t :: u :: us) = body (u :: us) := by
  have no_newline : t.kind ≠ .newline := comment.trans_ne Kind.noConfusion
  have inner : t.kind ≠ .eof := comment.trans_ne Kind.noConfusion
  have first : item (t :: u :: us) = .ok .comment (u :: us) := by
    rw [item_cons no_newline, bind_of_ok (attempt_comment reads_statement complete comment)]
    simp only [if_pos comment]
    rfl
  rw [body_cons complete inner, bind_of_ok first]
  show (do separator; return id (← body)) (u :: us) = _
  have plain : ¬ u.kind = .semicolon := by
    rcases ends with kind | kind <;> rw [kind] <;> exact Kind.noConfusion
  rw [separated_eq (body_newline (complete.tail inner)) id, if_neg plain]
  exact congrFun (bind_pure body) (u :: us)

/-- Within a line the top level goes on with a statement, or skips a token. -/
theorem body_inside (complete : Complete (t :: ts)) (inner : t.kind ≠ .eof)
    (no_newline : t.kind ≠ .newline) (no_comment : t.kind ≠ .comment) :
    body (t :: ts) = (do
      match ← statement with
      | some s =>
          separator
          return (Item.statement s).cons (← body)
      | none =>
          let u ← skipToken
          separator
          return (Item.skipped u).cons (← body)) (t :: ts) := by
  rw [body_cons complete inner]
  refine (bind_eq (item_cons no_newline) _).trans ?_
  simp only [if_neg no_comment]
  rw [bind_assoc]
  refine congrFun (congrArg (statement >>= ·) (funext fun o => ?_)) (t :: ts)
  cases o with
  | some s =>
    simp only [pure_bind]
    rfl
  | none =>
    simp only [bind_assoc, pure_bind]
    rfl

end Body

end ShellScript.Parse
