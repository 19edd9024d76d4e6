/-
# ShellScript.Proofs.Completion -- what is broken can be completed

The tokens in front of an error can go on to a whole phrase: a few words behind them
(`Filler`) supply what is missing, and close whatever is open.  So is every rule completed
that the grammar breaks off (`completes_broken`), from the inside out.

Behind a comment a line must end before a word can stand there.  Wherever a comment may be
the last token, a line feed may be the next.
-/
import ShellScript.Proofs.Breakdown
import ShellScript.Proofs.Lexing.Pieces
import ShellScript.Proofs.Parse.Elsewhere

namespace ShellScript

set_option autoImplicit false

open Grammar Parse

/-! ## Fillers -/

/-- What is put behind broken tokens. -/
inductive Filler where
  | newline
  | word
  | inWord
  | kwThen
  | kwFi
  | kwDo
  | kwDone
  | lparen
  | rparen
  | lbrace
  | rbrace

namespace Filler

def kind : Filler → Kind
  | newline => .newline
  | word => .word
  | inWord => .word
  | kwThen => .kwThen
  | kwFi => .kwFi
  | kwDo => .kwDo
  | kwDone => .kwDone
  | lparen => .lparen
  | rparen => .rparen
  | lbrace => .lbrace
  | rbrace => .rbrace

def spelling : Filler → String
  | newline => "\n"
  | word => "x"
  | inWord => "in"
  | kwThen => "then"
  | kwFi => "fi"
  | kwDo => "do"
  | kwDone => "done"
  | lparen => "("
  | rparen => ")"
  | lbrace => "\x7b"
  | rbrace => "\x7d"

/-- A word is written behind a space. -/
def written : Filler → List Char
  | newline => ['\n']
  | f => ' ' :: f.spelling.toList

/-- A token of the filler. -/
def Stands (f : Filler) (t : Token) : Prop := t.kind = f.kind ∧ t.text = f.spelling

theorem lexes (f : Filler) : Lexing.Lexes Lexing.Breaks f.written
    (Lexing.Single f.kind f.spelling f.spelling) := by
  have word {s : String} (nonempty : s.toList ≠ []) (letters : s.toList.all Charset.isWord = true)
      (free : Kind.keywords.lookup s = none) : Lexing.Lexes Lexing.Breaks (' ' :: s.toList) _ :=
    (Lexing.lexes_wordText (Or.inl ⟨nonempty, List.all_eq_true.1 letters, free⟩)).space
  have keyword {s : String} {k : Kind} (listed : (s, k) ∈ Kind.keywords) :
      Lexing.Lexes Lexing.Breaks (' ' :: s.toList) _ := (Lexing.lexes_keyword listed).space
  have operator {c : Char} {k : Kind} (listed : (c, k) ∈ Kind.operators) :
      Lexing.Lexes Lexing.Breaks [' ', c] _ := (Lexing.lexes_operator listed).space
  cases f with
  | newline => exact fun here rest _ => Lexing.lexes_newline here rest trivial
  | word => exact word (by decide) (by decide) (by decide)
  | inWord => exact word (by decide) (by decide) (by decide)
  | kwThen => exact keyword (by decide)
  | kwFi => exact keyword (by decide)
  | kwDo => exact keyword (by decide)
  | kwDone => exact keyword (by decide)
  | lparen => exact operator (c := '(') (by decide)
  | rparen => exact operator (c := ')') (by decide)
  | lbrace => exact operator (c := '\x7b') (by decide)
  | rbrace => exact operator (c := '\x7d') (by decide)

theorem breaks (fs : List Filler) {rest : List Char} (breaks : Lexing.Breaks rest) :
    Lexing.Breaks (fs.flatMap written ++ rest) := by
  rcases fs with _ | ⟨f, fs⟩
  · exact breaks
  cases f with
  | newline => exact ⟨'\n', _, rfl, Or.inr (Or.inl rfl)⟩
  | _ => exact ⟨' ', _, rfl, Or.inl rfl⟩

/-- Fillers that are written give their tokens. -/
theorem lexes_all (fs : List Filler) : Lexing.Lexes Lexing.Breaks (fs.flatMap written)
    (List.Forall₂ Stands fs) := by
  induction fs with
  | nil => exact .nil .nil
  | cons f fs ih =>
    refine (f.lexes.append ih fun rest => Filler.breaks fs).mono ?_
    rintro _ ⟨_, vs, rfl, ⟨t, rfl, kind, text, -⟩, others⟩
    exact .cons ⟨kind, text⟩ others

theorem Stands.isWord {t : Token} (stands : inWord.Stands t) : t.isWord "in" = true := by
  obtain ⟨kind, text⟩ := stands
  simp [Token.isWord, kind, text, Filler.kind, spelling]

theorem stand_append {fs gs : List Filler} {vs : List Token}
    (h : List.Forall₂ Stands (fs ++ gs) vs) :
    ∃ ts bs, vs = ts ++ bs ∧ List.Forall₂ Stands fs ts ∧ List.Forall₂ Stands gs bs := by
  induction fs generalizing vs with
  | nil => exact ⟨[], vs, rfl, .nil, h⟩
  | cons f fs ih =>
    cases h with
    | cons first others =>
      obtain ⟨ts, bs, rfl, left, right⟩ := ih others
      exact ⟨_ :: ts, bs, rfl, .cons first left, right⟩

end Filler

/-! ## Completions -/

/-- No comment is open behind the tokens. -/
def OpenLine (ws : List Token) : Prop := ∀ u ∈ ws.getLast?, u.kind ≠ .comment

theorem openLine_nil : OpenLine [] := by
  intro u last
  cases last

theorem openLine_concat (ws : List Token) {u : Token} {k : Kind} (kind : u.kind = k)
    (plain : k ≠ .comment) : OpenLine (ws ++ [u]) := by
  intro v last
  rw [List.getLast?_concat, Option.mem_some_iff] at last
  rw [← last, kind]
  exact plain

/-- Behind the tokens `ws` fillers may stand that make them what `Q` says. -/
def Completable (Q : List Token → Prop) (ws : List Token) : Prop :=
  ∃ fs, (fs.head? = some Filler.newline ∨ OpenLine ws) ∧
    ∀ vs, List.Forall₂ Filler.Stands fs vs → Q (ws ++ vs)

/-- What is completed to one phrase is completed to any phrase that this is. -/
theorem Completable.mono {Q R : List Token → Prop} {ws : List Token} (inside : Completable Q ws)
    (weaker : ∀ ts, Q ts → R ts) : Completable R ws := by
  obtain ⟨fs, starts, completes⟩ := inside
  exact ⟨fs, starts, fun vs stand => weaker _ (completes vs stand)⟩

/-- What stands around a completed phrase makes another. -/
theorem Completable.wrap {Q R : List Token → Prop} {vs ws : List Token}
    (inside : Completable Q vs) (us : List Token) (split : ws = us ++ vs)
    (joins : vs ≠ [] ∨ OpenLine us) (gs : List Filler)
    (step : ∀ ts bs, Q (vs ++ ts) → List.Forall₂ Filler.Stands gs bs → R (us ++ (vs ++ ts) ++ bs)) :
    Completable R ws := by
  subst split
  obtain ⟨fs, starts, completes⟩ := inside
  have line (plain : OpenLine vs) : OpenLine (us ++ vs) := by
    intro u last
    rw [List.getLast?_append] at last
    cases behind : vs.getLast? with
    | none =>
      rw [behind] at last
      exact joins.resolve_left (fun some_token =>
        some_token (List.getLast?_eq_none_iff.1 behind)) u last
    | some v =>
      rw [behind] at last
      exact plain u (by rw [behind]; exact last)
  refine ⟨fs ++ gs, ?_, fun bs stand => ?_⟩
  · rcases starts with first | plain
    · exact Or.inl (by rw [List.head?_append, first]; rfl)
    · exact Or.inr (line plain)
  · obtain ⟨ts, bs, rfl, left, right⟩ := Filler.stand_append stand
    have whole := step ts bs (completes ts left) right
    simpa only [List.append_assoc] using whole

/-! ## Simple statements -/

section Simple

variable {t : Token} {ws : List Token} {e : SyntaxError}

/-- Parts behind parts. -/
theorem isParts_append {next : Token} {us vs : List Token} {first others : List Part}
    (left : IsParts (follow vs next) us first) (right : IsParts next vs others) :
    IsParts next (us ++ vs) (first ++ others) := by
  generalize behind : follow vs next = u at left
  induction left with
  | nil => exact right
  | argument expr _ ih => exact .argument expr (ih behind)
  | redirection r _ ih =>
    rw [List.append_assoc]
    refine .redirection ?_ (ih behind)
    rw [follow_append, behind]
    exact r

/-- Tokens that are a command in front of whatever ends one. -/
def IsWholeCommand (ts : List Token) : Prop := ∀ next : Token, next.Parts → ∃ c, IsCommand next ts c

theorem completable_command (h : BrokenCommand t ws (.malformed e)) :
    Completable IsWholeCommand ws := by
  cases h with
  | name =>
    refine ⟨[.word], Or.inr openLine_nil, fun vs stand next ends => ?_⟩
    obtain _ | ⟨⟨kind, -⟩, _ | _⟩ := stand
    exact ⟨_, .mk kind .nil ends.no_argument ends.no_redirection⟩
  | @target _ name operator us parts kind inside operator_kind =>
    have plain : operator.kind ≠ .comment := by
      intro comment
      rw [comment] at operator_kind
      cases operator_kind
    refine ⟨[.word], Or.inr (openLine_concat (name :: us) rfl plain),
      fun vs stand next ends => ?_⟩
    obtain _ | ⟨⟨target_kind, -⟩, _ | _⟩ := stand
    have last : IsParts next ([operator, _] ++ []) _ :=
      .redirection (.mk operator_kind (.word target_kind)) .nil
    have whole : IsParts next (us ++ [operator, _]) _ := isParts_append inside last
    have command : IsCommand next (name :: (us ++ [operator, _])) _ :=
      .mk kind whole ends.no_argument ends.no_redirection
    exact ⟨_, by simpa using command⟩

/-- Where a token is in front, another one behind does not show. -/
theorem follow_append_of_ne_nil {us : List Token} (some_token : us ≠ []) (vs : List Token)
    (next next' : Token) : follow (us ++ vs) next = follow us next' := by
  cases us with
  | nil => exact absurd rfl some_token
  | cons u us => rfl

theorem Grammar.BrokenPiped.ne_nil {e : Failure} (h : BrokenPiped t ws e) : ws ≠ [] := by
  cases h <;> exact List.cons_ne_nil _ _

theorem completable_piped (h : BrokenPiped t ws (.malformed e)) :
    Completable (fun ts => ∀ next : Token, next.Parts → ∃ c cs, IsPiped next ts (c :: cs)) ws := by
  generalize malformed : Failure.malformed e = f at h
  induction h with
  | @here t bar ws f kind broken =>
    subst malformed
    refine (completable_command broken).wrap [bar] rfl
      (Or.inr (openLine_concat [] kind Kind.noConfusion)) [] fun ts bs whole stand next ends => ?_
    cases stand
    obtain ⟨c, command⟩ := whole next ends
    have piped : IsPiped next (bar :: (ws ++ ts) ++ []) [c] :=
      .cons kind command (.nil ends.no_pipe)
    exact ⟨c, [], by simpa using piped⟩
  | @later t bar us ws c f kind first others ih =>
    refine (ih malformed).wrap (bar :: us) rfl (Or.inl others.ne_nil) []
      fun ts bs whole stand next ends => ?_
    cases stand
    obtain ⟨d, cs, piped⟩ := whole next ends
    rw [← follow_append_of_ne_nil others.ne_nil ts next t] at first
    exact ⟨c, d :: cs, by simpa using IsPiped.cons kind first piped⟩

theorem completable_pipeline (h : BrokenPipeline t ws (.malformed e)) :
    Completable (fun ts => ∀ next : Token, next.Parts → ∃ s, IsPipeline next ts s) ws := by
  cases h with
  | first broken =>
    refine (completable_command broken).mono fun ts whole next ends => ?_
    obtain ⟨c, command⟩ := whole next ends
    exact ⟨_, .command command ends.no_pipe⟩
  | @piped _ us ws c _ first others =>
    refine (completable_piped others).wrap us rfl (Or.inl others.ne_nil) []
      fun ts bs whole stand next ends => ?_
    cases stand
    obtain ⟨d, cs, piped⟩ := whole next ends
    rw [← follow_append_of_ne_nil others.ne_nil ts next t] at first
    exact ⟨_, by simpa using IsPipeline.pipeline first piped⟩

/-- A broken pipeline has more than its first word. -/
theorem ne_nil_of_brokenPipeline {name : Token} {e : Failure}
    (h : BrokenPipeline t (name :: ws) e) : ws ≠ [] := by
  generalize split : name :: ws = us at h
  rintro rfl
  cases h with
  | first broken =>
    cases broken with
    | name => cases split
    | target => simp at split
  | piped first others =>
    cases first with
    | mk => exact others.ne_nil (List.append_eq_nil_iff.1 (List.cons.inj split).2.symm).2

/-- Tokens that are a statement in front of a line feed. -/
def IsReady (S : Phrase Statement) (ts : List Token) : Prop :=
  ∀ next : Token, next.kind = .newline → ∃ s, S next ts s

theorem completable_simple (depth : Nat) (h : BrokenSimple t ws (.malformed e)) :
    Completable (IsReady (Within depth)) ws := by
  have ready {next : Token} {ts : List Token} {s : Statement} (simple : IsSimple next ts s) :
      Within depth next ts s := by
    refine ⟨?_, by rw [nesting_of_isSimple simple]; exact Nat.zero_le depth⟩
    rcases simple with h | ⟨h, other⟩
    · exact .assignment h
    · exact .pipeline h other
  cases h with
  | @assignment _ name equals kind sign =>
    refine ⟨[.word], Or.inr (openLine_concat [name] (kind_of_isWord sign).1 Kind.noConfusion),
      fun vs stand next feed => ?_⟩
    obtain _ | ⟨⟨value_kind, -⟩, _ | _⟩ := stand
    exact ⟨_, ready (Or.inl (.mk kind sign (.word value_kind)))⟩
  | @pipeline _ name us _ kind broken other =>
    obtain ⟨fs, starts, completes⟩ := completable_pipeline broken
    refine ⟨fs, starts, fun vs stand next feed => ?_⟩
    obtain ⟨s, pipeline⟩ := completes vs stand next (.of_kind feed rfl rfl Kind.noConfusion)
    refine ⟨s, ready (Or.inr ⟨pipeline, fun assigns => other ?_⟩)⟩
    obtain ⟨u, us, rfl⟩ := List.exists_cons_of_ne_nil (ne_nil_of_brokenPipeline broken)
    obtain ⟨_, equals, rest, same, -, sign⟩ := assigns
    obtain ⟨-, rfl, -⟩ : name = _ ∧ u = equals ∧ us ++ vs = rest := by simpa using same
    exact ⟨name, u, us ++ [t], rfl, kind, sign⟩

end Simple

/-- A statement is one in front of a line feed, too. -/
def Renews (S : Phrase Statement) : Prop :=
  ∀ feed t us s, feed.kind = .newline → S t us s → ∃ s', S feed us s' ∧ s'.unplaced = s.unplaced

/-- A statement that is broken has some tokens and can be completed. -/
def Completes (S : Phrase Statement) (E : Phrase Failure) : Prop :=
  ∀ t ws e, E t ws (.malformed e) → ws ≠ [] ∧ Completable (IsReady S) ws

/-! ## Headers and blocks -/

/-- A header and the token of kind `k` that ends it. -/
def IsOpening (k : Kind) (ts : List Token) : Prop :=
  ∃ hs opener c es, ts = hs ++ [opener] ∧ IsHeader hs c es ∧ opener.kind = k

/-- A block and the token of kind `k` that closes it. -/
def IsClosed (S : Phrase Statement) (k : Kind) (ts : List Token) : Prop :=
  ∃ us closer ss, ts = us ++ [closer] ∧ IsBlock S closer us ss ∧ closer.kind = k

section Parts

variable {S : Phrase Statement} {E : Phrase Failure} {b : Block} {t : Token} {ws : List Token}
  {e : SyntaxError}

theorem isHeader_word {word : Token} (kind : word.kind = .word) :
    IsHeader [word] (.literal word.text false word.position) [] := by
  have header : IsHeader ([word] ++ []) _ [] := .mk (.word kind) .nil (List.forall_mem_nil _)
  exact header

theorem completable_header {k : Kind} (opener : Filler) (kind : opener.kind = k) {message : String}
    (h : BrokenHeader k message t ws (.malformed e)) : Completable (IsOpening k) ws := by
  subst kind
  cases h with
  | condition =>
    refine ⟨[.word, opener], Or.inr openLine_nil, fun vs stand => ?_⟩
    obtain _ | ⟨⟨word_kind, -⟩, _ | ⟨⟨opener_kind, -⟩, _ | _⟩⟩ := stand
    exact ⟨[_], _, _, _, rfl, isHeader_word word_kind, opener_kind⟩
  | @opener _ u c us seps es first others all =>
    refine ⟨[.newline, opener], Or.inl rfl, fun vs stand => ?_⟩
    obtain _ | ⟨⟨feed_kind, -⟩, _ | ⟨⟨opener_kind, -⟩, _ | _⟩⟩ := stand
    rename_i feed opener
    have all' : ∀ t ∈ seps ++ [feed], t.kind.isHeaderSeparator = true := by
      refine List.forall_mem_append.2 ⟨all, ?_⟩
      simp [feed_kind, Filler.kind, Kind.isHeaderSeparator]
    exact ⟨u :: us ++ (seps ++ [feed]), opener, c, es, by simp, .mk first others all', opener_kind⟩

variable (renews : Renews S)

include renews

/-- A block that something else interrupts may be closed on the next line. -/
theorem completable_interrupted {ss : List Statement} (block : IsBlock S t ws ss)
    (closer : Filler) : Completable (IsClosed S closer.kind) ws := by
  refine ⟨[.newline, closer], Or.inl rfl, fun vs stand => ?_⟩
  obtain _ | ⟨⟨feed_kind, -⟩, _ | ⟨⟨closer_kind, -⟩, _ | _⟩⟩ := stand
  obtain ⟨ss', inside, -⟩ := exists_isBlock (fun h => renews _ _ _ _ feed_kind h) block
  exact ⟨ws ++ [_], _, ss', by simp, isBlock_concat feed_kind inside, closer_kind⟩

theorem completable_body (completes : Completes S E) (closer : Filler)
    (h : BrokenBody S E b t ws (.malformed e)) :
    Completable (IsClosed S closer.kind) ws := by
  cases h with
  | closer block => exact completable_interrupted renews block closer
  | inside broken =>
    obtain ⟨us, vs, items, rfl, rounds, item⟩ := broken
    obtain ⟨ss, block⟩ := isBlock_of_rounds rounds
    cases item with
    | closer =>
      rw [List.append_nil]
      exact completable_interrupted renews block closer
    | unexpected =>
      rw [List.append_nil]
      exact completable_interrupted renews block closer
    | statement _ broken =>
      obtain ⟨some_token, inside⟩ := completes _ _ _ broken
      refine inside.wrap us rfl (Or.inl some_token) [.newline, closer] fun ts bs ready stand => ?_
      obtain _ | ⟨⟨feed_kind, -⟩, _ | ⟨⟨closer_kind, -⟩, _ | _⟩⟩ := stand
      rename_i feed closer
      obtain ⟨s, statement⟩ := ready feed feed_kind
      rw [← follow_append_of_ne_nil some_token ts feed t] at block
      have last : IsBlock S feed (vs ++ ts ++ []) [s] := .statement statement .nil
      rw [List.append_nil] at last
      exact ⟨us ++ (vs ++ ts) ++ [feed], closer, _, by simp,
        isBlock_concat feed_kind (isBlock_append block last), closer_kind⟩

end Parts

/-! ## Compound statements -/

section Compound

variable {S : Phrase Statement} {E : Phrase Failure} {t : Token} {ws : List Token} {e : SyntaxError}
  (renews : Renews S) (completes : Completes S E)

include renews completes

theorem completable_conditional (h : BrokenConditional S E t ws (.malformed e)) :
    Completable (fun ts => ∀ next, ∃ s, IsConditional S next ts s) ws := by
  cases h with
  | @header _ kwIf ws _ if_kind broken =>
    refine (completable_header .kwThen rfl broken).wrap [kwIf] rfl
      (Or.inr (openLine_concat [] if_kind Kind.noConfusion)) [.kwFi]
      fun ts bs ⟨hs, kwThen, c, es, split, header, then_kind⟩ stand next => ?_
    obtain _ | ⟨⟨fi_kind, -⟩, _ | _⟩ := stand
    have whole : IsConditional S next _ _ := .noElse if_kind header then_kind .nil fi_kind
    exact ⟨_, by simpa [split] using whole⟩
  | @thenPart _ kwIf kwThen hs ws c es _ if_kind header then_kind broken =>
    refine (completable_body renews completes .kwFi broken).wrap (kwIf :: hs ++ [kwThen])
      (by simp) (Or.inr (openLine_concat _ then_kind Kind.noConfusion)) []
      fun ts bs ⟨us, kwFi, ss, split, block, fi_kind⟩ stand next => ?_
    cases stand
    have whole : IsConditional S next _ _ := .noElse if_kind header then_kind block fi_kind
    exact ⟨_, by simpa [split] using whole⟩
  | @elsePart _ kwIf kwThen kwElse hs us ws c es ss _ if_kind header then_kind then_body else_kind
      broken =>
    refine (completable_body renews completes .kwFi broken).wrap
      (kwIf :: hs ++ kwThen :: us ++ [kwElse]) (by simp)
      (Or.inr (openLine_concat _ else_kind Kind.noConfusion)) []
      fun ts bs ⟨vs, kwFi, ss', split, block, fi_kind⟩ stand next => ?_
    cases stand
    have whole : IsConditional S next _ _ :=
      .withElse if_kind header then_kind then_body else_kind block fi_kind
    exact ⟨_, by simpa [split] using whole⟩

theorem completable_loop (h : BrokenLoop S E t ws (.malformed e)) :
    Completable (fun ts => ∀ next, ∃ s, IsLoop S next ts s) ws := by
  cases h with
  | @name _ kwFor for_kind =>
    refine ⟨[.word, .inWord, .word, .kwDo, .kwDone],
      Or.inr (openLine_concat [] for_kind Kind.noConfusion), fun vs stand next => ?_⟩
    obtain _ | ⟨⟨name_kind, -⟩, _ | ⟨in_stands, _ | ⟨⟨word_kind, -⟩, _ | ⟨⟨do_kind, -⟩,
      _ | ⟨⟨done_kind, -⟩, _ | _⟩⟩⟩⟩⟩ := stand
    exact ⟨_, .forIn for_kind name_kind in_stands.isWord (isHeader_word word_kind) do_kind .nil
      done_kind⟩
  | @inWord _ kwFor name for_kind name_kind =>
    refine ⟨[.inWord, .word, .kwDo, .kwDone],
      Or.inr (openLine_concat [kwFor] name_kind Kind.noConfusion), fun vs stand next => ?_⟩
    obtain _ | ⟨in_stands, _ | ⟨⟨word_kind, -⟩, _ | ⟨⟨do_kind, -⟩,
      _ | ⟨⟨done_kind, -⟩, _ | _⟩⟩⟩⟩ := stand
    exact ⟨_, .forIn for_kind name_kind in_stands.isWord (isHeader_word word_kind) do_kind .nil
      done_kind⟩
  | @forHeader _ kwFor name kwIn ws _ for_kind name_kind in_word broken =>
    refine (completable_header .kwDo rfl broken).wrap [kwFor, name, kwIn] rfl
      (Or.inr (openLine_concat [kwFor, name] (kind_of_isWord in_word).1 Kind.noConfusion))
      [.kwDone] fun ts bs ⟨hs, kwDo, c, es, split, header, do_kind⟩ stand next => ?_
    obtain _ | ⟨⟨done_kind, -⟩, _ | _⟩ := stand
    have whole : IsLoop S next _ _ :=
      .forIn for_kind name_kind in_word header do_kind .nil done_kind
    exact ⟨_, by simpa [split] using whole⟩
  | @forBody _ kwFor name kwIn kwDo hs ws c es _ for_kind name_kind in_word header do_kind broken =>
    refine (completable_body renews completes .kwDone broken).wrap
      (kwFor :: name :: kwIn :: hs ++ [kwDo]) (by simp)
      (Or.inr (openLine_concat _ do_kind Kind.noConfusion)) []
      fun ts bs ⟨us, kwDone, ss, split, block, done_kind⟩ stand next => ?_
    cases stand
    have whole : IsLoop S next _ _ :=
      .forIn for_kind name_kind in_word header do_kind block done_kind
    exact ⟨_, by simpa [split] using whole⟩
  | @whileHeader _ kwWhile ws _ while_kind broken =>
    refine (completable_header .kwDo rfl broken).wrap [kwWhile] rfl
      (Or.inr (openLine_concat [] while_kind Kind.noConfusion)) [.kwDone]
      fun ts bs ⟨hs, kwDo, c, es, split, header, do_kind⟩ stand next => ?_
    obtain _ | ⟨⟨done_kind, -⟩, _ | _⟩ := stand
    have whole : IsLoop S next _ _ := .whileDo while_kind header do_kind .nil done_kind
    exact ⟨_, by simpa [split] using whole⟩
  | @whileBody _ kwWhile kwDo hs ws c es _ while_kind header do_kind broken =>
    refine (completable_body renews completes .kwDone broken).wrap (kwWhile :: hs ++ [kwDo])
      (by simp) (Or.inr (openLine_concat _ do_kind Kind.noConfusion)) []
      fun ts bs ⟨us, kwDone, ss, split, block, done_kind⟩ stand next => ?_
    cases stand
    have whole : IsLoop S next _ _ := .whileDo while_kind header do_kind block done_kind
    exact ⟨_, by simpa [split] using whole⟩

theorem completable_function (h : BrokenFunction S E t ws (.malformed e)) :
    Completable (fun ts => ∀ next, ∃ s, IsFunction S next ts s) ws := by
  cases h with
  | name function_kind =>
    refine ⟨[.word, .lparen, .rparen, .lbrace, .rbrace],
      Or.inr (openLine_concat [] function_kind Kind.noConfusion), fun vs stand next => ?_⟩
    obtain _ | ⟨⟨name_kind, -⟩, _ | ⟨⟨lparen_kind, -⟩, _ | ⟨⟨rparen_kind, -⟩, _ | ⟨⟨lbrace_kind, -⟩,
      _ | ⟨⟨rbrace_kind, -⟩, _ | _⟩⟩⟩⟩⟩ := stand
    exact ⟨_, .mk function_kind name_kind lparen_kind rparen_kind lbrace_kind .nil rbrace_kind⟩
  | @lparen _ kwFunction _ function_kind name_kind =>
    refine ⟨[.lparen, .rparen, .lbrace, .rbrace],
      Or.inr (openLine_concat [kwFunction] name_kind Kind.noConfusion), fun vs stand next => ?_⟩
    obtain _ | ⟨⟨lparen_kind, -⟩, _ | ⟨⟨rparen_kind, -⟩, _ | ⟨⟨lbrace_kind, -⟩,
      _ | ⟨⟨rbrace_kind, -⟩, _ | _⟩⟩⟩⟩ := stand
    exact ⟨_, .mk function_kind name_kind lparen_kind rparen_kind lbrace_kind .nil rbrace_kind⟩
  | @rparen _ kwFunction name _ function_kind name_kind lparen_kind =>
    refine ⟨[.rparen, .lbrace, .rbrace],
      Or.inr (openLine_concat [kwFunction, name] lparen_kind Kind.noConfusion),
      fun vs stand next => ?_⟩
    obtain _ | ⟨⟨rparen_kind, -⟩, _ | ⟨⟨lbrace_kind, -⟩, _ | ⟨⟨rbrace_kind, -⟩, _ | _⟩⟩⟩ := stand
    exact ⟨_, .mk function_kind name_kind lparen_kind rparen_kind lbrace_kind .nil rbrace_kind⟩
  | @lbrace _ kwFunction name lparen _ function_kind name_kind lparen_kind rparen_kind =>
    refine ⟨[.lbrace, .rbrace],
      Or.inr (openLine_concat [kwFunction, name, lparen] rparen_kind Kind.noConfusion),
      fun vs stand next => ?_⟩
    obtain _ | ⟨⟨lbrace_kind, -⟩, _ | ⟨⟨rbrace_kind, -⟩, _ | _⟩⟩ := stand
    exact ⟨_, .mk function_kind name_kind lparen_kind rparen_kind lbrace_kind .nil rbrace_kind⟩
  | @body _ kwFunction name lparen rparen lbrace ws _ function_kind name_kind lparen_kind
      rparen_kind lbrace_kind broken =>
    refine (completable_body renews completes .rbrace broken).wrap
      ([kwFunction, name, lparen, rparen] ++ [lbrace]) rfl
      (Or.inr (openLine_concat _ lbrace_kind Kind.noConfusion)) []
      fun ts bs ⟨us, rbrace, ss, split, block, rbrace_kind⟩ stand next => ?_
    cases stand
    have whole : IsFunction S next _ _ :=
      .mk function_kind name_kind lparen_kind rparen_kind lbrace_kind block rbrace_kind
    exact ⟨_, by simpa [split] using whole⟩

end Compound

/-! ## Statements -/

/-- **What breaks off can be completed**, to a statement that nests no deeper. -/
theorem completes_broken (depth : Nat) : Completes (Within depth) (Broken depth) := by
  have some_token {t : Token} {ws : List Token} {e : SyntaxError}
      (h : BrokenSimple t ws (.malformed e)) : ws ≠ [] := by
    cases h <;> exact List.cons_ne_nil _ _
  induction depth with
  | zero =>
    rintro t ws e (h | ⟨-, -, same⟩)
    · exact ⟨some_token h, completable_simple 0 h⟩
    · cases same
  | succ depth ih =>
    have renews : Renews (Within depth) := fun feed t us s kind h =>
      exists_within h (.of_kind kind rfl rfl Kind.noConfusion)
    rintro t ws e (h | h | h | h)
    · exact ⟨some_token h, completable_simple (depth + 1) h⟩
    · refine ⟨by cases h <;> exact List.cons_ne_nil _ _,
        (completable_conditional renews ih h).mono fun ts whole next _ => ?_⟩
      obtain ⟨s, conditional⟩ := whole next
      obtain ⟨inside, shallow⟩ := isConditional_within.1 conditional
      exact ⟨s, .conditional inside, shallow⟩
    · refine ⟨by cases h <;> exact List.cons_ne_nil _ _,
        (completable_loop renews ih h).mono fun ts whole next _ => ?_⟩
      obtain ⟨s, loop⟩ := whole next
      obtain ⟨inside, shallow⟩ := isLoop_within.1 loop
      exact ⟨s, .loop inside, shallow⟩
    · refine ⟨by cases h <;> exact List.cons_ne_nil _ _,
        (completable_function renews ih h).mono fun ts whole next _ => ?_⟩
      obtain ⟨s, function⟩ := whole next
      obtain ⟨inside, shallow⟩ := isFunction_within.1 function
      exact ⟨s, .function inside, shallow⟩

end ShellScript
