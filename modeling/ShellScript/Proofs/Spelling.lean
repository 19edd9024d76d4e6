/-
# ShellScript.Proofs.Spelling -- which misspelt reserved words are pointed out

Where a reserved word is missing and a word stands in its place, the parser offers the
reserved word if that word is like it.  It asks for offers for the word alone, in lower case,
and keeps the first three, before it looks for the one that is missing.  So a reserved word at
most two edits away is pointed out unless the word is that reserved word but for capitals, or
three others come first (`Spelling.PointsAt`, `mem_corrections_iff`).

Only a word that is near to several reserved words at once can go wrong that way.  No other one
is less than four edits from `then`, so by the triangle of distances none is nearer than `then`
to a word that is near to `then` (`length_ahead_then_lt`).
-/
import ShellScript.Proofs.FirstError
import ShellScript.Proofs.Parse.Expected
import ShellScript.Proofs.Text.Edit
import ShellScript.Proofs.WellFormed

namespace ShellScript

set_option autoImplicit false

open Text (distance)

namespace Spelling

/-- The reserved words in the order of their table. -/
def reserved : List String := Kind.keywords.map Prod.fst

/-- The reserved words that are offered before `k` for a word in lower case: those that are
nearer, and those that are as near and stand in front of it in the table. -/
def ahead (word k : String) : List String :=
  reserved.filter (fun j => 0 < distance word j ∧ distance word j < distance word k) ++
    (reserved.takeWhile (· ≠ k)).filter (fun j => distance word j = distance word k)

/-- Of a word that is at most two edits from the reserved word `k`, that it makes the parser
point out `k`. -/
def PointsAt (word k : String) : Prop := fold word ≠ k ∧ (ahead (fold word) k).length < 3

/-! ## The offers -/

/-- An entry is among the first `n` if fewer than `n` stand in front of it. -/
theorem mem_take_append_cons_iff {α : Type} {front back : List α} {a : α} (new : a ∉ front)
    (n : Nat) : a ∈ (front ++ a :: back).take n ↔ front.length < n := by
  constructor
  · intro member
    by_contra short
    rw [List.take_append_of_le_length (Nat.le_of_not_lt short)] at member
    exact new (List.mem_of_mem_take member)
  · intro long
    rw [List.take_append, List.mem_append]
    obtain ⟨m, left⟩ := Nat.exists_eq_succ_of_ne_zero (Nat.sub_ne_zero_of_lt long)
    rw [left, List.take_succ_cons]
    exact Or.inr List.mem_cons_self

/-- The table is cut where `k` stands. -/
theorem exists_reserved {k : String} (known : k ∈ reserved) :
    ∃ back, reserved = reserved.takeWhile (· ≠ k) ++ k :: back := by
  obtain ⟨j, back, rest⟩ : ∃ j back, reserved.dropWhile (· ≠ k) = j :: back := by
    refine List.exists_cons_of_ne_nil fun none => ?_
    have := List.dropWhile_eq_nil_iff.1 none k known
    simp at this
  have is_k : j = k := by
    have := List.head?_dropWhile_not (fun i => decide (i ≠ k)) reserved
    rw [rest] at this
    simpa using this
  refine ⟨back, ?_⟩
  rw [← is_k, ← rest, is_k, List.takeWhile_append_dropWhile]

/-- The reserved words as far away as `k`, cut where `k` stands. -/
theorem exists_atDistance (word : String) {k : String} (known : k ∈ reserved) :
    ∃ back, atDistance word (distance word k) =
      (reserved.takeWhile (· ≠ k)).filter (fun j => distance word j = distance word k) ++
        k :: back := by
  obtain ⟨back, split⟩ := exists_reserved known
  refine ⟨back.filter fun j => distance word j = distance word k, ?_⟩
  show reserved.filter (fun j => distance word j = distance word k) = _
  conv_lhs => rw [split]
  rw [List.filter_append, List.filter_cons_of_pos (by simp)]

/-- A reserved word is offered if it is one or two edits away and fewer than three come
before it. -/
theorem mem_corrections_iff (word : String) {k : String} (known : k ∈ reserved) :
    k ∈ corrections word ↔ 0 < distance (fold word) k ∧ distance (fold word) k ≤ 2 ∧
      (ahead (fold word) k).length < 3 := by
  obtain ⟨back, here⟩ := exists_atDistance (fold word) known
  have not_tied : k ∉ (reserved.takeWhile (· ≠ k)).filter
      (fun j => distance (fold word) j = distance (fold word) k) := fun member => by
    simpa using List.mem_takeWhile_imp (List.mem_of_mem_filter member)
  have elsewhere {n : Nat} (other : distance (fold word) k ≠ n) : k ∉ atDistance (fold word) n :=
    fun member => other (by simpa using (List.mem_filter.1 member).2)
  unfold corrections
  by_cases one : distance (fold word) k = 1
  · have nearer : reserved.filter (fun j => 0 < distance (fold word) j ∧
        distance (fold word) j < distance (fold word) k) = [] := by
      refine List.filter_eq_nil_iff.2 fun j _ => ?_
      simp only [decide_eq_true_eq]
      omega
    rw [one] at here
    rw [here, List.append_assoc, List.cons_append, ← one, mem_take_append_cons_iff not_tied, ahead,
      nearer, List.nil_append]
    omega
  by_cases two : distance (fold word) k = 2
  · have nearer : reserved.filter (fun j => 0 < distance (fold word) j ∧
        distance (fold word) j < distance (fold word) k) = atDistance (fold word) 1 := by
      refine List.filter_congr fun j _ => ?_
      rw [decide_eq_decide]
      omega
    have new : k ∉ atDistance (fold word) 1 ++ (reserved.takeWhile (· ≠ k)).filter
        (fun j => distance (fold word) j = distance (fold word) k) := by
      rw [List.mem_append, not_or]
      exact ⟨elsewhere one, not_tied⟩
    rw [two] at here
    rw [here, ← two, ← List.append_assoc, mem_take_append_cons_iff new, ahead, nearer]
    omega
  · have absent : k ∉ atDistance (fold word) 1 ++ atDistance (fold word) 2 := by
      rw [List.mem_append, not_or]
      exact ⟨elsewhere one, elsewhere two⟩
    refine iff_of_false (fun member => absent (List.mem_of_mem_take member)) ?_
    omega

/-- No reserved word but `then` itself is nearer to a word at most two edits from `then`. -/
theorem length_ahead_then_lt {word : String} (near : distance word "then" ≤ 2) :
    (ahead word "then").length < 3 := by
  have apart : ∀ j ∈ reserved, j ≠ "then" → 4 ≤ distance j "then" := by decide
  have nearer : reserved.filter (fun j => 0 < distance word j ∧
      distance word j < distance word "then") = [] := by
    refine List.filter_eq_nil_iff.2 fun j known => ?_
    simp only [decide_eq_true_eq]
    rintro ⟨-, closer⟩
    have far := apart j known fun same => by simp [same] at closer
    have through := Text.distance_triangle j word "then"
    rw [Text.distance_comm j word] at through
    omega
  have front : (reserved.takeWhile (· ≠ "then")).length = 1 := by decide
  have tied := List.length_filter_le (fun j => decide (distance word j = distance word "then"))
    (reserved.takeWhile (· ≠ "then"))
  rw [ahead, nearer, List.nil_append]
  omega

/-! ## Lower case -/

/-- The lower case of a character, where it is one character. -/
def lower (c : Char) : Char := if c = '\u212A' then 'k' else c.toLower

theorem toList_fold {word : String} (plain : '\u0130' ∉ word.toList) :
    (fold word).toList = word.toList.map lower := by
  rw [fold, String.toList_ofList, List.map_eq_flatMap]
  refine List.flatMap_congr fun c member => ?_
  have other : c ≠ '\u0130' := fun same => plain (same ▸ member)
  unfold lowerCase lower
  rw [if_neg other]
  split <;> rfl

/-- In lower case, a word of a script is not further from a reserved word. -/
theorem distance_fold_le {word k : String} (isWord : IsWordText word) (known : k ∈ reserved)
    (near : distance word k ≤ 2) : distance (fold word) k ≤ 2 := by
  by_cases plain : '\u0130' ∈ word.toList
  · -- the one character that has two in lower case stands alone
    have alone : word = "\u0130" := by
      rw [← String.toList_inj]
      rcases isWord with ⟨-, inside, -⟩ | ⟨c, single, -⟩
      · exact absurd (inside _ plain) (by decide)
      · rw [single] at plain
        obtain rfl := List.mem_singleton.1 plain
        exact single
    have each : ∀ j ∈ reserved, distance "\u0130" j ≤ 2 → distance (fold "\u0130") j ≤ 2 := by
      decide
    rw [alone] at near ⊢
    exact each k known near
  · have same : ∀ j ∈ reserved, j.toList.map lower = j.toList := by decide
    refine Nat.le_trans (Text.Edits.distance_le ?_) near
    rw [toList_fold plain, ← same k known]
    exact (Text.edits_distance word k).lift (Text.Edit.map lower)

end Spelling

open Spelling

/-! ## What is suggested -/

/-- Different reserved words are pointed out differently. -/
theorem hint_injective {j k : String}
    (same : s!"Did you mean '{j}'?" = s!"Did you mean '{k}'?") : j = k := by
  have lists := congrArg String.toList same
  exact String.toList_inj.1 (by simpa [toString] using lists)

/-- What is pointed out is what is offered. -/
theorem mem_suggest_iff {t : Token} {k : String} {K : Kind} (word : t.kind = .word)
    (known : (k, K) ∈ Kind.keywords) :
    s!"Did you mean '{k}'?" ∈ K.suggest (some t) ↔ k ∈ corrections t.text := by
  have no_hint : ∀ p ∈ Kind.keywords, s!"Did you mean '{p.1}'?" ∉ p.2.hints := by decide
  have kind_of : ∀ p ∈ Kind.keywords, Kind.keywords.lookup p.1 = some p.2 := by decide
  have suggested : K.suggest (some t) =
      (K.meant t.text).map (fun j => s!"Did you mean '{j}'?") ++ K.hints := if_pos word
  have meant : k ∈ K.meant t.text ↔ k ∈ corrections t.text := by
    rw [Kind.meant, List.mem_filter, decide_eq_true_iff]
    exact and_iff_left (kind_of (k, K) known)
  rw [suggested, List.mem_append, or_iff_left (no_hint (k, K) known), List.mem_map, ← meant]
  constructor
  · rintro ⟨j, offered, same⟩
    rw [← hint_injective same]
    exact offered
  · intro offered
    exact ⟨k, offered, rfl⟩

/-- Which suggestions a word of a script makes for a reserved word that it is like. -/
theorem mem_suggest_iff_pointsAt {source : String} {strict : Bool} {ts : List Token}
    (lexed : tokenize source strict = .ok ts) {t : Token} (member : t ∈ ts) (word : t.kind = .word)
    {k : String} {K : Kind} (known : (k, K) ∈ Kind.keywords) (near : distance t.text k ≤ 2) :
    s!"Did you mean '{k}'?" ∈ K.suggest (some t) ↔ PointsAt t.text k := by
  obtain ⟨closed, rfl⟩ := Parser.closed_of_tokenize lexed
  rw [Lexing.ofScript, Lexing.run_eq_lenient_of_success strict _ _ closed] at member
  have isWord := (Lexing.written_of_mem _ _ member).word word
  have isReserved : k ∈ reserved := List.mem_map_of_mem known
  have differs : 0 < distance (fold t.text) k ↔ fold t.text ≠ k := by
    rw [Nat.pos_iff_ne_zero, ne_eq, Text.distance_eq_zero_iff]
  rw [mem_suggest_iff word known, mem_corrections_iff _ isReserved, differs, PointsAt]
  simp only [distance_fold_le isWord isReserved near, true_and]

/-- A refusal for a missing `then` or `do` suggests what its kind suggests. -/
theorem suggestions_of_refused {source : String} {strict : Bool} {r : ParseReport}
    (refused : parse source strict = .error r) {t : Token} (found : r.token = some t) {k : String}
    {K : Kind} (opener : (k, K) ∈ [("then", Kind.kwThen), ("do", .kwDo)])
    (message : r.diagnostic.message = s!"Expected '{k}'") :
    ∃ ts, tokenize source strict = .ok ts ∧ t ∈ ts ∧
      r.diagnostic.suggestions = some (K.suggest (some t)) := by
  have known : ∀ p ∈ [("then", Kind.kwThen), ("do", .kwDo)],
      (p.2, s!"Expected '{p.1}'") ∈ Grammar.expectations := by decide
  cases closed : (Lexing.ofScript source strict).failure with
  | some d =>
    rw [parse, Parser.parse_of_open closed] at refused
    obtain rfl := Except.error.inj refused
    cases found
  | none =>
    have complete : Complete (Parser.loaded source strict).tokens := Parser.complete_loaded closed
    cases failure : (Body.read (Parser.loaded source strict).tokens).failure with
    | none =>
      obtain ⟨p, result⟩ := Parser.exists_program closed failure
      rw [parse, result] at refused
      cases refused
    | some e =>
      obtain ⟨front, ws, u, others, b, split, -, broken, -⟩ := Body.exists_broken complete failure
      obtain ⟨vs, v, behind, tokens, refuses, error⟩ := Parser.parse_of_refused closed failure
      rw [parse, error] at refused
      obtain rfl := Except.error.inj refused
      cases refuses with
      | tooDeep => cases found
      | @malformed e =>
        obtain rfl : e.found = t := Option.some.inj found
        have missing := Grammar.missing_of_message (Grammar.worded_of_broken broken)
          (known _ opener) message
        refine ⟨(Lexing.ofScript source strict).tokens, ?_, by simp [tokens], ?_⟩
        · rw [tokenize, Lexing.result, closed]
          rfl
        · show e.suggestions = _
          rw [missing]
          rfl

/-- **Which misspelt reserved words are pointed out.**  A word of a script is at most two edits
from a reserved word.  Where that reserved word is missing, it is pointed out exactly if the
word differs from it in more than capitals and fewer than three reserved words come before it.
A refusal for a missing `then` or `do` at a word has these suggestions; and three reserved words
never come before `then`. -/
theorem misspelling_pointed_out_iff (source : String) (strict : Bool) :
    (∀ ts, tokenize source strict = .ok ts → ∀ t ∈ ts, t.kind = .word →
      ∀ k K, (k, K) ∈ Kind.keywords → distance t.text k ≤ 2 →
        (s!"Did you mean '{k}'?" ∈ K.suggest (some t) ↔ PointsAt t.text k)) ∧
      (∀ r t, parse source strict = .error r → r.token = some t → t.kind = .word →
        ∀ k K, (k, K) ∈ [("then", Kind.kwThen), ("do", .kwDo)] →
          r.diagnostic.message = s!"Expected '{k}'" → distance t.text k ≤ 2 →
            ∃ offers, r.diagnostic.suggestions = some offers ∧
              (s!"Did you mean '{k}'?" ∈ offers ↔ PointsAt t.text k)) ∧
      ∀ word, distance word "then" ≤ 2 → (ahead word "then").length < 3 := by
  refine ⟨fun ts lexed t member word k K known near =>
    mem_suggest_iff_pointsAt lexed member word known near, ?_, fun _ => length_ahead_then_lt⟩
  intro r t refused found word k K opener message near
  have isKeyword : ∀ p ∈ [("then", Kind.kwThen), ("do", .kwDo)], p ∈ Kind.keywords := by decide
  obtain ⟨ts, lexed, member, suggestions⟩ := suggestions_of_refused refused found opener message
  exact ⟨_, suggestions, mem_suggest_iff_pointsAt lexed member word (isKeyword _ opener) near⟩

/-- `thne` for `then`. -/
theorem misspelling_pointed_out_thne : ∃ ts t r offers,
    tokenize "if x\nthne" false = .ok ts ∧ t ∈ ts ∧ t.text = "thne" ∧
      "Did you mean 'then'?" ∈ Kind.kwThen.suggest (some t) ∧
      parse "if x\nthne" false = .error r ∧ r.token.map Token.text = some "thne" ∧
      r.diagnostic.message = "Expected 'then'" ∧ r.diagnostic.suggestions = some offers ∧
      "Did you mean 'then'?" ∈ offers ∧ (ahead "thne" "then").length < 3 := by
  have wording : ∀ k ∈ ["then"], s!"Did you mean '{k}'?" = "Did you mean 'then'?" ∧
      "Expected 'then'" = s!"Expected '{k}'" := by decide
  obtain ⟨hint, expected⟩ := wording _ List.mem_cons_self
  have near : distance "thne" "then" ≤ 2 := by decide
  have points : PointsAt "thne" "then" := by
    unfold PointsAt
    decide
  generalize script : "if x\nthne" = source
  have lexed : ∃ t ∈ (Lexing.ofScript source false).tokens, t.kind = .word ∧ t.text = "thne" := by
    subst script
    decide +kernel
  have fails : ((parse source false).casesOn (fun r =>
      decide (r.diagnostic.message = "Expected 'then'" ∧
        r.token.map (fun t => (t.kind, t.text)) = some (.word, "thne")))
      fun _ => false) = true := by
    subst script
    decide +kernel
  obtain ⟨t, member, word, text⟩ := lexed
  cases refused : parse source false with
  | ok p => simp [refused] at fails
  | error r =>
    simp only [refused, decide_eq_true_eq] at fails
    obtain ⟨message, token⟩ := fails
    obtain ⟨u, found, pair⟩ := Option.map_eq_some_iff.1 token
    obtain ⟨word', text'⟩ := Prod.mk.inj pair
    obtain ⟨suggested, offered, no_more⟩ := misspelling_pointed_out_iff source false
    obtain ⟨offers, suggestions, pointed⟩ := offered r u refused found word' "then" .kwThen
      List.mem_cons_self (message.trans expected) (text' ▸ near)
    have here := suggested _ (Lexing.tokenize_eq source) t member word "then" .kwThen (by decide)
      (text ▸ near)
    rw [hint, text'] at pointed
    rw [hint, text] at here
    exact ⟨_, t, r, offers, Lexing.tokenize_eq source, member, text, here.2 points, rfl,
      found ▸ congrArg some text', message, suggestions, pointed.2 points, no_more "thne" near⟩

/-- `od` for `do`: as near to `if`, `fi` and `for`, which stand in front of `do` in the table. -/
theorem misspelling_passed_over : ∃ r t offers, parse "while x\nod" false = .error r ∧
    r.token = some t ∧ t.kind = .word ∧ distance t.text "do" ≤ 2 ∧
      r.diagnostic.message = "Expected 'do'" ∧ r.diagnostic.suggestions = some offers ∧
      "Did you mean 'do'?" ∉ offers := by
  generalize script : "while x\nod" = source
  have fails : ((parse source false).casesOn (fun r =>
      decide (r.diagnostic.message = "Expected 'do'" ∧
        r.token.map (fun t => (t.kind, t.text)) = some (.word, "od") ∧
        r.diagnostic.suggestions = some ["Add 'do' after the loop header"]))
      fun _ => false) = true := by
    subst script
    decide +kernel
  cases refused : parse source false with
  | ok p => simp [refused] at fails
  | error r =>
    simp only [refused, decide_eq_true_eq] at fails
    obtain ⟨message, token, suggestions⟩ := fails
    obtain ⟨t, found, pair⟩ := Option.map_eq_some_iff.1 token
    obtain ⟨word, text⟩ := Prod.mk.inj pair
    have near : distance t.text "do" ≤ 2 := by
      rw [text]
      decide
    exact ⟨r, t, _, rfl, found, word, near, message, suggestions, by decide⟩

end ShellScript
