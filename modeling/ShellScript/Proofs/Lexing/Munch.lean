/-
# ShellScript.Proofs.Lexing.Munch -- every token is as long as it can be

What a token is and where it ends, said by offsets into the script and without the
lexer: the character at the first offset tells the class, and the token goes on up to
the first offset at which something stops that class (`IsFirst`), or to the end of the
script.  In a quoted string only a mark that no backslash protects stops it
(`protects`).

`Token.Munched` lists the classes.  A lexeme read behind any text is such a token
(`munched_token`), so every token of a script is (`tokenize_maximal_munch`).
-/
import ShellScript.Proofs.Lexing.Lossless

namespace ShellScript

set_option autoImplicit false

namespace Lexing

/-! ## Offsets -/

/-- `j` is the least offset from `i` on at which `stop` holds, or `n` if there is none
below `n`. -/
structure IsFirst (stop : Nat → Prop) (i n j : Nat) : Prop where
  le : i ≤ j
  le_end : j ≤ n
  before : ∀ k, i ≤ k → k < j → ¬ stop k
  at_stop : j < n → stop j

section IsFirst

variable {stop : Nat → Prop} {i n j : Nat}

theorem IsFirst.here (bound : i ≤ n) (found : i < n → stop i) : IsFirst stop i n i where
  le := Nat.le_refl i
  le_end := bound
  before k low high := by omega
  at_stop := found

theorem IsFirst.later (other : ¬ stop i) (first : IsFirst stop (i + 1) n j) :
    IsFirst stop i n j where
  le := Nat.le_of_succ_le first.le
  le_end := first.le_end
  before k low high := by
    by_cases same : k = i
    · rw [same]
      exact other
    · exact first.before k (by omega) high
  at_stop := first.at_stop

end IsFirst

/-- The character of `whole` at offset `n` belongs to a class. -/
def CharAt (cls : Char → Bool) (whole : List Char) (n : Nat) : Prop :=
  ∃ c, whole[n]? = some c ∧ cls c = true

/-- In a quoted string opened at offset `i`, whether the character at an offset protects
the next one: it is a backslash that is not itself protected. -/
def protects (whole : List Char) (i : Nat) : Nat → Bool
  | 0 => false
  | n + 1 => decide (i < n + 1) && decide (whole[n + 1]? = some '\\') && !protects whole i n

/-- What a quoted string opened at offset `i` says from offset `m` up to offset `n`:
every character but those that protect another. -/
def spoken (whole : List Char) (i m n : Nat) : List Char :=
  (List.range' m (n - m)).filterMap fun k => if protects whole i k then none else whole[k]?

end Lexing

namespace Token

open Lexing

/-- A delimiter is closed by the character at offset `n`, or is left open up to there,
which is the end of `whole`, and the token is reported under `code`. -/
def ClosesAt (t : Token) (whole : List Char) (warnings : List Diagnostic) (code : String)
    (n j : Nat) : Prop :=
  (n < whole.length ∧ j = n + 1) ∨
    (n = whole.length ∧ j = n ∧ ∃ d ∈ warnings, d.code = some code ∧ d.position = t.position)

/-- The token of `whole` from offset `i` up to offset `j` is what the character at `i`
demands, and no longer token of its class starts there. -/
structure Munched (t : Token) (whole : List Char) (warnings : List Diagnostic) (i j : Nat) :
    Prop where
  lexeme_eq : t.lexeme.toList = whole.extract i j
  comment : whole[i]? = some '#' →
    t.kind = .comment ∧ IsFirst (fun n => whole[n]? = some '\n') i whole.length j ∧
      t.text.toList = whole.extract (i + 1) j
  newline : whole[i]? = some '\n' → t.kind = .newline ∧ j = i + 1
  pair : ∀ c d k, whole[i]? = some c → whole[i + 1]? = some d →
    Kind.doubleOperators.lookup (c, d) = some k → t.kind = k ∧ j = i + 2
  single : ∀ c k, whole[i]? = some c → Kind.operators.lookup c = some k →
    (∀ d, whole[i + 1]? = some d → Kind.doubleOperators.lookup (c, d) = none) →
    t.kind = k ∧ j = i + 1
  braced : whole[i]? = some '$' → whole[i + 1]? = some '\x7b' →
    t.kind = .reference ∧ ∃ n, IsFirst (fun n => whole[n]? = some '\x7d') (i + 2) whole.length n ∧
      t.text.toList = whole.extract (i + 2) n ∧ t.ClosesAt whole warnings "L003" n j
  bare : whole[i]? = some '$' → whole[i + 1]? ≠ some '\x7b' →
    t.kind = .reference ∧
      IsFirst (fun n => ¬ CharAt Charset.isWord whole n) (i + 1) whole.length j ∧
      t.text.toList = whole.extract (i + 1) j
  word : CharAt Charset.isWord whole i →
    IsFirst (fun n => ¬ CharAt Charset.isWord whole n) i whole.length j ∧
      t.kind = (Kind.keywords.lookup t.lexeme).getD .word ∧ t.text = t.lexeme
  quoted : ∀ mark, whole[i]? = some mark → Charset.isQuote mark = true →
    t.kind = .quotedString ∧
      ∃ n, IsFirst (fun n => whole[n]? = some mark ∧ protects whole i (n - 1) = false) (i + 1)
          whole.length n ∧
        t.text.toList = spoken whole i (i + 1) n ∧ t.ClosesAt whole warnings "L002" n j
  loose : ∀ c, whole[i]? = some c → Charset.Loose c →
    t.kind = .word ∧ j = i + 1 ∧ t.text = t.lexeme

end Token

namespace Lexing

/-! ## Runs of characters -/

section Places

variable {whole before : List Char} {stop : Nat → Prop}

theorem getElem?_place {cs : List Char} (split : whole = before ++ cs) (n : Nat) :
    whole[before.length + n]? = cs[n]? := by
  rw [split, List.getElem?_append_right (Nat.le_add_right _ _), Nat.add_sub_cancel_left]

theorem extract_place {cs ds : List Char} (split : whole = before ++ (cs ++ ds)) :
    whole.extract before.length (before.length + cs.length) = cs := by
  rw [split, List.extract_eq_take_drop, List.drop_left, Nat.add_sub_cancel_left, List.take_left]

/-- The first offset behind a run of characters of one class. -/
theorem isFirst_takeWhile {p : Char → Bool} {cs : List Char} (split : whole = before ++ cs)
    (agrees : ∀ n c, whole[n]? = some c → (stop n ↔ p c = false)) :
    IsFirst stop before.length whole.length (before.length + (cs.takeWhile p).length) := by
  induction cs generalizing before with
  | nil =>
    rw [List.append_nil] at split
    subst split
    exact .here (Nat.le_refl _) fun below => absurd below (Nat.lt_irrefl _)
  | cons c cs ih =>
    have bound : before.length ≤ whole.length := by simp [split]
    have here : stop before.length ↔ p c = false := by
      apply agrees
      simpa using getElem?_place split 0
    by_cases inside : p c = true
    · have others := ih (show whole = (before ++ [c]) ++ cs by simp [split])
      have length : before.length + (c :: cs.takeWhile p).length =
          (before ++ [c]).length + (cs.takeWhile p).length := by
        simp only [List.length_cons, List.length_append, List.length_nil]
        omega
      rw [List.takeWhile_cons_of_pos inside, length]
      refine .later ?_ (by simpa using others)
      simp [here, inside]
    · rw [List.takeWhile_cons_of_neg inside]
      exact .here bound fun _ => here.2 (by simpa using inside)

/-! ## Quoted strings -/

theorem spoken_nil (i m : Nat) : spoken whole i m m = [] := by
  simp [spoken]

theorem spoken_cons {i m n : Nat} (below : m < n) :
    spoken whole i m n =
      (if protects whole i m then none else whole[m]?).toList ++ spoken whole i (m + 1) n := by
  have length : n - m = (n - (m + 1)) + 1 := by omega
  rw [spoken, length, List.range'_succ, List.filterMap_cons, spoken]
  cases (if protects whole i m then none else whole[m]? : Option Char) <;> rfl

/-- Behind a character that does not protect it, a character protects the next if it is
a backslash. -/
theorem protects_eq {i m : Nat} {c : Char} (opened : i < m) (found : whole[m]? = some c)
    (plain : protects whole i (m - 1) = false) : protects whole i m = decide (c = '\\') := by
  cases m with
  | zero => omega
  | succ m =>
    rw [Nat.add_sub_cancel] at plain
    simp [protects, opened, found, plain]

theorem protects_succ {i m : Nat} (protected_next : protects whole i m = true) :
    protects whole i (m + 1) = false := by
  simp [protects, protected_next]

/-- The stopping offset of the inside of a quoted string opened at offset `i`, where
`before` is read already and does not end in a character that protects the next. -/
theorem isFirst_inside {mark : Char} (other : mark ≠ '\\') {i : Nat} {cs : List Char}
    (split : whole = before ++ cs) (opened : i < before.length)
    (plain : protects whole i (before.length - 1) = false) :
    ∃ n, IsFirst (fun n => whole[n]? = some mark ∧ protects whole i (n - 1) = false)
        before.length whole.length n ∧
      (Lexeme.inside mark cs).text = spoken whole i before.length n ∧
      before.length + (Lexeme.inside mark cs).raw.length =
        (if (Lexeme.inside mark cs).closed then n + 1 else n) ∧
      ((Lexeme.inside mark cs).closed = true ↔ n < whole.length) := by
  fun_induction Lexeme.inside mark cs generalizing before with
  | case1 =>
    have length : whole.length = before.length := by simp [split]
    refine ⟨before.length, .here (by omega) (by omega), (spoken_nil i _).symm, rfl, ?_⟩
    simp [length]
  | case2 =>
    have first : whole[before.length]? = some '\\' := getElem?_place split 0
    have here := protects_eq opened first plain
    have length : whole.length = before.length + 1 := by simp [split]
    refine ⟨before.length + 1, .later ?_ (.here (by omega) (by omega)), ?_, rfl, ?_⟩
    · simp [first, other.symm]
    · rw [spoken_cons (Nat.lt_succ_self _), here, spoken_nil]
      rfl
    · simp [length]
  | case3 c cs ih =>
    have first : whole[before.length]? = some '\\' := getElem?_place split 0
    have second : whole[before.length + 1]? = some c := getElem?_place split 1
    have here : protects whole i before.length = true := protects_eq opened first plain
    have next := protects_succ here
    have moved : (before ++ ['\\', c]).length = before.length + 2 := by simp
    obtain ⟨n, stops, text, ends, closed⟩ :=
      ih (show whole = (before ++ ['\\', c]) ++ cs by simp [split])
        (by omega) (by rw [moved]; exact next)
    rw [moved] at stops text ends
    have low := stops.le
    refine ⟨n, .later ?_ (.later ?_ stops), ?_, ?_, closed⟩
    · simp [first, other.symm]
    · simp [here]
    · rw [spoken_cons (by omega), spoken_cons (by omega), here, next, second, ← text]
      rfl
    · refine Eq.trans ?_ ends
      simp only [Lexeme.Inside.prepend, List.length_append, List.length_cons, List.length_nil]
      omega
  | case4 cs =>
    have first : whole[before.length]? = some mark := getElem?_place split 0
    have length : whole.length = before.length + (cs.length + 1) := by simp [split]
    refine ⟨before.length, .here (by omega) fun _ => ⟨first, plain⟩, (spoken_nil i _).symm, rfl, ?_⟩
    simp [length]
  | case5 c cs lone escape differs ih =>
    have backslash : c ≠ '\\' := by
      rintro rfl
      cases cs with
      | nil => exact lone rfl rfl
      | cons d ds => exact escape d ds rfl rfl
    have first : whole[before.length]? = some c := getElem?_place split 0
    have here : protects whole i before.length = false := by
      rw [protects_eq opened first plain]
      simpa using backslash
    have moved : (before ++ [c]).length = before.length + 1 := by simp
    obtain ⟨n, stops, text, ends, closed⟩ := ih (show whole = (before ++ [c]) ++ cs by simp [split])
      (by omega) (by rw [moved]; exact here)
    rw [moved] at stops text ends
    have low := stops.le
    refine ⟨n, .later ?_ stops, ?_, ?_, closed⟩
    · simp [first, differs]
    · rw [spoken_cons (by omega), here, first, ← text]
      rfl
    · refine Eq.trans ?_ ends
      simp only [Lexeme.Inside.prepend, List.length_append, List.length_cons, List.length_nil]
      omega

end Places

/-! ## The classes of lexemes -/

/-- Where a delimiter of a lexeme that ends at offset `j` of a text of `size` characters is
closed, or that it is left open. -/
def Delimited (x : Lexeme) (delimiter : Unclosed) (size n j : Nat) : Prop :=
  (x.unclosed = none ∧ n < size ∧ j = n + 1) ∨ (x.unclosed = some delimiter ∧ n = size ∧ j = n)

section Classes

variable {whole passed rest : List Char} {c : Char} (split : whole = passed ++ c :: rest)

include split

/-- A run of characters behind the first ones of a lexeme. -/
theorem run_behind (opener : List Char) {cs : List Char} {stop : Nat → Prop} {p : Char → Bool}
    (behind : c :: rest = opener ++ cs)
    (agrees : ∀ n c, whole[n]? = some c → (stop n ↔ p c = false)) :
    IsFirst stop (passed.length + opener.length) whole.length
        (passed.length + (opener ++ cs.takeWhile p).length) ∧
      cs.takeWhile p = whole.extract (passed.length + opener.length)
        (passed.length + (opener ++ cs.takeWhile p).length) := by
  have split' : whole = (passed ++ opener) ++ cs := by rw [split, behind, List.append_assoc]
  have first := isFirst_takeWhile split' agrees
  have text : whole = (passed ++ opener) ++ (cs.takeWhile p ++ cs.dropWhile p) := by
    rw [split', List.takeWhile_append_dropWhile]
  have extract := extract_place text
  have moved : (passed ++ opener).length = passed.length + opener.length := List.length_append
  have ends : (passed ++ opener).length + (cs.takeWhile p).length =
      passed.length + (opener ++ cs.takeWhile p).length := by
    simp only [List.length_append]
    omega
  rw [ends, moved] at first extract
  exact ⟨first, extract.symm⟩

theorem munched_comment (hash : c = '#') :
    (Lexeme.read c rest).kind = .comment ∧
      IsFirst (fun n => whole[n]? = some '\n') passed.length whole.length
        (passed.length + (Lexeme.read c rest).raw.length) ∧
      (Lexeme.read c rest).text =
        whole.extract (passed.length + 1) (passed.length + (Lexeme.read c rest).raw.length) := by
  subst hash
  have agrees : ∀ (n : Nat) c, whole[n]? = some c →
      (whole[n]? = some '\n' ↔ (c != '\n') = false) := by
    intro n c found
    simp [found]
  obtain ⟨first, text⟩ := run_behind split ['#'] rfl agrees
  have start : whole[passed.length]? = some '#' := getElem?_place split 0
  exact ⟨rfl, .later (by simp [start]) first, text⟩

theorem munched_pair {d : Char} {double : Kind} (second : whole[passed.length + 1]? = some d)
    (found : Kind.doubleOperators.lookup (c, d) = some double) :
    (Lexeme.read c rest).kind = double ∧ (Lexeme.read c rest).raw.length = 2 := by
  have table : ∀ entry ∈ Kind.doubleOperators, entry.1.1 ≠ '#' ∧ entry.1.1 ≠ '\n' ∧
      (Kind.operators.lookup entry.1.1).isSome = true := by decide
  obtain ⟨hash, feed, listed⟩ := table _ (mem_of_lookup found)
  obtain ⟨single, listed⟩ := Option.isSome_iff_exists.1 listed
  rw [getElem?_place split 1] at second
  cases rest with
  | nil => simp at second
  | cons e es =>
    obtain rfl : e = d := by simpa using second
    simp only [Lexeme.read, if_neg hash, if_neg feed, listed, Lexeme.operator, found]
    exact ⟨rfl, rfl⟩

theorem munched_single {single : Kind} (listed : Kind.operators.lookup c = some single)
    (alone : ∀ d, whole[passed.length + 1]? = some d → Kind.doubleOperators.lookup (c, d) = none) :
    (Lexeme.read c rest).kind = single ∧ (Lexeme.read c rest).raw.length = 1 := by
  have table : ∀ entry ∈ Kind.operators, entry.1 ≠ '#' ∧ entry.1 ≠ '\n' := by decide
  obtain ⟨hash, feed⟩ := table _ (mem_of_lookup listed)
  rw [getElem?_place split 1] at alone
  simp only [Lexeme.read, if_neg hash, if_neg feed, listed]
  cases rest with
  | nil => exact ⟨rfl, rfl⟩
  | cons e es =>
    simp only [Lexeme.operator, alone e rfl]
    exact ⟨rfl, rfl⟩

theorem munched_braced (dollar : c = '$') (second : whole[passed.length + 1]? = some '\x7b') :
    (Lexeme.read c rest).kind = .reference ∧
      ∃ n, IsFirst (fun n => whole[n]? = some '\x7d') (passed.length + 2) whole.length n ∧
        (Lexeme.read c rest).text = whole.extract (passed.length + 2) n ∧
        Delimited (Lexeme.read c rest) .reference whole.length n
          (passed.length + (Lexeme.read c rest).raw.length) := by
  subst dollar
  rw [getElem?_place split 1] at second
  cases rest with
  | nil => simp at second
  | cons e cs =>
    obtain rfl : e = '\x7b' := by simpa using second
    have agrees : ∀ (n : Nat) c, whole[n]? = some c →
        (whole[n]? = some '\x7d' ↔ (c != '\x7d') = false) := by
      intro n c found
      simp [found]
    obtain ⟨first, text⟩ := run_behind split ['$', '\x7b'] rfl agrees
    have eq : Lexeme.read '$' ('\x7b' :: cs) = Lexeme.bracedReference cs := rfl
    have tail := List.takeWhile_append_dropWhile (p := (· != '\x7d')) (l := cs)
    refine ⟨Lexeme.kind_reference ('\x7b' :: cs), _, first, ?_⟩
    rw [eq]
    cases left : cs.dropWhile (· != '\x7d') with
    | nil =>
      rw [left, List.append_nil] at tail
      simp only [Lexeme.bracedReference, left]
      refine ⟨text, Or.inr ⟨rfl, ?_, rfl⟩⟩
      simp [split, tail]
    | cons close others =>
      have length := congrArg List.length tail
      simp only [Lexeme.bracedReference, left]
      refine ⟨text, Or.inl ⟨rfl, ?_, ?_⟩⟩
      · simp only [split, left, List.length_append, List.length_cons, List.length_nil] at length ⊢
        omega
      · simp only [List.length_append, List.length_cons, List.length_nil]
        omega

theorem munched_bare (dollar : c = '$') (second : whole[passed.length + 1]? ≠ some '\x7b') :
    (Lexeme.read c rest).kind = .reference ∧
      IsFirst (fun n => ¬ CharAt Charset.isWord whole n) (passed.length + 1) whole.length
        (passed.length + (Lexeme.read c rest).raw.length) ∧
      (Lexeme.read c rest).text =
        whole.extract (passed.length + 1) (passed.length + (Lexeme.read c rest).raw.length) := by
  subst dollar
  rw [getElem?_place split 1] at second
  have agrees : ∀ n c, whole[n]? = some c →
      (¬ CharAt Charset.isWord whole n ↔ Charset.isWord c = false) := by
    intro n c found
    simp [CharAt, found]
  obtain ⟨first, text⟩ := run_behind split ['$'] rfl agrees
  have eq : Lexeme.read '$' rest = Lexeme.reference rest := rfl
  cases rest with
  | nil => exact ⟨rfl, first, text⟩
  | cons e cs =>
    have brace : e ≠ '\x7b' := by simpa using second
    rw [eq, Lexeme.reference, if_neg brace]
    exact ⟨rfl, first, text⟩

theorem munched_word (isWord : Charset.isWord c = true) :
    IsFirst (fun n => ¬ CharAt Charset.isWord whole n) passed.length whole.length
        (passed.length + (Lexeme.read c rest).raw.length) ∧
      (Lexeme.read c rest).kind = Kind.ofWord (String.ofList (Lexeme.read c rest).raw) ∧
      (Lexeme.read c rest).text = (Lexeme.read c rest).raw := by
  have agrees : ∀ n c, whole[n]? = some c →
      (¬ CharAt Charset.isWord whole n ↔ Charset.isWord c = false) := by
    intro n c found
    simp [CharAt, found]
  obtain ⟨first, -⟩ := run_behind split [] rfl agrees
  rw [List.nil_append, List.takeWhile_cons_of_pos isWord] at first
  rw [(Lexeme.read_of_isWord isWord rest).2]
  exact ⟨first, rfl, rfl⟩

theorem munched_quoted (isQuote : Charset.isQuote c = true) :
    (Lexeme.read c rest).kind = .quotedString ∧
      ∃ n, IsFirst (fun n => whole[n]? = some c ∧ protects whole passed.length (n - 1) = false)
          (passed.length + 1) whole.length n ∧
        (Lexeme.read c rest).text = spoken whole passed.length (passed.length + 1) n ∧
        Delimited (Lexeme.read c rest) (.quote c.toString) whole.length n
          (passed.length + (Lexeme.read c rest).raw.length) := by
  have which : c = '"' ∨ c = '\'' := by simpa [Charset.isQuote] using isQuote
  have other : c ≠ '\\' := by rcases which with rfl | rfl <;> decide
  have eq : Lexeme.read c rest = Lexeme.quotedString c rest := by
    rcases which with rfl | rfl <;> rfl
  have start : whole[passed.length]? = some c := getElem?_place split 0
  have plain : protects whole passed.length passed.length = false := by
    cases passed <;> simp [protects]
  have behind : (passed ++ [c]).length = passed.length + 1 := by simp
  have split' : whole = (passed ++ [c]) ++ rest := by simp [split]
  obtain ⟨n, first, text, ends, closed⟩ := isFirst_inside other split' (i := passed.length)
    (by omega) (by rw [behind]; exact plain)
  rw [behind] at first text ends
  rw [eq]
  refine ⟨rfl, n, first, text, ?_⟩
  have raw : (Lexeme.quotedString c rest).raw.length = (Lexeme.inside c rest).raw.length + 1 := rfl
  rw [Delimited, raw]
  cases shut : (Lexeme.inside c rest).closed with
  | true =>
    rw [shut, if_pos rfl] at ends
    exact Or.inl ⟨by simp [Lexeme.quotedString, shut], closed.1 shut, by omega⟩
  | false =>
    rw [shut, if_neg Bool.false_ne_true] at ends
    have bound : ¬ n < whole.length := fun below =>
      Bool.false_ne_true (shut.symm.trans (closed.2 below))
    exact Or.inr ⟨by simp [Lexeme.quotedString, shut], Nat.le_antisymm first.le_end (by omega),
      by omega⟩

end Classes

/-! ## Tokens -/

theorem closesAt_of_delimited {x : Lexeme} {t : Token} {delimiter : Unclosed} {code : String}
    {whole : List Char} {warnings : List Diagnostic} {n j : Nat}
    (ends : Delimited x delimiter whole.length n j)
    (coded : (delimiter.report Diagnostic.warning t.position).code = some code)
    (placed : (delimiter.report Diagnostic.warning t.position).position = t.position)
    (reported : ∀ delimiter, x.unclosed = some delimiter →
      delimiter.report Diagnostic.warning t.position ∈ warnings) :
    t.ClosesAt whole warnings code n j := by
  rcases ends with ⟨-, below, stop⟩ | ⟨unclosed, last, stop⟩
  · exact Or.inl ⟨below, stop⟩
  · exact Or.inr ⟨last, stop, _, reported delimiter unclosed, coded, placed⟩

/-- The token of the lexeme that is read behind `passed`. -/
theorem munched_token {whole passed rest : List Char} {c : Char} {here : Cursor}
    {warnings : List Diagnostic} (split : whole = passed ++ c :: rest)
    (reported : ∀ delimiter, (Lexeme.read c rest).unclosed = some delimiter →
      delimiter.report Diagnostic.warning ((Lexeme.read c rest).token here).position ∈ warnings) :
    ((Lexeme.read c rest).token here).Munched whole warnings passed.length
      (passed.length + (Lexeme.read c rest).raw.length) := by
  have start : whole[passed.length]? = some c := getElem?_place split 0
  have first {d : Char} (found : whole[passed.length]? = some d) : c = d :=
    Option.some.inj (start.symm.trans found)
  have text : ((Lexeme.read c rest).token here).text.toList = (Lexeme.read c rest).text :=
    String.toList_ofList
  constructor
  case lexeme_eq =>
    have split' : whole = passed ++ ((Lexeme.read c rest).raw ++ (Lexeme.read c rest).rest) := by
      rw [Lexeme.read_split, split]
    exact String.toList_ofList.trans (extract_place split').symm
  case comment =>
    intro hash
    rw [text]
    exact munched_comment split (first hash)
  case newline =>
    intro feed
    obtain rfl := first feed
    exact ⟨rfl, rfl⟩
  case pair =>
    intro d e double found second listed
    obtain rfl := first found
    obtain ⟨kind, length⟩ := munched_pair split second listed
    exact ⟨kind, by rw [length]⟩
  case single =>
    intro d single found listed alone
    obtain rfl := first found
    obtain ⟨kind, length⟩ := munched_single split listed alone
    exact ⟨kind, by rw [length]⟩
  case braced =>
    intro dollar second
    obtain ⟨kind, n, stops, said, ends⟩ := munched_braced split (first dollar) second
    rw [text]
    exact ⟨kind, n, stops, said, closesAt_of_delimited ends rfl rfl reported⟩
  case bare =>
    intro dollar second
    rw [text]
    exact munched_bare split (first dollar) second
  case word =>
    rintro ⟨d, found, isWord⟩
    obtain rfl := first found
    obtain ⟨stops, kind, said⟩ := munched_word split isWord
    exact ⟨stops, kind, congrArg String.ofList said⟩
  case quoted =>
    intro mark found isQuote
    obtain rfl := first found
    obtain ⟨kind, n, stops, said, ends⟩ := munched_quoted split isQuote
    rw [text]
    exact ⟨kind, n, stops, said, closesAt_of_delimited ends rfl rfl reported⟩
  case loose =>
    intro d found loose
    obtain rfl := first found
    obtain ⟨hash, feed, op, quote, dollar, other⟩ := loose
    have eq : Lexeme.read c rest = Lexeme.plain .word [c] rest := by
      simp [Lexeme.read, hash, feed, op, quote, dollar, other]
    rw [eq]
    exact ⟨rfl, rfl, rfl⟩

end Lexing

/-- **Every token is as long as it can be.**  Each token of a script but the end mark stands
where its position says, and is what the character there demands: it goes on up to the
first character that stops its class.  What is left open runs to the end and is reported. -/
theorem tokenize_maximal_munch (source : String) :
    ∃ ts, tokenize source false = .ok ts ∧ ∀ t ∈ ts, t.kind ≠ .eof →
      ∃ i j, t.Spans i j ∧ i < source.toList.length ∧
        t.Munched source.toList (Lexing.ofScript source false).warnings i j := by
  refine ⟨(Lexing.ofScript source false).tokens, ?_, fun t member inner => ?_⟩
  · rw [tokenize, Lexing.result, Lexing.ofScript, Lexing.failure_run_lenient]
    rfl
  rcases Lexing.read_of_mem_tokens .start source.toList member with
    rfl | ⟨passed, c, rest, split, -, rfl, reported⟩
  · exact absurd rfl inner
  have place : (Cursor.start.advance passed).offset = passed.length := by
    rw [Cursor.offset_advance]
    exact Nat.zero_add _
  refine ⟨passed.length, passed.length + (Lexeme.read c rest).raw.length, ?_, ?_, ?_⟩
  · have spans := Lexing.spans_token (Lexeme.read c rest) (Cursor.start.advance passed)
    rwa [place] at spans
  · rw [split, List.length_append, List.length_cons]
    omega
  · exact Lexing.munched_token split reported

end ShellScript
