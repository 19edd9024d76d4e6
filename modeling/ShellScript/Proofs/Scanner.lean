/-
# ShellScript.Proofs.Scanner -- a scanner never loses its place

A session is any number of requests to one scanner, in any order; a request that fails
does not end it.  Whatever is asked, the scanner stands on the line and in the column of
its offset, and so does every token and every report it gives (`Scanner.Placed`).  Each
request keeps that up (`placed_answer`), and so does a session, by induction
(`placed_session`).

A request for a token moves the place past that token, or to the end of the script if it
fails there.
-/
import ShellScript.Proofs.Lexing.Place
import ShellScript.Scanner

namespace ShellScript.Scanner

set_option autoImplicit false

/-! ## Sessions -/

/-- What may be asked of a scanner that keeps its script. -/
inductive Request where
  | tokenize
  | next
  | skipBlanks
  | skip (n : Int)
  | peek (ahead : Int)
  | current
  | strictness (strict : Bool)

/-- What a request gives. -/
inductive Answer where
  | tokens (ts : List Token)
  | token (t : Token)
  | character (c : Option Char)
  | done

/-- The answer to a request, and the scanner after it. -/
def answer (s : Scanner) : Request → Except ScanError Answer × Scanner
  | .tokenize => (s.tokenize.1.map .tokens, s.tokenize.2)
  | .next => (s.next.1.map .token, s.next.2)
  | .skipBlanks => (.ok .done, s.skipBlanks)
  | .skip n => (.ok .done, s.skip n)
  | .peek ahead => ((s.peek ahead).map .character, s)
  | .current => (.ok (.character s.current), s)
  | .strictness strict => (.ok .done, { s with strict := strict })

/-- The answers to requests made in turn, and the scanner after the last of them. -/
def session (s : Scanner) : List Request → List (Except ScanError Answer) × Scanner
  | [] => ([], s)
  | r :: rs =>
      let (a, s) := s.answer r
      let (others, s) := session s rs
      (a :: others, s)

/-! ## Places -/

/-- The tokens and the report in an answer are placed in the text `whole`. -/
def AnswerPlaced (whole : List Char) : Except ScanError Answer → Prop
  | .ok (.tokens ts) => ∀ t ∈ ts, t.Placed whole
  | .ok (.token t) => t.Placed whole
  | .ok (.character _) => True
  | .ok .done => True
  | .error (.unclosed report) => report.Placed whole
  | .error (.fault _) => True

/-- A scanner of `source` stands on the line and in the column of its offset, and so do the
tokens and the warnings it holds. -/
structure Placed (s : Scanner) (source : String) : Prop where
  source_eq : s.source = source
  cursor : s.cursor.Placed source.toList
  tokens : ∀ t ∈ s.tokens, t.Placed source.toList
  warnings : ∀ d ∈ s.warnings, d.Placed source.toList

variable {s : Scanner} {source : String}

theorem placed_ofScript (source : String) (strict : Bool) :
    (ofScript source strict).Placed source where
  source_eq := rfl
  cursor := Cursor.placed_start source.toList
  tokens := by simp [ofScript]
  warnings := by simp [ofScript]

/-- A scanner moves past characters that follow. -/
theorem Placed.pass (placed : s.Placed source) {cs : List Char} (ahead : cs <+: s.remaining) :
    (s.pass cs).Placed source := by
  rw [remaining, placed.source_eq] at ahead
  exact ⟨placed.source_eq, placed.cursor.advance ahead, placed.tokens, placed.warnings⟩

/-! ## Requests for a token -/

theorem next_of_end (ended : s.remaining = []) :
    s.next = (.error (.fault .characterOutOfRange), s) := by
  simp [next, ended]

/-- A request for a token in front of some character: the token of the lexeme there, or in
strict work the report on what it leaves open.  Either way the lexeme is passed. -/
theorem next_cases {c : Char} {cs : List Char} (ahead : s.remaining = c :: cs) :
    (s.next.1 = .ok ((Lexeme.read c cs).token s.cursor) ∧
        s.next.2.cursor = s.cursor.advance (Lexeme.read c cs).raw ∧
        (s.next.2.warnings = s.warnings ∨ ∃ delimiter : Unclosed, s.next.2.warnings =
          s.warnings ++ [delimiter.report Diagnostic.warning
            ((Lexeme.read c cs).token s.cursor).position]) ∨
      ∃ delimiter, (Lexeme.read c cs).unclosed = some delimiter ∧
        s.next.1 = .error (.unclosed (delimiter.report Diagnostic.error
          ((Lexeme.read c cs).token s.cursor).position)) ∧
        s.next.2.cursor = s.cursor.advance (Lexeme.read c cs).raw ∧
        s.next.2.warnings = s.warnings) ∧
      s.next.2.source = s.source ∧ s.next.2.tokens = s.tokens := by
  unfold next
  simp only [ahead]
  cases unclosed : (Lexeme.read c cs).unclosed with
  | none => exact ⟨Or.inl ⟨rfl, rfl, Or.inl rfl⟩, rfl, rfl⟩
  | some delimiter =>
    cases strict : s.strict with
    | false => exact ⟨Or.inl ⟨rfl, rfl, Or.inr ⟨delimiter, rfl⟩⟩, rfl, rfl⟩
    | true => exact ⟨Or.inr ⟨delimiter, rfl, rfl, rfl, rfl⟩, rfl, rfl⟩

theorem placed_next (placed : s.Placed source) :
    s.next.2.Placed source ∧ AnswerPlaced source.toList (s.next.1.map .token) := by
  cases ahead : s.remaining with
  | nil =>
    rw [next_of_end ahead]
    exact ⟨placed, trivial⟩
  | cons c cs =>
    have first := Lexing.placed_token placed.cursor (Lexeme.read c cs)
    have report (delimiter : Unclosed) (severity : String) :=
      Lexing.placed_report placed.cursor (Lexeme.read c cs) delimiter severity
    rw [remaining, placed.source_eq] at ahead
    obtain ⟨moved, -⟩ := Lexing.placed_lexeme placed.cursor ahead
    rw [← placed.source_eq, ← remaining] at ahead
    obtain ⟨cases, source_eq, tokens⟩ := next_cases ahead
    rw [placed.source_eq] at source_eq
    rcases cases with ⟨result, cursor, warnings⟩ | ⟨delimiter, -, result, cursor, warnings⟩
    · refine ⟨⟨source_eq, cursor ▸ moved, tokens ▸ placed.tokens, ?_⟩, ?_⟩
      · rcases warnings with same | ⟨delimiter, more⟩
        · rw [same]
          exact placed.warnings
        · rw [more]
          exact List.forall_mem_append.2 ⟨placed.warnings, by simpa using report delimiter _⟩
      · rw [result]
        exact first
    · refine ⟨⟨source_eq, cursor ▸ moved, tokens ▸ placed.tokens, warnings ▸ placed.warnings⟩, ?_⟩
      rw [result]
      exact report delimiter _

/-- In front of some character a request for a token passes that token, which is not empty;
or it fails, and all that remains is passed. -/
theorem next_moves (placed : s.Placed source) (inside : s.cursor.offset < source.toList.length) :
    (∃ t, s.next.1 = .ok t ∧ s.cursor.offset < s.next.2.cursor.offset ∧
        t.lexeme.toList = source.toList.extract s.cursor.offset s.next.2.cursor.offset) ∨
      ∃ report, s.next.1 = .error (.unclosed report) ∧
        s.next.2.cursor.offset = source.toList.length := by
  cases ahead : s.remaining with
  | nil =>
    rw [remaining, placed.source_eq, List.drop_eq_nil_iff] at ahead
    omega
  | cons c cs =>
    have split := Lexeme.read_split c cs
    have solid := List.length_pos_iff.2 (Lexeme.raw_ne_nil c cs)
    obtain ⟨cases, -⟩ := next_cases ahead
    rw [remaining, placed.source_eq] at ahead
    rcases cases with ⟨result, cursor, -⟩ | ⟨delimiter, unclosed, result, cursor, -⟩
    · left
      rw [cursor, Cursor.offset_advance]
      refine ⟨_, result, by omega, ?_⟩
      show (String.ofList (Lexeme.read c cs).raw).toList = _
      rw [List.extract_eq_take_drop, ahead, ← split, String.toList_ofList, Nat.add_sub_cancel_left,
        List.take_left]
    · right
      refine ⟨_, result, ?_⟩
      have length := congrArg List.length ahead
      rw [Lexeme.rest_eq_nil_of_unclosed unclosed, List.append_nil] at split
      rw [List.length_drop, ← split] at length
      rw [cursor, Cursor.offset_advance]
      omega

/-! ## Any session -/

theorem placed_tokenize (placed : s.Placed source) :
    s.tokenize.2.Placed source ∧ AnswerPlaced source.toList (s.tokenize.1.map .tokens) := by
  have run := Lexing.placed_run s.strict .start source.toList (Cursor.placed_start _) rfl
  simp only [tokenize, placed.source_eq, Lexing.ofScript]
  cases failure : (Lexing.run s.strict .start source.toList).failure with
  | none => exact ⟨⟨rfl, run.stop, run.tokens, run.warnings⟩, run.tokens⟩
  | some d => exact ⟨⟨rfl, run.stop, run.tokens, run.warnings⟩, run.failure d failure⟩

/-- Every request keeps all places right. -/
theorem placed_answer (placed : s.Placed source) (r : Request) :
    (s.answer r).2.Placed source ∧ AnswerPlaced source.toList (s.answer r).1 := by
  cases r with
  | tokenize => exact placed_tokenize placed
  | next => exact placed_next placed
  | skipBlanks => exact ⟨placed.pass (List.takeWhile_prefix _), trivial⟩
  | skip n => exact ⟨placed.pass (List.take_prefix _ _), trivial⟩
  | peek ahead =>
    refine ⟨placed, ?_⟩
    simp only [answer, peek]
    split
    · trivial
    · split <;> trivial
  | current => exact ⟨placed, trivial⟩
  | strictness strict =>
    exact ⟨⟨placed.source_eq, placed.cursor, placed.tokens, placed.warnings⟩, trivial⟩

theorem placed_session (placed : s.Placed source) (rs : List Request) :
    (s.session rs).2.Placed source ∧ ∀ a ∈ (s.session rs).1, AnswerPlaced source.toList a := by
  induction rs generalizing s with
  | nil => exact ⟨placed, by simp [session]⟩
  | cons r rs ih =>
    obtain ⟨after, first⟩ := placed_answer placed r
    obtain ⟨last, others⟩ := ih after
    exact ⟨last, List.forall_mem_cons.2 ⟨first, others⟩⟩

/-- **Line and column are always those of the offset.**  After any requests in any order the
place lies in the script, on the line and in the column of its offset; and so does the start
of every token and every report that was given or is held.  The next request for a token
passes that token, or fails and stands at the end; at the end it fails and changes nothing. -/
theorem session_keeps_places (source : String) (strict : Bool) (rs : List Request) :
    let answers := ((ofScript source strict).session rs).1
    let s := ((ofScript source strict).session rs).2
    s.source = source ∧ s.cursor.Placed source.toList ∧
      (∀ t ∈ s.tokens, t.Placed source.toList) ∧ (∀ d ∈ s.warnings, d.Placed source.toList) ∧
      (∀ a ∈ answers, AnswerPlaced source.toList a) ∧
      (s.cursor.offset < source.toList.length →
        (∃ t, s.next.1 = .ok t ∧ s.cursor.offset < s.next.2.cursor.offset ∧
          t.lexeme.toList = source.toList.extract s.cursor.offset s.next.2.cursor.offset) ∨
        ∃ report, s.next.1 = .error (.unclosed report) ∧
          s.next.2.cursor.offset = source.toList.length) ∧
      (s.cursor.offset = source.toList.length →
        s.next = (.error (.fault .characterOutOfRange), s)) := by
  intro answers s
  obtain ⟨placed, answered⟩ := placed_session (placed_ofScript source strict) rs
  refine ⟨placed.source_eq, placed.cursor, placed.tokens, placed.warnings, answered,
    next_moves placed, fun ended => next_of_end ?_⟩
  rw [remaining, placed.source_eq]
  exact List.drop_eq_nil_of_le (Nat.le_of_eq ended.symm)

end ShellScript.Scanner
