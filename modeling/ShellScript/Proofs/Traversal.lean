/-
# ShellScript.Proofs.Traversal -- what a walk comes to

Handed over as plain data, a piece of a tree is a record of all its fields, so a tree holds the
records of everything stored in it.  A walk goes from children to children instead.  The two
meet the same pieces, with one exception: a loop over words lists its `items`, but not its
`iterable` and the words of a condition (`Node.unlisted`).

A piece stores its children and what it does not list, and nothing else (`within_plain_iff`).
So by induction on the tree every record in it is that of a piece that the walk comes to, or of
something that such a piece does not list (`within_plain_iff_walk`).  In a parsed tree the
`iterable` is the first of the `items`, and the walk misses nothing (`traversal_reaches_iff`).
-/
import ShellScript.Proofs.Order
import ShellScript.Tree.Checked
import ShellScript.Tree.Plain

namespace ShellScript

set_option autoImplicit false

namespace Plain

/-- Plain data that occurs somewhere in plain data. -/
inductive Within (d : Plain) : Plain → Prop
  | self : Within d d
  | item {items : List Plain} {x : Plain} (member : x ∈ items) (inside : Within d x) :
      Within d (list items)
  | field {fields : List (String × Plain)} {name : String} {x : Plain}
      (member : (name, x) ∈ fields) (inside : Within d x) : Within d (record fields)

/-- Plain data that is the record of a piece. -/
def IsPiece (d : Plain) : Prop := ∃ tag fields, d = piece tag fields

/-- Plain data with nothing inside. -/
def IsAtom : Plain → Prop
  | null => True
  | bool _ => True
  | int _ => True
  | text _ => True
  | list _ => False
  | record _ => False

variable {d : Plain}

theorem not_within_of_isAtom (isPiece : d.IsPiece) {x : Plain} (atom : x.IsAtom) :
    ¬ d.Within x := by
  intro inside
  cases inside with
  | self =>
    obtain ⟨tag, fields, rfl⟩ := isPiece
    exact atom
  | item => exact atom
  | field => exact atom

theorem within_list {items : List Plain} (isPiece : d.IsPiece) :
    d.Within (list items) ↔ ∃ x ∈ items, d.Within x := by
  constructor
  · intro inside
    cases inside with
    | self =>
      obtain ⟨tag, fields, same⟩ := isPiece
      cases same
    | item member inside => exact ⟨_, member, inside⟩
  · rintro ⟨x, member, inside⟩
    exact .item member inside

/-- Plain data that is inside one of some fields. -/
@[simp] def InFields (d : Plain) : List (String × Plain) → Prop
  | [] => False
  | (_, x) :: fields => d.Within x ∨ d.InFields fields

theorem inFields_iff {fields : List (String × Plain)} :
    d.InFields fields ↔ ∃ f ∈ fields, d.Within f.2 := by
  induction fields with
  | nil => simp [InFields]
  | cons f fields ih => simp [InFields, ih]

theorem within_piece {tag : Tag} {fields : List (String × Plain)} (isPiece : d.IsPiece) :
    d.Within (piece tag fields) ↔ d = piece tag fields ∨ d.InFields fields := by
  rw [inFields_iff]
  constructor
  · intro inside
    cases inside with
    | self => exact Or.inl rfl
    | @field _ name x member inside =>
      rcases List.mem_cons.1 member with same | member
      · obtain ⟨-, rfl⟩ := Prod.mk.inj same
        exact absurd inside (not_within_of_isAtom isPiece trivial)
      · exact Or.inr ⟨(name, x), member, inside⟩
  · rintro (rfl | ⟨f, member, inside⟩)
    · exact .self
    · exact .field (List.mem_cons_of_mem _ member) inside

/-- A position holds numbers only. -/
theorem not_within_position (isPiece : d.IsPiece) (p : Option Span) : ¬ d.Within (position p) := by
  cases p with
  | none => exact not_within_of_isAtom isPiece trivial
  | some s =>
    intro inside
    cases inside with
    | self =>
      obtain ⟨tag, fields, same⟩ := isPiece
      obtain ⟨first, -⟩ := List.cons.inj (record.inj same)
      exact absurd (Prod.mk.inj first).1 (by decide)
    | field member inside =>
      refine not_within_of_isAtom isPiece ?_ inside
      simp only [List.mem_cons, Prod.mk.injEq, List.not_mem_nil, or_false] at member
      rcases member with ⟨-, rfl⟩ | ⟨-, rfl⟩ | ⟨-, rfl⟩ | ⟨-, rfl⟩ <;> trivial

end Plain

open Plain

namespace Node

/-! ## What a piece stores -/

/-- What a piece stores but does not list as a child: of a loop over words, the first word
and the words after a condition. -/
@[simp] def unlisted : Node → List Node
  | statement (.loop (.forIn _ iterable) args _ _ _) => (iterable :: args).map expr
  | _ => []

/-- The pieces that a piece stores. -/
@[simp] def stored (n : Node) : List Node := n.children ++ n.unlisted

/-- Plain data that is inside the record of one of some pieces. -/
def Hold (ns : List Node) (d : Plain) : Prop := ∃ m ∈ ns, d.Within m.plain

section Hold

variable {d : Plain} {ms ns : List Node}

@[simp] theorem hold_nil : ¬ Hold [] d := by simp [Hold]

@[simp] theorem hold_cons {n : Node} : Hold (n :: ns) d ↔ d.Within n.plain ∨ Hold ns d := by
  simp only [Hold, List.mem_cons, or_and_right, exists_or, exists_eq_left]

@[simp] theorem hold_append : Hold (ms ++ ns) d ↔ Hold ms d ∨ Hold ns d := by
  simp only [Hold, List.mem_append, or_and_right, exists_or]

/-- A list of records holds what the pieces hold. -/
theorem within_ofList {α : Type} {f : α → Node} {g : α → Plain} (isPiece : d.IsPiece)
    (same : ∀ a, (f a).plain = g a) (as : List α) : d.Within (ofList g as) ↔ Hold (as.map f) d := by
  rw [ofList, within_list isPiece]
  constructor
  · rintro ⟨x, member, inside⟩
    obtain ⟨a, isElement, rfl⟩ := List.mem_map.1 member
    exact ⟨f a, List.mem_map_of_mem isElement, (same a).symm ▸ inside⟩
  · rintro ⟨m, member, inside⟩
    obtain ⟨a, isElement, rfl⟩ := List.mem_map.1 member
    exact ⟨g a, List.mem_map_of_mem isElement, same a ▸ inside⟩

/-- The records inside that of a piece are its own and those inside the pieces it stores. -/
theorem within_plain_iff (isPiece : d.IsPiece) (n : Node) :
    d.Within n.plain ↔ d = n.plain ∨ Hold n.stored d := by
  -- texts, truth values, nulls and positions hold no record of a piece
  have no_null : ¬ d.Within null := not_within_of_isAtom isPiece trivial
  have no_bool (b : Bool) : ¬ d.Within (bool b) := not_within_of_isAtom isPiece trivial
  have no_text (s : String) : ¬ d.Within (text s) := not_within_of_isAtom isPiece trivial
  have no_position := not_within_position isPiece
  have no_texts (ts : List String) : ¬ d.Within (ofList text ts) := by
    simp [ofList, within_list isPiece, no_text]
  -- lists of pieces hold what the pieces hold
  have exprs := within_ofList (f := expr) (g := Expr.plain) isPiece fun _ => rfl
  have redirections := within_ofList (f := redirection) (g := Redirection.plain) isPiece fun _ => rfl
  have commands := within_ofList (f := command) (g := Command.plain) isPiece fun _ => rfl
  have statements := within_ofList (f := statement) (g := Statement.plain) isPiece fun _ => rfl
  have bodies (ss : List Statement) :
      d.Within (list (Statement.plainAll ss)) ↔ Hold (ss.map statement) d := by
    rw [Statement.plainAll_eq_map]
    exact statements ss
  cases n with
  | program p =>
    simp [plain, Program.plain, within_piece isPiece, children, no_position, statements]
  | statement s =>
    cases s with
    | command c =>
      simp [plain, Statement.plain, Command.plain, within_piece isPiece, children, no_text, no_texts,
        no_position, exprs, redirections]
    | pipeline first second others p =>
      simp [plain, Statement.plain, within_piece isPiece, children, no_position, commands]
    | conditional condition args thenBody elseBody p =>
      -- the words of the condition are the last field, but come first as children
      cases elseBody with
      | none =>
        simp [plain, Statement.plain, within_piece isPiece, children, no_null, no_position, exprs,
          bodies, or_comm]
      | some elseBody =>
        simp [plain, Statement.plain, within_piece isPiece, children, no_position, exprs, bodies,
          or_comm, or_left_comm, or_assoc]
    | loop header args items body p =>
      cases header with
      | forIn name iterable =>
        simp [plain, Statement.plain, within_piece isPiece, children, ofOption,
          LoopHeader.condition?, LoopHeader.name?, LoopHeader.iterable?, no_null, no_text,
          no_position, exprs, bodies, or_comm, or_left_comm, or_assoc]
      | whileDo condition =>
        simp [plain, Statement.plain, within_piece isPiece, children, ofOption,
          LoopHeader.condition?, LoopHeader.name?, LoopHeader.iterable?, no_null, no_text,
          no_position, exprs, bodies, or_comm, or_left_comm, or_assoc]
    | function name body p =>
      simp [plain, Statement.plain, within_piece isPiece, children, no_text, no_position, bodies]
    | assignment name value p =>
      simp [plain, Statement.plain, within_piece isPiece, children, no_text, no_position]
  | redirection r =>
    simp [plain, Redirection.plain, within_piece isPiece, children, no_text, no_position]
  | expr e =>
    cases e <;>
      simp [plain, Expr.plain, within_piece isPiece, children, no_text, no_bool, no_position]

/-! ## What a walk comes to -/

/-- What is not listed is an expression. -/
theorem exists_expr_of_unlisted {k n : Node} (member : k ∈ n.unlisted) : ∃ e, k = expr e := by
  unfold unlisted at member
  split at member
  · obtain ⟨e, -, rfl⟩ := List.mem_map.1 member
    exact ⟨e, rfl⟩
  · cases member

/-- In what is not listed there are no other records. -/
theorem hold_unlisted_iff (isPiece : d.IsPiece) (n : Node) :
    Hold n.unlisted d ↔ ∃ k ∈ n.unlisted, k.plain = d := by
  have single {k : Node} (member : k ∈ n.unlisted) : d.Within k.plain ↔ k.plain = d := by
    obtain ⟨e, rfl⟩ := exists_expr_of_unlisted member
    rw [within_plain_iff isPiece]
    simp [children, eq_comm]
  constructor
  · rintro ⟨k, member, inside⟩
    exact ⟨k, member, (single member).1 inside⟩
  · rintro ⟨k, member, same⟩
    exact ⟨k, member, (single member).2 same⟩

/-- The records inside that of a piece are those of the pieces that its walk comes to, and of
what such a piece does not list. -/
theorem within_plain_iff_walk (isPiece : d.IsPiece) (n : Node) :
    d.Within n.plain ↔ ∃ m ∈ n.walk, m.plain = d ∨ ∃ k ∈ m.unlisted, k.plain = d := by
  have below : Hold n.children d ↔ ∃ c ∈ n.children, ∃ m ∈ c.walk,
      m.plain = d ∨ ∃ k ∈ m.unlisted, k.plain = d := by
    refine exists_congr fun c => and_congr_right fun child => ?_
    exact within_plain_iff_walk isPiece c
  rw [within_plain_iff isPiece, stored, hold_append, below, hold_unlisted_iff isPiece, walk_eq]
  constructor
  · rintro (rfl | ⟨c, child, m, member, found⟩ | missed)
    · exact ⟨n, List.mem_cons_self, Or.inl rfl⟩
    · exact ⟨m, List.mem_cons_of_mem n (List.mem_flatMap.2 ⟨c, child, member⟩), found⟩
    · exact ⟨n, List.mem_cons_self, Or.inr missed⟩
  · rintro ⟨m, member, found⟩
    rcases List.mem_cons.1 member with rfl | member
    · exact found.imp Eq.symm Or.inr
    · obtain ⟨c, child, member⟩ := List.mem_flatMap.1 member
      exact Or.inr (Or.inl ⟨c, child, m, member, found⟩)
termination_by sizeOf n
decreasing_by exact sizeOf_lt child

end Hold

theorem isPiece_plain (n : Node) : n.plain.IsPiece := by
  cases n with
  | program p => exact ⟨_, _, rfl⟩
  | statement s =>
    cases s with
    | conditional condition args thenBody elseBody p => cases elseBody <;> exact ⟨_, _, rfl⟩
    | _ => exact ⟨_, _, rfl⟩
  | redirection r => exact ⟨_, _, rfl⟩
  | expr e => cases e <;> exact ⟨_, _, rfl⟩

/-- Every record inside that of a piece is one of a piece that the walk comes to. -/
def Reaches (n : Node) : Prop :=
  ∀ d : Plain, d.IsPiece → d.Within n.plain → ∃ m ∈ n.walk, m.plain = d

/-- A walk misses nothing unless something is not listed that is met nowhere else. -/
theorem reaches_iff (n : Node) :
    n.Reaches ↔ ∀ m ∈ n.walk, ∀ k ∈ m.unlisted, ∃ l ∈ n.walk, l.plain = k.plain := by
  constructor
  · intro reaches m member k missed
    exact reaches k.plain k.isPiece_plain
      ((within_plain_iff_walk k.isPiece_plain n).2 ⟨m, member, Or.inr ⟨k, missed, rfl⟩⟩)
  · intro elsewhere d isPiece inside
    obtain ⟨m, member, found | ⟨k, missed, rfl⟩⟩ := (within_plain_iff_walk isPiece n).1 inside
    · exact ⟨m, member, found⟩
    · exact elsewhere m member k missed

/-- A loop over words that is parsed lists its words, and none of a condition. -/
theorem mem_children_of_unlisted {next : Token} {ws : List Token} {n k : Node}
    (h : IsNode next ws n) (missed : k ∈ n.unlisted) : k ∈ n.children := by
  cases h with
  | expr => cases missed
  | redirection => cases missed
  | command => cases missed
  | statement h =>
    cases h with
    | assignment h =>
      cases h
      cases missed
    | pipeline h => cases h <;> cases missed
    | conditional h => cases h <;> cases missed
    | function h =>
      cases h
      cases missed
    | loop h =>
      cases h with
      | whileDo => cases missed
      | forIn =>
        obtain rfl := List.mem_singleton.1 missed
        exact List.mem_cons_self

/-- The walks over a parsed tree miss nothing. -/
theorem reaches_of_parse {source : String} {strict : Bool} {p : Program}
    (parsed : parse source strict = .ok p) {n : Node} (member : n ∈ (program p).walk) :
    n.Reaches := by
  refine n.reaches_iff.2 fun m below k missed => ?_
  obtain ⟨ws, last, -, -, nodes⟩ := node_of_parse parsed
  rcases nodes m ((walk_sublist member).subset below) with rfl | ⟨us, vs, zs, -, found⟩
  · cases missed
  · have child := mem_children_of_unlisted found missed
    exact ⟨k, (walk_sublist below).subset (m.children_sublist.subset child), rfl⟩

end Node

/-- **What the walk over a tree comes to.**  The records inside the plain data of a piece are
those of the pieces that its walk comes to, and those of what a loop over words among them
does not list.  So the walk misses nothing stored in the piece exactly if each of these is met
elsewhere, and so it is in every tree that is parsed. -/
theorem traversal_reaches_iff (n : Node) :
    (∀ d : Plain, d.IsPiece → (d.Within n.plain ↔
      (∃ m ∈ n.walk, m.plain = d) ∨ ∃ m ∈ n.walk, ∃ k ∈ m.unlisted, k.plain = d)) ∧
      (n.Reaches ↔ ∀ m ∈ n.walk, ∀ k ∈ m.unlisted, ∃ l ∈ n.walk, l.plain = k.plain) ∧
      ∀ source strict p, parse source strict = .ok p → n ∈ (Node.program p).walk → n.Reaches := by
  refine ⟨fun d isPiece => ?_, n.reaches_iff, fun source strict p parsed member =>
    Node.reaches_of_parse parsed member⟩
  rw [Node.within_plain_iff_walk isPiece]
  simp only [and_or_left, exists_or]

/-- In a parsed loop over words, the first word is met. -/
theorem traversal_reaches_iff_words : ∃ p n k, parse "for x in a\ndo b\ndone" false = .ok p ∧
    n ∈ (Node.program p).walk ∧ k ∈ n.unlisted ∧ k.label = some "a" ∧ k.plain.Within n.plain ∧
    ∃ m ∈ n.walk, m.plain = k.plain := by
  generalize script : "for x in a\ndo b\ndone" = source
  have parses : ((parse source false).casesOn (fun _ => false) fun p =>
      decide (p.body.map (fun s => (Node.statement s).unlisted.map Node.label) = [[some "a"]])) =
        true := by
    subst script
    decide +kernel
  cases parsed : parse source false with
  | error e => simp [parsed] at parses
  | ok p =>
    simp only [parsed, decide_eq_true_eq] at parses
    obtain ⟨s, body, missed⟩ := List.map_eq_singleton_iff.1 parses
    obtain ⟨k, missed, label⟩ := List.map_eq_singleton_iff.1 missed
    have member : Node.statement s ∈ (Node.program p).walk := by
      refine (Node.program p).children_sublist.subset ?_
      simp [Node.children, body]
    have isUnlisted : k ∈ (Node.statement s).unlisted := missed ▸ List.mem_singleton_self k
    obtain ⟨records, -, reaches⟩ := traversal_reaches_iff (.statement s)
    have inside : k.plain.Within (Node.statement s).plain :=
      (records k.plain k.isPiece_plain).2
        (Or.inr ⟨_, Node.self_mem_walk _, k, isUnlisted, rfl⟩)
    exact ⟨p, .statement s, k, rfl, member, isUnlisted, label, inside,
      reaches source false p parsed member k.plain k.isPiece_plain inside⟩

/-- A loop over the word `a` that is built by hand, without a list of its words. -/
def Node.unlistedLoop : Node :=
  .statement (.loop (.forIn "x" (.literal "a" false none)) [] [] [] none)

/-- Its walk does not come to the word. -/
theorem walk_misses_word :
    LoopHeader.ofParts "for" (some "x") (some (.literal "a" false none)) none =
        .ok (.forIn "x" (.literal "a" false none)) ∧
      (Expr.literal "a" false none).plain.IsPiece ∧
      (Expr.literal "a" false none).plain.Within Node.unlistedLoop.plain ∧
      ∀ m ∈ Node.unlistedLoop.walk, m.plain ≠ (Expr.literal "a" false none).plain := by
  have isPiece := (Node.expr (.literal "a" false none)).isPiece_plain
  refine ⟨rfl, isPiece, (Node.within_plain_iff_walk isPiece _).2
    ⟨_, Node.self_mem_walk _, Or.inr ⟨_, List.mem_cons_self, rfl⟩⟩, ?_⟩
  intro m member same
  rw [Node.walk_eq] at member
  obtain rfl := List.mem_singleton.1 member
  obtain ⟨first, -⟩ := List.cons.inj (Plain.record.inj same)
  exact absurd (Plain.text.inj (Prod.mk.inj first).2) (by decide)

end ShellScript
