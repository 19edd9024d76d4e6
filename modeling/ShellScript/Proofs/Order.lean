/-
# ShellScript.Proofs.Order -- when a walk follows the script

A walk over a parsed tree meets its pieces by where they start, except for one kind of piece:
a command lists its arguments before its redirections, wherever they stand.  So the walk turns
back exactly where a redirection stands in front of an argument (`Node.Crossed`), and follows
the script everywhere else (`walk_in_order_iff`).

The rows of a piece are in order (`Node.LaidOut.walks`), and only a command has more than one.
So its children are in order where its two rows do not cross (`walks_of_uncrossed`), and a walk
is the walks of the children one behind another.
-/
import ShellScript.Proofs.Spans

namespace ShellScript

set_option autoImplicit false

namespace Node

/-- A command with a redirection that starts before one of its arguments. -/
def Crossed : Node → Prop
  | statement (.command c) => ∃ e ∈ c.arguments, ∃ r ∈ c.redirections,
      (redirection r).start < (expr e).start
  | _ => False

theorem Crossed.exists_command {n : Node} (crossed : n.Crossed) :
    ∃ c, n = statement (.command c) ∧ ∃ e ∈ c.arguments, ∃ r ∈ c.redirections,
      (redirection r).start < (expr e).start := by
  unfold Crossed at crossed
  split at crossed
  · exact ⟨_, rfl, crossed⟩
  · exact crossed.elim

/-- Pieces of which none starts before one in front of it. -/
def Sorted (ns : List Node) : Prop := ns.Pairwise fun m n => m.start ≤ n.start

/-! ## Parts of a walk -/

theorem children_sublist (n : Node) : n.children.Sublist n.walk := by
  have each (ns : List Node) : ns.Sublist (ns.flatMap walk) := by
    induction ns with
    | nil => exact .slnil
    | cons m ms ih =>
      rw [List.flatMap_cons, walk_eq]
      exact (ih.trans (List.sublist_append_right _ _)).cons_cons m
  rw [walk_eq]
  exact (each n.children).cons n

/-- The walk from a piece below is a part of the walk. -/
theorem walk_sublist {m n : Node} (member : m ∈ n.walk) : m.walk.Sublist n.walk := by
  rw [walk_eq n] at member ⊢
  rcases List.mem_cons.1 member with rfl | below
  · rw [walk_eq]
  · obtain ⟨child, isChild, below⟩ := List.mem_flatMap.1 below
    have inside : child.walk.Sublist (n.children.flatMap walk) :=
      List.sublist_flatten_of_mem (List.mem_map_of_mem isChild)
    exact ((walk_sublist below).trans inside).cons n
termination_by sizeOf n
decreasing_by exact sizeOf_lt isChild

/-! ## Walks of pieces that are laid out -/

namespace LaidOut

variable {next : Token} {ws : List Token} {n : Node}

/-- Nothing in a walk starts before the piece where it starts. -/
theorem start_le (laid : n.LaidOut ws next) {m : Node} (member : m ∈ n.walk) :
    n.start ≤ m.start := by
  rw [walk_eq] at member
  rcases List.mem_cons.1 member with rfl | below
  · exact Nat.le_refl _
  · exact (laid.nested below).1

/-- Where the rows of a piece do not cross, everything in a child starts no later than
everything in the children behind it. -/
theorem walks_of_uncrossed (laid : n.LaidOut ws next) (uncrossed : ¬ n.Crossed) :
    n.children.Pairwise fun m m' => ∀ k ∈ m.walk, ∀ l ∈ m'.walk, k.start ≤ l.start := by
  rw [← n.flatten_rows, List.pairwise_flatten]
  refine ⟨fun row isRow => (laid.walks row isRow).imp fun apart k inFirst l inLater =>
    Nat.le_of_lt (apart k inFirst l inLater), ?_⟩
  unfold Node.rows
  split
  · next c =>
    refine List.pairwise_pair.2 fun m argument m' redirects k inFirst l inLater => ?_
    obtain ⟨e, isArgument, rfl⟩ := List.mem_map.1 argument
    obtain ⟨r, isRedirection, rfl⟩ := List.mem_map.1 redirects
    have ahead : (expr e).start ≤ (redirection r).start :=
      Nat.le_of_not_lt fun before => uncrossed ⟨e, isArgument, r, isRedirection, before⟩
    obtain ⟨vs, mid, inner⟩ := laid.of_walk
      ((children_sublist (statement (.command c))).subset (List.mem_append_right _ redirects))
    obtain rfl : k = expr e := by
      rw [walk_eq] at inFirst
      exact List.mem_singleton.1 inFirst
    exact Nat.le_trans ahead (inner.start_le inLater)
  · exact List.pairwise_singleton _ _

/-- The children of a piece are in order unless a redirection stands before an argument. -/
theorem sorted_children_iff (laid : n.LaidOut ws next) : Sorted n.children ↔ ¬ n.Crossed := by
  constructor
  · intro sorted crossed
    obtain ⟨c, rfl, e, isArgument, r, isRedirection, before⟩ := crossed.exists_command
    have apart := (List.pairwise_append.1 sorted).2.2 _ (List.mem_map_of_mem isArgument) _
      (List.mem_map_of_mem isRedirection)
    exact Nat.not_le_of_lt before apart
  · intro uncrossed
    exact (laid.walks_of_uncrossed uncrossed).imp fun apart =>
      apart _ (self_mem_walk _) _ (self_mem_walk _)

/-- A walk that comes to no crossed command is in order. -/
theorem sorted_walk {next : Token} {ws : List Token} {n : Node} (laid : n.LaidOut ws next)
    (uncrossed : ∀ m ∈ n.walk, ¬ m.Crossed) :
    Sorted n.walk := by
  have inside : ∀ m ∈ n.children, Sorted m.walk := fun m child => by
    have below := n.children_sublist.subset child
    obtain ⟨vs, mid, inner⟩ := laid.of_walk below
    exact inner.sorted_walk fun k member => uncrossed k ((walk_sublist below).subset member)
  rw [walk_eq]
  refine List.pairwise_cons.2 ⟨fun m below => (laid.nested below).1, ?_⟩
  exact List.pairwise_flatMap.2
    ⟨inside, laid.walks_of_uncrossed (uncrossed n n.self_mem_walk)⟩
termination_by sizeOf n
decreasing_by exact sizeOf_lt child

end LaidOut

end Node

open Node (Sorted)

/-- **A walk follows the script except at a crossed command.**  The children of a piece of a
parsed tree are in the order of the script unless the piece is a command with a redirection
before an argument, and the whole walk is in that order unless it comes to such a command. -/
theorem walk_in_order_iff (source : String) {p : Program}
    (parsed : parse source false = .ok p) :
    (∀ n ∈ (Node.program p).walk, Sorted n.children ↔ ¬ n.Crossed) ∧
      (Sorted (Node.program p).walk ↔ ∀ n ∈ (Node.program p).walk, ¬ n.Crossed) := by
  obtain ⟨ws, last, -, laid⟩ := laidOut_of_parse parsed
  have children : ∀ n ∈ (Node.program p).walk, Sorted n.children ↔ ¬ n.Crossed := by
    intro n member
    obtain ⟨vs, mid, inner⟩ := laid.of_walk member
    exact inner.sorted_children_iff
  refine ⟨children, fun sorted n member => (children n member).1 ?_, laid.sorted_walk⟩
  exact sorted.sublist (n.children_sublist.trans (Node.walk_sublist member))

/-- A redirection behind all arguments. -/
theorem walk_in_order_iff_uncrossed :
    ∃ p, parse "f a > x | g" false = .ok p ∧
      (∀ n ∈ (Node.program p).walk, Sorted n.children ↔ ¬ n.Crossed) ∧
      (Sorted (Node.program p).walk ↔ ∀ n ∈ (Node.program p).walk, ¬ n.Crossed) := by
  generalize script : "f a > x | g" = source
  have parses : ((parse source false).casesOn (fun _ => false) fun _ => true) = true := by
    subst script
    decide +kernel
  cases parsed : parse source false with
  | error e => simp [parsed] at parses
  | ok p => exact ⟨p, rfl, walk_in_order_iff source parsed⟩

/-- A redirection before an argument. -/
theorem walk_turns_back :
    ∃ p, parse "x > f a" false = .ok p ∧ (∃ n ∈ (Node.program p).walk, ¬ Sorted n.children) ∧
      ¬ Sorted (Node.program p).walk := by
  generalize script : "x > f a" = source
  have parses : ((parse source false).casesOn (fun _ => false) fun p =>
      decide (p.body.map (fun s => (Node.statement s).children.map Node.start) = [[6, 2]])) =
        true := by
    subst script
    decide +kernel
  cases parsed : parse source false with
  | error e => simp [parsed] at parses
  | ok p =>
    simp only [parsed, decide_eq_true_eq] at parses
    obtain ⟨s, rest, body, starts, -⟩ := List.map_eq_cons_iff.1 parses
    have child : Node.statement s ∈ (Node.program p).children := by
      simp [Node.children, body]
    have member := (Node.program p).children_sublist.subset child
    have turns : ¬ Sorted (Node.statement s).children := by
      intro sorted
      have later : [6, 2].Pairwise fun i j : Nat => i ≤ j := by
        rw [← starts]
        exact List.pairwise_map.2 sorted
      revert later
      decide
    refine ⟨p, rfl, ⟨_, member, turns⟩, fun sorted => turns ?_⟩
    exact sorted.sublist ((Node.children_sublist _).trans (Node.walk_sublist member))

end ShellScript
