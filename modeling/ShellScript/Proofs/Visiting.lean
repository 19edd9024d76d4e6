/-
# ShellScript.Proofs.Visiting -- a visitor records what a walk comes to

A walk goes everywhere, parents before children.  A visitor asks at every piece whether to record
it and whether to go on below it, and hands on what is recorded from child to child.  Both meet
the same pieces in the same order: what the visitor records is the walk without anything below
a handler that stops, and of the rest what has a handler (`visit_follows_walk`).

Equal pieces may stand in two places of a tree, one of them below a handler that stops and one
not.  So what is left out is said of places, and an `Occurrence` is a piece of the walk with the
pieces above it.
-/
import Mathlib.Data.List.Chain
import ShellScript.Tree.Visitor

namespace ShellScript

set_option autoImplicit false

/-! ## The places of a walk -/

/-- A piece where it stands in a tree: below the pieces `above`, the nearest first. -/
structure Occurrence where
  above : List Node
  node : Node

/-- From the piece up to `root`, each piece is a child of the next. -/
def Occurrence.LeadsTo (o : Occurrence) (root : Node) : Prop :=
  (o.node :: o.above).IsChain (fun child parent => child ∈ parent.children) ∧
    (o.node :: o.above).getLast? = some root

namespace Node

/-- The walk from a piece that stands below `above`, place by place. -/
def occurrences (above : List Node) (n : Node) : List Occurrence :=
  ⟨above, n⟩ :: n.children.attach.flatMap fun c => occurrences (n :: above) c.1
termination_by sizeOf n
decreasing_by exact sizeOf_lt c.2

theorem occurrences_eq (above : List Node) (n : Node) :
    n.occurrences above = ⟨above, n⟩ :: n.children.flatMap (occurrences (n :: above)) := by
  rw [occurrences]
  congr 1
  rw [List.flatMap_subtype (g := occurrences (n :: above)) fun _ _ => rfl, List.unattach_attach]

/-- The places of a walk hold the pieces of the walk. -/
theorem map_node_occurrences (above : List Node) (n : Node) :
    (n.occurrences above).map Occurrence.node = n.walk := by
  rw [occurrences_eq, walk_eq, List.map_cons, List.map_flatMap]
  congr 1
  refine List.flatMap_congr fun c child => ?_
  exact map_node_occurrences (n :: above) c
termination_by sizeOf n
decreasing_by exact sizeOf_lt child

/-- What stands above a piece stands above everything below it. -/
theorem suffix_above {above : List Node} {n : Node} {o : Occurrence}
    (member : o ∈ n.occurrences above) : above <:+ o.above := by
  rw [occurrences_eq] at member
  rcases List.mem_cons.1 member with rfl | member
  · exact List.suffix_rfl
  · obtain ⟨c, child, below⟩ := List.mem_flatMap.1 member
    exact (List.suffix_cons n above).trans (suffix_above below)
termination_by sizeOf n
decreasing_by exact sizeOf_lt child

/-- Every place below one that leads to the root leads there through it. -/
theorem leadsTo_of_mem {root : Node} {above : List Node} {n : Node} {o : Occurrence}
    (leads : Occurrence.LeadsTo ⟨above, n⟩ root) (member : o ∈ n.occurrences above) :
    o.LeadsTo root := by
  rw [occurrences_eq] at member
  rcases List.mem_cons.1 member with rfl | member
  · exact leads
  · obtain ⟨c, child, below⟩ := List.mem_flatMap.1 member
    refine leadsTo_of_mem ⟨?_, ?_⟩ below
    · exact List.isChain_cons_cons.2 ⟨child, leads.1⟩
    · rw [List.getLast?_cons_cons]
      exact leads.2
termination_by sizeOf n
decreasing_by exact sizeOf_lt child

end Node

/-! ## What is left of a walk -/

namespace Visitor

variable (v : Visitor)

/-- Whether the visitor has a handler for a piece. -/
def handles (n : Node) : Bool := (v.handler n.tag).isSome

/-- Whether the handler for a piece stops there. -/
def stopsAt (n : Node) : Bool := v.handler n.tag = some .stop

/-- Some places without those below a handler that stops, and of these the pieces that have a
handler. -/
def kept (os : List Occurrence) : List Node :=
  ((os.filter fun o => !o.above.any v.stopsAt).map Occurrence.node).filter v.handles

theorem kept_append (os ps : List Occurrence) : v.kept (os ++ ps) = v.kept os ++ v.kept ps := by
  simp [kept]

theorem kept_flatMap (ns : List Node) (f : Node → List Occurrence) :
    v.kept (ns.flatMap f) = ns.flatMap fun n => v.kept (f n) := by
  induction ns with
  | nil => rfl
  | cons n ns ih => rw [List.flatMap_cons, List.flatMap_cons, kept_append, ih]

/-- Below a handler that stops nothing is left. -/
theorem kept_eq_nil {os : List Occurrence} (stopped : ∀ o ∈ os, o.above.any v.stopsAt = true) :
    v.kept os = [] := by
  have none_left : (os.filter fun o => !o.above.any v.stopsAt) = [] := by
    refine List.filter_eq_nil_iff.2 fun o member => ?_
    simp [stopped o member]
  rw [kept, none_left]
  rfl

/-- What is left of a walk from a piece: the piece, if it has a handler, and what is left of the
walks from its children, unless the handler stops. -/
theorem kept_occurrences {above : List Node} (free : above.any v.stopsAt = false) (n : Node) :
    v.kept (n.occurrences above) =
      match v.handler n.tag with
      | none => n.children.flatMap fun c => v.kept (c.occurrences (n :: above))
      | some .descend => n :: n.children.flatMap fun c => v.kept (c.occurrences (n :: above))
      | some .stop => [n] := by
  have here : v.kept [⟨above, n⟩] = if v.handles n then [n] else [] := by
    simp [kept, free, List.filter_cons]
  rw [Node.occurrences_eq, ← List.singleton_append, kept_append, here]
  cases handler : v.handler n.tag with
  | none =>
    rw [kept_flatMap]
    simp [handles, handler]
  | some descent =>
    cases descent with
    | descend =>
      rw [kept_flatMap]
      simp [handles, handler]
    | stop =>
      have below : v.kept (n.children.flatMap (Node.occurrences (n :: above))) = [] := by
        refine v.kept_eq_nil fun o member => ?_
        obtain ⟨c, -, member⟩ := List.mem_flatMap.1 member
        have isAbove := (Node.suffix_above member).subset List.mem_cons_self
        exact List.any_eq_true.2 ⟨n, isAbove, by simp [stopsAt, handler]⟩
      simp [below, handles, handler]

/-! ## The visit -/

/-- Visits that each add some pieces add them one behind another. -/
theorem visitAll_eq {ns : List Node} {f : Node → List Node}
    (adds : ∀ c ∈ ns, ∀ seen, (v.visit c seen).2 = seen ++ f c) (seen : List Node) :
    v.visitAll ns seen = seen ++ ns.flatMap f := by
  induction ns generalizing seen with
  | nil => simp [visitAll]
  | cons c ns ih =>
    have others := ih (fun d member => adds d (List.mem_cons_of_mem c member)) (seen ++ f c)
    rw [visitAll, List.foldl_cons, adds c List.mem_cons_self, ← visitAll, others,
      List.flatMap_cons, List.append_assoc]

/-- A visit adds what is left of the walk to what was recorded before. -/
theorem visit_snd {above : List Node} (free : above.any v.stopsAt = false) (n : Node)
    (seen : List Node) : (v.visit n seen).2 = seen ++ v.kept (n.occurrences above) := by
  have below (goes_on : v.stopsAt n = false) (seen : List Node) : v.visitAll n.children seen =
      seen ++ n.children.flatMap fun c => v.kept (c.occurrences (n :: above)) := by
    refine v.visitAll_eq (fun c child seen => ?_) seen
    exact visit_snd (by simp [goes_on, free]) c seen
  rw [visit_eq, kept_occurrences v free]
  cases handler : v.handler n.tag with
  | none => exact below (by simp [stopsAt, handler]) seen
  | some descent =>
    cases descent with
    | descend =>
      show v.visitAll n.children (seen ++ [n]) = _
      rw [below (by simp [stopsAt, handler]), List.append_assoc]
      rfl
    | stop => rfl
termination_by sizeOf n
decreasing_by exact Node.sizeOf_lt child

/-- A visit has the result of the handler for the piece itself, which is the first to record. -/
theorem visit_fst (n : Node) (seen : List Node) :
    (v.visit n seen).1 = (v.handler n.tag).map fun _ => seen.length + 1 := by
  rw [visit_eq]
  cases v.handler n.tag with
  | none => rfl
  | some descent => cases descent <;> rfl

end Visitor

/-- **A visitor records what a walk comes to.**  The places of a walk hold its pieces, and each
leads up to the piece where the walk starts.  A visitor records what is left of them without the
places below a handler that stops, and then without the pieces that have no handler.  The result
of the visit is that of the handler for the piece where it starts, the first to record, and there
is none if that has no handler.  So it is also for a visitor that has recorded something before. -/
theorem visit_follows_walk (v : Visitor) (n : Node) :
    (n.occurrences []).map Occurrence.node = n.walk ∧
      (∀ o ∈ n.occurrences [], o.LeadsTo n) ∧
      v.accept n = ((v.handler n.tag).map fun _ => 1, v.kept (n.occurrences [])) ∧
      ∀ seen, v.visit n seen =
        ((v.handler n.tag).map fun _ => seen.length + 1, seen ++ v.kept (n.occurrences [])) := by
  have root : Occurrence.LeadsTo ⟨[], n⟩ n := ⟨List.isChain_singleton n, rfl⟩
  have visits (seen : List Node) : v.visit n seen =
      ((v.handler n.tag).map fun _ => seen.length + 1, seen ++ v.kept (n.occurrences [])) :=
    Prod.ext (v.visit_fst n seen) (v.visit_snd rfl n seen)
  exact ⟨Node.map_node_occurrences [] n, fun o member => Node.leadsTo_of_mem root member,
    visits [], visits⟩

end ShellScript
