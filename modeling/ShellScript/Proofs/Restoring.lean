/-
# ShellScript.Proofs.Restoring -- plain data loses nothing

From the plain data of a piece the piece is restored, in whatever order the fields of its records
come.  All data that is equal to what a field holds is read as what the field stands for
(`Plain.ReadsAs`), and a record that tells all fields of a piece is read as the piece
(`readsAs_piece`).  So it is for every piece of a tree, by induction on the statements in it
(`readsAs_node`).

Two pieces with equal plain data are therefore equal in every field (`plain_loses_nothing`).  An
absent list is no empty one, an absent position is no position, and pieces of different kinds
have different tags.
-/
import Mathlib.Data.List.Forall2
import ShellScript.Proofs.Refusal
import ShellScript.Proofs.Tree.Restore

namespace ShellScript

set_option autoImplicit false

namespace Plain

open Value

/-! ## Data that is equal to something -/

variable {y : Plain}

@[simp] theorem same_null_iff : null.same y = true ↔ y = null := by
  cases y <;> simp [same]

@[simp] theorem same_bool_iff {b : Bool} : (bool b).same y = true ↔ y = bool b := by
  cases y <;> simp [same, eq_comm]

@[simp] theorem same_int_iff {i : Int} : (int i).same y = true ↔ y = int i := by
  cases y <;> simp [same, eq_comm]

@[simp] theorem same_text_iff {s : String} : (text s).same y = true ↔ y = text s := by
  cases y <;> simp [same, eq_comm]

theorem same_list_iff {xs : List Plain} :
    (list xs).same y = true ↔ ∃ ys, y = list ys ∧ sameAll xs ys = true := by
  cases y <;> simp [same]

theorem same_record_iff {fields : List (String × Plain)} :
    (record fields).same y = true ↔
      ∃ others, y = record others ∧ fields.length = others.length ∧
        sameFields fields others = true := by
  cases y <;> simp [same]

theorem sameAll_iff {xs ys : List Plain} :
    sameAll xs ys = true ↔ List.Forall₂ (fun x y => x.same y = true) xs ys := by
  induction xs generalizing ys with
  | nil => cases ys <;> simp [sameAll]
  | cons x xs ih => cases ys <;> simp [sameAll, ih]

theorem sameFields_iff {fields others : List (String × Plain)} :
    sameFields fields others = true ↔
      ∀ field ∈ fields, ∃ y, others.lookup field.1 = some y ∧ field.2.same y = true := by
  induction fields with
  | nil => simp [sameFields]
  | cons field fields ih => simp [sameFields, ih, Option.any_eq_true]

/-! ## Fields that are read as what they stand for -/

/-- All data equal to `x` is read as `a`. -/
def ReadsAs {α : Type} (f : Value → Option α) (x : Plain) (a : α) : Prop :=
  ∀ y, x.same y = true → f y.value = some a

section ReadsAs

variable {α : Type} {f : Value → Option α}

theorem readsAs_bool (b : Bool) : ReadsAs bool? (bool b) b := by
  intro y equal
  obtain rfl := same_bool_iff.1 equal
  rfl

theorem readsAs_int (i : Int) : ReadsAs int? (int i) i := by
  intro y equal
  obtain rfl := same_int_iff.1 equal
  rfl

theorem readsAs_text (s : String) : ReadsAs text? (text s) s := by
  intro y equal
  obtain rfl := same_text_iff.1 equal
  rfl

theorem readsAs_null : ReadsAs (orNull f) null none := by
  intro y equal
  obtain rfl := same_null_iff.1 equal
  rfl

/-- What no null is read as is present. -/
theorem ReadsAs.present {x : Plain} {a : α} (reads : ReadsAs f x a) (never : f .null = none) :
    ReadsAs (orNull f) x (some a) := by
  intro y equal
  have read := reads y equal
  cases found : y.value with
  | null =>
    rw [found, never] at read
    cases read
  | _ =>
    rw [found] at read
    simp [orNull, read]

theorem readsAs_ofOption {g : α → Plain} (each : ∀ a, ReadsAs f (g a) a) (never : f .null = none)
    (o : Option α) : ReadsAs (orNull f) (ofOption g o) o := by
  cases o with
  | none => exact readsAs_null
  | some a => exact (each a).present never

theorem readsAs_list {xs : List Plain} {as : List α} (each : List.Forall₂ (ReadsAs f) xs as) :
    ReadsAs (listOf f) (list xs) as := by
  intro y equal
  rw [same_list_iff] at equal
  obtain ⟨ys, rfl, equal⟩ := equal
  rw [sameAll_iff] at equal
  show (values ys).mapM f = some as
  induction each generalizing ys with
  | nil =>
    cases equal
    rfl
  | cons first _ ih =>
    cases equal with
    | @cons _ y _ ys here others => simp [values, first y here, ih ys others]

theorem readsAs_ofList {g : α → Plain} (each : ∀ a, ReadsAs f (g a) a) (as : List α) :
    ReadsAs (listOf f) (ofList g as) as := by
  refine readsAs_list (List.forall₂_map_left_iff.2 ?_)
  exact List.forall₂_same.2 fun a _ => each a

/-- What is read as a piece is read as a piece of its kind. -/
theorem ReadsAs.of_node {x : Plain} {n : Node} (reads : ReadsAs node? x n) {a : α}
    (kind : ∀ v, v.node? = some n → f v = some a) : ReadsAs f x a :=
  fun y equal => kind y.value (reads y equal)

end ReadsAs

/-! ## Records that tell their fields -/

/-- Whatever some fields of a record are read as is read from `get`. -/
def Fields.Tell (get : Fields) (fields : List (String × Plain)) : Prop :=
  ∀ {α : Type} (name : String) {f : Value → Option α} {x : Plain} {a : α},
    (name, x) ∈ fields → x.ReadsAs f a → get.read name f = some a

theorem Fields.Tell.field {get : Fields} {fields : List (String × Plain)} (tell : get.Tell fields)
    {α : Type} (name : String) {f : Value → Option α} {x : Plain} {a : α} (reads : x.ReadsAs f a)
    (member : (name, x) ∈ fields) : get.read name f = some a :=
  tell name member reads

theorem valueOf_eq (fields : List (String × Plain)) (name : String) :
    valueOf fields name = (fields.lookup name).map value := by
  induction fields with
  | nil => rfl
  | cons field fields ih =>
    obtain ⟨other, x⟩ := field
    rw [valueOf, List.lookup_cons]
    by_cases here : name = other
    · simp [here]
    · rw [if_neg here, ih, beq_false_of_ne here]

/-- A record that is equal to another tells the fields of that one. -/
theorem exists_tell {fields : List (String × Plain)} (equal : (record fields).same y = true) :
    ∃ get : Fields, get.Tell fields ∧ y.value = .record get.node get.span := by
  obtain ⟨others, rfl, -, equal⟩ := same_record_iff.1 equal
  refine ⟨valueOf others, fun name f x a member reads => ?_, rfl⟩
  obtain ⟨y, found, equal⟩ := sameFields_iff.1 equal _ member
  rw [Fields.read, valueOf_eq, found]
  exact reads y equal

theorem readsAs_span (s : Span) : ReadsAs span? s.plain s := by
  intro y equal
  obtain ⟨get, tell, value⟩ := exists_tell equal
  have startOffset := tell.field "start_offset" (readsAs_int s.startOffset) (by simp)
  have endOffset := tell.field "end_offset" (readsAs_int s.endOffset) (by simp)
  have line := tell.field "line" (readsAs_int s.line) (by simp)
  have column := tell.field "column" (readsAs_int s.column) (by simp)
  simp [value, span?, Fields.span, startOffset, endOffset, line, column]

theorem Fields.Tell.position {get : Fields} {fields : List (String × Plain)}
    (tell : get.Tell fields) (p : Option Span) (member : ("position", Plain.position p) ∈ fields) :
    get.position = some p :=
  tell "position" member (readsAs_ofOption readsAs_span rfl p)

/-- A record is read as the piece that is made of the fields it tells. -/
theorem readsAs_piece {tag : Tag} {fields : List (String × Plain)} {n : Node}
    (made : ∀ get : Fields, get.Tell fields → get.nodeOf tag = some n) :
    ReadsAs node? (piece tag fields) n := by
  intro y equal
  obtain ⟨get, tell, value⟩ := exists_tell equal
  have type := tell.field "type" (readsAs_text tag.name) (by simp)
  have node := made get fun name _ _ _ member reads =>
    tell name (List.mem_cons_of_mem _ member) reads
  simp [value, node?, Fields.node, type, Tag.ofName?_name, node]

/-! ## Pieces -/

theorem readsAs_expr_node (e : Expr) : ReadsAs node? e.plain (.expr e) := by
  cases e with
  | literal value quoted p =>
    refine readsAs_piece fun get tell => ?_
    have value := tell.field "value" (readsAs_text value) (by simp)
    have quoted := tell.field "quoted" (readsAs_bool quoted) (by simp)
    simp [Fields.nodeOf, value, quoted, tell.position p (by simp)]
  | reference name p =>
    refine readsAs_piece fun get tell => ?_
    have name := tell.field "name" (readsAs_text name) (by simp)
    simp [Fields.nodeOf, name, tell.position p (by simp)]

theorem readsAs_expr (e : Expr) : ReadsAs expr? e.plain e :=
  (readsAs_expr_node e).of_node fun v node => by simp [expr?, node]

theorem readsAs_exprs (es : List Expr) : ReadsAs (listOf expr?) (ofList Expr.plain es) es :=
  readsAs_ofList readsAs_expr es

theorem readsAs_redirection_node (r : Redirection) : ReadsAs node? r.plain (.redirection r) := by
  refine readsAs_piece fun get tell => ?_
  have operator := tell.field "operator" (readsAs_text r.operator) (by simp)
  have target := tell.field "target" (readsAs_expr r.target) (by simp)
  simp [Fields.nodeOf, operator, target, tell.position r.position (by simp)]

theorem readsAs_redirection (r : Redirection) : ReadsAs redirection? r.plain r :=
  (readsAs_redirection_node r).of_node fun v node => by simp [redirection?, node]

theorem readsAs_command_node (c : Command) : ReadsAs node? c.plain (.command c) := by
  refine readsAs_piece fun get tell => ?_
  have name := tell.field "name" (readsAs_text c.name) (by simp)
  have args := tell.field "args" (readsAs_ofList readsAs_text c.args) (by simp)
  have arguments := tell.field "arguments" (readsAs_exprs c.arguments) (by simp)
  have redirections := tell.field "redirections"
    (readsAs_ofList readsAs_redirection c.redirections) (by simp)
  simp [Fields.nodeOf, name, args, arguments, redirections, tell.position c.position (by simp)]

theorem readsAs_command (c : Command) : ReadsAs command? c.plain c :=
  (readsAs_command_node c).of_node fun v node => by
    simp [command?, statement?, node, Node.command]

theorem ReadsAs.statement {x : Plain} {s : Statement} (reads : ReadsAs node? x (.statement s)) :
    ReadsAs statement? x s :=
  reads.of_node fun v node => by simp [statement?, node]

mutual

theorem readsAs_statement_node : (s : Statement) → ReadsAs node? s.plain (.statement s)
  | .command c => readsAs_command_node c
  | .pipeline first second others p => by
    refine readsAs_piece fun get tell => ?_
    have commands := tell.field "commands"
      (readsAs_ofList readsAs_command (first :: second :: others)) (by simp)
    simp [Fields.nodeOf, commands, tell.position p (by simp), Statement.pipelineOf, Except.toOption]
  | .conditional condition args thenBody none p => by
    refine readsAs_piece fun get tell => ?_
    have condition := tell.field "condition" (readsAs_expr condition) (by simp)
    have thenBody := tell.field "then_body" (readsAs_list (readsAs_statements thenBody)) (by simp)
    have elseBody := tell.field "else_body" (readsAs_null (f := listOf statement?)) (by simp)
    have args := tell.field "condition_args" (readsAs_exprs args) (by simp)
    simp [Fields.nodeOf, condition, thenBody, elseBody, args, tell.position p (by simp)]
  | .conditional condition args thenBody (some elseBody) p => by
    refine readsAs_piece fun get tell => ?_
    have condition := tell.field "condition" (readsAs_expr condition) (by simp)
    have thenBody := tell.field "then_body" (readsAs_list (readsAs_statements thenBody)) (by simp)
    have elseBody := tell.field "else_body"
      ((readsAs_list (readsAs_statements elseBody)).present rfl) (by simp)
    have args := tell.field "condition_args" (readsAs_exprs args) (by simp)
    simp [Fields.nodeOf, condition, thenBody, elseBody, args, tell.position p (by simp)]
  | .loop header args items body p => by
    refine readsAs_piece fun get tell => ?_
    have kind := tell.field "kind" (readsAs_text header.kind) (by simp)
    have name := tell.field "variable" (readsAs_ofOption readsAs_text rfl header.name?) (by simp)
    have iterable := tell.field "iterable"
      (readsAs_ofOption readsAs_expr rfl header.iterable?) (by simp)
    have condition := tell.field "condition"
      (readsAs_ofOption readsAs_expr rfl header.condition?) (by simp)
    have args := tell.field "condition_args" (readsAs_exprs args) (by simp)
    have items := tell.field "items" (readsAs_exprs items) (by simp)
    have body := tell.field "body" (readsAs_list (readsAs_statements body)) (by simp)
    simp [Fields.nodeOf, kind, name, iterable, condition, header.ofParts_self, Except.toOption,
      args, items, body, tell.position p (by simp)]
  | .function name body p => by
    refine readsAs_piece fun get tell => ?_
    have name := tell.field "name" (readsAs_text name) (by simp)
    have body := tell.field "body" (readsAs_list (readsAs_statements body)) (by simp)
    simp [Fields.nodeOf, name, body, tell.position p (by simp)]
  | .assignment name value p => by
    refine readsAs_piece fun get tell => ?_
    have name := tell.field "name" (readsAs_text name) (by simp)
    have value := tell.field "value" (readsAs_expr value) (by simp)
    simp [Fields.nodeOf, name, value, tell.position p (by simp)]

theorem readsAs_statements : (ss : List Statement) →
    List.Forall₂ (ReadsAs statement?) (Statement.plainAll ss) ss
  | [] => .nil
  | s :: ss => .cons (readsAs_statement_node s).statement (readsAs_statements ss)

end

/-- All data equal to that of a piece is read as the piece. -/
theorem readsAs_node (n : Node) : ReadsAs node? n.plain n := by
  cases n with
  | program p =>
    refine readsAs_piece fun get tell => ?_
    have body := tell.field "body"
      (readsAs_ofList (fun s => (readsAs_statement_node s).statement) p.body) (by simp)
    simp [Fields.nodeOf, body, tell.position p.position (by simp)]
  | statement s => exact readsAs_statement_node s
  | redirection r => exact readsAs_redirection_node r
  | expr e => exact readsAs_expr_node e

/-! ## Data that is equal to itself -/

theorem lookup_of_mem {fields : List (String × Plain)} (names : (fields.map Prod.fst).Nodup)
    {field : String × Plain} (member : field ∈ fields) :
    fields.lookup field.1 = some field.2 := by
  induction fields with
  | nil => cases member
  | cons first fields ih =>
    obtain ⟨fresh, names⟩ := List.nodup_cons.1 names
    rw [List.lookup_cons]
    rcases List.mem_cons.1 member with rfl | member
    · simp
    · have other : field.1 ≠ first.1 := fun same => fresh (same ▸ List.mem_map_of_mem member)
      rw [beq_false_of_ne other]
      exact ih names member

/-- A record in which no two fields have one name equals itself if its fields do. -/
theorem same_record {fields : List (String × Plain)}
    (each : ∀ field ∈ fields, field.2.same field.2 = true)
    (names : (fields.map Prod.fst).Nodup) :
    (record fields).same (record fields) = true := by
  refine same_record_iff.2 ⟨fields, rfl, rfl, sameFields_iff.2 fun field member => ?_⟩
  exact ⟨field.2, lookup_of_mem names member, each field member⟩

theorem same_list {xs : List Plain} (each : ∀ x ∈ xs, x.same x = true) :
    (list xs).same (list xs) = true :=
  same_list_iff.2 ⟨xs, rfl, sameAll_iff.2 (List.forall₂_same.2 each)⟩

@[simp] theorem same_ofList {α : Type} {g : α → Plain} (each : ∀ a, (g a).same (g a) = true)
    (as : List α) : (ofList g as).same (ofList g as) = true := by
  refine same_list fun x member => ?_
  obtain ⟨a, -, rfl⟩ := List.mem_map.1 member
  exact each a

@[simp] theorem same_ofOption {α : Type} {g : α → Plain} (each : ∀ a, (g a).same (g a) = true)
    (o : Option α) : (ofOption g o).same (ofOption g o) = true := by
  cases o with
  | none => rfl
  | some a => exact each a

@[simp] theorem same_position (p : Option Span) : (position p).same (position p) = true :=
  same_ofOption (fun _ => same_record (by simp) (by simp)) p

@[simp] theorem same_expr (e : Expr) : e.plain.same e.plain = true := by
  cases e <;> exact same_record (by simp) (by simp)

@[simp] theorem same_redirection (r : Redirection) : r.plain.same r.plain = true :=
  same_record (by simp) (by simp)

@[simp] theorem same_command (c : Command) : c.plain.same c.plain = true :=
  same_record (by simp) (by simp)

mutual

theorem same_statement : (s : Statement) → s.plain.same s.plain = true
  | .command c => same_command c
  | .pipeline first second others p => same_record (by simp) (by simp)
  | .conditional condition args thenBody none p =>
    same_record (by simp [same_list (same_statements thenBody)]) (by simp)
  | .conditional condition args thenBody (some elseBody) p =>
    same_record
      (by simp [same_list (same_statements thenBody), same_list (same_statements elseBody)])
      (by simp)
  | .loop header args items body p =>
    same_record (by simp [same_list (same_statements body)]) (by simp)
  | .function name body p =>
    same_record (by simp [same_list (same_statements body)]) (by simp)
  | .assignment name value p => same_record (by simp) (by simp)

theorem same_statements : (ss : List Statement) → ∀ x ∈ Statement.plainAll ss, x.same x = true
  | [] => fun _ member => absurd member List.not_mem_nil
  | s :: ss => List.forall_mem_cons.2 ⟨same_statement s, same_statements ss⟩

end

theorem same_node (n : Node) : n.plain.same n.plain = true := by
  cases n with
  | program p => exact same_record (by simp [same_statement]) (by simp)
  | statement s => exact same_statement s
  | redirection r => exact same_redirection r
  | expr e => exact same_expr e

end Plain

/-- **Plain data loses nothing.**  Every piece of a tree is restored from its plain data.  So no
two pieces have the same plain data, nor plain data that differs in the order of fields only. -/
theorem plain_loses_nothing :
    (∀ n : Node, Node.ofPlain? n.plain = some n) ∧ Function.Injective Node.plain ∧
      ∀ n m : Node, n.plain.same m.plain = true ↔ n = m := by
  have restores (n m : Node) (equal : n.plain.same m.plain = true) :
      Node.ofPlain? m.plain = some n := Plain.readsAs_node n m.plain equal
  have back (n : Node) : Node.ofPlain? n.plain = some n := restores n n (Plain.same_node n)
  refine ⟨back, fun n m equal => ?_, fun n m => ⟨fun equal => ?_, ?_⟩⟩
  · have restored := back n
    rw [equal, back m] at restored
    exact (Option.some.inj restored).symm
  · exact Option.some.inj ((restores n m equal).symm.trans (back m))
  · rintro rfl
    exact Plain.same_node n

end ShellScript
