/-
# ShellScript.Proofs.Tree.Restore -- a piece of a tree from plain data

Plain data is equal to other plain data if it says the same, and the fields of a record have no
order in that (`Plain.same`).

`Node.ofPlain?` reads a piece of a tree from plain data.  It goes through the data from the inside
out and reads every record both ways: as that of a piece, by its tag, and as that of a span.  The
fields of a record are looked up by name, and what is read where decides what may stand there
(`Plain.Fields.nodeOf`).  Pipelines and loops are put together from their parts as those of a
tree that is built by hand, so nothing is restored that could not be built.
-/
import ShellScript.Tree.Checked
import ShellScript.Tree.Plain

namespace ShellScript

set_option autoImplicit false

/-- The tag with a printed name. -/
def Tag.ofName? (name : String) : Option Tag := Tag.all.find? (·.name = name)

theorem Tag.ofName?_name (tag : Tag) : ofName? tag.name = some tag := by
  cases tag <;> decide

namespace Plain

/-! ## Equal data -/

mutual

/-- Whether plain data is equal, whatever the order of the fields in its records. -/
def same : Plain → Plain → Bool
  | null, null => true
  | bool a, bool b => a = b
  | int i, int j => i = j
  | text s, text t => s = t
  | list xs, list ys => sameAll xs ys
  | record fields, record others =>
      fields.length = others.length && sameFields fields others
  | _, _ => false

/-- Whether two lists of plain data are equal item by item. -/
def sameAll : List Plain → List Plain → Bool
  | [], [] => true
  | x :: xs, y :: ys => same x y && sameAll xs ys
  | _, _ => false

/-- Whether the first fields are all found among the others, by name and with equal data. -/
def sameFields : List (String × Plain) → List (String × Plain) → Bool
  | [], _ => true
  | (name, x) :: fields, others => (others.lookup name).any (same x) && sameFields fields others

end

/-! ## Data read back -/

/-- Plain data as it is read: a record may be that of a piece or that of a span. -/
inductive Value where
  | null
  | bool (b : Bool)
  | int (i : Int)
  | text (s : String)
  | list (items : List Value)
  | record (piece : Option Node) (span : Option Span)

namespace Value

/-- A truth value. -/
def bool? : Value → Option Bool
  | bool b => some b
  | _ => none

/-- A number. -/
def int? : Value → Option Int
  | int i => some i
  | _ => none

/-- A text. -/
def text? : Value → Option String
  | text s => some s
  | _ => none

/-- A record that is that of a span. -/
def span? : Value → Option Span
  | record _ s => s
  | _ => none

/-- A record that is that of a piece. -/
def node? : Value → Option Node
  | record n _ => n
  | _ => none

/-- A record that is that of an expression. -/
def expr? (v : Value) : Option Expr :=
  match v.node? with
  | some (.expr e) => some e
  | _ => none

/-- A record that is that of a redirection. -/
def redirection? (v : Value) : Option Redirection :=
  match v.node? with
  | some (.redirection r) => some r
  | _ => none

/-- A record that is that of a statement. -/
def statement? (v : Value) : Option Statement :=
  match v.node? with
  | some (.statement s) => some s
  | _ => none

/-- A record that is that of a command. -/
def command? (v : Value) : Option Command :=
  match v.statement? with
  | some (.command c) => some c
  | _ => none

/-- What may be absent. -/
def orNull {α : Type} (f : Value → Option α) : Value → Option (Option α)
  | null => some none
  | v => (f v).map some

/-- A list of items that are all read the same way. -/
def listOf {α : Type} (f : Value → Option α) : Value → Option (List α)
  | list items => items.mapM f
  | _ => none

end Value

/-- What the fields of a record hold. -/
abbrev Fields := String → Option Value

namespace Fields

open Value

variable (fields : Fields)

/-- A field, read in some way. -/
def read {α : Type} (name : String) (f : Value → Option α) : Option α := (fields name).bind f

/-- The position of a piece. -/
def position : Option (Option Span) := fields.read "position" (orNull span?)

/-- The span with these fields. -/
def span : Option Span := do
  return {
    startOffset := ← fields.read "start_offset" int?
    endOffset := ← fields.read "end_offset" int?
    line := ← fields.read "line" int?
    column := ← fields.read "column" int? }

/-- The piece with these fields, if it has the given tag. -/
def nodeOf : Tag → Option Node
  | .program => do
      let body ← fields.read "body" (listOf statement?)
      return .program ⟨body, ← fields.position⟩
  | .command => do
      let name ← fields.read "name" text?
      let args ← fields.read "args" (listOf text?)
      let arguments ← fields.read "arguments" (listOf expr?)
      let redirections ← fields.read "redirections" (listOf redirection?)
      return .command ⟨name, args, arguments, redirections, ← fields.position⟩
  | .pipeline => do
      let commands ← fields.read "commands" (listOf command?)
      let pipeline ← (Statement.pipelineOf commands (← fields.position)).toOption
      return .statement pipeline
  | .conditional => do
      let condition ← fields.read "condition" expr?
      let thenBody ← fields.read "then_body" (listOf statement?)
      let elseBody ← fields.read "else_body" (orNull (listOf statement?))
      let args ← fields.read "condition_args" (listOf expr?)
      return .statement (.conditional condition args thenBody elseBody (← fields.position))
  | .loop => do
      let kind ← fields.read "kind" text?
      let name ← fields.read "variable" (orNull text?)
      let iterable ← fields.read "iterable" (orNull expr?)
      let condition ← fields.read "condition" (orNull expr?)
      let header ← (LoopHeader.ofParts kind name iterable condition).toOption
      let args ← fields.read "condition_args" (listOf expr?)
      let items ← fields.read "items" (listOf expr?)
      let body ← fields.read "body" (listOf statement?)
      return .statement (.loop header args items body (← fields.position))
  | .function => do
      let name ← fields.read "name" text?
      let body ← fields.read "body" (listOf statement?)
      return .statement (.function name body (← fields.position))
  | .assignment => do
      let name ← fields.read "name" text?
      let value ← fields.read "value" expr?
      return .statement (.assignment name value (← fields.position))
  | .redirection => do
      let operator ← fields.read "operator" text?
      let target ← fields.read "target" expr?
      return .redirection ⟨operator, target, ← fields.position⟩
  | .literal => do
      let value ← fields.read "value" text?
      let quoted ← fields.read "quoted" bool?
      return .expr (.literal value quoted (← fields.position))
  | .reference => do
      let name ← fields.read "name" text?
      return .expr (.reference name (← fields.position))

/-- The piece with these fields. -/
def node : Option Node := do
  let tag ← Tag.ofName? (← fields.read "type" text?)
  fields.nodeOf tag

end Fields

mutual

/-- Plain data, read. -/
def value : Plain → Value
  | null => .null
  | bool b => .bool b
  | int i => .int i
  | text s => .text s
  | list items => .list (values items)
  | record fields => .record (valueOf fields).node (valueOf fields).span

/-- A list of plain data, read item by item. -/
def values : List Plain → List Value
  | [] => []
  | x :: xs => value x :: values xs

/-- Some fields, read where they are asked for. -/
def valueOf : List (String × Plain) → Fields
  | [], _ => none
  | (name, x) :: fields, wanted =>
      if wanted = name then some (value x) else valueOf fields wanted

end

end Plain

/-- The piece that plain data tells of. -/
def Node.ofPlain? (d : Plain) : Option Node := d.value.node?

end ShellScript
