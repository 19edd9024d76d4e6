/-
# ShellScript.Tree.Equality -- equality of trees is decidable

Two trees are equal if they agree in every field, positions included.
`Statement.same` compares them part by part; `same_iff` says that it answers
equality, which makes equality of statements and of programs decidable.
-/
import ShellScript.Tree.Basic

namespace ShellScript

set_option autoImplicit false

namespace Statement

mutual

/-- Whether two statements agree in every field. -/
def same : Statement → Statement → Bool
  | command c, command c' => c = c'
  | pipeline a b cs p, pipeline a' b' cs' p' => a = a' && b = b' && cs = cs' && p = p'
  | conditional e args th none p, conditional e' args' th' none p' =>
      e = e' && args = args' && sameAll th th' && p = p'
  | conditional e args th (some el) p, conditional e' args' th' (some el') p' =>
      e = e' && args = args' && sameAll th th' && sameAll el el' && p = p'
  | loop h args items body p, loop h' args' items' body' p' =>
      h = h' && args = args' && items = items' && sameAll body body' && p = p'
  | function n body p, function n' body' p' => n = n' && sameAll body body' && p = p'
  | assignment n v p, assignment n' v' p' => n = n' && v = v' && p = p'
  | _, _ => false

/-- Whether two lists of statements agree one by one. -/
def sameAll : List Statement → List Statement → Bool
  | [], [] => true
  | s :: ss, t :: ts => same s t && sameAll ss ts
  | _, _ => false

end

mutual

theorem same_iff : (s t : Statement) → (same s t = true ↔ s = t)
  | command c, t => by cases t <;> simp [same]
  | pipeline a b cs p, t => by cases t <;> simp [same, and_assoc]
  | conditional e args th none p, t => by
      cases t with
      | conditional e' args' th' el' p' =>
        cases el' <;> simp [same, sameAll_iff th, and_assoc]
      | _ => simp [same]
  | conditional e args th (some el) p, t => by
      cases t with
      | conditional e' args' th' el' p' =>
        cases el' <;> simp [same, sameAll_iff th, sameAll_iff el, and_assoc]
      | _ => simp [same]
  | loop h args items body p, t => by cases t <;> simp [same, sameAll_iff body, and_assoc]
  | function n body p, t => by cases t <;> simp [same, sameAll_iff body, and_assoc]
  | assignment n v p, t => by cases t <;> simp [same, and_assoc]

theorem sameAll_iff : (ss ts : List Statement) → (sameAll ss ts = true ↔ ss = ts)
  | [], ts => by cases ts <;> simp [sameAll]
  | s :: ss, ts => by cases ts <;> simp [sameAll, same_iff s, sameAll_iff ss]

end

instance : DecidableEq Statement := fun s t => decidable_of_iff _ (same_iff s t)

end Statement

deriving instance DecidableEq for Program

end ShellScript
