/-
# ShellScript.Proofs.Text.Edit -- a distance is the least number of edits

An edit puts one character in, takes one out or replaces one, anywhere in a text (`Edit`), and
edits lead from one text to another (`Edits`).  `Text.distance` is the least number of them
that do (`isLeast_distance`), and so it is a metric.

`least` says the same by recursion on the first characters.  It is attained (`edits_least`),
and it is a lower bound because one edit changes it by one at most, whatever text is to be
reached (`Edit.least_le`).  The cells that the program computes are those of `least` for
beginnings read backwards (`cells_row`); edits may be read backwards, and undone, so neither
that nor the order of the two texts matters.
-/
import Mathlib.Order.Bounds.Basic
import Mathlib.Order.MinMax
import ShellScript.Spelling

namespace ShellScript.Text

set_option autoImplicit false

/-- One edit of one character. -/
inductive Edit : List Char → List Char → Prop
  | insert (front : List Char) (c : Char) (back : List Char) :
      Edit (front ++ back) (front ++ c :: back)
  | delete (front : List Char) (c : Char) (back : List Char) :
      Edit (front ++ c :: back) (front ++ back)
  | replace (front : List Char) (c d : Char) (back : List Char) :
      Edit (front ++ c :: back) (front ++ d :: back)

/-- So many edits, one after another. -/
inductive Edits : Nat → List Char → List Char → Prop
  | none (a : List Char) : Edits 0 a a
  | more {n : Nat} {a b c : List Char} (first : Edit a b) (others : Edits n b c) :
      Edits (n + 1) a c

/-! ## Edits -/

namespace Edit

variable {a b : List Char}

theorem symm (edit : Edit a b) : Edit b a := by
  cases edit with
  | insert front c back => exact .delete front c back
  | delete front c back => exact .insert front c back
  | replace front c d back => exact .replace front d c back

theorem cons (x : Char) (edit : Edit a b) : Edit (x :: a) (x :: b) := by
  cases edit with
  | insert front c back => exact .insert (x :: front) c back
  | delete front c back => exact .delete (x :: front) c back
  | replace front c d back => exact .replace (x :: front) c d back

theorem reverse (edit : Edit a b) : Edit a.reverse b.reverse := by
  cases edit with
  | insert front c back => simpa using Edit.insert back.reverse c front.reverse
  | delete front c back => simpa using Edit.delete back.reverse c front.reverse
  | replace front c d back => simpa using Edit.replace back.reverse c d front.reverse

/-- Where every character has another one written for it, an edit stays one. -/
theorem map (f : Char → Char) (edit : Edit a b) : Edit (a.map f) (b.map f) := by
  cases edit with
  | insert front c back => simpa using Edit.insert (front.map f) (f c) (back.map f)
  | delete front c back => simpa using Edit.delete (front.map f) (f c) (back.map f)
  | replace front c d back => simpa using Edit.replace (front.map f) (f c) (f d) (back.map f)

/-- An edit makes a text longer by one character at most. -/
theorem length_le (edit : Edit a b) : b.length ≤ a.length + 1 := by
  cases edit <;> simp only [List.length_append, List.length_cons] <;> omega

end Edit

namespace Edits

variable {m n : Nat} {a b c : List Char}

theorem one (edit : Edit a b) : Edits 1 a b := .more edit (.none b)

theorem eq (edits : Edits 0 a b) : a = b := by
  cases edits
  rfl

theorem trans (first : Edits m a b) (second : Edits n b c) : Edits (m + n) a c := by
  induction first with
  | none => rwa [Nat.zero_add]
  | @more m _ _ _ edit _ ih =>
    rw [Nat.add_right_comm]
    exact .more edit (ih second)

/-- Edits may be carried over by a relation of texts that carries over each. -/
theorem lift {f : List Char → List Char} (each : ∀ {a b}, Edit a b → Edit (f a) (f b))
    (edits : Edits n a b) : Edits n (f a) (f b) := by
  induction edits with
  | none a => exact .none (f a)
  | more first _ ih => exact .more (each first) ih

theorem symm (edits : Edits n a b) : Edits n b a := by
  induction edits with
  | none a => exact .none a
  | more first _ ih => exact ih.trans (.one first.symm)

theorem reverse_iff : Edits n a.reverse b.reverse ↔ Edits n a b := by
  refine ⟨fun edits => ?_, lift Edit.reverse⟩
  have twice := edits.lift Edit.reverse
  rwa [List.reverse_reverse, List.reverse_reverse] at twice

/-- Edits make a text longer by no more than their number. -/
theorem length_le (edits : Edits n a b) : b.length ≤ a.length + n := by
  induction edits with
  | none => exact Nat.le_refl _
  | more first _ ih =>
    have := first.length_le
    omega

/-! ### One more edit at the front -/

theorem delete_first (x : Char) (edits : Edits n a b) : Edits (n + 1) (x :: a) b :=
  .more (.delete [] x a) edits

theorem insert_first (y : Char) (edits : Edits n a b) : Edits (n + 1) a (y :: b) :=
  edits.trans (.one (.insert [] y b))

theorem keep_first (x : Char) (edits : Edits n a b) : Edits n (x :: a) (x :: b) :=
  edits.lift (Edit.cons x)

theorem replace_first (x y : Char) (edits : Edits n a b) : Edits (n + 1) (x :: a) (y :: b) :=
  .more (.replace [] x y a) (edits.keep_first y)

end Edits

/-! ## The least number of edits -/

/-- The least number of edits between two texts: the first characters are deleted, inserted,
or stand for each other. -/
def least : List Char → List Char → Nat
  | [], b => b.length
  | _ :: a, [] => a.length + 1
  | x :: a, y :: b =>
      min (least a (y :: b) + 1) (min (least (x :: a) b + 1) (least a b + if x = y then 0 else 1))
termination_by a b => a.length + b.length

theorem least_nil (a : List Char) : least a [] = a.length := by
  cases a <;> simp [least]

theorem least_cons_cons (x y : Char) (a b : List Char) :
    least (x :: a) (y :: b) =
      min (least a (y :: b) + 1)
        (min (least (x :: a) b + 1) (least a b + if x = y then 0 else 1)) := by
  rw [least]

theorem least_self (a : List Char) : least a a = 0 := by
  induction a with
  | nil => simp [least]
  | cons x a ih => simp [least_cons_cons, ih]

/-- Every character may be replaced, and the rest of the longer text deleted or inserted. -/
theorem least_le_max (a b : List Char) : least a b ≤ max a.length b.length := by
  fun_induction least a b with
  | case1 b => exact Nat.le_max_right _ _
  | case2 x a => exact Nat.le_max_left _ _
  | case3 x a y b _ _ ih =>
    simp only [List.length_cons]
    split <;> omega

/-! ### It is attained -/

theorem edits_nil (b : List Char) : Edits b.length [] b := by
  induction b with
  | nil => exact .none []
  | cons y b ih => exact ih.insert_first y

theorem edits_least (a b : List Char) : Edits (least a b) a b := by
  fun_induction least a b with
  | case1 b => exact edits_nil b
  | case2 x a => exact (edits_nil (x :: a)).symm
  | case3 x a y b deleted inserted both =>
    have stands : Edits (least a b + if x = y then 0 else 1) (x :: a) (y :: b) := by
      split
      · next same => exact same ▸ both.keep_first x
      · exact both.replace_first x y
    rcases min_choice (least a (y :: b) + 1)
      (min (least (x :: a) b + 1) (least a b + if x = y then 0 else 1)) with eq | eq
    · rw [eq]
      exact deleted.delete_first x
    · rw [eq]
      rcases min_choice (least (x :: a) b + 1) (least a b + if x = y then 0 else 1) with eq | eq
      · rw [eq]
        exact inserted.insert_first y
      · rwa [eq]

/-! ### It is a lower bound -/

theorem least_insert_le (a : List Char) (y : Char) (c : List Char) :
    least a (y :: c) ≤ least a c + 1 := by
  cases a with
  | nil => simp [least]
  | cons x a =>
    rw [least_cons_cons]
    omega

theorem least_cons_le (x : Char) (a c : List Char) : least (x :: a) c ≤ least a c + 1 := by
  cases c with
  | nil => simp [least_nil]
  | cons y c =>
    rw [least_cons_cons]
    omega

theorem le_least_cons (x : Char) (a c : List Char) : least a c ≤ least (x :: a) c + 1 := by
  induction c with
  | nil =>
    rw [least_nil, least_nil, List.length_cons]
    omega
  | cons y c ih =>
    have := least_insert_le a y c
    rw [least_cons_cons]
    omega

theorem least_replace_le (x x' : Char) (a c : List Char) :
    least (x :: a) c ≤ least (x' :: a) c + 1 := by
  induction c with
  | nil => simp [least_nil]
  | cons y c ih =>
    rw [least_cons_cons, least_cons_cons]
    split <;> split <;> omega

/-- A change at the back is no greater behind one character more. -/
theorem least_cons_le_cons (x : Char) {a b : List Char}
    (behind : ∀ c, least a c ≤ least b c + 1) (c : List Char) :
    least (x :: a) c ≤ least (x :: b) c + 1 := by
  induction c with
  | nil =>
    have := behind []
    simp only [least_nil, List.length_cons] at this ⊢
    omega
  | cons y c ih =>
    have whole := behind (y :: c)
    have tail := behind c
    rw [least_cons_cons, least_cons_cons]
    omega

/-- One edit changes the least number by one at most. -/
theorem Edit.least_le {a b : List Char} (edit : Edit a b) (c : List Char) :
    least a c ≤ least b c + 1 := by
  have at_front (front : List Char) {a b : List Char} (here : ∀ c, least a c ≤ least b c + 1) :
      ∀ c, least (front ++ a) c ≤ least (front ++ b) c + 1 := by
    induction front with
    | nil => exact here
    | cons x front ih => exact least_cons_le_cons x ih
  cases edit with
  | insert front x back => exact at_front front (le_least_cons x back) c
  | delete front x back => exact at_front front (least_cons_le x back) c
  | replace front x y back => exact at_front front (least_replace_le x y back) c

theorem Edits.least_le {n : Nat} {a b : List Char} (edits : Edits n a b) : least a b ≤ n := by
  induction edits with
  | none a => exact Nat.le_of_eq (least_self a)
  | @more _ _ _ c first _ ih =>
    have := first.least_le c
    omega

theorem isLeast_least (a b : List Char) : IsLeast {n | Edits n a b} (least a b) :=
  ⟨edits_least a b, fun _ edits => edits.least_le⟩

/-! ## The rows -/

/-- The least numbers of edits from `a` to `seen`, and to it with each beginning of what comes
put in front, backwards. -/
def row (a seen : List Char) : List Char → List Nat
  | [] => [least a seen]
  | y :: ys => least a seen :: row a (y :: seen) ys

theorem row_eq_cons (a seen ys : List Char) :
    ∃ others, row a seen ys = least a seen :: others := by
  cases ys with
  | nil => exact ⟨[], rfl⟩
  | cons y ys => exact ⟨_, rfl⟩

theorem row_nil (seen ys : List Char) :
    row [] seen ys = List.range' seen.length (ys.length + 1) := by
  induction ys generalizing seen with
  | nil => simp [row, least]
  | cons y ys ih => simp [row, least, ih, List.range'_succ]

theorem getLast?_row (a seen ys : List Char) :
    (row a seen ys).getLast? = some (least a (ys.reverse ++ seen)) := by
  induction ys generalizing seen with
  | nil => rfl
  | cons y ys ih =>
    obtain ⟨others, next⟩ := row_eq_cons a (y :: seen) ys
    rw [row, next, List.getLast?_cons_cons, ← next, ih]
    simp

/-- The cells of a row come of the row before. -/
theorem cells_row (x : Char) (a seen ys : List Char) :
    least (x :: a) seen :: cells x ys (row a seen ys) (least (x :: a) seen) =
      row (x :: a) seen ys := by
  induction ys generalizing seen with
  | nil => rfl
  | cons y ys ih =>
    obtain ⟨others, next⟩ := row_eq_cons a (y :: seen) ys
    have cell := least_cons_cons x y a seen
    rw [row, row, ← ih, next]
    simp only [cells, cell]

/-- The rows behind that of the characters `a`, read backwards, are those of longer
beginnings. -/
theorem lastRow_row (b a others : List Char) :
    lastRow b a.length (row a [] b) others = row (others.reverse ++ a) [] b := by
  induction others generalizing a with
  | nil => rfl
  | cons x others ih =>
    have next := cells_row x a [] b
    rw [least_nil, List.length_cons] at next
    rw [lastRow, next, ← List.length_cons (a := x), ih]
    simp

theorem distanceFrom_eq (a b : List Char) : distanceFrom a b = least a.reverse b.reverse := by
  unfold distanceFrom
  split
  · next empty =>
    obtain rfl := List.isEmpty_iff.1 empty
    rw [List.reverse_nil, least_nil, List.length_reverse]
  · have first : row [] [] b = List.range (b.length + 1) := by
      rw [row_nil, List.range_eq_range', List.length_nil]
    have last := lastRow_row b [] a
    rw [List.length_nil, first, List.append_nil] at last
    rw [last, List.getLastD_eq_getLast?, getLast?_row, List.append_nil]
    rfl

/-! ## The distance -/

/-- The distance of two texts is the least number of edits that turn one into the other. -/
theorem isLeast_distance (a b : String) :
    IsLeast {n | Edits n a.toList b.toList} (distance a b) := by
  unfold distance
  split
  · rw [distanceFrom_eq]
    have swapped (n : Nat) : Edits n b.toList.reverse a.toList.reverse ↔ Edits n a.toList b.toList :=
      ⟨fun edits => Edits.reverse_iff.1 edits.symm, fun edits => Edits.reverse_iff.2 edits.symm⟩
    simpa only [swapped] using isLeast_least b.toList.reverse a.toList.reverse
  · rw [distanceFrom_eq]
    simpa only [Edits.reverse_iff] using isLeast_least a.toList.reverse b.toList.reverse

theorem distance_eq_least (a b : String) : distance a b = least a.toList b.toList :=
  (isLeast_distance a b).unique (isLeast_least a.toList b.toList)

theorem edits_distance (a b : String) : Edits (distance a b) a.toList b.toList :=
  (isLeast_distance a b).1

theorem Edits.distance_le {n : Nat} {a b : String} (edits : Edits n a.toList b.toList) :
    distance a b ≤ n :=
  (isLeast_distance a b).2 edits

theorem distance_comm (a b : String) : distance a b = distance b a :=
  Nat.le_antisymm (edits_distance b a).symm.distance_le (edits_distance a b).symm.distance_le

theorem distance_triangle (a b c : String) : distance a c ≤ distance a b + distance b c :=
  ((edits_distance a b).trans (edits_distance b c)).distance_le

theorem distance_eq_zero_iff (a b : String) : distance a b = 0 ↔ a = b := by
  constructor
  · intro zero
    exact String.toList_inj.1 (zero ▸ edits_distance a b).eq
  · rintro rfl
    exact Nat.le_zero.1 (Edits.none a.toList).distance_le

/-- **The distance of two texts is the least number of edits between them.**  So it is zero for
equal texts only, the same in both directions, and no longer than a way through a third text;
and it is at least the difference of their lengths and at most the greater of them. -/
theorem distance_counts_edits (a b c : String) :
    IsLeast {n | Edits n a.toList b.toList} (distance a b) ∧ (distance a b = 0 ↔ a = b) ∧
      distance a b = distance b a ∧ distance a c ≤ distance a b + distance b c ∧
      ((a.length : Int) - b.length).natAbs ≤ distance a b ∧
      distance a b ≤ max a.length b.length := by
  refine ⟨isLeast_distance a b, distance_eq_zero_iff a b, distance_comm a b,
    distance_triangle a b c, ?_, ?_⟩
  · have longer := (edits_distance a b).length_le
    have shorter := (edits_distance a b).symm.length_le
    simp only [String.length_toList] at longer shorter
    omega
  · rw [distance_eq_least]
    simpa only [String.length_toList] using least_le_max a.toList b.toList

end ShellScript.Text
