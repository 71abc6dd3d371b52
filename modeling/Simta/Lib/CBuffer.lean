import Mathlib.Data.List.ReduceOption

/-!
# Strings in a buffer

A buffer of characters in which strings are cut in place; `none` is a NUL.

* `cells`, `cString` — the buffer of a text with its NUL, and the string at an offset of a buffer;
* `cString_cut`, `cells_restore` — a NUL in the text cuts it, and the character put back restores the buffer.
-/

set_option autoImplicit false

namespace Simta

variable {α : Type}

/-- The string that a buffer begins with. -/
def headString (buf : List (Option α)) : List α := (buf.takeWhile Option.isSome).reduceOption

/-- The string at an offset. -/
def cString (buf : List (Option α)) (offset : Nat) : List α := headString (buf.drop offset)

/-- A text and its NUL. -/
def cells (t : List α) : List (Option α) := t.map some ++ [none]

@[simp] theorem length_cells (t : List α) : (cells t).length = t.length + 1 := by simp [cells]

theorem cString_append (pre buf : List (Option α)) : cString (pre ++ buf) pre.length = headString buf := by
  unfold cString
  rw [List.drop_left]

theorem headString_map (buf : List (Option α)) : ∀ t : List α, headString (t.map some ++ buf) = t ++ headString buf
  | [] => rfl
  | c :: t => congrArg (c :: ·) (headString_map buf t)

@[simp] theorem headString_nul (buf : List (Option α)) : headString (none :: buf) = [] := rfl

@[simp] theorem headString_cells (t : List α) : headString (cells t) = t := by
  rw [cells, headString_map, headString_nul, List.append_nil]

theorem drop_cells {t : List α} {i : Nat} (h : i ≤ t.length) : (cells t).drop i = cells (t.drop i) := by
  unfold cells
  rw [List.drop_append_of_le_length (by rwa [List.length_map]), List.map_drop]

theorem set_cells {t : List α} {i : Nat} (h : i < t.length) (x : Option α) :
    (cells t).set i x = (t.take i).map some ++ x :: cells (t.drop (i + 1)) := by
  rw [List.set_eq_take_append_cons_drop, if_pos (by rw [length_cells]; omega), drop_cells h]
  unfold cells
  rw [List.take_append_of_le_length (by rw [List.length_map]; omega), List.map_take]

@[simp] theorem set_cells_length (t : List α) : (cells t).set t.length none = cells t := by
  unfold cells
  rw [← List.length_map (f := some), List.set_append_right _ _ (Nat.le_refl _), Nat.sub_self]
  rfl

/-- A NUL in the text cuts it. -/
theorem headString_cut {t : List α} {i : Nat} (h : i < t.length) : headString ((cells t).set i none) = t.take i := by
  rw [set_cells h, headString_map, headString_nul, List.append_nil]

/-- A string of a buffer that is cut behind it. -/
theorem cString_cut {t : List α} {offset i : Nat} (hoffset : offset ≤ i) (h : i ≤ t.length) :
    cString ((cells t).set i none) offset = (t.take i).drop offset := by
  unfold cString
  rw [List.drop_set, if_neg (by omega), drop_cells (by omega)]
  obtain h | rfl := Nat.lt_or_eq_of_le h
  · rw [headString_cut (by rw [List.length_drop]; omega), List.drop_take]
  · rw [← List.length_drop, set_cells_length, headString_cells, List.take_length]

/-- The character put back. -/
theorem cells_restore {t : List α} {i : Nat} {c : α} (h : t[i]? = some c) (x : Option α) :
    ((cells t).set i x).set i (some c) = cells t := by
  have hlt : i < t.length := (List.getElem?_eq_some_iff.mp h).choose
  have hcell : (cells t)[i]? = some (some c) := by
    rw [cells, List.getElem?_append_left (by rwa [List.length_map]), List.getElem?_map, h]
    rfl
  obtain ⟨hi, hget⟩ := List.getElem?_eq_some_iff.mp hcell
  rw [List.set_set, ← hget, List.set_getElem_self]

end Simta
