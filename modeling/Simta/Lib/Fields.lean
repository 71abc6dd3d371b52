import Mathlib.Data.List.Basic

/-!
# The fields of a text

A text is a list of fields with separators between them; the first field is a prefix, and the last ones are a suffix.

* `field_inj` — a field that ends at a separator;
* `lastFields`, `fieldTail` — the last fields, and the suffix that they are written in;
* `lastFields_eq` — the suffix has just these fields;
* `fieldTail_unique` — what tells the suffix: it is the longest with that many separators.
-/

set_option autoImplicit false

namespace Simta

variable {α : Type} {sep : α} {n : Nat}

/-- A field without the separator ends at the first one. -/
theorem field_inj {x y u v : List α} (hx : sep ∉ x) (hy : sep ∉ y)
    (h : x ++ sep :: u = y ++ sep :: v) : x = y ∧ u = v := by
  induction x generalizing y with
  | nil =>
    cases y with
    | nil => exact ⟨rfl, (List.cons.inj h).2⟩
    | cons a y => exact absurd (List.mem_cons.mpr (.inl (List.cons.inj h).1)) hy
  | cons a x ih =>
    cases y with
    | nil => exact absurd (List.mem_cons.mpr (.inl (List.cons.inj h).1.symm)) hx
    | cons d y =>
      obtain ⟨rfl, hrest⟩ := List.cons.inj h
      obtain ⟨rfl, rfl⟩ := ih (fun hmem => hx (List.mem_cons_of_mem _ hmem))
        (fun hmem => hy (List.mem_cons_of_mem _ hmem)) hrest
      exact ⟨rfl, rfl⟩

variable [DecidableEq α]

/-- The last `n` fields, or all of them when there are fewer. -/
def lastFields (sep : α) (n : Nat) (x : List α) : List (List α) := (x.splitOn sep).drop ((x.splitOn sep).length - n)

/-- The longest suffix with less than `n` separators. -/
def fieldTail (sep : α) (n : Nat) : List α → List α
  | [] => []
  | c :: x => if (c :: x).count sep < n then c :: x else fieldTail sep n x

theorem length_splitOn (sep : α) (x : List α) : (x.splitOn sep).length = x.count sep + 1 := by
  induction x with
  | nil => rfl
  | cons c x ih =>
    rw [List.splitOn_cons_eq_if_modifyHead, List.count_cons]
    split
    · rw [List.length_cons, ih]
    · rw [List.length_modifyHead, ih]

theorem splitOn_injective {x y : List α} (h : x.splitOn sep = y.splitOn sep) : x = y := by
  have hx : [sep].intercalate (x.splitOn sep) = x := List.intercalate_splitOn sep
  rw [← hx, h, List.intercalate_splitOn]

/-- Fields of a text in another alphabet. -/
theorem splitOn_map {g : α → α} (hg : ∀ c, g c = sep ↔ c = sep) (x : List α) :
    (x.map g).splitOn sep = (x.splitOn sep).map (List.map g) := by
  induction x with
  | nil => rfl
  | cons c x ih =>
    rw [List.map_cons, List.splitOn_cons_eq_if_modifyHead, List.splitOn_cons_eq_if_modifyHead, ih]
    simp only [beq_iff_eq, hg]
    split
    · rfl
    · cases x.splitOn sep <;> rfl

theorem count_map_sep {g : α → α} (hg : ∀ c, g c = sep ↔ c = sep) (x : List α) : (x.map g).count sep = x.count sep := by
  induction x with
  | nil => rfl
  | cons c x ih =>
    rw [List.map_cons, List.count_cons, List.count_cons, ih]
    simp only [beq_iff_eq, hg]

/-! ## The suffix -/

theorem fieldTail_of_lt {x : List α} (h : x.count sep < n) : fieldTail sep n x = x := by
  cases x with
  | nil => rfl
  | cons c x => exact if_pos h

theorem fieldTail_cons {c : α} {x : List α} (h : n ≤ (c :: x).count sep) :
    fieldTail sep n (c :: x) = fieldTail sep n x := if_neg (by omega)

/-- What stands in front of enough separators does not matter. -/
theorem fieldTail_append {x y : List α} (h : n ≤ y.count sep) : fieldTail sep n (x ++ y) = fieldTail sep n y := by
  induction x with
  | nil => rfl
  | cons c x ih =>
    rw [List.cons_append, fieldTail_cons, ih]
    have hle := List.Sublist.count_le sep (List.sublist_append_right (c :: x) y)
    exact Nat.le_trans h hle

theorem count_fieldTail (hn : 1 ≤ n) (x : List α) :
    (fieldTail sep n x).count sep = min (x.count sep) (n - 1) := by
  induction x with
  | nil => exact (Nat.zero_min _).symm
  | cons c x ih =>
    by_cases hlt : (c :: x).count sep < n
    · rw [fieldTail_of_lt hlt, Nat.min_eq_left (by omega)]
    · rw [fieldTail_cons (by omega), ih]
      rw [List.count_cons] at hlt ⊢
      split at hlt
      · rename_i hc
        rw [if_pos hc]
        omega
      · rename_i hc
        rw [if_neg hc]
        omega

/-- **The suffix** begins behind a separator that it would have one too many with. -/
theorem fieldTail_unique {k : Nat} {x : List α} (hlt : (x.drop k).count sep < n)
    (hcut : k = 0 ∨ n ≤ (x.drop (k - 1)).count sep) : fieldTail sep n x = x.drop k := by
  rcases hcut with rfl | hcut
  · exact fieldTail_of_lt hlt
  · cases k with
    | zero => exact fieldTail_of_lt hlt
    | succ k =>
      rw [Nat.add_sub_cancel] at hcut
      conv_lhs => rw [← List.take_append_drop k x]
      rw [fieldTail_append hcut]
      rw [← List.tail_drop] at hlt ⊢
      cases hx : x.drop k with
      | nil => rfl
      | cons c y =>
        rw [hx] at hcut hlt
        rw [fieldTail_cons hcut]
        exact fieldTail_of_lt hlt

/-- **The last fields** are those of the suffix. -/
theorem lastFields_eq (hn : 1 ≤ n) (x : List α) : lastFields sep n x = (fieldTail sep n x).splitOn sep := by
  unfold lastFields
  induction x with
  | nil =>
    show [[]].drop (1 - n) = [[]]
    rw [Nat.sub_eq_zero_of_le hn]
    rfl
  | cons c x ih =>
    by_cases hlt : (c :: x).count sep < n
    · rw [fieldTail_of_lt hlt, length_splitOn, Nat.sub_eq_zero_of_le hlt]
      rfl
    · rw [fieldTail_cons (by omega), ← ih, length_splitOn, length_splitOn]
      rw [List.count_cons] at hlt ⊢
      rw [List.splitOn_cons_eq_if_modifyHead]
      split
      · rename_i hc
        rw [if_pos hc] at hlt
        rw [Nat.sub_add_comm (by omega), List.drop_succ_cons]
      · rename_i hc
        rw [if_neg hc] at hlt
        obtain ⟨k, hk⟩ : ∃ k, x.count sep + 1 - n = k + 1 := ⟨x.count sep - n, by omega⟩
        rw [Nat.add_zero, hk]
        cases x.splitOn sep <;> rfl

end Simta
