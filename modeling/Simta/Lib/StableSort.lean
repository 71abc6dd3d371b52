import Mathlib.Data.List.Induction
import Mathlib.Data.List.Pairwise
import Mathlib.Data.List.Sort
import Mathlib.Order.Basic

/-!
# Stable insertion

A list that is sorted by a key as its members come, each put behind those of its key.

* `stableSort`, `stableSort_concat` — the sorted list, and one more member;
* `Earlier` — the order that it has: by key, and for one key by place;
* `pairwise_stableSort_iff` — a relation holds along the sorted list iff it holds of all that are `Earlier`.
-/

set_option autoImplicit false

namespace Simta

variable {α κ : Type} [LinearOrder κ]

/-- The members of a list by key, each put behind those that came before it. -/
def stableSort (key : α → κ) (l : List α) : List α := l.reverse.insertionSort fun a b => key a < key b

/-- `a` has the smaller key, or the same key and the earlier place. -/
def Earlier (key : α → κ) (l : List α) (a b : α) : Prop := key a < key b ∨ key a = key b ∧ [a, b].Sublist l

variable {key : α → κ} {l : List α} {a b : α}

@[simp] theorem stableSort_nil : stableSort key ([] : List α) = [] := rfl

theorem stableSort_concat (l : List α) (a : α) :
    stableSort key (l ++ [a]) = (stableSort key l).orderedInsert (fun a b => key a < key b) a := by
  unfold stableSort
  rw [List.reverse_append]
  rfl

theorem perm_stableSort (key : α → κ) (l : List α) : (stableSort key l).Perm l :=
  (List.perm_insertionSort _ _).trans (List.reverse_perm l)

theorem mem_stableSort : a ∈ stableSort key l ↔ a ∈ l := (perm_stableSort key l).mem_iff

theorem Earlier.le (h : Earlier key l a b) : key a ≤ key b := by
  obtain h | ⟨h, -⟩ := h
  · exact h.le
  · exact h.le

theorem Earlier.append (h : Earlier key l a b) (l' : List α) : Earlier key (l ++ l') a b :=
  h.imp_right fun h => ⟨h.1, h.2.trans (List.sublist_append_left l l')⟩

theorem earlier_last (ha : a ∈ l) (h : key a ≤ key b) : Earlier key (l ++ [b]) a b := by
  obtain h | h := h.lt_or_eq
  · exact .inl h
  · exact .inr ⟨h, (List.singleton_sublist.mpr ha).append (List.Sublist.refl [b])⟩

/-- Two places of a list without repetitions have one order. -/
theorem not_sublist_swap (hd : l.Nodup) (h : [a, b].Sublist l) : ¬[b, a].Sublist l := by
  intro h'
  induction l with
  | nil => cases h
  | cons c t ih =>
    obtain ⟨hc, ht⟩ := List.nodup_cons.mp hd
    cases h with
    | cons _ h =>
      cases h' with
      | cons _ h' => exact ih ht h h'
      | cons_cons _ h' => exact hc (h.subset (List.mem_cons_of_mem _ List.mem_cons_self))
    | cons_cons _ h =>
      cases h' with
      | cons _ h' => exact hc (h'.subset (List.mem_cons_of_mem _ List.mem_cons_self))
      | cons_cons _ h' => exact hc (List.singleton_sublist.mp h)

theorem Earlier.asymm (hd : l.Nodup) (h : Earlier key l a b) : ¬Earlier key l b a := by
  rintro (h' | ⟨heq, h'⟩)
  · exact absurd h.le (not_le.mpr h')
  · obtain h | ⟨-, h⟩ := h
    · exact absurd heq h.ne'
    · exact not_sublist_swap hd h h'

/-- One insertion. -/
theorem pairwise_orderedInsert_earlier {s : List α} (hmem : ∀ x ∈ s, x ∈ l) (hs : s.Pairwise (Earlier key l)) (a : α) :
    (s.orderedInsert (fun a b => key a < key b) a).Pairwise (Earlier key (l ++ [a])) := by
  induction s with
  | nil => exact List.pairwise_singleton _ _
  | cons x s ih =>
    obtain ⟨hx, hs'⟩ := List.pairwise_cons.mp hs
    rw [List.orderedInsert_cons]
    split
    · rename_i hlt
      apply List.pairwise_cons.mpr
      constructor
      · intro y hy
        obtain rfl | hy := List.mem_cons.mp hy
        · exact .inl hlt
        · exact .inl (hlt.trans_le (hx y hy).le)
      · exact hs.imp fun h => h.append [a]
    · rename_i hle
      apply List.pairwise_cons.mpr
      constructor
      · intro y hy
        obtain rfl | hy := (List.mem_orderedInsert _).mp hy
        · exact earlier_last (hmem x List.mem_cons_self) (not_lt.mp hle)
        · exact (hx y hy).append [a]
      · exact ih (fun y hy => hmem y (List.mem_cons_of_mem _ hy)) hs'

theorem pairwise_stableSort (l : List α) : (stableSort key l).Pairwise (Earlier key l) := by
  induction l using List.reverseRec with
  | nil => exact .nil
  | append_singleton l a ih =>
    rw [stableSort_concat]
    exact pairwise_orderedInsert_earlier (fun x hx => mem_stableSort.mp hx) ih a

/-- **What holds along the sorted list**: it holds of any two of which one is `Earlier`. -/
theorem pairwise_stableSort_iff {r : α → α → Prop} (hd : l.Nodup) :
    (stableSort key l).Pairwise r ↔ ∀ a ∈ l, ∀ b ∈ l, Earlier key l a b → r a b := by
  constructor
  · intro h a ha b hb hab
    have hne : a ≠ b := by
      rintro rfl
      exact hab.asymm hd hab
    let s := fun x y => (r x y ∧ Earlier key l x y) ∨ (r y x ∧ Earlier key l y x)
    have hsymm : Std.Symm s := ⟨fun _ _ h => h.symm⟩
    have hs : (stableSort key l).Pairwise s := (h.and (pairwise_stableSort l)).imp fun h => .inl h
    obtain h | h := hs.forall (mem_stableSort.mpr ha) (mem_stableSort.mpr hb) hne
    · exact h.1
    · exact absurd h.2 (hab.asymm hd)
  · intro h
    exact (pairwise_stableSort l).imp_of_mem fun ha hb hab => h _ (mem_stableSort.mp ha) _ (mem_stableSort.mp hb) hab

end Simta
