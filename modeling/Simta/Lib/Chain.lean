import Mathlib.Data.List.Nodup

/-!
# Singly linked lists

Cells with one link, given by the function `next`, and the list that is read off the links.

* `chain` — the cells from a start, at most so many;
* `Chained` — the cells of a list are linked in order, and the last one ends it;
* `Chained.insert`, `Chained.cut` — a cell put between two parts of the list, and cells cut out.
-/

set_option autoImplicit false

namespace Simta

variable {α : Type} {next next' : α → Option α} {start : Option α} {l l₁ l₂ : List α} {a : α}

/-- The cells from `start` on, at most `n` of them. -/
def chain (next : α → Option α) : Nat → Option α → List α
  | 0, _ => []
  | _, none => []
  | n + 1, some a => a :: chain next n (next a)

/-- The cells of `l` are linked in order, from `start` to the end. -/
def Chained (next : α → Option α) : Option α → List α → Prop
  | start, [] => start = none
  | start, a :: l => start = some a ∧ Chained next (next a) l

theorem Chained.head (h : Chained next start l) : start = l.head? := by
  cases l with
  | nil => exact h
  | cons a l => exact h.1

theorem Chained.chain_eq {n : Nat} (h : Chained next start l) (hn : l.length ≤ n) : chain next n start = l := by
  induction l generalizing start n with
  | nil =>
    cases h
    cases n <;> rfl
  | cons a l ih =>
    obtain ⟨rfl, hl⟩ := h
    cases n with
    | zero => cases hn
    | succ n => rw [chain, ih hl (Nat.le_of_succ_le_succ hn)]

theorem Chained.congr (h : Chained next start l) (hnext : ∀ x ∈ l, next' x = next x) : Chained next' start l := by
  induction l generalizing start with
  | nil => exact h
  | cons a l ih =>
    refine ⟨h.1, ?_⟩
    rw [hnext a List.mem_cons_self]
    exact ih h.2 fun x hx => hnext x (List.mem_cons_of_mem _ hx)

/-- The rest of a list is linked from its first cell on. -/
theorem Chained.drop (h : Chained next start (l₁ ++ l₂)) : Chained next l₂.head? l₂ := by
  induction l₁ generalizing start with
  | nil => exact h.head ▸ h
  | cons x l₁ ih => exact ih h.2

/-- The cell behind the one that ends the first part. -/
theorem Chained.next_eq (h : Chained next start (l₁ ++ a :: l₂)) : next a = l₂.head? := by
  induction l₁ generalizing start with
  | nil => exact h.2.head
  | cons x l₁ ih => exact ih h.2

/-- **A cell between two parts**: it is linked to the second, and the end of the first to it. -/
theorem Chained.insert (h : Chained next start (l₁ ++ l₂)) (hd : (l₁ ++ l₂).Nodup) (ha : next' a = l₂.head?)
    (hlast : ∀ x ∈ l₁.getLast?, next' x = some a)
    (hnext : ∀ x ∈ l₁ ++ l₂, l₁.getLast? ≠ some x → next' x = next x) :
    Chained next' (if l₁ = [] then some a else start) (l₁ ++ a :: l₂) := by
  induction l₁ generalizing start with
  | nil =>
    rw [if_pos rfl]
    refine ⟨rfl, ?_⟩
    rw [ha]
    exact (h.head ▸ h : Chained next l₂.head? l₂).congr fun x hx => hnext x hx (by simp)
  | cons x l₁ ih =>
    rw [if_neg (by simp)]
    refine ⟨h.1, ?_⟩
    have hd' := (List.nodup_cons.mp hd).2
    have hx := (List.nodup_cons.mp hd).1
    cases l₁ with
    | nil =>
      rw [hlast x (by simp)]
      refine ⟨rfl, ?_⟩
      rw [ha]
      refine (h.2.head ▸ h.2 : Chained next l₂.head? l₂).congr fun y hy => hnext y (List.mem_cons_of_mem _ hy) ?_
      intro heq
      cases heq
      exact hx hy
    | cons y l₁ =>
      have hxlast : (x :: y :: l₁).getLast? ≠ some x := by
        rw [List.getLast?_cons_cons]
        intro heq
        exact hx (List.mem_append_left _ (List.mem_of_getLast? heq))
      rw [hnext x List.mem_cons_self hxlast]
      have hih := ih h.2 hd' (fun z hz => hlast z (by rwa [List.getLast?_cons_cons]))
        (fun z hz hne => hnext z (List.mem_cons_of_mem _ hz) (by rwa [List.getLast?_cons_cons]))
      rwa [if_neg (by simp)] at hih

/-- **Cells in the middle are cut out**: the end of the first part is linked to the third. -/
theorem Chained.cut {l₃ : List α} (h : Chained next start (l₁ ++ (l₂ ++ l₃))) (hd : (l₁ ++ (l₂ ++ l₃)).Nodup)
    (hlast : ∀ x ∈ l₁.getLast?, next' x = l₃.head?)
    (hnext : ∀ x ∈ l₁ ++ l₃, l₁.getLast? ≠ some x → next' x = next x) :
    Chained next' (if l₁ = [] then l₃.head? else start) (l₁ ++ l₃) := by
  induction l₁ generalizing start with
  | nil =>
    rw [if_pos rfl]
    exact (Chained.drop h : Chained next l₃.head? l₃).congr fun x hx => hnext x hx (by simp)
  | cons x l₁ ih =>
    rw [if_neg (by simp)]
    refine ⟨h.1, ?_⟩
    obtain ⟨hx, hd'⟩ := List.nodup_cons.mp hd
    cases l₁ with
    | nil =>
      rw [hlast x (by simp)]
      have hrest : Chained next l₃.head? l₃ := Chained.drop h.2
      apply hrest.congr
      intro y hy
      apply hnext y (List.mem_cons_of_mem _ hy)
      intro heq
      cases heq
      exact hx (List.mem_append_right _ (List.mem_append_right _ hy))
    | cons y l₁ =>
      have hxlast : (x :: y :: l₁).getLast? ≠ some x := by
        rw [List.getLast?_cons_cons]
        intro heq
        exact hx (List.mem_append_left _ (List.mem_of_getLast? heq))
      rw [hnext x List.mem_cons_self hxlast]
      have hih := ih h.2 hd' (fun z hz => hlast z (by rwa [List.getLast?_cons_cons]))
        (fun z hz hne => hnext z (List.mem_cons_of_mem _ hz) (by rwa [List.getLast?_cons_cons]))
      rwa [if_neg (by simp)] at hih

end Simta
