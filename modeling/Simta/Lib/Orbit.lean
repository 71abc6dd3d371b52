import Mathlib.Data.Finset.Card
import Mathlib.Data.Finset.Range

/-!
# Runs of a partial step

A step that is a partial function, and when its runs end.

* `orbit` — what a number of steps lead to;
* `orbit_ends_iff` — among finitely many states a run ends if and only if it comes to no state twice.
-/

set_option autoImplicit false

namespace Simta

variable {α : Type} {f : α → Option α} {a b : α}

/-- What `n` steps lead to, if there are so many. -/
def orbit (f : α → Option α) : Nat → α → Option α
  | 0, a => some a
  | n + 1, a => (f a).bind (orbit f n)

@[simp] theorem orbit_zero (f : α → Option α) (a : α) : orbit f 0 a = some a := rfl

theorem orbit_succ (n : Nat) : orbit f (n + 1) a = (f a).bind (orbit f n) := rfl

theorem orbit_add (m n : Nat) : orbit f (m + n) a = (orbit f m a).bind (orbit f n) := by
  induction m generalizing a with
  | zero =>
    rw [Nat.zero_add]
    rfl
  | succ m ih =>
    rw [Nat.add_right_comm, orbit_succ, orbit_succ]
    cases f a with
    | none => rfl
    | some b => exact ih

/-- A run that has ended stays so. -/
theorem orbit_none {m n : Nat} (h : orbit f m a = none) (hle : m ≤ n) : orbit f n a = none := by
  obtain ⟨k, rfl⟩ := Nat.exists_eq_add_of_le hle
  rw [orbit_add, h]
  rfl

/-- A run that comes back goes on for ever. -/
theorem orbit_cycle {m : Nat} (hm : orbit f m b = some b) (k : Nat) : orbit f (k * m) b = some b := by
  induction k with
  | zero =>
    rw [Nat.zero_mul]
    rfl
  | succ k ih =>
    rw [Nat.succ_mul, orbit_add, ih]
    exact hm

/-- **A run ends exactly if it comes to no state twice**, where the states it can come to are finitely many. -/
theorem orbit_ends_iff {s : Finset α} (hs : ∀ n b, orbit f n a = some b → b ∈ s) :
    (∃ n, orbit f n a = none) ↔ ∀ n b, orbit f n a = some b → ∀ m, 0 < m → orbit f m b ≠ some b := by
  constructor
  · rintro ⟨n, hn⟩ k b hk m hm hcycle
    have hlong : orbit f (k + n * m) a = some b := by
      rw [orbit_add, hk]
      exact orbit_cycle hcycle n
    have hle : n ≤ k + n * m := (Nat.le_mul_of_pos_right n hm).trans (Nat.le_add_left _ _)
    rw [orbit_none hn hle] at hlong
    cases hlong
  · intro hno
    by_contra hruns
    have hsome : ∀ n, ∃ b, orbit f n a = some b := fun n => Option.ne_none_iff_exists'.mp (not_exists.mp hruns n)
    choose g hg using hsome
    -- one state more than there are
    have hcard : s.card < (Finset.range (s.card + 1)).card := by
      rw [Finset.card_range]
      exact Nat.lt_succ_self _
    have hmaps : Set.MapsTo g (Finset.range (s.card + 1)) s := fun n _ => hs n _ (hg n)
    obtain ⟨i, -, j, -, hne, heq⟩ := Finset.exists_ne_map_eq_of_card_lt_of_maps_to hcard hmaps
    have hback : ∀ i j, i < j → g i = g j → False := by
      intro i j hlt heq
      obtain ⟨k, rfl⟩ := Nat.exists_eq_add_of_le hlt.le
      have hj := hg (i + k)
      rw [orbit_add, hg i] at hj
      refine hno i (g i) (hg i) k (by omega) ?_
      rw [heq] at hj ⊢
      exact hj
    rcases Nat.lt_or_gt_of_ne hne with hlt | hlt
    · exact hback i j hlt heq
    · exact hback j i hlt heq.symm

end Simta
