import Mathlib.Data.List.Basic

/-!
# Numbers as digits

A number is determined by its digits, also when they are written in another alphabet.

* `toDigits_map_injective` — digits of one base, each mapped by a function that keeps them apart;
* `notMem_toDigits_map` — a character that is no digit.
-/

set_option autoImplicit false

namespace Simta

variable {b : Nat} {g : Char → Char}

/-- The digits below `b` are kept apart. -/
def KeepsDigits (b : Nat) (g : Char → Char) : Prop :=
  ∀ i < b, ∀ j < b, g (Nat.digitChar i) = g (Nat.digitChar j) → i = j

instance : Decidable (KeepsDigits b g) :=
  inferInstanceAs (Decidable (∀ i < b, ∀ j < b, g (Nat.digitChar i) = g (Nat.digitChar j) → i = j))

theorem toDigits_map_last (hb : 1 < b) (n : Nat) :
    ∃ front, (Nat.toDigits b n).map g = front ++ [g (Nat.digitChar (n % b))] ∧
      front = if n < b then [] else (Nat.toDigits b (n / b)).map g := by
  rw [Nat.toDigits_eq_if hb]
  split
  · rename_i hlt
    exact ⟨[], by rw [Nat.mod_eq_of_lt hlt]; rfl, rfl⟩
  · exact ⟨_, List.map_append, rfl⟩

/-- **A number is determined by its digits.** -/
theorem toDigits_map_injective (hb : 1 < b) (hg : KeepsDigits b g) {n m : Nat}
    (h : (Nat.toDigits b n).map g = (Nat.toDigits b m).map g) : n = m := by
  induction n using Nat.strongRecOn generalizing m with
  | _ n ih =>
    obtain ⟨x, hx, hxn⟩ := toDigits_map_last (g := g) hb n
    obtain ⟨y, hy, hym⟩ := toDigits_map_last (g := g) hb m
    rw [hx, hy] at h
    obtain ⟨hfront, hlast⟩ := List.append_inj' h rfl
    have hmod : n % b = m % b :=
      hg _ (Nat.mod_lt _ (by omega)) _ (Nat.mod_lt _ (by omega)) (List.cons.inj hlast).1
    have hne : ∀ k : Nat, (Nat.toDigits b k).map g ≠ [] := fun k hnil =>
      Nat.toDigits_ne_nil (List.map_eq_nil_iff.mp hnil)
    have hdiv : n / b = m / b := by
      by_cases hn : n < b <;> by_cases hm : m < b
      · rw [Nat.div_eq_of_lt hn, Nat.div_eq_of_lt hm]
      · rw [hxn, hym, if_pos hn, if_neg hm] at hfront
        exact absurd hfront.symm (hne _)
      · rw [hxn, hym, if_neg hn, if_pos hm] at hfront
        exact absurd hfront (hne _)
      · rw [hxn, hym, if_neg hn, if_neg hm] at hfront
        exact ih (n / b) (Nat.div_lt_self (by omega) hb) hfront
    rw [← Nat.div_add_mod n b, ← Nat.div_add_mod m b, hdiv, hmod]

/-- A character that no digit is mapped to does not stand in a number. -/
theorem notMem_toDigits_map (hb : 1 < b) {c : Char} (hc : ∀ i < b, g (Nat.digitChar i) ≠ c) (n : Nat) :
    c ∉ (Nat.toDigits b n).map g := by
  induction n using Nat.strongRecOn with
  | _ n ih =>
    obtain ⟨x, hx, hxn⟩ := toDigits_map_last (g := g) hb n
    rw [hx]
    intro hmem
    rcases List.mem_append.mp hmem with hfront | hlast
    · rw [hxn] at hfront
      split at hfront
      · exact absurd hfront List.not_mem_nil
      · exact ih (n / b) (Nat.div_lt_self (by omega) hb) hfront
    · exact hc _ (Nat.mod_lt _ (by omega)) (List.mem_singleton.mp hlast).symm

end Simta
