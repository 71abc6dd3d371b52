import Mathlib.Data.List.Basic
import Mathlib.Order.Lattice

/-!
# Lists in the descending order of their keys

A list of entries that is searched and added to by walking down it as long as its keys are the larger ones.

* `keyFind`, `keyPlace` — the search, and the search that puts in what it does not find;
* `Descending` — no two entries have one key, and the larger keys are in front;
* `keyFind_eq_some_iff`, `keyPlace_spec` — what they find and leave.
-/

set_option autoImplicit false

namespace Simta

variable {α K : Type} [LinearOrder K] (key : α → K)

/-- The entry of a key. -/
def keyFind (k : K) : List α → Option α
  | [] => none
  | a :: rest => if k = key a then some a else if key a < k then none else keyFind k rest

/-- The entry of a key, which is `make` if there was none; `none` if there was none and none is made. -/
def keyPlace (k : K) (make : Option α) : List α → Option (List α × α)
  | [] => make.map fun a => ([a], a)
  | a :: rest =>
    if key a = k then some (a :: rest, a)
    else if key a < k then make.map fun b => (b :: a :: rest, b)
    else (keyPlace k make rest).map fun r => (a :: r.1, r.2)

/-- The larger keys in front. -/
def Descending (l : List α) : Prop := l.Pairwise fun a b => key b < key a

variable {key}

theorem keyFind_eq_some_iff {k : K} {l : List α} {a : α} (h : Descending key l) :
    keyFind key k l = some a ↔ a ∈ l ∧ key a = k := by
  induction l with
  | nil => simp [keyFind]
  | cons b rest ih =>
    obtain ⟨hlt, hrest⟩ := List.pairwise_cons.mp h
    have ih := ih hrest
    unfold keyFind
    by_cases heq : k = key b
    · rw [if_pos heq]
      constructor
      · intro hb
        cases hb
        exact ⟨List.mem_cons_self, heq.symm⟩
      · rintro ⟨hmem, ha⟩
        obtain rfl | hmem := List.mem_cons.mp hmem
        · rfl
        · have hba := hlt a hmem
          rw [ha, heq] at hba
          exact absurd hba (lt_irrefl _)
    · rw [if_neg heq]
      by_cases hgt : key b < k
      · rw [if_pos hgt]
        refine iff_of_false (by simp) ?_
        rintro ⟨hmem, ha⟩
        obtain rfl | hmem := List.mem_cons.mp hmem
        · exact heq ha.symm
        · have hba := hlt a hmem
          rw [ha] at hba
          exact lt_asymm hgt hba
      · rw [if_neg hgt, ih, List.mem_cons]
        constructor
        · rintro ⟨hmem, ha⟩
          exact ⟨.inr hmem, ha⟩
        · rintro ⟨rfl | hmem, ha⟩
          · exact absurd ha.symm heq
          · exact ⟨hmem, ha⟩

/-- What placing leaves. -/
structure KeyPlaced (key : α → K) (k : K) (l l' : List α) (a : α) : Prop where
  found : key a = k
  mem : ∀ x, x ∈ l' ↔ x ∈ l ∨ x = a
  descending : Descending key l'

theorem keyPlace_spec {k : K} {make : Option α} {l l' : List α} {a : α} (hmake : ∀ b ∈ make, key b = k)
    (h : Descending key l) (hplace : keyPlace key k make l = some (l', a)) : KeyPlaced key k l l' a := by
  induction l generalizing l' with
  | nil =>
    obtain ⟨b, hb, heq⟩ := Option.map_eq_some_iff.mp hplace
    cases heq
    exact ⟨hmake a hb, by simp, List.pairwise_singleton _ _⟩
  | cons b rest ih =>
    obtain ⟨hlt, hrest⟩ := List.pairwise_cons.mp h
    unfold keyPlace at hplace
    by_cases heq : key b = k
    · rw [if_pos heq] at hplace
      cases hplace
      exact ⟨heq, fun x => ⟨.inl, fun hx => hx.elim id fun hx => hx ▸ List.mem_cons_self⟩, h⟩
    · rw [if_neg heq] at hplace
      by_cases hgt : key b < k
      · rw [if_pos hgt] at hplace
        obtain ⟨c, hc, hpair⟩ := Option.map_eq_some_iff.mp hplace
        cases hpair
        have hkey := hmake a hc
        refine ⟨hkey, fun x => by simp [or_comm], List.pairwise_cons.mpr ⟨fun x hx => ?_, h⟩⟩
        rw [hkey]
        obtain rfl | hx := List.mem_cons.mp hx
        · exact hgt
        · exact lt_trans (hlt x hx) hgt
      · rw [if_neg hgt] at hplace
        obtain ⟨⟨rest', c⟩, hr, hpair⟩ := Option.map_eq_some_iff.mp hplace
        cases hpair
        have hplaced := ih hrest hr
        refine ⟨hplaced.found, fun x => ?_, List.pairwise_cons.mpr ⟨fun x hx => ?_, hplaced.descending⟩⟩
        · simp [hplaced.mem, or_assoc]
        · obtain hx | rfl := (hplaced.mem x).mp hx
          · exact hlt x hx
          · rw [hplaced.found]
            exact lt_of_le_of_ne (not_lt.mp hgt) (Ne.symm heq)

/-- The entry was there, or it is made. -/
theorem keyPlace_entry {k : K} {make : Option α} {l l' : List α} {a : α} (h : keyPlace key k make l = some (l', a)) :
    a ∈ l ∨ a ∈ make := by
  induction l generalizing l' with
  | nil =>
    obtain ⟨b, hb, heq⟩ := Option.map_eq_some_iff.mp h
    cases heq
    exact .inr hb
  | cons b rest ih =>
    unfold keyPlace at h
    by_cases heq : key b = k
    · rw [if_pos heq] at h
      cases h
      exact .inl List.mem_cons_self
    · rw [if_neg heq] at h
      by_cases hgt : key b < k
      · rw [if_pos hgt] at h
        obtain ⟨c, hc, hpair⟩ := Option.map_eq_some_iff.mp h
        cases hpair
        exact .inr hc
      · rw [if_neg hgt] at h
        obtain ⟨⟨rest', c⟩, hr, hpair⟩ := Option.map_eq_some_iff.mp h
        cases hpair
        exact (ih hr).imp_left (List.mem_cons_of_mem _)

end Simta
