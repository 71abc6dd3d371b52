import Mathlib.Data.List.AList

/-!
# Directories of hard links

A directory maps names to inode numbers.  `link`, `unlink` and `rename` answer `none` where the
system call of that name fails on the directory it is given; `nlink` is the link count.

Each operation has its lookup lemma, so that a proof about a program can follow the names
without looking at the association list, and `one_lt_nlink` reads a link count above one as
a second name of the same file.
-/

set_option autoImplicit false

namespace Simta

/-- A directory: names and their inode numbers, no name twice. -/
abbrev Directory (N : Type) : Type := AList fun _ : N => Nat

namespace Directory

variable {N : Type} [DecidableEq N]

/-- `link(2)`: `old` must exist, `new` must not. -/
def link (t : Directory N) (old new : N) : Option (Directory N) :=
  match t.lookup old with
  | none => none
  | some i => if new ∈ t then none else some (t.insert new i)

/-- `unlink(2)`. -/
def unlink (t : Directory N) (p : N) : Option (Directory N) :=
  if p ∈ t then some (t.erase p) else none

/-- `rename(2)`: `new` is replaced if it exists. -/
def rename (t : Directory N) (old new : N) : Option (Directory N) :=
  match t.lookup old with
  | none => none
  | some i => some ((t.erase old).insert new i)

/-- The link count of an inode. -/
def nlink (t : Directory N) (i : Nat) : Nat := t.entries.countP (·.2 = i)

/-! ## What each operation leaves -/

theorem mem_iff_lookup {t : Directory N} {p : N} : p ∈ t ↔ ∃ i, t.lookup p = some i := by
  rw [← AList.lookup_isSome, Option.isSome_iff_exists]

theorem not_mem_iff_lookup {t : Directory N} {p : N} : p ∉ t ↔ t.lookup p = none :=
  AList.lookup_eq_none.symm

theorem lookup_insert_ite (t : Directory N) (p q : N) (i : Nat) :
    (t.insert p i).lookup q = if q = p then some i else t.lookup q := by
  split
  · rename_i h
    rw [h, AList.lookup_insert]
  · rename_i h
    exact AList.lookup_insert_ne h

theorem lookup_erase_ite (t : Directory N) (p q : N) :
    (t.erase p).lookup q = if q = p then none else t.lookup q := by
  split
  · rename_i h
    rw [h, AList.lookup_erase]
  · rename_i h
    exact AList.lookup_erase_ne h

theorem link_eq_some {t t' : Directory N} {old new : N} (h : t.link old new = some t') :
    ∃ i, t.lookup old = some i ∧ t.lookup new = none ∧ t' = t.insert new i := by
  unfold link at h
  split at h
  · cases h
  · rename_i i hi
    split at h
    · cases h
    · rename_i hn
      cases h
      exact ⟨i, hi, not_mem_iff_lookup.mp hn, rfl⟩

theorem link_of_lookup {t : Directory N} {old new : N} {i : Nat} (ho : t.lookup old = some i)
    (hn : t.lookup new = none) : t.link old new = some (t.insert new i) := by
  unfold link
  rw [ho]
  exact if_neg (not_mem_iff_lookup.mpr hn)

theorem unlink_eq_some {t t' : Directory N} {p : N} (h : t.unlink p = some t') :
    p ∈ t ∧ t' = t.erase p := by
  unfold unlink at h
  split at h
  · cases h
    exact ⟨by assumption, rfl⟩
  · cases h

theorem unlink_of_lookup {t : Directory N} {p : N} {i : Nat} (h : t.lookup p = some i) :
    t.unlink p = some (t.erase p) :=
  if_pos (mem_iff_lookup.mpr ⟨i, h⟩)

theorem rename_eq_some {t t' : Directory N} {old new : N} (h : t.rename old new = some t') :
    ∃ i, t.lookup old = some i ∧ t' = (t.erase old).insert new i := by
  unfold rename at h
  split at h
  · cases h
  · rename_i i hi
    cases h
    exact ⟨i, hi, rfl⟩

/-! ## Link counts -/

theorem mem_entries_iff {t : Directory N} {p : N} {i : Nat} :
    (⟨p, i⟩ : Sigma fun _ : N => Nat) ∈ t.entries ↔ t.lookup p = some i := by
  rw [← Option.mem_def, AList.mem_lookup_iff]

omit [DecidableEq N] in
/-- A list with no key twice holds two entries satisfying `P` when it holds more than one. -/
theorem one_lt_countP {l : List (Sigma fun _ : N => Nat)} (hl : l.NodupKeys) {p : N} {i : Nat}
    (hp : ⟨p, i⟩ ∈ l) : 1 < l.countP (·.2 = i) ↔ ∃ q, q ≠ p ∧ ⟨q, i⟩ ∈ l := by
  obtain ⟨a, b, rfl⟩ := List.append_of_mem hp
  have hkeys := List.nodupKeys_middle.mp hl
  have hnot : ∀ q, (⟨q, i⟩ : Sigma fun _ : N => Nat) ∈ a ++ b → q ≠ p := by
    rintro q hq rfl
    exact (List.nodupKeys_cons.mp hkeys).1 (List.mem_keys_of_mem hq)
  have hcount : 1 < (a ++ ⟨p, i⟩ :: b).countP (·.2 = i) ↔ 0 < (a ++ b).countP (·.2 = i) := by
    simp only [List.countP_append, List.countP_cons, decide_true, if_true]
    omega
  rw [hcount, List.countP_pos_iff]
  constructor
  · rintro ⟨⟨q, j⟩, hq, hj⟩
    obtain rfl : j = i := by simpa using hj
    refine ⟨q, hnot q hq, ?_⟩
    rcases List.mem_append.mp hq with h | h
    · exact List.mem_append_left _ h
    · exact List.mem_append_right _ (List.mem_cons_of_mem _ h)
  · rintro ⟨q, hqp, hq⟩
    refine ⟨⟨q, i⟩, ?_, by simp⟩
    rcases List.mem_append.mp hq with h | h
    · exact List.mem_append_left _ h
    · rcases List.mem_cons.mp h with h | h
      · exact absurd (congrArg Sigma.fst h) hqp
      · exact List.mem_append_right _ h

/-- **A link count above one is a second name of the file.** -/
theorem one_lt_nlink {t : Directory N} {p : N} {i : Nat} (h : t.lookup p = some i) :
    1 < t.nlink i ↔ ∃ q, q ≠ p ∧ t.lookup q = some i := by
  unfold nlink
  rw [one_lt_countP t.nodupKeys (mem_entries_iff.mpr h)]
  simp only [mem_entries_iff]

end Directory

end Simta
