import Mathlib.Data.List.Perm.Subperm
import Mathlib.Logic.Function.Basic
import Simta.Lib.Chain
import Simta.Lib.Links
import Simta.Spool

/-!
# The lines of a message header

`line_file.c`: a list of lines, linked both ways.  A pointer to a line is a number, and the heap says what lies
there.

* `LineFile`, `LineFile.append`, `LineFile.prepend` — the list, and a line more at its ends;
* `LineFile.Lines` — the lines that it consists of;
* `Lines.append`, `Lines.prepend`, `Lines.cut` — what the operations do to them.
-/

set_option autoImplicit false

namespace Simta

/-- `struct line`. -/
structure Line where
  lineNext : Option Nat
  linePrev : Option Nat
  lineData : Text

/-- `struct line_file`, with what lies behind each pointer; `fresh` is the next one that is allocated. -/
structure LineFile where
  lFirst : Option Nat
  lLast : Option Nat
  heap : Nat → Line
  fresh : Nat

/-- `line_file_create`. -/
def lineFileCreate : LineFile := ⟨none, none, fun _ => ⟨none, none, []⟩, 0⟩

variable {lf : LineFile} {l : Nat} {data : Text} {ids : List Nat}

/-- A write to the line `l`. -/
def LineFile.write (lf : LineFile) (l : Nat) (f : Line → Line) : LineFile :=
  { lf with heap := Function.update lf.heap l (f (lf.heap l)) }

theorem LineFile.write_heap (lf : LineFile) (l i : Nat) (f : Line → Line) :
    (lf.write l f).heap i = if i = l then f (lf.heap i) else lf.heap i := by
  unfold LineFile.write
  by_cases hi : i = l
  · subst hi
    rw [if_pos rfl]
    exact Function.update_self ..
  · rw [if_neg hi]
    exact Function.update_of_ne hi _ _

/-- `line_append`. -/
def LineFile.append (lf : LineFile) (data : Text) : LineFile :=
  match lf.lLast with
  | none => { lf with
      heap := Function.update lf.heap lf.fresh ⟨none, none, data⟩
      fresh := lf.fresh + 1
      lFirst := some lf.fresh
      lLast := some lf.fresh }
  | some last =>
    { ({ lf with heap := Function.update lf.heap lf.fresh ⟨none, some last, data⟩ } : LineFile).write last
        fun line => { line with lineNext := some lf.fresh } with
      fresh := lf.fresh + 1
      lLast := some lf.fresh }

/-- `line_prepend`. -/
def LineFile.prepend (lf : LineFile) (data : Text) : LineFile :=
  match lf.lFirst with
  | none => { lf with
      heap := Function.update lf.heap lf.fresh ⟨none, none, data⟩
      fresh := lf.fresh + 1
      lFirst := some lf.fresh
      lLast := some lf.fresh }
  | some first =>
    { ({ lf with heap := Function.update lf.heap lf.fresh ⟨some first, none, data⟩ } : LineFile).write first
        fun line => { line with linePrev := some lf.fresh } with
      fresh := lf.fresh + 1
      lFirst := some lf.fresh }

/-- The lines that the loops over the list come to. -/
def LineFile.reached (lf : LineFile) : List Nat := chain (fun l => (lf.heap l).lineNext) lf.fresh lf.lFirst

/-- The list of some lines. -/
def lineFile (lines : List Text) : LineFile := lines.foldl LineFile.append lineFileCreate

/-! ## What the list consists of -/

/-- The list consists of the lines `ids`. -/
structure LineFile.Lines (lf : LineFile) (ids : List Nat) : Prop where
  linked : Linked (fun l => (lf.heap l).lineNext) (fun l => (lf.heap l).linePrev) lf.lFirst ids
  last : lf.lLast = ids.getLast?
  allocated : ∀ l ∈ ids, l < lf.fresh

theorem lines_create : lineFileCreate.Lines [] := ⟨.nil, rfl, fun _ h => absurd h List.not_mem_nil⟩

theorem LineFile.Lines.fresh_notMem (h : lf.Lines ids) : lf.fresh ∉ ids :=
  fun hmem => Nat.lt_irrefl _ (h.allocated _ hmem)

/-- Writes to texts leave the list as it is. -/
theorem LineFile.Lines.congr {lf' : LineFile} (h : lf.Lines ids)
    (hnext : ∀ l, (lf'.heap l).lineNext = (lf.heap l).lineNext)
    (hprev : ∀ l, (lf'.heap l).linePrev = (lf.heap l).linePrev) (hfirst : lf'.lFirst = lf.lFirst)
    (hlast : lf'.lLast = lf.lLast) (hfresh : lf'.fresh = lf.fresh) : lf'.Lines ids := by
  refine ⟨?_, hlast.trans h.last, fun l hl => hfresh ▸ h.allocated l hl⟩
  rw [hfirst]
  exact h.linked.congr (fun x _ => hnext x) fun x _ => hprev x

/-- The fresh line, and another one that is linked to it. -/
theorem update_write_apply {α : Type} (heap : Nat → Line) (fresh other : Nat) (new : Line) (f : Line → Line)
    (view : Line → α) (hne : other ≠ fresh) (x : Nat) :
    view (Function.update (Function.update heap fresh new) other (f (Function.update heap fresh new other)) x) =
      if x = fresh then view new else if other = x then view (f (heap x)) else view (heap x) := by
  by_cases hx : x = fresh
  · subst hx
    rw [Function.update_of_ne hne.symm, Function.update_self, if_pos rfl]
  · rw [if_neg hx]
    by_cases ho : other = x
    · subst ho
      rw [Function.update_self, Function.update_of_ne hx, if_pos rfl]
    · rw [Function.update_of_ne (Ne.symm ho), Function.update_of_ne hx, if_neg ho]

/-- **A line more at the end.** -/
theorem LineFile.Lines.append (h : lf.Lines ids) (data : Text) : (LineFile.append lf data).Lines (ids ++ [lf.fresh]) := by
  have hnot := h.fresh_notMem
  unfold LineFile.append
  cases hlast : lf.lLast with
  | none =>
    have hnil : ids = [] := List.getLast?_eq_none_iff.mp (h.last ▸ hlast)
    subst hnil
    refine ⟨⟨rfl, ⟨?_, ?_, trivial⟩, List.nodup_singleton _⟩, rfl, ?_⟩
    · simp
    · simp
    · intro l hl
      rw [List.mem_singleton.mp hl]
      exact Nat.lt_succ_self _
  | some last =>
    have hids : ids.getLast? = some last := by rw [← h.last, hlast]
    have hne : last ≠ lf.fresh := fun heq => hnot (heq ▸ List.mem_of_getLast? hids)
    have hl : ids ≠ [] := by
      rintro rfl
      cases hids
    have h₀ := h.linked
    rw [← List.append_nil ids] at h₀ hnot
    refine ⟨?_, ?_, ?_⟩
    · apply h₀.insert hnot
      · rw [if_neg hl]
        rfl
      · intro x
        apply (update_write_apply _ _ _ _ (fun line => { line with lineNext := some lf.fresh }) Line.lineNext hne x).trans
        rw [hids]
        simp
      · intro x
        apply (update_write_apply _ _ _ _ (fun line => { line with lineNext := some lf.fresh }) Line.linePrev hne x).trans
        rw [hids]
        simp
    · simp
    · intro l hl
      show l < lf.fresh + 1
      rcases List.mem_append.mp hl with hl | hl
      · exact Nat.lt_succ_of_lt (h.allocated l hl)
      · rw [List.mem_singleton.mp hl]
        exact Nat.lt_succ_self _

/-- **A line more in front.** -/
theorem LineFile.Lines.prepend (h : lf.Lines ids) (data : Text) : (LineFile.prepend lf data).Lines (lf.fresh :: ids) := by
  have hnot := h.fresh_notMem
  have hfresh : ∀ l ∈ lf.fresh :: ids, l < lf.fresh + 1 := by
    intro l hl
    rcases List.mem_cons.mp hl with rfl | hl
    · exact Nat.lt_succ_self _
    · exact Nat.lt_succ_of_lt (h.allocated l hl)
  unfold LineFile.prepend
  cases hfirst : lf.lFirst with
  | none =>
    have hnil : ids = [] := List.head?_eq_none_iff.mp (h.linked.head ▸ hfirst)
    subst hnil
    refine ⟨⟨rfl, ⟨?_, ?_, trivial⟩, List.nodup_singleton _⟩, rfl, hfresh⟩
    · simp
    · simp
  | some first =>
    have hids : ids.head? = some first := by rw [← h.linked.head, hfirst]
    have hne : first ≠ lf.fresh := fun heq => hnot (heq ▸ List.mem_of_mem_head? hids)
    have h₀ : Linked (fun l => (lf.heap l).lineNext) (fun l => (lf.heap l).linePrev) lf.lFirst ([] ++ ids) := h.linked
    refine ⟨?_, ?_, hfresh⟩
    · apply h₀.insert hnot
      · rfl
      · intro x
        apply (update_write_apply _ _ _ _ (fun line => { line with linePrev := some lf.fresh }) Line.lineNext hne x).trans
        rw [hids]
        simp
      · intro x
        apply (update_write_apply _ _ _ _ (fun line => { line with linePrev := some lf.fresh }) Line.linePrev hne x).trans
        rw [hids]
        simp
    · show lf.lLast = _
      rw [h.last]
      cases ids with
      | nil => cases hids
      | cons x ids => rw [List.getLast?_cons_cons]

theorem Segment.chained {α : Type} {next prev : α → Option α} {b : Option α} {l : List α}
    (h : Segment next prev b l none) : Chained next l.head? l := by
  induction l generalizing b with
  | nil => rfl
  | cons a l ih =>
    refine ⟨rfl, ?_⟩
    rw [h.2.1, Option.or_none]
    exact ih h.2.2

theorem LineFile.Lines.chained (h : lf.Lines ids) : Chained (fun l => (lf.heap l).lineNext) lf.lFirst ids := by
  rw [h.linked.head]
  exact h.linked.segment.chained

/-- The list that the loops come to. -/
theorem Chained.reached {ids : List Nat} (h : Chained (fun l => (lf.heap l).lineNext) lf.lFirst ids)
    (hd : ids.Nodup) (hfresh : ∀ l ∈ ids, l < lf.fresh) : lf.reached = ids := by
  apply h.chain_eq
  have hsub : ids ⊆ List.range lf.fresh := fun l hl => List.mem_range.mpr (hfresh l hl)
  have hlength := (List.subperm_of_subset hd hsub).length_le
  rwa [List.length_range] at hlength

theorem LineFile.Lines.reached_eq (h : lf.Lines ids) : lf.reached = ids :=
  h.chained.reached h.linked.nodup h.allocated

end Simta
