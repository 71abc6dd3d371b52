import Mathlib.Data.List.Basic
import Mathlib.Data.List.Nodup
import Mathlib.Logic.Function.Basic

/-!
# Doubly linked lists and rings

Cells with two links, given by the functions `next` and `prev`.

* `Segment` — a run of cells from what stands before it to what stands behind it;
* `Linked` — a list: nothing stands before it or behind it;
* `Ring` — a ring: its last cell stands before it and its first behind it;
* `Segment.relink` — new links at the two ends are all that can change;
* `Linked.insert`, `Linked.remove`, `Ring.insertHead`, `Ring.remove` — the operations;
* `LinkedFamily` — lists that have no cell in common, with `LinkedFamily.insert` and
  `LinkedFamily.remove`.
-/

set_option autoImplicit false

namespace Simta

variable {α : Type} {next prev next' prev' : α → Option α} {b e b' e' head head' : Option α}
variable {l l' l₁ l₂ : List α} {a : α}

/-- The cells of `l` are linked in order, from the cell `b` before them to the cell `e` behind them. -/
def Segment (next prev : α → Option α) : Option α → List α → Option α → Prop
  | _, [], _ => True
  | b, a :: l, e => prev a = b ∧ next a = l.head?.or e ∧ Segment next prev (some a) l e

theorem segment_append : Segment next prev b (l₁ ++ l₂) e ↔
    Segment next prev b l₁ (l₂.head?.or e) ∧ Segment next prev (l₁.getLast?.or b) l₂ e := by
  induction l₁ generalizing b with
  | nil => simp [Segment]
  | cons a l ih =>
    cases l with
    | nil => simp [Segment, and_assoc]
    | cons c t =>
      have hlast : ((c :: t).getLast?.or (some a)) = (c :: t).getLast?.or b := by
        simp [List.getLast?_cons]
      simp only [List.cons_append, Segment, List.getLast?_cons_cons] at ih ⊢
      rw [ih, hlast]
      simp [and_assoc]

theorem Segment.prev_head (h : Segment next prev b l e) (ha : l.head? = some a) : prev a = b := by
  cases l with
  | nil => simp at ha
  | cons c t =>
    simp only [List.head?_cons, Option.some.injEq] at ha
    exact ha ▸ h.1

theorem Segment.next_last (h : Segment next prev b l e) (ha : l.getLast? = some a) : next a = e := by
  induction l generalizing b with
  | nil => simp at ha
  | cons c t ih =>
    cases t with
    | nil =>
      simp only [List.getLast?_singleton, Option.some.injEq] at ha
      exact ha ▸ h.2.1
    | cons d t =>
      rw [List.getLast?_cons_cons] at ha
      exact ih h.2.2 ha

theorem Segment.congr (h : Segment next prev b l e) (hnext : ∀ x ∈ l, next' x = next x)
    (hprev : ∀ x ∈ l, prev' x = prev x) : Segment next' prev' b l e := by
  induction l generalizing b with
  | nil => trivial
  | cons a t ih =>
    refine ⟨(hprev a List.mem_cons_self).trans h.1, (hnext a List.mem_cons_self).trans h.2.1, ?_⟩
    exact ih h.2.2 (fun x hx => hnext x (List.mem_cons_of_mem _ hx))
      fun x hx => hprev x (List.mem_cons_of_mem _ hx)

/-! ## Lists -/

/-- The cells of `l` make up the list that starts at `head`. -/
structure Linked (next prev : α → Option α) (head : Option α) (l : List α) : Prop where
  head : head = l.head?
  segment : Segment next prev none l none
  nodup : l.Nodup

theorem Linked.nil : Linked next prev none [] := ⟨rfl, trivial, List.nodup_nil⟩

theorem Linked.congr (h : Linked next prev head l) (hnext : ∀ x ∈ l, next' x = next x)
    (hprev : ∀ x ∈ l, prev' x = prev x) : Linked next' prev' head l :=
  ⟨h.head, h.segment.congr hnext hprev, h.nodup⟩

theorem Linked.next_eq (h : Linked next prev head (l₁ ++ a :: l₂)) : next a = l₂.head? := by
  simpa using (segment_append.mp h.segment).2.2.1

theorem Linked.prev_eq (h : Linked next prev head (l₁ ++ a :: l₂)) : prev a = l₁.getLast? := by
  simpa using (segment_append.mp h.segment).2.1

/-- The links of a list are inverse to each other. -/
theorem Linked.next_eq_some_iff (h : Linked next prev head l) {x y : α} (hx : x ∈ l) (hy : y ∈ l) :
    next x = some y ↔ prev y = some x := by
  constructor
  · intro hxy
    obtain ⟨l₁, l₂, rfl⟩ := List.append_of_mem hx
    exact (segment_append.mp h.segment).2.2.2.prev_head (h.next_eq.symm.trans hxy)
  · intro hyx
    obtain ⟨m₁, m₂, rfl⟩ := List.append_of_mem hy
    exact (segment_append.mp h.segment).1.next_last (h.prev_eq.symm.trans hyx)

theorem Segment.unique (h : Segment next prev b l none) (h' : Segment next prev b' l' none)
    (hhead : l.head? = l'.head?) : l = l' := by
  induction l generalizing b b' l' with
  | nil =>
    cases l' with
    | nil => rfl
    | cons c t => cases hhead
  | cons a t ih =>
    cases l' with
    | nil => cases hhead
    | cons c t' =>
      cases hhead
      have hnext : t.head?.or none = t'.head?.or none := h.2.1.symm.trans h'.2.1
      rw [Option.or_none, Option.or_none] at hnext
      rw [ih h.2.2 h'.2.2 hnext]

/-- The links make up one list. -/
theorem Linked.unique (h : Linked next prev head l) (h' : Linked next prev head l') : l = l' :=
  h.segment.unique h'.segment (h.head.symm.trans h'.head)

/-! ## Rings -/

/-- The cells of `l` make up the ring that is entered at `head`. -/
structure Ring (next prev : α → Option α) (head : Option α) (l : List α) : Prop where
  head : head = l.head?
  segment : Segment next prev l.getLast? l l.head?
  nodup : l.Nodup

theorem Ring.nil : Ring next prev none [] := ⟨rfl, trivial, List.nodup_nil⟩

theorem Ring.congr (h : Ring next prev head l) (hnext : ∀ x ∈ l, next' x = next x)
    (hprev : ∀ x ∈ l, prev' x = prev x) : Ring next' prev' head l :=
  ⟨h.head, h.segment.congr hnext hprev, h.nodup⟩

theorem Ring.singleton (hnext : next a = some a) (hprev : prev a = some a) : Ring next prev (some a) [a] :=
  ⟨rfl, ⟨hprev, hnext, trivial⟩, List.nodup_singleton a⟩

/-- The neighbours of a cell: the others in their order from it on, or the cell itself. -/
theorem Ring.next_eq (h : Ring next prev head (l₁ ++ a :: l₂)) : next a = (l₂ ++ l₁).head?.or (some a) := by
  have hn := (segment_append.mp h.segment).2.2.1
  rw [hn]
  cases l₂ <;> cases l₁ <;> simp

theorem Ring.prev_eq (h : Ring next prev head (l₁ ++ a :: l₂)) : prev a = (l₂ ++ l₁).getLast?.or (some a) := by
  have hp := (segment_append.mp h.segment).2.1
  rw [hp]
  cases l₂ <;> cases l₁ <;> simp [List.getLast?_append, List.getLast?_cons]

/-! ## Linking in and out -/

variable [DecidableEq α]

/-- **New links at the ends**: a segment whose inner links are kept joins what its ends now name. -/
theorem Segment.relink (h : Segment next prev b l e) (hd : l.Nodup)
    (hnext : ∀ x ∈ l, next' x = if l.getLast? = some x then e' else next x)
    (hprev : ∀ x ∈ l, prev' x = if l.head? = some x then b' else prev x) :
    Segment next' prev' b' l e' := by
  induction l generalizing b b' with
  | nil => trivial
  | cons a t ih =>
    obtain ⟨-, hn, ht⟩ := h
    obtain ⟨hat, hd⟩ := List.nodup_cons.mp hd
    have hpa := hprev a List.mem_cons_self
    rw [List.head?_cons, if_pos rfl] at hpa
    have hna := hnext a List.mem_cons_self
    cases t with
    | nil =>
      rw [List.getLast?_singleton, if_pos rfl] at hna
      exact ⟨hpa, hna, trivial⟩
    | cons c t =>
      rw [List.getLast?_cons_cons, if_neg fun hl => hat (List.mem_of_getLast? hl)] at hna
      refine ⟨hpa, hna.trans hn, ih ht hd ?_ ?_⟩
      · intro x hx
        have h' := hnext x (List.mem_cons_of_mem _ hx)
        rwa [List.getLast?_cons_cons] at h'
      · intro x hx
        have hxa : x ≠ a := fun h => hat (h ▸ hx)
        have h' := hprev x (List.mem_cons_of_mem _ hx)
        rw [List.head?_cons, if_neg fun hh => hxa.symm (Option.some.inj hh)] at h'
        rw [h']
        split
        · rename_i hhead
          exact ht.prev_head hhead
        · rfl

/-- **A cell is linked in** between `l₁` and `l₂`. -/
theorem Linked.insert (h : Linked next prev head (l₁ ++ l₂)) (ha : a ∉ l₁ ++ l₂)
    (hhead : head' = if l₁ = [] then some a else head)
    (hnext : ∀ x, next' x = if x = a then l₂.head? else if l₁.getLast? = some x then some a else next x)
    (hprev : ∀ x, prev' x = if x = a then l₁.getLast? else if l₂.head? = some x then some a else prev x) :
    Linked next' prev' head' (l₁ ++ a :: l₂) := by
  obtain ⟨h₁, h₂⟩ := segment_append.mp h.segment
  obtain ⟨hd₁, hd₂, hdis⟩ := List.nodup_append.mp h.nodup
  have hne : ∀ x, x ∈ l₁ ++ l₂ → x ≠ a := fun x hx hxa => ha (hxa ▸ hx)
  refine ⟨?_, segment_append.mpr ⟨?_, ?_, ?_, ?_⟩, ?_⟩
  · cases l₁ with
    | nil => simpa using hhead
    | cons c t => simpa [h.head] using hhead
  · refine h₁.relink hd₁ (fun x hx => ?_) fun x hx => ?_
    · rw [hnext, if_neg (hne x (List.mem_append_left _ hx))]
      rfl
    · rw [hprev, if_neg (hne x (List.mem_append_left _ hx)),
        if_neg fun hh : l₂.head? = some x => hdis x hx x (List.mem_of_mem_head? hh) rfl]
      split
      · rename_i hh
        exact h₁.prev_head hh
      · rfl
  · rw [hprev, if_pos rfl, Option.or_none]
  · rw [hnext, if_pos rfl, Option.or_none]
  · refine h₂.relink hd₂ (fun x hx => ?_) fun x hx => ?_
    · rw [hnext, if_neg (hne x (List.mem_append_right _ hx)),
        if_neg fun hl => hdis x (List.mem_of_getLast? hl) x hx rfl]
      split
      · rename_i hl
        exact h₂.next_last hl
      · rfl
    · rw [hprev, if_neg (hne x (List.mem_append_right _ hx))]
  · exact List.nodup_middle.mpr (List.nodup_cons.mpr ⟨ha, h.nodup⟩)

/-- **A cell is taken out**; what its own links are afterwards does not matter. -/
theorem Linked.remove (h : Linked next prev head (l₁ ++ a :: l₂))
    (hhead : head' = if l₁ = [] then l₂.head? else head)
    (hnext : ∀ x, x ≠ a → next' x = if l₁.getLast? = some x then l₂.head? else next x)
    (hprev : ∀ x, x ≠ a → prev' x = if l₂.head? = some x then l₁.getLast? else prev x) :
    Linked next' prev' head' (l₁ ++ l₂) := by
  obtain ⟨h₁, -, -, h₂⟩ := segment_append.mp h.segment
  obtain ⟨ha, hd⟩ := List.nodup_cons.mp (List.nodup_middle.mp h.nodup)
  obtain ⟨hd₁, hd₂, hdis⟩ := List.nodup_append.mp hd
  have hne : ∀ x, x ∈ l₁ ++ l₂ → x ≠ a := fun x hx hxa => ha (hxa ▸ hx)
  refine ⟨?_, segment_append.mpr ⟨?_, ?_⟩, hd⟩
  · cases l₁ with
    | nil => simpa using hhead
    | cons c t => simpa [h.head] using hhead
  · rw [Option.or_none]
    refine h₁.relink hd₁ (fun x hx => hnext x (hne x (List.mem_append_left _ hx))) fun x hx => ?_
    rw [hprev x (hne x (List.mem_append_left _ hx)),
      if_neg fun hh : l₂.head? = some x => hdis x hx x (List.mem_of_mem_head? hh) rfl]
    split
    · rename_i hh
      exact h₁.prev_head hh
    · rfl
  · rw [Option.or_none]
    refine h₂.relink hd₂ (fun x hx => ?_) fun x hx => hprev x (hne x (List.mem_append_right _ hx))
    rw [hnext x (hne x (List.mem_append_right _ hx)),
      if_neg fun hl => hdis x (List.mem_of_getLast? hl) x hx rfl]
    split
    · rename_i hl
      exact h₂.next_last hl
    · rfl

/-- **A cell is linked in before the head** of a ring that is not empty, and becomes the head. -/
theorem Ring.insertHead (h : Ring next prev head l) (hl : l ≠ []) (ha : a ∉ l)
    (hnext : ∀ x, next' x = if x = a then l.head? else if l.getLast? = some x then some a else next x)
    (hprev : ∀ x, prev' x = if x = a then l.getLast? else if l.head? = some x then some a else prev x) :
    Ring next' prev' (some a) (a :: l) := by
  have hne : ∀ x, x ∈ l → x ≠ a := fun x hx hxa => ha (hxa ▸ hx)
  refine ⟨rfl, ⟨?_, ?_, ?_⟩, List.nodup_cons.mpr ⟨ha, h.nodup⟩⟩
  · obtain ⟨c, t, rfl⟩ := List.exists_cons_of_ne_nil hl
    rw [hprev, if_pos rfl, List.getLast?_cons_cons]
  · obtain ⟨c, t, rfl⟩ := List.exists_cons_of_ne_nil hl
    rw [hnext, if_pos rfl]
    rfl
  · refine h.segment.relink h.nodup (fun x hx => ?_) fun x hx => ?_
    · rw [hnext, if_neg (hne x hx)]
      rfl
    · rw [hprev, if_neg (hne x hx)]

/-- **A cell is taken out of a ring**: its neighbours name each other, and the head moves on if it was
    the cell. -/
theorem Ring.remove (h : Ring next prev head (l₁ ++ a :: l₂))
    (hnext : ∀ x, x ≠ a → next' x =
      if (l₂ ++ l₁).getLast? = some x then (l₂ ++ l₁).head? else next x)
    (hprev : ∀ x, x ≠ a → prev' x =
      if (l₂ ++ l₁).head? = some x then (l₂ ++ l₁).getLast? else prev x)
    (hhead : head' = if l₁ = [] then l₂.head? else head) : Ring next' prev' head' (l₁ ++ l₂) := by
  obtain ⟨h₁, -, -, h₂⟩ := segment_append.mp h.segment
  obtain ⟨ha, hd⟩ := List.nodup_cons.mp (List.nodup_middle.mp h.nodup)
  obtain ⟨hd₁, hd₂, hdis⟩ := List.nodup_append.mp hd
  have hne : ∀ x, x ∈ l₁ ++ l₂ → x ≠ a := fun x hx hxa => ha (hxa ▸ hx)
  have hhead : head' = (l₁ ++ l₂).head? := by
    cases l₁ with
    | nil => simpa using hhead
    | cons c t => simpa [h.head] using hhead
  refine ⟨hhead, segment_append.mpr ⟨?_, ?_⟩, hd⟩
  · have hlast : ∀ x ∈ l₁, (l₂ ++ l₁).getLast? = l₁.getLast? := fun x hx => by
      obtain ⟨c, t, rfl⟩ := List.exists_cons_of_ne_nil (List.ne_nil_of_mem hx)
      simp [List.getLast?_append, List.getLast?_cons]
    have he : l₂.head?.or (l₁ ++ l₂).head? = (l₂ ++ l₁).head? := by
      cases l₂ <;> simp
    rw [he]
    refine h₁.relink hd₁ (fun x hx => ?_) fun x hx => ?_
    · rw [hnext x (hne x (List.mem_append_left _ hx)), hlast x hx]
    · rw [hprev x (hne x (List.mem_append_left _ hx)), hlast x hx]
      cases l₂ with
      | nil => simp
      | cons c t =>
        have hc : c ≠ x := fun hc => hdis x hx c List.mem_cons_self hc.symm
        rw [List.cons_append, List.head?_cons, if_neg fun hh => hc (Option.some.inj hh)]
        split
        · rename_i hh
          rw [h₁.prev_head hh]
          simp [List.getLast?_append, List.getLast?_cons]
        · rfl
  · have hfirst : ∀ x ∈ l₂, (l₂ ++ l₁).head? = l₂.head? := fun x hx => by
      obtain ⟨c, t, rfl⟩ := List.exists_cons_of_ne_nil (List.ne_nil_of_mem hx)
      rfl
    have hb : l₁.getLast?.or (l₁ ++ l₂).getLast? = (l₂ ++ l₁).getLast? := by
      rw [List.getLast?_append, List.getLast?_append]
      cases l₁.getLast? <;> simp
    rw [hb]
    refine h₂.relink hd₂ (fun x hx => ?_) fun x hx => ?_
    · rw [hnext x (hne x (List.mem_append_right _ hx)), hfirst x hx]
      cases hl : l₁.getLast? with
      | none =>
        rw [List.getLast?_eq_none_iff.mp hl]
        simp
      | some c =>
        have hc : c ≠ x := fun hc => hdis c (List.mem_of_getLast? hl) x hx hc
        rw [List.getLast?_append, hl, Option.some_or, if_neg fun hh => hc (Option.some.inj hh)]
        split
        · rename_i hh
          rw [h₂.next_last hh]
          cases l₁ with
          | nil => simp at hl
          | cons d t => rfl
        · rfl
    · rw [hprev x (hne x (List.mem_append_right _ hx)), hfirst x hx]

/-! ## Families of lists -/

/-- Lists over the same links, of which no two have a cell in common. -/
structure LinkedFamily {ι : Type} (next prev : α → Option α) (heads : ι → Option α)
    (cells : ι → List α) : Prop where
  linked : ∀ i, Linked next prev (heads i) (cells i)
  apart : ∀ i j a, a ∈ cells i → a ∈ cells j → i = j

variable {ι : Type} [DecidableEq ι] {heads : ι → Option α} {cells : ι → List α} {i : ι}

omit [DecidableEq α] [DecidableEq ι] in
theorem LinkedFamily.congr (h : LinkedFamily next prev heads cells)
    (hnext : ∀ i, ∀ x ∈ cells i, next' x = next x) (hprev : ∀ i, ∀ x ∈ cells i, prev' x = prev x) : LinkedFamily next' prev' heads cells :=
  ⟨fun i => (h.linked i).congr (hnext i) (hprev i), h.apart⟩

omit [DecidableEq α] in
theorem mem_update_cells {j : ι} {x : α} (h : x ∈ Function.update cells i l j) :
    (j = i ∧ x ∈ l) ∨ (j ≠ i ∧ x ∈ cells j) := by
  by_cases hj : j = i
  · subst hj
    rw [Function.update_self] at h
    exact .inl ⟨rfl, h⟩
  · rw [Function.update_of_ne hj] at h
    exact .inr ⟨hj, h⟩

/-- A cell of none of the lists is linked into one. -/
theorem LinkedFamily.insert (h : LinkedFamily next prev heads cells) (hi : cells i = l₁ ++ l₂)
    (ha : ∀ j, a ∉ cells j)
    (hhead : head' = if l₁ = [] then some a else heads i)
    (hnext : ∀ x, next' x = if x = a then l₂.head? else if l₁.getLast? = some x then some a else next x)
    (hprev : ∀ x, prev' x = if x = a then l₁.getLast? else if l₂.head? = some x then some a else prev x) :
    LinkedFamily next' prev' (Function.update heads i head') (Function.update cells i (l₁ ++ a :: l₂)) := by
  constructor
  · intro j
    by_cases hj : j = i
    · subst hj
      rw [Function.update_self, Function.update_self]
      exact (hi ▸ h.linked j).insert (hi ▸ ha j) hhead hnext hprev
    · rw [Function.update_of_ne hj, Function.update_of_ne hj]
      have hout : ∀ x ∈ cells j, x ≠ a ∧ x ∉ l₁ ++ l₂ :=
        fun x hx => ⟨fun hxa => ha j (hxa ▸ hx), fun hmem => hj (h.apart j i x hx (hi ▸ hmem))⟩
      apply (h.linked j).congr
      · intro x hx
        obtain ⟨hne, hmem⟩ := hout x hx
        rw [hnext, if_neg hne, if_neg]
        exact fun hl => hmem (List.mem_append_left _ (List.mem_of_getLast? hl))
      · intro x hx
        obtain ⟨hne, hmem⟩ := hout x hx
        rw [hprev, if_neg hne, if_neg]
        exact fun hh => hmem (List.mem_append_right _ (List.mem_of_mem_head? hh))
  · intro j k x hj hk
    have hcell : ∀ j, x ∈ Function.update cells i (l₁ ++ a :: l₂) j → (j = i ∧ x = a) ∨ x ∈ cells j := by
      intro j hx
      obtain ⟨rfl, hmem⟩ | ⟨-, hmem⟩ := mem_update_cells hx
      · by_cases hxa : x = a
        · exact .inl ⟨rfl, hxa⟩
        · refine .inr ?_
          rw [hi]
          simpa [hxa] using hmem
      · exact .inr hmem
    obtain ⟨hji, hxa⟩ | hmem := hcell j hj
    · obtain ⟨hki, -⟩ | hmem' := hcell k hk
      · exact hji.trans hki.symm
      · exact absurd (hxa ▸ hmem') (ha k)
    · obtain ⟨hki, hxa⟩ | hmem' := hcell k hk
      · exact absurd (hxa ▸ hmem) (ha j)
      · exact h.apart j k x hmem hmem'

/-- A cell is taken out of its list. -/
theorem LinkedFamily.remove (h : LinkedFamily next prev heads cells) (hi : cells i = l₁ ++ a :: l₂)
    (hhead : head' = if l₁ = [] then l₂.head? else heads i)
    (hnext : ∀ x, x ≠ a → next' x = if l₁.getLast? = some x then l₂.head? else next x)
    (hprev : ∀ x, x ≠ a → prev' x = if l₂.head? = some x then l₁.getLast? else prev x) :
    LinkedFamily next' prev' (Function.update heads i head') (Function.update cells i (l₁ ++ l₂)) := by
  have hsub : ∀ j x, x ∈ Function.update cells i (l₁ ++ l₂) j → x ∈ cells j := by
    intro j x hx
    obtain ⟨rfl, hmem⟩ | ⟨-, hmem⟩ := mem_update_cells hx
    · rw [hi]
      obtain hl | hr := List.mem_append.mp hmem
      · exact List.mem_append_left _ hl
      · exact List.mem_append_right _ (List.mem_cons_of_mem _ hr)
    · exact hmem
  constructor
  · intro j
    by_cases hj : j = i
    · subst hj
      rw [Function.update_self, Function.update_self]
      exact (hi ▸ h.linked j).remove hhead hnext hprev
    · rw [Function.update_of_ne hj, Function.update_of_ne hj]
      have hout : ∀ x ∈ cells j, x ∉ l₁ ++ a :: l₂ := fun x hx hmem => hj (h.apart j i x hx (hi ▸ hmem))
      apply (h.linked j).congr
      · intro x hx
        have hmem := hout x hx
        rw [hnext x (fun hxa => hmem (by simp [hxa])), if_neg]
        exact fun hl => hmem (List.mem_append_left _ (List.mem_of_getLast? hl))
      · intro x hx
        have hmem := hout x hx
        rw [hprev x (fun hxa => hmem (by simp [hxa])), if_neg]
        exact fun hh => hmem (List.mem_append_right _ (List.mem_cons_of_mem _ (List.mem_of_mem_head? hh)))
  · exact fun j k x hj hk => h.apart j k x (hsub j x hj) (hsub k x hk)

end Simta
