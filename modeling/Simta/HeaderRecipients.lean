import Mathlib.Data.List.GetD
import Simta.HeaderCorrect

/-!
# The recipients that are read from the headers

What `header_correct` does to a block of headers that it accepts.

* `fieldIds`, `fieldTexts` — the lines of a header in the block;
* `Intact` — the list in the course of the function;
* `Intact.onField`, `Intact.removed` — the rules for a header that is read, and for one that is taken out;
* `intact_headerExceptions` — a block of headers, with which the function starts.
-/

set_option autoImplicit false

namespace Simta

variable {conf : HeaderConf} {lines : List Text} {pre touched ids : List Nat} {lf lf' : LineFile} {l i : Nat}

/-! ## The lines of a header -/

/-- How many lines from `i` on continue a header. -/
def foldCount (lines : List Text) (i : Nat) : Nat := ((lines.drop i).takeWhile folds).length

/-- The lines of the header that begins with the line `l`. -/
def fieldIds (lines : List Text) (l : Nat) : List Nat := List.range' l (foldCount lines (l + 1) + 1)

/-- Their texts. -/
def fieldTexts (lines : List Text) (l : Nat) : Field := (fieldIds lines l).map fun i => lines.getD i []

theorem foldCount_eq_zero (h : lines.length ≤ i) : foldCount lines i = 0 := by
  unfold foldCount
  rw [List.drop_eq_nil_of_le h]
  rfl

/-- One line that continues, and those behind it. -/
theorem foldCount_step (h : i < lines.length) :
    foldCount lines i = if folds (lines.getD i []) then foldCount lines (i + 1) + 1 else 0 := by
  unfold foldCount
  rw [List.drop_eq_getElem_cons h, List.takeWhile_cons, List.getD_eq_getElem lines [] h]
  split
  · rfl
  · rfl

theorem foldCount_le (lines : List Text) (i : Nat) : foldCount lines i ≤ lines.length - i := by
  unfold foldCount
  calc ((lines.drop i).takeWhile folds).length ≤ (lines.drop i).length := (List.takeWhile_sublist folds).length_le
    _ = lines.length - i := List.length_drop ..

theorem mem_fieldIds : i ∈ fieldIds lines l ↔ l ≤ i ∧ i ≤ l + foldCount lines (l + 1) := by
  unfold fieldIds
  rw [List.mem_range'_1]
  omega

theorem self_mem_fieldIds : l ∈ fieldIds lines l := mem_fieldIds.mpr ⟨Nat.le_refl l, Nat.le_add_right l _⟩

theorem fieldIds_lt (hl : l < lines.length) (hi : i ∈ fieldIds lines l) : i < lines.length := by
  have hle := foldCount_le lines (l + 1)
  obtain ⟨-, hi⟩ := mem_fieldIds.mp hi
  omega

/-- A line that continues a header folds. -/
theorem folds_of_lt (n : Nat) : ∀ {i : Nat}, n < foldCount lines i → folds (lines.getD (i + n) []) = true := by
  induction n with
  | zero =>
    intro i h
    have hi : i < lines.length := by
      have := foldCount_le lines i
      omega
    rw [foldCount_step hi] at h
    split at h
    · rename_i hfolds
      exact hfolds
    · omega
  | succ n ih =>
    intro i h
    have hi : i < lines.length := by
      have := foldCount_le lines i
      omega
    rw [foldCount_step hi] at h
    split at h
    · have hnext := ih (i := i + 1) (by omega)
      rwa [show i + 1 + n = i + (n + 1) by omega] at hnext
    · omega

/-- **Headers are apart**: two lines that begin a header have no line in common. -/
theorem fieldIds_disjoint {l' : Nat} (hne : l ≠ l') (hl : folds (lines.getD l []) = false)
    (hl' : folds (lines.getD l' []) = false) (hi : i ∈ fieldIds lines l) : i ∉ fieldIds lines l' := by
  have hnot : ∀ {l l' : Nat}, l < l' → folds (lines.getD l' []) = false → l' ∉ fieldIds lines l := by
    intro l l' hlt hl' hmem
    obtain ⟨-, hle⟩ := mem_fieldIds.mp hmem
    have hfolds : folds (lines.getD (l + 1 + (l' - (l + 1))) []) = true := folds_of_lt _ (by omega)
    rw [show l + 1 + (l' - (l + 1)) = l' by omega, hl'] at hfolds
    cases hfolds
  intro hi'
  obtain ⟨h₁, h₂⟩ := mem_fieldIds.mp hi
  obtain ⟨h₃, h₄⟩ := mem_fieldIds.mp hi'
  rcases Nat.lt_or_gt_of_ne hne with hlt | hgt
  · exact hnot hlt hl' (mem_fieldIds.mpr ⟨by omega, by omega⟩)
  · exact hnot hgt hl (mem_fieldIds.mpr ⟨by omega, by omega⟩)

/-! ## The list in the course of the function -/

/-- The list is what was put in front and the block; in its lines local parts have got domains, and only in those
    that were read. -/
structure Intact (conf : HeaderConf) (lines : List Text) (pre touched : List Nat) (lf : LineFile) : Prop where
  list : lf.Lines (pre ++ List.range lines.length)
  completed : ∀ i, i < lines.length → Completed conf.simtaDomain (lines.getD i []) (lf.heap i).lineData
  untouched : ∀ i, i < lines.length → i ∉ touched → (lf.heap i).lineData = lines.getD i []

theorem folds_congr {a b : Text} (h : a.head? = b.head?) : folds a = folds b := by
  unfold folds
  rw [h]

theorem Intact.folds (h : Intact conf lines pre touched lf) (hi : i < lines.length) :
    folds (lf.heap i).lineData = Simta.folds (lines.getD i []) :=
  folds_congr (h.completed i hi).head

/-- The line behind a line of the block. -/
theorem Intact.next (h : Intact conf lines pre touched lf) (hi : i < lines.length) :
    (lf.heap i).lineNext = if i + 1 < lines.length then some (i + 1) else none := by
  have hlinked := h.list.linked
  have hsplit : pre ++ List.range lines.length =
      (pre ++ List.range i) ++ i :: List.range' (i + 1) (lines.length - (i + 1)) := by
    rw [List.append_assoc]
    congr 1
    have hrange : List.range' 0 i 1 ++ List.range' (0 + 1 * i) (lines.length - (i + 1) + 1) 1 = _ := List.range'_append
    rw [Nat.one_mul, Nat.zero_add, List.range'_succ, ← List.range_eq_range', ← List.range_eq_range'] at hrange
    rw [hrange]
    congr 1
    omega
  rw [hsplit] at hlinked
  rw [hlinked.next_eq]
  split
  · rw [show lines.length - (i + 1) = lines.length - (i + 2) + 1 by omega, List.range'_succ]
    rfl
  · rw [show lines.length - (i + 1) = 0 by omega]
    rfl

theorem Intact.length_le (h : Intact conf lines pre touched lf) : lines.length ≤ lf.fresh := by
  cases hn : lines.length with
  | zero => exact Nat.zero_le _
  | succ n =>
    apply h.list.allocated n
    apply List.mem_append_right
    rw [hn]
    exact List.mem_range.mpr (Nat.lt_succ_self n)

/-- What was put in front is no line of the block. -/
theorem Intact.behind (h : Intact conf lines pre touched lf) : ∀ l ∈ pre, lines.length ≤ l := by
  intro l hl
  by_contra hlt
  exact List.disjoint_of_nodup_append h.list.linked.nodup hl (List.mem_range.mpr (Nat.lt_of_not_le hlt))

/-- The lines that continue a header, from the line `i` on. -/
theorem Intact.continued (h : Intact conf lines pre touched lf) (n : Nat) : ∀ {i : Nat}, lines.length ≤ i + n →
    lf.continued n (if i < lines.length then some i else none) = List.range' i (foldCount lines i) ∧
      lf.behind n (if i < lines.length then some i else none) =
        if i + foldCount lines i < lines.length then some (i + foldCount lines i) else none := by
  induction n with
  | zero =>
    intro i hn
    rw [if_neg (by omega), foldCount_eq_zero (by omega), if_neg (by omega)]
    exact ⟨rfl, rfl⟩
  | succ n ih =>
    intro i hn
    by_cases hi : i < lines.length
    · obtain ⟨hcontinued, hbehind⟩ := ih (i := i + 1) (by omega)
      rw [if_pos hi, LineFile.continued, LineFile.behind, h.folds hi, h.next hi, foldCount_step hi]
      cases Simta.folds (lines.getD i []) with
      | false =>
        simp [hi]
      | true =>
        rw [if_pos rfl, if_pos rfl, if_pos rfl, hcontinued, hbehind, List.range'_succ]
        refine ⟨rfl, ?_⟩
        rw [show i + 1 + foldCount lines (i + 1) = i + (foldCount lines (i + 1) + 1) by omega]
    · rw [if_neg hi, foldCount_eq_zero (by omega), if_neg (by omega)]
      exact ⟨rfl, rfl⟩

/-- The lines of a header are those of the block. -/
theorem Intact.fieldOf (h : Intact conf lines pre touched lf) (hl : l < lines.length) :
    lf.fieldOf l = fieldIds lines l := by
  unfold LineFile.fieldOf fieldIds
  rw [h.next hl, (h.continued lf.fresh (by have := h.length_le; omega)).1, List.range'_succ]

/-! ## A header that is read -/

/-- What is found in the pairs of the lines and their new texts. -/
theorem lookup_zip {R : Text → Text → Prop} {old : Nat → Text} {f : Field} (hd : ids.Nodup)
    (h : List.Forall₂ R (ids.map old) f) :
    (∀ i ∈ ids, ∃ t, (ids.zip f).lookup i = some t ∧ R (old i) t) ∧
      (ids.map fun i => ((ids.zip f).lookup i).getD []) = f ∧ ∀ i, i ∉ ids → (ids.zip f).lookup i = none := by
  induction ids generalizing f with
  | nil =>
    cases h
    exact ⟨(fun _ hi => absurd hi List.not_mem_nil), rfl, fun _ _ => rfl⟩
  | cons x ids ih =>
    cases h with
    | cons hx hrest =>
      rename_i t f
      obtain ⟨hnot, hd⟩ := List.nodup_cons.mp hd
      obtain ⟨hall, hmap, hnone⟩ := ih hd hrest
      have hne : ∀ i, i ≠ x → ((x :: ids).zip (t :: f)).lookup i = (ids.zip f).lookup i := by
        intro i hi
        rw [List.zip_cons_cons, List.lookup_cons, beq_false_of_ne hi]
      have hself : ((x :: ids).zip (t :: f)).lookup x = some t := by simp
      refine ⟨?_, ?_, ?_⟩
      · intro i hi
        rcases List.mem_cons.mp hi with rfl | hi
        · exact ⟨t, hself, hx⟩
        · obtain ⟨t', ht', hR⟩ := hall i hi
          refine ⟨t', ?_, hR⟩
          rw [hne i (fun heq => hnot (heq ▸ hi)), ht']
      · have hrest : (ids.map fun i => (((x :: ids).zip (t :: f)).lookup i).getD []) = f := by
          refine (List.map_congr_left fun i hi => ?_).trans hmap
          rw [hne i (fun heq => hnot (heq ▸ hi))]
        rw [List.map_cons, hself, hrest]
        rfl
      · intro i hi
        rw [hne i (fun heq => hi (heq ▸ List.mem_cons_self))]
        exact hnone i fun hmem => hi (List.mem_cons_of_mem x hmem)

theorem nodup_fieldIds : (fieldIds lines l).Nodup := List.nodup_range'

/-- **New texts for a header** that are completed ones. -/
theorem Intact.setTexts (h : Intact conf lines pre touched lf) {f : Field}
    (hf : (lf.texts (fieldIds lines l)).Completed conf.simtaDomain f) :
    Intact conf lines pre (fieldIds lines l ++ touched) (lf.setTexts (fieldIds lines l) f) ∧
      (lf.setTexts (fieldIds lines l) f).texts (fieldIds lines l) = f := by
  have hlookup := @lookup_zip (fieldIds lines l) (Completed conf.simtaDomain) (fun i => (lf.heap i).lineData) f
  obtain ⟨hall, hmap, hnone⟩ := hlookup nodup_fieldIds hf
  have hother : ∀ i, i ∉ fieldIds lines l → (lf.setTexts (fieldIds lines l) f).heap i = lf.heap i := by
    intro i hi
    unfold LineFile.setTexts
    dsimp only
    rw [hnone i hi]
  have hsome : ∀ i t, ((fieldIds lines l).zip f).lookup i = some t →
      (lf.setTexts (fieldIds lines l) f).heap i = { lf.heap i with lineData := t } := by
    intro i t ht
    unfold LineFile.setTexts
    dsimp only
    rw [ht]
  have hlinks : ∀ i, ((lf.setTexts (fieldIds lines l) f).heap i).lineNext = (lf.heap i).lineNext ∧
      ((lf.setTexts (fieldIds lines l) f).heap i).linePrev = (lf.heap i).linePrev := by
    intro i
    by_cases hi : i ∈ fieldIds lines l
    · obtain ⟨t, ht, -⟩ := hall i hi
      rw [hsome i t ht]
      exact ⟨rfl, rfl⟩
    · rw [hother i hi]
      exact ⟨rfl, rfl⟩
  refine ⟨⟨?_, ?_, ?_⟩, ?_⟩
  · exact h.list.congr (fun i => (hlinks i).1) (fun i => (hlinks i).2) rfl rfl rfl
  · intro i hi
    by_cases hmem : i ∈ fieldIds lines l
    · obtain ⟨t, ht, hcompleted⟩ := hall i hmem
      rw [hsome i t ht]
      exact (h.completed i hi).trans hcompleted
    · rw [hother i hmem]
      exact h.completed i hi
  · intro i hi hnot
    rw [List.mem_append, not_or] at hnot
    rw [hother i hnot.1]
    exact h.untouched i hi hnot.2
  · conv_rhs => rw [← hmap]
    apply List.map_congr_left
    intro i hi
    obtain ⟨t, ht, -⟩ := hall i hi
    rw [hsome i t ht, ht]
    rfl

/-- **A header that is read**: what is parsed are the texts of its lines, and only these get new ones. -/
theorem Intact.onField (h : Intact conf lines pre touched lf) (hl : l < lines.length) {off : Nat}
    {parse : Field → CharPtr → Except ParseStop ParsedList} {r : LineFile × ParsedList}
    (hparse : ∀ f r, parse f ⟨0, off⟩ = .ok r → f.Completed conf.simtaDomain r.field)
    (hrun : onField lf l off parse = .ok r) :
    parse (lf.texts (fieldIds lines l)) ⟨0, off⟩ = .ok r.2 ∧
      Intact conf lines pre (fieldIds lines l ++ touched) r.1 ∧ r.1.texts (fieldIds lines l) = r.2.field := by
  unfold Simta.onField at hrun
  rw [h.fieldOf hl] at hrun
  dsimp only at hrun
  split at hrun
  · cases hrun
  · split at hrun
    · cases hrun
    · rename_i r' hr
      cases hrun
      obtain ⟨hintact, htexts⟩ := h.setTexts (hparse _ _ hr)
      exact ⟨hr, hintact, htexts⟩

/-- A header that was not read before has the texts of the block. -/
theorem Intact.texts (h : Intact conf lines pre touched lf) (hl : l < lines.length)
    (hnew : ∀ i ∈ fieldIds lines l, i ∉ touched) : lf.texts (fieldIds lines l) = fieldTexts lines l := by
  unfold LineFile.texts fieldTexts
  apply List.map_congr_left
  intro i hi
  exact h.untouched i (fieldIds_lt hl hi) (hnew i hi)

theorem Intact.mono {touched' : List Nat} (h : Intact conf lines pre touched lf) (hsub : ∀ i ∈ touched, i ∈ touched') :
    Intact conf lines pre touched' lf :=
  ⟨h.list, h.completed, fun i hi hnot => h.untouched i hi fun hmem => hnot (hsub i hmem)⟩

/-- **A header that is put in front.** -/
theorem Intact.prepend (h : Intact conf lines pre touched lf) (data : Text) :
    Intact conf lines (lf.fresh :: pre) touched (lf.prepend data) := by
  have hdata : ∀ i, i < lines.length → ((lf.prepend data).heap i).lineData = (lf.heap i).lineData := by
    intro i hi
    have hne : i ≠ lf.fresh := by
      have := h.length_le
      omega
    unfold LineFile.prepend
    split
    · exact congrArg Line.lineData (Function.update_of_ne hne _ _)
    · rename_i first hfirst
      have hold : first ≠ lf.fresh := by
        have hmem : first ∈ pre ++ List.range lines.length :=
          List.mem_of_mem_head? (h.list.linked.head.symm.trans hfirst)
        exact fun heq => h.list.fresh_notMem (heq ▸ hmem)
      apply (update_write_apply _ _ _ _ (fun line => { line with linePrev := some lf.fresh }) Line.lineData hold i).trans
      rw [if_neg hne]
      simp
  refine ⟨?_, ?_, ?_⟩
  · exact h.list.prepend data
  · intro i hi
    rw [hdata i hi]
    exact h.completed i hi
  · intro i hi hnot
    rw [hdata i hi]
    exact h.untouched i hi hnot

/-! ## A header that is taken out -/

/-- The lines before some lines, these, and the ones behind. -/
theorem range_split {n k : Nat} (hl : l + k ≤ n) :
    List.range n = List.range l ++ (List.range' l k ++ List.range' (l + k) (n - (l + k))) := by
  have hback : List.range' l k 1 ++ List.range' (l + 1 * k) (n - (l + k)) 1 = _ := List.range'_append
  have hfront : List.range' 0 l 1 ++ List.range' (0 + 1 * l) (k + (n - (l + k))) 1 = _ := List.range'_append
  rw [Nat.one_mul] at hback
  rw [Nat.one_mul, Nat.zero_add, ← List.range_eq_range', ← List.range_eq_range'] at hfront
  rw [hback, hfront]
  congr 1
  omega

/-- The lines that are not of the header. -/
theorem filter_fieldIds (hl : l < lines.length) :
    (List.range lines.length).filter (fun i => i ∉ fieldIds lines l) =
      List.range l ++ List.range' (l + (foldCount lines (l + 1) + 1)) (lines.length - (l + (foldCount lines (l + 1) + 1))) := by
  have hle := foldCount_le lines (l + 1)
  have hend : l + (foldCount lines (l + 1) + 1) ≤ lines.length := by omega
  have hout : ∀ i, i < l ∨ l + foldCount lines (l + 1) < i → decide (i ∉ fieldIds lines l) = true := by
    intro i hi
    apply decide_eq_true
    rw [mem_fieldIds]
    omega
  have hin : (fieldIds lines l).filter (fun i => i ∉ fieldIds lines l) = [] := by
    apply List.filter_eq_nil_iff.mpr
    intro i hi
    simpa using hi
  conv_lhs => rw [range_split hend]
  rw [List.filter_append, List.filter_append]
  rw [show List.range' l (foldCount lines (l + 1) + 1) = fieldIds lines l from rfl, hin, List.nil_append]
  congr 1
  · apply List.filter_eq_self.mpr
    intro i hi
    exact hout i (.inl (List.mem_range.mp hi))
  · apply List.filter_eq_self.mpr
    intro i hi
    obtain ⟨hi, -⟩ := List.mem_range'_1.mp hi
    exact hout i (.inr (by omega))

/-- **A header that is taken out**: the other lines are still reached, in their order. -/
theorem Intact.removed (h : Intact conf lines pre touched lf) (hl : l < lines.length) :
    (removeBcc lf l).reached = pre ++ (List.range lines.length).filter (fun i => i ∉ fieldIds lines l) ∧
      ∀ i, ((removeBcc lf l).heap i).lineData = (lf.heap i).lineData := by
  have hle := foldCount_le lines (l + 1)
  have hend : l + (foldCount lines (l + 1) + 1) ≤ lines.length := by omega
  rw [filter_fieldIds hl]
  generalize hback : List.range' (l + (foldCount lines (l + 1) + 1))
    (lines.length - (l + (foldCount lines (l + 1) + 1))) = back
  -- the list in three parts, and what lies behind the header
  have hsplit : pre ++ List.range lines.length = (pre ++ List.range l) ++ (fieldIds lines l ++ back) := by
    rw [range_split hend, hback, List.append_assoc]
    rfl
  have hnext : lf.behind lf.fresh (lf.heap l).lineNext = back.head? := by
    rw [h.next hl, (h.continued lf.fresh (by have := h.length_le; omega)).2, ← hback]
    cases hm : lines.length - (l + (foldCount lines (l + 1) + 1)) with
    | zero =>
      rw [if_neg (by omega)]
      rfl
    | succ m =>
      rw [if_pos (by omega), List.range'_succ]
      rw [show l + 1 + foldCount lines (l + 1) = l + (foldCount lines (l + 1) + 1) by omega]
      rfl
  have hprev : (lf.heap l).linePrev = (pre ++ List.range l).getLast? := by
    have hlinked := h.list.linked
    rw [hsplit, fieldIds, List.range'_succ] at hlinked
    exact hlinked.prev_eq
  have hchained := h.list.chained
  have hnodup := h.list.linked.nodup
  rw [hsplit] at hchained hnodup
  have hsub : ∀ i, i ∈ (pre ++ List.range l) ++ back → i < lf.fresh := by
    intro i hi
    apply h.list.allocated i
    rw [hsplit]
    rcases List.mem_append.mp hi with hi | hi
    · exact List.mem_append_left _ hi
    · exact List.mem_append_right _ (List.mem_append_right _ hi)
  have hnodup' : ((pre ++ List.range l) ++ back).Nodup :=
    hnodup.sublist (List.Sublist.append_left (List.sublist_append_right _ _) _)
  unfold removeBcc
  dsimp only
  rw [hnext, hprev, ← List.append_assoc]
  cases hlast : (pre ++ List.range l).getLast? with
  | none =>
    have hnil : pre ++ List.range l = [] := List.getLast?_eq_none_iff.mp hlast
    have hcut : Chained (fun i => (lf.heap i).lineNext) back.head? (pre ++ List.range l ++ back) := by
      rw [hnil, List.nil_append] at hchained ⊢
      exact hchained.drop
    have hreached : LineFile.reached { lf with lFirst := back.head? } = pre ++ List.range l ++ back :=
      Chained.reached hcut hnodup' hsub
    exact ⟨hreached, fun i => rfl⟩
  | some prev =>
    have hne : pre ++ List.range l ≠ [] := by
      intro hnil
      rw [hnil] at hlast
      cases hlast
    show LineFile.reached (lf.write prev fun line => { line with lineNext := back.head? }) = _ ∧ _
    have hcut : Chained (fun i => ((lf.write prev fun line => { line with lineNext := back.head? }).heap i).lineNext)
        (if pre ++ List.range l = [] then back.head? else lf.lFirst) (pre ++ List.range l ++ back) := by
      apply hchained.cut hnodup
      · intro x hx
        cases hlast.symm.trans hx
        rw [lf.write_heap, if_pos rfl]
      · intro x _ hx
        have hxprev : x ≠ prev := by
          rintro rfl
          exact hx hlast
        rw [lf.write_heap, if_neg hxprev]
    rw [if_neg hne] at hcut
    refine ⟨hcut.reached hnodup' hsub, fun i => ?_⟩
    dsimp only
    rw [lf.write_heap]
    split <;> rfl

/-! ## The start -/

/-- The list of a block. -/
theorem intact_lineFile (conf : HeaderConf) (lines : List Text) :
    Intact conf lines [] [] (lineFile lines) ∧ (lineFile lines).fresh = lines.length := by
  induction lines using List.reverseRecOn with
  | nil => exact ⟨⟨lines_create, (fun _ h => by cases h), (fun _ h => by cases h)⟩, rfl⟩
  | append_singleton lines line ih =>
    obtain ⟨h, hfresh⟩ := ih
    have happend : lineFile (lines ++ [line]) = (lineFile lines).append line := by
      unfold lineFile
      rw [List.foldl_append]
      rfl
    have hlength : (lines ++ [line]).length = lines.length + 1 := List.length_append
    have hnew : ((lineFile lines).append line).fresh = lines.length + 1 := by
      unfold LineFile.append
      split <;> exact congrArg (· + 1) hfresh
    have hdata : ∀ i, i < lines.length + 1 →
        (((lineFile lines).append line).heap i).lineData = (lines ++ [line]).getD i [] := by
      intro i hi
      have hsame : (lines ++ [line]).getD i [] = if i = lines.length then line else lines.getD i [] := by
        by_cases hlast : i = lines.length
        · rw [if_pos hlast, hlast, List.getD_append_right _ _ _ _ (Nat.le_refl _), Nat.sub_self]
          rfl
        · rw [if_neg hlast, List.getD_append _ _ _ _ (by omega)]
      have hold : i ≠ lines.length → ((lineFile lines).heap i).lineData = lines.getD i [] :=
        fun hne => h.untouched i (by omega) List.not_mem_nil
      rw [hsame]
      unfold LineFile.append
      split
      · show (Function.update (lineFile lines).heap (lineFile lines).fresh ⟨none, none, line⟩ i : Line).lineData = _
        rw [hfresh]
        by_cases hlast : i = lines.length
        · rw [if_pos hlast, hlast, Function.update_self]
        · rw [if_neg hlast, Function.update_of_ne hlast, hold hlast]
      · rename_i last hl
        have hne : last ≠ (lineFile lines).fresh := by
          have hmem : last ∈ [] ++ List.range lines.length :=
            List.mem_of_getLast? (h.list.last.symm.trans hl)
          exact fun heq => h.list.fresh_notMem (heq ▸ hmem)
        apply (update_write_apply _ _ _ _ (fun line => { line with lineNext := some (lineFile lines).fresh })
          Line.lineData hne i).trans
        rw [hfresh]
        by_cases hlast : i = lines.length
        · rw [if_pos hlast, if_pos hlast]
        · rw [if_neg hlast, if_neg hlast, ite_self, hold hlast]
    rw [happend]
    refine ⟨⟨?_, ?_, ?_⟩, hnew.trans hlength.symm⟩
    · have hlist := h.list.append line
      rw [hlength, List.range_succ]
      rwa [List.nil_append, hfresh] at hlist
    · intro i hi
      rw [hlength] at hi
      rw [hdata i hi]
      exact .refl _
    · intro i hi _
      rw [hlength] at hi
      exact hdata i hi

theorem toLower_blank (c : Char) (h : c.toLower = ' ') : c = ' ' := (toLower_eq_iff (by decide)).mp h

/-- A header has a name, with a colon behind it. -/
theorem fieldName_some {line : Text} (h : (fieldName line).isSome = true) :
    ∃ name body, name ≠ [] ∧ line = name ++ ':' :: body ∧ ∀ c ∈ name, isFieldName c = true := by
  unfold fieldName at h
  split at h
  · rename_i body hbody
    split at h
    · cases h
    · rename_i hne
      refine ⟨line.takeWhile isFieldName, body, hne, ?_, fun c hc => List.mem_takeWhile_imp hc⟩
      rw [← hbody]
      exact List.takeWhile_append_dropWhile.symm
  · cases h

/-- A header is no line of a mailbox file. -/
theorem headerException_of_header {line : Text} (h : (fieldName line).isSome = true) : headerException line = line := by
  obtain ⟨name, body, -, rfl, hname⟩ := fieldName_some h
  unfold headerException
  rw [if_neg]
  rintro ⟨hfrom, -⟩
  have hfive := of_decide_eq_true hfrom
  by_cases hlength : name.length < 5
  · -- the colon stands where the text has none
    have hcolon : Char.toLower ':' ∈ ((name ++ ':' :: body).take 5).map Char.toLower := by
      apply List.mem_map_of_mem
      rw [List.take_append]
      apply List.mem_append_right
      rw [show (5 : Nat) - name.length = (4 - name.length) + 1 by omega, List.take_succ_cons]
      exact List.mem_cons_self
    rw [show "From ".toList.length = 5 from rfl] at hfive
    rw [hfive] at hcolon
    revert hcolon
    decide
  · -- the blank stands in the name
    have hblank : Char.toLower ' ' ∈ ((name ++ ':' :: body).take 5).map Char.toLower := by
      rw [show "From ".toList.length = 5 from rfl] at hfive
      rw [hfive]
      decide
    rw [List.take_append_of_le_length (by omega)] at hblank
    obtain ⟨c, hc, hlower⟩ := List.mem_map.mp hblank
    have hfield := hname c (List.mem_of_mem_take hc)
    rw [toLower_blank c hlower] at hfield
    revert hfield
    decide

/-- What is known of the lines of a block. -/
theorem headerBlock_line (hblock : headerBlock lines = true) (hi : i < lines.length)
    (hfolds : folds (lines.getD i []) = false) : (fieldName (lines.getD i [])).isSome = true := by
  have hall : ∀ (n : Nat) (line : Text), isHeaderText n line = true → folds line = false →
      (fieldName line).isSome = true := by
    intro n line htext hfolds
    unfold isHeaderText at htext
    split at htext
    · cases htext
    · rw [if_neg (by rw [hfolds]; exact Bool.false_ne_true)] at htext
      exact htext
  cases lines with
  | nil => cases hi
  | cons first rest =>
    obtain ⟨hfirst, hrest⟩ := Bool.and_eq_true_iff.mp hblock
    cases i with
    | zero => exact hall 1 _ hfirst hfolds
    | succ i =>
      have hmem : rest.getD i [] ∈ rest := by
        rw [List.getD_eq_getElem rest [] (Nat.lt_of_succ_lt_succ hi)]
        exact List.getElem_mem _
      exact hall 2 _ (List.all_eq_true.mp hrest _ hmem) hfolds

/-- A block of headers stays as it is at first. -/
theorem intact_headerExceptions (conf : HeaderConf) (hblock : headerBlock lines = true) :
    Intact conf lines [] [] (headerExceptions (lineFile lines)) := by
  obtain ⟨h, hfresh⟩ := intact_lineFile conf lines
  unfold headerExceptions
  split
  · exact h
  · rename_i first hfirst
    have hhead : (List.range lines.length).head? = some first := h.list.linked.head.symm.trans hfirst
    cases lines with
    | nil => cases hhead
    | cons line rest =>
      rw [List.length_cons, List.range_succ_eq_map] at hhead
      cases hhead
      -- the first line begins a header
      have hline : (fieldName line).isSome = true := by
        obtain ⟨htext, -⟩ := Bool.and_eq_true_iff.mp hblock
        unfold isHeaderText at htext
        split at htext
        · cases htext
        · split at htext
          · cases htext
          · exact htext
      have hdata : ((lineFile (line :: rest)).heap 0).lineData = line :=
        h.untouched 0 (Nat.succ_pos _) List.not_mem_nil
      have hsame : (lineFile (line :: rest)).write 0 (fun l => { l with lineData := headerException l.lineData }) =
          lineFile (line :: rest) := by
        unfold LineFile.write
        dsimp only
        rw [hdata, headerException_of_header hline]
        have hcell : ∀ cell : Line, cell.lineData = line → ({ cell with lineData := line } : Line) = cell := by
          rintro ⟨_, _, _⟩ rfl
          rfl
        rw [hcell _ hdata, Function.update_eq_self]
      rw [hsame]
      exact h

end Simta
