import Simta.Lib.Links
import Simta.RemoteHosts

/-!
# The retry list, and when a delivery ends

What holds of the pointers of `deliver_remote` over every run, and the measure by which its loop comes to an end.

* `RetryList`, `ResultsLive` — the doubly linked list with its three pointers, and the DNS results;
* `connectionDataCreate_linked`, `connectionDataFree_linked` — the two operations on the list;
* `lookupPtr_spec`, `remoteTry_spec` — one lookup and one turn of the loop: no fault, and the measure;
* `deliverRemotePtr_ends` — when the loop comes to an end; `punt_cycles` — a run that does not.
-/

set_option autoImplicit false

namespace Simta

/-! ## The invariants -/

namespace Remote

def nextCell (d : Remote) (a : Addr) : Option Addr := (d.cells a).bind ConnectionData.cNext
def prevCell (d : Remote) (a : Addr) : Option Addr := (d.cells a).bind ConnectionData.cPrev

@[simp] theorem setCell_cells (d : Remote) (a b : Addr) (c : Option ConnectionData) :
    (d.setCell a c).cells b = if b = a then c else d.cells b := rfl
@[simp] theorem setResult_results (d : Remote) (r s : Addr) (l : Option (List MxAnswer)) :
    (d.setResult r l).results s = if s = r then l else d.results s := rfl

end Remote

/-- The retry list is doubly linked and has the cells of `l`, which are the live ones; its tail and the cursor are cells of
    it or `NULL`. -/
structure RetryList (d : Remote) (l : List Addr) : Prop where
  linked : Linked d.nextCell d.prevCell d.dRetryList l
  last : d.dRetryListEnd = l.getLast?
  live : ∀ a, (d.cells a).isSome ↔ a ∈ l
  cur : ∀ a, d.dRetryCur = some a → a ∈ l
  bound : ∀ a ∈ l, a < d.fresh

/-- The DNS results that the delivery holds have not been freed, and are two. -/
structure ResultsLive (d : Remote) : Prop where
  result : ∀ r, d.dDnsrResult = some r → (d.results r).isSome
  resultIp : ∀ r, d.dDnsrResultIp = some r → (d.results r).isSome ∧ d.dDnsrResult ≠ some r ∧ d.dDnsrResult ≠ none
  bound : ∀ r, (d.results r).isSome → r < d.fresh

/-! ## The operations on the list -/

section List

variable {d d' : Remote} {l l₁ l₂ : List Addr} {a : Addr} {c : ConnectionData}

/-- Only the retry list has changed. -/
def ListOnly (d d' : Remote) : Prop :=
  d' = { d with
    dRetryList := d'.dRetryList, dRetryListEnd := d'.dRetryListEnd, dRetryCur := d'.dRetryCur
    cells := d'.cells, fresh := d'.fresh }

theorem RetryList.cell (h : RetryList d l) (ha : a ∈ l) : ∃ c, d.cells a = some c :=
  Option.isSome_iff_exists.mp ((h.live a).mpr ha)

theorem RetryList.notMem_fresh (h : RetryList d l) : d.fresh ∉ l := fun hmem => absurd (h.bound _ hmem) (Nat.lt_irrefl _)

/-- **A new entry** at the end of the list. -/
theorem connectionDataCreate_linked (h : RetryList d l) :
    ∃ d', d.connectionDataCreate = some d' ∧ RetryList d' (l ++ [d.fresh]) ∧ ListOnly d d' ∧ d.fresh ≤ d'.fresh ∧
      d'.dRetryCur = d.dRetryCur := by
  have hfresh := h.notMem_fresh
  unfold Remote.connectionDataCreate
  rw [h.last]
  cases hlast : l.getLast? with
  | none =>
    have hl : l = [] := List.getLast?_eq_none_iff.mp hlast
    subst hl
    refine ⟨_, rfl, ⟨?_, rfl, ?_, ?_, ?_⟩, rfl, Nat.le_succ _, rfl⟩
    · refine ⟨rfl, ⟨?_, ?_, trivial⟩, List.nodup_singleton _⟩ <;> simp [Remote.nextCell, Remote.prevCell]
    · intro b
      have hb := h.live b
      simp only [Remote.setCell_cells, List.nil_append, List.mem_singleton, List.not_mem_nil, iff_false] at hb ⊢
      split
      · simpa
      · rename_i hne
        simpa [hne] using hb
    · intro b hb
      cases h.cur b hb
    · intro b hb
      simp only [List.nil_append, List.mem_singleton] at hb
      exact hb ▸ Nat.lt_succ_self _
  | some last =>
    have hmem : last ∈ l := List.mem_of_getLast? hlast
    obtain ⟨c, hc⟩ := h.cell hmem
    have hne : last ≠ d.fresh := fun heq => hfresh (heq ▸ hmem)
    have hl : l ≠ [] := List.ne_nil_of_mem hmem
    show ∃ d', (d.cells last).bind _ = some d' ∧ _
    rw [hc]
    refine ⟨_, rfl, ⟨?_, ?_, ?_, ?_, ?_⟩, rfl, Nat.le_succ _, rfl⟩
    · have hlinked : Linked d.nextCell d.prevCell d.dRetryList (l ++ []) := by
        rw [List.append_nil]
        exact h.linked
      apply hlinked.insert (by rwa [List.append_nil])
      · rw [if_neg hl]
        rfl
      · intro x
        simp only [Remote.nextCell, Remote.setCell_cells, hlast, List.head?_nil]
        by_cases hx : x = d.fresh
        · simp [hx]
        · by_cases hxl : x = last
          · simp [hxl, hne]
          · simp [hx, hxl, Ne.symm hxl]
      · intro x
        simp only [Remote.prevCell, Remote.setCell_cells, hlast, List.head?_nil]
        by_cases hx : x = d.fresh
        · simp [hx]
        · by_cases hxl : x = last
          · simp [hxl, hne, hc]
          · simp [hx, hxl]
    · simp
    · intro b
      have hb := h.live b
      simp only [Remote.setCell_cells, List.mem_append, List.mem_singleton] at hb ⊢
      split
      · simp_all
      · split
        · rename_i hbl
          simp [hbl, hmem]
        · rename_i hnb _
          simpa [hnb] using hb
    · intro b hb
      exact List.mem_append_left _ (h.cur b hb)
    · intro b hb
      obtain hb | hb := List.mem_append.mp hb
      · exact Nat.lt_succ_of_lt (h.bound b hb)
      · exact List.mem_singleton.mp hb ▸ Nat.lt_succ_self _

theorem RetryList.nextCell_eq (h : RetryList d (l₁ ++ a :: l₂)) (hc : d.cells a = some c) : c.cNext = l₂.head? := by
  have hnext := h.linked.next_eq
  unfold Remote.nextCell at hnext
  rw [hc] at hnext
  exact hnext

theorem RetryList.prevCell_eq (h : RetryList d (l₁ ++ a :: l₂)) (hc : d.cells a = some c) : c.cPrev = l₁.getLast? := by
  have hprev := h.linked.prev_eq
  unfold Remote.prevCell at hprev
  rw [hc] at hprev
  exact hprev

/-- The links from the front. -/
theorem unlinkNext_eq (hp : c.cPrev = l₁.getLast?) (hlive : ∀ b ∈ l₁, (d.cells b).isSome) :
    ∃ d', d.unlinkNext c = some d' ∧ (∀ b, d'.cells b = if l₁.getLast? = some b then
        (d.cells b).map fun x => { x with cNext := c.cNext } else d.cells b) ∧
      d' = { d with cells := d'.cells, dRetryList := if l₁ = [] then c.cNext else d.dRetryList } := by
  unfold Remote.unlinkNext
  rw [hp]
  cases hlast : l₁.getLast? with
  | none =>
    have hl : l₁ = [] := List.getLast?_eq_none_iff.mp hlast
    refine ⟨_, rfl, ?_, by rw [if_pos hl]⟩
    intro b
    rw [if_neg (by rintro ⟨⟩)]
  | some p =>
    have hmem : p ∈ l₁ := List.mem_of_getLast? hlast
    obtain ⟨x, hx⟩ := Option.isSome_iff_exists.mp (hlive p hmem)
    show ∃ d', (d.cells p).map _ = some d' ∧ _
    rw [hx]
    refine ⟨_, rfl, ?_, by rw [if_neg (List.ne_nil_of_mem hmem)]; rfl⟩
    intro b
    rw [Remote.setCell_cells]
    by_cases hb : b = p
    · rw [if_pos hb, if_pos (congrArg some hb.symm), hb, hx]
      rfl
    · rw [if_neg hb, if_neg (by simpa using Ne.symm hb)]

/-- The links from behind, with the cursor. -/
theorem unlinkPrev_eq (hn : c.cNext = l₂.head?) (hlive : ∀ b ∈ l₂, (d.cells b).isSome) :
    ∃ d', d.unlinkPrev c = some d' ∧ (∀ b, d'.cells b = if l₂.head? = some b then
        (d.cells b).map fun x => { x with cPrev := c.cPrev } else d.cells b) ∧
      d' = { d with
        cells := d'.cells, dRetryListEnd := if l₂ = [] then c.cPrev else d.dRetryListEnd
        dRetryCur := l₂.head?.or d.dRetryList } := by
  unfold Remote.unlinkPrev
  rw [hn]
  cases l₂ with
  | nil =>
    refine ⟨_, rfl, ?_, rfl⟩
    intro b
    rw [if_neg (by rintro ⟨⟩)]
  | cons n l₂ =>
    obtain ⟨x, hx⟩ := Option.isSome_iff_exists.mp (hlive n List.mem_cons_self)
    show ∃ d', (d.cells n).map _ = some d' ∧ _
    rw [hx]
    refine ⟨_, rfl, ?_, rfl⟩
    intro b
    show (d.setCell n _).cells b = _
    rw [Remote.setCell_cells, List.head?_cons]
    by_cases hb : b = n
    · rw [if_pos hb, if_pos (congrArg some hb.symm), hb, hx]
      rfl
    · rw [if_neg hb, if_neg (by simpa using Ne.symm hb)]

/-- **An entry is taken out**; the cursor goes on to the next one, or back to the head. -/
theorem connectionDataFree_linked (h : RetryList d (l₁ ++ a :: l₂)) :
    ∃ d', d.connectionDataFree a = some d' ∧ RetryList d' (l₁ ++ l₂) ∧ ListOnly d d' ∧ d'.fresh = d.fresh ∧
      d'.dRetryCur = l₂.head?.or (l₁ ++ l₂).head? := by
  obtain ⟨c, hc⟩ := h.cell (a := a) (by simp)
  have hn := h.nextCell_eq hc
  have hp := h.prevCell_eq hc
  obtain ⟨ha, hd⟩ := List.nodup_cons.mp (List.nodup_middle.mp h.linked.nodup)
  have hdis := (List.nodup_append.mp hd).2.2
  have hlast : ∀ b, l₁.getLast? = some b → b ≠ a ∧ l₂.head? ≠ some b := by
    intro b hb
    have hmem := List.mem_of_getLast? hb
    constructor
    · rintro rfl
      exact ha (List.mem_append_left _ hmem)
    · intro hhead
      exact hdis b hmem b (List.mem_of_mem_head? hhead) rfl
  have hhead : ∀ b, l₂.head? = some b → b ≠ a := by
    rintro b hb rfl
    exact ha (List.mem_append_right _ (List.mem_of_mem_head? hb))
  obtain ⟨d₁, hd₁, hcells₁, hframe₁⟩ := unlinkNext_eq (d := d) hp fun b hb => (h.live b).mpr (by simp [hb])
  have hc₁ : d₁.cells a = some c := by
    rw [hcells₁, if_neg fun hb => (hlast a hb).1 rfl, hc]
  have hlive₁ : ∀ b ∈ l₂, (d₁.cells b).isSome := by
    intro b hb
    have hsome := (h.live b).mpr (by simp [hb])
    rw [hcells₁]
    split
    · simpa using hsome
    · exact hsome
  obtain ⟨d₂, hd₂, hcells₂, hframe₂⟩ := unlinkPrev_eq (d := d₁) hn hlive₁
  have hlist₁ : d₁.dRetryList = if l₁ = [] then l₂.head? else d.dRetryList := by
    rw [hframe₁, ← hn]
  have hfree : d.connectionDataFree a = some (d₂.setCell a none) := by
    unfold Remote.connectionDataFree
    rw [hc]
    show (d.unlinkNext c).bind _ = _
    rw [hd₁]
    show (d₁.cells a).bind _ = _
    rw [hc₁]
    show (d₁.unlinkPrev c).bind _ = _
    rw [hd₂]
    rfl
  have hcell : ∀ b, b ≠ a → (d₂.setCell a none).cells b = if l₂.head? = some b then
      (d.cells b).map (fun x => { x with cPrev := l₁.getLast? }) else if l₁.getLast? = some b then
      (d.cells b).map (fun x => { x with cNext := l₂.head? }) else d.cells b := by
    intro b hb
    rw [Remote.setCell_cells, if_neg hb, hcells₂, hcells₁, ← hp, ← hn]
    split
    · rename_i hhd
      rw [if_neg fun hl => (hlast b (hp ▸ hl)).2 (hn ▸ hhd)]
    · rfl
  have hlist₂ : d₂.dRetryList = (l₁ ++ l₂).head? := by
    have heq : d₂.dRetryList = d₁.dRetryList := by rw [hframe₂]
    rw [heq, hlist₁]
    cases l₁ with
    | nil => rfl
    | cons b l₁ =>
      rw [if_neg (List.cons_ne_nil _ _), h.linked.head]
      rfl
  have hcur : (d₂.setCell a none).dRetryCur = l₂.head?.or (l₁ ++ l₂).head? := by
    have heq : d₂.dRetryCur = l₂.head?.or d₁.dRetryList := by rw [hframe₂]
    have hlist : d₁.dRetryList = d₂.dRetryList := by rw [hframe₂]
    show d₂.dRetryCur = _
    rw [heq, hlist, hlist₂]
  refine ⟨_, hfree, ⟨?_, ?_, ?_, ?_, ?_⟩, ?_, ?_, hcur⟩
  · apply h.linked.remove
    · show d₂.dRetryList = _
      rw [hframe₂, hlist₁]
    · intro x hx
      unfold Remote.nextCell
      rw [hcell x hx]
      split
      · rename_i hhd
        rw [if_neg fun hl => (hlast x hl).2 hhd]
        cases d.cells x <;> rfl
      · split
        · rename_i hl
          have hsome := (h.live x).mpr (by simp [List.mem_of_getLast? hl])
          obtain ⟨y, hy⟩ := Option.isSome_iff_exists.mp hsome
          rw [hy]
          rfl
        · rfl
    · intro x hx
      unfold Remote.prevCell
      rw [hcell x hx]
      split
      · rename_i hhd
        have hsome := (h.live x).mpr (by simp [List.mem_of_mem_head? hhd])
        obtain ⟨y, hy⟩ := Option.isSome_iff_exists.mp hsome
        rw [hy]
        rfl
      · split
        · cases d.cells x <;> rfl
        · rfl
  · have heq : d₂.dRetryListEnd = if l₂ = [] then c.cPrev else d.dRetryListEnd := by rw [hframe₂, hframe₁]
    show d₂.dRetryListEnd = _
    rw [heq, hp, h.last]
    cases l₂ with
    | nil => rw [if_pos rfl, List.append_nil]
    | cons n l₂ =>
      rw [if_neg (List.cons_ne_nil _ _)]
      simp [List.getLast?_append, List.getLast?_cons]
  · intro b
    by_cases hb : b = a
    · subst hb
      simpa [Remote.setCell_cells] using ha
    · have hmem : b ∈ l₁ ++ a :: l₂ ↔ b ∈ l₁ ++ l₂ := by simp [hb]
      rw [hcell b hb, ← hmem, ← h.live b]
      split
      · simp
      · split <;> simp
  · intro b hb
    rw [hcur] at hb
    obtain hb | ⟨-, hb⟩ := Option.or_eq_some_iff.mp hb
    · exact List.mem_append_right _ (List.mem_of_mem_head? hb)
    · exact List.mem_of_mem_head? hb
  · intro b hb
    have hbound := h.bound b (by simp only [List.mem_append, List.mem_cons] at hb ⊢; tauto)
    show b < d₂.fresh
    rw [hframe₂, hframe₁]
    exact hbound
  · show d₂.setCell a none = _
    rw [hframe₂, hframe₁]
    rfl
  · show d₂.fresh = _
    rw [hframe₂, hframe₁]

end List

/-! ## The measure -/

namespace Remote

/-- The answers that are still to be looked at. -/
def answersLeft (d : Remote) : Nat := d.answers - (d.dCurDnsrResult + 1).toNat

/-- The addresses of the current exchanger that are still to be looked at. -/
def addressesLeft (d : Remote) : Nat :=
  ((d.dDnsrResultIp.bind d.results).getD []).length - (d.dCurDnsrResultIp + 1).toNat

/-- What is left of the addresses and of the retry list `l`. -/
def walk (d : Remote) (l : List Addr) : Nat :=
  d.addressesLeft + 2 * l.length + if d.dRetryCur = none then 1 else 0

end Remote

/-- What the walk over the hosts does not change: the state of the queue, the connection, and the answers that are walked. -/
structure Walking (d d' : Remote) : Prop where
  status : d'.hqStatus = d.hqStatus
  snet : d'.dSnetSmtp = d.dSnetSmtp
  movement : d'.dQueueMovement = d.dQueueMovement
  result : d'.dDnsrResult = d.dDnsrResult
  answers : ∀ r, d.dDnsrResult = some r → d'.results r = d.results r

theorem Walking.refl (d : Remote) : Walking d d := ⟨rfl, rfl, rfl, rfl, fun _ _ => rfl⟩

theorem Walking.trans {d d' d'' : Remote} (h : Walking d d') (h' : Walking d' d'') : Walking d d'' :=
  ⟨h'.status.trans h.status, h'.snet.trans h.snet, h'.movement.trans h.movement, h'.result.trans h.result,
    fun r hr => (h'.answers r (h.result.trans hr)).trans (h.answers r hr)⟩

theorem Walking.answers_eq {d d' : Remote} (h : Walking d d') : d'.answers = d.answers := by
  unfold Remote.answers
  rw [h.result]
  cases hr : d.dDnsrResult with
  | none => rfl
  | some r =>
    show ((d'.results r).getD []).length = _
    rw [h.answers r hr]
    rfl

/-- The retry list with its cells `l`, and the DNS results. -/
structure HostsHold (d : Remote) (l : List Addr) : Prop where
  list : RetryList d l
  live : ResultsLive d

/-- What `HostsHold` speaks of. -/
structure SameHold (d d' : Remote) : Prop where
  head : d'.dRetryList = d.dRetryList
  last : d'.dRetryListEnd = d.dRetryListEnd
  cells : d'.cells = d.cells
  result : d'.dDnsrResult = d.dDnsrResult
  resultIp : d'.dDnsrResultIp = d.dDnsrResultIp
  results : d'.results = d.results
  fresh : d'.fresh = d.fresh

section Hold

variable {d d' : Remote} {l : List Addr}

theorem HostsHold.same (h : HostsHold d l) (hs : SameHold d d') (hcur : ∀ a, d'.dRetryCur = some a → a ∈ l) :
    HostsHold d' l := by
  refine ⟨⟨?_, ?_, ?_, hcur, ?_⟩, ⟨?_, ?_, ?_⟩⟩
  · have hlinked := h.list.linked
    unfold Remote.nextCell Remote.prevCell at hlinked ⊢
    rw [hs.head, hs.cells]
    exact hlinked
  · rw [hs.last]
    exact h.list.last
  · rw [hs.cells]
    exact h.list.live
  · rw [hs.fresh]
    exact h.list.bound
  · rw [hs.result, hs.results]
    exact h.live.result
  · rw [hs.resultIp, hs.result, hs.results]
    exact h.live.resultIp
  · rw [hs.fresh, hs.results]
    exact h.live.bound

/-- A new DNS result is none of those at hand. -/
theorem HostsHold.newResult (h : HostsHold d l) (answers : List MxAnswer) :
    HostsHold (d.addResult answers) l ∧ ∀ r, (d.results r).isSome → (d.addResult answers).results r = d.results r := by
  have hkept : ∀ r, (d.results r).isSome → (d.addResult answers).results r = d.results r := by
    intro r hr
    have hne : r ≠ d.fresh := fun heq => absurd (h.live.bound r hr) (heq ▸ Nat.lt_irrefl _)
    show (d.setResult d.fresh (some answers)).results r = _
    rw [Remote.setResult_results, if_neg hne]
  refine ⟨⟨⟨h.list.linked, h.list.last, h.list.live, h.list.cur, ?_⟩, ⟨?_, ?_, ?_⟩⟩, hkept⟩
  · exact fun a ha => Nat.lt_succ_of_lt (h.list.bound a ha)
  · intro r hr
    have hsome := h.live.result r hr
    rw [← hkept r hsome] at hsome
    exact hsome
  · intro r hr
    obtain ⟨hsome, hne⟩ := h.live.resultIp r hr
    rw [← hkept r hsome] at hsome
    exact ⟨hsome, hne⟩
  · intro r hr
    by_cases hf : r = d.fresh
    · exact hf ▸ Nat.lt_succ_self _
    · have hr' : (d.results r).isSome := by
        change (if r = d.fresh then some answers else d.results r).isSome at hr
        rwa [if_neg hf] at hr
      exact Nat.lt_succ_of_lt (h.live.bound r hr')

/-- A DNS result that is no longer held is freed. -/
theorem HostsHold.freeResult (h : HostsHold d l) {r : Addr} (hsome : (d.results r).isSome)
    (hresult : d.dDnsrResult ≠ some r) (hip : d.dDnsrResultIp ≠ some r) :
    ∃ d', d.freeResult r = some d' ∧ d' = d.setResult r none ∧ HostsHold d' l := by
  obtain ⟨x, hx⟩ := Option.isSome_iff_exists.mp hsome
  refine ⟨d.setResult r none, ?_, rfl, ⟨h.list.linked, h.list.last, h.list.live, h.list.cur, h.list.bound⟩, ⟨?_, ?_, ?_⟩⟩
  · unfold Remote.freeResult
    rw [hx]
    rfl
  · intro s hs
    have hne : s ≠ r := by
      rintro rfl
      exact hresult hs
    rw [Remote.setResult_results, if_neg hne]
    exact h.live.result s hs
  · intro s hs
    have hne : s ≠ r := by
      rintro rfl
      exact hip hs
    rw [Remote.setResult_results, if_neg hne]
    exact h.live.resultIp s hs
  · intro s hs
    rw [Remote.setResult_results] at hs
    split at hs
    · cases hs
    · exact h.live.bound s hs

end Hold

/-! ## The walk over the hosts -/

/-- No run faults, and every run ends in `Q`. -/
abbrev EndsIn {α : Type} (m : Rem α) (Q : α → Remote → Prop) (d : Remote) : Prop :=
  m.wlp Prog.anyAnswer False (fun a d' _ => Q a d') d ()

/-- A change of the state that is defined. -/
theorem wlp_update_some {f : Remote → Option Remote} {Q : PUnit → Remote → Unit → Prop} {d d' : Remote}
    (hf : f d = some d') (hQ : Q ⟨⟩ d' ()) : (Faulty.update f : Rem PUnit).wlp Prog.anyAnswer False Q d () := by
  apply Faulty.wlp_update.mpr
  constructor
  · intro hnone
    cases hnone.symm.trans hf
  · intro u hu
    cases hu.symm.trans hf
    exact hQ

/-- A value that is there. -/
theorem wlp_read_some {α : Type} {f : Remote → Option α} {Q : α → Remote → Unit → Prop} {d : Remote} {a : α}
    (hf : f d = some a) (hQ : Q a d ()) : (Faulty.read f : Rem α).wlp Prog.anyAnswer False Q d () := by
  apply Faulty.wlp_read.mpr
  constructor
  · intro hnone
    cases hnone.symm.trans hf
  · intro b hb
    cases hb.symm.trans hf
    exact hQ

section Walk

variable {conf : DeliverConf} {d d' : Remote} {l : List Addr} {all rest : List MxAnswer} {i record : Nat} {r a : Addr}

theorem HostsHold.setSin (h : HostsHold d l) (t : Target) : HostsHold { d with dSin := t } l :=
  h.same ⟨rfl, rfl, rfl, rfl, rfl, rfl, rfl⟩ h.list.cur

/-- The address under the cursor. -/
theorem retryPtr_spec (h : HostsHold d l) (hcur : d.dRetryCur = some a) :
    EndsIn retryPtr (fun ret d' => ret = .found ∧ ∃ t, d' = { d with dSin := t }) d := by
  obtain ⟨c, hc⟩ := h.list.cell (h.list.cur a hcur)
  have htarget : d.retryTarget = some c.cSin := by
    unfold Remote.retryTarget
    rw [hcur]
    show (d.cells a).bind _ = _
    rw [hc]
    rfl
  unfold retryPtr
  apply (Faulty.wlp_bind _ _).mpr
  apply wlp_read_some htarget
  exact ⟨rfl, _, rfl⟩

/-- The start of the retry list. -/
theorem retryStartPtr_spec (h : HostsHold d l) :
    EndsIn retryStartPtr (fun ret d' => ret = .exhausted ∧ l = [] ∧ d' = d ∨
      ret = .found ∧ ∃ t a, a ∈ l ∧ d' = { d with dRetryCur := some a, dSin := t }) d := by
  have hhead := h.list.linked.head
  unfold retryStartPtr
  refine (Faulty.wlp_bind _ _).mpr (Faulty.wlp_get.mpr ?_)
  split
  · rename_i hl
    rw [hl] at hhead
    exact .inl ⟨rfl, List.head?_eq_none_iff.mp hhead.symm, rfl⟩
  · rename_i a hl
    rw [hl] at hhead
    have ha : a ∈ l := List.mem_of_mem_head? hhead.symm
    have h' : HostsHold { d with dRetryCur := some a } l := by
      refine h.same ⟨rfl, rfl, rfl, rfl, rfl, rfl, rfl⟩ ?_
      rintro b ⟨⟩
      exact ha
    apply Faulty.wlp_mono _ (retryPtr_spec h' rfl)
    rintro ret d' ⟨⟩ ⟨rfl, t, rfl⟩
    exact .inr ⟨rfl, t, a, ha, rfl⟩

/-- The addresses of an exchanger. -/
theorem addressesPtr_spec (all : List MxAnswer) (record : Nat) (rest : List MxAnswer) (i : Nat) (d : Remote) :
    EndsIn (addressesPtr all record rest i) (fun ret d' => ∃ t, ∃ j : Nat, i ≤ j ∧
      d' = { d with dSin := t, dCurDnsrResultIp := j } ∧ (ret = .found ∧ j < i + rest.length ∨ ret = .ended)) d := by
  induction rest generalizing i d with
  | nil => exact ⟨d.dSin, i, le_rfl, rfl, .inr rfl⟩
  | cons answer rest ih =>
    have hnext : ∀ t, EndsIn (addressesPtr all record rest (i + 1)) (fun ret d' => ∃ t, ∃ j : Nat, i ≤ j ∧
        d' = { d with dSin := t, dCurDnsrResultIp := j } ∧
          (ret = .found ∧ j < i + (answer :: rest).length ∨ ret = .ended))
        { d with dSin := t, dCurDnsrResultIp := i } := by
      intro t
      apply Faulty.wlp_mono _ (ih (i + 1) _)
      rintro ret d' ⟨⟩ ⟨t', j, hj, rfl, hret⟩
      refine ⟨t', j, by omega, rfl, hret.imp_left ?_⟩
      rintro ⟨rfl, hlt⟩
      exact ⟨rfl, by rw [List.length_cons]; omega⟩
    unfold addressesPtr
    refine (Faulty.wlp_bind _ _).mpr ((Faulty.wlp_modify _).mpr ?_)
    split
    · exact hnext d.dSin
    · rename_i ip _
      show Faulty.wlp _ _ (if fakeAddress ip then _ else _) _ _ _
      split
      · exact hnext _
      · exact ⟨_, i, le_rfl, rfl, .inl ⟨rfl, by rw [List.length_cons]; omega⟩⟩

/-- What `exchangerPtr` comes to. -/
structure ExchangerStep (d d' : Remote) (l : List Addr) (ret : NextHost) : Prop where
  hold : HostsHold d' l
  walking : Walking d d'
  cur : d'.dCurDnsrResult = d.dCurDnsrResult
  resultIp : d'.dDnsrResultIp = d.dDnsrResultIp
  step : ret = .found ∧ d'.walk l < d.walk l ∨ ret = .exhausted ∧ l = [] ∧ d'.dRetryCur = none

theorem exchangerPtr_spec (h : HostsHold d l) (hcur : d.dRetryCur = none) :
    EndsIn (exchangerPtr all) (fun ret d' => ExchangerStep d d' l ret) d := by
  have hstart : ∀ t (j : Int), d.dDnsrResultIp = none ∨ (d.dCurDnsrResultIp + 1).toNat ≤ (j + 1).toNat →
      EndsIn retryStartPtr (fun ret d' => ExchangerStep d d' l ret) { d with dSin := t, dCurDnsrResultIp := j } := by
    intro t j hj
    have h' : HostsHold { d with dSin := t, dCurDnsrResultIp := j } l :=
      h.same ⟨rfl, rfl, rfl, rfl, rfl, rfl, rfl⟩ h.list.cur
    apply Faulty.wlp_mono _ (retryStartPtr_spec h')
    rintro ret d' ⟨⟩ (⟨rfl, hl, rfl⟩ | ⟨rfl, t', a, ha, rfl⟩)
    · exact ⟨h', ⟨rfl, rfl, rfl, rfl, fun _ _ => rfl⟩, rfl, rfl, .inr ⟨rfl, hl, hcur⟩⟩
    · refine ⟨?_, ⟨rfl, rfl, rfl, rfl, fun _ _ => rfl⟩, rfl, rfl, .inl ⟨rfl, ?_⟩⟩
      · refine h.same ⟨rfl, rfl, rfl, rfl, rfl, rfl, rfl⟩ ?_
        rintro b ⟨⟩
        exact ha
      · unfold Remote.walk Remote.addressesLeft
        rw [if_pos hcur]
        show ((d.dDnsrResultIp.bind d.results).getD []).length - (j + 1).toNat + 2 * l.length + 0 <
          ((d.dDnsrResultIp.bind d.results).getD []).length - (d.dCurDnsrResultIp + 1).toNat + 2 * l.length + 1
        obtain hip | hj := hj
        · have hzero : ((d.dDnsrResultIp.bind d.results).getD []).length = 0 := by rw [hip]; rfl
          omega
        · omega
  unfold exchangerPtr
  refine (Faulty.wlp_bind _ _).mpr (Faulty.wlp_get.mpr ?_)
  split
  · rename_i hip
    exact hstart d.dSin d.dCurDnsrResultIp (.inl hip)
  · rename_i rip hip
    obtain ⟨addresses, haddresses⟩ := Option.isSome_iff_exists.mp (h.live.resultIp rip hip).1
    apply (Faulty.wlp_bind _ _).mpr
    apply wlp_read_some haddresses
    apply Faulty.wlp_seq (addressesPtr_spec all d.dCurDnsrResult.toNat _ _ d)
    rintro ret d' ⟨⟩ ⟨t, j, hj, rfl, ⟨rfl, hlt⟩ | rfl⟩
    · refine ⟨?_, ⟨rfl, rfl, rfl, rfl, fun _ _ => rfl⟩, rfl, rfl, .inl ⟨rfl, ?_⟩⟩
      · exact h.same ⟨rfl, rfl, rfl, rfl, rfl, rfl, rfl⟩ h.list.cur
      · unfold Remote.walk Remote.addressesLeft
        rw [hip]
        show ((d.results rip).getD []).length - ((j : Int) + 1).toNat + 2 * l.length + (if d.dRetryCur = none then 1 else 0) <
          ((d.results rip).getD []).length - (d.dCurDnsrResultIp + 1).toNat + 2 * l.length +
            (if d.dRetryCur = none then 1 else 0)
        have hlen : ((d.results rip).getD []).length = addresses.length := by rw [haddresses]; rfl
        rw [List.length_drop] at hlt
        omega
    · exact hstart t j (.inr (by omega))

/-- What the loop over the answers comes to, where `n` of the answers were left. -/
structure AnswersStep (d d' : Remote) (l : List Addr) (total n : Nat) (ret : NextHost) : Prop where
  hold : HostsHold d' l
  walking : Walking d d'
  step : ret = .found ∧ d'.dDnsrResultIp = none ∧ total - (d'.dCurDnsrResult + 1).toNat < n ∨
    ret = .resolved ∧ d'.dDnsrResultIp ≠ none ∧ d'.dRetryCur = none ∧ total - (d'.dCurDnsrResult + 1).toNat < n ∨
    ret = .exhausted ∧ l = [] ∧ d'.dDnsrResultIp = none ∧ d'.dRetryCur = none ∧
      total - (d'.dCurDnsrResult + 1).toNat ≤ n ∨
    ret = .ended ∧ d'.dDnsrResultIp = none ∧ d'.dRetryCur = none ∧ total - (d'.dCurDnsrResult + 1).toNat ≤ n

theorem AnswersStep.later {d₁ : Remote} {total n m : Nat} {ret : NextHost} (hw : Walking d d₁) (hn : m ≤ n)
    (h : AnswersStep d₁ d' l total m ret) : AnswersStep d d' l total n ret := by
  refine ⟨h.hold, hw.trans h.walking, ?_⟩
  obtain ⟨hret, hip, hleft⟩ | ⟨hret, hip, hcur, hleft⟩ | ⟨hret, hl, hip, hcur, hleft⟩ | ⟨hret, hip, hcur, hleft⟩ := h.step
  · exact .inl ⟨hret, hip, by omega⟩
  · exact .inr (.inl ⟨hret, hip, hcur, by omega⟩)
  · exact .inr (.inr (.inl ⟨hret, hl, hip, hcur, by omega⟩))
  · exact .inr (.inr (.inr ⟨hret, hip, hcur, by omega⟩))

/-- A step of the loop that leaves the heap alone. -/
theorem walking_same (hs : SameHold d d') (hstatus : d'.hqStatus = d.hqStatus) (hsnet : d'.dSnetSmtp = d.dSnetSmtp)
    (hmovement : d'.dQueueMovement = d.dQueueMovement) : Walking d d' :=
  ⟨hstatus, hsnet, hmovement, hs.result, fun _ _ => by rw [hs.results]⟩

theorem wlp_newResult {answers : List MxAnswer} {Q : Addr → Remote → Unit → Prop} (h : Q d.fresh (d.addResult answers) ()) :
    (Rem.newResult answers).wlp Prog.anyAnswer False Q d () := h

/-- A new DNS result that is freed at once. -/
theorem HostsHold.newFreed (h : HostsHold d l) (hip : d.dDnsrResultIp = none) (answers : List MxAnswer) :
    ∃ d', (d.addResult answers).freeResult d.fresh = some d' ∧ HostsHold d' l ∧ Walking d d' ∧ d'.dRetryCur = d.dRetryCur ∧
      d'.dDnsrResultIp = none := by
  obtain ⟨hnew, hkept⟩ := h.newResult answers
  have hne : d.dDnsrResult ≠ some d.fresh := by
    intro heq
    exact absurd (h.live.bound _ (h.live.result _ heq)) (Nat.lt_irrefl _)
  have hsome : ((d.addResult answers).results d.fresh).isSome := by
    show (if d.fresh = d.fresh then some answers else _).isSome
    rw [if_pos rfl]
    rfl
  have hipne : (d.addResult answers).dDnsrResultIp ≠ some d.fresh := by
    show d.dDnsrResultIp ≠ _
    rw [hip]
    rintro ⟨⟩
  obtain ⟨d', hd', rfl, hold⟩ := hnew.freeResult hsome hne hipne
  refine ⟨_, hd', hold, ⟨rfl, rfl, rfl, rfl, ?_⟩, rfl, hip⟩
  intro r hr
  have hr' : r ≠ d.fresh := by
    rintro rfl
    exact hne hr
  rw [Remote.setResult_results, if_neg hr']
  exact hkept r (h.live.result r hr)

/-- A new DNS result for the addresses of an exchanger. -/
theorem HostsHold.newIp (h : HostsHold d l) (hres : d.dDnsrResult ≠ none) (answers : List MxAnswer) :
    HostsHold { d.addResult answers with dDnsrResultIp := some d.fresh, dCurDnsrResultIp := -1 } l ∧
      Walking d { d.addResult answers with dDnsrResultIp := some d.fresh, dCurDnsrResultIp := -1 } := by
  obtain ⟨hnew, hkept⟩ := h.newResult answers
  have hne : d.dDnsrResult ≠ some d.fresh := by
    intro heq
    exact absurd (h.live.bound _ (h.live.result _ heq)) (Nat.lt_irrefl _)
  have hlive : ∀ r, some d.fresh = some r →
      ((d.addResult answers).results r).isSome ∧ d.dDnsrResult ≠ some r ∧ d.dDnsrResult ≠ none := by
    rintro r ⟨⟩
    refine ⟨?_, hne, hres⟩
    show (if d.fresh = d.fresh then some answers else _).isSome
    rw [if_pos rfl]
    rfl
  exact ⟨⟨⟨hnew.list.linked, hnew.list.last, hnew.list.live, hnew.list.cur, hnew.list.bound⟩,
    ⟨hnew.live.result, hlive, hnew.live.bound⟩⟩,
    ⟨rfl, rfl, rfl, rfl, fun r hr => hkept r (h.live.result r hr)⟩⟩

theorem answersPtr_spec (rest : List MxAnswer) (i : Nat) (h : HostsHold d l) (hcur : d.dRetryCur = none)
    (hip : d.dDnsrResultIp = none) (hres : d.dDnsrResult ≠ none) (hrest : rest.length = all.length - i) :
    EndsIn (answersPtr conf all rest i) (fun ret d' => AnswersStep d d' l all.length (all.length - i) ret) d := by
  induction rest generalizing i d with
  | nil =>
    have h' : HostsHold { d with dCurDnsrResult := i } l := h.same ⟨rfl, rfl, rfl, rfl, rfl, rfl, rfl⟩ h.list.cur
    refine ⟨h', ⟨rfl, rfl, rfl, rfl, fun _ _ => rfl⟩, .inr (.inr (.inr ⟨rfl, hip, hcur, ?_⟩))⟩
    show all.length - ((i : Int) + 1).toNat ≤ _
    omega
  | cons answer rest ih =>
    rw [List.length_cons] at hrest
    have hleft : ∀ {d' : Remote}, d'.dCurDnsrResult = i → all.length - (d'.dCurDnsrResult + 1).toNat < all.length - i := by
      intro d' hd'
      rw [hd']
      omega
    -- the next answer
    have hnext : ∀ {d₁ : Remote}, HostsHold d₁ l → d₁.dRetryCur = none → d₁.dDnsrResultIp = none → Walking d d₁ →
        EndsIn (answersPtr conf all rest (i + 1)) (fun ret d' => AnswersStep d d' l all.length (all.length - i) ret) d₁ := by
      intro d₁ h₁ hcur₁ hip₁ hw
      apply Faulty.wlp_mono _ (ih (i + 1) h₁ hcur₁ hip₁ (by rw [hw.result]; exact hres) (by omega))
      exact fun ret d' _ hstep => hstep.later hw (by omega)
    have hset : ∀ t cuts, HostsHold { d with dCurDnsrResult := i, dSin := t, cuts := cuts } l :=
      fun t cuts => h.same ⟨rfl, rfl, rfl, rfl, rfl, rfl, rfl⟩ h.list.cur
    have hwalk : ∀ t cuts, Walking d { d with dCurDnsrResult := i, dSin := t, cuts := cuts } :=
      fun t cuts => ⟨rfl, rfl, rfl, rfl, fun _ _ => rfl⟩
    have hfound : ∀ t cuts, AnswersStep d { d with dCurDnsrResult := i, dSin := t, cuts := cuts } l all.length
        (all.length - i) .found := fun t cuts => ⟨hset t cuts, hwalk t cuts, .inl ⟨rfl, hip, hleft rfl⟩⟩
    have hskip : ∀ t, EndsIn (answersPtr conf all rest (i + 1))
        (fun ret d' => AnswersStep d d' l all.length (all.length - i) ret)
        { d with dCurDnsrResult := i, dSin := t } := fun t => hnext (hset t d.cuts) hcur hip (hwalk t d.cuts)
    unfold answersPtr
    refine (Faulty.wlp_bind _ _).mpr ((Faulty.wlp_modify _).mpr ?_)
    refine (Faulty.wlp_bind _ _).mpr (Faulty.wlp_get.mpr ?_)
    split
    · show Faulty.wlp _ _ (if _ then _ else _) _ _ _
      split
      · exact hskip _
      · exact hfound _ d.cuts
    · rename_i preference exchange _
      split
      · exact hskip d.dSin
      split
      · -- the cutoff
        apply (Faulty.wlp_bind _ _).mpr
        apply Faulty.wlp_mono _ (retryStartPtr_spec (hset d.dSin (all :: d.cuts)))
        rintro ret d' ⟨⟩ (⟨rfl, hl, rfl⟩ | ⟨rfl, t, a, ha, rfl⟩)
        · refine ⟨hset d.dSin _, hwalk d.dSin _, .inr (.inr (.inl ⟨rfl, hl, hip, hcur, (hleft ?_).le⟩))⟩
          rfl
        · refine ⟨?_, ⟨rfl, rfl, rfl, rfl, fun _ _ => rfl⟩, .inl ⟨rfl, hip, hleft rfl⟩⟩
          refine h.same ⟨rfl, rfl, rfl, rfl, rfl, rfl, rfl⟩ ?_
          rintro b ⟨⟩
          exact ha
      split
      · exact hfound _ d.cuts
      · apply (Faulty.wlp_bind _ _).mpr
        rintro answers ⟨⟩ -
        cases answers with
        | none => exact hskip d.dSin
        | some rrs =>
          apply (Faulty.wlp_bind _ _).mpr
          apply wlp_newResult
          show Faulty.wlp _ _ (if rrs = [] then _ else _) _ _ _
          split
          · obtain ⟨d', hd', hold, hw, hcur', hip'⟩ := (hset d.dSin d.cuts).newFreed hip (rrs.map fun rr => ⟨rr, none⟩)
            apply (Faulty.wlp_bind _ _).mpr
            apply wlp_update_some hd'
            exact hnext hold (hcur'.trans hcur) hip' ((hwalk d.dSin d.cuts).trans hw)
          · obtain ⟨hold, hw⟩ := (hset d.dSin d.cuts).newIp hres (rrs.map fun rr => ⟨rr, none⟩)
            exact ⟨hold, (hwalk d.dSin d.cuts).trans hw, .inr (.inl ⟨rfl, by rintro ⟨⟩, hcur, hleft rfl⟩)⟩
    · exact hskip d.dSin

theorem ListOnly.walking (h : ListOnly d d') : Walking d d' := by
  rw [h]
  exact ⟨rfl, rfl, rfl, rfl, fun _ _ => rfl⟩

theorem ListOnly.hold (h : HostsHold d l) (hd : ListOnly d d') {l' : List Addr} (hl : RetryList d' l')
    (hfresh : d.fresh ≤ d'.fresh) : HostsHold d' l' := by
  have hresult : d'.dDnsrResult = d.dDnsrResult := by rw [hd]
  have hip : d'.dDnsrResultIp = d.dDnsrResultIp := by rw [hd]
  have hresults : d'.results = d.results := by rw [hd]
  refine ⟨hl, ⟨?_, ?_, ?_⟩⟩
  · rw [hresult, hresults]
    exact h.live.result
  · rw [hresult, hip, hresults]
    exact h.live.resultIp
  · intro r hr
    rw [hresults] at hr
    exact (h.live.bound r hr).trans_le hfresh

/-- The list takes up a host only if it has moved the queue and the delivery is aggressive. -/
structure HostKept (conf : DeliverConf) (d d' : Remote) (l l' : List Addr) : Prop where
  hold : HostsHold d' l'
  only : ListOnly d d'
  cur : d'.dRetryCur = d.dRetryCur
  kept : d.dQueueMovement = false ∨ conf.aggressiveDelivery = false → l' = l

theorem keepHost_spec (h : HostsHold d l) : EndsIn (keepHost conf) (fun _ d' => ∃ l', HostKept conf d d' l l') d := by
  have hsame : ∃ l', HostKept conf d d l l' := ⟨l, h, rfl, rfl, fun _ => rfl⟩
  unfold keepHost
  apply (Faulty.wlp_bind _ _).mpr
  show Faulty.wlp _ _ (if _ then _ else _) _ _ _
  split
  · rename_i hboth
    obtain ⟨d', hd', hlist, honly, hfresh, hcur⟩ := connectionDataCreate_linked h.list
    refine (Faulty.wlp_bind _ _).mpr ?_
    rintro ok ⟨⟩ -
    cases ok with
    | false => exact hsame
    | true =>
      apply wlp_update_some hd'
      refine ⟨_, honly.hold h hlist hfresh, honly, hcur, ?_⟩
      rintro (hm | ha)
      · rw [hm] at hboth
        cases hboth.2
      · rw [ha] at hboth
        cases hboth.1
  · exact hsame

/-- The walk has come on. -/
def Below (d' : Remote) (l' : List Addr) (d : Remote) (l : List Addr) : Prop :=
  d'.answersLeft < d.answersLeft ∨ d'.answersLeft = d.answersLeft ∧ d'.walk l' < d.walk l

/-- Nothing is put on the retry list, and what is tried from it falls off. -/
def ListSettled (conf : DeliverConf) (d : Remote) (l : List Addr) : Prop :=
  d.dQueueMovement = false ∨ conf.aggressiveDelivery = false ∧ l = []

/-- What a step of the walk comes to. -/
structure HostStep (conf : DeliverConf) (d d' : Remote) (l l' : List Addr) (ret : NextHost) : Prop where
  hold : HostsHold d' l'
  walking : Walking d d'
  kept : conf.aggressiveDelivery = false → l = [] → l' = []
  step : ret = .found ∧ (ListSettled conf d l → Below d' l' d l) ∧
      (ListSettled conf d l → l = [] → d.dDnsrResultIp = none → d'.answersLeft < d.answersLeft) ∨
    ret = .exhausted ∧ l' = [] ∧ d'.dRetryCur = none ∧ d'.answersLeft ≤ d.answersLeft ∧
      (d.dDnsrResultIp = none → d'.dDnsrResultIp ≠ none → d'.answersLeft < d.answersLeft)

theorem hostPtr_spec (h : HostsHold d l) (hcur : d.dRetryCur = none) (hr : d.dDnsrResult = some r) :
    EndsIn (hostPtr conf r) (fun ret d' => ∃ l', HostStep conf d d' l l' ret) d := by
  unfold hostPtr
  apply Faulty.wlp_seq (keepHost_spec h)
  rintro - d₀ ⟨⟩ ⟨l', hkept⟩
  have hkeep : ListSettled conf d l → l' = l := fun hs => hkept.kept (hs.imp_right fun h => h.1)
  have haggressive : conf.aggressiveDelivery = false → l = [] → l' = [] :=
    fun ha hl => (hkept.kept (.inr ha)).trans hl
  -- the address is cleared
  have hold := hkept.hold.setSin ⟨⟨0, 0, 0, 0⟩, [], 0⟩
  have hwalking : Walking d { d₀ with dSin := ⟨⟨0, 0, 0, 0⟩, [], 0⟩ } :=
    hkept.only.walking.trans ⟨rfl, rfl, rfl, rfl, fun _ _ => rfl⟩
  have hcur₁ : ({ d₀ with dSin := ⟨⟨0, 0, 0, 0⟩, [], 0⟩ } : Remote).dRetryCur = none := hkept.cur.trans hcur
  have hip₁ : ({ d₀ with dSin := ⟨⟨0, 0, 0, 0⟩, [], 0⟩ } : Remote).dDnsrResultIp = d.dDnsrResultIp := by
    show d₀.dDnsrResultIp = _
    rw [hkept.only]
  have hleft₁ : ({ d₀ with dSin := ⟨⟨0, 0, 0, 0⟩, [], 0⟩ } : Remote).answersLeft = d.answersLeft := by
    unfold Remote.answersLeft
    rw [hwalking.answers_eq]
    show _ - (d₀.dCurDnsrResult + 1).toNat = _
    rw [hkept.only]
  have hwalk₁ : ({ d₀ with dSin := ⟨⟨0, 0, 0, 0⟩, [], 0⟩ } : Remote).walk l' = d.walk l' := by
    show d₀.walk l' = _
    unfold Remote.walk Remote.addressesLeft
    rw [hkept.cur, hkept.only]
  refine (Faulty.wlp_bind _ _).mpr ((Faulty.wlp_modify _).mpr ?_)
  refine (Faulty.wlp_bind _ _).mpr (Faulty.wlp_get.mpr ?_)
  generalize ({ d₀ with dSin := ⟨⟨0, 0, 0, 0⟩, [], 0⟩ } : Remote) = d₁ at hold hwalking hcur₁ hip₁ hleft₁ hwalk₁
  have hr₁ : d₁.dDnsrResult = some r := hwalking.result.trans hr
  obtain ⟨all, hall⟩ := Option.isSome_iff_exists.mp (hold.live.result r hr₁)
  have hanswers : ∀ {d₂ : Remote}, Walking d₁ d₂ → d₂.answers = all.length := by
    intro d₂ hw
    rw [hw.answers_eq]
    unfold Remote.answers
    rw [hr₁]
    show ((d₁.results r).getD []).length = _
    rw [hall]
    rfl
  -- what follows from a step of the exchanger
  have hexchanger : ∀ {d₂ : Remote}, HostsHold d₂ l' → Walking d₁ d₂ → d₂.dRetryCur = none →
      (d₂.answersLeft < d₁.answersLeft ∨ d₂ = d₁ ∧ d.dDnsrResultIp ≠ none) →
      EndsIn (exchangerPtr all) (fun ret d' => ∃ l', HostStep conf d d' l l' ret) d₂ := by
    intro d₂ h₂ hw hcur₂ hless
    apply Faulty.wlp_mono _ (exchangerPtr_spec h₂ hcur₂)
    rintro ret d' ⟨⟩ hstep
    have hleft : d'.answersLeft = d₂.answersLeft := by
      unfold Remote.answersLeft
      rw [hstep.walking.answers_eq, hstep.cur]
    refine ⟨l', hstep.hold, (hwalking.trans hw).trans hstep.walking, haggressive, ?_⟩
    obtain ⟨hret, hlt⟩ | ⟨hret, hl, hcur'⟩ := hstep.step
    · obtain hless | ⟨rfl, hip⟩ := hless
      · exact .inl ⟨hret, fun _ => .inl (by omega), fun _ _ _ => by omega⟩
      · refine .inl ⟨hret, fun hs => .inr ⟨by omega, ?_⟩, fun _ _ hnone => absurd hnone hip⟩
        rw [hwalk₁, hkeep hs] at hlt
        rwa [hkeep hs]
    · obtain hless | ⟨rfl, hip⟩ := hless
      · exact .inr ⟨hret, hl, hcur', by omega, fun _ _ => by omega⟩
      · exact .inr ⟨hret, hl, hcur', by omega, fun hnone _ => absurd hnone hip⟩
  refine (Faulty.wlp_bind _ _).mpr (wlp_read_some hall ?_)
  split
  · rename_i rip hip
    exact hexchanger hold (Walking.refl _) hcur₁ (.inr ⟨rfl, by rw [← hip₁, hip]; rintro ⟨⟩⟩)
  · rename_i hip
    have hleft : d₁.answersLeft = all.length - (d₁.dCurDnsrResult + 1).toNat := by
      unfold Remote.answersLeft
      rw [hanswers (Walking.refl _)]
    apply Faulty.wlp_seq (answersPtr_spec _ _ hold hcur₁ hip (by rw [hr₁]; rintro ⟨⟩) (by rw [List.length_drop]))
    rintro ret d₂ ⟨⟩ hstep
    have hleft₂ : d₂.answersLeft = all.length - (d₂.dCurDnsrResult + 1).toNat := by
      unfold Remote.answersLeft
      rw [hanswers hstep.walking]
    have hw₂ := hwalking.trans hstep.walking
    obtain ⟨rfl, hip₂, hlt⟩ | ⟨rfl, hip₂, hcur₂, hlt⟩ | ⟨rfl, hl, hip₂, hcur₂, hle⟩ | ⟨rfl, hip₂, hcur₂, hle⟩ :=
      hstep.step
    · exact ⟨l', hstep.hold, hw₂, haggressive, .inl ⟨rfl, fun _ => .inl (by omega), fun _ _ _ => by omega⟩⟩
    · exact hexchanger hstep.hold hstep.walking hcur₂ (.inl (by omega))
    · exact ⟨l', hstep.hold, hw₂, haggressive, .inr ⟨rfl, hl, hcur₂, by omega, fun _ hne => absurd hip₂ hne⟩⟩
    · apply Faulty.wlp_mono _ (retryStartPtr_spec hstep.hold)
      rintro ret d' ⟨⟩ (⟨rfl, hl, rfl⟩ | ⟨rfl, t, a, ha, rfl⟩)
      · exact ⟨l', hstep.hold, hw₂, haggressive, .inr ⟨rfl, hl, hcur₂, by omega, fun _ hne => absurd hip₂ hne⟩⟩
      · have hleft' : ({ d₂ with dRetryCur := some a, dSin := t } : Remote).answersLeft = d₂.answersLeft := rfl
        refine ⟨l', ?_, hw₂.trans ⟨rfl, rfl, rfl, rfl, fun _ _ => rfl⟩, haggressive, .inl ⟨rfl, ?_, ?_⟩⟩
        · refine hstep.hold.same ⟨rfl, rfl, rfl, rfl, rfl, rfl, rfl⟩ ?_
          rintro b ⟨⟩
          exact ha
        · intro hs
          obtain hlt | heq := Nat.lt_or_eq_of_le hle
          · exact .inl (by omega)
          · refine .inr ⟨by omega, ?_⟩
            rw [← hkeep hs, ← hwalk₁]
            unfold Remote.walk Remote.addressesLeft
            rw [if_pos hcur₁, hip]
            show ((d₂.dDnsrResultIp.bind d₂.results).getD []).length - _ + _ + 0 < 0 - _ + _ + 1
            rw [hip₂]
            show 0 - _ + _ + 0 < 0 - _ + _ + 1
            omega
        · intro hs hnil _
          rw [hkeep hs, hnil] at ha
          cases ha

/-- The step on the retry list. -/
theorem retryNextPtr_spec {cd : Addr} (h : HostsHold d l) (hcur : d.dRetryCur = some cd) :
    EndsIn (retryNextPtr cd) (fun ret d' => ∃ l', HostStep conf d d' l l' ret) d := by
  have hmem : cd ∈ l := h.list.cur cd hcur
  have hne : l ≠ [] := List.ne_nil_of_mem hmem
  have hkept : ∀ l' : List Addr, conf.aggressiveDelivery = false → l = [] → l' = [] := fun _ _ hl => absurd hl hne
  have hnil : ∀ {P : Prop}, ListSettled conf d l → l = [] → P := fun _ hl => absurd hl hne
  obtain ⟨l₁, l₂, rfl⟩ := List.append_of_mem hmem
  obtain ⟨c, hc⟩ := h.list.cell hmem
  have hnext := h.list.nextCell_eq hc
  unfold retryNextPtr
  refine (Faulty.wlp_bind _ _).mpr (Faulty.wlp_get.mpr ?_)
  refine (Faulty.wlp_bind _ _).mpr (wlp_read_some hc ?_)
  refine (Faulty.wlp_bind _ _).mpr ((Faulty.wlp_modify _).mpr ?_)
  have hset : ∀ x : Option Addr, (∀ b, x = some b → b ∈ l₁ ++ cd :: l₂) →
      HostsHold { d with dRetryCur := x } (l₁ ++ cd :: l₂) :=
    fun x hx => h.same ⟨rfl, rfl, rfl, rfl, rfl, rfl, rfl⟩ hx
  have hcnext : ∀ b, c.cNext = some b → b ∈ l₁ ++ cd :: l₂ := by
    intro b hb
    rw [hnext] at hb
    simp [List.mem_of_mem_head? hb]
  split
  · rename_i hm
    have hsettled : ¬ListSettled conf d (l₁ ++ cd :: l₂) := by
      rintro (hs | ⟨-, hs⟩)
      · cases hm.symm.trans hs
      · exact hne hs
    -- the next cell, or the head
    have hretry : ∀ x b, x = some b → b ∈ l₁ ++ cd :: l₂ →
        EndsIn retryPtr (fun ret d' => ∃ l', HostStep conf d d' (l₁ ++ cd :: l₂) l' ret) { d with dRetryCur := x } := by
      rintro x b rfl hb
      have hold : HostsHold { d with dRetryCur := some b } (l₁ ++ cd :: l₂) := hset _ (by rintro _ ⟨⟩; exact hb)
      apply Faulty.wlp_mono _ (retryPtr_spec hold rfl)
      rintro ret d' ⟨⟩ ⟨rfl, t, rfl⟩
      exact ⟨_, hold.setSin t, ⟨rfl, rfl, rfl, rfl, fun _ _ => rfl⟩, fun _ hl => absurd hl hne,
        .inl ⟨rfl, fun hs => absurd hs hsettled, fun hs => absurd hs hsettled⟩⟩
    split
    · refine (Faulty.wlp_bind _ _).mpr ((Faulty.wlp_modify _).mpr ?_)
      have hhead := h.list.linked.head
      obtain ⟨b, hb⟩ : ∃ b, (l₁ ++ cd :: l₂).head? = some b := by cases l₁ <;> simp
      exact hretry d.dRetryList b (hhead.trans hb) (List.mem_of_mem_head? hb)
    · rename_i hsome
      obtain ⟨b, hb⟩ := Option.ne_none_iff_exists'.mp hsome
      exact hretry c.cNext b hb (hcnext b hb)
  · have hold := hset c.cNext hcnext
    obtain ⟨d', hd', hlist, honly, hfresh, hcur'⟩ := connectionDataFree_linked hold.list
    have hold' : HostsHold d' (l₁ ++ l₂) := honly.hold hold hlist (le_of_eq hfresh.symm)
    have hset' : Walking d { d with dRetryCur := c.cNext } := ⟨rfl, rfl, rfl, rfl, fun _ _ => rfl⟩
    have hw : Walking d d' := hset'.trans honly.walking
    have hleft : d'.answersLeft = d.answersLeft := by
      unfold Remote.answersLeft
      rw [hw.answers_eq]
      show _ - (d'.dCurDnsrResult + 1).toNat = _
      rw [honly]
    have haddresses : d'.addressesLeft = d.addressesLeft := by
      unfold Remote.addressesLeft
      rw [honly]
    refine (Faulty.wlp_bind _ _).mpr (wlp_update_some hd' ?_)
    refine (Faulty.wlp_bind _ _).mpr (Faulty.wlp_get.mpr ?_)
    split
    · rename_i b hb
      apply Faulty.wlp_mono _ (retryPtr_spec hold' hb)
      rintro ret d'' ⟨⟩ ⟨rfl, t, rfl⟩
      refine ⟨_, hold'.setSin t, hw.trans ⟨rfl, rfl, rfl, rfl, fun _ _ => rfl⟩, hkept _, ?_⟩
      refine .inl ⟨rfl, fun _ => .inr ⟨hleft, ?_⟩, fun hs hl => hnil hs hl⟩
      unfold Remote.walk
      show d'.addressesLeft + _ + (if d'.dRetryCur = none then 1 else 0) < _
      rw [haddresses, hb, hcur, if_neg (by rintro ⟨⟩), if_neg (by rintro ⟨⟩), List.length_append, List.length_append,
        List.length_cons]
      omega
    · rename_i hnone
      rw [hcur'] at hnone
      obtain ⟨-, hnone⟩ := Option.or_eq_none_iff.mp hnone
      have hempty : l₁ ++ l₂ = [] := List.head?_eq_none_iff.mp hnone
      apply Faulty.wlp_mono _ (retryStartPtr_spec hold')
      rintro ret d'' ⟨⟩ (⟨rfl, hl, rfl⟩ | ⟨-, t, b, hb, -⟩)
      · refine ⟨_, hold', hw, hkept _, .inr ⟨rfl, hl, ?_, hleft.le, ?_⟩⟩
        · rw [hcur', hnone]
          exact Option.or_eq_none_iff.mpr ⟨by rw [(List.append_eq_nil_iff.mp hempty).2]; rfl, rfl⟩
        · intro hip hip'
          exfalso
          apply hip'
          rw [honly]
          exact hip
      · rw [hempty] at hb
        cases hb

/-- What a query leaves alone. -/
structure Queried (d d' : Remote) (l : List Addr) : Prop where
  hold : HostsHold d' l
  cur : d'.dRetryCur = d.dRetryCur
  resultIp : d'.dDnsrResultIp = d.dDnsrResultIp
  snet : d'.dSnetSmtp = d.dSnetSmtp
  movement : d'.dQueueMovement = d.dQueueMovement

/-- The answers of a query. -/
theorem HostsHold.newAnswers (h : HostsHold { d with dDnsrResult := none } l) (hip : d.dDnsrResultIp = none)
    (answers : List MxAnswer) : HostsHold { d.addResult answers with dDnsrResult := some d.fresh } l := by
  obtain ⟨hnew, -⟩ := h.newResult answers
  refine ⟨⟨hnew.list.linked, hnew.list.last, hnew.list.live, hnew.list.cur, hnew.list.bound⟩, ⟨?_, ?_, hnew.live.bound⟩⟩
  · rintro r ⟨⟩
    show (if d.fresh = d.fresh then some answers else _).isSome
    rw [if_pos rfl]
    rfl
  · intro r hr
    cases hip.symm.trans hr

/-- A query that has no answers, or whose answers are freed. -/
theorem HostsHold.noAnswers (h : HostsHold d l) (hip : d.dDnsrResultIp = none) :
    HostsHold { d with dDnsrResult := none } l := by
  refine ⟨⟨h.list.linked, h.list.last, h.list.live, h.list.cur, h.list.bound⟩, ⟨?_, ?_, h.live.bound⟩⟩
  · rintro r ⟨⟩
  · intro r hr
    cases hip.symm.trans hr

/-- The answers that are freed while they are still held. -/
theorem HostsHold.freeHeld (h : HostsHold d l) (hip : d.dDnsrResultIp = none) (hr : d.dDnsrResult = some r) :
    ∃ d', d.freeResult r = some d' ∧ d' = d.setResult r none ∧ HostsHold { d' with dDnsrResult := none } l := by
  have hnone := h.noAnswers hip
  obtain ⟨d', hd', rfl, hold⟩ := hnone.freeResult (h.live.result r hr) (by rintro ⟨⟩)
    (by show d.dDnsrResultIp ≠ _; rw [hip]; rintro ⟨⟩)
  obtain ⟨x, hx⟩ := Option.isSome_iff_exists.mp (h.live.result r hr)
  refine ⟨d.setResult r none, ?_, rfl, hold⟩
  unfold Remote.freeResult
  rw [hx]
  rfl

theorem outboudDns_spec (h : HostsHold d l) (hip : d.dDnsrResultIp = none) :
    EndsIn (outboudDns conf) (fun ok d' => Queried d d' l ∧
      (ok = true → d'.dDnsrResult ≠ none ∧ d'.hqStatus = d.hqStatus)) d := by
  unfold outboudDns
  refine (Faulty.wlp_bind _ _).mpr ?_
  rintro answers ⟨⟩ -
  cases answers with
  | none => exact ⟨⟨h.same ⟨rfl, rfl, rfl, rfl, rfl, rfl, rfl⟩ h.list.cur, rfl, rfl, rfl, rfl⟩, by rintro ⟨⟩⟩
  | some answers =>
    have hold₁ : HostsHold { d.addResult answers with dDnsrResult := some d.fresh } l :=
      HostsHold.newAnswers (h.noAnswers hip) hip answers
    refine (Faulty.wlp_bind _ _).mpr (wlp_newResult ?_)
    refine (Faulty.wlp_bind _ _).mpr ((Faulty.wlp_modify _).mpr ?_)
    generalize hd₁ : ({ d.addResult answers with dDnsrResult := some d.fresh } : Remote) = d₁ at hold₁
    have hfields : d₁.dRetryCur = d.dRetryCur ∧ d₁.dDnsrResultIp = d.dDnsrResultIp ∧ d₁.dSnetSmtp = d.dSnetSmtp ∧
        d₁.dQueueMovement = d.dQueueMovement ∧ d₁.hqStatus = d.hqStatus ∧ d₁.dDnsrResult = some d.fresh := by
      rw [← hd₁]
      exact ⟨rfl, rfl, rfl, rfl, rfl, rfl⟩
    obtain ⟨hcur₁, hip₁, hsnet₁, hmove₁, hstatus₁, hres₁⟩ := hfields
    have hsome : d₁.dDnsrResult ≠ none := by rw [hres₁]; rintro ⟨⟩
    split
    · split
      · refine ⟨⟨?_, hcur₁, hip₁, hsnet₁, hmove₁⟩, fun _ => ⟨hsome, hstatus₁⟩⟩
        exact hold₁.same ⟨rfl, rfl, rfl, rfl, rfl, rfl, rfl⟩ hold₁.list.cur
      · exact ⟨⟨hold₁, hcur₁, hip₁, hsnet₁, hmove₁⟩, fun _ => ⟨hsome, hstatus₁⟩⟩
    · obtain ⟨d₂, hd₂, rfl, hold₂⟩ := hold₁.freeHeld (hip₁.trans hip) hres₁
      refine (Faulty.wlp_bind _ _).mpr (wlp_update_some hd₂ ?_)
      refine (Faulty.wlp_bind _ _).mpr (Faulty.wlp_get.mpr ?_)
      refine (Faulty.wlp_bind _ _).mpr ?_
      rintro rrs ⟨⟩ -
      cases rrs with
      | none => exact ⟨⟨hold₂, hcur₁, hip₁, hsnet₁, hmove₁⟩, by rintro ⟨⟩⟩
      | some rrs =>
        have hold₃ := HostsHold.newAnswers hold₂ (hip₁.trans hip) (rrs.map fun rr => ⟨rr, none⟩)
        refine (Faulty.wlp_bind _ _).mpr (wlp_newResult ?_)
        refine (Faulty.wlp_bind _ _).mpr ((Faulty.wlp_modify _).mpr ?_)
        split
        · refine (Faulty.wlp_bind _ _).mpr ?_
          rintro ok ⟨⟩ -
          cases ok with
          | false => exact ⟨⟨hold₃, hcur₁, hip₁, hsnet₁, hmove₁⟩, by rintro ⟨⟩⟩
          | true =>
            refine ⟨⟨?_, hcur₁, hip₁, hsnet₁, hmove₁⟩, by rintro ⟨⟩⟩
            exact hold₃.same ⟨rfl, rfl, rfl, rfl, rfl, rfl, rfl⟩ hold₃.list.cur
        · exact ⟨⟨hold₃, hcur₁, hip₁, hsnet₁, hmove₁⟩, fun _ => ⟨by rintro ⟨⟩, hstatus₁⟩⟩

/-- What the query of `next_dnsr_host` comes to. -/
structure QueryStep (d d' : Remote) (l : List Addr) (ret : NextHost) : Prop where
  queried : Queried d d' l
  step : ret = .found ∧ d'.dDnsrResult ≠ none ∧ d'.hqStatus = d.hqStatus ∧ (d.dDnsrResult ≠ none → d' = d) ∨
    (ret = .exhausted ∨ ret = .abort) ∧ d.dDnsrResult = none ∧ d.dDnsrResultIp = none

theorem queryPtr_spec (h : HostsHold d l) : EndsIn (queryPtr conf) (fun ret d' => QueryStep d d' l ret) d := by
  unfold queryPtr
  refine (Faulty.wlp_bind _ _).mpr (Faulty.wlp_get.mpr ?_)
  split
  · rename_i r hr
    exact ⟨⟨h, rfl, rfl, rfl, rfl⟩, .inl ⟨rfl, by rw [hr]; rintro ⟨⟩, rfl, fun _ => rfl⟩⟩
  · rename_i hres
    have hip : d.dDnsrResultIp = none := by
      cases hip : d.dDnsrResultIp with
      | none => rfl
      | some rip => exact absurd hres (h.live.resultIp rip hip).2.2
    have hnot : ¬d.dDnsrResult ≠ none := fun hn => hn hres
    have hold₁ : HostsHold { d with hqNoPuntMx := false, dMxPreferenceCutoff := 0, dCurDnsrResult := 0 } l :=
      h.same ⟨rfl, rfl, rfl, rfl, rfl, rfl, rfl⟩ h.list.cur
    refine (Faulty.wlp_bind _ _).mpr ((Faulty.wlp_modify _).mpr ?_)
    split
    · apply Faulty.wlp_seq (outboudDns_spec hold₁ hip)
      rintro ok d₂ ⟨⟩ ⟨hq, hok⟩
      cases ok with
      | false => exact ⟨⟨hq.hold, hq.cur, hq.resultIp, hq.snet, hq.movement⟩, .inr ⟨.inl rfl, hres, hip⟩⟩
      | true =>
        refine ⟨⟨?_, hq.cur, hq.resultIp, hq.snet, hq.movement⟩,
          .inl ⟨rfl, (hok rfl).1, (hok rfl).2, fun hn => absurd hn hnot⟩⟩
        exact hq.hold.same ⟨rfl, rfl, rfl, rfl, rfl, rfl, rfl⟩ hq.hold.list.cur
    · refine (Faulty.wlp_bind _ _).mpr ?_
      rintro rrs ⟨⟩ -
      cases rrs with
      | none => exact ⟨⟨hold₁, rfl, rfl, rfl, rfl⟩, .inr ⟨.inl rfl, hres, hip⟩⟩
      | some rrs =>
        have hold₂ := HostsHold.newAnswers (hold₁.noAnswers hip) hip (rrs.map fun rr => ⟨rr, none⟩)
        refine (Faulty.wlp_bind _ _).mpr (wlp_newResult ?_)
        refine (Faulty.wlp_bind _ _).mpr ((Faulty.wlp_modify _).mpr ?_)
        split
        · exact ⟨⟨hold₂, rfl, rfl, rfl, rfl⟩, .inr ⟨.inl rfl, hres, hip⟩⟩
        · refine ⟨⟨?_, rfl, rfl, rfl, rfl⟩, .inl ⟨rfl, by rintro ⟨⟩, rfl, fun hn => absurd hn hnot⟩⟩
          exact hold₂.same ⟨rfl, rfl, rfl, rfl, rfl, rfl, rfl⟩ hold₂.list.cur
    · exact ⟨⟨hold₁, rfl, rfl, rfl, rfl⟩, .inr ⟨.inr rfl, hres, hip⟩⟩

/-- What a call of `next_dnsr_host` comes to: the query failed, or the walk went on from where the query left it. -/
theorem nextDnsrHostPtr_spec (h : HostsHold d l) : EndsIn (nextDnsrHostPtr conf) (fun ret d' =>
    (ret = .exhausted ∨ ret = .abort) ∧ d.dDnsrResult = none ∧ Queried d d' l ∧ d'.dDnsrResultIp = none ∨
      ∃ d₁ l', QueryStep d d₁ l .found ∧ HostStep conf d₁ d' l l' ret) d := by
  unfold nextDnsrHostPtr
  apply Faulty.wlp_seq (queryPtr_spec h)
  rintro ret d₁ ⟨⟩ hq
  obtain ⟨rfl, hres, -⟩ | ⟨hret, hres, hip⟩ := hq.step
  · refine (Faulty.wlp_bind _ _).mpr (Faulty.wlp_get.mpr ?_)
    split
    · rename_i cd hcd
      have hspec : EndsIn (retryNextPtr cd) (fun ret d' => ∃ l', HostStep conf d₁ d' l l' ret) d₁ :=
        retryNextPtr_spec hq.queried.hold hcd
      apply Faulty.wlp_mono _ hspec
      rintro ret d' ⟨⟩ ⟨l', hstep⟩
      exact .inr ⟨d₁, l', hq, hstep⟩
    · rename_i hcur
      split
      · rename_i r hr
        apply Faulty.wlp_mono _ (hostPtr_spec hq.queried.hold hcur hr)
        rintro ret d' ⟨⟩ ⟨l', hstep⟩
        exact .inr ⟨d₁, l', hq, hstep⟩
      · rename_i hnone
        exact absurd hnone hres
  · have hend : (ret = .exhausted ∨ ret = .abort) ∧ d.dDnsrResult = none ∧ Queried d d₁ l ∧ d₁.dDnsrResultIp = none :=
      ⟨hret, hres, hq.queried, hq.queried.resultIp.trans hip⟩
    obtain rfl | rfl := hret
    · exact .inl hend
    · exact .inl hend

/-- When the DNS is exhausted. -/
theorem exhaustedPtr_spec (h : HostsHold d l) (hip : d.dDnsrResultIp = none) :
    EndsIn exhaustedPtr (fun ret d' => ret = .exhausted ∧ HostsHold d' l ∧ d'.dSnetSmtp = d.dSnetSmtp) d := by
  unfold exhaustedPtr
  refine (Faulty.wlp_bind _ _).mpr (Faulty.wlp_get.mpr ?_)
  split
  · exact ⟨rfl, h, rfl⟩
  · rename_i r hr
    obtain ⟨d', hd', rfl, hold⟩ := h.freeHeld hip hr
    refine (Faulty.wlp_bind _ _).mpr (wlp_update_some hd' ?_)
    exact ⟨rfl, hold, rfl⟩

/-- The addresses of an exchanger are freed between two turns. -/
theorem HostsHold.freeIp (h : HostsHold d l) {rip : Addr} (hip : d.dDnsrResultIp = some rip) :
    ∃ d', d.freeResult rip = some d' ∧ HostsHold { d' with dDnsrResultIp := none } l ∧
      Walking d { d' with dDnsrResultIp := none } ∧ d'.dCurDnsrResult = d.dCurDnsrResult ∧
      d'.dRetryCur = d.dRetryCur := by
  obtain ⟨hsome, hne, -⟩ := h.live.resultIp rip hip
  have hnone : HostsHold { d with dDnsrResultIp := none } l := by
    refine ⟨⟨h.list.linked, h.list.last, h.list.live, h.list.cur, h.list.bound⟩, ⟨h.live.result, ?_, h.live.bound⟩⟩
    rintro r ⟨⟩
  obtain ⟨d', hd', rfl, hold⟩ := hnone.freeResult hsome hne (by rintro ⟨⟩)
  obtain ⟨x, hx⟩ := Option.isSome_iff_exists.mp hsome
  refine ⟨d.setResult rip none, ?_, hold, ⟨rfl, rfl, rfl, rfl, ?_⟩, rfl, rfl⟩
  · unfold Remote.freeResult
    rw [hx]
    rfl
  · intro r hr
    have hrr : r ≠ rip := by
      rintro rfl
      exact hne hr
    show (d.setResult rip none).results r = _
    rw [Remote.setResult_results, if_neg hrr]

/-- What a lookup comes to. -/
structure LookupStep (conf : DeliverConf) (d d' : Remote) (l l' : List Addr) (ret : NextHost) : Prop where
  hold : HostsHold d' l'
  snet : d'.dSnetSmtp = d.dSnetSmtp
  kept : conf.aggressiveDelivery = false → l = [] → l' = []
  step : ret = .found ∧ d'.hqStatus = d.hqStatus ∧ d'.dQueueMovement = false ∧ d'.dDnsrResult ≠ none ∧
      (d.dDnsrResult ≠ none → ListSettled conf d l → Below d' l' d l) ∨ ret = .exhausted ∨ ret = .abort

/-- The turns of a lookup behind the first. -/
theorem lookupTurns_spec (n : Nat) (h : HostsHold d []) (hcur : d.dRetryCur = none) (hip : d.dDnsrResultIp = none)
    (hres : d.dDnsrResult ≠ none) (hn : d.answersLeft < n) :
    EndsIn (lookupTurns conf n) (fun ret d' => ∃ l', LookupStep conf d d' [] l' ret ∧
      (ret = .found → ListSettled conf d [] → d'.answersLeft < d.answersLeft)) d := by
  induction n generalizing d with
  | zero => omega
  | succ n ih =>
    unfold lookupTurns
    apply Faulty.wlp_seq (nextDnsrHostPtr_spec h)
    rintro ret d' ⟨⟩ (⟨-, hnone, -⟩ | ⟨d₁, l', hq, hstep⟩)
    · exact absurd hnone hres
    · obtain ⟨-, -, -, hsame⟩ | ⟨h | h, -⟩ := hq.step
      rotate_left
      · cases h
      · cases h
      obtain rfl := hsame hres
      have hw := hstep.walking
      have hres' : d'.dDnsrResult ≠ none := by rw [hw.result]; exact hres
      have hkept : conf.aggressiveDelivery = false → ([] : List Addr) = [] → l' = [] := hstep.kept
      obtain ⟨rfl, -, hlt⟩ | ⟨rfl, rfl, hcur', hle, hless⟩ := hstep.step
      · refine ⟨l', ⟨?_, hw.snet, hkept, .inl ⟨rfl, hw.status, rfl, hres', ?_⟩⟩, fun _ hs => hlt hs rfl hip⟩
        · exact hstep.hold.same ⟨rfl, rfl, rfl, rfl, rfl, rfl, rfl⟩ hstep.hold.list.cur
        · exact fun _ hs => .inl (hlt hs rfl hip)
      · unfold lookupTurn
        refine (Faulty.wlp_bind _ _).mpr (Faulty.wlp_get.mpr ?_)
        split
        · rename_i rip hrip
          have hlt := hless hip (by rw [hrip]; rintro ⟨⟩)
          obtain ⟨d₂, hd₂, hold₂, hw₂, hcurd₂, hcur₂⟩ := hstep.hold.freeIp hrip
          refine (Faulty.wlp_bind _ _).mpr (wlp_update_some hd₂ ?_)
          refine (Faulty.wlp_bind _ _).mpr ((Faulty.wlp_modify _).mpr ?_)
          have hleft₂ : ({ d₂ with dDnsrResultIp := none } : Remote).answersLeft = d'.answersLeft := by
            unfold Remote.answersLeft
            rw [hw₂.answers_eq]
            show _ - (d₂.dCurDnsrResult + 1).toNat = _
            rw [hcurd₂]
          have hres₂ : ({ d₂ with dDnsrResultIp := none } : Remote).dDnsrResult ≠ none := by rw [hw₂.result]; exact hres'
          apply Faulty.wlp_mono _ (ih hold₂ (hcur₂.trans hcur') rfl hres₂ (by omega))
          rintro ret d₃ ⟨⟩ ⟨l₃, hlast, hfound⟩
          have hsettled : ListSettled conf d₁ [] → ListSettled conf { d₂ with dDnsrResultIp := none } [] := by
            intro hs
            unfold ListSettled
            rw [hw₂.movement, hw.movement]
            exact hs
          have hleft : ret = .found → ListSettled conf d₁ [] → d₃.answersLeft < d₁.answersLeft := by
            intro hret hs
            have := hfound hret (hsettled hs)
            omega
          refine ⟨l₃, ⟨hlast.hold, hlast.snet.trans (hw₂.snet.trans hw.snet), hlast.kept, ?_⟩, hleft⟩
          obtain ⟨hret, hstatus, hmove, hres₃, -⟩ | hret := hlast.step
          · exact .inl ⟨hret, hstatus.trans (hw₂.status.trans hw.status), hmove, hres₃,
              fun _ hs => .inl (hleft hret hs)⟩
          · exact .inr hret
        · rename_i hnone
          apply Faulty.wlp_mono _ (exhaustedPtr_spec hstep.hold hnone)
          rintro ret d₃ ⟨⟩ ⟨rfl, hold₃, hsnet₃⟩
          exact ⟨[], ⟨hold₃, hsnet₃.trans hw.snet, fun _ _ => rfl, .inr (.inl rfl)⟩, by rintro ⟨⟩⟩

/-- **A lookup** does not fault, comes to an end, and takes the walk on. -/
theorem lookupPtr_spec (h : HostsHold d l) :
    EndsIn (lookupPtr conf) (fun ret d' => ∃ l', LookupStep conf d d' l l' ret) d := by
  unfold lookupPtr
  apply Faulty.wlp_seq (nextDnsrHostPtr_spec h)
  rintro ret d' ⟨⟩ (⟨hret, hnone, hq, hip⟩ | ⟨d₁, l', hq, hstep⟩)
  · have hexhausted : EndsIn exhaustedPtr (fun ret d' => ∃ l', LookupStep conf d d' l l' ret) d' := by
      apply Faulty.wlp_mono _ (exhaustedPtr_spec hq.hold hip)
      rintro ret d₃ ⟨⟩ ⟨rfl, hold₃, hsnet₃⟩
      exact ⟨l, hold₃, hsnet₃.trans hq.snet, fun _ hl => hl, .inr (.inl rfl)⟩
    obtain rfl | rfl := hret
    · unfold lookupTurn
      refine (Faulty.wlp_bind _ _).mpr (Faulty.wlp_get.mpr ?_)
      split
      · rename_i rip hrip
        cases hip.symm.trans hrip
      · exact hexhausted
    · exact ⟨l, hq.hold, hq.snet, fun _ hl => hl, .inr (.inr rfl)⟩
  · have hw := hstep.walking
    have hsnet : d'.dSnetSmtp = d.dSnetSmtp := hw.snet.trans hq.queried.snet
    obtain ⟨-, hres₁, hstatus₁, hsame⟩ | ⟨h | h, -⟩ := hq.step
    rotate_left
    · cases h
    · cases h
    have hres' : d'.dDnsrResult ≠ none := by rw [hw.result]; exact hres₁
    obtain ⟨rfl, hbelow, -⟩ | ⟨rfl, rfl, hcur', hle, -⟩ := hstep.step
    · refine ⟨l', ?_, hsnet, hstep.kept, .inl ⟨rfl, hw.status.trans hstatus₁, rfl, hres', ?_⟩⟩
      · exact hstep.hold.same ⟨rfl, rfl, rfl, rfl, rfl, rfl, rfl⟩ hstep.hold.list.cur
      · intro hres hs
        obtain rfl := hsame hres
        exact hbelow hs
    · unfold lookupTurn
      refine (Faulty.wlp_bind _ _).mpr (Faulty.wlp_get.mpr ?_)
      split
      · rename_i rip hrip
        obtain ⟨d₂, hd₂, hold₂, hw₂, hcurd₂, hcur₂⟩ := hstep.hold.freeIp hrip
        refine (Faulty.wlp_bind _ _).mpr (wlp_update_some hd₂ ?_)
        refine (Faulty.wlp_bind _ _).mpr ((Faulty.wlp_modify _).mpr ?_)
        refine (Faulty.wlp_bind _ _).mpr (Faulty.wlp_get.mpr ?_)
        have hleft₂ : ({ d₂ with dDnsrResultIp := none } : Remote).answersLeft = d'.answersLeft := by
          unfold Remote.answersLeft
          rw [hw₂.answers_eq]
          show _ - (d₂.dCurDnsrResult + 1).toNat = _
          rw [hcurd₂]
        have hres₂ : ({ d₂ with dDnsrResultIp := none } : Remote).dDnsrResult ≠ none := by rw [hw₂.result]; exact hres'
        have hfuel : ({ d₂ with dDnsrResultIp := none } : Remote).answersLeft <
            ({ d₂ with dDnsrResultIp := none } : Remote).answers + 1 := by
          unfold Remote.answersLeft
          omega
        apply Faulty.wlp_mono _ (lookupTurns_spec _ hold₂ (hcur₂.trans hcur') rfl hres₂ hfuel)
        rintro ret d₃ ⟨⟩ ⟨l₃, hlast, hfound⟩
        refine ⟨l₃, hlast.hold, hlast.snet.trans (hw₂.snet.trans hsnet), fun ha _ => hlast.kept ha rfl, ?_⟩
        obtain ⟨hret, hstatus, hmove, hres₃, -⟩ | hret := hlast.step
        · refine .inl ⟨hret, hstatus.trans (hw₂.status.trans (hw.status.trans hstatus₁)), hmove, hres₃, ?_⟩
          intro hres hs
          obtain rfl := hsame hres
          have hs₂ : ListSettled conf { d₂ with dDnsrResultIp := none } [] := by
            unfold ListSettled
            rw [hw₂.movement, hw.movement]
            exact hs.imp_right fun h => ⟨h.1, rfl⟩
          have := hfound hret hs₂
          exact .inl (by omega)
        · exact .inr hret
      · rename_i hnone
        apply Faulty.wlp_mono _ (exhaustedPtr_spec hstep.hold hnone)
        rintro ret d₃ ⟨⟩ ⟨rfl, hold₃, hsnet₃⟩
        exact ⟨[], hold₃, hsnet₃.trans hsnet, fun _ _ => rfl, .inr (.inl rfl)⟩

end Walk

/-! ## The loop of `deliver_remote` -/

/-- What a call of `deliver_remote` leaves behind: the list, and the DNS results unless the host bounces its mail. -/
structure HostsLeft (d : Remote) (l : List Addr) : Prop where
  list : RetryList d l
  live : d.hqStatus ≠ .bounce → ResultsLive d

theorem HostsHold.left {d : Remote} {l : List Addr} (h : HostsHold d l) : HostsLeft d l := ⟨h.list, fun _ => h.live⟩

/-- What a transaction comes to.  When the loop goes on, the connection is gone, and `env_movement` tells of a recipient that
    got its final answer. -/
def TransactionEnd (d d' : Remote) (l : List Addr) (movement : Bool) (t : RemoteTry) : Prop :=
  (∃ ret, t = .ended ret ∧ ret ≠ .running ∧ HostsLeft d' l) ∨
    ∃ m, t = .again m ∧ d.hqStatus ≠ .bounce ∧
      d' = { d with dSnetSmtp := false, dQueueMovement := d'.dQueueMovement } ∧
      (m = false → movement = false ∧ d'.dQueueMovement = d.dQueueMovement) ∧
      (d.hqStatus = .down → movement = false → m = false)

/-- What the end of a transaction comes to; an ordinary host with `env_movement` is not tried again. -/
def CleanupEnd (d d' : Remote) (l : List Addr) (movement : Bool) (t : RemoteTry) : Prop :=
  (∃ ret, t = .ended ret ∧ ret ≠ .running ∧ HostsLeft d' l) ∨
    t = .again movement ∧ d' = { d with dSnetSmtp := false } ∧ d.hqStatus ≠ .bounce ∧
      (d.hqStatus = .down → movement = false)

section Loop

variable {conf : DeliverConf} {d d' : Remote} {l : List Addr} {movement : Bool}

/-- What follows `smtp_send` in `dialoguePtr`: its result was `ret`, and `moved` is whether a recipient got its final
    answer. -/
def sentPtr (movement moved : Bool) (ret : SmtpRet) : Rem RemoteTry := do
  let d ← get
  match ret with
  | .ok =>
    match d.hqStatus with
    | .down =>
      modify fun d => { d with hqStatus := .mx }
      return .ended .done
    | .puntDown =>
      modify fun d => { d with hqStatus := .punt }
      return .ended .done
    | _ => return .ended .abort
  | .abort => return .ended .abort
  | ret => cleanupPtr (movement || moved) ret

theorem dialoguePtr_eq (movement : Bool) : dialoguePtr movement = (do
    if ← Rem.ask .lseek then
      let sent ← Rem.ask .smtpSend
      if sent.2 then
        modify fun d => { d with dQueueMovement := true }
        let _ ← Rem.ask .gettimeofday
        sentPtr movement sent.2 sent.1
      else sentPtr movement sent.2 sent.1
    else return .ended .abort) := rfl

theorem freeResults_spec (h : HostsHold d l) :
    EndsIn freeResults (fun _ d' => RetryList d' l ∧ d'.hqStatus = d.hqStatus) d := by
  have hfree : ∀ {d₁ : Remote} {r : Addr}, (d₁.results r).isSome → d₁.freeResult r = some (d₁.setResult r none) := by
    intro d₁ r hsome
    obtain ⟨x, hx⟩ := Option.isSome_iff_exists.mp hsome
    unfold Remote.freeResult
    rw [hx]
    rfl
  have hlist : ∀ {d₁ : Remote} (r : Addr), RetryList d₁ l → RetryList (d₁.setResult r none) l :=
    fun r h₁ => ⟨h₁.linked, h₁.last, h₁.live, h₁.cur, h₁.bound⟩
  unfold freeResults
  refine (Faulty.wlp_bind _ _).mpr (Faulty.wlp_get.mpr ?_)
  split
  · rename_i rip hip
    obtain ⟨hsome, hne, hres⟩ := h.live.resultIp rip hip
    refine (Faulty.wlp_bind _ _).mpr (wlp_update_some (hfree hsome) ?_)
    split
    · rename_i r hr
      have hrr : r ≠ rip := by
        rintro rfl
        exact hne hr
      have hsome' : ((d.setResult rip none).results r).isSome := by
        rw [Remote.setResult_results, if_neg hrr]
        exact h.live.result r hr
      apply wlp_update_some (hfree hsome')
      exact ⟨hlist r (hlist rip h.list), rfl⟩
    · rename_i hnone
      exact absurd hnone hres
  · split
    · rename_i r hr
      apply wlp_update_some (hfree (h.live.result r hr))
      exact ⟨hlist r h.list, rfl⟩
    · exact ⟨h.list, rfl⟩

theorem cleanupPtr_spec (ret : SmtpRet) (h : HostsHold d l) :
    EndsIn (cleanupPtr movement ret) (fun t d' => CleanupEnd d d' l movement t) d := by
  have hold : HostsHold { d with dSnetSmtp := false } l := h.same ⟨rfl, rfl, rfl, rfl, rfl, rfl, rfl⟩ h.list.cur
  have hrest : EndsIn (do
      modify fun d => { d with dSnetSmtp := false }
      let d ← get
      if d.hqStatus = .bounce then
        freeResults
        return .ended .done
      else if d.hqStatus = .down ∧ movement then
        modify fun d => { d with hqStatus := .mx }
        return .ended .done
      else if ← Rem.ask .lseek then return .again movement
      else return RemoteTry.ended .done) (fun t d' => CleanupEnd d d' l movement t) d := by
    refine (Faulty.wlp_bind _ _).mpr ((Faulty.wlp_modify _).mpr ?_)
    refine (Faulty.wlp_bind _ _).mpr (Faulty.wlp_get.mpr ?_)
    split
    · rename_i hbounce
      apply Faulty.wlp_seq (freeResults_spec hold)
      rintro - d' ⟨⟩ ⟨hlist, hstatus⟩
      exact .inl ⟨_, rfl, by rintro ⟨⟩, hlist, fun hne => absurd (hstatus.trans hbounce) hne⟩
    split
    · refine .inl ⟨_, rfl, by rintro ⟨⟩, HostsHold.left ?_⟩
      exact hold.same ⟨rfl, rfl, rfl, rfl, rfl, rfl, rfl⟩ hold.list.cur
    · rename_i hbounce hdown
      refine (Faulty.wlp_bind _ _).mpr ?_
      rintro ok ⟨⟩ -
      cases ok with
      | false => exact .inl ⟨_, rfl, by rintro ⟨⟩, hold.left⟩
      | true =>
        refine .inr ⟨rfl, rfl, hbounce, fun hd => ?_⟩
        cases movement with
        | false => rfl
        | true => exact absurd ⟨hd, rfl⟩ hdown
  unfold cleanupPtr
  split
  · refine (Faulty.wlp_bind _ _).mpr ?_
    rintro - ⟨⟩ -
    exact hrest
  · exact hrest

theorem sentPtr_spec (ret : SmtpRet) (moved : Bool) (h : HostsHold d l) :
    EndsIn (sentPtr movement moved ret) (fun t d' => CleanupEnd d d' l (movement || moved) t) d := by
  have hended : ∀ {r : DlvRet} (s : HostStatus), r ≠ .running →
      CleanupEnd d { d with hqStatus := s } l (movement || moved) (.ended r) := by
    intro r s hr
    have hset : HostsHold { d with hqStatus := s } l := h.same ⟨rfl, rfl, rfl, rfl, rfl, rfl, rfl⟩ h.list.cur
    exact .inl ⟨_, rfl, hr, hset.left⟩
  unfold sentPtr
  refine (Faulty.wlp_bind _ _).mpr (Faulty.wlp_get.mpr ?_)
  cases ret with
  | ok =>
    dsimp only
    split
    · exact hended .mx (by rintro ⟨⟩)
    · exact hended .punt (by rintro ⟨⟩)
    · exact hended d.hqStatus (by rintro ⟨⟩)
  | abort => exact hended d.hqStatus (by rintro ⟨⟩)
  | error => exact cleanupPtr_spec _ h
  | badConnection => exact cleanupPtr_spec _ h

theorem dialoguePtr_spec (h : HostsHold d l) :
    EndsIn (dialoguePtr movement) (fun t d' => TransactionEnd d d' l movement t) d := by
  have hsent : ∀ (ret : SmtpRet) (moved m : Bool), (moved = false → m = d.dQueueMovement) →
      EndsIn (sentPtr movement moved ret) (fun t d' => TransactionEnd d d' l movement t)
        { d with dQueueMovement := m } := by
    intro ret moved m hm
    have hset : HostsHold { d with dQueueMovement := m } l := h.same ⟨rfl, rfl, rfl, rfl, rfl, rfl, rfl⟩ h.list.cur
    apply Faulty.wlp_mono _ (sentPtr_spec ret moved hset)
    rintro t d' ⟨⟩ (hleft | ⟨rfl, rfl, hbounce, hdown⟩)
    · exact .inl hleft
    · refine .inr ⟨_, rfl, hbounce, rfl, ?_, fun hd _ => hdown hd⟩
      intro hfalse
      obtain ⟨hmovement, hmoved⟩ := Bool.or_eq_false_iff.mp hfalse
      exact ⟨hmovement, hm hmoved⟩
  rw [dialoguePtr_eq]
  refine (Faulty.wlp_bind _ _).mpr ?_
  rintro ok ⟨⟩ -
  cases ok with
  | false => exact .inl ⟨_, rfl, by rintro ⟨⟩, h.left⟩
  | true =>
    refine (Faulty.wlp_bind _ _).mpr ?_
    rintro ⟨ret, moved⟩ ⟨⟩ -
    cases moved with
    | false => exact hsent ret false d.dQueueMovement fun _ => rfl
    | true =>
      refine (Faulty.wlp_bind _ _).mpr ((Faulty.wlp_modify _).mpr ?_)
      refine (Faulty.wlp_bind _ _).mpr ?_
      rintro - ⟨⟩ -
      exact hsent ret true true (by rintro ⟨⟩)

theorem afterReply_spec (ret : SmtpRet) (h : HostsHold d l) :
    EndsIn (afterReply movement ret) (fun t d' => TransactionEnd d d' l movement t) d := by
  have hcleanup : ∀ ret, EndsIn (cleanupPtr movement ret) (fun t d' => TransactionEnd d d' l movement t) d := by
    intro ret
    apply Faulty.wlp_mono _ (cleanupPtr_spec ret h)
    rintro t d' ⟨⟩ (hleft | ⟨rfl, rfl, hbounce, hdown⟩)
    · exact .inl hleft
    · exact .inr ⟨_, rfl, hbounce, rfl, fun hm => ⟨hm, rfl⟩, fun hd _ => hdown hd⟩
  unfold afterReply
  cases ret with
  | ok => exact dialoguePtr_spec h
  | abort => exact .inl ⟨_, rfl, by rintro ⟨⟩, h.left⟩
  | error => exact hcleanup _
  | badConnection => exact hcleanup _

/-- A connection, and the transaction over it. -/
theorem connectPtr_spec (h : HostsHold d l) (hsnet : d.dSnetSmtp = false) (hbounce : d.hqStatus ≠ .bounce) :
    EndsIn (connectPtr movement) (fun t d' => TransactionEnd d d' l movement t) d := by
  have hagain : TransactionEnd d d l movement (.again movement) := by
    refine .inr ⟨_, rfl, hbounce, ?_, fun hm => ⟨hm, rfl⟩, fun _ hm => hm⟩
    rw [← hsnet]
  unfold connectPtr
  refine (Faulty.wlp_bind _ _).mpr ?_
  rintro ok ⟨⟩ -
  cases ok with
  | false => exact hagain
  | true =>
    refine (Faulty.wlp_bind _ _).mpr (Faulty.wlp_get.mpr ?_)
    refine (Faulty.wlp_bind _ _).mpr ?_
    rintro ok ⟨⟩ -
    cases ok with
    | false => exact hagain
    | true =>
      refine (Faulty.wlp_bind _ _).mpr ?_
      rintro ok ⟨⟩ -
      cases ok with
      | false => exact hagain
      | true =>
        refine (Faulty.wlp_bind _ _).mpr ((Faulty.wlp_modify _).mpr ?_)
        refine (Faulty.wlp_bind _ _).mpr ?_
        rintro ⟨ret, isRefused⟩ ⟨⟩ -
        refine (Faulty.wlp_bind _ _).mpr ((Faulty.wlp_modify _).mpr ?_)
        -- a refusal makes the host bounce, and ends the loop
        have hafter : ∀ s, s = d.hqStatus ∨ s = .bounce → EndsIn (afterReply movement ret)
            (fun t d' => TransactionEnd d d' l movement t) { d with dSnetSmtp := true, hqStatus := s } := by
          intro s hs
          have hold : HostsHold { d with dSnetSmtp := true, hqStatus := s } l :=
            h.same ⟨rfl, rfl, rfl, rfl, rfl, rfl, rfl⟩ h.list.cur
          apply Faulty.wlp_mono _ (afterReply_spec ret hold)
          rintro t d' ⟨⟩ (hleft | ⟨m, rfl, hne, hd', hm, hdown⟩)
          · exact .inl hleft
          · obtain rfl | rfl := hs
            · exact .inr ⟨m, rfl, hbounce, hd', hm, hdown⟩
            · exact absurd rfl hne
        apply hafter
        show (if isRefused ∧ d.hqStatus = .down then HostStatus.bounce else d.hqStatus) = _ ∨ _
        split
        · exact .inr rfl
        · exact .inl rfl

/-- What a turn comes to when the loop goes on. -/
structure TurnStep (conf : DeliverConf) (d d' : Remote) (l l' : List Addr) (movement m : Bool) : Prop where
  hold : HostsHold d' l'
  snet : d'.dSnetSmtp = false
  status : d'.hqStatus = d.hqStatus
  kept : conf.aggressiveDelivery = false → l = [] → l' = []
  down : d.hqStatus = .down → movement = false → m = false
  found : d.dSnetSmtp = false → d'.dDnsrResult ≠ none ∧ (m = false → d'.dQueueMovement = false) ∧
    (d.dDnsrResult ≠ none → ListSettled conf d l → Below d' l' d l)

/-- **A turn of the loop** does not fault: the function returns, or the walk has come on. -/
theorem remoteTry_spec (h : HostsHold d l) (hbounce : d.hqStatus ≠ .bounce) :
    EndsIn (remoteTry conf movement) (fun t d' => (∃ ret l', t = .ended ret ∧ ret ≠ .running ∧ HostsLeft d' l') ∨
      ∃ m l', t = .again m ∧ TurnStep conf d d' l l' movement m) d := by
  have hsnet : ∀ {d₁ : Remote} (m : Bool), HostsHold d₁ l →
      HostsHold { d₁ with dSnetSmtp := false, dQueueMovement := m } l :=
    fun m h₁ => h₁.same ⟨rfl, rfl, rfl, rfl, rfl, rfl, rfl⟩ h₁.list.cur
  unfold remoteTry
  refine (Faulty.wlp_bind _ _).mpr (Faulty.wlp_get.mpr ?_)
  split
  · rename_i hopen
    refine (Faulty.wlp_bind _ _).mpr ?_
    rintro ret ⟨⟩ -
    apply Faulty.wlp_mono _ (afterReply_spec ret h)
    rintro t d' ⟨⟩ (⟨ret', rfl, hret, hleft⟩ | ⟨m, rfl, -, hd', -, hdown⟩)
    · exact .inl ⟨ret', l, rfl, hret, hleft⟩
    · refine .inr ⟨m, l, rfl, ?_⟩
      rw [hd']
      exact ⟨hsnet _ h, rfl, rfl, fun _ hl => hl, hdown, fun hclosed => absurd (hopen.symm.trans hclosed) (by rintro ⟨⟩)⟩
  · rename_i hclosed
    rw [Bool.not_eq_true] at hclosed
    apply Faulty.wlp_seq (lookupPtr_spec h)
    rintro ret d₁ ⟨⟩ ⟨l₁, hstep⟩
    obtain ⟨rfl, hstatus, hmove, hres, hbelow⟩ | rfl | rfl := hstep.step
    · have hbounce₁ : d₁.hqStatus ≠ .bounce := by
        rw [hstatus]
        exact hbounce
      apply Faulty.wlp_mono _ (connectPtr_spec hstep.hold (hstep.snet.trans hclosed) hbounce₁)
      rintro t d' ⟨⟩ (⟨ret', rfl, hret, hleft⟩ | ⟨m, rfl, -, hd', hm, hdown⟩)
      · exact .inl ⟨ret', l₁, rfl, hret, hleft⟩
      · refine .inr ⟨m, l₁, rfl, ?_⟩
        have hmove' : m = false → d'.dQueueMovement = false := fun hfalse => (hm hfalse).2.trans hmove
        generalize d'.dQueueMovement = moved at hd' hmove'
        rw [hd']
        refine ⟨?_, rfl, hstatus, hstep.kept, fun hd => hdown (hstatus.trans hd), fun _ => ⟨hres, hmove', hbelow⟩⟩
        exact hstep.hold.same ⟨rfl, rfl, rfl, rfl, rfl, rfl, rfl⟩ hstep.hold.list.cur
    · exact .inl ⟨_, l₁, rfl, by rintro ⟨⟩, hstep.hold.left⟩
    · exact .inl ⟨_, l₁, rfl, by rintro ⟨⟩, hstep.hold.left⟩

/-- The loop does not fault, however long it goes on. -/
theorem remoteAttempts_spec (n : Nat) (h : HostsHold d l) (hbounce : d.hqStatus ≠ .bounce) :
    EndsIn (remoteAttempts conf n movement) (fun _ d' => ∃ l', HostsLeft d' l') d := by
  induction n generalizing d l movement with
  | zero => exact ⟨l, h.left⟩
  | succ n ih =>
    unfold remoteAttempts
    apply Faulty.wlp_seq (remoteTry_spec h hbounce)
    rintro t d' ⟨⟩ (⟨ret, l', rfl, -, hleft⟩ | ⟨m, l', rfl, hstep⟩)
    · exact ⟨l', hleft⟩
    · apply ih hstep.hold
      rw [hstep.status]
      exact hbounce

/-- **No fault.**  Whatever the answers of the outside, a call of `deliver_remote` keeps the retry list well linked, frees each
    entry once, and uses no DNS result that has been freed. -/
theorem deliverRemotePtr_spec (n : Nat) (h : HostsHold d l) :
    EndsIn (deliverRemotePtr conf n) (fun _ d' => ∃ l', HostsLeft d' l') d := by
  have hloop : ∀ s : HostStatus, s ≠ .bounce →
      EndsIn (remoteAttempts conf n false) (fun _ d' => ∃ l', HostsLeft d' l') { d with hqStatus := s } := by
    intro s hs
    have hold : HostsHold { d with hqStatus := s } l := h.same ⟨rfl, rfl, rfl, rfl, rfl, rfl, rfl⟩ h.list.cur
    exact remoteAttempts_spec n hold hs
  unfold deliverRemotePtr
  refine (Faulty.wlp_bind _ _).mpr ?_
  rintro ok ⟨⟩ -
  cases ok with
  | false => exact ⟨l, h.left⟩
  | true =>
    refine (Faulty.wlp_bind _ _).mpr (Faulty.wlp_get.mpr ?_)
    split
    · exact hloop .down (by rintro ⟨⟩)
    · exact hloop .puntDown (by rintro ⟨⟩)
    · exact ⟨l, h.left⟩

end Loop

/-! ## When the loop ends -/

section Ending

variable {σ : Type} {conf : DeliverConf} {h : Prog.Handler RemoteOp RemoteAns σ} {d : Remote} {l : List Addr}
  {movement : Bool} {s : σ}

/-- No transaction fails that has given a recipient its final answer. -/
def LossFree (h : Prog.Handler RemoteOp RemoteAns σ) : Prop :=
  ∀ s, (h .smtpSend s).1.2 = true → (h .smtpSend s).1.1 = .ok

/-- What keeps the retry list from going round: there is none and will be none, or no turn but the last moves the queue. -/
def Steady (conf : DeliverConf) (h : Prog.Handler RemoteOp RemoteAns σ) (d : Remote) (l : List Addr) (movement : Bool) : Prop :=
  conf.aggressiveDelivery = false ∧ l = [] ∨ movement = false ∧ (d.hqStatus = .down ∨ LossFree h)

/-- The call of `deliver_remote` has returned after `n` attempts, for some `n`. -/
def LoopStops (conf : DeliverConf) (h : Prog.Handler RemoteOp RemoteAns σ) (movement : Bool) (d : Remote) (s : σ) : Prop :=
  ∃ n, ∀ k, n ≤ k → (remoteAttempts conf k movement).wlp h.world False (fun ret _ _ => ret ≠ .running) d s

/-- `env_movement` stays as it is in a turn with which the loop goes on. -/
abbrev Unmoved (h : Prog.Handler RemoteOp RemoteAns σ) (movement : Bool) (p : Rem RemoteTry) (d : Remote) (s : σ) : Prop :=
  p.wlp h.world True (fun t _ _ => ∀ m, t = .again m → m = movement) d s

theorem cleanupPtr_unmoved (ret : SmtpRet) (d : Remote) (s : σ) : Unmoved h movement (cleanupPtr movement ret) d s := by
  have hended : ∀ {ret : DlvRet} {m : Bool}, RemoteTry.ended ret = .again m → m = movement := by rintro _ _ ⟨⟩
  have hrest : ∀ s : σ, Unmoved h movement (do
      modify fun d => { d with dSnetSmtp := false }
      let d ← get
      if d.hqStatus = .bounce then
        freeResults
        return .ended .done
      else if d.hqStatus = .down ∧ movement then
        modify fun d => { d with hqStatus := .mx }
        return .ended .done
      else if ← Rem.ask .lseek then return .again movement
      else return RemoteTry.ended .done) d s := by
    intro s
    refine (Faulty.wlp_bind _ _).mpr ((Faulty.wlp_modify _).mpr ?_)
    refine (Faulty.wlp_bind _ _).mpr (Faulty.wlp_get.mpr ?_)
    split
    · apply Faulty.wlp_seq (Faulty.wlp_of_forall (Q := fun _ _ _ => True) trivial fun _ _ _ => trivial)
      exact fun _ _ _ _ _ => hended
    split
    · exact fun _ => hended
    · refine (Faulty.wlp_bind _ _).mpr ?_
      rintro ok t -
      cases ok with
      | false => exact fun _ => hended
      | true =>
        rintro m ⟨⟩
        rfl
  unfold cleanupPtr
  split
  · refine (Faulty.wlp_bind _ _).mpr ?_
    exact fun _ t _ => hrest t
  · exact hrest s

theorem sentPtr_unmoved (ret : SmtpRet) (moved : Bool) (d : Remote) (s : σ) (hmoved : moved = true → ret = .ok) :
    Unmoved h movement (sentPtr movement moved ret) d s := by
  have hended : ∀ {ret : DlvRet} {m : Bool}, RemoteTry.ended ret = .again m → m = movement := by rintro _ _ ⟨⟩
  have hcleanup : ret ≠ .ok → (movement || moved) = movement := by
    intro hret
    cases moved with
    | false => exact Bool.or_false movement
    | true => exact absurd (hmoved rfl) hret
  unfold sentPtr
  refine (Faulty.wlp_bind _ _).mpr (Faulty.wlp_get.mpr ?_)
  cases ret with
  | ok =>
    dsimp only
    split
    · exact fun _ => hended
    · exact fun _ => hended
    · exact fun _ => hended
  | abort => exact fun _ => hended
  | error =>
    rw [hcleanup (by rintro ⟨⟩)]
    exact cleanupPtr_unmoved _ _ _
  | badConnection =>
    rw [hcleanup (by rintro ⟨⟩)]
    exact cleanupPtr_unmoved _ _ _

theorem dialoguePtr_unmoved (hloss : LossFree h) (d : Remote) (s : σ) : Unmoved h movement (dialoguePtr movement) d s := by
  rw [dialoguePtr_eq]
  refine (Faulty.wlp_bind _ _).mpr ?_
  rintro ok t -
  cases ok with
  | false =>
    rintro m ⟨⟩
  | true =>
    refine (Faulty.wlp_bind _ _).mpr ?_
    rintro ⟨ret, moved⟩ u hsend
    have hmoved : moved = true → ret = .ok := by
      intro hm
      have hok := hloss t
      rw [← (Prod.mk.inj hsend).1] at hok
      exact hok hm
    cases moved with
    | false => exact sentPtr_unmoved ret false d u hmoved
    | true =>
      refine (Faulty.wlp_bind _ _).mpr ((Faulty.wlp_modify _).mpr ?_)
      refine (Faulty.wlp_bind _ _).mpr ?_
      exact fun _ v _ => sentPtr_unmoved ret true _ v hmoved

theorem afterReply_unmoved (hloss : LossFree h) (ret : SmtpRet) (d : Remote) (s : σ) :
    Unmoved h movement (afterReply movement ret) d s := by
  unfold afterReply
  cases ret with
  | ok => exact dialoguePtr_unmoved hloss d s
  | abort => rintro m ⟨⟩
  | error => exact cleanupPtr_unmoved _ _ _
  | badConnection => exact cleanupPtr_unmoved _ _ _

theorem remoteTry_unmoved (hloss : LossFree h) (d : Remote) (s : σ) :
    Unmoved h movement (remoteTry conf movement) d s := by
  have hagain : ∀ m, RemoteTry.again movement = .again m → m = movement := by
    rintro m ⟨⟩
    rfl
  have hconnect : ∀ (d : Remote) (s : σ), Unmoved h movement (connectPtr movement) d s := by
    intro d s
    unfold connectPtr
    refine (Faulty.wlp_bind _ _).mpr ?_
    rintro ok t -
    cases ok with
    | false => exact hagain
    | true =>
      refine (Faulty.wlp_bind _ _).mpr (Faulty.wlp_get.mpr ?_)
      refine (Faulty.wlp_bind _ _).mpr ?_
      rintro ok t -
      cases ok with
      | false => exact hagain
      | true =>
        refine (Faulty.wlp_bind _ _).mpr ?_
        rintro ok t -
        cases ok with
        | false => exact hagain
        | true =>
          refine (Faulty.wlp_bind _ _).mpr ((Faulty.wlp_modify _).mpr ?_)
          refine (Faulty.wlp_bind _ _).mpr ?_
          rintro ⟨ret, isRefused⟩ u -
          refine (Faulty.wlp_bind _ _).mpr ((Faulty.wlp_modify _).mpr ?_)
          exact afterReply_unmoved hloss ret _ u
  unfold remoteTry
  refine (Faulty.wlp_bind _ _).mpr (Faulty.wlp_get.mpr ?_)
  split
  · refine (Faulty.wlp_bind _ _).mpr ?_
    exact fun ret t _ => afterReply_unmoved hloss ret d t
  · apply Faulty.wlp_seq (Faulty.wlp_of_forall (Q := fun _ _ _ => True) trivial fun _ _ _ => trivial)
    rintro ret d' t -
    cases ret with
    | found => exact hconnect d' t
    | abort => rintro m ⟨⟩
    | exhausted => rintro m ⟨⟩
    | ended => rintro m ⟨⟩
    | resolved => rintro m ⟨⟩

/-- A turn in a steady call. -/
theorem remoteTry_steady (hold : HostsHold d l) (hbounce : d.hqStatus ≠ .bounce) (hs : Steady conf h d l movement) :
    (remoteTry conf movement).wlp h.world False (fun t d' _ => (∃ ret, t = .ended ret ∧ ret ≠ .running) ∨
      ∃ m l', t = .again m ∧ TurnStep conf d d' l l' movement m ∧ Steady conf h d' l' m) d s := by
  have hspec : (remoteTry conf movement).wlp h.world False (fun t d' _ =>
      (∃ ret l', t = .ended ret ∧ ret ≠ .running ∧ HostsLeft d' l') ∨
        ∃ m l', t = .again m ∧ TurnStep conf d d' l l' movement m) d s :=
    Faulty.wlp_forget (fun _ _ _ _ _ => trivial) (remoteTry_spec hold hbounce)
  obtain hnone | ⟨hm, hdown | hloss⟩ := hs
  · apply Faulty.wlp_mono _ hspec
    rintro t d' - (⟨ret, l', ht, hret, -⟩ | ⟨m, l', ht, hstep⟩)
    · exact .inl ⟨ret, ht, hret⟩
    · exact .inr ⟨m, l', ht, hstep, .inl ⟨hnone.1, hstep.kept hnone.1 hnone.2⟩⟩
  · apply Faulty.wlp_mono _ hspec
    rintro t d' - (⟨ret, l', ht, hret, -⟩ | ⟨m, l', ht, hstep⟩)
    · exact .inl ⟨ret, ht, hret⟩
    · exact .inr ⟨m, l', ht, hstep, .inr ⟨hstep.down hdown hm, .inl (hstep.status.trans hdown)⟩⟩
  · apply Faulty.wlp_mono _ (Faulty.wlp_and_ends hspec (remoteTry_unmoved hloss d s))
    rintro t d' - ⟨⟨ret, l', ht, hret, -⟩ | ⟨m, l', ht, hstep⟩, hmoved⟩
    · exact .inl ⟨ret, ht, hret⟩
    · exact .inr ⟨m, l', ht, hstep, .inr ⟨(hmoved m ht).trans hm, .inr hloss⟩⟩

/-- A turn, and then the rest. -/
theorem LoopStops.turn (ht : (remoteTry conf movement).wlp h.world False (fun t d' s' =>
      (∃ ret, t = .ended ret ∧ ret ≠ .running) ∨ ∃ m, t = .again m ∧ LoopStops conf h m d' s') d s) :
    LoopStops conf h movement d s := by
  have hrun := Faulty.wlp_handler.mp ht
  cases hend : ((remoteTry conf movement).run h d s).1 with
  | none =>
    rw [hend] at hrun
    exact hrun.elim
  | some x =>
    rw [hend] at hrun
    -- the handler makes the one run there is
    have hstep : ∀ {Q : RemoteTry → Remote → σ → Prop}, Q x.1 x.2 ((remoteTry conf movement).run h d s).2 →
        (remoteTry conf movement).wlp h.world False Q d s := by
      intro Q hQ
      apply Faulty.wlp_handler.mpr
      rw [hend]
      exact hQ
    obtain ⟨ret, ht', hret⟩ | ⟨m, ht', n, hn⟩ := hrun
    · refine ⟨1, fun k hk => ?_⟩
      obtain ⟨k, rfl⟩ : ∃ i, k = i + 1 := ⟨k - 1, by omega⟩
      unfold remoteAttempts
      refine (Faulty.wlp_bind _ _).mpr (hstep ?_)
      rw [ht']
      exact hret
    · refine ⟨n + 1, fun k hk => ?_⟩
      obtain ⟨k, rfl⟩ : ∃ i, k = i + 1 := ⟨k - 1, by omega⟩
      unfold remoteAttempts
      refine (Faulty.wlp_bind _ _).mpr (hstep ?_)
      rw [ht']
      exact hn k (by omega)

/-- **The measure**: the answers that are left, and among the turns at one answer its addresses and the retry list. -/
theorem stops_settled (a b : Nat) : ∀ {d : Remote} {l : List Addr} {movement : Bool} {s : σ}, d.answersLeft = a →
    d.walk l = b → HostsHold d l → d.hqStatus ≠ .bounce → d.dSnetSmtp = false → d.dDnsrResult ≠ none →
    ListSettled conf d l → Steady conf h d l movement → LoopStops conf h movement d s := by
  induction a using Nat.strong_induction_on generalizing b with
  | _ a iha =>
  induction b using Nat.strong_induction_on with
  | _ b ihb =>
  intro d l movement s ha hb hold hbounce hsnet hres hsettled hs
  apply LoopStops.turn
  apply Faulty.wlp_mono _ (remoteTry_steady hold hbounce hs)
  rintro t d' u (hended | ⟨m, l', rfl, hstep, hs'⟩)
  · exact .inl hended
  · refine .inr ⟨m, rfl, ?_⟩
    obtain ⟨hres', hmove, hbelow⟩ := hstep.found hsnet
    have hbounce' : d'.hqStatus ≠ .bounce := by
      rw [hstep.status]
      exact hbounce
    have hsettled' : ListSettled conf d' l' := by
      obtain hnone | ⟨hm, -⟩ := hs'
      · exact .inr hnone
      · exact .inl (hmove hm)
    obtain hlt | ⟨heq, hlt⟩ := hbelow hres hsettled
    · exact iha _ (ha ▸ hlt) _ rfl rfl hstep.hold hbounce' hstep.snet hres' hsettled' hs'
    · exact ihb _ (hb ▸ hlt) (heq.trans ha) rfl hstep.hold hbounce' hstep.snet hres' hsettled' hs'

/-- At most two turns go by before the walk comes on with each. -/
theorem stops_steady (hold : HostsHold d l) (hbounce : d.hqStatus ≠ .bounce) (hs : Steady conf h d l movement) :
    LoopStops conf h movement d s := by
  have hclosed : ∀ {d : Remote} {l : List Addr} {movement : Bool} {s : σ}, HostsHold d l → d.hqStatus ≠ .bounce →
      d.dSnetSmtp = false → Steady conf h d l movement → LoopStops conf h movement d s := by
    intro d l movement s hold hbounce hsnet hs
    apply LoopStops.turn
    apply Faulty.wlp_mono _ (remoteTry_steady hold hbounce hs)
    rintro t d' u (hended | ⟨m, l', rfl, hstep, hs'⟩)
    · exact .inl hended
    · obtain ⟨hres', hmove, -⟩ := hstep.found hsnet
      refine .inr ⟨m, rfl, stops_settled _ _ rfl rfl hstep.hold ?_ hstep.snet hres' ?_ hs'⟩
      · rw [hstep.status]
        exact hbounce
      · obtain hnone | ⟨hm, -⟩ := hs'
        · exact .inr hnone
        · exact .inl (hmove hm)
  apply LoopStops.turn
  apply Faulty.wlp_mono _ (remoteTry_steady hold hbounce hs)
  rintro t d' u (hended | ⟨m, l', rfl, hstep, hs'⟩)
  · exact .inl hended
  · refine .inr ⟨m, rfl, hclosed hstep.hold ?_ hstep.snet hs'⟩
    rw [hstep.status]
    exact hbounce

/-- **Delivery attempts end.**  A call of `deliver_remote` returns after finitely many attempts, whatever the outside answers,
    for an ordinary host, without aggressive delivery, and for a punt host with which no transaction fails that has given a
    recipient its final answer.  In every case the list stays well linked and nothing is used after it was freed. -/
theorem deliverRemotePtr_ends (hold : HostsHold d l)
    (hends : d.hqStatus ≠ .punt ∨ conf.aggressiveDelivery = false ∧ l = [] ∨ LossFree h) :
    (∀ n, (deliverRemotePtr conf n).wlp Prog.anyAnswer False (fun _ d' _ => ∃ l', HostsLeft d' l') d ()) ∧
      ∃ n, ∀ k, n ≤ k → ∃ ret d' s', (deliverRemotePtr conf k).run h d s = (some (ret, d'), s') ∧ ret ≠ .running := by
  refine ⟨fun n => deliverRemotePtr_spec n hold, ?_⟩
  have hset : ∀ x, HostsHold { d with hqStatus := x } l :=
    fun x => hold.same ⟨rfl, rfl, rfl, rfl, rfl, rfl, rfl⟩ hold.list.cur
  have hmx : ∀ t, LoopStops conf h false { d with hqStatus := .down } t :=
    fun t => stops_steady (hset .down) (by rintro ⟨⟩) (.inr ⟨rfl, .inl rfl⟩)
  have hpunt : d.hqStatus = .punt → ∀ t, LoopStops conf h false { d with hqStatus := .puntDown } t := by
    intro hstatus t
    apply stops_steady (hset .puntDown) (by rintro ⟨⟩)
    obtain hne | hnone | hloss := hends
    · exact absurd hstatus hne
    · exact .inl hnone
    · exact .inr ⟨rfl, .inr hloss⟩
  suffices hcall : ∃ n, ∀ k, n ≤ k →
      (deliverRemotePtr conf k).wlp h.world False (fun ret _ _ => ret ≠ .running) d s by
    obtain ⟨n, hn⟩ := hcall
    refine ⟨n, fun k hk => ?_⟩
    have hrun := Faulty.wlp_handler.mp (hn k hk)
    cases hend : ((deliverRemotePtr conf k).run h d s).1 with
    | none =>
      rw [hend] at hrun
      exact hrun.elim
    | some x =>
      rw [hend] at hrun
      exact ⟨x.1, x.2, ((deliverRemotePtr conf k).run h d s).2, Prod.ext hend rfl, hrun⟩
  unfold deliverRemotePtr
  obtain ⟨n₁, hn₁⟩ := hmx (h .gettimeofday s).2
  by_cases hstatus : d.hqStatus = .punt
  · obtain ⟨n₂, hn₂⟩ := hpunt hstatus (h .gettimeofday s).2
    refine ⟨n₂, fun k hk => (Faulty.wlp_bind _ _).mpr ?_⟩
    rintro ok t hclock
    obtain rfl : t = (h .gettimeofday s).2 := congrArg Prod.snd hclock
    cases ok with
    | false => rintro ⟨⟩
    | true =>
      refine (Faulty.wlp_bind _ _).mpr (Faulty.wlp_get.mpr ?_)
      rw [hstatus]
      exact hn₂ k hk
  · refine ⟨n₁, fun k hk => (Faulty.wlp_bind _ _).mpr ?_⟩
    rintro ok t hclock
    obtain rfl : t = (h .gettimeofday s).2 := congrArg Prod.snd hclock
    cases ok with
    | false => rintro ⟨⟩
    | true =>
      refine (Faulty.wlp_bind _ _).mpr (Faulty.wlp_get.mpr ?_)
      split
      · exact hn₁ k hk
      · rename_i hp
        exact absurd hp hstatus
      · rintro ⟨⟩

end Ending

/-! ### A punt host that drops the connection -/

/-- A queue before its first message. -/
def Remote.start (host : Text) (status : HostStatus) : Remote :=
  { dRetryList := none, dRetryListEnd := none, dRetryCur := none, dDnsrResult := none, dDnsrResultIp := none
    dSin := ⟨⟨0, 0, 0, 0⟩, [], 0⟩, dSnetSmtp := false, dMxPreferenceCutoff := 0, dCurDnsrResult := 0
    dCurDnsrResultIp := 0, dQueueMovement := false, hqHostname := host, hqStatus := status, hqNoPuntMx := false
    cells := fun _ => none, results := fun _ => none, fresh := 0, cuts := [] }

theorem Remote.start_hold (host : Text) (status : HostStatus) : HostsHold (Remote.start host status) [] := by
  refine ⟨⟨⟨rfl, trivial, List.nodup_nil⟩, rfl, ?_, ?_, ?_⟩, ⟨?_, ?_, ?_⟩⟩
  · intro a
    exact ⟨by rintro ⟨⟩, by rintro ⟨⟩⟩
  · rintro a ⟨⟩
  · rintro a ⟨⟩
  · rintro r ⟨⟩
  · rintro r ⟨⟩
  · rintro r ⟨⟩

/-- A host with one address that refuses a recipient in every transaction and then drops the connection. -/
def dropsConnection : Prog.Handler RemoteOp RemoteAns Unit
  | .dnsMx, _ => (none, ())
  | .dnsA name, _ => (some [⟨name, .a 192 0 2 1⟩], ())
  | .smtpConnect, _ => ((.ok, false), ())
  | .smtpRset, _ => (.badConnection, ())
  | .smtpSend, _ => ((.badConnection, true), ())
  | .smtpQuit, _ => ((), ())
  | .gettimeofday, _ => (true, ())
  | .errText, _ => (true, ())
  | .malloc, _ => (true, ())
  | .socket, _ => (true, ())
  | .connect _, _ => (true, ())
  | .attach, _ => (true, ())
  | .lseek, _ => (true, ())

/-- The state in which the loop goes round: the one entry of the retry list is tried again and again. -/
def circling : Remote :=
  let target : Target := ⟨⟨192, 0, 2, 1⟩, [⟨⟨[], .a 192 0 2 1⟩, none⟩], 0⟩
  let d := (Remote.start [] .puntDown).addResult [⟨⟨[], .a 192 0 2 1⟩, none⟩]
  { d.setCell 1 (some ⟨target, none, none⟩) with
    dRetryList := some 1, dRetryListEnd := some 1, dRetryCur := some 1, dDnsrResult := some 0, dSin := target
    dCurDnsrResult := 1, dQueueMovement := true, fresh := 2 }

/-- The names that play no part here are empty. -/
def puntConf : DeliverConf := { hostname := [], dnsConfig := false, secondaryMx := none, red := ⟨false, none, none⟩, puntHost := some [] }

theorem circling_turn : (remoteTry puntConf true).run dropsConnection circling () = (some (.again true, circling), ()) := rfl

theorem circling_attempts (n : Nat) :
    (remoteAttempts puntConf n true).wlp dropsConnection.world False (fun ret d' _ => ret = .running ∧ d' = circling)
      circling () := by
  induction n with
  | zero => exact ⟨rfl, rfl⟩
  | succ n ih =>
    unfold remoteAttempts
    refine (Faulty.wlp_bind _ _).mpr (Faulty.wlp_handler.mpr ?_)
    rw [circling_turn]
    exact ih

/-- **A punt host that refuses a recipient and drops the connection is tried for ever** in aggressive delivery. -/
theorem punt_cycles : HostsHold (Remote.start [] .punt) [] ∧ ∀ n, ∃ d' s',
    (deliverRemotePtr puntConf n).run dropsConnection (Remote.start [] .punt) () = (some (.running, d'), s') := by
  refine ⟨Remote.start_hold [] .punt, fun n => ?_⟩
  obtain _ | _ | n := n
  · exact ⟨_, _, rfl⟩
  · exact ⟨_, _, rfl⟩
  · have hrun := Faulty.wlp_handler.mp (circling_attempts n)
    cases hend : ((remoteAttempts puntConf n true).run dropsConnection circling ()).1 with
    | none =>
      rw [hend] at hrun
      exact hrun.elim
    | some x =>
      rw [hend] at hrun
      obtain ⟨ret, d'⟩ := x
      obtain ⟨rfl, rfl⟩ := hrun
      exact ⟨circling, (), Prod.ext hend rfl⟩

/-- The same host as an ordinary one: after the transaction it drops, the call returns. -/
theorem deliverRemotePtr_ends_drops :
    (∀ n, (deliverRemotePtr puntConf n).wlp Prog.anyAnswer False (fun _ d' _ => ∃ l', HostsLeft d' l')
      (Remote.start [] .mx) ()) ∧
      ∃ n, ∀ k, n ≤ k → ∃ ret d' s',
        (deliverRemotePtr puntConf k).run dropsConnection (Remote.start [] .mx) () = (some (ret, d'), s') ∧
          ret ≠ .running :=
  deliverRemotePtr_ends (Remote.start_hold [] .mx) (.inl (by decide))

end Simta
