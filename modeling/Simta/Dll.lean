import Simta.Lib.Links
import Simta.RedTable
import Mathlib.Data.List.Perm.Subperm

/-!
# Sorted lists of entries by key

The `dll_entry` lists of `ll.c`, as cells of a heap with two links.

* `DllHeap` — the entries by address and the heads of the lists; `DllView` is what can be read of it;
* `dllLookup`, `dllLookupOrCreate`, `dllRemoveEntry`; `none` is an access to an entry that is not there;
* `DllHeap.Sorted` — the lists are linked both ways, have no entry in common, every key can be read and
  the keys of a list ascend up to case;
* `dllLookup_spec` — a key is found exactly if it is there;
* `dllLookupOrCreate_spec`, `dllRemoveEntry_spec` — what the operations leave.
-/

set_option autoImplicit false

namespace Simta

/-! ## The heap -/

/-- `struct dll_entry`: `κ` is what a key is read from, `δ` what `dll_data` points to. -/
structure DllEntry (κ δ : Type) where
  dllNext : Option Nat := none
  dllPrev : Option Nat := none
  dllKey : κ
  dllData : Option δ := none

/-- The entries by address, and the heads of the lists `ι`. -/
structure DllHeap (ι κ δ : Type) where
  entry : Nat → Option (DllEntry κ δ)
  head : ι → Option Nat
  fresh : Nat

/-- What can be read of a heap: the links, and the keys and data. -/
@[ext]
structure DllView (ι κ δ : Type) where
  next : Nat → Option Nat
  prev : Nat → Option Nat
  content : Nat → Option (κ × Option δ)
  head : ι → Option Nat
  fresh : Nat

variable {ι κ δ : Type}

namespace DllHeap

def next (h : DllHeap ι κ δ) (d : Nat) : Option Nat := (h.entry d).bind (·.dllNext)

def prev (h : DllHeap ι κ δ) (d : Nat) : Option Nat := (h.entry d).bind (·.dllPrev)

def content (h : DllHeap ι κ δ) (d : Nat) : Option (κ × Option δ) :=
  (h.entry d).map fun e => (e.dllKey, e.dllData)

def view (h : DllHeap ι κ δ) : DllView ι κ δ := ⟨h.next, h.prev, h.content, h.head, h.fresh⟩

/-- A write through a pointer. -/
def modEntry (h : DllHeap ι κ δ) (d : Nat) (f : DllEntry κ δ → DllEntry κ δ) : Option (DllHeap ι κ δ) :=
  (h.entry d).map fun e => { h with entry := Function.update h.entry d (some (f e)) }

def setNext (h : DllHeap ι κ δ) (d : Nat) (v : Option Nat) : Option (DllHeap ι κ δ) :=
  h.modEntry d fun e => { e with dllNext := v }

def setPrev (h : DllHeap ι κ δ) (d : Nat) (v : Option Nat) : Option (DllHeap ι κ δ) :=
  h.modEntry d fun e => { e with dllPrev := v }

def setData (h : DllHeap ι κ δ) (d : Nat) (v : δ) : Option (DllHeap ι κ δ) :=
  h.modEntry d fun e => { e with dllData := some v }

def setHead [DecidableEq ι] (h : DllHeap ι κ δ) (i : ι) (v : Option Nat) : DllHeap ι κ δ :=
  { h with head := Function.update h.head i v }

/-- `malloc` and `memset` of an entry, and its key. -/
def alloc (h : DllHeap ι κ δ) (key : κ) : DllHeap ι κ δ :=
  { h with entry := Function.update h.entry h.fresh (some { dllKey := key }), fresh := h.fresh + 1 }

def release (h : DllHeap ι κ δ) (d : Nat) : DllHeap ι κ δ :=
  { h with entry := Function.update h.entry d none }

end DllHeap

/-! ## The functions of the source -/

/-- The loop of `dll_lookup`; no list has more entries than there are addresses. -/
def dllFind (h : DllHeap ι κ δ) (text : κ → Option Text) (key : Text) :
    Nat → Option Nat → Option (Option Nat)
  | 0, _ => none
  | _ + 1, none => some none
  | n + 1, some dll => do
    let e ← h.entry dll
    let k ← text e.dllKey
    match strcasecmp key k with
    | .eq => some (some dll)
    | .lt => some none
    | .gt => dllFind h text key n e.dllNext

/-- Where the loop of `dll_lookup_or_create` ends: at an entry with the key, or between `dll_last`
    and `dll`. -/
inductive DllPlace
  | found (dll : Nat)
  | between (dllLast dll : Option Nat)
  deriving DecidableEq

/-- The entry with the key. -/
def DllPlace.dll : DllPlace → Option Nat
  | .found dll => some dll
  | .between _ _ => none

/-- The loop of `dll_lookup_or_create`. -/
def dllWalk (h : DllHeap ι κ δ) (text : κ → Option Text) (key : Text) :
    Nat → Option Nat → Option Nat → Option DllPlace
  | 0, _, _ => none
  | _ + 1, dllLast, none => some (.between dllLast none)
  | n + 1, dllLast, some dll => do
    let e ← h.entry dll
    let k ← text e.dllKey
    match strcasecmp key k with
    | .eq => some (.found dll)
    | .lt => some (.between dllLast (some dll))
    | .gt => dllWalk h text key n (some dll) e.dllNext

namespace DllHeap

/-- `dll_lookup`. -/
def dllLookup (h : DllHeap ι κ δ) (text : κ → Option Text) (dllHead : Option Nat) (key : Text) :
    Option (Option Nat) :=
  dllFind h text key (h.fresh + 1) dllHead

variable [DecidableEq ι]

/-- A new entry is linked in between `dll_last` and `dll`, at the head, at the tail or within the list. -/
def linkIn (h : DllHeap ι κ δ) (i : ι) (key : κ) (dllLast dll : Option Nat) :
    Option (DllHeap ι κ δ × Nat) := do
  let dllNew := h.fresh
  let h := h.alloc key
  match dllLast, dll with
  | none, _ =>
    let dllNext := h.head i
    let h ← h.setNext dllNew dllNext
    let h := h.setHead i (some dllNew)
    let h ← match dllNext with
      | some n => h.setPrev n (some dllNew)
      | none => some h
    return (h, dllNew)
  | some last, none =>
    let h ← h.setPrev dllNew (some last)
    let h ← h.setNext last (some dllNew)
    return (h, dllNew)
  | some _, some dll =>
    let h ← h.setNext dllNew (some dll)
    let h ← h.setPrev dllNew (h.prev dll)
    let before ← h.prev dll
    let h ← h.setNext before (some dllNew)
    let h ← h.setPrev dll (some dllNew)
    return (h, dllNew)

/-- `dll_lookup_or_create`, the allocations succeeding.  The key comes as the caller will own it: a
    pointer into another object, or the copy that `strdup` makes. -/
def dllLookupOrCreate (h : DllHeap ι κ δ) (text : κ → Option Text) (i : ι) (key : κ) :
    Option (DllHeap ι κ δ × Nat) := do
  let k ← text key
  match ← dllWalk h text k (h.fresh + 1) none (h.head i) with
  | .found dll => return (h, dll)
  | .between dllLast dll => h.linkIn i key dllLast dll

/-- `dll_next->dll_prev = dll_prev`, if there is an entry behind. -/
def passPrev (h : DllHeap ι κ δ) (e : DllEntry κ δ) : Option (DllHeap ι κ δ) :=
  match e.dllNext with
  | some n => h.setPrev n e.dllPrev
  | none => some h

/-- `dll_prev->dll_next = dll_next`, or the head if there is no entry before. -/
def passNext (h : DllHeap ι κ δ) (i : ι) (e : DllEntry κ δ) : Option (DllHeap ι κ δ) :=
  match e.dllPrev with
  | some p => h.setNext p e.dllNext
  | none => some (h.setHead i e.dllNext)

/-- `dll_remove_entry`.  A key that is a copy goes with its entry. -/
def dllRemoveEntry (h : DllHeap ι κ δ) (i : ι) (dll : Nat) : Option (DllHeap ι κ δ) := do
  let e ← h.entry dll
  let h ← h.passPrev e
  let h ← h.passNext i e
  return h.release dll

/-! ## What the writes change -/

variable {h h' : DllHeap ι κ δ} {d x : Nat} {v : Option Nat} {c : κ × Option δ} {key : κ}

omit [DecidableEq ι] in
theorem entry_of_content (hc : h.content d = some c) :
    h.entry d = some ⟨h.next d, h.prev d, c.1, c.2⟩ := by
  unfold content at hc
  cases he : h.entry d with
  | none => simp [he] at hc
  | some e =>
    rw [he] at hc
    cases hc
    simp [next, prev, he]

omit [DecidableEq ι] in
theorem update_map {β γ : Type} {f : β → Option γ} (g : Nat → Option β) (o : Option β) :
    (fun x => (Function.update g d o x).bind f) = Function.update (fun x => (g x).bind f) d (o.bind f) := by
  funext x
  by_cases hx : x = d
  · subst hx
    simp
  · simp [hx]

omit [DecidableEq ι] in
theorem view_update (e : Option (DllEntry κ δ)) :
    ({ h with entry := Function.update h.entry d e } : DllHeap ι κ δ).view =
      { h.view with
        next := Function.update h.next d (e.bind (·.dllNext))
        prev := Function.update h.prev d (e.bind (·.dllPrev))
        content := Function.update h.content d (e.map fun e => (e.dllKey, e.dllData)) } := by
  have hmap : ∀ o : Option (DllEntry κ δ),
      o.map (fun e => (e.dllKey, e.dllData)) = o.bind fun e => some (e.dllKey, e.dllData) :=
    fun o => by cases o <;> rfl
  simp only [view, DllView.mk.injEq]
  refine ⟨update_map h.entry e, update_map h.entry e, ?_, trivial, trivial⟩
  rw [hmap, show h.content = _ from funext fun x => hmap (h.entry x),
    show content _ = _ from funext fun x => hmap _]
  exact update_map h.entry e

omit [DecidableEq ι] in
theorem setNext_view (hc : h.content d = some c) (v : Option Nat) :
    ∃ h', h.setNext d v = some h' ∧ h'.view = { h.view with next := Function.update h.view.next d v } := by
  have he := entry_of_content hc
  refine ⟨_, by rw [setNext, modEntry, he, Option.map_some], ?_⟩
  rw [view_update]
  simp [view, ← hc]

omit [DecidableEq ι] in
theorem setPrev_view (hc : h.content d = some c) (v : Option Nat) :
    ∃ h', h.setPrev d v = some h' ∧ h'.view = { h.view with prev := Function.update h.view.prev d v } := by
  have he := entry_of_content hc
  refine ⟨_, by rw [setPrev, modEntry, he, Option.map_some], ?_⟩
  rw [view_update]
  simp [view, ← hc]

omit [DecidableEq ι] in
theorem setData_view (hc : h.content d = some c) (v : δ) :
    ∃ h', h.setData d v = some h' ∧
      h'.view = { h.view with content := Function.update h.view.content d (some (c.1, some v)) } := by
  have he := entry_of_content hc
  refine ⟨_, by rw [setData, modEntry, he, Option.map_some], ?_⟩
  rw [view_update]
  simp [view]

theorem setHead_view (i : ι) : (h.setHead i v).view =
    { h.view with head := Function.update h.view.head i v } := rfl

omit [DecidableEq ι] in
theorem alloc_view : (h.alloc key).view =
    { next := Function.update h.next h.fresh none
      prev := Function.update h.prev h.fresh none
      content := Function.update h.content h.fresh (some (key, none))
      head := h.head
      fresh := h.fresh + 1 } := by
  have hv := @view_update _ _ _ h h.fresh (some { dllKey := key })
  exact congrArg (fun v => ({ v with fresh := h.fresh + 1 } : DllView ι κ δ)) hv

omit [DecidableEq ι] in
theorem release_view : (h.release d).view =
    { h.view with
      next := Function.update h.next d none
      prev := Function.update h.prev d none
      content := Function.update h.content d none } :=
  view_update none

omit [DecidableEq ι] in
theorem alloc_content : (h.alloc key).content = Function.update h.content h.fresh (some (key, none)) :=
  congrArg DllView.content alloc_view

/-! ## Linking in and out -/

variable {i : ι} {l₁ l₂ : List Nat}

omit [DecidableEq ι] in
theorem live_alloc (key : κ) (hfresh : h.content h.fresh = none) (hd : ∃ c, h.content d = some c) :
    d ≠ h.fresh ∧ ∃ c, (h.alloc key).content d = some c := by
  obtain ⟨c, hc⟩ := hd
  have hne : d ≠ h.fresh := by
    rintro rfl
    rw [hfresh] at hc
    cases hc
  exact ⟨hne, c, by rw [alloc_content, Function.update_of_ne hne, hc]⟩

/-- The heap with a new entry linked in between two neighbours. -/
def insertedView (h : DllHeap ι κ δ) (i : ι) (key : κ) (before after : Option Nat) : DllView ι κ δ where
  next x := if x = h.fresh then after else if before = some x then some h.fresh else h.next x
  prev x := if x = h.fresh then before else if after = some x then some h.fresh else h.prev x
  content := Function.update h.content h.fresh (some (key, none))
  head := Function.update h.head i (if before = none then some h.fresh else h.head i)
  fresh := h.fresh + 1

/-- Insertion at the head. -/
theorem linkIn_head {after : Option Nat} (hhead : h.head i = after)
    (hlive : ∀ d, after = some d → ∃ c, h.content d = some c) (hfresh : h.content h.fresh = none) :
    ∃ h', h.linkIn i key none after = some (h', h.fresh) ∧ h'.view = h.insertedView i key none after := by
  have hnew : (h.alloc key).content h.fresh = some (key, none) := by
    rw [alloc_content, Function.update_self]
  obtain ⟨h₁, e₁, v₁⟩ := setNext_view hnew after
  have hkey : h₁.content = (h.alloc key).content := congrArg DllView.content v₁
  cases after with
  | none =>
    refine ⟨h₁.setHead i (some h.fresh), ?_, ?_⟩
    · simp only [linkIn, alloc, hhead] at e₁ ⊢
      simp [e₁]
    · rw [setHead_view, v₁, alloc_view]
      refine DllView.ext ?_ ?_ rfl rfl rfl <;> funext x <;>
        by_cases hx : x = h.fresh <;> simp [insertedView, hx]
  | some n =>
    obtain ⟨hne, c, hc⟩ := live_alloc key hfresh (hlive n rfl)
    have hc : (h₁.setHead i (some h.fresh)).content n = some c := hkey ▸ hc
    obtain ⟨h₂, e₂, v₂⟩ := setPrev_view hc (some h.fresh)
    refine ⟨h₂, ?_, ?_⟩
    · simp only [linkIn, alloc, hhead] at e₁ e₂ ⊢
      simp [e₁, e₂]
    · rw [v₂, setHead_view, v₁, alloc_view]
      refine DllView.ext ?_ ?_ rfl rfl rfl
      · funext x
        by_cases hx : x = h.fresh <;> simp [insertedView, hx]
      · funext x
        by_cases hx : x = n
        · subst hx
          simp [insertedView, hne]
        · simp [insertedView, Function.update_apply, hx, Ne.symm hx]

/-- Insertion at the tail. -/
theorem linkIn_tail {last : Nat} (hlast : ∃ c, h.content last = some c) (hfresh : h.content h.fresh = none) :
    ∃ h', h.linkIn i key (some last) none = some (h', h.fresh) ∧
      h'.view = h.insertedView i key (some last) none := by
  obtain ⟨hne, c, hc⟩ := live_alloc key hfresh hlast
  have hnew : (h.alloc key).content h.fresh = some (key, none) := by
    rw [alloc_content, Function.update_self]
  obtain ⟨h₁, e₁, v₁⟩ := setPrev_view hnew (some last)
  have hc : h₁.content last = some c := (congrFun (congrArg DllView.content v₁) last).trans hc
  obtain ⟨h₂, e₂, v₂⟩ := setNext_view hc (some h.fresh)
  refine ⟨h₂, ?_, ?_⟩
  · simp only [linkIn, alloc] at e₁ e₂ ⊢
    simp [e₁, e₂]
  · rw [v₂, v₁, alloc_view]
    refine DllView.ext ?_ ?_ rfl ?_ rfl
    · funext x
      by_cases hx : x = last
      · subst hx
        simp [insertedView, hne]
      · simp [insertedView, Function.update_apply, hx, Ne.symm hx]
    · funext x
      by_cases hx : x = h.fresh <;> simp [insertedView, hx]
    · simp [insertedView]

/-- Insertion between two entries. -/
theorem linkIn_between {last dll : Nat} (hprev : h.prev dll = some last)
    (hlast : ∃ c, h.content last = some c) (hdll : ∃ c, h.content dll = some c)
    (hfresh : h.content h.fresh = none) :
    ∃ h', h.linkIn i key (some last) (some dll) = some (h', h.fresh) ∧
      h'.view = h.insertedView i key (some last) (some dll) := by
  obtain ⟨hne, c, hc⟩ := live_alloc key hfresh hlast
  obtain ⟨hned, cd, hcd⟩ := live_alloc key hfresh hdll
  have hnew : (h.alloc key).content h.fresh = some (key, none) := by
    rw [alloc_content, Function.update_self]
  obtain ⟨h₁, e₁, v₁⟩ := setNext_view hnew (some dll)
  have hnew : h₁.content h.fresh = some (key, none) := (congrFun (congrArg DllView.content v₁) _).trans hnew
  have hp₁ : h₁.prev dll = some last := by
    have hp := congrFun (congrArg DllView.prev v₁) dll
    rw [alloc_view] at hp
    refine hp.trans ?_
    show Function.update h.prev h.fresh none dll = some last
    rw [Function.update_of_ne hned, hprev]
  obtain ⟨h₂, e₂, v₂⟩ := setPrev_view hnew (some last)
  have hp₂ : h₂.prev dll = some last := by
    refine (congrFun (congrArg DllView.prev v₂) dll).trans ?_
    show Function.update h₁.prev h.fresh (some last) dll = some last
    rw [Function.update_of_ne hned, hp₁]
  have hcontent : h₂.content = (h.alloc key).content :=
    (congrArg DllView.content v₂).trans (congrArg DllView.content v₁)
  rw [← hcontent] at hc hcd
  obtain ⟨h₃, e₃, v₃⟩ := setNext_view hc (some h.fresh)
  have hcd : h₃.content dll = some cd := (congrFun (congrArg DllView.content v₃) dll).trans hcd
  obtain ⟨h₄, e₄, v₄⟩ := setPrev_view hcd (some h.fresh)
  refine ⟨h₄, ?_, ?_⟩
  · simp only [linkIn, alloc] at e₁ ⊢
    simp [e₁, e₂, e₃, e₄, hp₁, hp₂]
  · rw [v₄, v₃, v₂, v₁, alloc_view]
    refine DllView.ext ?_ ?_ rfl ?_ rfl
    · funext x
      by_cases hx : x = last
      · subst hx
        simp [insertedView, hne]
      · simp [insertedView, Function.update_apply, hx, Ne.symm hx]
    · funext x
      by_cases hx : x = dll
      · subst hx
        simp [insertedView, hned]
      · simp [insertedView, Function.update_apply, hx, Ne.symm hx]
    · simp [insertedView]

theorem linkIn_view (hl : Linked h.next h.prev (h.head i) (l₁ ++ l₂))
    (hlive : ∀ d ∈ l₁ ++ l₂, ∃ c, h.content d = some c) (hfresh : h.content h.fresh = none) :
    ∃ h', h.linkIn i key l₁.getLast? l₂.head? = some (h', h.fresh) ∧
      h'.view = h.insertedView i key l₁.getLast? l₂.head? := by
  cases hlast : l₁.getLast? with
  | none =>
    rw [List.getLast?_eq_none_iff] at hlast
    subst hlast
    exact linkIn_head hl.head (fun d hd => hlive d (List.mem_of_mem_head? hd)) hfresh
  | some last =>
    have hl₁ := hlive last (List.mem_append_left _ (List.mem_of_getLast? hlast))
    cases l₂ with
    | nil => exact linkIn_tail hl₁ hfresh
    | cons dll l₂ => exact linkIn_between (hl.prev_eq.trans hlast) hl₁ (hlive dll (by simp)) hfresh

omit [DecidableEq ι] in
theorem passPrev_view (e : DllEntry κ δ) (hlive : ∀ n, e.dllNext = some n → ∃ c, h.content n = some c) :
    ∃ h', h.passPrev e = some h' ∧ h'.view =
      { h.view with prev := fun x => if e.dllNext = some x then e.dllPrev else h.prev x } := by
  unfold passPrev
  cases hn : e.dllNext with
  | none => exact ⟨h, rfl, by simp [view]⟩
  | some n =>
    obtain ⟨c, hc⟩ := hlive n hn
    obtain ⟨h', e', v'⟩ := setPrev_view hc e.dllPrev
    refine ⟨h', e', v'.trans (DllView.ext rfl ?_ rfl rfl rfl)⟩
    funext x
    simp [Function.update_apply, view, eq_comm]

theorem passNext_view (i : ι) (e : DllEntry κ δ)
    (hlive : ∀ p, e.dllPrev = some p → ∃ c, h.content p = some c) :
    ∃ h', h.passNext i e = some h' ∧ h'.view =
      { h.view with
        next := fun x => if e.dllPrev = some x then e.dllNext else h.next x
        head := Function.update h.head i (if e.dllPrev = none then e.dllNext else h.head i) } := by
  unfold passNext
  cases hp : e.dllPrev with
  | none =>
    refine ⟨_, rfl, DllView.ext ?_ rfl rfl rfl rfl⟩
    funext x
    simp [view, next, setHead]
  | some p =>
    obtain ⟨c, hc⟩ := hlive p hp
    obtain ⟨h', e', v'⟩ := setNext_view hc e.dllNext
    refine ⟨h', e', v'.trans (DllView.ext ?_ rfl rfl ?_ rfl)⟩
    · funext x
      simp [Function.update_apply, view, eq_comm]
    · simp [view]

/-- An entry is taken out of its list. -/
theorem dllRemoveEntry_view (hl : Linked h.next h.prev (h.head i) (l₁ ++ d :: l₂))
    (hlive : ∀ x ∈ l₁ ++ d :: l₂, ∃ c, h.content x = some c) :
    ∃ h', h.dllRemoveEntry i d = some h' ∧ h'.view =
      { next := Function.update (fun x => if l₁.getLast? = some x then l₂.head? else h.next x) d none
        prev := Function.update (fun x => if l₂.head? = some x then l₁.getLast? else h.prev x) d none
        content := Function.update h.content d none
        head := Function.update h.head i (if l₁ = [] then l₂.head? else h.head i)
        fresh := h.fresh } := by
  obtain ⟨c, hc⟩ := hlive d (by simp)
  have he := entry_of_content hc
  rw [hl.next_eq, hl.prev_eq] at he
  obtain ⟨h₁, e₁, v₁⟩ := passPrev_view ⟨l₂.head?, l₁.getLast?, c.1, c.2⟩ fun n hn =>
    hlive n (List.mem_append_right _ (List.mem_cons_of_mem _ (List.mem_of_mem_head? hn)))
  have hcontent : h₁.content = h.content := congrArg DllView.content v₁
  obtain ⟨h₂, e₂, v₂⟩ := passNext_view i ⟨l₂.head?, l₁.getLast?, c.1, c.2⟩ fun p hp =>
    hcontent ▸ hlive p (List.mem_append_left _ (List.mem_of_getLast? hp))
  refine ⟨h₂.release d, by simp [dllRemoveEntry, he, e₁, e₂], ?_⟩
  have hnext : h₁.next = h.next := congrArg DllView.next v₁
  have hhead : h₁.head = h.head := congrArg DllView.head v₁
  rw [release_view, ← show h₂.view.next = h₂.next from rfl, ← show h₂.view.prev = h₂.prev from rfl,
    ← show h₂.view.content = h₂.content from rfl, v₂, v₁]
  simp only [hnext, hhead, view, List.getLast?_eq_none_iff]

/-! ## Sorted lists -/

omit [DecidableEq ι]

/-- What the entry `d` is sorted by. -/
def keyOf (h : DllHeap ι κ δ) (text : κ → Option Text) (d : Nat) : Text :=
  hostKey (((h.content d).bind fun c => text c.1).getD [])

/-- The lists have the entries `cells`: linked both ways, no entry in two of them, every key there to be
    read, and in each list the keys ascending. -/
structure Sorted (h : DllHeap ι κ δ) (text : κ → Option Text) (cells : ι → List Nat) : Prop where
  family : LinkedFamily h.next h.prev h.head cells
  live : ∀ i, ∀ d ∈ cells i, ∃ c t, h.content d = some c ∧ text c.1 = some t
  ascending : ∀ i, (cells i).Pairwise fun d d' => h.keyOf text d < h.keyOf text d'
  below : ∀ d, h.fresh ≤ d → h.content d = none

variable {text text' : κ → Option Text} {cells cells' : ι → List Nat}

theorem Sorted.lt_fresh (hs : Sorted h text cells) (hd : d ∈ cells i) : d < h.fresh := by
  obtain ⟨c, -, hc, -⟩ := hs.live i d hd
  by_contra hle
  rw [hs.below d (by omega)] at hc
  cases hc

theorem Sorted.length_le (hs : Sorted h text cells) (i : ι) : (cells i).length ≤ h.fresh := by
  have hsub : cells i ⊆ List.range h.fresh := fun d hd => List.mem_range.mpr (hs.lt_fresh hd)
  have hle := ((hs.family.linked i).nodup.subperm hsub).length_le
  rwa [List.length_range] at hle

theorem keyOf_eq (hc : h.content d = some c) {t : Text} (ht : text c.1 = some t) :
    h.keyOf text d = hostKey t := by
  simp [keyOf, hc, ht]

/-- Keys that are read as before leave the lists as they are. -/
theorem Sorted.congr (hs : Sorted h text cells)
    (htext : ∀ i, ∀ d ∈ cells i, ∀ c, h.content d = some c → text' c.1 = text c.1) :
    Sorted h text' cells := by
  have hkey : ∀ i, ∀ d ∈ cells i, h.keyOf text' d = h.keyOf text d := by
    intro i d hd
    obtain ⟨c, t, hc, ht⟩ := hs.live i d hd
    rw [keyOf_eq hc ht, keyOf_eq hc ((htext i d hd c hc).trans ht)]
  refine ⟨hs.family, ?_, ?_, hs.below⟩
  · intro i d hd
    obtain ⟨c, t, hc, ht⟩ := hs.live i d hd
    exact ⟨c, t, hc, (htext i d hd c hc).trans ht⟩
  · intro i
    apply (hs.ascending i).imp_of_mem
    intro d d' hd hd' hlt
    rwa [hkey i d hd, hkey i d' hd']

/-- No two entries of a list have the same key. -/
theorem Sorted.key_inj (hs : Sorted h text cells) {d d' : Nat} (hd : d ∈ cells i) (hd' : d' ∈ cells i)
    (hkey : h.keyOf text d = h.keyOf text d') : d = d' := by
  obtain ⟨l₁, l₂, hi⟩ := List.append_of_mem hd
  have hasc := hs.ascending i
  rw [hi] at hd' hasc
  obtain ⟨-, hasc₂, hasc₁⟩ := List.pairwise_append.mp hasc
  obtain hd' | hd' := List.mem_append.mp hd'
  · exact absurd hkey (ne_of_gt (hasc₁ d' hd' d List.mem_cons_self))
  · obtain rfl | hd' := List.mem_cons.mp hd'
    · rfl
    · exact absurd hkey (ne_of_lt (List.rel_of_pairwise_cons hasc₂ hd'))

/-! ## Searching -/

/-- The loop of `dll_lookup_or_create` finds the key, or the place where it belongs. -/
theorem dllWalk_spec (hs : Sorted h text cells) (key : Text) (l₂ : List Nat) : ∀ (l₁ : List Nat) (n : Nat),
    cells i = l₁ ++ l₂ → l₂.length < n → (∀ d ∈ l₁, h.keyOf text d < hostKey key) →
    (∃ d ∈ l₂, h.keyOf text d = hostKey key ∧
      dllWalk h text key n l₁.getLast? l₂.head? = some (.found d)) ∨
    ∃ m₁ m₂, cells i = m₁ ++ m₂ ∧
      dllWalk h text key n l₁.getLast? l₂.head? = some (.between m₁.getLast? m₂.head?) ∧
      (∀ d ∈ m₁, h.keyOf text d < hostKey key) ∧ ∀ d ∈ m₂, hostKey key < h.keyOf text d := by
  induction l₂ with
  | nil =>
    intro l₁ n hi hn hlt
    obtain ⟨n, rfl⟩ : ∃ m, n = m + 1 := ⟨n - 1, by omega⟩
    exact .inr ⟨l₁, [], hi, rfl, hlt, by simp⟩
  | cons a l₂ ih =>
    intro l₁ n hi hn hlt
    obtain ⟨n, rfl⟩ : ∃ m, n = m + 1 := ⟨n - 1, by omega⟩
    obtain ⟨c, t, hc, ht⟩ := hs.live i a (by simp [hi])
    have he := entry_of_content hc
    have hlinked := hs.family.linked i
    rw [hi] at hlinked
    rw [hlinked.next_eq] at he
    have hkey := keyOf_eq hc ht
    rw [List.head?_cons, dllWalk, he]
    obtain ⟨heq, hcmp⟩ | ⟨hless, hcmp⟩ | ⟨hmore, hcmp⟩ := strcasecmp_cases key t
    · refine .inl ⟨a, List.mem_cons_self, hkey.trans heq.symm, ?_⟩
      simp [ht, hcmp]
    · refine .inr ⟨l₁, a :: l₂, hi, by simp [ht, hcmp], hlt, ?_⟩
      intro d hd
      obtain rfl | hd := List.mem_cons.mp hd
      · rwa [hkey]
      · have hasc := hs.ascending i
        rw [hi] at hasc
        have hd := List.rel_of_pairwise_cons (List.pairwise_append.mp hasc).2.1 hd
        exact hless.trans (hkey ▸ hd)
    · have hlast : (l₁ ++ [a]).getLast? = some a := by simp
      have hstep := ih (l₁ ++ [a]) n (by simp [hi]) (by simp at hn; omega) fun d hd => by
        obtain hd | hd := List.mem_append.mp hd
        · exact hlt d hd
        · rw [List.mem_singleton.mp hd, hkey]
          exact hmore
      rw [hlast] at hstep
      simp only [ht, hcmp, Option.bind_eq_bind, Option.bind_some]
      obtain ⟨d, hd, hfound⟩ | hplace := hstep
      · exact .inl ⟨d, List.mem_cons_of_mem _ hd, hfound⟩
      · exact .inr hplace

/-- Both loops end at the same place. -/
theorem dllFind_walk (key : Text) (n : Nat) : ∀ dllLast dll : Option Nat,
    dllFind h text key n dll = (dllWalk h text key n dllLast dll).map DllPlace.dll := by
  induction n with
  | zero => exact fun _ _ => rfl
  | succ n ih =>
    intro dllLast dll
    cases dll with
    | none => rfl
    | some dll =>
      rw [dllFind, dllWalk]
      cases h.entry dll with
      | none => rfl
      | some e =>
        cases hk : text e.dllKey with
        | none => simp [hk]
        | some k =>
          simp only [hk, Option.bind_eq_bind, Option.bind_some]
          cases strcasecmp key k with
          | eq => rfl
          | lt => rfl
          | gt => exact ih (some dll) e.dllNext

/-- **A key is found exactly if it is in the list.** -/
theorem dllLookup_spec (hs : Sorted h text cells) (i : ι) (key : Text) :
    ∃ r, h.dllLookup text (h.head i) key = some r ∧
      ∀ d, r = some d ↔ d ∈ cells i ∧ h.keyOf text d = hostKey key := by
  unfold dllLookup
  rw [dllFind_walk key _ none, (hs.family.linked i).head]
  have hlen := hs.length_le i
  obtain ⟨a, ha, hkey, hw⟩ | ⟨m₁, m₂, hi, hw, hlt, hgt⟩ :=
    dllWalk_spec hs key (cells i) [] (h.fresh + 1) rfl (by omega) (by simp)
  · rw [List.getLast?_nil] at hw
    refine ⟨some a, by rw [hw]; rfl, fun d => ?_⟩
    constructor
    · rintro ⟨⟩
      exact ⟨ha, hkey⟩
    · rintro ⟨hd, hkd⟩
      rw [hs.key_inj hd ha (hkd.trans hkey.symm)]
  · rw [List.getLast?_nil] at hw
    refine ⟨none, by rw [hw]; rfl, fun d => ?_⟩
    constructor
    · rintro ⟨⟩
    · rintro ⟨hd, hkd⟩
      rw [hi] at hd
      obtain hd | hd := List.mem_append.mp hd
      · exact absurd hkd (ne_of_lt (hlt d hd))
      · exact absurd hkd (ne_of_gt (hgt d hd))

/-! ## The operations -/

variable [DecidableEq ι]

/-- The entry `d` has joined the list `i`. -/
structure Joined (cells cells' : ι → List Nat) (i : ι) (d : Nat) : Prop where
  perm : (cells' i).Perm (d :: cells i)
  others : ∀ j, j ≠ i → cells' j = cells j

omit [DecidableEq ι] in
theorem Joined.mem_iff (hj : Joined cells cells' i d) {x : Nat} : x ∈ cells' i ↔ x = d ∨ x ∈ cells i := by
  rw [hj.perm.mem_iff, List.mem_cons]

omit [DecidableEq ι] in
theorem keyOf_congr (hc : h'.content d = h.content d) : h'.keyOf text d = h.keyOf text d := by
  unfold keyOf
  rw [hc]

/-- A new entry between those with lower keys and those with higher ones. -/
theorem Sorted.inserted (hs : Sorted h text cells) {k : Text} (hk : text key = some k) (hi : cells i = l₁ ++ l₂)
    (hlt : ∀ d ∈ l₁, h.keyOf text d < hostKey k) (hgt : ∀ d ∈ l₂, hostKey k < h.keyOf text d)
    (hv : h'.view = h.insertedView i key l₁.getLast? l₂.head?) :
    Sorted h' text (Function.update cells i (l₁ ++ h.fresh :: l₂)) := by
  have hnot : ∀ j, h.fresh ∉ cells j := fun j hj => absurd (hs.lt_fresh hj) (by omega)
  have hcontent : h'.content = Function.update h.content h.fresh (some (key, none)) :=
    congrArg DllView.content hv
  have hnew : h'.content h.fresh = some (key, none) := by rw [hcontent, Function.update_self]
  have hold : ∀ j, ∀ d ∈ cells j, h'.content d = h.content d := by
    intro j d hd
    rw [hcontent, Function.update_of_ne]
    rintro rfl
    exact hnot j hd
  have hkey : ∀ j, ∀ d ∈ cells j, h'.keyOf text d = h.keyOf text d := fun j d hd => keyOf_congr (hold j d hd)
  have hknew : h'.keyOf text h.fresh = hostKey k := keyOf_eq hnew hk
  refine ⟨?_, ?_, ?_, ?_⟩
  · rw [show h'.head = _ from congrArg DllView.head hv]
    apply hs.family.insert hi hnot
    · simp [List.getLast?_eq_none_iff]
    · exact congrFun (congrArg DllView.next hv)
    · exact congrFun (congrArg DllView.prev hv)
  · intro j d hd
    obtain hd | rfl : d ∈ cells j ∨ d = h.fresh := by
      obtain ⟨rfl, hmem⟩ | ⟨-, hmem⟩ := mem_update_cells hd
      · rw [hi]
        simp only [List.mem_append, List.mem_cons] at hmem ⊢
        tauto
      · exact .inl hmem
    · rw [hold j d hd]
      exact hs.live j d hd
    · exact ⟨_, k, hnew, hk⟩
  · intro j
    have hmono : (cells j).Pairwise fun d d' => h'.keyOf text d < h'.keyOf text d' := by
      apply (hs.ascending j).imp_of_mem
      intro d d' hd hd' hlt
      rwa [hkey j d hd, hkey j d' hd']
    by_cases hj : j = i
    · subst hj
      rw [hi] at hmono
      rw [Function.update_self]
      obtain ⟨hp₁, hp₂, hp₁₂⟩ := List.pairwise_append.mp hmono
      refine List.pairwise_append.mpr
        ⟨hp₁, List.pairwise_cons.mpr ⟨fun d hd => ?_, hp₂⟩, fun d hd d' hd' => ?_⟩
      · rw [hknew, hkey j d (hi ▸ List.mem_append_right _ hd)]
        exact hgt d hd
      · obtain rfl | hd' := List.mem_cons.mp hd'
        · rw [hknew, hkey j d (hi ▸ List.mem_append_left _ hd)]
          exact hlt d hd
        · exact hp₁₂ d hd d' hd'
    · rwa [Function.update_of_ne hj]
  · intro d hd
    rw [show h'.fresh = h.fresh + 1 from congrArg DllView.fresh hv] at hd
    rw [hcontent, Function.update_of_ne (by omega)]
    exact hs.below d (by omega)

/-- **`dll_lookup_or_create`** finds the entry with the key, or adds one and keeps the lists sorted. -/
theorem dllLookupOrCreate_spec (hs : Sorted h text cells) (i : ι) {k : Text} (hk : text key = some k) :
    (∃ d ∈ cells i, h.keyOf text d = hostKey k ∧ h.dllLookupOrCreate text i key = some (h, d)) ∨
    (∀ d ∈ cells i, h.keyOf text d ≠ hostKey k) ∧ ∃ h' cells',
      h.dllLookupOrCreate text i key = some (h', h.fresh) ∧ Sorted h' text cells' ∧
      Joined cells cells' i h.fresh ∧ h'.content = Function.update h.content h.fresh (some (key, none)) ∧
      h'.fresh = h.fresh + 1 := by
  have hlen := hs.length_le i
  have hhead := (hs.family.linked i).head
  unfold dllLookupOrCreate
  rw [hhead]
  obtain ⟨a, ha, hkey, hw⟩ | ⟨m₁, m₂, hi, hw, hlt, hgt⟩ :=
    dllWalk_spec hs k (cells i) [] (h.fresh + 1) rfl (by omega) (by simp)
  · rw [List.getLast?_nil] at hw
    exact .inl ⟨a, ha, hkey, by simp [hk, hw]⟩
  · rw [List.getLast?_nil] at hw
    have hlinked := hs.family.linked i
    rw [hi] at hlinked
    have hlive : ∀ d ∈ m₁ ++ m₂, ∃ c, h.content d = some c := by
      intro d hd
      obtain ⟨c, -, hc, -⟩ := hs.live i d (hi ▸ hd)
      exact ⟨c, hc⟩
    obtain ⟨h', e, v⟩ := @linkIn_view _ _ _ _ h key i m₁ m₂ hlinked hlive (hs.below _ (by omega))
    refine .inr ⟨?_, h', Function.update cells i (m₁ ++ h.fresh :: m₂), by simp [hk, hw, e],
      hs.inserted hk hi hlt hgt v, ⟨?_, fun j hj => Function.update_of_ne hj ..⟩, congrArg DllView.content v,
      congrArg DllView.fresh v⟩
    · intro d hd
      rw [hi] at hd
      obtain hd | hd := List.mem_append.mp hd
      · exact ne_of_lt (hlt d hd)
      · exact ne_of_gt (hgt d hd)
    · rw [Function.update_self, hi]
      exact List.perm_middle

/-- **`dll_remove_entry`** takes the entry out and keeps the lists sorted. -/
theorem dllRemoveEntry_spec (hs : Sorted h text cells) (hd : d ∈ cells i) : ∃ h' cells',
    h.dllRemoveEntry i d = some h' ∧ Sorted h' text cells' ∧ Joined cells' cells i d ∧
      h'.content = Function.update h.content d none ∧ h'.fresh = h.fresh := by
  obtain ⟨l₁, l₂, hi⟩ := List.append_of_mem hd
  have hlinked := hs.family.linked i
  rw [hi] at hlinked
  have hlive : ∀ x ∈ l₁ ++ d :: l₂, ∃ c, h.content x = some c := by
    intro x hx
    obtain ⟨c, -, hc, -⟩ := hs.live i x (hi ▸ hx)
    exact ⟨c, hc⟩
  obtain ⟨h', e, v⟩ := dllRemoveEntry_view hlinked hlive
  have hcontent : h'.content = Function.update h.content d none := congrArg DllView.content v
  have hmem : ∀ j, ∀ x ∈ Function.update cells i (l₁ ++ l₂) j, x ∈ cells j ∧ x ≠ d := by
    intro j x hx
    obtain ⟨rfl, hmem⟩ | ⟨hj, hmem⟩ := mem_update_cells hx
    · have hnd := hlinked.nodup
      rw [List.nodup_middle, List.nodup_cons] at hnd
      refine ⟨?_, fun hxd => hnd.1 (hxd ▸ hmem)⟩
      rw [hi]
      simp only [List.mem_append, List.mem_cons] at hmem ⊢
      tauto
    · exact ⟨hmem, fun hxd => hj (hs.family.apart j i d (hxd ▸ hmem) hd)⟩
  have hold : ∀ x, x ≠ d → h'.content x = h.content x := fun x hx => by
    rw [hcontent, Function.update_of_ne hx]
  refine ⟨h', Function.update cells i (l₁ ++ l₂), e, ⟨?_, ?_, ?_, ?_⟩,
    ⟨?_, fun j hj => (Function.update_of_ne hj ..).symm⟩, hcontent, congrArg DllView.fresh v⟩
  · rw [show h'.head = _ from congrArg DllView.head v]
    apply hs.family.remove hi rfl
    · intro x hx
      refine (congrFun (congrArg DllView.next v) x).trans ?_
      simp [hx]
    · intro x hx
      refine (congrFun (congrArg DllView.prev v) x).trans ?_
      simp [hx]
  · intro j x hx
    obtain ⟨hx, hne⟩ := hmem j x hx
    rw [hold x hne]
    exact hs.live j x hx
  · intro j
    have hsub : (Function.update cells i (l₁ ++ l₂) j).Sublist (cells j) := by
      by_cases hj : j = i
      · subst hj
        rw [Function.update_self, hi]
        exact (List.sublist_cons_self d l₂).append_left l₁
      · rw [Function.update_of_ne hj]
    apply ((hs.ascending j).sublist hsub).imp_of_mem
    intro x x' hx hx' hlt
    rwa [keyOf_congr (hold x (hmem j x hx).2), keyOf_congr (hold x' (hmem j x' hx').2)]
  · intro x hx
    rw [show h'.fresh = h.fresh from congrArg DllView.fresh v] at hx
    rw [hcontent]
    by_cases hxd : x = d
    · rw [hxd, Function.update_self]
    · rw [Function.update_of_ne hxd]
      exact hs.below x hx
  · rw [Function.update_self, hi]
    exact List.perm_middle

omit [DecidableEq ι] in
/-- New data leave the lists as they are. -/
theorem setData_spec (hs : Sorted h text cells) (hc : h.content d = some c) (v : δ) : ∃ h',
    h.setData d v = some h' ∧ Sorted h' text cells ∧
      h'.content = Function.update h.content d (some (c.1, some v)) ∧ h'.fresh = h.fresh := by
  obtain ⟨h', e, v'⟩ := setData_view hc v
  have hcontent : h'.content = Function.update h.content d (some (c.1, some v)) :=
    congrArg DllView.content v'
  have hkeys : ∀ x, (h'.content x).map Prod.fst = (h.content x).map Prod.fst := by
    intro x
    rw [hcontent]
    by_cases hx : x = d
    · rw [hx, Function.update_self, hc]
      rfl
    · rw [Function.update_of_ne hx]
  have hkey : ∀ x, h'.keyOf text x = h.keyOf text x := by
    intro x
    have hread : ∀ o : Option (κ × Option δ),
        (o.bind fun c => text c.1) = (o.map Prod.fst).bind text := fun o => by cases o <;> rfl
    unfold keyOf
    rw [hread, hread, hkeys]
  refine ⟨h', e, ⟨?_, ?_, ?_, ?_⟩, hcontent, congrArg DllView.fresh v'⟩
  · rw [show h'.next = h.next from congrArg DllView.next v', show h'.prev = h.prev from congrArg DllView.prev v',
      show h'.head = h.head from congrArg DllView.head v']
    exact hs.family
  · intro i x hx
    obtain ⟨cx, t, hcx, ht⟩ := hs.live i x hx
    have hk := hkeys x
    rw [hcx, Option.map_some, Option.map_eq_some_iff] at hk
    obtain ⟨c', hc', hk⟩ := hk
    exact ⟨c', t, hc', hk ▸ ht⟩
  · intro i
    simp only [hkey]
    exact hs.ascending i
  · intro x hx
    rw [show h'.fresh = h.fresh from congrArg DllView.fresh v'] at hx
    have hk := hkeys x
    rw [hs.below x hx] at hk
    exact Option.map_eq_none_iff.mp hk

end DllHeap

end Simta
