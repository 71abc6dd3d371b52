import Simta.Lib.Links
import Simta.HostQueues
import Mathlib.Data.List.Perm.Subperm

/-!
# The delivery schedule

`queue.c`: the list `simta_deliver_q` of host queues by the time of their next launch, linked both ways
by hand, and the arithmetic of that time.

* `hqDeliverPush`, `hqDeliverPop`, `hqFree`;
* `Schedule` — the links are those of one list without repetition, in order of launch;
* `deliverPop_spec`, `deliverInsert_spec` — removal and insertion keep it and reach no freed queue.
-/

set_option autoImplicit false

namespace Simta

open QueueProg

/-! ## The functions -/

/-- `if ( n != NULL ) n->hq_deliver_prev = prev`. -/
def Queues.setPrev (n prev : Option Addr) (q : Queues) : Option Queues :=
  match n with
  | none => some q
  | some n => q.modHq n fun y => { y with hqDeliverPrev := prev }

/-- The queue before `h`, or the head of the schedule, is linked to the one behind it. -/
def Queues.popNext (h : Addr) (x : HostQ) (q : Queues) : Option Queues :=
  match x.hqDeliverPrev with
  | none => some (if q.deliverQ = some h then { q with deliverQ := x.hqDeliverNext } else q)
  | some p => q.modHq p fun y => { y with hqDeliverNext := x.hqDeliverNext }

/-- `hq_deliver_pop`. -/
def Queues.deliverPop (h : Addr) (q : Queues) : Option Queues := do
  let x ← q.hqs h
  let q ← q.popNext h x
  let x ← q.hqs h
  let q ← q.setPrev x.hqDeliverNext x.hqDeliverPrev
  q.modHq h fun y => { y with hqDeliverNext := none, hqDeliverPrev := none }

/-- The queue behind which a queue with that launch time is inserted, from `insert` on.  A list that does
    not end faults when the number is used up. -/
def Queues.insertAfter (q : Queues) (launch : Int) : Nat → Addr → Option Addr
  | 0, _ => none
  | n + 1, insert => do
    let x ← q.hqs insert
    match x.hqDeliverNext with
    | none => some insert
    | some k => do
      let y ← q.hqs k
      if y.hqNextLaunch ≤ launch then q.insertAfter launch n k else some insert

/-- The end of `hq_deliver_push`: the queue is linked in by its launch time. -/
def Queues.deliverInsert (h : Addr) (q : Queues) : Option Queues := do
  let x ← q.hqs h
  match q.deliverQ with
  | none => ({ q with deliverQ := some h } : Queues).modHq h fun y => { y with hqDeliverNext := none }
  | some f => do
    let y ← q.hqs f
    if y.hqNextLaunch ≥ x.hqNextLaunch then
      let q ← q.modHq h fun y => { y with hqDeliverNext := some f }
      let q ← q.modHq f fun y => { y with hqDeliverPrev := some h }
      some { q with deliverQ := some h }
    else
      let insert ← q.insertAfter x.hqNextLaunch q.fresh f
      let z ← q.hqs insert
      let q ← q.modHq h fun y => { y with hqDeliverNext := z.hqDeliverNext }
      let q ← q.setPrev z.hqDeliverNext (some h)
      let q ← q.modHq insert fun y => { y with hqDeliverNext := some h }
      q.modHq h fun y => { y with hqDeliverPrev := some insert }

/-- `random() % n`; a remainder by zero ends the process. -/
def randomMod (n : Int) : QueueProg Int := do
  let r ← Faulty.ask QueueOp.random
  if n = 0 then Faulty.fault else return Int.tmod r n

/-- The wait and the launch time that `hq_deliver_push` computes. -/
def launchTime (conf : QueueConf) (h : Addr) (now : Int) (delay : Option Int) : QueueProg (Int × Int) := do
  let x ← hq h
  match delay with
  | some d =>
    if d > x.hqMaxWait then return (x.hqMaxWait, x.hqMaxWait + now)
    else return (if d < x.hqMinWait then x.hqMinWait else d, d + now)
  | none =>
    if conf.mailJail ∧ x.hqEntries = x.hqJailEnvs then
      if x.hqLastLaunch = 0 then return (conf.jailSeconds, (← randomMod conf.jailSeconds) + now)
      else return (conf.jailSeconds, conf.jailSeconds + now)
    else if x.hqWaitLast = 0 ∨ x.hqLeaky then
      modHq h fun x => { x with hqLeaky := false }
      return (x.hqMinWait, (← randomMod x.hqMinWait) + now)
    else
      -- twice the last wait, between the two bounds
      let wait :=
        if x.hqWaitLast * 2 ≤ x.hqMaxWait then
          if x.hqWaitLast * 2 < x.hqMinWait then x.hqMinWait else x.hqWaitLast * 2
        else x.hqMaxWait
      return (wait, wait + now)

/-- A launch time that is still to come and earlier than the new one is kept, and so is its wait. -/
def HostQ.setLaunch (x : HostQ) (wait launch : Int) : HostQ :=
  if x.hqNextLaunch ≤ x.hqLastLaunch ∨ x.hqNextLaunch > launch then
    { x with hqWaitLast := wait, hqNextLaunch := launch }
  else x

/-- `hq_deliver_push`; the clock is read when no time is given. -/
def hqDeliverPush (conf : QueueConf) (h : Addr) (tvNow tvDelay : Option Int) : QueueProg Int := do
  let now ← match tvNow with
    | some now => pure (some now)
    | none => file Sys.clock
  match now with
  | none => return 1
  | some now =>
    let (wait, launch) ← launchTime conf h now tvDelay
    modHq h fun x => x.setLaunch wait launch
    Faulty.update (Queues.deliverInsert h)
    return 0

/-- `hq_free`. -/
def Queues.hqFree (h : Addr) (q : Queues) : Option Queues := do
  let q ← q.deliverPop h
  some (q.setHq h none)

/-! ## The schedule -/

namespace Queues

def deliverNext (q : Queues) (h : Addr) : Option Addr := (q.hqs h).bind fun x => x.hqDeliverNext
def deliverPrev (q : Queues) (h : Addr) : Option Addr := (q.hqs h).bind fun x => x.hqDeliverPrev
def nextLaunch (q : Queues) (h : Addr) : Int := ((q.hqs h).map fun x => x.hqNextLaunch).getD 0

end Queues

/-- A host queue without its links. -/
def HostQ.unlinked (x : HostQ) : HostQ := { x with hqDeliverNext := none, hqDeliverPrev := none }

/-- **The schedule is the list `l`**: its links are inverse to each other, it holds no freed queue and
    none twice, and it is in order of launch; a queue outside has no links. -/
structure Schedule (q : Queues) (l : List Addr) : Prop where
  linked : Linked q.deliverNext q.deliverPrev q.deliverQ l
  there : ∀ h ∈ l, (q.hqs h).isSome
  apart : ∀ h x, h ∉ l → q.hqs h = some x → x.hqDeliverNext = none ∧ x.hqDeliverPrev = none
  ordered : l.Pairwise fun h k => q.nextLaunch h ≤ q.nextLaunch k

/-- Only links of the schedule have changed. -/
structure Rescheduled (q q' : Queues) : Prop where
  rest : q' = { q with hqs := q'.hqs, deliverQ := q'.deliverQ }
  hqs : ∀ k, (q'.hqs k).map HostQ.unlinked = (q.hqs k).map HostQ.unlinked

section Links

variable {q q' : Queues} {h k : Addr} {x y : HostQ} {l l₁ l₂ : List Addr}

theorem Rescheduled.refl (q : Queues) : Rescheduled q q := ⟨rfl, fun _ => rfl⟩

theorem Rescheduled.trans {u : Queues} (h : Rescheduled q q') (h' : Rescheduled q' u) : Rescheduled q u := by
  refine ⟨?_, fun b => (h'.hqs b).trans (h.hqs b)⟩
  rw [h'.rest, h.rest]

theorem modHq_of_some {f : HostQ → HostQ} (hx : q.hqs h = some x) :
    q.modHq h f = some (q.setHq h (some (f x))) := by
  rw [Queues.modHq, hx, Option.map_some]

theorem rescheduled_setHq (hx : q.hqs h = some x) (hy : y.unlinked = x.unlinked) :
    Rescheduled q (q.setHq h (some y)) := by
  refine ⟨rfl, fun k => ?_⟩
  simp only [Queues.setHq_hqs]
  split
  · rename_i hk
    rw [hk, hx, Option.map_some, Option.map_some, hy]
  · rfl

theorem Rescheduled.nextLaunch (hr : Rescheduled q q') : q'.nextLaunch = q.nextLaunch := by
  funext k
  have hk := hr.hqs k
  unfold Queues.nextLaunch
  cases hq : q.hqs k <;> cases hq' : q'.hqs k <;> simp [hq, hq'] at hk ⊢
  have h := congrArg HostQ.hqNextLaunch hk
  exact h

theorem Rescheduled.isSome (hr : Rescheduled q q') (k : Addr) : (q'.hqs k).isSome = (q.hqs k).isSome := by
  have hk := congrArg Option.isSome (hr.hqs k)
  simpa using hk

@[simp] theorem setHq_deliverNext : (q.setHq h (some y)).deliverNext k =
    if k = h then y.hqDeliverNext else q.deliverNext k := by
  unfold Queues.deliverNext
  rw [Queues.setHq_hqs]
  split <;> rfl

@[simp] theorem setHq_deliverPrev : (q.setHq h (some y)).deliverPrev k =
    if k = h then y.hqDeliverPrev else q.deliverPrev k := by
  unfold Queues.deliverPrev
  rw [Queues.setHq_hqs]
  split <;> rfl

/-- The links that a step leaves, with the queues it has not written. -/
structure Relinks (next prev : Addr → Option Addr) (head : Option Addr) (q q' : Queues) : Prop where
  rescheduled : Rescheduled q q'
  head : q'.deliverQ = head
  next : ∀ k, q'.deliverNext k = next k
  prev : ∀ k, q'.deliverPrev k = prev k

theorem setPrev_relinks {o v : Option Addr} (ho : ∀ n, o = some n → (q.hqs n).isSome) : ∃ q',
    q.setPrev o v = some q' ∧
    Relinks q.deliverNext (fun k => if o = some k then v else q.deliverPrev k) q.deliverQ q q' ∧
    ∀ k, o ≠ some k → q'.hqs k = q.hqs k := by
  cases o with
  | none => exact ⟨q, rfl, ⟨.refl q, rfl, fun _ => rfl, fun _ => rfl⟩, fun _ _ => rfl⟩
  | some n =>
    obtain ⟨y, hy⟩ := Option.isSome_iff_exists.mp (ho n rfl)
    refine ⟨_, modHq_of_some hy, ⟨rescheduled_setHq hy rfl, rfl, fun k => ?_, fun k => ?_⟩, fun k hk => ?_⟩
    · rw [setHq_deliverNext]
      split
      · rename_i hk
        rw [hk, Queues.deliverNext, hy]
        rfl
      · rfl
    · rw [setHq_deliverPrev]
      simp only [Option.some.injEq, eq_comm]
    · rw [Queues.setHq_hqs, if_neg fun h => hk (congrArg some h.symm)]

theorem setNext_relinks {p : Addr} {v : Option Addr} (hp : (q.hqs p).isSome) : ∃ q',
    (q.modHq p fun y => { y with hqDeliverNext := v }) = some q' ∧
    Relinks (fun k => if k = p then v else q.deliverNext k) q.deliverPrev q.deliverQ q q' ∧
    ∀ k, k ≠ p → q'.hqs k = q.hqs k := by
  obtain ⟨y, hy⟩ := Option.isSome_iff_exists.mp hp
  refine ⟨_, modHq_of_some hy, ⟨rescheduled_setHq hy rfl, rfl, fun k => ?_, fun k => ?_⟩, fun k hk => ?_⟩
  · rw [setHq_deliverNext]
  · rw [setHq_deliverPrev]
    split
    · rename_i hk
      rw [hk, Queues.deliverPrev, hy]
      rfl
    · rfl
  · rw [Queues.setHq_hqs, if_neg hk]

theorem rescheduled_modHq {f : HostQ → HostQ} (hq : q.modHq h f = some q') (hf : ∀ x, (f x).unlinked = x.unlinked) :
    Rescheduled q q' := by
  obtain ⟨x, hx, rfl⟩ := Option.map_eq_some_iff.mp hq
  exact rescheduled_setHq hx (hf x)

theorem setPrev_rescheduled {o v : Option Addr} (hq : q.setPrev o v = some q') : Rescheduled q q' := by
  cases o with
  | none =>
    cases hq
    exact .refl q
  | some n => exact rescheduled_modHq hq fun _ => rfl

/-- Whatever the links are, a removal changes nothing else. -/
theorem deliverPop_rescheduled (hq : q.deliverPop h = some q') : Rescheduled q q' := by
  simp only [Queues.deliverPop, Option.bind_eq_bind, Option.bind_eq_some_iff] at hq
  obtain ⟨x, -, q₁, h₁, x₁, -, q₂, h₂, h₃⟩ := hq
  have hfirst : Rescheduled q q₁ := by
    unfold Queues.popNext at h₁
    split at h₁
    · split at h₁ <;> cases h₁
      · exact ⟨rfl, fun _ => rfl⟩
      · exact .refl q
    · exact rescheduled_modHq h₁ fun _ => rfl
  exact (hfirst.trans (setPrev_rescheduled h₂)).trans (rescheduled_modHq h₃ fun _ => rfl)

/-- Whatever the links are, an insertion changes nothing else. -/
theorem deliverInsert_rescheduled (hq : q.deliverInsert h = some q') : Rescheduled q q' := by
  have hhead : ∀ (u : Queues) (o : Option Addr), Rescheduled u { u with deliverQ := o } := fun _ _ =>
    ⟨rfl, fun _ => rfl⟩
  simp only [Queues.deliverInsert, Option.bind_eq_bind, Option.bind_eq_some_iff] at hq
  obtain ⟨x, -, hq⟩ := hq
  split at hq
  · exact (hhead q _).trans (rescheduled_modHq hq fun _ => rfl)
  · obtain ⟨y, -, hq⟩ := Option.bind_eq_some_iff.mp hq
    split at hq
    · simp only [Option.bind_eq_some_iff, Option.some.injEq] at hq
      obtain ⟨q₁, h₁, q₂, h₂, rfl⟩ := hq
      exact ((rescheduled_modHq h₁ fun _ => rfl).trans (rescheduled_modHq h₂ fun _ => rfl)).trans (hhead q₂ _)
    · simp only [Option.bind_eq_some_iff] at hq
      obtain ⟨insert, -, z, -, q₁, h₁, q₂, h₂, q₃, h₃, h₄⟩ := hq
      exact (((rescheduled_modHq h₁ fun _ => rfl).trans (setPrev_rescheduled h₂)).trans
        (rescheduled_modHq h₃ fun _ => rfl)).trans (rescheduled_modHq h₄ fun _ => rfl)

/-- **What `hq_deliver_pop` leaves of the links**, when the links of the queue lead to other queues. -/
theorem deliverPop_relinks (hx : q.hqs h = some x)
    (hp : ∀ p, x.hqDeliverPrev = some p → p ≠ h ∧ (q.hqs p).isSome)
    (hn : ∀ n, x.hqDeliverNext = some n → n ≠ h ∧ (q.hqs n).isSome) :
    ∃ q', q.deliverPop h = some q' ∧ Relinks
      (fun k => if k = h then none else if x.hqDeliverPrev = some k then x.hqDeliverNext else q.deliverNext k)
      (fun k => if k = h then none else if x.hqDeliverNext = some k then x.hqDeliverPrev else q.deliverPrev k)
      (if x.hqDeliverPrev = none ∧ q.deliverQ = some h then x.hqDeliverNext else q.deliverQ) q q' := by
  have h₁ : ∃ q₁, q.popNext h x = some q₁ ∧
      Relinks (fun k => if x.hqDeliverPrev = some k then x.hqDeliverNext else q.deliverNext k) q.deliverPrev
        (if x.hqDeliverPrev = none ∧ q.deliverQ = some h then x.hqDeliverNext else q.deliverQ) q q₁ ∧
      q₁.hqs h = some x := by
    unfold Queues.popNext
    cases hprev : x.hqDeliverPrev with
    | none =>
      by_cases hq : q.deliverQ = some h
      · rw [if_pos hq]
        exact ⟨_, rfl, ⟨⟨rfl, fun _ => rfl⟩, by simp [hq], fun _ => rfl, fun _ => rfl⟩, hx⟩
      · rw [if_neg hq]
        exact ⟨_, rfl, ⟨.refl q, by simp [hq], fun _ => rfl, fun _ => rfl⟩, hx⟩
    | some p =>
      obtain ⟨hne, hsome⟩ := hp p hprev
      obtain ⟨q₁, heq, hr, hkeep⟩ := setNext_relinks (v := x.hqDeliverNext) hsome
      refine ⟨q₁, heq, ⟨hr.rescheduled, by simp [hr.head], fun k => ?_, hr.prev⟩, ?_⟩
      · simp only [hr.next, Option.some.injEq, eq_comm]
      · rw [hkeep h (Ne.symm hne), hx]
  obtain ⟨q₁, heq₁, hr₁, hx₁⟩ := h₁
  have hsome₁ : ∀ n, x.hqDeliverNext = some n → (q₁.hqs n).isSome := fun n hnext => by
    rw [hr₁.rescheduled.isSome]
    exact (hn n hnext).2
  obtain ⟨q₂, heq₂, hr₂, hkeep₂⟩ := setPrev_relinks (v := x.hqDeliverPrev) hsome₁
  have hx₂ : q₂.hqs h = some x := by
    rw [hkeep₂ h fun hn' => (hn h hn').1 rfl, hx₁]
  refine ⟨q₂.setHq h (some { x with hqDeliverNext := none, hqDeliverPrev := none }), ?_, ?_, ?_,
    fun k => ?_, fun k => ?_⟩
  · simp only [Queues.deliverPop, hx, heq₁, hx₁, heq₂, Option.bind_eq_bind, Option.bind_some]
    exact modHq_of_some hx₂
  · exact (hr₁.rescheduled.trans hr₂.rescheduled).trans (rescheduled_setHq hx₂ rfl)
  · show q₂.deliverQ = _
    rw [hr₂.head, hr₁.head]
  · rw [setHq_deliverNext, hr₂.next, hr₁.next]
  · rw [setHq_deliverPrev, hr₂.prev, hr₁.prev]

/-! ## Removal and insertion -/

theorem Schedule.next_eq (hs : Schedule q (l₁ ++ h :: l₂)) (hx : q.hqs h = some x) :
    x.hqDeliverNext = l₂.head? := by
  have hn := hs.linked.next_eq
  simpa [Queues.deliverNext, hx] using hn

theorem Schedule.prev_eq (hs : Schedule q (l₁ ++ h :: l₂)) (hx : q.hqs h = some x) :
    x.hqDeliverPrev = l₁.getLast? := by
  have hp := hs.linked.prev_eq
  simpa [Queues.deliverPrev, hx] using hp

theorem Schedule.next_none (hs : Schedule q l) (hk : k ∉ l) : q.deliverNext k = none := by
  unfold Queues.deliverNext
  cases hq : q.hqs k with
  | none => rfl
  | some y => exact (hs.apart k y hk hq).1

theorem Schedule.prev_none (hs : Schedule q l) (hk : k ∉ l) : q.deliverPrev k = none := by
  unfold Queues.deliverPrev
  cases hq : q.hqs k with
  | none => rfl
  | some y => exact (hs.apart k y hk hq).2

/-- The schedule behind a step, from its links. -/
theorem Relinks.schedule {next prev : Addr → Option Addr} {head : Option Addr}
    (hr : Relinks next prev head q q') (hl : Linked next prev head l) (hthere : ∀ k ∈ l, (q.hqs k).isSome)
    (hapart : ∀ k, k ∉ l → next k = none ∧ prev k = none)
    (hord : l.Pairwise fun h k => q.nextLaunch h ≤ q.nextLaunch k) : Schedule q' l := by
  refine ⟨?_, fun k hk => ?_, fun k y hk hy => ?_, ?_⟩
  · rw [hr.head]
    exact hl.congr (fun k _ => hr.next k) fun k _ => hr.prev k
  · rw [hr.rescheduled.isSome]
    exact hthere k hk
  · have hn := hr.next k
    have hp := hr.prev k
    rw [Queues.deliverNext, hy, (hapart k hk).1] at hn
    rw [Queues.deliverPrev, hy, (hapart k hk).2] at hp
    exact ⟨hn, hp⟩
  · rw [hr.rescheduled.nextLaunch]
    exact hord

/-- **Taking a queue off the schedule**, on which it need not be. -/
theorem deliverPop_spec (hs : Schedule q l) (hx : q.hqs h = some x) :
    ∃ q', q.deliverPop h = some q' ∧ Rescheduled q q' ∧ Schedule q' (l.erase h) := by
  by_cases hmem : h ∈ l
  · obtain ⟨l₁, l₂, rfl⟩ := List.append_of_mem hmem
    have hnext := hs.next_eq hx
    have hprev := hs.prev_eq hx
    obtain ⟨hh, hd⟩ := List.nodup_cons.mp (List.nodup_middle.mp hs.linked.nodup)
    have hin : ∀ k ∈ l₁ ++ l₂, k ≠ h ∧ (q.hqs k).isSome := fun k hk => by
      refine ⟨fun he => hh (he ▸ hk), hs.there k ?_⟩
      rcases List.mem_append.mp hk with hk | hk
      · exact List.mem_append_left _ hk
      · exact List.mem_append_right _ (List.mem_cons_of_mem _ hk)
    have hbefore : ∀ p, x.hqDeliverPrev = some p → p ∈ l₁ := fun p hp =>
      List.mem_of_getLast? (hprev.symm.trans hp)
    have hbehind : ∀ n, x.hqDeliverNext = some n → n ∈ l₂ := fun n hn =>
      List.mem_of_head? (hnext.symm.trans hn)
    obtain ⟨q', heq, hr⟩ := deliverPop_relinks hx
      (fun p hp => hin p (List.mem_append_left _ (hbefore p hp)))
      fun n hn => hin n (List.mem_append_right _ (hbehind n hn))
    have hnot : h ∉ l₁ := fun hm => hh (List.mem_append_left _ hm)
    rw [List.erase_append_right _ hnot, List.erase_cons_head]
    refine ⟨q', heq, hr.rescheduled, hr.schedule ?_ (fun k hk => (hin k hk).2) (fun k hk => ?_) ?_⟩
    · refine hs.linked.remove ?_ (fun k hk => ?_) fun k hk => ?_
      · rw [hprev, hnext, hs.linked.head]
        cases l₁ with
        | nil => simp
        | cons c t => simp [List.getLast?_cons]
      · rw [if_neg hk, hprev, hnext]
      · rw [if_neg hk, hprev, hnext]
    · by_cases hkh : k = h
      · simp [hkh]
      · have hk' : k ∉ l₁ ++ h :: l₂ := fun hm => by
          rcases List.mem_append.mp hm with hm | hm
          · exact hk (List.mem_append_left _ hm)
          · exact hk (List.mem_append_right _ ((List.mem_cons.mp hm).resolve_left hkh))
        rw [if_neg hkh, if_neg hkh, if_neg fun hp => hk (List.mem_append_left _ (hbefore k hp)),
          if_neg fun hn => hk (List.mem_append_right _ (hbehind k hn))]
        exact ⟨hs.next_none hk', hs.prev_none hk'⟩
    · exact hs.ordered.sublist (List.Sublist.append_left (List.sublist_cons_self h l₂) l₁)
  · obtain ⟨hnext, hprev⟩ := hs.apart h x hmem hx
    obtain ⟨q', heq, hr⟩ := deliverPop_relinks hx (fun p hp => by simp [hprev] at hp)
      fun n hn => by simp [hnext] at hn
    rw [List.erase_of_not_mem hmem]
    have hhead : q.deliverQ ≠ some h := fun hh => by
      rw [hs.linked.head] at hh
      exact hmem (List.mem_of_head? hh)
    refine ⟨q', heq, hr.rescheduled, hr.schedule ?_ hs.there (fun k hk => ?_) hs.ordered⟩
    · rw [if_neg fun hh => hhead hh.2]
      refine hs.linked.congr (fun k hk => ?_) fun k hk => ?_
      · have hkh : k ≠ h := fun he => hmem (he ▸ hk)
        simp [hkh, hprev]
      · have hkh : k ≠ h := fun he => hmem (he ▸ hk)
        simp [hkh, hnext]
    · simp only [hnext, hprev, reduceCtorEq, if_false]
      split
      · exact ⟨rfl, rfl⟩
      · exact ⟨hs.next_none hk, hs.prev_none hk⟩

/-- The walk stops behind every queue with a launch time up to that one. -/
theorem insertAfter_spec {launch : Int} (hs : Schedule q (l₁ ++ h :: l₂)) (hle : q.nextLaunch h ≤ launch)
    {n : Nat} (hn : l₂.length < n) : ∃ m₁ k m₂, l₁ ++ h :: l₂ = m₁ ++ k :: m₂ ∧
      q.insertAfter launch n h = some k ∧ q.nextLaunch k ≤ launch ∧
      ∀ j, m₂.head? = some j → launch < q.nextLaunch j := by
  induction l₂ generalizing l₁ h n with
  | nil =>
    obtain ⟨m, rfl⟩ := Nat.exists_eq_succ_of_ne_zero (Nat.ne_of_gt hn)
    obtain ⟨x, hx⟩ := Option.isSome_iff_exists.mp (hs.there h (by simp))
    refine ⟨l₁, h, [], rfl, ?_, hle, by simp⟩
    simp [Queues.insertAfter, hx, hs.next_eq hx]
  | cons c t ih =>
    obtain ⟨m, rfl⟩ := Nat.exists_eq_succ_of_ne_zero (Nat.ne_of_gt (lt_of_le_of_lt (Nat.zero_le _) hn))
    obtain ⟨x, hx⟩ := Option.isSome_iff_exists.mp (hs.there h (by simp))
    obtain ⟨y, hy⟩ := Option.isSome_iff_exists.mp (hs.there c (by simp))
    have hlaunch : q.nextLaunch c = y.hqNextLaunch := by simp [Queues.nextLaunch, hy]
    have hwalk : q.insertAfter launch (m + 1) h =
        if y.hqNextLaunch ≤ launch then q.insertAfter launch m c else some h := by
      simp [Queues.insertAfter, hx, hs.next_eq hx, hy]
    by_cases hc : y.hqNextLaunch ≤ launch
    · have hs' : Schedule q ((l₁ ++ [h]) ++ c :: t) := by simpa using hs
      obtain ⟨m₁, k, m₂, heq, hk, hkle, hrest⟩ := ih hs' (hlaunch ▸ hc) (Nat.lt_of_succ_lt_succ hn)
      refine ⟨m₁, k, m₂, by simpa using heq, ?_, hkle, hrest⟩
      rw [hwalk, if_pos hc, hk]
    · refine ⟨l₁, h, c :: t, rfl, ?_, hle, fun j hj => ?_⟩
      · rw [hwalk, if_neg hc]
      · cases hj
        rw [hlaunch]
        exact not_le.mp hc

/-- In an ordered list what stands before a queue launches no later. -/
theorem Schedule.le_of_mem_left (hs : Schedule q (l₁ ++ h :: l₂)) (hk : k ∈ l₁) :
    q.nextLaunch k ≤ q.nextLaunch h :=
  (List.pairwise_append.mp hs.ordered).2.2 k hk h List.mem_cons_self

theorem length_le_of_bound {l : List Addr} {n : Nat} (hd : l.Nodup) (hb : ∀ k ∈ l, k < n) : l.length ≤ n := by
  have hsub : l.Subperm (List.range n) := hd.subperm fun k hk => List.mem_range.mpr (hb k hk)
  simpa using hsub.length_le

/-- **Putting a queue on the schedule** from which it is absent. -/
theorem deliverInsert_spec (hs : Schedule q l) (hmem : h ∉ l) (hx : q.hqs h = some x)
    (hb : ∀ k y, q.hqs k = some y → k < q.fresh) : ∃ q' l₁ l₂, q.deliverInsert h = some q' ∧
      l = l₁ ++ l₂ ∧ Rescheduled q q' ∧ Schedule q' (l₁ ++ h :: l₂) := by
  obtain ⟨hnext, hprev⟩ := hs.apart h x hmem hx
  have hlaunch : q.nextLaunch h = x.hqNextLaunch := by simp [Queues.nextLaunch, hx]
  -- what is left to show once the place and the links are known
  have hplace : ∀ {q' : Queues} {next prev : Addr → Option Addr} {head : Option Addr} {l₁ l₂ : List Addr},
      l = l₁ ++ l₂ → Relinks next prev head q q' →
      head = (if l₁ = [] then some h else q.deliverQ) →
      (∀ k, next k = if k = h then l₂.head? else if l₁.getLast? = some k then some h else q.deliverNext k) →
      (∀ k, prev k = if k = h then l₁.getLast? else if l₂.head? = some k then some h else q.deliverPrev k) →
      (∀ k ∈ l₁, q.nextLaunch k ≤ x.hqNextLaunch) →
      (∀ k, l₂.head? = some k → x.hqNextLaunch ≤ q.nextLaunch k) →
      Schedule q' (l₁ ++ h :: l₂) := by
    intro q' next prev head l₁ l₂ hl hr hhead hn hp hbefore hbehind
    subst hl
    refine hr.schedule (hs.linked.insert hmem hhead hn hp) (fun k hk => ?_) (fun k hk => ?_) ?_
    · rcases List.mem_append.mp hk with hk | hk
      · exact hs.there k (List.mem_append_left _ hk)
      · rcases List.mem_cons.mp hk with rfl | hk
        · exact Option.isSome_of_eq_some hx
        · exact hs.there k (List.mem_append_right _ hk)
    · have hkh : k ≠ h := fun he => hk (he ▸ by simp)
      have hk' : k ∉ l₁ ++ l₂ := fun hm => hk (by
        rcases List.mem_append.mp hm with hm | hm
        · exact List.mem_append_left _ hm
        · exact List.mem_append_right _ (List.mem_cons_of_mem _ hm))
      rw [hn, hp, if_neg hkh, if_neg hkh,
        if_neg fun hl => hk' (List.mem_append_left _ (List.mem_of_getLast? hl)),
        if_neg fun hl : l₂.head? = some k => hk' (List.mem_append_right _ (List.mem_of_head? hl))]
      exact ⟨hs.next_none hk', hs.prev_none hk'⟩
    · exact pairwise_insert hlaunch hs.ordered hbefore hbehind
  unfold Queues.deliverInsert
  simp only [hx, Option.bind_eq_bind, Option.bind_some]
  cases hl : l with
  | nil =>
    have hq : q.deliverQ = none := by rw [hs.linked.head, hl]; rfl
    have hr : Relinks (fun k => if k = h then none else q.deliverNext k) q.deliverPrev (some h) q
        (({ q with deliverQ := some h } : Queues).setHq h (some { x with hqDeliverNext := none })) := by
      refine ⟨⟨rfl, (rescheduled_setHq (y := { x with hqDeliverNext := none }) hx rfl).hqs⟩, rfl,
        fun k => setHq_deliverNext, fun k => ?_⟩
      rw [setHq_deliverPrev]
      split
      · rename_i hk
        rw [hk, hprev, hs.prev_none hmem]
      · rfl
    rw [hq]
    refine ⟨_, [], [], modHq_of_some hx, rfl, hr.rescheduled, hplace hl hr ?_ ?_ ?_ ?_ ?_⟩
    · rfl
    · intro k
      rfl
    · intro k
      split
      · rename_i hk
        rw [hk, hs.prev_none hmem]
        rfl
      · rfl
    · intro k hk
      cases hk
    · intro k hk
      cases hk
  | cons f t =>
    have hq : q.deliverQ = some f := by rw [hs.linked.head, hl]; rfl
    have hin : f ∈ l := by simp [hl]
    have hfh : f ≠ h := fun he => hmem (he ▸ hin)
    obtain ⟨y, hy⟩ := Option.isSome_iff_exists.mp (hs.there f hin)
    have hlaunchf : q.nextLaunch f = y.hqNextLaunch := by simp [Queues.nextLaunch, hy]
    have hthere : ∀ {u : Queues}, Rescheduled q u → ∀ k, k ∈ l ∨ k = h → (u.hqs k).isSome := by
      intro u hu k hk
      rw [hu.isSome]
      rcases hk with hk | rfl
      · exact hs.there k hk
      · exact Option.isSome_of_eq_some hx
    rw [hq]
    simp only [hy, Option.bind_some]
    by_cases hge : y.hqNextLaunch ≥ x.hqNextLaunch
    · rw [if_pos hge]
      obtain ⟨q₁, heq₁, hr₁, -⟩ := setNext_relinks (v := some f) (Option.isSome_of_eq_some hx)
      obtain ⟨q₂, heq₂, hr₂, -⟩ := setPrev_relinks (q := q₁) (o := some f) (v := some h) fun n hn =>
        hthere hr₁.rescheduled n (.inl (Option.some.inj hn ▸ hin))
      have hr : Relinks (fun k => if k = h then some f else q.deliverNext k)
          (fun k => if some f = some k then some h else q.deliverPrev k) (some h) q
          { q₂ with deliverQ := some h } := by
        refine ⟨(hr₁.rescheduled.trans hr₂.rescheduled).trans ⟨rfl, fun _ => rfl⟩, rfl, fun k => ?_,
          fun k => ?_⟩
        · exact (hr₂.next k).trans (hr₁.next k)
        · refine (hr₂.prev k).trans ?_
          rw [hr₁.prev k]
      refine ⟨{ q₂ with deliverQ := some h }, [], f :: t, ?_, rfl, hr.rescheduled,
        hplace hl hr ?_ ?_ ?_ ?_ ?_⟩
      · rw [heq₁, Option.bind_some, show q₁.modHq f _ = some q₂ from heq₂, Option.bind_some]
      · rfl
      · intro k
        rfl
      · intro k
        by_cases hk : k = h
        · rw [if_pos hk, hk, if_neg fun hn => hfh (Option.some.inj hn), hs.prev_none hmem]
          rfl
        · rw [if_neg hk]
          rfl
      · intro k hk
        cases hk
      · intro k hk
        cases hk
        rw [hlaunchf]
        exact hge
    · rw [if_neg hge]
      have hlt : q.nextLaunch f ≤ x.hqNextLaunch := by rw [hlaunchf]; omega
      have hlen : t.length < q.fresh := by
        have hle := length_le_of_bound hs.linked.nodup fun k hk => by
          obtain ⟨z, hz⟩ := Option.isSome_iff_exists.mp (hs.there k hk)
          exact hb k z hz
        rw [hl, List.length_cons] at hle
        exact hle
      have hs' : Schedule q ([] ++ f :: t) := hl ▸ hs
      obtain ⟨m₁, c, m₂, heq, hwalk, hcle, hrest⟩ := insertAfter_spec hs' hlt hlen
      have hl' : l = (m₁ ++ [c]) ++ m₂ := by rw [hl]; simpa using heq
      have hsc : Schedule q (m₁ ++ c :: m₂) := by
        rw [← List.singleton_append, ← List.append_assoc, ← hl']
        exact hs
      have hcin : c ∈ l := by simp [hl']
      have hch : c ≠ h := fun he => hmem (he ▸ hcin)
      obtain ⟨z, hz⟩ := Option.isSome_iff_exists.mp (hs.there c hcin)
      have hznext := hsc.next_eq hz
      obtain ⟨q₁, heq₁, hr₁, -⟩ := setNext_relinks (v := z.hqDeliverNext) (Option.isSome_of_eq_some hx)
      obtain ⟨q₂, heq₂, hr₂, -⟩ := setPrev_relinks (q := q₁) (o := z.hqDeliverNext) (v := some h) fun n hn =>
        hthere hr₁.rescheduled n (.inl (by
          rw [hznext] at hn
          simp [hl', List.mem_of_head? hn]))
      have hr₁₂ := hr₁.rescheduled.trans hr₂.rescheduled
      obtain ⟨q₃, heq₃, hr₃, -⟩ := setNext_relinks (v := some h) (hthere hr₁₂ c (.inl hcin))
      have hr₁₃ := hr₁₂.trans hr₃.rescheduled
      obtain ⟨q₄, heq₄, hr₄, -⟩ := setPrev_relinks (q := q₃) (o := some h) (v := some c) fun n hn =>
        hthere hr₁₃ n (.inr (Option.some.inj hn).symm)
      have hr : Relinks
          (fun k => if k = c then some h else if k = h then m₂.head? else q.deliverNext k)
          (fun k => if some h = some k then some c else if m₂.head? = some k then some h
            else q.deliverPrev k) (some f) q q₄ := by
        refine ⟨hr₁₃.trans hr₄.rescheduled, ?_, fun k => ?_, fun k => ?_⟩
        · rw [hr₄.head, hr₃.head, hr₂.head, hr₁.head, hq]
        · rw [hr₄.next k, hr₃.next k, hr₂.next k, hr₁.next k, hznext]
        · rw [hr₄.prev k, hr₃.prev k, hr₂.prev k, hr₁.prev k, hznext]
      refine ⟨q₄, m₁ ++ [c], m₂, ?_, by rw [← hl, hl'], hr.rescheduled, hplace hl' hr ?_ ?_ ?_ ?_ ?_⟩
      · simp only [hwalk, hz, heq₁, heq₂, heq₃, Option.bind_some]
        exact heq₄
      · rw [if_neg (by simp), hq]
      · intro k
        by_cases hkh : k = h
        · rw [if_pos hkh, if_neg fun hkc => hch (hkc.symm.trans hkh), if_pos hkh]
        · rw [if_neg hkh, if_neg hkh]
          simp [eq_comm]
      · intro k
        by_cases hkh : k = h
        · simp [hkh]
        · rw [if_neg hkh, if_neg fun hn => hkh (Option.some.inj hn).symm]
      · intro k hk
        rcases List.mem_append.mp hk with hk | hk
        · exact le_trans (hsc.le_of_mem_left hk) hcle
        · exact List.mem_singleton.mp hk ▸ hcle
      · intro k hk
        exact le_of_lt (hrest k hk)

end Links

end Simta
