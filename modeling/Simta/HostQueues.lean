import Simta.Queue

/-!
# What holds of a host queue

The two counters, the membership and the order of every host queue, over runs of the queue functions.

* `HostQueue` — the representation invariant of one host queue;
* `enqueue_sound`, `dequeue_sound`, `pruneMessages_sound`, `createNullQueues_sound` — one lemma a step;
* `QueueCall.Keeps` — the calls that do not write a key of a queued envelope;
* `queueRun_hostQueues` — over every run of such calls every host queue stays well formed;
* `release_miscounts` — a release of a queued envelope leaves its counter wrong.
-/

set_option autoImplicit false

namespace Simta

open QueueProg

/-! ## The keys of an envelope -/

namespace Queues

/-- `e_hq`, `e_etime` and whether `e_jail` is `ENV_JAIL_PRISONER`. -/
def hqOf (q : Queues) (a : Addr) : Option Addr := (q.envs a).bind fun e => e.eHq
def etime (q : Queues) (a : Addr) : Int := ((q.envs a).map fun e => e.eEtime).getD 0
def prisoner (q : Queues) (a : Addr) : Bool := (q.envs a).any fun e => e.eJail = envJailPrisoner

@[simp] theorem setEnv_envs (q : Queues) (a b : Addr) (o : Option QEnv) :
    (q.setEnv a o).envs b = if b = a then o else q.envs b := rfl
@[simp] theorem setEnv_hqs (q : Queues) (a : Addr) (o : Option QEnv) : (q.setEnv a o).hqs = q.hqs := rfl
@[simp] theorem setEnv_fresh (q : Queues) (a : Addr) (o : Option QEnv) :
    (q.setEnv a o).fresh = q.fresh := rfl
@[simp] theorem setHq_hqs (q : Queues) (h b : Addr) (o : Option HostQ) :
    (q.setHq h o).hqs b = if b = h then o else q.hqs b := rfl
@[simp] theorem setHq_envs (q : Queues) (h : Addr) (o : Option HostQ) : (q.setHq h o).envs = q.envs := rfl
@[simp] theorem setHq_fresh (q : Queues) (h : Addr) (o : Option HostQ) : (q.setHq h o).fresh = q.fresh := rfl
@[simp] theorem freeEnv_envs (q : Queues) (a b : Addr) :
    (q.freeEnv a).envs b = if b = a then none else q.envs b := rfl
@[simp] theorem freeEnv_hqs (q : Queues) (a : Addr) : (q.freeEnv a).hqs = q.hqs := rfl
@[simp] theorem freeEnv_fresh (q : Queues) (a : Addr) : (q.freeEnv a).fresh = q.fresh := rfl

end Queues

/-- **What holds of the host queue `x` at `h`**, when the envelopes in `pending` are still to be put back
    into their queue: the membership and its count, and when no key is written behind its back (`keyed`)
    the count of prisoners and the order. -/
structure HostQueueBut (keyed : Prop) (pending : List Addr) (q : Queues) (h : Addr) (x : HostQ) : Prop where
  entries : x.hqEntries = x.hqEnvHead.length
  jail : keyed → x.hqJailEnvs = x.hqEnvHead.countP q.prisoner
  mem_iff : ∀ a, a ∈ x.hqEnvHead ↔ q.hqOf a = some h ∧ a ∉ pending
  nodup : x.hqEnvHead.Nodup
  ordered : keyed → x.hqEnvHead.Pairwise fun a b => q.etime a ≤ q.etime b

/-- **What holds of the host queue `x` at `h`**: `hq_entries` is the length of its list, `hq_jail_envs`
    the number of its prisoners; its members are the envelopes whose `e_hq` it is, each once, by time. -/
structure HostQueue (q : Queues) (h : Addr) (x : HostQ) : Prop where
  entries : x.hqEntries = x.hqEnvHead.length
  jail : x.hqJailEnvs = x.hqEnvHead.countP q.prisoner
  mem_iff : ∀ a, a ∈ x.hqEnvHead ↔ q.hqOf a = some h
  nodup : x.hqEnvHead.Nodup
  ordered : x.hqEnvHead.Pairwise fun a b => q.etime a ≤ q.etime b

/-- The heap with its host queues. -/
structure SoundBut (keyed : Prop) (pending : List Addr) (q : Queues) : Prop where
  queue : ∀ h x, q.hqs h = some x → HostQueueBut keyed pending q h x
  linked : ∀ a h, q.hqOf a = some h → (q.hqs h).isSome
  envBound : ∀ a e, q.envs a = some e → a < q.fresh
  hqBound : ∀ h x, q.hqs h = some x → h < q.fresh

abbrev Sound (keyed : Prop) (q : Queues) : Prop := SoundBut keyed [] q

theorem HostQueueBut.hostQueue {q : Queues} {h : Addr} {x : HostQ} (hx : HostQueueBut True [] q h x) :
    HostQueue q h x :=
  ⟨hx.entries, hx.jail trivial, fun a => (hx.mem_iff a).trans (by simp), hx.nodup, hx.ordered trivial⟩

theorem HostQueueBut.mem_iff' {keyed : Prop} {q : Queues} {h : Addr} {x : HostQ}
    (hx : HostQueueBut keyed [] q h x) (a : Addr) : a ∈ x.hqEnvHead ↔ q.hqOf a = some h :=
  (hx.mem_iff a).trans (by simp)

section Steps

variable {keyed : Prop} {conf : QueueConf} {q q' : Queues} {a h : Addr} {e : QEnv} {x : HostQ}
variable {pending : List Addr}

/-! ## Steps that do not touch the queues -/

/-- What does not touch the queues: the host queues stay, and a queued envelope keeps its keys. -/
structure Elsewhere (keyed : Prop) (q q' : Queues) : Prop where
  hqs : q'.hqs = q.hqs
  fresh : q.fresh ≤ q'.fresh
  envBound : ∀ a, (q'.envs a).isSome → a < q'.fresh ∨ (q.envs a).isSome
  hqOf : ∀ a, q'.hqOf a = q.hqOf a
  keys : keyed → ∀ a, q.hqOf a ≠ none → q'.etime a = q.etime a ∧ q'.prisoner a = q.prisoner a

theorem HostQueueBut.of_keys (hx : HostQueueBut keyed pending q h x) (hhq : ∀ a, q'.hqOf a = q.hqOf a)
    (hkeys : keyed → ∀ a, q.hqOf a ≠ none → q'.etime a = q.etime a ∧ q'.prisoner a = q.prisoner a) :
    HostQueueBut keyed pending q' h x := by
  have hmem : ∀ a ∈ x.hqEnvHead, q.hqOf a ≠ none := fun a ha => by
    rw [((hx.mem_iff a).mp ha).1]
    simp
  refine ⟨hx.entries, fun hk => ?_, fun a => by rw [hhq]; exact hx.mem_iff a, hx.nodup, fun hk => ?_⟩
  · rw [hx.jail hk]
    congr 1
    exact List.countP_congr fun a ha => by rw [(hkeys hk a (hmem a ha)).2]
  · refine (hx.ordered hk).imp_of_mem ?_
    intro a b ha hb hab
    rw [(hkeys hk a (hmem a ha)).1, (hkeys hk b (hmem b hb)).1]
    exact hab

theorem Elsewhere.sound (he : Elsewhere keyed q q') (hs : SoundBut keyed pending q) : SoundBut keyed pending q' := by
  refine ⟨fun h x hx => ?_, fun a h ha => ?_, fun a e ha => ?_, fun h x hx => ?_⟩
  · rw [he.hqs] at hx
    exact (hs.queue h x hx).of_keys he.hqOf he.keys
  · rw [he.hqs]
    exact hs.linked a h (he.hqOf a ▸ ha)
  · rcases he.envBound a (Option.isSome_of_eq_some ha) with h | h
    · exact h
    · obtain ⟨e', he'⟩ := Option.isSome_iff_exists.mp h
      exact lt_of_lt_of_le (hs.envBound a e' he') he.fresh
  · rw [he.hqs] at hx
    exact lt_of_lt_of_le (hs.hqBound h x hx) he.fresh

theorem Elsewhere.refl (q : Queues) : Elsewhere keyed q q :=
  ⟨rfl, le_refl _, fun _ h => .inr h, fun _ => rfl, fun _ _ _ => ⟨rfl, rfl⟩⟩

theorem Elsewhere.trans {u : Queues} (h : Elsewhere keyed q q') (h' : Elsewhere keyed q' u) : Elsewhere keyed q u := by
  refine ⟨h'.hqs.trans h.hqs, le_trans h.fresh h'.fresh, fun a ha => ?_,
    fun a => (h'.hqOf a).trans (h.hqOf a), fun hk a ha => ?_⟩
  · rcases h'.envBound a ha with hlt | ha
    · exact .inl hlt
    · rcases h.envBound a ha with hlt | ha
      · exact .inl (lt_of_lt_of_le hlt h'.fresh)
      · exact .inr ha
  · have hk' := h'.keys hk a (by rw [h.hqOf]; exact ha)
    exact ⟨hk'.1.trans (h.keys hk a ha).1, hk'.2.trans (h.keys hk a ha).2⟩

/-- The globals and the lists may change. -/
theorem elsewhere_of_heap (henvs : q'.envs = q.envs) (hhqs : q'.hqs = q.hqs) (hfresh : q'.fresh = q.fresh) :
    Elsewhere keyed q q' := by
  refine ⟨hhqs, hfresh ▸ le_refl _, fun a ha => .inr (henvs ▸ ha), fun a => ?_, fun _ a _ => ⟨?_, ?_⟩⟩
  · simp only [Queues.hqOf, henvs]
  · simp only [Queues.etime, henvs]
  · simp only [Queues.prisoner, henvs]

theorem SoundBut.of_heap (hs : SoundBut keyed pending q) (henvs : q'.envs = q.envs) (hhqs : q'.hqs = q.hqs)
    (hfresh : q'.fresh = q.fresh) : SoundBut keyed pending q' :=
  (elsewhere_of_heap henvs hhqs hfresh).sound hs

/-- An envelope may be written, freed or made: where the keys count one that is in no queue. -/
theorem elsewhere_setEnv {o : Option QEnv} (ha : keyed → q.hqOf a = none)
    (ho : o.bind (fun e => e.eHq) = q.hqOf a) (hb : o.isSome → a < q.fresh ∨ (q.envs a).isSome) :
    Elsewhere keyed q (q.setEnv a o) := by
  refine ⟨rfl, le_refl _, fun b h => ?_, fun b => ?_, fun hk b hne => ?_⟩
  · simp only [Queues.setEnv_envs] at h
    split at h
    · rename_i hba
      exact hba ▸ hb h
    · exact .inr h
  · by_cases hba : b = a
    · subst hba
      rw [← ho]
      simp [Queues.hqOf]
    · simp [Queues.hqOf, hba]
  · have hba : b ≠ a := fun h => hne (h ▸ ha hk)
    simp [Queues.etime, Queues.prisoner, hba]

theorem elsewhere_freeEnv (ha : q.hqOf a = none) : Elsewhere keyed q (q.freeEnv a) :=
  (elsewhere_setEnv (o := none) (fun _ => ha) ha.symm (by simp)).trans (elsewhere_of_heap rfl rfl rfl)

/-! ## Insertion -/

theorem insertByTime_spec {envs : Addr → Option QEnv} {t : Int} {l l' : List Addr}
    (hl : insertByTime envs t a l = some l') :
    ∃ l₁ l₂, l = l₁ ++ l₂ ∧ l' = l₁ ++ a :: l₂ ∧
      (∀ b ∈ l₁, ((envs b).map fun e => e.eEtime).getD 0 ≤ t) ∧
      ∀ b, l₂.head? = some b → t < ((envs b).map fun e => e.eEtime).getD 0 := by
  induction l generalizing l' with
  | nil =>
    cases hl
    exact ⟨[], [], rfl, rfl, by simp, by simp⟩
  | cons b rest ih =>
    simp only [insertByTime, Option.bind_eq_bind, Option.bind_eq_some_iff] at hl
    obtain ⟨e, he, hl⟩ := hl
    split at hl
    · rename_i hlt
      cases hl
      refine ⟨[], b :: rest, rfl, rfl, by simp, fun c hc => ?_⟩
      cases hc
      rw [he]
      exact hlt
    · rename_i hle
      obtain ⟨m, hm, rfl⟩ := Option.map_eq_some_iff.mp hl
      obtain ⟨l₁, l₂, rfl, rfl, hbefore, hbehind⟩ := ih hm
      refine ⟨b :: l₁, l₂, rfl, rfl, fun c hc => ?_, hbehind⟩
      rcases List.mem_cons.mp hc with rfl | hc
      · rw [he]
        exact not_lt.mp hle
      · exact hbefore c hc

/-- A list in order stays in order when a time is put in its place. -/
theorem pairwise_insert {l₁ l₂ : List Addr} {time : Addr → Int} {t : Int} (ha : time a = t)
    (hl : (l₁ ++ l₂).Pairwise fun b c => time b ≤ time c) (hbefore : ∀ b ∈ l₁, time b ≤ t)
    (hbehind : ∀ b, l₂.head? = some b → t ≤ time b) :
    (l₁ ++ a :: l₂).Pairwise fun b c => time b ≤ time c := by
  obtain ⟨h₁, h₂, h₁₂⟩ := List.pairwise_append.mp hl
  have hall : ∀ b ∈ l₂, t ≤ time b := fun b hb => by
    cases l₂ with
    | nil => cases hb
    | cons c rest =>
      have hc := hbehind c rfl
      rcases List.mem_cons.mp hb with rfl | hb
      · exact hc
      · exact le_trans hc (List.rel_of_pairwise_cons h₂ hb)
  refine List.pairwise_append.mpr ⟨h₁, List.pairwise_cons.mpr ⟨fun b hb => ha ▸ hall b hb, h₂⟩, ?_⟩
  intro b hb c hc
  rcases List.mem_cons.mp hc with rfl | hc
  · exact ha ▸ hbefore b hb
  · exact h₁₂ b hb c hc

theorem enqueue_eq_some (hq : q.enqueue a h = some q') : ∃ e x l, q.envs a = some e ∧
    q.hqs h = some x ∧ insertByTime q.envs e.eEtime a x.hqEnvHead = some l ∧
    q' = (q.setHq h (some { x with
      hqEnvHead := l
      hqEntries := x.hqEntries + 1
      hqJailEnvs := if e.eJail = envJailPrisoner then x.hqJailEnvs + 1 else x.hqJailEnvs })).setEnv a
        (some { e with eHq := some h }) := by
  simp only [Queues.enqueue, Option.bind_eq_bind, Option.bind_eq_some_iff] at hq
  obtain ⟨e, he, x, hx, l, hl, hq⟩ := hq
  exact ⟨e, x, l, he, hx, hl, (Option.some.inj hq).symm⟩

theorem dequeue_eq_some (hq : q.dequeue a = some q') : ∃ e h x, q.envs a = some e ∧
    e.eHq = some h ∧ q.hqs h = some x ∧ a ∈ x.hqEnvHead ∧
    q' = (q.setHq h (some { x with
      hqEnvHead := x.hqEnvHead.erase a
      hqEntries := x.hqEntries - 1
      hqJailEnvs := if e.eJail = envJailPrisoner then x.hqJailEnvs - 1 else x.hqJailEnvs })).setEnv a
        (some { e with eHq := none }) := by
  simp only [Queues.dequeue, Option.bind_eq_bind, Option.bind_eq_some_iff] at hq
  obtain ⟨e, he, h, hh, x, hx, hq⟩ := hq
  split at hq
  · exact ⟨e, h, x, he, hh, hx, ‹_›, (Option.some.inj hq).symm⟩
  · cases hq

/-- The keys behind a change of `e_hq` alone. -/
theorem keys_setHqOf {o : Option Addr} {y : Option HostQ} (he : q.envs a = some e) :
    let q' := (q.setHq h y).setEnv a (some { e with eHq := o })
    (∀ b, q'.hqOf b = if b = a then o else q.hqOf b) ∧ q'.etime = q.etime ∧ q'.prisoner = q.prisoner := by
  refine ⟨fun b => ?_, funext fun b => ?_, funext fun b => ?_⟩
  · by_cases hb : b = a <;> simp [Queues.hqOf, hb]
  · by_cases hb : b = a <;> simp [Queues.etime, hb, he]
  · by_cases hb : b = a <;> simp [Queues.prisoner, hb, he]

/-- **One queue is edited**: the envelope `a` joins or leaves the queue `h`, and no other. -/
theorem SoundBut.edit (hs : SoundBut keyed pending q) (he : q.envs a = some e) (hx : q.hqs h = some x) {y : HostQ}
    {o : Option Addr} (ho : ∀ k, o = some k → k = h) (ha : ∀ k, q.hqOf a = some k → k = h)
    (hy : HostQueueBut keyed pending ((q.setHq h (some y)).setEnv a (some { e with eHq := o })) h y) :
    SoundBut keyed pending ((q.setHq h (some y)).setEnv a (some { e with eHq := o })) := by
  obtain ⟨hhq, htime, hjail⟩ := keys_setHqOf (q := q) (h := h) (o := o) (y := some y) he
  refine ⟨fun k z hz => ?_, fun b k hb => ?_, fun b e' hb => ?_, fun k z hz => ?_⟩
  · simp only [Queues.setEnv_hqs, Queues.setHq_hqs] at hz
    split at hz
    · rename_i hk
      cases hz
      exact hk ▸ hy
    · rename_i hk
      have hz' := hs.queue k z hz
      refine ⟨hz'.entries, ?_, fun b => ?_, hz'.nodup, ?_⟩
      · rw [hjail]
        exact hz'.jail
      · rw [hz'.mem_iff b, hhq]
        split
        · rename_i hb
          subst hb
          constructor <;> intro hmem
          · exact absurd (ha k hmem.1) hk
          · exact absurd (ho k hmem.1) hk
        · rfl
      · rw [htime]
        exact hz'.ordered
  · rw [hhq] at hb
    simp only [Queues.setEnv_hqs, Queues.setHq_hqs]
    split
    · rfl
    · rename_i hk
      split at hb
      · exact absurd (ho k hb) hk
      · exact hs.linked b k hb
  · simp only [Queues.setEnv_envs, Queues.setHq_envs] at hb
    split at hb
    · rename_i hba
      exact hba ▸ hs.envBound a e he
    · exact hs.envBound b e' hb
  · simp only [Queues.setEnv_hqs, Queues.setHq_hqs] at hz
    split at hz
    · rename_i hk
      exact hk ▸ hs.hqBound h x hx
    · exact hs.hqBound k z hz

/-- **Queueing an envelope** that is in no queue. -/
theorem enqueue_sound (hs : SoundBut keyed pending q) (ha : q.hqOf a = none) (hp : a ∉ pending)
    (hq : q.enqueue a h = some q') : SoundBut keyed pending q' := by
  obtain ⟨e, x, l, he, hx, hl, rfl⟩ := enqueue_eq_some hq
  refine hs.edit he hx (fun k hk => (Option.some.inj hk).symm) (fun k hk => by simp [ha] at hk) ?_
  obtain ⟨hhq, htime, hjail⟩ := keys_setHqOf (o := some h) (y := some { x with
    hqEnvHead := l
    hqEntries := x.hqEntries + 1
    hqJailEnvs := if e.eJail = envJailPrisoner then x.hqJailEnvs + 1 else x.hqJailEnvs }) (h := h) he
  obtain ⟨l₁, l₂, hsplit, rfl, hbefore, hbehind⟩ := insertByTime_spec hl
  have hold := hs.queue h x hx
  have hnot : a ∉ l₁ ++ l₂ := fun hm => by
    rw [← hsplit] at hm
    simp [((hold.mem_iff a).mp hm).1] at ha
  have hnd := hold.nodup
  have hord := hold.ordered
  rw [hsplit] at hnd hord
  refine ⟨?_, ?_, fun b => ?_, List.nodup_middle.mpr (List.nodup_cons.mpr ⟨hnot, hnd⟩), ?_⟩
  · show x.hqEntries + 1 = _
    rw [hold.entries, hsplit]
    simp only [List.length_append, List.length_cons]
    omega
  · intro hk
    rw [hjail]
    have hja : q.prisoner a = decide (e.eJail = envJailPrisoner) := by simp [Queues.prisoner, he]
    have hcount : (l₁ ++ a :: l₂).countP q.prisoner =
        x.hqEnvHead.countP q.prisoner + if q.prisoner a then 1 else 0 := by
      rw [hsplit]
      simp only [List.countP_append, List.countP_cons]
      omega
    have hold' := hold.jail hk
    by_cases hj : e.eJail = envJailPrisoner <;> simp [hcount, hja, hj, hold']
  · rw [hhq]
    have hmem := hold.mem_iff b
    rw [hsplit] at hmem
    by_cases hb : b = a
    · subst hb
      simp [hp]
    · rw [if_neg hb, ← hmem]
      simp [hb]
  · intro hk
    rw [htime]
    have htimea : q.etime a = e.eEtime := by simp [Queues.etime, he]
    exact pairwise_insert htimea (hord hk) hbefore fun b hb => le_of_lt (hbehind b hb)

/-! ## Removal -/

/-- **Taking an envelope out of its queue.** -/
theorem dequeue_sound (hs : SoundBut keyed pending q) (hq : q.dequeue a = some q') : SoundBut keyed pending q' := by
  obtain ⟨e, h, x, he, hh, hx, hmem, rfl⟩ := dequeue_eq_some hq
  have hqa : q.hqOf a = some h := by simp [Queues.hqOf, he, hh]
  refine hs.edit he hx (fun k hk => by simp at hk) (fun k hk => ?_) ?_
  · rw [hqa] at hk
    exact (Option.some.inj hk).symm
  obtain ⟨hhq, htime, hjail⟩ := keys_setHqOf (o := none) (y := some { x with
    hqEnvHead := x.hqEnvHead.erase a
    hqEntries := x.hqEntries - 1
    hqJailEnvs := if e.eJail = envJailPrisoner then x.hqJailEnvs - 1 else x.hqJailEnvs }) (h := h) he
  have hold := hs.queue h x hx
  refine ⟨?_, ?_, fun b => ?_, hold.nodup.erase a, ?_⟩
  · have hlen := List.length_pos_of_mem hmem
    show x.hqEntries - 1 = _
    rw [hold.entries, List.length_erase_of_mem hmem]
    omega
  · intro hk
    rw [hjail]
    have hja : q.prisoner a = decide (e.eJail = envJailPrisoner) := by simp [Queues.prisoner, he]
    have hperm := (List.perm_cons_erase hmem).countP_eq q.prisoner
    rw [List.countP_cons] at hperm
    have hold' := hold.jail hk
    by_cases hj : e.eJail = envJailPrisoner <;> simp [hja, hj] at hperm ⊢ <;> omega
  · rw [hhq, hold.nodup.mem_erase_iff, hold.mem_iff b]
    by_cases hb : b = a
    · simp [hb]
    · simp [hb]
  · intro hk
    rw [htime]
    exact (hold.ordered hk).sublist List.erase_sublist

/-! ## New queues -/

/-- The queues that `host_q_create_or_lookup` may have made. -/
inductive HostsGrown (conf : QueueConf) (q : Queues) : Queues → Prop
  | refl : HostsGrown conf q q
  | unexpanded {u : Queues} (h : HostsGrown conf q u) (hu : u.unexpandedQ = none) :
      HostsGrown conf q { u.newHq { hqHostname := sUnexpanded, hqStatus := .null } with
        unexpandedQ := some u.fresh }
  | punt {u : Queues} (h : HostsGrown conf q u) (puntHost : Text) :
      HostsGrown conf q { u.newHq { hqHostname := puntHost, hqStatus := .punt } with
        puntQ := some u.fresh }
  | host {u : Queues} (h : HostsGrown conf q u) (hostname : Text) :
      HostsGrown conf q { u.newHq (hostQNew conf hostname) with hostQ := u.fresh :: u.hostQ }

theorem newHq_sound (hs : SoundBut keyed pending q) (hl : x.hqEnvHead = []) (hn : x.hqEntries = 0)
    (hj : x.hqJailEnvs = 0) : SoundBut keyed pending (q.newHq x) := by
  have hnew : ∀ a, q.hqOf a ≠ some q.fresh := fun a ha => by
    obtain ⟨y, hy⟩ := Option.isSome_iff_exists.mp (hs.linked a _ ha)
    exact lt_irrefl _ (hs.hqBound _ y hy)
  refine ⟨fun k y hy => ?_, fun a k ha => ?_, fun a e ha => Nat.lt_succ_of_lt (hs.envBound a e ha),
    fun k y hy => ?_⟩
  · simp only [Queues.newHq, Queues.setHq_hqs] at hy
    split at hy
    · rename_i hk
      cases hy
      refine ⟨by rw [hn, hl]; rfl, fun _ => by rw [hj, hl]; rfl, fun a => ?_,
        by rw [hl]; exact List.nodup_nil, fun _ => by rw [hl]; exact List.Pairwise.nil⟩
      rw [hl, hk]
      exact iff_of_false (by simp) fun h => hnew a h.1
    · exact (hs.queue k y hy).of_keys (fun _ => rfl) fun _ _ _ => ⟨rfl, rfl⟩
  · have hk := hs.linked a k ha
    simp only [Queues.newHq, Queues.setHq_hqs]
    split
    · rfl
    · exact hk
  · simp only [Queues.newHq, Queues.setHq_hqs] at hy ⊢
    split at hy
    · rename_i hk
      exact hk ▸ Nat.lt_succ_self _
    · exact Nat.lt_succ_of_lt (hs.hqBound k y hy)

theorem HostsGrown.sound (hg : HostsGrown conf q q') (hs : SoundBut keyed pending q) : SoundBut keyed pending q' := by
  induction hg with
  | refl => exact hs
  | unexpanded h hu ih =>
    exact (newHq_sound (x := { hqHostname := sUnexpanded, hqStatus := .null }) ih rfl rfl rfl).of_heap
      rfl rfl rfl
  | punt h puntHost ih =>
    exact (newHq_sound (x := { hqHostname := puntHost, hqStatus := .punt }) ih rfl rfl rfl).of_heap
      rfl rfl rfl
  | host h hostname ih =>
    exact (newHq_sound (x := hostQNew conf hostname) ih rfl rfl rfl).of_heap rfl rfl rfl

theorem HostsGrown.envs (hg : HostsGrown conf q q') : q'.envs = q.envs := by
  induction hg with
  | refl => rfl
  | unexpanded h hu ih => exact ih
  | punt h puntHost ih => exact ih
  | host h hostname ih => exact ih

/-! ## Pruning -/

/-- An envelope without its links in the ring. -/
def QEnv.unlinked (e : QEnv) : QEnv := { e with eListNext := none, eListPrev := none }

/-- Only links of the ring have changed. -/
structure Relinked (q q' : Queues) : Prop where
  rest : q' = { q with envs := q'.envs, envQueue := q'.envQueue }
  envs : ∀ b, (q'.envs b).map QEnv.unlinked = (q.envs b).map QEnv.unlinked

theorem Relinked.refl (q : Queues) : Relinked q q := ⟨rfl, fun _ => rfl⟩

theorem Relinked.trans {u : Queues} (h : Relinked q q') (h' : Relinked q' u) : Relinked q u := by
  refine ⟨?_, fun b => (h'.envs b).trans (h.envs b)⟩
  rw [h'.rest, h.rest]

theorem relinked_modEnv {f : QEnv → QEnv} (hq : q.modEnv a f = some q')
    (hf : ∀ e, (f e).unlinked = e.unlinked) : Relinked q q' := by
  obtain ⟨e, he, rfl⟩ := Option.map_eq_some_iff.mp hq
  refine ⟨rfl, fun b => ?_⟩
  simp only [Queues.setEnv_envs]
  split
  · rename_i hb
    rw [hb, he, Option.map_some, Option.map_some, hf]
  · rfl

theorem ringRemove_relinked (hq : q.ringRemove a = some q') : Relinked q q' := by
  simp only [Queues.ringRemove, Option.bind_eq_bind, Option.bind_eq_some_iff] at hq
  obtain ⟨e, he, n, hn, q₁, h₁, e', he', p, hp, q₂, h₂, e'', he'', h₃⟩ := hq
  have hr := (relinked_modEnv h₁ fun _ => rfl).trans (relinked_modEnv h₂ fun _ => rfl)
  refine (hr.trans ?_).trans (relinked_modEnv h₃ fun _ => rfl)
  split
  · exact ⟨rfl, fun _ => rfl⟩
  · exact Relinked.refl _

/-- The keys are read off an envelope without its links. -/
theorem hqOf_unlinked (q : Queues) (b : Addr) :
    q.hqOf b = ((q.envs b).map QEnv.unlinked).bind fun e => e.eHq := by
  unfold Queues.hqOf
  cases q.envs b <;> rfl

theorem etime_unlinked (q : Queues) (b : Addr) :
    q.etime b = (((q.envs b).map QEnv.unlinked).map fun e => e.eEtime).getD 0 := by
  unfold Queues.etime
  cases q.envs b <;> rfl

theorem prisoner_unlinked (q : Queues) (b : Addr) :
    q.prisoner b = ((q.envs b).map QEnv.unlinked).any fun e => e.eJail = envJailPrisoner := by
  unfold Queues.prisoner
  cases q.envs b <;> rfl

/-- The Efile of the envelope was seen in this cycle. -/
def Queues.live (q : Queues) (b : Addr) : Bool := (q.envs b).any fun e => e.eCycle = q.diskCycle

theorem live_unlinked (q : Queues) (b : Addr) :
    q.live b = ((q.envs b).map QEnv.unlinked).any fun e => e.eCycle = q.diskCycle := by
  unfold Queues.live
  cases q.envs b <;> rfl

/-- The envelopes in `dead` are freed, and links of the ring have changed; the lists by message id and by
    sender lose the freed ones. -/
structure Pruned (dead : List Addr) (q q' : Queues) : Prop where
  rest : q' = { q with
    envs := q'.envs, envQueue := q'.envQueue, envList := q'.envList, senderList := q'.senderList }
  envs : ∀ b, (q'.envs b).map QEnv.unlinked = if b ∈ dead then none else (q.envs b).map QEnv.unlinked

/-- The host queues stay as they are while one of them is pruned. -/
theorem pruneLoop_rest {l : List Addr} {r : List Addr × Int × Int × Queues} (hr : pruneLoop q l = some r) :
    r.2.2.2 = { q with
      envs := r.2.2.2.envs, envQueue := r.2.2.2.envQueue, envList := r.2.2.2.envList
      senderList := r.2.2.2.senderList } := by
  induction l generalizing q r with
  | nil =>
    cases hr
    rfl
  | cons a rest ih =>
    simp only [pruneLoop, Option.bind_eq_bind, Option.bind_eq_some_iff] at hr
    obtain ⟨e, he, hr⟩ := hr
    split at hr
    · obtain ⟨q₁, h₁, hr⟩ := Option.bind_eq_some_iff.mp hr
      rw [ih hr]
      simp only [Queues.freeEnv, Queues.setEnv]
      rw [(ringRemove_relinked h₁).rest]
    · simp only [Option.bind_eq_some_iff, Option.some.injEq] at hr
      obtain ⟨⟨l', n', j', q''⟩, hr', rfl⟩ := hr
      have hrest := ih hr'
      exact hrest

theorem pruneLoop_spec {l : List Addr} {r : List Addr × Int × Int × Queues} (hd : l.Nodup)
    (hr : pruneLoop q l = some r) :
    r.1 = l.filter q.live ∧ r.2.1 = r.1.length ∧ r.2.2.1 = r.1.countP q.prisoner ∧
      Pruned (l.filter fun b => !q.live b) q r.2.2.2 := by
  induction l generalizing q r with
  | nil =>
    cases hr
    exact ⟨rfl, rfl, rfl, rfl, fun _ => rfl⟩
  | cons a rest ih =>
    obtain ⟨ha, hd⟩ := List.nodup_cons.mp hd
    simp only [pruneLoop, Option.bind_eq_bind, Option.bind_eq_some_iff] at hr
    obtain ⟨e, he, hr⟩ := hr
    have hlive : q.live a = decide (e.eCycle = q.diskCycle) := by simp [Queues.live, he]
    split at hr
    · rename_i hcycle
      have hdead : q.live a = false := by rw [hlive]; exact decide_eq_false hcycle
      obtain ⟨q₁, h₁, hr⟩ := Option.bind_eq_some_iff.mp hr
      have hrel := ringRemove_relinked h₁
      obtain ⟨hl, hn, hj, hp⟩ := ih hd hr
      -- behind the removal the rest of the list is as it was
      have henvs : ∀ b ∈ rest, ((q₁.freeEnv a).envs b).map QEnv.unlinked =
          (q.envs b).map QEnv.unlinked := fun b hb => by
        have hba : b ≠ a := fun h => ha (h ▸ hb)
        rw [Queues.freeEnv_envs, if_neg hba]
        exact hrel.envs b
      have hcyc : (q₁.freeEnv a).diskCycle = q.diskCycle := by
        show q₁.diskCycle = q.diskCycle
        rw [hrel.rest]
      have hl' : ∀ b ∈ rest, (q₁.freeEnv a).live b = q.live b := fun b hb => by
        rw [live_unlinked, live_unlinked, henvs b hb, hcyc]
      have hj' : ∀ b ∈ rest, (q₁.freeEnv a).prisoner b = q.prisoner b := fun b hb => by
        rw [prisoner_unlinked, prisoner_unlinked, henvs b hb]
      have hfilter : rest.filter (q₁.freeEnv a).live = rest.filter q.live := List.filter_congr hl'
      have hfilter' : (rest.filter fun b => !(q₁.freeEnv a).live b) = rest.filter fun b => !q.live b :=
        List.filter_congr fun b hb => by rw [hl' b hb]
      refine ⟨?_, hn, ?_, ?_, ?_⟩
      · rw [hl, hfilter, List.filter_cons_of_neg (by simp [hdead])]
      · rw [hj, hl, hfilter]
        congr 1
        exact List.countP_congr fun b hb => by rw [hj' b (List.mem_of_mem_filter hb)]
      · rw [hp.rest]
        simp only [Queues.freeEnv, Queues.setEnv]
        rw [hrel.rest]
      · intro b
        rw [hp.envs b, hfilter', List.filter_cons_of_pos (by simp [hdead])]
        by_cases hba : b = a
        · simp [hba]
        · simp only [List.mem_cons, hba, false_or, Queues.freeEnv_envs, if_false, hrel.envs b]
    · rename_i hcycle
      have hkept : q.live a = true := by rw [hlive]; exact decide_eq_true (not_not.mp hcycle)
      simp only [Option.bind_eq_some_iff, Option.some.injEq] at hr
      obtain ⟨⟨l', n', j', q''⟩, hr', rfl⟩ := hr
      obtain ⟨hl, hn, hj, hp⟩ := ih hd hr'
      have hja : q.prisoner a = decide (e.eJail = envJailPrisoner) := by simp [Queues.prisoner, he]
      refine ⟨?_, ?_, ?_, ?_⟩
      · rw [List.filter_cons_of_pos hkept, ← hl]
      · show n' + 1 = ((a :: l').length : Int)
        rw [List.length_cons]
        simp only at hn
        omega
      · simp only [List.countP_cons, hja] at hj ⊢
        by_cases hjail : e.eJail = envJailPrisoner <;> simp [hjail, hj]
      · rw [List.filter_cons_of_neg (by simp [hkept])]
        exact hp

/-- What `prune_messages` leaves of the queue `x`. -/
def HostQ.pruned (x : HostQ) (q : Queues) : HostQ :=
  { x with
    hqEnvHead := x.hqEnvHead.filter q.live
    hqEntries := (x.hqEnvHead.filter q.live).length
    hqJailEnvs := (x.hqEnvHead.filter q.live).countP q.prisoner }

/-- The queue `x` at `h` is pruned. -/
structure QueuePruned (h : Addr) (x : HostQ) (q q' : Queues) : Prop where
  queue : q.hqs h = some x
  hqs : ∀ k, q'.hqs k = if k = h then some (x.pruned q) else q.hqs k
  rest : q' = { q with
    envs := q'.envs, hqs := q'.hqs, envQueue := q'.envQueue, envList := q'.envList
    senderList := q'.senderList }
  envs : ∀ b, (q'.envs b).map QEnv.unlinked =
    if b ∈ x.hqEnvHead ∧ q.live b = false then none else (q.envs b).map QEnv.unlinked

theorem pruneMessages_pruned (hd : ∀ x, q.hqs h = some x → x.hqEnvHead.Nodup)
    (hq : q.pruneMessages h = some q') : ∃ x, QueuePruned h x q q' := by
  simp only [Queues.pruneMessages, Option.bind_eq_bind, Option.bind_eq_some_iff] at hq
  obtain ⟨x, hx, ⟨l, n, j, u⟩, hr, hq⟩ := hq
  obtain ⟨hl, hn, hj, hp⟩ := pruneLoop_spec (hd x hx) hr
  obtain ⟨y, hy, rfl⟩ := Option.map_eq_some_iff.mp hq
  have hhqs : u.hqs = q.hqs := by
    have h := hp.rest
    simp only at h
    rw [h]
  have hxy : y = x := by
    rw [hhqs, hx] at hy
    exact (Option.some.inj hy).symm
  simp only at hl hn hj
  subst hxy hl hn hj
  refine ⟨y, hx, fun k => ?_, ?_, fun b => ?_⟩
  · rw [Queues.setHq_hqs, hhqs]
    rfl
  · have h := hp.rest
    simp only at h
    rw [h]
    rfl
  · rw [Queues.setHq_envs, hp.envs b]
    simp only [List.mem_filter, Bool.not_eq_true']

/-- **Pruning a queue.** -/
theorem pruneMessages_sound (hs : Sound keyed q) (hq : q.pruneMessages h = some q') : Sound keyed q' := by
  obtain ⟨x, hp⟩ := pruneMessages_pruned (fun x hx => (hs.queue h x hx).nodup) hq
  have hx := hs.queue h x hp.queue
  have hfresh : q'.fresh = q.fresh := by rw [hp.rest]
  have hdead : ∀ b, b ∈ x.hqEnvHead ∧ q.live b = false → q'.hqOf b = none := fun b hb => by
    rw [hqOf_unlinked, hp.envs b, if_pos hb]
    rfl
  have hhq : ∀ b, ¬ (b ∈ x.hqEnvHead ∧ q.live b = false) → q'.hqOf b = q.hqOf b := fun b hb => by
    rw [hqOf_unlinked, hp.envs b, if_neg hb, ← hqOf_unlinked]
  have hkeys : ∀ b, ¬ (b ∈ x.hqEnvHead ∧ q.live b = false) →
      q'.etime b = q.etime b ∧ q'.prisoner b = q.prisoner b := fun b hb => by
    rw [etime_unlinked, prisoner_unlinked, hp.envs b, if_neg hb, ← etime_unlinked, ← prisoner_unlinked]
    exact ⟨rfl, rfl⟩
  refine ⟨fun k y hy => ?_, fun b k hb => ?_, fun b e hb => ?_, fun k y hy => ?_⟩
  · rw [hp.hqs] at hy
    split at hy
    · rename_i hk
      subst hk
      cases hy
      have hkept : ∀ b ∈ x.hqEnvHead.filter q.live, ¬ (b ∈ x.hqEnvHead ∧ q.live b = false) :=
        fun b hb hn => by simp [hn.2] at hb
      refine ⟨rfl, fun _ => ?_, fun b => ?_, hx.nodup.filter _, fun hk => ?_⟩
      · show (((x.hqEnvHead.filter q.live).countP q.prisoner : Nat) : Int) = _
        congr 1
        exact List.countP_congr fun b hb => by rw [(hkeys b (hkept b hb)).2]
      · show b ∈ x.hqEnvHead.filter q.live ↔ _
        by_cases hb : b ∈ x.hqEnvHead ∧ q.live b = false
        · rw [hdead b hb]
          simp [hb.2]
        · rw [hhq b hb, ← hx.mem_iff' b, List.mem_filter]
          have hlive : b ∈ x.hqEnvHead → q.live b = true := fun hm =>
            Bool.not_eq_false _ ▸ fun hl => hb ⟨hm, hl⟩
          simp only [List.not_mem_nil, not_false_eq_true, and_true]
          exact ⟨fun hm => hm.1, fun hm => ⟨hm, hlive hm⟩⟩
      · refine ((hx.ordered hk).sublist List.filter_sublist).imp_of_mem ?_
        intro b c hb hc hbc
        rw [(hkeys b (hkept b hb)).1, (hkeys c (hkept c hc)).1]
        exact hbc
    · rename_i hk
      have hy' := hs.queue k y hy
      have hother : ∀ b, q.hqOf b = some k → ¬ (b ∈ x.hqEnvHead ∧ q.live b = false) := fun b hb hn => by
        rw [(hx.mem_iff' b).mp hn.1] at hb
        exact hk (Option.some.inj hb).symm
      have hmem : ∀ b ∈ y.hqEnvHead, ¬ (b ∈ x.hqEnvHead ∧ q.live b = false) := fun b hb =>
        hother b ((hy'.mem_iff b).mp hb).1
      refine ⟨hy'.entries, fun hk => ?_, fun b => ?_, hy'.nodup, fun hk => ?_⟩
      · rw [hy'.jail hk]
        congr 1
        exact List.countP_congr fun b hb => by rw [(hkeys b (hmem b hb)).2]
      · rw [hy'.mem_iff b]
        by_cases hb : b ∈ x.hqEnvHead ∧ q.live b = false
        · rw [hdead b hb]
          exact iff_of_false (fun h => hother b h.1 hb) (by simp)
        · rw [hhq b hb]
      · refine (hy'.ordered hk).imp_of_mem ?_
        intro b c hb hc hbc
        rw [(hkeys b (hmem b hb)).1, (hkeys c (hmem c hc)).1]
        exact hbc
  · rw [hp.hqs]
    split
    · rfl
    · refine hs.linked b k ?_
      by_cases hd : b ∈ x.hqEnvHead ∧ q.live b = false
      · rw [hdead b hd] at hb
        cases hb
      · rwa [hhq b hd] at hb
  · rw [hfresh]
    have henv := hp.envs b
    rw [hb] at henv
    split at henv
    · cases henv
    · cases he : q.envs b with
      | none =>
        rw [he] at henv
        cases henv
      | some e' => exact hs.envBound b e' he
  · rw [hp.hqs] at hy
    rw [hfresh]
    split at hy
    · rename_i hk
      exact hk ▸ hs.hqBound h x hp.queue
    · exact hs.hqBound k y hy

end Steps

/-! ## The programs -/

section Programs

variable {keyed : Prop} {conf : QueueConf} {q : Queues} {a h : Addr} {e : QEnv} {pending : List Addr}
variable {F : Prop}

/-- Calls on files may answer anything. -/
theorem wlp_file {α : Type} {p : SpoolProg α} {Q : α → Queues → Unit → Prop} (hQ : ∀ b, Q b q ()) :
    (file p).wlp Prog.anyAnswer F Q q () :=
  (Faulty.wlp_lift _).mpr (Prog.wlp_of_forall fun b _ => hQ b)

/-- A call whose results are known. -/
theorem wlp_file_of {α : Type} {R : Prog.World QueueOp QueueAns Unit} {p : SpoolProg α} {P : α → Prop}
    {Q : α → Queues → Unit → Prop} (hp : p.wlp Prog.anyAnswer (fun b _ => P b) ()) (hQ : ∀ b, P b → Q b q ()) :
    (file p).wlp R F Q q () :=
  (Faulty.wlp_lift _).mpr (Prog.wlp_mono (fun b _ hb => hQ b hb) (Prog.wlp_lift_anyAnswer hp))

/-- The host queues that the globals name are there. -/
structure HostsThere (q : Queues) : Prop where
  hostQ : ∀ h ∈ q.hostQ, (q.hqs h).isSome
  unexpanded : ∀ h, q.unexpandedQ = some h → (q.hqs h).isSome

theorem isSome_newHq {x : HostQ} (hh : (q.hqs h).isSome) : ((q.newHq x).hqs h).isSome := by
  simp only [Queues.newHq, Queues.setHq_hqs]
  split
  · rfl
  · exact hh

theorem newHq_fresh_isSome (q : Queues) (x : HostQ) : ((q.newHq x).hqs q.fresh).isSome := by
  simp [Queues.newHq]

theorem HostsGrown.there {q' : Queues} (hg : HostsGrown conf q q') (ht : HostsThere q) : HostsThere q' := by
  induction hg with
  | refl => exact ht
  | unexpanded hg hu ih =>
    refine ⟨fun h hh => isSome_newHq (ih.hostQ h hh), fun h hh => ?_⟩
    cases hh
    exact newHq_fresh_isSome _ _
  | punt hg puntHost ih =>
    exact ⟨fun h hh => isSome_newHq (ih.hostQ h hh), fun h hh => isSome_newHq (ih.unexpanded h hh)⟩
  | host hg hostname ih =>
    refine ⟨fun h hh => ?_, fun h hh => isSome_newHq (ih.unexpanded h hh)⟩
    rcases List.mem_cons.mp hh with rfl | hh
    · exact newHq_fresh_isSome _ _
    · exact isSome_newHq (ih.hostQ h hh)

theorem hostQFind_total {hqs : Addr → Option HostQ} {hostname : Text} {l : List Addr}
    (hl : ∀ h ∈ l, (hqs h).isSome) : ∃ r, hostQFind hqs hostname l = some r := by
  induction l with
  | nil => exact ⟨none, rfl⟩
  | cons h rest ih =>
    obtain ⟨x, hx⟩ := Option.isSome_iff_exists.mp (hl h List.mem_cons_self)
    simp only [hostQFind, hx, Option.bind_eq_bind, Option.bind_some]
    split
    · exact ⟨_, rfl⟩
    · exact ih fun k hk => hl k (List.mem_cons_of_mem _ hk)

theorem hostQFind_mem {hqs : Addr → Option HostQ} {hostname : Text} {l : List Addr}
    (hl : hostQFind hqs hostname l = some (some h)) : h ∈ l := by
  induction l with
  | nil => cases hl
  | cons k rest ih =>
    simp only [hostQFind, Option.bind_eq_bind, Option.bind_eq_some_iff] at hl
    obtain ⟨x, -, hl⟩ := hl
    split at hl
    · cases hl
      exact List.mem_cons_self
    · exact List.mem_cons_of_mem _ (ih hl)

theorem createNullQueues_spec :
    (createNullQueues conf).wlp Prog.anyAnswer F
      (fun ok q' _ => HostsGrown conf q q' ∧ (ok = true → q'.unexpandedQ ≠ none)) q () := by
  unfold createNullQueues
  simp only [Faulty.wlp_bind, Faulty.wlp_get]
  split
  · rename_i h hu
    exact ⟨.refl, fun _ hn => by simp [hu] at hn⟩
  · rename_i hu
    refine (Faulty.wlp_bind _ _).mpr (wlp_file fun ok => ?_)
    cases ok with
    | false => exact ⟨.refl, fun h => (by cases h)⟩
    | true =>
      simp only [if_true, Faulty.wlp_bind, Faulty.wlp_modify]
      have hg : HostsGrown conf q _ := HostsGrown.refl.unexpanded hu
      split
      · exact ⟨hg, fun _ hn => by cases hn⟩
      · refine (Faulty.wlp_bind _ _).mpr (wlp_file fun ok => ?_)
        cases ok with
        | false => exact ⟨hg, fun h => (by cases h)⟩
        | true =>
          simp only [if_true, Faulty.wlp_bind, Faulty.wlp_modify]
          exact ⟨hg.punt _, fun _ hn => by cases hn⟩

/-- What `host_q_create_or_lookup` returns: a queue of the list or the queue of unexpanded messages. -/
def HostFound (conf : QueueConf) (q : Queues) (r : Option Addr) (q' : Queues) : Prop :=
  HostsGrown conf q q' ∧ ∀ h, r = some h → h ∈ q'.hostQ ∨ q'.unexpandedQ = some h

theorem hostQCreateOrLookup_spec {hostname : Option Text} (hsafe : F ∨ HostsThere q) :
    (hostQCreateOrLookup conf hostname).wlp Prog.anyAnswer F (fun r q' _ => HostFound conf q r q') q () := by
  unfold hostQCreateOrLookup
  refine Faulty.wlp_seq createNullQueues_spec ?_
  rintro ok u - ⟨hg, hu⟩
  cases ok with
  | false => exact ⟨hg, nofun⟩
  | true =>
    simp only [if_true]
    split
    · exact ⟨hg, fun h hh => .inr hh⟩
    · refine (Faulty.wlp_bind _ _).mpr (Faulty.wlp_read.mpr ⟨fun hnone => ?_, fun r hr => ?_⟩)
      · rcases hsafe with hF | ht
        · exact hF
        · obtain ⟨r, hr⟩ := hostQFind_total (hg.there ht).hostQ
          rw [hr] at hnone
          cases hnone
      · cases r with
        | some h =>
          refine ⟨hg, fun k hk => .inl ?_⟩
          cases hk
          exact hostQFind_mem hr
        | none =>
          refine (Faulty.wlp_bind _ _).mpr (wlp_file fun ok => ?_)
          cases ok with
          | false => exact ⟨hg, nofun⟩
          | true =>
            refine (Faulty.wlp_bind _ _).mpr (wlp_file fun ok => ?_)
            cases ok with
            | false => exact ⟨hg, nofun⟩
            | true =>
              refine ⟨hg.host _, fun k hk => .inl ?_⟩
              cases hk
              exact List.mem_cons_self

/-- What `queue_envelope` does. -/
inductive QueueEnvelope (conf : QueueConf) (q : Queues) (a : Addr) : Int → Queues → Prop
  | kept (e : QEnv) (he : q.envs a = some e) (hk : e.eDir = .dead ∨ e.eHq ≠ none) :
      QueueEnvelope conf q a 0 q
  | failed {q' : Queues} (hg : HostsGrown conf q q') : QueueEnvelope conf q a 1 q'
  | queued {u q' : Queues} {h : Addr} (hg : HostsGrown conf q u) (ha : q.hqOf a = none)
      (hh : h ∈ u.hostQ ∨ u.unexpandedQ = some h ∨
        u.puntQ = some h ∧ ∃ e, q.envs a = some e ∧ e.eFlags.punt = true) (hq : u.enqueue a h = some q') :
      QueueEnvelope conf q a 0 q'

theorem insertByTime_total {envs : Addr → Option QEnv} {t : Int} {l : List Addr}
    (hl : ∀ b ∈ l, (envs b).isSome) : ∃ l', insertByTime envs t a l = some l' := by
  induction l with
  | nil => exact ⟨_, rfl⟩
  | cons b rest ih =>
    obtain ⟨e, he⟩ := Option.isSome_iff_exists.mp (hl b List.mem_cons_self)
    obtain ⟨l', hl'⟩ := ih fun c hc => hl c (List.mem_cons_of_mem _ hc)
    simp only [insertByTime, he, hl', Option.bind_eq_bind, Option.bind_some, Option.map_some]
    split <;> exact ⟨_, rfl⟩

theorem isSome_of_hqOf (hq : q.hqOf a = some h) : (q.envs a).isSome := by
  unfold Queues.hqOf at hq
  cases he : q.envs a with
  | none =>
    rw [he] at hq
    cases hq
  | some e => rfl

/-- The insertion reaches no freed envelope and no freed queue. -/
theorem enqueue_total (hs : Sound keyed q) (ha : (q.envs a).isSome) (hh : (q.hqs h).isSome) :
    ∃ q', q.enqueue a h = some q' := by
  obtain ⟨e, he⟩ := Option.isSome_iff_exists.mp ha
  obtain ⟨x, hx⟩ := Option.isSome_iff_exists.mp hh
  obtain ⟨l, hl⟩ := insertByTime_total (a := a) (t := e.eEtime) (l := x.hqEnvHead) fun b hb =>
    isSome_of_hqOf (((hs.queue h x hx).mem_iff b).mp hb).1
  simp only [Queues.enqueue, he, hx, hl, Option.bind_eq_bind, Option.bind_some]
  exact ⟨_, rfl⟩

/-- What `queue_envelope` needs so as not to fault: an envelope that is not for the punt host. -/
structure Queueable (q : Queues) (a : Addr) : Prop where
  sound : Sound False q
  there : HostsThere q
  env : ∃ e, q.envs a = some e ∧ e.eFlags.punt = false

theorem queueEnvelope_spec (hsafe : F ∨ Queueable q a) :
    (queueEnvelope conf a).wlp Prog.anyAnswer F (fun r q' _ => QueueEnvelope conf q a r q') q () := by
  unfold queueEnvelope
  refine (Faulty.wlp_bind _ _).mpr (Faulty.wlp_read.mpr ⟨fun hnone => ?_, fun e he => ?_⟩)
  · rcases hsafe with hF | hq
    · exact hF
    · obtain ⟨e, he, -⟩ := hq.env
      rw [hnone] at he
      cases he
  · split
    · rename_i hdead
      exact .kept e he (.inl hdead)
    · cases hhq : e.eHq with
      | some h => exact .kept e he (.inr (by simp [hhq]))
      | none =>
        have ha : q.hqOf a = none := by simp [Queues.hqOf, he, hhq]
        by_cases hp : e.eFlags.punt = true
        · simp only [if_pos hp, Faulty.wlp_bind, Faulty.wlp_map]
          refine Faulty.wlp_read.mpr ⟨fun _ => ?_, fun h hh => ?_⟩
          · rcases hsafe with hF | hq
            · exact hF
            · obtain ⟨e', he', hp'⟩ := hq.env
              rw [he] at he'
              cases he'
              rw [hp] at hp'
              cases hp'
          · simp only [Faulty.wlp_pure, Faulty.wlp_update]
            refine ⟨fun _ => ?_, fun q' hq' => .queued .refl ha (.inr (.inr ⟨hh, e, he, hp⟩)) hq'⟩
            rcases hsafe with hF | hq
            · exact hF
            · obtain ⟨e', he', hp'⟩ := hq.env
              rw [he] at he'
              cases he'
              rw [hp] at hp'
              cases hp'
        · simp only [if_neg hp]
          refine Faulty.wlp_seq (hostQCreateOrLookup_spec (hsafe.imp_right (·.there))) ?_
          rintro r u - ⟨hg, hr⟩
          cases r with
          | none => exact .failed hg
          | some h =>
            simp only [Faulty.wlp_bind, Faulty.wlp_update, Faulty.wlp_pure]
            refine ⟨fun hnone => ?_, fun q' hq' => .queued hg ha ((hr h rfl).imp_right .inl) hq'⟩
            rcases hsafe with hF | hq
            · exact hF
            · have hthere := hg.there hq.there
              have hh : (u.hqs h).isSome := (hr h rfl).elim (hthere.hostQ h) (hthere.unexpanded h)
              obtain ⟨q', hq'⟩ := enqueue_total (hg.sound hq.sound) (hg.envs ▸ Option.isSome_of_eq_some he) hh
              rw [hq'] at hnone
              cases hnone

theorem QueueEnvelope.sound {q' : Queues} {r : Int} (hq : QueueEnvelope conf q a r q')
    (hs : SoundBut keyed pending q) (hp : a ∉ pending) : SoundBut keyed pending q' := by
  cases hq with
  | kept => exact hs
  | failed hg => exact hg.sound hs
  | queued hg ha hh hq =>
    refine enqueue_sound (hg.sound hs) ?_ hp hq
    unfold Queues.hqOf at ha ⊢
    rw [hg.envs]
    exact ha

/-- The next envelope of `queue_time_order` is in no queue. -/
theorem unhook_sound {q' : Queues} (hs : SoundBut keyed (a :: pending) q)
    (hq : (q.modEnv a fun e => { e with eHq := none }) = some q') :
    SoundBut keyed pending q' ∧ q'.hqOf a = none := by
  obtain ⟨e, he, rfl⟩ := Option.map_eq_some_iff.mp hq
  have hhq : ∀ b, (q.setEnv a (some { e with eHq := none })).hqOf b = if b = a then none else q.hqOf b := by
    intro b
    by_cases hb : b = a <;> simp [Queues.hqOf, hb]
  have htime : (q.setEnv a (some { e with eHq := none })).etime = q.etime := by
    funext b
    by_cases hb : b = a <;> simp [Queues.etime, hb, he]
  have hjail : (q.setEnv a (some { e with eHq := none })).prisoner = q.prisoner := by
    funext b
    by_cases hb : b = a <;> simp [Queues.prisoner, hb, he]
  refine ⟨⟨fun k y hy => ?_, fun b k hb => ?_, fun b e' hb => ?_, hs.hqBound⟩, ?_⟩
  · have hy' := hs.queue k y hy
    refine ⟨hy'.entries, ?_, fun b => ?_, hy'.nodup, ?_⟩
    · rw [hjail]
      exact hy'.jail
    · rw [hy'.mem_iff b, hhq]
      by_cases hb : b = a <;> simp [hb]
    · rw [htime]
      exact hy'.ordered
  · rw [hhq] at hb
    split at hb
    · cases hb
    · exact hs.linked b k hb
  · simp only [Queues.setEnv_envs] at hb
    split at hb
    · rename_i hba
      exact hba ▸ hs.envBound a e he
    · exact hs.envBound b e' hb
  · rw [hhq, if_pos rfl]

theorem timeOrderLoop_spec {l : List Addr} (hd : l.Nodup) (hs : SoundBut keyed l q) :
    (timeOrderLoop conf l).wlp Prog.anyAnswer True (fun _ q' _ => Sound keyed q') q () := by
  induction l generalizing q with
  | nil => exact hs
  | cons a rest ih =>
    obtain ⟨ha, hd⟩ := List.nodup_cons.mp hd
    refine (Faulty.wlp_bind _ _).mpr (Faulty.wlp_update.mpr ⟨fun _ => trivial, fun u hu => ?_⟩)
    obtain ⟨hu, hua⟩ := unhook_sound hs hu
    refine (Faulty.wlp_bind _ _).mpr (Faulty.wlp_read.mpr ⟨fun _ => trivial, fun e he => ?_⟩)
    refine (Faulty.wlp_bind _ _).mpr (wlp_file fun answer => ?_)
    cases answer with
    | none =>
      simp only [Faulty.wlp_bind, Faulty.wlp_modify]
      exact ih hd ((elsewhere_freeEnv hua).sound hu)
    | some _ =>
      refine Faulty.wlp_seq (queueEnvelope_spec (.inl trivial)) ?_
      rintro r v - hv
      exact ih hd (hv.sound hu ha)

/-- The list is taken off its queue, and all its members are to be put back. -/
theorem pending_sound {q' : Queues} {x : HostQ} (hs : Sound keyed q) (hx : q.hqs h = some x)
    (hq : (q.modHq h fun x => { x with hqEntries := 0, hqJailEnvs := 0, hqEnvHead := [] }) = some q') :
    SoundBut keyed x.hqEnvHead q' := by
  obtain ⟨y, hy, rfl⟩ := Option.map_eq_some_iff.mp hq
  cases hx.symm.trans hy
  have hxq := hs.queue h x hx
  refine ⟨fun k z hz => ?_, fun a k ha => ?_, hs.envBound, fun k z hz => ?_⟩
  · simp only [Queues.setHq_hqs] at hz
    split at hz
    · rename_i hk
      subst hk
      cases hz
      refine ⟨rfl, fun _ => rfl, fun a => ?_, List.nodup_nil, fun _ => .nil⟩
      refine iff_of_false (by simp) fun hn => hn.2 ((hxq.mem_iff' a).mpr hn.1)
    · rename_i hk
      have hz' := hs.queue k z hz
      refine ⟨hz'.entries, hz'.jail, fun a => ?_, hz'.nodup, hz'.ordered⟩
      refine (hz'.mem_iff' a).trans ⟨fun ha => ⟨ha, fun hm => ?_⟩, fun ha => ha.1⟩
      have hh := (hxq.mem_iff' a).mp hm
      rw [show q.hqOf a = some k from ha] at hh
      exact hk (Option.some.inj hh)
  · simp only [Queues.setHq_hqs]
    split
    · rfl
    · exact hs.linked a k ha
  · simp only [Queues.setHq_hqs] at hz
    split at hz
    · rename_i hk
      exact hk ▸ hs.hqBound h x hx
    · exact hs.hqBound k z hz

theorem queueTimeOrder_spec {hq : Option Addr} (hs : Sound keyed q) :
    (queueTimeOrder conf hq).wlp Prog.anyAnswer True (fun _ q' _ => Sound keyed q') q () := by
  unfold queueTimeOrder
  cases hq with
  | none => exact hs
  | some h =>
    refine (Faulty.wlp_bind _ _).mpr (Faulty.wlp_read.mpr ⟨fun _ => trivial, fun x hx => ?_⟩)
    refine (Faulty.wlp_bind _ _).mpr (Faulty.wlp_update.mpr ⟨fun _ => trivial, fun u hu => ?_⟩)
    exact timeOrderLoop_spec (hs.queue h x hx).nodup (pending_sound hs hx hu)

/-! ## The writers of an envelope -/

/-- What the queues hold of an envelope: the host queue it is in, its id, its cycle and its place in the
    ring. -/
def QEnv.place (e : QEnv) : Option Addr × Text × Int × Option Addr × Option Addr :=
  (e.eHq, e.eId, e.eCycle, e.eListNext, e.eListPrev)

/-- The lists by message id and by sender hold no envelope that was freed. -/
structure Queues.ListsLive (q : Queues) : Prop where
  ids : ∀ p ∈ q.envList, (q.envs p.2).isSome
  senders : ∀ s ∈ q.senderList, ∀ p ∈ s.2, (q.envs p.2).isSome

theorem Queues.ListsLive.of_envs {q' : Queues} (hl : q.ListsLive) (henvs : ∀ b, (q.envs b).isSome → (q'.envs b).isSome)
    (hids : q'.envList = q.envList) (hsenders : q'.senderList = q.senderList) : q'.ListsLive := by
  refine ⟨fun p hp => henvs _ (hl.ids p ?_), fun s hs p hp => henvs _ (hl.senders s ?_ p hp)⟩
  · rw [← hids]
    exact hp
  · rw [← hsenders]
    exact hs

theorem Queues.ListsLive.freeEnv (hl : q.ListsLive) (a : Addr) : (q.freeEnv a).ListsLive := by
  have hkept : ∀ p : Text × Addr, p.2 ≠ a → (q.envs p.2).isSome → ((q.freeEnv a).envs p.2).isSome := by
    intro p hp hs
    rw [Queues.freeEnv_envs, if_neg hp]
    exact hs
  refine ⟨fun p hp => ?_, fun s hs p hp => ?_⟩
  · obtain ⟨hmem, hpa⟩ := List.mem_filter.mp hp
    exact hkept p (of_decide_eq_true hpa) (hl.ids p hmem)
  · obtain ⟨s₀, hs₀, hs⟩ := List.mem_filterMap.mp hs
    split at hs
    · dsimp only at hs
      split at hs
      · cases hs
      · cases hs
        obtain ⟨hmem, hpa⟩ := List.mem_filter.mp hp
        exact hkept p (of_decide_eq_true hpa) (hl.senders s₀ hs₀ p hmem)
    · rename_i hany
      cases hs
      refine hkept p (fun hpa => hany ?_) (hl.senders s hs₀ p hp)
      exact List.any_eq_true.mpr ⟨p, hp, decide_eq_true hpa⟩

/-- An entry of a list behind an insertion is the new one, or was there. -/
theorem mem_dllInsertKey {β : Type} {key : Text} {new : β} {l : List (Text × β)} {p : Text × β}
    (hp : p ∈ dllInsertKey key new l) : p = (key, new) ∨ p ∈ l := by
  induction l with
  | nil => exact .inl (List.mem_singleton.mp hp)
  | cons x rest ih =>
    unfold dllInsertKey at hp
    split at hp
    · exact .inr hp
    · exact List.mem_cons.mp hp
    · rcases List.mem_cons.mp hp with rfl | hp
      · exact .inr List.mem_cons_self
      · exact (ih hp).imp_right (List.mem_cons_of_mem _)

theorem Queues.ListsLive.listsAdd {c : Conf} (hl : q.ListsLive) (ha : (q.envs a).isSome) (e : Envelope) :
    (q.listsAdd c a e).ListsLive := by
  have hinsert : ∀ {l : List (Text × Addr)} {p : Text × Addr}, (∀ p ∈ l, (q.envs p.2).isSome) →
      p ∈ dllInsertKey e.eId a l → (q.envs p.2).isSome := by
    intro l p hall hp
    rcases mem_dllInsertKey hp with rfl | hp
    · exact ha
    · exact hall p hp
  refine ⟨fun p hp => ?_, fun s hs p hp => ?_⟩
  · simp only [Queues.listsAdd] at hp
    split at hp
    · exact hinsert hl.ids hp
    · exact hl.ids p hp
  · simp only [Queues.listsAdd] at hs
    split at hs
    · obtain ⟨s₀, hs₀, rfl⟩ := List.mem_map.mp hs
      -- the entries of a sender that was there, or of one that is new
      have hold : ∀ p ∈ s₀.2, (q.envs p.2).isSome := fun p hp => by
        rcases mem_dllInsertKey hs₀ with rfl | hs₀
        · cases hp
        · exact hl.senders s₀ hs₀ p hp
      split at hp
      · exact hinsert hold hp
      · exact hold p hp
    · exact hl.senders s hs p hp

/-- The envelope at `a` is written, but not its place; the lists by message id and by sender may change. -/
structure EnvWritten (a : Addr) (q q' : Queues) : Prop where
  rest : q' = { q with envs := q'.envs, envList := q'.envList, senderList := q'.senderList }
  others : ∀ b, b ≠ a → q'.envs b = q.envs b
  place : (q'.envs a).map QEnv.place = (q.envs a).map QEnv.place
  lists : (q.envs a).isSome → q.ListsLive → q'.ListsLive

theorem EnvWritten.refl (a : Addr) (q : Queues) : EnvWritten a q q := ⟨rfl, fun _ _ => rfl, rfl, fun _ h => h⟩

theorem EnvWritten.isSome {q' : Queues} (hw : EnvWritten a q q') (b : Addr) :
    (q'.envs b).isSome = (q.envs b).isSome := by
  by_cases hb : b = a
  · subst hb
    have hp := congrArg Option.isSome hw.place
    simpa using hp
  · rw [hw.others b hb]

theorem EnvWritten.trans {q' u : Queues} (h : EnvWritten a q q') (h' : EnvWritten a q' u) : EnvWritten a q u := by
  refine ⟨?_, fun b hb => (h'.others b hb).trans (h.others b hb), h'.place.trans h.place, fun ha hl => ?_⟩
  · rw [h'.rest, h.rest]
  · exact h'.lists ((h.isSome a).trans ha) (h.lists ha hl)

theorem envWritten_modEnv {q' : Queues} {f : QEnv → QEnv} (hq : q.modEnv a f = some q')
    (hf : ∀ e, q.envs a = some e → (f e).place = e.place) : EnvWritten a q q' := by
  obtain ⟨e, he, rfl⟩ := Option.map_eq_some_iff.mp hq
  refine ⟨rfl, fun b hb => by rw [Queues.setEnv_envs, if_neg hb], ?_, fun _ hl => hl.of_envs (fun b hb => ?_) rfl rfl⟩
  · rw [Queues.setEnv_envs, if_pos rfl, he, Option.map_some, Option.map_some, hf e he]
  · rw [Queues.setEnv_envs]
    split
    · rfl
    · exact hb

theorem EnvWritten.hqOf {q' : Queues} (hw : EnvWritten a q q') (b : Addr) : q'.hqOf b = q.hqOf b := by
  by_cases hb : b = a
  · subst hb
    have hp := congrArg (Option.map Prod.fst) hw.place
    simp only [Option.map_map] at hp
    unfold Queues.hqOf
    cases hq : q.envs b <;> cases hq' : q'.envs b <;> simp [hq, hq'] at hp ⊢
    exact hp
  · unfold Queues.hqOf
    rw [hw.others b hb]

/-- Where the keys count, an envelope that is in no queue may be written. -/
theorem EnvWritten.elsewhere {q' : Queues} (hw : EnvWritten a q q') (ha : keyed → q.hqOf a = none) :
    Elsewhere keyed q q' := by
  have hrest := hw.rest
  refine ⟨by rw [hrest], by rw [hrest], fun b hb => .inr (hw.isSome b ▸ hb), hw.hqOf, fun hk b hb => ?_⟩
  have hba : b ≠ a := fun h => hb (h ▸ ha hk)
  simp only [Queues.etime, Queues.prisoner, hw.others b hba, and_self]

/-- A function of `envelope.c` that leaves the id of an envelope alone. -/
def KeepsId (p : Envelope → SpoolProg (Option (Int × Envelope))) : Prop :=
  ∀ e, (p e).wlp Prog.anyAnswer (fun r _ => ∀ x, r = some x → x.2.eId = e.eId) ()

theorem envReadLock_keepsId (c : Conf) (mode : ReadMode) (version0 : Int) (dinode0 : Nat) :
    KeepsId fun e => some <$> envReadLock c mode version0 dinode0 e := by
  intro e
  have hkeep : (envReadLock c mode version0 dinode0 e).wlp Prog.anyAnswer (fun r _ => r.2.eId = e.eId) () := by
    unfold envReadLock
    refine (Prog.wlp_bind _ _ _ _ _).mpr (Prog.wlp_of_forall fun lines _ => ?_)
    cases lines with
    | none => exact rfl
    | some lines =>
      have hf := @envReadLines_fills mode e version0 dinode0 lines
      cases hr : envReadLines mode version0 dinode0 e lines with
      | error x =>
        rw [hr] at hf
        simp only [hr]
        refine (Prog.wlp_bind _ _ _ _ _).mpr (Prog.wlp_of_forall fun _ _ => ?_)
        exact FilledIn.eId hf
      | ok x =>
        rw [hr] at hf
        have hx : x.eId = e.eId := FilledIn.eId hf
        simp only [hr]
        refine (Prog.wlp_bind _ _ _ _ _).mpr (Prog.wlp_of_forall fun ok _ => ?_)
        split
        · refine (Prog.wlp_bind _ _ _ _ _).mpr (Prog.wlp_of_forall fun ok _ => ?_)
          split <;> exact hx
        · exact hx
  refine (Prog.wlp_bind _ _ _ _ _).mpr (Prog.wlp_mono (fun r _ hr => ?_) hkeep)
  intro x hx
  cases hx
  exact hr

theorem envOutfile_keepsId (c : Conf) : KeepsId (envOutfile c) :=
  fun _ => Prog.wlp_mono (fun _ _ hr x hx => (hr x hx).eId) envOutfile_rewritten

theorem onEnvelope_written {p : Envelope → SpoolProg (Option (Int × Envelope))} (hp : KeepsId p) :
    (onEnvelope a p).wlp Prog.anyAnswer True (fun _ q' _ => EnvWritten a q q') q () := by
  refine (Faulty.wlp_bind _ _).mpr (Faulty.wlp_read.mpr ⟨fun _ => trivial, fun e he => ?_⟩)
  refine (Faulty.wlp_bind _ _).mpr (wlp_file_of (hp e.toEnvelope) fun answer hid => ?_)
  cases answer with
  | none => trivial
  | some r =>
    refine (Faulty.wlp_bind _ _).mpr (Faulty.wlp_update.mpr ⟨fun _ => trivial, fun u hu => ?_⟩)
    refine envWritten_modEnv hu fun x hx => ?_
    cases he.symm.trans hx
    show (e.eHq, r.2.eId, _) = _
    rw [hid r rfl]
    rfl

/-- Steps that write the envelope, one after the other. -/
theorem wlp_written {α β : Type} {m : QueueProg α} {g : α → QueueProg β}
    (hm : m.wlp Prog.anyAnswer True (fun _ q' _ => EnvWritten a q q') q ())
    (hg : ∀ r q', (g r).wlp Prog.anyAnswer True (fun _ u _ => EnvWritten a q' u) q' ()) :
    (m >>= g).wlp Prog.anyAnswer True (fun _ u _ => EnvWritten a q u) q () :=
  Faulty.wlp_seq hm fun r q' _ h => Faulty.wlp_mono (fun _ _ _ h' => h.trans h') (hg r q')

theorem env_written : (env a).wlp Prog.anyAnswer True (fun _ q' _ => EnvWritten a q q') q () :=
  Faulty.wlp_read.mpr ⟨fun _ => trivial, fun _ _ => .refl a q⟩

theorem modEnv_written {f : QEnv → QEnv} (hf : ∀ e, (f e).place = e.place) :
    (modEnv a f).wlp Prog.anyAnswer True (fun _ q' _ => EnvWritten a q q') q () :=
  Faulty.wlp_update.mpr ⟨fun _ => trivial, fun _ hu => envWritten_modEnv hu fun e _ => hf e⟩

theorem listsAdd_written (e : Envelope) :
    (modify (Queues.listsAdd conf.toConf a e) : QueueProg PUnit).wlp Prog.anyAnswer True
      (fun _ q' _ => EnvWritten a q q') q () :=
  ⟨rfl, fun _ _ => rfl, rfl, fun ha hl => hl.listsAdd ha e⟩

/-- **The rewriting of an envelope** writes no other, and does not move it. -/
theorem jailRewrite_written {jail : Int} :
    (jailRewrite conf a jail).wlp Prog.anyAnswer True (fun _ q' _ => EnvWritten a q q') q () := by
  unfold jailRewrite
  refine (Faulty.wlp_bind _ _).mpr fun locals _ _ => ?_
  refine wlp_written (onEnvelope_written (envReadLock_keepsId _ _ _ _)) fun ret q₁ => ?_
  split
  · exact .refl a q₁
  · refine wlp_written env_written fun e q₂ => ?_
    refine wlp_written (listsAdd_written _) fun _ q₃ => ?_
    refine wlp_written (modEnv_written fun _ => rfl) fun _ q₄ => ?_
    refine wlp_written (onEnvelope_written (envOutfile_keepsId _)) fun ret q₅ => ?_
    split
    · exact .refl a q₅
    · refine wlp_written env_written fun e q₆ => ?_
      refine wlp_written (listsAdd_written _) fun _ q₇ => ?_
      exact wlp_written (modEnv_written fun _ => rfl) fun _ q₈ => .refl a q₈

/-- `env_jail_status` has nothing to do: a code that is not a jail value, or no change. -/
def JailKept (jail jail' : Int) : Prop :=
  jail' ≠ envJailPrisoner ∧ jail' ≠ envJailParolee ∨ jail ≠ envJailPrisoner ∧ jail ≠ envJailParolee ∨
    jail = jail'

theorem envJailStatus_elsewhere {env : Option Addr} {jail : Int}
    (hk : ∀ a e, env = some a → q.envs a = some e → e.eHq = none ∨ JailKept e.eJail jail) :
    (envJailStatus conf env jail).wlp Prog.anyAnswer True (fun _ q' _ => Elsewhere keyed q q') q () := by
  unfold envJailStatus
  cases env with
  | none => exact Elsewhere.refl q
  | some a =>
    dsimp only
    split
    · exact Elsewhere.refl q
    · rename_i hcode
      refine (Faulty.wlp_bind _ _).mpr (Faulty.wlp_read.mpr ⟨fun _ => trivial, fun e he => ?_⟩)
      split
      · exact Elsewhere.refl q
      · rename_i hjail
        split
        · exact Elsewhere.refl q
        · rename_i hne
          rcases hk a e rfl he with hnone | hc | hc | hc
          · rw [hnone]
            have ha : q.hqOf a = none := by simp [Queues.hqOf, he, hnone]
            exact Faulty.wlp_mono (fun _ _ _ hw => hw.elsewhere fun _ => ha) jailRewrite_written
          · exact absurd hc hcode
          · exact absurd hc hjail
          · exact absurd hc hne

theorem envTouch_written :
    (envTouch a).wlp Prog.anyAnswer True (fun _ q' _ => EnvWritten a q q') q () := by
  refine wlp_written env_written fun e q₁ => ?_
  refine (Faulty.wlp_bind _ _).mpr (wlp_file fun ok => ?_)
  cases ok with
  | false => exact .refl a q₁
  | true =>
    refine (Faulty.wlp_bind _ _).mpr (wlp_file fun now => ?_)
    cases now with
    | none => exact .refl a q₁
    | some t => exact wlp_written (modEnv_written fun _ => rfl) fun _ q₂ => .refl a q₂

end Programs

/-! ## Runs -/

/-- A call of one of the queue functions. -/
inductive QueueCall
  | envelope (a : Addr)
  | removeEnvelope (a : Option Addr)
  | timeOrder (hq : Option Addr)
  | prune (hq : Addr)
  | touch (a : Addr)
  | jailStatus (env : Option Addr) (jail : Int)

def QueueCall.prog (conf : QueueConf) : QueueCall → QueueProg PUnit
  | .envelope a => do let _ ← queueEnvelope conf a
  | .removeEnvelope a => queueRemoveEnvelope a
  | .timeOrder hq => queueTimeOrder conf hq
  | .prune hq => Faulty.update (Queues.pruneMessages hq)
  | .touch a => do let _ ← envTouch a
  | .jailStatus env jail => do let _ ← envJailStatus conf env jail

/-- The call does not write `e_etime` or `e_jail` of an envelope that is in a queue. -/
def QueueCall.Keeps (q : Queues) : QueueCall → Prop
  | .touch a => q.hqOf a = none
  | .jailStatus env jail =>
    ∀ a e, env = some a → q.envs a = some e → e.eHq = none ∨ JailKept e.eJail jail
  | _ => True

/-- A process before it has made any object. -/
def Queues.start : Queues where
  envs := fun _ => none
  hqs := fun _ => none
  fresh := 0
  hostQ := []
  unexpandedQ := none
  puntQ := none
  deliverQ := none
  envQueue := none
  diskCycle := 0
  envList := []
  senderList := []
  procStab := []
  debug := 0

/-- What a process reaches by steps of which those that are calls meet `P`. -/
inductive QueueRun (conf : QueueConf) (P : Queues → QueueCall → Prop) : Queues → Prop
  | start : QueueRun conf P .start
  | call {q q' : Queues} (hr : QueueRun conf P q) (c : QueueCall) (hc : P q c)
      (hrun : (c.prog conf).Runs Prog.anyAnswer q () ⟨⟩ q' ()) : QueueRun conf P q'
  | elsewhere {q q' : Queues} (hr : QueueRun conf P q) (h : Elsewhere True q q') : QueueRun conf P q'

theorem queueCall_sound {conf : QueueConf} {q : Queues} {keyed : Prop} {c : QueueCall} (hs : Sound keyed q)
    (hc : c.Keeps q) : (c.prog conf).wlp Prog.anyAnswer True (fun _ q' _ => Sound keyed q') q () := by
  cases c with
  | envelope a =>
    refine Faulty.wlp_seq (queueEnvelope_spec (.inl trivial)) ?_
    rintro r q' - hq
    exact hq.sound hs (by simp)
  | removeEnvelope a =>
    cases a with
    | none => exact hs
    | some a => exact Faulty.wlp_update.mpr ⟨fun _ => trivial, fun q' hq => dequeue_sound hs hq⟩
  | timeOrder hq => exact queueTimeOrder_spec hs
  | prune hq => exact Faulty.wlp_update.mpr ⟨fun _ => trivial, fun q' hq => pruneMessages_sound hs hq⟩
  | touch a => exact Faulty.wlp_seq envTouch_written fun _ q' _ h => (h.elsewhere fun _ => hc).sound hs
  | jailStatus env jail => exact Faulty.wlp_seq (envJailStatus_elsewhere hc) fun _ q' _ h => h.sound hs

theorem start_sound {keyed : Prop} : Sound keyed .start := by
  refine ⟨?_, ?_, ?_, ?_⟩
  · intro h x hx
    cases hx
  · intro a h ha
    cases ha
  · intro a e he
    cases he
  · intro h x hx
    cases hx

theorem queueRun_sound {conf : QueueConf} {q : Queues} (hr : QueueRun conf (fun q c => c.Keeps q) q) :
    Sound True q := by
  induction hr with
  | start => exact start_sound
  | call hr c hc hrun ih => exact (Faulty.wlp_iff_runs.mp (queueCall_sound ih hc)).1 _ _ _ hrun
  | elsewhere hr h ih => exact h.sound ih

/-- **Every host queue is well formed** in every state a process reaches by calls that do not write a key
    of a queued envelope. -/
theorem queueRun_hostQueues {conf : QueueConf} {q : Queues}
    (hr : QueueRun conf (fun q c => c.Keeps q) q) {h : Addr} {x : HostQ} (hx : q.hqs h = some x) :
    HostQueue q h x :=
  ((queueRun_sound hr).queue h x hx).hostQueue

/-! A message in jail is queued, and a command releases it while its Efile cannot be read. -/

/-- The answers of the calls on the files of `s`. -/
def QueueOp.onFiles (s : Spool) : (op : QueueOp) → QueueAns op
  | .file op => (spool (fun _ l => l) op s).1
  | .command op =>
    match op with
    | .dirent => .finished
    | .getline => none
    | .opendir | .closedir | .snetOpen _ | .acavAlloc | .acavParse | .snetClose | .unlink _ => true
  | .random => 0
  | .dirent _ => .finished
  | .stamp => none
  | .wildcard _ _ => false
  | .locals => (0, 0)
  | .fork => none
  | .waitpid => []

def noFiles : (op : QueueOp) → QueueAns op := QueueOp.onFiles ⟨∅, fun _ => [], 0, 0, [], 0⟩

def jailConf : QueueConf := { mailJail := true, red := ⟨false, none, none⟩ }

def jailedEnv : QEnv :=
  { envCreate jailConf.toConf .slow ['a'] (some []) none with eHostname := some ['h'] }

/-- The envelope is there, in no queue. -/
def jailStart : Queues := Queues.start.newEnv jailedEnv

theorem jailStart_elsewhere : Elsewhere True .start jailStart := by
  refine ⟨rfl, Nat.zero_le 1, fun a ha => ?_, fun a => ?_, fun _ a ha => absurd rfl ha⟩
  · by_cases h : a = 0
    · exact .inl (h ▸ Nat.zero_lt_one)
    · simp [jailStart, Queues.newEnv, Queues.start, h] at ha
  · by_cases h : a = 0 <;> simp [Queues.hqOf, jailStart, Queues.newEnv, Queues.start, jailedEnv, h]

/-- The queue with the envelope in it. -/
def jailedQueue : Option HostQ := do
  let (_, q) ← ((QueueCall.envelope 0).prog jailConf).eval noFiles jailStart
  q.hqs 2

theorem queueRun_hostQueues_jailed : ∃ q x, q.hqs 2 = some x ∧ HostQueue q 2 x ∧
    x.hqEntries = 1 ∧ x.hqJailEnvs = 1 := by
  have hcounts : jailedQueue.map (fun x => (x.hqEntries, x.hqJailEnvs)) = some (1, 1) := by decide
  unfold jailedQueue at hcounts
  obtain ⟨x, hx, hcount⟩ := Option.map_eq_some_iff.mp hcounts
  obtain ⟨⟨_, q₁⟩, h₁, hx⟩ := Option.bind_eq_some_iff.mp hx
  simp only [Prod.mk.injEq] at hcount
  have hr₁ : QueueRun jailConf (fun q c => c.Keeps q) q₁ :=
    .call (.elsewhere .start jailStart_elsewhere) (.envelope 0) trivial (Faulty.runs_of_eval h₁)
  exact ⟨q₁, x, hx, queueRun_hostQueues hr₁ hx, hcount.1, hcount.2⟩

/-- The queue after the envelope has been queued and released. -/
def releasedQueue : Option HostQ := do
  let (_, q) ← ((QueueCall.envelope 0).prog jailConf).eval noFiles jailStart
  let (_, q) ← ((QueueCall.jailStatus (some 0) envJailParolee).prog jailConf).eval noFiles q
  q.hqs 2

theorem releasedQueue_counts :
    releasedQueue.map (fun x => (x.hqEntries, x.hqJailEnvs, x.hqEnvHead)) = some (1, 2, [0]) := by
  decide

theorem release_miscounts : ∃ conf q h x, QueueRun conf (fun _ _ => True) q ∧ q.hqs h = some x ∧
    ¬ HostQueue q h x := by
  have hcounts := releasedQueue_counts
  unfold releasedQueue at hcounts
  obtain ⟨x, hx, hcount⟩ := Option.map_eq_some_iff.mp hcounts
  obtain ⟨⟨_, q₁⟩, h₁, hx⟩ := Option.bind_eq_some_iff.mp hx
  obtain ⟨⟨_, q₂⟩, h₂, hx⟩ := Option.bind_eq_some_iff.mp hx
  simp only [Prod.mk.injEq] at hcount
  have hr₁ : QueueRun jailConf (fun _ _ => True) q₁ :=
    .call (.elsewhere .start jailStart_elsewhere) (.envelope 0) trivial (Faulty.runs_of_eval h₁)
  refine ⟨jailConf, q₂, 2, x, .call hr₁ (.jailStatus (some 0) envJailParolee) trivial
    (Faulty.runs_of_eval h₂), hx, fun hq => ?_⟩
  have hj := hq.jail
  have hle := List.countP_le_length (p := q₂.prisoner) (l := x.hqEnvHead)
  rw [hcount.2.1] at hj
  rw [hcount.2.2] at hj hle
  simp only [List.length_singleton] at hle
  omega

end Simta
