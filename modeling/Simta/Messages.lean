import Simta.DiskScan

/-!
# The list of all messages

The ring `simta_env_queue`, the host queues and the queue of unexpanded messages hold the same envelopes,
each with its own id.

* `Messages` — the invariant; `seen` are the ids of the Efiles read in the cycle;
* `Settled` — a step that leaves all of this alone;
* `known_eq` — the walk round the ring ends, and finds the envelope of an id;
* `ringInsert_messages`, `seen_messages` — an Efile is read; `pruneMessages_messages` — a queue is pruned.
-/

set_option autoImplicit false

namespace Simta

open QueueProg

namespace Queues

/-- The links in the ring, the id and the cycle of an envelope. -/
def listNext (q : Queues) (a : Addr) : Option Addr := (q.envs a).bind fun e => e.eListNext
def listPrev (q : Queues) (a : Addr) : Option Addr := (q.envs a).bind fun e => e.eListPrev
def idOf (q : Queues) (a : Addr) : Text := ((q.envs a).map fun e => e.eId).getD []
def cycleOf (q : Queues) (a : Addr) : Int := ((q.envs a).map fun e => e.eCycle).getD 0

/-- A host queue that messages may be in: one of the list, or that of unexpanded messages. -/
def Names (q : Queues) (h : Addr) : Prop := h ∈ q.hostQ ∨ q.unexpandedQ = some h

end Queues

/-- The host queues that the globals name hold all the messages, and all that is on the schedule; the lists
    name no message that was freed. -/
structure HostsNamed (q : Queues) : Prop where
  sound : Sound False q
  there : HostsThere q
  nodup : q.hostQ.Nodup
  apart : ∀ h, q.unexpandedQ = some h → h ∉ q.hostQ
  placed : ∀ a h, q.hqOf a = some h → q.Names h
  scheduled : ∀ h x, q.hqs h = some x → x.hqNextLaunch ≠ 0 → q.Names h
  lists : q.ListsLive

/-- **The messages are the list `l`**: the ring consists of the envelopes that are in a queue, but for the one
    in `out`; no two have one id, and those of the running cycle are the ones whose id is in `seen`. -/
structure Messages (seen : Set Text) (out : Option Addr) (q : Queues) (l : List Addr) : Prop where
  hosts : HostsNamed q
  ring : Ring q.listNext q.listPrev q.envQueue l
  mem : ∀ a, a ∈ l ↔ q.hqOf a ≠ none ∧ out ≠ some a
  ids : (l.map q.idOf).Nodup
  cycle : ∀ a ∈ l, q.cycleOf a ≤ q.diskCycle
  scanned : ∀ a ∈ l, q.cycleOf a = q.diskCycle ↔ q.idOf a ∈ seen

/-- What the messages need of a host queue. -/
def HostQ.holding (x : HostQ) : List Addr × Int := (x.hqEnvHead, x.hqEntries)

/-- The host queues keep what they hold. -/
structure HostsKept (q q' : Queues) : Prop where
  hostQ : q'.hostQ = q.hostQ
  unexpandedQ : q'.unexpandedQ = q.unexpandedQ
  fresh : q.fresh ≤ q'.fresh
  hqs : ∀ h, (q'.hqs h).map HostQ.holding = (q.hqs h).map HostQ.holding
  hqOf : ∀ a, q'.hqOf a = q.hqOf a
  bound : ∀ a, (q'.envs a).isSome → q.fresh ≤ a ∧ a < q'.fresh ∨ (q.envs a).isSome
  scheduled : ∀ h x, q'.hqs h = some x → x.hqNextLaunch ≠ 0 →
    (∃ y, q.hqs h = some y ∧ y.hqNextLaunch ≠ 0) ∨ q.Names h
  lists : q.ListsLive → q'.ListsLive

/-- The messages are left alone: they keep their place, and the host queues what they hold. -/
structure Settled (q q' : Queues) : Prop where
  hosts : HostsKept q q'
  envQueue : q'.envQueue = q.envQueue
  diskCycle : q'.diskCycle = q.diskCycle
  envs : ∀ a, q.hqOf a ≠ none → (q'.envs a).map QEnv.place = (q.envs a).map QEnv.place

section Messages

variable {seen : Set Text} {out : Option Addr} {q q' : Queues} {l : List Addr} {a h : Addr} {x y : HostQ}

/-! ## Steps that leave the messages alone -/

theorem place_eq {e e' : QEnv} (he : e'.place = e.place) : e'.eHq = e.eHq ∧ e'.eId = e.eId ∧
    e'.eCycle = e.eCycle ∧ e'.eListNext = e.eListNext ∧ e'.eListPrev = e.eListPrev := by
  simpa only [QEnv.place, Prod.mk.injEq] using he

/-- What an envelope that has kept its place shows. -/
theorem place_reads (hp : (q'.envs a).map QEnv.place = (q.envs a).map QEnv.place) :
    q'.hqOf a = q.hqOf a ∧ q'.idOf a = q.idOf a ∧ q'.cycleOf a = q.cycleOf a ∧
      q'.listNext a = q.listNext a ∧ q'.listPrev a = q.listPrev a := by
  unfold Queues.hqOf Queues.idOf Queues.cycleOf Queues.listNext Queues.listPrev
  cases he : q.envs a with
  | none =>
    rw [he] at hp
    rw [Option.map_eq_none_iff.mp hp]
    exact ⟨rfl, rfl, rfl, rfl, rfl⟩
  | some e =>
    rw [he] at hp
    obtain ⟨e', he', hee⟩ := Option.map_eq_some_iff.mp hp
    obtain ⟨h₁, h₂, h₃, h₄, h₅⟩ := place_eq hee
    rw [he']
    exact ⟨h₁, congrArg (fun i => (some i).getD []) h₂, congrArg (fun c => (some c).getD 0) h₃, h₄, h₅⟩

theorem HostsKept.refl (q : Queues) : HostsKept q q :=
  ⟨rfl, rfl, le_refl _, fun _ => rfl, fun _ => rfl, fun _ h => .inr h, fun _ x hx hn => .inl ⟨x, hx, hn⟩, id⟩

theorem HostsKept.names (hk : HostsKept q q') (h : Addr) : q'.Names h ↔ q.Names h := by
  unfold Queues.Names
  rw [hk.hostQ, hk.unexpandedQ]

theorem HostsKept.trans {u : Queues} (h₁ : HostsKept q q') (h₂ : HostsKept q' u) : HostsKept q u := by
  refine ⟨h₂.hostQ.trans h₁.hostQ, h₂.unexpandedQ.trans h₁.unexpandedQ, le_trans h₁.fresh h₂.fresh,
    fun h => (h₂.hqs h).trans (h₁.hqs h), fun a => (h₂.hqOf a).trans (h₁.hqOf a), fun a ha => ?_,
    fun h x hx hn => ?_, fun hl => h₂.lists (h₁.lists hl)⟩
  · rcases h₂.bound a ha with ⟨hle, hlt⟩ | ha
    · exact .inl ⟨le_trans h₁.fresh hle, hlt⟩
    · exact (h₁.bound a ha).imp_left fun hlt => ⟨hlt.1, lt_of_lt_of_le hlt.2 h₂.fresh⟩
  · rcases h₂.scheduled h x hx hn with ⟨y, hy, hny⟩ | hnames
    · exact h₁.scheduled h y hy hny
    · exact .inr ((h₁.names h).mp hnames)

/-- A host queue behind such a step, from the one before it. -/
theorem HostsKept.some_of_some (hk : HostsKept q q') (hy : q'.hqs h = some y) :
    ∃ x, q.hqs h = some x ∧ y.hqEnvHead = x.hqEnvHead ∧ y.hqEntries = x.hqEntries := by
  have hh := hk.hqs h
  rw [hy] at hh
  obtain ⟨x, hx, hxy⟩ := Option.map_eq_some_iff.mp hh.symm
  simp only [HostQ.holding, Prod.mk.injEq] at hxy
  exact ⟨x, hx, hxy.1.symm, hxy.2.symm⟩

theorem HostsKept.isSome (hk : HostsKept q q') (h : Addr) : (q'.hqs h).isSome = (q.hqs h).isSome := by
  have hh := congrArg Option.isSome (hk.hqs h)
  simpa using hh

theorem HostsNamed.kept (hn : HostsNamed q) (hk : HostsKept q q') : HostsNamed q' := by
  refine ⟨⟨fun h y hy => ?_, fun a h ha => ?_, fun a e he => ?_, fun h y hy => ?_⟩, ⟨fun h hh => ?_, fun h hh => ?_⟩,
    ?_, fun h hh => ?_, fun a h ha => ?_, fun h x hx hnext => ?_, hk.lists hn.lists⟩
  · obtain ⟨x, hx, hlist, hentries⟩ := hk.some_of_some hy
    have hold := hn.sound.queue h x hx
    refine ⟨?_, False.elim, fun a => ?_, ?_, False.elim⟩
    · rw [hentries, hlist]
      exact hold.entries
    · rw [hlist, hk.hqOf]
      exact hold.mem_iff a
    · rw [hlist]
      exact hold.nodup
  · rw [hk.isSome]
    exact hn.sound.linked a h (hk.hqOf a ▸ ha)
  · rcases hk.bound a (Option.isSome_of_eq_some he) with hlt | ha
    · exact hlt.2
    · obtain ⟨e', he'⟩ := Option.isSome_iff_exists.mp ha
      exact lt_of_lt_of_le (hn.sound.envBound a e' he') hk.fresh
  · obtain ⟨x, hx, -⟩ := hk.some_of_some hy
    exact lt_of_lt_of_le (hn.sound.hqBound h x hx) hk.fresh
  · rw [hk.isSome]
    exact hn.there.hostQ h (hk.hostQ ▸ hh)
  · rw [hk.isSome]
    exact hn.there.unexpanded h (hk.unexpandedQ ▸ hh)
  · rw [hk.hostQ]
    exact hn.nodup
  · rw [hk.hostQ]
    exact hn.apart h (hk.unexpandedQ ▸ hh)
  · exact (hk.names h).mpr (hn.placed a h (hk.hqOf a ▸ ha))
  · rcases hk.scheduled h x hx hnext with ⟨y, hy, hny⟩ | hnames
    · exact (hk.names h).mpr (hn.scheduled h y hy hny)
    · exact (hk.names h).mpr hnames

theorem Settled.refl (q : Queues) : Settled q q := ⟨.refl q, rfl, rfl, fun _ _ => rfl⟩

theorem Settled.trans {u : Queues} (h₁ : Settled q q') (h₂ : Settled q' u) : Settled q u :=
  ⟨h₁.hosts.trans h₂.hosts, h₂.envQueue.trans h₁.envQueue, h₂.diskCycle.trans h₁.diskCycle, fun a ha =>
    (h₂.envs a (by rw [h₁.hosts.hqOf]; exact ha)).trans (h₁.envs a ha)⟩

/-- The messages are read off the members of the list. -/
theorem Messages.settled (hm : Messages seen out q l) (hs : Settled q q') : Messages seen out q' l := by
  have hread : ∀ a ∈ l, q'.hqOf a = q.hqOf a ∧ q'.idOf a = q.idOf a ∧ q'.cycleOf a = q.cycleOf a ∧
      q'.listNext a = q.listNext a ∧ q'.listPrev a = q.listPrev a := fun a ha =>
    place_reads (hs.envs a ((hm.mem a).mp ha).1)
  refine ⟨hm.hosts.kept hs.hosts, ?_, fun a => ?_, ?_, fun a ha => ?_, fun a ha => ?_⟩
  · rw [hs.envQueue]
    exact hm.ring.congr (fun a ha => (hread a ha).2.2.2.1) fun a ha => (hread a ha).2.2.2.2
  · rw [hs.hosts.hqOf]
    exact hm.mem a
  · rw [List.map_congr_left fun a ha => (hread a ha).2.1]
    exact hm.ids
  · rw [(hread a ha).2.2.1, hs.diskCycle]
    exact hm.cycle a ha
  · rw [(hread a ha).2.2.1, (hread a ha).2.1, hs.diskCycle]
    exact hm.scanned a ha

theorem hqOf_of_envs (henvs : q'.envs = q.envs) (b : Addr) : q'.hqOf b = q.hqOf b := by
  unfold Queues.hqOf
  rw [henvs]

theorem hostsKept_of_heap (henvs : q'.envs = q.envs) (hhqs : q'.hqs = q.hqs) (hfresh : q'.fresh = q.fresh)
    (hhostQ : q'.hostQ = q.hostQ) (hun : q'.unexpandedQ = q.unexpandedQ) (hlists : q.ListsLive → q'.ListsLive) :
    HostsKept q q' :=
  ⟨hhostQ, hun, le_of_eq hfresh.symm, fun h => by rw [hhqs], hqOf_of_envs henvs, fun a ha => .inr (henvs ▸ ha),
    fun h x hx hn => .inl ⟨x, hhqs ▸ hx, hn⟩, hlists⟩

theorem settled_of_heap (henvs : q'.envs = q.envs) (hhqs : q'.hqs = q.hqs) (hfresh : q'.fresh = q.fresh)
    (hhostQ : q'.hostQ = q.hostQ) (hun : q'.unexpandedQ = q.unexpandedQ) (hring : q'.envQueue = q.envQueue)
    (hdisk : q'.diskCycle = q.diskCycle) (hlists : q.ListsLive → q'.ListsLive) : Settled q q' :=
  ⟨hostsKept_of_heap henvs hhqs hfresh hhostQ hun hlists, hring, hdisk, fun a _ => by rw [henvs]⟩

/-- A host queue is written, but not what it holds. -/
theorem settled_setHq (hx : q.hqs h = some x) (hy : y.holding = x.holding)
    (hn : y.hqNextLaunch ≠ 0 → x.hqNextLaunch ≠ 0 ∨ q.Names h) : Settled q (q.setHq h (some y)) := by
  refine ⟨⟨rfl, rfl, le_refl _, fun k => ?_, fun _ => rfl, fun _ h => .inr h, fun k z hz hnext => ?_,
    fun hl => hl.of_envs (fun _ h => h) rfl rfl⟩, rfl, rfl, fun _ _ => rfl⟩
  · rw [Queues.setHq_hqs]
    split
    · rename_i hk
      rw [hk, hx, Option.map_some, Option.map_some, hy]
    · rfl
  · rw [Queues.setHq_hqs] at hz
    split at hz
    · rename_i hk
      cases hz
      subst hk
      exact (hn hnext).imp_left fun hnx => ⟨x, hx, hnx⟩
    · exact .inl ⟨z, hz, hnext⟩

theorem settled_modHq {f : HostQ → HostQ} (hq : q.modHq h f = some q') (hf : ∀ x, (f x).holding = x.holding)
    (hn : ∀ x, (f x).hqNextLaunch ≠ 0 → x.hqNextLaunch ≠ 0 ∨ q.Names h) : Settled q q' := by
  obtain ⟨x, hx, rfl⟩ := Option.map_eq_some_iff.mp hq
  exact settled_setHq hx (hf x) (hn x)

theorem EnvWritten.settled (hw : EnvWritten a q q') (ha : (q.envs a).isSome) : Settled q q' := by
  have hrest := hw.rest
  refine ⟨⟨by rw [hrest], by rw [hrest], by rw [hrest], fun h => by rw [hrest], hw.hqOf,
    fun b hb => .inr (hw.isSome b ▸ hb), fun h x hx hn => .inl ⟨x, ?_, hn⟩, hw.lists ha⟩, by rw [hrest], by rw [hrest],
    fun b _ => ?_⟩
  · rw [hrest] at hx
    exact hx
  · by_cases hb : b = a
    · rw [hb]
      exact hw.place
    · rw [hw.others b hb]

/-- A new envelope. -/
theorem settled_newEnv {e : QEnv} (hb : ∀ a e, q.envs a = some e → a < q.fresh) (he : e.eHq = none) :
    Settled q (q.newEnv e) := by
  have hnone : q.envs q.fresh = none := by
    cases hq : q.envs q.fresh with
    | none => rfl
    | some e' => exact absurd (hb _ e' hq) (lt_irrefl _)
  have henvs : ∀ b, (q.newEnv e).envs b = if b = q.fresh then some e else q.envs b := fun _ => rfl
  have hhqOf : ∀ b, (q.newEnv e).hqOf b = q.hqOf b := fun b => by
    unfold Queues.hqOf
    rw [henvs]
    split
    · rename_i hbf
      rw [hbf, hnone]
      exact he
    · rfl
  refine ⟨⟨rfl, rfl, Nat.le_succ _, fun _ => rfl, hhqOf, fun b hs => ?_, fun h x hx hn => .inl ⟨x, hx, hn⟩,
    fun hl => hl.of_envs (fun b hb => ?_) rfl rfl⟩, rfl, rfl, fun b hbq => ?_⟩
  · rw [henvs] at hs
    split at hs
    · rename_i hbf
      exact .inl ⟨le_of_eq hbf.symm, hbf ▸ Nat.lt_succ_self _⟩
    · exact .inr hs
  · rw [henvs]
    split
    · rfl
    · exact hb
  · rw [henvs, if_neg]
    rintro rfl
    simp [Queues.hqOf, hnone] at hbq

/-- An envelope in no queue is freed. -/
theorem settled_freeEnv (ha : q.hqOf a = none) : Settled q (q.freeEnv a) := by
  have hhqOf : ∀ b, (q.freeEnv a).hqOf b = q.hqOf b := fun b => by
    by_cases hb : b = a
    · rw [hb, ha]
      simp [Queues.hqOf]
    · simp [Queues.hqOf, hb]
  refine ⟨⟨rfl, rfl, le_refl _, fun _ => rfl, hhqOf, fun b hs => ?_, fun h x hx hn => .inl ⟨x, hx, hn⟩,
    fun hl => hl.freeEnv a⟩, rfl, rfl, fun b hb => ?_⟩
  · rw [Queues.freeEnv_envs] at hs
    split at hs
    · cases hs
    · exact .inr hs
  · have hba : b ≠ a := fun h => hb (h ▸ ha)
    rw [Queues.freeEnv_envs, if_neg hba]

/-! ## The walk round the ring -/

theorem Messages.isSome (hm : Messages seen out q l) (ha : a ∈ l) : (q.envs a).isSome := by
  obtain ⟨h, hh⟩ := Option.ne_none_iff_exists'.mp ((hm.mem a).mp ha).1
  exact isSome_of_hqOf hh

theorem Messages.length_le (hm : Messages seen out q l) : l.length ≤ q.fresh :=
  length_le_of_bound hm.ring.nodup fun a ha => by
    obtain ⟨e, he⟩ := Option.isSome_iff_exists.mp (hm.isSome ha)
    exact hm.hosts.sound.envBound a e he

/-- The walk from a cell on: the cells behind it up to the head. -/
theorem ringFind_eq (hr : Ring q.listNext q.listPrev q.envQueue l) (hlive : ∀ a ∈ l, (q.envs a).isSome)
    (id : Text) {l₁ l₂ : List Addr} {n : Nat} (hl : l = l₁ ++ a :: l₂) (hn : l₂.length < n) :
    q.ringFind id n a = some ((a :: l₂).find? fun b => q.idOf b = id) := by
  induction l₂ generalizing l₁ a n with
  | nil =>
    cases n with
    | zero => cases hn
    | succ n =>
      subst hl
      obtain ⟨e, he⟩ := Option.isSome_iff_exists.mp (hlive a (by simp))
      have hid : q.idOf a = e.eId := by simp [Queues.idOf, he]
      have hnext : e.eListNext = (l₁ ++ [a]).head? := by
        have h := hr.next_eq
        simp only [Queues.listNext, he, Option.bind_some] at h
        rw [h]
        cases l₁ <;> rfl
      simp only [Queues.ringFind, he, Option.bind_eq_bind, Option.bind_some, List.find?_singleton, hid]
      split
      · simp [*]
      · rename_i hne
        rw [hnext, hr.head]
        cases l₁ <;> simp [hne]
  | cons c l₂ ih =>
    cases n with
    | zero => cases hn
    | succ n =>
      have hrest := @ih c (l₁ ++ [a]) n (by rw [hl]; simp) (by simpa using hn)
      subst hl
      obtain ⟨e, he⟩ := Option.isSome_iff_exists.mp (hlive a (by simp))
      have hid : q.idOf a = e.eId := by simp [Queues.idOf, he]
      have hnext : e.eListNext = some c := by
        have h := hr.next_eq
        simpa [Queues.listNext, he] using h
      -- the walk is not back at the head, since no cell comes twice
      have hhead : q.envQueue ≠ some c := by
        intro hc
        rw [hr.head] at hc
        have hd := hr.nodup
        cases l₁ with
        | nil =>
          cases hc
          simp at hd
        | cons d t =>
          cases hc
          simp at hd
      simp only [Queues.ringFind, he, Option.bind_eq_bind, Option.bind_some, hnext, List.find?_cons, hid]
      by_cases hide : e.eId = id
      · simp [hide]
      · rw [if_neg hide, if_neg hhead, hrest]
        simp [hide, List.find?_cons]

/-- **The walk round the ring ends**, at the envelope of the id if there is one. -/
theorem known_eq (hm : Messages seen out q l) (id : Text) :
    q.known id = some (l.find? fun a => q.idOf a = id) := by
  unfold Queues.known
  rw [hm.ring.head]
  cases l with
  | nil => rfl
  | cons f t =>
    have hlen := hm.length_le
    simp only [List.length_cons] at hlen
    exact ringFind_eq hm.ring (fun a ha => hm.isSome ha) id (List.nil_append (f :: t)).symm (by omega)

/-! ## The links of the ring -/

/-- The links that a step leaves, and nothing else is written. -/
structure RingLinks (next prev : Addr → Option Addr) (head : Option Addr) (q q' : Queues) : Prop where
  relinked : Relinked q q'
  head : q'.envQueue = head
  next : ∀ b, q'.listNext b = next b
  prev : ∀ b, q'.listPrev b = prev b

theorem modEnv_of_some {f : QEnv → QEnv} {e : QEnv} (he : q.envs a = some e) :
    q.modEnv a f = some (q.setEnv a (some (f e))) := by
  unfold Queues.modEnv
  rw [he]
  rfl

theorem modEnv_links {f : QEnv → QEnv} {n p : Option Addr} (ha : (q.envs a).isSome)
    (hf : ∀ e, (f e).unlinked = e.unlinked) (hn : ∀ e, q.envs a = some e → (f e).eListNext = n)
    (hp : ∀ e, q.envs a = some e → (f e).eListPrev = p) : ∃ q', q.modEnv a f = some q' ∧
      RingLinks (fun b => if b = a then n else q.listNext b) (fun b => if b = a then p else q.listPrev b)
        q.envQueue q q' := by
  obtain ⟨e, he⟩ := Option.isSome_iff_exists.mp ha
  refine ⟨_, modEnv_of_some he, relinked_modEnv (modEnv_of_some he) hf, rfl, fun b => ?_, fun b => ?_⟩
  · unfold Queues.listNext
    rw [Queues.setEnv_envs]
    split
    · exact hn e he
    · rfl
  · unfold Queues.listPrev
    rw [Queues.setEnv_envs]
    split
    · exact hp e he
    · rfl

theorem Relinked.isSome (hr : Relinked q q') (b : Addr) : (q'.envs b).isSome = (q.envs b).isSome := by
  have h := congrArg Option.isSome (hr.envs b)
  simpa using h

theorem listNext_of_some {e : QEnv} (he : q.envs a = some e) : q.listNext a = e.eListNext := by
  simp [Queues.listNext, he]

theorem listPrev_of_some {e : QEnv} (he : q.envs a = some e) : q.listPrev a = e.eListPrev := by
  simp [Queues.listPrev, he]

/-- `e_list_next` of one envelope is written. -/
theorem setListNext_links {v : Option Addr} (ha : (q.envs a).isSome) :
    ∃ q', (q.modEnv a fun e => { e with eListNext := v }) = some q' ∧
      RingLinks (fun b => if b = a then v else q.listNext b) q.listPrev q.envQueue q q' := by
  obtain ⟨q', hq', hr⟩ := @modEnv_links q a (fun e => { e with eListNext := v }) v (q.listPrev a) ha
    (fun _ => rfl) (fun _ _ => rfl) fun e he => (listPrev_of_some he).symm
  refine ⟨q', hq', hr.relinked, hr.head, hr.next, fun b => ?_⟩
  rw [hr.prev]
  split
  · rename_i hb
    rw [hb]
  · rfl

/-- `e_list_prev` of one envelope is written. -/
theorem setListPrev_links {v : Option Addr} (ha : (q.envs a).isSome) :
    ∃ q', (q.modEnv a fun e => { e with eListPrev := v }) = some q' ∧
      RingLinks q.listNext (fun b => if b = a then v else q.listPrev b) q.envQueue q q' := by
  obtain ⟨q', hq', hr⟩ := @modEnv_links q a (fun e => { e with eListPrev := v }) (q.listNext a) v ha
    (fun _ => rfl) (fun e he => (listNext_of_some he).symm) fun _ _ => rfl
  refine ⟨q', hq', hr.relinked, hr.head, fun b => ?_, hr.prev⟩
  rw [hr.next]
  split
  · rename_i hb
    rw [hb]
  · rfl

/-- **What the unlinking of an envelope leaves of the links.** -/
theorem ringRemove_links {n p : Addr} (ha : (q.envs a).isSome) (hn : q.listNext a = some n)
    (hp : q.listPrev a = some p) (hnlive : (q.envs n).isSome) (hplive : (q.envs p).isSome) :
    ∃ q', q.ringRemove a = some q' ∧ RingLinks
      (fun b => if b = a then none else if b = p then some n else q.listNext b)
      (fun b => if b = a then none else if b = n then some p else q.listPrev b)
      (if q.envQueue = some a then if n = a then none else some n else q.envQueue) q q' := by
  obtain ⟨e, he⟩ := Option.isSome_iff_exists.mp ha
  rw [listNext_of_some he] at hn
  rw [listPrev_of_some he] at hp
  obtain ⟨q₁, heq₁, hr₁⟩ := @setListPrev_links q n e.eListPrev hnlive
  obtain ⟨e₁, he₁⟩ := Option.isSome_iff_exists.mp ((hr₁.relinked.isSome a).trans ha)
  have hn₁ : e₁.eListNext = some n := by
    rw [← listNext_of_some he₁, hr₁.next, listNext_of_some he, hn]
  have hp₁ : e₁.eListPrev = some p := by
    rw [← listPrev_of_some he₁, hr₁.prev, listPrev_of_some he, hp]
    split <;> rfl
  obtain ⟨q₂, heq₂, hr₂⟩ := @setListNext_links q₁ p e₁.eListNext ((hr₁.relinked.isSome p).trans hplive)
  obtain ⟨e₂, he₂⟩ := Option.isSome_iff_exists.mp ((hr₂.relinked.isSome a).trans ((hr₁.relinked.isSome a).trans ha))
  have hn₂ : e₂.eListNext = some n := by
    rw [← listNext_of_some he₂, hr₂.next, listNext_of_some he₁, hn₁]
    split <;> rfl
  have hhead₂ : q₂.envQueue = q.envQueue := hr₂.head.trans hr₁.head
  -- the head moves on, and the envelope loses its links
  obtain ⟨q₃, hq₃, hrel₃, hhead₃, hnext₃, hprev₃⟩ : ∃ q₃ : Queues,
      q₃ = (if q₂.envQueue = some a then
        { q₂ with envQueue := if e₂.eListNext = some a then none else e₂.eListNext } else q₂) ∧
      Relinked q₂ q₃ ∧
      q₃.envQueue = (if q.envQueue = some a then if n = a then none else some n else q.envQueue) ∧
      q₃.listNext = q₂.listNext ∧ q₃.listPrev = q₂.listPrev := by
    refine ⟨_, rfl, ?_⟩
    rw [hhead₂, hn₂]
    split
    · exact ⟨⟨rfl, fun _ => rfl⟩, by simp, rfl, rfl⟩
    · exact ⟨.refl q₂, hhead₂, rfl, rfl⟩
  obtain ⟨q₄, heq₄, hr₄⟩ := @modEnv_links q₃ a (fun e => { e with eListNext := none, eListPrev := none }) none none
    ((hrel₃.isSome a).trans (Option.isSome_of_eq_some he₂)) (fun _ => rfl) (fun _ _ => rfl) fun _ _ => rfl
  refine ⟨q₄, ?_, ((hr₁.relinked.trans hr₂.relinked).trans hrel₃).trans hr₄.relinked, hr₄.head.trans hhead₃,
    fun b => ?_, fun b => ?_⟩
  · simp only [Queues.ringRemove, he, hn, heq₁, he₁, hp₁, heq₂, he₂, ← hq₃, heq₄, Option.bind_eq_bind,
      Option.bind_some]
  · rw [hr₄.next, hnext₃, hr₂.next, hr₁.next, hn₁]
  · rw [hr₄.prev, hprev₃, hr₂.prev, hr₁.prev, hp]

/-- **Unlinking an envelope** of the ring. -/
theorem ringRemove_ring {l₁ l₂ : List Addr} (hr : Ring q.listNext q.listPrev q.envQueue (l₁ ++ a :: l₂))
    (hlive : ∀ b ∈ l₁ ++ a :: l₂, (q.envs b).isSome) : ∃ q', q.ringRemove a = some q' ∧ Relinked q q' ∧
      Ring q'.listNext q'.listPrev q'.envQueue (l₁ ++ l₂) := by
  have hrest : ∀ b ∈ l₂ ++ l₁, b ∈ l₁ ++ a :: l₂ := fun b hb => by
    simp only [List.mem_append, List.mem_cons] at hb ⊢
    tauto
  obtain ⟨n, hn⟩ : ∃ n, (l₂ ++ l₁).head?.or (some a) = some n := by
    cases (l₂ ++ l₁).head? <;> exact ⟨_, rfl⟩
  obtain ⟨p, hp⟩ : ∃ p, (l₂ ++ l₁).getLast?.or (some a) = some p := by
    cases (l₂ ++ l₁).getLast? <;> exact ⟨_, rfl⟩
  have hnmem : n ∈ l₁ ++ a :: l₂ := by
    cases h : (l₂ ++ l₁).head? with
    | none =>
      rw [h] at hn
      cases hn
      simp
    | some c =>
      rw [h] at hn
      cases hn
      exact hrest _ (List.mem_of_mem_head? h)
  have hpmem : p ∈ l₁ ++ a :: l₂ := by
    cases h : (l₂ ++ l₁).getLast? with
    | none =>
      rw [h] at hp
      cases hp
      simp
    | some c =>
      rw [h] at hp
      cases hp
      exact hrest _ (List.mem_of_getLast? h)
  obtain ⟨q', hq', hlinks⟩ := ringRemove_links (hlive a (by simp)) (hr.next_eq.trans hn) (hr.prev_eq.trans hp)
    (hlive n hnmem) (hlive p hpmem)
  refine ⟨q', hq', hlinks.relinked, hr.remove (fun b hb => ?_) (fun b hb => ?_) ?_⟩
  · -- the one before it is the last of the others
    rw [hlinks.next, if_neg hb]
    cases h : (l₂ ++ l₁).getLast? with
    | none =>
      rw [h] at hp
      cases hp
      simp [hb]
    | some c =>
      rw [h] at hp
      cases hp
      have hne : l₂ ++ l₁ ≠ [] := fun he => by simp [he] at h
      obtain ⟨d, t, hd⟩ := List.exists_cons_of_ne_nil hne
      rw [hd] at hn ⊢
      cases hn
      simp [eq_comm]
  · rw [hlinks.prev, if_neg hb]
    cases h : (l₂ ++ l₁).head? with
    | none =>
      rw [h] at hn
      cases hn
      simp [hb]
    | some c =>
      rw [h] at hn
      cases hn
      cases h' : (l₂ ++ l₁).getLast? with
      | none =>
        have hnil := List.getLast?_eq_none_iff.mp h'
        rw [hnil] at h
        cases h
      | some d =>
        rw [h'] at hp
        cases hp
        simp [eq_comm]
  · rw [hlinks.head, hr.head]
    cases l₁ with
    | nil =>
      cases l₂ with
      | nil =>
        cases hn
        simp
      | cons c t =>
        cases hn
        have hna : n ≠ a := fun hna => by
          have hd := hr.nodup
          simp [hna] at hd
        simp [hna]
    | cons c t =>
      have hca : c ≠ a := fun hca => by
        have hd := hr.nodup
        simp [hca] at hd
      simp [hca]

/-- **Linking an envelope in** before the head of the ring. -/
theorem ringInsert_ring (hr : Ring q.listNext q.listPrev q.envQueue l) (hlive : ∀ b ∈ l, (q.envs b).isSome)
    (ha : (q.envs a).isSome) (hmem : a ∉ l) : ∃ q', q.ringInsert a = some q' ∧ Relinked q q' ∧
      Ring q'.listNext q'.listPrev q'.envQueue (a :: l) := by
  unfold Queues.ringInsert
  rw [hr.head]
  cases l with
  | nil =>
    obtain ⟨q', hq', hlinks⟩ := @modEnv_links { q with envQueue := some a } a
      (fun e => { e with eListNext := some a, eListPrev := some a }) (some a) (some a) ha (fun _ => rfl)
      (fun _ _ => rfl) fun _ _ => rfl
    have hhead : Relinked q { q with envQueue := some a } := ⟨rfl, fun _ => rfl⟩
    refine ⟨q', hq', hhead.trans hlinks.relinked, ?_⟩
    rw [hlinks.head]
    refine Ring.singleton ?_ ?_
    · rw [hlinks.next, if_pos rfl]
    · rw [hlinks.prev, if_pos rfl]
  | cons f t =>
    obtain ⟨x, hx⟩ := Option.isSome_iff_exists.mp (hlive f List.mem_cons_self)
    have hfa : f ≠ a := fun h => hmem (h ▸ List.mem_cons_self)
    obtain ⟨p, hp⟩ : ∃ p, (f :: t).getLast? = some p := ⟨_, List.getLast?_cons⟩
    have hpmem : p ∈ f :: t := List.mem_of_getLast? hp
    have hpa : p ≠ a := fun h => hmem (h ▸ hpmem)
    have hprev : x.eListPrev = some p := by
      rw [← listPrev_of_some hx, hr.segment.prev_head rfl, hp]
    obtain ⟨q₁, heq₁, hr₁⟩ := @modEnv_links q a (fun e => { e with eListNext := some f, eListPrev := x.eListPrev })
      (some f) (some p) ha (fun _ => rfl) (fun _ _ => rfl) fun _ _ => hprev
    obtain ⟨x₁, hx₁⟩ := Option.isSome_iff_exists.mp ((hr₁.relinked.isSome f).trans (Option.isSome_of_eq_some hx))
    have hprev₁ : x₁.eListPrev = some p := by
      rw [← listPrev_of_some hx₁, hr₁.prev, if_neg hfa, listPrev_of_some hx, hprev]
    obtain ⟨q₂, heq₂, hr₂⟩ := @setListNext_links q₁ p (some a) ((hr₁.relinked.isSome p).trans (hlive p hpmem))
    obtain ⟨q₃, heq₃, hr₃⟩ := @setListPrev_links q₂ f (some a) ((hr₂.relinked.isSome f).trans
      (Option.isSome_of_eq_some hx₁))
    refine ⟨{ q₃ with envQueue := some a }, ?_, ?_, ?_⟩
    · simp only [List.head?_cons, hx, heq₁, hx₁, hprev₁, heq₂, heq₃, Option.bind_eq_bind, Option.bind_some]
    · have hhead : Relinked q₃ { q₃ with envQueue := some a } := ⟨rfl, fun _ => rfl⟩
      exact ((hr₁.relinked.trans hr₂.relinked).trans hr₃.relinked).trans hhead
    · refine hr.insertHead (List.cons_ne_nil f t) hmem (fun b => ?_) fun b => ?_
      · show q₃.listNext b = _
        rw [hr₃.next, hr₂.next, hr₁.next, hp]
        by_cases hba : b = a
        · rw [if_neg (show b ≠ p from fun h => hpa (h ▸ hba)), if_pos hba, if_pos hba]
          rfl
        · simp only [hba, if_false, Option.some.injEq, eq_comm]
      · show q₃.listPrev b = _
        rw [hr₃.prev, hr₂.prev, hr₁.prev, hp]
        by_cases hba : b = a
        · rw [if_neg (show b ≠ f from fun h => hfa (h ▸ hba)), if_pos hba, if_pos hba]
        · simp only [hba, if_false, List.head?_cons, Option.some.injEq, eq_comm]

/-! ## Queueing -/

theorem newHq_some {h : Addr} (hy : (q.newHq x).hqs h = some y) : h = q.fresh ∧ y = x ∨ q.hqs h = some y := by
  change (if h = q.fresh then some x else q.hqs h) = some y at hy
  split at hy
  · rename_i hh
    cases hy
    exact .inl ⟨hh, rfl⟩
  · exact .inr hy

theorem HostsGrown.lists {conf : QueueConf} (hg : HostsGrown conf q q') (hl : q.ListsLive) : q'.ListsLive := by
  induction hg with
  | refl => exact hl
  | unexpanded h hu ih => exact ih.of_envs (fun _ h => h) rfl rfl
  | punt h puntHost ih => exact ih.of_envs (fun _ h => h) rfl rfl
  | host h hostname ih => exact ih.of_envs (fun _ h => h) rfl rfl

theorem HostsGrown.named {conf : QueueConf} (hg : HostsGrown conf q q') (hn : HostsNamed q) : HostsNamed q' := by
  have hnew : ∀ {u : Queues}, HostsNamed u → ∀ h, u.Names h → h ≠ u.fresh := fun hu h hh hf => by
    have hsome : (_ : Queues).hqs h |>.isSome := hh.elim (hu.there.hostQ h) (hu.there.unexpanded h)
    obtain ⟨z, hz⟩ := Option.isSome_iff_exists.mp hsome
    exact lt_irrefl _ (hf ▸ hu.sound.hqBound h z hz)
  have hgrown := hg
  induction hg with
  | refl => exact hn
  | @unexpanded u hg hu ih =>
    have ih := ih hg
    -- there was no such queue, and what was named before still is
    have hnames : ∀ h, u.Names h → h ∈ u.hostQ := fun h hh => hh.elim id fun hh => by
      rw [hu] at hh
      cases hh
    refine ⟨hgrown.sound hn.sound, hgrown.there hn.there, ih.nodup, fun h hh hmem => ?_, fun a h ha => ?_,
      fun h x hx hnext => ?_, hgrown.lists hn.lists⟩
    · cases hh
      exact hnew ih _ (.inl hmem) rfl
    · exact .inl (hnames h (ih.placed a h ha))
    · rcases newHq_some hx with ⟨-, rfl⟩ | hx
      · exact absurd rfl hnext
      · exact .inl (hnames h (ih.scheduled h x hx hnext))
  | @punt u hg puntHost ih =>
    have ih := ih hg
    refine ⟨hgrown.sound hn.sound, hgrown.there hn.there, ih.nodup, ih.apart, ih.placed, fun h x hx hnext => ?_,
      hgrown.lists hn.lists⟩
    rcases newHq_some hx with ⟨-, rfl⟩ | hx
    · exact absurd rfl hnext
    · exact ih.scheduled h x hx hnext
  | @host u hg hostname ih =>
    have ih := ih hg
    refine ⟨hgrown.sound hn.sound, hgrown.there hn.there, ?_, fun h hh hmem => ?_, fun a h ha => ?_,
      fun h x hx hnext => ?_, hgrown.lists hn.lists⟩
    · exact List.nodup_cons.mpr ⟨fun hmem => hnew ih _ (.inl hmem) rfl, ih.nodup⟩
    · rcases List.mem_cons.mp hmem with rfl | hmem
      · exact hnew ih _ (.inr hh) rfl
      · exact ih.apart h hh hmem
    · exact (ih.placed a h ha).imp_left (List.mem_cons_of_mem _)
    · rcases newHq_some hx with ⟨-, rfl⟩ | hx
      · exact absurd rfl hnext
      · exact (ih.scheduled h x hx hnext).imp_left (List.mem_cons_of_mem _)

theorem HostsGrown.ring {conf : QueueConf} (hg : HostsGrown conf q q') :
    q'.envQueue = q.envQueue ∧ q'.diskCycle = q.diskCycle := by
  induction hg with
  | refl => exact ⟨rfl, rfl⟩
  | unexpanded h hu ih => exact ih
  | punt h puntHost ih => exact ih
  | host h hostname ih => exact ih

/-- The reads of an envelope that has not been written. -/
theorem reads_of_envs (henv : q'.envs a = q.envs a) : q'.hqOf a = q.hqOf a ∧ q'.idOf a = q.idOf a ∧
    q'.cycleOf a = q.cycleOf a ∧ q'.listNext a = q.listNext a ∧ q'.listPrev a = q.listPrev a :=
  place_reads (by rw [henv])

/-- **The list, carried over**: its members read as they did, and are those that are in a queue. -/
theorem Messages.carry {out' : Option Addr} (hm : Messages seen out q l) (hn : HostsNamed q')
    (hread : ∀ a ∈ l, q'.idOf a = q.idOf a ∧ q'.cycleOf a = q.cycleOf a ∧
      q'.listNext a = q.listNext a ∧ q'.listPrev a = q.listPrev a)
    (hmem : ∀ a, a ∈ l ↔ q'.hqOf a ≠ none ∧ out' ≠ some a) (hring : q'.envQueue = q.envQueue)
    (hdisk : q'.diskCycle = q.diskCycle) : Messages seen out' q' l := by
  refine ⟨hn, ?_, hmem, ?_, fun a ha => ?_, fun a ha => ?_⟩
  · rw [hring]
    exact hm.ring.congr (fun a ha => (hread a ha).2.2.1) fun a ha => (hread a ha).2.2.2
  · rw [List.map_congr_left fun a ha => (hread a ha).1]
    exact hm.ids
  · rw [(hread a ha).2.1, hdisk]
    exact hm.cycle a ha
  · rw [(hread a ha).2.1, (hread a ha).1, hdisk]
    exact hm.scanned a ha

theorem HostsGrown.messages {conf : QueueConf} (hg : HostsGrown conf q q') (hm : Messages seen out q l) :
    Messages seen out q' l :=
  hm.carry (hg.named hm.hosts) (fun a _ => (reads_of_envs (congrFun hg.envs a)).2)
    (fun a => by rw [hqOf_of_envs hg.envs]; exact hm.mem a) hg.ring.1 hg.ring.2

/-- The launch time of the queue stays as it is. -/
theorem enqueue_launch (hq : q.enqueue a h = some q') : ∃ e x y, q.envs a = some e ∧ q.hqs h = some x ∧
    y.hqNextLaunch = x.hqNextLaunch ∧ q' = (q.setHq h (some y)).setEnv a (some { e with eHq := some h }) := by
  obtain ⟨e, x, m, he, hx, -, hq'⟩ := enqueue_eq_some hq
  refine ⟨e, x, _, he, hx, ?_, hq'⟩
  rfl

theorem enqueue_named (hn : HostsNamed q) (ha : q.hqOf a = none) (hh : q.Names h)
    (hq : q.enqueue a h = some q') : HostsNamed q' := by
  have hsound := enqueue_sound hn.sound ha List.not_mem_nil hq
  obtain ⟨e, x, y, he, hx, hlaunch, rfl⟩ := enqueue_launch hq
  obtain ⟨hqOf, -, -⟩ := keys_setHqOf (o := some h) (y := some y) (h := h) he
  have hthere : ∀ k, (q.hqs k).isSome → (((q.setHq h (some y)).setEnv a (some { e with eHq := some h })).hqs k).isSome := by
    intro k hk
    rw [Queues.setEnv_hqs, Queues.setHq_hqs]
    split
    · rfl
    · exact hk
  refine ⟨hsound, ⟨fun k hk => ?_, fun k hk => ?_⟩, hn.nodup, hn.apart, fun b k hb => ?_, fun k z hz hnext => ?_,
    hn.lists.of_envs (fun b hb => ?_) rfl rfl⟩
  · exact hthere k (hn.there.hostQ k hk)
  · exact hthere k (hn.there.unexpanded k hk)
  · rw [hqOf] at hb
    split at hb
    · cases hb
      exact hh
    · exact hn.placed b k hb
  · rw [Queues.setEnv_hqs, Queues.setHq_hqs] at hz
    split at hz
    · rename_i hk
      cases hz
      exact hn.scheduled k x (hk ▸ hx) (hlaunch ▸ hnext)
    · exact hn.scheduled k z hz hnext
  · rw [Queues.setEnv_envs]
    split
    · rfl
    · exact hb

/-- **An envelope is queued**, and not yet on the ring. -/
theorem enqueue_messages (hm : Messages seen none q l) (ha : q.hqOf a = none) (hh : q.Names h)
    (hq : q.enqueue a h = some q') : Messages seen (some a) q' l ∧ q'.hqOf a ≠ none ∧ q'.idOf a = q.idOf a := by
  have hnamed := enqueue_named hm.hosts ha hh hq
  obtain ⟨e, x, y, he, hx, -, rfl⟩ := enqueue_launch hq
  obtain ⟨hqOf, -, -⟩ := keys_setHqOf (o := some h) (y := some y) (h := h) he
  refine ⟨hm.carry hnamed (fun b hb => ?_) (fun b => ?_) rfl rfl, ?_, ?_⟩
  · have hba : b ≠ a := fun h => ((hm.mem b).mp hb).1 (h ▸ ha)
    exact (reads_of_envs (by rw [Queues.setEnv_envs, if_neg hba]; rfl)).2
  · rw [hqOf]
    by_cases hba : b = a
    · subst hba
      have hmem := hm.mem b
      simp only [ha] at hmem
      simpa using hmem
    · have hab : some a ≠ some b := fun h => hba (Option.some.inj h).symm
      rw [if_neg hba, hm.mem b]
      simp [hab]
  · rw [hqOf, if_pos rfl]
    simp
  · simp [Queues.idOf, he]

/-! ## An Efile is read -/

theorem Relinked.hostsKept (hr : Relinked q q') : HostsKept q q' := by
  have hrest := hr.rest
  refine ⟨by rw [hrest], by rw [hrest], by rw [hrest], fun h => by rw [hrest], fun b => ?_,
    fun b hb => .inr (hr.isSome b ▸ hb), fun h x hx hn => .inl ⟨x, ?_, hn⟩,
    fun hl => hl.of_envs (fun b hb => hr.isSome b ▸ hb) (by rw [hrest]) (by rw [hrest])⟩
  · rw [hqOf_unlinked, hr.envs b, ← hqOf_unlinked]
  · rw [hrest] at hx
    exact hx

theorem idOf_unlinked (q : Queues) (b : Addr) :
    q.idOf b = (((q.envs b).map QEnv.unlinked).map fun e => e.eId).getD [] := by
  unfold Queues.idOf
  cases q.envs b <;> rfl

theorem cycleOf_unlinked (q : Queues) (b : Addr) :
    q.cycleOf b = (((q.envs b).map QEnv.unlinked).map fun e => e.eCycle).getD 0 := by
  unfold Queues.cycleOf
  cases q.envs b <;> rfl

theorem Relinked.reads (hr : Relinked q q') (b : Addr) : q'.idOf b = q.idOf b ∧ q'.cycleOf b = q.cycleOf b := by
  rw [idOf_unlinked, cycleOf_unlinked, hr.envs b, ← idOf_unlinked, ← cycleOf_unlinked]
  exact ⟨rfl, rfl⟩

/-- **The new envelope goes on the ring.** -/
theorem ringInsert_messages {id : Text} (hm : Messages seen (some a) q l) (ha : q.hqOf a ≠ none)
    (hid : q.idOf a = id) (hnew : ∀ b ∈ l, q.idOf b ≠ id) (hcycle : q.cycleOf a = q.diskCycle) :
    ∃ q', q.ringInsert a = some q' ∧ Messages (insert id seen) none q' (a :: l) := by
  have hmem : a ∉ l := fun h => ((hm.mem a).mp h).2 rfl
  obtain ⟨h, hh⟩ := Option.ne_none_iff_exists'.mp ha
  obtain ⟨q', hq', hr, hring⟩ := ringInsert_ring hm.ring (fun b hb => hm.isSome hb) (isSome_of_hqOf hh) hmem
  have hkept := hr.hostsKept
  have hdisk : q'.diskCycle = q.diskCycle := by rw [hr.rest]
  refine ⟨q', hq', hm.hosts.kept hkept, hring, fun b => ?_, ?_, fun b hb => ?_, fun b hb => ?_⟩
  · rw [hkept.hqOf, List.mem_cons, hm.mem b]
    by_cases hba : b = a
    · simp [hba, ha]
    · have hab : some a ≠ some b := fun h => hba (Option.some.inj h).symm
      simp [hba, hab]
  · rw [List.map_cons, List.map_congr_left fun b _ => (hr.reads b).1, (hr.reads a).1, hid]
    refine List.nodup_cons.mpr ⟨fun hmap => ?_, hm.ids⟩
    obtain ⟨b, hb, hbid⟩ := List.mem_map.mp hmap
    exact hnew b hb hbid
  · rw [(hr.reads b).2, hdisk]
    rcases List.mem_cons.mp hb with rfl | hb
    · exact le_of_eq hcycle
    · exact hm.cycle b hb
  · rw [(hr.reads b).1, (hr.reads b).2, hdisk]
    rcases List.mem_cons.mp hb with rfl | hb
    · exact iff_of_true hcycle (Set.mem_insert_iff.mpr (.inl hid))
    · rw [hm.scanned b hb, Set.mem_insert_iff, or_iff_right (hnew b hb)]

/-- `e_cycle` of an envelope is written. -/
structure CycleSet (a : Addr) (c : Int) (q q' : Queues) : Prop where
  kept : HostsKept q q'
  ids : ∀ b, q'.idOf b = q.idOf b
  cycle : ∀ b, q'.cycleOf b = if b = a then c else q.cycleOf b
  next : ∀ b, q'.listNext b = q.listNext b
  prev : ∀ b, q'.listPrev b = q.listPrev b
  rest : q' = { q with envs := q'.envs }

theorem cycleSet_modEnv {c : Int} (hq : (q.modEnv a fun e => { e with eCycle := c }) = some q') : CycleSet a c q q' := by
  obtain ⟨e, he, rfl⟩ := Option.map_eq_some_iff.mp hq
  refine ⟨⟨rfl, rfl, le_refl _, fun _ => rfl, fun b => ?_, fun b hb => .inr ?_, fun h x hx hn => .inl ⟨x, hx, hn⟩,
    fun hl => hl.of_envs (fun b hb => ?_) rfl rfl⟩, fun b => ?_, fun b => ?_, fun b => ?_, fun b => ?_, rfl⟩
  · by_cases hb : b = a <;> simp [Queues.hqOf, hb, he]
  · rw [Queues.setEnv_envs] at hb
    split at hb
    · rename_i hba
      rw [hba, he]
      rfl
    · exact hb
  · rw [Queues.setEnv_envs]
    split
    · rfl
    · exact hb
  · by_cases hb : b = a <;> simp [Queues.idOf, hb, he]
  · by_cases hb : b = a <;> simp [Queues.cycleOf, hb]
  · by_cases hb : b = a <;> simp [Queues.listNext, hb, he]
  · by_cases hb : b = a <;> simp [Queues.listPrev, hb, he]

/-- The cycle of an envelope that is not on the ring yet. -/
theorem CycleSet.messages {c : Int} (hc : CycleSet a c q q') (hm : Messages seen (some a) q l) :
    Messages seen (some a) q' l := by
  have hne : ∀ b ∈ l, b ≠ a := fun b hb h => ((hm.mem b).mp hb).2 (congrArg some h.symm)
  have hrest := hc.rest
  refine hm.carry (hm.hosts.kept hc.kept) (fun b hb => ⟨hc.ids b, ?_, hc.next b, hc.prev b⟩) (fun b => ?_)
    (by rw [hrest]) (by rw [hrest])
  · rw [hc.cycle, if_neg (hne b hb)]
  · rw [hc.kept.hqOf]
    exact hm.mem b

/-- **The Efile of a message is seen.** -/
theorem CycleSet.messages_seen (hc : CycleSet a q.diskCycle q q') (hm : Messages seen out q l) (ha : a ∈ l) :
    Messages (insert (q.idOf a) seen) out q' l := by
  have hrest := hc.rest
  have hdisk : q'.diskCycle = q.diskCycle := by rw [hrest]
  refine ⟨hm.hosts.kept hc.kept, ?_, fun b => ?_, ?_, fun b hb => ?_, fun b hb => ?_⟩
  · rw [show q'.envQueue = q.envQueue by rw [hrest]]
    exact hm.ring.congr (fun b _ => hc.next b) fun b _ => hc.prev b
  · rw [hc.kept.hqOf]
    exact hm.mem b
  · rw [List.map_congr_left fun b _ => hc.ids b]
    exact hm.ids
  · rw [hc.cycle, hdisk]
    split
    · exact le_refl _
    · exact hm.cycle b hb
  · rw [hc.cycle, hc.ids, hdisk, Set.mem_insert_iff]
    split
    · rename_i hba
      rw [hba]
      simp
    · rename_i hba
      have hid : q.idOf b ≠ q.idOf a := fun hid => hba (List.inj_on_of_nodup_map hm.ids hb ha hid)
      rw [hm.scanned b hb, or_iff_right hid]

/-- An id that is seen and belongs to no message. -/
theorem Messages.seen_other {id : Text} (hm : Messages seen out q l) (hid : ∀ b ∈ l, q.idOf b ≠ id) :
    Messages (insert id seen) out q l :=
  ⟨hm.hosts, hm.ring, hm.mem, hm.ids, hm.cycle, fun b hb => by
    rw [hm.scanned b hb, Set.mem_insert_iff, or_iff_right (hid b hb)]⟩

/-- A new cycle has a new number, and nothing seen yet. -/
theorem Messages.newCycle (hm : Messages seen out q l) :
    Messages ∅ out { q with diskCycle := q.diskCycle + 1 } l := by
  have hkept : HostsKept q { q with diskCycle := q.diskCycle + 1 } := 
    hostsKept_of_heap rfl rfl rfl rfl rfl fun hl => hl.of_envs (fun _ h => h) rfl rfl
  refine ⟨hm.hosts.kept hkept, hm.ring, hm.mem, hm.ids, fun b hb => ?_, fun b hb => ?_⟩
  · have hle := hm.cycle b hb
    show q.cycleOf b ≤ q.diskCycle + 1
    omega
  · have hle := hm.cycle b hb
    refine iff_of_false (fun h => ?_) (Set.notMem_empty _)
    change q.cycleOf b = q.diskCycle + 1 at h
    omega

/-! ## Pruning -/

/-- The loop of `prune_messages` reaches no freed envelope, and leaves a ring. -/
theorem pruneLoop_ring {d : List Addr} (hd : d.Nodup) (hr : Ring q.listNext q.listPrev q.envQueue l)
    (hlive : ∀ b ∈ l, (q.envs b).isSome) (hsub : ∀ b ∈ d, b ∈ l) : ∃ r, pruneLoop q d = some r ∧
      Ring r.2.2.2.listNext r.2.2.2.listPrev r.2.2.2.envQueue
        (l.filter fun b => decide (b ∉ d) || q.live b) := by
  induction d generalizing q l with
  | nil =>
    refine ⟨_, rfl, ?_⟩
    rw [List.filter_eq_self.mpr fun b _ => by simp]
    exact hr
  | cons a rest ih =>
    obtain ⟨ha, hd⟩ := List.nodup_cons.mp hd
    have hamem := hsub a List.mem_cons_self
    obtain ⟨e, he⟩ := Option.isSome_iff_exists.mp (hlive a hamem)
    have hlivea : q.live a = decide (e.eCycle = q.diskCycle) := by simp [Queues.live, he]
    simp only [pruneLoop, he, Option.bind_eq_bind, Option.bind_some]
    by_cases hcycle : e.eCycle = q.diskCycle
    · rw [if_neg (not_not.mpr hcycle)]
      obtain ⟨⟨l', n, j, u⟩, hr', hring⟩ := ih hd hr hlive fun b hb => hsub b (List.mem_cons_of_mem _ hb)
      refine ⟨_, by rw [hr']; rfl, ?_⟩
      rw [List.filter_congr fun b _ => ?_]
      · exact hring
      · by_cases hba : b = a
        · simp [hba, hlivea, hcycle]
        · simp [hba]
    · rw [if_pos hcycle]
      obtain ⟨l₁, l₂, rfl⟩ := List.append_of_mem hamem
      obtain ⟨q₁, hq₁, hrel, hring₁⟩ := ringRemove_ring hr hlive
      have hne : ∀ b ∈ l₁ ++ l₂, b ≠ a := fun b hb hba =>
        (List.nodup_cons.mp (List.nodup_middle.mp hr.nodup)).1 (hba ▸ hb)
      have hin : ∀ b ∈ l₁ ++ l₂, b ∈ l₁ ++ a :: l₂ := fun b hb => by
        simp only [List.mem_append, List.mem_cons] at hb ⊢
        tauto
      have henvs : ∀ b ∈ l₁ ++ l₂, (q₁.freeEnv a).envs b = q₁.envs b := fun b hb => by
        rw [Queues.freeEnv_envs, if_neg (hne b hb)]
      have hring₂ : Ring (q₁.freeEnv a).listNext (q₁.freeEnv a).listPrev (q₁.freeEnv a).envQueue (l₁ ++ l₂) :=
        hring₁.congr (fun b hb => by simp only [Queues.listNext, henvs b hb])
          fun b hb => by simp only [Queues.listPrev, henvs b hb]
      have hlive₂ : ∀ b ∈ l₁ ++ l₂, ((q₁.freeEnv a).envs b).isSome := fun b hb => by
        rw [henvs b hb, hrel.isSome]
        exact hlive b (hin b hb)
      have hsub₂ : ∀ b ∈ rest, b ∈ l₁ ++ l₂ := fun b hb => by
        have hb' := hsub b (List.mem_cons_of_mem _ hb)
        simp only [List.mem_append, List.mem_cons] at hb' ⊢
        have hba : b ≠ a := fun h => ha (h ▸ hb)
        tauto
      obtain ⟨r, hr', hring⟩ := ih hd hring₂ hlive₂ hsub₂
      refine ⟨r, by rw [hq₁]; exact hr', ?_⟩
      -- the others are live or not as before
      have hlives : ∀ b ∈ l₁ ++ l₂, (q₁.freeEnv a).live b = q.live b := fun b hb => by
        have hdisk : (q₁.freeEnv a).diskCycle = q.diskCycle := by
          show q₁.diskCycle = q.diskCycle
          rw [hrel.rest]
        rw [live_unlinked, live_unlinked, henvs b hb, hrel.envs b, hdisk]
      have hfilter : (l₁ ++ a :: l₂).filter (fun b => decide (b ∉ a :: rest) || q.live b) =
          (l₁ ++ l₂).filter fun b => decide (b ∉ rest) || (q₁.freeEnv a).live b := by
        rw [List.filter_append, List.filter_cons_of_neg (by simp [hlivea, hcycle]), ← List.filter_append]
        refine List.filter_congr fun b hb => ?_
        rw [hlives b hb]
        simp [hne b hb]
      rw [hfilter]
      exact hring

/-- The envelopes that are left when the queue at `h` is pruned. -/
def Queues.survives (q : Queues) (h b : Addr) : Bool := decide (q.hqOf b ≠ some h) || q.live b

/-- What a pruned queue shows of an envelope that is left. -/
theorem QueuePruned.reads (hp : QueuePruned h x q q') (hx : ∀ b, b ∈ x.hqEnvHead ↔ q.hqOf b = some h) {b : Addr}
    (hb : q.survives h b = true) : q'.hqOf b = q.hqOf b ∧ q'.idOf b = q.idOf b ∧ q'.cycleOf b = q.cycleOf b := by
  have hkept : ¬ (b ∈ x.hqEnvHead ∧ q.live b = false) := by
    rintro ⟨hmem, hdead⟩
    simp [Queues.survives, (hx b).mp hmem, hdead] at hb
  rw [hqOf_unlinked, idOf_unlinked, cycleOf_unlinked, hp.envs b, if_neg hkept, ← hqOf_unlinked, ← idOf_unlinked,
    ← cycleOf_unlinked]
  exact ⟨rfl, rfl, rfl⟩

/-- An envelope that is not left is freed. -/
theorem QueuePruned.freed (hp : QueuePruned h x q q') (hx : ∀ b, b ∈ x.hqEnvHead ↔ q.hqOf b = some h) {b : Addr}
    (hb : q.survives h b = false) : q'.envs b = none := by
  simp only [Queues.survives, Bool.or_eq_false_iff, decide_eq_false_iff_not, not_not] at hb
  have henv := hp.envs b
  rw [if_pos ⟨(hx b).mpr hb.1, hb.2⟩] at henv
  exact Option.map_eq_none_iff.mp henv

theorem pruneLoop_lists {d : List Addr} {r : List Addr × Int × Int × Queues} (hl : q.ListsLive)
    (hr : pruneLoop q d = some r) : r.2.2.2.ListsLive := by
  induction d generalizing q r with
  | nil =>
    cases hr
    exact hl
  | cons a rest ih =>
    simp only [pruneLoop, Option.bind_eq_bind, Option.bind_eq_some_iff] at hr
    obtain ⟨e, he, hr⟩ := hr
    split at hr
    · obtain ⟨q₁, h₁, hr⟩ := Option.bind_eq_some_iff.mp hr
      exact ih (((ringRemove_relinked h₁).hostsKept.lists hl).freeEnv a) hr
    · simp only [Option.bind_eq_some_iff, Option.some.injEq] at hr
      obtain ⟨⟨l', n', j', u⟩, hr', rfl⟩ := hr
      have hrest := ih hl hr'
      exact hrest

theorem pruneMessages_lists (hl : q.ListsLive) (hq : q.pruneMessages h = some q') : q'.ListsLive := by
  simp only [Queues.pruneMessages, Option.bind_eq_bind, Option.bind_eq_some_iff] at hq
  obtain ⟨x, hx, ⟨d, n, j, u⟩, hr, hq⟩ := hq
  obtain ⟨y, hy, rfl⟩ := Option.map_eq_some_iff.mp hq
  exact (pruneLoop_lists hl hr).of_envs (fun _ h => h) rfl rfl

theorem QueuePruned.named (hp : QueuePruned h x q q') (hn : HostsNamed q) (hq : q.pruneMessages h = some q') :
    HostsNamed q' := by
  have hmem := (hn.sound.queue h x hp.queue).mem_iff'
  have hglobals := hp.rest
  have hisSome : ∀ k, (q.hqs k).isSome → (q'.hqs k).isSome := fun k hk => by
    rw [hp.hqs]
    split
    · rfl
    · exact hk
  have hnames : ∀ k, q.Names k → q'.Names k := fun k hk => by
    unfold Queues.Names
    rw [hglobals]
    exact hk
  refine ⟨pruneMessages_sound hn.sound hq, ⟨fun k hk => ?_, fun k hk => ?_⟩, ?_, fun k hk => ?_, fun b k hb => ?_,
    fun k z hz hnext => ?_, pruneMessages_lists hn.lists hq⟩
  · refine hisSome k (hn.there.hostQ k ?_)
    rw [hglobals] at hk
    exact hk
  · refine hisSome k (hn.there.unexpanded k ?_)
    rw [hglobals] at hk
    exact hk
  · rw [hglobals]
    exact hn.nodup
  · rw [hglobals] at hk ⊢
    exact hn.apart k hk
  · cases hs : q.survives h b with
    | true => exact hnames k (hn.placed b k ((hp.reads hmem hs).1 ▸ hb))
    | false =>
      simp [Queues.hqOf, hp.freed hmem hs] at hb
  · rw [hp.hqs] at hz
    split at hz
    · rename_i hk
      cases hz
      exact hnames k (hn.scheduled k x (hk ▸ hp.queue) hnext)
    · exact hnames k (hn.scheduled k z hz hnext)

theorem pruneMessages_named (hn : HostsNamed q) (hq : q.pruneMessages h = some q') : HostsNamed q' := by
  obtain ⟨x, hp⟩ := pruneMessages_pruned (fun y hy => (hn.sound.queue h y hy).nodup) hq
  exact hp.named hn hq

/-- **Pruning a queue** takes its dead envelopes off the ring, and reaches no freed one. -/
theorem pruneMessages_messages (hm : Messages seen none q l) (hx : q.hqs h = some x) :
    ∃ q', q.pruneMessages h = some q' ∧ QueuePruned h x q q' ∧
      Messages seen none q' (l.filter (q.survives h)) := by
  have hold := hm.hosts.sound.queue h x hx
  have hin : ∀ b ∈ x.hqEnvHead, b ∈ l := fun b hb => by
    rw [hm.mem, (hold.mem_iff' b).mp hb]
    simp
  obtain ⟨⟨d, n, j, u⟩, hr, hring⟩ := pruneLoop_ring hold.nodup hm.ring (fun b hb => hm.isSome hb) hin
  have hrest := pruneLoop_rest hr
  have hux : u.hqs h = some x := by
    simp only at hrest
    rw [hrest]
    exact hx
  obtain ⟨q', hq'⟩ : ∃ q', q.pruneMessages h = some q' := by
    simp only [Queues.pruneMessages, hx, hr, Option.bind_eq_bind, Option.bind_some, modHq_of_some hux]
    exact ⟨_, rfl⟩
  obtain ⟨x', hp⟩ := pruneMessages_pruned (fun y hy => (hm.hosts.sound.queue h y hy).nodup) hq'
  have hxx : x' = x := Option.some.inj (hp.queue.symm.trans hx)
  subst hxx
  have hmem := hold.mem_iff'
  have hreads := fun {b : Addr} (hb : q.survives h b = true) => hp.reads hmem hb
  have hdead : ∀ b, q.survives h b = false → q'.hqOf b = none := fun b hb => by
    simp [Queues.hqOf, hp.freed hmem hb]
  have hglobals := hp.rest
  have hfilter : (fun b => decide (b ∉ x'.hqEnvHead) || q.live b) = q.survives h := by
    funext b
    simp [Queues.survives, hmem]
  refine ⟨q', hq', hp, hp.named hm.hosts hq', ?_, fun b => ?_, ?_, fun b hb => ?_, fun b hb => ?_⟩
  · -- the links are those that the loop leaves
    simp only [Queues.pruneMessages, hx, hr, Option.bind_eq_bind, Option.bind_some, modHq_of_some hux,
      Option.some.injEq] at hq'
    rw [← hq', ← hfilter]
    exact hring
  · rw [List.mem_filter, hm.mem b]
    cases hs : q.survives h b with
    | true => simp [(hreads hs).1]
    | false => simp [hdead b hs]
  · rw [List.map_congr_left fun b hb => (hreads (List.mem_filter.mp hb).2).2.1]
    exact hm.ids.sublist (List.filter_sublist.map _)
  · obtain ⟨hb, hs⟩ := List.mem_filter.mp hb
    rw [(hreads hs).2.2, hglobals]
    exact hm.cycle b hb
  · obtain ⟨hb, hs⟩ := List.mem_filter.mp hb
    rw [(hreads hs).2.2, (hreads hs).2.1, hglobals]
    exact hm.scanned b hb

/-! ## The schedule -/

theorem Rescheduled.settled (hr : Rescheduled q q') : Settled q q' := by
  have hrest := hr.rest
  refine ⟨⟨by rw [hrest], by rw [hrest], by rw [hrest], fun k => ?_, fun b => by rw [hrest]; rfl,
    fun b hb => .inr ?_, fun k z hz hn => ?_, fun hl => hl.of_envs (fun b hb => ?_) (by rw [hrest]) (by rw [hrest])⟩,
    by rw [hrest], by rw [hrest], fun b _ => by rw [hrest]⟩
  · have hk := congrArg (Option.map HostQ.holding) (hr.hqs k)
    rw [Option.map_map, Option.map_map] at hk
    exact hk
  · rw [hrest] at hb
    exact hb
  · have hk := hr.hqs k
    rw [hz] at hk
    obtain ⟨y, hy, hyz⟩ := Option.map_eq_some_iff.mp hk.symm
    have hnext : y.unlinked.hqNextLaunch = z.unlinked.hqNextLaunch := by rw [hyz]
    exact .inl ⟨y, hy, fun h => hn (hnext.symm.trans h)⟩
  · rw [hrest]
    exact hb

theorem launchTime_settled {conf : QueueConf} {now : Int} {delay : Option Int} :
    (launchTime conf h now delay).wlp Prog.anyAnswer True (fun _ q' _ => Settled q q') q () := by
  have hrandom : ∀ {n : Int} {u : Queues}, Settled q u →
      (randomMod n).wlp Prog.anyAnswer True (fun _ q' _ => Settled q q') u () := fun hu => by
    refine (Faulty.wlp_bind _ _).mpr fun r _ _ => ?_
    split
    · trivial
    · exact hu
  unfold launchTime
  refine (Faulty.wlp_bind _ _).mpr (Faulty.wlp_read.mpr ⟨fun _ => trivial, fun x hx => ?_⟩)
  cases delay with
  | some d =>
    dsimp only
    split <;> exact .refl q
  | none =>
    dsimp only
    split
    · split
      · exact Faulty.wlp_seq (hrandom (.refl q)) fun _ _ _ hu => hu
      · exact .refl q
    · split
      · refine (Faulty.wlp_bind _ _).mpr (Faulty.wlp_update.mpr ⟨fun _ => trivial, fun u hu => ?_⟩)
        have hs : Settled q u := settled_modHq hu (fun _ => rfl) fun _ hn => .inl hn
        exact Faulty.wlp_seq (hrandom hs) fun _ _ _ hu => hu
      · exact .refl q

/-- A push of a queue that the globals name leaves the messages alone. -/
theorem hqDeliverPush_settled {conf : QueueConf} {tvNow delay : Option Int} (hn : q.Names h) :
    (hqDeliverPush conf h tvNow delay).wlp Prog.anyAnswer True (fun _ q' _ => Settled q q') q () := by
  have hbody : ∀ now, (hqDeliverPushAt conf h delay now).wlp Prog.anyAnswer True (fun _ q' _ => Settled q q') q () := by
    intro now
    unfold hqDeliverPushAt
    refine Faulty.wlp_seq launchTime_settled fun t u _ hu => ?_
    refine (Faulty.wlp_bind _ _).mpr (Faulty.wlp_update.mpr ⟨fun _ => trivial, fun u₁ hu₁ => ?_⟩)
    refine (Faulty.wlp_bind _ _).mpr (Faulty.wlp_update.mpr ⟨fun _ => trivial, fun u₂ hu₂ => ?_⟩)
    have hset : Settled u u₁ := by
      refine settled_modHq hu₁ (fun x => ?_) fun x _ => .inr ((hu.hosts.names h).mpr hn)
      unfold HostQ.setLaunch
      split <;> rfl
    exact (hu.trans hset).trans (deliverInsert_rescheduled hu₂).settled
  unfold hqDeliverPush
  cases tvNow with
  | some now => exact (Faulty.wlp_bind _ _).mpr (hbody now)
  | none =>
    refine (Faulty.wlp_bind _ _).mpr ((Faulty.wlp_lift _).mpr (Prog.wlp_of_forall fun now _ => ?_))
    cases now with
    | none => exact .refl q
    | some now => exact hbody now

/-- An empty queue is freed: nothing is written but the schedule, and the queue is off the list. -/
theorem hqFree_rest (hq : ({ q with hostQ := q.hostQ.erase h } : Queues).hqFree h = some q') :
    ∃ u, Rescheduled ({ q with hostQ := q.hostQ.erase h } : Queues) u ∧ q' = u.setHq h none := by
  simp only [Queues.hqFree, Option.bind_eq_bind, Option.bind_eq_some_iff, Option.some.injEq] at hq
  obtain ⟨u, hu, rfl⟩ := hq
  exact ⟨u, deliverPop_rescheduled hu, rfl⟩

theorem hqFree_named (hn : HostsNamed q) (hx : q.hqs h = some x) (hempty : x.hqEnvHead = []) (hh : h ∈ q.hostQ)
    (hq : ({ q with hostQ := q.hostQ.erase h } : Queues).hqFree h = some q') : HostsNamed q' := by
  obtain ⟨u, hr, rfl⟩ := hqFree_rest hq
  have hk := hr.settled.hosts
  have hhqs : ∀ k z, (u.setHq h none).hqs k = some z → k ≠ h ∧ u.hqs k = some z := fun k z hz => by
    rw [Queues.setHq_hqs] at hz
    split at hz
    · cases hz
    · exact ⟨‹_›, hz⟩
  -- no message is in the queue
  have hnone : ∀ b k, q.hqOf b = some k → k ≠ h := fun b k hb hkh => by
    have hmem := ((hn.sound.queue h x hx).mem_iff' b).mpr (hkh ▸ hb)
    rw [hempty] at hmem
    cases hmem
  have hun : q.unexpandedQ ≠ some h := fun hun => hn.apart h hun hh
  have hhostQ : ∀ k, k ∈ (u.setHq h none).hostQ ↔ k ∈ q.hostQ ∧ k ≠ h := fun k => by
    show k ∈ u.hostQ ↔ _
    rw [hk.hostQ, hn.nodup.mem_erase_iff]
    exact and_comm
  have hnames : ∀ k, k ≠ h → q.Names k → (u.setHq h none).Names k := fun k hkh hk' =>
    hk'.imp (fun hmem => (hhostQ k).mpr ⟨hmem, hkh⟩) fun hun => hk.unexpandedQ.trans hun
  have hisSome : ∀ k, k ≠ h → (q.hqs k).isSome → ((u.setHq h none).hqs k).isSome := fun k hkh hs => by
    rw [Queues.setHq_hqs, if_neg hkh, hk.isSome]
    exact hs
  have henvs : (u.setHq h none).envs = q.envs := by
    show u.envs = q.envs
    rw [hr.rest]
  have hhqOf := hqOf_of_envs henvs
  refine ⟨⟨fun k z hz => ?_, fun b k hb => ?_, fun b e he => ?_, fun k z hz => ?_⟩,
    ⟨fun k hmem => ?_, fun k hunk => ?_⟩, ?_, fun k hunk => ?_, fun b k hb => ?_, fun k z hz hnext => ?_,
    (hk.lists (hn.lists.of_envs (fun _ h => h) rfl rfl)).of_envs (fun _ h => h) rfl rfl⟩
  · obtain ⟨-, hz⟩ := hhqs k z hz
    obtain ⟨y, hy, hlist, hentries⟩ := hk.some_of_some hz
    have hold := hn.sound.queue k y hy
    refine ⟨?_, False.elim, fun b => ?_, ?_, False.elim⟩
    · rw [hentries, hlist]
      exact hold.entries
    · rw [hlist, hhqOf]
      exact hold.mem_iff b
    · rw [hlist]
      exact hold.nodup
  · rw [hhqOf] at hb
    exact hisSome k (hnone b k hb) (hn.sound.linked b k hb)
  · show b < u.fresh
    have he' : u.envs b = some e := he
    rw [hr.rest] at he' ⊢
    exact hn.sound.envBound b e he'
  · obtain ⟨-, hz⟩ := hhqs k z hz
    obtain ⟨y, hy, -⟩ := hk.some_of_some hz
    exact lt_of_lt_of_le (hn.sound.hqBound k y hy) hk.fresh
  · obtain ⟨hmem, hkh⟩ := (hhostQ k).mp hmem
    exact hisSome k hkh (hn.there.hostQ k hmem)
  · have hunk' : q.unexpandedQ = some k := hk.unexpandedQ.symm.trans hunk
    exact hisSome k (fun hkh => hun (hkh ▸ hunk')) (hn.there.unexpanded k hunk')
  · show u.hostQ.Nodup
    rw [hk.hostQ]
    exact hn.nodup.erase h
  · intro hmem
    have hunk' : q.unexpandedQ = some k := hk.unexpandedQ.symm.trans hunk
    exact hn.apart k hunk' ((hhostQ k).mp hmem).1
  · rw [hhqOf] at hb
    exact hnames k (hnone b k hb) (hn.placed b k hb)
  · obtain ⟨hkh, hz⟩ := hhqs k z hz
    rcases hk.scheduled k z hz hnext with ⟨y, hy, hny⟩ | hnamed
    · exact hnames k hkh (hn.scheduled k y hy hny)
    · refine hnames k hkh (hnamed.imp_left fun hmem => ?_)
      exact List.mem_of_mem_erase hmem

/-- **An empty queue is freed**, off the list and off the schedule. -/
theorem hqFree_messages (hm : Messages seen out q l) (hx : q.hqs h = some x) (hempty : x.hqEnvHead = [])
    (hh : h ∈ q.hostQ) (hq : ({ q with hostQ := q.hostQ.erase h } : Queues).hqFree h = some q') :
    Messages seen out q' l := by
  have hnamed := hqFree_named hm.hosts hx hempty hh hq
  obtain ⟨u, hr, rfl⟩ := hqFree_rest hq
  have hreads : ∀ b, (u.setHq h none).envs b = q.envs b := fun b => by
    show u.envs b = q.envs b
    rw [hr.rest]
  refine hm.carry hnamed (fun b _ => (reads_of_envs (hreads b)).2) (fun b => ?_) hr.settled.envQueue
    hr.settled.diskCycle
  rw [(reads_of_envs (hreads b)).1]
  exact hm.mem b

end Messages

end Simta
