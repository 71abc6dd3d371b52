import Simta.Daemon

/-!
# The schedule over the server loop

Every step of the server loop keeps the delivery schedule: what is popped is pushed again before the step
returns 0, and a queue is pushed only when it is off the schedule.

* `Timetable` — the schedule is in order, and a queue with a launch time is on it;
* `Unscheduled` — what a step that leaves the schedule alone may do to the host queues;
* `deliverPush_timetable`, `deliverPop_timetable`, `hqFree_timetable` — the steps that do not;
* `daemonRun_schedule` — over every run of the loop.
-/

set_option autoImplicit false

namespace Simta

open QueueProg

/-- A time of the clock: with every configured wait added to it, it is later than the epoch. -/
structure ClockOk (conf : QueueConf) (t : Int) : Prop where
  now : 0 < t
  jail : 0 < t + conf.jailSeconds
  min : 0 < t + conf.minWait
  max : 0 < t + conf.maxWait
  remote : ∀ r ∈ conf.remoteHosts, 0 < t + r.redMinWait ∧ 0 < t + r.redMaxWait

/-- The configured waits: those of a remote host may be absent, and are 0 then. -/
structure QueueConf.WaitsOk (conf : QueueConf) : Prop where
  min : 0 < conf.minWait
  max : conf.minWait ≤ conf.maxWait
  jail : 0 < conf.jailSeconds
  remote : ∀ r ∈ conf.remoteHosts, 0 ≤ r.redMinWait ∧ r.redMinWait ≤ r.redMaxWait

/-- The waits of a queue and its last launch. -/
structure HostQ.Waits (conf : QueueConf) (x : HostQ) : Prop where
  last : 0 ≤ x.hqLastLaunch
  min : ∀ t, ClockOk conf t → 0 < t + x.hqMinWait
  max : ∀ t, ClockOk conf t → 0 < t + x.hqMaxWait
  order : conf.WaitsOk → 0 ≤ x.hqMinWait ∧ x.hqMinWait ≤ x.hqMaxWait

/-- **The timetable is the list `l`**: but for the queues in `off`, which are off it, the schedule is the
    queues with a launch time. -/
structure Timetable (conf : QueueConf) (off : List Addr) (q : Queues) (l : List Addr) : Prop where
  schedule : Schedule q l
  timed : ∀ h x, q.hqs h = some x → h ∉ off → (h ∈ l ↔ x.hqNextLaunch ≠ 0)
  apart : ∀ h ∈ off, h ∉ l
  waits : ∀ h x, q.hqs h = some x → x.Waits conf
  bound : ∀ h x, q.hqs h = some x → h < q.fresh

/-- What the schedule needs of a queue. -/
def HostQ.timing (x : HostQ) : HostQ :=
  { hqHostname := [], hqMinWait := x.hqMinWait, hqMaxWait := x.hqMaxWait
    hqLastLaunch := x.hqLastLaunch, hqNextLaunch := x.hqNextLaunch
    hqDeliverPrev := x.hqDeliverPrev, hqDeliverNext := x.hqDeliverNext }

/-- The schedule is left alone: queues keep their times and links, and new ones have none. -/
structure Unscheduled (conf : QueueConf) (q q' : Queues) : Prop where
  deliverQ : q'.deliverQ = q.deliverQ
  fresh : q.fresh ≤ q'.fresh
  kept : ∀ h x, q.hqs h = some x → ∃ y, q'.hqs h = some y ∧ y.timing = x.timing
  new : ∀ h y, q'.hqs h = some y → q.hqs h = none →
    y.hqNextLaunch = 0 ∧ y.hqDeliverNext = none ∧ y.hqDeliverPrev = none ∧ y.Waits conf ∧ h < q'.fresh

section Keep

variable {conf : QueueConf} {off l : List Addr} {q q' : Queues} {a h : Addr} {x y : HostQ}

/-! ## Steps that leave the schedule alone -/

theorem HostQ.Waits.congr (hx : x.Waits conf) (hlast : y.hqLastLaunch = x.hqLastLaunch)
    (hmin : y.hqMinWait = x.hqMinWait) (hmax : y.hqMaxWait = x.hqMaxWait) : y.Waits conf := by
  refine ⟨?_, fun t ht => ?_, fun t ht => ?_, fun hw => ?_⟩
  · rw [hlast]
    exact hx.last
  · rw [hmin]
    exact hx.min t ht
  · rw [hmax]
    exact hx.max t ht
  · rw [hmin, hmax]
    exact hx.order hw

theorem timing_eq (hxy : y.timing = x.timing) :
    y.hqNextLaunch = x.hqNextLaunch ∧ y.hqDeliverNext = x.hqDeliverNext ∧
      y.hqDeliverPrev = x.hqDeliverPrev ∧ (x.Waits conf → y.Waits conf) := by
  simp only [HostQ.timing, HostQ.mk.injEq, true_and] at hxy
  obtain ⟨hmin, hmax, hlast, hnext, hp, hn⟩ := hxy
  exact ⟨hnext, hn, hp, fun hx => hx.congr hlast hmin hmax⟩

theorem Unscheduled.refl (q : Queues) : Unscheduled conf q q :=
  ⟨rfl, le_refl _, fun _ x hx => ⟨x, hx, rfl⟩, fun h y hy hn => by simp [hn] at hy⟩

theorem Unscheduled.trans {u : Queues} (h₁ : Unscheduled conf q q') (h₂ : Unscheduled conf q' u) :
    Unscheduled conf q u := by
  refine ⟨h₂.deliverQ.trans h₁.deliverQ, le_trans h₁.fresh h₂.fresh, fun h x hx => ?_, fun h z hz hn => ?_⟩
  · obtain ⟨y, hy, hxy⟩ := h₁.kept h x hx
    obtain ⟨z, hz, hyz⟩ := h₂.kept h y hy
    exact ⟨z, hz, hyz.trans hxy⟩
  · cases hq : q'.hqs h with
    | none => exact h₂.new h z hz hq
    | some y =>
      obtain ⟨hnext, hdn, hdp, hw, hlt⟩ := h₁.new h y hq hn
      obtain ⟨w, hw', hyw⟩ := h₂.kept h y hq
      cases hz.symm.trans hw'
      obtain ⟨e₁, e₂, e₃, e₄⟩ := @timing_eq conf _ _ hyw
      exact ⟨e₁.trans hnext, e₂.trans hdn, e₃.trans hdp, e₄ hw, lt_of_lt_of_le hlt h₂.fresh⟩

theorem unscheduled_of_hqs (hd : q'.deliverQ = q.deliverQ) (hf : q.fresh ≤ q'.fresh) (hh : q'.hqs = q.hqs) :
    Unscheduled conf q q' :=
  ⟨hd, hf, fun h x hx => ⟨x, by rw [hh, hx], rfl⟩, fun h y hy hn => by simp [hh, hn] at hy⟩

theorem unscheduled_setHq (hx : q.hqs h = some x) (hy : y.timing = x.timing) :
    Unscheduled conf q (q.setHq h (some y)) := by
  refine ⟨rfl, le_refl _, fun k z hz => ?_, fun k z hz hn => ?_⟩
  · rw [Queues.setHq_hqs]
    by_cases hk : k = h
    · subst hk
      cases hx.symm.trans hz
      exact ⟨y, if_pos rfl, hy⟩
    · exact ⟨z, by rw [if_neg hk, hz], rfl⟩
  · rw [Queues.setHq_hqs] at hz
    split at hz
    · rename_i hk
      rw [hk, hx] at hn
      cases hn
    · rw [hn] at hz
      cases hz

theorem unscheduled_modHq {f : HostQ → HostQ} (hq : q.modHq h f = some q') (hf : ∀ x, (f x).timing = x.timing) :
    Unscheduled conf q q' := by
  obtain ⟨x, hx, rfl⟩ := Option.map_eq_some_iff.mp hq
  exact unscheduled_setHq hx (hf x)

theorem unscheduled_newHq (hb : ∀ h x, q.hqs h = some x → h < q.fresh) (hn : x.hqNextLaunch = 0)
    (hdn : x.hqDeliverNext = none) (hdp : x.hqDeliverPrev = none) (hw : x.Waits conf) :
    Unscheduled conf q (q.newHq x) := by
  refine ⟨rfl, Nat.le_succ _, fun h z hz => ⟨z, ?_, rfl⟩, fun h z hz hnone => ?_⟩
  · have hne : h ≠ q.fresh := Nat.ne_of_lt (hb h z hz)
    simp only [Queues.newHq, Queues.setHq_hqs, if_neg hne]
    exact hz
  · simp only [Queues.newHq, Queues.setHq_hqs] at hz ⊢
    split at hz
    · rename_i hh
      cases hz
      exact ⟨hn, hdn, hdp, hw, hh ▸ Nat.lt_succ_self _⟩
    · rw [hnone] at hz
      cases hz

/-- The schedule outlives such a step. -/
theorem Timetable.unscheduled (ht : Timetable conf off q l) (hu : Unscheduled conf q q') : Timetable conf off q' l := by
  have hin : ∀ k ∈ l, ∃ x y, q.hqs k = some x ∧ q'.hqs k = some y ∧ y.timing = x.timing := fun k hk => by
    obtain ⟨x, hx⟩ := Option.isSome_iff_exists.mp (ht.schedule.there k hk)
    obtain ⟨y, hy, hxy⟩ := hu.kept k x hx
    exact ⟨x, y, hx, hy, hxy⟩
  have hlaunch : ∀ k ∈ l, q'.nextLaunch k = q.nextLaunch k := fun k hk => by
    obtain ⟨x, y, hx, hy, hxy⟩ := hin k hk
    simp only [Queues.nextLaunch, hx, hy, Option.map_some, Option.getD_some]
    exact (@timing_eq conf _ _ hxy).1
  refine ⟨⟨?_, fun k hk => ?_, fun k y hk hy => ?_, ?_⟩, fun k y hy hoff => ?_, ht.apart, fun k y hy => ?_,
    fun k y hy => ?_⟩
  · rw [hu.deliverQ]
    refine ht.schedule.linked.congr (fun k hk => ?_) fun k hk => ?_
    · obtain ⟨x, y, hx, hy, hxy⟩ := hin k hk
      simp only [Queues.deliverNext, hx, hy, Option.bind_some]
      exact (@timing_eq conf _ _ hxy).2.1
    · obtain ⟨x, y, hx, hy, hxy⟩ := hin k hk
      simp only [Queues.deliverPrev, hx, hy, Option.bind_some]
      exact (@timing_eq conf _ _ hxy).2.2.1
  · obtain ⟨x, y, -, hy, -⟩ := hin k hk
    exact Option.isSome_of_eq_some hy
  · cases hq : q.hqs k with
    | none =>
      obtain ⟨-, hdn, hdp, -⟩ := hu.new k y hy hq
      exact ⟨hdn, hdp⟩
    | some x =>
      obtain ⟨z, hz, hxz⟩ := hu.kept k x hq
      cases hz.symm.trans hy
      obtain ⟨-, hdn, hdp, -⟩ := @timing_eq conf _ _ hxz
      rw [hdn, hdp]
      exact ht.schedule.apart k x hk hq
  · refine ht.schedule.ordered.imp_of_mem ?_
    intro k k' hk hk' hle
    rw [hlaunch k hk, hlaunch k' hk']
    exact hle
  · cases hq : q.hqs k with
    | none =>
      obtain ⟨hn, -⟩ := hu.new k y hy hq
      refine iff_of_false (fun hk => ?_) (not_not.mpr hn)
      have hthere := ht.schedule.there k hk
      rw [hq] at hthere
      cases hthere
    | some x =>
      obtain ⟨z, hz, hxz⟩ := hu.kept k x hq
      cases hz.symm.trans hy
      rw [(@timing_eq conf _ _ hxz).1]
      exact ht.timed k x hq hoff
  · cases hq : q.hqs k with
    | none => exact (hu.new k y hy hq).2.2.2.1
    | some x =>
      obtain ⟨z, hz, hxz⟩ := hu.kept k x hq
      cases hz.symm.trans hy
      exact (timing_eq hxz).2.2.2 (ht.waits k x hq)
  · cases hq : q.hqs k with
    | none => exact (hu.new k y hy hq).2.2.2.2
    | some x => exact lt_of_lt_of_le (ht.bound k x hq) hu.fresh

/-! ## Popping, pushing and freeing -/

theorem Rescheduled.some_of_some (hr : Rescheduled q q') (hy : q'.hqs h = some y) :
    ∃ x, q.hqs h = some x ∧ y.unlinked = x.unlinked := by
  have hu := hr.hqs h
  rw [hy] at hu
  cases hx : q.hqs h with
  | none =>
    rw [hx] at hu
    cases hu
  | some x =>
    rw [hx] at hu
    exact ⟨x, rfl, Option.some.inj hu⟩

theorem unlinked_eq (hxy : y.unlinked = x.unlinked) :
    y.hqNextLaunch = x.hqNextLaunch ∧ (x.Waits conf → y.Waits conf) := by
  have hlaunch : y.unlinked.hqNextLaunch = x.unlinked.hqNextLaunch := by rw [hxy]
  have hlast : y.unlinked.hqLastLaunch = x.unlinked.hqLastLaunch := by rw [hxy]
  have hmin : y.unlinked.hqMinWait = x.unlinked.hqMinWait := by rw [hxy]
  have hmax : y.unlinked.hqMaxWait = x.unlinked.hqMaxWait := by rw [hxy]
  exact ⟨hlaunch, fun hx => hx.congr hlast hmin hmax⟩

theorem deliverPop_timetable (ht : Timetable conf off q l) (hq : q.deliverPop h = some q') :
    Timetable conf (h :: off) q' (l.erase h) := by
  have hx : ∃ x, q.hqs h = some x := by
    simp only [Queues.deliverPop, Option.bind_eq_bind, Option.bind_eq_some_iff] at hq
    obtain ⟨x, hx, -⟩ := hq
    exact ⟨x, hx⟩
  obtain ⟨x, hx⟩ := hx
  obtain ⟨u, hu, hr, hs⟩ := deliverPop_spec ht.schedule hx
  cases hq.symm.trans hu
  refine ⟨hs, fun k y hy hoff => ?_, fun k hk => ?_, fun k y hy => ?_, fun k y hy => ?_⟩
  · obtain ⟨z, hz, hyz⟩ := hr.some_of_some hy
    obtain ⟨hkh, hoff⟩ := not_or.mp (fun h => hoff (List.mem_cons.mpr h))
    rw [List.mem_erase_of_ne hkh, (@unlinked_eq conf _ _ hyz).1]
    exact ht.timed k z hz hoff
  · rcases List.mem_cons.mp hk with rfl | hk
    · exact fun hm => (List.Nodup.mem_erase_iff ht.schedule.linked.nodup).mp hm |>.1 rfl
    · exact fun hm => ht.apart k hk (List.mem_of_mem_erase hm)
  · obtain ⟨z, hz, hyz⟩ := hr.some_of_some hy
    exact (unlinked_eq hyz).2 (ht.waits k z hz)
  · obtain ⟨z, hz, -⟩ := hr.some_of_some hy
    rw [hr.rest]
    exact ht.bound k z hz

/-- A queue off the schedule may be written, all but its links. -/
theorem setHq_timetable (ht : Timetable conf (h :: off) q l) (hx : q.hqs h = some x)
    (hn : y.hqDeliverNext = x.hqDeliverNext) (hp : y.hqDeliverPrev = x.hqDeliverPrev) (hw : y.Waits conf) :
    Timetable conf (h :: off) (q.setHq h (some y)) l := by
  have hmem : h ∉ l := ht.apart h List.mem_cons_self
  refine ⟨ht.schedule.setHq hmem hx hn hp, fun k z hz hoff => ?_, ht.apart, fun k z hz => ?_, fun k z hz => ?_⟩
  · have hkh : k ≠ h := fun hk => hoff (hk ▸ List.mem_cons_self)
    rw [Queues.setHq_hqs, if_neg hkh] at hz
    exact ht.timed k z hz hoff
  · rw [Queues.setHq_hqs] at hz
    split at hz
    · cases hz
      exact hw
    · exact ht.waits k z hz
  · rw [Queues.setHq_hqs] at hz
    split at hz
    · rename_i hk
      exact hk ▸ ht.bound h x hx
    · exact ht.bound k z hz

theorem pushed_times {now : Int} {delay : Option Int} {r : Nat} (hnow : ClockOk conf now) (hd : ∀ d, delay = some d → 0 ≤ d)
    (hx : x.Waits conf) (hy : x.pushed conf now delay r = some y) : y.hqNextLaunch ≠ 0 ∧ y.Waits conf := by
  have hw := pushed_rest hy
  refine ⟨?_, ?_⟩
  · obtain ⟨⟨z, wait, launch⟩, hz, rfl⟩ := Option.map_eq_some_iff.mp hy
    have hrandom : ∀ n : Int, 0 ≤ Int.tmod r n := fun n => Int.tmod_nonneg n (Int.natCast_nonneg r)
    have hpos := hnow.now
    have hmax := hx.max now hnow
    -- the new launch is behind the epoch, and so is one that is kept
    have hlaunch : 0 < launch ∧ z.hqLastLaunch = x.hqLastLaunch := by
      unfold HostQ.launchTime at hz
      cases delay with
      | some d =>
        have hd := hd d rfl
        dsimp only at hz
        split at hz <;> cases hz <;> refine ⟨?_, rfl⟩ <;> omega
      | none =>
        dsimp only at hz
        split at hz
        · have hjail := hnow.jail
          have hr := hrandom conf.jailSeconds
          split at hz
          · split at hz
            · cases hz
            · cases hz
              exact ⟨by omega, rfl⟩
          · cases hz
            exact ⟨by omega, rfl⟩
        · split at hz
          · split at hz
            · cases hz
            · cases hz
              have hr := hrandom x.hqMinWait
              exact ⟨by omega, rfl⟩
          · cases hz
            have hmin := hx.min now hnow
            refine ⟨?_, rfl⟩
            split
            · split <;> omega
            · omega
    have hlast := hx.last
    show (z.setLaunch wait launch).hqNextLaunch ≠ 0
    unfold HostQ.setLaunch
    split
    · show launch ≠ 0
      omega
    · omega
  · rw [hw]
    exact ⟨hx.last, hx.min, hx.max, hx.order⟩

theorem deliverPush_timetable {now : Int} {delay : Option Int} {r : Nat} (hnow : ClockOk conf now)
    (hd : ∀ d, delay = some d → 0 ≤ d) (hoff : h ∉ off) (ht : Timetable conf (h :: off) q l)
    (hq : q.deliverPush conf h now delay r = some q') :
    ∃ l₁ l₂, l = l₁ ++ l₂ ∧ Timetable conf off q' (l₁ ++ h :: l₂) := by
  have hmem : h ∉ l := ht.apart h List.mem_cons_self
  have hq' := hq
  simp only [Queues.deliverPush, Option.bind_eq_bind, Option.bind_eq_some_iff] at hq'
  obtain ⟨x, hx, y, hy, -⟩ := hq'
  obtain ⟨u, l₁, l₂, hu, rfl, hr, hs⟩ := deliverPush_spec ht.schedule hmem hx ht.bound hy
  cases hq.symm.trans hu
  obtain ⟨hlaunch, hw⟩ := pushed_times hnow hd (ht.waits h x hx) hy
  refine ⟨l₁, l₂, rfl, hs, fun k z hz hk => ?_, fun k hk => ?_, fun k z hz => ?_, fun k z hz => ?_⟩
  · obtain ⟨w, hw', hzw⟩ := hr.some_of_some hz
    rw [(@unlinked_eq conf _ _ hzw).1]
    rw [Queues.setHq_hqs] at hw'
    split at hw'
    · rename_i hkh
      cases hw'
      exact iff_of_true (by simp [hkh]) hlaunch
    · rename_i hkh
      have htimed := ht.timed k w hw' (by simp [hkh, hk])
      rw [← htimed]
      simp [hkh]
  · have hkh : k ≠ h := fun he => hoff (he ▸ hk)
    have hkl := ht.apart k (List.mem_cons_of_mem _ hk)
    simpa [hkh] using hkl
  · obtain ⟨w, hw', hzw⟩ := hr.some_of_some hz
    refine (unlinked_eq hzw).2 ?_
    rw [Queues.setHq_hqs] at hw'
    split at hw'
    · cases hw'
      exact hw
    · exact ht.waits k w hw'
  · obtain ⟨w, hw', -⟩ := hr.some_of_some hz
    rw [hr.rest]
    rw [Queues.setHq_hqs] at hw'
    split at hw'
    · rename_i hkh
      exact hkh ▸ ht.bound h x hx
    · exact ht.bound k w hw'

theorem hqFree_timetable (ht : Timetable conf off q l) (hq : q.hqFree h = some q') :
    Timetable conf off q' (l.erase h) := by
  obtain ⟨u, hu, hfree⟩ := Option.bind_eq_some_iff.mp hq
  cases hfree
  have ht' := deliverPop_timetable ht hu
  have hmem : h ∉ l.erase h := ht'.apart h List.mem_cons_self
  have hne : ∀ k ∈ l.erase h, k ≠ h := fun k hk he => hmem (he ▸ hk)
  have hhqs : ∀ k x, (u.setHq h none).hqs k = some x → k ≠ h ∧ u.hqs k = some x := fun k x hx => by
    rw [Queues.setHq_hqs] at hx
    split at hx
    · cases hx
    · exact ⟨‹_›, hx⟩
  refine ⟨⟨?_, fun k hk => ?_, fun k z hk hz => ?_, ?_⟩, fun k z hz hk => ?_, fun k hk => ?_, fun k z hz => ?_,
    fun k z hz => ?_⟩
  · refine ht'.schedule.linked.congr (fun k hk => ?_) fun k hk => ?_
    · simp only [Queues.deliverNext, Queues.setHq_hqs, if_neg (hne k hk)]
    · simp only [Queues.deliverPrev, Queues.setHq_hqs, if_neg (hne k hk)]
  · rw [Queues.setHq_hqs, if_neg (hne k hk)]
    exact ht'.schedule.there k hk
  · exact ht'.schedule.apart k z hk (hhqs k z hz).2
  · refine ht'.schedule.ordered.imp_of_mem ?_
    intro k k' hk hk' hle
    simp only [Queues.nextLaunch, Queues.setHq_hqs, if_neg (hne k hk), if_neg (hne k' hk')]
    exact hle
  · obtain ⟨hkh, hz⟩ := hhqs k z hz
    exact ht'.timed k z hz (by simp [hkh, hk])
  · exact ht'.apart k (List.mem_cons_of_mem _ hk)
  · exact ht'.waits k z (hhqs k z hz).2
  · exact ht'.bound k z (hhqs k z hz).2

/-! ## Programs that leave the schedule alone -/

/-- The program leaves the schedule alone, from every state. -/
def Calm {α : Type} (conf : QueueConf) (m : QueueProg α) : Prop :=
  ∀ q, (∀ h x, q.hqs h = some x → h < q.fresh) →
    m.wlp (clockWorld (ClockOk conf)) True (fun _ q' _ => Unscheduled conf q q') q ()

theorem Unscheduled.bound (hu : Unscheduled conf q q') (hb : ∀ h x, q.hqs h = some x → h < q.fresh) :
    ∀ h x, q'.hqs h = some x → h < q'.fresh := by
  intro h y hy
  cases hq : q.hqs h with
  | none => exact (hu.new h y hy hq).2.2.2.2
  | some x => exact lt_of_lt_of_le (hb h x hq) hu.fresh

theorem Calm.timetable {α : Type} {m : QueueProg α} (hm : Calm conf m) (ht : Timetable conf off q l) :
    m.wlp (clockWorld (ClockOk conf)) True (fun _ q' _ => Timetable conf off q' l) q () :=
  Faulty.wlp_mono (fun _ _ _ hu => ht.unscheduled hu) (hm q ht.bound)

theorem Calm.pure {α : Type} (r : α) : Calm conf (Pure.pure r : QueueProg α) := fun q _ => .refl q

theorem Calm.bind {α β : Type} {m : QueueProg α} {g : α → QueueProg β} (hm : Calm conf m)
    (hg : ∀ r, Calm conf (g r)) : Calm conf (m >>= g) := by
  intro q hb
  refine Faulty.wlp_seq (hm q hb) fun r q' s hu => ?_
  exact Faulty.wlp_mono (fun _ _ _ hu' => hu.trans hu') (hg r q' (hu.bound hb))

/-- A program with a specification in every world. -/
theorem calm_of_wlp {α : Type} {m : QueueProg α} {P : Queues → Queues → Prop}
    (hm : ∀ q, m.wlp Prog.anyAnswer True (fun _ q' _ => P q q') q ())
    (hP : ∀ q q', (∀ h x, q.hqs h = some x → h < q.fresh) → P q q' → Unscheduled conf q q') : Calm conf m :=
  fun q hb => Faulty.wlp_mono (fun _ q' _ h => hP q q' hb h)
    (Faulty.wlp_world (fun _ _ _ _ _ => trivial) (hm q))

theorem calm_get : Calm conf (get : QueueProg Queues) := fun q _ => .refl q

theorem calm_ask (op : QueueOp) : Calm conf (Faulty.ask op : QueueProg (QueueAns op)) := fun q _ _ _ _ => .refl q

theorem calm_file {α : Type} (p : SpoolProg α) : Calm conf (file p) :=
  fun q _ => (Faulty.wlp_lift _).mpr (Prog.wlp_of_forall fun _ _ => Unscheduled.refl q)

theorem calm_fault {α : Type} : Calm conf (Faulty.fault : QueueProg α) := fun _ _ => trivial

theorem calm_read {α : Type} (f : Queues → Option α) : Calm conf (Faulty.read f : QueueProg α) :=
  fun q _ => Faulty.wlp_read.mpr ⟨fun _ => trivial, fun _ _ => .refl q⟩

theorem calm_update {f : Queues → Option Queues} (hf : ∀ q q', f q = some q' → Unscheduled conf q q') :
    Calm conf (Faulty.update f : QueueProg PUnit) :=
  fun q _ => Faulty.wlp_update.mpr ⟨fun _ => trivial, fun q' hq => hf q q' hq⟩

theorem calm_modify {f : Queues → Queues} (hf : ∀ q, Unscheduled conf q (f q)) :
    Calm conf (modify f : QueueProg PUnit) := fun q _ => hf q

theorem unscheduled_modEnv {f : QEnv → QEnv} (hq : q.modEnv a f = some q') : Unscheduled conf q q' := by
  obtain ⟨e, -, rfl⟩ := Option.map_eq_some_iff.mp hq
  exact unscheduled_of_hqs rfl (le_refl _) rfl

theorem calm_modEnv (a : Addr) (f : QEnv → QEnv) : Calm conf (modEnv a f) :=
  calm_update fun _ _ hq => unscheduled_modEnv hq

theorem EnvWritten.unscheduled (hw : EnvWritten a q q') : Unscheduled conf q q' := by
  have hrest := hw.rest
  exact unscheduled_of_hqs (by rw [hrest]) (by rw [hrest]) (by rw [hrest])

theorem calm_onEnvelope (a : Addr) (p : Envelope → SpoolProg (Option (Int × Envelope))) :
    Calm conf (onEnvelope a p) := by
  refine .bind (calm_read _) fun e => .bind (calm_file _) fun answer => ?_
  cases answer with
  | none => exact calm_fault
  | some r => exact .bind (calm_modEnv _ _) fun _ => .pure _

theorem calm_envJailStatus (conf : QueueConf) (a : Addr) (jail : Int) :
    Calm conf (envJailStatus conf (some a) jail) := by
  have hrewrite : Calm conf (jailRewrite conf a jail) :=
    calm_of_wlp (fun _ => jailRewrite_written) fun _ _ _ hw => hw.unscheduled
  unfold envJailStatus
  dsimp only
  split
  · exact .pure _
  · refine .bind (calm_read _) fun e => ?_
    split
    · exact .pure _
    · split
      · exact .pure _
      · cases e.eHq with
        | none => exact hrewrite
        | some h => exact .bind (calm_update fun _ _ hq => unscheduled_modHq hq fun _ => rfl) fun _ => hrewrite

theorem pruneMessages_unscheduled (hq : q.pruneMessages h = some q') : Unscheduled conf q q' := by
  simp only [Queues.pruneMessages, Option.bind_eq_bind, Option.bind_eq_some_iff] at hq
  obtain ⟨x, hx, ⟨l, n, j, u⟩, hr, hq⟩ := hq
  have hrest := pruneLoop_rest hr
  simp only at hrest
  refine Unscheduled.trans (unscheduled_of_hqs ?_ ?_ ?_) (unscheduled_modHq hq fun _ => rfl)
  · rw [hrest]
  · rw [hrest]
  · rw [hrest]

theorem HostsGrown.unscheduled {conf : QueueConf} (hg : HostsGrown conf q q')
    (hb : ∀ h x, q.hqs h = some x → h < q.fresh) : Unscheduled conf q q' := by
  have hnew : ∀ {u : Queues} {x : HostQ}, Unscheduled conf q u → x.hqNextLaunch = 0 →
      x.hqDeliverNext = none → x.hqDeliverPrev = none → x.Waits conf →
      Unscheduled conf q (u.newHq x) := fun hu hn hdn hdp hw =>
    hu.trans (unscheduled_newHq (hu.bound hb) hn hdn hdp hw)
  have hnull : ∀ (hostname : Text) (status : HostStatus),
      HostQ.Waits conf { hqHostname := hostname, hqStatus := status } := fun _ _ =>
    ⟨le_refl _, fun t ht => by simpa using ht.now, fun t ht => by simpa using ht.now,
      fun _ => ⟨le_refl _, le_refl _⟩⟩
  induction hg with
  | refl => exact .refl q
  | unexpanded hg hu ih =>
    exact (hnew ih rfl rfl rfl (hnull _ _)).trans (unscheduled_of_hqs rfl (le_refl _) rfl)
  | punt hg puntHost ih =>
    exact (hnew ih rfl rfl rfl (hnull _ _)).trans (unscheduled_of_hqs rfl (le_refl _) rfl)
  | host hg hostname ih =>
    refine (hnew ih rfl rfl rfl ⟨le_refl _, ?_, ?_, ?_⟩).trans (unscheduled_of_hqs rfl (le_refl _) rfl)
    · intro t ht
      show 0 < t + ((redLookupHost conf.red hostname conf.remoteHosts).map (·.redMinWait)).getD conf.minWait
      cases hr : redLookupHost conf.red hostname conf.remoteHosts with
      | none => exact ht.min
      | some r => exact (ht.remote r (redFind_name hr).2).1
    · intro t ht
      show 0 < t + ((redLookupHost conf.red hostname conf.remoteHosts).map (·.redMaxWait)).getD conf.maxWait
      cases hr : redLookupHost conf.red hostname conf.remoteHosts with
      | none => exact ht.max
      | some r => exact (ht.remote r (redFind_name hr).2).2
    · intro hw
      show 0 ≤ ((redLookupHost conf.red hostname conf.remoteHosts).map (·.redMinWait)).getD conf.minWait ∧
        ((redLookupHost conf.red hostname conf.remoteHosts).map (·.redMinWait)).getD conf.minWait ≤
          ((redLookupHost conf.red hostname conf.remoteHosts).map (·.redMaxWait)).getD conf.maxWait
      cases hr : redLookupHost conf.red hostname conf.remoteHosts with
      | none => exact ⟨le_of_lt hw.min, hw.max⟩
      | some r => exact hw.remote r (redFind_name hr).2

theorem enqueue_unscheduled (hq : q.enqueue a h = some q') : Unscheduled conf q q' := by
  obtain ⟨e, x, l, he, hx, hl, rfl⟩ := enqueue_eq_some hq
  exact (unscheduled_setHq hx (by rfl)).trans (unscheduled_of_hqs rfl (le_refl _) rfl)

theorem calm_queueEnvelope (conf : QueueConf) (a : Addr) : Calm conf (queueEnvelope conf a) := by
  intro q hb
  refine Faulty.wlp_world (fun _ _ _ _ _ => trivial) (Faulty.wlp_mono ?_ (queueEnvelope_spec (.inl trivial)))
  rintro r q' - hq
  cases hq with
  | kept => exact .refl q
  | failed hg => exact hg.unscheduled hb
  | queued hg _ _ hq => exact (hg.unscheduled hb).trans (enqueue_unscheduled hq)

end Keep

/-! ## The steps -/

/-- The schedule is in order, and a queue with a launch time is on it. -/
def Timed (conf : QueueConf) (q : Queues) : Prop := ∃ l, Timetable conf [] q l

/-- The program keeps the timetable when it returns 0. -/
def Keeps (conf : QueueConf) (m : QueueProg Int) : Prop :=
  ∀ q, Timed conf q → m.wlp (clockWorld (ClockOk conf)) True (fun ret q' _ => ret = 0 → Timed conf q') q ()

section Steps

variable {conf : QueueConf} {q : Queues} {h : Addr} {off l : List Addr} {m g : QueueProg Int}

theorem keeps_pure (r : Int) : Keeps conf (pure r) := fun _ ht _ => ht

theorem keeps_fault : Keeps conf Faulty.fault := fun _ _ => trivial

theorem keeps_calm {α : Type} {m : QueueProg α} {g : α → QueueProg Int} (hm : Calm conf m)
    (hg : ∀ r, Keeps conf (g r)) : Keeps conf (m >>= g) := by
  rintro q ⟨l, ht⟩
  exact Faulty.wlp_seq (hm.timetable ht) fun r q' _ ht' => hg r q' ⟨l, ht'⟩

/-- A call whose result is looked at: an error ends the step. -/
theorem keeps_check {c : Int} (hm : Keeps conf m) (hg : Keeps conf g) (hc : c ≠ 0) :
    Keeps conf (m >>= fun ret => if ret ≠ 0 then pure c else g) := by
  intro q ht
  refine Faulty.wlp_seq (hm q ht) fun ret q' _ ht' => ?_
  split
  · exact fun h => absurd h hc
  · rename_i hret
    exact hg q' (ht' (not_not.mp hret))

theorem keeps_return {m : QueueProg Int} (hm : Keeps conf m) :
    Keeps conf (m >>= fun ret => if ret ≠ 0 then pure 1 else pure 0) :=
  keeps_check hm (keeps_pure 0) one_ne_zero

/-- A push of a queue that is off the schedule. -/
theorem hqDeliverPush_timetable {tvNow delay : Option Int} (hnow : ∀ t, tvNow = some t → ClockOk conf t)
    (hd : ∀ d, delay = some d → 0 ≤ d) (hoff : h ∉ off) (ht : Timetable conf (h :: off) q l) :
    (hqDeliverPush conf h tvNow delay).wlp (clockWorld (ClockOk conf)) True
      (fun ret q' _ => ret = 0 → ∃ l₁ l₂, l = l₁ ++ l₂ ∧ Timetable conf off q' (l₁ ++ h :: l₂))
      q () := by
  cases hx : q.hqs h with
  | none =>
    have hbody : ∀ now {Q : Int × Int → Queues → Unit → Prop},
        (launchTime conf h now delay).wlp (clockWorld (ClockOk conf)) True Q q () := by
      intro now Q
      unfold launchTime
      refine (Faulty.wlp_bind _ _).mpr (Faulty.wlp_read.mpr ⟨fun _ => trivial, fun x hx' => ?_⟩)
      rw [hx] at hx'
      cases hx'
    cases tvNow with
    | some now => exact (Faulty.wlp_bind _ _).mpr ((Faulty.wlp_bind _ _).mpr (hbody now))
    | none =>
      refine (Faulty.wlp_bind _ _).mpr ((Faulty.wlp_lift _).mpr (Prog.wlp_of_forall fun now _ => ?_))
      cases now with
      | none => exact fun h => absurd h one_ne_zero
      | some now => exact (Faulty.wlp_bind _ _).mpr (hbody now)
  | some x =>
    refine (hqDeliverPush_wlp hx).mpr ⟨fun _ h => absurd h one_ne_zero, fun now r ht' => ?_⟩
    refine ⟨fun _ => trivial, fun q' hq' _ => ?_⟩
    have hnow' : ClockOk conf now := by
      rcases ht' with ht' | ⟨-, ht'⟩
      · exact hnow now ht'
      · exact ht'
    exact deliverPush_timetable hnow' hd hoff ht hq'

theorem keeps_push {tvNow delay : Option Int} (hnow : ∀ t, tvNow = some t → ClockOk conf t)
    (hd : ∀ d, delay = some d → 0 ≤ d) (ht : Timetable conf [h] q l) :
    (hqDeliverPush conf h tvNow delay).wlp (clockWorld (ClockOk conf)) True
      (fun ret q' _ => ret = 0 → Timed conf q') q () := by
  refine Faulty.wlp_mono (fun ret q' _ hp hret => ?_)
    (hqDeliverPush_timetable hnow hd List.not_mem_nil ht)
  obtain ⟨l₁, l₂, -, ht'⟩ := hp hret
  exact ⟨_, ht'⟩

theorem deliverPop_wlp (ht : Timetable conf off q l) :
    (Faulty.update (Queues.deliverPop h) : QueueProg PUnit).wlp (clockWorld (ClockOk conf)) True
      (fun _ q' _ => Timetable conf (h :: off) q' (l.erase h)) q () :=
  Faulty.wlp_update.mpr ⟨fun _ => trivial, fun _ hq => deliverPop_timetable ht hq⟩

/-- A queue is taken off the schedule and put back, with a calm program in between. -/
theorem keeps_requeue {α : Type} {m : QueueProg α} {tvNow delay : Option Int} (hm : Calm conf m)
    (hnow : ∀ t, tvNow = some t → ClockOk conf t) (hd : ∀ d, delay = some d → 0 ≤ d) :
    Keeps conf (do
      Faulty.update (Queues.deliverPop h)
      let _ ← m
      hqDeliverPush conf h tvNow delay) := by
  rintro q ⟨l, ht⟩
  refine Faulty.wlp_seq (deliverPop_wlp ht) fun _ q₁ _ ht₁ => ?_
  exact Faulty.wlp_seq (hm.timetable ht₁) fun _ q₂ _ ht₂ => keeps_push hnow hd ht₂

theorem keeps_popPush {tvNow delay : Option Int} (hnow : ∀ t, tvNow = some t → ClockOk conf t)
    (hd : ∀ d, delay = some d → 0 ≤ d) :
    Keeps conf (do
      Faulty.update (Queues.deliverPop h)
      hqDeliverPush conf h tvNow delay) := by
  rintro q ⟨l, ht⟩
  exact Faulty.wlp_seq (deliverPop_wlp ht) fun _ q₁ _ ht₁ => keeps_push hnow hd ht₁

/-- The clock is read. -/
theorem clock_wlp {β : Type} {g : Option Int → QueueProg β} {P : β → Queues → Unit → Prop}
    (hg : ∀ now, (∀ t, now = some t → ClockOk conf t) →
      (g now).wlp (clockWorld (ClockOk conf)) True P q ()) :
    (file Sys.clock >>= g).wlp (clockWorld (ClockOk conf)) True P q () := by
  refine (Faulty.wlp_bind _ _).mpr ((Faulty.wlp_lift _).mpr ?_)
  intro now _ hnow
  exact hg now hnow

theorem simtaChildQRunner_calm (hq : Option Addr) : Calm conf (simtaChildQRunner hq) := by
  unfold simtaChildQRunner
  refine .bind (calm_file _) fun now => ?_
  cases now with
  | none => exact .pure _
  | some now =>
    refine .bind (calm_ask .fork) fun pid => ?_
    cases pid with
    | none => exact .pure _
    | some pid =>
      refine .bind (calm_file _) fun ok => ?_
      split
      · cases hq with
        | none => exact .bind (calm_modify fun _ => unscheduled_of_hqs rfl (le_refl _) rfl) fun _ => .pure _
        | some h =>
          refine .bind (calm_read _) fun x => .bind (calm_file _) fun ok => ?_
          split
          · exact .bind (calm_modify fun _ => unscheduled_of_hqs rfl (le_refl _) rfl) fun _ => .pure _
          · exact .pure _
      · exact .pure _

theorem hqLaunch_keeps : Keeps conf (hqLaunch conf) := by
  rintro q ⟨l, ht⟩
  unfold hqLaunch
  refine clock_wlp fun now hnow => ?_
  cases now with
  | none => exact fun h => absurd h one_ne_zero
  | some now =>
    refine (Faulty.wlp_bind _ _).mpr (Faulty.wlp_read.mpr ⟨fun _ => trivial, fun h _ => ?_⟩)
    refine Faulty.wlp_seq (deliverPop_wlp ht) fun _ q₁ _ ht₁ => ?_
    refine (Faulty.wlp_bind _ _).mpr (Faulty.wlp_update.mpr ⟨fun _ => trivial, fun q₂ hq₂ => ?_⟩)
    have ht₂ : Timetable conf [h] q₂ (l.erase h) := by
      obtain ⟨x, hx, rfl⟩ := Option.map_eq_some_iff.mp hq₂
      have hw := ht₁.waits h x hx
      exact setHq_timetable ht₁ hx rfl rfl ⟨le_of_lt (hnow now rfl).now, hw.min, hw.max, hw.order⟩
    refine Faulty.wlp_seq (keeps_push (fun t h => Option.some.inj h ▸ hnow now rfl) nofun ht₂) ?_
    intro ret q₃ _ ht₃
    split
    · exact fun h => absurd h one_ne_zero
    · rename_i hret
      obtain ⟨l₃, ht₃⟩ := ht₃ (not_not.mp hret)
      exact Faulty.wlp_mono (fun _ _ _ ht _ => ⟨l₃, ht⟩) ((simtaChildQRunner_calm _).timetable ht₃)

theorem requeueLeaky_keeps {now : Int} (hnow : ClockOk conf now) (hostname : Option Text) :
    Keeps conf (requeueLeaky conf now hostname) := by
  unfold requeueLeaky
  cases hostname with
  | none => exact keeps_fault
  | some hostname =>
    refine keeps_calm (calm_read _) fun r => ?_
    cases r with
    | none => exact keeps_pure 0
    | some h =>
      refine keeps_calm (calm_update fun _ _ hq => unscheduled_modHq hq fun _ => rfl) fun _ => ?_
      exact keeps_popPush (fun t ht => Option.some.inj ht ▸ hnow) nofun

/-- A push at a given time does not fail. -/
theorem hqDeliverPush_zero {now : Int} {delay : Option Int} :
    (hqDeliverPush conf h (some now) delay).wlp (clockWorld (ClockOk conf)) True (fun ret _ _ => ret = 0) q () := by
  unfold hqDeliverPush
  refine (Faulty.wlp_bind _ _).mpr ((Faulty.wlp_bind _ _).mpr (Faulty.wlp_of_forall trivial ?_))
  intro t q₁ _
  refine (Faulty.wlp_bind _ _).mpr (Faulty.wlp_of_forall trivial fun _ q₂ _ => ?_)
  exact (Faulty.wlp_bind _ _).mpr (Faulty.wlp_of_forall trivial fun _ q₃ _ => rfl)

theorem requeueLeaky_zero {now : Int} (hostname : Option Text) :
    (requeueLeaky conf now hostname).wlp (clockWorld (ClockOk conf)) True (fun ret _ _ => ret = 0) q () := by
  unfold requeueLeaky
  cases hostname with
  | none => trivial
  | some hostname =>
    refine (Faulty.wlp_bind _ _).mpr (Faulty.wlp_of_forall trivial fun r q₁ _ => ?_)
    cases r with
    | none => exact rfl
    | some h =>
      refine (Faulty.wlp_bind _ _).mpr (Faulty.wlp_of_forall trivial fun _ q₂ _ => ?_)
      exact (Faulty.wlp_bind _ _).mpr (Faulty.wlp_of_forall trivial fun _ q₃ _ => hqDeliverPush_zero)

/-- The children are reaped: the timetable is kept whatever their ends. -/
theorem waitpidLoop_timed {now : Int} (hnow : ClockOk conf now) (l : List (Nat × WaitStatus)) :
    ∀ errors q, Timed conf q → (waitpidLoop conf now l errors).wlp (clockWorld (ClockOk conf)) True
      (fun _ q' _ => Timed conf q') q () := by
  induction l with
  | nil => exact fun errors q ht => ht
  | cons c rest ih =>
    intro errors q ht
    obtain ⟨pid, status⟩ := c
    refine (Faulty.wlp_bind _ _).mpr (Faulty.wlp_get.mpr ?_)
    cases q.procStab.find? fun p => p.pId = pid with
    | none => exact ih _ q ht
    | some p =>
      refine (Faulty.wlp_bind _ _).mpr ((Faulty.wlp_modify _).mpr ?_)
      have ht' : Timed conf { q with procStab := q.procStab.erase p } := by
        obtain ⟨l, ht⟩ := ht
        exact ⟨l, ht.unscheduled (unscheduled_of_hqs rfl (le_refl _) rfl)⟩
      cases status with
      | other => exact ih _ _ ht'
      | exited status =>
        dsimp only
        split
        · exact ih _ _ ht'
        · split
          · refine Faulty.wlp_seq (Faulty.wlp_and (requeueLeaky_keeps hnow _ _ ht')
              (requeueLeaky_zero _)) fun ret q₁ _ hret => ?_
            rw [if_neg (not_not.mpr hret.2)]
            exact ih _ q₁ (hret.1 hret.2)
          · exact ih _ _ ht'

theorem daemonWaitpid_keeps : Keeps conf (daemonWaitpid conf) := by
  intro q ht
  unfold daemonWaitpid
  refine clock_wlp fun now hnow => ?_
  cases now with
  | none => exact fun h => absurd h one_ne_zero
  | some now =>
    refine keeps_calm (calm_ask .waitpid) (fun l q₁ ht₁ => ?_) q ht
    exact Faulty.wlp_mono (fun _ _ _ h _ => h) (waitpidLoop_timed (hnow now rfl) l 0 q₁ ht₁)

/-! ## Commands -/

theorem promoteQueue_keeps (a : Addr) : Keeps conf (promoteQueue conf a) := by
  unfold promoteQueue
  refine keeps_calm (calm_read _) fun e => ?_
  cases e.eHq with
  | none => exact keeps_pure 0
  | some h => exact keeps_popPush nofun fun d hd => by cases hd; rfl

theorem promoteEnv_keeps (a : Addr) : Keeps conf (promoteEnv conf a) := by
  unfold promoteEnv
  refine keeps_calm (calm_envJailStatus conf a _) fun ret => ?_
  split
  · exact keeps_pure 1
  · exact keeps_return (promoteQueue_keeps a)

theorem promoteLoop_keeps (l : List Addr) : Keeps conf (promoteLoop conf l) := by
  induction l with
  | nil => exact keeps_pure 0
  | cons a rest ih => exact keeps_check (promoteEnv_keeps a) ih one_ne_zero

theorem midPromote_keeps (mid : Text) : Keeps conf (midPromote conf mid) := by
  unfold midPromote
  refine keeps_calm calm_get fun q => ?_
  cases dllLookup mid q.envList with
  | none => exact keeps_pure 0
  | some a => exact promoteEnv_keeps a

theorem senderPromote_keeps (sender : Text) : Keeps conf (senderPromote conf sender) := by
  unfold senderPromote
  refine keeps_calm calm_get fun q => ?_
  cases dllLookup sender q.senderList with
  | none => exact keeps_pure 0
  | some entries => exact promoteLoop_keeps _

theorem releaseLoop_calm (l : List Addr) : Calm conf (releaseLoop conf l) := by
  induction l with
  | nil => exact .pure 0
  | cons a rest ih =>
    refine .bind (calm_envJailStatus conf a _) fun ret => ?_
    split
    · exact .pure 1
    · exact ih

theorem queuePromote_keeps (hostname : Text) : Keeps conf (queuePromote conf hostname) := by
  unfold queuePromote
  refine keeps_calm (calm_read _) fun r => ?_
  cases r with
  | none => exact keeps_pure 0
  | some h =>
    rintro q ⟨l, ht⟩
    refine Faulty.wlp_seq (deliverPop_wlp ht) fun _ q₁ _ ht₁ => ?_
    refine Faulty.wlp_seq ((calm_read _).timetable ht₁) fun x q₂ _ ht₂ => ?_
    refine Faulty.wlp_seq ((releaseLoop_calm _).timetable ht₂) fun ret q₃ _ ht₃ => ?_
    split
    · exact fun h => absurd h one_ne_zero
    · refine Faulty.wlp_seq (keeps_push nofun (fun d hd => by cases hd; rfl) ht₃) fun ret q₄ _ ht₄ => ?_
      split
      · exact fun h => absurd h one_ne_zero
      · rename_i hret
        exact fun _ => ht₄ (not_not.mp hret)

/-- A command that is carried out, and one that ends in an error. -/
theorem runCommand_timed (av : List Text) (ht : Timed conf q) :
    (runCommand conf av).wlp (clockWorld (ClockOk conf)) True (fun r q' _ => r = .done → Timed conf q') q () := by
  have hend : ∀ {m : QueueProg Int} {c : CommandEnd}, Keeps conf m → c ≠ .done →
      (m >>= fun ret => pure (if ret ≠ 0 then c else .done)).wlp (clockWorld (ClockOk conf)) True
        (fun r q' _ => r = .done → Timed conf q') q () := by
    intro m c hm hc
    refine Faulty.wlp_seq (hm q ht) fun ret q' _ ht' => ?_
    show (if ret ≠ 0 then c else .done) = .done → Timed conf q'
    split
    · exact fun h => absurd h hc
    · rename_i hret
      exact fun _ => ht' (not_not.mp hret)
  unfold runCommand
  split
  · exact fun _ => ht
  · rename_i av0 av1
    split
    · exact hend (midPromote_keeps av1) (by decide)
    · split
      · exact hend (senderPromote_keeps av1) (by decide)
      · split
        · exact hend (queuePromote_keeps av1) (by decide)
        · split
          · obtain ⟨l, ht⟩ := ht
            dsimp only
            split
            · exact fun _ => ⟨l, ht.unscheduled (unscheduled_of_hqs rfl (le_refl _) rfl)⟩
            · exact fun _ => ⟨l, ht⟩
          · exact fun _ => ht
  · exact fun _ => ht

theorem calm_command (op : CommandOp) : Calm conf (command op) := calm_ask _

theorem readCommand_timed (ht : Timed conf q) :
    (readCommand conf).wlp (clockWorld (ClockOk conf)) True (fun r q' _ => r = .done → Timed conf q') q () := by
  obtain ⟨l, ht⟩ := ht
  unfold readCommand
  refine Faulty.wlp_seq ((calm_command _).timetable ht) fun ok q₁ _ ht₁ => ?_
  split
  · refine Faulty.wlp_seq ((calm_command .getline).timetable ht₁) fun line q₂ _ ht₂ => ?_
    cases line with
    | none => exact nofun
    | some line =>
      refine Faulty.wlp_seq ((calm_command _).timetable ht₂) fun ok q₃ _ ht₃ => ?_
      split
      · exact runCommand_timed _ ⟨l, ht₃⟩
      · exact nofun
  · exact nofun

theorem commandFile_keeps (name : Text) : Keeps conf (commandFile conf name) := by
  unfold commandFile
  refine keeps_calm (calm_command _) fun ok => ?_
  split
  · intro q ht
    refine Faulty.wlp_seq (readCommand_timed ht) fun r q₁ _ ht₁ => ?_
    cases r with
    | done =>
      refine keeps_calm (calm_command _) (fun _ => keeps_calm (calm_command _) fun _ => keeps_pure 0) q₁ (ht₁ rfl)
    | error => exact (Faulty.wlp_bind _ _).mpr fun _ _ _ h => absurd h one_ne_zero
    | left => exact fun h => absurd h one_ne_zero
  · exact keeps_pure 1

/-- A program that also returns whether its directory is open. -/
theorem keeps_dirp {m : QueueProg Int} (hm : Keeps conf m) (b : Bool) (ht : Timed conf q) :
    (m >>= fun ret => pure (ret, b) : QueueProg (Int × Bool)).wlp (clockWorld (ClockOk conf)) True
      (fun r q' _ => r.1 = 0 → Timed conf q') q () :=
  Faulty.wlp_seq (hm q ht) fun _ _ _ h => h

theorem daemonCommands_timed (sdDirp : Bool) (ht : Timed conf q) :
    (daemonCommands conf sdDirp).wlp (clockWorld (ClockOk conf)) True
      (fun r q' _ => r.1 = 0 → Timed conf q') q () := by
  unfold daemonCommands
  split
  · refine (Faulty.wlp_bind _ _).mpr ((Faulty.wlp_ask _).mpr fun d _ _ => ?_)
    cases d with
    | error => exact fun h => absurd h one_ne_zero
    | finished =>
      refine (Faulty.wlp_bind _ _).mpr ((Faulty.wlp_ask _).mpr fun ok _ _ => ?_)
      split
      · refine clock_wlp fun now _ => ?_
        cases now with
        | none => exact fun h => absurd h one_ne_zero
        | some now => exact fun _ => ht
      · exact fun h => absurd h one_ne_zero
    | entry name =>
      dsimp only
      split
      · exact keeps_dirp (commandFile_keeps name) true ht
      · exact fun _ => ht
  · refine clock_wlp fun now _ => ?_
    cases now with
    | none => exact fun h => absurd h one_ne_zero
    | some now =>
      refine (Faulty.wlp_bind _ _).mpr ((Faulty.wlp_ask _).mpr fun ok _ _ => ?_)
      split
      · exact fun _ => ht
      · exact fun h => absurd h one_ne_zero

/-! ## The slow directory -/

theorem envCreateNew_calm (dir : Dir) (id : Text) : Calm conf (envCreateNew conf dir id) := by
  have hset : ∀ id : Text, Calm conf (do
      let ok ← file Sys.malloc
      if ok = true then do
        let q ← get
        set (q.newEnv { envCreate conf.toConf dir id none none with })
        return some q.fresh
      else return none) := by
    intro id
    refine .bind (calm_file _) fun ok => ?_
    split
    · intro q _
      exact unscheduled_of_hqs rfl (Nat.le_succ _) rfl
    · exact .pure _
  unfold envCreateNew
  refine .bind (calm_file _) fun ok => ?_
  split
  · have hid : Calm conf (newId id) := by
      unfold newId
      split
      · exact calm_ask _
      · exact .pure _
    refine .bind hid fun id => ?_
    cases id with
    | none => exact .pure _
    | some id => exact hset id
  · exact .pure _

theorem filtered_calm (hostname : Option Text) : Calm conf (filtered conf hostname) := by
  unfold filtered
  split
  · exact .pure _
  · exact .pure _
  · exact .bind (calm_ask _) fun _ => .pure _

theorem ringInsert_unscheduled {q' : Queues} {a : Addr} (hq : q.ringInsert a = some q') :
    Unscheduled conf q q' := by
  have henvQueue : ∀ (u : Queues) (o : Option Addr), Unscheduled conf u { u with envQueue := o } := fun u o =>
    unscheduled_of_hqs rfl (le_refl _) rfl
  unfold Queues.ringInsert at hq
  split at hq
  · exact (henvQueue q _).trans (unscheduled_modEnv hq)
  · simp only [Option.bind_eq_bind, Option.bind_eq_some_iff] at hq
    obtain ⟨x, -, q₁, h₁, x', -, p, -, q₂, h₂, q₃, h₃, hq⟩ := hq
    cases hq
    exact (((unscheduled_modEnv h₁).trans (unscheduled_modEnv h₂)).trans (unscheduled_modEnv h₃)).trans
      (henvQueue q₃ _)

theorem scanEfile_calm (dir : Dir) (id : Text) : Calm conf (scanEfile conf dir id) := by
  have hfree : ∀ a, Calm conf (modify (Queues.freeEnv a) : QueueProg PUnit) := fun a =>
    calm_modify fun q => unscheduled_of_hqs rfl (le_refl _) rfl
  unfold scanEfile
  refine .bind (calm_read _) fun r => ?_
  cases r with
  | some a => exact .bind calm_get fun q => .bind (calm_modEnv _ _) fun _ => .pure _
  | none =>
    refine .bind (envCreateNew_calm dir id) fun r => ?_
    cases r with
    | none => exact .pure _
    | some a =>
      refine .bind (calm_ask .locals) fun locals => .bind (calm_onEnvelope a _) fun ret => ?_
      split
      · exact .bind (hfree a) fun _ => .pure _
      · refine .bind (calm_read _) fun e => ?_
        refine .bind (calm_modify fun q => unscheduled_of_hqs rfl (le_refl _) rfl) fun _ => ?_
        refine .bind (filtered_calm _) fun out => ?_
        split
        · exact .bind (hfree a) fun _ => .pure _
        · refine .bind (calm_queueEnvelope conf a) fun ret => ?_
          split
          · exact .pure _
          · refine .bind calm_get fun q => .bind (calm_modEnv _ _) fun _ => ?_
            exact .bind (calm_update fun _ _ hq => ringInsert_unscheduled hq) fun _ => .pure _

/-- A queue without a launch time is off the schedule. -/
theorem Timetable.off_of_zero {x : HostQ} (ht : Timetable conf off q l) (hx : q.hqs h = some x)
    (hoff : h ∉ off) (hn : x.hqNextLaunch = 0) : Timetable conf (h :: off) q l := by
  refine ⟨ht.schedule, fun k y hy hk => ht.timed k y hy fun hm => hk (List.mem_cons_of_mem _ hm),
    fun k hk => ?_, ht.waits, ht.bound⟩
  rcases List.mem_cons.mp hk with rfl | hk
  · exact fun hm => (ht.timed k x hx hoff).mp hm hn
  · exact ht.apart k hk

theorem cycleHosts_keeps {now : Int} (hnow : ClockOk conf now) (hosts : List Addr) :
    Keeps conf (cycleHosts conf now hosts) := by
  induction hosts with
  | nil => exact keeps_pure 0
  | cons h rest ih =>
    refine keeps_calm (calm_update fun _ _ hq => pruneMessages_unscheduled hq) fun _ => ?_
    rintro q ⟨l, ht⟩
    refine (Faulty.wlp_bind _ _).mpr (Faulty.wlp_read.mpr ⟨fun _ => trivial, fun x hx => ?_⟩)
    split
    · have hout : Calm conf
          (modify fun q => { q with hostQ := q.hostQ.erase h } : QueueProg PUnit) :=
        calm_modify fun _ => unscheduled_of_hqs rfl (le_refl _) rfl
      refine keeps_calm hout (fun _ => ?_) q ⟨l, ht⟩
      rintro q₁ ⟨l₁, ht₁⟩
      refine (Faulty.wlp_bind _ _).mpr (Faulty.wlp_update.mpr ⟨fun _ => trivial, fun q₂ hq₂ => ?_⟩)
      exact ih q₂ ⟨_, hqFree_timetable ht₁ hq₂⟩
    · split
      · rename_i hn
        refine Faulty.wlp_seq (keeps_push (fun t h => Option.some.inj h ▸ hnow) nofun
          (ht.off_of_zero hx List.not_mem_nil hn)) fun ret q₁ _ ht₁ => ?_
        split
        · exact fun h => absurd h one_ne_zero
        · rename_i hret
          exact ih q₁ (ht₁ (not_not.mp hret))
      · exact ih q ⟨l, ht⟩

theorem cycleEnd_keeps {now : Int} (hnow : ClockOk conf now) : Keeps conf (cycleEnd conf now) := by
  unfold cycleEnd
  refine keeps_calm calm_get fun q => ?_
  cases q.unexpandedQ with
  | none => exact keeps_calm calm_get fun q => cycleHosts_keeps hnow _
  | some h =>
    refine keeps_calm (calm_update fun _ _ hq => pruneMessages_unscheduled hq) fun _ => ?_
    exact keeps_calm calm_get fun q => cycleHosts_keeps hnow _

theorem scanEntry_calm (dir : Dir) (name : Text) : Calm conf (scanEntry conf dir name) := by
  unfold scanEntry
  split
  · exact scanEfile_calm dir _
  · exact .pure _

theorem qReadDir_timed (sdDir : Dir) (sdDirp : Bool) (ht : Timed conf q) :
    (qReadDir conf sdDir sdDirp).wlp (clockWorld (ClockOk conf)) True
      (fun r q' _ => r.1 = 0 → Timed conf q') q () := by
  unfold qReadDir
  split
  · refine (Faulty.wlp_bind _ _).mpr fun d _ _ => ?_
    cases d with
    | error => exact fun h => absurd h one_ne_zero
    | finished =>
      obtain ⟨l, ht⟩ := ht
      refine Faulty.wlp_seq ((calm_file _).timetable ht) fun ok q₁ _ ht₁ => ?_
      split
      · refine clock_wlp fun now hnow => ?_
        cases now with
        | none => exact fun h => absurd h one_ne_zero
        | some now => exact keeps_dirp (cycleEnd_keeps (hnow now rfl)) false ⟨l, ht₁⟩
      · exact fun h => absurd h one_ne_zero
    | entry name =>
      obtain ⟨l, ht⟩ := ht
      exact Faulty.wlp_seq ((scanEntry_calm sdDir name).timetable ht) fun ret q₁ _ ht₁ _ => ⟨l, ht₁⟩
  · refine clock_wlp fun now _ => ?_
    cases now with
    | none => exact fun h => absurd h one_ne_zero
    | some now =>
      obtain ⟨l, ht⟩ := ht
      refine Faulty.wlp_seq ((calm_file _).timetable ht) fun ok q₁ _ ht₁ => ?_
      split
      · exact fun _ => ⟨l, ht₁⟩
      · exact fun h => absurd h one_ne_zero

theorem readSlow_timed (sdDirp : Bool) (ht : Timed conf q) :
    (readSlow conf sdDirp).wlp (clockWorld (ClockOk conf)) True
      (fun r q' _ => r.1 = 0 → Timed conf q') q () := by
  unfold readSlow
  split
  · exact qReadDir_timed .slow true ht
  · obtain ⟨l, ht⟩ := ht
    refine (Faulty.wlp_bind _ _).mpr ?_
    exact qReadDir_timed .slow false ⟨l, ht.unscheduled (unscheduled_of_hqs rfl (le_refl _) rfl)⟩

/-! ## The loop -/

theorem simtaChildReceive_calm : Calm conf simtaChildReceive := by
  unfold simtaChildReceive
  refine .bind (calm_ask .fork) fun pid => ?_
  cases pid with
  | none => exact .pure _
  | some pid =>
    refine .bind (calm_file _) fun ok => ?_
    split
    · exact .bind (calm_modify fun _ => unscheduled_of_hqs rfl (le_refl _) rfl) fun _ => .pure _
    · exact .pure _

theorem unexpandedRunner_calm : Calm conf unexpandedRunner := by
  unfold unexpandedRunner
  refine .bind calm_get fun q => ?_
  cases q.unexpandedQ with
  | none => exact .pure _
  | some h =>
    refine .bind (calm_read _) fun x => ?_
    split
    · exact .pure _
    · exact simtaChildQRunner_calm _

/-- A calm step, or one that keeps the timetable when it returns 0. -/
theorem keeps_of_calm {m : QueueProg Int} (hm : Calm conf m) : Keeps conf m := by
  rintro q ⟨l, ht⟩
  exact Faulty.wlp_mono (fun _ _ _ h _ => ⟨l, h⟩) (hm.timetable ht)

theorem step_timed (slowDirp commandDirp : Bool) (s : DaemonStep) (ht : Timed conf q) :
    (s.prog conf slowDirp commandDirp).wlp (clockWorld (ClockOk conf)) True
      (fun r q' _ => r.1 = 0 → Timed conf q') q () := by
  cases s with
  | localRunner => exact Faulty.wlp_seq (keeps_of_calm (simtaChildQRunner_calm none) q ht) fun _ _ _ h => h
  | waitpid => exact Faulty.wlp_seq (daemonWaitpid_keeps q ht) fun _ _ _ h => h
  | commands => exact Faulty.wlp_seq (daemonCommands_timed commandDirp ht) fun _ _ _ h => h
  | disk => exact Faulty.wlp_seq (readSlow_timed slowDirp ht) fun _ _ _ h => h
  | unexpanded => exact Faulty.wlp_seq (keeps_of_calm unexpandedRunner_calm q ht) fun _ _ _ h => h
  | launch => exact Faulty.wlp_seq (hqLaunch_keeps q ht) fun _ _ _ h => h
  | receive => exact Faulty.wlp_seq (keeps_of_calm simtaChildReceive_calm q ht) fun _ _ _ h => h

theorem start_timed : Timed conf .start := by
  refine ⟨[], ⟨Linked.nil, ?_, ?_, .nil⟩, ?_, ?_, ?_, ?_⟩ <;> intro h <;> intros <;> contradiction

theorem daemonRun_timed {P : DaemonStep → Prop} {d : Daemon} (hr : DaemonRun conf (clockWorld (ClockOk conf)) P d) :
    Timed conf d.queues :=
  hr.induction start_timed fun d s ht _ => step_timed d.slowDirp d.commandDirp s ht

/-- **The delivery schedule over every run of the loop**: it is a doubly linked list without repetition, in
    order of launch, of queues that are there, and holds every queue with a launch time. -/
theorem daemonRun_schedule {P : DaemonStep → Prop} {d : Daemon}
    (hr : DaemonRun conf (clockWorld (ClockOk conf)) P d) :
    ∃ l, Schedule d.queues l ∧ ∀ h x, d.queues.hqs h = some x → x.hqNextLaunch ≠ 0 → h ∈ l := by
  obtain ⟨l, ht⟩ := daemonRun_timed hr
  exact ⟨l, ht.schedule, fun h x hx => (ht.timed h x hx List.not_mem_nil).mpr⟩

end Steps

/-! A message on parole is read from the disk, and a command releases it. -/

def releaseConf : QueueConf := { mailJail := true, midListEnable := true, red := ⟨false, none, none⟩ }

def paroledEfile (hostname : Text) : List Text :=
  [['V', '5'], ['E', 'a'], ['I', '7'], ['X', '0'], ['J', '1'], 'H' :: hostname, ['D', '0'], ['F'], ['R', 'r']]

def releaseSteps (hostname : Text) : List (DaemonStep × Calls) :=
  [(.disk, {}), (.disk, { dirent := .entry ['E', 'a'], efile := paroledEfile hostname }), (.commands, {}),
    (.commands, { commandDirent := .entry ['C'], line := some "Message a".toList })]

theorem clockOk_releaseConf : ClockOk releaseConf 1000 :=
  ⟨by decide, by decide, by decide, by decide, fun r hr => by cases hr⟩

theorem daemonRun_release {hostname : Text} {d : Daemon}
    (hd : Daemon.replay releaseConf (releaseSteps hostname) .start = some d) :
    DaemonRun releaseConf (clockWorld (ClockOk releaseConf)) (fun _ => True) d := by
  refine daemonRun_of_replay (fun x hx => ⟨trivial, ?_⟩) .start hd
  simp only [releaseSteps, List.mem_cons, List.not_mem_nil, or_false] at hx
  rcases hx with rfl | rfl | rfl | rfl <;> exact clockOk_releaseConf

/-- The launch time of the queue of unexpanded messages. -/
def releasedLaunch : Option Int := do
  let d ← Daemon.replay releaseConf (releaseSteps []) .start
  let h ← d.queues.unexpandedQ
  let x ← d.queues.hqs h
  some x.hqNextLaunch

theorem daemonRun_schedule_release : ∃ (d : Daemon) (h : Addr) (l : List Addr), d.queues.unexpandedQ = some h ∧ Schedule d.queues l ∧ h ∈ l := by
  have hlaunch : releasedLaunch = some 1000 := by decide +kernel
  unfold releasedLaunch at hlaunch
  obtain ⟨d, hd, hlaunch⟩ := Option.bind_eq_some_iff.mp hlaunch
  obtain ⟨h, hh, hlaunch⟩ := Option.bind_eq_some_iff.mp hlaunch
  obtain ⟨x, hx, hlaunch⟩ := Option.bind_eq_some_iff.mp hlaunch
  obtain ⟨l, hl, hmem⟩ := daemonRun_schedule (daemonRun_release hd)
  refine ⟨d, h, l, hh, hl, hmem h x hx ?_⟩
  rw [Option.some.inj hlaunch]
  decide

end Simta
