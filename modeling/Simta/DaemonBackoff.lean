import Simta.DaemonSchedule

/-!
# The waits over the server loop

Where the server calls `hq_deliver_push`: after a launch, for a queue whose child has come back leaky, for a
queue that a command promotes, and for a new queue at the end of a cycle.

* `PushCall` — such a call in a step of the loop, with the state it is made in;
* `PushCall.timetable` — the queue is off the schedule then, and the rest of the schedule is in order;
* `daemonRun_backoff` — when the push backs off.
-/

set_option autoImplicit false

namespace Simta

open QueueProg

/-- In the step `s` of the server at `d`, `hq_deliver_push` is called for the queue `h` with these two times,
    and `q` is the state then. -/
inductive PushCall (conf : QueueConf) (R : Prog.World QueueOp QueueAns Unit) (d : Daemon) :
    DaemonStep → Addr → Option Int → Option Int → Queues → Prop
  /-- The first queue of the schedule is launched. -/
  | launch {now : Int} {h : Addr} {q₁ q : Queues} (hnow : R (.file .clock) () (some now) ())
      (hh : d.queues.deliverQ = some h) (hpop : d.queues.deliverPop h = some q₁)
      (hlast : q₁.modHq h (fun x => { x with hqLastLaunch := now }) = some q) :
      PushCall conf R d .launch h (some now) none q
  /-- Behind some children, there is one that has found its queue leaky. -/
  | leaky {now errors : Int} {children : List (Nat × WaitStatus)} {p : Proc} {hostname : Text} {h : Addr}
      {q₁ q₂ q : Queues} (hnow : R (.file .clock) () (some now) ())
      (hloop : (waitpidLoop conf now children 0).Runs R d.queues () errors q₁ ()) (hp : p ∈ q₁.procStab)
      (hslow : p.pType = .qSlow) (hhost : p.pHost = some hostname)
      (hfind : hostQFind q₁.hqs hostname q₁.hostQ = some (some h))
      (hleaky : ({ q₁ with procStab := q₁.procStab.erase p } : Queues).modHq h
        (fun x => { x with hqLeaky := true }) = some q₂)
      (hpop : q₂.deliverPop h = some q) : PushCall conf R d .waitpid h (some now) none q
  /-- Behind some envelopes of its sender, or by itself, an envelope is released. -/
  | promote {envs : List Addr} {a h : Addr} {e : QEnv} {q₁ q₂ q : Queues}
      (hloop : (promoteLoop conf envs).Runs R d.queues () 0 q₁ ())
      (hjail : (envJailStatus conf (some a) envJailParolee).Runs R q₁ () 0 q₂ ())
      (he : q₂.envs a = some e) (hh : e.eHq = some h) (hpop : q₂.deliverPop h = some q) :
      PushCall conf R d .commands h none (some 0) q
  /-- The messages of a queue have been released. -/
  | queue {h : Addr} {x : HostQ} {q₁ q : Queues} (hmem : h ∈ d.queues.hostQ)
      (hpop : d.queues.deliverPop h = some q₁) (hx : q₁.hqs h = some x)
      (hloop : (releaseLoop conf x.hqEnvHead).Runs R q₁ () 0 q ()) :
      PushCall conf R d .commands h none (some 0) q
  /-- At the end of a cycle, behind some host queues, there is one without a launch time. -/
  | cycle {now : Int} {l₁ l₂ : List Addr} {h : Addr} {x : HostQ} {q₁ q₂ q : Queues}
      (hnow : R (.file .clock) () (some now) ())
      (hpruned : (∃ u, d.queues.unexpandedQ = some u ∧ d.queues.pruneMessages u = some q₁) ∨
        d.queues.unexpandedQ = none ∧ q₁ = d.queues)
      (hhosts : q₁.hostQ = l₁ ++ h :: l₂) (hloop : (cycleHosts conf now l₁).Runs R q₁ () 0 q₂ ())
      (hprune : q₂.pruneMessages h = some q) (hx : q.hqs h = some x) (hsome : x.hqEnvHead ≠ [])
      (hnew : x.hqNextLaunch = 0) : PushCall conf R d .disk h (some now) none q

section PushCall

variable {conf : QueueConf} {P : DaemonStep → Prop} {d : Daemon} {s : DaemonStep} {h : Addr}
variable {tvNow delay : Option Int} {now : Int} {q : Queues}

/-- **At a push** the queue is off the schedule, and the rest of the schedule is in order. -/
theorem PushCall.timetable (hc : PushCall conf (clockWorld (ClockOk conf)) d s h tvNow delay q)
    (ht : Timed conf d.queues) : (∃ l, Timetable conf [h] q l) ∧ (q.hqs h).isSome := by
  have hpopped : ∀ {q₁ q₂ : Queues}, Timed conf q₁ → q₁.deliverPop h = some q₂ →
      (∃ l, Timetable conf [h] q₂ l) ∧ (q₂.hqs h).isSome := by
    rintro q₁ q₂ ⟨l, ht⟩ hpop
    refine ⟨⟨_, deliverPop_timetable ht hpop⟩, ?_⟩
    have hx := hpop
    simp only [Queues.deliverPop, Option.bind_eq_bind, Option.bind_eq_some_iff] at hx
    obtain ⟨x, hx, -⟩ := hx
    obtain ⟨u, hu, hr, -⟩ := deliverPop_spec ht.schedule hx
    cases hpop.symm.trans hu
    exact (hr.isSome h).trans (Option.isSome_of_eq_some hx)
  cases hc with
  | launch hnow hh hpop hlast =>
    obtain ⟨⟨l, ht₁⟩, -⟩ := hpopped ht hpop
    obtain ⟨x, hx, rfl⟩ := Option.map_eq_some_iff.mp hlast
    have hw := ht₁.waits h x hx
    have hnow := hnow _ rfl
    exact ⟨⟨l, setHq_timetable ht₁ hx rfl rfl ⟨le_of_lt hnow.now, hw.min, hw.max, hw.order⟩⟩, by simp⟩
  | @leaky _ _ _ p _ _ q₁ q₂ _ hnow hloop hp hslow hhost hfind hleaky hpop =>
    obtain ⟨l, ht₁⟩ := (Faulty.wlp_iff_runs.mp (waitpidLoop_timed (hnow _ rfl) _ 0 _ ht)).1 _ _ _ hloop
    have hreaped : Unscheduled conf q₁ { q₁ with procStab := q₁.procStab.erase p } :=
      unscheduled_of_hqs rfl (le_refl _) rfl
    have hmarked : Unscheduled conf { q₁ with procStab := q₁.procStab.erase p } q₂ :=
      unscheduled_modHq hleaky fun _ => rfl
    exact hpopped ⟨l, ht₁.unscheduled (hreaped.trans hmarked)⟩ hpop
  | promote hloop hjail he hh hpop =>
    obtain ⟨l, ht₁⟩ := (Faulty.wlp_iff_runs.mp (promoteLoop_keeps _ _ ht)).1 _ _ _ hloop rfl
    have ht₂ := (Faulty.wlp_iff_runs.mp ((calm_envJailStatus conf _ _).timetable ht₁)).1 _ _ _ hjail
    exact hpopped ⟨l, ht₂⟩ hpop
  | @queue _ x q₁ _ hmem hpop hx hloop =>
    obtain ⟨⟨l, ht₁⟩, -⟩ := hpopped ht hpop
    have hrun := (Faulty.wlp_iff_runs.mp (releaseLoop_calm x.hqEnvHead q₁ ht₁.bound)).1 _ _ _ hloop
    obtain ⟨y, hy, -⟩ := hrun.kept h x hx
    exact ⟨⟨l, ht₁.unscheduled hrun⟩, Option.isSome_of_eq_some hy⟩
  | @cycle now l₁ l₂ _ x q₁ q₂ _ hnow hpruned hhosts hloop hprune hx hsome hnew =>
    have ht₁ : Timed conf q₁ := by
      obtain ⟨l, ht⟩ := ht
      rcases hpruned with ⟨u, -, hu⟩ | ⟨-, rfl⟩
      · exact ⟨l, ht.unscheduled (pruneMessages_unscheduled hu)⟩
      · exact ⟨l, ht⟩
    obtain ⟨l, ht₂⟩ := (Faulty.wlp_iff_runs.mp (cycleHosts_keeps (hnow _ rfl) l₁ q₁ ht₁)).1 _ _ _ hloop rfl
    have ht₃ := ht₂.unscheduled (pruneMessages_unscheduled hprune)
    exact ⟨⟨l, ht₃.off_of_zero hx List.not_mem_nil hnew⟩, Option.isSome_of_eq_some hx⟩

/-- **The waits over every run of the loop**: a push backs off just when the queue keeps its bounds. -/
theorem daemonRun_backoff (hconf : conf.WaitsOk) (hr : DaemonRun conf (clockWorld (ClockOk conf)) P d)
    (hc : PushCall conf (clockWorld (ClockOk conf)) d s h tvNow delay q)
    (hnow : ∀ t, tvNow = some t → t = now) :
    q.BacksOff conf h tvNow delay now ↔ ∀ x, q.hqs h = some x → x.Keeps conf now delay := by
  obtain ⟨⟨l, ht⟩, hsome⟩ := hc.timetable (daemonRun_timed hr)
  obtain ⟨x, hx⟩ := Option.isSome_iff_exists.mp hsome
  have horder := (ht.waits h x hx).order hconf
  rw [backsOff_iff_keeps ht.schedule (ht.apart h List.mem_cons_self) hx ht.bound horder.1 horder.2 hconf.jail
    hnow]
  constructor
  · intro hk y hy
    cases hx.symm.trans hy
    exact hk
  · exact fun hk => hk x hx

end PushCall

/-! The queue of the released message is launched. -/

/-- The queue at the head of the schedule when it is about to be pushed again. -/
def launchedQueue (hostname : Text) : Option HostQ := do
  let d ← Daemon.replay releaseConf (releaseSteps hostname) .start
  let h ← d.queues.deliverQ
  let q₁ ← d.queues.deliverPop h
  let q ← q₁.modHq h fun x => { x with hqLastLaunch := 1000 }
  q.hqs h

theorem launch_release {hostname : Text} {x : HostQ} (hx : launchedQueue hostname = some x) :
    ∃ d h q, DaemonRun releaseConf (clockWorld (ClockOk releaseConf)) (fun _ => True) d ∧
      PushCall releaseConf (clockWorld (ClockOk releaseConf)) d .launch h (some 1000) none q ∧
      q.hqs h = some x := by
  obtain ⟨d, hd, hx⟩ := Option.bind_eq_some_iff.mp hx
  obtain ⟨h, hh, hx⟩ := Option.bind_eq_some_iff.mp hx
  obtain ⟨q₁, hpop, hx⟩ := Option.bind_eq_some_iff.mp hx
  obtain ⟨q, hlast, hx⟩ := Option.bind_eq_some_iff.mp hx
  refine ⟨d, h, q, daemonRun_release hd, .launch ?_ hh hpop hlast, hx⟩
  intro now hnow
  cases hnow
  exact clockOk_releaseConf

theorem waitsOk_releaseConf : releaseConf.WaitsOk :=
  ⟨by decide, by decide, by decide, fun r hr => by cases hr⟩

theorem daemonRun_backoff_release : ∃ d h q, DaemonRun releaseConf (clockWorld (ClockOk releaseConf)) (fun _ => True) d ∧
    PushCall releaseConf (clockWorld (ClockOk releaseConf)) d .launch h (some 1000) none q ∧
    q.BacksOff releaseConf h (some 1000) none 1000 := by
  have hfields : (launchedQueue ['h']).map (fun x =>
      (x.hqWaitLast, x.hqLeaky, decide (x.hqLastLaunch < x.hqNextLaunch))) = some (300, false, false) := by
    decide +kernel
  obtain ⟨x, hx, hfields⟩ := Option.map_eq_some_iff.mp hfields
  simp only [Prod.mk.injEq, decide_eq_false_iff_not] at hfields
  obtain ⟨hwait, hleaky, hlast⟩ := hfields
  obtain ⟨d, h, q, hr, hc, hx⟩ := launch_release hx
  refine ⟨d, h, q, hr, hc, (daemonRun_backoff waitsOk_releaseConf hr hc fun t ht => (Option.some.inj ht).symm).mpr ?_⟩
  intro y hy
  cases hx.symm.trans hy
  exact ⟨fun _ _ hrandom => by simp [HostQ.Random, hwait, hleaky] at hrandom, fun _ h => absurd h hlast⟩

/-- The queue of unexpanded messages, which has no waits, is launched once a command has promoted it. -/
theorem unexpanded_not_backsOff : ∃ conf d h q, conf.WaitsOk ∧
    DaemonRun conf (clockWorld (ClockOk conf)) (fun _ => True) d ∧
    PushCall conf (clockWorld (ClockOk conf)) d .launch h (some 1000) none q ∧
    ¬ q.BacksOff conf h (some 1000) none 1000 := by
  have hfields : (launchedQueue []).map (fun x =>
      (x.hqMinWait, x.hqMaxWait, x.hqWaitLast, x.hqEntries, x.hqJailEnvs)) = some (0, 0, 0, 1, 0) := by
    decide +kernel
  obtain ⟨x, hx, hfields⟩ := Option.map_eq_some_iff.mp hfields
  simp only [Prod.mk.injEq] at hfields
  obtain ⟨hmin, hmax, hwait, hentries, hjail⟩ := hfields
  obtain ⟨d, h, q, hr, hc, hx⟩ := launch_release hx
  refine ⟨releaseConf, d, h, q, waitsOk_releaseConf, hr, hc, fun hback => ?_⟩
  obtain ⟨⟨l, ht⟩, -⟩ := hc.timetable (daemonRun_timed hr)
  have hkeeps := (backsOff_iff_keeps ht.schedule (ht.apart h List.mem_cons_self) hx ht.bound (by omega) (by omega)
    waitsOk_releaseConf.jail fun t ht => (Option.some.inj ht).symm).mp hback
  refine hkeeps.random rfl (fun hj => ?_) (.inl hwait) hmin
  have hall := hj.2
  omega

end Simta
