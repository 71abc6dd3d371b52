import Simta.Schedule

/-!
# The wait of a host queue

`queue.c`: what `hq_deliver_push` computes, as a function of the queue, the time, the delay and the random
number.

* `HostQ.pushed` — the queue with its wait and its launch time; `Queues.deliverPush` — and on the schedule;
* `hqDeliverPush_wlp` — the program computes that, whatever the clock reads;
* `deliverPush_spec` — what it leaves of the schedule.
-/

set_option autoImplicit false

namespace Simta

open QueueProg

/-- The clock reads a time that `T` allows, and every other call may answer anything. -/
def clockWorld (T : Int → Prop) : Prog.World QueueOp QueueAns Unit := fun op _ a _ =>
  match op, a with
  | .file .clock, a => ∀ now, a = some now → T now
  | _, _ => True

/-- The queue, its wait and its launch time, before the two are set; `none` is a remainder by zero. -/
def HostQ.launchTime (conf : QueueConf) (x : HostQ) (now : Int) (delay : Option Int) (r : Nat) :
    Option (HostQ × Int × Int) :=
  match delay with
  | some d =>
    if d > x.hqMaxWait then some (x, x.hqMaxWait, x.hqMaxWait + now)
    else some (x, if d < x.hqMinWait then x.hqMinWait else d, d + now)
  | none =>
    if conf.mailJail ∧ x.hqEntries = x.hqJailEnvs then
      if x.hqLastLaunch = 0 then
        if conf.jailSeconds = 0 then none
        else some (x, conf.jailSeconds, Int.tmod r conf.jailSeconds + now)
      else some (x, conf.jailSeconds, conf.jailSeconds + now)
    else if x.hqWaitLast = 0 ∨ x.hqLeaky then
      if x.hqMinWait = 0 then none
      else some ({ x with hqLeaky := false }, x.hqMinWait, Int.tmod r x.hqMinWait + now)
    else
      let wait :=
        if x.hqWaitLast * 2 ≤ x.hqMaxWait then
          if x.hqWaitLast * 2 < x.hqMinWait then x.hqMinWait else x.hqWaitLast * 2
        else x.hqMaxWait
      some (x, wait, wait + now)

/-- The queue with its wait and its launch time. -/
def HostQ.pushed (conf : QueueConf) (x : HostQ) (now : Int) (delay : Option Int) (r : Nat) : Option HostQ :=
  (x.launchTime conf now delay r).map fun (y, wait, launch) => y.setLaunch wait launch

/-- What `hq_deliver_push` does at the time `now`. -/
def Queues.deliverPush (conf : QueueConf) (h : Addr) (now : Int) (delay : Option Int) (r : Nat) (q : Queues) :
    Option Queues := do
  let x ← q.hqs h
  let y ← x.pushed conf now delay r
  (q.setHq h (some y)).deliverInsert h

section Push

variable {conf : QueueConf} {T : Int → Prop} {F : Prop} {q : Queues} {h : Addr} {x y : HostQ} {now : Int}
variable {delay : Option Int}

theorem setHq_self (hx : q.hqs h = some x) : q.setHq h (some x) = q := by
  unfold Queues.setHq
  congr 1
  funext k
  split
  · rename_i hk
    rw [hk, hx]
  · rfl

theorem setHq_setHq (o o' : Option HostQ) : (q.setHq h o).setHq h o' = q.setHq h o' := by
  unfold Queues.setHq
  congr 1
  funext k
  dsimp only
  split <;> rfl

theorem randomMod_wlp {n : Int} {Q : Int → Queues → Unit → Prop} :
    (randomMod n).wlp (clockWorld T) F Q q () ↔
      ∀ r : Nat, if n = 0 then F else Q (Int.tmod r n) q () := by
  unfold randomMod
  rw [Faulty.wlp_bind, Faulty.wlp_ask]
  constructor
  · intro hw r
    have hr := hw r () trivial
    split at hr <;> simp_all
  · intro hw r _ _
    have hr := hw r
    split <;> simp_all

theorem launchTime_wlp {Q : Int × Int → Queues → Unit → Prop} (hx : q.hqs h = some x) :
    (launchTime conf h now delay).wlp (clockWorld T) F Q q () ↔
      ∀ r, match x.launchTime conf now delay r with
        | none => F
        | some (y, t) => Q t (q.setHq h (some y)) () := by
  have hread : ∀ {β : Type} {g : HostQ → QueueProg β} {P : β → Queues → Unit → Prop},
      (hq h >>= g).wlp (clockWorld T) F P q () ↔ (g x).wlp (clockWorld T) F P q () := by
    intro β g P
    rw [Faulty.wlp_bind, QueueProg.hq, Faulty.wlp_read]
    simp [hx]
  have hself := setHq_self hx
  unfold launchTime HostQ.launchTime
  rw [hread]
  cases delay with
  | some d =>
    dsimp only
    split <;> simp [hself]
  | none =>
    dsimp only
    split
    · split
      · rw [Faulty.wlp_bind, randomMod_wlp]
        refine forall_congr' fun r => ?_
        split <;> simp [hself]
      · simp [hself]
    · split
      · rw [Faulty.wlp_bind, modHq, Faulty.wlp_update]
        simp only [Queues.modHq, hx, Option.map_some, reduceCtorEq, false_implies, true_and,
          Option.some.injEq, forall_eq']
        rw [Faulty.wlp_bind, randomMod_wlp]
        refine forall_congr' fun r => ?_
        split <;> simp
      · simp [hself]

/-- `hq_deliver_push` behind the reading of the clock. -/
def hqDeliverPushAt (conf : QueueConf) (h : Addr) (tvDelay : Option Int) (now : Int) : QueueProg Int := do
  let (wait, launch) ← launchTime conf h now tvDelay
  modHq h fun x => x.setLaunch wait launch
  Faulty.update (Queues.deliverInsert h)
  return 0

/-- **`hq_deliver_push` computes `deliverPush`** at the time it is given or reads. -/
theorem hqDeliverPush_wlp {tvNow : Option Int} {Q : Int → Queues → Unit → Prop} (hx : q.hqs h = some x) :
    (hqDeliverPush conf h tvNow delay).wlp (clockWorld T) F Q q () ↔
      (tvNow = none → Q 1 q ()) ∧ ∀ now r, (tvNow = some now ∨ tvNow = none ∧ T now) →
        (q.deliverPush conf h now delay r = none → F) ∧
          ∀ q', q.deliverPush conf h now delay r = some q' → Q 0 q' () := by
  have hbody : ∀ now, (hqDeliverPushAt conf h delay now).wlp (clockWorld T) F Q q () ↔
      ∀ r, (q.deliverPush conf h now delay r = none → F) ∧
        ∀ q', q.deliverPush conf h now delay r = some q' → Q 0 q' () := by
    intro now
    unfold hqDeliverPushAt
    rw [Faulty.wlp_bind, launchTime_wlp hx]
    refine forall_congr' fun r => ?_
    unfold Queues.deliverPush HostQ.pushed
    simp only [hx, Option.bind_eq_bind, Option.bind_some]
    cases x.launchTime conf now delay r with
    | none => simp
    | some t =>
      obtain ⟨y, wait, launch⟩ := t
      simp only [Faulty.wlp_bind, modHq, Faulty.wlp_update, Faulty.wlp_pure, Option.map_some,
        Option.bind_some]
      have hm : (q.setHq h (some y)).modHq h (fun x => x.setLaunch wait launch) =
          some (q.setHq h (some (y.setLaunch wait launch))) := by
        rw [modHq_of_some (x := y) (by simp), setHq_setHq]
      simp only [hm, reduceCtorEq, false_implies, true_and, Option.some.injEq, forall_eq']
  unfold hqDeliverPush
  cases tvNow with
  | some now =>
    rw [Faulty.wlp_bind, Faulty.wlp_pure]
    refine (hbody now).trans ⟨fun hw => ⟨fun h => (by cases h), fun t r ht => ?_⟩, fun hw r => hw.2 now r (.inl rfl)⟩
    rcases ht with ht | ⟨ht, -⟩
    · cases ht
      exact hw r
    · cases ht
  | none =>
    rw [Faulty.wlp_bind]
    unfold file
    rw [Faulty.wlp_lift]
    constructor
    · intro hw
      refine ⟨fun _ => hw none () (fun t ht => by cases ht), fun now r hnow => ?_⟩
      rcases hnow with hnow | ⟨-, hnow⟩
      · cases hnow
      · exact (hbody now).mp (hw (some now) () fun t ht => Option.some.inj ht ▸ hnow) r
    · rintro ⟨hnone, hsome⟩ a t ha
      cases a with
      | none => exact hnone rfl
      | some now => exact (hbody now).mpr fun r => hsome now r (.inr ⟨rfl, ha now rfl⟩)

/-! ## What a push leaves -/

theorem pushed_rest {r : Nat} (hy : x.pushed conf now delay r = some y) :
    y = { x with hqLeaky := y.hqLeaky, hqWaitLast := y.hqWaitLast, hqNextLaunch := y.hqNextLaunch } := by
  have hset : ∀ (z : HostQ) (wait launch : Int), z.setLaunch wait launch = { z with
      hqWaitLast := (z.setLaunch wait launch).hqWaitLast
      hqNextLaunch := (z.setLaunch wait launch).hqNextLaunch } := by
    intro z wait launch
    unfold HostQ.setLaunch
    split <;> rfl
  obtain ⟨⟨z, wait, launch⟩, hz, rfl⟩ := Option.map_eq_some_iff.mp hy
  have hzx : z = { x with hqLeaky := z.hqLeaky } := by
    unfold HostQ.launchTime at hz
    cases delay with
    | some d =>
      dsimp only at hz
      split at hz <;> cases hz <;> rfl
    | none =>
      dsimp only at hz
      split at hz
      · split at hz
        · split at hz <;> cases hz
          rfl
        · cases hz
          rfl
      · split at hz
        · split at hz <;> cases hz
          rfl
        · cases hz
          rfl
  dsimp only
  rw [hset z wait launch]
  rw [hzx]

/-- A queue that is not on the schedule may be written, all but its links. -/
theorem Schedule.setHq {l : List Addr} (hs : Schedule q l) (hmem : h ∉ l) (hx : q.hqs h = some x)
    (hn : y.hqDeliverNext = x.hqDeliverNext) (hp : y.hqDeliverPrev = x.hqDeliverPrev) :
    Schedule (q.setHq h (some y)) l := by
  have hne : ∀ k ∈ l, k ≠ h := fun k hk he => hmem (he ▸ hk)
  refine ⟨?_, fun k hk => ?_, fun k z hk hz => ?_, ?_⟩
  · refine hs.linked.congr (fun k hk => ?_) fun k hk => ?_
    · rw [setHq_deliverNext, if_neg (hne k hk)]
    · rw [setHq_deliverPrev, if_neg (hne k hk)]
  · rw [Queues.setHq_hqs, if_neg (hne k hk)]
    exact hs.there k hk
  · rw [Queues.setHq_hqs] at hz
    split at hz
    · cases hz
      rw [hn, hp]
      exact hs.apart h x hmem hx
    · exact hs.apart k z hk hz
  · refine hs.ordered.imp_of_mem ?_
    intro a b ha hb hab
    simp only [Queues.nextLaunch, Queues.setHq_hqs, if_neg (hne a ha), if_neg (hne b hb)]
    exact hab

/-- **What a push leaves**: the queue with its new times is on the schedule. -/
theorem deliverPush_spec {l : List Addr} {r : Nat} (hs : Schedule q l) (hmem : h ∉ l) (hx : q.hqs h = some x)
    (hb : ∀ k y, q.hqs k = some y → k < q.fresh) (hy : x.pushed conf now delay r = some y) :
    ∃ q' l₁ l₂, q.deliverPush conf h now delay r = some q' ∧ l = l₁ ++ l₂ ∧
      Rescheduled (q.setHq h (some y)) q' ∧ Schedule q' (l₁ ++ h :: l₂) := by
  have hrest := pushed_rest hy
  have hs' : Schedule (q.setHq h (some y)) l := by
    refine hs.setHq hmem hx ?_ ?_
    · rw [hrest]
    · rw [hrest]
  obtain ⟨q', l₁, l₂, hq', hl, hr, hs''⟩ := deliverInsert_spec (x := y) hs' hmem (by simp) fun k z hz => by
    rw [Queues.setHq_hqs] at hz
    split at hz
    · rename_i hk
      exact hk ▸ hb h x hx
    · exact hb k z hz
  refine ⟨q', l₁, l₂, ?_, hl, hr, hs''⟩
  simp only [Queues.deliverPush, hx, hy, Option.bind_eq_bind, Option.bind_some]
  exact hq'

theorem deliverPush_eq_none {l : List Addr} {r : Nat} (hs : Schedule q l) (hmem : h ∉ l) (hx : q.hqs h = some x)
    (hb : ∀ k y, q.hqs k = some y → k < q.fresh) :
    q.deliverPush conf h now delay r = none ↔ x.pushed conf now delay r = none := by
  cases hy : x.pushed conf now delay r with
  | none => simp [Queues.deliverPush, hx, hy]
  | some y =>
    obtain ⟨q', -, -, hq', -⟩ := deliverPush_spec hs hmem hx hb hy
    simp [hq']

/-! ## The bounds -/

/-- Every message of the queue is in jail. -/
def HostQ.AllJailed (conf : QueueConf) (x : HostQ) : Prop := conf.mailJail ∧ x.hqEntries = x.hqJailEnvs

/-- The wait and the launch time of a queue are within its bounds at the time `now`. -/
def HostQ.Paced (now : Int) (x : HostQ) : Prop :=
  x.hqMinWait ≤ x.hqWaitLast ∧ x.hqWaitLast ≤ x.hqMaxWait ∧ x.hqNextLaunch ≤ now + x.hqMaxWait

/-- A queue whose next wait is a random one: it has not waited yet, or is leaky. -/
def HostQ.Random (x : HostQ) : Prop := x.hqWaitLast = 0 ∨ x.hqLeaky

/-- The latest launch that a push may compute, from now on. -/
def HostQ.latest (x : HostQ) (delay : Option Int) : Int :=
  match delay with
  | some d => min d x.hqMaxWait
  | none =>
    if x.hqWaitLast = 0 ∨ x.hqLeaky then x.hqMinWait - 1
    else if x.hqWaitLast * 2 ≤ x.hqMaxWait then max (x.hqWaitLast * 2) x.hqMinWait
    else x.hqMaxWait

/-- A queue that keeps its bounds: where the wait is random its minimum is not zero, and where the launch
    that it has still to come may be kept, the wait of that launch is within the bounds. -/
structure HostQ.Keeps (conf : QueueConf) (x : HostQ) (now : Int) (delay : Option Int) : Prop where
  random : delay = none → ¬ x.AllJailed conf → x.Random → x.hqMinWait ≠ 0
  kept : ¬ x.AllJailed conf → x.hqLastLaunch < x.hqNextLaunch → x.hqNextLaunch ≤ x.latest delay + now →
    x.hqMinWait ≤ x.hqWaitLast ∧ x.hqWaitLast ≤ x.hqMaxWait

theorem setLaunch_paced {wait launch : Int} (hmin : x.hqMinWait ≤ wait) (hmax : wait ≤ x.hqMaxWait)
    (hlaunch : launch ≤ now + x.hqMaxWait) :
    (x.setLaunch wait launch).Paced now ↔ (x.hqLastLaunch < x.hqNextLaunch → x.hqNextLaunch ≤ launch →
      x.hqMinWait ≤ x.hqWaitLast ∧ x.hqWaitLast ≤ x.hqMaxWait) := by
  unfold HostQ.setLaunch HostQ.Paced
  split
  · rename_i hset
    simp only
    omega
  · rename_i hkept
    omega

theorem Rescheduled.paced {q' : Queues} (hr : Rescheduled q q') (hy : q.hqs h = some y) {z : HostQ}
    (hz : q'.hqs h = some z) : y.Paced now ↔ z.Paced now := by
  have hu := hr.hqs h
  rw [hy, hz] at hu
  have hu' : z.unlinked = y.unlinked := Option.some.inj hu
  show y.unlinked.Paced now ↔ z.unlinked.Paced now
  rw [hu']

/-- **A push that computes one wait and one launch time** paces the queue just when it may keep what it has. -/
theorem setLaunch_keeps {wait : Int} (hj : ¬ x.AllJailed conf) (hmin : x.hqMinWait ≤ wait)
    (hmax : wait ≤ x.hqMaxWait) (hlatest : x.latest delay ≤ x.hqMaxWait)
    (hr : delay = none → x.Random → x.hqMinWait ≠ 0) :
    (x.setLaunch wait (x.latest delay + now)).Paced now ↔ x.Keeps conf now delay := by
  rw [setLaunch_paced hmin hmax (by omega)]
  exact ⟨fun h => ⟨fun hd _ => hr hd, fun _ => h⟩, fun h => h.kept hj⟩

theorem pushed_paced (hmin : 0 ≤ x.hqMinWait) (hmax : x.hqMinWait ≤ x.hqMaxWait) (hjail : 0 < conf.jailSeconds) :
    (∀ r, ∃ y, x.pushed conf now delay r = some y ∧ (¬ x.AllJailed conf → y.Paced now)) ↔
      x.Keeps conf now delay := by
  by_cases hj : x.AllJailed conf
  · -- an all-jailed queue takes a remainder by the jail interval at most
    refine iff_of_true (fun r => ?_) ⟨fun _ h => absurd hj h, fun h => absurd hj h⟩
    have hj' : conf.mailJail = true ∧ x.hqEntries = x.hqJailEnvs := hj
    unfold HostQ.pushed HostQ.launchTime
    cases delay with
    | some d =>
      dsimp only
      split <;> exact ⟨_, rfl, fun h => absurd hj h⟩
    | none =>
      dsimp only
      rw [if_pos hj', if_neg (ne_of_gt hjail)]
      split <;> exact ⟨_, rfl, fun h => absurd hj h⟩
  · have hj' : ¬ (conf.mailJail = true ∧ x.hqEntries = x.hqJailEnvs) := hj
    cases delay with
    | some d =>
      -- the random number plays no part
      have hpushed : ∀ r, x.pushed conf now (some d) r = some
          (x.setLaunch (if d > x.hqMaxWait then x.hqMaxWait else max d x.hqMinWait)
            (x.latest (some d) + now)) := by
        intro r
        unfold HostQ.pushed HostQ.launchTime HostQ.latest
        dsimp only
        split
        · rename_i hd
          rw [min_eq_right (le_of_lt hd)]
          rfl
        · rename_i hd
          have hmaxd : (if d < x.hqMinWait then x.hqMinWait else d) = max d x.hqMinWait := by
            split <;> omega
          rw [min_eq_left (not_lt.mp hd), hmaxd]
          rfl
      have hwait : (x.setLaunch (if d > x.hqMaxWait then x.hqMaxWait else max d x.hqMinWait)
          (x.latest (some d) + now)).Paced now ↔ x.Keeps conf now (some d) :=
        setLaunch_keeps hj (by split <;> omega) (by split <;> omega) (min_le_right _ _) nofun
      simp only [hpushed, Option.some.injEq, exists_eq_left', forall_const]
      rw [← hwait]
      exact ⟨fun h => h hj, fun h _ => h⟩
    | none =>
      by_cases hr : x.hqWaitLast = 0 ∨ x.hqLeaky = true
      · by_cases hzero : x.hqMinWait = 0
        · -- the remainder is by zero
          refine iff_of_false (fun h => ?_) fun h => h.random rfl hj hr hzero
          obtain ⟨y, hy, -⟩ := h 0
          simp [HostQ.pushed, HostQ.launchTime, hj', hr, hzero] at hy
        · have hpushed : ∀ r : Nat, x.pushed conf now none r = some
              ({ x with hqLeaky := false }.setLaunch x.hqMinWait (Int.tmod r x.hqMinWait + now)) := by
            intro r
            simp [HostQ.pushed, HostQ.launchTime, hj', hr, hzero]
          have hlatest : x.latest none = x.hqMinWait - 1 := by simp [HostQ.latest, hr]
          have hbound : ∀ r : Nat, Int.tmod r x.hqMinWait ≤ x.hqMinWait - 1 := fun r => by
            have := Int.tmod_lt_of_pos (r : Int) (show 0 < x.hqMinWait by omega)
            omega
          have hpaced : ∀ r : Nat, ({ x with hqLeaky := false }.setLaunch x.hqMinWait
              (Int.tmod r x.hqMinWait + now)).Paced now ↔ (x.hqLastLaunch < x.hqNextLaunch →
                x.hqNextLaunch ≤ Int.tmod r x.hqMinWait + now →
                x.hqMinWait ≤ x.hqWaitLast ∧ x.hqWaitLast ≤ x.hqMaxWait) := fun r =>
            setLaunch_paced (x := { x with hqLeaky := false }) (le_refl x.hqMinWait) hmax
              (show _ ≤ now + x.hqMaxWait by have := hbound r; omega)
          simp only [hpushed, Option.some.injEq, exists_eq_left', hj, not_false_eq_true, forall_true_left,
            hpaced]
          constructor
          · intro h
            refine ⟨fun _ _ _ => hzero, fun _ hpend hle => ?_⟩
            -- the largest remainder is the one that keeps most
            refine h (x.hqMinWait - 1).toNat hpend ?_
            rw [Int.toNat_of_nonneg (by omega), Int.tmod_eq_of_lt (by omega) (by omega)]
            rwa [hlatest] at hle
          · intro h r hpend hle
            refine h.kept hj hpend ?_
            have := hbound r
            omega
      · have hpushed : ∀ r, x.pushed conf now none r = some (x.setLaunch (x.latest none) (x.latest none + now)) := by
          intro r
          have hw : (if x.hqWaitLast * 2 ≤ x.hqMaxWait then
              if x.hqWaitLast * 2 < x.hqMinWait then x.hqMinWait else x.hqWaitLast * 2
              else x.hqMaxWait) = x.latest none := by
            simp only [HostQ.latest, if_neg hr]
            split
            · split <;> omega
            · rfl
          unfold HostQ.pushed HostQ.launchTime
          dsimp only
          rw [if_neg hj', if_neg hr, hw]
          rfl
        have hlatest : x.hqMinWait ≤ x.latest none ∧ x.latest none ≤ x.hqMaxWait := by
          simp only [HostQ.latest, if_neg hr]
          split <;> omega
        have hwait : (x.setLaunch (x.latest none) (x.latest none + now)).Paced now ↔ x.Keeps conf now none :=
          setLaunch_keeps hj hlatest.1 hlatest.2 hlatest.2 fun _ h => absurd h hr
        simp only [hpushed, Option.some.injEq, exists_eq_left', forall_const]
        rw [← hwait]
        exact ⟨fun h => h hj, fun h _ => h⟩

/-- **The backoff of a push** at the time `now`, whatever the random number: no remainder is by zero, and a
    queue that is not all in jail is paced. -/
def Queues.BacksOff (conf : QueueConf) (q : Queues) (h : Addr) (tvNow delay : Option Int) (now : Int) : Prop :=
  (hqDeliverPush conf h tvNow delay).wlp (clockWorld fun t => t = now) False
    (fun ret q' _ => ret = 0 → ∀ x, q.hqs h = some x → ¬ x.AllJailed conf →
      ∃ y, q'.hqs h = some y ∧ y.Paced now) q ()

/-- A push of a queue that is off a schedule in order backs off just when the queue keeps its bounds. -/
theorem backsOff_iff_keeps {l : List Addr} {tvNow : Option Int} (hs : Schedule q l) (hmem : h ∉ l)
    (hx : q.hqs h = some x) (hb : ∀ k y, q.hqs k = some y → k < q.fresh) (hmin : 0 ≤ x.hqMinWait)
    (hmax : x.hqMinWait ≤ x.hqMaxWait) (hjail : 0 < conf.jailSeconds) (hnow : ∀ t, tvNow = some t → t = now) :
    q.BacksOff conf h tvNow delay now ↔ x.Keeps conf now delay := by
  unfold Queues.BacksOff
  rw [hqDeliverPush_wlp hx, ← pushed_paced hmin hmax hjail]
  have htime : ∀ t, (tvNow = some t ∨ tvNow = none ∧ t = now) → t = now := by
    rintro t (ht | ⟨-, ht⟩)
    · exact hnow t ht
    · exact ht
  have hgiven : tvNow = some now ∨ tvNow = none ∧ now = now := by
    cases tvNow with
    | none => exact .inr ⟨rfl, rfl⟩
    | some t => exact .inl (by rw [hnow t rfl])
  constructor
  · rintro ⟨-, hw⟩ r
    obtain ⟨hsafe, hends⟩ := hw now r hgiven
    cases hy : x.pushed conf now delay r with
    | none => exact (hsafe ((deliverPush_eq_none hs hmem hx hb).mpr hy)).elim
    | some y =>
      refine ⟨y, rfl, fun hj => ?_⟩
      obtain ⟨q', -, -, hq', -, hr, -⟩ := deliverPush_spec hs hmem hx hb hy
      obtain ⟨z, hz, hpaced⟩ := hends q' hq' rfl x hx hj
      exact (hr.paced (by simp) hz).mpr hpaced
  · intro hw
    refine ⟨fun _ h => absurd h one_ne_zero, ?_⟩
    intro t r ht
    obtain rfl := htime t ht
    obtain ⟨y, hy, hpaced⟩ := hw r
    obtain ⟨q', -, -, hq', -, hr, -⟩ := deliverPush_spec hs hmem hx hb hy
    refine ⟨fun hnone => ?_, fun u hu _ x' hx' hj => ?_⟩
    · rw [hnone] at hq'
      cases hq'
    · rw [hu] at hq'
      cases hq'
      cases hx.symm.trans hx'
      obtain ⟨z, hz⟩ := Option.isSome_iff_exists.mp ((hr.isSome h).trans (by simp))
      exact ⟨z, hz, (hr.paced (by simp) hz).mp (hpaced hj)⟩

end Push

end Simta
