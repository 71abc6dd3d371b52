import Simta.HostQueues
import Simta.Lib.StableSort

/-!
# The order of a queue run

`queue_time_order` of `queue.c` against the times of the Efiles on the disk.  It asks `stat(2)` of each Efile, but orders
the envelopes by the time they hold in memory.

* `Queues.home` — the queue that `queue_envelope` finds for an envelope without a new one;
* `timeOrderLoop_sorting` — what the loop leaves in the queue, whatever the calls answer;
* `LongestFirst`, `longestFirst_iff` — exactly when the longest-waiting message is first.
-/

set_option autoImplicit false

namespace Simta

open QueueProg

/-! ## The disk -/

/-- The time of the last modification of the Efile of an envelope, if the file is there. -/
def Queues.mtime (q : Queues) (disk : Path → Option Int) (a : Addr) : Option Int :=
  (q.envs a).bind fun e => disk (efile e.eDir e.eId)

/-- `stat(2)` gives an answer for an Efile. -/
def Queues.statable (q : Queues) (answers : Path → Bool) (a : Addr) : Bool :=
  (q.envs a).any fun e => answers (efile e.eDir e.eId)

/-- A disk with the times of its files.  `stat(2)` fails where there is no file, and for another reason where `answers` does
    not hold; all other calls answer anything. -/
def statWorld (disk : Path → Option Int) (answers : Path → Bool) : Prog.World QueueOp QueueAns Unit
  | .file (.stat p), _, a, _ => Option.isSome a = ((disk p).isSome && answers p)
  | _, _, _, _ => True

/-- The same without memory for a new queue. -/
def fullWorld (disk : Path → Option Int) (answers : Path → Bool) : Prog.World QueueOp QueueAns Unit
  | .file .malloc, _, a, _ => a = false
  | op, s, a, t => statWorld disk answers op s a t

theorem fullWorld_statWorld {disk : Path → Option Int} {answers : Path → Bool} {op : QueueOp} {a : QueueAns op}
    (h : fullWorld disk answers op () a ()) : statWorld disk answers op () a () := by
  cases op with
  | file op => cases op <;> first | exact h | trivial
  | command op => exact h
  | _ => exact h

/-! ## Where an envelope belongs -/

/-- The queue of a host, if it is there. -/
def Queues.queueOf (q : Queues) (hostname : Text) : Option Addr := do
  let u ← q.unexpandedQ
  if hostname = [] then some u else (hostQFind q.hqs hostname q.hostQ).join

/-- The queue that `queue_envelope` finds for an envelope. -/
def Queues.home (q : Queues) (e : QEnv) : Option Addr :=
  if e.eDir = .dead then none else if e.eFlags.punt then q.puntQ else q.queueOf (e.eHostname.getD [])

section Envelope

variable {R : Prog.World QueueOp QueueAns Unit} {F : Prop} {conf : QueueConf} {q : Queues} {a h : Addr} {e : QEnv}
variable {hostname : Option Text}

/-- A queue that is there is found. -/
theorem hostQCreateOrLookup_found (hq : q.queueOf (hostname.getD []) = some h) :
    (hostQCreateOrLookup conf hostname).wlp R F (fun r q' _ => r = some h ∧ q' = q) q () := by
  obtain ⟨u, hu, hq⟩ := Option.bind_eq_some_iff.mp hq
  have hqueues : (createNullQueues conf).wlp R F (fun ok q' _ => ok = true ∧ q' = q) q () := by
    unfold createNullQueues
    simp only [Faulty.wlp_bind, Faulty.wlp_get, hu]
    exact ⟨rfl, rfl⟩
  unfold hostQCreateOrLookup
  apply Faulty.wlp_seq hqueues
  rintro ok q' ⟨⟩ ⟨rfl, rfl⟩
  rw [if_pos rfl]
  split
  · rename_i hempty
    rw [if_pos hempty] at hq
    exact ⟨hu.trans hq, rfl⟩
  · rename_i hname
    rw [if_neg hname] at hq
    have hfind := Option.join_eq_some_iff.mp hq
    apply (Faulty.wlp_bind _ _).mpr
    apply Faulty.wlp_read.mpr
    constructor
    · intro hnone
      cases hnone.symm.trans hfind
    · intro found hfound
      cases hfound.symm.trans hfind
      exact ⟨rfl, rfl⟩

/-- Without memory for a new one, no other queue is found. -/
theorem hostQCreateOrLookup_refused (hF : F) (hR : ∀ ok, R (.file .malloc) () ok () → ok = false) :
    (hostQCreateOrLookup conf hostname).wlp R F
      (fun r q' _ => q' = q ∧ ∀ k, r = some k → q.queueOf (hostname.getD []) = some k) q () := by
  have hqueues : (createNullQueues conf).wlp R F
      (fun ok q' _ => q' = q ∧ (ok = true → q.unexpandedQ.isSome = true)) q () := by
    unfold createNullQueues
    simp only [Faulty.wlp_bind, Faulty.wlp_get]
    cases hu : q.unexpandedQ with
    | some u => exact ⟨rfl, fun _ => rfl⟩
    | none =>
      intro ok t hok
      cases t
      cases hR ok hok
      exact ⟨rfl, fun h => by cases h⟩
  unfold hostQCreateOrLookup
  apply Faulty.wlp_seq hqueues
  rintro ok q' ⟨⟩ ⟨rfl, hsome⟩
  split
  · obtain ⟨u, hu⟩ := Option.isSome_iff_exists.mp (hsome ‹_›)
    have hqueue : q'.queueOf (hostname.getD []) =
        if hostname.getD [] = [] then some u else (hostQFind q'.hqs (hostname.getD []) q'.hostQ).join := by
      unfold Queues.queueOf
      rw [hu]
      rfl
    rw [hqueue]
    split
    · exact ⟨rfl, fun k hk => hu.symm.trans hk⟩
    · apply (Faulty.wlp_bind _ _).mpr
      apply Faulty.wlp_read.mpr
      apply And.intro fun _ => hF
      intro found hfind
      rw [hfind]
      cases found with
      | some k => exact ⟨rfl, fun _ hk => hk⟩
      | none =>
        apply (Faulty.wlp_bind _ _).mpr
        intro ok t hok
        cases t
        cases hR ok hok
        exact ⟨rfl, fun _ hk => by cases hk⟩
  · exact ⟨rfl, fun _ hk => by cases hk⟩

/-- An envelope goes to its queue. -/
theorem queueEnvelope_home (he : q.envs a = some e) (hhq : e.eHq = none) (hhome : q.home e = some h) {q' : Queues}
    (henqueue : q.enqueue a h = some q') :
    (queueEnvelope conf a).wlp R F (fun _ u _ => u = q') q () := by
  have hupdate : ∀ {Q : PUnit → Queues → Unit → Prop}, Q ⟨⟩ q' () →
      (Faulty.update (Queues.enqueue a h) : QueueProg PUnit).wlp R F Q q () := by
    intro Q hQ
    apply Faulty.wlp_update.mpr
    constructor
    · intro hnone
      cases hnone.symm.trans henqueue
    · rintro u hu
      cases hu.symm.trans henqueue
      exact hQ
  unfold Queues.home at hhome
  unfold queueEnvelope
  apply (Faulty.wlp_bind _ _).mpr
  apply Faulty.wlp_read.mpr
  constructor
  · intro hnone
    cases hnone.symm.trans he
  rintro e' he'
  cases he'.symm.trans he
  split at hhome
  · cases hhome
  rename_i hdead
  rw [if_neg hdead, hhq]
  split at hhome
  · rename_i hpunt
    rw [if_pos hpunt]
    apply (Faulty.wlp_bind _ _).mpr
    apply (Faulty.wlp_map _ _).mpr
    apply Faulty.wlp_read.mpr
    constructor
    · intro hnone
      cases hnone.symm.trans hhome
    · rintro k hk
      cases hk.symm.trans hhome
      exact (Faulty.wlp_bind _ _).mpr (hupdate rfl)
  · rename_i hpunt
    rw [if_neg hpunt]
    apply Faulty.wlp_seq (hostQCreateOrLookup_found hhome)
    rintro r u ⟨⟩ ⟨rfl, rfl⟩
    exact (Faulty.wlp_bind _ _).mpr (hupdate rfl)

/-- Without memory for a new queue, an envelope that belongs elsewhere does not come to the queue. -/
theorem queueEnvelope_away (hF : F) (hR : ∀ ok, R (.file .malloc) () ok () → ok = false) (he : q.envs a = some e)
    (hhome : q.home e ≠ some h) :
    (queueEnvelope conf a).wlp R F (fun _ u _ => u = q ∨ ∃ k, k ≠ h ∧ q.enqueue a k = some u) q () := by
  have hupdate : ∀ k, k ≠ h → (Faulty.update (Queues.enqueue a k) : QueueProg PUnit).wlp R F
      (fun _ u _ => u = q ∨ ∃ k, k ≠ h ∧ q.enqueue a k = some u) q () := by
    intro k hk
    exact Faulty.wlp_update.mpr ⟨fun _ => hF, fun u hu => .inr ⟨k, hk, hu⟩⟩
  unfold Queues.home at hhome
  unfold queueEnvelope
  apply (Faulty.wlp_bind _ _).mpr
  apply Faulty.wlp_read.mpr
  apply And.intro fun _ => hF
  rintro e' he'
  cases he'.symm.trans he
  split
  · exact .inl rfl
  rename_i hdead
  rw [if_neg hdead] at hhome
  cases hhq : e.eHq with
  | some k => exact .inl rfl
  | none =>
    by_cases hpunt : e.eFlags.punt = true
    · rw [if_pos hpunt] at hhome ⊢
      apply (Faulty.wlp_bind _ _).mpr
      apply (Faulty.wlp_map _ _).mpr
      apply Faulty.wlp_read.mpr
      apply And.intro fun _ => hF
      rintro k hk
      apply (Faulty.wlp_bind _ _).mpr
      apply hupdate
      rintro rfl
      exact hhome hk
    · rw [if_neg hpunt] at hhome ⊢
      apply Faulty.wlp_seq (hostQCreateOrLookup_refused hF hR)
      rintro r u ⟨⟩ ⟨rfl, hr⟩
      cases r with
      | none => exact .inl rfl
      | some k =>
        apply (Faulty.wlp_bind _ _).mpr
        apply hupdate
        rintro rfl
        exact hhome (hr k rfl)

end Envelope

/-! ## The loop -/

/-- An envelope apart from the queue it is in. -/
def QEnv.unhooked (e : QEnv) : QEnv := { e with eHq := none }

/-- The queues are found as before. -/
structure SameQueues (q₀ q : Queues) : Prop where
  hostQ : q.hostQ = q₀.hostQ
  unexpandedQ : q.unexpandedQ = q₀.unexpandedQ
  puntQ : q.puntQ = q₀.puntQ
  names : ∀ k, (q.hqs k).map HostQ.hqHostname = (q₀.hqs k).map HostQ.hqHostname

/-- The loop has put back `kept` and has `rest` before it. -/
structure Sorting (q₀ : Queues) (h : Addr) (x : HostQ) (kept rest : List Addr) (q : Queues) : Prop where
  same : SameQueues q₀ q
  envs : ∀ b, b ∈ kept ∨ b ∈ rest → ∃ e, q₀.envs b = some e ∧ (q.envs b).map QEnv.unhooked = some e.unhooked
  queue : q.hqs h = some { x with
    hqEnvHead := stableSort q₀.etime kept, hqEntries := kept.length, hqJailEnvs := kept.countP q₀.prisoner }

section Loop

variable {R : Prog.World QueueOp QueueAns Unit} {F : Prop} {conf : QueueConf} {q₀ q q' : Queues} {a h : Addr} {e : QEnv}
variable {x : HostQ} {kept rest : List Addr}

theorem hostQFind_congr {hqs hqs' : Addr → Option HostQ} {hostname : Text}
    (hnames : ∀ k, (hqs' k).map HostQ.hqHostname = (hqs k).map HostQ.hqHostname) (l : List Addr) :
    hostQFind hqs' hostname l = hostQFind hqs hostname l := by
  induction l with
  | nil => rfl
  | cons k l ih =>
    have hk := hnames k
    unfold hostQFind
    rw [ih]
    cases hx : hqs k with
    | none =>
      rw [hx] at hk
      rw [Option.map_eq_none_iff.mp hk]
    | some x =>
      rw [hx] at hk
      obtain ⟨x', hx', hname⟩ := Option.map_eq_some_iff.mp hk
      rw [hx']
      show (if strcaseEq x'.hqHostname hostname then _ else _) = if strcaseEq x.hqHostname hostname then _ else _
      rw [hname]

theorem SameQueues.home (hs : SameQueues q₀ q) {e' : QEnv} (he : e'.unhooked = e.unhooked) : q.home e' = q₀.home e := by
  have hdir : e'.eDir = e.eDir := congrArg (fun e => e.eDir) he
  have hflags : e'.eFlags = e.eFlags := congrArg (fun e => e.eFlags) he
  have hname : e'.eHostname = e.eHostname := congrArg (fun e => e.eHostname) he
  unfold Queues.home Queues.queueOf
  rw [hdir, hflags, hname, hs.hostQ, hs.unexpandedQ, hs.puntQ, hostQFind_congr hs.names]

theorem insertByTime_eq {envs : Addr → Option QEnv} {key : Addr → Int} {l : List Addr}
    (hl : ∀ b ∈ l, ∃ e, envs b = some e ∧ e.eEtime = key b) (a : Addr) :
    insertByTime envs (key a) a l = some (l.orderedInsert (fun a b => key a < key b) a) := by
  induction l with
  | nil => rfl
  | cons b l ih =>
    obtain ⟨e, he, hkey⟩ := hl b List.mem_cons_self
    unfold insertByTime
    rw [he, ih fun c hc => hl c (List.mem_cons_of_mem _ hc)]
    show (if key a < e.eEtime then some _ else some _) = _
    rw [hkey, List.orderedInsert_cons]
    split <;> rfl

theorem unhooked_eHq {e e' : QEnv} (he : e'.unhooked = e.unhooked) : ∃ o, e' = { e with eHq := o } := by
  cases e'
  cases e
  injection he
  subst_vars
  exact ⟨_, rfl⟩

theorem Sorting.env (hs : Sorting q₀ h x kept rest q) {b : Addr} (hb : b ∈ kept ∨ b ∈ rest) :
    ∃ e o, q₀.envs b = some e ∧ q.envs b = some { e with eHq := o } := by
  obtain ⟨e, he, hq⟩ := hs.envs b hb
  obtain ⟨e', he', hun⟩ := Option.map_eq_some_iff.mp hq
  obtain ⟨o, rfl⟩ := unhooked_eHq hun
  exact ⟨e, o, he, he'⟩

/-- The next envelope is in no queue. -/
theorem Sorting.unhook (hs : Sorting q₀ h x kept (a :: rest) q) (he : q₀.envs a = some e) :
    ∃ u, (q.modEnv a fun e => { e with eHq := none }) = some u ∧ u.envs a = some e.unhooked ∧
      Sorting q₀ h x kept (a :: rest) u := by
  obtain ⟨e', o, he', hq⟩ := hs.env (.inr List.mem_cons_self)
  cases he.symm.trans he'
  have hmod : (q.modEnv a fun e => { e with eHq := none }) = some (q.setEnv a (some e.unhooked)) := by
    unfold Queues.modEnv
    rw [hq]
    rfl
  have hget : (q.setEnv a (some e.unhooked)).envs a = some e.unhooked := by rw [Queues.setEnv_envs, if_pos rfl]
  refine ⟨_, hmod, hget, ⟨hs.same.hostQ, hs.same.unexpandedQ, hs.same.puntQ, hs.same.names⟩, ?_, hs.queue⟩
  intro b hb
  by_cases hba : b = a
  · subst hba
    exact ⟨e, he, by rw [hget]; rfl⟩
  · rw [Queues.setEnv_envs, if_neg hba]
    exact hs.envs b hb

/-- An envelope whose Efile is not found is freed. -/
theorem Sorting.free (hs : Sorting q₀ h x kept (a :: rest) q) (hkept : a ∉ kept) (hrest : a ∉ rest) :
    Sorting q₀ h x kept rest (q.freeEnv a) := by
  refine ⟨⟨hs.same.hostQ, hs.same.unexpandedQ, hs.same.puntQ, hs.same.names⟩, ?_, hs.queue⟩
  intro b hb
  have hba : b ≠ a := by
    rintro rfl
    exact hb.elim hkept hrest
  rw [Queues.freeEnv_envs, if_neg hba]
  exact hs.envs b (hb.imp_right (List.mem_cons_of_mem a))

theorem Sorting.skip (hs : Sorting q₀ h x kept (a :: rest) q) : Sorting q₀ h x kept rest q :=
  ⟨hs.same, fun b hb => hs.envs b (hb.imp_right (List.mem_cons_of_mem a)), hs.queue⟩

/-- What an insertion changes. -/
theorem enqueue_inv {k : Addr} {u : Queues} (henqueue : q.enqueue a k = some u) :
    ∃ e y y', q.envs a = some e ∧ q.hqs k = some y ∧ y'.hqHostname = y.hqHostname ∧
      u = (q.setHq k (some y')).setEnv a (some { e with eHq := some k }) := by
  simp only [Queues.enqueue, Option.bind_eq_bind, Option.bind_eq_some_iff, Option.some.injEq] at henqueue
  obtain ⟨e, he, y, hy, l, -, rfl⟩ := henqueue
  exact ⟨e, y, _, he, hy, by rfl, rfl⟩

theorem Sorting.inserted {k : Addr} {u : Queues} (hs : Sorting q₀ h x kept (a :: rest) q)
    (henqueue : q.enqueue a k = some u) : SameQueues q₀ u ∧ ∀ b, b ∈ kept ∨ b ∈ a :: rest →
      ∃ e, q₀.envs b = some e ∧ (u.envs b).map QEnv.unhooked = some e.unhooked := by
  obtain ⟨e, y, y', he, hy, hname, rfl⟩ := enqueue_inv henqueue
  refine ⟨⟨hs.same.hostQ, hs.same.unexpandedQ, hs.same.puntQ, ?_⟩, ?_⟩
  · intro c
    rw [← hs.same.names c, Queues.setEnv_hqs, Queues.setHq_hqs]
    split
    · rename_i hc
      rw [hc, hy]
      exact congrArg some hname
    · rfl
  · intro b hb
    obtain ⟨e', he', hq⟩ := hs.envs b hb
    refine ⟨e', he', ?_⟩
    rw [Queues.setEnv_envs, Queues.setHq_envs]
    split
    · rename_i hba
      rw [hba, he] at hq
      exact hq
    · exact hq

/-- An envelope that goes to another queue. -/
theorem Sorting.away {k : Addr} {u : Queues} (hs : Sorting q₀ h x kept (a :: rest) q) (hk : k ≠ h)
    (henqueue : q.enqueue a k = some u) : Sorting q₀ h x kept rest u := by
  obtain ⟨hsame, henvs⟩ := hs.inserted henqueue
  refine ⟨hsame, fun b hb => henvs b (hb.imp_right (List.mem_cons_of_mem a)), ?_⟩
  obtain ⟨e, y, y', he, hy, hname, rfl⟩ := enqueue_inv henqueue
  rw [Queues.setEnv_hqs, Queues.setHq_hqs, if_neg hk.symm]
  exact hs.queue

/-- An envelope that comes back to the queue. -/
theorem Sorting.insert (hs : Sorting q₀ h x kept (a :: rest) q) (he : q₀.envs a = some e) :
    ∃ u, q.enqueue a h = some u ∧ Sorting q₀ h x (kept ++ [a]) rest u := by
  obtain ⟨e', o, he', hq⟩ := hs.env (.inr List.mem_cons_self)
  cases he.symm.trans he'
  have hetime : q₀.etime a = e.eEtime := by
    unfold Queues.etime
    rw [he]
    rfl
  have hprisoner : q₀.prisoner a = decide (e.eJail = envJailPrisoner) := by
    unfold Queues.prisoner
    rw [he]
    rfl
  have hinsert : insertByTime q.envs e.eEtime a (stableSort q₀.etime kept) =
      some (stableSort q₀.etime (kept ++ [a])) := by
    rw [stableSort_concat, ← hetime]
    apply insertByTime_eq
    intro b hb
    obtain ⟨f, o', hf, hqf⟩ := hs.env (.inl (mem_stableSort.mp hb))
    refine ⟨_, hqf, ?_⟩
    unfold Queues.etime
    rw [hf]
    rfl
  have henqueue : ∃ u, q.enqueue a h = some u ∧ u.hqs h = some { x with
      hqEnvHead := stableSort q₀.etime (kept ++ [a]), hqEntries := ((kept ++ [a]).length : Nat)
      hqJailEnvs := ((kept ++ [a]).countP q₀.prisoner : Nat) } := by
    unfold Queues.enqueue
    rw [hq, hs.queue]
    show ∃ u, (insertByTime q.envs e.eEtime a (stableSort q₀.etime kept)).bind _ = _ ∧ _
    rw [hinsert]
    refine ⟨_, rfl, ?_⟩
    rw [Queues.setEnv_hqs, Queues.setHq_hqs, if_pos rfl, List.length_append, List.countP_append,
      List.countP_singleton, hprisoner]
    by_cases hjail : e.eJail = envJailPrisoner <;> simp [hjail]
  obtain ⟨u, hu, hqueue⟩ := henqueue
  obtain ⟨hsame, henvs⟩ := hs.inserted hu
  refine ⟨u, hu, hsame, ?_, hqueue⟩
  intro b hb
  apply henvs
  simpa [or_assoc] using hb

/-- The Efile is found, and the envelope belongs in the queue `h`. -/
def Returns (disk : Path → Option Int) (answers : Path → Bool) (q : Queues) (h : Addr) (a : Addr) : Bool :=
  (q.mtime disk a).isSome && q.statable answers a && decide ((q.envs a).bind q.home = some h)

/-- **What the loop leaves in the queue.**  An envelope that is found but belongs elsewhere is looked at only in a world
    without memory for a new queue. -/
theorem timeOrderLoop_sorting {disk : Path → Option Int} {answers : Path → Bool}
    (hstat : ∀ op a, R op () a () → statWorld disk answers op () a ()) (rest : List Addr)
    (haway : F ∧ (∀ ok, R (.file .malloc) () ok () → ok = false) ∨ ∀ a ∈ rest, ∀ e, q₀.envs a = some e →
      (disk (efile e.eDir e.eId)).isSome → answers (efile e.eDir e.eId) → q₀.home e = some h)
    (hd : (kept ++ rest).Nodup) (hs : Sorting q₀ h x kept rest q) :
    (timeOrderLoop conf rest).wlp R F
      (fun _ q' _ => Sorting q₀ h x (kept ++ rest.filter (Returns disk answers q₀ h)) [] q') q () := by
  induction rest generalizing kept q with
  | nil =>
    rw [List.filter_nil, List.append_nil]
    exact hs
  | cons a rest ih =>
    obtain ⟨e, o, he, -⟩ := hs.env (.inr List.mem_cons_self)
    obtain ⟨u, hu, hget, hunhooked⟩ := hs.unhook he
    have hnotin : a ∉ kept ∧ a ∉ rest := by
      have hd' := List.nodup_middle.mp hd
      simpa using (List.nodup_cons.mp hd').1
    have haway' := haway.imp_right fun h b hb => h b (List.mem_cons_of_mem a hb)
    have hd' : (kept ++ rest).Nodup := hd.sublist (List.Sublist.append (List.Sublist.refl kept) (List.sublist_cons_self a rest))
    have hd'' : (kept ++ [a] ++ rest).Nodup := by simpa using hd
    have hreturns : Returns disk answers q₀ h a = ((disk (efile e.eDir e.eId)).isSome && answers (efile e.eDir e.eId) &&
        decide (q₀.home e = some h)) := by
      unfold Returns Queues.mtime Queues.statable
      rw [he]
      rfl
    unfold timeOrderLoop
    apply (Faulty.wlp_bind _ _).mpr
    apply Faulty.wlp_update.mpr
    constructor
    · intro hnone
      cases hnone.symm.trans hu
    rintro u' hu'
    cases hu'.symm.trans hu
    apply (Faulty.wlp_bind _ _).mpr
    apply Faulty.wlp_read.mpr
    constructor
    · intro hnone
      cases hnone.symm.trans hget
    rintro e' he'
    cases he'.symm.trans hget
    apply (Faulty.wlp_bind _ _).mpr
    rintro answer ⟨⟩ hanswer
    have hfound : answer.isSome = ((disk (efile e.eDir e.eId)).isSome && answers (efile e.eDir e.eId)) :=
      hstat _ _ hanswer
    cases answer with
    | none =>
      have hfalse : ¬Returns disk answers q₀ h a = true := by
        rw [hreturns, ← hfound]
        simp
      rw [List.filter_cons_of_neg hfalse]
      exact ih haway' hd' (hunhooked.free hnotin.1 hnotin.2)
    | some answer =>
      by_cases hhome : q₀.home e = some h
      · have htrue : Returns disk answers q₀ h a = true := by
          rw [hreturns, ← hfound, hhome]
          simp
        obtain ⟨v, hv, hinsert⟩ := hunhooked.insert he
        have hqhome : u.home e.unhooked = some h := (hunhooked.same.home rfl).trans hhome
        rw [List.filter_cons_of_pos htrue, List.append_cons]
        apply Faulty.wlp_seq (queueEnvelope_home hget rfl hqhome hv)
        rintro r v' ⟨⟩ rfl
        exact ih haway' hd'' hinsert
      · have hfalse : ¬Returns disk answers q₀ h a = true := by
          rw [hreturns, decide_eq_false hhome]
          simp
        obtain ⟨hF, hrefused⟩ | hhomes := haway
        · rw [List.filter_cons_of_neg hfalse]
          have hqhome : u.home e.unhooked ≠ some h := fun hq => hhome ((hunhooked.same.home rfl).symm.trans hq)
          apply Faulty.wlp_seq (queueEnvelope_away hF hrefused hget hqhome)
          rintro r v ⟨⟩ (rfl | ⟨k, hk, hv⟩)
          · exact ih haway' hd' hunhooked.skip
          · exact ih haway' hd' (hunhooked.away hk hv)
        · have hfound' := hfound.symm
          simp only [Option.isSome_some, Bool.and_eq_true] at hfound'
          exact absurd (hhomes a List.mem_cons_self e he hfound'.1 hfound'.2) hhome

end Loop

/-! ## The queue -/

namespace Queues

/-- The envelopes of a queue whose Efile is there. -/
def waiting (q : Queues) (disk : Path → Option Int) (x : HostQ) : List Addr :=
  x.hqEnvHead.filter fun a => (q.mtime disk a).isSome

/-- The last attempt at `a` was not after that at `b`. -/
def NoLater (q : Queues) (disk : Path → Option Int) (a b : Addr) : Prop :=
  ∀ s ∈ q.mtime disk a, ∀ t ∈ q.mtime disk b, s ≤ t

end Queues

/-- What a queue run leaves of a host queue: the envelopes whose Efile is there, each once, by the time of their last
    attempt, and the two counters. -/
structure Served (disk : Path → Option Int) (q : Queues) (x x' : HostQ) : Prop where
  members : x'.hqEnvHead.Perm (q.waiting disk x)
  nodup : x'.hqEnvHead.Nodup
  ordered : x'.hqEnvHead.Pairwise (q.NoLater disk)
  entries : x'.hqEntries = x'.hqEnvHead.length
  jail : x'.hqJailEnvs = x'.hqEnvHead.countP q.prisoner

/-- Every run of `queue_time_order` on the disk puts the longest-waiting message first. -/
def LongestFirst (conf : QueueConf) (disk : Path → Option Int) (answers : Path → Bool) (q : Queues) (h : Addr)
    (x : HostQ) : Prop :=
  (queueTimeOrder conf (some h)).wlp (statWorld disk answers) False
    (fun _ q' _ => ∃ x', q'.hqs h = some x' ∧ Served disk q x x') q ()

/-- The envelopes that wait are found by `stat(2)`, belong in the queue, and hold times in memory that agree with those of
    their Efiles, the order of the queue among equal ones. -/
structure TimesAgree (disk : Path → Option Int) (answers : Path → Bool) (q : Queues) (h : Addr) (x : HostQ) : Prop where
  answered : ∀ a ∈ q.waiting disk x, q.statable answers a = true
  home : ∀ a ∈ q.waiting disk x, (q.envs a).bind q.home = some h
  times : ∀ a ∈ q.waiting disk x, ∀ b ∈ q.waiting disk x, Earlier q.etime (q.waiting disk x) a b → q.NoLater disk a b

/-- The answers of a disk to which no memory is left. -/
def fullAnswers (disk : Path → Option Int) (answers : Path → Bool) : (op : QueueOp) → QueueAns op
  | .file (.stat p) => if (disk p).isSome && answers p then some (0, 0) else none
  | .file .malloc => false
  | op => noFiles op

section TimeOrder

variable {conf : QueueConf} {disk : Path → Option Int} {answers : Path → Bool} {q : Queues} {h : Addr} {x : HostQ}

theorem fullWorld_fullAnswers (op : QueueOp) : fullWorld disk answers op () (fullAnswers disk answers op) () := by
  cases op with
  | file op =>
    cases op with
    | stat p =>
      show Option.isSome (if (disk p).isSome && answers p then some (0, 0) else none) = _
      cases (disk p).isSome && answers p <;> rfl
    | malloc => rfl
    | _ => trivial
  | _ => trivial

theorem sorting_start (hs : Sound False q) (hx : q.hqs h = some x) :
    Sorting q h x [] x.hqEnvHead (q.setHq h (some { x with hqEntries := 0, hqJailEnvs := 0, hqEnvHead := [] })) := by
  refine ⟨⟨rfl, rfl, rfl, ?_⟩, ?_, ?_⟩
  · intro k
    rw [Queues.setHq_hqs]
    split
    · rename_i hk
      rw [hk, hx]
      rfl
    · rfl
  · rintro b (hb | hb)
    · cases hb
    · have hhq := ((hs.queue h x hx).mem_iff' b).mp hb
      obtain ⟨e, he⟩ := Option.isSome_iff_exists.mp (isSome_of_hqOf hhq)
      exact ⟨e, he, by rw [Queues.setHq_envs, he]; rfl⟩
  · rw [Queues.setHq_hqs, if_pos rfl]
    rfl

theorem queueTimeOrder_sorting {R : Prog.World QueueOp QueueAns Unit} {F : Prop} (hs : Sound False q)
    (hx : q.hqs h = some x) (hstat : ∀ op a, R op () a () → statWorld disk answers op () a ())
    (haway : F ∧ (∀ ok, R (.file .malloc) () ok () → ok = false) ∨ ∀ a ∈ x.hqEnvHead, ∀ e, q.envs a = some e →
      (disk (efile e.eDir e.eId)).isSome → answers (efile e.eDir e.eId) → q.home e = some h) :
    (queueTimeOrder conf (some h)).wlp R F
      (fun _ q' _ => Sorting q h x (x.hqEnvHead.filter (Returns disk answers q h)) [] q') q () := by
  unfold queueTimeOrder
  apply (Faulty.wlp_bind _ _).mpr
  apply Faulty.wlp_read.mpr
  constructor
  · intro hnone
    cases hnone.symm.trans hx
  rintro y hy
  cases hy.symm.trans hx
  have hmod : ∀ f, q.modHq h f = some (q.setHq h (some (f x))) := by
    intro f
    unfold Queues.modHq
    rw [hx]
    rfl
  apply (Faulty.wlp_bind _ _).mpr
  apply Faulty.wlp_update.mpr
  constructor
  · intro hnone
    cases hnone.symm.trans (hmod _)
  rintro u hu
  cases hu.symm.trans (hmod _)
  rw [← List.nil_append (x.hqEnvHead.filter (Returns disk answers q h))]
  exact timeOrderLoop_sorting hstat x.hqEnvHead haway (by simpa using (hs.queue h x hx).nodup) (sorting_start hs hx)

/-- Those that return are among those that wait. -/
theorem returns_iff {a : Addr} : Returns disk answers q h a = true ↔
    (q.mtime disk a).isSome = true ∧ q.statable answers a = true ∧ (q.envs a).bind q.home = some h := by
  unfold Returns
  simp only [Bool.and_eq_true, decide_eq_true_eq, and_assoc]

/-- If all that wait return, they are the ones that return. -/
theorem filter_returns (hall : ∀ a ∈ q.waiting disk x, Returns disk answers q h a = true) :
    x.hqEnvHead.filter (Returns disk answers q h) = q.waiting disk x := by
  apply List.filter_congr
  intro a ha
  cases hm : (q.mtime disk a).isSome with
  | true => exact hall a (List.mem_filter.mpr ⟨ha, hm⟩)
  | false =>
    apply Bool.eq_false_iff.mpr
    intro hr
    rw [(returns_iff.mp hr).1] at hm
    cases hm

theorem nodup_waiting (hs : Sound False q) (hx : q.hqs h = some x) : (q.waiting disk x).Nodup :=
  (hs.queue h x hx).nodup.filter _

/-- What the loop leaves, when all that wait return. -/
theorem Sorting.served {q' : Queues} (hs : Sound False q) (hx : q.hqs h = some x)
    (ht : ∀ a ∈ q.waiting disk x, ∀ b ∈ q.waiting disk x, Earlier q.etime (q.waiting disk x) a b → q.NoLater disk a b)
    (hq : Sorting q h x (q.waiting disk x) [] q') : ∃ x', q'.hqs h = some x' ∧ Served disk q x x' := by
  have hperm := perm_stableSort q.etime (q.waiting disk x)
  have hnodup : (q.waiting disk x).Nodup := nodup_waiting hs hx
  refine ⟨_, hq.queue, hperm, hperm.nodup_iff.mpr hnodup, (pairwise_stableSort_iff hnodup).mpr ht, ?_, ?_⟩
  · exact congrArg _ hperm.length_eq.symm
  · exact congrArg _ (hperm.countP_eq _).symm

theorem TimesAgree.longestFirst (hs : Sound False q) (hx : q.hqs h = some x) (hc : TimesAgree disk answers q h x) :
    LongestFirst conf disk answers q h x := by
  have hreturns : ∀ a ∈ q.waiting disk x, Returns disk answers q h a = true := fun a ha =>
    returns_iff.mpr ⟨(List.mem_filter.mp ha).2, hc.answered a ha, hc.home a ha⟩
  have hhome : ∀ a ∈ x.hqEnvHead, ∀ e, q.envs a = some e → (disk (efile e.eDir e.eId)).isSome →
      answers (efile e.eDir e.eId) → q.home e = some h := by
    intro a ha e he hdisk _
    have hm : (q.mtime disk a).isSome = true := by
      unfold Queues.mtime
      rw [he]
      exact hdisk
    have hret := hc.home a (List.mem_filter.mpr ⟨ha, hm⟩)
    rw [he] at hret
    exact hret
  apply Faulty.wlp_mono _ (queueTimeOrder_sorting hs hx (fun _ _ h => h) (.inr hhome))
  rintro _ q' ⟨⟩ hq
  rw [filter_returns hreturns] at hq
  exact hq.served hs hx hc.times

theorem LongestFirst.timesAgree (hs : Sound False q) (hx : q.hqs h = some x)
    (hl : LongestFirst conf disk answers q h x) : TimesAgree disk answers q h x := by
  -- the run in which no new queue can be made
  have hfull := Faulty.wlp_and_ends
    (Faulty.wlp_world (fun op _ a _ h => fullWorld_statWorld h) hl)
    (queueTimeOrder_sorting hs hx (fun _ _ h => fullWorld_statWorld h) (.inl ⟨trivial, fun _ h => h⟩))
  obtain ⟨_, q', ⟨x', hx', hserved⟩, hsorting⟩ := Faulty.exists_of_wlp fullWorld_fullAnswers hfull
  cases hx'.symm.trans hsorting.queue
  have hreturns : ∀ a ∈ q.waiting disk x, Returns disk answers q h a = true := by
    intro a ha
    exact (List.mem_filter.mp (mem_stableSort.mp (hserved.members.mem_iff.mpr ha))).2
  have hordered := hserved.ordered
  rw [filter_returns hreturns] at hordered
  exact ⟨fun a ha => (returns_iff.mp (hreturns a ha)).2.1, fun a ha => (returns_iff.mp (hreturns a ha)).2.2,
    (pairwise_stableSort_iff (nodup_waiting hs hx)).mp hordered⟩

/-- **The longest-waiting message is first** iff the envelopes that wait are found, belong in the queue, and hold times in
    memory that agree with those of their Efiles. -/
theorem longestFirst_iff (conf : QueueConf) (disk : Path → Option Int) (answers : Path → Bool) (hs : Sound False q)
    (hx : q.hqs h = some x) : LongestFirst conf disk answers q h x ↔ TimesAgree disk answers q h x :=
  ⟨LongestFirst.timesAgree hs hx, TimesAgree.longestFirst hs hx⟩

end TimeOrder

/-! Two messages that were read from the disk, the later one first. -/

/-- The time in memory of a message that was read is zero; `t` is set by an attempt. -/
def readEnv (id : Char) (t : Int) : QEnv :=
  { envCreate jailConf.toConf .slow [id] (some []) none with eHq := some 2, eEtime := t }

def readHostQ : HostQ := { hqHostname := sUnexpanded, hqStatus := .null, hqEnvHead := [0, 1], hqEntries := 2 }

/-- The queue of unexpanded messages with the messages `a` and `b`. -/
def readQueues (t t' : Int) : Queues where
  envs := fun a => if a = 0 then some (readEnv 'a' t) else if a = 1 then some (readEnv 'b' t') else none
  hqs := fun h => if h = 2 then some readHostQ else none
  fresh := 3
  hostQ := []
  unexpandedQ := some 2
  puntQ := none
  deliverQ := none
  envQueue := none
  diskCycle := 0
  envList := []
  senderList := []
  procStab := []
  debug := 0

/-- The last attempt at `a` was at the time `t`, that at `b` at the time `t'`. -/
def readDisk (t t' : Int) (p : Path) : Option Int :=
  if p = efile .slow ['a'] then some t else if p = efile .slow ['b'] then some t' else none

theorem readQueues_sound (t t' : Int) : Sound False (readQueues t t') := by
  have hhq : ∀ a, (readQueues t t').hqOf a = if a = 0 ∨ a = 1 then some 2 else none := by
    intro a
    by_cases h0 : a = 0
    · subst h0
      rfl
    · by_cases h1 : a = 1
      · subst h1
        rfl
      · simp [Queues.hqOf, readQueues, h0, h1]
  refine ⟨?_, ?_, ?_, ?_⟩
  · intro h x hx
    change (if h = 2 then some readHostQ else none) = some x at hx
    split at hx
    · rename_i hh
      subst hh
      cases hx
      refine ⟨rfl, False.elim, ?_, by decide, False.elim⟩
      intro a
      rw [hhq]
      by_cases h0 : a = 0 <;> simp [readHostQ, h0]
    · cases hx
  · intro a h ha
    rw [hhq] at ha
    split at ha
    · cases ha
      rfl
    · cases ha
  · intro a e he
    have hhq' : (readQueues t t').hqOf a ≠ none := by
      unfold Queues.hqOf
      rw [he]
      change (if a = 0 then some (readEnv 'a' t) else if a = 1 then some (readEnv 'b' t') else none) = some e at he
      split at he
      · cases he
        exact fun h => by cases h
      · split at he
        · cases he
          exact fun h => by cases h
        · cases he
    rw [hhq] at hhq'
    split at hhq'
    · rename_i ha
      show a < 3
      obtain rfl | rfl := ha <;> decide
    · exact absurd rfl hhq'
  · intro h x hx
    change (if h = 2 then some readHostQ else none) = some x at hx
    split at hx
    · rename_i hh
      subst hh
      show 2 < 3
      decide
    · cases hx

theorem waiting_readQueues (t t' s s' : Int) : (readQueues t t').waiting (readDisk s s') readHostQ = [0, 1] := rfl

/-- With the times of the last attempts in memory, they are served in their order. -/
theorem longestFirst_readQueues :
    LongestFirst jailConf (readDisk 100 200) (fun _ => true) (readQueues 100 200) 2 readHostQ := by
  apply (longestFirst_iff jailConf _ _ (readQueues_sound 100 200) rfl).mpr
  refine ⟨?_, ?_, ?_⟩
  · rw [waiting_readQueues]
    decide
  · rw [waiting_readQueues]
    decide
  · rw [waiting_readQueues]
    have hsame : ∀ a ∈ [0, 1], (readQueues 100 200).mtime (readDisk 100 200) a = some ((readQueues 100 200).etime a) := by
      decide
    intro a ha b hb hab s hs s' hs'
    cases hs.symm.trans (hsame a ha)
    cases hs'.symm.trans (hsame b hb)
    exact hab.le

theorem not_longestFirst : ¬∀ conf disk answers q h x, Sound False q → q.hqs h = some x →
    LongestFirst conf disk answers q h x := by
  intro hall
  have hl := hall jailConf (readDisk 200 100) (fun _ => true) (readQueues 0 0) 2 readHostQ (readQueues_sound 0 0) rfl
  have htimes := (hl.timesAgree (readQueues_sound 0 0) rfl).times
  rw [waiting_readQueues] at htimes
  have hle := htimes 0 (by simp) 1 (by simp) (.inr ⟨rfl, List.Sublist.refl _⟩) 200 rfl 100 rfl
  exact absurd hle (by decide)

end Simta
