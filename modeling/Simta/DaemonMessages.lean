import Simta.DaemonSchedule
import Simta.Messages

/-!
# The messages over the server loop

Only the reading of the slow directory adds messages and takes them away; every other step of the loop leaves
the list of all messages alone.

* `Settles` — a program that leaves the messages alone;
* `MessageList` — the ring and the queues hold the same messages, each with its own id;
* `scanEntry_messages`, `cycleEnd_messages` — one entry, and the end of a cycle;
* `ScanRun` — the runs of the loop, with the ids seen in the cycle; `scanRun_messages` — over all of them.
-/

set_option autoImplicit false

namespace Simta

open QueueProg

/-! ## Steps that leave the messages alone -/

/-- The program leaves the messages alone. -/
def Settles {α : Type} (m : QueueProg α) : Prop :=
  ∀ q, HostsNamed q → m.wlp Prog.anyAnswer True (fun _ q' _ => Settled q q') q ()

section Settles

variable {α β : Type} {conf : QueueConf} {q q' : Queues} {a h : Addr}

theorem Settles.pure (r : α) : Settles (Pure.pure r : QueueProg α) := fun q _ => .refl q

/-- Such programs, one after the other. -/
theorem settled_bind {m : QueueProg α} {g : α → QueueProg β} {q₀ : Queues} (hq : HostsNamed q₀)
    (hs : Settled q₀ q) (hm : Settles m)
    (hg : ∀ r u, Settled q₀ u → (g r).wlp Prog.anyAnswer True (fun _ q' _ => Settled q₀ q') u ()) :
    (m >>= g).wlp Prog.anyAnswer True (fun _ q' _ => Settled q₀ q') q () :=
  Faulty.wlp_seq (hm q (hq.kept hs.hosts)) fun r u _ hu => hg r u (hs.trans hu)

/-- Such a program behind others. -/
theorem Settles.after {m : QueueProg α} {q₀ : Queues} (hm : Settles m) (hq : HostsNamed q₀) (hs : Settled q₀ q) :
    m.wlp Prog.anyAnswer True (fun _ q' _ => Settled q₀ q') q () :=
  Faulty.wlp_mono (fun _ _ _ hu => hs.trans hu) (hm q (hq.kept hs.hosts))

theorem Settles.bind {m : QueueProg α} {g : α → QueueProg β} (hm : Settles m) (hg : ∀ r, Settles (g r)) :
    Settles (m >>= g) := fun q hq =>
  settled_bind hq (.refl q) hm fun r _ hu => (hg r).after hq hu

theorem settles_get : Settles (get : QueueProg Queues) := fun q _ => .refl q

theorem settles_ask (op : QueueOp) : Settles (Faulty.ask op : QueueProg (QueueAns op)) := fun q _ _ _ _ => .refl q

theorem settles_file (p : SpoolProg α) : Settles (file p) := fun q _ => wlp_file fun _ => .refl q

theorem settles_fault : Settles (Faulty.fault : QueueProg α) := fun _ _ => trivial

theorem settles_read (f : Queues → Option α) : Settles (Faulty.read f : QueueProg α) := fun q _ =>
  Faulty.wlp_read.mpr ⟨fun _ => trivial, fun _ _ => .refl q⟩

theorem settles_update {f : Queues → Option Queues} (hf : ∀ q q', f q = some q' → Settled q q') :
    Settles (Faulty.update f : QueueProg PUnit) := fun q _ =>
  Faulty.wlp_update.mpr ⟨fun _ => trivial, fun q' hq => hf q q' hq⟩

theorem settles_modify {f : Queues → Queues} (hf : ∀ q, Settled q (f q)) :
    Settles (modify f : QueueProg PUnit) := fun q _ => hf q

theorem settles_pop : Settles (Faulty.update (Queues.deliverPop h) : QueueProg PUnit) :=
  settles_update fun _ _ hq => (deliverPop_rescheduled hq).settled

/-- A queue that the globals name is taken off the schedule and put back. -/
theorem settled_popPush {tvNow delay : Option Int} {q₀ : Queues} (hq : HostsNamed q₀) (hs : Settled q₀ q)
    (hn : q₀.Names h) : (do
      Faulty.update (Queues.deliverPop h)
      hqDeliverPush conf h tvNow delay).wlp Prog.anyAnswer True (fun _ q' _ => Settled q₀ q') q () := by
  refine settled_bind hq hs settles_pop fun _ q₁ h₁ => ?_
  exact Faulty.wlp_mono (fun _ _ _ hu => h₁.trans hu) (hqDeliverPush_settled ((h₁.hosts.names h).mpr hn))

/-! ### Launching and reaping -/

theorem procStab_settled (l : List Proc) : Settled q { q with procStab := l } :=
  settled_of_heap rfl rfl rfl rfl rfl rfl rfl fun hl => hl.of_envs (fun _ h => h) rfl rfl

theorem debug_settled (n : Int) : Settled q { q with debug := n } :=
  settled_of_heap rfl rfl rfl rfl rfl rfl rfl fun hl => hl.of_envs (fun _ h => h) rfl rfl

theorem simtaChildQRunner_settles (hq : Option Addr) : Settles (simtaChildQRunner hq) := by
  unfold simtaChildQRunner
  refine .bind (settles_file _) fun now => ?_
  cases now with
  | none => exact .pure _
  | some now =>
    refine .bind (settles_ask .fork) fun pid => ?_
    cases pid with
    | none => exact .pure _
    | some pid =>
      refine .bind (settles_file _) fun ok => ?_
      split
      · cases hq with
        | none => exact .bind (settles_modify fun _ => procStab_settled _) fun _ => .pure _
        | some h =>
          refine .bind (settles_read _) fun x => .bind (settles_file _) fun ok => ?_
          split
          · exact .bind (settles_modify fun _ => procStab_settled _) fun _ => .pure _
          · exact .pure _
      · exact .pure _

theorem simtaChildReceive_settles : Settles simtaChildReceive := by
  unfold simtaChildReceive
  refine .bind (settles_ask .fork) fun pid => ?_
  cases pid with
  | none => exact .pure _
  | some pid =>
    refine .bind (settles_file _) fun ok => ?_
    split
    · exact .bind (settles_modify fun _ => procStab_settled _) fun _ => .pure _
    · exact .pure _

theorem unexpandedRunner_settles : Settles unexpandedRunner := by
  unfold unexpandedRunner
  refine .bind settles_get fun q => ?_
  cases q.unexpandedQ with
  | none => exact .pure _
  | some h =>
    refine .bind (settles_read _) fun x => ?_
    split
    · exact .pure _
    · exact simtaChildQRunner_settles _

/-- The launch of the first queue of the schedule, if the globals name it. -/
theorem hqLaunch_settled (hq : HostsNamed q) (hfirst : ∀ h, q.deliverQ = some h → q.Names h) :
    (hqLaunch conf).wlp Prog.anyAnswer True (fun _ q' _ => Settled q q') q () := by
  unfold hqLaunch
  refine (Faulty.wlp_bind _ _).mpr (wlp_file fun now => ?_)
  cases now with
  | none => exact .refl q
  | some now =>
    refine (Faulty.wlp_bind _ _).mpr (Faulty.wlp_read.mpr ⟨fun _ => trivial, fun h hh => ?_⟩)
    refine settled_bind hq (.refl q) settles_pop fun _ q₁ h₁ => ?_
    have hlast : Settles (modHq h fun x => { x with hqLastLaunch := now }) :=
      settles_update fun _ _ hu => settled_modHq hu (fun _ => rfl) fun _ hn => .inl hn
    refine settled_bind hq h₁ hlast fun _ q₂ h₂ => ?_
    refine Faulty.wlp_seq (hqDeliverPush_settled ((h₂.hosts.names h).mpr (hfirst h hh))) fun ret q₃ _ h₃ => ?_
    split
    · exact h₂.trans h₃
    · exact (simtaChildQRunner_settles _).after hq (h₂.trans h₃)

theorem requeueLeaky_settles (now : Int) (hostname : Option Text) : Settles (requeueLeaky conf now hostname) := by
  intro q hq
  unfold requeueLeaky
  cases hostname with
  | none => trivial
  | some hostname =>
    refine (Faulty.wlp_bind _ _).mpr (Faulty.wlp_read.mpr ⟨fun _ => trivial, fun r hr => ?_⟩)
    cases r with
    | none => exact .refl q
    | some h =>
      have hleaky : Settles (modHq h fun x => { x with hqLeaky := true }) :=
        settles_update fun _ _ hu => settled_modHq hu (fun _ => rfl) fun _ hn => .inl hn
      refine settled_bind hq (.refl q) hleaky fun _ q₁ h₁ => ?_
      exact settled_popPush hq h₁ (.inl (hostQFind_mem hr))

theorem waitpidLoop_settles (now : Int) (l : List (Nat × WaitStatus)) :
    ∀ errors, Settles (waitpidLoop conf now l errors) := by
  induction l with
  | nil => exact fun errors => .pure errors
  | cons c rest ih =>
    intro errors
    obtain ⟨pid, status⟩ := c
    refine .bind settles_get fun q => ?_
    cases q.procStab.find? fun p => p.pId = pid with
    | none => exact ih _
    | some p =>
      refine .bind (settles_modify fun _ => procStab_settled _) fun _ => ?_
      cases status with
      | other => exact ih _
      | exited status =>
        dsimp only
        split
        · exact ih _
        · split
          · refine .bind (requeueLeaky_settles now _) fun ret => ?_
            split
            · exact .pure _
            · exact ih _
          · exact ih _

theorem daemonWaitpid_settles : Settles (daemonWaitpid conf) := by
  unfold daemonWaitpid
  refine .bind (settles_file _) fun now => ?_
  cases now with
  | none => exact .pure _
  | some now => exact .bind (settles_ask .waitpid) fun l => waitpidLoop_settles now l 0

/-! ### Commands -/

theorem jailRewrite_settles (a : Addr) (jail : Int) : Settles (jailRewrite conf a jail) := by
  intro q _
  cases he : q.envs a with
  | some e => exact Faulty.wlp_mono (fun _ _ _ hw => hw.settled (Option.isSome_of_eq_some he)) jailRewrite_written
  | none =>
    -- the first read of the envelope faults
    refine (Faulty.wlp_bind _ _).mpr fun locals _ _ => (Faulty.wlp_bind _ _).mpr ((Faulty.wlp_bind _ _).mpr ?_)
    refine Faulty.wlp_read.mpr ⟨fun _ => trivial, fun e he' => ?_⟩
    rw [he] at he'
    cases he'

theorem envJailStatus_settles (a : Addr) (jail : Int) : Settles (envJailStatus conf (some a) jail) := by
  have hrewrite : Settles (jailRewrite conf a jail) := jailRewrite_settles a jail
  unfold envJailStatus
  dsimp only
  split
  · exact .pure _
  · refine .bind (settles_read _) fun e => ?_
    split
    · exact .pure _
    · split
      · exact .pure _
      · cases e.eHq with
        | none => exact hrewrite
        | some h =>
          have hcount : Settles (modHq h fun x => { x with
              hqJailEnvs := if jail = envJailPrisoner then x.hqJailEnvs - 1 else x.hqJailEnvs + 1 }) :=
            settles_update fun _ _ hu => settled_modHq hu (fun _ => rfl) fun _ hn => .inl hn
          exact .bind hcount fun _ => hrewrite

theorem promoteQueue_settles (a : Addr) : Settles (promoteQueue conf a) := by
  intro q hq
  unfold promoteQueue
  refine (Faulty.wlp_bind _ _).mpr (Faulty.wlp_read.mpr ⟨fun _ => trivial, fun e he => ?_⟩)
  cases hh : e.eHq with
  | none => exact .refl q
  | some h => exact settled_popPush hq (.refl q) (hq.placed a h (by simp [Queues.hqOf, he, hh]))

theorem promoteEnv_settles (a : Addr) : Settles (promoteEnv conf a) := by
  unfold promoteEnv
  refine .bind (envJailStatus_settles a _) fun ret => ?_
  split
  · exact .pure _
  · refine .bind (promoteQueue_settles a) fun ret => ?_
    split <;> exact .pure _

theorem promoteLoop_settles (l : List Addr) : Settles (promoteLoop conf l) := by
  induction l with
  | nil => exact .pure _
  | cons a rest ih =>
    refine .bind (promoteEnv_settles a) fun ret => ?_
    split
    · exact .pure _
    · exact ih

theorem midPromote_settles (mid : Text) : Settles (midPromote conf mid) := by
  unfold midPromote
  refine .bind settles_get fun q => ?_
  cases dllLookup mid q.envList with
  | none => exact .pure _
  | some a => exact promoteEnv_settles a

theorem senderPromote_settles (sender : Text) : Settles (senderPromote conf sender) := by
  unfold senderPromote
  refine .bind settles_get fun q => ?_
  cases dllLookup sender q.senderList with
  | none => exact .pure _
  | some entries => exact promoteLoop_settles _

theorem releaseLoop_settles (l : List Addr) : Settles (releaseLoop conf l) := by
  induction l with
  | nil => exact .pure _
  | cons a rest ih =>
    refine .bind (envJailStatus_settles a _) fun ret => ?_
    split
    · exact .pure _
    · exact ih

theorem queuePromote_settles (hostname : Text) : Settles (queuePromote conf hostname) := by
  intro q hq
  unfold queuePromote
  refine (Faulty.wlp_bind _ _).mpr (Faulty.wlp_read.mpr ⟨fun _ => trivial, fun r hr => ?_⟩)
  cases r with
  | none => exact .refl q
  | some h =>
    have hn : q.Names h := .inl (hostQFind_mem hr)
    refine settled_bind hq (.refl q) settles_pop fun _ q₁ h₁ => ?_
    refine settled_bind hq h₁ (settles_read _) fun x q₂ h₂ => ?_
    refine settled_bind hq h₂ (releaseLoop_settles _) fun ret q₃ h₃ => ?_
    split
    · exact h₃
    · refine Faulty.wlp_seq (hqDeliverPush_settled ((h₃.hosts.names h).mpr hn)) fun ret q₄ _ h₄ => ?_
      split <;> exact h₃.trans h₄

theorem runCommand_settles (av : List Text) : Settles (runCommand conf av) := by
  have hmap : ∀ {γ : Type} {m : QueueProg Int} {f : Int → γ}, Settles m → Settles (m >>= fun r => Pure.pure (f r)) :=
    fun hm => .bind hm fun _ => .pure _
  unfold runCommand
  split
  · exact .pure _
  · split
    · exact hmap (midPromote_settles _)
    · split
      · exact hmap (senderPromote_settles _)
      · split
        · exact hmap (queuePromote_settles _)
        · split
          · dsimp only
            split
            · exact .bind (settles_modify fun _ => debug_settled _) fun _ => .pure _
            · exact .pure _
          · exact .pure _
  · exact .pure _

theorem readCommand_settles : Settles (readCommand conf) := by
  unfold readCommand
  refine .bind (settles_ask _) fun ok => ?_
  split
  · refine .bind (settles_ask _) fun line => ?_
    cases line with
    | none => exact .pure _
    | some line =>
      refine .bind (settles_ask _) fun ok => ?_
      split
      · exact runCommand_settles _
      · exact .pure _
  · exact .pure _

theorem commandFile_settles (name : Text) : Settles (commandFile conf name) := by
  unfold commandFile
  refine .bind (settles_ask _) fun ok => ?_
  split
  · refine .bind readCommand_settles fun r => ?_
    cases r with
    | done => exact .bind (settles_ask _) fun _ => .bind (settles_ask _) fun _ => .pure _
    | error => exact .bind (settles_ask _) fun _ => .pure _
    | left => exact .pure _
  · exact .pure _

theorem daemonCommands_settles (sdDirp : Bool) : Settles (daemonCommands conf sdDirp) := by
  unfold daemonCommands
  split
  · refine .bind (settles_ask _) fun d => ?_
    cases d with
    | error => exact .pure _
    | finished =>
      refine .bind (settles_ask _) fun ok => ?_
      split
      · refine .bind (settles_file _) fun now => ?_
        cases now <;> exact .pure _
      · exact .pure _
    | entry name =>
      dsimp only
      split
      · exact .bind (commandFile_settles name) fun _ => .pure _
      · exact .pure _
  · refine .bind (settles_file _) fun now => ?_
    cases now with
    | none => exact .pure _
    | some now =>
      refine .bind (settles_ask _) fun ok => ?_
      split <;> exact .pure _

end Settles

/-! ## An entry of the directory -/

section Scan

variable {conf : QueueConf} {seen : Set Text} {q q' : Queues} {l : List Addr} {a h : Addr} {id : Text} {dir : Dir}
variable {F : Prop}

theorem envRead_fills (c : Conf) (mode : ReadMode) (version0 : Int) (dinode0 : Nat) (e : Envelope) :
    (envRead c mode version0 dinode0 e).wlp Prog.anyAnswer (fun r _ => FilledIn mode e r.2) () := by
  unfold envRead
  refine (Prog.wlp_bind _ _ _ _ _).mpr (Prog.wlp_of_forall fun lines _ => ?_)
  cases lines with
  | none => exact .refl mode e
  | some lines =>
    have hf := @envReadLines_fills mode e version0 dinode0 lines
    refine (Prog.wlp_bind _ _ _ _ _).mpr (Prog.wlp_of_forall fun closed _ => ?_)
    cases hr : envReadLines mode version0 dinode0 e lines with
    | error x =>
      rw [hr] at hf
      exact hf
    | ok x =>
      rw [hr] at hf
      cases closed with
      | false => exact hf
      | true =>
        refine (Prog.wlp_bind _ _ _ _ _).mpr (Prog.wlp_of_forall fun ok _ => ?_)
        split
        · refine (Prog.wlp_bind _ _ _ _ _).mpr (Prog.wlp_of_forall fun ok _ => ?_)
          split <;> exact hf
        · exact hf

/-- An envelope that has just been made from the Efile of that id. -/
structure NewEnv (dir : Dir) (id : Text) (a : Addr) (q : Queues) : Prop where
  env : ∃ e, q.envs a = some e ∧ e.eHq = none ∧ e.eId = id ∧ e.eDir = dir ∧ e.eFlags.punt = false

theorem NewEnv.hqOf (hn : NewEnv dir id a q) : q.hqOf a = none := by
  obtain ⟨e, he, hhq, -⟩ := hn.env
  simp [Queues.hqOf, he, hhq]

theorem NewEnv.idOf (hn : NewEnv dir id a q) : q.idOf a = id := by
  obtain ⟨e, he, -, hid, -⟩ := hn.env
  simp [Queues.idOf, he, hid]

/-- The making of an envelope; an empty id is replaced by one that is made up. -/
theorem envCreateNew_new (hn : HostsNamed q) :
    (envCreateNew conf dir id).wlp Prog.anyAnswer F
      (fun r q' _ => Settled q q' ∧ ∀ a, r = some a → ∃ id', (id ≠ [] → id' = id) ∧ NewEnv dir id' a q') q () := by
  have hmade : ∀ {g : Option Text → QueueProg (Option Addr)} {Q : Option Addr → Queues → Unit → Prop},
      (g none).wlp Prog.anyAnswer F Q q () →
      (∀ id', (id ≠ [] → id' = id) → (g (some id')).wlp Prog.anyAnswer F Q q ()) →
      (newId id >>= g).wlp Prog.anyAnswer F Q q () := by
    intro g Q hnone hsome
    refine (Faulty.wlp_bind _ _).mpr ?_
    unfold newId
    split
    · rename_i hid
      refine (Faulty.wlp_ask _).mpr fun r _ _ => ?_
      cases r with
      | none => exact hnone
      | some id' => exact hsome id' fun h => absurd hid h
    · exact hsome id fun _ => rfl
  unfold envCreateNew
  refine (Faulty.wlp_bind _ _).mpr (wlp_file fun ok => ?_)
  split
  · refine hmade ⟨.refl q, nofun⟩ fun id' hid => ?_
    refine (Faulty.wlp_bind _ _).mpr (wlp_file fun ok => ?_)
    split
    · refine ⟨settled_newEnv hn.sound.envBound rfl, fun a ha => ?_⟩
      cases ha
      exact ⟨id', hid, ⟨_, if_pos rfl, rfl, rfl, rfl, rfl⟩⟩
    · exact ⟨.refl q, nofun⟩
  · exact ⟨.refl q, nofun⟩

/-- The reading of its Efile. -/
theorem onEnvelope_new (version0 : Int) (dinode0 : Nat) (hn : NewEnv dir id a q) :
    (onEnvelope a fun e => some <$> envRead conf.toConf .queueInfo version0 dinode0 e).wlp Prog.anyAnswer F
      (fun _ q' _ => Settled q q' ∧ NewEnv dir id a q') q () := by
  obtain ⟨e, he, hhq, hid, hdir, hpunt⟩ := hn.env
  refine (Faulty.wlp_bind _ _).mpr (Faulty.wlp_read.mpr ⟨fun hnone => ?_, fun e' he' => ?_⟩)
  · rw [he] at hnone
    cases hnone
  · cases he.symm.trans he'
    have hread : (some <$> envRead conf.toConf .queueInfo version0 dinode0 e.toEnvelope).wlp Prog.anyAnswer
        (fun r _ => ∃ x, r = some x ∧ FilledIn .queueInfo e.toEnvelope x.2) () :=
      (Prog.wlp_bind _ _ _ _ _).mpr (Prog.wlp_mono (fun r _ hr => ⟨r, rfl, hr⟩) (envRead_fills _ _ _ _ _))
    refine (Faulty.wlp_bind _ _).mpr (wlp_file_of hread ?_)
    rintro _ ⟨⟨ret, x⟩, rfl, hx⟩
    refine (Faulty.wlp_bind _ _).mpr (Faulty.wlp_update.mpr ⟨fun hnone => ?_, fun u hu => ?_⟩)
    · rw [modEnv_of_some he] at hnone
      cases hnone
    · have hw : EnvWritten a q u := envWritten_modEnv hu fun y hy => by
        cases he.symm.trans hy
        show (e.eHq, x.eId, _) = _
        rw [hx.eId]
        rfl
      rw [modEnv_of_some he] at hu
      cases hu
      exact ⟨hw.settled (Option.isSome_of_eq_some he), ⟨⟨_, if_pos rfl, hhq, hx.eId.trans hid, hx.eDir.trans hdir,
        (congrArg EnvFlags.punt hx.eFlags).trans hpunt⟩⟩⟩

theorem listsAdd_settled (ha : (q.envs a).isSome) (e : Envelope) : Settled q (q.listsAdd conf.toConf a e) :=
  settled_of_heap rfl rfl rfl rfl rfl rfl rfl fun hl => hl.listsAdd ha e

theorem filtered_same (hostname : Option Text) :
    (filtered conf hostname).wlp Prog.anyAnswer F (fun _ q' _ => q' = q) q () := by
  unfold filtered
  split
  · exact rfl
  · exact rfl
  · exact (Faulty.wlp_bind _ _).mpr fun _ _ _ => rfl

/-- **A new envelope is queued and put on the ring.** -/
theorem newEnv_queued (hm : Messages (insert id seen) none q l) (hn : NewEnv dir id a q) (hdir : dir ≠ .dead)
    (hother : ∀ b ∈ l, q.idOf b ≠ id) :
    (do
      let ret ← queueEnvelope conf a
      if ret ≠ 0 then return 1
      else
        let q ← get
        modEnv a fun e => { e with eCycle := q.diskCycle }
        Faulty.update (Queues.ringInsert a)
        return 0 : QueueProg Int).wlp Prog.anyAnswer F
      (fun _ q' _ => ∃ l', Messages (insert id seen) none q' l') q () := by
  obtain ⟨e, he, hhq, hid, hdire, hpunt⟩ := hn.env
  refine Faulty.wlp_seq (queueEnvelope_spec (.inr ⟨hm.hosts.sound, hm.hosts.there, e, he, hpunt⟩)) ?_
  rintro ret q₁ - hq
  cases hq with
  | kept e' he' hk =>
    cases he.symm.trans he'
    rcases hk with hk | hk
    · exact absurd (hdire.symm.trans hk) hdir
    · exact absurd hhq hk
  | failed hg =>
    rw [if_pos one_ne_zero]
    exact ⟨l, hg.messages hm⟩
  | @queued u _ h hg _ hh hq =>
    have hnamed : u.Names h := by
      rcases hh with hh | hh | ⟨-, e', he', hp⟩
      · exact .inl hh
      · exact .inr hh
      · cases he.symm.trans he'
        rw [hpunt] at hp
        cases hp
    have hu : u.hqOf a = none := (hqOf_of_envs hg.envs a).trans hn.hqOf
    obtain ⟨hm₁, hqueued, hida⟩ := enqueue_messages (hg.messages hm) hu hnamed hq
    have hida : q₁.idOf a = id := hida.trans ((reads_of_envs (congrFun hg.envs a)).2.1.trans hn.idOf)
    rw [if_neg (not_not.mpr rfl)]
    refine (Faulty.wlp_bind _ _).mpr (Faulty.wlp_get.mpr ?_)
    obtain ⟨k, hk⟩ := Option.ne_none_iff_exists'.mp hqueued
    obtain ⟨e₁, he₁⟩ := Option.isSome_iff_exists.mp (isSome_of_hqOf hk)
    refine (Faulty.wlp_bind _ _).mpr (Faulty.wlp_update.mpr ⟨fun hnone => ?_, fun q₂ hq₂ => ?_⟩)
    · rw [modEnv_of_some he₁] at hnone
      cases hnone
    · have hc := cycleSet_modEnv hq₂
      have hm₂ := hc.messages hm₁
      have hothers : ∀ b ∈ l, q₂.idOf b ≠ id := fun b hb => by
        have hba : b ≠ a := fun hba => ((hm₁.mem b).mp hb).2 (congrArg some hba.symm)
        rw [hc.ids]
        obtain ⟨e', x, y, -, -, -, rfl⟩ := enqueue_launch hq
        have hqueue : ((u.setHq h (some y)).setEnv a (some { e' with eHq := some h })).envs b = u.envs b := by
          rw [Queues.setEnv_envs, if_neg hba]
          rfl
        rw [(reads_of_envs hqueue).2.1, (reads_of_envs (congrFun hg.envs b)).2.1]
        exact hother b hb
      have hcycle : q₂.cycleOf a = q₂.diskCycle := by
        rw [hc.cycle, if_pos rfl, hc.rest]
      have hrest := hc.rest
      obtain ⟨q₃, hq₃, hm₃⟩ := ringInsert_messages hm₂ (by rw [hc.kept.hqOf]; exact hqueued)
        ((hc.ids a).trans hida) hothers hcycle
      refine (Faulty.wlp_bind _ _).mpr (Faulty.wlp_update.mpr ⟨fun hnone => ?_, fun u hu => ?_⟩)
      · rw [hq₃] at hnone
        cases hnone
      · cases hq₃.symm.trans hu
        rw [Set.insert_eq_of_mem (Set.mem_insert id seen)] at hm₃
        exact ⟨_, hm₃⟩

/-- **An Efile is read**: its id is seen, and the envelopes stay a list; no freed one is reached. -/
theorem scanEfile_messages (hm : Messages seen none q l) (hid : id ≠ []) (hdir : dir ≠ .dead) :
    (scanEfile conf dir id).wlp Prog.anyAnswer F
      (fun _ q' _ => ∃ l', Messages (insert id seen) none q' l') q () := by
  unfold scanEfile
  refine (Faulty.wlp_bind _ _).mpr (Faulty.wlp_read.mpr ⟨fun hnone => ?_, fun r hr => ?_⟩)
  · rw [known_eq hm] at hnone
    cases hnone
  rw [known_eq hm] at hr
  cases hr
  cases hfind : l.find? fun a => q.idOf a = id with
  | some a =>
    -- the message is known
    have ha := List.mem_of_find?_eq_some hfind
    have hida : q.idOf a = id := by simpa using List.find?_some hfind
    obtain ⟨e, he⟩ := Option.isSome_iff_exists.mp (hm.isSome ha)
    refine (Faulty.wlp_bind _ _).mpr (Faulty.wlp_get.mpr ?_)
    refine (Faulty.wlp_bind _ _).mpr (Faulty.wlp_update.mpr ⟨fun hnone => ?_, fun u hu => ?_⟩)
    · rw [modEnv_of_some he] at hnone
      cases hnone
    · exact ⟨l, hida ▸ (cycleSet_modEnv hu).messages_seen hm ha⟩
  | none =>
    have hother : ∀ b ∈ l, q.idOf b ≠ id := fun b hb hbid => by
      have hno := List.find?_eq_none.mp hfind b hb
      simp [hbid] at hno
    have hm := hm.seen_other hother
    -- what the steps up to the queueing leave
    have hsettled : ∀ {u : Queues}, Settled q u → ∃ l', Messages (insert id seen) none u l' := fun hu =>
      ⟨l, hm.settled hu⟩
    refine Faulty.wlp_seq (envCreateNew_new hm.hosts) ?_
    rintro r q₁ - ⟨h₁, hnew⟩
    cases r with
    | none => exact hsettled h₁
    | some a =>
      obtain ⟨id', hid', hn₁⟩ := hnew a rfl
      obtain rfl := (hid' hid).symm
      refine (Faulty.wlp_bind _ _).mpr fun locals _ _ => ?_
      refine Faulty.wlp_seq (onEnvelope_new locals.1 locals.2 hn₁) ?_
      rintro ret q₂ - ⟨h₂, hn₂⟩
      have h₂ := h₁.trans h₂
      split
      · exact hsettled (h₂.trans (settled_freeEnv hn₂.hqOf))
      · obtain ⟨e, he, hhq, hide, hdire, hpunt⟩ := hn₂.env
        refine (Faulty.wlp_bind _ _).mpr (Faulty.wlp_read.mpr ⟨fun hnone => ?_, fun e' he' => ?_⟩)
        · rw [he] at hnone
          cases hnone
        cases he.symm.trans he'
        refine (Faulty.wlp_bind _ _).mpr ?_
        have h₃ : Settled q (q₂.listsAdd conf.toConf a e.toEnvelope) := h₂.trans (listsAdd_settled (Option.isSome_of_eq_some he) _)
        have hn₃ : NewEnv dir id a (q₂.listsAdd conf.toConf a e.toEnvelope) := ⟨⟨e, he, hhq, hide, hdire, hpunt⟩⟩
        show (filtered conf e.eHostname >>= _).wlp _ _ _ (q₂.listsAdd conf.toConf a e.toEnvelope) ()
        generalize q₂.listsAdd conf.toConf a e.toEnvelope = q₃ at h₃ hn₃
        refine Faulty.wlp_seq (filtered_same _) ?_
        rintro out q₄ - rfl
        have hother' : ∀ b ∈ l, q₄.idOf b ≠ id := fun b hb => by
          rw [(place_reads (h₃.envs b ((hm.mem b).mp hb).1)).2.1]
          exact hother b hb
        split
        · exact hsettled (h₃.trans (settled_freeEnv hn₃.hqOf))
        · exact newEnv_queued (hm.settled h₃) hn₃ hdir hother'

end Scan

/-! ## The end of a cycle -/

/-- The cycle that began with the messages `l₀` of `q₀` is being ended: the queues in `done` are pruned, and of
    them those in `full` still have messages. -/
structure CycleSwept (seen : Set Text) (q₀ : Queues) (l₀ done full : List Addr) (q : Queues) (l : List Addr) : Prop where
  messages : Messages seen none q l
  hostQ : ∀ h ∈ q.hostQ, h ∈ q₀.hostQ
  unexpandedQ : q.unexpandedQ = q₀.unexpandedQ
  old : ∀ a ∈ l₀, a < q.fresh
  sub : ∀ a ∈ l, a ∈ l₀ ∧ q.idOf a = q₀.idOf a
  left : ∀ a ∈ l₀, q₀.idOf a ∈ seen → a ∈ l
  gone : ∀ a ∈ l₀, a ∉ l → q.envs a = none
  clean : ∀ a ∈ l, ∀ h ∈ done, q.hqOf a = some h → q.idOf a ∈ seen
  nonempty : ∀ h ∈ q.hostQ, h ∈ full → ∀ x, q.hqs h = some x → x.hqEnvHead ≠ []

section CycleEnd

variable {conf : QueueConf} {seen : Set Text} {q₀ q q' : Queues} {l₀ l done full hosts : List Addr} {h : Addr} {x : HostQ}

theorem CycleSwept.start (hm : Messages seen none q l) : CycleSwept seen q l [] [] q l := by
  refine ⟨hm, fun _ hh => hh, rfl, fun a ha => ?_, fun a ha => ⟨ha, rfl⟩, fun a ha _ => ha,
    fun a ha hn => absurd ha hn, fun _ _ h hh => ?_, fun _ _ hh => ?_⟩
  · obtain ⟨e, he⟩ := Option.isSome_iff_exists.mp (hm.isSome ha)
    exact hm.hosts.sound.envBound a e he
  · cases hh
  · cases hh

/-- A queue is pruned. -/
theorem CycleSwept.prune (hs : CycleSwept seen q₀ l₀ done full q l) (hx : q.hqs h = some x) (hf : h ∉ full) :
    ∃ q' l', q.pruneMessages h = some q' ∧ QueuePruned h x q q' ∧ CycleSwept seen q₀ l₀ (h :: done) full q' l' := by
  obtain ⟨q', hq', hp, hm'⟩ := pruneMessages_messages hs.messages hx
  have hmem := (hs.messages.hosts.sound.queue h x hx).mem_iff'
  have hreads := fun {b : Addr} (hb : q.survives h b = true) => hp.reads hmem hb
  have hglobals := hp.rest
  refine ⟨q', _, hq', hp, hm', fun k hk => ?_, ?_, fun b hb => ?_, fun b hb => ?_, fun b hb hid => ?_,
    fun b hb hn => ?_, fun b hb k hk hhq => ?_, fun k hk hkf z hz => ?_⟩
  · rw [hglobals] at hk
    exact hs.hostQ k hk
  · rw [hglobals]
    exact hs.unexpandedQ
  · rw [hglobals]
    exact hs.old b hb
  · obtain ⟨hb, hsv⟩ := List.mem_filter.mp hb
    rw [(hreads hsv).2.1]
    exact hs.sub b hb
  · have hb := hs.left b hb hid
    refine List.mem_filter.mpr ⟨hb, ?_⟩
    -- a message whose id was seen is of this cycle
    have hcycle := (hs.messages.scanned b hb).mpr ((hs.sub b hb).2 ▸ hid)
    obtain ⟨e, he⟩ := Option.isSome_iff_exists.mp (hs.messages.isSome hb)
    have hlive : q.live b = true := by
      simpa [Queues.live, Queues.cycleOf, he] using hcycle
    simp [Queues.survives, hlive]
  · cases hsv : q.survives h b with
    | false => exact hp.freed hmem hsv
    | true =>
      have hb' := hs.gone b hb fun hl => hn (List.mem_filter.mpr ⟨hl, hsv⟩)
      have henv := hp.envs b
      rw [hb'] at henv
      split at henv <;> exact Option.map_eq_none_iff.mp henv
  · obtain ⟨hbl, hsv⟩ := List.mem_filter.mp hb
    obtain ⟨hhq', hid, -⟩ := hreads hsv
    rw [hhq'] at hhq
    rw [hid]
    rcases List.mem_cons.mp hk with rfl | hk
    · refine (hs.messages.scanned b hbl).mp ?_
      simp only [Queues.survives, hhq, ne_eq, not_true_eq_false, decide_false, Bool.false_or] at hsv
      obtain ⟨e, he⟩ := Option.isSome_iff_exists.mp (hs.messages.isSome hbl)
      simpa [Queues.live, Queues.cycleOf, he] using hsv
    · exact hs.clean b hbl k hk hhq
  · rw [hp.hqs] at hz
    rw [hglobals] at hk
    split at hz
    · rename_i hkh
      exact absurd (hkh ▸ hkf) hf
    · exact hs.nonempty k hk hkf z hz

/-- The queues are pushed. -/
theorem CycleSwept.settled (hs : CycleSwept seen q₀ l₀ done full q l) (hq : Settled q q') : CycleSwept seen q₀ l₀ done full q' l := by
  have hid : ∀ a ∈ l, q'.idOf a = q.idOf a := fun a ha =>
    (place_reads (hq.envs a ((hs.messages.mem a).mp ha).1)).2.1
  refine ⟨hs.messages.settled hq, fun h hh => hs.hostQ h (hq.hosts.hostQ ▸ hh),
    hq.hosts.unexpandedQ.trans hs.unexpandedQ, fun a ha => lt_of_lt_of_le (hs.old a ha) hq.hosts.fresh,
    fun a ha => ?_, hs.left, fun a ha hn => ?_, fun a ha h hh hhq => ?_, fun h hh hf x hx => ?_⟩
  · rw [hid a ha]
    exact hs.sub a ha
  · -- the address of an envelope that was freed is not used again
    cases he : q'.envs a with
    | none => rfl
    | some e =>
      rcases hq.hosts.bound a (Option.isSome_of_eq_some he) with ⟨hle, -⟩ | hsome
      · exact absurd (lt_of_lt_of_le (hs.old a ha) hle) (lt_irrefl a)
      · rw [hs.gone a ha hn] at hsome
        cases hsome
  · rw [hid a ha]
    exact hs.clean a ha h hh (hq.hosts.hqOf a ▸ hhq)
  · obtain ⟨y, hy, hlist, -⟩ := hq.hosts.some_of_some hx
    rw [hlist]
    exact hs.nonempty h (hq.hosts.hostQ ▸ hh) hf y hy

/-- A queue that still has messages. -/
theorem CycleSwept.keep (hs : CycleSwept seen q₀ l₀ done full q l) (hx : q.hqs h = some x) (hne : x.hqEnvHead ≠ []) :
    CycleSwept seen q₀ l₀ done (h :: full) q l := by
  refine ⟨hs.messages, hs.hostQ, hs.unexpandedQ, hs.old, hs.sub, hs.left, hs.gone, hs.clean, fun k hk hf y hy => ?_⟩
  rcases List.mem_cons.mp hf with rfl | hf
  · cases hx.symm.trans hy
    exact hne
  · exact hs.nonempty k hk hf y hy

/-- A queue that is left empty is freed. -/
theorem CycleSwept.free (hs : CycleSwept seen q₀ l₀ done full q l) (hx : q.hqs h = some x) (hempty : x.hqEnvHead = [])
    (hh : h ∈ q.hostQ) (hq : ({ q with hostQ := q.hostQ.erase h } : Queues).hqFree h = some q') :
    CycleSwept seen q₀ l₀ done (h :: full) q' l ∧ q'.hostQ = q.hostQ.erase h := by
  have hm := hqFree_messages hs.messages hx hempty hh hq
  simp only [Queues.hqFree, Option.bind_eq_bind, Option.bind_eq_some_iff, Option.some.injEq] at hq
  obtain ⟨u, hu, rfl⟩ := hq
  have hr := deliverPop_rescheduled hu
  have hk := hr.settled.hosts
  have henvs : ∀ b, (u.setHq h none).envs b = q.envs b := fun b => by
    show u.envs b = q.envs b
    rw [hr.rest]
  refine ⟨⟨hm, fun k hk' => ?_, hk.unexpandedQ.trans hs.unexpandedQ, fun a ha => ?_, fun a ha => ?_, hs.left,
    fun a ha hn => ?_, fun a ha k hkd hhq => ?_, fun k hmem hf y hy => ?_⟩, hk.hostQ⟩
  · change k ∈ u.hostQ at hk'
    rw [hk.hostQ] at hk'
    exact hs.hostQ k (List.mem_of_mem_erase hk')
  · exact lt_of_lt_of_le (hs.old a ha) hk.fresh
  · rw [(reads_of_envs (henvs a)).2.1]
    exact hs.sub a ha
  · rw [henvs]
    exact hs.gone a ha hn
  · rw [(reads_of_envs (henvs a)).2.1]
    exact hs.clean a ha k hkd ((reads_of_envs (henvs a)).1 ▸ hhq)
  · rw [Queues.setHq_hqs] at hy
    split at hy
    · cases hy
    · rename_i hkh
      change k ∈ u.hostQ at hmem
      rw [hk.hostQ] at hmem
      obtain ⟨z, hz, hlist, -⟩ := hk.some_of_some hy
      rw [hlist]
      exact hs.nonempty k (List.mem_of_mem_erase hmem) ((List.mem_cons.mp hf).resolve_left hkh) z hz

/-- The host queues one after the other, when none of them has been looked at yet. -/
theorem cycleHosts_swept (now : Int) : ∀ {q : Queues} {l done full : List Addr}, CycleSwept seen q₀ l₀ done full q l →
    hosts.Nodup → (∀ h ∈ hosts, h ∈ q.hostQ ∧ h ∉ full) →
      (cycleHosts conf now hosts).wlp Prog.anyAnswer True (fun ret q' _ => ∃ l' done' full',
        CycleSwept seen q₀ l₀ done' full' q' l' ∧
          (ret = 0 → ∀ h, (h ∈ done → h ∈ done') ∧ (h ∈ full → h ∈ full') ∧ (h ∈ hosts → h ∈ done' ∧ h ∈ full')))
        q () := by
  induction hosts with
  | nil =>
    intro q l done full hs _ _
    exact ⟨l, done, full, hs, fun _ h => ⟨id, id, fun hh => by cases hh⟩⟩
  | cons h rest ih =>
    intro q l done full hs hd hh
    obtain ⟨hmem, hd⟩ := List.nodup_cons.mp hd
    obtain ⟨hhostQ, hfull⟩ := hh h List.mem_cons_self
    obtain ⟨x, hx⟩ := Option.isSome_iff_exists.mp (hs.messages.hosts.there.hostQ h hhostQ)
    obtain ⟨q₁, l₁, hq₁, hp, hs₁⟩ := hs.prune hx hfull
    have hx₁ : q₁.hqs h = some (x.pruned q) := by rw [hp.hqs, if_pos rfl]
    have hhostQ₁ : q₁.hostQ = q.hostQ := by rw [hp.rest]
    -- what is left when the rest of the queues is done
    have hrest : ∀ {u : Queues}, CycleSwept seen q₀ l₀ (h :: done) (h :: full) u l₁ → (∀ k ∈ rest, k ∈ u.hostQ) →
        (cycleHosts conf now rest).wlp Prog.anyAnswer True (fun ret q' _ => ∃ l' done' full',
          CycleSwept seen q₀ l₀ done' full' q' l' ∧ (ret = 0 → ∀ k, (k ∈ done → k ∈ done') ∧
            (k ∈ full → k ∈ full') ∧ (k ∈ h :: rest → k ∈ done' ∧ k ∈ full'))) u () := by
      intro u hu hin
      refine Faulty.wlp_mono ?_ (ih hu hd fun k hk => ⟨hin k hk, fun hkf => ?_⟩)
      · rintro ret q' - ⟨l', done', full', hs', hall⟩
        refine ⟨l', done', full', hs', fun hret k => ⟨fun hk => ?_, fun hk => ?_, fun hk => ?_⟩⟩
        · exact (hall hret k).1 (List.mem_cons_of_mem _ hk)
        · exact (hall hret k).2.1 (List.mem_cons_of_mem _ hk)
        · rcases List.mem_cons.mp hk with rfl | hk
          · exact ⟨(hall hret _).1 List.mem_cons_self, (hall hret _).2.1 List.mem_cons_self⟩
          · exact (hall hret k).2.2 hk
      · rcases List.mem_cons.mp hkf with rfl | hkf
        · exact hmem hk
        · exact (hh k (List.mem_cons_of_mem _ hk)).2 hkf
    refine (Faulty.wlp_bind _ _).mpr (Faulty.wlp_update.mpr ⟨fun _ => trivial, fun u hu => ?_⟩)
    cases hq₁.symm.trans hu
    refine (Faulty.wlp_bind _ _).mpr (Faulty.wlp_read.mpr ⟨fun _ => trivial, fun y hy => ?_⟩)
    cases hx₁.symm.trans hy
    split
    · rename_i hempty
      refine (Faulty.wlp_bind _ _).mpr ((Faulty.wlp_modify _).mpr ?_)
      refine (Faulty.wlp_bind _ _).mpr (Faulty.wlp_update.mpr ⟨fun _ => trivial, fun q₂ hq₂ => ?_⟩)
      obtain ⟨hs₂, hhostQ₂⟩ := hs₁.free hx₁ hempty (hhostQ₁ ▸ hhostQ) hq₂
      refine hrest hs₂ fun k hk => ?_
      have hkh : k ≠ h := fun hkh => hmem (hkh ▸ hk)
      rw [hhostQ₂, hhostQ₁]
      exact (List.mem_erase_of_ne hkh).mpr (hh k (List.mem_cons_of_mem _ hk)).1
    · rename_i hne
      have hs₂ := hs₁.keep hx₁ hne
      have hin : ∀ k ∈ rest, k ∈ q₁.hostQ := fun k hk => by
        rw [hhostQ₁]
        exact (hh k (List.mem_cons_of_mem _ hk)).1
      split
      · have hnames : q₁.Names h := .inl (hhostQ₁ ▸ hhostQ)
        refine Faulty.wlp_seq (hqDeliverPush_settled hnames) fun ret q₂ _ hq₂ => ?_
        have hs₃ := hs₂.settled hq₂
        split
        · exact ⟨l₁, _, _, hs₃, fun h => absurd h one_ne_zero⟩
        · exact hrest hs₃ fun k hk => hq₂.hosts.hostQ ▸ hin k hk
      · exact hrest hs₂ hin

/-- **What the end of a cycle leaves** of the messages `l₀` of `q₀`: those whose Efile was seen; the others are
    freed, and so are the host queues that are left empty. -/
structure CycleEnded (seen : Set Text) (q₀ : Queues) (l₀ : List Addr) (q : Queues) (l : List Addr) : Prop where
  mem : ∀ a, a ∈ l ↔ a ∈ l₀ ∧ q₀.idOf a ∈ seen
  freed : ∀ a ∈ l₀, a ∉ l → q.envs a = none
  nonempty : ∀ h ∈ q.hostQ, ∀ x, q.hqs h = some x → x.hqEnvHead ≠ []

theorem cycleEnd_messages (now : Int) (hm : Messages seen none q l) :
    (cycleEnd conf now).wlp Prog.anyAnswer True (fun ret q' _ => ∃ l', Messages seen none q' l' ∧
      (ret = 0 → CycleEnded seen q l q' l')) q () := by
  -- behind the queue of unexpanded messages
  have hhosts : ∀ {u : Queues} {l₁ done : List Addr}, CycleSwept seen q l done [] u l₁ →
      (∀ h, u.unexpandedQ = some h → h ∈ done) → u.hostQ = q.hostQ →
      (cycleHosts conf now u.hostQ).wlp Prog.anyAnswer True (fun ret q' _ => ∃ l', Messages seen none q' l' ∧
        (ret = 0 → CycleEnded seen q l q' l')) u () := by
    intro u l₁ done hs hun hhostQ
    refine Faulty.wlp_mono ?_ (cycleHosts_swept now hs (hhostQ ▸ hm.hosts.nodup) fun h hh => ⟨hh, List.not_mem_nil⟩)
    rintro ret q' - ⟨l', done', full', hs', hall⟩
    refine ⟨l', hs'.messages, fun hret => ⟨fun a => ⟨fun ha => ?_, fun ha => hs'.left a ha.1 ha.2⟩, hs'.gone,
      fun h hh x hx => hs'.nonempty h hh ?_ x hx⟩⟩
    · obtain ⟨h, hh⟩ := Option.ne_none_iff_exists'.mp ((hs'.messages.mem a).mp ha).1
      have hdone : h ∈ done' := by
        rcases hs'.messages.hosts.placed a h hh with hmem | hmem
        · exact ((hall hret h).2.2 (hhostQ ▸ hs'.hostQ h hmem)).1
        · refine (hall hret h).1 (hun h ?_)
          rw [hs.unexpandedQ, ← hs'.unexpandedQ, hmem]
      obtain ⟨hal, hid⟩ := hs'.sub a ha
      exact ⟨hal, hid ▸ hs'.clean a ha h hdone hh⟩
    · exact ((hall hret h).2.2 (hhostQ ▸ hs'.hostQ h hh)).2
  unfold cycleEnd
  refine (Faulty.wlp_bind _ _).mpr (Faulty.wlp_get.mpr ?_)
  cases hun : q.unexpandedQ with
  | none =>
    refine (Faulty.wlp_bind _ _).mpr (Faulty.wlp_get.mpr ?_)
    exact hhosts (CycleSwept.start hm) (fun h hh => by rw [hun] at hh; cases hh) rfl
  | some h =>
    obtain ⟨x, hx⟩ := Option.isSome_iff_exists.mp (hm.hosts.there.unexpanded h hun)
    obtain ⟨q₁, l₁, hq₁, hp, hs₁⟩ := (CycleSwept.start hm).prune hx List.not_mem_nil
    refine (Faulty.wlp_bind _ _).mpr (Faulty.wlp_update.mpr ⟨fun _ => trivial, fun u hu => ?_⟩)
    cases hq₁.symm.trans hu
    refine (Faulty.wlp_bind _ _).mpr (Faulty.wlp_get.mpr ?_)
    refine hhosts hs₁ (fun k hk => ?_) (by rw [hp.rest])
    rw [hs₁.unexpandedQ, hun] at hk
    cases hk
    exact List.mem_cons_self

end CycleEnd

/-! ## The loop -/

/-- The clock reads a time that is allowed, `readdir(3)` gives an entry of the slow directory that `D` allows,
    and every other call may answer anything. -/
def scanWorld (conf : QueueConf) (D : Dirent → Prop) : Prog.World QueueOp QueueAns Unit := fun op _ a _ =>
  match op, a with
  | .file .clock, a => ∀ now, a = some now → ClockOk conf now
  | .dirent _, d => D d
  | _, _ => True

/-- The ids seen in the cycle, with that of an entry. -/
def Dirent.seen (seen : Set Text) : Dirent → Set Text
  | .entry ('E' :: id) => insert id seen
  | _ => seen

/-- The runs of the server loop with the entries of the slow directory that `D` allows: the ids seen since the
    directory was opened, whether the last step returned 0, and the server. -/
inductive ScanRun (conf : QueueConf) (D : Dirent → Prop) : Set Text → Bool → Daemon → Prop
  | start : ScanRun conf D ∅ true .start
  | other {seen : Set Text} {d : Daemon} {s : DaemonStep} {r : Int × Bool × Bool} {q : Queues}
      (hr : ScanRun conf D seen true d) (hs : s ≠ .disk)
      (hrun : (s.prog conf d.slowDirp d.commandDirp).Runs (scanWorld conf D) d.queues () r q ()) :
      ScanRun conf D seen (r.1 = 0) ⟨q, r.2.1, r.2.2⟩
  | opened {seen : Set Text} {d : Daemon} {r : Int × Bool × Bool} {q : Queues}
      (hr : ScanRun conf D seen true d) (hd : d.slowDirp = false)
      (hrun : (DaemonStep.disk.prog conf false d.commandDirp).Runs (scanWorld conf D) d.queues () r q ()) :
      ScanRun conf D ∅ (r.1 = 0) ⟨q, r.2.1, r.2.2⟩
  | entry {seen : Set Text} {d : Daemon} {e : Dirent} {r : Int × Bool × Bool} {q : Queues}
      (hr : ScanRun conf D seen true d) (hd : d.slowDirp = true) (he : D e)
      (hrun : (DaemonStep.disk.prog conf true d.commandDirp).Runs (scanWorld conf (· = e)) d.queues () r q ()) :
      ScanRun conf D (e.seen seen) (r.1 = 0) ⟨q, r.2.1, r.2.2⟩

/-- The members of the queue of unexpanded messages and of the host queues. -/
def Queues.queued (q : Queues) : List Addr :=
  (q.unexpandedQ.toList ++ q.hostQ).flatMap fun h => ((q.hqs h).map fun x => x.hqEnvHead).getD []

/-- **The ring `l`** links the messages both ways round, none of them freed and no two with one id; they are the
    members of the queues, each of one queue. -/
structure MessageList (q : Queues) (l : List Addr) : Prop where
  ring : Ring q.listNext q.listPrev q.envQueue l
  there : ∀ a ∈ l, (q.envs a).isSome
  ids : (l.map q.idOf).Nodup
  queued : l.Perm q.queued

section Run

variable {conf : QueueConf} {D : Dirent → Prop} {seen : Set Text} {q q' : Queues} {l : List Addr} {d : Daemon} {ok : Bool}

theorem mem_queued (hn : HostsNamed q) (a : Addr) : a ∈ q.queued ↔ q.hqOf a ≠ none := by
  have hmem : ∀ h, a ∈ ((q.hqs h).map fun x => x.hqEnvHead).getD [] ↔ q.hqOf a = some h := fun h => by
    cases hx : q.hqs h with
    | none =>
      refine iff_of_false List.not_mem_nil fun ha => ?_
      have hsome := hn.sound.linked a h ha
      rw [hx] at hsome
      cases hsome
    | some x => exact (hn.sound.queue h x hx).mem_iff' a
  unfold Queues.queued
  rw [List.mem_flatMap]
  constructor
  · rintro ⟨h, -, ha⟩
    rw [(hmem h).mp ha]
    simp
  · intro ha
    obtain ⟨h, hh⟩ := Option.ne_none_iff_exists'.mp ha
    refine ⟨h, ?_, (hmem h).mpr hh⟩
    rcases hn.placed a h hh with hmem | hun
    · exact List.mem_append_right _ hmem
    · exact List.mem_append_left _ (by simp [hun])

theorem nodup_queued (hn : HostsNamed q) : q.queued.Nodup := by
  have hmem : ∀ h a, a ∈ ((q.hqs h).map fun x => x.hqEnvHead).getD [] → q.hqOf a = some h := fun h a ha => by
    cases hx : q.hqs h with
    | none =>
      rw [hx] at ha
      cases ha
    | some x =>
      rw [hx] at ha
      exact ((hn.sound.queue h x hx).mem_iff' a).mp ha
  refine List.nodup_flatMap.mpr ⟨fun h _ => ?_, ?_⟩
  · cases hx : q.hqs h with
    | none => exact List.nodup_nil
    | some x => exact (hn.sound.queue h x hx).nodup
  · -- an envelope is in one queue
    have hhosts : (q.unexpandedQ.toList ++ q.hostQ).Nodup := by
      cases hun : q.unexpandedQ with
      | none => exact hn.nodup
      | some h => exact List.nodup_cons.mpr ⟨hn.apart h hun, hn.nodup⟩
    refine List.Pairwise.imp ?_ hhosts
    intro h k hhk a hah hak
    exact hhk (Option.some.inj ((hmem h a hah).symm.trans (hmem k a hak)))

theorem Messages.messageList (hm : Messages seen none q l) : MessageList q l :=
  ⟨hm.ring, fun _ ha => hm.isSome ha, hm.ids, (List.perm_ext_iff_of_nodup hm.ring.nodup (nodup_queued hm.hosts)).mpr
    fun a => by rw [hm.mem, mem_queued hm.hosts]; simp⟩

/-- One call of `q_read_dir` with the directory open. -/
theorem qReadDir_messages (hm : Messages seen none q l) {e : Dirent} (he : e ≠ .entry ['E']) :
    (qReadDir conf .slow true).wlp (scanWorld conf (· = e)) True
      (fun r q' _ => ∃ l', Messages (e.seen seen) none q' l' ∧
        (e = .finished → r.1 = 0 → CycleEnded seen q l q' l')) q () := by
  unfold qReadDir
  refine (Faulty.wlp_bind _ _).mpr ((Faulty.wlp_ask _).mpr fun e' _ he' => ?_)
  obtain rfl : e' = e := he'
  refine Faulty.wlp_world (fun _ _ _ _ _ => trivial) ?_
  cases e' with
  | error => exact ⟨l, hm, nofun⟩
  | finished =>
    refine (Faulty.wlp_bind _ _).mpr (wlp_file fun ok => ?_)
    split
    · refine (Faulty.wlp_bind _ _).mpr (wlp_file fun now => ?_)
      cases now with
      | none => exact ⟨l, hm, fun _ h => absurd h one_ne_zero⟩
      | some now =>
        refine Faulty.wlp_seq (cycleEnd_messages now hm) ?_
        rintro ret q' - ⟨l', hm', hend⟩
        exact ⟨l', hm', fun _ => hend⟩
    · exact ⟨l, hm, fun _ h => absurd h one_ne_zero⟩
  | entry name =>
    show (scanEntry conf .slow name >>= _).wlp _ _ _ q ()
    unfold scanEntry
    split
    · rename_i id
      refine Faulty.wlp_seq (scanEfile_messages hm (fun hid => he (by rw [hid])) nofun) ?_
      rintro ret q' - ⟨l', hm'⟩
      exact ⟨l', hm', nofun⟩
    · rename_i hname
      refine ⟨l, ?_, nofun⟩
      have hseen : (Dirent.entry name).seen seen = seen := by
        unfold Dirent.seen
        split
        · rename_i h
          cases h
          exact absurd rfl (hname _)
        · rfl
      rw [hseen]
      exact hm

theorem qReadDir_opens (hm : Messages seen none q l) :
    (qReadDir conf .slow false).wlp Prog.anyAnswer True (fun _ q' _ => Messages seen none q' l) q () := by
  unfold qReadDir
  refine (Faulty.wlp_bind _ _).mpr (wlp_file fun now => ?_)
  cases now with
  | none => exact hm
  | some now =>
    refine (Faulty.wlp_bind _ _).mpr (wlp_file fun ok => ?_)
    split <;> exact hm

/-- The first queue of the schedule is one that the globals name. -/
theorem Timed.first (ht : Timed conf q) (hn : HostsNamed q) {h : Addr} (hh : q.deliverQ = some h) : q.Names h := by
  obtain ⟨l, ht⟩ := ht
  have hmem : h ∈ l := List.mem_of_mem_head? (ht.schedule.linked.head.symm.trans hh)
  obtain ⟨x, hx⟩ := Option.isSome_iff_exists.mp (ht.schedule.there h hmem)
  exact hn.scheduled h x hx ((ht.timed h x hx List.not_mem_nil).mp hmem)

theorem Messages.start : Messages ∅ none .start [] := by
  have hhosts : HostsNamed .start := by
    refine ⟨start_sound, ⟨?_, ?_⟩, List.nodup_nil, ?_, ?_, ?_, ⟨nofun, nofun⟩⟩
    · intro h hh
      cases hh
    · intro h hh
      cases hh
    · intro h hh
      cases hh
    · intro a h hh
      cases hh
    · intro h x hx
      cases hx
  refine ⟨hhosts, Ring.nil, fun a => ?_, List.nodup_nil, ?_, ?_⟩
  · simp [Queues.hqOf, Queues.start]
  · intro a ha
    cases ha
  · intro a ha
    cases ha

/-- What the loop keeps: the messages are a list, and while it runs the schedule is in order. -/
structure LoopKept (conf : QueueConf) (seen : Set Text) (ok : Bool) (q : Queues) : Prop where
  messages : ∃ l, Messages seen none q l
  timed : ok = true → Timed conf q

/-- A step that is none of the slow directory leaves the messages alone. -/
theorem step_settled {s : DaemonStep} (hs : s ≠ .disk) (hn : HostsNamed q) (ht : Timed conf q)
    (slowDirp commandDirp : Bool) :
    (s.prog conf slowDirp commandDirp).wlp Prog.anyAnswer True (fun _ q' _ => Settled q q') q () := by
  cases s with
  | localRunner => exact (Settles.bind (simtaChildQRunner_settles none) fun _ => .pure _) q hn
  | waitpid => exact (Settles.bind daemonWaitpid_settles fun _ => .pure _) q hn
  | commands => exact (Settles.bind (daemonCommands_settles commandDirp) fun _ => .pure _) q hn
  | disk => exact absurd rfl hs
  | unexpanded => exact (Settles.bind unexpandedRunner_settles fun _ => .pure _) q hn
  | launch => exact Faulty.wlp_seq (hqLaunch_settled hn fun h hh => ht.first hn hh) fun _ _ _ h => h
  | receive => exact (Settles.bind simtaChildReceive_settles fun _ => .pure _) q hn

theorem wlp_scanWorld {α : Type} {F : Prop} {m : QueueProg α} {Q : α → Queues → Unit → Prop}
    (hm : m.wlp Prog.anyAnswer F Q q ()) : m.wlp (scanWorld conf D) F Q q () :=
  Faulty.wlp_world (fun _ _ _ _ _ => trivial) hm

theorem scanWorld_clock {op : QueueOp} {a : QueueAns op} (h : scanWorld conf D op () a ()) :
    clockWorld (ClockOk conf) op () a () := by
  unfold scanWorld at h
  unfold clockWorld
  split at h <;> simp_all

/-- One step of the loop keeps the timetable, whatever entries there are. -/
theorem scan_timed {D : Dirent → Prop} {s : DaemonStep} {slowDirp commandDirp : Bool} {r : Int × Bool × Bool}
    (ht : Timed conf q) (hrun : (s.prog conf slowDirp commandDirp).Runs (scanWorld conf D) q () r q' ()) :
    decide (r.1 = 0) = true → Timed conf q' := by
  have hstep : (s.prog conf slowDirp commandDirp).wlp (scanWorld conf D) True
      (fun r q' _ => r.1 = 0 → Timed conf q') q () :=
    Faulty.wlp_world (fun _ _ _ _ h => scanWorld_clock h) (step_timed slowDirp commandDirp s ht)
  intro hr
  exact (Faulty.wlp_iff_runs.mp hstep).1 _ _ _ hrun (of_decide_eq_true hr)

/-- A call of `q_read_dir` in the loop that opens the directory: none of its Efiles has been seen. -/
theorem readSlow_opens (hm : Messages seen none q l) :
    (readSlow conf false).wlp Prog.anyAnswer True (fun _ q' _ => Messages ∅ none q' l) q () :=
  (Faulty.wlp_bind _ _).mpr ((Faulty.wlp_modify _).mpr (qReadDir_opens hm.newCycle))

/-- **The invariant of the runs.** -/
theorem ScanRun.kept (hD : ¬ D (.entry ['E'])) (hr : ScanRun conf D seen ok d) :
    LoopKept conf seen ok d.queues := by
  induction hr with
  | start => exact ⟨⟨[], Messages.start⟩, fun _ => start_timed⟩
  | @other seen d s r q' hr hs hrun ih =>
    obtain ⟨⟨l, hm⟩, ht⟩ := ih
    have hstep : (s.prog conf d.slowDirp d.commandDirp).wlp (scanWorld conf D) True
        (fun _ q' _ => Settled d.queues q') d.queues () :=
      wlp_scanWorld (step_settled hs hm.hosts (ht rfl) d.slowDirp d.commandDirp)
    exact ⟨⟨l, hm.settled ((Faulty.wlp_iff_runs.mp hstep).1 _ _ _ hrun)⟩, scan_timed (ht rfl) hrun⟩
  | @opened seen d r q' hr hd hrun ih =>
    obtain ⟨⟨l, hm⟩, ht⟩ := ih
    have hstep : (DaemonStep.disk.prog conf false d.commandDirp).wlp (scanWorld conf D) True
        (fun _ q' _ => Messages ∅ none q' l) d.queues () :=
      wlp_scanWorld (Faulty.wlp_seq (readSlow_opens hm) fun _ _ _ h => h)
    exact ⟨⟨l, (Faulty.wlp_iff_runs.mp hstep).1 _ _ _ hrun⟩, scan_timed (ht rfl) hrun⟩
  | @entry seen d e r q' hr hd he hrun ih =>
    obtain ⟨⟨l, hm⟩, ht⟩ := ih
    have hne : e ≠ .entry ['E'] := fun h => hD (h ▸ he)
    have hstep : (DaemonStep.disk.prog conf true d.commandDirp).wlp (scanWorld conf (· = e)) True
        (fun _ q' _ => ∃ l', Messages (e.seen seen) none q' l') d.queues () :=
      Faulty.wlp_seq (qReadDir_messages hm hne) fun _ _ _ ⟨l', hm', _⟩ => ⟨l', hm'⟩
    exact ⟨(Faulty.wlp_iff_runs.mp hstep).1 _ _ _ hrun, scan_timed (ht rfl) hrun⟩

/-- **The messages over every run of the loop**, as long as no entry is named `E` alone: the ring and the queues
    hold the same messages, each once and with its own id, and the end of a cycle leaves those whose Efile was
    seen, and no empty queue. -/
theorem scanRun_messages (hD : ¬ D (.entry ['E'])) (hr : ScanRun conf D seen ok d) :
    ∃ l, MessageList d.queues l ∧ ∀ (r : Int × Bool × Bool) (q' : Queues), ok = true → d.slowDirp = true →
      (DaemonStep.disk.prog conf true d.commandDirp).Runs (scanWorld conf (· = .finished)) d.queues () r q' () →
      r.1 = 0 → ∃ l', MessageList q' l' ∧ CycleEnded seen d.queues l q' l' ∧
        ∃ s, Schedule q' s ∧ ∀ h ∈ s, q'.unexpandedQ ≠ some h → h ∈ q'.hostQ := by
  obtain ⟨⟨l, hm⟩, ht⟩ := hr.kept hD
  refine ⟨l, hm.messageList, fun r q' hok _ hrun hret => ?_⟩
  have hstep : (DaemonStep.disk.prog conf true d.commandDirp).wlp (scanWorld conf (· = .finished)) True
      (fun r q' _ => ∃ l', Messages (Dirent.finished.seen seen) none q' l' ∧
        (r.1 = 0 → CycleEnded seen d.queues l q' l')) d.queues () :=
    Faulty.wlp_seq (qReadDir_messages hm nofun) fun _ _ _ ⟨l', hm', hend⟩ => ⟨l', hm', hend rfl⟩
  obtain ⟨l', hm', hend⟩ := (Faulty.wlp_iff_runs.mp hstep).1 _ _ _ hrun
  obtain ⟨s, hs⟩ := scan_timed (ht hok) hrun (decide_eq_true hret)
  refine ⟨l', hm'.messageList, hend hret, s, hs.schedule, fun h hh hun => ?_⟩
  obtain ⟨x, hx⟩ := Option.isSome_iff_exists.mp (hs.schedule.there h hh)
  exact (hm'.hosts.scheduled h x hx ((hs.timed h x hx List.not_mem_nil).mp hh)).resolve_right hun

end Run

/-! ### Runs with given answers -/

/-- The answers of the calls of one step, when `id` is the id that `env_create` makes up. -/
def Calls.answerWith (c : Calls) (id : Text) : (op : QueueOp) → QueueAns op
  | .stamp => some id
  | op => c.answer op

/-- The steps one after the other, each with its answers; `none` when one faults or leaves the loop. -/
def Daemon.replayWith (conf : QueueConf) (id : Text) : List (DaemonStep × Calls) → Daemon → Option Daemon
  | [], d => some d
  | (s, c) :: rest, d =>
    match (s.prog conf d.slowDirp d.commandDirp).eval (c.answerWith id) d.queues with
    | some ((0, slowDirp, commandDirp), q) => Daemon.replayWith conf id rest ⟨q, slowDirp, commandDirp⟩
    | _ => none

section Replay

variable {conf : QueueConf} {D : Dirent → Prop} {id : Text}

theorem answerWith_scanWorld {c : Calls} (hc : ClockOk conf c.now) {E : Dirent → Prop} (he : E c.dirent)
    (op : QueueOp) : scanWorld conf E op () (c.answerWith id op) () := by
  unfold scanWorld
  split
  · intro now hnow
    cases hnow
    exact hc
  · exact he
  · trivial

theorem scanRun_of_replay {steps : List (DaemonStep × Calls)}
    (hs : ∀ x ∈ steps, ClockOk conf x.2.now ∧ D x.2.dirent) :
    ∀ {seen : Set Text} {d u : Daemon}, ScanRun conf D seen true d → Daemon.replayWith conf id steps d = some u →
      ∃ seen', ScanRun conf D seen' true u := by
  induction steps with
  | nil =>
    intro seen d u hr h
    cases h
    exact ⟨seen, hr⟩
  | cons x rest ih =>
    obtain ⟨s, c⟩ := x
    intro seen d u hr h
    obtain ⟨hc, he⟩ := hs _ List.mem_cons_self
    unfold Daemon.replayWith at h
    split at h
    · rename_i slowDirp commandDirp q heval
      have hstep : ∃ seen', ScanRun conf D seen' true ⟨q, slowDirp, commandDirp⟩ := by
        by_cases hdisk : s = .disk
        · subst hdisk
          cases hd : d.slowDirp with
          | false =>
            rw [hd] at heval
            exact ⟨_, .opened hr hd (Faulty.runs_of_answers (answerWith_scanWorld hc he) heval)⟩
          | true =>
            rw [hd] at heval
            exact ⟨_, .entry hr hd he (Faulty.runs_of_answers (answerWith_scanWorld hc rfl) heval)⟩
        · exact ⟨_, .other hr hdisk (Faulty.runs_of_answers (answerWith_scanWorld hc he) heval)⟩
      obtain ⟨seen', hr'⟩ := hstep
      exact ih (fun y hy => hs y (List.mem_cons_of_mem _ hy)) hr' h
    · cases h

end Replay

/-! The directory is read with one entry in it, and the cycle ends. -/

def scanSteps (name : Text) : List (DaemonStep × Calls) :=
  [(.disk, {}), (.disk, { dirent := .entry ['E', 'a'], efile := paroledEfile ['h'] }),
    (.disk, { dirent := .entry name, efile := paroledEfile ['h'] })]

theorem scanRun_scanSteps {name : Text} {D : Dirent → Prop} {d : Daemon} (hD : D .finished) (ha : D (.entry ['E', 'a']))
    (hname : D (.entry name)) (hd : Daemon.replayWith releaseConf ['a'] (scanSteps name) .start = some d) :
    ∃ seen, ScanRun releaseConf D seen true d := by
  refine scanRun_of_replay (fun x hx => ?_) .start hd
  simp only [scanSteps, List.mem_cons, List.not_mem_nil, or_false] at hx
  rcases hx with rfl | rfl | rfl
  · exact ⟨clockOk_releaseConf, hD⟩
  · exact ⟨clockOk_releaseConf, ha⟩
  · exact ⟨clockOk_releaseConf, hname⟩

/-- The messages that are queued behind these steps, by their ids; and those left at the end of the cycle. -/
def scannedIds (name : Text) : Option (Bool × List Text × List Text) := do
  let d ← Daemon.replayWith releaseConf ['a'] (scanSteps name) .start
  let (r, q) ← (DaemonStep.disk.prog releaseConf true d.commandDirp).eval
    (({} : Calls).answerWith ['a']) d.queues
  some (d.slowDirp && r.1 = 0, d.queues.queued.map d.queues.idOf, q.queued.map q.idOf)

theorem scanRun_messages_one : ∃ seen q l q' l', MessageList q l ∧ l.length = 1 ∧ CycleEnded seen q l q' l' := by
  have hids : scannedIds ['D', 'a'] = some (true, [['a']], [['a']]) := by decide +kernel
  unfold scannedIds at hids
  obtain ⟨d, hd, hids⟩ := Option.bind_eq_some_iff.mp hids
  obtain ⟨⟨r, q⟩, hend, hids⟩ := Option.bind_eq_some_iff.mp hids
  simp only [Option.some.injEq, Prod.mk.injEq, Bool.and_eq_true, decide_eq_true_eq] at hids
  obtain ⟨⟨hopen, hret⟩, hids, -⟩ := hids
  obtain ⟨seen, hr⟩ := scanRun_scanSteps (D := (· ≠ .entry ['E'])) (by simp) (by simp) (by simp) hd
  obtain ⟨l, hl, hends⟩ := scanRun_messages (by simp) hr
  obtain ⟨l', hl', hcycle, -⟩ := hends r q rfl hopen
    (Faulty.runs_of_answers (answerWith_scanWorld clockOk_releaseConf rfl) hend) hret
  refine ⟨seen, d.queues, l, q, l', hl, ?_, hcycle⟩
  have hlen := congrArg List.length hids
  rw [List.length_map] at hlen
  rw [hl.queued.length_eq, hlen]
  rfl

/-- An entry `E` makes an envelope whose id is made up, and may be that of one that is there. -/
theorem emptyName_not_messageList : ∃ conf seen d, ScanRun conf (fun _ => True) seen true d ∧
    ¬ ∃ l, MessageList d.queues l := by
  have hids : (scannedIds ['E']).map (fun x => x.2.1) = some [['a'], ['a']] := by decide +kernel
  obtain ⟨⟨b, ids, left⟩, hx, hids⟩ := Option.map_eq_some_iff.mp hids
  unfold scannedIds at hx
  obtain ⟨d, hd, hx⟩ := Option.bind_eq_some_iff.mp hx
  obtain ⟨⟨r, q⟩, -, hx⟩ := Option.bind_eq_some_iff.mp hx
  simp only [Option.some.injEq, Prod.mk.injEq] at hx
  obtain ⟨-, hq, -⟩ := hx
  obtain ⟨seen, hr⟩ := scanRun_scanSteps (D := fun _ => True) trivial trivial trivial hd
  refine ⟨releaseConf, seen, d, hr, fun ⟨l, hl⟩ => ?_⟩
  have hperm := hl.queued.map d.queues.idOf
  rw [hq.trans hids] at hperm
  exact absurd (hperm.nodup_iff.mp hl.ids) (by decide)

end Simta
