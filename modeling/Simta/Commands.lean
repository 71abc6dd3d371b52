import Mathlib.Data.Finset.Basic
import Simta.DaemonMessages

/-!
# Command files

`daemon_commands` at a command file, in every state that the server reaches, when the file and memory calls
succeed.

* `daemonRun_named` — in every such state the queues and the lists name nothing that was freed;
* `CommandFile` — a command file, and what the calls answer while it is worked on;
* `Released` — the messages that can be released; `envJailStatus_released` — and no others;
* `CommandDone` — the server goes on, the file is gone and no queue is lost from the schedule.
-/

set_option autoImplicit false

namespace Simta

open QueueProg

/-! ## What the globals name, over every run -/

section Named

variable {conf : QueueConf} {P : DaemonStep → Prop} {q q' : Queues} {a h : Addr} {id : Text} {dir : Dir} {d : Daemon}

theorem ringInsert_relinked (hq : q.ringInsert a = some q') : Relinked q q' := by
  unfold Queues.ringInsert at hq
  split at hq
  · have hhead : Relinked q { q with envQueue := some a } := ⟨rfl, fun _ => rfl⟩
    exact hhead.trans (relinked_modEnv hq fun _ => rfl)
  · simp only [Option.bind_eq_bind, Option.bind_eq_some_iff, Option.some.injEq] at hq
    obtain ⟨x, -, q₁, h₁, y, -, p, -, q₂, h₂, q₃, h₃, rfl⟩ := hq
    have hhead : Relinked q₃ { q₃ with envQueue := some a } := ⟨rfl, fun _ => rfl⟩
    have hlinks := ((relinked_modEnv h₁ fun _ => rfl).trans (relinked_modEnv h₂ fun _ => rfl)).trans
      (relinked_modEnv h₃ fun _ => rfl)
    exact hlinks.trans hhead

/-- A new envelope is queued and put on the ring, whatever its id. -/
theorem newEnv_named (hn : HostsNamed q) (hnew : NewEnv dir id a q) (hdir : dir ≠ .dead) :
    (do
      let ret ← queueEnvelope conf a
      if ret ≠ 0 then return 1
      else
        let q ← get
        modEnv a fun e => { e with eCycle := q.diskCycle }
        Faulty.update (Queues.ringInsert a)
        return 0 : QueueProg Int).wlp Prog.anyAnswer True (fun _ q' _ => HostsNamed q') q () := by
  obtain ⟨e, he, hhq, hid, hdire, hpunt⟩ := hnew.env
  refine Faulty.wlp_seq (queueEnvelope_spec (.inr ⟨hn.sound, hn.there, e, he, hpunt⟩)) ?_
  rintro ret q₁ - hq
  cases hq with
  | kept e' he' hk =>
    cases he.symm.trans he'
    rcases hk with hk | hk
    · exact absurd (hdire.symm.trans hk) hdir
    · exact absurd hhq hk
  | failed hg =>
    rw [if_pos one_ne_zero]
    exact hg.named hn
  | @queued u _ h hg _ hh hq =>
    have hnamed : u.Names h := by
      rcases hh with hh | hh | ⟨-, e', he', hp⟩
      · exact .inl hh
      · exact .inr hh
      · cases he.symm.trans he'
        rw [hpunt] at hp
        cases hp
    have hn₁ := enqueue_named (hg.named hn) ((hqOf_of_envs hg.envs a).trans hnew.hqOf) hnamed hq
    rw [if_neg (not_not.mpr rfl)]
    refine (Faulty.wlp_bind _ _).mpr (Faulty.wlp_get.mpr ?_)
    refine (Faulty.wlp_bind _ _).mpr (Faulty.wlp_update.mpr ⟨fun _ => trivial, fun q₂ hq₂ => ?_⟩)
    have hn₂ := hn₁.kept (cycleSet_modEnv hq₂).kept
    exact (Faulty.wlp_bind _ _).mpr (Faulty.wlp_update.mpr ⟨fun _ => trivial, fun q₃ hq₃ =>
      hn₂.kept (ringInsert_relinked hq₃).hostsKept⟩)

theorem scanEfile_named (hn : HostsNamed q) (hdir : dir ≠ .dead) :
    (scanEfile conf dir id).wlp Prog.anyAnswer True (fun _ q' _ => HostsNamed q') q () := by
  unfold scanEfile
  refine (Faulty.wlp_bind _ _).mpr (Faulty.wlp_read.mpr ⟨fun _ => trivial, fun r _ => ?_⟩)
  cases r with
  | some a =>
    refine (Faulty.wlp_bind _ _).mpr (Faulty.wlp_get.mpr ?_)
    exact (Faulty.wlp_bind _ _).mpr (Faulty.wlp_update.mpr ⟨fun _ => trivial, fun u hu =>
      hn.kept (cycleSet_modEnv hu).kept⟩)
  | none =>
    refine Faulty.wlp_seq (envCreateNew_new hn) ?_
    rintro r q₁ - ⟨h₁, hnew⟩
    cases r with
    | none => exact hn.kept h₁.hosts
    | some a =>
      obtain ⟨id', -, hn₁⟩ := hnew a rfl
      refine (Faulty.wlp_bind _ _).mpr fun locals _ _ => ?_
      refine Faulty.wlp_seq (onEnvelope_new locals.1 locals.2 hn₁) ?_
      rintro ret q₂ - ⟨h₂, hn₂⟩
      have hnamed := hn.kept (h₁.trans h₂).hosts
      split
      · exact hnamed.kept (settled_freeEnv hn₂.hqOf).hosts
      · obtain ⟨e, he, hrest⟩ := hn₂.env
        refine (Faulty.wlp_bind _ _).mpr (Faulty.wlp_read.mpr ⟨fun _ => trivial, fun e' he' => ?_⟩)
        cases he.symm.trans he'
        refine (Faulty.wlp_bind _ _).mpr ?_
        have hlisted := hnamed.kept (@listsAdd_settled conf q₂ a (Option.isSome_of_eq_some he) e.toEnvelope).hosts
        have hn₃ : NewEnv dir id' a (q₂.listsAdd conf.toConf a e.toEnvelope) := ⟨⟨e, he, hrest⟩⟩
        show (filtered conf e.eHostname >>= _).wlp _ _ _ (q₂.listsAdd conf.toConf a e.toEnvelope) ()
        generalize q₂.listsAdd conf.toConf a e.toEnvelope = q₃ at hlisted hn₃
        refine Faulty.wlp_seq (filtered_same _) ?_
        rintro out q₄ - rfl
        split
        · exact hlisted.kept (settled_freeEnv hn₃.hqOf).hosts
        · exact newEnv_named hlisted hn₃ hdir

/-- The end of a cycle at queues of the list. -/
theorem cycleHosts_named (now : Int) (hosts : List Addr) : ∀ {q : Queues}, HostsNamed q → hosts.Nodup →
    (∀ h ∈ hosts, h ∈ q.hostQ) →
      (cycleHosts conf now hosts).wlp Prog.anyAnswer True (fun _ q' _ => HostsNamed q') q () := by
  induction hosts with
  | nil => exact fun hn _ _ => hn
  | cons h rest ih =>
    intro q hn hd hin
    obtain ⟨hmem, hd⟩ := List.nodup_cons.mp hd
    have hrest : ∀ k ∈ rest, k ∈ q.hostQ := fun k hk => hin k (List.mem_cons_of_mem _ hk)
    refine (Faulty.wlp_bind _ _).mpr (Faulty.wlp_update.mpr ⟨fun _ => trivial, fun q₁ hq₁ => ?_⟩)
    obtain ⟨x₀, hp⟩ := pruneMessages_pruned (fun y hy => (hn.sound.queue h y hy).nodup) hq₁
    have hn₁ := hp.named hn hq₁
    have hhostQ : q₁.hostQ = q.hostQ := by rw [hp.rest]
    refine (Faulty.wlp_bind _ _).mpr (Faulty.wlp_read.mpr ⟨fun _ => trivial, fun x hx => ?_⟩)
    split
    · rename_i hempty
      refine (Faulty.wlp_bind _ _).mpr ((Faulty.wlp_modify _).mpr ?_)
      refine (Faulty.wlp_bind _ _).mpr (Faulty.wlp_update.mpr ⟨fun _ => trivial, fun q₂ hq₂ => ?_⟩)
      have hn₂ := hqFree_named hn₁ hx hempty (hhostQ ▸ hin h List.mem_cons_self) hq₂
      obtain ⟨u, hr, rfl⟩ := hqFree_rest hq₂
      refine ih hn₂ hd fun k hk => ?_
      have hkh : k ≠ h := fun hkh => hmem (hkh ▸ hk)
      show k ∈ u.hostQ
      rw [hr.settled.hosts.hostQ]
      exact (List.mem_erase_of_ne hkh).mpr (hhostQ ▸ hrest k hk)
    · split
      · have hnames : q₁.Names h := .inl (hhostQ ▸ hin h List.mem_cons_self)
        refine Faulty.wlp_seq (hqDeliverPush_settled hnames) fun ret q₂ _ hq₂ => ?_
        have hn₂ := hn₁.kept hq₂.hosts
        split
        · exact hn₂
        · exact ih hn₂ hd fun k hk => by
            rw [hq₂.hosts.hostQ, hhostQ]
            exact hrest k hk
      · exact ih hn₁ hd fun k hk => hhostQ ▸ hrest k hk

theorem cycleEnd_named (now : Int) (hn : HostsNamed q) :
    (cycleEnd conf now).wlp Prog.anyAnswer True (fun _ q' _ => HostsNamed q') q () := by
  unfold cycleEnd
  refine (Faulty.wlp_bind _ _).mpr (Faulty.wlp_get.mpr ?_)
  cases q.unexpandedQ with
  | none =>
    refine (Faulty.wlp_bind _ _).mpr (Faulty.wlp_get.mpr ?_)
    exact cycleHosts_named now _ hn hn.nodup fun _ h => h
  | some h =>
    refine (Faulty.wlp_bind _ _).mpr (Faulty.wlp_update.mpr ⟨fun _ => trivial, fun u hu => ?_⟩)
    have hn₁ := pruneMessages_named hn hu
    refine (Faulty.wlp_bind _ _).mpr (Faulty.wlp_get.mpr ?_)
    exact cycleHosts_named now _ hn₁ hn₁.nodup fun _ h => h

theorem qReadDir_named (hn : HostsNamed q) (sdDirp : Bool) :
    (qReadDir conf .slow sdDirp).wlp Prog.anyAnswer True (fun _ q' _ => HostsNamed q') q () := by
  unfold qReadDir
  split
  · refine (Faulty.wlp_bind _ _).mpr ((Faulty.wlp_ask _).mpr fun e _ _ => ?_)
    cases e with
    | error => exact hn
    | finished =>
      refine (Faulty.wlp_bind _ _).mpr (wlp_file fun ok => ?_)
      split
      · refine (Faulty.wlp_bind _ _).mpr (wlp_file fun now => ?_)
        cases now with
        | none => exact hn
        | some now => exact Faulty.wlp_seq (cycleEnd_named now hn) fun _ _ _ h => h
      · exact hn
    | entry name =>
      show (scanEntry conf .slow name >>= _).wlp _ _ _ q ()
      unfold scanEntry
      split
      · exact Faulty.wlp_seq (scanEfile_named hn nofun) fun _ _ _ h => h
      · exact hn
  · refine (Faulty.wlp_bind _ _).mpr (wlp_file fun now => ?_)
    cases now with
    | none => exact hn
    | some now =>
      refine (Faulty.wlp_bind _ _).mpr (wlp_file fun ok => ?_)
      split <;> exact hn

theorem step_named (hn : HostsNamed q) (ht : Timed conf q) (slowDirp commandDirp : Bool) (s : DaemonStep) :
    (s.prog conf slowDirp commandDirp).wlp Prog.anyAnswer True (fun _ q' _ => HostsNamed q') q () := by
  by_cases hs : s = .disk
  · subst hs
    refine Faulty.wlp_seq (P := fun _ q' _ => HostsNamed q') ?_ fun _ _ _ h => h
    unfold readSlow
    split
    · exact qReadDir_named hn true
    · refine (Faulty.wlp_bind _ _).mpr ((Faulty.wlp_modify _).mpr (qReadDir_named ?_ false))
      exact hn.kept (hostsKept_of_heap rfl rfl rfl rfl rfl fun hl => hl.of_envs (fun _ h => h) rfl rfl)
  · exact Faulty.wlp_mono (fun _ _ _ h => hn.kept h.hosts) (step_settled hs hn ht slowDirp commandDirp)

/-- **Nothing that was freed is named**, in every state that the server reaches. -/
theorem daemonRun_named (hr : DaemonRun conf (clockWorld (ClockOk conf)) P d) : HostsNamed d.queues := by
  have hboth : HostsNamed d.queues ∧ Timed conf d.queues := by
    refine hr.induction (I := fun d => HostsNamed d.queues ∧ Timed conf d.queues) ⟨Messages.start.hosts, start_timed⟩
      fun d s hd _ => ?_
    have hnamed : (s.prog conf d.slowDirp d.commandDirp).wlp (clockWorld (ClockOk conf)) True
        (fun _ q _ => HostsNamed q) d.queues () :=
      Faulty.wlp_world (fun _ _ _ _ _ => trivial) (step_named hd.1 hd.2 d.slowDirp d.commandDirp s)
    refine Faulty.wlp_mono ?_ (Faulty.wlp_and hnamed (step_timed d.slowDirp d.commandDirp s hd.2))
    exact fun r q _ h hret => ⟨h.1, h.2 hret⟩
  exact hboth.1

end Named

/-! ## A command file -/

/-- A command file: its name and its first line, if it has one; the lines of the Efiles, the time and what the
    locals of `env_read` hold when it is worked on. -/
structure CommandFile where
  name : Text
  line : Option Text
  efile : Path → Option (List Text)
  version0 : Int := 0
  dinode0 : Nat := 0
  now : Int := 1000

namespace CommandFile

/-- The file calls succeed. -/
def file (c : CommandFile) : (op : FileOp) → FileAns op
  | .stat _ => none
  | .read p => c.efile p
  | .readdir _ => ([], false)
  | .clock => some c.now
  | .fastFiles _ => ()
  | .fastCount => 0
  | .link _ _ | .unlink _ | .rename _ _ | .creat _ | .fdopen _ | .print _ _ | .fclose _ | .utime _ | .ftruncate _
  | .opendir _ | .closedir _ | .localtime | .listInsert | .malloc => true

/-- The calls succeed; `unlink` takes a command file away from those that are there. -/
def handler (c : CommandFile) : Prog.Handler QueueOp QueueAns (Finset Text)
  | .file op, s => (c.file op, s)
  | .command op, s =>
    match op with
    | .dirent => (.entry c.name, s)
    | .getline => (c.line, s)
    | .unlink name => (true, s.erase name)
    | .opendir | .closedir | .snetOpen _ | .acavAlloc | .acavParse | .snetClose => (true, s)
  | .random, s => (0, s)
  | .dirent _, s => (.finished, s)
  | .stamp, s => (none, s)
  | .wildcard _ _, s => (false, s)
  | .locals, s => ((c.version0, c.dinode0), s)
  | .fork, s => (none, s)
  | .waitpid, s => ([], s)

/-- The Efile of the envelope can be read once more, and agrees with it. -/
def Rereads (c : CommandFile) (e : Envelope) : Prop :=
  ∃ lines x, c.efile e.efile = some lines ∧ envReadLines .jailInfo c.version0 c.dinode0 e lines = .ok x

/-- `env_jail_status` can release the message: it has a jail value, and if it has to be written there is an inode
    number to write. -/
def Releases (c : CommandFile) (e : Envelope) : Prop :=
  e.eJail = envJailParolee ∨
    e.eJail = envJailPrisoner ∧ (c.Rereads e → e.eFlags.tfile = true ∨ e.eDinode ≠ 0)

end CommandFile

/-- The messages of the queue of that name. -/
def Queues.hostMessages (q : Queues) (hostname : Text) : List Addr :=
  match hostQFind q.hqs hostname q.hostQ with
  | some (some h) => ((q.hqs h).map fun x => x.hqEnvHead).getD []
  | _ => []

/-- The messages that the command on the line releases. -/
def Queues.commanded (q : Queues) : List Text → List Addr
  | [av0, av1] =>
    if strcaseEq av0 sMessage then (dllLookup av1 q.envList).toList
    else if strcaseEq av0 sSender then ((dllLookup av1 q.senderList).getD []).map Prod.snd
    else if strcaseEq av0 sQueue then q.hostMessages av1
    else []
  | _ => []

/-- The queue is on the delivery schedule. -/
def Queues.Scheduled (q : Queues) (h : Addr) : Prop := ∃ l, Schedule q l ∧ h ∈ l

/-- **The command file is done**: `daemon_commands` returns 0, the file is gone, and every queue that was on the
    schedule is on it. -/
def CommandDone (conf : QueueConf) (c : CommandFile) (files : Finset Text) (q : Queues) : Prop :=
  ∃ q' files', (daemonCommands conf true).run c.handler q files = (some ((0, true), q'), files') ∧
    c.name ∉ files' ∧ ∀ h, q.Scheduled h → q'.Scheduled h

section Command

variable {conf : QueueConf} {c : CommandFile} {q q' : Queues} {a h : Addr} {e : QEnv} {files : Finset Text} {F : Prop}
variable {α : Type}

/-! ### Calls that succeed -/

theorem command_clock (hnow : ClockOk conf c.now) {op : QueueOp} {s t : Finset Text} {r : QueueAns op}
    (h : c.handler.world op s r t) : clockWorld (ClockOk conf) op () r () := by
  unfold clockWorld
  split
  · intro now hr
    obtain ⟨hr', -⟩ := Prod.mk.inj h
    rw [hr'] at hr
    cases hr
    exact hnow
  · trivial

/-- What holds whatever the calls answer, besides. -/
theorem wlp_and_any {m : QueueProg α} {P : α → Queues → Finset Text → Prop} {P' : α → Queues → Unit → Prop}
    (hm : m.wlp c.handler.world F P q files) (hany : m.wlp Prog.anyAnswer True P' q ()) :
    m.wlp c.handler.world F (fun r q' s => P r q' s ∧ P' r q' ()) q files :=
  Faulty.wlp_and_ends hm (Faulty.wlp_forget (fun _ _ _ _ _ => trivial) hany)

/-- What holds with the clock that is allowed, besides. -/
theorem wlp_and_clock (hnow : ClockOk conf c.now) {m : QueueProg α} {P : α → Queues → Finset Text → Prop}
    {P' : α → Queues → Unit → Prop} (hm : m.wlp c.handler.world F P q files)
    (hclock : m.wlp (clockWorld (ClockOk conf)) True P' q ()) :
    m.wlp c.handler.world F (fun r q' s => P r q' s ∧ P' r q' ()) q files :=
  Faulty.wlp_and_ends hm (Faulty.wlp_forget (fun _ _ _ _ h => command_clock hnow h) hclock)

theorem command_file {p : SpoolProg α} {Q : α → Queues → Finset Text → Prop} :
    (file p).wlp c.handler.world F Q q files ↔ Q (p.eval c.file) q files := by
  unfold file
  rw [Faulty.wlp_lift]
  induction p with
  | ret a => exact Iff.rfl
  | call op k ih =>
    constructor
    · exact fun hp => ih _ |>.mp (hp _ _ rfl)
    · intro hp r t hop
      obtain ⟨rfl, rfl⟩ := Prod.mk.inj hop
      exact (ih _).mpr hp

theorem command_locals {Q : Int × Nat → Queues → Finset Text → Prop} :
    (Faulty.ask QueueOp.locals : QueueProg (Int × Nat)).wlp c.handler.world F Q q files ↔
      Q (c.version0, c.dinode0) q files := by
  constructor
  · exact fun hp => hp _ _ rfl
  · intro hp r t hop
    obtain ⟨rfl, rfl⟩ := Prod.mk.inj hop
    exact hp

/-! ### One message -/

theorem envReadLock_eval (co : Conf) (env : Envelope) :
    (envReadLock co .jailInfo c.version0 c.dinode0 env).eval c.file =
      match c.efile env.efile with
      | none => (1, env)
      | some lines =>
        match envReadLines .jailInfo c.version0 c.dinode0 env lines with
        | .error x => (1, x)
        | .ok x => (0, x) := by
  have hadd : ∀ enable, (listAdd enable).eval c.file = true := fun enable => by cases enable <;> rfl
  unfold envReadLock
  show Prog.eval c.file (Prog.bind _ _) = _
  rw [Prog.eval_bind]
  show Prog.eval c.file (match c.efile env.efile with | none => _ | some lines => _) = _
  cases c.efile env.efile with
  | none => rfl
  | some lines =>
    dsimp only
    cases envReadLines .jailInfo c.version0 c.dinode0 env lines with
    | error x => rfl
    | ok x =>
      show Prog.eval c.file (Prog.bind _ _) = _
      rw [Prog.eval_bind, hadd, if_pos rfl]
      show Prog.eval c.file (Prog.bind _ _) = _
      rw [Prog.eval_bind, hadd]
      rfl

theorem printLines_eval (p : Path) (lines : List Text) : (printLines p lines).eval c.file = true := by
  induction lines with
  | nil => rfl
  | cons line rest ih => exact ih

theorem outfileRename_eval (co : Conf) (env : Envelope) : ∃ x, (outfileRename co env).eval c.file = some (0, x) := by
  have hinsert : ∀ enable, (dllInsert enable).eval c.file = true := fun enable => by cases enable <;> rfl
  have hlists : ∀ x, (efileLists co x).eval c.file = (0, x) := fun x => by
    unfold efileLists
    show Prog.eval c.file (Prog.bind _ _) = _
    rw [Prog.eval_bind, hinsert, if_pos rfl]
    show Prog.eval c.file (Prog.bind _ _) = _
    rw [Prog.eval_bind, hinsert]
    rfl
  have hefile : (envEfile co env).eval c.file = (0, ((env.setTfile false).setEfile true).touched c.now) := hlists _
  refine ⟨((env.setTfile false).setEfile true).touched c.now, ?_⟩
  unfold outfileRename
  show Prog.eval c.file (Prog.bind _ _) = _
  rw [Prog.eval_bind, hefile]
  rfl

/-- With all calls succeeding, an Efile is written unless the inode number is missing. -/
theorem envOutfile_eval (co : Conf) {env : Envelope} (hr : env.eRcpt ≠ []) :
    (env.eFlags.tfile = true ∨ env.eDinode ≠ 0 → ∃ x, (envOutfile co env).eval c.file = some (0, x)) ∧
      (¬ (env.eFlags.tfile = true ∨ env.eDinode ≠ 0) → (envOutfile co env).eval c.file = none) := by
  unfold envOutfile
  by_cases ht : env.eFlags.tfile = true
  · rw [if_pos ht]
    exact ⟨fun _ => outfileRename_eval co env, fun h => absurd (.inl ht) h⟩
  · rw [if_neg ht]
    have htfile : (envTfile env).eval c.file = if env.eDinode = 0 then none else (tfileRest env).eval c.file := by
      have hcreat : (Sys.creat env.tfile).eval c.file = true := rfl
      have hfdopen : (Sys.fdopen env.tfile).eval c.file = true := rfl
      unfold envTfile
      simp only [Prog.bind_eq, Prog.eval_bind, hcreat, hfdopen, printLines_eval, if_true]
      split <;> rfl
    have hrest : (tfileRest env).eval c.file = some (0, env.setTfile true) := by
      have hfclose : (Sys.fclose env.tfile).eval c.file = true := rfl
      unfold tfileRest
      simp only [Prog.bind_eq, Prog.eval_bind, hfclose, printLines_eval, if_true, if_pos hr]
      rfl
    rw [hrest] at htfile
    show (_ → ∃ x, Prog.eval c.file (Prog.bind _ _) = _) ∧ (_ → Prog.eval c.file (Prog.bind _ _) = _)
    rw [Prog.eval_bind, htfile]
    by_cases hd : env.eDinode = 0
    · rw [if_pos hd]
      exact ⟨fun h => absurd hd (h.resolve_left ht), fun _ => rfl⟩
    · rw [if_neg hd]
      exact ⟨fun _ => outfileRename_eval co _, fun h => absurd (.inr hd) h⟩

/-- The envelopes of `u` are those of `q`, but for `e` at `a`. -/
def Wrote (q : Queues) (a : Addr) (e : QEnv) (u : Queues) : Prop := ∀ b, u.envs b = if b = a then some e else q.envs b

section Wrote

variable {u : Queues}

theorem Wrote.start (he : q.envs a = some e) : Wrote q a e q := by
  intro b
  split
  · rename_i hb
    rw [hb, he]
  · rfl

theorem Wrote.at (hw : Wrote q a e u) : u.envs a = some e := (hw a).trans (if_pos rfl)

theorem Wrote.modEnv {f : QEnv → QEnv} {Q : PUnit → Queues → Finset Text → Prop} (hw : Wrote q a e u)
    (hQ : ∀ u', Wrote q a (f e) u' → Q ⟨⟩ u' files) : (modEnv a f).wlp c.handler.world F Q u files := by
  refine Faulty.wlp_update.mpr ⟨fun hnone => ?_, fun u' hu => hQ u' fun b => ?_⟩
  · rw [modEnv_of_some hw.at] at hnone
    cases hnone
  · rw [modEnv_of_some hw.at] at hu
    cases hu
    rw [Queues.setEnv_envs]
    split
    · rfl
    · rename_i hb
      rw [hw b, if_neg hb]

theorem Wrote.env {Q : QEnv → Queues → Finset Text → Prop} (hw : Wrote q a e u) (hQ : Q e u files) :
    (env a).wlp c.handler.world F Q u files := by
  refine Faulty.wlp_read.mpr ⟨fun hnone => ?_, fun e' he' => ?_⟩
  · rw [hw.at] at hnone
    cases hnone
  · cases hw.at.symm.trans he'
    exact hQ

theorem Wrote.onEnvelope {p : Envelope → SpoolProg (Option (Int × Envelope))}
    {Q : Int → Queues → Finset Text → Prop} (hw : Wrote q a e u)
    (hQ : match (p e.toEnvelope).eval c.file with
      | none => F
      | some (ret, x) => ∀ u', Wrote q a { e with toEnvelope := x } u' → Q ret u' files) :
    (onEnvelope a p).wlp c.handler.world F Q u files := by
  refine (Faulty.wlp_bind _ _).mpr (hw.env ((Faulty.wlp_bind _ _).mpr (command_file.mpr ?_)))
  cases hp : (p e.toEnvelope).eval c.file with
  | none =>
    rw [hp] at hQ
    exact hQ
  | some r =>
    rw [hp] at hQ
    exact (Faulty.wlp_bind _ _).mpr (hw.modEnv fun u' hw' => hQ u' hw')

end Wrote

/-- Every message stays, and can be released if it could before. -/
def Relieved (c : CommandFile) (q q' : Queues) : Prop :=
  ∀ b e, q.envs b = some e → ∃ e', q'.envs b = some e' ∧ (c.Releases e.toEnvelope ↔ c.Releases e'.toEnvelope)

theorem Relieved.refl (c : CommandFile) (q : Queues) : Relieved c q q := fun _ e he => ⟨e, he, Iff.rfl⟩

theorem Relieved.trans {u : Queues} (h₁ : Relieved c q q') (h₂ : Relieved c q' u) : Relieved c q u := by
  intro b e he
  obtain ⟨e₁, he₁, hr₁⟩ := h₁ b e he
  obtain ⟨e₂, he₂, hr₂⟩ := h₂ b e₁ he₁
  exact ⟨e₂, he₂, hr₁.trans hr₂⟩

theorem Relieved.of_envs (henvs : q'.envs = q.envs) : Relieved c q q' :=
  fun _ e he => ⟨e, by rw [henvs, he], Iff.rfl⟩

theorem Wrote.relieved {e' : QEnv} (hw : Wrote q a e' q') (he : q.envs a = some e)
    (hr : c.Releases e.toEnvelope) (hr' : c.Releases e'.toEnvelope) : Relieved c q q' := by
  intro b x hx
  rw [hw b]
  split
  · rename_i hb
    subst hb
    cases he.symm.trans hx
    exact ⟨e', rfl, iff_of_true hr hr'⟩
  · exact ⟨x, hx, Iff.rfl⟩

theorem jailInfo_ne : ReadMode.jailInfo ≠ .queueInfo := by decide

/-- A reading that fails leaves a message that cannot be read, and can be released as it is. -/
theorem releases_of_unread {lines : List Text} {x : Envelope} (hfile : c.efile e.efile = some lines)
    (hx : envReadLines .jailInfo c.version0 c.dinode0 e.toEnvelope lines = .error x)
    (hr : c.Releases e.toEnvelope) : c.Releases x := by
  have hf := @envReadLines_fills .jailInfo e.toEnvelope c.version0 c.dinode0 lines
  rw [hx] at hf
  obtain ⟨y, hy⟩ := envReadLines_again jailInfo_ne hx
  have hunread : ¬ c.Rereads x := by
    rintro ⟨lines', z, hlines, hz⟩
    have hpath : x.efile = e.toEnvelope.efile := by
      unfold Envelope.efile
      rw [FilledIn.eId hf, FilledIn.eDir hf]
    rw [hpath, hfile] at hlines
    cases hlines
    rw [hy] at hz
    cases hz
  have hjail : x.eJail = e.eJail := by
    have h : FilledIn .jailInfo e.toEnvelope x := hf
    unfold FilledIn at h
    rw [if_neg jailInfo_ne] at h
    rw [h]
  rcases hr with hj | ⟨hj, -⟩
  · exact .inl (hjail.trans hj)
  · exact .inr ⟨hjail.trans hj, fun h => absurd h hunread⟩

/-- What the reading of the Efile leaves of the fields that matter. -/
theorem jailInfo_reads {lines : List Text} {x : Envelope}
    (hx : envReadLines .jailInfo c.version0 c.dinode0 e.toEnvelope lines = .ok x) :
    x.eRcpt ≠ [] ∧ x.eDinode = e.eDinode ∧ x.eFlags = e.eFlags := by
  have hf := @envReadLines_fills .jailInfo e.toEnvelope c.version0 c.dinode0 lines
  rw [hx] at hf
  have hrcpt : x.eRcpt ≠ [] := by
    rcases envReadLines_compare jailInfo_ne c.version0 c.dinode0 e.toEnvelope lines with hc | ⟨rest, hc⟩
    · rw [hc _ (.refl _)] at hx
      cases hx
    · rw [hc _ (.refl _)] at hx
      unfold readTail at hx
      cases hr : readRecipients e.toEnvelope rest with
      | error y =>
        rw [hr] at hx
        cases hx
      | ok y =>
        rw [hr] at hx
        simp only [bind, Except.bind] at hx
        split at hx
        · cases hx
        · cases hx
          assumption
  have h : FilledIn .jailInfo e.toEnvelope x := hf
  unfold FilledIn at h
  rw [if_neg jailInfo_ne] at h
  refine ⟨hrcpt, ?_, ?_⟩ <;> rw [h]

/-- The rewriting of a message, as far as its reading and its writing go. -/
theorem jailRewrite_wlp {Q : Int → Queues → Finset Text → Prop} (he : q.envs a = some e)
    (hread : ∀ u, ¬ c.Rereads e.toEnvelope → (∃ x, Wrote q a { e with toEnvelope := x } u ∧
      (c.Releases e.toEnvelope → c.Releases x)) → Q 0 u files)
    (hwrite : ∀ x : Envelope, c.Rereads e.toEnvelope → x.eRcpt ≠ [] → x.eDinode = e.eDinode → x.eFlags = e.eFlags →
      match (envOutfile conf.toConf { x with eJail := envJailParolee }).eval c.file with
      | none => F
      | some (ret, y) => ∀ u, Wrote q a { e with toEnvelope := if ret ≠ 0 then y else y.rcptFree } u →
          Q (if ret ≠ 0 then 1 else 0) u files) :
    (jailRewrite conf a envJailParolee).wlp c.handler.world F Q q files := by
  unfold jailRewrite
  refine (Faulty.wlp_bind _ _).mpr (command_locals.mpr ((Faulty.wlp_bind _ _).mpr ((Wrote.start he).onEnvelope ?_)))
  have hlock : (some <$> envReadLock conf.toConf .jailInfo c.version0 c.dinode0 e.toEnvelope).eval c.file =
      some ((envReadLock conf.toConf .jailInfo c.version0 c.dinode0 e.toEnvelope).eval c.file) :=
    Prog.eval_bind _ _ _
  rw [hlock, envReadLock_eval]
  cases hfile : c.efile e.efile with
  | none =>
    intro u hw
    refine hread u ?_ ⟨e.toEnvelope, hw, id⟩
    rintro ⟨lines, x, hlines, -⟩
    rw [hfile] at hlines
    cases hlines
  | some lines =>
    cases hx : envReadLines .jailInfo c.version0 c.dinode0 e.toEnvelope lines with
    | error x =>
      simp only [hx]
      intro u hw
      refine hread u ?_ ⟨x, hw, releases_of_unread hfile hx⟩
      rintro ⟨lines', y, hlines, hy⟩
      rw [hfile] at hlines
      cases hlines
      rw [hx] at hy
      cases hy
    | ok x =>
      simp only [hx]
      intro u hw
      obtain ⟨hrcpt, hdinode, hflags⟩ := jailInfo_reads hx
      have hQ := hwrite x ⟨lines, x, hfile, hx⟩ hrcpt hdinode hflags
      rw [if_neg (not_not.mpr rfl)]
      refine (Faulty.wlp_bind _ _).mpr (hw.env ((Faulty.wlp_bind _ _).mpr ((Faulty.wlp_modify _).mpr ?_)))
      have hw₁ : Wrote q a { e with toEnvelope := x } (u.listsAdd conf.toConf a x) := hw
      refine (Faulty.wlp_bind _ _).mpr (hw₁.modEnv fun u₂ hw₂ => ?_)
      refine (Faulty.wlp_bind _ _).mpr (hw₂.onEnvelope ?_)
      dsimp only
      cases hout : (envOutfile conf.toConf { x with eJail := envJailParolee }).eval c.file with
      | none =>
        rw [hout] at hQ
        exact hQ
      | some r =>
        obtain ⟨ret, y⟩ := r
        rw [hout] at hQ
        intro u₃ hw₃
        split
        · rename_i hret
          simp only [if_pos hret] at hQ
          exact hQ u₃ hw₃
        · rename_i hret
          simp only [if_neg hret] at hQ
          refine (Faulty.wlp_bind _ _).mpr (hw₃.env ((Faulty.wlp_bind _ _).mpr ((Faulty.wlp_modify _).mpr ?_)))
          have hw₄ : Wrote q a { e with toEnvelope := y } (u₃.listsAdd conf.toConf a y) := hw₃
          exact (Faulty.wlp_bind _ _).mpr (hw₄.modEnv fun u₅ hw₅ => hQ u₅ hw₅)

/-- What writing leaves of the jail value. -/
theorem envOutfile_eval_jail {co : Conf} {x y : Envelope} {ret : Int}
    (h : (envOutfile co x).eval c.file = some (ret, y)) : y.eJail = x.eJail := by
  have hw := Prog.wlp_iff_runs _ _ _ _ |>.mp (@envOutfile_rewritten co x) _ () (Prog.runs_of_eval c.file _)
  have hy : y = { x with eFlags := y.eFlags, eEtime := y.eEtime } := hw (ret, y) h
  rw [hy]

/-- **The rewriting of a message in jail**: without an inode number an Efile that can be read is not written, and
    the process ends. -/
theorem jailRewrite_released (he : q.envs a = some e) (hj : e.eJail = envJailPrisoner) :
    (c.Releases e.toEnvelope → (jailRewrite conf a envJailParolee).wlp c.handler.world False
      (fun ret q' _ => ret = 0 ∧ Relieved c q q') q files) ∧
    (¬ c.Releases e.toEnvelope → (jailRewrite conf a envJailParolee).wlp c.handler.world True
      (fun ret _ _ => ret ≠ 0) q files) := by
  have hnot : e.eJail ≠ envJailParolee := by
    rw [hj]
    decide
  constructor
  · intro hrel
    have hr : c.Rereads e.toEnvelope → e.eFlags.tfile = true ∨ e.eDinode ≠ 0 := by
      rcases hrel with h | ⟨-, hr⟩
      · exact absurd h hnot
      · exact hr
    refine jailRewrite_wlp he ?_ fun x hread hrcpt hdinode hflags => ?_
    · rintro u - ⟨x, hw, hx⟩
      exact ⟨rfl, hw.relieved he hrel (hx hrel)⟩
    · obtain ⟨y, hy⟩ := (@envOutfile_eval c conf.toConf { x with eJail := envJailParolee } hrcpt).1
        (by simpa only [hdinode, hflags] using hr hread)
      rw [hy]
      intro u hw
      exact ⟨rfl, hw.relieved he hrel (.inl (envOutfile_eval_jail hy))⟩
  · intro hr
    refine jailRewrite_wlp he (fun u hread _ => ?_) fun x hread hrcpt hdinode hflags => ?_
    · exact absurd (.inr ⟨hj, fun h => absurd h hread⟩) hr
    · rw [(@envOutfile_eval c conf.toConf { x with eJail := envJailParolee } hrcpt).2]
      · trivial
      · intro hout
        exact hr (.inr ⟨hj, fun _ => by simpa only [hdinode, hflags] using hout⟩)

/-- **`env_jail_status` releases a message just when it can be released.** -/
theorem envJailStatus_released (he : q.envs a = some e) (hh : ∀ h, e.eHq = some h → (q.hqs h).isSome) :
    (c.Releases e.toEnvelope → (envJailStatus conf (some a) envJailParolee).wlp c.handler.world False
      (fun ret q' _ => ret = 0 ∧ Relieved c q q') q files) ∧
    (¬ c.Releases e.toEnvelope → (envJailStatus conf (some a) envJailParolee).wlp c.handler.world True
      (fun ret _ _ => ret ≠ 0) q files) := by
  have hcode : ¬ (envJailParolee ≠ envJailPrisoner ∧ envJailParolee ≠ envJailParolee) := fun h => h.2 rfl
  have hstart : ∀ {F : Prop} {Q : Int → Queues → Finset Text → Prop},
      (if e.eJail ≠ envJailPrisoner ∧ e.eJail ≠ envJailParolee then Q 1 q files
        else if e.eJail = envJailParolee then Q 0 q files
        else ∀ u, u.envs = q.envs → (jailRewrite conf a envJailParolee).wlp c.handler.world F Q u files) →
      (envJailStatus conf (some a) envJailParolee).wlp c.handler.world F Q q files := by
    intro F Q hQ
    unfold envJailStatus
    dsimp only
    rw [if_neg hcode]
    refine (Faulty.wlp_bind _ _).mpr ((Wrote.start he).env ?_)
    split
    · rename_i hill
      rw [if_pos hill] at hQ
      exact hQ
    · rename_i hill
      rw [if_neg hill] at hQ
      split
      · rename_i hsame
        rw [if_pos hsame] at hQ
        exact hQ
      · rename_i hsame
        rw [if_neg hsame] at hQ
        cases heq : e.eHq with
        | none => exact hQ q rfl
        | some h =>
          obtain ⟨x, hx⟩ := Option.isSome_iff_exists.mp (hh h heq)
          refine (Faulty.wlp_bind _ _).mpr (Faulty.wlp_update.mpr ⟨fun hnone => ?_, fun u hu => ?_⟩)
          · rw [modHq_of_some hx] at hnone
            cases hnone
          · rw [modHq_of_some hx] at hu
            cases hu
            exact hQ _ rfl
  constructor
  · intro hr
    refine hstart ?_
    rcases hr with hj | ⟨hj, hr⟩
    · rw [if_neg fun h => h.2 hj, if_pos hj]
      exact ⟨rfl, .refl c q⟩
    · have hne : e.eJail ≠ envJailParolee := by
        rw [hj]
        decide
      rw [if_neg fun h => h.1 hj, if_neg hne]
      intro u hu
      have hr' : c.Releases e.toEnvelope := .inr ⟨hj, hr⟩
      refine Faulty.wlp_mono ?_ ((jailRewrite_released (by rw [hu, he]) hj).1 hr')
      exact fun ret q' _ h => ⟨h.1, (Relieved.of_envs hu).trans h.2⟩
  · intro hr
    refine hstart ?_
    split
    · exact one_ne_zero
    · rename_i hill
      split
      · rename_i hj
        exact absurd (.inl hj) hr
      · rename_i hne
        have hj : e.eJail = envJailPrisoner := by
          by_contra hj
          exact hill ⟨hj, hne⟩
        exact fun u hu => (jailRewrite_released (by rw [hu, he]) hj).2 hr

/-! ### The schedule -/

theorem scheduled_iff {l : List Addr} (hs : Schedule q l) : q.Scheduled h ↔ h ∈ l := by
  constructor
  · rintro ⟨l', hs', hh⟩
    exact hs'.linked.unique hs.linked ▸ hh
  · exact fun hh => ⟨l, hs, hh⟩

/-- A push without delay of a queue that is off the schedule. -/
theorem push_done {l : List Addr} (hnow : ClockOk conf c.now) (ht : Timetable conf [h] q l) (hh : (q.hqs h).isSome) :
    (hqDeliverPush conf h none (some 0)).wlp c.handler.world False
      (fun ret q' _ => ret = 0 ∧ q'.envs = q.envs ∧ Timed conf q' ∧ ∀ k, k = h ∨ k ∈ l → q'.Scheduled k) q files := by
  obtain ⟨x, hx⟩ := Option.isSome_iff_exists.mp hh
  have hmem : h ∉ l := ht.apart h List.mem_cons_self
  have hpush : (hqDeliverPush conf h (some c.now) (some 0)).wlp (clockWorld (ClockOk conf)) False
      (fun ret q' _ => ret = 0 ∧ q'.envs = q.envs ∧ Timed conf q' ∧ ∀ k, k = h ∨ k ∈ l → q'.Scheduled k) q () := by
    refine (hqDeliverPush_wlp hx).mpr ⟨nofun, fun now r hr => ⟨fun hnone => ?_, fun q' hq' => ⟨rfl, ?_, ?_⟩⟩⟩
    · rw [deliverPush_eq_none ht.schedule hmem hx ht.bound] at hnone
      simp only [HostQ.pushed, HostQ.launchTime, Option.map_eq_none_iff] at hnone
      split at hnone <;> cases hnone
    · have hy : ∃ y, x.pushed conf now (some 0) r = some y := by
        cases hy : x.pushed conf now (some 0) r with
        | none =>
          rw [(deliverPush_eq_none ht.schedule hmem hx ht.bound).mpr hy] at hq'
          cases hq'
        | some y => exact ⟨y, rfl⟩
      obtain ⟨y, hy⟩ := hy
      obtain ⟨u, l₁, l₂, hu, -, hr, -⟩ := deliverPush_spec ht.schedule hmem hx ht.bound hy
      cases hq'.symm.trans hu
      rw [hr.rest]
      rfl
    · have hnow' : ClockOk conf now := by
        rcases hr with hr | ⟨hr, -⟩
        · exact Option.some.inj hr ▸ hnow
        · cases hr
      obtain ⟨l₁, l₂, rfl, ht'⟩ := deliverPush_timetable hnow' (fun d hd => by cases hd; exact le_refl _)
        List.not_mem_nil ht hq'
      refine ⟨⟨_, ht'⟩, fun k hk => ⟨_, ht'.schedule, ?_⟩⟩
      simp only [List.mem_append, List.mem_cons] at hk ⊢
      tauto
  have hsame : (hqDeliverPush conf h (some c.now) (some 0)).wlp c.handler.world False
      (fun ret q' _ => ret = 0 ∧ q'.envs = q.envs ∧ Timed conf q' ∧ ∀ k, k = h ∨ k ∈ l → q'.Scheduled k) q files :=
    Faulty.wlp_forget (fun _ _ _ _ h => command_clock hnow h) hpush
  unfold hqDeliverPush at hsame ⊢
  exact (Faulty.wlp_bind _ _).mpr (command_file.mpr ((Faulty.wlp_bind _ _).mp hsame))

/-- What the work on a command keeps. -/
structure CommandKept (conf : QueueConf) (c : CommandFile) (q q' : Queues) : Prop where
  named : HostsNamed q'
  timed : Timed conf q'
  scheduled : ∀ h, q.Scheduled h → q'.Scheduled h
  relieved : Relieved c q q'

theorem CommandKept.refl (hn : HostsNamed q) (ht : Timed conf q) : CommandKept conf c q q :=
  ⟨hn, ht, fun _ h => h, .refl c q⟩

theorem CommandKept.trans {u : Queues} (h₁ : CommandKept conf c q q') (h₂ : CommandKept conf c q' u) :
    CommandKept conf c q u :=
  ⟨h₂.named, h₂.timed, fun h hh => h₂.scheduled h (h₁.scheduled h hh), h₁.relieved.trans h₂.relieved⟩

/-- A queue that is there is taken off the schedule. -/
theorem pop_done {l : List Addr} (ht : Timetable conf [] q l) (hh : (q.hqs h).isSome) :
    ∃ q', q.deliverPop h = some q' ∧ Rescheduled q q' ∧ Timetable conf [h] q' (l.erase h) := by
  obtain ⟨x, hx⟩ := Option.isSome_iff_exists.mp hh
  obtain ⟨q', hq', hr, -⟩ := deliverPop_spec ht.schedule hx
  exact ⟨q', hq', hr, deliverPop_timetable ht hq'⟩

/-- **A queue is promoted**: it is taken off the schedule and put back, and no other leaves it. -/
theorem popPush_done (hnow : ClockOk conf c.now) (hn : HostsNamed q) (ht : Timed conf q) (hh : q.Names h)
    (hsome : (q.hqs h).isSome) : (do
      Faulty.update (Queues.deliverPop h)
      hqDeliverPush conf h none (some 0)).wlp c.handler.world False
        (fun ret q' _ => ret = 0 ∧ CommandKept conf c q q') q files := by
  obtain ⟨l, ht⟩ := ht
  obtain ⟨q₁, hq₁, hr, ht₁⟩ := pop_done ht hsome
  have hsome₁ : (q₁.hqs h).isSome := (hr.isSome h).trans hsome
  refine (Faulty.wlp_bind _ _).mpr (Faulty.wlp_update.mpr ⟨fun hnone => ?_, fun u hu => ?_⟩)
  · rw [hq₁] at hnone
    cases hnone
  · cases hq₁.symm.trans hu
    have hnames : q₁.Names h := (hr.settled.hosts.names h).mpr hh
    refine Faulty.wlp_mono ?_ (wlp_and_any (push_done hnow ht₁ hsome₁) (hqDeliverPush_settled hnames))
    rintro ret q' s ⟨⟨hret, henvs, htimed, hscheduled⟩, hsettled⟩
    have hnamed := (hn.kept hr.settled.hosts).kept hsettled.hosts
    refine ⟨hret, hnamed, htimed, fun k hk => ?_, ?_⟩
    · refine hscheduled k ?_
      by_cases hkh : k = h
      · exact .inl hkh
      · exact .inr ((List.mem_erase_of_ne hkh).mpr ((scheduled_iff ht.schedule).mp hk))
    · refine .of_envs (henvs.trans ?_)
      rw [hr.rest]

theorem promoteQueue_done (hnow : ClockOk conf c.now) (hn : HostsNamed q) (ht : Timed conf q) (he : q.envs a = some e) :
    (promoteQueue conf a).wlp c.handler.world False (fun ret q' _ => ret = 0 ∧ CommandKept conf c q q') q files := by
  refine (Faulty.wlp_bind _ _).mpr ((Wrote.start he).env ?_)
  cases hh : e.eHq with
  | none => exact ⟨rfl, .refl hn ht⟩
  | some h =>
    have hq : q.hqOf a = some h := by simp [Queues.hqOf, he, hh]
    exact popPush_done hnow hn ht (hn.placed a h hq) (hn.sound.linked a h hq)

/-- A release leaves the schedule alone. -/
theorem release_kept (hnow : ClockOk conf c.now) (hn : HostsNamed q) (he : q.envs a = some e)
    (hr : c.Releases e.toEnvelope) : (envJailStatus conf (some a) envJailParolee).wlp c.handler.world False
      (fun ret q' _ => ret = 0 ∧ HostsKept q q' ∧ Unscheduled conf q q' ∧ Relieved c q q') q files := by
  have hlinked : ∀ h, e.eHq = some h → (q.hqs h).isSome := fun h hh =>
    hn.sound.linked a h (by simp [Queues.hqOf, he, hh])
  refine Faulty.wlp_mono (fun ret q' s h => ?_) (wlp_and_clock hnow
    (wlp_and_any ((envJailStatus_released he hlinked).1 hr) (envJailStatus_settles a envJailParolee q hn))
    (calm_envJailStatus conf a envJailParolee q hn.sound.hqBound))
  exact ⟨h.1.1.1, h.1.2.hosts, h.2, h.1.1.2⟩

theorem Timed.unscheduled (ht : Timed conf q) (hu : Unscheduled conf q q') :
    Timed conf q' ∧ ∀ h, q.Scheduled h → q'.Scheduled h := by
  obtain ⟨l, ht⟩ := ht
  have ht' := ht.unscheduled hu
  exact ⟨⟨l, ht'⟩, fun h hh => (scheduled_iff ht'.schedule).mpr ((scheduled_iff ht.schedule).mp hh)⟩

/-- **A message is released and its queue promoted**, just when it can be released. -/
theorem promoteEnv_done (hnow : ClockOk conf c.now) (hn : HostsNamed q) (ht : Timed conf q) (he : q.envs a = some e) :
    (c.Releases e.toEnvelope → (promoteEnv conf a).wlp c.handler.world False
      (fun ret q' _ => ret = 0 ∧ CommandKept conf c q q') q files) ∧
    (¬ c.Releases e.toEnvelope → (promoteEnv conf a).wlp c.handler.world True (fun ret _ _ => ret ≠ 0) q files) := by
  unfold promoteEnv
  constructor
  · intro hr
    refine Faulty.wlp_seq (release_kept hnow hn he hr) ?_
    rintro ret q₁ s ⟨rfl, hk₁, hu, hrel⟩
    have hn₁ := hn.kept hk₁
    obtain ⟨ht₁, hsch⟩ := ht.unscheduled hu
    obtain ⟨e₁, he₁, -⟩ := hrel a e he
    rw [if_neg (not_not.mpr rfl)]
    refine Faulty.wlp_seq (promoteQueue_done hnow hn₁ ht₁ he₁) ?_
    rintro ret q₂ s ⟨rfl, hk⟩
    rw [if_neg (not_not.mpr rfl)]
    exact ⟨rfl, CommandKept.trans ⟨hn₁, ht₁, hsch, hrel⟩ hk⟩
  · intro hr
    have hlinked : ∀ h, e.eHq = some h → (q.hqs h).isSome := fun h hh =>
      hn.sound.linked a h (by simp [Queues.hqOf, he, hh])
    refine Faulty.wlp_seq ((envJailStatus_released he hlinked).2 hr) fun ret q₁ s hret => ?_
    rw [if_pos hret]
    exact one_ne_zero

/-- The messages of a list can be released. -/
def AllRelease (c : CommandFile) (q : Queues) (l : List Addr) : Prop :=
  ∀ a ∈ l, ∀ e, q.envs a = some e → c.Releases e.toEnvelope

theorem AllRelease.relieved {l : List Addr} (hlive : ∀ a ∈ l, (q.envs a).isSome) (hr : Relieved c q q') :
    (AllRelease c q l ↔ AllRelease c q' l) ∧ ∀ a ∈ l, (q'.envs a).isSome := by
  have hold : ∀ a ∈ l, ∃ e e', q.envs a = some e ∧ q'.envs a = some e' ∧
      (c.Releases e.toEnvelope ↔ c.Releases e'.toEnvelope) := fun a ha => by
    obtain ⟨e, he⟩ := Option.isSome_iff_exists.mp (hlive a ha)
    obtain ⟨e', he', h⟩ := hr a e he
    exact ⟨e, e', he, he', h⟩
  refine ⟨⟨fun hall a ha x hx => ?_, fun hall a ha x hx => ?_⟩, fun a ha => ?_⟩
  · obtain ⟨e, e', he, he', h⟩ := hold a ha
    cases hx.symm.trans he'
    exact h.mp (hall a ha e he)
  · obtain ⟨e, e', he, he', h⟩ := hold a ha
    cases hx.symm.trans he
    exact h.mpr (hall a ha e' he')
  · obtain ⟨-, e', -, he', -⟩ := hold a ha
    exact Option.isSome_of_eq_some he'

theorem allRelease_cons {l : List Addr} (he : q.envs a = some e) :
    AllRelease c q (a :: l) ↔ c.Releases e.toEnvelope ∧ AllRelease c q l := by
  constructor
  · exact fun h => ⟨h a List.mem_cons_self e he, fun b hb => h b (List.mem_cons_of_mem _ hb)⟩
  · rintro ⟨hr, hl⟩ b hb x hx
    rcases List.mem_cons.mp hb with rfl | hb
    · cases he.symm.trans hx
      exact hr
    · exact hl b hb x hx

/-- What a loop over messages does: all are released, or the command fails. -/
theorem promoteLoop_done (hnow : ClockOk conf c.now) (l : List Addr) : ∀ {q : Queues} {files : Finset Text},
    HostsNamed q → Timed conf q → (∀ a ∈ l, (q.envs a).isSome) →
    (AllRelease c q l → (promoteLoop conf l).wlp c.handler.world False
      (fun ret q' _ => ret = 0 ∧ CommandKept conf c q q') q files) ∧
    (¬ AllRelease c q l → (promoteLoop conf l).wlp c.handler.world True (fun ret _ _ => ret ≠ 0) q files) := by
  induction l with
  | nil => exact fun hn ht _ => ⟨fun _ => ⟨rfl, .refl hn ht⟩, fun h => absurd (fun a ha => by cases ha) h⟩
  | cons a rest ih =>
    intro q files hn ht hlive
    obtain ⟨e, he⟩ := Option.isSome_iff_exists.mp (hlive a List.mem_cons_self)
    have hrest : ∀ b ∈ rest, (q.envs b).isSome := fun b hb => hlive b (List.mem_cons_of_mem _ hb)
    have hdone := @promoteEnv_done conf c q a e files hnow hn ht he
    rw [allRelease_cons he]
    constructor
    · rintro ⟨hr, hall⟩
      refine Faulty.wlp_seq (hdone.1 hr) ?_
      rintro ret q₁ s ⟨rfl, hk⟩
      rw [if_neg (not_not.mpr rfl)]
      obtain ⟨hall₁, hlive₁⟩ := AllRelease.relieved hrest hk.relieved
      refine Faulty.wlp_mono ?_ ((ih hk.named hk.timed hlive₁).1 (hall₁.mp hall))
      exact fun ret q' _ h => ⟨h.1, hk.trans h.2⟩
    · intro hall
      by_cases hr : c.Releases e.toEnvelope
      · -- one of the others cannot be released, also after this one
        have hall : ¬ AllRelease c q rest := fun h => hall ⟨hr, h⟩
        refine Faulty.wlp_seq (Faulty.wlp_weaken False.elim (hdone.1 hr)) ?_
        rintro ret q₁ s ⟨rfl, hk⟩
        rw [if_neg (not_not.mpr rfl)]
        obtain ⟨hall₁, hlive₁⟩ := AllRelease.relieved hrest hk.relieved
        exact (ih hk.named hk.timed hlive₁).2 fun h => hall (hall₁.mpr h)
      · refine Faulty.wlp_seq (hdone.2 hr) fun ret q₁ s hret => ?_
        rw [if_pos hret]
        exact one_ne_zero

theorem releaseLoop_done (hnow : ClockOk conf c.now) (l : List Addr) : ∀ {q : Queues} {files : Finset Text},
    HostsNamed q → (∀ a ∈ l, (q.envs a).isSome) →
    (AllRelease c q l → (releaseLoop conf l).wlp c.handler.world False
      (fun ret q' _ => ret = 0 ∧ HostsKept q q' ∧ Unscheduled conf q q' ∧ Relieved c q q') q files) ∧
    (¬ AllRelease c q l → (releaseLoop conf l).wlp c.handler.world True (fun ret _ _ => ret ≠ 0) q files) := by
  induction l with
  | nil => exact fun hn _ => ⟨fun _ => ⟨rfl, .refl _, .refl _, .refl c _⟩, fun h => absurd (fun a ha => by cases ha) h⟩
  | cons a rest ih =>
    intro q files hn hlive
    obtain ⟨e, he⟩ := Option.isSome_iff_exists.mp (hlive a List.mem_cons_self)
    have hrest : ∀ b ∈ rest, (q.envs b).isSome := fun b hb => hlive b (List.mem_cons_of_mem _ hb)
    rw [allRelease_cons he]
    constructor
    · rintro ⟨hr, hall⟩
      refine Faulty.wlp_seq (release_kept hnow hn he hr) ?_
      rintro ret q₁ s ⟨rfl, hk₁, hu₁, hr₁⟩
      rw [if_neg (not_not.mpr rfl)]
      obtain ⟨hall₁, hlive₁⟩ := AllRelease.relieved hrest hr₁
      refine Faulty.wlp_mono ?_ ((ih (hn.kept hk₁) hlive₁).1 (hall₁.mp hall))
      exact fun ret q' _ h => ⟨h.1, hk₁.trans h.2.1, hu₁.trans h.2.2.1, hr₁.trans h.2.2.2⟩
    · intro hall
      by_cases hr : c.Releases e.toEnvelope
      · have hall : ¬ AllRelease c q rest := fun h => hall ⟨hr, h⟩
        refine Faulty.wlp_seq (Faulty.wlp_weaken False.elim (release_kept hnow hn he hr)) ?_
        rintro ret q₁ s ⟨rfl, hk₁, -, hr₁⟩
        rw [if_neg (not_not.mpr rfl)]
        obtain ⟨hall₁, hlive₁⟩ := AllRelease.relieved hrest hr₁
        exact (ih (hn.kept hk₁) hlive₁).2 fun h => hall (hall₁.mpr h)
      · have hlinked : ∀ h, e.eHq = some h → (q.hqs h).isSome := fun h hh =>
          hn.sound.linked a h (by simp [Queues.hqOf, he, hh])
        refine Faulty.wlp_seq ((envJailStatus_released he hlinked).2 hr) fun ret q₁ s hret => ?_
        rw [if_pos hret]
        exact one_ne_zero

/-! ### The command on the line -/

theorem dllLookup_mem {β : Type} {key : Text} {l : List (Text × β)} {b : β} (h : dllLookup key l = some b) :
    ∃ k, (k, b) ∈ l := by
  induction l with
  | nil => cases h
  | cons x rest ih =>
    obtain ⟨k, y⟩ := x
    unfold dllLookup at h
    split at h
    · cases h
      exact ⟨k, List.mem_cons_self⟩
    · cases h
    · obtain ⟨k', hk'⟩ := ih h
      exact ⟨k', List.mem_cons_of_mem _ hk'⟩

theorem midPromote_done (hnow : ClockOk conf c.now) (hn : HostsNamed q) (ht : Timed conf q) (mid : Text) :
    (AllRelease c q (dllLookup mid q.envList).toList → (midPromote conf mid).wlp c.handler.world False
      (fun ret q' _ => ret = 0 ∧ CommandKept conf c q q') q files) ∧
    (¬ AllRelease c q (dllLookup mid q.envList).toList → (midPromote conf mid).wlp c.handler.world True
      (fun ret _ _ => ret ≠ 0) q files) := by
  have hget : ∀ {F : Prop} {Q : Int → Queues → Finset Text → Prop},
      (dllLookup mid q.envList).elim (Q 0 q files) (fun a => (promoteEnv conf a).wlp c.handler.world F Q q files) →
      (midPromote conf mid).wlp c.handler.world F Q q files := by
    intro F Q hQ
    refine (Faulty.wlp_bind _ _).mpr (Faulty.wlp_get.mpr ?_)
    cases hl : dllLookup mid q.envList with
    | none =>
      rw [hl] at hQ
      exact hQ
    | some a =>
      rw [hl] at hQ
      exact hQ
  cases hl : dllLookup mid q.envList with
  | none =>
    refine ⟨fun _ => hget ?_, fun h => absurd (fun a ha => by cases ha) h⟩
    rw [hl]
    exact ⟨rfl, .refl hn ht⟩
  | some a =>
    obtain ⟨k, hk⟩ := dllLookup_mem hl
    obtain ⟨e, he⟩ := Option.isSome_iff_exists.mp (hn.lists.ids (k, a) hk)
    have hone : AllRelease c q (some a).toList ↔ c.Releases e.toEnvelope :=
      (allRelease_cons he).trans (and_iff_left fun b hb => by cases hb)
    rw [hone]
    have hdone := @promoteEnv_done conf c q a e files hnow hn ht he
    refine ⟨fun hr => hget ?_, fun hr => hget ?_⟩
    · rw [hl]
      exact hdone.1 hr
    · rw [hl]
      exact hdone.2 hr

theorem senderPromote_done (hnow : ClockOk conf c.now) (hn : HostsNamed q) (ht : Timed conf q) (sender : Text) :
    (AllRelease c q (((dllLookup sender q.senderList).getD []).map Prod.snd) →
      (senderPromote conf sender).wlp c.handler.world False
        (fun ret q' _ => ret = 0 ∧ CommandKept conf c q q') q files) ∧
    (¬ AllRelease c q (((dllLookup sender q.senderList).getD []).map Prod.snd) →
      (senderPromote conf sender).wlp c.handler.world True (fun ret _ _ => ret ≠ 0) q files) := by
  have hget : ∀ {F : Prop} {Q : Int → Queues → Finset Text → Prop},
      (promoteLoop conf (((dllLookup sender q.senderList).getD []).map Prod.snd)).wlp c.handler.world F Q q files →
      (senderPromote conf sender).wlp c.handler.world F Q q files := by
    intro F Q hQ
    refine (Faulty.wlp_bind _ _).mpr (Faulty.wlp_get.mpr ?_)
    cases hl : dllLookup sender q.senderList with
    | none =>
      rw [hl] at hQ
      exact hQ
    | some entries =>
      rw [hl] at hQ
      exact hQ
  have hlive : ∀ a ∈ ((dllLookup sender q.senderList).getD []).map Prod.snd, (q.envs a).isSome := by
    intro a ha
    cases hl : dllLookup sender q.senderList with
    | none =>
      rw [hl] at ha
      cases ha
    | some entries =>
      rw [hl] at ha
      obtain ⟨k, hk⟩ := dllLookup_mem hl
      obtain ⟨p, hp, rfl⟩ := List.mem_map.mp ha
      exact hn.lists.senders (k, entries) hk p hp
  have hdone := @promoteLoop_done conf c hnow _ q files hn ht hlive
  exact ⟨fun h => hget (hdone.1 h), fun h => hget (hdone.2 h)⟩

theorem queuePromote_done (hnow : ClockOk conf c.now) (hn : HostsNamed q) (ht : Timed conf q) (hostname : Text) :
    (AllRelease c q (q.hostMessages hostname) → (queuePromote conf hostname).wlp c.handler.world False
      (fun ret q' _ => ret = 0 ∧ CommandKept conf c q q') q files) ∧
    (¬ AllRelease c q (q.hostMessages hostname) → (queuePromote conf hostname).wlp c.handler.world True
      (fun ret _ _ => ret ≠ 0) q files) := by
  obtain ⟨r, hr⟩ := @hostQFind_total q.hqs hostname q.hostQ hn.there.hostQ
  have hfind : ∀ {F : Prop} {Q : Option Addr → Queues → Finset Text → Prop}, Q r q files →
      (hostQLookup hostname).wlp c.handler.world F Q q files := by
    intro F Q hQ
    refine Faulty.wlp_read.mpr ⟨fun hnone => ?_, fun r' hr' => ?_⟩
    · rw [hr] at hnone
      cases hnone
    · cases hr.symm.trans hr'
      exact hQ
  unfold Queues.hostMessages
  rw [hr]
  cases r with
  | none =>
    refine ⟨fun _ => (Faulty.wlp_bind _ _).mpr (hfind ⟨rfl, .refl hn ht⟩), fun h => absurd (fun a ha => ?_) h⟩
    cases ha
  | some h =>
    have hmem := hostQFind_mem hr
    obtain ⟨x, hx⟩ := Option.isSome_iff_exists.mp (hn.there.hostQ h hmem)
    obtain ⟨l, htl⟩ := ht
    obtain ⟨q₁, hq₁, hres, ht₁⟩ := pop_done htl (Option.isSome_of_eq_some hx)
    have henvs : q₁.envs = q.envs := by rw [hres.rest]
    have hn₁ : HostsNamed q₁ := hn.kept hres.settled.hosts
    obtain ⟨x₁, hx₁⟩ := Option.isSome_iff_exists.mp ((hres.isSome h).trans (Option.isSome_of_eq_some hx))
    have hlist : x₁.hqEnvHead = x.hqEnvHead := by
      obtain ⟨y, hy, hl, -⟩ := hres.settled.hosts.some_of_some hx₁
      cases hx.symm.trans hy
      exact hl
    have hrel₁ : Relieved c q q₁ := .of_envs henvs
    have hlive : ∀ a ∈ x.hqEnvHead, (q.envs a).isSome := fun a ha =>
      isSome_of_hqOf (((hn.sound.queue h x hx).mem_iff' a).mp ha)
    obtain ⟨hall₁, hlive₁⟩ := AllRelease.relieved hlive hrel₁
    have hdone := @releaseLoop_done conf c hnow x.hqEnvHead q₁ files hn₁ hlive₁
    -- the queue is off the schedule, and its messages are gone through
    have hstart : ∀ {F : Prop} {Q : Int → Queues → Finset Text → Prop},
        (do
          let ret ← releaseLoop conf x.hqEnvHead
          if ret ≠ 0 then return 1
          else
            let ret ← hqDeliverPush conf h none (some 0)
            if ret ≠ 0 then return 1 else return 0 : QueueProg Int).wlp c.handler.world F Q q₁ files →
        (queuePromote conf hostname).wlp c.handler.world F Q q files := by
      intro F Q hQ
      refine (Faulty.wlp_bind _ _).mpr (hfind ?_)
      refine (Faulty.wlp_bind _ _).mpr (Faulty.wlp_update.mpr ⟨fun hnone => ?_, fun u hu => ?_⟩)
      · rw [hq₁] at hnone
        cases hnone
      · cases hq₁.symm.trans hu
        refine (Faulty.wlp_bind _ _).mpr (Faulty.wlp_read.mpr ⟨fun hnone => ?_, fun y hy => ?_⟩)
        · rw [hx₁] at hnone
          cases hnone
        · cases hx₁.symm.trans hy
          rw [hlist]
          exact hQ
    simp only [hx, Option.map_some, Option.getD_some]
    constructor
    · intro hall
      refine hstart (Faulty.wlp_seq (hdone.1 (hall₁.mp hall)) ?_)
      rintro ret q₂ s ⟨rfl, hk₂, hu₂, hr₂⟩
      rw [if_neg (not_not.mpr rfl)]
      have hsome₂ : (q₂.hqs h).isSome := by
        obtain ⟨y, hy, -⟩ := hu₂.kept h x₁ hx₁
        exact Option.isSome_of_eq_some hy
      have hnames₂ : q₂.Names h := (hk₂.names h).mpr ((hres.settled.hosts.names h).mpr (.inl hmem))
      refine Faulty.wlp_seq (wlp_and_any (push_done hnow (ht₁.unscheduled hu₂) hsome₂)
        (hqDeliverPush_settled hnames₂)) ?_
      rintro ret q₃ s ⟨⟨rfl, henvs₃, htimed, hscheduled⟩, hsettled⟩
      rw [if_neg (not_not.mpr rfl)]
      refine ⟨rfl, (hn₁.kept hk₂).kept hsettled.hosts, htimed, fun k hk => hscheduled k ?_,
        (hrel₁.trans hr₂).trans (.of_envs henvs₃)⟩
      by_cases hkh : k = h
      · exact .inl hkh
      · exact .inr ((List.mem_erase_of_ne hkh).mpr ((scheduled_iff htl.schedule).mp hk))
    · intro hall
      refine hstart (Faulty.wlp_seq (hdone.2 fun h => hall (hall₁.mpr h)) fun ret q₂ s hret => ?_)
      rw [if_pos hret]
      exact one_ne_zero

/-- **The command on the line** is carried out just when all its messages can be released. -/
theorem runCommand_done (hnow : ClockOk conf c.now) (hn : HostsNamed q) (ht : Timed conf q) (av : List Text) :
    (AllRelease c q (q.commanded av) → (runCommand conf av).wlp c.handler.world False
      (fun r q' _ => r = .done ∧ CommandKept conf c q q') q files) ∧
    (¬ AllRelease c q (q.commanded av) → (runCommand conf av).wlp c.handler.world True
      (fun r _ _ => r ≠ .done) q files) := by
  -- the two outcomes of a command, from those of the function that does the work
  have hcheck : ∀ {m : QueueProg Int} {l : List Addr} {bad : CommandEnd}, bad ≠ .done →
      ((AllRelease c q l → m.wlp c.handler.world False (fun ret q' _ => ret = 0 ∧ CommandKept conf c q q') q files) ∧
        (¬ AllRelease c q l → m.wlp c.handler.world True (fun ret _ _ => ret ≠ 0) q files)) →
      (AllRelease c q l → (m >>= fun ret => pure (if ret ≠ 0 then bad else .done)).wlp c.handler.world False
        (fun r q' _ => r = .done ∧ CommandKept conf c q q') q files) ∧
      (¬ AllRelease c q l → (m >>= fun ret => pure (if ret ≠ 0 then bad else .done)).wlp c.handler.world True
        (fun r _ _ => r ≠ .done) q files) := by
    intro m l bad hbad hm
    refine ⟨fun hall => Faulty.wlp_seq (hm.1 hall) ?_, fun hall => Faulty.wlp_seq (hm.2 hall) ?_⟩
    · rintro ret q' s ⟨rfl, hk⟩
      exact ⟨rfl, hk⟩
    · intro ret q' s hret
      show (if ret ≠ 0 then bad else .done) ≠ .done
      rw [if_pos hret]
      exact hbad
  have hnone : ∀ {r : CommandEnd}, r = .done →
      (AllRelease c q [] → (pure r : QueueProg CommandEnd).wlp c.handler.world False
        (fun r q' _ => r = .done ∧ CommandKept conf c q q') q files) ∧
      (¬ AllRelease c q [] → (pure r : QueueProg CommandEnd).wlp c.handler.world True
        (fun r _ _ => r ≠ .done) q files) := fun hr =>
    ⟨fun _ => ⟨hr, .refl hn ht⟩, fun h => absurd (fun a ha => by cases ha) h⟩
  rcases av with _ | ⟨av0, _ | ⟨av1, _ | ⟨av2, rest⟩⟩⟩
  · exact hnone rfl
  · exact hnone rfl
  · unfold runCommand Queues.commanded
    dsimp only
    split
    · exact hcheck (by decide) (midPromote_done hnow hn ht av1)
    · split
      · exact hcheck (by decide) (senderPromote_done hnow hn ht av1)
      · split
        · exact hcheck (by decide) (queuePromote_done hnow hn ht av1)
        · split
          · split
            · refine ⟨fun _ => (Faulty.wlp_bind _ _).mpr ((Faulty.wlp_modify _).mpr ⟨rfl, ?_⟩),
                fun h => absurd (fun a ha => by cases ha) h⟩
              obtain ⟨ht', hsch⟩ := ht.unscheduled
                (unscheduled_of_hqs rfl (le_refl _) rfl : Unscheduled conf q { q with debug := (sscanfD av1).getD 0 })
              exact ⟨hn.kept (debug_settled ((sscanfD av1).getD 0)).hosts, ht', hsch, .of_envs rfl⟩
            · exact hnone rfl
          · exact hnone rfl
  · exact hnone rfl

/-- The condition under which a command file is done. -/
def CommandFile.Good (c : CommandFile) (q : Queues) : Prop :=
  ∃ line, c.line = some line ∧ AllRelease c q (q.commanded (acavWords line))

theorem readCommand_done (hnow : ClockOk conf c.now) (hn : HostsNamed q) (ht : Timed conf q) :
    (c.Good q → (readCommand conf).wlp c.handler.world False
      (fun r q' _ => r = .done ∧ CommandKept conf c q q') q files) ∧
    (¬ c.Good q → (readCommand conf).wlp c.handler.world True (fun r _ _ => r ≠ .done) q files) := by
  have hline : ∀ {F : Prop} {Q : CommandEnd → Queues → Finset Text → Prop},
      c.line.elim (Q .error q files) (fun line => (runCommand conf (acavWords line)).wlp c.handler.world F Q q files) →
      (readCommand conf).wlp c.handler.world F Q q files := by
    intro F Q hQ
    refine (Faulty.wlp_bind _ _).mpr fun ok s hok => ?_
    obtain ⟨rfl, rfl⟩ := Prod.mk.inj hok
    refine (Faulty.wlp_bind _ _).mpr fun line s hl => ?_
    obtain ⟨hline, rfl⟩ := Prod.mk.inj hl
    have hread : c.line = line := hline.symm
    rw [hread] at hQ
    cases line with
    | none => exact hQ
    | some line =>
      refine (Faulty.wlp_bind _ _).mpr fun ok s hok => ?_
      obtain ⟨rfl, rfl⟩ := Prod.mk.inj hok
      exact hQ
  cases hl : c.line with
  | none =>
    refine ⟨fun h => ?_, fun _ => hline ?_⟩
    · obtain ⟨line, hline, -⟩ := h
      rw [hl] at hline
      cases hline
    · rw [hl]
      show CommandEnd.error ≠ .done
      decide
  | some line =>
    have hgood : c.Good q ↔ AllRelease c q (q.commanded (acavWords line)) := by
      unfold CommandFile.Good
      rw [hl]
      constructor
      · rintro ⟨line', hline', h⟩
        cases hline'
        exact h
      · exact fun h => ⟨line, rfl, h⟩
    rw [hgood]
    have hdone := @runCommand_done conf c q files hnow hn ht (acavWords line)
    refine ⟨fun h => hline ?_, fun h => hline ?_⟩
    · rw [hl]
      exact hdone.1 h
    · rw [hl]
      exact hdone.2 h

theorem commandFile_done (hnow : ClockOk conf c.now) (hn : HostsNamed q) (ht : Timed conf q) :
    (c.Good q → (commandFile conf c.name).wlp c.handler.world False
      (fun ret q' s => ret = 0 ∧ c.name ∉ s ∧ CommandKept conf c q q') q files) ∧
    (¬ c.Good q → (commandFile conf c.name).wlp c.handler.world True (fun ret _ _ => ret ≠ 0) q files) := by
  have hopen : ∀ {F : Prop} {Q : Int → Queues → Finset Text → Prop},
      (readCommand conf).wlp c.handler.world F (fun r q' s => match r with
        | .done => Q 0 q' (s.erase c.name)
        | _ => Q 1 q' s) q files →
      (commandFile conf c.name).wlp c.handler.world F Q q files := by
    intro F Q hQ
    refine (Faulty.wlp_bind _ _).mpr fun ok s hok => ?_
    obtain ⟨rfl, rfl⟩ := Prod.mk.inj hok
    refine Faulty.wlp_seq hQ fun r q' s hr => ?_
    cases r with
    | done =>
      refine (Faulty.wlp_bind _ _).mpr fun ok t hok => ?_
      obtain ⟨rfl, rfl⟩ := Prod.mk.inj hok
      refine (Faulty.wlp_bind _ _).mpr fun ok t hok => ?_
      obtain ⟨rfl, rfl⟩ := Prod.mk.inj hok
      exact hr
    | error =>
      refine (Faulty.wlp_bind _ _).mpr fun ok t hok => ?_
      obtain ⟨rfl, rfl⟩ := Prod.mk.inj hok
      exact hr
    | left => exact hr
  have hdone := @readCommand_done conf c q files hnow hn ht
  refine ⟨fun h => hopen (Faulty.wlp_mono ?_ (hdone.1 h)), fun h => hopen (Faulty.wlp_mono ?_ (hdone.2 h))⟩
  · rintro r q' s ⟨rfl, hk⟩
    exact ⟨rfl, Finset.notMem_erase _ _, hk⟩
  · intro r q' s hr
    cases r with
    | done => exact absurd rfl hr
    | error => exact one_ne_zero
    | left => exact one_ne_zero

/-- **A command file is done** in a state that the server reaches just when it has a line and every message that the
    line names can be released. -/
theorem daemonCommands_done {P : DaemonStep → Prop} {d : Daemon} (hr : DaemonRun conf (clockWorld (ClockOk conf)) P d)
    (hnow : ClockOk conf c.now) (hname : c.name.head? = some 'C') :
    CommandDone conf c files d.queues ↔ c.Good d.queues := by
  have hn := daemonRun_named hr
  have ht := daemonRun_timed hr
  have hdone := @commandFile_done conf c d.queues files hnow hn ht
  have hstep : ∀ {F : Prop} {Q : Int × Bool → Queues → Finset Text → Prop},
      (commandFile conf c.name).wlp c.handler.world F (fun ret q' s => Q (ret, true) q' s) d.queues files →
      (daemonCommands conf true).wlp c.handler.world F Q d.queues files := by
    intro F Q hQ
    refine (Faulty.wlp_bind _ _).mpr fun e s he => ?_
    obtain ⟨rfl, rfl⟩ := Prod.mk.inj he
    show Faulty.wlp _ _ (if c.name.head? = some 'C' then _ else _) _ _ _
    rw [if_pos hname]
    exact Faulty.wlp_seq hQ fun _ _ _ h => h
  constructor
  · rintro ⟨q', files', hrun, -⟩
    by_contra hbad
    have hw : (daemonCommands conf true).wlp c.handler.world True (fun r _ _ => r ≠ (0, true)) d.queues files :=
      hstep (Faulty.wlp_mono (fun ret q' s h he => h (Prod.mk.inj he).1) (hdone.2 hbad))
    rw [Faulty.wlp_handler, hrun] at hw
    exact hw rfl
  · intro hgood
    have hw : (daemonCommands conf true).wlp c.handler.world False
        (fun r q' s => r = (0, true) ∧ c.name ∉ s ∧ CommandKept conf c d.queues q') d.queues files :=
      hstep (Faulty.wlp_mono (fun ret q' s h => ⟨congrArg (·, true) h.1, h.2⟩) (hdone.1 hgood))
    rw [Faulty.wlp_handler] at hw
    obtain ⟨o, s, hrun⟩ : ∃ o s, (daemonCommands conf true).run c.handler d.queues files = (o, s) := ⟨_, _, rfl⟩
    rw [hrun] at hw
    cases o with
    | none => exact hw.elim
    | some x =>
      obtain ⟨r, q'⟩ := x
      obtain ⟨rfl, hname', hk⟩ := hw
      exact ⟨q', s, hrun, hname', hk.scheduled⟩

end Command

/-! A message is read from the slow directory, and named in a command file. -/

def messageEfile (jail : Char) : List Text :=
  [['V', '5'], ['E', 'a'], ['I', '7'], ['X', '0'], ['J', jail], ['H', 'h'], ['D', '0'], ['F'], ['R', 'r']]

def messageSteps (jail : Char) : List (DaemonStep × Calls) :=
  [(.disk, {}), (.disk, { dirent := .entry ['E', 'a'], efile := messageEfile jail }), (.commands, {})]

def messageCommand : CommandFile where
  name := ['C']
  line := some "Message a".toList
  efile := fun _ => none

/-- The mail jail is off, and a message has no jail value. -/
def noJailConf : QueueConf := { midListEnable := true, red := ⟨false, none, none⟩ }

theorem clockOk_noJailConf : ClockOk noJailConf 1000 :=
  ⟨by decide, by decide, by decide, by decide, fun r hr => by cases hr⟩

theorem daemonRun_messageSteps {conf : QueueConf} {jail : Char} {d : Daemon} (hc : ClockOk conf 1000)
    (hd : Daemon.replay conf (messageSteps jail) .start = some d) :
    DaemonRun conf (clockWorld (ClockOk conf)) (fun _ => True) d := by
  refine daemonRun_of_replay (fun x hx => ⟨trivial, ?_⟩) .start hd
  simp only [messageSteps, List.mem_cons, List.not_mem_nil, or_false] at hx
  rcases hx with rfl | rfl | rfl <;> exact hc

/-- The jail values of the messages that the command names. -/
def commandedJails : Option (Bool × List (Option Int)) := do
  let d ← Daemon.replay releaseConf (messageSteps '1') .start
  some (d.commandDirp, (d.queues.commanded (acavWords "Message a".toList)).map fun a =>
    (d.queues.envs a).map fun e => e.eJail)

theorem daemonCommands_done_parole : ∃ d, DaemonRun releaseConf (clockWorld (ClockOk releaseConf)) (fun _ => True) d ∧
    d.commandDirp = true ∧ d.queues.commanded (acavWords "Message a".toList) ≠ [] ∧
      CommandDone releaseConf messageCommand {['C']} d.queues := by
  have hjails : commandedJails = some (true, [some 1]) := by decide +kernel
  unfold commandedJails at hjails
  obtain ⟨d, hd, hjails⟩ := Option.bind_eq_some_iff.mp hjails
  simp only [Option.some.injEq, Prod.mk.injEq] at hjails
  obtain ⟨hopen, hjails⟩ := hjails
  have hr := daemonRun_messageSteps clockOk_releaseConf hd
  refine ⟨d, hr, hopen, fun hnil => ?_, (daemonCommands_done hr clockOk_releaseConf rfl).mpr ⟨_, rfl, fun a ha e he => ?_⟩⟩
  · rw [hnil] at hjails
    cases hjails
  · have hmem := List.mem_map_of_mem (f := fun a => (d.queues.envs a).map fun e => e.eJail) ha
    rw [hjails, he] at hmem
    simp only [Option.map_some, List.mem_singleton, Option.some.injEq] at hmem
    exact .inl hmem

/-- What `daemon_commands` returns at the command file. -/
def commandResult (c : CommandFile) : Option (Bool × Option (Int × Bool)) := do
  let d ← Daemon.replay noJailConf (messageSteps '0') .start
  some (d.commandDirp, ((daemonCommands noJailConf true).run c.handler d.queues {['C']}).1.map Prod.fst)

theorem not_commandDone {c : CommandFile} {b : Bool} (h : commandResult c = some (b, some (1, true))) :
    ∃ d, DaemonRun noJailConf (clockWorld (ClockOk noJailConf)) (fun _ => True) d ∧ d.commandDirp = b ∧
      ¬ CommandDone noJailConf c {['C']} d.queues := by
  unfold commandResult at h
  obtain ⟨d, hd, h⟩ := Option.bind_eq_some_iff.mp h
  simp only [Option.some.injEq, Prod.mk.injEq] at h
  refine ⟨d, daemonRun_messageSteps clockOk_noJailConf hd, h.1, fun hdone => ?_⟩
  obtain ⟨q', files', hrun, -⟩ := hdone
  rw [hrun] at h
  cases h.2

/-- An empty command file stops the server, and so does a command for a message that is in no jail. -/
theorem command_stops :
    (∃ d, DaemonRun noJailConf (clockWorld (ClockOk noJailConf)) (fun _ => True) d ∧ d.commandDirp = true ∧
      ¬ CommandDone noJailConf { messageCommand with line := none } {['C']} d.queues) ∧
    ∃ d, DaemonRun noJailConf (clockWorld (ClockOk noJailConf)) (fun _ => True) d ∧ d.commandDirp = true ∧
      ¬ CommandDone noJailConf messageCommand {['C']} d.queues :=
  ⟨not_commandDone (by decide +kernel), not_commandDone (by decide +kernel)⟩

end Simta
