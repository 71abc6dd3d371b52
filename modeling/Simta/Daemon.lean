import Simta.DiskScan

/-!
# The server loop

`daemon.c`: the steps of `simta_server` that touch the queues.  A step that returns non-zero makes the
server leave its loop.

* `hqLaunch` — the first queue of the schedule is launched; `daemonWaitpid` — children are reaped;
* `daemonCommands` — one call of the reader of command files, with `midPromote` and `senderPromote`;
* `DaemonStep`, `DaemonRun` — the steps of the loop in any order.
-/

set_option autoImplicit false

namespace Simta

open QueueProg

/-! ## Launching and reaping -/

/-- `simta_child_q_runner`, in the server: the child is entered in the process table.  Without a host
    queue it runs the local directory. -/
def simtaChildQRunner (hq : Option Addr) : QueueProg Int := do
  match ← file Sys.clock with
  | none => return 1
  | some _ =>
    match ← Faulty.ask QueueOp.fork with
    | none => return 1
    | some pid =>
      if ← file Sys.malloc then
        match hq with
        | none =>
          modify fun q => { q with procStab := { pId := pid, pType := .qLocal } :: q.procStab }
          return 0
        | some h =>
          let x ← QueueProg.hq h
          if ← file Sys.malloc then
            modify fun q => { q with
              procStab := { pId := pid, pType := .qSlow, pHost := some x.hqHostname } :: q.procStab }
            return 0
          else return 1
      else return 1

/-- `simta_child_receive`, of which the queues see the new child. -/
def simtaChildReceive : QueueProg Int := do
  match ← Faulty.ask QueueOp.fork with
  | none => return 1
  | some pid =>
    if ← file Sys.malloc then
      modify fun q => { q with procStab := { pId := pid, pType := .receive } :: q.procStab }
      return 0
    else return 1

/-- The runner of the unexpanded queue, when it has messages. -/
def unexpandedRunner : QueueProg Int := do
  let q ← get
  match q.unexpandedQ with
  | none => return 0
  | some h =>
    let x ← hq h
    if x.hqEnvHead = [] then return 0 else simtaChildQRunner (some h)

/-- `hq_launch`; the counts and waits that are only logged are left out. -/
def hqLaunch (conf : QueueConf) : QueueProg Int := do
  match ← file Sys.clock with
  | none => return 1
  | some tvNow =>
    let h ← Faulty.read Queues.deliverQ
    Faulty.update (Queues.deliverPop h)
    modHq h fun x => { x with hqLastLaunch := tvNow }
    let ret ← hqDeliverPush conf h (some tvNow) none
    if ret ≠ 0 then return 1 else simtaChildQRunner (some h)

/-- `SIMTA_EXIT_OK_LEAKY`. -/
def simtaExitOkLeaky : Int := 2

/-- A queue that some host of it has answered is put on the schedule anew. -/
def requeueLeaky (conf : QueueConf) (tvNow : Int) (hostname : Option Text) : QueueProg Int := do
  match hostname with
  | none => Faulty.fault
  | some hostname =>
    match ← hostQLookup hostname with
    | none => return 0
    | some h =>
      modHq h fun x => { x with hqLeaky := true }
      Faulty.update (Queues.deliverPop h)
      hqDeliverPush conf h (some tvNow) none

/-- The loop of `daemon_waitpid` over the children that have ended; the result is the number of errors. -/
def waitpidLoop (conf : QueueConf) (tvNow : Int) : List (Nat × WaitStatus) → Int → QueueProg Int
  | [], errors => return errors
  | (pid, status) :: rest, errors => do
    let q ← get
    match q.procStab.find? fun p => p.pId = pid with
    | none => waitpidLoop conf tvNow rest (errors + 1)
    | some p =>
      modify fun q => { q with procStab := q.procStab.erase p }
      match status with
      | .other => waitpidLoop conf tvNow rest (errors + 1)
      | .exited status =>
        if status = 0 then waitpidLoop conf tvNow rest errors
        else if p.pType = .qSlow ∧ status = simtaExitOkLeaky then
          let ret ← requeueLeaky conf tvNow p.pHost
          if ret ≠ 0 then return 1 else waitpidLoop conf tvNow rest errors
        else waitpidLoop conf tvNow rest (errors + 1)

/-- `daemon_waitpid`. -/
def daemonWaitpid (conf : QueueConf) : QueueProg Int := do
  match ← file Sys.clock with
  | none => return 1
  | some tvNow => waitpidLoop conf tvNow (← Faulty.ask QueueOp.waitpid) 0

/-! ## Command files -/

/-- The words of a line, as `acav_parse` makes them. -/
def acavWords (line : Text) : List Text :=
  (line.splitOnP fun c => c = ' ' || c = '\t' || c = '\n').filter (· ≠ [])

/-- The queue of the envelope is to be launched at once. -/
def promoteQueue (conf : QueueConf) (a : Addr) : QueueProg Int := do
  let e ← env a
  match e.eHq with
  | none => return 0
  | some h =>
    Faulty.update (Queues.deliverPop h)
    hqDeliverPush conf h none (some 0)

/-- An envelope is released, and its queue promoted. -/
def promoteEnv (conf : QueueConf) (a : Addr) : QueueProg Int := do
  let ret ← envJailStatus conf (some a) envJailParolee
  if ret ≠ 0 then return 1
  else
    let ret ← promoteQueue conf a
    if ret ≠ 0 then return 1 else return 0

/-- `mid_promote`. -/
def midPromote (conf : QueueConf) (mid : Text) : QueueProg Int := do
  let q ← get
  match dllLookup mid q.envList with
  | none => return 0
  | some a => promoteEnv conf a

/-- The loop of `sender_promote`. -/
def promoteLoop (conf : QueueConf) : List Addr → QueueProg Int
  | [] => return 0
  | a :: rest => do
    let ret ← promoteEnv conf a
    if ret ≠ 0 then return 1 else promoteLoop conf rest

/-- `sender_promote`. -/
def senderPromote (conf : QueueConf) (sender : Text) : QueueProg Int := do
  let q ← get
  match dllLookup sender q.senderList with
  | none => return 0
  | some entries => promoteLoop conf (entries.map Prod.snd)

/-- The loop over the envelopes of a promoted queue. -/
def releaseLoop (conf : QueueConf) : List Addr → QueueProg Int
  | [] => return 0
  | a :: rest => do
    let ret ← envJailStatus conf (some a) envJailParolee
    if ret ≠ 0 then return 1 else releaseLoop conf rest

/-- The command `queue`: every message of the queue is released, and the queue promoted. -/
def queuePromote (conf : QueueConf) (hostname : Text) : QueueProg Int := do
  match ← hostQLookup hostname with
  | none => return 0
  | some h =>
    Faulty.update (Queues.deliverPop h)
    let x ← hq h
    let ret ← releaseLoop conf x.hqEnvHead
    if ret ≠ 0 then return 1
    else
      let ret ← hqDeliverPush conf h none (some 0)
      if ret ≠ 0 then return 1 else return 0

/-- How the work on a command ends: the file is closed and removed, it is closed, or it is left open. -/
inductive CommandEnd
  | done
  | error
  | left
  deriving DecidableEq, Repr

def sMessage : Text := "Message".toList
def sSender : Text := "sender".toList
def sQueue : Text := "queue".toList
def sDebug : Text := "Debug".toList

/-- The command on the line.  A command without an argument logs what it names. -/
def runCommand (conf : QueueConf) (av : List Text) : QueueProg CommandEnd := do
  match av with
  | [] => return .done
  | [av0, av1] =>
    if strcaseEq av0 sMessage then
      return if (← midPromote conf av1) ≠ 0 then .error else .done
    else if strcaseEq av0 sSender then
      return if (← senderPromote conf av1) ≠ 0 then .error else .done
    else if strcaseEq av0 sQueue then
      return if (← queuePromote conf av1) ≠ 0 then .left else .done
    else if strcaseEq av0 sDebug then
      let intArg := (sscanfD av1).getD 0
      if intArg ≥ 0 then modify fun q => { q with debug := intArg }
      return .done
    else return .done
  | _ => return .done

def command (op : CommandOp) : QueueProg (CommandAns op) := Faulty.ask (QueueOp.command op)

/-- The part of `daemon_commands` with the command file open. -/
def readCommand (conf : QueueConf) : QueueProg CommandEnd := do
  if ← command .acavAlloc then
    match ← command .getline with
    | none => return .error
    | some line =>
      if ← command .acavParse then runCommand conf (acavWords line) else return .error
  else return .error

/-- `daemon_commands` at a command file. -/
def commandFile (conf : QueueConf) (name : Text) : QueueProg Int := do
  if ← command (.snetOpen name) then
    match ← readCommand conf with
    | .done =>
      let _ ← command .snetClose
      let _ ← command (.unlink name)
      return 0
    | .error =>
      let _ ← command .snetClose
      return 1
    | .left => return 1
  else return 1

/-- `daemon_commands`: whether `sd_dirp` is open goes in and comes out.  An entry that is no command file
    is left alone. -/
def daemonCommands (conf : QueueConf) (sdDirp : Bool) : QueueProg (Int × Bool) := do
  if sdDirp then
    match ← command .dirent with
    | .error => return (1, true)
    | .finished =>
      if ← command .closedir then
        match ← file Sys.clock with
        | none => return (1, false)
        | some _ => return (0, false)
      else return (1, true)
    | .entry name =>
      if name.head? = some 'C' then return (← commandFile conf name, true) else return (0, true)
  else
    match ← file Sys.clock with
    | none => return (1, false)
    | some _ =>
      if ← command .opendir then return (0, true) else return (1, false)

/-! ## The loop -/

/-- The server: its queues, and whether it is reading the slow directory and the command directory. -/
structure Daemon where
  queues : Queues
  slowDirp : Bool
  commandDirp : Bool

/-- The steps of the loop. -/
inductive DaemonStep
  | localRunner
  | waitpid
  | commands
  | disk
  | unexpanded
  | launch
  | receive
  deriving DecidableEq, Repr

/-- One call of `q_read_dir` in the loop: a new cycle has a new number. -/
def readSlow (conf : QueueConf) (sdDirp : Bool) : QueueProg (Int × Bool) := do
  if sdDirp then qReadDir conf .slow true
  else
    modify fun q => { q with diskCycle := q.diskCycle + 1 }
    qReadDir conf .slow false

/-- A step of the loop: its result, and whether the two directories are open after it. -/
def DaemonStep.prog (conf : QueueConf) (slowDirp commandDirp : Bool) : DaemonStep → QueueProg (Int × Bool × Bool)
  | .localRunner => return (← simtaChildQRunner none, slowDirp, commandDirp)
  | .waitpid => return (← daemonWaitpid conf, slowDirp, commandDirp)
  | .commands => do
    let (ret, commandDirp) ← daemonCommands conf commandDirp
    return (ret, slowDirp, commandDirp)
  | .disk => do
    let (ret, slowDirp) ← readSlow conf slowDirp
    return (ret, slowDirp, commandDirp)
  | .unexpanded => return (← unexpandedRunner, slowDirp, commandDirp)
  | .launch => return (← hqLaunch conf, slowDirp, commandDirp)
  | .receive => return (← simtaChildReceive, slowDirp, commandDirp)

def Daemon.start : Daemon := ⟨.start, false, false⟩

/-- What the server reaches in the world `R` by steps of the kinds that `P` allows; after one that does not
    return 0 it has left its loop. -/
inductive DaemonRun (conf : QueueConf) (R : Prog.World QueueOp QueueAns Unit) (P : DaemonStep → Prop) :
    Daemon → Prop
  | start : DaemonRun conf R P .start
  | step {d : Daemon} (hr : DaemonRun conf R P d) {s : DaemonStep} (hs : P s) {slowDirp commandDirp : Bool}
      {q : Queues} (hrun : (s.prog conf d.slowDirp d.commandDirp).Runs R d.queues ()
        (0, slowDirp, commandDirp) q ()) : DaemonRun conf R P ⟨q, slowDirp, commandDirp⟩

/-- **The induction over runs**: what every step that returns 0 keeps. -/
theorem DaemonRun.induction {conf : QueueConf} {R : Prog.World QueueOp QueueAns Unit} {P : DaemonStep → Prop}
    {I : Daemon → Prop} (hstart : I .start)
    (hstep : ∀ d s, I d → P s → (s.prog conf d.slowDirp d.commandDirp).wlp R True
      (fun r q _ => r.1 = 0 → I ⟨q, r.2.1, r.2.2⟩) d.queues ()) {d : Daemon}
    (hr : DaemonRun conf R P d) : I d := by
  induction hr with
  | start => exact hstart
  | step hr hs hrun ih => exact (Faulty.wlp_iff_runs.mp (hstep _ _ ih hs)).1 _ _ _ hrun rfl

/-! ## Runs with given answers -/

/-- The answers of the calls of one step; the others succeed. -/
structure Calls where
  now : Int := 1000
  efile : List Text := []
  dirent : Dirent := .finished
  commandDirent : Dirent := .finished
  line : Option Text := none

def Calls.answer (c : Calls) : (op : QueueOp) → QueueAns op
  | .file op =>
    match op with
    | .read _ => some c.efile
    | .clock => some c.now
    | op => noFiles (.file op)
  | .command op =>
    match op with
    | .dirent => c.commandDirent
    | .getline => c.line
    | op => noFiles (.command op)
  | .dirent _ => c.dirent
  | op => noFiles op

/-- The steps one after the other, each with its answers; `none` when one faults or leaves the loop. -/
def Daemon.replay (conf : QueueConf) : List (DaemonStep × Calls) → Daemon → Option Daemon
  | [], d => some d
  | (s, c) :: rest, d =>
    match (s.prog conf d.slowDirp d.commandDirp).eval c.answer d.queues with
    | some ((0, slowDirp, commandDirp), q) => Daemon.replay conf rest ⟨q, slowDirp, commandDirp⟩
    | _ => none

theorem daemonRun_of_replay {conf : QueueConf} {T : Int → Prop} {P : DaemonStep → Prop}
    {steps : List (DaemonStep × Calls)} (hs : ∀ x ∈ steps, P x.1 ∧ T x.2.now) :
    ∀ {d u : Daemon}, DaemonRun conf (clockWorld T) P d → Daemon.replay conf steps d = some u →
      DaemonRun conf (clockWorld T) P u := by
  induction steps with
  | nil =>
    intro d u hr h
    cases h
    exact hr
  | cons x rest ih =>
    obtain ⟨s, c⟩ := x
    intro d u hr h
    obtain ⟨hP, hT⟩ := hs _ List.mem_cons_self
    have hR : ∀ op, clockWorld T op () (c.answer op) () := by
      intro op
      unfold clockWorld
      split
      · intro now hnow
        cases hnow
        exact hT
      · trivial
    unfold Daemon.replay at h
    split at h
    · rename_i slowDirp commandDirp q heval
      exact ih (fun y hy => hs y (List.mem_cons_of_mem _ hy))
        (.step hr hP (Faulty.runs_of_answers hR heval)) h
    · cases h

end Simta
