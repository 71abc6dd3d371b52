import Simta.Daemon
import Simta.EnvIds

/-!
# The children of the server

The process table of `daemon.c` with all that is counted along with it: the connections of each client, those of
each listening socket and of the server, and the queue runners.

* `simtaChildReceive`, `simtaProcQRunner`, `daemonWaitpid`, `cleanThrottleTable` under the names of the source;
* `serverWorld` — `fork(2)` gives a process id that is not in use, `waitpid(2)` children that have ended;
* `ServerRun` — the steps of the loop in any order, as long as each returns 0.

`Simta.Daemon` models the same loop for what it does to the queues; what `hq_launch` does to them is left out here.
-/

set_option autoImplicit false

namespace Simta

namespace ProcTable

/-! ## The state -/

/-- The counter that the child is counted in, which `p_limit` points to. -/
inductive Limit
  | globalConnections
  | qRunnerLocal
  | qRunnerSlow
  deriving DecidableEq, Repr

/-- `struct connection_info`; `cSin` is the address of the client. -/
structure ConnectionInfo where
  cSin : Nat
  cProcTotal : Int := 0
  cProcThrottle : Int := 0
  cTv : Timeval := .zero
  deriving DecidableEq

/-- `struct proc_type`.  `pSs` is the number of a listening socket, `pCinfo` the address of a connection
    record. -/
structure ProcType where
  pTv : Timeval
  pSs : Option Nat := none
  pCinfo : Option Nat := none
  pId : Nat
  pType : ProcessType
  pHost : Option Text := none
  pLimit : Option Limit := none
  deriving DecidableEq

/-- The globals.  `cinfoStab` is the list of the connection records that are not freed, each with its address,
    `ssCount` the counter of each listening socket. -/
structure Server where
  procStab : List ProcType := []
  cinfoStab : List (Nat × ConnectionInfo) := []
  fresh : Nat := 0
  ssCount : Nat → Int := fun _ => 0
  globalConnections : Int := 0
  globalThrottleConnections : Int := 0
  globalThrottleTv : Timeval := .zero
  qRunnerLocal : Int := 0
  qRunnerSlow : Int := 0
  tvNow : Timeval := .zero

structure ServerConf where
  localThrottleMax : Int := 0
  localThrottleSec : Int := 1
  globalThrottleMax : Int := 0
  globalThrottleSec : Int := 1
  qRunnerLocalMax : Int := 0
  qRunnerSlowMax : Int := 0

/-- The calls.  `signal` is whether `simsendmail_signal` is set, `requeue` what `hq_deliver_push` returns for the
    queue of a child that has answered. -/
inductive ServerOp
  | gettimeofday
  | signal
  | accept (ss : Nat)
  | malloc
  | fork
  | close
  | strdup
  | waitpid
  | requeue (host : Text)
  deriving DecidableEq, Repr

abbrev ServerAns : ServerOp → Type
  | .gettimeofday => Option Timeval
  | .accept _ => Option Nat
  | .fork => Option Nat
  | .waitpid => List (Nat × WaitStatus)
  | .requeue _ => Int
  | _ => Bool

abbrev ServerProg (α : Type) : Type := Faulty Server ServerOp ServerAns α

def ask (op : ServerOp) : ServerProg (ServerAns op) := Faulty.ask op

/-- `simta_gettimeofday( NULL )`. -/
def gettimeofday : ServerProg Bool := do
  let v ← get
  match simtaGettimeofday v.tvNow (← ask .gettimeofday) with
  | none => return false
  | some now =>
    modify fun v => { v with tvNow := now }
    return true

/-! ## The records -/

/-- A write through the pointer to a connection record. -/
def modCinfo (l : List (Nat × ConnectionInfo)) (a : Nat) (f : ConnectionInfo → ConnectionInfo) :
    List (Nat × ConnectionInfo) :=
  l.map fun x => if x.1 = a then (x.1, f x.2) else x

/-- The write faults when the record is freed. -/
def Server.modCinfo (a : Nat) (f : ConnectionInfo → ConnectionInfo) (v : Server) : Option Server :=
  if a ∈ v.cinfoStab.map Prod.fst then some { v with cinfoStab := ProcTable.modCinfo v.cinfoStab a f } else none

/-- `(*p->p_limit) += delta`. -/
def Server.addLimit (delta : Int) (v : Server) : Option Limit → Server
  | some .globalConnections => { v with globalConnections := v.globalConnections + delta }
  | some .qRunnerLocal => { v with qRunnerLocal := v.qRunnerLocal + delta }
  | some .qRunnerSlow => { v with qRunnerSlow := v.qRunnerSlow + delta }
  | none => v

def Server.addSs (ss : Nat) (delta : Int) (v : Server) : Server :=
  { v with ssCount := fun i => if i = ss then v.ssCount i + delta else v.ssCount i }

/-! ## New children -/

/-- `simta_proc_add`; the new child is the head of the table. -/
def simtaProcAdd (pType : ProcessType) (pid : Nat) : ServerProg Bool := do
  if ← ask .malloc then
    modify fun v => { v with procStab := { pTv := ⟨v.tvNow.tvSec, 0⟩, pId := pid, pType := pType } :: v.procStab }
    return true
  else return false

/-- A write to the child that was added last. -/
def modNew (f : ProcType → ProcType) : ServerProg PUnit :=
  modify fun v => { v with procStab := v.procStab.modifyHead f }

/-- `simta_proc_q_runner`; the host is that of the queue, and there is none for the local directory. -/
def simtaProcQRunner (pid : Nat) (hq : Option Text) : ServerProg Int := do
  match hq with
  | none =>
    if ← simtaProcAdd .qLocal pid then
      modNew fun p => { p with pLimit := some .qRunnerLocal }
      modify fun v => v.addLimit 1 (some .qRunnerLocal)
      return 0
    else return 1
  | some host =>
    if ← simtaProcAdd .qSlow pid then
      modNew fun p => { p with pLimit := some .qRunnerSlow }
      modify fun v => v.addLimit 1 (some .qRunnerSlow)
      if ← ask .strdup then
        modNew fun p => { p with pHost := some host }
        return 0
      else return 1
    else return 1

/-- `simta_child_q_runner`, in the server. -/
def simtaChildQRunner (hq : Option Text) : ServerProg Int := do
  if ← gettimeofday then
    match ← ask .fork with
    | none => return 1
    | some pid => simtaProcQRunner pid hq
  else return 1

/-- The interval of a throttle that began at `tv` is over. -/
def throttleOver (tv : Timeval) (sec : Int) (now : Timeval) : Bool :=
  tv.tvSec + sec < now.tvSec || (tv.tvSec + sec = now.tvSec && tv.tvUsec ≤ now.tvUsec)

/-- The record of a client counts a connection in its interval. -/
def throttleCinfo (conf : ServerConf) (now : Timeval) (c : ConnectionInfo) : ConnectionInfo :=
  if 0 < conf.localThrottleMax then
    if throttleOver c.cTv conf.localThrottleSec now then { c with cTv := now, cProcThrottle := 1 }
    else { c with cProcThrottle := c.cProcThrottle + 1 }
  else c

/-- The server counts it in its own. -/
def throttleGlobal (conf : ServerConf) (v : Server) : Server :=
  if 0 < conf.globalThrottleMax then
    if throttleOver v.globalThrottleTv conf.globalThrottleSec v.tvNow then
      { v with globalThrottleTv := v.tvNow, globalThrottleConnections := 1 }
    else { v with globalThrottleConnections := v.globalThrottleConnections + 1 }
  else v

/-- The record of the client at `sin`, a new one if there is none; `none` when there is no memory for it. -/
def lookupCinfo (sin : Nat) : ServerProg (Option Nat) := do
  let v ← get
  match v.cinfoStab.find? fun x => x.2.cSin = sin with
  | some x => return some x.1
  | none =>
    if ← ask .malloc then
      modify fun v => { v with cinfoStab := (v.fresh, { cSin := sin }) :: v.cinfoStab, fresh := v.fresh + 1 }
      return some v.fresh
    else return none

/-- The text of an address. -/
def inetNtoa (sin : Nat) : Text :=
  Nat.toDigits 10 (sin / 256 ^ 3 % 256) ++ '.' :: Nat.toDigits 10 (sin / 256 ^ 2 % 256) ++
    '.' :: Nat.toDigits 10 (sin / 256 % 256) ++ '.' :: Nat.toDigits 10 (sin % 256)

/-- `simta_child_receive`, in the server, from the `fork` on. -/
def receiveFork (ss sin a : Nat) : ServerProg Int := do
  match ← ask .fork with
  | none => return 1
  | some pid =>
    if ← ask .close then
      if ← simtaProcAdd .receive pid then
        modNew fun p => { p with pLimit := some .globalConnections, pSs := some ss }
        modify (Server.addSs ss 1)
        modNew fun p => { p with pCinfo := some a }
        if ← ask .strdup then
          modNew fun p => { p with pHost := some (inetNtoa sin) }
          return 0
        else return 1
      else return 1
    else return 1

/-- `simta_child_receive`, in the server, from the record of the client on. -/
def receiveFrom (conf : ServerConf) (ss sin a : Nat) : ServerProg Int := do
  Faulty.update (Server.modCinfo a fun c => { c with cProcTotal := c.cProcTotal + 1 })
  modify fun v => v.addLimit 1 (some .globalConnections)
  if ← gettimeofday then
    let v ← get
    Faulty.update (Server.modCinfo a (throttleCinfo conf v.tvNow))
    modify (throttleGlobal conf)
    receiveFork ss sin a
  else return 1

/-- `simta_child_receive`, in the server. -/
def simtaChildReceive (conf : ServerConf) (ss : Nat) : ServerProg Int := do
  match ← ask (.accept ss) with
  | none => return 0
  | some sin =>
    match ← lookupCinfo sin with
    | none => return 1
    | some a => receiveFrom conf ss sin a

/-! ## Children that have ended -/

/-- The requeue of a host that has answered. -/
def requeueHost (p : ProcType) : ServerProg Int := do
  match p.pHost with
  | none => Faulty.fault
  | some host => ask (.requeue host)

/-- A receiving child that exits is taken out of its counters. -/
def receiveExited (p : ProcType) : ServerProg PUnit := do
  match p.pSs, p.pCinfo with
  | some ss, some a =>
    modify (Server.addSs ss (-1))
    Faulty.update (Server.modCinfo a fun c => { c with cProcTotal := c.cProcTotal - 1 })
  | _, _ => Faulty.fault

/-- What the line about a child that exits reads: the limit of the child and, of a runner for a queue, the host. -/
def exitedReads (p : ProcType) : ServerProg PUnit :=
  if p.pLimit = none ∨ (p.pType = .qSlow ∧ p.pHost = none) then Faulty.fault else return

/-- A child that exits, by its type; the result is whether it is an error, or `none` to return at once. -/
def childExited (p : ProcType) (status : Int) : ServerProg (Option Int) := do
  if p.pType = .receive then
    receiveExited p
    exitedReads p
    return some (if status ≠ 0 then 1 else 0)
  else if p.pType = .qSlow ∧ status = simtaExitOkLeaky then
    if (← requeueHost p) ≠ 0 then return none
    else
      exitedReads p
      return some 0
  else
    exitedReads p
    return some (if status ≠ 0 then 1 else 0)

/-- The loop of `daemon_waitpid`. -/
def waitpidLoop : List (Nat × WaitStatus) → Int → ServerProg Int
  | [], errors => return errors
  | (pid, status) :: rest, errors => do
    let v ← get
    match v.procStab.find? fun p => p.pId = pid with
    | none => waitpidLoop rest (errors + 1)
    | some p =>
      modify fun v => { v with procStab := v.procStab.erase p }
      modify fun v => v.addLimit (-1) p.pLimit
      match status with
      | .other => waitpidLoop rest (errors + 1)
      | .exited status =>
        match ← childExited p status with
        | none => return 1
        | some n => waitpidLoop rest (errors + n)

/-- `daemon_waitpid`. -/
def daemonWaitpid : ServerProg Int := do
  if ← gettimeofday then waitpidLoop (← ask .waitpid) 0 else return 1

/-! ## The loop -/

/-- The records without a child that have not been used for the time of the throttle are freed. -/
def cleanThrottleTable (conf : ServerConf) : ServerProg Int := do
  if ← gettimeofday then
    modify fun v => { v with cinfoStab := v.cinfoStab.filter fun x =>
      ¬ (x.2.cProcTotal = 0 ∧ x.2.cTv.tvSec + conf.localThrottleSec < v.tvNow.tvSec) }
    return 0
  else return 1

/-- The steps of the loop that touch the table: the runner of the local directory, children that have ended, the
    runner of the unexpanded queue, that of a host queue, the throttle table and a listening socket. -/
inductive ServerStep
  | localRunner
  | waitpid
  | unexpanded
  | launch (host : Text)
  | clean
  | receive (ss : Nat)

/-- The name of the unexpanded queue. -/
def unexpandedName : Text := []

/-- A step, with the limit that the loop tests in front of it. -/
def ServerStep.prog (conf : ServerConf) : ServerStep → ServerProg Int
  | .localRunner => do
    if ← ask .signal then
      let v ← get
      if v.qRunnerLocal < conf.qRunnerLocalMax then simtaChildQRunner none else return 0
    else return 0
  | .waitpid => daemonWaitpid
  | .unexpanded => simtaChildQRunner (some unexpandedName)
  | .launch host => do
    let v ← get
    if conf.qRunnerSlowMax ≠ 0 ∧ conf.qRunnerSlowMax ≤ v.qRunnerSlow then return 0
    else simtaChildQRunner (some host)
  | .clean => cleanThrottleTable conf
  | .receive ss => simtaChildReceive conf ss

/-- What a call does to the children that are not reaped yet: `fork(2)` gives one an id that none of them has,
    `waitpid(2)` gives some that have ended, each once. -/
def ServerOp.children : (op : ServerOp) → ServerAns op → List Nat → List Nat → Prop
  | .fork, some pid, live, live' => pid ∉ live ∧ live' = pid :: live
  | .waitpid, ended, live, live' => (ended.map Prod.fst).Nodup ∧ (∀ x ∈ ended, x.1 ∈ live) ∧
      live' = live.filter fun pid => pid ∉ ended.map Prod.fst
  | _, _, live, live' => live' = live

/-- The world of the server: the children that it has not reaped. -/
def serverWorld : Prog.World ServerOp ServerAns (List Nat) := fun op live a live' => op.children a live live'

/-- What the server reaches by steps that return 0; after any other it has left its loop. -/
inductive ServerRun (conf : ServerConf) : Server → List Nat → Prop
  | start (now : Timeval) : ServerRun conf { tvNow := now } []
  | step {v v' : Server} {live live' : List Nat} (hr : ServerRun conf v live) (s : ServerStep)
      (hrun : (s.prog conf).Runs serverWorld v live 0 v' live') : ServerRun conf v' live'

end ProcTable

end Simta
