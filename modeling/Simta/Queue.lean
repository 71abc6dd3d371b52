import Simta.Lib.World
import Simta.Red
import Simta.EnvOutfile
import Simta.Smtp

/-!
# Host queues

`queue.c`: the queues of envelopes by host, each sorted by the time of the last attempt and with two
counters kept by hand, and the functions of `envelope.c` that write an envelope while it is queued.

* `hostQLookup`, `hostQCreateOrLookup` — the host queues by name;
* `queueEnvelope`, `queueRemoveEnvelope`, `queueTimeOrder`, `pruneMessages`;
* `envTouch`, `envJailStatus` — the two that write a field a queue depends on.
-/

set_option autoImplicit false

namespace Simta

/-- An address of the heap. -/
abbrev Addr : Type := Nat

/-- `struct host_q`.  `hqEnvHead` is the list that starts at `hq_env_head` and goes on through
    `e_hq_next`; the statistics, which are only logged, are left out. -/
structure HostQ where
  hqHostname : Text
  hqStatus : HostStatus := .unknown
  hqRed : Option Red := none
  hqNoPuntMx : Bool := false
  hqNoPuntConfig : Bool := false
  hqEntries : Int := 0
  hqJailEnvs : Int := 0
  hqEnvHead : List Addr := []
  hqMinWait : Int := 0
  hqMaxWait : Int := 0
  hqLeaky : Bool := false
  hqLastLaunch : Int := 0
  hqNextLaunch : Int := 0
  hqWaitLast : Int := 0
  hqDeliverPrev : Option Addr := none
  hqDeliverNext : Option Addr := none

/-- An envelope with its links. -/
structure QEnv extends Envelope where
  eHq : Option Addr := none
  eCycle : Int := 0
  eListNext : Option Addr := none
  eListPrev : Option Addr := none

/-- `PROCESS_Q_LOCAL`, `PROCESS_Q_SLOW`, `PROCESS_RECEIVE`. -/
inductive ProcessType
  | qLocal
  | qSlow
  | receive
  deriving DecidableEq, Repr

/-- `struct proc_type`: a child process. -/
structure Proc where
  pId : Nat
  pType : ProcessType
  pHost : Option Text := none
  deriving DecidableEq, Repr

/-- The heap and the globals of the queue code.  `hostQ` is the list that starts at `simta_host_q`;
    `envList` holds the envelopes by message id, `senderList` by sender; `procStab` the child processes. -/
structure Queues where
  envs : Addr → Option QEnv
  hqs : Addr → Option HostQ
  fresh : Addr
  hostQ : List Addr
  unexpandedQ : Option Addr
  puntQ : Option Addr
  deliverQ : Option Addr
  envQueue : Option Addr
  diskCycle : Int
  envList : List (Text × Addr)
  senderList : List (Text × List (Text × Addr))
  procStab : List Proc
  debug : Int

/-- The globals of the configuration. -/
structure QueueConf extends Conf where
  red : RedConf
  redHosts : List Red := []
  remoteHosts : List Red := []
  minWait : Int := 5 * 60
  maxWait : Int := 80 * 60
  jailSeconds : Int := 60 * 60 * 4
  bitbucket : Int := -1
  queueIncomingSmtpMail : Bool := false
  processReceive : Bool := false
  puntHost : Option Text := none
  queueFilter : Option Text := none

/-- The answer of `readdir(3)`. -/
inductive Dirent
  | entry (name : Text)
  | finished
  | error
  deriving DecidableEq, Repr

/-- The calls on the command directory and on a command file.  `getline` is the one `snet_getline` of
    its first line, `acavParse` the allocation that `acav_parse` may make. -/
inductive CommandOp
  | opendir
  | dirent
  | closedir
  | snetOpen (name : Text)
  | acavAlloc
  | getline
  | acavParse
  | snetClose
  | unlink (name : Text)
  deriving DecidableEq, Repr

abbrev CommandAns : CommandOp → Type
  | .dirent => Dirent
  | .getline => Option Text
  | _ => Bool

/-- A status of `waitpid(2)`. -/
inductive WaitStatus
  | exited (status : Int)
  | other
  deriving DecidableEq, Repr

/-- The calls: those on files and on the command directory, `random(3)`, one call of `readdir(3)`, the
    id that `env_create` makes up, `wildcard`, what the uninitialised locals of `env_read` hold, `fork(2)`
    with the process id of the child, and the children that `waitpid(2)` gives one after the other. -/
inductive QueueOp
  | file (op : FileOp)
  | command (op : CommandOp)
  | random
  | dirent (d : Dir)
  | stamp
  | wildcard (filter hostname : Text)
  | locals
  | fork
  | waitpid
  deriving DecidableEq, Repr

abbrev QueueAns : QueueOp → Type
  | .file op => FileAns op
  | .command op => CommandAns op
  | .random => Nat
  | .dirent _ => Dirent
  | .stamp => Option Text
  | .wildcard _ _ => Bool
  | .locals => Int × Nat
  | .fork => Option Nat
  | .waitpid => List (Nat × WaitStatus)

abbrev QueueProg (α : Type) : Type := Faulty Queues QueueOp QueueAns α

namespace Queues

def setEnv (q : Queues) (a : Addr) (e : Option QEnv) : Queues :=
  { q with envs := fun b => if b = a then e else q.envs b }

def setHq (q : Queues) (h : Addr) (x : Option HostQ) : Queues :=
  { q with hqs := fun b => if b = h then x else q.hqs b }

/-- A write through a pointer. -/
def modEnv (q : Queues) (a : Addr) (f : QEnv → QEnv) : Option Queues :=
  (q.envs a).map fun e => q.setEnv a (some (f e))

def modHq (q : Queues) (h : Addr) (f : HostQ → HostQ) : Option Queues :=
  (q.hqs h).map fun x => q.setHq h (some (f x))

/-- A new object. -/
def newEnv (q : Queues) (e : QEnv) : Queues := { q.setEnv q.fresh (some e) with fresh := q.fresh + 1 }
def newHq (q : Queues) (x : HostQ) : Queues := { q.setHq q.fresh (some x) with fresh := q.fresh + 1 }

end Queues

namespace QueueProg

def file {α : Type} (p : SpoolProg α) : QueueProg α :=
  Faulty.lift (Prog.lift QueueOp.file (fun _ a => a) p)

def env (a : Addr) : QueueProg QEnv := Faulty.read fun q => q.envs a
def hq (h : Addr) : QueueProg HostQ := Faulty.read fun q => q.hqs h
def modEnv (a : Addr) (f : QEnv → QEnv) : QueueProg PUnit := Faulty.update fun q => q.modEnv a f
def modHq (h : Addr) (f : HostQ → HostQ) : QueueProg PUnit := Faulty.update fun q => q.modHq h f

end QueueProg

open QueueProg

/-! ## Finding and creating host queues -/

/-- `host_q_lookup` from a place in the list on. -/
def hostQFind (hqs : Addr → Option HostQ) (hostname : Text) : List Addr → Option (Option Addr)
  | [] => some none
  | h :: rest => do
    let x ← hqs h
    if strcaseEq x.hqHostname hostname then some (some h) else hostQFind hqs hostname rest

/-- `host_q_lookup`. -/
def hostQLookup (hostname : Text) : QueueProg (Option Addr) :=
  Faulty.read fun q => hostQFind q.hqs hostname q.hostQ

def sUnexpanded : Text := "Unexpanded".toList

/-- The host queue that `host_q_create_or_lookup` makes for a host. -/
def hostQNew (conf : QueueConf) (hostname : Text) : HostQ :=
  let hqRed := if conf.bitbucket ≥ 0 then none else redLookupHost conf.red hostname conf.redHosts
  let hqStatus : HostStatus :=
    if conf.bitbucket ≥ 0 then .bitbucket
    else if hqRed.any fun r => decide (r.redDeliverType = .binary) then .loc
    else .unknown
  let remote := redLookupHost conf.red hostname conf.remoteHosts
  { hqHostname := hostname
    hqRed
    hqMinWait := (remote.map (·.redMinWait)).getD conf.minWait
    hqMaxWait := (remote.map (·.redMaxWait)).getD conf.maxWait
    hqNoPuntConfig := match remote with
      | some r => r.redNoPunt
      | none => conf.jailHost.any fun j => strcaseEq j hostname
    hqStatus :=
      if hqStatus = .unknown ∧ conf.queueIncomingSmtpMail ∧ conf.processReceive then .supressed
      else hqStatus }

/-- The queue of unexpanded messages, and the queue of the punt host, are made with the first queue. -/
def createNullQueues (conf : QueueConf) : QueueProg Bool := do
  let q ← get
  match q.unexpandedQ with
  | some _ => return true
  | none =>
    if ← file Sys.malloc then
      modify fun q => { q.newHq { hqHostname := sUnexpanded, hqStatus := .null } with
        unexpandedQ := some q.fresh }
      match conf.puntHost with
      | none => return true
      | some puntHost =>
        if ← file Sys.malloc then
          modify fun q => { q.newHq { hqHostname := puntHost, hqStatus := .punt } with
            puntQ := some q.fresh }
          return true
        else return false
    else return false

/-- `host_q_create_or_lookup`. -/
def hostQCreateOrLookup (conf : QueueConf) (hostname : Option Text) : QueueProg (Option Addr) := do
  if ← createNullQueues conf then
    if hostname.getD [] = [] then return (← get).unexpandedQ
    else
      match ← hostQLookup (hostname.getD []) with
      | some h => return some h
      | none =>
        if ← file Sys.malloc then
          if ← file Sys.malloc then
            let q ← get
            set { q.newHq (hostQNew conf (hostname.getD [])) with hostQ := q.fresh :: q.hostQ }
            return some q.fresh
          else return none
        else return none
  else return none

/-! ## The list of a host queue -/

/-- The list with the envelope `a`, last tried at the time `t`, behind those tried no later. -/
def insertByTime (envs : Addr → Option QEnv) (t : Int) (a : Addr) : List Addr → Option (List Addr)
  | [] => some [a]
  | b :: rest => do
    let e ← envs b
    if t < e.eEtime then some (a :: b :: rest)
    else (insertByTime envs t a rest).map (b :: ·)

/-- The envelope is linked into the list of the host queue. -/
def Queues.enqueue (a h : Addr) (q : Queues) : Option Queues := do
  let e ← q.envs a
  let x ← q.hqs h
  let l ← insertByTime q.envs e.eEtime a x.hqEnvHead
  let x := { x with
    hqEnvHead := l
    hqEntries := x.hqEntries + 1
    hqJailEnvs := if e.eJail = envJailPrisoner then x.hqJailEnvs + 1 else x.hqJailEnvs }
  some ((q.setHq h (some x)).setEnv a (some { e with eHq := some h }))

/-- `queue_envelope`. -/
def queueEnvelope (conf : QueueConf) (a : Addr) : QueueProg Int := do
  let e ← env a
  if e.eDir = .dead then return 0
  else
    match e.eHq with
    | some _ => return 0
    | none =>
      let hq ← if e.eFlags.punt then some <$> Faulty.read Queues.puntQ
        else hostQCreateOrLookup conf e.eHostname
      match hq with
      | none => return 1
      | some h =>
        Faulty.update (Queues.enqueue a h)
        return 0

/-- The envelope is unlinked from the list of its host queue. -/
def Queues.dequeue (a : Addr) (q : Queues) : Option Queues := do
  let e ← q.envs a
  let h ← e.eHq
  let x ← q.hqs h
  if a ∈ x.hqEnvHead then
    let x := { x with
      hqEnvHead := x.hqEnvHead.erase a
      hqEntries := x.hqEntries - 1
      hqJailEnvs := if e.eJail = envJailPrisoner then x.hqJailEnvs - 1 else x.hqJailEnvs }
    some ((q.setHq h (some x)).setEnv a (some { e with eHq := none }))
  else none

/-- `queue_remove_envelope`. -/
def queueRemoveEnvelope (a : Option Addr) : QueueProg PUnit := do
  match a with
  | some a => Faulty.update (Queues.dequeue a)
  | none => return ⟨⟩

/-- `env_free`: the envelope leaves the lists by message id and by sender. -/
def Queues.freeEnv (a : Addr) (q : Queues) : Queues :=
  { q.setEnv a none with
    envList := q.envList.filter fun p => p.2 ≠ a
    senderList := q.senderList.filterMap fun s =>
      if s.2.any fun p => p.2 = a then
        let l := s.2.filter fun p => p.2 ≠ a
        if l = [] then none else some (s.1, l)
      else some s }

/-- The loop of `queue_time_order`. -/
def timeOrderLoop (conf : QueueConf) : List Addr → QueueProg PUnit
  | [] => return ⟨⟩
  | a :: rest => do
    modEnv a fun e => { e with eHq := none }
    let e ← env a
    match ← file (Sys.stat (efile e.eDir e.eId)) with
    | none =>
      modify (Queues.freeEnv a)
      timeOrderLoop conf rest
    | some _ =>
      let _ ← queueEnvelope conf a
      timeOrderLoop conf rest

/-- `queue_time_order`. -/
def queueTimeOrder (conf : QueueConf) (hq : Option Addr) : QueueProg PUnit := do
  match hq with
  | none => return ⟨⟩
  | some h =>
    let x ← QueueProg.hq h
    modHq h fun x => { x with hqEntries := 0, hqJailEnvs := 0, hqEnvHead := [] }
    timeOrderLoop conf x.hqEnvHead

/-- The envelope is unlinked from the ring of all envelopes. -/
def Queues.ringRemove (a : Addr) (q : Queues) : Option Queues := do
  let e ← q.envs a
  let n ← e.eListNext
  let q ← q.modEnv n fun x => { x with eListPrev := e.eListPrev }
  let e ← q.envs a
  let p ← e.eListPrev
  let q ← q.modEnv p fun x => { x with eListNext := e.eListNext }
  let e ← q.envs a
  let q :=
    if q.envQueue = some a then
      { q with envQueue := if e.eListNext = some a then none else e.eListNext }
    else q
  q.modEnv a fun e => { e with eListNext := none, eListPrev := none }

/-- The loop of `prune_messages`: what is left of the list, and its two counts. -/
def pruneLoop (q : Queues) : List Addr → Option (List Addr × Int × Int × Queues)
  | [] => some ([], 0, 0, q)
  | a :: rest => do
    let e ← q.envs a
    if e.eCycle ≠ q.diskCycle then
      let q ← q.ringRemove a
      pruneLoop (q.freeEnv a) rest
    else
      let (l, entries, jail, q) ← pruneLoop q rest
      some (a :: l, entries + 1, if e.eJail = envJailPrisoner then jail + 1 else jail, q)

/-- `prune_messages`. -/
def Queues.pruneMessages (h : Addr) (q : Queues) : Option Queues := do
  let x ← q.hqs h
  let (l, entries, jail, q) ← pruneLoop q x.hqEnvHead
  q.modHq h fun x => { x with hqEnvHead := l, hqEntries := entries, hqJailEnvs := jail }

/-! ## The writers of queued envelopes -/

/-- `env_touch`. -/
def envTouch (a : Addr) : QueueProg Int := do
  let e ← env a
  if ← file (Sys.utime (efile e.eDir e.eId)) then
    match ← file Sys.clock with
    | some now =>
      modEnv a fun e => { e with eEtime := now }
      return 0
    | none => return -1
  else return -1

/-- The lists of an entry by key, sorted by key. -/
def dllInsertKey {β : Type} (key : Text) (new : β) : List (Text × β) → List (Text × β)
  | [] => [(key, new)]
  | (k, b) :: rest =>
    match strcasecmp key k with
    | .eq => (k, b) :: rest
    | .lt => (key, new) :: (k, b) :: rest
    | .gt => (k, b) :: dllInsertKey key new rest

/-- `dll_lookup`. -/
def dllLookup {β : Type} (key : Text) : List (Text × β) → Option β
  | [] => none
  | (k, b) :: rest =>
    match strcasecmp key k with
    | .eq => some b
    | .lt => none
    | .gt => dllLookup key rest

/-- The insertions in the lists by message id and by sender, which have succeeded. -/
def Queues.listsAdd (conf : Conf) (a : Addr) (e : Envelope) (q : Queues) : Queues :=
  { q with
    envList := if conf.midListEnable then dllInsertKey e.eId a q.envList else q.envList
    senderList :=
      if conf.senderListEnable then
        let sender := e.eMail.getD []
        (dllInsertKey sender [] q.senderList).map fun s =>
          if strcaseEq sender s.1 then (s.1, dllInsertKey e.eId a s.2) else s
      else q.senderList }

/-- `env_read` with a lock: the file stays open and locked when it is read. -/
def envReadLock (conf : Conf) (mode : ReadMode) (version0 : Int) (dinode0 : Nat) (env : Envelope) :
    SpoolProg (Int × Envelope) := do
  match ← Sys.read env.efile with
  | none => return (1, env)
  | some lines =>
    match envReadLines mode version0 dinode0 env lines with
    | .error env =>
      let _ ← Sys.fclose env.efile
      return (1, env)
    | .ok env =>
      if ← listAdd conf.midListEnable then
        if ← listAdd conf.senderListEnable then return (0, env) else return (1, env)
      else return (1, env)

/-- A function of `envelope.c` on the envelope at `a`: its result and the fields it leaves. -/
def onEnvelope (a : Addr) (p : Envelope → SpoolProg (Option (Int × Envelope))) : QueueProg Int := do
  let e ← env a
  match ← file (p e.toEnvelope) with
  | none => Faulty.fault
  | some (ret, e') =>
    modEnv a fun e => { e with toEnvelope := e' }
    return ret

/-- `env_rcpt_free`. -/
def Envelope.rcptFree (e : Envelope) : Envelope := { e with eRcpt := [], eNRcpt := 0 }

/-- The part of `env_jail_status` that reads the Efile and writes it again. -/
def jailRewrite (conf : QueueConf) (a : Addr) (jail : Int) : QueueProg Int := do
  let (version0, dinode0) ← Faulty.ask QueueOp.locals
  let ret ← onEnvelope a fun e => some <$> envReadLock conf.toConf .jailInfo version0 dinode0 e
  if ret ≠ 0 then return 0
  else
    let e ← env a
    modify (Queues.listsAdd conf.toConf a e.toEnvelope)
    modEnv a fun e => { e with eJail := jail }
    let ret ← onEnvelope a (envOutfile conf.toConf)
    if ret ≠ 0 then return 1
    else
      let e ← env a
      modify (Queues.listsAdd conf.toConf a e.toEnvelope)
      modEnv a fun e => { e with toEnvelope := e.toEnvelope.rcptFree }
      return 0

/-- `env_jail_status`. -/
def envJailStatus (conf : QueueConf) (env : Option Addr) (jail : Int) : QueueProg Int := do
  match env with
  | none => return 0
  | some a =>
    if jail ≠ envJailPrisoner ∧ jail ≠ envJailParolee then return 1
    else
      let e ← QueueProg.env a
      if e.eJail ≠ envJailPrisoner ∧ e.eJail ≠ envJailParolee then return 1
      else if e.eJail = jail then return 0
      else
        match e.eHq with
        | some h =>
          modHq h fun x => { x with
            hqJailEnvs := if jail = envJailPrisoner then x.hqJailEnvs - 1 else x.hqJailEnvs + 1 }
          jailRewrite conf a jail
        | none => jailRewrite conf a jail

end Simta
