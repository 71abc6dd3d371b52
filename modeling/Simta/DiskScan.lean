import Simta.Backoff

/-!
# Reading the queue directory

`q_read_dir` of `queue.c`: the slow directory is read one entry a call, over many calls.  A new Efile makes
an envelope, queued for its host and linked into the ring of all envelopes; the end of a cycle prunes the
envelopes whose Efile was not seen, frees the queues that are left empty and schedules the new ones.

* `qReadDir` — one call; `scanEfile`, `cycleEnd` — its two parts with something to do.
-/

set_option autoImplicit false

namespace Simta

open QueueProg

/-! ## The functions -/

/-- The walk round `simta_env_queue` from `a` on, for the envelope of that id: `last_read` is `NULL` in
    every call, so the walk starts at the head and ends there.  A walk that does not end faults when the
    number is used up. -/
def Queues.ringFind (q : Queues) (id : Text) : Nat → Addr → Option (Option Addr)
  | 0, _ => none
  | n + 1, a => do
    let e ← q.envs a
    if e.eId = id then some (some a)
    else
      match e.eListNext with
      | none => do q.ringFind id n (← q.envQueue)
      | some b => if q.envQueue = some b then some none else q.ringFind id n b

/-- The envelope of that id, if there is one. -/
def Queues.known (q : Queues) (id : Text) : Option (Option Addr) :=
  match q.envQueue with
  | none => some none
  | some f => q.ringFind id q.fresh f

/-- A new envelope is linked in before the head of the ring, and becomes the head. -/
def Queues.ringInsert (a : Addr) (q : Queues) : Option Queues :=
  match q.envQueue with
  | none => ({ q with envQueue := some a } : Queues).modEnv a fun e =>
      { e with eListNext := some a, eListPrev := some a }
  | some f => do
    let x ← q.envs f
    let q ← q.modEnv a fun e => { e with eListNext := some f, eListPrev := x.eListPrev }
    let x ← q.envs f
    let p ← x.eListPrev
    let q ← q.modEnv p fun e => { e with eListNext := some a }
    let q ← q.modEnv f fun e => { e with eListPrev := some a }
    some { q with envQueue := some a }

/-- The id of a new envelope: an empty one is made up of the time and the process id. -/
def newId (id : Text) : QueueProg (Option Text) :=
  if id = [] then Faulty.ask QueueOp.stamp else return some id

/-- `env_create( dir, id, NULL, NULL )`. -/
def envCreateNew (conf : QueueConf) (dir : Dir) (id : Text) : QueueProg (Option Addr) := do
  if ← file Sys.malloc then
    match ← newId id with
    | none => return none
    | some id =>
      if ← file Sys.malloc then
        let q ← get
        set (q.newEnv { envCreate conf.toConf dir id none none with })
        return some q.fresh
      else return none
  else return none

/-- A message that the filter of a stand-alone queue runner leaves out. -/
def filtered (conf : QueueConf) (hostname : Option Text) : QueueProg Bool := do
  match conf.queueFilter, hostname with
  | none, _ => return false
  | some _, none => return true
  | some filter, some hostname => return !(← Faulty.ask (QueueOp.wildcard filter hostname))

/-- `q_read_dir` at an Efile. -/
def scanEfile (conf : QueueConf) (sdDir : Dir) (id : Text) : QueueProg Int := do
  match ← Faulty.read fun q => q.known id with
  | some a =>
    let q ← get
    modEnv a fun e => { e with eCycle := q.diskCycle }
    return 0
  | none =>
    match ← envCreateNew conf sdDir id with
    | none => return 1
    | some a =>
      let (version0, dinode0) ← Faulty.ask QueueOp.locals
      let ret ← onEnvelope a fun e => some <$> envRead conf.toConf .queueInfo version0 dinode0 e
      if ret ≠ 0 then
        modify (Queues.freeEnv a)
        return 0
      else
        let e ← env a
        modify (Queues.listsAdd conf.toConf a e.toEnvelope)
        if ← filtered conf e.eHostname then
          modify (Queues.freeEnv a)
          return 0
        else
          let ret ← queueEnvelope conf a
          if ret ≠ 0 then return 1
          else
            let q ← get
            modEnv a fun e => { e with eCycle := q.diskCycle }
            Faulty.update (Queues.ringInsert a)
            return 0

/-- `q_read_dir` at an entry: one that is no Efile is left alone. -/
def scanEntry (conf : QueueConf) (sdDir : Dir) : Text → QueueProg Int
  | 'E' :: id => scanEfile conf sdDir id
  | _ => return 0

/-- The end of a cycle at each host queue. -/
def cycleHosts (conf : QueueConf) (tvStop : Int) : List Addr → QueueProg Int
  | [] => return 0
  | h :: rest => do
    Faulty.update (Queues.pruneMessages h)
    let x ← hq h
    if x.hqEnvHead = [] then
      modify fun q => { q with hostQ := q.hostQ.erase h }
      Faulty.update (Queues.hqFree h)
      cycleHosts conf tvStop rest
    else if x.hqNextLaunch = 0 then
      let ret ← hqDeliverPush conf h (some tvStop) none
      if ret ≠ 0 then return 1 else cycleHosts conf tvStop rest
    else cycleHosts conf tvStop rest

/-- `q_read_dir` at the end of a cycle. -/
def cycleEnd (conf : QueueConf) (tvStop : Int) : QueueProg Int := do
  let q ← get
  match q.unexpandedQ with
  | some h => Faulty.update (Queues.pruneMessages h)
  | none => pure ⟨⟩
  let q ← get
  cycleHosts conf tvStop q.hostQ

/-- `q_read_dir`: whether `sd_dirp` is open goes in and comes out. -/
def qReadDir (conf : QueueConf) (sdDir : Dir) (sdDirp : Bool) : QueueProg (Int × Bool) := do
  if sdDirp then
    match ← Faulty.ask (QueueOp.dirent sdDir) with
    | .error => return (1, true)
    | .finished =>
      if ← file (Sys.closedir sdDir) then
        match ← file Sys.clock with
        | none => return (1, false)
        | some tvStop => return (← cycleEnd conf tvStop, false)
      else return (1, true)
    | .entry name => return (← scanEntry conf sdDir name, true)
  else
    match ← file Sys.clock with
    | none => return (1, false)
    | some _ =>
      if ← file (Sys.opendir sdDir) then return (0, true) else return (1, false)

end Simta
