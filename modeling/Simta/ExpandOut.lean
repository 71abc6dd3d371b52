import Simta.Bounce
import Simta.Memonly
import Simta.ExpandRun

/-!
# The envelopes of an expansion

The second part of `expand`: the addresses of the list go to envelopes by host and sender, the envelopes
are written and queued, and the original message is removed.

* `eoLookup`, `outputFor` — the envelope that an address goes to;
* `outAddress`, `outAddresses` — the loop over the list;
* `writeStab`, `writeErrors` — the envelopes and the error envelopes to the disk;
* `expand` — the function, with its cleanup.
-/

set_option autoImplicit false

namespace Simta

/-- What `expand` keeps beside `struct expand`: `loop_color`; `host_stab` with the last envelope first, each
    with the number of those made before it, which stands for its place in memory; `env_dead`; `env_out`; the
    moderated and forwarding envelopes that were handed to `env_outfile`, by their address; and the addresses
    that it prints as suppressed. -/
structure ExpandOut where
  loopColor : Nat
  hostStab : List (Nat × Envelope)
  envDead : Option Nat
  envOut : Int
  sent : List (Nat × Envelope)
  supressed : List Nat

/-! ## Hosts and senders -/

/-- `eo_hostname`. -/
def eoHostname (env : Envelope) : Text := env.eHostname.getD []

/-- `eo_from`. -/
def eoFrom (env : Envelope) : Text := env.eMail.getD []

/-- `eo_lookup`. -/
def eoLookup (eoList : List (Nat × Envelope)) (hostname origin : Text) : Option Nat :=
  (eoList.find? fun eo => strcaseEq (eoHostname eo.2) hostname && strcaseEq (eoFrom eo.2) origin).map Prod.fst

/-- An envelope for `domain`, or for the dead addresses. -/
def outputEnvelope (conf : ExpandConf) (unexpanded : Envelope) (id : Text) (domain : Option Text) (origin : Text) :
    Envelope :=
  let env := { envCreate conf.toConf (if domain.isSome then .fast else .dead) id (some origin) (some unexpanded) with
    eDinode := unexpanded.eDinode
    eAttributes := unexpanded.eAttributes }
  match domain with
  | some domain => envHostname env domain
  | none => env

/-- The new envelope with the allocation of its host name. -/
def newOutput (conf : ExpandConf) (unexpanded : Envelope) (domain : Option Text) (origin : Text) :
    ExpProg (Option Envelope) := do
  match ← ExpProg.ask .envId with
  | none => return none
  | some id =>
    if domain.getD [] = [] then return some (outputEnvelope conf unexpanded id domain origin)
    else if ← ExpProg.ask .alloc then return some (outputEnvelope conf unexpanded id domain origin)
    else return none

/-- The envelope among those there are. -/
def outputFound (o : ExpandOut) (domain : Option Text) (origin : Text) : Option Nat :=
  match domain with
  | some domain => eoLookup o.hostStab domain origin
  | none => o.envDead

/-- `eo_insert`. -/
def insertOutput (o : ExpandOut) (domain : Option Text) (env : Envelope) : ExpandOut :=
  { o with
    hostStab := (o.hostStab.length, env) :: o.hostStab
    envDead := if domain = none then some o.hostStab.length else o.envDead }

/-- The envelope for `domain` and the sender, a new one if there is none. -/
def outputFor (conf : ExpandConf) (unexpanded : Envelope) (domain : Option Text) (origin : Text) (o : ExpandOut) :
    ExpProg (Option (Nat × ExpandOut)) := do
  match outputFound o domain origin with
  | some i => return some (i, o)
  | none =>
    match ← newOutput conf unexpanded domain origin with
    | none => return none
    | some env =>
      if ← ExpProg.ask .alloc then return some (o.hostStab.length, insertOutput o domain env)
      else return none

/-- A write to the envelope `i`. -/
def ExpandOut.write (o : ExpandOut) (i : Nat) (f : Envelope → Envelope) : ExpandOut :=
  { o with hostStab := o.hostStab.map fun eo => if eo.1 = i then (eo.1, f eo.2) else eo }

/-- The address becomes a recipient; whether the loop goes on. -/
def outRecipient (conf : ExpandConf) (unexpanded : Envelope) (domain : Option Text) (a : ExpAddr) (o : ExpandOut) :
    ExpProg (Bool × ExpandOut) := do
  match ← outputFor conf unexpanded domain a.eAddrFrom o with
  | none => return (false, o)
  | some (i, o) =>
    if ← ExpProg.ask .alloc then return (true, o.write i fun env => envRecipient env a.eAddr)
    else return (false, o)

/-- A terminal address; one of the branches is called unreachable. -/
def outTerminal (conf : ExpandConf) (unexpanded : Envelope) (a : ExpAddr) (o : ExpandOut) :
    ExpProg (Bool × ExpandOut) :=
  match a.eAddrType with
  | .email =>
    match strchrAt a.eAddr with
    | none => pure (false, o)
    | some (_, domain) => outRecipient conf unexpanded (some domain) a o
  | .dead => outRecipient conf unexpanded none a o
  | .ldap => Faulty.fault

/-! ## Envelopes to the disk -/

/-- `link`, `env_outfile` and `queue_envelope`; the envelope with whether it was written. -/
def writeOutput (conf : ExpandConf) (dOriginal : Path) (env : Envelope) : ExpProg (Bool × Envelope) := do
  if ← ExpProg.files (Sys.link dOriginal env.dfile) then
    match ← ExpProg.files (envOutfile conf.toConf env) with
    | none => Faulty.fault
    | some (0, env) =>
      let _ ← ExpProg.ask (.queueEnvelope env.eId)
      return (true, env)
    | some (_, env) =>
      let _ ← ExpProg.files (Sys.unlink env.dfile)
      return (false, env)
  else return (false, env)

/-- `| ENV_ATTR_ARCHIVE_ONLY`. -/
def withArchiveOnly (attributes : Int) : Int := if attributes % 2 = 1 then attributes else attributes + 1

/-- The forwarding envelope of an address, or else its moderated envelope, with what it carries of the message. -/
def ownEnvelope (unexpanded : Envelope) (a : ExpAddr) : Option Envelope :=
  match a.eAddrEnvGmailfwd with
  | some env => some { env with
      eDir := .fast
      eDinode := unexpanded.eDinode
      eAttributes := withArchiveOnly unexpanded.eAttributes }
  | none => a.eAddrEnvModerated.map fun env =>
    { env with
      eDinode := unexpanded.eDinode
      eAttributes := unexpanded.eAttributes }

/-- The envelope that an address has of its own goes out; whether the loop goes on. -/
def outOwn (conf : ExpandConf) (debug : Bool) (unexpanded : Envelope) (e : Nat) (env : Envelope) (o : ExpandOut) :
    ExpProg (Bool × ExpandOut) := do
  if debug then return (true, o)
  else
    match ← writeOutput conf unexpanded.dfile env with
    | (true, env) => return (true, { o with envOut := o.envOut + 1, sent := (e, env) :: o.sent })
    | (false, env) => return (false, { o with sent := (e, env) :: o.sent })

/-- The texts about a members-only group whose conditions are not met. -/
def memonlyTexts (a : ExpAddr) : List Text :=
  ["Members only group conditions not met: ".toList ++ a.eAddr,
    "If you have any questions, please contact the group owner: ".toList ++ a.eAddrOwner.getD []]

/-- Texts to an error envelope, up to one that cannot be kept. -/
def errorTexts (errors : Nat) : List Text → ExpProg Bool
  | [] => return true
  | text :: rest => do
    if ← bounceTextAt errors true text then errorTexts errors rest
    else return false

/-- The parents of a suppressing group are told, the original sender first of all in the first error envelope;
    a private group tells only the latter. -/
def outSupressor (a : ExpAddr) : List (Option Nat) → ExpProg Bool
  | [] => return true
  | none :: rest => do
    if ← errorTexts 0 (memonlyTexts a) then outSupressor a rest
    else return false
  | some p :: rest => do
    if a.eAddrLdapFlags.ldapPrivate then outSupressor a rest
    else if ← errorTexts (← ExpProg.addr p).eAddrErrors (memonlyTexts a) then outSupressor a rest
    else return false

/-! ## The loop over the list -/

/-- An address that is not withheld. -/
def outOpen (conf : ExpandConf) (debug : Bool) (unexpanded : Envelope) (e : Nat) (o : ExpandOut) :
    ExpProg (Bool × ExpandOut) := do
  let a ← ExpProg.addr e
  match ownEnvelope unexpanded a with
  | some env => outOwn conf debug unexpanded e env o
  | none =>
    if a.eAddrLdapFlags.ldapSupressor then return (← outSupressor a a.eAddrParents, o)
    else if a.eAddrTerminal then outTerminal conf unexpanded a o
    else return (true, o)

/-- An address of the list; whether the loop goes on.  The addresses that were allocated bound the depth of
    the search for an open path. -/
def outAddress (conf : ExpandConf) (debug : Bool) (unexpanded : Envelope) (e : Nat) (o : ExpandOut) :
    ExpProg (Bool × ExpandOut) := do
  let exp ← get
  match withheld (exp.fresh + 1) e ⟨exp.addrs, o.loopColor⟩ with
  | .error _ => Faulty.fault
  | .ok (held, painted) =>
    set { exp with addrs := painted.heap }
    if held then return (true, { o with loopColor := painted.loopColor, supressed := o.supressed ++ [e] })
    else outOpen conf debug unexpanded e { o with loopColor := painted.loopColor }

def outAddresses (conf : ExpandConf) (debug : Bool) (unexpanded : Envelope) :
    List Nat → ExpandOut → ExpProg (Bool × ExpandOut)
  | [], o => return (true, o)
  | e :: rest, o => do
    match ← outAddress conf debug unexpanded e o with
    | (true, o) => outAddresses conf debug unexpanded rest o
    | (false, o) => return (false, o)

/-! ## Writing -/

/-- The loop over `host_stab`; whether every envelope was written. -/
def writeStab (conf : ExpandConf) (debug : Bool) (unexpanded : Envelope) :
    List (Nat × Envelope) → ExpandOut → ExpProg (Bool × ExpandOut)
  | [], o => return (true, o)
  | (i, env) :: rest, o => do
    if debug then writeStab conf debug unexpanded rest o
    else
      match ← writeOutput conf unexpanded.dfile env with
      | (true, env) => writeStab conf debug unexpanded rest { o.write i (fun _ => env) with envOut := o.envOut + 1 }
      | (false, env) => return (false, o.write i fun _ => env)

/-- The lines of `bounce_dfile_out` in front of the message. -/
def bounceDfileText (conf : ExpandConf) (env : Envelope) (daytime : Text) : List Text :=
  ["From: <mailer-daemon@".toList ++ conf.hostname ++ ">".toList] ++ env.eRcpt.map (bounceTo conf.toConf) ++
  ["Date: ".toList ++ daytime, "Message-ID: <".toList ++ env.eId ++ "@".toList ++ conf.hostname ++ ">".toList,
    "Subject: undeliverable mail".toList, []] ++ env.eErrText.getD [] ++ [[], [], "Bounced message:".toList, []]

/-- `bounce_dfile_out` with its Dfile open: the inode, if the file is closed well. -/
def bounceDfileClose (env : Envelope) : SpoolProg (Option Nat) := do
  match ← Sys.stat env.dfile with
  | some (ino, _) =>
    if ← Sys.fclose env.dfile then return some ino
    else
      let _ ← envDfileUnlink env
      return none
  | none =>
    let _ ← Sys.fclose env.dfile
    let _ ← envDfileUnlink env
    return none

/-- `bounce_dfile_out`, with what `strftime` makes of the time for an envelope; the outer `none` is the
    `fclose` of a stream that was never opened. -/
def bounceDfileOut (conf : ExpandConf) (daytime : Text → Text) (env : Envelope) (message : List Text) : SpoolProg (Option (Option Nat)) := do
  if ← Sys.creat env.dfile then
    if ← Sys.fdopen env.dfile then
      if ← Sys.localtime then
        printAll env.dfile (bounceDfileText conf env (daytime env.eId) ++ message)
        return some (← bounceDfileClose (env.setDfile true))
      else
        let _ ← Sys.fclose env.dfile
        let _ ← envDfileUnlink (env.setDfile true)
        return some none
    else return some none
  else return none

/-- The message from its first line on, when it is read once more; it is opened for the first error. -/
def openMessage (unexpanded : Envelope) : Option (List Text) → ExpProg (Option (List Text))
  | none => ExpProg.files (Sys.read unexpanded.dfile)
  | some lines => do
    if ← ExpProg.ask .lseek then return some lines
    else Faulty.fault

/-- An error envelope with something to say; whether it was written. -/
def writeError (conf : ExpandConf) (daytime : Text → Text) (env : Envelope) (message : List Text) : ExpProg (Bool × Envelope) := do
  match ← ExpProg.files (bounceDfileOut conf daytime env message) with
  | none => Faulty.fault
  | some none =>
    let _ ← ExpProg.ask .snetClose
    return (false, env)
  | some (some ino) =>
    match ← ExpProg.files (envOutfile conf.toConf { env with eDinode := ino, eErrText := none }) with
    | none => Faulty.fault
    | some (0, env) =>
      let _ ← ExpProg.ask (.queueEnvelope env.eId)
      return (true, env)
    | some (_, env) =>
      let _ ← ExpProg.files (Sys.unlink env.dfile)
      return (false, env)

/-- The loop over the error envelopes, of which those that have no error are freed; whether all went well, the
    ones that are kept, and the message if it was opened. -/
def writeErrors (conf : ExpandConf) (debug : Bool) (daytime : Text → Text) (unexpanded : Envelope) :
    List ErrorEnv → Option (List Text) → ExpProg (Bool × List Envelope × Option (List Text))
  | [], snet => return (true, [], snet)
  | b :: rest, snet => do
    if debug ∨ b.eError = false then writeErrors conf debug daytime unexpanded rest snet
    else
      match ← openMessage unexpanded snet with
      | none => return (false, [b.env], none)
      | some message =>
        match ← writeError conf daytime b.env message with
        | (false, env) => return (false, [env], some message)
        | (true, env) =>
          let (ok, kept, snet) ← writeErrors conf debug daytime unexpanded rest (some message)
          return (ok, env :: kept, snet)

/-! ## Cleanup -/

/-- An envelope that was written is taken back. -/
def unwindEnvelope (env : Envelope) : ExpProg Unit := do
  if env.eFlags.efile then
    let _ ← ExpProg.ask (.queueRemove env.eId)
    let _ ← ExpProg.files (envUnlink env)

def unwindEnvelopes : List Envelope → ExpProg Unit
  | [] => return
  | env :: rest => do
    unwindEnvelope env
    unwindEnvelopes rest

/-- The label `cleanup3`: the moderated envelopes of the members-only groups are taken back. -/
def unwindModerated (o : ExpandOut) : List Nat → ExpProg Unit
  | [] => return
  | g :: rest => do
    let a ← ExpProg.addr g
    match (if a.eAddrEnvGmailfwd = none ∧ a.eAddrEnvModerated ≠ none then o.sent.lookup g else none) with
    | none => unwindModerated o rest
    | some env =>
      if env.eFlags.efile then
        let _ ← ExpProg.files (envUnlink env)
        unwindModerated o rest
      else unwindModerated o rest

/-- How `expand` ends: its result, the envelopes of `host_stab`, and the addresses that were suppressed. -/
structure ExpandEnd where
  returnValue : Int
  hostStab : List Envelope
  supressed : List Nat

/-- The label `cleanup3`. -/
def cleanup3 (o : ExpandOut) : ExpProg ExpandEnd := do
  unwindModerated o (← get).expMemonly
  return ⟨1, o.hostStab.map Prod.snd, o.supressed⟩

/-- The label `cleanup4`. -/
def cleanup4 (o : ExpandOut) : ExpProg ExpandEnd := do
  unwindEnvelopes (o.hostStab.map Prod.snd)
  cleanup3 o

/-- The label `cleanup5`; `kept` are the error envelopes that are not freed. -/
def cleanup5 (kept : List Envelope) (o : ExpandOut) : ExpProg ExpandEnd := do
  unwindEnvelopes kept
  unwindEnvelopes ((← get).expGmailfwding.filterMap fun e => o.sent.lookup e)
  cleanup4 o

/-- The end of `expand`, once everything is written: the original message is removed. -/
def expandRemove (unexpanded : Envelope) (kept : List Envelope) (o : ExpandOut) : ExpProg ExpandEnd := do
  if ← ExpProg.files (Sys.utime unexpanded.dfile) then
    let truncated ← (if unexpanded.eDir = .fast then pure true else ExpProg.files (Sys.ftruncate unexpanded.efile))
    if truncated then
      let _ ← ExpProg.files (envUnlink unexpanded)
      return ⟨0, o.hostStab.map Prod.snd, o.supressed⟩
    else cleanup5 kept o
  else cleanup5 kept o

/-- `expand` behind its loop over `host_stab`.  A message that cannot be closed is followed by a use of the last
    error envelope, of which there is none any more. -/
def expandErrors (conf : ExpandConf) (debug : Bool) (daytime : Text → Text) (unexpanded : Envelope) (o : ExpandOut) :
    ExpProg ExpandEnd := do
  match ← writeErrors conf debug daytime unexpanded (← get).expErrors.reverse none with
  | (false, kept, _) => cleanup5 kept o
  | (true, kept, snet) =>
    let closed ← (if snet = none then pure true else ExpProg.ask .snetClose)
    if closed then
      if debug then return ⟨0, o.hostStab.map Prod.snd, o.supressed⟩ else expandRemove unexpanded kept o
    else Faulty.fault

/-! ## The function -/

/-- `expand` behind the members-only groups. -/
def expandOut (conf : ExpandConf) (debug : Bool) (daytime : Text → Text) (unexpanded : Envelope) (loopColor : Nat) :
    ExpProg ExpandEnd := do
  match ← outAddresses conf debug unexpanded (← get).list ⟨loopColor, [], none, 0, [], []⟩ with
  | (false, o) => cleanup3 o
  | (true, o) =>
    match ← writeStab conf debug unexpanded o.hostStab o with
    | (false, o) => cleanup4 o
    | (true, o) => expandErrors conf debug daytime unexpanded o

/-- `expand` behind its loop. -/
def expandMemonly (conf : ExpandConf) (debug : Bool) (daytime : Text → Text) (unexpanded : Envelope) :
    ExpProg ExpandEnd := do
  let exp ← get
  match (memonlyLoop (exp.fresh + 1) exp.expMemonly ⟨exp.addrs, 1⟩).2 with
  | .error _ => Faulty.fault
  | .ok painted =>
    set { exp with addrs := painted.heap }
    expandOut conf debug daytime unexpanded painted.loopColor

/-- `expand`, with at most `n` rounds of its loop; `debug` is `simta_expand_debug`. -/
def expand (conf : ExpandConf) (debug : Bool) (daytime : Text → Text) (n : Nat) (unexpanded : Envelope) :
    ExpProg (Option ExpandEnd) := do
  if unexpanded.eHostname ≠ none then return some ⟨0, [], []⟩
  else
    modify fun exp => Expand.init unexpanded exp.hosts
    match ← expandWork conf n with
    | none => return none
    | some false => return some ⟨1, [], []⟩
    | some true => return some (← expandMemonly conf debug daytime unexpanded)

end Simta
