import Simta.EnvMove
import Simta.Smtp

/-!
# A delivery attempt

The part of `queue.c` that delivers one envelope of a host queue: the choice of the next host, the
dialogues with the hosts, the local mailer, and what becomes of the envelope afterwards.

* `nextDnsrHost`, `deliverRemote`, `deliverLocal`;
* `qAttempt`, `qFinish`, `qMessageCleanup` — the three parts of the loop of `_q_deliver`, and
  `qDeliver`, its body for one envelope.
-/

set_option autoImplicit false

namespace Simta

/-! ## The next host -/

/-- `env_clear_errors`. -/
def Envelope.clearErrors (env : Envelope) : Envelope :=
  { env with
    eErrText := none
    eFlags := { env.eFlags with bounce := false, tempfail := false }
    eRcpt := env.eRcpt.map fun r => { r with rStatus := .tempfail, rErrText := none } }

/-- `get_mx`: the answers, or `none` for `NULL`; our own name among them goes to the host table. -/
def outboundMx (conf : DeliverConf) (hostname : Text) : Dlv (Option (List MxAnswer)) := do
  match ← Dlv.ask (.dnsMx hostname) with
  | none => return none
  | some answers =>
    let alloc ← Dlv.ask .redAlloc
    let d ← get
    let t := getMxTable conf.toMxConf alloc (answers.map MxAnswer.rr) d.hosts
    set { d with hosts := t.2 }
    return if t.1 then some answers else none

/-- The first answer that names this host or the secondary exchanger: its preference. -/
def mxCutoff (conf : DeliverConf) : List MxAnswer → Option Nat
  | [] => none
  | a :: rest =>
    match a.rr.rrData with
    | .mx preference exchange =>
      if strcaseEq conf.toMxConf.hostname exchange then some preference
      else if (conf.secondaryMx.map fun s => strcaseEq s exchange).getD false then some preference
      else mxCutoff conf rest
    | _ => mxCutoff conf rest

/-- The host does not exist: its mail is bounced. -/
def hostMissing : Dlv Bool := do
  let d ← get
  if d.hqErrText.isSome || (← Dlv.ask .alloc) then
    modify fun d => { d with hqErrText := some (d.hqErrText.getD []) }
    if ← lineAppend .hq "Host does not exist".toList then
      modify fun d => { d with hqStatus := .bounce, dEnv := d.dEnv.setBounce true }
      return false
    else return false
  else return false

/-- `get_outboud_dns`; `true` for its 0. -/
def getOutboudDns (conf : DeliverConf) : Dlv Bool := do
  let d ← get
  match ← outboundMx conf d.hqHostname with
  | none =>
    modify fun d => { d with hqNoPuntMx := true }
    return false
  | some answers =>
    modify fun d => { d with dDnsrResult := some answers }
    if answers ≠ [] ∧ (answers.length ≠ 1 ∨ (answers.head?.map fun a => a.rr.isCname) ≠ some true) then
      match mxCutoff conf answers with
      | some preference =>
        modify fun d => { d with hqNoPuntMx := true, dMxPreferenceCutoff := preference }
        return true
      | none => return true
    else
      match ← Dlv.ask (.dnsA d.hqHostname) with
      | none =>
        modify fun d => { d with dDnsrResult := none }
        return false
      | some rrs =>
        modify fun d => { d with dDnsrResult := some (rrs.map fun rr => ⟨rr, none⟩) }
        if rrs = [] then hostMissing else return true

/-- What a step of `next_dnsr_host` comes to: an address to try, its return value 1, the addresses of an
    exchanger, the end of the answers, or its `panic`. -/
inductive NextHost
  | found
  | exhausted
  | resolved
  | ended
  | abort
  deriving DecidableEq, Repr

/-- The addresses that spammers use for hosts that are not there. -/
def fakeAddress (ip : Ip) : Bool := ip = ⟨127, 0, 0, 1⟩ || ip = ⟨0, 0, 0, 0⟩

def Rr.address (rr : Rr) : Option Ip :=
  match rr.rrData with
  | .a o₀ o₁ o₂ o₃ => some ⟨o₀, o₁, o₂, o₃⟩
  | _ => none

def tryAddress (ip : Ip) : Dlv NextHost := do
  modify fun d => { d with dSin := ip }
  return .found

/-- The label `retry`: the address under the cursor of the retry list. -/
def retryHost : Dlv NextHost := do
  let d ← get
  match d.dRetryCur.bind fun i => d.dRetryList[i]? with
  | some ip => tryAddress ip
  | none => return .exhausted

/-- The start of the retry list, when there is one. -/
def retryStart : Dlv NextHost := do
  let d ← get
  if d.dRetryList = [] then return .exhausted
  else
    modify fun d => { d with dRetryCur := some 0 }
    retryHost

/-- The loop over the answers from the number `i` on. -/
def nextAnswer (conf : DeliverConf) : List MxAnswer → Int → Dlv NextHost
  | [], i => do
    modify fun d => { d with dCurDnsrResult := i }
    return .ended
  | answer :: rest, i => do
    modify fun d => { d with dCurDnsrResult := i }
    let d ← get
    match answer.rr.rrData with
    | .a o₀ o₁ o₂ o₃ =>
      if d.hqStatus = .down ∧ fakeAddress ⟨o₀, o₁, o₂, o₃⟩ then nextAnswer conf rest (i + 1)
      else tryAddress ⟨o₀, o₁, o₂, o₃⟩
    | .mx preference exchange =>
      if d.hqStatus ≠ .down then nextAnswer conf rest (i + 1)
      else if d.hqNoPuntMx ∧ d.dMxPreferenceCutoff = preference then retryStart
      else
        match answer.rrIp with
        | some ip => tryAddress ip
        | none =>
          match ← Dlv.ask (.dnsA exchange) with
          | none => nextAnswer conf rest (i + 1)
          | some [] => nextAnswer conf rest (i + 1)
          | some (rr :: rrs) =>
            modify fun d => { d with dDnsrResultIp := some (rr :: rrs), dCurDnsrResultIp := -1 }
            return .resolved
    | _ => nextAnswer conf rest (i + 1)

/-- The loop over the addresses of an exchanger. -/
def nextAddress : List Rr → Int → Dlv NextHost
  | [], i => do
    modify fun d => { d with dCurDnsrResultIp := i }
    return .ended
  | rr :: rest, i => do
    modify fun d => { d with dCurDnsrResultIp := i }
    match rr.address with
    | none => nextAddress rest (i + 1)
    | some ip => if fakeAddress ip then nextAddress rest (i + 1) else tryAddress ip

/-- The query of `next_dnsr_host`, when there is no answer yet; `found` when there is one now. -/
def nextQuery (conf : DeliverConf) : Dlv NextHost := do
  let d ← get
  match d.dDnsrResult with
  | some _ => return .found
  | none =>
    modify fun d => { d with hqNoPuntMx := false, dMxPreferenceCutoff := 0, dCurDnsrResult := 0 }
    match d.hqStatus with
    | .down =>
      if ← getOutboudDns conf then
        modify fun d => { d with dCurDnsrResult := -1 }
        return .found
      else return .exhausted
    | .puntDown =>
      match ← Dlv.ask (.dnsA (conf.puntHost.getD [])) with
      | none => return .exhausted
      | some rrs =>
        modify fun d => { d with dDnsrResult := some (rrs.map fun rr => ⟨rr, none⟩) }
        if rrs = [] then return .exhausted
        else
          modify fun d => { d with dCurDnsrResult := -1 }
          return .found
    | _ => return .abort

/-- The step on the retry list: a host that moved nothing falls off, else the next one is due. -/
def retryNext (i : Nat) : Dlv NextHost := do
  let d ← get
  if d.dQueueMovement then
    modify fun d => { d with dRetryCur := if i + 1 < d.dRetryList.length then some (i + 1) else some 0 }
    retryHost
  else
    let list := d.dRetryList.eraseIdx i
    modify fun d => { d with
      dRetryList := list
      dRetryCur := if i < list.length then some i else if list = [] then none else some 0 }
    if list = [] then return .exhausted else retryHost

/-- The part of `next_dnsr_host` behind the retry list. -/
def nextHost (conf : DeliverConf) : Dlv NextHost := do
  let d ← get
  if conf.aggressiveDelivery ∧ d.dQueueMovement then
    if ← Dlv.ask .alloc then
      modify fun d => { d with dRetryList := d.dRetryList ++ [d.dSin] }
  let step ← match d.dDnsrResultIp with
    | some _ => pure .resolved
    | none =>
      let i := d.dCurDnsrResult + 1
      nextAnswer conf ((d.dDnsrResult.getD []).drop i.toNat) i
  match step with
  | .resolved =>
    let d ← get
    let i := d.dCurDnsrResultIp + 1
    match ← nextAddress ((d.dDnsrResultIp.getD []).drop i.toNat) i with
    | .found => return .found
    | _ => retryStart
  | .ended => retryStart
  | step => return step

/-- `next_dnsr_host`. -/
def nextDnsrHost (conf : DeliverConf) : Dlv NextHost := do
  match ← nextQuery conf with
  | .found =>
    let d ← get
    match d.dRetryCur with
    | some i => retryNext i
    | none => nextHost conf
  | step => return step

/-- The end of `next_dnsr_host_lookup`. -/
def dnsExhausted : Dlv NextHost := do
  modify fun d => { d with dDnsrResult := none }
  return .exhausted

/-- What `next_dnsr_host_lookup` makes of a step, with `next` for its next turn. -/
def lookupAfter (next : Dlv NextHost) : NextHost → Dlv NextHost
  | .found => do
    modify fun d => { d with dQueueMovement := false }
    return .found
  | .abort => return .abort
  | _ => do
    let d ← get
    if d.dDnsrResultIp.isSome then
      modify fun d => { d with dDnsrResultIp := none }
      next
    else dnsExhausted

def lookupLoop (conf : DeliverConf) : Nat → Dlv NextHost
  | 0 => dnsExhausted
  | n + 1 => do lookupAfter (lookupLoop conf n) (← nextDnsrHost conf)

/-- `next_dnsr_host_lookup`: each turn but the first has passed an answer, so their number bounds the
    turns. -/
def nextDnsrHostLookup (conf : DeliverConf) : Dlv NextHost := do
  let again := do
    let d ← get
    lookupLoop conf ((d.dDnsrResult.getD []).length + 1)
  lookupAfter again (← nextDnsrHost conf)

/-! ## The dialogues with the hosts -/

/-- How a function of the delivery ends: it returns, the process ends by `abort`, `assert` or `panic`, or
    it is still running after as many hosts as were allowed. -/
inductive DlvRet
  | done
  | abort
  | running
  deriving DecidableEq, Repr

/-- What a new transaction starts from. -/
def dialogueStart : Dlv Unit := modify fun d =>
  { d with
    dEnv := d.dEnv.clearErrors
    dNRcptAccepted := 0
    dNRcptFailed := 0
    dNRcptTempfailed := 0
    dSent := 0
    log.dialogues := ⟨[], none⟩ :: d.log.dialogues }

/-- The queue has moved: a recipient has its final answer. -/
def moved (d : Deliver) : Bool := decide (d.dNRcptFailed ≠ 0) || d.dDelivered && decide (d.dNRcptAccepted ≠ 0)

/-- The label `smtp_cleanup`; `next` goes on to the next host. -/
def smtpCleanup (conf : DeliverConf) (fuel : Nat) (movement : Bool) (next : Dlv DlvRet) (ret : SmtpRet) :
    Dlv DlvRet := do
  if ret = .error then smtpQuit conf fuel
  modify fun d => { d with dSnetSmtp := none }
  let d ← get
  if d.hqStatus = .bounce then return .done
  else if d.hqStatus = .down ∧ movement then
    modify fun d => { d with hqStatus := .mx }
    return .done
  else
    if d.hqStatus = .puntDown then modify fun d => { d with hqErrText := none }
    if ← Dlv.ask .dfileSeek then next else return .done

/-- A transaction over the connection. -/
def dialogue (conf : DeliverConf) (fuel : Nat) (movement : Bool) (next : Bool → Dlv DlvRet) :
    Dlv DlvRet := do
  dialogueStart
  if ← Dlv.ask .dfileSeek then
    let ret ← smtpSend conf fuel
    let d ← get
    if moved d then
      modify fun d => { d with dQueueMovement := true }
      let _ ← Dlv.ask .gettimeofday
    let movement := movement || moved d
    match ret with
    | .ok =>
      match d.hqStatus with
      | .down =>
        modify fun d => { d with hqStatus := .mx }
        return .done
      | .puntDown =>
        modify fun d => { d with dEnv := d.dEnv.clearErrors, hqStatus := .punt }
        return .done
      | _ => return .abort
    | .abort => return .abort
    | ret => smtpCleanup conf fuel movement (next movement) ret
  else return .abort

/-- The loop of `deliver_remote`. -/
def remoteLoop (conf : DeliverConf) (fuel : Nat) : Nat → Bool → Dlv DlvRet
  | 0, _ => return .running
  | n + 1, movement => do
    let d ← get
    match d.dSnetSmtp with
    | none =>
      match ← nextDnsrHostLookup conf with
      | .found =>
        if ← Dlv.ask .socket then
          let d ← get
          if ← Dlv.ask (.connect d.dSin) then
            if ← Dlv.ask .attach then
              modify fun d => { d with
                dSnetSmtp := some (snetAttach (1024 * 1024))
                hqErrText := none }
              match ← smtpConnect conf fuel with
              | .ok => dialogue conf fuel movement (remoteLoop conf fuel n)
              | .abort => return .abort
              | ret => smtpCleanup conf fuel movement (remoteLoop conf fuel n movement) ret
            else remoteLoop conf fuel n movement
          else remoteLoop conf fuel n movement
        else remoteLoop conf fuel n movement
      | .abort => return .abort
      | _ => return .done
    | some _ =>
      match ← smtpRset conf fuel with
      | .ok => dialogue conf fuel movement (remoteLoop conf fuel n)
      | .abort => return .abort
      | ret => smtpCleanup conf fuel movement (remoteLoop conf fuel n movement) ret

/-- `deliver_remote`. -/
def deliverRemote (conf : DeliverConf) (fuel : Nat) : Dlv DlvRet := do
  match ← Dlv.ask .gettimeofday with
  | none => return .done
  | some _ =>
    let d ← get
    match d.hqStatus with
    | .mx =>
      modify fun d => { d with hqStatus := .down }
      remoteLoop conf fuel fuel false
    | .punt =>
      modify fun d => { d with hqStatus := .puntDown }
      remoteLoop conf fuel fuel false
    | _ => return .abort

/-! ## The local mailer -/

def exTempfail : Int := 75
def exDataerr : Int := 65
def exNouser : Int := 67

/-- The status that an exit code of the mailer stands for. -/
def mailerStatus (mlError : Int) : RStatus :=
  if mlError = 0 then .accepted
  else if mlError = exDataerr ∨ mlError = exNouser then .failed
  else .tempfail

/-- The loop of `deliver_local` from the recipient number `i` on. -/
def deliverLocalLoop (conf : DeliverConf) : List Recipient → Nat → Dlv Unit
  | [], _ => return ()
  | r :: rest, i => do
    modify fun d => { d with dRcpt := i }
    let mlError ←
      if ← Dlv.ask .dfileSeek then do
        modify fun d => { d with
          dDeliverArgv := if d.dDeliverArgv = [] then conf.deliverDefaultArgv else d.dDeliverArgv }
        let d ← get
        Dlv.ask (.deliverBinary d.dDeliverArgv r.rRcpt)
      else pure exTempfail
    noteRcpt (mailerStatus mlError)
    modify fun d => { d with log.locals := d.log.locals ++ [(i, mlError)] }
    deliverLocalLoop conf rest (i + 1)

/-- `deliver_local`. -/
def deliverLocal (conf : DeliverConf) : Dlv Unit := do
  let d ← get
  deliverLocalLoop conf d.dEnv.eRcpt 0
  modify fun d => { d with dDelivered := true }

/-! ## Bounces -/

/-- The numbers of the recipients that a bounce of the envelope names. -/
def bouncedNumbers (env : Envelope) : List Nat :=
  (List.range env.eRcpt.length).filter fun i => (env.eRcpt[i]?.map (bouncing env)).getD false

/-- The lines of a file of `dSize` bytes behind what the buffer holds. -/
def lineBound (d : Deliver) : Nat := d.dSize + (d.dSnetDfile.map fun sn => sn.snBuf.length).getD 0 + 1

/-- The text of the message in a bounce. -/
def bounceCopy (b : Envelope) : Dlv Unit := do
  readingStart
  let d ← get
  copyMessage dfileGetline
    (fun line => do
      let _ ← Dlv.files (Sys.print b.dfile line)
      readingLine line)
    (lineBound d)
  readingEnd

/-- `bounce_snet( env, sn, deliver_q, NULL )`; the outer `none` is the `panic` of `env_outfile`. -/
def bounceSnet (conf : DeliverConf) : Dlv (Option (Option Envelope)) := do
  match ← Dlv.ask .envId with
  | none => return some none
  | some id =>
    if ← Dlv.ask .alloc then
      let daytime ← Dlv.ask .daytime
      let d ← get
      let b := bounceEnvelope conf.toConf d.dEnv id
      let text := bounceText conf.toConf d.dEnv b (some ⟨d.hqHostname, d.hqErrText⟩) none daytime
        d.dSnetDfile.isSome
      if ← Dlv.files (bounceReport b text) then
        if d.dSnetDfile.isSome then bounceCopy b
        Dlv.files (bounceClose conf.toConf b)
      else return some none
    else return some none

/-! ## The loop of `_q_deliver` -/

/-- The envelope is made ready: `true` when its Dfile is open and its size known. -/
def qOpen (env : Envelope) : Dlv Bool := do
  modify fun d => { d with
    dEnv := env
    dNRcptAccepted := 0
    dNRcptFailed := 0
    dNRcptTempfailed := 0
    dDelivered := false
    dUnlinked := false
    dSize := 0
    dSent := 0
    dSnetDfile := none
    log := ⟨[], [], [], none⟩ }
  if ← Dlv.ask .dfileOpen then
    match ← Dlv.ask .dfileStat with
    | some size =>
      modify fun d => { d with dSize := size }
      return true
    | none => return false
  else return false

/-- Where the loop goes after the attempt: on, to `message_cleanup`, or out of the function. -/
inductive Attempt
  | finish
  | cleanup
  | puntDown
  | abort
  | running
  deriving DecidableEq, Repr

def jailed (conf : DeliverConf) (env : Envelope) : Bool := conf.mailJail && env.eJail = envJailPrisoner

/-- The delivery to other hosts. -/
def qRemote (conf : DeliverConf) (fuel : Nat) : Dlv Attempt := do
  let d ← get
  if jailed conf d.dEnv then return .finish
  else if ← Dlv.ask .attach then
    modify fun d => { d with dSnetDfile := some (snetAttach (1024 * 1024)) }
    match ← deliverRemote conf fuel with
    | .abort => return .abort
    | .running => return .running
    | .done =>
      let d ← get
      if d.hqStatus = .puntDown then return .puntDown else return .finish
  else return .cleanup

/-- The `switch` on the status of the host queue. -/
def qAttempt (conf : DeliverConf) (fuel : Nat) : Dlv Attempt := do
  let d ← get
  match d.hqStatus with
  | .loc =>
    if jailed conf d.dEnv then return .finish
    else
      modify fun d => { d with dDeliverArgv := d.hqRedDeliverArgv.getD d.dDeliverArgv }
      deliverLocal conf
      return .finish
  | .mx | .punt => qRemote conf fuel
  | .supressed | .down => return .finish
  | .bounce =>
    modify fun d => { d with dEnv := d.dEnv.setBounce true }
    return .finish
  | .bitbucket =>
    modify fun d => { d with dDelivered := true, dNRcptAccepted := d.dEnv.eNRcpt.toNat }
    return .finish
  | .unknown | .null | .puntDown => return .abort

/-- `env_is_old`. -/
def envIsOld (conf : DeliverConf) : Dlv Bool := do
  let d ← get
  if d.dEnv.eAge = .unknown then
    match ← Dlv.ask .dfileMtime with
    | none => return false
    | some mtime =>
      match ← Dlv.ask .gettimeofday with
      | none => return false
      | some now =>
        if conf.bounceSeconds > 0 then
          modify fun d => { d with
            dEnv.eAge := if now - mtime > conf.bounceSeconds then .old else .notOld }
  let d ← get
  return d.dEnv.eAge = .old

/-- `n_rcpt_remove`. -/
def nRcptRemove (d : Deliver) : Int :=
  if d.dDelivered then d.dNRcptFailed + d.dNRcptAccepted
  else if d.dEnv.eFlags.bounce then d.dEnv.eNRcpt
  else d.dNRcptFailed

/-- `env_truncate_and_unlink`; `lock` when the Efile is held open. -/
def envTruncateAndUnlink (env : Envelope) (lock : Bool) : SpoolProg (Int × Envelope) := do
  if lock then
    if ← Sys.ftruncate env.efile then
      let (_, env) ← envUnlink env
      return (0, env)
    else envUnlink env
  else envUnlink env

/-- The recipients that the rewritten Efile keeps. -/
def keeps (delivered : Bool) (r : Recipient) : Bool :=
  !(delivered && decide (r.rStatus = .accepted) || decide (r.rStatus = .failed))

/-- The envelope without the recipients that were delivered or hard failed. -/
def Envelope.removeRcpts (env : Envelope) (delivered : Bool) : Envelope :=
  { env with
    eRcpt := env.eRcpt.filter (keeps delivered)
    eNRcpt := env.eNRcpt - ((env.eRcpt.length - (env.eRcpt.filter (keeps delivered)).length : Nat) : Int) }

/-- What the part before `message_cleanup` comes to: the bounce that is still to be unwound, or the end
    of the process. -/
inductive Finish
  | cleanup (bounce : Option Envelope)
  | abort
  deriving DecidableEq

/-- The bounce of the message or of the failed recipients, when there is one to make; the flag is whether
    the loop goes on. -/
def qBounce (conf : DeliverConf) : Dlv (Option (Bool × Option Envelope)) := do
  let d ← get
  if d.dEnv.eFlags.bounce ∨ d.dNRcptFailed ≠ 0 then
    if ← Dlv.ask .dfileSeek then
      match d.dSnetDfile with
      | none =>
        if ← Dlv.ask .attach then
          modify fun d => { d with dSnetDfile := some (snetAttach (1024 * 1024)) }
      | some _ => if !(← Dlv.ask .dfileSeek) then return none
      match ← bounceSnet conf with
      | none => return none
      | some none => return some (false, none)
      | some (some b) =>
        modify fun d => { d with log.bounce := some (bouncedNumbers d.dEnv) }
        return some (true, some b)
    else return none
  else return some (true, none)

/-- The Efile is written again without the recipients that are done. -/
def qRewrite (conf : DeliverConf) (bounce : Option Envelope) : Dlv (Bool × Finish) := do
  modify fun d => { d with dEnv := d.dEnv.removeRcpts d.dDelivered }
  let d ← get
  if d.dEnv.eNRcpt > 0 then
    match ← Dlv.files (envOutfile conf.toConf d.dEnv) with
    | none => return (false, .abort)
    | some (0, env) =>
      modify fun d => { d with dEnv := env }
      if env.eDir = .fast then
        -- overwrote fast file, not created a new one
        Dlv.files (Sys.addFastFiles (-1))
      if (← Dlv.files Sys.fastCount) ≥ 0 then return (true, .cleanup bounce) else return (false, .abort)
    | some (_, env) =>
      modify fun d => { d with dEnv := env }
      return (false, .cleanup bounce)
  else return (false, .abort)

/-- `_q_deliver` from the attempt to `message_cleanup`, with whether the envelope is to be touched. -/
def qFinish (conf : DeliverConf) (lock : Bool) : Dlv (Bool × Finish) := do
  let d ← get
  if d.hqPrimary ∧ d.dQueueMovement then modify fun d => { d with leakyQueue := true }
  let remove := nRcptRemove d
  if remove ≠ d.dEnv.eNRcpt then
    if ← envIsOld conf then modify fun d => { d with dEnv := d.dEnv.setBounce true }
  match ← qBounce conf with
  | none => return (false, .abort)
  | some (false, bounce) => return (false, .cleanup bounce)
  | some (true, bounce) =>
    let d ← get
    let (ok, touch, finish) ←
      if d.dEnv.eFlags.bounce ∨ remove = d.dEnv.eNRcpt then do
        let (ret, env) ← Dlv.files (envTruncateAndUnlink d.dEnv lock)
        modify fun d => { d with dEnv := env, dUnlinked := decide (ret = 0) }
        pure (decide (ret = 0), false, Finish.cleanup bounce)
      else if remove ≠ 0 then do
        let (ok, finish) ← qRewrite conf bounce
        pure (ok, false, finish)
      else pure (true, decide (d.dNRcptAccepted ≠ 0), Finish.cleanup bounce)
    match finish, ok, bounce with
    | .abort, _, _ => return (touch, .abort)
    | .cleanup _, true, some b =>
      let _ ← Dlv.ask (.queueEnvelope b.eId)
      return (touch, .cleanup none)
    | finish, _, _ => return (touch, finish)

/-- The label `message_cleanup`; the answer is what `touch` holds for the next envelope. -/
def qMessageCleanup (conf : DeliverConf) (touch first : Bool) (bounce : Option Envelope) : Dlv Bool := do
  let d ← get
  let touching := (touch || first) && decide (d.dEnv.eDir = .slow) && !d.dUnlinked
  if touching then
    if ← Dlv.files (Sys.utime d.dEnv.efile) then
      let _ ← Dlv.ask .gettimeofday
  match bounce with
  | some b =>
    let (ret, _) ← Dlv.files (envUnlink b)
    if ret = 0 then modify fun d => { d with log.bounce := none }
  | none => pure ()
  if !d.dUnlinked then
    if conf.puntHost.isSome ∧ ¬ d.hqIsPuntQ ∧ ¬ d.hqNoPuntMx ∧ ¬ d.hqNoPuntConfig then
      modify fun d => { d with dEnv := d.dEnv.clearErrors.setPunt true }
      let _ ← Dlv.ask (.queueEnvelope d.dEnv.eId)
    else
      let _ ← Dlv.files (envMove d.dEnv .slow)
  return if touching then false else touch

/-- How `_q_deliver` is done with an envelope: it goes on to the next one, it returns because the punt
    host is down, or the process has ended or is still running. -/
inductive Delivered
  | next (touch : Bool)
  | puntDown
  | abort
  | running
  deriving DecidableEq, Repr

/-- The body of the loop of `_q_deliver` for an envelope with its recipients. -/
def qDeliver (conf : DeliverConf) (fuel : Nat) (env : Envelope) (lock touch first : Bool) :
    Dlv Delivered := do
  if ← qOpen env then
    match ← qAttempt conf fuel with
    | .abort => return .abort
    | .running => return .running
    | .cleanup => return .next (← qMessageCleanup conf touch first none)
    | .puntDown =>
      -- the transaction with the punt host failed: the envelope is queued again
      modify fun d => { d with dEnv := d.dEnv.clearErrors.setPunt true }
      let _ ← Dlv.ask (.queueEnvelope env.eId)
      return .puntDown
    | .finish =>
      match ← qFinish conf lock with
      | (_, .abort) => return .abort
      | (more, .cleanup bounce) => return .next (← qMessageCleanup conf (touch || more) first bounce)
  else return .next (← qMessageCleanup conf touch first none)

end Simta
