import Simta.Bounce
import Simta.Data
import Simta.Rcpt

/-!
# DATA

`f_data`: the checks in front of the text, the loop that reads it, the content filter, and what is made
of the verdict of the filter.

* `dataOpen` — the checks, and the Dfile with its Received header;
* `dataLoopRead` — the loop of `dataLoop`, with the lines that it read;
* `dataFront` — `f_data` up to the first test of `filter_result`;
* `dataActs`, `dataReply` — what it does with the message by that result, and the reply;
* `fData` — the command.
-/

set_option autoImplicit false

namespace Simta

/-! ## The result of a filter -/

def messageAccept : Nat := 0
def messageDisconnect : Nat := 8
def messageTarpit : Nat := 16
def messageJail : Nat := 32
def messageBounce : Nat := 64

/-- `result & flag`, for a flag of one bit. -/
def hasFlag (result flag : Nat) : Bool := decide (result &&& flag ≠ 0)

/-! ## Texts -/

def s451Message : Text := "Message Tempfailed".toList
def s554Message : Text := "Message Failed".toList
def sTimeout : Text := "Connection length exceeded".toList
def sClosing : Text := "closing transmission channel".toList
def sLocalPolicies : Text := "This message was rejected based on local content policies".toList

/-! ## The label `error` -/

def setEnv (env : Envelope) : Recv Unit := modify fun r => { r with rEnv := some env }

/-- A failure behind the reply turns a success into an error. -/
def RecvRet.failed (ret : RecvRet) : RecvRet := if ret = .ok then .syserror else ret

/-- One of the calls behind the label `error`. -/
def dataCleanup (there : Bool) (unlink : Envelope → SpoolProg (Int × Envelope)) (env : Envelope) (ret : RecvRet) :
    Recv (RecvRet × Envelope) := do
  if there then
    match ← Recv.files (unlink env) with
    | (0, env) => return (ret, env)
    | (_, env) => return (ret.failed, env)
  else return (ret, env)

/-- A system error is kept for the next command once the reply is written. -/
def dataReturn (banner : Bool) (ret : RecvRet) : Recv RecvRet := do
  if banner ∧ ret = .syserror then
    setSmtpMode .off
    return .ok
  else return ret

/-- The label `error`; `banner` holds behind the reply, `dff` while the Dfile is open. -/
def dataError (env : Envelope) (dff banner : Bool) (ret : RecvRet) : Recv RecvRet := do
  let closed ← if dff then Recv.files (Sys.fclose env.dfile) else pure true
  let ret := if closed then ret else ret.failed
  if env.eFlags.efile then
    setEnv env
    dataReturn banner ret
  else
    let (ret, env) ← dataCleanup env.eFlags.dfile envDfileUnlink env ret
    let (ret, env) ← dataCleanup env.eFlags.tfile envTfileUnlink env ret
    Recv.log (.abandoned env)
    modify fun r => { r with rEnv := none }
    dataReturn banner ret

/-! ## In front of the text -/

/-- The Received header of the Dfile. -/
def receivedHeader (conf : RecvConf) (r : ReceiveData) (env : Envelope) (daytime : Text) : List Text :=
  ["Received: FROM ".toList ++ r.rHello.getD "NULL".toList ++ " (".toList ++
      r.rRemoteHostname.getD "(null)".toList ++ " [".toList ++ r.rSin ++ "])".toList,
    "\tBy ".toList ++ conf.hostname ++ " ID ".toList ++ env.eId ++ " ;".toList] ++
  (if conf.sasl then ["\tAuthuser ".toList ++ r.rAuthId.getD "(null)".toList ++ ";".toList] else []) ++
  ["\t".toList ++ daytime]

/-- What the part in front of the text comes to. -/
inductive DataOpen
  | returned (ret : RecvRet)
  | text (env : Envelope) (dff : Bool)

/-- The Dfile is opened and its Received header written. -/
def dataOpenDfile (conf : RecvConf) (env : Envelope) : Recv DataOpen := do
  let (opened, env) ← Recv.files (envDfileOpen env)
  setEnv env
  if opened then
    if ← Recv.files (Sys.fdopen env.dfile) then
      Recv.log .dfile
      let daytime ← Recv.ask .daytime
      let larger ← if conf.smtpRcvbufMin ≠ 0 then Recv.ask .setsockopt else pure true
      if larger then
        let r ← get
        if ← Recv.files (printLines env.dfile (receivedHeader conf r env daytime)) then return .text env true
        else return .returned (← dataError env true false .syserror)
      else return .returned (← dataError env true false .syserror)
    else return .returned (← dataError env false false .syserror)
  else return .returned .syserror

/-- The checks of `f_data`; there is no Dfile in the tarpit. -/
def dataOpen (conf : RecvConf) : Recv DataOpen := do
  let r ← get
  if r.rSmtpMode = .off then return .returned (← smtpWriteBanner conf 421 (some s421Decline) none)
  else if r.rAv.length ≠ 1 then
    return .returned (← smtpWriteBanner conf 501 none
      (some "RFC 2821 section 4.1.1.1 \"DATA\" CRLF".toList))
  else
    match r.rEnv with
    | none => return .returned (← fBadSequence conf)
    | some env =>
      if env.eFlags.efile then return .returned (← fBadSequence conf)
      else if env.eRcpt = [] then
        return .returned (← smtpWriteBanner conf 554 none (some "No valid recipients".toList))
      else
        match r.rSmtpMode with
        | .off => return .returned .syserror
        | .tempfail => return .returned (← smtpWriteBanner conf 451 (some s451Decline) none)
        | .noauth => return .returned (← smtpWriteBanner conf 530 none none)
        | .refuse => return .returned (← fBadSequence conf)
        | .tarpit => return .text env false
        | .globalRelay | .normal => dataOpenDfile conf env

/-! ## The text -/

/-- `dataLoop`, with the lines that it read and the answers of the calls for each. -/
def dataLoopRead {m : Type → Type} [Monad m] (conf : RecvConf) (read : Nat → m ReadResult)
    (ans : Nat → DataAnswers) (session : Option Int) :
    Nat → Snet → DataState → m ((DataEnd × Snet × DataState) × List (DataAnswers × Text))
  | 0, sn, d => return ((.timeLimit, sn, d), [])
  | fuel + 1, sn, d => do
    if sessionOver session d.tvNow then return ((.timeLimit, sn, d), [])
    else
      match ← sn.getline read with
      | (.line line, sn) =>
        if line = dotLine then return ((.dot, sn, (d.clock (ans d.lineNo).now).counted line), [])
        else
          let x ← dataLoopRead conf read ans session fuel sn (dataLine conf (ans d.lineNo) line d)
          return (x.1, (ans d.lineNo, line) :: x.2)
      | (g, sn) => return ((.getline g, sn, d), [])

/-- The variables of `f_data` at the first test of `filter_result`, which is `none` as long as nothing is
    stored there.  `lines` are the lines that were read, kept for the statements alone. -/
structure DataVars where
  env : Envelope
  data : DataState
  filterResult : Option Nat
  tvNow : Int
  lines : List (DataAnswers × Text)

/-- `f_data` up to there: it has returned, or goes on. -/
inductive DataFront
  | returned (ret : RecvRet)
  | verdict (v : DataVars)

/-- The envelope gets the inode number of its Dfile, and the message is accepted so far; an error is the way
    to the label `error`, with whether the Dfile is still open. -/
def dataClosed (env : Envelope) (d : DataState) (ino : Nat) (closed : Bool) : Except Bool (Envelope × DataState) :=
  if closed then .ok ({ env with eDinode := ino }, { d with dff := false, messageBanner := messageAccept })
  else .error false

/-- The Dfile behind the text. -/
def dataStored (env : Envelope) (d : DataState) : Recv (Except Bool (Envelope × DataState)) := do
  if env.eFlags.dfile then
    match ← Recv.files (Sys.stat env.dfile) with
    | none => return .error d.dff
    | some (ino, _) =>
      if d.dff then return dataClosed env d ino (← Recv.files (Sys.fclose env.dfile))
      else return dataClosed env d ino true
  else return .ok (env, d)

/-! ## The filter -/

/-- `sprintf( buf, "%d", r->r_dns_match )`. -/
def reverseNumber : Reverse → Text
  | .matched => "0".toList
  | .error => "1".toList
  | .unknown => "2".toList
  | .mismatch => "3".toList

/-- The environment that `content_filter` gives the filter, without the number of the process, the start of
    the connection and the digest. -/
def filterEnvp (r : ReceiveData) (env : Envelope) : List Text :=
  ["SIMTA_DFILE=".toList ++ (if env.eFlags.dfile then 'D' :: env.eId else []),
    "SIMTA_TFILE=".toList ++ (if env.eFlags.tfile then 't' :: env.eId else []),
    "SIMTA_REMOTE_IP=".toList ++ r.rSin,
    "SIMTA_REMOTE_HOSTNAME=".toList ++ r.rRemoteHostname.getD [],
    "SIMTA_REVERSE_LOOKUP=".toList ++ reverseNumber r.rDnsMatch,
    "SIMTA_SMTP_MAIL_FROM=".toList ++ env.eMail.getD [],
    "SIMTA_SMTP_HELO=".toList ++ r.rHello.getD [],
    "SIMTA_MID=".toList ++ env.eMid.getD [],
    "SIMTA_UID=".toList ++ env.eId,
    "SIMTA_WRITE_BEFORE_BANNER=".toList ++ (if r.rWriteBeforeBanner then "1".toList else "0".toList),
    "SIMTA_AUTH_ID=".toList ++ r.rAuthId.getD []]

/-- The reply behind a filter: what `f_data` has decided stands, and a failure comes before a refusal. -/
def filterBanner (banner result : Nat) : Nat :=
  if banner = messageTempfail ∨ banner = messageReject then banner
  else if hasFlag result messageTempfail then messageTempfail
  else if hasFlag result messageReject then messageReject
  else banner

/-- What the part with the filter comes to: the `panic` of `env_tfile`, the label `error`, or the tests. -/
inductive FilterEnd
  | abort
  | failed (env : Envelope)
  | passed (env : Envelope) (d : DataState) (result : Option Nat)

/-- The temporary file, and the filter on it. -/
def startFilter (env : Envelope) (d : DataState) : Recv FilterEnd := do
  match ← Recv.ask .gettimeofday with
  | none => return .failed env
  | some _ =>
    match ← Recv.files (envTfile { env with eMid := d.rh.rMid }) with
    | none => return .abort
    | some (0, env) =>
      let r ← get
      let (result, message) ← Recv.ask (.contentFilter (filterEnvp r env))
      return .passed env { d with
        messageBanner := filterBanner d.messageBanner result
        filterMessage := d.filterMessage.or message } (some result)
    | some (_, env) => return .failed env

/-- The filter is run on a message with a Dfile. -/
def runFilter (conf : RecvConf) (env : Envelope) (d : DataState) : Recv FilterEnd := do
  if conf.checksumMd then modify fun r => { r with rMdctx := { r.rMdctx with mdStatus := .final } }
  startFilter env d

/-- The filter, where there is one to be run; without one, and in the tarpit, the message is accepted. -/
def dataFilter (conf : RecvConf) (env : Envelope) (d : DataState) : Recv FilterEnd := do
  match conf.mailFilter with
  | none => return .passed env d (some messageAccept)
  | some _ =>
    let r ← get
    if r.rSmtpMode = .tarpit then return .passed env d (some messageAccept)
    else if env.eFlags.dfile then runFilter conf env d
    else return .passed env d none

/-! ## `f_data` up to the verdict -/

/-- The part of `f_data` behind the last line of the text. -/
def dataBehind (conf : RecvConf) (env : Envelope) (d : DataState) (lines : List (DataAnswers × Text)) :
    Recv DataFront := do
  match ← dataStored env d with
  | .error dff => return .returned (← dataError env dff false .syserror)
  | .ok (env, d) =>
    match ← dataFilter conf env d with
    | .abort => return .returned .abort
    | .failed env => return .returned (← dataError env d.dff false .syserror)
    | .passed env d result =>
      setEnv env
      match ← Recv.ask .gettimeofday with
      | none => return .returned (← dataError env d.dff false .syserror)
      | some now => return .verdict ⟨env, d, result, now, lines⟩

/-- The part of `f_data` from the reply 354 on. -/
def dataText (conf : RecvConf) (ans : Nat → DataAnswers) (fuel : Nat) (env : Envelope) (dff : Bool) :
    Recv DataFront := do
  modify fun r => { r with rTvInactivity := 0 }
  if (← smtpWriteBanner conf 354 none none) = .ok then
    match ← Recv.ask .gettimeofday with
    | none => return .returned (← dataError env dff false .syserror)
    | some now =>
      let r ← get
      let ((dend, sn, d), lines) ← dataLoopRead conf (fun len => (Recv.ask (.read len) : Recv ReadResult)) ans
        (dataSession conf r.rTvSession now) fuel r.rSnet (dataStart dff r.rMdctx now)
      let env := if dff then env.setDfile d.dfileFlag else env
      modify fun r => { r with rSnet := sn, rMdctx := d.rMdctx, rEnv := some env }
      match dend with
      | .dot => dataBehind conf env d lines
      | .timeLimit | .getline (.error true) =>
        let _ ← smtpWriteBanner conf 421 (some sTimeout) (some sClosing)
        return .returned (← dataError env d.dff false .closeConnection)
      | .getline _ => return .returned (← dataError env d.dff false .syserror)
  else return .returned (← dataError env dff false .closeConnection)

/-- `f_data` up to the first test of `filter_result`. -/
def dataFront (conf : RecvConf) (ans : Nat → DataAnswers) (fuel : Nat) : Recv DataFront := do
  match ← dataOpen conf with
  | .returned ret => return .returned ret
  | .text env dff => dataText conf ans fuel env dff

/-! ## The verdict -/

/-- `bounce_snet` with the text of the message, which is `none` when it is left out; the outer `none` is the
    `panic` of `env_outfile`. -/
def bounceMessage (conf : RecvConf) (env : Envelope) (body : Option (List Text)) (err : Text) :
    Recv (Option (Option Envelope)) := do
  match ← Recv.ask .envId with
  | none => return some none
  | some id =>
    if ← Recv.ask .alloc then
      let daytime ← Recv.ask .daytime
      let b := bounceEnvelope conf.toConf env id
      if ← Recv.files (bounceReport b (bounceText conf.toConf env b none (some err) daytime body.isSome)) then
        Recv.files (printAll b.dfile (body.getD []))
        Recv.files (bounceClose conf.toConf b)
      else return some none
    else return some none

/-- `bounce`, which reads the text from the Dfile when there is to be one. -/
def bounce (conf : RecvConf) (env : Envelope) (body : Bool) (err : Text) : Recv (Option (Option Envelope)) := do
  if body then
    match ← Recv.files (Sys.read env.dfile) with
    | none => return some none
    | some lines => bounceMessage conf { env with eFlags.bounce := true } (some lines) err
  else bounceMessage conf { env with eFlags.bounce := true } none err

/-- `simta_inbound_accepted_message_timer` for a message that was taken. -/
def acceptedTimer (conf : RecvConf) (now : Int) : Recv Unit := do
  if 0 ≤ conf.inboundAcceptedMessageTimer then
    modify fun r => { r with rTvAccepted := conf.inboundAcceptedMessageTimer + now }

/-- What the verdict makes of a message: the `panic` of `env_outfile`, the label `error`, or the reply. -/
inductive ActsEnd
  | abort
  | failed (env : Envelope)
  | acted (env : Envelope)

/-- `MESSAGE_BOUNCE`; `none` in front of the envelope is the `panic`. -/
def dataBounce (conf : RecvConf) (v : DataVars) (result : Nat) : Recv ActsEnd := do
  if hasFlag result messageBounce then
    let env := v.env
    match ← bounce conf env (env.eFlags.dfile && !hasFlag result messageDelete)
        (v.data.filterMessage.getD sLocalPolicies) with
    | none => return .abort
    | some none => return .failed env
    | some (some b) =>
      let _ ← Recv.ask (.queueEnvelope b.eId)
      Recv.log (.bounced b)
      acceptedTimer conf v.tvNow
      return .acted { env with eFlags.bounce := true }
  else return .acted v.env

/-- A message for the jail host: another host name, and out of jail what is no prisoner. -/
def jailedFor (conf : RecvConf) (env : Envelope) (host : Text) : Envelope :=
  let env := envHostname env host
  if conf.mailJail ∧ ¬ conf.bounceJail then { env with eJail := envJailNoChange } else env

/-- `MESSAGE_JAIL`, for a message with a Dfile where there is a jail host. -/
def dataJail (conf : RecvConf) (env : Envelope) : Recv ActsEnd := do
  if env.eFlags.dfile then
    match conf.jailHost with
    | none => return .acted env
    | some host =>
      match ← Recv.files (envTfileUnlink env) with
      | (0, env) =>
        -- the `strdup` of `env_hostname`
        if env.eHostname = none ∧ host ≠ [] then
          if ← Recv.ask .alloc then return .acted (jailedFor conf env host) else return .failed env
        else return .acted (jailedFor conf env host)
      | (_, env) => return .failed env
  else return .acted env

/-- The message is deleted when it is not accepted. -/
def dataDelete (banner result : Nat) (env : Envelope) : Recv ActsEnd := do
  if (banner = messageTempfail ∨ banner = messageReject ∨ hasFlag result messageDelete ∨
      hasFlag result messageBounce) ∧ env.eFlags.dfile then
    match ← Recv.files (envDfileUnlink env) with
    | (0, env) => return .acted env
    | (_, env) => return .failed env
  else return .acted env

/-- The Efile of a message that still has its Dfile. -/
def dataOutfile (conf : RecvConf) (now : Int) (env : Envelope) : Recv ActsEnd := do
  if env.eFlags.dfile then
    match ← Recv.files (envOutfile conf.toConf env) with
    | none => return .abort
    | some (0, env) =>
      acceptedTimer conf now
      Recv.log (.stored env)
      return .acted env
    | some (_, env) => return .failed env
  else return .acted env

/-- `MESSAGE_DISCONNECT` and `MESSAGE_TARPIT`. -/
def dataMode (result : Nat) : Recv Unit := do
  if hasFlag result messageDisconnect then setSmtpMode .off
  else if hasFlag result messageTarpit then setSmtpMode .tarpit

/-- One part of the verdict behind another. -/
def ActsEnd.andThen (p : Recv ActsEnd) (q : Envelope → Recv ActsEnd) : Recv ActsEnd := do
  match ← p with
  | .abort => return .abort
  | .failed env => return .failed env
  | .acted env => q env

/-- What `f_data` does by the result. -/
def dataActsBy (conf : RecvConf) (v : DataVars) (result : Nat) : Recv ActsEnd :=
  ActsEnd.andThen (dataBounce conf v result) fun env =>
  ActsEnd.andThen
    (if hasFlag result messageJail then dataJail conf env else dataDelete v.data.messageBanner result env) fun env =>
  ActsEnd.andThen (dataOutfile conf v.tvNow env) fun env => do
    setEnv env
    dataMode result
    return .acted env

/-- What `f_data` does by `filter_result`, which holds anything when nothing was stored there. -/
def dataActs (conf : RecvConf) (v : DataVars) : Recv ActsEnd := do
  match v.filterResult with
  | some result => dataActsBy conf v result
  | none =>
    let result ← Recv.ask .uninitialized
    dataActsBy conf v result

/-- The text of the reply. -/
def failureMessage (conf : RecvConf) (r : ReceiveData) (d : DataState) : Option Text :=
  d.filterMessage.or (d.systemMessage.or (if r.rSmtpMode = .tarpit then none else conf.dataUrl))

/-- The line that accepts a message. -/
def acceptLine (env : Envelope) (filterMessage : Option Text) : Text :=
  match filterMessage with
  | some text => "250 Accepted: (".toList ++ env.eId ++ "): ".toList ++ text ++ "\r\n".toList
  | none => "250 Accepted: (".toList ++ env.eId ++ ")\r\n".toList

/-- The reply to the text. -/
def dataReply (conf : RecvConf) (v : DataVars) (env : Envelope) : Recv RecvRet := do
  let r ← get
  let message := failureMessage conf r v.data
  let ret ←
    if v.data.messageBanner = messageTempfail then smtpWriteBanner conf 451 (some s451Message) message
    else if v.data.messageBanner = messageReject then smtpWriteBanner conf 554 (some s554Message) message
    else snetWritef (acceptLine env v.data.filterMessage)
  if ret = .ok then
    dataError env v.data.dff true (if v.data.readErr = .systemError then .syserror else .ok)
  else dataError env v.data.dff true .closeConnection

/-- `f_data` from the first test of `filter_result` on. -/
def dataVerdict (conf : RecvConf) (v : DataVars) : Recv RecvRet := do
  match ← dataActs conf v with
  | .abort => return .abort
  | .failed env => dataError env v.data.dff false .syserror
  | .acted env => dataReply conf v env

/-- `f_data`; `ans` is what the calls for each line of the text give, `fuel` a bound on its lines. -/
def fData (conf : RecvConf) (ans : Nat → DataAnswers) (fuel : Nat) : Recv RecvRet := do
  match ← dataFront conf ans fuel with
  | .returned ret => return ret
  | .verdict v => dataVerdict conf v

end Simta
