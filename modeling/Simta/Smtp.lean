import Simta.Bounce
import Simta.Lib.World
import Simta.Mx
import Simta.Snet

/-!
# The SMTP client

`smtp.c`: one dialogue with a server, which sends a message and notes every reply in the envelope,
its recipients, the host queue and the counters of the delivery.

* `smtpReply` — one reply: what it changes for each command, and how much of it is read;
* `smtpConnect`, `smtpSend`, `smtpRset`, `smtpQuit`.

A loop over what the server sends has a bound on its lines: a server that sends more is one whose
connection breaks there.
-/

set_option autoImplicit false

namespace Simta

/-- `SMTP_CONNECT` and its siblings. -/
inductive SmtpCommand
  | connect
  | helo
  | ehlo
  | mail
  | rcpt
  | data
  | dataEof
  | rset
  | quit
  | starttls
  deriving DecidableEq, Repr

/-- `SMTP_OK`, `SMTP_ERROR`, `SMTP_BAD_CONNECTION`, and the end of the process by `abort` or `panic`. -/
inductive SmtpRet
  | ok
  | error
  | badConnection
  | abort
  deriving DecidableEq, Repr

/-- The states of `hq_status`. -/
inductive HostStatus
  | unknown
  | null
  | loc
  | mx
  | bounce
  | down
  | punt
  | puntDown
  | supressed
  | bitbucket
  deriving DecidableEq, Repr

/-- An IPv4 address. -/
structure Ip where
  o₀ : Nat
  o₁ : Nat
  o₂ : Nat
  o₃ : Nat
  deriving DecidableEq, Repr

/-- An answer record with `rr_ip`, the address that came with it. -/
structure MxAnswer where
  rr : Rr
  rrIp : Option Ip
  deriving DecidableEq, Repr

/-- What a delivery asks of the outside.  `attach` is `snet_attach`, `alloc` any other allocation,
    `envId` the clock and the allocations of `env_create`; `dfileOpen` to `dfileRead` are the calls on the
    descriptor of the Dfile, `dfileMtime` its time stamp as `env_is_old` asks for it. -/
inductive DeliverOp
  | file (op : FileOp)
  | write (line : Text)
  | read (len : Nat)
  | dfileOpen
  | dfileStat
  | dfileMtime
  | dfileSeek
  | dfileRead (len : Nat)
  | gettimeofday
  | alloc
  | envId
  | daytime
  | dnsMx (hostname : Text)
  | dnsA (hostname : Text)
  | redAlloc
  | socket
  | connect (ip : Ip)
  | attach
  | tlsClientSetup
  | snetStarttls
  | sslGetPeerCertificate
  | sslGetVerifyResult
  | deliverBinary (argv : List Text) (rcpt : Text)
  | queueEnvelope (id : Text)
  deriving DecidableEq, Repr

/-- The answers: success or failure, the result of a read, or what the call gives. -/
abbrev DeliverAns : DeliverOp → Type
  | .file op => FileAns op
  | .read _ => ReadResult
  | .dfileStat => Option Nat
  | .dfileMtime => Option Int
  | .dfileRead _ => ReadResult
  | .gettimeofday => Option Int
  | .envId => Option Text
  | .daytime => Text
  | .dnsMx _ => Option (List MxAnswer)
  | .dnsA _ => Option (List Rr)
  | .redAlloc => Nat → AddAlloc
  | .deliverBinary _ _ => Int
  | _ => Bool

/-- The first character of a reply, as `smtp_reply` tells them apart. -/
inductive ReplyClass
  | success
  | more
  | temporary
  | permanent
  deriving DecidableEq, Repr

/-- One transaction with a server: the replies to the recipients by their number, and the reply to the
    end of the message. -/
structure Dialogue where
  rcpts : List (Nat × ReplyClass)
  eof : Option ReplyClass
  deriving DecidableEq, Repr

/-- One reading of the Dfile: the buffer it started with, whether a read failed or a line was too long,
    the lines that were made of it, and whether it went on to its end. -/
structure Reading where
  start : Snet
  failed : Bool
  lines : List Text
  ended : Bool
  deriving DecidableEq, Repr

/-- What happened in a delivery, kept for the statements alone; the latest is the first.  `bounce` holds
    the numbers of the recipients that the bounce names. -/
structure DeliverLog where
  dialogues : List Dialogue
  locals : List (Nat × Int)
  readings : List Reading
  bounce : Option (List Nat)
  deriving DecidableEq, Repr

/-- `struct deliver` and `struct host_q`, with the host table and `simta_leaky_queue`.  `dRcpt` is the
    number of a recipient, `dRetryCur` that of an entry of the retry list. -/
structure Deliver where
  dEnv : Envelope
  dRcpt : Nat
  dSize : Nat
  dSent : Nat
  dNRcptAccepted : Nat
  dNRcptFailed : Nat
  dNRcptTempfailed : Nat
  dDelivered : Bool
  dUnlinked : Bool
  dDeliverArgv : List Text
  dQueueMovement : Bool
  dRetryList : List Ip
  dRetryCur : Option Nat
  dDnsrResult : Option (List MxAnswer)
  dDnsrResultIp : Option (List Rr)
  dSin : Ip
  dSnetSmtp : Option Snet
  dSnetDfile : Option Snet
  dMxPreferenceCutoff : Nat
  dCurDnsrResult : Int
  dCurDnsrResultIp : Int
  dTlsSupported : Bool
  dTlsBannerCheck : Bool
  hqHostname : Text
  hqSmtpHostname : Text
  hqPrimary : Bool
  hqIsPuntQ : Bool
  hqStatus : HostStatus
  hqNoPuntMx : Bool
  hqNoPuntConfig : Bool
  hqErrText : Option (List Text)
  hqRedDeliverArgv : Option (List Text)
  hosts : List Red
  leakyQueue : Bool
  log : DeliverLog
  deriving DecidableEq

/-- The globals that a delivery reads. -/
structure DeliverConf extends MxConf, Conf where
  puntHost : Option Text := none
  bounceSeconds : Int := 259200
  aggressiveDelivery : Bool := true
  outboundDataSessionTimer : Int := 0
  seenBeforeDomain : Text := []
  deliverDefaultArgv : List Text := []

/-- A function of the delivery. -/
abbrev Dlv (α : Type) : Type := Stateful Deliver DeliverOp DeliverAns α

namespace Dlv

def ask (op : DeliverOp) : Dlv (DeliverAns op) := Stateful.ask op

/-- A function of `envelope.c` or `bounce.c`. -/
def files {α : Type} (p : SpoolProg α) : Dlv α := Stateful.lift (Prog.lift DeliverOp.file (fun _ a => a) p)

/-- `snet_writef` to the server. -/
def writef (line : Text) : Dlv Bool := ask (.write line)

end Dlv

namespace Envelope

def setBounce (env : Envelope) (b : Bool) : Envelope := { env with eFlags.bounce := b }
def setTempfail (env : Envelope) (b : Bool) : Envelope := { env with eFlags.tempfail := b }
def setPunt (env : Envelope) (b : Bool) : Envelope := { env with eFlags.punt := b }

/-- Change the recipient of that number. -/
def modifyRcpt (env : Envelope) (i : Nat) (f : Recipient → Recipient) : Envelope :=
  { env with eRcpt := env.eRcpt.modify i f }

end Envelope

/-! ## Lines of the server -/

/-- `snet_getline( d->d_snet_smtp, NULL )`. -/
def smtpGetline : Dlv (Option Text) := do
  let d ← get
  match d.dSnetSmtp with
  | none => return none
  | some sn =>
    let (line, sn) ← sn.getline fun len => Dlv.ask (.read len)
    modify fun d => { d with dSnetSmtp := some sn }
    match line with
    | .line l => return some l
    | _ => return none

/-- The mark of a line that another one follows. -/
def continues (line : Text) : Bool := (line)[3]? = some '-'

/-- The syntax of a line after the first. -/
def replySyntax (line : Text) : Bool :=
  3 ≤ line.length && (line.take 3).all Char.isDigit &&
    ((line)[3]? = none || (line)[3]? = some ' ' || (line)[3]? = some '-')

/-- `snet_getline_multi`. -/
def getlineMulti : Nat → Dlv (Option Text)
  | 0 => return none
  | fuel + 1 => do
    match ← smtpGetline with
    | none => return none
    | some line =>
      if replySyntax line then
        if continues line then getlineMulti fuel else return some line
      else return none

/-! ## `smtp_consume_banner` -/

/-- The text that keeps the reply: that of the host queue, of the envelope or of the recipient. -/
inductive ErrText
  | hq
  | env
  | rcpt
  deriving DecidableEq, Repr

def errText (d : Deliver) : ErrText → Option (List Text)
  | .hq => d.hqErrText
  | .env => d.dEnv.eErrText
  | .rcpt => (d.dEnv.eRcpt[d.dRcpt]?).bind Recipient.rErrText

def setErrText (d : Deliver) (text : List Text) : ErrText → Deliver
  | .hq => { d with hqErrText := some text }
  | .env => { d with dEnv.eErrText := some text }
  | .rcpt => { d with dEnv := d.dEnv.modifyRcpt d.dRcpt fun r => { r with rErrText := some text } }

/-- `line_append`. -/
def lineAppend (target : ErrText) (line : Text) : Dlv Bool := do
  if ← Dlv.ask .alloc then
    modify fun d => setErrText d ((errText d target).getD [] ++ [line]) target
    return true
  else return false

/-- The label `consume`. -/
def consumeRest (fuel : Nat) (line : Text) (ret : SmtpRet) : Dlv SmtpRet := do
  if continues line then
    match ← getlineMulti fuel with
    | none => return .badConnection
    | some _ => return ret
  else return ret

def starttlsText : Text := "STARTTLS".toList

/-- A line of the EHLO reply that offers STARTTLS. -/
def offersStarttls (line : Text) : Bool :=
  strcaseEq ((line.drop 4).take starttlsText.length) starttlsText &&
    ((line.drop 4).drop starttlsText.length).all isSpace

/-- The loop that reads the rest of a reply line by line. -/
def consumeLines (target : Option ErrText) : Nat → Text → Dlv SmtpRet
  | 0, _ => return .badConnection
  | fuel + 1, line => do
    if continues line then
      match ← smtpGetline with
      | none => return .badConnection
      | some line =>
        if replySyntax line then
          modify fun d => { d with
            dTlsSupported := d.dTlsSupported || d.dTlsBannerCheck && offersStarttls line }
          match target with
          | none => consumeLines target fuel line
          | some t =>
            if ← lineAppend t line then consumeLines target fuel line
            else consumeRest fuel line .error
        else return .badConnection
    else return .ok

/-- The lines that open the kept text; the first allocation makes it. -/
def consumeOpen (t : ErrText) : Dlv Bool := do
  let d ← get
  match errText d t with
  | none =>
    if ← Dlv.ask .alloc then
      modify fun d => setErrText d [] t
      return true
    else return false
  | some _ => lineAppend t []

/-- `smtp_consume_banner`. -/
def smtpConsumeBanner (fuel : Nat) (target : Option ErrText) (line error : Text) : Dlv SmtpRet := do
  match target with
  | some t =>
    if ← consumeOpen t then
      if ← lineAppend t error then
        if ← lineAppend t line then consumeLines target (fuel + 1) line
        else consumeRest fuel line .error
      else consumeRest fuel line .error
    else consumeRest fuel line .error
  | none =>
    let d ← get
    if d.dTlsBannerCheck then consumeLines none (fuel + 1) line else consumeRest fuel line .ok

/-! ## `smtp_reply` -/

def replyClass (line : Text) : ReplyClass :=
  match line.head? with
  | some '2' => .success
  | some '3' => .more
  | some '5' => .permanent
  | _ => .temporary

/-- The host name in the greeting; `none` is an address literal that does not end. -/
def bannerHostname : Text → Option Text
  | '[' :: rest => if ']' ∈ rest then some ('[' :: rest.takeWhile (· ≠ ']') ++ [']']) else none
  | c :: rest => some (c :: rest.takeWhile fun c => !isSpace c)
  | [] => some []

/-- A greeting that ends the dialogue. -/
def badGreeting (fuel : Nat) (line error : Text) : Dlv SmtpRet := do
  match ← smtpConsumeBanner fuel (some .hq) line error with
  | .ok => return .error
  | ret => return ret

/-- A 2xx greeting: the name of the server is kept, and must not be our own. -/
def greeting (conf : DeliverConf) (fuel : Nat) (line : Text) : Dlv SmtpRet := do
  match bannerHostname (line.drop 4) with
  | none => badGreeting fuel line "Illegal hostname in banner".toList
  | some name =>
    if ← Dlv.ask .alloc then
      modify fun d => { d with hqSmtpHostname := name }
      if name = conf.toMxConf.hostname then badGreeting fuel line "Mail loop detected".toList
      else smtpConsumeBanner fuel none line []
    else return .error

/-- The name of a command in the text that is kept. -/
def badReply (cmd : Text) : Text := "Bad SMTP ".toList ++ cmd ++ " reply".toList

/-- Where a refusal is kept, and what is written before it. -/
def refusal : SmtpCommand → Option (ErrText × Text)
  | .connect => some (.hq, badReply "CONNECT".toList)
  | .helo => some (.hq, badReply "HELO".toList)
  | .ehlo => some (.hq, badReply "EHLO".toList)
  | .starttls => some (.hq, badReply "STARTTLS".toList)
  | .rset => some (.hq, badReply "RSET".toList)
  | .mail => some (.env, badReply "MAIL FROM".toList)
  | .data => some (.env, badReply "DATA".toList)
  | .dataEof => some (.env, badReply "DATA_EOF".toList)
  | .rcpt => some (.rcpt, badReply "RCPT TO".toList)
  | .quit => none

/-- Note the status of the recipient that the command was about. -/
def noteRcpt (status : RStatus) : Dlv Unit := modify fun d =>
  { d with
    dEnv := d.dEnv.modifyRcpt d.dRcpt fun r => { r with rStatus := status }
    dNRcptAccepted := d.dNRcptAccepted + if status = .accepted then 1 else 0
    dNRcptFailed := d.dNRcptFailed + if status = .failed then 1 else 0
    dNRcptTempfailed := d.dNRcptTempfailed + if status = .tempfail then 1 else 0 }

/-- What a refusal changes before the rest of it is read. -/
def noteRefusal (cmd : SmtpCommand) (permanent : Bool) : Dlv Unit :=
  match cmd with
  | .mail | .data | .dataEof => modify fun d =>
      { d with dEnv := if permanent then d.dEnv.setBounce true else d.dEnv.setTempfail true }
  | .rcpt => noteRcpt (if permanent then .failed else .tempfail)
  | .connect => modify fun d =>
      { d with hqStatus := if permanent ∧ d.hqStatus = .down then .bounce else d.hqStatus }
  | .helo | .ehlo | .starttls | .rset | .quit => pure ()

/-- A 4xx or 5xx reply, or one that starts with anything else. -/
def refused (fuel : Nat) (cmd : SmtpCommand) (permanent : Bool) (line : Text) : Dlv SmtpRet := do
  noteRefusal cmd permanent
  match refusal cmd with
  | none => smtpConsumeBanner fuel none line []
  | some (target, error) =>
    match ← smtpConsumeBanner fuel (some target) line error with
    -- a refusal of the connection or of RSET ends the dialogue
    | .ok => return if target = .hq then .error else .ok
    | ret => return ret

/-- A 2xx reply. -/
def accepted (conf : DeliverConf) (fuel : Nat) (cmd : SmtpCommand) (line : Text) : Dlv SmtpRet := do
  match cmd with
  | .connect => greeting conf fuel line
  | .rcpt =>
    noteRcpt .accepted
    smtpConsumeBanner fuel none line []
  | .data =>
    -- 2xx is actually an error for DATA
    modify fun d => { d with dEnv := d.dEnv.setTempfail true }
    smtpConsumeBanner fuel (some .env) line "Bad SMTP DATA reply".toList
  | .dataEof =>
    modify fun d => { d with dDelivered := true }
    smtpConsumeBanner fuel none line []
  | .helo | .ehlo | .mail | .rset | .quit | .starttls => smtpConsumeBanner fuel none line []

/-- Enter a reply in the record of the dialogue. -/
def logReply (cmd : SmtpCommand) (c : ReplyClass) : Dlv Unit := modify fun d =>
  match d.log.dialogues with
  | [] => d
  | dlg :: rest =>
    match cmd with
    | .rcpt => { d with
        log.dialogues := { dlg with rcpts := dlg.rcpts ++ [(d.dRcpt, c)] } :: rest }
    | .dataEof => { d with log.dialogues := { dlg with eof := some c } :: rest }
    | _ => d

/-- `smtp_reply`. -/
def smtpReply (conf : DeliverConf) (fuel : Nat) (cmd : SmtpCommand) : Dlv SmtpRet := do
  match ← smtpGetline with
  | none => return .badConnection
  | some line =>
    logReply cmd (replyClass line)
    match replyClass line with
    | .success => accepted conf fuel cmd line
    | .more => if cmd = .data then smtpConsumeBanner fuel none line [] else refused fuel cmd false line
    | .temporary => refused fuel cmd false line
    | .permanent => refused fuel cmd true line

/-! ## The dialogue -/

/-- A command and its reply. -/
def smtpCommand (conf : DeliverConf) (fuel : Nat) (cmd : SmtpCommand) (line : Text) : Dlv SmtpRet := do
  if ← Dlv.writef (line ++ "\r\n".toList) then smtpReply conf fuel cmd else return .badConnection

def ehloText (conf : DeliverConf) : Text := "EHLO ".toList ++ conf.toMxConf.hostname

/-- `smtp_connect` from the STARTTLS reply on. -/
def smtpStarttls (conf : DeliverConf) (fuel : Nat) : Dlv SmtpRet := do
  if ← Dlv.ask .tlsClientSetup then
    if ← Dlv.ask .snetStarttls then
      modify fun d => { d with dSnetSmtp := d.dSnetSmtp.map fun sn => { sn with snTls := true } }
      if ← Dlv.ask .sslGetPeerCertificate then
        if ← Dlv.ask .sslGetVerifyResult then smtpCommand conf fuel .ehlo (ehloText conf)
        else return .error
      else return .abort
    else return .badConnection
  else return .badConnection

/-- `smtp_connect`. -/
def smtpConnect (conf : DeliverConf) (fuel : Nat) : Dlv SmtpRet := do
  match ← smtpReply conf fuel .connect with
  | .ok =>
    if ← Dlv.writef (ehloText conf ++ "\r\n".toList) then
      modify fun d => { d with dTlsSupported := false, dTlsBannerCheck := true }
      let ret ← smtpReply conf fuel .ehlo
      modify fun d => { d with dTlsBannerCheck := false }
      match ret with
      | .ok =>
        let d ← get
        if d.dTlsSupported then
          match ← smtpCommand conf fuel .starttls starttlsText with
          | .ok => smtpStarttls conf fuel
          | ret => return ret
        else return .ok
      | .error => smtpCommand conf fuel .helo ("HELO ".toList ++ conf.toMxConf.hostname)
      | ret => return ret
    else return .badConnection
  | ret => return ret

/-- `STRING_SEEN_BEFORE`. -/
def seenBeforeText : Text := "X-Simta-Seen-Before".toList

/-- `make_seen_before_line`, in its buffer of 512 bytes. -/
def makeSeenBeforeLine (conf : DeliverConf) (d : Deliver) : Text :=
  (seenBeforeText ++ ": ".toList ++ conf.seenBeforeDomain ++ " id ".toList ++ d.dEnv.eId ++
    " origin ".toList ++ conf.toMxConf.hostname ++ " destination ".toList ++ d.hqHostname ++ " (".toList ++
    d.hqSmtpHostname ++ ")".toList).take 511

/-- `snet_getline( d->d_snet_dfile, … )`, which tells no error from the end of the file. -/
def dfileGetline : Dlv (Option Text) := do
  let d ← get
  match d.dSnetDfile with
  | none => return none
  | some sn =>
    let (line, sn) ← sn.getline fun len => Dlv.ask (.dfileRead len)
    modify fun d => { d with dSnetDfile := some sn }
    match line with
    | .line l => return some l
    | .eof => return none
    | _ =>
      modify fun d => { d with log.readings := match d.log.readings with
        | [] => []
        | rd :: rest => { rd with failed := true } :: rest }
      return none

/-- The record of a reading: its start, a line of it, and its end. -/
def readingStart : Dlv Unit := modify fun d =>
  { d with log.readings :=
      ⟨d.dSnetDfile.getD (snetAttach 0), false, [], false⟩ :: d.log.readings }

def readingLine (line : Text) : Dlv Unit := modify fun d =>
  { d with log.readings := match d.log.readings with
      | [] => []
      | rd :: rest => { rd with lines := rd.lines ++ [line] } :: rest }

def readingEnd : Dlv Unit := modify fun d =>
  { d with log.readings := match d.log.readings with
      | [] => []
      | rd :: rest => { rd with ended := true } :: rest }

/-- What is sent for a line: no premature end of the message. -/
def dotStuff (line : Text) : Text := if line.head? = some '.' then '.' :: line else line

/-- The session timer of the loop: `none` when the message may go on, or what is returned. -/
def dataTimer (conf : DeliverConf) (session : Int) : Dlv (Option SmtpRet × Int) := do
  if conf.outboundDataSessionTimer > 0 then
    match ← Dlv.ask .gettimeofday with
    | none => return (some .error, session)
    | some now =>
      let session := if session = 0 then now + conf.outboundDataSessionTimer else session
      if now ≥ session then return (some .badConnection, session) else return (none, session)
  else return (none, session)

/-- The loop of `smtp_send` over the lines of the Dfile: `none` when it has come to the end. -/
def sendLines (conf : DeliverConf) : Nat → Int → Dlv (Option SmtpRet)
  | 0, _ => return some .badConnection
  | fuel + 1, session => do
    match ← dataTimer conf session with
    | (some ret, _) => return some ret
    | (none, session) =>
      match ← dfileGetline with
      | none => return none
      | some line =>
        if ← Dlv.writef (dotStuff line ++ "\r\n".toList) then
          readingLine (dotStuff line)
          modify fun d => { d with dSent := d.dSent + line.length + 1 }
          sendLines conf fuel session
        else return some .badConnection

/-- `ENV_ATTR_ARCHIVE_ONLY`. -/
def envAttrArchiveOnly : Int := 1

def archiveOnly (env : Envelope) : Bool := env.eAttributes % 2 = envAttrArchiveOnly

/-- The line that an archive copy begins with. -/
def sendSeenBefore (conf : DeliverConf) : Dlv Bool := do
  let d ← get
  if archiveOnly d.dEnv then
    if ← Dlv.ask .alloc then
      if ← Dlv.writef (makeSeenBeforeLine conf d ++ "\r\n".toList) then
        readingLine (makeSeenBeforeLine conf d)
        return true
      else return false
    else return false
  else return true

/-- `smtp_send` from the reply to DATA on. -/
def sendMessage (conf : DeliverConf) (fuel : Nat) : Dlv SmtpRet := do
  readingStart
  if ← sendSeenBefore conf then
    match ← sendLines conf fuel 0 with
    | some ret => return ret
    | none =>
      if ← Dlv.writef ".\r\n".toList then
        readingEnd
        smtpReply conf fuel .dataEof
      else return .badConnection
  else return .badConnection

/-- The sender or DATA was refused. -/
def messageRefused (env : Envelope) : Bool := env.eFlags.bounce || env.eFlags.tempfail

def rcptText (r : Recipient) : Text :=
  if r.rRcpt = [] then "RCPT TO:<postmaster>".toList else "RCPT TO:<".toList ++ r.rRcpt ++ ">".toList

/-- The loop over the recipients: `none` when each has a reply. -/
def sendRcpts (conf : DeliverConf) (fuel : Nat) : List Recipient → Nat → Dlv (Option SmtpRet)
  | [], _ => return none
  | r :: rest, i => do
    modify fun d => { d with dRcpt := i }
    match ← smtpCommand conf fuel .rcpt (rcptText r) with
    | .ok =>
      let d ← get
      -- punt hosts must accept all rcpts
      if d.hqStatus = .puntDown ∧ (d.dEnv.eRcpt[i]?).map Recipient.rStatus ≠ some .accepted then
        return some .ok
      else sendRcpts conf fuel rest (i + 1)
    | ret => return some ret

/-- `smtp_send`. -/
def smtpSend (conf : DeliverConf) (fuel : Nat) : Dlv SmtpRet := do
  let d ← get
  match ← smtpCommand conf fuel .mail ("MAIL FROM:<".toList ++ d.dEnv.eMail.getD [] ++ ">".toList) with
  | .ok =>
    let d ← get
    if messageRefused d.dEnv then return .ok
    else if d.dEnv.eRcpt = [] then return .abort
    else
      match ← sendRcpts conf fuel d.dEnv.eRcpt 0 with
      | some ret => return ret
      | none =>
        let d ← get
        if d.dNRcptAccepted = 0 then
          -- no rcpts succeded
          modify fun d => { d with dDelivered := true }
          return .ok
        else
          match ← smtpCommand conf fuel .data "DATA".toList with
          | .ok =>
            let d ← get
            if messageRefused d.dEnv then return .ok else sendMessage conf fuel
          | ret => return ret
  | ret => return ret

/-- `smtp_rset`. -/
def smtpRset (conf : DeliverConf) (fuel : Nat) : Dlv SmtpRet := smtpCommand conf fuel .rset "RSET".toList

/-- `smtp_quit`. -/
def smtpQuit (conf : DeliverConf) (fuel : Nat) : Dlv Unit := do
  let _ ← smtpCommand conf fuel .quit "QUIT".toList

end Simta
