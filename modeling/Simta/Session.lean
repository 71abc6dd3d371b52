import Simta.CommandWords
import Simta.DataCommand
import Simta.StartTls

/-!
# The SMTP session

`smtp_receive`: the greeting, the loop over the commands of a client with the table that the mode of the
session selects, and the commands themselves.

* `hello`, `fHelo`, `fEhlo`, `fMail`, `fAuth` and the commands that only answer;
* `Command.run`, `commandTable` — the commands, and which of them each mode knows by which word;
* `greet` — what stands in front of the first command;
* `commandLoop`, `smtpReceive` — the loop, and the session.
-/

set_option autoImplicit false

namespace Simta

/-- The texts that only the greeting uses. -/
structure SessionConf extends RecvConf where
  reverseUrl : Option Text := none
  libwrapUrl : Option Text := none

def sMaxconnect : Text := "Maximum connections exceeded".toList
def stringUnknown : Text := "unknown".toList
def sMismatch : Text := "Mismatch".toList

/-- One part of a command behind another, which has succeeded. -/
def RecvRet.andThen (p q : Recv RecvRet) : Recv RecvRet := do
  match ← p with
  | .ok => q
  | ret => return ret

/-! ## HELO and EHLO -/

/-- `hello`: a second name is thrown away. -/
def hello (hostname : Text) : Recv RecvRet := do
  let r ← get
  if r.rHello = none then
    if ← Recv.ask .alloc then
      modify fun r => { r with rHello := some hostname }
      return .ok
    else return .syserror
  else return .ok

/-- `f_helo`. -/
def fHelo (conf : RecvConf) : Recv RecvRet := do
  let r ← get
  match r.rAv with
  | [_, name] =>
    if (← hello name) = .ok then smtpWriteBanner conf 250 (some "Hello".toList) (some name) else return .syserror
  | _ => smtpWriteBanner conf 501 none (some "RFC 2821 section 4.1.1.1: \"HELO\" SP Domain CRLF".toList)

/-- `extension_count-- ? "-" : " "`. -/
def ehloDash (count : Int) : Text := if count ≠ 0 then "-".toList else " ".toList

/-- The line of the extension SIZE. -/
def ehloSize (conf : RecvConf) (count : Int) : Recv RecvRet :=
  if 0 ≤ conf.maxMessageSize then
    snetWritef ("250".toList ++ ehloDash count ++ "SIZE=".toList ++ (toString conf.maxMessageSize).toList ++
      "\r\n".toList)
  else return .ok

/-- The line of the extension AUTH. -/
def ehloAuth (conf : RecvConf) (count : Int) : Recv RecvRet := do
  if conf.sasl then
    match ← Recv.ask .saslListmech with
    | none => return .syserror
    | some mechs => snetWritef ("250".toList ++ ehloDash count ++ "AUTH ".toList ++ mechs ++ "\r\n".toList)
  else return .ok

/-- The line of the extension STARTTLS, not given once TLS is on. -/
def ehloStarttls (conf : RecvConf) (count : Int) : Recv RecvRet := do
  let r ← get
  if conf.tls ∧ ¬ r.rTls then snetWritef ("250".toList ++ ehloDash count ++ "STARTTLS\r\n".toList) else return .ok

/-- The lines of the reply to EHLO. -/
def ehloReply (conf : RecvConf) (name : Text) : Recv RecvRet := do
  let r ← get
  let size := r.smtpExtension - 1
  let auth := if 0 ≤ conf.maxMessageSize then size - 1 else size
  let tls := if conf.sasl then auth - 1 else auth
  RecvRet.andThen
    (snetWritef ("250".toList ++ ehloDash r.smtpExtension ++ conf.hostname ++ " Hello ".toList ++ name ++
      "\r\n".toList))
    (RecvRet.andThen (ehloSize conf size) (RecvRet.andThen (ehloAuth conf auth) (ehloStarttls conf tls)))

/-- `f_ehlo`. -/
def fEhlo (conf : RecvConf) : Recv RecvRet := do
  let r ← get
  match r.rAv with
  | [_, name] =>
    if (← reset) = .ok then
      if (← hello name) = .ok then ehloReply conf name else return .syserror
    else return .syserror
  | _ => smtpWriteBanner conf 501 none (some "RFC 2821 section 4.1.1.1: \"EHLO\" SP Domain CRLF".toList)

/-! ## MAIL -/

def mailFrom : Text := "FROM:".toList
def sizeKeyword : Text := "SIZE".toList

/-- `f_mail_usage`. -/
def fMailUsage : Recv RecvRet := do
  if (← snetWritef ("501-Syntax violates RFC 2821 section 4.1.1.2:\r\n".toList ++
      "501-     \"MAIL FROM:\" (\"<>\" / Reverse-Path ) [ SP Mail-parameters ] CRLF\r\n".toList ++
      "501-         Reverse-path = Path\r\n501          Path = \"<\" [ A-d-l \":\" ] Mailbox \">\"\r\n".toList)) = .ok then
    deliverAccepted
  else return .closeConnection

/-- The path of the command line, with the parameters behind it. -/
def mailArgument (conf : RecvConf) (av : List Text) : Option ((Text × Option Text) × List Text) :=
  match av with
  | _ :: keyword :: path :: rest =>
    if ¬ conf.strictSmtpSyntax ∧ strcaseEq keyword mailFrom then
      (parseEmailaddr .mailFrom path).map fun p => (p, rest)
    else if strncaseEq keyword mailFrom then
      (parseEmailaddr .mailFrom (keyword.drop mailFrom.length)).map fun p => (p, path :: rest)
    else none
  | [_, keyword] =>
    if strncaseEq keyword mailFrom then
      (parseEmailaddr .mailFrom (keyword.drop mailFrom.length)).map fun p => (p, [])
    else none
  | _ => none

/-- What `strtol` leaves behind the number. -/
def numberRest (s : Text) : Text :=
  let s := s.dropWhile isSpace
  if s.head? = some '-' ∨ s.head? = some '+' then s.tail.dropWhile Char.isDigit else s.dropWhile Char.isDigit

/-- The size that a client declares, which fits in a `long`. -/
def sizeValue (s : Text) : Option Int :=
  match scanNumber s with
  | some (false, n) => if numberRest s = [] ∧ (n : Int) < 2 ^ 63 - 1 then some n else none
  | some (true, n) => if numberRest s = [] ∧ n = 0 then some 0 else none
  | none => none

/-- The loop over the parameters; an error is the reply that refuses one. -/
def mailParameters (conf : RecvConf) : Bool → List Text → Except (Nat × Option Text × Option Text) Unit
  | _, [] => .ok ()
  | seen, p :: rest =>
    if strncaseEq p sizeKeyword then
      if seen then .error (501, none, some "duplicate SIZE specified".toList)
      else if ¬ strncaseEq p (sizeKeyword ++ ['=']) then .error (501, none, some "invalid SIZE command".toList)
      else if 0 < conf.maxMessageSize then
        match sizeValue (p.drop (sizeKeyword.length + 1)) with
        | none => .error (501, some "Syntax Error: invalid SIZE parameter".toList,
            some (p.drop (sizeKeyword.length + 1)))
        | some size =>
          if conf.maxMessageSize < size then .error (552, none, none) else mailParameters conf true rest
      else mailParameters conf true rest
    else .error (501, some "Syntax Error: unsupported SMPT service extension".toList, some p)

/-- The digest of a new message. -/
def digestStart (conf : RecvConf) : Recv Unit :=
  if conf.mailFilter.isSome ∧ conf.checksumMd then
    modify fun r => if r.rMdctx.mdStatus = .ready then r else { r with rMdctx := ⟨.ready, 0, []⟩ }
  else pure ()

/-- The end of `f_mail`: the transaction is opened. -/
def mailAccept (conf : RecvConf) (addr : Text) : Recv RecvRet := do
  if (← reset) = .ok then
    match ← Recv.ask .envId with
    | none => return .syserror
    | some id =>
      setEnv (envCreate conf.toConf .fast id (some addr) none)
      Recv.log (.mail addr)
      digestStart conf
      modify fun r => { r with rTvInactivity := 0 }
      smtpWriteBanner conf 250 none none
  else return .syserror

/-- The normal mode, for a sender with a domain that is checked. -/
def mailNormal (conf : RecvConf) (addr domain : Text) : Recv RecvRet := do
  let rc ← checkHostname conf domain
  if rc = 0 then mailAccept conf addr
  else if rc < 0 then smtpWriteBanner conf 451 none none
  else smtpWriteBanner conf 550 (some sUnknownHost) (some domain)

/-- What `f_mail` does in each mode. -/
def mailMode (conf : RecvConf) (mode : SmtpMode) (addr : Text) (domain : Option Text) : Recv RecvRet :=
  match mode with
  | .off => return .syserror
  | .tempfail => smtpWriteBanner conf 451 (some s451Decline) none
  | .noauth => smtpWriteBanner conf 530 none none
  | .refuse => smtpWriteBanner conf 503 none none
  | .tarpit => mailAccept conf addr
  | .globalRelay | .normal =>
    match domain with
    | none => mailAccept conf addr
    | some domain => if conf.fromChecking then mailNormal conf addr domain else mailAccept conf addr

/-- `f_mail`. -/
def fMail (conf : RecvConf) : Recv RecvRet := do
  let r ← get
  if r.rSmtpMode = .off then smtpWriteBanner conf 421 (some s421Decline) none
  else
    match mailArgument conf r.rAv with
    | none => fMailUsage
    | some ((addr, domain), parameters) =>
      match mailParameters conf false parameters with
      | .error (code, msg, arg) => smtpWriteBanner conf code msg arg
      | .ok _ => mailMode conf r.rSmtpMode addr domain

/-! ## Commands that only answer -/

/-- `f_quit`. -/
def fQuit (conf : RecvConf) : Recv RecvRet := smtpWriteBanner conf 221 none none

/-- `f_rset`. -/
def fRset (conf : RecvConf) : Recv RecvRet := do
  if (← reset) = .ok then smtpWriteBanner conf 250 none none else return .syserror

/-- What `f_noop`, `f_help` and `f_not_implemented` do. -/
def deliverAndAnswer (conf : RecvConf) (code : Nat) (msg arg : Option Text) : Recv RecvRet := do
  if (← deliverAccepted) = .ok then smtpWriteBanner conf code msg arg else return .syserror

/-- `f_noop`. -/
def fNoop (conf : RecvConf) : Recv RecvRet := deliverAndAnswer conf 250 (some "simta".toList) (some conf.version)

/-- `f_help`. -/
def fHelp (conf : RecvConf) : Recv RecvRet := deliverAndAnswer conf 211 none (some conf.version)

/-- `f_not_implemented`. -/
def fNotImplemented (conf : RecvConf) : Recv RecvRet := deliverAndAnswer conf 502 none none

/-! ## AUTH -/

def sUnableToDecode : Text := "unable to BASE64 decode argument".toList
def sClientCanceled : Text := "client canceled authentication".toList

/-- `reset_sasl_conn`. -/
def resetSaslConn : Recv Bool := do
  if ← Recv.ask .saslServerNew then
    if ← Recv.ask (.saslSetprop .ssfExternal false) then Recv.ask (.saslSetprop .authExternal false) else return false
  else return false

/-- The end of `f_auth`: the client is known, and the mode is the default one. -/
def authDone (conf : RecvConf) : Recv RecvRet := do
  match ← Recv.ask .saslGetUsername with
  | none => return .closeConnection
  | some id =>
    modify fun r => { r with rAuthId := some id }
    if ← Recv.ask .saslGetMechname then
      if (← smtpWriteBanner conf 235 none none) = .ok then
        modify fun r => { r with rAuth := true }
        Recv.log .auth
        if ← Recv.ask .saslSsf then modify fun r => { r with rHello := none }
        setSmtpMode conf.smtpDefaultMode
        return .ok
      else return .closeConnection
    else return .closeConnection

/-- The `switch` over the last return value of the SASL calls. -/
def authResult (conf : RecvConf) : SaslRet → Recv RecvRet
  | .ok => authDone conf
  | .nomech => smtpWriteBanner conf 504 none none
  | .badprot => smtpWriteBanner conf 535 none none
  | .tooweak => smtpWriteBanner conf 534 none none
  | .encrypt => smtpWriteBanner conf 538 none none
  | .continue | .other => return .syserror

/-- The challenge as it is sent. -/
def authChallenge (serverout : Text) : Recv (Option Text) :=
  if serverout ≠ [] then Recv.ask (.saslEncode64 serverout) else return some []

/-- The loop of `f_auth` over the challenges, with a bound on their number. -/
def authLoop (conf : RecvConf) : Nat → SaslRet × Text → Recv RecvRet
  | 0, _ => return .closeConnection
  | fuel + 1, (rc, serverout) =>
    if rc = .continue then do
      match ← authChallenge serverout with
      | none => return .closeConnection
      | some challenge =>
        if (← smtpWriteBanner conf 334 (some challenge) none) = .ok then
          let r ← get
          let (line, sn) ← r.rSnet.getline fun len => (Recv.ask (.read len) : Recv ReadResult)
          modify fun r => { r with rSnet := sn }
          match line with
          | .line line =>
            if line = "*".toList then
              if ← resetSaslConn then smtpWriteBanner conf 501 none (some sClientCanceled)
              else return .closeConnection
            else
              match ← Recv.ask (.saslDecode64 line) with
              | none => smtpWriteBanner conf 501 none (some sUnableToDecode)
              | some clientin => authLoop conf fuel (← Recv.ask (.saslServerStep clientin))
          | _ => return .closeConnection
        else return .closeConnection
    else authResult conf rc

/-- The initial response of the command line; the outer `none` is one that cannot be decoded. -/
def authInitial (av : List Text) : Recv (Option (Option Text)) := do
  match av with
  | [_, _, response] =>
    if response = "=".toList then return some (some [])
    else
      match ← Recv.ask (.saslDecode64 response) with
      | none => return none
      | some clientin => return some (some clientin)
  | _ => return some none

/-- `f_auth`. -/
def fAuth (conf : RecvConf) (fuel : Nat) : Recv RecvRet := do
  let r ← get
  if r.rAv.length ≠ 2 ∧ r.rAv.length ≠ 3 then
    smtpWriteBanner conf 501 none (some "RFC 2554 section 4 AUTH mechanism [initial-response]".toList)
  else if r.rAuth then fBadSequence conf
  else if (r.rEnv.bind Envelope.eMail).isSome then fBadSequence conf
  else
    match ← authInitial r.rAv with
    | none => smtpWriteBanner conf 501 none (some sUnableToDecode)
    | some clientin =>
      let start ← Recv.ask (.saslServerStart (r.rAv.getD 1 []) clientin)
      authLoop conf fuel start

/-! ## The tables -/

/-- The functions of the tables. -/
inductive Command
  | helo
  | ehlo
  | mail
  | rcpt
  | data
  | rset
  | noop
  | quit
  | help
  | notImplemented
  | starttls
  | auth
  | badSequence
  deriving DecidableEq, Repr

def smtpCommands : List (Text × Command) :=
  [("HELO".toList, .helo), ("EHLO".toList, .ehlo), ("MAIL".toList, .mail), ("RCPT".toList, .rcpt),
    ("DATA".toList, .data), ("RSET".toList, .rset), ("NOOP".toList, .noop), ("QUIT".toList, .quit),
    ("HELP".toList, .help), ("VRFY".toList, .notImplemented), ("EXPN".toList, .notImplemented),
    ("STARTTLS".toList, .starttls), ("AUTH".toList, .auth)]

def refuseCommands : List (Text × Command) :=
  [("HELO".toList, .badSequence), ("EHLO".toList, .badSequence), ("MAIL".toList, .mail), ("RCPT".toList, .rcpt),
    ("DATA".toList, .data), ("RSET".toList, .badSequence), ("NOOP".toList, .badSequence), ("QUIT".toList, .quit),
    ("HELP".toList, .badSequence), ("VRFY".toList, .badSequence), ("EXPN".toList, .badSequence),
    ("STARTTLS".toList, .badSequence), ("AUTH".toList, .badSequence)]

def offCommands : List (Text × Command) :=
  [("MAIL".toList, .mail), ("RCPT".toList, .rcpt), ("DATA".toList, .data), ("QUIT".toList, .quit)]

/-- The table that `set_smtp_mode` selects. -/
def commandTable : SmtpMode → List (Text × Command)
  | .off => offCommands
  | .refuse => refuseCommands
  | _ => smtpCommands

/-- The command of a line, by its first word. -/
def findCommand (mode : SmtpMode) (av : List Text) : Option Command :=
  match av with
  | [] => none
  | word :: _ => ((commandTable mode).find? fun p => strcaseEq word p.1).map Prod.snd

/-- What the calls of one turn of the command loop give: the `realloc`s of `acav_parse2821`, and the calls for
    each line of a text. -/
structure TurnAnswers where
  realloc : Nat → Bool
  data : Nat → DataAnswers

/-- The function of a command; `fuel` bounds the lines of a text and the challenges of an authentication. -/
def Command.run (conf : RecvConf) (a : TurnAnswers) (fuel : Nat) : Command → Recv RecvRet
  | .helo => fHelo conf
  | .ehlo => fEhlo conf
  | .mail => fMail conf
  | .rcpt => fRcpt conf
  | .data => fData conf a.data fuel
  | .rset => fRset conf
  | .noop => fNoop conf
  | .quit => fQuit conf
  | .help => fHelp conf
  | .notImplemented => fNotImplemented conf
  | .starttls => fStarttls conf
  | .auth => fAuth conf fuel
  | .badSequence => fBadSequence conf

/-! ## The command loop -/

/-- The labels behind the loop, a `return` out of it, and the end of the process by `panic`, or by the envelope
    that is named where there may be none. -/
inductive SessionEnd
  | syserror
  | closeConnection
  | returned
  | abort
  deriving DecidableEq, Repr

/-- Where a command leads to that does not go on. -/
def RecvRet.sessionEnd : RecvRet → Option SessionEnd
  | .ok => none
  | .closeConnection => some .closeConnection
  | .syserror => some .syserror
  | .abort => some .abort

/-- What the timers say in front of a command: an end, another turn, or how long to wait, with whether a timeout
    is that of an accepted message. -/
inductive TimerEnd
  | stop (e : SessionEnd)
  | again
  | wait (accepted : Bool)

/-- `tv_wait` after a timer that is over at `limit`. -/
def shorter (wait limit now : Int) : Int := if limit - now < wait then limit - now else wait

/-- The inactivity timer; `none` when it is over. -/
def inactivityTimer (conf : RecvConf) (now wait : Int) : Recv (Option Int) := do
  if 0 < conf.inboundCommandInactivityTimer then
    let r ← get
    if r.rTvInactivity = 0 then
      modify fun r => { r with rTvInactivity := conf.inboundCommandInactivityTimer + now }
      return some (shorter wait (conf.inboundCommandInactivityTimer + now) now)
    else if r.rTvInactivity ≤ now then return none
    else return some (shorter wait r.rTvInactivity now)
  else return some wait

/-- The timer of an accepted message, which is delivered when it is over. -/
def acceptedMessageTimer (now wait : Int) : Recv TimerEnd := do
  let r ← get
  if r.rTvAccepted = 0 then return .wait false
  else if r.rTvAccepted ≤ now then
    modify fun r => { r with rTvAccepted := 0 }
    if (← deliverAccepted) = .ok then return .again else return .stop .returned
  else return .wait (decide (r.rTvAccepted - now < wait))

/-- The timers in front of a command. -/
def commandTimers (conf : RecvConf) : Recv TimerEnd := do
  match ← Recv.ask .gettimeofday with
  | none => return .stop .syserror
  | some now =>
    let r ← get
    if r.rTvSession ≠ 0 ∧ r.rTvSession ≤ now then return .stop .syserror
    else
      let wait := if r.rTvSession = 0 then conf.inboundCommandLineTimer
        else shorter conf.inboundCommandLineTimer r.rTvSession now
      match ← inactivityTimer conf now wait with
      | none => return .stop .syserror
      | some wait => acceptedMessageTimer now wait

/-- Too many recipients have failed; the report of it names the envelope. -/
def punish (conf : RecvConf) : Recv (Option SessionEnd) := do
  let r ← get
  if r.rSmtpMode = .normal ∧ 0 < conf.maxFailedRcpts ∧ conf.maxFailedRcpts ≤ r.rFailedRcpts then
    if r.rEnv = none then return some .abort
    else
      setSmtpMode conf.smtpPunishmentMode
      return none
  else return none

/-- A line that is no command of the table. -/
def unrecognized (conf : RecvConf) : Recv (Option SessionEnd) := do
  let r ← get
  if r.rSmtpMode = .off then
    let _ ← smtpWriteBanner conf 421 (some s421Decline) none
    return some .closeConnection
  else if (← smtpWriteBanner conf 500 none none) = .ok then return none
  else return some .closeConnection

/-- A command with its words; `none` is the next turn. -/
def runCommandLine (conf : RecvConf) (a : TurnAnswers) (fuel : Nat) (av : List Text) : Recv (Option SessionEnd) := do
  modify fun r => { r with rAv := av }
  let r ← get
  match findCommand r.rSmtpMode av with
  | none => unrecognized conf
  | some c =>
    match (← c.run conf a fuel).sessionEnd with
    | some e => return some e
    | none => punish conf

/-- `NULL` for a command line. -/
def commandDropped (conf : RecvConf) (timedOut accepted : Bool) : Recv (Option SessionEnd) := do
  if timedOut then
    if accepted then return none
    else
      let _ ← smtpWriteBanner conf 421 (some sTimeout) (some sClosing)
      return some .closeConnection
  else return some .syserror

/-- A command line, with the words it is cut into. -/
def commandLine (conf : RecvConf) (a : TurnAnswers) (fuel : Nat) (acav : Acav) (line : Text) :
    Recv (Option SessionEnd × Acav) := do
  if ← Recv.ask .alloc then
    match acavParse2821 a.realloc acav line with
    | .error _ => return (some .syserror, acav)
    | .ok scan => return (← runCommandLine conf a fuel scan.words, scan.acav)
  else return (some .syserror, acav)

/-- The command loop, with a bound on its turns; `late` is `continue_after_timeout`. -/
def commandLoop (conf : RecvConf) (turns : Nat → TurnAnswers) (fuel : Nat) : Nat → Acav → Bool → Recv SessionEnd
  | 0, _, _ => return .syserror
  | n + 1, acav, late => do
    match ← commandTimers conf with
    | .stop e => return e
    | .again => commandLoop conf turns fuel n acav late
    | .wait accepted =>
      let r ← get
      let (line, sn) ← r.rSnet.getline fun len => (Recv.ask (.read len) : Recv ReadResult)
      modify fun r => { r with rSnet := sn }
      match line with
      | .line line =>
        match ← commandLine conf (turns n) fuel acav line with
        | (some e, _) => return e
        | (none, acav) => commandLoop conf turns fuel n acav (late || accepted)
      | .error true =>
        match ← commandDropped conf true (late || accepted) with
        | some e => return e
        | none => commandLoop conf turns fuel n acav false
      | _ => return .syserror

/-! ## The session -/

/-- The reverse lookup; `none` when the session goes on. -/
def greetReverse (conf : SessionConf) : Recv (Option SessionEnd) := do
  let (found, hostname) ← Recv.ask .checkReverse
  match found with
  | .error =>
    modify fun r => { r with rDnsMatch := found, rRemoteHostname := some stringUnknown }
    if conf.ignoreConnectInReverseErrors then return none
    else
      let _ ← smtpWriteBanner conf.toRecvConf 421 (some s421Decline) none
      return some .closeConnection
  | .matched =>
    modify fun r => { r with rDnsMatch := found, rRemoteHostname := some hostname }
    return none
  | .unknown | .mismatch =>
    modify fun r => { r with
      rDnsMatch := found
      rRemoteHostname := some (if found = .mismatch then sMismatch else stringUnknown) }
    if conf.ignoreReverse then return none
    else
      let _ ← smtpWriteBanner conf.toRecvConf 421 (some s421Decline) conf.reverseUrl
      return some .closeConnection

/-- The TCP wrappers. -/
def greetHosts (conf : SessionConf) : Recv (Option SessionEnd) := do
  if ← Recv.ask .hostsCtl then
    -- these two have stored `string_unknown`, which is compared as a pointer
    modify fun r =>
      if r.rDnsMatch = .error ∨ r.rDnsMatch = .unknown then { r with rRemoteHostname := none } else r
    return none
  else
    let _ ← smtpWriteBanner conf.toRecvConf 421 (some s421Decline) conf.libwrapUrl
    return some .closeConnection

/-- The RBLs. -/
def greetRbls (conf : RecvConf) : Recv (Option SessionEnd) := do
  if conf.rbls then
    let (status, url) ← Recv.ask (.rblCheck false)
    match status with
    | .block =>
      modify fun r => { r with rRblStatus := .block, rRblUrl := url }
      setSmtpMode .off
      return none
    | .accept =>
      modify fun r => { r with rRblStatus := .accept, rRblUrl := url }
      return none
    | .notFound =>
      modify fun r => { r with rRblStatus := .unknown, rRblUrl := url }
      return none
    | .error | .unknown =>
      modify fun r => { r with rRblStatus := .unknown, rRblUrl := url }
      if ← Recv.ask .dnsTimeout then return none else return some .syserror
  else return none

/-- The limits on the connections of one host. -/
def greetLimits (conf : RecvConf) : Recv (Option SessionEnd) := do
  let r ← get
  if r.rRblStatus = .accept then return none
  else if ← Recv.ask .connectLimits then return none
  else
    let _ ← smtpWriteBanner conf 421 (some sMaxconnect) (some sClosing)
    return some .closeConnection

/-- The opening banner. -/
def greetBanner (conf : RecvConf) : Recv (Option SessionEnd) := do
  let ready ← Recv.ask .bannerSelect
  if ready < 0 then return some .syserror
  else
    modify fun r => if 0 < ready then { r with rWriteBeforeBanner := true } else r
    let r ← get
    if r.rSmtpMode = .off then
      if (← snetWritef ("554 <".toList ++ conf.hostname ++ "> Access denied for IP ".toList ++ r.rSin ++
          ": See ".toList ++ r.rRblUrl ++ "\r\n".toList)) = .ok then return none
      else return some .closeConnection
    else if (← smtpWriteBanner conf 220 none none) = .ok then return none
    else return some .closeConnection

/-- One part of the greeting behind another, which goes on. -/
def SessionEnd.andThen (p q : Recv (Option SessionEnd)) : Recv (Option SessionEnd) := do
  match ← p with
  | some e => return some e
  | none => q

/-- The greeting; `tlsSocket` is the flag `SIMTA_SOCKET_TLS`. -/
def greet (conf : SessionConf) (tlsSocket : Bool) : Recv (Option SessionEnd) := do
  if (← authInit conf.toRecvConf tlsSocket) = 0 then
    if ← Recv.ask .alloc then
      SessionEnd.andThen (greetReverse conf) (SessionEnd.andThen (greetHosts conf)
        (SessionEnd.andThen (greetRbls conf.toRecvConf) (SessionEnd.andThen (greetLimits conf.toRecvConf)
          (greetBanner conf.toRecvConf))))
    else return some .syserror
  else return some .syserror

/-- A server that gives no service says so. -/
def greetRefuse (conf : RecvConf) : Recv (Option SessionEnd) := do
  if (← smtpWriteBanner conf 554 (some "No SMTP Service here".toList) none) = .ok then return none
  else return some .closeConnection

/-- What stands in front of the first command. -/
def sessionStart (conf : SessionConf) (tlsSocket : Bool) : Recv (Option SessionEnd) := do
  if (← reset) = .ok then
    if ← Recv.ask .alloc then
      if ← Recv.ask .connectLimits then
        let r ← get
        if r.rSmtpMode = .refuse then greetRefuse conf.toRecvConf else greet conf tlsSocket
      else
        let _ ← smtpWriteBanner conf.toRecvConf 421 (some sMaxconnect) (some sClosing)
        return some .closeConnection
    else return some .syserror
  else return some .syserror

/-- The labels behind the loop. -/
def sessionClose (conf : RecvConf) : SessionEnd → Recv Unit
  | .syserror => do
    let _ ← smtpWriteBanner conf 421 none none
    let _ ← reset
  | .closeConnection => do
    let _ ← reset
  | .returned | .abort => return ()

/-- The global timer of the session. -/
def sessionTimer (conf : RecvConf) : Recv Unit := do
  let start ← Recv.ask .gettimeofday
  if 0 < conf.inboundGlobalSessionTimer then
    modify fun r => { r with rTvSession := conf.inboundGlobalSessionTimer + start.getD 0 }

/-- `smtp_receive`, from `newSession`, with a bound on the turns of its loop; the result is how it ends. -/
def smtpReceive (conf : SessionConf) (tlsSocket : Bool) (turns : Nat → TurnAnswers) (fuel n : Nat) :
    Recv SessionEnd := do
  sessionTimer conf.toRecvConf
  if ← Recv.ask .alloc then
    let e ← do
      match ← sessionStart conf tlsSocket with
      | some e => pure e
      | none => commandLoop conf.toRecvConf turns fuel n acavAlloc false
    sessionClose conf.toRecvConf e
    return e
  else return .returned

end Simta
