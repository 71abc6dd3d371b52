import Simta.Lib.World
import Simta.Mx
import Simta.Snet

/-!
# The receiving session

The state of one SMTP session and the functions of `receive.c` that every command uses.  What
the session asks of the outside (the socket, OpenSSL, SASL, the resolver, the queue runner, the
clock, the disk) are operations of `Stateful`, so that a statement can range over every answer.

* `smtpWriteBanner` — the reply for each code, with the return value the code decides;
* `setSmtpMode`, `deliverAccepted`, `reset` — the changes of mode and of the current envelope.
-/

set_option autoImplicit false

namespace Simta

/-- `RECEIVE_OK`, `RECEIVE_SYSERROR`, `RECEIVE_CLOSECONNECTION`, and the end of the process by `panic`. -/
inductive RecvRet
  | ok
  | syserror
  | closeConnection
  | abort
  deriving DecidableEq, Repr

/-- `SMTP_MODE_…`. -/
inductive SmtpMode
  | normal
  | off
  | refuse
  | globalRelay
  | tempfail
  | tarpit
  | noauth
  deriving DecidableEq, Repr

/-- `SERVICE_SMTPS_OFF`, `SERVICE_SMTPS_SERVER`, `SERVICE_SMTPS_CLIENT_SERVER`. -/
inductive ServiceSmtps
  | off
  | server
  | clientServer
  deriving DecidableEq, Repr

/-- The properties that `sasl_setprop` sets. -/
inductive SaslProp
  | secProps
  | ssfExternal
  | authExternal
  deriving DecidableEq, Repr

/-- The return values of the SASL calls that `f_auth` tells apart. -/
inductive SaslRet
  | ok
  | continue
  | nomech
  | badprot
  | tooweak
  | encrypt
  | other
  deriving DecidableEq, Repr

/-- `RBL_UNKNOWN`, `RBL_ERROR`, `RBL_BLOCK`, `RBL_ACCEPT`, `RBL_NOT_FOUND`. -/
inductive RblStatus
  | unknown
  | error
  | block
  | accept
  | notFound
  deriving DecidableEq, Repr

/-- `LDAP_SYSERROR`, `LDAP_NOT_LOCAL`, `LDAP_LOCAL`, `LDAP_LOCAL_RBL`. -/
inductive LdapLocal
  | sysError
  | notLocal
  | loc
  | localRbl
  deriving DecidableEq, Repr

/-- What a session asks of the outside.  `alloc` is any allocation, `redAlloc` and `headerAlloc` those of
    one call of `get_mx` and of `header_text`, `envId` the clock and the allocations of `env_create`;
    `dbOpen` succeeds at once on a database that is open, and `uninitialized` is what lies in a variable
    before anything is stored there.  A property set again after the start of TLS is an operation of its
    own. -/
inductive RecvOp
  | write (line : Text)
  | read (len : Nat)
  | gettimeofday
  | alloc
  | envId
  | tlsServerSetup
  | sslNew
  | sslSetFd
  | sslAccept
  | sslGetPeerCertificate
  | saslServerNew
  | saslSetprop (prop : SaslProp) (afterTls : Bool)
  | saslListmech
  | saslDecode64 (text : Text)
  | saslEncode64 (text : Text)
  | saslServerStart (mech : Text) (clientin : Option Text)
  | saslServerStep (clientin : Text)
  | saslGetUsername
  | saslGetMechname
  | saslSsf
  | dnsMx (hostname : Text)
  | dnsA (hostname : Text)
  | dnsTimeout
  | redAlloc
  | dbOpen (fname : Option Text)
  | dbGet (fname : Option Text) (key : Text)
  | getpwnam (fname : Option Text) (user : Text)
  | ldapAddressLocal (user domain : Text)
  | rblCheck (user : Bool)
  | checkReverse
  | hostsCtl
  | connectLimits
  | bannerSelect
  | setsockopt
  | daytime
  | contentFilter (envp : List Text)
  | uninitialized
  | headerAlloc
  | queueEnvelope (id : Text)
  | qRunner
  | file (op : FileOp)
  deriving DecidableEq, Repr

/-- `REVERSE_ERROR`, `REVERSE_MATCH`, `REVERSE_UNKNOWN`, `REVERSE_MISMATCH`. -/
inductive Reverse
  | error
  | matched
  | unknown
  | mismatch
  deriving DecidableEq, Repr

/-- The answers: success or failure, the result of a read, the return value of a call and what it
    stores behind its pointers. -/
abbrev RecvAns : RecvOp → Type
  | .read _ => ReadResult
  | .gettimeofday => Option Int
  | .envId => Option Text
  | .sslSetFd => Int
  | .sslAccept => Int
  | .saslListmech => Option Text
  | .saslDecode64 _ => Option Text
  | .saslEncode64 _ => Option Text
  | .saslServerStart _ _ => SaslRet × Text
  | .saslServerStep _ => SaslRet × Text
  | .saslGetUsername => Option Text
  | .dnsMx _ => Option (List Rr)
  | .dnsA _ => Option (List Rr)
  | .redAlloc => Nat → AddAlloc
  | .ldapAddressLocal _ _ => LdapLocal
  | .rblCheck _ => RblStatus × Text
  | .checkReverse => Reverse × Text
  | .bannerSelect => Int
  | .daytime => Text
  | .contentFilter _ => Nat × Option Text
  | .uninitialized => Nat
  | .headerAlloc => Nat → Bool
  | .file op => FileAns op
  | _ => Bool

/-- The answers when every call fails. -/
def RecvOp.fail : (op : RecvOp) → RecvAns op
  | .read _ => .error false
  | .gettimeofday => none
  | .envId => none
  | .sslSetFd => (0 : Int)
  | .sslAccept => (0 : Int)
  | .saslListmech => none
  | .saslDecode64 _ => none
  | .saslEncode64 _ => none
  | .saslServerStart _ _ => (.other, [])
  | .saslServerStep _ => (.other, [])
  | .saslGetUsername => none
  | .dnsMx _ => none
  | .dnsA _ => none
  | .redAlloc => fun _ => ⟨false, fun _ => .fails⟩
  | .ldapAddressLocal _ _ => .sysError
  | .rblCheck _ => (.error, [])
  | .checkReverse => (.error, [])
  | .bannerSelect => (-1 : Int)
  | .daytime => []
  | .contentFilter _ => (1, none)
  | .uninitialized => (0 : Nat)
  | .headerAlloc => fun _ => false
  | .file op => (spoolFault op ⟨∅, fun _ => [], 0, 0, [], 0⟩).1
  | .write _ | .alloc | .tlsServerSetup | .sslNew | .sslGetPeerCertificate | .saslServerNew
  | .saslSetprop _ _ | .saslGetMechname | .saslSsf | .dnsTimeout | .dbOpen _ | .dbGet _ _
  | .getpwnam _ _ | .hostsCtl | .connectLimits | .setsockopt | .queueEnvelope _ | .qRunner => false

/-- What happened in a session, kept for the statements alone. -/
inductive Event
  | handshake
  | peerCertificate
  | auth
  | starttls
  | reset
  | mail (addr : Text)
  | rcpt (addr : Text)
  | dfile
  | stored (env : Envelope)
  | queued (env : Envelope)
  | bounced (env : Envelope)
  | abandoned (env : Envelope)
  deriving DecidableEq, Repr

/-- The globals that the session reads, with the values they have before the configuration is read. -/
structure RecvConf extends MxConf, Conf where
  tls : Bool := false
  sasl : Bool := false
  serviceSmtps : ServiceSmtps := .off
  smtpDefaultMode : SmtpMode := .normal
  smtpPunishmentMode : SmtpMode := .tempfail
  fromChecking : Bool := true
  strictSmtpSyntax : Bool := false
  maxMessageSize : Int := -1
  maxReceivedHeaders : Int := 100
  maxFailedRcpts : Int := 0
  userRbls : Bool := false
  rbls : Bool := false
  rblUrl : Text := []
  ignoreReverse : Bool := false
  ignoreConnectInReverseErrors : Bool := false
  mailFilter : Option Text := none
  checksumMd : Bool := false
  dataUrl : Option Text := none
  version : Text := []
  seenBeforeDomain : Text := []
  smtpRcvbufMin : Int := 0
  inboundDataSessionTimer : Int := 3600
  inboundDataLineTimer : Int := 300
  inboundCommandLineTimer : Int := 600
  inboundCommandInactivityTimer : Int := 3600
  inboundGlobalSessionTimer : Int := 0
  inboundAcceptedMessageTimer : Int := -1

/-- `MDCTX_UNINITILIZED`, `MDCTX_READY`, `MDCTX_IN_USE`, `MDCTX_FINAL`. -/
inductive MdctxStatus
  | uninitialized
  | ready
  | inUse
  | final
  deriving DecidableEq, Repr

/-- The message digest: its status, its count of bytes, and the bytes it was given. -/
structure Mdctx where
  mdStatus : MdctxStatus
  mdBytes : Nat
  mdData : Text
  deriving DecidableEq, Repr

/-- `struct receive_data`, with `simta_smtp_extension` and the host table.  `rAv` holds the words of the
    command line, a timer of 0 is not set, `rLog` is what happened so far. -/
structure ReceiveData where
  rSnet : Snet
  rEnv : Option Envelope
  rAv : List Text
  rSin : Text
  rWriteBeforeBanner : Bool
  rFailedRcpts : Int
  rTls : Bool
  rAuth : Bool
  rDnsMatch : Reverse
  rRblStatus : RblStatus
  rRblUrl : Text
  rHello : Option Text
  rRemoteHostname : Option Text
  rSmtpMode : SmtpMode
  rAuthId : Option Text
  rTvInactivity : Int
  rTvSession : Int
  rTvAccepted : Int
  rMdctx : Mdctx
  smtpExtension : Int
  hosts : List Red
  rLog : List Event
  deriving DecidableEq

/-- The state that `smtp_receive` starts from. -/
def newSession (conf : RecvConf) (sin : Text) (extension : Int) (hosts : List Red) : ReceiveData where
  rSnet := snetAttach (1024 * 1024)
  rEnv := none
  rAv := []
  rSin := sin
  rWriteBeforeBanner := false
  rFailedRcpts := 0
  rTls := false
  rAuth := false
  rDnsMatch := .unknown
  rRblStatus := .unknown
  rRblUrl := []
  rHello := none
  rRemoteHostname := none
  rSmtpMode := conf.smtpDefaultMode
  rAuthId := none
  rTvInactivity := 0
  rTvSession := 0
  rTvAccepted := 0
  rMdctx := ⟨.uninitialized, 0, []⟩
  smtpExtension := extension
  hosts := hosts
  rLog := []

/-- A function of the session. -/
abbrev Recv (α : Type) : Type := Stateful ReceiveData RecvOp RecvAns α

namespace Recv

def ask (op : RecvOp) : Recv (RecvAns op) := Stateful.ask op

/-- A function of `envelope.c`. -/
def files {α : Type} (p : SpoolProg α) : Recv α :=
  Stateful.lift (Prog.lift RecvOp.file (fun _ a => a) p)

def log (e : Event) : Recv Unit := modify fun r => { r with rLog := r.rLog ++ [e] }

end Recv

section Rules

variable {σ α β : Type} {R : Prog.World RecvOp RecvAns σ} {r : ReceiveData} {s : σ}

/-- An operation and what follows it. -/
theorem Recv.wlp_ask {op : RecvOp} {g : RecvAns op → Recv β} {Q : β → ReceiveData → σ → Prop}
    (h : ∀ a t, R op s a t → (g a).wlp R Q r t) : (Recv.ask op >>= g).wlp R Q r s := h

theorem Recv.wlp_get {g : ReceiveData → Recv β} {Q : β → ReceiveData → σ → Prop}
    (h : (g r).wlp R Q r s) : ((get : Recv ReceiveData) >>= g).wlp R Q r s := h

theorem Recv.wlp_modify {f : ReceiveData → ReceiveData} {g : Unit → Recv β}
    {Q : β → ReceiveData → σ → Prop} (h : (g ()).wlp R Q (f r) s) :
    ((modify f : Recv Unit) >>= g).wlp R Q r s := h

theorem Recv.wlp_log {e : Event} {g : Unit → Recv β} {Q : β → ReceiveData → σ → Prop}
    (h : (g ()).wlp R Q { r with rLog := r.rLog ++ [e] } s) : (Recv.log e >>= g).wlp R Q r s := h

end Rules

/-! ## Replies -/

/-- The text of a reply code, and whether the host name stands before it; the codes of the table. -/
def boilerplate : Nat → Option (Bool × Text)
  | 211 => some (true, "simta".toList)
  | 220 => some (true, "Simple Internet Message Transfer Agent ready".toList)
  | 221 => some (true, "Service closing transmission channel".toList)
  | 235 => some (false, "Authentication successful".toList)
  | 250 => some (false, "OK".toList)
  | 334 => some (false, [])
  | 354 => some (false, "Start mail input; end with <CRLF>.<CRLF>".toList)
  | 421 => some (true, "Local error in processing: closing transmission channel".toList)
  | 451 => some (false, "Local error in processing: requested action aborted".toList)
  | 500 => some (false, "Command unrecognized".toList)
  | 501 => some (false, "Syntax error in parameters or arguments".toList)
  | 502 => some (false, "Command not implemented".toList)
  | 503 => some (false, "Bad sequence of commands".toList)
  | 504 => some (false, "Unrecognized authentication type".toList)
  | 530 => some (false, "Authentication required".toList)
  | 534 => some (false, "Authentication mechanism is too weak".toList)
  | 535 => some (false, "Invalid initial-response arugment for mechanism".toList)
  | 538 => some (false, "Encryption required for requested authentication mechanism".toList)
  | 550 => some (false, "Requested action failed".toList)
  | 552 => some (false, "Message exceeds fixed maximum message size".toList)
  | 554 => some (false, "Transaction failed".toList)
  | _ => none

/-- The code that is sent: one outside the table becomes 421. -/
def replyCode (code : Nat) : Nat := if (boilerplate code).isSome then code else 421

/-- The line that `smtp_write_banner` writes. -/
def bannerLine (conf : RecvConf) (code : Nat) (msg arg : Option Text) : Text :=
  let (host, text) := (boilerplate (replyCode code)).getD (true, [])
  let tail := match arg with
    | some a => ": ".toList ++ a
    | none => []
  Nat.toDigits 10 (replyCode code) ++ " ".toList ++
    (if host then "<".toList ++ conf.hostname ++ "> ".toList else []) ++ msg.getD text ++ tail ++
    "\r\n".toList

/-- What `smtp_write_banner` returns once the line is written. -/
def bannerRet (code : Nat) : RecvRet :=
  if replyCode code = 221 ∨ replyCode code = 421 then .closeConnection else .ok

/-- `smtp_write_banner`. -/
def smtpWriteBanner (conf : RecvConf) (code : Nat) (msg arg : Option Text) : Recv RecvRet := do
  if ← Recv.ask (.write (bannerLine conf code msg arg)) then return bannerRet code
  else return .closeConnection

/-! ## The current envelope -/

/-- `set_smtp_mode`; the command table is a function of the mode. -/
def setSmtpMode (mode : SmtpMode) : Recv Unit := modify fun r => { r with rSmtpMode := mode }

/-- `deliver_accepted`: a message whose Efile is written leaves the session for its queue. -/
def deliverAccepted : Recv RecvRet := do
  let r ← get
  match r.rEnv with
  | some env =>
    if env.eFlags.efile then
      let _ ← Recv.ask (.queueEnvelope env.eId)
      Recv.log (.queued env)
      modify fun r => { r with rEnv := none }
  | none => pure ()
  if ← Recv.ask .qRunner then return .ok else return .syserror

/-- `reset`. -/
def reset : Recv RecvRet := do
  match ← deliverAccepted with
  | .ok =>
    let r ← get
    match r.rEnv with
    | some env =>
      Recv.log (.abandoned env)
      modify fun r => { r with rEnv := none }
    | none => pure ()
    Recv.log .reset
    return .ok
  | _ => return .syserror

section Rules

variable {σ : Type} {R : Prog.World RecvOp RecvAns σ} {conf : RecvConf} {r : ReceiveData} {s : σ}

/-- A reply changes nothing of the session. -/
theorem smtpWriteBanner_same (code : Nat) (msg arg : Option Text) :
    (smtpWriteBanner conf code msg arg).wlp R (fun _ r' _ => r' = r) r s := by
  refine Recv.wlp_ask fun written _ _ => ?_
  cases written <;> exact rfl

end Rules

end Simta
