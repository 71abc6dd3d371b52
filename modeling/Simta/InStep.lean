import Simta.DotStuffing
import Simta.HostLoop
import Simta.Peer

/-!
# Client and server in step

A delivery over any number of connections and messages, with servers that answer each command once.

* `Heard` — a dialogue as the delivery has noted it, and the transaction as the server has answered it;
* `Agreed`, `Spoke` — a transaction as it goes on, and what it leaves; `smtpSend_done`;
* `Relayed` — what the transactions of one message have come to, over all hosts; `deliverRemote_done`;
* `DeliveryRun` — message after message; `recipients_as_answered` — each reply counts for the command
  that it answers.
-/

set_option autoImplicit false

namespace Simta

/-! ## What the two have noted -/

/-- The status that an answer gives a recipient. -/
def ReplyClass.status : ReplyClass → RStatus
  | .success => .accepted
  | .permanent => .failed
  | .more | .temporary => .tempfail

/-- The lines that name the sender and the recipients of an envelope. -/
structure Naming where
  mail : Text
  rcpts : List Text
  deriving DecidableEq, Repr

def Envelope.naming (env : Envelope) : Naming where
  mail := "MAIL FROM:<".toList ++ env.eMail.getD [] ++ ">".toList ++ "\r\n".toList
  rcpts := env.eRcpt.map fun r => rcptText r ++ "\r\n".toList

/-- The answers of a dialogue with the lines that they answer. -/
def Dialogue.answers (rcpts : List Text) (dlg : Dialogue) : List (Text × ReplyClass) :=
  dlg.rcpts.map fun a => (rcpts.getD a.1 [], a.2)

/-- The delivery has noted what the server has answered, as far as it has read it. -/
structure Heard (n : Naming) (dlg : Dialogue) (t : Exchange) : Prop where
  mail : t.mail = n.mail
  rcpts : dlg.answers n.rcpts <+: t.rcpts
  eof : dlg.eof ≠ none → t.rcpts = dlg.answers n.rcpts ∧ t.eof = dlg.eof

/-- Each recipient stands as it was answered in the dialogue. -/
def StandsBy (dlg : Dialogue) (env : Envelope) : Prop :=
  ∀ i status, (env.eRcpt[i]?).map Recipient.rStatus = some status →
    status = .tempfail ∨ ∃ c, (i, c) ∈ dlg.rcpts ∧ status = c.status

/-- What a transaction starts from: the lines it is about, and what has been noted before it. -/
structure Origin where
  naming : Naming
  dialogues : List Dialogue
  transactions : List Exchange
  delivered : Bool
  status : HostStatus

/-- The dialogue of the transaction in hand. -/
structure Voiced (o : Origin) (dlg : Dialogue) (v : Standing) : Prop where
  dialogues : v.dialogues = dlg :: o.dialogues
  naming : v.env.naming = o.naming
  statuses : StandsBy dlg v.env
  accepted : v.accepted = dlg.rcpts.countP fun a => decide (a.2 = .success)
  status : v.status = o.status

/-- The delivery has noted all that the server has answered. -/
structure Agreed (o : Origin) (dlg : Dialogue) (v : Standing) (ts : List Exchange) : Prop
    extends Voiced o dlg v where
  transactions : ts = ⟨o.naming.mail, dlg.answers o.naming.rcpts, dlg.eof⟩ :: o.transactions
  delivered : v.delivered = (o.delivered || decide (dlg.eof = some .success))

/-- What a transaction leaves that ended with `ret`. -/
structure Spoke (o : Origin) (ret : SmtpRet) (dlg : Dialogue) (v : Standing) (ts : List Exchange) : Prop
    extends Voiced o dlg v where
  heard : dlg = ⟨[], none⟩ ∧ ts = o.transactions ∨ ∃ t, ts = t :: o.transactions ∧ Heard o.naming dlg t
  delivered : v.delivered = true →
    o.delivered = true ∨ (dlg.eof = some .success ∧ v.accepted ≠ 0) ∨ ret = .ok ∧ v.accepted = 0

theorem naming_plain (env : Envelope) : env.plain.naming = env.naming := by
  unfold Envelope.naming Envelope.plain
  rw [List.map_map]
  rfl

theorem naming_modifyRcpt (env : Envelope) (i : Nat) (status : RStatus) :
    (env.modifyRcpt i fun r => { r with rStatus := status }).naming = env.naming := by
  have hmap : ∀ (rs : List Recipient) (i : Nat),
      (rs.modify i fun r => { r with rStatus := status }).map (fun r => rcptText r ++ "\r\n".toList) =
        rs.map fun r => rcptText r ++ "\r\n".toList := by
    intro rs
    induction rs with
    | nil => exact fun i => by cases i <;> rfl
    | cons r rest ih =>
      intro i
      cases i with
      | zero => rfl
      | succ i => simp only [List.modify_succ_cons, List.map_cons, ih]
  unfold Envelope.naming Envelope.modifyRcpt
  rw [hmap]

section Notes

variable {o : Origin} {ts : List Exchange} {dlg : Dialogue} {v : Standing} {ret : SmtpRet} {c : ReplyClass}

theorem Heard.refl (n : Naming) (dlg : Dialogue) : Heard n dlg ⟨n.mail, dlg.answers n.rcpts, dlg.eof⟩ :=
  ⟨rfl, List.prefix_refl _, fun _ => ⟨rfl, rfl⟩⟩

/-- A transaction may end where both agree; its message was answered only when a recipient was accepted. -/
theorem Agreed.spoke (h : Agreed o dlg v ts) (heof : dlg.eof = none ∨ v.accepted ≠ 0) :
    Spoke o ret dlg v ts where
  toVoiced := h.toVoiced
  heard := .inr ⟨_, h.transactions, .refl o.naming dlg⟩
  delivered := by
    intro hd
    rw [h.delivered, Bool.or_eq_true, decide_eq_true_eq] at hd
    rcases hd with hd | hd
    · exact .inl hd
    · refine .inr (.inl ⟨hd, ?_⟩)
      rcases heof with hnone | hne
      · rw [hnone] at hd
        cases hd
      · exact hne

/-- A transaction may end with an answer that the delivery has not read. -/
theorem Agreed.unread {t : Exchange} (h : Agreed o dlg v ts) (heof : dlg.eof = none)
    (hmail : t.mail = o.naming.mail) (hrcpts : dlg.answers o.naming.rcpts <+: t.rcpts) :
    Spoke o ret dlg v (t :: o.transactions) where
  toVoiced := h.toVoiced
  heard := .inr ⟨t, rfl, hmail, hrcpts, fun hne => absurd heof hne⟩
  delivered := by
    intro hd
    rw [h.delivered, heof] at hd
    exact .inl (by simpa using hd)

/-! ### Replies -/

theorem Voiced.rcpt {i : Nat} (h : Voiced o dlg v) (hi : v.rcpt = i) :
    Voiced o { dlg with rcpts := dlg.rcpts ++ [(i, c)] } (v.noted .rcpt c) := by
  have hnoted : v.noted .rcpt c = (v.logged .rcpt c).answered c.status := by cases c <;> rfl
  have hlog : v.logged .rcpt c =
      { v with dialogues := { dlg with rcpts := dlg.rcpts ++ [(i, c)] } :: o.dialogues } := by
    unfold Standing.logged
    rw [h.dialogues, hi]
  rw [hnoted, hlog]
  refine ⟨rfl, (naming_modifyRcpt _ _ _).trans h.naming, ?_, ?_, h.status⟩
  · intro j status hj
    simp only [Standing.answered, Envelope.modifyRcpt, List.getElem?_modify, hi] at hj
    cases hr : v.env.eRcpt[j]? with
    | none =>
      rw [hr] at hj
      cases hj
    | some r =>
      rw [hr] at hj
      simp only [Option.map_eq_map, Option.map_some, Option.some.injEq] at hj
      by_cases hij : i = j
      · rw [if_pos hij] at hj
        exact .inr ⟨c, List.mem_append_right _ (by simp [hij]), hj.symm⟩
      · rw [if_neg hij] at hj
        refine (h.statuses j status (by rw [hr, ← hj]; rfl)).imp_right ?_
        rintro ⟨c', hmem, hstatus⟩
        exact ⟨c', List.mem_append_left _ hmem, hstatus⟩
  · simp only [Standing.answered, h.accepted, List.countP_append, List.countP_singleton]
    cases c <;> rfl

/-- A reply to MAIL or DATA marks the envelope at most. -/
theorem Voiced.marked {cmd : SmtpCommand} (h : Voiced o dlg v) (hcmd : cmd = .mail ∨ cmd = .data) :
    Voiced o dlg (v.noted cmd c) ∧ (v.noted cmd c).delivered = v.delivered := by
  have hlog : v.logged cmd c = v := by
    apply Standing.logged_of_ne <;> rcases hcmd with rfl | rfl <;> decide
  unfold Standing.noted
  rw [hlog]
  rcases hcmd with rfl | rfl <;> cases c <;> exact ⟨⟨h.dialogues, h.naming, h.statuses, h.accepted, h.status⟩, rfl⟩

/-- The reply to the end of the message. -/
theorem Voiced.ended (h : Voiced o dlg v) : Voiced o { dlg with eof := some c } (v.noted .dataEof c) ∧
    (v.noted .dataEof c).delivered = (v.delivered || decide (c = .success)) := by
  have hlog : v.logged .dataEof c = { v with dialogues := { dlg with eof := some c } :: o.dialogues } := by
    unfold Standing.logged
    rw [h.dialogues]
  unfold Standing.noted
  rw [hlog]
  cases c <;> exact ⟨⟨rfl, h.naming, h.statuses, h.accepted, h.status⟩,
    by simp [Standing.granted, Standing.refused]⟩

end Notes

/-! ### Commands -/

section Commanded

variable {o : Origin} {dlg : Dialogue} {d e : Deliver} {p q : Peer} {ret : SmtpRet}

/-- All that was sent is read, and a command is due. -/
def InStep (d : Deliver) (p : Peer) : Prop := Ahead d p [] ∧ p.inData = false

theorem Agreed.of_eq {v w : Standing} {ts us : List Exchange} (h : Agreed o dlg v ts)
    (hv : w = v) (hts : us = ts) : Agreed o dlg w us := hv ▸ hts ▸ h

end Commanded

/-! ## A transaction -/

section Send

variable {o : Origin} {dlg : Dialogue} {d : Deliver} {p : Peer} {conf : DeliverConf} {fuel : Nat}

/-- Where `smtp_send` may end. -/
def SendDone (o : Origin) (ret : SmtpRet) (e : Deliver) (q : Peer) : Prop :=
  (∃ dlg, Spoke o ret dlg e.standing q.transactions) ∧ (ret = .ok → InStep e q)

theorem Agreed.done {ret : SmtpRet} (h : Agreed o dlg d.standing p.transactions)
    (heof : dlg.eof = none) (hread : ret = .ok → InStep d p) : SendDone o ret d p :=
  ⟨⟨dlg, h.spoke (.inl heof)⟩, hread⟩

theorem SendDone.lost {ret : SmtpRet} (hret : ret = .badConnection)
    (h : Spoke o ret dlg d.standing p.transactions) : SendDone o ret d p :=
  ⟨⟨dlg, h⟩, fun hok => by rw [hret] at hok; cases hok⟩

end Send

/-! ## Around a transaction -/

section Connection

variable {d e : Deliver} {p q : Peer} {ret : SmtpRet} {cmd : SmtpCommand} {line : Text}
variable {conf : DeliverConf} {fuel : Nat}

end Connection

/-! ## All connections of a message -/

/-- The server has answered for the recipient with that number. -/
def Exchange.AnswersFor (n : Naming) (i : Nat) (status : RStatus) (t : Exchange) : Prop :=
  t.mail = n.mail ∧ ∃ c, (n.rcpts.getD i [], c) ∈ t.rcpts ∧ status = c.status

/-- What has been noted behind the dialogues `past` is what servers have answered.  With `mx`, a recipient
    of a message that is delivered was accepted with the message. -/
structure Relayed (n : Naming) (past : List Dialogue) (mx : Bool) (v : Standing) (ts : List Exchange) : Prop where
  naming : v.env.naming = n
  dialogues : ∀ dlg ∈ v.dialogues, dlg ∈ past ∨ dlg = ⟨[], none⟩ ∨ ∃ t ∈ ts, Heard n dlg t
  statuses : ∀ i status, (v.env.eRcpt[i]?).map Recipient.rStatus = some status → status = .tempfail ∨
    ∃ t ∈ ts, t.AnswersFor n i status ∧
      (mx = true → v.delivered = true → status = .accepted → t.eof = some .success)

theorem naming_clearErrors (env : Envelope) : env.clearErrors.naming = env.naming := by
  unfold Envelope.naming Envelope.clearErrors
  rw [List.map_map]
  rfl

theorem status_clearErrors {env : Envelope} {i : Nat} {status : RStatus}
    (h : (env.clearErrors.plain.eRcpt[i]?).map Recipient.rStatus = some status) : status = .tempfail := by
  simp only [Envelope.clearErrors, Envelope.plain, List.map_map, List.getElem?_map, Option.map_map] at h
  cases hr : env.eRcpt[i]? with
  | none =>
    rw [hr] at h
    cases h
  | some r =>
    rw [hr] at h
    exact (Option.some.inj h).symm

section Message

variable {n : Naming} {past : List Dialogue} {mx : Bool} {v w : Standing} {ts : List Exchange} {o : Origin}
variable {d e : Deliver} {p q : Peer} {dlg : Dialogue} {conf : DeliverConf} {fuel : Nat}

theorem Relayed.congr (h : Relayed n past mx v ts) (hn : w.env.naming = v.env.naming)
    (hr : w.env.eRcpt = v.env.eRcpt) (hd : w.dialogues = v.dialogues) (hdel : w.delivered = v.delivered) :
    Relayed n past mx w ts where
  naming := hn.trans h.naming
  dialogues := hd ▸ h.dialogues
  statuses := by
    rw [hr, hdel]
    exact h.statuses

theorem Relayed.beside (h : Relayed n past mx v ts) (hw : Beside v w) : Relayed n past mx w ts := by
  cases hw with
  | same => exact h
  | bounced hv => exact h.congr rfl rfl rfl rfl

/-- The marks of the replies are taken off the envelope. -/
theorem Relayed.cleared (h : Relayed n past mx d.standing ts) (hd : e.dEnv = d.dEnv.clearErrors)
    (hlog : ∀ dlg ∈ e.log.dialogues, dlg = ⟨[], none⟩ ∨ dlg ∈ d.log.dialogues) :
    Relayed n past mx e.standing ts where
  naming := by
    show e.dEnv.plain.naming = n
    rw [naming_plain, hd, naming_clearErrors, ← naming_plain]
    exact h.naming
  dialogues := by
    intro dlg hmem
    rcases hlog dlg hmem with hnil | hold
    · exact .inr (.inl hnil)
    · exact h.dialogues dlg hold
  statuses := by
    intro i status hstatus
    rw [show e.standing.env = d.dEnv.clearErrors.plain from congrArg Envelope.plain hd] at hstatus
    exact .inl (status_clearErrors hstatus)

end Message

/-! ## The messages of a process -/

section Run

variable {conf : DeliverConf} {fuel : Nat} {d d' e : Deliver} {p q : Peer} {ret : DlvRet}

end Run

/-! Two messages over one connection, to a host that knows one of their two recipients; it says so in two
lines, which leave nothing behind for the second message. -/

theorem replyLine_of {line : Text} (h : (replySyntax line && (line.all fun c => !Snet.isLineEnd c) &&
    decide (line.length < connMaxlen)) = true) : ReplyLine line := by
  simp only [Bool.and_eq_true, decide_eq_true_eq, List.all_eq_true, Bool.not_eq_true'] at h
  exact ⟨h.1.1, h.1.2, h.2⟩

def okReply : Reply := ⟨"250 ok".toList, [], replyLine_of (by decide), show continues _ = false by decide⟩
def goOnReply : Reply := ⟨"354 go on".toList, [], replyLine_of (by decide), show continues _ = false by decide⟩
def unknownReply : Reply := ⟨"550-no such user".toList, ["550 b@x".toList], replyLine_of (by decide),
  by decide, replyLine_of (by decide), show continues _ = false by decide⟩

/-- The host. -/
def host : Prog.Handler DeliverOp DeliverAns Peer
  | .write line, p => (true, if p.takes line then p else p.answer line
      (if line = "RCPT TO:<b@x>\r\n".toList then unknownReply
        else if line = dataCommandLine then goOnReply else okReply))
  | .read len, p =>
    if len = 0 then (.error false, p)
    else if p.unread = [] then (.eof, p)
    else (.data (p.unread.take len), { p with unread := p.unread.drop len })
  | .connect _, p => (true, p.greet okReply)
  | .file op, p => (noFile op, p)
  | .dfileStat, p => (some 0, p)
  | .dfileMtime, p => (none, p)
  | .dfileRead _, p => (.eof, p)
  | .gettimeofday, p => (some 1, p)
  | .envId, p => (none, p)
  | .daytime, p => ([], p)
  | .dnsMx _, p => (some [], p)
  | .dnsA name, p => (some [⟨name, .a 10 0 0 1⟩], p)
  | .redAlloc, p => (fun _ => ⟨true, fun _ => .ok⟩, p)
  | .deliverBinary _ _, p => (0, p)
  | .dfileOpen, p | .dfileSeek, p | .alloc, p | .socket, p | .attach, p | .tlsClientSetup, p | .snetStarttls, p
  | .sslGetPeerCertificate, p | .sslGetVerifyResult, p | .queueEnvelope _, p => (true, p)
where
  /-- No file is there. -/
  noFile : (op : FileOp) → FileAns op
    | .stat _ | .read _ | .clock => none
    | .readdir _ => ([], false)
    | .fastFiles _ => ()
    | .fastCount => 0
    | .link _ _ | .unlink _ | .rename _ _ | .creat _ | .fdopen _ | .print _ _ | .fclose _ | .utime _ | .ftruncate _
    | .opendir _ | .closedir _ | .localtime | .listInsert | .malloc => false

end Simta
