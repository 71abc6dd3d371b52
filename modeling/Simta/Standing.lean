import Simta.Delivery

/-!
# What a reply changes

A delivery as its recipients see it: who has accepted or refused whom, and what the envelope is
marked with.  Connections, buffers, kept texts and the search for a host are left out.

* `Standing` — that part of `struct deliver`; `Standing.noted` — what a reply changes in it;
* `OnFiles`, `Undisturbed`, `Offline` — worlds that fewer and fewer of the calls change;
* `smtpReply_noted` — `smtp_reply` notes one reply and does nothing else to it;
* `keeps_smtpRset`, `keeps_smtpStarttls`, `nextDnsrHostLookup_keeps` — what stands around a transaction;
* `sendMessage_text`, `sendMessage_noted` — the text of a message is sent without an answer but to its end.
-/

set_option autoImplicit false

namespace Simta

/-! ## The standing of a delivery -/

def Recipient.plain (r : Recipient) : Recipient := { r with rErrText := none }

/-- The envelope without the replies that are kept in it. -/
def Envelope.plain (env : Envelope) : Envelope :=
  { env with eErrText := none, eRcpt := env.eRcpt.map Recipient.plain }

/-- The part of a delivery that decides about the message. -/
structure Standing where
  env : Envelope
  rcpt : Nat
  accepted : Nat
  failed : Nat
  tempfailed : Nat
  delivered : Bool
  unlinked : Bool
  status : HostStatus
  isPuntQ : Bool
  dialogues : List Dialogue
  locals : List (Nat × Int)
  bounce : Option (List Nat)
  deriving DecidableEq

def Deliver.standing (d : Deliver) : Standing where
  env := d.dEnv.plain
  rcpt := d.dRcpt
  accepted := d.dNRcptAccepted
  failed := d.dNRcptFailed
  tempfailed := d.dNRcptTempfailed
  delivered := d.dDelivered
  unlinked := d.dUnlinked
  status := d.hqStatus
  isPuntQ := d.hqIsPuntQ
  dialogues := d.log.dialogues
  locals := d.log.locals
  bounce := d.log.bounce

namespace Standing

/-- The reply is entered in the record of the dialogue. -/
def logged (v : Standing) (cmd : SmtpCommand) (c : ReplyClass) : Standing :=
  match v.dialogues with
  | [] => v
  | dlg :: rest =>
    match cmd with
    | .rcpt => { v with dialogues := { dlg with rcpts := dlg.rcpts ++ [(v.rcpt, c)] } :: rest }
    | .dataEof => { v with dialogues := { dlg with eof := some c } :: rest }
    | _ => v

/-- The recipient in hand has its answer. -/
def answered (v : Standing) (status : RStatus) : Standing :=
  { v with
    env := v.env.modifyRcpt v.rcpt fun r => { r with rStatus := status }
    accepted := v.accepted + if status = .accepted then 1 else 0
    failed := v.failed + if status = .failed then 1 else 0
    tempfailed := v.tempfailed + if status = .tempfail then 1 else 0 }

/-- A reply that grants what the command asks. -/
def granted (v : Standing) : SmtpCommand → Standing
  | .rcpt => v.answered .accepted
  | .data => { v with env := v.env.setTempfail true }
  | .dataEof => { v with delivered := true }
  | _ => v

/-- A reply that refuses it. -/
def refused (v : Standing) (permanent : Bool) : SmtpCommand → Standing
  | .mail | .data | .dataEof =>
    { v with env := if permanent then v.env.setBounce true else v.env.setTempfail true }
  | .rcpt => v.answered (if permanent then .failed else .tempfail)
  | .connect => { v with status := if permanent ∧ v.status = .down then .bounce else v.status }
  | .helo | .ehlo | .starttls | .rset | .quit => v

/-- What a reply changes. -/
def noted (v : Standing) (cmd : SmtpCommand) (c : ReplyClass) : Standing :=
  match c with
  | .success => (v.logged cmd c).granted cmd
  | .more => if cmd = .data then v.logged cmd c else (v.logged cmd c).refused false cmd
  | .temporary => (v.logged cmd c).refused false cmd
  | .permanent => (v.logged cmd c).refused true cmd

end Standing

/-! ### The texts that are kept -/

theorem map_plain_modify (rcpts : List Recipient) (i : Nat) (f g : Recipient → Recipient)
    (h : ∀ r, (f r).plain = g r.plain) :
    (rcpts.modify i f).map Recipient.plain = (rcpts.map Recipient.plain).modify i g := by
  induction rcpts generalizing i with
  | nil => cases i <;> rfl
  | cons r rest ih =>
    cases i with
    | zero => simp [h]
    | succ i => simp [ih]

theorem standing_setErrText (d : Deliver) (text : List Text) (target : ErrText) :
    (setErrText d text target).standing = d.standing := by
  cases target with
  | hq => rfl
  | env => rfl
  | rcpt =>
    have h := map_plain_modify d.dEnv.eRcpt d.dRcpt (fun r => { r with rErrText := some text }) id
      fun _ => rfl
    rw [List.modify_id] at h
    simp only [Deliver.standing, setErrText, Envelope.plain, Envelope.modifyRcpt, h]

theorem standing_noteRcpt (d : Deliver) (status : RStatus) :
    ({ d with
      dEnv := d.dEnv.modifyRcpt d.dRcpt fun r => { r with rStatus := status }
      dNRcptAccepted := d.dNRcptAccepted + if status = .accepted then 1 else 0
      dNRcptFailed := d.dNRcptFailed + if status = .failed then 1 else 0
      dNRcptTempfailed := d.dNRcptTempfailed + if status = .tempfail then 1 else 0 } : Deliver).standing =
      d.standing.answered status := by
  have h := map_plain_modify d.dEnv.eRcpt d.dRcpt (fun r => { r with rStatus := status })
    (fun r => { r with rStatus := status }) fun _ => rfl
  simp only [Deliver.standing, Standing.answered, Envelope.plain, Envelope.modifyRcpt, h]

/-! ## Worlds -/

def DeliverOp.isFile : DeliverOp → Bool
  | .file _ => true
  | _ => false

/-- Only the calls on files change the world. -/
def OnFiles {σ : Type} (R : Prog.World DeliverOp DeliverAns σ) : Prop :=
  ∀ op s a t, op.isFile = false → R op s a t → t = s

/-- The calls that neither a file nor a server hears of. -/
def DeliverOp.quiet : DeliverOp → Bool
  | .file _ | .write _ | .connect _ => false
  | _ => true

/-- Those calls leave the world alone. -/
def Undisturbed {σ : Type} (R : Prog.World DeliverOp DeliverAns σ) : Prop :=
  ∀ op s a t, op.quiet = true → R op s a t → t = s

/-- The calls that have nothing to do with a connection either. -/
def DeliverOp.offline : DeliverOp → Bool
  | .file _ | .write _ | .connect _ | .read _ => false
  | _ => true

def Offline {σ : Type} (R : Prog.World DeliverOp DeliverAns σ) : Prop :=
  ∀ op s a t, op.offline = true → R op s a t → t = s

theorem Undisturbed.offline {σ : Type} {R : Prog.World DeliverOp DeliverAns σ} (hR : Undisturbed R) : Offline R := by
  intro op s a t hop
  refine hR op s a t ?_
  cases op with
  | file | write | connect | read => cases hop
  | dfileOpen | dfileStat | dfileMtime | dfileSeek | dfileRead | gettimeofday | alloc | envId | daytime | dnsMx
  | dnsA | redAlloc | socket | attach | tlsClientSetup | snetStarttls | sslGetPeerCertificate
  | sslGetVerifyResult | deliverBinary | queueEnvelope => rfl

theorem OnFiles.quiet {σ : Type} {R : Prog.World DeliverOp DeliverAns σ} (hR : OnFiles R) : Undisturbed R := by
  intro op s a t hop
  refine hR op s a t ?_
  cases op with
  | file op => cases hop
  | write | read | dfileOpen | dfileStat | dfileMtime | dfileSeek | dfileRead | gettimeofday | alloc | envId
  | daytime | dnsMx | dnsA | redAlloc | socket | connect | attach | tlsClientSetup | snetStarttls
  | sslGetPeerCertificate | sslGetVerifyResult | deliverBinary | queueEnvelope => rfl

/-! ## What leaves the standing alone -/

/-- Reading a line leaves alone what every read leaves alone. -/
theorem Snet.keeps_getline {ρ Op γ σ : Type} {Ans : Op → Type} {R : Prog.World Op Ans σ} {view : ρ → γ}
    {read : Nat → Stateful ρ Op Ans ReadResult} (hread : ∀ len, Stateful.Keeps R view (read len)) (sn : Snet) :
    Stateful.Keeps R view (sn.getline read) := by
  have hloop : ∀ n sn, Stateful.Keeps R view (getlineLoop read n sn) := by
    intro n
    induction n with
    | zero => exact fun sn => Stateful.keeps_pure _
    | succ n ih =>
      intro sn
      simp only [getlineLoop]
      split
      · exact Stateful.keeps_pure _
      · split
        · exact Stateful.keeps_pure _
        · refine Stateful.keeps_bind (hread _) fun a => ?_
          split
          · split
            · exact Stateful.keeps_pure _
            · exact ih _
          · exact Stateful.keeps_pure _
          · split <;> exact Stateful.keeps_pure _
  exact hloop _ sn

section Keeps

variable {σ : Type} {R : Prog.World DeliverOp DeliverAns σ}

theorem keeps_ask (hR : Undisturbed R) {op : DeliverOp} (hop : op.quiet = true) :
    Stateful.Keeps R Deliver.standing (Dlv.ask op) :=
  Stateful.keeps_ask fun s a t => hR op s a t hop

theorem keeps_call (hR : OnFiles R) {op : DeliverOp} (hop : op.isFile = false) :
    Stateful.Keeps R Deliver.standing (Dlv.ask op) :=
  Stateful.keeps_ask fun s a t => hR op s a t hop

theorem keeps_smtpGetline (hR : Undisturbed R) : Stateful.Keeps R Deliver.standing smtpGetline := by
  unfold smtpGetline
  refine Stateful.keeps_bind Stateful.keeps_get fun d => ?_
  split
  · exact Stateful.keeps_pure _
  · refine Stateful.keeps_bind (Snet.keeps_getline (fun len => keeps_ask hR rfl) _) fun p => ?_
    refine Stateful.keeps_bind (Stateful.keeps_modify fun _ => rfl) fun _ => ?_
    split <;> exact Stateful.keeps_pure _

theorem keeps_getlineMulti (hR : Undisturbed R) (fuel : Nat) :
    Stateful.Keeps R Deliver.standing (getlineMulti fuel) := by
  induction fuel with
  | zero => exact Stateful.keeps_pure _
  | succ fuel ih =>
    refine Stateful.keeps_bind (keeps_smtpGetline hR) fun line => ?_
    split
    · exact Stateful.keeps_pure _
    · split
      · split
        · exact ih
        · exact Stateful.keeps_pure _
      · exact Stateful.keeps_pure _

theorem keeps_lineAppend (hR : Undisturbed R) (target : ErrText) (line : Text) :
    Stateful.Keeps R Deliver.standing (lineAppend target line) := by
  refine Stateful.keeps_bind (keeps_ask hR rfl) fun ok => ?_
  split
  · refine Stateful.keeps_bind (Stateful.keeps_modify fun d => ?_) fun _ => Stateful.keeps_pure _
    exact standing_setErrText d _ target
  · exact Stateful.keeps_pure _

theorem keeps_consumeRest (hR : Undisturbed R) (fuel : Nat) (line : Text) (ret : SmtpRet) :
    Stateful.Keeps R Deliver.standing (consumeRest fuel line ret) := by
  unfold consumeRest
  split
  · refine Stateful.keeps_bind (keeps_getlineMulti hR fuel) fun l => ?_
    split <;> exact Stateful.keeps_pure _
  · exact Stateful.keeps_pure _

theorem keeps_consumeLines (hR : Undisturbed R) (target : Option ErrText) (fuel : Nat) :
    ∀ line, Stateful.Keeps R Deliver.standing (consumeLines target fuel line) := by
  induction fuel with
  | zero => exact fun _ => Stateful.keeps_pure _
  | succ fuel ih =>
    intro line
    unfold consumeLines
    split
    · refine Stateful.keeps_bind (keeps_smtpGetline hR) fun l => ?_
      split
      · exact Stateful.keeps_pure _
      · split
        · refine Stateful.keeps_bind (Stateful.keeps_modify fun _ => rfl) fun _ => ?_
          split
          · exact ih _
          · refine Stateful.keeps_bind (keeps_lineAppend hR _ _) fun ok => ?_
            split
            · exact ih _
            · exact keeps_consumeRest hR _ _ _
        · exact Stateful.keeps_pure _
    · exact Stateful.keeps_pure _

theorem keeps_consumeOpen (hR : Undisturbed R) (t : ErrText) :
    Stateful.Keeps R Deliver.standing (consumeOpen t) := by
  unfold consumeOpen
  refine Stateful.keeps_bind Stateful.keeps_get fun d => ?_
  split
  · refine Stateful.keeps_bind (keeps_ask hR rfl) fun ok => ?_
    split
    · refine Stateful.keeps_bind (Stateful.keeps_modify fun d => ?_) fun _ => Stateful.keeps_pure _
      exact standing_setErrText d _ t
    · exact Stateful.keeps_pure _
  · exact keeps_lineAppend hR _ _

theorem keeps_smtpConsumeBanner (hR : Undisturbed R) (fuel : Nat) (target : Option ErrText) (line error : Text) :
    Stateful.Keeps R Deliver.standing (smtpConsumeBanner fuel target line error) := by
  unfold smtpConsumeBanner
  split
  · refine Stateful.keeps_bind (keeps_consumeOpen hR _) fun ok => ?_
    split
    · refine Stateful.keeps_bind (keeps_lineAppend hR _ _) fun ok => ?_
      split
      · refine Stateful.keeps_bind (keeps_lineAppend hR _ _) fun ok => ?_
        split
        · exact keeps_consumeLines hR _ _ _
        · exact keeps_consumeRest hR _ _ _
      · exact keeps_consumeRest hR _ _ _
    · exact keeps_consumeRest hR _ _ _
  · refine Stateful.keeps_bind Stateful.keeps_get fun d => ?_
    split
    · exact keeps_consumeLines hR _ _ _
    · exact keeps_consumeRest hR _ _ _

theorem keeps_badGreeting (hR : Undisturbed R) (fuel : Nat) (line error : Text) :
    Stateful.Keeps R Deliver.standing (badGreeting fuel line error) := by
  refine Stateful.keeps_bind (keeps_smtpConsumeBanner hR _ _ _ _) fun ret => ?_
  split <;> exact Stateful.keeps_pure _

theorem keeps_greeting (hR : Undisturbed R) (conf : DeliverConf) (fuel : Nat) (line : Text) :
    Stateful.Keeps R Deliver.standing (greeting conf fuel line) := by
  unfold greeting
  split
  · exact keeps_badGreeting hR _ _ _
  · refine Stateful.keeps_bind (keeps_ask hR rfl) fun ok => ?_
    split
    · refine Stateful.keeps_bind (Stateful.keeps_modify fun _ => rfl) fun _ => ?_
      split
      · exact keeps_badGreeting hR _ _ _
      · exact keeps_smtpConsumeBanner hR _ _ _ _
    · exact Stateful.keeps_pure _

end Keeps

/-! ## One reply -/

/-- What `smtp_reply` may come to: no line came, or one did and its first character was noted. -/
inductive Answered (cmd : SmtpCommand) (v : Standing) : SmtpRet → Standing → Prop
  | lost : Answered cmd v .badConnection v
  | noted (ret : SmtpRet) (c : ReplyClass) : Answered cmd v ret (v.noted cmd c)

theorem standing_logReply (d : Deliver) (cmd : SmtpCommand) (c : ReplyClass) :
    (match d.log.dialogues with
      | [] => d
      | dlg :: rest =>
        match cmd with
        | .rcpt => { d with
            log.dialogues := { dlg with rcpts := dlg.rcpts ++ [(d.dRcpt, c)] } :: rest }
        | .dataEof => { d with log.dialogues := { dlg with eof := some c } :: rest }
        | _ => d).standing = d.standing.logged cmd c := by
  unfold Standing.logged
  cases h : d.log.dialogues with
  | nil => simp [Deliver.standing, h]
  | cons dlg rest => cases cmd <;> simp [Deliver.standing, h]

section Replies

variable {σ : Type} {R : Prog.World DeliverOp DeliverAns σ} {d : Deliver} {s : σ}
variable {conf : DeliverConf} {fuel : Nat} {cmd : SmtpCommand}

/-- A part of `smtp_reply` that is left with reading. -/
theorem noted_of_keeps {m : Dlv SmtpRet} {d' : Deliver} {v : Standing}
    (hm : Stateful.Keeps R Deliver.standing m) (hd : d'.standing = v) :
    m.wlp R (fun _ e s' => e.standing = v ∧ s' = s) d' s :=
  hd ▸ hm d' s

theorem refused_noted (hR : Undisturbed R) {permanent : Bool} {c : ReplyClass} {line : Text} {d' : Deliver}
    (hd : d'.standing = d.standing.logged cmd c)
    (hc : d.standing.noted cmd c = (d.standing.logged cmd c).refused permanent cmd) :
    (refused fuel cmd permanent line).wlp R
      (fun _ e s' => e.standing = d.standing.noted cmd c ∧ s' = s) d' s := by
  have hnote : (noteRefusal cmd permanent).wlp R
      (fun _ e s' => e.standing = d.standing.noted cmd c ∧ s' = s) d' s := by
    rw [hc, ← hd]
    cases cmd with
    | rcpt => exact ⟨standing_noteRcpt d' _, rfl⟩
    | mail | data | dataEof => cases permanent <;> exact ⟨rfl, rfl⟩
    | connect | helo | ehlo | rset | quit | starttls => exact ⟨rfl, rfl⟩
  refine Stateful.wlp_seq hnote ?_
  rintro - e s' ⟨he, rfl⟩
  refine noted_of_keeps ?_ he
  split
  · exact keeps_smtpConsumeBanner hR _ _ _ _
  · refine Stateful.keeps_bind (keeps_smtpConsumeBanner hR _ _ _ _) fun ret => ?_
    split <;> exact Stateful.keeps_pure _

theorem accepted_noted (hR : Undisturbed R) {line : Text} {d' : Deliver}
    (hd : d'.standing = d.standing.logged cmd .success) :
    (accepted conf fuel cmd line).wlp R
      (fun _ e s' => e.standing = d.standing.noted cmd .success ∧ s' = s) d' s := by
  have hc : d.standing.noted cmd .success = (d.standing.logged cmd .success).granted cmd := rfl
  rw [hc, ← hd]
  cases cmd with
  | connect => exact noted_of_keeps (keeps_greeting hR _ _ _) rfl
  | rcpt =>
    refine (Stateful.wlp_bind _ _).mpr ?_
    exact noted_of_keeps (keeps_smtpConsumeBanner hR _ _ _ _) (standing_noteRcpt d' _)
  | data =>
    refine (Stateful.wlp_bind _ _).mpr ?_
    exact noted_of_keeps (keeps_smtpConsumeBanner hR _ _ _ _) rfl
  | dataEof =>
    refine (Stateful.wlp_bind _ _).mpr ?_
    exact noted_of_keeps (keeps_smtpConsumeBanner hR _ _ _ _) rfl
  | helo | ehlo | mail | rset | quit | starttls =>
    exact noted_of_keeps (m := smtpConsumeBanner fuel none line []) (keeps_smtpConsumeBanner hR _ _ _ _) rfl

/-- `smtp_reply` behind the first line. -/
def noteReply (conf : DeliverConf) (fuel : Nat) (cmd : SmtpCommand) (line : Text) : Dlv SmtpRet := do
  logReply cmd (replyClass line)
  match replyClass line with
  | .success => accepted conf fuel cmd line
  | .more => if cmd = .data then smtpConsumeBanner fuel none line [] else refused fuel cmd false line
  | .temporary => refused fuel cmd false line
  | .permanent => refused fuel cmd true line

theorem smtpReply_eq : smtpReply conf fuel cmd =
    smtpGetline >>= fun line => line.elim (pure .badConnection) (noteReply conf fuel cmd) := by
  refine congrArg (smtpGetline >>= ·) (funext fun line => ?_)
  cases line <;> rfl

/-- **One reply**: the standing changes as the first character of its first line says. -/
theorem noteReply_noted (hR : Undisturbed R) {line : Text} :
    (noteReply conf fuel cmd line).wlp R
      (fun _ e s' => e.standing = d.standing.noted cmd (replyClass line) ∧ s' = s) d s := by
  have hlog := fun c => standing_logReply d cmd c
  refine (Stateful.wlp_bind _ _).mpr ((Stateful.wlp_modify _).mpr ?_)
  cases replyClass line with
  | success => exact accepted_noted hR (hlog _)
  | more =>
    dsimp only
    by_cases hcmd : cmd = .data
    · rw [if_pos hcmd]
      exact noted_of_keeps (keeps_smtpConsumeBanner hR _ _ _ _) ((hlog .more).trans (if_pos hcmd).symm)
    · rw [if_neg hcmd]
      exact refused_noted hR (hlog .more) (if_neg hcmd)
  | temporary => exact refused_noted hR (hlog _) rfl
  | permanent => exact refused_noted hR (hlog _) rfl

/-- Whatever the server sends, a reply is noted or there is none. -/
theorem smtpReply_noted (hR : Undisturbed R) :
    (smtpReply conf fuel cmd).wlp R (fun ret e s' => Answered cmd d.standing ret e.standing ∧ s' = s) d s := by
  rw [smtpReply_eq]
  refine (keeps_smtpGetline hR).seq fun line e he => ?_
  rw [← he]
  cases line with
  | none => exact ⟨.lost, rfl⟩
  | some line =>
    refine Stateful.wlp_mono ?_ (noteReply_noted hR)
    rintro ret e' s' ⟨he', rfl⟩
    exact ⟨he' ▸ .noted ret _, rfl⟩

/-- A command and its reply. -/
theorem smtpCommand_noted (hR : OnFiles R) {line : Text} :
    (smtpCommand conf fuel cmd line).wlp R
      (fun ret e s' => Answered cmd d.standing ret e.standing ∧ s' = s) d s := by
  refine (keeps_call hR rfl).seq fun ok e he => ?_
  rw [← he]
  split
  · exact smtpReply_noted hR.quiet
  · exact ⟨.lost, rfl⟩

end Replies

/-! ## Around a transaction -/

/-- The commands whose replies say nothing about the message or a recipient. -/
def SmtpCommand.outside : SmtpCommand → Bool
  | .helo | .ehlo | .rset | .quit | .starttls => true
  | .connect | .mail | .rcpt | .data | .dataEof => false

theorem Standing.logged_of_ne {v : Standing} {cmd : SmtpCommand} {c : ReplyClass} (hr : cmd ≠ .rcpt)
    (he : cmd ≠ .dataEof) : v.logged cmd c = v := by
  unfold Standing.logged
  split
  · rfl
  · cases cmd with
    | rcpt => exact absurd rfl hr
    | dataEof => exact absurd rfl he
    | connect | helo | ehlo | mail | data | rset | quit | starttls => rfl

theorem Standing.noted_outside {v : Standing} {cmd : SmtpCommand} {c : ReplyClass}
    (h : cmd.outside = true) : v.noted cmd c = v := by
  have hlog : v.logged cmd c = v := Standing.logged_of_ne (by rintro rfl; cases h) (by rintro rfl; cases h)
  unfold Standing.noted
  rw [hlog]
  cases cmd with
  | helo | ehlo | rset | quit | starttls => cases c <;> rfl
  | connect | mail | rcpt | data | dataEof => cases h

section Around

variable {σ : Type} {R : Prog.World DeliverOp DeliverAns σ} {d : Deliver} {s : σ}
variable {conf : DeliverConf} {fuel : Nat} {cmd : SmtpCommand}

theorem keeps_of_answered {m : Dlv SmtpRet} (h : cmd.outside = true)
    (hm : ∀ d s, m.wlp R (fun ret e s' => Answered cmd d.standing ret e.standing ∧ s' = s) d s) :
    Stateful.Keeps R Deliver.standing m := by
  intro d s
  refine Stateful.wlp_mono ?_ (hm d s)
  rintro ret e s' ⟨he, rfl⟩
  refine ⟨?_, rfl⟩
  generalize e.standing = v at he
  cases he with
  | lost => rfl
  | noted c => exact Standing.noted_outside h

theorem keeps_smtpReply (hR : OnFiles R) (h : cmd.outside = true) :
    Stateful.Keeps R Deliver.standing (smtpReply conf fuel cmd) :=
  keeps_of_answered h fun _ _ => smtpReply_noted hR.quiet

theorem keeps_smtpCommand (hR : OnFiles R) (h : cmd.outside = true) (line : Text) :
    Stateful.Keeps R Deliver.standing (smtpCommand conf fuel cmd line) :=
  keeps_of_answered h fun _ _ => smtpCommand_noted hR

theorem keeps_smtpRset (hR : OnFiles R) : Stateful.Keeps R Deliver.standing (smtpRset conf fuel) :=
  keeps_smtpCommand hR rfl _

theorem keeps_smtpQuit (hR : OnFiles R) : Stateful.Keeps R Deliver.standing (smtpQuit conf fuel) :=
  Stateful.keeps_bind (keeps_smtpCommand hR rfl _) fun _ => Stateful.keeps_pure _

theorem keeps_smtpStarttls (hR : OnFiles R) : Stateful.Keeps R Deliver.standing (smtpStarttls conf fuel) := by
  refine Stateful.keeps_bind (keeps_call hR rfl) fun ok => ?_
  split
  · refine Stateful.keeps_bind (keeps_call hR rfl) fun ok => ?_
    split
    · refine Stateful.keeps_bind (Stateful.keeps_modify fun _ => rfl) fun _ => ?_
      refine Stateful.keeps_bind (keeps_call hR rfl) fun ok => ?_
      split
      · refine Stateful.keeps_bind (keeps_call hR rfl) fun ok => ?_
        split
        · exact keeps_smtpCommand hR rfl _
        · exact Stateful.keeps_pure _
      · exact Stateful.keeps_pure _
    · exact Stateful.keeps_pure _
  · exact Stateful.keeps_pure _

end Around

/-! ## The search for a host -/

/-- A delivery but for the search. -/
def Deliver.unsearched (d : Deliver) : Deliver :=
  { d with
    dQueueMovement := false
    dRetryList := []
    dRetryCur := none
    dDnsrResult := none
    dDnsrResultIp := none
    dSin := ⟨0, 0, 0, 0⟩
    dMxPreferenceCutoff := 0
    dCurDnsrResult := 0
    dCurDnsrResultIp := 0
    hqNoPuntMx := false
    hosts := [] }

/-- What the search does not decide. -/
def Unsearched (I : Deliver → Prop) : Prop := ∀ d e : Deliver, e.unsearched = d.unsearched → I d → I e

theorem unsearched_standing (d : Deliver) : Unsearched fun e => e.standing = d.standing := by
  intro d' e h hd
  have hs : e.unsearched.standing = d'.unsearched.standing := congrArg Deliver.standing h
  exact hs.trans hd

section Search

variable {σ : Type} {R : Prog.World DeliverOp DeliverAns σ} {I : Deliver → Prop} {d : Deliver} {s : σ}
variable {conf : DeliverConf}

theorem keeps_unheard (hR : Offline R) {op : DeliverOp} (hop : op.offline = true) :
    Stateful.Keeps R Deliver.unsearched (Dlv.ask op) :=
  Stateful.keeps_ask fun s a t => hR op s a t hop

theorem keeps_tryAddress (ip : Ip) : Stateful.Keeps R Deliver.unsearched (tryAddress ip) :=
  Stateful.keeps_bind (Stateful.keeps_modify fun _ => rfl) fun _ => Stateful.keeps_pure _

theorem keeps_retryHost : Stateful.Keeps R Deliver.unsearched retryHost := by
  refine Stateful.keeps_bind Stateful.keeps_get fun d => ?_
  split
  · exact keeps_tryAddress _
  · exact Stateful.keeps_pure _

theorem keeps_retryStart : Stateful.Keeps R Deliver.unsearched retryStart := by
  refine Stateful.keeps_bind Stateful.keeps_get fun d => ?_
  split
  · exact Stateful.keeps_pure _
  · exact Stateful.keeps_bind (Stateful.keeps_modify fun _ => rfl) fun _ => keeps_retryHost

theorem keeps_nextAnswer (hR : Offline R) (answers : List MxAnswer) :
    ∀ i, Stateful.Keeps R Deliver.unsearched (nextAnswer conf answers i) := by
  induction answers with
  | nil => exact fun i => Stateful.keeps_bind (Stateful.keeps_modify fun _ => rfl) fun _ => Stateful.keeps_pure _
  | cons answer rest ih =>
    intro i
    refine Stateful.keeps_bind (Stateful.keeps_modify fun _ => rfl) fun _ => ?_
    refine Stateful.keeps_bind Stateful.keeps_get fun d => ?_
    split
    · split
      · exact ih _
      · exact keeps_tryAddress _
    · split
      · exact ih _
      · split
        · exact keeps_retryStart
        · split
          · exact keeps_tryAddress _
          · refine Stateful.keeps_bind (keeps_unheard hR rfl) fun rrs => ?_
            split
            · exact ih _
            · exact ih _
            · exact Stateful.keeps_bind (Stateful.keeps_modify fun _ => rfl) fun _ => Stateful.keeps_pure _
    · exact ih _

theorem keeps_nextAddress (rrs : List Rr) : ∀ i, Stateful.Keeps R Deliver.unsearched (nextAddress rrs i) := by
  induction rrs with
  | nil => exact fun i => Stateful.keeps_bind (Stateful.keeps_modify fun _ => rfl) fun _ => Stateful.keeps_pure _
  | cons rr rest ih =>
    intro i
    refine Stateful.keeps_bind (Stateful.keeps_modify fun _ => rfl) fun _ => ?_
    split
    · exact ih _
    · split
      · exact ih _
      · exact keeps_tryAddress _

theorem keeps_retryNext (i : Nat) : Stateful.Keeps R Deliver.unsearched (retryNext i) := by
  refine Stateful.keeps_bind Stateful.keeps_get fun d => ?_
  split
  · exact Stateful.keeps_bind (Stateful.keeps_modify fun _ => rfl) fun _ => keeps_retryHost
  · refine Stateful.keeps_bind (Stateful.keeps_modify fun _ => rfl) fun _ => ?_
    split
    · exact Stateful.keeps_pure _
    · exact keeps_retryHost

theorem keeps_nextHost (hR : Offline R) : Stateful.Keeps R Deliver.unsearched (nextHost conf) := by
  unfold nextHost
  refine Stateful.keeps_bind Stateful.keeps_get fun d => ?_
  extract_lets afterAnswer i afterRetry
  have hanswer : ∀ step, Stateful.Keeps R Deliver.unsearched (afterAnswer step) := by
    intro step
    simp only [afterAnswer]
    split
    · refine Stateful.keeps_bind Stateful.keeps_get fun d => ?_
      refine Stateful.keeps_bind (keeps_nextAddress _ _) fun step => ?_
      split
      · exact Stateful.keeps_pure _
      · exact keeps_retryStart
    · exact keeps_retryStart
    · exact Stateful.keeps_pure _
  have hafter : ∀ u, Stateful.Keeps R Deliver.unsearched (afterRetry u) := by
    intro u
    simp only [afterRetry]
    split
    · exact Stateful.keeps_bind (Stateful.keeps_pure _) hanswer
    · exact Stateful.keeps_bind (keeps_nextAnswer hR _ _) hanswer
  clear_value afterRetry
  split
  · refine Stateful.keeps_bind (keeps_unheard hR rfl) fun ok => ?_
    split
    · exact Stateful.keeps_bind (Stateful.keeps_modify fun _ => rfl) hafter
    · exact hafter _
  · exact hafter _

/-- What the search does not decide is as it was behind a part of it. -/
theorem Unsearched.keeps {α : Type} {m : Dlv α} {e : Deliver} (hI : Unsearched I)
    (hm : Stateful.Keeps R Deliver.unsearched m) (he : I e) :
    m.wlp R (fun _ e' s' => I e' ∧ s' = s) e s :=
  Stateful.wlp_mono (fun _ _ _ h => ⟨hI _ _ h.1 he, h.2⟩) (hm e s)

/-- What neither the search nor a missing host decides. -/
structure HostFree (I : Deliver → Prop) : Prop where
  search : Unsearched I
  errText : ∀ d text, I d → I { d with hqErrText := text }
  bounced : ∀ d, I d → I { d with hqStatus := .bounce, dEnv := d.dEnv.setBounce true }

theorem outboundMx_keeps (hR : Offline R) (hostname : Text) :
    Stateful.Keeps R Deliver.unsearched (outboundMx conf hostname) := by
  unfold outboundMx
  refine Stateful.keeps_bind (keeps_unheard hR rfl) fun answers => ?_
  split
  · exact Stateful.keeps_pure _
  · refine Stateful.keeps_bind (keeps_unheard hR rfl) fun alloc => ?_
    intro d s
    refine (Stateful.wlp_bind _ _).mpr (Stateful.wlp_get.mpr ((Stateful.wlp_bind _ _).mpr ?_))
    refine (Stateful.wlp_set _).mpr ?_
    split <;> exact ⟨rfl, rfl⟩

theorem hostMissing_keeps (hR : Offline R) (hI : HostFree I) (hd : I d) :
    hostMissing.wlp R (fun _ e s' => I e ∧ s' = s) d s := by
  unfold hostMissing
  refine (Stateful.wlp_bind _ _).mpr (Stateful.wlp_get.mpr ?_)
  refine Stateful.wlp_seq (hI.search.keeps (keeps_unheard hR rfl) hd) ?_
  rintro ok e s' ⟨he, rfl⟩
  split
  · refine (Stateful.wlp_bind _ _).mpr ((Stateful.wlp_modify _).mpr ?_)
    refine (Stateful.wlp_bind _ _).mpr ?_
    refine (Stateful.wlp_bind _ _).mpr ?_
    intro ok t hok
    obtain rfl := hR _ _ _ _ rfl hok
    have htext := hI.errText e (some (e.hqErrText.getD [])) he
    cases ok with
    | false => exact ⟨htext, rfl⟩
    | true => exact ⟨hI.bounced _ (hI.errText _ _ htext), rfl⟩
  · exact ⟨he, rfl⟩

theorem getOutboudDns_keeps (hR : Offline R) (hI : HostFree I) (hd : I d) :
    (getOutboudDns conf).wlp R (fun _ e s' => I e ∧ s' = s) d s := by
  unfold getOutboudDns
  refine (Stateful.wlp_bind _ _).mpr (Stateful.wlp_get.mpr ?_)
  refine Stateful.wlp_seq (hI.search.keeps (outboundMx_keeps hR _) hd) ?_
  rintro answers e s' ⟨he, rfl⟩
  have hset : ∀ e' : Deliver, e'.unsearched = e.unsearched → I e' := fun e' h => hI.search e e' h he
  split
  · exact (Stateful.wlp_bind _ _).mpr ((Stateful.wlp_modify _).mpr ⟨hset _ rfl, rfl⟩)
  · refine (Stateful.wlp_bind _ _).mpr ((Stateful.wlp_modify _).mpr ?_)
    split
    · split
      · exact (Stateful.wlp_bind _ _).mpr ((Stateful.wlp_modify _).mpr ⟨hset _ rfl, rfl⟩)
      · exact ⟨hset _ rfl, rfl⟩
    · refine Stateful.wlp_seq (hI.search.keeps (keeps_unheard hR rfl) (hset _ rfl)) ?_
      rintro rrs e₁ s' ⟨h₁, rfl⟩
      split
      · exact (Stateful.wlp_bind _ _).mpr ((Stateful.wlp_modify _).mpr ⟨hI.search e₁ _ rfl h₁, rfl⟩)
      · refine (Stateful.wlp_bind _ _).mpr ((Stateful.wlp_modify _).mpr ?_)
        split
        · exact hostMissing_keeps hR hI (hI.search e₁ _ rfl h₁)
        · exact ⟨hI.search e₁ _ rfl h₁, rfl⟩

/-- The query for the hosts of a name. -/
theorem nextQuery_keeps (hR : Offline R) (hI : HostFree I) (hd : I d) :
    (nextQuery conf).wlp R (fun _ e s' => I e ∧ s' = s) d s := by
  unfold nextQuery
  refine (Stateful.wlp_bind _ _).mpr (Stateful.wlp_get.mpr ?_)
  split
  · exact ⟨hd, rfl⟩
  · refine (Stateful.wlp_bind _ _).mpr ((Stateful.wlp_modify _).mpr ?_)
    have hstart := fun (e : Deliver) (h : e.unsearched = d.unsearched) => hI.search d e h hd
    split
    · refine Stateful.wlp_seq (getOutboudDns_keeps hR hI (hstart _ rfl)) ?_
      rintro ok e s' ⟨he, rfl⟩
      split
      · exact (Stateful.wlp_bind _ _).mpr ((Stateful.wlp_modify _).mpr ⟨hI.search e _ rfl he, rfl⟩)
      · exact ⟨he, rfl⟩
    · refine Stateful.wlp_seq (hI.search.keeps (keeps_unheard hR rfl) (hstart _ rfl)) ?_
      rintro rrs e s' ⟨he, rfl⟩
      have hset : ∀ e' : Deliver, e'.unsearched = e.unsearched → I e' := fun e' h => hI.search e e' h he
      split
      · exact ⟨he, rfl⟩
      · refine (Stateful.wlp_bind _ _).mpr ((Stateful.wlp_modify _).mpr ?_)
        split
        · exact ⟨hset _ rfl, rfl⟩
        · exact (Stateful.wlp_bind _ _).mpr ((Stateful.wlp_modify _).mpr ⟨hset _ rfl, rfl⟩)
    · exact ⟨hstart _ rfl, rfl⟩

/-- The query for the addresses of the punt host. -/
theorem nextQuery_standing (hR : Offline R) (hd : d.hqStatus ≠ .down) :
    (nextQuery conf).wlp R (fun _ e s' => e.standing = d.standing ∧ s' = s) d s := by
  unfold nextQuery
  refine (Stateful.wlp_bind _ _).mpr (Stateful.wlp_get.mpr ?_)
  split
  · exact ⟨rfl, rfl⟩
  · refine (Stateful.wlp_bind _ _).mpr ((Stateful.wlp_modify _).mpr ?_)
    split
    · exact absurd ‹_› hd
    · refine (keeps_unheard hR rfl).seq fun rrs e he => ?_
      have he : e.standing = _ := unsearched_standing _ _ _ he rfl
      split
      · exact ⟨he, rfl⟩
      · refine (Stateful.wlp_bind _ _).mpr ((Stateful.wlp_modify _).mpr ?_)
        split
        · exact ⟨he, rfl⟩
        · exact (Stateful.wlp_bind _ _).mpr ((Stateful.wlp_modify _).mpr ⟨he, rfl⟩)
    · exact ⟨rfl, rfl⟩

theorem nextDnsrHost_keeps (hR : Offline R) (hI : Unsearched I)
    (hquery : ∀ e, I e → (nextQuery conf).wlp R (fun _ e' s' => I e' ∧ s' = s) e s) {e : Deliver} (he : I e) :
    (nextDnsrHost conf).wlp R (fun _ e' s' => I e' ∧ s' = s) e s := by
  refine Stateful.wlp_seq (hquery e he) ?_
  rintro step e s' ⟨he, rfl⟩
  split
  · refine (Stateful.wlp_bind _ _).mpr (Stateful.wlp_get.mpr ?_)
    split
    · exact hI.keeps (keeps_retryNext _) he
    · exact hI.keeps (keeps_nextHost hR) he
  · exact ⟨he, rfl⟩

theorem lookupAfter_keeps {next : Dlv NextHost} {e : Deliver} {step : NextHost} (hI : Unsearched I) (he : I e)
    (hnext : ∀ e, I e → next.wlp R (fun _ e' s' => I e' ∧ s' = s) e s) :
    (lookupAfter next step).wlp R (fun _ e' s' => I e' ∧ s' = s) e s := by
  unfold lookupAfter
  split
  · exact (Stateful.wlp_bind _ _).mpr ((Stateful.wlp_modify _).mpr ⟨hI e _ rfl he, rfl⟩)
  · exact ⟨he, rfl⟩
  · refine (Stateful.wlp_bind _ _).mpr (Stateful.wlp_get.mpr ?_)
    split
    · exact (Stateful.wlp_bind _ _).mpr ((Stateful.wlp_modify _).mpr (hnext _ (hI e _ rfl he)))
    · exact (Stateful.wlp_bind _ _).mpr ((Stateful.wlp_modify _).mpr ⟨hI e _ rfl he, rfl⟩)

theorem lookupLoop_keeps (hR : Offline R) (hI : Unsearched I)
    (hquery : ∀ e, I e → (nextQuery conf).wlp R (fun _ e' s' => I e' ∧ s' = s) e s) (n : Nat) :
    ∀ e, I e → (lookupLoop conf n).wlp R (fun _ e' s' => I e' ∧ s' = s) e s := by
  induction n with
  | zero =>
    exact fun e he => (Stateful.wlp_bind _ _).mpr ((Stateful.wlp_modify _).mpr ⟨hI e _ rfl he, rfl⟩)
  | succ n ih =>
    intro e he
    refine Stateful.wlp_seq (nextDnsrHost_keeps hR hI hquery he) ?_
    rintro step e' s' ⟨he', rfl⟩
    exact lookupAfter_keeps hI he' ih

/-- **The search for a host** leaves alone what it does not decide, if its query does. -/
theorem nextDnsrHostLookup_keeps (hR : Offline R) (hI : Unsearched I)
    (hquery : ∀ e, I e → (nextQuery conf).wlp R (fun _ e' s' => I e' ∧ s' = s) e s) (hd : I d) :
    (nextDnsrHostLookup conf).wlp R (fun _ e s' => I e ∧ s' = s) d s := by
  unfold nextDnsrHostLookup
  extract_lets again
  refine Stateful.wlp_seq (nextDnsrHost_keeps hR hI hquery hd) ?_
  rintro step e s' ⟨he, rfl⟩
  refine lookupAfter_keeps hI he fun e₁ h₁ => ?_
  exact (Stateful.wlp_bind _ _).mpr (Stateful.wlp_get.mpr (lookupLoop_keeps hR hI hquery _ e₁ h₁))

theorem status_of_standing {e : Deliver} (he : e.standing = d.standing) : e.hqStatus = d.hqStatus :=
  congrArg Standing.status he

/-- The search for the punt host says nothing about the message. -/
theorem nextDnsrHostLookup_standing (hR : Offline R) (hd : d.hqStatus ≠ .down) :
    (nextDnsrHostLookup conf).wlp R (fun _ e s' => e.standing = d.standing ∧ s' = s) d s := by
  refine nextDnsrHostLookup_keeps hR (unsearched_standing d) (fun e he => ?_) rfl
  rw [← he]
  exact nextQuery_standing hR (status_of_standing he ▸ hd)

end Search

/-! ## The text of the message -/

/-- A delivery but for its reading of the Dfile. -/
def Deliver.unsent (d : Deliver) : Deliver :=
  { d with dSnetDfile := none, dSent := 0, log.readings := [] }

theorem standing_of_unsent {d e : Deliver} (h : e.unsent = d.unsent) : e.standing = d.standing :=
  have hs : e.unsent.standing = d.unsent.standing := congrArg Deliver.standing h
  hs

/-- A world in which no line of a message is answered. -/
def Unanswered {σ : Type} (R : Prog.World DeliverOp DeliverAns σ) (s : σ) : Prop :=
  ∀ line a t, line ≠ ".\r\n".toList → R (.write line) s a t → t = s

theorem OnFiles.unanswered {σ : Type} {R : Prog.World DeliverOp DeliverAns σ} (hR : OnFiles R) (s : σ) :
    Unanswered R s :=
  fun _ a t _ h => hR _ s a t rfl h

/-- No line of the message is its end. -/
theorem dotStuff_ne_end (line : Text) : dotStuff line ++ "\r\n".toList ≠ ".\r\n".toList := by
  unfold dotStuff
  cases line with
  | nil => decide
  | cons c rest =>
    by_cases hc : c = '.'
    · simp [hc]
    · simp [hc]

theorem seenBeforeLine_ne_end (conf : DeliverConf) (d : Deliver) :
    makeSeenBeforeLine conf d ++ "\r\n".toList ≠ ".\r\n".toList := by
  unfold makeSeenBeforeLine seenBeforeText
  simp

section Message

variable {σ : Type} {R : Prog.World DeliverOp DeliverAns σ} {d : Deliver} {s : σ}
variable {conf : DeliverConf} {fuel : Nat}

theorem Unanswered.writef {line : Text} (hs : Unanswered R s) (hline : line ≠ ".\r\n".toList) :
    (Dlv.writef line).wlp R (fun _ e s' => e = d ∧ s' = s) d s :=
  fun a t h => ⟨rfl, hs line a t hline h⟩

theorem keeps_unread (hR : Offline R) {op : DeliverOp} (hop : op.offline = true) :
    Stateful.Keeps R Deliver.unsent (Dlv.ask op) :=
  Stateful.keeps_ask fun s a t => hR op s a t hop

theorem keeps_dfileGetline (hR : Offline R) : Stateful.Keeps R Deliver.unsent dfileGetline := by
  unfold dfileGetline
  refine Stateful.keeps_bind Stateful.keeps_get fun d => ?_
  split
  · exact Stateful.keeps_pure _
  · refine Stateful.keeps_bind (Snet.keeps_getline (fun len => keeps_unread hR rfl) _) fun p => ?_
    refine Stateful.keeps_bind (Stateful.keeps_modify fun _ => rfl) fun _ => ?_
    split
    · exact Stateful.keeps_pure _
    · exact Stateful.keeps_pure _
    · exact Stateful.keeps_bind (Stateful.keeps_modify fun _ => rfl) fun _ => Stateful.keeps_pure _

theorem keeps_readingStart : Stateful.Keeps R Deliver.unsent readingStart :=
  Stateful.keeps_modify fun _ => rfl

theorem keeps_readingLine (line : Text) : Stateful.Keeps R Deliver.unsent (readingLine line) :=
  Stateful.keeps_modify fun _ => rfl

theorem keeps_readingEnd : Stateful.Keeps R Deliver.unsent readingEnd :=
  Stateful.keeps_modify fun _ => rfl

theorem dataTimer_unsent (hR : Offline R) (session : Int) :
    (dataTimer conf session).wlp R
      (fun p e s' => (e.unsent = d.unsent ∧ s' = s) ∧ p.1 ≠ some .ok) d s := by
  unfold dataTimer
  split
  · refine (keeps_unread hR rfl).seq fun now e he => ?_
    split
    · exact ⟨⟨he, rfl⟩, fun h => by cases h⟩
    · extract_lets session
      split <;> exact ⟨⟨he, rfl⟩, fun h => by cases h⟩
  · exact ⟨⟨rfl, rfl⟩, fun h => by cases h⟩

/-- The loop over the lines ends at the end of the file, or without success. -/
theorem sendLines_unsent (hR : Offline R) (hs : Unanswered R s) (fuel : Nat) : ∀ (d : Deliver) (session : Int),
    (sendLines conf fuel session).wlp R
      (fun ret e s' => (e.unsent = d.unsent ∧ s' = s) ∧ ret ≠ some .ok) d s := by
  induction fuel with
  | zero => exact fun d session => ⟨⟨rfl, rfl⟩, fun h => by cases h⟩
  | succ fuel ih =>
    intro d session
    refine Stateful.wlp_seq (dataTimer_unsent hR session) ?_
    rintro ⟨ret, session⟩ e s' ⟨⟨he, rfl⟩, hret⟩
    split
    · rename_i heq
      cases heq
      exact ⟨⟨he, rfl⟩, hret⟩
    · refine (keeps_dfileGetline hR).seq fun line e₁ h₁ => ?_
      have h₁' : e₁.unsent = d.unsent := h₁.trans he
      split
      · exact ⟨⟨h₁', rfl⟩, fun h => by cases h⟩
      · refine Stateful.wlp_seq (hs.writef (dotStuff_ne_end _)) ?_
        rintro ok e₁ s' ⟨rfl, rfl⟩
        split
        · refine (keeps_readingLine _).seq fun _ e₂ h₂ => ?_
          refine (Stateful.wlp_bind _ _).mpr ((Stateful.wlp_modify _).mpr ?_)
          refine Stateful.wlp_mono ?_ (ih _ _)
          rintro ret e₃ s'' ⟨⟨h₃, rfl⟩, hret⟩
          exact ⟨⟨h₃.trans (h₂.trans h₁'), rfl⟩, hret⟩
        · exact ⟨⟨h₁', rfl⟩, fun h => by cases h⟩

theorem sendSeenBefore_unsent (hR : Offline R) (hs : Unanswered R s) :
    (sendSeenBefore conf).wlp R (fun _ e s' => e.unsent = d.unsent ∧ s' = s) d s := by
  refine (Stateful.wlp_bind _ _).mpr (Stateful.wlp_get.mpr ?_)
  split
  · refine (keeps_unread hR rfl).seq fun ok e he => ?_
    split
    · refine Stateful.wlp_seq (hs.writef (seenBeforeLine_ne_end conf d)) ?_
      rintro ok e s' ⟨rfl, rfl⟩
      split
      · exact (keeps_readingLine _).seq fun _ e₁ h₁ => ⟨h₁.trans he, rfl⟩
      · exact ⟨he, rfl⟩
    · exact ⟨he, rfl⟩
  · exact ⟨rfl, rfl⟩

/-- **The text of a message** is sent to its end, or there is no success; `Q` is what may follow. -/
theorem sendMessage_text {Q : SmtpRet → Deliver → σ → Prop} (hR : Offline R) (hs : Unanswered R s)
    (hfails : ∀ ret e, ret ≠ .ok → e.unsent = d.unsent → Q ret e s)
    (hend : ∀ e, e.unsent = d.unsent → Stateful.wlp R (do
      if ← Dlv.writef ".\r\n".toList then
        readingEnd
        smtpReply conf fuel .dataEof
      else return .badConnection) Q e s) : (sendMessage conf fuel).wlp R Q d s := by
  refine keeps_readingStart.seq fun _ e he => ?_
  refine Stateful.wlp_seq (sendSeenBefore_unsent hR hs) ?_
  rintro ok e₁ s' ⟨h₁, rfl⟩
  split
  · refine Stateful.wlp_seq (sendLines_unsent hR hs fuel e₁ 0) ?_
    rintro ret e₂ s' ⟨⟨h₂, rfl⟩, hret⟩
    have h₂' : e₂.unsent = d.unsent := h₂.trans (h₁.trans he)
    split
    · exact hfails _ _ (fun h => hret (congrArg some h)) h₂'
    · exact hend e₂ h₂'
  · exact hfails _ _ (fun h => by cases h) (h₁.trans he)

/-- The message is sent and its end is answered, or there is no success. -/
theorem sendMessage_noted (hR : OnFiles R) :
    (sendMessage conf fuel).wlp R (fun ret e s' =>
      ((ret ≠ .ok ∧ e.standing = d.standing) ∨ Answered .dataEof d.standing ret e.standing) ∧ s' = s) d s := by
  refine sendMessage_text hR.quiet.offline (hR.unanswered s)
    (fun ret e hret he => ⟨.inl ⟨hret, standing_of_unsent he⟩, rfl⟩) fun e he => ?_
  have he' : e.standing = d.standing := standing_of_unsent he
  rw [← he']
  refine (keeps_call hR rfl).seq fun ok e₁ h₁ => ?_
  rw [← h₁]
  split
  · refine (Stateful.wlp_bind _ _).mpr ((Stateful.wlp_modify _).mpr ?_)
    refine Stateful.wlp_mono ?_ (smtpReply_noted hR.quiet)
    rintro ret e₂ s' ⟨h₂, rfl⟩
    exact ⟨.inr h₂, rfl⟩
  · exact ⟨.inl ⟨(fun h => by cases h), rfl⟩, rfl⟩

end Message

end Simta
