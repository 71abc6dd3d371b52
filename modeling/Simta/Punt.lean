import Simta.HostLoop

/-!
# The punt host

A delivery of the punt queue, which takes mail that other hosts would not: whatever the punt host
answers, the mail is to stay until it is accepted.

* `Underway`, `Spoken` — a transaction with the punt host as it goes on, and what it leaves;
  `smtpSend_spoken` for `smtp_send`;
* `PuntRun`, `PuntEnded` — the same over any number of hosts; `deliverRemote_punt`.
-/

set_option autoImplicit false

namespace Simta

/-! ## What no reply changes -/

/-- The mail is the same, but for what replies mark in it. -/
structure SameMail (v w : Standing) : Prop where
  env : w.env.clearErrors = v.env.clearErrors
  unlinked : w.unlinked = v.unlinked
  status : w.status = v.status
  isPuntQ : w.isPuntQ = v.isPuntQ
  locals : w.locals = v.locals
  bounce : w.bounce = v.bounce

theorem SameMail.refl (v : Standing) : SameMail v v := ⟨rfl, rfl, rfl, rfl, rfl, rfl⟩

theorem SameMail.trans {u v w : Standing} (h : SameMail u v) (h' : SameMail v w) : SameMail u w :=
  ⟨h'.env.trans h.env, h'.unlinked.trans h.unlinked, h'.status.trans h.status, h'.isPuntQ.trans h.isPuntQ,
    h'.locals.trans h.locals, h'.bounce.trans h.bounce⟩

theorem SameMail.length {v w : Standing} (h : SameMail v w) : w.env.eRcpt.length = v.env.eRcpt.length := by
  have hl := congrArg (fun env : Envelope => env.eRcpt.length) h.env
  simpa only [Envelope.clearErrors, List.length_map] using hl

theorem Standing.logged_same (v : Standing) (cmd : SmtpCommand) (c : ReplyClass) :
    SameMail v (v.logged cmd c) := by
  unfold Standing.logged
  split
  · exact .refl v
  · split <;> exact ⟨rfl, rfl, rfl, rfl, rfl, rfl⟩

theorem Standing.answered_same (v : Standing) (status : RStatus) : SameMail v (v.answered status) :=
  ⟨clearErrors_modifyRcpt _ _ _, rfl, rfl, rfl, rfl, rfl⟩

theorem Standing.granted_same (v : Standing) (cmd : SmtpCommand) : SameMail v (v.granted cmd) := by
  cases cmd with
  | rcpt => exact v.answered_same .accepted
  | connect | helo | ehlo | mail | data | dataEof | rset | quit | starttls =>
    exact ⟨rfl, rfl, rfl, rfl, rfl, rfl⟩

theorem Standing.refused_same {v : Standing} (h : v.status ≠ .down) (permanent : Bool) (cmd : SmtpCommand) :
    SameMail v (v.refused permanent cmd) := by
  cases cmd with
  | rcpt => exact v.answered_same _
  | mail | data | dataEof => cases permanent <;> exact ⟨rfl, rfl, rfl, rfl, rfl, rfl⟩
  | connect => exact ⟨rfl, rfl, by simp [Standing.refused, h], rfl, rfl, rfl⟩
  | helo | ehlo | rset | quit | starttls => exact .refl v

/-- **A reply marks the mail and changes nothing else of it**, unless the host itself is at stake. -/
theorem Standing.noted_same {v : Standing} (h : v.status ≠ .down) (cmd : SmtpCommand) (c : ReplyClass) :
    SameMail v (v.noted cmd c) := by
  have hlog := v.logged_same cmd c
  have hst : (v.logged cmd c).status ≠ .down := hlog.status ▸ h
  cases c with
  | success => exact hlog.trans (Standing.granted_same _ _)
  | more =>
    show SameMail v (if cmd = .data then _ else _)
    split
    · exact hlog
    · exact hlog.trans (Standing.refused_same hst _ _)
  | temporary | permanent => exact hlog.trans (Standing.refused_same hst _ _)

theorem Answered.same {v w : Standing} {cmd : SmtpCommand} {ret : SmtpRet} (h : Answered cmd v ret w)
    (hv : v.status ≠ .down) : SameMail v w := by
  cases h with
  | lost => exact .refl v
  | noted ret c => exact Standing.noted_same hv cmd c

/-! ## One transaction -/

/-- Each of the first `k` recipients was accepted. -/
def acceptedRcpts (k : Nat) : List (Nat × ReplyClass) := (List.range k).map fun i => (i, .success)

theorem acceptedRcpts_succ (k : Nat) : acceptedRcpts (k + 1) = acceptedRcpts k ++ [(k, .success)] := by
  simp [acceptedRcpts, List.range_succ]

theorem not_permanent_acceptedRcpts (k i : Nat) : (i, ReplyClass.permanent) ∉ acceptedRcpts k := by
  simp [acceptedRcpts]

/-- A transaction behind the dialogues `past`: `k` recipients are accepted and nothing is refused. -/
structure Underway (past : List Dialogue) (delivered : Bool) (k : Nat) (v : Standing) : Prop where
  dialogues : v.dialogues = ⟨acceptedRcpts k, none⟩ :: past
  accepted : v.accepted = k
  failed : v.failed = 0
  delivered : v.delivered = delivered

/-- The whole message was answered only once each of `n` recipients was accepted. -/
def Dialogue.Whole (n : Nat) (dlg : Dialogue) : Prop := dlg.eof.isSome = true → dlg.rcpts = acceptedRcpts n

/-- The server took the message. -/
def Dialogue.taken (dlg : Dialogue) : Bool := decide (dlg.eof = some .success)

/-- What a transaction leaves, of which `dlg` is the record. -/
structure Spoken (n : Nat) (past : List Dialogue) (delivered : Bool) (dlg : Dialogue) (v : Standing) :
    Prop where
  dialogues : v.dialogues = dlg :: past
  whole : dlg.Whole n
  delivered : v.delivered = (delivered || dlg.taken)
  accepted : v.accepted ≤ n
  failed : v.failed ≠ 0 → ∃ i, (i, .permanent) ∈ dlg.rcpts

section Transaction

variable {n k : Nat} {past : List Dialogue} {delivered : Bool} {v w : Standing}

theorem Underway.spoken (h : Underway past delivered k v) (hk : k ≤ n) :
    Spoken n past delivered ⟨acceptedRcpts k, none⟩ v :=
  ⟨h.dialogues, (fun hsome => by cases hsome), by simp [h.delivered, Dialogue.taken], h.accepted ▸ hk,
    fun hne => absurd h.failed hne⟩

/-- A reply to MAIL or DATA marks the envelope at most. -/
theorem Underway.answered {cmd : SmtpCommand} {ret : SmtpRet} (h : Underway past delivered k v)
    (hcmd : cmd = .mail ∨ cmd = .data) (hw : Answered cmd v ret w) : Underway past delivered k w := by
  cases hw with
  | lost => exact h
  | noted ret c =>
    have hlog : v.logged cmd c = v := by
      apply Standing.logged_of_ne <;> rcases hcmd with rfl | rfl <;> decide
    unfold Standing.noted
    rw [hlog]
    rcases hcmd with rfl | rfl <;> cases c <;> exact ⟨h.dialogues, h.accepted, h.failed, h.delivered⟩

theorem Underway.logged_rcpt (h : Underway past delivered k v) (c : ReplyClass) :
    v.logged .rcpt c = { v with dialogues := ⟨acceptedRcpts k ++ [(v.rcpt, c)], none⟩ :: past } := by
  unfold Standing.logged
  rw [h.dialogues]

/-- The recipient accepts. -/
theorem Underway.rcpt_accepted (h : Underway past delivered k v) (hr : v.rcpt = k) :
    Underway past delivered (k + 1) (v.noted .rcpt .success) := by
  refine ⟨?_, ?_, ?_, ?_⟩
  · show (v.logged .rcpt .success).dialogues = _
    rw [h.logged_rcpt, hr, acceptedRcpts_succ]
  · show (v.logged .rcpt .success).accepted + 1 = _
    rw [h.logged_rcpt, h.accepted]
  · show (v.logged .rcpt .success).failed + 0 = _
    rw [h.logged_rcpt, h.failed]
  · show (v.logged .rcpt .success).delivered = _
    rw [h.logged_rcpt, h.delivered]

/-- A refusal of the recipient ends the transaction. -/
theorem Underway.rcpt_refused {c : ReplyClass} (h : Underway past delivered k v) (hc : c ≠ .success)
    (hk : k ≤ n) :
    Spoken n past delivered ⟨acceptedRcpts k ++ [(v.rcpt, c)], none⟩ (v.noted .rcpt c) := by
  have hwhole : Dialogue.Whole n ⟨acceptedRcpts k ++ [(v.rcpt, c)], none⟩ := fun hsome => by cases hsome
  cases c with
  | success => exact absurd rfl hc
  | permanent =>
    have heq : v.noted .rcpt .permanent = (v.logged .rcpt .permanent).answered .failed := rfl
    rw [heq, h.logged_rcpt]
    exact ⟨rfl, hwhole, by simp [Standing.answered, h.delivered, Dialogue.taken],
      by simp [Standing.answered, h.accepted, hk], fun _ => ⟨v.rcpt, by simp⟩⟩
  | temporary | more =>
    refine ⟨?_, hwhole, ?_, ?_, ?_⟩
    · show (v.logged .rcpt _).dialogues = _
      rw [h.logged_rcpt]
    · show (v.logged .rcpt _).delivered = _
      rw [h.logged_rcpt, h.delivered]
      simp [Dialogue.taken]
    · show (v.logged .rcpt _).accepted + 0 ≤ n
      rw [h.logged_rcpt, h.accepted]
      exact hk
    · show (v.logged .rcpt _).failed + 0 ≠ 0 → _
      rw [h.logged_rcpt, h.failed]
      exact fun hne => absurd rfl hne

/-- The reply to the end of the message. -/
theorem Underway.eof {ret : SmtpRet} (h : Underway past delivered n v) (hw : Answered .dataEof v ret w) :
    ∃ dlg, Spoken n past delivered dlg w := by
  cases hw with
  | lost => exact ⟨_, h.spoken (le_refl n)⟩
  | noted ret c =>
    have hlog : v.logged .dataEof c = { v with dialogues := ⟨acceptedRcpts n, some c⟩ :: past } := by
      unfold Standing.logged
      rw [h.dialogues]
    refine ⟨⟨acceptedRcpts n, some c⟩, ?_⟩
    unfold Standing.noted
    rw [hlog]
    cases c <;> refine ⟨rfl, fun _ => rfl, ?_, le_of_eq h.accepted, fun hne => absurd h.failed hne⟩ <;>
      simp [Standing.granted, Standing.refused, Dialogue.taken, h.delivered]

end Transaction

/-- The recipient in hand stands as accepted only if it was answered with 2xx. -/
theorem rStatus_noted {v : Standing} {c : ReplyClass} (hc : c ≠ .success) :
    ((v.noted .rcpt c).env.eRcpt[v.rcpt]?).map Recipient.rStatus ≠ some .accepted := by
  have hlog : (v.logged .rcpt c).env = v.env ∧ (v.logged .rcpt c).rcpt = v.rcpt := by
    unfold Standing.logged
    split <;> exact ⟨rfl, rfl⟩
  have hstatus : ∀ status : RStatus, status ≠ .accepted →
      (((v.logged .rcpt c).answered status).env.eRcpt[v.rcpt]?).map Recipient.rStatus ≠ some .accepted := by
    intro status hne
    simp only [Standing.answered, Envelope.modifyRcpt, hlog.1, hlog.2, List.getElem?_modify, if_true]
    cases v.env.eRcpt[v.rcpt]? with
    | none => simp
    | some r => simp [hne]
  cases c with
  | success => exact absurd rfl hc
  | more | temporary => exact hstatus .tempfail (by decide)
  | permanent => exact hstatus .failed (by decide)

/-- A recipient is answered: the transaction goes on, or it is over and the recipient is not accepted. -/
theorem Underway.rcpt {n k : Nat} {past : List Dialogue} {delivered : Bool} {v w : Standing} {ret : SmtpRet}
    (h : Underway past delivered k v) (hr : v.rcpt = k) (hk : k < n) (hw : Answered .rcpt v ret w) :
    Underway past delivered (k + 1) w ∨
      (∃ dlg, Spoken n past delivered dlg w) ∧
        (ret = .ok → (w.env.eRcpt[k]?).map Recipient.rStatus ≠ some .accepted) := by
  cases hw with
  | lost => exact .inr ⟨⟨_, h.spoken (by omega)⟩, fun hret => by cases hret⟩
  | noted ret c =>
    by_cases hc : c = .success
    · subst hc
      exact .inl (h.rcpt_accepted hr)
    · exact .inr ⟨⟨_, h.rcpt_refused hc (by omega)⟩, fun _ => hr ▸ rStatus_noted hc⟩

section Send

variable {σ : Type} {R : Prog.World DeliverOp DeliverAns σ} {conf : DeliverConf} {fuel : Nat}
variable {n : Nat} {past : List Dialogue} {delivered : Bool}

/-- The replies to the recipients: all accepted, or a transaction that is over. -/
theorem sendRcpts_spoken (hR : OnFiles R) (rcpts : List Recipient) : ∀ (i : Nat) (d : Deliver) (s : σ),
    d.hqStatus = .puntDown → i + rcpts.length = n → Underway past delivered i d.standing →
    (sendRcpts conf fuel rcpts i).wlp R (fun ret e s' => (SameMail d.standing e.standing ∧ s' = s) ∧
      (ret = none ∧ Underway past delivered n e.standing ∨
        ret ≠ none ∧ ∃ dlg, Spoken n past delivered dlg e.standing)) d s := by
  induction rcpts with
  | nil =>
    intro i d s hst hi h
    obtain rfl : i = n := hi
    exact ⟨⟨.refl _, rfl⟩, .inl ⟨rfl, h⟩⟩
  | cons r rest ih =>
    intro i d s hst hi h
    rw [List.length_cons] at hi
    refine (Stateful.wlp_bind _ _).mpr ((Stateful.wlp_modify _).mpr ?_)
    obtain ⟨d₁, hd₁⟩ : ∃ d₁ : Deliver, d₁ = { d with dRcpt := i } := ⟨_, rfl⟩
    have hfirst : SameMail d.standing d₁.standing := hd₁ ▸ ⟨rfl, rfl, rfl, rfl, rfl, rfl⟩
    have hset : Underway past delivered i d₁.standing :=
      hd₁ ▸ ⟨h.dialogues, h.accepted, h.failed, h.delivered⟩
    have hrcpt : d₁.standing.rcpt = i := by rw [hd₁]; rfl
    rw [← hd₁]
    refine Stateful.wlp_seq (smtpCommand_noted hR) ?_
    rintro ret e s' ⟨he, rfl⟩
    have hdown : d₁.standing.status ≠ .down := by
      rw [hfirst.status, show d.standing.status = .puntDown from hst]
      decide
    have hsame : SameMail d.standing e.standing := hfirst.trans (he.same hdown)
    have hpunt : e.hqStatus = .puntDown := hsame.status.trans hst
    have hends : ∀ ret' : SmtpRet, (∃ dlg, Spoken n past delivered dlg e.standing) →
        (pure (some ret') : Dlv (Option SmtpRet)).wlp R (fun ret e s'' =>
          (SameMail d.standing e.standing ∧ s'' = s') ∧
          (ret = none ∧ Underway past delivered n e.standing ∨
            ret ≠ none ∧ ∃ dlg, Spoken n past delivered dlg e.standing)) e s' :=
      fun _ hspoken => ⟨⟨hsame, rfl⟩, .inr ⟨(fun h => by cases h), hspoken⟩⟩
    have hstatus : (e.standing.env.eRcpt[i]?).map Recipient.rStatus = (e.dEnv.eRcpt[i]?).map Recipient.rStatus := by
      simp only [Deliver.standing, Envelope.plain, List.getElem?_map, Option.map_map]
      rfl
    rcases hset.rcpt (n := n) hrcpt (by omega) he with hnext | ⟨hover, hok⟩
    · have hspoken : ∃ dlg, Spoken n past delivered dlg e.standing := ⟨_, hnext.spoken (by omega)⟩
      split
      · refine (Stateful.wlp_bind _ _).mpr (Stateful.wlp_get.mpr ?_)
        split
        · exact hends _ hspoken
        · refine Stateful.wlp_mono ?_ (ih (i + 1) e s' hpunt (by omega) hnext)
          rintro ret e' s'' ⟨⟨hs, rfl⟩, hq⟩
          exact ⟨⟨hsame.trans hs, rfl⟩, hq⟩
      · exact hends _ hspoken
    · split
      · refine (Stateful.wlp_bind _ _).mpr (Stateful.wlp_get.mpr ?_)
        rw [if_pos ⟨hpunt, hstatus ▸ hok rfl⟩]
        exact hends _ hover
      · exact hends _ hover

/-- **A transaction with the punt host**, from MAIL to the last reply. -/
theorem smtpSend_spoken (hR : OnFiles R) {d : Deliver} {s : σ} (hst : d.hqStatus = .puntDown)
    (hn : d.dEnv.eRcpt.length = n) (h : Underway past delivered 0 d.standing) :
    (smtpSend conf fuel).wlp R (fun _ e s' => (SameMail d.standing e.standing ∧ s' = s) ∧
      ∃ dlg, Spoken n past delivered dlg e.standing) d s := by
  have hlive : ∀ {e : Deliver}, SameMail d.standing e.standing → e.standing.status ≠ .down := by
    intro e he
    rw [he.status, show d.standing.status = .puntDown from hst]
    decide
  refine (Stateful.wlp_bind _ _).mpr (Stateful.wlp_get.mpr ?_)
  refine Stateful.wlp_seq (smtpCommand_noted hR) ?_
  rintro ret e s' ⟨he, rfl⟩
  have hsame : SameMail d.standing e.standing := he.same (hlive (.refl _))
  have hmail : Underway past delivered 0 e.standing := h.answered (.inl rfl) he
  have hspoken : ∃ dlg, Spoken n past delivered dlg e.standing := ⟨_, hmail.spoken (Nat.zero_le n)⟩
  split
  · refine (Stateful.wlp_bind _ _).mpr (Stateful.wlp_get.mpr ?_)
    split
    · exact ⟨⟨hsame, rfl⟩, hspoken⟩
    · split
      · exact ⟨⟨hsame, rfl⟩, hspoken⟩
      · rename_i hne
        have hlen : 0 + e.dEnv.eRcpt.length = n := by
          have hl : e.dEnv.plain.eRcpt.length = d.dEnv.plain.eRcpt.length := hsame.length
          rw [length_plain, length_plain] at hl
          omega
        refine Stateful.wlp_seq (sendRcpts_spoken hR _ 0 e s' (hsame.status.trans hst) hlen hmail) ?_
        rintro ret e₁ s'' ⟨⟨h₁, rfl⟩, hend⟩
        have hsame₁ : SameMail d.standing e₁.standing := hsame.trans h₁
        rcases hend with ⟨rfl, hall⟩ | ⟨hret, hover⟩
        · refine (Stateful.wlp_bind _ _).mpr (Stateful.wlp_get.mpr ?_)
          have hacc : e₁.dNRcptAccepted = n := hall.accepted
          have hpos : 0 < e.dEnv.eRcpt.length := List.length_pos_iff.mpr hne
          rw [if_neg (by omega)]
          refine Stateful.wlp_seq (smtpCommand_noted hR) ?_
          rintro ret e₂ s' ⟨h₂, rfl⟩
          have hsame₂ : SameMail d.standing e₂.standing := hsame₁.trans (h₂.same (hlive hsame₁))
          have hdata : Underway past delivered n e₂.standing := hall.answered (.inr rfl) h₂
          have hspoken₂ : ∃ dlg, Spoken n past delivered dlg e₂.standing := ⟨_, hdata.spoken (le_refl n)⟩
          split
          · refine (Stateful.wlp_bind _ _).mpr (Stateful.wlp_get.mpr ?_)
            split
            · exact ⟨⟨hsame₂, rfl⟩, hspoken₂⟩
            · refine Stateful.wlp_mono ?_ (sendMessage_noted hR)
              rintro ret e₃ s' ⟨⟨-, h₃⟩ | h₃, rfl⟩
              · rw [h₃]
                exact ⟨⟨hsame₂, rfl⟩, hspoken₂⟩
              · exact ⟨⟨hsame₂.trans (h₃.same (hlive hsame₂)), rfl⟩, hdata.eof h₃⟩
          · exact ⟨⟨hsame₂, rfl⟩, hspoken₂⟩
        · cases ret with
          | none => exact absurd rfl hret
          | some ret => exact ⟨⟨hsame₁, rfl⟩, hover⟩
  · exact ⟨⟨hsame, rfl⟩, hspoken⟩

end Send

/-! ## All hosts -/

/-- A delivery to the punt host so far: the message is taken in a dialogue of the record, if at all. -/
structure PuntRun (v₀ v : Standing) : Prop where
  same : SameMail v₀ v
  whole : ∀ dlg ∈ v.dialogues, dlg.Whole v₀.env.eRcpt.length
  delivered : v.delivered = v.dialogues.any Dialogue.taken

/-- A transaction has come to its end, and the marks of the replies are taken off the envelope. -/
structure PuntEnded (v₀ v : Standing) : Prop where
  env : v.env = v₀.env.clearErrors
  unlinked : v.unlinked = v₀.unlinked
  status : v.status = .punt
  isPuntQ : v.isPuntQ = v₀.isPuntQ
  bounce : v.bounce = v₀.bounce
  whole : ∀ dlg ∈ v.dialogues, dlg.Whole v₀.env.eRcpt.length
  delivered : v.delivered = v.dialogues.any Dialogue.taken
  accepted : v.accepted ≤ v₀.env.eRcpt.length
  failed : v.failed ≠ 0 → ∃ dlg, v.dialogues.head? = some dlg ∧ ∃ i, (i, .permanent) ∈ dlg.rcpts

/-- Where `deliver_remote` may end. -/
def PuntDone (v₀ : Standing) (ret : DlvRet) (v : Standing) : Prop :=
  PuntRun v₀ v ∨ ret = .done ∧ PuntEnded v₀ v

section Hosts

variable {σ : Type} {R : Prog.World DeliverOp DeliverAns σ} {conf : DeliverConf} {fuel : Nat}
variable {v₀ : Standing} {d : Deliver} {s : σ}

theorem PuntRun.of_standing {e : Deliver} (h : PuntRun v₀ d.standing) (he : e.standing = d.standing) :
    PuntRun v₀ e.standing := he ▸ h

theorem started_underway {e : Deliver} (he : e.standing = d.started.standing) :
    SameMail d.standing e.standing ∧ Underway d.standing.dialogues d.standing.delivered 0 e.standing := by
  rw [he]
  refine ⟨⟨?_, rfl, rfl, rfl, rfl, rfl⟩, rfl, rfl, rfl, rfl⟩
  show d.dEnv.clearErrors.plain.clearErrors = d.dEnv.plain.clearErrors
  rw [clearErrors_plain, clearErrors_plain, clearErrors_clearErrors]

/-- The record of one more transaction. -/
theorem PuntRun.spoken {v w : Standing} {dlg : Dialogue} (h : PuntRun v₀ v) (hsame : SameMail v w)
    (hs : Spoken v₀.env.eRcpt.length v.dialogues v.delivered dlg w) : PuntRun v₀ w := by
  refine ⟨h.same.trans hsame, ?_, ?_⟩
  · rw [hs.dialogues]
    intro dlg' hmem
    rcases List.mem_cons.mp hmem with rfl | hmem
    · exact hs.whole
    · exact h.whole dlg' hmem
  · rw [hs.delivered, hs.dialogues, h.delivered, List.any_cons, Bool.or_comm]

/-- The end of a transaction that came to its last reply. -/
theorem PuntRun.ended {v : Standing} {dlg : Dialogue} {past : List Dialogue} {delivered : Bool}
    (h : PuntRun v₀ v) (hs : Spoken v₀.env.eRcpt.length past delivered dlg v) :
    PuntEnded v₀ { v with env := v.env.clearErrors, status := .punt } :=
  ⟨h.same.env, h.same.unlinked, rfl, h.same.isPuntQ, h.same.bounce, h.whole, h.delivered, hs.accepted,
    fun hne => ⟨dlg, congrArg List.head? hs.dialogues, hs.failed hne⟩⟩

/-- What a transaction with the punt host leaves. -/
def PuntSpoken (v₀ v : Standing) : Prop :=
  PuntRun v₀ v ∧ ∃ past delivered dlg, Spoken v₀.env.eRcpt.length past delivered dlg v

theorem hostRule_punt (hR : OnFiles R) (hst : v₀.status = .puntDown) :
    HostRule R conf fuel (fun d => PuntRun v₀ d.standing) (fun _ d => PuntSpoken v₀ d.standing)
      (fun ret d => PuntDone v₀ ret d.standing) := by
  have hpunt : ∀ {d : Deliver}, PuntRun v₀ d.standing → d.hqStatus = .puntDown := fun h => h.same.status.trans hst
  have hlive : ∀ {d : Deliver}, PuntRun v₀ d.standing → d.hqStatus ≠ .down := by
    intro d h hdown
    rw [hpunt h] at hdown
    cases hdown
  refine ⟨?_, ?_, fun _ _ => .inl, fun d h hdown => absurd hdown (hlive h), ?_, ?_, ?_, fun _ _ h => .inl h.1,
    fun _ d h hdown => absurd hdown (hlive h.1), ?_, ?_, fun _ _ h _ _ _ => h.1⟩
  · intro d e he h
    rw [he.eq_of_ne (hlive h)]
    exact h
  · intro ret d e he h
    rw [he]
    exact h
  · intro d s h
    refine Stateful.wlp_mono ?_ (nextDnsrHostLookup_standing hR.quiet.offline (hlive h))
    exact fun _ e _ he => ⟨h.of_standing he.1, he.2⟩
  · intro d e h he
    obtain ⟨hsame, hgo⟩ := started_underway he
    exact .inl (h.spoken hsame (hgo.spoken (Nat.zero_le _)))
  · intro d e s h he
    obtain ⟨hsame, hgo⟩ := started_underway he
    have hlen : e.dEnv.eRcpt.length = v₀.env.eRcpt.length := by
      rw [← length_plain]
      exact (h.same.trans hsame).length
    refine Stateful.wlp_mono ?_ (smtpSend_spoken hR ((h.same.trans hsame).status.trans hst) hlen hgo)
    rintro ret e' s' ⟨⟨hsame', rfl⟩, dlg, hspoken⟩
    exact ⟨⟨h.spoken (hsame.trans hsame') hspoken, _, _, dlg, hspoken⟩, rfl⟩
  · rintro d ⟨hrun, past, delivered, dlg, hspoken⟩ -
    refine .inr ⟨rfl, ?_⟩
    have heq : d.dEnv.clearErrors.plain = d.dEnv.plain.clearErrors := by
      rw [plain_clearErrors, clearErrors_plain]
    show PuntEnded v₀ { d.standing with env := d.dEnv.clearErrors.plain, status := .punt }
    rw [heq]
    exact hrun.ended hspoken
  · intro ret d h hbounce
    rw [hpunt h.1] at hbounce
    cases hbounce

/-- **A delivery to the punt host**, whatever answers. -/
theorem deliverRemote_punt (hR : OnFiles R) (hst : d.hqStatus = .punt) (hdlg : d.log.dialogues = [])
    (hdel : d.dDelivered = false) :
    (deliverRemote conf fuel).wlp R
      (fun ret e s' => (e = d ∨ PuntDone { d.standing with status := .puntDown } ret e.standing) ∧ s' = s) d s := by
  refine deliverRemote_rule hR (hostRule_punt hR rfl) (fun hmx => ?_) fun _ => ?_
  · rw [hst] at hmx
    cases hmx
  · refine ⟨.refl _, fun dlg hmem => ?_, ?_⟩
    · have hnil : dlg ∈ d.log.dialogues := hmem
      rw [hdlg] at hnil
      cases hnil
    · show d.dDelivered = d.log.dialogues.any Dialogue.taken
      rw [hdel, hdlg]
      rfl

end Hosts

end Simta
