import Simta.HostLoop

/-!
# The counters of a delivery

`_q_deliver` decides what to do with a message from two counters and from the status of each recipient.

* `Counted` — the counters are the numbers of the recipients with a status; those from `k` on have no answer;
* `Tally` — that, of an envelope which is otherwise the one that the delivery began with;
* `deliverRemote_tally` — wherever `deliver_remote` ends with an ordinary host, whatever any host answers;
* `deliverLocal_mailed` — the same for the local mailer, with its exit codes.
-/

set_option autoImplicit false

namespace Simta

/-! ## Counting -/

/-- A recipient that had no answer gets one. -/
theorem countP_modify_status {x : RStatus} (hx : x ≠ .tempfail) (status : RStatus) (rs : List Recipient) :
    ∀ i, (rs[i]?).map Recipient.rStatus = some .tempfail →
      (rs.modify i fun r => { r with rStatus := status }).countP (fun r => r.rStatus = x) =
        rs.countP (fun r => r.rStatus = x) + if status = x then 1 else 0 := by
  induction rs with
  | nil => exact fun i h => by cases h
  | cons r rest ih =>
    intro i h
    cases i with
    | zero =>
      have hr : r.rStatus = .tempfail := Option.some.inj h
      have hne : r.rStatus ≠ x := fun hxr => hx (hxr.symm.trans hr)
      simp only [List.modify_zero_cons, List.countP_cons, decide_eq_true_eq, if_neg hne]
      rfl
    | succ i =>
      simp only [List.modify_succ_cons, List.countP_cons, ih i h]
      omega

/-- The counters are those of the recipients, of which those from `k` on have no answer. -/
structure Counted (k : Nat) (v : Standing) : Prop where
  waiting : ∀ i, k ≤ i → ∀ status, (v.env.eRcpt[i]?).map Recipient.rStatus = some status → status = .tempfail
  accepted : v.accepted = v.env.eRcpt.countP fun r => r.rStatus = .accepted
  failed : v.failed = v.env.eRcpt.countP fun r => r.rStatus = .failed

/-- The counters of the mail that `v₀` began with. -/
structure Tally (v₀ : Standing) (k : Nat) (v : Standing) : Prop extends Counted k v where
  env : v.env.clearErrors = v₀.env.clearErrors
  unlinked : v.unlinked = v₀.unlinked
  bounce : v.bounce = v₀.bounce

section Counts

variable {v₀ v w : Standing} {k : Nat} {d e : Deliver}

theorem Tally.length (h : Tally v₀ k v) : v.env.eRcpt.length = v₀.env.eRcpt.length := by
  rw [← length_clearErrors, h.env, length_clearErrors]

theorem Tally.mono {k' : Nat} (h : Tally v₀ k v) (hk : k ≤ k') : Tally v₀ k' v :=
  ⟨⟨fun i hi => h.waiting i (hk.trans hi), h.accepted, h.failed⟩, h.env, h.unlinked, h.bounce⟩

/-- Nothing that is counted has changed. -/
theorem Tally.congr (h : Tally v₀ k v) (hr : w.env.eRcpt = v.env.eRcpt) (henv : w.env.clearErrors = v.env.clearErrors)
    (ha : w.accepted = v.accepted) (hf : w.failed = v.failed) (hu : w.unlinked = v.unlinked)
    (hb : w.bounce = v.bounce) : Tally v₀ k w :=
  ⟨⟨by rw [hr]; exact h.waiting, by rw [ha, hr, h.accepted], by rw [hf, hr, h.failed]⟩, henv.trans h.env,
    hu.trans h.unlinked, hb.trans h.bounce⟩

theorem rcpt_answered_ne {i : Nat} (hi : v.rcpt ≠ i) (status : RStatus) :
    (v.answered status).env.eRcpt[i]? = v.env.eRcpt[i]? :=
  List.getElem?_modify_ne _ _ hi

/-- The recipient with the number `k` is answered. -/
theorem Tally.answered (h : Tally v₀ k v) (hr : v.rcpt = k) (hk : k < v.env.eRcpt.length) (status : RStatus) :
    Tally v₀ (k + 1) (v.answered status) := by
  have hopen : (v.env.eRcpt[k]?).map Recipient.rStatus = some .tempfail := by
    have hget : v.env.eRcpt[k]? = some v.env.eRcpt[k] := List.getElem?_eq_getElem hk
    rw [hget]
    exact congrArg some (h.waiting k (le_refl k) _ (by rw [hget]; rfl))
  subst hr
  refine ⟨⟨fun i hi status' hs => ?_, ?_, ?_⟩, ?_, h.unlinked, h.bounce⟩
  · rw [rcpt_answered_ne (by omega)] at hs
    exact h.waiting i (by omega) status' hs
  · show v.accepted + _ = _
    rw [h.accepted]
    exact (countP_modify_status (by decide) status _ _ hopen).symm
  · show v.failed + _ = _
    rw [h.failed]
    exact (countP_modify_status (by decide) status _ _ hopen).symm
  · exact (clearErrors_modifyRcpt v.env v.rcpt status).trans h.env

/-- The record of a dialogue is not counted. -/
theorem Tally.logged (h : Tally v₀ k v) (cmd : SmtpCommand) (c : ReplyClass) : Tally v₀ k (v.logged cmd c) := by
  unfold Standing.logged
  split
  · exact h
  · split <;> exact h.congr rfl rfl rfl rfl rfl rfl

/-- A reply that is not about a recipient. -/
theorem Tally.noted {cmd : SmtpCommand} {c : ReplyClass} (h : Tally v₀ k v) (hcmd : cmd ≠ .rcpt) :
    Tally v₀ k (v.noted cmd c) := by
  have hlog := h.logged cmd c
  have hrefused : ∀ permanent, Tally v₀ k ((v.logged cmd c).refused permanent cmd) := by
    intro permanent
    cases cmd with
    | rcpt => exact absurd rfl hcmd
    | mail | data | dataEof => cases permanent <;> exact hlog.congr rfl rfl rfl rfl rfl rfl
    | connect => exact hlog.congr rfl rfl rfl rfl rfl rfl
    | helo | ehlo | starttls | rset | quit => exact hlog
  unfold Standing.noted
  cases c with
  | success =>
    cases cmd with
    | rcpt => exact absurd rfl hcmd
    | data | dataEof => exact hlog.congr rfl rfl rfl rfl rfl rfl
    | connect | helo | ehlo | mail | starttls | rset | quit => exact hlog
  | more =>
    by_cases hd : cmd = .data
    · rw [if_pos hd]
      exact hlog
    · rw [if_neg hd]
      exact hrefused false
  | temporary => exact hrefused false
  | permanent => exact hrefused true

/-- A reply that is about the recipient with the number `k`. -/
theorem Tally.noted_rcpt (h : Tally v₀ k v) (hr : v.rcpt = k) (hk : k < v.env.eRcpt.length) (c : ReplyClass) :
    Tally v₀ (k + 1) (v.noted .rcpt c) := by
  have henv : (v.logged .rcpt c).env = v.env ∧ (v.logged .rcpt c).rcpt = v.rcpt := by
    unfold Standing.logged
    split <;> exact ⟨rfl, rfl⟩
  have hanswered := (h.logged .rcpt c).answered (henv.2.trans hr) (henv.1 ▸ hk)
  cases c with
  | success => exact hanswered .accepted
  | permanent => exact hanswered .failed
  | more | temporary => exact hanswered .tempfail

end Counts

/-! ## A transaction -/

/-- The host is not given up, or just now. -/
def Standing.Live (v : Standing) : Prop := v.status = .down ∨ v.status = .bounce

theorem Standing.Live.of_status {v w : Standing} (h : v.Live) (hs : w.status = v.status) : w.Live := by
  unfold Standing.Live
  rw [hs]
  exact h

/-- A transaction in which `k` recipients are answered. -/
structure Sending (v₀ : Standing) (k : Nat) (v : Standing) : Prop extends Tally v₀ k v where
  delivered : v.delivered = false
  live : v.Live

/-- What a transaction leaves that ended with `ret`: a message that is delivered is not bounced. -/
structure Sent (v₀ : Standing) (ret : SmtpRet) (v : Standing) : Prop extends
    Tally v₀ v₀.env.eRcpt.length v where
  live : v.Live
  delivered : v.delivered = true → v.env.eFlags.bounce = false ∧ (ret = .ok ∨ v.accepted ≠ 0)

section Transaction

variable {v₀ v w : Standing} {k : Nat} {cmd : SmtpCommand} {c : ReplyClass} {ret : SmtpRet}

theorem Sending.sent (h : Sending v₀ k v) (hk : k ≤ v₀.env.eRcpt.length) : Sent v₀ ret v :=
  ⟨h.toTally.mono hk, h.live, fun hd => absurd (hd.symm.trans h.delivered) (by decide)⟩

/-- A reply to MAIL or DATA marks the envelope at most. -/
theorem Sending.answered (h : Sending v₀ k v) (hcmd : cmd = .mail ∨ cmd = .data) (hw : Answered cmd v ret w) :
    Sending v₀ k w ∧ w.accepted = v.accepted := by
  cases hw with
  | lost => exact ⟨h, rfl⟩
  | noted ret c =>
    have hne : cmd ≠ .rcpt := by rcases hcmd with rfl | rfl <;> decide
    have hlog : v.logged cmd c = v := by
      apply Standing.logged_of_ne <;> rcases hcmd with rfl | rfl <;> decide
    have hrest : (v.noted cmd c).delivered = v.delivered ∧ (v.noted cmd c).status = v.status ∧
        (v.noted cmd c).accepted = v.accepted := by
      unfold Standing.noted
      rw [hlog]
      rcases hcmd with rfl | rfl <;> cases c <;> exact ⟨rfl, rfl, rfl⟩
    exact ⟨⟨h.toTally.noted hne, hrest.1.trans h.delivered, h.live.of_status hrest.2.1⟩, hrest.2.2⟩

/-- The recipient in hand is answered, or the connection is lost. -/
theorem Sending.rcpt (h : Sending v₀ k v) (hr : v.rcpt = k) (hk : k < v₀.env.eRcpt.length)
    (hw : Answered .rcpt v ret w) : Sending v₀ (k + 1) w ∧ w.env.eFlags = v.env.eFlags := by
  cases hw with
  | lost => exact ⟨⟨h.toTally.mono (Nat.le_succ k), h.delivered, h.live⟩, rfl⟩
  | noted ret c =>
    have hrest : (v.noted .rcpt c).delivered = v.delivered ∧ (v.noted .rcpt c).status = v.status ∧
        (v.noted .rcpt c).env.eFlags = v.env.eFlags := by
      unfold Standing.noted Standing.logged
      cases v.dialogues <;> cases c <;> exact ⟨rfl, rfl, rfl⟩
    exact ⟨⟨h.toTally.noted_rcpt hr (h.toTally.length ▸ hk) c, hrest.1.trans h.delivered,
      h.live.of_status hrest.2.1⟩, hrest.2.2⟩

/-- The reply to the end of the message. -/
theorem Sending.eof (h : Sending v₀ v₀.env.eRcpt.length v) (hfree : v.env.eFlags.bounce = false)
    (hacc : v.accepted ≠ 0) (hw : Answered .dataEof v ret w) : Sent v₀ ret w := by
  cases hw with
  | lost => exact h.sent (le_refl _)
  | noted ret c =>
    have hrest : (v.noted .dataEof c).status = v.status ∧ (v.noted .dataEof c).accepted = v.accepted := by
      unfold Standing.noted Standing.logged
      cases v.dialogues <;> cases c <;> exact ⟨rfl, rfl⟩
    refine ⟨h.toTally.noted (by decide), h.live.of_status hrest.1, fun hd => ⟨?_, .inr (hrest.2 ▸ hacc)⟩⟩
    have hmarks : (v.noted .dataEof c).env.eFlags.bounce = v.env.eFlags.bounce ∨
        (v.noted .dataEof c).delivered = v.delivered := by
      unfold Standing.noted Standing.logged
      cases v.dialogues <;> cases c <;> first | exact .inl rfl | exact .inr rfl
    rcases hmarks with hflag | hdel
    · exact hflag.trans hfree
    · exact absurd (hd.symm.trans (hdel.trans h.delivered)) (by decide)

end Transaction

section Send

variable {σ : Type} {R : Prog.World DeliverOp DeliverAns σ} {conf : DeliverConf} {fuel : Nat} {v₀ : Standing}

/-- The replies to the recipients. -/
theorem sendRcpts_tally (hR : OnFiles R) (rcpts : List Recipient) : ∀ (i : Nat) (d : Deliver) (s : σ),
    Sending v₀ i d.standing → i + rcpts.length = v₀.env.eRcpt.length →
    (sendRcpts conf fuel rcpts i).wlp R (fun _ e s' => Sending v₀ v₀.env.eRcpt.length e.standing ∧
      e.dEnv.eFlags = d.dEnv.eFlags ∧ s' = s) d s := by
  induction rcpts with
  | nil =>
    intro i d s h hi
    obtain rfl : i = v₀.env.eRcpt.length := hi
    exact ⟨h, rfl, rfl⟩
  | cons r rest ih =>
    intro i d s h hi
    rw [List.length_cons] at hi
    refine (Stateful.wlp_bind _ _).mpr ((Stateful.wlp_modify _).mpr ?_)
    have hset : Sending v₀ i { d with dRcpt := i }.standing :=
      ⟨h.toTally.congr rfl rfl rfl rfl rfl rfl, h.delivered, h.live⟩
    refine Stateful.wlp_seq (smtpCommand_noted hR) ?_
    rintro ret e s' ⟨he, rfl⟩
    obtain ⟨hnext, hflags⟩ := hset.rcpt rfl (by omega) he
    have hends : Sending v₀ v₀.env.eRcpt.length e.standing :=
      ⟨hnext.toTally.mono (by omega), hnext.delivered, hnext.live⟩
    split
    · refine (Stateful.wlp_bind _ _).mpr (Stateful.wlp_get.mpr ?_)
      split
      · exact ⟨hends, hflags, rfl⟩
      · refine Stateful.wlp_mono ?_ (ih (i + 1) e s' hnext (by omega))
        rintro ret e' s'' ⟨h', hflags', rfl⟩
        exact ⟨h', hflags'.trans hflags, rfl⟩
    · exact ⟨hends, hflags, rfl⟩

/-- **A transaction**, from MAIL to the last reply. -/
theorem smtpSend_tally (hR : OnFiles R) {d : Deliver} {s : σ} (h : Sending v₀ 0 d.standing) :
    (smtpSend conf fuel).wlp R (fun ret e s' => Sent v₀ ret e.standing ∧ s' = s) d s := by
  refine (Stateful.wlp_bind _ _).mpr (Stateful.wlp_get.mpr ?_)
  refine Stateful.wlp_seq (smtpCommand_noted hR) ?_
  rintro ret e s' ⟨he, rfl⟩
  obtain ⟨hmail, -⟩ := h.answered (.inl rfl) he
  split
  · refine (Stateful.wlp_bind _ _).mpr (Stateful.wlp_get.mpr ?_)
    split
    · exact ⟨hmail.sent (Nat.zero_le _), rfl⟩
    · rename_i hfree
      rw [messageRefused, Bool.or_eq_true, not_or, Bool.not_eq_true, Bool.not_eq_true] at hfree
      split
      · exact ⟨hmail.sent (Nat.zero_le _), rfl⟩
      · have hlen : 0 + e.dEnv.eRcpt.length = v₀.env.eRcpt.length := by
          have hl : e.dEnv.plain.eRcpt.length = v₀.env.eRcpt.length := hmail.toTally.length
          rw [length_plain] at hl
          omega
        refine Stateful.wlp_seq (sendRcpts_tally hR _ 0 e s' hmail hlen) ?_
        rintro ret e₁ s'' ⟨h₁, hflags₁, rfl⟩
        split
        · exact ⟨h₁.sent (le_refl _), rfl⟩
        · refine (Stateful.wlp_bind _ _).mpr (Stateful.wlp_get.mpr ?_)
          split
          · refine (Stateful.wlp_bind _ _).mpr ((Stateful.wlp_modify _).mpr ⟨⟨?_, h₁.live, fun _ => ?_⟩, rfl⟩)
            · exact h₁.toTally.congr rfl rfl rfl rfl rfl rfl
            · exact ⟨(congrArg EnvFlags.bounce hflags₁).trans hfree.1, .inl rfl⟩
          · rename_i hacc
            refine Stateful.wlp_seq (smtpCommand_noted hR) ?_
            rintro ret e₂ s' ⟨h₂, rfl⟩
            obtain ⟨hdata, hacc₂⟩ := h₁.answered (.inr rfl) h₂
            split
            · refine (Stateful.wlp_bind _ _).mpr (Stateful.wlp_get.mpr ?_)
              split
              · exact ⟨hdata.sent (le_refl _), rfl⟩
              · rename_i hfree₂
                rw [messageRefused, Bool.or_eq_true, not_or, Bool.not_eq_true, Bool.not_eq_true] at hfree₂
                refine Stateful.wlp_mono ?_ (sendMessage_noted hR)
                rintro ret e₃ s' ⟨⟨-, h₃⟩ | h₃, rfl⟩
                · rw [h₃]
                  exact ⟨hdata.sent (le_refl _), rfl⟩
                · exact ⟨hdata.eof hfree₂.1 (hacc₂ ▸ hacc) h₃, rfl⟩
            · exact ⟨hdata.sent (le_refl _), rfl⟩
  · exact ⟨hmail.sent (Nat.zero_le _), rfl⟩

end Send

/-! ## All hosts -/

/-- What stands where `deliver_remote` ends, and behind `deliver_local`. -/
structure Tallied (v₀ v : Standing) : Prop extends Tally v₀ v₀.env.eRcpt.length v where
  delivered : v.delivered = true → v.env.eFlags.bounce = false

/-- A message that the delivery begins with: no recipient has an answer. -/
structure Untried (d : Deliver) : Prop where
  statuses : ∀ r ∈ d.dEnv.eRcpt, r.rStatus = .tempfail
  accepted : d.dNRcptAccepted = 0
  failed : d.dNRcptFailed = 0
  undelivered : d.dDelivered = false

section Hosts

variable {σ : Type} {R : Prog.World DeliverOp DeliverAns σ} {conf : DeliverConf} {fuel : Nat}
variable {v₀ : Standing} {d : Deliver} {s : σ}

theorem countP_tempfail {x : RStatus} (hx : x ≠ .tempfail) {rs : List Recipient} (h : ∀ r ∈ rs, r.rStatus = .tempfail) :
    rs.countP (fun r => r.rStatus = x) = 0 := by
  rw [List.countP_eq_zero]
  intro r hr hs
  exact hx ((of_decide_eq_true hs).symm.trans (h r hr))

/-- A mail none of whose recipients has an answer. -/
theorem tally_tempfail {v : Standing} (h : ∀ r ∈ v.env.eRcpt, r.rStatus = .tempfail) (ha : v.accepted = 0)
    (hf : v.failed = 0) (henv : v.env.clearErrors = v₀.env.clearErrors) (hu : v.unlinked = v₀.unlinked)
    (hb : v.bounce = v₀.bounce) : Tally v₀ 0 v := by
  refine ⟨⟨fun i _ status hs => ?_, ?_, ?_⟩, henv, hu, hb⟩
  · obtain ⟨r, hr, rfl⟩ := Option.map_eq_some_iff.mp hs
    exact h r (List.mem_of_getElem? hr)
  · rw [ha, countP_tempfail (by decide) h]
  · rw [hf, countP_tempfail (by decide) h]

theorem Untried.tally (h : Untried d) : Tally d.standing 0 d.standing := by
  refine tally_tempfail ?_ h.accepted h.failed rfl rfl rfl
  intro r hr
  obtain ⟨r', hr', rfl⟩ := List.mem_map.mp hr
  exact h.statuses r' hr'

theorem started_sending {e : Deliver} (h : Tally v₀ v₀.env.eRcpt.length d.standing) (hdel : d.dDelivered = false)
    (hlive : d.standing.Live) (he : e.standing = d.started.standing) : Sending v₀ 0 e.standing := by
  rw [he]
  refine ⟨tally_tempfail ?_ rfl rfl ?_ h.unlinked h.bounce, hdel, hlive⟩
  · intro r hr
    obtain ⟨r', hr', rfl⟩ := List.mem_map.mp hr
    obtain ⟨r'', -, rfl⟩ := List.mem_map.mp hr'
    rfl
  · refine Eq.trans ?_ h.env
    show d.dEnv.clearErrors.plain.clearErrors = d.dEnv.plain.clearErrors
    rw [clearErrors_plain, clearErrors_plain, clearErrors_clearErrors]

/-- Between two transactions with an ordinary host nothing is delivered. -/
structure Idle (v₀ v : Standing) : Prop extends Tally v₀ v₀.env.eRcpt.length v where
  delivered : v.delivered = false
  live : v.Live

theorem Idle.tallied {v : Standing} (h : Idle v₀ v) : Tallied v₀ v :=
  ⟨h.toTally, fun hd => absurd (hd.symm.trans h.delivered) (by decide)⟩

theorem Tallied.of_status {v w : Standing} (h : Tallied v₀ v) (hw : w = { v with status := w.status }) : Tallied v₀ w := by
  rw [hw]
  exact ⟨h.toTally.congr rfl rfl rfl rfl rfl rfl, h.delivered⟩

theorem hostFree_idle : HostFree fun d => Idle v₀ d.standing where
  search := by
    intro d e h hd
    rw [unsearched_standing d d e h rfl]
    exact hd
  errText := fun _ _ h => h
  bounced := by
    intro d h
    refine ⟨h.toTally.congr rfl ?_ rfl rfl rfl rfl, h.delivered, .inr rfl⟩
    rfl

theorem Idle.beside {v w : Standing} (h : Idle v₀ v) (hw : Beside v w) : Idle v₀ w := by
  cases hw with
  | same => exact h
  | bounced => exact ⟨h.toTally.congr rfl rfl rfl rfl rfl rfl, h.delivered, .inr rfl⟩

theorem hostRule_tally (hR : OnFiles R) (v₀ : Standing) : HostRule R conf fuel (fun d => Idle v₀ d.standing)
    (fun ret d => Sent v₀ ret d.standing) (fun _ d => Tallied v₀ d.standing) where
  beside := fun _ _ he h => h.beside he
  sent := by
    intro ret d e he h
    rw [he]
    exact h
  ends := fun _ _ h => h.tallied
  stops := fun d h _ => h.tallied.of_status rfl
  search := fun d s h => nextDnsrHostLookup_keeps hR.quiet.offline hostFree_idle.search
    (fun e he => nextQuery_keeps hR.quiet.offline hostFree_idle he) h
  starts := by
    intro d e h he
    have hs := started_sending h.toTally h.delivered h.live he
    exact ⟨hs.toTally.mono (Nat.zero_le _), fun hd => absurd (hd.symm.trans hs.delivered) (by decide)⟩
  send := fun d e s h he => smtpSend_tally hR (started_sending h.toTally h.delivered h.live he)
  aborts := fun _ d h => ⟨h.toTally, fun hd => (h.delivered hd).1⟩
  done := fun _ d h _ => Tallied.of_status (v := d.standing) ⟨h.toTally, fun hd => (h.delivered hd).1⟩ rfl
  punted := fun d h hpunt => by
    rcases h.live with hd | hd <;> cases hd.symm.trans hpunt
  bounced := fun _ d h _ => ⟨h.toTally, fun hd => (h.delivered hd).1⟩
  again := by
    intro ret d h hret hb hstay
    have hdown : d.hqStatus = .down := h.live.resolve_right hb
    refine ⟨h.toTally, ?_, h.live⟩
    by_contra hdel
    have hdel' : d.dDelivered = true := Bool.eq_true_of_not_eq_false hdel
    have hacc : d.dNRcptAccepted ≠ 0 := (h.delivered hdel').2.resolve_left hret
    have hmoved := hstay hdown
    rw [moved, hdel', Bool.true_and, Bool.or_eq_false_iff, decide_eq_false_iff_not] at hmoved
    exact hacc (not_not.mp (of_decide_eq_false hmoved.2))

/-- **A delivery to an ordinary host**, whatever answers: the counters are those of the recipients. -/
theorem deliverRemote_tally (hR : OnFiles R) (hst : d.hqStatus = .mx) (h : Untried d) :
    (deliverRemote conf fuel).wlp R (fun _ e s' => Tallied d.standing e.standing ∧ s' = s) d s := by
  have htally : Tally d.standing d.standing.env.eRcpt.length d.standing := h.tally.mono (Nat.zero_le _)
  have hundelivered : ∀ e : Deliver, e.dDelivered = true → e.dDelivered = false → False := fun e ht hf =>
    absurd (ht.symm.trans hf) (by decide)
  refine Stateful.wlp_mono ?_ (deliverRemote_rule hR (hostRule_tally hR d.standing) (fun _ => ?_) fun hpunt => ?_)
  · rintro ret e s' ⟨rfl | he, rfl⟩
    · exact ⟨⟨htally, fun hd => (hundelivered e hd h.undelivered).elim⟩, rfl⟩
    · exact ⟨he, rfl⟩
  · exact ⟨htally.congr rfl rfl rfl rfl rfl rfl, h.undelivered, .inl rfl⟩
  · rw [hst] at hpunt
    cases hpunt

end Hosts

/-! ## The local mailer -/

/-- The first `k` recipients are handed to the mailer, and stand as it has answered. -/
structure Mailed (v₀ : Standing) (k : Nat) (v : Standing) : Prop extends Tally v₀ k v where
  flags : v.env.eFlags = v₀.env.eFlags
  locals : ∀ i status, (v.env.eRcpt[i]?).map Recipient.rStatus = some status →
    status = .tempfail ∨ ∃ mlError, (i, mlError) ∈ v.locals ∧ status = mailerStatus mlError

section Local

variable {σ : Type} {R : Prog.World DeliverOp DeliverAns σ} {conf : DeliverConf} {v₀ v : Standing} {k : Nat}

theorem Mailed.answered (h : Mailed v₀ k v) (hr : v.rcpt = k) (hk : k < v₀.env.eRcpt.length) (mlError : Int) :
    Mailed v₀ (k + 1) { v.answered (mailerStatus mlError) with locals := v.locals ++ [(k, mlError)] } := by
  have htally := h.toTally.answered hr (h.toTally.length ▸ hk) (mailerStatus mlError)
  refine ⟨htally.congr rfl rfl rfl rfl rfl rfl, h.flags, fun i status hs => ?_⟩
  by_cases hi : v.rcpt = i
  · subst hi
    have hget : (v.env.eRcpt[v.rcpt]?).map (fun _ => mailerStatus mlError) = some status := by
      rw [← hs]
      show _ = ((v.env.eRcpt.modify v.rcpt _)[v.rcpt]?).map _
      rw [List.getElem?_modify_eq, Option.map_eq_map, Option.map_map]
      rfl
    obtain ⟨r, -, rfl⟩ := Option.map_eq_some_iff.mp hget
    exact .inr ⟨mlError, by rw [hr]; exact List.mem_append_right _ List.mem_cons_self, rfl⟩
  · refine (h.locals i status ?_).imp_right ?_
    · rw [← hs]
      exact congrArg (Option.map Recipient.rStatus) (rcpt_answered_ne hi _).symm
    · rintro ⟨m, hm, rfl⟩
      exact ⟨m, List.mem_append_left _ hm, rfl⟩

theorem deliverLocalLoop_mailed (hR : OnFiles R) (rcpts : List Recipient) : ∀ (i : Nat) (d : Deliver) (s : σ),
    Mailed v₀ i d.standing → i + rcpts.length = v₀.env.eRcpt.length →
    (deliverLocalLoop conf rcpts i).wlp R
      (fun _ e s' => Mailed v₀ v₀.env.eRcpt.length e.standing ∧ s' = s) d s := by
  induction rcpts with
  | nil =>
    intro i d s h hi
    obtain rfl : i = v₀.env.eRcpt.length := hi
    exact ⟨h, rfl⟩
  | cons r rest ih =>
    intro i d s h hi
    rw [List.length_cons] at hi
    refine (Stateful.wlp_bind _ _).mpr ((Stateful.wlp_modify _).mpr ?_)
    obtain ⟨d₁, hd₁⟩ : ∃ d₁ : Deliver, d₁ = { d with dRcpt := i } := ⟨_, rfl⟩
    have hset : Mailed v₀ i d₁.standing := hd₁ ▸ ⟨h.toTally.congr rfl rfl rfl rfl rfl rfl, h.flags, h.locals⟩
    have hrcpt : d₁.standing.rcpt = i := by rw [hd₁]; rfl
    rw [← hd₁]
    have hnote : ∀ (mlError : Int) (e : Deliver), e.standing = d₁.standing → Stateful.wlp R (do
        noteRcpt (mailerStatus mlError)
        modify fun d => { d with log.locals := d.log.locals ++ [(i, mlError)] }
        deliverLocalLoop conf rest (i + 1))
        (fun _ e s' => Mailed v₀ v₀.env.eRcpt.length e.standing ∧ s' = s) e s := by
      intro mlError e he
      refine (Stateful.wlp_bind _ _).mpr ((Stateful.wlp_modify _).mpr ?_)
      refine (Stateful.wlp_bind _ _).mpr ((Stateful.wlp_modify _).mpr ?_)
      refine ih (i + 1) _ s ?_ (by omega)
      have hnext := (he ▸ hset : Mailed v₀ i e.standing).answered (he ▸ hrcpt) (by omega) mlError
      rw [← standing_noteRcpt] at hnext
      exact hnext
    refine (keeps_call hR rfl).seq fun ok e he => ?_
    split
    · refine (Stateful.wlp_bind _ _).mpr ((Stateful.wlp_modify _).mpr ?_)
      refine (Stateful.wlp_bind _ _).mpr (Stateful.wlp_get.mpr ?_)
      exact (keeps_call hR rfl).seq fun mlError e' h' => hnote mlError e' (h'.trans he)
    · exact hnote exTempfail e he

/-- **The local mailer**: the counters are those of the recipients, and each stands as the mailer's exit
    code says. -/
theorem deliverLocal_mailed (hR : OnFiles R) {d : Deliver} {s : σ} (h : Untried d) (hb : d.dEnv.eFlags.bounce = false) :
    (deliverLocal conf).wlp R (fun _ e s' => Tallied d.standing e.standing ∧
      Mailed d.standing d.dEnv.eRcpt.length e.standing ∧ e.dDelivered = true ∧ s' = s) d s := by
  have hlen : d.standing.env.eRcpt.length = d.dEnv.eRcpt.length := length_plain d.dEnv
  have hstart : Mailed d.standing 0 d.standing := by
    refine ⟨h.tally, rfl, fun i status hs => .inl ?_⟩
    exact h.tally.waiting i (Nat.zero_le i) status hs
  refine (Stateful.wlp_bind _ _).mpr (Stateful.wlp_get.mpr ?_)
  refine Stateful.wlp_seq (deliverLocalLoop_mailed hR _ 0 d s hstart (by omega)) ?_
  rintro - e s' ⟨he, rfl⟩
  have htally : Tally d.standing d.standing.env.eRcpt.length { e with dDelivered := true }.standing :=
    he.toTally.congr rfl rfl rfl rfl rfl rfl
  refine (Stateful.wlp_modify _).mpr ⟨⟨htally, fun _ => ?_⟩, ?_, rfl, rfl⟩
  · exact (congrArg EnvFlags.bounce he.flags).trans hb
  · rw [← hlen]
    exact ⟨htally, he.flags, he.locals⟩

end Local

end Simta
