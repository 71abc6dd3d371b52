import Simta.Standing

/-!
# One delivery and all its hosts

`deliver_remote` goes from host to host; what it makes of the message is decided in the transactions.

* `Beside` — what a reply outside a transaction may change; `smtpConnect_beside`;
* `HostRule` — what has to be shown of one transaction, with what holds between two of them;
* `remoteLoop_rule`, `deliverRemote_rule` — what then holds wherever `deliver_remote` ends.
-/

set_option autoImplicit false

namespace Simta

/-! ## The envelope without its marks -/

theorem length_plain (env : Envelope) : env.plain.eRcpt.length = env.eRcpt.length := by
  simp only [Envelope.plain, List.length_map]

theorem clearErrors_plain (env : Envelope) : env.plain.clearErrors = env.clearErrors := by
  simp only [Envelope.plain, Envelope.clearErrors, List.map_map]
  rfl

theorem plain_clearErrors (env : Envelope) : env.clearErrors.plain = env.clearErrors := by
  simp only [Envelope.plain, Envelope.clearErrors, List.map_map]
  rfl

theorem clearErrors_clearErrors (env : Envelope) : env.clearErrors.clearErrors = env.clearErrors := by
  simp only [Envelope.clearErrors, List.map_map]
  rfl

theorem clearErrors_modifyRcpt (env : Envelope) (i : Nat) (status : RStatus) :
    (env.modifyRcpt i fun r => { r with rStatus := status }).clearErrors = env.clearErrors := by
  have h : ∀ (rcpts : List Recipient) (i : Nat),
      (rcpts.modify i fun r => { r with rStatus := status }).map
        (fun r => { r with rStatus := .tempfail, rErrText := none }) =
      rcpts.map fun r : Recipient => { r with rStatus := .tempfail, rErrText := none } := by
    intro rcpts
    induction rcpts with
    | nil => intro i; cases i <;> rfl
    | cons r rest ih =>
      intro i
      cases i with
      | zero => rfl
      | succ i => simp [ih]
  simp only [Envelope.clearErrors, Envelope.modifyRcpt, h]

theorem length_clearErrors (env : Envelope) : env.clearErrors.eRcpt.length = env.eRcpt.length := by
  simp only [Envelope.clearErrors, List.length_map]

/-! ## Replies outside a transaction -/

/-- What a reply outside a transaction may change: a host that refuses the connection bounces its mail. -/
inductive Beside (v : Standing) : Standing → Prop
  | same : Beside v v
  | bounced (h : v.status = .down) : Beside v { v with status := .bounce }

theorem Beside.trans {u v w : Standing} (h : Beside u v) (h' : Beside v w) : Beside u w := by
  cases h with
  | same => exact h'
  | bounced hu =>
    cases h' with
    | same => exact .bounced hu
    | bounced hv => cases hv

theorem Beside.delivered {v w : Standing} (h : Beside v w) : w.delivered = v.delivered := by
  cases h <;> rfl

theorem Beside.live {v w : Standing} (h : Beside v w) (hv : v.status = .down ∨ v.status = .bounce) :
    w.status = .down ∨ w.status = .bounce := by
  cases h with
  | same => exact hv
  | bounced => exact .inr rfl

theorem Beside.eq_of_ne {v w : Standing} (h : Beside v w) (hv : v.status ≠ .down) : w = v := by
  cases h with
  | same => rfl
  | bounced hd => exact absurd hd hv

theorem beside_connect (v : Standing) (c : ReplyClass) : Beside v (v.noted .connect c) := by
  unfold Standing.noted
  rw [Standing.logged_of_ne (by decide) (by decide)]
  by_cases hv : v.status = .down
  · cases c with
    | success | more | temporary => exact .same
    | permanent =>
      simp only [Standing.refused, hv, and_self, if_true]
      exact .bounced hv
  · cases c with
    | success | more | temporary => exact .same
    | permanent =>
      simp only [Standing.refused, hv, and_false, if_false]
      exact .same

section Connection

variable {σ : Type} {R : Prog.World DeliverOp DeliverAns σ} {d : Deliver} {s : σ}
variable {conf : DeliverConf} {fuel : Nat}

/-- A new connection says nothing about the message, but a 5xx greeting of the host itself. -/
theorem smtpConnect_beside (hR : OnFiles R) :
    (smtpConnect conf fuel).wlp R (fun _ e s' => Beside d.standing e.standing ∧ s' = s) d s := by
  refine Stateful.wlp_seq (smtpReply_noted hR.quiet) ?_
  rintro ret e s' ⟨he, rfl⟩
  have hgreet : Beside d.standing e.standing := by
    generalize e.standing = v at he
    cases he with
    | lost => exact .same
    | noted ret c => exact beside_connect _ c
  have hsame : ∀ {e' : Deliver}, e'.standing = e.standing → Beside d.standing e'.standing := fun h => h ▸ hgreet
  split
  · refine (keeps_call hR rfl).seq fun ok e₁ h₁ => ?_
    split
    · refine (Stateful.wlp_bind _ _).mpr ((Stateful.wlp_modify _).mpr ?_)
      refine (keeps_smtpReply hR rfl).seq fun ret e₂ h₂ => ?_
      refine (Stateful.wlp_bind _ _).mpr ((Stateful.wlp_modify _).mpr ?_)
      have hmono : ∀ {m : Dlv SmtpRet} {e₃ : Deliver}, Stateful.Keeps R Deliver.standing m →
          e₃.standing = e₂.standing →
          m.wlp R (fun _ e s'' => Beside d.standing e.standing ∧ s'' = s') e₃ s' := fun {m e₃} hm h₃ =>
        Stateful.wlp_mono (fun _ _ _ h => ⟨hsame (h.1.trans (h₃.trans (h₂.trans h₁))), h.2⟩) (hm e₃ s')
      split
      · refine (Stateful.wlp_bind _ _).mpr (Stateful.wlp_get.mpr ?_)
        split
        · refine hmono (Stateful.keeps_bind (keeps_smtpCommand hR rfl _) fun ret => ?_) rfl
          split
          · exact keeps_smtpStarttls hR
          · exact Stateful.keeps_pure _
        · exact hmono (Stateful.keeps_pure _) rfl
      · exact hmono (keeps_smtpCommand hR rfl _) rfl
      · exact hmono (Stateful.keeps_pure _) rfl
    · exact ⟨hsame h₁, rfl⟩
  · exact ⟨hgreet, rfl⟩

end Connection

/-! ## The rule -/

/-- What a transaction starts from. -/
def Deliver.started (d : Deliver) : Deliver :=
  { d with
    dEnv := d.dEnv.clearErrors
    dNRcptAccepted := 0
    dNRcptFailed := 0
    dNRcptTempfailed := 0
    dSent := 0
    log.dialogues := ⟨[], none⟩ :: d.log.dialogues }

/-- `I` holds between two transactions, `S` behind one with its return value, and `D` where `deliver_remote`
    ends. -/
structure HostRule {σ : Type} (R : Prog.World DeliverOp DeliverAns σ) (conf : DeliverConf) (fuel : Nat)
    (I : Deliver → Prop) (S : SmtpRet → Deliver → Prop) (D : DlvRet → Deliver → Prop) : Prop where
  beside : ∀ d e : Deliver, Beside d.standing e.standing → I d → I e
  sent : ∀ ret (d e : Deliver), e.standing = d.standing → S ret d → S ret e
  ends : ∀ ret d, I d → D ret d
  stops : ∀ d, I d → d.hqStatus = .down → D .done { d with hqStatus := .mx }
  search : ∀ d s, I d → (nextDnsrHostLookup conf).wlp R (fun _ e s' => I e ∧ s' = s) d s
  starts : ∀ d e : Deliver, I d → e.standing = d.started.standing → D .abort e
  send : ∀ d e s, I d → e.standing = d.started.standing →
    (smtpSend conf fuel).wlp R (fun ret e' s' => S ret e' ∧ s' = s) e s
  aborts : ∀ ret d, S ret d → D .abort d
  done : ∀ ret d, S ret d → d.hqStatus = .down → D .done { d with hqStatus := .mx }
  punted : ∀ d, S .ok d → d.hqStatus = .puntDown →
    D .done { d with dEnv := d.dEnv.clearErrors, hqStatus := .punt }
  bounced : ∀ ret d, S ret d → d.hqStatus = .bounce → D .done d
  again : ∀ ret d, S ret d → ret ≠ .ok → d.hqStatus ≠ .bounce → (d.hqStatus = .down → moved d = false) → I d

section Rule

variable {σ : Type} {R : Prog.World DeliverOp DeliverAns σ} {conf : DeliverConf} {fuel : Nat}
variable {I : Deliver → Prop} {S : SmtpRet → Deliver → Prop} {D : DlvRet → Deliver → Prop}
variable {d : Deliver} {s : σ} {movement : Bool}

theorem HostRule.same (h : HostRule R conf fuel I S D) {e : Deliver} (he : e.standing = d.standing) (hd : I d) : I e :=
  h.beside d e (he ▸ .same) hd

/-- `smtp_cleanup`, when the message is to go on: `D` if the queue has moved, else `I`. -/
theorem smtpCleanup_rule (hR : OnFiles R) (h : HostRule R conf fuel I S D) {next : Dlv DlvRet} {ret : SmtpRet}
    (hstop : ∀ e : Deliver, e.standing = d.standing → e.hqStatus = .down → movement = true →
      D .done { e with hqStatus := .mx })
    (hbounce : ∀ e : Deliver, e.standing = d.standing → e.hqStatus = .bounce → D .done e)
    (hgo : ∀ e : Deliver, e.standing = d.standing → e.hqStatus ≠ .bounce → (e.hqStatus = .down → movement = false) →
      I e)
    (hnext : ∀ e, I e → next.wlp R (fun ret e s' => D ret e ∧ s' = s) e s) :
    (smtpCleanup conf fuel movement next ret).wlp R (fun ret e s' => D ret e ∧ s' = s) d s := by
  have hclose : ∀ e : Deliver, e.standing = d.standing → Stateful.wlp R (do
      modify fun d : Deliver => { d with dSnetSmtp := none }
      let d ← get
      if d.hqStatus = .bounce then return .done
      else if d.hqStatus = .down ∧ movement then
        modify fun d => { d with hqStatus := .mx }
        return .done
      else
        if d.hqStatus = .puntDown then modify fun d => { d with hqErrText := none }
        if ← Dlv.ask .dfileSeek then next else return .done)
      (fun ret e s' => D ret e ∧ s' = s) e s := by
    intro e he
    refine (Stateful.wlp_bind _ _).mpr ((Stateful.wlp_modify _).mpr ?_)
    refine (Stateful.wlp_bind _ _).mpr (Stateful.wlp_get.mpr ?_)
    obtain ⟨e₀, he₀⟩ : ∃ e₀ : Deliver, e₀ = { e with dSnetSmtp := none } := ⟨_, rfl⟩
    have hs₀ : e₀.standing = d.standing := (congrArg Deliver.standing he₀).trans he
    rw [← he₀]
    split
    · exact ⟨hbounce _ hs₀ ‹_›, rfl⟩
    · rename_i hbounce
      split
      · rename_i hd
        refine (Stateful.wlp_bind _ _).mpr ((Stateful.wlp_modify _).mpr ?_)
        exact ⟨hstop _ hs₀ hd.1 hd.2, rfl⟩
      · rename_i hd
        have hI : I e₀ := hgo _ hs₀ hbounce fun hdown => Bool.eq_false_iff.mpr fun hm => hd ⟨hdown, hm⟩
        have hseek : ∀ e₁, I e₁ → Stateful.wlp R (do
            if ← Dlv.ask .dfileSeek then next else return .done) (fun ret e s' => D ret e ∧ s' = s) e₁ s := by
          intro e₁ h₁
          refine (keeps_call hR rfl).seq fun ok e₂ h₂ => ?_
          have hI₂ : I e₂ := h.same h₂ h₁
          split
          · exact hnext e₂ hI₂
          · exact ⟨h.ends _ _ hI₂, rfl⟩
        split
        · refine (Stateful.wlp_bind _ _).mpr ((Stateful.wlp_modify _).mpr ?_)
          exact hseek _ (h.same (d := e₀) rfl hI)
        · exact hseek _ hI
  unfold smtpCleanup
  split
  · exact (keeps_smtpQuit hR).seq fun _ e he => hclose e he
  · exact hclose d rfl

/-- `smtp_cleanup` before a transaction. -/
theorem smtpCleanup_unsent (hR : OnFiles R) (h : HostRule R conf fuel I S D) {next : Dlv DlvRet} {ret : SmtpRet}
    (hd : I d) (hnext : ∀ e, I e → next.wlp R (fun ret e s' => D ret e ∧ s' = s) e s) :
    (smtpCleanup conf fuel movement next ret).wlp R (fun ret e s' => D ret e ∧ s' = s) d s :=
  smtpCleanup_rule hR h (fun e he hdown _ => h.stops e (h.same he hd) hdown) (fun e he _ => h.ends _ e (h.same he hd))
    (fun _ he _ _ => h.same he hd) hnext

theorem moved_of_standing {e : Deliver} (he : e.standing = d.standing) : moved e = moved d := by
  have hf : e.dNRcptFailed = d.dNRcptFailed := congrArg Standing.failed he
  have ha : e.dNRcptAccepted = d.dNRcptAccepted := congrArg Standing.accepted he
  have hd : e.dDelivered = d.dDelivered := congrArg Standing.delivered he
  unfold moved
  rw [hf, ha, hd]

theorem dialogue_rule (hR : OnFiles R) (h : HostRule R conf fuel I S D) {next : Bool → Dlv DlvRet} (hd : I d)
    (hnext : ∀ b e, I e → (next b).wlp R (fun ret e s' => D ret e ∧ s' = s) e s) :
    (dialogue conf fuel movement next).wlp R (fun ret e s' => D ret e ∧ s' = s) d s := by
  refine (Stateful.wlp_bind _ _).mpr ((Stateful.wlp_modify _).mpr ?_)
  refine (keeps_call hR rfl).seq fun ok e he => ?_
  have hstarted : e.standing = d.started.standing := he
  split
  · refine Stateful.wlp_seq (h.send d e s hd hstarted) ?_
    rintro ret e₁ s' ⟨hS, rfl⟩
    refine (Stateful.wlp_bind _ _).mpr (Stateful.wlp_get.mpr ?_)
    extract_lets now after
    have hafter : ∀ e₂ : Deliver, e₂.standing = e₁.standing →
        (after ()).wlp R (fun ret e s'' => D ret e ∧ s'' = s') e₂ s' := by
      intro e₂ h₂
      have hS₂ : S ret e₂ := h.sent _ _ _ h₂ hS
      have hstatus : e₂.hqStatus = e₁.hqStatus := status_of_standing h₂
      have hcleanup : ret ≠ .ok → (smtpCleanup conf fuel now (next now) ret).wlp R
          (fun ret e s'' => D ret e ∧ s'' = s') e₂ s' := by
        intro hret
        refine smtpCleanup_rule hR h (fun e₃ h₃ hdown _ => h.done ret e₃ (h.sent _ _ _ h₃ hS₂) hdown)
          (fun e₃ h₃ => h.bounced ret e₃ (h.sent _ _ _ h₃ hS₂))
          (fun e₃ h₃ hb hgo => h.again ret e₃ (h.sent _ _ _ h₃ hS₂) hret hb fun hdown => ?_) (hnext now)
        have hnow : (movement || moved e₁) = false := hgo hdown
        rw [moved_of_standing (h₃.trans h₂)]
        exact (Bool.or_eq_false_iff.mp hnow).2
      cases ret with
      | ok =>
        simp only [after]
        split
        · rename_i hdown
          exact (Stateful.wlp_bind _ _).mpr ((Stateful.wlp_modify _).mpr ⟨h.done _ _ hS₂ (hstatus.trans hdown), rfl⟩)
        · rename_i hpunt
          exact (Stateful.wlp_bind _ _).mpr ((Stateful.wlp_modify _).mpr ⟨h.punted _ hS₂ (hstatus.trans hpunt), rfl⟩)
        · exact ⟨h.aborts _ _ hS₂, rfl⟩
      | abort => exact ⟨h.aborts _ _ hS₂, rfl⟩
      | error | badConnection => exact hcleanup (by decide)
    split
    · refine (Stateful.wlp_bind _ _).mpr ((Stateful.wlp_modify _).mpr ?_)
      exact (keeps_call hR rfl).seq fun _ e₂ h₂ => hafter e₂ h₂
    · exact hafter e₁ rfl
  · exact ⟨h.starts d e hd hstarted, rfl⟩

/-- **The loop over the hosts**, whatever answers. -/
theorem remoteLoop_rule (hR : OnFiles R) (h : HostRule R conf fuel I S D) (n : Nat) :
    ∀ (movement : Bool) (d : Deliver), I d →
      (remoteLoop conf fuel n movement).wlp R (fun ret e s' => D ret e ∧ s' = s) d s := by
  induction n with
  | zero => exact fun _ d hd => ⟨h.ends _ d hd, rfl⟩
  | succ n ih =>
    intro movement d hd
    refine (Stateful.wlp_bind _ _).mpr (Stateful.wlp_get.mpr ?_)
    split
    · refine Stateful.wlp_seq (h.search d s hd) ?_
      rintro step e s' ⟨he, rfl⟩
      split
      · refine (keeps_call hR rfl).seq fun ok e₁ h₁ => ?_
        have he₁ : I e₁ := h.same h₁ he
        split
        · refine (Stateful.wlp_bind _ _).mpr (Stateful.wlp_get.mpr ?_)
          refine (keeps_call hR rfl).seq fun ok e₂ h₂ => ?_
          have he₂ : I e₂ := h.same h₂ he₁
          split
          · refine (keeps_call hR rfl).seq fun ok e₃ h₃ => ?_
            have he₃ : I e₃ := h.same h₃ he₂
            split
            · refine (Stateful.wlp_bind _ _).mpr ((Stateful.wlp_modify _).mpr ?_)
              refine Stateful.wlp_seq (smtpConnect_beside hR) ?_
              rintro ret e₄ s'' ⟨h₄, rfl⟩
              have he₄ : I e₄ := h.beside e₃ e₄ h₄ he₃
              split
              · exact dialogue_rule hR h he₄ ih
              · exact ⟨h.ends _ _ he₄, rfl⟩
              · exact smtpCleanup_unsent hR h he₄ (ih movement)
            · exact ih movement e₃ he₃
          · exact ih movement e₂ he₂
        · exact ih movement e₁ he₁
      · exact ⟨h.ends _ _ he, rfl⟩
      · exact ⟨h.ends _ _ he, rfl⟩
    · refine (keeps_smtpRset hR).seq fun ret e he => ?_
      have hI : I e := h.same he hd
      split
      · exact dialogue_rule hR h hI ih
      · exact ⟨h.ends _ _ hI, rfl⟩
      · exact smtpCleanup_unsent hR h hI (ih movement)

/-- **`deliver_remote`**: where it ends, for a message of an ordinary host and for one of the punt host. -/
theorem deliverRemote_rule (hR : OnFiles R) (h : HostRule R conf fuel I S D)
    (hmx : d.hqStatus = .mx → I { d with hqStatus := .down })
    (hpunt : d.hqStatus = .punt → I { d with hqStatus := .puntDown }) :
    (deliverRemote conf fuel).wlp R (fun ret e s' => (e = d ∨ D ret e) ∧ s' = s) d s := by
  have hloop : ∀ e, I e → (remoteLoop conf fuel fuel false).wlp R (fun ret e s' => (e = d ∨ D ret e) ∧ s' = s) e s :=
    fun e he => Stateful.wlp_mono (fun _ _ _ h => ⟨.inr h.1, h.2⟩) (remoteLoop_rule hR h fuel false e he)
  refine Stateful.wlp_seq (P := fun _ e s' => e = d ∧ s' = s) (fun a t ht => ⟨rfl, hR _ _ _ _ rfl ht⟩) ?_
  rintro now e s' ⟨rfl, rfl⟩
  split
  · exact ⟨.inl rfl, rfl⟩
  · refine (Stateful.wlp_bind _ _).mpr (Stateful.wlp_get.mpr ?_)
    split
    · rename_i hst
      exact (Stateful.wlp_bind _ _).mpr ((Stateful.wlp_modify _).mpr (hloop _ (hmx hst)))
    · rename_i hst
      exact (Stateful.wlp_bind _ _).mpr ((Stateful.wlp_modify _).mpr (hloop _ (hpunt hst)))
    · exact ⟨.inl rfl, rfl⟩

end Rule

end Simta
