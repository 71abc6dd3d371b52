import Simta.FilterVerdict
import Simta.Session
import Simta.SessionHistory

/-!
# The session and its history

What a session holds at every command: its log is the log of a history, its envelope is that of the open
transaction, and with SASL a client that is not known finds a mode in which MAIL is refused.

* `Describes`, `Tracked` — the envelope of the session, and the transaction that its history has open;
* `InSession` — that, and the mode of a client that is not known;
* `reset_spec` — `deliver_accepted` and `reset` close the transaction;
* `fMail_inSession`, `fRcpt_inSession`, `fAuth_inSession`, `fStarttls_inSession` — the commands keep it.
-/

set_option autoImplicit false

namespace Simta

/-! ## The invariant -/

/-- The envelope is that of the transaction; an Efile has recipients, and is that of the stored message. -/
structure Describes (t : Transaction) (env : Envelope) : Prop where
  carries : t.Carries env
  stored : ∀ id, t.stored = some id → env.eId = id ∧ env.eFlags.efile = true
  efile : env.eFlags.efile = true → t.rcpts ≠ []

theorem Describes.new {t : Transaction} {env : Envelope} (hd : Describes t env) (hno : env.eFlags.efile = false) :
    t.stored = none := by
  cases ht : t.stored with
  | none => rfl
  | some id =>
    rw [(hd.stored id ht).2] at hno
    cases hno

/-- The envelope of the session belongs to the transaction that is open. -/
def EnvelopeOf (h : History) : Option Envelope → Prop
  | none => h.current = none
  | some env => ∃ t, h.current = some t ∧ Describes t env

/-- The state of the session is that of its history. -/
structure Recorded (sasl : Bool) (h : History) (r : ReceiveData) : Prop where
  log : History.Of sasl r.rLog h
  env : EnvelopeOf h r.rEnv
  auth : h.authed = r.rAuth

/-- Some history is that of the session. -/
def Tracked (sasl : Bool) (r : ReceiveData) : Prop := ∃ h, Recorded sasl h r

/-- The modes in which no MAIL is taken. -/
def SmtpMode.Shut (mode : SmtpMode) : Prop := mode = .noauth ∨ mode = .off ∨ mode = .refuse

/-- With SASL a client that is not known is shut out. -/
def Gate (sasl : Bool) (r : ReceiveData) : Prop := sasl = true → r.rAuth = false → r.rSmtpMode.Shut

/-- What holds in front of every command. -/
structure InSession (sasl : Bool) (r : ReceiveData) : Prop where
  tracked : Tracked sasl r
  gate : Gate sasl r

/-- What the invariant looks at. -/
def sessionView (r : ReceiveData) : (Option Envelope × SmtpMode) × Bool × List Event :=
  ((r.rEnv, r.rSmtpMode), r.rAuth, r.rLog)

theorem sessionView_eq {r r' : ReceiveData} (h : sessionView r' = sessionView r) :
    r'.rEnv = r.rEnv ∧ r'.rSmtpMode = r.rSmtpMode ∧ r'.rAuth = r.rAuth ∧ r'.rLog = r.rLog := by
  simp only [sessionView, Prod.mk.injEq] at h
  exact ⟨h.1.1, h.1.2, h.2⟩

theorem Tracked.of_eq {sasl : Bool} {r r' : ReceiveData} (hr : Tracked sasl r) (henv : r'.rEnv = r.rEnv)
    (hauth : r'.rAuth = r.rAuth) (hlog : r'.rLog = r.rLog) : Tracked sasl r' := by
  obtain ⟨h, hrec⟩ := hr
  exact ⟨h, by rw [hlog]; exact hrec.log, by rw [henv]; exact hrec.env, by rw [hauth]; exact hrec.auth⟩

theorem Tracked.congr {sasl : Bool} {r r' : ReceiveData} (hr : Tracked sasl r)
    (h : sessionView r' = sessionView r) : Tracked sasl r' := by
  obtain ⟨henv, -, hauth, hlog⟩ := sessionView_eq h
  exact hr.of_eq henv hauth hlog

theorem InSession.congr {sasl : Bool} {r r' : ReceiveData} (hr : InSession sasl r)
    (h : sessionView r' = sessionView r) : InSession sasl r' := by
  obtain ⟨-, hmode, hauth, -⟩ := sessionView_eq h
  refine ⟨hr.tracked.congr h, ?_⟩
  unfold Gate
  rw [hmode, hauth]
  exact hr.gate

/-- A session that is off is shut. -/
theorem InSession.off {sasl : Bool} {r : ReceiveData} (hr : Tracked sasl r) :
    InSession sasl { r with rSmtpMode := .off } where
  tracked := hr.of_eq rfl rfl rfl
  gate := fun _ _ => .inr (.inl rfl)

/-- In any other mode the client may send. -/
theorem InSession.cleared {sasl : Bool} {r : ReceiveData} (hr : InSession sasl r) (hmode : ¬ r.rSmtpMode.Shut) :
    sasl = true → r.rAuth = true := by
  intro hsasl
  by_contra hno
  exact hmode (hr.gate hsasl (by simpa using hno))

section Runs

variable {σ : Type} {R : Prog.World RecvOp RecvAns σ} {conf : RecvConf} {sasl : Bool} {r : ReceiveData} {s : σ}

/-! ## What leaves it alone -/

theorem smtpWriteBanner_fixes (code : Nat) (msg arg : Option Text) :
    Stateful.Fixes R sessionView (smtpWriteBanner conf code msg arg) :=
  Stateful.fixes_of_same fun _ _ => smtpWriteBanner_same code msg arg

theorem snetWritef_fixes (line : Text) : Stateful.Fixes R sessionView (snetWritef line) :=
  Stateful.fixes_of_same fun _ _ => snetWritef_same line

theorem getline_fixes (sn : Snet) :
    Stateful.Fixes R sessionView (sn.getline fun len => (Recv.ask (.read len) : Recv ReadResult)) :=
  Stateful.fixes_of_same fun _ _ => getline_same sn

theorem Stateful.Fixes.inSession {α : Type} {m : Recv α} (hm : Stateful.Fixes R sessionView m) :
    Stateful.Preserves R (InSession sasl) m := hm.preserves fun _ _ h hr => hr.congr h

theorem Stateful.Fixes.tracked {α : Type} {m : Recv α} (hm : Stateful.Fixes R sessionView m) :
    Stateful.Preserves R (Tracked sasl) m := hm.preserves fun _ _ h hr => hr.congr h

theorem onlyHosts_fixes {α : Type} {m : Recv α} (h : ∀ r s, m.wlp R (fun _ r' _ => OnlyHosts r r') r s) :
    Stateful.Fixes R sessionView m := by
  intro r s
  refine Stateful.wlp_mono ?_ (h r s)
  intro _ r' _ hr
  rw [hr.same]
  exact rfl

theorem digestUpdate_fixes (bytes : Text) : Stateful.Fixes R sessionView (digestUpdate conf bytes) := by
  unfold digestUpdate
  split
  · exact Stateful.fixes_modify fun _ => rfl
  · exact Stateful.fixes_pure _

theorem digestStart_fixes : Stateful.Fixes R sessionView (digestStart conf) := by
  unfold digestStart
  split
  · refine Stateful.fixes_modify fun r => ?_
    split <;> exact rfl
  · exact Stateful.fixes_pure _

theorem hello_fixes (name : Text) : Stateful.Fixes R sessionView (hello name) := by
  unfold hello
  refine Stateful.fixes_bind Stateful.fixes_get fun r => ?_
  split
  · refine Stateful.fixes_bind (Stateful.fixes_ask _) fun ok => ?_
    split
    · exact Stateful.fixes_bind (Stateful.fixes_modify fun _ => rfl) fun _ => Stateful.fixes_pure _
    · exact Stateful.fixes_pure _
  · exact Stateful.fixes_pure _

/-! ## The transaction closed -/

/-- What `deliver_accepted` and `reset` leave: only a message without an Efile may still be open. -/
structure Dealt (sasl : Bool) (r r' : ReceiveData) : Prop where
  tracked : Tracked sasl r'
  auth : r'.rAuth = r.rAuth
  mode : r'.rSmtpMode = r.rSmtpMode
  plain : ∀ env, r'.rEnv = some env → env.eFlags.efile = false

theorem Dealt.inSession {r' : ReceiveData} (hd : Dealt sasl r r') (hr : InSession sasl r) :
    InSession sasl r' where
  tracked := hd.tracked
  gate := by
    unfold Gate
    rw [hd.mode, hd.auth]
    exact hr.gate

/-- The message with an Efile goes to its queue. -/
theorem Tracked.queued {env : Envelope} (hr : Tracked sasl r) (henv : r.rEnv = some env)
    (hefile : env.eFlags.efile = true) : Tracked sasl { r with rEnv := none, rLog := r.rLog ++ [.queued env] } := by
  obtain ⟨h, hlog, hof, hauth⟩ := hr
  rw [henv] at hof
  obtain ⟨t, hopen, hd⟩ := hof
  exact ⟨_, hlog.snoc (.queued hopen (hd.efile hefile) hd.carries (fun id hid => (hd.stored id hid).1) hefile), rfl,
    hauth⟩

/-- A message without one is abandoned. -/
theorem Tracked.abandoned {env : Envelope} (hr : Tracked sasl r) (henv : r.rEnv = some env)
    (hno : env.eFlags.efile = false) : Tracked sasl { r with rEnv := none, rLog := r.rLog ++ [.abandoned env] } := by
  obtain ⟨h, hlog, hof, hauth⟩ := hr
  rw [henv] at hof
  obtain ⟨t, hopen, hd⟩ := hof
  exact ⟨_, hlog.snoc (.abandoned hopen (hd.new hno) hd.carries), rfl, hauth⟩

theorem Tracked.reset (hr : Tracked sasl r) (henv : r.rEnv = none) :
    Tracked sasl { r with rLog := r.rLog ++ [.reset] } := by
  obtain ⟨h, hlog, hof, hauth⟩ := hr
  have hnone : h.current = none := by
    rw [henv] at hof
    exact hof
  exact ⟨h, hlog.snoc (.reset hnone), hof, hauth⟩

theorem deliverAccepted_spec (hr : Tracked sasl r) :
    deliverAccepted.wlp R (fun _ r' _ => Dealt sasl r r') r s := by
  have hrunner : ∀ (x : ReceiveData) (u : σ), Dealt sasl r x →
      Stateful.wlp R (do if ← Recv.ask .qRunner then return RecvRet.ok else return .syserror)
        (fun _ r' _ => Dealt sasl r r') x u := by
    intro x u hx
    refine Recv.wlp_ask fun ok t _ => ?_
    split <;> exact hx
  unfold deliverAccepted
  refine Recv.wlp_get ?_
  cases henv : r.rEnv with
  | none => exact hrunner r s ⟨hr, rfl, rfl, fun env h => by rw [henv] at h; cases h⟩
  | some env =>
    dsimp only
    split
    · rename_i hefile
      refine Recv.wlp_ask fun _ t _ => Recv.wlp_log (Recv.wlp_modify (hrunner _ t ?_))
      exact ⟨hr.queued henv hefile, rfl, rfl, fun env h => by cases h⟩
    · rename_i hefile
      refine hrunner r s ⟨hr, rfl, rfl, fun env' h => ?_⟩
      cases henv.symm.trans h
      simpa using hefile

/-- **`reset` ends the transaction**, or fails in `deliver_accepted`. -/
theorem reset_spec (hr : Tracked sasl r) :
    reset.wlp R (fun ret r' _ => Dealt sasl r r' ∧ (ret = .ok → r'.rEnv = none)) r s := by
  unfold reset
  refine Stateful.wlp_seq (deliverAccepted_spec hr) ?_
  intro ret r' s' hd
  cases ret with
  | syserror | closeConnection | abort => exact ⟨hd, nofun⟩
  | ok =>
    refine Recv.wlp_get ?_
    cases henv : r'.rEnv with
    | none =>
      refine Recv.wlp_log ⟨⟨hd.tracked.reset henv, hd.auth, hd.mode, hd.plain⟩, fun _ => henv⟩
    | some env =>
      have hclosed := hd.tracked.abandoned henv (hd.plain env henv)
      refine Recv.wlp_log (Recv.wlp_modify (Recv.wlp_log ⟨⟨hclosed.reset rfl, hd.auth, hd.mode, ?_⟩, fun _ => rfl⟩))
      exact fun env h => by cases h

theorem deliverAccepted_inSession : Stateful.Preserves R (InSession sasl) deliverAccepted := fun _ _ hr =>
  Stateful.wlp_mono (fun _ _ _ hd => hd.inSession hr) (deliverAccepted_spec hr.tracked)

theorem reset_inSession : Stateful.Preserves R (InSession sasl) reset := fun _ _ hr =>
  Stateful.wlp_mono (fun _ _ _ hd => hd.1.inSession hr) (reset_spec hr.tracked)

/-! ## Commands that only answer -/

/-- A command whose answer follows a delivery. -/
theorem answer_inSession {m : Recv RecvRet} (hm : Stateful.Preserves R (InSession sasl) m) {k : Recv RecvRet}
    (hk : Stateful.Fixes R sessionView k) :
    Stateful.Preserves R (InSession sasl) (do if (← m) = .ok then k else return .syserror) := by
  refine Stateful.preserves_bind hm fun ret => ?_
  split
  · exact hk.inSession
  · exact Stateful.preserves_pure _

theorem fRset_inSession : Stateful.Preserves R (InSession sasl) (fRset conf) :=
  answer_inSession reset_inSession (smtpWriteBanner_fixes _ _ _)

theorem deliverAndAnswer_inSession (code : Nat) (msg arg : Option Text) :
    Stateful.Preserves R (InSession sasl) (deliverAndAnswer conf code msg arg) :=
  answer_inSession deliverAccepted_inSession (smtpWriteBanner_fixes _ _ _)

theorem fHelo_fixes : Stateful.Fixes R sessionView (fHelo conf) := by
  unfold fHelo
  refine Stateful.fixes_bind Stateful.fixes_get fun r => ?_
  split
  · refine Stateful.fixes_bind (hello_fixes _) fun ret => ?_
    split
    · exact smtpWriteBanner_fixes _ _ _
    · exact Stateful.fixes_pure _
  · exact smtpWriteBanner_fixes _ _ _

theorem andThen_fixes {p q : Recv RecvRet} (hp : Stateful.Fixes R sessionView p)
    (hq : Stateful.Fixes R sessionView q) : Stateful.Fixes R sessionView (RecvRet.andThen p q) := by
  refine Stateful.fixes_bind hp fun ret => ?_
  cases ret with
  | ok => exact hq
  | syserror | closeConnection | abort => exact Stateful.fixes_pure _

theorem ehloReply_fixes (name : Text) : Stateful.Fixes R sessionView (ehloReply conf name) := by
  have hsize (count : Int) : Stateful.Fixes R sessionView (ehloSize conf count) := by
    unfold ehloSize
    split
    · exact snetWritef_fixes _
    · exact Stateful.fixes_pure _
  have hauth (count : Int) : Stateful.Fixes R sessionView (ehloAuth conf count) := by
    unfold ehloAuth
    split
    · refine Stateful.fixes_bind (Stateful.fixes_ask _) fun mechs => ?_
      split
      · exact Stateful.fixes_pure _
      · exact snetWritef_fixes _
    · exact Stateful.fixes_pure _
  have htls (count : Int) : Stateful.Fixes R sessionView (ehloStarttls conf count) := by
    refine Stateful.fixes_bind Stateful.fixes_get fun r => ?_
    split
    · exact snetWritef_fixes _
    · exact Stateful.fixes_pure _
  refine Stateful.fixes_bind Stateful.fixes_get fun r => ?_
  exact andThen_fixes (snetWritef_fixes _) (andThen_fixes (hsize _) (andThen_fixes (hauth _) (htls _)))

theorem fEhlo_inSession : Stateful.Preserves R (InSession sasl) (fEhlo conf) := by
  unfold fEhlo
  refine Stateful.preserves_get fun r => ?_
  split
  · refine answer_inSession reset_inSession (Stateful.fixes_bind (hello_fixes _) fun ret => ?_)
    split
    · exact ehloReply_fixes _
    · exact Stateful.fixes_pure _
  · exact (smtpWriteBanner_fixes _ _ _).inSession

/-! ## MAIL -/

/-- An open transaction of a client that may send. -/
theorem mailAccept_spec (addr : Text) (hr : Tracked sasl r) (hclear : sasl = true → r.rAuth = true) :
    (mailAccept conf addr).wlp R (fun _ r' _ => InSession sasl r') r s := by
  unfold mailAccept
  refine Stateful.wlp_seq (reset_spec hr) ?_
  rintro ret r' s' ⟨hd, hok⟩
  have hgate : ∀ x : ReceiveData, x.rAuth = r'.rAuth → Gate sasl x := by
    intro x hx hsasl hno
    rw [hx, hd.auth, hclear hsasl] at hno
    cases hno
  split
  · rename_i hret
    refine Recv.wlp_ask fun id t _ => ?_
    cases id with
    | none => exact ⟨hd.tracked, hgate _ rfl⟩
    | some id =>
      refine Recv.wlp_modify (Recv.wlp_log ?_)
      obtain ⟨h, hlog, hof, hauth⟩ := hd.tracked
      have hnone : h.current = none := by
        rw [hok hret] at hof
        exact hof
      have hmail : sasl = true → h.authed = true := fun hsasl => by rw [hauth, hd.auth, hclear hsasl]
      have hopen : InSession sasl { r' with
          rEnv := some (envCreate conf.toConf .fast id (some addr) none), rLog := r'.rLog ++ [.mail addr] } :=
        ⟨⟨_, hlog.snoc (.mail addr hnone hmail), ⟨_, rfl, ⟨rfl, rfl⟩, nofun, nofun⟩, hauth⟩, hgate _ rfl⟩
      refine Stateful.preserves_bind (digestStart_fixes.inSession) (fun _ => ?_) _ _ hopen
      refine Stateful.preserves_bind (Stateful.Fixes.inSession (Stateful.fixes_modify fun _ => rfl)) fun _ => ?_
      exact (smtpWriteBanner_fixes _ _ _).inSession
  · exact ⟨hd.tracked, hgate _ rfl⟩

theorem checkHostname_fixes (domain : Text) : Stateful.Fixes R sessionView (checkHostname conf domain) :=
  onlyHosts_fixes fun _ _ => checkHostname_spec domain

theorem mailMode_spec (addr : Text) (domain : Option Text) (hr : InSession sasl r) :
    (mailMode conf r.rSmtpMode addr domain).wlp R (fun _ r' _ => InSession sasl r') r s := by
  have hbanner (code : Nat) (msg arg : Option Text) :
      (smtpWriteBanner conf code msg arg).wlp R (fun _ r' _ => InSession sasl r') r s :=
    (smtpWriteBanner_fixes code msg arg).inSession r s hr
  cases hmode : r.rSmtpMode with
  | off => exact hr
  | tempfail | noauth | refuse => exact hbanner _ _ _
  | tarpit => exact mailAccept_spec addr hr.tracked (hr.cleared (by simp [SmtpMode.Shut, hmode]))
  | globalRelay | normal =>
    have hclear := hr.cleared (by simp [SmtpMode.Shut, hmode])
    unfold mailMode
    cases domain with
    | none => exact mailAccept_spec addr hr.tracked hclear
    | some domain =>
      dsimp only
      split
      · refine (checkHostname_fixes domain).then fun rc r' s' hview => ?_
        split
        · refine mailAccept_spec addr (hr.tracked.congr hview) ?_
          rw [(sessionView_eq hview).2.2.1]
          exact hclear
        · split <;> exact (smtpWriteBanner_fixes _ _ _).inSession _ _ (hr.congr hview)
      · exact mailAccept_spec addr hr.tracked hclear

theorem fMail_inSession : Stateful.Preserves R (InSession sasl) (fMail conf) := by
  intro r s hr
  have husage : Stateful.Preserves R (InSession sasl) fMailUsage := by
    refine Stateful.preserves_bind (snetWritef_fixes _).inSession fun ret => ?_
    split
    · exact deliverAccepted_inSession
    · exact Stateful.preserves_pure _
  unfold fMail
  refine Recv.wlp_get ?_
  split
  · exact (smtpWriteBanner_fixes _ _ _).inSession r s hr
  · split
    · exact husage r s hr
    · split
      · exact (smtpWriteBanner_fixes _ _ _).inSession r s hr
      · exact mailMode_spec _ _ hr

/-! ## RCPT -/

/-- A transaction is open, and its message is not stored. -/
structure Taking (sasl : Bool) (r : ReceiveData) : Prop extends InSession sasl r where
  plain : r.rEnv.map (·.eFlags.efile) = some false

theorem Taking.congr {r' : ReceiveData} (hr : Taking sasl r) (h : sessionView r' = sessionView r) :
    Taking sasl r' where
  toInSession := hr.toInSession.congr h
  plain := by
    rw [(sessionView_eq h).1]
    exact hr.plain

theorem Stateful.Fixes.taking {α : Type} {m : Recv α} (hm : Stateful.Fixes R sessionView m) {k : α → Recv RecvRet}
    (hk : ∀ a r' s', Taking sasl r' → (k a).wlp R (fun _ r'' _ => InSession sasl r'') r' s') (hr : Taking sasl r) :
    (m >>= k).wlp R (fun _ r' _ => InSession sasl r') r s :=
  hm.then fun a r' s' h => hk a r' s' (hr.congr h)

/-- The recipient joins the transaction. -/
theorem rcptAccept_taking (addr : Text) (hr : Taking sasl r) :
    (rcptAccept conf addr).wlp R (fun _ r' _ => InSession sasl r') r s := by
  unfold rcptAccept
  refine Recv.wlp_ask fun ok t _ => ?_
  split
  · refine Recv.wlp_modify (Recv.wlp_log ?_)
    cases henv : r.rEnv with
    | none =>
      have hplain := hr.plain
      rw [henv] at hplain
      cases hplain
    | some env =>
      have hno : env.eFlags.efile = false := by
        have hplain := hr.plain
        rw [henv] at hplain
        exact Option.some.inj hplain
      obtain ⟨h, hlog, hof, hauth⟩ := hr.tracked
      rw [henv] at hof
      obtain ⟨t, hopen, hd⟩ := hof
      have hdescribes : Describes { t with rcpts := addr :: t.rcpts } (envRecipient env addr) := by
        refine ⟨⟨hd.carries.sender, congrArg (addr :: ·) hd.carries.rcpts⟩, fun id hid => ?_, fun _ => by simp⟩
        rw [hd.new hno] at hid
        cases hid
      have hadded : InSession sasl { r with
          rEnv := some (envRecipient env addr), rLog := r.rLog ++ [.rcpt addr] } :=
        ⟨⟨_, hlog.snoc (.rcpt addr hopen (hd.new hno)), ⟨_, rfl, hdescribes⟩, hauth⟩, hr.gate⟩
      refine Stateful.preserves_bind (digestUpdate_fixes addr).inSession (fun _ => ?_) _ _ hadded
      refine Stateful.preserves_bind (Stateful.Fixes.inSession (Stateful.fixes_modify fun _ => rfl)) fun _ => ?_
      exact (smtpWriteBanner_fixes _ _ _).inSession
  · exact hr.toInSession

theorem failedRcpt_fixes : Stateful.Fixes R sessionView failedRcpt := Stateful.fixes_modify fun _ => rfl

/-- A step that may be left out. -/
theorem Taking.maybe {c : Prop} [Decidable c] {m k : Recv RecvRet} {Q : RecvRet → ReceiveData → σ → Prop}
    (hk : ∀ x u, Taking sasl x → k.wlp R Q x u) (hm : (∀ x u, Taking sasl x → k.wlp R Q x u) → m.wlp R Q r s)
    (hr : Taking sasl r) : Stateful.wlp R (if c then m else k) Q r s := by
  split
  · exact hm hk
  · exact hk r s hr

theorem rcptRbl_taking (addr : Text) (hr : Taking sasl r) :
    (rcptRbl conf addr).wlp R (fun _ r' _ => InSession sasl r') r s := by
  have htimeout : ∀ x u, Taking sasl x → Stateful.wlp R (do
      modify fun r => { r with rRblStatus := .unknown }
      if ← Recv.ask .dnsTimeout then rcptAccept conf addr else return .closeConnection)
      (fun _ r' _ => InSession sasl r') x u := by
    intro x u hx
    refine Recv.wlp_modify (Recv.wlp_ask fun timeout t _ => ?_)
    have hy : Taking sasl { x with rRblStatus := .unknown } := hx.congr rfl
    split
    · exact rcptAccept_taking addr hy
    · exact hy.toInSession
  unfold rcptRbl
  split
  · refine Recv.wlp_get (Taking.maybe ?_ ?_ hr)
    · intro x u hx
      refine Recv.wlp_get ?_
      split
      · exact htimeout x u hx
      · exact htimeout x u hx
      · exact (Stateful.fixes_bind failedRcpt_fixes fun _ => snetWritef_fixes _).inSession x u hx.toInSession
      · exact rcptAccept_taking addr hx
      · exact rcptAccept_taking addr hx
    · exact fun hk => Recv.wlp_ask fun a t _ => Recv.wlp_modify (hk _ t (hr.congr rfl))
  · exact rcptAccept_taking addr hr

theorem localAddress_fixes (addr domain : Text) (red : Red) :
    Stateful.Fixes R sessionView (localAddress addr domain red) :=
  Stateful.fixes_of_same fun _ _ => Stateful.wlp_mono (fun _ _ _ h => h.1) (localAddress_found addr domain red)

theorem rcptNotLocal_fixes (domain : Text) : Stateful.Fixes R sessionView (rcptNotLocal conf domain) :=
  Stateful.fixes_bind failedRcpt_fixes fun _ => snetWritef_fixes _

theorem rcptLocal_taking (addr domain : Text) (red : Red) (hr : Taking sasl r) :
    (rcptLocal conf addr domain red).wlp R (fun _ r' _ => InSession sasl r') r s := by
  unfold rcptLocal
  refine (localAddress_fixes addr domain red).taking (fun answer r' s' hr' => ?_) hr
  cases answer with
  | notLocal =>
    exact (Stateful.fixes_bind failedRcpt_fixes fun _ => smtpWriteBanner_fixes _ _ _).inSession _ _ hr'.toInSession
  | localError =>
    exact (Stateful.fixes_bind (digestUpdate_fixes _) fun _ => smtpWriteBanner_fixes _ _ _).inSession _ _
      hr'.toInSession
  | localAddressRbl => exact rcptRbl_taking addr hr'
  | localAddress | mxAddress => exact rcptAccept_taking addr hr'

theorem rcptNormal_taking (addr domain : Text) (hr : Taking sasl r) :
    (rcptNormal conf addr domain).wlp R (fun _ r' _ => InSession sasl r') r s := by
  unfold rcptNormal
  refine (checkHostname_fixes domain).taking (fun rc r' s' hr' => ?_) hr
  split
  · refine failedRcpt_fixes.taking (fun _ x u hx => ?_) hr'
    split
    · exact (Stateful.fixes_bind (digestUpdate_fixes _) fun _ => smtpWriteBanner_fixes _ _ _).inSession _ _
        hx.toInSession
    · exact (smtpWriteBanner_fixes _ _ _).inSession _ _ hx.toInSession
  · refine (onlyHosts_fixes fun _ _ => Stateful.wlp_mono (fun _ _ _ h => h.1) (hostLocalRed_spec domain)).taking (fun red x u hx => ?_) hr'
    cases red with
    | none => exact (rcptNotLocal_fixes domain).inSession _ _ hx.toInSession
    | some red =>
      dsimp only
      split
      · exact (rcptNotLocal_fixes domain).inSession _ _ hx.toInSession
      · exact rcptLocal_taking addr domain red hx

theorem fRcpt_inSession : Stateful.Preserves R (InSession sasl) (fRcpt conf) := by
  intro r s hr
  have hbanner (code : Nat) (msg arg : Option Text) :
      (smtpWriteBanner conf code msg arg).wlp R (fun _ r' _ => InSession sasl r') r s :=
    (smtpWriteBanner_fixes code msg arg).inSession r s hr
  unfold fRcpt
  refine Recv.wlp_get ?_
  split
  · exact hbanner _ _ _
  · split
    · exact hbanner _ _ _
    · rename_i hplain
      have htaking : Taking sasl r := by
        refine ⟨hr, ?_⟩
        cases henv : r.rEnv with
        | none => simp [henv] at hplain
        | some env => simpa [henv] using hplain
      split
      · exact (snetWritef_fixes _).inSession r s hr
      · split
        · exact hr
        · exact hbanner _ _ _
        · exact hbanner _ _ _
        · exact hbanner _ _ _
        · exact rcptAccept_taking _ htaking
        · exact rcptAccept_taking _ htaking
        · split
          · exact rcptAccept_taking _ htaking
          · exact rcptNormal_taking _ _ htaking

end Runs

end Simta
