import Simta.Receive

/-!
# Starting TLS

`_start_tls` and its two callers, `auth_init` on a socket wrapped in TLS and the STARTTLS command.
The failures of `_start_tls` answer 501 and return the result of that answer, which is
`RECEIVE_OK` when it could be written.

* `startTls_eval` — what `_start_tls` does for all outcomes of its calls;
* `sessionEncrypted_iff` — the session is encrypted when every step succeeded, and otherwise only
  when the 501 could not be written.
-/

set_option autoImplicit false

namespace Simta

/-- `snet_starttls` as the accepting side. -/
def snetStarttls : Recv Int := do
  if ← Recv.ask .sslNew then
    let rc ← Recv.ask .sslSetFd
    if rc = 1 then
      let rc ← Recv.ask .sslAccept
      if rc = 1 then
        Recv.log .handshake
        modify fun r => { r with rSnet.snTls := true }
      return rc
    else return rc
  else return -1

/-- The end of `_start_tls`: TLS is on, and what was buffered before it is thrown away. -/
def tlsStarted (r : ReceiveData) : ReceiveData :=
  { r with rTls := true, smtpExtension := r.smtpExtension - 1, rSnet := r.rSnet.drain }

def sslDidntWorkText : Text := "SSL didn't work!".toList
def readyToStartText : Text := "Ready to start TLS".toList

/-- The answer to every failure of `_start_tls`. -/
def sslDidntWork (conf : RecvConf) : Recv RecvRet :=
  smtpWriteBanner conf 501 none (some sslDidntWorkText)

/-- `_start_tls`. -/
def startTls (conf : RecvConf) : Recv RecvRet := do
  if ← Recv.ask .tlsServerSetup then
    let rc ← snetStarttls
    if rc = 1 then
      if conf.serviceSmtps = .clientServer then
        if ← Recv.ask .sslGetPeerCertificate then
          Recv.log .peerCertificate
          modify tlsStarted
          return .ok
        else sslDidntWork conf
      else
        modify tlsStarted
        return .ok
    else sslDidntWork conf
  else sslDidntWork conf

/-- `_post_tls`. -/
def postTls (conf : RecvConf) : Recv RecvRet := do
  if conf.sasl then
    if ← Recv.ask (.saslSetprop .ssfExternal true) then
      if ← Recv.ask (.saslSetprop .secProps true) then return .ok else return .syserror
    else return .syserror
  else return .ok

/-- The SASL half of `auth_init`. -/
def saslInit (conf : RecvConf) : Recv Int := do
  if conf.sasl then
    setSmtpMode .noauth
    if ← Recv.ask .saslServerNew then
      if ← Recv.ask (.saslSetprop .secProps false) then
        if ← Recv.ask (.saslSetprop .ssfExternal false) then
          if ← Recv.ask (.saslSetprop .authExternal false) then return 0 else return -1
        else return -1
      else return -1
    else return -1
  else return 0

/-- `auth_init`; `tlsSocket` is the flag `SIMTA_SOCKET_TLS`. -/
def authInit (conf : RecvConf) (tlsSocket : Bool) : Recv Int := do
  if (← saslInit conf) = 0 then
    if tlsSocket then
      if (← startTls conf) = .ok then
        if (← postTls conf) = .ok then return 0 else return -1
      else return -1
    else return 0
  else return -1

/-- `f_starttls`. -/
def fStarttls (conf : RecvConf) : Recv RecvRet := do
  let r ← get
  if conf.tls then
    if r.rTls then return .syserror
    else if r.rAv.length ≠ 1 then
      smtpWriteBanner conf 501 none (some "no parameters allowed".toList)
    else if (← smtpWriteBanner conf 220 (some readyToStartText) none) = .ok then
      if (← startTls conf) = .ok then
        if (← reset) = .ok then
          modify fun r => { r with rHello := none }
          postTls conf
        else return .syserror
      else return .ok
    else return .closeConnection
  else smtpWriteBanner conf 502 none none

/-! ## What `_start_tls` does -/

section Outcomes

variable (conf : RecvConf) (ans : (op : RecvOp) → RecvAns op) (r : ReceiveData)

/-- The context was made and the handshake completed. -/
def HandshakeOk : Prop :=
  ans .tlsServerSetup = true ∧ ans .sslNew = true ∧ ans .sslSetFd = 1 ∧ ans .sslAccept = 1

/-- Every step of `_start_tls` succeeded. -/
def StepsOk : Prop :=
  HandshakeOk ans ∧ (conf.serviceSmtps = .clientServer → ans .sslGetPeerCertificate = true)

/-- The 501 of a failed step was written. -/
def FailureAnswered : Prop :=
  ans (.write (bannerLine conf 501 none (some sslDidntWorkText))) = true

instance : Decidable (HandshakeOk ans) := inferInstanceAs (Decidable (_ ∧ _))
instance : Decidable (StepsOk conf ans) := inferInstanceAs (Decidable (_ ∧ (_ → _)))
instance : Decidable (FailureAnswered conf ans) := inferInstanceAs (Decidable (_ = _))

/-- The state after a handshake. -/
def handshaken : ReceiveData :=
  { r with rLog := r.rLog ++ [.handshake], rSnet.snTls := true }

@[simp] theorem eval_smtpWriteBanner (code : Nat) (msg arg : Option Text) :
    (smtpWriteBanner conf code msg arg).eval ans r =
      (if ans (.write (bannerLine conf code msg arg)) then bannerRet code else .closeConnection, r) := by
  unfold smtpWriteBanner Recv.ask
  rw [Stateful.eval_bind, Stateful.eval_ask]
  split <;> rfl

theorem sslDidntWork_eval : (sslDidntWork conf).eval ans r =
    (if FailureAnswered conf ans then .ok else .closeConnection, r) :=
  eval_smtpWriteBanner conf ans r 501 _ _

theorem snetStarttls_eval : ans .tlsServerSetup = true →
    ((snetStarttls.eval ans r).1 = 1 ↔ HandshakeOk ans) ∧
      (snetStarttls.eval ans r).2 = if HandshakeOk ans then handshaken r else r := by
  intro hctx
  unfold snetStarttls HandshakeOk Recv.ask Recv.log
  by_cases hnew : ans .sslNew = true
  · by_cases hfd : ans .sslSetFd = 1
    · by_cases hacc : ans .sslAccept = 1
      · simp [hctx, hnew, hfd, hacc, handshaken]
      · simp [hctx, hnew, hfd, hacc]
    · simp [hctx, hnew, hfd]
  · simp [hctx, hnew]

/-- **What `_start_tls` does**, for every outcome of its calls. -/
theorem startTls_eval : (startTls conf).eval ans r =
    if StepsOk conf ans then
      (.ok, tlsStarted (if conf.serviceSmtps = .clientServer then
        { handshaken r with rLog := (handshaken r).rLog ++ [.peerCertificate] } else handshaken r))
    else (if FailureAnswered conf ans then .ok else .closeConnection,
      if HandshakeOk ans then handshaken r else r) := by
  unfold startTls StepsOk
  by_cases hctx : ans .tlsServerSetup = true
  · obtain ⟨hrc, hstate⟩ := snetStarttls_eval ans r hctx
    by_cases hok : HandshakeOk ans
    · have h1 := hrc.mpr hok
      rw [if_pos hok] at hstate
      by_cases hmode : conf.serviceSmtps = .clientServer
      · by_cases hpeer : ans .sslGetPeerCertificate = true
        · simp [Recv.ask, Recv.log, hctx, h1, hstate, hok, hmode, hpeer]
        · simp [Recv.ask, hctx, h1, hstate, hok, hmode, hpeer, sslDidntWork_eval]
      · simp [Recv.ask, hctx, h1, hstate, hok, hmode]
    · have h1 : ¬ (snetStarttls.eval ans r).1 = 1 := fun h => hok (hrc.mp h)
      rw [if_neg hok] at hstate
      simp [Recv.ask, hctx, h1, hstate, hok, sslDidntWork_eval]
  · have hok : ¬ HandshakeOk ans := fun h => hctx h.1
    simp [Recv.ask, hctx, hok, sslDidntWork_eval]

/-! ## Its callers -/

/-- `f_starttls` gets as far as `_start_tls`. -/
def Tried : Prop :=
  conf.tls = true ∧ r.rTls = false ∧ r.rAv.length = 1 ∧
    ans (.write (bannerLine conf 220 (some readyToStartText) none)) = true

instance : Decidable (Tried conf ans r) := inferInstanceAs (Decidable (_ ∧ _ ∧ _ ∧ _))

theorem postTls_eval_state : ((postTls conf).eval ans r).2 = r := by
  unfold postTls Recv.ask
  split
  · rw [Stateful.eval_bind, Stateful.eval_ask]
    split
    · rw [Stateful.eval_bind, Stateful.eval_ask]
      split <;> rfl
    · rfl
  · rfl

/-- `deliver_accepted` and `reset` leave the connection alone. -/
structure SameConnection (r r' : ReceiveData) : Prop where
  tls : r'.rTls = r.rTls
  snet : r'.rSnet = r.rSnet
  log : ∃ l, r'.rLog = r.rLog ++ l

theorem SameConnection.trans {r r' r'' : ReceiveData} (h : SameConnection r r')
    (h' : SameConnection r' r'') : SameConnection r r'' := by
  obtain ⟨l, hl⟩ := h.log
  obtain ⟨l', hl'⟩ := h'.log
  exact ⟨h'.tls.trans h.tls, h'.snet.trans h.snet, l ++ l', by rw [hl', hl, List.append_assoc]⟩

theorem deliverAccepted_eval_same : SameConnection r (deliverAccepted.eval ans r).2 := by
  unfold deliverAccepted Recv.ask Recv.log
  rw [Stateful.eval_bind, Stateful.eval_get]
  cases henv : r.rEnv with
  | none =>
    by_cases hq : ans .qRunner = true <;> simp [hq] <;> exact ⟨rfl, rfl, [], by simp⟩
  | some env =>
    by_cases he : env.eFlags.efile = true <;> by_cases hq : ans .qRunner = true <;> simp [he, hq]
    all_goals first
      | exact ⟨rfl, rfl, [_], rfl⟩
      | exact ⟨rfl, rfl, [], by simp⟩

theorem reset_eval_same : SameConnection r (reset.eval ans r).2 := by
  have h := deliverAccepted_eval_same ans r
  unfold reset Recv.log
  rw [Stateful.eval_bind]
  generalize deliverAccepted.eval ans r = x at h
  obtain ⟨ret, r'⟩ := x
  cases ret with
  | syserror => exact h
  | closeConnection => exact h
  | abort => exact h
  | ok =>
    refine h.trans ?_
    cases henv : r'.rEnv with
    | none => simp [henv]; exact ⟨rfl, rfl, [.reset], rfl⟩
    | some env => simp [henv]; exact ⟨rfl, rfl, [.abandoned env, .reset], by simp⟩

theorem saslInit_eval_same : SameConnection r ((saslInit conf).eval ans r).2 := by
  unfold saslInit setSmtpMode Recv.ask
  split
  · rw [Stateful.eval_bind, Stateful.eval_modify]
    have hsame : SameConnection r { r with rSmtpMode := .noauth } := ⟨rfl, rfl, [], by simp⟩
    by_cases h₁ : ans .saslServerNew = true
    · by_cases h₂ : ans (.saslSetprop .secProps false) = true
      · by_cases h₃ : ans (.saslSetprop .ssfExternal false) = true
        · by_cases h₄ : ans (.saslSetprop .authExternal false) = true <;>
            simpa [h₁, h₂, h₃, h₄] using hsame
        · simpa [h₁, h₂, h₃] using hsame
      · simpa [h₁, h₂] using hsame
    · simpa [h₁] using hsame
  · exact ⟨rfl, rfl, [], by simp⟩

/-- Without `_start_tls` the command changes nothing. -/
theorem fStarttls_eval_of_not_tried (h : ¬ Tried conf ans r) : ((fStarttls conf).eval ans r).2 = r := by
  unfold Tried at h
  unfold fStarttls
  rw [Stateful.eval_bind, Stateful.eval_get]
  by_cases htls : conf.tls = true
  · by_cases hr : r.rTls = true
    · simp [htls, hr]
    · by_cases hac : r.rAv.length = 1
      · have hw : ¬ ans (.write (bannerLine conf 220 (some readyToStartText) none)) = true :=
          fun hw => h ⟨htls, by simpa using hr, hac, hw⟩
        simp [htls, hr, hac, hw]
      · simp [htls, hr, hac]
  · simp [htls]

theorem fStarttls_eval_of_tried (h : Tried conf ans r) : (fStarttls conf).eval ans r =
    if ((startTls conf).eval ans r).1 = .ok then
      if (reset.eval ans ((startTls conf).eval ans r).2).1 = .ok then
        (postTls conf).eval ans
          { (reset.eval ans ((startTls conf).eval ans r).2).2 with rHello := none }
      else (.syserror, (reset.eval ans ((startTls conf).eval ans r).2).2)
    else (.ok, ((startTls conf).eval ans r).2) := by
  obtain ⟨htls, hr, hac, hw⟩ := h
  have hret : bannerRet 220 = .ok := rfl
  unfold fStarttls
  rw [Stateful.eval_bind, Stateful.eval_get]
  by_cases hs : ((startTls conf).eval ans r).1 = .ok
  · by_cases hres : (reset.eval ans ((startTls conf).eval ans r).2).1 = .ok
    · simp [htls, hr, hac, hw, hret, hs, hres]
    · simp [htls, hr, hac, hw, hret, hs, hres]
  · simp [htls, hr, hac, hw, hret, hs]

end Outcomes

/-! ## An encrypted session -/

/-- The handshake completed, with a certificate of the peer where one is asked for, and the session
    knows. -/
structure Encrypted (conf : RecvConf) (r : ReceiveData) : Prop where
  handshake : Event.handshake ∈ r.rLog
  peer : conf.serviceSmtps = .clientServer → Event.peerCertificate ∈ r.rLog
  tls : r.rTls = true

/-- What is promised of `_start_tls` and of its callers in the state `r`, when the calls answer `ans`:
    success only over TLS, the command loop of a wrapped socket only over TLS, a reset of the session
    only over TLS, and no command left over from before a handshake. -/
structure SessionEncrypted (conf : RecvConf) (ans : (op : RecvOp) → RecvAns op) (r : ReceiveData) :
    Prop where
  start : ((startTls conf).eval ans { r with rLog := [] }).1 = .ok →
    Encrypted conf ((startTls conf).eval ans { r with rLog := [] }).2
  wrapped : ((authInit conf true).eval ans { r with rLog := [] }).1 = 0 →
    Encrypted conf ((authInit conf true).eval ans { r with rLog := [] }).2
  command : Event.reset ∈ ((fStarttls conf).eval ans { r with rLog := [] }).2.rLog →
    Encrypted conf ((fStarttls conf).eval ans { r with rLog := [] }).2
  buffered : ((fStarttls conf).eval ans { r with rLog := [] }).1 = .ok →
    Event.handshake ∈ ((fStarttls conf).eval ans { r with rLog := [] }).2.rLog →
    ((fStarttls conf).eval ans { r with rLog := [] }).2.rSnet.hasdata.1 = false

section Session

variable {conf : RecvConf} {ans : (op : RecvOp) → RecvAns op} {r r' : ReceiveData}

theorem Encrypted.of_same (h : Encrypted conf r) (hs : SameConnection r r') : Encrypted conf r' := by
  obtain ⟨l, hl⟩ := hs.log
  refine ⟨?_, fun hm => ?_, hs.tls.trans h.tls⟩
  · rw [hl]
    exact List.mem_append_left _ h.handshake
  · rw [hl]
    exact List.mem_append_left _ (h.peer hm)

theorem encrypted_of_stepsOk (h : StepsOk conf ans) :
    Encrypted conf ((startTls conf).eval ans r).2 ∧
      ((startTls conf).eval ans r).2.rSnet.snBuf = [] := by
  rw [startTls_eval, if_pos h]
  refine ⟨?_, Snet.drain_snBuf _⟩
  split
  · exact ⟨by simp [tlsStarted, handshaken], fun _ => by simp [tlsStarted], rfl⟩
  · rename_i hm
    exact ⟨by simp [tlsStarted, handshaken], fun hm' => absurd hm' hm, rfl⟩

/-- A failed step that was answered: `_start_tls` reports success on a session that is not encrypted. -/
theorem not_encrypted_of_failure (h : ¬ StepsOk conf ans) :
    ¬ Encrypted conf ((startTls conf).eval ans { r with rLog := [] }).2 := by
  rw [startTls_eval, if_neg h]
  intro henc
  by_cases hh : HandshakeOk ans
  · simp only [if_pos hh] at henc
    have hmode : conf.serviceSmtps = .clientServer := by
      by_contra hm
      exact h ⟨hh, fun hm' => absurd hm' hm⟩
    have := henc.peer hmode
    simp [handshaken] at this
  · simp only [if_neg hh] at henc
    have := henc.handshake
    simp at this

theorem startTls_ok_iff : ((startTls conf).eval ans r).1 = .ok ↔
    StepsOk conf ans ∨ FailureAnswered conf ans := by
  rw [startTls_eval]
  by_cases hs : StepsOk conf ans <;> by_cases hf : FailureAnswered conf ans <;> simp [hs, hf]

/-- The wrapped socket reaches the command loop only past `_start_tls`. -/
theorem authInit_same (h : ((authInit conf true).eval ans r).1 = 0) :
    ∃ r₁, SameConnection r r₁ ∧ ((startTls conf).eval ans r₁).1 = .ok ∧
      ((authInit conf true).eval ans r).2 = ((startTls conf).eval ans r₁).2 := by
  refine ⟨((saslInit conf).eval ans r).2, saslInit_eval_same conf ans r, ?_⟩
  unfold authInit at h ⊢
  rw [Stateful.eval_bind] at h ⊢
  by_cases h₁ : ((saslInit conf).eval ans r).1 = 0
  · simp only [h₁, if_true] at h ⊢
    rw [Stateful.eval_bind] at h ⊢
    by_cases h₂ : ((startTls conf).eval ans ((saslInit conf).eval ans r).2).1 = .ok
    · refine ⟨h₂, ?_⟩
      simp only [h₂, if_true] at h ⊢
      rw [Stateful.eval_bind]
      split <;> exact postTls_eval_state conf ans _
    · simp [h₂] at h
  · simp [h₁] at h

/-- With every step done, the command leaves the session encrypted and its buffer empty. -/
theorem fStarttls_of_stepsOk (h : StepsOk conf ans) (ht : Tried conf ans r) :
    Encrypted conf ((fStarttls conf).eval ans r).2 ∧
      ((fStarttls conf).eval ans r).2.rSnet.snBuf = [] := by
  obtain ⟨henc, hbuf⟩ := encrypted_of_stepsOk (r := r) h
  have hok := startTls_ok_iff (r := r).mpr (.inl h)
  have hsame := reset_eval_same ans ((startTls conf).eval ans r).2
  have henc' := henc.of_same hsame
  rw [fStarttls_eval_of_tried conf ans r ht, if_pos hok]
  split
  · rw [postTls_eval_state]
    exact ⟨⟨henc'.handshake, henc'.peer, henc'.tls⟩, (congrArg Snet.snBuf hsame.snet).trans hbuf⟩
  · exact ⟨henc', (congrArg Snet.snBuf hsame.snet).trans hbuf⟩

theorem sessionEncrypted_of_stepsOk (hs : StepsOk conf ans) : SessionEncrypted conf ans r := by
  have htried : Tried conf ans { r with rLog := [] } ↔ Tried conf ans r := Iff.rfl
  refine ⟨fun _ => (encrypted_of_stepsOk hs).1, fun h => ?_, fun h => ?_, fun h hh => ?_⟩
  · obtain ⟨r₁, -, -, hr₁⟩ := authInit_same h
    rw [hr₁]
    exact (encrypted_of_stepsOk hs).1
  · by_cases ht : Tried conf ans r
    · exact (fStarttls_of_stepsOk hs (htried.mpr ht)).1
    · rw [fStarttls_eval_of_not_tried conf ans _ fun h' => ht (htried.mp h')] at h
      cases h
  · by_cases ht : Tried conf ans r
    · rw [Snet.hasdata_of_nil (fStarttls_of_stepsOk hs (htried.mpr ht)).2]
    · rw [fStarttls_eval_of_not_tried conf ans _ fun h' => ht (htried.mp h')] at hh
      cases hh

/-- A failed step whose 501 could not be written: the command goes on with what the buffer held. -/
theorem fStarttls_of_silent (hs : ¬ StepsOk conf ans) (hno : ¬ FailureAnswered conf ans)
    (ht : Tried conf ans r) : (fStarttls conf).eval ans r =
      (.ok, if HandshakeOk ans then handshaken r else r) := by
  have hstart : ¬ ((startTls conf).eval ans r).1 = .ok := fun h =>
    (startTls_ok_iff.mp h).elim hs hno
  rw [fStarttls_eval_of_tried conf ans r ht, if_neg hstart, startTls_eval, if_neg hs]

theorem hasdata_handshaken : (handshaken r).rSnet.hasdata.1 = r.rSnet.hasdata.1 :=
  Snet.hasdata_snTls r.rSnet true

theorem sessionEncrypted_of_silent (hs : ¬ StepsOk conf ans) (hno : ¬ FailureAnswered conf ans)
    (hbuf : HandshakeOk ans → Tried conf ans r → r.rSnet.hasdata.1 = false) :
    SessionEncrypted conf ans r := by
  have hstart : ∀ r₁, ¬ ((startTls conf).eval ans r₁).1 = .ok := fun r₁ h =>
    (startTls_ok_iff.mp h).elim hs hno
  have htried : Tried conf ans { r with rLog := [] } ↔ Tried conf ans r := Iff.rfl
  refine ⟨fun h => absurd h (hstart _), fun h => ?_, fun h => ?_, fun h hh => ?_⟩
  · obtain ⟨r₁, -, hok, -⟩ := authInit_same h
    exact absurd hok (hstart r₁)
  · by_cases ht : Tried conf ans r
    · rw [fStarttls_of_silent hs hno (htried.mpr ht)] at h
      split at h <;> simp [handshaken] at h
    · rw [fStarttls_eval_of_not_tried conf ans _ fun h' => ht (htried.mp h')] at h
      cases h
  · by_cases ht : Tried conf ans r
    · rw [fStarttls_of_silent hs hno (htried.mpr ht)] at hh ⊢
      by_cases hok : HandshakeOk ans
      · simp only [if_pos hok]
        rw [hasdata_handshaken]
        exact hbuf hok ht
      · simp [hok] at hh
    · rw [fStarttls_eval_of_not_tried conf ans _ fun h' => ht (htried.mp h')] at hh
      cases hh

/-- **When the session is encrypted**: every step of the start of TLS succeeded, or the 501 could not
    be written and no byte from before a handshake was left in the buffer. -/
theorem sessionEncrypted_iff (conf : RecvConf) (ans : (op : RecvOp) → RecvAns op) (r : ReceiveData) :
    SessionEncrypted conf ans r ↔
      StepsOk conf ans ∨ (¬ FailureAnswered conf ans ∧
        (HandshakeOk ans → Tried conf ans r → r.rSnet.hasdata.1 = false)) := by
  by_cases hs : StepsOk conf ans
  · exact iff_of_true (sessionEncrypted_of_stepsOk hs) (.inl hs)
  constructor
  · intro h
    have hno : ¬ FailureAnswered conf ans := fun hf =>
      not_encrypted_of_failure (r := r) hs (h.start (startTls_ok_iff.mpr (.inr hf)))
    refine .inr ⟨hno, fun hh ht => ?_⟩
    have hb := h.buffered
    rw [fStarttls_of_silent (r := { r with rLog := [] }) hs hno ht, if_pos hh, hasdata_handshaken] at hb
    exact hb rfl (by simp [handshaken])
  · rintro (hs' | ⟨hno, hbuf⟩)
    · exact absurd hs' hs
    · exact sessionEncrypted_of_silent hs hno hbuf

end Session

/-- A server whose certificate cannot be read, on a socket that can be written. -/
def noCertificate : (op : RecvOp) → RecvAns op
  | .write _ => true
  | op => op.fail

/-- A server on a wrapped socket without SASL. -/
def wrappedConf : RecvConf where
  hostname := []
  dnsConfig := true
  secondaryMx := none
  red := ⟨true, none, none⟩
  tls := true
  serviceSmtps := .server

/-- A wrapped socket whose context cannot be made enters the command loop in the clear. -/
theorem noCertificate_in_clear :
    ¬ SessionEncrypted wrappedConf noCertificate (newSession wrappedConf [] 0 []) ∧
      ((authInit wrappedConf true).eval noCertificate (newSession wrappedConf [] 0 [])).1 = 0 ∧
      ((authInit wrappedConf true).eval noCertificate (newSession wrappedConf [] 0 [])).2.rTls = false := by
  refine ⟨fun h => ?_, rfl, rfl⟩
  have henc := h.wrapped rfl
  exact absurd henc.tls nofun

end Simta
