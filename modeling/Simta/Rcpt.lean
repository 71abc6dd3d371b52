import Simta.Address
import Simta.Receive

/-!
# RCPT

`f_rcpt` with the lookups it decides by: `check_hostname` and `host_local` on the resolver's
answers, and `local_address`, which runs the receive rules of a host.

* `localAddress_found` — a local host accepts an address only when a rule found it;
* `fRcpt_noOpenRelay` — in the normal mode a recipient is recorded only for a domain that is ours.
-/

set_option autoImplicit false

namespace Simta

/-! ## Replies that several commands give -/

def s421Decline : Text := "Service not available: closing transmission channel".toList
def s451Decline : Text := "Requested action aborted: service temporarily unavailable".toList
def sUnknownHost : Text := "Unknown host".toList

/-- `snet_writef`, and what the commands return by it. -/
def snetWritef (line : Text) : Recv RecvRet := do
  if ← Recv.ask (.write line) then return .ok else return .closeConnection

/-- `f_bad_sequence`. -/
def fBadSequence (conf : RecvConf) : Recv RecvRet := smtpWriteBanner conf 503 none none

/-- `strncasecmp( s, prefix, strlen( prefix )) == 0`. -/
def strncaseEq (s start : Text) : Bool := strcaseEq (s.take start.length) start

/-- The update of the message digest that MAIL, RCPT and DATA make when a filter wants it. -/
def digestUpdate (conf : RecvConf) (bytes : Text) : Recv Unit :=
  if conf.mailFilter.isSome ∧ conf.checksumMd then
    modify fun r => { r with rMdctx := ⟨.inUse, r.rMdctx.mdBytes + bytes.length, r.rMdctx.mdData ++ bytes⟩ }
  else pure ()

/-! ## The resolver -/

/-- `get_mx`: the sorted answer, or `none` for `NULL`. -/
def getMx (conf : RecvConf) (hostname : Text) : Recv (Option (List Rr)) := do
  match ← Recv.ask (.dnsMx hostname) with
  | none => return none
  | some raw =>
    let alloc ← Recv.ask .redAlloc
    let r ← get
    let t := getMxTable conf.toMxConf alloc (createResult raw) r.hosts
    set { r with hosts := t.2 }
    return if t.1 then some (createResult raw) else none

/-- `check_hostname`: 0 when the host has MX or A records, 1 when not, -1 when a query fails. -/
def checkHostname (conf : RecvConf) (hostname : Text) : Recv Int := do
  match ← getMx conf hostname with
  | none => return -1
  | some (_ :: _) => return 0
  | some [] =>
    match ← Recv.ask (.dnsA hostname) with
    | none => return -1
    | some (_ :: _) => return 0
    | some [] => return 1

/-- `simta_secondary_mx`. -/
def secondaryRed (name : Text) : Red := ⟨name, .secondaryMx, [], [], .smtpDefault, 0, 0, false⟩

/-- `host_local`, with the query it makes for a name that is not in the host table. -/
def hostLocalRed (conf : RecvConf) (hostname : Text) : Recv (Option Red) := do
  let r ← get
  match redLookupHost conf.red hostname r.hosts with
  | some red => return some red
  | none =>
    let result ← Recv.ask (.dnsMx hostname)
    let alloc ← Recv.ask .redAlloc
    let t := hostLocal conf.toMxConf alloc (result.map createResult) hostname r.hosts
    set { r with hosts := t.2 }
    match t.1 with
    | .table red => return some red
    | .secondary => return conf.secondaryMx.map secondaryRed
    | .none => return none

/-! ## Receive rules -/

/-- `LOCAL_ADDRESS`, `NOT_LOCAL`, `LOCAL_ERROR`, `MX_ADDRESS`, `LOCAL_ADDRESS_RBL`. -/
inductive LocalAddress
  | localAddress
  | notLocal
  | localError
  | mxAddress
  | localAddressRbl
  deriving DecidableEq, Repr

/-- The loop of `local_address` over the rules; `required` counts the required rules that matched. -/
def localAddressRules (user domain : Text) : List Action → Nat → Recv LocalAddress
  | [], required => return if required ≠ 0 then .localAddress else .notLocal
  | action :: rest, required => do
    let decide (found : Bool) : Recv LocalAddress :=
      if found then
        if action.aSufficient then return .localAddress
        else localAddressRules user domain rest (required + 1)
      else if action.aSufficient then localAddressRules user domain rest required
      else return .notLocal
    match action.aAction with
    | .alias =>
      if ← Recv.ask (.dbOpen action.aFname) then decide (← Recv.ask (.dbGet action.aFname user))
      else localAddressRules user domain rest required
    | .password => decide (← Recv.ask (.getpwnam action.aFname user))
    | .ldap =>
      match ← Recv.ask (.ldapAddressLocal user domain) with
      | .sysError => return .localError
      | .notLocal => decide false
      | .loc => decide true
      | .localRbl => return .localAddressRbl

/-- `local_address`. -/
def localAddress (addr domain : Text) (red : Red) : Recv LocalAddress :=
  if '@' ∈ addr then
    if red.redHostType = .secondaryMx then return .mxAddress
    else localAddressRules (addr.takeWhile (· ≠ '@')) domain red.redReceive 0
  else return .notLocal

/-! ## The command -/

/-- `f_rcpt_usage`. -/
def fRcptUsage : Recv RecvRet :=
  snetWritef ("501-Syntax violates RFC 2821 section 4.1.1.3:\r\n".toList ++
    "501-     \"RCPT TO:\" (\"<Postmaster@\" domain \">\" / \"<Postmaster>\" / Forward-Path ) ".toList ++
    "[ SP Rcpt-parameters ] CRLF\r\n501-         Forward-path = Path\r\n".toList ++
    "501          Path = \"<\" [ A-d-l \":\" ] Mailbox \">\"\r\n".toList)

def rcptTo : Text := "TO:".toList

/-- The user and the domain of the path of the command line. -/
def rcptArgument (conf : RecvConf) (r : ReceiveData) : Option (Text × Option Text) :=
  match r.rAv with
  | [_, arg] => if strncaseEq arg rcptTo then parseEmailaddr .rcptTo (arg.drop rcptTo.length) else none
  | [_, keyword, path] =>
    if ¬ conf.strictSmtpSyntax ∧ strcaseEq keyword rcptTo then parseEmailaddr .rcptTo path else none
  | _ => none

/-- The end of `f_rcpt`: the recipient is recorded. -/
def rcptAccept (conf : RecvConf) (addr : Text) : Recv RecvRet := do
  if ← Recv.ask .alloc then
    modify fun r => { r with rEnv := r.rEnv.map (envRecipient · addr) }
    Recv.log (.rcpt addr)
    digestUpdate conf addr
    modify fun r => { r with rTvInactivity := 0 }
    smtpWriteBanner conf 250 none none
  else return .syserror

def failedRcpt : Recv Unit := modify fun r => { r with rFailedRcpts := r.rFailedRcpts + 1 }

/-- An address that a rule wants checked against the user RBLs. -/
def rcptRbl (conf : RecvConf) (addr : Text) : Recv RecvRet := do
  if conf.userRbls then
    let r ← get
    if r.rRblStatus = .unknown then
      let (status, url) ← Recv.ask (.rblCheck true)
      modify fun r => { r with rRblStatus := status, rRblUrl := url }
    let r ← get
    match r.rRblStatus with
    | .error | .unknown =>
      modify fun r => { r with rRblStatus := .unknown }
      if ← Recv.ask .dnsTimeout then rcptAccept conf addr else return .closeConnection
    | .block =>
      failedRcpt
      snetWritef ("550 <".toList ++ conf.hostname ++ "> Access denied for IP ".toList ++ r.rSin ++
        ": See ".toList ++ r.rRblUrl ++ "\r\n".toList)
    | .accept | .notFound => rcptAccept conf addr
  else rcptAccept conf addr

/-- A domain that `host_local` has resolved to `red`. -/
def rcptLocal (conf : RecvConf) (addr domain : Text) (red : Red) : Recv RecvRet := do
  match ← localAddress addr domain red with
  | .notLocal =>
    failedRcpt
    smtpWriteBanner conf 550 none (some "User not found".toList)
  | .localError =>
    digestUpdate conf addr
    smtpWriteBanner conf 451 none none
  | .localAddressRbl => rcptRbl conf addr
  | .localAddress | .mxAddress => rcptAccept conf addr

def rcptNotLocal (conf : RecvConf) (domain : Text) : Recv RecvRet := do
  failedRcpt
  snetWritef ("551 User not local to <".toList ++ conf.hostname ++ ">: please try <".toList ++ domain ++
    ">\r\n".toList)

/-- The normal mode, for an address with a domain. -/
def rcptNormal (conf : RecvConf) (addr domain : Text) : Recv RecvRet := do
  let rc ← checkHostname conf domain
  if rc ≠ 0 then
    failedRcpt
    if rc < 0 then
      digestUpdate conf addr
      smtpWriteBanner conf 451 none none
    else smtpWriteBanner conf 550 (some sUnknownHost) (some domain)
  else
    match ← hostLocalRed conf domain with
    | none => rcptNotLocal conf domain
    | some red =>
      if red.redReceive = [] ∧ red.redHostType = .loc then rcptNotLocal conf domain
      else rcptLocal conf addr domain red

/-- `f_rcpt`. -/
def fRcpt (conf : RecvConf) : Recv RecvRet := do
  let r ← get
  if r.rSmtpMode = .off then smtpWriteBanner conf 421 (some s421Decline) none
  else if (r.rEnv.map (·.eFlags.efile)).getD true then fBadSequence conf
  else
    match rcptArgument conf r with
    | none => fRcptUsage
    | some (addr, domain) =>
      match r.rSmtpMode with
      | .off => return .syserror
      | .tempfail => smtpWriteBanner conf 451 (some s451Decline) none
      | .noauth => smtpWriteBanner conf 530 none none
      | .refuse => smtpWriteBanner conf 503 none none
      | .tarpit | .globalRelay => rcptAccept conf addr
      | .normal =>
        match domain with
        | none => rcptAccept conf addr
        | some domain => rcptNormal conf addr domain

/-! ## What the lookups do -/

section Lookups

variable {σ : Type} {R : Prog.World RecvOp RecvAns σ} {conf : RecvConf} {r : ReceiveData} {s : σ}

/-- Nothing but the host table may change, and it still holds local hosts alone. -/
structure OnlyHosts (r r' : ReceiveData) : Prop where
  same : r' = { r with hosts := r'.hosts }
  table : LocalTable r.hosts → LocalTable r'.hosts

theorem OnlyHosts.refl (r : ReceiveData) : OnlyHosts r r := ⟨rfl, id⟩

theorem OnlyHosts.of_eq {hosts : List Red} (h : LocalTable r.hosts → LocalTable hosts) :
    OnlyHosts r { r with hosts := hosts } := ⟨rfl, h⟩

theorem OnlyHosts.trans {r r' r'' : ReceiveData} (h : OnlyHosts r r') (h' : OnlyHosts r' r'') :
    OnlyHosts r r'' := by
  refine ⟨?_, h'.table ∘ h.table⟩
  rw [h'.same, h.same]

theorem OnlyHosts.rEnv {r r' : ReceiveData} (h : OnlyHosts r r') : r'.rEnv = r.rEnv := by rw [h.same]

theorem getMx_spec (hostname : Text) :
    (getMx conf hostname).wlp R (fun _ r' _ => OnlyHosts r r') r s := by
  unfold getMx
  refine Recv.wlp_ask fun result t _ => ?_
  cases result with
  | none => exact OnlyHosts.refl r
  | some raw => exact fun alloc _ _ => OnlyHosts.of_eq localTable_getMxTable

theorem checkHostname_spec (hostname : Text) :
    (checkHostname conf hostname).wlp R (fun _ r' _ => OnlyHosts r r') r s := by
  unfold checkHostname
  refine Stateful.wlp_seq (getMx_spec hostname) fun result r' s' h => ?_
  rcases result with _ | _ | ⟨rr, rest⟩
  · exact h
  · refine Recv.wlp_ask fun a _ _ => ?_
    rcases a with _ | _ | ⟨rr, rest⟩ <;> exact h
  · exact h

theorem hostLocalRed_spec (hostname : Text) :
    (hostLocalRed conf hostname).wlp R (fun red r' _ => OnlyHosts r r' ∧
      ∀ x, red = some x → x.redHostType = .secondaryMx ∨ x ∈ r'.hosts) r s := by
  unfold hostLocalRed
  refine Recv.wlp_get ?_
  cases hfind : redLookupHost conf.red hostname r.hosts with
  | some red =>
    refine ⟨OnlyHosts.refl r, fun x hx => .inr ?_⟩
    cases hx
    exact (redFind_name hfind).2
  | none =>
    refine Recv.wlp_ask fun result _ _ => Recv.wlp_ask fun alloc _ _ => ?_
    have honly : OnlyHosts r { r with
        hosts := (hostLocal conf.toMxConf alloc (result.map createResult) hostname r.hosts).2 } := by
      refine OnlyHosts.of_eq fun hloc => ?_
      rcases hostLocal_hosts with h | ⟨answer, -, h⟩ <;> rw [h]
      · exact hloc
      · exact localTable_getMxTable hloc
    rw [Stateful.wlp_bind, Stateful.wlp_set]
    split
    · rename_i red hred
      refine ⟨honly, fun x hx => .inr ?_⟩
      cases hx
      exact hostLocal_table hred
    · refine ⟨honly, fun x hx => .inl ?_⟩
      obtain ⟨name, -, rfl⟩ := Option.map_eq_some_iff.mp hx
      rfl
    · exact ⟨honly, nofun⟩

/-- A lookup that a receive rule makes was answered, and the answer was that it knows the address. -/
def Found (R : Prog.World RecvOp RecvAns σ) (user domain : Text) (action : Action) : Prop :=
  ∃ s t, match action.aAction with
    | .alias => R (.dbGet action.aFname user) s true t
    | .password => R (.getpwnam action.aFname user) s true t
    | .ldap => R (.ldapAddressLocal user domain) s LdapLocal.loc t ∨
        R (.ldapAddressLocal user domain) s LdapLocal.localRbl t

/-- The results by which `f_rcpt` goes on to record the recipient. -/
def LocalAddress.Accepting (a : LocalAddress) : Prop :=
  a = .localAddress ∨ a = .mxAddress ∨ a = .localAddressRbl

/-- The rules accept only what one of them found, here or before (`required`). -/
theorem localAddressRules_spec (user domain : Text) (rules : List Action) (required : Nat) :
    (localAddressRules user domain rules required).wlp R (fun a r' _ => r' = r ∧
      (a.Accepting → 0 < required ∨ ∃ action ∈ rules, Found R user domain action)) r s := by
  induction rules generalizing required r s with
  | nil =>
    unfold localAddressRules
    split
    · exact ⟨rfl, fun _ => .inl (by omega)⟩
    · exact ⟨rfl, by rintro (h | h | h) <;> cases h⟩
  | cons action rest ih =>
    have hskip : ∀ t, (localAddressRules user domain rest required).wlp R (fun a r' _ => r' = r ∧
        (a.Accepting → 0 < required ∨ ∃ x ∈ action :: rest, Found R user domain x)) r t := fun t =>
      Stateful.wlp_mono (fun a r' _ h => ⟨h.1, fun hacc => (h.2 hacc).imp_right
        fun ⟨x, hx, hfound⟩ => ⟨x, List.mem_cons_of_mem _ hx, hfound⟩⟩) (ih required)
    -- what a rule does with the outcome of its lookup
    have hdecide : ∀ (found : Bool) t, (found = true → Found R user domain action) →
        Stateful.wlp R (if found then
            if action.aSufficient then (pure .localAddress : Recv LocalAddress)
            else localAddressRules user domain rest (required + 1)
          else if action.aSufficient then localAddressRules user domain rest required
          else pure .notLocal)
        (fun a r' _ => r' = r ∧
          (a.Accepting → 0 < required ∨ ∃ x ∈ action :: rest, Found R user domain x)) r t := by
      intro found t hfound
      cases found with
      | true =>
        have hmem : ∃ x ∈ action :: rest, Found R user domain x :=
          ⟨action, List.mem_cons_self, hfound rfl⟩
        rw [if_pos rfl]
        split
        · exact ⟨rfl, fun _ => .inr hmem⟩
        · exact Stateful.wlp_mono (fun a r' _ h => ⟨h.1, fun _ => .inr hmem⟩) (ih (required + 1))
      | false =>
        rw [if_neg (by simp)]
        split
        · exact hskip t
        · exact ⟨rfl, by rintro (h | h | h) <;> cases h⟩
    unfold localAddressRules
    dsimp only
    cases haction : action.aAction with
    | «alias» =>
      refine Recv.wlp_ask fun opened t _ => ?_
      cases opened with
      | false => exact hskip t
      | true =>
        refine Recv.wlp_ask fun found t' hget => hdecide found t' ?_
        rintro rfl
        exact ⟨_, _, by simpa only [haction] using hget⟩
    | password =>
      refine Recv.wlp_ask fun found t' hget => hdecide found t' ?_
      rintro rfl
      exact ⟨_, _, by simpa only [haction] using hget⟩
    | ldap =>
      refine Recv.wlp_ask fun answer t' hask => ?_
      cases answer with
      | sysError => exact ⟨rfl, by rintro (h | h | h) <;> cases h⟩
      | notLocal => exact hdecide false t' nofun
      | loc => exact hdecide true t' fun _ => ⟨_, _, by simpa only [haction] using .inl hask⟩
      | localRbl =>
        exact ⟨rfl, fun _ => .inr ⟨action, List.mem_cons_self,
          ⟨_, _, by simpa only [haction] using .inr hask⟩⟩⟩

/-- **A local host accepts an address only when one of its rules found it.** -/
theorem localAddress_found (addr domain : Text) (red : Red) :
    (localAddress addr domain red).wlp R (fun a r' _ => r' = r ∧
      (a.Accepting → red.redHostType = .secondaryMx ∨
        ∃ action ∈ red.redReceive, Found R (addr.takeWhile (· ≠ '@')) domain action)) r s := by
  unfold localAddress
  split
  · split
    · rename_i h
      exact ⟨rfl, fun _ => .inl h⟩
    · refine Stateful.wlp_mono (fun a r' _ h => ⟨h.1, fun hacc => .inr ?_⟩)
        (localAddressRules_spec _ domain red.redReceive 0)
      exact (h.2 hacc).resolve_left (by omega)
  · exact ⟨rfl, by rintro (h | h | h) <;> cases h⟩

/-! ## No open relay -/

/-- The session has the envelope it had. -/
def Kept (r : ReceiveData) (_ : RecvRet) (r' : ReceiveData) (_ : σ) : Prop := r'.rEnv = r.rEnv

theorem kept_of_eq {m : Recv RecvRet} (h : m.wlp R (fun _ r' _ => r' = r) r s) :
    m.wlp R (Kept r) r s := Stateful.wlp_mono (fun _ _ _ h => congrArg ReceiveData.rEnv h) h

theorem snetWritef_same (line : Text) : (snetWritef line).wlp R (fun _ r' _ => r' = r) r s := by
  refine Recv.wlp_ask fun written _ _ => ?_
  cases written <;> exact rfl

theorem digestUpdate_kept (bytes : Text) :
    (digestUpdate conf bytes).wlp R (fun _ r' _ => r'.rEnv = r.rEnv) r s := by
  unfold digestUpdate
  split <;> exact rfl

/-- The recipient was recorded, or the envelope is as it was. -/
def AtMostRecorded (addr : Text) (r : ReceiveData) (_ : RecvRet) (r' : ReceiveData) (_ : σ) : Prop :=
  r'.rEnv = r.rEnv ∨ r'.rEnv = r.rEnv.map (envRecipient · addr)

theorem rcptAccept_spec (addr : Text) :
    (rcptAccept conf addr).wlp R (AtMostRecorded addr r) r s := by
  refine Recv.wlp_ask fun ok t _ => ?_
  cases ok with
  | false => exact .inl rfl
  | true =>
    refine Recv.wlp_modify (Recv.wlp_log ?_)
    refine Stateful.wlp_seq (digestUpdate_kept addr) fun _ r' t' h => Recv.wlp_modify ?_
    exact Stateful.wlp_mono (fun _ _ _ h' => .inr (by rw [h']; exact h)) (smtpWriteBanner_same _ _ _)

theorem failedRcpt_then {m : Unit → Recv RecvRet}
    (h : ∀ r', r'.rEnv = r.rEnv → (m ()).wlp R (fun _ r'' _ => r'' = r') r' s) :
    (failedRcpt >>= m).wlp R (Kept r) r s := by
  refine Recv.wlp_modify ?_
  exact Stateful.wlp_mono (fun _ _ _ h' => by rw [Kept, h']) (h _ rfl)

theorem rcptNotLocal_kept (domain : Text) : (rcptNotLocal conf domain).wlp R (Kept r) r s :=
  failedRcpt_then fun _ _ => snetWritef_same _

theorem rcptRbl_spec (addr : Text) : (rcptRbl conf addr).wlp R (AtMostRecorded addr r) r s := by
  have hstatus : ∀ r' t, r'.rEnv = r.rEnv →
      Stateful.wlp R (do
        let r ← (get : Recv ReceiveData)
        match r.rRblStatus with
        | .error | .unknown =>
          modify fun r => { r with rRblStatus := .unknown }
          if ← Recv.ask .dnsTimeout then rcptAccept conf addr else return .closeConnection
        | .block =>
          failedRcpt
          snetWritef ("550 <".toList ++ conf.hostname ++ "> Access denied for IP ".toList ++ r.rSin ++
            ": See ".toList ++ r.rRblUrl ++ "\r\n".toList)
        | .accept | .notFound => rcptAccept conf addr) (AtMostRecorded addr r) r' t := by
    intro r' t henv
    have haccept : ∀ x u, x.rEnv = r.rEnv → (rcptAccept conf addr).wlp R (AtMostRecorded addr r) x u :=
      fun x u hx => Stateful.wlp_mono (fun _ _ _ h => by rwa [AtMostRecorded, hx] at h) (rcptAccept_spec addr)
    have htimeout : Stateful.wlp R (do
        modify fun r => { r with rRblStatus := .unknown }
        if ← Recv.ask .dnsTimeout then rcptAccept conf addr else return .closeConnection)
        (AtMostRecorded addr r) r' t := by
      refine Recv.wlp_modify (Recv.wlp_ask fun timeout u _ => ?_)
      cases timeout with
      | true => exact haccept _ u henv
      | false => exact .inl henv
    refine Recv.wlp_get ?_
    split
    · exact htimeout
    · exact htimeout
    · exact Stateful.wlp_mono (fun _ _ _ h => .inl (h.trans henv)) (failedRcpt_then fun _ _ => snetWritef_same _)
    · exact haccept r' t henv
    · exact haccept r' t henv
  unfold rcptRbl
  split
  · refine Recv.wlp_get ?_
    split
    · exact Recv.wlp_ask fun a t _ => Recv.wlp_modify (hstatus _ t rfl)
    · exact hstatus r s rfl
  · exact rcptAccept_spec addr

/-- A host by which mail for its domain is accepted for `addr`: the secondary, or a local host with
    receive rules of which one found the address. -/
structure OurHost (R : Prog.World RecvOp RecvAns σ) (hosts : List Red) (addr domain : Text) (red : Red) :
    Prop where
  ours : red.redHostType = .secondaryMx ∨ red ∈ hosts ∧ red.redHostType = .loc ∧ red.redReceive ≠ []
  found : red.redHostType = .secondaryMx ∨
    ∃ action ∈ red.redReceive, Found R (addr.takeWhile (· ≠ '@')) domain action

/-- The stages by which `f_rcpt` came to record `addr`, each with its outcome. -/
structure RelayAllowed (R : Prog.World RecvOp RecvAns σ) (conf : RecvConf) (addr domain : Text)
    (r : ReceiveData) (s : σ) : Prop where
  stages : ∃ r₁ s₁ red r₂ s₂ answer s₃,
    (checkHostname conf domain).Runs R r s 0 r₁ s₁ ∧
      (hostLocalRed conf domain).Runs R r₁ s₁ (some red) r₂ s₂ ∧
      (localAddress addr domain red).Runs R r₂ s₂ answer r₂ s₃ ∧
      answer.Accepting ∧ OurHost R r₂.hosts addr domain red

/-- `local_address` and what follows it. -/
theorem rcptLocal_spec (addr domain : Text) (red : Red) :
    (rcptLocal conf addr domain red).wlp R (fun _ r' _ => r'.rEnv = r.rEnv ∨
      r'.rEnv = r.rEnv.map (envRecipient · addr) ∧
        ∃ answer t, (localAddress addr domain red).Runs R r s answer r t ∧ answer.Accepting ∧
          (red.redHostType = .secondaryMx ∨
            ∃ action ∈ red.redReceive, Found R (addr.takeWhile (· ≠ '@')) domain action)) r s := by
  unfold rcptLocal
  refine Stateful.wlp_seq (Stateful.wlp_and (Stateful.wlp_runs _) (localAddress_found addr domain red)) ?_
  rintro answer r' t ⟨hrun, rfl, hfound⟩
  have haccept : ∀ m : Recv RecvRet, answer.Accepting → m.wlp R (AtMostRecorded addr r') r' t →
      m.wlp R (fun _ r'' _ => r''.rEnv = r'.rEnv ∨ r''.rEnv = r'.rEnv.map (envRecipient · addr) ∧
        ∃ answer t, (localAddress addr domain red).Runs R r' s answer r' t ∧ answer.Accepting ∧
          (red.redHostType = .secondaryMx ∨
            ∃ action ∈ red.redReceive, Found R (addr.takeWhile (· ≠ '@')) domain action)) r' t :=
    fun m hacc hm => Stateful.wlp_mono (fun _ _ _ h => h.imp_right fun h =>
      ⟨h, answer, t, hrun, hacc, hfound hacc⟩) hm
  have hkept : ∀ m : Recv RecvRet, m.wlp R (Kept r') r' t →
      m.wlp R (fun _ r'' _ => r''.rEnv = r'.rEnv ∨ r''.rEnv = r'.rEnv.map (envRecipient · addr) ∧
        ∃ answer t, (localAddress addr domain red).Runs R r' s answer r' t ∧ answer.Accepting ∧
          (red.redHostType = .secondaryMx ∨
            ∃ action ∈ red.redReceive, Found R (addr.takeWhile (· ≠ '@')) domain action)) r' t :=
    fun m hm => Stateful.wlp_mono (fun _ _ _ h => .inl h) hm
  cases answer with
  | notLocal => exact hkept _ (failedRcpt_then fun _ _ => smtpWriteBanner_same _ _ _)
  | localError =>
    refine hkept _ (Stateful.wlp_seq (digestUpdate_kept addr) fun _ r'' t' h => ?_)
    exact Stateful.wlp_mono (fun _ _ _ h' => by rw [Kept, h', h]) (smtpWriteBanner_same _ _ _)
  | localAddressRbl => exact haccept _ (.inr (.inr rfl)) (rcptRbl_spec addr)
  | localAddress => exact haccept _ (.inl rfl) (rcptAccept_spec addr)
  | mxAddress => exact haccept _ (.inr (.inl rfl)) (rcptAccept_spec addr)

theorem rcptNormal_spec (addr domain : Text) (hhosts : LocalTable r.hosts) :
    (rcptNormal conf addr domain).wlp R (fun _ r' _ => r'.rEnv = r.rEnv ∨
      r'.rEnv = r.rEnv.map (envRecipient · addr) ∧ RelayAllowed R conf addr domain r s) r s := by
  unfold rcptNormal
  refine Stateful.wlp_seq (Stateful.wlp_and (Stateful.wlp_runs _) (checkHostname_spec domain)) ?_
  rintro rc r₁ s₁ ⟨hcheck, h₁⟩
  split
  · -- the resolver failed or knows no such host
    have hkept : ∀ m : Recv RecvRet, (∀ r', r'.rEnv = r₁.rEnv → m.wlp R (Kept r₁) r' s₁) →
        Stateful.wlp R (failedRcpt >>= fun _ => m) (fun _ r' _ => r'.rEnv = r.rEnv ∨
          r'.rEnv = r.rEnv.map (envRecipient · addr) ∧ RelayAllowed R conf addr domain r s) r₁ s₁ :=
      fun m hm => Recv.wlp_modify (Stateful.wlp_mono (fun _ _ _ h => .inl (h.trans h₁.rEnv)) (hm _ rfl))
    refine hkept _ fun r' hr' => ?_
    split
    · refine Stateful.wlp_seq (digestUpdate_kept addr) fun _ r'' _ h => ?_
      exact Stateful.wlp_mono (fun _ _ _ h' => by rw [Kept, h', h, hr']) (smtpWriteBanner_same _ _ _)
    · exact Stateful.wlp_mono (fun _ _ _ h' => by rw [Kept, h', hr']) (smtpWriteBanner_same _ _ _)
  · rename_i hrc
    have hzero : rc = 0 := by simpa using hrc
    subst hzero
    refine Stateful.wlp_seq (Stateful.wlp_and (Stateful.wlp_runs _) (hostLocalRed_spec domain)) ?_
    rintro red r₂ s₂ ⟨hlocal, h₂, hred⟩
    have henv : r₂.rEnv = r.rEnv := h₂.rEnv.trans h₁.rEnv
    have hnotLocal : (rcptNotLocal conf domain).wlp R (fun _ r' _ => r'.rEnv = r.rEnv ∨
        r'.rEnv = r.rEnv.map (envRecipient · addr) ∧ RelayAllowed R conf addr domain r s) r₂ s₂ :=
      Stateful.wlp_mono (fun _ _ _ h => .inl (h.trans henv)) (rcptNotLocal_kept domain)
    cases red with
    | none => exact hnotLocal
    | some red =>
      dsimp only
      split
      · exact hnotLocal
      · rename_i hrules
        refine Stateful.wlp_mono ?_ (rcptLocal_spec addr domain red)
        rintro _ r₃ _ (h | ⟨h, answer, s₃, hrun, hacc, hfound⟩)
        · exact .inl (h.trans henv)
        · refine .inr ⟨h.trans (by rw [henv]), ⟨r₁, s₁, red, r₂, s₂, answer, s₃, hcheck, hlocal, hrun,
            hacc, ⟨?_, hfound⟩⟩⟩
          refine (hred red rfl).imp_right fun hmem => ?_
          have htype := h₂.table (h₁.table hhosts) red hmem
          exact ⟨hmem, htype, fun hnil => hrules ⟨hnil, htype⟩⟩

/-- **No open relay.**  In the normal mode `f_rcpt` records the recipient of a path with a domain only
    after the domain resolved, to the secondary or to a local host with receive rules, and
    `local_address` accepted the address. -/
theorem fRcpt_noOpenRelay (conf : RecvConf) (R : Prog.World RecvOp RecvAns σ) (r : ReceiveData) (s : σ)
    (addr domain : Text) (hmode : r.rSmtpMode = .normal) (hhosts : LocalTable r.hosts)
    (hargs : rcptArgument conf r = some (addr, some domain)) (ret : RecvRet) (r' : ReceiveData) (s' : σ)
    (hrun : (fRcpt conf).Runs R r s ret r' s') (hadded : r'.rEnv ≠ r.rEnv) :
    r'.rEnv = r.rEnv.map (envRecipient · addr) ∧ RelayAllowed R conf addr domain r s := by
  have hspec : (fRcpt conf).wlp R (fun _ r' _ => r'.rEnv = r.rEnv ∨
      r'.rEnv = r.rEnv.map (envRecipient · addr) ∧ RelayAllowed R conf addr domain r s) r s := by
    unfold fRcpt
    refine Recv.wlp_get ?_
    rw [if_neg (by rw [hmode]; nofun)]
    split
    · exact Stateful.wlp_mono (fun _ _ _ h => .inl (congrArg ReceiveData.rEnv h)) (smtpWriteBanner_same _ _ _)
    · simp only [hargs, hmode]
      exact rcptNormal_spec addr domain hhosts
  exact (Stateful.wlp_iff_runs.mp hspec _ _ _ hrun).resolve_left hadded

end Lookups

/-! A host of ours with one alias rule, and an address that the alias database knows. -/

def rcptConf : RecvConf where
  hostname := "us.example".toList
  dnsConfig := true
  secondaryMx := none
  red := ⟨true, none, none⟩

def joe : Text := "joe@us.example".toList

def rcptSession : ReceiveData :=
  { newSession rcptConf [] 0 [⟨"us.example".toList, .loc, [⟨.alias, true, none⟩], [], .binary, 0, 0, false⟩] with
    rEnv := some (envCreate {} .fast "1.2.3".toList (some []) none)
    rAv := ["RCPT".toList, "TO:<joe@us.example>".toList] }

def rcptAnswers : (op : RecvOp) → RecvAns op
  | .dnsMx _ => some [⟨"us.example".toList, .mx 10 "us.example".toList⟩]
  | .dbOpen _ | .dbGet _ _ | .alloc | .write _ => true
  | op => op.fail

theorem fRcpt_noOpenRelay_joe :
    ((fRcpt rcptConf).eval rcptAnswers rcptSession).2.rEnv =
        rcptSession.rEnv.map (envRecipient · joe) ∧
      RelayAllowed Prog.anyAnswer rcptConf joe "us.example".toList rcptSession () :=
  fRcpt_noOpenRelay rcptConf Prog.anyAnswer rcptSession () joe _ rfl (by unfold LocalTable; decide)
    (by decide) _ _ () (Stateful.runs_of_eval rcptAnswers _ _) (by decide)

end Simta
