import Simta.Delivery
import Simta.Queue

/-!
# The hosts of a delivery

`deliver_remote` of `queue.c` and the functions that choose its next host, with the retry list as the cells that
`connection_data_create` allocates and the DNS results as objects that are freed.  The dialogue with a host is one answer of
the outside: what the function of `smtp.c` returns, and what it changes that matters here.

* `connectionDataCreate`, `connectionDataFree` — the doubly linked list;
* `nextDnsrHostPtr`, `lookupPtr` — `next_dnsr_host` and `next_dnsr_host_lookup`;
* `remoteTry`, `remoteAttempts` — the loop of `deliver_remote`.
-/

set_option autoImplicit false

namespace Simta

/-! ## The heap -/

/-- An address to connect to.  `answer` and `record`, kept for the statements alone, are the answer and the number of the
    record in it that the address was taken for. -/
structure Target where
  ip : Ip
  answer : List MxAnswer
  record : Nat
  deriving DecidableEq, Repr

/-- `struct connection_data`. -/
structure ConnectionData where
  cSin : Target
  cPrev : Option Addr
  cNext : Option Addr
  deriving DecidableEq, Repr

/-- What `struct deliver` and `struct host_q` hold for the choice of a host, and the heap.  `dSnetSmtp` is whether there is a
    connection; `cuts`, kept for the statements alone, are the answers whose walk the cutoff has ended. -/
structure Remote where
  dRetryList : Option Addr
  dRetryListEnd : Option Addr
  dRetryCur : Option Addr
  dDnsrResult : Option Addr
  dDnsrResultIp : Option Addr
  dSin : Target
  dSnetSmtp : Bool
  dMxPreferenceCutoff : Nat
  dCurDnsrResult : Int
  dCurDnsrResultIp : Int
  dQueueMovement : Bool
  hqHostname : Text
  hqStatus : HostStatus
  hqNoPuntMx : Bool
  cells : Addr → Option ConnectionData
  results : Addr → Option (List MxAnswer)
  fresh : Addr
  cuts : List (List MxAnswer)

/-- What is asked of the outside.  `dnsMx` is `get_mx`, `dnsA` is `get_a`, `errText` the lines for a host that does not
    exist. -/
inductive RemoteOp
  | gettimeofday
  | dnsMx
  | dnsA (name : Text)
  | errText
  | malloc
  | socket
  | connect (ip : Ip)
  | attach
  | smtpConnect
  | smtpRset
  | lseek
  | smtpSend
  | smtpQuit
  deriving DecidableEq, Repr

/-- The answers.  With the result of `smtpConnect` comes whether a 5xx greeting refused the connection, with that of
    `smtpSend` whether a recipient got its final answer. -/
abbrev RemoteAns : RemoteOp → Type
  | .dnsMx => Option (List MxAnswer)
  | .dnsA _ => Option (List Rr)
  | .smtpConnect => SmtpRet × Bool
  | .smtpRset => SmtpRet
  | .smtpSend => SmtpRet × Bool
  | .smtpQuit => Unit
  | _ => Bool

abbrev Rem (α : Type) : Type := Faulty Remote RemoteOp RemoteAns α

namespace Remote

def setCell (d : Remote) (a : Addr) (c : Option ConnectionData) : Remote :=
  { d with cells := fun b => if b = a then c else d.cells b }

def setResult (d : Remote) (r : Addr) (l : Option (List MxAnswer)) : Remote :=
  { d with results := fun b => if b = r then l else d.results b }

/-- The heap with a new DNS result. -/
def addResult (d : Remote) (l : List MxAnswer) : Remote :=
  { d.setResult d.fresh (some l) with fresh := d.fresh + 1 }

/-- `dnsr_free_result`. -/
def freeResult (r : Addr) (d : Remote) : Option Remote :=
  (d.results r).map fun _ => d.setResult r none

/-- `connection_data_create`, once its allocation has succeeded. -/
def connectionDataCreate (d : Remote) : Option Remote :=
  match d.dRetryListEnd with
  | none => some { d.setCell d.fresh (some ⟨d.dSin, none, none⟩) with
      dRetryList := some d.fresh, dRetryListEnd := some d.fresh, fresh := d.fresh + 1 }
  | some last => do
    let c ← d.cells last
    some { (d.setCell last (some { c with cNext := some d.fresh })).setCell d.fresh (some ⟨d.dSin, some last, none⟩) with
      dRetryListEnd := some d.fresh, fresh := d.fresh + 1 }

/-- The links of `connection_data_free` that come from the cells in front. -/
def unlinkNext (c : ConnectionData) (d : Remote) : Option Remote :=
  match c.cPrev with
  | some p => (d.cells p).map fun x => d.setCell p (some { x with cNext := c.cNext })
  | none => some { d with dRetryList := c.cNext }

/-- The links that come from the cells behind. -/
def unlinkPrev (c : ConnectionData) (d : Remote) : Option Remote :=
  match c.cNext with
  | some n => (d.cells n).map fun x => { d.setCell n (some { x with cPrev := c.cPrev }) with dRetryCur := c.cNext }
  | none => some { d with dRetryListEnd := c.cPrev, dRetryCur := d.dRetryList }

/-- `connection_data_free`. -/
def connectionDataFree (cd : Addr) (d : Remote) : Option Remote := do
  let d ← unlinkNext (← d.cells cd) d
  let d ← unlinkPrev (← d.cells cd) d
  return d.setCell cd none

/-- The address under the cursor of the retry list. -/
def retryTarget (d : Remote) : Option Target := do
  let c ← d.cells (← d.dRetryCur)
  return c.cSin

end Remote

namespace Rem

def ask (op : RemoteOp) : Rem (RemoteAns op) := Faulty.ask op

/-- A DNS result. -/
def result (r : Addr) : Rem (List MxAnswer) := Faulty.read fun d => d.results r

/-- A new DNS result. -/
def newResult (l : List MxAnswer) : Rem Addr := do
  let d ← get
  set (d.addResult l)
  return d.fresh

end Rem

/-! ## The next host -/

/-- `get_outboud_dns`; `true` for its 0. -/
def outboudDns (conf : DeliverConf) : Rem Bool := do
  match ← Rem.ask .dnsMx with
  | none =>
    modify fun d => { d with hqNoPuntMx := true }
    return false
  | some answers =>
    let r ← Rem.newResult answers
    modify fun d => { d with dDnsrResult := some r }
    if answers ≠ [] ∧ (answers.length ≠ 1 ∨ (answers.head?.map fun a => a.rr.isCname) ≠ some true) then
      match mxCutoff conf answers with
      | some preference =>
        modify fun d => { d with hqNoPuntMx := true, dMxPreferenceCutoff := preference }
        return true
      | none => return true
    else
      Faulty.update (Remote.freeResult r)
      let d ← get
      match ← Rem.ask (.dnsA d.hqHostname) with
      | none =>
        modify fun d => { d with dDnsrResult := none }
        return false
      | some rrs =>
        let r ← Rem.newResult (rrs.map fun rr => ⟨rr, none⟩)
        modify fun d => { d with dDnsrResult := some r }
        if rrs = [] then
          if ← Rem.ask .errText then
            modify fun d => { d with hqStatus := .bounce }
            return false
          else return false
        else return true

/-- The query of `next_dnsr_host`, when there is no answer yet; `found` when there is one now. -/
def queryPtr (conf : DeliverConf) : Rem NextHost := do
  let d ← get
  match d.dDnsrResult with
  | some _ => return .found
  | none =>
    modify fun d => { d with hqNoPuntMx := false, dMxPreferenceCutoff := 0, dCurDnsrResult := 0 }
    match d.hqStatus with
    | .down =>
      if ← outboudDns conf then
        modify fun d => { d with dCurDnsrResult := -1 }
        return .found
      else return .exhausted
    | .puntDown =>
      match ← Rem.ask (.dnsA (conf.puntHost.getD [])) with
      | none => return .exhausted
      | some rrs =>
        let r ← Rem.newResult (rrs.map fun rr => ⟨rr, none⟩)
        modify fun d => { d with dDnsrResult := some r }
        if rrs = [] then return .exhausted
        else
          modify fun d => { d with dCurDnsrResult := -1 }
          return .found
    | _ => return .abort

/-- The label `retry`. -/
def retryPtr : Rem NextHost := do
  let target ← Faulty.read Remote.retryTarget
  modify fun d => { d with dSin := target }
  return .found

/-- The start of the retry list, when there is one. -/
def retryStartPtr : Rem NextHost := do
  let d ← get
  match d.dRetryList with
  | none => return .exhausted
  | some head =>
    modify fun d => { d with dRetryCur := some head }
    retryPtr

/-- The step on the retry list from its cell `cd`: a host that moved nothing falls off, else the next one is due. -/
def retryNextPtr (cd : Addr) : Rem NextHost := do
  let d ← get
  let c ← Faulty.read fun d => d.cells cd
  modify fun d => { d with dRetryCur := c.cNext }
  if d.dQueueMovement then
    if c.cNext = none then modify fun d => { d with dRetryCur := d.dRetryList }
    retryPtr
  else
    Faulty.update (Remote.connectionDataFree cd)
    let d ← get
    match d.dRetryCur with
    | some _ => retryPtr
    | none => retryStartPtr

/-- The loop over the answers `all` from the number `i` on. -/
def answersPtr (conf : DeliverConf) (all : List MxAnswer) : List MxAnswer → Nat → Rem NextHost
  | [], i => do
    modify fun d => { d with dCurDnsrResult := i }
    return .ended
  | answer :: rest, i => do
    modify fun d => { d with dCurDnsrResult := i }
    let d ← get
    match answer.rr.rrData with
    | .a o₀ o₁ o₂ o₃ =>
      modify fun d => { d with dSin := ⟨⟨o₀, o₁, o₂, o₃⟩, all, i⟩ }
      if d.hqStatus = .down ∧ fakeAddress ⟨o₀, o₁, o₂, o₃⟩ then answersPtr conf all rest (i + 1) else return .found
    | .mx preference exchange =>
      if d.hqStatus ≠ .down then answersPtr conf all rest (i + 1)
      else if d.hqNoPuntMx ∧ d.dMxPreferenceCutoff = preference then
        modify fun d => { d with cuts := all :: d.cuts }
        retryStartPtr
      else
        match answer.rrIp with
        | some ip =>
          modify fun d => { d with dSin := ⟨ip, all, i⟩ }
          return .found
        | none =>
          match ← Rem.ask (.dnsA exchange) with
          | none => answersPtr conf all rest (i + 1)
          | some rrs =>
            let r ← Rem.newResult (rrs.map fun rr => ⟨rr, none⟩)
            if rrs = [] then
              Faulty.update (Remote.freeResult r)
              answersPtr conf all rest (i + 1)
            else
              modify fun d => { d with dDnsrResultIp := some r, dCurDnsrResultIp := -1 }
              return .resolved
    | _ => answersPtr conf all rest (i + 1)

/-- The loop over the addresses of the exchanger with the number `record` in the answers `all`. -/
def addressesPtr (all : List MxAnswer) (record : Nat) : List MxAnswer → Nat → Rem NextHost
  | [], i => do
    modify fun d => { d with dCurDnsrResultIp := i }
    return .ended
  | answer :: rest, i => do
    modify fun d => { d with dCurDnsrResultIp := i }
    match answer.rr.address with
    | none => addressesPtr all record rest (i + 1)
    | some ip =>
      modify fun d => { d with dSin := ⟨ip, all, record⟩ }
      if fakeAddress ip then addressesPtr all record rest (i + 1) else return .found

/-- The addresses of the current exchanger, and then the retry list. -/
def exchangerPtr (all : List MxAnswer) : Rem NextHost := do
  let d ← get
  match d.dDnsrResultIp with
  | none => retryStartPtr
  | some rip =>
    let addresses ← Rem.result rip
    let i := (d.dCurDnsrResultIp + 1).toNat
    match ← addressesPtr all d.dCurDnsrResult.toNat (addresses.drop i) i with
    | .found => return .found
    | _ => retryStartPtr

/-- `connection_data_create` for the last host, if it is to be tried again. -/
def keepHost (conf : DeliverConf) : Rem PUnit := do
  let d ← get
  if conf.aggressiveDelivery ∧ d.dQueueMovement then
    if ← Rem.ask .malloc then Faulty.update Remote.connectionDataCreate

/-- The part of `next_dnsr_host` behind the retry list, with the DNS result `r`. -/
def hostPtr (conf : DeliverConf) (r : Addr) : Rem NextHost := do
  keepHost conf
  modify fun d => { d with dSin := ⟨⟨0, 0, 0, 0⟩, [], 0⟩ }
  let d ← get
  let all ← Rem.result r
  match d.dDnsrResultIp with
  | some _ => exchangerPtr all
  | none =>
    let i := (d.dCurDnsrResult + 1).toNat
    match ← answersPtr conf all (all.drop i) i with
    | .resolved => exchangerPtr all
    | .ended => retryStartPtr
    | step => return step

/-- `next_dnsr_host`. -/
def nextDnsrHostPtr (conf : DeliverConf) : Rem NextHost := do
  match ← queryPtr conf with
  | .found =>
    let d ← get
    match d.dRetryCur with
    | some cd => retryNextPtr cd
    | none =>
      match d.dDnsrResult with
      | some r => hostPtr conf r
      | none => Faulty.fault
  | step => return step

/-- The end of `next_dnsr_host_lookup`. -/
def exhaustedPtr : Rem NextHost := do
  let d ← get
  match d.dDnsrResult with
  | none => return .exhausted
  | some r =>
    Faulty.update (Remote.freeResult r)
    modify fun d => { d with dDnsrResult := none }
    return .exhausted

/-- What `next_dnsr_host_lookup` makes of a step, with `next` for its next turn. -/
def lookupTurn (next : Rem NextHost) : NextHost → Rem NextHost
  | .found => do
    modify fun d => { d with dQueueMovement := false }
    return .found
  | .abort => return .abort
  | _ => do
    let d ← get
    match d.dDnsrResultIp with
    | some rip =>
      Faulty.update (Remote.freeResult rip)
      modify fun d => { d with dDnsrResultIp := none }
      next
    | none => exhaustedPtr

/-- The turns of `next_dnsr_host_lookup`; one that comes after the last counts as a fault. -/
def lookupTurns (conf : DeliverConf) : Nat → Rem NextHost
  | 0 => Faulty.fault
  | n + 1 => do lookupTurn (lookupTurns conf n) (← nextDnsrHostPtr conf)

/-- The number of answers at hand. -/
def Remote.answers (d : Remote) : Nat := ((d.dDnsrResult.bind d.results).getD []).length

/-- `next_dnsr_host_lookup`: each turn but the first has passed an answer. -/
def lookupPtr (conf : DeliverConf) : Rem NextHost := do
  let again := do
    let d ← get
    lookupTurns conf (d.answers + 1)
  lookupTurn again (← nextDnsrHostPtr conf)

/-! ## The loop of `deliver_remote` -/

/-- What a turn of the loop comes to: the function returns, or goes on; then `env_movement` goes with it. -/
inductive RemoteTry
  | ended (ret : DlvRet)
  | again (movement : Bool)
  deriving DecidableEq, Repr

/-- The DNS results of a host that bounces its mail; the pointers to them stay. -/
def freeResults : Rem PUnit := do
  let d ← get
  match d.dDnsrResultIp with
  | some rip =>
    Faulty.update (Remote.freeResult rip)
    match d.dDnsrResult with
    | some r => Faulty.update (Remote.freeResult r)
    | none => Faulty.fault
  | none =>
    match d.dDnsrResult with
    | some r => Faulty.update (Remote.freeResult r)
    | none => return ⟨⟩

/-- The label `smtp_cleanup`. -/
def cleanupPtr (movement : Bool) (ret : SmtpRet) : Rem RemoteTry := do
  if ret = .error then Rem.ask .smtpQuit
  modify fun d => { d with dSnetSmtp := false }
  let d ← get
  if d.hqStatus = .bounce then
    freeResults
    return .ended .done
  else if d.hqStatus = .down ∧ movement then
    modify fun d => { d with hqStatus := .mx }
    return .ended .done
  else if ← Rem.ask .lseek then return .again movement
  else return .ended .done

/-- A transaction over the connection. -/
def dialoguePtr (movement : Bool) : Rem RemoteTry := do
  if ← Rem.ask .lseek then
    let (ret, moved) ← Rem.ask .smtpSend
    if moved then
      modify fun d => { d with dQueueMovement := true }
      let _ ← Rem.ask .gettimeofday
    let d ← get
    match ret with
    | .ok =>
      match d.hqStatus with
      | .down =>
        modify fun d => { d with hqStatus := .mx }
        return .ended .done
      | .puntDown =>
        modify fun d => { d with hqStatus := .punt }
        return .ended .done
      | _ => return .ended .abort
    | .abort => return .ended .abort
    | ret => cleanupPtr (movement || moved) ret
  else return .ended .abort

/-- What becomes of a dialogue that has begun with `ret`. -/
def afterReply (movement : Bool) : SmtpRet → Rem RemoteTry
  | .ok => dialoguePtr movement
  | .abort => return .ended .abort
  | ret => cleanupPtr movement ret

/-- A connection to the host that was found. -/
def connectPtr (movement : Bool) : Rem RemoteTry := do
  if ← Rem.ask .socket then
    let d ← get
    if ← Rem.ask (.connect d.dSin.ip) then
      if ← Rem.ask .attach then
        modify fun d => { d with dSnetSmtp := true }
        let (ret, isRefused) ← Rem.ask .smtpConnect
        modify fun d => { d with hqStatus := if isRefused ∧ d.hqStatus = .down then .bounce else d.hqStatus }
        afterReply movement ret
      else return .again movement
    else return .again movement
  else return .again movement

/-- The body of the loop of `deliver_remote`. -/
def remoteTry (conf : DeliverConf) (movement : Bool) : Rem RemoteTry := do
  let d ← get
  if d.dSnetSmtp then
    let ret ← Rem.ask .smtpRset
    afterReply movement ret
  else
    match ← lookupPtr conf with
    | .found => connectPtr movement
    | .abort => return .ended .abort
    | _ => return .ended .done

/-- The loop of `deliver_remote`, for as many attempts as `n` says. -/
def remoteAttempts (conf : DeliverConf) : Nat → Bool → Rem DlvRet
  | 0, _ => return .running
  | n + 1, movement => do
    match ← remoteTry conf movement with
    | .ended ret => return ret
    | .again movement => remoteAttempts conf n movement

/-- `deliver_remote`. -/
def deliverRemotePtr (conf : DeliverConf) (n : Nat) : Rem DlvRet := do
  if ← Rem.ask .gettimeofday then
    let d ← get
    match d.hqStatus with
    | .mx =>
      modify fun d => { d with hqStatus := .down }
      remoteAttempts conf n false
    | .punt =>
      modify fun d => { d with hqStatus := .puntDown }
      remoteAttempts conf n false
    | _ => return .abort
  else return .done

end Simta
