import Simta.ExpAddr
import Simta.Lib.Chain
import Simta.Lib.World
import Simta.Mx
import Simta.StringAddress

/-!
# The expansion list

`struct expand` and `add_address`: the list of addresses that an expansion works through, with a cursor
on the address that is being expanded.  What the expansion asks of the outside (the alias databases, the
password files, the directory, the resolver, the disk) are operations of `Faulty`.

* `ExpOp`, `ExpandConf`, `Expand` — the operations, the configuration and the state;
* `bounceTextAt`, `addressBounceCreate` — the error envelopes;
* `addAddress` — an address comes onto the list, or is linked where it stands.
-/

set_option autoImplicit false

namespace Simta

/-! ## The directory server -/

/-- What `ldap_search_st` returns, as far as the callers tell the codes apart; `success` stands for
    `LDAP_SIZELIMIT_EXCEEDED` too. -/
inductive LdapRc
  | success
  | timelimit
  | filterError
  | noSuchObject
  | down
  | error
  deriving DecidableEq, Repr

/-- An entry: its distinguished name, if the library finds one, and the values of an attribute; an
    attribute that is there has a value, and `[]` is the `NULL` of one that is not. -/
structure LdapEntry where
  dn : Option Text
  values : Text → List Text

/-- The result of a search; there are no entries when the library cannot count them. -/
structure LdapResult where
  rc : LdapRc
  entries : Option (List LdapEntry)

/-- `LDS_USER`, `LDS_GROUP_ERRORS`, `LDS_GROUP_REQUEST`, `LDS_GROUP_OWNER`: the types that
    `simta_address_type` returns. -/
inductive LdsType
  | user
  | groupErrors
  | groupRequest
  | groupOwner
  deriving DecidableEq, Repr

/-- `struct ldap_search_list`: the number of the search, the types it is for, and whether a match of the
    relative name is preferred. -/
structure LdapSearch where
  lds : Nat
  ldsSearchType : List LdsType
  ldsRdnPref : Bool
  deriving DecidableEq, Repr

/-- `struct simta_ldap`, as far as the expansion reads it. -/
structure SimtaLdap where
  ldapSearches : List LdapSearch
  ldapPeople : Option (List Text)
  ldapGroups : Option (List Text)
  ldapVacationhost : Option Text
  ldapVacationattr : Option Text
  ldapMailfwdattr : Text
  ldapGmailfwdattr : Option Text
  ldapMailattr : Text
  ldapAssociatedDomain : Text
  ldapNdomain : Nat
  deriving DecidableEq, Repr

/-! ## The operations -/

/-- The handle of an alias database was there, or was opened now, or could not be opened. -/
inductive DbOpen
  | already
  | opened
  | failed
  deriving DecidableEq, Repr

/-- A `.forward` file: there is none (`EACCES`, `ENOENT`, `ENOTDIR`, `ELOOP`), it cannot be opened, or its
    text with whether it can be closed. -/
inductive Forward
  | missing
  | error
  | text (t : Text) (closed : Bool)
  deriving DecidableEq, Repr

/-- What an expansion asks of the outside.  `alloc` is any allocation but the copies of a new address and
    of its sender, which are `copy`; `envId` the clock and the allocations of `env_create`, `dbCursor` the
    values of a key with whether the cursor then fails; `ldapSearch` is the query that `simta_ldap_string`
    makes of a search, and `lseek` and `snetClose` are of the Dfile of the message. -/
inductive ExpOp
  | alloc
  | copy
  | envId
  | dnsMx (hostname : Text)
  | redAlloc
  | dbOpen (fname : Option Text)
  | dbCursor (fname : Option Text) (key : Text)
  | getpwnam (fname : Option Text) (user : Text)
  | forward (fname : Text)
  | ldapInit (action : Action)
  | ldapRetry (action : Action)
  | ldapSearch (action : Action) (search : LdapSearch) (addr domain : Text)
  | ldapDn (action : Action) (dn : Text)
  | file (op : FileOp)
  | queueEnvelope (id : Text)
  | queueRemove (id : Text)
  | lseek
  | snetClose
  deriving DecidableEq, Repr

/-- The answers. -/
abbrev ExpAns : ExpOp → Type
  | .envId => Option Text
  | .dnsMx _ => Option (List Rr)
  | .redAlloc => Nat → AddAlloc
  | .dbOpen _ => DbOpen
  | .dbCursor _ _ => List Text × Bool
  | .getpwnam _ _ => Option Text
  | .forward _ => Forward
  | .ldapSearch _ _ _ _ => LdapResult
  | .ldapDn _ _ => LdapResult
  | .file op => FileAns op
  | _ => Bool

/-- The globals that the expansion reads, and two functions of the directory library: the first component
    of a distinguished name, and the places of the entries whose first component is a name, as the loop
    that takes them out of a result comes to them. -/
structure ExpandConf extends MxConf, Conf where
  domain : Text
  defaultHost : Red
  expLevelMax : Int
  aLdap : Action → SimtaLdap
  ldapExplodeDn : Text → Text
  ldapRdnTaken : Text → List LdapEntry → List Nat

/-- An error envelope with its `e_error`. -/
structure ErrorEnv where
  env : Envelope
  eError : Bool
  deriving DecidableEq, Repr

/-- `struct expand`.  `expErrors` has the error envelopes in the order in which they were made, the list of
    the source starts with the last; `addrs` is the heap of addresses, of which those below `fresh` are
    allocated, and `hosts` is the host table. -/
structure Expand where
  expEnv : Envelope
  expAddrHead : Option Nat
  expAddrTail : Option Nat
  expAddrCursor : Option Nat
  expCurrentAction : Option Action
  expErrors : List ErrorEnv
  expMaxLevel : Int
  expEntries : Int
  expMemonly : List Nat
  expGmailfwding : List Nat
  addrs : AddrHeap
  fresh : Nat
  hosts : List Red

/-- An expansion; a fault is a call of `panic`, a failed assertion or an access through `NULL`. -/
abbrev ExpProg : Type → Type := Faulty Expand ExpOp ExpAns

namespace ExpProg

def ask (op : ExpOp) : ExpProg (ExpAns op) := Faulty.ask op

/-- The address behind a pointer. -/
def addr (e : Nat) : ExpProg ExpAddr := do return (← get).addrs e

/-- A write to an address. -/
def write (e : Nat) (f : ExpAddr → ExpAddr) : ExpProg Unit :=
  modify fun exp => { exp with addrs := exp.addrs.write e f }

def files {α : Type} (p : SpoolProg α) : ExpProg α := Faulty.lift (Prog.lift ExpOp.file (fun _ a => a) p)

end ExpProg

/-! ## The error envelopes -/

/-- `bounce_text` with its three texts joined; whether it returns 0. -/
def bounceTextAt (errors : Nat) (isError : Bool) (text : Text) : ExpProg Bool := do
  if isError then
    modify fun exp => { exp with expErrors := exp.expErrors.modify errors fun b => { b with eError := true } }
  if ← ExpProg.ask .alloc then
    modify fun exp => { exp with expErrors := exp.expErrors.modify errors fun b =>
      { b with env.eErrText := some (if isError then b.env.eErrText.getD [] ++ [text]
          else text :: b.env.eErrText.getD []) } }
    return true
  else return false

/-- `address_bounce_create`: the place of the new envelope. -/
def addressBounceCreate (conf : ExpandConf) : ExpProg (Option Nat) := do
  match ← ExpProg.ask .envId with
  | none => return none
  | some id =>
    let exp ← get
    set { exp with expErrors := exp.expErrors ++
      [({ env := envCreate conf.toConf .fast id (some []) (some exp.expEnv), eError := false } : ErrorEnv)] }
    return some exp.expErrors.length

/-- `env_recipient` on an error envelope. -/
def errorRecipient (errors : Nat) (addr : Text) : ExpProg Bool := do
  if ← ExpProg.ask .alloc then
    modify fun exp => { exp with expErrors := exp.expErrors.modify errors fun b =>
      { b with env := envRecipient b.env addr } }
    return true
  else return false

/-! ## The list -/

/-- The list of addresses. -/
def Expand.list (exp : Expand) : List Nat :=
  chain (fun e => (exp.addrs e).eAddrNext) exp.fresh exp.expAddrHead

/-- The search of `add_address` for an address that is on the list. -/
def Expand.find (exp : Expand) (addr : Text) : Option Nat :=
  exp.list.find? fun e => strcaseEq addr (exp.addrs e).eAddr

/-- The place of the `@` in an address; the outer `none` is the syntax error, the inner one is the `NULL`
    of an address without `@`. -/
def addressAt (addr : Text) : Option (Option Nat) :=
  if addr = [] ∨ strcaseEq stringPostmaster addr then some none
  else
    match tokenUser addr with
    | some (user, '@' :: _) => some (some user.length)
    | _ => none

/-- `simta_ldapdomain`: the last `ndomain` components of a host name. -/
def ldapDomain (ndomain : Nat) (buf : Text) : Text :=
  let rec go : Nat → Text → Text
    | _, [] => []
    | _, [c] => [c]
    | n, c :: rest => if c = '.' then if n = 0 then [] else c :: go (n - 1) rest else c :: go n rest
  (go (ndomain - 1) buf.reverse).reverse

/-- `simta_ldapuser`. -/
def ldapUser (ndomain : Nat) (buf : Text) : Text × Text :=
  match strchrAt buf with
  | some (user, domain) => (user, ldapDomain ndomain domain)
  | none => (buf, [])

/-- `simta_mbx_compare( … ) == 0`. -/
def mbxCompare (ndomain : Nat) (first second : Text) : Bool :=
  first ≠ [] && second ≠ [] && strcaseEq (ldapUser ndomain first).1 (ldapUser ndomain second).1 &&
    strcaseEq (ldapUser ndomain first).2 (ldapUser ndomain second).2

/-- Whether the rules of a host ask the directory. -/
def usesLdap (red : Red) : Bool := red.redExpand.any fun a => decide (a.aAction = .ldap)

/-- What `add_address` finds out of an e-mail address whose `@` is at `i`. -/
def emailFields (conf : ExpandConf) (exp : Expand) (i : Nat) (a : ExpAddr) : ExpAddr :=
  { a with
    eAddrAt := some i
    eAddrTryLdap := ((redLookupHost conf.red (a.eAddr.drop (i + 1)) exp.hosts).map usesLdap).getD false
    eAddrLdapFlags.emailSender := (exp.expEnv.eMail.map (mbxCompare 2 a.eAddr)).getD false }

/-- The insertion: in front of the list or behind the cursor for an address that the directory is asked
    about (`insertHead`), else at the end. -/
def insertAddress (insertHead : Bool) (a : ExpAddr) (exp : Expand) : Expand :=
  let e := exp.fresh
  let put (next : Option Nat) : Expand :=
    { exp with addrs := Function.update exp.addrs e { a with eAddrNext := next }, fresh := exp.fresh + 1 }
  match exp.expAddrTail with
  | none => { put none with expAddrHead := some e, expAddrTail := some e }
  | some tail =>
    if insertHead then
      match exp.expAddrCursor with
      | some c =>
        let next := (exp.addrs c).eAddrNext
        let exp' := put next
        { exp' with
          addrs := exp'.addrs.write c fun x => { x with eAddrNext := some e }
          expAddrTail := if next = none then some e else some tail }
      | none => { put exp.expAddrHead with expAddrHead := some e }
    else
      let exp' := put none
      { exp' with
        addrs := exp'.addrs.write tail fun x => { x with eAddrNext := some e }
        expAddrTail := some e }

/-- `exp_addr_link` on the parents of an address. -/
def linkParent (e : Nat) (parent : Option Nat) : ExpProg Bool := do
  if parent ∈ (← ExpProg.addr e).eAddrParents then return true
  else if ← ExpProg.ask .alloc then
    ExpProg.write e fun a => { a with eAddrParents := expAddrLink parent a.eAddrParents }
    return true
  else return false

/-- `exp_addr_link` on the children of an address. -/
def linkChild (e child : Nat) : ExpProg Bool := do
  if child ∈ (← ExpProg.addr e).eAddrChildren then return true
  else if ← ExpProg.ask .alloc then
    ExpProg.write e fun a => { a with eAddrChildren := expAddrLink child a.eAddrChildren }
    return true
  else return false

/-- The level of an address is one above that of the cursor. -/
def raiseLevel (e c : Nat) (exp : Expand) : Expand :=
  let level := (exp.addrs c).eAddrMaxLevel + 1
  { exp with
    addrs := exp.addrs.write e fun a => { a with eAddrMaxLevel := level }
    expMaxLevel := max exp.expMaxLevel level }

/-- The end of `add_address`: the links between the address and the cursor. -/
def linkAddress (e : Nat) : ExpProg Bool := do
  let cursor := (← get).expAddrCursor
  if ← linkParent e cursor then
    match cursor with
    | none => return true
    | some c =>
      modify (raiseLevel e c)
      linkChild c e
  else return false

/-- What `add_address` makes of a new address, and whether it goes to the front of what is to be expanded;
    `none` when its syntax is wrong. -/
def newAddress (conf : ExpandConf) (exp : Expand) (addr : Text) (errors : Nat) (addrType : AddressType)
    (origin : Text) : Option (Bool × ExpAddr) :=
  let a := ExpAddr.init addr addrType origin errors exp.expCurrentAction
  match addrType with
  | .email => (addressAt addr).map fun place =>
    match place with
    | none => (false, a)
    | some i => ((emailFields conf exp i a).eAddrTryLdap, emailFields conf exp i a)
  | _ => some (true, { a with eAddrTryLdap := true })

/-- The copies of the address and of its sender. -/
def copyAddress : ExpProg Bool := do
  if ← ExpProg.ask .copy then ExpProg.ask .copy
  else return false

/-- `add_address`; whether it returns 0.  The address counts as an entry before it is copied and read. -/
def addAddress (conf : ExpandConf) (addr : Text) (errors : Nat) (addrType : AddressType) (origin : Text) :
    ExpProg Bool := do
  match (← get).find addr with
  | some e => linkAddress e
  | none =>
    if ← ExpProg.ask .alloc then
      modify fun exp => { exp with expEntries := exp.expEntries + 1 }
      if ← copyAddress then
        if addrType = .dead then Faulty.fault
        else
          let exp ← get
          match newAddress conf exp addr errors addrType origin with
          | none => return false
          | some (insertHead, a) =>
            set (insertAddress insertHead a exp)
            linkAddress exp.fresh
      else return false
    else return false

end Simta
