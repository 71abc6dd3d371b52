import Simta.Ldap

/-!
# Expansion of one address

`address_expand` of `address.c`, with the rules that it follows: alias databases, password files with
their `.forward` files, and the directory.

* `aliasExpand`, `passwordExpand` — one rule;
* `expandRules`, `addressExpand` — the rules of the host of an address in turn.
-/

set_option autoImplicit false

namespace Simta

/-! ## Alias databases -/

/-- `ALIAS_NOT_FOUND`, `ALIAS_EXCLUDE`, `ALIAS_SYSERROR`. -/
inductive AliasReturn
  | notFound
  | exclude
  | syserror
  deriving DecidableEq, Repr

/-- `ALIAS_MAX_DOMAIN_LEN`. -/
def aliasMaxDomainLen : Nat := 1024

/-- The local part that a rule looks up; without a domain it is the postmaster. -/
def lookupName (a : ExpAddr) : Text :=
  match a.eAddrAt with
  | some i => a.eAddr.take i
  | none => stringPostmaster

/-- The values of a key onto the list. -/
def aliasValues (conf : ExpandConf) (e : Nat) : List Text → ExpProg Bool
  | [] => return true
  | value :: rest => do
    if ← ExpProg.ask .alloc then
      match correctEmailaddr conf.domain value with
      | none => aliasValues conf e rest
      | some addr =>
        let corrected ← (if addr = value then pure true else ExpProg.ask .alloc)
        if corrected then
          let a ← ExpProg.addr e
          if ← addAddress conf addr a.eAddrErrors .email a.eAddrFrom then aliasValues conf e rest
          else return false
        else return false
    else return false

/-- `alias_expand`.  For a local part that is too long the result is that of the opening of the database;
    if it was opened now this is no code, and the caller panics. -/
def aliasExpand (conf : ExpandConf) (e : Nat) (action : Action) : ExpProg AliasReturn := do
  match ← ExpProg.ask (.dbOpen action.aFname) with
  | .failed => return .notFound
  | opening =>
    let a ← ExpProg.addr e
    if a.eAddrAt.any (aliasMaxDomainLen < ·) then
      if opening = .opened then Faulty.fault else return .notFound
    else
      match ← ExpProg.ask (.dbCursor action.aFname (lookupName a)) with
      | ([], failed) => if failed then return .syserror else return .notFound
      | (values, failed) =>
        if ← aliasValues conf e values then
          if failed then return .syserror else return .exclude
        else return .syserror

/-! ## Password files -/

/-- `PASSWORD_NOT_FOUND`, `PASSWORD_EXCLUDE`, `PASSWORD_SYSERROR`, `PASSWORD_FINAL`. -/
inductive PasswordReturn
  | notFound
  | exclude
  | syserror
  | final
  deriving DecidableEq, Repr

/-- `MAXPATHLEN`. -/
def maxPathLen : Nat := 4096

/-- `fgets` with room for `n` characters. -/
def fgets : Nat → Text → Text × Text
  | 0, rest => ([], rest)
  | _, [] => ([], [])
  | n + 1, c :: rest => if c = '\n' then ([c], rest) else (c :: (fgets n rest).1, (fgets n rest).2)

/-- The lines of a `.forward` file that end within the buffer of 1024 bytes; there are no more of them
    than characters. -/
def forwardLines : Nat → Text → List Text
  | 0, _ => []
  | fuel + 1, text =>
    let (line, rest) := fgets 1023 text
    if line = [] then []
    else if line.getLast? = some '\n' then line.dropLast :: forwardLines fuel rest
    else forwardLines fuel rest

/-- The addresses of the lines onto the list. -/
def forwardRecipients (conf : ExpandConf) (e : Nat) : List Text → ExpProg Bool
  | [] => return true
  | line :: rest => do
    if ← addressStringRecipients conf line e (← ExpProg.addr e).eAddrFrom then forwardRecipients conf e rest
    else return false

/-- The text of a `.forward` file; a file without a line that can be read leaves the address as it is. -/
def forwardText (conf : ExpandConf) (e : Nat) (t : Text) (closed : Bool) : ExpProg PasswordReturn := do
  if (← forwardRecipients conf e (forwardLines t.length t)) && closed then
    if forwardLines t.length t = [] then return .final else return .exclude
  else return .syserror

/-- The `.forward` file of a home directory. -/
def forwardName (pwDir : Text) : Text := pwDir ++ "/.forward".toList

/-- `password_expand`. -/
def passwordExpand (conf : ExpandConf) (e : Nat) (action : Action) : ExpProg PasswordReturn := do
  let a ← ExpProg.addr e
  match ← ExpProg.ask (.getpwnam action.aFname (lookupName a)) with
  | none => return .notFound
  | some pwDir =>
    if maxPathLen ≤ (forwardName pwDir).length then return .final
    else
      match ← ExpProg.ask (.forward (forwardName pwDir)) with
      | .missing => return .final
      | .error => return .syserror
      | .text t closed => forwardText conf e t closed

/-! ## The rules -/

/-- `ADDRESS_FINAL`, `ADDRESS_EXCLUDE`, `ADDRESS_SYSERROR`. -/
inductive AddressReturn
  | final
  | exclude
  | syserror
  deriving DecidableEq, Repr

/-- The end of `address_expand`: no rule has found the address. -/
def addressNotFound (e : Nat) : ExpProg AddressReturn := do
  let a ← ExpProg.addr e
  if a.eAddrAt = none ∨ strcaseEq (lookupName a) stringPostmaster then
    ExpProg.write e fun a => { a with eAddrType := .dead }
    return .final
  else if ← bounceAddr e true ("address not found: ".toList ++ a.eAddr) then return .exclude
  else return .syserror

/-- One rule; `none` when the next one is tried. -/
def expandRule (conf : ExpandConf) (e : Nat) (action : Action) : ExpProg (Option AddressReturn) := do
  match action.aAction with
  | .alias =>
    match ← aliasExpand conf e action with
    | .exclude => return some .exclude
    | .notFound => return none
    | .syserror => return some .syserror
  | .password =>
    match ← passwordExpand conf e action with
    | .exclude => return some .exclude
    | .final => return some .final
    | .notFound => return none
    | .syserror => return some .syserror
  | .ldap =>
    if (← ExpProg.addr e).eAddrAt = none then return none
    else
      match ← ldapExpand conf action e with
      | .exclude => return some .exclude
      | .final => return some .final
      | .notFound => return none
      | .syserror => return some .syserror

/-- `exp->exp_current_action`. -/
def atAction (action : Option Action) : ExpProg Unit :=
  modify fun exp => { exp with expCurrentAction := action }

/-- The rules of a host in turn. -/
def expandRules (conf : ExpandConf) (e : Nat) : List Action → ExpProg AddressReturn
  | [] => do
    atAction none
    addressNotFound e
  | action :: rest => do
    atAction (some action)
    match ← expandRule conf e action with
    | some ret => return ret
    | none => expandRules conf e rest

/-- `host_local` with its answer from the resolver, when the table does not have the host. -/
def expandHostLocal (conf : ExpandConf) (hostname : Text) : ExpProg (Option Red) := do
  let exp ← get
  match redLookupHost conf.red hostname exp.hosts with
  | some red => return some red
  | none =>
    let alloc ← ExpProg.ask .redAlloc
    let result ← ExpProg.ask (.dnsMx hostname)
    let t := hostLocal conf.toMxConf alloc (result.map createResult) hostname exp.hosts
    set { exp with hosts := t.2 }
    match t.1 with
    | .table red => return some red
    | _ => return none

/-- A distinguished name, which only the directory that it came from is asked about. -/
def expandLdap (conf : ExpandConf) (e : Nat) : ExpProg AddressReturn := do
  let a ← ExpProg.addr e
  atAction a.eAddrParentAction
  match a.eAddrParentAction with
  | none => Faulty.fault
  | some action =>
    match ← ldapExpand conf action e with
    | .exclude => return .exclude
    | .final => return .final
    | .notFound => addressNotFound e
    | .syserror => return .syserror

/-- An address whose domain is `host`. -/
def expandHost (conf : ExpandConf) (e : Nat) (host : Text) : ExpProg AddressReturn := do
  if simtaMaxHostNameLen < host.length then return .syserror
  else
    match ← expandHostLocal conf host with
    | none => return .final
    | some red =>
      if red.redHostType = .secondaryMx ∨ red.redExpand = [] then return .final
      else expandRules conf e red.redExpand

/-- `address_expand`. -/
def addressExpand (conf : ExpandConf) (e : Nat) : ExpProg AddressReturn := do
  let a ← ExpProg.addr e
  match a.eAddrType with
  | .email =>
    match a.eAddrAt with
    | none => expandRules conf e conf.defaultHost.redExpand
    | some i => expandHost conf e (a.eAddr.drop (i + 1))
  | .ldap => expandLdap conf e
  | .dead => Faulty.fault

end Simta
