import Simta.Expand

/-!
# Expansion by the directory

`simta_ldap_expand` of `simta_ldap.c`: an address is looked up in the directory, or the entry of a
distinguished name is read, and what the entry says comes onto the expansion list.

* `dnNormalizeCase` — the form in which distinguished names are compared;
* `addressStringRecipients` — the addresses of a line;
* `ldapExpandGroup`, `ldapProcessEntry` — a group, and any entry;
* `ldapNameSearch`, `ldapDnExpand`, `ldapExpand` — the two ways to an entry.
-/

set_option autoImplicit false

namespace Simta

/-! ## Distinguished names -/

/-- The states of `dn_normalize`. -/
inductive DnState
  | b4type
  | intype
  | b4equal
  | b4value
  | invalue
  | inquotedvalue
  | b4separator
  deriving DecidableEq, Repr

def dnSeparator (c : Char) : Bool := c = ',' || c = ';' || c = '+'
def dnSpace (c : Char) : Bool := c = ' ' || c = '\n'
def dnNeedsescape (c : Char) : Bool := c = '\\' || c = '"'

/-- One character of `dn_normalize`; `out` is what is written so far, the last character first. -/
def dnStep (state : DnState) (gotesc : Bool) (s : Char) (out : Text) : DnState × Text :=
  match state with
  | .b4type => if dnSpace s then (.b4type, out) else (.intype, s :: out)
  | .intype => if s = '=' then (.b4value, s :: out) else if dnSpace s then (.b4equal, out) else (.intype, s :: out)
  | .b4equal => if s = '=' then (.b4value, s :: out) else if dnSpace s then (.b4equal, out) else (.b4equal, s :: out)
  | .b4value =>
    if s = '"' then (.inquotedvalue, s :: out)
    else if dnSpace s then (.b4value, out) else (.invalue, s :: out)
  | .invalue =>
    if ¬ gotesc ∧ dnSeparator s then (.b4type, (if s = '+' then '+' else ',') :: out.dropWhile dnSpace)
    else if gotesc ∧ ¬ dnNeedsescape s ∧ ¬ dnSeparator s then (.invalue, s :: out.tail)
    else (.invalue, s :: out)
  | .inquotedvalue =>
    if ¬ gotesc ∧ s = '"' then (.b4separator, s :: out)
    else if gotesc ∧ ¬ dnNeedsescape s then (.inquotedvalue, s :: out.tail)
    else (.inquotedvalue, s :: out)
  | .b4separator => if dnSeparator s then (.b4type, s :: out) else (.b4separator, out)

def dnNormalizeFrom : DnState → Bool → Text → Text → Text
  | _, _, out, [] => out.reverse
  | state, gotesc, out, s :: rest =>
    dnNormalizeFrom (dnStep state gotesc s out).1 (s = '\\') (dnStep state gotesc s out).2 rest

/-- `dn_normalize`. -/
def dnNormalize (dn : Text) : Text := dnNormalizeFrom .b4type false [] dn

/-- `dn_normalize_case`. -/
def dnNormalizeCase (dn : Text) : Text := (dnNormalize dn).map Char.toLower

/-- `ll_insert` in the order of `strcmp`. -/
def llInsert (key : Text) : List Text → List Text
  | [] => [key]
  | k :: rest => if key < k then key :: k :: rest else k :: llInsert key rest

/-! ## Entries -/

/-- `strcasecmp( vals[ 0 ], text ) == 0` of an attribute that is there. -/
def LdapEntry.firstIs (entry : LdapEntry) (attr text : Text) : Bool :=
  (entry.values attr).head?.any (strcaseEq · text)

/-- `simta_ldap_value( … ) == 1` with a list that is set. -/
def LdapEntry.isA (entry : LdapEntry) (master : Option (List Text)) : Bool :=
  master.any fun classes => (entry.values "objectClass".toList).any fun v => classes.any (strcaseEq v ·)

/-- The characters `.` and `_` of a name stand for blanks. -/
def undotted (name : Text) : Text := name.map fun c => if c = '.' ∨ c = '_' then ' ' else c

/-- The blanks of a relative name become dots. -/
def dotted (name : Text) : Text := name.map fun c => if c = ' ' then '.' else c

/-- What `simta_ldap_dequote` finds behind the quote. -/
def dequoteFrom : Text → Option Text
  | [] => none
  | '"' :: _ => some []
  | '\\' :: [] => none
  | '\\' :: c :: rest => (dequoteFrom rest).map (c :: ·)
  | c :: rest => (dequoteFrom rest).map (c :: ·)

/-- `simta_ldap_dequote`. -/
def ldapDequote (name : Text) : ExpProg (Option Text) := do
  match name with
  | '"' :: rest => if ← ExpProg.ask .alloc then return dequoteFrom rest else return none
  | _ => return none

/-- `simta_address_type`: the type, and the name without its ending. -/
def addressType (address : Text) : LdsType × Text :=
  let ending := (address.reverse.takeWhile (· ≠ '-')).reverse
  let name := address.take (address.length - ending.length - 1)
  if '-' ∉ address then (.user, address)
  else if strcaseEq ending "error".toList ∨ strcaseEq ending "errors".toList then (.groupErrors, name)
  else if strcaseEq ending "request".toList ∨ strcaseEq ending "requests".toList then (.groupRequest, name)
  else if strcaseEq ending "owner".toList ∨ strcaseEq ending "owners".toList then (.groupOwner, name)
  else (.user, address)

/-- The address that a relative name gives with an ending. -/
def groupAddress (ldap : SimtaLdap) (rdn : Text) (ending : Text) : Text :=
  dotted (rdn ++ ending ++ ldap.ldapAssociatedDomain)

/-! ## Addresses and texts -/

/-- `bounce_text( e_addr->e_addr_errors, … )`. -/
def bounceAddr (e : Nat) (isError : Bool) (text : Text) : ExpProg Bool := do
  bounceTextAt (← ExpProg.addr e).eAddrErrors isError text

/-- The texts in turn, up to one that cannot be kept. -/
def bounceTexts (e : Nat) : List Text → ExpProg Bool
  | [] => return true
  | text :: rest => do
    if ← bounceAddr e true text then bounceTexts e rest
    else return false

/-- The addresses of a line onto the list. -/
def addressStringsAdd (conf : ExpandConf) (e : Nat) (origin : Text) : List Text → ExpProg Bool
  | [] => return true
  | addr :: rest => do
    if isEmailaddr addr then
      if ← addAddress conf addr (← ExpProg.addr e).eAddrErrors .email origin then
        addressStringsAdd conf e origin rest
      else return false
    else addressStringsAdd conf e origin rest

/-- `address_string_recipients`; whether it returns 0. -/
def addressStringRecipients (conf : ExpandConf) (line : Text) (e : Nat) (origin : Text) : ExpProg Bool :=
  addressStringsAdd conf e origin (addressStrings line)

/-- What `string_address_parse` gives of a text, up to the first that is no address. -/
def stringAddresses (text : Text) : List Text := (addressStrings text).takeWhile isEmailaddr

def envRecipients : List Text → Envelope → ExpProg (Option Envelope)
  | [], env => return some env
  | addr :: rest, env => do
    if ← ExpProg.ask .alloc then envRecipients rest (envRecipient env addr)
    else return none

/-- `env_string_recipients` for each value in turn. -/
def envStringRecipients : List Text → Envelope → ExpProg (Option Envelope)
  | [], env => return some env
  | line :: rest, env => do
    if ← ExpProg.ask .alloc then
      match ← envRecipients (stringAddresses line) env with
      | some env => envStringRecipients rest env
      | none => return none
    else return none

/-! ## Groups -/

/-- The codes of `simta_ldap_expand`. -/
inductive LdapReturn
  | syserror
  | exclude
  | final
  | notFound
  deriving DecidableEq, Repr

/-- The distinguished name of a group is kept, in its normal form, if there is none yet; the copy is not
    checked.  The result is the name that the function goes on with. -/
def groupDn (e : Nat) (dn : Text) : ExpProg Text := do
  if (← ExpProg.addr e).eAddrDn = none then
    let copied ← ExpProg.ask .alloc
    if copied then ExpProg.write e fun a => { a with eAddrDn := some (dnNormalizeCase dn) }
    return dnNormalizeCase dn
  else return dn

/-- The owner of a group. -/
def groupOwner (ldap : SimtaLdap) (e : Nat) (rdn : Text) : ExpProg Bool := do
  if ← ExpProg.ask .alloc then
    ExpProg.write e fun a => { a with eAddrOwner := some (groupAddress ldap rdn "-owner@".toList) }
    return true
  else return false

/-- The sender of a group is not an address: it is the null sender. -/
def groupNullSender (rdn : Text) (errors : Nat) : ExpProg (Option Text) := do
  if ← ExpProg.ask .alloc then
    let _ ← bounceTextAt errors false ("Illegal email group name: ".toList ++ rdn)
    return some []
  else return none

/-- The sender that the members of a group get, and the error envelope of the group, unless the address
    has the null sender; `none` is a system error. -/
def groupSender (conf : ExpandConf) (ldap : SimtaLdap) (e : Nat) (rdn : Text) : ExpProg (Option Text) := do
  if (← ExpProg.addr e).eAddrFrom = [] then return some []
  else if ← ExpProg.ask .alloc then
    match ← addressBounceCreate conf with
    | none => return none
    | some errors =>
      ExpProg.write e fun a => { a with eAddrErrors := errors }
      let senderbuf := groupAddress ldap rdn "-errors@".toList
      match ← (if isEmailaddr senderbuf then pure (some senderbuf) else groupNullSender rdn errors) with
      | none => return none
      | some senderbuf => if ← errorRecipient errors senderbuf then return some senderbuf else return none
  else return none

/-- What the `default` case of a group comes to at one of its parts: the next part follows, the case is
    left, or there is a system error. -/
inductive GroupPart (α : Type)
  | next (a : α)
  | leave
  | syserror

/-- `env_create( simta_dir_fast, NULL, mail, exp->exp_env )` with the recipients of the values. -/
def groupEnvelope (conf : ExpandConf) (mail : Option Text) (values : List Text) : ExpProg (Option Envelope) := do
  match ← ExpProg.ask .envId with
  | none => return none
  | some id =>
    let parent := (← get).expEnv
    envStringRecipients values (envCreate conf.toConf .fast id mail (some parent))

/-- Group mail forwarding; the result says whether `r` points to a recipient.  Without a recipient the
    envelope is freed, and the list of such envelopes is then written through the `NULL`. -/
def groupForward (conf : ExpandConf) (ldap : SimtaLdap) (e : Nat) (entry : LdapEntry) (dn : Text) :
    ExpProg (GroupPart Bool) := do
  match ldap.ldapGmailfwdattr.map entry.values with
  | none | some [] => return .next false
  | some values =>
    if (← get).expEnv.eNExpLevel < conf.expLevelMax then
      match ← groupEnvelope conf (some (← ExpProg.addr e).eAddrFrom) values with
      | none => return .syserror
      | some env =>
        if env.eRcpt = [] then
          let _ ← bounceAddr e true ("bad group mail forwarding: ".toList ++ dn)
          Faulty.fault
        else
          ExpProg.write e fun a => { a with eAddrEnvGmailfwd := some env }
          modify fun exp => { exp with expGmailfwding := e :: exp.expGmailfwding }
          return .next true
    else
      let _ ← bounceAddr e true ("group mail audit loop: ".toList ++ dn)
      return .leave

/-- Whether the sender of the message is a permitted sender; `none` is a system error. -/
def groupPermittedSender (ldap : SimtaLdap) (mail : Text) : List Text → ExpProg (Option Bool)
  | [] => return some false
  | value :: rest => do
    if ← ExpProg.ask .alloc then
      if (stringAddresses value).any fun a => mbxCompare ldap.ldapNdomain a mail then return some true
      else groupPermittedSender ldap mail rest
    else return none

/-- `permitted_sender` and `mo_group`. -/
def groupMembersonly (ldap : SimtaLdap) (entry : LdapEntry) : ExpProg (Option (Bool × Bool)) := do
  if entry.firstIs "membersonly".toList "TRUE".toList then
    match (← get).expEnv.eMail with
    | none | some [] => return some (false, true)
    | some mail =>
      match ← groupPermittedSender ldap mail (entry.values "permitted_sender".toList) with
      | none => return none
      | some permitted => return some (permitted, !permitted)
  else return some (false, false)

/-- The moderators of a group: whether `r` points to a recipient, and `moderator_error`. -/
def groupModerator (conf : ExpandConf) (ldap : SimtaLdap) (e : Nat) (entry : LdapEntry) (dn : Text)
    (r : Bool) : ExpProg (GroupPart (Bool × Bool)) := do
  match entry.values "moderator".toList with
  | [] => return .next (r, false)
  | values =>
    if (← get).expEnv.eNExpLevel < conf.expLevelMax then
      let mail := (← get).expEnv.eMail
      match ← groupEnvelope conf mail values with
      | none => return .syserror
      | some env =>
        if env.eRcpt = [] then
          let _ ← bounceAddr e true ("bad moderator: ".toList ++ dn)
          return .next (false, true)
        else
          ExpProg.write e fun a => { a with eAddrEnvModerated := some env }
          return .next (env.eRcpt.any fun x => (mail.map (mbxCompare ldap.ldapNdomain x.rRcpt)).getD false, false)
    else
      let _ ← bounceAddr e true ("moderator mail loop: ".toList ++ dn)
      return .leave

/-- `exp_addr_link( &(exp->exp_memonly), e_addr )`. -/
def linkMemonly (e : Nat) : ExpProg Bool := do
  if e ∈ (← get).expMemonly then return true
  else if ← ExpProg.ask .alloc then
    modify fun exp => { exp with expMemonly := expAddrLink e exp.expMemonly }
    return true
  else return false

/-- `permitted_create`: the permitted groups, in the form in which the names of groups are kept. -/
def permittedCreate (e : Nat) : List Text → ExpProg Bool
  | [] => return true
  | group :: rest => do
    if ← ExpProg.ask .alloc then
      if ← ExpProg.ask .alloc then
        ExpProg.write e fun a => { a with eAddrOk := llInsert (dnNormalizeCase group) a.eAddrOk }
        permittedCreate e rest
      else return false
    else return false

/-- `STATUS_LDAP_MEMONLY` and `STATUS_LDAP_PRIVATE` of a group. -/
def groupFlags (e : Nat) (entry : LdapEntry) : ExpProg Unit :=
  ExpProg.write e fun a => { a with
    eAddrLdapFlags.ldapMemonly := true
    eAddrLdapFlags.ldapPrivate :=
      a.eAddrLdapFlags.ldapPrivate || entry.firstIs "rfc822private".toList "TRUE".toList }

/-- The group is for its members only. -/
def groupClose (e : Nat) (entry : LdapEntry) : ExpProg Bool := do
  groupFlags e entry
  if ← linkMemonly e then permittedCreate e (entry.values "permittedgroup".toList)
  else return false

/-- The part of a group that its moderators and its members decide on. -/
def groupRestrict (e : Nat) (entry : LdapEntry) (r memonly : Bool) : ExpProg Bool := do
  if r then
    ExpProg.write e fun a => { a with eAddrEnvModerated := none }
    return true
  else if memonly then groupClose e entry
  else return true

/-- `suppressNoEmailError` of a group. -/
def groupSuppress (e : Nat) (entry : LdapEntry) : ExpProg Unit := do
  if entry.firstIs "suppressNoEmailError".toList "TRUE".toList then
    let errors := (← ExpProg.addr e).eAddrErrors
    modify fun exp => { exp with
      expErrors := exp.expErrors.modify errors fun b => { b with env.eFlags.supressNoEmail := true } }

/-- The members of a group and their addresses, unless its moderators get the message. -/
def groupLists (e : Nat) (entry : LdapEntry) (moderatorError : Bool) : ExpProg (List Text × List Text) := do
  let a ← ExpProg.addr e
  groupSuppress e entry
  if (a.eAddrEnvModerated = none ∧ ¬ moderatorError) ∨ a.eAddrLdapFlags.ldapMemonly then
    return (entry.values "member".toList, entry.values "rfc822mail".toList)
  else return ([], [])

/-- The moderators, the restrictions and the lists of a group; `mo` has `permitted_sender` and `mo_group`. -/
def groupRestricted (conf : ExpandConf) (ldap : SimtaLdap) (e : Nat) (entry : LdapEntry) (dn : Text)
    (r : Bool) (mo : Bool × Bool) : ExpProg (Option (List Text × List Text)) := do
  match ← (if mo.1 then pure (.next (r, false)) else groupModerator conf ldap e entry dn r) with
  | .syserror => return none
  | .leave => return some ([], [])
  | .next (r, moderatorError) =>
    if ← groupRestrict e entry r (mo.2 && !mo.1) then return some (← groupLists e entry moderatorError)
    else return none

/-- The `default` case of a group. -/
def groupDefault (conf : ExpandConf) (ldap : SimtaLdap) (e : Nat) (entry : LdapEntry) (dn : Text) :
    ExpProg (Option (List Text × List Text)) := do
  match ← groupForward conf ldap e entry dn with
  | .syserror => return none
  | .leave => return some ([], [])
  | .next r =>
    match ← groupMembersonly ldap entry with
    | none => return none
    | some mo => groupRestricted conf ldap e entry dn r mo

/-- The attributes of the other cases of a group: the names, the addresses, and the error if both are
    missing. -/
def groupAttributes (entry : LdapEntry) : LdsType → List Text × List Text × Option Text
  | .groupErrors =>
    let dnvals := entry.values "errorsto".toList
    let mailvals := entry.values "rfc822errorsto".toList
    (if dnvals = [] ∧ mailvals = [] then entry.values "owner".toList else dnvals, mailvals,
      some ": Group exists but has no errors-to address\n".toList)
  | .groupRequest =>
    let dnvals := entry.values "requeststo".toList
    let mailvals := entry.values "rfc822requeststo".toList
    (if dnvals = [] ∧ mailvals = [] then entry.values "owner".toList else dnvals, mailvals,
      some ": Group exists but has no requests-to address\n".toList)
  | .groupOwner => (entry.values "owner".toList, [], some ": Group exists but has no owners\n".toList)
  | .user => ([], [], none)

/-- The names onto the list, up to one that cannot be added. -/
def groupNames (conf : ExpandConf) (e : Nat) (origin : Text) : List Text → ExpProg Unit
  | [] => return
  | dn :: rest => do
    if ← addAddress conf (dnNormalizeCase dn) (← ExpProg.addr e).eAddrErrors .ldap origin then
      groupNames conf e origin rest
    else return

/-- The addresses onto the list, up to a value that cannot be added. -/
def groupMails (conf : ExpandConf) (e : Nat) (origin : Text) : List Text → ExpProg Unit
  | [] => return
  | value :: rest => do
    if '@' ∈ value then
      if ← addressStringRecipients conf value e origin then groupMails conf e origin rest
      else return
    else groupMails conf e origin rest

/-- The end of `simta_ldap_expand_group`. -/
def groupMembers (conf : ExpandConf) (e : Nat) (origin dn : Text) (dnvals mailvals : List Text)
    (errmsg : Option Text) : ExpProg LdapReturn := do
  groupNames conf e origin dnvals
  groupMails conf e origin mailvals
  if dnvals = [] ∧ mailvals = [] then
    let _ ← bounceTexts e (errmsg.toList.map (dn ++ ·))
    return .exclude
  else return .exclude

/-- The lists of a group of any type. -/
def groupMatter (conf : ExpandConf) (ldap : SimtaLdap) (e : Nat) (type : LdsType) (entry : LdapEntry)
    (dn : Text) : ExpProg (Option (List Text × List Text)) :=
  match type with
  | .user => groupDefault conf ldap e entry dn
  | _ => pure (some ((groupAttributes entry type).1, (groupAttributes entry type).2.1))

/-- `simta_ldap_expand_group`. -/
def ldapExpandGroup (conf : ExpandConf) (ldap : SimtaLdap) (e : Nat) (type : LdsType) (entry : LdapEntry) :
    ExpProg LdapReturn := do
  match entry.dn with
  | none => return .syserror
  | some dn =>
    let dn ← groupDn e dn
    let rdn := conf.ldapExplodeDn dn
    if ← groupOwner ldap e rdn then
      match ← groupSender conf ldap e rdn with
      | none => return .syserror
      | some senderbuf =>
        match ← groupMatter conf ldap e type entry dn with
        | none => return .syserror
        | some (dnvals, mailvals) =>
          let eAddrFrom := (← ExpProg.addr e).eAddrFrom
          let origin := if type = .user then senderbuf else eAddrFrom
          groupMembers conf e origin dn dnvals mailvals (groupAttributes entry type).2.2
    else return .syserror

/-! ## Entries of people -/

/-- The name of an entry in a bounce. -/
def entryName (conf : ExpandConf) (addr dn : Text) (entry : LdapEntry) : Text :=
  let rdn := conf.ldapExplodeDn dn
  if strcaseEq rdn addr then (entry.values "cn".toList).headD rdn else rdn

/-- The texts of `do_ambiguous` for an entry. -/
def ambiguousTexts (conf : ExpandConf) (ldap : SimtaLdap) (addr dn : Text) (entry : LdapEntry) : List Text :=
  let vals := entry.values (if entry.isA ldap.ldapGroups then "description".toList else "title".toList)
  match vals with
  | [] => [entryName conf addr dn entry]
  | v :: rest => (entryName conf addr dn entry ++ '\t' :: v) :: rest.map ("\t\t".toList ++ ·)

/-- The loop of `do_ambiguous`; an entry has a name. -/
def ambiguousEntries (conf : ExpandConf) (ldap : SimtaLdap) (e : Nat) (addr : Text) : List LdapEntry → ExpProg Unit
  | [] => return
  | entry :: rest => do
    match entry.dn with
    | none => Faulty.fault
    | some dn =>
      if ← bounceTexts e (ambiguousTexts conf ldap addr dn entry) then ambiguousEntries conf ldap e addr rest
      else return

/-- `do_ambiguous`. -/
def doAmbiguous (conf : ExpandConf) (ldap : SimtaLdap) (e : Nat) (addr : Text) (res : List LdapEntry) :
    ExpProg LdapReturn := do
  if ← bounceAddr e true (addr ++ ": Ambiguous user".toList) then
    ambiguousEntries conf ldap e addr res
    return .exclude
  else return .exclude

/-- The values of an attribute, each behind a tab, or a text instead of them. -/
def tabbed (vals : List Text) (instead : Text) : List Text :=
  if vals = [] then ['\t' :: instead] else vals.map ('\t' :: ·)

/-- The lines of a postal address. -/
def postalLines (address : Text) : List Text := (address.splitOn '$').filter (· ≠ [])

/-- The texts of `do_noemail`. -/
def noemailTexts (conf : ExpandConf) (addr dn : Text) (entry : LdapEntry) : List Text :=
  let title := entry.values "title".toList
  let postal := entry.values "postaladdress".toList
  [addr ++ ": User has no email address registered.\n".toList,
    "\tName, title, postal address and phone for: ".toList ++ addr,
    '\t' :: entryName conf addr dn entry] ++
  tabbed (if title = [] then entry.values "description".toList else title)
    "No title or description registered".toList ++
  (match postal with
    | [] => ["\tNo postaladdress registered".toList]
    | address :: _ => (postalLines address).map ('\t' :: ·)) ++
  tabbed (entry.values "telephoneNumber".toList) "No phone number registered".toList

/-- `do_noemail`. -/
def doNoemail (conf : ExpandConf) (e : Nat) (addr : Text) (entry : LdapEntry) : ExpProg LdapReturn := do
  match entry.dn with
  | none => Faulty.fault
  | some dn =>
    let _ ← bounceTexts e (noemailTexts conf addr dn entry)
    return .exclude

/-- A person without a forwarding address. -/
def processNoForward (conf : ExpandConf) (e : Nat) (addr : Text) (entry : LdapEntry) : ExpProg LdapReturn := do
  let a ← ExpProg.addr e
  if a.eAddrType ≠ .ldap then doNoemail conf e addr entry
  else
    match (← get).expErrors[a.eAddrErrors]? with
    | none => Faulty.fault
    | some errors =>
      if errors.env.eFlags.supressNoEmail then return .exclude
      else if ← bounceAddr e true
        (addr ++ " : Group member exists but does not have an email address\n".toList) then return .exclude
      else return .syserror

/-- The values of the forwarding attribute in turn. -/
def processForwards (conf : ExpandConf) (e : Nat) : List Text → ExpProg Bool
  | [] => return true
  | value :: rest => do
    if ← addressStringRecipients conf value e (← ExpProg.addr e).eAddrFrom then processForwards conf e rest
    else return false

/-- Whether the entry is that of the sender. -/
def processSender (ldap : SimtaLdap) (e : Nat) (entry : LdapEntry) : ExpProg Unit := do
  let exp ← get
  match entry.values ldap.ldapMailattr, exp.expEnv.eMail with
  | value :: _, some mail =>
    if mbxCompare ldap.ldapNdomain value mail then
      ExpProg.write e fun a => { a with eAddrLdapFlags.emailSender := true }
  | _, _ => return

/-- The address at the vacation server, for a person who is on vacation. -/
def vacationAddress (ldap : SimtaLdap) (entry : LdapEntry) : Option Text :=
  match ldap.ldapVacationhost, ldap.ldapVacationattr with
  | some host, some attr =>
    if entry.firstIs attr "TRUE".toList then
      (entry.values "uid".toList).head?.map fun uid => (uid ++ '@' :: host).take 1023
    else none
  | _, _ => none

/-- The copy for the vacation server; a failure is only logged. -/
def processVacation (conf : ExpandConf) (ldap : SimtaLdap) (e : Nat) (entry : LdapEntry) : ExpProg LdapReturn := do
  match vacationAddress ldap entry with
  | none => return .exclude
  | some buf =>
    let a ← ExpProg.addr e
    let _ ← addAddress conf buf a.eAddrErrors .email a.eAddrFrom
    return .exclude

/-- A person. -/
def processPerson (conf : ExpandConf) (ldap : SimtaLdap) (e : Nat) (entry : LdapEntry) (addr : Text) :
    ExpProg LdapReturn := do
  match entry.values ldap.ldapMailfwdattr with
  | [] => processNoForward conf e addr entry
  | values =>
    if ← processForwards conf e values then
      processSender ldap e entry
      processVacation conf ldap e entry
    else return .syserror

/-- `simta_ldap_process_entry`. -/
def ldapProcessEntry (conf : ExpandConf) (ldap : SimtaLdap) (e : Nat) (type : LdsType) (entry : LdapEntry)
    (addr : Text) : ExpProg LdapReturn := do
  if entry.isA ldap.ldapGroups then ldapExpandGroup conf ldap e type entry
  else if entry.isA ldap.ldapPeople then processPerson conf ldap e entry addr
  else
    let _ ← bounceAddr e true (addr ++ " : Entry exists but is neither a group or person".toList)
    return .exclude

/-! ## Searches -/

/-- `MAXRETRIES`. -/
def maxRetries : Nat := 5

/-- One search of `simta_ldap_name_search`, again while the server is down and retries are left; the
    result has the retries that are left then. -/
def nameQuery (action : Action) (search : LdapSearch) (addr domain : Text) :
    Nat → ExpProg (Option (LdapResult × Nat))
  | 0 => do
    let res ← ExpProg.ask (.ldapSearch action search addr domain)
    if res.rc = .down then return none else return some (res, 0)
  | left + 1 => do
    let res ← ExpProg.ask (.ldapSearch action search addr domain)
    if res.rc = .down then
      if ← ExpProg.ask (.ldapRetry action) then nameQuery action search addr domain left
      else return none
    else return some (res, left + 1)

/-- What the searches of a name come to. -/
inductive NameSearch
  | ret (code : LdapReturn)
  | found (search : LdapSearch) (res : List LdapEntry)

/-- The loop of `simta_ldap_name_search`. -/
def nameSearches (action : Action) (addr domain : Text) (addrtype : LdsType) :
    List LdapSearch → Nat → ExpProg NameSearch
  | [], _ => return .ret .notFound
  | search :: rest, left => do
    if addrtype ∉ search.ldsSearchType then nameSearches action addr domain addrtype rest left
    else if ← ExpProg.ask .alloc then
      match ← nameQuery action search addr domain left with
      | none => return .ret .syserror
      | some (res, left) =>
        if res.rc = .filterError ∨ res.rc = .noSuchObject then return .ret .notFound
        else if res.rc = .error then return .ret .syserror
        else
          match res.entries with
          | none => return .ret .syserror
          | some [] =>
            if res.rc = .timelimit then return .ret .syserror
            else nameSearches action addr domain addrtype rest left
          | some entries => return .found search entries
    else return .ret .syserror

/-- The entries at the places that were not taken. -/
def entriesLeft (taken : List Nat) (res : List LdapEntry) : List LdapEntry :=
  (res.zipIdx.filter fun x => x.2 ∉ taken).map Prod.fst

/-- `simta_ldap_name_search`. -/
def ldapNameSearch (conf : ExpandConf) (action : Action) (e : Nat) (addr domain : Text) (addrtype : LdsType) :
    ExpProg LdapReturn := do
  let ldap := conf.aLdap action
  match ← nameSearches action addr domain addrtype ldap.ldapSearches maxRetries with
  | .ret code => return code
  | .found search res =>
    match res with
    | [entry] => ldapProcessEntry conf ldap e addrtype entry addr
    | res =>
      if search.ldsRdnPref then
        match (conf.ldapRdnTaken addr res).filterMap (res[·]?) with
        | [entry] => ldapProcessEntry conf ldap e addrtype entry addr
        | _ => doAmbiguous conf ldap e addr (entriesLeft (conf.ldapRdnTaken addr res) res)
      else doAmbiguous conf ldap e addr res

/-- `simta_ldap_dn_expand`. -/
def ldapDnExpand (conf : ExpandConf) (action : Action) (e : Nat) : ExpProg LdapReturn := do
  let searchDn := (← ExpProg.addr e).eAddr
  let res ← ExpProg.ask (.ldapDn action searchDn)
  if res.rc = .down ∨ res.rc = .filterError ∨ res.rc = .error then return .syserror
  else
    match res.entries with
    | none => return .syserror
    | some [] =>
      if ← bounceAddr e true (searchDn ++ " : Group member does not exist".toList) then return .exclude
      else return .syserror
    | some (entry :: _) => ldapProcessEntry conf (conf.aLdap action) e .user entry searchDn

/-- The end of `simta_ldap_expand` for an e-mail address whose `@` is at `i`. -/
def ldapName (conf : ExpandConf) (action : Action) (e i : Nat) : ExpProg LdapReturn := do
  let addr := (← ExpProg.addr e).eAddr
  if ← ExpProg.ask .alloc then
    let name := (← ldapDequote (addr.take i)).getD (addr.take i)
    ldapNameSearch conf action e (addressType (undotted name)).2 (addr.drop (i + 1)) (addressType (undotted name)).1
  else return .syserror

/-- `simta_ldap_expand`. -/
def ldapExpand (conf : ExpandConf) (action : Action) (e : Nat) : ExpProg LdapReturn := do
  if ← ExpProg.ask (.ldapInit action) then
    let a ← ExpProg.addr e
    if a.eAddrType = .ldap then ldapDnExpand conf action e
    else
      match a.eAddrAt with
      | none => Faulty.fault
      | some i => ldapName conf action e i
  else return .syserror

end Simta
