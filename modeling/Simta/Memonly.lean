import Simta.ExpAddr
import Simta.Lib.Search

/-!
# Members-only groups

What `expand` does once all addresses are on the list: it asks of each members-only group whether a
permitted group or the sender is among its relations, suppresses what hangs below the others, and then
withholds every suppressed address that no open path joins to an original recipient.

* `parentPermitted`, `senderIsChild`, `supressAddrs`, `unblockedPathToRoot` — the four walks over the
  links; a recursive one is given the depth it may go to;
* `memonlyLoop` — the members-only loop, with what it asked;
* `withheldLoop` — the suppression check of every address, with what it asked.
-/

set_option autoImplicit false

namespace Simta

/-- What stops a walk: the assertion of `supress_addrs`, a `strcmp` of `NULL`, or the end of the depth it
    was given. -/
inductive Halt
  | assertion
  | nullDn
  | depth
  deriving DecidableEq, Repr

/-! ## The walks -/

/-- `e_addr_anti_loop = color`. -/
def paint (color e : Nat) (h : AddrHeap) : AddrHeap := h.write e fun a => { a with eAddrAntiLoop := color }

/-- `e_addr_ldap_flags |= …`, or `&= ~…`. -/
def setFlags (f : LdapFlags → LdapFlags) (e : Nat) (h : AddrHeap) : AddrHeap :=
  h.write e fun a => { a with eAddrLdapFlags := f a.eAddrLdapFlags }

/-- The loop of `sender_is_child`; `below` is its call on the children. -/
def senderLoop (color : Nat) (below : List Nat → AddrHeap → Option (Bool × AddrHeap)) :
    List Nat → AddrHeap → Option (Bool × AddrHeap)
  | [], h => some (false, h)
  | e :: rest, h =>
    if (h e).eAddrAntiLoop = color then senderLoop color below rest h
    else if (h e).eAddrLdapFlags.emailSender then some (true, paint color e h)
    else if (h e).eAddrLdapFlags.noEmailSender then senderLoop color below rest (paint color e h)
    else
      match below (h e).eAddrChildren (paint color e h) with
      | none => none
      | some (true, h) => some (true, setFlags (fun f => { f with emailSender := true }) e h)
      | some (false, h) =>
        senderLoop color below rest (setFlags (fun f => { f with noEmailSender := true }) e h)

/-- `sender_is_child`. -/
def senderIsChild (color : Nat) : Nat → List Nat → AddrHeap → Option (Bool × AddrHeap)
  | 0 => fun _ _ => none
  | depth + 1 => senderLoop color (senderIsChild color depth)

/-- The loop of `supress_addrs`; `below` is its call on the children. -/
def supressLoop (color : Nat) (below : List Nat → AddrHeap → Except Halt AddrHeap) :
    List Nat → AddrHeap → Except Halt AddrHeap
  | [], h => .ok h
  | e :: rest, h =>
    if (h e).eAddrLdapFlags.emailSender then .error .assertion
    else if (h e).eAddrAntiLoop = color then supressLoop color below rest h
    else if (h e).eAddrLdapFlags.ldapSupressed then supressLoop color below rest (paint color e h)
    else
      match below (h e).eAddrChildren
          (setFlags (fun f => { f with ldapSupressed := true }) e (paint color e h)) with
      | .error halt => .error halt
      | .ok h => supressLoop color below rest h

/-- `supress_addrs`. -/
def supressAddrs (color : Nat) : Nat → List Nat → AddrHeap → Except Halt AddrHeap
  | 0 => fun _ _ => .error .depth
  | depth + 1 => supressLoop color (supressAddrs color depth)

/-- The loop of `unblocked_path_to_root` over the parents; `below` is its call on one of them. -/
def parentLoop (below : Nat → AddrHeap → Option (Bool × AddrHeap)) :
    List (Option Nat) → AddrHeap → Option (Bool × AddrHeap)
  | [], h => some (false, h)
  | none :: _, h => some (true, h)
  | some e :: rest, h =>
    match below e h with
    | none => none
    | some (true, h) => some (true, h)
    | some (false, h) => parentLoop below rest h

/-- `unblocked_path_to_root`. -/
def unblockedPathToRoot (color : Nat) : Nat → Nat → AddrHeap → Option (Bool × AddrHeap)
  | 0, _, _ => none
  | depth + 1, e, h =>
    if (h e).eAddrAntiLoop = color then some (false, h)
    else if (h e).eAddrLdapFlags.ldapMemonly then some (false, paint color e h)
    else if (h e).eAddrLdapFlags.noRootPath then some (false, paint color e h)
    else if (h e).eAddrLdapFlags.rootPath then some (true, paint color e h)
    else
      match parentLoop (unblockedPathToRoot color depth) (h e).eAddrParents (paint color e h) with
      | none => none
      | some (true, h) => some (true, setFlags (fun f => { f with rootPath := true }) e h)
      | some (false, h) => some (false, setFlags (fun f => { f with noRootPath := true }) e h)

/-- The inner loop of `parent_permitted`: the first parent that has the name `ok`. -/
def permittedBy (h : AddrHeap) (ok : Text) : List (Option Nat) → Except Halt (Option Text)
  | [] => .ok none
  | none :: rest => permittedBy h ok rest
  | some e :: rest =>
    match (h e).eAddrDn with
    | none => .error .nullDn
    | some dn => if ok = dn then .ok (some dn) else permittedBy h ok rest

/-- The outer loop of `parent_permitted`. -/
def permittedIn (h : AddrHeap) (parents : List (Option Nat)) : List Text → Except Halt (Option Text)
  | [] => .ok none
  | ok :: rest =>
    match permittedBy h ok parents with
    | .error halt => .error halt
    | .ok (some dn) => .ok (some dn)
    | .ok none => permittedIn h parents rest

/-- `parent_permitted`: the name it returns, which is that of a parent. -/
def parentPermitted (h : AddrHeap) (memonly : Nat) : Except Halt (Option Text) :=
  permittedIn h (h memonly).eAddrParents (h memonly).eAddrOk

/-! ## The two loops of `expand` -/

/-- The heap with `loop_color`. -/
structure Painted where
  heap : AddrHeap
  loopColor : Nat

/-- The answer that one of the two searches gave for an address, and the heap it was asked on. -/
structure Query where
  addr : Nat
  before : AddrHeap
  answer : Bool

/-- A members-only group whose conditions are met. -/
def memonlyOk (g : Nat) (h : AddrHeap) : AddrHeap :=
  h.write g fun a =>
    { a with eAddrLdapFlags.ldapMemonly := false, eAddrEnvModerated := none }

/-- A group that `sender_is_child` has been asked about. -/
def memonlyAnswer (depth g : Nat) (answer : Bool) (s : Painted) : Except Halt Painted :=
  if answer then .ok ⟨memonlyOk g s.heap, s.loopColor⟩
  else
    let h := setFlags (fun f => { f with ldapSupressor := true }) g s.heap
    (supressAddrs s.loopColor depth (h g).eAddrChildren h).map fun h => ⟨h, s.loopColor + 1⟩

/-- The members-only loop of `expand`: what it asked of `sender_is_child`, and how it ended. -/
def memonlyLoop (depth : Nat) : List Nat → Painted → List Query × Except Halt Painted
  | [], s => ([], .ok s)
  | g :: rest, s =>
    match parentPermitted s.heap g with
    | .error halt => ([], .error halt)
    | .ok (some _) => memonlyLoop depth rest ⟨memonlyOk g s.heap, s.loopColor⟩
    | .ok none =>
      match senderIsChild s.loopColor depth (s.heap g).eAddrChildren s.heap with
      | none => ([], .error .depth)
      | some (answer, h) =>
        match memonlyAnswer depth g answer ⟨h, s.loopColor + 1⟩ with
        | .error halt => ([⟨g, s.heap, answer⟩], .error halt)
        | .ok t => ((⟨g, s.heap, answer⟩ :: (memonlyLoop depth rest t).1), (memonlyLoop depth rest t).2)

/-- The check by which `expand` withholds an address. -/
def withheld (depth e : Nat) (s : Painted) : Except Halt (Bool × Painted) :=
  if (s.heap e).eAddrLdapFlags.ldapSupressed then
    match unblockedPathToRoot s.loopColor depth e s.heap with
    | none => .error .depth
    | some (answer, h) => .ok (!answer, ⟨h, s.loopColor + 1⟩)
  else .ok (false, s)

/-- The check for the addresses of the list, one after the other: what it came to for each. -/
def withheldLoop (depth : Nat) : List Nat → Painted → Except Halt (List (Nat × Painted × Bool) × Painted)
  | [], s => .ok ([], s)
  | e :: rest, s =>
    match withheld depth e s with
    | .error halt => .error halt
    | .ok (b, t) => (withheldLoop depth rest t).map fun r => ((e, s, b) :: r.1, r.2)

/-! ## The permitted parents -/

section Permitted

variable {h : AddrHeap} {ok : Text} {oks : List Text} {parents : List (Option Nat)} {g : Nat} {halt : Halt}

theorem permittedBy_error (he : permittedBy h ok parents = .error halt) : halt = .nullDn := by
  induction parents with
  | nil => cases he
  | cons p rest ih =>
    cases p with
    | none => exact ih he
    | some e =>
      rw [permittedBy] at he
      split at he
      · cases he
        rfl
      · split at he
        · cases he
        · exact ih he

theorem permittedIn_error (he : permittedIn h parents oks = .error halt) : halt = .nullDn := by
  induction oks with
  | nil => cases he
  | cons ok rest ih =>
    rw [permittedIn] at he
    split at he
    · rename_i hby
      cases he
      exact permittedBy_error hby
    · cases he
    · exact ih he

/-- Nothing but a missing name stops `parent_permitted`. -/
theorem parentPermitted_error (he : parentPermitted h g = .error halt) : halt = .nullDn :=
  permittedIn_error he

end Permitted

end Simta
