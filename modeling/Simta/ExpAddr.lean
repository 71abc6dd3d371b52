import Mathlib.Logic.Function.Basic
import Simta.Red

/-!
# The addresses of an expansion

`struct exp_addr` of `expand.h`: an address on the expansion list, with the links to the addresses
it came of and to those it expands to.  A pointer to an address is a number, and the heap says what
lies there.

* `ExpAddr`, `LdapFlags`, `AddrHeap` — the record, its flags and the heap;
* `expAddrLink` — a list of links without duplicates;
* `Heap.modify` — a write to one field of one address.
-/

set_option autoImplicit false

namespace Simta

/-- `ADDRESS_TYPE_EMAIL`, `ADDRESS_TYPE_DEAD`, `ADDRESS_TYPE_LDAP`. -/
inductive AddressType
  | email
  | dead
  | ldap
  deriving DecidableEq, Repr

/-- The bits `STATUS_…` of `e_addr_ldap_flags`. -/
structure LdapFlags where
  ldapMemonly : Bool
  ldapPrivate : Bool
  ldapSupressor : Bool
  ldapSupressed : Bool
  emailSender : Bool
  noEmailSender : Bool
  rootPath : Bool
  noRootPath : Bool
  deriving DecidableEq, Repr

def LdapFlags.none : LdapFlags := ⟨false, false, false, false, false, false, false, false⟩

/-- `struct exp_addr`.  `eAddrAt` is the place of the `@` in the address, `eAddrErrors` the place of the
    error envelope among those of the expansion; a parent that is `none` is the `NULL` that stands for
    an original recipient, and `eAddrOk` holds the keys of the table of permitted groups. -/
structure ExpAddr where
  eAddrNext : Option Nat
  eAddrType : AddressType
  eAddrTerminal : Bool
  eAddrMaxLevel : Int
  eAddr : Text
  eAddrAt : Option Nat
  eAddrFrom : Text
  eAddrErrors : Nat
  eAddrParentAction : Option Action
  eAddrTryLdap : Bool
  eAddrLdapFlags : LdapFlags
  eAddrAntiLoop : Nat
  eAddrDn : Option Text
  eAddrOwner : Option Text
  eAddrOk : List Text
  eAddrEnvModerated : Option Envelope
  eAddrEnvGmailfwd : Option Envelope
  eAddrParents : List (Option Nat)
  eAddrChildren : List Nat
  deriving DecidableEq, Repr

/-- What `memset` leaves of an address, with what `add_address` fills in first. -/
def ExpAddr.init (addr : Text) (addrType : AddressType) (origin : Text) (errors : Nat)
    (action : Option Action) : ExpAddr where
  eAddrNext := none
  eAddrType := addrType
  eAddrTerminal := false
  eAddrMaxLevel := 0
  eAddr := addr
  eAddrAt := none
  eAddrFrom := origin
  eAddrErrors := errors
  eAddrParentAction := action
  eAddrTryLdap := false
  eAddrLdapFlags := .none
  eAddrAntiLoop := 0
  eAddrDn := none
  eAddrOwner := none
  eAddrOk := []
  eAddrEnvModerated := none
  eAddrEnvGmailfwd := none
  eAddrParents := []
  eAddrChildren := []

/-- The host behind the `@` at `e_addr_at`. -/
def ExpAddr.host (e : ExpAddr) : Option Text := e.eAddrAt.map fun i => e.eAddr.drop (i + 1)

/-- What lies behind each pointer. -/
abbrev AddrHeap : Type := Nat → ExpAddr

namespace AddrHeap

/-- A write to the address behind `e`. -/
def write (e : Nat) (f : ExpAddr → ExpAddr) (h : AddrHeap) : AddrHeap := Function.update h e (f (h e))

theorem write_self (e : Nat) (f : ExpAddr → ExpAddr) (h : AddrHeap) : h.write e f e = f (h e) :=
  Function.update_self ..

theorem write_of_ne {e x : Nat} (f : ExpAddr → ExpAddr) (h : AddrHeap) (hx : x ≠ e) : h.write e f x = h x :=
  Function.update_of_ne hx ..

/-- A field that the write leaves alone. -/
theorem write_field {γ : Type} (view : ExpAddr → γ) {f : ExpAddr → ExpAddr} (hf : ∀ a, view (f a) = view a)
    (e : Nat) (h : AddrHeap) (x : Nat) : view (h.write e f x) = view (h x) := by
  by_cases hx : x = e
  · subst hx
    rw [write_self, hf]
  · rw [write_of_ne f h hx]

end AddrHeap

/-- `exp_addr_link` on a list of links. -/
def expAddrLink {α : Type} [DecidableEq α] (add : α) (links : List α) : List α :=
  if add ∈ links then links else add :: links

theorem mem_expAddrLink {α : Type} [DecidableEq α] {add x : α} {links : List α} :
    x ∈ expAddrLink add links ↔ x = add ∨ x ∈ links := by
  unfold expAddrLink
  split
  · rename_i h
    exact ⟨.inr, fun hx => hx.elim (fun heq => heq ▸ h) id⟩
  · exact List.mem_cons

theorem nodup_expAddrLink {α : Type} [DecidableEq α] {add : α} {links : List α} (h : links.Nodup) :
    (expAddrLink add links).Nodup := by
  unfold expAddrLink
  split
  · exact h
  · rename_i hadd
    exact List.nodup_cons.mpr ⟨hadd, h⟩

end Simta
