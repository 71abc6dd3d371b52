import Simta.ExpandRun

/-!
# The domain of a terminal address

`expand` writes a terminal e-mail address to an envelope for its host, which it looks for behind the `@`.

* `Expand.Every` — what holds of all addresses that are allocated;
* `AtPlaced` — an address whose `@` was found has one, and a terminal one was found or ends bare;
* `terminal_domain` — when every terminal e-mail address has a domain.
-/

set_option autoImplicit false

namespace Simta

variable {conf : ExpandConf} {L O B : Prop} {exp exp' : Expand} {visited : List Nat}

/-! ## All addresses -/

/-- What an address is, of all of them. -/
def Expand.Every (P : Text × Option Nat × Text × AddressType × Bool → Prop) (exp : Expand) : Prop :=
  ∀ e, e < exp.fresh → P (exp.addrs e).core

/-- What `P` holds of every new address. -/
def NewAddresses (conf : ExpandConf) (P : Text × Option Nat × Text × AddressType × Bool → Prop) : Prop :=
  ∀ exp addr errors addrType origin insertHead a, addrType ≠ .dead →
    newAddress conf exp addr errors addrType origin = some (insertHead, a) → P a.core

variable {P : Text × Option Nat × Text × AddressType × Bool → Prop}

theorem Expand.Every.step (h : exp.Every P) (hnew : NewAddresses conf P) (hstep : ExpStep conf L O exp exp') :
    exp'.Every P := by
  intro e he
  by_cases hold : e < exp.fresh
  · rw [hstep.core hold]
    exact h e hold
  · cases hstep with
    | insert addr origin errors addrType insertHead a hfind htype hnewa =>
      rw [insertAddress_fresh] at he
      have heq : e = exp.fresh := by
        simp only [Expand.counted] at he
        omega
      rw [insertAddress_view ExpAddr.core (fun _ _ => rfl), if_pos (by exact heq)]
      exact hnew exp addr errors addrType origin insertHead a htype hnewa
    | _ => exact absurd he hold

theorem Expand.Every.steps (h : exp.Every P) (hnew : NewAddresses conf P) (hsteps : ExpSteps conf L O exp exp') :
    exp'.Every P := by
  induction hsteps with
  | refl => exact h
  | tail _ hstep ih => exact ih.step hnew hstep

theorem Expand.Every.writeAddr (h : exp.Every P) {e : Nat} {a : ExpAddr} (ha : P a.core) : (exp.writeAddr e a).Every P := by
  intro x hx
  by_cases hxe : x = e
  · subst hxe
    rwa [Expand.writeAddr_self]
  · rw [Expand.writeAddr_of_ne hxe]
    exact h x hx

theorem Expand.Every.goOn (h : exp.Every P) {c : Nat} {terminal : Bool}
    (hc : P ({ exp.addrs c with eAddrTerminal := terminal } : ExpAddr).core) : (exp.visited c terminal).Every P :=
  h.writeAddr hc

/-! ## The place of the `@` -/

theorem at_mem_of_addressAt {addr : Text} {i : Nat} (h : addressAt addr = some (some i)) : '@' ∈ addr := by
  unfold addressAt at h
  split at h
  · cases h
  · split at h
    · rename_i user rest htoken
      rw [(tokenUser_append htoken).1]
      exact List.mem_append_right _ List.mem_cons_self
    · cases h

theorem strchrAt_ne_none {addr : Text} (h : '@' ∈ addr) : strchrAt addr ≠ none := by
  unfold strchrAt
  split
  · rename_i hdrop
    have hall := List.dropWhile_eq_nil_iff.mp hdrop _ h
    simp at hall
  · exact (fun h => by cases h)

/-- A new address is not terminal, and has an `@` where one was found. -/
theorem newAddress_core {addr origin : Text} {errors : Nat} {addrType : AddressType} {insertHead : Bool}
    {a : ExpAddr} (h : newAddress conf exp addr errors addrType origin = some (insertHead, a)) :
    a.eAddr = addr ∧ (∀ i, a.eAddrAt = some i → '@' ∈ addr) ∧ a.eAddrFrom = origin ∧ a.eAddrType = addrType ∧
      a.eAddrTerminal = false := by
  have heAddr := newAddress_eAddr h
  unfold newAddress at h
  split at h
  · obtain ⟨place, hplace, ha⟩ := Option.map_eq_some_iff.mp h
    cases place with
    | none =>
      cases ha
      exact ⟨rfl, (fun i hi => by cases hi), rfl, rfl, rfl⟩
    | some i =>
      cases ha
      exact ⟨rfl, fun _ _ => at_mem_of_addressAt hplace, rfl, rfl, rfl⟩
  · cases h
    exact ⟨rfl, (fun i hi => by cases hi), rfl, rfl, rfl⟩

/-- An address has an `@` where one was found, and one that is final without it is allowed by `B`. -/
def AtPlaced (B : Prop) (core : Text × Option Nat × Text × AddressType × Bool) : Prop :=
  (∀ i, core.2.1 = some i → '@' ∈ core.1) ∧
    (core.2.2.2.2 = true → core.2.2.2.1 = .email → core.2.1 = none → B)

theorem newAddresses_placed : NewAddresses conf (AtPlaced B) := by
  intro exp addr errors addrType origin insertHead a _ hnew
  obtain ⟨haddr, hat, -, -, hterminal⟩ := newAddress_core hnew
  refine ⟨fun i hi => ?_, fun htrue => ?_⟩
  · have hi' : '@' ∈ addr := hat i hi
    rwa [← haddr] at hi'
  · have hfalse : a.eAddrTerminal = true := htrue
    rw [hterminal] at hfalse
    cases hfalse

/-- **A round keeps the addresses placed.** -/
theorem VisitSpec.placed {c : Nat} (hspec : VisitSpec conf L B c exp exp') (hc : c < exp.fresh)
    (h : exp.Every (AtPlaced B)) : exp'.Every (AtPlaced B) := by
  cases hspec with
  | exclude exp₁ hsteps =>
    have h₁ := h.steps newAddresses_placed hsteps
    refine h₁.goOn ⟨(h₁ c (hc.trans_le hsteps.fresh_le)).1, fun htrue => ?_⟩
    cases htrue
  | final exp₁ hsteps hemail hat =>
    have h₁ := h.steps newAddresses_placed hsteps
    have hplace : (exp₁.addrs c).eAddrAt = (exp.addrs c).eAddrAt := congrArg (·.2.1) (hsteps.core hc)
    refine h₁.goOn ⟨(h₁ c (hc.trans_le hsteps.fresh_le)).1, fun _ _ hnone => hat ?_⟩
    rw [← hplace]
    exact hnone
  | dead exp₁ hsteps =>
    have h₁ := h.steps newAddresses_placed hsteps
    have hdead : (exp₁.writeAddr c { exp₁.addrs c with eAddrType := .dead }).Every (AtPlaced B) := by
      refine h₁.writeAddr ⟨(h₁ c (hc.trans_le hsteps.fresh_le)).1, fun _ hemail => ?_⟩
      cases hemail
    refine hdead.goOn ⟨(hdead c (hc.trans_le hsteps.fresh_le)).1, fun _ hemail => ?_⟩
    rw [Expand.writeAddr_self] at hemail
    cases hemail

section Rounds

variable {σ : Type} {R : Prog.World ExpOp ExpAns σ} {env : Envelope} {hosts : List Red} {s t : σ}

/-- An address without an `@` is final only when the rules of the default host end bare. -/
theorem Reached.placed (h : Reached R conf env hosts s visited exp t) :
    exp.Every (AtPlaced (EndsBare R conf.defaultHost.redExpand)) := by
  refine (h.invariant (P := fun _ exp => exp.Every (AtPlaced (EndsBare R conf.defaultHost.redExpand))) (L := True)
    (fun _ _ _ => trivial) (fun _ _ _ _ _ _ => trivial) id ?_ ?_).2
  · intro exp hsteps _ _
    have hinit : (Expand.init env hosts).Every (AtPlaced (EndsBare R conf.defaultHost.redExpand)) :=
      fun e he => absurd he (Nat.not_lt_zero e)
    exact (hinit.steps newAddresses_placed hsteps : exp.Every _)
  · intro visited exp exp' c hboundary hplaced hc hspec
    obtain ⟨pending, -, -, hfresh⟩ := hboundary.cursor hc
    exact hspec.placed hfresh hplaced

/-- **A terminal e-mail address has a domain**, unless the rules of the default host come to an entry of the
    postmaster in a password file, without a `.forward` file, for an address that has none. -/
theorem terminal_domain (h : Reached R conf env hosts s visited exp t)
    (hbare : ¬ EndsBare R conf.defaultHost.redExpand ∨ ∀ e ∈ exp.list, (exp.addrs e).eAddrAt ≠ none) :
    ∀ e ∈ exp.list, (exp.addrs e).eAddrTerminal = true → (exp.addrs e).eAddrType = .email →
      strchrAt (exp.addrs e).eAddr ≠ none := by
  intro e he hterminal hemail
  obtain ⟨pending, hlisted, -⟩ := h.boundary
  have hfresh : e < exp.fresh := by rwa [hlisted.list_eq, hlisted.allocated] at he
  obtain ⟨hat, hends⟩ := h.placed e hfresh
  have hplace : (exp.addrs e).eAddrAt ≠ none := by
    intro hnone
    rcases hbare with hbare | hbare
    · exact hbare (hends hterminal hemail hnone)
    · exact hbare e he hnone
  obtain ⟨i, hi⟩ := Option.ne_none_iff_exists'.mp hplace
  exact strchrAt_ne_none (hat i hi)

end Rounds

/-! The postmaster has an entry in the password file of the host that takes addresses without a domain, and no
`.forward` file. -/

/-- A home directory for every user, and no `.forward` file in it. -/
def homeAnswers : (op : ExpOp) → ExpAns op
  | .getpwnam _ _ => some "/home".toList
  | op => quiet op

/-- Without a rule for addresses that have no domain, the postmaster is dead and no e-mail address. -/
theorem terminal_domain_quiet :
    ∃ visited exp, Reached (answersOnly quiet) (peopleConf []) (messageTo stringPostmaster) [] () visited exp () ∧
      exp.list = [0] ∧ ∀ e ∈ exp.list, (exp.addrs e).eAddrTerminal = true → (exp.addrs e).eAddrType = .email →
        strchrAt (exp.addrs e).eAddr ≠ none := by
  have heval : ((expandWork (peopleConf []) 3).eval quiet (Expand.init (messageTo stringPostmaster) [])).map
      (fun x => (x.1, x.2.list)) = some (some true, [0]) := by decide
  obtain ⟨visited, exp, hreached, -, hlist⟩ := reached_of_eval Expand.list heval
  exact ⟨visited, exp, hreached, hlist, terminal_domain hreached (.inl id)⟩

/-- With the password file it stays an e-mail address, and has no domain. -/
theorem not_terminal_domain :
    ∃ visited exp, Reached (answersOnly homeAnswers) (peopleConf [⟨.password, false, none⟩])
      (messageTo stringPostmaster) [] () visited exp () ∧ exp.expAddrCursor = none ∧
      ∃ e ∈ exp.list, (exp.addrs e).eAddrTerminal = true ∧ (exp.addrs e).eAddrType = .email ∧
        strchrAt (exp.addrs e).eAddr = none := by
  have heval : ((expandWork (peopleConf [⟨.password, false, none⟩]) 3).eval homeAnswers
      (Expand.init (messageTo stringPostmaster) [])).map (fun x => (x.1, x.2.list, (x.2.addrs 0).core)) =
      some (some true, [0], stringPostmaster, none, "ann@else".toList, AddressType.email, true) := rfl
  obtain ⟨visited, exp, hreached, hcursor, hview⟩ :=
    reached_of_eval (fun exp => (exp.list, (exp.addrs 0).core)) heval
  obtain ⟨hlist, hcore⟩ := Prod.mk.inj hview
  refine ⟨visited, exp, hreached, hcursor, 0, ?_, ?_, ?_, ?_⟩
  · rw [hlist]
    exact List.mem_singleton_self 0
  · exact congrArg (·.2.2.2.2) hcore
  · exact congrArg (·.2.2.2.1) hcore
  · have haddr : (exp.addrs 0).eAddr = stringPostmaster := congrArg (·.1) hcore
    rw [haddr]
    rfl

end Simta
