import Simta.ExpandSteps

/-!
# What the expansion of an address comes to

`address_expand` ends in one of three codes; what it has written by then, and when an address is left
as it is, is said here once for all invariants.

* `ExpStep.core` — no step changes what an address on the list is;
* `EndsBare` — the rules that leave the postmaster without a domain;
* `AddressSpec`, `wlp_addressExpand` — the codes of `address_expand`.
-/

set_option autoImplicit false

namespace Simta

variable {conf : ExpandConf} {L O B : Prop} {exp exp' : Expand}

/-! ## What stays -/

/-- What an address is: its text with the place of the `@`, its sender, its type, and whether it is
    terminal. -/
def ExpAddr.core (a : ExpAddr) : Text × Option Nat × Text × AddressType × Bool :=
  (a.eAddr, a.eAddrAt, a.eAddrFrom, a.eAddrType, a.eAddrTerminal)

theorem OwnWrite.core {a a' : ExpAddr} (h : OwnWrite a a') : a'.core = a.core := by
  cases h <;> rfl

theorem ExpStep.fresh_le (h : ExpStep conf L O exp exp') : exp.fresh ≤ exp'.fresh := by
  cases h with
  | insert addr origin errors addrType insertHead a =>
    rw [insertAddress_fresh]
    exact Nat.le_succ _
  | _ => exact Nat.le_refl _

/-- **No step changes what an address is.** -/
theorem ExpStep.core (h : ExpStep conf L O exp exp') {x : Nat} (hx : x < exp.fresh) :
    (exp'.addrs x).core = (exp.addrs x).core := by
  cases h with
  | insert addr origin errors addrType insertHead a =>
    rw [insertAddress_view ExpAddr.core (fun _ _ => rfl), if_neg (by exact Nat.ne_of_lt hx)]
    rfl
  | parent e => exact Expand.writeAddr_field ExpAddr.core (by rfl) x
  | level e c => exact AddrHeap.write_field ExpAddr.core (by intro a; rfl) e exp.addrs x
  | child c e => exact Expand.writeAddr_field ExpAddr.core (by rfl) x
  | own c a _ _ ha => exact Expand.writeAddr_field ExpAddr.core ha.core x
  | _ => rfl

theorem ExpSteps.fresh_le (h : ExpSteps conf L O exp exp') : exp.fresh ≤ exp'.fresh := by
  induction h with
  | refl => exact Nat.le_refl _
  | tail _ hstep ih => exact ih.trans hstep.fresh_le

theorem ExpSteps.core (h : ExpSteps conf L O exp exp') {x : Nat} (hx : x < exp.fresh) :
    (exp'.addrs x).core = (exp.addrs x).core := by
  induction h with
  | refl => rfl
  | tail hsteps hstep ih => exact (hstep.core (hx.trans_le (ExpSteps.fresh_le hsteps))).trans ih

/-! ## The codes -/

section Spec

variable {σ : Type} {R : Prog.World ExpOp ExpAns σ} {c : Nat} {s : σ}

/-- A rule may miss the postmaster in the alias database. -/
def AliasMisses (R : Prog.World ExpOp ExpAns σ) (action : Action) : Prop :=
  (∃ s t, R (.dbOpen action.aFname) s .failed t) ∨
    ∃ s t, R (.dbCursor action.aFname stringPostmaster) s ([], false) t

/-- A home directory without a `.forward` file that can be read. -/
def NoForward (R : Prog.World ExpOp ExpAns σ) (pwDir : Text) : Prop :=
  maxPathLen ≤ (forwardName pwDir).length ∨ (∃ s t, R (.forward (forwardName pwDir)) s .missing t) ∨
    ∃ s t text, R (.forward (forwardName pwDir)) s (.text text true) t ∧ forwardLines text.length text = []

/-- The rules may come to an entry of the postmaster in a password file, and leave it at that. -/
def EndsBare (R : Prog.World ExpOp ExpAns σ) : List Action → Prop
  | [] => False
  | action :: rest =>
    match action.aAction with
    | .alias => AliasMisses R action ∧ EndsBare R rest
    | .password =>
      (∃ s t pwDir, R (.getpwnam action.aFname stringPostmaster) s (some pwDir) t ∧ NoForward R pwDir) ∨
        ((∃ s t, R (.getpwnam action.aFname stringPostmaster) s none t) ∧ EndsBare R rest)
    | .ldap => EndsBare R rest

/-- What `address_expand` does with the address at the cursor.  An address that is final is left as it is,
    and `B` allows that it has no domain; or it is the postmaster, and dead. -/
inductive AddressSpec (conf : ExpandConf) (L B : Prop) (c : Nat) (exp : Expand) : AddressReturn → Expand → Prop
  | exclude (exp' : Expand) (h : ExpSteps conf L True exp exp') : AddressSpec conf L B c exp .exclude exp'
  | syserror (exp' : Expand) (h : ExpSteps conf L True exp exp') : AddressSpec conf L B c exp .syserror exp'
  | final (exp' : Expand) (h : ExpSteps conf L False exp exp') (hemail : (exp.addrs c).eAddrType = .email)
      (hat : (exp.addrs c).eAddrAt = none → B) : AddressSpec conf L B c exp .final exp'
  | dead (exp' : Expand) (h : ExpSteps conf L False exp exp') :
    AddressSpec conf L B c exp .final (exp'.writeAddr c { exp'.addrs c with eAddrType := .dead })

/-- What is written before does not count. -/
theorem AddressSpec.after {exp₁ : Expand} {ret : AddressReturn} (hsteps : ExpSteps conf L False exp exp₁)
    (hc : c < exp.fresh) (h : AddressSpec conf L B c exp₁ ret exp') : AddressSpec conf L B c exp ret exp' := by
  have hcore := hsteps.core hc
  have hmono : ExpSteps conf L True exp exp₁ := hsteps.mono id False.elim
  cases h with
  | exclude _ h => exact .exclude _ (hmono.trans h)
  | syserror _ h => exact .syserror _ (hmono.trans h)
  | final _ h hemail hat =>
    have htype : (exp₁.addrs c).eAddrType = (exp.addrs c).eAddrType := congrArg (·.2.2.2.1) hcore
    have hplace : (exp₁.addrs c).eAddrAt = (exp.addrs c).eAddrAt := congrArg (·.2.1) hcore
    exact .final _ (hsteps.trans h) (htype ▸ hemail) (hplace ▸ hat)
  | dead exp' h => exact .dead exp' (hsteps.trans h)

theorem wlp_addressNotFound (hc : exp.expAddrCursor = some c) :
    (addressNotFound c).wlp R True (fun ret exp' _ => AddressSpec conf L B c exp ret exp') exp s := by
  apply wlp_addr_bind
  split
  · exact .dead exp .refl
  · have hbounce : ∀ text, Evolves R conf L True (some c) (bounceAddr c true text) := evolves_bounceAddr c true
    refine Faulty.wlp_seq (hbounce _ exp s hc) ?_
    intro b exp' s' hsteps
    cases b
    · exact .syserror exp' hsteps
    · exact .exclude exp' hsteps

/-- The alias database misses an address without a domain only if it may miss the postmaster. -/
theorem wlp_aliasExpand (hcopy : ∀ s t, R .copy s false t → L) (hc : exp.expAddrCursor = some c) (action : Action) :
    (aliasExpand conf c action).wlp R True (fun ret exp' _ => ExpSteps conf L False exp exp' ∧
      (ret = .notFound → (exp.addrs c).eAddrAt = none → AliasMisses R action)) exp s := by
  apply wlp_ask_bind
  intro opening t hopen
  split
  · exact ⟨.refl, fun _ _ => .inl ⟨_, _, hopen⟩⟩
  · apply wlp_addr_bind
    split
    · rename_i hlong
      split
      · exact trivial
      · refine ⟨.refl, fun _ hat => ?_⟩
        rw [hat] at hlong
        cases hlong
    · apply wlp_ask_bind
      intro values u hvalues
      split
      · rename_i failed
        split
        · exact ⟨.refl, (fun h => by cases h)⟩
        · rename_i hfailed
          refine ⟨.refl, fun _ hat => .inr ⟨t, u, ?_⟩⟩
          rw [lookupName, hat] at hvalues
          cases failed
          · exact hvalues
          · exact absurd rfl hfailed
      · have hvals : ∀ values, Evolves R conf L False (some c) (aliasValues conf c values) :=
          evolves_aliasValues hcopy c
        refine Faulty.wlp_seq (hvals _ exp u hc) ?_
        intro b exp' s' hsteps
        cases b
        · exact ⟨hsteps, (fun h => by cases h)⟩
        · rw [if_pos rfl]
          split <;> exact ⟨hsteps, (fun h => by cases h)⟩

/-- A password file leaves an address without a domain only as the entry of the postmaster. -/
theorem wlp_passwordExpand (hcopy : ∀ s t, R .copy s false t → L) (hc : exp.expAddrCursor = some c)
    (action : Action) :
    (passwordExpand conf c action).wlp R True (fun ret exp' _ => ExpSteps conf L False exp exp' ∧
      (ret = .notFound → (exp.addrs c).eAddrAt = none → ∃ s t, R (.getpwnam action.aFname stringPostmaster) s none t) ∧
      (ret = .final → (exp.addrs c).eAddrAt = none →
        ∃ s t pwDir, R (.getpwnam action.aFname stringPostmaster) s (some pwDir) t ∧ NoForward R pwDir)) exp s := by
  apply wlp_addr_bind
  apply wlp_ask_bind
  intro dir t hdir
  have hname : (exp.addrs c).eAddrAt = none → R (.getpwnam action.aFname stringPostmaster) s dir t := by
    intro hat
    rwa [lookupName, hat] at hdir
  split
  · exact ⟨.refl, fun _ hat => ⟨_, _, hname hat⟩, (fun h => by cases h)⟩
  · rename_i pwDir
    have hfinal : NoForward R pwDir → (exp.addrs c).eAddrAt = none →
        ∃ s t pwDir, R (.getpwnam action.aFname stringPostmaster) s (some pwDir) t ∧ NoForward R pwDir :=
      fun hno hat => ⟨s, t, pwDir, hname hat, hno⟩
    split
    · rename_i hlong
      exact ⟨.refl, (fun h => by cases h), fun _ => hfinal (.inl hlong)⟩
    · apply wlp_ask_bind
      intro fwd u hfwd
      split
      · exact ⟨.refl, (fun h => by cases h), fun _ => hfinal (.inr (.inl ⟨_, _, hfwd⟩))⟩
      · exact ⟨.refl, (fun h => by cases h), (fun h => by cases h)⟩
      · rename_i text closed
        have hlines : ∀ lines, Evolves R conf L False (some c) (forwardRecipients conf c lines) :=
          evolves_forwardRecipients hcopy c
        refine Faulty.wlp_seq (hlines _ exp u hc) ?_
        intro b exp' s' hsteps
        split
        · rename_i hclosed
          split
          · rename_i hempty
            have htrue : closed = true := (Bool.and_eq_true _ _ ▸ hclosed).2
            subst htrue
            exact ⟨hsteps, (fun h => by cases h), fun _ => hfinal (.inr (.inr ⟨_, _, text, hfwd, hempty⟩))⟩
          · exact ⟨hsteps, (fun h => by cases h), (fun h => by cases h)⟩
        · exact ⟨hsteps, (fun h => by cases h), (fun h => by cases h)⟩

theorem evolves_atAction {cur : Option Nat} (action : Option Action) :
    Evolves R conf L O cur (atAction action) :=
  evolves_modify fun exp _ => .frame exp exp.expErrors action exp.hosts exp.expGmailfwding

theorem wlp_spec_after {m : ExpProg AddressReturn} (hsteps : ExpSteps conf L False exp exp') (hc : c < exp.fresh)
    (h : m.wlp R True (fun ret exp'' _ => AddressSpec conf L B c exp' ret exp'') exp' s) :
    m.wlp R True (fun ret exp'' _ => AddressSpec conf L B c exp ret exp'') exp' s :=
  Faulty.wlp_mono (fun _ _ _ h => h.after hsteps hc) h

/-- What a rule does that comes to a code, or that leaves the address to the next one. -/
def RuleSpec (R : Prog.World ExpOp ExpAns σ) (conf : ExpandConf) (L : Prop) (c : Nat) (action : Action)
    (rest : List Action) (exp : Expand) : Option AddressReturn → Expand → Prop
  | some ret, exp' =>
    AddressSpec conf L ((exp.addrs c).eAddrAt = none ∧ EndsBare R (action :: rest)) c exp ret exp'
  | none, exp' => ExpSteps conf L False exp exp' ∧
    ((exp.addrs c).eAddrAt = none → EndsBare R rest → EndsBare R (action :: rest))

theorem wlp_expandRule (hcopy : ∀ s t, R .copy s false t → L) (hvacation : VacationOk R conf L)
    (action : Action) (rest : List Action) (hc : exp.expAddrCursor = some c)
    (hemail : (exp.addrs c).eAddrType = .email) :
    (expandRule conf c action).wlp R True (fun ret exp' _ => RuleSpec R conf L c action rest exp ret exp') exp s := by
  have hmono : ∀ {exp'}, ExpSteps conf L False exp exp' → ExpSteps conf L True exp exp' :=
    fun h => h.mono id False.elim
  unfold expandRule
  split
  · rename_i haction
    refine Faulty.wlp_seq (wlp_aliasExpand hcopy hc action) ?_
    rintro ret exp' s' ⟨hsteps, hmiss⟩
    cases ret with
    | exclude => exact .exclude exp' (hmono hsteps)
    | syserror => exact .syserror exp' (hmono hsteps)
    | notFound =>
      refine ⟨hsteps, fun hnone hends => ?_⟩
      unfold EndsBare
      rw [haction]
      exact ⟨hmiss rfl hnone, hends⟩
  · rename_i haction
    refine Faulty.wlp_seq (wlp_passwordExpand hcopy hc action) ?_
    rintro ret exp' s' ⟨hsteps, hmiss, hfinal⟩
    cases ret with
    | exclude => exact .exclude exp' (hmono hsteps)
    | syserror => exact .syserror exp' (hmono hsteps)
    | final =>
      refine .final exp' hsteps hemail fun hnone => ⟨hnone, ?_⟩
      unfold EndsBare
      rw [haction]
      exact .inl (hfinal rfl hnone)
    | notFound =>
      refine ⟨hsteps, fun hnone hends => ?_⟩
      unfold EndsBare
      rw [haction]
      exact .inr ⟨hmiss rfl hnone, hends⟩
  · rename_i haction
    apply wlp_addr_bind
    split
    · refine ⟨.refl, fun _ hends => ?_⟩
      unfold EndsBare
      rw [haction]
      exact hends
    · rename_i hat
      have hldap := wlp_ldapExpand (s := s) hcopy trivial hvacation action hc
      refine Faulty.wlp_seq hldap ?_
      rintro ret exp' s' (⟨rfl | rfl, hsteps⟩ | ⟨rfl, hsteps⟩)
      · exact .exclude exp' hsteps
      · exact .syserror exp' hsteps
      · exact ⟨hsteps, fun hnone => absurd hnone hat⟩

theorem AddressSpec.weaken {B' : Prop} (hB : B → B') {ret : AddressReturn} (h : AddressSpec conf L B c exp ret exp') :
    AddressSpec conf L B' c exp ret exp' := by
  cases h with
  | exclude _ h => exact .exclude _ h
  | syserror _ h => exact .syserror _ h
  | final _ h hemail hat => exact .final _ h hemail fun hnone => hB (hat hnone)
  | dead exp' h => exact .dead exp' h

/-- **The rules of a host**: what the first of them comes to that finds the address. -/
theorem wlp_expandRules (hcopy : ∀ s t, R .copy s false t → L) (hvacation : VacationOk R conf L)
    (rules : List Action) (hc : exp.expAddrCursor = some c) (hfresh : c < exp.fresh)
    (hemail : (exp.addrs c).eAddrType = .email) (hbare : (exp.addrs c).eAddrAt = none → EndsBare R rules → B) :
    (expandRules conf c rules).wlp R True (fun ret exp' _ => AddressSpec conf L B c exp ret exp') exp s := by
  have haction : ∀ action, Evolves R conf L False (some c) (atAction action) := evolves_atAction
  -- what an address is stays as it was
  have hstays : ∀ {exp exp'}, ExpSteps conf L False exp exp' → c < exp.fresh →
      (exp'.addrs c).eAddrType = (exp.addrs c).eAddrType ∧ (exp'.addrs c).eAddrAt = (exp.addrs c).eAddrAt :=
    fun h hfresh => ⟨congrArg (·.2.2.2.1) (h.core hfresh), congrArg (·.2.1) (h.core hfresh)⟩
  induction rules generalizing exp s with
  | nil =>
    refine Faulty.wlp_seq (haction none exp s hc) ?_
    intro _ exp₁ s₁ hsteps
    exact wlp_spec_after hsteps hfresh (wlp_addressNotFound (hsteps.cursor.trans hc))
  | cons action rest ih =>
    refine Faulty.wlp_seq (haction (some action) exp s hc) ?_
    intro _ exp₁ s₁ hsteps₁
    have hc₁ := hsteps₁.cursor.trans hc
    obtain ⟨htype₁, hat₁⟩ := hstays hsteps₁ hfresh
    refine Faulty.wlp_seq (wlp_expandRule hcopy hvacation action rest hc₁ (htype₁.trans hemail)) ?_
    intro ret exp₂ s₂ hspec
    cases ret with
    | some ret =>
      refine (AddressSpec.weaken ?_ hspec).after hsteps₁ hfresh
      rintro ⟨hnone, hends⟩
      exact hbare (hat₁ ▸ hnone) hends
    | none =>
      obtain ⟨hsteps₂, hends⟩ := hspec
      have hsteps : ExpSteps conf L False exp exp₂ := hsteps₁.trans hsteps₂
      obtain ⟨htype₂, hat₂⟩ := hstays hsteps hfresh
      refine wlp_spec_after hsteps hfresh (ih (hsteps.cursor.trans hc) (hfresh.trans_le hsteps.fresh_le) ?_ ?_)
      · exact htype₂.trans hemail
      · intro hnone hrest
        exact hbare (hat₂ ▸ hnone) (hends (hat₁.trans (hat₂ ▸ hnone)) hrest)

theorem evolves_expandHostLocal {cur : Option Nat} (host : Text) :
    Evolves R conf L O cur (expandHostLocal conf host) := by
  intro exp s hc
  apply wlp_get_bind
  split
  · exact .refl
  · apply wlp_ask_bind
    intro alloc t _
    apply wlp_ask_bind
    intro result u _
    apply wlp_set_bind
    have hstep : ∀ hosts, ExpStep conf L O exp { exp with hosts := hosts } :=
      fun hosts => .frame exp exp.expErrors exp.expCurrentAction hosts exp.expGmailfwding
    split
    · exact .single (hstep _)
    · exact .single (hstep _)

theorem wlp_expandLdap (hcopy : ∀ s t, R .copy s false t → L) (hvacation : VacationOk R conf L)
    (hc : exp.expAddrCursor = some c) (hfresh : c < exp.fresh) :
    (expandLdap conf c).wlp R True (fun ret exp' _ => AddressSpec conf L B c exp ret exp') exp s := by
  apply wlp_addr_bind
  have haction : ∀ action, Evolves R conf L False (some c) (atAction action) := evolves_atAction
  refine Faulty.wlp_seq (haction _ exp s hc) ?_
  intro _ exp₁ s₁ hsteps₁
  have hc₁ := hsteps₁.cursor.trans hc
  have hmono : ExpSteps conf L True exp exp₁ := hsteps₁.mono id False.elim
  split
  · exact trivial
  · rename_i action _
    have hldap := wlp_ldapExpand (s := s₁) hcopy trivial hvacation action hc₁
    refine Faulty.wlp_seq hldap ?_
    rintro ret exp₂ s₂ (⟨rfl | rfl, hsteps₂⟩ | ⟨rfl, hsteps₂⟩)
    · exact .exclude _ (hmono.trans hsteps₂)
    · exact .syserror _ (hmono.trans hsteps₂)
    · exact wlp_spec_after (hsteps₁.trans hsteps₂) hfresh (wlp_addressNotFound (hsteps₂.cursor.trans hc₁))

/-- **What `address_expand` does** with the address at the cursor. -/
theorem wlp_addressExpand (hcopy : ∀ s t, R .copy s false t → L) (hvacation : VacationOk R conf L)
    (hbare : EndsBare R conf.defaultHost.redExpand → B) (hc : exp.expAddrCursor = some c) (hfresh : c < exp.fresh) :
    (addressExpand conf c).wlp R True (fun ret exp' _ => AddressSpec conf L B c exp ret exp') exp s := by
  apply wlp_addr_bind
  split
  · rename_i hemail
    split
    · exact wlp_expandRules hcopy hvacation _ hc hfresh hemail fun _ => hbare
    · rename_i i hat
      have hnot : (exp.addrs c).eAddrAt = none → B := fun hnone => by rw [hnone] at hat; cases hat
      unfold expandHost
      split
      · exact .syserror exp .refl
      · have hlocal : ∀ host, Evolves R conf L False (some c) (expandHostLocal conf host) :=
          evolves_expandHostLocal
        refine Faulty.wlp_seq (hlocal _ exp s hc) ?_
        intro red exp₁ s₁ hsteps
        have hcore := hsteps.core hfresh
        cases red with
        | none => exact .final _ hsteps hemail hnot
        | some red =>
          simp only
          split
          · exact .final _ hsteps hemail hnot
          · refine wlp_spec_after hsteps hfresh (wlp_expandRules hcopy hvacation _ (hsteps.cursor.trans hc)
              (hfresh.trans_le hsteps.fresh_le) ?_ ?_)
            · exact (congrArg (·.2.2.2.1) hcore).trans hemail
            · intro hnone
              have hplace : (exp₁.addrs c).eAddrAt = (exp.addrs c).eAddrAt := congrArg (·.2.1) hcore
              exact fun _ => hnot (hplace ▸ hnone)
  · exact wlp_expandLdap hcopy hvacation hc hfresh
  · exact trivial

end Spec

end Simta
