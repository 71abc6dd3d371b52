import Mathlib.Logic.Relation
import Simta.AddressExpand
import Simta.AtSign

/-!
# What an expansion does to its list

Everything that `address_expand` writes, as one relation between the states of `struct expand`; the
invariants of an expansion are proved of its few cases.

* `OwnWrite` — what an expansion writes to the address it is about;
* `ExpStep`, `ExpSteps` — one write, and many;
* `Evolves` — a program that writes in these ways only, with a rule for each construct.
-/

set_option autoImplicit false

namespace Simta

/-! ## Steps -/

/-- What an expansion writes to the address that it is about. -/
inductive OwnWrite : ExpAddr → ExpAddr → Prop
  | dn (a : ExpAddr) (dn : Text) (h : a.eAddrDn = none) :
    OwnWrite a { a with eAddrDn := some (dnNormalizeCase dn) }
  | owner (a : ExpAddr) (owner : Text) : OwnWrite a { a with eAddrOwner := some owner }
  | errors (a : ExpAddr) (errors : Nat) : OwnWrite a { a with eAddrErrors := errors }
  | gmailfwd (a : ExpAddr) (env : Envelope) : OwnWrite a { a with eAddrEnvGmailfwd := some env }
  | moderated (a : ExpAddr) (env : Option Envelope) : OwnWrite a { a with eAddrEnvModerated := env }
  | memonly (a : ExpAddr) (b : Bool) :
    OwnWrite a { a with
      eAddrLdapFlags.ldapMemonly := true
      eAddrLdapFlags.ldapPrivate := a.eAddrLdapFlags.ldapPrivate || b }
  | ok (a : ExpAddr) (group : Text) :
    OwnWrite a { a with eAddrOk := llInsert (dnNormalizeCase group) a.eAddrOk }
  | sender (a : ExpAddr) : OwnWrite a { a with eAddrLdapFlags.emailSender := true }

/-- An address is one entry more. -/
def Expand.counted (exp : Expand) : Expand := { exp with expEntries := exp.expEntries + 1 }

/-- A write to an address. -/
def Expand.writeAddr (exp : Expand) (e : Nat) (a : ExpAddr) : Expand :=
  { exp with addrs := Function.update exp.addrs e a }

/-- An address that is on the list, or was put there last. -/
def Expand.Known (exp : Expand) (e : Nat) : Prop := e ∈ exp.list ∨ e + 1 = exp.fresh

/-- One write of the expansion of the address at the cursor, with `conf`.  `L` allows an entry that is
    counted and lost, `O` a write to the address itself. -/
inductive ExpStep (conf : ExpandConf) (L O : Prop) : Expand → Expand → Prop
  | frame (exp : Expand) (errors : List ErrorEnv) (action : Option Action) (hosts : List Red) (gmailfwding : List Nat) :
    ExpStep conf L O exp { exp with
      expErrors := errors, expCurrentAction := action, hosts := hosts, expGmailfwding := gmailfwding }
  | lost (exp : Expand) (hL : L) : ExpStep conf L O exp exp.counted
  | insert (exp : Expand) (addr origin : Text) (errors : Nat) (addrType : AddressType) (insertHead : Bool)
      (a : ExpAddr) (hfind : exp.find addr = none) (htype : addrType ≠ .dead)
      (hnew : newAddress conf exp addr errors addrType origin = some (insertHead, a)) :
    ExpStep conf L O exp (insertAddress insertHead a exp.counted)
  | parent (exp : Expand) (e : Nat) (he : exp.Known e) :
    ExpStep conf L O exp (exp.writeAddr e
      { exp.addrs e with eAddrParents := expAddrLink exp.expAddrCursor (exp.addrs e).eAddrParents })
  | level (exp : Expand) (e c : Nat) : ExpStep conf L O exp (raiseLevel e c exp)
  | child (exp : Expand) (c e : Nat) (hc : exp.expAddrCursor = some c)
      (he : exp.Known e) :
    ExpStep conf L O exp (exp.writeAddr c
      { exp.addrs c with eAddrChildren := expAddrLink e (exp.addrs c).eAddrChildren })
  | own (exp : Expand) (c : Nat) (a : ExpAddr) (hO : O) (hc : exp.expAddrCursor = some c)
      (ha : OwnWrite (exp.addrs c) a) : ExpStep conf L O exp (exp.writeAddr c a)
  | memonly (exp : Expand) (c : Nat) (hO : O) (hc : exp.expAddrCursor = some c)
      (hflag : (exp.addrs c).eAddrLdapFlags.ldapMemonly = true) :
    ExpStep conf L O exp { exp with expMemonly := expAddrLink c exp.expMemonly }

/-- Many writes. -/
abbrev ExpSteps (conf : ExpandConf) (L O : Prop) : Expand → Expand → Prop :=
  Relation.ReflTransGen (ExpStep conf L O)

variable {conf : ExpandConf} {L O : Prop} {exp exp' : Expand}

/-- The list goes by the links from address to address. -/
theorem Expand.list_congr (hnext : ∀ x, (exp'.addrs x).eAddrNext = (exp.addrs x).eAddrNext)
    (hhead : exp'.expAddrHead = exp.expAddrHead) (hfresh : exp'.fresh = exp.fresh) : exp'.list = exp.list := by
  unfold Expand.list
  rw [hhead, hfresh, funext hnext]

/-- A field that a write leaves alone. -/
theorem Expand.writeAddr_field {γ : Type} (view : ExpAddr → γ) {e : Nat} {a : ExpAddr}
    (ha : view a = view (exp.addrs e)) (x : Nat) : view ((exp.writeAddr e a).addrs x) = view (exp.addrs x) := by
  unfold Expand.writeAddr
  by_cases hx : x = e
  · subst hx
    simpa using ha
  · simp [Function.update_of_ne hx]

@[simp] theorem Expand.writeAddr_self {e : Nat} {a : ExpAddr} : (exp.writeAddr e a).addrs e = a :=
  Function.update_self ..

theorem Expand.writeAddr_of_ne {e x : Nat} {a : ExpAddr} (hx : x ≠ e) : (exp.writeAddr e a).addrs x = exp.addrs x :=
  Function.update_of_ne hx ..

theorem Expand.Known.writeAddr {e x : Nat} {a : ExpAddr} (h : exp.Known e)
    (ha : a.eAddrNext = (exp.addrs x).eAddrNext) : (exp.writeAddr x a).Known e := by
  unfold Expand.Known at *
  rwa [Expand.list_congr (Expand.writeAddr_field ExpAddr.eAddrNext ha) rfl rfl]

theorem ExpStep.cursor (h : ExpStep conf L O exp exp') : exp'.expAddrCursor = exp.expAddrCursor := by
  cases h with
  | insert =>
    unfold insertAddress
    split
    · rfl
    · split
      · split <;> rfl
      · rfl
  | _ => rfl

theorem ExpStep.env (h : ExpStep conf L O exp exp') : exp'.expEnv = exp.expEnv := by
  cases h with
  | insert =>
    unfold insertAddress
    split
    · rfl
    · split
      · split <;> rfl
      · rfl
  | _ => rfl

theorem ExpSteps.env (h : ExpSteps conf L O exp exp') : exp'.expEnv = exp.expEnv := by
  induction h with
  | refl => rfl
  | tail _ hstep ih => rw [hstep.env, ih]

theorem ExpSteps.cursor (h : ExpSteps conf L O exp exp') : exp'.expAddrCursor = exp.expAddrCursor := by
  induction h with
  | refl => rfl
  | tail _ hstep ih => rw [hstep.cursor, ih]

/-! ## Programs -/

section Evolves

variable {σ : Type} {R : Prog.World ExpOp ExpAns σ} {α β : Type} {c : Option Nat}

/-- Every run with the cursor at `c` writes in these ways only. -/
def Evolves (R : Prog.World ExpOp ExpAns σ) (conf : ExpandConf) (L O : Prop) (c : Option Nat) (m : ExpProg α) :
    Prop :=
  ∀ exp s, exp.expAddrCursor = c → m.wlp R True (fun _ exp' _ => ExpSteps conf L O exp exp') exp s

theorem evolves_pure (a : α) : Evolves R conf L O c (pure a : ExpProg α) := fun _ _ _ => .refl

theorem evolves_fault : Evolves R conf L O c (Faulty.fault : ExpProg α) := fun _ _ _ => trivial

theorem evolves_get : Evolves R conf L O c (get : ExpProg Expand) := fun _ _ _ => .refl

theorem evolves_ask (op : ExpOp) : Evolves R conf L O c (ExpProg.ask op) := fun _ _ _ _ _ _ => .refl

theorem evolves_modify {f : Expand → Expand}
    (hf : ∀ exp : Expand, exp.expAddrCursor = c → ExpStep conf L O exp (f exp)) :
    Evolves R conf L O c (modify f : ExpProg PUnit) := fun exp _ hc => .single (hf exp hc)

theorem evolves_bind {m : ExpProg α} {g : α → ExpProg β} (hm : Evolves R conf L O c m)
    (hg : ∀ a, Evolves R conf L O c (g a)) : Evolves R conf L O c (m >>= g) := by
  intro exp s hc
  refine Faulty.wlp_seq (hm exp s hc) ?_
  intro a exp' s' hsteps
  exact Faulty.wlp_mono (fun _ _ _ h => hsteps.trans h) (hg a exp' s' (hsteps.cursor.trans hc))

theorem evolves_addr (e : Nat) : Evolves R conf L O c (ExpProg.addr e) := fun _ _ _ => .refl

/-- A write to the address itself. -/
theorem evolves_own {e : Nat} {f : ExpAddr → ExpAddr} (hO : O) (hf : ∀ a, OwnWrite a (f a)) :
    Evolves R conf L O (some e) (ExpProg.write e f) :=
  evolves_modify fun exp hc => .own exp e _ hO hc (hf _)

/-- Less may be allowed. -/
theorem ExpStep.mono {L' O' : Prop} (hL : L → L') (hO : O → O') (h : ExpStep conf L O exp exp') :
    ExpStep conf L' O' exp exp' := by
  cases h with
  | frame errors action hosts gmailfwding => exact .frame exp errors action hosts gmailfwding
  | lost h => exact .lost exp (hL h)
  | insert addr origin errors addrType insertHead a hfind htype hnew =>
    exact .insert exp addr origin errors addrType insertHead a hfind htype hnew
  | parent e he => exact .parent exp e he
  | level e c => exact .level exp e c
  | child c e hc he => exact .child exp c e hc he
  | own c a h hc ha => exact .own exp c a (hO h) hc ha
  | memonly c h hc hflag => exact .memonly exp c (hO h) hc hflag

theorem ExpSteps.mono {L' O' : Prop} (hL : L → L') (hO : O → O') (h : ExpSteps conf L O exp exp') :
    ExpSteps conf L' O' exp exp' :=
  Relation.ReflTransGen.mono (fun _ _ => ExpStep.mono hL hO) _ _ h

theorem Evolves.mono {L' O' : Prop} {m : ExpProg α} (h : Evolves R conf L O c m) (hL : L → L') (hO : O → O') :
    Evolves R conf L' O' c m :=
  fun exp s hc => Faulty.wlp_mono (fun _ _ _ => ExpSteps.mono hL hO) (h exp s hc)

/-! ### The error envelopes -/

theorem evolves_errors {f : List ErrorEnv → List ErrorEnv} :
    Evolves R conf L O c (modify fun exp => { exp with expErrors := f exp.expErrors } : ExpProg PUnit) :=
  evolves_modify fun exp _ => .frame exp (f exp.expErrors) exp.expCurrentAction exp.hosts exp.expGmailfwding

theorem evolves_bounceTextAt (errors : Nat) (isError : Bool) (text : Text) :
    Evolves R conf L O c (bounceTextAt errors isError text) := by
  have hrest : ∀ f : List ErrorEnv → List ErrorEnv, Evolves R conf L O c (do
      if ← ExpProg.ask .alloc then
        modify fun exp => { exp with expErrors := f exp.expErrors }
        return true
      else return false) := by
    intro f
    refine evolves_bind (evolves_ask _) fun a => ?_
    cases a
    · exact evolves_pure _
    · exact evolves_bind evolves_errors fun _ => evolves_pure _
  unfold bounceTextAt
  split
  · exact evolves_bind evolves_errors fun _ => hrest _
  · exact hrest _

theorem evolves_addressBounceCreate : Evolves R conf L O c (addressBounceCreate conf) := by
  refine evolves_bind (evolves_ask _) fun id => ?_
  cases id with
  | none => exact evolves_pure _
  | some id =>
    intro exp s _
    exact .single (.frame exp _ exp.expCurrentAction exp.hosts exp.expGmailfwding)

theorem evolves_errorRecipient (errors : Nat) (addr : Text) : Evolves R conf L O c (errorRecipient errors addr) := by
  refine evolves_bind (evolves_ask _) fun a => ?_
  cases a
  · exact evolves_pure _
  · exact evolves_bind evolves_errors fun _ => evolves_pure _

theorem evolves_bounceAddr (e : Nat) (isError : Bool) (text : Text) :
    Evolves R conf L O c (bounceAddr e isError text) :=
  evolves_bind (evolves_addr e) fun _ => evolves_bounceTextAt _ _ _

theorem evolves_bounceTexts (e : Nat) (texts : List Text) : Evolves R conf L O c (bounceTexts e texts) := by
  induction texts with
  | nil => exact evolves_pure _
  | cons text rest ih =>
    refine evolves_bind (evolves_bounceAddr _ _ _) fun a => ?_
    cases a
    · exact evolves_pure _
    · exact ih

/-! ### The list -/

section Rules

variable {F : Prop} {Q : β → Expand → σ → Prop} {s : σ}

theorem wlp_get_bind {g : Expand → ExpProg β} (h : (g exp).wlp R F Q exp s) :
    (get >>= g : ExpProg β).wlp R F Q exp s :=
  (Faulty.wlp_bind _ _).mpr h

theorem wlp_addr_bind {e : Nat} {g : ExpAddr → ExpProg β} (h : (g (exp.addrs e)).wlp R F Q exp s) :
    (ExpProg.addr e >>= g : ExpProg β).wlp R F Q exp s :=
  (Faulty.wlp_bind _ _).mpr h

theorem wlp_modify_bind {f : Expand → Expand} {g : PUnit → ExpProg β} (h : (g ⟨⟩).wlp R F Q (f exp) s) :
    (modify f >>= g : ExpProg β).wlp R F Q exp s :=
  (Faulty.wlp_bind _ _).mpr h

theorem wlp_set_bind {exp' : Expand} {g : PUnit → ExpProg β} (h : (g ⟨⟩).wlp R F Q exp' s) :
    (set exp' >>= g : ExpProg β).wlp R F Q exp s :=
  (Faulty.wlp_bind _ _).mpr h

theorem wlp_write {e : Nat} {f : ExpAddr → ExpAddr} {Q : PUnit → Expand → σ → Prop}
    (h : Q ⟨⟩ (exp.writeAddr e (f (exp.addrs e))) s) : (ExpProg.write e f).wlp R F Q exp s := h

theorem wlp_ask_bind {op : ExpOp} {g : ExpAns op → ExpProg β}
    (h : ∀ a t, R op s a t → (g a).wlp R F Q exp t) : (ExpProg.ask op >>= g : ExpProg β).wlp R F Q exp s :=
  (Faulty.wlp_bind _ _).mpr h

/-- What comes behind a program that writes in these ways, and leaves a state of which `P` holds. -/
theorem wlp_steps_bind {m : ExpProg α} {g : α → ExpProg β} {P : α → Expand → Prop}
    (hm : m.wlp R True (fun a exp' _ => ExpSteps conf L O exp exp' ∧ P a exp') exp s)
    (hg : ∀ a exp' s', P a exp' → (g a).wlp R True (fun _ exp'' _ => ExpSteps conf L O exp' exp'') exp' s') :
    (m >>= g).wlp R True (fun _ exp' _ => ExpSteps conf L O exp exp') exp s := by
  refine Faulty.wlp_seq hm ?_
  rintro a exp' s' ⟨hsteps, hP⟩
  exact Faulty.wlp_mono (fun _ _ _ h => hsteps.trans h) (hg a exp' s' hP)

end Rules

theorem wlp_linkParent {s : σ} {e : Nat} (he : exp.Known e) :
    (linkParent e exp.expAddrCursor).wlp R True (fun _ exp' _ =>
      ExpSteps conf L O exp exp' ∧ exp'.Known e ∧ exp'.expAddrCursor = exp.expAddrCursor) exp s := by
  apply wlp_addr_bind
  split
  · exact ⟨.refl, he, rfl⟩
  · apply wlp_ask_bind
    intro b t _
    cases b
    · exact ⟨.refl, he, rfl⟩
    · exact ⟨.single (.parent _ e he), he.writeAddr rfl, rfl⟩

theorem wlp_linkChild {s : σ} {c e : Nat} (he : exp.Known e) (hc : exp.expAddrCursor = some c) :
    (linkChild c e).wlp R True (fun _ exp' _ => ExpSteps conf L O exp exp') exp s := by
  apply wlp_addr_bind
  split
  · exact .refl
  · apply wlp_ask_bind
    intro b t _
    cases b
    · exact .refl
    · exact .single (.child _ c e hc he)

/-- The links of an address that is on the list, or was put there last. -/
theorem wlp_linkAddress {s : σ} {e : Nat} (he : exp.Known e) :
    (linkAddress e).wlp R True (fun _ exp' _ => ExpSteps conf L O exp exp') exp s := by
  apply wlp_get_bind
  refine wlp_steps_bind (wlp_linkParent he) ?_
  rintro b exp' s ⟨he, hcursor⟩
  cases b
  · exact .refl
  · rw [if_pos rfl]
    split
    · exact .refl
    · rename_i c hc
      have hlevel : ExpStep conf L O exp' (raiseLevel e c exp') := .level exp' e c
      have hknown : (raiseLevel e c exp').Known e := he.writeAddr (x := e) rfl
      apply wlp_modify_bind
      exact Faulty.wlp_mono (fun _ _ _ h => (Relation.ReflTransGen.single hlevel).trans h)
        (wlp_linkChild hknown (hlevel.cursor.trans (hcursor.trans hc)))

/-- An insertion in the eyes of a view that does not see the links from address to address. -/
theorem insertAddress_view {γ : Type} (view : ExpAddr → γ)
    (hview : ∀ a next, view { a with eAddrNext := next } = view a) (insertHead : Bool) (a : ExpAddr)
    (exp : Expand) (x : Nat) :
    view ((insertAddress insertHead a exp).addrs x) = if x = exp.fresh then view a else view (exp.addrs x) := by
  have hput : ∀ next, view ((Function.update exp.addrs exp.fresh { a with eAddrNext := next }) x) =
      if x = exp.fresh then view a else view (exp.addrs x) := by
    intro next
    by_cases hx : x = exp.fresh
    · rw [if_pos hx, hx, Function.update_self, hview]
    · rw [if_neg hx, Function.update_of_ne hx]
  have hwrite : ∀ next e next', view ((AddrHeap.write e (fun b => { b with eAddrNext := next' })
      (Function.update exp.addrs exp.fresh { a with eAddrNext := next })) x) =
        if x = exp.fresh then view a else view (exp.addrs x) := by
    intro next e next'
    rw [AddrHeap.write_field view (fun b => hview b next'), hput]
  unfold insertAddress
  split
  · exact hput _
  · split
    · split
      · exact hwrite _ _ _
      · exact hput _
    · exact hwrite _ _ _

theorem insertAddress_fresh (insertHead : Bool) (a : ExpAddr) (exp : Expand) :
    (insertAddress insertHead a exp).fresh = exp.fresh + 1 := by
  unfold insertAddress
  split
  · rfl
  · split
    · split <;> rfl
    · rfl

/-- Only an e-mail address has a syntax that can be wrong. -/
theorem newAddress_eq_none {addr origin : Text} {errors : Nat} {addrType : AddressType}
    (h : newAddress conf exp addr errors addrType origin = none) : addrType = .email ∧ addressAt addr = none := by
  unfold newAddress at h
  split at h
  · exact ⟨rfl, Option.map_eq_none_iff.mp h⟩
  · cases h

theorem wlp_copyAddress {s : σ} (hcopy : ∀ s t, R .copy s false t → L) :
    copyAddress.wlp R True (fun b exp' _ => (b = false → L) ∧ exp' = exp) exp s := by
  apply wlp_ask_bind
  intro a t ha
  cases a
  · exact ⟨fun _ => hcopy _ _ ha, rfl⟩
  · intro b t hb
    cases b
    · exact ⟨fun _ => hcopy _ _ hb, rfl⟩
    · exact ⟨(fun h => by cases h), rfl⟩

/-- The address is on the list, from a state on that the expansion comes through. -/
def Expand.Added (conf : ExpandConf) (O : Prop) (exp : Expand) (addr : Text) (exp' : Expand) : Prop :=
  ∃ exp₁ e, ExpSteps conf False O exp exp₁ ∧ ExpSteps conf False O exp₁ exp' ∧ exp₁.Known e ∧
    strcaseEq addr (exp₁.addrs e).eAddr = true

/-- The text of a new address is the one it was given. -/
theorem newAddress_eAddr {addr origin : Text} {errors : Nat} {addrType : AddressType} {insertHead : Bool}
    {a : ExpAddr} (h : newAddress conf exp addr errors addrType origin = some (insertHead, a)) : a.eAddr = addr := by
  unfold newAddress at h
  split at h
  · obtain ⟨place, -, hplace⟩ := Option.map_eq_some_iff.mp h
    cases place <;> cases hplace <;> rfl
  · cases h
    rfl

theorem strcaseEq_refl (a : Text) : strcaseEq a a = true := decide_eq_true rfl

/-- **What `add_address` does**: the address is on the list already, or it is put there; or it is counted
    and lost, which takes a copy that fails or a wrong syntax. -/
theorem wlp_addAddress {addr origin : Text} {errors : Nat} {addrType : AddressType} {s : σ}
    (hcopy : ∀ s t, R .copy s false t → L) (hwrong : addrType = .email → addressAt addr = none → L) :
    (addAddress conf addr errors addrType origin).wlp R True (fun b exp' _ => ExpSteps conf L O exp exp' ∧
      (b = true → exp.Added conf O addr exp')) exp s := by
  have hlost : L → ExpSteps conf L O exp exp.counted := fun hL => .single (.lost exp hL)
  apply wlp_get_bind
  split
  · rename_i e he
    have hknown : exp.Known e := .inl (List.mem_of_find?_eq_some he)
    have heq : strcaseEq addr (exp.addrs e).eAddr = true := by
      have := List.find?_some he
      simpa using this
    exact Faulty.wlp_mono (fun _ _ _ h => ⟨ExpSteps.mono False.elim id h, fun _ => ⟨exp, e, .refl, h, hknown, heq⟩⟩)
      (wlp_linkAddress hknown)
  · rename_i hfind
    apply wlp_ask_bind
    intro b t _
    cases b
    · exact ⟨.refl, (fun h => by cases h)⟩
    · apply wlp_modify_bind
      refine Faulty.wlp_seq (wlp_copyAddress hcopy) ?_
      rintro b exp' s ⟨hb, rfl⟩
      cases b
      · exact ⟨hlost (hb rfl), (fun h => by cases h)⟩
      · rw [if_pos rfl]
        split
        · exact trivial
        · rename_i htype
          apply wlp_get_bind
          split
          · rename_i hnew
            obtain ⟨hemail, hat⟩ := newAddress_eq_none hnew
            exact ⟨hlost (hwrong hemail hat), (fun h => by cases h)⟩
          · rename_i insertHead a hnew
            have hinsert : ExpStep conf False O exp (insertAddress insertHead a exp.counted) :=
              .insert exp addr origin errors addrType insertHead a hfind htype hnew
            have hknown : (insertAddress insertHead a exp.counted).Known exp.fresh :=
              .inr (insertAddress_fresh insertHead a exp.counted).symm
            have haddr : ((insertAddress insertHead a exp.counted).addrs exp.fresh).eAddr = addr := by
              rw [insertAddress_view ExpAddr.eAddr (fun _ _ => rfl)]
              exact (if_pos rfl).trans (newAddress_eAddr hnew)
            apply wlp_set_bind
            have hlink : (linkAddress exp.fresh).wlp R True (fun _ exp' _ =>
                ExpSteps conf False O (insertAddress insertHead a exp.counted) exp')
                (insertAddress insertHead a exp.counted) s := wlp_linkAddress hknown
            refine Faulty.wlp_mono (fun _ _ _ h => ⟨?_, fun _ => ?_⟩) hlink
            · exact ExpSteps.mono False.elim id ((Relation.ReflTransGen.single hinsert).trans h)
            · exact ⟨_, _, .single hinsert, h, hknown, by rw [haddr]; exact strcaseEq_refl addr⟩

theorem evolves_addAddress {addr origin : Text} {errors : Nat} {addrType : AddressType}
    (hcopy : ∀ s t, R .copy s false t → L) (hwrong : addrType = .email → addressAt addr = none → L) :
    Evolves R conf L O c (addAddress conf addr errors addrType origin) := by
  intro exp s _
  exact Faulty.wlp_mono (fun _ _ _ h => h.1) (wlp_addAddress hcopy hwrong)

/-! ### Lines of addresses -/

/-- An accepted address has a right syntax. -/
theorem addressAt_of_isEmailaddr {addr : Text} (h : isEmailaddr addr = true) : addressAt addr ≠ none := by
  obtain ⟨⟨a, domain⟩, hparse⟩ := Option.isSome_iff_exists.mp h
  obtain ⟨-, ⟨-, hnone⟩ | ⟨user, dom, -, rfl, htoken⟩⟩ := parseNormal_cases hparse
  · rw [addressAt, if_pos hnone]
    simp
  · rw [addressAt_eq htoken]
    simp

/-- So has one that was corrected. -/
theorem addressAt_of_correctEmailaddr {domain value addr : Text} (h : correctEmailaddr domain value = some addr) :
    addressAt addr ≠ none := by
  unfold correctEmailaddr at h
  split at h
  · cases h
  · rename_i user d htoken
    split at h
    · cases h
      obtain ⟨hs, -, -, -, happ⟩ := tokenUser_append htoken
      rw [hs, addressAt_eq fun d => happ _ (fun c hc => by cases hc; rfl)]
      simp
    · cases h
  · rename_i user htoken
    cases h
    obtain ⟨-, -, -, -, happ⟩ := tokenUser_append htoken
    rw [addressAt_eq fun d => happ _ (fun c hc => by cases hc; rfl)]
    simp
  · cases h

theorem evolves_addressStringsAdd (hcopy : ∀ s t, R .copy s false t → L) (e : Nat) (origin : Text) (addrs : List Text) :
    Evolves R conf L O c (addressStringsAdd conf e origin addrs) := by
  induction addrs with
  | nil => exact evolves_pure _
  | cons addr rest ih =>
    unfold addressStringsAdd
    split
    · rename_i h
      refine evolves_bind (evolves_addr e) fun a => ?_
      refine evolves_bind (evolves_addAddress hcopy fun _ hat => absurd hat (addressAt_of_isEmailaddr h)) fun b => ?_
      cases b
      · exact evolves_pure _
      · exact ih
    · exact ih

theorem evolves_addressStringRecipients (hcopy : ∀ s t, R .copy s false t → L) (line : Text) (e : Nat) (origin : Text) :
    Evolves R conf L O c (addressStringRecipients conf line e origin) :=
  evolves_addressStringsAdd hcopy e origin _

theorem evolves_envRecipients (addrs : List Text) (env : Envelope) :
    Evolves R conf L O c (envRecipients addrs env) := by
  induction addrs generalizing env with
  | nil => exact evolves_pure _
  | cons addr rest ih =>
    refine evolves_bind (evolves_ask _) fun a => ?_
    cases a
    · exact evolves_pure _
    · exact ih _

theorem evolves_envStringRecipients (lines : List Text) (env : Envelope) :
    Evolves R conf L O c (envStringRecipients lines env) := by
  induction lines generalizing env with
  | nil => exact evolves_pure _
  | cons line rest ih =>
    refine evolves_bind (evolves_ask _) fun a => ?_
    cases a
    · exact evolves_pure _
    · refine evolves_bind (evolves_envRecipients _ _) fun env => ?_
      cases env
      · exact evolves_pure _
      · exact ih _

/-! ### Groups -/

section Group

variable {e : Nat} {ldap : SimtaLdap} {entry : LdapEntry}

/-- The copy of the name is made for an address that has none. -/
theorem evolves_groupDn (hO : O) (dn : Text) : Evolves R conf L O (some e) (groupDn e dn) := by
  intro exp s hc
  apply wlp_addr_bind
  split
  · rename_i hdn
    apply wlp_ask_bind
    intro b t _
    cases b
    · exact .refl
    · exact .single (.own exp e _ hO hc (.dn _ dn hdn))
  · exact .refl

theorem evolves_groupOwner (hO : O) (rdn : Text) : Evolves R conf L O (some e) (groupOwner ldap e rdn) := by
  refine evolves_bind (evolves_ask _) fun a => ?_
  cases a
  · exact evolves_pure _
  · exact evolves_bind (evolves_own hO fun a => .owner a _) fun _ => evolves_pure _

theorem evolves_groupNullSender (rdn : Text) (errors : Nat) : Evolves R conf L O c (groupNullSender rdn errors) := by
  refine evolves_bind (evolves_ask _) fun a => ?_
  cases a
  · exact evolves_pure _
  · exact evolves_bind (evolves_bounceTextAt _ _ _) fun _ => evolves_pure _

theorem evolves_groupSender (hO : O) (rdn : Text) : Evolves R conf L O (some e) (groupSender conf ldap e rdn) := by
  refine evolves_bind (evolves_addr e) fun a => ?_
  split
  · exact evolves_pure _
  · refine evolves_bind (evolves_ask _) fun a => ?_
    cases a
    · exact evolves_pure _
    · refine evolves_bind evolves_addressBounceCreate fun errors => ?_
      cases errors with
      | none => exact evolves_pure _
      | some errors =>
        refine evolves_bind (evolves_own hO fun a => .errors a errors) fun _ => ?_
        refine evolves_bind ?_ fun senderbuf => ?_
        · split
          · exact evolves_pure _
          · exact evolves_groupNullSender _ _
        · cases senderbuf with
          | none => exact evolves_pure _
          | some senderbuf =>
            refine evolves_bind (evolves_errorRecipient _ _) fun b => ?_
            cases b <;> exact evolves_pure _

theorem evolves_groupEnvelope (mail : Option Text) (values : List Text) :
    Evolves R conf L O c (groupEnvelope conf mail values) := by
  refine evolves_bind (evolves_ask _) fun id => ?_
  cases id with
  | none => exact evolves_pure _
  | some id => exact evolves_bind evolves_get fun _ => evolves_envStringRecipients _ _

theorem evolves_groupForward (hO : O) (dn : Text) :
    Evolves R conf L O (some e) (groupForward conf ldap e entry dn) := by
  unfold groupForward
  split
  · exact evolves_pure _
  · exact evolves_pure _
  · refine evolves_bind evolves_get fun exp => ?_
    split
    · refine evolves_bind (evolves_addr e) fun a => ?_
      refine evolves_bind (evolves_groupEnvelope _ _) fun env => ?_
      cases env with
      | none => exact evolves_pure _
      | some env =>
        simp only
        split
        · exact evolves_bind (evolves_bounceAddr _ _ _) fun _ => evolves_fault
        · refine evolves_bind (evolves_own hO fun a => .gmailfwd a env) fun _ => ?_
          refine evolves_bind (evolves_modify fun exp _ => ?_) fun _ => evolves_pure _
          exact .frame exp exp.expErrors exp.expCurrentAction exp.hosts (e :: exp.expGmailfwding)
    · exact evolves_bind (evolves_bounceAddr _ _ _) fun _ => evolves_pure _

theorem evolves_groupPermittedSender (mail : Text) (values : List Text) :
    Evolves R conf L O c (groupPermittedSender ldap mail values) := by
  induction values with
  | nil => exact evolves_pure _
  | cons value rest ih =>
    refine evolves_bind (evolves_ask _) fun a => ?_
    cases a
    · exact evolves_pure _
    · rw [if_pos rfl]
      split
      · exact evolves_pure _
      · exact ih

theorem evolves_groupMembersonly : Evolves R conf L O c (groupMembersonly ldap entry) := by
  unfold groupMembersonly
  split
  · refine evolves_bind evolves_get fun exp => ?_
    split
    · exact evolves_pure _
    · exact evolves_pure _
    · refine evolves_bind (evolves_groupPermittedSender _ _) fun b => ?_
      cases b <;> exact evolves_pure _
  · exact evolves_pure _

theorem evolves_groupModerator (hO : O) (dn : Text) (r : Bool) :
    Evolves R conf L O (some e) (groupModerator conf ldap e entry dn r) := by
  unfold groupModerator
  split
  · exact evolves_pure _
  · refine evolves_bind evolves_get fun exp => ?_
    split
    · refine evolves_bind evolves_get fun exp => ?_
      refine evolves_bind (evolves_groupEnvelope _ _) fun env => ?_
      cases env with
      | none => exact evolves_pure _
      | some env =>
        simp only
        split
        · exact evolves_bind (evolves_bounceAddr _ _ _) fun _ => evolves_pure _
        · exact evolves_bind (evolves_own hO fun a => .moderated a (some env)) fun _ => evolves_pure _
    · exact evolves_bind (evolves_bounceAddr _ _ _) fun _ => evolves_pure _

theorem evolves_permittedCreate (hO : O) (groups : List Text) :
    Evolves R conf L O (some e) (permittedCreate e groups) := by
  induction groups with
  | nil => exact evolves_pure _
  | cons group rest ih =>
    refine evolves_bind (evolves_ask _) fun a => ?_
    cases a
    · exact evolves_pure _
    · refine evolves_bind (evolves_ask _) fun a => ?_
      cases a
      · exact evolves_pure _
      · exact evolves_bind (evolves_own hO fun a => .ok a group) fun _ => ih

theorem wlp_groupFlags {s : σ} (hO : O) (hc : exp.expAddrCursor = some e) :
    (groupFlags e entry).wlp R True (fun _ exp' _ => ExpSteps conf L O exp exp' ∧
      exp'.expAddrCursor = some e ∧ (exp'.addrs e).eAddrLdapFlags.ldapMemonly = true) exp s := by
  apply wlp_write
  refine ⟨.single (.own exp e _ hO hc (.memonly _ _)), hc, ?_⟩
  rw [Expand.writeAddr_self]

theorem wlp_linkMemonly {s : σ} (hO : O) (hc : exp.expAddrCursor = some e)
    (hflag : (exp.addrs e).eAddrLdapFlags.ldapMemonly = true) :
    (linkMemonly e).wlp R True (fun _ exp' _ => ExpSteps conf L O exp exp' ∧ exp'.expAddrCursor = some e) exp s := by
  apply wlp_get_bind
  split
  · exact ⟨.refl, hc⟩
  · apply wlp_ask_bind
    intro b t _
    cases b
    · exact ⟨.refl, hc⟩
    · exact ⟨.single (.memonly exp e hO hc hflag), hc⟩

/-- The group comes onto the list of the members-only groups once its flag is set. -/
theorem evolves_groupClose (hO : O) : Evolves R conf L O (some e) (groupClose e entry) := by
  intro exp s hc
  refine wlp_steps_bind (wlp_groupFlags hO hc) ?_
  rintro _ exp₁ s₁ ⟨hc₁, hflag⟩
  refine wlp_steps_bind (wlp_linkMemonly hO hc₁ hflag) ?_
  intro b exp₂ s₂ hc₂
  cases b
  · exact .refl
  · exact evolves_permittedCreate hO _ _ _ hc₂

theorem evolves_groupRestrict (hO : O) (r memonly : Bool) :
    Evolves R conf L O (some e) (groupRestrict e entry r memonly) := by
  unfold groupRestrict
  split
  · exact evolves_bind (evolves_own hO fun a => .moderated a none) fun _ => evolves_pure _
  · split
    · exact evolves_groupClose hO
    · exact evolves_pure _

theorem evolves_groupSuppress : Evolves R conf L O c (groupSuppress e entry) := by
  unfold groupSuppress
  split
  · exact evolves_bind (evolves_addr e) fun _ => evolves_errors
  · exact evolves_pure _

theorem evolves_groupLists (moderatorError : Bool) : Evolves R conf L O c (groupLists e entry moderatorError) := by
  refine evolves_bind (evolves_addr e) fun a => evolves_bind evolves_groupSuppress fun _ => ?_
  split <;> exact evolves_pure _

theorem evolves_groupRestricted (hO : O) (dn : Text) (r : Bool) (mo : Bool × Bool) :
    Evolves R conf L O (some e) (groupRestricted conf ldap e entry dn r mo) := by
  refine evolves_bind ?_ fun part => ?_
  · split
    · exact evolves_pure _
    · exact evolves_groupModerator hO _ _
  · cases part with
    | syserror => exact evolves_pure _
    | leave => exact evolves_pure _
    | next x =>
      refine evolves_bind (evolves_groupRestrict hO _ _) fun b => ?_
      cases b
      · exact evolves_pure _
      · exact evolves_bind (evolves_groupLists _) fun _ => evolves_pure _

theorem evolves_groupDefault (hO : O) (dn : Text) :
    Evolves R conf L O (some e) (groupDefault conf ldap e entry dn) := by
  refine evolves_bind (evolves_groupForward hO dn) fun part => ?_
  cases part with
  | syserror => exact evolves_pure _
  | leave => exact evolves_pure _
  | next r =>
    refine evolves_bind evolves_groupMembersonly fun mo => ?_
    cases mo with
    | none => exact evolves_pure _
    | some mo => exact evolves_groupRestricted hO dn r mo

theorem evolves_groupNames (hcopy : ∀ s t, R .copy s false t → L) (origin : Text) (dns : List Text) :
    Evolves R conf L O c (groupNames conf e origin dns) := by
  induction dns with
  | nil => exact evolves_pure _
  | cons dn rest ih =>
    refine evolves_bind (evolves_addr e) fun a => ?_
    refine evolves_bind (evolves_addAddress hcopy fun h => by cases h) fun b => ?_
    cases b
    · exact evolves_pure _
    · exact ih

theorem evolves_groupMails (hcopy : ∀ s t, R .copy s false t → L) (origin : Text) (values : List Text) :
    Evolves R conf L O c (groupMails conf e origin values) := by
  induction values with
  | nil => exact evolves_pure _
  | cons value rest ih =>
    unfold groupMails
    split
    · refine evolves_bind (evolves_addressStringRecipients hcopy _ _ _) fun b => ?_
      cases b
      · exact evolves_pure _
      · exact ih
    · exact ih

theorem evolves_groupMatter (hO : O) (type : LdsType) (dn : Text) :
    Evolves R conf L O (some e) (groupMatter conf ldap e type entry dn) := by
  unfold groupMatter
  split
  · exact evolves_groupDefault hO dn
  · exact evolves_pure _

end Group

/-! ### Entries -/

/-- Every run writes in these ways only and has a result of which `P` holds. -/
def EvolvesTo (R : Prog.World ExpOp ExpAns σ) (conf : ExpandConf) (L O : Prop) (c : Option Nat) (m : ExpProg α)
    (P : α → Prop) : Prop :=
  ∀ exp s, exp.expAddrCursor = c → m.wlp R True (fun a exp' _ => ExpSteps conf L O exp exp' ∧ P a) exp s

theorem evolvesTo_pure {P : α → Prop} {a : α} (h : P a) : EvolvesTo R conf L O c (pure a : ExpProg α) P :=
  fun _ _ _ => ⟨.refl, h⟩

theorem evolvesTo_fault {P : α → Prop} : EvolvesTo R conf L O c (Faulty.fault : ExpProg α) P := fun _ _ _ => trivial

theorem evolvesTo_bind {m : ExpProg α} {g : α → ExpProg β} {P : β → Prop} (hm : Evolves R conf L O c m)
    (hg : ∀ a, EvolvesTo R conf L O c (g a) P) : EvolvesTo R conf L O c (m >>= g) P := by
  intro exp s hc
  refine Faulty.wlp_seq (hm exp s hc) ?_
  intro a exp' s' hsteps
  exact Faulty.wlp_mono (fun _ _ _ h => ⟨hsteps.trans h.1, h.2⟩) (hg a exp' s' (hsteps.cursor.trans hc))

/-- What comes behind a result of which `P` holds. -/
theorem EvolvesTo.bind {m : ExpProg α} {g : α → ExpProg β} {P : α → Prop} {Q : β → Prop}
    (hm : EvolvesTo R conf L O c m P) (hg : ∀ a, P a → EvolvesTo R conf L O c (g a) Q) :
    EvolvesTo R conf L O c (m >>= g) Q := by
  intro exp s hc
  refine Faulty.wlp_seq (hm exp s hc) ?_
  rintro a exp' s' ⟨hsteps, ha⟩
  exact Faulty.wlp_mono (fun _ _ _ h => ⟨hsteps.trans h.1, h.2⟩) (hg a ha exp' s' (hsteps.cursor.trans hc))

theorem EvolvesTo.evolves {m : ExpProg α} {P : α → Prop} (h : EvolvesTo R conf L O c m P) :
    Evolves R conf L O c m :=
  fun exp s hc => Faulty.wlp_mono (fun _ _ _ h => h.1) (h exp s hc)

/-- The codes of an entry that was found. -/
def LdapReturn.Found (ret : LdapReturn) : Prop := ret = .exclude ∨ ret = .syserror

section Entry

variable {e : Nat} {ldap : SimtaLdap} {entry : LdapEntry}

theorem evolves_groupMembers (hcopy : ∀ s t, R .copy s false t → L) (origin dn : Text)
    (dnvals mailvals : List Text) (errmsg : Option Text) :
    EvolvesTo R conf L O c (groupMembers conf e origin dn dnvals mailvals errmsg) LdapReturn.Found := by
  refine evolvesTo_bind (evolves_groupNames hcopy _ _) fun _ => ?_
  refine evolvesTo_bind (evolves_groupMails hcopy _ _) fun _ => ?_
  split
  · exact evolvesTo_bind (evolves_bounceTexts _ _) fun _ => evolvesTo_pure (.inl rfl)
  · exact evolvesTo_pure (.inl rfl)

theorem evolves_ldapExpandGroup (hcopy : ∀ s t, R .copy s false t → L) (hO : O) (type : LdsType) :
    EvolvesTo R conf L O (some e) (ldapExpandGroup conf ldap e type entry) LdapReturn.Found := by
  unfold ldapExpandGroup
  split
  · exact evolvesTo_pure (.inr rfl)
  · refine evolvesTo_bind (evolves_groupDn hO _) fun dn => ?_
    refine evolvesTo_bind (evolves_groupOwner hO _) fun b => ?_
    cases b
    · exact evolvesTo_pure (.inr rfl)
    · refine evolvesTo_bind (evolves_groupSender hO _) fun senderbuf => ?_
      cases senderbuf with
      | none => exact evolvesTo_pure (.inr rfl)
      | some senderbuf =>
        refine evolvesTo_bind (evolves_groupMatter hO _ _) fun lists => ?_
        cases lists with
        | none => exact evolvesTo_pure (.inr rfl)
        | some lists => exact evolvesTo_bind (evolves_addr e) fun a => evolves_groupMembers hcopy _ _ _ _ _

theorem evolves_ambiguousEntries (addr : Text) (res : List LdapEntry) :
    Evolves R conf L O c (ambiguousEntries conf ldap e addr res) := by
  induction res with
  | nil => exact evolves_pure _
  | cons entry rest ih =>
    unfold ambiguousEntries
    split
    · exact evolves_fault
    · refine evolves_bind (evolves_bounceTexts _ _) fun b => ?_
      cases b
      · exact evolves_pure _
      · exact ih

theorem evolves_doAmbiguous (addr : Text) (res : List LdapEntry) :
    EvolvesTo R conf L O c (doAmbiguous conf ldap e addr res) LdapReturn.Found := by
  refine evolvesTo_bind (evolves_bounceAddr _ _ _) fun b => ?_
  cases b
  · exact evolvesTo_pure (.inl rfl)
  · exact evolvesTo_bind (evolves_ambiguousEntries _ _) fun _ => evolvesTo_pure (.inl rfl)

theorem evolves_processNoForward (addr : Text) :
    EvolvesTo R conf L O c (processNoForward conf e addr entry) LdapReturn.Found := by
  refine evolvesTo_bind (evolves_addr e) fun a => ?_
  split
  · unfold doNoemail
    split
    · exact evolvesTo_fault
    · exact evolvesTo_bind (evolves_bounceTexts _ _) fun _ => evolvesTo_pure (.inl rfl)
  · refine evolvesTo_bind evolves_get fun exp => ?_
    split
    · exact evolvesTo_fault
    · split
      · exact evolvesTo_pure (.inl rfl)
      · refine evolvesTo_bind (evolves_bounceAddr _ _ _) fun b => ?_
        cases b
        · exact evolvesTo_pure (.inr rfl)
        · exact evolvesTo_pure (.inl rfl)

theorem evolves_processForwards (hcopy : ∀ s t, R .copy s false t → L) (values : List Text) :
    Evolves R conf L O c (processForwards conf e values) := by
  induction values with
  | nil => exact evolves_pure _
  | cons value rest ih =>
    refine evolves_bind (evolves_addr e) fun a => ?_
    refine evolves_bind (evolves_addressStringRecipients hcopy _ _ _) fun b => ?_
    cases b
    · exact evolves_pure _
    · exact ih

theorem evolves_processSender (hO : O) : Evolves R conf L O (some e) (processSender ldap e entry) := by
  refine evolves_bind evolves_get fun exp => ?_
  split
  · split
    · exact evolves_own hO fun a => .sender a
    · exact evolves_pure _
  · exact evolves_pure _

/-- The copy for the vacation server is counted and lost if its address is none. -/
theorem evolves_processVacation (hcopy : ∀ s t, R .copy s false t → L)
    (hvacation : ∀ buf, vacationAddress ldap entry = some buf → addressAt buf = none → L) :
    EvolvesTo R conf L O c (processVacation conf ldap e entry) LdapReturn.Found := by
  unfold processVacation
  split
  · exact evolvesTo_pure (.inl rfl)
  · rename_i buf hbuf
    refine evolvesTo_bind (evolves_addr e) fun a => ?_
    exact evolvesTo_bind (evolves_addAddress hcopy fun _ => hvacation buf hbuf) fun _ => evolvesTo_pure (.inl rfl)

theorem evolves_ldapProcessEntry (hcopy : ∀ s t, R .copy s false t → L) (hO : O)
    (hvacation : ∀ buf, vacationAddress ldap entry = some buf → addressAt buf = none → L) (type : LdsType)
    (addr : Text) :
    EvolvesTo R conf L O (some e) (ldapProcessEntry conf ldap e type entry addr) LdapReturn.Found := by
  unfold ldapProcessEntry
  split
  · exact evolves_ldapExpandGroup hcopy hO type
  · split
    · unfold processPerson
      split
      · exact evolves_processNoForward addr
      · refine evolvesTo_bind (evolves_processForwards hcopy _) fun b => ?_
        cases b
        · exact evolvesTo_pure (.inr rfl)
        · exact evolvesTo_bind (evolves_processSender hO) fun _ => evolves_processVacation hcopy hvacation
    · exact evolvesTo_bind (evolves_bounceAddr _ _ _) fun _ => evolvesTo_pure (.inl rfl)

end Entry

/-! ### Searches -/

/-- An entry that the directory of an action gives in this world. -/
inductive Given (R : Prog.World ExpOp ExpAns σ) (action : Action) (entry : LdapEntry) : Prop
  | search (search : LdapSearch) (addr domain : Text) (s t : σ) (res : LdapResult) (entries : List LdapEntry)
      (hop : R (.ldapSearch action search addr domain) s res t) (hres : res.entries = some entries)
      (hentry : entry ∈ entries)
  | dn (dn : Text) (s t : σ) (res : LdapResult) (entries : List LdapEntry)
      (hop : R (.ldapDn action dn) s res t) (hres : res.entries = some entries) (hentry : entry ∈ entries)

/-- No person on vacation has an address at the vacation server whose syntax is wrong, unless `L`. -/
def VacationOk (R : Prog.World ExpOp ExpAns σ) (conf : ExpandConf) (L : Prop) : Prop :=
  ∀ action entry, Given R action entry →
    ∀ buf, vacationAddress (conf.aLdap action) entry = some buf → addressAt buf = none → L

theorem evolves_nameQuery (action : Action) (search : LdapSearch) (addr domain : Text) (left : Nat) :
    EvolvesTo R conf L O c (nameQuery action search addr domain left)
      (fun r => ∀ x ∈ r, ∃ s t, R (.ldapSearch action search addr domain) s x.1 t) := by
  induction left with
  | zero =>
    intro exp s hc
    apply wlp_ask_bind
    intro res t hres
    split
    · exact ⟨.refl, fun x hx => by cases hx⟩
    · exact ⟨.refl, fun x hx => by cases hx; exact ⟨_, _, hres⟩⟩
  | succ left ih =>
    intro exp s hc
    apply wlp_ask_bind
    intro res t hres
    split
    · apply wlp_ask_bind
      intro b t _
      cases b
      · exact ⟨.refl, fun x hx => by cases hx⟩
      · exact ih exp t hc
    · exact ⟨.refl, fun x hx => by cases hx; exact ⟨_, _, hres⟩⟩

/-- What the searches of a name may come to. -/
def NameSearch.Of (R : Prog.World ExpOp ExpAns σ) (action : Action) : NameSearch → Prop
  | .ret code => code = .syserror ∨ code = .notFound
  | .found _ res => ∀ entry ∈ res, Given R action entry

theorem evolves_nameSearches (action : Action) (addr domain : Text) (addrtype : LdsType)
    (searches : List LdapSearch) (left : Nat) :
    EvolvesTo R conf L O c (nameSearches action addr domain addrtype searches left) (NameSearch.Of R action) := by
  induction searches generalizing left with
  | nil => exact evolvesTo_pure (.inr rfl)
  | cons search rest ih =>
    unfold nameSearches
    split
    · exact ih left
    · refine evolvesTo_bind (evolves_ask _) fun b => ?_
      cases b
      · exact evolvesTo_pure (.inl rfl)
      · refine (evolves_nameQuery action search addr domain left).bind fun r hr => ?_
        cases r with
        | none => exact evolvesTo_pure (.inl rfl)
        | some x =>
          obtain ⟨s, t, hop⟩ := hr x rfl
          simp only
          split
          · exact evolvesTo_pure (.inr rfl)
          · split
            · exact evolvesTo_pure (.inl rfl)
            · split
              · exact evolvesTo_pure (.inl rfl)
              · split
                · exact evolvesTo_pure (.inl rfl)
                · exact ih _
              · rename_i entries _ hres
                exact evolvesTo_pure fun entry hentry => .search search addr domain s t x.1 entries hop hres hentry

/-- What the directory comes to: an entry is found and what it says is written, or nothing is written to
    the address itself. -/
def LdapSpec (conf : ExpandConf) (L O : Prop) (exp : Expand) (ret : LdapReturn) (exp' : Expand) : Prop :=
  (ret.Found ∧ ExpSteps conf L O exp exp') ∨ (ret = .notFound ∧ ExpSteps conf L False exp exp')

theorem wlp_ldapNameSearch (hcopy : ∀ s t, R .copy s false t → L) (hO : O) (hvacation : VacationOk R conf L)
    {action : Action} {e : Nat} {addr domain : Text} {addrtype : LdsType} {s : σ} (hc : exp.expAddrCursor = some e) :
    (ldapNameSearch conf action e addr domain addrtype).wlp R True
      (fun ret exp' _ => LdapSpec conf L O exp ret exp') exp s := by
  have hsearches : EvolvesTo R conf L False (some e)
      (nameSearches action addr domain addrtype (conf.aLdap action).ldapSearches maxRetries)
      (NameSearch.Of R action) := evolves_nameSearches action addr domain addrtype _ _
  refine Faulty.wlp_seq (hsearches exp s hc) ?_
  rintro r exp₁ s₁ ⟨hsteps, hr⟩
  have hc₁ := hsteps.cursor.trans hc
  have hfound : ∀ {m : ExpProg LdapReturn}, EvolvesTo R conf L O (some e) m LdapReturn.Found →
      m.wlp R True (fun ret exp' _ => LdapSpec conf L O exp ret exp') exp₁ s₁ := by
    intro m hm
    refine Faulty.wlp_mono (fun ret exp' _ h => .inl ⟨h.2, ?_⟩) (hm exp₁ s₁ hc₁)
    exact (hsteps.mono id False.elim).trans h.1
  cases r with
  | ret code =>
    rcases hr with rfl | rfl
    · exact .inl ⟨.inr rfl, hsteps.mono id False.elim⟩
    · exact .inr ⟨rfl, hsteps⟩
  | found search res =>
    simp only
    split
    · rename_i entry
      exact hfound (evolves_ldapProcessEntry hcopy hO (hvacation action entry (hr entry (List.mem_singleton_self _))) _ _)
    · split
      · split
        · rename_i entry hentry
          have hmem : entry ∈ res := by
            obtain ⟨i, -, hi⟩ := List.mem_filterMap.mp (hentry ▸ List.mem_singleton_self entry :
              entry ∈ (conf.ldapRdnTaken addr res).filterMap (res[·]?))
            exact List.mem_of_getElem? hi
          exact hfound (evolves_ldapProcessEntry hcopy hO (hvacation action entry (hr entry hmem)) _ _)
        · exact hfound (evolves_doAmbiguous _ _)
      · exact hfound (evolves_doAmbiguous _ _)

theorem evolves_ldapDnExpand (hcopy : ∀ s t, R .copy s false t → L) (hO : O) (hvacation : VacationOk R conf L)
    (action : Action) (e : Nat) :
    EvolvesTo R conf L O (some e) (ldapDnExpand conf action e) LdapReturn.Found := by
  intro exp s hc
  apply wlp_addr_bind
  apply wlp_ask_bind
  intro res t hres
  split
  · exact ⟨.refl, .inr rfl⟩
  · split
    · exact ⟨.refl, .inr rfl⟩
    · refine evolvesTo_bind (evolves_bounceAddr _ _ _) (fun b => ?_) exp t hc
      cases b
      · exact evolvesTo_pure (.inr rfl)
      · exact evolvesTo_pure (.inl rfl)
    · rename_i entry _ hentries
      have hgiven := Given.dn _ s t res _ hres hentries List.mem_cons_self
      exact evolves_ldapProcessEntry hcopy hO (hvacation action entry hgiven) _ _ exp t hc

theorem evolves_ldapDequote (name : Text) : Evolves R conf L O c (ldapDequote name) := by
  unfold ldapDequote
  split
  · refine evolves_bind (evolves_ask _) fun b => ?_
    cases b <;> exact evolves_pure _
  · exact evolves_pure _

/-- **What `simta_ldap_expand` does.** -/
theorem wlp_ldapExpand (hcopy : ∀ s t, R .copy s false t → L) (hO : O) (hvacation : VacationOk R conf L)
    (action : Action) {e : Nat} {s : σ} (hc : exp.expAddrCursor = some e) :
    (ldapExpand conf action e).wlp R True (fun ret exp' _ => LdapSpec conf L O exp ret exp') exp s := by
  apply wlp_ask_bind
  intro b t _
  cases b
  · exact .inl ⟨.inr rfl, .refl⟩
  · apply wlp_addr_bind
    split
    · have hdn := evolves_ldapDnExpand hcopy hO hvacation action e exp t hc
      exact Faulty.wlp_mono (fun _ _ _ h => .inl ⟨h.2, h.1⟩) hdn
    · split
      · exact trivial
      · apply wlp_addr_bind
        apply wlp_ask_bind
        intro b t _
        cases b
        · exact .inl ⟨.inr rfl, .refl⟩
        · have hdequote : ∀ name, Evolves R conf L False (some e) (ldapDequote name) := evolves_ldapDequote
          refine Faulty.wlp_seq (hdequote _ exp t hc) ?_
          intro dq exp' t' hsteps
          refine Faulty.wlp_mono ?_ (wlp_ldapNameSearch hcopy hO hvacation (hsteps.cursor.trans hc))
          rintro ret exp'' _ (⟨hret, h⟩ | ⟨hret, h⟩)
          · exact .inl ⟨hret, (hsteps.mono id False.elim).trans h⟩
          · exact .inr ⟨hret, hsteps.trans h⟩

/-! ### The rules -/

theorem evolves_aliasValues (hcopy : ∀ s t, R .copy s false t → L) (e : Nat) (values : List Text) :
    Evolves R conf L O c (aliasValues conf e values) := by
  induction values with
  | nil => exact evolves_pure _
  | cons value rest ih =>
    refine evolves_bind (evolves_ask _) fun b => ?_
    cases b
    · exact evolves_pure _
    · rw [if_pos rfl]
      split
      · exact ih
      · rename_i addr haddr
        refine evolves_bind ?_ fun b => ?_
        · split
          · exact evolves_pure _
          · exact evolves_ask _
        · cases b
          · exact evolves_pure _
          · refine evolves_bind (evolves_addr e) fun a => ?_
            have hat := addressAt_of_correctEmailaddr haddr
            refine evolves_bind (evolves_addAddress hcopy fun _ h => absurd h hat) fun b => ?_
            cases b
            · exact evolves_pure _
            · exact ih

theorem evolves_aliasExpand (hcopy : ∀ s t, R .copy s false t → L) (e : Nat) (action : Action) :
    Evolves R conf L O c (aliasExpand conf e action) := by
  refine evolves_bind (evolves_ask _) fun opening => ?_
  split
  · exact evolves_pure _
  · refine evolves_bind (evolves_addr e) fun a => ?_
    split
    · split
      · exact evolves_fault
      · exact evolves_pure _
    · refine evolves_bind (evolves_ask _) fun values => ?_
      split
      · split <;> exact evolves_pure _
      · refine evolves_bind (evolves_aliasValues hcopy e _) fun b => ?_
        cases b
        · exact evolves_pure _
        · rw [if_pos rfl]
          split <;> exact evolves_pure _

theorem evolves_forwardRecipients (hcopy : ∀ s t, R .copy s false t → L) (e : Nat) (lines : List Text) :
    Evolves R conf L O c (forwardRecipients conf e lines) := by
  induction lines with
  | nil => exact evolves_pure _
  | cons line rest ih =>
    refine evolves_bind (evolves_addr e) fun a => ?_
    refine evolves_bind (evolves_addressStringRecipients hcopy _ _ _) fun b => ?_
    cases b
    · exact evolves_pure _
    · exact ih

theorem evolves_forwardText (hcopy : ∀ s t, R .copy s false t → L) (e : Nat) (t : Text) (closed : Bool) :
    Evolves R conf L O c (forwardText conf e t closed) := by
  refine evolves_bind (evolves_forwardRecipients hcopy _ _) fun b => ?_
  split
  · split <;> exact evolves_pure _
  · exact evolves_pure _

theorem evolves_passwordExpand (hcopy : ∀ s t, R .copy s false t → L) (e : Nat) (action : Action) :
    Evolves R conf L O c (passwordExpand conf e action) := by
  refine evolves_bind (evolves_addr e) fun a => evolves_bind (evolves_ask _) fun dir => ?_
  split
  · exact evolves_pure _
  · split
    · exact evolves_pure _
    · refine evolves_bind (evolves_ask _) fun fwd => ?_
      split
      · exact evolves_pure _
      · exact evolves_pure _
      · exact evolves_forwardText hcopy e _ _

end Evolves

end Simta
