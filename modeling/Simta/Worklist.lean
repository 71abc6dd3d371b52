import Simta.ExpandRules

/-!
# The worklist of an expansion

The first part of `expand`: the original recipients come onto the list, and a cursor goes over it while
`address_expand` puts more addresses behind the cursor or at the end.

* `expandStart`, `expandVisit`, `expandLoop` — that part of the function;
* `AddrList` — the list with its tail and its allocated addresses;
* `AddrList.step` — a write of an expansion keeps it in order, and adds to what is pending only;
* `wlp_expandStart` — the original recipients come onto it.
-/

set_option autoImplicit false

namespace Simta

/-! ## The loop -/

/-- The state of an expansion that has done nothing yet. -/
def Expand.init (env : Envelope) (hosts : List Red) : Expand where
  expEnv := env
  expAddrHead := none
  expAddrTail := none
  expAddrCursor := none
  expCurrentAction := none
  expErrors := []
  expMaxLevel := 0
  expEntries := 0
  expMemonly := []
  expGmailfwding := []
  addrs := fun _ => ExpAddr.init [] .email [] 0 none
  fresh := 0
  hosts := hosts

/-- The original recipients onto the list. -/
def addRecipients (conf : ExpandConf) (base : Nat) (mail : Text) : List Recipient → ExpProg Bool
  | [] => return true
  | rcpt :: rest => do
    if ← addAddress conf rcpt.rRcpt base .email mail then addRecipients conf base mail rest
    else return false

/-- The cursor at the head of the list. -/
def Expand.atHead (exp : Expand) : Expand := { exp with expAddrCursor := exp.expAddrHead }

/-- `expand` up to its loop; whether it gets there. -/
def expandStart (conf : ExpandConf) : ExpProg Bool := do
  match ← addressBounceCreate conf with
  | none => return false
  | some base =>
    let env := (← get).expEnv
    match env.eMail with
    | none => Faulty.fault
    | some mail =>
      if ← errorRecipient base mail then
        if ← addRecipients conf base mail env.eRcpt then
          modify Expand.atHead
          return true
        else return false
      else return false

/-- The end of a round: the address at the cursor is terminal or not, and the cursor goes on. -/
def Expand.visited (exp : Expand) (c : Nat) (terminal : Bool) : Expand :=
  let exp' := exp.writeAddr c { exp.addrs c with eAddrTerminal := terminal }
  { exp' with expAddrCursor := (exp'.addrs c).eAddrNext }

/-- A round of the loop; whether there is no system error. -/
def expandVisit (conf : ExpandConf) (c : Nat) : ExpProg Bool := do
  match ← addressExpand conf c with
  | .exclude =>
    modify fun exp => exp.visited c false
    return true
  | .final =>
    modify fun exp => exp.visited c true
    return true
  | .syserror => return false

/-- At most `n` rounds of the loop; `none` when it is not at its end then. -/
def expandLoop (conf : ExpandConf) : Nat → ExpProg (Option Bool)
  | 0 => do return if (← get).expAddrCursor = none then some true else none
  | n + 1 => do
    match (← get).expAddrCursor with
    | none => return some true
    | some c => if ← expandVisit conf c then expandLoop conf n else return some false

/-! ## The list -/

variable {conf : ExpandConf} {L O B : Prop} {exp exp' : Expand} {l done pending : List Nat}

/-- The list is `l`: linked in order, with every address that is allocated, no two of them equal up to
    case, and the tail at its end. -/
structure AddrList (l : List Nat) (exp : Expand) : Prop where
  chained : Chained (fun e => (exp.addrs e).eAddrNext) exp.expAddrHead l
  nodup : l.Nodup
  allocated : ∀ e, e ∈ l ↔ e < exp.fresh
  tail : exp.expAddrTail = l.getLast?
  distinct : ∀ e ∈ l, ∀ e' ∈ l, strcaseEq (exp.addrs e).eAddr (exp.addrs e').eAddr = true → e = e'

/-- The list has as many addresses as were allocated. -/
theorem AddrList.length_eq (h : AddrList l exp) : l.length = exp.fresh := by
  have hperm : l.Perm (List.range exp.fresh) := by
    rw [List.perm_ext_iff_of_nodup h.nodup List.nodup_range]
    intro e
    rw [h.allocated, List.mem_range]
  rw [hperm.length_eq, List.length_range]

theorem AddrList.list_eq (h : AddrList l exp) : exp.list = l :=
  h.chained.chain_eq h.length_eq.le

theorem AddrList.known (h : AddrList l exp) {e : Nat} (he : exp.Known e) : e < exp.fresh := by
  rcases he with he | he
  · rwa [h.list_eq, h.allocated] at he
  · omega

theorem AddrList.init (env : Envelope) (hosts : List Red) : AddrList [] (Expand.init env hosts) where
  chained := rfl
  nodup := List.nodup_nil
  allocated e := ⟨fun h => absurd h List.not_mem_nil, fun h => absurd h (Nat.not_lt_zero e)⟩
  tail := rfl
  distinct _ he := absurd he List.not_mem_nil

/-- Writes that change no link and no text, as far as the list goes. -/
theorem AddrList.congr (h : AddrList l exp) (hnext : ∀ x, (exp'.addrs x).eAddrNext = (exp.addrs x).eAddrNext)
    (haddr : ∀ x, (exp'.addrs x).eAddr = (exp.addrs x).eAddr) (hhead : exp'.expAddrHead = exp.expAddrHead)
    (htail : exp'.expAddrTail = exp.expAddrTail) (hfresh : exp'.fresh = exp.fresh) : AddrList l exp' where
  chained := by
    rw [hhead]
    exact h.chained.congr fun x _ => hnext x
  nodup := h.nodup
  allocated e := by rw [hfresh, h.allocated]
  tail := htail.trans h.tail
  distinct e he e' he' heq := h.distinct e he e' he' (by rwa [haddr, haddr] at heq)

/-- A new address between two parts of the list. -/
theorem AddrList.insert {l₁ l₂ : List Nat} (h : AddrList (l₁ ++ l₂) exp) (hfresh : exp'.fresh = exp.fresh + 1)
    (htail : exp'.expAddrTail = (l₁ ++ exp.fresh :: l₂).getLast?)
    (hhead : exp'.expAddrHead = if l₁ = [] then some exp.fresh else exp.expAddrHead)
    (hself : (exp'.addrs exp.fresh).eAddrNext = l₂.head?)
    (hlast : ∀ x ∈ l₁.getLast?, (exp'.addrs x).eAddrNext = some exp.fresh)
    (hnext : ∀ x ∈ l₁ ++ l₂, l₁.getLast? ≠ some x → (exp'.addrs x).eAddrNext = (exp.addrs x).eAddrNext)
    (haddr : ∀ x ∈ l₁ ++ l₂, (exp'.addrs x).eAddr = (exp.addrs x).eAddr)
    (hnew : ∀ x ∈ l₁ ++ l₂, strcaseEq (exp'.addrs exp.fresh).eAddr (exp.addrs x).eAddr = false) :
    AddrList (l₁ ++ exp.fresh :: l₂) exp' := by
  have hnotin : exp.fresh ∉ l₁ ++ l₂ := fun hmem => Nat.lt_irrefl _ ((h.allocated _).mp hmem)
  have hmem : ∀ e, e ∈ l₁ ++ exp.fresh :: l₂ ↔ e = exp.fresh ∨ e ∈ l₁ ++ l₂ := by
    intro e
    simp only [List.mem_append, List.mem_cons]
    tauto
  refine ⟨?_, ?_, ?_, htail, ?_⟩
  · rw [hhead]
    exact Chained.insert h.chained h.nodup hself hlast hnext
  · rw [List.nodup_middle, List.nodup_cons]
    exact ⟨hnotin, h.nodup⟩
  · intro e
    rw [hmem, h.allocated, hfresh]
    omega
  · intro e he e' he' heq
    rcases (hmem e).mp he with rfl | he <;> rcases (hmem e').mp he' with rfl | he'
    · rfl
    · rw [haddr e' he', hnew e' he'] at heq
      cases heq
    · rw [strcaseEq_comm, haddr e he, hnew e he] at heq
      cases heq
    · rw [haddr e he, haddr e' he'] at heq
      exact h.distinct e he e' he' heq

/-- No address on the list is one that is not found there. -/
theorem AddrList.not_found (h : AddrList l exp) {addr : Text} (hfind : exp.find addr = none) :
    ∀ x ∈ l, strcaseEq addr (exp.addrs x).eAddr = false := by
  intro x hx
  rw [Expand.find, h.list_eq, List.find?_eq_none] at hfind
  exact Bool.eq_false_iff.mpr (hfind x hx)

/-- The links once a new address is linked to `next`, and an address on the list to it. -/
theorem relinked_next (h : AddrHeap) (e t : Nat) (a : ExpAddr) (next next' : Option Nat) (x : Nat) :
    ((AddrHeap.write t (fun b => { b with eAddrNext := next' })
      (Function.update h e { a with eAddrNext := next })) x).eAddrNext =
      if x = t then next' else if x = e then next else (h x).eAddrNext := by
  by_cases hxt : x = t
  · rw [if_pos hxt, hxt, AddrHeap.write_self]
  · rw [if_neg hxt, AddrHeap.write_of_ne _ _ hxt]
    by_cases hxe : x = e
    · rw [if_pos hxe, hxe, Function.update_self]
    · rw [if_neg hxe, Function.update_of_ne hxe]

/-- **An insertion** puts the new address behind the cursor, or at the end. -/
theorem AddrList.insertAddress (h : AddrList (done ++ pending) exp) (hcursor : exp.expAddrCursor = done.getLast?)
    (insertHead : Bool) {a : ExpAddr} (hfind : exp.find a.eAddr = none) :
    ∃ pending', (pending' = exp.fresh :: pending ∨ pending' = pending ++ [exp.fresh]) ∧
      AddrList (done ++ pending') (insertAddress insertHead a exp) := by
  have hnot := h.not_found hfind
  have hne : ∀ x ∈ done ++ pending, x ≠ exp.fresh := fun x hx => Nat.ne_of_lt ((h.allocated x).mp hx)
  have haddr : ∀ x ∈ done ++ pending,
      ((Simta.insertAddress insertHead a exp).addrs x).eAddr = (exp.addrs x).eAddr := by
    intro x hx
    rw [insertAddress_view ExpAddr.eAddr (fun _ _ => rfl), if_neg (hne x hx)]
  have hnew : ∀ x ∈ done ++ pending,
      strcaseEq ((Simta.insertAddress insertHead a exp).addrs exp.fresh).eAddr (exp.addrs x).eAddr = false := by
    intro x hx
    rw [insertAddress_view ExpAddr.eAddr (fun _ _ => rfl), if_pos rfl]
    exact hnot x hx
  have hfresh := insertAddress_fresh insertHead a exp
  have hput : ∀ next x, ((Function.update exp.addrs exp.fresh { a with eAddrNext := next }) x).eAddrNext =
      if x = exp.fresh then next else (exp.addrs x).eAddrNext := by
    intro next x
    by_cases hx : x = exp.fresh
    · rw [if_pos hx, hx, Function.update_self]
    · rw [if_neg hx, Function.update_of_ne hx]
  revert haddr hnew hfresh
  unfold Simta.insertAddress
  split
  · -- the list is empty
    rename_i htail
    intro haddr hnew hfresh
    have hnil : done ++ pending = [] := List.getLast?_eq_none_iff.mp (h.tail ▸ htail)
    obtain ⟨rfl, rfl⟩ := List.append_eq_nil_iff.mp hnil
    refine ⟨[exp.fresh], .inl rfl, h.insert hfresh rfl rfl ?_ ?_ ?_ haddr hnew⟩
    · simp
    · intro x hx
      cases hx
    · intro x hx
      cases hx
  · rename_i tail htail
    split
    · split
      · -- behind the cursor
        rename_i c hc
        intro haddr hnew hfresh
        have hlast : done.getLast? = some c := hcursor ▸ hc
        have hdone : done ≠ [] := by
          rintro rfl
          cases hlast
        have hcmem : c ∈ done ++ pending := List.mem_append_left _ (List.mem_of_getLast? hlast)
        have hcnext : (exp.addrs c).eAddrNext = pending.head? := by
          have hch := h.chained
          rw [← List.dropLast_append_getLast? c hlast, List.append_assoc] at hch
          exact hch.next_eq
        refine ⟨exp.fresh :: pending, .inl rfl, h.insert hfresh ?_ ?_ ?_ ?_ ?_ haddr hnew⟩
        · show (if (exp.addrs c).eAddrNext = none then some exp.fresh else some tail) = _
          rw [hcnext]
          cases pending with
          | nil => simp
          | cons p rest =>
            rw [if_neg (by simp), ← htail, h.tail]
            simp [List.getLast?_append, List.getLast?_cons_cons]
        · rw [if_neg hdone]
        · simp only [relinked_next, if_neg (hne c hcmem).symm, if_true]
          exact hcnext
        · intro x hx
          rw [hlast] at hx
          cases hx
          simp only [relinked_next, if_true]
        · intro x hx hxlast
          have hxc : x ≠ c := by
            rintro rfl
            exact hxlast hlast
          simp only [relinked_next, if_neg hxc, if_neg (hne x hx)]
      · -- in front of the list, while there is no cursor
        rename_i hc
        intro haddr hnew hfresh
        have hdone : done = [] := List.getLast?_eq_none_iff.mp (hcursor ▸ hc)
        subst hdone
        refine ⟨exp.fresh :: pending, .inl rfl, h.insert hfresh ?_ rfl ?_ ?_ ?_ haddr hnew⟩
        · rw [h.tail]
          cases pending with
          | nil =>
            rw [h.tail] at htail
            cases htail
          | cons p rest => simp [List.getLast?_cons_cons]
        · rw [hput, if_pos rfl]
          exact h.chained.head
        · intro x hx
          cases hx
        · intro x hx _
          rw [hput, if_neg (hne x hx)]
    · -- at the end
      intro haddr hnew hfresh
      have hlast : (done ++ pending).getLast? = some tail := h.tail ▸ htail
      have htmem : tail ∈ done ++ pending := List.mem_of_getLast? hlast
      have hnil : done ++ pending ≠ [] := by
        intro hnil
        rw [hnil] at htmem
        cases htmem
      refine ⟨pending ++ [exp.fresh], .inr rfl, ?_⟩
      rw [← List.append_assoc]
      rw [← List.append_nil (done ++ pending)] at h haddr hnew
      refine h.insert hfresh ?_ ?_ ?_ ?_ ?_ haddr hnew
      · simp
      · rw [if_neg hnil]
      · simp only [relinked_next, if_neg (hne tail htmem).symm, if_true]
        rfl
      · intro x hx
        rw [hlast] at hx
        cases hx
        simp only [relinked_next, if_true]
      · intro x hx hxlast
        have hxt : x ≠ tail := by
          rintro rfl
          exact hxlast hlast
        rw [List.append_nil] at hx
        simp only [relinked_next, if_neg hxt, if_neg (hne x hx)]

/-- A write that changes no link from address to address, no text and no place on the list. -/
theorem AddrList.writeAddr (h : AddrList l exp) {e : Nat} {a : ExpAddr} (hnext : a.eAddrNext = (exp.addrs e).eAddrNext)
    (haddr : a.eAddr = (exp.addrs e).eAddr) : AddrList l (exp.writeAddr e a) :=
  h.congr (Expand.writeAddr_field ExpAddr.eAddrNext hnext) (Expand.writeAddr_field ExpAddr.eAddr haddr) rfl rfl rfl

theorem OwnWrite.next {a a' : ExpAddr} (h : OwnWrite a a') : a'.eAddrNext = a.eAddrNext := by
  cases h <;> rfl

/-- **A step keeps the list in order**, and adds to what is pending only. -/
theorem AddrList.step (h : AddrList (done ++ pending) exp) (hcursor : exp.expAddrCursor = done.getLast?)
    (hstep : ExpStep conf L O exp exp') : ∃ pending', pending.Sublist pending' ∧ AddrList (done ++ pending') exp' := by
  cases hstep with
  | insert addr origin errors addrType insertHead a hfind htype hnew =>
    have hcount : AddrList (done ++ pending) exp.counted := h.congr (fun _ => rfl) (fun _ => rfl) rfl rfl rfl
    have hfind' : exp.counted.find a.eAddr = none := by
      rw [newAddress_eAddr hnew]
      exact hfind
    obtain ⟨pending', hpending, hlisted⟩ := hcount.insertAddress hcursor insertHead hfind'
    refine ⟨pending', ?_, hlisted⟩
    rcases hpending with rfl | rfl
    · exact List.sublist_cons_self _ _
    · exact List.sublist_append_left _ _
  | parent e => exact ⟨pending, .refl _, h.writeAddr rfl rfl⟩
  | child c e => exact ⟨pending, .refl _, h.writeAddr rfl rfl⟩
  | own c a _ _ ha => exact ⟨pending, .refl _, h.writeAddr ha.next (congrArg Prod.fst ha.core)⟩
  | level e c =>
    refine ⟨pending, .refl _, h.congr ?_ ?_ rfl rfl rfl⟩
    · exact AddrHeap.write_field ExpAddr.eAddrNext (by intro a; rfl) e exp.addrs
    · exact AddrHeap.write_field ExpAddr.eAddr (by intro a; rfl) e exp.addrs
  | _ => exact ⟨pending, .refl _, h.congr (fun _ => rfl) (fun _ => rfl) rfl rfl rfl⟩

theorem AddrList.steps (done : List Nat) (h : AddrList (done ++ pending) exp) (hcursor : exp.expAddrCursor = done.getLast?)
    (hsteps : ExpSteps conf L O exp exp') :
    ∃ pending', pending.Sublist pending' ∧ AddrList (done ++ pending') exp' := by
  induction hsteps with
  | refl => exact ⟨pending, .refl _, h⟩
  | tail hsteps hstep ih =>
    obtain ⟨pending₁, hsub₁, h₁⟩ := ih
    obtain ⟨pending₂, hsub₂, h₂⟩ := h₁.step ((ExpSteps.cursor hsteps).trans hcursor) hstep
    exact ⟨pending₂, hsub₁.trans hsub₂, h₂⟩

theorem insertAddress_entries (insertHead : Bool) (a : ExpAddr) (exp : Expand) :
    (Simta.insertAddress insertHead a exp).expEntries = exp.expEntries := by
  unfold Simta.insertAddress
  split
  · rfl
  · split
    · split <;> rfl
    · rfl

/-- The count of entries is that of the addresses. -/
def Expand.Counted (exp : Expand) : Prop := exp.expEntries = exp.fresh

theorem Expand.Counted.steps (h : exp.Counted) (hsteps : ExpSteps conf False O exp exp') : exp'.Counted := by
  induction hsteps with
  | refl => exact h
  | tail _ hstep ih =>
    cases hstep with
    | lost hL => exact hL.elim
    | insert addr origin errors addrType insertHead a =>
      unfold Expand.Counted at ih ⊢
      rw [insertAddress_fresh, insertAddress_entries]
      simp only [Expand.counted]
      omega
    | _ => exact ih

/-! ## The start -/

/-- An address that is on the list, up to case. -/
def Expand.Holds (exp : Expand) (addr : Text) : Prop :=
  ∃ e ∈ exp.list, strcaseEq addr (exp.addrs e).eAddr = true

/-- No step takes an address off the list. -/
theorem AddrList.holds_steps (done : List Nat) (h : AddrList (done ++ pending) exp) (hcursor : exp.expAddrCursor = done.getLast?)
    {addr : Text} (haddr : exp.Holds addr) (hsteps : ExpSteps conf L O exp exp') : exp'.Holds addr := by
  obtain ⟨e, he, heq⟩ := haddr
  obtain ⟨pending', hsub, h'⟩ := h.steps done hcursor hsteps
  rw [h.list_eq] at he
  refine ⟨e, ?_, ?_⟩
  · rw [h'.list_eq]
    exact (List.Sublist.append_left hsub done).subset he
  · have hcore : (exp'.addrs e).eAddr = (exp.addrs e).eAddr :=
      congrArg Prod.fst (hsteps.core ((h.allocated e).mp he))
    rw [hcore]
    exact heq

theorem AddrList.holds_added (done : List Nat) (h : AddrList (done ++ pending) exp) (hcursor : exp.expAddrCursor = done.getLast?)
    {addr : Text} (hadded : exp.Added conf O addr exp') : exp'.Holds addr := by
  obtain ⟨exp₁, e, hsteps₁, hsteps₂, hknown, heq⟩ := hadded
  obtain ⟨pending₁, -, h₁⟩ := h.steps done hcursor hsteps₁
  refine h₁.holds_steps done (hsteps₁.cursor.trans hcursor) ⟨e, ?_, heq⟩ hsteps₂
  rw [h₁.list_eq, h₁.allocated]
  exact h₁.known hknown

section Runs

variable {σ : Type} {R : Prog.World ExpOp ExpAns σ} {s : σ} {c : Nat} {visited : List Nat}

/-- The original recipients come onto the list, each of them, or the function fails. -/
theorem wlp_addRecipients {base : Nat} {mail : Text} (rcpts : List Recipient) (h : AddrList l exp)
    (hcursor : exp.expAddrCursor = none) :
    (addRecipients conf base mail rcpts).wlp R True (fun b exp' _ => b = true →
      ExpSteps conf False False exp exp' ∧ ∀ rcpt ∈ rcpts, exp'.Holds rcpt.rRcpt) exp s := by
  induction rcpts generalizing exp s l with
  | nil => exact fun _ => ⟨.refl, fun _ hr => by cases hr⟩
  | cons rcpt rest ih =>
    have hadd : (addAddress conf rcpt.rRcpt base .email mail).wlp R True (fun b exp' _ =>
        ExpSteps conf True False exp exp' ∧ (b = true → exp.Added conf False rcpt.rRcpt exp')) exp s :=
      wlp_addAddress (fun _ _ _ => trivial) fun _ _ => trivial
    refine Faulty.wlp_seq hadd ?_
    rintro b exp₁ s₁ ⟨-, hadded⟩
    cases b
    · intro h
      cases h
    · obtain ⟨exp₀, e, hsteps₀, hsteps₁, hrest⟩ := hadded rfl
      have hsteps : ExpSteps conf False False exp exp₁ := hsteps₀.trans hsteps₁
      have hholds : exp₁.Holds rcpt.rRcpt := AddrList.holds_added [] h hcursor ⟨exp₀, e, hsteps₀, hsteps₁, hrest⟩
      obtain ⟨l₁, -, h₁⟩ := AddrList.steps [] h hcursor hsteps
      have hcursor₁ := hsteps.cursor.trans hcursor
      refine Faulty.wlp_mono ?_ (ih h₁ hcursor₁)
      intro b exp₂ s₂ hih hb
      obtain ⟨hsteps₂, hall⟩ := hih hb
      refine ⟨hsteps.trans hsteps₂, fun r hr => ?_⟩
      rcases List.mem_cons.mp hr with rfl | hr
      · exact AddrList.holds_steps [] h₁ hcursor₁ hholds hsteps₂
      · exact hall r hr

/-- **What stands before the loop**: only the steps of the additions, after which every original recipient
    is on the list. -/
theorem wlp_expandStart (h : AddrList l exp) (hcursor : exp.expAddrCursor = none) :
    (expandStart conf).wlp R True (fun b exp' _ => b = true → ∃ exp₁, ExpSteps conf False False exp exp₁ ∧
      exp' = exp₁.atHead ∧ ∀ rcpt ∈ exp.expEnv.eRcpt, exp₁.Holds rcpt.rRcpt) exp s := by
  have hbounce : Evolves R conf False False none (addressBounceCreate conf) := evolves_addressBounceCreate
  have hrcpt : ∀ errors addr, Evolves R conf False False none (errorRecipient errors addr) := evolves_errorRecipient
  refine Faulty.wlp_seq (hbounce exp s hcursor) ?_
  intro base exp₁ s₁ hsteps₁
  cases base with
  | none =>
    intro h
    cases h
  | some base =>
    apply wlp_get_bind
    have hcursor₁ := hsteps₁.cursor.trans hcursor
    rw [hsteps₁.env]
    dsimp only
    split
    · exact trivial
    · refine Faulty.wlp_seq (hrcpt base _ exp₁ s₁ hcursor₁) ?_
      intro b exp₂ s₂ hsteps₂
      cases b
      · intro h
        cases h
      · have hsteps : ExpSteps conf False False exp exp₂ := hsteps₁.trans hsteps₂
        obtain ⟨l₂, -, h₂⟩ := AddrList.steps [] h hcursor hsteps
        refine Faulty.wlp_seq (wlp_addRecipients _ h₂ (hsteps.cursor.trans hcursor)) ?_
        intro b exp₃ s₃ hadd
        cases b
        · intro h
          cases h
        · obtain ⟨hsteps₃, hall⟩ := hadd rfl
          exact fun _ => ⟨exp₃, hsteps.trans hsteps₃, rfl, hall⟩

end Runs

end Simta
