import Mathlib.Data.Finset.Card
import Mathlib.Data.Set.Finite.Basic
import Simta.Worklist

/-!
# Runs of the worklist

The states that the loop of `expand` comes through, each with the addresses whose round is over.

* `VisitSpec`, `wlp_expandVisit` — what a round does;
* `Reached` — the states after some rounds;
* `Boundary` — the cursor stands behind the addresses that were visited;
* `ContentInvariant`, `Reached.contents` — what holds of every address in every state;
* `expandLoop_ends` — the loop is at its end after as many rounds as there are addresses;
* `worklist_kept` — what holds of the list in every state.
-/

set_option autoImplicit false

namespace Simta

variable {conf : ExpandConf} {L O B : Prop} {exp exp' : Expand} {l visited : List Nat}

/-! ## A round -/

/-- What a round with the address `c` at the cursor does. -/
inductive VisitSpec (conf : ExpandConf) (L B : Prop) (c : Nat) (exp : Expand) : Expand → Prop
  | exclude (exp' : Expand) (h : ExpSteps conf L True exp exp') : VisitSpec conf L B c exp (exp'.visited c false)
  | final (exp' : Expand) (h : ExpSteps conf L False exp exp') (hemail : (exp.addrs c).eAddrType = .email)
      (hat : (exp.addrs c).eAddrAt = none → B) : VisitSpec conf L B c exp (exp'.visited c true)
  | dead (exp' : Expand) (h : ExpSteps conf L False exp exp') :
    VisitSpec conf L B c exp ((exp'.writeAddr c { exp'.addrs c with eAddrType := .dead }).visited c true)

section Runs

variable {σ : Type} {R : Prog.World ExpOp ExpAns σ} {s : σ} {c : Nat}

/-- **A round**, unless there is a system error. -/
theorem wlp_expandVisit (hcopy : ∀ s t, R .copy s false t → L) (hvacation : VacationOk R conf L)
    (hbare : EndsBare R conf.defaultHost.redExpand → B) (hc : exp.expAddrCursor = some c) (hfresh : c < exp.fresh) :
    (expandVisit conf c).wlp R True (fun b exp' _ => b = true → VisitSpec conf L B c exp exp') exp s := by
  refine Faulty.wlp_seq (wlp_addressExpand hcopy hvacation hbare hc hfresh) ?_
  intro ret exp' s' hspec
  cases hspec with
  | exclude _ h => exact fun _ => .exclude exp' h
  | syserror _ h =>
    intro htrue
    cases htrue
  | final _ h hemail hat => exact fun _ => .final exp' h hemail hat
  | dead exp' h => exact fun _ => .dead exp' h

/-- The states that the loop comes to from the start of an expansion, each with the addresses whose round
    is over, in turn. -/
inductive Reached (R : Prog.World ExpOp ExpAns σ) (conf : ExpandConf) (env : Envelope) (hosts : List Red) (s : σ) :
    List Nat → Expand → σ → Prop
  | start (exp : Expand) (t : σ) (h : (expandStart conf).Runs R (Expand.init env hosts) s true exp t) :
    Reached R conf env hosts s [] exp t
  | round (visited : List Nat) (exp exp' : Expand) (t u : σ) (c : Nat) (h : Reached R conf env hosts s visited exp t)
      (hc : exp.expAddrCursor = some c) (hrun : (expandVisit conf c).Runs R exp t true exp' u) :
    Reached R conf env hosts s (visited ++ [c]) exp' u

end Runs

/-! ## The cursor -/

/-- The list begins with the addresses that were visited, and the cursor is at the next one. -/
def Boundary (visited : List Nat) (exp : Expand) : Prop :=
  ∃ pending, AddrList (visited ++ pending) exp ∧ exp.expAddrCursor = pending.head?

/-- At the cursor there is an address of the list behind the ones that were visited. -/
theorem Boundary.cursor {c : Nat} (h : Boundary visited exp) (hc : exp.expAddrCursor = some c) :
    ∃ pending, AddrList ((visited ++ [c]) ++ pending) exp ∧ exp.expAddrCursor = (visited ++ [c]).getLast? ∧
      c < exp.fresh := by
  obtain ⟨pending, hlisted, hcursor⟩ := h
  cases pending with
  | nil =>
    rw [hc] at hcursor
    cases hcursor
  | cons x rest =>
    rw [hc] at hcursor
    cases hcursor
    refine ⟨rest, ?_, ?_, ?_⟩
    · rwa [List.append_assoc]
    · rw [List.getLast?_append]
      exact hc
    · rw [← hlisted.allocated]
      exact List.mem_append_right _ List.mem_cons_self

/-- The cursor goes on. -/
theorem AddrList.goOn {c : Nat} {pending : List Nat} (h : AddrList ((visited ++ [c]) ++ pending) exp) (terminal : Bool) :
    Boundary (visited ++ [c]) (exp.visited c terminal) := by
  have hnext : (exp.addrs c).eAddrNext = pending.head? := by
    have hchained := h.chained
    rw [List.append_assoc] at hchained
    exact hchained.next_eq
  refine ⟨pending, ?_, ?_⟩
  · exact (h.writeAddr (e := c) (a := { exp.addrs c with eAddrTerminal := terminal }) rfl rfl).congr
      (fun _ => rfl) (fun _ => rfl) rfl rfl rfl
  · show ((exp.writeAddr c { exp.addrs c with eAddrTerminal := terminal }).addrs c).eAddrNext = _
    rw [Expand.writeAddr_self]
    exact hnext

/-- **A round goes one address further.** -/
theorem Boundary.visit {c : Nat} (h : Boundary visited exp) (hc : exp.expAddrCursor = some c)
    (hspec : VisitSpec conf L B c exp exp') : Boundary (visited ++ [c]) exp' := by
  obtain ⟨pending, hlisted, hcursor, -⟩ := h.cursor hc
  cases hspec with
  | exclude exp₁ hsteps =>
    obtain ⟨pending', -, h'⟩ := hlisted.steps _ hcursor hsteps
    exact h'.goOn false
  | final exp₁ hsteps =>
    obtain ⟨pending', -, h'⟩ := hlisted.steps _ hcursor hsteps
    exact h'.goOn true
  | dead exp₁ hsteps =>
    obtain ⟨pending', -, h'⟩ := hlisted.steps _ hcursor hsteps
    exact (h'.writeAddr (e := c) (a := { exp₁.addrs c with eAddrType := .dead }) rfl rfl).goOn true

section Rounds

variable {σ : Type} {R : Prog.World ExpOp ExpAns σ} {env : Envelope} {hosts : List Red} {s t : σ} {c : Nat}

/-- What `expandStart` leaves: the steps of the additions, and the cursor at the head. -/
theorem expandStart_spec (h : (expandStart conf).Runs R (Expand.init env hosts) s true exp t) :
    ∃ exp₁, ExpSteps conf False False (Expand.init env hosts) exp₁ ∧ exp = exp₁.atHead ∧
      ∀ rcpt ∈ env.eRcpt, exp₁.Holds rcpt.rRcpt :=
  (Faulty.wlp_iff_runs.mp (wlp_expandStart (AddrList.init env hosts) rfl)).1 true exp t h rfl

/-- **The rule of a run**: what holds behind the additions and is kept by every round holds in every state. -/
theorem Reached.invariant {P : List Nat → Expand → Prop} (h : Reached R conf env hosts s visited exp t)
    (hcopy : ∀ s t, R .copy s false t → L) (hvacation : VacationOk R conf L)
    (hbare : EndsBare R conf.defaultHost.redExpand → B)
    (hstart : ∀ exp, ExpSteps conf False False (Expand.init env hosts) exp → (∃ l, AddrList l exp) →
      (∀ rcpt ∈ env.eRcpt, exp.Holds rcpt.rRcpt) → P [] exp.atHead)
    (hvisit : ∀ visited exp exp' c, Boundary visited exp → P visited exp → exp.expAddrCursor = some c →
      VisitSpec conf L B c exp exp' → P (visited ++ [c]) exp') :
    Boundary visited exp ∧ P visited exp := by
  induction h with
  | start exp t hrun =>
    obtain ⟨exp₁, hsteps, rfl, hholds⟩ := expandStart_spec hrun
    obtain ⟨l, -, hlisted⟩ := (AddrList.init env hosts).steps [] rfl hsteps
    refine ⟨⟨l, ?_, ?_⟩, hstart exp₁ hsteps ⟨l, hlisted⟩ hholds⟩
    · exact hlisted.congr (fun _ => rfl) (fun _ => rfl) rfl rfl rfl
    · exact hlisted.chained.head
  | round visited exp exp' t u c _ hc hrun ih =>
    obtain ⟨hboundary, hP⟩ := ih
    obtain ⟨pending, -, -, hfresh⟩ := hboundary.cursor hc
    have hspec : VisitSpec conf L B c exp exp' :=
      (Faulty.wlp_iff_runs.mp (wlp_expandVisit hcopy hvacation hbare hc hfresh)).1 true exp' u hrun rfl
    exact ⟨hboundary.visit hc hspec, hvisit visited exp exp' c hboundary hP hc hspec⟩

theorem Reached.boundary (h : Reached R conf env hosts s visited exp t) : Boundary visited exp :=
  (h.invariant (P := fun _ _ => True) (L := True) (B := True) (fun _ _ _ => trivial) (fun _ _ _ _ _ _ => trivial)
    (fun _ => trivial) (fun _ _ _ _ => trivial) fun _ _ _ _ _ _ _ _ => trivial).1

/-! ## The addresses in every state -/

/-- An address without its links and its level. -/
def ExpAddr.content (a : ExpAddr) : ExpAddr :=
  { a with
    eAddrNext := none
    eAddrMaxLevel := 0
    eAddrParents := []
    eAddrChildren := [] }

/-- What holds of a new address, and is kept by all that an expansion writes to one. -/
structure ContentInvariant (conf : ExpandConf) (P : ExpAddr → Prop) : Prop where
  content : ∀ {a a'}, a'.content = a.content → P a → P a'
  new : ∀ {exp addr errors addrType origin insertHead a},
    newAddress conf exp addr errors addrType origin = some (insertHead, a) → P a
  own : ∀ {a a'}, OwnWrite a a' → P a → P a'
  terminal : ∀ {a} (b : Bool), P a → P { a with eAddrTerminal := b }
  dead : ∀ {a}, P a → P { a with eAddrType := .dead }

variable {P : ExpAddr → Prop}

theorem Expand.forall_writeAddr {e : Nat} {a : ExpAddr} (h : ∀ x, P (exp.addrs x)) (ha : P a) (x : Nat) :
    P ((exp.writeAddr e a).addrs x) := by
  by_cases hx : x = e
  · subst hx
    rwa [Expand.writeAddr_self]
  · rw [Expand.writeAddr_of_ne hx]
    exact h x

theorem ContentInvariant.step (hP : ContentInvariant conf P) (hstep : ExpStep conf L O exp exp')
    (h : ∀ x, P (exp.addrs x)) (x : Nat) : P (exp'.addrs x) := by
  cases hstep with
  | insert addr origin errors addrType insertHead a hfind htype hnew =>
    have hview := insertAddress_view ExpAddr.content (fun _ _ => rfl) insertHead a exp.counted x
    split at hview
    · exact hP.content hview (hP.new hnew)
    · exact hP.content hview (h x)
  | parent e => exact Expand.forall_writeAddr h (hP.content (by rfl) (h e)) x
  | child c e => exact Expand.forall_writeAddr h (hP.content (by rfl) (h c)) x
  | level e c =>
    exact hP.content (AddrHeap.write_field ExpAddr.content (by intro a; rfl) e exp.addrs x) (h x)
  | own c a _ _ ha => exact Expand.forall_writeAddr h (hP.own ha (h c)) x
  | _ => exact h x

theorem ContentInvariant.steps (hP : ContentInvariant conf P) (hsteps : ExpSteps conf L O exp exp')
    (h : ∀ x, P (exp.addrs x)) : ∀ x, P (exp'.addrs x) := by
  induction hsteps with
  | refl => exact h
  | tail _ hstep ih => exact hP.step hstep ih

theorem ContentInvariant.visit (hP : ContentInvariant conf P) (hspec : VisitSpec conf L B c exp exp')
    (h : ∀ x, P (exp.addrs x)) : ∀ x, P (exp'.addrs x) := by
  have hgo : ∀ {exp : Expand} (terminal : Bool), (∀ x, P (exp.addrs x)) →
      ∀ x, P ((exp.visited c terminal).addrs x) :=
    fun terminal h => Expand.forall_writeAddr h (hP.terminal terminal (h c))
  cases hspec with
  | exclude exp₁ hsteps => exact hgo false (hP.steps hsteps h)
  | final exp₁ hsteps => exact hgo true (hP.steps hsteps h)
  | dead exp₁ hsteps =>
    have h₁ := hP.steps hsteps h
    exact hgo true (Expand.forall_writeAddr h₁ (hP.dead (h₁ c)))

/-- **What is kept of the addresses** holds of all of them in every state. -/
theorem Reached.contents (h : Reached R conf env hosts s visited exp t) (hP : ContentInvariant conf P)
    (hinit : P (ExpAddr.init [] .email [] 0 none)) : ∀ x, P (exp.addrs x) := by
  refine (h.invariant (P := fun _ exp => ∀ x, P (exp.addrs x)) (L := True) (B := True)
    (fun _ _ _ => trivial) (fun _ _ _ _ _ _ => trivial) (fun _ => trivial) ?_ ?_).2
  · intro exp hsteps _ _
    have hstart : ∀ x, P ((Expand.init env hosts).addrs x) := fun _ => hinit
    exact (hP.steps hsteps hstart : ∀ x, P (exp.addrs x))
  · exact fun visited exp exp' c _ hall _ hspec => hP.visit hspec hall

/-! ## The list in every state -/

/-- Writes that change no link and no text keep an address on the list. -/
theorem Expand.Holds.congr {addr : Text} (h : exp.Holds addr)
    (hnext : ∀ x, (exp'.addrs x).eAddrNext = (exp.addrs x).eAddrNext)
    (haddr : ∀ x, (exp'.addrs x).eAddr = (exp.addrs x).eAddr) (hhead : exp'.expAddrHead = exp.expAddrHead)
    (hfresh : exp'.fresh = exp.fresh) : exp'.Holds addr := by
  obtain ⟨e, he, heq⟩ := h
  exact ⟨e, by rwa [Expand.list_congr hnext hhead hfresh], by rwa [haddr]⟩

theorem Expand.Holds.writeAddr {addr : Text} (h : exp.Holds addr) {e : Nat} {a : ExpAddr}
    (hnext : a.eAddrNext = (exp.addrs e).eAddrNext) (haddr : a.eAddr = (exp.addrs e).eAddr) :
    (exp.writeAddr e a).Holds addr :=
  h.congr (Expand.writeAddr_field ExpAddr.eAddrNext hnext) (Expand.writeAddr_field ExpAddr.eAddr haddr) rfl rfl

theorem Expand.Holds.goOn {addr : Text} (h : exp.Holds addr) (terminal : Bool) : (exp.visited c terminal).Holds addr :=
  (h.writeAddr (e := c) (a := { exp.addrs c with eAddrTerminal := terminal }) rfl rfl).congr
    (fun _ => rfl) (fun _ => rfl) rfl rfl

/-- No round takes an address off the list. -/
theorem Boundary.holds {addr : Text} (h : Boundary visited exp) (hc : exp.expAddrCursor = some c)
    (haddr : exp.Holds addr) (hspec : VisitSpec conf L B c exp exp') : exp'.Holds addr := by
  obtain ⟨pending, hlisted, hcursor, -⟩ := h.cursor hc
  cases hspec with
  | exclude exp₁ hsteps => exact (hlisted.holds_steps _ hcursor haddr hsteps).goOn false
  | final exp₁ hsteps => exact (hlisted.holds_steps _ hcursor haddr hsteps).goOn true
  | dead exp₁ hsteps =>
    have hholds := hlisted.holds_steps _ hcursor haddr hsteps
    exact (hholds.writeAddr (e := c) (a := { exp₁.addrs c with eAddrType := .dead }) rfl rfl).goOn true

theorem VisitSpec.counted (hspec : VisitSpec conf False B c exp exp') (h : exp.Counted) : exp'.Counted := by
  cases hspec with
  | exclude exp₁ hsteps => exact (h.steps hsteps : exp₁.Counted)
  | final exp₁ hsteps => exact (h.steps hsteps : exp₁.Counted)
  | dead exp₁ hsteps => exact (h.steps hsteps : exp₁.Counted)

/-- **No original recipient is lost.** -/
theorem Reached.holds (h : Reached R conf env hosts s visited exp t) : ∀ rcpt ∈ env.eRcpt, exp.Holds rcpt.rRcpt := by
  refine (h.invariant (P := fun _ exp => ∀ rcpt ∈ env.eRcpt, exp.Holds rcpt.rRcpt) (L := True) (B := True)
    (fun _ _ _ => trivial) (fun _ _ _ _ _ _ => trivial) (fun _ => trivial) ?_ ?_).2
  · exact fun exp _ _ hholds => hholds
  · exact fun visited exp exp' c hboundary hholds hc hspec rcpt hr => hboundary.holds hc (hholds rcpt hr) hspec

/-- No addition loses an entry that it has counted: no copy fails, and no person on vacation has an address
    of wrong syntax at the vacation server. -/
structure NoneLost (R : Prog.World ExpOp ExpAns σ) (conf : ExpandConf) : Prop where
  copies : ∀ s t, ¬ R .copy s false t
  vacation : VacationOk R conf False

/-- The count of entries, unless one is lost. -/
theorem Reached.counted (h : Reached R conf env hosts s visited exp t) (hnone : NoneLost R conf) : exp.Counted := by
  refine (h.invariant (P := fun _ exp => exp.Counted) (B := True) hnone.copies hnone.vacation
    (fun _ => trivial) ?_ ?_).2
  · intro exp hsteps _ _
    have hinit : (Expand.init env hosts).Counted := rfl
    exact (hinit.steps hsteps : exp.Counted)
  · exact fun visited exp exp' c _ hcounted _ hspec => hspec.counted hcounted

/-- The list of addresses in order: no address stands there twice, no two are equal up to case, and the
    tail is the last one. -/
structure Expand.InOrder (exp : Expand) : Prop where
  nodup : exp.list.Nodup
  distinct : ∀ e ∈ exp.list, ∀ e' ∈ exp.list, strcaseEq (exp.addrs e).eAddr (exp.addrs e').eAddr = true → e = e'
  tail : exp.expAddrTail = exp.list.getLast?

theorem AddrList.inOrder (h : AddrList l exp) : exp.InOrder := by
  refine ⟨?_, ?_, ?_⟩ <;> rw [h.list_eq]
  · exact h.nodup
  · exact h.distinct
  · exact h.tail

/-- Single writes of which each leaves the list in order. -/
abbrev OrderedSteps (conf : ExpandConf) : Expand → Expand → Prop :=
  Relation.ReflTransGen fun exp exp' => ExpStep conf True True exp exp' ∧ exp'.InOrder

theorem AddrList.orderedSteps (done : List Nat) {pending : List Nat} (h : AddrList (done ++ pending) exp)
    (hcursor : exp.expAddrCursor = done.getLast?) (hsteps : ExpSteps conf L O exp exp') : OrderedSteps conf exp exp' := by
  induction hsteps with
  | refl => exact .refl
  | tail hsteps hstep ih =>
    obtain ⟨pending', -, h'⟩ := h.steps done hcursor (hsteps.tail hstep)
    exact ih.tail ⟨hstep.mono (fun _ => trivial) (fun _ => trivial), h'.inOrder⟩

/-! ## The end of the loop -/

/-- The rounds that the loop makes: all that it may, or as many as it takes to the end of the list. -/
theorem wlp_expandLoop (n : Nat) (h : Reached R conf env hosts s visited exp t) :
    (expandLoop conf n).wlp R True (fun r exp' t' =>
      (r = none → ∃ visited', visited'.length = visited.length + n ∧ Reached R conf env hosts s visited' exp' t' ∧
        exp'.expAddrCursor ≠ none) ∧
      (r = some true → ∃ visited', Reached R conf env hosts s visited' exp' t' ∧ exp'.expAddrCursor = none)) exp t := by
  induction n generalizing visited exp t with
  | zero =>
    apply wlp_get_bind
    by_cases hc : exp.expAddrCursor = none
    · rw [if_pos hc]
      exact ⟨(fun h => by cases h), fun _ => ⟨visited, h, hc⟩⟩
    · rw [if_neg hc]
      exact ⟨fun _ => ⟨visited, rfl, h, hc⟩, (fun h => by cases h)⟩
  | succ n ih =>
    apply wlp_get_bind
    split
    · rename_i hc
      exact ⟨(fun h => by cases h), fun _ => ⟨visited, h, hc⟩⟩
    · rename_i c hc
      have hruns : (expandVisit conf c).wlp R True ((expandVisit conf c).Runs R exp t) exp t :=
        Faulty.wlp_iff_runs.mpr ⟨fun _ _ _ h => h, fun _ => trivial⟩
      refine Faulty.wlp_seq hruns ?_
      intro b exp₁ t₁ hrun
      cases b
      · exact ⟨(fun h => by cases h), (fun h => by cases h)⟩
      · refine Faulty.wlp_mono ?_ (ih (h.round visited exp exp₁ t t₁ c hc hrun))
        rintro r exp' t' ⟨hnone, htrue⟩
        refine ⟨fun hr => ?_, htrue⟩
        obtain ⟨visited', hlength, hrest⟩ := hnone hr
        refine ⟨visited', ?_, hrest⟩
        rw [hlength, List.length_append, List.length_singleton]
        omega

/-- The texts that may come onto the list. -/
def reachedAddrs (R : Prog.World ExpOp ExpAns σ) (conf : ExpandConf) (env : Envelope) (hosts : List Red) (s : σ) :
    Set Text :=
  { addr | ∃ visited exp t, Reached R conf env hosts s visited exp t ∧ ∃ e ∈ exp.list, (exp.addrs e).eAddr = addr }

/-- There are no more visits than texts. -/
theorem Reached.visited_le (h : Reached R conf env hosts s visited exp t)
    (hfinite : (reachedAddrs R conf env hosts s).Finite) : visited.length ≤ hfinite.toFinset.card := by
  obtain ⟨pending, hlisted, -⟩ := h.boundary
  have hmem : ∀ e ∈ visited, e ∈ exp.list := by
    intro e he
    rw [hlisted.list_eq]
    exact List.mem_append_left _ he
  have hnodup : (visited.map fun e => (exp.addrs e).eAddr).Nodup := by
    refine List.Nodup.map_on ?_ (List.nodup_append.mp hlisted.nodup).1
    intro e he e' he' heq
    refine hlisted.inOrder.distinct e (hmem e he) e' (hmem e' he') ?_
    rw [heq]
    exact strcaseEq_refl _
  calc visited.length = (visited.map fun e => (exp.addrs e).eAddr).toFinset.card := by
        rw [List.toFinset_card_of_nodup hnodup, List.length_map]
    _ ≤ hfinite.toFinset.card := by
        refine Finset.card_le_card fun addr haddr => ?_
        obtain ⟨e, he, rfl⟩ := List.mem_map.mp (List.mem_toFinset.mp haddr)
        exact hfinite.mem_toFinset.mpr ⟨visited, exp, t, h, e, hmem e he, rfl⟩

/-- **The loop ends** when only finitely many texts can come onto the list. -/
theorem wlp_expandLoop_ends (hfinite : (reachedAddrs R conf env hosts s).Finite) {n : Nat}
    (hn : hfinite.toFinset.card < n) (h : Reached R conf env hosts s visited exp t) :
    (expandLoop conf n).wlp R True (fun r exp' t' => r ≠ none ∧ (r = some true →
      ∃ visited', Reached R conf env hosts s visited' exp' t' ∧ exp'.expAddrCursor = none)) exp t := by
  refine Faulty.wlp_mono ?_ (wlp_expandLoop n h)
  rintro r exp' t' ⟨hnone, htrue⟩
  refine ⟨fun hr => ?_, htrue⟩
  obtain ⟨visited', hlength, hreached, -⟩ := hnone hr
  have hle := hreached.visited_le hfinite
  omega

/-- `expand` up to the end of its loop, with at most `n` rounds. -/
def expandWork (conf : ExpandConf) (n : Nat) : ExpProg (Option Bool) := do
  if ← expandStart conf then expandLoop conf n
  else return some false

/-- A list that is worked off is a reached state with the cursor at the end. -/
theorem wlp_expandWork (n : Nat) :
    (expandWork conf n).wlp R True (fun r exp t => r = some true →
      ∃ visited, Reached R conf env hosts s visited exp t ∧ exp.expAddrCursor = none) (Expand.init env hosts) s := by
  have hruns : (expandStart conf).wlp R True ((expandStart conf).Runs R (Expand.init env hosts) s)
      (Expand.init env hosts) s := Faulty.wlp_iff_runs.mpr ⟨fun _ _ _ h => h, fun _ => trivial⟩
  refine Faulty.wlp_seq hruns ?_
  intro b exp t hrun
  cases b
  · intro h
    cases h
  · exact Faulty.wlp_mono (fun _ _ _ h => h.2) (wlp_expandLoop n (.start exp t hrun))

theorem wlp_expandWork_ends (hfinite : (reachedAddrs R conf env hosts s).Finite) {n : Nat}
    (hn : hfinite.toFinset.card < n) :
    (expandWork conf n).wlp R True (fun r _ _ => r ≠ none) (Expand.init env hosts) s := by
  have hruns : (expandStart conf).wlp R True ((expandStart conf).Runs R (Expand.init env hosts) s)
      (Expand.init env hosts) s := Faulty.wlp_iff_runs.mpr ⟨fun _ _ _ h => h, fun _ => trivial⟩
  refine Faulty.wlp_seq hruns ?_
  intro b exp t hrun
  cases b
  · exact (fun h => by cases h)
  · exact Faulty.wlp_mono (fun _ _ _ h => h.1) (wlp_expandLoop_ends hfinite hn (.start exp t hrun))

/-- The world in which every operation has one answer. -/
def answersOnly (ans : (op : ExpOp) → ExpAns op) : Prog.World ExpOp ExpAns Unit := fun op _ a _ => a = ans op

/-- With fixed answers a run is the evaluation. -/
theorem eval_of_runs {α : Type} {ans : (op : ExpOp) → ExpAns op} {m : ExpProg α} {a : α} {u v : Unit}
    (h : m.Runs (answersOnly ans) exp u a exp' v) : m.eval ans exp = some (a, exp') := by
  have hprog : ∀ {p : Prog ExpOp ExpAns (Option (α × Expand))} {s b t},
      Prog.Runs (answersOnly ans) p s b t → p.eval ans = b := by
    intro p s b t hrun
    induction hrun with
    | ret => rfl
    | call hop _ ih =>
      cases hop
      exact ih
  exact hprog h

/-- What the first part of `expand` comes to with fixed answers is a reached state. -/
theorem reached_of_eval {γ : Type} {ans : (op : ExpOp) → ExpAns op} {n : Nat} (view : Expand → γ) {v : γ}
    (h : ((expandWork conf n).eval ans (Expand.init env hosts)).map (fun x => (x.1, view x.2)) = some (some true, v)) :
    ∃ visited exp, Reached (answersOnly ans) conf env hosts () visited exp () ∧ exp.expAddrCursor = none ∧
      view exp = v := by
  obtain ⟨⟨r, exp⟩, heval, hview⟩ := Option.map_eq_some_iff.mp h
  obtain ⟨rfl, rfl⟩ := Prod.mk.inj hview
  have hrun : (expandWork conf n).Runs (answersOnly ans) (Expand.init env hosts) () (some true) exp () :=
    Faulty.runs_of_answers (fun _ => rfl) heval
  obtain ⟨visited, hreached, hcursor⟩ := (Faulty.wlp_iff_runs.mp (wlp_expandWork n)).1 _ _ _ hrun rfl
  exact ⟨visited, exp, hreached, hcursor, rfl⟩

/-- The steps of `address_expand`, but for the type of an address that nothing has found. -/
theorem AddressSpec.steps {ret : AddressReturn} (h : AddressSpec conf L B c exp ret exp') :
    ∃ exp₁, ExpSteps conf L True exp exp₁ ∧
      (exp' = exp₁ ∨ exp' = exp₁.writeAddr c { exp₁.addrs c with eAddrType := .dead }) := by
  cases h with
  | exclude _ h => exact ⟨exp', h, .inl rfl⟩
  | syserror _ h => exact ⟨exp', h, .inl rfl⟩
  | final _ h => exact ⟨exp', h.mono id False.elim, .inl rfl⟩
  | dead exp₁ h => exact ⟨exp₁, h.mono id False.elim, .inr rfl⟩

/-! ## The worklist -/

/-- **The worklist is kept**: in every state of every run the list is in order, the rounds that are over are
    those of its first addresses, each once, and the original recipients are there; each write of an
    insertion leaves it in order; and the loop ends, with every address visited and counted. -/
structure WorklistKept (R : Prog.World ExpOp ExpAns σ) (conf : ExpandConf) (env : Envelope) (hosts : List Red) (s : σ) :
    Prop where
  ordered : ∀ visited exp t, Reached R conf env hosts s visited exp t → exp.InOrder
  started : ∀ exp t, (expandStart conf).Runs R (Expand.init env hosts) s true exp t →
    ∃ exp₁, OrderedSteps conf (Expand.init env hosts) exp₁ ∧ exp = exp₁.atHead
  inserted : ∀ visited exp t c, Reached R conf env hosts s visited exp t → exp.expAddrCursor = some c →
    (addressExpand conf c).wlp R True (fun _ exp' _ => ∃ exp₁, OrderedSteps conf exp exp₁ ∧
      (exp' = exp₁ ∨ exp' = exp₁.writeAddr c { exp₁.addrs c with eAddrType := .dead })) exp t
  once : ∀ visited exp t, Reached R conf env hosts s visited exp t → visited.Nodup ∧ visited <+: exp.list
  recipients : ∀ visited exp t, Reached R conf env hosts s visited exp t → ∀ rcpt ∈ env.eRcpt, exp.Holds rcpt.rRcpt
  ended : ∀ visited exp t, Reached R conf env hosts s visited exp t → exp.expAddrCursor = none →
    visited = exp.list ∧ exp.expEntries = exp.list.length
  ends : (reachedAddrs R conf env hosts s).Finite →
    ∃ N, ∀ n, N ≤ n → (expandWork conf n).wlp R True (fun r _ _ => r ≠ none) (Expand.init env hosts) s

/-- The addresses that were visited are the first ones, each once. -/
theorem Boundary.once (h : Boundary visited exp) : visited.Nodup ∧ visited <+: exp.list := by
  obtain ⟨pending, hlisted, -⟩ := h
  rw [hlisted.list_eq]
  exact ⟨(List.nodup_append.mp hlisted.nodup).1, List.prefix_append _ _⟩

/-- With the cursor at the end all of them were visited. -/
theorem Boundary.ended (h : Boundary visited exp) (hc : exp.expAddrCursor = none) (hcounted : exp.Counted) :
    visited = exp.list ∧ exp.expEntries = exp.list.length := by
  obtain ⟨pending, hlisted, hcursor⟩ := h
  have hnil : pending = [] := List.head?_eq_none_iff.mp (hcursor ▸ hc)
  subst hnil
  rw [List.append_nil] at hlisted
  refine ⟨hlisted.list_eq.symm, ?_⟩
  rw [hlisted.list_eq, hlisted.length_eq]
  exact hcounted

/-- **The expansion worklist** is kept in every world in which no entry is lost that was counted. -/
theorem worklist_kept (hnone : NoneLost R conf) : WorklistKept R conf env hosts s where
  ordered visited exp t h := by
    obtain ⟨pending, hlisted, -⟩ := h.boundary
    exact hlisted.inOrder
  started exp t h := by
    obtain ⟨exp₁, hsteps, hexp, -⟩ := expandStart_spec h
    exact ⟨exp₁, AddrList.orderedSteps [] (AddrList.init env hosts) rfl hsteps, hexp⟩
  inserted visited exp t c h hc := by
    obtain ⟨pending, hlisted, hcursor, hfresh⟩ := h.boundary.cursor hc
    refine Faulty.wlp_mono ?_ (wlp_addressExpand (L := True) (B := True) (fun _ _ _ => trivial)
      (fun _ _ _ _ _ _ => trivial) (fun _ => trivial) hc hfresh)
    intro ret exp' t' hspec
    obtain ⟨exp₁, hsteps, hexp⟩ := hspec.steps
    exact ⟨exp₁, hlisted.orderedSteps _ hcursor hsteps, hexp⟩
  once visited exp t h := h.boundary.once
  recipients visited exp t h := h.holds
  ended visited exp t h hc := h.boundary.ended hc (h.counted hnone)
  ends hfinite := ⟨hfinite.toFinset.card + 1, fun n hn => wlp_expandWork_ends hfinite hn⟩

end Rounds

/-! A person is on vacation whose name has a blank in it, so that no address can be made of it at the vacation
server. -/

/-- Every call succeeds, and nothing is found on the disk. -/
def quietFile : (op : FileOp) → FileAns op
  | .stat _ | .read _ => none
  | .readdir _ => ([], false)
  | .clock => some 0
  | .fastFiles _ => ()
  | .fastCount => 0
  | .link _ _ | .unlink _ | .rename _ _ | .creat _ | .fdopen _ | .print _ _ | .fclose _ | .utime _ | .ftruncate _
  | .opendir _ | .closedir _ | .localtime | .listInsert | .malloc => true

/-- Every call succeeds, and nothing is found anywhere. -/
def quiet : (op : ExpOp) → ExpAns op
  | .envId => some "id".toList
  | .dnsMx _ => none
  | .redAlloc => fun _ => ⟨true, fun _ => .ok⟩
  | .dbOpen _ => .failed
  | .dbCursor _ _ => ([], false)
  | .getpwnam _ _ => none
  | .forward _ => .missing
  | .ldapSearch _ _ _ _ | .ldapDn _ _ => ⟨.success, some []⟩
  | .file op => quietFile op
  | .alloc | .copy | .ldapInit _ | .ldapRetry _ | .queueEnvelope _ | .queueRemove _ | .lseek | .snetClose => true

/-- A directory of people, with a vacation server. -/
def peopleLdap : SimtaLdap where
  ldapSearches := [⟨0, [.user], false⟩]
  ldapPeople := some ["person".toList]
  ldapGroups := some ["group".toList]
  ldapVacationhost := some "away".toList
  ldapVacationattr := some "vacation".toList
  ldapMailfwdattr := "forward".toList
  ldapGmailfwdattr := none
  ldapMailattr := "mail".toList
  ldapAssociatedDomain := "us".toList
  ldapNdomain := 1

/-- A host that has the given rules for addresses without a domain. -/
def peopleConf (rules : List Action) : ExpandConf where
  hostname := "us".toList
  dnsConfig := true
  secondaryMx := none
  red := ⟨false, none, none⟩
  domain := "us".toList
  defaultHost := ⟨"us".toList, .loc, [], rules, .smtpDefault, 0, 0, false⟩
  expLevelMax := 10
  aLdap _ := peopleLdap
  ldapExplodeDn dn := dn
  ldapRdnTaken _ _ := []

/-- A message to one address. -/
def messageTo (addr : Text) : Envelope :=
  envRecipient (envCreate {} .fast "in".toList (some "ann@else".toList) none) addr

/-- A host table with the local host `us`, which has the given rules. -/
def usHosts (rules : List Action) : List Red := [⟨"us".toList, .loc, [], rules, .smtpDefault, 0, 0, false⟩]

def vacationEntry : LdapEntry where
  dn := some "uid=joe".toList
  values attr :=
    if attr = "objectClass".toList then ["person".toList]
    else if attr = "forward".toList then ["joe@us".toList]
    else if attr = "vacation".toList then ["TRUE".toList]
    else if attr = "uid".toList then ["joe doe".toList]
    else []

def vacationAnswers : (op : ExpOp) → ExpAns op
  | .ldapSearch _ _ _ _ => ⟨.success, some [vacationEntry]⟩
  | op => quiet op

/-- Without such a person the worklist is kept. -/
theorem worklist_kept_quiet :
    WorklistKept (answersOnly quiet) (peopleConf []) (messageTo "joe@us".toList) (usHosts [⟨.ldap, false, none⟩]) () := by
  refine worklist_kept ⟨?_, ?_⟩
  · intro s t h
    cases h
  · intro action entry hgiven
    cases hgiven with
    | search search addr domain s t res entries hop hres hentry =>
      cases hop
      cases hres
      cases hentry
    | dn dn s t res entries hop hres hentry =>
      cases hop
      cases hres
      cases hentry

/-- The state before the first round, and the one after it, when `joe@us` is expanded. -/
def vacationStart : Expand :=
  (((expandStart (peopleConf [])).eval vacationAnswers
    (Expand.init (messageTo "joe@us".toList) (usHosts [⟨.ldap, false, none⟩]))).map Prod.snd).getD
      (Expand.init (messageTo "joe@us".toList) [])

def vacationEnd : Expand :=
  (((expandVisit (peopleConf []) 0).eval vacationAnswers vacationStart).map Prod.snd).getD vacationStart

/-- These are the states of the only run. -/
theorem reached_vacation {visited : List Nat} {exp : Expand} {t : Unit}
    (h : Reached (answersOnly vacationAnswers) (peopleConf []) (messageTo "joe@us".toList)
      (usHosts [⟨.ldap, false, none⟩]) () visited exp t) : exp = vacationStart ∨ exp = vacationEnd := by
  induction h with
  | start exp t hrun =>
    left
    rw [vacationStart, eval_of_runs hrun]
    rfl
  | round visited exp exp' t u c _ hc hrun ih =>
    rcases ih with rfl | rfl
    · have hcursor : vacationStart.expAddrCursor = some 0 := by decide
      rw [hcursor] at hc
      cases hc
      right
      rw [vacationEnd, eval_of_runs hrun]
      rfl
    · have hcursor : vacationEnd.expAddrCursor = none := by decide
      rw [hcursor] at hc
      cases hc

/-- With one, only one text comes onto the list, and two addresses are counted. -/
theorem not_worklist_kept :
    (reachedAddrs (answersOnly vacationAnswers) (peopleConf []) (messageTo "joe@us".toList)
      (usHosts [⟨.ldap, false, none⟩]) ()).Finite ∧
    ¬ WorklistKept (answersOnly vacationAnswers) (peopleConf []) (messageTo "joe@us".toList)
      (usHosts [⟨.ldap, false, none⟩]) () := by
  constructor
  · refine (Set.finite_singleton "joe@us".toList).subset ?_
    rintro addr ⟨visited, exp, t, hreached, e, he, rfl⟩
    have hstart : ∀ e ∈ vacationStart.list, (vacationStart.addrs e).eAddr = "joe@us".toList := by decide
    have hend : ∀ e ∈ vacationEnd.list, (vacationEnd.addrs e).eAddr = "joe@us".toList := by decide
    rcases reached_vacation hreached with rfl | rfl
    · exact hstart e he
    · exact hend e he
  · intro h
    have heval : ((expandWork (peopleConf []) 3).eval vacationAnswers (Expand.init (messageTo "joe@us".toList)
        (usHosts [⟨.ldap, false, none⟩]))).map (fun x => (x.1, x.2.expEntries, x.2.list)) =
        some (some true, 2, [0]) := by decide
    obtain ⟨visited, exp, hreached, hcursor, hview⟩ := reached_of_eval (fun exp => (exp.expEntries, exp.list)) heval
    obtain ⟨hentries, hlist⟩ := Prod.mk.inj hview
    have hended := (h.ended visited exp () hreached hcursor).2
    rw [hentries, hlist] at hended
    cases hended

end Simta
