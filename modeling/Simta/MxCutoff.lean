import Simta.RetryList

/-!
# The cutoff of the mail exchangers

`get_outboud_dns` keeps the preference of the first exchanger that is this host or the secondary one, and the
walk of `next_dnsr_host` ends at the first exchanger with that preference.

* `TargetBelow` — an address is of no exchanger at or above the lowest preference that is ours;
* `CutoffFirst`, `CutoffSound` — the answers among which the cutoff keeps it so;
* `CutInv` — the invariant of the choice of a host;
* `CutReached`, `mxCutoff_holds` — in every run over such answers no other address is chosen, and no walk is cut
  off without a reason;
* `cutoffFirst_of_sorted` — answers of one owner, as the resolver sorts them, are such.
-/

set_option autoImplicit false

namespace Simta

/-! ## What is ours -/

/-- The exchanger is this host or the secondary one. -/
def NamesUs (conf : DeliverConf) (exchange : Text) : Prop :=
  strcaseEq conf.toMxConf.hostname exchange = true ∨
    (conf.secondaryMx.map fun s => strcaseEq s exchange).getD false = true

/-- One of the two names occurs in the answers `L` with the preference `q`. -/
def OursAt (conf : DeliverConf) (L : List MxAnswer) (q : Nat) : Prop :=
  ∃ a ∈ L, ∃ x, a.rr.rrData = .mx q x ∧ NamesUs conf x

/-- The address that is chosen for the record `a` belongs to an exchanger of preference `p`: the record is
    that exchanger, or the address record of one. -/
def OfExchanger (L : List MxAnswer) (a : MxAnswer) (p : Nat) : Prop :=
  (∃ x, a.rr.rrData = .mx p x) ∨
    a.rr.address ≠ none ∧ ∃ b ∈ L, ∃ x, b.rr.rrData = .mx p x ∧ strcaseEq a.rr.rrName x = true

/-- The address is of no exchanger at or above a preference that is ours. -/
def TargetBelow (conf : DeliverConf) (t : Target) : Prop :=
  ∀ a, t.answer[t.record]? = some a → ∀ p q, OfExchanger t.answer a p → OursAt conf t.answer q → p < q

/-- No record of the answers up to the number `i` is an exchanger of preference `c`. -/
def Passed (L : List MxAnswer) (c : Nat) (i : Nat) : Prop :=
  ∀ j < i, ∀ b x, L[j]? = some b → b.rr.rrData ≠ .mx c x

/-- The records in front of the first exchanger with the preference of the cutoff are below all that is ours. -/
def CutoffFirst (conf : DeliverConf) (L : List MxAnswer) : Prop :=
  ∀ c, mxCutoff conf L = some c → ∀ i a, L[i]? = some a → Passed L c (i + 1) →
    ∀ p q, OfExchanger L a p → OursAt conf L q → p < q

variable {conf : DeliverConf} {L : List MxAnswer} {c q : Nat}

theorem mxCutoff_cons_mx {a : MxAnswer} {p : Nat} {x : Text} (ha : a.rr.rrData = .mx p x) (hx : NamesUs conf x) :
    mxCutoff conf (a :: L) = some p := by
  unfold mxCutoff
  rw [ha]
  dsimp only
  split
  · rfl
  · rename_i hname
    rw [if_pos (hx.resolve_left hname)]

theorem mxCutoff_cons {a : MxAnswer} (ha : ∀ p x, a.rr.rrData = .mx p x → ¬ NamesUs conf x) :
    mxCutoff conf (a :: L) = mxCutoff conf L := by
  rw [mxCutoff]
  split
  · rename_i p x hdata
    have hx := ha p x hdata
    rw [if_neg fun h => hx (.inl h), if_neg fun h => hx (.inr h)]
  · rfl

/-- There is a cutoff exactly if a name of ours occurs, at a preference at which it does. -/
theorem mxCutoff_spec (conf : DeliverConf) (L : List MxAnswer) :
    (mxCutoff conf L = none ∧ ∀ q, ¬ OursAt conf L q) ∨ ∃ c, mxCutoff conf L = some c ∧ OursAt conf L c := by
  induction L with
  | nil =>
    refine .inl ⟨rfl, ?_⟩
    rintro q ⟨a, ha, -⟩
    cases ha
  | cons a L ih =>
    by_cases ha : ∃ p x, a.rr.rrData = .mx p x ∧ NamesUs conf x
    · obtain ⟨p, x, hdata, hx⟩ := ha
      exact .inr ⟨p, mxCutoff_cons_mx hdata hx, a, List.mem_cons_self, x, hdata, hx⟩
    · have hnot : ∀ p x, a.rr.rrData = .mx p x → ¬ NamesUs conf x := fun p x hdata hx => ha ⟨p, x, hdata, hx⟩
      rw [mxCutoff_cons hnot]
      obtain ⟨hnone, hours⟩ | ⟨c, hsome, b, hb, hbx⟩ := ih
      · refine .inl ⟨hnone, ?_⟩
        rintro q ⟨b, hb, x, hdata, hx⟩
        obtain rfl | hb := List.mem_cons.mp hb
        · exact hnot q x hdata hx
        · exact hours q ⟨b, hb, x, hdata, hx⟩
      · exact .inr ⟨c, hsome, b, List.mem_cons_of_mem _ hb, hbx⟩

theorem oursAt_of_cutoff (h : mxCutoff conf L = some c) : OursAt conf L c := by
  obtain ⟨hnone, -⟩ | ⟨c', hsome, hours⟩ := mxCutoff_spec conf L
  · rw [h] at hnone
    cases hnone
  · rw [h] at hsome
    cases hsome
    exact hours

theorem not_oursAt (h : mxCutoff conf L = none) : ¬ OursAt conf L q := by
  obtain ⟨-, hours⟩ | ⟨c', hsome, -⟩ := mxCutoff_spec conf L
  · exact hours q
  · rw [h] at hsome
    cases hsome

/-! ## The invariant -/

section Invariant

variable {σ : Type} {R : Prog.World RemoteOp RemoteAns σ} {d d' : Remote} {s : σ} {t : Target} {out : Prop}
  {st : HostStatus}

/-- What the cutoff rests on: it does its work among the answers to a query for exchangers, and in the answers to
    a query for an address, which get no cutoff, no exchanger is ours. -/
structure CutoffSound (conf : DeliverConf) (R : Prog.World RemoteOp RemoteAns σ) : Prop where
  mx : ∀ s L s', R .dnsMx s (some L) s' → CutoffFirst conf L
  address : ∀ name s rrs s', R (.dnsA name) s (some rrs) s' →
    mxCutoff conf (rrs.map fun rr => ⟨rr, none⟩) = none

/-- The answers at hand are known: nothing in them is ours, or there is a cutoff that keeps it so. -/
def Known (conf : DeliverConf) (d : Remote) (L : List MxAnswer) : Prop :=
  (d.hqNoPuntMx = false ∧ mxCutoff conf L = none) ∨
  (d.hqNoPuntMx = true ∧ mxCutoff conf L = some d.dMxPreferenceCutoff ∧ CutoffFirst conf L ∧
    d.hqStatus ≠ .punt ∧ d.hqStatus ≠ .puntDown)

/-- The invariant of the choice of a host.  A walk that has been cut off does not go on: the retry list is
    under way, or, where `out` holds, it has come to its end as well. -/
structure CutInv (conf : DeliverConf) (out : Prop) (st : HostStatus) (d : Remote) : Prop where
  status : d.hqStatus = st
  sin : TargetBelow conf d.dSin
  cells : ∀ a c, d.cells a = some c → TargetBelow conf c.cSin
  cuts : ∀ L ∈ d.cuts, ∃ q, OursAt conf L q
  bound : ∀ r, d.dDnsrResult = some r → r < d.fresh
  ipOnly : d.dDnsrResult = none → d.dDnsrResultIp = none
  started : d.dDnsrResultIp ≠ none → 0 ≤ d.dCurDnsrResult
  current : ∀ r L, d.dDnsrResult = some r → d.results r = some L → Known conf d L
  walked : ∀ r L, d.dDnsrResult = some r → d.results r = some L → d.hqNoPuntMx = true →
    Passed L d.dMxPreferenceCutoff (d.dCurDnsrResult + 1).toNat ∨
      d.dDnsrResultIp = none ∧ (d.dRetryCur ≠ none ∨ out)

/-- A step of the choice: an address is found, or none is left. -/
def Chosen (conf : DeliverConf) (st : HostStatus) (ret : NextHost) (d' : Remote) : Prop :=
  ret = .found ∧ CutInv conf False st d' ∨ ret = .exhausted ∧ CutInv conf True st d'

/-- Every run without a fault ends in `Q`. -/
abbrev Arrives {α : Type} (R : Prog.World RemoteOp RemoteAns σ) (m : Rem α) (Q : α → Remote → Prop) (d : Remote)
    (s : σ) : Prop :=
  m.wlp R True (fun a d' _ => Q a d') d s

theorem arrives_update {f : Remote → Option Remote} {Q : PUnit → Remote → σ → Prop}
    (h : ∀ d', f d = some d' → Q ⟨⟩ d' s) : (Faulty.update f : Rem PUnit).wlp R True Q d s :=
  Faulty.wlp_update.mpr ⟨fun _ => trivial, h⟩

theorem arrives_read {α : Type} {f : Remote → Option α} {Q : α → Remote → σ → Prop}
    (h : ∀ a, f d = some a → Q a d s) : (Faulty.read f : Rem α).wlp R True Q d s :=
  Faulty.wlp_read.mpr ⟨fun _ => trivial, h⟩

theorem CutInv.weaken (h : CutInv conf out st d) : CutInv conf True st d :=
  ⟨h.status, h.sin, h.cells, h.cuts, h.bound, h.ipOnly, h.started, h.current, fun r L hr hL hno =>
    (h.walked r L hr hL hno).imp id (And.imp_right fun _ => .inr trivial)⟩

/-- The address under the cursor of the retry list. -/
theorem retryPtr_chosen (h : CutInv conf out st d) : Arrives R retryPtr (Chosen conf st) d s := by
  unfold retryPtr
  apply (Faulty.wlp_bind _ _).mpr
  apply arrives_read
  intro target htarget
  obtain ⟨a, ha, hread⟩ := Option.bind_eq_some_iff.mp htarget
  obtain ⟨c, hc, hsin⟩ := Option.bind_eq_some_iff.mp hread
  cases hsin
  refine .inl ⟨rfl, h.status, h.cells a c hc, h.cells, h.cuts, h.bound, h.ipOnly, h.started, h.current, ?_⟩
  intro r L hr hL hno
  obtain hpassed | ⟨hip, -⟩ := h.walked r L hr hL hno
  · exact .inl hpassed
  · refine .inr ⟨hip, .inl ?_⟩
    show d.dRetryCur ≠ none
    rw [ha]
    simp

theorem retryStartPtr_chosen (h : CutInv conf out st d) : Arrives R retryStartPtr (Chosen conf st) d s := by
  unfold retryStartPtr
  refine (Faulty.wlp_bind _ _).mpr (Faulty.wlp_get.mpr ?_)
  split
  · exact .inr ⟨rfl, h.weaken⟩
  · rename_i head hl
    have h' := h.weaken
    exact retryPtr_chosen (d := { d with dRetryCur := some head })
      ⟨h'.status, h'.sin, h'.cells, h'.cuts, h'.bound, h'.ipOnly, h'.started, h'.current, fun r L hr hL hno =>
        (h'.walked r L hr hL hno).imp id (And.imp_right fun _ => .inr trivial)⟩

/-- A record that stands in front of the cutoff gives an address that may be tried. -/
theorem targetBelow_of_passed {all : List MxAnswer} {i : Nat} (hk : Known conf d all)
    (hpassed : d.hqNoPuntMx = true → Passed all d.dMxPreferenceCutoff (i + 1)) (ip : Ip) :
    TargetBelow conf ⟨ip, all, i⟩ := by
  intro a ha p q hp hq
  obtain ⟨-, hnone⟩ | ⟨hno, hcut, hfirst, -⟩ := hk
  · exact absurd hq (not_oursAt hnone)
  · exact hfirst _ hcut i a ha (hpassed hno) p q hp hq

theorem CutInv.strict (h : CutInv conf out st d) (hip : d.dDnsrResultIp ≠ none) : CutInv conf False st d :=
  ⟨h.status, h.sin, h.cells, h.cuts, h.bound, h.ipOnly, h.started, h.current, fun r L hr hL hno =>
    .inl ((h.walked r L hr hL hno).resolve_right fun hend => hip hend.1)⟩

/-- The addresses of an exchanger that may be tried. -/
theorem addressesPtr_chosen (all : List MxAnswer) (record : Nat) (hok : ∀ ip, TargetBelow conf ⟨ip, all, record⟩)
    (rest : List MxAnswer) (i : Nat) (d : Remote) (h : CutInv conf out st d) (s : σ) :
    Arrives R (addressesPtr all record rest i) (fun _ d' => CutInv conf out st d') d s := by
  induction rest generalizing i d s with
  | nil => exact ⟨h.status, h.sin, h.cells, h.cuts, h.bound, h.ipOnly, h.started, h.current, h.walked⟩
  | cons answer rest ih =>
    unfold addressesPtr
    refine (Faulty.wlp_bind _ _).mpr ((Faulty.wlp_modify _).mpr ?_)
    split
    · exact ih (i + 1) { d with dCurDnsrResultIp := i }
        ⟨h.status, h.sin, h.cells, h.cuts, h.bound, h.ipOnly, h.started, h.current, h.walked⟩ s
    · rename_i ip _
      have h' : CutInv conf out st { d with dCurDnsrResultIp := i, dSin := ⟨ip, all, record⟩ } :=
        ⟨h.status, hok ip, h.cells, h.cuts, h.bound, h.ipOnly, h.started, h.current, h.walked⟩
      show Faulty.wlp _ _ (if fakeAddress ip then _ else _) _ _ _
      split
      · exact ih (i + 1) _ h' s
      · exact h'

theorem exchangerPtr_chosen {all : List MxAnswer} {r : Addr} (h : CutInv conf out st d)
    (hr : d.dDnsrResult = some r) (hall : d.results r = some all) :
    Arrives R (exchangerPtr all) (Chosen conf st) d s := by
  unfold exchangerPtr
  refine (Faulty.wlp_bind _ _).mpr (Faulty.wlp_get.mpr ?_)
  split
  · exact retryStartPtr_chosen h
  · rename_i rip hip
    have hne : d.dDnsrResultIp ≠ none := by
      rw [hip]
      exact Option.some_ne_none rip
    have hs := h.strict hne
    have hcur := h.started hne
    have hok : ∀ ip, TargetBelow conf ⟨ip, all, d.dCurDnsrResult.toNat⟩ := by
      apply targetBelow_of_passed (h.current r all hr hall)
      intro hno
      obtain hpassed | ⟨hend, -⟩ := h.walked r all hr hall hno
      · rwa [show (d.dCurDnsrResult + 1).toNat = d.dCurDnsrResult.toNat + 1 by omega] at hpassed
      · exact absurd hend hne
    apply (Faulty.wlp_bind _ _).mpr
    apply arrives_read
    intro addresses _
    apply Faulty.wlp_seq (addressesPtr_chosen all d.dCurDnsrResult.toNat hok _ _ d hs s)
    intro ret d' s' h'
    cases ret with
    | found => exact .inl ⟨rfl, h'⟩
    | exhausted => exact retryStartPtr_chosen h'
    | resolved => exact retryStartPtr_chosen h'
    | ended => exact retryStartPtr_chosen h'
    | abort => exact retryStartPtr_chosen h'

/-- What the loop over the answers comes to. -/
def Walked (conf : DeliverConf) (st : HostStatus) (r : Addr) (all : List MxAnswer)
    (ret : NextHost) (d' : Remote) : Prop :=
  Chosen conf st ret d' ∨ (ret = .resolved ∨ ret = .ended) ∧ CutInv conf False st d' ∧
    d'.dDnsrResult = some r ∧ d'.results r = some all

theorem CutInv.addResult (h : CutInv conf out st d) (l : List MxAnswer) : CutInv conf out st (d.addResult l) := by
  have hold : ∀ r L, d.dDnsrResult = some r → (d.addResult l).results r = some L → d.results r = some L := by
    intro r L hr hL
    have hL : (if r = d.fresh then some l else d.results r) = some L := hL
    rwa [if_neg (Nat.ne_of_lt (h.bound r hr))] at hL
  exact ⟨h.status, h.sin, h.cells, h.cuts, fun r hr => Nat.lt_succ_of_lt (h.bound r hr), h.ipOnly, h.started,
    fun r L hr hL => h.current r L hr (hold r L hr hL), fun r L hr hL => h.walked r L hr (hold r L hr hL)⟩

theorem CutInv.freeResult (h : CutInv conf out st d) {rip : Addr} (hf : d.freeResult rip = some d') :
    d' = d.setResult rip none ∧ CutInv conf out st d' := by
  obtain ⟨x, -, rfl⟩ := Option.map_eq_some_iff.mp hf
  have hold : ∀ r L, (d.setResult rip none).results r = some L → d.results r = some L := by
    intro r L hL
    have hL : (if r = rip then none else d.results r) = some L := hL
    split at hL
    · cases hL
    · exact hL
  exact ⟨rfl, h.status, h.sin, h.cells, h.cuts, h.bound, h.ipOnly, h.started,
    fun r L hr hL => h.current r L hr (hold r L hL), fun r L hr hL => h.walked r L hr (hold r L hL)⟩

/-- The walk up to the number `i` of the answers. -/
structure AtAnswer (conf : DeliverConf) (st : HostStatus) (r : Addr) (all : List MxAnswer)
    (i : Nat) (d : Remote) : Prop where
  inv : CutInv conf True st d
  ip : d.dDnsrResultIp = none
  result : d.dDnsrResult = some r
  answers : d.results r = some all
  loop : st = .down ∨ st = .puntDown
  passed : d.hqNoPuntMx = true → Passed all d.dMxPreferenceCutoff i

theorem AtAnswer.next {r : Addr} {all : List MxAnswer} {i : Nat} {answer : MxAnswer} (h : AtAnswer conf st r all i d)
    (ha : all[i]? = some answer)
    (hp : d.hqNoPuntMx = true → ∀ x, answer.rr.rrData ≠ .mx d.dMxPreferenceCutoff x) :
    AtAnswer conf st r all (i + 1) d := by
  refine ⟨h.inv, h.ip, h.result, h.answers, h.loop, fun hno j hj b x hb => ?_⟩
  obtain hj | rfl := Nat.lt_succ_iff_lt_or_eq.mp hj
  · exact h.passed hno j hj b x hb
  · rw [ha] at hb
    cases hb
    exact hp hno x

/-- The next answer is looked at, and the pointer to the addresses of an exchanger is still unset. -/
theorem AtAnswer.same {r : Addr} {all : List MxAnswer} {i : Nat} (h : AtAnswer conf st r all i d)
    (hsin : TargetBelow conf t) (cur : Int) : AtAnswer conf st r all i { d with dCurDnsrResult := cur, dSin := t } :=
  ⟨⟨h.inv.status, hsin, h.inv.cells, h.inv.cuts, h.inv.bound, h.inv.ipOnly, fun hip => absurd h.ip hip,
    h.inv.current, fun _ _ _ _ _ => .inr ⟨h.ip, .inr trivial⟩⟩, h.ip, h.result, h.answers, h.loop, h.passed⟩

/-- The walk stands at the number `i`, which it has passed. -/
theorem AtAnswer.strict {r : Addr} {all : List MxAnswer} {i : Nat} (h : AtAnswer conf st r all (i + 1) d)
    (hcur : d.dCurDnsrResult = i) : CutInv conf False st d := by
  refine ⟨h.inv.status, h.inv.sin, h.inv.cells, h.inv.cuts, h.inv.bound, h.inv.ipOnly, h.inv.started,
    h.inv.current, ?_⟩
  intro r' L hr hL hno
  obtain rfl : r' = r := Option.some.inj (hr.symm.trans h.result)
  obtain rfl : L = all := Option.some.inj (hL.symm.trans h.answers)
  rw [hcur]
  exact .inl (h.passed hno)

/-- A new DNS result that is freed at once. -/
theorem AtAnswer.newFreed {r : Addr} {all : List MxAnswer} {i : Nat} (h : AtAnswer conf st r all i d)
    (l : List MxAnswer) (hf : (d.addResult l).freeResult d.fresh = some d') : AtAnswer conf st r all i d' := by
  obtain ⟨rfl, hinv⟩ := (h.inv.addResult l).freeResult hf
  refine ⟨hinv, h.ip, h.result, ?_, h.loop, h.passed⟩
  have hne : r ≠ d.fresh := Nat.ne_of_lt (h.inv.bound r h.result)
  show (if r = d.fresh then none else if r = d.fresh then some l else d.results r) = some all
  rw [if_neg hne, if_neg hne]
  exact h.answers

/-- Addresses for the exchanger the walk stands at. -/
theorem AtAnswer.newIp {r : Addr} {all : List MxAnswer} {i : Nat} (h : AtAnswer conf st r all (i + 1) d)
    (hcur : d.dCurDnsrResult = i) (l : List MxAnswer) :
    Walked conf st r all .resolved { d.addResult l with dDnsrResultIp := some d.fresh, dCurDnsrResultIp := -1 } := by
  have hs := (h.strict hcur).addResult l
  have hne : r ≠ d.fresh := Nat.ne_of_lt (h.inv.bound r h.result)
  refine .inr ⟨.inl rfl, ⟨hs.status, hs.sin, hs.cells, hs.cuts, hs.bound, ?_, ?_, hs.current, ?_⟩, h.result, ?_⟩
  · intro hnone
    have hnone : d.dDnsrResult = none := hnone
    rw [h.result] at hnone
    cases hnone
  · intro _
    show 0 ≤ d.dCurDnsrResult
    omega
  · intro r' L hr hL hno
    obtain hpassed | ⟨-, hretry⟩ := hs.walked r' L hr hL hno
    · exact .inl hpassed
    · obtain rfl : r' = r := Option.some.inj (hr.symm.trans h.result)
      have hL' : L = all := by
        have hL : (if r' = d.fresh then some l else d.results r') = some L := hL
        rw [if_neg hne] at hL
        exact Option.some.inj (hL.symm.trans h.answers)
      subst hL'
      refine .inl ?_
      show Passed L d.dMxPreferenceCutoff (d.dCurDnsrResult + 1).toNat
      rw [hcur]
      exact h.passed hno
  · show (if r = d.fresh then some l else d.results r) = some all
    rw [if_neg hne]
    exact h.answers

theorem answersPtr_chosen {r : Addr} (all : List MxAnswer) (rest : List MxAnswer) (i : Nat)
    (hrest : all.drop i = rest) (d : Remote) (s : σ) (h : AtAnswer conf st r all i d) :
    Arrives R (answersPtr conf all rest i) (Walked conf st r all) d s := by
  induction rest generalizing i d s with
  | nil =>
    have hall : ∀ j b, all[j]? = some b → j < i := by
      intro j b hb
      have hlt := (List.getElem?_eq_some_iff.mp hb).choose
      have hlen := List.drop_eq_nil_iff.mp hrest
      omega
    have hnext : AtAnswer conf st r all (i + 1) d :=
      ⟨h.inv, h.ip, h.result, h.answers, h.loop, fun hno j _ b x hb => h.passed hno j (hall j b hb) b x hb⟩
    exact .inr ⟨.inr rfl, (hnext.same h.inv.sin i).strict rfl, h.result, h.answers⟩
  | cons answer rest ih =>
    have ha : all[i]? = some answer := by
      rw [← List.head?_drop, hrest]
      rfl
    have hdrop : all.drop (i + 1) = rest := by
      rw [← List.drop_drop, hrest]
      rfl
    have hk := h.inv.current r all h.result h.answers
    -- the address of the record, once it is known not to be the cutoff
    have hok : AtAnswer conf st r all (i + 1) d → ∀ ip, TargetBelow conf ⟨ip, all, i⟩ :=
      fun hnext ip => targetBelow_of_passed hk hnext.passed ip
    have hskip : ∀ t, TargetBelow conf t → AtAnswer conf st r all (i + 1) d →
        Arrives R (answersPtr conf all rest (i + 1)) (Walked conf st r all) { d with dCurDnsrResult := i, dSin := t } s :=
      fun t hsin hnext => ih (i + 1) hdrop _ s (hnext.same hsin i)
    have hfound : ∀ t, TargetBelow conf t → AtAnswer conf st r all (i + 1) d →
        Walked conf st r all .found { d with dCurDnsrResult := i, dSin := t } :=
      fun t hsin hnext => .inl (.inl ⟨rfl, (hnext.same hsin i).strict rfl⟩)
    unfold answersPtr
    refine (Faulty.wlp_bind _ _).mpr ((Faulty.wlp_modify _).mpr ?_)
    refine (Faulty.wlp_bind _ _).mpr (Faulty.wlp_get.mpr ?_)
    split
    · rename_i hdata
      have hnext := h.next ha fun _ x => by rw [hdata]; exact fun h => RrData.noConfusion h
      show Faulty.wlp _ _ (if _ then _ else _) _ _ _
      split
      · exact hskip _ (hok hnext _) hnext
      · exact hfound _ (hok hnext _) hnext
    · rename_i preference exchange hdata
      split
      · -- a punt host has no cutoff
        rename_i hstatus
        refine hskip d.dSin h.inv.sin (h.next ha fun hno => ?_)
        obtain ⟨hfalse, -⟩ | ⟨-, -, -, -, hpunt⟩ := hk
        · rw [hno] at hfalse
          cases hfalse
        · have hst : d.hqStatus = st := h.inv.status
          rw [hst] at hstatus hpunt
          exact absurd (h.loop.resolve_left hstatus) hpunt
      split
      · -- the cutoff
        rename_i hcut
        have hcut' : d.hqNoPuntMx = true := hcut.1
        apply (Faulty.wlp_bind _ _).mpr
        have hcuts : ∀ L ∈ all :: d.cuts, ∃ q, OursAt conf L q := by
          intro L hL
          obtain rfl | hL := List.mem_cons.mp hL
          · obtain ⟨hfalse, -⟩ | ⟨-, hsome, -⟩ := hk
            · rw [hcut'] at hfalse
              cases hfalse
            · exact ⟨_, oursAt_of_cutoff hsome⟩
          · exact h.inv.cuts L hL
        have hat := (h.same h.inv.sin i).inv
        have hinv : CutInv conf True st { d with dCurDnsrResult := i, cuts := all :: d.cuts } :=
          ⟨hat.status, hat.sin, hat.cells, hcuts, hat.bound, hat.ipOnly, hat.started, hat.current, hat.walked⟩
        apply Faulty.wlp_mono _ (retryStartPtr_chosen hinv)
        exact fun ret d' _ hret => .inl hret
      rename_i hcut
      have hnext : AtAnswer conf st r all (i + 1) d := by
        refine h.next ha fun hno x hx => hcut ⟨hno, ?_⟩
        rw [hdata] at hx
        exact (RrData.mx.inj hx).1.symm
      split
      · exact hfound _ (hok hnext _) hnext
      · apply (Faulty.wlp_bind _ _).mpr
        intro answers u _
        cases answers with
        | none => exact ih (i + 1) hdrop _ u (hnext.same h.inv.sin i)
        | some rrs =>
          apply (Faulty.wlp_bind _ _).mpr
          show Faulty.wlp _ _ (if rrs = [] then _ else _) _ _ _
          split
          · apply (Faulty.wlp_bind _ _).mpr
            apply arrives_update
            intro d' hfree
            exact ih (i + 1) hdrop d' u ((hnext.same h.inv.sin i).newFreed _ hfree)
          · exact (hnext.same h.inv.sin i).newIp rfl _
    · rename_i hnota hnotmx
      exact hskip d.dSin h.inv.sin (h.next ha fun _ x hx => hnotmx _ _ hx)

/-! ## The retry list -/

/-- The cells hold addresses that were held before, or the last one tried; nothing but the list is changed. -/
structure CellsFrom (d d' : Remote) : Prop where
  only : ListOnly d d'
  cells : ∀ a c, d'.cells a = some c → c.cSin = d.dSin ∨ ∃ b c₀, d.cells b = some c₀ ∧ c.cSin = c₀.cSin
  fresh : d.fresh ≤ d'.fresh

theorem CellsFrom.sin_eq (h : CellsFrom d d') : d'.dSin = d.dSin := by rw [h.only]

theorem CellsFrom.trans {d'' : Remote} (h : CellsFrom d d') (h' : CellsFrom d' d'') : CellsFrom d d'' := by
  refine ⟨?_, ?_, h.fresh.trans h'.fresh⟩
  · unfold ListOnly
    rw [h'.only, h.only]
  · intro a c hc
    obtain hsin | ⟨b, c₀, hb, hsin⟩ := h'.cells a c hc
    · exact .inl (hsin.trans h.sin_eq)
    · obtain hsin' | ⟨b', c', hb', hsin'⟩ := h.cells b c₀ hb
      · exact .inl (hsin.trans hsin')
      · exact .inr ⟨b', c', hb', hsin.trans hsin'⟩

/-- A cell gets new links, or is freed. -/
theorem cellsFrom_set (c : Option ConnectionData) (a : Addr) (d₁ : Remote)
    (hd : d₁ = { d with dRetryList := d₁.dRetryList, dRetryListEnd := d₁.dRetryListEnd, dRetryCur := d₁.dRetryCur })
    (hc : ∀ x, c = some x → x.cSin = d.dSin ∨ ∃ b c₀, d.cells b = some c₀ ∧ x.cSin = c₀.cSin) :
    CellsFrom d (d₁.setCell a c) := by
  rw [hd]
  refine ⟨rfl, ?_, Nat.le_refl _⟩
  intro b x hx
  have hx : (if b = a then c else d.cells b) = some x := hx
  split at hx
  · exact hc x hx
  · exact .inr ⟨b, x, hx, rfl⟩

theorem connectionDataCreate_cells (h : d.connectionDataCreate = some d') : CellsFrom d d' := by
  unfold Remote.connectionDataCreate at h
  split at h
  · obtain rfl := Option.some.inj h
    refine ⟨rfl, ?_, Nat.le_succ _⟩
    intro b x hx
    have hx : (if b = d.fresh then some _ else d.cells b) = some x := hx
    split at hx
    · obtain rfl := Option.some.inj hx
      exact .inl rfl
    · exact .inr ⟨b, x, hx, rfl⟩
  · rename_i last _
    obtain ⟨c, hc, hd'⟩ := Option.bind_eq_some_iff.mp h
    obtain rfl := Option.some.inj hd'
    refine ⟨rfl, ?_, Nat.le_succ _⟩
    intro b x hx
    have hx : (if b = d.fresh then some _ else if b = last then some _ else d.cells b) = some x := hx
    split at hx
    · obtain rfl := Option.some.inj hx
      exact .inl rfl
    · split at hx
      · obtain rfl := Option.some.inj hx
        exact .inr ⟨last, c, hc, rfl⟩
      · exact .inr ⟨b, x, hx, rfl⟩

theorem connectionDataFree_cells {cd : Addr} (h : d.connectionDataFree cd = some d') : CellsFrom d d' := by
  obtain ⟨c, -, h⟩ := Option.bind_eq_some_iff.mp h
  obtain ⟨d₁, h₁, h⟩ := Option.bind_eq_some_iff.mp h
  obtain ⟨c', -, h⟩ := Option.bind_eq_some_iff.mp h
  obtain ⟨d₂, h₂, h⟩ := Option.bind_eq_some_iff.mp h
  obtain rfl := Option.some.inj h
  have hnext : CellsFrom d d₁ := by
    unfold Remote.unlinkNext at h₁
    split at h₁
    · rename_i p _
      obtain ⟨x, hx, rfl⟩ := Option.map_eq_some_iff.mp h₁
      exact cellsFrom_set _ p d rfl fun y hy => .inr ⟨p, x, hx, by obtain rfl := Option.some.inj hy; rfl⟩
    · obtain rfl := Option.some.inj h₁
      exact ⟨rfl, fun b x hx => .inr ⟨b, x, hx, rfl⟩, Nat.le_refl _⟩
  have hprev : CellsFrom d₁ d₂ := by
    unfold Remote.unlinkPrev at h₂
    split at h₂
    · rename_i n _
      obtain ⟨x, hx, rfl⟩ := Option.map_eq_some_iff.mp h₂
      exact cellsFrom_set _ n { d₁ with dRetryCur := c'.cNext } rfl
        fun y hy => .inr ⟨n, x, hx, by obtain rfl := Option.some.inj hy; rfl⟩
    · obtain rfl := Option.some.inj h₂
      exact ⟨rfl, fun b x hx => .inr ⟨b, x, hx, rfl⟩, Nat.le_refl _⟩
  have hfree : CellsFrom d₂ (d₂.setCell cd none) := cellsFrom_set none cd d₂ rfl fun y hy => by cases hy
  exact (hnext.trans hprev).trans hfree

/-- The invariant with another list, and another cursor where the walk is not at its end because of that. -/
theorem CutInv.list (h : CutInv conf out st d) (hc : CellsFrom d d') (hcur : out ∨ d'.dRetryCur = d.dRetryCur) :
    CutInv conf out st d' := by
  have hcells : ∀ a c, d'.cells a = some c → TargetBelow conf c.cSin := by
    intro a c ha
    obtain hsin | ⟨b, c₀, hb, hsin⟩ := hc.cells a c ha
    · rw [hsin]
      exact h.sin
    · rw [hsin]
      exact h.cells b c₀ hb
  have hfresh := hc.fresh
  have honly := hc.only
  unfold ListOnly at honly
  generalize d'.cells = cells, d'.fresh = fresh, d'.dRetryCur = cur, d'.dRetryList = head,
    d'.dRetryListEnd = last at honly hcells hfresh hcur
  subst honly
  refine ⟨h.status, h.sin, hcells, h.cuts, fun r hr => Nat.lt_of_lt_of_le (h.bound r hr) hfresh, h.ipOnly, h.started,
    h.current, ?_⟩
  intro r L hr hL hno
  obtain hpassed | ⟨hip, hend⟩ := h.walked r L hr hL hno
  · exact .inl hpassed
  · refine .inr ⟨hip, ?_⟩
    obtain hover | rfl := hcur
    · exact .inr hover
    · exact hend

theorem CutInv.setCur (h : CutInv conf True st d) (x : Option Addr) : CutInv conf True st { d with dRetryCur := x } :=
  h.list ⟨rfl, fun b c hc => .inr ⟨b, c, hc, rfl⟩, Nat.le_refl _⟩ (.inl trivial)

theorem retryNextPtr_chosen (h : CutInv conf out st d) (cd : Addr) :
    Arrives R (retryNextPtr cd) (Chosen conf st) d s := by
  unfold retryNextPtr
  apply (Faulty.wlp_bind _ _).mpr
  apply (Faulty.wlp_bind _ _).mpr
  apply arrives_read
  intro c _
  have hc := h.weaken.setCur c.cNext
  apply (Faulty.wlp_bind _ _).mpr
  show Faulty.wlp _ _ (if d.dQueueMovement = true then _ else _) _ _ _
  split
  · show Faulty.wlp _ _ (if c.cNext = none then _ else _) _ _ _
    split
    · exact retryPtr_chosen (hc.setCur d.dRetryList)
    · exact retryPtr_chosen hc
  · apply (Faulty.wlp_bind _ _).mpr
    apply arrives_update
    intro d' hfree
    have h' := hc.list (connectionDataFree_cells hfree) (.inl trivial)
    refine (Faulty.wlp_bind _ _).mpr (Faulty.wlp_get.mpr ?_)
    split
    · exact retryPtr_chosen h'
    · exact retryStartPtr_chosen h'

theorem keepHost_chosen (h : CutInv conf out st d) :
    Arrives R (keepHost conf) (fun _ d' => CutInv conf out st d' ∧ d'.dRetryCur = d.dRetryCur ∧
      d'.dDnsrResult = d.dDnsrResult) d s := by
  unfold keepHost
  apply (Faulty.wlp_bind _ _).mpr
  show Faulty.wlp _ _ (if _ then _ else _) _ _ _
  split
  · apply (Faulty.wlp_bind _ _).mpr
    intro ok u _
    cases ok with
    | false => exact ⟨h, rfl, rfl⟩
    | true =>
      apply arrives_update (R := R)
      intro d' hcreate
      have hcells := connectionDataCreate_cells hcreate
      have hcur : d'.dRetryCur = d.dRetryCur := by
        unfold Remote.connectionDataCreate at hcreate
        split at hcreate
        · obtain rfl := Option.some.inj hcreate
          rfl
        · obtain ⟨c, -, hd'⟩ := Option.bind_eq_some_iff.mp hcreate
          obtain rfl := Option.some.inj hd'
          rfl
      exact ⟨h.list hcells (.inr hcur), hcur, by rw [hcells.only]⟩
  · exact ⟨h, rfl, rfl⟩

/-! ## The next host -/

/-- No address at all. -/
theorem targetBelow_zero : TargetBelow conf ⟨⟨0, 0, 0, 0⟩, [], 0⟩ := by
  intro a ha
  cases ha

theorem hostPtr_chosen {r : Addr} (h : CutInv conf False st d) (hst : st = .down ∨ st = .puntDown)
    (hcur : d.dRetryCur = none) (hr : d.dDnsrResult = some r) : Arrives R (hostPtr conf r) (Chosen conf st) d s := by
  unfold hostPtr
  apply Faulty.wlp_seq (keepHost_chosen h)
  rintro - d₀ u ⟨h₀, hcur₀, hr₀⟩
  have h₁ : CutInv conf False st { d₀ with dSin := ⟨⟨0, 0, 0, 0⟩, [], 0⟩ } :=
    ⟨h₀.status, targetBelow_zero, h₀.cells, h₀.cuts, h₀.bound, h₀.ipOnly, h₀.started, h₀.current, h₀.walked⟩
  have hr₁ : ({ d₀ with dSin := ⟨⟨0, 0, 0, 0⟩, [], 0⟩ } : Remote).dDnsrResult = some r := hr₀.trans hr
  have hcur₁ : ({ d₀ with dSin := ⟨⟨0, 0, 0, 0⟩, [], 0⟩ } : Remote).dRetryCur = none := hcur₀.trans hcur
  refine (Faulty.wlp_bind _ _).mpr ((Faulty.wlp_modify _).mpr ?_)
  refine (Faulty.wlp_bind _ _).mpr (Faulty.wlp_get.mpr ?_)
  generalize ({ d₀ with dSin := ⟨⟨0, 0, 0, 0⟩, [], 0⟩ } : Remote) = d₁ at h₁ hr₁ hcur₁
  refine (Faulty.wlp_bind _ _).mpr (arrives_read fun all hall => ?_)
  split
  · exact exchangerPtr_chosen h₁ hr₁ hall
  · rename_i hip
    have hat : AtAnswer conf st r all (d₁.dCurDnsrResult + 1).toNat d₁ := by
      refine ⟨h₁.weaken, hip, hr₁, hall, hst, fun hno => ?_⟩
      obtain hpassed | ⟨-, hretry | hover⟩ := h₁.walked r all hr₁ hall hno
      · exact hpassed
      · exact absurd hcur₁ hretry
      · exact hover.elim
    apply Faulty.wlp_seq (answersPtr_chosen all _ _ rfl d₁ u hat)
    intro ret d₂ v hret
    obtain hret | ⟨hret, h₂, hr₂, hall₂⟩ := hret
    · obtain ⟨rfl, h₂⟩ | ⟨rfl, h₂⟩ := hret
      · exact .inl ⟨rfl, h₂⟩
      · exact .inr ⟨rfl, h₂⟩
    · obtain rfl | rfl := hret
      · exact exchangerPtr_chosen h₂ hr₂ hall₂
      · exact retryStartPtr_chosen h₂

/-- Without answers there is nothing to walk. -/
theorem CutInv.noResult {out' : Prop} {st' : HostStatus} (h : CutInv conf out st d) (hst : d'.hqStatus = st')
    (hr : d'.dDnsrResult = none) (hip : d'.dDnsrResultIp = none) (hsin : d'.dSin = d.dSin)
    (hcells : d'.cells = d.cells) (hcuts : d'.cuts = d.cuts) : CutInv conf out' st' d' := by
  have hnone : ∀ {P : Prop} {r : Addr}, d'.dDnsrResult = some r → P := by
    intro P r hsome
    rw [hr] at hsome
    cases hsome
  refine ⟨hst, ?_, ?_, ?_, fun r => hnone, fun _ => hip, fun hne => absurd hip hne, fun r L => hnone,
    fun r L => hnone⟩
  · rw [hsin]
    exact h.sin
  · rw [hcells]
    exact h.cells
  · rw [hcuts]
    exact h.cuts

/-- New answers, and the walk in front of them. -/
theorem CutInv.install (h : CutInv conf out st d) (hip : d.dDnsrResultIp = none) (L : List MxAnswer) (no : Bool)
    (cut : Nat) (cur : Int) (hk : Known conf { d with hqNoPuntMx := no, dMxPreferenceCutoff := cut } L)
    (hcur : no = true → cur = -1) :
    CutInv conf False st { d.addResult L with
      dDnsrResult := some d.fresh, hqNoPuntMx := no, dMxPreferenceCutoff := cut, dCurDnsrResult := cur } := by
  have hnew : ∀ {r : Addr} {L' : List MxAnswer}, some d.fresh = some r → (d.addResult L).results r = some L' →
      L = L' := by
    intro r L' hr hL
    obtain rfl := Option.some.inj hr
    have hL : (if d.fresh = d.fresh then some L else d.results d.fresh) = some L' := hL
    rw [if_pos rfl] at hL
    exact Option.some.inj hL
  refine ⟨h.status, h.sin, h.cells, h.cuts, ?_, fun _ => hip, fun hne => absurd hip hne, ?_, ?_⟩
  · intro r hr
    obtain rfl := Option.some.inj hr
    exact Nat.lt_succ_self _
  · intro r L' hr hL
    rw [← hnew hr hL]
    exact hk
  · intro r L' _ _ hno
    refine .inl ?_
    show Passed L' cut (cur + 1).toNat
    rw [hcur hno]
    intro j hj
    omega

/-- The answers at hand are freed, and the pointer to them is unset. -/
theorem CutInv.drop {out' : Prop} {r : Addr} (h : CutInv conf out st d) (hip : d.dDnsrResultIp = none)
    (hf : d.freeResult r = some d') : CutInv conf out' st { d' with dDnsrResult := none } := by
  obtain ⟨x, -, rfl⟩ := Option.map_eq_some_iff.mp hf
  exact h.noResult h.status rfl hip rfl rfl rfl

theorem outboudDns_chosen (hR : CutoffSound conf R) (h : CutInv conf out st d)
    (hst : st = .down) (hip : d.dDnsrResultIp = none) (hr : d.dDnsrResult = none) (hno : d.hqNoPuntMx = false) :
    Arrives R (outboudDns conf) (fun ok d' =>
      ok = true ∧ CutInv conf False st { d' with dCurDnsrResult := -1 } ∨
        ok = false ∧ d'.dDnsrResultIp = none ∧ ∃ st', CutInv conf True st' d') d s := by
  have hdown : st ≠ .punt ∧ st ≠ .puntDown := by
    rw [hst]
    decide
  unfold outboudDns
  apply (Faulty.wlp_bind _ _).mpr
  intro answers t hanswers
  cases answers with
  | none => exact .inr ⟨rfl, hip, st, h.noResult h.status hr hip rfl rfl rfl⟩
  | some answers =>
    have hfirst := hR.mx _ _ _ hanswers
    show Faulty.wlp _ _ (if _ then _ else _) _ { d.addResult answers with dDnsrResult := some d.fresh } t
    split
    · split
      · rename_i preference hcut
        refine .inl ⟨rfl, h.install hip answers true preference (-1) (.inr ⟨rfl, hcut, hfirst, ?_⟩) fun _ => rfl⟩
        rw [show d.hqStatus = st from h.status]
        exact hdown
      · rename_i hcut
        have hinst := h.install hip answers false d.dMxPreferenceCutoff (-1) (.inl ⟨rfl, hcut⟩) fun _ => rfl
        rw [← hno] at hinst
        exact .inl ⟨rfl, hinst⟩
    · apply (Faulty.wlp_bind _ _).mpr
      apply arrives_update
      intro d₁ hfree
      obtain ⟨x, -, rfl⟩ := Option.map_eq_some_iff.mp hfree
      apply (Faulty.wlp_bind _ _).mpr
      apply (Faulty.wlp_bind _ _).mpr
      intro rrs u hrrs
      have h₁ : CutInv conf out st { (d.addResult answers).setResult d.fresh none with dDnsrResult := none } :=
        h.noResult h.status rfl hip rfl rfl rfl
      cases rrs with
      | none => exact .inr ⟨rfl, hip, st, h.noResult h.status rfl hip rfl rfl rfl⟩
      | some rrs =>
        have haddress := hR.address _ _ _ _ hrrs
        have hinst := fun cur => h₁.install hip _ false d.dMxPreferenceCutoff cur (.inl ⟨rfl, haddress⟩)
          (fun hc => by cases hc)
        rw [← hno] at hinst
        show Faulty.wlp _ _ (if rrs = [] then _ else _) _ _ u
        split
        · apply (Faulty.wlp_bind _ _).mpr
          intro ok v _
          have hend := (hinst d.dCurDnsrResult).weaken
          cases ok with
          | false => exact .inr ⟨rfl, hip, st, hend⟩
          | true =>
            refine .inr ⟨rfl, hip, .bounce, ⟨rfl, hend.sin, hend.cells, hend.cuts, hend.bound, hend.ipOnly,
              hend.started, ?_, hend.walked⟩⟩
            intro r L hsome hL
            obtain hk | ⟨hfalse, -⟩ := hend.current r L hsome hL
            · exact .inl hk
            · have hfalse : d.hqNoPuntMx = true := hfalse
              rw [hno] at hfalse
              cases hfalse
        · exact .inl ⟨rfl, hinst (-1)⟩

/-- The walk is exhausted; only a failed query may have changed the status. -/
def WalkedOut (conf : DeliverConf) (st : HostStatus) (d' : Remote) : Prop :=
  ∃ st', CutInv conf True st' d' ∧ (d'.dDnsrResultIp ≠ none → st' = st)

theorem queryPtr_chosen (hR : CutoffSound conf R) (h : CutInv conf False st d)
    (hst : st = .down ∨ st = .puntDown) :
    Arrives R (queryPtr conf) (fun ret d' =>
      ret = .found ∧ CutInv conf False st d' ∨ ret = .exhausted ∧ WalkedOut conf st d') d s := by
  unfold queryPtr
  refine (Faulty.wlp_bind _ _).mpr (Faulty.wlp_get.mpr ?_)
  split
  · exact .inl ⟨rfl, h⟩
  · rename_i hr
    have hip := h.ipOnly hr
    have h₁ : CutInv conf False st { d with hqNoPuntMx := false, dMxPreferenceCutoff := 0, dCurDnsrResult := 0 } :=
      h.noResult h.status hr hip rfl rfl rfl
    refine (Faulty.wlp_bind _ _).mpr ((Faulty.wlp_modify _).mpr ?_)
    split
    · rename_i hstatus
      have hdown : st = .down := h.status.symm.trans hstatus
      apply Faulty.wlp_seq (outboudDns_chosen hR h₁ hdown hip hr rfl)
      intro ok d₂ t hok
      obtain ⟨rfl, h₂⟩ | ⟨rfl, hip₂, st', h₂⟩ := hok
      · exact .inl ⟨rfl, h₂⟩
      · exact .inr ⟨rfl, st', h₂, fun hne => absurd hip₂ hne⟩
    · apply (Faulty.wlp_bind _ _).mpr
      intro rrs t hrrs
      cases rrs with
      | none => exact .inr ⟨rfl, st, h₁.weaken, fun _ => rfl⟩
      | some rrs =>
        have haddress := hR.address _ _ _ _ hrrs
        have hinst := fun cur => h₁.install hip _ false 0 cur (.inl ⟨rfl, haddress⟩) (fun hc => by cases hc)
        show Faulty.wlp _ _ (if rrs = [] then _ else _) _ _ t
        split
        · exact .inr ⟨rfl, st, (hinst 0).weaken, fun _ => rfl⟩
        · exact .inl ⟨rfl, hinst (-1)⟩
    · rename_i hdown hpunt
      rw [show d.hqStatus = st from h.status] at hdown hpunt
      obtain rfl | rfl := hst
      · exact absurd rfl hdown
      · exact absurd rfl hpunt

theorem nextDnsrHostPtr_chosen (hR : CutoffSound conf R)
    (h : CutInv conf False st d) (hst : st = .down ∨ st = .puntDown) :
    Arrives R (nextDnsrHostPtr conf) (fun ret d' =>
      ret = .found ∧ CutInv conf False st d' ∨ ret = .exhausted ∧ WalkedOut conf st d') d s := by
  unfold nextDnsrHostPtr
  apply Faulty.wlp_seq (queryPtr_chosen hR h hst)
  intro ret d₁ t hret
  obtain ⟨rfl, h₁⟩ | hout := hret
  · have hchosen : ∀ {ret d'}, Chosen conf st ret d' →
        ret = .found ∧ CutInv conf False st d' ∨ ret = .exhausted ∧ WalkedOut conf st d' := by
      intro ret d' hret
      exact hret.imp id (And.imp_right fun h' => ⟨st, h', fun _ => rfl⟩)
    refine (Faulty.wlp_bind _ _).mpr (Faulty.wlp_get.mpr ?_)
    split
    · rename_i cd _
      exact Faulty.wlp_mono (fun _ _ _ => hchosen) (retryNextPtr_chosen h₁ cd)
    · rename_i hcur
      split
      · rename_i r hr
        exact Faulty.wlp_mono (fun _ _ _ => hchosen) (hostPtr_chosen h₁ hst hcur hr)
      · trivial
  · obtain ⟨rfl, hout⟩ := hout
    exact .inr ⟨rfl, hout⟩

/-! ## The lookup -/

/-- A lookup has found an address, or there is none. -/
def LookedUp (conf : DeliverConf) (st : HostStatus) (ret : NextHost)
    (d' : Remote) : Prop :=
  ret = .found ∧ CutInv conf False st d' ∨ ret = .exhausted ∧ ∃ st', CutInv conf False st' d'

theorem exhaustedPtr_chosen (h : CutInv conf out st d) (hip : d.dDnsrResultIp = none) :
    Arrives R exhaustedPtr (fun ret d' => ret = .exhausted ∧ CutInv conf False st d') d s := by
  unfold exhaustedPtr
  refine (Faulty.wlp_bind _ _).mpr (Faulty.wlp_get.mpr ?_)
  split
  · rename_i hr
    exact ⟨rfl, h.noResult h.status hr hip rfl rfl rfl⟩
  · apply (Faulty.wlp_bind _ _).mpr
    apply arrives_update
    intro d' hfree
    exact ⟨rfl, h.drop hip hfree⟩

/-- The addresses of an exchanger have all been tried. -/
theorem CutInv.dropIp {rip : Addr} (h : CutInv conf out st d) (hip : d.dDnsrResultIp ≠ none)
    (hf : d.freeResult rip = some d') : CutInv conf False st { d' with dDnsrResultIp := none } := by
  have hs := h.strict hip
  obtain ⟨rfl, h'⟩ := hs.freeResult hf
  refine ⟨h'.status, h'.sin, h'.cells, h'.cuts, h'.bound, fun _ => rfl, fun hne => absurd rfl hne, h'.current, ?_⟩
  intro r L hr hL hno
  exact .inl ((h'.walked r L hr hL hno).resolve_right fun hend => hip hend.1)

theorem lookupTurn_chosen {next : Rem NextHost} {ret : NextHost}
    (hnext : ∀ d s, CutInv conf False st d → Arrives R next (LookedUp conf st) d s)
    (h : ret = .found ∧ CutInv conf False st d ∨ ret = .exhausted ∧ WalkedOut conf st d) :
    Arrives R (lookupTurn next ret) (LookedUp conf st) d s := by
  obtain ⟨rfl, h⟩ | ⟨rfl, st', h, hsame⟩ := h
  · exact .inl ⟨rfl, h.status, h.sin, h.cells, h.cuts, h.bound, h.ipOnly, h.started, h.current, h.walked⟩
  · unfold lookupTurn
    refine (Faulty.wlp_bind _ _).mpr (Faulty.wlp_get.mpr ?_)
    split
    · rename_i rip hip
      have hne : d.dDnsrResultIp ≠ none := by
        rw [hip]
        exact Option.some_ne_none rip
      obtain rfl := hsame hne
      apply (Faulty.wlp_bind _ _).mpr
      apply arrives_update
      intro d' hfree
      exact hnext _ s (h.dropIp hne hfree)
    · rename_i hip
      apply Faulty.wlp_mono _ (exhaustedPtr_chosen h hip)
      exact fun ret d' _ hret => .inr ⟨hret.1, st', hret.2⟩

theorem lookupTurns_chosen (hR : CutoffSound conf R)
    (hst : st = .down ∨ st = .puntDown) (n : Nat) (d : Remote) (s : σ) (h : CutInv conf False st d) :
    Arrives R (lookupTurns conf n) (LookedUp conf st) d s := by
  induction n generalizing d s with
  | zero => trivial
  | succ n ih =>
    unfold lookupTurns
    apply Faulty.wlp_seq (nextDnsrHostPtr_chosen hR h hst)
    exact fun ret d' t hret => lookupTurn_chosen (fun d s h => ih d s h) hret

/-- **A lookup** gives an address that may be tried, or none. -/
theorem lookupPtr_chosen (hR : CutoffSound conf R)
    (h : CutInv conf False st d) (hst : st = .down ∨ st = .puntDown) :
    Arrives R (lookupPtr conf) (LookedUp conf st) d s := by
  unfold lookupPtr
  apply Faulty.wlp_seq (nextDnsrHostPtr_chosen hR h hst)
  intro ret d' t hret
  refine lookupTurn_chosen (fun d₁ s₁ h₁ => ?_) hret
  exact lookupTurns_chosen hR hst _ d₁ s₁ h₁

/-! ## A turn of `deliver_remote` -/

/-- The invariant says nothing of the connection, and of the status only that a punt host has no cutoff. -/
theorem CutInv.setStatus {st' : HostStatus} (h : CutInv conf out st d) (snet movement : Bool)
    (hst : (st = .punt ∨ st = .puntDown) ∨ st' ≠ .punt ∧ st' ≠ .puntDown) :
    CutInv conf out st' { d with hqStatus := st', dSnetSmtp := snet, dQueueMovement := movement } := by
  refine ⟨rfl, h.sin, h.cells, h.cuts, h.bound, h.ipOnly, h.started, ?_, h.walked⟩
  intro r L hr hL
  obtain hk | ⟨hno, hcut, hfirst, hne⟩ := h.current r L hr hL
  · exact .inl hk
  · refine .inr ⟨hno, hcut, hfirst, hst.resolve_left fun hpunt => ?_⟩
    rw [show d.hqStatus = st from h.status] at hne
    exact hpunt.elim hne.1 hne.2

theorem CutInv.setSnet (h : CutInv conf out st d) (snet movement : Bool) :
    CutInv conf out st { d with dSnetSmtp := snet, dQueueMovement := movement } :=
  ⟨h.status, h.sin, h.cells, h.cuts, h.bound, h.ipOnly, h.started, h.current, h.walked⟩

/-- What a turn leaves; where the loop goes on, the status is still that of the call. -/
def TurnLeft (conf : DeliverConf) (st : HostStatus) (t : RemoteTry)
    (d' : Remote) : Prop :=
  ∃ st', CutInv conf False st' d' ∧ ∀ m, t = .again m → st' = st ∧ st ≠ .bounce

theorem turnLeft_ended {ret : DlvRet} (h : CutInv conf False st d) {st' : HostStatus} :
    TurnLeft conf st' (.ended ret) d :=
  ⟨st, h, fun m hm => by cases hm⟩

theorem turnLeft_again {m : Bool} (h : CutInv conf False st d) (hst : st ≠ .bounce) : TurnLeft conf st (.again m) d :=
  ⟨st, h, fun _ _ => ⟨rfl, hst⟩⟩

theorem freeResults_left (h : CutInv conf out st d) :
    Arrives R freeResults (fun _ d' => CutInv conf out st d') d s := by
  unfold freeResults
  refine (Faulty.wlp_bind _ _).mpr (Faulty.wlp_get.mpr ?_)
  split
  · apply (Faulty.wlp_bind _ _).mpr
    apply arrives_update
    intro d₁ hfree
    split
    · apply arrives_update
      intro d₂ hfree₂
      exact ((h.freeResult hfree).2.freeResult hfree₂).2
    · trivial
  · split
    · apply arrives_update
      intro d₁ hfree
      exact (h.freeResult hfree).2
    · exact h

theorem cleanupPtr_left (movement : Bool) (ret : SmtpRet) (h : CutInv conf False st d) :
    Arrives R (cleanupPtr movement ret) (TurnLeft conf st) d s := by
  have hrest : ∀ s : σ, Arrives R (do
      modify fun d => { d with dSnetSmtp := false }
      let d ← get
      if d.hqStatus = .bounce then
        freeResults
        return .ended .done
      else if d.hqStatus = .down ∧ movement then
        modify fun d => { d with hqStatus := .mx }
        return .ended .done
      else if ← Rem.ask .lseek then return .again movement
      else return RemoteTry.ended .done) (TurnLeft conf st) d s := by
    intro s
    have h₁ := h.setSnet false d.dQueueMovement
    refine (Faulty.wlp_bind _ _).mpr ((Faulty.wlp_modify _).mpr ?_)
    refine (Faulty.wlp_bind _ _).mpr (Faulty.wlp_get.mpr ?_)
    split
    · apply Faulty.wlp_seq (freeResults_left h₁)
      exact fun _ d' _ h' => turnLeft_ended h'
    split
    · exact turnLeft_ended (h₁.setStatus false d.dQueueMovement (.inr (by decide)))
    · rename_i hbounce _
      apply (Faulty.wlp_bind _ _).mpr
      intro ok t _
      cases ok with
      | false => exact turnLeft_ended h₁
      | true =>
        apply turnLeft_again h₁
        rwa [show d.hqStatus = st from h.status] at hbounce
  unfold cleanupPtr
  split
  · apply (Faulty.wlp_bind _ _).mpr
    exact fun _ t _ => hrest t
  · exact hrest s

theorem sentPtr_left (movement moved : Bool) (ret : SmtpRet) (h : CutInv conf False st d) :
    Arrives R (sentPtr movement moved ret) (TurnLeft conf st) d s := by
  unfold sentPtr
  refine (Faulty.wlp_bind _ _).mpr (Faulty.wlp_get.mpr ?_)
  cases ret with
  | ok =>
    dsimp only
    split
    · exact turnLeft_ended (h.setStatus d.dSnetSmtp d.dQueueMovement (.inr (by decide)))
    · rename_i hpunt
      have hst : st = .puntDown := h.status.symm.trans hpunt
      exact turnLeft_ended (h.setStatus d.dSnetSmtp d.dQueueMovement (.inl (.inr hst)))
    · exact turnLeft_ended h
  | abort => exact turnLeft_ended h
  | error => exact cleanupPtr_left _ _ h
  | badConnection => exact cleanupPtr_left _ _ h

theorem dialoguePtr_left (movement : Bool) (h : CutInv conf False st d) :
    Arrives R (dialoguePtr movement) (TurnLeft conf st) d s := by
  rw [dialoguePtr_eq]
  apply (Faulty.wlp_bind _ _).mpr
  intro ok t _
  cases ok with
  | false => exact turnLeft_ended h
  | true =>
    apply (Faulty.wlp_bind _ _).mpr
    intro sent u _
    show Faulty.wlp _ _ (if sent.2 then _ else _) _ _ _
    split
    · refine (Faulty.wlp_bind _ _).mpr ((Faulty.wlp_modify _).mpr ?_)
      apply (Faulty.wlp_bind _ _).mpr
      exact fun _ v _ => sentPtr_left movement _ _ (h.setSnet d.dSnetSmtp true)
    · exact sentPtr_left movement _ _ h

theorem afterReply_left (movement : Bool) (ret : SmtpRet) (h : CutInv conf False st d) :
    Arrives R (afterReply movement ret) (TurnLeft conf st) d s := by
  unfold afterReply
  cases ret with
  | ok => exact dialoguePtr_left movement h
  | abort => exact turnLeft_ended h
  | error => exact cleanupPtr_left _ _ h
  | badConnection => exact cleanupPtr_left _ _ h

theorem connectPtr_left (movement : Bool) (h : CutInv conf False st d) (hst : st ≠ .bounce) :
    Arrives R (connectPtr movement) (TurnLeft conf st) d s := by
  unfold connectPtr
  apply (Faulty.wlp_bind _ _).mpr
  intro ok t _
  cases ok with
  | false => exact turnLeft_again h hst
  | true =>
    refine (Faulty.wlp_bind _ _).mpr (Faulty.wlp_get.mpr ?_)
    apply (Faulty.wlp_bind _ _).mpr
    intro ok u _
    cases ok with
    | false => exact turnLeft_again h hst
    | true =>
      apply (Faulty.wlp_bind _ _).mpr
      intro ok v _
      cases ok with
      | false => exact turnLeft_again h hst
      | true =>
        refine (Faulty.wlp_bind _ _).mpr ((Faulty.wlp_modify _).mpr ?_)
        apply (Faulty.wlp_bind _ _).mpr
        intro reply w _
        obtain ⟨ret, isRefused⟩ := reply
        refine (Faulty.wlp_bind _ _).mpr ((Faulty.wlp_modify _).mpr ?_)
        show Arrives R _ _ { d with
          dSnetSmtp := true, hqStatus := if isRefused ∧ d.hqStatus = .down then HostStatus.bounce else d.hqStatus } w
        split
        · -- a refusal makes the host bounce, and ends the loop
          have hrefused : CutInv conf False .bounce _ := h.setStatus true d.dQueueMovement (.inr (by decide))
          apply Faulty.wlp_mono _ (afterReply_left movement ret hrefused)
          intro t d' _ hleft
          obtain ⟨st', h', hagain⟩ := hleft
          exact ⟨st', h', fun m hm => absurd rfl (hagain m hm).2⟩
        · exact afterReply_left movement ret (h.setSnet true d.dQueueMovement)

/-- **A turn of the loop** keeps the invariant. -/
theorem remoteTry_left (hR : CutoffSound conf R) (movement : Bool)
    (h : CutInv conf False st d) (hst : st = .down ∨ st = .puntDown) :
    Arrives R (remoteTry conf movement) (TurnLeft conf st) d s := by
  have hbounce : st ≠ .bounce := by
    obtain rfl | rfl := hst
    · decide
    · decide
  unfold remoteTry
  refine (Faulty.wlp_bind _ _).mpr (Faulty.wlp_get.mpr ?_)
  split
  · apply (Faulty.wlp_bind _ _).mpr
    exact fun ret t _ => afterReply_left movement ret h
  · apply Faulty.wlp_seq (lookupPtr_chosen hR h hst)
    intro ret d₁ t hret
    obtain ⟨rfl, h₁⟩ | ⟨rfl, st', h₁⟩ := hret
    · exact connectPtr_left movement h₁ hbounce
    · exact turnLeft_ended h₁

/-! ## Runs -/

/-- What the deliveries to the queue of `host` reach; `loop` is whether a call of `deliver_remote` is under way.
    Between two calls the outside may change. -/
inductive CutReached (conf : DeliverConf) (R : Prog.World RemoteOp RemoteAns σ) (host : Text) :
    Bool → Remote → σ → Prop
  | start (status : HostStatus) (no : Bool) (s : σ) :
      CutReached conf R host false { Remote.start host status with hqNoPuntMx := no } s
  | between {d : Remote} {s : σ} (h : CutReached conf R host false d s) (t : σ) : CutReached conf R host false d t
  | call {d : Remote} {s : σ} (h : CutReached conf R host false d s) (hd : d.hqStatus = .mx) :
      CutReached conf R host true { d with hqStatus := .down } s
  | callPunt {d : Remote} {s : σ} (h : CutReached conf R host false d s) (hd : d.hqStatus = .punt) :
      CutReached conf R host true { d with hqStatus := .puntDown } s
  | again {d d' : Remote} {s s' : σ} {movement m : Bool} (h : CutReached conf R host true d s)
      (hrun : (remoteTry conf movement).Runs R d s (.again m) d' s') : CutReached conf R host true d' s'
  | ended {d d' : Remote} {s s' : σ} {movement : Bool} {ret : DlvRet} (h : CutReached conf R host true d s)
      (hrun : (remoteTry conf movement).Runs R d s (.ended ret) d' s') : CutReached conf R host false d' s'

theorem CutReached.inv {host : Text} {loop : Bool} (hR : CutoffSound conf R) (h : CutReached conf R host loop d s) :
    ∃ st, CutInv conf False st d ∧ (loop = true → st = .down ∨ st = .puntDown) := by
  induction h with
  | start status no s =>
    refine ⟨status, ⟨rfl, targetBelow_zero, ?_, ?_, ?_, fun _ => rfl, fun hne => absurd rfl hne, ?_, ?_⟩, ?_⟩
    · intro a c hc
      cases hc
    · intro L hL
      cases hL
    · intro r hr
      cases hr
    · intro r L hr
      cases hr
    · intro r L hr
      cases hr
    · intro hloop
      cases hloop
  | between h t ih => exact ih
  | @call d s h hd ih =>
    obtain ⟨st, hinv, -⟩ := ih
    exact ⟨.down, hinv.setStatus d.dSnetSmtp d.dQueueMovement (.inr (by decide)), fun _ => .inl rfl⟩
  | @callPunt d s h hd ih =>
    obtain ⟨st, hinv, -⟩ := ih
    have hst : st = .punt := hinv.status.symm.trans hd
    exact ⟨.puntDown, hinv.setStatus d.dSnetSmtp d.dQueueMovement (.inl (.inl hst)), fun _ => .inr rfl⟩
  | again h hrun ih =>
    obtain ⟨st, hinv, hloop⟩ := ih
    obtain ⟨st', hinv', hagain⟩ := (Faulty.wlp_iff_runs.mp (remoteTry_left hR _ hinv (hloop rfl))).1 _ _ _ hrun
    obtain ⟨rfl, -⟩ := hagain _ rfl
    exact ⟨st', hinv', hloop⟩
  | ended h hrun ih =>
    obtain ⟨st, hinv, hloop⟩ := ih
    obtain ⟨st', hinv', -⟩ := (Faulty.wlp_iff_runs.mp (remoteTry_left hR _ hinv (hloop rfl))).1 _ _ _ hrun
    refine ⟨st', hinv', fun hfalse => ?_⟩
    cases hfalse

/-- **The cutoff prevents loops** in every run over answers on which it can rest: each address that is found, from
    the retry list too, is of no exchanger at or above what is ours; and a walk is cut off only in answers in which
    there is such an exchanger. -/
theorem mxCutoff_holds {host : Text} {loop : Bool} (hR : CutoffSound conf R) (h : CutReached conf R host loop d s) :
    (loop = true → ∀ d' s', (lookupPtr conf).Runs R d s .found d' s' → TargetBelow conf d'.dSin) ∧
      ∀ L ∈ d.cuts, ∃ q, OursAt conf L q := by
  obtain ⟨st, hinv, hloop⟩ := h.inv hR
  refine ⟨fun hl d' s' hrun => ?_, hinv.cuts⟩
  obtain ⟨-, hfound⟩ | ⟨hret, -⟩ := (Faulty.wlp_iff_runs.mp (lookupPtr_chosen hR hinv (hloop hl))).1 _ _ _ hrun
  · exact hfound.sin
  · cases hret

end Invariant

/-! ### Two spellings of one owner -/

/-- This host is `us`. -/
def usDeliver : DeliverConf :=
  { hostname := "us".toList, dnsConfig := false, secondaryMx := none, red := ⟨false, none, none⟩, puntHost := none }

/-- Every query for exchangers has the answers `L`, and no address query has any. -/
def answersMx (L : List MxAnswer) : Prog.Handler RemoteOp RemoteAns Unit
  | .dnsMx, _ => (some L, ())
  | .dnsA _, _ => (none, ())
  | .smtpConnect, _ => ((.ok, false), ())
  | .smtpRset, _ => (.ok, ())
  | .smtpSend, _ => ((.ok, true), ())
  | .smtpQuit, _ => ((), ())
  | .gettimeofday, _ => (true, ())
  | .errText, _ => (true, ())
  | .malloc, _ => (true, ())
  | .socket, _ => (true, ())
  | .connect _, _ => (true, ())
  | .attach, _ => (true, ())
  | .lseek, _ => (true, ())

/-- An exchanger behind this host, in front of it. -/
def twoSpellings : List MxAnswer :=
  [⟨⟨"h".toList, .mx 30 "b".toList⟩, some ⟨192, 0, 2, 1⟩⟩, ⟨⟨"H".toList, .mx 20 "us".toList⟩, none⟩]

/-- The host `h` in the loop. -/
def loopStart : Remote := { Remote.start "h".toList .mx with hqStatus := .down }

theorem loopStart_reached (R : Prog.World RemoteOp RemoteAns Unit) :
    CutReached usDeliver R "h".toList true loopStart () :=
  .call (.start .mx false ()) rfl

theorem twoSpellings_found : ∃ d', (lookupPtr usDeliver).run (answersMx twoSpellings) loopStart () =
    (some (.found, d'), ()) ∧ d'.dSin = ⟨⟨192, 0, 2, 1⟩, twoSpellings, 0⟩ :=
  ⟨_, rfl, rfl⟩

/-- **The sort leaves two spellings of an owner as they come**, and the exchanger at 30 is tried though this host is
    one at 20. -/
theorem not_mxCutoff : ¬ ∀ (conf : DeliverConf) (R : Prog.World RemoteOp RemoteAns Unit) (host : Text),
    (∀ s L s', R .dnsMx s (some L) s' → ∃ raw, L.map MxAnswer.rr = createResult raw) →
    (∀ name s rrs s', R (.dnsA name) s (some rrs) s' → mxCutoff conf (rrs.map fun rr => ⟨rr, none⟩) = none) →
    ∀ d s d' s', CutReached conf R host true d s → (lookupPtr conf).Runs R d s .found d' s' →
      TargetBelow conf d'.dSin := by
  intro h
  have hmx : ∀ s L s', (answersMx twoSpellings).world .dnsMx s (some L) s' →
      ∃ raw, L.map MxAnswer.rr = createResult raw := by
    rintro s L s' ⟨⟩
    exact ⟨twoSpellings.map MxAnswer.rr, by decide⟩
  have haddress : ∀ name s rrs s', (answersMx twoSpellings).world (.dnsA name) s (some rrs) s' →
      mxCutoff usDeliver (rrs.map fun rr => ⟨rr, none⟩) = none := by
    rintro name s rrs s' ⟨⟩
  have hruns : (lookupPtr usDeliver).wlp (answersMx twoSpellings).world True
      (fun ret d' _ => ret = .found → TargetBelow usDeliver d'.dSin) loopStart () := by
    refine Faulty.wlp_iff_runs.mpr ⟨?_, fun _ => trivial⟩
    rintro ret d' s' hrun rfl
    exact h usDeliver _ "h".toList hmx haddress _ _ _ _ (loopStart_reached _) hrun
  obtain ⟨d', hrun, hsin⟩ := twoSpellings_found
  have hend := Faulty.wlp_handler.mp hruns
  rw [hrun] at hend
  have hbelow := hend rfl
  rw [hsin] at hbelow
  have hours : OursAt usDeliver twoSpellings 20 :=
    ⟨_, List.mem_cons_of_mem _ List.mem_cons_self, _, rfl, .inl (by decide)⟩
  have hlt := hbelow _ rfl 30 20 (.inl ⟨_, rfl⟩) hours
  omega

/-! ## Answers of one owner -/

/-- The exchangers are in the order of their preferences. -/
def InOrder (a b : Rr) : Prop := ∀ p x q y, a.rrData = .mx p x → b.rrData = .mx q y → p ≤ q

/-- All exchangers are of one owner. -/
def OneOwner (l : List Rr) : Prop :=
  ∀ a ∈ l, ∀ b ∈ l, ∀ p x q y, a.rrData = .mx p x → b.rrData = .mx q y → a.rrName = b.rrName

section Sorted

variable {a b : Rr} {l : List Rr} {conf : DeliverConf} {L : List MxAnswer} {c : Nat}

theorem OneOwner.subset {l' : List Rr} (h : OneOwner l) (hs : l' ⊆ l) : OneOwner l' :=
  fun a ha b hb => h a (hs ha) b (hs hb)

theorem mxOutOfOrder_iff : mxOutOfOrder a b = true ↔
    ∃ p x q y, a.rrData = .mx p x ∧ b.rrData = .mx q y ∧ a.rrName = b.rrName ∧ q < p := by
  unfold mxOutOfOrder
  constructor
  · intro h
    split at h
    · rename_i p x q y ha hb
      obtain ⟨hname, hlt⟩ := Bool.and_eq_true_iff.mp h
      exact ⟨p, x, q, y, ha, hb, of_decide_eq_true hname, of_decide_eq_true hlt⟩
    · cases h
  · rintro ⟨p, x, q, y, ha, hb, hname, hlt⟩
    rw [ha, hb]
    simp [hname, hlt]

theorem exchange_perm (a : Rr) (l : List Rr) : ((exchange a l).1 :: (exchange a l).2).Perm (a :: l) := by
  induction l generalizing a with
  | nil => exact List.Perm.refl _
  | cons b l ih =>
    unfold exchange
    split
    · exact (List.Perm.swap a _ _).trans ((ih b).cons a)
    · exact ((List.Perm.swap b _ _).trans ((ih a).cons b)).trans (List.Perm.swap a b l)

/-- A record that is no exchanger stays where it is. -/
theorem exchange_other (ha : ∀ p x, a.rrData ≠ .mx p x) (l : List Rr) : exchange a l = (a, l) := by
  induction l with
  | nil => rfl
  | cons b l ih =>
    unfold exchange
    split
    · rename_i h
      obtain ⟨p, x, -, -, hp, -⟩ := mxOutOfOrder_iff.mp h
      exact absurd hp (ha p x)
    · rw [ih]

/-- The exchanger that comes to the front is no worse than the one that stood there. -/
theorem exchange_inOrder (a : Rr) (l : List Rr) : InOrder (exchange a l).1 a := by
  induction l generalizing a with
  | nil =>
    intro p x q y hp hq
    exact le_of_eq (RrData.mx.inj (hp.symm.trans hq)).1
  | cons b l ih =>
    unfold exchange
    split
    · rename_i h
      obtain ⟨p, x, q, y, hp, hq, -, hlt⟩ := mxOutOfOrder_iff.mp h
      intro p' x' p'' x'' hp' hp''
      have hle := ih b p' x' q y hp' hq
      have heq := (RrData.mx.inj (hp.symm.trans hp'')).1
      omega
    · exact ih a

/-- The exchanger that comes to the front is the best of its owner. -/
theorem exchange_best (a : Rr) (l : List Rr) (h : OneOwner (a :: l)) :
    ∀ b ∈ (exchange a l).2, InOrder (exchange a l).1 b := by
  induction l generalizing a with
  | nil =>
    intro b hb
    cases hb
  | cons b l ih =>
    have hskip : OneOwner (a :: l) := h.subset (List.cons_subset_cons a (List.subset_cons_self b l))
    unfold exchange
    split
    · rename_i hout
      obtain ⟨p, x, q, y, hp, hq, -, hlt⟩ := mxOutOfOrder_iff.mp hout
      intro e he
      obtain rfl | he := List.mem_cons.mp he
      · intro p' x' p'' x'' hp' hp''
        have hle := exchange_inOrder b l p' x' q y hp' hq
        have heq := (RrData.mx.inj (hp.symm.trans hp'')).1
        omega
      · exact ih b (h.subset (List.subset_cons_self a (b :: l))) e he
    · rename_i hin
      intro e he
      obtain rfl | he := List.mem_cons.mp he
      · intro p' x' q y hp' hq
        by_cases ha : ∃ p x, a.rrData = .mx p x
        · obtain ⟨p, x, hp⟩ := ha
          have hle := exchange_inOrder a l p' x' p x hp' hp
          have hname := h a List.mem_cons_self e (List.mem_cons_of_mem a List.mem_cons_self) p x q y hp hq
          have hge : ¬ q < p := fun hlt => hin (mxOutOfOrder_iff.mpr ⟨p, x, q, y, hp, hq, hname, hlt⟩)
          omega
        · have hother : ∀ p x, a.rrData ≠ .mx p x := fun p x hp => ha ⟨p, x, hp⟩
          rw [exchange_other hother l] at hp'
          exact absurd hp' (hother p' x')
      · exact ih a hskip e he

theorem exchangeSort_perm (n : Nat) (l : List Rr) : (exchangeSort n l).Perm l := by
  induction n generalizing l with
  | zero => exact List.Perm.refl _
  | succ n ih =>
    cases l with
    | nil => exact List.Perm.refl _
    | cons a l => exact ((ih _).cons _).trans (exchange_perm a l)

/-- **The sort of the resolver** puts the exchangers of one owner in order. -/
theorem createResult_inOrder (h : OneOwner l) : (createResult l).Pairwise InOrder := by
  suffices hsort : ∀ n l, l.length ≤ n → OneOwner l → (exchangeSort n l).Pairwise InOrder from
    hsort l.length l (Nat.le_refl _) h
  intro n
  induction n with
  | zero =>
    intro l hl _
    rw [List.length_eq_zero_iff.mp (Nat.le_zero.mp hl)]
    exact List.Pairwise.nil
  | succ n ih =>
    intro l hl h
    cases l with
    | nil => exact List.Pairwise.nil
    | cons a l =>
      have hperm := exchange_perm a l
      have hlen : (exchange a l).2.length ≤ n := by
        have heq := hperm.length_eq
        simp only [List.length_cons] at heq hl
        omega
      have hrest : OneOwner (exchange a l).2 := 
        h.subset fun b hb => hperm.subset (List.mem_cons_of_mem _ hb)
      refine List.Pairwise.cons (fun b hb => ?_) (ih _ hlen hrest)
      exact exchange_best a l h b ((exchangeSort_perm n _).subset hb)

/-- The first record of ours has the lowest of the preferences that are ours. -/
theorem cutoff_lowest (hL : (L.map MxAnswer.rr).Pairwise InOrder) (hc : mxCutoff conf L = some c) :
    (∃ (k : Nat) (a : MxAnswer) (x : Text), L[k]? = some a ∧ a.rr.rrData = .mx c x) ∧
      ∀ q, OursAt conf L q → c ≤ q := by
  induction L with
  | nil => cases hc
  | cons a L ih =>
    obtain ⟨hhead, htail⟩ := List.pairwise_cons.mp hL
    by_cases ha : ∃ p x, a.rr.rrData = .mx p x ∧ NamesUs conf x
    · obtain ⟨p, x, hdata, hx⟩ := ha
      rw [mxCutoff_cons_mx hdata hx] at hc
      obtain rfl := Option.some.inj hc
      refine ⟨⟨0, a, x, rfl, hdata⟩, ?_⟩
      rintro q ⟨b, hb, y, hq, -⟩
      obtain rfl | hb := List.mem_cons.mp hb
      · exact le_of_eq (RrData.mx.inj (hdata.symm.trans hq)).1
      · exact hhead b.rr (List.mem_map_of_mem hb) p x q y hdata hq
    · have hnot : ∀ p x, a.rr.rrData = .mx p x → ¬ NamesUs conf x := fun p x hdata hx => ha ⟨p, x, hdata, hx⟩
      rw [mxCutoff_cons hnot] at hc
      obtain ⟨⟨k, b, x, hb, hdata⟩, hlow⟩ := ih htail hc
      refine ⟨⟨k + 1, b, x, hb, hdata⟩, ?_⟩
      rintro q ⟨b, hb, y, hq, hy⟩
      obtain rfl | hb := List.mem_cons.mp hb
      · exact absurd hy (hnot q y hq)
      · exact hlow q ⟨b, hb, y, hq, hy⟩

/-- **Where the cutoff comes first**: the exchangers are of one owner, and no address of one is in the answers. -/
theorem cutoffFirst_of_sorted {raw : List Rr} (hraw : L.map MxAnswer.rr = createResult raw) (howner : OneOwner raw)
    (haddress : ∀ a ∈ L, a.rr.address ≠ none → ∀ b ∈ L, ∀ p x, b.rr.rrData = .mx p x →
      strcaseEq a.rr.rrName x = false) : CutoffFirst conf L := by
  have hsorted : (L.map MxAnswer.rr).Pairwise InOrder := by
    rw [hraw]
    exact createResult_inOrder howner
  intro c hc i a ha hpassed p q hp hq
  obtain ⟨⟨k, b, x, hb, hdata⟩, hlow⟩ := cutoff_lowest hsorted hc
  have hcq := hlow q hq
  have hmem : a ∈ L := List.mem_of_getElem? ha
  obtain ⟨y, hp⟩ | ⟨hsome, e, he, y, hp, hname⟩ := hp
  · have hik : i < k := by
      by_contra hle
      exact hpassed k (by omega) b x hb hdata
    have hpc : p ≤ c := by
      obtain ⟨hi, rfl⟩ := List.getElem?_eq_some_iff.mp ha
      obtain ⟨hk, rfl⟩ := List.getElem?_eq_some_iff.mp hb
      have hpair := List.pairwise_iff_getElem.mp hsorted i k (by simpa using hi) (by simpa using hk) hik
      simp only [List.getElem_map] at hpair
      exact hpair p y c x hp hdata
    have hne : p ≠ c := by
      rintro rfl
      exact hpassed i (Nat.lt_succ_self i) a y ha hp
    omega
  · rw [haddress a hmem hsome e he p y hp] at hname
    cases hname

end Sorted

/-- A better exchanger, this host, and one behind it. -/
def threeExchangers : List MxAnswer :=
  [⟨⟨"h".toList, .mx 10 "a".toList⟩, some ⟨192, 0, 2, 1⟩⟩, ⟨⟨"h".toList, .mx 20 "us".toList⟩, none⟩,
    ⟨⟨"h".toList, .mx 30 "b".toList⟩, some ⟨192, 0, 2, 2⟩⟩]

theorem threeExchangers_sound : CutoffSound usDeliver (answersMx threeExchangers).world := by
  constructor
  · rintro s L s' ⟨⟩
    have hsorted : threeExchangers.map MxAnswer.rr = createResult (threeExchangers.map MxAnswer.rr) := by decide
    refine cutoffFirst_of_sorted hsorted ?_ ?_
    · intro a ha b hb p x q y _ _
      have hname : ∀ r ∈ threeExchangers.map MxAnswer.rr, r.rrName = "h".toList := by decide
      rw [hname a ha, hname b hb]
    · intro a ha hsome
      have hnone : ∀ r ∈ threeExchangers, r.rr.address = none := by decide
      exact absurd (hnone a ha) hsome
  · rintro name s rrs s' ⟨⟩

theorem mxCutoff_holds_three : (true = true → ∀ d' s',
      (lookupPtr usDeliver).Runs (answersMx threeExchangers).world loopStart () .found d' s' →
        TargetBelow usDeliver d'.dSin) ∧
      ∀ L ∈ loopStart.cuts, ∃ q, OursAt usDeliver L q :=
  mxCutoff_holds threeExchangers_sound (loopStart_reached _)

end Simta
