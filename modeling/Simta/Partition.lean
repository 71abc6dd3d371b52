import Simta.AtSign
import Simta.ExpandPartition

/-!
# When an expansion divides its recipients

`expand` looks for the host of an address behind the first `@` of it; `add_address` has found the last one,
behind the local part.

* `Expand.Every.visit` — what a round keeps of all addresses;
* `SplitAt`, `GroupsEnded` — what holds of the addresses and of the members-only groups in every state;
* `wlp_expand` — the envelopes of an expansion that returns 0;
* `Partition`, `Direct` — what the division should be, and when it is that;
* `expand_partition_iff` — the one is the condition for the other.
-/

set_option autoImplicit false

namespace Simta

variable {conf : ExpandConf} {L O B : Prop} {exp exp' : Expand} {visited : List Nat} {c : Nat}

/-! ## The addresses in every state -/

section Every

variable {P : Text × Option Nat × Text × AddressType × Bool → Prop}

/-- **A round keeps** what does not depend on an address being terminal, nor on a dead one. -/
theorem Expand.Every.visit (h : exp.Every P) (hspec : VisitSpec conf L B c exp exp') (hc : c < exp.fresh)
    (hnew : NewAddresses conf P) (hterminal : ∀ {a : ExpAddr} (b : Bool), P a.core → P { a with eAddrTerminal := b }.core)
    (hdead : ∀ {a : ExpAddr}, P a.core → P { a with eAddrType := .dead }.core) : exp'.Every P := by
  have hgo : ∀ {O : Prop} {exp₁ : Expand}, ExpSteps conf L O exp exp₁ → exp₁.Every P ∧ P (exp₁.addrs c).core := by
    intro O exp₁ hsteps
    have h₁ := h.steps hnew hsteps
    exact ⟨h₁, h₁ c (hc.trans_le hsteps.fresh_le)⟩
  cases hspec with
  | exclude exp₁ hsteps =>
    obtain ⟨h₁, hP⟩ := hgo hsteps
    exact h₁.goOn (hterminal false hP)
  | final exp₁ hsteps =>
    obtain ⟨h₁, hP⟩ := hgo hsteps
    exact h₁.goOn (hterminal true hP)
  | dead exp₁ hsteps =>
    obtain ⟨h₁, hP⟩ := hgo hsteps
    have hwrite : (exp₁.writeAddr c { exp₁.addrs c with eAddrType := .dead }).Every P := h₁.writeAddr (hdead hP)
    refine hwrite.goOn (hterminal true ?_)
    rw [Expand.writeAddr_self]
    exact hdead hP

end Every

/-- An e-mail address is split where `add_address` says, or has no `@`. -/
def SplitAt (core : Text × Option Nat × Text × AddressType × Bool) : Prop :=
  core.2.2.2.1 = .email → (core.2.1 = none → '@' ∉ core.1) ∧
    ∀ i, core.2.1 = some i → ∃ user domain, core.1 = user ++ '@' :: domain ∧ user.length = i

theorem newAddresses_splitAt : NewAddresses conf SplitAt := by
  intro exp addr errors addrType origin insertHead a _ hnew hemail
  obtain ⟨haddr, -, -, htype, -⟩ := newAddress_core hnew
  have htype' : addrType = .email := htype.symm.trans hemail
  subst htype'
  have hplace : addressAt addr = some a.eAddrAt := by
    obtain ⟨place, hplace, ha⟩ := Option.map_eq_some_iff.mp hnew
    cases place with
    | none =>
      cases ha
      exact hplace
    | some i =>
      cases ha
      exact hplace
  show (a.eAddrAt = none → '@' ∉ a.eAddr) ∧
    ∀ i, a.eAddrAt = some i → ∃ user domain, a.eAddr = user ++ '@' :: domain ∧ user.length = i
  rw [haddr]
  unfold addressAt at hplace
  split at hplace
  · rename_i hpost
    have hnone : a.eAddrAt = none := (Option.some.inj hplace).symm
    refine ⟨fun _ => ?_, (fun i hi => by rw [hnone] at hi; cases hi)⟩
    rcases hpost with rfl | hpost
    · exact List.not_mem_nil
    · rw [strcaseEq_comm] at hpost
      exact at_notMem_of_postmaster hpost
  · split at hplace
    · rename_i user rest htoken
      have hsome : a.eAddrAt = some user.length := (Option.some.inj hplace).symm
      refine ⟨(fun hnone => by rw [hsome] at hnone; cases hnone), fun i hi => ?_⟩
      rw [hsome] at hi
      exact ⟨user, rest, (tokenUser_append htoken).1, Option.some.inj hi⟩
    · cases hplace

section Rounds

variable {σ : Type} {R : Prog.World ExpOp ExpAns σ} {env : Envelope} {hosts : List Red} {s t : σ}

theorem Reached.splitAt (h : Reached R conf env hosts s visited exp t) : exp.Every SplitAt := by
  refine (h.invariant (P := fun _ exp => exp.Every SplitAt) (L := True) (B := True)
    (fun _ _ _ => trivial) (fun _ _ _ _ _ _ => trivial) (fun _ => trivial) ?_ ?_).2
  · intro exp hsteps _ _
    have hinit : (Expand.init env hosts).Every SplitAt := fun e he => absurd he (Nat.not_lt_zero e)
    exact (hinit.steps newAddresses_splitAt hsteps : exp.Every _)
  · intro visited exp exp' c hboundary hsplit hc hspec
    obtain ⟨pending, -, -, hfresh⟩ := hboundary.cursor hc
    refine hsplit.visit hspec hfresh newAddresses_splitAt (fun b hP => hP) fun hP hemail => ?_
    cases hemail

/-- No address suppresses others before the groups are asked about. -/
theorem Reached.no_supressor (h : Reached R conf env hosts s visited exp t) :
    ∀ x, (exp.addrs x).eAddrLdapFlags.ldapSupressor = false := by
  refine h.contents (P := fun a => a.eAddrLdapFlags.ldapSupressor = false) ⟨?_, ?_, ?_, ?_, ?_⟩ rfl
  · intro a a' hsame ha
    rw [← ha]
    exact (congrArg (fun x => x.eAddrLdapFlags.ldapSupressor) hsame :)
  · intro exp addr errors addrType origin insertHead a hnew
    unfold newAddress at hnew
    split at hnew
    · obtain ⟨place, -, ha⟩ := Option.map_eq_some_iff.mp hnew
      cases place <;> cases ha <;> rfl
    · cases hnew
      rfl
  · intro a a' hown ha
    cases hown <;> exact ha
  · exact fun _ ha => ha
  · exact fun ha => ha

/-! ## The members-only groups -/

/-- The members-only groups were visited, and are not terminal. -/
def GroupsEnded (visited : List Nat) (exp : Expand) : Prop :=
  ∀ g ∈ exp.expMemonly, g ∈ visited ∧ (exp.addrs g).eAddrTerminal = false

theorem insertAddress_memonly (insertHead : Bool) (a : ExpAddr) (exp : Expand) :
    (insertAddress insertHead a exp).expMemonly = exp.expMemonly := by
  unfold insertAddress
  split
  · rfl
  · split
    · split <;> rfl
    · rfl

/-- A step makes the address at the cursor a members-only group, if it writes to that address. -/
theorem ExpStep.memonly_sub (h : ExpStep conf L O exp exp') {g : Nat} (hg : g ∈ exp'.expMemonly) :
    g ∈ exp.expMemonly ∨ (O ∧ exp.expAddrCursor = some g) := by
  cases h with
  | insert addr origin errors addrType insertHead a =>
    left
    rwa [insertAddress_memonly] at hg
  | memonly c hO hc =>
    rcases mem_expAddrLink.mp hg with rfl | hg
    · exact .inr ⟨hO, hc⟩
    · exact .inl hg
  | _ => exact .inl hg

theorem ExpSteps.memonly_sub (h : ExpSteps conf L O exp exp') {g : Nat} (hg : g ∈ exp'.expMemonly) :
    g ∈ exp.expMemonly ∨ (O ∧ exp.expAddrCursor = some g) := by
  induction h with
  | refl => exact .inl hg
  | tail hsteps hstep ih =>
    rcases hstep.memonly_sub hg with hg | ⟨hO, hc⟩
    · exact ih hg
    · exact .inr ⟨hO, (ExpSteps.cursor hsteps).symm.trans hc⟩

/-- **A round keeps the groups ended**: a new one is the address of the round, which is not terminal then. -/
theorem GroupsEnded.visit (h : GroupsEnded visited exp) (hspec : VisitSpec conf L B c exp exp')
    (hc : exp.expAddrCursor = some c) (hfresh : ∀ g ∈ visited, g < exp.fresh ∧ g ≠ c) :
    GroupsEnded (visited ++ [c]) exp' := by
  -- an address that was visited stays as it is
  have hother : ∀ {O : Prop} {exp₁ : Expand} {g : Nat} (b : Bool), ExpSteps conf L O exp exp₁ → g ∈ exp.expMemonly →
      ((exp₁.visited c b).addrs g).eAddrTerminal = false := by
    intro O exp₁ g b hsteps hg
    obtain ⟨hvisited, hterminal⟩ := h g hg
    obtain ⟨hlt, hne⟩ := hfresh g hvisited
    have hcore : (exp₁.addrs g).eAddrTerminal = (exp.addrs g).eAddrTerminal :=
      congrArg (·.2.2.2.2) (hsteps.core hlt)
    show ((exp₁.writeAddr c { exp₁.addrs c with eAddrTerminal := b }).addrs g).eAddrTerminal = false
    rw [Expand.writeAddr_of_ne hne, hcore, hterminal]
  intro g hg
  cases hspec with
  | exclude exp₁ hsteps =>
    rcases hsteps.memonly_sub hg with hg | ⟨-, hc'⟩
    · exact ⟨List.mem_append_left _ (h g hg).1, hother false hsteps hg⟩
    · obtain rfl : c = g := Option.some.inj (hc.symm.trans hc')
      refine ⟨List.mem_append_right _ (List.mem_singleton_self c), ?_⟩
      show ((exp₁.writeAddr c { exp₁.addrs c with eAddrTerminal := false }).addrs c).eAddrTerminal = false
      rw [Expand.writeAddr_self]
  | final exp₁ hsteps =>
    rcases hsteps.memonly_sub hg with hg | ⟨hO, -⟩
    · exact ⟨List.mem_append_left _ (h g hg).1, hother true hsteps hg⟩
    · exact hO.elim
  | dead exp₁ hsteps =>
    rcases hsteps.memonly_sub hg with hg | ⟨hO, -⟩
    · refine ⟨List.mem_append_left _ (h g hg).1, ?_⟩
      have hne : g ≠ c := (hfresh g (h g hg).1).2
      have hvisit := hother true hsteps hg
      show ((Expand.writeAddr _ c _).addrs g).eAddrTerminal = false
      rw [Expand.writeAddr_of_ne hne, Expand.writeAddr_of_ne hne]
      rwa [Expand.visited, Expand.writeAddr_of_ne hne] at hvisit
    · exact hO.elim

theorem Reached.groupsEnded (h : Reached R conf env hosts s visited exp t) : GroupsEnded visited exp := by
  refine (h.invariant (P := GroupsEnded) (L := True) (B := True)
    (fun _ _ _ => trivial) (fun _ _ _ _ _ _ => trivial) (fun _ => trivial) ?_ ?_).2
  · intro exp hsteps _ _ g hg
    rcases hsteps.memonly_sub hg with hg | ⟨hO, -⟩
    · cases hg
    · exact hO.elim
  · intro visited exp exp' c hboundary hended hc hspec
    refine hended.visit hspec hc fun g hg => ?_
    obtain ⟨pending, hlisted, -, -⟩ := hboundary.cursor hc
    refine ⟨?_, ?_⟩
    · rw [← hlisted.allocated, List.append_assoc]
      exact List.mem_append_left _ hg
    · rintro rfl
      have hnodup := (List.nodup_append.mp hlisted.nodup).1
      exact (List.nodup_append.mp hnodup).2.2 _ hg _ (List.mem_singleton_self _) rfl

end Rounds

/-! ## The envelopes at the end -/

/-- The addresses of the list that are terminal, were not withheld and have no envelope of their own. -/
def Expand.goingOut (exp : Expand) (supressed : List Nat) : List Nat :=
  exp.list.filter fun e => (exp.addrs e).goesOut && decide (e ∉ supressed)

theorem Grouped.sameWritten {unexpanded : Envelope} {h h' : AddrHeap} {w : List Nat} {o : ExpandOut}
    (hg : Grouped unexpanded h w o) (hsame : ∀ x, (h' x).written = (h x).written) : Grouped unexpanded h' w o := by
  have haddr : ∀ x, (h' x).eAddr = (h x).eAddr := fun x => congrArg (·.1) (hsame x)
  refine ⟨hg.toStabOk, ?_, fun eo heo r hr => ?_⟩
  · simp only [haddr]
    exact hg.recipients
  · obtain ⟨e, he, htext, hfits⟩ := hg.placed eo heo r hr
    exact ⟨e, he, (haddr e).trans htext, hfits.congr (hsame e)⟩

/-- What an expansion that returns 0 leaves: the addresses of the list are distinct and split, and the envelopes
    are those of the ones that go out. -/
structure HandedOut (unexpanded : Envelope) (exp : Expand) (r : ExpandEnd) : Prop where
  distinct : (exp.list.map fun e => (exp.addrs e).eAddr).Nodup
  split : ∀ e ∈ exp.list, SplitAt (exp.addrs e).core
  grouped : ∃ o, Grouped unexpanded exp.addrs (exp.goingOut r.supressed) o ∧ r.hostStab = o.hostStab.map Prod.snd

section Runs

variable {σ : Type} {R : Prog.World ExpOp ExpAns σ} {unexpanded : Envelope} {hosts : List Red} {s t : σ}
  {debug : Bool} {daytime : Text → Text}

theorem plain_core {a a' : ExpAddr} (hsame : a'.plain = a.plain) :
    a'.core = a.core ∧ a'.eAddrNext = a.eAddrNext :=
  ⟨(congrArg ExpAddr.core hsame :), (congrArg ExpAddr.eAddrNext hsame :)⟩

theorem unmarked_core {a a' : ExpAddr} (hsame : a'.unmarked = a.unmarked) :
    a'.core = a.core ∧ a'.eAddrNext = a.eAddrNext :=
  ⟨(congrArg ExpAddr.core hsame :), (congrArg ExpAddr.eAddrNext hsame :)⟩

/-- The same list, with the same texts. -/
theorem HandedOut.of_core {r : ExpandEnd} (hlist : exp'.list = exp.list)
    (hcore : ∀ x, (exp'.addrs x).core = (exp.addrs x).core) (hboundary : Boundary visited exp)
    (hsplit : exp.Every SplitAt)
    (hgrouped : ∃ o, Grouped unexpanded exp'.addrs (exp'.goingOut r.supressed) o ∧
      r.hostStab = o.hostStab.map Prod.snd) : HandedOut unexpanded exp' r := by
  obtain ⟨pending, hlisted, -⟩ := hboundary
  have haddr : ∀ x, (exp'.addrs x).eAddr = (exp.addrs x).eAddr := fun x => congrArg (·.1) (hcore x)
  refine ⟨?_, ?_, hgrouped⟩
  · simp only [haddr]
    rw [hlist]
    refine List.Nodup.map_on ?_ hlisted.inOrder.nodup
    intro e he e' he' heq
    refine hlisted.inOrder.distinct e he e' he' ?_
    rw [heq]
    exact strcaseEq_refl _
  · intro e he
    rw [hcore]
    refine hsplit e ?_
    rwa [hlist, hlisted.list_eq, hlisted.allocated] at he

/-- **What `expand` leaves** behind its loop. -/
theorem wlp_expandMemonly (h : Reached R conf unexpanded hosts s visited exp t) :
    (expandMemonly conf debug daytime unexpanded).wlp R True (fun r exp' _ => r.returnValue = 0 →
      HandedOut unexpanded exp' r) exp t := by
  have hended := h.groupsEnded
  have hsupressor := h.no_supressor
  have hboundary := h.boundary
  apply wlp_get_bind
  split
  · exact trivial
  · rename_i painted hpainted
    have hplain := memonlyLoop_plain _ _ _ hpainted
    have hcore : ∀ x, (painted.heap x).core = (exp.addrs x).core := fun x => (plain_core (hplain x).1).1
    have hlist : ({ exp with addrs := painted.heap } : Expand).list = exp.list :=
      Expand.list_congr (fun x => (plain_core (hplain x).1).2) rfl rfl
    apply wlp_set_bind
    refine Faulty.wlp_mono ?_ (wlp_expandOut daytime painted.loopColor ?_ ?_)
    · rintro r exp' t' hout hzero
      obtain ⟨⟨hmarks, hfresh, hhead⟩, o, hgrouped, hstab, hsup⟩ := hout hzero
      have hcore' : ∀ x, (exp'.addrs x).core = (painted.heap x).core := fun x => (unmarked_core (hmarks x)).1
      have hlist' : exp'.list = ({ exp with addrs := painted.heap } : Expand).list :=
        Expand.list_congr (fun x => (unmarked_core (hmarks x)).2) hhead hfresh
      refine HandedOut.of_core (hlist'.trans hlist) (fun x => (hcore' x).trans (hcore x)) hboundary h.splitAt
        ⟨o, ?_, hstab⟩
      unfold Expand.goingOut
      rw [hlist', hsup]
      simp only [(unmarked_fields (hmarks _)).2.1]
      exact hgrouped.sameWritten fun x => (unmarked_fields (hmarks x)).1
    · rw [hlist]
      obtain ⟨pending, hlisted, -⟩ := hboundary
      exact hlisted.inOrder.nodup
    · intro e _ htrue
      rcases (hplain e).2 htrue with hold | hmem
      · rw [hsupressor e] at hold
        cases hold
      · have hterminal : (painted.heap e).eAddrTerminal = (exp.addrs e).eAddrTerminal :=
          congrArg (·.2.2.2.2) (hcore e)
        exact hterminal.trans (hended e hmem).2

/-- **What `expand` leaves** when it returns 0 and the envelope was not expanded before. -/
theorem wlp_expand (n : Nat) :
    (expand conf debug daytime n unexpanded).wlp R True (fun r exp' _ => ∀ x, r = some x → x.returnValue = 0 →
      unexpanded.eHostname = none → HandedOut unexpanded exp' x) exp s := by
  unfold expand
  split
  · rename_i hname
    exact fun x _ _ hnone => absurd hnone hname
  · have hwork : (expandWork conf n).wlp R True (fun r exp₁ t => r = some true →
        ∃ visited, Reached R conf unexpanded exp.hosts s visited exp₁ t ∧ exp₁.expAddrCursor = none)
          (Expand.init unexpanded exp.hosts) s := wlp_expandWork n
    apply wlp_modify_bind
    apply Faulty.wlp_seq hwork
    intro r exp₁ t hreached
    match r with
    | none => exact (fun x hx => by cases hx)
    | some false =>
      intro x hx hzero
      cases hx
      cases hzero
    | some true =>
      obtain ⟨visited, h, -⟩ := hreached rfl
      apply Faulty.wlp_seq (wlp_expandMemonly h)
      rintro r exp' t' hhanded x hx hzero -
      cases hx
      exact hhanded hzero

end Runs

/-! ## The division -/

/-- The envelope is the one that the address belongs to; a host name that is missing is the empty one. -/
def Belongs (a : ExpAddr) (env : Envelope) : Prop :=
  match a.eAddrType with
  | .email => (∃ domain, a.host = some domain ∧ strcaseEq (eoHostname env) domain = true) ∧
      strcaseEq (eoFrom env) a.eAddrFrom = true
  | .dead => env.eDir = .dead
  | .ldap => False

/-- **The envelopes divide the addresses `w`**: each is a recipient of one envelope, once, and that is the one
    it belongs to; there are no other recipients; there is one envelope for dead addresses, and one for a host
    and a sender; and each has what it should have of the original one. -/
structure Partition (unexpanded : Envelope) (h : AddrHeap) (w : List Nat) (stab : List Envelope) : Prop where
  recipients : (allRcpts stab).Perm (w.map fun e => (h e).eAddr)
  once : (allRcpts stab).Nodup
  belong : ∀ env ∈ stab, ∀ r ∈ env.eRcpt, ∃ e ∈ w, (h e).eAddr = r.rRcpt ∧ Belongs (h e) env
  dead : (stab.filter fun env => decide (env.eDir = .dead)).length ≤ 1
  apart : stab.Pairwise fun env env' => ¬ SameOutput env env'
  carried : ∀ env ∈ stab, Carries unexpanded env

/-- No e-mail address has an `@` in front of the one that it was split at. -/
def Direct (h : AddrHeap) (w : List Nat) : Prop :=
  ∀ e ∈ w, (h e).eAddrType = .email → ∀ i, (h e).eAddrAt = some i → '@' ∉ (h e).eAddr.take i

section Divided

variable {unexpanded env : Envelope} {h : AddrHeap} {w : List Nat} {o : ExpandOut} {e : Nat}

/-- There is one envelope for dead addresses. -/
theorem StabOk.dead_le_one (hs : StabOk unexpanded o) :
    ((o.hostStab.map Prod.snd).filter fun env => decide (env.eDir = .dead)).length ≤ 1 := by
  rw [List.filter_map, List.length_map]
  -- two of them would have one number
  have hnodup : ((o.hostStab.filter fun eo => decide (eo.2.eDir = .dead)).map Prod.fst).Nodup :=
    hs.nodup.sublist (List.filter_sublist.map Prod.fst)
  have hsame : ∀ eo ∈ o.hostStab.filter fun eo => decide (eo.2.eDir = .dead), o.envDead = some eo.1 := by
    intro eo heo
    obtain ⟨hmem, hdead⟩ := List.mem_filter.mp heo
    exact (hs.dead eo hmem).mp (of_decide_eq_true hdead)
  show (o.hostStab.filter fun eo => decide (eo.2.eDir = .dead)).length ≤ 1
  generalize o.hostStab.filter (fun eo => decide (eo.2.eDir = .dead)) = dead at hnodup hsame
  match dead with
  | [] => exact Nat.zero_le 1
  | [_] => exact Nat.le_refl 1
  | eo :: eo' :: rest =>
    have heq : some eo.1 = some eo'.1 := by
      rw [← hsame eo (by simp), ← hsame eo' (by simp)]
    simp [Option.some.inj heq] at hnodup

/-- An address whose first `@` is the one that it was split at belongs where it fits. -/
theorem Belongs.of_fits (hfits : Fits (h e) env) (hsplit : SplitAt (h e).core)
    (hdirect : ∀ i, (h e).eAddrType = .email → (h e).eAddrAt = some i → '@' ∉ (h e).eAddr.take i) : Belongs (h e) env := by
  unfold Belongs
  unfold Fits at hfits
  split
  · rename_i htype
    rw [htype] at hfits
    obtain ⟨⟨user, domain, hat, hhost⟩, hfrom⟩ := hfits
    refine ⟨⟨domain, ?_, hhost⟩, hfrom⟩
    obtain ⟨hnone, hsome⟩ := hsplit htype
    cases hplace : (h e).eAddrAt with
    | none =>
      have hno : strchrAt (h e).eAddr = none := strchrAt_eq_none (hnone hplace)
      rw [hno] at hat
      cases hat
    | some i =>
      obtain ⟨user', domain', (haddr : (h e).eAddr = user' ++ '@' :: domain'), rfl⟩ := hsome i hplace
      have hfirst := hdirect user'.length htype hplace
      rw [haddr, List.take_left'  rfl] at hfirst
      rw [haddr, strchrAt_append hfirst] at hat
      cases hat
      unfold ExpAddr.host
      rw [hplace, haddr]
      simp
  · rename_i htype
    rw [htype] at hfits
    exact hfits
  · rename_i htype
    rw [htype] at hfits
    exact hfits

/-- An address that belongs where it fits is split at its first `@`. -/
theorem direct_of_belongs (hfits : Fits (h e) env) (hbelongs : Belongs (h e) env) (hsplit : SplitAt (h e).core)
    (htype : (h e).eAddrType = .email) {i : Nat} (hplace : (h e).eAddrAt = some i) : '@' ∉ (h e).eAddr.take i := by
  unfold Fits at hfits
  unfold Belongs at hbelongs
  rw [htype] at hfits hbelongs
  obtain ⟨⟨user, domain, hat, hhost⟩, -⟩ := hfits
  obtain ⟨⟨domain', hdomain', hhost'⟩, -⟩ := hbelongs
  obtain ⟨user', rest, (haddr : (h e).eAddr = user' ++ '@' :: rest), rfl⟩ := (hsplit htype).2 i hplace
  have hrest : domain' = rest := by
    unfold ExpAddr.host at hdomain'
    rw [hplace, haddr] at hdomain'
    simpa using hdomain'.symm
  obtain ⟨haddr', hfirst⟩ := strchrAt_spec hat
  -- both domains have the length of the host name
  have hlength : domain.length = rest.length := by
    rw [← strcaseEq_length hhost, strcaseEq_length hhost', hrest]
  have hboth : user' ++ '@' :: rest = user ++ '@' :: domain := haddr.symm.trans haddr'
  have huser : user'.length = user.length := by
    have htotal := congrArg List.length hboth
    simp only [List.length_append, List.length_cons] at htotal
    omega
  rw [haddr, List.take_left' rfl, (List.append_inj hboth huser).1]
  exact hfirst

/-- **When the envelopes divide the addresses** that went out. -/
theorem HandedOut.partition_iff {r : ExpandEnd} (hout : HandedOut unexpanded exp r) :
    Partition unexpanded exp.addrs (exp.goingOut r.supressed) r.hostStab ↔
      Direct exp.addrs (exp.goingOut r.supressed) := by
  obtain ⟨o, hg, hstab⟩ := hout.grouped
  have hsub : ∀ e ∈ exp.goingOut r.supressed, e ∈ exp.list := fun e he => (List.mem_filter.mp he).1
  have hnodup : ((exp.goingOut r.supressed).map fun e => (exp.addrs e).eAddr).Nodup :=
    hout.distinct.sublist (List.filter_sublist.map _)
  rw [hstab]
  constructor
  · intro hpart e he htype i hplace
    -- the address is a recipient, and the only one of its text
    have hmem : (exp.addrs e).eAddr ∈ allRcpts (o.hostStab.map Prod.snd) :=
      hg.recipients.symm.subset (List.mem_map.mpr ⟨e, he, rfl⟩)
    obtain ⟨env, henv, hr⟩ := List.mem_flatMap.mp hmem
    obtain ⟨r, hr, htext⟩ := List.mem_map.mp hr
    obtain ⟨eo, heo, rfl⟩ := List.mem_map.mp henv
    obtain ⟨e₁, he₁, htext₁, hfits⟩ := hg.placed eo heo r hr
    obtain ⟨e₂, he₂, htext₂, hbelongs⟩ := hpart.belong eo.2 henv r hr
    have heq₁ : e₁ = e := List.inj_on_of_nodup_map hnodup he₁ he (htext₁.trans htext)
    have heq₂ : e₂ = e := List.inj_on_of_nodup_map hnodup he₂ he (htext₂.trans htext)
    rw [heq₁] at hfits
    rw [heq₂] at hbelongs
    exact direct_of_belongs hfits hbelongs (hout.split e (hsub e he)) htype hplace
  · intro hdirect
    refine ⟨hg.recipients, hg.recipients.nodup_iff.mpr hnodup, ?_, hg.toStabOk.dead_le_one, ?_, ?_⟩
    · intro env henv r hr
      obtain ⟨eo, heo, rfl⟩ := List.mem_map.mp henv
      obtain ⟨e, he, htext, hfits⟩ := hg.placed eo heo r hr
      exact ⟨e, he, htext, .of_fits hfits (hout.split e (hsub e he)) fun i htype hplace => hdirect e he htype i hplace⟩
    · exact List.pairwise_map.mpr hg.apart
    · intro env henv
      obtain ⟨eo, heo, rfl⟩ := List.mem_map.mp henv
      exact hg.carried eo heo

end Divided

/-- **An expansion divides its recipients** exactly when none of the e-mail addresses that it hands out has an
    `@` in its local part. -/
theorem expand_partition_iff {σ : Type} (R : Prog.World ExpOp ExpAns σ) (conf : ExpandConf) (debug : Bool)
    (daytime : Text → Text) (n : Nat) (unexpanded : Envelope) (exp : Expand) (s : σ) :
    (expand conf debug daytime n unexpanded).wlp R True (fun r exp' _ => ∀ x, r = some x → x.returnValue = 0 →
      unexpanded.eHostname = none →
        (Partition unexpanded exp'.addrs (exp'.goingOut x.supressed) x.hostStab ↔
          Direct exp'.addrs (exp'.goingOut x.supressed))) exp s := by
  apply Faulty.wlp_mono _ (wlp_expand n)
  intro r exp' t hout x hx hzero hname
  exact (hout x hx hzero hname).partition_iff

/-- A message to an address with an `@` in its local part. -/
def quotedMessage : Envelope := { messageTo "\"a@b\"@c.d".toList with eDinode := 7 }

/-- It goes to an envelope for the host `b"@c.d`. -/
theorem not_expand_partition :
    ∃ x exp, (expand (peopleConf []) false (fun text => text) 3 quotedMessage).Runs (answersOnly quiet)
      (Expand.init quotedMessage []) () (some x) exp () ∧ x.returnValue = 0 ∧ quotedMessage.eHostname = none ∧
        ¬ Partition quotedMessage exp.addrs (exp.goingOut x.supressed) x.hostStab := by
  have heval : ((expand (peopleConf []) false (fun text => text) 3 quotedMessage).eval quiet
      (Expand.init quotedMessage [])).map (fun y => y.1.map fun x => decide (x.returnValue = 0 ∧
        x.hostStab.map (fun env => eoHostname env :: env.eRcpt.map Recipient.rRcpt) =
          [["b\"@c.d".toList, "\"a@b\"@c.d".toList]] ∧ y.2.goingOut x.supressed = [0] ∧
        (y.2.addrs 0).host = some "c.d".toList ∧ (y.2.addrs 0).eAddrType = .email)) = some (some true) := by
    decide +kernel
  obtain ⟨⟨r, exp⟩, heval, hview⟩ := Option.map_eq_some_iff.mp heval
  obtain ⟨x, rfl, hview⟩ := Option.map_eq_some_iff.mp hview
  obtain ⟨hzero, hstab, hout, hhost, htype⟩ := of_decide_eq_true hview
  refine ⟨x, exp, Faulty.runs_of_answers (fun _ => rfl) heval, hzero, rfl, fun hpart => ?_⟩
  obtain ⟨env, henv, hpair⟩ := List.map_eq_singleton_iff.mp hstab
  obtain ⟨hname, hrcpt⟩ := List.cons.inj hpair
  obtain ⟨rcpt, hrcpt, -⟩ := List.map_eq_singleton_iff.mp hrcpt
  obtain ⟨e, he, -, hbelongs⟩ := hpart.belong env (by rw [henv]; simp) rcpt (by rw [hrcpt]; simp)
  rw [hout] at he
  obtain rfl := List.mem_singleton.mp he
  unfold Belongs at hbelongs
  rw [htype] at hbelongs
  obtain ⟨⟨domain, hdomain, hsame⟩, -⟩ := hbelongs
  rw [hhost] at hdomain
  cases hdomain
  rw [hname] at hsame
  revert hsame
  decide

end Simta
