import Simta.QCleanup
import Mathlib.Data.List.Basic
import Mathlib.Tactic.Common

/-!
# Families of messages sharing a Dfile

`q_expansion_cleanup` sees the messages of the fast directory one by one and keeps, for each Dfile
inode, a small automaton (`IList.add`).  Read as a whole it is a classification of each family.

* `Flat` — all members are at one expansion level: a family at rest;
* `Parent` — one member is one level above all others: an interrupted expansion;
* `familyScan_spec` — the scan fails an assertion exactly when some family is neither, and
  otherwise marks exactly the members that have a `Parent`, in whatever order they come.
-/

set_option autoImplicit false

namespace Simta

/-- All members are at one level. -/
def Flat (f : List Envelope) : Prop := ∀ a ∈ f, ∀ b ∈ f, a.eNExpLevel = b.eNExpLevel

/-- `u` is one level above all the other members, of which there are some. -/
structure Parent (u : Envelope) (f : List Envelope) : Prop where
  mem : u ∈ f
  child : ∃ e ∈ f, e ≠ u
  level : ∀ e ∈ f, e ≠ u → e.eNExpLevel = u.eNExpLevel + 1

/-- A family that the automaton accepts. -/
def Accepted (f : List Envelope) : Prop := Flat f ∨ ∃ u, Parent u f

/-! ## One family -/

theorem Flat.of_append {f g : List Envelope} (h : Flat (f ++ g)) : Flat f :=
  fun a ha b hb => h a (List.mem_append_left _ ha) b (List.mem_append_left _ hb)

/-- A family has one parent. -/
theorem Parent.unique {u v : Envelope} {f : List Envelope} (hu : Parent u f) (hv : Parent v f) :
    u = v := by
  by_contra hne
  have h₁ := hu.level v hv.mem fun h => hne h.symm
  have h₂ := hv.level u hu.mem hne
  omega

theorem Parent.not_flat {u : Envelope} {f : List Envelope} (h : Parent u f) : ¬ Flat f := by
  intro hf
  obtain ⟨e, he, hne⟩ := h.child
  have h₁ := h.level e he hne
  have h₂ := hf e he u h.mem
  omega

/-- A part of an accepted family is accepted. -/
theorem Accepted.of_append {f g : List Envelope} (h : Accepted (f ++ g)) : Accepted f := by
  rcases h with h | ⟨u, hu⟩
  · exact .inl h.of_append
  · have hlevel : ∀ e ∈ f, e ≠ u → e.eNExpLevel = u.eNExpLevel + 1 :=
      fun e he => hu.level e (List.mem_append_left _ he)
    by_cases hmem : u ∈ f
    · by_cases hchild : ∃ e ∈ f, e ≠ u
      · exact .inr ⟨u, hmem, hchild, hlevel⟩
      · refine .inl fun a ha b hb => ?_
        have hall : ∀ e ∈ f, e = u := fun e he => by_contra fun hne => hchild ⟨e, he, hne⟩
        rw [hall a ha, hall b hb]
    · refine .inl fun a ha b hb => ?_
      rw [hlevel a ha fun h => hmem (h ▸ ha), hlevel b hb fun h => hmem (h ▸ hb)]

/-- What the automaton of a family holds when it has seen the members `f`, and the members `m` it
    has marked. -/
inductive FamilyState (f : List Envelope) (i : IList) : List Envelope → Prop
  | flat (h : Flat f) (hlist : i.iExpandedList = f.reverse) (hnone : i.iUnexpanded = none) :
      FamilyState f i []
  | split {u : Envelope} {m : List Envelope} (h : Parent u f) (hu : i.iUnexpanded = some u)
      (hm : ∀ e, e ∈ m ↔ e ∈ f ∧ e ≠ u) : FamilyState f i m

theorem FamilyState.accepted {f : List Envelope} {i : IList} {m : List Envelope}
    (h : FamilyState f i m) : Accepted f := by
  cases h with
  | flat h => exact .inl h
  | split h => exact .inr ⟨_, h⟩

/-- A new member at the level of a flat family. -/
theorem Flat.snoc {f : List Envelope} (h : Flat f) {e a : Envelope} (ha : a ∈ f)
    (he : a.eNExpLevel = e.eNExpLevel) : Flat (f ++ [e]) := by
  have hall : ∀ x ∈ f ++ [e], x.eNExpLevel = a.eNExpLevel := by
    intro x hx
    rcases List.mem_append.mp hx with hx | hx
    · exact h x hx a ha
    · rw [List.mem_singleton.mp hx, he]
  intro x hx y hy
  rw [hall x hx, hall y hy]

/-- **One more member**: the automaton goes on with the enlarged family, or fails its assertion and
    the enlarged family is not accepted. -/
theorem IList.add_spec {f : List Envelope} {i : IList} {m : List Envelope} (h : FamilyState f i m)
    (hnodup : f.Nodup) (hne : f ≠ []) {e : Envelope} (he : e ∉ f) :
    (∃ i' m', i.add e = some (i', m') ∧ i'.iDinode = i.iDinode ∧
      FamilyState (f ++ [e]) i' (m ++ m')) ∨ (i.add e = none ∧ ¬ Accepted (f ++ [e])) := by
  have hself : e ∈ f ++ [e] := List.mem_append_right _ (List.mem_singleton_self e)
  cases h with
  | split h hu hm =>
    rename_i u
    have hue : u ≠ e := fun h' => he (h' ▸ h.mem)
    unfold IList.add
    rw [hu]
    by_cases hl : e.eNExpLevel - 1 = u.eNExpLevel
    · have hparent : Parent u (f ++ [e]) := by
        refine ⟨List.mem_append_left _ h.mem, ⟨e, hself, hue.symm⟩, fun x hx hxu => ?_⟩
        rcases List.mem_append.mp hx with hx | hx
        · exact h.level x hx hxu
        · rw [List.mem_singleton.mp hx]
          omega
      refine .inl ⟨i, [e], by simp [hl], rfl, .split hparent hu fun x => ?_⟩
      simp only [List.mem_append, List.mem_singleton, hm]
      constructor
      · rintro (⟨hx, hxu⟩ | rfl)
        · exact ⟨.inl hx, hxu⟩
        · exact ⟨.inr rfl, hue.symm⟩
      · rintro ⟨hx | rfl, hxu⟩
        · exact .inl ⟨hx, hxu⟩
        · exact .inr rfl
    · refine .inr ⟨by simp [hl], ?_⟩
      rintro (hflat | ⟨v, hv⟩)
      · exact h.not_flat hflat.of_append
      · obtain ⟨c, hc, hcu⟩ := h.child
        have hcl := h.level c hc hcu
        by_cases hvu : v = u
        · subst hvu
          have := hv.level e hself hue.symm
          omega
        · -- another parent would be below the levels of `u` and of its child
          have h₁ := hv.level u (List.mem_append_left _ h.mem) fun h' => hvu h'.symm
          by_cases hvc : v = c
          · subst hvc
            omega
          · have h₂ := hv.level c (List.mem_append_left _ hc) fun h' => hvc h'.symm
            omega
  | flat h hlist hnone =>
    obtain ⟨first, more, hfm⟩ : ∃ first more, f.reverse = first :: more := by
      cases hf : f.reverse with
      | nil => exact absurd (List.reverse_eq_nil_iff.mp hf) hne
      | cons first more => exact ⟨first, more, rfl⟩
    have hfirst : first ∈ f := by
      rw [← List.mem_reverse, hfm]
      exact List.mem_cons_self
    have hfe : first ≠ e := fun h' => he (h' ▸ hfirst)
    unfold IList.add
    rw [hnone, hlist, hfm]
    by_cases hl : first.eNExpLevel = e.eNExpLevel
    · refine .inl ⟨_, [], if_pos hl, rfl, ?_⟩
      exact .flat (h.snoc hfirst hl) (by simp [hfm]) rfl
    · by_cases hl' : first.eNExpLevel = e.eNExpLevel + 1
      · -- the new member is the unexpanded one
        have hparent : Parent e (f ++ [e]) := by
          refine ⟨hself, ⟨first, List.mem_append_left _ hfirst, hfe⟩, fun x hx hxe => ?_⟩
          rcases List.mem_append.mp hx with hx | hx
          · rw [h x hx first hfirst, hl']
          · exact absurd (List.mem_singleton.mp hx) hxe
        refine .inl ⟨_, first :: more, (if_neg hl).trans (if_pos hl'), rfl, ?_⟩
        refine .split hparent rfl fun x => ?_
        rw [List.nil_append, ← hfm, List.mem_reverse, List.mem_append, List.mem_singleton]
        constructor
        · exact fun hx => ⟨.inl hx, fun h' => he (h' ▸ hx)⟩
        · rintro ⟨hx | rfl, hxe⟩
          · exact hx
          · exact absurd rfl hxe
      · by_cases hl'' : more = [] ∧ first.eNExpLevel = e.eNExpLevel - 1
        · -- the only member so far is the unexpanded one
          obtain ⟨rfl, hl''⟩ := hl''
          have hf : f = [first] := by simpa using congrArg List.reverse hfm
          subst hf
          have hparent : Parent first ([first] ++ [e]) := by
            refine ⟨by simp, ⟨e, hself, hfe.symm⟩, fun x hx hxf => ?_⟩
            rcases List.mem_append.mp hx with hx | hx
            · exact absurd (List.mem_singleton.mp hx) hxf
            · rw [List.mem_singleton.mp hx]
              omega
          refine .inl ⟨_, [e], (if_neg hl).trans ((if_neg hl').trans (if_pos ⟨rfl, hl''⟩)), rfl, ?_⟩
          refine .split hparent rfl fun x => ?_
          simp only [List.nil_append, List.mem_singleton, List.mem_append]
          constructor
          · rintro rfl
            exact ⟨.inr rfl, hfe.symm⟩
          · rintro ⟨rfl | rfl, hx⟩
            · exact absurd rfl hx
            · rfl
        · refine .inr ⟨(if_neg hl).trans ((if_neg hl').trans (if_neg hl'')), ?_⟩
          rintro (hflat | ⟨v, hv⟩)
          · exact hl (hflat first (List.mem_append_left _ hfirst) e hself)
          · by_cases hve : v = e
            · subst hve
              exact hl' (hv.level first (List.mem_append_left _ hfirst) hfe)
            · have h₁ := hv.level e hself fun h' => hve h'.symm
              have hvf : v ∈ f := by
                rcases List.mem_append.mp hv.mem with h' | h'
                · exact h'
                · exact absurd (List.mem_singleton.mp h') hve
              have h₂ := h v hvf first hfirst
              -- the parent is the only other member
              have honly : ∀ x ∈ f, x = v := fun x hx => by
                by_contra hxv
                have h₃ := hv.level x (List.mem_append_left _ hx) hxv
                have h₄ := h x hx v hvf
                omega
              have hlen : more = [] := by
                have hrev : (first :: more).Nodup := hfm ▸ List.nodup_reverse.mpr hnodup
                refine List.eq_nil_iff_forall_not_mem.mpr fun x hx => ?_
                have hxf : x ∈ f := by
                  rw [← List.mem_reverse, hfm]
                  exact List.mem_cons_of_mem _ hx
                have hxfirst : x = first := (honly x hxf).trans (honly first hfirst).symm
                exact (List.nodup_cons.mp hrev).1 (hxfirst ▸ hx)
              exact hl'' ⟨hlen, by omega⟩

/-! ## The list of families -/

/-- The list of families in the order of their inodes, none twice. -/
def SortedFamilies (is : List IList) : Prop := is.Pairwise fun i j => i.iDinode < j.iDinode

theorem SortedFamilies.cons {i : IList} {is : List IList} (h : SortedFamilies is)
    (hi : ∀ j ∈ is, i.iDinode < j.iDinode) : SortedFamilies (i :: is) :=
  List.pairwise_cons.mpr ⟨hi, h⟩

/-- The first message of a family is inserted. -/
theorem iListAdd_new {env : Envelope} : ∀ {is : List IList}, SortedFamilies is →
    (∀ i ∈ is, i.iDinode ≠ env.eDinode) →
    ∃ is', iListAdd env is = some (is', []) ∧ SortedFamilies is' ∧
      ∀ j, j ∈ is' ↔ j ∈ is ∨ j = ⟨env.eDinode, [env], none⟩
  | [], _, _ => ⟨_, rfl, List.pairwise_singleton _ _, by simp⟩
  | i :: rest, hs, hno => by
    obtain ⟨hi, hrest⟩ := List.pairwise_cons.mp hs
    have hne : env.eDinode ≠ i.iDinode := (hno i List.mem_cons_self).symm
    unfold iListAdd
    by_cases hle : env.eDinode ≤ i.iDinode
    · have hlt : env.eDinode < i.iDinode := lt_of_le_of_ne hle hne
      refine ⟨_, (if_pos hle).trans (if_neg hne), hs.cons fun j hj => ?_, fun j => ?_⟩
      · rcases List.mem_cons.mp hj with rfl | hj
        · exact hlt
        · exact lt_trans hlt (hi j hj)
      · rw [List.mem_cons, or_comm]
    · obtain ⟨is', heq, hsorted, hmem⟩ :=
        iListAdd_new hrest fun j hj => hno j (List.mem_cons_of_mem _ hj)
      refine ⟨i :: is', by rw [if_neg hle, heq]; rfl, SortedFamilies.cons hsorted fun j hj => ?_,
        fun j => ?_⟩
      · rcases (hmem j).mp hj with hj | rfl
        · exact hi j hj
        · exact not_le.mp hle
      · rw [List.mem_cons, hmem, List.mem_cons, or_assoc]

/-- A message of a family seen before goes to its automaton. -/
theorem iListAdd_old {env : Envelope} {i : IList} : ∀ {is : List IList}, SortedFamilies is → i ∈ is →
    i.iDinode = env.eDinode →
    (i.add env = none → iListAdd env is = none) ∧
    ∀ i' m', i.add env = some (i', m') → i'.iDinode = i.iDinode →
      ∃ is', iListAdd env is = some (is', m') ∧ SortedFamilies is' ∧
        ∀ j, j ∈ is' ↔ (j ∈ is ∧ j.iDinode ≠ env.eDinode) ∨ j = i'
  | [], _, hmem, _ => absurd hmem List.not_mem_nil
  | i₀ :: rest, hs, hmem, hdin => by
    obtain ⟨hi₀, hrest⟩ := List.pairwise_cons.mp hs
    unfold iListAdd
    rcases List.mem_cons.mp hmem with rfl | hmem
    · rw [if_pos (le_of_eq hdin.symm), if_pos hdin.symm]
      refine ⟨fun h => by rw [h]; rfl, fun i' m' h hd => ⟨i' :: rest, by rw [h]; rfl, ?_, fun j => ?_⟩⟩
      · exact hrest.cons fun j hj => hd ▸ hi₀ j hj
      · have hne : ∀ j ∈ rest, j.iDinode ≠ env.eDinode := fun j hj => by
          have := hi₀ j hj
          omega
        rw [List.mem_cons, List.mem_cons]
        constructor
        · rintro (rfl | hj)
          · exact .inr rfl
          · exact .inl ⟨.inr hj, hne j hj⟩
        · rintro (⟨rfl | hj, hj'⟩ | rfl)
          · exact absurd hdin hj'
          · exact .inr hj
          · exact .inl rfl
    · have hlt := hi₀ i hmem
      have hgt : ¬ env.eDinode ≤ i₀.iDinode := by omega
      rw [if_neg hgt]
      obtain ⟨hnone, hsome⟩ := iListAdd_old hrest hmem hdin
      refine ⟨fun h => by rw [hnone h]; rfl, fun i' m' h hd => ?_⟩
      obtain ⟨is', heq, hsorted, hmem'⟩ := hsome i' m' h hd
      refine ⟨i₀ :: is', by rw [heq]; rfl, SortedFamilies.cons hsorted fun j hj => ?_, fun j => ?_⟩
      · rcases (hmem' j).mp hj with ⟨hj, -⟩ | rfl
        · exact hi₀ j hj
        · omega
      · rw [List.mem_cons, List.mem_cons, hmem']
        constructor
        · rintro (rfl | ⟨hj, hj'⟩ | rfl)
          · exact .inl ⟨.inl rfl, by omega⟩
          · exact .inl ⟨.inr hj, hj'⟩
          · exact .inr rfl
        · rintro (⟨rfl | hj, hj'⟩ | rfl)
          · exact .inl rfl
          · exact .inr (.inl ⟨hj, hj'⟩)
          · exact .inr (.inr rfl)

/-- The members of one family, in the order in which they come. -/
def familyOf (l : List Envelope) (dinode : Nat) : List Envelope := l.filter (·.eDinode = dinode)

theorem mem_familyOf {l : List Envelope} {dinode : Nat} {e : Envelope} :
    e ∈ familyOf l dinode ↔ e ∈ l ∧ e.eDinode = dinode := by
  simp [familyOf]

theorem familyOf_append (l k : List Envelope) (dinode : Nat) :
    familyOf (l ++ k) dinode = familyOf l dinode ++ familyOf k dinode := List.filter_append ..

theorem familyOf_singleton_self (e : Envelope) : familyOf [e] e.eDinode = [e] := by
  simp [familyOf]

theorem familyOf_singleton_of_ne {e : Envelope} {dinode : Nat} (h : dinode ≠ e.eDinode) :
    familyOf [e] dinode = [] := by
  simp [familyOf, Ne.symm h]

/-- The first loop of `q_expansion_cleanup` once every message has been read. -/
def familyScan : List Envelope → List IList → List Envelope → Option (List Envelope)
  | [], _, delete => some delete
  | env :: rest, inodeList, delete =>
    match iListAdd env inodeList with
    | none => none
    | some (inodeList, marked) => familyScan rest inodeList (delete ++ marked)

/-- The invariant of the loop after the messages `l`. -/
structure ScanState (l : List Envelope) (is : List IList) (delete : List Envelope) : Prop where
  sorted : SortedFamilies is
  cover : ∀ e ∈ l, ∃ i ∈ is, i.iDinode = e.eDinode
  state : ∀ i ∈ is, familyOf l i.iDinode ≠ [] ∧ ∃ m, FamilyState (familyOf l i.iDinode) i m ∧
    ∀ e, e.eDinode = i.iDinode → (e ∈ delete ↔ e ∈ m)
  marked : ∀ e ∈ delete, e ∈ l

theorem ScanState.nil : ScanState [] [] [] := ⟨List.Pairwise.nil, by simp, by simp, by simp⟩

theorem FamilyState.mem {f : List Envelope} {i : IList} {m : List Envelope} (h : FamilyState f i m)
    {e : Envelope} (he : e ∈ m) : e ∈ f := by
  cases h with
  | flat => exact absurd he List.not_mem_nil
  | split _ _ hm => exact ((hm e).mp he).1

/-- One message keeps the invariant, or its family is not accepted. -/
theorem ScanState.step {l : List Envelope} {is : List IList} {delete : List Envelope}
    (h : ScanState l is delete) (hnodup : l.Nodup) {e : Envelope} (he : e ∉ l) :
    (∃ is' m', iListAdd e is = some (is', m') ∧ ScanState (l ++ [e]) is' (delete ++ m')) ∨
      (iListAdd e is = none ∧ ¬ Accepted (familyOf (l ++ [e]) e.eDinode)) := by
  have hother : ∀ x, x ≠ e.eDinode → familyOf (l ++ [e]) x = familyOf l x := fun x hx => by
    rw [familyOf_append, familyOf_singleton_of_ne hx, List.append_nil]
  have hown : familyOf (l ++ [e]) e.eDinode = familyOf l e.eDinode ++ [e] := by
    rw [familyOf_append, familyOf_singleton_self]
  by_cases hold : ∃ i ∈ is, i.iDinode = e.eDinode
  · obtain ⟨i, hi, hdin⟩ := hold
    obtain ⟨hne, m, hstate, hm⟩ := h.state i hi
    obtain ⟨hnone, hsome⟩ := iListAdd_old h.sorted hi hdin
    have hef : e ∉ familyOf l i.iDinode := fun hin => he (mem_familyOf.mp hin).1
    rcases IList.add_spec hstate (hnodup.filter _) hne hef with ⟨i', m', hadd, hd, hstate'⟩ | ⟨hadd, hna⟩
    · obtain ⟨is', heq, hsorted, hmem⟩ := hsome i' m' hadd hd
      have hm' : ∀ x ∈ m', x ∈ familyOf (l ++ [e]) e.eDinode := fun x hx => by
        rw [hown, ← hdin]
        exact hstate'.mem (List.mem_append_right _ hx)
      refine .inl ⟨is', m', heq, hsorted, fun x hx => ?_, fun j hj => ?_, fun x hx => ?_⟩
      · rcases List.mem_append.mp hx with hx | hx
        · obtain ⟨j, hj, hjd⟩ := h.cover x hx
          by_cases hxe : x.eDinode = e.eDinode
          · exact ⟨i', (hmem i').mpr (.inr rfl), hd.trans (hdin.trans hxe.symm)⟩
          · exact ⟨j, (hmem j).mpr (.inl ⟨hj, fun h' => hxe (hjd.symm.trans h')⟩), hjd⟩
        · obtain rfl := List.mem_singleton.mp hx
          exact ⟨i', (hmem i').mpr (.inr rfl), hd.trans hdin⟩
      · rcases (hmem j).mp hj with ⟨hj, hjd⟩ | rfl
        · obtain ⟨hne', mj, hstatej, hmj⟩ := h.state j hj
          rw [hother _ hjd]
          refine ⟨hne', mj, hstatej, fun x hx => ?_⟩
          rw [List.mem_append, hmj x hx]
          exact or_iff_left fun hin => hjd (hx.symm.trans (mem_familyOf.mp (hm' x hin)).2)
        · have hjd : j.iDinode = e.eDinode := hd.trans hdin
          rw [hjd, hown]
          refine ⟨by simp, m ++ m', hdin ▸ hstate', fun x hx => ?_⟩
          rw [List.mem_append, List.mem_append, hm x (hx.trans hdin.symm)]
      · rcases List.mem_append.mp hx with hx | hx
        · exact List.mem_append_left _ (h.marked x hx)
        · exact (mem_familyOf.mp (hm' x hx)).1
    · refine .inr ⟨hnone hadd, ?_⟩
      rw [hown, ← hdin]
      exact hna
  · have hno : ∀ i ∈ is, i.iDinode ≠ e.eDinode := fun i hi hd => hold ⟨i, hi, hd⟩
    obtain ⟨is', heq, hsorted, hmem⟩ := iListAdd_new h.sorted hno
    have hempty : familyOf l e.eDinode = [] := by
      refine List.eq_nil_iff_forall_not_mem.mpr fun x hx => ?_
      obtain ⟨hxl, hxd⟩ := mem_familyOf.mp hx
      obtain ⟨i, hi, hid⟩ := h.cover x hxl
      exact hno i hi (hid.trans hxd)
    refine .inl ⟨is', [], heq, hsorted, fun x hx => ?_, fun j hj => ?_, fun x hx => ?_⟩
    · rcases List.mem_append.mp hx with hx | hx
      · obtain ⟨j, hj, hjd⟩ := h.cover x hx
        exact ⟨j, (hmem j).mpr (.inl hj), hjd⟩
      · obtain rfl := List.mem_singleton.mp hx
        exact ⟨_, (hmem _).mpr (.inr rfl), rfl⟩
    · rw [List.append_nil]
      rcases (hmem j).mp hj with hj | rfl
      · rw [hother _ (hno j hj)]
        exact h.state j hj
      · rw [hown, hempty]
        refine ⟨by simp, [], .flat (fun a ha b hb => ?_) rfl rfl, fun x hx => ?_⟩
        · rw [List.mem_singleton.mp ha, List.mem_singleton.mp hb]
        · refine iff_of_false (fun hin => ?_) List.not_mem_nil
          exact List.not_mem_nil (hempty ▸ mem_familyOf.mpr ⟨h.marked x hin, hx⟩)
    · rw [List.append_nil] at hx
      exact List.mem_append_left _ (h.marked x hx)

/-- **The scan classifies the families**: it fails an assertion exactly when some family is not
    accepted, and otherwise marks exactly the members that have a parent. -/
theorem familyScan_from (rest : List Envelope) : ∀ {l : List Envelope} {is : List IList}
    {delete : List Envelope}, ScanState l is delete → (l ++ rest).Nodup →
    (∃ marks, familyScan rest is delete = some marks ∧ ∃ is', ScanState (l ++ rest) is' marks) ∨
      (familyScan rest is delete = none ∧ ∃ x, ¬ Accepted (familyOf (l ++ rest) x)) := by
  induction rest with
  | nil => exact fun h _ => .inl ⟨_, rfl, _, by simpa using h⟩
  | cons e rest ih =>
    intro l is delete h hnodup
    have hnodup' : (l ++ [e] ++ rest).Nodup := by simpa using hnodup
    have hassoc : l ++ e :: rest = l ++ [e] ++ rest := by simp
    have he : e ∉ l := fun hin =>
      (List.nodup_append.mp hnodup).2.2 e hin e List.mem_cons_self rfl
    unfold familyScan
    rw [hassoc]
    rcases h.step (List.nodup_append.mp hnodup).1 he with ⟨is', m', heq, h'⟩ | ⟨heq, hna⟩
    · rw [heq]
      exact ih h' hnodup'
    · rw [heq]
      refine .inr ⟨rfl, e.eDinode, fun hacc => hna ?_⟩
      rw [familyOf_append] at hacc
      exact hacc.of_append

theorem familyScan_spec {l : List Envelope} (hnodup : l.Nodup) :
    (∃ marks, familyScan l [] [] = some marks ∧ (∀ x, Accepted (familyOf l x)) ∧
      ∀ e, e ∈ marks ↔ e ∈ l ∧ ∃ u, Parent u (familyOf l e.eDinode) ∧ e ≠ u) ∨
    (familyScan l [] [] = none ∧ ∃ x, ¬ Accepted (familyOf l x)) := by
  rcases familyScan_from l (l := []) ScanState.nil hnodup with ⟨marks, heq, is, h⟩ | h
  · rw [List.nil_append] at h
    refine .inl ⟨marks, heq, fun x => ?_, fun e => ?_⟩
    · by_cases hx : familyOf l x = []
      · rw [hx]
        exact .inl fun a ha => absurd ha List.not_mem_nil
      · obtain ⟨e, he⟩ := List.exists_mem_of_ne_nil _ hx
        obtain ⟨hel, hex⟩ := mem_familyOf.mp he
        obtain ⟨i, hi, hid⟩ := h.cover e hel
        obtain ⟨-, m, hstate, -⟩ := h.state i hi
        rw [← hex, ← hid]
        exact hstate.accepted
    · have hiff : ∀ i ∈ is, i.iDinode = e.eDinode → e ∈ l →
          (e ∈ marks ↔ ∃ u, Parent u (familyOf l e.eDinode) ∧ e ≠ u) := by
        intro i hi hid hel
        obtain ⟨-, m, hstate, hm⟩ := h.state i hi
        rw [hm e hid.symm]
        rw [hid] at hstate
        cases hstate with
        | flat hflat =>
          refine iff_of_false List.not_mem_nil ?_
          rintro ⟨u, hu, -⟩
          exact hu.not_flat hflat
        | split hu hi hm' =>
          rw [hm']
          constructor
          · exact fun hx => ⟨_, hu, hx.2⟩
          · rintro ⟨v, hv, hev⟩
            exact ⟨mem_familyOf.mpr ⟨hel, rfl⟩, hv.unique hu ▸ hev⟩
      constructor
      · intro he
        have hel := h.marked e he
        obtain ⟨i, hi, hid⟩ := h.cover e hel
        exact ⟨hel, (hiff i hi hid hel).mp he⟩
      · rintro ⟨hel, hu⟩
        obtain ⟨i, hi, hid⟩ := h.cover e hel
        exact (hiff i hi hid hel).mpr hu
  · rw [List.nil_append] at h
    exact .inr h

end Simta
