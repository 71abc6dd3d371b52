import Simta.SenderChild

/-!
# The path to an original recipient

`unblocked_path_to_root` over the run of checks that `expand` makes when the members-only groups are
dealt with.  The search is that of `Lib.Search`, from an address to its parents: the bits
`STATUS_ROOT_PATH` and `STATUS_NO_ROOT_PATH` are its memos, and a group that is still flagged is a memo
that stays negative.

* `RootPath` — a chain of parents to an original recipient on which no group is flagged;
* `RootOpen` — such a chain past addresses without `STATUS_NO_ROOT_PATH`, which may end at a positive bit;
* `withheld_iff` — an address is withheld when the second is missing, read on the heap before the check.
-/

set_option autoImplicit false

namespace Simta

/-! ## The search -/

/-- The bits of an address that `unblocked_path_to_root` goes by. -/
def rootMemo (f : LdapFlags) : Option Bool :=
  if f.ldapMemonly then some false
  else if f.noRootPath then some false
  else if f.rootPath then some true
  else none

/-- `unblocked_path_to_root` as a search. -/
def rootSearch (color : Nat) : Searching Nat AddrHeap where
  succ h v := (h v).eAddrParents
  seen h v := decide ((h v).eAddrAntiLoop = color)
  mark := paint color
  known h v := rootMemo (h v).eAddrLdapFlags
  learn v b := setFlags (fun f => if b then { f with rootPath := true } else { f with noRootPath := true }) v

theorem rootSearch_lawful (color : Nat) : (rootSearch color).Lawful where
  succ_mark v s := by funext w; simp [rootSearch]
  succ_learn v b s := by funext w; simp [rootSearch]
  seen_mark v s w := by
    simp only [rootSearch, decide_eq_true_iff, paint_antiLoop]
    split <;> simp_all
  seen_learn v b s := by funext w; simp [rootSearch]
  known_mark v s := by funext w; simp [rootSearch]
  known_learn v b s hk := by
    simp only [rootSearch, setFlags_flags, if_pos] at hk ⊢
    unfold rootMemo at hk ⊢
    cases b <;> grind
  known_learn_of_ne v b s w hw := by simp only [rootSearch, setFlags_flags, if_neg hw]

section Bridge

variable {color e : Nat} {h t : AddrHeap} {r : Bool × AddrHeap}

theorem parentLoop_of_visitAll {below : List (Option Nat) → AddrHeap → Option (Bool × AddrHeap)}
    {call : Nat → AddrHeap → Option (Bool × AddrHeap)}
    (hcall : ∀ e h r, (rootSearch color).visit below e h = some r → call e h = some r)
    (l : List (Option Nat)) :
    ∀ h r, (rootSearch color).visitAll below l h = some r → parentLoop call l h = some r := by
  induction l with
  | nil => exact fun _ _ h => h
  | cons p rest ih =>
    intro h r hrun
    cases p with
    | none => exact hrun
    | some e =>
      rw [Searching.visitAll] at hrun
      rw [parentLoop]
      split at hrun
      · cases hrun
      · rename_i hv
        rw [hcall _ _ _ hv]
        exact hrun
      · rename_i hv
        rw [hcall _ _ _ hv]
        exact ih _ _ hrun

/-- The walk goes as the search does, as far as the search goes. -/
theorem unblockedPathToRoot_of_visit (depth : Nat) : ∀ e h r,
    (rootSearch color).visit ((rootSearch color).search depth) e h = some r →
      unblockedPathToRoot color (depth + 1) e h = some r := by
  induction depth with
  | zero =>
    intro e h r hv
    unfold Searching.visit Searching.search rootSearch rootMemo at hv
    rw [unblockedPathToRoot]
    grind
  | succ depth ih =>
    intro e h r hv
    have hloop := parentLoop_of_visitAll ih (h e).eAddrParents (paint color e h)
    have hsucc : (rootSearch color).search (depth + 1) ((rootSearch color).succ h e)
        ((rootSearch color).mark e h) = (rootSearch color).visitAll ((rootSearch color).search depth)
          (h e).eAddrParents (paint color e h) := rfl
    rw [Searching.visit, hsucc] at hv
    generalize (rootSearch color).visitAll ((rootSearch color).search depth) (h e).eAddrParents
      (paint color e h) = r' at hv hloop
    rw [unblockedPathToRoot]
    cases r' with
    | none =>
      simp only [rootSearch, rootMemo] at hv
      grind
    | some r' =>
      rw [hloop r' rfl]
      obtain ⟨b, t⟩ := r'
      simp only [rootSearch, rootMemo] at hv
      cases b <;> grind

theorem unblockedPathToRoot_of_search {depth : Nat}
    (hrun : (rootSearch color).search depth [some e] h = some r) : unblockedPathToRoot color depth e h = some r := by
  cases depth with
  | zero => cases hrun
  | succ depth =>
    refine unblockedPathToRoot_of_visit depth e h r ?_
    rw [Searching.search, Searching.visitAll] at hrun
    split at hrun
    · cases hrun
    · rename_i hv
      rwa [hv]
    · rename_i hv
      rwa [hv]

end Bridge

/-! ## What it looks for -/

/-- A chain of parents to an original recipient on which no address, itself included, is a members-only
    group that is still flagged. -/
inductive RootPath (h : AddrHeap) : Nat → Prop
  | root {e : Nat} (hfree : (h e).eAddrLdapFlags.ldapMemonly = false) (hroot : none ∈ (h e).eAddrParents) :
      RootPath h e
  | link {e p : Nat} (hfree : (h e).eAddrLdapFlags.ldapMemonly = false) (hp : some p ∈ (h e).eAddrParents)
      (hpath : RootPath h p) : RootPath h e

/-- Such a chain past addresses without `STATUS_NO_ROOT_PATH`, which may end at `STATUS_ROOT_PATH`. -/
inductive RootOpen (h : AddrHeap) : Nat → Prop
  | memo {e : Nat} (hfree : (h e).eAddrLdapFlags.ldapMemonly = false)
      (hopen : (h e).eAddrLdapFlags.noRootPath = false) (hmemo : (h e).eAddrLdapFlags.rootPath = true) :
      RootOpen h e
  | root {e : Nat} (hfree : (h e).eAddrLdapFlags.ldapMemonly = false)
      (hopen : (h e).eAddrLdapFlags.noRootPath = false) (hroot : none ∈ (h e).eAddrParents) : RootOpen h e
  | link {e p : Nat} (hfree : (h e).eAddrLdapFlags.ldapMemonly = false)
      (hopen : (h e).eAddrLdapFlags.noRootPath = false) (hp : some p ∈ (h e).eAddrParents)
      (hpath : RootOpen h p) : RootOpen h e

theorem rootMemo_none {f : LdapFlags} :
    rootMemo f = none ↔ f.ldapMemonly = false ∧ f.noRootPath = false ∧ f.rootPath = false := by
  unfold rootMemo
  grind

theorem rootMemo_true {f : LdapFlags} :
    rootMemo f = some true ↔ f.ldapMemonly = false ∧ f.noRootPath = false ∧ f.rootPath = true := by
  unfold rootMemo
  grind

theorem found_iff_rootOpen {color e : Nat} {h : AddrHeap} : (rootSearch color).Found h e ↔ RootOpen h e := by
  constructor
  · intro hf
    induction hf with
    | memo hk =>
      obtain ⟨hfree, hopen, hmemo⟩ := rootMemo_true.mp hk
      exact .memo hfree hopen hmemo
    | goal hk hg =>
      obtain ⟨hfree, hopen, -⟩ := rootMemo_none.mp hk
      exact .root hfree hopen hg
    | step hk hw _ ih =>
      obtain ⟨hfree, hopen, -⟩ := rootMemo_none.mp hk
      exact .link hfree hopen hw ih
  · intro ho
    induction ho with
    | memo hfree hopen hmemo => exact .memo (rootMemo_true.mpr ⟨hfree, hopen, hmemo⟩)
    | @root v hfree hopen hroot =>
      by_cases hm : (h v).eAddrLdapFlags.rootPath = true
      · exact .memo (rootMemo_true.mpr ⟨hfree, hopen, hm⟩)
      · exact .goal (rootMemo_none.mpr ⟨hfree, hopen, by simpa using hm⟩) hroot
    | @link v p hfree hopen hp _ ih =>
      by_cases hm : (h v).eAddrLdapFlags.rootPath = true
      · exact .memo (rootMemo_true.mpr ⟨hfree, hopen, hm⟩)
      · exact .step (rootMemo_none.mpr ⟨hfree, hopen, by simpa using hm⟩) hp ih

/-- The heap before the first check: the two bits of the search are on no address. -/
def Unchecked (h : AddrHeap) : Prop :=
  ∀ x, (h x).eAddrLdapFlags.rootPath = false ∧ (h x).eAddrLdapFlags.noRootPath = false

theorem rootOpen_iff_rootPath {h : AddrHeap} (hun : Unchecked h) {e : Nat} : RootOpen h e ↔ RootPath h e := by
  constructor
  · intro ho
    induction ho with
    | @memo v _ _ hmemo =>
      rw [(hun v).1] at hmemo
      cases hmemo
    | root hfree _ hroot => exact .root hfree hroot
    | link hfree _ hp _ ih => exact .link hfree hp ih
  · intro hr
    induction hr with
    | root hfree hroot => exact .root hfree (hun _).2 hroot
    | link hfree hp _ ih => exact .link hfree (hun _).2 hp ih

/-! ## The run of checks -/

/-- No address that has such a chain leads back to itself over parents. -/
def RootAcyclic (h : AddrHeap) : Prop :=
  ∀ e, RootPath h e → ¬ Relation.TransGen (fun a p => some p ∈ (h a).eAddrParents) e e

/-- How the checks stand between two addresses, when they began on `h₀`. -/
structure RootInv (h₀ : AddrHeap) (s : Painted) : Prop where
  fresh : ∀ x, (s.heap x).eAddrAntiLoop < s.loopColor
  supressed : ∀ x, (s.heap x).eAddrLdapFlags.ldapSupressed = (h₀ x).eAddrLdapFlags.ldapSupressed
  memos : ∀ color, (rootSearch color).Descends h₀ s.heap
  right : RootAcyclic h₀ → ∀ color, (rootSearch color).NoWrong h₀ s.heap

variable {h₀ t : AddrHeap} {s u : Painted} {U : Finset Nat} {depth e : Nat} {b : Bool} {addrs : List Nat}

theorem RootInv.start (hun : Unchecked h₀) {color : Nat} (hfresh : ∀ x, (h₀ x).eAddrAntiLoop < color) :
    RootInv h₀ ⟨h₀, color⟩ where
  fresh := hfresh
  supressed _ := rfl
  memos _ := .refl
  right _ c v hv hf := by
    have hr := (rootOpen_iff_rootPath hun).mp (found_iff_rootOpen.mp hf)
    have hfree : (h₀ v).eAddrLdapFlags.ldapMemonly = false := by cases hr <;> assumption
    have := (hun v).2
    simp only [rootSearch, rootMemo] at hv
    grind

theorem RootInv.unseen (hinv : RootInv h₀ s) (x : Nat) : (rootSearch s.loopColor).seen s.heap x = false := by
  have := hinv.fresh x
  simp only [rootSearch, decide_eq_false_iff_not]
  omega

/-- **What one call of `unblocked_path_to_root` answers and leaves.** -/
theorem rootSearch_iff (hun : Unchecked h₀) (hinv : RootInv h₀ s)
    (hrun : (rootSearch s.loopColor).search depth [some e] s.heap = some (b, t)) :
    (b = true ↔ RootOpen s.heap e) ∧ RootInv h₀ ⟨t, s.loopColor + 1⟩ := by
  constructor
  · rw [Searching.search_iff (rootSearch_lawful _) hinv.unseen hrun]
    unfold Searching.FoundIn
    simp [found_iff_rootOpen]
  · refine ⟨?_, fun x => ?_, fun color => ?_, fun hacyclic color v hv hf => ?_⟩
    · refine Searching.search_preserves (P := fun h => ∀ x, (h x).eAddrAntiLoop < s.loopColor + 1) ?_ ?_ hrun
        fun x => by have := hinv.fresh x; omega
      · intro v h hh x
        simp only [rootSearch, paint_antiLoop]
        split
        · omega
        · exact hh x
      · intro v b h hh x
        simp only [rootSearch, setFlags_antiLoop]
        exact hh x
    · rw [← hinv.supressed]
      refine Searching.search_preserves (P := fun h => (h x).eAddrLdapFlags.ldapSupressed =
        (s.heap x).eAddrLdapFlags.ldapSupressed) ?_ ?_ hrun rfl
      · intro v h hh
        simpa only [rootSearch, paint_flags] using hh
      · intro v b h hh
        simp only [rootSearch, setFlags_flags]
        split <;> [cases b <;> exact hh; exact hh]
    · have hd := (hinv.memos s.loopColor).search (rootSearch_lawful _) hrun
      exact ⟨hd.succ, hd.kept, fun v hv => found_iff_rootOpen.mpr (found_iff_rootOpen.mp (hd.yes v hv))⟩
    · refine (hinv.right hacyclic s.loopColor).search (rootSearch_lawful _) (hinv.memos _) ?_ hinv.unseen
        hrun v hv (found_iff_rootOpen.mpr (found_iff_rootOpen.mp hf))
      intro x hx
      exact hacyclic x ((rootOpen_iff_rootPath hun).mp (found_iff_rootOpen.mp hx))

theorem RootOpen.start (hun : Unchecked h₀) (hinv : RootInv h₀ s) (ho : RootOpen s.heap e) : RootPath h₀ e :=
  (rootOpen_iff_rootPath hun).mp (found_iff_rootOpen.mp ((hinv.memos 0).found (found_iff_rootOpen.mpr ho)))

theorem RootPath.opened (hun : Unchecked h₀) (hinv : RootInv h₀ s) (hacyclic : RootAcyclic h₀)
    (hr : RootPath h₀ e) : RootOpen s.heap e :=
  found_iff_rootOpen.mp (((hinv.memos 0).found_iff (hinv.right hacyclic 0)).mpr
    (found_iff_rootOpen.mpr ((rootOpen_iff_rootPath hun).mpr hr)))

/-- The parents of the addresses of `U` lie in `U`. -/
def ParentsIn (U : Finset Nat) (h : AddrHeap) : Prop := ∀ x ∈ U, ∀ p, some p ∈ (h x).eAddrParents → p ∈ U

theorem rootSearch_total (hparents : ParentsIn U h₀) (hinv : RootInv h₀ s) (he : e ∈ U)
    (hdepth : U.card < depth) : ∃ r, (rootSearch s.loopColor).search depth [some e] s.heap = some r := by
  refine Searching.search_total (rootSearch_lawful _) depth _ _ ?_ ?_
    (Nat.lt_of_le_of_lt (Finset.card_filter_le _ _) hdepth)
  · intro v hv w hw
    rw [(hinv.memos s.loopColor).succ] at hw
    exact hparents v hv w hw
  · intro w hw
    obtain rfl : w = e := by simpa using hw
    exact he

/-- **The check of one address**: a suppressed one is withheld when no way to the root is open. -/
theorem withheld_iff (hun : Unchecked h₀) (hparents : ParentsIn U h₀) (hinv : RootInv h₀ s) (he : e ∈ U)
    (hdepth : U.card < depth) : ∃ b u, withheld depth e s = .ok (b, u) ∧ RootInv h₀ u ∧
      (b = true ↔ (h₀ e).eAddrLdapFlags.ldapSupressed = true ∧ ¬ RootOpen s.heap e) := by
  unfold withheld
  rw [hinv.supressed]
  by_cases hs : (h₀ e).eAddrLdapFlags.ldapSupressed = true
  · rw [if_pos hs]
    obtain ⟨⟨answer, t⟩, hrun⟩ := rootSearch_total hparents hinv he hdepth
    obtain ⟨hanswer, hinv'⟩ := rootSearch_iff hun hinv hrun
    rw [unblockedPathToRoot_of_search hrun]
    refine ⟨_, _, rfl, hinv', ?_⟩
    rw [← hanswer]
    simp [hs]
  · rw [if_neg hs]
    exact ⟨_, _, rfl, hinv, by simp [hs]⟩

/-- What a check came to. -/
structure Checked (h₀ : AddrHeap) (q : Nat × Painted × Bool) : Prop where
  inv : RootInv h₀ q.2.1
  iff : q.2.2 = true ↔ (h₀ q.1).eAddrLdapFlags.ldapSupressed = true ∧ ¬ RootOpen q.2.1.heap q.1

theorem withheldLoop_spec (hun : Unchecked h₀) (hparents : ParentsIn U h₀) (hdepth : U.card < depth)
    (addrs : List Nat) : ∀ s, RootInv h₀ s → (∀ e ∈ addrs, e ∈ U) →
      ∃ asked u, withheldLoop depth addrs s = .ok (asked, u) ∧ asked.map Prod.fst = addrs ∧
        ∀ q ∈ asked, Checked h₀ q := by
  induction addrs with
  | nil => exact fun s _ _ => ⟨[], s, rfl, rfl, by simp⟩
  | cons e rest ih =>
    intro s hinv haddrs
    obtain ⟨b, t, hrun, hinv', hb⟩ := withheld_iff hun hparents hinv (haddrs e List.mem_cons_self) hdepth
    obtain ⟨asked, u, hrest, hmap, hall⟩ := ih t hinv' fun x hx => haddrs x (List.mem_cons_of_mem _ hx)
    refine ⟨(e, s, b) :: asked, u, ?_, by simp [hmap], ?_⟩
    · rw [withheldLoop, hrun]
      dsimp only
      rw [hrest]
      rfl
    · exact List.forall_mem_cons.mpr ⟨⟨hinv, hb⟩, hall⟩

/-! ## What the members-only loop suppresses -/

/-- The links and the bits of the root search are as they were, no address is less suppressed and none is
    flagged anew. -/
structure MemonlyKept (h t : AddrHeap) : Prop where
  children : ∀ x, (t x).eAddrChildren = (h x).eAddrChildren
  parents : ∀ x, (t x).eAddrParents = (h x).eAddrParents
  supressed : ∀ x, (h x).eAddrLdapFlags.ldapSupressed = true → (t x).eAddrLdapFlags.ldapSupressed = true
  memonly : ∀ x, (t x).eAddrLdapFlags.ldapMemonly = true → (h x).eAddrLdapFlags.ldapMemonly = true
  unchecked : Unchecked h → Unchecked t

namespace MemonlyKept

variable {h t u : AddrHeap}

theorem refl : MemonlyKept h h := ⟨fun _ => rfl, fun _ => rfl, fun _ => id, fun _ => id, id⟩

theorem trans (hht : MemonlyKept h t) (htu : MemonlyKept t u) : MemonlyKept h u where
  children x := (htu.children x).trans (hht.children x)
  parents x := (htu.parents x).trans (hht.parents x)
  supressed x hs := htu.supressed x (hht.supressed x hs)
  memonly x hm := hht.memonly x (htu.memonly x hm)
  unchecked hun := htu.unchecked (hht.unchecked hun)

theorem recolored {color : Nat} (hr : Recolored color h t) : MemonlyKept h t where
  children _ := hr.children
  parents _ := hr.parents
  supressed _ := hr.supressed
  memonly x hm := by rwa [hr.memonly] at hm
  unchecked hun x := by
    obtain ⟨c, b, ht, -⟩ := hr x
    rw [ht]
    exact hun x

/-- A write to bits of one address. -/
theorem setFlags {f : LdapFlags → LdapFlags} (e : Nat) (hs : ∀ a, (f a).ldapSupressed = a.ldapSupressed)
    (hm : ∀ a, (f a).ldapMemonly = a.ldapMemonly)
    (hr : ∀ a, (f a).rootPath = a.rootPath ∧ (f a).noRootPath = a.noRootPath) :
    MemonlyKept h (Simta.setFlags f e h) where
  children _ := setFlags_children
  parents _ := setFlags_parents
  supressed x hx := by
    rw [setFlags_flags]
    split
    · rwa [hs]
    · exact hx
  memonly x hx := by
    rw [setFlags_flags] at hx
    split at hx
    · rwa [hm] at hx
    · exact hx
  unchecked hun x := by
    rw [setFlags_flags]
    split
    · rw [(hr _).1, (hr _).2]
      exact hun x
    · exact hun x

theorem ok (g : Nat) : MemonlyKept h (memonlyOk g h) := by
  have hw : ∀ {γ : Type} (view : ExpAddr → γ),
      (∀ a : ExpAddr, view { a with eAddrLdapFlags.ldapMemonly := false, eAddrEnvModerated := none } = view a) →
      ∀ x, view (memonlyOk g h x) = view (h x) := fun view hv x => AddrHeap.write_field view hv g h x
  refine ⟨hw ExpAddr.eAddrChildren fun _ => rfl, hw ExpAddr.eAddrParents fun _ => rfl, fun x hs => ?_,
    fun x hm => ?_, fun hun x => ?_⟩
  · rwa [hw (fun a => a.eAddrLdapFlags.ldapSupressed) fun _ => rfl]
  · unfold memonlyOk at hm
    by_cases hx : x = g
    · subst hx
      rw [AddrHeap.write_self] at hm
      cases hm
    · rwa [AddrHeap.write_of_ne _ _ hx] at hm
  · have hroot := hw (fun a => a.eAddrLdapFlags.rootPath) (fun _ => rfl) x
    have hno := hw (fun a => a.eAddrLdapFlags.noRootPath) (fun _ => rfl) x
    rw [hroot, hno]
    exact hun x

theorem sender {color depth : Nat} {l : List Nat} {b : Bool}
    (hrun : senderIsChild color depth l h = some (b, t)) : MemonlyKept h t := by
  rw [senderIsChild_eq] at hrun
  refine Searching.search_preserves (P := fun h' => MemonlyKept h h') ?_ ?_ hrun .refl
  · exact fun v s hs => hs.trans (.recolored (.paint v))
  · intro v b s hs
    have hlearn : (senderSearch color).learn v b s = Simta.setFlags (fun f =>
        if b then { f with emailSender := true } else { f with noEmailSender := true }) v s := rfl
    rw [hlearn]
    cases b with
    | true => exact hs.trans (.setFlags v (fun _ => rfl) (fun _ => rfl) fun _ => ⟨rfl, rfl⟩)
    | false => exact hs.trans (.setFlags v (fun _ => rfl) (fun _ => rfl) fun _ => ⟨rfl, rfl⟩)

end MemonlyKept

/-- What hangs below a suppressed address is suppressed. -/
def SupressClosed (h : AddrHeap) : Prop :=
  ∀ x, (h x).eAddrLdapFlags.ldapSupressed = true →
    ∀ c ∈ (h x).eAddrChildren, (h c).eAddrLdapFlags.ldapSupressed = true

/-- What a suppression of `l` leaves: `l` is suppressed, and so is what hangs below the addresses that
    became so on the way. -/
structure Supresses (color : Nat) (l : List Nat) (h t : AddrHeap) : Prop where
  recolored : Recolored color h t
  list : ∀ x ∈ l, (t x).eAddrLdapFlags.ldapSupressed = true
  below : ∀ x, (t x).eAddrLdapFlags.ldapSupressed = true → (h x).eAddrLdapFlags.ldapSupressed = true ∨
    ∀ c ∈ (h x).eAddrChildren, (t c).eAddrLdapFlags.ldapSupressed = true
  colored : ∀ x, (t x).eAddrAntiLoop = color → (t x).eAddrLdapFlags.ldapSupressed = true

/-- A suppression in which every coloured address is suppressed to begin with. -/
def SupressesBelow (color : Nat) (below : List Nat → AddrHeap → Except Halt AddrHeap) : Prop :=
  ∀ l h t, (∀ x, (h x).eAddrAntiLoop = color → (h x).eAddrLdapFlags.ldapSupressed = true) →
    below l h = .ok t → Supresses color l h t

section Supression

variable {color : Nat} {below : List Nat → AddrHeap → Except Halt AddrHeap}

theorem Supresses.cons {l : List Nat} {h h₁ t : AddrHeap} {e : Nat} (hstep : Recolored color h h₁)
    (he : (h₁ e).eAddrLdapFlags.ldapSupressed = true)
    (hnew : ∀ x, (h₁ x).eAddrLdapFlags.ldapSupressed = true → (h x).eAddrLdapFlags.ldapSupressed = true ∨
      ∀ c ∈ (h x).eAddrChildren, (h₁ c).eAddrLdapFlags.ldapSupressed = true)
    (hrest : Supresses color l h₁ t) : Supresses color (e :: l) h t where
  recolored := hstep.trans hrest.recolored
  list := List.forall_mem_cons.mpr ⟨hrest.recolored.supressed he, hrest.list⟩
  below x hx := by
    rcases hrest.below x hx with h₁x | hc
    · exact (hnew x h₁x).imp_right fun hc c hmem => hrest.recolored.supressed (hc c hmem)
    · exact .inr fun c hmem => hc c (by rwa [hstep.children])
  colored := hrest.colored

theorem supressLoop_supresses (hbelow : SupressesBelow color below) :
    SupressesBelow color (supressLoop color below) := by
  intro l
  induction l with
  | nil =>
    intro h t hcol hrun
    cases hrun
    exact ⟨.refl, by simp, fun _ => .inl, hcol⟩
  | cons e rest ih =>
    intro h t hcol hrun
    have hpaint : ∀ x, (paint color e h x).eAddrLdapFlags = (h x).eAddrLdapFlags := fun x => paint_flags
    rw [supressLoop] at hrun
    split at hrun
    · cases hrun
    · split at hrun
      · rename_i hc
        exact .cons .refl (hcol e hc) (fun _ => .inl) (ih h t hcol hrun)
      · split at hrun
        · rename_i hs
          refine .cons (.paint e) (by rwa [hpaint]) (fun x hx => .inl (by rwa [hpaint] at hx)) (ih _ t ?_ hrun)
          intro x hx
          rw [hpaint]
          rw [paint_antiLoop] at hx
          split at hx
          · rename_i hxe
            rwa [hxe]
          · exact hcol x hx
        · -- the address is suppressed before its children are
          have hstep : Recolored color h
              (setFlags (fun f => { f with ldapSupressed := true }) e (paint color e h)) :=
            (Recolored.paint e).trans (.supress e)
          have hself : ∀ x, (setFlags (fun f => { f with ldapSupressed := true }) e (paint color e h)
              x).eAddrLdapFlags.ldapSupressed = true ↔ x = e ∨ (h x).eAddrLdapFlags.ldapSupressed = true := by
            intro x
            rw [setFlags_flags]
            split
            · rename_i hxe
              simp [hxe]
            · rename_i hxe
              simp [hxe]
          have hcol' : ∀ x, (setFlags (fun f => { f with ldapSupressed := true }) e (paint color e h)
              x).eAddrAntiLoop = color → (setFlags (fun f => { f with ldapSupressed := true }) e
                (paint color e h) x).eAddrLdapFlags.ldapSupressed = true := by
            intro x hx
            rw [setFlags_antiLoop, paint_antiLoop] at hx
            rw [hself]
            split at hx
            · exact .inl ‹_›
            · exact .inr (hcol x hx)
          generalize setFlags (fun f => { f with ldapSupressed := true }) e (paint color e h) = h₁
            at hrun hstep hself hcol'
          split at hrun
          · cases hrun
          · rename_i h₂ heq
            have hmid := hbelow _ _ _ hcol' heq
            refine .cons (hstep.trans hmid.recolored) (hmid.recolored.supressed ((hself e).mpr (.inl rfl)))
              (fun x hx => ?_) (ih h₂ t hmid.colored hrun)
            rcases hmid.below x hx with h₁x | hc
            · rcases (hself x).mp h₁x with rfl | hx
              · exact .inr hmid.list
              · exact .inl hx
            · exact .inr fun c hmem => hc c (by rwa [hstep.children])

theorem supressAddrs_supresses (depth : Nat) : SupressesBelow color (supressAddrs color depth) := by
  induction depth with
  | zero => exact fun _ _ _ _ h => by cases h
  | succ depth ih => exact supressLoop_supresses ih

theorem Supresses.closed {l : List Nat} {h t : AddrHeap} (hs : Supresses color l h t) (hclosed : SupressClosed h) :
    SupressClosed t := by
  intro x hx c hc
  rw [hs.recolored.children] at hc
  rcases hs.below x hx with hx' | hbelow
  · exact hs.recolored.supressed (hclosed x hx' c hc)
  · exact hbelow c hc

end Supression

/-! ## Both loops -/

/-- The group that was asked about is no longer flagged, or its members are suppressed. -/
def GroupDone (h : AddrHeap) (g : Nat) : Prop :=
  (h g).eAddrLdapFlags.ldapMemonly = true → ∀ c ∈ (h g).eAddrChildren, (h c).eAddrLdapFlags.ldapSupressed = true

theorem GroupDone.kept {h t : AddrHeap} {g : Nat} (hd : GroupDone h g) (hk : MemonlyKept h t) : GroupDone t g := by
  intro hm c hc
  rw [hk.children] at hc
  exact hk.supressed c (hd (hk.memonly g hm) c hc)

theorem groupDone_ok (g : Nat) (h : AddrHeap) : GroupDone (memonlyOk g h) g := by
  intro hm
  rw [memonlyOk, AddrHeap.write_self] at hm
  cases hm

theorem SupressClosed.kept {h t : AddrHeap} (hclosed : SupressClosed h) (hk : MemonlyKept h t)
    (hs : ∀ x, (t x).eAddrLdapFlags.ldapSupressed = (h x).eAddrLdapFlags.ldapSupressed) : SupressClosed t := by
  intro x hx c hc
  rw [hs] at hx ⊢
  rw [hk.children] at hc
  exact hclosed x hx c hc

theorem senderIsChild_supressed {color depth : Nat} {l : List Nat} {h : AddrHeap}
    (hrun : senderIsChild color depth l h = some (b, t)) (x : Nat) :
    (t x).eAddrLdapFlags.ldapSupressed = (h x).eAddrLdapFlags.ldapSupressed := by
  rw [senderIsChild_eq] at hrun
  refine Searching.search_preserves (P := fun h' => (h' x).eAddrLdapFlags.ldapSupressed =
    (h x).eAddrLdapFlags.ldapSupressed) ?_ ?_ hrun rfl
  · intro v s hs
    simpa only [senderSearch, paint_flags] using hs
  · intro v b s hs
    simp only [senderSearch, setFlags_flags]
    split <;> [cases b <;> exact hs; exact hs]

/-- What a group that is not permitted leaves. -/
theorem memonlyAnswer_done {g : Nat} (hfresh : ∀ x, (s.heap x).eAddrAntiLoop < s.loopColor)
    (hclosed : SupressClosed s.heap) (hrun : memonlyAnswer depth g b s = .ok u) :
    MemonlyKept s.heap u.heap ∧ SupressClosed u.heap ∧ GroupDone u.heap g := by
  unfold memonlyAnswer at hrun
  cases b with
  | true =>
    cases hrun
    refine ⟨.ok g, hclosed.kept (.ok g) fun x => ?_, groupDone_ok g s.heap⟩
    exact AddrHeap.write_field (fun a => a.eAddrLdapFlags.ldapSupressed) (by intro a; rfl) g s.heap x
  | false =>
    rw [if_neg Bool.false_ne_true] at hrun
    have hflag : MemonlyKept s.heap (setFlags (fun f => { f with ldapSupressor := true }) g s.heap) :=
      .setFlags g (fun _ => rfl) (fun _ => rfl) fun _ => ⟨rfl, rfl⟩
    have hsame : ∀ x, (setFlags (fun f => { f with ldapSupressor := true }) g s.heap
        x).eAddrLdapFlags.ldapSupressed = (s.heap x).eAddrLdapFlags.ldapSupressed := fun x =>
      AddrHeap.write_field (fun a => a.eAddrLdapFlags.ldapSupressed) (by intro a; rfl) g s.heap x
    have hcol : ∀ x, (setFlags (fun f => { f with ldapSupressor := true }) g s.heap x).eAddrAntiLoop =
        s.loopColor → (setFlags (fun f => { f with ldapSupressor := true }) g s.heap
          x).eAddrLdapFlags.ldapSupressed = true := by
      intro x hx
      rw [setFlags_antiLoop] at hx
      exact absurd hx (by have := hfresh x; omega)
    dsimp only at hrun
    generalize setFlags (fun f => { f with ldapSupressor := true }) g s.heap = h at hrun hflag hsame hcol
    cases hsup : supressAddrs s.loopColor depth (h g).eAddrChildren h with
    | error halt =>
      rw [hsup] at hrun
      cases hrun
    | ok t =>
      rw [hsup] at hrun
      cases hrun
      have hdone := supressAddrs_supresses depth _ _ _ hcol hsup
      refine ⟨hflag.trans (.recolored hdone.recolored), hdone.closed (hclosed.kept hflag hsame), fun _ => ?_⟩
      rw [hdone.recolored.children]
      exact hdone.list

/-- **The members-only loop suppresses all that hangs below a group that is left flagged.** -/
theorem memonlyLoop_done (hexp : Expanded U h₀) (hdepth : U.card < depth) (groups : List Nat) :
    ∀ s qs u, MemonlyInv h₀ s → (∀ g ∈ groups, g ∈ U) → SupressClosed s.heap →
      memonlyLoop depth groups s = (qs, .ok u) →
      MemonlyInv h₀ u ∧ MemonlyKept s.heap u.heap ∧ SupressClosed u.heap ∧ ∀ g ∈ groups, GroupDone u.heap g := by
  induction groups with
  | nil =>
    intro s qs u hinv _ hclosed hrun
    cases hrun
    exact ⟨hinv, .refl, hclosed, by simp⟩
  | cons g rest ih =>
    intro s qs u hinv hgroups hclosed hrun
    have hg : g ∈ U := hgroups g List.mem_cons_self
    have hrest : ∀ x ∈ rest, x ∈ U := fun x hx => hgroups x (List.mem_cons_of_mem _ hx)
    -- how the rest of the loop goes on from where one group is dealt with
    have hgo : ∀ v qs', MemonlyInv h₀ v → MemonlyKept s.heap v.heap → SupressClosed v.heap →
        GroupDone v.heap g → memonlyLoop depth rest v = (qs', .ok u) →
        MemonlyInv h₀ u ∧ MemonlyKept s.heap u.heap ∧ SupressClosed u.heap ∧
          ∀ x ∈ g :: rest, GroupDone u.heap x := by
      intro v qs' hv hkv hcv hgv hrun
      obtain ⟨hu, hku, hcu, hall⟩ := ih v qs' u hv hrest hcv hrun
      exact ⟨hu, hkv.trans hku, hcu, List.forall_mem_cons.mpr ⟨hgv.kept hku, hall⟩⟩
    unfold memonlyLoop at hrun
    cases hperm : parentPermitted s.heap g with
    | error halt =>
      rw [hperm] at hrun
      cases hrun
    | ok p =>
      rw [hperm] at hrun
      cases p with
      | some dn =>
        refine hgo _ _ (hinv.ok g) (.ok g) (hclosed.kept (.ok g) fun x => ?_) (groupDone_ok g s.heap) hrun
        exact AddrHeap.write_field (fun a => a.eAddrLdapFlags.ldapSupressed) (by intro a; rfl) g s.heap x
      | none =>
        have hchildren : ∀ x ∈ (s.heap g).eAddrChildren, x ∈ U := fun x hx =>
          hexp.closed g hg x (by rwa [← hinv.children])
        obtain ⟨⟨answer, t⟩, hsender⟩ := senderIsChild_total hexp hinv hchildren hdepth
        obtain ⟨-, hinv'⟩ := senderIsChild_iff hinv hsender
        have hkt : MemonlyKept s.heap t := .sender hsender
        have hct : SupressClosed t := hclosed.kept hkt (senderIsChild_supressed hsender)
        have hstep := memonlyAnswer_spec (b := answer) hexp hinv' hg hdepth
        simp only [hsender] at hrun
        cases hres : memonlyAnswer depth g answer ⟨t, s.loopColor + 1⟩ with
        | error halt =>
          rw [hres] at hrun
          cases hrun
        | ok v =>
          rw [hres] at hrun hstep
          obtain ⟨hkv, hcv, hgv⟩ := memonlyAnswer_done hinv'.fresh hct hres
          obtain ⟨-, hrun⟩ := Prod.mk.inj hrun
          exact hgo v _ hstep (hkt.trans hkv) hcv hgv (Prod.ext rfl hrun)

/-- A chain of parents to an original recipient, through whatever addresses. -/
inductive Rooted (h : AddrHeap) : Nat → Prop
  | root {e : Nat} (hroot : none ∈ (h e).eAddrParents) : Rooted h e
  | link {e p : Nat} (hp : some p ∈ (h e).eAddrParents) (hpath : Rooted h p) : Rooted h e

theorem Rooted.congr {h t : AddrHeap} (hparents : ∀ x, (t x).eAddrParents = (h x).eAddrParents) {x : Nat}
    (hr : Rooted h x) : Rooted t x := by
  induction hr with
  | root hroot => exact .root (by rwa [hparents])
  | link hp _ ih => exact .link (by rwa [hparents]) ih

/-- The finite graph that `expand` has built when it comes to the members-only groups `groups`: parents and
    children are each other's, every address came of an original recipient, the groups that are flagged
    are those on the list, and none of the bits of the two searches is set. -/
structure AddrGraph (U : Finset Nat) (groups : List Nat) (h : AddrHeap) : Prop where
  expanded : Expanded U h
  parents : ParentsIn U h
  mirrored : ∀ x p, some p ∈ (h x).eAddrParents → x ∈ (h p).eAddrChildren
  rooted : ∀ x ∈ U, Rooted h x
  within : ∀ g ∈ groups, g ∈ U
  flagged : ∀ x, (h x).eAddrLdapFlags.ldapMemonly = true → x ∈ groups
  unsupressed : ∀ x, (h x).eAddrLdapFlags.ldapSupressed = false
  unchecked : Unchecked h

/-- An address that no flagged group hides is itself flagged, or it has a path. -/
theorem Rooted.cases {h : AddrHeap} {groups : List Nat} {x : Nat}
    (hmirror : ∀ x p, some p ∈ (h x).eAddrParents → x ∈ (h p).eAddrChildren)
    (hflag : ∀ x, (h x).eAddrLdapFlags.ldapMemonly = true → x ∈ groups)
    (hclosed : SupressClosed h) (hdone : ∀ g ∈ groups, GroupDone h g) (hr : Rooted h x) :
    (h x).eAddrLdapFlags.ldapMemonly = true ∨ (h x).eAddrLdapFlags.ldapSupressed = true ∨ RootPath h x := by
  induction hr with
  | @root e hroot =>
    by_cases hm : (h e).eAddrLdapFlags.ldapMemonly = true
    · exact .inl hm
    · exact .inr (.inr (.root (by simpa using hm) hroot))
  | @link e p hp _ ih =>
    have hchild := hmirror e p hp
    rcases ih with hm | hs | hpath
    · exact .inr (.inl (hdone p (hflag p hm) hm e hchild))
    · exact .inr (.inl (hclosed p hs e hchild))
    · by_cases hm : (h e).eAddrLdapFlags.ldapMemonly = true
      · exact .inl hm
      · exact .inr (.inr (.link (by simpa using hm) hp hpath))

/-- What the checks of both loops come to. -/
structure Exact (t : Painted) (asked : List (Nat × Painted × Bool)) : Prop where
  /-- `unblocked_path_to_root` returned 1 for the address if and only if it has a path. -/
  answers : ∀ q ∈ asked, (t.heap q.1).eAddrLdapFlags.ldapSupressed = true →
    (q.2.2 = false ↔ RootPath t.heap q.1)
  /-- An address that is not such a group itself is withheld exactly when it has none. -/
  withheld : ∀ q ∈ asked, (t.heap q.1).eAddrLdapFlags.ldapMemonly = false →
    (q.2.2 = true ↔ ¬ RootPath t.heap q.1)

/-- **`unblocked_path_to_root` is exact in a run of the checks if and only if no wrong bit is in its way.**
    Behind a members-only loop that ended, the checks end; each answer is right, and an address is withheld
    exactly when every path to it goes through a blocked group, just when each suppressed address that has
    a path has one past addresses without `STATUS_NO_ROOT_PATH` when it is asked about. -/
theorem withheldLoop_exact_iff (U : Finset Nat) (groups : List Nat) (h : AddrHeap)
    (hgraph : AddrGraph U groups h) (depth : Nat) (hdepth : U.card < depth) (qs : List Query) (t : Painted)
    (hmemonly : memonlyLoop depth groups ⟨h, 1⟩ = (qs, .ok t)) (addrs : List Nat)
    (haddrs : ∀ e ∈ addrs, e ∈ U) :
    ∃ asked u, withheldLoop depth addrs t = .ok (asked, u) ∧ asked.map Prod.fst = addrs ∧
      (Exact t asked ↔ ∀ q ∈ asked, (t.heap q.1).eAddrLdapFlags.ldapSupressed = true →
        RootPath t.heap q.1 → RootOpen q.2.1.heap q.1) := by
  have hclosed₀ : SupressClosed h := fun x hx => by rw [hgraph.unsupressed] at hx; cases hx
  obtain ⟨hinv, hkept, hclosed, hdone⟩ :=
    memonlyLoop_done hgraph.expanded hdepth groups _ _ _ (.start hgraph.expanded) hgraph.within hclosed₀ hmemonly
  have hun : Unchecked t.heap := hkept.unchecked hgraph.unchecked
  have hparents : ParentsIn U t.heap := fun x hx p hp => hgraph.parents x hx p (by rwa [← hkept.parents])
  obtain ⟨asked, u, hrun, hmap, hall⟩ :=
    withheldLoop_spec hun hparents hdepth addrs t (.start hun hinv.fresh) haddrs
  refine ⟨asked, u, hrun, hmap, fun hexact q hq hs hpath => ?_, fun hopen => ?_⟩
  · by_contra hno
    have htrue := (hall q hq).iff.mpr ⟨hs, hno⟩
    rw [(hexact.answers q hq hs).mpr hpath] at htrue
    cases htrue
  · have hanswers : ∀ q ∈ asked, (t.heap q.1).eAddrLdapFlags.ldapSupressed = true →
        (q.2.2 = true ↔ ¬ RootPath t.heap q.1) := by
      intro q hq hs
      rw [(hall q hq).iff]
      exact ⟨fun ⟨_, hno⟩ hpath => hno (hopen q hq hs hpath),
        fun hno => ⟨hs, fun ho => hno (ho.start hun (hall q hq).inv)⟩⟩
    refine ⟨fun q hq hs => ?_, fun q hq hfree => ?_⟩
    · rw [← Bool.not_eq_true, hanswers q hq hs, not_not]
    · by_cases hs : (t.heap q.1).eAddrLdapFlags.ldapSupressed = true
      · exact hanswers q hq hs
      · -- no flagged group hides an address that is not suppressed
        have hmem : q.1 ∈ U := haddrs _ (hmap ▸ List.mem_map_of_mem hq)
        have hrooted : Rooted t.heap q.1 := (hgraph.rooted q.1 hmem).congr hkept.parents
        have hpath := ((hrooted.cases (fun x p hp => by
          rw [hkept.parents] at hp
          rw [hkept.children]
          exact hgraph.mirrored x p hp) (fun x hx => hgraph.flagged x (hkept.memonly x hx)) hclosed
            hdone).resolve_left (by simp [hfree])).resolve_left hs
        exact iff_of_false (fun htrue => hs ((hall q hq).iff.mp htrue).1) fun hno => hno hpath

/-- Where no address that has a path leads back to itself over parents, every answer is right. -/
theorem withheldLoop_right_of_acyclic (hun : Unchecked h₀) (hparents : ParentsIn U h₀) (hdepth : U.card < depth)
    (hacyclic : RootAcyclic h₀) {color : Nat} (hfresh : ∀ x, (h₀ x).eAddrAntiLoop < color)
    (haddrs : ∀ e ∈ addrs, e ∈ U) :
    ∃ asked u, withheldLoop depth addrs ⟨h₀, color⟩ = .ok (asked, u) ∧ ∀ q ∈ asked,
      (h₀ q.1).eAddrLdapFlags.ldapSupressed = true → (q.2.2 = false ↔ RootPath h₀ q.1) := by
  obtain ⟨asked, u, hrun, -, hall⟩ :=
    withheldLoop_spec hun hparents hdepth addrs _ (.start hun hfresh) haddrs
  refine ⟨asked, u, hrun, fun q hq hs => ?_⟩
  have hiff := (hall q hq).iff
  rw [← Bool.not_eq_true, hiff]
  constructor
  · intro hno
    by_contra hpath
    exact hno ⟨hs, fun ho => hpath (ho.start hun (hall q hq).inv)⟩
  · exact fun hpath hblocked => hblocked.2 (hpath.opened hun (hall q hq).inv hacyclic)

/-! A blocked group with one member, which is an original recipient too; the member and a second address
expand to each other. -/

def recipientAddr (parents : List (Option Nat)) (children : List Nat) (memonly : Bool) : ExpAddr :=
  { ExpAddr.init "list@us.example".toList .email [] 0 none with
    eAddrLdapFlags := { LdapFlags.none with ldapMemonly := memonly }
    eAddrParents := parents
    eAddrChildren := children }

/-- `0` is the group. -/
def blockedLists : AddrHeap
  | 0 => recipientAddr [none] [1] true
  | 1 => recipientAddr [some 2, some 0, none] [2] false
  | 2 => recipientAddr [some 1] [1] false
  | _ => recipientAddr [] [] false

/-- The three addresses when the members-only loop is done with the group. -/
def blockedEnd : Painted :=
  match (memonlyLoop 4 [0] ⟨blockedLists, 1⟩).2 with
  | .ok t => t
  | .error _ => ⟨blockedLists, 1⟩

theorem memonlyLoop_blockedLists :
    memonlyLoop 4 [0] ⟨blockedLists, 1⟩ = ((memonlyLoop 4 [0] ⟨blockedLists, 1⟩).1, .ok blockedEnd) := rfl

theorem addrGraph_blockedLists : AddrGraph (Finset.range 3) [0] blockedLists where
  expanded :=
    { closed := by decide
      uncolored := fun x => by unfold blockedLists; split <;> rfl
      unasked := fun x => by unfold blockedLists; split <;> rfl }
  parents := by
    intro x hx p hp
    have hall : ∀ x ∈ Finset.range 3, ∀ q ∈ (blockedLists x).eAddrParents, ∀ p ∈ q, p ∈ Finset.range 3 := by
      decide
    exact hall x hx _ hp p rfl
  mirrored := by
    intro x p hp
    match x with
    | 0 => simp [blockedLists, recipientAddr] at hp
    | 1 =>
      obtain rfl | rfl : p = 2 ∨ p = 0 := by simpa [blockedLists, recipientAddr] using hp
      · decide
      · decide
    | 2 =>
      obtain rfl : p = 1 := by simpa [blockedLists, recipientAddr] using hp
      decide
    | n + 3 => simp [blockedLists, recipientAddr] at hp
  rooted := by
    have h1 : Rooted blockedLists 1 := .root (by decide)
    intro x hx
    match x with
    | 0 => exact .root (by decide)
    | 1 => exact h1
    | 2 => exact .link (p := 1) (by decide) h1
    | n + 3 => exact absurd (Finset.mem_range.mp hx) (by omega)
  within := by decide
  flagged x hx := by
    match x with
    | 0 => decide
    | 1 => cases hx
    | 2 => cases hx
    | n + 3 => cases hx
  unsupressed x := by unfold blockedLists; split <;> rfl
  unchecked x := by unfold blockedLists; split <;> exact ⟨rfl, rfl⟩

theorem withheldLoop_exact_iff_blocked :
    ∃ asked u, withheldLoop 4 [0, 1, 2] blockedEnd = .ok (asked, u) ∧ asked.map Prod.fst = [0, 1, 2] ∧
      (Exact blockedEnd asked ↔ ∀ q ∈ asked, (blockedEnd.heap q.1).eAddrLdapFlags.ldapSupressed = true →
        RootPath blockedEnd.heap q.1 → RootOpen q.2.1.heap q.1) :=
  withheldLoop_exact_iff (Finset.range 3) [0] blockedLists addrGraph_blockedLists 4 (by decide) _ blockedEnd
    memonlyLoop_blockedLists [0, 1, 2] (by decide)

/-- The second address has a path over the member, and it is withheld. -/
theorem withheldLoop_not_exact :
    memonlyLoop 4 [0] ⟨blockedLists, 1⟩ = ((memonlyLoop 4 [0] ⟨blockedLists, 1⟩).1, .ok blockedEnd) ∧
    ∃ asked u, withheldLoop 4 [0, 1, 2] blockedEnd = .ok (asked, u) ∧
      ∃ q ∈ asked, q.1 = 2 ∧ q.2.2 = true ∧ RootPath blockedEnd.heap 2 := by
  have hpath : RootPath blockedEnd.heap 2 :=
    .link (p := 1) rfl (by decide) (.root rfl (by decide))
  have hrun : (withheldLoop 4 [0, 1, 2] blockedEnd).map (fun r => r.1.map fun q => (q.1, q.2.2)) =
      .ok [(0, false), (1, false), (2, true)] := by rfl
  refine ⟨rfl, ?_⟩
  cases hcase : withheldLoop 4 [0, 1, 2] blockedEnd with
  | error halt =>
    rw [hcase] at hrun
    cases hrun
  | ok r =>
    obtain ⟨asked, u⟩ := r
    rw [hcase] at hrun
    have hmap : (asked.map fun q => (q.1, q.2.2)) = [(0, false), (1, false), (2, true)] := by
      simpa [Except.map] using hrun
    have hmem : (2, true) ∈ asked.map fun q => (q.1, q.2.2) := by rw [hmap]; decide
    obtain ⟨q, hq, heq⟩ := List.mem_map.mp hmem
    obtain ⟨haddr, hwithheld⟩ := Prod.mk.inj heq
    exact ⟨asked, u, rfl, q, hq, haddr, hwithheld, hpath⟩

end Simta
