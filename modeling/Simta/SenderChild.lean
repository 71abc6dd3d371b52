import Simta.Memonly

/-!
# The search for the sender

`sender_is_child` over a run of the members-only loop.  The search is that of `Lib.Search`: the colour
marks, the bits `STATUS_EMAIL_SENDER` and `STATUS_NO_EMAIL_SENDER` are its memos.

* `SenderBelow` — the sender can be reached over children;
* `SenderOpen` — it can be reached past addresses that carry neither bit;
* `senderIsChild_iff` — the answer is the second, read on the heap before the call.
-/

set_option autoImplicit false

namespace Simta

/-! ## What the writes leave alone -/

section Writes

variable {h : AddrHeap} {color e x : Nat} {f : LdapFlags → LdapFlags}

@[simp] theorem paint_children : (paint color e h x).eAddrChildren = (h x).eAddrChildren := by
  unfold paint
  exact AddrHeap.write_field ExpAddr.eAddrChildren (by intro a; rfl) e h x

@[simp] theorem paint_parents : (paint color e h x).eAddrParents = (h x).eAddrParents := by
  unfold paint
  exact AddrHeap.write_field ExpAddr.eAddrParents (by intro a; rfl) e h x

@[simp] theorem paint_flags : (paint color e h x).eAddrLdapFlags = (h x).eAddrLdapFlags := by
  unfold paint
  exact AddrHeap.write_field ExpAddr.eAddrLdapFlags (by intro a; rfl) e h x

theorem paint_antiLoop :
    (paint color e h x).eAddrAntiLoop = if x = e then color else (h x).eAddrAntiLoop := by
  unfold paint
  split
  · rename_i hx
    subst hx
    rw [AddrHeap.write_self]
  · rename_i hx
    rw [AddrHeap.write_of_ne _ _ hx]

@[simp] theorem setFlags_children : (setFlags f e h x).eAddrChildren = (h x).eAddrChildren := by
  unfold setFlags
  exact AddrHeap.write_field ExpAddr.eAddrChildren (by intro a; rfl) e h x

@[simp] theorem setFlags_parents : (setFlags f e h x).eAddrParents = (h x).eAddrParents := by
  unfold setFlags
  exact AddrHeap.write_field ExpAddr.eAddrParents (by intro a; rfl) e h x

@[simp] theorem setFlags_antiLoop : (setFlags f e h x).eAddrAntiLoop = (h x).eAddrAntiLoop := by
  unfold setFlags
  exact AddrHeap.write_field ExpAddr.eAddrAntiLoop (by intro a; rfl) e h x

theorem setFlags_flags :
    (setFlags f e h x).eAddrLdapFlags = if x = e then f (h x).eAddrLdapFlags else (h x).eAddrLdapFlags := by
  unfold setFlags
  split
  · rename_i hx
    subst hx
    rw [AddrHeap.write_self]
  · rename_i hx
    rw [AddrHeap.write_of_ne _ _ hx]

end Writes

/-! ## The search -/

/-- The bits of an address that `sender_is_child` goes by. -/
def senderMemo (f : LdapFlags) : Option Bool :=
  if f.emailSender then some true else if f.noEmailSender then some false else none

/-- `sender_is_child` as a search. -/
def senderSearch (color : Nat) : Searching Nat AddrHeap where
  succ h v := (h v).eAddrChildren.map some
  seen h v := decide ((h v).eAddrAntiLoop = color)
  mark := paint color
  known h v := senderMemo (h v).eAddrLdapFlags
  learn v b := setFlags (fun f =>
    if b then { f with emailSender := true } else { f with noEmailSender := true }) v

theorem senderSearch_lawful (color : Nat) : (senderSearch color).Lawful where
  succ_mark v s := by funext w; simp [senderSearch]
  succ_learn v b s := by funext w; simp [senderSearch]
  seen_mark v s w := by
    simp only [senderSearch, decide_eq_true_iff, paint_antiLoop]
    split <;> simp_all
  seen_learn v b s := by funext w; simp [senderSearch]
  known_mark v s := by funext w; simp [senderSearch]
  known_learn v b s hk := by
    simp only [senderSearch, setFlags_flags, if_pos] at hk ⊢
    unfold senderMemo at hk ⊢
    cases b <;> grind
  known_learn_of_ne v b s w hw := by simp only [senderSearch, setFlags_flags, if_neg hw]

theorem senderLoop_eq {color : Nat} {below : List Nat → AddrHeap → Option (Bool × AddrHeap)}
    {below' : List (Option Nat) → AddrHeap → Option (Bool × AddrHeap)}
    (hbelow : ∀ l h, below l h = below' (l.map some) h) (l : List Nat) (h : AddrHeap) :
    senderLoop color below l h = (senderSearch color).visitAll below' (l.map some) h := by
  induction l generalizing h with
  | nil => rfl
  | cons e rest ih =>
    rw [senderLoop, List.map_cons, Searching.visitAll, Searching.visit]
    simp only [senderSearch, decide_eq_true_iff, senderMemo] at ih ⊢
    split
    · exact ih h
    · split
      · rfl
      · split
        · exact ih _
        · simp only [hbelow]
          cases below' ((h e).eAddrChildren.map some) (paint color e h) with
          | none => rfl
          | some r =>
            obtain ⟨b, h'⟩ := r
            cases b with
            | true => rfl
            | false => exact ih _

theorem senderIsChild_eq (color depth : Nat) (l : List Nat) (h : AddrHeap) :
    senderIsChild color depth l h = (senderSearch color).search depth (l.map some) h := by
  induction depth generalizing l h with
  | zero => rfl
  | succ depth ih => exact senderLoop_eq ih l h

/-! ## What it looks for -/

/-- An address equal to the sender can be reached from this one over children. -/
inductive SenderBelow (h : AddrHeap) : Nat → Prop
  | here {e : Nat} (hsender : (h e).eAddrLdapFlags.emailSender = true) : SenderBelow h e
  | child {e c : Nat} (hc : c ∈ (h e).eAddrChildren) (hbelow : SenderBelow h c) : SenderBelow h e

/-- An address with `STATUS_EMAIL_SENDER` can be reached past addresses without `STATUS_NO_EMAIL_SENDER`. -/
inductive SenderOpen (h : AddrHeap) : Nat → Prop
  | here {e : Nat} (hsender : (h e).eAddrLdapFlags.emailSender = true) : SenderOpen h e
  | child {e c : Nat} (hopen : (h e).eAddrLdapFlags.noEmailSender = false) (hc : c ∈ (h e).eAddrChildren)
      (hbelow : SenderOpen h c) : SenderOpen h e

theorem senderMemo_true {f : LdapFlags} : senderMemo f = some true ↔ f.emailSender = true := by
  unfold senderMemo
  split <;> simp_all

theorem found_iff_senderOpen {color e : Nat} {h : AddrHeap} :
    (senderSearch color).Found h e ↔ SenderOpen h e := by
  constructor
  · intro hf
    induction hf with
    | memo hk => exact .here (senderMemo_true.mp hk)
    | goal _ hg => simp [senderSearch] at hg
    | @step v w hk hw _ ih =>
      refine .child ?_ (by simpa [senderSearch] using hw) ih
      simp only [senderSearch, senderMemo] at hk
      grind
  · intro ho
    induction ho with
    | here hs => exact .memo (senderMemo_true.mpr hs)
    | @child v w ho hc _ ih =>
      by_cases hs : (h v).eAddrLdapFlags.emailSender = true
      · exact .memo (senderMemo_true.mpr hs)
      · refine .step ?_ (by simpa [senderSearch] using hc) ih
        simp [senderSearch, senderMemo, hs, ho]

theorem SenderOpen.senderBelow {h : AddrHeap} {e : Nat} (ho : SenderOpen h e) : SenderBelow h e := by
  induction ho with
  | here hs => exact .here hs
  | child _ hc _ ih => exact .child hc ih

/-- Without a negative bit every way is open. -/
theorem SenderBelow.senderOpen {h : AddrHeap} (hno : ∀ x, (h x).eAddrLdapFlags.noEmailSender = false) {e : Nat}
    (hb : SenderBelow h e) : SenderOpen h e := by
  induction hb with
  | here hs => exact .here hs
  | child hc _ ih => exact .child (hno _) hc ih

/-! ## What the walks change -/

/-- Nothing but the colours, of which the new ones are `color`, and the bit `STATUS_LDAP_SUPRESSED`. -/
def Recolored (color : Nat) (h t : AddrHeap) : Prop :=
  ∀ x, ∃ c b, t x = { h x with eAddrAntiLoop := c, eAddrLdapFlags.ldapSupressed := b } ∧
    (c = (h x).eAddrAntiLoop ∨ c = color) ∧ ((h x).eAddrLdapFlags.ldapSupressed = true → b = true)

namespace Recolored

variable {color : Nat} {h t u : AddrHeap} {x : Nat}

theorem refl : Recolored color h h := fun _ => ⟨_, _, rfl, .inl rfl, id⟩

theorem trans (hht : Recolored color h t) (htu : Recolored color t u) : Recolored color h u := by
  intro x
  obtain ⟨c, b, ht, hc, hb⟩ := hht x
  obtain ⟨c', b', hu, hc', hb'⟩ := htu x
  rw [ht] at hu hc' hb'
  refine ⟨c', b', hu, ?_, fun hs => hb' (hb hs)⟩
  rcases hc' with rfl | rfl
  · exact hc
  · exact .inr rfl

theorem paint (e : Nat) : Recolored color h (paint color e h) := by
  intro x
  by_cases hx : x = e
  · subst hx
    exact ⟨color, _, by rw [Simta.paint, AddrHeap.write_self], .inr rfl, id⟩
  · exact ⟨_, _, by rw [Simta.paint, AddrHeap.write_of_ne _ _ hx], .inl rfl, id⟩

theorem supress (e : Nat) : Recolored color h (setFlags (fun f => { f with ldapSupressed := true }) e h) := by
  intro x
  by_cases hx : x = e
  · subst hx
    exact ⟨_, true, by rw [setFlags, AddrHeap.write_self], .inl rfl, fun _ => rfl⟩
  · exact ⟨_, _, by rw [setFlags, AddrHeap.write_of_ne _ _ hx], .inl rfl, id⟩

theorem children (h' : Recolored color h t) : (t x).eAddrChildren = (h x).eAddrChildren := by
  obtain ⟨c, b, ht, -⟩ := h' x
  rw [ht]

theorem parents (h' : Recolored color h t) : (t x).eAddrParents = (h x).eAddrParents := by
  obtain ⟨c, b, ht, -⟩ := h' x
  rw [ht]

theorem emailSender (h' : Recolored color h t) :
    (t x).eAddrLdapFlags.emailSender = (h x).eAddrLdapFlags.emailSender := by
  obtain ⟨c, b, ht, -⟩ := h' x
  rw [ht]

theorem memo (h' : Recolored color h t) : senderMemo (t x).eAddrLdapFlags = senderMemo (h x).eAddrLdapFlags := by
  obtain ⟨c, b, ht, -⟩ := h' x
  rw [ht]
  rfl

theorem memonly (h' : Recolored color h t) :
    (t x).eAddrLdapFlags.ldapMemonly = (h x).eAddrLdapFlags.ldapMemonly := by
  obtain ⟨c, b, ht, -⟩ := h' x
  rw [ht]

theorem supressed (h' : Recolored color h t) (hs : (h x).eAddrLdapFlags.ldapSupressed = true) :
    (t x).eAddrLdapFlags.ldapSupressed = true := by
  obtain ⟨c, b, ht, -, hb⟩ := h' x
  rw [ht]
  exact hb hs

theorem antiLoop (h' : Recolored color h t) :
    (t x).eAddrAntiLoop = (h x).eAddrAntiLoop ∨ (t x).eAddrAntiLoop = color := by
  obtain ⟨c, b, ht, hc, -⟩ := h' x
  rw [ht]
  exact hc

theorem seen (h' : Recolored color h t) (hs : (senderSearch color).seen h x = true) :
    (senderSearch color).seen t x = true := by
  simp only [senderSearch, decide_eq_true_iff] at hs ⊢
  rcases h'.antiLoop (x := x) with heq | heq
  · exact heq.trans hs
  · exact heq

end Recolored

theorem SenderBelow.congr {h t : AddrHeap} (hchildren : ∀ x, (t x).eAddrChildren = (h x).eAddrChildren)
    (hsender : ∀ x, (t x).eAddrLdapFlags.emailSender = true → SenderBelow h x) {e : Nat}
    (hb : SenderBelow t e) : SenderBelow h e := by
  induction hb with
  | here hs => exact hsender _ hs
  | child hc _ ih => exact .child (hchildren _ ▸ hc) ih

/-! ## Suppression -/

/-- What suppression comes to: its assertion fails only where the sender lies below. -/
def SupressOutcome (color : Nat) (l : List Nat) (h : AddrHeap) : Except Halt AddrHeap → Prop
  | .ok t => Recolored color h t
  | .error .assertion => ∃ e ∈ l, SenderBelow h e
  | .error .nullDn => False
  | .error .depth => True

theorem Recolored.senderBelow {color : Nat} {h t : AddrHeap} (hht : Recolored color h t) {e : Nat}
    (hb : SenderBelow t e) : SenderBelow h e :=
  hb.congr (fun _ => hht.children) fun _ hy => .here (hht.emailSender ▸ hy)

theorem SupressOutcome.after {color : Nat} {l : List Nat} {h t : AddrHeap} {r : Except Halt AddrHeap}
    (hht : Recolored color h t) (hr : SupressOutcome color l t r) : SupressOutcome color l h r := by
  match r, hr with
  | .ok u, hr => exact hht.trans hr
  | .error .assertion, ⟨e, he, hb⟩ => exact ⟨e, he, hht.senderBelow hb⟩
  | .error .nullDn, hr => exact hr.elim
  | .error .depth, _ => trivial

theorem SupressOutcome.cons {color e : Nat} {l : List Nat} {h : AddrHeap} {r : Except Halt AddrHeap}
    (hr : SupressOutcome color l h r) : SupressOutcome color (e :: l) h r := by
  match r, hr with
  | .ok u, hr => exact hr
  | .error .assertion, ⟨x, hx, hb⟩ => exact ⟨x, List.mem_cons_of_mem _ hx, hb⟩
  | .error .nullDn, hr => exact hr.elim
  | .error .depth, _ => trivial

theorem supressLoop_spec {color : Nat} {below : List Nat → AddrHeap → Except Halt AddrHeap}
    (hbelow : ∀ l h, SupressOutcome color l h (below l h)) (l : List Nat) (h : AddrHeap) :
    SupressOutcome color l h (supressLoop color below l h) := by
  induction l generalizing h with
  | nil => exact .refl
  | cons e rest ih =>
    rw [supressLoop]
    by_cases hsender : (h e).eAddrLdapFlags.emailSender = true
    · rw [if_pos hsender]
      exact ⟨e, List.mem_cons_self, .here hsender⟩
    · rw [if_neg hsender]
      split
      · exact (ih h).cons
      · split
        · exact ((ih _).after (.paint e)).cons
        · have hstep : Recolored color h
              (setFlags (fun f => { f with ldapSupressed := true }) e (paint color e h)) :=
            (Recolored.paint e).trans (.supress e)
          have hspec := hbelow (h e).eAddrChildren
            (setFlags (fun f => { f with ldapSupressed := true }) e (paint color e h))
          generalize setFlags (fun f => { f with ldapSupressed := true }) e (paint color e h) = h₁ at hstep hspec
          generalize below (h e).eAddrChildren h₁ = r at hspec
          match r, hspec with
          | .ok t, hspec => exact ((ih t).after (hstep.trans hspec)).cons
          | .error .assertion, ⟨c, hc, hb⟩ =>
            exact ⟨e, List.mem_cons_self, .child hc (hstep.senderBelow hb)⟩
          | .error .nullDn, hspec => exact hspec.elim
          | .error .depth, _ => trivial

theorem supressAddrs_spec (color depth : Nat) (l : List Nat) (h : AddrHeap) :
    SupressOutcome color l h (supressAddrs color depth l h) := by
  induction depth generalizing l h with
  | zero => trivial
  | succ depth ih => exact supressLoop_spec ih l h

/-- The search of the children by which a walk is measured. -/
theorem recolored_unseen {color : Nat} {h t : AddrHeap} {U : Finset Nat} (hht : Recolored color h t) :
    ((senderSearch color).unseen U t).card ≤ ((senderSearch color).unseen U h).card :=
  Searching.unseen_card_le fun _ => hht.seen

theorem supressLoop_ends {color depth : Nat} {U : Finset Nat}
    {below : List Nat → AddrHeap → Except Halt AddrHeap}
    (hbelow : ∀ l h, SupressOutcome color l h (below l h))
    (hends : ∀ l h, (senderSearch color).Closed U h → (∀ x ∈ l, x ∈ U) →
      ((senderSearch color).unseen U h).card < depth → below l h ≠ .error .depth)
    (l : List Nat) : ∀ h, (senderSearch color).Closed U h → (∀ x ∈ l, x ∈ U) →
      ((senderSearch color).unseen U h).card < depth + 1 → supressLoop color below l h ≠ .error .depth := by
  induction l with
  | nil => exact fun h _ _ _ => by simp [supressLoop]
  | cons e rest ih =>
    intro h hclosed hl hcard
    have hsucc : ∀ {t}, Recolored color h t → (senderSearch color).succ t = (senderSearch color).succ h :=
      fun ht => by
        funext x
        simp only [senderSearch, ht.children]
    have hrest : ∀ {t}, Recolored color h t → supressLoop color below rest t ≠ .error .depth := fun ht =>
      ih _ (hclosed.congr (hsucc ht)) (fun x hx => hl x (List.mem_cons_of_mem _ hx))
        (by have := recolored_unseen (U := U) ht; omega)
    rw [supressLoop]
    split
    · simp
    · split
      · exact hrest .refl
      · rename_i hseen
        split
        · exact hrest (.paint e)
        · have hstep : Recolored color h
              (setFlags (fun f => { f with ldapSupressed := true }) e (paint color e h)) :=
            (Recolored.paint e).trans (.supress e)
          have hlt : ((senderSearch color).unseen U
              (setFlags (fun f => { f with ldapSupressed := true }) e (paint color e h))).card < depth := by
            have hmark := Searching.unseen_mark_card_lt (senderSearch_lawful color) (s := h)
              (hl e List.mem_cons_self) (by simpa [senderSearch] using hseen)
            have hle := recolored_unseen (U := U) (Recolored.supress e : Recolored color (paint color e h) _)
            have hdef : (senderSearch color).mark e h = paint color e h := rfl
            rw [hdef] at hmark
            omega
          have hmem : ∀ x ∈ (h e).eAddrChildren, x ∈ U := fun x hx =>
            hclosed e (hl e List.mem_cons_self) x (List.mem_map_of_mem hx)
          have hspec := hbelow (h e).eAddrChildren
            (setFlags (fun f => { f with ldapSupressed := true }) e (paint color e h))
          have hne := hends (h e).eAddrChildren _ (hclosed.congr (hsucc hstep)) hmem hlt
          generalize setFlags (fun f => { f with ldapSupressed := true }) e (paint color e h) = h₁
            at hstep hspec hne
          split <;> rename_i heq <;> rw [heq] at hspec hne
          · exact hne
          · exact hrest (hstep.trans hspec)

theorem supressAddrs_ends {color : Nat} {U : Finset Nat} (depth : Nat) (l : List Nat) : ∀ h,
    (senderSearch color).Closed U h → (∀ x ∈ l, x ∈ U) → ((senderSearch color).unseen U h).card < depth →
      supressAddrs color depth l h ≠ .error .depth := by
  induction depth generalizing l with
  | zero => exact fun _ _ _ h => absurd h (Nat.not_lt_zero _)
  | succ depth ih => exact supressLoop_ends (supressAddrs_spec color depth) (fun l h => ih l h) l

/-! ## The run -/

/-- The child links of a finite set of addresses, as the expansion has made them: no address has a colour,
    and nothing has been asked of any. -/
structure Expanded (U : Finset Nat) (h : AddrHeap) : Prop where
  closed : ∀ x ∈ U, ∀ c ∈ (h x).eAddrChildren, c ∈ U
  uncolored : ∀ x, (h x).eAddrAntiLoop = 0
  unasked : ∀ x, (h x).eAddrLdapFlags.noEmailSender = false

/-- The sender can be reached from a child of the group. -/
def SenderIn (h : AddrHeap) (g : Nat) : Prop := ∃ c ∈ (h g).eAddrChildren, SenderBelow h c

/-- It can be reached from a child past addresses without `STATUS_NO_EMAIL_SENDER`. -/
def SenderOpenIn (h : AddrHeap) (g : Nat) : Prop := ∃ c ∈ (h g).eAddrChildren, SenderOpen h c

/-- No address from which the sender can be reached leads back to itself. -/
def SenderAcyclic (h : AddrHeap) : Prop :=
  ∀ e, SenderBelow h e → ¬ Relation.TransGen (fun a c => c ∈ (h a).eAddrChildren) e e

/-- How the loop stands between two groups, when it began on `h₀`. -/
structure MemonlyInv (h₀ : AddrHeap) (s : Painted) : Prop where
  fresh : ∀ x, (s.heap x).eAddrAntiLoop < s.loopColor
  memos : ∀ color, (senderSearch color).Descends h₀ s.heap
  right : SenderAcyclic h₀ → ∀ color, (senderSearch color).NoWrong h₀ s.heap

variable {h₀ h t : AddrHeap} {s : Painted} {U : Finset Nat} {color depth g e : Nat} {b : Bool} {l : List Nat}

theorem descends_recolor {c : Nat} (hd : (senderSearch color).Descends h₀ h) :
    (senderSearch c).Descends h₀ h where
  succ := hd.succ
  kept := hd.kept
  yes v hv := found_iff_senderOpen.mpr (found_iff_senderOpen.mp (hd.yes v hv))

theorem descends_congr (hd : (senderSearch color).Descends h₀ h)
    (hchildren : ∀ x, (t x).eAddrChildren = (h x).eAddrChildren)
    (hmemo : ∀ x, senderMemo (t x).eAddrLdapFlags = senderMemo (h x).eAddrLdapFlags) :
    (senderSearch color).Descends h₀ t where
  succ := by
    rw [← hd.succ]
    funext x
    simp only [senderSearch, hchildren]
  kept v hv := (hmemo v).trans (hd.kept v hv)
  yes v hv := hd.yes v ((hmemo v).symm.trans hv)

theorem onCycle_iff : (senderSearch color).OnCycle h e ↔
    Relation.TransGen (fun a c => c ∈ (h a).eAddrChildren) e e := by
  have hedge : (senderSearch color).Edge h = fun a c => c ∈ (h a).eAddrChildren := by
    funext a c
    simp [Searching.Edge, senderSearch]
  rw [Searching.OnCycle, hedge]

theorem MemonlyInv.start (hexp : Expanded U h) : MemonlyInv h ⟨h, 1⟩ where
  fresh x := by simp [hexp.uncolored]
  memos _ := .refl
  right _ color v hv := by
    have hno := hexp.unasked v
    simp only [senderSearch, senderMemo] at hv
    grind

theorem MemonlyInv.children (hinv : MemonlyInv h₀ s) (x : Nat) :
    (s.heap x).eAddrChildren = (h₀ x).eAddrChildren := by
  have hsucc := congrFun (hinv.memos 0).succ x
  exact List.map_injective_iff.mpr (Option.some_injective _) hsucc

theorem MemonlyInv.unseen (hinv : MemonlyInv h₀ s) (x : Nat) :
    (senderSearch s.loopColor).seen s.heap x = false := by
  have := hinv.fresh x
  simp only [senderSearch, decide_eq_false_iff_not]
  omega

/-- A change of neither the children nor the memos, with colours below the next one. -/
theorem MemonlyInv.congr (hinv : MemonlyInv h₀ s) {s' : Painted}
    (hchildren : ∀ x, (s'.heap x).eAddrChildren = (s.heap x).eAddrChildren)
    (hmemo : ∀ x, senderMemo (s'.heap x).eAddrLdapFlags = senderMemo (s.heap x).eAddrLdapFlags)
    (hfresh : ∀ x, (s'.heap x).eAddrAntiLoop < s'.loopColor) : MemonlyInv h₀ s' :=
  ⟨hfresh, fun color => descends_congr (hinv.memos color) hchildren hmemo,
    fun hacyclic color v hv => hinv.right hacyclic color v ((hmemo v).symm.trans hv)⟩

theorem MemonlyInv.ok (hinv : MemonlyInv h₀ s) (g : Nat) : MemonlyInv h₀ ⟨memonlyOk g s.heap, s.loopColor⟩ := by
  refine hinv.congr ?_ ?_ fun x => ?_
  · exact AddrHeap.write_field ExpAddr.eAddrChildren (by intro a; rfl) g s.heap
  · exact AddrHeap.write_field (fun a => senderMemo a.eAddrLdapFlags) (by intro a; rfl) g s.heap
  · have hx : (memonlyOk g s.heap x).eAddrAntiLoop = (s.heap x).eAddrAntiLoop :=
      AddrHeap.write_field ExpAddr.eAddrAntiLoop (by intro a; rfl) g s.heap x
    rw [hx]
    exact hinv.fresh x

/-- **What one call of `sender_is_child` answers and leaves.** -/
theorem senderIsChild_iff (hinv : MemonlyInv h₀ s) (hrun : senderIsChild s.loopColor depth l s.heap = some (b, t)) :
    (b = true ↔ ∃ c ∈ l, SenderOpen s.heap c) ∧ MemonlyInv h₀ ⟨t, s.loopColor + 1⟩ := by
  rw [senderIsChild_eq] at hrun
  constructor
  · rw [Searching.search_iff (senderSearch_lawful _) hinv.unseen hrun]
    unfold Searching.FoundIn
    simp [found_iff_senderOpen]
  · refine ⟨?_, fun color => descends_recolor ((hinv.memos _).search (senderSearch_lawful _) hrun),
      fun hacyclic color v hv hf => ?_⟩
    swap
    · refine (hinv.right hacyclic s.loopColor).search (senderSearch_lawful _) (hinv.memos _) ?_ hinv.unseen
        hrun v hv (found_iff_senderOpen.mpr (found_iff_senderOpen.mp hf))
      intro x hx
      rw [onCycle_iff]
      exact hacyclic x (found_iff_senderOpen.mp hx).senderBelow
    refine Searching.search_preserves (P := fun h => ∀ x, (h x).eAddrAntiLoop < s.loopColor + 1) ?_ ?_ hrun
      fun x => by have := hinv.fresh x; omega
    · intro v h hh x
      simp only [senderSearch, paint_antiLoop]
      split
      · omega
      · exact hh x
    · intro v b h hh x
      simp only [senderSearch, setFlags_antiLoop]
      exact hh x

theorem closed_of_inv (hexp : Expanded U h₀) (hinv : MemonlyInv h₀ s) :
    (senderSearch color).Closed U s.heap := by
  intro v hv w hw
  simp only [senderSearch, List.mem_map, Option.some.injEq, exists_eq_right] at hw
  rw [hinv.children] at hw
  exact hexp.closed v hv w hw

theorem unseen_card_le_card : ((senderSearch color).unseen U h).card ≤ U.card := Finset.card_filter_le _ _

theorem senderIsChild_total (hexp : Expanded U h₀) (hinv : MemonlyInv h₀ s) (hl : ∀ x ∈ l, x ∈ U)
    (hdepth : U.card < depth) : ∃ r, senderIsChild s.loopColor depth l s.heap = some r := by
  rw [senderIsChild_eq]
  refine Searching.search_total (senderSearch_lawful _) depth _ _ (closed_of_inv hexp hinv) ?_
    (Nat.lt_of_le_of_lt unseen_card_le_card hdepth)
  intro w hw
  exact hl w (by simpa using hw)

theorem SenderOpen.start (hinv : MemonlyInv h₀ s) (ho : SenderOpen s.heap e) : SenderBelow h₀ e :=
  SenderOpen.senderBelow (found_iff_senderOpen.mp
    ((hinv.memos 0).found (found_iff_senderOpen.mpr ho)))

theorem SenderBelow.start (hinv : MemonlyInv h₀ s) (hb : SenderBelow s.heap e) : SenderBelow h₀ e :=
  hb.congr hinv.children fun _ hx => SenderOpen.start hinv (.here hx)

theorem SenderBelow.opened (hexp : Expanded U h₀) (hinv : MemonlyInv h₀ s) (hacyclic : SenderAcyclic h₀)
    (hb : SenderBelow h₀ e) : SenderOpen s.heap e :=
  found_iff_senderOpen.mp (((hinv.memos 0).found_iff (hinv.right hacyclic 0)).mpr
    (found_iff_senderOpen.mpr (hb.senderOpen hexp.unasked)))

/-- The suppression of what hangs below a group keeps the invariant, and its assertion fails only where the
    search for the sender should have succeeded. -/
theorem memonlyAnswer_spec (hexp : Expanded U h₀) (hinv : MemonlyInv h₀ s) (hg : g ∈ U) (hdepth : U.card < depth) :
    match memonlyAnswer depth g b s with
    | .ok t => MemonlyInv h₀ t
    | .error halt => halt = .assertion ∧ b = false ∧ SenderIn h₀ g := by
  unfold memonlyAnswer
  cases b with
  | true => exact hinv.ok g
  | false =>
    have hflagged : MemonlyInv h₀ ⟨setFlags (fun f => { f with ldapSupressor := true }) g s.heap, s.loopColor⟩ := by
      refine hinv.congr (fun x => setFlags_children) ?_ fun x => ?_
      · exact AddrHeap.write_field (fun a => senderMemo a.eAddrLdapFlags) (by intro a; rfl) g s.heap
      · rw [setFlags_antiLoop]
        exact hinv.fresh x
    rw [if_neg Bool.false_ne_true]
    dsimp only
    generalize setFlags (fun f => { f with ldapSupressor := true }) g s.heap = h at hflagged
    have hchildren : ∀ x ∈ (h g).eAddrChildren, x ∈ U := fun x hx =>
      hexp.closed g hg x (by rwa [← hflagged.children])
    have hspec := supressAddrs_spec s.loopColor depth (h g).eAddrChildren h
    have hends : supressAddrs s.loopColor depth (h g).eAddrChildren h ≠ .error .depth :=
      supressAddrs_ends depth _ h (closed_of_inv hexp hflagged) hchildren
        (Nat.lt_of_le_of_lt unseen_card_le_card hdepth)
    generalize supressAddrs s.loopColor depth (h g).eAddrChildren h = r at hspec hends
    match r, hspec with
    | .ok t, hspec =>
      refine hflagged.congr (fun x => hspec.children) (fun x => hspec.memo) fun x => ?_
      have := hflagged.fresh x
      dsimp only at this ⊢
      rcases hspec.antiLoop (x := x) with heq | heq <;> omega
    | .error .assertion, ⟨c, hc, hb⟩ =>
      refine ⟨rfl, rfl, c, ?_, hb.start hflagged⟩
      rwa [← hflagged.children]
    | .error .nullDn, hspec => exact hspec.elim
    | .error .depth, _ => exact absurd rfl hends

/-- The answer of a query is what the bits of the heap it was asked on say. -/
structure Asked (h₀ : AddrHeap) (q : Query) : Prop where
  answer : q.answer = true ↔ SenderOpenIn q.before q.addr
  sound : SenderOpenIn q.before q.addr → SenderIn h₀ q.addr
  right : SenderAcyclic h₀ → SenderIn h₀ q.addr → SenderOpenIn q.before q.addr

/-- **The members-only loop ends**, each of its queries is answered by the bits it finds, and the assertion
    fails only behind a query that was answered wrong. -/
theorem memonlyLoop_spec (hexp : Expanded U h₀) (hdepth : U.card < depth) (groups : List Nat) :
    ∀ s, MemonlyInv h₀ s → (∀ g ∈ groups, g ∈ U) →
      (∀ q ∈ (memonlyLoop depth groups s).1, Asked h₀ q) ∧
      (memonlyLoop depth groups s).2 ≠ .error .depth ∧
      ((memonlyLoop depth groups s).2 = .error .assertion →
        ∃ q ∈ (memonlyLoop depth groups s).1, q.answer = false ∧ SenderIn h₀ q.addr) := by
  induction groups with
  | nil => exact fun s _ _ => ⟨by simp [memonlyLoop], by simp [memonlyLoop], by simp [memonlyLoop]⟩
  | cons g rest ih =>
    intro s hinv hgroups
    have hg : g ∈ U := hgroups g List.mem_cons_self
    have hrest : ∀ x ∈ rest, x ∈ U := fun x hx => hgroups x (List.mem_cons_of_mem _ hx)
    have hchildren : ∀ x ∈ (s.heap g).eAddrChildren, x ∈ U := fun x hx =>
      hexp.closed g hg x (by rwa [← hinv.children])
    unfold memonlyLoop
    cases hperm : parentPermitted s.heap g with
    | error halt =>
      obtain rfl := parentPermitted_error hperm
      exact ⟨by simp, by simp, by simp⟩
    | ok p =>
      cases p with
      | some dn => exact ih _ (hinv.ok g) hrest
      | none =>
        obtain ⟨⟨answer, h⟩, hrun⟩ := senderIsChild_total hexp hinv hchildren hdepth
        obtain ⟨hanswer, hinv'⟩ := senderIsChild_iff hinv hrun
        have hasked : Asked h₀ ⟨g, s.heap, answer⟩ := by
          refine ⟨hanswer, fun ⟨c, hc, ho⟩ => ⟨c, by rwa [← hinv.children], ho.start hinv⟩, ?_⟩
          rintro hacyclic ⟨c, hc, hb⟩
          exact ⟨c, by rwa [hinv.children], hb.opened hexp hinv hacyclic⟩
        have hstep := memonlyAnswer_spec (b := answer) hexp hinv' hg hdepth
        simp only [hrun]
        cases hres : memonlyAnswer depth g answer ⟨h, s.loopColor + 1⟩ with
        | error halt =>
          rw [hres] at hstep
          obtain ⟨rfl, hfalse, hin⟩ := hstep
          exact ⟨by simpa using hasked, by simp, fun _ => ⟨_, List.mem_singleton_self _, hfalse, hin⟩⟩
        | ok t =>
          rw [hres] at hstep
          obtain ⟨hall, hdepth', hassert⟩ := ih t hstep hrest
          refine ⟨by simpa using ⟨hasked, hall⟩, hdepth', fun h => ?_⟩
          obtain ⟨q, hq, hwrong⟩ := hassert h
          exact ⟨q, List.mem_cons_of_mem _ hq, hwrong⟩

/-- **`sender_is_child` is exact in a run of the members-only loop if and only if no wrong bit is in its
    way.**  The loop ends; all its queries are answered right and the assertion of `supress_addrs` never
    fails just when, before each query, a sender that can be reached at all can be reached past addresses
    without `STATUS_NO_EMAIL_SENDER`. -/
theorem memonlyLoop_exact_iff (U : Finset Nat) (h : AddrHeap) (hexp : Expanded U h) (groups : List Nat)
    (hgroups : ∀ g ∈ groups, g ∈ U) (depth : Nat) (hdepth : U.card < depth) :
    (memonlyLoop depth groups ⟨h, 1⟩).2 ≠ .error .depth ∧
    ((∀ q ∈ (memonlyLoop depth groups ⟨h, 1⟩).1, q.answer = true ↔ SenderIn h q.addr) ∧
        (memonlyLoop depth groups ⟨h, 1⟩).2 ≠ .error .assertion ↔
      ∀ q ∈ (memonlyLoop depth groups ⟨h, 1⟩).1, SenderIn h q.addr → SenderOpenIn q.before q.addr) := by
  obtain ⟨hasked, hends, hassert⟩ := memonlyLoop_spec hexp hdepth groups _ (.start hexp) hgroups
  refine ⟨hends, fun hexact q hq hin => ?_, fun hopen => ⟨fun q hq => ?_, fun he => ?_⟩⟩
  · exact (hasked q hq).answer.mp ((hexact.1 q hq).mpr hin)
  · rw [(hasked q hq).answer]
    exact ⟨(hasked q hq).sound, hopen q hq⟩
  · obtain ⟨q, hq, hfalse, hin⟩ := hassert he
    have htrue := (hasked q hq).answer.mpr (hopen q hq hin)
    rw [hfalse] at htrue
    cases htrue

/-- Where no address that leads to the sender lies on a cycle, every answer is right. -/
theorem memonlyLoop_exact_of_acyclic (hexp : Expanded U h) {groups : List Nat} (hgroups : ∀ g ∈ groups, g ∈ U)
    (hdepth : U.card < depth) (hacyclic : SenderAcyclic h) :
    (∀ q ∈ (memonlyLoop depth groups ⟨h, 1⟩).1, q.answer = true ↔ SenderIn h q.addr) ∧
      (memonlyLoop depth groups ⟨h, 1⟩).2 ≠ .error .assertion := by
  obtain ⟨hasked, -, hassert⟩ := memonlyLoop_spec hexp hdepth groups _ (.start hexp) hgroups
  have hexact : ∀ q ∈ (memonlyLoop depth groups ⟨h, 1⟩).1, q.answer = true ↔ SenderIn h q.addr := by
    intro q hq
    rw [(hasked q hq).answer]
    exact ⟨(hasked q hq).sound, (hasked q hq).right hacyclic⟩
  refine ⟨hexact, fun he => ?_⟩
  obtain ⟨q, hq, hfalse, hin⟩ := hassert he
  have htrue := (hexact q hq).mpr hin
  rw [hfalse] at htrue
  cases htrue

/-! Two groups: the first has a member from which both the sender and a second address can be reached, the
second address leads back to that member, and it is the one member of the second group. -/

/-- An address with the given children. -/
def listAddr (children : List Nat) (sender : Bool) : ExpAddr :=
  { ExpAddr.init "list@us.example".toList .email [] 0 none with
    eAddrLdapFlags := { LdapFlags.none with emailSender := sender }
    eAddrChildren := children }

/-- `0` and `1` are the groups, `4` is the sender. -/
def cyclicLists : AddrHeap
  | 0 => listAddr [2] false
  | 1 => listAddr [3] false
  | 2 => listAddr [3, 4] false
  | 3 => listAddr [2] false
  | 4 => listAddr [] true
  | _ => listAddr [] false

theorem expanded_cyclicLists : Expanded (Finset.range 5) cyclicLists where
  closed := by decide
  uncolored x := by unfold cyclicLists; split <;> rfl
  unasked x := by unfold cyclicLists; split <;> rfl

theorem memonlyLoop_exact_iff_cyclic :
    (memonlyLoop 6 [0, 1] ⟨cyclicLists, 1⟩).2 ≠ .error .depth ∧
    ((∀ q ∈ (memonlyLoop 6 [0, 1] ⟨cyclicLists, 1⟩).1, q.answer = true ↔ SenderIn cyclicLists q.addr) ∧
        (memonlyLoop 6 [0, 1] ⟨cyclicLists, 1⟩).2 ≠ .error .assertion ↔
      ∀ q ∈ (memonlyLoop 6 [0, 1] ⟨cyclicLists, 1⟩).1,
        SenderIn cyclicLists q.addr → SenderOpenIn q.before q.addr) :=
  memonlyLoop_exact_iff (Finset.range 5) cyclicLists expanded_cyclicLists [0, 1] (by decide) 6 (by decide)

/-- The second group is asked about in vain, and its suppression then aborts the process. -/
theorem memonlyLoop_not_exact :
    (∃ q ∈ (memonlyLoop 6 [0, 1] ⟨cyclicLists, 1⟩).1, q.addr = 1 ∧ q.answer = false ∧ SenderIn cyclicLists 1) ∧
      (memonlyLoop 6 [0, 1] ⟨cyclicLists, 1⟩).2 = .error .assertion := by
  have hin : SenderIn cyclicLists 1 :=
    ⟨3, by decide, .child (c := 2) (by decide) (.child (c := 4) (by decide) (.here rfl))⟩
  have hqueries : ((memonlyLoop 6 [0, 1] ⟨cyclicLists, 1⟩).1.map fun q => (q.addr, q.answer)) =
      [(0, true), (1, false)] := by decide
  have hmem : (1, false) ∈ (memonlyLoop 6 [0, 1] ⟨cyclicLists, 1⟩).1.map fun q => (q.addr, q.answer) := by
    rw [hqueries]
    decide
  obtain ⟨q, hq, heq⟩ := List.mem_map.mp hmem
  obtain ⟨haddr, hanswer⟩ := Prod.mk.inj heq
  exact ⟨⟨q, hq, haddr, hanswer, hin⟩, rfl⟩

end Simta
