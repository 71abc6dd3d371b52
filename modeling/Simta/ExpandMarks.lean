import Simta.SenderChild

/-!
# What the walks over the links leave alone

The members-only loop and the suppression check write colours and flags only, and the former also frees the
moderated envelope of a group.

* `ExpAddr.unmarked`, `withheld_unmarked` — an address but for what the suppression check writes;
* `ExpAddr.plain`, `memonlyLoop_plain` — an address but for what the members-only loop writes;
* `memonlyLoop_supressor` — the groups that suppress are groups of the loop.
-/

set_option autoImplicit false

namespace Simta

variable {h t : AddrHeap} {s u : Painted} {color depth e g : Nat} {l : List Nat} {b : Bool}

/-! ## The suppression check -/

/-- An address but for its colour and the bits of `unblocked_path_to_root`. -/
def ExpAddr.unmarked (a : ExpAddr) : ExpAddr :=
  { a with
    eAddrLdapFlags.rootPath := false
    eAddrLdapFlags.noRootPath := false
    eAddrAntiLoop := 0 }

/-- A heap whose addresses are the same but for the marks of the check. -/
def SameMarked (h t : AddrHeap) : Prop := ∀ x, (t x).unmarked = (h x).unmarked

theorem SameMarked.refl (h : AddrHeap) : SameMarked h h := fun _ => rfl

theorem SameMarked.trans {k : AddrHeap} (hht : SameMarked h t) (htk : SameMarked t k) : SameMarked h k :=
  fun x => (htk x).trans (hht x)

theorem sameMarked_paint (color e : Nat) (h : AddrHeap) : SameMarked h (paint color e h) :=
  AddrHeap.write_field ExpAddr.unmarked (by intro a; rfl) e h

theorem sameMarked_setFlags {f : LdapFlags → LdapFlags} (hf : ∀ a : ExpAddr,
    ({ a with eAddrLdapFlags := f a.eAddrLdapFlags } : ExpAddr).unmarked = a.unmarked) (e : Nat) (h : AddrHeap) :
    SameMarked h (setFlags f e h) :=
  AddrHeap.write_field ExpAddr.unmarked hf e h

theorem parentLoop_sameMarked {below : Nat → AddrHeap → Option (Bool × AddrHeap)}
    (hbelow : ∀ e h b t, below e h = some (b, t) → SameMarked h t) (parents : List (Option Nat)) :
    ∀ h, parentLoop below parents h = some (b, t) → SameMarked h t := by
  induction parents with
  | nil =>
    intro h hrun
    cases hrun
    exact .refl _
  | cons p rest ih =>
    intro h hrun
    cases p with
    | none =>
      cases hrun
      exact .refl _
    | some e =>
      rw [parentLoop] at hrun
      split at hrun
      · cases hrun
      · rename_i hsome
        cases hrun
        exact hbelow _ _ _ _ hsome
      · rename_i hsome
        exact (hbelow _ _ _ _ hsome).trans (ih _ hrun)

theorem unblockedPathToRoot_sameMarked (depth : Nat) :
    ∀ e h b t, unblockedPathToRoot color depth e h = some (b, t) → SameMarked h t := by
  induction depth with
  | zero =>
    intro e h b t hrun
    cases hrun
  | succ depth ih =>
    intro e h b t hrun
    have hpaint := sameMarked_paint color e h
    rw [unblockedPathToRoot] at hrun
    split at hrun
    · cases hrun
      exact .refl h
    · split at hrun
      · cases hrun
        exact hpaint
      · split at hrun
        · cases hrun
          exact hpaint
        · split at hrun
          · cases hrun
            exact hpaint
          · split at hrun
            · cases hrun
            · rename_i hloop
              cases hrun
              have hup := parentLoop_sameMarked ih _ _ hloop
              exact (hpaint.trans hup).trans (sameMarked_setFlags (by intro a; rfl) e _)
            · rename_i hloop
              cases hrun
              have hup := parentLoop_sameMarked ih _ _ hloop
              exact (hpaint.trans hup).trans (sameMarked_setFlags (by intro a; rfl) e _)

/-- **The suppression check** writes marks only. -/
theorem withheld_sameMarked (hrun : withheld depth e s = .ok (b, u)) : SameMarked s.heap u.heap := by
  unfold withheld at hrun
  split at hrun
  · split at hrun
    · cases hrun
    · rename_i hpath
      cases hrun
      exact unblockedPathToRoot_sameMarked depth _ _ _ _ hpath
  · cases hrun
    exact .refl _

/-! ## The members-only loop -/

/-- An address but for its colour, its flags and its moderated envelope. -/
def ExpAddr.plain (a : ExpAddr) : ExpAddr :=
  { a with
    eAddrLdapFlags := LdapFlags.none
    eAddrAntiLoop := 0
    eAddrEnvModerated := none }

/-- That, with `STATUS_LDAP_SUPRESSOR`. -/
def ExpAddr.plainSupressor (a : ExpAddr) : ExpAddr × Bool := (a.plain, a.eAddrLdapFlags.ldapSupressor)

theorem plainSupressor_paint (x : Nat) : (paint color e h x).plainSupressor = (h x).plainSupressor :=
  AddrHeap.write_field ExpAddr.plainSupressor (by intro a; rfl) e h x

theorem plainSupressor_setFlags {f : LdapFlags → LdapFlags} (hf : ∀ flags, (f flags).ldapSupressor = flags.ldapSupressor)
    (x : Nat) : (setFlags f e h x).plainSupressor = (h x).plainSupressor := by
  refine AddrHeap.write_field ExpAddr.plainSupressor (fun a => ?_) e h x
  exact congrArg (Prod.mk a.plain) (hf a.eAddrLdapFlags)

theorem senderIsChild_plain (hrun : senderIsChild color depth l h = some (b, t)) (x : Nat) :
    (t x).plainSupressor = (h x).plainSupressor := by
  rw [senderIsChild_eq] at hrun
  refine Searching.search_preserves (P := fun h' => (h' x).plainSupressor = (h x).plainSupressor) ?_ ?_ hrun rfl
  · exact fun v s hs => (plainSupressor_paint x).trans hs
  · intro v b s hs
    refine (plainSupressor_setFlags (fun flags => ?_) x).trans hs
    cases b <;> rfl

theorem supressLoop_plain {below : List Nat → AddrHeap → Except Halt AddrHeap}
    (hbelow : ∀ l h t, below l h = .ok t → ∀ x, (t x).plainSupressor = (h x).plainSupressor) (l : List Nat) :
    ∀ h, supressLoop color below l h = .ok t → ∀ x, (t x).plainSupressor = (h x).plainSupressor := by
  induction l with
  | nil =>
    intro h hrun x
    cases hrun
    rfl
  | cons e rest ih =>
    intro h hrun x
    rw [supressLoop] at hrun
    split at hrun
    · cases hrun
    · split at hrun
      · exact ih _ hrun x
      · split at hrun
        · exact (ih _ hrun x).trans (plainSupressor_paint x)
        · split at hrun
          · cases hrun
          · rename_i hchildren
            have hflag : ∀ k : AddrHeap, (setFlags (fun f => { f with ldapSupressed := true }) e k x).plainSupressor =
                (k x).plainSupressor := fun k => plainSupressor_setFlags (by intro flags; rfl) x
            rw [ih _ hrun x, hbelow _ _ _ hchildren x, hflag, plainSupressor_paint]

theorem supressAddrs_plain (depth : Nat) : ∀ l h t, supressAddrs color depth l h = .ok t →
    ∀ x, (t x).plainSupressor = (h x).plainSupressor := by
  induction depth with
  | zero =>
    intro l h t hrun
    cases hrun
  | succ depth ih => exact fun l h t hrun => supressLoop_plain ih l h hrun

theorem memonlyOk_plain (x : Nat) : (memonlyOk g h x).plainSupressor = (h x).plainSupressor :=
  AddrHeap.write_field ExpAddr.plainSupressor (by intro a; rfl) g h x

theorem memonlyAnswer_plain (hrun : memonlyAnswer depth g b s = .ok u) (x : Nat) :
    (u.heap x).plain = (s.heap x).plain ∧
      ((u.heap x).eAddrLdapFlags.ldapSupressor = true → (s.heap x).eAddrLdapFlags.ldapSupressor = true ∨ x = g) := by
  unfold memonlyAnswer at hrun
  cases b with
  | true =>
    cases hrun
    have hsame := memonlyOk_plain (g := g) (h := s.heap) x
    exact ⟨congrArg Prod.fst hsame, fun htrue => .inl ((congrArg Prod.snd hsame).symm.trans htrue)⟩
  | false =>
    rw [if_neg Bool.false_ne_true] at hrun
    have hplain : ∀ x, (setFlags (fun f => { f with ldapSupressor := true }) g s.heap x).plain = (s.heap x).plain :=
      AddrHeap.write_field ExpAddr.plain (by intro a; rfl) g s.heap
    have hflag : ∀ x, x ≠ g →
        setFlags (fun f => { f with ldapSupressor := true }) g s.heap x = s.heap x :=
      fun x hx => AddrHeap.write_of_ne _ s.heap hx
    dsimp only at hrun
    generalize setFlags (fun f => { f with ldapSupressor := true }) g s.heap = k at hrun hplain hflag
    cases hsup : supressAddrs s.loopColor depth (k g).eAddrChildren k with
    | error halt =>
      rw [hsup] at hrun
      cases hrun
    | ok t =>
      rw [hsup] at hrun
      cases hrun
      have hsame := supressAddrs_plain depth _ _ _ hsup x
      refine ⟨(congrArg Prod.fst hsame).trans (hplain x), fun htrue => ?_⟩
      by_cases hx : x = g
      · exact .inr hx
      · have hk : (k x).eAddrLdapFlags.ldapSupressor = true := (congrArg Prod.snd hsame).symm.trans htrue
        rw [hflag x hx] at hk
        exact .inl hk

/-- **The members-only loop** writes colours and flags, and frees moderated envelopes; a group that suppresses
    is one that it was about. -/
theorem memonlyLoop_plain (groups : List Nat) : ∀ s u, (memonlyLoop depth groups s).2 = .ok u → ∀ x,
    (u.heap x).plain = (s.heap x).plain ∧
      ((u.heap x).eAddrLdapFlags.ldapSupressor = true → (s.heap x).eAddrLdapFlags.ldapSupressor = true ∨ x ∈ groups) := by
  induction groups with
  | nil =>
    intro s u hrun x
    cases hrun
    exact ⟨rfl, .inl⟩
  | cons g rest ih =>
    intro s u hrun x
    rw [memonlyLoop] at hrun
    split at hrun
    · cases hrun
    · obtain ⟨hplain, hsup⟩ := ih _ _ hrun x
      have hsame := memonlyOk_plain (g := g) (h := s.heap) x
      refine ⟨hplain.trans (congrArg Prod.fst hsame), fun htrue => ?_⟩
      rcases hsup htrue with hs | hx
      · exact .inl ((congrArg Prod.snd hsame).symm.trans hs)
      · exact .inr (List.mem_cons_of_mem g hx)
    · split at hrun
      · cases hrun
      · rename_i hchild
        split at hrun
        · cases hrun
        · rename_i v hanswer
          obtain ⟨hplain, hsup⟩ := ih _ _ hrun x
          obtain ⟨hplain', hsup'⟩ := memonlyAnswer_plain hanswer x
          have hsame := senderIsChild_plain hchild x
          refine ⟨(hplain.trans hplain').trans (congrArg Prod.fst hsame), fun htrue => ?_⟩
          rcases hsup htrue with hs | hx
          · rcases hsup' hs with hs' | rfl
            · exact .inl ((congrArg Prod.snd hsame).symm.trans hs')
            · exact .inr List.mem_cons_self
          · exact .inr (List.mem_cons_of_mem g hx)

end Simta
