import Simta.Memonly
import Simta.ExpandRun

/-!
# The permitted parents of a group

`parent_permitted` compares the names of the parents of a members-only group with the groups that are
permitted for it.

* `Normalised`, `Reached.normalised` — all names that are compared are in one form;
* `PermittedExact` — the function finds a permitted parent exactly when there is one;
* `Comparable` — no parent without a name comes before one that has the first permitted name;
* `permitted_exact_iff` — the second is the condition for the first.
-/

set_option autoImplicit false

namespace Simta

/-! ## Names -/

/-- The form of a distinguished name in which two of them are compared. -/
def Normalised (name : Text) : Prop := ∃ dn, name = dnNormalizeCase dn

/-- The name of an address and its permitted groups are in that form. -/
def NamesNormalised (a : ExpAddr) : Prop :=
  (∀ dn ∈ a.eAddrDn, Normalised dn) ∧ ∀ ok ∈ a.eAddrOk, Normalised ok

variable {conf : ExpandConf} {exp : Expand} {visited : List Nat}

theorem mem_llInsert {key x : Text} {keys : List Text} (h : x ∈ llInsert key keys) : x = key ∨ x ∈ keys := by
  induction keys with
  | nil => exact .inl (List.mem_singleton.mp h)
  | cons k rest ih =>
    rw [llInsert] at h
    split at h
    · rcases List.mem_cons.mp h with rfl | h
      · exact .inl rfl
      · exact .inr h
    · rcases List.mem_cons.mp h with rfl | h
      · exact .inr List.mem_cons_self
      · exact (ih h).imp_right (List.mem_cons_of_mem _)

theorem OwnWrite.normalised {a a' : ExpAddr} (h : OwnWrite a a') (ha : NamesNormalised a) : NamesNormalised a' := by
  cases h with
  | dn dn =>
    refine ⟨fun x hx => ?_, ha.2⟩
    cases hx
    exact ⟨dn, rfl⟩
  | ok group =>
    refine ⟨ha.1, fun k hk => ?_⟩
    rcases mem_llInsert hk with rfl | hk
    · exact ⟨group, rfl⟩
    · exact ha.2 k hk
  | _ => exact ha

/-- What `parent_permitted` reads of an address. -/
def ExpAddr.permission (a : ExpAddr) : Option Text × List Text × List (Option Nat) :=
  (a.eAddrDn, a.eAddrOk, a.eAddrParents)

theorem NamesNormalised.congr {a a' : ExpAddr} (ha : NamesNormalised a) (hdn : a'.eAddrDn = a.eAddrDn)
    (hok : a'.eAddrOk = a.eAddrOk) : NamesNormalised a' := by
  unfold NamesNormalised
  rwa [hdn, hok]

/-- A new address has no name and no permitted groups. -/
theorem newAddress_names {addr origin : Text} {errors : Nat} {addrType : AddressType} {insertHead : Bool}
    {a : ExpAddr} (h : newAddress conf exp addr errors addrType origin = some (insertHead, a)) :
    a.eAddrDn = none ∧ a.eAddrOk = [] := by
  unfold newAddress at h
  split at h
  · obtain ⟨place, -, ha⟩ := Option.map_eq_some_iff.mp h
    cases place <;> cases ha <;> exact ⟨rfl, rfl⟩
  · cases h
    exact ⟨rfl, rfl⟩

/-- **An expansion keeps the names in that form.** -/
theorem namesNormalised_invariant : ContentInvariant conf NamesNormalised where
  content hsame ha := ha.congr (congrArg ExpAddr.eAddrDn hsame :) (congrArg ExpAddr.eAddrOk hsame :)
  new hnew := by
    obtain ⟨hdn, hok⟩ := newAddress_names hnew
    unfold NamesNormalised
    rw [hdn, hok]
    exact ⟨(fun _ hx => by cases hx), (fun _ hx => by cases hx)⟩
  own hown ha := hown.normalised ha
  terminal _ ha := ha
  dead ha := ha

/-! ## The comparisons -/

section Permitted

variable {h h' : AddrHeap} {ok : Text} {oks : List Text} {parents : List (Option Nat)} {g : Nat}

/-- The name of a parent; an original recipient has none. -/
def parentDn (h : AddrHeap) (parent : Option Nat) : Option Text := parent.bind fun e => (h e).eAddrDn

/-- A parent that is in the permitted list. -/
def PermittedParent (h : AddrHeap) (parents : List (Option Nat)) (oks : List Text) (dn : Text) : Prop :=
  dn ∈ oks ∧ ∃ e, some e ∈ parents ∧ (h e).eAddrDn = some dn

/-- **`parent_permitted` is exact**: it compares names only, and it returns one exactly when a parent has a
    permitted one. -/
structure PermittedExact (h : AddrHeap) (g : Nat) : Prop where
  compares : parentPermitted h g ≠ .error .nullDn
  returns : (∃ dn, parentPermitted h g = .ok (some dn)) ↔
    ∃ dn, PermittedParent h (h g).eAddrParents (h g).eAddrOk dn
  parent : ∀ dn, parentPermitted h g = .ok (some dn) → PermittedParent h (h g).eAddrParents (h g).eAddrOk dn

/-- Of the first permitted group: the parents that come before one of that name have all a name. -/
def Comparable (h : AddrHeap) (g : Nat) : Prop :=
  ∀ ok ∈ (h g).eAddrOk.head?, ∀ e,
    some e ∈ (h g).eAddrParents.takeWhile (fun p => decide (parentDn h p ≠ some ok)) → (h e).eAddrDn ≠ none

/-- What the inner loop comes to. -/
theorem permittedBy_cases (h : AddrHeap) (ok : Text) (parents : List (Option Nat)) :
    (permittedBy h ok parents = .error .nullDn ∧
      ∃ e, some e ∈ parents.takeWhile (fun p => decide (parentDn h p ≠ some ok)) ∧ (h e).eAddrDn = none) ∨
    (permittedBy h ok parents = .ok (some ok) ∧ (∃ e, some e ∈ parents ∧ (h e).eAddrDn = some ok) ∧
      ∀ e, some e ∈ parents.takeWhile (fun p => decide (parentDn h p ≠ some ok)) → (h e).eAddrDn ≠ none) ∨
    (permittedBy h ok parents = .ok none ∧ ∀ e, some e ∈ parents → (h e).eAddrDn ≠ none ∧ (h e).eAddrDn ≠ some ok) := by
  induction parents with
  | nil => exact .inr (.inr ⟨rfl, fun e he => absurd he List.not_mem_nil⟩)
  | cons p rest ih =>
    cases p with
    | none =>
      have htake : (none :: rest).takeWhile (fun p => decide (parentDn h p ≠ some ok)) =
          none :: rest.takeWhile (fun p => decide (parentDn h p ≠ some ok)) :=
        List.takeWhile_cons_of_pos (by simp [parentDn])
      rw [permittedBy, htake]
      simpa using ih
    | some x =>
      rw [permittedBy]
      split
      · rename_i hdn
        refine .inl ⟨rfl, x, ?_, hdn⟩
        rw [List.takeWhile_cons_of_pos (by simp [parentDn, hdn])]
        exact List.mem_cons_self
      · rename_i dn hdn
        split
        · rename_i heq
          subst heq
          refine .inr (.inl ⟨rfl, ⟨x, List.mem_cons_self, hdn⟩, fun e he => ?_⟩)
          rw [List.takeWhile_cons_of_neg (by simp [parentDn, hdn])] at he
          cases he
        · rename_i hne
          have htake : (some x :: rest).takeWhile (fun p => decide (parentDn h p ≠ some ok)) =
              some x :: rest.takeWhile (fun p => decide (parentDn h p ≠ some ok)) := by
            refine List.takeWhile_cons_of_pos ?_
            simp only [parentDn, Option.bind_some, hdn, ne_eq, Option.some.injEq, decide_eq_true_eq]
            exact fun heq => hne heq.symm
          rw [htake]
          rcases ih with ⟨herror, e, he, hnone⟩ | ⟨hok, ⟨e, he, hsome⟩, hall⟩ | ⟨hnone, hall⟩
          · exact .inl ⟨herror, e, List.mem_cons_of_mem _ he, hnone⟩
          · refine .inr (.inl ⟨hok, ⟨e, List.mem_cons_of_mem _ he, hsome⟩, fun e' he' => ?_⟩)
            rcases List.mem_cons.mp he' with heq | he'
            · cases heq
              rw [hdn]
              exact (fun h => by cases h)
            · exact hall e' he'
          · refine .inr (.inr ⟨hnone, fun e' he' => ?_⟩)
            rcases List.mem_cons.mp he' with heq | he'
            · cases heq
              rw [hdn]
              exact ⟨(fun h => by cases h), fun h => hne (Option.some.inj h).symm⟩
            · exact hall e' he'

/-- What the outer loop comes to when every parent has a name. -/
theorem permittedIn_named (oks : List Text) (hnamed : ∀ e, some e ∈ parents → (h e).eAddrDn ≠ none) :
    (∃ dn, permittedIn h parents oks = .ok (some dn) ∧ PermittedParent h parents oks dn) ∨
      (permittedIn h parents oks = .ok none ∧ ∀ dn, ¬ PermittedParent h parents oks dn) := by
  induction oks with
  | nil => exact .inr ⟨rfl, fun dn hdn => absurd hdn.1 List.not_mem_nil⟩
  | cons ok rest ih =>
    rw [permittedIn]
    rcases permittedBy_cases h ok parents with
      ⟨-, e, he, hnone⟩ | ⟨hok, hfound, -⟩ | ⟨hnone, hall⟩
    · exact absurd hnone (hnamed e ((List.takeWhile_sublist _).subset he))
    · rw [hok]
      exact .inl ⟨ok, rfl, List.mem_cons_self, hfound⟩
    · rw [hnone]
      rcases ih with ⟨dn, heq, hmem, hparent⟩ | ⟨heq, hno⟩
      · exact .inl ⟨dn, heq, List.mem_cons_of_mem _ hmem, hparent⟩
      · refine .inr ⟨heq, ?_⟩
        rintro dn ⟨hmem, e, he, hdn⟩
        rcases List.mem_cons.mp hmem with rfl | hmem
        · exact (hall e he).2 hdn
        · exact hno dn ⟨hmem, e, he, hdn⟩

/-- **What `parent_permitted` comes to.** -/
theorem parentPermitted_exact_iff : PermittedExact h g ↔ Comparable h g := by
  unfold Comparable
  cases hoks : (h g).eAddrOk with
  | nil =>
    have hnone : parentPermitted h g = .ok none := by
      unfold parentPermitted
      rw [hoks]
      rfl
    refine ⟨fun _ ok hok => (by cases hok), fun _ => ⟨?_, ?_, ?_⟩⟩
    · rw [hnone]
      exact (fun h => by cases h)
    · rw [hnone, hoks]
      constructor
      · rintro ⟨dn, hdn⟩
        cases hdn
      · rintro ⟨dn, hdn, -⟩
        cases hdn
    · rw [hnone]
      exact (fun dn hdn => by cases hdn)
  | cons ok rest =>
    have heq : parentPermitted h g = permittedIn h (h g).eAddrParents (ok :: rest) := by
      unfold parentPermitted
      rw [hoks]
    rcases permittedBy_cases h ok (h g).eAddrParents with
      ⟨herror, e, he, hdn⟩ | ⟨hsome, hfound, hall⟩ | ⟨hnone, hall⟩
    · have hstop : parentPermitted h g = .error .nullDn := by
        rw [heq, permittedIn, herror]
      exact ⟨fun hexact => absurd hstop hexact.compares, fun hcomp => absurd hdn (hcomp ok rfl e he)⟩
    · have hret : parentPermitted h g = .ok (some ok) := by
        rw [heq, permittedIn, hsome]
      have hparent : PermittedParent h (h g).eAddrParents (h g).eAddrOk ok := by
        rw [hoks]
        exact ⟨List.mem_cons_self, hfound⟩
      refine ⟨fun _ ok' hok' => by cases hok'; exact hall, fun _ => ⟨?_, ?_, ?_⟩⟩
      · rw [hret]
        exact (fun h => by cases h)
      · exact ⟨fun _ => ⟨ok, hparent⟩, fun _ => ⟨ok, hret⟩⟩
      · rw [hret]
        intro dn hdn
        cases hdn
        exact hparent
    · have hnamed : ∀ e, some e ∈ (h g).eAddrParents → (h e).eAddrDn ≠ none := fun e he => (hall e he).1
      refine ⟨fun _ ok' _ e he => hnamed e ((List.takeWhile_sublist _).subset he), fun _ => ?_⟩
      rcases permittedIn_named (ok :: rest) hnamed with ⟨dn, hret, hparent⟩ | ⟨hret, hno⟩
      · rw [← heq] at hret
        rw [← hoks] at hparent
        refine ⟨?_, ⟨fun _ => ⟨dn, hparent⟩, fun _ => ⟨dn, hret⟩⟩, ?_⟩
        · rw [hret]
          exact (fun h => by cases h)
        · rw [hret]
          intro dn' hdn'
          cases hdn'
          exact hparent
      · rw [← heq] at hret
        rw [← hoks] at hno
        refine ⟨?_, ⟨?_, fun hex => absurd hex (not_exists.mpr hno)⟩, ?_⟩
        · rw [hret]
          exact (fun h => by cases h)
        · rw [hret]
          rintro ⟨dn, hdn⟩
          cases hdn
        · rw [hret]
          exact (fun dn hdn => by cases hdn)

/-! ## Runs -/

theorem permittedBy_congr (hsame : ∀ x, (h' x).eAddrDn = (h x).eAddrDn) : permittedBy h' ok parents = permittedBy h ok parents := by
  induction parents with
  | nil => rfl
  | cons p rest ih =>
    cases p with
    | none => exact ih
    | some e => rw [permittedBy, permittedBy, hsame, ih]

/-- The result depends on what is read of the addresses only. -/
theorem parentPermitted_congr (hsame : ∀ x, (h' x).permission = (h x).permission) :
    parentPermitted h' g = parentPermitted h g := by
  have hparents : (h' g).eAddrParents = (h g).eAddrParents := congrArg (·.2.2) (hsame g)
  have hoks : (h' g).eAddrOk = (h g).eAddrOk := congrArg (·.2.1) (hsame g)
  have hdn : ∀ x, (h' x).eAddrDn = (h x).eAddrDn := fun x => congrArg (·.1) (hsame x)
  unfold parentPermitted
  rw [hparents, hoks]
  induction (h g).eAddrOk with
  | nil => rfl
  | cons ok rest ih => rw [permittedIn, permittedIn, permittedBy_congr hdn, ih]

end Permitted

section Rounds

variable {σ : Type} {R : Prog.World ExpOp ExpAns σ} {env : Envelope} {hosts : List Red} {s t : σ}

theorem Reached.normalised (h : Reached R conf env hosts s visited exp t) : ∀ x, NamesNormalised (exp.addrs x) :=
  h.contents namesNormalised_invariant ⟨(fun _ hx => by cases hx), (fun _ hx => by cases hx)⟩

/-- **The members-only permission** in every state that an expansion comes to, whatever flags and marks the
    addresses have got since: the names that are compared are in one form, and the function is exact for a
    group exactly when no parent without a name comes before one that has the first permitted name. -/
theorem permitted_exact_iff (hr : Reached R conf env hosts s visited exp t) (h : AddrHeap)
    (hsame : ∀ x, (h x).permission = (exp.addrs x).permission) (g : Nat) :
    (∀ x, NamesNormalised (h x)) ∧ (PermittedExact h g ↔ Comparable exp.addrs g) := by
  have hdn : ∀ x, (h x).eAddrDn = (exp.addrs x).eAddrDn := fun x => congrArg (·.1) (hsame x)
  have hoks : ∀ x, (h x).eAddrOk = (exp.addrs x).eAddrOk := fun x => congrArg (·.2.1) (hsame x)
  have hparents : (h g).eAddrParents = (exp.addrs g).eAddrParents := congrArg (·.2.2) (hsame g)
  refine ⟨fun x => (hr.normalised x).congr (hdn x) (hoks x), ?_⟩
  rw [parentPermitted_exact_iff]
  have hparent : parentDn h = parentDn exp.addrs := by
    funext p
    cases p with
    | none => rfl
    | some e => exact hdn e
  unfold Comparable
  rw [hparent, hoks, hparents]
  simp only [hdn]

end Rounds

/-! An alias leads to a members-only group that has a permitted group. -/

def groupEntry : LdapEntry where
  dn := some "cn=grp".toList
  values attr :=
    if attr = "objectClass".toList then ["group".toList]
    else if attr = "membersonly".toList then ["TRUE".toList]
    else if attr = "permittedgroup".toList then ["cn=staff".toList]
    else []

/-- The directory has the group, and `all` is an alias for it. -/
def groupAnswers : (op : ExpOp) → ExpAns op
  | .dbOpen _ => .already
  | .dbCursor _ key => if key = "all".toList then (["grp@us".toList], false) else ([], false)
  | .ldapSearch _ _ _ _ => ⟨.success, some [groupEntry]⟩
  | op => quiet op

/-- A message to the group itself, whose only parent is no address. -/
theorem permitted_exact_iff_group :
    ∃ visited exp, Reached (answersOnly groupAnswers) (peopleConf []) (messageTo "grp@us".toList)
      (usHosts [⟨.alias, false, none⟩, ⟨.ldap, false, none⟩]) () visited exp () ∧ exp.expMemonly = [0] ∧
      (∀ x, NamesNormalised (exp.addrs x)) ∧ (PermittedExact exp.addrs 0 ↔ Comparable exp.addrs 0) := by
  have heval : ((expandWork (peopleConf []) 3).eval groupAnswers (Expand.init (messageTo "grp@us".toList)
      (usHosts [⟨.alias, false, none⟩, ⟨.ldap, false, none⟩]))).map (fun x => (x.1, x.2.expMemonly)) =
      some (some true, [0]) := rfl
  obtain ⟨visited, exp, hreached, -, hmemonly⟩ := reached_of_eval Expand.expMemonly heval
  exact ⟨visited, exp, hreached, hmemonly, permitted_exact_iff hreached exp.addrs (fun _ => rfl) 0⟩

/-- A message to the alias: the name of the group's parent is compared, which has none. -/
theorem not_permitted_exact :
    ∃ visited exp, Reached (answersOnly groupAnswers) (peopleConf []) (messageTo "all@us".toList)
      (usHosts [⟨.alias, false, none⟩, ⟨.ldap, false, none⟩]) () visited exp () ∧ exp.expAddrCursor = none ∧
      1 ∈ exp.expMemonly ∧ parentPermitted exp.addrs 1 = .error .nullDn ∧ ¬ PermittedExact exp.addrs 1 := by
  have heval : ((expandWork (peopleConf []) 3).eval groupAnswers (Expand.init (messageTo "all@us".toList)
      (usHosts [⟨.alias, false, none⟩, ⟨.ldap, false, none⟩]))).map
        (fun x => (x.1, x.2.expMemonly, parentPermitted x.2.addrs 1)) =
      some (some true, [1], .error .nullDn) := rfl
  obtain ⟨visited, exp, hreached, hcursor, hview⟩ :=
    reached_of_eval (fun exp => (exp.expMemonly, parentPermitted exp.addrs 1)) heval
  obtain ⟨hmemonly, herror⟩ := Prod.mk.inj hview
  refine ⟨visited, exp, hreached, hcursor, ?_, herror, fun hexact => hexact.compares herror⟩
  rw [hmemonly]
  exact List.mem_singleton_self 1

end Simta
