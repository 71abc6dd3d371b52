import Simta.AddressGrammar

/-!
# The correction of an address

`correct_emailaddr` reads an address with the tokens of `parse_emailaddr`, but without its limit on the length of the
domain.

* `correctEmailaddrRet` — the function, with what it leaves in `*addr`;
* `completion_unique` — what a completed address is read to;
* `corrects_iff` — when an address that was corrected is accepted.
-/

set_option autoImplicit false

namespace Simta

variable {addr user dom domain : Text}

/-- `correct_emailaddr`: its value and the text of `*addr`; `alloc` is the outcome of its `malloc`. -/
def correctEmailaddrRet (domain : Text) (alloc : Bool) (addr : Text) : Int × Text :=
  match tokenUser addr with
  | none => (0, addr)
  | some (_, '@' :: d) =>
    match tokenAddressDomain d with
    | some (_, []) => (1, addr)
    | _ => (0, addr)
  | some (user, []) => if alloc then (1, user ++ '@' :: domain) else (-1, addr)
  | some _ => (0, addr)

/-- The function as the expansion of an address uses it. -/
theorem correctEmailaddrRet_eq (domain addr : Text) : correctEmailaddrRet domain true addr =
    match correctEmailaddr domain addr with
    | some addr => (1, addr)
    | none => (0, addr) := by
  unfold correctEmailaddrRet correctEmailaddr
  rcases tokenUser addr with _ | ⟨user, _ | ⟨c, d⟩⟩
  · rfl
  · rfl
  · by_cases hc : c = '@'
    · subst hc
      cases hdom : tokenAddressDomain d with
      | none => simp only [hdom]
      | some r =>
        obtain ⟨dom, _ | ⟨c, rest⟩⟩ := r <;> simp only [hdom]
    · simp [hc]

/-- A dot-atom that is short enough for a host name. -/
def HostName (domain : Text) : Prop :=
  domain ≠ [] ∧ (∀ c ∈ domain, isDotAtomText c = true) ∧ domain.length ≤ simtaMaxHostNameLen

theorem HostName.token (h : HostName domain) : DomainToken domain := by
  obtain ⟨hne, hall, -⟩ := h
  have hhead := dotAtom_head hall (show isDotAtomText '[' = false by decide)
  have htoken : tokenDotAtom (domain ++ []) = some (domain, []) :=
    tokenDotAtom_append hne hall (fun c hc => by cases hc)
  unfold DomainToken tokenAddressDomain
  rw [if_neg hhead]
  rwa [List.append_nil] at htoken

/-- The last character of what is read to a quote. -/
theorem tokenQuoted_last {close : Char} {s t rest : Text} (h : tokenQuoted close s = some (t, rest)) :
    t.getLast? = some close := by
  fun_induction tokenQuoted close s generalizing t rest with
  | case1 => cases h
  | case2 => cases h
  | case3 c s ih =>
    obtain ⟨⟨t', rest'⟩, ht, heq⟩ := Option.map_eq_some_iff.mp h
    obtain ⟨rfl, rfl⟩ := Prod.mk.inj heq
    have hlast := ih ht
    cases t' with
    | nil => cases hlast
    | cons d t' => rwa [List.getLast?_cons_cons, List.getLast?_cons_cons]
  | case4 s _ _ =>
    obtain ⟨rfl, rfl⟩ := Prod.mk.inj (Option.some.inj h)
    rfl
  | case5 c s _ _ _ ih =>
    obtain ⟨⟨t', rest'⟩, ht, heq⟩ := Option.map_eq_some_iff.mp h
    obtain ⟨rfl, rfl⟩ := Prod.mk.inj heq
    have hlast := ih ht
    cases t' with
    | nil => cases hlast
    | cons d t' => rwa [List.getLast?_cons_cons]

/-- A domain is a dot-atom or ends with a bracket. -/
theorem DomainToken.cases (h : DomainToken dom) :
    (dom ≠ [] ∧ ∀ c ∈ dom, isDotAtomText c = true) ∨ dom.getLast? = some ']' := by
  unfold DomainToken tokenAddressDomain at h
  split at h
  · right
    unfold tokenDomainLiteral at h
    split at h
    · obtain ⟨⟨t', rest'⟩, ht, heq⟩ := Option.map_eq_some_iff.mp h
      obtain ⟨hs, -⟩ := Prod.mk.inj heq
      have hlast := tokenQuoted_last ht
      rw [← hs]
      cases t' with
      | nil => cases hlast
      | cons d t' => rwa [List.getLast?_cons_cons]
    · cases h
  · left
    exact (tokenDotAtom_spec h).2

theorem last_of_append {a b c d : Text} {x : Char} (hb : b ≠ []) (hd : d ≠ []) (h : a ++ x :: b = c ++ x :: d) :
    b.getLast? = d.getLast? := by
  have hlast := congrArg List.getLast? h
  cases b with
  | nil => exact absurd rfl hb
  | cons y b =>
    cases d with
    | nil => exact absurd rfl hd
    | cons z d =>
      rwa [List.getLast?_append_of_ne_nil _ (List.cons_ne_nil x _), List.getLast?_append_of_ne_nil _ (List.cons_ne_nil x _),
        List.getLast?_cons_cons, List.getLast?_cons_cons] at hlast

/-- The last place of a character. -/
theorem split_last {a b c d : Text} {x : Char} (hb : x ∉ b) (hd : x ∉ d) (h : a ++ x :: b = c ++ x :: d) :
    a = c ∧ b = d := by
  rcases List.append_eq_append_iff.mp h with ⟨m, rfl, hm⟩ | ⟨m, rfl, hm⟩
  · cases m with
    | nil => exact ⟨(List.append_nil a).symm, (List.cons.inj hm).2⟩
    | cons y m =>
      obtain ⟨-, rfl⟩ := List.cons.inj hm
      exact absurd (List.mem_append_right m List.mem_cons_self) hb
  · cases m with
    | nil => exact ⟨List.append_nil c, (List.cons.inj hm).2.symm⟩
    | cons y m =>
      obtain ⟨-, rfl⟩ := List.cons.inj hm
      exact absurd (List.mem_append_right m List.mem_cons_self) hd

theorem at_notMem_dotAtom (h : ∀ c ∈ dom, isDotAtomText c = true) : '@' ∉ dom := by
  intro hmem
  have hat := h '@' hmem
  rw [isDotAtomText_at] at hat
  cases hat

/-- **What a completed address is read to**: the address and the domain that completes it. -/
theorem completion_unique (hdomain : HostName domain) (hdom : DomainToken dom)
    (h : addr ++ '@' :: domain = user ++ '@' :: dom) : addr = user ∧ domain = dom := by
  obtain ⟨hne, hall, -⟩ := hdomain
  rcases hdom.cases with ⟨-, htext⟩ | hlast
  · exact split_last (at_notMem_dotAtom hall) (at_notMem_dotAtom htext) h
  · -- a literal ends with a bracket, and the completion does not
    exfalso
    have hdom : dom ≠ [] := by
      rintro rfl
      cases hlast
    rw [← last_of_append hne hdom h] at hlast
    have hbracket := hall ']' (List.mem_of_getLast? hlast)
    revert hbracket
    decide

/-- What the correction of an address should be: an address that is corrected is accepted, has a domain and is not
    corrected again; it is changed only when it is a local part, which gets the domain; and where it is not corrected,
    neither the address nor its completion would be accepted. -/
structure Corrects (domain addr : Text) (r : Int × Text) : Prop where
  accepted : r.1 = 1 → isEmailaddr r.2 = true
  hasDomain : r.1 = 1 → ∃ user dom, r.2 = user ++ '@' :: dom ∧ UserToken user ∧ DomainToken dom
  fixed : r.1 = 1 → ∀ alloc, correctEmailaddrRet domain alloc r.2 = (1, r.2)
  changed : r.2 = addr ∨ (UserToken addr ∧ r.2 = addr ++ '@' :: domain)
  unchanged : r.1 = 0 → r.2 = addr
  rejected : r.1 = 0 → addr ≠ [] → isEmailaddr addr = false ∧ isEmailaddr (addr ++ '@' :: domain) = false

/-! ## When the correction is as it should be -/

/-- An address with a domain that is too long is returned as it is. -/
theorem correctEmailaddrRet_domain (huser : UserToken user) (hdom : DomainToken dom) (alloc : Bool) :
    correctEmailaddrRet domain alloc (user ++ '@' :: dom) = (1, user ++ '@' :: dom) := by
  unfold correctEmailaddrRet
  rw [userToken_append huser dom]
  simp only [show tokenAddressDomain dom = some (dom, []) from hdom]

/-- A local part gets the domain. -/
theorem correctEmailaddrRet_user (huser : UserToken addr) (alloc : Bool) :
    correctEmailaddrRet domain alloc addr = if alloc then (1, addr ++ '@' :: domain) else (-1, addr) := by
  unfold correctEmailaddrRet
  rw [show tokenUser addr = some (addr, []) from huser]

/-- What the address was, by the value that is returned. -/
theorem correctEmailaddrRet_cases (domain addr : Text) (alloc : Bool) :
    (∃ user dom, addr = user ++ '@' :: dom ∧ UserToken user ∧ DomainToken dom) ∨ UserToken addr ∨
      correctEmailaddrRet domain alloc addr = (0, addr) := by
  unfold correctEmailaddrRet
  split
  · exact .inr (.inr rfl)
  · rename_i user d htoken
    split
    · rename_i dom hdom
      obtain ⟨hd, hself⟩ := tokenAddressDomain_self hdom
      rw [List.append_nil] at hd
      exact .inl ⟨user, d, (tokenUser_append htoken).1, tokenUser_token htoken, hd ▸ hself⟩
    · exact .inr (.inr rfl)
  · rename_i user htoken
    have haddr := (tokenUser_append htoken).1
    rw [List.append_nil] at haddr
    exact .inr (.inl (haddr ▸ tokenUser_token htoken))
  · exact .inr (.inr rfl)

theorem isEmailaddr_domain (huser : UserToken user) (hdom : DomainToken dom) :
    isEmailaddr (user ++ '@' :: dom) = true ↔ dom.length ≤ simtaMaxHostNameLen := by
  rw [isEmailaddr_token (userToken_append huser dom)]
  show (parseAddressDomain .normal user dom).isSome = true ↔ _
  rw [parseAddressDomain_normal]
  exact and_iff_right hdom

/-- What is not corrected is not accepted, also when it is completed. -/
theorem correctEmailaddrRet_zero (hdomain : HostName domain) (hne : addr ≠ []) {alloc : Bool}
    (hzero : correctEmailaddrRet domain alloc addr = (0, addr)) :
    isEmailaddr addr = false ∧ isEmailaddr (addr ++ '@' :: domain) = false := by
  have hnotUser : ¬ UserToken addr := by
    intro huser
    rw [correctEmailaddrRet_user huser] at hzero
    cases alloc <;> cases hzero
  constructor
  · apply Bool.eq_false_iff.mpr
    intro h
    rcases isEmailaddr_iff.mp h with hnil | hpost | ⟨user, dom, rfl, huser, hdom, -⟩
    · exact hne hnil
    · exact hnotUser (postmaster_token hpost)
    · rw [correctEmailaddrRet_domain huser hdom] at hzero
      cases hzero
  · apply Bool.eq_false_iff.mpr
    intro h
    rcases isEmailaddr_iff.mp h with hnil | hpost | ⟨user, dom, heq, huser, hdom, -⟩
    · simp at hnil
    · exact at_notMem_of_postmaster hpost (List.mem_append_right _ List.mem_cons_self)
    · obtain ⟨rfl, -⟩ := completion_unique hdomain hdom heq
      exact hnotUser huser

/-- **When the correction is as it should be**: on every address but those with a domain that is longer than a host
    name. -/
theorem corrects_iff (hdomain : HostName domain) :
    (∀ alloc, Corrects domain addr (correctEmailaddrRet domain alloc addr)) ↔
      ¬ ∃ user dom, addr = user ++ '@' :: dom ∧ UserToken user ∧ DomainToken dom ∧ simtaMaxHostNameLen < dom.length := by
  constructor
  · rintro h ⟨user, dom, rfl, huser, hdom, hlong⟩
    have hcorrects := h true
    rw [correctEmailaddrRet_domain huser hdom] at hcorrects
    have hle := (isEmailaddr_domain huser hdom).mp (hcorrects.accepted rfl)
    omega
  · intro hshort alloc
    rcases correctEmailaddrRet_cases domain addr alloc with ⟨user, dom, rfl, huser, hdom⟩ | huser | hzero
    · rw [correctEmailaddrRet_domain huser hdom]
      have hle : dom.length ≤ simtaMaxHostNameLen :=
        Nat.le_of_not_lt fun hlong => hshort ⟨user, dom, rfl, huser, hdom, hlong⟩
      exact {
        accepted := fun _ => (isEmailaddr_domain huser hdom).mpr hle
        hasDomain := fun _ => ⟨user, dom, rfl, huser, hdom⟩
        fixed := fun _ alloc => correctEmailaddrRet_domain huser hdom alloc
        changed := .inl rfl
        unchanged := fun _ => rfl
        rejected := fun h => by cases h }
    · rw [correctEmailaddrRet_user huser]
      cases alloc with
      | false =>
        exact {
          accepted := fun h => by cases h
          hasDomain := fun h => by cases h
          fixed := fun h => by cases h
          changed := .inl rfl
          unchanged := fun _ => rfl
          rejected := fun h => by cases h }
      | true =>
        exact {
          accepted := fun _ => (isEmailaddr_domain huser hdomain.token).mpr hdomain.2.2
          hasDomain := fun _ => ⟨addr, domain, rfl, huser, hdomain.token⟩
          fixed := fun _ alloc => correctEmailaddrRet_domain huser hdomain.token alloc
          changed := .inr ⟨huser, rfl⟩
          unchanged := fun h => by cases h
          rejected := fun h => by cases h }
    · rw [hzero]
      exact {
        accepted := fun h => by cases h
        hasDomain := fun h => by cases h
        fixed := fun h => by cases h
        changed := .inl rfl
        unchanged := fun _ => rfl
        rejected := fun _ hne => correctEmailaddrRet_zero hdomain hne hzero }

theorem corrects_local :
    (∀ alloc, Corrects "h.org".toList "u".toList (correctEmailaddrRet "h.org".toList alloc "u".toList)) ↔
      ¬ ∃ user dom, "u".toList = user ++ '@' :: dom ∧ UserToken user ∧ DomainToken dom ∧
        simtaMaxHostNameLen < dom.length :=
  corrects_iff ⟨by decide, List.all_eq_true.mp (by decide), by decide⟩

/-- An address with a domain of 257 characters is corrected, and not accepted. -/
theorem not_corrects : HostName "h.org".toList ∧ ¬ Corrects "h.org".toList ('u' :: '@' :: List.replicate 257 'd')
    (correctEmailaddrRet "h.org".toList true ('u' :: '@' :: List.replicate 257 'd')) := by
  have hall : ∀ c ∈ List.replicate 257 'd', isDotAtomText c = true := by
    intro c hc
    rw [(List.mem_replicate.mp hc).2]
    decide
  have huser : UserToken "u".toList := show tokenUser "u".toList = some ("u".toList, []) by decide
  have hdom : DomainToken (List.replicate 257 'd') := by
    have htoken : tokenDotAtom (List.replicate 257 'd' ++ []) = some (List.replicate 257 'd', []) :=
      tokenDotAtom_append (List.cons_ne_nil 'd' _) hall (fun c hc => by cases hc)
    rw [List.append_nil] at htoken
    exact htoken
  refine ⟨⟨by decide, List.all_eq_true.mp (by decide), by decide⟩, fun h => ?_⟩
  have hret : correctEmailaddrRet "h.org".toList true ('u' :: '@' :: List.replicate 257 'd') =
      (1, 'u' :: '@' :: List.replicate 257 'd') := correctEmailaddrRet_domain huser hdom true
  rw [hret] at h
  have hle := (isEmailaddr_domain huser hdom).mp (h.accepted rfl)
  rw [List.length_replicate] at hle
  revert hle
  decide

end Simta
