import Simta.Expand
import Simta.Rcpt

/-!
# The at sign

An address is taken apart in four places: `parse_emailaddr` finds the domain that is checked,
`add_address` the place that the expansion goes by, `expand` the host that the address is written
under, and `local_address` the local part that it looks up.  The first two read a token, the others
search for the first `@`.

* `addressAt_eq`, `strchrAt_append` — the two ways to the `@`;
* `oneMeaning_iff` — the four agree exactly when the quoted local part has no `@`.
-/

set_option autoImplicit false

namespace Simta

/-! ## The two ways to the `@` -/

theorem strchrAt_append {user domain : Text} (h : '@' ∉ user) :
    strchrAt (user ++ '@' :: domain) = some (user, domain) := by
  have hall : ∀ c ∈ user, decide (c ≠ '@') = true := fun c hc => decide_eq_true (fun heq => h (heq ▸ hc))
  unfold strchrAt
  rw [List.dropWhile_append_of_pos hall, List.takeWhile_append_of_pos hall]
  simp

theorem strchrAt_eq_none {addr : Text} (h : '@' ∉ addr) : strchrAt addr = none := by
  have hall : ∀ c ∈ addr, decide (c ≠ '@') = true := fun c hc => decide_eq_true (fun heq => h (heq ▸ hc))
  unfold strchrAt
  rw [List.dropWhile_eq_nil_iff.mpr hall]

/-- The first `@` has none in front of it. -/
theorem strchrAt_spec {addr user domain : Text} (h : strchrAt addr = some (user, domain)) :
    addr = user ++ '@' :: domain ∧ '@' ∉ user := by
  unfold strchrAt at h
  split at h
  · cases h
  · rename_i c rest hrest
    obtain ⟨rfl, rfl⟩ := Prod.mk.inj (Option.some.inj h)
    have hc : c = '@' := by
      have hhead := List.head?_dropWhile_not (fun c : Char => decide (c ≠ '@')) addr
      rw [hrest] at hhead
      simpa using hhead
    subst hc
    constructor
    · rw [← hrest]
      exact List.takeWhile_append_dropWhile.symm
    · intro hmem
      have := List.mem_takeWhile_imp hmem
      simp at this

/-- What `add_address` finds in an address with a domain. -/
theorem addressAt_eq {user domain : Text} (h : ∀ d, tokenUser (user ++ '@' :: d) = some (user, '@' :: d)) :
    addressAt (user ++ '@' :: domain) = some (some user.length) := by
  have hpost : ¬ (strcaseEq stringPostmaster (user ++ '@' :: domain) = true) := by
    intro hp
    rw [strcaseEq_comm] at hp
    exact at_notMem_of_postmaster hp (List.mem_append_right _ List.mem_cons_self)
  unfold addressAt
  rw [if_neg (by simp [hpost])]
  simp only [h]

/-! ## The addresses that are accepted -/

/-- An accepted address is the null recipient, the reserved mailbox name, or a local part and a domain. -/
theorem parseNormal_cases {addr : Text} {domain : Option Text} {a : Text}
    (h : parseEmailaddr .normal addr = some (a, domain)) :
    a = addr ∧ ((domain = none ∧ (addr = [] ∨ strcaseEq stringPostmaster addr = true)) ∨
      ∃ user dom, domain = some dom ∧ addr = user ++ '@' :: dom ∧
        ∀ d, tokenUser (user ++ '@' :: d) = some (user, '@' :: d)) := by
  unfold parseEmailaddr at h
  rw [if_pos rfl] at h
  split at h
  · rename_i hnil
    cases h
    exact ⟨hnil.symm, .inl ⟨rfl, .inl hnil⟩⟩
  · split at h
    · cases h
    · unfold parseMailbox at h
      split at h
      · split at h
        · rename_i hmode
          cases hmode.1
        · cases h
      · split at h
        · cases h
        · rename_i user rest htoken
          obtain ⟨hs, -, -, -, happ⟩ := tokenUser_append htoken
          split at h
          · rename_i hend
            split at h
            · rename_i hpost
              cases h
              have hrest : rest = [] := by
                rcases hend with hend | hend
                · exact hend.1
                · cases hend.2
              rw [hrest, List.append_nil] at hs
              rw [strcaseEq_comm] at hpost
              exact ⟨hs.symm, .inl ⟨rfl, .inr (hs ▸ hpost)⟩⟩
            · cases h
          · split at h
            · rename_i d _
              unfold parseAddressDomain at h
              split at h
              · cases h
              · split at h
                · cases h
                · rename_i dom eol hdom
                  split at h
                  · rename_i heol
                    cases h
                    obtain ⟨hd, -⟩ := tokenAddressDomain_self hdom
                    rw [heol, pathEnd, List.append_nil] at hd
                    subst hd
                    exact ⟨hs.symm, .inr ⟨user, d, rfl, hs, fun d => happ _ fun c hc => by cases hc; rfl⟩⟩
                  · cases h
            · cases h

/-- What is read as a mailbox is an address by itself, with the same domain. -/
theorem parseMailbox_normal {mode : AddressMode} {u addr : Text} {domain : Option Text}
    (h : parseMailbox mode u = some (addr, domain)) : parseEmailaddr .normal addr = some (addr, domain) := by
  unfold parseMailbox at h
  split at h
  · split at h
    · cases h
      rfl
    · cases h
  · split at h
    · cases h
    · rename_i user rest htoken
      obtain ⟨-, hne, hat, hgt, happ⟩ := tokenUser_append htoken
      split at h
      · split at h
        · rename_i hpost
          cases h
          have hself := happ [] (fun c hc => by cases hc)
          rw [List.append_nil] at hself
          unfold parseEmailaddr
          rw [if_pos rfl, if_neg hne, if_neg hat]
          unfold parseMailbox
          rw [if_neg hgt]
          simp [hself, hpost]
        · cases h
      · split at h
        · rename_i d _
          unfold parseAddressDomain at h
          split at h
          · cases h
          · rename_i hlong
            split at h
            · cases h
            · rename_i dom eol hdom
              split at h
              · cases h
                obtain ⟨hd, hself⟩ := tokenAddressDomain_self hdom
                have hlen : ¬ simtaMaxHostNameLen < dom.length := by
                  intro hlt
                  apply hlong
                  rw [hd, List.length_append]
                  omega
                unfold parseEmailaddr
                rw [if_pos rfl, if_neg (by simp), head?_append_of_ne_nil hne, if_neg hat]
                unfold parseMailbox
                rw [head?_append_of_ne_nil hne, if_neg hgt]
                simp only [happ _ (show ∀ c ∈ ('@' :: dom).head?, c = '@' by intro c hc; cases hc; rfl)]
                rw [if_neg (by simp)]
                unfold parseAddressDomain
                rw [if_neg hlen]
                simp only [hself]
                rfl
              · cases h
        · cases h

/-! ## One meaning -/

/-- `local_address` on an address whose local part and domain are those of `split`. -/
def lookupLocal (split : Option (Text × Text)) (red : Red) : Recv LocalAddress :=
  match split with
  | none => return .notLocal
  | some (user, domain) =>
    if red.redHostType = .secondaryMx then return .mxAddress
    else localAddressRules user domain red.redReceive 0

theorem localAddress_eq {addr domain : Text} {red : Red} {split : Option (Text × Text)}
    (h : split.map Prod.fst = (strchrAt addr).map Prod.fst) (hdomain : ∀ d ∈ split.map Prod.snd, domain = d) :
    localAddress addr domain red = lookupLocal split red := by
  unfold localAddress
  split
  · rename_i hat
    obtain ⟨c, rest, hrest⟩ : ∃ c rest, addr.dropWhile (· ≠ '@') = c :: rest := by
      cases hd : addr.dropWhile (· ≠ '@') with
      | nil => simpa using List.dropWhile_eq_nil_iff.mp hd '@' hat
      | cons c rest => exact ⟨c, rest, rfl⟩
    rw [strchrAt, hrest] at h
    obtain ⟨⟨user, d⟩, rfl, huser⟩ := Option.map_eq_some_iff.mp h
    rw [hdomain d rfl, ← show user = addr.takeWhile (· ≠ '@') from huser]
    rfl
  · rename_i hat
    rw [strchrAt_eq_none hat] at h
    rw [Option.map_eq_none_iff.mp h]
    rfl

/-- The four places take an address apart in one way: the domain of every path that is read as the
    address, the place of the `@` on the expansion list, the host that the address is written under, and
    what is looked up before it is accepted. -/
structure OneMeaning (addr : Text) (split : Option (Text × Text)) : Prop where
  parsed : ∀ mode path domain, parseEmailaddr mode path = some (addr, domain) → domain = split.map Prod.snd
  stored : (addressAt addr).map (Option.map fun i => (addr.take i, addr.drop (i + 1))) = some split
  written : (strchrAt addr).map Prod.snd = split.map Prod.snd
  checked : ∀ domain red, (∀ d ∈ split.map Prod.snd, domain = d) →
    localAddress addr domain red = lookupLocal split red

/-- What is read as an address is read as one by itself. -/
theorem parseEmailaddr_normal {mode : AddressMode} {path addr : Text} {domain : Option Text}
    (h : parseEmailaddr mode path = some (addr, domain)) :
    parseEmailaddr .normal addr = some (addr, domain) := by
  unfold parseEmailaddr at h
  split at h
  · split at h
    · cases h
      rfl
    · split at h
      · cases h
      · exact parseMailbox_normal h
  · split at h
    · obtain ⟨u, -, hu⟩ := Option.bind_eq_some_iff.mp h
      exact parseMailbox_normal hu
    · split at h
      · cases h
      · exact parseMailbox_normal h
    · cases h

/-- An address without `@` has one meaning. -/
theorem oneMeaning_none {addr : Text} (hat : '@' ∉ addr) (haddr : addressAt addr = some none)
    (hparse : parseEmailaddr .normal addr = some (addr, none)) : OneMeaning addr none where
  parsed mode path domain h := by
    have := parseEmailaddr_normal h
    rw [hparse] at this
    cases this
    rfl
  stored := by rw [haddr, Option.map_some, Option.map_none]
  written := by rw [strchrAt_eq_none hat, Option.map_none]
  checked domain red hdomain := localAddress_eq (by rw [strchrAt_eq_none hat]) hdomain

/-- An address whose local part has no `@` has one meaning. -/
theorem oneMeaning_some {user dom : Text} (hat : '@' ∉ user)
    (htoken : ∀ d, tokenUser (user ++ '@' :: d) = some (user, '@' :: d))
    (hparse : parseEmailaddr .normal (user ++ '@' :: dom) = some (user ++ '@' :: dom, some dom)) :
    OneMeaning (user ++ '@' :: dom) (some (user, dom)) where
  parsed mode path domain h := by
    have := parseEmailaddr_normal h
    rw [hparse] at this
    cases this
    rfl
  stored := by
    rw [addressAt_eq htoken]
    simp
  written := by rw [strchrAt_append hat]
  checked domain red hdomain := localAddress_eq (by rw [strchrAt_append hat]) hdomain

/-- **The four places agree** on an accepted address exactly when its local part is no quoted string with
    an `@`. -/
theorem oneMeaning_iff (addr : Text) (h : isEmailaddr addr = true) :
    (∃ split, OneMeaning addr split) ↔
      ∀ user rest, tokenQuotedString addr = some (user, rest) → '@' ∉ user := by
  obtain ⟨⟨a, domain⟩, hparse⟩ := Option.isSome_iff_exists.mp h
  obtain ⟨rfl, hcases⟩ := parseNormal_cases hparse
  rcases hcases with ⟨rfl, hnone⟩ | ⟨user, dom, rfl, rfl, htoken⟩
  · have hat : '@' ∉ a := by
      rcases hnone with rfl | hpost
      · exact List.not_mem_nil
      · rw [strcaseEq_comm] at hpost
        exact at_notMem_of_postmaster hpost
    constructor
    · intro _ user rest htoken hmem
      apply hat
      rw [(tokenQuotedString_append htoken).1]
      exact List.mem_append_left _ hmem
    · intro _
      exact ⟨none, oneMeaning_none hat (by unfold addressAt; rw [if_pos hnone]) hparse⟩
  · constructor
    · rintro ⟨split, hone⟩ quoted rest hquoted hmem
      have hquote : (user ++ '@' :: dom).head? = some '"' := by
        unfold tokenQuotedString at hquoted
        split at hquoted
        · rename_i heq
          rw [heq]
          rfl
        · cases hquoted
      have huser : quoted = user := by
        have := htoken dom
        unfold tokenUser at this
        rw [if_pos hquote, hquoted] at this
        exact (Prod.mk.inj (Option.some.inj this)).1
      have hsplit := hone.stored
      rw [addressAt_eq htoken] at hsplit
      have hwritten := hone.written
      rw [← Option.some.inj hsplit] at hwritten
      obtain ⟨⟨u, d⟩, hstr, hd⟩ := Option.map_eq_some_iff.mp hwritten
      obtain ⟨heq, hat⟩ := strchrAt_spec hstr
      -- the text in front of the first `@` is shorter than the quoted string
      have hlen := congrArg List.length heq
      simp at hd
      subst hd
      rw [List.length_append, List.length_append, List.length_cons] at hlen
      have hu := (List.append_inj heq (by omega)).1
      rw [huser, hu] at hmem
      exact hat hmem
    · intro hquoted
      have hat : '@' ∉ user := by
        intro hmem
        have := htoken dom
        unfold tokenUser at this
        split at this
        · exact hquoted _ _ this hmem
        · have := (tokenDotAtom_spec this).2.2 '@' hmem
          rw [isDotAtomText_at] at this
          cases this
      exact ⟨_, oneMeaning_some hat htoken hparse⟩

theorem oneMeaning_iff_quoted :
    (∃ split, OneMeaning "\"john doe\"@example.com".toList split) ↔
      ∀ user rest, tokenQuotedString "\"john doe\"@example.com".toList = some (user, rest) → '@' ∉ user :=
  oneMeaning_iff _ (by decide)

/-- `"a@b"@c.d` is accepted for `c.d` and written out for the host `b"@c.d`. -/
theorem not_oneMeaning : ¬ ∀ addr, isEmailaddr addr = true → ∃ split, OneMeaning addr split := by
  intro h
  obtain ⟨split, hone⟩ := h "\"a@b\"@c.d".toList (by decide)
  have hparsed := hone.parsed .normal "\"a@b\"@c.d".toList (some "c.d".toList) (by decide)
  have hwritten := hone.written
  rw [← hparsed] at hwritten
  revert hwritten
  decide

end Simta
