import Mathlib.Data.List.TakeWhile
import Simta.Envelope

/-!
# Mail addresses on the command line

The tokens of `header.c` and `parse_emailaddr`, which reads a path in one of three modes.  A
pointer into a string is the rest of the string from there on.

* `tokenQuotedString`, `tokenDomainLiteral`, `tokenDomain`, `tokenDotAtom` — a token and what follows;
* `parseEmailaddr` — the user and the domain of an accepted address;
* `tokenUser_append` — the local part is read the same whatever follows it.
-/

set_option autoImplicit false

namespace Simta

/-- `RFC_2821_MAIL_FROM`, `RFC_2821_RCPT_TO`, `EMAIL_ADDRESS_NORMAL`. -/
inductive AddressMode
  | mailFrom
  | rcptTo
  | normal
  deriving DecidableEq, Repr

/-- `SIMTA_MAX_HOST_NAME_LEN`. -/
def simtaMaxHostNameLen : Nat := 256

/-- `STRING_POSTMASTER`. -/
def stringPostmaster : Text := "postmaster".toList

/-! ## Tokens -/

/-- Up to and with the first `close` that no backslash quotes. -/
def tokenQuoted (close : Char) : Text → Option (Text × Text)
  | [] => none
  | '\\' :: [] => none
  | '\\' :: c :: rest => (tokenQuoted close rest).map fun t => ('\\' :: c :: t.1, t.2)
  | c :: rest =>
    if c = close then some ([c], rest)
    else (tokenQuoted close rest).map fun t => (c :: t.1, t.2)

/-- `token_quoted_string`. -/
def tokenQuotedString : Text → Option (Text × Text)
  | '"' :: rest => (tokenQuoted '"' rest).map fun t => ('"' :: t.1, t.2)
  | _ => none

/-- `token_domain_literal`. -/
def tokenDomainLiteral : Text → Option (Text × Text)
  | '[' :: rest => (tokenQuoted ']' rest).map fun t => ('[' :: t.1, t.2)
  | _ => none

/-- `is_dot_atom_text`. -/
def isDotAtomText (c : Char) : Bool := c.isAlphanum || "!#$%&'*+-/=?^_`\x7b|\x7d~.".toList.contains c

/-- `token_domain`. -/
def tokenDomain : Text → Option (Text × Text)
  | [] => none
  | c :: rest =>
    let p (c : Char) := c.isAlphanum || c = '.' || c = '-'
    if c.isAlphanum then some (c :: rest.takeWhile p, rest.dropWhile p) else none

/-- `token_dot_atom`. -/
def tokenDotAtom (start : Text) : Option (Text × Text) :=
  match start.takeWhile isDotAtomText with
  | [] => none
  | t => some (t, start.dropWhile isDotAtomText)

/-! ## Routes and paths -/

/-- A domain of a source route, and what follows. -/
def routeDomain (u : Text) : Option (Text × Text) :=
  if u.head? = some '[' then tokenDomainLiteral u else tokenDomain u

/-- The source route `A-d-l ":"` from behind its first `@`, read away; it has fewer domains than
    characters. -/
def parseRoute : Nat → Text → Option Text
  | 0, _ => none
  | fuel + 1, u =>
    match routeDomain u with
    | none => none
    | some (_, rest) =>
      match rest with
      | ',' :: '@' :: u => parseRoute fuel u
      | ':' :: u => some u
      | _ => none

/-- The user portion of an address, and what follows. -/
def tokenUser (u : Text) : Option (Text × Text) :=
  if u.head? = some '"' then tokenQuotedString u else tokenDotAtom u

/-- The domain portion of an address, and what follows. -/
def tokenAddressDomain (d : Text) : Option (Text × Text) :=
  if d.head? = some '[' then tokenDomainLiteral d else tokenDotAtom d

/-- What must follow the domain. -/
def pathEnd : AddressMode → Text
  | .normal => []
  | _ => ['>']

/-- The domain portion behind the `@` and the end of the path. -/
def parseAddressDomain (mode : AddressMode) (user d : Text) : Option (Text × Option Text) :=
  if simtaMaxHostNameLen < d.length then none
  else
    match tokenAddressDomain d with
    | none => none
    | some (domain, eol) =>
      if eol = pathEnd mode then some (user ++ '@' :: domain, some domain)
      else none

/-- The path behind the `<` and the source route. -/
def parseMailbox (mode : AddressMode) (u : Text) : Option (Text × Option Text) :=
  if u.head? = some '>' then
    if mode = .mailFrom ∧ u.tail = [] then some ([], none) else none
  else
    match tokenUser u with
    | none => none
    | some (user, rest) =>
      if (rest = [] ∧ mode = .normal) ∨ (rest.head? = some '>' ∧ mode = .rcptTo) then
        if strcaseEq user stringPostmaster then some (user, none) else none
      else
        match rest with
        | '@' :: d => parseAddressDomain mode user d
        | _ => none

/-- `parse_emailaddr`: what `*user` and `*domain` point to when it returns 0. -/
def parseEmailaddr (mode : AddressMode) (addr : Text) : Option (Text × Option Text) :=
  if mode = .normal then
    if addr = [] then some ([], none)
    else if addr.head? = some '@' then none
    else parseMailbox mode addr
  else
    match addr with
    | '<' :: '@' :: u => (parseRoute (u.length + 1) u).bind (parseMailbox mode)
    | '<' :: u => if u = [] then none else parseMailbox mode u
    | _ => none

/-! ## Tokens are prefixes -/

theorem tokenQuoted_append {close : Char} {s t rest : Text} (h : tokenQuoted close s = some (t, rest)) :
    s = t ++ rest ∧ ∀ u, tokenQuoted close (t ++ u) = some (t, u) := by
  fun_induction tokenQuoted close s generalizing t rest with
  | case1 => cases h
  | case2 => cases h
  | case3 c s ih =>
    obtain ⟨⟨t', rest'⟩, ht, heq⟩ := Option.map_eq_some_iff.mp h
    obtain ⟨rfl, rfl⟩ := Prod.mk.inj heq
    obtain ⟨hs, hu⟩ := ih ht
    constructor
    · rw [hs]
      rfl
    · intro u
      simp [tokenQuoted, hu]
  | case4 s h₁ h₂ =>
    obtain ⟨rfl, rfl⟩ := Prod.mk.inj (Option.some.inj h)
    constructor
    · rfl
    · intro u
      have hc : close ≠ '\\' := by
        rintro rfl
        cases s with
        | nil => exact h₁ rfl rfl
        | cons d s => exact h₂ d s rfl rfl
      simp [tokenQuoted, hc]
  | case5 c s h₁ h₂ hne ih =>
    obtain ⟨⟨t', rest'⟩, ht, heq⟩ := Option.map_eq_some_iff.mp h
    obtain ⟨rfl, rfl⟩ := Prod.mk.inj heq
    obtain ⟨hs, hu⟩ := ih ht
    constructor
    · rw [hs]
      rfl
    · intro u
      have hc : c ≠ '\\' := by
        rintro rfl
        cases s with
        | nil => exact h₁ rfl rfl
        | cons d s => exact h₂ d s rfl rfl
      simp [tokenQuoted, hc, hne, hu]

theorem tokenQuotedString_append {s t rest : Text} (h : tokenQuotedString s = some (t, rest)) :
    s = t ++ rest ∧ ∀ u, tokenQuotedString (t ++ u) = some (t, u) := by
  unfold tokenQuotedString at h
  split at h
  · rename_i s
    obtain ⟨⟨t', rest'⟩, ht, heq⟩ := Option.map_eq_some_iff.mp h
    obtain ⟨rfl, rfl⟩ := Prod.mk.inj heq
    obtain ⟨rfl, hu⟩ := tokenQuoted_append ht
    constructor
    · rfl
    · intro u
      simp [tokenQuotedString, hu]
  · cases h

theorem tokenDotAtom_spec {s t rest : Text} (h : tokenDotAtom s = some (t, rest)) :
    s = t ++ rest ∧ t ≠ [] ∧ ∀ c ∈ t, isDotAtomText c = true := by
  unfold tokenDotAtom at h
  split at h
  · cases h
  · rename_i hne
    obtain ⟨rfl, rfl⟩ := Prod.mk.inj (Option.some.inj h)
    exact ⟨List.takeWhile_append_dropWhile.symm, fun h => hne h, fun c hc => List.mem_takeWhile_imp hc⟩

/-- A dot-atom ends where something else follows. -/
theorem tokenDotAtom_append {t u : Text} (hne : t ≠ []) (ht : ∀ c ∈ t, isDotAtomText c = true)
    (hu : ∀ c ∈ u.head?, isDotAtomText c = false) : tokenDotAtom (t ++ u) = some (t, u) := by
  have htake : u.takeWhile isDotAtomText = [] ∧ u.dropWhile isDotAtomText = u := by
    cases u with
    | nil => exact ⟨rfl, rfl⟩
    | cons c u =>
      have hc := hu c rfl
      simp [hc]
  unfold tokenDotAtom
  rw [List.takeWhile_append_of_pos ht, List.dropWhile_append_of_pos ht, htake.1, htake.2, List.append_nil]
  cases t with
  | nil => exact absurd rfl hne
  | cons c t => rfl

theorem isDotAtomText_at : isDotAtomText '@' = false := by decide

/-- The first character of a token, which tells quoted strings and dot-atoms apart. -/
theorem head?_append_of_ne_nil {t u : Text} (ht : t ≠ []) : (t ++ u).head? = t.head? := by
  cases t with
  | nil => exact absurd rfl ht
  | cons c t => rfl

/-- **The local part of an address** is read the same when nothing follows, or an `@`. -/
theorem tokenUser_append {s user rest : Text} (h : tokenUser s = some (user, rest)) :
    s = user ++ rest ∧ user ≠ [] ∧ user.head? ≠ some '@' ∧ user.head? ≠ some '>' ∧
      ∀ d, (∀ c ∈ d.head?, c = '@') → tokenUser (user ++ d) = some (user, d) := by
  unfold tokenUser at h
  split at h
  · rename_i hquote
    obtain ⟨hs, hu⟩ := tokenQuotedString_append h
    have hne : user ≠ [] := by
      rintro rfl
      have := hu []
      simp [tokenQuotedString] at this
    have hhead : user.head? = some '"' := by
      rw [← head?_append_of_ne_nil hne, ← hs]
      exact hquote
    refine ⟨hs, hne, by rw [hhead]; decide, by rw [hhead]; decide, fun d _ => ?_⟩
    unfold tokenUser
    rw [head?_append_of_ne_nil hne, if_pos hhead]
    exact hu _
  · rename_i hquote
    obtain ⟨hs, hne, hall⟩ := tokenDotAtom_spec h
    have hhead : user.head? ≠ some '"' := by
      rw [← head?_append_of_ne_nil hne, ← hs]
      exact hquote
    have hfirst : ∀ c, isDotAtomText c = false → user.head? ≠ some c := by
      intro c hc h
      have := hall c (List.mem_of_mem_head? h)
      rw [hc] at this
      cases this
    refine ⟨hs, hne, hfirst _ isDotAtomText_at, hfirst _ (by decide), fun d hd => ?_⟩
    unfold tokenUser
    rw [head?_append_of_ne_nil hne, if_neg hhead]
    exact tokenDotAtom_append hne hall fun c hc => by rw [hd c hc]; exact isDotAtomText_at

/-- A domain is read the same when it ends the address. -/
theorem tokenAddressDomain_self {d domain rest : Text} (h : tokenAddressDomain d = some (domain, rest)) :
    d = domain ++ rest ∧ tokenAddressDomain domain = some (domain, []) := by
  unfold tokenAddressDomain at h
  split at h
  · rename_i hbracket
    unfold tokenDomainLiteral at h
    split at h
    · rename_i s
      obtain ⟨⟨t', rest'⟩, ht, heq⟩ := Option.map_eq_some_iff.mp h
      obtain ⟨rfl, rfl⟩ := Prod.mk.inj heq
      obtain ⟨rfl, hu⟩ := tokenQuoted_append ht
      constructor
      · rfl
      · have := hu []
        rw [List.append_nil] at this
        simp [tokenAddressDomain, tokenDomainLiteral, this]
    · cases h
  · rename_i hbracket
    obtain ⟨hs, hne, hall⟩ := tokenDotAtom_spec h
    have hhead : domain.head? ≠ some '[' := by
      rw [← head?_append_of_ne_nil hne, ← hs]
      exact hbracket
    have hself := tokenDotAtom_append (u := []) hne hall (fun c hc => by cases hc)
    rw [List.append_nil] at hself
    exact ⟨hs, by unfold tokenAddressDomain; rw [if_neg hhead]; exact hself⟩

theorem strcaseEq_length {a b : Text} (h : strcaseEq a b = true) : a.length = b.length := by
  have := congrArg List.length (of_decide_eq_true h)
  rwa [List.length_map, List.length_map] at this

/-- The reserved mailbox name has no `@`. -/
theorem at_notMem_of_postmaster {addr : Text} (h : strcaseEq addr stringPostmaster = true) : '@' ∉ addr := by
  intro hmem
  have := List.mem_map_of_mem (f := Char.toLower) hmem
  rw [of_decide_eq_true h] at this
  revert this
  decide

theorem strcaseEq_comm (a b : Text) : strcaseEq a b = strcaseEq b a := by
  unfold strcaseEq
  exact decide_eq_decide.mpr ⟨Eq.symm, Eq.symm⟩

/-! ## The parts of an address -/

theorem parseAddressDomain_spec {mode : AddressMode} {user d addr : Text} {domain : Option Text}
    (h : parseAddressDomain mode user d = some (addr, domain)) :
    ∃ dom, domain = some dom ∧ addr = user ++ '@' :: dom := by
  unfold parseAddressDomain at h
  split at h
  · cases h
  · split at h
    · cases h
    · split at h <;> cases h
      exact ⟨_, rfl, rfl⟩

/-- An address with a domain ends in `@` and that domain. -/
theorem parseMailbox_domain {mode : AddressMode} {u addr dom : Text}
    (h : parseMailbox mode u = some (addr, some dom)) : ∃ user, addr = user ++ '@' :: dom := by
  unfold parseMailbox at h
  split at h
  · split at h <;> cases h
  · split at h
    · cases h
    · rename_i user rest _
      split at h
      · split at h <;> cases h
      · split at h
        · obtain ⟨dom', hdom, haddr⟩ := parseAddressDomain_spec h
          cases hdom
          exact ⟨user, haddr⟩
        · cases h

theorem parseEmailaddr_domain {mode : AddressMode} {s addr dom : Text}
    (h : parseEmailaddr mode s = some (addr, some dom)) : ∃ user, addr = user ++ '@' :: dom := by
  unfold parseEmailaddr at h
  split at h
  · split at h
    · cases h
    · split at h
      · cases h
      · exact parseMailbox_domain h
  · split at h
    · obtain ⟨u, -, hu⟩ := Option.bind_eq_some_iff.mp h
      exact parseMailbox_domain hu
    · split at h
      · cases h
      · exact parseMailbox_domain h
    · cases h

end Simta
