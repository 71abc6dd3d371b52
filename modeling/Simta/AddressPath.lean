import Mathlib.Data.List.GetD
import Simta.AddressGrammar

/-!
# Paths in a buffer

`parse_emailaddr` with the text that it is given, which it writes to, and the two pointers that it sets.  A pointer is
a place in the text.

* `PathResult`, `parseEmailaddrIn` — the function;
* `parseEmailaddrIn_accepted` — what it accepts is what `parseEmailaddr` reads;
* `parseEmailaddrIn_restores` — a text that is not accepted stays as it was;
* `SourceRoute`, `samePaths_iff` — when a path and its address are accepted alike.
-/

set_option autoImplicit false

namespace Simta

variable {mode : AddressMode} {a buf pre rest route user dom : Text} {u : Nat}

/-! ## The function -/

/-- What `parse_emailaddr` does: whether it returns 0, the text afterwards, and `*user` and `*domain` where they are
    set. -/
structure PathResult where
  accepted : Bool
  buffer : Text
  user : Option Nat
  domain : Option (Option Nat)
  deriving DecidableEq, Repr

/-- A pointer that is set for a path only. -/
def setFor {α : Type} (mode : AddressMode) (p : α) : Option α := if mode = .normal then none else some p

/-- The domain portion from the place `d` on. -/
def parseDomainIn (mode : AddressMode) (buf : Text) (u d : Nat) : PathResult :=
  if simtaMaxHostNameLen < (buf.drop d).length then ⟨false, buf, setFor mode u, none⟩
  else
    match tokenAddressDomain (buf.drop d) with
    | none => ⟨false, buf, setFor mode u, setFor mode (some d)⟩
    | some (domain, eol) =>
      if mode = .normal then ⟨eol = [], buf, none, none⟩
      else if eol = ['>'] then ⟨true, buf.set (d + domain.length) '\x00', some u, some (some d)⟩
      else ⟨false, buf, some u, some (some d)⟩

/-- A local part alone, which ends at the place `at_`: for the comparison the text is cut there. -/
def parseReservedIn (mode : AddressMode) (buf : Text) (u at_ : Nat) (user : Text) : PathResult :=
  if strcaseEq user stringPostmaster then
    ⟨true, buf.set at_ '\x00', setFor mode u, if mode = .rcptTo then some none else none⟩
  else ⟨false, (buf.set at_ '\x00').set at_ (buf.getD at_ '\x00'), setFor mode u, none⟩

/-- The mailbox from the place `u` on. -/
def parseMailboxIn (mode : AddressMode) (buf : Text) (u : Nat) : PathResult :=
  if (buf.drop u).head? = some '>' then
    if mode = .mailFrom ∧ (buf.drop u).tail = [] then ⟨true, buf.set u '\x00', setFor mode u, some none⟩
    else ⟨false, buf, setFor mode u, none⟩
  else
    match tokenUser (buf.drop u) with
    | none => ⟨false, buf, setFor mode u, none⟩
    | some (user, rest) =>
      if (rest = [] ∧ mode = .normal) ∨ (rest.head? = some '>' ∧ mode = .rcptTo) then
        parseReservedIn mode buf u (u + user.length) user
      else if rest.head? = some '@' then parseDomainIn mode buf u (u + user.length + 1)
      else ⟨false, buf, setFor mode u, none⟩

/-- `parse_emailaddr`. -/
def parseEmailaddrIn (mode : AddressMode) (addr : Text) : PathResult :=
  if mode = .normal then
    if addr = [] then ⟨true, addr, none, none⟩
    else if addr.head? = some '@' then ⟨false, addr, none, none⟩
    else parseMailboxIn mode addr 0
  else
    match addr with
    | '<' :: '@' :: u =>
      match parseRoute (u.length + 1) u with
      | none => ⟨false, addr, none, none⟩
      | some rest => parseMailboxIn mode addr (addr.length - rest.length)
    | '<' :: u => if u = [] then ⟨false, addr, none, none⟩ else parseMailboxIn mode addr 1
    | _ => ⟨false, addr, none, none⟩

/-! ## What is accepted, and what is restored -/

theorem parseDomainIn_accepted {d : Nat} : (parseDomainIn mode buf u d).accepted =
    (parseAddressDomain mode user (buf.drop d)).isSome := by
  unfold parseDomainIn parseAddressDomain
  split
  · rfl
  · cases htoken : tokenAddressDomain (buf.drop d) with
    | none => rfl
    | some r =>
      obtain ⟨domain, eol⟩ := r
      dsimp only
      cases mode with
      | normal =>
        rw [if_pos rfl, pathEnd]
        by_cases heol : eol = []
        · rw [if_pos heol, heol]
          rfl
        · rw [if_neg heol]
          exact decide_eq_false heol
      | mailFrom =>
        rw [if_neg (by decide), show pathEnd _ = ['>'] from rfl]
        split <;> rfl
      | rcptTo =>
        rw [if_neg (by decide), show pathEnd _ = ['>'] from rfl]
        split <;> rfl

theorem parseMailboxIn_accepted : (parseMailboxIn mode buf u).accepted = (parseMailbox mode (buf.drop u)).isSome := by
  unfold parseMailboxIn parseMailbox
  split
  · split <;> rfl
  · cases htoken : tokenUser (buf.drop u) with
    | none => rfl
    | some r =>
      obtain ⟨user, rest⟩ := r
      have hrest : buf.drop u = user ++ rest := (tokenUser_append htoken).1
      dsimp only
      split
      · unfold parseReservedIn
        split <;> rfl
      · cases rest with
        | nil => rfl
        | cons c d =>
          by_cases hc : c = '@'
          · subst hc
            rw [List.head?_cons, if_pos rfl, @parseDomainIn_accepted mode _ user]
            have hd : buf.drop (u + user.length + 1) = d := by
              rw [Nat.add_assoc, ← List.drop_drop, hrest, ← List.drop_drop, List.drop_left]
              rfl
            rw [hd]
            rfl
          · simp [hc]

/-! ## Routes -/

/-- The characters of a name in a route. -/
def isRouteText (c : Char) : Bool := c.isAlphanum || c = '.' || c = '-'

/-- A domain of a route: a name that begins with a letter or a digit, or a literal. -/
def RouteDomain (t : Text) : Prop :=
  (∃ c s, t = c :: s ∧ c.isAlphanum = true ∧ ∀ d ∈ s, isRouteText d = true) ∨ tokenDomainLiteral t = some (t, [])

/-- A source route: domains, each behind an `@`, with commas between them and a colon behind the last. -/
inductive SourceRoute : Text → Prop
  | last {t : Text} (h : RouteDomain t) : SourceRoute ('@' :: (t ++ [':']))
  | more {t r : Text} (h : RouteDomain t) (hr : SourceRoute r) : SourceRoute ('@' :: (t ++ ',' :: r))

theorem tokenDomainLiteral_append {s t : Text} (h : tokenDomainLiteral s = some (t, rest)) :
    s = t ++ rest ∧ t.head? = some '[' ∧ ∀ x, tokenDomainLiteral (t ++ x) = some (t, x) := by
  unfold tokenDomainLiteral at h
  split at h
  · rename_i s
    obtain ⟨⟨t', rest'⟩, ht, heq⟩ := Option.map_eq_some_iff.mp h
    obtain ⟨rfl, rfl⟩ := Prod.mk.inj heq
    obtain ⟨rfl, happ⟩ := tokenQuoted_append ht
    refine ⟨rfl, rfl, fun x => ?_⟩
    simp [tokenDomainLiteral, happ]
  · cases h

/-- A domain of a route ends where none of its characters follows. -/
theorem routeDomain_append {t x : Text} (h : RouteDomain t) (hx : ∀ c ∈ x.head?, isRouteText c = false) :
    routeDomain (t ++ x) = some (t, x) := by
  rcases h with ⟨c, s, rfl, hc, hs⟩ | h
  · have hhead : (c :: s ++ x).head? ≠ some '[' := by
      rw [List.cons_append, List.head?_cons]
      rintro heq
      cases heq
      revert hc
      decide
    have hnone : x.takeWhile isRouteText = [] ∧ x.dropWhile isRouteText = x := by
      cases x with
      | nil => exact ⟨rfl, rfl⟩
      | cons d x => simp [hx d rfl]
    unfold routeDomain
    rw [if_neg hhead, List.cons_append, tokenDomain, if_pos hc]
    show some (c :: (s ++ x).takeWhile isRouteText, (s ++ x).dropWhile isRouteText) = _
    rw [List.takeWhile_append_of_pos hs, List.dropWhile_append_of_pos hs, hnone.1, hnone.2, List.append_nil]
  · obtain ⟨-, hhead, happ⟩ := tokenDomainLiteral_append h
    have hne : t ≠ [] := by
      rintro rfl
      cases hhead
    unfold routeDomain
    rw [head?_append_of_ne_nil hne, if_pos hhead]
    exact happ x

theorem routeDomain_spec {t : Text} (h : routeDomain buf = some (t, rest)) : buf = t ++ rest ∧ RouteDomain t := by
  unfold routeDomain at h
  split at h
  · obtain ⟨hs, -, happ⟩ := tokenDomainLiteral_append h
    have hself := happ []
    rw [List.append_nil] at hself
    exact ⟨hs, .inr hself⟩
  · unfold tokenDomain at h
    split at h
    · cases h
    · dsimp only at h
      split at h
      · rename_i hc
        obtain ⟨rfl, rfl⟩ := Prod.mk.inj (Option.some.inj h)
        refine ⟨?_, .inl ⟨_, _, rfl, hc, fun d hd => List.mem_takeWhile_imp hd⟩⟩
        rw [List.cons_append, List.takeWhile_append_dropWhile]
      · cases h

/-- **A route is read away.** -/
theorem SourceRoute.parse (h : SourceRoute route) : ∀ {d x : Text} {fuel : Nat}, route = '@' :: d → d.length < fuel →
    parseRoute fuel (d ++ x) = some x := by
  induction h with
  | @last t ht =>
    intro d x fuel hd hfuel
    cases hd
    cases fuel with
    | zero => cases hfuel
    | succ fuel =>
      rw [parseRoute, List.append_assoc, routeDomain_append ht (fun c hc => by cases hc; decide)]
      rfl
  | @more t r ht hr ih =>
    intro d x fuel hd hfuel
    cases hd
    cases fuel with
    | zero => cases hfuel
    | succ fuel =>
      rw [parseRoute, List.append_assoc, routeDomain_append ht (fun c hc => by cases hc; decide)]
      have hnext : ∃ d', r = '@' :: d' := by
        cases hr <;> exact ⟨_, rfl⟩
      obtain ⟨d', rfl⟩ := hnext
      apply ih rfl
      simp only [List.length_append, List.length_cons] at hfuel
      omega

/-- What is read away is a route. -/
theorem parseRoute_spec (fuel : Nat) : ∀ {s rest : Text}, parseRoute fuel s = some rest →
    ∃ d, s = d ++ rest ∧ SourceRoute ('@' :: d) := by
  induction fuel with
  | zero =>
    intro s rest h
    cases h
  | succ fuel ih =>
    intro s rest h
    unfold parseRoute at h
    split at h
    · cases h
    · rename_i t rest' hdomain
      obtain ⟨rfl, ht⟩ := routeDomain_spec hdomain
      split at h
      · rename_i next
        obtain ⟨d, rfl, hd⟩ := ih h
        exact ⟨t ++ ',' :: '@' :: d, by simp, .more ht hd⟩
      · cases h
        exact ⟨t ++ [':'], by simp, .last ht⟩
      · cases h

/-! ## The two levels -/

/-- A path begins with a route, with a mailbox, or is none. -/
theorem path_cases (addr : Text) :
    (∃ s, addr = '<' :: '@' :: s) ∨ (∃ s, addr = '<' :: s ∧ s.head? ≠ some '@') ∨ addr.head? ≠ some '<' := by
  cases addr with
  | nil => exact .inr (.inr (fun h => by cases h))
  | cons c s =>
    by_cases hc : c = '<'
    · subst hc
      by_cases hat : s.head? = some '@'
      · cases s with
        | nil => cases hat
        | cons d s =>
          cases hat
          exact .inl ⟨s, rfl⟩
      · exact .inr (.inl ⟨s, rfl, hat⟩)
    · exact .inr (.inr (fun h => hc (Option.some.inj h)))

variable {s : Text}

theorem parseEmailaddrIn_route (hmode : mode ≠ .normal) : parseEmailaddrIn mode ('<' :: '@' :: s) =
    match parseRoute (s.length + 1) s with
    | none => ⟨false, '<' :: '@' :: s, none, none⟩
    | some rest => parseMailboxIn mode ('<' :: '@' :: s) (('<' :: '@' :: s).length - rest.length) := by
  unfold parseEmailaddrIn
  rw [if_neg hmode]
  rfl

theorem parseEmailaddrIn_mailbox (hmode : mode ≠ .normal) (hat : s.head? ≠ some '@') :
    parseEmailaddrIn mode ('<' :: s) =
      if s = [] then ⟨false, '<' :: s, none, none⟩ else parseMailboxIn mode ('<' :: s) 1 := by
  unfold parseEmailaddrIn
  rw [if_neg hmode]
  cases s with
  | nil => rfl
  | cons c s =>
    have hc : c ≠ '@' := fun h => hat (congrArg some h)
    simp [hc]

theorem parseEmailaddrIn_other (hmode : mode ≠ .normal) {addr : Text} (hhead : addr.head? ≠ some '<') :
    parseEmailaddrIn mode addr = ⟨false, addr, none, none⟩ := by
  unfold parseEmailaddrIn
  rw [if_neg hmode]
  cases addr with
  | nil => rfl
  | cons c s =>
    have hc : c ≠ '<' := fun h => hhead (congrArg some h)
    simp [hc]

/-- The place behind a route. -/
theorem drop_route {d rest : Text} :
    ('<' :: '@' :: (d ++ rest)).length - rest.length = ('<' :: '@' :: d).length := by
  simp only [List.length_cons, List.length_append]
  omega

/-- **What is accepted** is what is read. -/
theorem parseEmailaddrIn_accepted (mode : AddressMode) (addr : Text) :
    (parseEmailaddrIn mode addr).accepted = (parseEmailaddr mode addr).isSome := by
  by_cases hmode : mode = .normal
  · unfold parseEmailaddrIn parseEmailaddr
    rw [if_pos hmode, if_pos hmode]
    split
    · rfl
    · split
      · rfl
      · exact parseMailboxIn_accepted
  · rcases path_cases addr with ⟨s, rfl⟩ | ⟨s, rfl, hat⟩ | hhead
    · rw [parseEmailaddrIn_route hmode]
      unfold parseEmailaddr
      rw [if_neg hmode]
      cases hroute : parseRoute (s.length + 1) s with
      | none => simp only [hroute]; rfl
      | some rest =>
        obtain ⟨d, rfl, -⟩ := parseRoute_spec _ hroute
        simp only [hroute]
        rw [parseMailboxIn_accepted, drop_route]
        have hrest : ('<' :: '@' :: (d ++ rest)).drop ('<' :: '@' :: d).length = rest :=
          @List.drop_left _ ('<' :: '@' :: d) rest
        rw [hrest]
        rfl
    · rw [parseEmailaddrIn_mailbox hmode hat]
      unfold parseEmailaddr
      rw [if_neg hmode]
      cases s with
      | nil => rfl
      | cons c s =>
        have hc : c ≠ '@' := fun h => hat (congrArg some h)
        rw [if_neg (List.cons_ne_nil c s), parseMailboxIn_accepted]
        simp [hc]
    · rw [parseEmailaddrIn_other hmode hhead]
      unfold parseEmailaddr
      rw [if_neg hmode]
      cases addr with
      | nil => rfl
      | cons c s =>
        have hc : c ≠ '<' := fun h => hhead (congrArg some h)
        simp [hc]

theorem parseDomainIn_restores {d : Nat} (h : (parseDomainIn mode buf u d).accepted = false) :
    (parseDomainIn mode buf u d).buffer = buf := by
  unfold parseDomainIn at h ⊢
  split
  · rfl
  · rename_i hlong
    rw [if_neg hlong] at h
    split
    · rfl
    · rename_i htoken
      rw [htoken] at h
      dsimp only at h
      split
      · rfl
      · rename_i hmode
        rw [if_neg hmode] at h
        split
        · rename_i heol
          rw [if_pos heol] at h
          cases h
        · rfl

theorem parseReservedIn_restores {at_ : Nat} (h : (parseReservedIn mode buf u at_ user).accepted = false) :
    (parseReservedIn mode buf u at_ user).buffer = buf := by
  unfold parseReservedIn at h ⊢
  split
  · rename_i hpost
    rw [if_pos hpost] at h
    cases h
  · show (buf.set at_ '\x00').set at_ (buf.getD at_ '\x00') = buf
    rw [List.set_set]
    by_cases hat : at_ < buf.length
    · rw [List.getD_eq_getElem _ _ hat, List.set_getElem_self]
    · exact List.set_eq_of_length_le (Nat.le_of_not_lt hat)

theorem parseMailboxIn_restores (h : (parseMailboxIn mode buf u).accepted = false) :
    (parseMailboxIn mode buf u).buffer = buf := by
  unfold parseMailboxIn at h ⊢
  split
  · rename_i hgt
    rw [if_pos hgt] at h
    split
    · rename_i hmode
      rw [if_pos hmode] at h
      cases h
    · rfl
  · rename_i hgt
    rw [if_neg hgt] at h
    cases htoken : tokenUser (buf.drop u) with
    | none => rfl
    | some r =>
      rw [htoken] at h
      dsimp only at h ⊢
      split
      · rename_i hend
        rw [if_pos hend] at h
        exact parseReservedIn_restores h
      · rename_i hend
        rw [if_neg hend] at h
        split
        · rename_i hat
          rw [if_pos hat] at h
          exact parseDomainIn_restores h
        · rfl

/-- **A text that is not accepted** stays as it was. -/
theorem parseEmailaddrIn_restores (mode : AddressMode) (addr : Text) (h : (parseEmailaddrIn mode addr).accepted = false) :
    (parseEmailaddrIn mode addr).buffer = addr := by
  by_cases hmode : mode = .normal
  · unfold parseEmailaddrIn at h ⊢
    rw [if_pos hmode] at h ⊢
    split
    · rfl
    · rename_i hnil
      rw [if_neg hnil] at h
      split
      · rfl
      · rename_i hat
        rw [if_neg hat] at h
        exact parseMailboxIn_restores h
  · rcases path_cases addr with ⟨s, rfl⟩ | ⟨s, rfl, hat⟩ | hhead
    · rw [parseEmailaddrIn_route hmode] at h ⊢
      split
      · rfl
      · rename_i hroute
        simp only [hroute] at h
        exact parseMailboxIn_restores h
    · rw [parseEmailaddrIn_mailbox hmode hat] at h ⊢
      split
      · rfl
      · rename_i hnil
        rw [if_neg hnil] at h
        exact parseMailboxIn_restores h
    · rw [parseEmailaddrIn_other hmode hhead]

/-! ## The bracket behind a mailbox -/

theorem tokenQuoted_cons {close c : Char} (hslash : c ≠ '\\') (s : Text) : tokenQuoted close (c :: s) =
    if c = close then some ([c], s) else (tokenQuoted close s).map fun t => (c :: t.1, t.2) := by
  cases s <;> simp [tokenQuoted, hslash]

theorem tokenQuoted_gt {close : Char} (hclose : close ≠ '>') (s : Text) :
    tokenQuoted close (s ++ ['>']) = (tokenQuoted close s).map fun t => (t.1, t.2 ++ ['>']) := by
  fun_induction tokenQuoted close s with
  | case1 =>
    have hne : ¬ '>' = close := fun h => hclose h.symm
    simp [tokenQuoted, hne]
  | case2 => rfl
  | case3 c s ih =>
    show (tokenQuoted close (s ++ ['>'])).map _ = _
    rw [ih, Option.map_map, Option.map_map]
    rfl
  | case4 s h₁ h₂ =>
    have hslash : close ≠ '\\' := by
      rintro rfl
      cases s with
      | nil => exact h₁ rfl rfl
      | cons d s => exact h₂ d s rfl rfl
    simp [tokenQuoted, hslash]
  | case5 c s h₁ h₂ hne ih =>
    have hslash : c ≠ '\\' := by
      rintro rfl
      cases s with
      | nil => exact h₁ rfl rfl
      | cons d s => exact h₂ d s rfl rfl
    rw [List.cons_append, tokenQuoted_cons hslash, if_neg hne, ih, Option.map_map, Option.map_map]
    rfl

theorem tokenDotAtom_gt (s : Text) : tokenDotAtom (s ++ ['>']) = (tokenDotAtom s).map fun t => (t.1, t.2 ++ ['>']) := by
  have hgt : isDotAtomText '>' = false := by decide
  have htake : (s ++ ['>']).takeWhile isDotAtomText = s.takeWhile isDotAtomText ∧
      (s ++ ['>']).dropWhile isDotAtomText = s.dropWhile isDotAtomText ++ ['>'] := by
    induction s with
    | nil => simp [hgt]
    | cons c s ih =>
      rw [List.cons_append, List.takeWhile_cons, List.takeWhile_cons, List.dropWhile_cons, List.dropWhile_cons, ih.1, ih.2]
      split
      · exact ⟨rfl, rfl⟩
      · exact ⟨rfl, rfl⟩
  unfold tokenDotAtom
  rw [htake.1, htake.2]
  split <;> rfl

/-- **The local part of a path** is that of the mailbox. -/
theorem tokenUser_gt (s : Text) : tokenUser (s ++ ['>']) = (tokenUser s).map fun t => (t.1, t.2 ++ ['>']) := by
  cases s with
  | nil => rfl
  | cons c s =>
    unfold tokenUser
    rw [List.cons_append, List.head?_cons, List.head?_cons]
    split
    · rename_i hquote
      cases hquote
      rw [tokenQuotedString, tokenQuotedString, tokenQuoted_gt (by decide), Option.map_map, Option.map_map]
      rfl
    · exact tokenDotAtom_gt (c :: s)

/-- **The domain of a path** is that of the mailbox. -/
theorem tokenAddressDomain_gt (s : Text) :
    tokenAddressDomain (s ++ ['>']) = (tokenAddressDomain s).map fun t => (t.1, t.2 ++ ['>']) := by
  cases s with
  | nil => rfl
  | cons c s =>
    unfold tokenAddressDomain
    rw [List.cons_append, List.head?_cons, List.head?_cons]
    split
    · rename_i hbracket
      cases hbracket
      rw [tokenDomainLiteral, tokenDomainLiteral, tokenQuoted_gt (by decide), Option.map_map, Option.map_map]
      rfl
    · exact tokenDotAtom_gt (c :: s)

/-! ## Mailboxes in paths -/

/-- A mailbox with a domain, one character shorter than the limit allows: the bracket is counted too. -/
def ShortMailbox (a : Text) : Prop :=
  ∃ user dom, a = user ++ '@' :: dom ∧ UserToken user ∧ DomainToken dom ∧ dom.length < simtaMaxHostNameLen

/-- The reserved mailbox name, with nothing or with a bracket behind it. -/
def ReservedMailbox (a : Text) : Prop :=
  ∃ p x, a = p ++ x ∧ strcaseEq p stringPostmaster = true ∧ (x = [] ∨ x.head? = some '>')

/-- What is accepted between a route and the bracket. -/
def PathMailbox (mode : AddressMode) (a : Text) : Prop :=
  (mode = .mailFrom ∧ a = []) ∨ (mode = .rcptTo ∧ ReservedMailbox a) ∨ ShortMailbox a

theorem ReservedMailbox.token (h : ReservedMailbox a) :
    ∃ p x, tokenUser a = some (p, x) ∧ strcaseEq p stringPostmaster = true ∧ (x = [] ∨ x.head? = some '>') := by
  obtain ⟨p, x, rfl, hpost, hx⟩ := h
  refine ⟨p, x, postmaster_append hpost ?_, hpost, hx⟩
  intro c hc
  rcases hx with rfl | hx
  · cases hc
  · cases hx.symm.trans hc
    decide

theorem parseDomain_gt {d : Text} (hmode : mode ≠ .normal) :
    (parseAddressDomain mode user (d ++ ['>'])).isSome = true ↔ DomainToken d ∧ d.length < simtaMaxHostNameLen := by
  have hend : pathEnd mode = ['>'] := by
    cases mode with
    | normal => exact absurd rfl hmode
    | mailFrom => rfl
    | rcptTo => rfl
  unfold parseAddressDomain
  rw [tokenAddressDomain_gt, hend, List.length_append, List.length_singleton]
  by_cases hlong : simtaMaxHostNameLen < d.length + 1
  · rw [if_pos hlong]
    constructor
    · exact fun h => by cases h
    · rintro ⟨-, hlt⟩
      omega
  · rw [if_neg hlong]
    unfold DomainToken
    cases htoken : tokenAddressDomain d with
    | none =>
      constructor
      · exact fun h => by cases h
      · exact fun h => by cases h.1
    | some r =>
      obtain ⟨domain, eol⟩ := r
      obtain ⟨hd, hself⟩ := tokenAddressDomain_self htoken
      show (if eol ++ ['>'] = ['>'] then _ else _ : Option _).isSome = true ↔ _
      cases eol with
      | nil =>
        rw [List.append_nil] at hd
        subst hd
        exact ⟨fun _ => ⟨rfl, by omega⟩, fun _ => rfl⟩
      | cons c eol =>
        rw [if_neg (by simp)]
        constructor
        · exact fun h => by cases h
        · exact fun h => by cases h.1

theorem ShortMailbox.token (h : ShortMailbox a) : ∃ user d, tokenUser a = some (user, '@' :: d) ∧ DomainToken d ∧
    d.length < simtaMaxHostNameLen := by
  obtain ⟨user, d, rfl, huser, hdom, hlt⟩ := h
  exact ⟨user, d, userToken_append huser d, hdom, hlt⟩

/-- Nothing in the brackets is a path for MAIL. -/
theorem pathMailbox_nil (hmode : mode ≠ .normal) :
    (parseMailbox mode ([] ++ ['>'])).isSome = true ↔ PathMailbox mode [] := by
  have hreserved : ¬ ReservedMailbox [] := by
    intro h
    obtain ⟨p, x, hp, -⟩ := h.token
    cases hp
  have hshort : ¬ ShortMailbox [] := by
    intro h
    obtain ⟨user, d, hd, -⟩ := h.token
    cases hd
  unfold PathMailbox
  cases mode with
  | normal => exact absurd rfl hmode
  | mailFrom => exact ⟨fun _ => .inl ⟨rfl, rfl⟩, fun _ => rfl⟩
  | rcptTo =>
    constructor
    · exact fun h => by cases h
    · rintro (⟨hm, -⟩ | ⟨-, h⟩ | h)
      · cases hm
      · exact absurd h hreserved
      · exact absurd h hshort

/-- What must be behind the local part of a path. -/
theorem parseMailbox_gt (hne : a ≠ []) : (parseMailbox mode (a ++ ['>'])).isSome = true ↔
    ∃ user rest, tokenUser a = some (user, rest) ∧
      if (rest = [] ∨ rest.head? = some '>') ∧ mode = .rcptTo then strcaseEq user stringPostmaster = true
      else ∃ d, rest = '@' :: d ∧ (parseAddressDomain mode user (d ++ ['>'])).isSome = true := by
  unfold parseMailbox
  rw [head?_append_of_ne_nil hne, tokenUser_gt]
  by_cases hgt : a.head? = some '>'
  · cases a with
    | nil => exact absurd rfl hne
    | cons c a =>
      cases hgt
      have htail : ¬ (mode = .mailFrom ∧ ('>' :: a ++ ['>']).tail = []) := by simp
      rw [List.head?_cons, if_pos rfl, if_neg htail]
      constructor
      · exact fun h => by cases h
      · rintro ⟨user, rest, htoken, -⟩
        obtain ⟨hs, huser, -, hgt, -⟩ := tokenUser_append htoken
        rw [← head?_append_of_ne_nil huser, ← hs] at hgt
        exact absurd rfl hgt
  · rw [if_neg hgt]
    cases htoken : tokenUser a with
    | none =>
      constructor
      · exact fun h => by cases h
      · rintro ⟨user, rest, h, -⟩
        cases h
    | some r =>
      obtain ⟨user, rest⟩ := r
      dsimp only [Option.map_some]
      have hend : ((rest ++ ['>'] = [] ∧ mode = .normal) ∨ (rest ++ ['>']).head? = some '>' ∧ mode = .rcptTo) ↔
          (rest = [] ∨ rest.head? = some '>') ∧ mode = .rcptTo := by
        cases rest <;> simp
      have hsome : ∀ {P : Text → Text → Prop},
          (∃ user' rest', some (user, rest) = some (user', rest') ∧ P user' rest') ↔ P user rest := by
        intro P
        constructor
        · rintro ⟨user', rest', heq, h⟩
          cases heq
          exact h
        · exact fun h => ⟨user, rest, rfl, h⟩
      rw [hsome]
      by_cases hif : (rest = [] ∨ rest.head? = some '>') ∧ mode = .rcptTo
      · rw [if_pos (hend.mpr hif), if_pos hif]
        split
        · rename_i hpost
          exact ⟨fun _ => hpost, fun _ => rfl⟩
        · rename_i hpost
          exact ⟨(fun h => by cases h), fun h => absurd h hpost⟩
      · rw [if_neg (fun h => hif (hend.mp h)), if_neg hif]
        cases rest with
        | nil => simp
        | cons c d =>
          by_cases hat : c = '@'
          · subst hat
            constructor
            · exact fun h => ⟨d, rfl, h⟩
            · rintro ⟨d', heq, h⟩
              cases heq
              exact h
          · simp [hat]

/-- **What is accepted in a path.** -/
theorem pathMailbox_iff (hmode : mode ≠ .normal) :
    (parseMailbox mode (a ++ ['>'])).isSome = true ↔ PathMailbox mode a := by
  by_cases hne : a = []
  · rw [hne]
    exact pathMailbox_nil hmode
  · rw [parseMailbox_gt hne]
    constructor
    · rintro ⟨user, rest, htoken, h⟩
      obtain ⟨hs, -⟩ := tokenUser_append htoken
      split at h
      · rename_i hend
        exact .inr (.inl ⟨hend.2, user, rest, hs, h, hend.1⟩)
      · obtain ⟨d, rfl, h⟩ := h
        obtain ⟨hdom, hlt⟩ := (parseDomain_gt hmode).mp h
        exact .inr (.inr ⟨user, d, hs, tokenUser_token htoken, hdom, hlt⟩)
    · rintro (⟨-, hnil⟩ | ⟨hm, h⟩ | h)
      · exact absurd hnil hne
      · obtain ⟨p, x, htoken, hpost, hx⟩ := h.token
        refine ⟨p, x, htoken, ?_⟩
        rw [if_pos ⟨hx, hm⟩]
        exact hpost
      · obtain ⟨user, d, htoken, hdom, hlt⟩ := h.token
        refine ⟨user, '@' :: d, htoken, ?_⟩
        rw [if_neg (by simp)]
        exact ⟨d, rfl, (parseDomain_gt hmode).mpr ⟨hdom, hlt⟩⟩

/-- **The pointers and the text** behind a mailbox with a domain. -/
theorem parseMailboxIn_short (hmode : mode ≠ .normal) (huser : UserToken user) (hdom : DomainToken dom)
    (hlt : dom.length < simtaMaxHostNameLen) (pre : Text) :
    parseMailboxIn mode (pre ++ (user ++ '@' :: dom ++ ['>'])) pre.length =
      ⟨true, pre ++ (user ++ '@' :: dom ++ ['\x00']), some pre.length, some (some (pre.length + user.length + 1))⟩ := by
  obtain ⟨-, hne, -, hgt, -⟩ := tokenUser_append huser
  have hdrop : (pre ++ (user ++ '@' :: dom ++ ['>'])).drop pre.length = user ++ '@' :: dom ++ ['>'] := List.drop_left
  have hdropDomain : (pre ++ (user ++ '@' :: dom ++ ['>'])).drop (pre.length + user.length + 1) = dom ++ ['>'] := by
    rw [show pre ++ (user ++ '@' :: dom ++ ['>']) = (pre ++ user ++ ['@']) ++ (dom ++ ['>']) by simp,
      show pre.length + user.length + 1 = (pre ++ user ++ ['@']).length by simp; omega]
    exact List.drop_left
  have htoken : tokenUser (user ++ '@' :: dom ++ ['>']) = some (user, '@' :: dom ++ ['>']) := by
    rw [tokenUser_gt, userToken_append huser dom]
    rfl
  have hset : (pre ++ (user ++ '@' :: dom ++ ['>'])).set (pre.length + user.length + 1 + dom.length) '\x00' =
      pre ++ (user ++ '@' :: dom ++ ['\x00']) := by
    rw [show pre ++ (user ++ '@' :: dom ++ ['>']) = (pre ++ user ++ '@' :: dom) ++ ['>'] by simp,
      List.set_append_right _ _ (by simp; omega),
      show pre.length + user.length + 1 + dom.length - (pre ++ user ++ '@' :: dom).length = 0 by simp; omega]
    simp
  unfold parseMailboxIn
  rw [hdrop, List.append_assoc, head?_append_of_ne_nil hne, if_neg hgt, ← List.append_assoc, htoken]
  dsimp only
  rw [if_neg (by simp), List.cons_append, List.head?_cons, if_pos rfl]
  unfold parseDomainIn
  rw [hdropDomain, tokenAddressDomain_gt, show tokenAddressDomain dom = some (dom, []) from hdom,
    if_neg (by rw [List.length_append, List.length_singleton]; omega)]
  dsimp only [Option.map_some]
  rw [if_neg hmode, List.nil_append, if_pos rfl, hset]

/-! ## Paths and addresses -/

/-- The place behind a route. -/
theorem parseEmailaddrIn_routed (hmode : mode ≠ .normal) {x : Text} (hx : x ≠ [])
    (hroute : SourceRoute route ∨ (route = [] ∧ x.head? ≠ some '@')) :
    parseEmailaddrIn mode ('<' :: (route ++ x)) = parseMailboxIn mode (('<' :: route) ++ x) ('<' :: route).length := by
  rcases hroute with hroute | ⟨rfl, hat⟩
  · have hstart : ∃ d, route = '@' :: d := by
      cases hroute <;> exact ⟨_, rfl⟩
    obtain ⟨d, rfl⟩ := hstart
    rw [List.cons_append, parseEmailaddrIn_route hmode, hroute.parse rfl (by rw [List.length_append]; omega)]
    dsimp only
    rw [drop_route]
    rfl
  · rw [List.nil_append, parseEmailaddrIn_mailbox hmode hat, if_neg hx]
    rfl

/-- The path of `a` with that route in front, in the buffer. -/
def pathOf (route a : Text) : Text := '<' :: (route ++ (a ++ ['>']))

/-- A path and its address are accepted alike; of an accepted one the returned strings are the address and what is
    behind the `@` that ends its local part, with nothing behind them; one that is not accepted stays as it is. -/
structure SamePath (mode : AddressMode) (route a : Text) : Prop where
  alike : (parseEmailaddrIn mode (pathOf route a)).accepted = (parseEmailaddrIn .normal a).accepted
  parts : (parseEmailaddrIn mode (pathOf route a)).accepted = true → ∃ u d user dom, a = user ++ '@' :: dom ∧
    UserToken user ∧ (parseEmailaddrIn mode (pathOf route a)).user = some u ∧
    (parseEmailaddrIn mode (pathOf route a)).buffer.drop u = a ++ ['\x00'] ∧
    (parseEmailaddrIn mode (pathOf route a)).domain = some (some d) ∧
    (parseEmailaddrIn mode (pathOf route a)).buffer.drop d = dom ++ ['\x00']
  restored : (parseEmailaddrIn mode (pathOf route a)).accepted = false →
    (parseEmailaddrIn mode (pathOf route a)).buffer = pathOf route a

/-- The same for MAIL and for RCPT, and an address that is not accepted by itself stays as it is. -/
def SamePaths (route a : Text) : Prop :=
  SamePath .mailFrom route a ∧ SamePath .rcptTo route a ∧
    ((parseEmailaddrIn .normal a).accepted = false → (parseEmailaddrIn .normal a).buffer = a)

/-- An address whose domain has the length of the limit; the reserved name with a bracket and more behind it; or, with
    no route in front, an address that is one itself, with a mailbox behind it. -/
def PathsApart (route a : Text) : Prop :=
  (∃ user dom, a = user ++ '@' :: dom ∧ UserToken user ∧ DomainToken dom ∧ dom.length = simtaMaxHostNameLen) ∨
    (∃ p x, a = p ++ '>' :: x ∧ strcaseEq p stringPostmaster = true) ∨
    (route = [] ∧ ∃ r b, a = r ++ b ∧ SourceRoute r ∧ (PathMailbox .mailFrom b ∨ PathMailbox .rcptTo b))

theorem normal_accepted (hne : a ≠ []) (hpost : strcaseEq a stringPostmaster = false) :
    (parseEmailaddrIn .normal a).accepted = true ↔
      ∃ user dom, a = user ++ '@' :: dom ∧ UserToken user ∧ DomainToken dom ∧ dom.length ≤ simtaMaxHostNameLen := by
  rw [parseEmailaddrIn_accepted]
  refine isEmailaddr_iff.trans ?_
  simp [hne, hpost]

/-- An address that is accepted does not begin a route. -/
theorem normal_head (hat : a.head? = some '@') : (parseEmailaddrIn .normal a).accepted = false := by
  have hne : a ≠ [] := by
    rintro rfl
    cases hat
  unfold parseEmailaddrIn
  rw [if_pos rfl, if_neg hne, if_pos hat]

theorem SourceRoute.last_colon (h : SourceRoute route) : route.getLast? = some ':' := by
  induction h with
  | @last t _ => exact List.getLast?_append_of_ne_nil ('@' :: t) (List.cons_ne_nil ':' [])
  | @more t r _ hr ih =>
    have hne : r ≠ [] := by
      rintro rfl
      cases ih
    rw [show '@' :: (t ++ ',' :: r) = ('@' :: t ++ [',']) ++ r by simp, List.getLast?_append_of_ne_nil _ hne, ih]

theorem SourceRoute.head (h : SourceRoute route) : route.head? = some '@' := by
  cases h <;> rfl

/-- **What is accepted with a route in front.** -/
theorem pathOf_accepted (hmode : mode ≠ .normal) (hroute : SourceRoute route ∨ (route = [] ∧ a.head? ≠ some '@')) :
    (parseEmailaddrIn mode (pathOf route a)).accepted = true ↔ PathMailbox mode a := by
  have hhead : SourceRoute route ∨ (route = [] ∧ (a ++ ['>']).head? ≠ some '@') := by
    apply hroute.imp_right
    rintro ⟨hnil, hat⟩
    refine ⟨hnil, ?_⟩
    cases a with
    | nil => exact fun h => by cases h
    | cons c a => exact hat
  have hne : a ++ ['>'] ≠ [] := by simp
  unfold pathOf
  rw [parseEmailaddrIn_routed hmode hne hhead, parseMailboxIn_accepted, List.drop_left]
  exact pathMailbox_iff hmode

/-- **What is accepted as a route**: with nothing in front, an address that begins with an `@` is one. -/
theorem pathOf_route (hmode : mode ≠ .normal) (hat : a.head? = some '@')
    (h : (parseEmailaddrIn mode (pathOf [] a)).accepted = true) :
    ∃ r b, a = r ++ b ∧ SourceRoute r ∧ PathMailbox mode b := by
  cases a with
  | nil => cases hat
  | cons c s =>
    cases hat
    have hroute := h
    rw [show pathOf [] ('@' :: s) = '<' :: '@' :: (s ++ ['>']) from rfl, parseEmailaddrIn_route hmode] at hroute
    split at hroute
    · cases hroute
    · rename_i rest hparse
      obtain ⟨d, hd, hsource⟩ := parseRoute_spec _ hparse
      -- the bracket is behind the route
      have hlast : rest ≠ [] := by
        rintro rfl
        have hcolon := hsource.last_colon
        rw [List.append_nil] at hd
        rw [← hd, ← List.cons_append, List.getLast?_append_of_ne_nil _ (List.cons_ne_nil '>' [])] at hcolon
        cases hcolon
      obtain ⟨b, x, hb⟩ : ∃ b x, rest = b ++ [x] := ⟨_, _, (List.dropLast_append_getLast hlast).symm⟩
      rw [hb, ← List.append_assoc] at hd
      obtain ⟨hs, hx⟩ := List.append_inj' hd rfl
      cases hx
      refine ⟨'@' :: d, b, by rw [hs]; rfl, hsource, (pathOf_accepted hmode (.inl hsource)).mp ?_⟩
      rw [hs] at h
      rw [← h]
      unfold pathOf
      simp

/-- A path whose mailboxes are the short ones with a domain. -/
theorem samePath_of (hmode : mode ≠ .normal) (hstart : SourceRoute route ∨ (route = [] ∧ a.head? ≠ some '@'))
    (hpath : PathMailbox mode a → ShortMailbox a)
    (hnormal : (parseEmailaddrIn .normal a).accepted = true ↔ ShortMailbox a) : SamePath mode route a := by
  have haccepted : (parseEmailaddrIn mode (pathOf route a)).accepted = true ↔ ShortMailbox a :=
    (pathOf_accepted hmode hstart).trans ⟨hpath, fun h => .inr (.inr h)⟩
  refine ⟨Bool.eq_iff_iff.mpr (haccepted.trans hnormal.symm), ?_, parseEmailaddrIn_restores mode _⟩
  intro h
  obtain ⟨user, dom, rfl, huser, hdom, hlt⟩ := haccepted.mp h
  have hrun : parseEmailaddrIn mode (pathOf route (user ++ '@' :: dom)) = _ :=
    (parseEmailaddrIn_routed hmode (by simp) (hstart.imp_right fun h => ⟨h.1, by
      rw [head?_append_of_ne_nil (by simp)]
      exact h.2⟩)).trans (parseMailboxIn_short hmode huser hdom hlt ('<' :: route))
  rw [hrun]
  refine ⟨_, _, user, dom, rfl, huser, rfl, List.drop_left, rfl, ?_⟩
  dsimp only
  rw [show '<' :: route ++ (user ++ '@' :: dom ++ ['\x00']) = ('<' :: route ++ user ++ ['@']) ++ (dom ++ ['\x00']) by simp,
    show ('<' :: route).length + user.length + 1 = ('<' :: route ++ user ++ ['@']).length by simp; omega]
  exact List.drop_left

/-- **When a path and its address are accepted alike**: unless the domain has the length of the limit, or a bracket and
    more is behind the reserved name, or the address begins with a route that has none in front of it. -/
theorem samePaths_iff (hne : a ≠ []) (hpost : strcaseEq a stringPostmaster = false)
    (hroute : route = [] ∨ SourceRoute route) : SamePaths route a ↔ ¬ PathsApart route a := by
  have hmail : AddressMode.mailFrom ≠ .normal := by decide
  have hrcpt : AddressMode.rcptTo ≠ .normal := by decide
  by_cases hstart : SourceRoute route ∨ (route = [] ∧ a.head? ≠ some '@')
  · constructor
    · rintro ⟨hm, hr, -⟩ (⟨user, dom, hs, huser, hdom, hlength⟩ | ⟨p, x, hs, hp⟩ | ⟨rfl, r, b, rfl, hr, -⟩)
      · have hpath := (normal_accepted hne hpost).mpr ⟨user, dom, hs, huser, hdom, Nat.le_of_eq hlength⟩
        rw [← hm.alike, pathOf_accepted hmail hstart] at hpath
        rcases hpath with ⟨-, hnil⟩ | ⟨hmode, -⟩ | ⟨user', dom', heq, huser', -, hlt⟩
        · exact hne hnil
        · cases hmode
        · obtain ⟨rfl, rfl⟩ := userToken_unique huser huser' (hs.symm.trans heq)
          omega
      · have hreserved : ReservedMailbox a := ⟨p, '>' :: x, hs, hp, .inr rfl⟩
        have hnormal := (pathOf_accepted hrcpt hstart).mpr (.inr (.inl ⟨rfl, hreserved⟩))
        rw [hr.alike, normal_accepted hne hpost] at hnormal
        obtain ⟨user, dom, heq, huser, -⟩ := hnormal
        obtain ⟨p', x', htoken, -, hx⟩ := hreserved.token
        rw [heq, userToken_append huser dom] at htoken
        cases htoken
        rcases hx with hx | hx <;> cases hx
      · rcases hstart with hroute | ⟨-, hat⟩
        · cases hroute.head
        · apply hat
          have hrne : r ≠ [] := by
            rintro rfl
            cases hr.head
          rw [head?_append_of_ne_nil hrne, hr.head]
    · intro h
      have hnormal : (parseEmailaddrIn .normal a).accepted = true ↔ ShortMailbox a := by
        rw [normal_accepted hne hpost]
        constructor
        · rintro ⟨user, dom, hs, huser, hdom, hle⟩
          refine ⟨user, dom, hs, huser, hdom, Nat.lt_of_le_of_ne hle fun heq => ?_⟩
          exact h (.inl ⟨user, dom, hs, huser, hdom, heq⟩)
        · rintro ⟨user, dom, hs, huser, hdom, hlt⟩
          exact ⟨user, dom, hs, huser, hdom, Nat.le_of_lt hlt⟩
      refine ⟨samePath_of hmail hstart ?_ hnormal, samePath_of hrcpt hstart ?_ hnormal,
        parseEmailaddrIn_restores .normal a⟩
      · rintro (⟨-, hnil⟩ | ⟨hmode, -⟩ | hshort)
        · exact absurd hnil hne
        · cases hmode
        · exact hshort
      · rintro (⟨hmode, -⟩ | ⟨-, p, x, hs, hp, hx⟩ | hshort)
        · cases hmode
        · exfalso
          cases x with
          | nil =>
            rw [List.append_nil] at hs
            rw [hs, hp] at hpost
            cases hpost
          | cons c x =>
            rcases hx with hx | hx
            · cases hx
            · cases hx
              exact h (.inr (.inl ⟨p, x, hs, hp⟩))
        · exact hshort
  · -- what is in the brackets begins a route
    have hnil : route = [] := hroute.resolve_right fun hsource => hstart (.inl hsource)
    subst hnil
    have hat : a.head? = some '@' := by
      by_contra hat
      exact hstart (.inr ⟨rfl, hat⟩)
    have hhead : ∀ {user rest : Text}, a = user ++ rest → UserToken user → False := by
      intro user rest hs huser
      obtain ⟨-, hne, huat, -⟩ := tokenUser_append huser
      rw [hs, head?_append_of_ne_nil hne] at hat
      exact huat hat
    constructor
    · rintro ⟨hm, hr, -⟩ (⟨user, dom, hs, huser, -⟩ | ⟨p, x, hs, hp⟩ | ⟨-, r, b, rfl, hsource, hb⟩)
      · exact hhead hs huser
      · exact hhead hs (postmaster_token hp)
      · have hsame : pathOf [] (r ++ b) = pathOf r b := by
          unfold pathOf
          rw [List.nil_append, List.append_assoc]
        have hnot := normal_head hat
        rcases hb with hb | hb
        · have haccepted := (pathOf_accepted hmail (.inl hsource)).mpr hb
          rw [← hsame, hm.alike, hnot] at haccepted
          cases haccepted
        · have haccepted := (pathOf_accepted hrcpt (.inl hsource)).mpr hb
          rw [← hsame, hr.alike, hnot] at haccepted
          cases haccepted
    · intro h
      have hsame : ∀ mode, mode ≠ .normal → (∀ b, PathMailbox mode b →
          PathMailbox .mailFrom b ∨ PathMailbox .rcptTo b) → SamePath mode [] a := by
        intro mode hmode hmail
        have hfalse : (parseEmailaddrIn mode (pathOf [] a)).accepted = false := by
          apply Bool.eq_false_iff.mpr
          intro haccepted
          obtain ⟨r, b, hs, hsource, hb⟩ := pathOf_route hmode hat haccepted
          exact h (.inr (.inr ⟨rfl, r, b, hs, hsource, hmail b hb⟩))
        refine ⟨hfalse.trans (normal_head hat).symm, fun haccepted => ?_, parseEmailaddrIn_restores mode _⟩
        rw [hfalse] at haccepted
        cases haccepted
      exact ⟨hsame .mailFrom hmail fun _ hb => .inl hb, hsame .rcptTo hrcpt fun _ hb => .inr hb,
        parseEmailaddrIn_restores .normal a⟩

theorem samePaths_routed : SamePaths "@x.org:".toList "u@h.org".toList ↔ ¬ PathsApart "@x.org:".toList "u@h.org".toList :=
  samePaths_iff (by decide) (by decide)
    (.inr (.last (.inl ⟨'x', ".org".toList, rfl, by decide, List.all_eq_true.mp (by decide)⟩)))

/-- RCPT accepts the reserved name with more than the bracket behind it. -/
theorem not_samePaths : ¬ SamePaths [] "postmaster>x".toList := by
  rintro ⟨-, h, -⟩
  have halike := h.alike
  revert halike
  decide

end Simta
