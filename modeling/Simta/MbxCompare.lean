import Simta.Address
import Simta.Red
import Simta.Lib.Fields

/-!
# Comparing mailboxes

`simta_mbx_compare` of `simta_ldap.c`, which the sender of a message is compared with addresses by: the local parts,
and the last labels of the domains.

* `simtaLdapdomain`, `simtaLdapuser`, `simtaMbxCompare` — the functions;
* `MailAddress`, `SameMailbox` — addresses with a local part and a domain, and which of them name one mailbox;
* `ldapdomain_eq` — what the scan from the end of a text leaves of it;
* `tokenUser_lower`, `quoted_split` — where the local part of an address ends, up to case;
* `mbx_compare_iff` — exactly which addresses are compared rightly.
-/

set_option autoImplicit false

namespace Simta

/-! ## The functions -/

/-- The loop of `simta_ldapdomain` with `pbuf` at the offset of the first argument: where it is left. -/
def ldapdomainLoop (ndomain : Int) (buf : Text) : Nat → Int → Nat
  | 0, _ => 0
  | i + 1, dotcnt =>
    if buf[i + 1]? = some '.' then
      if dotcnt = ndomain - 1 then i + 2 else ldapdomainLoop ndomain buf i (dotcnt + 1)
    else ldapdomainLoop ndomain buf i dotcnt

/-- `simta_ldapdomain`.  For an empty text it begins at the NUL that its caller put in front of that. -/
def simtaLdapdomain (ndomain : Int) (buf : Text) : Text := buf.drop (ldapdomainLoop ndomain buf (buf.length - 1) 0)

/-- The text in front of the first `@`. -/
def beforeAt (t : Text) : Text := t.takeWhile (· ≠ '@')

/-- The text behind the first `@`. -/
def behindAt (t : Text) : Text := (t.dropWhile (· ≠ '@')).drop 1

/-- `simta_ldapuser`: the user and the domain. -/
def simtaLdapuser (ndomain : Int) (buf : Text) : Text × Text :=
  if '@' ∈ buf then (beforeAt buf, simtaLdapdomain ndomain (behindAt buf)) else (buf, [])

/-- The sign of what `strcasecmp` returns. -/
def orderingInt : Ordering → Int
  | .lt => -1
  | .eq => 0
  | .gt => 1

/-- `simta_mbx_compare`; a `NULL` is `none`. -/
def simtaMbxCompare (ndomain : Int) (firstemail secondemail : Option Text) : Int :=
  match firstemail, secondemail with
  | some first, some second =>
    if first ≠ [] ∧ second ≠ [] then
      let (firstName, firstDomain) := simtaLdapuser ndomain first
      let (secondName, secondDomain) := simtaLdapuser ndomain second
      let rc := orderingInt (strcasecmp firstName secondName)
      if rc = 0 then orderingInt (strcasecmp firstDomain secondDomain) else rc
    else -1
  | _, _ => -1

/-! ## Mailboxes -/

/-- An address with a local part, which is a quoted string or a dot-atom, and a domain. -/
structure MailAddress where
  localPart : Text
  domain : Text
  isLocal : tokenUser localPart = some (localPart, [])
  hasDomain : domain ≠ []

/-- The address as it is written. -/
def MailAddress.text (a : MailAddress) : Text := a.localPart ++ '@' :: a.domain

/-- A text in small letters. -/
def lower (t : Text) : Text := t.map Char.toLower

/-- The local parts are equal up to case, and so are the last `n` labels of the domains, or all of them when there
    are fewer. -/
def SameMailbox (n : Nat) (a b : MailAddress) : Prop :=
  lower a.localPart = lower b.localPart ∧ (lastFields '.' n a.domain).map lower = (lastFields '.' n b.domain).map lower

/-- A dot that is followed by just `n` labels. -/
def Dotted (n : Nat) (domain : Text) : Prop := domain.head? = some '.' ∧ domain.count '.' = n

/-- The cut of an address is right, or does not matter: its domain does not begin with a dot in front of just `n`
    labels; and its local part has no `@`, or the domain has fewer than `n` labels, and what is behind the first `@`
    has not just `n` and no cut to be made in it behind its first character. -/
def CutRight (n : Nat) (a : MailAddress) : Prop :=
  ¬ Dotted n a.domain ∧
    ('@' ∈ a.localPart →
      a.domain.count '.' + 1 < n ∧ (behindAt a.text).count '.' + 1 ≠ n ∧ (behindAt a.text).tail.count '.' < n)

/-! ## The scan from the end -/

theorem orderingInt_eq_zero {a b : Text} : orderingInt (strcasecmp a b) = 0 ↔ lower a = lower b := by
  rw [show lower a = lower b ↔ strcasecmp a b = .eq by
    rw [strcasecmp_eq_iff, strcaseEq, decide_eq_true_iff]
    rfl]
  cases strcasecmp a b <;> decide

theorem ldapdomainLoop_spec {n : Nat} (x : Text) (i d : Nat) (hi : i < x.length)
    (hd : (x.drop (i + 1)).count '.' = d) (hlt : d < n) :
    x.drop (ldapdomainLoop n x i d) = if x.tail.count '.' < n then x else fieldTail '.' n x := by
  induction i generalizing d with
  | zero =>
    unfold ldapdomainLoop
    rw [← List.drop_one, hd, if_pos hlt]
    rfl
  | succ i ih =>
    have hget : x[i + 1]? = some x[i + 1] := List.getElem?_eq_getElem hi
    have hdrop : x.drop (i + 1) = x[i + 1] :: x.drop (i + 2) := List.drop_eq_getElem_cons hi
    have hcount := congrArg (List.count '.') hdrop
    rw [List.count_cons, hd] at hcount
    unfold ldapdomainLoop
    by_cases hdot : x[i + 1] = '.'
    · rw [hget, hdot, if_pos rfl]
      rw [hdot] at hcount
      simp only [beq_self_eq_true, if_true] at hcount
      by_cases hlast : (d : Int) = n - 1
      · rw [if_pos hlast]
        have hall : n ≤ (x.drop (i + 1)).count '.' := by omega
        have hsub : (x.drop (i + 1)).Sublist x.tail := by
          rw [← List.drop_one, Nat.add_comm i 1, ← List.drop_drop]
          exact List.drop_sublist i (x.drop 1)
        have htail : n ≤ x.tail.count '.' := Nat.le_trans hall (hsub.count_le '.')
        rw [if_neg (by omega)]
        exact (fieldTail_unique (by rw [hd]; exact hlt) (.inr hall)).symm
      · rw [if_neg hlast]
        have hih := ih (d + 1) (by omega) hcount (by omega)
        rw [← hih]
        rfl
    · rw [hget, if_neg (by simpa using hdot)]
      apply ih d (by omega) _ hlt
      rw [hcount, if_neg (by simpa using hdot)]
      rfl

/-- **What the scan leaves**: it does not look at the first character. -/
theorem ldapdomain_eq {n : Nat} (hn : 1 ≤ n) (x : Text) :
    simtaLdapdomain n x = if x.tail.count '.' < n then x else fieldTail '.' n x := by
  unfold simtaLdapdomain
  cases x with
  | nil => exact (if_pos hn).symm
  | cons c x =>
    apply ldapdomainLoop_spec
    · exact Nat.lt_succ_self _
    · rw [List.length_cons, Nat.add_sub_cancel, ← List.length_cons (a := c), List.drop_length]
      rfl
    · exact hn

/-! ## Up to case -/

theorem lower_dot (c : Char) : c.toLower = '.' ↔ c = '.' := toLower_dot c

theorem lower_at (c : Char) : c.toLower = '@' ↔ c = '@' := toLower_eq_iff (by decide)

@[simp] theorem count_lower (t : Text) : (lower t).count '.' = t.count '.' := count_map_sep lower_dot t

@[simp] theorem at_mem_lower (t : Text) : '@' ∈ lower t ↔ '@' ∈ t := by
  unfold lower
  simp [lower_at]

theorem lower_append (s t : Text) : lower (s ++ t) = lower s ++ lower t := List.map_append

theorem lower_cons (c : Char) (t : Text) : lower (c :: t) = c.toLower :: lower t := rfl

@[simp] theorem length_lower (t : Text) : (lower t).length = t.length := List.length_map ..

theorem lower_fieldTail (n : Nat) (x : Text) : lower (fieldTail '.' n x) = fieldTail '.' n (lower x) := by
  induction x with
  | nil => rfl
  | cons c x ih =>
    have hcount := count_lower (c :: x)
    rw [lower_cons] at hcount ⊢
    unfold fieldTail
    rw [hcount]
    split
    · rfl
    · exact ih

theorem lower_ldapdomain {n : Nat} (hn : 1 ≤ n) (x : Text) :
    lower (simtaLdapdomain n x) = simtaLdapdomain n (lower x) := by
  have htail : (lower x).tail = lower x.tail := by cases x <;> rfl
  rw [ldapdomain_eq hn, ldapdomain_eq hn, htail, count_lower]
  split
  · rfl
  · exact lower_fieldTail n x

/-- The last labels of two domains are equal when the suffixes are. -/
theorem lastFields_lower {n : Nat} (hn : 1 ≤ n) (d d' : Text) :
    (lastFields '.' n d).map lower = (lastFields '.' n d').map lower ↔
      fieldTail '.' n (lower d) = fieldTail '.' n (lower d') := by
  have hmap : ∀ x : Text, (lastFields '.' n x).map lower = (fieldTail '.' n (lower x)).splitOn '.' := by
    intro x
    rw [lastFields_eq hn, ← lower_fieldTail]
    exact (splitOn_map lower_dot _).symm
  rw [hmap, hmap]
  exact ⟨splitOn_injective, congrArg _⟩

/-! ## The two parts of an address -/

theorem beforeAt_append {x : Text} (hx : '@' ∉ x) (y : Text) : beforeAt (x ++ '@' :: y) = x := by
  unfold beforeAt
  rw [List.takeWhile_append_of_pos (fun c hc => by simpa using fun h : c = '@' => hx (h ▸ hc))]
  simp

theorem behindAt_append {x : Text} (hx : '@' ∉ x) (y : Text) : behindAt (x ++ '@' :: y) = y := by
  unfold behindAt
  rw [List.dropWhile_append_of_pos (fun c hc => by simpa using fun h : c = '@' => hx (h ▸ hc))]
  simp

/-- A text with an `@` is cut at the first one. -/
theorem eq_beforeAt {t : Text} (h : '@' ∈ t) : t = beforeAt t ++ '@' :: behindAt t ∧ '@' ∉ beforeAt t := by
  obtain ⟨x, y, rfl, hx⟩ := List.eq_append_cons_of_mem h
  rw [beforeAt_append hx, behindAt_append hx]
  exact ⟨rfl, hx⟩

/-! ## Local parts -/

/-- What follows the first quotation mark of a quoted string, up to its last. -/
inductive QuotedEnd : Text → Prop
  | close : QuotedEnd ['"']
  | pair (c : Char) {s : Text} (h : QuotedEnd s) : QuotedEnd ('\\' :: c :: s)
  | char {c : Char} {s : Text} (hquote : c ≠ '"') (hslash : c ≠ '\\') (h : QuotedEnd s) : QuotedEnd (c :: s)

theorem quotedEnd_of_token {s t rest : Text} (h : tokenQuoted '"' s = some (t, rest)) : QuotedEnd t := by
  fun_induction tokenQuoted '"' s generalizing t rest with
  | case1 => cases h
  | case2 => cases h
  | case3 c s ih =>
    obtain ⟨t', ht, heq⟩ := Option.map_eq_some_iff.mp h
    obtain ⟨rfl, rfl⟩ := Prod.mk.inj heq
    exact .pair c (ih ht)
  | case4 s h₁ h₂ =>
    obtain ⟨rfl, rfl⟩ := Prod.mk.inj (Option.some.inj h)
    exact .close
  | case5 c s h₁ h₂ hne ih =>
    obtain ⟨t', ht, heq⟩ := Option.map_eq_some_iff.mp h
    obtain ⟨rfl, rfl⟩ := Prod.mk.inj heq
    apply QuotedEnd.char hne _ (ih ht)
    rintro rfl
    cases s with
    | nil => exact h₁ rfl rfl
    | cons d s => exact h₂ d s rfl rfl

theorem QuotedEnd.token {s : Text} (h : QuotedEnd s) (u : Text) : tokenQuoted '"' (s ++ u) = some (s, u) := by
  induction h with
  | close => simp [tokenQuoted]
  | pair c _ ih => simp [tokenQuoted, ih]
  | char hquote hslash _ ih => simp [tokenQuoted, hquote, hslash, ih]

/-- A quoted string ends at one place only. -/
theorem QuotedEnd.unique {s s' u u' : Text} (h : QuotedEnd s) (h' : QuotedEnd s') (heq : s ++ u = s' ++ u') :
    s = s' ∧ u = u' := by
  have hs := h.token u
  rw [heq, h'.token u'] at hs
  obtain ⟨hs, hu⟩ := Prod.mk.inj (Option.some.inj hs)
  exact ⟨hs.symm, hu.symm⟩

theorem lower_quote (c : Char) : c.toLower = '"' ↔ c = '"' := toLower_eq_iff (by decide)

theorem lower_slash (c : Char) : c.toLower = '\\' ↔ c = '\\' := toLower_eq_iff (by decide)

/-- The case of letters does not matter. -/
theorem QuotedEnd.lower {s : Text} (h : QuotedEnd s) : QuotedEnd (lower s) := by
  induction h with
  | close => exact .close
  | pair c _ ih => exact .pair c.toLower ih
  | char hquote hslash _ ih =>
    exact .char (fun h => hquote ((lower_quote _).mp h)) (fun h => hslash ((lower_slash _).mp h)) ih

/-- Plain characters in front. -/
theorem QuotedEnd.plain {s w : Text} (h : QuotedEnd s) (hw : ∀ c ∈ w, c ≠ '"' ∧ c ≠ '\\') : QuotedEnd (w ++ s) := by
  induction w with
  | nil => exact h
  | cons c w ih =>
    obtain ⟨hquote, hslash⟩ := hw c (List.mem_cons_self ..)
    exact .char hquote hslash (ih fun d hd => hw d (List.mem_cons_of_mem _ hd))

/-- Plain characters behind an `@`. -/
theorem QuotedEnd.insert {t w : Text} (h : QuotedEnd t) (hw : ∀ c ∈ w, c ≠ '"' ∧ c ≠ '\\') {x r : Text}
    (ht : t = x ++ '@' :: r) : QuotedEnd (x ++ '@' :: (w ++ r)) := by
  induction h generalizing x with
  | close =>
    cases x with
    | nil => exact absurd (List.cons.inj ht).1 (by decide)
    | cons d x => exact absurd (List.cons.inj ht).2.symm (List.append_ne_nil_of_right_ne_nil _ (List.cons_ne_nil _ _))
  | pair c h ih =>
    match x with
    | [] => exact absurd (List.cons.inj ht).1 (by decide)
    | [d] =>
      obtain ⟨rfl, hrest⟩ := List.cons.inj ht
      obtain ⟨rfl, rfl⟩ := List.cons.inj hrest
      exact .pair '@' (h.plain hw)
    | d :: e :: x =>
      obtain ⟨rfl, htail⟩ := List.cons.inj ht
      obtain ⟨rfl, hrest⟩ := List.cons.inj htail
      exact .pair _ (ih hrest)
  | char hquote hslash h ih =>
    cases x with
    | nil =>
      obtain ⟨rfl, rfl⟩ := List.cons.inj ht
      exact .char hquote hslash (h.plain hw)
    | cons d x =>
      obtain ⟨rfl, hrest⟩ := List.cons.inj ht
      exact .char hquote hslash (ih hrest)

theorem QuotedEnd.tokenUser {s : Text} (h : QuotedEnd s) : tokenUser ('"' :: s) = some ('"' :: s, []) := by
  have htoken := h.token []
  rw [List.append_nil] at htoken
  unfold Simta.tokenUser tokenQuotedString
  simp [htoken]

/-- A local part is a quoted string, or has no quotation mark and no `@`. -/
theorem local_cases {l : Text} (h : tokenUser l = some (l, [])) :
    (∃ s, l = '"' :: s ∧ QuotedEnd s) ∨ '"' ∉ l ∧ '@' ∉ l := by
  unfold tokenUser at h
  split at h
  · unfold tokenQuotedString at h
    split at h
    · rename_i s _
      obtain ⟨t, ht, heq⟩ := Option.map_eq_some_iff.mp h
      obtain ⟨hcons, -⟩ := Prod.mk.inj heq
      obtain ⟨-, rfl⟩ := List.cons.inj hcons
      exact .inl ⟨_, rfl, quotedEnd_of_token ht⟩
    · cases h
  · obtain ⟨-, -, hall⟩ := tokenDotAtom_spec h
    refine .inr ⟨fun hmem => ?_, fun hmem => ?_⟩
    · exact absurd (hall _ hmem) (by decide)
    · exact absurd (hall _ hmem) (by decide)

/-- A local part with an `@` is a quoted string. -/
theorem MailAddress.quoted (a : MailAddress) (h : '@' ∈ a.localPart) : ∃ s, a.localPart = '"' :: s ∧ QuotedEnd s :=
  (local_cases a.isLocal).resolve_right fun hplain => hplain.2 h

/-- What stands in front of an `@` in a local part is no local part. -/
theorem lower_ne_beforeAt (a : MailAddress) {b : MailAddress} (hb : '@' ∈ b.localPart) :
    lower a.localPart ≠ lower (beforeAt b.localPart) := by
  obtain ⟨s', hs', hquoted'⟩ := b.quoted hb
  obtain ⟨hsplit, hbefore⟩ := eq_beforeAt hb
  intro heq
  -- both begin with a quotation mark
  obtain ⟨x, hx⟩ : ∃ x, beforeAt b.localPart = '"' :: x := by
    rw [hs']
    exact ⟨beforeAt s', rfl⟩
  rcases local_cases a.isLocal with ⟨s, hs, hquoted⟩ | ⟨hplain, -⟩
  · rw [hx, hs] at heq
    rw [hx, hs'] at hsplit
    obtain ⟨-, hrest⟩ := List.cons.inj heq
    obtain ⟨-, hsplit⟩ := List.cons.inj hsplit
    have hlower : lower s ++ lower ('@' :: behindAt b.localPart) = lower s' ++ [] := by
      have hs : lower s = lower x := hrest
      rw [hs, ← lower_append, List.append_nil, hsplit, hs', hsplit]
      rfl
    have hnil := (hquoted.lower.unique hquoted'.lower hlower).2
    exact absurd hnil (List.cons_ne_nil _ _)
  · cases hl : a.localPart with
    | nil =>
      rw [hl, hx] at heq
      cases heq
    | cons c l =>
      rw [hl, hx] at heq
      have hc : c.toLower = '"' := (List.cons.inj heq).1
      rw [lower_quote] at hc
      apply hplain
      rw [hl, hc]
      exact List.mem_cons_self ..

/-- Addresses with quoted local parts that are equal up to case are so in both parts. -/
theorem lower_text_inj {a b : MailAddress} (ha : '@' ∈ a.localPart) (hb : '@' ∈ b.localPart)
    (heq : lower a.text = lower b.text) : lower a.localPart = lower b.localPart ∧ lower a.domain = lower b.domain := by
  obtain ⟨s, hs, hquoted⟩ := a.quoted ha
  obtain ⟨s', hs', hquoted'⟩ := b.quoted hb
  unfold MailAddress.text at heq
  rw [hs, hs'] at heq
  have hrest : lower s ++ lower ('@' :: a.domain) = lower s' ++ lower ('@' :: b.domain) := by
    rw [← lower_append, ← lower_append]
    exact (List.cons.inj heq).2
  obtain ⟨hl, hd⟩ := hquoted.lower.unique hquoted'.lower hrest
  rw [hs, hs']
  exact ⟨congrArg (List.cons '"') hl, (List.cons.inj hd).2⟩

/-! ## The comparison -/

variable {n : Nat}

/-- The return value is zero when the users and the domains that are cut from the addresses are equal up to case. -/
theorem mbxCompare_eq_zero (hn : 1 ≤ n) (a b : MailAddress) :
    simtaMbxCompare n (some a.text) (some b.text) = 0 ↔
      lower (beforeAt a.text) = lower (beforeAt b.text) ∧
        simtaLdapdomain n (lower (behindAt a.text)) = simtaLdapdomain n (lower (behindAt b.text)) := by
  have hne : ∀ c : MailAddress, c.text ≠ [] := fun c => List.append_ne_nil_of_right_ne_nil _ (List.cons_ne_nil _ _)
  have hat : ∀ c : MailAddress, '@' ∈ c.text := fun c => List.mem_append_right _ (List.mem_cons_self ..)
  unfold simtaMbxCompare simtaLdapuser
  dsimp only
  rw [if_pos ⟨hne a, hne b⟩, if_pos (hat a), if_pos (hat b), ← lower_ldapdomain hn, ← lower_ldapdomain hn]
  by_cases huser : lower (beforeAt a.text) = lower (beforeAt b.text)
  · rw [if_pos (orderingInt_eq_zero.mpr huser), orderingInt_eq_zero]
    exact ⟨fun h => ⟨huser, h⟩, And.right⟩
  · rw [if_neg fun h => huser (orderingInt_eq_zero.mp h), orderingInt_eq_zero]
    exact iff_of_false huser fun h => huser h.1

theorem sameMailbox_iff (hn : 1 ≤ n) (a b : MailAddress) :
    SameMailbox n a b ↔ lower a.localPart = lower b.localPart ∧
      fieldTail '.' n (lower a.domain) = fieldTail '.' n (lower b.domain) :=
  and_congr_right fun _ => lastFields_lower hn _ _

/-- A local part without an `@`. -/
theorem MailAddress.parts_plain (a : MailAddress) (h : '@' ∉ a.localPart) :
    beforeAt a.text = a.localPart ∧ behindAt a.text = a.domain :=
  ⟨beforeAt_append h _, behindAt_append h _⟩

/-- A local part that is cut itself. -/
theorem MailAddress.parts_quoted (a : MailAddress) (h : '@' ∈ a.localPart) :
    beforeAt a.text = beforeAt a.localPart ∧ behindAt a.text = behindAt a.localPart ++ '@' :: a.domain := by
  obtain ⟨hsplit, hbefore⟩ := eq_beforeAt h
  have htext : a.text = beforeAt a.localPart ++ '@' :: (behindAt a.localPart ++ '@' :: a.domain) := by
    unfold MailAddress.text
    conv_lhs => rw [hsplit]
    rw [List.append_assoc]
    rfl
  rw [htext]
  exact ⟨beforeAt_append hbefore _, behindAt_append hbefore _⟩

theorem MailAddress.lower_text (a : MailAddress) :
    lower a.text = lower (beforeAt a.text) ++ '@' :: lower (behindAt a.text) ∧ '@' ∉ lower (beforeAt a.text) := by
  obtain ⟨hsplit, hbefore⟩ := eq_beforeAt (t := a.text) (List.mem_append_right _ (List.mem_cons_self ..))
  constructor
  · conv_lhs => rw [hsplit]
    rw [lower_append]
    rfl
  · rwa [at_mem_lower]

theorem ldapdomain_whole (hn : 1 ≤ n) {x : Text} (h : x.tail.count '.' < n) : simtaLdapdomain n (lower x) = lower x := by
  rw [ldapdomain_eq hn, if_pos]
  cases x with
  | nil => exact hn
  | cons c x => rwa [lower_cons, List.tail_cons, count_lower]

theorem ldapdomain_cut (hn : 1 ≤ n) {x : Text} (h : n ≤ x.tail.count '.') :
    simtaLdapdomain n (lower x) = fieldTail '.' n (lower x) := by
  rw [ldapdomain_eq hn, if_neg]
  cases x with
  | nil => exact Nat.not_lt.mpr h
  | cons c x => rwa [lower_cons, List.tail_cons, count_lower, Nat.not_lt]

/-- A text whose first character is a separator that matters. -/
theorem dotted_of_tail {x : Text} (h : n ≤ x.count '.') (htail : x.tail.count '.' < n) : Dotted n x := by
  cases x with
  | nil => exact absurd (Nat.lt_of_le_of_lt h htail) (Nat.lt_irrefl _)
  | cons c x =>
    rw [List.tail_cons] at htail
    rw [List.count_cons] at h
    split at h
    · rename_i hc
      refine ⟨congrArg some (by simpa using hc), ?_⟩
      rw [List.count_cons, if_pos hc]
      omega
    · omega

/-- The scan finds the last labels. -/
theorem ldapdomain_labels (hn : 1 ≤ n) {x : Text} (h : ¬ Dotted n x) :
    simtaLdapdomain n (lower x) = fieldTail '.' n (lower x) := by
  by_cases htail : x.tail.count '.' < n
  · rw [ldapdomain_whole hn htail]
    have hlt : x.count '.' < n := Nat.lt_of_not_le fun hle => h (dotted_of_tail hle htail)
    exact (fieldTail_of_lt (by rwa [count_lower])).symm
  · exact ldapdomain_cut hn (by omega)

/-- **A right cut.**  The comparison with such an address is right. -/
theorem CutRight.compare (hn : 1 ≤ n) {a b : MailAddress} (ha : CutRight n a) (hb : ¬ Dotted n b.domain) :
    simtaMbxCompare n (some a.text) (some b.text) = 0 ↔ SameMailbox n a b := by
  rw [mbxCompare_eq_zero hn, sameMailbox_iff hn]
  have hsame : lower a.localPart = lower b.localPart → ('@' ∈ a.localPart ↔ '@' ∈ b.localPart) := by
    intro h
    rw [← at_mem_lower, h, at_mem_lower]
  by_cases hata : '@' ∈ a.localPart
  · by_cases hatb : '@' ∈ b.localPart
    · obtain ⟨hlabels, hnot, htail⟩ := ha.2 hata
      rw [ldapdomain_whole hn htail]
      have htext : lower a.text = lower b.text ↔ lower (beforeAt a.text) = lower (beforeAt b.text) ∧
          lower (behindAt a.text) = lower (behindAt b.text) := by
        rw [a.lower_text.1, b.lower_text.1]
        exact ⟨field_inj a.lower_text.2 b.lower_text.2, fun h => by rw [h.1, h.2]⟩
      constructor
      · rintro ⟨huser, hdomain⟩
        -- nothing is cut from the other address either
        have hbtail : (behindAt b.text).tail.count '.' < n := by
          apply Nat.lt_of_not_le
          intro hle
          have hcount := congrArg (List.count '.') hdomain
          have hsub := (List.tail_sublist (behindAt b.text)).count_le '.'
          rw [ldapdomain_cut hn hle, count_fieldTail hn, count_lower, count_lower] at hcount
          omega
        rw [ldapdomain_whole hn hbtail] at hdomain
        obtain ⟨hl, hd⟩ := lower_text_inj hata hatb (htext.mpr ⟨huser, hdomain⟩)
        exact ⟨hl, by rw [hd]⟩
      · rintro ⟨hl, hd⟩
        have hcount := congrArg (List.count '.') hd
        rw [count_fieldTail hn, count_fieldTail hn, count_lower, count_lower] at hcount
        rw [fieldTail_of_lt (by rw [count_lower]; omega), fieldTail_of_lt (by rw [count_lower]; omega)] at hd
        have heq : lower a.text = lower b.text := by
          unfold MailAddress.text
          rw [lower_append, lower_append, hl, lower_cons, lower_cons, hd]
        obtain ⟨huser, hbehind⟩ := htext.mp heq
        have hbtail : (behindAt b.text).tail.count '.' < n := by
          have hlower : ∀ x : Text, x.tail.count '.' = (lower x).tail.count '.' := by
            intro x
            cases x with
            | nil => rfl
            | cons c x => rw [lower_cons, List.tail_cons, List.tail_cons, count_lower]
          rw [hlower, ← hbehind, ← hlower]
          exact htail
        exact ⟨huser, by rw [ldapdomain_whole hn hbtail, hbehind]⟩
    · apply iff_of_false
      · rintro ⟨huser, -⟩
        rw [(a.parts_quoted hata).1, (b.parts_plain hatb).1] at huser
        exact lower_ne_beforeAt b hata huser.symm
      · exact fun h => hatb ((hsame h.1).mp hata)
  · by_cases hatb : '@' ∈ b.localPart
    · apply iff_of_false
      · rintro ⟨huser, -⟩
        rw [(a.parts_plain hata).1, (b.parts_quoted hatb).1] at huser
        exact lower_ne_beforeAt a hatb huser
      · exact fun h => hata ((hsame h.1).mpr hatb)
    · rw [(a.parts_plain hata).1, (a.parts_plain hata).2, (b.parts_plain hatb).1, (b.parts_plain hatb).2,
        ldapdomain_labels hn ha.1, ldapdomain_labels hn hb]

/-! ## Addresses that are cut wrongly -/

/-- A text put behind the first `@` of a local part. -/
def insertAt (w l : Text) : Text := beforeAt l ++ '@' :: (w ++ behindAt l)

theorem tokenUser_insertAt (a : MailAddress) (h : '@' ∈ a.localPart) {w : Text} (hw : ∀ c ∈ w, c ≠ '"' ∧ c ≠ '\\') :
    tokenUser (insertAt w a.localPart) = some (insertAt w a.localPart, []) := by
  obtain ⟨s, hs, hquoted⟩ := a.quoted h
  have hat : '@' ∈ s := by
    rw [hs] at h
    exact (List.mem_cons.mp h).resolve_left (by decide)
  have hinsert := hquoted.insert hw (eq_beforeAt hat).1
  rw [hs]
  exact hinsert.tokenUser

/-- Another local part and another domain. -/
def MailAddress.inserted (a : MailAddress) (h : '@' ∈ a.localPart) (w : Text) (hw : ∀ c ∈ w, c ≠ '"' ∧ c ≠ '\\')
    (domain : Text) (hdomain : domain ≠ []) : MailAddress :=
  ⟨insertAt w a.localPart, domain, tokenUser_insertAt a h hw, hdomain⟩

/-- The same local part, and another domain. -/
def MailAddress.withDomain (a : MailAddress) (domain : Text) (hdomain : domain ≠ []) : MailAddress :=
  ⟨a.localPart, domain, a.isLocal, hdomain⟩

variable {a : MailAddress} {w domain : Text}

theorem MailAddress.inserted_parts (h : '@' ∈ a.localPart) (hw : ∀ c ∈ w, c ≠ '"' ∧ c ≠ '\\') (hdomain : domain ≠ []) :
    beforeAt (a.inserted h w hw domain hdomain).text = beforeAt a.text ∧
      behindAt (a.inserted h w hw domain hdomain).text = w ++ (behindAt a.localPart ++ '@' :: domain) := by
  have hbefore := (eq_beforeAt h).2
  have htext : (a.inserted h w hw domain hdomain).text =
      beforeAt a.localPart ++ '@' :: (w ++ (behindAt a.localPart ++ '@' :: domain)) := by
    show insertAt w a.localPart ++ '@' :: domain = _
    unfold insertAt
    rw [List.append_assoc, List.cons_append, List.append_assoc]
  rw [htext, (a.parts_quoted h).1]
  exact ⟨beforeAt_append hbefore _, behindAt_append hbefore _⟩

/-- It is another mailbox, and the comparison does not see that when the same is left of the domains. -/
theorem MailAddress.inserted_wrong (hn : 1 ≤ n) (h : '@' ∈ a.localPart) (hw : ∀ c ∈ w, c ≠ '"' ∧ c ≠ '\\')
    (hdomain : domain ≠ []) (hne : w ≠ [])
    (hcut : simtaLdapdomain n (lower (behindAt a.text)) =
      simtaLdapdomain n (lower (w ++ (behindAt a.localPart ++ '@' :: domain)))) :
    ¬ (simtaMbxCompare n (some a.text) (some (a.inserted h w hw domain hdomain).text) = 0 ↔
      SameMailbox n a (a.inserted h w hw domain hdomain)) := by
  obtain ⟨hbefore, hbehind⟩ := MailAddress.inserted_parts h hw hdomain
  rw [mbxCompare_eq_zero hn, hbefore, hbehind]
  intro hiff
  have hlength := congrArg List.length (hiff.mp ⟨rfl, hcut⟩).1
  rw [length_lower, length_lower] at hlength
  have hlength' : a.localPart.length = (insertAt w a.localPart).length := hlength
  have hsplit := congrArg List.length (eq_beforeAt h).1
  have hpos := List.length_pos_iff.mpr hne
  unfold insertAt at hlength'
  simp only [List.length_append, List.length_cons] at hsplit hlength'
  omega

/-- A cut of the text behind the first `@` is made although the local part ends later. -/
theorem wrong_of_cut (hn : 1 ≤ n) (h : '@' ∈ a.localPart) (hcut : n ≤ (behindAt a.text).tail.count '.') :
    ∃ b : MailAddress, ¬ Dotted n b.domain ∧
      ¬ (simtaMbxCompare n (some a.text) (some b.text) = 0 ↔ SameMailbox n a b) := by
  have hplain : ∀ c ∈ ['x'], c ≠ '"' ∧ c ≠ '\\' := by simp
  have hbehind := (a.parts_quoted h).2
  have hsub := (List.tail_sublist (behindAt a.text)).count_le '.'
  by_cases hdomain : n ≤ a.domain.count '.'
  · -- the cut is in the domain
    refine ⟨a.inserted h ['x'] hplain ('x' :: a.domain) (List.cons_ne_nil _ _),
      fun hdot => absurd hdot.1 (by simp [MailAddress.inserted]), MailAddress.inserted_wrong hn h hplain _
        (List.cons_ne_nil _ _) ?_⟩
    rw [ldapdomain_cut hn hcut, hbehind]
    have hcut' : n ≤ (['x'] ++ (behindAt a.localPart ++ '@' :: 'x' :: a.domain)).tail.count '.' := by
      show n ≤ (behindAt a.localPart ++ ('@' :: 'x' :: a.domain)).count '.'
      rw [List.count_append]
      simp
      omega
    rw [ldapdomain_cut hn hcut']
    have hlower : ∀ x : Text, fieldTail '.' n (lower (x ++ a.domain)) = fieldTail '.' n (lower a.domain) := by
      intro x
      rw [lower_append]
      exact fieldTail_append (by rwa [count_lower])
    have h₁ : behindAt a.localPart ++ '@' :: a.domain = (behindAt a.localPart ++ ['@']) ++ a.domain := by simp
    have h₂ : ['x'] ++ (behindAt a.localPart ++ '@' :: 'x' :: a.domain) =
        (['x'] ++ (behindAt a.localPart ++ ['@', 'x'])) ++ a.domain := by simp
    rw [h₁, h₂, hlower, hlower]
  · -- the cut is in the local part
    refine ⟨a.inserted h ['x'] hplain a.domain a.hasDomain, fun hdot => hdomain (Nat.le_of_eq hdot.2.symm),
      MailAddress.inserted_wrong hn h hplain _ (List.cons_ne_nil _ _) ?_⟩
    rw [← hbehind, ldapdomain_cut hn hcut]
    have hcut' : n ≤ (['x'] ++ behindAt a.text).tail.count '.' := Nat.le_trans hcut hsub
    rw [ldapdomain_cut hn hcut', lower_append, fieldTail_append]
    rw [count_lower]
    exact Nat.le_trans hcut hsub

/-- No cut is made behind the first `@`, but one would be with another domain. -/
theorem wrong_of_labels (hn : 1 ≤ n) (h : '@' ∈ a.localPart) (hlabels : (behindAt a.text).count '.' + 1 = n) :
    ∃ b : MailAddress, ¬ Dotted n b.domain ∧
      ¬ (simtaMbxCompare n (some a.text) (some b.text) = 0 ↔ SameMailbox n a b) := by
  have hplain : ∀ c ∈ ['x', '.'], c ≠ '"' ∧ c ≠ '\\' := by simp
  have hbehind := (a.parts_quoted h).2
  have hsub := (List.tail_sublist (behindAt a.text)).count_le '.'
  refine ⟨a.inserted h ['x', '.'] hplain a.domain a.hasDomain, fun hdot => ?_,
    MailAddress.inserted_wrong hn h hplain _ (List.cons_ne_nil _ _) ?_⟩
  · have hcount : (behindAt a.text).count '.' = (behindAt a.localPart).count '.' + a.domain.count '.' := by
      rw [hbehind, List.count_append]
      simp
    have hdot' : a.domain.count '.' = n := hdot.2
    omega
  · have hcut : n ≤ (['x', '.'] ++ behindAt a.text).tail.count '.' := by
      show n ≤ ('.' :: behindAt a.text).count '.'
      rw [List.count_cons_self]
      omega
    rw [← hbehind, ldapdomain_whole hn (by omega), ldapdomain_cut hn hcut]
    symm
    apply fieldTail_unique (k := 2)
    · show (lower (behindAt a.text)).count '.' < n
      rw [count_lower]
      omega
    · right
      show n ≤ ('.' :: lower (behindAt a.text)).count '.'
      rw [List.count_cons_self, count_lower]
      omega

/-- The same local part and another domain: the cut is made for one domain only, although the last labels are the
    same. -/
theorem wrong_of_uncut (hn : 1 ≤ n) (hdotted : Dotted n (behindAt a.text)) (hlabels : a.domain.count '.' + 1 = n)
    (h : '@' ∈ a.localPart) :
    ∃ b : MailAddress, ¬ Dotted n b.domain ∧
      ¬ (simtaMbxCompare n (some a.text) (some b.text) = 0 ↔ SameMailbox n a b) := by
  obtain ⟨b, hlocal, hbdomain⟩ : ∃ b : MailAddress, b.localPart = a.localPart ∧ b.domain = 'x' :: '.' :: a.domain :=
    ⟨a.withDomain ('x' :: '.' :: a.domain) (List.cons_ne_nil _ _), rfl, rfl⟩
  obtain ⟨hbefore, hbehind⟩ := b.parts_quoted (hlocal ▸ h)
  refine ⟨b, fun hdot => absurd hdot.1 (by simp [hbdomain]), ?_⟩
  rw [mbxCompare_eq_zero hn, sameMailbox_iff hn, (a.parts_quoted h).1, (a.parts_quoted h).2, hbefore, hbehind, hlocal,
    hbdomain]
  have hcount : (behindAt a.localPart).count '.' = 1 := by
    have hall := hdotted.2
    rw [(a.parts_quoted h).2, List.count_append, List.count_cons_of_ne (by decide)] at hall
    omega
  intro hiff
  have hsame : fieldTail '.' n (lower a.domain) = fieldTail '.' n (lower ('x' :: '.' :: a.domain)) := by
    rw [fieldTail_of_lt (by rw [count_lower]; omega)]
    symm
    apply fieldTail_unique (k := 2)
    · show (lower a.domain).count '.' < n
      rw [count_lower]
      omega
    · right
      show n ≤ ('.' :: lower a.domain).count '.'
      rw [List.count_cons_self, count_lower]
      omega
  have hdomain := congrArg (List.count '.') (hiff.mpr ⟨rfl, hsame⟩).2
  have hwhole : (behindAt a.localPart ++ '@' :: a.domain).tail.count '.' < n := by
    have hhead := hdotted.1
    have hall := hdotted.2
    rw [(a.parts_quoted h).2] at hhead hall
    cases hx : behindAt a.localPart ++ '@' :: a.domain with
    | nil => exact hn
    | cons c x =>
      rw [hx] at hhead hall
      obtain rfl : c = '.' := Option.some.inj hhead
      rw [List.count_cons_self] at hall
      rw [List.tail_cons]
      omega
  have hcut : n ≤ (behindAt a.localPart ++ '@' :: 'x' :: '.' :: a.domain).tail.count '.' := by
    have hsub : List.Sublist ('x' :: '.' :: a.domain) (behindAt a.localPart ++ '@' :: 'x' :: '.' :: a.domain).tail := by
      cases behindAt a.localPart with
      | nil => exact List.Sublist.refl _
      | cons c x =>
        show List.Sublist _ (x ++ '@' :: 'x' :: '.' :: a.domain)
        exact List.sublist_append_of_sublist_right (List.sublist_cons_self '@' _)
    have hle := hsub.count_le '.'
    rw [List.count_cons_of_ne (by decide), List.count_cons_self] at hle
    omega
  rw [ldapdomain_whole hn hwhole, ldapdomain_cut hn hcut, count_fieldTail hn, count_lower, count_lower,
    List.count_append, List.count_append] at hdomain
  simp at hdomain
  omega

/-- A domain that begins with a dot in front of the last labels. -/
theorem wrong_of_dotted (hn : 1 ≤ n) (h : '@' ∉ a.localPart) (hdotted : Dotted n a.domain) :
    ∃ b : MailAddress, ¬ Dotted n b.domain ∧
      ¬ (simtaMbxCompare n (some a.text) (some b.text) = 0 ↔ SameMailbox n a b) := by
  obtain ⟨b, hlocal, hbdomain⟩ : ∃ b : MailAddress, b.localPart = a.localPart ∧ b.domain = 'x' :: a.domain :=
    ⟨a.withDomain ('x' :: a.domain) (List.cons_ne_nil _ _), rfl, rfl⟩
  obtain ⟨hbefore, hbehind⟩ := b.parts_plain (hlocal ▸ h)
  refine ⟨b, fun hdot => absurd hdot.1 (by simp [hbdomain]), ?_⟩
  obtain ⟨hhead, hcount⟩ := hdotted
  rw [mbxCompare_eq_zero hn, sameMailbox_iff hn, (a.parts_plain h).1, (a.parts_plain h).2, hbefore, hbehind, hlocal,
    hbdomain]
  intro hiff
  have hsame : fieldTail '.' n (lower a.domain) = fieldTail '.' n (lower ('x' :: a.domain)) := by
    have hall : n ≤ (lower ('x' :: a.domain)).count '.' := by
      rw [count_lower, List.count_cons_of_ne (by decide)]
      omega
    exact (fieldTail_cons hall).symm
  have hdomain := congrArg (List.count '.') (hiff.mpr ⟨rfl, hsame⟩).2
  have hwhole : a.domain.tail.count '.' < n := by
    cases hd : a.domain with
    | nil => exact absurd hd a.hasDomain
    | cons c x =>
      rw [hd] at hhead hcount
      obtain rfl : c = '.' := Option.some.inj hhead
      rw [List.count_cons_self] at hcount
      rw [List.tail_cons]
      omega
  have hcut : n ≤ ('x' :: a.domain).tail.count '.' := Nat.le_of_eq hcount.symm
  rw [ldapdomain_whole hn hwhole, ldapdomain_cut hn hcut, count_fieldTail hn, count_lower, count_lower] at hdomain
  omega

/-- **A wrong cut.**  The comparison with some other address is wrong. -/
theorem exists_wrong (hn : 1 ≤ n) (h : ¬ CutRight n a) :
    ∃ b : MailAddress, ¬ Dotted n b.domain ∧
      ¬ (simtaMbxCompare n (some a.text) (some b.text) = 0 ↔ SameMailbox n a b) := by
  by_cases hat : '@' ∈ a.localPart
  · have hbehind := (a.parts_quoted hat).2
    have hcount : (behindAt a.text).count '.' = (behindAt a.localPart).count '.' + a.domain.count '.' := by
      rw [hbehind, List.count_append, List.count_cons_of_ne (by decide)]
    by_cases htail : (behindAt a.text).tail.count '.' < n
    · by_cases hlabels : (behindAt a.text).count '.' + 1 = n
      · exact wrong_of_labels hn hat hlabels
      · -- the text behind the first `@` begins with a dot
        have hmany : n ≤ (behindAt a.text).count '.' := by
          by_contra hfew
          apply h
          exact ⟨fun hdot => by have := hdot.2; omega, fun _ => ⟨by omega, hlabels, htail⟩⟩
        have hdotted := dotted_of_tail hmany htail
        apply wrong_of_uncut hn hdotted _ hat
        have hlocal : 1 ≤ (behindAt a.localPart).count '.' := by
          have hhead := hdotted.1
          rw [hbehind] at hhead
          cases hx : behindAt a.localPart with
          | nil =>
            rw [hx] at hhead
            exact absurd (Option.some.inj hhead) (by decide)
          | cons c x =>
            rw [hx] at hhead
            obtain rfl : c = '.' := Option.some.inj hhead
            rw [List.count_cons_self]
            omega
        have hall := hdotted.2
        by_contra hfew
        apply h
        exact ⟨fun hdot => by have := hdot.2; omega, fun _ => ⟨by omega, hlabels, htail⟩⟩
    · exact wrong_of_cut hn hat (by omega)
  · apply wrong_of_dotted hn hat
    by_contra hdotted
    exact h ⟨hdotted, fun h => absurd h hat⟩

/-- **Exactly which addresses are compared rightly.**  The comparison is an equivalence; with every address whose
    domain is not a dot in front of just `n` labels it says whether the mailboxes are the same, just for the addresses
    that are cut rightly. -/
theorem mbx_compare_iff {ndomain : Int} (hn : 1 ≤ ndomain) :
    (Equivalence fun a b : MailAddress => simtaMbxCompare ndomain (some a.text) (some b.text) = 0) ∧
      ∀ a : MailAddress,
        (∀ b : MailAddress, ¬ Dotted ndomain.toNat b.domain →
          (simtaMbxCompare ndomain (some a.text) (some b.text) = 0 ↔ SameMailbox ndomain.toNat a b)) ↔
          CutRight ndomain.toNat a := by
  obtain ⟨n, rfl⟩ := Int.eq_ofNat_of_zero_le (show 0 ≤ ndomain by omega)
  have hn' : 1 ≤ n := by omega
  rw [Int.toNat_natCast]
  constructor
  · refine ⟨fun a => ?_, fun {a b} h => ?_, fun {a b c} h h' => ?_⟩
    · exact (mbxCompare_eq_zero hn' a a).mpr ⟨rfl, rfl⟩
    · obtain ⟨huser, hdomain⟩ := (mbxCompare_eq_zero hn' a b).mp h
      exact (mbxCompare_eq_zero hn' b a).mpr ⟨huser.symm, hdomain.symm⟩
    · obtain ⟨huser, hdomain⟩ := (mbxCompare_eq_zero hn' a b).mp h
      obtain ⟨huser', hdomain'⟩ := (mbxCompare_eq_zero hn' b c).mp h'
      exact (mbxCompare_eq_zero hn' a c).mpr ⟨huser.trans huser', hdomain.trans hdomain'⟩
  · intro a
    constructor
    · intro h
      by_contra hcut
      obtain ⟨b, hb, hwrong⟩ := exists_wrong hn' hcut
      exact hwrong (h b hb)
    · exact fun h b hb => h.compare hn' hb

/-- `u@h.org`. -/
def plainMail : MailAddress := ⟨"u".toList, "h.org".toList, by decide, by decide⟩

/-- `U@mail.H.org`. -/
def otherMail : MailAddress := ⟨"U".toList, "mail.H.org".toList, by decide, by decide⟩

/-- Addresses without an `@` in their local parts. -/
theorem mbx_compare_iff_plain :
    simtaMbxCompare 2 (some plainMail.text) (some otherMail.text) = 0 ↔ SameMailbox 2 plainMail otherMail :=
  ((mbx_compare_iff (by decide)).2 plainMail).mpr
    ⟨fun hdot => absurd hdot.1 (by decide), fun hat => absurd hat (by decide)⟩ otherMail
    fun hdot => absurd hdot.1 (by decide)

/-- `"a@x"@d.c.org`. -/
def quotedX : MailAddress :=
  ⟨"\"a@x\"".toList, "d.c.org".toList, by simp [tokenUser, tokenQuotedString, tokenQuoted], by decide⟩

/-- `"a@y"@d.c.org`. -/
def quotedY : MailAddress :=
  ⟨"\"a@y\"".toList, "d.c.org".toList, by simp [tokenUser, tokenQuotedString, tokenQuoted], by decide⟩

/-- Two mailboxes of one domain: their addresses are cut at the `@` of the local parts. -/
theorem not_mbx_compare :
    simtaMbxCompare 2 (some quotedX.text) (some quotedY.text) = 0 ∧ ¬ SameMailbox 2 quotedX quotedY :=
  ⟨by decide, fun h => absurd h.1 (by decide)⟩

end Simta
