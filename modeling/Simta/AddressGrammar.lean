import Simta.StringAddress

/-!
# The grammar of addresses

The grammar that is written down above `is_emailaddr`, and the addresses that the function accepts.

* `DotAtomText`, `QuotedString`, `DomainLiteral`, `Documented` — the grammar;
* `UserToken`, `DomainToken` — the local parts and domains that the tokens of the program make;
* `isEmailaddr_iff` — what is accepted;
* `documented_iff` — when this is the grammar.
-/

set_option autoImplicit false

namespace Simta

variable {addr user dom t u : Text}

/-! ## The grammar -/

/-- `atext`. -/
def isAtext (c : Char) : Bool := c.isAlphanum || "!#$%&'*+-/=?^_`\x7b|\x7d~".toList.contains c

/-- `NO-WS-CTL`. -/
def isNoWsCtl (c : Char) : Bool :=
  (decide (1 ≤ c.toNat) && decide (c.toNat ≤ 8)) || c.toNat = 11 || c.toNat = 12 ||
    (decide (14 ≤ c.toNat) && decide (c.toNat ≤ 31)) || c.toNat = 127

/-- `qtext`. -/
def isQtext (c : Char) : Bool :=
  isNoWsCtl c || c.toNat = 33 || (decide (35 ≤ c.toNat) && decide (c.toNat ≤ 91)) ||
    (decide (93 ≤ c.toNat) && decide (c.toNat ≤ 126))

/-- `dtext`. -/
def isDtext (c : Char) : Bool :=
  isNoWsCtl c || (decide (33 ≤ c.toNat) && decide (c.toNat ≤ 90)) || (decide (94 ≤ c.toNat) && decide (c.toNat ≤ 126))

/-- The characters of `text`, which a backslash quotes: seven bits, and neither NUL, CR nor LF. -/
def isMailChar (c : Char) : Bool := decide (1 ≤ c.toNat) && decide (c.toNat ≤ 127) && c.toNat ≠ 10 && c.toNat ≠ 13

def isWsp (c : Char) : Bool := c = ' ' || c = '\t'

/-- `1*atext`. -/
def Atom (t : Text) : Prop := t ≠ [] ∧ ∀ c ∈ t, isAtext c = true

/-- `1*atext *("." 1*atext)`. -/
inductive DotAtomText : Text → Prop
  | atom {t : Text} (h : Atom t) : DotAtomText t
  | dot {t u : Text} (h : Atom t) (hu : DotAtomText u) : DotAtomText (t ++ '.' :: u)

/-- Characters of the class `p`, white space and quoted pairs. -/
inductive Content (p : Char → Bool) : Text → Prop
  | nil : Content p []
  | text {c : Char} {t : Text} (hc : p c = true ∨ isWsp c = true) (h : Content p t) : Content p (c :: t)
  | pair {c : Char} {t : Text} (hc : isMailChar c = true) (h : Content p t) : Content p ('\\' :: c :: t)

/-- `DQUOTE *([FWS] qcontent) [FWS] DQUOTE`. -/
def QuotedString (t : Text) : Prop := ∃ body, t = '"' :: (body ++ ['"']) ∧ Content isQtext body

/-- `"[" *([FWS] dcontent) [FWS] "]"`. -/
def DomainLiteral (t : Text) : Prop := ∃ body, t = '[' :: (body ++ [']']) ∧ Content isDtext body

/-- The addresses of the grammar: the empty one, the reserved mailbox name, or
    `( dot-atom-text | quoted-string ) '@' ( dot-atom-text | domain-literal )`. -/
def Documented (addr : Text) : Prop :=
  addr = [] ∨ strcaseEq addr stringPostmaster = true ∨
    ∃ user dom, addr = user ++ '@' :: dom ∧ (DotAtomText user ∨ QuotedString user) ∧
      (DotAtomText dom ∨ DomainLiteral dom) ∧ dom.length ≤ simtaMaxHostNameLen

/-! ## The tokens -/

/-- A local part, as the program reads it. -/
def UserToken (user : Text) : Prop := tokenUser user = some (user, [])

/-- A domain, as the program reads it. -/
def DomainToken (dom : Text) : Prop := tokenAddressDomain dom = some (dom, [])

theorem userToken_append (h : UserToken user) : ∀ d, tokenUser (user ++ '@' :: d) = some (user, '@' :: d) := by
  obtain ⟨-, -, -, -, happ⟩ := tokenUser_append h
  exact fun d => happ _ fun c hc => by cases hc; rfl

theorem tokenUser_token {s rest : Text} (h : tokenUser s = some (user, rest)) : UserToken user := by
  obtain ⟨-, -, -, -, happ⟩ := tokenUser_append h
  have hself := happ [] (fun c hc => by cases hc)
  rwa [List.append_nil] at hself

/-- An address is taken apart in one way. -/
theorem userToken_unique {user' dom' : Text} (h : UserToken user) (h' : UserToken user')
    (heq : user ++ '@' :: dom = user' ++ '@' :: dom') : user = user' ∧ dom = dom' := by
  have hread := userToken_append h dom
  rw [heq, userToken_append h' dom'] at hread
  obtain ⟨huser, hdom⟩ := Prod.mk.inj (Option.some.inj hread)
  exact ⟨huser.symm, (List.cons.inj hdom).2.symm⟩

/-- A domain that the address ends with. -/
theorem parseAddressDomain_normal {d : Text} :
    (parseAddressDomain .normal user d).isSome = true ↔ DomainToken d ∧ d.length ≤ simtaMaxHostNameLen := by
  unfold parseAddressDomain
  split
  · rename_i hlong
    constructor
    · exact fun h => by cases h
    · rintro ⟨-, hle⟩
      omega
  · rename_i hle
    split
    · rename_i hnone
      constructor
      · exact fun h => by cases h
      · rintro ⟨htoken, -⟩
        rw [DomainToken, hnone] at htoken
        cases htoken
    · rename_i domain eol htoken
      split
      · rename_i heol
        obtain ⟨hd, hself⟩ := tokenAddressDomain_self htoken
        rw [show eol = [] from heol, List.append_nil] at hd
        subst hd
        exact ⟨fun _ => ⟨hself, Nat.le_of_not_lt hle⟩, fun _ => rfl⟩
      · rename_i heol
        constructor
        · exact fun h => by cases h
        · rintro ⟨hself, -⟩
          rw [DomainToken, htoken] at hself
          exact absurd (Prod.mk.inj (Option.some.inj hself)).2 heol

/-- What may follow the local part. -/
def acceptedBehind (user : Text) : Text → Bool
  | [] => strcaseEq user stringPostmaster
  | '@' :: d => (parseAddressDomain .normal user d).isSome
  | _ => false

/-- An address that begins with a local part. -/
theorem isEmailaddr_token {rest : Text} (h : tokenUser addr = some (user, rest)) :
    isEmailaddr addr = acceptedBehind user rest := by
  obtain ⟨hs, hne, hat, hgt, -⟩ := tokenUser_append h
  have hhead : addr.head? = user.head? := by rw [hs, head?_append_of_ne_nil hne]
  have haddr : addr ≠ [] := by
    rintro rfl
    exact hne (List.append_eq_nil_iff.mp hs.symm).1
  unfold isEmailaddr parseEmailaddr
  rw [if_pos rfl, if_neg haddr, hhead, if_neg hat]
  unfold parseMailbox
  rw [hhead, if_neg hgt, h]
  dsimp only
  cases rest with
  | nil =>
    rw [if_pos (.inl ⟨rfl, rfl⟩), acceptedBehind]
    split
    · rename_i hpost
      exact hpost.symm
    · rename_i hpost
      exact (Bool.eq_false_iff.mpr hpost).symm
  | cons c rest =>
    rw [if_neg (by rintro (⟨hnil, -⟩ | ⟨-, hmode⟩); cases hnil; cases hmode)]
    by_cases hc : c = '@'
    · subst hc
      rfl
    · simp [acceptedBehind, hc]

theorem isAlphanum_of_toLower {c : Char} (h : c.toLower ∈ stringPostmaster) : c.isAlphanum = true := by
  by_cases hupper : c.isUpper = true
  · show (c.isUpper || c.isLower || c.isDigit) = true
    rw [hupper]
    rfl
  · have hsame : c.toLower = c := by
      unfold Char.toLower
      rw [dif_neg]
      rintro ⟨h₁, h₂⟩
      apply hupper
      exact decide_eq_true ⟨h₁, h₂⟩
    rw [hsame] at h
    exact List.all_eq_true.mp (show stringPostmaster.all Char.isAlphanum = true by decide) c h

/-- The reserved mailbox name is one word, where no character of a word follows. -/
theorem postmaster_append (h : strcaseEq addr stringPostmaster = true) {x : Text}
    (hx : ∀ c ∈ x.head?, isDotAtomText c = false) : tokenUser (addr ++ x) = some (addr, x) := by
  have hlower := of_decide_eq_true h
  have hall : ∀ c ∈ addr, isDotAtomText c = true := by
    intro c hc
    have hmem : c.toLower ∈ stringPostmaster.map Char.toLower := hlower ▸ List.mem_map_of_mem hc
    rw [show stringPostmaster.map Char.toLower = stringPostmaster by decide] at hmem
    unfold isDotAtomText
    rw [isAlphanum_of_toLower hmem, Bool.true_or]
  have hne : addr ≠ [] := by
    rintro rfl
    revert hlower
    decide
  have hhead : addr.head? ≠ some '"' := by
    intro hquote
    have hquote := hall '"' (List.mem_of_mem_head? hquote)
    revert hquote
    decide
  unfold tokenUser
  rw [head?_append_of_ne_nil hne, if_neg hhead]
  exact tokenDotAtom_append hne hall hx

theorem postmaster_token (h : strcaseEq addr stringPostmaster = true) : tokenUser addr = some (addr, []) := by
  have htoken : tokenUser (addr ++ []) = some (addr, []) := postmaster_append h (fun c hc => by cases hc)
  rwa [List.append_nil] at htoken

/-- **What is accepted**: the empty address, the reserved mailbox name, and a local part with a domain. -/
theorem isEmailaddr_iff : isEmailaddr addr = true ↔
    addr = [] ∨ strcaseEq addr stringPostmaster = true ∨
      ∃ user dom, addr = user ++ '@' :: dom ∧ UserToken user ∧ DomainToken dom ∧ dom.length ≤ simtaMaxHostNameLen := by
  constructor
  · intro h
    cases htoken : tokenUser addr with
    | none =>
      by_cases hnil : addr = []
      · exact .inl hnil
      · unfold isEmailaddr parseEmailaddr at h
        rw [if_pos rfl, if_neg hnil] at h
        unfold parseMailbox at h
        split at h
        · cases h
        · split at h
          · split at h
            · rename_i hmode
              cases hmode.1
            · cases h
          · rw [htoken] at h
            cases h
    | some r =>
      obtain ⟨user, rest⟩ := r
      obtain ⟨hs, -⟩ := tokenUser_append htoken
      rw [isEmailaddr_token htoken] at h
      unfold acceptedBehind at h
      split at h
      · rw [List.append_nil] at hs
        exact .inr (.inl (hs ▸ h))
      · rename_i d
        obtain ⟨hdom, hle⟩ := parseAddressDomain_normal.mp h
        exact .inr (.inr ⟨user, d, hs, tokenUser_token htoken, hdom, hle⟩)
      · cases h
  · rintro (rfl | hpost | ⟨user, dom, rfl, huser, hdom, hle⟩)
    · rfl
    · rw [isEmailaddr_token (postmaster_token hpost)]
      exact hpost
    · rw [isEmailaddr_token (userToken_append huser dom)]
      exact parseAddressDomain_normal.mpr ⟨hdom, hle⟩

/-! ## Dots -/

theorem isDotAtomText_eq (c : Char) : isDotAtomText c = (isAtext c || decide (c = '.')) := by
  unfold isDotAtomText isAtext
  rw [show "!#$%&'*+-/=?^_`\x7b|\x7d~.".toList = "!#$%&'*+-/=?^_`\x7b|\x7d~".toList ++ ['.'] by decide,
    List.contains_append, Bool.or_assoc]
  congr 2
  simp

/-- A dot at the beginning, at the end or behind another dot; `start` says that an atom is to begin. -/
def hasEmptyAtom (start : Bool) : Text → Bool
  | [] => start
  | c :: t => if c = '.' then start || hasEmptyAtom true t else hasEmptyAtom false t

theorem hasEmptyAtom_atom {start : Bool} (h : Atom t) (u : Text) : hasEmptyAtom start (t ++ u) = hasEmptyAtom false u := by
  have hrun : ∀ {t : Text}, (∀ c ∈ t, isAtext c = true) → hasEmptyAtom false (t ++ u) = hasEmptyAtom false u := by
    intro t hall
    induction t with
    | nil => rfl
    | cons c t ih =>
      have hdot : c ≠ '.' := by
        rintro rfl
        exact absurd (hall '.' List.mem_cons_self) (by decide)
      rw [List.cons_append, hasEmptyAtom, if_neg hdot]
      exact ih fun c hc => hall c (List.mem_cons_of_mem _ hc)
  obtain ⟨hne, hall⟩ := h
  cases t with
  | nil => exact absurd rfl hne
  | cons c t =>
    have hdot : c ≠ '.' := by
      rintro rfl
      exact absurd (hall '.' List.mem_cons_self) (by decide)
    rw [List.cons_append, hasEmptyAtom, if_neg hdot]
    exact hrun fun c hc => hall c (List.mem_cons_of_mem _ hc)

theorem DotAtomText.spec (h : DotAtomText t) :
    t ≠ [] ∧ (∀ c ∈ t, isDotAtomText c = true) ∧ hasEmptyAtom true t = false := by
  have htext : ∀ {t : Text}, Atom t → ∀ c ∈ t, isDotAtomText c = true := by
    intro t h c hc
    rw [isDotAtomText_eq, h.2 c hc, Bool.true_or]
  induction h with
  | atom h =>
    refine ⟨h.1, htext h, ?_⟩
    have hempty : hasEmptyAtom true (_ ++ []) = false := hasEmptyAtom_atom h []
    rwa [List.append_nil] at hempty
  | dot h _ ih =>
    obtain ⟨-, hall, hempty⟩ := ih
    refine ⟨by simp, ?_, ?_⟩
    · intro c hc
      rcases List.mem_append.mp hc with hc | hc
      · exact htext h c hc
      · rcases List.mem_cons.mp hc with rfl | hc
        · decide
        · exact hall c hc
    · rw [hasEmptyAtom_atom h, hasEmptyAtom, if_pos rfl, hempty]
      rfl

/-- **Atoms between single dots.** -/
theorem dotAtomText_of (hall : ∀ c ∈ t, isDotAtomText c = true) (h : hasEmptyAtom true t = false) : DotAtomText t := by
  have hatext : ∀ {c : Char}, isDotAtomText c = true → c ≠ '.' → isAtext c = true := by
    intro c hc hdot
    rw [isDotAtomText_eq, decide_eq_false hdot, Bool.or_false] at hc
    exact hc
  -- with the part of an atom in front, and with nothing
  have hrun : ∀ t : Text, (∀ c ∈ t, isDotAtomText c = true) →
      (∀ a, Atom a → hasEmptyAtom false t = false → DotAtomText (a ++ t)) ∧
        (hasEmptyAtom true t = false → DotAtomText t) := by
    intro t
    induction t with
    | nil =>
      refine fun _ => ⟨fun a ha _ => ?_, fun h => by cases h⟩
      rw [List.append_nil]
      exact .atom ha
    | cons c t ih =>
      intro hall
      obtain ⟨hafter, hstart⟩ := ih fun c hc => hall c (List.mem_cons_of_mem _ hc)
      by_cases hdot : c = '.'
      · subst hdot
        refine ⟨fun a ha h => ?_, fun h => by cases h⟩
        exact .dot ha (hstart h)
      · have hc := hatext (hall c List.mem_cons_self) hdot
        have hskip : ∀ start, hasEmptyAtom start (c :: t) = hasEmptyAtom false t := by
          intro start
          rw [hasEmptyAtom, if_neg hdot]
        constructor
        · intro a ha h
          rw [hskip] at h
          have hac : Atom (a ++ [c]) := by
            refine ⟨by simp, fun d hd => ?_⟩
            rcases List.mem_append.mp hd with hd | hd
            · exact ha.2 d hd
            · rw [List.mem_singleton.mp hd]
              exact hc
          have hdots := hafter _ hac h
          rwa [List.append_assoc] at hdots
        · intro h
          rw [hskip] at h
          exact hafter [c] ⟨by simp, fun d hd => by rw [List.mem_singleton.mp hd]; exact hc⟩ h
  exact (hrun t hall).2 h

/-! ## Quoted text -/

/-- A bare `d`, which no backslash quotes. -/
def hasBare (d : Char) : Text → Bool
  | [] => false
  | '\\' :: [] => false
  | '\\' :: _ :: t => hasBare d t
  | c :: t => c = d || hasBare d t

theorem Content.mailChars {p : Char → Bool} (hp : ∀ c, p c = true → isMailChar c = true) (h : Content p t) :
    ∀ c ∈ t, isMailChar c = true := by
  have hwsp : ∀ c, isWsp c = true → isMailChar c = true := by
    intro c hc
    unfold isWsp at hc
    rcases Bool.or_eq_true_iff.mp hc with hc | hc <;> rw [of_decide_eq_true hc] <;> decide
  induction h with
  | nil => exact fun c hc => by cases hc
  | text hc _ ih =>
    intro d hd
    rcases List.mem_cons.mp hd with rfl | hd
    · exact hc.elim (hp d) (hwsp d)
    · exact ih d hd
  | pair hc _ ih =>
    intro d hd
    rcases List.mem_cons.mp hd with rfl | hd
    · decide
    · rcases List.mem_cons.mp hd with rfl | hd
      · exact hc
      · exact ih d hd

/-- **Content is read to the quote** that closes it. -/
theorem Content.tokenQuoted {p : Char → Bool} {close : Char}
    (hp : ∀ c, p c = true ∨ isWsp c = true → c ≠ close ∧ c ≠ '\\') (hclose : close ≠ '\\') (h : Content p t) :
    tokenQuoted close (t ++ [close]) = some (t ++ [close], []) := by
  induction h with
  | nil => simp [Simta.tokenQuoted, hclose]
  | text hc _ ih =>
    obtain ⟨hne, hslash⟩ := hp _ hc
    simp [Simta.tokenQuoted, hslash, hne, ih]
  | pair hc _ ih => simp [Simta.tokenQuoted, ih]

theorem Content.hasBare {p : Char → Bool} {close d : Char}
    (hp : ∀ c, p c = true ∨ isWsp c = true → c ≠ d ∧ c ≠ '\\') (hclose : close ≠ '\\') (hd : close ≠ d)
    (h : Content p t) : hasBare d (t ++ [close]) = false := by
  induction h with
  | nil => simp [Simta.hasBare, hclose, hd]
  | text hc _ ih =>
    obtain ⟨hne, hslash⟩ := hp _ hc
    simp [Simta.hasBare, hslash, hne, ih]
  | pair hc _ ih => simp [Simta.hasBare, ih]

/-- **What is read to the quote is content**, if its characters are those of mail and no `d` is bare in it. -/
theorem content_of {p : Char → Bool} {close d : Char} {rest s : Text} (h : tokenQuoted close s = some (t, rest))
    (hmail : ∀ c ∈ t, isMailChar c = true) (hbare : d = close ∨ hasBare d t = false)
    (hp : ∀ c, isMailChar c = true → c ≠ close → c ≠ '\\' → c ≠ d → p c = true ∨ isWsp c = true) :
    ∃ body, t = body ++ [close] ∧ Content p body := by
  fun_induction Simta.tokenQuoted close s generalizing t rest with
  | case1 => cases h
  | case2 => cases h
  | case3 c s ih =>
    obtain ⟨⟨t', rest'⟩, ht, heq⟩ := Option.map_eq_some_iff.mp h
    obtain ⟨rfl, rfl⟩ := Prod.mk.inj heq
    have hmail' : ∀ c ∈ t', isMailChar c = true :=
      fun c hc => hmail c (List.mem_cons_of_mem _ (List.mem_cons_of_mem _ hc))
    have hbare' : d = close ∨ hasBare d t' = false := by
      rw [hasBare] at hbare
      exact hbare
    obtain ⟨body, rfl, hbody⟩ := ih ht hmail' hbare'
    exact ⟨'\\' :: c :: body, rfl, .pair (hmail c (List.mem_cons_of_mem _ List.mem_cons_self)) hbody⟩
  | case4 s h₁ h₂ =>
    obtain ⟨rfl, rfl⟩ := Prod.mk.inj (Option.some.inj h)
    exact ⟨[], rfl, .nil⟩
  | case5 c s h₁ h₂ hne ih =>
    obtain ⟨⟨t', rest'⟩, ht, heq⟩ := Option.map_eq_some_iff.mp h
    obtain ⟨rfl, rfl⟩ := Prod.mk.inj heq
    have hslash : c ≠ '\\' := by
      rintro rfl
      cases s with
      | nil => exact h₁ rfl rfl
      | cons e s => exact h₂ e s rfl rfl
    have hbare' : d = close ∨ (c ≠ d ∧ hasBare d t' = false) := by
      apply hbare.imp_right
      intro hbare
      simpa [hasBare, hslash] using hbare
    obtain ⟨body, rfl, hbody⟩ := ih ht (fun c hc => hmail c (List.mem_cons_of_mem _ hc)) (hbare'.imp_right And.right)
    refine ⟨c :: body, rfl, .text (hp c (hmail c List.mem_cons_self) hne hslash ?_) hbody⟩
    rcases hbare' with rfl | hbare'
    · exact hne
    · exact hbare'.1

/-! ## The two grammars -/

/-- A local part without an empty atom; a quoted one with no other characters than those of mail. -/
def RegularUser (user : Text) : Prop :=
  if user.head? = some '"' then ∀ c ∈ user, isMailChar c = true else hasEmptyAtom true user = false

/-- A domain without an empty atom; a literal with no other characters than those of mail, and without a bracket. -/
def RegularDomain (dom : Text) : Prop :=
  if dom.head? = some '[' then (∀ c ∈ dom, isMailChar c = true) ∧ hasBare '[' dom.tail = false
  else hasEmptyAtom true dom = false

instance (user : Text) : Decidable (RegularUser user) := inferInstanceAs (Decidable (ite _ _ _))

instance (dom : Text) : Decidable (RegularDomain dom) := inferInstanceAs (Decidable (ite _ _ _))

theorem dotAtom_head {c : Char} (h : ∀ c ∈ t, isDotAtomText c = true) (hc : isDotAtomText c = false) :
    t.head? ≠ some c := by
  intro hhead
  rw [h c (List.mem_of_mem_head? hhead)] at hc
  cases hc

theorem toNat_ne {c d : Char} (h : c ≠ d) : c.toNat ≠ d.toNat := fun heq => h (Char.toNat_inj.mp heq)

theorem isWsp_iff (c : Char) : isWsp c = true ↔ c.toNat = 32 ∨ c.toNat = 9 := by
  unfold isWsp
  rw [Bool.or_eq_true, decide_eq_true_iff, decide_eq_true_iff, ← Char.toNat_inj, ← Char.toNat_inj]
  exact Iff.rfl

theorem isQtext_mail (c : Char) (h : isQtext c = true) : isMailChar c = true := by
  simp [isQtext, isNoWsCtl] at h
  simp [isMailChar]
  omega

theorem isDtext_mail (c : Char) (h : isDtext c = true) : isMailChar c = true := by
  simp [isDtext, isNoWsCtl] at h
  simp [isMailChar]
  omega

/-- The characters of mail that are left for a quoted string. -/
theorem isQtext_of (c : Char) (h : isMailChar c = true) (hquote : c ≠ '"') (hslash : c ≠ '\\') :
    isQtext c = true ∨ isWsp c = true := by
  have hquote : c.toNat ≠ 34 := toNat_ne hquote
  have hslash : c.toNat ≠ 92 := toNat_ne hslash
  rw [isWsp_iff]
  simp [isMailChar] at h
  simp [isQtext, isNoWsCtl]
  omega

/-- Those that are left for a domain literal. -/
theorem isDtext_of (c : Char) (h : isMailChar c = true) (hclose : c ≠ ']') (hslash : c ≠ '\\') (hopen : c ≠ '[') :
    isDtext c = true ∨ isWsp c = true := by
  have hclose : c.toNat ≠ 93 := toNat_ne hclose
  have hslash : c.toNat ≠ 92 := toNat_ne hslash
  have hopen : c.toNat ≠ 91 := toNat_ne hopen
  rw [isWsp_iff]
  simp [isMailChar] at h
  simp [isDtext, isNoWsCtl]
  omega

theorem isQtext_ne (c : Char) (h : isQtext c = true ∨ isWsp c = true) : c ≠ '"' ∧ c ≠ '\\' := by
  constructor <;> rintro rfl <;> revert h <;> decide

theorem isDtext_ne (c : Char) (h : isDtext c = true ∨ isWsp c = true) : c ≠ ']' ∧ c ≠ '\\' ∧ c ≠ '[' := by
  refine ⟨?_, ?_, ?_⟩ <;> rintro rfl <;> revert h <;> decide

/-- **The local parts of the grammar** are the regular ones that are read. -/
theorem localPart_iff : DotAtomText user ∨ QuotedString user ↔ UserToken user ∧ RegularUser user := by
  unfold UserToken RegularUser tokenUser
  constructor
  · rintro (h | ⟨body, rfl, hbody⟩)
    · obtain ⟨hne, hall, hempty⟩ := h.spec
      have hhead := dotAtom_head hall (show isDotAtomText '"' = false by decide)
      have htoken : tokenDotAtom (user ++ []) = some (user, []) := tokenDotAtom_append hne hall (fun c hc => by cases hc)
      rw [List.append_nil] at htoken
      rw [if_neg hhead, if_neg hhead]
      exact ⟨htoken, hempty⟩
    · rw [List.head?_cons, if_pos rfl, if_pos rfl]
      constructor
      · rw [tokenQuotedString, hbody.tokenQuoted isQtext_ne (by decide)]
        rfl
      · have hmail := hbody.mailChars isQtext_mail
        intro c hc
        simp only [List.mem_cons, List.mem_append, List.not_mem_nil, or_false] at hc
        rcases hc with rfl | hc | rfl
        · decide
        · exact hmail c hc
        · decide
  · rintro ⟨htoken, hregular⟩
    split at htoken
    · rename_i hhead
      rw [if_pos hhead] at hregular
      unfold tokenQuotedString at htoken
      split at htoken
      · rename_i s
        obtain ⟨⟨t', rest'⟩, ht, heq⟩ := Option.map_eq_some_iff.mp htoken
        obtain ⟨hs, rfl⟩ := Prod.mk.inj heq
        cases hs
        obtain ⟨body, rfl, hbody⟩ := content_of (p := isQtext) ht (fun c hc => hregular c (List.mem_cons_of_mem _ hc))
          (.inl rfl) (fun c hc hquote hslash _ => isQtext_of c hc hquote hslash)
        exact .inr ⟨body, rfl, hbody⟩
      · cases htoken
    · rename_i hhead
      rw [if_neg hhead] at hregular
      obtain ⟨-, -, hall⟩ := tokenDotAtom_spec htoken
      exact .inl (dotAtomText_of hall hregular)

/-- **The domains of the grammar** are the regular ones that are read. -/
theorem addressDomain_iff : DotAtomText dom ∨ DomainLiteral dom ↔ DomainToken dom ∧ RegularDomain dom := by
  unfold DomainToken RegularDomain tokenAddressDomain
  constructor
  · rintro (h | ⟨body, rfl, hbody⟩)
    · obtain ⟨hne, hall, hempty⟩ := h.spec
      have hhead := dotAtom_head hall (show isDotAtomText '[' = false by decide)
      have htoken : tokenDotAtom (dom ++ []) = some (dom, []) := tokenDotAtom_append hne hall (fun c hc => by cases hc)
      rw [List.append_nil] at htoken
      rw [if_neg hhead, if_neg hhead]
      exact ⟨htoken, hempty⟩
    · rw [List.head?_cons, if_pos rfl, if_pos rfl]
      refine ⟨?_, ?_, ?_⟩
      · rw [tokenDomainLiteral, hbody.tokenQuoted (fun c hc => ⟨(isDtext_ne c hc).1, (isDtext_ne c hc).2.1⟩) (by decide)]
        rfl
      · have hmail := hbody.mailChars isDtext_mail
        intro c hc
        simp only [List.mem_cons, List.mem_append, List.not_mem_nil, or_false] at hc
        rcases hc with rfl | hc | rfl
        · decide
        · exact hmail c hc
        · decide
      · exact hbody.hasBare (fun c hc => ⟨(isDtext_ne c hc).2.2, (isDtext_ne c hc).2.1⟩) (by decide) (by decide)
  · rintro ⟨htoken, hregular⟩
    split at htoken
    · rename_i hhead
      rw [if_pos hhead] at hregular
      unfold tokenDomainLiteral at htoken
      split at htoken
      · rename_i s
        obtain ⟨⟨t', rest'⟩, ht, heq⟩ := Option.map_eq_some_iff.mp htoken
        obtain ⟨hs, rfl⟩ := Prod.mk.inj heq
        cases hs
        obtain ⟨body, rfl, hbody⟩ := content_of (p := isDtext) ht
          (fun c hc => hregular.1 c (List.mem_cons_of_mem _ hc)) (.inr hregular.2) isDtext_of
        exact .inr ⟨body, rfl, hbody⟩
      · cases htoken
    · rename_i hhead
      rw [if_neg hhead] at hregular
      obtain ⟨-, -, hall⟩ := tokenDotAtom_spec htoken
      exact .inl (dotAtomText_of hall hregular)

/-- **When `is_emailaddr` is the grammar**: on every address but those that are read to a local part and a domain of
    which one has an empty atom, a character that is not one of mail, or an opening bracket in a literal. -/
theorem documented_iff (addr : Text) : (isEmailaddr addr = true ↔ Documented addr) ↔
    ¬ ∃ user dom, addr = user ++ '@' :: dom ∧ UserToken user ∧ DomainToken dom ∧ dom.length ≤ simtaMaxHostNameLen ∧
      ¬ (RegularUser user ∧ RegularDomain dom) := by
  rw [isEmailaddr_iff, Documented]
  constructor
  · rintro h ⟨user, dom, rfl, huser, hdom, hle, hirregular⟩
    rcases h.mp (.inr (.inr ⟨user, dom, rfl, huser, hdom, hle⟩)) with hnil | hpost | ⟨user', dom', heq, huser', hdom', -⟩
    · simp at hnil
    · exact at_notMem_of_postmaster hpost (List.mem_append_right _ List.mem_cons_self)
    · obtain ⟨htoken, hregular⟩ := localPart_iff.mp huser'
      obtain ⟨rfl, rfl⟩ := userToken_unique huser htoken heq
      exact hirregular ⟨hregular, (addressDomain_iff.mp hdom').2⟩
  · intro h
    apply or_congr_right
    apply or_congr_right
    constructor
    · rintro ⟨user, dom, rfl, huser, hdom, hle⟩
      by_cases hregular : RegularUser user ∧ RegularDomain dom
      · exact ⟨user, dom, rfl, localPart_iff.mpr ⟨huser, hregular.1⟩, addressDomain_iff.mpr ⟨hdom, hregular.2⟩, hle⟩
      · exact absurd ⟨user, dom, rfl, huser, hdom, hle, hregular⟩ h
    · rintro ⟨user, dom, rfl, huser, hdom, hle⟩
      exact ⟨user, dom, rfl, (localPart_iff.mp huser).1, (addressDomain_iff.mp hdom).1, hle⟩

/-- Two dots in a row are accepted. -/
theorem not_documented : isEmailaddr "a..b@c".toList = true ∧ ¬ Documented "a..b@c".toList := by
  refine ⟨by decide, ?_⟩
  rintro (hnil | hpost | ⟨user, dom, heq, huser, -⟩)
  · cases hnil
  · revert hpost
    decide
  · obtain ⟨htoken, hregular⟩ := localPart_iff.mp huser
    obtain ⟨rfl, rfl⟩ := userToken_unique (show tokenUser "a..b".toList = some ("a..b".toList, []) by decide) htoken heq
    revert hregular
    decide

end Simta
