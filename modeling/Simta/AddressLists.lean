import Simta.AddressPath
import Simta.Ldap

/-!
# The two readers of an address list

`address_string_recipients` reads a list of addresses in one loop, which ends each address in place by
a NUL and makes the line good again behind it; `string_address_parse` reads the same lists one address
a call, over a copy and with what it needs to go on kept between the calls.

* `stringAt`, `behindToken`, `skipCwsAt` — strings and tokens at a place of a buffer;
* `recipientsLoop`, `addressStringRecipientsIn` — the loop, with the line as it leaves it;
* `stringAddressParse`, `parsedAddresses` — the iterator, and its addresses up to the first `NULL`;
* `recipients_spec`, `parsedAddresses_spec` — both come to the addresses of `addressStrings`;
* `readersAgree_iff` — they agree just when no address that is well formed stands behind one that is not.
-/

set_option autoImplicit false

namespace Simta

/-! ## Places in a buffer -/

/-- The string at a place of a buffer; behind the buffer lies its NUL. -/
def stringAt (buf : Text) (p : Nat) : Text := (buf.drop p).takeWhile (· ≠ '\x00')

def charAt (buf : Text) (p : Nat) : Char := buf.getD p '\x00'

/-- The place of `rest`, which ends the string at `p`. -/
def placeOf (buf : Text) (p : Nat) (rest : Text) : Nat := p + ((stringAt buf p).length - rest.length)

/-- The place behind a token at `p`. -/
def behindToken (token : Text → Option (Text × Text)) (buf : Text) (p : Nat) : Option Nat :=
  (token (stringAt buf p)).map fun t => placeOf buf p t.2

/-- `skip_cws` from `p` on. -/
def skipCwsAt (buf : Text) (p : Nat) : Option Nat := (skipCws (stringAt buf p)).map (placeOf buf p)

/-! ## What both loops are written with -/

/-- `while ( *start != '<' )`: over the words of a display name to the `<`. -/
def displayWords (buf : Text) : Nat → Nat → Option Nat
  | 0, _ => none
  | fuel + 1, start =>
    if charAt buf start = '<' then some start
    else
      match behindToken (if charAt buf start = '"' then tokenQuotedString else tokenDotAtom) buf start with
      | none => none
      | some next => (skipCwsAt buf next).bind (displayWords buf fuel)

/-- `for ( end = email_start; *end != '>'; end++ )`. -/
def angleEnd (buf : Text) (p : Nat) : Option Nat :=
  if '>' ∈ stringAt buf p then some (p + ((stringAt buf p).takeWhile (· ≠ '>')).length) else none

/-- The place behind the domain at `p`. -/
def domainEnd (buf : Text) (p : Nat) : Option Nat :=
  behindToken (if charAt buf p = '[' then tokenDomainLiteral else tokenDomain) buf p

/-- A comma, and what follows it. -/
def behindCommaAt (buf : Text) (p : Nat) : Option Nat :=
  match skipCwsAt buf p with
  | none => none
  | some comma => if charAt buf comma = ',' then skipCwsAt buf (comma + 1) else none

/-- The string is not an address in angle brackets, with or without a display name in quotes. -/
def startsBare (buf : Text) (start : Nat) : Bool := charAt buf start ≠ '"' && charAt buf start ≠ '<'

/-! ## `address_string_recipients` -/

/-- The caller's line, and the addresses that `add_address` was called with. -/
structure Handed where
  line : Text
  passed : List Text
  deriving DecidableEq, Repr

/-- The address is ended in place, handed to `add_address` when it is well formed, and the line is made good.
    `add` tells whether the last of the calls succeeds. -/
def handOver (add : List Text → Bool) (emailStart last : Nat) (swap : Char) (h : Handed) : Bool × Handed :=
  let line := h.line.set last '\x00'
  if isEmailaddr (stringAt line emailStart) then
    (add (h.passed ++ [stringAt line emailStart]), ⟨line.set last swap, h.passed ++ [stringAt line emailStart]⟩)
  else (true, ⟨line.set last swap, h.passed⟩)

/-- The loop goes on behind the comma, if there is one. -/
def goOn (next : Nat → Handed → Option (Int × Handed)) (last : Nat) : Bool × Handed → Option (Int × Handed)
  | (false, h) => some (1, h)
  | (true, h) =>
    match behindCommaAt h.line last with
    | none => some (0, h)
    | some start => next start h

/-- The body of the loop from `while ( *start != '<' )` on. -/
def recipientAngle (add : List Text → Bool) (next : Nat → Handed → Option (Int × Handed)) (words start : Nat)
    (h : Handed) : Option (Int × Handed) :=
  match displayWords h.line words start with
  | none => some (0, h)
  | some start =>
    match angleEnd h.line (start + 1) with
    | none => some (0, h)
    | some last => goOn next (last + 1) (handOver add (start + 1) last '>' h)

/-- The loop of `address_string_recipients`; `none` when it is not over after so many addresses. -/
def recipientsLoop (add : List Text → Bool) : Nat → Nat → Handed → Option (Int × Handed)
  | 0, _, _ => none
  | fuel + 1, start, h =>
    let words := (stringAt h.line start).length + 1
    if startsBare h.line start then
      match behindToken tokenDotAtom h.line start with
      | none => some (0, h)
      | some next =>
        if charAt h.line next = '@' then
          match domainEnd h.line (next + 1) with
          | none => some (0, h)
          | some last =>
            goOn (recipientsLoop add fuel) last (handOver add start last (charAt h.line last) h)
        else
          match skipCwsAt h.line next with
          | none => some (0, h)
          | some start => recipientAngle add (recipientsLoop add fuel) words start h
    else recipientAngle add (recipientsLoop add fuel) words start h

/-- `address_string_recipients` on the caller's line. -/
def addressStringRecipientsIn (add : List Text → Bool) (line : Text) : Option (Int × Handed) :=
  match skipCwsAt line 0 with
  | none => some (0, ⟨line, []⟩)
  | some start => recipientsLoop add (line.length + 1) start ⟨line, []⟩

/-! ## `string_address_parse` -/

/-- `struct string_address`. -/
structure StringAddress where
  saString : Text
  saStart : Option Nat
  saSwap : Bool
  saSwapChar : Char
  deriving DecidableEq, Repr

/-- `string_address_init`. -/
def stringAddressInit (string : Text) : StringAddress := ⟨string, none, false, '\x00'⟩

/-- The character that the last call put a NUL for is put back. -/
def StringAddress.restored (sa : StringAddress) : StringAddress :=
  match sa.saStart with
  | some start =>
    if sa.saSwap then { sa with saString := sa.saString.set start sa.saSwapChar, saSwap := false } else sa
  | none => sa

/-- Where the next address starts: at the front, or behind a comma. -/
def StringAddress.next (sa : StringAddress) : Option Nat :=
  match sa.saStart with
  | none => skipCwsAt sa.saString 0
  | some start => behindCommaAt sa.saString start

/-- What a call gives for the address from `emailStart` to `last`. -/
def giveAddress (emailStart last : Nat) (sa : StringAddress) : Option (Text × StringAddress) :=
  let addr := stringAt (sa.saString.set last '\x00') emailStart
  if isEmailaddr addr then some (addr, { sa with saString := sa.saString.set last '\x00' }) else none

/-- The body of `string_address_parse` from `while ( *sa->sa_start != '<' )` on. -/
def parseAngle (words start : Nat) (sa : StringAddress) : Option (Text × StringAddress) :=
  match displayWords sa.saString words start with
  | none => none
  | some start =>
    match angleEnd sa.saString (start + 1) with
    | none => none
    | some last => giveAddress (start + 1) last { sa with saStart := some (last + 1) }

/-- `string_address_parse`, with the string as it leaves it; `none` for `NULL`. -/
def stringAddressParse (sa : StringAddress) : Option (Text × StringAddress) :=
  let sa := sa.restored
  match sa.next with
  | none => none
  | some start =>
    let words := (stringAt sa.saString start).length + 1
    if startsBare sa.saString start then
      match behindToken tokenDotAtom sa.saString start with
      | none => none
      | some next =>
        if charAt sa.saString next = '@' then
          match domainEnd sa.saString (next + 1) with
          | none => none
          | some last =>
            giveAddress start last
              { sa with saStart := some last, saSwap := true, saSwapChar := charAt sa.saString last }
        else
          match skipCwsAt sa.saString next with
          | none => none
          | some start => parseAngle words start sa
    else parseAngle words start sa

/-- The addresses that the calls give up to the first `NULL`; `none` when there are more than so many. -/
def parsedAddresses : Nat → StringAddress → Option (List Text)
  | 0, _ => none
  | fuel + 1, sa =>
    match stringAddressParse sa with
    | none => some []
    | some (addr, sa) => (parsedAddresses fuel sa).map (addr :: ·)

/-! ## Places and texts -/

/-- The text `u` lies behind the place `p`, up to the end of the buffer. -/
structure At (buf : Text) (p : Nat) (u : Text) : Prop where
  le : p ≤ buf.length
  drop : buf.drop p = u
  plain : '\x00' ∉ u

/-- A place, if there is one, for a text, if there is one. -/
def Follows (buf : Text) : Option Nat → Option Text → Prop
  | none, none => True
  | some p, some u => At buf p u
  | _, _ => False

section Places

variable {buf u v : Text} {p : Nat}

theorem At.string (h : At buf p u) : stringAt buf p = u := by
  unfold stringAt
  rw [h.drop]
  apply List.takeWhile_eq_self_iff.mpr
  intro c hc
  simp only [ne_eq, decide_not, Bool.not_eq_true', decide_eq_false_iff_not]
  rintro rfl
  exact h.plain hc

theorem At.char (h : At buf p u) {c : Char} (hc : c ≠ '\x00') : charAt buf p = c ↔ u.head? = some c := by
  have hget : charAt buf p = u.head?.getD '\x00' := by
    unfold charAt
    rw [← h.drop, List.head?_drop, List.getD_eq_getElem?_getD]
  rw [hget]
  cases u with
  | nil => simpa using hc.symm
  | cons d u => simp

theorem At.length (h : At buf p u) : buf.length = p + u.length := by
  have hle := h.le
  rw [← h.drop, List.length_drop]
  omega

/-- A later place. -/
theorem At.tail {w : Text} (h : At buf p (w ++ v)) : At buf (p + w.length) v := by
  refine ⟨?_, ?_, fun hc => h.plain (List.mem_append_right w hc)⟩
  · rw [h.length, List.length_append]
    omega
  · rw [← List.drop_drop, h.drop, List.drop_left]

theorem At.suffix (h : At buf p u) (hv : v <:+ u) : At buf (placeOf buf p v) v := by
  obtain ⟨w, rfl⟩ := hv
  have hplace : placeOf buf p v = p + w.length := by
    unfold placeOf
    rw [h.string, List.length_append, Nat.add_sub_cancel]
  rw [hplace]
  exact h.tail

theorem At.behindToken {token : Text → Option (Text × Text)}
    (htoken : ∀ {s t rest}, token s = some (t, rest) → s = t ++ rest) (h : At buf p u) :
    Follows buf (behindToken token buf p) ((token u).map Prod.snd) := by
  unfold Simta.behindToken
  rw [h.string]
  cases ht : token u with
  | none => trivial
  | some t =>
    obtain ⟨t, rest⟩ := t
    exact h.suffix ⟨t, (htoken ht).symm⟩

end Places

/-! ## What is read is a part of the text -/

theorem skipCwsFrom_suffix {comment : Bool} {u v : Text} (h : skipCwsFrom comment u = some v) : v <:+ u := by
  fun_induction skipCwsFrom comment u with
  | case1 => cases h
  | case2 comment c rest _ ih => exact (ih h).trans (List.suffix_cons c rest)
  | case3 comment rest _ ih => exact (ih h).trans (List.suffix_cons _ rest)
  | case4 c rest _ _ ih => exact (ih h).trans (List.suffix_cons c rest)
  | case5 comment c rest _ _ _ =>
    cases h
    exact List.suffix_rfl

theorem skipCws_suffix {u v : Text} (h : skipCws u = some v) : v <:+ u := skipCwsFrom_suffix h

section Places

variable {buf u v a rest : Text} {p last : Nat}

theorem At.skipCwsAt (h : At buf p u) : Follows buf (skipCwsAt buf p) (skipCws u) := by
  unfold Simta.skipCwsAt
  rw [h.string]
  cases hs : skipCws u with
  | none => trivial
  | some v => exact h.suffix (skipCws_suffix hs)

/-- The place behind a domain. -/
theorem At.domainEnd (h : At buf p u) : Follows buf (domainEnd buf p) ((routeDomain u).map Prod.snd) := by
  unfold Simta.domainEnd
  have hsame : (if charAt buf p = '[' then tokenDomainLiteral else tokenDomain) u = routeDomain u := by
    unfold routeDomain
    by_cases hc : charAt buf p = '['
    · rw [if_pos hc, if_pos ((h.char (by decide)).mp hc)]
    · rw [if_neg hc, if_neg fun hh => hc ((h.char (by decide)).mpr hh)]
  have htoken : ∀ {t rest}, (if charAt buf p = '[' then tokenDomainLiteral else tokenDomain) u = some (t, rest) →
      u = t ++ rest := by
    intro t rest ht
    exact (routeDomain_spec (hsame.symm.trans ht)).1
  unfold Simta.behindToken
  rw [h.string, hsame]
  rw [hsame] at htoken
  cases ht : routeDomain u with
  | none => trivial
  | some t =>
    obtain ⟨t, rest⟩ := t
    exact h.suffix ⟨t, (htoken ht).symm⟩

/-- The place behind a word of a display name. -/
theorem At.word (h : At buf p u) :
    Follows buf (Simta.behindToken (if charAt buf p = '"' then tokenQuotedString else tokenDotAtom) buf p)
      ((tokenUser u).map Prod.snd) := by
  unfold tokenUser
  by_cases hc : charAt buf p = '"'
  · rw [if_pos hc, if_pos ((h.char (by decide)).mp hc)]
    exact h.behindToken fun ht => (tokenQuotedString_append ht).1
  · rw [if_neg hc, if_neg fun hh => hc ((h.char (by decide)).mpr hh)]
    exact h.behindToken fun ht => (tokenDotAtom_spec ht).1

/-- An address in angle brackets ends at the first `>`. -/
theorem angleAddress_cases (u : Text) :
    ('>' ∉ u ∧ angleAddress u = none) ∨
      ∃ rest, angleAddress u = some (u.takeWhile (· ≠ '>'), rest) ∧ u = u.takeWhile (· ≠ '>') ++ '>' :: rest := by
  unfold angleAddress
  have hsplit : u.takeWhile (· ≠ '>') ++ u.dropWhile (· ≠ '>') = u := List.takeWhile_append_dropWhile
  cases hd : u.dropWhile (· ≠ '>') with
  | nil => exact .inl ⟨fun hmem => by simpa using List.dropWhile_eq_nil_iff.mp hd '>' hmem, rfl⟩
  | cons c rest =>
    have hc : c = '>' := by
      have hhead := List.head?_dropWhile_not (fun d : Char => decide (d ≠ '>')) u
      rw [hd] at hhead
      simpa using hhead
    rw [hd, hc] at hsplit
    exact .inr ⟨rest, rfl, hsplit.symm⟩

/-- The `>` is found where the address in angle brackets ends. -/
theorem At.angleEnd (h : At buf p u) :
    (angleEnd buf p = none ∧ angleAddress u = none) ∨
      ∃ a rest, angleEnd buf p = some (p + a.length) ∧ angleAddress u = some (a, rest) ∧ u = a ++ '>' :: rest := by
  unfold Simta.angleEnd
  rw [h.string]
  obtain ⟨hno, hnone⟩ | ⟨rest, hsome, hsplit⟩ := angleAddress_cases u
  · rw [if_neg hno]
    exact .inl ⟨rfl, hnone⟩
  · have hmem : '>' ∈ u := by
      rw [hsplit]
      simp
    rw [if_pos hmem]
    exact .inr ⟨_, rest, rfl, hsome, hsplit⟩

theorem namedAddress_word {fuel : Nat} (h : u.head? ≠ some '<') :
    namedAddress (fuel + 1) u =
      match tokenUser u with
      | none => none
      | some (_, rest) => (skipCws rest).bind (namedAddress fuel) := by
  rw [namedAddress.eq_def]
  cases u with
  | nil => rfl
  | cons d u =>
    split
    · contradiction
    · rename_i heq
      cases heq
      exact absurd rfl h
    · rename_i heq _
      cases heq
      rfl

/-- Over the words of a display name. -/
theorem At.displayWords (fuel : Nat) : ∀ {p : Nat} {u : Text}, At buf p u →
    (displayWords buf fuel p = none ∧ namedAddress fuel u = none) ∨
      ∃ q v, displayWords buf fuel p = some q ∧ At buf q ('<' :: v) ∧ namedAddress fuel u = angleAddress v := by
  induction fuel with
  | zero => exact fun _ => .inl ⟨rfl, rfl⟩
  | succ fuel ih =>
    intro p u h
    by_cases hc : charAt buf p = '<'
    · obtain ⟨v, rfl⟩ := List.head?_eq_some_iff.mp ((h.char (by decide)).mp hc)
      exact .inr ⟨p, v, if_pos hc, h, rfl⟩
    · have hhead : u.head? ≠ some '<' := fun hh => hc ((h.char (by decide)).mpr hh)
      rw [namedAddress_word hhead, Simta.displayWords, if_neg hc]
      have hword := h.word
      generalize Simta.behindToken (if charAt buf p = '"' then tokenQuotedString else tokenDotAtom) buf p = next at *
      cases ht : tokenUser u with
      | none =>
        rw [ht] at hword
        cases next with
        | none => exact .inl ⟨rfl, rfl⟩
        | some q => exact hword.elim
      | some t =>
        obtain ⟨t, rest⟩ := t
        rw [ht] at hword
        cases next with
        | none => exact hword.elim
        | some q =>
          have hskip := At.skipCwsAt hword
          generalize hq : Simta.skipCwsAt buf q = start at hskip
          cases hs : skipCws rest with
          | none =>
            rw [hs] at hskip
            cases start with
            | none => exact .inl ⟨by simp [hq], by simp [hs]⟩
            | some q' => exact hskip.elim
          | some v =>
            rw [hs] at hskip
            cases start with
            | none => exact hskip.elim
            | some q' => simpa [hq, hs] using ih hskip

/-- A place and what lies ahead of a comma. -/
theorem At.behindComma (h : At buf p u) : Follows buf (behindCommaAt buf p) (behindComma u) := by
  unfold behindCommaAt Simta.behindComma
  have hskip := h.skipCwsAt
  cases hs : skipCws u with
  | none =>
    rw [hs] at hskip
    cases hq : Simta.skipCwsAt buf p with
    | none => trivial
    | some q => rw [hq] at hskip; exact hskip.elim
  | some v =>
    rw [hs] at hskip
    cases hq : Simta.skipCwsAt buf p with
    | none => rw [hq] at hskip; exact hskip.elim
    | some q =>
      rw [hq] at hskip
      have hat : At buf q v := hskip
      by_cases hc : charAt buf q = ','
      · obtain ⟨w, rfl⟩ := List.head?_eq_some_iff.mp ((hat.char (by decide)).mp hc)
        show Follows buf (if charAt buf q = ',' then Simta.skipCwsAt buf (q + 1) else none) (skipCws w)
        rw [if_pos hc]
        exact (At.tail (show At buf q ([','] ++ w) from hat)).skipCwsAt
      · have hhead : v.head? ≠ some ',' := fun hh => hc ((hat.char (by decide)).mpr hh)
        show Follows buf (if charAt buf q = ',' then Simta.skipCwsAt buf (q + 1) else none) _
        rw [if_neg hc]
        split
        · rename_i w heq
          cases heq
          exact absurd rfl hhead
        · trivial

/-! ## An address in place -/

/-- The string of an address that a NUL was put behind. -/
theorem At.cut (h : At buf p (a ++ rest)) : stringAt (buf.set (p + a.length) '\x00') p = a := by
  have hdrop : (buf.set (p + a.length) '\x00').drop p = a ++ rest.set 0 '\x00' := by
    rw [List.drop_set, if_neg (by omega), h.drop, List.set_append_right _ _ (by omega)]
    congr 2
    omega
  have hall : ∀ c ∈ a, decide (c ≠ '\x00') = true := by
    intro c hc
    rw [decide_eq_true_eq]
    rintro rfl
    exact h.plain (List.mem_append_left _ hc)
  unfold stringAt
  rw [hdrop, List.takeWhile_append_of_pos hall]
  cases rest with
  | nil => simp
  | cons c rest => simp

/-- What is put back where the NUL was makes the buffer what it was. -/
theorem At.restore {swap : Char} (h : At buf last rest) (hswap : ∀ c ∈ rest.head?, c = swap) :
    (buf.set last '\x00').set last swap = buf := by
  rw [List.set_set]
  cases rest with
  | nil =>
    apply List.set_eq_of_length_le
    rw [h.length]
    simp
  | cons c rest =>
    have hget : buf[last]? = some c := by
      rw [← List.head?_drop, h.drop]
      rfl
    rw [← hswap c rfl]
    obtain ⟨hlt, hc⟩ := List.getElem?_eq_some_iff.mp hget
    rw [← hc]
    exact List.set_getElem_self hlt

/-- An address is handed over as it is read, and the line is what it was. -/
theorem At.handOver {add : List Text → Bool} {passed : List Text} {swap : Char} (h : At buf p (a ++ rest))
    (hswap : ∀ c ∈ rest.head?, c = swap) :
    handOver add p (p + a.length) swap ⟨buf, passed⟩ =
      if isEmailaddr a then (add (passed ++ [a]), ⟨buf, passed ++ [a]⟩) else (true, ⟨buf, passed⟩) := by
  unfold Simta.handOver
  dsimp only
  rw [h.cut, h.tail.restore hswap]

end Places

/-! ## One address -/

/-- Behind the words of a display name: the address in angle brackets, from its first place to its last. -/
def angleCase {β : Type} (buf : Text) (fail : β) (angle : Nat → Nat → β) (words start : Nat) : β :=
  match displayWords buf words start with
  | none => fail
  | some start =>
    match angleEnd buf (start + 1) with
    | none => fail
    | some last => angle (start + 1) last

/-- How both loops take an address apart: `bare` is what they do with one that ends at that place, `angle`
    with one in angle brackets, `fail` where there is none. -/
def addressCase {β : Type} (buf : Text) (start : Nat) (fail : β) (bare : Nat → β) (angle : Nat → Nat → β) : β :=
  let words := (stringAt buf start).length + 1
  if startsBare buf start then
    match behindToken tokenDotAtom buf start with
    | none => fail
    | some next =>
      if charAt buf next = '@' then
        match domainEnd buf (next + 1) with
        | none => fail
        | some last => bare last
      else
        match skipCwsAt buf next with
        | none => fail
        | some start => angleCase buf fail angle words start
  else angleCase buf fail angle words start

section OneAddress

variable {buf u : Text} {start : Nat}

/-- What is found in a buffer: nothing, an address as it stands, or one in angle brackets. -/
def FoundAt (buf : Text) (start : Nat) (u : Text) (found : Option (Text × Text))
    (run : ∀ {β : Type}, β → (Nat → β) → (Nat → Nat → β) → β) : Prop :=
  (found = none ∧ ∀ {β : Type} (fail : β) bare angle, run fail bare angle = fail) ∨
  (∃ a rest, found = some (a, rest) ∧ u = a ++ rest ∧ a ≠ [] ∧
    ∀ {β : Type} (fail : β) bare angle, run fail bare angle = bare (start + a.length)) ∨
  (∃ q a rest, found = some (a, rest) ∧ At buf q (a ++ '>' :: rest) ∧ a.length + rest.length < u.length ∧
    ∀ {β : Type} (fail : β) bare angle, run fail bare angle = angle q (q + a.length))

theorem namedAddress_length (fuel : Nat) : ∀ {u a rest : Text}, namedAddress fuel u = some (a, rest) →
    a.length + rest.length < u.length := by
  induction fuel with
  | zero => exact fun h => by cases h
  | succ fuel ih =>
    intro u a rest h
    by_cases hc : u.head? = some '<'
    · obtain ⟨v, rfl⟩ := List.head?_eq_some_iff.mp hc
      obtain ⟨-, hnone⟩ | ⟨rest', hsome, hsplit⟩ := angleAddress_cases v
      · exact absurd (hnone.symm.trans h) (by simp)
      · obtain ⟨rfl, rfl⟩ := Prod.mk.inj (Option.some.inj (hsome.symm.trans h))
        have hlen := congrArg List.length hsplit
        simp only [List.length_append, List.length_cons] at hlen ⊢
        omega
    · rw [namedAddress_word hc] at h
      cases ht : tokenUser u with
      | none =>
        rw [ht] at h
        cases h
      | some t =>
        obtain ⟨t, r⟩ := t
        rw [ht] at h
        obtain ⟨w, hw, hnext⟩ := Option.bind_eq_some_iff.mp h
        have hlen := congrArg List.length (tokenUser_append ht).1
        have hle := (skipCws_suffix hw).length_le
        have hlt := ih hnext
        rw [List.length_append] at hlen
        omega

theorem angleCase_spec (words : Nat) {p : Nat} {w : Text} (h : At buf p w) (hle : w.length ≤ u.length) :
    FoundAt buf start u (namedAddress words w) (fun fail _ angle => angleCase buf fail angle words p) := by
  unfold angleCase
  obtain ⟨hnone, hnamed⟩ | ⟨q, v, hq, hat, hnamed⟩ := h.displayWords words
  · rw [hnamed]
    exact .inl ⟨rfl, fun fail _ _ => by rw [hnone]⟩
  · have hinner : At buf (q + 1) v := At.tail (show At buf q (['<'] ++ v) from hat)
    obtain ⟨hend, haddr⟩ | ⟨a, rest, hend, haddr, hv⟩ := hinner.angleEnd
    · rw [hnamed, haddr]
      exact .inl ⟨rfl, fun fail _ _ => by rw [hq]; dsimp only; rw [hend]⟩
    · have hlen := namedAddress_length words (hnamed.trans haddr)
      rw [hnamed, haddr]
      refine .inr (.inr ⟨q + 1, a, rest, rfl, hv ▸ hinner, Nat.lt_of_lt_of_le hlen hle, fun fail _ _ => ?_⟩)
      rw [hq]
      dsimp only
      rw [hend]

theorem startsBare_iff (h : At buf start u) :
    startsBare buf start = true ↔ ¬ (u.head? = some '"' ∨ u.head? = some '<') := by
  rw [← h.char (by decide), ← h.char (by decide)]
  simp [startsBare]

theorem listAddress_at {user d : Text} (hbare : ¬ (u.head? = some '"' ∨ u.head? = some '<'))
    (ht : tokenDotAtom u = some (user, '@' :: d)) :
    listAddress u = (routeDomain d).map fun r => (user ++ '@' :: r.1, r.2) := by
  unfold listAddress
  rw [if_neg hbare, ht]
  rfl

theorem listAddress_word {word rest : Text} (hbare : ¬ (u.head? = some '"' ∨ u.head? = some '<'))
    (ht : tokenDotAtom u = some (word, rest)) (hrest : rest.head? ≠ some '@') :
    listAddress u = (skipCws rest).bind (namedAddress (u.length + 1)) := by
  unfold listAddress
  rw [if_neg hbare, ht]
  split
  · contradiction
  · rename_i heq
    cases heq
    exact absurd rfl hrest
  · rename_i heq
    cases heq
    rfl

/-- **Both loops find what `listAddress` finds.** -/
theorem addressCase_spec (h : At buf start u) :
    FoundAt buf start u (listAddress u) (fun fail bare angle => addressCase buf start fail bare angle) := by
  unfold addressCase
  rw [h.string]
  dsimp only
  by_cases hbare : u.head? = some '"' ∨ u.head? = some '<'
  · have hstart : startsBare buf start = false := by
      rw [← Bool.not_eq_true]
      exact fun hc => (startsBare_iff h).mp hc hbare
    have hlist : listAddress u = namedAddress (u.length + 1) u := if_pos hbare
    rw [hlist, hstart]
    exact angleCase_spec _ h (le_refl _)
  · have hstart : startsBare buf start = true := (startsBare_iff h).mpr hbare
    rw [hstart]
    have hword := h.behindToken fun ht => (tokenDotAtom_spec ht).1
    cases ht : tokenDotAtom u with
    | none =>
      have hlist : listAddress u = none := by
        unfold listAddress
        rw [if_neg hbare, ht]
      rw [ht] at hword
      cases hq : behindToken tokenDotAtom buf start with
      | none => exact .inl ⟨hlist, fun _ _ _ => rfl⟩
      | some q =>
        rw [hq] at hword
        exact hword.elim
    | some t =>
      obtain ⟨word, rest⟩ := t
      rw [ht] at hword
      cases hq : behindToken tokenDotAtom buf start with
      | none =>
        rw [hq] at hword
        exact hword.elim
      | some q =>
        rw [hq] at hword
        have hrest : At buf q rest := hword
        have hu := (tokenDotAtom_spec ht).1
        have hlen := congrArg List.length hu
        rw [List.length_append] at hlen
        by_cases hc : charAt buf q = '@'
        · obtain ⟨d, rfl⟩ := List.head?_eq_some_iff.mp ((hrest.char (by decide)).mp hc)
          have hdomain := (At.tail (show At buf q (['@'] ++ d) from hrest)).domainEnd
          have hlist := listAddress_at hbare ht
          cases hr : routeDomain d with
          | none =>
            rw [hr] at hdomain hlist
            cases hl : domainEnd buf (q + 1) with
            | none => exact .inl ⟨hlist, fun _ _ _ => by simp [hc, hl]⟩
            | some last => exact (hl ▸ hdomain : Follows buf (some last) none).elim
          | some r =>
            obtain ⟨t, r⟩ := r
            rw [hr] at hdomain hlist
            cases hl : domainEnd buf (q + 1) with
            | none => exact (hl ▸ hdomain : Follows buf none (some r)).elim
            | some last =>
              have hlast : At buf last r := (hl ▸ hdomain : Follows buf (some last) (some r))
              have hsplit : u = (word ++ '@' :: t) ++ r := by
                rw [hu, (routeDomain_spec hr).1]
                simp
              have hplace : last = start + (word ++ '@' :: t).length := by
                have hwhole := h.length
                have hrlen := hlast.length
                have hulen := congrArg List.length hsplit
                rw [List.length_append] at hulen
                omega
              exact .inr (.inl ⟨_, r, hlist, hsplit, by simp, fun _ _ _ => by simp [hc, hl, hplace]⟩)
        · have hhead : rest.head? ≠ some '@' := fun hh => hc ((hrest.char (by decide)).mpr hh)
          have hlist := listAddress_word hbare ht hhead
          have hskip := hrest.skipCwsAt
          cases hs : skipCws rest with
          | none =>
            rw [hs] at hskip hlist
            cases hl : skipCwsAt buf q with
            | none => exact .inl ⟨hlist, fun _ _ _ => by simp [hc, hl]⟩
            | some p => exact (hl ▸ hskip : Follows buf (some p) none).elim
          | some w =>
            rw [hs] at hskip hlist
            cases hl : skipCwsAt buf q with
            | none => exact (hl ▸ hskip : Follows buf none (some w)).elim
            | some p =>
              have hat : At buf p w := (hl ▸ hskip : Follows buf (some p) (some w))
              have hle := (skipCws_suffix hs).length_le
              have hfound : FoundAt buf start u (namedAddress (u.length + 1) w) _ :=
                angleCase_spec (u.length + 1) hat (by omega)
              rw [hlist]
              simpa [hc, hl] using hfound

end OneAddress

/-! ## The loop -/

/-- The well-formed addresses handed to `add_address` in turn, up to a call that fails. -/
def handAll (add : List Text → Bool) : List Text → List Text → Int × List Text
  | [], passed => (0, passed)
  | a :: rest, passed =>
    if isEmailaddr a then
      if add (passed ++ [a]) then handAll add rest (passed ++ [a]) else (1, passed ++ [a])
    else handAll add rest passed

/-- The addresses behind one. -/
def nextAddresses (fuel : Nat) (rest : Text) : List Text :=
  match behindComma rest with
  | none => []
  | some start => addressStringsFrom fuel start

theorem addressStringsFrom_none {fuel : Nat} {u : Text} (h : listAddress u = none) :
    addressStringsFrom (fuel + 1) u = [] := by
  rw [addressStringsFrom, h]

theorem addressStringsFrom_some {fuel : Nat} {u a rest : Text} (h : listAddress u = some (a, rest)) :
    addressStringsFrom (fuel + 1) u = a :: nextAddresses fuel rest := by
  rw [addressStringsFrom, h]
  rfl

theorem behindComma_length {rest v : Text} (h : behindComma rest = some v) : v.length < rest.length := by
  unfold behindComma at h
  split at h
  · rename_i w hw
    have hle := (skipCws_suffix hw).length_le
    have hlt := (skipCws_suffix h).length_le
    rw [List.length_cons] at hle
    omega
  · cases h

theorem recipientsLoop_eq (add : List Text → Bool) (fuel start : Nat) (h : Handed) :
    recipientsLoop add (fuel + 1) start h = addressCase h.line start (some (0, h))
      (fun last => goOn (recipientsLoop add fuel) last (handOver add start last (charAt h.line last) h))
      (fun emailStart last => goOn (recipientsLoop add fuel) (last + 1) (handOver add emailStart last '>' h)) :=
  rfl

/-- What is left when those addresses were handed over behind the ones of `passed`. -/
def handed (add : List Text → Bool) (line : Text) (addrs passed : List Text) : Option (Int × Handed) :=
  some ((handAll add addrs passed).1, ⟨line, (handAll add addrs passed).2⟩)

section Loop

variable {line : Text} {add : List Text → Bool} {fuel : Nat}

/-- Behind an address, when the loop does as it should behind the comma. -/
theorem goOn_next {rest : Text} {last : Nat} (hat : At line last rest) (hlen : rest.length < fuel + 1)
    (ih : ∀ {start : Nat} {u : Text} {passed : List Text}, At line start u → u.length < fuel →
      recipientsLoop add fuel start ⟨line, passed⟩ = handed add line (addressStringsFrom fuel u) passed)
    (passed : List Text) :
    goOn (recipientsLoop add fuel) last (true, ⟨line, passed⟩) = handed add line (nextAddresses fuel rest) passed := by
  have hcomma := hat.behindComma
  show (match behindCommaAt line last with
    | none => some (0, (⟨line, passed⟩ : Handed))
    | some start => recipientsLoop add fuel start ⟨line, passed⟩) = _
  unfold nextAddresses
  cases hb : behindComma rest with
  | none =>
    rw [hb] at hcomma
    cases hp : behindCommaAt line last with
    | none => rfl
    | some p => exact (hp ▸ hcomma : Follows line (some p) none).elim
  | some v =>
    rw [hb] at hcomma
    cases hp : behindCommaAt line last with
    | none => exact (hp ▸ hcomma : Follows line none (some v)).elim
    | some p =>
      have hv : At line p v := (hp ▸ hcomma : Follows line (some p) (some v))
      have hlt := behindComma_length hb
      exact ih hv (by omega)

/-- An address that was read, and what is behind it. -/
theorem goOn_spec {a rest : Text} {last : Nat} (hat : At line last rest) (hlen : rest.length < fuel + 1)
    (ih : ∀ {start : Nat} {u : Text} {passed : List Text}, At line start u → u.length < fuel →
      recipientsLoop add fuel start ⟨line, passed⟩ = handed add line (addressStringsFrom fuel u) passed)
    (passed : List Text) :
    goOn (recipientsLoop add fuel) last
        (if isEmailaddr a then (add (passed ++ [a]), ⟨line, passed ++ [a]⟩) else (true, ⟨line, passed⟩)) =
      handed add line (a :: nextAddresses fuel rest) passed := by
  unfold handed
  rw [handAll]
  by_cases hok : isEmailaddr a = true
  · rw [if_pos hok, if_pos hok]
    cases hadd : add (passed ++ [a]) with
    | false => rfl
    | true => exact goOn_next hat hlen ih (passed ++ [a])
  · rw [if_neg hok, if_neg hok]
    exact goOn_next hat hlen ih passed

/-- The character behind an address is what it is. -/
theorem At.swap {start : Nat} {a rest : Text} (h : At line start (a ++ rest)) :
    ∀ c ∈ rest.head?, c = charAt line (start + a.length) := by
  intro c hc
  have hne : c ≠ '\x00' := by
    rintro rfl
    exact h.tail.plain (List.mem_of_mem_head? hc)
  exact ((h.tail.char hne).mpr hc).symm

/-- **The loop hands over the well-formed addresses of the list and leaves the line as it was.** -/
theorem recipientsLoop_spec (fuel : Nat) : ∀ {start : Nat} {u : Text} {passed : List Text}, At line start u →
    u.length < fuel →
    recipientsLoop add fuel start ⟨line, passed⟩ = handed add line (addressStringsFrom fuel u) passed := by
  induction fuel with
  | zero => exact fun _ hlen => absurd hlen (Nat.not_lt_zero _)
  | succ fuel ih =>
    intro start u passed hat hlen
    rw [recipientsLoop_eq]
    obtain ⟨hnone, hrun⟩ | ⟨a, rest, hsome, hu, hne, hrun⟩ | ⟨q, a, rest, hsome, hq, hless, hrun⟩ :=
      addressCase_spec hat
    · rw [addressStringsFrom_none hnone]
      exact hrun _ _ _
    · have hat' : At line start (a ++ rest) := hu ▸ hat
      rw [addressStringsFrom_some hsome]
      refine (hrun _ _ _).trans ?_
      rw [hat'.handOver hat'.swap]
      apply goOn_spec hat'.tail _ ih
      rw [hu, List.length_append] at hlen
      omega
    · rw [addressStringsFrom_some hsome]
      refine (hrun _ _ _).trans ?_
      rw [hq.handOver (by simp)]
      apply goOn_spec _ _ ih
      · have htail : At line (q + (a ++ ['>']).length) rest := At.tail (by simpa using hq)
        simpa [Nat.add_assoc] using htail
      · omega

/-- **`address_string_recipients` comes to its end, with the line as it was.** -/
theorem recipients_spec (hline : '\x00' ∉ line) :
    addressStringRecipientsIn add line = handed add line (addressStrings line) [] := by
  have hat : At line 0 line := ⟨Nat.zero_le _, rfl, hline⟩
  have hskip := hat.skipCwsAt
  unfold addressStringRecipientsIn addressStrings
  cases hs : skipCws line with
  | none =>
    rw [hs] at hskip
    cases hp : skipCwsAt line 0 with
    | none => rfl
    | some p => exact (hp ▸ hskip : Follows line (some p) none).elim
  | some u =>
    rw [hs] at hskip
    cases hp : skipCwsAt line 0 with
    | none => exact (hp ▸ hskip : Follows line none (some u)).elim
    | some p =>
      have hu : At line p u := (hp ▸ hskip : Follows line (some p) (some u))
      exact recipientsLoop_spec _ hu (Nat.lt_succ_of_le (skipCws_suffix hs).length_le)

end Loop

/-! ## The iterator -/

theorem stringAddressParse_eq (sa : StringAddress) :
    stringAddressParse sa =
      match sa.restored.next with
      | none => none
      | some start =>
        addressCase sa.restored.saString start none
          (fun last => giveAddress start last { sa.restored with
            saStart := some last, saSwap := true, saSwapChar := charAt sa.restored.saString last })
          (fun emailStart last => giveAddress emailStart last { sa.restored with saStart := some (last + 1) }) :=
  rfl

/-- The next call goes on with that text. -/
structure GoesOn (sa : StringAddress) (u : Option Text) : Prop where
  swap : sa.restored.saSwap = false
  next : Follows sa.restored.saString sa.restored.next u

/-- The next call finds nothing. -/
theorem GoesOn.parse_none {sa : StringAddress} (h : GoesOn sa none) : stringAddressParse sa = none := by
  have hnext := h.next
  rw [stringAddressParse_eq]
  cases hn : sa.restored.next with
  | none => rfl
  | some p => exact (hn ▸ hnext : Follows sa.restored.saString (some p) none).elim

/-- An address that ends as it stands: the next call puts back what is behind it. -/
theorem giveAddress_bare {buf a rest : Text} {start : Nat} (h : At buf start (a ++ rest)) :
    (isEmailaddr a = false ∧
      giveAddress start (start + a.length) ⟨buf, some (start + a.length), true, charAt buf (start + a.length)⟩ = none) ∨
    (isEmailaddr a = true ∧ ∃ sa, giveAddress start (start + a.length)
        ⟨buf, some (start + a.length), true, charAt buf (start + a.length)⟩ = some (a, sa) ∧
      GoesOn sa (behindComma rest)) := by
  unfold giveAddress
  dsimp only
  rw [h.cut]
  cases hok : isEmailaddr a with
  | false => exact .inl ⟨rfl, rfl⟩
  | true =>
    refine .inr ⟨rfl, _, rfl, rfl, ?_⟩
    show Follows ((buf.set _ _).set _ _) (behindCommaAt ((buf.set _ _).set _ _) (start + a.length)) _
    rw [h.tail.restore h.swap]
    exact h.tail.behindComma

/-- An address in angle brackets: the next call goes on behind the `>`. -/
theorem giveAddress_angle {buf a rest : Text} {q : Nat} {c : Char} (h : At buf q (a ++ '>' :: rest)) :
    (isEmailaddr a = false ∧ giveAddress q (q + a.length) ⟨buf, some (q + a.length + 1), false, c⟩ = none) ∨
    (isEmailaddr a = true ∧ ∃ sa, giveAddress q (q + a.length) ⟨buf, some (q + a.length + 1), false, c⟩ = some (a, sa) ∧
      GoesOn sa (behindComma rest)) := by
  unfold giveAddress
  dsimp only
  rw [h.cut]
  cases hok : isEmailaddr a with
  | false => exact .inl ⟨rfl, rfl⟩
  | true =>
    refine .inr ⟨rfl, _, rfl, rfl, ?_⟩
    show Follows (buf.set (q + a.length) _) (behindCommaAt (buf.set (q + a.length) _) (q + a.length + 1)) _
    have htail : At buf (q + a.length + 1) rest := At.tail (show At buf (q + a.length) (['>'] ++ rest) from h.tail)
    have hat : At (buf.set (q + a.length) '\x00') (q + a.length + 1) rest := by
      refine ⟨?_, ?_, htail.plain⟩
      · rw [List.length_set]
        exact htail.le
      · rw [List.drop_set_of_lt (by omega)]
        exact htail.drop
    exact hat.behindComma

/-- **A call gives the next address of the list, if it is well formed.** -/
theorem GoesOn.parse {sa : StringAddress} {u : Text} (h : GoesOn sa (some u)) :
    (listAddress u = none ∧ stringAddressParse sa = none) ∨
    (∃ a rest, listAddress u = some (a, rest) ∧ rest.length < u.length ∧
      ((isEmailaddr a = false ∧ stringAddressParse sa = none) ∨
        (isEmailaddr a = true ∧ ∃ sa', stringAddressParse sa = some (a, sa') ∧ GoesOn sa' (behindComma rest)))) := by
  have hnext := h.next
  have hswap := h.swap
  rw [stringAddressParse_eq]
  generalize sa.restored = b at *
  cases hn : b.next with
  | none => exact (hn ▸ hnext : Follows b.saString none (some u)).elim
  | some start =>
    have hat : At b.saString start u := (hn ▸ hnext : Follows b.saString (some start) (some u))
    dsimp only
    obtain ⟨hnone, hrun⟩ | ⟨a, rest, hsome, hu, hne, hrun⟩ | ⟨q, a, rest, hsome, hq, hless, hrun⟩ :=
      addressCase_spec hat
    · exact .inl ⟨hnone, hrun _ _ _⟩
    · refine .inr ⟨a, rest, hsome, ?_, ?_⟩
      · have hpos := List.length_pos_iff.mpr hne
        rw [hu, List.length_append]
        omega
      · have hgive := giveAddress_bare (hu ▸ hat : At b.saString start (a ++ rest))
        have hcase : ∀ (bare : Nat → Option (Text × StringAddress)) angle,
            addressCase b.saString start none bare angle = bare (start + a.length) := hrun none
        rw [hcase]
        exact hgive
    · refine .inr ⟨a, rest, hsome, by omega, ?_⟩
      have hcase : ∀ (bare : Nat → Option (Text × StringAddress)) angle,
          addressCase b.saString start none bare angle = angle q (q + a.length) := hrun none
      rw [hcase, hswap]
      exact giveAddress_angle hq

/-- The addresses of the calls from there on. -/
theorem parsedAddresses_from (fuel : Nat) : ∀ {sa : StringAddress} {u : Text}, GoesOn sa (some u) → u.length < fuel →
    parsedAddresses fuel sa = some ((addressStringsFrom fuel u).takeWhile isEmailaddr) := by
  induction fuel with
  | zero => exact fun _ hlen => absurd hlen (Nat.not_lt_zero _)
  | succ fuel ih =>
    intro sa u h hlen
    rw [parsedAddresses]
    obtain ⟨hnone, hparse⟩ | ⟨a, rest, hsome, hless, hgive⟩ := h.parse
    · rw [hparse, addressStringsFrom_none hnone]
      rfl
    · rw [addressStringsFrom_some hsome]
      obtain ⟨hbad, hparse⟩ | ⟨hok, sa', hparse, hnext⟩ := hgive
      · rw [hparse, List.takeWhile_cons_of_neg (by simp [hbad])]
      · rw [hparse, List.takeWhile_cons_of_pos hok]
        unfold nextAddresses
        cases hb : behindComma rest with
        | none =>
          rw [hb] at hnext
          cases fuel with
          | zero => exact absurd hlen (by omega)
          | succ fuel =>
            dsimp only
            rw [parsedAddresses, hnext.parse_none]
            rfl
        | some v =>
          rw [hb] at hnext
          have hlt := behindComma_length hb
          dsimp only
          rw [ih hnext (by omega)]
          rfl

/-- **The iterator gives the addresses of the list up to the first that is not well formed.** -/
theorem parsedAddresses_spec {line : Text} (hline : '\x00' ∉ line) :
    parsedAddresses (line.length + 1) (stringAddressInit line) = some (stringAddresses line) := by
  have hat : At line 0 line := ⟨Nat.zero_le _, rfl, hline⟩
  have hgo : GoesOn (stringAddressInit line) (skipCws line) := ⟨rfl, hat.skipCwsAt⟩
  unfold stringAddresses addressStrings
  cases hs : skipCws line with
  | none =>
    rw [hs] at hgo
    rw [parsedAddresses, hgo.parse_none]
    rfl
  | some u =>
    rw [hs] at hgo
    exact parsedAddresses_from _ hgo (Nat.lt_succ_of_le (skipCws_suffix hs).length_le)

/-! ## Where they agree -/

/-- Up to a call of `add_address` that fails, and with it. -/
def upToFailure (add : List Text → Bool) : List Text → List Text → List Text
  | [], passed => passed
  | a :: rest, passed => if add (passed ++ [a]) then upToFailure add rest (passed ++ [a]) else passed ++ [a]

/-- For every way the calls of `add_address` go, both readers come to an end, the addresses handed over are those
    that the iterator gives, up to a call that fails, and the line is left as it was. -/
def ReadersAgree (line : Text) : Prop :=
  ∃ addrs, parsedAddresses (line.length + 1) (stringAddressInit line) = some addrs ∧
    ∀ add, ∃ ret, addressStringRecipientsIn add line = some (ret, ⟨line, upToFailure add addrs []⟩)

/-- No address that is well formed stands behind one that is not. -/
def WellFormedFirst (line : Text) : Prop :=
  (addressStrings line).Pairwise fun a b => isEmailaddr b = true → isEmailaddr a = true

theorem handAll_passed (add : List Text → Bool) (addrs : List Text) : ∀ passed,
    (handAll add addrs passed).2 = upToFailure add (addrs.filter isEmailaddr) passed := by
  induction addrs with
  | nil => exact fun passed => rfl
  | cons a rest ih =>
    intro passed
    rw [handAll]
    by_cases hok : isEmailaddr a = true
    · rw [if_pos hok, List.filter_cons_of_pos hok, upToFailure]
      split
      · exact ih _
      · rfl
    · rw [if_neg hok, List.filter_cons_of_neg hok]
      exact ih passed

theorem upToFailure_ok (addrs : List Text) : ∀ passed, upToFailure (fun _ => true) addrs passed = passed ++ addrs := by
  induction addrs with
  | nil => exact fun passed => (List.append_nil passed).symm
  | cons a rest ih =>
    intro passed
    rw [upToFailure, if_pos rfl, ih]
    simp

theorem filter_eq_takeWhile {p : Text → Bool} {l : List Text} :
    l.filter p = l.takeWhile p ↔ l.Pairwise fun a b => p b = true → p a = true := by
  induction l with
  | nil => simp
  | cons a rest ih =>
    rw [List.pairwise_cons]
    cases ha : p a with
    | true =>
      rw [List.filter_cons_of_pos ha, List.takeWhile_cons_of_pos ha, List.cons.injEq, ih]
      simp
    | false =>
      rw [List.filter_cons_of_neg (by simp [ha]), List.takeWhile_cons_of_neg (by simp [ha]),
        List.filter_eq_nil_iff]
      constructor
      · intro hnone
        refine ⟨fun b hb hpb => absurd hpb (hnone b hb), ?_⟩
        rw [List.pairwise_iff_forall_sublist]
        intro b c hsub hpc
        exact absurd hpc (hnone c (hsub.subset (by simp)))
      · rintro ⟨hall, -⟩ b hb hpb
        cases hall b hb hpb

/-- **The two readers of a list agree just when no address that is well formed stands behind one that is not**: the
    loop passes over such an address, the iterator ends there. -/
theorem readersAgree_iff (line : Text) (hline : '\x00' ∉ line) : ReadersAgree line ↔ WellFormedFirst line := by
  have hloop (add : List Text → Bool) :
      addressStringRecipientsIn add line = handed add line (addressStrings line) [] := recipients_spec hline
  have hiter := parsedAddresses_spec hline
  have hfirst : WellFormedFirst line ↔ (addressStrings line).filter isEmailaddr = stringAddresses line :=
    filter_eq_takeWhile.symm
  rw [hfirst]
  constructor
  · rintro ⟨addrs, hparsed, hadd⟩
    obtain rfl : stringAddresses line = addrs := Option.some.inj (hiter.symm.trans hparsed)
    obtain ⟨ret, hret⟩ := hadd fun _ => true
    have hpassed := congrArg (Option.map fun p => p.2.passed) ((hloop fun _ => true).symm.trans hret)
    simpa [handed, handAll_passed, upToFailure_ok] using hpassed
  · intro hsame
    refine ⟨_, hiter, fun add => ⟨(handAll add (addressStrings line) []).1, ?_⟩⟩
    rw [hloop add, handed, handAll_passed, hsame]

theorem readersAgree_iff_two : '\x00' ∉ "a@b, c@d".toList ∧
    (ReadersAgree "a@b, c@d".toList ↔ WellFormedFirst "a@b, c@d".toList) :=
  ⟨by decide, readersAgree_iff _ (by decide)⟩

/-- **A word that is no address hides the addresses behind it from one of the readers.** -/
theorem readersAgree_malformed : ¬ ∀ line, '\x00' ∉ line → ReadersAgree line := by
  intro h
  obtain ⟨addrs, hparsed, hadd⟩ := h "<a b>, c@d".toList (by decide)
  have hnone : parsedAddresses ("<a b>, c@d".toList.length + 1) (stringAddressInit "<a b>, c@d".toList) = some [] := by
    decide +kernel
  obtain rfl : [] = addrs := Option.some.inj (hnone.symm.trans hparsed)
  obtain ⟨ret, hret⟩ := hadd fun _ => true
  have hloop : addressStringRecipientsIn (fun _ => true) "<a b>, c@d".toList =
      some (0, ⟨"<a b>, c@d".toList, ["c@d".toList]⟩) := by
    decide +kernel
  have hpassed : ["c@d".toList] = ([] : List Text) :=
    congrArg (fun p => p.2.passed) (Option.some.inj (hloop.symm.trans hret))
  cases hpassed

end Simta
