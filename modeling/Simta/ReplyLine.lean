import Simta.Lib.CBuffer
import Simta.Smtp

/-!
# Where a reply is read

`smtp_reply` and `smtp_consume_banner` of `smtp.c` with the current line as a buffer that ends with its NUL: each access
has an offset, and one behind the NUL is a fault.  What they note of the reply is left out, since no access depends on it.

* `smtpReplyIn`, `consumeBannerIn` — the functions on the lines that a server sends, `none` when an access is a fault;
* `readGreeting_eq`, `bannerSyntaxIn_eq`, `offersStarttlsIn_eq` — without a fault, they read what the client's model says;
* `LinesLong`, `replyInside_iff` — exactly when no access is behind the end of its line.
-/

set_option autoImplicit false

namespace Simta

/-! ## Accesses -/

/-- What stands at an offset of a line; `none` behind its NUL. -/
def lineAt (buf : List (Option Char)) (i : Nat) : Option (Option Char) := buf[i]?

/-- Write at an offset; `none` behind the NUL. -/
def lineSet (buf : List (Option Char)) (i : Nat) (c : Option Char) : Option (List (Option Char)) :=
  if i < buf.length then some (buf.set i c) else none

/-- `*(line + 3) == '-'`. -/
def continuesIn (line : Text) : Option Bool := do
  let c ← lineAt (cells line) 3
  return decide (c = some '-')

/-- The syntax that a line after the first must have. -/
def bannerSyntaxIn (line : Text) : Option Bool :=
  if line.length < 3 then some false
  else do
    let c₀ ← lineAt (cells line) 0
    let c₁ ← lineAt (cells line) 1
    let c₂ ← lineAt (cells line) 2
    if c₀.any Char.isDigit && c₁.any Char.isDigit && c₂.any Char.isDigit then
      let c₃ ← lineAt (cells line) 3
      return decide (c₃ = none) || decide (c₃ = some ' ') || decide (c₃ = some '-')
    else return false

/-- `strncasecmp( key, c, strlen( key )) == 0` and what `c` points to then. -/
def strncaseIn : Text → List (Option Char) → Option (Bool × List (Option Char))
  | [], c => some (true, c)
  | _ :: _, [] => none
  | _ :: _, none :: _ => some (false, [])
  | k :: key, some x :: c => if k.toLower = x.toLower then strncaseIn key c else some (false, [])

/-- The loop over blanks: whether it comes to the NUL. -/
def blanksIn : List (Option Char) → Option Bool
  | [] => none
  | none :: _ => some true
  | some x :: c => if isSpace x then blanksIn c else some false

/-- Whether a line offers STARTTLS. -/
def offersStarttlsIn (line : Text) : Option Bool := do
  let (same, c) ← strncaseIn starttlsText ((cells line).drop 4)
  if same then blanksIn c else return false

/-! ## `smtp_consume_banner` -/

/-- What is left when a function returns: its result, the lines that are not read, the number of allocations that were
    asked for, `d_tls_supported`, and the name of the server if it was recorded. -/
structure ReplyIn where
  ret : SmtpRet
  lines : List Text
  asked : Nat
  tlsSupported : Bool
  name : Option Text
  deriving DecidableEq, Repr

/-- `snet_getline_multi`: the lines that are left, or `none` for `NULL`. -/
def multiIn : List Text → Option (List Text)
  | [] => none
  | line :: lines => if replySyntax line then if continues line then multiIn lines else some lines else none

/-- The label `consume`. -/
def consumeRestIn (line : Text) (lines : List Text) (ret : SmtpRet) (asked : Nat) (tls : Bool) : Option ReplyIn := do
  if ← continuesIn line then
    match multiIn lines with
    | none => return ⟨.badConnection, [], asked, tls, none⟩
    | some lines => return ⟨ret, lines, asked, tls, none⟩
  else return ⟨ret, lines, asked, tls, none⟩

/-- Whether a line of the reply to EHLO is seen to offer STARTTLS. -/
def scanIn (check tls : Bool) (line : Text) : Option Bool :=
  if check && !tls then offersStarttlsIn line else some false

/-- The loop that reads the rest of a reply line by line. -/
def consumeLinesIn (alloc : Nat → Bool) (kept check : Bool) :
    List Text → Text → Nat → Bool → Option ReplyIn
  | [], line, asked, tls => do
    if ← continuesIn line then return ⟨.badConnection, [], asked, tls, none⟩
    else return ⟨.ok, [], asked, tls, none⟩
  | next :: lines, line, asked, tls => do
    if ← continuesIn line then
      if ← bannerSyntaxIn next then
        let offered ← scanIn check tls next
        if kept then
          if alloc asked then consumeLinesIn alloc kept check lines next (asked + 1) (tls || offered)
          else consumeRestIn next lines .error (asked + 1) (tls || offered)
        else consumeLinesIn alloc kept check lines next asked (tls || offered)
      else return ⟨.badConnection, lines, asked, tls, none⟩
    else return ⟨.ok, next :: lines, asked, tls, none⟩

/-- `smtp_consume_banner`; `kept` when the text of the reply is kept, which takes three allocations to begin with. -/
def consumeBannerIn (alloc : Nat → Bool) (kept check : Bool) (line : Text) (lines : List Text) (asked : Nat) (tls : Bool) :
    Option ReplyIn :=
  if kept then
    if alloc asked then
      if alloc (asked + 1) then
        if alloc (asked + 2) then consumeLinesIn alloc kept check lines line (asked + 3) tls
        else consumeRestIn line lines .error (asked + 3) tls
      else consumeRestIn line lines .error (asked + 2) tls
    else consumeRestIn line lines .error (asked + 1) tls
  else if check then consumeLinesIn alloc kept check lines line asked tls
  else consumeRestIn line lines .ok asked tls

/-! ## `smtp_reply` -/

/-- The offset of the `]`, or `none` if the NUL comes first. -/
def literalEndIn : List (Option Char) → Nat → Option (Option Nat)
  | [], _ => none
  | none :: _, _ => some none
  | some x :: c, i => if x = ']' then some (some i) else literalEndIn c (i + 1)

/-- The offset of the first blank, or of the NUL. -/
def wordEndIn : List (Option Char) → Nat → Option Nat
  | [], _ => none
  | none :: _, i => some i
  | some x :: c, i => if isSpace x then some i else wordEndIn c (i + 1)

/-- Where the name of the server ends; `none` for a literal that does not end. -/
def greetingEnd (line : Text) : Option (Option Nat) := do
  let c ← lineAt (cells line) 4
  if c = some '[' then
    let close ← literalEndIn ((cells line).drop 5) 5
    return close.map (· + 1)
  else
    let i ← wordEndIn ((cells line).drop 5) 5
    return some i

/-- The name of the server, cut out of the line, and the line as it was. -/
def readGreeting (line : Text) (i : Nat) : Option (Text × Text) := do
  let old ← lineAt (cells line) i
  let cut ← lineSet (cells line) i none
  let restored ← lineSet cut i old
  return (cString cut 4, headString restored)

/-- The result when the reply ends the dialogue. -/
def ReplyIn.ended (r : ReplyIn) : ReplyIn := { r with ret := if r.ret = .ok then .error else r.ret }

/-- A 2xx greeting. -/
def greetingIn (hostname : Text) (alloc : Nat → Bool) (check : Bool) (line : Text) (lines : List Text) (asked : Nat)
    (tls : Bool) : Option ReplyIn := do
  match ← greetingEnd line with
  | none =>
    let r ← consumeBannerIn alloc true check line lines asked tls
    return r.ended
  | some i =>
    let (name, line) ← readGreeting line i
    if alloc asked then
      if name = hostname then
        let r ← consumeBannerIn alloc true check line lines (asked + 1) tls
        return { r.ended with name := some name }
      else
        let r ← consumeBannerIn alloc false check line lines (asked + 1) tls
        return { r with name := some name }
    else return ⟨.error, lines, asked + 1, tls, none⟩

/-- A refusal. -/
def refusedIn (alloc : Nat → Bool) (check : Bool) (cmd : SmtpCommand) (line : Text) (lines : List Text) (asked : Nat)
    (tls : Bool) : Option ReplyIn :=
  match refusal cmd with
  | none => consumeBannerIn alloc false check line lines asked tls
  | some (target, _) => do
    let r ← consumeBannerIn alloc true check line lines asked tls
    return if target = .hq then r.ended else r

/-- `smtp_reply`, with `d_tls_banner_check` and `d_tls_supported`. -/
def smtpReplyIn (hostname : Text) (alloc : Nat → Bool) (check tls : Bool) (cmd : SmtpCommand) :
    List Text → Option ReplyIn
  | [] => some ⟨.badConnection, [], 0, tls, none⟩
  | line :: lines => do
    let c ← lineAt (cells line) 0
    if c = some '2' then
      match cmd with
      | .connect => greetingIn hostname alloc check line lines 0 tls
      | .data => consumeBannerIn alloc true check line lines 0 tls
      | _ => consumeBannerIn alloc false check line lines 0 tls
    else if c = some '3' ∧ cmd = .data then consumeBannerIn alloc false check line lines 0 tls
    else refusedIn alloc check cmd line lines 0 tls

/-! ## Accesses inside the line -/

theorem lineAt_cells {line : Text} {i : Nat} (h : i ≤ line.length) : lineAt (cells line) i = some (line)[i]? := by
  unfold lineAt cells
  obtain h | rfl := Nat.lt_or_eq_of_le h
  · rw [List.getElem?_append_left (by rwa [List.length_map]), List.getElem?_map, List.getElem?_eq_getElem h]
    rfl
  · rw [List.getElem?_append_right (by rw [List.length_map]), List.length_map, Nat.sub_self, List.getElem?_eq_none le_rfl]
    rfl

theorem lineAt_beyond {line : Text} {i : Nat} (h : line.length < i) : lineAt (cells line) i = none := by
  unfold lineAt
  exact List.getElem?_eq_none (by rw [length_cells]; exact h)

theorem continuesIn_eq {line : Text} (h : 3 ≤ line.length) : continuesIn line = some (continues line) := by
  unfold continuesIn continues
  rw [lineAt_cells h]
  rfl

theorem continuesIn_short {line : Text} (h : line.length < 3) : continuesIn line = none := by
  unfold continuesIn
  rw [lineAt_beyond h]
  rfl

theorem bannerSyntaxIn_eq (line : Text) : bannerSyntaxIn line = some (replySyntax line) := by
  unfold bannerSyntaxIn replySyntax
  by_cases h : line.length < 3
  · rw [if_pos h]
    simp [h]
  · rw [if_neg h, lineAt_cells (by omega), lineAt_cells (by omega), lineAt_cells (by omega), lineAt_cells (by omega)]
    obtain _ | ⟨a, _ | ⟨b, _ | ⟨c, rest⟩⟩⟩ := line
    · simp at h
    · simp at h
    · simp at h
    · cases ha : a.isDigit <;> cases hb : b.isDigit <;> cases hc : c.isDigit <;> simp [ha, hb, hc]

theorem strncaseIn_cells (key line : Text) :
    strncaseIn key (cells line) = some (decide (key.map Char.toLower = (line.take key.length).map Char.toLower),
      if key.map Char.toLower = (line.take key.length).map Char.toLower then cells (line.drop key.length) else []) := by
  induction key generalizing line with
  | nil => simp [strncaseIn]
  | cons k key ih =>
    cases line with
    | nil => simp [strncaseIn, cells]
    | cons x line =>
      show (if k.toLower = x.toLower then strncaseIn key (cells line) else some (false, [])) = _
      by_cases hk : k.toLower = x.toLower
      · rw [if_pos hk, ih]
        simp [hk]
      · rw [if_neg hk]
        simp [hk]

theorem blanksIn_cells (line : Text) : blanksIn (cells line) = some (line.all isSpace) := by
  induction line with
  | nil => rfl
  | cons x line ih =>
    show (if isSpace x then blanksIn (cells line) else some false) = _
    by_cases hx : isSpace x = true
    · rw [if_pos hx, ih]
      simp [hx]
    · rw [if_neg hx]
      simp [hx]

theorem offersStarttlsIn_eq {line : Text} (h : 4 ≤ line.length) :
    offersStarttlsIn line = some (offersStarttls line) := by
  unfold offersStarttlsIn offersStarttls
  rw [drop_cells h, strncaseIn_cells]
  show (if decide _ then blanksIn (if _ then _ else []) else some false) = some (decide _ && _)
  by_cases hsame : starttlsText.map Char.toLower = ((line.drop 4).take starttlsText.length).map Char.toLower
  · rw [if_pos (by simpa using hsame), if_pos hsame, blanksIn_cells, decide_eq_true hsame.symm, Bool.true_and]
  · rw [if_neg (by simpa using hsame), decide_eq_false (Ne.symm hsame), Bool.false_and]

theorem offersStarttlsIn_three {line : Text} (h : line.length = 3) : offersStarttlsIn line = none := by
  unfold offersStarttlsIn
  rw [List.drop_eq_nil_of_le (by rw [length_cells, h])]
  rfl

/-! ## The rest of a reply -/

/-- While the scan for STARTTLS goes on, no line of the rest that is read has its NUL behind the third character. -/
def ScanInside : Bool → Text → List Text → Prop
  | _, _, [] => True
  | tls, line, next :: lines => continues line = true → replySyntax next = true →
      (tls = false → next.length ≠ 3) ∧ ScanInside (tls || offersStarttls next) next lines

theorem replySyntax_length {line : Text} (h : replySyntax line = true) : 3 ≤ line.length := by
  unfold replySyntax at h
  simp only [Bool.and_eq_true, decide_eq_true_eq] at h
  exact h.1.1

/-- The function returns, and records no name. -/
def Unnamed (r : Option ReplyIn) : Prop := ∃ x, r = some x ∧ x.name = none

theorem consumeRestIn_unnamed {line : Text} (h : 3 ≤ line.length) (lines : List Text) (ret : SmtpRet) (asked : Nat)
    (tls : Bool) : Unnamed (consumeRestIn line lines ret asked tls) := by
  unfold consumeRestIn
  rw [continuesIn_eq h]
  show Unnamed (if continues line = true then _ else _)
  split
  · cases multiIn lines <;> exact ⟨_, rfl, rfl⟩
  · exact ⟨_, rfl, rfl⟩

theorem consumeRestIn_short {line : Text} (h : line.length < 3) (lines : List Text) (ret : SmtpRet) (asked : Nat)
    (tls : Bool) : consumeRestIn line lines ret asked tls = none := by
  unfold consumeRestIn
  rw [continuesIn_short h]
  rfl

/-- What the scan makes of a line, where it is inside. -/
theorem scanIn_eq {check tls : Bool} {next : Text} (h3 : 3 ≤ next.length)
    (h : check = true → tls = false → next.length ≠ 3) :
    scanIn check tls next = some (check && !tls && offersStarttls next) := by
  unfold scanIn
  cases hscan : check && !tls with
  | true =>
    obtain ⟨hcheck, htls⟩ : check = true ∧ tls = false := by simpa using hscan
    have hlen := h hcheck htls
    rw [if_pos rfl, offersStarttlsIn_eq (by omega), Bool.true_and]
  | false => simp

theorem consumeLinesIn_unnamed (alloc : Nat → Bool) {kept check : Bool} (lines : List Text) {line : Text} {asked : Nat}
    {tls : Bool} (h : 3 ≤ line.length) (hscan : check = true → ScanInside tls line lines) :
    Unnamed (consumeLinesIn alloc kept check lines line asked tls) := by
  induction lines generalizing line asked tls with
  | nil =>
    unfold consumeLinesIn
    rw [continuesIn_eq h]
    show Unnamed (if continues line = true then _ else _)
    split <;> exact ⟨_, rfl, rfl⟩
  | cons next lines ih =>
    unfold consumeLinesIn
    rw [continuesIn_eq h, bannerSyntaxIn_eq]
    cases hcont : continues line with
    | false => exact ⟨_, rfl, rfl⟩
    | true =>
      cases hsyntax : replySyntax next with
      | false => exact ⟨_, rfl, rfl⟩
      | true =>
        have h3 := replySyntax_length hsyntax
        have hnext : check = true → (tls = false → next.length ≠ 3) ∧
            ScanInside (tls || offersStarttls next) next lines := fun hc => hscan hc hcont hsyntax
        have htls : check = true → (tls || (check && !tls && offersStarttls next)) = (tls || offersStarttls next) := by
          rintro rfl
          cases tls <;> rfl
        have hrest : ∀ asked, Unnamed (consumeLinesIn alloc kept check lines next asked
            (tls || (check && !tls && offersStarttls next))) := fun asked => ih h3 (fun hc => htls hc ▸ (hnext hc).2)
        rw [scanIn_eq h3 (fun hc => (hnext hc).1)]
        show Unnamed (if kept then (if alloc asked then _ else _) else _)
        split
        · split
          · exact hrest _
          · exact consumeRestIn_unnamed h3 _ _ _ _
        · exact hrest _

theorem consumeBannerIn_unnamed (alloc : Nat → Bool) {kept check : Bool} {lines : List Text} {line : Text} (asked : Nat)
    {tls : Bool} (h : 3 ≤ line.length) (hscan : check = true → ScanInside tls line lines) :
    Unnamed (consumeBannerIn alloc kept check line lines asked tls) := by
  have hlines : ∀ asked, Unnamed (consumeLinesIn alloc kept check lines line asked tls) :=
    fun asked => consumeLinesIn_unnamed alloc lines h hscan
  have hrest : ∀ ret asked, Unnamed (consumeRestIn line lines ret asked tls) :=
    fun ret asked => consumeRestIn_unnamed h _ _ _ _
  unfold consumeBannerIn
  repeat' split
  all_goals first | exact hlines _ | exact hrest _ _

/-- With memory at hand, what the loop reads is inside only then. -/
theorem consumeLinesIn_inside {kept check : Bool} (lines : List Text) {line : Text} {asked : Nat} {tls : Bool}
    (h : consumeLinesIn (fun _ => true) kept check lines line asked tls ≠ none) :
    3 ≤ line.length ∧ (check = true → ScanInside tls line lines) := by
  have h3 : 3 ≤ line.length := by
    by_contra hshort
    apply h
    cases lines <;> (unfold consumeLinesIn; rw [continuesIn_short (not_le.mp hshort)]; rfl)
  refine ⟨h3, ?_⟩
  induction lines generalizing line asked tls with
  | nil => exact fun _ => trivial
  | cons next lines ih =>
    intro hcheck hcont hsyntax
    have hnext3 := replySyntax_length hsyntax
    subst hcheck
    unfold consumeLinesIn at h
    rw [continuesIn_eq h3, bannerSyntaxIn_eq, hcont, hsyntax] at h
    have hlen : tls = false → next.length ≠ 3 := by
      rintro rfl hlen
      apply h
      have hfault : scanIn true false next = none := offersStarttlsIn_three hlen
      rw [hfault]
      rfl
    refine ⟨hlen, ?_⟩
    rw [scanIn_eq hnext3 (fun _ => hlen)] at h
    have htls : (tls || (true && !tls && offersStarttls next)) = (tls || offersStarttls next) := by cases tls <;> rfl
    have hloop : ∃ asked', consumeLinesIn (fun _ => true) kept true lines next asked' (tls || offersStarttls next) ≠
        none := by
      rw [← htls]
      cases kept with
      | true => exact ⟨_, h⟩
      | false => exact ⟨_, h⟩
    obtain ⟨asked', hloop⟩ := hloop
    exact ih hloop hnext3 rfl

theorem consumeBannerIn_inside {kept check : Bool} {lines : List Text} {line : Text} {asked : Nat} {tls : Bool}
    (h : consumeBannerIn (fun _ => true) kept check line lines asked tls ≠ none) :
    3 ≤ line.length ∧ (check = true → ScanInside tls line lines) := by
  unfold consumeBannerIn at h
  cases kept with
  | true => exact consumeLinesIn_inside lines h
  | false =>
    cases check with
    | true => exact consumeLinesIn_inside lines h
    | false =>
      refine ⟨?_, fun hc => by cases hc⟩
      by_contra hshort
      exact h (consumeRestIn_short (not_le.mp hshort) _ _ _ _)

/-! ## The name of the server -/

theorem literalEndIn_cells (t : Text) (i : Nat) : literalEndIn (cells t) i =
    some (if ']' ∈ t then some (i + (t.takeWhile (· ≠ ']')).length) else none) := by
  induction t generalizing i with
  | nil => rfl
  | cons x t ih =>
    show (if x = ']' then some (some i) else literalEndIn (cells t) (i + 1)) = _
    by_cases hx : x = ']'
    · simp [hx]
    · rw [if_neg hx, ih, List.takeWhile_cons_of_pos (by simpa using hx), List.length_cons]
      simp only [List.mem_cons, Ne.symm hx, false_or]
      congr 2
      congr 1
      omega

theorem wordEndIn_cells (t : Text) (i : Nat) :
    wordEndIn (cells t) i = some (i + (t.takeWhile fun c => !isSpace c).length) := by
  induction t generalizing i with
  | nil => rfl
  | cons x t ih =>
    show (if isSpace x then some i else wordEndIn (cells t) (i + 1)) = _
    by_cases hx : isSpace x = true
    · simp [hx]
    · rw [if_neg hx, ih, List.takeWhile_cons_of_pos (by simpa using hx), List.length_cons]
      congr 1
      omega

/-- Where the name ends, when the line has a character for it. -/
theorem greetingEnd_eq {line : Text} (h : 5 ≤ line.length) :
    greetingEnd line = some ((bannerHostname (line.drop 4)).map (4 + ·.length)) := by
  have hdrop : line.drop 4 = (line)[4] :: line.drop 5 := List.drop_eq_getElem_cons (by omega)
  unfold greetingEnd
  rw [lineAt_cells (by omega), List.getElem?_eq_getElem (by omega), drop_cells h, literalEndIn_cells, wordEndIn_cells, hdrop]
  show (if some (line)[4] = some '[' then _ else _) = _
  by_cases hopen : (line)[4] = '['
  · rw [if_pos (congrArg some hopen), hopen]
    unfold bannerHostname
    by_cases hclose : ']' ∈ line.drop 5
    · simp [hclose]
      omega
    · simp [hclose]
  · rw [if_neg (by simpa using hopen)]
    have hname : bannerHostname ((line)[4] :: line.drop 5) =
        some ((line)[4] :: (line.drop 5).takeWhile fun c => !isSpace c) := by
      unfold bannerHostname
      split
      · exact absurd (List.cons.inj ‹_›).1 hopen
      · injections
        subst_vars
        rfl
      · contradiction
    rw [hname]
    simp
    omega

theorem greetingEnd_short {line : Text} (h : line.length < 5) : greetingEnd line = none := by
  unfold greetingEnd
  obtain h | h := Nat.lt_or_ge line.length 4
  · rw [lineAt_beyond h]
    rfl
  · have h4 : line.length = 4 := by omega
    rw [lineAt_cells h, List.getElem?_eq_none (by omega), List.drop_eq_nil_of_le (by rw [length_cells, h4])]
    rfl

/-- A text up to a character of it. -/
theorem takeWhile_ne_prefix {close : Char} {t : Text} (h : close ∈ t) : t.takeWhile (· ≠ close) ++ [close] <+: t := by
  induction t with
  | nil => cases h
  | cons x t ih =>
    by_cases hx : x = close
    · simp [hx]
    · rw [List.takeWhile_cons_of_pos (by simpa using hx), List.cons_append]
      exact List.cons_prefix_cons.mpr ⟨rfl, ih (List.mem_of_ne_of_mem (Ne.symm hx) h)⟩

theorem bannerHostname_begins {t name : Text} (h : bannerHostname t = some name) : name <+: t := by
  unfold bannerHostname at h
  split at h
  · split at h
    · cases h
      exact List.cons_prefix_cons.mpr ⟨rfl, takeWhile_ne_prefix ‹_›⟩
    · cases h
  · cases h
    exact List.cons_prefix_cons.mpr ⟨rfl, List.takeWhile_prefix _⟩
  · cases h
    exact List.prefix_rfl

/-- The line is cut behind the name, and then restored. -/
theorem readGreeting_eq {line name : Text} (h : bannerHostname (line.drop 4) = some name) (hlen : 4 ≤ line.length) :
    readGreeting line (4 + name.length) = some (name, line) := by
  have hprefix := bannerHostname_begins h
  have hle : 4 + name.length ≤ line.length := by
    have := hprefix.length_le
    rw [List.length_drop] at this
    omega
  have hname : (line.take (4 + name.length)).drop 4 = name := by
    rw [List.drop_take, Nat.add_sub_cancel_left]
    exact (List.prefix_iff_eq_take.mp hprefix).symm
  have hset : ∀ (buf : List (Option Char)) c, 4 + name.length < buf.length → lineSet buf (4 + name.length) c =
      some (buf.set (4 + name.length) c) := fun buf c hlt => if_pos hlt
  unfold readGreeting
  rw [lineAt_cells hle]
  show (lineSet (cells line) (4 + name.length) none).bind _ = _
  rw [hset _ _ (by rw [length_cells]; omega)]
  show (lineSet _ (4 + name.length) _).bind _ = _
  rw [hset _ _ (by rw [List.length_set, length_cells]; omega)]
  show some (cString _ 4, headString _) = _
  rw [cString_cut (by omega) hle, hname]
  congr 2
  obtain hlt | heq := Nat.lt_or_eq_of_le hle
  · rw [List.getElem?_eq_getElem hlt, cells_restore (List.getElem?_eq_getElem hlt), headString_cells]
  · rw [heq, List.getElem?_eq_none le_rfl, set_cells_length, set_cells_length, headString_cells]

/-! ## One reply -/

/-- Whatever memory is left, no access is behind the end of its line, and the name that is recorded is a part of the
    first line. -/
def ReplyInside (hostname : Text) (check tls : Bool) (cmd : SmtpCommand) (lines : List Text) : Prop :=
  ∀ alloc, ∃ r, smtpReplyIn hostname alloc check tls cmd lines = some r ∧
    ∀ name, r.name = some name → ∃ line ∈ lines.head?, name <:+: line

/-- The first line is long enough, and so are the lines that are scanned for STARTTLS. -/
def LinesLong (check tls : Bool) (cmd : SmtpCommand) : List Text → Prop
  | [] => True
  | line :: lines => (if cmd = .connect ∧ (line)[0]? = some '2' then 5 ≤ line.length else 3 ≤ line.length) ∧
      (check = true → ScanInside tls line lines)

theorem lineAt_zero (line : Text) : lineAt (cells line) 0 = some (line)[0]? := lineAt_cells (Nat.zero_le _)

theorem Unnamed.ended {r : Option ReplyIn} (h : Unnamed r) :
    Unnamed (r.bind fun x => some x.ended) := by
  obtain ⟨x, rfl, hname⟩ := h
  exact ⟨x.ended, rfl, hname⟩

theorem refusedIn_unnamed (alloc : Nat → Bool) {check : Bool} {cmd : SmtpCommand} {line : Text} {lines : List Text}
    (asked : Nat) {tls : Bool} (h : 3 ≤ line.length) (hscan : check = true → ScanInside tls line lines) :
    Unnamed (refusedIn alloc check cmd line lines asked tls) := by
  unfold refusedIn
  split
  · exact consumeBannerIn_unnamed alloc asked h hscan
  · have hconsume : Unnamed (consumeBannerIn alloc true check line lines asked tls) :=
      consumeBannerIn_unnamed alloc asked h hscan
    obtain ⟨x, hx, hname⟩ := hconsume
    rw [hx]
    show Unnamed (some (if _ then _ else _))
    split
    · exact ⟨_, rfl, hname⟩
    · exact ⟨_, rfl, hname⟩

theorem greetingIn_inside (hostname : Text) (alloc : Nat → Bool) {check : Bool} {line : Text} {lines : List Text}
    (asked : Nat) {tls : Bool} (h : 5 ≤ line.length) (hscan : check = true → ScanInside tls line lines) :
    ∃ r, greetingIn hostname alloc check line lines asked tls = some r ∧
      ∀ name, r.name = some name → name <:+: line := by
  have h3 : 3 ≤ line.length := by omega
  have hconsume : ∀ kept asked, Unnamed (consumeBannerIn alloc kept check line lines asked tls) :=
    fun kept asked => consumeBannerIn_unnamed alloc asked h3 hscan
  unfold greetingIn
  rw [greetingEnd_eq h]
  cases hname : bannerHostname (line.drop 4) with
  | none =>
    obtain ⟨x, hx, hx'⟩ := hconsume true asked
    show ∃ r, (consumeBannerIn alloc true check line lines asked tls).bind _ = _ ∧ _
    rw [hx]
    exact ⟨x.ended, rfl, by rintro _ h; cases hx'.symm.trans h⟩
  | some name =>
    have hinfix : name <:+: line := (bannerHostname_begins hname).isInfix.trans (List.drop_suffix 4 line).isInfix
    show ∃ r, (readGreeting line (4 + name.length)).bind _ = _ ∧ _
    rw [readGreeting_eq hname (by omega)]
    show ∃ r, (if alloc asked then _ else _) = _ ∧ _
    split
    · show ∃ r, (if name = hostname then _ else _) = _ ∧ _
      split
      · obtain ⟨x, hx, -⟩ := hconsume true (asked + 1)
        rw [hx]
        exact ⟨_, rfl, by rintro _ ⟨⟩; exact hinfix⟩
      · obtain ⟨x, hx, -⟩ := hconsume false (asked + 1)
        rw [hx]
        exact ⟨_, rfl, by rintro _ ⟨⟩; exact hinfix⟩
    · exact ⟨_, rfl, by rintro _ h; cases h⟩

theorem LinesLong.replyInside (hostname : Text) {check tls : Bool} {cmd : SmtpCommand} {lines : List Text}
    (h : LinesLong check tls cmd lines) : ReplyInside hostname check tls cmd lines := by
  intro alloc
  cases lines with
  | nil => exact ⟨_, rfl, by rintro _ h; cases h⟩
  | cons line lines =>
    obtain ⟨hlen, hscan⟩ := h
    have h3 : 3 ≤ line.length := by split at hlen <;> omega
    have named : ∀ {r}, Unnamed r → ∃ x, r = some x ∧ ∀ name, x.name = some name →
        ∃ l ∈ (line :: lines).head?, name <:+: l := by
      rintro r ⟨x, hx, hname⟩
      exact ⟨x, hx, by rintro _ h; cases hname.symm.trans h⟩
    have hconsume : ∀ kept, Unnamed (consumeBannerIn alloc kept check line lines 0 tls) :=
      fun kept => consumeBannerIn_unnamed alloc 0 h3 hscan
    unfold smtpReplyIn
    show ∃ r, (lineAt (cells line) 0).bind _ = some r ∧ _
    rw [lineAt_zero]
    show ∃ r, (if (line)[0]? = some '2' then _ else _) = _ ∧ _
    split
    · rename_i h2
      cases cmd
      case connect =>
        rw [if_pos ⟨rfl, h2⟩] at hlen
        obtain ⟨r, hr, hname⟩ := greetingIn_inside hostname alloc 0 hlen hscan
        exact ⟨r, hr, fun name h => ⟨line, rfl, hname name h⟩⟩
      all_goals first | exact named (hconsume true) | exact named (hconsume false)
    · split
      · exact named (hconsume false)
      · exact named (refusedIn_unnamed alloc 0 h3 hscan)

theorem refusedIn_inside {check : Bool} {cmd : SmtpCommand} {line : Text} {lines : List Text} {asked : Nat} {tls : Bool}
    (h : refusedIn (fun _ => true) check cmd line lines asked tls ≠ none) :
    3 ≤ line.length ∧ (check = true → ScanInside tls line lines) := by
  unfold refusedIn at h
  split at h
  · exact consumeBannerIn_inside h
  · have hconsume : consumeBannerIn (fun _ => true) true check line lines asked tls ≠ none := by
      intro hnone
      apply h
      rw [hnone]
      rfl
    exact consumeBannerIn_inside hconsume

theorem long_of_greetingIn {hostname : Text} {check : Bool} {line : Text} {lines : List Text} {asked : Nat}
    {tls : Bool} (h : greetingIn hostname (fun _ => true) check line lines asked tls ≠ none) :
    5 ≤ line.length ∧ (check = true → ScanInside tls line lines) := by
  have h5 : 5 ≤ line.length := by
    by_contra hshort
    apply h
    unfold greetingIn
    rw [greetingEnd_short (not_le.mp hshort)]
    rfl
  refine ⟨h5, ?_⟩
  have hconsume : ∃ kept asked, consumeBannerIn (fun _ => true) kept check line lines asked tls ≠ none := by
    by_contra hnone
    have hnone : ∀ kept asked, consumeBannerIn (fun _ => true) kept check line lines asked tls = none :=
      fun kept asked => not_not.mp fun hne => hnone ⟨kept, asked, hne⟩
    apply h
    unfold greetingIn
    rw [greetingEnd_eq h5]
    cases hname : bannerHostname (line.drop 4) with
    | none =>
      show (consumeBannerIn _ true check line lines asked tls).bind _ = none
      rw [hnone]
      rfl
    | some name =>
      show (readGreeting line (4 + name.length)).bind _ = none
      rw [readGreeting_eq hname (by omega)]
      show (if name = hostname then (consumeBannerIn _ true check line lines _ tls).bind _
        else (consumeBannerIn _ false check line lines _ tls).bind _) = none
      rw [hnone, hnone]
      split <;> rfl
  obtain ⟨kept, asked, hne⟩ := hconsume
  exact (consumeBannerIn_inside hne).2

/-- **No access is behind the end of its line** iff the first line of the reply has three characters, five if it is a
    greeting that accepts, and no line that is scanned for STARTTLS has exactly three. -/
theorem replyInside_iff (hostname : Text) (check tls : Bool) (cmd : SmtpCommand) (lines : List Text) :
    ReplyInside hostname check tls cmd lines ↔ LinesLong check tls cmd lines := by
  apply Iff.intro _ (LinesLong.replyInside hostname)
  intro h
  obtain ⟨r, hr, -⟩ := h fun _ => true
  have hne : smtpReplyIn hostname (fun _ => true) check tls cmd lines ≠ none := fun hnone => by cases hr.symm.trans hnone
  cases lines with
  | nil => trivial
  | cons line lines =>
    have three : 3 ≤ line.length ∧ (check = true → ScanInside tls line lines) →
        ¬(cmd = .connect ∧ (line)[0]? = some '2') → LinesLong check tls cmd (line :: lines) := by
      rintro ⟨h3, hscan⟩ hcmd
      exact ⟨by rwa [if_neg hcmd], hscan⟩
    unfold smtpReplyIn at hne
    change (lineAt (cells line) 0).bind _ ≠ none at hne
    rw [lineAt_zero] at hne
    change (if (line)[0]? = some '2' then _ else _) ≠ none at hne
    split at hne
    · rename_i h2
      cases cmd
      case connect =>
        obtain ⟨h5, hscan⟩ := long_of_greetingIn hne
        exact ⟨by rwa [if_pos ⟨rfl, h2⟩], hscan⟩
      all_goals exact three (consumeBannerIn_inside hne) (by rintro ⟨h, -⟩; cases h)
    · rename_i h2
      split at hne
      · exact three (consumeBannerIn_inside hne) fun h => h2 h.2
      · exact three (refusedIn_inside hne) fun h => h2 h.2

/-- The greeting `220 ` is read behind its NUL. -/
theorem not_replyInside : ¬∀ hostname check tls cmd lines, ReplyInside hostname check tls cmd lines := by
  intro h
  obtain ⟨r, hr, -⟩ := h "mx.test".toList false false .connect ["220 ".toList] fun _ => true
  cases hr

end Simta
