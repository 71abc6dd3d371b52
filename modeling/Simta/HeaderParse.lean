import Simta.HeaderText

/-!
# The addresses of a header

What `header.c` reads the addresses of a header with when a message is submitted.  A header is its line and
the lines that continue it; an address without a domain gets one, in the line it stands in.

* `Field`, `CharPtr` — the lines of a header, and a place in one of them;
* `skipCfws`, `lineTokenWord`, `lineTokenUnfold` — comments and white space, and the words between them;
* `parseAddr`, `parseMailboxList`, `parseRecipients` — one address, a list of them, and what a list can begin with;
* `parseRecipients_spec` — what a header and its addresses are afterwards.
-/

set_option autoImplicit false

namespace Simta

/-- Why a header is not read to its end: the message is rejected, which is a return value of 1; a text is read
    behind its end, or after it was freed; or a loop has more rounds than the model allows it. -/
inductive ParseStop
  | reject
  | outside
  | freed
  | rounds
  deriving DecidableEq, Repr

/-- What the functions read of the configuration: `simta_domain`, `simta_sender`, `simta_hostname` and
    `simta_simsend_strict_from`. -/
structure HeaderConf where
  simtaDomain : Text
  simtaSender : Text
  simtaHostname : Text
  simsendStrictFrom : Bool
  deriving DecidableEq, Repr

/-- The lines of a header: a `struct line *` is the place of a line among them, and there is no next line behind
    the last one. -/
abbrev Field : Type := List Text

/-- A `char *`: the line whose text it points into, and the place there. -/
structure CharPtr where
  line : Nat
  off : Nat
  deriving DecidableEq, Repr

variable {conf : HeaderConf}

/-- The text from `c` to the end of the line. -/
def Field.text (f : Field) (c : CharPtr) : Text := (f.getD c.line []).drop c.off

/-- The character at `c`; `none` is the end of the line. -/
def Field.char (f : Field) (c : CharPtr) : Option Char := (f.text c).head?

/-! ## Comments and white space -/

/-- How the loop of `skip_cfws` leaves a line: at its end, at a character that counts, or with an error. -/
inductive CfwsEnd
  | atEnd (comment : Nat)
  | word (off : Nat)
  | unbalanced
  deriving DecidableEq, Repr

/-- The loop of `skip_cfws` in one line, from the place `off` on; `comment` is its depth of comments. -/
def cfwsText : Text → Nat → Nat → CfwsEnd
  | [], _, comment => .atEnd comment
  | c :: rest, off, comment =>
    if c = ' ' ∨ c = '\t' then cfwsText rest (off + 1) comment
    else if c = '(' then cfwsText rest (off + 1) (comment + 1)
    else if c = ')' then
      if comment = 0 then .unbalanced else cfwsText rest (off + 1) (comment - 1)
    else if c = '\\' then
      match rest with
      | [] => .unbalanced
      | _ :: rest => cfwsText rest (off + 2) comment
    else if comment = 0 then .word off
    else cfwsText rest (off + 1) comment

/-- The loop of `skip_cfws` with `left` lines behind the line `l`.  A new line begins behind its first character,
    which is white space. -/
def cfwsLines (f : Field) : Nat → Nat → CharPtr → Nat → Except ParseStop (Nat × Option CharPtr)
  | left, l, c, comment =>
    match cfwsText (f.text c) c.off comment with
    | .unbalanced => .error .reject
    | .word off => .ok (l, some ⟨c.line, off⟩)
    | .atEnd comment =>
      match left with
      | 0 => if comment = 0 then .ok (l, none) else .error .reject
      | left + 1 => cfwsLines f left (l + 1) ⟨l + 1, 1⟩ comment

/-- `skip_cfws`: the next word, or the `NULL` at the end of the header. -/
def skipCfws (f : Field) (l : Nat) (c : CharPtr) : Except ParseStop (Nat × Option CharPtr) :=
  cfwsLines f (f.length - (l + 1)) l c 0

/-! ## Words -/

/-- `TOKEN_QUOTED_STRING`, `TOKEN_DOT_ATOM`, `TOKEN_DOMAIN_LITERAL`. -/
inductive TokenType
  | quotedString
  | dotAtom
  | domainLiteral
  deriving DecidableEq, Repr

/-- `struct line_token`; `tEnd` is behind the last character, where `t_end` is on it.  `tStart` is `none` when the
    text that it points into was freed. -/
structure LineToken where
  tType : TokenType
  tStart : Option CharPtr
  tStartLine : Nat
  tEnd : CharPtr
  tEndLine : Nat
  deriving DecidableEq, Repr

/-- How the loop of `line_token_quoted_string` leaves a line. -/
inductive QuoteEnd
  | atEnd
  | close (off : Nat)
  | trailing
  deriving DecidableEq, Repr

/-- The loop in one line. -/
def quoteText (close : Char) : Text → Nat → QuoteEnd
  | [], _ => .atEnd
  | c :: rest, off =>
    if c = close then .close off
    else if c = '\\' then
      match rest with
      | [] => .trailing
      | _ :: rest => quoteText close rest (off + 2)
    else quoteText close rest (off + 1)

/-- The loop with `left` lines behind the line `l`: where the token ends, and in which line. -/
def quoteLines (f : Field) (close : Char) : Nat → Nat → CharPtr → Option (CharPtr × Nat)
  | left, l, c =>
    match quoteText close (f.text c) c.off with
    | .trailing => none
    | .close off => some (⟨c.line, off + 1⟩, l)
    | .atEnd =>
      match left with
      | 0 => none
      | left + 1 => quoteLines f close left (l + 1) ⟨l + 1, 1⟩

/-- A token from `opening` to `close`. -/
def lineTokenBetween (tType : TokenType) (opening close : Char) (f : Field) (l : Nat) (start : CharPtr) :
    Option LineToken :=
  if f.char start = some opening then
    (quoteLines f close (f.length - (l + 1)) l ⟨start.line, start.off + 1⟩).map fun e =>
      ⟨tType, some start, l, e.1, e.2⟩
  else none

/-- `line_token_quoted_string`. -/
def lineTokenQuotedString : Field → Nat → CharPtr → Option LineToken := lineTokenBetween .quotedString '"' '"'

/-- `line_token_domain_literal`. -/
def lineTokenDomainLiteral : Field → Nat → CharPtr → Option LineToken := lineTokenBetween .domainLiteral '[' ']'

/-- `line_token_dot_atom`. -/
def lineTokenDotAtom (f : Field) (l : Nat) (start : CharPtr) : Option LineToken :=
  (tokenDotAtom (f.text start)).map fun t => ⟨.dotAtom, some start, l, ⟨start.line, start.off + t.1.length⟩, l⟩

/-- A token that must be there. -/
def expected (token : Option LineToken) : Except ParseStop LineToken :=
  match token with
  | some token => .ok token
  | none => .error .reject

/-- A word: a quoted string or a dot-atom. -/
def lineTokenWord (f : Field) (l : Nat) (c : CharPtr) : Except ParseStop LineToken :=
  expected (if f.char c = some '"' then lineTokenQuotedString f l c else lineTokenDotAtom f l c)

/-- A domain: a domain literal or a dot-atom. -/
def lineTokenDomain (f : Field) (l : Nat) (c : CharPtr) : Except ParseStop LineToken :=
  expected (if f.char c = some '[' then lineTokenDomainLiteral f l c else lineTokenDotAtom f l c)

/-- The text of a token that ends in the line it starts in. -/
def LineToken.text (f : Field) (token : LineToken) : Except ParseStop Text :=
  match token.tStart with
  | none => .error .freed
  | some start => .ok ((f.text start).take (token.tEnd.off - start.off))

/-- The loops over white space at the beginning of a line. -/
def dropWs (line : Text) : Text := line.dropWhile fun c => c = ' ' || c = '\t'

/-- `line_token_unfold`: each new line counts for a blank. -/
def lineTokenUnfold (f : Field) (token : LineToken) : Except ParseStop Text :=
  if token.tStartLine = token.tEndLine then token.text f
  else
    match token.tStart with
    | none => .error .freed
    | some start =>
      let between := List.range' (token.tStartLine + 1) (token.tEndLine - (token.tStartLine + 1))
      .ok (f.text start ++ (between.flatMap fun l => ' ' :: dropWs (f.getD l [])) ++
        ' ' :: dropWs ((f.getD token.tEndLine []).take token.tEnd.off))

/-- `match_sender`. -/
def matchSender (f : Field) (loc domain : LineToken) (addr : Text) : Except ParseStop Bool :=
  if loc.tType = .dotAtom ∧ domain.tType = .dotAtom then do
    let user ← loc.text f
    let host ← domain.text f
    return decide (addr = user ++ '@' :: host)
  else .ok false

/-! ## Addresses -/

/-- `MAILBOX_FROM_CORRECT`, `MAILBOX_SENDER`, `MAILBOX_RECIPIENTS_CORRECT`, `MAILBOX_GROUP_CORRECT`. -/
inductive MailboxMode
  | fromCorrect
  | sender
  | recipientsCorrect
  | groupCorrect
  deriving DecidableEq, Repr

/-- What an address leaves of the header, and where it ends; `rcpt` is the address, for an envelope, and
    `generateSender` that `simta_generate_sender` was set. -/
structure ParsedAddr where
  field : Field
  line : Nat
  c : CharPtr
  rcpt : Option Text
  generateSender : Bool
  deriving DecidableEq, Repr

/-- The domain behind a local part without one.  The line of the token gets a new text; `start` is the beginning of
    the address, which moves with the token when it stands in front of the end of it. -/
def completeAddr (conf : HeaderConf) (f : Field) (start : CharPtr) (loc : LineToken) :
    Except ParseStop (Field × LineToken × LineToken) :=
  let moves (c : CharPtr) : Bool := c.line ≠ loc.tEndLine || c.off < loc.tEnd.off
  -- the copy of the line stops at the end of the token, which is in that line
  if loc.tEnd.line ≠ loc.tEndLine then .error .outside
  else if !moves start then .error .freed
  else
    let line := f.getD loc.tEndLine []
    let completed := line.take loc.tEnd.off ++ '@' :: conf.simtaDomain ++ line.drop loc.tEnd.off
    let domain : LineToken :=
      ⟨.dotAtom, some ⟨loc.tEndLine, loc.tEnd.off + 1⟩, loc.tStartLine,
        ⟨loc.tEndLine, loc.tEnd.off + 1 + conf.simtaDomain.length⟩, loc.tStartLine⟩
    .ok (f.set loc.tEndLine completed, { loc with tStart := loc.tStart.filter moves }, domain)

/-- The characters that end a local part without a domain. -/
def endsLocal (mode : MailboxMode) (angle : Bool) (c : Option Char) : Bool :=
  c = none || c = some ',' || (c = some '>' && angle) || (mode = .groupCorrect && c = some ';')

/-- The domain of an address, from behind the local part on: the next word is the one at `next`. -/
def addrDomain (conf : HeaderConf) (mode : MailboxMode) (angle : Bool) (f : Field) (start : CharPtr) (loc : LineToken)
    (l : Nat) (next : Option CharPtr) : Except ParseStop (Field × LineToken × LineToken) :=
  if endsLocal mode angle (next.bind f.char) then completeAddr conf f start loc
  else
    match next with
    | none => .error .reject
    | some next =>
      if f.char next = some '@' then
        match skipCfws f l ⟨next.line, next.off + 1⟩ with
        | .error stop => .error stop
        | .ok (_, none) => .error .reject
        | .ok (l, some c) => (lineTokenDomain f l c).map fun domain => (f, loc, domain)
      else .error .reject

/-- What follows the domain: the end of the angle brackets. -/
def addrEnd (angle : Bool) (f : Field) (domain : LineToken) : Except ParseStop (Nat × CharPtr) :=
  if angle then
    match skipCfws f domain.tEndLine domain.tEnd with
    | .error stop => .error stop
    | .ok (_, none) => .error .reject
    | .ok (l, some c) => if f.char c = some '>' then .ok (l, ⟨c.line, c.off + 1⟩) else .error .reject
  else .ok (domain.tEndLine, domain.tEnd)

/-- What is done with an address: a sender must be the one that submits the message. -/
def addrSender (conf : HeaderConf) (mode : MailboxMode) (f : Field) (loc domain : LineToken) : Except ParseStop Bool :=
  match mode with
  | .sender => do
    if ← matchSender f loc domain conf.simtaSender then return false else throw .reject
  | .fromCorrect => do
    return !(← matchSender f loc domain conf.simtaSender)
  | _ => .ok false

/-- The address for the envelope. -/
def addrRcpt (read : Bool) (f : Field) (loc domain : LineToken) : Except ParseStop (Option Text) :=
  if read then do
    let user ← lineTokenUnfold f loc
    let host ← lineTokenUnfold f domain
    return some (user ++ '@' :: host)
  else .ok none

/-- `parse_addr`, with an envelope or without. -/
def parseAddr (conf : HeaderConf) (read : Bool) (mode : MailboxMode) (f : Field) (l : Nat) (start : CharPtr) :
    Except ParseStop ParsedAddr := do
  let angle : Bool := f.char start = some '<'
  match ← skipCfws f l (if angle then ⟨start.line, start.off + 1⟩ else start) with
  | (_, none) => throw .reject
  | (l, some c) =>
    let loc ← lineTokenWord f l c
    let next ← skipCfws f loc.tEndLine loc.tEnd
    let (f, loc, domain) ← addrDomain conf mode angle f start loc next.1 next.2
    let (l, c) ← addrEnd angle f domain
    let generate ← addrSender conf mode f loc domain
    let rcpt ← addrRcpt read f loc domain
    return ⟨f, l, c, rcpt, generate⟩

/-! ## Lists of addresses -/

/-- What a list of addresses leaves of the header: its addresses in order, and whether a sender is to be
    generated. -/
structure ParsedList where
  field : Field
  rcpts : List Text
  generateSender : Bool
  deriving DecidableEq, Repr

/-- The loops over words up to a character of `stop`, of at most `rounds` words. -/
def skipWords (stop : Char → Bool) (f : Field) : Nat → Nat → Option CharPtr → Except ParseStop (Nat × CharPtr)
  | _, _, none => .error .reject
  | rounds, l, some c =>
    if (f.char c).any stop then .ok (l, c)
    else
      match rounds with
      | 0 => .error .rounds
      | rounds + 1 => do
        let word ← lineTokenWord f l c
        let next ← skipCfws f word.tEndLine word.tEnd
        skipWords stop f rounds next.1 next.2

/-- Where the address begins: behind a display name, if there is one. -/
def mailboxStart (mode : MailboxMode) (rounds : Nat) (f : Field) (l : Nat) (c : CharPtr) :
    Except ParseStop (Nat × CharPtr) :=
  if f.char c = some '<' then .ok (l, c)
  else do
    let word ← lineTokenWord f l c
    let next ← skipCfws f word.tEndLine word.tEnd
    let single := next.2.bind f.char
    if single = none ∨ single = some ',' ∨ single = some '@' ∨ (mode = .groupCorrect ∧ single = some ';') then
      return (l, c)
    else skipWords (· = '<') f rounds next.1 next.2

/-- The loop of `parse_mailbox_list`, of at most `rounds` addresses. -/
def mailboxes (conf : HeaderConf) (read : Bool) (mode : MailboxMode) :
    Nat → Field → Nat → CharPtr → Except ParseStop ParsedList
  | 0, _, _, _ => .error .rounds
  | rounds + 1, f, l, c => do
    let (l, c) ← mailboxStart mode rounds f l c
    let addr ← parseAddr conf read mode f l c
    match ← skipCfws addr.field addr.line addr.c with
    | (_, none) =>
      if mode = .groupCorrect then throw .reject
      else return ⟨addr.field, addr.rcpt.toList, addr.generateSender⟩
    | (l, some c) =>
      if addr.field.char c = some ',' then
        match ← skipCfws addr.field l ⟨c.line, c.off + 1⟩ with
        | (_, none) => throw .reject
        | (l, some c) =>
          if mode = .sender then throw .reject
          else
            let rest ← mailboxes conf read mode rounds addr.field l c
            return ⟨rest.field, addr.rcpt.toList ++ rest.rcpts,
              addr.generateSender || mode = .fromCorrect || rest.generateSender⟩
      else if mode = .groupCorrect ∧ addr.field.char c = some ';' then
        match ← skipCfws addr.field l ⟨c.line, c.off + 1⟩ with
        | (_, none) => return ⟨addr.field, addr.rcpt.toList, addr.generateSender⟩
        | (_, some _) => throw .reject
      else throw .reject

/-- `parse_mailbox_list`. -/
def parseMailboxList (conf : HeaderConf) (read : Bool) (mode : MailboxMode) (rounds : Nat) (f : Field) (l : Nat)
    (c : CharPtr) : Except ParseStop ParsedList := do
  match ← skipCfws f l c with
  | (_, none) => throw .reject
  | (l, some c) => mailboxes conf read mode rounds f l c

/-- `parse_recipients`: the words at the beginning are an address, the name of a group or a display name. -/
def parseRecipients (conf : HeaderConf) (read : Bool) (rounds : Nat) (f : Field) (l : Nat) (c : CharPtr) :
    Except ParseStop ParsedList := do
  match ← skipCfws f l c with
  | (_, none) => throw .reject
  | (l, some c) =>
    if f.char c = some ':' then throw .reject
    else if f.char c = some '<' then parseMailboxList conf read .recipientsCorrect rounds f l c
    else
      let word ← lineTokenWord f l c
      let next ← skipCfws f word.tEndLine word.tEnd
      let single := next.2.bind f.char
      if single = none ∨ single = some ',' ∨ single = some '@' then
        parseMailboxList conf read .recipientsCorrect rounds f l c
      else
        let (l, c) ← skipWords (fun c => c = ':' || c = '<') f rounds next.1 next.2
        if f.char c = some ':' then parseMailboxList conf read .groupCorrect rounds f l ⟨c.line, c.off + 1⟩
        else parseMailboxList conf read .recipientsCorrect rounds f l c

/-! ## What a header becomes -/

/-- A result of two steps is a result of each. -/
theorem bind_eq_ok {α β ε : Type} {x : Except ε α} {g : α → Except ε β} {b : β} :
    (x >>= g) = .ok b ↔ ∃ a, x = .ok a ∧ g a = .ok b := by
  cases x with
  | error e => exact ⟨(fun h => by cases h), (fun ⟨_, h, _⟩ => by cases h)⟩
  | ok a => exact ⟨fun h => ⟨a, rfl, h⟩, (fun ⟨_, h, hg⟩ => by cases h; exact hg)⟩

theorem bind_ok_of {α β ε : Type} {x : Except ε α} {g : α → Except ε β} {a : α} {b : β} (hx : x = .ok a)
    (hg : g a = .ok b) : (x >>= g) = .ok b := bind_eq_ok.mpr ⟨a, hx, hg⟩

/-- A line in which local parts have got a domain. -/
inductive Completed (domain : Text) : Text → Text → Prop
  | refl (t : Text) : Completed domain t t
  | insert (t a b : Text) (h : Completed domain t (a ++ b)) (ha : a ≠ []) :
    Completed domain t (a ++ '@' :: domain ++ b)

theorem Completed.trans {domain t u v : Text} (htu : Completed domain t u) (huv : Completed domain u v) :
    Completed domain t v := by
  induction huv with
  | refl => exact htu
  | insert a b _ ha ih => exact .insert t a b ih ha

/-- The first character stays, which tells whether the line continues another one. -/
theorem Completed.head {domain t u : Text} (h : Completed domain t u) : u.head? = t.head? := by
  induction h with
  | refl => rfl
  | insert a b _ ha ih =>
    rw [← ih, List.append_assoc, List.head?_append_of_ne_nil _ ha, List.head?_append_of_ne_nil _ ha]

/-- The lines of a header in which local parts have got a domain. -/
def Field.Completed (domain : Text) (f f' : Field) : Prop := List.Forall₂ (Simta.Completed domain) f f'

theorem Field.Completed.refl (domain : Text) (f : Field) : f.Completed domain f := by
  unfold Field.Completed
  induction f with
  | nil => exact .nil
  | cons t f ih => exact .cons (.refl t) ih

theorem Field.Completed.trans {domain : Text} {f f' f'' : Field} (h : f.Completed domain f')
    (h' : f'.Completed domain f'') : f.Completed domain f'' := by
  unfold Field.Completed at *
  induction h generalizing f'' with
  | nil => exact h'
  | cons hab _ ih =>
    cases h' with
    | cons hbc hrest => exact .cons (hab.trans hbc) (ih hrest)

theorem Field.Completed.set {domain : Text} {f : Field} {i : Nat} {line : Text}
    (h : Simta.Completed domain (f.getD i []) line) : f.Completed domain (f.set i line) := by
  unfold Field.Completed
  induction f generalizing i with
  | nil => exact .nil
  | cons t f ih =>
    cases i with
    | zero => exact .cons h (Field.Completed.refl domain f)
    | succ i => exact .cons (.refl t) (ih h)

/-- A token ends behind a character of a line. -/
def LineToken.Ends (f : Field) (token : LineToken) : Prop := (f.getD token.tEnd.line []).take token.tEnd.off ≠ []

theorem quoteText_close {close : Char} (t : Text) : ∀ {off k : Nat}, quoteText close t off = .close k → t ≠ [] := by
  intro off k h
  cases t with
  | nil => cases h
  | cons c rest => exact List.cons_ne_nil c rest

theorem quoteLines_ends {f : Field} {close : Char} (left : Nat) : ∀ {l : Nat} {c : CharPtr} {e : CharPtr × Nat},
    quoteLines f close left l c = some e → (f.getD e.1.line []).take e.1.off ≠ [] := by
  have hclose : ∀ {c : CharPtr} {off : Nat}, quoteText close (f.text c) c.off = .close off →
      (f.getD c.line []).take (off + 1) ≠ [] := by
    intro c off h hnil
    rcases List.take_eq_nil_iff.mp hnil with h₀ | hline
    · cases h₀
    · apply quoteText_close _ h
      unfold Field.text
      rw [hline, List.drop_nil]
  induction left with
  | zero =>
    intro l c e h
    unfold quoteLines at h
    split at h
    · cases h
    · rename_i hq
      cases h
      have hline := hclose hq
      exact hline
    · cases h
  | succ left ih =>
    intro l c e h
    unfold quoteLines at h
    split at h
    · cases h
    · rename_i hq
      cases h
      have hline := hclose hq
      exact hline
    · exact ih h

theorem lineTokenWord_ends {f : Field} {l : Nat} {c : CharPtr} {token : LineToken}
    (h : lineTokenWord f l c = .ok token) : token.Ends f := by
  have hquoted : ∀ {tType opening close}, lineTokenBetween tType opening close f l c = some token → token.Ends f := by
    intro tType opening close hsome
    unfold lineTokenBetween at hsome
    split at hsome
    · obtain ⟨e, he, rfl⟩ := Option.map_eq_some_iff.mp hsome
      exact quoteLines_ends _ he
    · cases hsome
  have hatom : lineTokenDotAtom f l c = some token → token.Ends f := by
    intro hsome
    obtain ⟨⟨t, rest⟩, ht, rfl⟩ := Option.map_eq_some_iff.mp hsome
    intro hnil
    unfold tokenDotAtom at ht
    split at ht
    · cases ht
    · rename_i hne
      cases ht
      rcases List.take_eq_nil_iff.mp hnil with h₀ | hline
      · have hlength : ((f.text c).takeWhile isDotAtomText).length = 0 := by
          dsimp only at h₀
          omega
        exact hne (List.length_eq_zero_iff.mp hlength)
      · apply hne
        unfold Field.text
        dsimp only at hline
        rw [hline, List.drop_nil]
        rfl
  unfold lineTokenWord expected at h
  split at h
  · rename_i token' hsome
    cases h
    split at hsome
    · exact hquoted hsome
    · exact hatom hsome
  · cases h

/-- **An address gets a domain** in the line it ends in, if anything is written. -/
theorem completeAddr_completed {f f' : Field} {start : CharPtr} {loc loc' domain : LineToken}
    (h : completeAddr conf f start loc = .ok (f', loc', domain)) (hends : loc.Ends f) :
    f.Completed conf.simtaDomain f' := by
  unfold completeAddr at h
  dsimp only at h
  split at h
  · cases h
  · rename_i hline
    split at h
    · cases h
    · cases h
      apply Field.Completed.set
      have hsame : f.getD loc.tEndLine [] = (f.getD loc.tEndLine []).take loc.tEnd.off ++
          (f.getD loc.tEndLine []).drop loc.tEnd.off := (List.take_append_drop ..).symm
      have hne : (f.getD loc.tEndLine []).take loc.tEnd.off ≠ [] := by
        have htoken : loc.tEnd.line = loc.tEndLine := Decidable.not_not.mp hline
        rw [← htoken]
        exact hends
      apply Completed.insert _ _ _ _ hne
      rw [← hsame]
      exact .refl _

theorem addrDomain_completed {mode : MailboxMode} {angle : Bool} {f f' : Field} {start : CharPtr}
    {loc loc' domain : LineToken} {l : Nat} {next : Option CharPtr}
    (h : addrDomain conf mode angle f start loc l next = .ok (f', loc', domain)) (hends : loc.Ends f) :
    f.Completed conf.simtaDomain f' := by
  unfold addrDomain at h
  split at h
  · exact completeAddr_completed h hends
  · split at h
    · cases h
    · split at h
      · split at h
        · cases h
        · cases h
        · rename_i l c _
          cases hdomain : lineTokenDomain f l c with
          | error stop =>
            rw [hdomain] at h
            cases h
          | ok domain =>
            rw [hdomain] at h
            cases h
            exact .refl _ f
      · cases h

/-- **What `parse_addr` leaves**: the header with a domain more, and an address if there is an envelope. -/
theorem parseAddr_spec {read : Bool} {mode : MailboxMode} {f : Field} {l : Nat} {c : CharPtr} {r : ParsedAddr}
    (h : parseAddr conf read mode f l c = .ok r) :
    f.Completed conf.simtaDomain r.field ∧ r.rcpt.isSome = read := by
  unfold parseAddr at h
  obtain ⟨⟨l₁, next⟩, -, h⟩ := bind_eq_ok.mp h
  cases next with
  | none => cases h
  | some c₁ =>
    obtain ⟨loc, hloc, h⟩ := bind_eq_ok.mp h
    obtain ⟨next, -, h⟩ := bind_eq_ok.mp h
    obtain ⟨⟨f₁, loc₁, domain⟩, hdomain, h⟩ := bind_eq_ok.mp h
    obtain ⟨⟨l₂, c₂⟩, -, h⟩ := bind_eq_ok.mp h
    obtain ⟨generate, -, h⟩ := bind_eq_ok.mp h
    obtain ⟨rcpt, hrcpt, h⟩ := bind_eq_ok.mp h
    cases h
    refine ⟨addrDomain_completed hdomain (lineTokenWord_ends hloc), ?_⟩
    unfold addrRcpt at hrcpt
    split at hrcpt
    · rename_i hread
      obtain ⟨user, -, hrcpt⟩ := bind_eq_ok.mp hrcpt
      obtain ⟨host, -, hrcpt⟩ := bind_eq_ok.mp hrcpt
      cases hrcpt
      exact hread.symm
    · rename_i hread
      cases hrcpt
      exact (Bool.eq_false_iff.mpr hread).symm

/-- What a list of addresses is read to: the header with domains, and addresses if there is an envelope. -/
def ParsedList.Of (conf : HeaderConf) (read : Bool) (f : Field) (r : ParsedList) : Prop :=
  f.Completed conf.simtaDomain r.field ∧ (r.rcpts = [] ↔ read = false)

theorem ParsedList.Of.single {read : Bool} {f : Field} {addr : ParsedAddr} {generate : Bool}
    (h : f.Completed conf.simtaDomain addr.field ∧ addr.rcpt.isSome = read) :
    ParsedList.Of conf read f ⟨addr.field, addr.rcpt.toList, generate⟩ := by
  refine ⟨h.1, ?_⟩
  rw [← h.2]
  cases addr.rcpt <;> simp

theorem mailboxes_spec {read : Bool} {mode : MailboxMode} (rounds : Nat) :
    ∀ {f : Field} {l : Nat} {c : CharPtr} {r : ParsedList}, mailboxes conf read mode rounds f l c = .ok r →
      r.Of conf read f := by
  induction rounds with
  | zero =>
    intro f l c r h
    cases h
  | succ rounds ih =>
    intro f l c r h
    unfold mailboxes at h
    obtain ⟨⟨l₁, c₁⟩, -, h⟩ := bind_eq_ok.mp h
    obtain ⟨addr, haddr, h⟩ := bind_eq_ok.mp h
    have hspec := parseAddr_spec haddr
    obtain ⟨⟨l₂, next⟩, -, h⟩ := bind_eq_ok.mp h
    cases next with
    | none =>
      dsimp only at h
      split at h
      · cases h
      · cases h
        exact .single hspec
    | some c₂ =>
      dsimp only at h
      split at h
      · obtain ⟨⟨l₃, next⟩, -, h⟩ := bind_eq_ok.mp h
        cases next with
        | none => cases h
        | some c₃ =>
          dsimp only at h
          split at h
          · cases h
          · obtain ⟨rest, hrest, h⟩ := bind_eq_ok.mp h
            cases h
            obtain ⟨hfield, hrcpts⟩ := ih hrest
            refine ⟨hspec.1.trans hfield, ?_⟩
            rw [List.append_eq_nil_iff, hrcpts, ← hspec.2]
            cases addr.rcpt <;> simp
      · split at h
        · obtain ⟨⟨l₃, next⟩, -, h⟩ := bind_eq_ok.mp h
          cases next with
          | none =>
            cases h
            exact .single hspec
          | some c₃ => cases h
        · cases h

theorem parseMailboxList_spec {read : Bool} {mode : MailboxMode} {rounds : Nat} {f : Field} {l : Nat} {c : CharPtr}
    {r : ParsedList} (h : parseMailboxList conf read mode rounds f l c = .ok r) : r.Of conf read f := by
  obtain ⟨⟨l₁, next⟩, -, h⟩ := bind_eq_ok.mp h
  cases next with
  | none => cases h
  | some c₁ => exact mailboxes_spec rounds h

/-- **What `parse_recipients` leaves.** -/
theorem parseRecipients_spec {read : Bool} {rounds : Nat} {f : Field} {l : Nat} {c : CharPtr} {r : ParsedList}
    (h : parseRecipients conf read rounds f l c = .ok r) : r.Of conf read f := by
  unfold parseRecipients at h
  obtain ⟨⟨l₁, next⟩, -, h⟩ := bind_eq_ok.mp h
  cases next with
  | none => cases h
  | some c₁ =>
    dsimp only at h
    split at h
    · cases h
    · split at h
      · exact parseMailboxList_spec h
      · obtain ⟨word, -, h⟩ := bind_eq_ok.mp h
        obtain ⟨next, -, h⟩ := bind_eq_ok.mp h
        split at h
        · exact parseMailboxList_spec h
        · obtain ⟨⟨l₂, c₂⟩, -, h⟩ := bind_eq_ok.mp h
          split at h
          · exact parseMailboxList_spec h
          · exact parseMailboxList_spec h

/-! ## The number of rounds -/

theorem skipWords_more {stop : Char → Bool} {f : Field} {r : Nat × CharPtr} (rounds : Nat) :
    ∀ {l : Nat} {c : Option CharPtr}, skipWords stop f rounds l c = .ok r → skipWords stop f (rounds + 1) l c = .ok r := by
  induction rounds with
  | zero =>
    intro l c h
    cases c with
    | none => cases h
    | some c =>
      unfold skipWords at h ⊢
      split at h
      · rename_i hstop
        rw [if_pos hstop]
        exact h
      · cases h
  | succ rounds ih =>
    intro l c h
    cases c with
    | none => cases h
    | some c =>
      unfold skipWords at h ⊢
      split at h
      · rename_i hstop
        rw [if_pos hstop]
        exact h
      · rename_i hstop
        rw [if_neg hstop]
        obtain ⟨word, hword, h⟩ := bind_eq_ok.mp h
        obtain ⟨next, hnext, h⟩ := bind_eq_ok.mp h
        exact bind_ok_of hword (bind_ok_of hnext (ih h))

theorem mailboxStart_more {mode : MailboxMode} {rounds : Nat} {f : Field} {l : Nat} {c : CharPtr} {r : Nat × CharPtr}
    (h : mailboxStart mode rounds f l c = .ok r) : mailboxStart mode (rounds + 1) f l c = .ok r := by
  unfold mailboxStart at h ⊢
  split at h
  · rename_i hangle
    rw [if_pos hangle]
    exact h
  · rename_i hangle
    rw [if_neg hangle]
    obtain ⟨word, hword, h⟩ := bind_eq_ok.mp h
    obtain ⟨next, hnext, h⟩ := bind_eq_ok.mp h
    apply bind_ok_of hword
    apply bind_ok_of hnext
    dsimp only at h ⊢
    split at h
    · rename_i hsingle
      rw [if_pos hsingle]
      exact h
    · rename_i hsingle
      rw [if_neg hsingle]
      exact skipWords_more rounds h

theorem mailboxes_more {read : Bool} {mode : MailboxMode} (rounds : Nat) :
    ∀ {f : Field} {l : Nat} {c : CharPtr} {r : ParsedList}, mailboxes conf read mode rounds f l c = .ok r →
      mailboxes conf read mode (rounds + 1) f l c = .ok r := by
  induction rounds with
  | zero =>
    intro f l c r h
    cases h
  | succ rounds ih =>
    intro f l c r h
    rw [mailboxes] at h ⊢
    obtain ⟨start, hstart, h⟩ := bind_eq_ok.mp h
    obtain ⟨addr, haddr, h⟩ := bind_eq_ok.mp h
    obtain ⟨⟨l₂, next⟩, hnext, h⟩ := bind_eq_ok.mp h
    apply bind_ok_of (mailboxStart_more hstart)
    apply bind_ok_of haddr
    apply bind_ok_of hnext
    cases next with
    | none => exact h
    | some c₂ =>
      dsimp only at h ⊢
      split at h
      · rename_i hcomma
        rw [if_pos hcomma]
        obtain ⟨⟨l₃, next⟩, hnext, h⟩ := bind_eq_ok.mp h
        apply bind_ok_of hnext
        cases next with
        | none => exact h
        | some c₃ =>
          dsimp only at h ⊢
          split at h
          · cases h
          · rename_i hmode
            rw [if_neg hmode]
            obtain ⟨rest, hrest, h⟩ := bind_eq_ok.mp h
            exact bind_ok_of (ih hrest) h
      · rename_i hcomma
        rw [if_neg hcomma]
        exact h

theorem parseMailboxList_more {read : Bool} {mode : MailboxMode} {rounds : Nat} {f : Field} {l : Nat} {c : CharPtr}
    {r : ParsedList} (h : parseMailboxList conf read mode rounds f l c = .ok r) :
    parseMailboxList conf read mode (rounds + 1) f l c = .ok r := by
  obtain ⟨⟨l₁, next⟩, hnext, h⟩ := bind_eq_ok.mp h
  apply bind_ok_of hnext
  cases next with
  | none => exact h
  | some c₁ => exact mailboxes_more rounds h

theorem parseRecipients_more {read : Bool} {rounds : Nat} {f : Field} {l : Nat} {c : CharPtr} {r : ParsedList}
    (h : parseRecipients conf read rounds f l c = .ok r) : parseRecipients conf read (rounds + 1) f l c = .ok r := by
  unfold parseRecipients at h ⊢
  obtain ⟨⟨l₁, next⟩, hnext, h⟩ := bind_eq_ok.mp h
  apply bind_ok_of hnext
  cases next with
  | none => exact h
  | some c₁ =>
    dsimp only at h ⊢
    split at h
    · cases h
    · rename_i hcolon
      rw [if_neg hcolon]
      split at h
      · rename_i hangle
        rw [if_pos hangle]
        exact parseMailboxList_more h
      · rename_i hangle
        rw [if_neg hangle]
        obtain ⟨word, hword, h⟩ := bind_eq_ok.mp h
        obtain ⟨next, hnext, h⟩ := bind_eq_ok.mp h
        apply bind_ok_of hword
        apply bind_ok_of hnext
        split at h
        · rename_i hsingle
          rw [if_pos hsingle]
          exact parseMailboxList_more h
        · rename_i hsingle
          rw [if_neg hsingle]
          obtain ⟨⟨l₂, c₂⟩, hwords, h⟩ := bind_eq_ok.mp h
          apply bind_ok_of (skipWords_more rounds hwords)
          split at h
          · rename_i hgroup
            rw [if_pos hgroup]
            exact parseMailboxList_more h
          · rename_i hgroup
            rw [if_neg hgroup]
            exact parseMailboxList_more h

/-- **More rounds** do not change what a header is read to. -/
theorem parseRecipients_mono {read : Bool} {n m : Nat} (hnm : n ≤ m) {f : Field} {l : Nat} {c : CharPtr}
    {r : ParsedList} (h : parseRecipients conf read n f l c = .ok r) : parseRecipients conf read m f l c = .ok r := by
  induction hnm with
  | refl => exact h
  | step _ ih => exact parseRecipients_more ih

end Simta
