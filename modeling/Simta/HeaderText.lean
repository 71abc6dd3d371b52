import Simta.Address

/-!
# Headers as they arrive

`header_text` of `header.c`, which is given the lines of a message one by one and keeps what the
server needs of them: the message id, the number of Received headers, and the seen-before headers.

* `skipCws`, `tokenUnquotedAtom` — white space with comments, and a word of a seen-before header;
* `midText`, `seenText` — the text of the two headers that are read, and of their continuations;
* `headerText` — one line.
-/

set_option autoImplicit false

namespace Simta

/-- `R_HEADER_READ`, `R_HEADER_END`, `R_HEADER_MID`, `R_HEADER_SEEN`. -/
inductive RHeader
  | read
  | atEnd
  | mid
  | seen
  deriving DecidableEq, Repr

/-- `struct receive_headers`.  `rSeenBefore` is the place in `rAllSeenBefore` that the pointer of that
    name points to. -/
structure ReceiveHeaders where
  rState : RHeader
  rMid : Option Text
  rMidSet : Bool
  rReceivedCount : Nat
  rAllSeenBefore : List Text
  rSeenBefore : Option Nat
  deriving DecidableEq, Repr

/-- The headers before the first line. -/
def ReceiveHeaders.init : ReceiveHeaders := ⟨.read, none, false, 0, [], none⟩

/-- The text that `r_seen_before` points to. -/
def ReceiveHeaders.seenBefore (r : ReceiveHeaders) : Option Text :=
  r.rSeenBefore.bind fun i => r.rAllSeenBefore[i]?

def stringMid : Text := "Message-ID".toList
def stringReceived : Text := "Received".toList
def stringSeenBefore : Text := "X-Simta-Seen-Before".toList

/-! ## Tokens -/

/-- The loop of `skip_cws`; `comment` is its `comment_mode`. -/
def skipCwsFrom (comment : Bool) : Text → Option Text
  | [] => none
  | c :: rest =>
    if c = ' ' ∨ c = '\t' then skipCwsFrom comment rest
    else if c = '(' then skipCwsFrom true rest
    else if comment then skipCwsFrom (c ≠ ')') rest
    else some (c :: rest)

/-- `skip_cws`. -/
def skipCws (start : Text) : Option Text := skipCwsFrom false start

/-- `is_unquoted_atom_text`. -/
def isUnquotedAtomText (c : Char) : Bool := c ≠ '(' && c ≠ ' ' && c ≠ '\t' && c ≠ '"'

/-- `token_unquoted_atom`. -/
def tokenUnquotedAtom (start : Text) : Option (Text × Text) :=
  match start.takeWhile isUnquotedAtomText with
  | [] => none
  | t => some (t, start.dropWhile isUnquotedAtomText)

/-! ## The two headers -/

/-- The left side of a message id, and what follows. -/
def tokenMidLeft (s : Text) : Option (Text × Text) :=
  if s.head? = some '"' then tokenQuotedString s else tokenDotAtom s

/-- The right side of a message id, and what follows. -/
def tokenMidRight (s : Text) : Option (Text × Text) :=
  if s.head? = some '[' then tokenDomainLiteral s else tokenDotAtom s

/-- The message id at `start`, and what follows its `>`. -/
def parseMid (start : Text) : Option (Text × Text) :=
  match start with
  | '<' :: left =>
    match tokenMidLeft left with
    | some (l, '@' :: right) =>
      match tokenMidRight right with
      | some (r, '>' :: rest) => some (l ++ '@' :: r, rest)
      | _ => none
    | _ => none
  | _ => none

/-- `mid_text`; `alloc` is the outcome of its `strdup`. -/
def midText (alloc : Bool) (r : ReceiveHeaders) (line : Text) : Int × ReceiveHeaders :=
  match skipCws line with
  | none => (0, r)
  | some start =>
    match r.rMid with
    | some _ => (0, { r with rMid := none, rState := .read })
    | none =>
      match parseMid start with
      | none => (0, { r with rState := .read })
      | some (mid, rest) =>
        if alloc then
          match skipCws rest with
          | none => (0, { r with rMid := some mid })
          | some _ => (0, { r with rState := .read })
        else (-1, r)

/-- `make_more_seen`. -/
def makeMoreSeen (alloc : Bool) (r : ReceiveHeaders) : ReceiveHeaders :=
  if alloc then { r with rAllSeenBefore := r.rAllSeenBefore ++ [[]] } else r

/-- `append_seen`; `none` when there is nothing to append to, or no memory. -/
def appendSeen (domain : Text) (alloc : Bool) (r : ReceiveHeaders) (msg : Text) : Option ReceiveHeaders :=
  match r.rAllSeenBefore.getLast? with
  | none => none
  | some cp =>
    if alloc then
      let i := r.rAllSeenBefore.length - 1
      if cp ≠ [] then
        some { r with rAllSeenBefore := r.rAllSeenBefore.set i (cp ++ ' ' :: msg) }
      else
        some { r with
          rAllSeenBefore := r.rAllSeenBefore.set i msg
          rSeenBefore := if msg = domain then some i else r.rSeenBefore }
    else none

/-- One word of a seen-before header, and what follows. -/
def tokenSeen (start : Text) : Option (Text × Text) :=
  if start.head? = some '"' then tokenQuotedString start else tokenUnquotedAtom start

/-- `seen_text`; a header has fewer words than characters. -/
def seenText (domain : Text) : Nat → (Nat → Bool) → ReceiveHeaders → Text → Int × ReceiveHeaders
  | 0, _, r, _ => (0, r)
  | fuel + 1, alloc, r, line =>
    match skipCws line with
    | none => (0, r)
    | some start =>
      match tokenSeen start with
      | none => (0, { r with rState := .read })
      | some (word, rest) =>
        match appendSeen domain (alloc 0) r word with
        | none => (1, r)
        | some r => seenText domain fuel (fun n => alloc (n + 1)) r rest

/-! ## One line -/

/-- The characters of a field name. -/
def isFieldName (c : Char) : Bool := c ≠ ':' && decide (33 ≤ c.toNat) && decide (c.toNat ≤ 126)

/-- The name and the body of a line that starts a header. -/
def fieldName (line : Text) : Option (Text × Text) :=
  match line.dropWhile isFieldName with
  | ':' :: body =>
    if line.takeWhile isFieldName = [] then none else some (line.takeWhile isFieldName, body)
  | _ => none

/-- A line that starts a header of that name. -/
def headerField (domain : Text) (alloc : Nat → Bool) (r : ReceiveHeaders) (name body : Text) :
    Int × ReceiveHeaders :=
  if strcaseEq name stringMid then
    if r.rMidSet then (0, { r with rMid := none })
    else midText (alloc 0) { r with rMidSet := true, rState := .mid } body
  else if strcaseEq name stringReceived then (0, { r with rReceivedCount := r.rReceivedCount + 1 })
  else if strcaseEq name stringSeenBefore then
    seenText domain (body.length + 1) (fun n => alloc (n + 1))
      (makeMoreSeen (alloc 0) { r with rState := .seen }) body
  else (0, r)

/-- `header_text`: 0 when the line is part of the headers, 1 when they are over. -/
def headerText (domain : Text) (alloc : Nat → Bool) (lineNo : Nat) (line : Text) (r : ReceiveHeaders) :
    Int × ReceiveHeaders :=
  if line = [] ∨ r.rState = .atEnd then (1, { r with rState := .atEnd })
  else if line.head? = some ' ' ∨ line.head? = some '\t' then
    if lineNo = 1 then (1, { r with rState := .atEnd })
    else
      match r.rState with
      | .mid => midText (alloc 0) r line
      | .seen => seenText domain (line.length + 1) alloc r line
      | _ => (0, r)
  else
    match fieldName line with
    | some (name, body) => headerField domain alloc { r with rState := .read } name body
    | none => (1, { r with rState := .atEnd })

end Simta
