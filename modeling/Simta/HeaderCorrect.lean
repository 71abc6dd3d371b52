import Simta.HeaderParse
import Simta.LineFile
import Simta.Rcpt

/-!
# The headers of a message that is submitted

`header_correct` of `header.c`: the headers that are missing are put in front, and the recipients are read from
the headers if that was asked for.

* `headerLines` — the lines of the headers that the program knows;
* `onField` — the lines of a header are read, and written;
* `headerCorrect` — the function, one definition for each header;
* `headerBlock` — the lines that are taken for headers.
-/

set_option autoImplicit false

namespace Simta

/-- Why `header_correct` does not come to its end: a header is not read to its end, there is a system error (a
    return value of -1), or it follows the `NULL` of a header that is not there.  Allocations succeed; where one
    fails the value is -1 as well. -/
inductive HeaderStop
  | parse (stop : ParseStop)
  | syserror
  | missing
  deriving DecidableEq, Repr

/-! ## The known headers -/

/-- `HEAD_DATE` and so on. -/
inductive HeadKey
  | headDate
  | headFrom
  | headSender
  | headTo
  | headMessageId
  | headCc
  | headBcc
  | headReplyTo
  | headReferences
  | headSubject
  deriving DecidableEq, Repr

/-- `h_key`. -/
def HeadKey.hKey : HeadKey → Text
  | .headDate => "Date".toList
  | .headFrom => "From".toList
  | .headSender => "Sender".toList
  | .headTo => "To".toList
  | .headMessageId => "Message-ID".toList
  | .headCc => "Cc".toList
  | .headBcc => "Bcc".toList
  | .headReplyTo => "Reply-To".toList
  | .headReferences => "References".toList
  | .headSubject => "Subject".toList

/-- `headers_simsendmail`, in its order. -/
def headersSimsendmail : List HeadKey :=
  [.headDate, .headFrom, .headSender, .headTo, .headMessageId, .headCc, .headBcc, .headReplyTo, .headReferences,
    .headSubject]

/-- The `h_line` of each. -/
abbrev HeadLines : Type := HeadKey → Option Nat

/-- A line that continues the one before. -/
def folds (line : Text) : Bool := line.head? = some ' ' || line.head? = some '\t'

/-- The inner loop of `header_lines`, for a line with that text in front of its colon. -/
def headKeys (name : Text) (l : Nat) : List HeadKey → HeadLines → Except ParseStop HeadLines
  | [], h => .ok h
  | key :: keys, h =>
    if strncaseEq key.hKey name then
      match h key with
      | none => headKeys name l keys (Function.update h key (some l))
      | some _ => .error .reject
    else headKeys name l keys h

/-- The text in front of the first colon. -/
def lineName (line : Text) : Text := line.takeWhile (· ≠ ':')

/-- The outer loop. -/
def headerLinesLoop (lf : LineFile) : List Nat → HeadLines → Except ParseStop HeadLines
  | [], h => .ok h
  | l :: rest, h =>
    let line := (lf.heap l).lineData
    if folds line then headerLinesLoop lf rest h
    else if ':' ∈ line then headKeys (lineName line) l headersSimsendmail h >>= headerLinesLoop lf rest
    else .error .outside

/-- `header_lines`. -/
def headerLines (lf : LineFile) : Except ParseStop HeadLines := headerLinesLoop lf lf.reached fun _ => none

/-- `header_exceptions`, for the first line. -/
def headerException (line : Text) : Text :=
  let word := (line.drop 5).takeWhile fun c => decide (33 < c.toNat) && decide (c.toNat < 126)
  if strncaseEq line "From ".toList ∧ word ≠ [] then line.take 4 ++ ':' :: word else line

/-- `header_exceptions`. -/
def headerExceptions (lf : LineFile) : LineFile :=
  match lf.lFirst with
  | none => lf
  | some first => lf.write first fun line => { line with lineData := headerException line.lineData }

/-! ## The lines of a header -/

/-- The lines from `l` on that continue a header, of at most `n`. -/
def LineFile.continued (lf : LineFile) : Nat → Option Nat → List Nat
  | 0, _ => []
  | _, none => []
  | n + 1, some l => if folds (lf.heap l).lineData then l :: lf.continued n (lf.heap l).lineNext else []

/-- The lines of the header that begins with `l`. -/
def LineFile.fieldOf (lf : LineFile) (l : Nat) : List Nat := l :: lf.continued lf.fresh (lf.heap l).lineNext

/-- The line behind those that continue a header. -/
def LineFile.behind (lf : LineFile) : Nat → Option Nat → Option Nat
  | 0, l => l
  | _, none => none
  | n + 1, some l => if folds (lf.heap l).lineData then lf.behind n (lf.heap l).lineNext else some l

def LineFile.texts (lf : LineFile) (ids : List Nat) : Field := ids.map fun l => (lf.heap l).lineData

/-- New texts for some lines. -/
def LineFile.setTexts (lf : LineFile) (ids : List Nat) (f : Field) : LineFile :=
  { lf with
    heap := fun l =>
      match (ids.zip f).lookup l with
      | some data => { lf.heap l with lineData := data }
      | none => lf.heap l }

/-- A header is read from the place `off` of its line on. -/
def onField (lf : LineFile) (l off : Nat) (parse : Field → CharPtr → Except ParseStop ParsedList) :
    Except HeaderStop (LineFile × ParsedList) :=
  let ids := lf.fieldOf l
  if (lf.heap l).lineData.length < off then .error (.parse .outside)
  else
    match parse (lf.texts ids) ⟨0, off⟩ with
    | .error stop => .error (.parse stop)
    | .ok r => .ok (lf.setTexts ids r.field, r)

/-! ## The function -/

/-- The variables of `header_correct`: the lines, the envelope, `prepend_len` and `simta_generate_sender`. -/
structure Correction where
  lf : LineFile
  env : Envelope
  prependLen : Nat
  generateSender : Bool

/-- A header that is put in front. -/
def Correction.prepended (s : Correction) (key : HeadKey) (body : Text) : Correction :=
  let line := key.hKey ++ ": ".toList ++ body
  { s with lf := s.lf.prepend line, prependLen := max s.prependLen (line.length + 1) }

/-- `e_mail`, which an envelope has that is submitted. -/
def Correction.eMail (s : Correction) : Text := s.env.eMail.getD []

/-- The recipients of a header come to the envelope. -/
def Correction.recipients (s : Correction) (l off : Nat) (parse : Field → CharPtr → Except ParseStop ParsedList) :
    Except HeaderStop Correction :=
  (onField s.lf l off parse).map fun r => { s with lf := r.1, env := r.2.rcpts.foldl envRecipient s.env }

/-- From: -/
def correctFrom (conf : HeaderConf) (rounds : Nat) (h : HeadLines) (s : Correction) : Except HeaderStop Correction :=
  match h .headFrom with
  | some l => (onField s.lf l 5 (parseMailboxList conf false .fromCorrect rounds · 0 ·)).map fun r =>
      { s with lf := r.1, generateSender := r.2.generateSender }
  | none => .ok (s.prepended .headFrom s.eMail)

/-- Sender:, which is read with the envelope.  A line is put in front only when it is longer than the ones before. -/
def correctSender (conf : HeaderConf) (rounds : Nat) (h : HeadLines) (s : Correction) : Except HeaderStop Correction :=
  match h .headSender with
  | some l => s.recipients l 7 (parseMailboxList conf true .sender rounds · 0 ·)
  | none =>
    if conf.simsendStrictFrom ∧ s.generateSender ∧ HeadKey.headSender.hKey.length + s.eMail.length + 3 > s.prependLen then
      .ok (s.prepended .headSender s.eMail)
    else .ok s

/-- Date:; `daytime` is the text of the time, if there is one. -/
def correctDate (daytime : Option Text) (h : HeadLines) (s : Correction) : Except HeaderStop Correction :=
  match h .headDate with
  | some _ => .ok s
  | none =>
    match daytime with
    | none => .error .syserror
    | some daytime => .ok (s.prepended .headDate daytime)

/-- Message-ID: -/
def correctMessageId (conf : HeaderConf) (h : HeadLines) (s : Correction) : Correction :=
  match h .headMessageId with
  | some _ => s
  | none => s.prepended .headMessageId ('<' :: s.env.eId ++ '@' :: conf.simtaHostname ++ ['>'])

/-- To: -/
def correctTo (conf : HeaderConf) (read : Bool) (rounds : Nat) (h : HeadLines) (s : Correction) :
    Except HeaderStop Correction :=
  match h .headTo with
  | some l => s.recipients l 3 (parseRecipients conf read rounds · 0 ·)
  | none => .ok s

/-- Cc:, for which `l` is still the line of To:. -/
def correctCc (conf : HeaderConf) (read : Bool) (rounds : Nat) (h : HeadLines) (s : Correction) :
    Except HeaderStop Correction :=
  match h .headCc with
  | some _ =>
    match h .headTo with
    | some l => s.recipients l 3 (parseRecipients conf read rounds · 0 ·)
    | none => .error .missing
  | none => .ok s

/-- The lines of Bcc: are taken out of the list. -/
def removeBcc (lf : LineFile) (l : Nat) : LineFile :=
  let next := lf.behind lf.fresh (lf.heap l).lineNext
  match (lf.heap l).linePrev with
  | some prev => lf.write prev fun line => { line with lineNext := next }
  | none => { lf with lFirst := next }

/-- Bcc: -/
def correctBcc (conf : HeaderConf) (read : Bool) (rounds : Nat) (h : HeadLines) (s : Correction) :
    Except HeaderStop Correction :=
  match h .headBcc with
  | some l => (s.recipients l 4 (parseRecipients conf read rounds · 0 ·)).map fun s => { s with lf := removeBcc s.lf l }
  | none => .ok s

/-- `header_correct`, with at most `rounds` rounds of the loops over addresses. -/
def headerCorrect (conf : HeaderConf) (daytime : Option Text) (read : Bool) (rounds : Nat) (lf : LineFile)
    (env : Envelope) : Except HeaderStop (LineFile × Envelope) := do
  let lf := headerExceptions lf
  match headerLines lf with
  | .error stop => throw (.parse stop)
  | .ok h =>
    let s ← correctFrom conf rounds h ⟨lf, env, 0, false⟩
    let s ← correctSender conf rounds h s
    let s ← correctDate daytime h s
    let s ← correctTo conf read rounds h (correctMessageId conf h s)
    let s ← correctCc conf read rounds h s
    let s ← correctBcc conf read rounds h s
    return (s.lf, s.env)

/-! ## The lines that are taken for headers -/

/-- What `header_text` says of a line without a `struct receive_headers`. -/
def isHeaderText (lineNo : Nat) (line : Text) : Bool :=
  if line = [] then false
  else if folds line then decide (lineNo ≠ 1)
  else (fieldName line).isSome

/-- The lines of a block of headers. -/
def headerBlock : List Text → Bool
  | [] => true
  | first :: rest => isHeaderText 1 first && rest.all (isHeaderText 2)

end Simta
