import Simta.HeaderText
import Simta.Receive

/-!
# The text of a message

The loop of `f_data` that reads the lines behind DATA, reads the headers among them, keeps count of
their size and writes them to the Dfile.

* `HeadState.text` — `header_text` for the lines of the header section;
* `DataState` with one function for each step of the loop, and `dataLine`, all of them for one line;
* `dataSession`, `dataStart` — the timer and the state that the loop starts with;
* `dataLoop` — the loop, with every way it ends;
* `dataLoop_lines` — what it leaves is what `dataLine` makes of the lines it was given.
-/

set_option autoImplicit false

namespace Simta

/-- `NO_ERROR`, `PROTOCOL_ERROR`, `SYSTEM_ERROR`. -/
inductive ReadErr
  | noError
  | protocolError
  | systemError
  deriving DecidableEq, Repr

def messageTempfail : Nat := 1
def messageReject : Nat := 2
def messageDelete : Nat := 4

def sTooLarge : Text := "Message too large".toList
def sTooManyReceived : Text := "Too many Received headers".toList
def sSeenBefore : Text := "Seen Before".toList

/-- What the calls for one line give: the clock, the allocations of `header_text`, the `strdup` of the
    seen-before text, `fprintf`, `fclose` and the `unlink` of the Dfile. -/
structure DataAnswers where
  now : Option Int
  headerAlloc : Nat → Bool
  dup : Bool
  printed : Bool
  closed : Bool
  unlinked : Bool

/-- The answers when every call succeeds, at that time. -/
def DataAnswers.ok (now : Int) : DataAnswers := ⟨some now, fun _ => true, true, true, true, true⟩

/-! ## The headers -/

/-- `line_no`, `header` and `rh`. -/
structure HeadState where
  lineNo : Nat
  header : Bool
  rh : ReceiveHeaders
  deriving DecidableEq, Repr

namespace HeadState

/-- `header_text` for a line, and whether it failed; nothing once the headers are over. -/
def text (conf : RecvConf) (alloc : Nat → Bool) (line : Text) (h : HeadState) : Bool × HeadState :=
  if h.header then
    let t := headerText conf.seenBeforeDomain alloc h.lineNo line h.rh
    (decide (t.1 < 0), { h with rh := t.2, header := decide (t.1 ≤ 0) })
  else (false, h)

end HeadState

/-! ## One line -/

/-- The variables of the loop.  `dff` holds while the Dfile is open, `dfile` are the lines that
    `fprintf` has put behind its Received header, `dfileFlag` is `ENV_FLAG_DFILE` of the envelope. -/
structure DataState extends HeadState where
  dataWrote : Nat
  dataRead : Nat
  readErr : ReadErr
  messageBanner : Nat
  systemMessage : Option Text
  filterMessage : Option Text
  dff : Bool
  dfile : List Text
  dfileFlag : Bool
  rMdctx : Mdctx
  tvNow : Int
  deriving DecidableEq

/-- The values of an `unsigned int`. -/
def uintSize : Nat := 2 ^ 32

/-- A line without the dot that was put in front of it. -/
def dotUnstuff (line : Text) : Text := if line.head? = some '.' then line.tail else line

namespace DataState

/-- The time after a line. -/
def clock (now : Option Int) (d : DataState) : DataState :=
  match now with
  | some t => { d with tvNow := t }
  | none => { d with readErr := .systemError }

/-- A line is counted with its CR LF. -/
def counted (line : Text) (d : DataState) : DataState :=
  { d with lineNo := d.lineNo + 1, dataRead := (d.dataRead + (line.length + 2)) % uintSize }

def readHeader (conf : RecvConf) (alloc : Nat → Bool) (line : Text) (d : DataState) : DataState :=
  if d.readErr = .noError then
    let t := d.toHeadState.text conf alloc line
    { d with toHeadState := t.2, readErr := if t.1 then .systemError else .noError }
  else d

/-- What `data_wrote` is after a line of that length. -/
def wroteNext (wrote lineLen : Nat) : Nat := (wrote + lineLen + 1) % uintSize

/-- The limit is a `long`, the sum an `unsigned int`. -/
def checkSize (conf : RecvConf) (lineLen : Nat) (d : DataState) : DataState :=
  if d.readErr = .noError ∧ 0 < conf.maxMessageSize ∧
      conf.maxMessageSize < (wroteNext d.dataWrote lineLen : Int) then
    { d with systemMessage := some sTooLarge, messageBanner := messageReject, readErr := .protocolError }
  else d

def checkReceived (conf : RecvConf) (d : DataState) : DataState :=
  if d.readErr = .noError ∧ conf.maxReceivedHeaders < (d.rh.rReceivedCount : Int) then
    { d with systemMessage := some sTooManyReceived, messageBanner := messageReject, readErr := .protocolError }
  else d

/-- Asked after every line, whatever went wrong before. -/
def checkSeen (dup : Bool) (d : DataState) : DataState :=
  match d.rh.seenBefore with
  | some text => { d with
      systemMessage := some sSeenBefore
      filterMessage := if dup then some text else none
      messageBanner := messageDelete
      readErr := .protocolError }
  | none => d

/-- The line is written, or counted alone when there is no Dfile. -/
def store (printed : Bool) (line : Text) (lineLen : Nat) (d : DataState) : DataState :=
  if d.readErr = .noError then
    if d.dff ∧ printed = false then { d with readErr := .systemError }
    else { d with
      dataWrote := wroteNext d.dataWrote lineLen
      dfile := if d.dff then d.dfile ++ [line] else d.dfile }
  else d

/-- After an error the Dfile is closed and removed. -/
def closeDfile (closed unlinked : Bool) (d : DataState) : DataState :=
  if d.readErr ≠ .noError ∧ d.dff then
    { d with
      dff := false
      dfileFlag := d.dfileFlag && !unlinked
      readErr := if closed ∧ unlinked then d.readErr else .systemError }
  else d

/-- A message digest is wanted. -/
def digests (conf : RecvConf) : Bool := conf.mailFilter.isSome && conf.checksumMd

/-- `EVP_DigestUpdate` of as many bytes as the line had when it came; behind it lies its NUL. -/
def digest (conf : RecvConf) (line : Text) (lineLen : Nat) (d : DataState) : DataState :=
  if d.dff ∧ digests conf then
    { d with
      rMdctx.mdBytes := (d.rMdctx.mdBytes + lineLen) % uintSize
      rMdctx.mdData := d.rMdctx.mdData ++ (line ++ ['\x00']).take lineLen }
  else d

end DataState

/-- The loop for a line that is not the last one.  The length is that of the line as it came. -/
def dataLine (conf : RecvConf) (a : DataAnswers) (line : Text) (d : DataState) : DataState :=
  let text := dotUnstuff line
  let d := (d.clock a.now).counted line
  let d := d.readHeader conf a.headerAlloc text
  let d := d.checkSize conf line.length
  let d := d.checkReceived conf
  let d := d.checkSeen a.dup
  let d := d.store a.printed text line.length
  let d := d.closeDfile a.closed a.unlinked
  d.digest conf text line.length

/-- The loop for the lines in front of the last one. -/
def dataLines (conf : RecvConf) : List (DataAnswers × Text) → DataState → DataState
  | [], d => d
  | (a, line) :: rest, d => dataLines conf rest (dataLine conf a line d)

/-! ## The loop -/

/-- `tv_session`: the timer of the session or that of the message, whichever is over first. -/
def dataSession (conf : RecvConf) (rTvSession now : Int) : Option Int :=
  let timer := conf.inboundDataSessionTimer
  let session := if rTvSession = 0 then none else some rTvSession
  if timer = 0 then session
  else
    match session with
    | some t => if now + timer < t then some (now + timer) else some t
    | none => some (now + timer)

/-- The variables in front of the first line; there is no Dfile for a session in the tarpit. -/
def dataStart (dff : Bool) (mdctx : Mdctx) (now : Int) : DataState where
  lineNo := 0
  header := true
  rh := .init
  dataWrote := 0
  dataRead := 0
  readErr := .noError
  messageBanner := messageTempfail
  systemMessage := none
  filterMessage := none
  dff := dff
  dfile := []
  dfileFlag := dff
  rMdctx := mdctx
  tvNow := now

/-- How the loop ends: the last line, the time, or `NULL` for a line. -/
inductive DataEnd
  | dot
  | timeLimit
  | getline (g : GetLine)
  deriving DecidableEq, Repr

/-- The time of the session is up. -/
def sessionOver (session : Option Int) (now : Int) : Bool := session.any fun t => decide (t ≤ now)

/-- The line that ends a message. -/
def dotLine : Text := ".".toList

/-- The loop of DATA, with a bound on its lines; `ans` is what the calls for each line give. -/
def dataLoop {m : Type → Type} [Monad m] (conf : RecvConf) (read : Nat → m ReadResult) (ans : Nat → DataAnswers)
    (session : Option Int) : Nat → Snet → DataState → m (DataEnd × Snet × DataState)
  | 0, sn, d => return (.timeLimit, sn, d)
  | fuel + 1, sn, d => do
    if sessionOver session d.tvNow then return (.timeLimit, sn, d)
    else
      match ← sn.getline read with
      | (.line line, sn) =>
        if line = dotLine then return (.dot, sn, (d.clock (ans d.lineNo).now).counted line)
        else dataLoop conf read ans session fuel sn (dataLine conf (ans d.lineNo) line d)
      | (g, sn) => return (.getline g, sn, d)

/-- What the loop leaves, when it ends in that way behind those lines. -/
def AfterLines (conf : RecvConf) (steps : List (DataAnswers × Text)) (d : DataState) :
    DataEnd → DataState → Prop
  | .dot, e => ∃ now, e = ((dataLines conf steps d).clock now).counted dotLine
  | _, e => e = dataLines conf steps d

/-- **The loop is `dataLine` for each line it is given.** -/
theorem dataLoop_lines {ρ Op σ : Type} {Ans : Op → Type} {R : Prog.World Op Ans σ} {conf : RecvConf}
    {read : Nat → Stateful ρ Op Ans ReadResult} {ans : Nat → DataAnswers} {session : Option Int} (fuel : Nat) :
    ∀ (sn : Snet) (d : DataState) (r : ρ) (s : σ),
      (dataLoop conf read ans session fuel sn d).wlp R (fun x _ _ =>
        ∃ steps, (∀ p ∈ steps, p.2 ≠ dotLine) ∧ AfterLines conf steps d x.1 x.2.2) r s := by
  induction fuel with
  | zero => exact fun sn d r s => ⟨[], by simp, rfl⟩
  | succ fuel ih =>
    intro sn d r s
    unfold dataLoop
    split
    · exact ⟨[], by simp, rfl⟩
    · refine Stateful.wlp_seq (Stateful.wlp_runs _) ?_
      rintro ⟨g, sn'⟩ r' s' -
      cases g with
      | line line =>
        by_cases hdot : line = dotLine
        · simp only [hdot, if_true]
          exact ⟨[], by simp, (ans d.lineNo).now, rfl⟩
        · simp only [hdot, if_false]
          refine Stateful.wlp_mono ?_ (ih sn' _ r' s')
          rintro x _ _ ⟨steps, hsteps, hx⟩
          refine ⟨(ans d.lineNo, line) :: steps, ?_, ?_⟩
          · intro p hp
            cases List.mem_cons.mp hp with
            | inl h => exact h ▸ hdot
            | inr h => exact hsteps p h
          · cases hend : x.1 <;> rw [hend] at hx <;> exact hx
      | eof => exact ⟨[], by simp, rfl⟩
      | error timedOut => exact ⟨[], by simp, rfl⟩
      | tooLong => exact ⟨[], by simp, rfl⟩

end Simta
