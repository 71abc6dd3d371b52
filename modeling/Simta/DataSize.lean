import Simta.Data

/-!
# The size of a message

The loop of DATA measures a line as it came, with the dot that it may have been stuffed with, and uses
that length for the limit, for the count of the bytes written and for the digest of the text.

* `HeadState.judge`, `clearLines`, `sizedLines` — what stops a message for other reasons than its size;
* `Exceeds`, `fitting` — the limit against the lines as they came;
* `dataLine_clear`, `dataLine_halt` — one line, and `dataLines_spec`, all of them;
* `accounts_iff` — the accounts are those of the text that is stored just when no stored line was
  stuffed and the stuffed dots do not pass the limit.
-/

set_option autoImplicit false

namespace Simta

/-- The bytes of some lines, each with its LF. -/
def lineBytes (lines : List Text) : Nat := (lines.map fun l => l.length + 1).sum

@[simp] theorem lineBytes_nil : lineBytes [] = 0 := rfl

@[simp] theorem lineBytes_cons (l : Text) (rest : List Text) :
    lineBytes (l :: rest) = l.length + 1 + lineBytes rest := by
  simp [lineBytes]

/-! ## What else stops a message -/

/-- What stops a message at a line: something in front of the check of its size or behind it, or a
    seen-before header, which has the last word. -/
inductive LineFate
  | clear
  | before
  | behind
  | seen
  deriving DecidableEq, Repr

/-- What stops a message at that line for other reasons than its size, and the headers behind it. -/
def HeadState.judge (conf : RecvConf) (dff : Bool) (a : DataAnswers) (line : Text) (h : HeadState) :
    LineFate × HeadState :=
  let t := ({ h with lineNo := h.lineNo + 1 } : HeadState).text conf a.headerAlloc (dotUnstuff line)
  (if a.now = none ∨ t.1 then .before
    else if t.2.rh.seenBefore.isSome then .seen
    else if conf.maxReceivedHeaders < (t.2.rh.rReceivedCount : Int) ∨ (dff ∧ a.printed = false) then .behind
    else .clear, t.2)

theorem HeadState.judge_before {conf : RecvConf} {dff : Bool} {a : DataAnswers} {line : Text} {h : HeadState} :
    (h.judge conf dff a line).1 = .before ↔
      a.now = none ∨
        (({ h with lineNo := h.lineNo + 1 } : HeadState).text conf a.headerAlloc (dotUnstuff line)).1 = true := by
  constructor
  · intro hj
    by_contra hno
    unfold judge at hj
    simp only [if_neg hno] at hj
    split at hj
    · cases hj
    · split at hj <;> cases hj
  · intro hc
    exact if_pos hc

theorem HeadState.judge_eq {conf : RecvConf} {dff : Bool} {a : DataAnswers} {line : Text} {h : HeadState}
    (hj : (h.judge conf dff a line).1 ≠ .before) :
    (h.judge conf dff a line).1 =
      if (h.judge conf dff a line).2.rh.seenBefore.isSome then .seen
      else if conf.maxReceivedHeaders < ((h.judge conf dff a line).2.rh.rReceivedCount : Int) ∨
        (dff ∧ a.printed = false) then .behind
      else .clear :=
  if_neg fun hc => hj (judge_before.mpr hc)

/-- The lines in front of the first that something else than its size stops. -/
def clearLines (conf : RecvConf) (dff : Bool) : HeadState → List (DataAnswers × Text) → List Text
  | _, [] => []
  | h, (a, line) :: rest =>
    match h.judge conf dff a line with
    | (.clear, h) => line :: clearLines conf dff h rest
    | _ => []

/-- The same lines, and the next one if its size is looked at before it is stopped. -/
def sizedLines (conf : RecvConf) (dff : Bool) : HeadState → List (DataAnswers × Text) → List Text
  | _, [] => []
  | h, (a, line) :: rest =>
    match h.judge conf dff a line with
    | (.clear, h) => line :: sizedLines conf dff h rest
    | (.behind, _) => [line]
    | _ => []

section Lines

variable {conf : RecvConf} {dff : Bool} {a : DataAnswers} {line : Text} {h : HeadState}
variable {rest : List (DataAnswers × Text)}

theorem clearLines_clear (hj : (h.judge conf dff a line).1 = .clear) :
    clearLines conf dff h ((a, line) :: rest) = line :: clearLines conf dff (h.judge conf dff a line).2 rest := by
  rw [clearLines]
  split
  · rename_i h' heq
    rw [heq]
  · rename_i p hno
    exact (hno _ (Prod.ext hj rfl)).elim

theorem clearLines_stop (hj : (h.judge conf dff a line).1 ≠ .clear) :
    clearLines conf dff h ((a, line) :: rest) = [] := by
  rw [clearLines]
  split
  · rename_i h' heq
    exact absurd (congrArg Prod.fst heq) hj
  · rfl

theorem sizedLines_clear (hj : (h.judge conf dff a line).1 = .clear) :
    sizedLines conf dff h ((a, line) :: rest) = line :: sizedLines conf dff (h.judge conf dff a line).2 rest := by
  rw [sizedLines]
  split
  · rename_i h' heq
    rw [heq]
  · rename_i h' heq
    rw [heq] at hj
    cases hj
  · rename_i p hno _
    exact (hno _ (Prod.ext hj rfl)).elim

theorem sizedLines_stop (hj : (h.judge conf dff a line).1 ≠ .clear) :
    sizedLines conf dff h ((a, line) :: rest) =
      if (h.judge conf dff a line).1 = .behind then [line] else [] := by
  rw [sizedLines]
  split
  · rename_i h' heq
    exact absurd (congrArg Prod.fst heq) hj
  · rename_i h' heq
    rw [heq, if_pos rfl]
  · rename_i p _ hno
    rw [if_neg fun hc => hno _ (Prod.ext hc rfl)]

end Lines

/-! ## The limit -/

/-- The count of the lines as they came passes the limit at one of them. -/
def Exceeds (limit : Int) (wrote : Nat) (lines : List Text) : Prop :=
  ∃ k < lines.length, limit < ((wrote + lineBytes (lines.take (k + 1))) % uintSize : Nat)

/-- The lines in front of the one that passes the limit. -/
def fitting (limit : Int) : Nat → List Text → List Text
  | _, [] => []
  | wrote, l :: rest =>
    if limit < (DataState.wroteNext wrote l.length : Int) then []
    else l :: fitting limit (DataState.wroteNext wrote l.length) rest

theorem exceeds_nil {limit : Int} {wrote : Nat} : ¬ Exceeds limit wrote [] := by
  rintro ⟨k, hk, -⟩
  exact absurd hk (Nat.not_lt_zero k)

theorem wroteNext_mod (wrote lineLen n : Nat) :
    (DataState.wroteNext wrote lineLen + n) % uintSize = (wrote + (lineLen + 1 + n)) % uintSize := by
  rw [DataState.wroteNext, Nat.mod_add_mod]
  congr 1
  omega

theorem exceeds_cons {limit : Int} {wrote : Nat} {l : Text} {rest : List Text} :
    Exceeds limit wrote (l :: rest) ↔
      limit < (DataState.wroteNext wrote l.length : Int) ∨
        Exceeds limit (DataState.wroteNext wrote l.length) rest := by
  constructor
  · rintro ⟨k, hk, hlt⟩
    cases k with
    | zero =>
      left
      simpa [DataState.wroteNext, Nat.add_assoc] using hlt
    | succ k =>
      right
      refine ⟨k, by simpa using hk, ?_⟩
      rw [wroteNext_mod]
      simpa using hlt
  · rintro (hlt | ⟨k, hk, hlt⟩)
    · refine ⟨0, by simp, ?_⟩
      simpa [DataState.wroteNext, Nat.add_assoc] using hlt
    · refine ⟨k + 1, by simpa using hk, ?_⟩
      rw [wroteNext_mod] at hlt
      simpa using hlt

theorem lineBytes_take_le (lines : List Text) (k : Nat) : lineBytes (lines.take k) ≤ lineBytes lines := by
  have hsplit : lineBytes lines = lineBytes (lines.take k) + lineBytes (lines.drop k) := by
    unfold lineBytes
    rw [← List.sum_append, ← List.map_append, List.take_append_drop]
  omega

/-- As long as nothing goes round, the limit is passed when all lines together are more. -/
theorem exceeds_iff_of_small {limit : Int} {lines : List Text} (hlimit : 0 < limit)
    (hlt : lineBytes lines < uintSize) : Exceeds limit 0 lines ↔ limit < (lineBytes lines : Int) := by
  constructor
  · rintro ⟨k, -, hk⟩
    have hle := lineBytes_take_le lines (k + 1)
    rw [Nat.zero_add, Nat.mod_eq_of_lt (by omega)] at hk
    omega
  · intro h
    have hne : lines ≠ [] := by
      rintro rfl
      rw [lineBytes_nil] at h
      omega
    have hpos : 0 < lines.length := List.length_pos_iff.mpr hne
    refine ⟨lines.length - 1, by omega, ?_⟩
    rw [Nat.sub_add_cancel hpos, List.take_length, Nat.zero_add, Nat.mod_eq_of_lt hlt]
    exact h

/-! ## One line -/

namespace DataState

/-- A message that an error has stopped: its Dfile is closed. -/
structure Halted (d : DataState) : Prop where
  err : d.readErr ≠ .noError
  closed : d.dff = false

/-- `e` is stopped and holds what was there at `d`; the last word has a seen-before header. -/
structure HaltedFrom (d e : DataState) : Prop extends Halted e where
  rh : e.rh = d.rh
  dfile : e.dfile = d.dfile
  wrote : e.dataWrote = d.dataWrote
  mdctx : e.rMdctx = d.rMdctx
  message : e.systemMessage = if d.rh.seenBefore.isSome then some sSeenBefore else d.systemMessage

variable {conf : RecvConf} {d : DataState} {a : DataAnswers} {line : Text}

/-- The steps of the loop behind the check of the seen-before headers. -/
def finish (conf : RecvConf) (a : DataAnswers) (line : Text) (lineLen : Nat) (d : DataState) : DataState :=
  (((d.checkSeen a.dup).store a.printed line lineLen).closeDfile a.closed a.unlinked).digest conf line lineLen

/-- Once an error is known, the rest of the loop only closes the Dfile. -/
theorem finish_halted {lineLen : Nat} (h : d.readErr ≠ .noError ∨ d.rh.seenBefore.isSome) :
    HaltedFrom d (d.finish conf a line lineLen) := by
  obtain ⟨e, he, herr, hmsg, hrh, hdfile, hwrote, hmd⟩ : ∃ e, d.checkSeen a.dup = e ∧ e.readErr ≠ .noError ∧
      e.systemMessage = (if d.rh.seenBefore.isSome then some sSeenBefore else d.systemMessage) ∧
      e.rh = d.rh ∧ e.dfile = d.dfile ∧ e.dataWrote = d.dataWrote ∧ e.rMdctx = d.rMdctx := by
    refine ⟨_, rfl, ?_⟩
    unfold checkSeen
    cases hs : d.rh.seenBefore with
    | none =>
      rw [hs] at h
      exact ⟨h.resolve_right (by simp), rfl, rfl, rfl, rfl, rfl⟩
    | some text => exact ⟨by simp, rfl, rfl, rfl, rfl, rfl⟩
  have hstore : e.store a.printed line lineLen = e := by
    unfold store
    rw [if_neg herr]
  unfold finish
  rw [he, hstore]
  unfold closeDfile
  by_cases hdff : e.dff = true
  · rw [if_pos ⟨herr, hdff⟩]
    unfold digest
    rw [if_neg (by simp)]
    refine ⟨⟨?_, rfl⟩, hrh, hdfile, hwrote, hmd, hmsg⟩
    show (if a.closed = true ∧ a.unlinked = true then e.readErr else ReadErr.systemError) ≠ .noError
    split
    · exact herr
    · simp
  · rw [if_neg fun hc => hdff hc.2]
    unfold digest
    rw [if_neg fun hc => hdff hc.1]
    exact ⟨⟨herr, by simpa using hdff⟩, hrh, hdfile, hwrote, hmd, hmsg⟩

/-- The loop up to the check of the size. -/
def front (conf : RecvConf) (a : DataAnswers) (line : Text) (d : DataState) : DataState :=
  ((d.clock a.now).counted line).readHeader conf a.headerAlloc (dotUnstuff line)

theorem dataLine_eq :
    dataLine conf a line d =
      (((d.front conf a line).checkSize conf line.length).checkReceived conf).finish conf a (dotUnstuff line)
        line.length := rfl

theorem checkSize_of_err {lineLen : Nat} (h : d.readErr ≠ .noError) : d.checkSize conf lineLen = d :=
  if_neg fun hc => h hc.1

theorem checkReceived_of_err (h : d.readErr ≠ .noError) : d.checkReceived conf = d :=
  if_neg fun hc => h hc.1

/-- A line after an error. -/
theorem dataLine_halted (h : d.Halted) : HaltedFrom d (dataLine conf a line d) := by
  obtain ⟨e, he, herr, hclosed, hmsg, hrh, hdfile, hwrote, hmd⟩ : ∃ e, d.front conf a line = e ∧
      e.readErr ≠ .noError ∧ e.dff = false ∧ e.systemMessage = d.systemMessage ∧ e.rh = d.rh ∧
      e.dfile = d.dfile ∧ e.dataWrote = d.dataWrote ∧ e.rMdctx = d.rMdctx := by
    have herr : ((d.clock a.now).counted line).readErr ≠ .noError := by
      unfold clock
      cases a.now with
      | none => simp [counted]
      | some t => exact h.err
    refine ⟨_, rfl, ?_⟩
    unfold front readHeader
    rw [if_neg herr]
    refine ⟨herr, ?_⟩
    unfold clock counted
    cases a.now <;> exact ⟨h.closed, rfl, rfl, rfl, rfl, rfl⟩
  rw [dataLine_eq, he, checkSize_of_err herr, checkReceived_of_err herr]
  have hfin : HaltedFrom e (e.finish conf a (dotUnstuff line) line.length) := finish_halted (.inl herr)
  refine ⟨hfin.toHalted, hfin.rh.trans hrh, hfin.dfile.trans hdfile, hfin.wrote.trans hwrote,
    hfin.mdctx.trans hmd, ?_⟩
  rw [hfin.message, hrh, hmsg]

/-- The lines after an error. -/
theorem dataLines_halted (conf : RecvConf) : ∀ (steps : List (DataAnswers × Text)) {d : DataState}, d.Halted →
    (d.systemMessage = some sTooLarge → d.rh.seenBefore = none) →
    let e := dataLines conf steps d
    e.dfile = d.dfile ∧ e.dataWrote = d.dataWrote ∧ e.rMdctx = d.rMdctx ∧
      (e.systemMessage = some sTooLarge ↔ d.systemMessage = some sTooLarge)
  | [], _, _, _ => ⟨rfl, rfl, rfl, Iff.rfl⟩
  | (a, line) :: rest, d, h, hseen => by
    have hstep : HaltedFrom d (dataLine conf a line d) := dataLine_halted h
    have hmsg : (dataLine conf a line d).systemMessage = some sTooLarge ↔ d.systemMessage = some sTooLarge := by
      rw [hstep.message]
      split
      · rename_i hs
        constructor
        · intro hc
          exact absurd hc (by decide)
        · intro hc
          rw [hseen hc] at hs
          cases hs
      · exact Iff.rfl
    obtain ⟨h₁, h₂, h₃, h₄⟩ := dataLines_halted conf rest hstep.toHalted fun hc => by
      rw [hstep.rh]
      exact hseen (hmsg.mp hc)
    exact ⟨h₁.trans hstep.dfile, h₂.trans hstep.wrote, h₃.trans hstep.mdctx, h₄.trans hmsg⟩

/-! A line of a message that nothing has stopped. -/

/-- Up to the check of the size only the headers change. -/
theorem front_same (conf : RecvConf) (a : DataAnswers) (line : Text) (d : DataState) :
    (d.front conf a line).dataWrote = d.dataWrote ∧ (d.front conf a line).dff = d.dff ∧
    (d.front conf a line).dfile = d.dfile ∧ (d.front conf a line).rMdctx = d.rMdctx ∧
    (d.front conf a line).systemMessage = d.systemMessage ∧
    (d.front conf a line).tvNow = a.now.getD d.tvNow := by
  have hclock : ((d.clock a.now).counted line).dataWrote = d.dataWrote ∧
      ((d.clock a.now).counted line).dff = d.dff ∧ ((d.clock a.now).counted line).dfile = d.dfile ∧
      ((d.clock a.now).counted line).rMdctx = d.rMdctx ∧
      ((d.clock a.now).counted line).systemMessage = d.systemMessage ∧
      ((d.clock a.now).counted line).tvNow = a.now.getD d.tvNow := by
    unfold clock
    cases a.now <;> exact ⟨rfl, rfl, rfl, rfl, rfl, rfl⟩
  unfold front readHeader
  by_cases h : ((d.clock a.now).counted line).readErr = .noError
  · rw [if_pos h]
    exact hclock
  · rw [if_neg h]
    exact hclock

theorem front_before (h : (d.judge conf d.dff a line).1 = .before) : (d.front conf a line).readErr ≠ .noError := by
  unfold front readHeader
  by_cases hrun : ((d.clock a.now).counted line).readErr = .noError
  · rw [if_pos hrun]
    show (if _ then ReadErr.systemError else ReadErr.noError) ≠ .noError
    have hnow : ∃ t, a.now = some t := by
      cases hnow : a.now with
      | none =>
        rw [hnow] at hrun
        cases hrun
      | some t => exact ⟨t, rfl⟩
    obtain ⟨t, hnow⟩ := hnow
    have htext := (HeadState.judge_before.mp h).resolve_left (by simp [hnow])
    have hhead : ((d.clock (some t)).counted line).toHeadState =
      { d.toHeadState with lineNo := d.lineNo + 1 } := rfl
    rw [hnow, hhead, if_pos htext]
    simp
  · rw [if_neg hrun]
    exact hrun

theorem front_after (hrun : d.readErr = .noError) (h : (d.judge conf d.dff a line).1 ≠ .before) :
    (d.front conf a line).readErr = .noError ∧
      (d.front conf a line).toHeadState = (d.judge conf d.dff a line).2 := by
  have hno := fun hc => h (HeadState.judge_before.mpr hc)
  cases hnow : a.now with
  | none => exact absurd (.inl hnow) hno
  | some t =>
    have htext := fun hc => hno (.inr hc)
    have hrun' : ((d.clock (some t)).counted line).readErr = .noError := hrun
    have hhead : ((d.clock (some t)).counted line).toHeadState =
      { d.toHeadState with lineNo := d.lineNo + 1 } := rfl
    unfold front readHeader
    rw [hnow, if_pos hrun']
    constructor
    · show (if _ then ReadErr.systemError else ReadErr.noError) = .noError
      rw [hhead, if_neg htext]
    · rfl

/-- What a stopped message holds behind the checks. -/
theorem finish_front (conf : RecvConf) (a : DataAnswers) (line : Text) (lineLen : Nat) {d g : DataState}
    (hg : g.readErr ≠ .noError ∨ g.rh.seenBefore.isSome)
    (hdfile : g.dfile = d.dfile) (hwrote : g.dataWrote = d.dataWrote) (hmd : g.rMdctx = d.rMdctx) :
    let e := g.finish conf a line lineLen
    e.Halted ∧ e.dfile = d.dfile ∧ e.dataWrote = d.dataWrote ∧ e.rMdctx = d.rMdctx ∧
      (e.systemMessage = some sTooLarge → e.rh.seenBefore = none) ∧
      (e.systemMessage = some sTooLarge ↔ g.systemMessage = some sTooLarge ∧ g.rh.seenBefore = none) := by
  have hfin : HaltedFrom g (g.finish conf a line lineLen) := finish_halted hg
  have hmsg : (g.finish conf a line lineLen).systemMessage = some sTooLarge ↔
      g.systemMessage = some sTooLarge ∧ g.rh.seenBefore = none := by
    rw [hfin.message]
    cases hs : g.rh.seenBefore with
    | none => simp
    | some text =>
      simp only [Option.isSome_some, if_true, reduceCtorEq, and_false, iff_false]
      decide
  refine ⟨hfin.toHalted, hfin.dfile.trans hdfile, hfin.wrote.trans hwrote, hfin.mdctx.trans hmd, ?_, hmsg⟩
  intro hc
  rw [hfin.rh]
  exact (hmsg.mp hc).2

/-- A line that cannot be written. -/
theorem finish_unprinted (conf : RecvConf) (line : Text) (lineLen : Nat) {g : DataState}
    (hrun : g.readErr = .noError)
    (hseen : g.rh.seenBefore = none) (hdff : g.dff = true) (hprint : a.printed = false) :
    let e := g.finish conf a line lineLen
    e.Halted ∧ e.dfile = g.dfile ∧ e.dataWrote = g.dataWrote ∧ e.rMdctx = g.rMdctx ∧ e.rh = g.rh ∧
      e.systemMessage = g.systemMessage := by
  have hcheck : g.checkSeen a.dup = g := by
    unfold checkSeen
    rw [hseen]
  have hstore : g.store a.printed line lineLen = { g with readErr := .systemError } := by
    unfold store
    rw [if_pos hrun, if_pos ⟨hdff, hprint⟩]
  unfold finish
  rw [hcheck, hstore]
  unfold closeDfile
  rw [if_pos ⟨by simp, hdff⟩]
  unfold digest
  rw [if_neg (by simp)]
  refine ⟨⟨?_, rfl⟩, rfl, rfl, rfl, rfl, rfl⟩
  show (if a.closed = true ∧ a.unlinked = true then ReadErr.systemError else ReadErr.systemError) ≠ .noError
  split <;> simp

/-- **A line that stops the message.** -/
theorem dataLine_halt (hrun : d.readErr = .noError) (hmsg : d.systemMessage = none)
    (hstop : (d.judge conf d.dff a line).1 ≠ .clear ∨
      (0 < conf.maxMessageSize ∧ conf.maxMessageSize < (wroteNext d.dataWrote line.length : Int))) :
    let e := dataLine conf a line d
    e.Halted ∧ e.dfile = d.dfile ∧ e.dataWrote = d.dataWrote ∧ e.rMdctx = d.rMdctx ∧
      (e.systemMessage = some sTooLarge → e.rh.seenBefore = none) ∧
      (e.systemMessage = some sTooLarge ↔
        (0 < conf.maxMessageSize ∧ conf.maxMessageSize < (wroteNext d.dataWrote line.length : Int)) ∧
          ((d.judge conf d.dff a line).1 = .clear ∨ (d.judge conf d.dff a line).1 = .behind)) := by
  obtain ⟨hwrote, hdff, hdfile, hmd, hsys, -⟩ := front_same conf a line d
  rw [dataLine_eq]
  generalize hf : d.front conf a line = f at *
  by_cases hbefore : (d.judge conf d.dff a line).1 = .before
  · have herr : f.readErr ≠ .noError := hf ▸ front_before hbefore
    rw [checkSize_of_err herr, checkReceived_of_err herr]
    obtain ⟨h₁, h₂, h₃, h₄, h₅, h₆⟩ := finish_front conf a (dotUnstuff line) line.length
      (.inl herr) hdfile hwrote hmd
    refine ⟨h₁, h₂, h₃, h₄, h₅, h₆.trans ?_⟩
    simp [hsys, hmsg, hbefore]
  · obtain ⟨hgo, hhead⟩ := front_after hrun hbefore
    have hjudge := HeadState.judge_eq hbefore
    rw [hf] at hgo hhead
    rw [← hhead] at hjudge
    by_cases hbig : 0 < conf.maxMessageSize ∧ conf.maxMessageSize < (wroteNext d.dataWrote line.length : Int)
    · have hsize : f.checkSize conf line.length = { f with
          systemMessage := some sTooLarge, messageBanner := messageReject, readErr := .protocolError } :=
        if_pos ⟨hgo, hwrote ▸ hbig⟩
      rw [hsize, checkReceived_of_err (by simp)]
      obtain ⟨h₁, h₂, h₃, h₄, h₅, h₆⟩ := finish_front conf a (dotUnstuff line) line.length (g := { f with
          systemMessage := some sTooLarge, messageBanner := messageReject, readErr := .protocolError })
        (.inl (by simp)) hdfile hwrote hmd
      refine ⟨h₁, h₂, h₃, h₄, h₅, h₆.trans ?_⟩
      rw [hjudge]
      cases hs : f.rh.seenBefore with
      | none =>
        simp only [true_and, hbig, Option.isSome_none, Bool.false_eq_true, if_false, true_iff]
        split <;> simp
      | some text => simp
    · have hsize : f.checkSize conf line.length = f := if_neg fun hc => hbig (hwrote ▸ hc.2)
      have hclear := hstop.resolve_right hbig
      rw [hsize]
      by_cases hmany : conf.maxReceivedHeaders < (f.rh.rReceivedCount : Int)
      · have hrecv : f.checkReceived conf = { f with
            systemMessage := some sTooManyReceived, messageBanner := messageReject, readErr := .protocolError } :=
          if_pos ⟨hgo, hmany⟩
        rw [hrecv]
        obtain ⟨h₁, h₂, h₃, h₄, h₅, h₆⟩ := finish_front conf a (dotUnstuff line) line.length (g := { f with
            systemMessage := some sTooManyReceived, messageBanner := messageReject, readErr := .protocolError })
          (.inl (by simp)) hdfile hwrote hmd
        refine ⟨h₁, h₂, h₃, h₄, h₅, h₆.trans ?_⟩
        simp only [hbig, false_and, iff_false, not_and]
        exact fun hc => absurd hc (by decide)
      · have hrecv : f.checkReceived conf = f := if_neg fun hc => hmany hc.2
        rw [hrecv]
        cases hs : f.rh.seenBefore with
        | some text =>
          obtain ⟨h₁, h₂, h₃, h₄, h₅, h₆⟩ := finish_front conf a (dotUnstuff line) line.length
            (.inr (by simp [hs])) hdfile hwrote hmd
          refine ⟨h₁, h₂, h₃, h₄, h₅, h₆.trans ?_⟩
          simp [hbig, hs]
        | none =>
          have hprint : d.dff = true ∧ a.printed = false := by
            by_contra hno
            apply hclear
            rw [hjudge, hs, if_neg (by simp), if_neg (by simpa [hmany] using hno)]
          obtain ⟨h₁, h₂, h₃, h₄, h₅, h₆⟩ := finish_unprinted conf (dotUnstuff line) line.length
            hgo hs (hdff.trans hprint.1) hprint.2
          refine ⟨h₁, h₂.trans hdfile, h₃.trans hwrote, h₄.trans hmd, ?_, ?_⟩
          · exact fun _ => h₅ ▸ hs
          · rw [h₆, hsys, hmsg]
            simp [hbig]

/-- What the digest is given for a line. -/
def digested (line : Text) : Text := (dotUnstuff line ++ ['\x00']).take line.length

/-- **A line that is stored.** -/
theorem dataLine_clear (hrun : d.readErr = .noError) (hj : (d.judge conf d.dff a line).1 = .clear)
    (hfit : ¬ (0 < conf.maxMessageSize ∧ conf.maxMessageSize < (wroteNext d.dataWrote line.length : Int))) :
    let e := dataLine conf a line d
    e.readErr = .noError ∧ e.toHeadState = (d.judge conf d.dff a line).2 ∧ e.dff = d.dff ∧
      e.systemMessage = d.systemMessage ∧ e.dataWrote = wroteNext d.dataWrote line.length ∧
      e.dfile = (if d.dff then d.dfile ++ [dotUnstuff line] else d.dfile) ∧
      e.rMdctx = (if d.dff ∧ digests conf then
        { d.rMdctx with
          mdBytes := (d.rMdctx.mdBytes + line.length) % uintSize
          mdData := d.rMdctx.mdData ++ digested line }
        else d.rMdctx) ∧
      e.tvNow = a.now.getD d.tvNow := by
  obtain ⟨hwrote, hdff, hdfile, hmd, hsys, hnow⟩ := front_same conf a line d
  have hbefore : (d.judge conf d.dff a line).1 ≠ .before := by
    rw [hj]
    simp
  obtain ⟨hgo, hhead⟩ := front_after hrun hbefore
  have hjudge := (HeadState.judge_eq hbefore).symm.trans hj
  rw [dataLine_eq]
  rw [← hhead] at hjudge ⊢
  generalize d.front conf a line = f at *
  have hseen : f.rh.seenBefore = none := by
    cases hs : f.rh.seenBefore with
    | none => rfl
    | some text =>
      rw [hs, if_pos (by simp)] at hjudge
      cases hjudge
  rw [hseen, if_neg (by simp)] at hjudge
  have hgood : ¬ (conf.maxReceivedHeaders < (f.rh.rReceivedCount : Int) ∨ (d.dff ∧ a.printed = false)) := by
    intro hc
    rw [if_pos hc] at hjudge
    cases hjudge
  have hsize : f.checkSize conf line.length = f := if_neg fun hc => hfit (hwrote ▸ hc.2)
  have hrecv : f.checkReceived conf = f := if_neg fun hc => hgood (.inl hc.2)
  have hcheck : f.checkSeen a.dup = f := by
    unfold checkSeen
    rw [hseen]
  have hstore : f.store a.printed (dotUnstuff line) line.length = { f with
      dataWrote := wroteNext f.dataWrote line.length
      dfile := if f.dff then f.dfile ++ [dotUnstuff line] else f.dfile } := by
    unfold store
    rw [if_pos hgo, if_neg fun hc => hgood (.inr (hdff ▸ hc))]
  unfold finish
  rw [hsize, hrecv, hcheck, hstore]
  unfold closeDfile
  rw [if_neg fun hc => hc.1 hgo]
  unfold digest
  rw [← hdff, ← hdfile, ← hwrote, ← hmd, ← hsys, ← hnow]
  by_cases hdig : f.dff = true ∧ digests conf = true
  · rw [if_pos hdig, if_pos hdig]
    exact ⟨hgo, rfl, rfl, rfl, rfl, rfl, rfl, rfl⟩
  · rw [if_neg hdig, if_neg hdig]
    exact ⟨hgo, rfl, rfl, rfl, rfl, rfl, rfl, rfl⟩

/-! ## All lines -/

/-- What the digest holds behind some lines. -/
def digestOf (conf : RecvConf) (dff : Bool) (kept : List Text) (md : Mdctx) : Mdctx :=
  if dff ∧ digests conf then
    { md with
      mdBytes := (md.mdBytes + kept.flatten.length) % uintSize
      mdData := md.mdData ++ kept.flatMap digested }
  else md

theorem digestOf_nil {dff : Bool} {md : Mdctx} (h : md.mdBytes < uintSize) : digestOf conf dff [] md = md := by
  unfold digestOf
  split
  · simp [Nat.mod_eq_of_lt h]
  · rfl

theorem digestOf_cons {dff : Bool} {md : Mdctx} {kept : List Text} :
    digestOf conf dff (line :: kept) md =
      digestOf conf dff kept (if dff ∧ digests conf then
        { md with
          mdBytes := (md.mdBytes + line.length) % uintSize
          mdData := md.mdData ++ digested line }
        else md) := by
  unfold digestOf
  by_cases h : dff = true ∧ digests conf = true
  · rw [if_pos h, if_pos h, if_pos h]
    simp only [List.flatten_cons, List.length_append, List.flatMap_cons, List.append_assoc, Nat.mod_add_mod,
      Nat.add_assoc]
  · rw [if_neg h, if_neg h, if_neg h]

/-- What the loop leaves for the lines `kept` of a message. -/
structure Kept (conf : RecvConf) (kept : List Text) (d e : DataState) : Prop where
  dfile : e.dfile = d.dfile ++ (if d.dff then kept.map dotUnstuff else [])
  wrote : e.dataWrote = (d.dataWrote + lineBytes kept) % uintSize
  mdctx : e.rMdctx = digestOf conf d.dff kept d.rMdctx

/-- **The loop keeps the lines in front of the first that stops it, and says that the message is too large
    just when the limit is passed.** -/
theorem dataLines_spec (hlimit : 0 < conf.maxMessageSize) : ∀ (steps : List (DataAnswers × Text)) {d : DataState},
    d.readErr = .noError → d.systemMessage = none → d.dataWrote < uintSize → d.rMdctx.mdBytes < uintSize →
    Kept conf (fitting conf.maxMessageSize d.dataWrote (clearLines conf d.dff d.toHeadState steps)) d
        (dataLines conf steps d) ∧
      ((dataLines conf steps d).systemMessage = some sTooLarge ↔
        Exceeds conf.maxMessageSize d.dataWrote (sizedLines conf d.dff d.toHeadState steps))
  | [], d, _, hmsg, hwrote, hmd => by
    refine ⟨⟨?_, ?_, ?_⟩, ?_⟩
    · simp [dataLines, clearLines, fitting]
    · simp [dataLines, clearLines, fitting, Nat.mod_eq_of_lt hwrote]
    · exact (digestOf_nil hmd).symm
    · simp [dataLines, hmsg, sizedLines, exceeds_nil]
  | (a, line) :: rest, d, hrun, hmsg, hwrote, hmd => by
    by_cases hgo : (d.judge conf d.dff a line).1 = .clear ∧
        ¬ conf.maxMessageSize < (wroteNext d.dataWrote line.length : Int)
    · obtain ⟨hj, hfit⟩ := hgo
      obtain ⟨h₁, h₂, h₃, h₄, h₅, h₆, h₇, -⟩ := dataLine_clear hrun hj fun hc => hfit hc.2
      have hnext : (dataLine conf a line d).dataWrote < uintSize := by
        rw [h₅]
        exact Nat.mod_lt _ (by decide)
      have hbytes : (dataLine conf a line d).rMdctx.mdBytes < uintSize := by
        rw [h₇]
        split
        · exact Nat.mod_lt _ (by decide)
        · exact hmd
      obtain ⟨hkept, hexc⟩ := dataLines_spec hlimit rest h₁ (h₄.trans hmsg) hnext hbytes
      rw [h₂, h₃, h₅] at hkept hexc
      rw [clearLines_clear hj, sizedLines_clear hj, fitting, if_neg hfit, exceeds_cons]
      refine ⟨⟨?_, ?_, ?_⟩, ?_⟩
      · rw [dataLines, hkept.dfile, h₆, h₃]
        cases d.dff <;> simp
      · rw [dataLines, hkept.wrote, h₅, wroteNext_mod, lineBytes_cons]
      · rw [dataLines, hkept.mdctx, digestOf_cons, h₃, h₇]
      · rw [dataLines, hexc]
        exact ⟨.inr, fun hc => hc.resolve_left hfit⟩
    · have hstop : (d.judge conf d.dff a line).1 ≠ .clear ∨
          conf.maxMessageSize < (wroteNext d.dataWrote line.length : Int) := by
        by_contra hno
        exact hgo ⟨not_not.mp fun hc => hno (.inl hc), fun hc => hno (.inr hc)⟩
      obtain ⟨hhalt, h₁, h₂, h₃, hseen, hbig⟩ := dataLine_halt hrun hmsg (hstop.imp_right fun hc => ⟨hlimit, hc⟩)
      simp only [hlimit, true_and] at hbig
      obtain ⟨h₄, h₅, h₆, h₇⟩ := dataLines_halted conf rest hhalt hseen
      have hnil : fitting conf.maxMessageSize d.dataWrote
          (clearLines conf d.dff d.toHeadState ((a, line) :: rest)) = [] := by
        by_cases hj : (d.judge conf d.dff a line).1 = .clear
        · rw [clearLines_clear hj, fitting, if_pos (hstop.resolve_left fun hc => hc hj)]
        · rw [clearLines_stop hj, fitting]
      rw [hnil]
      refine ⟨⟨?_, ?_, ?_⟩, ?_⟩
      · simp [dataLines, h₄, h₁]
      · simp [dataLines, h₅, h₂, Nat.mod_eq_of_lt hwrote]
      · rw [dataLines, h₆, h₃, digestOf_nil hmd]
      · rw [dataLines, h₇, hbig]
        by_cases hj : (d.judge conf d.dff a line).1 = .clear
        · have hover := hstop.resolve_left fun hc => hc hj
          rw [sizedLines_clear hj, exceeds_cons]
          exact ⟨fun hc => .inl hc.1, fun _ => ⟨hover, .inl hj⟩⟩
        · rw [sizedLines_stop hj]
          by_cases hb : (d.judge conf d.dff a line).1 = .behind
          · rw [if_pos hb, exceeds_cons]
            exact ⟨fun hc => .inl hc.1, fun hc => ⟨hc.resolve_right exceeds_nil, .inr hb⟩⟩
          · rw [if_neg hb]
            exact ⟨fun hc => absurd hc.2 (not_or.mpr ⟨hj, hb⟩), fun hc => absurd hc exceeds_nil⟩

end DataState

/-! ## The accounts -/

/-- The accounts of a message are those of the text that is stored: it is too large when that text is, and
    the count and the digest are those of what is in the Dfile. -/
structure Accounted (conf : RecvConf) (lines : List Text) (md : Mdctx) (e : DataState) : Prop where
  tooLarge : e.systemMessage = some sTooLarge ↔
    conf.maxMessageSize < (lineBytes (lines.map dotUnstuff) : Int)
  wrote : e.dataWrote = lineBytes e.dfile
  digest : DataState.digests conf →
    e.rMdctx.mdData = md.mdData ++ e.dfile.flatten ∧ e.rMdctx.mdBytes = md.mdBytes + e.dfile.flatten.length

/-- The lines that a message is stored as far as. -/
def storedLines (conf : RecvConf) (dff : Bool) (steps : List (DataAnswers × Text)) : List Text :=
  fitting conf.maxMessageSize 0 (clearLines conf dff ⟨0, true, .init⟩ steps)

/-- The limit is passed by the lines as they came just when it is by the text. -/
def LimitAgrees (conf : RecvConf) (dff : Bool) (steps : List (DataAnswers × Text)) : Prop :=
  Exceeds conf.maxMessageSize 0 (sizedLines conf dff ⟨0, true, .init⟩ steps) ↔
    conf.maxMessageSize < (lineBytes (steps.map fun p => dotUnstuff p.2) : Int)

/-- No line was stuffed, and what is counted is less than an `unsigned int` can hold; without a Dfile
    nothing is counted. -/
def PlainLines (conf : RecvConf) (dff : Bool) (md : Mdctx) (lines : List Text) : Prop :=
  if dff then
    (∀ l ∈ lines, l.head? ≠ some '.') ∧ lineBytes lines < uintSize ∧
      (DataState.digests conf → md.mdBytes + lines.flatten.length < uintSize)
  else lineBytes lines % uintSize = 0

section Accounts

variable {conf : RecvConf} {dff : Bool} {md : Mdctx} {lines : List Text}

theorem dotUnstuff_dot (l : Text) : dotUnstuff ('.' :: l) = l := rfl

theorem dotUnstuff_plain {l : Text} (h : l.head? ≠ some '.') : dotUnstuff l = l := if_neg h

/-- Each stuffed line is counted as one byte more than it is stored with. -/
theorem lineBytes_unstuff (lines : List Text) :
    lineBytes lines = lineBytes (lines.map dotUnstuff) + lines.countP (fun l => l.head? = some '.') := by
  induction lines with
  | nil => rfl
  | cons l rest ih =>
    rw [List.map_cons, lineBytes_cons, lineBytes_cons, ih, List.countP_cons]
    by_cases h : l.head? = some '.'
    · obtain ⟨t, rfl⟩ : ∃ t, l = '.' :: t := by
        cases l with
        | nil => cases h
        | cons c t =>
          cases h
          exact ⟨t, rfl⟩
      simp only [dotUnstuff_dot, List.length_cons, List.head?_cons, decide_true, if_true]
      omega
    · simp only [dotUnstuff_plain h, h, decide_false, Bool.false_eq_true, if_false]
      omega

theorem countP_le_lineBytes (lines : List Text) :
    lines.countP (fun l => l.head? = some '.') ≤ lineBytes (lines.map dotUnstuff) := by
  induction lines with
  | nil => exact le_refl _
  | cons l rest ih =>
    rw [List.map_cons, lineBytes_cons, List.countP_cons]
    split <;> omega

theorem map_unstuff_plain (h : ∀ l ∈ lines, l.head? ≠ some '.') : lines.map dotUnstuff = lines := by
  induction lines with
  | nil => rfl
  | cons l rest ih =>
    rw [List.map_cons, dotUnstuff_plain (h l (by simp)), ih fun m hm => h m (by simp [hm])]

theorem flatMap_digested_plain (h : ∀ l ∈ lines, l.head? ≠ some '.') :
    lines.flatMap DataState.digested = lines.flatten := by
  induction lines with
  | nil => rfl
  | cons l rest ih =>
    have hl : DataState.digested l = l := by
      unfold DataState.digested
      rw [dotUnstuff_plain (h l (by simp)), List.take_left]
    rw [List.flatMap_cons, hl, ih fun m hm => h m (by simp [hm]), List.flatten_cons]

/-- The count is that of the text just when no line was stuffed and nothing went round. -/
theorem wrote_iff :
    lineBytes lines % uintSize = lineBytes (lines.map dotUnstuff) ↔
      (∀ l ∈ lines, l.head? ≠ some '.') ∧ lineBytes lines < uintSize := by
  have hsum := lineBytes_unstuff lines
  have hle := countP_le_lineBytes lines
  constructor
  · intro h
    have hzero : lines.countP (fun l => l.head? = some '.') = 0 ∧ lineBytes lines < uintSize := by
      simp only [uintSize] at *
      omega
    refine ⟨?_, hzero.2⟩
    intro l hl
    simpa using List.countP_eq_zero.mp hzero.1 l hl
  · rintro ⟨hplain, hlt⟩
    rw [Nat.mod_eq_of_lt hlt, map_unstuff_plain hplain]

/-- **The accounts of a message are right just when the limit is passed by the lines as they came exactly
    if it is by the text, and no line that is stored was stuffed.** -/
theorem accounts_iff (now : Int) (steps : List (DataAnswers × Text)) (hlimit : 0 < conf.maxMessageSize)
    (hmd : md.mdBytes < uintSize) :
    Accounted conf (steps.map Prod.snd) md (dataLines conf steps (dataStart dff md now)) ↔
      LimitAgrees conf dff steps ∧ PlainLines conf dff md (storedLines conf dff steps) := by
  obtain ⟨hkept, hmsg⟩ := DataState.dataLines_spec hlimit steps (d := dataStart dff md now) rfl rfl
    (by show 0 < uintSize; decide) hmd
  generalize dataLines conf steps (dataStart dff md now) = e at *
  have hlines : LimitAgrees conf dff steps ↔
      (e.systemMessage = some sTooLarge ↔
        conf.maxMessageSize < (lineBytes ((steps.map Prod.snd).map dotUnstuff) : Int)) := by
    rw [List.map_map]
    exact iff_congr hmsg.symm Iff.rfl
  have hwrote : e.dataWrote = lineBytes (storedLines conf dff steps) % uintSize := by
    rw [hkept.wrote]
    exact congrArg (· % uintSize) (Nat.zero_add _)
  have hdfile : e.dfile = if dff then (storedLines conf dff steps).map dotUnstuff else [] :=
    hkept.dfile.trans (List.nil_append _)
  have hmdctx : e.rMdctx = DataState.digestOf conf dff (storedLines conf dff steps) md := hkept.mdctx
  generalize storedLines conf dff steps = kept at *
  rw [hlines]
  cases dff with
  | false =>
    have hsame : e.rMdctx = md := hmdctx
    have hempty : e.dfile = [] := hdfile
    have hplain : PlainLines conf false md kept ↔ lineBytes kept % uintSize = 0 := Iff.rfl
    rw [hplain]
    constructor
    · intro h
      exact ⟨h.tooLarge, by simpa [hempty, hwrote] using h.wrote⟩
    · rintro ⟨hagree, hzero⟩
      refine ⟨hagree, ?_, fun _ => ?_⟩
      · simpa [hempty, hwrote] using hzero
      · simp [hempty, hsame]
  | true =>
    have hfile : e.dfile = kept.map dotUnstuff := hdfile
    have hdigest (hdig : DataState.digests conf = true) :
        e.rMdctx.mdData = md.mdData ++ kept.flatMap DataState.digested ∧
          e.rMdctx.mdBytes = (md.mdBytes + kept.flatten.length) % uintSize := by
      rw [hmdctx, DataState.digestOf, if_pos ⟨rfl, hdig⟩]
      exact ⟨rfl, rfl⟩
    constructor
    · intro h
      obtain ⟨hplain, hlt⟩ := wrote_iff.mp (hwrote.symm.trans (h.wrote.trans (by rw [hfile])))
      refine ⟨h.tooLarge, hplain, hlt, fun hdig => ?_⟩
      have hbytes := (h.digest hdig).2
      rw [(hdigest hdig).2, hfile, map_unstuff_plain hplain] at hbytes
      rw [← hbytes]
      exact Nat.mod_lt _ (by decide)
    · rintro ⟨hagree, hplain, hlt, hsmall⟩
      refine ⟨hagree, ?_, fun hdig => ?_⟩
      · rw [hwrote, hfile]
        exact wrote_iff.mpr ⟨hplain, hlt⟩
      · obtain ⟨hdata, hbytes⟩ := hdigest hdig
        rw [hdata, hbytes, hfile, map_unstuff_plain hplain, flatMap_digested_plain hplain,
          Nat.mod_eq_of_lt (hsmall hdig)]
        exact ⟨rfl, rfl⟩

/-- When nothing else stops the message, the limit goes wrong only between the text and the text with its
    stuffed dots. -/
theorem limitAgrees_iff {steps : List (DataAnswers × Text)} (hlimit : 0 < conf.maxMessageSize)
    (hall : sizedLines conf dff ⟨0, true, .init⟩ steps = steps.map Prod.snd)
    (hlt : lineBytes (steps.map Prod.snd) < uintSize) :
    let text := lineBytes (steps.map fun p => dotUnstuff p.2)
    let dots := (steps.map Prod.snd).countP (fun l => l.head? = some '.')
    LimitAgrees conf dff steps ↔ ¬ ((text : Int) ≤ conf.maxMessageSize ∧ conf.maxMessageSize < text + dots) := by
  intro text dots
  have hsum : lineBytes (steps.map Prod.snd) = text + dots := by
    rw [lineBytes_unstuff, List.map_map]
    rfl
  unfold LimitAgrees
  rw [hall, exceeds_iff_of_small hlimit hlt, hsum]
  show (conf.maxMessageSize < ((text + dots : Nat) : Int) ↔ conf.maxMessageSize < (text : Int)) ↔ _
  push_cast
  constructor
  · intro h hc
    exact absurd (h.mp hc.2) (by omega)
  · intro h
    constructor
    · intro hc
      by_contra hno
      exact h ⟨by omega, hc⟩
    · intro hc
      omega

/-- A message of one stuffed line, under a limit that its text just reaches. -/
def boundaryConf : RecvConf where
  hostname := []
  dnsConfig := true
  secondaryMx := none
  red := ⟨true, none, none⟩
  maxMessageSize := 2
  mailFilter := some []
  checksumMd := true

/-- **A message is refused for a dot that is not stored.** -/
theorem accounts_boundary :
    ¬ ∀ (conf : RecvConf) (lines : List Text) (md : Mdctx), 0 < conf.maxMessageSize → md.mdBytes < uintSize →
      Accounted conf lines md
        (dataLines conf (lines.map fun l => (DataAnswers.ok 0, l)) (dataStart true md 0)) := by
  intro h
  have hacc := (h boundaryConf ["..".toList] ⟨.ready, 0, []⟩ (by decide) (by decide)).tooLarge
  exact absurd (hacc.mp (by decide)) (by decide)

theorem accounts_iff_plain :
    (0 < boundaryConf.maxMessageSize ∧ (⟨.ready, 0, []⟩ : Mdctx).mdBytes < uintSize) ∧
      (Accounted boundaryConf (([(DataAnswers.ok 0, ['a'])] : List (DataAnswers × Text)).map Prod.snd) ⟨.ready, 0, []⟩
          (dataLines boundaryConf [(DataAnswers.ok 0, ['a'])] (dataStart true ⟨.ready, 0, []⟩ 0)) ↔
        LimitAgrees boundaryConf true [(DataAnswers.ok 0, ['a'])] ∧
          PlainLines boundaryConf true ⟨.ready, 0, []⟩ (storedLines boundaryConf true [(DataAnswers.ok 0, ['a'])])) :=
  ⟨⟨by decide, by decide⟩, accounts_iff 0 _ (by decide) (by decide)⟩

end Accounts

end Simta
