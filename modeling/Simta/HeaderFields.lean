import Simta.Data
import Simta.HeaderCorrect

/-!
# The fields of a header section

`header_text` is given one line after the other; what it makes of a field depends on all the lines of that field.

* `HeadState.lines` — the headers after the lines of a message;
* `headFields`, `midFields` — the fields that the lines make, and those with the name of a message id;
* `midLines` — what the lines of one such field leave in `r_mid`;
* `rMid_lines` — `r_mid` at the end is that of the only field, if there is only one;
* `dataLine_head` — DATA reads the headers like that.
-/

set_option autoImplicit false

namespace Simta

/-! ## The lines -/

namespace HeadState

/-- The headers before the first line. -/
def start : HeadState := ⟨0, true, .init⟩

/-- A line is counted, then it is read. -/
def next (conf : RecvConf) (h : HeadState) (line : Text) : HeadState :=
  (({ h with lineNo := h.lineNo + 1 } : HeadState).text conf (fun _ => true) line).2

/-- The headers behind the lines, when there is memory for all that is kept of them. -/
def lines (conf : RecvConf) (ls : List Text) : HeadState := ls.foldl (next conf) start

end HeadState

variable {conf : RecvConf} {lines rest : List Text} {line : Text} {h : HeadState} {r : ReceiveHeaders}

/-! ## The fields -/

/-- The fields that begin in these lines, each with its name, the body of its first line and its other lines. -/
def fieldsFrom : List Text → List (Text × List Text)
  | [] => []
  | line :: rest =>
    if folds line then fieldsFrom rest
    else
      match fieldName line with
      | some (name, body) => (name, body :: rest.takeWhile folds) :: fieldsFrom rest
      | none => []

/-- The fields of a message; there are none when its first line continues a field. -/
def headFields (lines : List Text) : List (Text × List Text) := if lines.head?.any folds then [] else fieldsFrom lines

/-- The lines of those with the name of a message id. -/
def midOnly (fields : List (Text × List Text)) : List (List Text) :=
  (fields.filter fun f => strcaseEq f.1 stringMid).map Prod.snd

/-- The Message-ID fields of a message. -/
def midFields (lines : List Text) : List (List Text) := midOnly (headFields lines)

/-- `r_mid` behind the lines of a field, when it is `mid` in front of them. -/
def midLines (mid : Option Text) : List Text → Option Text
  | [] => mid
  | line :: rest =>
    match skipCws line with
    | none => midLines mid rest
    | some start =>
      match mid, parseMid start with
      | none, some (mid, behind) => if skipCws behind = none then midLines (some mid) rest else none
      | _, _ => none

theorem fieldsFrom_fold (rest : List Text) (h : folds line = true) : fieldsFrom (line :: rest) = fieldsFrom rest := by
  rw [fieldsFrom, if_pos h]

theorem fieldsFrom_field {name body : Text} (rest : List Text) (h : folds line = false) (hfield : fieldName line = some (name, body)) :
    fieldsFrom (line :: rest) = (name, body :: rest.takeWhile folds) :: fieldsFrom rest := by
  rw [fieldsFrom, if_neg (Bool.eq_false_iff.mp h), hfield]

theorem fieldsFrom_other (rest : List Text) (h : folds line = false) (hfield : fieldName line = none) : fieldsFrom (line :: rest) = [] := by
  rw [fieldsFrom, if_neg (Bool.eq_false_iff.mp h), hfield]

theorem takeWhile_field (rest : List Text) (h : folds line = false) : (line :: rest).takeWhile folds = [] := by
  rw [List.takeWhile_cons, if_neg (Bool.eq_false_iff.mp h)]

/-! ## One line -/

/-- What a line that is no part of a message id leaves as it was. -/
structure SameMid (r r' : ReceiveHeaders) : Prop where
  rMid : r'.rMid = r.rMid
  rMidSet : r'.rMidSet = r.rMidSet
  rState : r'.rState = .read ∨ r'.rState = .seen
  seen : r'.rState = .seen → r'.rAllSeenBefore ≠ []

theorem appendSeen_spec (domain msg : Text) (hseen : r.rAllSeenBefore ≠ []) : ∃ r', appendSeen domain true r msg = some r' ∧
    r'.rMid = r.rMid ∧ r'.rMidSet = r.rMidSet ∧ r'.rState = r.rState ∧ r'.rAllSeenBefore ≠ [] := by
  have hlast : ∃ cp, r.rAllSeenBefore.getLast? = some cp := ⟨_, List.getLast?_eq_some_getLast hseen⟩
  obtain ⟨cp, hcp⟩ := hlast
  have hset : ∀ i x, r.rAllSeenBefore.set i x ≠ [] := by
    intro i x hnil
    apply hseen
    simpa using hnil
  unfold appendSeen
  rw [hcp]
  by_cases hempty : cp ≠ []
  · simp only [if_pos hempty, if_true]
    exact ⟨_, rfl, rfl, rfl, rfl, hset _ _⟩
  · simp only [if_neg hempty, if_true]
    exact ⟨_, rfl, rfl, rfl, rfl, hset _ _⟩

theorem seenText_spec (domain : Text) (fuel : Nat) : ∀ {r : ReceiveHeaders} (line : Text), r.rState = .seen →
    r.rAllSeenBefore ≠ [] → ∃ r', seenText domain fuel (fun _ => true) r line = (0, r') ∧ SameMid r r' := by
  induction fuel with
  | zero => exact fun _ hr hseen => ⟨_, rfl, rfl, rfl, .inr hr, fun _ => hseen⟩
  | succ fuel ih =>
    intro r line hr hseen
    unfold seenText
    cases skipCws line with
    | none => exact ⟨_, rfl, rfl, rfl, .inr hr, fun _ => hseen⟩
    | some start =>
      cases htoken : tokenSeen start with
      | none =>
        simp only [htoken]
        exact ⟨_, rfl, rfl, rfl, .inl rfl, (fun h => by cases h)⟩
      | some w =>
        obtain ⟨word, behind⟩ := w
        obtain ⟨r₁, hr₁, hmid, hset, hstate, hseen₁⟩ := appendSeen_spec domain word hseen
        simp only [htoken, hr₁]
        obtain ⟨r', hr', hsame⟩ := ih behind (hstate.trans hr) hseen₁
        exact ⟨r', hr', hsame.rMid.trans hmid, hsame.rMidSet.trans hset, hsame.rState, hsame.seen⟩

/-- What `mid_text` does with a line, when there is memory. -/
theorem midText_spec (r : ReceiveHeaders) (line : Text) (hstate : r.rState = .mid) : ∃ r', midText true r line = (0, r') ∧
    r'.rMidSet = r.rMidSet ∧ (r'.rState = .mid ∨ r'.rState = .read) ∧
    ∀ rest, (if r'.rState = .mid then midLines r'.rMid rest else r'.rMid) = midLines r.rMid (line :: rest) := by
  unfold midText
  cases hskip : skipCws line with
  | none =>
    refine ⟨r, rfl, rfl, .inl hstate, fun rest => ?_⟩
    rw [if_pos hstate, midLines, hskip]
  | some start =>
    cases hmid : r.rMid with
    | some mid =>
      refine ⟨_, rfl, rfl, .inr rfl, fun rest => ?_⟩
      rw [midLines, hskip]
      rfl
    | none =>
      cases hparse : parseMid start with
      | none =>
        simp only [hparse]
        refine ⟨_, rfl, rfl, .inr rfl, fun rest => ?_⟩
        rw [midLines, hskip]
        simp [hparse]
      | some p =>
        obtain ⟨mid, behind⟩ := p
        cases hbehind : skipCws behind with
        | none =>
          simp only [hparse, hbehind, if_true]
          refine ⟨_, rfl, rfl, .inl hstate, fun rest => ?_⟩
          rw [midLines, hskip]
          simp [hparse, hbehind, hstate]
        | some behind' =>
          simp only [hparse, hbehind, if_true]
          refine ⟨_, rfl, rfl, .inr rfl, fun rest => ?_⟩
          rw [midLines, hskip]
          simp [hparse, hbehind]

/-! ## All lines -/

/-- What `header_text` keeps to while it is in the headers. -/
structure InHeaders (r : ReceiveHeaders) : Prop where
  rState : r.rState ≠ .atEnd
  seen : r.rState = .seen → r.rAllSeenBefore ≠ []
  mid : r.rState = .mid → r.rMidSet = true
  rMid : r.rMidSet = false → r.rMid = none

/-- What `r_mid` will be behind the lines: they may go on with a message id and begin others. -/
def midAfter (r : ReceiveHeaders) (lines : List Text) : Option Text :=
  match midOnly (fieldsFrom lines) with
  | [] => if r.rState = .mid then midLines r.rMid (lines.takeWhile folds) else r.rMid
  | [ls] => if r.rMidSet then none else midLines none ls
  | _ => none

theorem midOnly_mid {name : Text} {ls : List Text} {fields : List (Text × List Text)} (h : strcaseEq name stringMid = true) :
    midOnly ((name, ls) :: fields) = ls :: midOnly fields := by
  simp [midOnly, h]

theorem midOnly_other {name : Text} {ls : List Text} {fields : List (Text × List Text)}
    (h : strcaseEq name stringMid = false) : midOnly ((name, ls) :: fields) = midOnly fields := by
  simp [midOnly, h]

/-- Where there is a message id already, another makes it none. -/
theorem midAfter_set (hset : r.rMidSet = true) (hstate : r.rState ≠ .mid) :
    midAfter r lines = if midOnly (fieldsFrom lines) = [] then r.rMid else none := by
  unfold midAfter
  split
  next h => rw [if_neg hstate, if_pos h]
  next h => rw [if_pos hset, if_neg (h ▸ List.cons_ne_nil _ _)]
  next h _ => rw [if_neg h]

theorem midAfter_same {r' : ReceiveHeaders} (h : SameMid r r') (hlines : midOnly (fieldsFrom lines) = midOnly (fieldsFrom rest))
    (hstate : r.rState = .mid → midLines r.rMid (lines.takeWhile folds) = r.rMid) : midAfter r' rest = midAfter r lines := by
  have hnot : r'.rState ≠ .mid := by
    cases h.rState with
    | inl hr => exact hr ▸ (fun h => by cases h)
    | inr hr => exact hr ▸ (fun h => by cases h)
  unfold midAfter
  rw [hlines, h.rMidSet, h.rMid, if_neg hnot]
  split
  · split
    next hr => exact (hstate hr).symm
    next => rfl
  · rfl
  · rfl

/-- The outcome for the first of the lines is right when no memory is missing: the headers go on, or they are over. -/
def ReadsFirst (r : ReceiveHeaders) (line : Text) (rest : List Text) (t : Int × ReceiveHeaders) : Prop :=
  (t.1 = 0 ∧ InHeaders t.2 ∧ midAfter t.2 rest = midAfter r (line :: rest)) ∨
    (t.1 = 1 ∧ t.2.rMid = midAfter r (line :: rest))

theorem SameMid.inHeaders {r' : ReceiveHeaders} (h : SameMid r r') (hr : InHeaders r) : InHeaders r' where
  rState := by
    intro hend
    rcases h.rState with hstate | hstate <;> rw [hend] at hstate <;> cases hstate
  seen := h.seen
  mid := by
    intro hmid
    rcases h.rState with hstate | hstate <;> rw [hmid] at hstate <;> cases hstate
  rMid := by
    intro hset
    rw [h.rMid]
    exact hr.rMid (h.rMidSet ▸ hset)

/-- A line of a message id, as it continues `lines`. -/
theorem midText_reads {r₁ : ReceiveHeaders} {body : Text} (hstate : r₁.rState = .mid) (hset : r₁.rMidSet = true)
    (hlines : midOnly (fieldsFrom rest) = [] → midLines r₁.rMid (body :: rest.takeWhile folds) = midAfter r (line :: rest))
    (hmore : midOnly (fieldsFrom rest) ≠ [] → midAfter r (line :: rest) = none) :
    ReadsFirst r line rest (midText true r₁ body) := by
  obtain ⟨r', hrun, hset', hstate', hmid⟩ := midText_spec r₁ body hstate
  rw [hrun]
  refine .inl ⟨rfl, ⟨?_, ?_, ?_, ?_⟩, ?_⟩
  · intro hend
    rcases hstate' with hs | hs <;> rw [hend] at hs <;> cases hs
  · intro hseen
    rcases hstate' with hs | hs <;> rw [hseen] at hs <;> cases hs
  · exact fun _ => hset'.trans hset
  · intro hfalse
    rw [hset', hset] at hfalse
    cases hfalse
  · unfold midAfter
    split
    next hnone => exact (hmid _).trans (hlines hnone)
    next hone =>
      rw [if_pos (hset'.trans hset)]
      exact (hmore (hone ▸ List.cons_ne_nil _ _)).symm
    next hnil _ => exact (hmore hnil).symm

/-- A line that continues a field. -/
theorem headerFold_reads {domain : Text} (h : InHeaders r) (hfold : folds line = true) :
    ReadsFirst r line rest (match r.rState with
      | .mid => midText true r line
      | .seen => seenText domain (line.length + 1) (fun _ => true) r line
      | _ => (0, r)) := by
  have hfields := fieldsFrom_fold rest hfold
  have htake : (line :: rest).takeWhile folds = line :: rest.takeWhile folds := by
    rw [List.takeWhile_cons, if_pos hfold]
  cases hstate : r.rState with
  | atEnd => exact absurd hstate h.rState
  | read =>
    refine .inl ⟨rfl, h, ?_⟩
    unfold midAfter
    rw [hfields, hstate]
    rfl
  | seen =>
    obtain ⟨r', hrun, hsame⟩ := seenText_spec domain (line.length + 1) line hstate (h.seen hstate)
    refine .inl ⟨congrArg Prod.fst hrun, ?_⟩
    rw [congrArg Prod.snd hrun]
    refine ⟨hsame.inHeaders h, midAfter_same hsame (by rw [hfields]) ?_⟩
    rw [hstate]
    exact fun h => by cases h
  | mid =>
    apply midText_reads hstate (h.mid hstate)
    · intro hnone
      unfold midAfter
      rw [hfields, hnone, htake]
      simp only [hstate, if_true]
    · intro hmore
      unfold midAfter
      rw [hfields, h.mid hstate]
      split
      next hnone => exact absurd hnone hmore
      next => rfl
      next => rfl

/-- A line that begins a field. -/
theorem headerField_reads {domain name body : Text} (h : InHeaders r) (hfold : folds line = false)
    (hfield : fieldName line = some (name, body)) :
    ReadsFirst r line rest (headerField domain (fun _ => true) { r with rState := .read } name body) := by
  have hfields := fieldsFrom_field rest hfold hfield
  have htake := takeWhile_field rest hfold
  have hother : ∀ r', SameMid r r' → strcaseEq name stringMid = false →
      midAfter r' rest = midAfter r (line :: rest) := by
    intro r' hsame hname
    apply midAfter_same hsame
    · rw [hfields, midOnly_other hname]
    · intro _
      rw [htake]
      rfl
  unfold headerField
  by_cases hname : strcaseEq name stringMid = true
  · rw [if_pos hname]
    cases hset : r.rMidSet with
    | true =>
      rw [if_pos rfl]
      refine .inl ⟨rfl, ⟨(fun h => by cases h), (fun h => by cases h), (fun h => by cases h), fun _ => rfl⟩, ?_⟩
      have hnone : midAfter { r with rState := .read, rMidSet := true, rMid := none } rest = none := by
        rw [midAfter_set rfl (fun h => by cases h)]
        exact ite_self _
      refine hnone.trans ?_
      unfold midAfter
      rw [hfields, midOnly_mid hname]
      split
      next hnil => cases hnil
      next => rw [if_pos hset]
      next => rfl
    | false =>
      rw [if_neg Bool.false_ne_true]
      apply midText_reads rfl rfl
      · intro hnone
        unfold midAfter
        rw [hfields, midOnly_mid hname, hnone]
        dsimp only
        rw [hset, if_neg Bool.false_ne_true, h.rMid hset]
      · intro hmore
        unfold midAfter
        rw [hfields, midOnly_mid hname]
        split
        next hnil => cases hnil
        next ls hone =>
          injection hone with _ hnil
          exact absurd hnil hmore
        next => rfl
  · have hname := Bool.eq_false_iff.mpr hname
    rw [if_neg (Bool.eq_false_iff.mp hname)]
    split
    next =>
      have hsame : SameMid r { r with rState := .read, rReceivedCount := r.rReceivedCount + 1 } :=
        ⟨rfl, rfl, .inl rfl, (fun h => by cases h)⟩
      exact .inl ⟨rfl, hsame.inHeaders h, hother _ hsame hname⟩
    next =>
      split
      next =>
        have hseen : (makeMoreSeen true { r with rState := .seen }).rAllSeenBefore ≠ [] :=
          List.append_ne_nil_of_right_ne_nil _ (List.cons_ne_nil _ _)
        obtain ⟨r', hrun, hsame⟩ := seenText_spec domain (body.length + 1) body rfl hseen
        have hsame : SameMid r r' := ⟨hsame.rMid, hsame.rMidSet, hsame.rState, hsame.seen⟩
        rw [hrun]
        exact .inl ⟨rfl, hsame.inHeaders h, hother _ hsame hname⟩
      next =>
        have hsame : SameMid r { r with rState := .read } := ⟨rfl, rfl, .inl rfl, (fun h => by cases h)⟩
        exact .inl ⟨rfl, hsame.inHeaders h, hother _ hsame hname⟩

/-- Behind the headers nothing is read. -/
theorem midAfter_over (hfields : fieldsFrom (line :: rest) = []) (hfold : folds line = false) :
    midAfter r (line :: rest) = r.rMid := by
  unfold midAfter
  rw [hfields, takeWhile_field rest hfold]
  exact ite_self _

/-- **One line of the headers.** -/
theorem headerText_reads (domain : Text) {lineNo : Nat} (rest : List Text) (h : InHeaders r) (hfold : folds line = true → lineNo ≠ 1) :
    ReadsFirst r line rest (headerText domain (fun _ => true) lineNo line r) := by
  unfold headerText
  by_cases hempty : line = []
  · subst hempty
    rw [if_pos (.inl rfl)]
    have hover : midAfter r ([] :: rest) = r.rMid := midAfter_over rfl rfl
    exact .inr ⟨rfl, hover.symm⟩
  · rw [if_neg (fun hor => hor.elim hempty h.rState)]
    by_cases hws : line.head? = some ' ' ∨ line.head? = some '\t'
    · have hline : folds line = true := by simpa [folds] using hws
      rw [if_pos hws, if_neg (hfold hline)]
      exact headerFold_reads h hline
    · have hline : folds line = false := by simpa [folds, not_or] using hws
      rw [if_neg hws]
      cases hfield : fieldName line with
      | some f => exact headerField_reads h hline hfield
      | none =>
        have hover : midAfter r (line :: rest) = r.rMid := midAfter_over (fieldsFrom_other rest hline hfield) hline
        exact .inr ⟨rfl, hover.symm⟩

theorem HeadState.finished (ls : List Text) : ∀ {h : HeadState}, h.header = false →
    (ls.foldl (HeadState.next conf) h).rh = h.rh := by
  induction ls with
  | nil => exact fun _ => rfl
  | cons line ls ih =>
    intro h hover
    have hnext : HeadState.next conf h line = { h with lineNo := h.lineNo + 1 } := by
      unfold HeadState.next HeadState.text
      rw [if_neg (by simp [hover])]
    rw [List.foldl_cons, hnext, ih (h := { h with lineNo := h.lineNo + 1 }) hover]

/-- A first line that continues a field ends the headers. -/
theorem HeadState.lines_folds (h : lines.head?.any folds = true) :
    (HeadState.lines conf lines).rh = { ReceiveHeaders.init with rState := .atEnd } := by
  cases lines with
  | nil => cases h
  | cons line rest =>
    have hfold : folds line = true := h
    have hws : line.head? = some ' ' ∨ line.head? = some '\t' := by simpa [folds] using hfold
    have hempty : line ≠ [] := by
      rintro rfl
      cases hfold
    have hnext : HeadState.next conf .start line = ⟨1, false, { ReceiveHeaders.init with rState := .atEnd }⟩ := by
      unfold HeadState.next HeadState.text headerText
      simp [HeadState.start, hempty, hws, ReceiveHeaders.init]
    unfold HeadState.lines
    rw [List.foldl_cons, hnext, HeadState.finished rest rfl]

theorem HeadState.run (conf : RecvConf) (ls : List Text) : ∀ {h : HeadState}, h.header = true → InHeaders h.rh →
    (h.lineNo = 0 → ls.head?.any folds = false) → (ls.foldl (HeadState.next conf) h).rh.rMid = midAfter h.rh ls := by
  induction ls with
  | nil =>
    intro h _ _ _
    exact (ite_self _).symm
  | cons line ls ih =>
    intro h hheader hin hfirst
    have hlater : folds line = true → h.lineNo + 1 ≠ 1 := by
      intro hfold hone
      have hnot := hfirst (Nat.succ.inj hone)
      simp [hfold] at hnot
    have hread := headerText_reads conf.seenBeforeDomain ls hin hlater
    have hnext : HeadState.next conf h line = ⟨h.lineNo + 1,
        decide ((headerText conf.seenBeforeDomain (fun _ => true) (h.lineNo + 1) line h.rh).1 ≤ 0),
        (headerText conf.seenBeforeDomain (fun _ => true) (h.lineNo + 1) line h.rh).2⟩ := by
      unfold HeadState.next HeadState.text
      rw [if_pos hheader]
    rw [List.foldl_cons, hnext]
    rcases hread with ⟨hzero, hin', hafter⟩ | ⟨hone, hmid⟩
    · rw [ih (by rw [hzero]; rfl) hin' (fun h => by cases h)]
      exact hafter
    · rw [HeadState.finished ls (by rw [hone]; rfl)]
      exact hmid

/-- **`r_mid` behind the headers** is what the lines of the only Message-ID field leave there. -/
theorem rMid_lines (conf : RecvConf) (lines : List Text) : (HeadState.lines conf lines).rh.rMid =
    match midFields lines with
    | [ls] => midLines none ls
    | _ => none := by
  have hin : InHeaders .init := ⟨(fun h => by cases h), (fun h => by cases h), (fun h => by cases h), fun _ => rfl⟩
  unfold midFields headFields
  cases hfirst : lines.head?.any folds with
  | false =>
    have hrun := HeadState.run conf lines (h := HeadState.start) rfl hin (fun _ => hfirst)
    rw [if_neg Bool.false_ne_true]
    refine hrun.trans ?_
    unfold midAfter
    split
    next hnil => rw [hnil]; rfl
    next hone => rw [hone]; rfl
    next hnil hone =>
      split
      next hls => exact absurd hls (hone _)
      next => rfl
  | true =>
    rw [HeadState.lines_folds hfirst]
    rfl

/-! ## DATA -/

/-- A line of DATA for which all calls succeed. -/
theorem dataLine_head (now : Int) (d : DataState) (h : d.readErr = .noError) :
    (dataLine conf (.ok now) line d).toHeadState = HeadState.next conf d.toHeadState (dotUnstuff line) := by
  have hread : ((((d.clock (some now)).counted line).readHeader conf (fun _ => true) (dotUnstuff line))).toHeadState =
      HeadState.next conf d.toHeadState (dotUnstuff line) := by
    unfold DataState.readHeader
    rw [if_pos (show ((d.clock (some now)).counted line).readErr = .noError from h)]
    rfl
  have hsize : ∀ (n : Nat) (d : DataState), (d.checkSize conf n).toHeadState = d.toHeadState := by
    intro n d
    unfold DataState.checkSize
    split <;> rfl
  have hreceived : ∀ d : DataState, (d.checkReceived conf).toHeadState = d.toHeadState := by
    intro d
    unfold DataState.checkReceived
    split <;> rfl
  have hseen : ∀ (dup : Bool) (d : DataState), (d.checkSeen dup).toHeadState = d.toHeadState := by
    intro dup d
    unfold DataState.checkSeen
    split <;> rfl
  have hstore : ∀ (printed : Bool) (text : Text) (n : Nat) (d : DataState),
      (d.store printed text n).toHeadState = d.toHeadState := by
    intro printed text n d
    unfold DataState.store
    split
    · split <;> rfl
    · rfl
  have hclose : ∀ (closed unlinked : Bool) (d : DataState), (d.closeDfile closed unlinked).toHeadState = d.toHeadState := by
    intro closed unlinked d
    unfold DataState.closeDfile
    split <;> rfl
  have hdigest : ∀ (text : Text) (n : Nat) (d : DataState), (d.digest conf text n).toHeadState = d.toHeadState := by
    intro text n d
    unfold DataState.digest
    split <;> rfl
  unfold dataLine
  simp only [hdigest, hclose, hstore, hseen, hreceived, hsize]
  exact hread

end Simta
