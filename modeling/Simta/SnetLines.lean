import Simta.SnetStream

/-!
# The lines of a connection

What a sequence of calls of `snet_getline` returns for the bytes that come in, however `read` cuts them and wherever it
times out in between.

* `Arrival`, `receive` — what the descriptor has to give, and one `read` of it;
* `cutLines` — the lines of a stream;
* `getlineLoop_outcome` — what one call returns and leaves;
* `getlines_cutLines` — what any number of calls return.
-/

set_option autoImplicit false

namespace Simta

/-- Bytes that come in together, or a `read` that fails. -/
inductive Arrival
  | data (c : Char) (rest : Text)
  | error (timedOut : Bool)
  deriving DecidableEq, Repr

/-- The bytes of an arrival. -/
def Arrival.bytes : Arrival → Text
  | .data c rest => c :: rest
  | .error _ => []

/-- The whole stream. -/
def arrived (A : List Arrival) : Text := A.flatMap Arrival.bytes

/-- How often `read` is to fail. -/
def faultsAhead (A : List Arrival) : Nat := A.countP (· matches .error _)

/-- What is left of an arrival. -/
def leftOver (bytes : Text) (A : List Arrival) : List Arrival :=
  match bytes with
  | [] => A
  | c :: rest => .data c rest :: A

/-- `read` of at most `len` bytes; at the end it gives 0 for ever. -/
def receive (len : Nat) : StateM (List Arrival) ReadResult := fun A =>
  match A with
  | [] => (.eof, [])
  | .error timedOut :: A => (.error timedOut, A)
  | .data c rest :: A => (.data ((c :: rest).take len), leftOver ((c :: rest).drop len) A)

/-- Calls of `snet_getline`, one after the other. -/
def getlines {m : Type → Type} [Monad m] (read : Nat → m ReadResult) : Nat → Snet → m (List GetLine × Snet)
  | 0, sn => return ([], sn)
  | k + 1, sn => do
    let (g, sn) ← sn.getline read
    let (gs, sn) ← getlines read k sn
    return (g :: gs, sn)

/-- The lines of a stream: each up to its end, and the rest when it has no end.  An end for which `pair` holds takes the LF
    behind it along. -/
def cutLines (pair : Char → Bool) : Text → List Text
  | [] => []
  | [c] => if Snet.isLineEnd c then [[]] else [[c]]
  | c :: d :: s =>
    if Snet.isLineEnd c then [] :: (if pair c && d == '\n' then cutLines pair s else cutLines pair (d :: s))
    else
      match cutLines pair (d :: s) with
      | [] => [[c]]
      | l :: ls => (c :: l) :: ls

/-- CR LF is one end. -/
def crPair (c : Char) : Bool := c == '\r'

/-- CR LF and NUL LF are one end each. -/
def fuzzyPair (c : Char) : Bool := c == '\r' || c == '\x00'

/-- The last line of a stream has an end. -/
def Terminated (s : Text) : Prop := ∀ c ∈ s.getLast?, Snet.isLineEnd c = true

/-- A call that failed. -/
def GetLine.isFault (g : GetLine) : Bool := g matches .error _

/-- The text of a line. -/
def GetLine.text? : GetLine → Option Text
  | .line l => some l
  | _ => none

/-- Answers are lines, in order, and then `NULL`, but for calls that failed. -/
inductive AnswersAre : List Text → List GetLine → Prop
  | nil (ls : List Text) : AnswersAre ls []
  | fault {ls : List Text} {gs : List GetLine} (timedOut : Bool) (h : AnswersAre ls gs) :
      AnswersAre ls (.error timedOut :: gs)
  | line {ls : List Text} {gs : List GetLine} (l : Text) (h : AnswersAre ls gs) : AnswersAre (l :: ls) (.line l :: gs)
  | eof {gs : List GetLine} (h : AnswersAre [] gs) : AnswersAre [] (.eof :: gs)

/-! ## One read -/

theorem arrived_leftOver (bytes : Text) (A : List Arrival) : arrived (leftOver bytes A) = bytes ++ arrived A := by
  cases bytes <;> rfl

theorem faultsAhead_leftOver (bytes : Text) (A : List Arrival) : faultsAhead (leftOver bytes A) = faultsAhead A := by
  cases bytes <;> simp [leftOver, faultsAhead]

/-- What a `read` gives. -/
theorem receive_cases {len : Nat} (hlen : 0 < len) (A : List Arrival) :
    (A = [] ∧ receive len A = (.eof, [])) ∨
    (∃ timedOut A', receive len A = (.error timedOut, A') ∧ arrived A' = arrived A ∧ faultsAhead A' < faultsAhead A) ∨
    (∃ bytes A', receive len A = (.data bytes, A') ∧ bytes ≠ [] ∧ bytes.length ≤ len ∧ arrived A = bytes ++ arrived A' ∧
      faultsAhead A' = faultsAhead A) := by
  cases A with
  | nil => exact .inl ⟨rfl, rfl⟩
  | cons a A =>
    cases a with
    | error timedOut =>
      refine .inr (.inl ⟨timedOut, A, rfl, rfl, ?_⟩)
      simp [faultsAhead]
    | data c rest =>
      refine .inr (.inr ⟨_, _, rfl, ?_, List.length_take_le _ _, ?_, ?_⟩)
      · cases len with
        | zero => exact absurd hlen (Nat.lt_irrefl 0)
        | succ len => simp
      · rw [arrived_leftOver, ← List.append_assoc, List.take_append_drop]
        rfl
      · rw [faultsAhead_leftOver]
        simp [faultsAhead]

/-! ## One call -/

namespace Snet

/-- A buffer within its bounds, as any call leaves it that has not returned a last line without an end. -/
structure Kept (max : Nat) (sn : Snet) : Prop where
  sound : sn.Sound
  clean : sn.snBad = false
  maxlen : sn.snMaxlen = max

/-- What a call returns and leaves, with `s` ahead and `f` failures to come. -/
inductive Outcome (max : Nat) (s : Text) (f : Nat) : (GetLine × Snet) × List Arrival → Prop
  | fault {sn : Snet} {A : List Arrival} (timedOut : Bool) (kept : sn.Kept max) (ahead : sn.ahead (arrived A) = s)
      (less : faultsAhead A < f) : Outcome max s f ((.error timedOut, sn), A)
  | line {sn : Snet} {A : List Arrival} {l rest : Text} {c : Char} (cut : takeLine s = some (l, c, rest))
      (kept : sn.Kept max) (ahead : sn.ahead (arrived A) = afterEnd c rest) (same : faultsAhead A = f) :
      Outcome max s f ((.line l, sn), A)
  | last {sn : Snet} (cut : takeLine s = none) (some : s ≠ []) (empty : sn.snBuf = []) :
      Outcome max s f ((.line s, sn), [])
  | ended {sn : Snet} (none : s = []) (kept : sn.Kept max) (empty : sn.snBuf = []) : Outcome max s f ((.eof, sn), [])

/-- The part of a stream in front of its first end of a line. -/
def front (s : Text) : Text := s.takeWhile (!isLineEnd ·)

theorem takeLine_eq_none {buf : Text} (h : takeLine buf = none) : ∀ x ∈ buf, isLineEnd x = false := by
  unfold takeLine at h
  split at h
  · rename_i hnil
    rw [List.dropWhile_eq_nil_iff] at hnil
    simpa using hnil
  · cases h

theorem takeLine_eq_some {buf l tail : Text} {c : Char} (h : takeLine buf = some (l, c, tail)) :
    buf = l ++ c :: tail ∧ isLineEnd c = true ∧ ∀ x ∈ l, isLineEnd x = false := by
  unfold takeLine at h
  split at h
  · cases h
  · rename_i d rest hdrop
    obtain ⟨rfl, rfl, rfl⟩ : List.takeWhile (!isLineEnd ·) buf = l ∧ d = c ∧ rest = tail := by simpa using h
    refine ⟨?_, ?_, ?_⟩
    · rw [← hdrop, List.takeWhile_append_dropWhile]
    · have hhead := List.head?_dropWhile_not (!isLineEnd ·) buf
      rw [hdrop] at hhead
      simpa using hhead
    · intro x hx
      simpa using List.mem_takeWhile_imp hx

/-- Ends that the buffer does not hold are ahead of it. -/
theorem length_le_front {buf more : Text} (h : ∀ x ∈ buf, isLineEnd x = false) : buf.length ≤ (front (buf ++ more)).length := by
  unfold front
  rw [List.takeWhile_append_of_pos (by simpa using h), List.length_append]
  omega

/-- The state of a part of a line, and what lies ahead of it. -/
theorem scanned_ahead {sn : Snet} (h : sn.Sound) (hnone : takeLine sn.dropFuzzy.snBuf = none) (more : Text) :
    let st := if sn.dropFuzzy.snBuf.isEmpty then sn.dropFuzzy.snRstate else .inLine
    afterState st (sn.dropFuzzy.snBuf ++ more) = sn.ahead more ∧
      skipped st (sn.dropFuzzy.snBuf ++ more) ≤ sn.dropFuzzy.toSkip more ∧
      sn.dropFuzzy.snBuf.length ≤ (front (sn.ahead more)).length := by
  obtain ⟨-, -, hsame, -, hplain⟩ := dropFuzzy_spec h more
  by_cases hbuf : sn.dropFuzzy.snBuf = []
  · rw [← hsame]
    unfold ahead toSkip
    simp [hbuf]
  · have hin : (if sn.dropFuzzy.snBuf.isEmpty then sn.dropFuzzy.snRstate else SnetState.inLine) = .inLine :=
      if_neg (by simpa using hbuf)
    rw [hin, ← hsame, hplain hbuf]
    refine ⟨rfl, ?_, length_le_front (takeLine_eq_none hnone)⟩
    unfold skipped
    rw [afterState_of_ne (by simp)]
    omega

/-- What a turn of the loop leaves that reads on. -/
structure ReadsOn (max : Nat) (sn : Snet) (A : List Arrival) (sn' : Snet) (A' : List Arrival) : Prop where
  kept : sn'.Kept max
  ahead : sn'.ahead (arrived A') = sn.ahead (arrived A)
  faults : faultsAhead A' = faultsAhead A
  more : sn.dropFuzzy.snBuf.length < sn'.snBuf.length
  skips : sn'.toSkip (arrived A') ≤ sn.dropFuzzy.toSkip (arrived A)
  front : sn.dropFuzzy.snBuf.length ≤ (Simta.Snet.front (sn.ahead (arrived A))).length

/-- What a turn makes of what it read. -/
def takeRead (n : Nat) (sn : Snet) (A : List Arrival) : ReadResult → (GetLine × Snet) × List Arrival
  | .data bytes => if bytes = [] then ((.eof, sn), A) else getlineLoop receive n (sn.store bytes) A
  | .error timedOut => ((.error timedOut, sn), A)
  | .eof => if sn.snBuf = [] then ((.eof, sn), A) else ((.line sn.snBuf, { sn with snBuf := [], snOver := true }), A)

/-- A turn that finds no end in the buffer. -/
theorem getlineLoop_reads_on {sn sn' : Snet} {A A' : List Arrival} {a : ReadResult} (n : Nat)
    (htake : takeLine sn.dropFuzzy.snBuf = none) (hexp : sn.dropFuzzy.scanned.expand = some sn')
    (hread : receive (sn'.snRbuflen - sn'.snBuf.length) A = (a, A')) :
    getlineLoop receive (n + 1) sn A = takeRead n sn' A' a := by
  simp only [getlineLoop, htake, hexp, bind, StateT.bind]
  rw [hread]
  cases a with
  | data bytes =>
    by_cases h : bytes = []
    · simp [takeRead, h]
      rfl
    · simp [takeRead, h]
  | error timedOut => rfl
  | eof =>
    by_cases h : sn'.snBuf = []
    · simp [takeRead, h]
      rfl
    · simp [takeRead, h]
      rfl

/-- One turn: it returns, or reads on. -/
theorem getlineLoop_turn {max : Nat} {sn : Snet} {A : List Arrival} (hkept : sn.Kept max)
    (hfront : (front (sn.ahead (arrived A))).length < max) (n : Nat) :
    Outcome max (sn.ahead (arrived A)) (faultsAhead A) (getlineLoop receive (n + 1) sn A) ∨
    ∃ sn' A', ReadsOn max sn A sn' A' ∧ getlineLoop receive (n + 1) sn A = getlineLoop receive n sn' A' := by
  obtain ⟨hdrop, hmax, hsame, -, hplain⟩ := dropFuzzy_spec hkept.sound (arrived A)
  have hclean : sn.dropFuzzy.snBad = false := by
    obtain ⟨rest, -, -, h⟩ | ⟨-, h⟩ := dropFuzzy_cases sn
    · rw [h]
      exact hkept.clean
    · rw [h]
      exact hkept.clean
  cases htake : takeLine sn.dropFuzzy.snBuf with
  | some found =>
    obtain ⟨l, c, tail⟩ := found
    obtain ⟨hbuf, hc, hl⟩ := takeLine_eq_some htake
    left
    have hcall : getlineLoop receive (n + 1) sn A =
        ((.line l, { sn.dropFuzzy with snBuf := tail, snRstate := if c = '\n' then .bol else .fuzzy }), A) := by
      simp only [getlineLoop, htake]
      rfl
    have hahead : sn.ahead (arrived A) = l ++ c :: (tail ++ arrived A) := by
      rw [← hsame, hplain (by simp [hbuf]), hbuf, List.append_assoc]
      rfl
    rw [hcall]
    apply Outcome.line (c := c)
    · rw [hahead]
      exact takeLine_some hc hl
    · refine ⟨⟨hdrop.started, ?_⟩, hclean, hmax.trans hkept.maxlen⟩
      have hroom := hdrop.room
      rw [hbuf, List.length_append, List.length_cons] at hroom
      show tail.length ≤ sn.dropFuzzy.snRbuflen
      omega
    · rfl
    · rfl
  | none =>
    obtain ⟨hscan, hskip, hpart⟩ := scanned_ahead hkept.sound htake (arrived A)
    have hsound : sn.dropFuzzy.scanned.Sound := ⟨hdrop.started, hdrop.room⟩
    have hlimit : sn.dropFuzzy.scanned.snBuf.length < sn.dropFuzzy.scanned.snMaxlen := by
      show sn.dropFuzzy.snBuf.length < sn.dropFuzzy.snMaxlen
      rw [hmax, hkept.maxlen]
      omega
    obtain ⟨len, hexp, hroom⟩ := expand_some hsound hlimit
    have hkept' : ({ sn.dropFuzzy.scanned with snRbuflen := len } : Snet).Kept max :=
      ⟨⟨hdrop.started, Nat.le_of_lt hroom⟩, hclean, hmax.trans hkept.maxlen⟩
    have hspare : 0 < len - sn.dropFuzzy.scanned.snBuf.length := by omega
    obtain ⟨rfl, hread⟩ | ⟨timedOut, A', hread, hbytes, hless⟩ | ⟨bytes, A', hread, hne, hfit, hbytes, hfaults⟩ :=
      receive_cases hspare A
    · left
      have hcall := getlineLoop_reads_on n htake hexp hread
      have hall : sn.ahead (arrived []) = sn.dropFuzzy.snBuf := by
        by_cases hbuf : sn.dropFuzzy.snBuf = []
        · rw [← hsame]
          unfold ahead
          rw [hbuf]
          cases sn.dropFuzzy.snRstate <;> rfl
        · rw [← hsame, hplain hbuf]
          exact List.append_nil _
      by_cases hbuf : sn.dropFuzzy.snBuf = []
      · rw [hcall.trans (if_pos hbuf)]
        exact .ended (hall.trans hbuf) hkept' hbuf
      · rw [hcall.trans (if_neg hbuf)]
        rw [hall]
        exact .last htake hbuf rfl
    · left
      rw [getlineLoop_reads_on n htake hexp hread]
      refine .fault timedOut hkept' ?_ hless
      rw [hbytes]
      exact hscan
    · right
      have hstore : ({ sn.dropFuzzy.scanned with snRbuflen := len } : Snet).store bytes =
          { sn.dropFuzzy.scanned with snRbuflen := len, snBuf := sn.dropFuzzy.snBuf ++ bytes } := by
        unfold store
        exact if_neg (by simp [scanned, hdrop.started])
      have hstream : sn.dropFuzzy.snBuf ++ bytes ++ arrived A' = sn.dropFuzzy.snBuf ++ arrived A := by
        rw [List.append_assoc, ← hbytes]
      refine ⟨_, A', ?_, (getlineLoop_reads_on n htake hexp hread).trans ((if_neg hne).trans (by rw [hstore]))⟩
      refine ⟨⟨⟨hdrop.started, ?_⟩, hclean, hmax.trans hkept.maxlen⟩, ?_, hfaults, ?_, ?_, hpart⟩
      · show (sn.dropFuzzy.snBuf ++ bytes).length ≤ len
        have hsame : sn.dropFuzzy.scanned.snBuf.length = sn.dropFuzzy.snBuf.length := rfl
        rw [List.length_append]
        omega
      · unfold ahead
        show afterState _ (sn.dropFuzzy.snBuf ++ bytes ++ arrived A') = _
        rw [hstream]
        exact hscan
      · show sn.dropFuzzy.snBuf.length < (sn.dropFuzzy.snBuf ++ bytes).length
        have hpos : 0 < bytes.length := List.length_pos_iff.mpr hne
        rw [List.length_append]
        omega
      · unfold toSkip
        show skipped _ (sn.dropFuzzy.snBuf ++ bytes ++ arrived A') ≤ _
        rw [hstream]
        exact hskip

/-- **One call**, however the bytes come in. -/
theorem getlineLoop_outcome {max : Nat} (n : Nat) : ∀ (sn : Snet) (A : List Arrival), sn.Kept max →
    (front (sn.ahead (arrived A))).length < max →
    sn.toSkip (arrived A) + (front (sn.ahead (arrived A))).length + 1 ≤ n + sn.snBuf.length →
    Outcome max (sn.ahead (arrived A)) (faultsAhead A) (getlineLoop receive (n + 1) sn A) := by
  induction n with
  | zero =>
    intro sn A hkept hfront hfuel
    obtain ⟨-, -, -, hskip, -⟩ := dropFuzzy_spec hkept.sound (arrived A)
    obtain h | ⟨sn', A', hon, -⟩ := getlineLoop_turn hkept hfront 0
    · exact h
    · have hpart := hon.front
      omega
  | succ n ih =>
    intro sn A hkept hfront hfuel
    obtain ⟨-, -, -, hskip, -⟩ := dropFuzzy_spec hkept.sound (arrived A)
    obtain h | ⟨sn', A', hon, hcall⟩ := getlineLoop_turn hkept hfront (n + 1)
    · exact h
    · have hpart := hon.front
      have hmore := hon.more
      have hskips := hon.skips
      have hnext := ih sn' A' hon.kept (by rwa [hon.ahead]) (by rw [hon.ahead]; omega)
      rw [hon.ahead, hon.faults] at hnext
      rw [hcall]
      exact hnext

theorem getline_outcome {max : Nat} {sn : Snet} {A : List Arrival} (hkept : sn.Kept max)
    (hfront : (front (sn.ahead (arrived A))).length < max) :
    Outcome max (sn.ahead (arrived A)) (faultsAhead A) (sn.getline receive A) := by
  unfold getline
  apply getlineLoop_outcome _ sn A hkept hfront
  have hskip : sn.toSkip (arrived A) ≤ 1 := skipped_le _ _
  rw [hkept.maxlen]
  unfold snetBuflen
  omega

/-- Behind the last line there is no other. -/
theorem getline_done {sn : Snet} (h : sn.snBuf = []) :
    ∃ sn', sn.getline receive [] = ((.eof, sn'), []) ∧ sn'.snBuf = [] := by
  have hdrop : sn.dropFuzzy = sn := by
    obtain ⟨rest, -, hcons, -⟩ | ⟨-, hdrop⟩ := dropFuzzy_cases sn
    · rw [h] at hcons
      cases hcons
    · exact hdrop
  have hexp : ∃ sn', sn.dropFuzzy.scanned.expand = some sn' ∧ sn'.snBuf = [] := by
    rw [hdrop]
    unfold expand
    split
    · rename_i hfull
      have hzero : sn.snRbuflen = 0 := by
        rw [← show sn.scanned.snRbuflen = sn.snRbuflen from rfl, ← hfull]
        exact List.length_eq_zero_iff.mpr h
      rw [if_neg]
      · exact ⟨_, rfl, h⟩
      · rintro ⟨hmax, hle⟩
        exact hmax (Nat.le_zero.mp (hzero ▸ hle))
    · exact ⟨_, rfl, h⟩
  obtain ⟨sn', hexp, hempty⟩ := hexp
  have htake : takeLine sn.dropFuzzy.snBuf = none := takeLine_none (by simp [hdrop, h])
  have hread : receive (sn'.snRbuflen - sn'.snBuf.length) [] = (.eof, []) := rfl
  exact ⟨sn', (getlineLoop_reads_on _ htake hexp hread).trans (if_pos hempty), hempty⟩

end Snet

/-! ## The lines of a stream -/

section Cut

variable {c : Char}

/-- What stands behind an end of a line. -/
theorem cutLines_end (h : Snet.isLineEnd c = true) (s : Text) :
    cutLines fuzzyPair (c :: s) = [] :: cutLines fuzzyPair (Snet.afterEnd c s) := by
  have hpair : fuzzyPair c = !(c == '\n') := by
    unfold Snet.isLineEnd at h
    unfold fuzzyPair
    simp only [decide_eq_true_eq, Bool.or_eq_true] at h
    obtain (rfl | rfl) | rfl := h <;> decide
  cases s with
  | nil =>
    have hnil : Snet.afterEnd c [] = [] := by
      unfold Snet.afterEnd
      by_cases hc : c = '\n' <;> simp [hc, Snet.afterState]
    rw [hnil]
    simp [cutLines, h]
  | cons d s =>
    rw [cutLines, if_pos h, hpair]
    congr 1
    by_cases hc : c = '\n'
    · simp [hc, Snet.afterEnd, Snet.afterState]
    · by_cases hd : d = '\n'
      · simp [hc, hd, Snet.afterEnd, Snet.afterState]
      · have hstay : Snet.afterState .fuzzy (d :: s) = d :: s := Snet.afterState_fuzzy (by simpa using hd)
        simp [hc, hd, Snet.afterEnd, hstay]

theorem cutLines_cons (h : Snet.isLineEnd c = false) {s l : Text} {ls : List Text} (hs : cutLines fuzzyPair s = l :: ls) :
    cutLines fuzzyPair (c :: s) = (c :: l) :: ls := by
  cases s with
  | nil => cases hs
  | cons d s =>
    rw [cutLines, if_neg (by simp [h]), hs]

/-- The first line, when it has an end. -/
theorem cutLines_some {s l rest : Text} (h : Snet.takeLine s = some (l, c, rest)) :
    cutLines fuzzyPair s = l :: cutLines fuzzyPair (Snet.afterEnd c rest) := by
  obtain ⟨rfl, hc, hl⟩ := Snet.takeLine_eq_some h
  clear h
  induction l with
  | nil => exact cutLines_end hc rest
  | cons x l ih =>
    have hrest := ih fun y hy => hl y (List.mem_cons_of_mem _ hy)
    exact cutLines_cons (hl x List.mem_cons_self) hrest

/-- The last line, when it has none. -/
theorem cutLines_none {s : Text} (hs : s ≠ []) (h : Snet.takeLine s = none) : cutLines fuzzyPair s = [s] := by
  have hno := Snet.takeLine_eq_none h
  clear h
  induction s with
  | nil => exact absurd rfl hs
  | cons x s ih =>
    have hx := hno x List.mem_cons_self
    by_cases hnil : s = []
    · subst hnil
      simp [cutLines, hx]
    · exact cutLines_cons hx (ih hnil fun y hy => hno y (List.mem_cons_of_mem _ hy))

/-- The part in front of the first end is the first line. -/
theorem front_mem {s : Text} (hs : s ≠ []) : Snet.front s ∈ cutLines fuzzyPair s := by
  cases h : Snet.takeLine s with
  | none =>
    rw [cutLines_none hs h, List.mem_singleton]
    exact List.takeWhile_eq_self_iff.mpr (by simpa using Snet.takeLine_eq_none h)
  | some found =>
    obtain ⟨l, c, rest⟩ := found
    obtain ⟨heq, hc, hl⟩ := Snet.takeLine_eq_some h
    have hfront : Snet.front s = l := by
      rw [heq]
      unfold Snet.front
      rw [List.takeWhile_append_of_pos (by simpa using hl)]
      simp [hc]
    rw [cutLines_some h, hfront]
    exact List.mem_cons_self

theorem afterEnd_suffix (c : Char) (rest : Text) : Snet.afterEnd c rest <:+ rest := by
  unfold Snet.afterEnd Snet.afterState
  split
  · exact List.suffix_cons _ _
  · exact List.suffix_refl _

/-- A terminated stream stays one. -/
theorem Terminated.afterEnd {s l rest : Text} (h : Terminated s) (hcut : Snet.takeLine s = some (l, c, rest)) :
    Terminated (Snet.afterEnd c rest) := by
  obtain ⟨rfl, -, -⟩ := Snet.takeLine_eq_some hcut
  obtain ⟨pre, hpre⟩ := afterEnd_suffix c rest
  intro x hx
  apply h x
  have hlast : (l ++ c :: rest).getLast? = (Snet.afterEnd c rest).getLast? := by
    have hwhole : l ++ c :: rest = (l ++ c :: pre) ++ Snet.afterEnd c rest := by
      rw [List.append_assoc, List.cons_append, hpre]
    have hne : Snet.afterEnd c rest ≠ [] := by
      intro hnil
      rw [hnil] at hx
      cases hx
    rw [hwhole, List.getLast?_append_of_ne_nil _ hne]
  rwa [hlast]

/-- A stream without an end of a line is not terminated. -/
theorem not_terminated {s : Text} (hs : s ≠ []) (h : Snet.takeLine s = none) : ¬Terminated s := by
  intro hterm
  have hend := hterm _ (List.getLast?_eq_some_getLast hs)
  rw [Snet.takeLine_eq_none h _ (List.getLast_mem hs)] at hend
  cases hend

end Cut

/-! ## Any number of calls -/

/-- What was returned are the first lines. -/
theorem AnswersAre.isPrefix {ls : List Text} {gs : List GetLine} (h : AnswersAre ls gs) :
    gs.filterMap GetLine.text? <+: ls := by
  induction h with
  | nil ls => exact List.nil_prefix
  | fault timedOut h ih => exact ih
  | line l h ih => exact (List.prefix_cons_inj l).mpr ih
  | eof h ih => exact ih

/-- Once as many calls were made as there are lines and failures, every line was returned. -/
theorem AnswersAre.all {ls : List Text} {gs : List GetLine} (h : AnswersAre ls gs)
    (hcalls : ls.length + gs.countP GetLine.isFault ≤ gs.length) : gs.filterMap GetLine.text? = ls := by
  induction h with
  | nil ls =>
    simp at hcalls
    simp [hcalls]
  | fault timedOut h ih =>
    rw [List.countP_cons_of_pos rfl, List.length_cons] at hcalls
    exact ih (by omega)
  | line l h ih =>
    rw [List.countP_cons_of_neg (by simp [GetLine.isFault]), List.length_cons, List.length_cons] at hcalls
    exact congrArg (l :: ·) (ih (by omega))
  | eof h ih => exact List.prefix_nil.mp h.isPrefix

theorem answersAre_eof (k : Nat) : AnswersAre [] (List.replicate k .eof) := by
  induction k with
  | zero => exact .nil []
  | succ k ih => exact .eof ih

/-- What `k` calls return and leave, with `s` ahead and `f` failures to come: the lines of `s`, in order, each once and
    complete, then `NULL`; and where `s` is terminated, a buffer within its bounds. -/
structure ReadsLines (pair : Char → Bool) (max : Nat) (s : Text) (f k : Nat) (gs : List GetLine) (sn : Snet) : Prop where
  calls : gs.length = k
  answers : AnswersAre (cutLines pair s) gs
  faults : gs.countP GetLine.isFault ≤ f
  all : (cutLines pair s).length + f ≤ k → gs.filterMap GetLine.text? = cutLines pair s
  inside : Terminated s → sn.Kept max

theorem getlines_done (k : Nat) {sn : Snet} (h : sn.snBuf = []) :
    ∃ sn', getlines receive k sn [] = ((List.replicate k .eof, sn'), []) := by
  induction k generalizing sn with
  | zero => exact ⟨sn, rfl⟩
  | succ k ih =>
    obtain ⟨sn', hcall, hempty⟩ := Snet.getline_done h
    obtain ⟨sn'', hrest⟩ := ih hempty
    refine ⟨sn'', ?_⟩
    simp only [getlines, bind, StateT.bind]
    rw [hcall]
    show (match getlines receive k sn' [] with | (a, s) => _) = _
    rw [hrest]
    rfl

/-- The calls, one after the other. -/
theorem getlines_succ {k : Nat} {sn sn' sn'' : Snet} {A A' A'' : List Arrival} {g : GetLine} {gs : List GetLine}
    (hcall : sn.getline receive A = ((g, sn'), A')) (hrest : getlines receive k sn' A' = ((gs, sn''), A'')) :
    getlines receive (k + 1) sn A = ((g :: gs, sn''), A'') := by
  simp only [getlines, bind, StateT.bind]
  rw [hcall]
  show (match getlines receive k sn' A' with | (a, s) => _) = _
  rw [hrest]
  rfl

theorem ahead_nil {sn : Snet} (h : sn.snBuf = []) : sn.ahead (arrived []) = [] := by
  unfold Snet.ahead
  rw [h]
  cases sn.snRstate <;> rfl

/-- **Calls** from a buffer within its bounds. -/
theorem getlines_reads {max : Nat} (hmax : 0 < max) (k : Nat) : ∀ (sn : Snet) (A : List Arrival), sn.Kept max →
    (∀ l ∈ cutLines fuzzyPair (sn.ahead (arrived A)), l.length < max) →
    ∃ gs sn' A', getlines receive k sn A = ((gs, sn'), A') ∧ gs.length = k ∧
      AnswersAre (cutLines fuzzyPair (sn.ahead (arrived A))) gs ∧ gs.countP GetLine.isFault ≤ faultsAhead A ∧
      (Terminated (sn.ahead (arrived A)) → sn'.Kept max) := by
  induction k with
  | zero =>
    intro sn A hkept hlines
    exact ⟨[], sn, A, rfl, rfl, .nil _, Nat.zero_le _, fun _ => hkept⟩
  | succ k ih =>
    intro sn A hkept hlines
    have hfront : (Snet.front (sn.ahead (arrived A))).length < max := by
      by_cases hs : sn.ahead (arrived A) = []
      · rw [hs]
        exact hmax
      · exact hlines _ (front_mem hs)
    generalize hs : sn.ahead (arrived A) = s at *
    have hcall := Snet.getline_outcome hkept (by rwa [hs])
    rw [hs] at hcall
    generalize hg : sn.getline receive A = x at hcall
    cases hcall with
    | fault timedOut hkept' hahead hless =>
      rw [← hahead] at hlines
      obtain ⟨gs, sn', A', hrest, hlength, hanswers, hfaults, hinside⟩ := ih _ _ hkept' hlines
      rw [hahead] at hanswers hinside
      refine ⟨_, sn', A', getlines_succ hg hrest, by rw [List.length_cons, hlength], .fault timedOut hanswers, ?_, hinside⟩
      rw [List.countP_cons_of_pos rfl]
      omega
    | line hcut hkept' hahead hsame =>
      rw [cutLines_some hcut, ← hahead] at hlines
      obtain ⟨gs, sn', A', hrest, hlength, hanswers, hfaults, hinside⟩ :=
        ih _ _ hkept' fun l hl => hlines l (List.mem_cons_of_mem _ hl)
      rw [hahead] at hanswers hinside
      refine ⟨_, sn', A', getlines_succ hg hrest, by rw [List.length_cons, hlength], ?_, ?_,
        fun hterm => hinside (hterm.afterEnd hcut)⟩
      · rw [cutLines_some hcut]
        exact .line _ hanswers
      · rw [List.countP_cons_of_neg (by simp [GetLine.isFault]), ← hsame]
        exact hfaults
    | last hcut hne hempty =>
      obtain ⟨sn', hrest⟩ := getlines_done k hempty
      refine ⟨_, sn', [], getlines_succ hg hrest, by simp, ?_, ?_, fun hterm => absurd hterm (not_terminated hne hcut)⟩
      · rw [cutLines_none hne hcut]
        exact .line s (answersAre_eof k)
      · simp [GetLine.isFault, List.countP_replicate]
    | ended hnil hkept' hempty =>
      have hahead := ahead_nil hempty
      rw [hnil, ← hahead] at hlines
      obtain ⟨gs, sn', A', hrest, hlength, hanswers, hfaults, hinside⟩ := ih _ _ hkept' hlines
      rw [hahead] at hanswers hinside
      refine ⟨_, sn', A', getlines_succ hg hrest, by rw [List.length_cons, hlength], ?_, ?_, ?_⟩
      · rw [hnil]
        exact .eof hanswers
      · rw [List.countP_cons_of_neg (by simp [GetLine.isFault])]
        exact hfaults.trans (Nat.zero_le _)
      · rw [hnil]
        exact hinside

/-- **Lines do not depend on how the bytes come in.**  On a new connection, with no line as long as the limit, any number of
    calls return the lines of the stream, cut at each CR LF, NUL LF and lone CR, LF or NUL, and the rest when it has no end;
    in order, each once and complete, with `NULL` behind the last; wherever `read` cuts the bytes and fails in between. -/
theorem getlines_cutLines {max : Nat} (hmax : 0 < max) {A : List Arrival}
    (hlines : ∀ l ∈ cutLines fuzzyPair (arrived A), l.length < max) (k : Nat) :
    let x := getlines receive k (snetAttach max) A
    ReadsLines fuzzyPair max (arrived A) (faultsAhead A) k x.1.1 x.1.2 := by
  have hkept : (snetAttach max).Kept max := ⟨⟨rfl, Nat.zero_le _⟩, rfl, rfl⟩
  obtain ⟨gs, sn', A', hcalls, hlength, hanswers, hfaults, hinside⟩ := getlines_reads hmax k _ A hkept hlines
  rw [hcalls]
  refine ⟨hlength, hanswers, hfaults, fun henough => hanswers.all ?_, hinside⟩
  show (cutLines fuzzyPair (arrived A)).length + _ ≤ _
  omega

/-- A CR and an LF in two reads, with a time-out in the next line, which has no end. -/
theorem getlines_cutLines_split :
    let A : List Arrival := [.data 'a' ['\r'], .data '\n' ['b'], .error true, .data 'c' []]
    let x := getlines receive 4 (snetAttach 1048576) A
    ReadsLines fuzzyPair 1048576 (arrived A) (faultsAhead A) 4 x.1.1 x.1.2 :=
  getlines_cutLines (by decide) (by decide) 4

/-- NUL LF, which the code takes for one end of a line. -/
theorem not_crPair :
    let A : List Arrival := [.data '\x00' ['\n']]
    let x := getlines receive 2 (snetAttach 1048576) A
    (∀ l ∈ cutLines crPair (arrived A), l.length < 1048576) ∧
      ¬ReadsLines crPair 1048576 (arrived A) (faultsAhead A) 2 x.1.1 x.1.2 := by
  refine ⟨by decide, fun h => ?_⟩
  have hkept : (snetAttach 1048576).Kept 1048576 := ⟨⟨rfl, Nat.zero_le _⟩, rfl, rfl⟩
  obtain ⟨gs, sn', A', hcalls, -, hanswers, -⟩ :=
    getlines_reads (show 0 < 1048576 by decide) 2 _ [.data '\x00' ['\n']] hkept (by decide)
  have htwo := h.all (by decide)
  rw [hcalls] at htwo
  have hone := hanswers.isPrefix.length_le
  rw [htwo] at hone
  exact absurd hone (by decide)

end Simta
