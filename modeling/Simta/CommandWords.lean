import Simta.Address
import Simta.Lib.CBuffer

/-!
# The words of a command

`acav_parse2821` of `argcargv.c`: a line is cut into words in place, at the blanks that no path protects.

* `acavLoop`, `acavParse2821` — the scanner, with the array it fills and the line it terminates;
* `Inside`, `pieces` — how far a path protects the blanks of a line, and the pieces it is cut into;
* `wordsFrom`, `acavLoop_spec` — what the scanner makes of the rest of a line, without the array;
* `wordsFrom_runs` — a word is a piece without the backslashes and closing brackets it begins with;
* `tokenises_iff` — exactly when the words are the pieces and every path is whole.
-/

set_option autoImplicit false

namespace Simta

/-! ## The scanner -/

/-- `ACV_WHITE`, `ACV_WORD`, `ACV_BRACKET`, `ACV_DQUOTE`. -/
inductive AcvState
  | white
  | word
  | bracket
  | dquote
  deriving DecidableEq, Repr

/-- `ACV_ARGC`. -/
def acvArgcStep : Nat := 10

/-- A slot of `acv_argv`: not written yet, `NULL`, or a pointer into the line. -/
inductive ArgvSlot
  | unset
  | null
  | word (offset : Nat)
  deriving DecidableEq, Repr

/-- `ACAV`: the recorded size of the array, and the slots that are allocated. -/
structure Acav where
  acvArgc : Nat
  acvArgv : List ArgvSlot
  deriving DecidableEq, Repr

/-- `acav_alloc`. -/
def acavAlloc : Acav := ⟨acvArgcStep, List.replicate acvArgcStep .unset⟩

/-- A write to a slot; `none` is one behind the array. -/
def Acav.store (acav : Acav) (ac : Nat) (slot : ArgvSlot) : Option Acav :=
  if ac < acav.acvArgv.length then some { acav with acvArgv := acav.acvArgv.set ac slot } else none

/-- The array after its `realloc`. -/
def Acav.grow (acav : Acav) : Acav :=
  ⟨acav.acvArgc + acvArgcStep, acav.acvArgv ++ List.replicate acvArgcStep .unset⟩

/-- The locals of the function, and the line as it is terminated so far; `none` is a NUL. -/
structure AcavScan where
  acav : Acav
  ac : Nat
  state : AcvState
  line : List (Option Char)

/-- How the function ends early: it returns -1, or it has written behind the array. -/
inductive AcavStop
  | failed
  | overrun
  deriving DecidableEq, Repr

/-- The blanks of a command. -/
def isBlankChar (c : Char) : Bool := c = ' ' || c = '\t' || c = '\n'

/-- A word begins; `realloc` tells for each size whether it is got. -/
def acavWord (realloc : Nat → Bool) (pos : Nat) (s : AcavScan) : Except AcavStop AcavScan :=
  match s.acav.store s.ac (.word pos) with
  | none => .error .overrun
  | some acav =>
    if acav.acvArgc ≤ s.ac + 1 then
      if realloc (acav.acvArgc + acvArgcStep) then
        .ok { s with acav := acav.grow, ac := s.ac + 1, state := .word }
      else .error .failed
    else .ok { s with acav := acav, ac := s.ac + 1, state := .word }

/-- The brackets and quotes of the `default` case. -/
def AcvState.opened (state : AcvState) (c : Char) : AcvState :=
  if c = '<' ∧ state = .word then .bracket
  else if c = '"' ∧ state = .bracket then .dquote
  else if c = '"' ∧ state = .dquote then .bracket
  else state

/-- The loop, from the offset `pos` of the line on. -/
def acavLoop (realloc : Nat → Bool) : Text → Nat → AcavScan → Except AcavStop AcavScan
  | [], _, s => .ok s
  | c :: rest, pos, s =>
    if isBlankChar c then
      acavLoop realloc rest (pos + 1)
        (if s.state = .word then { s with line := s.line.set pos none, state := .white } else s)
    else if c = '\\' then
      match rest with
      | d :: rest =>
        if s.state = .dquote then acavLoop realloc rest (pos + 2) s else acavLoop realloc (d :: rest) (pos + 1) s
      | [] => .ok s
    else if c = '>' then
      acavLoop realloc rest (pos + 1) (if s.state = .bracket then { s with state := .word } else s)
    else
      match (if s.state = .white then acavWord realloc pos s else .ok s) with
      | .error stop => .error stop
      | .ok s => acavLoop realloc rest (pos + 1) { s with state := s.state.opened c }

/-- `acav_parse2821`. -/
def acavParse2821 (realloc : Nat → Bool) (acav : Acav) (line : Text) : Except AcavStop AcavScan :=
  match acavLoop realloc line 0 ⟨acav, 0, .white, line.map some⟩ with
  | .error stop => .error stop
  | .ok s =>
    match s.acav.store s.ac .null with
    | none => .error .overrun
    | some acav => .ok { s with acav := acav }

/-- What a slot points to. -/
def ArgvSlot.text (line : List (Option Char)) : ArgvSlot → Text
  | .word offset => cString line offset
  | _ => []

/-- The words that are returned. -/
def AcavScan.words (s : AcavScan) : List Text := (s.acav.acvArgv.take s.ac).map (ArgvSlot.text s.line)

/-! ## Pieces -/

/-- Where a character of a piece stands: outside of a path, in its brackets, in a quoted string in them, or behind a
    backslash in that. -/
inductive Inside
  | out
  | path
  | quoted
  | escaped
  deriving DecidableEq, Repr

/-- Where the next character stands. -/
def Inside.next : Inside → Char → Inside
  | .out, c => if c = '<' then .path else .out
  | .path, c => if c = '>' then .out else if c = '"' then .quoted else .path
  | .quoted, c => if c = '"' then .path else if c = '\\' then .escaped else .quoted
  | .escaped, _ => .quoted

/-- Where the end of a text stands. -/
def Inside.after (p : Inside) (t : Text) : Inside := t.foldl Inside.next p

/-- The text with `none` for each blank that stands outside. -/
def marks (p : Inside) : Text → List (Option Char)
  | [] => []
  | c :: rest => (if p = .out ∧ isBlankChar c then none else some c) :: marks (p.next c) rest

/-- A run of characters in front of the runs of the rest. -/
def closeRun (r : Text × List Text) : List Text := if r.1 = [] then r.2 else r.1 :: r.2

/-- The characters up to the first gap, and the runs behind it. -/
def runsFrom : List (Option Char) → Text × List Text
  | [] => ([], [])
  | none :: rest => ([], closeRun (runsFrom rest))
  | some c :: rest => (c :: (runsFrom rest).1, (runsFrom rest).2)

/-- The longest runs of characters between the gaps. -/
def runs (l : List (Option Char)) : List Text := closeRun (runsFrom l)

/-- The pieces of a line between the blanks that no path protects. -/
def pieces (line : Text) : List Text := runs (marks .out line)

/-! ## The loop without its array -/

/-- Characters that belong to the open word, if there is one. -/
def keep (state : AcvState) (t : Text) (r : Text × List Text) : Text × List Text :=
  if state = .white then r else (t ++ r.1, r.2)

/-- What the loop makes of a text: the rest of the open word, and the words behind it. -/
def wordsFrom (state : AcvState) : Text → Text × List Text
  | [] => ([], [])
  | c :: rest =>
    if isBlankChar c then
      if state = .word then ([], (wordsFrom .white rest).2) else keep state [c] (wordsFrom state rest)
    else if c = '\\' then
      match rest with
      | d :: rest =>
        if state = .dquote then keep state [c, d] (wordsFrom state rest)
        else keep state [c] (wordsFrom state (d :: rest))
      | [] => keep state [c] ([], [])
    else if c = '>' then keep state [c] (wordsFrom (if state = .bracket then .word else state) rest)
    else if state = .white then
      ([], (c :: (wordsFrom (AcvState.word.opened c) rest).1) :: (wordsFrom (AcvState.word.opened c) rest).2)
    else keep state [c] (wordsFrom (state.opened c) rest)

theorem wordsFrom_cons (state : AcvState) (c : Char) (rest : Text) : wordsFrom state (c :: rest) =
    if isBlankChar c then
      if state = .word then ([], (wordsFrom .white rest).2) else keep state [c] (wordsFrom state rest)
    else if c = '\\' then
      match rest with
      | d :: rest =>
        if state = .dquote then keep state [c, d] (wordsFrom state rest)
        else keep state [c] (wordsFrom state (d :: rest))
      | [] => keep state [c] ([], [])
    else if c = '>' then keep state [c] (wordsFrom (if state = .bracket then .word else state) rest)
    else if state = .white then
      ([], (c :: (wordsFrom (AcvState.word.opened c) rest).1) :: (wordsFrom (AcvState.word.opened c) rest).2)
    else keep state [c] (wordsFrom (state.opened c) rest) :=
  wordsFrom.eq_def state (c :: rest)

/-- The array is as large as its recorded size, with room for one word more. -/
structure AcavScan.Sized (s : AcavScan) : Prop where
  size : s.acav.acvArgv.length = s.acav.acvArgc
  room : s.ac < s.acav.acvArgc

theorem Acav.store_some {acav : Acav} {ac : Nat} (h : ac < acav.acvArgv.length) (slot : ArgvSlot) :
    acav.store ac slot = some { acav with acvArgv := acav.acvArgv.set ac slot } := if_pos h

theorem take_set_succ {α : Type} {l : List α} {n : Nat} (h : n < l.length) (a : α) :
    (l.set n a).take (n + 1) = l.take n ++ [a] := by
  rw [List.take_succ_eq_append_getElem (by rwa [List.length_set]), List.take_set_of_le (le_refl n),
    List.getElem_set_self]

/-- A word that has begun. -/
structure WordBegun (pos : Nat) (s s' : AcavScan) : Prop where
  sized : s'.Sized
  ac : s'.ac = s.ac + 1
  argv : s'.acav.acvArgv.take s'.ac = s.acav.acvArgv.take s.ac ++ [.word pos]
  line : s'.line = s.line
  state : s'.state = .word

theorem acavWord_spec (realloc : Nat → Bool) (pos : Nat) {s : AcavScan} (hs : s.Sized) :
    match acavWord realloc pos s with
    | .error stop => stop = .failed ∧ ∃ n, realloc n = false
    | .ok s' => WordBegun pos s s' := by
  have hlt : s.ac < s.acav.acvArgv.length := hs.size ▸ hs.room
  have htake := take_set_succ hlt (ArgvSlot.word pos)
  unfold acavWord
  rw [Acav.store_some hlt]
  dsimp only
  by_cases hfull : s.acav.acvArgc ≤ s.ac + 1
  · rw [if_pos hfull]
    by_cases hgot : realloc (s.acav.acvArgc + acvArgcStep) = true
    · rw [if_pos hgot]
      have hlen : s.ac + 1 ≤ (s.acav.acvArgv.set s.ac (.word pos)).length := by
        rw [List.length_set]
        exact hlt
      refine ⟨⟨?_, ?_⟩, rfl, ?_, rfl, rfl⟩
      · simp [Acav.grow, hs.size]
      · have := hs.room
        show s.ac + 1 < s.acav.acvArgc + acvArgcStep
        unfold acvArgcStep
        omega
      · show (s.acav.acvArgv.set s.ac (.word pos) ++ List.replicate acvArgcStep ArgvSlot.unset).take (s.ac + 1) = _
        rw [List.take_append_of_le_length hlen, htake]
    · rw [if_neg hgot]
      exact ⟨rfl, _, Bool.eq_false_iff.mpr hgot⟩
  · rw [if_neg hfull]
    refine ⟨⟨?_, by show s.ac + 1 < s.acav.acvArgc; omega⟩, rfl, htake, rfl, rfl⟩
    rw [List.length_set]
    exact hs.size

/-- What the loop leaves behind the part `pre` of the line: the words that begin in the rest, and the rest of the word
    that is open. -/
structure AcavScanned (pre : List (Option Char)) (rest : Text) (s s' : AcavScan) (offs : List Nat)
    (buf : List (Option Char)) : Prop where
  sized : s'.Sized
  line : s'.line = pre ++ buf
  ac : s'.ac = s.ac + offs.length
  argv : s'.acav.acvArgv.take s'.ac = s.acav.acvArgv.take s.ac ++ offs.map ArgvSlot.word
  head : s.state ≠ .white → headString buf = (wordsFrom s.state rest).1
  words : offs.map (cString (pre ++ buf)) = (wordsFrom s.state rest).2

/-- What may come of the loop. -/
def LoopEnds (realloc : Nat → Bool) (pre : List (Option Char)) (rest : Text) (s : AcavScan) :
    Except AcavStop AcavScan → Prop
  | .error stop => stop = .failed ∧ ∃ n, realloc n = false
  | .ok s' => ∃ offs buf, AcavScanned pre rest s s' offs buf

/-- Characters that are kept as they are, in front of the rest. -/
theorem LoopEnds.keep {realloc : Nat → Bool} {pre : List (Option Char)} {t rest whole : Text} {s u : AcavScan}
    {r : Except AcavStop AcavScan} (hac : u.ac = s.ac) (hargv : u.acav = s.acav)
    (hwhite : u.state = .white ↔ s.state = .white)
    (hwords : wordsFrom s.state whole = keep s.state t (wordsFrom u.state rest))
    (h : LoopEnds realloc (pre ++ t.map some) rest u r) : LoopEnds realloc pre whole s r := by
  cases r with
  | error stop => exact h
  | ok s' =>
    obtain ⟨offs, buf, h⟩ := h
    refine ⟨offs, t.map some ++ buf, h.sized, by rw [h.line, List.append_assoc], by rw [h.ac, hac],
      by rw [h.argv, hac, hargv], fun hne => ?_, ?_⟩
    · have hopen := h.head (fun hw => hne (hwhite.mp hw))
      rw [hwords, Simta.keep, if_neg hne, ← hopen, headString_map]
    · rw [← List.append_assoc, h.words, hwords, Simta.keep]
      split <;> rfl

theorem AcvState.opened_eq_white {state : AcvState} {c : Char} : state.opened c = .white ↔ state = .white := by
  unfold AcvState.opened
  cases state <;> simp <;> split <;> simp

theorem acavLoop_spec (realloc : Nat → Bool) (rest : Text) (pos : Nat) (s : AcavScan) : ∀ {pre : List (Option Char)},
    s.Sized → s.line = pre ++ rest.map some → pre.length = pos →
    LoopEnds realloc pre rest s (acavLoop realloc rest pos s) := by
  fun_induction acavLoop realloc rest pos s with
  | case1 pos s =>
    intro pre hs hline hpos
    exact ⟨[], [], hs, hline, rfl, by simp, fun _ => rfl, rfl⟩
  | case2 c rest pos s hblank ih =>
    intro pre hs hline hpos
    have hpos' : ∀ x : Option Char, (pre ++ [x]).length = pos + 1 := fun x => by simp [hpos]
    by_cases hword : s.state = .word
    · rw [if_pos hword] at ih ⊢
      have hset : s.line.set pos none = pre ++ [none] ++ rest.map some := by
        rw [hline, ← hpos, List.map_cons, List.set_append_right _ _ (le_refl _), Nat.sub_self, List.set_cons_zero,
          List.append_assoc, List.singleton_append]
      have hloop := ih ⟨hs.size, hs.room⟩ hset (hpos' none)
      have hwords : wordsFrom s.state (c :: rest) = ([], (wordsFrom .white rest).2) := by
        rw [wordsFrom_cons, if_pos hblank, if_pos hword]
      revert hloop
      generalize acavLoop realloc rest (pos + 1) _ = r
      intro hloop
      cases r with
      | error stop => exact hloop
      | ok s' =>
        obtain ⟨offs, buf, h⟩ := hloop
        refine ⟨offs, none :: buf, h.sized, by rw [h.line, List.append_assoc, List.singleton_append], h.ac, h.argv,
          fun _ => by rw [hwords]; rfl, ?_⟩
        rw [hwords, ← List.singleton_append, ← List.append_assoc, h.words]
    · rw [if_neg hword] at ih ⊢
      have hloop := ih hs (by rw [hline, List.map_cons, List.append_assoc, List.singleton_append]) (hpos' (some c))
      exact hloop.keep (t := [c]) rfl rfl Iff.rfl (by rw [wordsFrom_cons, if_pos hblank, if_neg hword])
  | case3 pos s d rest hstate hblank ih =>
    intro pre hs hline hpos
    have hloop := @ih (pre ++ ['\\', d].map some) hs (by simp [hline]) (by simp [hpos])
    exact hloop.keep rfl rfl Iff.rfl (by rw [wordsFrom_cons, if_neg hblank, if_pos rfl]; exact if_pos hstate)
  | case4 pos s d rest hstate hblank ih =>
    intro pre hs hline hpos
    have hloop := @ih (pre ++ ['\\'].map some) hs (by simp [hline]) (by simp [hpos])
    exact hloop.keep rfl rfl Iff.rfl (by rw [wordsFrom_cons, if_neg hblank, if_pos rfl]; exact if_neg hstate)
  | case5 pos s hblank =>
    intro pre hs hline hpos
    have hloop : LoopEnds realloc (pre ++ ['\\'].map some) [] s (.ok s) :=
      ⟨[], [], hs, by simp [hline], rfl, by simp, fun _ => rfl, rfl⟩
    exact hloop.keep rfl rfl Iff.rfl (by rw [wordsFrom_cons, if_neg hblank, if_pos rfl]; rfl)
  | case6 rest pos s hblank hslash ih =>
    intro pre hs hline hpos
    have hpos' : (pre ++ ['>'].map some).length = pos + 1 := by simp [hpos]
    have hline' : s.line = pre ++ ['>'].map some ++ rest.map some := by simp [hline]
    have hwords : wordsFrom s.state ('>' :: rest) =
        keep s.state ['>'] (wordsFrom (if s.state = .bracket then .word else s.state) rest) := by
      rw [wordsFrom_cons, if_neg hblank, if_neg hslash, if_pos rfl]
    by_cases hbracket : s.state = .bracket
    · rw [if_pos hbracket] at ih hwords ⊢
      exact (ih ⟨hs.size, hs.room⟩ hline' hpos').keep (u := { s with state := .word }) rfl rfl (by simp [hbracket]) hwords
    · rw [if_neg hbracket] at ih hwords ⊢
      exact (ih hs hline' hpos').keep rfl rfl Iff.rfl hwords
  | case7 c rest pos s hblank hslash hclose stop hword =>
    intro pre hs hline hpos
    by_cases hwhite : s.state = .white
    · rw [if_pos hwhite] at hword
      have hspec := acavWord_spec realloc pos hs
      rw [hword] at hspec
      exact hspec
    · rw [if_neg hwhite] at hword
      cases hword
  | case8 c rest pos s hblank hslash hclose u hword ih =>
    intro pre hs hline hpos
    have hpos' : (pre ++ [c].map some).length = pos + 1 := by simp [hpos]
    by_cases hwhite : s.state = .white
    · rw [if_pos hwhite] at hword
      have hspec := acavWord_spec realloc pos hs
      rw [hword] at hspec
      have hloop := @ih (pre ++ [c].map some) ⟨hspec.sized.size, hspec.sized.room⟩
        (by simp [hspec.line, hline]) hpos'
      have hwords : wordsFrom s.state (c :: rest) = ([], (c :: (wordsFrom (AcvState.word.opened c) rest).1) ::
          (wordsFrom (AcvState.word.opened c) rest).2) := by
        rw [wordsFrom_cons, if_neg hblank, if_neg hslash, if_neg hclose, if_pos hwhite]
      revert hloop
      generalize acavLoop realloc rest (pos + 1) _ = r
      intro hloop
      cases r with
      | error stop => exact hloop
      | ok s' =>
        obtain ⟨offs, buf, h⟩ := hloop
        have hline' : s'.line = pre ++ some c :: buf := by
          rw [h.line, List.append_assoc]
          rfl
        have hopen : headString buf = (wordsFrom (AcvState.word.opened c) rest).1 := by
          rw [← hspec.state]
          exact h.head (by rw [Ne, AcvState.opened_eq_white, hspec.state]; decide)
        refine ⟨pos :: offs, some c :: buf, h.sized, hline', ?_, ?_, fun hne => absurd hwhite hne, ?_⟩
        · rw [h.ac, hspec.ac, List.length_cons]
          omega
        · rw [h.argv, hspec.argv, List.map_cons, List.append_assoc, List.singleton_append]
        · have hrest := h.words
          rw [List.append_assoc, hspec.state] at hrest
          rw [List.map_cons, hwords, ← hpos, cString_append, ← hopen]
          exact congrArg₂ List.cons rfl hrest
    · rw [if_neg hwhite] at hword
      obtain rfl := Except.ok.inj hword
      have hloop := @ih (pre ++ [c].map some) ⟨hs.size, hs.room⟩ (by simp [hline]) hpos'
      refine hloop.keep (u := { s with state := s.state.opened c }) rfl rfl AcvState.opened_eq_white ?_
      rw [wordsFrom_cons, if_neg hblank, if_neg hslash, if_neg hclose, if_neg hwhite]

/-! ## The function -/

/-- `acav_parse2821` has returned the words of the line, with `NULL` behind them. -/
structure Parsed (line : Text) (s : AcavScan) : Prop where
  words : s.words = (wordsFrom .white line).2
  count : s.ac = s.words.length
  null : s.acav.acvArgv[s.ac]? = some .null

theorem acavParse2821_spec (realloc : Nat → Bool) {acav : Acav} (hsize : acav.acvArgv.length = acav.acvArgc)
    (hroom : 0 < acav.acvArgc) (line : Text) :
    (∃ s, acavParse2821 realloc acav line = .ok s ∧ Parsed line s ∧ s.Sized) ∨
      acavParse2821 realloc acav line = .error .failed ∧ ∃ n, realloc n = false := by
  have hloop := @acavLoop_spec realloc line 0 ⟨acav, 0, .white, line.map some⟩ [] ⟨hsize, hroom⟩ rfl rfl
  unfold acavParse2821
  revert hloop
  cases acavLoop realloc line 0 ⟨acav, 0, .white, line.map some⟩ with
  | error stop =>
    rintro ⟨rfl, hn⟩
    exact .inr ⟨rfl, hn⟩
  | ok s =>
    rintro ⟨offs, buf, h⟩
    have hlt : s.ac < s.acav.acvArgv.length := h.sized.size ▸ h.sized.room
    dsimp only
    rw [Acav.store_some hlt]
    have hargv : s.acav.acvArgv.take s.ac = offs.map ArgvSlot.word := by
      rw [h.argv]
      rfl
    have hac : s.ac = offs.length := by
      rw [h.ac]
      exact Nat.zero_add _
    refine .inl ⟨_, rfl, ⟨?_, ?_, ?_⟩, ⟨?_, h.sized.room⟩⟩
    · show ((s.acav.acvArgv.set s.ac .null).take s.ac).map (ArgvSlot.text s.line) = _
      rw [List.take_set_of_le (le_refl _), hargv, List.map_map, h.line]
      exact h.words
    · show s.ac = (((s.acav.acvArgv.set s.ac .null).take s.ac).map _).length
      rw [List.length_map, List.length_take, List.length_set]
      omega
    · exact List.getElem?_set_self hlt
    · rw [List.length_set]
      exact h.sized.size

/-! ## Words and pieces -/

/-- A character with which no word begins. -/
def isLead (c : Char) : Bool := c = '\\' || c = '>'

/-- The words of pieces: without the characters that no word begins with. -/
def stripped (ws : List Text) : List Text := (ws.map fun w => w.dropWhile isLead).filter (· ≠ [])

/-- Where the next character stands when the scanner is in a state. -/
def AcvState.inside : AcvState → Inside
  | .white => .out
  | .word => .out
  | .bracket => .path
  | .dquote => .quoted

/-- The words in the runs of the rest of a line. -/
def asWords (state : AcvState) (r : Text × List Text) : Text × List Text :=
  if state = .white then ([], stripped (closeRun r)) else (r.1, stripped r.2)

theorem stripped_cons (w : Text) (ws : List Text) :
    stripped (w :: ws) = if w.dropWhile isLead = [] then stripped ws else w.dropWhile isLead :: stripped ws := by
  unfold stripped
  rw [List.map_cons, List.filter_cons]
  by_cases h : w.dropWhile isLead = [] <;> simp [h]

theorem stripped_closeRun (r : Text × List Text) : stripped (closeRun r) = stripped (r.1 :: r.2) := by
  unfold closeRun
  split
  · rename_i h
    rw [stripped_cons, h]
    rfl
  · rfl

theorem asWords_keep {state : AcvState} {c : Char} (h : state = .white → isLead c = true) (r : Text × List Text) :
    asWords state (c :: r.1, r.2) = keep state [c] (asWords state r) := by
  unfold asWords keep
  by_cases hwhite : state = .white
  · rw [if_pos hwhite, if_pos hwhite, if_pos hwhite, stripped_closeRun, stripped_closeRun, stripped_cons, stripped_cons,
      List.dropWhile_cons_of_pos (h hwhite)]
  · rw [if_neg hwhite, if_neg hwhite, if_neg hwhite]
    rfl

theorem marks_cons_some {p : Inside} {c : Char} (h : p ≠ .out ∨ isBlankChar c = false) (rest : Text) :
    runsFrom (marks p (c :: rest)) =
      (c :: (runsFrom (marks (p.next c) rest)).1, (runsFrom (marks (p.next c) rest)).2) := by
  have hneg : ¬ (p = .out ∧ isBlankChar c = true) := by
    rcases h with h | h
    · exact fun hp => h hp.1
    · rw [h]
      exact fun hp => Bool.false_ne_true hp.2
  rw [marks, if_neg hneg]
  rfl

theorem marks_blank {c : Char} (h : isBlankChar c = true) (rest : Text) :
    runsFrom (marks .out (c :: rest)) = ([], closeRun (runsFrom (marks .out rest))) := by
  have hnext : Inside.out.next c = .out := by
    refine if_neg ?_
    rintro rfl
    cases h
  rw [marks, if_pos ⟨rfl, h⟩, hnext]
  rfl

/-- A character that is neither a bracket nor a quote nor a backslash leaves the place as it is. -/
theorem AcvState.inside_next_blank {state : AcvState} {c : Char} (h : isBlankChar c = true) :
    state.inside.next c = state.inside := by
  have hne : c ≠ '<' ∧ c ≠ '>' ∧ c ≠ '"' ∧ c ≠ '\\' := by
    refine ⟨?_, ?_, ?_, ?_⟩ <;> (rintro rfl; cases h)
  obtain ⟨h₁, h₂, h₃, h₄⟩ := hne
  cases state <;> simp [AcvState.inside, Inside.next, h₁, h₂, h₃, h₄]

theorem AcvState.inside_opened {state : AcvState} {c : Char} (hclose : c ≠ '>') (hslash : c ≠ '\\')
    (hwhite : state ≠ .white) : (state.opened c).inside = state.inside.next c := by
  unfold AcvState.opened
  cases state with
  | white => exact absurd rfl hwhite
  | word => by_cases hopen : c = '<' <;> simp [hopen, AcvState.inside, Inside.next]
  | bracket => by_cases hquote : c = '"' <;> simp [hquote, hclose, AcvState.inside, Inside.next]
  | dquote => by_cases hquote : c = '"' <;> simp [hquote, hslash, AcvState.inside, Inside.next]

/-- **A word is a piece** without the backslashes and closing brackets that it begins with. -/
theorem wordsFrom_runs (state : AcvState) (t : Text) :
    wordsFrom state t = asWords state (runsFrom (marks state.inside t)) := by
  fun_induction wordsFrom state t with
  | case1 state => cases state <;> rfl
  | case2 c rest hblank ih =>
    rw [ih]
    show _ = asWords .word (runsFrom (marks .out (c :: rest)))
    rw [marks_blank hblank]
    rfl
  | case3 state c rest hblank hword ih =>
    by_cases hwhite : state = .white
    · subst hwhite
      rw [ih]
      show asWords .white (runsFrom (marks .out rest)) = asWords .white (runsFrom (marks .out (c :: rest)))
      rw [marks_blank hblank]
      show _ = ([], stripped (closeRun (runsFrom (marks .out rest))))
      rfl
    · have hp : state.inside ≠ .out := by
        cases state with
        | white => exact absurd rfl hwhite
        | word => exact absurd rfl hword
        | bracket => exact Inside.noConfusion
        | dquote => exact Inside.noConfusion
      rw [marks_cons_some (.inl hp), AcvState.inside_next_blank hblank, ih, asWords_keep (fun h => absurd h hwhite)]
  | case4 hblank d rest ih =>
    rw [ih, marks_cons_some (.inl Inside.noConfusion), marks_cons_some (.inl Inside.noConfusion)]
    rfl
  | case5 state d rest hstate hblank ih =>
    have hnext : state.inside.next '\\' = state.inside := by
      cases state with
      | dquote => exact absurd rfl hstate
      | _ => rfl
    rw [ih, marks_cons_some (c := '\\') (.inr rfl), hnext, asWords_keep (fun _ => rfl)]
  | case6 state hblank =>
    rw [marks_cons_some (.inr rfl), asWords_keep (fun _ => rfl)]
    cases state <;> rfl
  | case7 state rest hblank hslash ih =>
    have hnext : (if state = .bracket then AcvState.word else state).inside = state.inside.next '>' := by
      cases state <;> rfl
    rw [ih, hnext, marks_cons_some (.inr rfl), asWords_keep (fun _ => rfl)]
    by_cases hbracket : state = .bracket
    · subst hbracket
      rfl
    · rw [if_neg hbracket]
  | case8 c rest hblank hslash hclose ih =>
    have hkept : ∀ r : Text × List Text, stripped (closeRun (c :: r.1, r.2)) = (c :: r.1) :: stripped r.2 := by
      intro r
      have hlead : isLead c = false := by simp [isLead, hslash, hclose]
      rw [stripped_closeRun, stripped_cons, List.dropWhile_cons_of_neg (by simp [hlead]), if_neg (List.cons_ne_nil _ _)]
    have hne : AcvState.word.opened c ≠ .white := by simp [AcvState.opened_eq_white]
    rw [ih, AcvState.inside_opened hclose hslash AcvState.noConfusion]
    show _ = asWords .white (runsFrom (marks .out (c :: rest)))
    rw [marks_cons_some (.inr (Bool.eq_false_iff.mpr hblank)), asWords, asWords, if_neg hne, if_pos rfl, hkept]
    rfl
  | case9 state c rest hblank hslash hclose hwhite ih =>
    rw [ih, AcvState.inside_opened hclose hslash hwhite, marks_cons_some (.inr (Bool.eq_false_iff.mpr hblank)),
      asWords_keep (fun h => absurd h hwhite), asWords, asWords, if_neg hwhite,
      if_neg (mt AcvState.opened_eq_white.mp hwhite)]

/-! ## Lines with a path -/

theorem marks_append (p : Inside) (a b : Text) : marks p (a ++ b) = marks p a ++ marks (p.after a) b := by
  induction a generalizing p with
  | nil => rfl
  | cons c a ih => exact congrArg _ (ih (p.next c))

/-- A text none of whose blanks stands outside is marked as it is. -/
theorem marks_eq_map {p : Inside} {t : Text} (h : none ∉ marks p t) : marks p t = t.map some := by
  induction t generalizing p with
  | nil => rfl
  | cons c t ih =>
    rw [marks] at h ⊢
    have hhead : ¬ (p = .out ∧ isBlankChar c = true) := fun hc => h (by simp [if_pos hc])
    rw [ih (fun hm => h (List.mem_cons_of_mem _ hm)), if_neg hhead]
    rfl

theorem runsFrom_map_append (t : Text) (m : List (Option Char)) :
    runsFrom (t.map some ++ m) = (t ++ (runsFrom m).1, (runsFrom m).2) := by
  induction t with
  | nil => rfl
  | cons c t ih =>
    show (c :: (runsFrom (t.map some ++ m)).1, (runsFrom (t.map some ++ m)).2) = _
    rw [ih]
    rfl

theorem closeRun_append (u : Text) (ws vs : List Text) : closeRun (u, ws ++ vs) = closeRun (u, ws) ++ vs := by
  unfold closeRun
  split <;> rfl

/-- The runs on both sides of a gap. -/
theorem runsFrom_gap (m b : List (Option Char)) :
    runsFrom (m ++ none :: b) = ((runsFrom m).1, (runsFrom m).2 ++ runs b) := by
  induction m with
  | nil => rfl
  | cons x m ih =>
    cases x with
    | none =>
      show ([], closeRun (runsFrom (m ++ none :: b))) = ([], closeRun (runsFrom m) ++ runs b)
      rw [ih, closeRun_append]
    | some c =>
      show (c :: (runsFrom (m ++ none :: b)).1, (runsFrom (m ++ none :: b)).2) = _
      rw [ih]
      rfl

/-- A source route, or none. -/
def IsSourceRoute (route : Text) : Prop := route = [] ∨ ∃ u, route = '@' :: u ∧ parseRoute (u.length + 1) u = some []

/-- A path whose local part is a quoted string. -/
def IsQuotedPath (path : Text) : Prop :=
  ∃ route q d, IsSourceRoute route ∧ tokenQuotedString q = some (q, []) ∧ tokenAddressDomain d = some (d, []) ∧
    path = '<' :: (route ++ (q ++ '@' :: (d ++ ['>'])))

/-- A line with a path in it: `pre` are the words in front of the word that the path stands in, and that word begins
    with `w`. -/
structure PathAt (line pre w path rest : Text) : Prop where
  isPath : IsQuotedPath path
  line : line = pre ++ (w ++ (path ++ rest))
  before : pre = [] ∨ ∃ t c, pre = t ++ [c] ∧ Inside.out.after t = .out ∧ isBlankChar c = true
  word : none ∉ marks .out w ∧ Inside.out.after w = .out
  behind : rest = [] ∨ ∃ c t, rest = c :: t ∧ isBlankChar c = true

/-- The path as the scanner reads it, which knows no domain literals: each blank of it is inside, and what follows it
    is not. -/
def PathRead (path rest : Text) : Prop := none ∉ marks .out path ∧ (rest = [] ∨ Inside.out.after path = .out)

/-- What the tokeniser is for: with any array and whatever `realloc` does, the words are the pieces of the line, a path
    with a quoted local part is in one of them and what follows it is in others, and no write is behind the array. -/
def Tokenises (line : Text) : Prop :=
  ∀ (realloc : Nat → Bool) (acav : Acav), acav.acvArgv.length = acav.acvArgc → 0 < acav.acvArgc →
    match acavParse2821 realloc acav line with
    | .error stop => stop = .failed ∧ ∃ n, realloc n = false
    | .ok s => s.words = pieces line ∧ s.ac = s.words.length ∧ s.acav.acvArgv[s.ac]? = some .null ∧
        ∀ pre w path rest, PathAt line pre w path rest → s.words = pieces pre ++ (w ++ path) :: pieces rest

theorem runsFrom_blank (t : Text) : ∀ {rest : Text}, (rest = [] ∨ ∃ c t, rest = c :: t ∧ isBlankChar c = true) →
    runsFrom (t.map some ++ marks .out rest) = (t, pieces rest) := by
  intro rest h
  rw [runsFrom_map_append]
  obtain rfl | ⟨c, u, rfl, hc⟩ := h
  · show (t ++ [], []) = (t, [])
    rw [List.append_nil]
  · have hrest : runsFrom (marks .out (c :: u)) = ([], pieces u) := marks_blank hc u
    have hpieces : pieces (c :: u) = pieces u := by
      show closeRun (runsFrom (marks .out (c :: u))) = _
      rw [hrest]
      rfl
    rw [hrest, hpieces, List.append_nil]

/-- The pieces of a line up to a word, and from there on. -/
theorem pieces_before {pre : Text} (h : pre = [] ∨ ∃ t c, pre = t ++ [c] ∧ Inside.out.after t = .out ∧
    isBlankChar c = true) (u : Text) : pieces (pre ++ u) = pieces pre ++ pieces u := by
  obtain rfl | ⟨t, c, rfl, ht, hc⟩ := h
  · rfl
  · have hmarks : ∀ v : Text, marks .out (t ++ [c] ++ v) = marks .out t ++ none :: marks .out v := by
      intro v
      have hnext : Inside.out.next c = .out := @AcvState.inside_next_blank .white c hc
      rw [List.append_assoc, marks_append, ht, List.singleton_append, marks, if_pos ⟨rfl, hc⟩, hnext]
    have hpre := hmarks []
    rw [List.append_nil] at hpre
    unfold pieces runs
    rw [hmarks, hpre, runsFrom_gap, runsFrom_gap, closeRun_append, closeRun_append, List.append_assoc]
    rfl

theorem marks_length (p : Inside) (t : Text) : (marks p t).length = t.length := by
  induction t generalizing p with
  | nil => rfl
  | cons c t ih => exact congrArg Nat.succ (ih (p.next c))

theorem runsFrom_length_le (m : List (Option Char)) : (runsFrom m).1.length ≤ m.length := by
  induction m with
  | nil => exact le_refl _
  | cons x m ih =>
    cases x with
    | none => exact Nat.zero_le _
    | some c => exact Nat.succ_le_succ ih

/-- The first run ends in front of the first gap. -/
theorem runsFrom_length_lt {m : List (Option Char)} (h : none ∈ m) (x : List (Option Char)) :
    (runsFrom (m ++ x)).1.length < m.length := by
  induction m with
  | nil => exact absurd h List.not_mem_nil
  | cons y m ih =>
    cases y with
    | none => exact Nat.succ_pos _
    | some c =>
      have hm : none ∈ m := (List.mem_cons.mp h).resolve_left (by simp)
      exact Nat.succ_lt_succ (ih hm)

/-- Where a line is read as it should be, the path is a run of its own. -/
theorem runsFrom_path_iff {path rest : Text} (h : rest = [] ∨ ∃ c t, rest = c :: t ∧ isBlankChar c = true) :
    runsFrom (marks .out (path ++ rest)) = (path, pieces rest) ↔ PathRead path rest := by
  constructor
  · intro hruns
    have hnone : none ∉ marks .out path := by
      intro hmem
      have hlt := runsFrom_length_lt hmem (marks (Inside.out.after path) rest)
      rw [← marks_append, hruns, marks_length] at hlt
      exact absurd hlt (lt_irrefl _)
    refine ⟨hnone, h.imp_right ?_⟩
    rintro ⟨c, t, rfl, hc⟩
    by_contra hin
    rw [marks_append, marks_eq_map hnone, runsFrom_map_append, marks_cons_some (.inl hin)] at hruns
    have hlen := congrArg (fun r => r.1.length) hruns
    simp at hlen
  · rintro ⟨hnone, hout⟩
    rw [marks_append, marks_eq_map hnone]
    obtain rfl | hout := hout
    · exact runsFrom_blank path (.inl rfl)
    · rw [hout]
      exact runsFrom_blank path h

/-- The pieces of a line around the one that its path begins in. -/
theorem PathAt.pieces {line pre w path rest : Text} (h : PathAt line pre w path rest) :
    pieces line = Simta.pieces pre ++ (w ++ (runsFrom (marks .out (path ++ rest))).1) ::
      (runsFrom (marks .out (path ++ rest))).2 := by
  obtain ⟨route, q, d, -, -, -, hpath⟩ := h.isPath
  have hword : runsFrom (marks .out (w ++ (path ++ rest))) =
      (w ++ (runsFrom (marks .out (path ++ rest))).1, (runsFrom (marks .out (path ++ rest))).2) := by
    rw [marks_append, marks_eq_map h.word.1, h.word.2, runsFrom_map_append]
  have hne : w ++ (runsFrom (marks .out (path ++ rest))).1 ≠ [] := by
    rw [hpath, List.cons_append, marks_cons_some (.inr rfl)]
    simp
  rw [h.line, pieces_before h.before]
  congr 1
  show closeRun (runsFrom (marks .out (w ++ (path ++ rest)))) = _
  rw [hword, closeRun, if_neg hne]

theorem PathAt.whole_iff {line pre w path rest : Text} (h : PathAt line pre w path rest) :
    Simta.pieces line = Simta.pieces pre ++ (w ++ path) :: Simta.pieces rest ↔ PathRead path rest := by
  rw [h.pieces, ← runsFrom_path_iff h.behind]
  constructor
  · intro heq
    have htail := List.append_cancel_left heq
    exact Prod.ext (List.append_cancel_left (List.cons.inj htail).1) (List.cons.inj htail).2
  · intro heq
    rw [heq]

/-! ## Paths without a literal -/

/-- A quoted string is read inside, to its end. -/
theorem tokenQuoted_inside {s t rest : Text} (h : tokenQuoted '"' s = some (t, rest)) :
    Inside.quoted.after t = .path ∧ none ∉ marks .quoted t := by
  fun_induction tokenQuoted '"' s generalizing t with
  | case1 => cases h
  | case2 => cases h
  | case3 c s ih =>
    obtain ⟨⟨t', r⟩, hr, heq⟩ := Option.map_eq_some_iff.mp h
    cases heq
    obtain ⟨hend, hmarks⟩ := ih hr
    exact ⟨hend, by simpa [marks, Inside.next] using hmarks⟩
  | case4 s hs =>
    cases h
    exact ⟨rfl, by simp [marks]⟩
  | case5 c s hslash hs hc ih =>
    obtain ⟨⟨t', r⟩, hr, heq⟩ := Option.map_eq_some_iff.mp h
    cases heq
    obtain ⟨hend, hmarks⟩ := ih hr
    have hplain : c ≠ '\\' := by
      intro hc
      cases s with
      | nil => exact hslash hc rfl
      | cons d u => exact hs d u hc rfl
    have hnext : Inside.quoted.next c = .quoted := by simp [Inside.next, hc, hplain]
    constructor
    · show (Inside.quoted.next c).after t' = .path
      rw [hnext]
      exact hend
    · rw [marks, if_neg (fun hp => Inside.noConfusion hp.1), hnext]
      simpa using hmarks

/-- Text in the brackets without a quote and a closing bracket. -/
theorem plain_inside {t : Text} (h : '"' ∉ t ∧ '>' ∉ t) : Inside.path.after t = .path ∧ none ∉ marks .path t := by
  induction t with
  | nil => exact ⟨rfl, List.not_mem_nil⟩
  | cons c t ih =>
    simp only [List.mem_cons, not_or] at h
    obtain ⟨hend, hmarks⟩ := ih ⟨h.1.2, h.2.2⟩
    have hnext : Inside.path.next c = .path := by simp [Inside.next, Ne.symm h.1.1, Ne.symm h.2.1]
    constructor
    · show (Inside.path.next c).after t = .path
      rw [hnext]
      exact hend
    · rw [marks, if_neg (fun hp => Inside.noConfusion hp.1), hnext]
      simpa using hmarks

/-- Whatever its quoted string, a path whose domains have neither a quote nor a closing bracket is read as it
    should be. -/
theorem PathRead.of_plain {route q d : Text} (hq : tokenQuotedString q = some (q, []))
    (hroute : '"' ∉ route ∧ '>' ∉ route) (hd : '"' ∉ d ∧ '>' ∉ d) (rest : Text) :
    PathRead ('<' :: (route ++ (q ++ '@' :: (d ++ ['>'])))) rest := by
  obtain ⟨u, rfl⟩ : ∃ u, q = '"' :: u := by
    unfold tokenQuotedString at hq
    split at hq
    · exact ⟨_, rfl⟩
    · cases hq
  obtain ⟨⟨t, r⟩, ht, heq⟩ := Option.map_eq_some_iff.mp hq
  cases heq
  obtain ⟨hqend, hqmarks⟩ := tokenQuoted_inside ht
  obtain ⟨hrend, hrmarks⟩ := plain_inside hroute
  obtain ⟨hdend, hdmarks⟩ := plain_inside hd
  have hafter : ∀ (p : Inside) (a b : Text), p.after (a ++ b) = (p.after a).after b := fun p a b => List.foldl_append
  have hopen : ∀ (p : Inside) (c : Char) (b : Text), p.after (c :: b) = (p.next c).after b := fun p c b => rfl
  constructor
  · have hquote : Inside.path.next '"' = .quoted := rfl
    have hat : Inside.path.next '@' = .path := rfl
    rw [marks, show Inside.out.next '<' = .path from rfl, marks_append, hrend, List.cons_append, marks, hquote,
      marks_append, hqend, marks, hat, marks_append, hdend]
    simp [hrmarks, hqmarks, hdmarks, marks, isBlankChar]
  · refine .inr ?_
    have hqpath : Inside.path.after ('"' :: t) = .path := hqend
    rw [hopen, hafter, show Inside.out.next '<' = .path from rfl, hrend, hafter, hqpath, hopen,
      show Inside.path.next '@' = .path from rfl, hafter, hdend]
    rfl

/-! ## When the words are the pieces -/

theorem stripped_length_le (ws : List Text) : (stripped ws).length ≤ ws.length := by
  unfold stripped
  exact (List.length_filter_le _ _).trans (List.length_map _).le

theorem closeRun_ne_nil {r : Text × List Text} (h : ∀ w ∈ r.2, w ≠ []) : ∀ w ∈ closeRun r, w ≠ [] := by
  unfold closeRun
  split
  · exact h
  · intro w hw
    obtain rfl | hw := List.mem_cons.mp hw
    · assumption
    · exact h w hw

theorem runsFrom_ne_nil (m : List (Option Char)) : ∀ w ∈ (runsFrom m).2, w ≠ [] := by
  induction m with
  | nil => exact fun w hw => absurd hw List.not_mem_nil
  | cons x m ih =>
    cases x with
    | none => exact closeRun_ne_nil ih
    | some c => exact ih

/-- No piece begins with a character that no word begins with. -/
def NoLead (line : Text) : Prop := ∀ w ∈ pieces line, ∀ c ∈ w.head?, isLead c = false

theorem stripped_eq_self_iff {ws : List Text} (h : ∀ w ∈ ws, w ≠ []) :
    stripped ws = ws ↔ ∀ w ∈ ws, ∀ c ∈ w.head?, isLead c = false := by
  induction ws with
  | nil => exact ⟨fun _ w hw => absurd hw List.not_mem_nil, fun _ => rfl⟩
  | cons w ws ih =>
    have ih := ih (fun v hv => h v (List.mem_cons_of_mem _ hv))
    obtain ⟨c, t, rfl⟩ := List.exists_cons_of_ne_nil (h w List.mem_cons_self)
    rw [stripped_cons, List.forall_mem_cons]
    cases hlead : isLead c with
    | true =>
      rw [List.dropWhile_cons_of_pos hlead]
      constructor
      · intro heq
        exfalso
        split at heq
        · have hlen := congrArg List.length heq
          have := stripped_length_le ws
          rw [List.length_cons] at hlen
          omega
        · have hlen := congrArg List.length (List.cons.inj heq).1
          have := List.length_dropWhile_le isLead t
          rw [List.length_cons] at hlen
          omega
      · intro hall
        have := hall.1 c rfl
        rw [hlead] at this
        cases this
    | false =>
      rw [List.dropWhile_cons_of_neg (by simp [hlead]), if_neg (List.cons_ne_nil _ _), List.cons_eq_cons, ih]
      simp [hlead]

theorem words_eq_pieces_iff (line : Text) : (wordsFrom .white line).2 = pieces line ↔ NoLead line := by
  have hwords : (wordsFrom .white line).2 = stripped (pieces line) := by
    rw [wordsFrom_runs]
    rfl
  rw [hwords]
  exact stripped_eq_self_iff (closeRun_ne_nil (runsFrom_ne_nil _))

/-- With an array and a `realloc` that never fails. -/
theorem Tokenises.parsed {line : Text} (h : Tokenises line) : (wordsFrom .white line).2 = pieces line ∧
    ∀ pre w path rest, PathAt line pre w path rest → pieces line = pieces pre ++ (w ++ path) :: pieces rest := by
  obtain ⟨s, hs, hparsed, -⟩ | ⟨-, n, hn⟩ := @acavParse2821_spec (fun _ => true) acavAlloc rfl (by decide) line
  · have hline := h (fun _ => true) acavAlloc rfl (by decide)
    rw [hs] at hline
    obtain ⟨hwords, -, -, hpaths⟩ := hline
    refine ⟨hparsed.words.symm.trans hwords, fun pre w path rest hpath => ?_⟩
    exact hwords.symm.trans (hpaths pre w path rest hpath)
  · cases hn

/-- **The words of a command are the pieces of its line, with each path whole,** exactly when no piece begins with a
    backslash or a closing bracket and each path with a quoted local part is read as it should be. -/
theorem tokenises_iff (line : Text) :
    Tokenises line ↔ NoLead line ∧ ∀ pre w path rest, PathAt line pre w path rest → PathRead path rest := by
  constructor
  · intro h
    obtain ⟨hwords, hpaths⟩ := h.parsed
    refine ⟨(words_eq_pieces_iff line).mp hwords, fun pre w path rest hpath => ?_⟩
    exact hpath.whole_iff.mp (hpaths pre w path rest hpath)
  · rintro ⟨hlead, hpaths⟩ realloc acav hsize hroom
    obtain ⟨s, hs, hparsed, -⟩ | ⟨hs, hn⟩ := acavParse2821_spec realloc hsize hroom line
    · rw [hs]
      have hwords := hparsed.words.trans ((words_eq_pieces_iff line).mpr hlead)
      refine ⟨hwords, hparsed.count, hparsed.null, fun pre w path rest hpath => ?_⟩
      exact hwords.trans (hpath.whole_iff.mpr (hpaths pre w path rest hpath))
    · rw [hs]
      exact ⟨rfl, hn⟩

/-- A closing bracket in front of a word is lost. -/
theorem not_tokenises_bracket : ¬ Tokenises "RCPT >TO:<a@b>".toList := by
  intro h
  have hlead := (words_eq_pieces_iff _).mp h.parsed.1
  have hpieces : pieces "RCPT >TO:<a@b>".toList = ["RCPT".toList, ">TO:<a@b>".toList] := by decide
  rw [NoLead, hpieces] at hlead
  exact Bool.false_ne_true (hlead ">TO:<a@b>".toList (by simp) '>' rfl).symm

end Simta
