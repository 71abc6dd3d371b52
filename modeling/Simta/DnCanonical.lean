import Simta.Ldap

/-!
# The normal form of distinguished names

`dn_normalize` writes a name over itself in the form in which `parent_permitted` compares names.

* `DnRun`, `dnNormalize_run` — the function as a machine, with its state, its flag and what is written so far;
* `dnNormalize_length` — nothing gets longer;
* `DnSteady`, `Resumes` — what the machine would write again, and that it is where it was then;
* `EscapesOnce`, `dnNormalize_idem` — the texts in which no escape is undone twice, whose form is its own form;
* `DnName`, `DnPads` — names, and the ways they are written;
* `DnName.Regular`, `dnNormalize_same_iff` — the names that have one form however they are written;
* `dn_canonical` — the normal form.
-/

set_option autoImplicit false

namespace Simta

/-! ## The machine -/

/-- `state`, `gotesc`, and the text between `dn` and `d`, the last character first. -/
structure DnRun where
  state : DnState
  gotesc : Bool
  out : Text
  deriving DecidableEq, Repr

namespace DnRun

/-- In front of the first character. -/
def start : DnRun := ⟨.b4type, false, []⟩

/-- One character. -/
def next (r : DnRun) (s : Char) : DnRun := ⟨(dnStep r.state r.gotesc s r.out).1, s = '\\', (dnStep r.state r.gotesc s r.out).2⟩

/-- A text. -/
def run (r : DnRun) (t : Text) : DnRun := t.foldl next r

variable {r : DnRun} {t u : Text} {s : Char}

theorem run_append (r : DnRun) (t u : Text) : r.run (t ++ u) = (r.run t).run u := List.foldl_append

theorem run_concat (r : DnRun) (t : Text) (s : Char) : r.run (t ++ [s]) = (r.run t).next s := by
  rw [run_append]
  rfl

end DnRun

theorem dnNormalizeFrom_run (t : Text) : ∀ r : DnRun, dnNormalizeFrom r.state r.gotesc r.out t = (r.run t).out.reverse := by
  induction t with
  | nil => exact fun r => rfl
  | cons s t ih => exact fun r => ih (r.next s)

theorem dnNormalize_run (dn : Text) : dnNormalize dn = (DnRun.start.run dn).out.reverse := dnNormalizeFrom_run dn .start

/-! ## The length -/

theorem DnRun.next_length (r : DnRun) (s : Char) : (r.next s).out.length ≤ r.out.length + 1 := by
  have hdrop : (r.out.dropWhile dnSpace).length ≤ r.out.length := List.length_dropWhile_le _ _
  unfold DnRun.next dnStep
  cases r.state with
  | b4type => by_cases h : dnSpace s = true <;> simp [h]
  | intype =>
    by_cases heq : s = '='
    · simp [heq]
    · by_cases h : dnSpace s = true <;> simp [heq, h]
  | b4equal =>
    by_cases heq : s = '='
    · simp [heq]
    · by_cases h : dnSpace s = true <;> simp [heq, h]
  | b4value =>
    by_cases heq : s = '"'
    · simp [heq]
    · by_cases h : dnSpace s = true <;> simp [heq, h]
  | invalue =>
    dsimp only
    split
    · exact Nat.succ_le_succ hdrop
    · split
      · simp
      · simp
  | inquotedvalue =>
    dsimp only
    split
    · simp
    · split
      · simp
      · simp
  | b4separator => by_cases h : dnSeparator s = true <;> simp [h]

theorem DnRun.run_length (t : Text) : ∀ r : DnRun, (r.run t).out.length ≤ r.out.length + t.length := by
  induction t with
  | nil => exact fun r => Nat.le_refl _
  | cons s t ih =>
    intro r
    have hrest := ih (r.next s)
    have hnext := r.next_length s
    show ((r.next s).run t).out.length ≤ _
    rw [List.length_cons]
    omega

/-- **Nothing gets longer.** -/
theorem dnNormalize_length (dn : Text) : (dnNormalize dn).length ≤ dn.length := by
  rw [dnNormalize_run, List.length_reverse]
  have h := DnRun.run_length dn .start
  simpa [DnRun.start] using h

/-! ## What is written again -/

/-- The machine comes to this point over what is written there. -/
def DnSteady (r : DnRun) : Prop := DnRun.start.run r.out.reverse = r

variable {q r : DnRun} {s : Char} {out : Text}

/-- A character that is written adds itself to what was written, unless the text gets no longer. -/
theorem DnRun.next_tail (h : (r.next s).out.length = r.out.length + 1) : (r.next s).out.tail = r.out := by
  have hskip : r.out.length ≠ r.out.length + 1 := by omega
  unfold DnRun.next dnStep at h ⊢
  cases hstate : r.state with
  | b4type =>
    rw [hstate] at h
    by_cases hs : dnSpace s = true
    · simp [hs] at h
    · simp [hs]
  | intype =>
    rw [hstate] at h
    by_cases heq : s = '='
    · simp [heq]
    · by_cases hs : dnSpace s = true
      · simp [heq, hs] at h
      · simp [heq, hs]
  | b4equal =>
    rw [hstate] at h
    by_cases heq : s = '='
    · simp [heq]
    · by_cases hs : dnSpace s = true
      · simp [heq, hs] at h
      · simp [heq, hs]
  | b4value =>
    rw [hstate] at h
    by_cases heq : s = '"'
    · simp [heq]
    · by_cases hs : dnSpace s = true
      · simp [heq, hs] at h
      · simp [heq, hs]
  | invalue =>
    rw [hstate] at h
    dsimp only at h ⊢
    split at h
    · rename_i hsep
      rw [if_pos hsep]
      exact (List.dropWhile_suffix _).eq_of_length (Nat.succ.inj h)
    · rename_i hsep
      rw [if_neg hsep]
      split at h
      · rename_i hesc
        rw [if_pos hesc]
        exact (List.tail_suffix _).eq_of_length (Nat.succ.inj h)
      · rename_i hesc
        rw [if_neg hesc]
        rfl
  | inquotedvalue =>
    rw [hstate] at h
    dsimp only at h ⊢
    split at h
    · rename_i hquote
      rw [if_pos hquote]
      rfl
    · rename_i hquote
      rw [if_neg hquote]
      split at h
      · rename_i hesc
        rw [if_pos hesc]
        exact (List.tail_suffix _).eq_of_length (Nat.succ.inj h)
      · rename_i hesc
        rw [if_neg hesc]
        rfl
  | b4separator =>
    rw [hstate] at h
    by_cases hs : dnSeparator s = true
    · simp [hs]
    · simp [hs] at h

theorem DnSteady.push (h : DnSteady q) (hout : (q.next s).out = s :: q.out) : DnSteady (q.next s) := by
  unfold DnSteady
  rw [hout, List.reverse_cons, DnRun.run_concat, h]

theorem DnSteady.pop (h : DnSteady r) (hout : r.out = s :: out) : ∃ q, DnSteady q ∧ q.out = out ∧ q.next s = r := by
  have hnext : (DnRun.start.run out.reverse).next s = r := by
    rw [← DnRun.run_concat, ← List.reverse_cons, ← hout]
    exact h
  have hle : (DnRun.start.run out.reverse).out.length ≤ out.length := by
    have hrun := DnRun.run_length out.reverse .start
    simpa [DnRun.start] using hrun
  have hlength := (DnRun.start.run out.reverse).next_length s
  rw [hnext, hout, List.length_cons] at hlength
  have htail : (DnRun.start.run out.reverse).out = out := by
    have htail := DnRun.next_tail (r := DnRun.start.run out.reverse) (s := s) (by rw [hnext, hout, List.length_cons]; omega)
    rw [hnext, hout] at htail
    exact htail.symm
  refine ⟨DnRun.start.run out.reverse, ?_, htail, hnext⟩
  unfold DnSteady
  rw [htail]

theorem DnSteady.ne_nil (h : DnSteady r) (hstate : r.state ≠ .b4type) : r.out ≠ [] := by
  intro hnil
  apply hstate
  unfold DnSteady at h
  rw [hnil] at h
  rw [← h]
  rfl

/-- A blank that is written again in a value follows one of its characters. -/
theorem DnSteady.pop_blank (h : DnSteady r) (hstate : r.state = .invalue) (hout : r.out = s :: out) (hs : dnSpace s = true) :
    DnSteady ⟨.invalue, false, out⟩ := by
  obtain ⟨q, hq, rfl, hnext⟩ := h.pop hout
  have hsep : dnSeparator s = false := by
    unfold dnSpace at hs
    simp only [Bool.or_eq_true, decide_eq_true_eq] at hs
    rcases hs with rfl | rfl <;> rfl
  have hneed : dnNeedsescape s = false := by
    unfold dnSpace at hs
    simp only [Bool.or_eq_true, decide_eq_true_eq] at hs
    rcases hs with rfl | rfl <;> rfl
  have hplain : s ≠ '=' ∧ s ≠ '"' := by
    unfold dnSpace at hs
    simp only [Bool.or_eq_true, decide_eq_true_eq] at hs
    rcases hs with rfl | rfl <;> decide
  have hstep : (dnStep q.state q.gotesc s q.out).1 = .invalue := (congrArg DnRun.state hnext).trans hstate
  have hwrites : (dnStep q.state q.gotesc s q.out).2 = s :: q.out := (congrArg DnRun.out hnext).trans hout
  unfold dnStep at hstep hwrites
  cases hq' : q.state with
  | b4type => simp [hq', hs] at hstep
  | intype => simp [hq', hs, hplain] at hstep
  | b4equal => simp [hq', hs, hplain] at hstep
  | b4value => simp [hq', hs, hplain] at hstep
  | inquotedvalue =>
    rw [hq'] at hstep
    dsimp only at hstep
    split at hstep
    · cases hstep
    · split at hstep <;> cases hstep
  | b4separator => simp [hq', hsep] at hstep
  | invalue =>
    have hout' := hq.ne_nil (by simp [hq'])
    cases hesc : q.gotesc with
    | true =>
      exfalso
      rw [hq', hesc] at hwrites
      simp only [hsep, hneed] at hwrites
      have htail : q.out.tail = q.out := by simpa using hwrites
      have hlength := congrArg List.length htail
      rw [List.length_tail] at hlength
      have hpos := List.length_pos_of_ne_nil hout'
      omega
    | false =>
      have hsame : q = ⟨.invalue, false, q.out⟩ := by
        rw [← hq', ← hesc]
      rw [← hsame]
      exact hq

theorem DnSteady.trim (h : DnSteady ⟨.invalue, false, out⟩) : DnSteady ⟨.invalue, false, out.dropWhile dnSpace⟩ := by
  induction out with
  | nil => exact h
  | cons c out ih =>
    by_cases hc : dnSpace c = true
    · rw [List.dropWhile_cons_of_pos hc]
      exact ih (h.pop_blank rfl rfl hc)
    · rw [List.dropWhile_cons_of_neg hc]
      exact h

/-! ## The second time -/

/-- The state over what was written, where no blanks are in front of an equals sign. -/
def DnState.again : DnState → DnState
  | .b4equal => .intype
  | state => state

/-- Over what is written there the machine comes to the same point of the name. -/
def Resumes (r : DnRun) : Prop :=
  ∃ g, DnSteady ⟨r.state.again, g, r.out⟩ ∧ (r.state = .invalue ∨ r.state = .inquotedvalue → g = r.gotesc)

/-- No escape is undone twice: a character that needs none stands behind a single backslash in a value, and it is no blank
    when an unquoted value begins with it. -/
def EscapesOnce (dn : Text) : Prop :=
  ∀ u s v, dn = u ++ '\\' :: s :: v → dnNeedsescape s = false →
    ((DnRun.start.run u).state = .invalue → dnSeparator s = false → u.getLast? ≠ some '\\') ∧
    ((DnRun.start.run u).state = .inquotedvalue → u.getLast? ≠ some '\\') ∧
    ((DnRun.start.run u).state = .b4value → dnSpace s = false)

theorem DnRun.run_gotesc (u : Text) : (DnRun.start.run u).gotesc = decide (u.getLast? = some '\\') := by
  induction u using List.reverseRecOn with
  | nil => rfl
  | append_singleton u s _ =>
    rw [DnRun.run_concat, List.getLast?_concat]
    show decide (s = '\\') = _
    simp

/-- A character that is written both times. -/
theorem DnSteady.both {st : DnState} {g : Bool} (h : DnSteady ⟨st, g, r.out⟩) (st' : DnState)
    (hagain : dnStep st g s r.out = (st'.again, s :: r.out)) (hnext : dnStep r.state r.gotesc s r.out = (st', s :: r.out)) :
    Resumes (r.next s) := by
  have hpush := h.push (s := s) (congrArg Prod.snd hagain)
  refine ⟨decide (s = '\\'), ?_, fun _ => rfl⟩
  unfold DnRun.next at hpush ⊢
  rw [hnext]
  rwa [hagain] at hpush

/-- A character that is not written. -/
theorem DnSteady.neither {st : DnState} {g : Bool} (h : DnSteady ⟨st, g, r.out⟩) (st' : DnState)
    (hnext : dnStep r.state r.gotesc s r.out = (st', r.out)) (hagain : st'.again = st)
    (hnot : ¬ (st' = .invalue ∨ st' = .inquotedvalue)) : Resumes (r.next s) := by
  unfold DnRun.next
  rw [hnext]
  refine ⟨g, ?_, fun hor => absurd hor hnot⟩
  rw [hagain]
  exact h

theorem dnNeedsescape_false (h : dnNeedsescape s = false) : s ≠ '\\' ∧ s ≠ '"' := by
  simpa [dnNeedsescape] using h

@[simp] theorem dnSpace_slash : dnSpace '\\' = false := rfl
@[simp] theorem dnSeparator_slash : dnSeparator '\\' = false := rfl
@[simp] theorem dnNeedsescape_slash : dnNeedsescape '\\' = true := rfl

/-- In an unquoted value a character behind a backslash takes the place of the backslash. -/
theorem Resumes.unescape (h : Resumes q) (hneed : dnNeedsescape s = false) (hstate : (q.next '\\').state = .invalue)
    (hsep : dnSeparator s = false) (honce : q.state = .invalue → q.gotesc = false) (hblank : q.state = .b4value → dnSpace s = false) :
    Resumes ((q.next '\\').next s) := by
  obtain ⟨g, hsteady, hg⟩ := h
  obtain ⟨hslash, hquote⟩ := dnNeedsescape_false hneed
  cases hq : q.state with
  | b4value =>
    rw [hq] at hsteady
    refine ⟨false, ?_, fun _ => by simp [DnRun.next, hslash]⟩
    have hpush := hsteady.push (s := s) (by simp [DnRun.next, dnStep, DnState.again, hquote, hblank hq])
    simpa [DnRun.next, dnStep, hq, DnState.again, hquote, hblank hq, hneed, hsep, hslash] using hpush
  | invalue =>
    rw [hq, hg (.inl hq), honce hq] at hsteady
    refine ⟨false, ?_, fun _ => by simp [DnRun.next, hslash]⟩
    have hpush := hsteady.push (s := s) (by simp [DnRun.next, dnStep, DnState.again, hsep])
    simpa [DnRun.next, dnStep, hq, honce hq, DnState.again, hneed, hsep, hslash] using hpush
  | inquotedvalue =>
    unfold DnRun.next dnStep at hstate
    simp only [hq] at hstate
    split at hstate
    · cases hstate
    · split at hstate <;> cases hstate
  | _ => simp [DnRun.next, dnStep, hq] at hstate

/-- So it does in a quoted one. -/
theorem Resumes.unescape_quoted (h : Resumes q) (hneed : dnNeedsescape s = false) (hstate : (q.next '\\').state = .inquotedvalue)
    (honce : q.state = .inquotedvalue → q.gotesc = false) : Resumes ((q.next '\\').next s) := by
  obtain ⟨g, hsteady, hg⟩ := h
  obtain ⟨hslash, hquote⟩ := dnNeedsescape_false hneed
  cases hq : q.state with
  | inquotedvalue =>
    rw [hq, hg (.inr hq), honce hq] at hsteady
    refine ⟨false, ?_, fun _ => by simp [DnRun.next, hslash]⟩
    have hpush := hsteady.push (s := s) (by simp [DnRun.next, dnStep, DnState.again, hquote])
    simpa [DnRun.next, dnStep, hq, honce hq, DnState.again, hneed, hquote, hslash] using hpush
  | invalue =>
    unfold DnRun.next dnStep at hstate
    simp only [hq] at hstate
    split at hstate
    · cases hstate
    · split at hstate <;> cases hstate
  | _ => simp [DnRun.next, dnStep, hq] at hstate

/-- The separator behind an unquoted value: the blanks in front of it are not there the second time. -/
theorem DnSteady.separator (h : DnSteady ⟨.invalue, r.gotesc, r.out⟩) (hstate : r.state = .invalue) (hesc : r.gotesc = false)
    (hs : dnSeparator s = true) : Resumes (r.next s) := by
  rw [hesc] at h
  have hsep : dnSeparator (if s = '+' then '+' else ',') = true := by split <;> rfl
  have hkind : (if (if s = '+' then '+' else ',') = '+' then '+' else ',') = (if s = '+' then '+' else ',') := by
    split <;> rfl
  have hidem : (r.out.dropWhile dnSpace).dropWhile dnSpace = r.out.dropWhile dnSpace := List.dropWhile_idempotent _ _
  have hnext : r.next s = ⟨.b4type, s = '\\', (if s = '+' then '+' else ',') :: r.out.dropWhile dnSpace⟩ := by
    simp [DnRun.next, dnStep, hstate, hesc, hs]
  have hagain : DnRun.next ⟨.invalue, false, r.out.dropWhile dnSpace⟩ (if s = '+' then '+' else ',') =
      ⟨.b4type, (if s = '+' then '+' else ',') = '\\', (if s = '+' then '+' else ',') :: r.out.dropWhile dnSpace⟩ := by
    simp only [DnRun.next, dnStep, hsep, hkind, hidem]
    rfl
  have hpush := h.trim.push (s := if s = '+' then '+' else ',') (congrArg DnRun.out hagain)
  rw [hagain] at hpush
  rw [hnext]
  exact ⟨_, hpush, by simp⟩

/-- **One character**, where no escape is undone. -/
theorem Resumes.next (h : Resumes r) (hescape : r.gotesc = true → dnNeedsescape s = false →
    (r.state = .invalue ∧ dnSeparator s = false ∨ r.state = .inquotedvalue) → Resumes (r.next s)) : Resumes (r.next s) := by
  obtain ⟨g, hsteady, hg⟩ := h
  cases hstate : r.state with
  | b4type =>
    rw [hstate] at hsteady
    by_cases hs : dnSpace s = true
    · exact hsteady.neither .b4type (by simp [dnStep, hstate, hs]) rfl (by simp)
    · exact hsteady.both .intype (by simp [dnStep, DnState.again, hs]) (by simp [dnStep, hstate, hs])
  | intype =>
    rw [hstate] at hsteady
    by_cases heq : s = '='
    · exact hsteady.both .b4value (by simp [dnStep, DnState.again, heq]) (by simp [dnStep, hstate, heq])
    · by_cases hs : dnSpace s = true
      · exact hsteady.neither .b4equal (by simp [dnStep, hstate, heq, hs]) rfl (by simp)
      · exact hsteady.both .intype (by simp [dnStep, DnState.again, heq, hs]) (by simp [dnStep, hstate, heq, hs])
  | b4equal =>
    rw [hstate] at hsteady
    by_cases heq : s = '='
    · exact hsteady.both .b4value (by simp [dnStep, DnState.again, heq]) (by simp [dnStep, hstate, heq])
    · by_cases hs : dnSpace s = true
      · exact hsteady.neither .b4equal (by simp [dnStep, hstate, heq, hs]) rfl (by simp)
      · exact hsteady.both .b4equal (by simp [dnStep, DnState.again, heq, hs]) (by simp [dnStep, hstate, heq, hs])
  | b4value =>
    rw [hstate] at hsteady
    by_cases hquote : s = '"'
    · exact hsteady.both .inquotedvalue (by simp [dnStep, DnState.again, hquote]) (by simp [dnStep, hstate, hquote])
    · by_cases hs : dnSpace s = true
      · exact hsteady.neither .b4value (by simp [dnStep, hstate, hquote, hs]) rfl (by simp)
      · exact hsteady.both .invalue (by simp [dnStep, DnState.again, hquote, hs]) (by simp [dnStep, hstate, hquote, hs])
  | invalue =>
    rw [hstate, hg (.inl hstate)] at hsteady
    by_cases hsep : r.gotesc = false ∧ dnSeparator s = true
    · -- the blanks in front of the separator are gone the second time
      exact hsteady.separator hstate hsep.1 hsep.2
    · by_cases hundo : r.gotesc = true ∧ dnNeedsescape s = false ∧ dnSeparator s = false
      · exact hescape hundo.1 hundo.2.1 (.inl ⟨hstate, hundo.2.2⟩)
      · have hpush : dnStep .invalue r.gotesc s r.out = (.invalue, s :: r.out) := by
          simp [dnStep, hsep, hundo]
        exact hsteady.both .invalue hpush (by rw [hstate]; exact hpush)
  | inquotedvalue =>
    rw [hstate, hg (.inr hstate)] at hsteady
    by_cases hundo : r.gotesc = true ∧ dnNeedsescape s = false
    · exact hescape hundo.1 hundo.2 (.inr hstate)
    · by_cases hquote : r.gotesc = false ∧ s = '"'
      · have hpush : dnStep .inquotedvalue r.gotesc s r.out = (.b4separator, s :: r.out) := by
          simp [dnStep, hquote]
        exact hsteady.both .b4separator hpush (by rw [hstate]; exact hpush)
      · have hpush : dnStep .inquotedvalue r.gotesc s r.out = (.inquotedvalue, s :: r.out) := by
          simp [dnStep, hquote, hundo]
        exact hsteady.both .inquotedvalue hpush (by rw [hstate]; exact hpush)
  | b4separator =>
    rw [hstate] at hsteady
    by_cases hs : dnSeparator s = true
    · exact hsteady.both .b4type (by simp [dnStep, DnState.again, hs]) (by simp [dnStep, hstate, hs])
    · exact hsteady.neither .b4separator (by simp [dnStep, hstate, hs]) rfl (by simp)

/-- **All characters.** -/
theorem EscapesOnce.resumes {dn : Text} (h : EscapesOnce dn) (n : Nat) : ∀ {u v : Text}, u.length = n → dn = u ++ v →
    Resumes (DnRun.start.run u) := by
  induction n using Nat.strong_induction_on with
  | _ n ih =>
    intro u v hn hdn
    obtain rfl | ⟨u₁, s, rfl⟩ := List.eq_nil_or_concat' u
    · exact ⟨false, rfl, fun h => by rcases h with h | h <;> cases h⟩
    · have hlength : u₁.length < n := by
        rw [List.length_append, List.length_singleton] at hn
        omega
      have hprev := ih u₁.length hlength rfl (by rw [hdn, List.append_assoc])
      rw [DnRun.run_concat]
      apply hprev.next
      -- the character undoes an escape: the backslash was written in front of it
      intro hesc hneed hstate
      rw [DnRun.run_gotesc, decide_eq_true_eq] at hesc
      obtain ⟨u₂, rfl⟩ := List.getLast?_eq_some_iff.mp hesc
      rw [List.length_append, List.length_singleton] at hlength
      have hbefore := ih u₂.length (by omega) rfl (by rw [hdn, List.append_assoc, List.append_assoc])
      have honce := h u₂ s v (by rw [hdn]; simp) hneed
      rw [DnRun.run_concat] at hstate ⊢
      have hflag : (DnRun.start.run u₂).gotesc = decide (u₂.getLast? = some '\\') := DnRun.run_gotesc u₂
      rcases hstate with ⟨hstate, hsep⟩ | hstate
      · apply hbefore.unescape hneed hstate hsep
        · intro hin
          rw [hflag]
          exact decide_eq_false (honce.1 hin hsep)
        · exact honce.2.2
      · apply hbefore.unescape_quoted hneed hstate
        intro hin
        rw [hflag]
        exact decide_eq_false (honce.2.1 hin)

/-- **The form of a name is its own form**, when no escape is undone twice. -/
theorem dnNormalize_idem {dn : Text} (h : EscapesOnce dn) : dnNormalize (dnNormalize dn) = dnNormalize dn := by
  obtain ⟨g, hsteady, -⟩ := h.resumes dn.length rfl (List.append_nil dn).symm
  have hout : (DnRun.start.run (DnRun.start.run dn).out.reverse).out = (DnRun.start.run dn).out := by
    have hagain := congrArg DnRun.out (show DnRun.start.run _ = _ from hsteady)
    exact hagain
  rw [dnNormalize_run (dnNormalize dn), dnNormalize_run dn, hout]

/-! ## Letter case -/

@[simp] theorem dnSpace_toLower (c : Char) : dnSpace c.toLower = dnSpace c := by
  simp [dnSpace, toLower_eq_iff]

@[simp] theorem dnSeparator_toLower (c : Char) : dnSeparator c.toLower = dnSeparator c := by
  simp [dnSeparator, toLower_eq_iff]

@[simp] theorem dnNeedsescape_toLower (c : Char) : dnNeedsescape c.toLower = dnNeedsescape c := by
  simp [dnNeedsescape, toLower_eq_iff]

/-- The form in small letters. -/
def DnRun.lower (r : DnRun) : DnRun := { r with out := r.out.map Char.toLower }

theorem dropWhile_toLower (out : Text) : (out.map Char.toLower).dropWhile dnSpace = (out.dropWhile dnSpace).map Char.toLower := by
  rw [List.dropWhile_map]
  congr 2
  funext c
  exact dnSpace_toLower c

theorem DnRun.next_lower (r : DnRun) (s : Char) : r.lower.next s.toLower = (r.next s).lower := by
  have heq : ∀ {d : Char}, (d.toNat < 65 ∨ 90 < d.toNat ∧ d.toNat < 97) → (s.toLower = d ↔ s = d) := toLower_eq_iff
  have hequal := heq (d := '=') (by decide)
  have hquote := heq (d := '"') (by decide)
  have hslash := heq (d := '\\') (by decide)
  have hplus := heq (d := '+') (by decide)
  unfold DnRun.next DnRun.lower dnStep
  cases r.state with
  | b4type => by_cases hs : dnSpace s = true <;> simp [hs, hslash]
  | intype => by_cases h : s = '=' <;> by_cases hs : dnSpace s = true <;> simp [h, hs, hequal, hslash]
  | b4equal => by_cases h : s = '=' <;> by_cases hs : dnSpace s = true <;> simp [h, hs, hequal, hslash]
  | b4value => by_cases h : s = '"' <;> by_cases hs : dnSpace s = true <;> simp [h, hs, hquote, hslash]
  | invalue =>
    dsimp only
    rw [dnSeparator_toLower, dnNeedsescape_toLower, dropWhile_toLower]
    split
    · by_cases h : s = '+' <;> simp [h, hplus, hslash]
    · split <;> simp [hslash]
  | inquotedvalue =>
    dsimp only
    rw [dnNeedsescape_toLower]
    simp only [hquote]
    split
    · simp [hslash]
    · split <;> simp [hslash]
  | b4separator => by_cases hs : dnSeparator s = true <;> simp [hs, hslash]

theorem DnRun.run_lower (t : Text) : ∀ r : DnRun, r.lower.run (t.map Char.toLower) = (r.run t).lower := by
  induction t with
  | nil => exact fun r => rfl
  | cons s t ih =>
    intro r
    show (r.lower.next s.toLower).run (t.map Char.toLower) = ((r.next s).run t).lower
    rw [DnRun.next_lower, ih]

/-- Small letters go through. -/
theorem dnNormalize_lower (dn : Text) : dnNormalize (dn.map Char.toLower) = (dnNormalize dn).map Char.toLower := by
  rw [dnNormalize_run, dnNormalize_run, show DnRun.start = DnRun.start.lower from rfl, DnRun.run_lower]
  exact List.map_reverse.symm

theorem map_toLower_idem (t : Text) : (t.map Char.toLower).map Char.toLower = t.map Char.toLower := by
  rw [List.map_map]
  apply List.map_congr_left
  intro c _
  exact toLower_idem c

theorem dnNormalizeCase_idem {dn : Text} (h : EscapesOnce dn) : dnNormalizeCase (dnNormalizeCase dn) = dnNormalizeCase dn := by
  unfold dnNormalizeCase
  rw [dnNormalize_lower, map_toLower_idem, dnNormalize_idem h]

/-! ## Names -/

/-- Blanks. -/
structure Blanks where
  text : Text
  isBlank : ∀ c ∈ text, dnSpace c = true

/-- No blanks. -/
def Blanks.none : Blanks := ⟨[], by simp⟩

/-- One blank. -/
def Blanks.one : Blanks := ⟨[' '], by simp [dnSpace]⟩

/-- A character of a value, by itself or behind a backslash. -/
inductive DnChar
  | plain (c : Char)
  | escaped (c : Char)
  deriving DecidableEq, Repr

def DnChar.text : DnChar → Text
  | .plain c => [c]
  | .escaped c => ['\\', c]

/-- A value, without quotes or in them. -/
inductive DnValue
  | unquoted (chars : List DnChar)
  | quoted (chars : List DnChar)
  deriving DecidableEq, Repr

def DnValue.text : DnValue → Text
  | .unquoted chars => chars.flatMap DnChar.text
  | .quoted chars => '"' :: (chars.flatMap DnChar.text ++ ['"'])

/-- What is special in a value stands behind a backslash. -/
def DnValue.Wf : DnValue → Prop
  | .unquoted chars => (∀ c, .plain c ∈ chars → c ≠ '\\' ∧ dnSeparator c = false) ∧
      ∀ c, chars.head? = some (.plain c) → dnSpace c = false ∧ c ≠ '"'
  | .quoted chars => ∀ c, .plain c ∈ chars → c ≠ '\\' ∧ c ≠ '"'

/-- A type with its value. -/
structure DnPart where
  type : Text
  value : DnValue
  type_ne_nil : type ≠ []
  type_text : ∀ c ∈ type, dnSpace c = false ∧ c ≠ '=' ∧ c ≠ '\\' ∧ dnSeparator c = false
  value_wf : value.Wf

/-- A name: parts with a separator behind them, of which it is only known whether it is a plus, and the last part. -/
structure DnName where
  front : List (DnPart × Bool)
  last : DnPart

/-- How a part is written: the blanks around its separators and its equals sign, and whether a semicolon stands for the
    comma behind it. -/
structure DnPads where
  beforeType : Blanks
  beforeEqual : Blanks
  afterEqual : Blanks
  afterValue : Blanks
  semicolon : Bool

def dnSep (plus semicolon : Bool) : Char := if plus then '+' else if semicolon then ';' else ','

/-- A part as it is written. -/
def DnPart.text (p : DnPart) (w : DnPads) : Text :=
  w.beforeType.text ++ (p.type ++ (w.beforeEqual.text ++ '=' :: (w.afterEqual.text ++ p.value.text)))

/-- A name as it is written, each part in its own way. -/
def dnText : (Nat → DnPads) → List (DnPart × Bool) → DnPart → Text
  | w, [], last => last.text (w 0)
  | w, p :: front, last =>
    p.1.text (w 0) ++ ((w 0).afterValue.text ++ dnSep p.2 (w 0).semicolon :: dnText (fun i => w (i + 1)) front last)

def DnName.text (n : DnName) (w : Nat → DnPads) : Text := dnText w n.front n.last

/-- What the form of a name needs of a value in front of a separator. -/
def DnValue.Regular (plus : Bool) : DnValue → Prop
  | .unquoted chars => chars ≠ [] ∧ chars.getLast? ≠ some (.escaped '\\')
  | .quoted chars => plus = true ∧ chars.getLast? ≠ some (.escaped '\\')

/-- Each value in front of a separator is not empty and does not end in an escaped backslash, and a quoted one is in
    front of a plus only. -/
def DnName.Regular (n : DnName) : Prop := ∀ p ∈ n.front, p.1.value.Regular p.2

/-! ## Over a name -/

/-- Blanks are passed over in a state that passes over one. -/
theorem run_blanks {st : DnState} (hst : ∀ c, dnSpace c = true → ∀ g out, dnStep st g c out = (st, out)) (b : Blanks) (g : Bool)
    (out : Text) : ∃ g', DnRun.run ⟨st, g, out⟩ b.text = ⟨st, g', out⟩ ∧ (g = false → g' = false) := by
  obtain ⟨t, ht⟩ := b
  show ∃ g', DnRun.run _ t = _ ∧ _
  induction t generalizing g with
  | nil => exact ⟨g, rfl, id⟩
  | cons c t ih =>
    have hc := ht c (by simp)
    have hslash : decide (c = '\\') = false := by
      apply decide_eq_false
      rintro rfl
      cases hc
    have hnext : DnRun.next ⟨st, g, out⟩ c = ⟨st, false, out⟩ := by
      unfold DnRun.next
      rw [hst c hc, hslash]
    show ∃ g', (DnRun.next ⟨st, g, out⟩ c).run t = _ ∧ _
    rw [hnext]
    obtain ⟨g', hrun, hg⟩ := ih false (fun d hd => ht d (by simp [hd]))
    exact ⟨g', hrun, fun _ => hg rfl⟩

/-- The characters of a type. -/
theorem run_intype {t : Text} (ht : ∀ c ∈ t, dnSpace c = false ∧ c ≠ '=' ∧ c ≠ '\\' ∧ dnSeparator c = false) (out : Text) :
    DnRun.run ⟨.intype, false, out⟩ t = ⟨.intype, false, t.reverse ++ out⟩ := by
  induction t generalizing out with
  | nil => rfl
  | cons c t ih =>
    obtain ⟨hspace, hequal, hslash, -⟩ := ht c (by simp)
    have hnext : DnRun.next ⟨.intype, false, out⟩ c = ⟨.intype, false, c :: out⟩ := by
      simp [DnRun.next, dnStep, hspace, hequal, hslash]
    show (DnRun.next ⟨.intype, false, out⟩ c).run t = _
    rw [hnext, ih (fun d hd => ht d (by simp [hd]))]
    simp

theorem run_type (p : DnPart) (g : Bool) (out : Text) :
    DnRun.run ⟨.b4type, g, out⟩ p.type = ⟨.intype, false, p.type.reverse ++ out⟩ := by
  cases htype : p.type with
  | nil => exact absurd htype p.type_ne_nil
  | cons c t =>
    have ht : ∀ d ∈ c :: t, dnSpace d = false ∧ d ≠ '=' ∧ d ≠ '\\' ∧ dnSeparator d = false := htype ▸ p.type_text
    obtain ⟨hspace, -, hslash, -⟩ := ht c (by simp)
    have hnext : DnRun.next ⟨.b4type, g, out⟩ c = ⟨.intype, false, c :: out⟩ := by
      simp [DnRun.next, dnStep, hspace, hslash]
    show (DnRun.next ⟨.b4type, g, out⟩ c).run t = _
    rw [hnext, run_intype (fun d hd => ht d (by simp [hd]))]
    simp

/-- The equals sign behind a type. -/
theorem run_equal (b : Blanks) (out : Text) :
    (DnRun.run ⟨.intype, false, out⟩ b.text).next '=' = ⟨.b4value, false, '=' :: out⟩ := by
  obtain ⟨t, ht⟩ := b
  cases t with
  | nil => rfl
  | cons c t =>
    have hc := ht c (by simp)
    have hequal : c ≠ '=' := by
      rintro rfl
      cases hc
    have hnext : DnRun.next ⟨.intype, false, out⟩ c = ⟨.b4equal, c = '\\', out⟩ := by simp [DnRun.next, dnStep, hc, hequal]
    have hst : ∀ c, dnSpace c = true → ∀ g out, dnStep .b4equal g c out = (.b4equal, out) := by
      intro d hd g out
      have hd' : d ≠ '=' := by
        rintro rfl
        cases hd
      simp [dnStep, hd, hd']
    show ((DnRun.next ⟨.intype, false, out⟩ c).run t).next '=' = _
    obtain ⟨g', hrun, -⟩ := run_blanks hst ⟨t, fun d hd => ht d (by simp [hd])⟩ (c = '\\') out
    rw [hnext, hrun]
    rfl

/-- **A part up to its value.** -/
theorem run_head (p : DnPart) (w : DnPads) (g : Bool) (out t : Text) :
    DnRun.run ⟨.b4type, g, out⟩ (w.beforeType.text ++ (p.type ++ (w.beforeEqual.text ++ '=' :: (w.afterEqual.text ++ t)))) =
      DnRun.run ⟨.b4value, false, '=' :: (p.type.reverse ++ out)⟩ t := by
  have hb4type : ∀ c, dnSpace c = true → ∀ g out, dnStep .b4type g c out = (.b4type, out) := by
    intro c hc g out
    simp [dnStep, hc]
  have hb4value : ∀ c, dnSpace c = true → ∀ g out, dnStep .b4value g c out = (.b4value, out) := by
    intro c hc g out
    have hquote : c ≠ '"' := by
      rintro rfl
      cases hc
    simp [dnStep, hc, hquote]
  obtain ⟨g₁, hbefore, -⟩ := run_blanks hb4type w.beforeType g out
  obtain ⟨g₂, hafter, hg₂⟩ := run_blanks hb4value w.afterEqual false ('=' :: (p.type.reverse ++ out))
  rw [DnRun.run_append, hbefore, DnRun.run_append, run_type, DnRun.run_append]
  show ((DnRun.run _ w.beforeEqual.text).next '=').run (w.afterEqual.text ++ t) = _
  rw [run_equal, DnRun.run_append, hafter, hg₂ rfl]

/-- Behind an escaped backslash both backslashes are written, and the flag is still set. -/
def AfterChar (c : Option DnChar) (out : Text) : Prop := c = some (.escaped '\\') → ∃ z, out = '\\' :: '\\' :: z

/-- A character of an unquoted value. -/
theorem run_char {c : DnChar} (hwf : ∀ d, c = .plain d → d ≠ '\\' ∧ dnSeparator d = false) (g : Bool) (out : Text) :
    ∃ out', DnRun.run ⟨.invalue, g, out⟩ c.text = ⟨.invalue, c = .escaped '\\', out'⟩ ∧ AfterChar (some c) out' := by
  cases c with
  | plain d =>
    obtain ⟨hslash, hsep⟩ := hwf d rfl
    have hnext : ∃ out', DnRun.next ⟨.invalue, g, out⟩ d = ⟨.invalue, false, out'⟩ := by
      by_cases hundo : g = true ∧ dnNeedsescape d = false
      · exact ⟨_, by simp [DnRun.next, dnStep, hsep, hundo, hslash]; rfl⟩
      · exact ⟨_, by simp [DnRun.next, dnStep, hsep, hundo, hslash]; rfl⟩
    obtain ⟨out', hnext⟩ := hnext
    exact ⟨out', by simpa [DnRun.run, DnChar.text] using hnext, by simp [AfterChar]⟩
  | escaped d =>
    have hfirst : DnRun.next ⟨.invalue, g, out⟩ '\\' = ⟨.invalue, true, '\\' :: out⟩ := by simp [DnRun.next, dnStep]
    by_cases hundo : dnNeedsescape d = false ∧ dnSeparator d = false
    · have hslash := (dnNeedsescape_false hundo.1).1
      refine ⟨d :: out, ?_, by simp [AfterChar, hslash]⟩
      show (DnRun.next ⟨.invalue, g, out⟩ '\\').next d = _
      rw [hfirst]
      simp [DnRun.next, dnStep, hundo, hslash]
    · refine ⟨d :: '\\' :: out, ?_, ?_⟩
      · show (DnRun.next ⟨.invalue, g, out⟩ '\\').next d = _
        rw [hfirst]
        simp [DnRun.next, dnStep, hundo]
      · intro hd
        have hd : d = '\\' := by simpa using hd
        exact ⟨out, by rw [hd]⟩

/-- The first character of one. -/
theorem run_char_first {c : DnChar} (hwf : ∀ d, c = .plain d → d ≠ '\\' ∧ dnSpace d = false ∧ d ≠ '"') (g : Bool) (out : Text) :
    ∃ out', DnRun.run ⟨.b4value, g, out⟩ c.text = ⟨.invalue, c = .escaped '\\', out'⟩ ∧ AfterChar (some c) out' := by
  cases c with
  | plain d =>
    obtain ⟨hslash, hspace, hquote⟩ := hwf d rfl
    refine ⟨d :: out, ?_, by simp [AfterChar]⟩
    show DnRun.next ⟨.b4value, g, out⟩ d = _
    simp [DnRun.next, dnStep, hspace, hquote, hslash]
  | escaped d =>
    have hfirst : DnRun.next ⟨.b4value, g, out⟩ '\\' = DnRun.next ⟨.invalue, g, out⟩ '\\' := by simp [DnRun.next, dnStep]
    obtain ⟨out', hrun, hafter⟩ := run_char (c := .escaped d) (by simp) g out
    refine ⟨out', ?_, hafter⟩
    show (DnRun.next ⟨.b4value, g, out⟩ '\\').next d = _
    rw [hfirst]
    exact hrun

/-- A character between quotes. -/
theorem run_char_quoted {c : DnChar} (hwf : ∀ d, c = .plain d → d ≠ '\\' ∧ d ≠ '"') (g : Bool) (out : Text) :
    ∃ out', DnRun.run ⟨.inquotedvalue, g, out⟩ c.text = ⟨.inquotedvalue, c = .escaped '\\', out'⟩ ∧ AfterChar (some c) out' := by
  cases c with
  | plain d =>
    obtain ⟨hslash, hquote⟩ := hwf d rfl
    have hnext : ∃ out', DnRun.next ⟨.inquotedvalue, g, out⟩ d = ⟨.inquotedvalue, false, out'⟩ := by
      by_cases hundo : g = true ∧ dnNeedsescape d = false
      · exact ⟨_, by simp [DnRun.next, dnStep, hundo, hquote, hslash]; rfl⟩
      · exact ⟨_, by simp [DnRun.next, dnStep, hundo, hquote, hslash]; rfl⟩
    obtain ⟨out', hnext⟩ := hnext
    exact ⟨out', by simpa [DnRun.run, DnChar.text] using hnext, by simp [AfterChar]⟩
  | escaped d =>
    have hfirst : DnRun.next ⟨.inquotedvalue, g, out⟩ '\\' = ⟨.inquotedvalue, true, '\\' :: out⟩ := by simp [DnRun.next, dnStep]
    by_cases hundo : dnNeedsescape d = false
    · have hslash := (dnNeedsescape_false hundo).1
      refine ⟨d :: out, ?_, by simp [AfterChar, hslash]⟩
      show (DnRun.next ⟨.inquotedvalue, g, out⟩ '\\').next d = _
      rw [hfirst]
      simp [DnRun.next, dnStep, hundo, hslash]
    · refine ⟨d :: '\\' :: out, ?_, ?_⟩
      · show (DnRun.next ⟨.inquotedvalue, g, out⟩ '\\').next d = _
        rw [hfirst]
        simp [DnRun.next, dnStep, hundo]
      · intro hd
        have hd : d = '\\' := by simpa using hd
        exact ⟨out, by rw [hd]⟩

/-- Characters that each leave the state as it is. -/
theorem run_chars {st : DnState} {chars : List DnChar} (hstep : ∀ c ∈ chars, ∀ g out, ∃ out',
      DnRun.run ⟨st, g, out⟩ c.text = ⟨st, c = .escaped '\\', out'⟩ ∧ AfterChar (some c) out') (g : Bool) (out : Text) :
    ∃ out', DnRun.run ⟨st, g, out⟩ (chars.flatMap DnChar.text) =
      ⟨st, if chars = [] then g else decide (chars.getLast? = some (.escaped '\\')), out'⟩ ∧
        AfterChar chars.getLast? out' := by
  induction chars using List.reverseRecOn with
  | nil => exact ⟨out, rfl, by simp [AfterChar]⟩
  | append_singleton chars c ih =>
    obtain ⟨out₁, hrun, -⟩ := ih (fun d hd => hstep d (by simp [hd]))
    obtain ⟨out', hchar, hafter⟩ := hstep c (by simp) (if chars = [] then g else decide (chars.getLast? = some (.escaped '\\'))) out₁
    refine ⟨out', ?_, by rw [List.getLast?_concat]; exact hafter⟩
    rw [List.flatMap_append, DnRun.run_append, hrun, List.flatMap_singleton, hchar, List.getLast?_concat]
    simp

/-- An unquoted value that is not empty. -/
theorem run_unquoted {chars : List DnChar} (hne : chars ≠ []) (hwf : (DnValue.unquoted chars).Wf) (out : Text) :
    ∃ out', DnRun.run ⟨.b4value, false, out⟩ (chars.flatMap DnChar.text) =
      ⟨.invalue, chars.getLast? = some (.escaped '\\'), out'⟩ ∧ AfterChar chars.getLast? out' := by
  cases chars with
  | nil => exact absurd rfl hne
  | cons c chars =>
    obtain ⟨hplain, hhead⟩ := hwf
    have hfirst : ∀ d, c = .plain d → d ≠ '\\' ∧ dnSpace d = false ∧ d ≠ '"' := by
      rintro d rfl
      exact ⟨(hplain d (by simp)).1, hhead d rfl⟩
    have hstep : ∀ c ∈ chars, ∀ g out, ∃ out',
        DnRun.run ⟨.invalue, g, out⟩ c.text = ⟨.invalue, c = .escaped '\\', out'⟩ ∧ AfterChar (some c) out' := by
      intro d hd g out
      apply run_char
      rintro e rfl
      exact hplain e (by simp [hd])
    obtain ⟨out₁, hrun, hafter⟩ := run_char_first hfirst false out
    obtain ⟨out', hrest, hafter'⟩ := run_chars hstep (c = .escaped '\\') out₁
    rw [List.flatMap_cons, DnRun.run_append, hrun, hrest]
    cases chars with
    | nil =>
      have hout : out' = out₁ := by
        have hsame := congrArg DnRun.out hrest
        exact hsame.symm
      exact ⟨out', by simp, hout ▸ hafter⟩
    | cons d chars => exact ⟨out', by simp, by rw [List.getLast?_cons_cons]; exact hafter'⟩

/-- A quoted value: its last quote is taken for an escaped one behind an escaped backslash. -/
theorem run_quoted {chars : List DnChar} (hwf : (DnValue.quoted chars).Wf) (out : Text) :
    ∃ out', DnRun.run ⟨.b4value, false, out⟩ (DnValue.quoted chars).text =
      ⟨if chars.getLast? = some (.escaped '\\') then .inquotedvalue else .b4separator, false, '"' :: out'⟩ := by
  have hstep : ∀ c ∈ chars, ∀ g out, ∃ out',
      DnRun.run ⟨.inquotedvalue, g, out⟩ c.text = ⟨.inquotedvalue, c = .escaped '\\', out'⟩ ∧ AfterChar (some c) out' := by
    intro d hd g out
    apply run_char_quoted
    rintro e rfl
    exact hwf e hd
  obtain ⟨out', hrun, -⟩ := run_chars hstep false ('"' :: out)
  have hopen : DnRun.next ⟨.b4value, false, out⟩ '"' = ⟨.inquotedvalue, false, '"' :: out⟩ := rfl
  refine ⟨out', ?_⟩
  show (DnRun.next ⟨.b4value, false, out⟩ '"').run (chars.flatMap DnChar.text ++ ['"']) = _
  rw [hopen, DnRun.run_concat, hrun]
  by_cases hlast : chars.getLast? = some (.escaped '\\')
  · have hne : chars ≠ [] := by
      rintro rfl
      cases hlast
    simp [DnRun.next, dnStep, hlast, hne, dnNeedsescape]
  · by_cases hnil : chars = []
    · simp [DnRun.next, dnStep, hnil]
    · simp [DnRun.next, dnStep, hlast, hnil]

/-- **A value in front of a separator**: behind both, all is as it is without the blanks and with the other character. -/
theorem run_regular {plus : Bool} {v : DnValue} (hwf : v.Wf) (hreg : v.Regular plus) (out : Text) :
    ∃ out', ∀ (b : Blanks) (semicolon : Bool),
      DnRun.run ⟨.b4value, false, out⟩ (v.text ++ (b.text ++ [dnSep plus semicolon])) = ⟨.b4type, false, out'⟩ := by
  cases v with
  | unquoted chars =>
    obtain ⟨out₁, hrun, -⟩ := run_unquoted hreg.1 hwf out
    have hblanks : ∀ (t out : Text), (∀ c ∈ t, dnSpace c = true) →
        ∃ t', DnRun.run ⟨.invalue, false, out⟩ t = ⟨.invalue, false, t' ++ out⟩ ∧ ∀ c ∈ t', dnSpace c = true := by
      intro t
      induction t with
      | nil => exact fun out _ => ⟨[], rfl, by simp⟩
      | cons c t ih =>
        intro out ht
        have hc := ht c (by simp)
        have hplain : dnSeparator c = false ∧ c ≠ '\\' := by
          unfold dnSpace at hc
          simp only [Bool.or_eq_true, decide_eq_true_eq] at hc
          rcases hc with rfl | rfl <;> exact ⟨rfl, by decide⟩
        have hnext : DnRun.next ⟨.invalue, false, out⟩ c = ⟨.invalue, false, c :: out⟩ := by
          simp [DnRun.next, dnStep, hplain]
        obtain ⟨t', ht', hblank⟩ := ih (c :: out) (fun d hd => ht d (by simp [hd]))
        refine ⟨t' ++ [c], ?_, ?_⟩
        · show (DnRun.next ⟨.invalue, false, out⟩ c).run t = _
          rw [hnext, ht']
          simp
        · intro d hd
          obtain hd | hd := List.mem_append.mp hd
          · exact hblank d hd
          · rw [List.mem_singleton.mp hd]
            exact hc
    refine ⟨(if plus then '+' else ',') :: out₁.dropWhile dnSpace, ?_⟩
    intro b semicolon
    obtain ⟨t', ht', hblank⟩ := hblanks b.text out₁ b.isBlank
    show DnRun.run _ (chars.flatMap DnChar.text ++ (b.text ++ [dnSep plus semicolon])) = _
    rw [DnRun.run_append, hrun, decide_eq_false hreg.2, DnRun.run_concat, ht']
    have hdrop : (t' ++ out₁).dropWhile dnSpace = out₁.dropWhile dnSpace := List.dropWhile_append_of_pos hblank
    cases plus <;> cases semicolon <;> simp [DnRun.next, dnStep, dnSep, dnSeparator, hdrop]
  | quoted chars =>
    obtain ⟨rfl, hlast⟩ := hreg
    obtain ⟨out₁, hrun⟩ := run_quoted hwf out
    rw [if_neg hlast] at hrun
    have hb4separator : ∀ c, dnSpace c = true → ∀ g out, dnStep .b4separator g c out = (.b4separator, out) := by
      intro c hc g out
      have hsep : dnSeparator c = false := by
        unfold dnSpace at hc
        simp only [Bool.or_eq_true, decide_eq_true_eq] at hc
        rcases hc with rfl | rfl <;> rfl
      simp [dnStep, hsep]
    refine ⟨'+' :: '"' :: out₁, ?_⟩
    intro b semicolon
    obtain ⟨g', hblanks, -⟩ := run_blanks hb4separator b false ('"' :: out₁)
    rw [DnRun.run_append, hrun, DnRun.run_concat, hblanks]
    rfl

/-- The state behind each separator is the same however the name is written. -/
theorem dnText_same {front : List (DnPart × Bool)} (hreg : ∀ p ∈ front, p.1.value.Regular p.2) (last : DnPart) :
    ∀ (w w' : Nat → DnPads) (g g' : Bool) (out : Text),
      (DnRun.run ⟨.b4type, g, out⟩ (dnText w front last)).out = (DnRun.run ⟨.b4type, g', out⟩ (dnText w' front last)).out := by
  induction front with
  | nil =>
    intro w w' g g' out
    show (DnRun.run _ (last.text (w 0))).out = (DnRun.run _ (last.text (w' 0))).out
    unfold DnPart.text
    rw [run_head, run_head]
  | cons p front ih =>
    intro w w' g g' out
    obtain ⟨out', hrun⟩ := run_regular p.1.value_wf (hreg p (by simp)) ('=' :: (p.1.type.reverse ++ out))
    have hpart : ∀ (w : Nat → DnPads) (g : Bool), DnRun.run ⟨.b4type, g, out⟩ (dnText w (p :: front) last) =
        DnRun.run ⟨.b4type, false, out'⟩ (dnText (fun i => w (i + 1)) front last) := by
      intro w g
      have htext : dnText w (p :: front) last = p.1.text (w 0) ++ ((w 0).afterValue.text ++ [dnSep p.2 (w 0).semicolon]) ++
          dnText (fun i => w (i + 1)) front last := by simp [dnText]
      rw [htext, DnRun.run_append]
      unfold DnPart.text
      simp only [List.append_assoc, List.cons_append]
      rw [run_head, hrun]
    rw [hpart, hpart]
    exact ih (fun q hq => hreg q (by simp [hq])) _ _ _ _ _

/-! ## Names with more than one form -/

/-- What is written from here on does not touch what was written before. -/
def Framed (r : DnRun) : Prop := r.gotesc = true → r.state = .invalue ∨ r.state = .inquotedvalue → r.out ≠ []

/-- The same point with more written before it. -/
def DnRun.above (r : DnRun) (base : Text) : DnRun := { r with out := r.out ++ base }

theorem DnRun.next_above (h : Framed r) {a : Char} (ha : dnSpace a = false) (base : Text) (s : Char) :
    (r.above (a :: base)).next s = (r.next s).above (a :: base) ∧ Framed (r.next s) := by
  have hdrop : (r.out ++ a :: base).dropWhile dnSpace = r.out.dropWhile dnSpace ++ a :: base := by
    rw [List.dropWhile_append]
    cases hout : r.out.dropWhile dnSpace with
    | nil => simp [ha]
    | cons c out => simp
  have htail : r.out ≠ [] → (r.out ++ a :: base).tail = r.out.tail ++ a :: base := List.tail_append_of_ne_nil
  obtain ⟨state, gotesc, out⟩ := r
  unfold DnRun.above DnRun.next Framed dnStep
  dsimp only at h hdrop htail ⊢
  cases state with
  | b4type => by_cases hs : dnSpace s = true <;> simp [hs]
  | intype => by_cases heq : s = '=' <;> by_cases hs : dnSpace s = true <;> simp [heq, hs]
  | b4equal => by_cases heq : s = '=' <;> by_cases hs : dnSpace s = true <;> simp [heq, hs]
  | b4value => by_cases heq : s = '"' <;> by_cases hs : dnSpace s = true <;> simp [heq, hs]
  | b4separator => by_cases hs : dnSeparator s = true <;> simp [hs]
  | invalue =>
    dsimp only
    rw [hdrop]
    by_cases hsep : ¬ gotesc = true ∧ dnSeparator s = true
    · rw [if_pos hsep, if_pos hsep]
      simp
    · rw [if_neg hsep, if_neg hsep]
      by_cases hundo : gotesc = true ∧ ¬ dnNeedsescape s = true ∧ ¬ dnSeparator s = true
      · rw [if_pos hundo, if_pos hundo, htail (h hundo.1 (.inl rfl))]
        simp
      · rw [if_neg hundo, if_neg hundo]
        simp
  | inquotedvalue =>
    dsimp only
    by_cases hquote : ¬ gotesc = true ∧ s = '"'
    · rw [if_pos hquote, if_pos hquote]
      simp
    · rw [if_neg hquote, if_neg hquote]
      by_cases hundo : gotesc = true ∧ ¬ dnNeedsescape s = true
      · rw [if_pos hundo, if_pos hundo, htail (h hundo.1 (.inr rfl))]
        simp
      · rw [if_neg hundo, if_neg hundo]
        simp

theorem DnRun.run_above {a : Char} (ha : dnSpace a = false) (base t : Text) : ∀ {r : DnRun}, Framed r →
    (r.above (a :: base)).run t = (r.run t).above (a :: base) := by
  induction t with
  | nil => exact fun _ => rfl
  | cons s t ih =>
    intro r h
    obtain ⟨hnext, hframed⟩ := DnRun.next_above h ha base s
    show ((r.above (a :: base)).next s).run t = ((r.next s).run t).above (a :: base)
    rw [hnext]
    exact ih hframed

/-- From a point where the flag is not set. -/
theorem run_framed {a : Char} (ha : dnSpace a = false) (st : DnState) (base t : Text) :
    (DnRun.run ⟨st, false, a :: base⟩ t).out = (DnRun.run ⟨st, false, []⟩ t).out ++ a :: base := by
  have hframed : Framed ⟨st, false, []⟩ := fun h => by cases h
  exact congrArg DnRun.out (DnRun.run_above ha base t hframed)

theorem append_cons_ne {a b : Char} (hab : a ≠ b) (base z z' : Text) : z ++ a :: base ≠ z' ++ b :: base := by
  intro h
  have hrev := congrArg List.reverse h
  simp only [List.reverse_append, List.reverse_cons, List.append_assoc, List.singleton_append] at hrev
  have hcons := List.append_cancel_left hrev
  exact hab (List.cons.inj hcons).1

/-- Where the comma stays what it is, as a semicolon does. -/
theorem run_irregular {v : DnValue} (hwf : v.Wf) (hreg : ¬ v.Regular false) (out : Text) :
    ∃ st base, ∀ semicolon, DnRun.run ⟨.b4value, false, out⟩ (v.text ++ [dnSep false semicolon]) =
      ⟨st, false, dnSep false semicolon :: base⟩ := by
  cases v with
  | unquoted chars =>
    by_cases hnil : chars = []
    · subst hnil
      refine ⟨.invalue, out, ?_⟩
      intro semicolon
      cases semicolon <;> rfl
    · have hlast : chars.getLast? = some (.escaped '\\') := by
        by_contra hlast
        exact hreg ⟨hnil, hlast⟩
      obtain ⟨out', hrun, -⟩ := run_unquoted hnil hwf out
      refine ⟨.invalue, out', ?_⟩
      intro semicolon
      rw [DnRun.run_concat]
      show (DnRun.run _ (chars.flatMap DnChar.text)).next _ = _
      rw [hrun, decide_eq_true hlast]
      cases semicolon <;> rfl
  | quoted chars =>
    obtain ⟨out', hrun⟩ := run_quoted hwf out
    refine ⟨if chars.getLast? = some (.escaped '\\') then .inquotedvalue else .b4type, '"' :: out', ?_⟩
    intro semicolon
    rw [DnRun.run_concat, hrun]
    by_cases hlast : chars.getLast? = some (.escaped '\\')
    · rw [if_pos hlast, if_pos hlast]
      cases semicolon <;> rfl
    · rw [if_neg hlast, if_neg hlast]
      cases semicolon <;> rfl

/-- Behind a value that is not empty a blank in front of a plus is seen in what is written. -/
theorem run_irregular_plus {v : DnValue} (hwf : v.Wf) (hreg : ¬ v.Regular true) (hne : v ≠ .unquoted []) (out t : Text) :
    (DnRun.run ⟨.b4value, false, out⟩ (v.text ++ '+' :: t)).out ≠
      (DnRun.run ⟨.b4value, false, out⟩ (v.text ++ ' ' :: '+' :: t)).out := by
  have hsplit : ∀ r : DnRun, r.run ('+' :: t) = (r.next '+').run t := fun _ => rfl
  have hsplit' : ∀ r : DnRun, r.run (' ' :: '+' :: t) = ((r.next ' ').next '+').run t := fun _ => rfl
  rw [DnRun.run_append, DnRun.run_append, hsplit, hsplit']
  cases v with
  | unquoted chars =>
    have hnil : chars ≠ [] := by
      rintro rfl
      exact hne rfl
    have hlast : chars.getLast? = some (.escaped '\\') := by
      by_contra hlast
      exact hreg ⟨hnil, hlast⟩
    obtain ⟨out', hrun, hafter⟩ := run_unquoted hnil hwf out
    obtain ⟨z, rfl⟩ := hafter hlast
    show ((DnRun.run _ (chars.flatMap DnChar.text)).next '+' |>.run t).out ≠
      (((DnRun.run _ (chars.flatMap DnChar.text)).next ' ').next '+' |>.run t).out
    rw [hrun, decide_eq_true hlast]
    show (DnRun.run ⟨.invalue, false, '+' :: '\\' :: '\\' :: z⟩ t).out ≠ (DnRun.run ⟨.b4type, false, '+' :: '\\' :: z⟩ t).out
    rw [run_framed rfl, run_framed rfl]
    intro heq
    apply append_cons_ne (show '\\' ≠ '+' by decide) ('\\' :: z) ((DnRun.run ⟨.invalue, false, []⟩ t).out ++ ['+'])
    simpa using heq
  | quoted chars =>
    have hlast : chars.getLast? = some (.escaped '\\') := by
      by_contra hlast
      exact hreg ⟨rfl, hlast⟩
    obtain ⟨out', hrun⟩ := run_quoted hwf out
    rw [hrun, if_pos hlast]
    show (DnRun.run ⟨.inquotedvalue, false, '+' :: '"' :: out'⟩ t).out ≠
      (DnRun.run ⟨.inquotedvalue, false, '+' :: ' ' :: '"' :: out'⟩ t).out
    rw [run_framed rfl, run_framed rfl]
    intro heq
    have hlength := congrArg List.length heq
    simp at hlength

/-- Behind an empty value so is a blank in front of the next type. -/
theorem run_irregular_empty {c : Char} (hspace : dnSpace c = false) (hslash : c ≠ '\\') (hsep : dnSeparator c = false) (out t : Text) :
    (DnRun.run ⟨.b4value, false, out⟩ ('+' :: c :: t)).out ≠ (DnRun.run ⟨.b4value, false, out⟩ ('+' :: ' ' :: c :: t)).out := by
  have hnext : ∀ base, DnRun.next ⟨.invalue, false, base⟩ c = ⟨.invalue, false, c :: base⟩ := by
    intro base
    simp [DnRun.next, dnStep, hsep, hslash]
  show ((DnRun.next ⟨.invalue, false, '+' :: out⟩ c).run t).out ≠ ((DnRun.next ⟨.invalue, false, ' ' :: '+' :: out⟩ c).run t).out
  rw [hnext, hnext, run_framed hspace, run_framed hspace]
  intro heq
  have hlength := congrArg List.length heq
  simp at hlength

/-- The ways of the parts behind the first, and that of the first. -/
def consPads (x : DnPads) (w : Nat → DnPads) : Nat → DnPads
  | 0 => x
  | i + 1 => w i

/-- Nothing but what is needed. -/
def DnPads.bare : DnPads := ⟨.none, .none, .none, .none, false⟩

theorem dnText_cons (x : DnPads) (w : Nat → DnPads) (p : DnPart × Bool) (front : List (DnPart × Bool)) (last : DnPart) (g : Bool)
    (out : Text) : DnRun.run ⟨.b4type, g, out⟩ (dnText (consPads x w) (p :: front) last) =
      DnRun.run ⟨.b4value, false, '=' :: (p.1.type.reverse ++ out)⟩
        (p.1.value.text ++ (x.afterValue.text ++ dnSep p.2 x.semicolon :: dnText w front last)) := by
  have htext : dnText (consPads x w) (p :: front) last = x.beforeType.text ++ (p.1.type ++ (x.beforeEqual.text ++
      '=' :: (x.afterEqual.text ++ (p.1.value.text ++ (x.afterValue.text ++ dnSep p.2 x.semicolon :: dnText w front last))))) := by
    simp [dnText, consPads, DnPart.text]
  rw [htext, run_head]

/-- A name begins with a character of a type, or with a blank if one is put there. -/
theorem dnText_first (front : List (DnPart × Bool)) (last : DnPart) : ∃ (w w' : Nat → DnPads) (c : Char) (t : Text),
    dnText w front last = c :: t ∧ dnText w' front last = ' ' :: c :: t ∧
      dnSpace c = false ∧ c ≠ '\\' ∧ dnSeparator c = false := by
  have hpart : ∀ p : DnPart, ∃ c t, p.text .bare = c :: t ∧ p.text { DnPads.bare with beforeType := .one } = ' ' :: c :: t ∧
      dnSpace c = false ∧ c ≠ '\\' ∧ dnSeparator c = false := by
    intro p
    obtain ⟨c, t, ht⟩ := List.exists_cons_of_ne_nil p.type_ne_nil
    obtain ⟨hspace, -, hslash, hsep⟩ := p.type_text c (by simp [ht])
    exact ⟨c, t ++ '=' :: p.value.text, by simp [DnPart.text, DnPads.bare, Blanks.none, ht],
      by simp [DnPart.text, DnPads.bare, Blanks.none, Blanks.one, ht], hspace, hslash, hsep⟩
  cases front with
  | nil =>
    obtain ⟨c, t, hbare, hone, hc⟩ := hpart last
    exact ⟨fun _ => .bare, fun _ => { DnPads.bare with beforeType := .one }, c, t, hbare, hone, hc⟩
  | cons p front =>
    obtain ⟨c, t, hbare, hone, hc⟩ := hpart p.1
    refine ⟨fun _ => .bare, consPads { DnPads.bare with beforeType := .one } (fun _ => .bare), c,
      t ++ dnSep p.2 false :: dnText (fun _ => .bare) front last, ?_, ?_, hc⟩
    · show p.1.text .bare ++ _ = _
      rw [hbare]
      rfl
    · show p.1.text { DnPads.bare with beforeType := .one } ++ _ = _
      rw [hone]
      rfl

/-- **A name that is not regular can be written in two ways** with different forms. -/
theorem dnText_apart {front : List (DnPart × Bool)} (hreg : ¬ ∀ p ∈ front, p.1.value.Regular p.2) (last : DnPart) :
    ∀ (g : Bool) (out : Text), ∃ w w' : Nat → DnPads,
      (DnRun.run ⟨.b4type, g, out⟩ (dnText w front last)).out ≠ (DnRun.run ⟨.b4type, g, out⟩ (dnText w' front last)).out := by
  induction front with
  | nil => exact absurd (by simp) hreg
  | cons p front ih =>
    intro g out
    by_cases hhead : p.1.value.Regular p.2
    · -- the values behind it are not all regular
      have htail : ¬ ∀ q ∈ front, q.1.value.Regular q.2 := by
        intro hall
        apply hreg
        intro q hq
        obtain rfl | hq := List.mem_cons.mp hq
        · exact hhead
        · exact hall q hq
      obtain ⟨out', hrun⟩ := run_regular p.1.value_wf hhead ('=' :: (p.1.type.reverse ++ out))
      obtain ⟨w, w', hne⟩ := ih htail false out'
      refine ⟨consPads .bare w, consPads .bare w', ?_⟩
      have hpart : ∀ w, DnRun.run ⟨.b4type, g, out⟩ (dnText (consPads .bare w) (p :: front) last) =
          DnRun.run ⟨.b4type, false, out'⟩ (dnText w front last) := by
        intro w
        have happ : p.1.value.text ++ ((DnPads.bare).afterValue.text ++ dnSep p.2 (DnPads.bare).semicolon :: dnText w front last) =
            (p.1.value.text ++ (Blanks.none.text ++ [dnSep p.2 false])) ++ dnText w front last := by
          simp [DnPads.bare, Blanks.none]
        rw [dnText_cons, happ, DnRun.run_append, hrun]
      rw [hpart, hpart]
      exact hne
    · cases hplus : p.2 with
      | false =>
        rw [hplus] at hhead
        obtain ⟨st, base, hrun⟩ := run_irregular p.1.value_wf hhead ('=' :: (p.1.type.reverse ++ out))
        refine ⟨consPads { DnPads.bare with semicolon := false } (fun _ => .bare),
          consPads { DnPads.bare with semicolon := true } (fun _ => .bare), ?_⟩
        have hpart : ∀ semicolon, DnRun.run ⟨.b4type, g, out⟩
            (dnText (consPads { DnPads.bare with semicolon := semicolon } (fun _ => .bare)) (p :: front) last) =
              DnRun.run ⟨st, false, dnSep false semicolon :: base⟩ (dnText (fun _ => .bare) front last) := by
          intro semicolon
          rw [dnText_cons, hplus]
          have happ : p.1.value.text ++ (Blanks.none.text ++ dnSep false semicolon :: dnText (fun _ => .bare) front last) =
              (p.1.value.text ++ [dnSep false semicolon]) ++ dnText (fun _ => .bare) front last := by simp [Blanks.none]
          exact (congrArg (DnRun.run _) happ).trans (by rw [DnRun.run_append, hrun])
        rw [hpart false, hpart true, run_framed rfl, run_framed rfl]
        intro heq
        have hsame := List.append_cancel_left heq
        cases hsame
      | true =>
        rw [hplus] at hhead
        by_cases hempty : p.1.value = .unquoted []
        · obtain ⟨w, w', c, t, hw, hw', hspace, hslash, hsep⟩ := dnText_first front last
          refine ⟨consPads .bare w, consPads .bare w', ?_⟩
          rw [dnText_cons, dnText_cons, hempty, hplus, hw, hw']
          exact run_irregular_empty hspace hslash hsep _ t
        · refine ⟨consPads .bare (fun _ => .bare), consPads { DnPads.bare with afterValue := .one } (fun _ => .bare), ?_⟩
          rw [dnText_cons, dnText_cons, hplus]
          exact run_irregular_plus p.1.value_wf hhead hempty _ _

/-! ## The normal form -/

theorem dnNormalize_same_iff (n : DnName) : (∀ w w', dnNormalize (n.text w) = dnNormalize (n.text w')) ↔ n.Regular := by
  unfold DnName.text
  constructor
  · intro hsame
    by_contra hreg
    obtain ⟨w, w', hne⟩ := dnText_apart hreg n.last false []
    apply hne
    have h := hsame w w'
    rw [dnNormalize_run, dnNormalize_run] at h
    exact List.reverse_inj.mp h
  · intro hreg w w'
    rw [dnNormalize_run, dnNormalize_run]
    exact congrArg List.reverse (dnText_same hreg n.last w w' false false [])

/-- **The form of a name.**  It is never longer than the name, and it is its own form when no escape is undone twice.  A
    name has one form, however it is written, just when it is regular; the form in small letters then does not depend on
    the letter case either. -/
theorem dn_canonical (dn : Text) (n : DnName) :
    (dnNormalize dn).length ≤ dn.length ∧ (dnNormalizeCase dn).length ≤ dn.length ∧
    (EscapesOnce dn → dnNormalize (dnNormalize dn) = dnNormalize dn ∧
      dnNormalizeCase (dnNormalizeCase dn) = dnNormalizeCase dn) ∧
    ((∀ w w', dnNormalize (n.text w) = dnNormalize (n.text w')) ↔ n.Regular) ∧
    (n.Regular → ∀ (w w' : Nat → DnPads) (dn dn' : Text), dn.map Char.toLower = n.text w →
      dn'.map Char.toLower = n.text w' → dnNormalizeCase dn = dnNormalizeCase dn') := by
  have hlength := dnNormalize_length dn
  refine ⟨hlength, ?_, fun h => ⟨dnNormalize_idem h, dnNormalizeCase_idem h⟩, dnNormalize_same_iff n, ?_⟩
  · unfold dnNormalizeCase
    rwa [List.length_map]
  · intro hreg w w' dn dn' hdn hdn'
    unfold dnNormalizeCase
    rw [← dnNormalize_lower, ← dnNormalize_lower, hdn, hdn']
    exact (dnNormalize_same_iff n).mpr hreg w w'

/-- A part with a value of one letter. -/
def letterPart (quoted : Bool) (type value : Char) (htype : dnSpace type = false ∧ type ≠ '=' ∧ type ≠ '\\' ∧ dnSeparator type = false)
    (hvalue : dnSpace value = false ∧ value ≠ '"' ∧ value ≠ '\\' ∧ dnSeparator value = false) : DnPart where
  type := [type]
  value := if quoted then .quoted [.plain value] else .unquoted [.plain value]
  type_ne_nil := List.cons_ne_nil _ _
  type_text := by simpa using htype
  value_wf := by
    cases quoted <;> simp [DnValue.Wf, hvalue]

/-- `a=b,c=d`. -/
def lettersName (quoted : Bool) : DnName where
  front := [(letterPart quoted 'a' 'b' (by decide) (by decide), false)]
  last := letterPart false 'c' 'd' (by decide) (by decide)

theorem dn_canonical_letters :
    (dnNormalize (dnNormalize "a = b ; c=d".toList) = dnNormalize "a = b ; c=d".toList ∧
      dnNormalizeCase (dnNormalizeCase "a = b ; c=d".toList) = dnNormalizeCase "a = b ; c=d".toList) ∧
    dnNormalize ((lettersName false).text fun _ => .bare) =
      dnNormalize ((lettersName false).text fun _ => { DnPads.bare with semicolon := true }) := by
  constructor
  · apply (dn_canonical _ (lettersName false)).2.2.1
    intro u s v h
    have hmem : '\\' ∈ "a = b ; c=d".toList := by
      rw [h]
      simp
    exact absurd hmem (by decide)
  · apply (dn_canonical [] (lettersName false)).2.2.2.1.mpr
    intro p hp
    rw [List.mem_singleton.mp hp]
    exact ⟨by decide, by decide⟩

/-- Behind an escaped backslash the flag stays set, and behind a quoted value a semicolon stays what it is. -/
theorem not_dn_canonical :
    dnNormalize (dnNormalize "a=\\\\x".toList) ≠ dnNormalize "a=\\\\x".toList ∧
    dnNormalize ((lettersName true).text fun _ => .bare) ≠
      dnNormalize ((lettersName true).text fun _ => { DnPads.bare with semicolon := true }) := by
  decide +kernel

end Simta
