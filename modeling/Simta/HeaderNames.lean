import Simta.HeaderRecipients

/-!
# The names of the headers

Which lines `header_lines` takes for the headers that the program knows: those whose name is the beginning of a key.

* `begins`, `isNamed` — the lines that are taken for a header, and those that have its name;
* `headKeys_spec`, `headerLines_spec` — one line, and all of them;
* `headerLines_exact_iff` — when the lines that are taken for headers are the ones with their names.
-/

set_option autoImplicit false

namespace Simta

variable {conf : HeaderConf} {lines : List Text} {lf : LineFile} {l : Nat}

/-! ## The lines that are found -/

/-- A line that `header_lines` takes for the header: its name is the beginning of the key. -/
def begins (lines : List Text) (key : HeadKey) (l : Nat) : Bool :=
  !folds (lines.getD l []) && strncaseEq key.hKey (lineName (lines.getD l []))

/-- The line that is taken for the header. -/
def lineFor (lines : List Text) (key : HeadKey) : Option Nat := (List.range lines.length).find? (begins lines key)

/-- A line with the name of the header. -/
def isNamed (lines : List Text) (key : HeadKey) (l : Nat) : Bool :=
  !folds (lines.getD l []) && strcaseEq key.hKey (lineName (lines.getD l []))

/-- The line that has the name of the header. -/
def namedLine (lines : List Text) (key : HeadKey) : Option Nat :=
  (List.range lines.length).find? (isNamed lines key)

theorem headKeys_spec {name : Text} {l : Nat} (keys : List HeadKey) : ∀ {h h' : HeadLines},
    headKeys name l keys h = .ok h' → ∀ key l',
      h' key = some l' ↔ h key = some l' ∨ (key ∈ keys ∧ strncaseEq key.hKey name = true ∧ l' = l) := by
  induction keys with
  | nil =>
    intro h h' hrun key l'
    cases hrun
    simp
  | cons k keys ih =>
    intro h h' hrun key l'
    unfold headKeys at hrun
    split at hrun
    · rename_i hmatch
      split at hrun
      · rename_i hnone
        rw [ih hrun key l']
        by_cases hkey : key = k
        · subst hkey
          rw [Function.update_self, hnone]
          simp [hmatch, eq_comm]
        · rw [Function.update_of_ne hkey]
          simp [hkey]
      · cases hrun
    · rename_i hmatch
      rw [ih hrun key l', List.mem_cons]
      by_cases hkey : key = k
      · subst hkey
        simp [hmatch]
      · simp [hkey]

theorem mem_headersSimsendmail (key : HeadKey) : key ∈ headersSimsendmail := by
  cases key <;> decide

theorem headerLinesLoop_spec (lf : LineFile) (ids : List Nat) : ∀ {h h' : HeadLines},
    headerLinesLoop lf ids h = .ok h' → ∀ key l,
      h' key = some l ↔ h key = some l ∨ (l ∈ ids ∧ folds (lf.heap l).lineData = false ∧
        strncaseEq key.hKey (lineName (lf.heap l).lineData) = true) := by
  induction ids with
  | nil =>
    intro h h' hrun key l
    cases hrun
    simp
  | cons i ids ih =>
    intro h h' hrun key l
    unfold headerLinesLoop at hrun
    dsimp only at hrun
    split at hrun
    · rename_i hfolds
      rw [ih hrun key l, List.mem_cons]
      by_cases hl : l = i
      · subst hl
        simp [hfolds]
      · simp [hl]
    · rename_i hfolds
      split at hrun
      · obtain ⟨h₁, hkeys, hrest⟩ := bind_eq_ok.mp hrun
        rw [ih hrest key l, headKeys_spec headersSimsendmail hkeys key l, List.mem_cons]
        by_cases hl : l = i
        · subst hl
          simp [mem_headersSimsendmail, hfolds, or_assoc]
          tauto
        · simp [hl]
      · cases hrun

/-- **`header_lines` finds the lines** that it takes for the headers, and no two for one header. -/
theorem headerLines_spec (h : Intact conf lines [] [] lf) {H : HeadLines} (hrun : headerLines lf = .ok H) :
    H = lineFor lines ∧ ∀ key l, lineFor lines key = some l ↔ l < lines.length ∧ begins lines key l = true := by
  have hspec : ∀ key l, H key = some l ↔ l < lines.length ∧ begins lines key l = true := by
    intro key l
    rw [headerLinesLoop_spec lf lf.reached hrun key l, h.list.reached_eq, List.nil_append, List.mem_range]
    unfold begins
    by_cases hl : l < lines.length
    · rw [h.untouched l hl List.not_mem_nil]
      simp [hl]
    · simp [hl]
  have hline : H = lineFor lines := by
    funext key
    unfold lineFor
    cases hfind : (List.range lines.length).find? (begins lines key) with
    | some l =>
      exact (hspec key l).mpr ⟨List.mem_range.mp (List.mem_of_find?_eq_some hfind), List.find?_some hfind⟩
    | none =>
      cases hkey : H key with
      | none => rfl
      | some l =>
        obtain ⟨hl, hbegins⟩ := (hspec key l).mp hkey
        exact absurd hbegins (List.find?_eq_none.mp hfind l (List.mem_range.mpr hl))
  subst hline
  exact ⟨rfl, hspec⟩


/-! ## The lines that are refused -/

/-- One line is refused when a header that it is taken for was there before. -/
theorem headKeys_error {name : Text} {l : Nat} {stop : ParseStop} (keys : List HeadKey) : ∀ {h : HeadLines},
    keys.Nodup → headKeys name l keys h = .error stop →
      stop = .reject ∧ ∃ key ∈ keys, ∃ l', strncaseEq key.hKey name = true ∧ h key = some l' := by
  induction keys with
  | nil =>
    intro h _ hrun
    cases hrun
  | cons k keys ih =>
    intro h hd hrun
    obtain ⟨hk, hd⟩ := List.nodup_cons.mp hd
    unfold headKeys at hrun
    split at hrun
    · rename_i hmatch
      split at hrun
      · obtain ⟨hstop, key, hkey, l', hname, hsome⟩ := ih hd hrun
        have hne : key ≠ k := fun heq => hk (heq ▸ hkey)
        rw [Function.update_of_ne hne] at hsome
        exact ⟨hstop, key, List.mem_cons_of_mem k hkey, l', hname, hsome⟩
      · rename_i l' hsome
        cases hrun
        exact ⟨rfl, k, List.mem_cons_self, l', hmatch, hsome⟩
    · obtain ⟨hstop, key, hkey, l', hname, hsome⟩ := ih hd hrun
      exact ⟨hstop, key, List.mem_cons_of_mem k hkey, l', hname, hsome⟩

/-- A line that is taken for the header, as its text is in the list. -/
def LineFile.Takes (lf : LineFile) (key : HeadKey) (l : Nat) : Prop :=
  folds (lf.heap l).lineData = false ∧ strncaseEq key.hKey (lineName (lf.heap l).lineData) = true

theorem headerLinesLoop_error {stop : ParseStop} (lf : LineFile) (ids : List Nat) : ∀ {h : HeadLines},
    ids.Nodup → (∀ i ∈ ids, folds (lf.heap i).lineData = false → ':' ∈ (lf.heap i).lineData) →
    (∀ key l, h key = some l → l ∉ ids) → headerLinesLoop lf ids h = .error stop →
      stop = .reject ∧ ∃ key l l', l ≠ l' ∧ (h key = some l ∨ (l ∈ ids ∧ lf.Takes key l)) ∧
        l' ∈ ids ∧ lf.Takes key l' := by
  induction ids with
  | nil =>
    intro h _ _ _ hrun
    cases hrun
  | cons i ids ih =>
    intro h hd hcolon hnew hrun
    obtain ⟨hi, hd⟩ := List.nodup_cons.mp hd
    have hcolon' : ∀ i ∈ ids, folds (lf.heap i).lineData = false → ':' ∈ (lf.heap i).lineData :=
      fun j hj => hcolon j (List.mem_cons_of_mem i hj)
    unfold headerLinesLoop at hrun
    dsimp only at hrun
    split at hrun
    · have hnew' : ∀ key l, h key = some l → l ∉ ids :=
        fun key l hl hmem => hnew key l hl (List.mem_cons_of_mem i hmem)
      obtain ⟨hstop, key, l, l', hne, hl, hl', htakes⟩ := ih hd hcolon' hnew' hrun
      refine ⟨hstop, key, l, l', hne, ?_, List.mem_cons_of_mem i hl', htakes⟩
      exact hl.imp_right fun hl => ⟨List.mem_cons_of_mem i hl.1, hl.2⟩
    · rename_i hfolds
      have hfolds : folds (lf.heap i).lineData = false := by simpa using hfolds
      rw [if_pos (hcolon i List.mem_cons_self hfolds)] at hrun
      cases hkeys : headKeys (lineName (lf.heap i).lineData) i headersSimsendmail h with
      | error stop' =>
        -- the line itself is refused
        rw [hkeys] at hrun
        cases hrun
        obtain ⟨hstop, key, -, l', hname, hsome⟩ := headKeys_error headersSimsendmail (by decide) hkeys
        refine ⟨hstop, key, l', i, ?_, .inl hsome, List.mem_cons_self, hfolds, hname⟩
        rintro rfl
        exact hnew key l' hsome List.mem_cons_self
      | ok h₁ =>
        rw [hkeys] at hrun
        have hspec := headKeys_spec headersSimsendmail hkeys
        have hnew' : ∀ key l, h₁ key = some l → l ∉ ids := by
          intro key l hl hmem
          rcases (hspec key l).mp hl with hold | ⟨-, -, rfl⟩
          · exact hnew key l hold (List.mem_cons_of_mem i hmem)
          · exact hi hmem
        obtain ⟨hstop, key, l, l', hne, hl, hl', htakes⟩ := ih hd hcolon' hnew' hrun
        refine ⟨hstop, key, l, l', hne, ?_, List.mem_cons_of_mem i hl', htakes⟩
        rcases hl with hl | hl
        · rcases (hspec key l).mp hl with hold | ⟨-, hname, rfl⟩
          · exact .inl hold
          · exact .inr ⟨List.mem_cons_self, hfolds, hname⟩
        · exact .inr ⟨List.mem_cons_of_mem i hl.1, hl.2⟩

/-- **A block of headers is refused** when two of its lines are taken for one header, and for nothing else. -/
theorem headerLines_error (h : Intact conf lines [] [] lf) (hblock : headerBlock lines = true) {stop : ParseStop}
    (hrun : headerLines lf = .error stop) :
    stop = .reject ∧ ∃ key l l', l ≠ l' ∧ (l < lines.length ∧ begins lines key l = true) ∧
      l' < lines.length ∧ begins lines key l' = true := by
  have hreached : lf.reached = List.range lines.length := h.list.reached_eq
  have htext : ∀ i, i < lines.length → (lf.heap i).lineData = lines.getD i [] :=
    fun i hi => h.untouched i hi List.not_mem_nil
  have htakes : ∀ key i, i < lines.length → lf.Takes key i → begins lines key i = true := by
    rintro key i hi ⟨hfolds, hname⟩
    rw [htext i hi] at hfolds hname
    unfold begins
    rw [hfolds, hname]
    rfl
  have hcolon : ∀ i ∈ lf.reached, folds (lf.heap i).lineData = false → ':' ∈ (lf.heap i).lineData := by
    intro i hi hfolds
    rw [hreached, List.mem_range] at hi
    rw [htext i hi] at hfolds ⊢
    obtain ⟨name, body, -, hline, -⟩ := fieldName_some (headerBlock_line hblock hi hfolds)
    rw [hline]
    exact List.mem_append_right name List.mem_cons_self
  have hd : lf.reached.Nodup := hreached ▸ List.nodup_range
  obtain ⟨hstop, key, l, l', hne, hl, hl', hline'⟩ :=
    headerLinesLoop_error lf lf.reached hd hcolon (fun _ _ hnone => by cases hnone) hrun
  rw [hreached, List.mem_range] at hl'
  refine ⟨hstop, key, l, l', hne, ?_, hl', htakes key l' hl' hline'⟩
  rcases hl with hnone | ⟨hl, hline⟩
  · cases hnone
  · rw [hreached, List.mem_range] at hl
    exact ⟨hl, htakes key l hl hline⟩

/-! ## The names -/

/-- A line of the block with the name of the header. -/
def Named (lines : List Text) (key : HeadKey) (l : Nat) : Prop := l < lines.length ∧ isNamed lines key l = true

/-- Two lines with the name of one header. -/
def Duplicate (lines : List Text) : Prop := ∃ key l l', l ≠ l' ∧ Named lines key l ∧ Named lines key l'

/-- The names are recognised: the scan for a colon stays in its line, the line of a header is the only one with its
    name, and the lines are refused when a name is there two times. -/
structure NamesRecognised (lines : List Text) (outcome : Except ParseStop HeadLines) : Prop where
  inside : outcome ≠ .error .outside
  only : ∀ H, outcome = .ok H → ∀ key l,
    H key = some l ↔ Named lines key l ∧ ∀ l', Named lines key l' → l' = l
  duplicate : outcome = .error .reject ↔ Duplicate lines

theorem Named.begins {key : HeadKey} (h : Named lines key l) : begins lines key l = true := by
  obtain ⟨hfolds, hname⟩ := Bool.and_eq_true_iff.mp h.2
  have hequal := of_decide_eq_true hname
  unfold Simta.begins
  rw [hfolds, Bool.true_and]
  have hlength : key.hKey.length = (lineName (lines.getD l [])).length := by
    have := congrArg List.length hequal
    rwa [List.length_map, List.length_map] at this
  unfold strncaseEq
  rw [← hlength, List.take_length]
  exact hname

/-- **When the names are recognised**: two lines have one name, or no name is the beginning of another key. -/
theorem headerLines_exact_iff (hblock : headerBlock lines = true) :
    NamesRecognised lines (headerLines (lineFile lines)) ↔
      Duplicate lines ∨ ∀ key l, l < lines.length → begins lines key l = true → isNamed lines key l = true := by
  obtain ⟨hintact, -⟩ := intact_lineFile ⟨[], [], [], false⟩ lines
  cases hrun : headerLines (lineFile lines) with
  | error stop =>
    obtain ⟨rfl, key, l, l', hne, ⟨hl, hbegins⟩, hl', hbegins'⟩ := headerLines_error hintact hblock hrun
    constructor
    · exact fun h => .inl (h.duplicate.mp rfl)
    · intro h
      refine ⟨(fun h => by cases h), (fun H h => by cases h), fun _ => ?_, fun _ => rfl⟩
      rcases h with h | h
      · exact h
      · exact ⟨key, l, l', hne, ⟨hl, h key l hl hbegins⟩, hl', h key l' hl' hbegins'⟩
  | ok H =>
    obtain ⟨rfl, hfound⟩ := headerLines_spec hintact hrun
    -- no two lines are taken for one header
    have hunique : ∀ {key l l'}, Named lines key l → Named lines key l' → l' = l := by
      intro key l l' h h'
      have hl := (hfound key l).mpr ⟨h.1, h.begins⟩
      rw [(hfound key l').mpr ⟨h'.1, h'.begins⟩] at hl
      exact Option.some.inj hl
    have hdup : ¬ Duplicate lines := by
      rintro ⟨key, l, l', hne, hl, hl'⟩
      exact hne (hunique hl' hl)
    constructor
    · intro h
      refine .inr fun key l hl hbegins => ?_
      exact ((h.only _ rfl key l).mp ((hfound key l).mpr ⟨hl, hbegins⟩)).1.2
    · intro h
      have hall := h.resolve_left hdup
      refine ⟨(fun h => by cases h), ?_, (fun h => by cases h), fun h => absurd h hdup⟩
      intro H heq key l
      cases heq
      rw [hfound key l]
      constructor
      · rintro ⟨hl, hbegins⟩
        exact ⟨⟨hl, hall key l hl hbegins⟩, fun l' => hunique ⟨hl, hall key l hl hbegins⟩⟩
      · exact fun h => ⟨h.1.1, h.1.begins⟩

theorem headerLines_exact_names :
    NamesRecognised ["To: a@b".toList, "Subject: hi".toList]
        (headerLines (lineFile ["To: a@b".toList, "Subject: hi".toList])) ↔
      Duplicate ["To: a@b".toList, "Subject: hi".toList] ∨
        ∀ key l, l < 2 → begins ["To: a@b".toList, "Subject: hi".toList] key l = true →
          isNamed ["To: a@b".toList, "Subject: hi".toList] key l = true :=
  headerLines_exact_iff (by decide)

/-- A line whose name begins two keys is taken for both. -/
theorem not_headerLines_exact :
    headerBlock ["Re: hello".toList] = true ∧
      ¬ NamesRecognised ["Re: hello".toList] (headerLines (lineFile ["Re: hello".toList])) := by
  refine ⟨by decide, fun h => ?_⟩
  have hrun : headerLines (lineFile ["Re: hello".toList]) =
      .ok (Function.update (Function.update (fun _ => none) .headReplyTo (some 0)) .headReferences (some 0)) := rfl
  have hnamed := ((h.only _ hrun .headReplyTo 0).mp rfl).1.2
  revert hnamed
  decide

end Simta
