import Mathlib.Data.List.GetD
import Simta.HeaderCorrect
import Simta.MailboxText

/-!
# Places in a header

What the functions that go over the lines of a header do, said of its text as a whole.

* `Field.onward` — the text from a place on, over the end of its line;
* `Field.span` — the text between two places;
* `Field.insert` — a header with a text more;
* `skipCfws_blank`, `lineTokenWord_spec`, `lineTokenDomain_spec` — comments and white space, and words.
-/

set_option autoImplicit false

namespace Simta

variable {f : Field} {c e p : CharPtr} {s w b x : FText} {d l : Nat}

/-! ## Places -/

namespace Field

/-- The lines from a place on. -/
def lower (f : Field) (l : Nat) : FText := (f.drop l).flatMap fun line => none :: onLine line

/-- The text from `c` to the end of the header. -/
def onward (f : Field) (c : CharPtr) : FText := onLine (f.text c) ++ f.lower (c.line + 1)

/-- A place in the header. -/
structure Place (f : Field) (c : CharPtr) : Prop where
  line : c.line < f.length
  off : c.off ≤ (f.getD c.line []).length

/-- All lines but the first begin with white space. -/
def Folds (f : Field) : Prop := ∀ l, l + 1 < f.length → folds (f.getD (l + 1) []) = true

theorem lower_nil (h : f.length ≤ l) : f.lower l = [] := by
  unfold lower
  rw [List.drop_eq_nil_of_le h]
  rfl

theorem lower_step (h : l < f.length) : f.lower l = none :: f.onward ⟨l, 0⟩ := by
  unfold lower
  rw [List.drop_eq_getElem_cons h, List.flatMap_cons]
  unfold onward text lower
  rw [List.drop_zero, List.getD_eq_getElem f [] h]
  rfl

/-- A character more. -/
theorem onward_char {a : Char} (h : f.onward c = some a :: s) :
    ∃ t, f.text c = a :: t ∧ f.text ⟨c.line, c.off + 1⟩ = t ∧ f.onward ⟨c.line, c.off + 1⟩ = s := by
  unfold onward at h
  cases ht : f.text c with
  | nil =>
    rw [ht] at h
    by_cases hl : c.line + 1 < f.length
    · rw [lower_step hl] at h
      cases h
    · rw [lower_nil (Nat.le_of_not_lt hl)] at h
      cases h
  | cons a' t =>
    rw [ht] at h
    obtain ⟨ha, hs⟩ := List.cons.inj h
    obtain rfl := Option.some.inj ha
    have htext : f.text ⟨c.line, c.off + 1⟩ = t := by
      have hdrop : (f.getD c.line []).drop c.off = a' :: t := ht
      show (f.getD c.line []).drop (c.off + 1) = t
      rw [← List.drop_drop, hdrop]
      rfl
    refine ⟨t, rfl, htext, ?_⟩
    unfold onward
    rw [htext]
    exact hs

/-- The end of a line. -/
theorem onward_fold (h : f.onward c = none :: s) :
    f.text c = [] ∧ c.line + 1 < f.length ∧ f.onward ⟨c.line + 1, 0⟩ = s := by
  unfold onward at h
  cases ht : f.text c with
  | nil =>
    rw [ht] at h
    by_cases hl : c.line + 1 < f.length
    · rw [lower_step hl] at h
      exact ⟨rfl, hl, (List.cons.inj h).2⟩
    · rw [lower_nil (Nat.le_of_not_lt hl)] at h
      cases h
  | cons a t =>
    rw [ht] at h
    cases h

/-- The end of the header. -/
theorem onward_nil (h : f.onward c = []) : f.text c = [] ∧ f.length ≤ c.line + 1 := by
  unfold onward at h
  obtain ⟨ht, hl⟩ := List.append_eq_nil_iff.mp h
  refine ⟨List.map_eq_nil_iff.mp ht, ?_⟩
  by_contra hlt
  rw [lower_step (Nat.lt_of_not_le hlt)] at hl
  cases hl

theorem Place.char {a : Char} {t : Text} (h : f.Place c) (ht : f.text c = a :: t) : f.Place ⟨c.line, c.off + 1⟩ := by
  refine ⟨h.line, ?_⟩
  have hlength : ((f.getD c.line []).drop c.off).length = t.length + 1 := congrArg List.length ht
  rw [List.length_drop] at hlength
  show c.off + 1 ≤ (f.getD c.line []).length
  omega

theorem place_line (h : l < f.length) : f.Place ⟨l, 0⟩ := ⟨h, Nat.zero_le _⟩

/-- The white space that a line begins with. -/
theorem Folds.line (h : f.Folds) (hl : l + 1 < f.length) :
    ∃ a t, isWsp a = true ∧ f.text ⟨l + 1, 0⟩ = a :: t ∧ f.text ⟨l + 1, 1⟩ = t := by
  have hfolds := h l hl
  cases hline : f.getD (l + 1) [] with
  | nil =>
    rw [hline] at hfolds
    cases hfolds
  | cons a t =>
    rw [hline] at hfolds
    refine ⟨a, t, ?_, ?_, ?_⟩
    · simpa [folds, isWsp] using hfolds
    · unfold text
      rw [hline]
      rfl
    · unfold text
      rw [hline]
      rfl

end Field

/-! ## Comments and white space -/

/-- A word follows, or nothing. -/
def Stops (s : FText) : Prop := ∀ y, s.head? = some y → ∃ a, y = some a ∧ isPlain a = true

/-- What `skip_cfws` should come to. -/
def Field.NextIs (f : Field) (s : FText) (r : Nat × Option CharPtr) : Prop :=
  match r.2 with
  | none => s = []
  | some c => s ≠ [] ∧ r.1 = c.line ∧ f.Place c ∧ f.onward c = s

theorem cfwsLines_step {left off comment comment' : Nat}
    (h : cfwsText (f.text c) c.off comment = cfwsText (f.text ⟨c.line, off⟩) off comment') :
    cfwsLines f left l c comment = cfwsLines f left l ⟨c.line, off⟩ comment' := by
  cases left with
  | zero =>
    unfold cfwsLines
    rw [h]
  | succ left =>
    unfold cfwsLines
    rw [h]

theorem cfwsText_wsp {a : Char} (ha : isWsp a = true) (t : Text) (off comment : Nat) :
    cfwsText (a :: t) off comment = cfwsText t (off + 1) comment := by
  have hws : a = ' ' ∨ a = '\t' := by simpa [isWsp] using ha
  rw [cfwsText.eq_def]
  simp [hws]

theorem isPlain_ne {a : Char} (h : isPlain a = true) : ¬ (a = ' ' ∨ a = '\t') ∧ a ≠ '(' ∧ a ≠ ')' ∧ a ≠ '\\' := by
  unfold isPlain isWsp at h
  simp only [Bool.and_eq_true, decide_eq_true_eq, Bool.not_eq_true', Bool.or_eq_false_iff, decide_eq_false_iff_not] at h
  tauto

/-- **Over comments and white space.** -/
theorem cfwsLines_blank (hf : f.Folds) (h : Blank d b) : ∀ {c : CharPtr}, f.Place c → f.onward c = b ++ s → Stops s →
    ∃ r, cfwsLines f (f.length - (c.line + 1)) c.line c d = .ok r ∧ f.NextIs s r := by
  induction h with
  | done =>
    intro c hplace heq hs
    rw [List.nil_append] at heq
    cases s with
    | nil =>
      obtain ⟨ht, hl⟩ := Field.onward_nil heq
      refine ⟨(c.line, none), ?_, rfl⟩
      rw [show f.length - (c.line + 1) = 0 by omega]
      unfold cfwsLines
      rw [ht]
      rfl
    | cons y s =>
      obtain ⟨a, rfl, ha⟩ := hs y rfl
      obtain ⟨t, ht, -, -⟩ := Field.onward_char heq
      obtain ⟨hws, hopen, hclose, hslash⟩ := isPlain_ne ha
      refine ⟨(c.line, some c), ?_, List.cons_ne_nil _ _, rfl, hplace, heq⟩
      have hword : cfwsText (f.text c) c.off 0 = .word c.off := by
        rw [ht, cfwsText.eq_def]
        simp [hws, hopen, hclose, hslash]
      rw [cfwsLines.eq_def]
      dsimp only
      rw [hword]
  | wsp d a b ha _ ih =>
    intro c hplace heq hs
    obtain ⟨t, ht, ht', heq'⟩ := Field.onward_char heq
    obtain ⟨r, hr, hnext⟩ := ih (hplace.char ht) heq' hs
    refine ⟨r, ?_, hnext⟩
    rw [← hr]
    apply cfwsLines_step
    rw [ht, ht', cfwsText_wsp ha]
  | fold d b _ ih =>
    intro c hplace heq hs
    obtain ⟨ht, hl, heq'⟩ := Field.onward_fold heq
    obtain ⟨r, hr, hnext⟩ := ih (Field.place_line hl) heq' hs
    obtain ⟨a, t, ha, ht₀, ht₁⟩ := hf.line hl
    refine ⟨r, ?_, hnext⟩
    rw [← hr, show f.length - (c.line + 1) = f.length - (c.line + 1 + 1) + 1 by omega]
    rw [cfwsLines, ht]
    -- the first character of the line is passed over
    apply cfwsLines_step
    rw [ht₀, ht₁, cfwsText_wsp ha]
  | opening d b _ ih =>
    intro c hplace heq hs
    obtain ⟨t, ht, ht', heq'⟩ := Field.onward_char heq
    obtain ⟨r, hr, hnext⟩ := ih (hplace.char ht) heq' hs
    refine ⟨r, ?_, hnext⟩
    rw [← hr]
    apply cfwsLines_step
    rw [ht, ht', cfwsText.eq_def]
    simp
  | closing d b _ ih =>
    intro c hplace heq hs
    obtain ⟨t, ht, ht', heq'⟩ := Field.onward_char heq
    obtain ⟨r, hr, hnext⟩ := ih (hplace.char ht) heq' hs
    refine ⟨r, ?_, hnext⟩
    rw [← hr]
    apply cfwsLines_step
    rw [ht, ht', cfwsText.eq_def]
    simp
  | pair d a b _ ih =>
    intro c hplace heq hs
    obtain ⟨t, ht, ht', heq'⟩ := Field.onward_char heq
    obtain ⟨t₂, ht₂, ht₂', heq₂⟩ := Field.onward_char heq'
    obtain ⟨r, hr, hnext⟩ := ih ((hplace.char ht).char ht₂) heq₂ hs
    refine ⟨r, ?_, hnext⟩
    rw [← hr]
    apply cfwsLines_step
    rw [ht, ← ht', ht₂, ht₂', cfwsText.eq_def]
    simp
  | comment d a b ha _ ih =>
    intro c hplace heq hs
    obtain ⟨t, ht, ht', heq'⟩ := Field.onward_char heq
    obtain ⟨r, hr, hnext⟩ := ih (hplace.char ht) heq' hs
    obtain ⟨hws, hopen, hclose, hslash⟩ := isPlain_ne ha
    refine ⟨r, ?_, hnext⟩
    rw [← hr]
    apply cfwsLines_step
    rw [ht, ht', cfwsText.eq_def]
    simp [hws, hopen, hclose, hslash]

/-- `skip_cfws` over comments and white space. -/
theorem skipCfws_blank (hf : f.Folds) (h : Blank 0 b) (hplace : f.Place c) (heq : f.onward c = b ++ s) (hs : Stops s) :
    ∃ r, skipCfws f c.line c = .ok r ∧ f.NextIs s r := cfwsLines_blank hf h hplace heq hs

/-- `skip_cfws` up to a character that counts. -/
theorem skipCfws_char (hf : f.Folds) (h : Blank 0 b) (hplace : f.Place c) {a : Char} (ha : isPlain a = true)
    (heq : f.onward c = b ++ some a :: s) :
    ∃ e, skipCfws f c.line c = .ok (e.line, some e) ∧ f.Place e ∧ f.onward e = some a :: s := by
  have hstops : Stops (some a :: s) := fun y hy => ⟨a, (Option.some.inj hy).symm, ha⟩
  obtain ⟨⟨l, next⟩, hrun, hnext⟩ := skipCfws_blank hf h hplace heq hstops
  cases next with
  | none => cases hnext
  | some e =>
    obtain ⟨-, hl, hplace', honward⟩ := hnext
    rw [show l = e.line from hl] at hrun
    exact ⟨e, hrun, hplace', honward⟩

/-- `skip_cfws` up to the end of the header. -/
theorem skipCfws_end (hf : f.Folds) (h : Blank 0 b) (hplace : f.Place c) (heq : f.onward c = b) :
    ∃ l, skipCfws f c.line c = .ok (l, none) := by
  have heq' : f.onward c = b ++ [] := by rw [heq, List.append_nil]
  obtain ⟨⟨l, next⟩, hrun, hnext⟩ := skipCfws_blank hf h hplace heq' (fun y hy => by cases hy)
  cases next with
  | none => exact ⟨l, hrun⟩
  | some e => exact absurd rfl hnext.1

/-! ## Between two places -/

namespace Field

/-- A place that is not behind the other. -/
def Upto (c e : CharPtr) : Prop := c.line < e.line ∨ (c.line = e.line ∧ c.off ≤ e.off)

/-- The lines from `c` on to a place in a later line. -/
def between (f : Field) (c e : CharPtr) : FText :=
  (List.range' (c.line + 1) (e.line - (c.line + 1))).flatMap (fun l => none :: onLine (f.getD l [])) ++
    none :: onLine ((f.getD e.line []).take e.off)

/-- The text from one place to another. -/
def span (f : Field) (c e : CharPtr) : FText :=
  if c.line = e.line then onLine ((f.text c).take (e.off - c.off)) else onLine (f.text c) ++ f.between c e

theorem onLine_append (t u : Text) : onLine (t ++ u) = onLine t ++ onLine u := List.map_append

theorem lower_between (hline : c.line < e.line) (he : f.Place e) :
    f.lower (c.line + 1) = f.between c e ++ f.onward e := by
  obtain ⟨n, hn⟩ : ∃ n, e.line = c.line + 1 + n := ⟨e.line - (c.line + 1), by omega⟩
  unfold between
  rw [show e.line - (c.line + 1) = n by omega]
  have hlast : f.lower e.line = none :: (onLine ((f.getD e.line []).take e.off) ++ f.onward e) := by
    rw [lower_step he.line]
    congr 1
    unfold onward text
    rw [List.drop_zero, ← List.append_assoc, ← onLine_append, List.take_append_drop]
  have hlines : ∀ k n, k + n = e.line → f.lower k =
      (List.range' k n).flatMap (fun l => none :: onLine (f.getD l [])) ++ f.lower e.line := by
    intro k n
    induction n generalizing k with
    | zero =>
      intro hk
      rw [← hk]
      rfl
    | succ n ih =>
      intro hk
      have hlt : k < f.length := by
        have := he.line
        omega
      rw [lower_step hlt, List.range'_succ, List.flatMap_cons]
      unfold onward text
      rw [List.drop_zero, ih (k + 1) (by omega)]
      simp
  rw [hlines (c.line + 1) n hn.symm, hlast, List.append_assoc, List.cons_append]

/-- **From one place over another** to the end. -/
theorem onward_span (he : f.Place e) (hupto : Upto c e) : f.onward c = f.span c e ++ f.onward e := by
  unfold span
  split
  · rename_i hline
    have hoff : c.off ≤ e.off := by
      rcases hupto with hlt | ⟨-, hle⟩
      · omega
      · exact hle
    unfold onward
    rw [← List.append_assoc, ← onLine_append, hline]
    congr 2
    have htext : f.text e = (f.text c).drop (e.off - c.off) := by
      unfold text
      rw [List.drop_drop, ← hline]
      congr 1
      omega
    rw [htext, List.take_append_drop]
  · rename_i hline
    have hlt : c.line < e.line := by
      rcases hupto with hlt | ⟨heq, -⟩
      · exact hlt
      · exact absurd heq hline
    rw [onward, lower_between hlt he, ← List.append_assoc]

theorem span_ne_nil (hc : f.Place e) (hne : e ≠ c) (hupto : Upto c e) : f.span c e ≠ [] := by
  unfold span
  split
  · rename_i hline
    rcases hupto with hlt | ⟨-, hle⟩
    · omega
    · have hlt : c.off < e.off := by
        rcases Nat.lt_or_eq_of_le hle with hlt | heq
        · exact hlt
        · exact absurd (by cases c; cases e; simp_all) hne
      intro hnil
      have hlength := congrArg List.length hnil
      have hoff := hc.off
      unfold text onLine at hlength
      rw [List.length_map, List.length_take, List.length_drop, hline] at hlength
      rw [List.length_nil] at hlength
      omega
  · intro hnil
    have hnone : (none : Option Char) ∈ onLine (f.text c) ++ f.between c e := by
      unfold between
      simp
    rw [hnil] at hnone
    cases hnone

theorem upto_total (c e : CharPtr) : Upto c e ∨ Upto e c := by
  unfold Upto
  omega

/-- **A text that leads from one place to another** is what stands between them. -/
theorem span_eq (hc : f.Place c) (he : f.Place e) (hw : w ≠ []) (h : f.onward c = w ++ f.onward e) :
    Upto c e ∧ f.span c e = w := by
  rcases upto_total c e with hupto | hupto
  · refine ⟨hupto, ?_⟩
    rw [onward_span he hupto] at h
    exact List.append_cancel_right h
  · rw [onward_span hc hupto, ← List.append_assoc] at h
    have hlength := congrArg List.length h
    rw [List.length_append, List.length_append] at hlength
    have hpos := List.length_pos_iff.mpr hw
    omega

end Field

namespace Field

/-- The place behind a text is behind the one in front of it. -/
theorem Place.before (hc : f.Place c) (he : f.Place e) (hw : w ≠ []) (h : f.onward c = w ++ f.onward e) :
    c.line ≠ e.line ∨ c.off < e.off := by
  obtain ⟨hupto, -⟩ := span_eq hc he hw h
  by_contra hnot
  rw [not_or, not_not] at hnot
  have heq : c = e := by
    have hoff : c.off = e.off := by
      unfold Upto at hupto
      omega
    cases c
    cases e
    exact congrArg₂ CharPtr.mk hnot.1 hoff
  rw [heq] at h
  exact hw (List.self_eq_append_left.mp h)

/-- A text without the end of a line stays on its line. -/
theorem Place.line_eq (hc : f.Place c) (he : f.Place e) (hw : w ≠ []) (h : f.onward c = w ++ f.onward e)
    (hnone : none ∉ w) : c.line = e.line := by
  obtain ⟨-, hspan⟩ := span_eq hc he hw h
  by_contra hline
  apply hnone
  rw [← hspan]
  unfold span between
  rw [if_neg hline]
  simp

end Field

/-! ## Words -/

theorem unfoldFrom_ws (t : Text) : unfoldFrom true (onLine t) = dropWs t := by
  unfold dropWs
  induction t with
  | nil => rfl
  | cons a t ih =>
    show (if true && isWsp a then unfoldFrom true (onLine t) else a :: unfoldFrom false (onLine t)) = _
    rw [Bool.true_and, List.dropWhile_cons, ih, unfoldFrom_onLine]
    rfl

theorem unfoldFrom_line (t : Text) (s : FText) : unfoldFrom false (onLine t ++ none :: s) = t ++ ' ' :: unfoldFrom true s := by
  induction t with
  | nil => rfl
  | cons a t ih => exact congrArg (a :: ·) ih

theorem unfoldFrom_fold (t : Text) (s : FText) :
    unfoldFrom true (onLine t ++ none :: s) = dropWs t ++ ' ' :: unfoldFrom true s := by
  unfold dropWs
  induction t with
  | nil => rfl
  | cons a t ih =>
    show (if true && isWsp a then unfoldFrom true (onLine t ++ none :: s)
      else a :: unfoldFrom false (onLine t ++ none :: s)) = _
    rw [Bool.true_and, List.dropWhile_cons, ih, unfoldFrom_line]
    show _ = (if isWsp a = true then t.dropWhile _ else a :: t) ++ _
    split <;> rfl

/-- A token that is a word of the header, from `c` on, with `s` behind it. -/
structure LineToken.Is (f : Field) (c : CharPtr) (w s : FText) (token : LineToken) : Prop where
  tStart : token.tStart = some c
  tStartLine : token.tStartLine = c.line
  tEndLine : token.tEndLine = token.tEnd.line
  place : f.Place token.tEnd
  onward : f.onward token.tEnd = s

/-- The lines between two places, each for a blank. -/
theorem unfoldFrom_between (ws : Bool) (ls : List Nat) (t : Text) :
    unfoldFrom ws (ls.flatMap (fun l => none :: onLine (f.getD l [])) ++ none :: onLine t) =
      ls.flatMap (fun l => ' ' :: dropWs (f.getD l [])) ++ ' ' :: dropWs t := by
  induction ls generalizing ws with
  | nil => exact congrArg (' ' :: ·) (unfoldFrom_ws t)
  | cons l ls ih =>
    obtain ⟨y, hy⟩ : ∃ y, ls.flatMap (fun l => none :: onLine (f.getD l [])) ++ none :: onLine t = none :: y := by
      cases ls with
      | nil => exact ⟨_, rfl⟩
      | cons l ls => exact ⟨_, rfl⟩
    rw [List.flatMap_cons, List.append_assoc, hy]
    show ' ' :: unfoldFrom true (onLine (f.getD l []) ++ none :: y) = _
    rw [unfoldFrom_fold, List.flatMap_cons, List.append_assoc, ← ih true, hy]
    rfl

/-- Its text. -/
theorem LineToken.Is.unfold {token : LineToken} (h : token.Is f c w s) (hplace : f.Place c) (hw : w ≠ [])
    (heq : f.onward c = w ++ s) : lineTokenUnfold f token = .ok (unfolded w) := by
  obtain ⟨hupto, hspan⟩ := Field.span_eq hplace h.place hw (heq.trans (by rw [h.onward]))
  unfold lineTokenUnfold LineToken.text
  rw [h.tStart, h.tStartLine, h.tEndLine, ← hspan]
  unfold Field.span unfolded
  split
  · rw [unfoldFrom_onLine]
  · have hlines := fun ws => unfoldFrom_between (f := f) ws
      (List.range' (c.line + 1) (token.tEnd.line - (c.line + 1))) ((f.getD token.tEnd.line []).take token.tEnd.off)
    obtain ⟨y, hy⟩ : ∃ y, f.between c token.tEnd = none :: y := by
      unfold Field.between
      cases List.range' (c.line + 1) (token.tEnd.line - (c.line + 1)) with
      | nil => exact ⟨_, rfl⟩
      | cons l ls => exact ⟨_, rfl⟩
    have hbetween : unfoldFrom true (f.between c token.tEnd) = _ := hlines true
    rw [hy, unfoldFrom_line]
    rw [hy] at hbetween
    rw [show ' ' :: unfoldFrom true y = unfoldFrom true (none :: y) from rfl, hbetween]
    dsimp only
    rw [List.append_assoc]

theorem quoteLines_step {close : Char} {left off : Nat}
    (h : quoteText close (f.text c) c.off = quoteText close (f.text ⟨c.line, off⟩) off) :
    quoteLines f close left l c = quoteLines f close left l ⟨c.line, off⟩ := by
  cases left with
  | zero =>
    unfold quoteLines
    rw [h]
  | succ left =>
    unfold quoteLines
    rw [h]

theorem quoteText_char {close a : Char} (hclose : a ≠ close) (hslash : a ≠ '\\') (t : Text) (off : Nat) :
    quoteText close (a :: t) off = quoteText close t (off + 1) := by
  rw [quoteText.eq_def]
  simp [hclose, hslash]

/-- **To the end of a quoted string** or a domain literal. -/
theorem quoteLines_enclosed (hf : f.Folds) {close : Char} (hclose : close ≠ '\\' ∧ isWsp close = false)
    (h : Enclosed close b) : ∀ {c : CharPtr}, f.Place c → f.onward c = b ++ some close :: s →
      ∃ e, quoteLines f close (f.length - (c.line + 1)) c.line c = some (e, e.line) ∧ f.Place e ∧ f.onward e = s := by
  induction h with
  | done =>
    intro c hplace heq
    obtain ⟨t, ht, -, heq'⟩ := Field.onward_char heq
    have hquote : quoteText close (f.text c) c.off = .close c.off := by
      rw [ht, quoteText.eq_def]
      simp
    refine ⟨⟨c.line, c.off + 1⟩, ?_, hplace.char ht, heq'⟩
    rw [quoteLines.eq_def]
    dsimp only
    rw [hquote]
  | char a b ha hslash _ ih =>
    intro c hplace heq
    obtain ⟨t, ht, ht', heq'⟩ := Field.onward_char heq
    obtain ⟨e, he, hend⟩ := ih (hplace.char ht) heq'
    refine ⟨e, ?_, hend⟩
    rw [← he]
    apply quoteLines_step
    rw [ht, ht', quoteText_char ha hslash]
  | pair a b _ ih =>
    intro c hplace heq
    obtain ⟨t, ht, ht', heq'⟩ := Field.onward_char heq
    obtain ⟨t₂, ht₂, ht₂', heq₂⟩ := Field.onward_char heq'
    obtain ⟨e, he, hend⟩ := ih ((hplace.char ht).char ht₂) heq₂
    refine ⟨e, ?_, hend⟩
    rw [← he]
    apply quoteLines_step
    rw [ht, ← ht', ht₂, ht₂', quoteText.eq_def]
    simp [Ne.symm hclose.1]
  | fold b _ ih =>
    intro c hplace heq
    obtain ⟨ht, hl, heq'⟩ := Field.onward_fold heq
    obtain ⟨e, he, hend⟩ := ih (Field.place_line hl) heq'
    obtain ⟨a, t, ha, ht₀, ht₁⟩ := hf.line hl
    have hne : a ≠ close ∧ a ≠ '\\' := by
      constructor
      · rintro rfl
        rw [hclose.2] at ha
        cases ha
      · rintro rfl
        cases ha
    refine ⟨e, ?_, hend⟩
    rw [← he, show f.length - (c.line + 1) = f.length - (c.line + 1 + 1) + 1 by omega]
    rw [quoteLines, ht]
    apply quoteLines_step
    rw [ht₀, ht₁, quoteText_char hne.1 hne.2]

/-- A token between two characters. -/
theorem lineTokenBetween_spec (hf : f.Folds) (tType : TokenType) {opening close : Char}
    (hclose : close ≠ '\\' ∧ isWsp close = false) (hplace : f.Place c) (hw : Between opening close w)
    (heq : f.onward c = w ++ s) :
    ∃ token, lineTokenBetween tType opening close f c.line c = some token ∧ token.Is f c w s := by
  obtain ⟨b, hb, rfl⟩ := hw
  rw [List.cons_append, List.append_assoc] at heq
  obtain ⟨t, ht, -, heq'⟩ := Field.onward_char heq
  obtain ⟨e, he, hend, hs⟩ := quoteLines_enclosed hf hclose hb (hplace.char ht) heq'
  have hchar : f.char c = some opening := by
    unfold Field.char
    rw [ht]
    rfl
  refine ⟨⟨tType, some c, c.line, e, e.line⟩, ?_, rfl, rfl, rfl, hend, hs⟩
  unfold lineTokenBetween
  rw [if_pos hchar, he]
  rfl

/-- What can be read of an atom. -/
theorem onward_atom {t : Text} (hplace : f.Place c) (heq : f.onward c = onLine t ++ s) :
    f.Place ⟨c.line, c.off + t.length⟩ ∧ f.onward ⟨c.line, c.off + t.length⟩ = s ∧
      f.text c = t ++ f.text ⟨c.line, c.off + t.length⟩ := by
  induction t generalizing c with
  | nil => exact ⟨hplace, heq, rfl⟩
  | cons a t ih =>
    obtain ⟨u, hu, hu', heq'⟩ := Field.onward_char heq
    obtain ⟨hplace', honward, htext⟩ := ih (hplace.char hu) heq'
    have hoff : c.off + (a :: t).length = c.off + 1 + t.length := by
      rw [List.length_cons]
      omega
    rw [hoff]
    refine ⟨hplace', honward, ?_⟩
    rw [hu, ← hu', htext]
    rfl

theorem lineTokenDotAtom_spec (hplace : f.Place c) (hw : AtomText w) (happ : Apart s) (heq : f.onward c = w ++ s) :
    ∃ token, lineTokenDotAtom f c.line c = some token ∧ token.Is f c w s := by
  obtain ⟨t, hne, hall, rfl⟩ := hw
  obtain ⟨hplace', honward, htext⟩ := onward_atom hplace heq
  refine ⟨⟨.dotAtom, some c, c.line, ⟨c.line, c.off + t.length⟩, c.line⟩, ?_, rfl, rfl, rfl, hplace', honward⟩
  have hnext : ∀ a ∈ (f.text ⟨c.line, c.off + t.length⟩).head?, isDotAtomText a = false := by
    intro a ha
    apply happ a
    rw [← honward]
    unfold Field.onward
    cases hu : f.text ⟨c.line, c.off + t.length⟩ with
    | nil =>
      rw [hu] at ha
      cases ha
    | cons a' u =>
      rw [hu] at ha
      rw [← Option.some.inj ha]
      rfl
  unfold lineTokenDotAtom
  rw [htext, tokenDotAtom_append hne hall hnext]
  rfl

theorem AtomText.head (hw : AtomText w) : ∃ a v, w = some a :: v ∧ isDotAtomText a = true := by
  obtain ⟨t, hne, hall, rfl⟩ := hw
  cases t with
  | nil => exact absurd rfl hne
  | cons a t => exact ⟨a, onLine t, rfl, hall a (List.mem_cons_self ..)⟩

theorem char_onward {a : Char} (heq : f.onward c = some a :: s) : f.char c = some a := by
  obtain ⟨t, ht, -, -⟩ := Field.onward_char heq
  unfold Field.char
  rw [ht]
  rfl

/-- **A word** is read to its end. -/
theorem lineTokenWord_spec (hf : f.Folds) (hplace : f.Place c) (hw : Word w) (happ : AtomText w → Apart s)
    (heq : f.onward c = w ++ s) : ∃ token, lineTokenWord f c.line c = .ok token ∧ token.Is f c w s := by
  unfold lineTokenWord
  rcases hw with hatom | hquoted
  · obtain ⟨a, v, hv, ha⟩ := hatom.head
    have hchar : f.char c ≠ some '"' := by
      rw [char_onward (heq.trans (congrArg (· ++ s) hv))]
      intro hquote
      cases hquote
      cases ha
    obtain ⟨token, htoken, his⟩ := lineTokenDotAtom_spec hplace hatom (happ hatom) heq
    rw [if_neg hchar, htoken]
    exact ⟨token, rfl, his⟩
  · have hchar : f.char c = some '"' := by
      obtain ⟨b, -, rfl⟩ := hquoted
      exact char_onward heq
    obtain ⟨token, htoken, his⟩ := lineTokenBetween_spec hf .quotedString (by decide) hplace hquoted heq
    rw [if_pos hchar]
    refine ⟨token, ?_, his⟩
    unfold lineTokenQuotedString
    rw [htoken]
    rfl

/-- **A domain** is read to its end. -/
theorem lineTokenDomain_spec (hf : f.Folds) (hplace : f.Place c) (hw : DomainWord w) (happ : Apart s)
    (heq : f.onward c = w ++ s) : ∃ token, lineTokenDomain f c.line c = .ok token ∧ token.Is f c w s := by
  unfold lineTokenDomain
  rcases hw with hatom | hliteral
  · obtain ⟨a, v, hv, ha⟩ := hatom.head
    have hchar : f.char c ≠ some '[' := by
      rw [char_onward (heq.trans (congrArg (· ++ s) hv))]
      intro hbracket
      cases hbracket
      cases ha
    obtain ⟨token, htoken, his⟩ := lineTokenDotAtom_spec hplace hatom happ heq
    rw [if_neg hchar, htoken]
    exact ⟨token, rfl, his⟩
  · have hchar : f.char c = some '[' := by
      obtain ⟨b, -, rfl⟩ := hliteral
      exact char_onward heq
    obtain ⟨token, htoken, his⟩ := lineTokenBetween_spec hf .domainLiteral (by decide) hplace hliteral heq
    rw [if_pos hchar]
    refine ⟨token, ?_, his⟩
    unfold lineTokenDomainLiteral
    rw [htoken]
    rfl

/-! ## A text more -/

namespace Field

/-- The header with a text at a place. -/
def insert (f : Field) (e : CharPtr) (x : Text) : Field :=
  f.set e.line ((f.getD e.line []).take e.off ++ x ++ (f.getD e.line []).drop e.off)

variable {x : Text}

theorem insert_length : (f.insert e x).length = f.length := List.length_set ..

theorem insert_getD (he : f.Place e) :
    (f.insert e x).getD e.line [] = (f.getD e.line []).take e.off ++ x ++ (f.getD e.line []).drop e.off := by
  unfold insert
  rw [List.getD_eq_getElem?_getD, List.getElem?_set_self he.line]
  rfl

theorem insert_getD_ne (h : l ≠ e.line) : (f.insert e x).getD l [] = f.getD l [] := by
  unfold insert
  rw [List.getD_eq_getElem?_getD, List.getElem?_set_ne h.symm, List.getD_eq_getElem?_getD]

theorem insert_lower (h : e.line < l) : (f.insert e x).lower l = f.lower l := by
  unfold lower insert
  rw [List.drop_set, if_pos h]

/-- Behind the text the header goes on as before. -/
theorem insert_onward (he : f.Place e) :
    (f.insert e x).Place ⟨e.line, e.off + x.length⟩ ∧ (f.insert e x).onward ⟨e.line, e.off + x.length⟩ = f.onward e := by
  have hoff : ((f.getD e.line []).take e.off).length = e.off := by
    rw [List.length_take]
    exact Nat.min_eq_left he.off
  constructor
  · refine ⟨by rw [insert_length]; exact he.line, ?_⟩
    show e.off + x.length ≤ ((f.insert e x).getD e.line []).length
    rw [insert_getD he, List.length_append, List.length_append, hoff]
    omega
  · unfold onward
    rw [insert_lower (Nat.lt_succ_self _)]
    congr 2
    show ((f.insert e x).getD e.line []).drop (e.off + x.length) = f.text e
    rw [insert_getD he]
    have hlength : e.off + x.length = ((f.getD e.line []).take e.off ++ x).length := by rw [List.length_append, hoff]
    rw [hlength, List.drop_left]
    rfl

/-- In front of it there is what was there. -/
theorem insert_text (he : f.Place e) (hline : c.line = e.line) (hoff : c.off ≤ e.off) :
    (f.insert e x).text c = (f.text c).take (e.off - c.off) ++ (x ++ f.text e) := by
  unfold text
  rw [hline, insert_getD he, List.append_assoc, List.drop_append_of_le_length, List.drop_take]
  rw [List.length_take]
  exact Nat.le_min.mpr ⟨hoff, Nat.le_trans hoff he.off⟩

theorem insert_place (he : f.Place e) (hc : f.Place c) (hupto : Upto c e) : (f.insert e x).Place c := by
  refine ⟨by rw [insert_length]; exact hc.line, ?_⟩
  by_cases hline : c.line = e.line
  · have hoff : c.off ≤ e.off := by
      unfold Upto at hupto
      omega
    have hlength := he.off
    rw [hline, insert_getD he, List.length_append, List.length_append, List.length_take]
    omega
  · rw [insert_getD_ne hline]
    exact hc.off

/-- **From a place in front of it** the header has the text more. -/
theorem insert_span (he : f.Place e) (hupto : Upto c e) :
    (f.insert e x).onward c = f.span c e ++ (onLine x ++ f.onward e) := by
  by_cases hline : c.line = e.line
  · have hoff : c.off ≤ e.off := by
      unfold Upto at hupto
      omega
    unfold onward span
    rw [insert_text he hline hoff, if_pos hline, hline, insert_lower (Nat.lt_succ_self _), onLine_append, onLine_append]
    simp only [List.append_assoc]
  · have hlt : c.line < e.line := by
      unfold Upto at hupto
      omega
    have hplace := insert_onward (x := x) he
    have hend : (f.insert e x).Place e := insert_place he he (.inr ⟨rfl, Nat.le_refl _⟩)
    have hlast : (f.insert e x).onward e = onLine x ++ f.onward e := by
      unfold onward
      rw [insert_text he rfl (Nat.le_refl _), Nat.sub_self, List.take_zero, List.nil_append, onLine_append,
        insert_lower (Nat.lt_succ_self _), List.append_assoc]
    have hbetween : (f.insert e x).between c e = f.between c e := by
      unfold between
      congr 1
      · apply List.flatMap_congr
        intro l hl
        rw [insert_getD_ne]
        have := (List.mem_range'_1.mp hl).2
        omega
      · rw [insert_getD he, List.append_assoc, List.take_append_of_le_length, List.take_take, Nat.min_self]
        rw [List.length_take]
        exact Nat.le_min.mpr ⟨Nat.le_refl _, he.off⟩
    rw [onward_span hend hupto, hlast]
    congr 1
    unfold span text
    rw [if_neg hline, if_neg hline, hbetween, insert_getD_ne hline]

/-- The lines begin as they did. -/
theorem insert_folds (hf : f.Folds) (he : f.Place e) (hoff : 0 < e.off) : (f.insert e x).Folds := by
  intro l hl
  rw [insert_length] at hl
  have hfolds := hf l hl
  by_cases hline : l + 1 = e.line
  · rw [hline, insert_getD he]
    rw [hline] at hfolds
    have hne : (f.getD e.line []).take e.off ≠ [] := by
      intro hnil
      rcases List.take_eq_nil_iff.mp hnil with hzero | hempty
      · omega
      · rw [hempty] at hfolds
        cases hfolds
    unfold folds at hfolds ⊢
    have htake : ((f.getD e.line []).take e.off).head? = (f.getD e.line []).head? := by
      rw [List.head?_take, if_neg (by omega)]
    rw [List.append_assoc, List.head?_append_of_ne_nil _ hne, htake]
    exact hfolds
  · rw [insert_getD_ne hline]
    exact hfolds

end Field

/-- A word in front of the text is the same. -/
theorem LineToken.Is.insert {token : LineToken} {x : Text} (h : token.Is f c w s) (hline : c.line = token.tEnd.line)
    (hoff : c.off ≤ token.tEnd.off) : lineTokenUnfold (f.insert token.tEnd x) token = lineTokenUnfold f token := by
  have hlength : token.tEnd.off - c.off ≤ (f.text c).length := by
    have hle := h.place.off
    unfold Field.text
    rw [List.length_drop, hline]
    omega
  unfold lineTokenUnfold LineToken.text
  rw [h.tStart, h.tStartLine, h.tEndLine, if_pos hline, if_pos hline]
  dsimp only
  rw [Field.insert_text h.place hline hoff, List.take_append_of_le_length, List.take_take, Nat.min_self]
  rw [List.length_take]
  exact Nat.le_min.mpr ⟨Nat.le_refl _, hlength⟩

/-- The text that was inserted behind an `@`. -/
theorem Field.insert_host (he : f.Place e) (a : Char) (t : Text) :
    ((f.insert e (a :: t)).text ⟨e.line, e.off + 1⟩).take t.length = t := by
  have htext : (f.insert e (a :: t)).text ⟨e.line, e.off + 1⟩ = t ++ f.text e := by
    have hdrop : (f.insert e (a :: t)).text ⟨e.line, e.off + 1⟩ = ((f.insert e (a :: t)).text e).drop 1 := by
      unfold Field.text
      rw [List.drop_drop]
    rw [hdrop, Field.insert_text he rfl (Nat.le_refl _), Nat.sub_self, List.take_zero]
    rfl
  rw [htext, List.take_left]

end Simta
