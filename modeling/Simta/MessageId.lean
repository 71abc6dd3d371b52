import Simta.AddressPath
import Simta.HeaderFields

/-!
# Message ids

A Message-ID field is read line by line: `skip_cws` begins anew on each, and an id that is there is kept when nothing
follows it.  The field itself is read as a whole.

* `Cfws` — comments and white space, with comments in comments and quoted pairs;
* `BodyReads` — an unfolded body with that message id;
* `LineReads` — lines that `mid_text` takes that message id from;
* `PlainReads` — the id is on one line, and on each line there are only comments that both read the same;
* `plainReads_iff` — the lines and the body have the same id in this case alone;
* `messageId_iff` — when a message id is extracted as it stands in the unfolded field.
-/

set_option autoImplicit false

namespace Simta

variable {t u front back front' back' behind : Text} {m mid : Text} {ls : List Text} {D : Nat}

/-! ## Comments -/

/-- How many comments are open; `quoted` is behind a backslash, in one comment more than it says. -/
inductive CommentState
  | inside (depth : Nat)
  | quoted (depth : Nat)
  deriving DecidableEq

namespace CommentState

/-- Outside of comments there is white space only; in a comment a backslash quotes the character behind it. -/
def next : CommentState → Char → Option CommentState
  | .inside 0, c => if c = '(' then some (.inside 1) else if isWsp c then some (.inside 0) else none
  | .inside (d + 1), c =>
    if c = '(' then some (.inside (d + 2))
    else if c = ')' then some (.inside d)
    else if c = '\\' then some (.quoted d)
    else some (.inside (d + 1))
  | .quoted d, _ => some (.inside (d + 1))

/-- How many comments are open. -/
def depth : CommentState → Nat
  | .inside d => d
  | .quoted d => d + 1

/-- Behind a text. -/
def run (s : CommentState) (t : Text) : Option CommentState := t.foldlM next s

end CommentState

/-- Optional comments and white space. -/
def Cfws (t : Text) : Prop := CommentState.run (.inside 0) t = some (.inside 0)

instance (t : Text) : Decidable (Cfws t) := inferInstanceAs (Decidable (_ = _))

/-- `( dot-atom | quoted-string ) "@" ( dot-atom | domain-literal )`. -/
def MessageId (m : Text) : Prop :=
  ∃ l r, m = l ++ '@' :: r ∧ (DotAtomText l ∨ QuotedString l) ∧ (DotAtomText r ∨ DomainLiteral r)

/-- The body of a field is that message id in brackets, with comments and white space. -/
def BodyReads (body m : Text) : Prop :=
  ∃ front back, body = front ++ '<' :: (m ++ '>' :: back) ∧ Cfws front ∧ Cfws back ∧ MessageId m

/-- `comment_mode` behind a character that `skip_cws` passes. -/
def skipNext (comment : Bool) (c : Char) : Option Bool :=
  if c = ' ' ∨ c = '\t' then some comment
  else if c = '(' then some true
  else if comment then some (decide (c ≠ ')'))
  else none

/-- `comment_mode` behind a text that `skip_cws` passes. -/
def skipRun (comment : Bool) (t : Text) : Option Bool := t.foldlM skipNext comment

/-- Where a comment is that both read the same. -/
inductive PlainState
  | outside
  | comment
  | pair
  deriving DecidableEq

/-- There is no parenthesis in the comment, but for an opening one that a backslash quotes. -/
def PlainState.next : PlainState → Char → Option PlainState
  | .outside, c => if c = '(' then some .comment else if isWsp c then some .outside else none
  | .comment, c =>
    if c = '(' then none
    else if c = ')' then some .outside
    else if c = '\\' then some .pair
    else some .comment
  | .pair, c => if c = ')' then none else some .comment

/-- Optional comments and white space, with such comments only. -/
def PlainCfws (t : Text) : Prop := t.foldlM PlainState.next .outside = some .outside

instance (t : Text) : Decidable (PlainCfws t) := inferInstanceAs (Decidable (_ = _))

theorem CommentState.run_append (s : CommentState) : (run s (t ++ u)) = (run s t).bind fun s' => run s' u :=
  List.foldlM_append

theorem CommentState.run_cons (s : CommentState) (c : Char) : run s (c :: t) = (next s c).bind fun s' => run s' t := rfl

theorem skipRun_append (b : Bool) : skipRun b (t ++ u) = (skipRun b t).bind fun b' => skipRun b' u := List.foldlM_append

theorem skipRun_cons (b : Bool) (c : Char) : skipRun b (c :: t) = (skipNext b c).bind fun b' => skipRun b' t := rfl

/-- In a comment every closing parenthesis is its end. -/
theorem skipNext_comment (c : Char) : skipNext true c = some (decide (c ≠ ')')) := by
  unfold skipNext
  split
  next hws => rcases hws with rfl | rfl <;> rfl
  next =>
    split
    next hopen => rw [hopen]; rfl
    next => rfl

theorem skipNext_outside (c : Char) : skipNext false c = if c = '(' then some true else if isWsp c then some false else none := by
  unfold skipNext isWsp
  by_cases hopen : c = '('
  · subst hopen
    rfl
  · simp [hopen]

theorem CommentState.next_outside (c : Char) : next (.inside 0) c =
    if c = '(' then some (.inside 1) else if isWsp c then some (.inside 0) else none := rfl

theorem CommentState.next_inside (d : Nat) (c : Char) : next (.inside (d + 1)) c =
    if c = '(' then some (.inside (d + 2)) else if c = ')' then some (.inside d)
    else if c = '\\' then some (.quoted d) else some (.inside (d + 1)) := rfl

/-- `skip_cws` over one character. -/
theorem skipCwsFrom_cons (b : Bool) (c : Char) : skipCwsFrom b (c :: t) =
    match skipNext b c with
    | some b' => skipCwsFrom b' t
    | none => some (c :: t) := by
  rw [skipCwsFrom]
  unfold skipNext
  split
  · rfl
  · split
    · rfl
    · split <;> rfl

/-- `skip_cws` stops in front of what it does not pass. -/
theorem skipCwsFrom_append {b b' : Bool} (h : skipRun b t = some b') : skipCwsFrom b (t ++ u) = skipCwsFrom b' u := by
  induction t generalizing b with
  | nil => rw [Option.some.inj h, List.nil_append]
  | cons c t ih =>
    obtain ⟨b₁, hc, ht⟩ := Option.bind_eq_some_iff.mp h
    rw [List.cons_append, skipCwsFrom_cons, hc]
    exact ih ht

theorem skipCwsFrom_none {b : Bool} : skipCwsFrom b t = none ↔ (skipRun b t).isSome = true := by
  induction t generalizing b with
  | nil => exact ⟨fun _ => rfl, fun _ => rfl⟩
  | cons c t ih =>
    rw [skipCwsFrom_cons, skipRun_cons]
    cases skipNext b c with
    | none => exact ⟨(fun h => by cases h), (fun h => by cases h)⟩
    | some b' => exact ih

theorem skipCws_none : skipCws t = none ↔ (skipRun false t).isSome = true := skipCwsFrom_none

/-- What `skip_cws` comes to. -/
theorem skipCwsFrom_some {b : Bool} {c : Char} (h : skipCwsFrom b t = some (c :: behind)) :
    ∃ p, t = p ++ c :: behind ∧ skipRun b p = some false := by
  induction t generalizing b with
  | nil => cases h
  | cons d t ih =>
    rw [skipCwsFrom_cons] at h
    cases hd : skipNext b d with
    | none =>
      rw [hd] at h
      refine ⟨[], Option.some.inj h, ?_⟩
      unfold skipNext at hd
      cases b with
      | false => rfl
      | true =>
        split at hd
        · cases hd
        · split at hd
          · cases hd
          · cases hd
    | some b' =>
      rw [hd] at h
      obtain ⟨p, hp, hrun⟩ := ih h
      refine ⟨d :: p, congrArg (d :: ·) hp, ?_⟩
      rw [skipRun_cons, hd]
      exact hrun

/-! ## The lines -/

/-- A message id, as the program reads it. -/
def MidToken (m : Text) : Prop := ∃ l r, m = l ++ '@' :: r ∧ UserToken l ∧ DomainToken r

/-- One line has that message id in brackets; `skip_cws` finds nothing in front of it, nothing behind it, and nothing on
    the other lines. -/
def LineReads (ls : List Text) (m : Text) : Prop :=
  ∃ before front back after, ls = before ++ (front ++ '<' :: (m ++ '>' :: back)) :: after ∧
    skipRun false front = some false ∧ (∀ l ∈ before ++ back :: after, skipCws l = none) ∧ MidToken m

theorem domainToken_gt {r : Text} (h : DomainToken r) (u : Text) : tokenMidRight (r ++ '>' :: u) = some (r, '>' :: u) := by
  unfold DomainToken tokenAddressDomain at h
  have hne : r ≠ [] := by
    rintro rfl
    cases h
  unfold tokenMidRight
  rw [head?_append_of_ne_nil hne]
  split at h
  next hbracket =>
    rw [if_pos hbracket]
    exact (tokenDomainLiteral_append h).2.2 _
  next hbracket =>
    rw [if_neg hbracket]
    obtain ⟨-, -, hall⟩ := tokenDotAtom_spec h
    exact tokenDotAtom_append hne hall (fun c hc => by cases hc; rfl)

theorem parseMid_iff : parseMid t = some (m, behind) ↔ t = '<' :: (m ++ '>' :: behind) ∧ MidToken m := by
  constructor
  · intro h
    unfold parseMid at h
    split at h
    next left =>
      split at h
      next l right hleft =>
        split at h
        next r rest hright =>
          obtain ⟨rfl, rfl⟩ := Prod.mk.inj (Option.some.inj h)
          obtain ⟨hl, -⟩ := tokenUser_append hleft
          obtain ⟨hr, hself⟩ := tokenAddressDomain_self hright
          refine ⟨?_, l, r, rfl, tokenUser_token hleft, hself⟩
          rw [hl, hr]
          simp
        next => cases h
      next => cases h
    next => cases h
  · rintro ⟨rfl, l, r, rfl, hl, hr⟩
    have hleft : tokenMidLeft (l ++ '@' :: (r ++ '>' :: behind)) = some (l, '@' :: (r ++ '>' :: behind)) :=
      userToken_append hl _
    unfold parseMid
    rw [List.append_assoc, List.cons_append]
    simp only [hleft, domainToken_gt hr]

theorem midLines_some (ls : List Text) : midLines (some mid) ls = some m ↔ mid = m ∧ ∀ l ∈ ls, skipCws l = none := by
  induction ls with
  | nil => simp [midLines]
  | cons l ls ih =>
    rw [midLines]
    cases hskip : skipCws l with
    | none => simp [ih, hskip]
    | some start => simp [hskip]

/-- **What the lines of a field leave in `r_mid`.** -/
theorem midLines_iff (ls : List Text) : midLines none ls = some m ↔ LineReads ls m := by
  induction ls with
  | nil =>
    constructor
    · exact fun h => by cases h
    · rintro ⟨before, front, back, after, hls, -⟩
      simp at hls
  | cons l ls ih =>
    rw [midLines]
    cases hskip : skipCws l with
    | none =>
      dsimp only
      rw [ih]
      constructor
      · rintro ⟨before, front, back, after, rfl, hfront, hblank, hm⟩
        refine ⟨l :: before, front, back, after, rfl, hfront, ?_, hm⟩
        intro x hx
        cases List.mem_cons.mp hx with
        | inl h => exact h ▸ hskip
        | inr h => exact hblank x h
      · rintro ⟨before, front, back, after, hls, hfront, hblank, hm⟩
        cases before with
        | nil =>
          -- the id would be found on the first line
          obtain ⟨rfl, -⟩ := List.cons.inj hls
          rw [skipCws, skipCwsFrom_append hfront] at hskip
          cases hskip
        | cons b before =>
          obtain ⟨-, rfl⟩ := List.cons.inj hls
          exact ⟨before, front, back, after, rfl, hfront, fun x hx => hblank x (List.mem_cons_of_mem _ hx), hm⟩
    | some start =>
      dsimp only
      constructor
      · intro h
        split at h
        next mid behind _ hparse =>
          obtain ⟨rfl, hm⟩ := parseMid_iff.mp hparse
          split at h
          next hbehind =>
            obtain ⟨rfl, hblank⟩ := (midLines_some ls).mp h
            obtain ⟨front, rfl, hfront⟩ := skipCwsFrom_some hskip
            refine ⟨[], front, behind, ls, rfl, hfront, ?_, hm⟩
            intro x hx
            cases List.mem_cons.mp hx with
            | inl h => exact h ▸ hbehind
            | inr h => exact hblank x h
          next => cases h
        next => cases h
      · rintro ⟨before, front, back, after, hls, hfront, hblank, hm⟩
        cases before with
        | nil =>
          obtain ⟨rfl, rfl⟩ := List.cons.inj hls
          have hstart : start = '<' :: (m ++ '>' :: back) := by
            rw [skipCws, skipCwsFrom_append hfront] at hskip
            exact (Option.some.inj hskip).symm
          have hparse := parseMid_iff.mpr ⟨hstart, hm⟩
          simp only [hparse, if_pos (hblank back (List.mem_cons_self ..))]
          exact (midLines_some ls).mpr ⟨rfl, fun x hx => hblank x (List.mem_cons_of_mem _ hx)⟩
        | cons b before =>
          obtain ⟨rfl, -⟩ := List.cons.inj hls
          rw [hblank l (List.mem_cons_self ..)] at hskip
          cases hskip

/-! ## Both ways over a comment -/

/-- `skip_cws` is in a comment only where one is open, beside the `D` that were open in front of it. -/
def Within (D : Nat) : Bool → CommentState → Prop
  | false, .inside d => D ≤ d
  | true, .inside d => D < d
  | true, .quoted d => D ≤ d
  | false, .quoted _ => False

theorem Within.depth {b : Bool} {s : CommentState} (h : Within D b s) : D ≤ s.depth := by
  cases b <;> cases s <;> simp only [Within] at h <;> simp only [CommentState.depth] <;> omega

theorem CommentState.next_wsp {d : Nat} {c : Char} (hopen : c ≠ '(') (hws : isWsp c = true) :
    next (.inside d) c = some (.inside d) := by
  cases d with
  | zero => rw [next_outside, if_neg hopen, if_pos hws]
  | succ d =>
    have hclose : c ≠ ')' := by
      rintro rfl
      cases hws
    have hslash : c ≠ '\\' := by
      rintro rfl
      cases hws
    rw [next_inside, if_neg hopen, if_neg hclose, if_neg hslash]

theorem Within.next {b b' : Bool} {s s' : CommentState} {c : Char} (h : Within D b s) (hb : skipNext b c = some b')
    (hs : s.next c = some s') : Within D b' s' := by
  cases b with
  | false =>
    cases s with
    | quoted d => exact h.elim
    | inside d =>
      have hd : D ≤ d := h
      rw [skipNext_outside] at hb
      split at hb
      next hopen =>
        subst hopen
        obtain rfl := Option.some.inj hb
        have hs' : s' = .inside (d + 1) := by
          cases d <;> exact (Option.some.inj hs).symm
        rw [hs']
        exact Nat.lt_succ_of_le hd
      next hopen =>
        split at hb
        next hws =>
          obtain rfl := Option.some.inj hb
          rw [CommentState.next_wsp hopen hws] at hs
          obtain rfl := Option.some.inj hs
          exact hd
        next => cases hb
  | true =>
    rw [skipNext_comment] at hb
    obtain rfl := Option.some.inj hb
    cases s with
    | quoted d =>
      have hd : D ≤ d := h
      obtain rfl := Option.some.inj hs
      cases decide (c ≠ ')') with
      | false => exact Nat.le_succ_of_le hd
      | true => exact Nat.lt_succ_of_le hd
    | inside d =>
      have hd : D < d := h
      obtain ⟨e, rfl⟩ : ∃ e, d = e + 1 := ⟨d - 1, by omega⟩
      rw [CommentState.next_inside] at hs
      by_cases hclose : c = ')'
      · subst hclose
        obtain rfl := Option.some.inj hs
        exact Nat.le_of_lt_succ hd
      · rw [decide_eq_true hclose]
        rw [if_neg hclose] at hs
        split at hs
        next =>
          obtain rfl := Option.some.inj hs
          exact Nat.lt_succ_of_lt hd
        next =>
          split at hs
          next =>
            obtain rfl := Option.some.inj hs
            exact Nat.le_of_lt_succ hd
          next =>
            obtain rfl := Option.some.inj hs
            exact hd

theorem Within.run {b b' : Bool} {s s' : CommentState} (h : Within D b s) (hb : skipRun b t = some b')
    (hs : s.run t = some s') : Within D b' s' := by
  induction t generalizing b s with
  | nil =>
    obtain rfl := Option.some.inj hb
    obtain rfl := Option.some.inj hs
    exact h
  | cons c t ih =>
    obtain ⟨b₁, hb₁, hb⟩ := Option.bind_eq_some_iff.mp hb
    obtain ⟨s₁, hs₁, hs⟩ := Option.bind_eq_some_iff.mp hs
    exact ih (h.next hb₁ hs₁) hb hs

namespace PlainState

/-- `comment_mode` there. -/
def skip : PlainState → Bool
  | .outside => false
  | _ => true

/-- The comments there. -/
def state : PlainState → CommentState
  | .outside => .inside 0
  | .comment => .inside 1
  | .pair => .quoted 0

theorem next_outside (c : Char) : next .outside c =
    if c = '(' then some .comment else if isWsp c then some .outside else none := rfl

theorem next_comment (c : Char) : next .comment c =
    if c = '(' then none else if c = ')' then some .outside else if c = '\\' then some .pair else some .comment := rfl

theorem next_pair (c : Char) : next .pair c = if c = ')' then none else some .comment := rfl

theorem next_both {f f' : PlainState} {c : Char} (h : f.next c = some f') :
    skipNext f.skip c = some f'.skip ∧ f.state.next c = some f'.state := by
  cases f with
  | outside =>
    rw [next_outside] at h
    show skipNext false c = _ ∧ CommentState.next (.inside 0) c = _
    rw [skipNext_outside, CommentState.next_outside]
    split at h
    next hopen =>
      obtain rfl := Option.some.inj h
      rw [if_pos hopen, if_pos hopen]
      exact ⟨rfl, rfl⟩
    next hopen =>
      rw [if_neg hopen, if_neg hopen]
      split at h
      next hws =>
        obtain rfl := Option.some.inj h
        rw [if_pos hws, if_pos hws]
        exact ⟨rfl, rfl⟩
      next => cases h
  | comment =>
    rw [next_comment] at h
    show skipNext true c = _ ∧ CommentState.next (.inside 1) c = _
    rw [skipNext_comment, CommentState.next_inside]
    split at h
    next => cases h
    next hopen =>
      rw [if_neg hopen]
      split at h
      next hclose =>
        obtain rfl := Option.some.inj h
        subst hclose
        exact ⟨rfl, rfl⟩
      next hclose =>
        rw [if_neg hclose, decide_eq_true hclose]
        split at h
        next hslash =>
          obtain rfl := Option.some.inj h
          rw [if_pos hslash]
          exact ⟨rfl, rfl⟩
        next hslash =>
          obtain rfl := Option.some.inj h
          rw [if_neg hslash]
          exact ⟨rfl, rfl⟩
  | pair =>
    rw [next_pair] at h
    show skipNext true c = _ ∧ _
    rw [skipNext_comment]
    split at h
    next => cases h
    next hclose =>
      obtain rfl := Option.some.inj h
      rw [decide_eq_true hclose]
      exact ⟨rfl, rfl⟩

/-- Where the text is not plain, more comments are open than `skip_cws` knows of. -/
theorem next_or {f : PlainState} {b' : Bool} {s' : CommentState} {c : Char} (hb : skipNext f.skip c = some b')
    (hs : f.state.next c = some s') :
    (∃ f', f.next c = some f' ∧ b' = f'.skip ∧ s' = f'.state) ∨ Within 1 b' s' := by
  cases hf : f.next c with
  | some f' =>
    obtain ⟨hskip, hstate⟩ := next_both hf
    rw [hskip] at hb
    rw [hstate] at hs
    exact .inl ⟨f', rfl, (Option.some.inj hb).symm, (Option.some.inj hs).symm⟩
  | none =>
    right
    cases f with
    | outside =>
      have hnone : CommentState.next (.inside 0) c = none := by
        rw [next_outside] at hf
        rw [CommentState.next_outside]
        split at hf
        next => cases hf
        next hopen =>
          split at hf
          next => cases hf
          next hws => rw [if_neg hopen, if_neg hws]
      rw [show PlainState.outside.state = .inside 0 from rfl, hnone] at hs
      cases hs
    | comment =>
      rw [next_comment] at hf
      split at hf
      next hopen =>
        subst hopen
        obtain rfl := Option.some.inj hb
        obtain rfl := Option.some.inj hs
        exact Nat.lt_succ_self 1
      next =>
        split at hf
        next => cases hf
        next => split at hf <;> cases hf
    | pair =>
      rw [next_pair] at hf
      split at hf
      next hclose =>
        subst hclose
        obtain rfl := Option.some.inj hb
        obtain rfl := Option.some.inj hs
        exact Nat.le_refl 1
      next => cases hf

theorem run_both {f f' : PlainState} (h : t.foldlM next f = some f') :
    skipRun f.skip t = some f'.skip ∧ f.state.run t = some f'.state := by
  induction t generalizing f with
  | nil =>
    obtain rfl := Option.some.inj h
    exact ⟨rfl, rfl⟩
  | cons c t ih =>
    obtain ⟨f₁, hf₁, hf⟩ := Option.bind_eq_some_iff.mp h
    obtain ⟨hskip, hstate⟩ := next_both hf₁
    rw [skipRun_cons, CommentState.run_cons, hskip, hstate]
    exact ih hf

theorem run_or {f : PlainState} {b' : Bool} {s' : CommentState} (hb : skipRun f.skip t = some b')
    (hs : f.state.run t = some s') :
    (∃ f', t.foldlM next f = some f' ∧ b' = f'.skip ∧ s' = f'.state) ∨ Within 1 b' s' := by
  induction t generalizing f with
  | nil => exact .inl ⟨f, rfl, (Option.some.inj hb).symm, (Option.some.inj hs).symm⟩
  | cons c t ih =>
    obtain ⟨b₁, hb₁, hb⟩ := Option.bind_eq_some_iff.mp hb
    obtain ⟨s₁, hs₁, hs⟩ := Option.bind_eq_some_iff.mp hs
    rcases next_or hb₁ hs₁ with ⟨f₁, hf₁, rfl, rfl⟩ | hdeep
    · rcases ih hb hs with ⟨f', hf', hskip, hstate⟩ | hdeep
      · refine .inl ⟨f', ?_, hskip, hstate⟩
        rw [List.foldlM_cons, hf₁]
        exact hf'
      · exact .inr hdeep
    · exact .inr (hdeep.run hb hs)

end PlainState

/-! ## Several lines -/

theorem folds_cons {l : Text} (h : folds l = true) : ∃ w t, l = w :: t ∧ isWsp w = true := by
  cases l with
  | nil => cases h
  | cons w t =>
    refine ⟨w, t, rfl, ?_⟩
    simpa [folds, isWsp] using h

/-- A line that may have a backslash in front of it begins with white space. -/
def Starts (s : CommentState) (l : Text) : Prop := (∃ d, s = .inside d) ∨ folds l = true

/-- Part of a line that `skip_cws` finds nothing on. -/
theorem line_within {s s' : CommentState} {p x : Text} (hblank : skipCws (p ++ x) = none)
    (hstart : (∃ d, s = .inside d) ∨ (folds (p ++ x) = true ∧ p ≠ [])) (hdepth : D ≤ s.depth) (hs : s.run p = some s') :
    ∃ b, Within D b s' ∧ (skipRun b x).isSome = true := by
  have hrun := skipCws_none.mp hblank
  rw [skipRun_append] at hrun
  obtain ⟨b, hb⟩ : ∃ b, skipRun false p = some b := by
    cases h : skipRun false p with
    | some b => exact ⟨b, rfl⟩
    | none =>
      rw [h] at hrun
      cases hrun
  rw [hb] at hrun
  refine ⟨b, ?_, hrun⟩
  rcases hstart with ⟨d, rfl⟩ | ⟨hfold, hne⟩
  · exact Within.run (show Within D false (.inside d) from hdepth) hb hs
  · cases s with
    | inside d => exact Within.run (show Within D false (.inside d) from hdepth) hb hs
    | quoted d =>
      -- the backslash quotes the white space
      cases p with
      | nil => exact absurd rfl hne
      | cons w p =>
        obtain ⟨w', t, hw, hws⟩ := folds_cons hfold
        obtain ⟨rfl, -⟩ := List.cons.inj hw
        have hopen : w ≠ '(' := by
          rintro rfl
          cases hws
        rw [skipRun_cons, skipNext_outside, if_neg hopen, if_pos hws] at hb
        exact Within.run (show Within D false (.inside (d + 1)) from hdepth) hb hs

/-- In front of a character of such a line. -/
theorem line_next {s s' : CommentState} {c y : Text} {x : Char} (hblank : skipCws (c ++ x :: y) = none)
    (hstart : Starts s (c ++ x :: y)) (hdepth : D ≤ s.depth) (hs : s.run c = some s') :
    (∃ b, Within D b s' ∧ (skipNext b x).isSome = true) ∨ isWsp x = true := by
  have hstart' : ((∃ d, s = .inside d) ∨ (folds (c ++ x :: y) = true ∧ c ≠ [])) ∨ isWsp x = true := by
    rcases hstart with hs | hfold
    · exact .inl (.inl hs)
    · cases c with
      | nil =>
        obtain ⟨w, t, hw, hws⟩ := folds_cons hfold
        obtain ⟨rfl, -⟩ := List.cons.inj hw
        exact .inr hws
      | cons d c => exact .inl (.inr ⟨hfold, List.cons_ne_nil _ _⟩)
  rcases hstart' with hstart' | hws
  · obtain ⟨b, hwithin, hrest⟩ := line_within hblank hstart' hdepth hs
    refine .inl ⟨b, hwithin, ?_⟩
    rw [skipRun_cons] at hrest
    cases hx : skipNext b x with
    | some b' => rfl
    | none =>
      rw [hx] at hrest
      cases hrest
  · exact .inr hws

/-- A whole line closes no comment that was open in front of it. -/
theorem line_depth {s s' : CommentState} {l : Text} (hblank : skipCws l = none) (hstart : Starts s l) (hdepth : D ≤ s.depth)
    (hs : s.run l = some s') : D ≤ s'.depth := by
  have hstart' : (∃ d, s = .inside d) ∨ (folds (l ++ []) = true ∧ l ≠ []) := by
    rcases hstart with h | h
    · exact .inl h
    · refine .inr ⟨by rwa [List.append_nil], ?_⟩
      rintro rfl
      cases h
  obtain ⟨b, hwithin, -⟩ := line_within (by rwa [List.append_nil]) hstart' hdepth hs
  exact hwithin.depth

/-- Lines that `skip_cws` finds nothing on, the first of them in any place. -/
structure BlankLines (l : Text) (ls : List Text) : Prop where
  blank : ∀ k ∈ l :: ls, skipCws k = none
  folded : ∀ k ∈ ls, folds k = true

theorem BlankLines.tail {l k : Text} (h : BlankLines l (k :: ls)) : BlankLines k ls ∧ ∀ s, Starts s k :=
  ⟨⟨fun x hx => h.blank x (List.mem_cons_of_mem _ hx), fun x hx => h.folded x (List.mem_cons_of_mem _ hx)⟩,
    fun _ => .inr (h.folded k (List.mem_cons_self ..))⟩

theorem BlankLines.depth {s s' : CommentState} {l : Text} (h : BlankLines l ls) (hstart : Starts s l) (hdepth : D ≤ s.depth)
    (hs : s.run (l :: ls).flatten = some s') : D ≤ s'.depth := by
  induction ls generalizing l s with
  | nil =>
    rw [List.flatten_cons, List.flatten_nil, List.append_nil] at hs
    exact line_depth (h.blank l (List.mem_cons_self ..)) hstart hdepth hs
  | cons k ls ih =>
    rw [List.flatten_cons, CommentState.run_append] at hs
    obtain ⟨s₁, hs₁, hs⟩ := Option.bind_eq_some_iff.mp hs
    exact ih h.tail.1 (h.tail.2 s₁) (line_depth (h.blank l (List.mem_cons_self ..)) hstart hdepth hs₁) hs

/-- **In front of any character of such lines** `skip_cws` is in a comment only where one is open. -/
theorem BlankLines.within {s s' : CommentState} {l c y : Text} {x : Char} (h : BlankLines l ls) (hstart : Starts s l)
    (hdepth : D ≤ s.depth) (heq : (l :: ls).flatten = c ++ x :: y) (hs : s.run c = some s') :
    (∃ b, Within D b s' ∧ (skipNext b x).isSome = true) ∨ isWsp x = true := by
  induction ls generalizing l s c with
  | nil =>
    rw [List.flatten_cons, List.flatten_nil, List.append_nil] at heq
    subst heq
    exact line_next (h.blank _ (List.mem_cons_self ..)) hstart hdepth hs
  | cons k ls ih =>
    rw [List.flatten_cons] at heq
    have hlater : ∀ c', c = l ++ c' → (k :: ls).flatten = c' ++ x :: y →
        (∃ b, Within D b s' ∧ (skipNext b x).isSome = true) ∨ isWsp x = true := by
      rintro c' rfl heq
      rw [CommentState.run_append] at hs
      obtain ⟨s₁, hs₁, hs⟩ := Option.bind_eq_some_iff.mp hs
      have hdepth₁ := line_depth (h.blank l (List.mem_cons_self ..)) hstart hdepth hs₁
      exact ih h.tail.1 (h.tail.2 s₁) hdepth₁ heq hs
    rcases List.append_eq_append_iff.mp heq with ⟨c', hc, heq⟩ | ⟨t, hl, heq⟩
    · exact hlater c' hc heq
    · cases t with
      | nil =>
        rw [List.append_nil] at hl
        exact hlater [] (by rw [hl, List.append_nil]) heq.symm
      | cons d t =>
        obtain ⟨rfl, -⟩ := List.cons.inj heq
        subst hl
        exact line_next (h.blank _ (List.mem_cons_self ..)) hstart hdepth hs

/-- A line that `skip_cws` finds nothing on, from outside of comments. -/
theorem line_plain {s' : CommentState} {l : Text} (hblank : skipCws l = none) (hs : CommentState.run (.inside 0) l = some s') :
    (PlainCfws l ∧ s' = .inside 0) ∨ 1 ≤ s'.depth := by
  obtain ⟨b, hb⟩ := Option.isSome_iff_exists.mp (skipCws_none.mp hblank)
  have hboth : (∃ f', l.foldlM PlainState.next .outside = some f' ∧ b = f'.skip ∧ s' = f'.state) ∨ Within 1 b s' :=
    PlainState.run_or hb hs
  rcases hboth with ⟨f', hf', -, rfl⟩ | hdeep
  · cases f' with
    | outside => exact .inl ⟨hf', rfl⟩
    | comment => exact .inr (Nat.le_refl 1)
    | pair => exact .inr (Nat.le_refl 1)
  · exact .inr hdeep.depth

/-- **Where all comments are closed behind the lines** each line has comments that both read the same. -/
theorem BlankLines.plain {l : Text} (h : BlankLines l ls) (hclosed : Cfws (l :: ls).flatten) : ∀ k ∈ l :: ls, PlainCfws k := by
  have hline := h.blank l (List.mem_cons_self ..)
  induction ls generalizing l with
  | nil =>
    rw [List.flatten_cons, List.flatten_nil, List.append_nil] at hclosed
    rcases line_plain hline hclosed with ⟨hplain, -⟩ | hdeep
    · intro k hk
      rw [List.mem_singleton.mp hk]
      exact hplain
    · exact absurd hdeep (Nat.not_succ_le_zero 0)
  | cons k ls ih =>
    rw [List.flatten_cons, Cfws, CommentState.run_append] at hclosed
    obtain ⟨s₁, hs₁, hs⟩ := Option.bind_eq_some_iff.mp hclosed
    rcases line_plain hline hs₁ with ⟨hplain, rfl⟩ | hdeep
    · intro x hx
      cases List.mem_cons.mp hx with
      | inl h => exact h ▸ hplain
      | inr hx => exact ih h.tail.1 hs (h.tail.1.blank k (List.mem_cons_self ..)) x hx
    · exact absurd (h.tail.1.depth (h.tail.2 s₁) hdeep hs) (Nat.not_succ_le_zero 0)

/-! ## The id in the lines and in the body -/

/-- The lines and the body agree on that message id: it is on one line, and on each line there are only comments that
    both read the same. -/
def PlainReads (ls : List Text) (m : Text) : Prop :=
  ∃ before front back after, ls = before ++ (front ++ '<' :: (m ++ '>' :: back)) :: after ∧
    (∀ l ∈ before ++ front :: back :: after, PlainCfws l) ∧ MessageId m

theorem MessageId.token (h : MessageId m) : MidToken m := by
  obtain ⟨l, r, rfl, hl, hr⟩ := h
  exact ⟨l, r, rfl, (localPart_iff.mp hl).1, (addressDomain_iff.mp hr).1⟩

theorem PlainCfws.skips {l : Text} (h : PlainCfws l) : skipRun false l = some false := (PlainState.run_both h).1

theorem PlainCfws.blank {l : Text} (h : PlainCfws l) : skipCws l = none := by
  rw [skipCws_none, h.skips]
  rfl

theorem PlainCfws.cfws {l : Text} (h : PlainCfws l) : Cfws l := (PlainState.run_both h).2

theorem Cfws.append (ht : Cfws t) (hu : Cfws u) : Cfws (t ++ u) := by
  rw [Cfws, CommentState.run_append, ht]
  exact hu

theorem Cfws.flatten (h : ∀ l ∈ ls, Cfws l) : Cfws ls.flatten := by
  induction ls with
  | nil => exact rfl
  | cons l ls ih =>
    rw [List.flatten_cons]
    exact (h l (List.mem_cons_self ..)).append (ih fun k hk => h k (List.mem_cons_of_mem _ hk))

theorem PlainReads.lineReads (h : PlainReads ls m) : LineReads ls m := by
  obtain ⟨before, front, back, after, hls, hplain, hm⟩ := h
  have hfront : front ∈ before ++ front :: back :: after := List.mem_append_right _ (List.mem_cons_self ..)
  refine ⟨before, front, back, after, hls, (hplain front hfront).skips, fun l hl => (hplain l ?_).blank, hm.token⟩
  simp only [List.mem_append, List.mem_cons] at hl ⊢
  tauto

theorem PlainReads.bodyReads (h : PlainReads ls m) : BodyReads ls.flatten m := by
  obtain ⟨before, front, back, after, rfl, hplain, hm⟩ := h
  refine ⟨(before ++ [front]).flatten, (back :: after).flatten, by simp, ?_, ?_, hm⟩
  · apply Cfws.flatten
    intro l hl
    apply PlainCfws.cfws
    apply hplain
    simp only [List.mem_append, List.mem_cons] at hl ⊢
    tauto
  · apply Cfws.flatten
    intro l hl
    exact (hplain l (List.mem_append_right _ (List.mem_cons_of_mem _ hl))).cfws

/-- A text with a bracket in it that is continued by itself. -/
theorem bracket_overlap {m₁ : Text} : ∀ (n : Nat) {m m₂ : Text}, m₂.length = n → m = m₁ ++ '<' :: m₂ →
    m ++ '>' :: back' = m₂ ++ '>' :: back → ∃ x y z, m₁ = x ++ '>' :: y ∧ back = y ++ '<' :: z := by
  intro n
  induction n using Nat.strong_induction_on with
  | _ n ih =>
    rintro m m₂ hn rfl heq
    rw [List.append_assoc, List.cons_append] at heq
    rcases List.append_eq_append_iff.mp heq with ⟨b, hb, hrest⟩ | ⟨a, ha, hrest⟩
    · cases b with
      | nil => cases hrest
      | cons c b =>
        obtain ⟨hc, hrest'⟩ := List.cons.inj hrest
        subst hc
        -- what is behind the bracket begins with the text again
        have hless : b.length < n := by
          rw [← hn, hb, List.length_append, List.length_cons]
          omega
        exact ih b.length hless rfl hb hrest'
    · cases a with
      | nil => cases hrest
      | cons c a =>
        obtain ⟨hc, hrest'⟩ := List.cons.inj hrest
        subst hc
        exact ⟨m₂, a, _, ha, hrest'⟩

/-- Where a text has the same id twice, what follows the first has the bracket of the second in it. -/
theorem id_overlap (heq : front ++ '<' :: (m ++ '>' :: back) = front' ++ '<' :: (m ++ '>' :: back'))
    (hlt : front.length < front'.length) : ∃ x y z, front' = front ++ '<' :: (x ++ '>' :: y) ∧ back = y ++ '<' :: z := by
  rcases List.append_eq_append_iff.mp heq with ⟨a, ha, hrest⟩ | ⟨a, ha, -⟩
  · cases a with
    | nil =>
      rw [ha, List.append_nil] at hlt
      exact absurd hlt (Nat.lt_irrefl _)
    | cons c a =>
      obtain ⟨hc, hid⟩ := List.cons.inj hrest
      subst hc
      rcases List.append_eq_append_iff.mp hid with ⟨e, he, htail⟩ | ⟨e, he, htail⟩
      · cases e with
        | nil => cases htail
        | cons c e =>
          obtain ⟨hc, hback⟩ := List.cons.inj htail
          subst hc
          exact ⟨m, e, _, by rw [ha, he], hback⟩
      · cases e with
        | nil => cases htail
        | cons c e =>
          obtain ⟨hc, hback⟩ := List.cons.inj htail
          subst hc
          obtain ⟨x, y, z, hx, hz⟩ := bracket_overlap e.length rfl he hback
          exact ⟨x, y, z, by rw [ha, hx], hz⟩
  · rw [ha, List.length_append] at hlt
    omega

theorem CommentState.next_gt {s s' : CommentState} (h : s.next '>' = some s') : ∃ d, s' = .inside (d + 1) := by
  cases s with
  | quoted d => exact ⟨d, (Option.some.inj h).symm⟩
  | inside d =>
    cases d with
    | zero => cases h
    | succ d => exact ⟨d, (Option.some.inj h).symm⟩

/-- No comment of the body ends behind the id that the lines have in it. -/
theorem BlankLines.not_behind {back : Text} {after : List Text} (h : BlankLines back after) {x y z : Text}
    (hfront : Cfws (x ++ '>' :: y)) (hback : (back :: after).flatten = y ++ '<' :: z) : False := by
  unfold Cfws at hfront
  rw [CommentState.run_append] at hfront
  obtain ⟨s₁, -, hs⟩ := Option.bind_eq_some_iff.mp hfront
  obtain ⟨s₂, hgt, hs⟩ := Option.bind_eq_some_iff.mp hs
  obtain ⟨d, rfl⟩ := CommentState.next_gt hgt
  have hdepth : 1 ≤ (CommentState.inside (d + 1)).depth := Nat.succ_le_succ (Nat.zero_le d)
  rcases h.within (.inl ⟨d + 1, rfl⟩) hdepth hback hs with ⟨b, hwithin, -⟩ | hws
  · exact absurd hwithin.depth (Nat.not_succ_le_zero 0)
  · cases hws

/-- Nor does the id of the body begin in front of it. -/
theorem BlankLines.not_front {l c y : Text} (h : BlankLines l ls) (hfront : Cfws c)
    (heq : (l :: ls).flatten = c ++ '<' :: y) : False := by
  rcases h.within (.inl ⟨0, rfl⟩) (Nat.zero_le _) heq hfront with ⟨b, hwithin, hnext⟩ | hws
  · cases b with
    | false => cases hnext
    | true => exact absurd hwithin (Nat.lt_irrefl 0)
  · cases hws

/-- The lines of a field; all but the first begin with white space. -/
def Folded (ls : List Text) : Prop := ∀ l ∈ ls.tail, folds l = true

/-- What is on the lines in front of an id and on its line. -/
theorem Folded.inFront {before after : List Text} (h : Folded (before ++ (front ++ '<' :: behind) :: after))
    (hfront : skipRun false front = some false) (hblank : ∀ l ∈ before, skipCws l = none) :
    ∃ l ls, before ++ [front] = l :: ls ∧ BlankLines l ls := by
  have hskip : skipCws front = none := by
    rw [skipCws_none, hfront]
    rfl
  cases before with
  | nil =>
    refine ⟨front, [], rfl, ?_, fun k hk => by cases hk⟩
    intro k hk
    rw [List.mem_singleton.mp hk]
    exact hskip
  | cons l before =>
    refine ⟨l, before ++ [front], rfl, ?_, ?_⟩
    · intro k hk
      rw [← List.cons_append, List.mem_append] at hk
      cases hk with
      | inl hk => exact hblank k hk
      | inr hk => exact List.mem_singleton.mp hk ▸ hskip
    · intro k hk
      rw [List.mem_append] at hk
      cases hk with
      | inl hk => exact h k (List.mem_append_left _ hk)
      | inr hk =>
        rw [List.mem_singleton.mp hk]
        have hfold := h (front ++ '<' :: behind) (List.mem_append_right _ (List.mem_cons_self ..))
        cases front with
        | nil => cases hfold
        | cons w front => exact hfold

theorem Folded.after {before after : List Text} {l : Text} (h : Folded (before ++ l :: after)) : ∀ k ∈ after, folds k = true := by
  intro k hk
  cases before with
  | nil => exact h k hk
  | cons b before => exact h k (List.mem_append_right _ (List.mem_cons_of_mem _ hk))

/-- **The lines and the body have the same id** in this case alone. -/
theorem plainReads_iff (hfold : Folded ls) : PlainReads ls m ↔ LineReads ls m ∧ BodyReads ls.flatten m := by
  constructor
  · exact fun h => ⟨h.lineReads, h.bodyReads⟩
  · rintro ⟨⟨before, front, back, after, rfl, hfront, hblank, -⟩, front', back', heq, hfront', hback', hm⟩
    obtain ⟨l, ls, hls, hlines⟩ := hfold.inFront hfront fun k hk => hblank k (List.mem_append_left _ hk)
    have hbehind : BlankLines back after := ⟨fun k hk => hblank k (List.mem_append_right _ hk), hfold.after⟩
    have hbody : (l :: ls).flatten ++ '<' :: (m ++ '>' :: (back :: after).flatten) =
        front' ++ '<' :: (m ++ '>' :: back') := by
      rw [← heq, ← hls]
      simp
    rcases Nat.lt_trichotomy (l :: ls).flatten.length front'.length with hlt | hlen | hgt
    · exfalso
      obtain ⟨x, y, z, hx, hz⟩ := id_overlap hbody hlt
      rw [hx, ← List.cons_append, ← List.append_assoc] at hfront'
      exact hbehind.not_behind hfront' hz
    · obtain ⟨hf, htail⟩ := List.append_inj hbody hlen
      have hb : (back :: after).flatten = back' :=
        (List.cons.inj (List.append_cancel_left (List.cons.inj htail).2)).2
      refine ⟨before, front, back, after, rfl, ?_, hm⟩
      have hplain := hlines.plain (hf ▸ hfront')
      rw [← hls] at hplain
      have hplain' := hbehind.plain (hb ▸ hback')
      intro k hk
      rw [List.append_cons, List.mem_append] at hk
      exact hk.elim (hplain k) (hplain' k)
    · exfalso
      rcases List.append_eq_append_iff.mp hbody with ⟨a, ha, -⟩ | ⟨a, ha, hrest⟩
      · rw [ha, List.length_append] at hgt
        omega
      · cases a with
        | nil =>
          rw [ha, List.append_nil] at hgt
          exact Nat.lt_irrefl _ hgt
        | cons c a =>
          obtain ⟨hc, -⟩ := List.cons.inj hrest
          subst hc
          exact hlines.not_front hfront' ha

/-! ## The headers -/

theorem fieldsFrom_folded (lines : List Text) : ∀ f ∈ fieldsFrom lines, Folded f.2 := by
  induction lines with
  | nil => exact fun f hf => by cases hf
  | cons line rest ih =>
    intro f hf
    rw [fieldsFrom] at hf
    split at hf
    · exact ih f hf
    · split at hf
      next name body _ =>
        cases List.mem_cons.mp hf with
        | inl h =>
          subst h
          exact fun l hl => List.mem_takeWhile_imp hl
        | inr h => exact ih f h
      next => cases hf

theorem midFields_folded {lines : List Text} (h : ls ∈ midFields lines) : Folded ls := by
  obtain ⟨f, hf, rfl⟩ := List.mem_map.mp h
  have hmem := (List.mem_filter.mp hf).1
  unfold headFields at hmem
  split at hmem
  · cases hmem
  · exact fieldsFrom_folded lines f hmem

/-- What `r_mid` is behind the headers. -/
theorem rMid_iff (conf : RecvConf) (lines : List Text) :
    (HeadState.lines conf lines).rh.rMid = some m ↔ ∃ ls, midFields lines = [ls] ∧ LineReads ls m := by
  rw [rMid_lines]
  constructor
  · intro h
    split at h
    next ls hls => exact ⟨ls, hls, (midLines_iff ls).mp h⟩
    next => cases h
  · rintro ⟨ls, hls, hm⟩
    rw [hls]
    exact (midLines_iff ls).mpr hm

/-- The same fields, folded in another way. -/
def Refolded (lines lines' : List Text) : Prop :=
  (midFields lines').map List.flatten = (midFields lines).map List.flatten

instance (lines lines' : List Text) : Decidable (Refolded lines lines') := inferInstanceAs (Decidable (_ = _))

/-- A message id is there if there is one Message-ID field, with it in its unfolded body, and it is the same when the
    field is folded in another way. -/
structure MidExtracted (conf : RecvConf) (lines lines' : List Text) : Prop where
  rMid : ∀ m, (HeadState.lines conf lines).rh.rMid = some m ↔ ∃ ls, midFields lines = [ls] ∧ BodyReads ls.flatten m
  refolded : (HeadState.lines conf lines').rh.rMid = (HeadState.lines conf lines).rh.rMid

/-- Where the only Message-ID field has an id, in its body or on its lines, all of the id is on one line, and on each
    line there are only comments that both read the same. -/
def PlainlyFolded (lines : List Text) : Prop :=
  ∀ ls, midFields lines = [ls] → ∀ m, BodyReads ls.flatten m ∨ LineReads ls m → PlainReads ls m

theorem rMid_plain_iff (conf : RecvConf) (lines : List Text) :
    (∀ m, (HeadState.lines conf lines).rh.rMid = some m ↔ ∃ ls, midFields lines = [ls] ∧ BodyReads ls.flatten m) ↔
      PlainlyFolded lines := by
  constructor
  · intro h ls hls m hm
    have hfold : Folded ls := midFields_folded (hls ▸ List.mem_singleton_self ls)
    have hread := (rMid_iff conf lines).symm.trans (h m)
    rw [hls] at hread
    rw [plainReads_iff hfold]
    cases hm with
    | inl hbody =>
      obtain ⟨ls', hls', hline⟩ := hread.mpr ⟨ls, rfl, hbody⟩
      obtain ⟨rfl, -⟩ := List.cons.inj hls'
      exact ⟨hline, hbody⟩
    | inr hline =>
      obtain ⟨ls', hls', hbody⟩ := hread.mp ⟨ls, rfl, hline⟩
      obtain ⟨rfl, -⟩ := List.cons.inj hls'
      exact ⟨hline, hbody⟩
  · intro h m
    rw [rMid_iff]
    constructor
    · rintro ⟨ls, hls, hline⟩
      exact ⟨ls, hls, (h ls hls m (.inr hline)).bodyReads⟩
    · rintro ⟨ls, hls, hbody⟩
      exact ⟨ls, hls, (h ls hls m (.inl hbody)).lineReads⟩

/-- A field is the only one however it is folded. -/
theorem Refolded.body {lines lines' : List Text} (h : Refolded lines lines') :
    (∃ ls, midFields lines' = [ls] ∧ BodyReads ls.flatten m) ↔ ∃ ls, midFields lines = [ls] ∧ BodyReads ls.flatten m := by
  have hone : ∀ {fields fields' : List (List Text)}, fields'.map List.flatten = fields.map List.flatten →
      (∃ ls, fields' = [ls] ∧ BodyReads ls.flatten m) → ∃ ls, fields = [ls] ∧ BodyReads ls.flatten m := by
    rintro fields fields' heq ⟨ls', rfl, hbody⟩
    obtain ⟨ls, rfl, hls⟩ := List.map_eq_singleton_iff.mp heq.symm
    exact ⟨ls, rfl, hls ▸ hbody⟩
  exact ⟨hone h, hone h.symm⟩

/-- **When a message id is extracted as it stands in the unfolded field**, and is the same in both foldings. -/
theorem messageId_iff (conf : RecvConf) {lines lines' : List Text} (h : Refolded lines lines') :
    MidExtracted conf lines lines' ↔ PlainlyFolded lines ∧ PlainlyFolded lines' := by
  constructor
  · intro hmid
    refine ⟨(rMid_plain_iff conf lines).mp hmid.rMid, (rMid_plain_iff conf lines').mp fun m => ?_⟩
    rw [hmid.refolded, hmid.rMid m]
    exact h.body.symm
  · rintro ⟨hplain, hplain'⟩
    have hlines := (rMid_plain_iff conf lines).mpr hplain
    refine ⟨hlines, Option.ext fun m => ?_⟩
    rw [(rMid_plain_iff conf lines').mpr hplain' m, hlines m]
    exact h.body

/-- The configuration says nothing about message ids. -/
def headConf : RecvConf where
  hostname := []
  dnsConfig := true
  secondaryMx := none
  red := ⟨true, none, none⟩

theorem messageId_iff_folded :
    Refolded ["Message-ID: (a b) <i@x>".toList] ["Message-ID:".toList, " (a b)".toList, " <i@x>".toList] ∧
      (MidExtracted headConf ["Message-ID: (a b) <i@x>".toList] ["Message-ID:".toList, " (a b)".toList, " <i@x>".toList] ↔
        PlainlyFolded ["Message-ID: (a b) <i@x>".toList] ∧
          PlainlyFolded ["Message-ID:".toList, " (a b)".toList, " <i@x>".toList]) :=
  ⟨by decide +kernel, messageId_iff headConf (by decide +kernel)⟩

/-- **A comment that is folded hides the message id.** -/
theorem not_mid_extracted : ¬ ∀ (conf : RecvConf) (lines lines' : List Text), Refolded lines lines' →
    MidExtracted conf lines lines' := by
  intro h
  have hmid := (h headConf ["Message-ID: (a".toList, " b) <i@x>".toList] ["Message-ID: (a".toList, " b) <i@x>".toList] rfl).rMid
  have hid : MessageId "i@x".toList :=
    ⟨['i'], ['x'], rfl, localPart_iff.mpr ⟨rfl, by decide +kernel⟩, addressDomain_iff.mpr ⟨rfl, by decide +kernel⟩⟩
  have hbody : BodyReads " (a b) <i@x>".toList "i@x".toList :=
    ⟨" (a b) ".toList, [], by decide +kernel, by decide +kernel, by decide +kernel, hid⟩
  have hnone : (HeadState.lines headConf ["Message-ID: (a".toList, " b) <i@x>".toList]).rh.rMid = none := by decide +kernel
  rw [(hmid "i@x".toList).mpr ⟨[" (a".toList, " b) <i@x>".toList], by decide +kernel, hbody⟩] at hnone
  cases hnone

end Simta
