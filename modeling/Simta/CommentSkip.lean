import Simta.HeaderParse

/-!
# Two ways over a comment

`skip_cfws` counts the comments that it is in and knows quoted pairs, `skip_cws` leaves a comment at the first closing
parenthesis.

* `balancedFrom`, `insideAfter` — the parentheses of a line, and of what is in front of a place in it;
* `firstOutside` — the first character that is neither white space nor in a comment;
* `flatFrom` — comments without a closing parenthesis in them;
* `skippers_agree_iff` — when both functions come to that character.
-/

set_option autoImplicit false

namespace Simta

variable {s rest line : Text} {d off : Nat}

/-! ## Parentheses -/

/-- The parentheses of a text are balanced, `depth` of them being open in front of it.  A backslash quotes the
    character behind it. -/
def balancedFrom (depth : Nat) : Text → Bool
  | [] => depth = 0
  | c :: rest =>
    if c = '(' then balancedFrom (depth + 1) rest
    else if c = ')' then depth ≠ 0 && balancedFrom (depth - 1) rest
    else if c = '\\' then
      match rest with
      | [] => depth = 0
      | _ :: rest => balancedFrom depth rest
    else balancedFrom depth rest

/-- How many parentheses are open behind a text. -/
def insideAfter (depth : Nat) : Text → Nat
  | [] => depth
  | c :: rest =>
    if c = '(' then insideAfter (depth + 1) rest
    else if c = ')' then insideAfter (depth - 1) rest
    else if c = '\\' then
      match rest with
      | [] => depth
      | _ :: rest => insideAfter depth rest
    else insideAfter depth rest

/-- The text from the first character on that is neither white space nor in a comment, from inside of `depth`
    comments. -/
def firstOutside (depth : Nat) : Text → Option Text
  | [] => none
  | c :: rest =>
    if c = ' ' ∨ c = '\t' then firstOutside depth rest
    else if c = '(' then firstOutside (depth + 1) rest
    else if depth = 0 then some (c :: rest)
    else if c = ')' then firstOutside (depth - 1) rest
    else if c = '\\' then
      match rest with
      | [] => none
      | _ :: rest => firstOutside depth rest
    else firstOutside depth rest

/-- The comments in front have no closing parenthesis in them, neither a quoted one nor that of another comment, and
    what is behind them does not begin with a backslash or a closing parenthesis. -/
def flatFrom (comment : Bool) : Text → Bool
  | [] => !comment
  | c :: rest =>
    if c = ' ' ∨ c = '\t' then flatFrom comment rest
    else if c = '(' then !comment && flatFrom true rest
    else if comment then
      if c = ')' then flatFrom false rest
      else if c = '\\' then
        match rest with
        | [] => false
        | d :: rest => d ≠ ')' && flatFrom true rest
      else flatFrom true rest
    else c ≠ '\\' && c ≠ ')'

/-! ## The functions -/

theorem balancedFrom_cons (d : Nat) (c : Char) (s : Text) : balancedFrom d (c :: s) =
    if c = '(' then balancedFrom (d + 1) s
    else if c = ')' then d ≠ 0 && balancedFrom (d - 1) s
    else if c = '\\' then
      match s with
      | [] => d = 0
      | _ :: s => balancedFrom d s
    else balancedFrom d s :=
  balancedFrom.eq_def _ _

theorem firstOutside_cons (d : Nat) (c : Char) (s : Text) : firstOutside d (c :: s) =
    if c = ' ' ∨ c = '\t' then firstOutside d s
    else if c = '(' then firstOutside (d + 1) s
    else if d = 0 then some (c :: s)
    else if c = ')' then firstOutside (d - 1) s
    else if c = '\\' then
      match s with
      | [] => none
      | _ :: s => firstOutside d s
    else firstOutside d s :=
  firstOutside.eq_def _ _

theorem flatFrom_cons (comment : Bool) (c : Char) (s : Text) : flatFrom comment (c :: s) =
    if c = ' ' ∨ c = '\t' then flatFrom comment s
    else if c = '(' then !comment && flatFrom true s
    else if comment then
      if c = ')' then flatFrom false s
      else if c = '\\' then
        match s with
        | [] => false
        | d :: s => d ≠ ')' && flatFrom true s
      else flatFrom true s
    else c ≠ '\\' && c ≠ ')' :=
  flatFrom.eq_def _ _

theorem cfwsText_cons (c : Char) (s : Text) (off d : Nat) : cfwsText (c :: s) off d =
    if c = ' ' ∨ c = '\t' then cfwsText s (off + 1) d
    else if c = '(' then cfwsText s (off + 1) (d + 1)
    else if c = ')' then
      if d = 0 then .unbalanced else cfwsText s (off + 1) (d - 1)
    else if c = '\\' then
      match s with
      | [] => .unbalanced
      | _ :: s => cfwsText s (off + 2) d
    else if d = 0 then .word off
    else cfwsText s (off + 1) d :=
  cfwsText.eq_def _ _ _


/-- How `skip_cfws` should leave a line. -/
def outsideEnd (s : Text) (off : Nat) (depth : Nat) : CfwsEnd :=
  match firstOutside depth s with
  | none => .atEnd 0
  | some rest => .word (off + (s.length - rest.length))

theorem firstOutside_length (d : Nat) (s : Text) : ∀ {rest : Text}, firstOutside d s = some rest →
    rest.length ≤ s.length := by
  fun_induction firstOutside d s with
  | case1 => exact fun h => by cases h
  | case2 d c s hws ih => exact fun h => Nat.le_succ_of_le (ih h)
  | case3 d s _ ih => exact fun h => Nat.le_succ_of_le (ih h)
  | case4 c s _ _ =>
    intro rest h
    rw [← Option.some.inj h]
  | case5 d s _ _ _ ih => exact fun h => Nat.le_succ_of_le (ih h)
  | case6 => exact fun h => by cases h
  | case7 d _ s _ _ _ _ ih => exact fun h => Nat.le_succ_of_le (Nat.le_succ_of_le (ih h))
  | case8 d c s _ _ _ _ _ ih => exact fun h => Nat.le_succ_of_le (ih h)

/-- Characters that are passed over. -/
theorem outsideEnd_append {d' : Nat} (p : Text) (h : firstOutside d (p ++ rest) = firstOutside d' rest) :
    outsideEnd (p ++ rest) off d = outsideEnd rest (off + p.length) d' := by
  unfold outsideEnd
  rw [h]
  cases hfirst : firstOutside d' rest with
  | none => rfl
  | some r =>
    have hle := firstOutside_length d' rest hfirst
    dsimp only
    rw [List.length_append]
    congr 1
    omega

/-- What is found behind a text is not the text. -/
theorem firstOutside_ne {c : Char} (d : Nat) (s : Text) (p : Text) : some (c :: (p ++ s)) ≠ firstOutside d s := by
  intro h
  have hle := firstOutside_length d s h.symm
  simp only [List.length_cons, List.length_append] at hle
  omega

theorem firstOutside_blank {c : Char} (hws : c = ' ' ∨ c = '\t') (d : Nat) (s : Text) :
    firstOutside d (c :: s) = firstOutside d s := by
  rw [firstOutside_cons]
  simp [hws]

theorem firstOutside_open (d : Nat) (s : Text) : firstOutside d ('(' :: s) = firstOutside (d + 1) s := by
  rw [firstOutside_cons]
  simp

theorem firstOutside_close (d : Nat) (s : Text) : firstOutside (d + 1) (')' :: s) = firstOutside d s := by
  rw [firstOutside_cons]
  simp

theorem firstOutside_pair (d : Nat) (c : Char) (s : Text) :
    firstOutside (d + 1) ('\\' :: c :: s) = firstOutside (d + 1) s := by
  rw [firstOutside_cons]
  simp

theorem firstOutside_other {c : Char} (hopen : c ≠ '(') (hclose : c ≠ ')') (hslash : c ≠ '\\') (d : Nat) (s : Text) :
    firstOutside (d + 1) (c :: s) = firstOutside (d + 1) s := by
  rw [firstOutside_cons]
  simp [hopen, hclose, hslash]

/-- In a comment every character is passed over; a closing parenthesis ends it. -/
theorem skipCwsFrom_comment (c : Char) (s : Text) : skipCwsFrom true (c :: s) = skipCwsFrom (c ≠ ')') s := by
  rw [skipCwsFrom]
  by_cases hws : c = ' ' ∨ c = '\t'
  · rw [if_pos hws]
    rcases hws with rfl | rfl <;> rfl
  · rw [if_neg hws]
    by_cases hopen : c = '('
    · subst hopen
      rfl
    · rw [if_neg hopen, if_pos rfl]

/-- **Inside of a comment `skip_cws` does not get out**: it has left the comment, or is in one where two are open. -/
theorem skipCwsFrom_inside (s : Text) : ∀ {d : Nat} {b : Bool}, balancedFrom d s = true →
    (b = false ∧ 1 ≤ d) ∨ (b = true ∧ 2 ≤ d) → skipCwsFrom b s ≠ firstOutside d s := by
  intro d b hbalanced h
  fun_induction balancedFrom d s generalizing b with
  | case1 d =>
    have hd := of_decide_eq_true hbalanced
    omega
  | case2 d s ih =>
    have hopen : skipCwsFrom b ('(' :: s) = skipCwsFrom true s := by cases b <;> rfl
    rw [hopen, firstOutside_open]
    exact ih hbalanced (.inr ⟨rfl, by omega⟩)
  | case3 d s _ ih =>
    obtain ⟨-, hbalanced⟩ := Bool.and_eq_true_iff.mp hbalanced
    obtain ⟨d, rfl⟩ : ∃ e, d = e + 1 := ⟨d - 1, by omega⟩
    rw [firstOutside_close]
    rcases h with ⟨rfl, hd⟩ | ⟨rfl, hd⟩
    · exact firstOutside_ne d s []
    · exact ih hbalanced (.inl ⟨rfl, by omega⟩)
  | case4 d _ _ =>
    have hd := of_decide_eq_true hbalanced
    omega
  | case5 d c s _ _ ih =>
    obtain ⟨d, rfl⟩ : ∃ e, d = e + 1 := ⟨d - 1, by omega⟩
    rw [firstOutside_pair]
    rcases h with ⟨rfl, hd⟩ | ⟨rfl, hd⟩
    · exact firstOutside_ne (d + 1) s [c]
    · rw [skipCwsFrom_comment, show decide ('\\' ≠ ')') = true from rfl, skipCwsFrom_comment]
      apply ih hbalanced
      cases decide (c ≠ ')') with
      | false => exact .inl ⟨rfl, by omega⟩
      | true => exact .inr ⟨rfl, hd⟩
  | case6 d c s hopen hclose hslash ih =>
    obtain ⟨d, rfl⟩ : ∃ e, d = e + 1 := ⟨d - 1, by omega⟩
    rw [firstOutside_other hopen hclose hslash]
    rcases h with ⟨rfl, hd⟩ | ⟨rfl, hd⟩
    · by_cases hws : c = ' ' ∨ c = '\t'
      · have hskip : skipCwsFrom false (c :: s) = skipCwsFrom false s := by
          rw [skipCwsFrom, if_pos hws]
        rw [hskip]
        exact ih hbalanced (.inl ⟨rfl, hd⟩)
      · have hskip : skipCwsFrom false (c :: s) = some (c :: s) := by
          rw [skipCwsFrom, if_neg hws, if_neg hopen, if_neg Bool.false_ne_true]
        rw [hskip]
        exact firstOutside_ne (d + 1) s []
    · rw [skipCwsFrom_comment, decide_eq_true hclose]
      exact ih hbalanced (.inr ⟨rfl, hd⟩)

/-- The word that `skip_cfws` comes to is not in front of it. -/
theorem cfwsText_le (s : Text) (off d : Nat) : ∀ {off' : Nat}, cfwsText s off d = .word off' → off ≤ off' := by
  intro off' h
  fun_induction cfwsText s off d with
  | case1 => cases h
  | case2 s off d c _ ih =>
    have hle := ih h
    omega
  | case3 s off d _ ih =>
    have hle := ih h
    omega
  | case4 => cases h
  | case5 s off d _ _ _ ih =>
    have hle := ih h
    omega
  | case6 => cases h
  | case7 off d _ c s _ _ ih =>
    have hle := ih h
    omega
  | case8 => exact Nat.le_of_eq (CfwsEnd.word.inj h)
  | case9 s off d c _ _ _ _ _ ih =>
    have hle := ih h
    omega

theorem balancedFrom_open (d : Nat) (s : Text) : balancedFrom d ('(' :: s) = balancedFrom (d + 1) s := by
  rw [balancedFrom_cons]
  simp

theorem balancedFrom_close (d : Nat) (s : Text) : balancedFrom (d + 1) (')' :: s) = balancedFrom d s := by
  rw [balancedFrom_cons]
  simp

theorem balancedFrom_pair (d : Nat) (c : Char) (s : Text) : balancedFrom d ('\\' :: c :: s) = balancedFrom d s := by
  rw [balancedFrom_cons]
  simp

theorem cfwsText_open (d : Nat) (s : Text) : cfwsText ('(' :: s) off d = cfwsText s (off + 1) (d + 1) := by
  rw [cfwsText_cons]
  simp

theorem cfwsText_close (d : Nat) (s : Text) : cfwsText (')' :: s) off (d + 1) = cfwsText s (off + 1) d := by
  rw [cfwsText_cons]
  simp

theorem cfwsText_pair (d : Nat) (c : Char) (s : Text) : cfwsText ('\\' :: c :: s) off d = cfwsText s (off + 2) d := by
  rw [cfwsText_cons]
  simp

theorem outsideEnd_cons {d' : Nat} {c : Char} (h : firstOutside d (c :: rest) = firstOutside d' rest) :
    outsideEnd (c :: rest) off d = outsideEnd rest (off + 1) d' := outsideEnd_append [c] h

/-- What `skip_cfws` passes over with a backslash is where it should stop. -/
theorem cfwsText_backslash (s : Text) (off : Nat) : cfwsText ('\\' :: s) off 0 ≠ outsideEnd ('\\' :: s) off 0 := by
  have hend : outsideEnd ('\\' :: s) off 0 = .word off := by
    unfold outsideEnd
    rw [firstOutside_cons]
    simp
  rw [hend]
  intro hword
  cases s with
  | nil => cases hword
  | cons c s =>
    rw [cfwsText_pair] at hword
    have hle := cfwsText_le s (off + 2) 0 hword
    omega

/-- **When both come to the same character**, from inside of a comment or outside of it. -/
theorem flatFrom_iff (comment : Bool) (s : Text) (off : Nat) (hbalanced : balancedFrom comment.toNat s = true) :
    flatFrom comment s = true ↔
      skipCwsFrom comment s = firstOutside comment.toNat s ∧ cfwsText s off comment.toNat = outsideEnd s off comment.toNat := by
  fun_induction flatFrom comment s generalizing off with
  | case1 comment =>
    have hdepth := of_decide_eq_true hbalanced
    cases comment with
    | false => exact ⟨fun _ => ⟨rfl, rfl⟩, fun _ => rfl⟩
    | true => cases hdepth
  | case2 comment c s hws ih =>
    have hstep : balancedFrom comment.toNat (c :: s) = balancedFrom comment.toNat s := by
      rw [balancedFrom_cons]
      rcases hws with rfl | rfl <;> rfl
    have hskip : skipCwsFrom comment (c :: s) = skipCwsFrom comment s := by rw [skipCwsFrom, if_pos hws]
    have hcfws : cfwsText (c :: s) off comment.toNat = cfwsText s (off + 1) comment.toNat := by
      rw [cfwsText_cons]
      simp [hws]
    have hfirst := firstOutside_blank hws comment.toNat s
    rw [hskip, hcfws, outsideEnd_cons hfirst, hfirst]
    exact ih (off + 1) (hstep ▸ hbalanced)
  | case3 comment s _ ih =>
    rw [balancedFrom_open] at hbalanced
    cases comment with
    | false =>
      rw [show false.toNat = 0 from rfl, outsideEnd_cons (firstOutside_open 0 s), firstOutside_open, cfwsText_open]
      exact ih (off + 1) hbalanced
    | true =>
      constructor
      · exact fun h => by cases h
      · rintro ⟨hskip, -⟩
        rw [firstOutside_open] at hskip
        exact absurd hskip (skipCwsFrom_inside s hbalanced (.inr ⟨rfl, Nat.le_refl 2⟩))
  | case4 s _ _ ih =>
    rw [show true.toNat = 0 + 1 from rfl, balancedFrom_close] at hbalanced
    rw [show true.toNat = 0 + 1 from rfl, outsideEnd_cons (firstOutside_close 0 s), firstOutside_close, cfwsText_close]
    exact ih (off + 1) hbalanced
  | case5 =>
    rw [balancedFrom_cons] at hbalanced
    cases hbalanced
  | case6 e s _ _ _ ih =>
    rw [balancedFrom_pair] at hbalanced
    rw [show true.toNat = 0 + 1 from rfl, show '\\' :: e :: s = ['\\', e] ++ s from rfl,
      outsideEnd_append ['\\', e] (firstOutside_pair 0 e s)]
    show _ ↔ skipCwsFrom true ('\\' :: e :: s) = firstOutside (0 + 1) ('\\' :: e :: s) ∧
      cfwsText ('\\' :: e :: s) off 1 = _
    rw [cfwsText_pair, firstOutside_pair, skipCwsFrom_comment, show decide ('\\' ≠ ')') = true from rfl, skipCwsFrom_comment]
    by_cases he : e = ')'
    · constructor
      · intro h
        rw [he] at h
        cases h
      · rintro ⟨hskip, -⟩
        rw [decide_eq_false (fun h => h he)] at hskip
        exact absurd hskip (skipCwsFrom_inside s hbalanced (.inl ⟨rfl, Nat.le_refl 1⟩))
    · rw [decide_eq_true he, Bool.true_and]
      exact ih (off + 2) hbalanced
  | case7 c s hws hopen hclose hslash ih =>
    have hstep : balancedFrom true.toNat (c :: s) = balancedFrom true.toNat s := by
      rw [balancedFrom_cons]
      simp [hopen, hclose, hslash]
    have hcfws : cfwsText (c :: s) off true.toNat = cfwsText s (off + 1) true.toNat := by
      rw [cfwsText_cons]
      simp [hws, hopen, hclose, hslash]
    have hfirst : firstOutside true.toNat (c :: s) = firstOutside true.toNat s :=
      firstOutside_other hopen hclose hslash 0 s
    rw [skipCwsFrom_comment, decide_eq_true hclose, hcfws, outsideEnd_cons hfirst, hfirst]
    exact ih (off + 1) (hstep ▸ hbalanced)
  | case8 comment c s hws hopen hcomment =>
    have hfalse : comment = false := Bool.eq_false_iff.mpr hcomment
    subst hfalse
    have hskip : skipCwsFrom false (c :: s) = some (c :: s) := by
      rw [skipCwsFrom, if_neg hws, if_neg hopen, if_neg Bool.false_ne_true]
    have hfirst : firstOutside false.toNat (c :: s) = some (c :: s) := by
      rw [firstOutside_cons]
      simp [hws, hopen]
    have hend : outsideEnd (c :: s) off false.toNat = .word off := by
      unfold outsideEnd
      rw [hfirst]
      simp
    have hclose : c ≠ ')' := by
      rintro rfl
      rw [balancedFrom_cons] at hbalanced
      cases hbalanced
    rw [hskip, hfirst, hend]
    by_cases hslash : c = '\\'
    · subst hslash
      constructor
      · exact fun h => by cases h
      · rintro ⟨-, hword⟩
        rw [← hend] at hword
        exact absurd hword (cfwsText_backslash s off)
    · have hcfws : cfwsText (c :: s) off false.toNat = .word off := by
        rw [cfwsText_cons]
        simp [hws, hopen, hclose, hslash]
      rw [hcfws]
      simp [hslash, hclose]

/-! ## A line -/

/-- Behind a part of a balanced text the rest is balanced, or what follows its first character, which a backslash
    quotes. -/
theorem balancedFrom_append (p : Text) : ∀ {d : Nat}, balancedFrom d (p ++ s) = true →
    balancedFrom (insideAfter d p) s = true ∨ ∃ c t, s = c :: t ∧ balancedFrom (insideAfter d p) t = true := by
  intro d h
  fun_induction insideAfter d p with
  | case1 => exact .inl h
  | case2 d p ih =>
    rw [List.cons_append, balancedFrom_open] at h
    exact ih h
  | case3 d p _ ih =>
    rw [List.cons_append, balancedFrom_cons] at h
    obtain ⟨-, h⟩ := Bool.and_eq_true_iff.mp h
    exact ih h
  | case4 d _ _ =>
    cases s with
    | nil =>
      rw [List.append_nil, balancedFrom_cons] at h
      exact .inl h
    | cons c t => exact .inr ⟨c, t, rfl, (balancedFrom_pair d c t) ▸ h⟩
  | case5 d c p _ _ ih =>
    rw [List.cons_append, List.cons_append, balancedFrom_pair] at h
    exact ih h
  | case6 d c p hopen hclose hslash ih =>
    rw [List.cons_append, balancedFrom_cons] at h
    simp only [hopen, hclose, hslash, if_false] at h
    exact ih h

/-- Where one parenthesis more is open than there should be, `skip_cfws` finds no word and no end. -/
theorem cfwsText_open_ne (s : Text) : ∀ {d : Nat}, balancedFrom d s = true → ∀ off, cfwsText s off (d + 1) ≠ .atEnd 0 ∧
    ∀ off', cfwsText s off (d + 1) ≠ .word off' := by
  intro d h
  fun_induction balancedFrom d s with
  | case1 d => exact fun off => ⟨(fun h => by cases h), fun _ h => by cases h⟩
  | case2 d s ih =>
    intro off
    rw [cfwsText_open]
    exact ih h (off + 1)
  | case3 d s _ ih =>
    obtain ⟨hd, h⟩ := Bool.and_eq_true_iff.mp h
    obtain ⟨d, rfl⟩ : ∃ e, d = e + 1 := ⟨d - 1, by have := of_decide_eq_true hd; omega⟩
    intro off
    rw [cfwsText_close]
    exact ih h (off + 1)
  | case4 d _ _ =>
    intro off
    rw [cfwsText_cons]
    exact ⟨(fun h => by cases h), fun _ h => by cases h⟩
  | case5 d c s _ _ ih =>
    intro off
    rw [cfwsText_pair]
    exact ih h (off + 2)
  | case6 d c s hopen hclose hslash ih =>
    intro off
    have hstep : cfwsText (c :: s) off (d + 1) = cfwsText s (off + 1) (d + 1) := by
      rw [cfwsText_cons]
      simp [hopen, hclose, hslash]
    rw [hstep]
    exact ih h (off + 1)

/-- A flat comment is one parenthesis too many. -/
theorem flatFrom_comment (s : Text) (hflat : flatFrom true s = true) : balancedFrom 0 s = false := by
  generalize hc : true = comment at hflat
  fun_induction flatFrom comment s with
  | case1 =>
    subst hc
    cases hflat
  | case2 comment c s hws ih =>
    have hstep : balancedFrom 0 (c :: s) = balancedFrom 0 s := by
      rw [balancedFrom_cons]
      rcases hws with rfl | rfl <;> rfl
    rw [hstep]
    exact ih hc hflat
  | case3 comment s _ _ =>
    subst hc
    cases hflat
  | case4 s _ _ _ =>
    rw [balancedFrom_cons]
    rfl
  | case5 => cases hflat
  | case6 e s _ _ _ ih =>
    rw [balancedFrom_pair]
    exact ih rfl (Bool.and_eq_true_iff.mp hflat).2
  | case7 c s hws hopen hclose hslash ih =>
    have hstep : balancedFrom 0 (c :: s) = balancedFrom 0 s := by
      rw [balancedFrom_cons]
      simp [hopen, hclose, hslash]
    rw [hstep]
    exact ih rfl hflat
  | case8 comment c s _ _ hcomment => exact absurd hc.symm hcomment

/-- Both functions come from the place `off` of a line to the first character that is neither white space nor in a
    comment, or to the end of the line. -/
def SkippersAgree (line : Text) (off : Nat) : Prop :=
  skipCws (line.drop off) = firstOutside 0 (line.drop off) ∧
    skipCfws [line] 0 ⟨0, off⟩ =
      .ok (0, (firstOutside 0 (line.drop off)).map fun rest => ⟨0, line.length - rest.length⟩)

/-- What `skip_cfws` returns at the end of the only line. -/
@[simp] def CfwsEnd.ret : CfwsEnd → Except ParseStop (Nat × Option CharPtr)
  | .unbalanced => .error .reject
  | .word off => .ok (0, some ⟨0, off⟩)
  | .atEnd comment => if comment = 0 then .ok (0, none) else .error .reject

/-- One line of `skip_cfws`. -/
theorem skipCfws_line (line : Text) (off : Nat) : skipCfws [line] 0 ⟨0, off⟩ =
      .ok (0, (firstOutside 0 (line.drop off)).map fun rest => ⟨0, line.length - rest.length⟩) ↔
    cfwsText (line.drop off) off 0 = outsideEnd (line.drop off) off 0 := by
  have hrun : skipCfws [line] 0 ⟨0, off⟩ = (cfwsText (line.drop off) off 0).ret := by
    show cfwsLines [line] 0 0 ⟨0, off⟩ 0 = _
    rw [cfwsLines.eq_def]
    rfl
  rw [hrun]
  unfold outsideEnd
  cases hfirst : firstOutside 0 (line.drop off) with
  | none =>
    cases cfwsText (line.drop off) off 0 with
    | atEnd comment =>
      by_cases hc : comment = 0 <;> simp [hc]
    | word w => simp
    | unbalanced => simp
  | some rest =>
    have hle := firstOutside_length 0 _ hfirst
    have hne : line.drop off ≠ [] := by
      intro hnil
      rw [hnil] at hfirst
      cases hfirst
    have hoff : off < line.length := by
      by_contra hge
      exact hne (List.drop_eq_nil_of_le (Nat.le_of_not_lt hge))
    have hplace : off + ((line.drop off).length - rest.length) = line.length - rest.length := by
      rw [List.length_drop] at hle ⊢
      omega
    dsimp only [Option.map_some]
    rw [hplace]
    cases cfwsText (line.drop off) off 0 with
    | atEnd comment =>
      by_cases hc : comment = 0 <;> simp [hc]
    | word w => simp
    | unbalanced => simp

theorem flatFrom_open (s : Text) : flatFrom false ('(' :: s) = flatFrom true s := by
  rw [flatFrom_cons]
  simp

/-- A text that begins with a backslash, or with a parenthesis that is quoted. -/
theorem quoted_apart {c : Char} (hc : c = '(' ∨ c = ')' ∨ c = '\\') (h : balancedFrom 0 s = true) :
    flatFrom false (c :: s) = false ∧ cfwsText (c :: s) off 0 ≠ outsideEnd (c :: s) off 0 := by
  rcases hc with rfl | rfl | rfl
  · constructor
    · rw [flatFrom_open]
      apply Bool.eq_false_iff.mpr
      intro hflat
      have hnot := flatFrom_comment s hflat
      rw [h] at hnot
      cases hnot
    · rw [cfwsText_open]
      obtain ⟨hend, hword⟩ := cfwsText_open_ne s h (off + 1)
      unfold outsideEnd
      split
      · exact hend
      · exact hword _
  · constructor
    · rw [flatFrom_cons]
      simp
    · have hcfws : cfwsText (')' :: s) off 0 = .unbalanced := by
        rw [cfwsText_cons]
        simp
      rw [hcfws]
      unfold outsideEnd
      split
      · exact fun h => by cases h
      · exact fun h => by cases h
  · constructor
    · rw [flatFrom_cons]
      simp
    · exact cfwsText_backslash s off

/-- **When both ways over white space and comments agree**, from a place of a balanced line that is in no comment: the
    comments there have no closing parenthesis in them, quoted or of a comment in the comment, and no backslash or
    parenthesis follows them. -/
theorem skippers_agree_iff (hbalanced : balancedFrom 0 line = true) (houtside : insideAfter 0 (line.take off) = 0) :
    SkippersAgree line off ↔ flatFrom false (line.drop off) = true := by
  have hrest : balancedFrom 0 (line.drop off) = true ∨
      ∃ c t, line.drop off = c :: t ∧ balancedFrom 0 t = true := by
    rw [← List.take_append_drop off line] at hbalanced
    have h := balancedFrom_append _ hbalanced
    rwa [houtside] at h
  unfold SkippersAgree
  rw [skipCfws_line]
  rcases hrest with hrest | ⟨c, t, hdrop, ht⟩
  · exact (flatFrom_iff false (line.drop off) off hrest).symm
  · rw [hdrop]
    by_cases hc : c = '(' ∨ c = ')' ∨ c = '\\'
    · obtain ⟨hflat, hcfws⟩ := quoted_apart hc ht
      rw [hflat]
      exact ⟨fun h => absurd h.2 hcfws, (fun h => by cases h)⟩
    · -- any other character might stand there without a backslash
      rw [not_or, not_or] at hc
      obtain ⟨hopen, hclose, hslash⟩ := hc
      have hstep : balancedFrom 0 (c :: t) = balancedFrom 0 t := by
        rw [balancedFrom_cons]
        simp [hopen, hclose, hslash]
      exact (flatFrom_iff false (c :: t) off (hstep.trans ht)).symm

theorem skippers_agree_comment :
    SkippersAgree "a (b) c".toList 1 ↔ flatFrom false ("a (b) c".toList.drop 1) = true :=
  skippers_agree_iff (by decide +kernel) (by decide +kernel)

/-- A comment in a comment is left at the first closing parenthesis. -/
theorem not_skippers_agree : balancedFrom 0 "(a(b)c) d".toList = true ∧ ¬ SkippersAgree "(a(b)c) d".toList 0 := by
  refine ⟨by decide +kernel, fun h => ?_⟩
  have hskip := h.1
  revert hskip
  decide +kernel

end Simta
