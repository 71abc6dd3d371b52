import Mathlib.Logic.Relation
import Simta.AddressGrammar
import Simta.CommentSkip
import Simta.HeaderFields
import Simta.Smtp

/-!
# The seen-before headers

What `header_text` collects of the seen-before fields of a message, whose first word says whether this site has handled it.

* `fieldWords`, `seenFields` — the words `seen_text` finds in the lines of a field, and the fields with that name;
* `seenBefore_lines` — the lines of a message leave the texts collected of its fields, and the number of the last hit;
* `firstToken`, `plainField` — the first token of a field, and the fields in which `skip_cws` comes to it;
* `Relay`, `Marked.relays` — what relays may make of the headers, and that the mark stays;
* `SeenPtrs.Refines` — the pointers are to live texts, and `r_seen_before` is one of them;
* `seenBefore_right` — when a message is recognized.
-/

set_option autoImplicit false

namespace Simta

variable {domain : Text}

/-! ## Words -/

/-- The words of a line, and whether none of them is bad. -/
def lineWords : Nat → Text → List Text × Bool
  | 0, _ => ([], true)
  | fuel + 1, line =>
    match skipCws line with
    | none => ([], true)
    | some start =>
      match tokenSeen start with
      | none => ([], false)
      | some (word, rest) => (word :: (lineWords fuel rest).1, (lineWords fuel rest).2)

/-- The words of a field, up to a bad one. -/
def fieldWords : List Text → List Text
  | [] => []
  | line :: rest =>
    (lineWords (line.length + 1) line).1 ++ if (lineWords (line.length + 1) line).2 then fieldWords rest else []

/-- The text collected from words. -/
def collected (words : List Text) : Text := words.foldl (fun t w => if t = [] then w else t ++ ' ' :: w) []

/-- The lines of the seen-before fields among these. -/
def seenOnly (fields : List (Text × List Text)) : List (List Text) :=
  (fields.filter fun f => strcaseEq f.1 stringSeenBefore).map Prod.snd

/-- The seen-before fields of a message. -/
def seenFields (lines : List Text) : List (List Text) := seenOnly (headFields lines)

/-- The number of the last field whose first word is the domain. -/
def lastHit (domain : Text) (fields : List (List Text)) : Option Nat :=
  fields.zipIdx.foldl (fun hit f => if f.1.head? = some domain then some f.2 else hit) none

theorem collected_append (ws : List Text) (w : Text) :
    collected (ws ++ [w]) = if collected ws = [] then w else collected ws ++ ' ' :: w := by
  unfold collected
  rw [List.foldl_append]
  rfl

/-- Words are no empty texts, so there is text as soon as there are words. -/
theorem collected_eq_nil {ws : List Text} (h : ∀ w ∈ ws, w ≠ []) : collected ws = [] ↔ ws = [] := by
  constructor
  · induction ws using List.reverseRecOn with
    | nil => exact fun _ => rfl
    | append_singleton ws w _ =>
      rw [collected_append]
      intro hnil
      exfalso
      split at hnil
      · exact h w (by simp) hnil
      · simp at hnil
  · rintro rfl
    rfl

theorem lastHit_append (fields : List (List Text)) (ws : List Text) :
    lastHit domain (fields ++ [ws]) = if ws.head? = some domain then some fields.length else lastHit domain fields := by
  unfold lastHit
  rw [List.zipIdx_append, List.foldl_append]
  simp

/-- A hit is a field whose first word is the domain. -/
theorem lastHit_some {fields : List (List Text)} {i : Nat} (h : lastHit domain fields = some i) :
    ∃ ws, fields[i]? = some ws ∧ ws.head? = some domain := by
  induction fields using List.reverseRecOn with
  | nil => cases h
  | append_singleton fields ws ih =>
    rw [lastHit_append] at h
    split at h
    · rename_i hhit
      obtain rfl := Option.some.inj h
      exact ⟨ws, by simp, hhit⟩
    · obtain ⟨ws', hget, hhit⟩ := ih h
      refine ⟨ws', ?_, hhit⟩
      rw [List.getElem?_append_left, hget]
      exact (List.getElem?_eq_some_iff.mp hget).1

/-- There is one as soon as there is such a field. -/
theorem lastHit_isSome {fields : List (List Text)} :
    (lastHit domain fields).isSome ↔ ∃ ws ∈ fields, ws.head? = some domain := by
  induction fields using List.reverseRecOn with
  | nil => simp [lastHit]
  | append_singleton fields ws ih =>
    rw [lastHit_append]
    by_cases hhit : ws.head? = some domain
    · rw [if_pos hhit]
      exact iff_of_true rfl ⟨ws, by simp, hhit⟩
    · rw [if_neg hhit, ih]
      simp [hhit]

/-! ## One line -/

theorem tokenSeen_ne_nil {start word rest : Text} (h : tokenSeen start = some (word, rest)) : word ≠ [] := by
  unfold tokenSeen at h
  split at h
  · unfold tokenQuotedString at h
    split at h
    · obtain ⟨t, -, ht⟩ := Option.map_eq_some_iff.mp h
      obtain ⟨rfl, -⟩ := Prod.mk.inj ht
      simp
    · cases h
  · unfold tokenUnquotedAtom at h
    split at h
    · cases h
    · rename_i t hne
      obtain ⟨rfl, -⟩ := Prod.mk.inj (Option.some.inj h)
      intro hnil
      exact hne hnil

theorem lineWords_ne_nil (fuel : Nat) (line : Text) : ∀ w ∈ (lineWords fuel line).1, w ≠ [] := by
  induction fuel generalizing line with
  | zero => simp [lineWords]
  | succ fuel ih =>
    unfold lineWords
    cases skipCws line with
    | none => simp
    | some start =>
      cases htoken : tokenSeen start with
      | none => simp [htoken]
      | some found =>
        obtain ⟨word, rest⟩ := found
        simp only [htoken]
        intro w hw
        obtain rfl | hw := List.mem_cons.mp hw
        · exact tokenSeen_ne_nil htoken
        · exact ih rest w hw

/-- What is collected so far, with the words of each field. -/
structure SeenSo (domain : Text) (fields : List (List Text)) (r : ReceiveHeaders) : Prop where
  all : r.rAllSeenBefore = fields.map collected
  hit : r.rSeenBefore = lastHit domain fields
  words : ∀ ws ∈ fields, ∀ w ∈ ws, w ≠ []

/-- One more word of the last field. -/
theorem appendSeen_word {pre : List (List Text)} {cur : List Text} {r : ReceiveHeaders} {word : Text}
    (h : SeenSo domain (pre ++ [cur]) r) (hword : word ≠ []) :
    ∃ r', appendSeen domain true r word = some r' ∧ SeenSo domain (pre ++ [cur ++ [word]]) r' ∧ r'.rState = r.rState := by
  have hall : r.rAllSeenBefore = pre.map collected ++ [collected cur] := by
    rw [h.all, List.map_append]
    rfl
  have hlength : r.rAllSeenBefore.length - 1 = pre.length := by
    rw [hall, List.length_append, List.length_map]
    rfl
  have hset : ∀ t, r.rAllSeenBefore.set (r.rAllSeenBefore.length - 1) t = pre.map collected ++ [t] := by
    intro t
    rw [hlength, hall, List.set_append_right _ _ (by rw [List.length_map])]
    simp
  have hwords : ∀ ws ∈ pre ++ [cur ++ [word]], ∀ w ∈ ws, w ≠ [] := by
    intro ws hws w hw
    obtain hws | hws := List.mem_append.mp hws
    · exact h.words ws (List.mem_append_left _ hws) w hw
    · obtain rfl := List.mem_singleton.mp hws
      obtain hw | hw := List.mem_append.mp hw
      · exact h.words cur (by simp) w hw
      · rw [List.mem_singleton.mp hw]
        exact hword
  have hmap : (pre ++ [cur ++ [word]]).map collected = pre.map collected ++ [collected (cur ++ [word])] := by simp
  have hcur : collected cur = [] ↔ cur = [] := collected_eq_nil (h.words cur (by simp))
  unfold appendSeen
  rw [hall, List.getLast?_concat, ← hall]
  simp only [if_true, hset]
  by_cases hnil : collected cur = []
  · rw [if_neg (not_not.mpr hnil)]
    refine ⟨_, rfl, ⟨?_, ?_, hwords⟩, rfl⟩
    · rw [hmap, collected_append, if_pos hnil]
    · show (if word = domain then some (r.rAllSeenBefore.length - 1) else r.rSeenBefore) = _
      rw [hcur.mp hnil, List.nil_append, lastHit_append, hlength, h.hit, hcur.mp hnil, lastHit_append]
      simp
  · rw [if_pos hnil]
    refine ⟨_, rfl, ⟨?_, ?_, hwords⟩, rfl⟩
    · rw [hmap, collected_append, if_neg hnil]
    · have hhead : (cur ++ [word]).head? = cur.head? := List.head?_append_of_ne_nil _ (fun h => hnil (hcur.mpr h))
      show r.rSeenBefore = _
      rw [h.hit, lastHit_append, lastHit_append, hhead]

/-- **The words of a line.** -/
theorem seenText_words {pre : List (List Text)} (fuel : Nat) : ∀ {cur : List Text} {r : ReceiveHeaders} (line : Text),
    SeenSo domain (pre ++ [cur]) r → ∃ r', seenText domain fuel (fun _ => true) r line = (0, r') ∧
      SeenSo domain (pre ++ [cur ++ (lineWords fuel line).1]) r' ∧
      r'.rState = if (lineWords fuel line).2 then r.rState else .read := by
  induction fuel with
  | zero =>
    intro cur r line h
    refine ⟨r, rfl, ?_, rfl⟩
    simpa [lineWords] using h
  | succ fuel ih =>
    intro cur r line h
    unfold seenText lineWords
    cases skipCws line with
    | none => exact ⟨r, rfl, by simpa using h, rfl⟩
    | some start =>
      cases htoken : tokenSeen start with
      | none =>
        simp only [htoken]
        exact ⟨_, rfl, by simpa using ⟨h.all, h.hit, h.words⟩, rfl⟩
      | some found =>
        obtain ⟨word, rest⟩ := found
        obtain ⟨r₁, hr₁, h₁, hstate₁⟩ := appendSeen_word h (tokenSeen_ne_nil htoken)
        obtain ⟨r', hr', h', hstate'⟩ := ih rest h₁
        simp only [htoken, hr₁]
        refine ⟨r', hr', ?_, by rw [hstate', hstate₁]⟩
        rw [List.append_assoc] at h'
        exact h'

/-! ## All lines -/

/-- The words of all fields behind the lines: they may go on with the field `cur`, and begin others. -/
def seenAfter (pre : List (List Text)) (cur : Option (List Text)) (lines : List Text) : List (List Text) :=
  pre ++ (cur.map (· ++ fieldWords (lines.takeWhile folds))).toList ++ (seenOnly (fieldsFrom lines)).map fieldWords

/-- What `header_text` keeps to while it is in the headers: the last field is open just in its state. -/
structure SeenHolds (domain : Text) (pre : List (List Text)) (cur : Option (List Text)) (r : ReceiveHeaders) : Prop where
  so : SeenSo domain (pre ++ cur.toList) r
  rState : r.rState ≠ .atEnd
  isOpen : r.rState = .seen ↔ cur.isSome

/-- The outcome for the first of the lines. -/
def SeenFirst (domain : Text) (pre : List (List Text)) (cur : Option (List Text)) (line : Text) (rest : List Text)
    (t : Int × ReceiveHeaders) : Prop :=
  (t.1 = 0 ∧ ∃ pre' cur', SeenHolds domain pre' cur' t.2 ∧ seenAfter pre' cur' rest = seenAfter pre cur (line :: rest)) ∨
    (t.1 = 1 ∧ SeenSo domain (seenAfter pre cur (line :: rest)) t.2)

theorem SeenSo.same {fields : List (List Text)} {r r' : ReceiveHeaders} (h : SeenSo domain fields r)
    (hall : r'.rAllSeenBefore = r.rAllSeenBefore) (hhit : r'.rSeenBefore = r.rSeenBefore) : SeenSo domain fields r' :=
  ⟨hall.trans h.all, hhit.trans h.hit, h.words⟩

theorem seenOnly_cons (name : Text) (ls : List Text) (fields : List (Text × List Text)) : seenOnly ((name, ls) :: fields) =
    if strcaseEq name stringSeenBefore then ls :: seenOnly fields else seenOnly fields := by
  unfold seenOnly
  rw [List.filter_cons]
  split <;> rfl

theorem name_seen_mid {name : Text} (h : strcaseEq name stringMid = true) : ¬ strcaseEq name stringSeenBefore = true := by
  intro hseen
  have := (strcaseEq_length h).symm.trans (strcaseEq_length hseen)
  exact absurd this (by decide)

theorem name_seen_received {name : Text} (h : strcaseEq name stringReceived = true) :
    ¬ strcaseEq name stringSeenBefore = true := by
  intro hseen
  have := (strcaseEq_length h).symm.trans (strcaseEq_length hseen)
  exact absurd this (by decide)

/-- A field begins: `make_more_seen` gives it an entry. -/
theorem SeenSo.more {fields : List (List Text)} {r r' : ReceiveHeaders} (h : SeenSo domain fields r)
    (hall : r'.rAllSeenBefore = r.rAllSeenBefore ++ [[]]) (hhit : r'.rSeenBefore = r.rSeenBefore) :
    SeenSo domain (fields ++ [[]]) r' where
  all := by
    rw [hall, h.all, List.map_append]
    rfl
  hit := by
    rw [hhit, h.hit, lastHit_append]
    rfl
  words := by
    intro ws hws w hw
    obtain hws | hws := List.mem_append.mp hws
    · exact h.words ws hws w hw
    · rw [List.mem_singleton.mp hws] at hw
      cases hw

section

variable {pre pre₀ : List (List Text)} {cur : Option (List Text)} {r r' : ReceiveHeaders} {line : Text} {rest : List Text}

/-- The lines of a message id say nothing of seen-before headers. -/
theorem midText_seen (r : ReceiveHeaders) (line : Text) : ∃ r', midText true r line = (0, r') ∧
    r'.rAllSeenBefore = r.rAllSeenBefore ∧ r'.rSeenBefore = r.rSeenBefore ∧ (r'.rState = r.rState ∨ r'.rState = .read) := by
  unfold midText
  split
  · exact ⟨_, rfl, rfl, rfl, .inl rfl⟩
  · split
    · exact ⟨_, rfl, rfl, rfl, .inr rfl⟩
    · split
      · exact ⟨_, rfl, rfl, rfl, .inr rfl⟩
      · rw [if_pos rfl]
        split
        · exact ⟨_, rfl, rfl, rfl, .inl rfl⟩
        · exact ⟨_, rfl, rfl, rfl, .inr rfl⟩

/-- While no field is open, the fields are those of the lines to come. -/
theorem SeenHolds.closed (h : SeenSo domain pre r) (hstate : r.rState = .mid ∨ r.rState = .read) : SeenHolds domain pre none r where
  so := by simpa using h
  rState := by rcases hstate with hs | hs <;> simp [hs]
  isOpen := by rcases hstate with hs | hs <;> simp [hs]

theorem SeenHolds.opened {ws : List Text} (h : SeenSo domain (pre ++ [ws]) r) (hstate : r.rState = .seen) :
    SeenHolds domain pre (some ws) r where
  so := h
  rState := by simp [hstate]
  isOpen := by simp [hstate]

/-- Behind words of the last field it stays open, unless there was a bad one. -/
theorem seenText_first {ws : List Text} {body : Text} (h : SeenSo domain (pre ++ [ws]) r) (hstate : r.rState = .seen)
    (hfields : seenAfter pre₀ cur (line :: rest) =
      pre ++ [ws ++ fieldWords (body :: rest.takeWhile folds)] ++ (seenOnly (fieldsFrom rest)).map fieldWords) :
    SeenFirst domain pre₀ cur line rest (seenText domain (body.length + 1) (fun _ => true) r body) := by
  obtain ⟨r', hrun, hso, hstate'⟩ := seenText_words (body.length + 1) body h
  rw [hrun]
  apply Or.inl
  refine ⟨rfl, ?_⟩
  rw [hfields]
  unfold fieldWords
  by_cases hgood : (lineWords (body.length + 1) body).2 = true
  · rw [if_pos hgood] at hstate'
    refine ⟨pre, some _, .opened hso (hstate'.trans hstate), ?_⟩
    rw [if_pos hgood, ← List.append_assoc]
    rfl
  · rw [if_neg hgood] at hstate'
    refine ⟨_, none, .closed hso (.inr hstate'), ?_⟩
    rw [if_neg hgood, List.append_nil]
    simp [seenAfter]

/-- A line that is no word of the last field closes it. -/
theorem SeenHolds.first {n : Int} (hn : n = 0) (h : SeenHolds domain pre cur r)
    (hall : r'.rAllSeenBefore = r.rAllSeenBefore) (hhit : r'.rSeenBefore = r.rSeenBefore)
    (hstate : r'.rState = .mid ∨ r'.rState = .read) (hfields : seenAfter pre cur (line :: rest) =
      pre ++ cur.toList ++ (seenOnly (fieldsFrom rest)).map fieldWords) : SeenFirst domain pre cur line rest (n, r') := by
  apply Or.inl
  refine ⟨hn, _, none, .closed (h.so.same hall hhit) hstate, ?_⟩
  rw [hfields]
  simp [seenAfter]

/-- A line that continues a field. -/
theorem headerFold_seen (h : SeenHolds domain pre cur r) (hfold : folds line = true) :
    SeenFirst domain pre cur line rest (match r.rState with
      | .mid => midText true r line
      | .seen => seenText domain (line.length + 1) (fun _ => true) r line
      | _ => (0, r)) := by
  have hfields := fieldsFrom_fold rest hfold
  have hclosed : cur = none → seenAfter pre cur (line :: rest) =
      pre ++ cur.toList ++ (seenOnly (fieldsFrom rest)).map fieldWords := by
    rintro rfl
    unfold seenAfter
    rw [hfields]
    simp
  have hnone : r.rState ≠ .seen → cur = none := by
    intro hne
    rw [Ne, h.isOpen] at hne
    simpa using hne
  cases hstate : r.rState with
  | atEnd => exact absurd hstate h.rState
  | read => exact h.first rfl rfl rfl (.inr hstate) (hclosed (hnone (by simp [hstate])))
  | mid =>
    obtain ⟨r', hrun, hall, hhit, hstate'⟩ := midText_seen r line
    simp only [hrun]
    exact h.first rfl hall hhit (by rwa [hstate] at hstate') (hclosed (hnone (by simp [hstate])))
  | seen =>
    obtain ⟨ws, rfl⟩ := Option.isSome_iff_exists.mp (h.isOpen.mp hstate)
    apply seenText_first h.so hstate
    unfold seenAfter
    rw [hfields, List.takeWhile_cons, if_pos hfold]
    rfl

/-- A line that begins a field. -/
theorem headerField_seen {name body : Text} (h : SeenHolds domain pre cur r) (hfold : folds line = false)
    (hfield : fieldName line = some (name, body)) :
    SeenFirst domain pre cur line rest (headerField domain (fun _ => true) { r with rState := .read } name body) := by
  have hfields : seenAfter pre cur (line :: rest) =
      pre ++ cur.toList ++ (seenOnly ((name, body :: rest.takeWhile folds) :: fieldsFrom rest)).map fieldWords := by
    unfold seenAfter
    rw [fieldsFrom_field rest hfold hfield, takeWhile_field rest hfold]
    cases cur <;> simp [fieldWords]
  rw [seenOnly_cons] at hfields
  unfold headerField
  split
  next hname =>
    rw [if_neg (name_seen_mid hname)] at hfields
    split
    · exact h.first rfl rfl rfl (.inr rfl) hfields
    · obtain ⟨r', hrun, hall, hhit, hstate'⟩ := midText_seen { r with rMidSet := true, rState := .mid } body
      rw [hrun]
      exact h.first rfl hall hhit hstate' hfields
  next hmid =>
    split
    next hname =>
      rw [if_neg (name_seen_received hname)] at hfields
      exact h.first rfl rfl rfl (.inr rfl) hfields
    next hreceived =>
      split
      next hname =>
        rw [if_pos hname] at hfields
        have hmore : SeenSo domain (pre ++ cur.toList ++ [[]]) (makeMoreSeen true { r with rState := .seen }) :=
          h.so.more rfl rfl
        apply seenText_first hmore rfl
        rw [hfields]
        simp
      next hname =>
        rw [if_neg hname] at hfields
        exact h.first rfl rfl rfl (.inr rfl) hfields

/-- **One line of the headers.** -/
theorem headerText_seen {lineNo : Nat} (h : SeenHolds domain pre cur r) (hfold : folds line = true → lineNo ≠ 1) :
    SeenFirst domain pre cur line rest (headerText domain (fun _ => true) lineNo line r) := by
  have hend : fieldsFrom (line :: rest) = [] → folds line = false →
      SeenFirst domain pre cur line rest (1, { r with rState := .atEnd }) := by
    intro hnil hline
    apply Or.inr
    refine ⟨rfl, ?_⟩
    have hfields : seenAfter pre cur (line :: rest) = pre ++ cur.toList := by
      unfold seenAfter
      rw [hnil, takeWhile_field rest hline]
      cases cur <;> simp [fieldWords, seenOnly]
    rw [hfields]
    exact h.so.same rfl rfl
  unfold headerText
  by_cases hempty : line = []
  · subst hempty
    rw [if_pos (.inl rfl)]
    exact hend rfl rfl
  · rw [if_neg (fun hor => hor.elim hempty h.rState)]
    by_cases hws : line.head? = some ' ' ∨ line.head? = some '\t'
    · have hline : folds line = true := by simpa [folds] using hws
      rw [if_pos hws, if_neg (hfold hline)]
      exact headerFold_seen h hline
    · have hline : folds line = false := by simpa [folds, not_or] using hws
      rw [if_neg hws]
      cases hfield : fieldName line with
      | some f => exact headerField_seen h hline hfield
      | none => exact hend (fieldsFrom_other rest hline hfield) hline

end

/-- The lines of a message, when its first one continues no field. -/
theorem HeadState.run_seen (conf : RecvConf) (ls : List Text) : ∀ {h : HeadState} {pre : List (List Text)} {cur : Option (List Text)},
    h.header = true → SeenHolds conf.seenBeforeDomain pre cur h.rh → (h.lineNo = 0 → ls.head?.any folds = false) →
    SeenSo conf.seenBeforeDomain (seenAfter pre cur ls) (ls.foldl (HeadState.next conf) h).rh := by
  induction ls with
  | nil =>
    intro h pre cur _ hin _
    have hfields : seenAfter pre cur [] = pre ++ cur.toList := by
      unfold seenAfter
      cases cur <;> simp [fieldWords, fieldsFrom, seenOnly]
    rw [hfields]
    exact hin.so
  | cons line ls ih =>
    intro h pre cur hheader hin hfirst
    have hlater : folds line = true → h.lineNo + 1 ≠ 1 := by
      intro hfold hone
      have hnot := hfirst (Nat.succ.inj hone)
      simp [hfold] at hnot
    have hread := @headerText_seen _ _ _ _ _ ls _ hin hlater
    have hnext : HeadState.next conf h line = ⟨h.lineNo + 1,
        decide ((headerText conf.seenBeforeDomain (fun _ => true) (h.lineNo + 1) line h.rh).1 ≤ 0),
        (headerText conf.seenBeforeDomain (fun _ => true) (h.lineNo + 1) line h.rh).2⟩ := by
      unfold HeadState.next HeadState.text
      rw [if_pos hheader]
    rw [List.foldl_cons, hnext]
    rcases hread with ⟨hzero, pre', cur', hin', hafter⟩ | ⟨hone, hso⟩
    · rw [← hafter]
      exact ih (by rw [hzero]; rfl) hin' (fun h => by cases h)
    · rw [HeadState.finished ls (by rw [hone]; rfl)]
      exact hso

/-- **What the lines of a message leave** of its seen-before fields. -/
theorem seenBefore_lines (conf : RecvConf) (lines : List Text) :
    SeenSo conf.seenBeforeDomain ((seenFields lines).map fieldWords) (HeadState.lines conf lines).rh := by
  have hso : SeenSo conf.seenBeforeDomain [] ReceiveHeaders.init := ⟨rfl, rfl, by simp⟩
  unfold seenFields headFields
  cases hfirst : lines.head?.any folds with
  | false =>
    have hrun := HeadState.run_seen conf lines (h := HeadState.start) rfl (SeenHolds.closed hso (.inr rfl)) (fun _ => hfirst)
    show SeenSo _ _ (lines.foldl (HeadState.next conf) HeadState.start).rh
    simpa [seenAfter] using hrun
  | true =>
    rw [HeadState.lines_folds hfirst]
    exact hso.same rfl rfl

/-! ## The first token -/

/-- The first token of a field, unfolded: what stands behind white space and comments, as `skip_cfws` reads them. -/
def firstToken (lines : List Text) : Option Text :=
  ((firstOutside 0 lines.flatten).bind tokenSeen).map Prod.fst

/-- Up to its first token a line has comments without a closing parenthesis in them, neither a quoted one nor that of
    another comment, and they end on the line. -/
def plainLine (comment : Bool) : Text → Bool
  | [] => !comment
  | c :: rest =>
    if c = ' ' ∨ c = '\t' then plainLine comment rest
    else if c = '(' then !comment && plainLine true rest
    else if comment then
      if c = ')' then plainLine false rest
      else if c = '\\' then
        match rest with
        | [] => false
        | d :: rest => d ≠ ')' && plainLine true rest
      else plainLine true rest
    else true

/-- So are the lines of a field, up to the one with its first token. -/
def plainField : List Text → Bool
  | [] => true
  | line :: rest => plainLine false line && ((skipCws line).isSome || plainField rest)

/-- One token without quotes. -/
structure UnquotedToken (t : Text) : Prop where
  ne_nil : t ≠ []
  text : ∀ c ∈ t, isUnquotedAtomText c = true

/-- Both ways over the front of a plain line end at the same place, or at the end of the line. -/
theorem plainLine_skip (comment : Bool) (s u : Text) (h : plainLine comment s = true) :
    firstOutside comment.toNat (s ++ u) = match skipCwsFrom comment s with
      | some start => some (start ++ u)
      | none => firstOutside 0 u := by
  fun_induction plainLine comment s with
  | case1 comment =>
    cases comment with
    | false => rfl
    | true => cases h
  | case2 comment c s hws ih =>
    rw [List.cons_append, firstOutside_blank hws, skipCwsFrom, if_pos hws]
    exact ih h
  | case3 comment s _ ih =>
    obtain ⟨hcomment, h⟩ := Bool.and_eq_true_iff.mp h
    rw [Bool.not_eq_true'] at hcomment
    subst hcomment
    rw [List.cons_append, firstOutside_open]
    exact ih h
  | case4 s _ _ ih =>
    rw [List.cons_append, show true.toNat = 0 + 1 from rfl, firstOutside_close, skipCwsFrom_comment]
    exact ih h
  | case5 => cases h
  | case6 d s _ _ _ ih =>
    obtain ⟨hd, h⟩ := Bool.and_eq_true_iff.mp h
    rw [List.cons_append, List.cons_append, show true.toNat = 0 + 1 from rfl, firstOutside_pair, skipCwsFrom_comment,
      show decide ('\\' ≠ ')') = true from rfl, skipCwsFrom_comment, hd]
    exact ih h
  | case7 c s _ hopen hclose hslash ih =>
    rw [List.cons_append, show true.toNat = 0 + 1 from rfl, firstOutside_other hopen hclose hslash, skipCwsFrom_comment,
      decide_eq_true hclose]
    exact ih h
  | case8 comment c s hws hopen hcomment =>
    have hfalse : comment = false := Bool.eq_false_iff.mpr hcomment
    subst hfalse
    rw [List.cons_append, firstOutside_cons, skipCwsFrom]
    simp [hws, hopen]

/-- Lines that continue a field begin with a blank. -/
theorem folds_flatten {lines : List Text} (h : ∀ line ∈ lines, folds line = true) :
    ∀ c ∈ lines.flatten.head?, isUnquotedAtomText c = false := by
  cases lines with
  | nil => simp
  | cons line rest =>
    have hfold := h line (by simp)
    cases line with
    | nil => cases hfold
    | cons d line =>
      intro c hc
      obtain rfl : d = c := by simpa using hc
      unfold folds at hfold
      simp only [List.head?_cons, Option.some.injEq, Bool.or_eq_true, decide_eq_true_eq] at hfold
      rcases hfold with rfl | rfl <;> rfl

/-- A token without quotes ends in front of a blank. -/
theorem takeWhile_append_blank {p : Char → Bool} (start : Text) {u : Text} (hu : ∀ c ∈ u.head?, p c = false) :
    (start ++ u).takeWhile p = start.takeWhile p := by
  induction start with
  | nil =>
    cases u with
    | nil => rfl
    | cons c u => simp [hu c (by simp)]
  | cons c start ih =>
    rw [List.cons_append, List.takeWhile_cons, List.takeWhile_cons, ih]

/-- The first word from `start` on, when it is a token without quotes. -/
theorem tokenSeen_unquoted (htoken : UnquotedToken domain) (start : Text) :
    (tokenSeen start).map Prod.fst = some domain ↔ start.takeWhile isUnquotedAtomText = domain := by
  unfold tokenSeen
  by_cases hquote : start.head? = some '"'
  · rw [if_pos hquote]
    constructor
    · intro h
      obtain ⟨⟨t, rest⟩, ht, heq⟩ := Option.map_eq_some_iff.mp h
      have heq : t = domain := heq
      subst heq
      obtain ⟨rfl, -⟩ := tokenQuotedString_append ht
      cases hdom : t with
      | nil => exact absurd hdom htoken.ne_nil
      | cons c t' =>
        rw [hdom] at hquote
        have hc : c = '"' := by simpa using hquote
        have hnot := htoken.text c (by simp [hdom])
        rw [hc] at hnot
        cases hnot
    · intro h
      exfalso
      apply htoken.ne_nil
      rw [← h]
      cases start with
      | nil => rfl
      | cons c start =>
        obtain rfl : c = '"' := by simpa using hquote
        rfl
  · rw [if_neg hquote]
    unfold tokenUnquotedAtom
    split
    · rename_i hnil
      rw [hnil]
      exact ⟨(fun h => by cases h), fun h => absurd h.symm htoken.ne_nil⟩
    · simp

/-- The first word of a field, when its first line has a word or a bad one. -/
theorem fieldWords_start {line start : Text} (rest : List Text) (h : skipCws line = some start) :
    (fieldWords (line :: rest)).head? = (tokenSeen start).map Prod.fst := by
  have hline : ((lineWords (line.length + 1) line).1 = [] ∧ (lineWords (line.length + 1) line).2 = false ∧ tokenSeen start = none) ∨
      ((lineWords (line.length + 1) line).1.head? = (tokenSeen start).map Prod.fst ∧ (lineWords (line.length + 1) line).1 ≠ []) := by
    unfold lineWords
    rw [h]
    cases htoken : tokenSeen start with
    | none => simp [htoken]
    | some found => simp [htoken]
  unfold fieldWords
  rcases hline with ⟨hnil, hbad, htoken⟩ | ⟨hhead, hne⟩
  · rw [hnil, hbad, htoken]
    rfl
  · rw [List.head?_append_of_ne_nil _ hne, hhead]

/-- **In a plain field** the first word that `seen_text` finds is the domain just when the first token is. -/
theorem plain_firstToken (htoken : UnquotedToken domain) {lines : List Text} (hfold : ∀ line ∈ lines.tail, folds line = true)
    (hplain : plainField lines = true) : (fieldWords lines).head? = some domain ↔ firstToken lines = some domain := by
  induction lines with
  | nil => simp [fieldWords, firstToken, firstOutside]
  | cons line rest ih =>
    obtain ⟨hline, hrest⟩ := Bool.and_eq_true_iff.mp hplain
    have hskip := plainLine_skip false line rest.flatten hline
    have hfirst : firstToken (line :: rest) =
        ((match skipCwsFrom false line with
          | some start => some (start ++ rest.flatten)
          | none => firstOutside 0 rest.flatten).bind tokenSeen).map Prod.fst := by
      rw [← hskip]
      rfl
    rw [hfirst]
    cases hstart : skipCws line with
    | none =>
      rw [hstart] at hrest
      have hnone : lineWords (line.length + 1) line = ([], true) := by
        unfold lineWords
        rw [hstart]
      have hwords : fieldWords (line :: rest) = fieldWords rest := by
        rw [fieldWords, hnone]
        rfl
      rw [hwords, show skipCwsFrom false line = none from hstart]
      exact ih (fun l hl => hfold l (List.mem_of_mem_tail hl)) hrest
    | some start =>
      rw [fieldWords_start rest hstart, show skipCwsFrom false line = some start from hstart]
      show _ ↔ (tokenSeen (start ++ rest.flatten)).map Prod.fst = some domain
      rw [tokenSeen_unquoted htoken, tokenSeen_unquoted htoken,
        takeWhile_append_blank start (@folds_flatten rest hfold)]

/-! ## The line that is sent -/

/-- The words of a text, between blanks. -/
def blankWords (t : Text) : List Text := (t.splitOnP isWsp).filter (· ≠ [])

/-- What a relay may do to the headers: it keeps the words of each field, which it may refold, and adds fields. -/
def Relay (sent received : List Text) : Prop :=
  ∀ f ∈ headFields sent, ∃ g ∈ headFields received,
    strcaseEq g.1 f.1 = true ∧ blankWords g.2.flatten = blankWords f.2.flatten

/-- The line of `make_seen_before_line`, before it is cut to the buffer. -/
def seenBeforeLineFull (conf : DeliverConf) (d : Deliver) : Text :=
  stringSeenBefore ++ ':' :: ' ' :: (conf.seenBeforeDomain ++ ' ' :: ("id ".toList ++ d.dEnv.eId ++
    " origin ".toList ++ conf.toMxConf.hostname ++ " destination ".toList ++ d.hqHostname ++ " (".toList ++
    d.hqSmtpHostname ++ ")".toList))

theorem makeSeenBeforeLine_full {conf : DeliverConf} {d : Deliver} (h : (seenBeforeLineFull conf d).length ≤ 511) :
    makeSeenBeforeLine conf d = seenBeforeLineFull conf d := by
  have hfull : makeSeenBeforeLine conf d = (seenBeforeLineFull conf d).take 511 := by
    have hcolon : ": ".toList = [':', ' '] := by decide
    have hid : " id ".toList = ' ' :: "id ".toList := by decide
    unfold makeSeenBeforeLine seenBeforeLineFull
    simp only [hcolon, hid, List.append_assoc, List.cons_append, List.nil_append]
    rfl
  rw [hfull, List.take_of_length_le h]

/-- The first word of a text. -/
theorem blankWords_head (t : Text) : (blankWords t).head? =
    if t.dropWhile isWsp = [] then none else some ((t.dropWhile isWsp).takeWhile (fun c => !isWsp c)) := by
  have hfirst : ∀ t : Text, ∃ ws, t.splitOnP isWsp = t.takeWhile (fun c => !isWsp c) :: ws := by
    intro t
    induction t with
    | nil => exact ⟨[], rfl⟩
    | cons c t ih =>
      obtain ⟨ws, hws⟩ := ih
      rw [List.splitOnP_cons_eq_if_modifyHead, List.takeWhile_cons]
      by_cases hc : isWsp c = true
      · simp [hc]
      · simp [hc, hws]
  unfold blankWords
  induction t with
  | nil => rfl
  | cons c t ih =>
    rw [List.splitOnP_cons_eq_if_modifyHead, List.dropWhile_cons]
    by_cases hc : isWsp c = true
    · simpa [hc] using ih
    · obtain ⟨ws, hws⟩ := hfirst t
      simp [hc, hws]

/-- A text with that first word begins with it, behind blanks. -/
theorem blankWords_start (htoken : UnquotedToken domain) {t : Text} (h : (blankWords t).head? = some domain) :
    (t.dropWhile isWsp).takeWhile isUnquotedAtomText = domain := by
  rw [blankWords_head] at h
  split at h
  · cases h
  · have htake := Option.some.inj h
    have hcut : ∀ {p q : Char → Bool} (l : Text), (∀ c, q c = true → p c = true) → (∀ c ∈ l.takeWhile p, q c = true) →
        l.takeWhile q = l.takeWhile p := by
      intro p q l hqp hall
      induction l with
      | nil => rfl
      | cons c l ih =>
        rw [List.takeWhile_cons] at hall
        rw [List.takeWhile_cons, List.takeWhile_cons]
        by_cases hp : p c = true
        · rw [if_pos hp] at hall
          rw [if_pos hp, if_pos (hall c (by simp)), ih (fun d hd => hall d (by simp [hd]))]
        · rw [if_neg hp, if_neg (fun hq => hp (hqp c hq))]
    rw [hcut _ ?_ (htake ▸ htoken.text), htake]
    intro c hc
    unfold isUnquotedAtomText at hc
    simp only [Bool.and_eq_true, decide_eq_true_eq] at hc
    simp [isWsp, hc]

/-- What begins with no comment has its first token behind the blanks. -/
theorem firstOutside_front (t : Text) (h : (t.dropWhile isWsp).head? ≠ some '(') :
    firstOutside 0 t = if t.dropWhile isWsp = [] then none else some (t.dropWhile isWsp) := by
  induction t with
  | nil => rfl
  | cons c t ih =>
    by_cases hc : isWsp c = true
    · rw [List.dropWhile_cons_of_pos hc] at h ⊢
      have hws : c = ' ' ∨ c = '\t' := by simpa [isWsp] using hc
      rw [firstOutside_blank hws, ih h]
    · rw [List.dropWhile_cons_of_neg hc] at h ⊢
      have hws : ¬ (c = ' ' ∨ c = '\t') := by simpa [isWsp] using hc
      have hopen : c ≠ '(' := fun heq => h (by rw [heq]; rfl)
      rw [firstOutside_cons, if_neg hws, if_neg hopen]
      rfl

theorem plainLine_front (line : Text) (h : (line.dropWhile isWsp).head? ≠ some '(') :
    plainLine false line = true ∧ (skipCws line = none → line.dropWhile isWsp = []) := by
  induction line with
  | nil => exact ⟨rfl, fun _ => rfl⟩
  | cons c line ih =>
    unfold plainLine skipCws skipCwsFrom
    by_cases hc : isWsp c = true
    · rw [List.dropWhile_cons_of_pos hc] at h ⊢
      have hws : c = ' ' ∨ c = '\t' := by simpa [isWsp] using hc
      rw [if_pos hws, if_pos hws]
      exact ih h
    · rw [List.dropWhile_cons_of_neg hc] at h
      have hws : ¬ (c = ' ' ∨ c = '\t') := by simpa [isWsp] using hc
      have hopen : c ≠ '(' := fun heq => h (by rw [heq]; rfl)
      rw [if_neg hws, if_neg hws, if_neg hopen, if_neg hopen]
      simp

/-- A field that begins with no comment is plain. -/
theorem plainField_front (lines : List Text) (h : (lines.flatten.dropWhile isWsp).head? ≠ some '(') :
    plainField lines = true := by
  induction lines with
  | nil => rfl
  | cons line rest ih =>
    rw [List.flatten_cons, List.dropWhile_append] at h
    have hline : (line.dropWhile isWsp).head? ≠ some '(' := by
      intro heq
      apply h
      cases hdrop : line.dropWhile isWsp with
      | nil => simp [hdrop] at heq
      | cons c l => simpa [hdrop] using heq
    obtain ⟨hplain, hskip⟩ := plainLine_front line hline
    unfold plainField
    rw [hplain, Bool.true_and]
    cases hstart : skipCws line with
    | some _ => rfl
    | none =>
      apply ih
      simpa [hskip hstart] using h

/-- The lines of a field but the first one continue it. -/
theorem fieldsFrom_folds (lines : List Text) : ∀ f ∈ fieldsFrom lines, ∀ line ∈ f.2.tail, folds line = true := by
  induction lines with
  | nil => simp [fieldsFrom]
  | cons line rest ih =>
    intro f hf
    unfold fieldsFrom at hf
    split at hf
    · exact ih f hf
    · split at hf
      · obtain rfl | hf := List.mem_cons.mp hf
        · exact fun l hl => List.mem_takeWhile_imp hl
        · exact ih f hf
      · cases hf

theorem seenFields_mem {lines f : List Text} : f ∈ seenFields lines ↔
    ∃ name, (name, f) ∈ headFields lines ∧ strcaseEq name stringSeenBefore = true := by
  unfold seenFields seenOnly
  simp

theorem seenFields_folds {lines f : List Text} (h : f ∈ seenFields lines) : ∀ line ∈ f.tail, folds line = true := by
  obtain ⟨name, hf, -⟩ := seenFields_mem.mp h
  unfold headFields at hf
  split at hf
  · cases hf
  · exact fieldsFrom_folds lines _ hf

/-- A field with the domain as its first word, as it may have been refolded. -/
theorem firstToken_words (htoken : UnquotedToken domain) {lines : List Text} (h : (blankWords lines.flatten).head? = some domain) :
    plainField lines = true ∧ firstToken lines = some domain := by
  have hstart := blankWords_start htoken h
  have hopen : (lines.flatten.dropWhile isWsp).head? ≠ some '(' := by
    intro heq
    apply htoken.ne_nil
    rw [← hstart]
    cases hdrop : lines.flatten.dropWhile isWsp with
    | nil => rfl
    | cons c l =>
      rw [hdrop] at heq
      obtain rfl : c = '(' := by simpa using heq
      rfl
  have hne : lines.flatten.dropWhile isWsp ≠ [] := by
    intro hnil
    apply htoken.ne_nil
    rw [← hstart, hnil]
    rfl
  refine ⟨plainField_front lines hopen, ?_⟩
  unfold firstToken
  rw [firstOutside_front _ hopen, if_neg hne]
  exact (tokenSeen_unquoted htoken _).mpr hstart

/-- One of the seen-before fields has the domain as its first word. -/
def Marked (domain : Text) (lines : List Text) : Prop := ∃ f ∈ seenFields lines, (blankWords f.flatten).head? = some domain

/-- A relay leaves the mark there. -/
theorem Marked.relay {sent received : List Text} (h : Marked domain sent) (hrelay : Relay sent received) : Marked domain received := by
  obtain ⟨f, hf, hhead⟩ := h
  obtain ⟨name, hmem, hname⟩ := seenFields_mem.mp hf
  obtain ⟨g, hg, hsame, hwords⟩ := hrelay _ hmem
  refine ⟨g.2, seenFields_mem.mpr ⟨g.1, hg, ?_⟩, ?_⟩
  · unfold strcaseEq at hname hsame ⊢
    rw [decide_eq_true_eq] at hname hsame ⊢
    exact hsame.trans hname
  · rw [hwords]
    exact hhead

/-- **Any number of relays** leave it there. -/
theorem Marked.relays {sent received : List Text} (h : Marked domain sent) (hrelays : Relation.ReflTransGen Relay sent received) :
    Marked domain received := by
  induction hrelays with
  | refl => exact h
  | tail _ hrelay ih => exact ih.relay hrelay

/-- A message that is sent with the line has the mark. -/
theorem sent_marked {conf : DeliverConf} {d : Deliver} (htoken : UnquotedToken conf.seenBeforeDomain)
    (hfits : (seenBeforeLineFull conf d).length ≤ 511) (message : List Text) :
    Marked conf.seenBeforeDomain (makeSeenBeforeLine conf d :: message) := by
  obtain ⟨more, hmore⟩ : ∃ more, seenBeforeLineFull conf d =
      stringSeenBefore ++ ':' :: ' ' :: (conf.seenBeforeDomain ++ ' ' :: more) := ⟨_, rfl⟩
  have hchars : ∀ c ∈ stringSeenBefore, isFieldName c = true := List.all_eq_true.mp (by decide)
  have hdrop : (seenBeforeLineFull conf d).dropWhile isFieldName = ':' :: ' ' :: (conf.seenBeforeDomain ++ ' ' :: more) := by
    rw [hmore, List.dropWhile_append_of_pos hchars]
    rfl
  have htake : (seenBeforeLineFull conf d).takeWhile isFieldName = stringSeenBefore := by
    rw [hmore, List.takeWhile_append_of_pos hchars]
    simp [isFieldName]
  have hfield : fieldName (seenBeforeLineFull conf d) =
      some (stringSeenBefore, ' ' :: (conf.seenBeforeDomain ++ ' ' :: more)) := by
    unfold fieldName
    rw [hdrop, htake]
    rfl
  have hfold : folds (seenBeforeLineFull conf d) = false := by
    rw [hmore]
    rfl
  rw [makeSeenBeforeLine_full hfits]
  refine ⟨(' ' :: (conf.seenBeforeDomain ++ ' ' :: more)) :: message.takeWhile folds, ?_, ?_⟩
  · apply seenFields_mem.mpr
    refine ⟨stringSeenBefore, ?_, by decide⟩
    unfold headFields
    rw [fieldsFrom_field message hfold hfield]
    simp [hfold]
  · have hblank : ∀ c ∈ conf.seenBeforeDomain, isWsp c = false := by
      intro c hc
      have htext := htoken.text c hc
      unfold isUnquotedAtomText at htext
      simp only [Bool.and_eq_true, decide_eq_true_eq] at htext
      simp [isWsp, htext]
    obtain ⟨c, domain, hdomain⟩ := List.exists_cons_of_ne_nil htoken.ne_nil
    have hc : isWsp c = false := hblank c (by simp [hdomain])
    have hstart : ∀ u, (' ' :: (conf.seenBeforeDomain ++ ' ' :: u)).dropWhile isWsp = conf.seenBeforeDomain ++ ' ' :: u := by
      intro u
      rw [List.dropWhile_cons_of_pos (by rfl), hdomain, List.cons_append, List.dropWhile_cons_of_neg (by simp [hc])]
    rw [blankWords_head, List.flatten_cons, List.cons_append, List.append_assoc, List.cons_append, hstart,
      if_neg (by simp), List.takeWhile_append_of_pos (by simpa using hblank)]
    simp [isWsp]

/-! ## The pointers -/

/-- The pointers of `struct receive_headers` and what they point to: `next` is the block that is allocated next, and
    `heap` has the text of each block that is not freed. -/
structure SeenPtrs where
  heap : Nat → Option Text
  next : Nat
  rAllSeenBefore : List Nat
  rSeenBefore : Option Nat

namespace SeenPtrs

/-- No pointers. -/
def start : SeenPtrs := ⟨fun _ => none, 0, [], none⟩

/-- `make_more_seen`. -/
def makeMoreSeen (p : SeenPtrs) : SeenPtrs :=
  { p with
    heap := Function.update p.heap p.next (some [])
    next := p.next + 1
    rAllSeenBefore := p.rAllSeenBefore ++ [p.next] }

/-- `append_seen`; `none` when there is nothing to append to, or that is freed already. -/
def appendSeen (domain : Text) (p : SeenPtrs) (msg : Text) : Option SeenPtrs :=
  match p.rAllSeenBefore.getLast? with
  | none => none
  | some cp =>
    match p.heap cp with
    | none => none
    | some t =>
      let i := p.rAllSeenBefore.length - 1
      let new := p.next
      let seen :=
        if t ≠ [] then if p.rSeenBefore = some cp then some new else p.rSeenBefore
        else if msg = domain then some new else p.rSeenBefore
      some
        { heap := Function.update (Function.update p.heap new (some (if t ≠ [] then t ++ ' ' :: msg else msg))) cp none
          next := new + 1
          rAllSeenBefore := p.rAllSeenBefore.set i new
          rSeenBefore := seen }

/-- `seen_text`. -/
def seenText (domain : Text) : Nat → SeenPtrs → Text → Option SeenPtrs
  | 0, p, _ => some p
  | fuel + 1, p, line =>
    match skipCws line with
    | none => some p
    | some start =>
      match tokenSeen start with
      | none => some p
      | some (word, rest) => (p.appendSeen domain word).bind fun p => seenText domain fuel p rest

/-- `header_text`, where `r` has the other fields of the structure. -/
def headerText (domain : Text) (lineNo : Nat) (line : Text) (r : ReceiveHeaders) (p : SeenPtrs) : Option SeenPtrs :=
  if line = [] ∨ r.rState = .atEnd then some p
  else if line.head? = some ' ' ∨ line.head? = some '\t' then
    if lineNo = 1 then some p
    else if r.rState = .seen then p.seenText domain (line.length + 1) line
    else some p
  else
    match fieldName line with
    | some (name, body) =>
      if strcaseEq name stringMid then some p
      else if strcaseEq name stringReceived then some p
      else if strcaseEq name stringSeenBefore then p.makeMoreSeen.seenText domain (body.length + 1) body
      else some p
    | none => some p

/-- The pointers behind the lines. -/
def lines (conf : RecvConf) : HeadState → SeenPtrs → List Text → Option SeenPtrs
  | _, p, [] => some p
  | h, p, line :: rest =>
    (if h.header then p.headerText conf.seenBeforeDomain (h.lineNo + 1) line h.rh else some p).bind fun p =>
      lines conf (h.next conf line) p rest

/-- The pointers are to the texts: each entry is a block of its own that is not freed, and `r_seen_before` is the entry
    with its number. -/
structure Refines (p : SeenPtrs) (r : ReceiveHeaders) : Prop where
  texts : p.rAllSeenBefore.map p.heap = r.rAllSeenBefore.map some
  nodup : p.rAllSeenBefore.Nodup
  fresh : ∀ q ∈ p.rAllSeenBefore, q < p.next
  seen : p.rSeenBefore = r.rSeenBefore.bind fun i => p.rAllSeenBefore[i]?
  hit : ∀ i, r.rSeenBefore = some i → ∃ t, r.rAllSeenBefore[i]? = some t ∧ t ≠ []

variable {p : SeenPtrs} {r r' : ReceiveHeaders}

theorem Refines.same (h : p.Refines r) (hall : r'.rAllSeenBefore = r.rAllSeenBefore) (hseen : r'.rSeenBefore = r.rSeenBefore) :
    p.Refines r' :=
  ⟨hall ▸ h.texts, h.nodup, h.fresh, hseen ▸ h.seen, by rw [hall, hseen]; exact h.hit⟩

theorem Refines.length (h : p.Refines r) : p.rAllSeenBefore.length = r.rAllSeenBefore.length := by
  have hlength := congrArg List.length h.texts
  rwa [List.length_map, List.length_map] at hlength

/-- Blocks that are allocated change no entry. -/
theorem Refines.heap_next (h : p.Refines r) (t : Text) :
    p.rAllSeenBefore.map (Function.update p.heap p.next (some t)) = p.rAllSeenBefore.map p.heap := by
  apply List.map_congr_left
  intro q hq
  exact Function.update_of_ne (Nat.ne_of_lt (h.fresh q hq)) _ _

theorem Refines.makeMoreSeen (h : p.Refines r) : p.makeMoreSeen.Refines (Simta.makeMoreSeen true r) where
  texts := by
    show (p.rAllSeenBefore ++ [p.next]).map (Function.update p.heap p.next (some [])) = (r.rAllSeenBefore ++ [[]]).map some
    rw [List.map_append, List.map_append, h.heap_next, h.texts]
    simp
  nodup := by
    show (p.rAllSeenBefore ++ [p.next]).Nodup
    rw [List.nodup_append]
    refine ⟨h.nodup, List.nodup_singleton _, ?_⟩
    intro q hq q' hq'
    rw [List.mem_singleton.mp hq']
    exact Nat.ne_of_lt (h.fresh q hq)
  fresh := by
    intro q hq
    obtain hq | hq := List.mem_append.mp hq
    · exact Nat.lt_succ_of_lt (h.fresh q hq)
    · rw [List.mem_singleton.mp hq]
      exact Nat.lt_succ_self _
  seen := by
    show p.rSeenBefore = r.rSeenBefore.bind fun i => (p.rAllSeenBefore ++ [p.next])[i]?
    rw [h.seen]
    cases hseen : r.rSeenBefore with
    | none => rfl
    | some i =>
      obtain ⟨t, ht, -⟩ := h.hit i hseen
      have hi := (List.getElem?_eq_some_iff.mp ht).1
      show p.rAllSeenBefore[i]? = _
      exact (List.getElem?_append_left (h.length ▸ hi)).symm
  hit := by
    intro i hi
    obtain ⟨t, ht, hne⟩ := h.hit i hi
    refine ⟨t, ?_, hne⟩
    show (r.rAllSeenBefore ++ [[]])[i]? = some t
    rw [List.getElem?_append_left (List.getElem?_eq_some_iff.mp ht).1, ht]

/-- The last text is replaced by another in a new block, and the old one is freed; `r_seen_before` may be at the last
    entry then, or where it was. -/
theorem Refines.renew (h : p.Refines r) {qpre : List Nat} {cp : Nat} {tpre : List Text} {t new : Text} {seen hit : Option Nat}
    (hq : p.rAllSeenBefore = qpre ++ [cp]) (ht : r.rAllSeenBefore = tpre ++ [t]) (hnew : new ≠ [])
    (hseen : seen = hit.bind fun i => (qpre ++ [p.next])[i]?)
    (hhit : ∀ i, hit = some i → i ≠ tpre.length → r.rSeenBefore = some i) :
    Refines ⟨Function.update (Function.update p.heap p.next (some new)) cp none, p.next + 1, qpre ++ [p.next], seen⟩
      { r with rAllSeenBefore := tpre ++ [new], rSeenBefore := hit } := by
  have htexts := h.texts
  rw [hq, ht, List.map_append, List.map_append] at htexts
  obtain ⟨hpre, -⟩ := List.append_inj' htexts rfl
  have hnodup := h.nodup
  rw [hq, List.nodup_append] at hnodup
  have hfresh : cp < p.next := h.fresh cp (by simp [hq])
  have hfreshPre : ∀ q ∈ qpre, q < p.next := fun q hmem => h.fresh q (by simp [hq, hmem])
  refine ⟨?_, ?_, ?_, hseen, ?_⟩
  · have hsame : qpre.map (Function.update (Function.update p.heap p.next (some new)) cp none) = qpre.map p.heap := by
      apply List.map_congr_left
      intro q hmem
      rw [Function.update_of_ne (hnodup.2.2 q hmem cp (by simp)), Function.update_of_ne (Nat.ne_of_lt (hfreshPre q hmem))]
    show (qpre ++ [p.next]).map (Function.update (Function.update p.heap p.next (some new)) cp none) = (tpre ++ [new]).map some
    rw [List.map_append, List.map_append, hsame, hpre, List.map_singleton, List.map_singleton,
      Function.update_of_ne (Nat.ne_of_gt hfresh), Function.update_self]
  · show (qpre ++ [p.next]).Nodup
    rw [List.nodup_append]
    refine ⟨hnodup.1, List.nodup_singleton _, ?_⟩
    intro q hmem q' hmem'
    rw [List.mem_singleton.mp hmem']
    exact Nat.ne_of_lt (hfreshPre q hmem)
  · intro q hmem
    obtain hmem | hmem := List.mem_append.mp hmem
    · exact Nat.lt_succ_of_lt (hfreshPre q hmem)
    · rw [List.mem_singleton.mp hmem]
      exact Nat.lt_succ_self _
  · intro i hi
    show ∃ u, (tpre ++ [new])[i]? = some u ∧ u ≠ []
    by_cases heq : i = tpre.length
    · exact ⟨new, by simp [heq], hnew⟩
    · obtain ⟨u, hu, hne⟩ := h.hit i (hhit i hi heq)
      rw [ht] at hu
      have hlt := (List.getElem?_eq_some_iff.mp hu).1
      rw [List.length_append, List.length_singleton] at hlt
      have hin : i < tpre.length := by omega
      rw [List.getElem?_append_left hin] at hu ⊢
      exact ⟨u, hu, hne⟩

/-- **One word more**: the old text is freed, and `r_seen_before` goes with the new one. -/
theorem Refines.appendSeen (h : p.Refines r) (domain : Text) {msg : Text} (hmsg : msg ≠ []) (hall : r.rAllSeenBefore ≠ []) :
    ∃ p' r', p.appendSeen domain msg = some p' ∧ Simta.appendSeen domain true r msg = some r' ∧ p'.Refines r' ∧
      r'.rAllSeenBefore ≠ [] := by
  obtain ⟨tpre, t, ht⟩ := (List.eq_nil_or_concat' r.rAllSeenBefore).resolve_left hall
  have hps : p.rAllSeenBefore ≠ [] := by
    intro hnil
    have hlength := h.length
    rw [hnil, ht] at hlength
    simp at hlength
  obtain ⟨qpre, cp, hq⟩ := (List.eq_nil_or_concat' p.rAllSeenBefore).resolve_left hps
  have htexts := h.texts
  rw [hq, ht, List.map_append, List.map_append] at htexts
  obtain ⟨hpre, hlast⟩ := List.append_inj' htexts rfl
  have hcp : p.heap cp = some t := by simpa using hlast
  have hlength : qpre.length = tpre.length := by simpa using congrArg List.length hpre
  have hcur : p.rAllSeenBefore.set (p.rAllSeenBefore.length - 1) p.next = qpre ++ [p.next] := by simp [hq]
  have hset : ∀ new, r.rAllSeenBefore.set tpre.length new = tpre ++ [new] := by simp [ht]
  have hnum : r.rAllSeenBefore.length - 1 = tpre.length := by simp [ht]
  have hlastText : r.rAllSeenBefore.getLast? = some t := by simp [ht]
  have hlastPtr : p.rAllSeenBefore.getLast? = some cp := by simp [hq]
  -- where the pointer is, and where it is with a new block in place of the last
  have hat : ∀ i, r.rSeenBefore = some i → i ≤ tpre.length ∧ (t = [] → i ≠ tpre.length) := by
    intro i hi
    obtain ⟨u, hu, hne⟩ := h.hit i hi
    have hlt := (List.getElem?_eq_some_iff.mp hu).1
    rw [ht, List.length_append, List.length_singleton] at hlt
    refine ⟨Nat.lt_succ_iff.mp hlt, ?_⟩
    rintro rfl rfl
    rw [ht] at hu
    exact hne (by simpa using hu.symm)
  have hkept : ∀ i, i < tpre.length → (qpre ++ [p.next])[i]? = p.rAllSeenBefore[i]? := by
    intro i hi
    rw [hq, List.getElem?_append_left (hlength ▸ hi), List.getElem?_append_left (hlength ▸ hi)]
  have hlastAt : ∀ q, (qpre ++ [q])[tpre.length]? = some q := by simp [← hlength]
  unfold SeenPtrs.appendSeen Simta.appendSeen
  rw [hlastText, hlastPtr]
  simp only [hcp, if_true, hnum, hset, hcur]
  by_cases hempty : t = []
  · rw [if_neg (not_not.mpr hempty), if_neg (not_not.mpr hempty), if_neg (not_not.mpr hempty)]
    refine ⟨_, _, rfl, rfl, ?_, by simp⟩
    apply h.renew hq ht hmsg
    · by_cases hdomain : msg = domain
      · rw [if_pos hdomain, if_pos hdomain]
        exact (hlastAt p.next).symm
      · rw [if_neg hdomain, if_neg hdomain, h.seen]
        cases hseen : r.rSeenBefore with
        | none => rfl
        | some i =>
          obtain ⟨hle, hne⟩ := hat i hseen
          exact (hkept i (Nat.lt_of_le_of_ne hle (hne hempty))).symm
    · intro i hi hne
      split at hi
      · exact absurd (Option.some.inj hi).symm hne
      · exact hi
  · rw [if_pos hempty, if_pos hempty, if_pos hempty]
    refine ⟨_, _, rfl, rfl, ?_, by simp⟩
    apply h.renew hq ht (by simp)
    · rw [h.seen]
      cases hseen : r.rSeenBefore with
      | none => rfl
      | some i =>
        obtain ⟨hle, -⟩ := hat i hseen
        show (if p.rAllSeenBefore[i]? = some cp then some p.next else p.rAllSeenBefore[i]?) = (qpre ++ [p.next])[i]?
        by_cases heq : i = tpre.length
        · rw [heq, hq, hlastAt, hlastAt, if_pos rfl]
        · have hlt := Nat.lt_of_le_of_ne hle heq
          rw [hkept i hlt, if_neg]
          intro hget
          -- two entries of a list without duplicates
          have hcpAt : p.rAllSeenBefore[tpre.length]? = some cp := by rw [hq, hlastAt]
          have hlong : i < p.rAllSeenBefore.length := by rw [hq]; simp; omega
          exact heq ((List.getElem?_inj hlong h.nodup).mp (hget.trans hcpAt.symm))
    · exact fun i hi _ => hi

/-- The words of a line. -/
theorem Refines.seenText (domain : Text) (fuel : Nat) : ∀ {p : SeenPtrs} {r : ReceiveHeaders} (line : Text), p.Refines r →
    r.rAllSeenBefore ≠ [] → ∃ p', p.seenText domain fuel line = some p' ∧
      p'.Refines (Simta.seenText domain fuel (fun _ => true) r line).2 := by
  induction fuel with
  | zero => exact fun _ h _ => ⟨_, rfl, h⟩
  | succ fuel ih =>
    intro p r line h hall
    unfold SeenPtrs.seenText Simta.seenText
    cases skipCws line with
    | none => exact ⟨p, rfl, h⟩
    | some start =>
      cases htoken : tokenSeen start with
      | none =>
        simp only [htoken]
        exact ⟨p, rfl, h.same rfl rfl⟩
      | some found =>
        obtain ⟨word, rest⟩ := found
        obtain ⟨p', r', hp', hr', h', hall'⟩ := h.appendSeen domain (tokenSeen_ne_nil htoken) hall
        simp only [htoken, hp', hr']
        exact ih rest h' hall'

/-- One line of the headers. -/
theorem Refines.headerText (domain : Text) (lineNo : Nat) (line : Text) (h : p.Refines r) (hin : InHeaders r) :
    ∃ p', p.headerText domain lineNo line r = some p' ∧
      p'.Refines (Simta.headerText domain (fun _ => true) lineNo line r).2 := by
  unfold SeenPtrs.headerText Simta.headerText
  by_cases hend : line = [] ∨ r.rState = .atEnd
  · rw [if_pos hend, if_pos hend]
    exact ⟨p, rfl, h.same rfl rfl⟩
  · rw [if_neg hend, if_neg hend]
    by_cases hws : line.head? = some ' ' ∨ line.head? = some '\t'
    · rw [if_pos hws, if_pos hws]
      by_cases hone : lineNo = 1
      · rw [if_pos hone, if_pos hone]
        exact ⟨p, rfl, h.same rfl rfl⟩
      · rw [if_neg hone, if_neg hone]
        cases hstate : r.rState with
        | atEnd => exact absurd hstate hin.rState
        | read => exact ⟨p, rfl, h⟩
        | mid =>
          obtain ⟨r', hrun, hall, hseen, -⟩ := midText_seen r line
          simp only [hrun]
          exact ⟨p, rfl, h.same hall hseen⟩
        | seen => exact h.seenText domain _ line (hin.seen hstate)
    · rw [if_neg hws, if_neg hws]
      cases fieldName line with
      | none => exact ⟨p, rfl, h.same rfl rfl⟩
      | some f =>
        obtain ⟨name, body⟩ := f
        unfold headerField
        dsimp only
        split
        · split
          · exact ⟨p, rfl, h.same rfl rfl⟩
          · obtain ⟨r', hrun, hall, hseen, -⟩ := midText_seen { r with rMidSet := true, rState := .mid } body
            rw [hrun]
            exact ⟨p, rfl, h.same hall hseen⟩
        · split
          · exact ⟨p, rfl, h.same rfl rfl⟩
          · split
            · have hmore : p.Refines { r with rState := .seen } := h.same rfl rfl
              exact hmore.makeMoreSeen.seenText domain _ body (List.append_ne_nil_of_right_ne_nil _ (List.cons_ne_nil _ _))
            · exact ⟨p, rfl, h.same rfl rfl⟩

/-- A first line that continues a field is no header. -/
theorem headerText_first (domain : Text) {line : Text} (r : ReceiveHeaders) (h : folds line = true) :
    (Simta.headerText domain (fun _ => true) 1 line r).1 = 1 := by
  have hws : line.head? = some ' ' ∨ line.head? = some '\t' := by simpa [folds] using h
  unfold Simta.headerText
  split
  · rfl
  · rfl

/-- **The lines of a message**: no block is used that is freed, and the pointers are to the texts. -/
theorem Refines.lines (conf : RecvConf) (ls : List Text) : ∀ {h : HeadState} {p : SeenPtrs}, p.Refines h.rh →
    (h.header = true → InHeaders h.rh) →
    ∃ p', SeenPtrs.lines conf h p ls = some p' ∧ p'.Refines (ls.foldl (HeadState.next conf) h).rh := by
  induction ls with
  | nil => exact fun href _ => ⟨_, rfl, href⟩
  | cons line ls ih =>
    intro h p href hin
    unfold SeenPtrs.lines
    rw [List.foldl_cons]
    cases hheader : h.header with
    | false =>
      have hnext : HeadState.next conf h line = { h with lineNo := h.lineNo + 1 } := by
        unfold HeadState.next HeadState.text
        rw [if_neg (by simp [hheader])]
      rw [hnext]
      apply ih (h := { h with lineNo := h.lineNo + 1 }) href
      exact fun htrue => absurd (hheader.symm.trans htrue) (by decide)
    | true =>
      obtain ⟨p', hp', href'⟩ := href.headerText conf.seenBeforeDomain (h.lineNo + 1) line (hin hheader)
      have hnext : HeadState.next conf h line = ⟨h.lineNo + 1,
          decide ((Simta.headerText conf.seenBeforeDomain (fun _ => true) (h.lineNo + 1) line h.rh).1 ≤ 0),
          (Simta.headerText conf.seenBeforeDomain (fun _ => true) (h.lineNo + 1) line h.rh).2⟩ := by
        unfold HeadState.next HeadState.text
        rw [if_pos hheader]
      rw [if_pos rfl, hp', hnext]
      apply ih (h := ⟨_, _, _⟩) href'
      intro hgoes
      have hgoes := of_decide_eq_true hgoes
      have hlater : folds line = true → h.lineNo + 1 ≠ 1 := by
        intro hfold hone
        rw [hone, headerText_first _ _ hfold] at hgoes
        exact absurd hgoes (by decide)
      rcases headerText_reads conf.seenBeforeDomain ls (hin hheader) hlater with ⟨-, hin', -⟩ | ⟨hone, -⟩
      · exact hin'
      · rw [hone] at hgoes
        exact absurd hgoes (by decide)

/-- Without lines. -/
theorem refines_start : SeenPtrs.start.Refines ReceiveHeaders.init :=
  ⟨rfl, List.nodup_nil, by simp [start], rfl, by simp [ReceiveHeaders.init]⟩

end SeenPtrs

/-! ## Recognition -/

/-- `r_seen_before` is right behind the headers: it is set when the first token of a seen-before field is the domain,
    and then it is an entry of the list that has the text collected of such a field. -/
structure SeenRight (domain : Text) (lines : List Text) (p : SeenPtrs) : Prop where
  isSet : p.rSeenBefore.isSome ↔ ∃ f ∈ seenFields lines, firstToken f = some domain
  isLive : ∀ q, p.rSeenBefore = some q → q ∈ p.rAllSeenBefore ∧
    ∃ f ∈ seenFields lines, firstToken f = some domain ∧ p.heap q = some (collected (fieldWords f))

/-- What the pointers are behind the lines of a message, by the words of its fields. -/
theorem seenPtrs_lines (conf : RecvConf) (lines : List Text) : ∃ p, SeenPtrs.lines conf .start .start lines = some p ∧
    p.Refines (HeadState.lines conf lines).rh ∧
    (p.rSeenBefore.isSome ↔ ∃ f ∈ seenFields lines, (fieldWords f).head? = some conf.seenBeforeDomain) ∧
    ∀ q, p.rSeenBefore = some q → q ∈ p.rAllSeenBefore ∧
      ∃ f ∈ seenFields lines, (fieldWords f).head? = some conf.seenBeforeDomain ∧ p.heap q = some (collected (fieldWords f)) := by
  have hin : InHeaders .init := ⟨(fun h => by cases h), (fun h => by cases h), (fun h => by cases h), fun _ => rfl⟩
  obtain ⟨p, hp, href⟩ := SeenPtrs.Refines.lines conf lines (h := .start) SeenPtrs.refines_start (fun _ => hin)
  have href : p.Refines (HeadState.lines conf lines).rh := href
  have hso := seenBefore_lines conf lines
  generalize (HeadState.lines conf lines).rh = r at href hso
  have hentry : ∀ i, r.rSeenBefore = some i → ∃ q f, p.rSeenBefore = some q ∧ q ∈ p.rAllSeenBefore ∧ f ∈ seenFields lines ∧
      (fieldWords f).head? = some conf.seenBeforeDomain ∧ p.heap q = some (collected (fieldWords f)) := by
    intro i hi
    obtain ⟨ws, hws, hhead⟩ := lastHit_some (hso.hit.symm.trans hi)
    obtain ⟨f, hf, rfl⟩ : ∃ f, (seenFields lines)[i]? = some f ∧ fieldWords f = ws := by simpa using hws
    have htext : (p.rAllSeenBefore.map p.heap)[i]? = some (some (collected (fieldWords f))) := by
      rw [href.texts, hso.all]
      simp [hf]
    obtain ⟨q, hq, hheap⟩ : ∃ q, p.rAllSeenBefore[i]? = some q ∧ p.heap q = some (collected (fieldWords f)) := by
      simpa using htext
    refine ⟨q, f, ?_, List.mem_of_getElem? hq, List.mem_of_getElem? hf, hhead, hheap⟩
    rw [href.seen, hi]
    exact hq
  refine ⟨p, hp, href, ?_, ?_⟩
  · have hhit : r.rSeenBefore.isSome ↔ ∃ f ∈ seenFields lines, (fieldWords f).head? = some conf.seenBeforeDomain := by
      rw [hso.hit, lastHit_isSome]
      simp
    rw [← hhit]
    cases hseen : r.rSeenBefore with
    | none =>
      rw [href.seen, hseen]
      rfl
    | some i =>
      obtain ⟨q, -, hq, -⟩ := hentry i hseen
      rw [hq]
      rfl
  · intro q hq
    cases hseen : r.rSeenBefore with
    | none =>
      rw [href.seen, hseen] at hq
      cases hq
    | some i =>
      obtain ⟨q', f, hq', hmem, hf, hhead, hheap⟩ := hentry i hseen
      obtain rfl := Option.some.inj (hq'.symm.trans hq)
      exact ⟨hmem, f, hf, hhead, hheap⟩

/-- **Messages that come back are recognized.**  A message that was sent with the line of `make_seen_before_line` is
    recognized behind any number of relays, whatever other headers there are; and where every seen-before field is
    plain, `r_seen_before` is right. -/
theorem seenBefore_right (conf : RecvConf) (htoken : UnquotedToken conf.seenBeforeDomain) :
    (∀ (sender : DeliverConf) (d : Deliver) (message received : List Text), sender.seenBeforeDomain = conf.seenBeforeDomain →
      (seenBeforeLineFull sender d).length ≤ 511 →
      Relation.ReflTransGen Relay (makeSeenBeforeLine sender d :: message) received →
      ∃ p, SeenPtrs.lines conf .start .start received = some p ∧ p.Refines (HeadState.lines conf received).rh ∧
        ∃ q, p.rSeenBefore = some q ∧ (p.heap q).isSome) ∧
    ∀ lines : List Text, (∀ f ∈ seenFields lines, plainField f = true) →
      ∃ p, SeenPtrs.lines conf .start .start lines = some p ∧ p.Refines (HeadState.lines conf lines).rh ∧
        SeenRight conf.seenBeforeDomain lines p := by
  constructor
  · intro sender d message received hdomain hfits hrelays
    obtain ⟨p, hp, href, hset, hlive⟩ := seenPtrs_lines conf received
    refine ⟨p, hp, href, ?_⟩
    have hmarked := (sent_marked (hdomain ▸ htoken) hfits message).relays hrelays
    rw [hdomain] at hmarked
    obtain ⟨f, hf, hhead⟩ := hmarked
    obtain ⟨hplain, hfirst⟩ := firstToken_words htoken hhead
    have hsome : p.rSeenBefore.isSome := hset.mpr ⟨f, hf, (plain_firstToken htoken (seenFields_folds hf) hplain).mpr hfirst⟩
    obtain ⟨q, hq⟩ := Option.isSome_iff_exists.mp hsome
    obtain ⟨-, f', -, -, hheap⟩ := hlive q hq
    exact ⟨q, hq, by rw [hheap]; rfl⟩
  · intro lines hplain
    obtain ⟨p, hp, href, hset, hlive⟩ := seenPtrs_lines conf lines
    have hfirst : ∀ f ∈ seenFields lines, ((fieldWords f).head? = some conf.seenBeforeDomain ↔ firstToken f = some conf.seenBeforeDomain) :=
      fun f hf => plain_firstToken htoken (seenFields_folds hf) (hplain f hf)
    refine ⟨p, hp, href, ?_, ?_⟩
    · rw [hset]
      constructor
      · rintro ⟨f, hf, hhead⟩
        exact ⟨f, hf, (hfirst f hf).mp hhead⟩
      · rintro ⟨f, hf, hhead⟩
        exact ⟨f, hf, (hfirst f hf).mpr hhead⟩
    · intro q hq
      obtain ⟨hmem, f, hf, hhead, hheap⟩ := hlive q hq
      exact ⟨hmem, f, hf, (hfirst f hf).mp hhead, hheap⟩

/-- The receiver of the domain `x`. -/
def recvX : RecvConf := { hostname := [], dnsConfig := false, secondaryMx := none, red := ⟨false, none, none⟩, seenBeforeDomain := "x".toList }

theorem unquotedToken_x : UnquotedToken recvX.seenBeforeDomain :=
  ⟨by decide, List.all_eq_true.mp (by decide)⟩

/-- A field with a comment and a fold in front of its first token, behind one for another domain. -/
def foldedLines : List Text :=
  ["X-Simta-Seen-Before: y".toList, "Subject: copies".toList, "X-Simta-Seen-Before: (for us)".toList, " x id 1".toList]

theorem seenBefore_right_folded : ∃ p, SeenPtrs.lines recvX .start .start foldedLines = some p ∧
    p.Refines (HeadState.lines recvX foldedLines).rh ∧ SeenRight recvX.seenBeforeDomain foldedLines p :=
  (seenBefore_right recvX unquotedToken_x).2 foldedLines (by decide +kernel)

/-- A field with a comment in a comment in front of its first token. -/
def nestedLines : List Text := ["X-Simta-Seen-Before: (a (b) c) x".toList]

/-- `skip_cws` counts the comments that it goes into, but one closing parenthesis ends them all. -/
theorem not_seenBefore_right : UnquotedToken recvX.seenBeforeDomain ∧
    ¬ ∃ p, SeenPtrs.lines recvX .start .start nestedLines = some p ∧ SeenRight recvX.seenBeforeDomain nestedLines p := by
  refine ⟨unquotedToken_x, ?_⟩
  rintro ⟨p, hp, hright⟩
  have hseen : (SeenPtrs.lines recvX .start .start nestedLines).map (·.rSeenBefore) = some none := by decide +kernel
  rw [hp] at hseen
  have hfirst : ∃ f ∈ seenFields nestedLines, firstToken f = some recvX.seenBeforeDomain := by decide +kernel
  have hsome := hright.isSet.mpr hfirst
  have hnone : p.rSeenBefore = none := Option.some.inj hseen
  rw [hnone] at hsome
  cases hsome

end Simta
