import Simta.DirStartup
import Simta.EnvMove

/-!
# Merging a list of messages into the slow queue

`q_move_to_slow` walks two lists sorted by id.  With nothing to fail, every message of the other
list leaves its directory and is then in the slow one exactly once.

* `Merged` — what has become of the files;
* `envMove_ends`, `envUnlink_ends` — one message moved, or dropped because it collides;
* `qMoveToSlow_spec` — the whole list, by induction on it and on the slow list.
-/

set_option autoImplicit false

namespace Simta

open Directory (lookup_insert_ite lookup_erase_ite)

/-- The files after the messages `ids` have left `d` for the slow directory, where a message that
    was there already keeps its own files. -/
structure Merged (s : Spool) (d : Dir) (ids : List Text) (t : Spool) : Prop where
  source : ∀ id ∈ ids, t.names.lookup (efile d id) = none ∧ t.names.lookup (dfile d id) = none
  target : ∀ id ∈ ids,
    t.names.lookup (efile .slow id) =
      (s.names.lookup (efile .slow id)).or (s.names.lookup (efile d id)) ∧
    t.names.lookup (dfile .slow id) =
      (s.names.lookup (dfile .slow id)).or (s.names.lookup (dfile d id))
  frame : ∀ p, (∀ id ∈ ids, p ≠ efile d id ∧ p ≠ dfile d id ∧ p ≠ efile .slow id ∧
    p ≠ dfile .slow id) → t.names.lookup p = s.names.lookup p
  data : t.data = s.data

section Merged

variable {s t u : Spool} {d : Dir} {a : Text} {as : List Text}

theorem Merged.nil : Merged s d [] s := ⟨by simp, by simp, fun _ _ => rfl, rfl⟩

/-- A message not among those moved keeps its files everywhere. -/
theorem Merged.other (h : Merged s d as t) {id : Text} (hid : id ∉ as) (d' : Dir) :
    t.names.lookup (efile d' id) = s.names.lookup (efile d' id) ∧
      t.names.lookup (dfile d' id) = s.names.lookup (dfile d' id) := by
  constructor
  · exact h.frame _ fun x hx => by
      have hne : id ≠ x := fun he => hid (he ▸ hx)
      simp [hne]
  · exact h.frame _ fun x hx => by
      have hne : id ≠ x := fun he => hid (he ▸ hx)
      simp [hne]

theorem Merged.trans (h₁ : Merged s d [a] t) (h₂ : Merged t d as u) (ha : a ∉ as) :
    Merged s d (a :: as) u := by
  have hself := h₁.source a List.mem_cons_self
  have hother : ∀ id ∈ as, id ∉ [a] := fun id hid h => ha (List.mem_singleton.mp h ▸ hid)
  refine ⟨fun id hid => ?_, fun id hid => ?_, fun p hp => ?_, h₂.data.trans h₁.data⟩
  · rcases List.mem_cons.mp hid with rfl | hid
    · rw [(h₂.other ha d).1, (h₂.other ha d).2]
      exact hself
    · exact h₂.source id hid
  · rcases List.mem_cons.mp hid with rfl | hid
    · rw [(h₂.other ha .slow).1, (h₂.other ha .slow).2]
      exact h₁.target id List.mem_cons_self
    · have h := h₂.target id hid
      rw [(h₁.other (hother id hid) .slow).1, (h₁.other (hother id hid) .slow).2,
        (h₁.other (hother id hid) d).1, (h₁.other (hother id hid) d).2] at h
      exact h
  · rw [h₂.frame p fun id hid => hp id (List.mem_cons_of_mem _ hid)]
    exact h₁.frame p fun id hid => by
      obtain rfl := List.mem_singleton.mp hid
      exact hp id List.mem_cons_self

end Merged

section Moves

variable {order : Dir → List Text → List Text} {s : Spool} {env : Envelope} {d : Dir}

/-- `env_unlink` on a message with both files. -/
theorem envUnlink_ends {i j : Nat} (hE : s.names.lookup env.efile = some i)
    (hD : s.names.lookup env.dfile = some j) :
    (envUnlink env).ends (spool order) (fun r t => r = (0, (env.setEfile false).setDfile false) ∧
      t.names = (s.names.erase env.efile).erase env.dfile ∧ t.data = s.data) s := by
  have hne : env.dfile ≠ env.efile := dfile_ne_efile _ _ _ _
  have hD' : (s.names.erase env.efile).lookup env.dfile = some j := by
    rw [lookup_erase_ite, if_neg hne, hD]
  refine ends_unlink hE (ends_addFastFiles (Prog.ends_bind.mpr ?_))
  exact ends_unlink hD' ⟨rfl, rfl, rfl⟩

/-- A message that is in the slow directory already is dropped from its own. -/
theorem collision_merged (hd : env.eDir = d) (hne : d ≠ .slow) {t : Spool}
    (hE' : s.names.lookup (efile .slow env.eId) ≠ none)
    (hD' : s.names.lookup (dfile .slow env.eId) ≠ none)
    (ht : t.names = (s.names.erase env.efile).erase env.dfile) (hdata : t.data = s.data) :
    Merged s d [env.eId] t := by
  subst hd
  obtain ⟨i, hi⟩ := Option.ne_none_iff_exists'.mp hE'
  obtain ⟨j, hj⟩ := Option.ne_none_iff_exists'.mp hD'
  have hne' : Dir.slow ≠ env.eDir := fun h => hne h.symm
  refine ⟨fun id hid => ?_, fun id hid => ?_, fun p hp => ?_, hdata⟩
  · obtain rfl := List.mem_singleton.mp hid
    simp [ht, Envelope.efile, Envelope.dfile]
  · obtain rfl := List.mem_singleton.mp hid
    simp [ht, Envelope.efile, Envelope.dfile, hne', hi, hj]
  · obtain ⟨h₁, h₂, -, -⟩ := hp _ (List.mem_singleton_self _)
    have h₁' : p ≠ env.efile := h₁
    have h₂' : p ≠ env.dfile := h₂
    simp [ht, h₁', h₂']

/-- A message that is not in the slow directory is moved there. -/
theorem envMove_ends (hd : env.eDir = d) (hne : d ≠ .slow) {i j : Nat}
    (hE : s.names.lookup (efile d env.eId) = some i) (hD : s.names.lookup (dfile d env.eId) = some j)
    (hE' : s.names.lookup (efile .slow env.eId) = none)
    (hD' : s.names.lookup (dfile .slow env.eId) = none) :
    (envMove env .slow).ends (spool order) (fun r t => ∃ moved, r = some (0, moved) ∧
      moved.eId = env.eId ∧ Merged s d [env.eId] t) s := by
  subst hd
  have hne' : Dir.slow ≠ env.eDir := fun h => hne h.symm
  have hElinked : (s.names.insert (dfile .slow env.eId) j).lookup env.efile = some i := by
    simpa [Envelope.efile, lookup_insert_ite] using hE
  have hElinked' : (s.names.insert (dfile .slow env.eId) j).lookup (efile .slow env.eId) = none := by
    simpa [lookup_insert_ite] using hE'
  have hEn : (linked s env .slow i j).lookup env.efile = some i := by
    rw [lookup_linked]
    simpa [Envelope.efile, hne] using hE
  have hDn : (linked s env .slow i j).lookup env.dfile = some j := by
    rw [lookup_linked]
    simpa [Envelope.dfile, hne] using hD
  unfold envMove
  rw [if_pos (Or.inl rfl), if_pos hne]
  refine ends_link hD hD' (ends_link hElinked hElinked' (ends_addFastFiles ?_))
  change ((envMoveUnlink env .slow).bind (fun r => .ret (some r))).ends _ _ _
  refine Prog.ends_bind.mpr (Prog.ends_seq (envUnlink_ends hEn hDn) ?_)
  rintro r t ⟨rfl, ht, hdata⟩
  have hlookup : ∀ p, t.names.lookup p = if p = env.dfile then none else if p = env.efile then none
      else (linked s env .slow i j).lookup p := fun p => by
    rw [ht, lookup_erase_ite, lookup_erase_ite]
    rfl
  refine Prog.ends_ret (Prog.ends_ret
    ⟨_, rfl, rfl, fun id hid => ?_, fun id hid => ?_, fun p hp => ?_, hdata⟩)
  · obtain rfl := List.mem_singleton.mp hid
    simp [hlookup, Envelope.efile, Envelope.dfile]
  · obtain rfl := List.mem_singleton.mp hid
    simp [hlookup, lookup_linked, Envelope.efile, Envelope.dfile, hne', hE, hD, hE', hD']
  · obtain ⟨h₁, h₂, h₃, h₄⟩ := hp _ (List.mem_singleton_self _)
    have h₁' : p ≠ env.efile := h₁
    have h₂' : p ≠ env.dfile := h₂
    simp [hlookup, lookup_linked, h₁', h₂', h₃, h₄]

end Moves

/-! ## The merge -/

section Merge

variable {conf : Conf} {order : Dir → List Text → List Text} {d : Dir}

/-- What `q_move_to_slow` starts from: two sorted lists, the messages of the second complete in
    their own directory, and in the slow directory exactly when they are on the first list. -/
structure MergeReady (d : Dir) (slow other : List Envelope) (s : Spool) : Prop where
  sortedSlow : SortedIds slow
  sortedOther : SortedIds other
  dir : ∀ e ∈ other, e.eDir = d
  efiles : ∀ id ∈ ids other, s.names.lookup (efile d id) ≠ none
  dfiles : ∀ id ∈ ids other, s.names.lookup (dfile d id) ≠ none
  present : ∀ id ∈ ids other, id ∈ ids slow →
    s.names.lookup (efile .slow id) ≠ none ∧ s.names.lookup (dfile .slow id) ≠ none
  absent : ∀ id ∈ ids other, id ∉ ids slow →
    s.names.lookup (efile .slow id) = none ∧ s.names.lookup (dfile .slow id) = none

/-- What it ends with: one sorted list of both, no collision left over, and the files merged. -/
def MergeDone (d : Dir) (slow other : List Envelope) (s : Spool)
    (r : Outcome (List Envelope × Nat)) (t : Spool) : Prop :=
  ∃ l, r = .done (l, 0) ∧ SortedIds l ∧ (∀ id, id ∈ ids l ↔ id ∈ ids slow ∨ id ∈ ids other) ∧
    Merged s d (ids other) t

variable {move : Envelope} {slow other : List Envelope} {s t : Spool}

/-- After one message the rest is ready again, the slow list being `slow'`. -/
theorem MergeReady.next (h : MergeReady d slow (move :: other) s) (ht : Merged s d [move.eId] t)
    {slow' : List Envelope} (hs : SortedIds slow')
    (hslow : ∀ id ∈ ids other, id ∈ ids slow' ↔ id ∈ ids slow) : MergeReady d slow' other t := by
  have hne : ∀ id ∈ ids other, id ∉ [move.eId] := fun id hid hin =>
    ne_of_gt (h.sortedOther.lt hid) (List.mem_singleton.mp hin)
  refine ⟨hs, h.sortedOther.tail, fun e he => h.dir e (List.mem_cons_of_mem _ he), ?_, ?_, ?_, ?_⟩
  · intro id hid
    rw [(ht.other (hne id hid) d).1]
    exact h.efiles id (List.mem_cons_of_mem _ hid)
  · intro id hid
    rw [(ht.other (hne id hid) d).2]
    exact h.dfiles id (List.mem_cons_of_mem _ hid)
  · intro id hid hin
    rw [(ht.other (hne id hid) .slow).1, (ht.other (hne id hid) .slow).2]
    exact h.present id (List.mem_cons_of_mem _ hid) ((hslow id hid).mp hin)
  · intro id hid hin
    rw [(ht.other (hne id hid) .slow).1, (ht.other (hne id hid) .slow).2]
    exact h.absent id (List.mem_cons_of_mem _ hid) fun hx => hin ((hslow id hid).mpr hx)

/-- A message put before the rest of the result. -/
theorem MergeDone.cons {e : Envelope} {slow' : List Envelope} {r : Outcome (List Envelope × Nat)}
    {u : Spool} (ht : Merged s d [move.eId] t) (hmove : move.eId ∉ ids other)
    (h : MergeDone d slow' other t r u) (he : ∀ id, id ∈ ids slow' ∨ id ∈ ids other → e.eId < id)
    (hids : ∀ id, id = e.eId ∨ id ∈ ids slow' ∨ id ∈ ids other ↔
      id ∈ ids slow ∨ id ∈ ids (move :: other)) :
    MergeDone d slow (move :: other) s (r.map fun r => (e :: r.1, r.2)) u := by
  obtain ⟨l, rfl, hl, hlids, hmerged⟩ := h
  refine ⟨e :: l, rfl, hl.cons fun id hid => he id ((hlids id).mp hid), fun id => ?_,
    ht.trans hmerged hmove⟩
  rw [← hids, ids_cons, List.mem_cons, hlids]

/-- A message that goes before `slow`, when the rest of the merge does what it should. -/
theorem insertInSlow_spec (hd : d ≠ .slow)
    {next : List Envelope → SpoolProg (Outcome (List Envelope × Nat))}
    (hnext : ∀ slow s, MergeReady d slow other s →
      (next slow).ends (spool order) (MergeDone d slow other s) s)
    (h : MergeReady d slow (move :: other) s) (hlt : ∀ id ∈ ids slow, move.eId < id) :
    (insertInSlow move next slow).ends (spool order) (MergeDone d slow (move :: other) s) s := by
  have hself : move.eId ∈ ids (move :: other) := List.mem_cons_self
  have hnot : move.eId ∉ ids slow := fun hin => lt_irrefl _ (hlt _ hin)
  have hnot' : move.eId ∉ ids other := fun hin => lt_irrefl _ (h.sortedOther.lt hin)
  obtain ⟨i, hi⟩ := Option.ne_none_iff_exists'.mp (h.efiles _ hself)
  obtain ⟨j, hj⟩ := Option.ne_none_iff_exists'.mp (h.dfiles _ hself)
  obtain ⟨hE, hD⟩ := h.absent _ hself hnot
  refine Prog.ends_seq (envMove_ends (h.dir move List.mem_cons_self) hd hi hj hE hD) ?_
  rintro r t ⟨moved, rfl, hid, ht⟩
  refine Prog.ends_seq (hnext slow t (h.next ht h.sortedSlow fun _ _ => Iff.rfl)) ?_
  intro r u hr
  refine Prog.ends_ret (MergeDone.cons ht hnot' hr ?_ ?_)
  · rw [hid]
    rintro id (hin | hin)
    · exact hlt id hin
    · exact h.sortedOther.lt hin
  · intro id
    rw [hid, ids_cons, List.mem_cons]
    tauto

/-- The place of one message, when the rest of the merge does what it should. -/
theorem placeInSlow_spec (hc : conf.filesystemCleanup = true) (hd : d ≠ .slow)
    {next : List Envelope → SpoolProg (Outcome (List Envelope × Nat))}
    (hnext : ∀ slow s, MergeReady d slow other s →
      (next slow).ends (spool order) (MergeDone d slow other s) s) :
    ∀ (slow : List Envelope) (s : Spool), MergeReady d slow (move :: other) s →
      (placeInSlow conf move next slow).ends (spool order) (MergeDone d slow (move :: other) s) s := by
  intro slow
  induction slow with
  | nil => exact fun s h => insertInSlow_spec hd hnext h (by simp)
  | cons e slow ih =>
    intro s h
    have hself : move.eId ∈ ids (move :: other) := List.mem_cons_self
    cases hcmp : strcmp move.eId e.eId with
    | gt =>
      -- the slow message comes first
      simp only [placeInSlow, hcmp]
      have hlt : e.eId < move.eId := strcmp_gt.mp hcmp
      have hall : ∀ id ∈ ids (move :: other), e.eId < id := by
        intro id hid
        rcases List.mem_cons.mp hid with rfl | hid
        · exact hlt
        · exact hlt.trans (h.sortedOther.lt hid)
      have hmem : ∀ id ∈ ids (move :: other), id ∈ ids (e :: slow) ↔ id ∈ ids slow := by
        intro id hid
        rw [ids_cons, List.mem_cons]
        exact or_iff_right (ne_of_gt (hall id hid))
      have hready : MergeReady d slow (move :: other) s :=
        ⟨h.sortedSlow.tail, h.sortedOther, h.dir, h.efiles, h.dfiles,
          fun id hid hin => h.present id hid ((hmem id hid).mpr hin),
          fun id hid hin => h.absent id hid fun hx => hin ((hmem id hid).mp hx)⟩
      refine Prog.ends_seq (ih s hready) ?_
      rintro r t ⟨l, rfl, hl, hlids, hmerged⟩
      refine Prog.ends_ret ⟨e :: l, rfl, hl.cons fun id hid => ?_, fun id => ?_, hmerged⟩
      · rcases (hlids id).mp hid with hin | hin
        · exact h.sortedSlow.lt hin
        · exact hall id hin
      · rw [ids_cons e l, List.mem_cons, hlids, ids_cons e slow, List.mem_cons, or_assoc]
    | eq =>
      -- the message is in the slow directory already
      simp only [placeInSlow, hcmp, hc, if_true]
      have hid : move.eId = e.eId := strcmp_eq.mp hcmp
      have hnot' : move.eId ∉ ids other := fun hin => lt_irrefl _ (h.sortedOther.lt hin)
      have hin : move.eId ∈ ids (e :: slow) := by simp [hid]
      obtain ⟨hE, hD⟩ := h.present _ hself hin
      obtain ⟨i, hi⟩ := Option.ne_none_iff_exists'.mp (h.efiles _ hself)
      obtain ⟨j, hj⟩ := Option.ne_none_iff_exists'.mp (h.dfiles _ hself)
      have hdir := h.dir move List.mem_cons_self
      refine Prog.ends_seq (envUnlink_ends (i := i) (j := j) (by rw [← hi, ← hdir]; rfl)
        (by rw [← hj, ← hdir]; rfl)) ?_
      rintro r t ⟨rfl, ht, hdata⟩
      have hmerged := collision_merged hdir hd hE hD ht hdata
      have hlt : ∀ id ∈ ids other, e.eId < id := fun id hid' => hid ▸ h.sortedOther.lt hid'
      refine Prog.ends_seq (hnext slow t (h.next hmerged h.sortedSlow.tail fun id hid' => ?_)) ?_
      · rw [ids_cons, List.mem_cons]
        exact (or_iff_right (ne_of_gt (hlt id hid'))).symm
      · intro r u hr
        refine Prog.ends_ret (MergeDone.cons hmerged hnot' hr ?_ fun id => ?_)
        · rintro id (hx | hx)
          · exact h.sortedSlow.lt hx
          · exact hlt id hx
        · rw [ids_cons, ids_cons, List.mem_cons, List.mem_cons, hid]
          tauto
    | lt =>
      simp only [placeInSlow, hcmp]
      refine insertInSlow_spec hd hnext h fun id hid => ?_
      have hlt : move.eId < e.eId := strcmp_lt.mp hcmp
      rcases List.mem_cons.mp hid with rfl | hid
      · exact hlt
      · exact hlt.trans (h.sortedSlow.lt hid)

/-- **`q_move_to_slow`**: the two lists become one sorted list without a collision left over, and
    every message of the other list has its files in the slow directory only. -/
theorem qMoveToSlow_spec (hc : conf.filesystemCleanup = true) (hd : d ≠ .slow) :
    ∀ (other slow : List Envelope) (s : Spool), MergeReady d slow other s →
      (qMoveToSlow conf slow other).ends (spool order) (MergeDone d slow other s) s := by
  intro other
  induction other with
  | nil => exact fun slow s h => Prog.ends_ret ⟨slow, rfl, h.sortedSlow, by simp, Merged.nil⟩
  | cons move other ih => exact fun slow s h => placeInSlow_spec hc hd ih slow s h

theorem qMoveToSlowOk_spec (hc : conf.filesystemCleanup = true) (hd : d ≠ .slow)
    (h : MergeReady d slow other s) :
    (qMoveToSlowOk conf slow other).ends (spool order) (fun r t => ∃ l, r = .done l ∧ SortedIds l ∧
      (∀ id, id ∈ ids l ↔ id ∈ ids slow ∨ id ∈ ids other) ∧ Merged s d (ids other) t) s := by
  refine Prog.ends_seq (qMoveToSlow_spec hc hd other slow s h) ?_
  rintro r t ⟨l, rfl, hl⟩
  exact Prog.ends_ret ⟨l, rfl, hl⟩

end Merge

end Simta
