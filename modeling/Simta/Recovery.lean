import Simta.SlowMerge
import Simta.Families

/-!
# Recovery after a crash

`q_cleanup` with the filesystem cleanup on, started on whatever a crash has left.

* `qExpansionScan_spec` — the scan of the fast directory is `familyScan` on what `env_read` gives;
* `Recoverable` — the states from which everything is recovered: sound directories, and no family
  of the fast directory at two expansion levels;
* `qCleanup_spec` — every message complete in `slow`, `fast` or `local` is then complete in `slow`
  and nowhere else.
-/

set_option autoImplicit false

namespace Simta

section Reading

variable {order : Dir → List Text → List Text} {conf : Conf} {version0 : Int} {dinode0 : Nat}
variable {s : Spool}

theorem listAdd_ends {α : Type} {enable : Bool} {k : Bool → SpoolProg α} {Q : α → Spool → Prop}
    (hk : (k true).ends (spool order) Q s) : ((listAdd enable).bind k).ends (spool order) Q s := by
  cases enable with
  | false => exact hk
  | true => exact ends_listInsert hk

theorem envRead_ends {env x : Envelope} {i : Nat} (hE : s.names.lookup env.efile = some i)
    (hx : envReadLines .queueInfo version0 dinode0 env (s.data i) = .ok x) :
    (envRead conf .queueInfo version0 dinode0 env).ends (spool order)
      (fun r t => r = (0, x) ∧ t = s) s := by
  refine ends_read hE (ends_fclose ?_)
  simp only [hx]
  exact listAdd_ends (listAdd_ends ⟨rfl, rfl⟩)

/-- What the scan reads of a list of messages: those whose Dfile has another link. -/
inductive ReadAs (version0 : Int) (dinode0 : Nat) (s : Spool) : List Envelope → List Envelope → Prop
  | nil : ReadAs version0 dinode0 s [] []
  | single {env : Envelope} {l m : List Envelope} {j : Nat} (hD : s.names.lookup env.dfile = some j)
      (hn : ¬ 1 < s.names.nlink j) (h : ReadAs version0 dinode0 s l m) :
      ReadAs version0 dinode0 s (env :: l) m
  | linked {env x : Envelope} {l m : List Envelope} {i j : Nat}
      (hD : s.names.lookup env.dfile = some j) (hn : 1 < s.names.nlink j)
      (hE : s.names.lookup env.efile = some i)
      (hx : envReadLines .queueInfo version0 dinode0 { env with eDinode := j } (s.data i) = .ok x)
      (h : ReadAs version0 dinode0 s l m) : ReadAs version0 dinode0 s (env :: l) (x :: m)

/-- The scan of the messages is the scan of what is read of them. -/
theorem qExpansionScan_spec {l m : List Envelope} (h : ReadAs version0 dinode0 s l m) :
    ∀ (is : List IList) (delete : List Envelope),
      (qExpansionScan conf version0 dinode0 l is (ids delete)).ends (spool order)
        (fun r t => t = s ∧ r = match familyScan m is delete with
          | none => .abort
          | some marks => .done (ids marks)) s := by
  induction h with
  | nil => exact fun is delete => Prog.ends_ret ⟨rfl, rfl⟩
  | single hD hn h ih =>
    intro is delete
    refine ends_stat hD ?_
    simp only [hn, if_false]
    exact ih is delete
  | @linked _ x _ _ _ _ hD hn hE hx h ih =>
    intro is delete
    refine ends_stat hD ?_
    simp only [hn, if_true]
    refine Prog.ends_seq (envRead_ends hE hx) ?_
    rintro r t ⟨rfl, rfl⟩
    cases hadd : iListAdd x is with
    | none =>
      simp only [familyScan, hadd]
      exact Prog.ends_ret ⟨rfl, rfl⟩
    | some added =>
      obtain ⟨is', marked⟩ := added
      simp only [familyScan, hadd]
      have := ih is' (delete ++ marked)
      simpa [ids] using this

/-- When nothing is marked nothing is unlinked. -/
theorem qExpansionDelete_nil : ∀ (l : List Envelope),
    (qExpansionDelete [] l).ends (spool order) (fun r t => r = .done l ∧ t = s) s
  | [] => ⟨rfl, rfl⟩
  | env :: rest => by
    unfold qExpansionDelete
    rw [if_neg List.not_mem_nil]
    refine Prog.ends_seq (qExpansionDelete_nil rest) ?_
    rintro r t ⟨rfl, rfl⟩
    exact Prog.ends_ret ⟨rfl, rfl⟩

/-- What `env_read` makes of the Efile `i` of a message of the fast directory whose Dfile is `j`. -/
def readFast (conf : Conf) (version0 : Int) (dinode0 : Nat) (data : Nat → List Text) (id : Text)
    (i j : Nat) : EnvRead Envelope :=
  envReadLines .queueInfo version0 dinode0 { dirEnv conf .fast id true true with eDinode := j } (data i)

/-- The messages `F`, given by their ids and inodes, can be read, and those that name one Dfile are at
    one expansion level. -/
structure OneLevel (conf : Conf) (version0 : Int) (dinode0 : Nat) (data : Nat → List Text)
    (F : Text → Nat → Nat → Prop) : Prop where
  readable : ∀ id i j, F id i j → ∃ x, readFast conf version0 dinode0 data id i j = .ok x
  level : ∀ a i j b i' j' x y, F a i j → F b i' j' →
    readFast conf version0 dinode0 data a i j = .ok x →
    readFast conf version0 dinode0 data b i' j' = .ok y →
    x.eDinode = y.eDinode → x.eNExpLevel = y.eNExpLevel

/-- A message of a sound directory is complete. -/
theorem DirSound.pair {dir : Dir} (hs : DirSound s dir) {id : Text} (hE : efile dir id ∈ s.names) :
    ∃ i j, Pair s dir id i j := by
  obtain ⟨i, hi⟩ := Directory.mem_iff_lookup.mp hE
  obtain ⟨j, hj⟩ := Directory.mem_iff_lookup.mp (hs.dfiles id hE)
  exact ⟨i, j, hi, hj⟩

/-- What is read of the fast directory, when every message there can be read. -/
theorem readAs_of_readable (h : OneLevel conf version0 dinode0 s.data (Pair s .fast)) :
    ∀ (l : List Envelope),
      (∀ e ∈ l, ∃ id i j, e = dirEnv conf .fast id true true ∧ Pair s .fast id i j) →
      ∃ m, ReadAs version0 dinode0 s l m ∧ ∀ x ∈ m, ∃ id i j, Pair s .fast id i j ∧
        readFast conf version0 dinode0 s.data id i j = .ok x
  | [], _ => ⟨[], .nil, by simp⟩
  | e :: l, hl => by
    obtain ⟨m, hm, hmem⟩ :=
      readAs_of_readable h l fun x hx => hl x (List.mem_cons_of_mem _ hx)
    obtain ⟨id, i, j, rfl, hp⟩ := hl e List.mem_cons_self
    by_cases hn : 1 < s.names.nlink j
    · obtain ⟨x, hx⟩ := h.readable id i j hp
      refine ⟨x :: m, .linked hp.2 hn hp.1 hx hm, fun y hy => ?_⟩
      rcases List.mem_cons.mp hy with rfl | hy
      · exact ⟨id, i, j, hp, hx⟩
      · exact hmem y hy
    · exact ⟨m, .single hp.2 hn hm, hmem⟩

theorem ReadAs.ids_sublist {l m : List Envelope} (h : ReadAs version0 dinode0 s l m) :
    (ids m).Sublist (ids l) := by
  induction h with
  | nil => exact List.Sublist.slnil
  | single hD hn h ih => exact ih.cons _
  | @linked _ x _ _ _ _ hD hn hE hx h ih =>
    rw [ids_cons, ids_cons, envReadLines_eId hx]
    exact ih.cons_cons _

theorem ReadAs.nodup {l m : List Envelope} (h : ReadAs version0 dinode0 s l m) (hl : SortedIds l) :
    m.Nodup :=
  (hl.nodup.sublist h.ids_sublist).of_map _

/-- Families at one level each: the scan marks nothing. -/
theorem familyScan_flat {m : List Envelope} (hnodup : m.Nodup)
    (hflat : ∀ a ∈ m, ∀ b ∈ m, a.eDinode = b.eDinode → a.eNExpLevel = b.eNExpLevel) :
    familyScan m [] [] = some [] := by
  have hfam : ∀ x, Flat (familyOf m x) := fun x a ha b hb => by
    obtain ⟨ham, hax⟩ := mem_familyOf.mp ha
    obtain ⟨hbm, hbx⟩ := mem_familyOf.mp hb
    exact hflat a ham b hbm (hax.trans hbx.symm)
  rcases familyScan_spec hnodup with ⟨marks, heq, -, hmarks⟩ | ⟨-, x, hx⟩
  · have hnil : marks = [] := by
      refine List.eq_nil_iff_forall_not_mem.mpr fun e he => ?_
      obtain ⟨-, u, hu, -⟩ := (hmarks e).mp he
      exact hu.not_flat (hfam _)
    rw [heq, hnil]
  · exact absurd (.inl (hfam x)) hx

/-- The cleanup of interrupted expansions leaves a fast directory alone in which no two messages of
    one Dfile are at different levels. -/
theorem qExpansionCleanup_spec {l : List Envelope} (hl : Listed conf s .fast l)
    (hs : DirSound s .fast) (h : OneLevel conf version0 dinode0 s.data (Pair s .fast)) :
    (qExpansionCleanup conf version0 dinode0 l).ends (spool order)
      (fun r t => r = .done l ∧ t = s) s := by
  have hmem : ∀ e ∈ l, ∃ id i j, e = dirEnv conf .fast id true true ∧ Pair s .fast id i j := by
    intro e he
    obtain ⟨id, hE, rfl⟩ := (hl.mem e).mp he
    obtain ⟨i, j, hp⟩ := hs.pair hE
    exact ⟨id, i, j, rfl, hp⟩
  obtain ⟨m, hm, hread⟩ := readAs_of_readable h l hmem
  have hflat : familyScan m [] [] = some [] := by
    refine familyScan_flat (hm.nodup hl.sorted) fun a ha b hb hab => ?_
    obtain ⟨id, i, j, hp, hx⟩ := hread a ha
    obtain ⟨id', i', j', hp', hy⟩ := hread b hb
    exact h.level _ _ _ _ _ _ _ _ hp hp' hx hy hab
  unfold qExpansionCleanup
  refine Prog.ends_seq (qExpansionScan_spec hm [] []) ?_
  rintro r t ⟨rfl, rfl⟩
  rw [hflat]
  exact qExpansionDelete_nil l

end Reading

/-! ## `q_cleanup` -/

/-- The files of a message in a directory, when both are there. -/
def pairOf (s : Spool) (d : Dir) (id : Text) : Option (Nat × Nat) :=
  match s.names.lookup (efile d id), s.names.lookup (dfile d id) with
  | some i, some j => some (i, j)
  | _, _ => none

theorem pairOf_eq_some {s : Spool} {d : Dir} {id : Text} {i j : Nat} :
    pairOf s d id = some (i, j) ↔ Pair s d id i j := by
  unfold pairOf Pair
  split
  · rename_i h₁ h₂
    simp [h₁, h₂]
  · rename_i hno
    refine iff_of_false nofun fun h => hno i j h.1 h.2

theorem pairOf_congr {s t : Spool} {d : Dir} {id : Text}
    (hE : t.names.lookup (efile d id) = s.names.lookup (efile d id))
    (hD : t.names.lookup (dfile d id) = s.names.lookup (dfile d id)) :
    pairOf t d id = pairOf s d id := by
  unfold pairOf
  rw [hE, hD]

/-- A state from which `q_cleanup` recovers every message. -/
structure Recoverable (conf : Conf) (version0 : Int) (dinode0 : Nat) (s : Spool) : Prop where
  slow : DirSound s .slow
  fast : DirSound s .fast
  loc : DirSound s .loc
  oneLevel : OneLevel conf version0 dinode0 s.data (Pair s .fast)

/-- What `q_cleanup` makes of it: a message complete anywhere is complete in the slow directory, with
    its own files, and has no Efile elsewhere and no Dfile in the fast directory. -/
structure Recovered (s t : Spool) : Prop where
  slow : ∀ id, pairOf t .slow id = ((pairOf s .slow id).or (pairOf s .fast id)).or (pairOf s .loc id)
  fast : ∀ id, t.names.lookup (efile .fast id) = none ∧ t.names.lookup (dfile .fast id) = none
  loc : ∀ id, t.names.lookup (efile .loc id) = none
  locDfile : ∀ id, pairOf s .loc id ≠ none → t.names.lookup (dfile .loc id) = none
  data : t.data = s.data

section Cleanup

variable {order : Dir → List Text → List Text} {conf : Conf} {version0 : Int} {dinode0 : Nat}
variable {s t : Spool} {d : Dir}

theorem andThen_ends {α β : Type} {p : SpoolProg (Outcome α)} {f : α → SpoolProg (Outcome β)}
    {R : α → Spool → Prop} {Q : Outcome β → Spool → Prop}
    (hp : p.ends (spool order) (fun r t => ∃ a, r = .done a ∧ R a t) s)
    (hf : ∀ a t, R a t → (f a).ends (spool order) Q t) :
    (andThen p f).ends (spool order) Q s := by
  refine Prog.ends_seq hp ?_
  rintro r t ⟨a, rfl, ha⟩
  exact hf a t ha

/-- A sound directory is told by its complete messages. -/
theorem DirSound.lookup_efile (hs : DirSound s d) (id : Text) :
    s.names.lookup (efile d id) = (pairOf s d id).map Prod.fst := by
  cases hE : s.names.lookup (efile d id) with
  | none => simp [pairOf, hE]
  | some i =>
    obtain ⟨j, hj⟩ := Directory.mem_iff_lookup.mp
      (hs.dfiles id (Directory.mem_iff_lookup.mpr ⟨i, hE⟩))
    simp [pairOf, hE, hj]

theorem DirSound.mem_efile (hs : DirSound s d) (id : Text) :
    efile d id ∈ s.names ↔ pairOf s d id ≠ none := by
  rw [Directory.mem_iff_lookup, hs.lookup_efile, ← Option.isSome_iff_ne_none, ← Option.isSome_map,
    Option.isSome_iff_exists]

/-- Both files of every message are where `pairOf` says, and there are no others. -/
structure Tidy (t : Spool) (d : Dir) (pair : Text → Option (Nat × Nat)) : Prop where
  efiles : ∀ id, t.names.lookup (efile d id) = (pair id).map Prod.fst
  dfiles : ∀ id, t.names.lookup (dfile d id) = (pair id).map Prod.snd

theorem Tidy.pairOf {pair : Text → Option (Nat × Nat)} (h : Tidy t d pair) (id : Text) :
    pairOf t d id = pair id := by
  unfold Simta.pairOf
  rw [h.efiles, h.dfiles]
  cases pair id <;> rfl

/-- Sweeping a directory leaves it tidy. -/
theorem Swept.tidy (hs : DirSound s d) (hd : d ≠ .loc) (h : Swept s d t) :
    Tidy t d (pairOf s d) := by
  constructor
  · intro id
    rw [h.kept _ ?_, hs.lookup_efile]
    rintro ⟨-, -, ht | ⟨x, hx, -⟩⟩
    · simp [efile] at ht
    · exact efile_ne_dfile _ _ _ _ hx
  · intro id
    by_cases hE : efile d id ∈ s.names
    · obtain ⟨i, j, hp⟩ := hs.pair hE
      rw [h.kept _ ?_, pairOf_eq_some.mpr hp]
      · exact hp.2
      · rintro ⟨-, -, ht | ⟨x, hx, hno⟩⟩
        · simp [dfile] at ht
        · exact hno ((dfile_inj.mp hx).2 ▸ hE)
    · rw [h.gone _ ⟨hd, rfl, .inr ⟨id, rfl, hE⟩⟩]
      have hnone : pairOf s d id = none := by_contra fun hne => hE ((hs.mem_efile id).mpr hne)
      rw [hnone]
      rfl

/-- Sweeping a directory leaves the others alone. -/
theorem Swept.other (h : Swept s d t) {p : Path} (hp : p.dir ≠ d) :
    t.names.lookup p = s.names.lookup p := h.kept p fun hst => hp hst.2.1

theorem DirSound.congr (hs : DirSound s d)
    (h : ∀ p : Path, p.dir = d → t.names.lookup p = s.names.lookup p) : DirSound t d := by
  have hmem : ∀ p : Path, p.dir = d → (p ∈ t.names ↔ p ∈ s.names) := fun p hp => by
    rw [Directory.mem_iff_lookup, Directory.mem_iff_lookup, h p hp]
  exact ⟨fun p hp hd => hs.known p ((hmem p hd).mp hp) hd,
    fun id hE => (hmem _ rfl).mpr (hs.dfiles id ((hmem _ rfl).mp hE))⟩

theorem mem_ids_listed {l : List Envelope} (h : Listed conf s d l) {id : Text} :
    id ∈ ids l ↔ efile d id ∈ s.names := by
  rw [mem_ids]
  constructor
  · rintro ⟨e, he, rfl⟩
    obtain ⟨id, hE, rfl⟩ := (h.mem e).mp he
    exact hE
  · exact fun hE => ⟨_, (h.mem _).mpr ⟨id, hE, rfl⟩, rfl⟩

/-- A listed directory and a tidy slow directory are ready for the merge. -/
theorem mergeReady {l slow : List Envelope} {pair : Text → Option (Nat × Nat)}
    (hl : Listed conf s d l) (hs : DirSound t d) (hslow : SortedIds slow)
    (hids : ∀ id, id ∈ ids slow ↔ pair id ≠ none) (htidy : Tidy t .slow pair)
    (hsame : ∀ id, efile d id ∈ s.names ↔ efile d id ∈ t.names) : MergeReady d slow l t := by
  have hE : ∀ id ∈ ids l, efile d id ∈ t.names := fun id hid =>
    (hsame id).mp ((mem_ids_listed hl).mp hid)
  refine ⟨hslow, hl.sorted, fun e he => ?_, fun id hid => ?_, fun id hid => ?_, fun id _ hin => ?_,
    fun id _ hin => ?_⟩
  · obtain ⟨id, -, rfl⟩ := (hl.mem e).mp he
    rfl
  · obtain ⟨i, hi⟩ := Directory.mem_iff_lookup.mp (hE id hid)
    simp [hi]
  · obtain ⟨i, hi⟩ := Directory.mem_iff_lookup.mp (hs.dfiles id (hE id hid))
    simp [hi]
  · have hne := (hids id).mp hin
    rw [htidy.efiles, htidy.dfiles]
    simp [hne]
  · have hnone : pair id = none := by_contra fun hne => hin ((hids id).mpr hne)
    rw [htidy.efiles, htidy.dfiles, hnone]
    exact ⟨rfl, rfl⟩

/-- A merge into a tidy slow directory leaves it tidy. -/
theorem Merged.tidy {as : List Text} {pair : Text → Option (Nat × Nat)} (h : Merged s d as t)
    (hs : DirSound s d) (htidy : Tidy s .slow pair)
    (has : ∀ id, id ∈ as ↔ efile d id ∈ s.names) :
    Tidy t .slow fun id => (pair id).or (pairOf s d id) := by
  have hor : ∀ (a b : Option (Nat × Nat)) (f : Nat × Nat → Nat),
      (a.or b).map f = (a.map f).or (b.map f) := fun a b f => by cases a <;> rfl
  have hno : ∀ id, id ∉ as → pairOf s d id = none := fun id hid =>
    by_contra fun hne => hid ((has id).mpr ((hs.mem_efile id).mpr hne))
  constructor
  · intro id
    by_cases hid : id ∈ as
    · rw [(h.target id hid).1, htidy.efiles, hs.lookup_efile, hor]
    · rw [(h.other hid .slow).1, htidy.efiles, hno id hid, Option.or_none]
  · intro id
    by_cases hid : id ∈ as
    · obtain ⟨i, j, hp⟩ := hs.pair ((has id).mp hid)
      rw [(h.target id hid).2, htidy.dfiles, hor, pairOf_eq_some.mpr hp, hp.2]
      rfl
    · rw [(h.other hid .slow).2, htidy.dfiles, hno id hid, Option.or_none]

/-- The slow list in the middle of `q_cleanup`: the messages of `pair`, and the slow directory tidy. -/
structure SlowState (t : Spool) (l : List Envelope) (pair : Text → Option (Nat × Nat)) : Prop where
  sorted : SortedIds l
  mem : ∀ id, id ∈ ids l ↔ pair id ≠ none
  tidy : Tidy t .slow pair

/-- The slow directory as read. -/
theorem slowState_of_swept {l : List Envelope} (hs : DirSound s .slow) (hl : Listed conf s .slow l)
    (h : Swept s .slow t) : SlowState t l (pairOf s .slow) :=
  ⟨hl.sorted, fun id => by rw [mem_ids_listed hl, hs.mem_efile], h.tidy hs nofun⟩

/-- One directory merged into the slow one. -/
theorem slowState_of_merged {l slow other : List Envelope} {pair : Text → Option (Nat × Nat)}
    (hslow : SlowState s slow pair) (hs : DirSound s d)
    (hother : ∀ id, id ∈ ids other ↔ efile d id ∈ s.names) (hl : SortedIds l)
    (hids : ∀ id, id ∈ ids l ↔ id ∈ ids slow ∨ id ∈ ids other) (h : Merged s d (ids other) t) :
    SlowState t l fun id => (pair id).or (pairOf s d id) := by
  refine ⟨hl, fun id => ?_, h.tidy hs hslow.tidy hother⟩
  rw [hids, hslow.mem, hother, hs.mem_efile]
  cases pair id <;> simp

/-- A directory without stray Dfiles is empty of messages once they are merged. -/
theorem Merged.emptied {as : List Text} {pair : Text → Option (Nat × Nat)} (h : Merged s d as t)
    (hs : Tidy s d pair) (has : ∀ id, id ∈ as ↔ efile d id ∈ s.names) (id : Text) :
    t.names.lookup (efile d id) = none ∧ t.names.lookup (dfile d id) = none := by
  by_cases hid : id ∈ as
  · exact h.source id hid
  · have hnone : pair id = none := by
      have hE : s.names.lookup (efile d id) = none :=
        Directory.not_mem_iff_lookup.mp fun hin => hid ((has id).mpr hin)
      rw [hs.efiles] at hE
      simpa using hE
    rw [(h.other hid d).1, (h.other hid d).2, hs.efiles, hs.dfiles, hnone]
    exact ⟨rfl, rfl⟩

theorem Merged.other_dir {as : List Text} (h : Merged s d as t) {p : Path} (h₁ : p.dir ≠ d)
    (h₂ : p.dir ≠ .slow) : t.names.lookup p = s.names.lookup p :=
  h.frame p fun _ _ => ⟨fun he => h₁ (he ▸ rfl), fun he => h₁ (he ▸ rfl), fun he => h₂ (he ▸ rfl),
    fun he => h₂ (he ▸ rfl)⟩

theorem Swept.sound (hs : DirSound s d) (h : Swept s d t) : DirSound t d := by
  constructor
  · intro p hp hd
    refine hs.known p ?_ hd
    obtain ⟨i, hi⟩ := Directory.mem_iff_lookup.mp hp
    by_cases hst : Stranded s d p
    · rw [h.gone p hst] at hi
      cases hi
    · rw [h.kept p hst] at hi
      exact Directory.mem_iff_lookup.mpr ⟨i, hi⟩
  · intro id hE
    have hnE : ¬ Stranded s d (efile d id) := by
      rintro ⟨-, -, ht | ⟨x, hx, -⟩⟩
      · simp [efile] at ht
      · exact efile_ne_dfile _ _ _ _ hx
    have hE' : efile d id ∈ s.names := by
      rw [Directory.mem_iff_lookup] at hE ⊢
      rwa [h.kept _ hnE] at hE
    have hnD : ¬ Stranded s d (dfile d id) := by
      rintro ⟨-, -, ht | ⟨x, hx, hno⟩⟩
      · simp [dfile] at ht
      · exact hno ((dfile_inj.mp hx).2 ▸ hE')
    rw [Directory.mem_iff_lookup, h.kept _ hnD, ← Directory.mem_iff_lookup]
    exact hs.dfiles id hE'

/-- The fast directory: read, checked for interrupted expansions, and merged into the slow one. -/
theorem cleanupFast_spec {stamp : Text} (horder : ∀ d l, (order d l).Perm l)
    (hc : conf.filesystemCleanup = true) {slow : List Envelope} {pair : Text → Option (Nat × Nat)}
    (hslow : SlowState s slow pair) (hs : DirSound s .fast)
    (hlevel : OneLevel conf version0 dinode0 s.data (Pair s .fast)) :
    (andThen (qDirStartup conf stamp .fast .clean) fun fast =>
      andThen (qExpansionCleanup conf version0 dinode0 fast) fun fast =>
        qMoveToSlowOk conf slow fast).ends (spool order)
      (fun r t => ∃ l, r = .done l ∧ SlowState t l (fun id => (pair id).or (pairOf s .fast id)) ∧
        (∀ id, t.names.lookup (efile .fast id) = none ∧ t.names.lookup (dfile .fast id) = none) ∧
        (∀ p : Path, p.dir ≠ .slow → p.dir ≠ .fast → t.names.lookup p = s.names.lookup p) ∧
        t.data = s.data) s := by
  refine andThen_ends (qDirStartup_spec horder hc hs) ?_
  rintro l t ⟨hl, ht⟩
  have htidy := ht.tidy hs nofun
  have hsound := ht.sound hs
  have hsame : ∀ id, efile .fast id ∈ s.names ↔ efile .fast id ∈ t.names := fun id => by
    rw [hs.mem_efile, hsound.mem_efile, htidy.pairOf]
  have hpair : ∀ id i j, Pair t .fast id i j ↔ Pair s .fast id i j := fun id i j => by
    rw [← pairOf_eq_some, ← pairOf_eq_some, htidy.pairOf]
  have hl' : Listed conf t .fast l := ⟨hl.sorted, fun env => by simp only [hl.mem, hsame]⟩
  have hlevel' : OneLevel conf version0 dinode0 t.data (Pair t .fast) := by
    rw [ht.data]
    exact ⟨fun id i j hp => hlevel.readable id i j ((hpair id i j).mp hp),
      fun a i j b i' j' x y ha hb => hlevel.level a i j b i' j' x y ((hpair _ _ _).mp ha)
        ((hpair _ _ _).mp hb)⟩
  have hslow' : SlowState t slow pair := by
    refine ⟨hslow.sorted, hslow.mem, fun id => ?_, fun id => ?_⟩
    · rw [ht.other (by simp), hslow.tidy.efiles]
    · rw [ht.other (by simp), hslow.tidy.dfiles]
  refine andThen_ends (R := fun l' t' => l = l' ∧ t = t')
    (Prog.ends_mono (qExpansionCleanup_spec hl' hsound hlevel') ?_) ?_
  · rintro r t' ⟨rfl, rfl⟩
    exact ⟨l, rfl, rfl, rfl⟩
  rintro _ _ ⟨rfl, rfl⟩
  refine Prog.ends_mono (qMoveToSlowOk_spec (d := .fast) hc (by decide)
    (mergeReady hl' hsound hslow'.sorted hslow'.mem hslow'.tidy fun _ => Iff.rfl)) ?_
  rintro r u ⟨l', rfl, hsorted, hids, hmerged⟩
  have hother : ∀ id, id ∈ ids l ↔ efile .fast id ∈ t.names := fun id => mem_ids_listed hl'
  refine ⟨l', rfl, ?_, hmerged.emptied htidy hother, fun p h₁ h₂ => ?_, hmerged.data.trans ht.data⟩
  · have h := slowState_of_merged hslow' hsound hother hsorted hids hmerged
    simpa only [htidy.pairOf] using h
  · rw [hmerged.other_dir h₂ h₁, ht.other h₂]

/-- **`q_cleanup` recovers every message**: it succeeds, and every message that was complete in one
    of the three directories is complete in the slow one and only there. -/
theorem qCleanup_spec (stamp : Text) (horder : ∀ d l, (order d l).Perm l)
    (hc : conf.filesystemCleanup = true) (h : Recoverable conf version0 dinode0 s) :
    (qCleanup conf stamp version0 dinode0).ends (spool order)
      (fun r t => (∃ l, r = .done l) ∧ Recovered s t) s := by
  unfold qCleanup
  refine andThen_ends (R := fun _ t => s = t) ⟨[], rfl, rfl⟩ ?_
  rintro _ _ rfl
  refine andThen_ends (qDirStartup_spec horder hc h.slow) ?_
  rintro slow s₁ ⟨hl₁, ht₁⟩
  have hstate₁ := slowState_of_swept h.slow hl₁ ht₁
  have hsame₁ : ∀ p : Path, p.dir ≠ .slow → s₁.names.lookup p = s.names.lookup p :=
    fun p hp => ht₁.other hp
  have hpair₁ : ∀ d id, d ≠ .slow → pairOf s₁ d id = pairOf s d id := fun d id hd =>
    pairOf_congr (hsame₁ _ hd) (hsame₁ _ hd)
  have hlevel₁ : OneLevel conf version0 dinode0 s₁.data (Pair s₁ .fast) := by
    have hp : Pair s₁ .fast = Pair s .fast := by
      funext id i j
      exact propext (by rw [← pairOf_eq_some, ← pairOf_eq_some, hpair₁ _ _ (by decide)])
    rw [hp, ht₁.data]
    exact h.oneLevel
  rw [if_pos hc]
  refine andThen_ends (cleanupFast_spec horder hc hstate₁
    (h.fast.congr fun p hp => hsame₁ p (by simp [hp])) hlevel₁) ?_
  rintro slow₂ s₂ ⟨hstate₂, hfast₂, hsame₂, hdata₂⟩
  have hloc : ∀ p : Path, p.dir = .loc → s₂.names.lookup p = s.names.lookup p := fun p hp => by
    rw [hsame₂ p (by simp [hp]) (by simp [hp]), hsame₁ p (by simp [hp])]
  refine andThen_ends (qDirStartup_spec horder hc (h.loc.congr hloc)) ?_
  rintro l₃ s₃ ⟨hl₃, ht₃⟩
  -- nothing is unlinked from `local`
  have hsame₃ : ∀ p, s₃.names.lookup p = s₂.names.lookup p := fun p => ht₃.kept p fun hst => hst.1 rfl
  have hsound₃ : DirSound s₃ .loc := h.loc.congr fun p hp => by rw [hsame₃, hloc p hp]
  have hstate₃ : SlowState s₃ slow₂ _ := ⟨hstate₂.sorted, hstate₂.mem,
    fun id => by rw [hsame₃]; exact hstate₂.tidy.efiles id,
    fun id => by rw [hsame₃]; exact hstate₂.tidy.dfiles id⟩
  have hmem₃ : ∀ id, efile .loc id ∈ s₂.names ↔ efile .loc id ∈ s₃.names := fun id => by
    rw [Directory.mem_iff_lookup, Directory.mem_iff_lookup, hsame₃]
  refine Prog.ends_mono (qMoveToSlowOk_spec (d := .loc) hc (by decide)
    (mergeReady hl₃ hsound₃ hstate₃.sorted hstate₃.mem hstate₃.tidy hmem₃)) ?_
  rintro r t ⟨l, rfl, hsorted, hids, hmerged⟩
  have hother : ∀ id, id ∈ ids l₃ ↔ efile .loc id ∈ s₃.names := fun id =>
    (mem_ids_listed hl₃).trans (hmem₃ id)
  have hstate := slowState_of_merged hstate₃ hsound₃ hother hsorted hids hmerged
  have hpair₃ : ∀ id, pairOf s₃ .loc id = pairOf s .loc id := fun id => by
    refine pairOf_congr ?_ ?_ <;> rw [hsame₃, hloc _ rfl]
  refine ⟨⟨l, rfl⟩, fun id => ?_, fun id => ?_, fun id => ?_, fun id hid => ?_, ?_⟩
  · rw [hstate.tidy.pairOf, hpair₃, hpair₁ _ _ (by decide)]
  · rw [hmerged.other_dir (by simp) (by simp), hmerged.other_dir (by simp) (by simp), hsame₃, hsame₃]
    exact hfast₂ id
  · by_cases hid : id ∈ ids l₃
    · exact (hmerged.source id hid).1
    · rw [(hmerged.other hid .loc).1]
      exact Directory.not_mem_iff_lookup.mp fun hin => hid ((hother id).mpr hin)
  · refine (hmerged.source id ((hother id).mpr ?_)).2
    rw [hsound₃.mem_efile, hpair₃]
    exact hid
  · rw [hmerged.data, ht₃.data, hdata₂, ht₁.data]

end Cleanup

/-! ## A move cut short -/

section CutShort

variable {order : Dir → List Text → List Text} {conf : Conf} {version0 : Int} {dinode0 : Nat}
variable {s t : Spool} {env : Envelope} {tgt d : Dir} {i j : Nat}

theorem MoveStop.other (h : MoveStop s env tgt i j t) {id : Text} (hid : id ≠ env.eId) (d : Dir) :
    t.names.lookup (efile d id) = s.names.lookup (efile d id) ∧
      t.names.lookup (dfile d id) = s.names.lookup (dfile d id) := by
  constructor <;> exact h.frame _ (by simp [Envelope.efile, hid]) (by simp [Envelope.dfile, hid])
    (by simp [hid]) (by simp [hid])

theorem MoveStop.other_dir (h : MoveStop s env tgt i j t) (h₁ : d ≠ env.eDir) (h₂ : d ≠ tgt)
    (id : Text) : t.names.lookup (efile d id) = s.names.lookup (efile d id) ∧
      t.names.lookup (dfile d id) = s.names.lookup (dfile d id) := by
  constructor <;> exact h.frame _ (by simp [Envelope.efile, h₁]) (by simp [Envelope.dfile, h₁])
    (by simp [h₂]) (by simp [h₂])

/-- In the directories of the move the message is complete as it was, or has no Efile. -/
theorem MoveStop.efile_or (h : MoveStop s env tgt i j t) (hd : d = env.eDir ∨ d = tgt) :
    t.names.lookup (efile d env.eId) = none ∨ Pair t d env.eId i j := by
  rcases hd with rfl | rfl
  · exact h.source
  · exact h.target

/-- Sound directories are sound wherever the move stops. -/
theorem MoveStop.sound (h : MoveStop s env tgt i j t) (hid : env.eId ≠ []) (hs : DirSound s d) :
    DirSound t d := by
  constructor
  · intro p hp hd
    by_cases h₁ : p = env.efile
    · exact h₁ ▸ .efile hid
    by_cases h₂ : p = env.dfile
    · exact h₂ ▸ .dfile hid
    by_cases h₃ : p = efile tgt env.eId
    · exact h₃ ▸ .efile hid
    by_cases h₄ : p = dfile tgt env.eId
    · exact h₄ ▸ .dfile hid
    refine hs.known p ?_ hd
    rw [Directory.mem_iff_lookup, ← h.frame p h₁ h₂ h₃ h₄, ← Directory.mem_iff_lookup]
    exact hp
  · intro id hE
    have hkeep : t.names.lookup (efile d id) = s.names.lookup (efile d id) ∧
        t.names.lookup (dfile d id) = s.names.lookup (dfile d id) → dfile d id ∈ t.names := by
      rintro ⟨hE', hD'⟩
      rw [Directory.mem_iff_lookup, hE', ← Directory.mem_iff_lookup] at hE
      rw [Directory.mem_iff_lookup, hD', ← Directory.mem_iff_lookup]
      exact hs.dfiles id hE
    by_cases hne : id = env.eId
    · subst hne
      by_cases hd : d = env.eDir ∨ d = tgt
      · rcases h.efile_or hd with hno | hp
        · exact absurd hE (Directory.not_mem_iff_lookup.mpr hno)
        · exact Directory.mem_iff_lookup.mpr ⟨j, hp.2⟩
      · exact hkeep (h.other_dir (fun h' => hd (.inl h')) (fun h' => hd (.inr h')) _)
    · exact hkeep (h.other hne d)

/-- A complete message of the fast directory was there before, or is the one being moved there. -/
theorem MoveStop.fast_pair (h : MoveStop s env tgt i j t) (hp : Pair s env.eDir env.eId i j)
    {id : Text} {i' j' : Nat} (hf : Pair t .fast id i' j') :
    Pair s .fast id i' j' ∨ (tgt = .fast ∧ id = env.eId ∧ i' = i ∧ j' = j) := by
  have hkeep : t.names.lookup (efile .fast id) = s.names.lookup (efile .fast id) ∧
      t.names.lookup (dfile .fast id) = s.names.lookup (dfile .fast id) → Pair s .fast id i' j' :=
    fun hk => ⟨hk.1 ▸ hf.1, hk.2 ▸ hf.2⟩
  by_cases hne : id = env.eId
  · subst hne
    by_cases hd : Dir.fast = env.eDir ∨ Dir.fast = tgt
    · have hij : i' = i ∧ j' = j := by
        rcases h.efile_or hd with hno | hp'
        · exact absurd (hno.symm.trans hf.1) nofun
        · exact ⟨Option.some.inj (hf.1.symm.trans hp'.1), Option.some.inj (hf.2.symm.trans hp'.2)⟩
      obtain ⟨rfl, rfl⟩ := hij
      rcases hd with hd | hd
      · exact .inl (by rw [hd]; exact hp)
      · exact .inr ⟨hd.symm, rfl, rfl, rfl⟩
    · exact .inl (hkeep (h.other_dir (fun h' => hd (.inl h')) (fun h' => hd (.inr h')) _))
  · exact .inl (hkeep (h.other hne .fast))

/-- A message at rest: complete in one of the directories that the queue runner moves from, its id
    used nowhere else, among sound directories in which no message of the fast directory (the one to be
    moved there included) shares its Dfile with one of another expansion level.  No call has been
    made to fail yet. -/
structure AtRest (conf : Conf) (version0 : Int) (dinode0 : Nat) (s : Spool) (env : Envelope) (tgt : Dir)
    (i j : Nat) : Prop where
  dir : env.eDir ≠ .dead
  log : s.failed = []
  pair : Pair s env.eDir env.eId i j
  only : ∀ d, d ≠ env.eDir → s.names.lookup (efile d env.eId) = none
  slow : DirSound s .slow
  fast : DirSound s .fast
  loc : DirSound s .loc
  oneLevel : OneLevel conf version0 dinode0 s.data fun id a b =>
    Pair s .fast id a b ∨ (tgt = .fast ∧ id = env.eId ∧ a = i ∧ b = j)

theorem AtRest.eId_ne_nil (h : AtRest conf version0 dinode0 s env tgt i j) : env.eId ≠ [] := by
  have hmem : efile env.eDir env.eId ∈ s.names := Directory.mem_iff_lookup.mpr ⟨i, h.pair.1⟩
  have hname : QueueName ('E' :: env.eId) := by
    cases hd : env.eDir with
    | fast => exact h.fast.known _ hmem hd
    | slow => exact h.slow.known _ hmem hd
    | loc => exact h.loc.known _ hmem hd
    | dead => exact absurd hd h.dir
  cases hname with
  | efile hid => exact hid

theorem AtRest.recoverable (h : AtRest conf version0 dinode0 s env tgt i j)
    (ht : MoveStop s env tgt i j t) : Recoverable conf version0 dinode0 t := by
  have hid := h.eId_ne_nil
  refine ⟨ht.sound hid h.slow, ht.sound hid h.fast, ht.sound hid h.loc, ?_⟩
  rw [ht.data]
  exact ⟨fun id i' j' hf => h.oneLevel.readable id i' j' (ht.fast_pair h.pair hf),
    fun a i₁ j₁ b i₂ j₂ x y ha hb => h.oneLevel.level a i₁ j₁ b i₂ j₂ x y
      (ht.fast_pair h.pair ha) (ht.fast_pair h.pair hb)⟩

/-- Wherever the move stops, the message is nowhere complete but as it was. -/
theorem AtRest.pairOf_or (h : AtRest conf version0 dinode0 s env tgt i j)
    (ht : MoveStop s env tgt i j t) (d : Dir) :
    pairOf t d env.eId = none ∨ pairOf t d env.eId = some (i, j) := by
  by_cases hd : d = env.eDir ∨ d = tgt
  · rcases ht.efile_or hd with hno | hp
    · exact .inl (by simp [pairOf, hno])
    · exact .inr (pairOf_eq_some.mpr hp)
  · have hno : t.names.lookup (efile d env.eId) = none := by
      rw [(ht.other_dir (fun h' => hd (.inl h')) (fun h' => hd (.inr h')) _).1]
      exact h.only d fun h' => hd (.inl h')
    exact .inl (by simp [pairOf, hno])

/-- What the recovery leaves of the message: its own files, in the slow directory only. -/
theorem AtRest.recovered {u : Spool} (h : AtRest conf version0 dinode0 s env tgt i j)
    (htgt : tgt = .slow ∨ tgt = .fast) (ht : MoveStop s env tgt i j t) (hu : Recovered t u) :
    Pair u .slow env.eId i j ∧ u.names.lookup (efile .fast env.eId) = none ∧
      u.names.lookup (dfile .fast env.eId) = none ∧ u.names.lookup (efile .loc env.eId) = none := by
  refine ⟨?_, (hu.fast _).1, (hu.fast _).2, hu.loc _⟩
  rw [← pairOf_eq_some, hu.slow]
  have hsome : pairOf t .slow env.eId = some (i, j) ∨ pairOf t .fast env.eId = some (i, j) ∨
      pairOf t .loc env.eId = some (i, j) := by
    have hdir : ∀ d, d ≠ .dead → Pair t d env.eId i j → pairOf t .slow env.eId = some (i, j) ∨
        pairOf t .fast env.eId = some (i, j) ∨ pairOf t .loc env.eId = some (i, j) := by
      intro d hd hp
      cases d with
      | slow => exact .inl (pairOf_eq_some.mpr hp)
      | fast => exact .inr (.inl (pairOf_eq_some.mpr hp))
      | loc => exact .inr (.inr (pairOf_eq_some.mpr hp))
      | dead => exact absurd rfl hd
    rcases ht.complete with hp | hp
    · exact hdir _ h.dir hp
    · exact hdir _ (by rcases htgt with rfl | rfl <;> decide) hp
  rcases h.pairOf_or ht .slow with h₁ | h₁ <;> rcases h.pairOf_or ht .fast with h₂ | h₂ <;>
    rcases h.pairOf_or ht .loc with h₃ | h₃ <;> simp_all

/-- **A move between queue directories never loses the message.**  For every schedule of failures of
    its links and unlinks, `env_move` returns; its return value tells where the message is; at every
    point of the run one directory holds both files; and from every such point `q_cleanup` succeeds,
    for every order of the directory entries, and leaves the message in the slow directory only. -/
theorem envMove_survives_stop {stamp : Text} (horder : ∀ d l, (order d l).Perm l)
    (hc : conf.filesystemCleanup = true) (htgt : tgt = .slow ∨ tgt = .fast)
    (h : AtRest conf version0 dinode0 s env tgt i j) (bs : List Bool) :
    (∃ ret env' u, (envMove env tgt).run (Prog.scheduled (spool order) spoolFault) (s, bs) =
      (some (ret, env'), u) ∧ MoveDone env tgt i j ret u.1) ∧
    ∀ t ∈ (envMove env tgt).states (Prog.scheduled (spool order) spoolFault) (s, bs),
      (Pair t.1 env.eDir env.eId i j ∨ Pair t.1 tgt env.eId i j) ∧
      ∃ l u, (qCleanup conf stamp version0 dinode0).run (spool order) t.1 = (.done l, u) ∧
        Pair u .slow env.eId i j ∧ u.names.lookup (efile .fast env.eId) = none ∧
        u.names.lookup (dfile .fast env.eId) = none ∧ u.names.lookup (efile .loc env.eId) = none := by
  have hspec := (Prog.wpF_iff (spool order) _ _ _ _ _).mp
    (envMove_spec htgt h.pair fun hne => h.only tgt (Ne.symm hne)) bs
  obtain ⟨⟨ret, env', hret, hdone⟩, hstops⟩ := (Prog.wp_iff_run _ _ _ _ _).mp hspec
  refine ⟨⟨ret, env', _, Prod.ext hret rfl, hdone⟩, fun t ht => ?_⟩
  have hstop := hstops t ht
  obtain ⟨⟨l, hl⟩, hrec⟩ := qCleanup_spec stamp horder hc (h.recoverable hstop)
  exact ⟨hstop.complete, l, _, Prod.ext hl rfl, h.recovered htgt hstop hrec⟩

/-- One message in the fast directory. -/
def oneMessage : Spool where
  names := (AList.insert (efile .fast ['m']) 1 (AList.insert (dfile .fast ['m']) 2 ∅))
  data := fun i =>
    if i = 1 then
      ["V5".toList, "Em".toList, "I2".toList, "X0".toList, "J0".toList, "H".toList, "D0".toList,
        "Fa@b".toList, "Rc@d".toList]
    else []
  fresh := 3
  fastFiles := 1
  failed := []

/-- The configuration and the envelope of `oneMessage`. -/
def oneConf : Conf := { filesystemCleanup := true }
def oneEnv : Envelope := dirEnv oneConf .fast ['m'] true true

theorem lookup_oneMessage (p : Path) : oneMessage.names.lookup p =
    if p = efile .fast ['m'] then some 1 else if p = dfile .fast ['m'] then some 2 else none := by
  simp only [oneMessage, Directory.lookup_insert_ite, AList.lookup_empty]

theorem oneMessage_pair {id : Text} {a b : Nat} (h : Pair oneMessage .fast id a b) :
    id = ['m'] ∧ a = 1 ∧ b = 2 := by
  obtain ⟨hE, hD⟩ := h
  rw [lookup_oneMessage] at hE hD
  by_cases hid : id = ['m']
  · simp [hid] at hE hD
    exact ⟨hid, hE.symm, hD.symm⟩
  · simp [hid] at hE

theorem oneMessage_sound (d : Dir) : DirSound oneMessage d := by
  have hmem : ∀ p, p ∈ oneMessage.names ↔ p = efile .fast ['m'] ∨ p = dfile .fast ['m'] := by
    intro p
    rw [← AList.lookup_isSome, lookup_oneMessage]
    split
    · simp [*]
    · split <;> simp [*]
  constructor
  · intro p hp _
    rcases (hmem p).mp hp with rfl | rfl
    · exact .efile (by simp)
    · exact .dfile (by simp)
  · intro id hE
    rcases (hmem _).mp hE with h | h
    · obtain ⟨rfl, rfl⟩ := efile_inj.mp h
      exact (hmem _).mpr (.inr rfl)
    · exact absurd h (efile_ne_dfile _ _ _ _)

theorem oneMessage_atRest : AtRest oneConf 0 0 oneMessage oneEnv .slow 1 2 := by
  have hF : ∀ id a b, (Pair oneMessage .fast id a b ∨ (Dir.slow = .fast ∧ id = oneEnv.eId ∧ a = 1 ∧
      b = 2)) → id = ['m'] ∧ a = 1 ∧ b = 2 := by
    rintro id a b (h | ⟨h, -⟩)
    · exact oneMessage_pair h
    · cases h
  refine ⟨nofun, rfl, ⟨rfl, rfl⟩, fun d hd => ?_, oneMessage_sound _, oneMessage_sound _,
    oneMessage_sound _, fun id a b h => ?_, fun a i j b i' j' x y ha hb hx hy _ => ?_⟩
  · have hd' : d ≠ .fast := hd
    simp [lookup_oneMessage, hd']
  · obtain ⟨rfl, rfl, rfl⟩ := hF id a b h
    exact ⟨_, rfl⟩
  · obtain ⟨rfl, rfl, rfl⟩ := hF _ _ _ ha
    obtain ⟨rfl, rfl, rfl⟩ := hF _ _ _ hb
    rw [Except.ok.inj (hx.symm.trans hy)]

/-- The message of `oneMessage` moved to the slow directory, with the removal of the old Efile and
    then the rollback made to fail. -/
theorem envMove_survives_stop_oneMessage :
    (∃ ret env' u, (envMove oneEnv .slow).run (Prog.scheduled (spool fun _ l => l) spoolFault)
      (oneMessage, [false, false, false, true, true]) = (some (ret, env'), u) ∧
        MoveDone oneEnv .slow 1 2 ret u.1) ∧
    ∀ t ∈ (envMove oneEnv .slow).states (Prog.scheduled (spool fun _ l => l) spoolFault)
        (oneMessage, [false, false, false, true, true]),
      (Pair t.1 oneEnv.eDir oneEnv.eId 1 2 ∨ Pair t.1 .slow oneEnv.eId 1 2) ∧
      ∃ l u, (qCleanup oneConf [] 0 0).run (spool fun _ l => l) t.1 = (.done l, u) ∧
        Pair u .slow oneEnv.eId 1 2 ∧ u.names.lookup (efile .fast oneEnv.eId) = none ∧
        u.names.lookup (dfile .fast oneEnv.eId) = none ∧
        u.names.lookup (efile .loc oneEnv.eId) = none :=
  envMove_survives_stop (fun _ _ => .refl _) rfl (.inl rfl) oneMessage_atRest _

end CutShort

end Simta
