import Simta.QCleanup
import Mathlib.Data.List.Lex
import Mathlib.Data.Char

/-!
# What `q_dir_startup` reads

The list of messages of a directory, whatever the order of its entries.

* `noteFile_spec` — the sorted insertion of one file;
* `Scanned` — the invariant of the first loop, `scan_spec` its preservation over all entries;
* `qDirStartup_spec` — a directory with no foreign file and no lone Efile is read without error,
  the messages are those with an Efile, and the stranded files are gone.
-/

set_option autoImplicit false

namespace Simta

/-! ## Ids in order -/

theorem strcmp_lt {a b : Text} : strcmp a b = .lt ↔ a < b := by
  unfold strcmp
  split
  · rename_i h
    simp [h]
  · split <;> simp [*]

theorem strcmp_eq {a b : Text} : strcmp a b = .eq ↔ a = b := by
  unfold strcmp
  split
  · simp [*]
  · split <;> simp [*]

theorem strcmp_gt {a b : Text} : strcmp a b = .gt ↔ b < a := by
  unfold strcmp
  split
  · rename_i h
    simp [h]
  · rename_i h
    split
    · rename_i hlt
      simp [not_lt_of_gt hlt]
    · rename_i hlt
      simp only [true_iff]
      exact lt_of_le_of_ne (not_lt.mp hlt) (Ne.symm h)

/-- A list of messages strictly ordered by id. -/
def SortedIds (l : List Envelope) : Prop := l.Pairwise fun a b => a.eId < b.eId

/-- The ids of a list of messages. -/
def ids (l : List Envelope) : List Text := l.map Envelope.eId

@[simp] theorem ids_nil : ids [] = [] := rfl
@[simp] theorem ids_cons (e : Envelope) (l : List Envelope) : ids (e :: l) = e.eId :: ids l := rfl

theorem mem_ids {l : List Envelope} {id : Text} : id ∈ ids l ↔ ∃ e ∈ l, e.eId = id := List.mem_map

theorem SortedIds.lt {e : Envelope} {l : List Envelope} (h : SortedIds (e :: l)) {id : Text}
    (hid : id ∈ ids l) : e.eId < id := by
  obtain ⟨f, hf, rfl⟩ := mem_ids.mp hid
  exact (List.pairwise_cons.mp h).1 f hf

theorem SortedIds.tail {e : Envelope} {l : List Envelope} (h : SortedIds (e :: l)) : SortedIds l :=
  (List.pairwise_cons.mp h).2

theorem SortedIds.cons {e : Envelope} {l : List Envelope} (h : SortedIds l)
    (he : ∀ id ∈ ids l, e.eId < id) : SortedIds (e :: l) :=
  List.pairwise_cons.mpr ⟨fun f hf => he _ (mem_ids.mpr ⟨f, hf, rfl⟩), h⟩

theorem SortedIds.nodup {l : List Envelope} (h : SortedIds l) : (ids l).Nodup :=
  List.pairwise_map.mpr (h.imp ne_of_lt)

/-- In a sorted list the id determines the message. -/
theorem SortedIds.eq_of_id {l : List Envelope} (h : SortedIds l) {a b : Envelope} (ha : a ∈ l)
    (hb : b ∈ l) (hid : a.eId = b.eId) : a = b :=
  List.inj_on_of_nodup_map h.nodup ha hb hid

/-! ## The first loop -/

/-- The envelope of a message in a directory, with the files that were seen. -/
def dirEnv (conf : Conf) (dir : Dir) (id : Text) (e d : Bool) : Envelope :=
  ((envCreate conf dir id none none).setEfile e).setDfile d

@[simp] theorem dirEnv_eId (conf : Conf) (dir : Dir) (id : Text) (e d : Bool) :
    (dirEnv conf dir id e d).eId = id := rfl

@[simp] theorem dirEnv_eDir (conf : Conf) (dir : Dir) (id : Text) (e d : Bool) :
    (dirEnv conf dir id e d).eDir = dir := rfl

@[simp] theorem noteFlag_eId (isEfile : Bool) (env : Envelope) :
    (noteFlag isEfile env).eId = env.eId := by
  unfold noteFlag
  split <;> rfl

theorem noteFlag_dirEnv (isEfile : Bool) (conf : Conf) (dir : Dir) (id : Text) (e d : Bool) :
    noteFlag isEfile (dirEnv conf dir id e d) = dirEnv conf dir id (isEfile || e) (!isEfile || d) := by
  cases isEfile <;> rfl

section Scan

variable {conf : Conf} {stamp : Text} {dir : Dir}

theorem mem_ids_noteFile (isEfile : Bool) {id : Text} (hid : id ≠ []) (l : List Envelope) (x : Text) :
    x ∈ ids (noteFile conf stamp dir isEfile id l) ↔ x = id ∨ x ∈ ids l := by
  induction l with
  | nil => simp [noteFile, hid, envCreate]
  | cons env rest ih =>
    simp only [noteFile]
    split
    · simp only [ids_cons, List.mem_cons, ih]
      tauto
    · rename_i h
      have hid : id = env.eId := strcmp_eq.mp h
      simp [hid]
    · simp [hid, envCreate]

theorem sorted_noteFile (conf : Conf) (stamp : Text) (dir : Dir) (isEfile : Bool) {id : Text}
    (hid : id ≠ []) {l : List Envelope} (hl : SortedIds l) : SortedIds (noteFile conf stamp dir isEfile id l) := by
  induction l with
  | nil => exact List.pairwise_singleton _ _
  | cons env rest ih =>
    simp only [noteFile]
    split
    · rename_i h
      refine (ih hl.tail).cons fun x hx => ?_
      rcases (mem_ids_noteFile isEfile hid rest x).mp hx with rfl | hx
      · exact strcmp_gt.mp h
      · exact hl.lt hx
    · exact hl.tail.cons fun x hx => by simpa using hl.lt hx
    · rename_i h
      have hlt : id < env.eId := strcmp_lt.mp h
      refine hl.cons fun x hx => ?_
      simp only [noteFlag_eId, envCreate, if_neg hid]
      rcases List.mem_cons.mp hx with rfl | hx
      · exact hlt
      · exact hlt.trans (hl.lt hx)

/-- Other messages are left alone. -/
theorem mem_noteFile_of_ne (isEfile : Bool) {id : Text} (hid : id ≠ []) (l : List Envelope)
    {env : Envelope} (hne : env.eId ≠ id) :
    env ∈ noteFile conf stamp dir isEfile id l ↔ env ∈ l := by
  induction l with
  | nil =>
    simp only [noteFile, List.mem_singleton, List.not_mem_nil, iff_false]
    rintro rfl
    simp [envCreate, hid] at hne
  | cons e rest ih =>
    simp only [noteFile]
    split
    · simp only [List.mem_cons, ih]
    · rename_i h
      have hid' : id = e.eId := strcmp_eq.mp h
      have h₁ : env ≠ noteFlag isEfile e := by
        rintro rfl
        exact hne (by simp [hid'])
      have h₂ : env ≠ e := by
        rintro rfl
        exact hne hid'.symm
      simp [h₁, h₂]
    · have h₁ : env ≠ noteFlag isEfile (envCreate conf dir (if id = [] then stamp else id) none none) := by
        rintro rfl
        simp [envCreate, hid] at hne
      simp [h₁]

/-- The message of the file itself gets its flag, or is created with it. -/
theorem noteFile_self (isEfile : Bool) {id : Text} (hid : id ≠ []) {l : List Envelope}
    (hl : SortedIds l) {e d : Bool}
    (h : dirEnv conf dir id e d ∈ l ∨ id ∉ ids l ∧ e = false ∧ d = false) :
    dirEnv conf dir id (isEfile || e) (!isEfile || d) ∈ noteFile conf stamp dir isEfile id l := by
  have hnew : ∀ e d, e = false → d = false →
      dirEnv conf dir id (isEfile || e) (!isEfile || d) =
        noteFlag isEfile (envCreate conf dir (if id = [] then stamp else id) none none) := by
    rintro _ _ rfl rfl
    rw [if_neg hid]
    exact (noteFlag_dirEnv isEfile conf dir id false false).symm
  induction l with
  | nil =>
    simp only [List.not_mem_nil, false_or] at h
    simp only [noteFile, List.mem_singleton]
    exact hnew e d h.2.1 h.2.2
  | cons env rest ih =>
    simp only [noteFile]
    split
    · rename_i hgt
      have hne : id ≠ env.eId := ne_of_gt (strcmp_gt.mp hgt)
      refine List.mem_cons_of_mem _ (ih hl.tail ?_)
      rcases h with h | ⟨h, he, hd⟩
      · rcases List.mem_cons.mp h with rfl | h
        · exact absurd rfl hne
        · exact .inl h
      · exact .inr ⟨fun hx => h (List.mem_cons_of_mem _ hx), he, hd⟩
    · rename_i heq
      have hid' : id = env.eId := strcmp_eq.mp heq
      rcases h with h | ⟨h, -⟩
      · have : env = dirEnv conf dir id e d :=
          hl.eq_of_id List.mem_cons_self h (by simp [hid'])
        rw [this, noteFlag_dirEnv]
        exact List.mem_cons_self
      · exact absurd (by simp [hid']) h
    · rename_i hlt
      have hlt : id < env.eId := strcmp_lt.mp hlt
      rcases h with h | ⟨h, he, hd⟩
      · rcases List.mem_cons.mp h with rfl | h
        · exact absurd hlt (lt_irrefl _)
        · exact absurd (hlt.trans (hl.lt (mem_ids.mpr ⟨_, h, rfl⟩))) (lt_irrefl _)
      · rw [hnew e d he hd]
        exact List.mem_cons_self

/-- A name that the queue code gives to its files. -/
inductive QueueName : Text → Prop
  | efile {id : Text} (h : id ≠ []) : QueueName ('E' :: id)
  | dfile {id : Text} (h : id ≠ []) : QueueName ('D' :: id)
  | tfile (id : Text) : QueueName ('t' :: id)

/-- A message as the names seen so far show it. -/
def seenEnv (conf : Conf) (dir : Dir) (ns : List Text) (id : Text) : Envelope :=
  dirEnv conf dir id (decide ('E' :: id ∈ ns)) (decide ('D' :: id ∈ ns))

/-- The messages of the first loop, `ns` being the names read so far. -/
structure SeenAll (conf : Conf) (dir : Dir) (ns : List Text) (messages : List Envelope) : Prop where
  sorted : SortedIds messages
  mem : ∀ env, env ∈ messages ↔
    ∃ id, ('E' :: id ∈ ns ∨ 'D' :: id ∈ ns) ∧ env = seenEnv conf dir ns id

/-- The invariant of the first loop, `ns` being the names read so far. -/
structure Scanned (conf : Conf) (dir : Dir) (ns : List Text) (scan : DirScan) : Prop where
  sorted : SortedIds scan.messages
  mem : ∀ env, env ∈ scan.messages ↔
    ∃ id, ('E' :: id ∈ ns ∨ 'D' :: id ∈ ns) ∧ env = seenEnv conf dir ns id
  files : ∀ p, p ∈ scan.fList ↔ dir ≠ .loc ∧ p.dir = dir ∧ p.name ∈ ns ∧ p.name.head? = some 't'
  nodup : scan.fList.Nodup
  bad : scan.bad = false

theorem Scanned.nil : Scanned conf dir [] ⟨[], [], false⟩ :=
  ⟨List.Pairwise.nil, by simp, by simp, List.nodup_nil, rfl⟩

/-- The letter of a file. -/
def fileLetter (isEfile : Bool) : Char := if isEfile then 'E' else 'D'

theorem seenEnv_append_of_ne (isEfile : Bool) {ns : List Text} {id x : Text} (hx : x ≠ id) :
    seenEnv conf dir (ns ++ [fileLetter isEfile :: id]) x = seenEnv conf dir ns x := by
  cases isEfile <;> simp [seenEnv, fileLetter, hx]

theorem seenEnv_append_self (isEfile : Bool) (ns : List Text) (id : Text) :
    seenEnv conf dir (ns ++ [fileLetter isEfile :: id]) id =
      dirEnv conf dir id (isEfile || decide ('E' :: id ∈ ns)) (!isEfile || decide ('D' :: id ∈ ns)) := by
  cases isEfile <;> simp [seenEnv, fileLetter]

theorem seen_append {isEfile : Bool} {ns : List Text} {id x : Text} :
    ('E' :: x ∈ ns ++ [fileLetter isEfile :: id] ∨ 'D' :: x ∈ ns ++ [fileLetter isEfile :: id]) ↔
      x = id ∨ 'E' :: x ∈ ns ∨ 'D' :: x ∈ ns := by
  cases isEfile <;> simp [fileLetter] <;> tauto

/-- An Efile or a Dfile is noted. -/
theorem SeenAll.note {ns : List Text} {messages : List Envelope} (h : SeenAll conf dir ns messages)
    (stamp : Text) (isEfile : Bool) {id : Text} (hid : id ≠ []) :
    SeenAll conf dir (ns ++ [fileLetter isEfile :: id]) (noteFile conf stamp dir isEfile id messages) := by
  have hsorted := sorted_noteFile conf stamp dir isEfile hid h.sorted
  have hself : seenEnv conf dir (ns ++ [fileLetter isEfile :: id]) id ∈
      noteFile conf stamp dir isEfile id messages := by
    rw [seenEnv_append_self]
    refine noteFile_self isEfile hid h.sorted ?_
    by_cases hin : 'E' :: id ∈ ns ∨ 'D' :: id ∈ ns
    · exact .inl ((h.mem _).mpr ⟨id, hin, rfl⟩)
    · refine .inr ⟨fun hx => ?_, by simpa using fun hE => hin (.inl hE),
        by simpa using fun hD => hin (.inr hD)⟩
      obtain ⟨e, he, heid⟩ := mem_ids.mp hx
      obtain ⟨x, hx, rfl⟩ := (h.mem e).mp he
      exact hin (heid ▸ hx)
  refine ⟨hsorted, fun env => ?_⟩
  by_cases hne : env.eId = id
  · constructor
    · intro henv
      exact ⟨id, seen_append.mpr (.inl rfl), hsorted.eq_of_id henv hself hne⟩
    · rintro ⟨x, -, rfl⟩
      obtain rfl : x = id := hne
      exact hself
  · rw [mem_noteFile_of_ne isEfile hid _ hne, h.mem]
    constructor
    · rintro ⟨x, hx, rfl⟩
      exact ⟨x, seen_append.mpr (.inr hx), (seenEnv_append_of_ne isEfile hne).symm⟩
    · rintro ⟨x, hx, rfl⟩
      exact ⟨x, (seen_append.mp hx).resolve_left hne, seenEnv_append_of_ne isEfile hne⟩

/-- An Efile or a Dfile keeps the invariant. -/
theorem Scanned.note {ns : List Text} {scan : DirScan} (h : Scanned conf dir ns scan)
    (stamp : Text) (isEfile : Bool) {id : Text} (hid : id ≠ []) :
    Scanned conf dir (ns ++ [fileLetter isEfile :: id])
      { scan with messages := noteFile conf stamp dir isEfile id scan.messages } := by
  have hseen := SeenAll.note ⟨h.sorted, h.mem⟩ stamp isEfile hid
  refine ⟨hseen.sorted, hseen.mem, fun p => ?_, h.nodup, h.bad⟩
  rw [h.files]
  have hletter : p.name = fileLetter isEfile :: id → p.name.head? ≠ some 't' := by
    intro hp
    rw [hp]
    cases isEfile <;> simp [fileLetter]
  simp only [List.mem_append, List.mem_singleton]
  tauto

/-- One entry keeps the invariant. -/
theorem Scanned.entry (hc : conf.filesystemCleanup = true) {ns : List Text} {scan : DirScan}
    (h : Scanned conf dir ns scan) (stamp : Text) {name : Text} (hn : QueueName name) (hfresh : name ∉ ns) :
    Scanned conf dir (ns ++ [name]) (dirEntry conf stamp dir .clean scan name) := by
  cases hn with
  | efile hid => simpa [dirEntry, fileLetter] using h.note stamp true hid
  | dfile hid => simpa [dirEntry, fileLetter] using h.note stamp false hid
  | tfile id =>
    have hmem : ∀ env, env ∈ scan.messages ↔
        ∃ x, ('E' :: x ∈ ns ++ ['t' :: id] ∨ 'D' :: x ∈ ns ++ ['t' :: id]) ∧
          env = seenEnv conf dir (ns ++ ['t' :: id]) x := by
      intro env
      rw [h.mem]
      simp [seenEnv]
    by_cases hloc : dir = .loc
    · simp only [dirEntry, hloc]
      refine ⟨h.sorted, hloc ▸ hmem, fun p => ?_, h.nodup, h.bad⟩
      simp [h.files, hloc]
    · have hnew : (⟨dir, 't' :: id⟩ : Path) ∉ scan.fList := fun hp => hfresh ((h.files _).mp hp).2.2.1
      have hentry : dirEntry conf stamp dir .clean scan ('t' :: id) =
          { scan with fList := ⟨dir, 't' :: id⟩ :: scan.fList } := by
        simp [dirEntry, hloc, hc, h.bad]
      rw [hentry]
      refine ⟨h.sorted, hmem, fun p => ?_, List.nodup_cons.mpr ⟨hnew, h.nodup⟩, h.bad⟩
      rw [List.mem_cons, h.files, List.mem_append, List.mem_singleton]
      constructor
      · rintro (rfl | ⟨h₁, h₂, h₃, h₄⟩)
        · exact ⟨hloc, rfl, .inr rfl, rfl⟩
        · exact ⟨h₁, h₂, .inl h₃, h₄⟩
      · rintro ⟨h₁, h₂, h₃ | h₃, h₄⟩
        · exact .inr ⟨h₁, h₂, h₃, h₄⟩
        · obtain ⟨pd, pn⟩ := p
          exact .inl (by simp_all)

/-- All entries, in any order, with `.` and `..` among them. -/
theorem scan_spec (hc : conf.filesystemCleanup = true) (stamp : Text) :
    ∀ (names : List Text) {ns : List Text} {scan : DirScan}, Scanned conf dir ns scan →
      (∀ n ∈ names, n = ['.'] ∨ n = ['.', '.'] ∨ QueueName n) → (ns ++ names).Nodup →
      ∃ ns', Scanned conf dir ns' (names.foldl (dirEntry conf stamp dir .clean) scan) ∧
        ∀ n, n ∈ ns' ↔ n ∈ ns ∨ n ∈ names ∧ QueueName n
  | [], ns, scan, h, _, _ => ⟨ns, h, by simp⟩
  | name :: names, ns, scan, h, hnames, hnodup => by
    have hrest : ∀ n ∈ names, n = ['.'] ∨ n = ['.', '.'] ∨ QueueName n :=
      fun n hn => hnames n (List.mem_cons_of_mem _ hn)
    by_cases hq : QueueName name
    · have hfresh : name ∉ ns := fun hin =>
        (List.nodup_append.mp hnodup).2.2 name hin name List.mem_cons_self rfl
      obtain ⟨ns', hscan, hmem⟩ := scan_spec hc stamp names (h.entry hc stamp hq hfresh) hrest
        (by simpa using hnodup)
      refine ⟨ns', hscan, fun n => ?_⟩
      rw [hmem]
      simp only [List.mem_append, List.mem_cons, List.not_mem_nil, or_false]
      constructor
      · rintro ((hn | rfl) | hn)
        · exact .inl hn
        · exact .inr ⟨.inl rfl, hq⟩
        · exact .inr ⟨.inr hn.1, hn.2⟩
      · rintro (hn | ⟨rfl | hn, hn'⟩)
        · exact .inl (.inl hn)
        · exact .inl (.inr rfl)
        · exact .inr ⟨hn, hn'⟩
    · have hdot : name = ['.'] ∨ name = ['.', '.'] := by
        rcases hnames name List.mem_cons_self with h | h | h
        · exact .inl h
        · exact .inr h
        · exact absurd h hq
      have hskip : dirEntry conf stamp dir .clean scan name = scan := by
        unfold dirEntry
        rw [if_pos hdot]
      obtain ⟨ns', hscan, hmem⟩ := scan_spec hc stamp names h hrest
        (hnodup.sublist (by simp))
      refine ⟨ns', by rwa [List.foldl_cons, hskip], fun n => ?_⟩
      rw [hmem, List.mem_cons]
      constructor
      · rintro (hn | hn)
        · exact .inl hn
        · exact .inr ⟨.inr hn.1, hn.2⟩
      · rintro (hn | ⟨rfl | hn, hn'⟩)
        · exact .inl hn
        · exact absurd hn' hq
        · exact .inr ⟨hn, hn'⟩

end Scan

/-! ## The other two loops -/

/-- When every message has its Dfile, the second loop keeps those with an Efile and puts the Dfiles
    of the others on the list of files to unlink; in `local` they are only reported. -/
theorem dirOrphans_eq {conf : Conf} (hc : conf.filesystemCleanup = true) (dir : Dir) :
    ∀ (l : List Envelope) (fList : List Path), (∀ e ∈ l, e.eFlags.dfile = true) →
      dirOrphans conf dir l fList false =
        ⟨l.filter (·.eFlags.efile),
          if dir = .loc then fList
          else ((l.filter (!·.eFlags.efile)).map fun e => dfile dir e.eId).reverse ++ fList, false⟩
  | [], fList, _ => by simp [dirOrphans]
  | env :: rest, fList, h => by
    have henv : env.eFlags.dfile = true := h env List.mem_cons_self
    have hrest : ∀ e ∈ rest, e.eFlags.dfile = true := fun e he => h e (List.mem_cons_of_mem _ he)
    unfold dirOrphans
    by_cases hE : env.eFlags.efile = true
    · simp [henv, hE, dirOrphans_eq hc dir rest fList hrest]
    · by_cases hloc : dir = .loc
      · simp [henv, hE, hloc, dirOrphans_eq hc .loc rest fList hrest]
      · simp [henv, hE, hloc, hc, dirOrphans_eq hc dir rest _ hrest]

theorem unlinkFiles_spec {order : Dir → List Text → List Text} :
    ∀ (l : List Path) (s : Spool), l.Nodup → (∀ p ∈ l, p ∈ s.names) →
      (unlinkFiles l).ends (spool order) (fun r t => r = true ∧ t.data = s.data ∧
        ∀ p, t.names.lookup p = if p ∈ l then none else s.names.lookup p) s
  | [], s, _, _ => ⟨rfl, rfl, by simp [Prog.run, unlinkFiles]⟩
  | p :: rest, s, hnodup, hmem => by
    obtain ⟨hp, hrest⟩ := List.nodup_cons.mp hnodup
    obtain ⟨i, hi⟩ := Directory.mem_iff_lookup.mp (hmem p List.mem_cons_self)
    refine ends_unlink hi (Prog.ends_mono (unlinkFiles_spec rest _ hrest fun q hq => ?_) ?_)
    · have hqp : q ≠ p := fun h => hp (h ▸ hq)
      exact AList.mem_erase.mpr ⟨hqp, hmem q (List.mem_cons_of_mem _ hq)⟩
    · rintro r t ⟨hr, hdata, hlookup⟩
      refine ⟨hr, hdata, fun q => ?_⟩
      rw [hlookup, Spool.setNames_names, Directory.lookup_erase_ite]
      by_cases hq : q = p
      · simp [hq]
      · simp [hq]

/-! ## `q_dir_startup` -/

/-- A directory that `q_dir_startup` finds nothing wrong with: no foreign file, and no Efile
    without its Dfile. -/
structure DirSound (s : Spool) (dir : Dir) : Prop where
  known : ∀ p ∈ s.names, p.dir = dir → QueueName p.name
  dfiles : ∀ id, efile dir id ∈ s.names → dfile dir id ∈ s.names

/-- The list of messages of a directory. -/
structure Listed (conf : Conf) (s : Spool) (dir : Dir) (l : List Envelope) : Prop where
  sorted : SortedIds l
  mem : ∀ env, env ∈ l ↔ ∃ id, efile dir id ∈ s.names ∧ env = dirEnv conf dir id true true

/-- A file that `q_dir_startup` unlinks: a temporary file, or a Dfile without its Efile. -/
def Stranded (s : Spool) (dir : Dir) (p : Path) : Prop :=
  dir ≠ .loc ∧ p.dir = dir ∧
    (p.name.head? = some 't' ∨ ∃ id, p = dfile dir id ∧ efile dir id ∉ s.names)

/-- The spool after the stranded files of a directory are gone. -/
structure Swept (s : Spool) (dir : Dir) (t : Spool) : Prop where
  data : t.data = s.data
  gone : ∀ p, Stranded s dir p → t.names.lookup p = none
  kept : ∀ p, ¬ Stranded s dir p → t.names.lookup p = s.names.lookup p

theorem mem_listing {s : Spool} {dir : Dir} {n : Text} :
    n ∈ s.listing dir ↔ n = ['.'] ∨ n = ['.', '.'] ∨ (⟨dir, n⟩ : Path) ∈ s.names := by
  simp only [Spool.listing, List.mem_cons, List.mem_map, List.mem_filter, decide_eq_true_eq,
    AList.mem_keys]
  constructor
  · rintro (h | h | ⟨p, ⟨hp, rfl⟩, rfl⟩)
    · exact .inl h
    · exact .inr (.inl h)
    · exact .inr (.inr hp)
  · rintro (h | h | h)
    · exact .inl h
    · exact .inr (.inl h)
    · exact .inr (.inr ⟨_, ⟨h, rfl⟩, rfl⟩)

theorem not_queueName_dot : ¬ QueueName ['.'] := nofun

theorem not_queueName_dotdot : ¬ QueueName ['.', '.'] := nofun

theorem nodup_listing {s : Spool} {dir : Dir} (h : DirSound s dir) : (s.listing dir).Nodup := by
  have hnames : ∀ n ∈ ((s.names.keys.filter (·.dir = dir)).map Path.name), QueueName n := by
    simp only [List.mem_map, List.mem_filter, decide_eq_true_eq]
    rintro n ⟨p, ⟨hp, hd⟩, rfl⟩
    exact h.known p (AList.mem_keys.mpr hp) hd
  have hmap : ((s.names.keys.filter (·.dir = dir)).map Path.name).Nodup := by
    refine (s.names.keys_nodup.filter _).map_on ?_
    simp only [List.mem_filter, decide_eq_true_eq]
    rintro ⟨_, a⟩ ⟨-, rfl⟩ ⟨_, b⟩ ⟨-, hb⟩ hab
    simp only at hb hab
    rw [hb, hab]
  refine List.nodup_cons.mpr ⟨?_, List.nodup_cons.mpr ⟨?_, hmap⟩⟩
  · rw [List.mem_cons]
    rintro (hd | hd)
    · simp at hd
    · exact not_queueName_dot (hnames _ hd)
  · exact fun hd => not_queueName_dotdot (hnames _ hd)

section Startup

variable {conf : Conf} {s : Spool} {dir : Dir}

/-- The messages of the first loop when it has read the whole directory. -/
theorem seenEnv_of_sound {ns : List Text} (hs : DirSound s dir)
    (hns : ∀ n, n ∈ ns ↔ (⟨dir, n⟩ : Path) ∈ s.names) {id : Text}
    (hid : 'E' :: id ∈ ns ∨ 'D' :: id ∈ ns) :
    seenEnv conf dir ns id = dirEnv conf dir id (decide (efile dir id ∈ s.names)) true := by
  have hD : 'D' :: id ∈ ns := by
    rcases hid with hE | hD
    · exact (hns _).mpr (hs.dfiles id ((hns _).mp hE))
    · exact hD
  simp only [seenEnv, hD, decide_true]
  exact congrArg (dirEnv conf dir id · true) (decide_eq_decide.mpr (hns _))

theorem listed_of_scanned {ns : List Text} {scan : DirScan} (hs : DirSound s dir)
    (hscan : Scanned conf dir ns scan) (hns : ∀ n, n ∈ ns ↔ (⟨dir, n⟩ : Path) ∈ s.names) :
    Listed conf s dir (scan.messages.filter (·.eFlags.efile)) := by
  refine ⟨hscan.sorted.filter _, fun env => ?_⟩
  rw [List.mem_filter, hscan.mem]
  constructor
  · rintro ⟨⟨id, hid, rfl⟩, hflag⟩
    rw [seenEnv_of_sound hs hns hid] at hflag ⊢
    have hE : efile dir id ∈ s.names := by simpa [dirEnv, Envelope.setDfile, Envelope.setEfile] using hflag
    exact ⟨id, hE, by simp [hE]⟩
  · rintro ⟨id, hE, rfl⟩
    have hid : 'E' :: id ∈ ns := (hns _).mpr hE
    refine ⟨⟨id, .inl hid, ?_⟩, rfl⟩
    rw [seenEnv_of_sound hs hns (.inl hid)]
    simp [hE]

/-- The files to unlink after both loops are the stranded ones. -/
theorem mem_fList_iff {ns : List Text} {scan : DirScan} (hs : DirSound s dir)
    (hscan : Scanned conf dir ns scan) (hns : ∀ n, n ∈ ns ↔ (⟨dir, n⟩ : Path) ∈ s.names) (p : Path) :
    p ∈ (if dir = .loc then scan.fList
      else ((scan.messages.filter (!·.eFlags.efile)).map fun e => dfile dir e.eId).reverse ++
        scan.fList) ↔ p ∈ s.names ∧ Stranded s dir p := by
  have hfiles : p ∈ scan.fList ↔
      dir ≠ .loc ∧ p.dir = dir ∧ p ∈ s.names ∧ p.name.head? = some 't' := by
    rw [hscan.files]
    constructor
    · rintro ⟨h₁, rfl, h₃, h₄⟩
      exact ⟨h₁, rfl, (hns _).mp h₃, h₄⟩
    · rintro ⟨h₁, rfl, h₃, h₄⟩
      exact ⟨h₁, rfl, (hns _).mpr h₃, h₄⟩
  by_cases hloc : dir = .loc
  · simp [hloc, hscan.files, Stranded]
  · have horphan : (∃ e ∈ scan.messages.filter (!·.eFlags.efile), dfile dir e.eId = p) ↔
        ∃ id, p = dfile dir id ∧ p ∈ s.names ∧ efile dir id ∉ s.names := by
      simp only [List.mem_filter, hscan.mem]
      constructor
      · rintro ⟨e, ⟨⟨id, hid, rfl⟩, hflag⟩, rfl⟩
        rw [seenEnv_of_sound hs hns hid] at hflag
        have hE : efile dir id ∉ s.names := by
          simpa [dirEnv, Envelope.setDfile, Envelope.setEfile] using hflag
        refine ⟨id, rfl, ?_, hE⟩
        rcases hid with h | h
        · exact absurd ((hns _).mp h) hE
        · exact (hns _).mp h
      · rintro ⟨id, rfl, hD, hE⟩
        have hid : 'D' :: id ∈ ns := (hns _).mpr hD
        refine ⟨_, ⟨⟨id, .inr hid, rfl⟩, ?_⟩, rfl⟩
        rw [seenEnv_of_sound hs hns (.inr hid)]
        simp [dirEnv, Envelope.setDfile, Envelope.setEfile, hE]
    rw [if_neg hloc, List.mem_append, List.mem_reverse, List.mem_map, horphan, hfiles]
    constructor
    · rintro (⟨id, rfl, hD, hE⟩ | ⟨h₁, h₂, h₃, h₄⟩)
      · exact ⟨hD, hloc, rfl, .inr ⟨id, rfl, hE⟩⟩
      · exact ⟨h₃, h₁, h₂, .inl h₄⟩
    · rintro ⟨hp, -, hd, ht | ⟨id, rfl, hE⟩⟩
      · exact .inr ⟨hloc, hd, hp, ht⟩
      · exact .inl ⟨id, rfl, hp, hE⟩

theorem nodup_fList {ns : List Text} {scan : DirScan} (hscan : Scanned conf dir ns scan) :
    (if dir = .loc then scan.fList
      else ((scan.messages.filter (!·.eFlags.efile)).map fun e => dfile dir e.eId).reverse ++
        scan.fList).Nodup := by
  split
  · exact hscan.nodup
  · refine List.nodup_append.mpr ⟨List.nodup_reverse.mpr ?_, hscan.nodup, ?_⟩
    · have hids := hscan.sorted.nodup.sublist
        ((List.filter_sublist (l := scan.messages) (p := (!·.eFlags.efile))).map Envelope.eId)
      have := hids.map (f := dfile dir) fun a b h => (dfile_inj.mp h).2
      simpa [List.map_map, Function.comp_def] using this
    · rintro p hp q hq rfl
      obtain ⟨e, -, rfl⟩ := List.mem_map.mp (List.mem_reverse.mp hp)
      have := ((hscan.files _).mp hq).2.2.2
      simp [dfile] at this

/-- **`q_dir_startup` on a sound directory**: it succeeds whatever the order of the entries, the
    list is that of the messages with an Efile, and the stranded files are gone. -/
theorem qDirStartup_spec {order : Dir → List Text → List Text} {stamp : Text}
    (horder : ∀ d l, (order d l).Perm l) (hc : conf.filesystemCleanup = true) (hs : DirSound s dir) :
    (qDirStartup conf stamp dir .clean).ends (spool order)
      (fun r t => ∃ l, r = .done l ∧ Listed conf s dir l ∧ Swept s dir t) s := by
  have hnodup : (order dir (s.listing dir)).Nodup := (horder _ _).nodup_iff.mpr (nodup_listing hs)
  have hnames : ∀ n ∈ order dir (s.listing dir), n = ['.'] ∨ n = ['.', '.'] ∨ QueueName n := by
    intro n hn
    rcases mem_listing.mp ((horder _ _).mem_iff.mp hn) with h | h | h
    · exact .inl h
    · exact .inr (.inl h)
    · exact .inr (.inr (hs.known _ h rfl))
  have hstart : Scanned conf dir [] ⟨[], [], false⟩ := .nil
  obtain ⟨ns, hscan, hns⟩ := scan_spec hc stamp _ hstart hnames (by simpa using hnodup)
  have hns' : ∀ n, n ∈ ns ↔ (⟨dir, n⟩ : Path) ∈ s.names := by
    intro n
    rw [hns, (horder _ _).mem_iff, mem_listing]
    constructor
    · rintro (h | ⟨rfl | rfl | h, hq⟩)
      · simp at h
      · exact absurd hq not_queueName_dot
      · exact absurd hq not_queueName_dotdot
      · exact h
    · exact fun h => .inr ⟨.inr (.inr h), hs.known _ h rfl⟩
  have hdfile : ∀ e ∈ ((order dir (s.listing dir)).foldl (dirEntry conf stamp dir .clean)
      ⟨[], [], false⟩).messages, e.eFlags.dfile = true := by
    intro e he
    obtain ⟨id, hid, rfl⟩ := (hscan.mem e).mp he
    rw [seenEnv_of_sound hs hns' hid]
    rfl
  unfold qDirStartup
  refine ends_opendir (ends_readdir (ends_closedir ?_))
  simp only [hscan.bad, Bool.or_false, dirOrphans_eq hc dir _ _ hdfile]
  refine Prog.ends_seq (unlinkFiles_spec _ s (nodup_fList hscan) fun p hp =>
    ((mem_fList_iff hs hscan hns' p).mp hp).1) ?_
  rintro r t ⟨rfl, hdata, hlookup⟩
  refine Prog.ends_ret ⟨_, rfl, listed_of_scanned hs hscan hns', hdata, fun p hp => ?_, fun p hp => ?_⟩
  · by_cases hin : p ∈ s.names
    · rw [hlookup, if_pos ((mem_fList_iff hs hscan hns' p).mpr ⟨hin, hp⟩)]
    · rw [hlookup, if_neg fun h => hin ((mem_fList_iff hs hscan hns' p).mp h).1]
      exact Directory.not_mem_iff_lookup.mp hin
  · rw [hlookup, if_neg fun hin => hp ((mem_fList_iff hs hscan hns' p).mp hin).2]

end Startup

end Simta
