import Simta.Lib.World
import Simta.SlowMerge

/-!
# Reading and merging the directories at startup

What `q_dir_startup` makes of any directory content in any order, and what `q_move_to_slow` makes of any two sorted lists,
whatever the calls answer and whether files are cleaned up or not.

* `Foreign`, `CleanDir`, `Complete` — a file the queue does not know, a directory without one, the list of its messages;
* `moveAll` — what is done with each message of the other list; `mergeIds` — one list from two;
* `qMoveToSlow_eq` — the code does the first and leaves the second.
-/

set_option autoImplicit false

namespace Simta

/-! ## One directory -/

section Startup

variable {conf : Conf} {stamp : Text} {dir : Dir}

/-- A name that `q_dir_startup` finds fault with. -/
def Foreign (conf : Conf) (dir : Dir) (name : Text) : Prop :=
  name ≠ ['.'] ∧ name ≠ ['.', '.'] ∧ name.head? ≠ some 'E' ∧ name.head? ≠ some 'D' ∧
    (name.head? = some 't' → dir ≠ .loc ∧ conf.filesystemCleanup = false)

/-- A directory it finds no fault with: no foreign file, no Efile without its Dfile, and Dfiles without their Efile only where
    they are cleaned up or left alone. -/
structure CleanDir (conf : Conf) (dir : Dir) (names : List Text) : Prop where
  known : ∀ n ∈ names, ¬Foreign conf dir n
  dfiles : ∀ id, 'E' :: id ∈ names → 'D' :: id ∈ names
  efiles : dir = .loc ∨ conf.filesystemCleanup = true ∨ ∀ id, 'D' :: id ∈ names → 'E' :: id ∈ names

/-- The list of the messages of a directory: in strict order, those with both files. -/
def Complete (names : List Text) (l : List Envelope) : Prop :=
  SortedIds l ∧ ∀ id, id ∈ ids l ↔ 'E' :: id ∈ names ∧ 'D' :: id ∈ names

/-- A name that is neither an Efile nor a Dfile shows no message. -/
theorem SeenAll.skip {ns : List Text} {messages : List Envelope} (h : SeenAll conf dir ns messages) {name : Text}
    (hE : name.head? ≠ some 'E') (hD : name.head? ≠ some 'D') : SeenAll conf dir (ns ++ [name]) messages := by
  have hsame : ∀ c id, (c = 'E' ∨ c = 'D') → (c :: id ∈ ns ++ [name] ↔ c :: id ∈ ns) := by
    intro c id hc
    rw [List.mem_append, List.mem_singleton, or_iff_left]
    rintro rfl
    obtain rfl | rfl := hc
    · exact hE rfl
    · exact hD rfl
  refine ⟨h.sorted, fun env => ?_⟩
  simp only [h.mem, seenEnv, hsame _ _ (.inl rfl), hsame _ _ (.inr rfl)]

/-- What one entry does. -/
theorem dirEntry_cases (scan : DirScan) (name : Text) :
    (∃ isEfile id, name = fileLetter isEfile :: id ∧ dirEntry conf stamp dir .clean scan name =
      { scan with messages := noteFile conf stamp dir isEfile id scan.messages }) ∨
    (name.head? ≠ some 'E' ∧ name.head? ≠ some 'D' ∧
      (dirEntry conf stamp dir .clean scan name).messages = scan.messages ∧
      ((dirEntry conf stamp dir .clean scan name).bad = true ↔ scan.bad = true ∨ Foreign conf dir name)) := by
  unfold dirEntry
  by_cases hdot : name = ['.'] ∨ name = ['.', '.']
  · right
    rw [if_pos hdot]
    obtain rfl | rfl := hdot <;> simp [Foreign]
  · obtain ⟨hdot₁, hdot₂⟩ := not_or.mp hdot
    rw [if_neg hdot, if_neg (by decide)]
    split
    · rename_i id
      exact .inl ⟨true, id, rfl, rfl⟩
    · rename_i id
      exact .inl ⟨false, id, rfl, rfl⟩
    · rename_i id
      right
      by_cases hloc : dir = .loc
      · simp [hloc, Foreign]
      · by_cases hc : conf.filesystemCleanup
        · cases hbad : scan.bad <;> simp [hloc, hc, Foreign, hbad]
        · simp [hloc, hc, Foreign]
    · rename_i hE hD ht
      right
      have hhead : ∀ c, (∀ id, name = c :: id → False) → name.head? ≠ some c := by
        intro c hc hhead
        obtain ⟨id, hid⟩ := List.head?_eq_some_iff.mp hhead
        exact hc id hid
      refine ⟨hhead _ hE, hhead _ hD, rfl, iff_of_true rfl (.inr ⟨hdot₁, hdot₂, hhead _ hE, hhead _ hD, ?_⟩)⟩
      exact fun h => absurd h (hhead _ ht)

theorem not_foreign_letter (isEfile : Bool) (id : Text) : ¬Foreign conf dir (fileLetter isEfile :: id) := by
  rintro ⟨-, -, hE, hD, -⟩
  cases isEfile
  · exact hD rfl
  · exact hE rfl

/-- **The first loop**, over all entries in any order. -/
theorem scan_seen (names : List Text) : ∀ {ns : List Text} {scan : DirScan}, SeenAll conf dir ns scan.messages →
    (∀ n ∈ names, n ≠ ['E'] ∧ n ≠ ['D']) →
    SeenAll conf dir (ns ++ names) (names.foldl (dirEntry conf stamp dir .clean) scan).messages ∧
      ((names.foldl (dirEntry conf stamp dir .clean) scan).bad = true ↔
        scan.bad = true ∨ ∃ n ∈ names, Foreign conf dir n) := by
  induction names with
  | nil => exact fun h _ => ⟨by simpa using h, by simp⟩
  | cons name names ih =>
    intro ns scan h hnames
    have hrest : ∀ n ∈ names, n ≠ ['E'] ∧ n ≠ ['D'] := fun n hn => hnames n (List.mem_cons_of_mem _ hn)
    have hjoin : ns ++ name :: names = (ns ++ [name]) ++ names := by simp
    rw [List.foldl_cons, hjoin]
    obtain ⟨isEfile, id, rfl, hentry⟩ | ⟨hE, hD, hsame, hbad⟩ := @dirEntry_cases conf stamp dir scan name
    · have hid : id ≠ [] := by
        rintro rfl
        obtain ⟨hE, hD⟩ := hnames _ List.mem_cons_self
        cases isEfile
        · exact hD rfl
        · exact hE rfl
      have hnext := h.note stamp isEfile hid
      rw [hentry]
      obtain ⟨hseen, hbad⟩ := @ih _ { scan with messages := noteFile conf stamp dir isEfile id scan.messages }
        hnext hrest
      refine ⟨hseen, hbad.trans ?_⟩
      simp [not_foreign_letter]
    · obtain ⟨hseen, hbad'⟩ := @ih _ (dirEntry conf stamp dir .clean scan name) (hsame ▸ h.skip hE hD) hrest
      refine ⟨hseen, hbad'.trans ?_⟩
      simp [hbad, or_assoc]

/-- The second loop keeps the messages with both files. -/
theorem dirOrphans_messages (l : List Envelope) (fList : List Path) (bad : Bool) :
    (dirOrphans conf dir l fList bad).messages = l.filter fun e => e.eFlags.dfile && e.eFlags.efile := by
  induction l generalizing fList bad with
  | nil => rfl
  | cons env rest ih =>
    unfold dirOrphans
    cases hd : env.eFlags.dfile with
    | false => simp [hd, ih]
    | true =>
      cases he : env.eFlags.efile with
      | false =>
        by_cases hloc : dir = .loc
        · subst hloc
          simp [he, ih]
        · by_cases hc : conf.filesystemCleanup = true ∧ bad = false <;> simp [he, hloc, hc, ih]
      | true => simp [hd, he, ih]

/-- It finds fault with a lone Efile, and with a lone Dfile that is neither cleaned up nor left alone. -/
theorem dirOrphans_bad (l : List Envelope) (fList : List Path) (bad : Bool) :
    (dirOrphans conf dir l fList bad).bad = true ↔ bad = true ∨ ∃ e ∈ l, e.eFlags.dfile = false ∨
      (e.eFlags.efile = false ∧ dir ≠ .loc ∧ conf.filesystemCleanup = false) := by
  induction l generalizing fList bad with
  | nil => simp [dirOrphans]
  | cons env rest ih =>
    unfold dirOrphans
    cases hd : env.eFlags.dfile with
    | false => simp [hd, ih]
    | true =>
      cases he : env.eFlags.efile with
      | true => simp [hd, he, ih]
      | false =>
        by_cases hloc : dir = .loc
        · subst hloc
          simpa [hd] using ih fList bad
        · by_cases hc : conf.filesystemCleanup
          · cases bad <;> simp [hd, hloc, hc, ih]
          · simp [hd, he, hloc, hc, ih]

/-- The messages with both files. -/
theorem complete_of_seen {names : List Text} {l : List Envelope} (h : SeenAll conf dir names l) :
    Complete names (l.filter fun e => e.eFlags.dfile && e.eFlags.efile) := by
  refine ⟨h.sorted.filter _, fun id => ?_⟩
  rw [mem_ids]
  constructor
  · rintro ⟨env, hmem, rfl⟩
    obtain ⟨hmem, hflags⟩ := List.mem_filter.mp hmem
    obtain ⟨id, -, rfl⟩ := (h.mem env).mp hmem
    show 'E' :: id ∈ names ∧ 'D' :: id ∈ names
    simpa [seenEnv, dirEnv, Envelope.setDfile, Envelope.setEfile, and_comm] using hflags
  · rintro ⟨hE, hD⟩
    refine ⟨seenEnv conf dir names id, List.mem_filter.mpr ⟨(h.mem _).mpr ⟨id, .inl hE, rfl⟩, ?_⟩, rfl⟩
    simp [seenEnv, dirEnv, Envelope.setDfile, Envelope.setEfile, hE, hD]

/-- The first two loops find no fault just with a clean directory. -/
theorem startup_bad {names : List Text} (hnames : ∀ n ∈ names, n ≠ ['E'] ∧ n ≠ ['D']) (fList : List Path) :
    let scan := names.foldl (dirEntry conf stamp dir .clean) ⟨[], [], false⟩
    (scan.bad = false ∧ (dirOrphans conf dir scan.messages fList false).bad = false) ↔ CleanDir conf dir names := by
  have hstart : SeenAll conf dir [] [] := ⟨List.Pairwise.nil, by simp⟩
  obtain ⟨hseen, hbad⟩ := @scan_seen conf stamp dir names [] ⟨[], [], false⟩ hstart hnames
  rw [List.nil_append] at hseen
  simp only [← Bool.not_eq_true, hbad, dirOrphans_bad]
  constructor
  · rintro ⟨hknown, hgood⟩
    obtain ⟨-, hgood⟩ := not_or.mp hgood
    refine ⟨fun n hn hf => hknown (.inr ⟨n, hn, hf⟩), fun id hE => ?_, ?_⟩
    · by_contra hD
      refine hgood ⟨_, (hseen.mem _).mpr ⟨id, .inl hE, rfl⟩, .inl ?_⟩
      simp [seenEnv, dirEnv, Envelope.setDfile, Envelope.setEfile, hD]
    · by_cases hloc : dir = .loc
      · exact .inl hloc
      · by_cases hc : conf.filesystemCleanup = true
        · exact .inr (.inl hc)
        · refine .inr (.inr fun id hD => ?_)
          by_contra hE
          refine hgood ⟨_, (hseen.mem _).mpr ⟨id, .inr hD, rfl⟩, .inr ⟨?_, hloc, by simpa using hc⟩⟩
          simp [seenEnv, dirEnv, Envelope.setDfile, Envelope.setEfile, hE]
  · rintro ⟨hknown, hdfiles, hefiles⟩
    refine ⟨?_, ?_⟩
    · rintro (h | ⟨n, hn, hf⟩)
      · cases h
      · exact hknown n hn hf
    · rintro (h | ⟨env, hmem, hflags⟩)
      · cases h
      · obtain ⟨id, hid, rfl⟩ := (hseen.mem env).mp hmem
        simp only [seenEnv, dirEnv, Envelope.setDfile, Envelope.setEfile, decide_eq_true_eq] at hflags
        obtain hD | ⟨hE, hloc, hc⟩ := hflags
        · obtain hE | hD' := hid
          · exact hD (hdfiles id hE)
          · exact hD hD'
        · obtain hloc' | hc' | hall := hefiles
          · exact hloc hloc'
          · exact hc hc'
          · obtain hE' | hD := hid
            · exact hE hE'
            · exact hE (hall id hD)

/-- The world in which the directory has these entries, and `errno` is set behind them or not. -/
def listingWorld (names : List Text) (errno : Bool) : Prog.World FileOp FileAns Unit := fun op _ a _ =>
  match op, a with
  | .readdir _, a => a = (names, errno)
  | _, _ => True

/-- The world in which it has these entries and the calls succeed. -/
def startupWorld (names : List Text) : Prog.World FileOp FileAns Unit := fun op _ a _ =>
  match op, a with
  | .readdir _, a => a = (names, false)
  | .opendir _, a => a = true
  | .closedir _, a => a = true
  | .unlink _, a => a = true
  | _, _ => True

theorem unlinkFiles_succeeds {names : List Text} (l : List Path) :
    (unlinkFiles l).wlp (startupWorld names) (fun r _ => r = true) () := by
  induction l with
  | nil => exact rfl
  | cons p rest ih =>
    rintro a t ha
    have ha : a = true := ha
    subst ha
    exact ih

/-- **A list that `q_dir_startup` returns** is that of the messages, whatever else happens. -/
theorem qDirStartup_complete {names : List Text} (hnames : ∀ n ∈ names, n ≠ ['E'] ∧ n ≠ ['D']) (errno : Bool) :
    (qDirStartup conf stamp dir .clean).wlp (listingWorld names errno) (fun r _ => ∀ l, r = .done l → Complete names l) () := by
  have hstart : SeenAll conf dir [] [] := ⟨List.Pairwise.nil, by simp⟩
  obtain ⟨hseen, -⟩ := @scan_seen conf stamp dir names [] ⟨[], [], false⟩ hstart hnames
  rw [List.nil_append] at hseen
  have hfail : ∀ l : List Envelope, Outcome.fail = Outcome.done l → Complete names l := by
    rintro l ⟨⟩
  unfold qDirStartup
  rintro opened u -
  cases opened with
  | false => exact hfail
  | true =>
    rintro listed u ⟨⟩
    rintro closed u -
    cases closed with
    | false => exact hfail
    | true =>
      simp only [Prog.ret_bind, if_true]
      split_ifs with hbad haction hscan
      · exact hfail
      · cases haction
      · exact hfail
      · refine Prog.wlp_seq (Prog.wlp_of_forall fun a _ => trivial : Prog.wlp _ _ (fun _ _ => True) _) ?_
        rintro ok u -
        split_ifs
        · rintro l ⟨⟩
          rw [dirOrphans_messages]
          exact complete_of_seen hseen
        · exact hfail

/-- **When its calls succeed** it returns one just for a clean directory. -/
theorem qDirStartup_succeeds {names : List Text} (hnames : ∀ n ∈ names, n ≠ ['E'] ∧ n ≠ ['D']) :
    (qDirStartup conf stamp dir .clean).wlp (startupWorld names) (fun r _ =>
      (CleanDir conf dir names → ∃ l, r = .done l ∧ Complete names l) ∧ (¬CleanDir conf dir names → r = .fail)) () := by
  have hstart : SeenAll conf dir [] [] := ⟨List.Pairwise.nil, by simp⟩
  obtain ⟨hseen, -⟩ := @scan_seen conf stamp dir names [] ⟨[], [], false⟩ hstart hnames
  rw [List.nil_append] at hseen
  have hclean := @startup_bad conf stamp dir names hnames
    (names.foldl (dirEntry conf stamp dir .clean) ⟨[], [], false⟩).fList
  dsimp only at hclean
  unfold qDirStartup
  rintro opened u ⟨⟩
  rintro listed u ⟨⟩
  rintro closed u ⟨⟩
  simp only [Prog.ret_bind, if_true, Bool.or_false]
  generalize names.foldl (dirEntry conf stamp dir .clean) ⟨[], [], false⟩ = scan at *
  cases hbad : scan.bad with
  | true =>
    have hnot : ¬CleanDir conf dir names := fun h => by simpa [hbad] using hclean.mpr h
    exact ⟨fun h => absurd h hnot, fun _ => rfl⟩
  | false =>
    cases horphans : (dirOrphans conf dir scan.messages scan.fList false).bad with
    | true =>
      have hnot : ¬CleanDir conf dir names := fun h => by simpa [horphans] using hclean.mpr h
      simp only [if_true]
      exact ⟨fun h => absurd h hnot, fun _ => rfl⟩
    | false =>
      have hyes : CleanDir conf dir names := hclean.mp ⟨hbad, horphans⟩
      refine Prog.wlp_seq (unlinkFiles_succeeds _) ?_
      rintro ok u rfl
      refine ⟨fun _ => ⟨_, rfl, ?_⟩, fun h => absurd hyes h⟩
      rw [dirOrphans_messages]
      exact complete_of_seen hseen

end Startup

/-! ## Two lists -/

section Merge

variable {conf : Conf}

/-- What is done with each message of the other list, in order: one whose id is `present` is a collision, unlinked where files
    are cleaned up and else counted; any other is moved.  The result is the messages moved and the collisions counted. -/
def moveAll (conf : Conf) (present : List Text) : List Envelope → SpoolProg (Outcome (List Envelope × Nat))
  | [] => return .done ([], 0)
  | move :: other => do
    if move.eId ∈ present then
      if conf.filesystemCleanup then
        match ← envUnlink move with
        | (0, _) => moveAll conf present other
        | _ => return .fail
      else return (← moveAll conf present other).map fun r => (r.1, r.2 + 1)
    else
      match ← envMove move .slow with
      | some (0, moved) => return (← moveAll conf present other).map fun r => (moved :: r.1, r.2)
      | some _ => return .fail
      | none => return .abort

theorem Outcome.map_eq_done {α β : Type} {f : α → β} {o : Outcome α} {b : β} (h : o.map f = .done b) :
    ∃ a, o = .done a ∧ b = f a := by
  cases o with
  | abort => cases h
  | fail => cases h
  | done a =>
    obtain rfl := Outcome.done.inj h
    exact ⟨a, rfl, rfl⟩

/-- One list from two, in the order of their ids. -/
def mergeIds (slow moved : List Envelope) : List Envelope := List.merge slow moved fun a b => decide (a.eId ≤ b.eId)

/-- A message put in front. -/
theorem mergeIds_left {e : Envelope} {slow moved : List Envelope} (h : ∀ m ∈ moved, e.eId < m.eId) :
    mergeIds (e :: slow) moved = e :: mergeIds slow moved := by
  cases moved with
  | nil => simp [mergeIds]
  | cons m moved =>
    unfold mergeIds
    rw [List.cons_merge_cons, if_pos (by simpa using le_of_lt (h m List.mem_cons_self))]

theorem mergeIds_right {e : Envelope} {slow moved : List Envelope} (h : ∀ id ∈ ids slow, e.eId < id) :
    mergeIds slow (e :: moved) = e :: mergeIds slow moved := by
  cases slow with
  | nil => simp [mergeIds]
  | cons s slow =>
    have hlt : e.eId < s.eId := h _ List.mem_cons_self
    unfold mergeIds
    rw [List.cons_merge_cons, if_neg (by simpa using hlt)]

theorem mem_mergeIds {slow moved : List Envelope} {e : Envelope} : e ∈ mergeIds slow moved ↔ e ∈ slow ∨ e ∈ moved := by
  unfold mergeIds
  rw [List.mem_merge]

theorem envUnlink_keeps (env : Envelope) :
    (envUnlink env).wlp Prog.anyAnswer (fun r _ => r.2.eId = env.eId) () := by
  unfold envUnlink
  rintro ok u -
  cases ok with
  | false => exact rfl
  | true =>
    rintro counted u -
    rintro gone u -
    cases gone <;> exact rfl

theorem envMoveUnlink_keeps (env : Envelope) : (envMoveUnlink env .slow).wlp Prog.anyAnswer
    (fun r _ => r.1 = 0 → r.2.eId = env.eId ∧ r.2.eDir = .slow) () := by
  refine Prog.wlp_seq (envUnlink_keeps env) ?_
  rintro ⟨code, env'⟩ u hid
  split
  · rename_i heq
    obtain ⟨rfl, rfl⟩ := Prod.mk.inj heq
    exact fun _ => ⟨hid, rfl⟩
  · -- rolled back
    have hfailed : ∀ e : Envelope, (-1 : Int) = 0 → e.eId = env.eId ∧ e.eDir = .slow := fun e h => absurd h (by decide)
    rintro gone u -
    cases gone with
    | false => exact hfailed _
    | true =>
      rintro counted u -
      rintro gone u -
      exact hfailed _

/-- A message that `env_move` has moved keeps its id. -/
theorem envMove_keeps (move : Envelope) : (envMove move .slow).wlp Prog.anyAnswer
    (fun r _ => ∀ moved, r = some (0, moved) → moved.eId = move.eId ∧ moved.eDir = .slow) () := by
  unfold envMove
  rw [if_pos (.inl rfl)]
  by_cases hdir : move.eDir = .slow
  · rw [if_neg (not_not.mpr hdir)]
    rintro moved ⟨⟩
    exact ⟨rfl, hdir⟩
  · rw [if_pos hdir]
    rintro linked u -
    cases linked with
    | false => rintro moved ⟨⟩
    | true =>
      rintro linked u -
      cases linked with
      | false =>
        rintro gone u -
        rintro moved ⟨⟩
      | true =>
        rintro counted u -
        change ((envMoveUnlink move .slow).bind fun r => .ret (some r)).wlp _ _ _
        refine Prog.wlp_seq (envMoveUnlink_keeps move) ?_
        rintro ⟨code, env⟩ u hkeeps moved hmoved
        obtain ⟨rfl, rfl⟩ := Prod.mk.inj (Option.some.inj hmoved)
        exact hkeeps rfl

/-- The messages moved are those that are not present, in their order. -/
structure Moved (conf : Conf) (present : List Text) (other moved : List Envelope) (collisions : Nat) : Prop where
  ids : ids moved = (ids other).filter (· ∉ present)
  dir : ∀ e ∈ moved, e.eDir = .slow
  count : collisions = if conf.filesystemCleanup then 0 else ((Simta.ids other).filter (· ∈ present)).length

theorem moveAll_moved (present : List Text) (other : List Envelope) : (moveAll conf present other).wlp Prog.anyAnswer
    (fun r _ => ∀ x, r = .done x → Moved conf present other x.1 x.2) () := by
  induction other with
  | nil =>
    rintro x ⟨⟩
    exact ⟨rfl, by simp, by simp⟩
  | cons move other ih =>
    unfold moveAll
    by_cases hin : move.eId ∈ present
    · rw [if_pos hin]
      by_cases hc : conf.filesystemCleanup = true
      · rw [if_pos hc]
        refine Prog.wlp_seq (Prog.wlp_of_forall fun a _ => trivial : Prog.wlp _ _ (fun _ _ => True) _) ?_
        rintro ⟨code, env⟩ u -
        split
        · refine Prog.wlp_mono ?_ ih
          intro r u hr x hx
          obtain ⟨hids, hdir, hcount⟩ := hr x hx
          refine ⟨?_, hdir, ?_⟩
          · simp [hids, hin]
          · simp [hcount, hc]
        · rintro x ⟨⟩
      · rw [if_neg hc]
        refine Prog.wlp_seq ih ?_
        rintro r u hr x hx
        obtain ⟨y, rfl, rfl⟩ := Outcome.map_eq_done hx
        obtain ⟨hids, hdir, hcount⟩ := hr y rfl
        refine ⟨?_, hdir, ?_⟩
        · simp [hids, hin]
        · simp [hcount, hc, hin]
    · rw [if_neg hin]
      refine Prog.wlp_seq (envMove_keeps move) ?_
      rintro r u hkeeps
      split
      · rename_i moved
        obtain ⟨hid, hslow⟩ := hkeeps moved rfl
        refine Prog.wlp_seq ih ?_
        rintro r u hr x hx
        obtain ⟨y, rfl, rfl⟩ := Outcome.map_eq_done hx
        obtain ⟨hids, hdir, hcount⟩ := hr y rfl
        refine ⟨?_, ?_, ?_⟩
        · simp [hids, hid, hin]
        · intro e he
          obtain rfl | he := List.mem_cons.mp he
          · exact hslow
          · exact hdir e he
        · simp [hcount, hin]
      · rintro x ⟨⟩
      · rintro x ⟨⟩

theorem moveAll_congr {present present' : List Text} {other : List Envelope}
    (h : ∀ id ∈ ids other, id ∈ present ↔ id ∈ present') : moveAll conf present other = moveAll conf present' other := by
  induction other with
  | nil => rfl
  | cons move other ih =>
    have hrest := ih fun id hid => h id (List.mem_cons_of_mem _ hid)
    unfold moveAll
    rw [hrest, if_congr (h _ List.mem_cons_self) rfl rfl]

/-- The messages moved, merged with the slow list. -/
def mergedWith (slow : List Envelope) (p : SpoolProg (Outcome (List Envelope × Nat))) :
    SpoolProg (Outcome (List Envelope × Nat)) :=
  p.bind fun r => .ret (r.map fun r => (mergeIds slow r.1, r.2))

theorem mergedWith_bind {α : Type} (slow : List Envelope) (p : SpoolProg α)
    (f : α → SpoolProg (Outcome (List Envelope × Nat))) : mergedWith slow (p.bind f) = p.bind fun a => mergedWith slow (f a) :=
  Prog.bind_assoc _ _ _

/-- One more collision. -/
theorem mergedWith_count (slow : List Envelope) (p : SpoolProg (Outcome (List Envelope × Nat))) :
    mergedWith slow (p.bind fun r => .ret (r.map fun r => (r.1, r.2 + 1))) =
      (mergedWith slow p).bind fun r => .ret (r.map fun r => (r.1, r.2 + 1)) := by
  rw [mergedWith_bind]
  unfold mergedWith
  rw [Prog.bind_assoc]
  refine Prog.bind_congr (Prog.wlp_of_forall fun r _ => ?_)
  cases r <;> rfl

/-- A message of the slow list that goes in front. -/
theorem mergedWith_cons {s : Envelope} {slow : List Envelope} {present : List Text} {other : List Envelope}
    (h : ∀ id ∈ ids other, s.eId < id) :
    mergedWith (s :: slow) (moveAll conf present other) =
      (mergedWith slow (moveAll conf present other)).bind fun r => .ret (r.map fun r => (s :: r.1, r.2)) := by
  unfold mergedWith
  rw [Prog.bind_assoc]
  apply Prog.bind_congr
  refine Prog.wlp_mono ?_ (moveAll_moved present other)
  intro r u hr
  cases r with
  | abort => rfl
  | fail => rfl
  | done x =>
    obtain ⟨hids, -, -⟩ := hr x rfl
    have hlt : ∀ m ∈ x.1, s.eId < m.eId := by
      intro m hm
      have hmem : m.eId ∈ ids x.1 := mem_ids.mpr ⟨m, hm, rfl⟩
      rw [hids] at hmem
      exact h _ (List.mem_filter.mp hmem).1
    simp only [Prog.ret_bind, Outcome.map, mergeIds_left hlt]

variable {move : Envelope} {slow other : List Envelope} {next : List Envelope → SpoolProg (Outcome (List Envelope × Nat))}

/-- The next message of the other list, when it goes before the slow list. -/
theorem insertInSlow_eq (hnext : next slow = mergedWith slow (moveAll conf (ids slow) other))
    (hlt : ∀ id ∈ ids slow, move.eId < id) :
    insertInSlow move next slow = mergedWith slow (moveAll conf (ids slow) (move :: other)) := by
  have hnot : move.eId ∉ ids slow := fun hin => lt_irrefl _ (hlt _ hin)
  unfold insertInSlow moveAll
  rw [if_neg hnot, hnext]
  refine (Prog.bind_congr (Prog.wlp_mono ?_ (envMove_keeps move))).trans (mergedWith_bind _ _ _).symm
  intro r u hkeeps
  cases r with
  | none => rfl
  | some x =>
    obtain ⟨n | n, moved⟩ := x
    · cases n with
      | zero =>
        obtain ⟨hid, -⟩ := hkeeps moved rfl
        refine Eq.trans ?_ (mergedWith_bind _ _ _).symm
        refine (Prog.bind_assoc _ _ _).trans (Prog.bind_congr (Prog.wlp_of_forall fun r _ => ?_))
        cases r with
        | abort => rfl
        | fail => rfl
        | done x =>
          have hright : mergeIds slow (moved :: x.1) = moved :: mergeIds slow x.1 := mergeIds_right (by rwa [hid])
          simp only [mergedWith, Prog.pure_eq_ret, Prog.ret_bind, Outcome.map, hright]
      | succ n => rfl
    · rfl

/-- **The place of one message**, when the rest of the merge is as it should be. -/
theorem placeInSlow_eq
    (hnext : ∀ slow, SortedIds slow → next slow = mergedWith slow (moveAll conf (ids slow) other))
    (ho : SortedIds (move :: other)) (hs : SortedIds slow) :
    placeInSlow conf move next slow = mergedWith slow (moveAll conf (ids slow) (move :: other)) := by
  induction slow with
  | nil => exact insertInSlow_eq (hnext [] hs) (by simp)
  | cons s slow ih =>
    cases hcmp : strcmp move.eId s.eId with
    | lt =>
      have hlt : move.eId < s.eId := strcmp_lt.mp hcmp
      simp only [placeInSlow, hcmp]
      apply insertInSlow_eq (hnext _ hs)
      intro id hid
      obtain rfl | hid := List.mem_cons.mp hid
      · exact hlt
      · exact hlt.trans (hs.lt hid)
    | gt =>
      have hlt : s.eId < move.eId := strcmp_gt.mp hcmp
      have hall : ∀ id ∈ ids (move :: other), s.eId < id := by
        intro id hid
        obtain rfl | hid := List.mem_cons.mp hid
        · exact hlt
        · exact hlt.trans (ho.lt hid)
      have hsame : moveAll conf (ids (s :: slow)) (move :: other) = moveAll conf (ids slow) (move :: other) := by
        apply moveAll_congr
        intro id hid
        rw [ids_cons, List.mem_cons]
        exact or_iff_right (ne_of_gt (hall id hid))
      simp only [placeInSlow, hcmp]
      rw [ih hs.tail, hsame, mergedWith_cons hall]
      rfl
    | eq =>
      have hid : move.eId = s.eId := strcmp_eq.mp hcmp
      have hall : ∀ id ∈ ids other, s.eId < id := fun id hin => hid ▸ ho.lt hin
      have hsame : moveAll conf (ids (s :: slow)) other = moveAll conf (ids slow) other := by
        apply moveAll_congr
        intro id hin
        rw [ids_cons, List.mem_cons]
        exact or_iff_right (ne_of_gt (hall id hin))
      have hcons := @mergedWith_cons conf s slow (ids slow) other hall
      have hin : move.eId ∈ ids (s :: slow) := hid ▸ List.mem_cons_self
      simp only [placeInSlow, hcmp]
      unfold moveAll
      rw [if_pos hin, hsame, hnext slow hs.tail]
      by_cases hc : conf.filesystemCleanup = true
      · rw [if_pos hc, if_pos hc]
        refine Eq.trans ?_ (mergedWith_bind _ _ _).symm
        refine Prog.bind_congr (Prog.wlp_of_forall fun r _ => ?_)
        obtain ⟨n | n, env⟩ := r
        · cases n with
          | zero => exact hcons.symm
          | succ n => rfl
        · rfl
      · rw [if_neg hc, if_neg hc]
        refine Eq.trans ?_ (mergedWith_count (s :: slow) (moveAll conf (ids slow) other)).symm
        rw [hcons, Prog.bind_assoc]
        refine Prog.bind_congr (Prog.wlp_of_forall fun r _ => ?_)
        cases r <;> rfl

/-- **`q_move_to_slow`** does with each message of the other list what it should, and leaves one list of both. -/
theorem qMoveToSlow_eq (hs : SortedIds slow) (ho : SortedIds other) :
    qMoveToSlow conf slow other = mergedWith slow (moveAll conf (ids slow) other) := by
  induction other generalizing slow with
  | nil => simp [qMoveToSlow, mergedWith, moveAll, Outcome.map, mergeIds]
  | cons move other ih => exact placeInSlow_eq (fun slow hs => ih hs ho.tail) ho hs

/-- The merged list is in strict order. -/
theorem sorted_mergeIds (hs : SortedIds slow) : ∀ {moved : List Envelope}, SortedIds moved →
    (∀ m ∈ moved, m.eId ∉ ids slow) → SortedIds (mergeIds slow moved) := by
  induction slow with
  | nil =>
    rintro moved hm -
    simpa [mergeIds] using hm
  | cons s slow ih =>
    intro moved hm hdisj
    induction moved with
    | nil => simpa [mergeIds] using hs
    | cons m moved ihm =>
      have hne : m.eId ≠ s.eId := fun h => hdisj m List.mem_cons_self (h ▸ List.mem_cons_self)
      have hrest : ∀ m' ∈ moved, m'.eId ∉ ids (s :: slow) := fun m' hm' => hdisj m' (List.mem_cons_of_mem _ hm')
      obtain hlt | hlt := lt_or_gt_of_ne hne
      · have hall : ∀ id ∈ ids (s :: slow), m.eId < id := by
          intro id hid
          obtain rfl | hid := List.mem_cons.mp hid
          · exact hlt
          · exact hlt.trans (hs.lt hid)
        rw [mergeIds_right hall]
        refine (ihm hm.tail hrest).cons fun id hid => ?_
        obtain ⟨e, he, rfl⟩ := mem_ids.mp hid
        obtain he | he := mem_mergeIds.mp he
        · exact hall _ (mem_ids.mpr ⟨e, he, rfl⟩)
        · exact hm.lt (mem_ids.mpr ⟨e, he, rfl⟩)
      · have hall : ∀ m' ∈ m :: moved, s.eId < m'.eId := by
          intro m' hm'
          obtain rfl | hm' := List.mem_cons.mp hm'
          · exact hlt
          · exact hlt.trans (hm.lt (mem_ids.mpr ⟨m', hm', rfl⟩))
        rw [mergeIds_left hall]
        refine (ih hs.tail hm fun m' hm' hin => hdisj m' hm' (List.mem_cons_of_mem _ hin)).cons fun id hid => ?_
        obtain ⟨e, he, rfl⟩ := mem_ids.mp hid
        obtain he | he := mem_mergeIds.mp he
        · exact hs.lt (mem_ids.mpr ⟨e, he, rfl⟩)
        · exact hall e he

/-- The slow list that `q_move_to_slow` leaves, and the number it returns. -/
structure MergedList (conf : Conf) (slow other l : List Envelope) (collisions : Nat) : Prop where
  sorted : SortedIds l
  union : ∀ id, id ∈ ids l ↔ id ∈ ids slow ∨ id ∈ ids other
  keeps : ∀ e ∈ slow, e ∈ l
  moved : ∀ e ∈ l, e ∈ slow ∨ (e.eId ∈ ids other ∧ e.eId ∉ ids slow ∧ e.eDir = .slow)
  count : collisions = if conf.filesystemCleanup then 0 else ((ids other).filter (· ∈ ids slow)).length

theorem mergedList_of_moved {moved : List Envelope} {k : Nat} (hs : SortedIds slow) (ho : SortedIds other)
    (h : Moved conf (ids slow) other moved k) : MergedList conf slow other (mergeIds slow moved) k := by
  have hmem : ∀ m ∈ moved, m.eId ∈ ids other ∧ m.eId ∉ ids slow := by
    intro m hm
    have hid : m.eId ∈ ids moved := mem_ids.mpr ⟨m, hm, rfl⟩
    rw [h.ids] at hid
    simpa using List.mem_filter.mp hid
  have hsorted : SortedIds moved := by
    have hother : (ids other).Pairwise (· < ·) := List.pairwise_map.mpr ho
    have hids := hother.filter fun id => decide (id ∉ ids slow)
    rw [← h.ids] at hids
    exact List.pairwise_map.mp hids
  refine ⟨sorted_mergeIds hs hsorted fun m hm => (hmem m hm).2, fun id => ?_, fun e he => mem_mergeIds.mpr (.inl he), ?_, h.count⟩
  · constructor
    · intro hid
      obtain ⟨e, he, rfl⟩ := mem_ids.mp hid
      obtain he | he := mem_mergeIds.mp he
      · exact .inl (mem_ids.mpr ⟨e, he, rfl⟩)
      · exact .inr (hmem e he).1
    · intro hid
      by_cases hin : id ∈ ids slow
      · obtain ⟨e, he, rfl⟩ := mem_ids.mp hin
        exact mem_ids.mpr ⟨e, mem_mergeIds.mpr (.inl he), rfl⟩
      · have hid : id ∈ ids moved := by
          rw [h.ids, List.mem_filter]
          exact ⟨hid.resolve_left hin, by simpa using hin⟩
        obtain ⟨e, he, rfl⟩ := mem_ids.mp hid
        exact mem_ids.mpr ⟨e, mem_mergeIds.mpr (.inr he), rfl⟩
  · intro e he
    obtain he | he := mem_mergeIds.mp he
    · exact .inl he
    · exact .inr ⟨(hmem e he).1, (hmem e he).2, h.dir e he⟩

/-- **What `q_move_to_slow` leaves**, whatever its calls answer. -/
theorem qMoveToSlow_merged (hs : SortedIds slow) (ho : SortedIds other) : (qMoveToSlow conf slow other).wlp Prog.anyAnswer
    (fun r _ => ∀ x, r = .done x → MergedList conf slow other x.1 x.2) () := by
  rw [qMoveToSlow_eq hs ho]
  refine Prog.wlp_seq (moveAll_moved _ _) ?_
  rintro r u hr x hx
  obtain ⟨y, rfl, rfl⟩ := Outcome.map_eq_done hx
  exact mergedList_of_moved hs ho (hr y rfl)

end Merge

/-- **Startup.**  For every directory content without a file named just `E` or `D`, in every order: a list that
    `q_dir_startup` returns is that of the messages with both files, in strict order, whatever its calls answer; and when they
    succeed it returns one just for a clean directory.  For every two such lists `q_move_to_slow` does with each message of the
    other list in turn what it should, a collision if its id is on the slow list and else a move, and leaves the slow list in
    strict order and equal to the union. -/
theorem startup_merge :
    (∀ conf stamp dir names, (∀ n ∈ names, n ≠ ['E'] ∧ n ≠ ['D']) →
      (∀ errno, (qDirStartup conf stamp dir .clean).wlp (listingWorld names errno)
        (fun r _ => ∀ l, r = .done l → Complete names l) ()) ∧
      (qDirStartup conf stamp dir .clean).wlp (startupWorld names) (fun r _ =>
        (CleanDir conf dir names → ∃ l, r = .done l ∧ Complete names l) ∧ (¬CleanDir conf dir names → r = .fail)) ()) ∧
    (∀ conf slow other, SortedIds slow → SortedIds other →
      qMoveToSlow conf slow other = mergedWith slow (moveAll conf (ids slow) other) ∧
      (qMoveToSlow conf slow other).wlp Prog.anyAnswer
        (fun r _ => ∀ x, r = .done x → MergedList conf slow other x.1 x.2) ()) := by
  constructor
  · intro conf stamp dir names hnames
    exact ⟨qDirStartup_complete hnames, qDirStartup_succeeds hnames⟩
  · intro conf slow other hs ho
    exact ⟨qMoveToSlow_eq hs ho, qMoveToSlow_merged hs ho⟩

/-- A message and a file that the queue does not know: no list. -/
theorem not_complete_foreign :
    let names : List Text := [['E', 'a'], ['D', 'a'], ['x']]
    ¬(qDirStartup {} [] .slow .clean).wlp (startupWorld names) (fun r _ => ∃ l, r = .done l ∧ Complete names l) () := by
  intro names h
  obtain ⟨l, hl, -⟩ := h true () rfl (names, false) () rfl true () rfl
  cases hl

end Simta
