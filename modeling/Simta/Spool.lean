import Simta.Lib.Prog
import Simta.Lib.Directory

/-!
# The queue directories and the system calls on them

The four queue directories under one file system, and the calls the queue code makes on them as
operations of `Prog`.  `spool` is the handler in which every call does what POSIX says;
`spoolFault` is the one in which the call fails whatever its arguments and changes no file.

`simta_fast_files` is a global of the process, kept here beside the files it counts.  A call that
`spoolFault` fails is entered in `failed`, so that a statement can name it.
-/

set_option autoImplicit false

namespace Simta

/-- Strings of the source, one `Char` a byte. -/
abbrev Text : Type := List Char

instance : LawfulBEq Text := inferInstance

/-- `strcmp(3)`. -/
def strcmp (a b : Text) : Ordering := if a = b then .eq else if a < b then .lt else .gt

/-- `simta_dir_fast`, `simta_dir_slow`, `simta_dir_dead`, `simta_dir_local`. -/
inductive Dir
  | fast
  | slow
  | dead
  | loc
  deriving DecidableEq, Repr

/-- A file of a queue directory, as `"%s/%c%s"` prints it. -/
structure Path where
  dir : Dir
  name : Text
  deriving DecidableEq, Repr

/-- `E<id>`, `D<id>` and `t<id>` of a directory. -/
def efile (d : Dir) (id : Text) : Path := ⟨d, 'E' :: id⟩
def dfile (d : Dir) (id : Text) : Path := ⟨d, 'D' :: id⟩
def tfile (d : Dir) (id : Text) : Path := ⟨d, 't' :: id⟩

@[simp] theorem efile_dir (d : Dir) (id : Text) : (efile d id).dir = d := rfl
@[simp] theorem dfile_dir (d : Dir) (id : Text) : (dfile d id).dir = d := rfl
@[simp] theorem tfile_dir (d : Dir) (id : Text) : (tfile d id).dir = d := rfl

@[simp] theorem efile_inj {d d' : Dir} {a b : Text} : efile d a = efile d' b ↔ d = d' ∧ a = b := by
  simp [efile]

@[simp] theorem dfile_inj {d d' : Dir} {a b : Text} : dfile d a = dfile d' b ↔ d = d' ∧ a = b := by
  simp [dfile]

@[simp] theorem tfile_inj {d d' : Dir} {a b : Text} : tfile d a = tfile d' b ↔ d = d' ∧ a = b := by
  simp [tfile]

@[simp] theorem efile_ne_dfile (d d' : Dir) (a b : Text) : efile d a ≠ dfile d' b := by
  simp [efile, dfile]

@[simp] theorem dfile_ne_efile (d d' : Dir) (a b : Text) : dfile d a ≠ efile d' b := by
  simp [efile, dfile]

@[simp] theorem efile_ne_tfile (d d' : Dir) (a b : Text) : efile d a ≠ tfile d' b := by
  simp [efile, tfile]

@[simp] theorem tfile_ne_efile (d d' : Dir) (a b : Text) : tfile d a ≠ efile d' b := by
  simp [efile, tfile]

@[simp] theorem dfile_ne_tfile (d d' : Dir) (a b : Text) : dfile d a ≠ tfile d' b := by
  simp [dfile, tfile]

@[simp] theorem tfile_ne_dfile (d d' : Dir) (a b : Text) : tfile d a ≠ dfile d' b := by
  simp [dfile, tfile]


/-- The calls.  `print` is one `fprintf` of a line to a stream on the named file, `localtime` the three
    calls that make a date, `clock` is `simta_gettimeofday`, `listInsert` an insertion in the lists of
    envelopes by message id and by sender, `malloc` any allocation; `fastFiles` is an assignment to
    `simta_fast_files` and `fastCount` reads it. -/
inductive FileOp
  | link (old new : Path)
  | unlink (p : Path)
  | rename (old new : Path)
  | creat (p : Path)
  | fdopen (p : Path)
  | print (p : Path) (line : Text)
  | fclose (p : Path)
  | utime (p : Path)
  | ftruncate (p : Path)
  | stat (p : Path)
  | read (p : Path)
  | opendir (d : Dir)
  | readdir (d : Dir)
  | closedir (d : Dir)
  | localtime
  | clock
  | listInsert
  | malloc
  | fastFiles (delta : Int)
  | fastCount
  deriving DecidableEq, Repr

/-- The answers: success or failure, the inode number and link count of `stat`, the lines of a
    file, the names of a directory with whether `errno` is set when `readdir` stops. -/
abbrev FileAns : FileOp → Type
  | .stat _ => Option (Nat × Nat)
  | .read _ => Option (List Text)
  | .readdir _ => List Text × Bool
  | .clock => Option Int
  | .fastFiles _ => Unit
  | .fastCount => Int
  | _ => Bool

/-- The files and the counter `simta_fast_files`.  `data` holds the lines of each inode, `fresh`
    an inode number not yet used, `failed` the calls that were made to fail, `now` what the clock
    reads. -/
structure Spool where
  names : Directory Path
  data : Nat → List Text
  fresh : Nat
  fastFiles : Int
  failed : List FileOp
  now : Int := 0

/-- A program over the queue directories. -/
abbrev SpoolProg (α : Type) : Type := Prog FileOp FileAns α

namespace Spool

def setNames (s : Spool) (t : Directory Path) : Spool := { s with names := t }

def addFast (s : Spool) (delta : Int) : Spool := { s with fastFiles := s.fastFiles + delta }

/-- The effect of a call that changes the names: failure leaves everything as it was. -/
def onNames (s : Spool) : Option (Directory Path) → Bool × Spool
  | none => (false, s)
  | some t => (true, s.setNames t)

/-- A new empty file named `p`. -/
def created (s : Spool) (p : Path) : Spool :=
  { s with
    names := s.names.insert p s.fresh
    data := fun j => if j = s.fresh then [] else s.data j
    fresh := s.fresh + 1 }

/-- Replace the lines of the file named `p`. -/
def edit (s : Spool) (p : Path) (f : List Text → List Text) : Bool × Spool :=
  match s.names.lookup p with
  | none => (false, s)
  | some i => (true, { s with data := fun j => if j = i then f (s.data j) else s.data j })

/-- The names of one directory as `readdir` gives them. -/
def listing (s : Spool) (d : Dir) : List Text :=
  ['.'] :: ['.', '.'] :: (s.names.keys.filter (·.dir = d)).map Path.name

end Spool

/-- Every call does what it says.  `order` is the order in which a directory is read. -/
def spool (order : Dir → List Text → List Text) : Prog.Handler FileOp FileAns Spool
  | .link old new, s => s.onNames (s.names.link old new)
  | .unlink p, s => s.onNames (s.names.unlink p)
  | .rename old new, s => s.onNames (s.names.rename old new)
  | .creat p, s => if p ∈ s.names then (false, s) else (true, s.created p)
  | .fdopen _, s => (true, s)
  | .print p line, s => s.edit p (· ++ [line])
  | .fclose _, s => (true, s)
  | .utime p, s => (decide (p ∈ s.names), s)
  | .ftruncate p, s => s.edit p fun _ => []
  | .stat p, s => ((s.names.lookup p).map fun i => (i, s.names.nlink i), s)
  | .read p, s => ((s.names.lookup p).map s.data, s)
  | .opendir _, s => (true, s)
  | .readdir d, s => ((order d (s.listing d), false), s)
  | .closedir _, s => (true, s)
  | .localtime, s => (true, s)
  | .clock, s => (some s.now, s)
  | .listInsert, s => (true, s)
  | .malloc, s => (true, s)
  | .fastFiles delta, s => ((), s.addFast delta)
  | .fastCount, s => (s.fastFiles, s)

/-- The call fails: it is entered in `failed` and nothing else changes. -/
def Spool.fail (s : Spool) (op : FileOp) : Spool := { s with failed := s.failed ++ [op] }

/-- Every call fails; the assignments to `simta_fast_files` and its reading cannot. -/
def spoolFault : Prog.Handler FileOp FileAns Spool
  | .fastFiles delta, s => ((), s.addFast delta)
  | .fastCount, s => (s.fastFiles, s)
  | .stat p, s => (none, s.fail (.stat p))
  | .read p, s => (none, s.fail (.read p))
  | .readdir d, s => (([], true), s.fail (.readdir d))
  | .link old new, s => (false, s.fail (.link old new))
  | .unlink p, s => (false, s.fail (.unlink p))
  | .rename old new, s => (false, s.fail (.rename old new))
  | .creat p, s => (false, s.fail (.creat p))
  | .fdopen p, s => (false, s.fail (.fdopen p))
  | .print p line, s => (false, s.fail (.print p line))
  | .fclose p, s => (false, s.fail (.fclose p))
  | .utime p, s => (false, s.fail (.utime p))
  | .ftruncate p, s => (false, s.fail (.ftruncate p))
  | .opendir d, s => (false, s.fail (.opendir d))
  | .closedir d, s => (false, s.fail (.closedir d))
  | .localtime, s => (false, s.fail .localtime)
  | .clock, s => (none, s.fail .clock)
  | .listInsert, s => (false, s.fail .listInsert)
  | .malloc, s => (false, s.fail .malloc)

/-! ## The calls as programs -/

namespace Sys

def link (old new : Path) : SpoolProg Bool := Prog.perform (FileOp.link old new)
def unlink (p : Path) : SpoolProg Bool := Prog.perform (FileOp.unlink p)
def rename (old new : Path) : SpoolProg Bool := Prog.perform (FileOp.rename old new)
def creat (p : Path) : SpoolProg Bool := Prog.perform (FileOp.creat p)
def fdopen (p : Path) : SpoolProg Bool := Prog.perform (FileOp.fdopen p)
def print (p : Path) (line : Text) : SpoolProg Bool := Prog.perform (FileOp.print p line)
def fclose (p : Path) : SpoolProg Bool := Prog.perform (FileOp.fclose p)
def utime (p : Path) : SpoolProg Bool := Prog.perform (FileOp.utime p)
def ftruncate (p : Path) : SpoolProg Bool := Prog.perform (FileOp.ftruncate p)
def stat (p : Path) : SpoolProg (Option (Nat × Nat)) := Prog.perform (FileOp.stat p)
def read (p : Path) : SpoolProg (Option (List Text)) := Prog.perform (FileOp.read p)
def opendir (d : Dir) : SpoolProg Bool := Prog.perform (FileOp.opendir d)
def readdir (d : Dir) : SpoolProg (List Text × Bool) := Prog.perform (FileOp.readdir d)
def closedir (d : Dir) : SpoolProg Bool := Prog.perform (FileOp.closedir d)
def localtime : SpoolProg Bool := Prog.perform FileOp.localtime
def clock : SpoolProg (Option Int) := Prog.perform FileOp.clock
def listInsert : SpoolProg Bool := Prog.perform FileOp.listInsert
def malloc : SpoolProg Bool := Prog.perform FileOp.malloc
def addFastFiles (delta : Int) : SpoolProg Unit := Prog.perform (FileOp.fastFiles delta)
def fastCount : SpoolProg Int := Prog.perform FileOp.fastCount

end Sys

/-! ## Proof rules

One rule a call, over the names rather than over the handler.  The rules for `wpF` ask for the
failing continuation as well, in the world where the call was made to fail. -/

namespace Spool

@[simp] theorem setNames_names (s : Spool) (t : Directory Path) : (s.setNames t).names = t := rfl
@[simp] theorem setNames_data (s : Spool) (t : Directory Path) : (s.setNames t).data = s.data := rfl
@[simp] theorem setNames_fresh (s : Spool) (t : Directory Path) : (s.setNames t).fresh = s.fresh := rfl
@[simp] theorem setNames_fastFiles (s : Spool) (t : Directory Path) :
    (s.setNames t).fastFiles = s.fastFiles := rfl
@[simp] theorem setNames_failed (s : Spool) (t : Directory Path) :
    (s.setNames t).failed = s.failed := rfl
@[simp] theorem addFast_names (s : Spool) (n : Int) : (s.addFast n).names = s.names := rfl
@[simp] theorem addFast_data (s : Spool) (n : Int) : (s.addFast n).data = s.data := rfl
@[simp] theorem addFast_fresh (s : Spool) (n : Int) : (s.addFast n).fresh = s.fresh := rfl
@[simp] theorem addFast_fastFiles (s : Spool) (n : Int) :
    (s.addFast n).fastFiles = s.fastFiles + n := rfl
@[simp] theorem addFast_failed (s : Spool) (n : Int) : (s.addFast n).failed = s.failed := rfl
@[simp] theorem fail_names (s : Spool) (op : FileOp) : (s.fail op).names = s.names := rfl
@[simp] theorem fail_data (s : Spool) (op : FileOp) : (s.fail op).data = s.data := rfl
@[simp] theorem fail_fresh (s : Spool) (op : FileOp) : (s.fail op).fresh = s.fresh := rfl
@[simp] theorem fail_fastFiles (s : Spool) (op : FileOp) : (s.fail op).fastFiles = s.fastFiles := rfl
@[simp] theorem fail_failed (s : Spool) (op : FileOp) : (s.fail op).failed = s.failed ++ [op] := rfl

end Spool

section Rules

variable {α : Type} {order : Dir → List Text → List Text} {Q : α → Spool → Prop} {C : Spool → Prop}
variable {s : Spool}

theorem wpF_link {old new : Path} {k : Bool → SpoolProg α} (hC : C s)
    (hok : ∀ i, s.names.lookup old = some i → s.names.lookup new = none →
      (k true).wpF (spool order) spoolFault Q C (s.setNames (s.names.insert new i)))
    (hno : s.names.link old new = none → (k false).wpF (spool order) spoolFault Q C s)
    (hfail : (k false).wpF (spool order) spoolFault Q C (s.fail (.link old new))) :
    ((Sys.link old new).bind k).wpF (spool order) spoolFault Q C s := by
  refine ⟨hC, ?_, hfail⟩
  change ((k (s.onNames (s.names.link old new)).1).wpF (spool order) spoolFault Q C
    (s.onNames (s.names.link old new)).2)
  cases h : s.names.link old new with
  | none => exact hno h
  | some t =>
    obtain ⟨i, hi, hn, rfl⟩ := Directory.link_eq_some h
    exact hok i hi hn

theorem wpF_unlink {p : Path} {k : Bool → SpoolProg α} (hC : C s)
    (hok : p ∈ s.names →
      (k true).wpF (spool order) spoolFault Q C (s.setNames (s.names.erase p)))
    (hno : s.names.lookup p = none → (k false).wpF (spool order) spoolFault Q C s)
    (hfail : (k false).wpF (spool order) spoolFault Q C (s.fail (.unlink p))) :
    ((Sys.unlink p).bind k).wpF (spool order) spoolFault Q C s := by
  refine ⟨hC, ?_, hfail⟩
  change ((k (s.onNames (s.names.unlink p)).1).wpF (spool order) spoolFault Q C
    (s.onNames (s.names.unlink p)).2)
  cases h : s.names.unlink p with
  | none =>
    refine hno (Directory.not_mem_iff_lookup.mp fun hp => ?_)
    simp [Directory.unlink, hp] at h
  | some t =>
    obtain ⟨hp, rfl⟩ := Directory.unlink_eq_some h
    exact hok hp

theorem wpF_addFastFiles {delta : Int} {k : Unit → SpoolProg α} (hC : C s)
    (hk : (k ()).wpF (spool order) spoolFault Q C (s.addFast delta)) :
    ((Sys.addFastFiles delta).bind k).wpF (spool order) spoolFault Q C s :=
  ⟨hC, hk, hk⟩

end Rules

/-- One of the calls of `env_efile` behind its `rename` failed. -/
def Spool.Late (s : Spool) : Prop := FileOp.clock ∈ s.failed ∨ FileOp.listInsert ∈ s.failed

/-- A call that leaves the files and the counter alone, and was none of those. -/
structure Spool.Quiet (s t : Spool) : Prop where
  names : t.names = s.names
  data : t.data = s.data
  fresh : t.fresh = s.fresh
  fastFiles : t.fastFiles = s.fastFiles
  late : t.Late → s.Late

namespace Spool

theorem Quiet.refl (s : Spool) : s.Quiet s := ⟨rfl, rfl, rfl, rfl, id⟩

theorem Quiet.trans {s t u : Spool} (h : s.Quiet t) (h' : t.Quiet u) : s.Quiet u :=
  ⟨h'.names.trans h.names, h'.data.trans h.data, h'.fresh.trans h.fresh, h'.fastFiles.trans h.fastFiles,
    h.late ∘ h'.late⟩

theorem quiet_fail (s : Spool) {op : FileOp} (hc : op ≠ .clock) (hl : op ≠ .listInsert) :
    s.Quiet (s.fail op) := by
  refine ⟨rfl, rfl, rfl, rfl, fun h => ?_⟩
  simp only [Late, fail_failed, List.mem_append, List.mem_singleton, hc.symm, hl.symm, or_false] at h
  exact h

end Spool

/-- Only the files named by `P` have changed, and no data but that of inodes not yet used. -/
structure Spool.Frame (P : Path → Prop) (s t : Spool) : Prop where
  names : ∀ q, ¬ P q → t.names.lookup q = s.names.lookup q
  data : ∀ j, j < s.fresh → t.data j = s.data j
  fresh : s.fresh ≤ t.fresh

namespace Spool

variable {P P' : Path → Prop} {s t u : Spool}

theorem Frame.refl (P : Path → Prop) (s : Spool) : Frame P s s := ⟨fun _ _ => rfl, fun _ _ => rfl, le_refl _⟩

theorem Frame.trans (h : Frame P s t) (h' : Frame P t u) : Frame P s u :=
  ⟨fun q hq => (h'.names q hq).trans (h.names q hq),
    fun j hj => (h'.data j (lt_of_lt_of_le hj h.fresh)).trans (h.data j hj), le_trans h.fresh h'.fresh⟩

theorem Frame.mono (h : Frame P s t) (hP : ∀ q, P q → P' q) : Frame P' s t :=
  ⟨fun q hq => h.names q fun hp => hq (hP q hp), h.data, h.fresh⟩

theorem Quiet.frame (h : s.Quiet t) (P : Path → Prop) : Frame P s t :=
  ⟨fun q _ => by rw [h.names], fun j _ => by rw [h.data], le_of_eq h.fresh.symm⟩

theorem frame_created {p : Path} (hp : P p) : Frame P s (s.created p) := by
  refine ⟨fun q hq => ?_, fun j hj => if_neg (by omega), Nat.le_succ _⟩
  exact (Directory.lookup_insert_ite _ _ _ _).trans (if_neg fun h : q = p => hq (h ▸ hp))

theorem frame_erase {p : Path} (hp : P p) : Frame P s (s.setNames (s.names.erase p)) := by
  refine ⟨fun q hq => ?_, fun _ _ => rfl, le_refl _⟩
  exact (Directory.lookup_erase_ite _ _ _).trans (if_neg fun h : q = p => hq (h ▸ hp))

end Spool

section QuietRules

variable {α : Type} {order : Dir → List Text → List Text} {Q : α → Spool → Prop} {C : Spool → Prop}
variable {s : Spool}

theorem wpF_fdopen {p : Path} {k : Bool → SpoolProg α} (hC : C s)
    (hk : ∀ b t, s.Quiet t → (k b).wpF (spool order) spoolFault Q C t) :
    ((Sys.fdopen p).bind k).wpF (spool order) spoolFault Q C s :=
  ⟨hC, hk _ _ (Spool.Quiet.refl s), hk _ _ (s.quiet_fail nofun nofun)⟩

theorem wpF_fclose {p : Path} {k : Bool → SpoolProg α} (hC : C s)
    (hk : ∀ b t, s.Quiet t → (k b).wpF (spool order) spoolFault Q C t) :
    ((Sys.fclose p).bind k).wpF (spool order) spoolFault Q C s :=
  ⟨hC, hk _ _ (Spool.Quiet.refl s), hk _ _ (s.quiet_fail nofun nofun)⟩

theorem wpF_localtime {k : Bool → SpoolProg α} (hC : C s)
    (hk : ∀ b t, s.Quiet t → (k b).wpF (spool order) spoolFault Q C t) :
    (Sys.localtime.bind k).wpF (spool order) spoolFault Q C s :=
  ⟨hC, hk _ _ (Spool.Quiet.refl s), hk _ _ (s.quiet_fail nofun nofun)⟩

theorem wpF_read {p : Path} {k : Option (List Text) → SpoolProg α} (hC : C s)
    (hk : ∀ a t, s.Quiet t → (k a).wpF (spool order) spoolFault Q C t) :
    ((Sys.read p).bind k).wpF (spool order) spoolFault Q C s :=
  ⟨hC, hk _ _ (Spool.Quiet.refl s), hk _ _ (s.quiet_fail nofun nofun)⟩

theorem wpF_stat {p : Path} {k : Option (Nat × Nat) → SpoolProg α} (hC : C s)
    (hk : ∀ a t, s.Quiet t → (k a).wpF (spool order) spoolFault Q C t) :
    ((Sys.stat p).bind k).wpF (spool order) spoolFault Q C s :=
  ⟨hC, hk _ _ (Spool.Quiet.refl s), hk _ _ (s.quiet_fail nofun nofun)⟩

theorem wpF_creat {p : Path} {k : Bool → SpoolProg α} (hC : C s)
    (hok : s.names.lookup p = none → (k true).wpF (spool order) spoolFault Q C (s.created p))
    (hno : ∀ t, s.Quiet t → (k false).wpF (spool order) spoolFault Q C t) :
    ((Sys.creat p).bind k).wpF (spool order) spoolFault Q C s := by
  refine ⟨hC, ?_, hno _ (s.quiet_fail nofun nofun)⟩
  by_cases hp : p ∈ s.names
  · rw [show spool order (.creat p) s = (false, s) from if_pos hp]
    exact hno s (Spool.Quiet.refl s)
  · rw [show spool order (.creat p) s = (true, s.created p) from if_neg hp]
    exact hok (Directory.not_mem_iff_lookup.mp hp)

theorem wpF_print {p : Path} {line : Text} {k : Bool → SpoolProg α} (hC : C s)
    (hok : ∀ i, s.names.lookup p = some i → (k true).wpF (spool order) spoolFault Q C
      { s with data := fun j => if j = i then s.data j ++ [line] else s.data j })
    (hno : ∀ t, s.Quiet t → (k false).wpF (spool order) spoolFault Q C t) :
    ((Sys.print p line).bind k).wpF (spool order) spoolFault Q C s := by
  refine ⟨hC, ?_, hno _ (s.quiet_fail nofun nofun)⟩
  change (k (s.edit p (· ++ [line])).1).wpF (spool order) spoolFault Q C (s.edit p (· ++ [line])).2
  cases h : s.names.lookup p with
  | none =>
    simp only [Spool.edit, h]
    exact hno s (Spool.Quiet.refl s)
  | some i =>
    simp only [Spool.edit, h]
    exact hok i h

theorem wpF_rename {old new : Path} {k : Bool → SpoolProg α} (hC : C s)
    (hok : ∀ i, s.names.lookup old = some i →
      (k true).wpF (spool order) spoolFault Q C (s.setNames ((s.names.erase old).insert new i)))
    (hno : ∀ t, s.Quiet t → (k false).wpF (spool order) spoolFault Q C t) :
    ((Sys.rename old new).bind k).wpF (spool order) spoolFault Q C s := by
  refine ⟨hC, ?_, hno _ (s.quiet_fail nofun nofun)⟩
  change ((k (s.onNames (s.names.rename old new)).1).wpF (spool order) spoolFault Q C
    (s.onNames (s.names.rename old new)).2)
  cases h : s.names.rename old new with
  | none => exact hno s (Spool.Quiet.refl s)
  | some t =>
    obtain ⟨i, hi, rfl⟩ := Directory.rename_eq_some h
    exact hok i hi

theorem wpF_clock {k : Option Int → SpoolProg α} (hC : C s)
    (hok : (k (some s.now)).wpF (spool order) spoolFault Q C s)
    (hfail : (k none).wpF (spool order) spoolFault Q C (s.fail .clock)) :
    (Sys.clock.bind k).wpF (spool order) spoolFault Q C s :=
  ⟨hC, hok, hfail⟩

theorem wpF_listInsert {k : Bool → SpoolProg α} (hC : C s)
    (hok : (k true).wpF (spool order) spoolFault Q C s)
    (hfail : (k false).wpF (spool order) spoolFault Q C (s.fail .listInsert)) :
    (Sys.listInsert.bind k).wpF (spool order) spoolFault Q C s :=
  ⟨hC, hok, hfail⟩

end QuietRules

/-! The same calls where none is made to fail. -/

section EndRules

variable {α : Type} {order : Dir → List Text → List Text} {Q : α → Spool → Prop} {s : Spool}

theorem ends_link {old new : Path} {k : Bool → SpoolProg α} {i : Nat}
    (ho : s.names.lookup old = some i) (hn : s.names.lookup new = none)
    (hk : (k true).ends (spool order) Q (s.setNames (s.names.insert new i))) :
    ((Sys.link old new).bind k).ends (spool order) Q s :=
  Prog.ends_call (by simp only [spool, Directory.link_of_lookup ho hn, Spool.onNames]) hk

theorem ends_unlink {p : Path} {k : Bool → SpoolProg α} {i : Nat}
    (hp : s.names.lookup p = some i)
    (hk : (k true).ends (spool order) Q (s.setNames (s.names.erase p))) :
    ((Sys.unlink p).bind k).ends (spool order) Q s :=
  Prog.ends_call (by simp only [spool, Directory.unlink_of_lookup hp, Spool.onNames]) hk

theorem ends_addFastFiles {delta : Int} {k : Unit → SpoolProg α}
    (hk : (k ()).ends (spool order) Q (s.addFast delta)) :
    ((Sys.addFastFiles delta).bind k).ends (spool order) Q s :=
  Prog.ends_call rfl hk

theorem ends_opendir {d : Dir} {k : Bool → SpoolProg α} (hk : (k true).ends (spool order) Q s) :
    ((Sys.opendir d).bind k).ends (spool order) Q s :=
  Prog.ends_call rfl hk

theorem ends_closedir {d : Dir} {k : Bool → SpoolProg α} (hk : (k true).ends (spool order) Q s) :
    ((Sys.closedir d).bind k).ends (spool order) Q s :=
  Prog.ends_call rfl hk

theorem ends_readdir {d : Dir} {k : List Text × Bool → SpoolProg α}
    (hk : (k (order d (s.listing d), false)).ends (spool order) Q s) :
    ((Sys.readdir d).bind k).ends (spool order) Q s :=
  Prog.ends_call rfl hk

theorem ends_stat {p : Path} {k : Option (Nat × Nat) → SpoolProg α} {i : Nat}
    (hp : s.names.lookup p = some i)
    (hk : (k (some (i, s.names.nlink i))).ends (spool order) Q s) :
    ((Sys.stat p).bind k).ends (spool order) Q s :=
  Prog.ends_call (by simp only [spool, hp, Option.map_some]) hk

theorem ends_read {p : Path} {k : Option (List Text) → SpoolProg α} {i : Nat}
    (hp : s.names.lookup p = some i) (hk : (k (some (s.data i))).ends (spool order) Q s) :
    ((Sys.read p).bind k).ends (spool order) Q s :=
  Prog.ends_call (by simp only [spool, hp, Option.map_some]) hk

theorem ends_fclose {p : Path} {k : Bool → SpoolProg α} (hk : (k true).ends (spool order) Q s) :
    ((Sys.fclose p).bind k).ends (spool order) Q s :=
  Prog.ends_call rfl hk

theorem ends_listInsert {k : Bool → SpoolProg α} (hk : (k true).ends (spool order) Q s) :
    (Sys.listInsert.bind k).ends (spool order) Q s :=
  Prog.ends_call rfl hk

end EndRules

end Simta
