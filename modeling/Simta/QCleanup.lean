import Simta.Envelope

/-!
# Startup recovery of the queue directories

`q_cleanup.c`: reading a directory into a list of messages (`qDirStartup`), finding interrupted
expansions among the messages that share a Dfile (`qExpansionCleanup`), and merging a list into
the slow queue (`qMoveToSlow`), put together by `qCleanup`.

Allocations are taken to succeed; every other call may answer with failure.
-/

set_option autoImplicit false

namespace Simta

/-- How a function of this file ends: a failed assertion, a non-zero return, or a result. -/
inductive Outcome (α : Type)
  | abort
  | fail
  | done (a : α)
  deriving DecidableEq, Repr

def Outcome.map {α β : Type} (f : α → β) : Outcome α → Outcome β
  | .abort => .abort
  | .fail => .fail
  | .done a => .done (f a)

/-- `Q_DIR_EMPTY`, `Q_DIR_EXIST`, `Q_DIR_CLEAN`. -/
inductive QDirAction
  | empty
  | exist
  | clean
  deriving DecidableEq, Repr

/-! ## `q_dir_startup` -/

/-- The locals of `q_dir_startup`: the messages, the files to unlink, and `bad_filesystem`. -/
structure DirScan where
  messages : List Envelope
  fList : List Path
  bad : Bool

/-- An Efile or a Dfile was seen. -/
def noteFlag (isEfile : Bool) (env : Envelope) : Envelope :=
  if isEfile then env.setEfile true else env.setDfile true

/-- The search of the sorted list for the id of a file, and the insertion of a new envelope.
    `stamp` is the id that `env_create` makes up for an empty one. -/
def noteFile (conf : Conf) (stamp : Text) (dir : Dir) (isEfile : Bool) (id : Text) :
    List Envelope → List Envelope
  | [] => [noteFlag isEfile (envCreate conf dir (if id = [] then stamp else id) none none)]
  | env :: rest =>
    match strcmp id env.eId with
    | .gt => env :: noteFile conf stamp dir isEfile id rest
    | .eq => noteFlag isEfile env :: rest
    | .lt =>
      noteFlag isEfile (envCreate conf dir (if id = [] then stamp else id) none none) :: env :: rest

/-- One entry of the directory. -/
def dirEntry (conf : Conf) (stamp : Text) (dir : Dir) (action : QDirAction) (scan : DirScan)
    (name : Text) : DirScan :=
  if name = ['.'] ∨ name = ['.', '.'] then scan
  else if action = .empty then { scan with bad := true }
  else
    match name with
    | 'E' :: id => { scan with messages := noteFile conf stamp dir true id scan.messages }
    | 'D' :: id => { scan with messages := noteFile conf stamp dir false id scan.messages }
    | 't' :: _ =>
      if dir = .loc then scan
      else if conf.filesystemCleanup then
        if scan.bad then scan else { scan with fList := ⟨dir, name⟩ :: scan.fList }
      else { scan with bad := true }
    | _ => { scan with bad := true }

/-- The second loop: messages that lack a file leave the list. -/
def dirOrphans (conf : Conf) (dir : Dir) : List Envelope → List Path → Bool → DirScan
  | [], fList, bad => ⟨[], fList, bad⟩
  | env :: rest, fList, bad =>
    if env.eFlags.dfile = false then dirOrphans conf dir rest fList true
    else if env.eFlags.efile = false then
      if dir = .loc then dirOrphans conf dir rest fList bad
      else if conf.filesystemCleanup ∧ bad = false then
        dirOrphans conf dir rest (dfile dir env.eId :: fList) bad
      else dirOrphans conf dir rest fList true
    else
      let scan := dirOrphans conf dir rest fList bad
      { scan with messages := env :: scan.messages }

/-- The third loop: the files of `f_list` are unlinked, stopping at the first failure. -/
def unlinkFiles : List Path → SpoolProg Bool
  | [] => return true
  | p :: rest => do
    if ← Sys.unlink p then unlinkFiles rest else return false

/-- `q_dir_startup`. -/
def qDirStartup (conf : Conf) (stamp : Text) (dir : Dir) (action : QDirAction) :
    SpoolProg (Outcome (List Envelope)) := do
  if ← Sys.opendir dir then
    if action = .exist then
      if ← Sys.closedir dir then return .done [] else return .fail
    else
      let (names, errno) ← Sys.readdir dir
      let scan := names.foldl (dirEntry conf stamp dir action) ⟨[], [], false⟩
      let bad := scan.bad || errno
      if ← Sys.closedir dir then
        if bad then return .fail
        else if action = .empty then return .done []
        else
          let scan := dirOrphans conf dir scan.messages scan.fList bad
          if scan.bad then return .fail
          else if ← unlinkFiles scan.fList then return .done scan.messages
          else return .fail
      else return .fail
  else return .fail

/-! ## `q_expansion_cleanup` -/

/-- `struct i_list`: the messages seen so far whose Efile names one Dfile inode.  The last message
    added to `i_expanded_list` is at its head. -/
structure IList where
  iDinode : Nat
  iExpandedList : List Envelope
  iUnexpanded : Option Envelope

/-- One more message of a family; the second component holds the messages it marks for deletion,
    and `none` is a failed assertion. -/
def IList.add (i : IList) (env : Envelope) : Option (IList × List Envelope) :=
  match i.iUnexpanded with
  | some unexpanded =>
    if env.eNExpLevel - 1 = unexpanded.eNExpLevel then some (i, [env]) else none
  | none =>
    match i.iExpandedList with
    | [] => none
    | first :: more =>
      if first.eNExpLevel = env.eNExpLevel then
        some ({ i with iExpandedList := env :: first :: more }, [])
      else if first.eNExpLevel = env.eNExpLevel + 1 then
        some ({ i with iUnexpanded := some env }, first :: more)
      else if more = [] ∧ first.eNExpLevel = env.eNExpLevel - 1 then
        some ({ i with iUnexpanded := some first, iExpandedList := [env] }, [env])
      else none

/-- The search of the sorted list of families. -/
def iListAdd (env : Envelope) : List IList → Option (List IList × List Envelope)
  | [] => some ([⟨env.eDinode, [env], none⟩], [])
  | i :: rest =>
    if env.eDinode ≤ i.iDinode then
      if env.eDinode = i.iDinode then (i.add env).map fun (i, marked) => (i :: rest, marked)
      else some (⟨env.eDinode, [env], none⟩ :: i :: rest, [])
    else (iListAdd env rest).map fun (rest, marked) => (i :: rest, marked)

/-- The first loop: the families, and the ids of the messages marked `ENV_FLAG_DELETE`. -/
def qExpansionScan (conf : Conf) (version0 : Int) (dinode0 : Nat) :
    List Envelope → List IList → List Text → SpoolProg (Outcome (List Text))
  | [], _, delete => return .done delete
  | env :: rest, inodeList, delete => do
    match ← Sys.stat env.dfile with
    | none => return .fail
    | some (ino, nlink) =>
      -- a link count above one: it could be part of an expansion
      if nlink > 1 then
        match ← envRead conf .queueInfo version0 dinode0 { env with eDinode := ino } with
        | (0, env) =>
          match iListAdd env inodeList with
          | none => return .abort
          | some (inodeList, marked) =>
            qExpansionScan conf version0 dinode0 rest inodeList (delete ++ marked.map Envelope.eId)
        | _ => return .fail
      else qExpansionScan conf version0 dinode0 rest inodeList delete

/-- The second loop: the marked messages are unlinked and leave the list. -/
def qExpansionDelete (delete : List Text) : List Envelope → SpoolProg (Outcome (List Envelope))
  | [] => return .done []
  | env :: rest => do
    if env.eId ∈ delete then
      match ← envUnlink env with
      | (0, _) => qExpansionDelete delete rest
      | _ => return .fail
    else
      return (← qExpansionDelete delete rest).map (env :: ·)

/-- `q_expansion_cleanup`. -/
def qExpansionCleanup (conf : Conf) (version0 : Int) (dinode0 : Nat) (fast : List Envelope) :
    SpoolProg (Outcome (List Envelope)) := do
  match ← qExpansionScan conf version0 dinode0 fast [] [] with
  | .done delete => qExpansionDelete delete fast
  | .fail => return .fail
  | .abort => return .abort

/-! ## `q_move_to_slow` -/

/-- The message files are moved to SLOW and the message is put before `slow`; `next` goes on with
    that part of the slow list.  The result is the slow list and the number of collisions. -/
def insertInSlow (move : Envelope)
    (next : List Envelope → SpoolProg (Outcome (List Envelope × Nat))) (slow : List Envelope) :
    SpoolProg (Outcome (List Envelope × Nat)) := do
  match ← envMove move .slow with
  | some (0, moved) => return (← next slow).map fun r => (moved :: r.1, r.2)
  | some _ => return .fail
  | none => return .abort

/-- The place of one message in the slow list. -/
def placeInSlow (conf : Conf) (move : Envelope)
    (next : List Envelope → SpoolProg (Outcome (List Envelope × Nat))) :
    List Envelope → SpoolProg (Outcome (List Envelope × Nat))
  | [] => insertInSlow move next []
  | s :: slow =>
    match strcmp move.eId s.eId with
    | .gt => do return (← placeInSlow conf move next slow).map fun r => (s :: r.1, r.2)
    | .lt => insertInSlow move next (s :: slow)
    | .eq => do
      -- file collision - message is already in the slow queue
      if conf.filesystemCleanup then
        match ← envUnlink move with
        | (0, _) => return (← next slow).map fun r => (s :: r.1, r.2)
        | _ => return .fail
      else return (← next slow).map fun r => (s :: r.1, r.2 + 1)

/-- `q_move_to_slow`. -/
def qMoveToSlow (conf : Conf) :
    List Envelope → List Envelope → SpoolProg (Outcome (List Envelope × Nat))
  | slow, [] => return .done (slow, 0)
  | slow, move :: other => placeInSlow conf move (fun slow => qMoveToSlow conf slow other) slow

/-- `q_move_to_slow` as its callers use it: any collision left is an error. -/
def qMoveToSlowOk (conf : Conf) (slow other : List Envelope) :
    SpoolProg (Outcome (List Envelope)) := do
  match ← qMoveToSlow conf slow other with
  | .done (slow, 0) => return .done slow
  | .abort => return .abort
  | _ => return .fail

/-- Go on with the result of a step of `q_cleanup`. -/
def andThen {α β : Type} (p : SpoolProg (Outcome α)) (f : α → SpoolProg (Outcome β)) :
    SpoolProg (Outcome β) := do
  match ← p with
  | .done a => f a
  | .fail => return .fail
  | .abort => return .abort

/-- `q_cleanup`; `version0` and `dinode0` are the unset locals of `env_read`. -/
def qCleanup (conf : Conf) (stamp : Text) (version0 : Int) (dinode0 : Nat) :
    SpoolProg (Outcome (List Envelope)) :=
  andThen (qDirStartup conf stamp .dead .exist) fun _ =>
  andThen (qDirStartup conf stamp .slow .clean) fun slow =>
  andThen
    (if conf.filesystemCleanup then
      andThen (qDirStartup conf stamp .fast .clean) fun fast =>
      andThen (qExpansionCleanup conf version0 dinode0 fast) fun fast =>
      qMoveToSlowOk conf slow fast
    else
      andThen (qDirStartup conf stamp .fast .empty) fun _ => return .done slow) fun slow =>
  andThen (qDirStartup conf stamp .loc .clean) fun loc =>
  qMoveToSlowOk conf slow loc

end Simta
