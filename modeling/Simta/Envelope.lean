import Mathlib.Algebra.Group.Int.Defs
import Mathlib.Algebra.Group.Nat.Defs
import Simta.Spool

/-!
# Envelopes and their queue files

`envelope.c`: the envelope record, reading an Efile, and moving or removing the Efile and the Dfile
of a message.

* `envUnlink`, `envDfileUnlink`, `envMove` — removing a message and moving it;
* `envRead` — reading it back, in the three modes of the source.
-/

set_option autoImplicit false

namespace Simta

/-- `R_TEMPFAIL`, `R_ACCEPTED`, `R_FAILED`. -/
inductive RStatus
  | tempfail
  | accepted
  | failed
  deriving DecidableEq, Repr

structure Recipient where
  rRcpt : Text
  rStatus : RStatus
  rErrText : Option (List Text)
  deriving DecidableEq, Repr

/-- The bits of `e_flags`. -/
structure EnvFlags where
  tfile : Bool
  efile : Bool
  dfile : Bool
  bounce : Bool
  tempfail : Bool
  punt : Bool
  delete : Bool
  supressNoEmail : Bool
  deriving DecidableEq, Repr

/-- `ENV_AGE_UNKNOWN`, `ENV_AGE_OLD`, `ENV_AGE_NOT_OLD`. -/
inductive EnvAge
  | unknown
  | old
  | notOld
  deriving DecidableEq, Repr

structure Envelope where
  eId : Text
  eDir : Dir
  eMail : Option Text
  eRcpt : List Recipient
  eNRcpt : Int
  eNExpLevel : Int
  eDinode : Nat
  eAge : EnvAge
  eFlags : EnvFlags
  eJail : Int
  eHostname : Option Text
  eAttributes : Int
  eMid : Option Text
  eErrText : Option (List Text)
  eEtime : Int
  deriving DecidableEq, Repr

/-- The globals of the configuration that the queue code reads. -/
structure Conf where
  hostname : Text := []
  filesystemCleanup : Bool := false
  mailJail : Bool := false
  bounceJail : Bool := false
  jailBounceAddress : Option Text := none
  jailHost : Option Text := none
  midListEnable : Bool := false
  senderListEnable : Bool := false

def envJailNoChange : Int := 0
def envJailParolee : Int := 1
def envJailPrisoner : Int := 2

def EnvFlags.none : EnvFlags := ⟨false, false, false, false, false, false, false, false⟩

/-- `env_create` with an id, once its allocations have succeeded. -/
def envCreate (conf : Conf) (dir : Dir) (id : Text) (eMail : Option Text) (parent : Option Envelope) :
    Envelope where
  eId := id
  eDir := dir
  eMail := eMail
  eRcpt := []
  eNRcpt := 0
  eNExpLevel := match parent with
    | some p => p.eNExpLevel + 1
    | none => 0
  eDinode := 0
  eAge := .unknown
  eFlags := .none
  eJail := match parent with
    | some p => p.eJail
    | none => if conf.mailJail then envJailPrisoner else envJailNoChange
  eHostname := none
  eAttributes := 0
  eMid := none
  eErrText := none
  eEtime := 0

namespace Envelope

/-- `env->e_dir/E<id>` and its siblings. -/
def efile (env : Envelope) : Path := Simta.efile env.eDir env.eId
def dfile (env : Envelope) : Path := Simta.dfile env.eDir env.eId
def tfile (env : Envelope) : Path := Simta.tfile env.eDir env.eId

def setEfile (env : Envelope) (b : Bool) : Envelope := { env with eFlags.efile := b }
def setDfile (env : Envelope) (b : Bool) : Envelope := { env with eFlags.dfile := b }
def setTfile (env : Envelope) (b : Bool) : Envelope := { env with eFlags.tfile := b }

@[simp] theorem setEfile_eId (env : Envelope) (b : Bool) : (env.setEfile b).eId = env.eId := rfl
@[simp] theorem setDfile_eId (env : Envelope) (b : Bool) : (env.setDfile b).eId = env.eId := rfl
@[simp] theorem setTfile_eId (env : Envelope) (b : Bool) : (env.setTfile b).eId = env.eId := rfl
@[simp] theorem setEfile_eDir (env : Envelope) (b : Bool) : (env.setEfile b).eDir = env.eDir := rfl
@[simp] theorem setDfile_eDir (env : Envelope) (b : Bool) : (env.setDfile b).eDir = env.eDir := rfl
@[simp] theorem setTfile_eDir (env : Envelope) (b : Bool) : (env.setTfile b).eDir = env.eDir := rfl

end Envelope

/-! ## Removing and moving -/

/-- The `if ( dir == simta_dir_fast ) simta_fast_files += delta` of this file. -/
def countFast (dir : Dir) (delta : Int) : SpoolProg Unit :=
  Sys.addFastFiles (if dir = .fast then delta else 0)

/-- `env_dfile_unlink`. -/
def envDfileUnlink (e : Envelope) : SpoolProg (Int × Envelope) := do
  if ← Sys.unlink e.dfile then
    return (0, e.setDfile false)
  else
    return (-1, e)

/-- `env_unlink`: the result of `env_dfile_unlink` is not looked at. -/
def envUnlink (env : Envelope) : SpoolProg (Int × Envelope) := do
  if ← Sys.unlink env.efile then
    countFast env.eDir (-1)
    let (_, env) ← envDfileUnlink (env.setEfile false)
    return (0, env)
  else
    return (-1, env)

/-- The part of `env_move` after both links are made: remove the old files, or roll back. -/
def envMoveUnlink (env : Envelope) (targetDir : Dir) : SpoolProg (Int × Envelope) := do
  match ← envUnlink env with
  | (0, env) => return (0, { env with eDir := targetDir, eFlags.efile := true })
  | (_, env) =>
    if ← Sys.unlink (efile targetDir env.eId) then
      countFast targetDir (-1)
      let _ ← Sys.unlink (dfile targetDir env.eId)
    return (-1, env)

/-- `env_move`; `none` is the failed assertion on the target. -/
def envMove (env : Envelope) (targetDir : Dir) : SpoolProg (Option (Int × Envelope)) := do
  if targetDir = .slow ∨ targetDir = .fast then
    if env.eDir ≠ targetDir then
      if ← Sys.link env.dfile (dfile targetDir env.eId) then
        if ← Sys.link env.efile (efile targetDir env.eId) then
          countFast targetDir 1
          some <$> envMoveUnlink env targetDir
        else
          let _ ← Sys.unlink (dfile targetDir env.eId)
          return some (-1, env)
      else
        return some (-1, env)
    else
      return some (0, env)
  else
    return none

/-! ## Reading an Efile -/

/-- `READ_QUEUE_INFO`, `READ_DELIVER_INFO`, `READ_JAIL_INFO`. -/
inductive ReadMode
  | queueInfo
  | deliverInfo
  | jailInfo
  deriving DecidableEq, Repr

/-- `SIMTA_EFILE_VERSION`. -/
def simtaEfileVersion : Int := 5

def isSpace (c : Char) : Bool := c = ' ' || ('\t' ≤ c && c ≤ '\r')

/-- The digits at the head of a text, as a number. -/
def takeDigits (s : Text) : Nat :=
  (s.takeWhile Char.isDigit).foldl (fun n c => 10 * n + (c.toNat - '0'.toNat)) 0

/-- The sign and the digits of a `scanf` conversion; `none` when there is no digit. -/
def scanNumber (s : Text) : Option (Bool × Nat) :=
  let s := s.dropWhile isSpace
  let (neg, s) :=
    match s with
    | '-' :: rest => (true, rest)
    | '+' :: rest => (false, rest)
    | _ => (false, s)
  if (s.takeWhile Char.isDigit).isEmpty then none else some (neg, takeDigits s)

/-- `sscanf( s, "%d", … )`: `strtol` saturates to 64 bits and the result is stored in an `int`. -/
def sscanfD (s : Text) : Option Int :=
  (scanNumber s).map fun (neg, n) =>
    let v : Int := if neg then max (-(n : Int)) (-2 ^ 63) else min (n : Int) (2 ^ 63 - 1)
    Int.bmod v (2 ^ 32)

/-- `sscanf( s, "%lu", … )`: `strtoul` saturates, and negates modulo `2 ^ 64`. -/
def sscanfLu (s : Text) : Option Nat :=
  (scanNumber s).map fun (neg, n) =>
    if 2 ^ 64 ≤ n then 2 ^ 64 - 1 else if neg then (2 ^ 64 - n) % 2 ^ 64 else n

/-- `strcasecmp( a, b ) == 0`. -/
def strcaseEq (a b : Text) : Bool := a.map Char.toLower = b.map Char.toLower

/-- A character that is no letter is the small form of itself only. -/
theorem toLower_eq_iff {c d : Char} (hd : d.toNat < 65 ∨ 90 < d.toNat ∧ d.toNat < 97) : c.toLower = d ↔ c = d := by
  unfold Char.toLower
  split
  · rename_i hc
    have h₁ := UInt32.le_iff_toNat_le.mp hc.1
    have h₂ := UInt32.le_iff_toNat_le.mp hc.2
    constructor
    · rintro rfl
      simp only [Char.toNat, UInt32.toNat_add] at hd
      simp at h₁ h₂ hd
      omega
    · rintro rfl
      have hval : c.toNat = c.val.toNat := rfl
      simp at h₁ h₂
      omega
  · rfl

theorem toLower_idem (c : Char) : c.toLower.toLower = c.toLower := by
  have hnot : ¬ (c.toLower.val ≥ 'A'.val ∧ c.toLower.val ≤ 'Z'.val) := by
    unfold Char.toLower
    rintro ⟨h₁, h₂⟩
    have h₁ := UInt32.le_iff_toNat_le.mp h₁
    have h₂ := UInt32.le_iff_toNat_le.mp h₂
    split at h₁
    · rename_i hc
      have h₃ := UInt32.le_iff_toNat_le.mp hc.1
      have h₄ := UInt32.le_iff_toNat_le.mp hc.2
      rw [dif_pos hc] at h₂
      simp only [UInt32.toNat_add] at h₁ h₂
      simp at h₁ h₂ h₃ h₄
      omega
    · rename_i hc
      rw [dif_neg hc] at h₂
      exact hc ⟨UInt32.le_iff_toNat_le.mpr h₁, UInt32.le_iff_toNat_le.mpr h₂⟩
  generalize c.toLower = d at hnot ⊢
  unfold Char.toLower
  rw [dif_neg hnot]

/-- `env_recipient`. -/
def envRecipient (e : Envelope) (addr : Text) : Envelope :=
  { e with eRcpt := ⟨addr, .tempfail, none⟩ :: e.eRcpt, eNRcpt := e.eNRcpt + 1 }

/-- `env_sender`; `none` when there is a sender already. -/
def envSender (env : Envelope) (eMail : Text) : Option Envelope :=
  match env.eMail with
  | some _ => none
  | none => some { env with eMail := some eMail }

/-- `env_hostname`: a second host name is ignored. -/
def envHostname (env : Envelope) (hostname : Text) : Envelope :=
  match env.eHostname with
  | some _ => env
  | none => if hostname = [] then env else { env with eHostname := some hostname }

/-- One step of `env_read`: the envelope as far as it was filled in when the read fails. -/
abbrev EnvRead (α : Type) : Type := Except Envelope α

/-- A line that must start with `c`. -/
def expectLine (env : Envelope) (c : Char) : List Text → EnvRead (Text × List Text)
  | (x :: line) :: rest => if x = c then .ok (line, rest) else .error env
  | _ => .error env

/-- A number that the line must hold. -/
def expectD (env : Envelope) (line : Text) : EnvRead Int :=
  match sscanfD line with
  | some v => .ok v
  | none => .error env

/-- `Rto-addresses`. -/
def readRecipients : Envelope → List Text → EnvRead Envelope
  | env, [] => .ok env
  | env, ('R' :: addr) :: rest => readRecipients (envRecipient env addr) rest
  | env, _ :: _ => .error env

/-- A line with a number that only some versions of the file have. -/
def readNumber (present : Prop) [Decidable present] (c : Char) (set : Envelope → Int → Envelope)
    (env : Envelope) (lines : List Text) : EnvRead (Envelope × List Text) := do
  if present then
    let (line, lines) ← expectLine env c lines
    let v ← expectD env line
    return (set env v, lines)
  else return (env, lines)

/-- `Equeue-id`, from version 2 on. -/
def readQueueId (version : Int) (env : Envelope) (lines : List Text) : EnvRead (List Text) := do
  if version ≥ 2 then
    let (line, lines) ← expectLine env 'E' lines
    if line = env.eId then return lines else throw env
  else return lines

/-- `Hdestination-host`: kept in the first mode, compared in the others. -/
def readHost (mode : ReadMode) (env : Envelope) (hostname : Text) : EnvRead Envelope :=
  if mode = .queueInfo then .ok (envHostname env hostname)
  else
    match env.eHostname with
    | none => if hostname = [] then .ok env else .error env
    | some old => if strcaseEq hostname old then .ok env else .error env

/-- `Ffrom-address`, and the recipients in the modes that read them. -/
def readSender (mode : ReadMode) (env : Envelope) (sender : Text) (lines : List Text) :
    EnvRead Envelope := do
  if mode = .queueInfo then
    match envSender env sender with
    | some env => return env
    | none => throw env
  else if env.eMail = some sender then
    let env ← readRecipients env lines
    if env.eRcpt = [] then throw env else return env
  else throw env

/-- The lines of an Efile.  `version0` and `dinode0` are what the two locals hold before the
    `sscanf` whose result is not checked. -/
def envReadLines (mode : ReadMode) (version0 : Int) (dinode0 : Nat) (env : Envelope)
    (lines : List Text) : EnvRead Envelope := do
  let keep := fun (set : Envelope → Int → Envelope) (env : Envelope) v =>
    if mode = .queueInfo then set env v else env
  let (line, lines) ← expectLine env 'V' lines
  let version := (sscanfD line).getD version0
  if version < 1 ∨ version > simtaEfileVersion then throw env
  else
    let lines ← readQueueId version env lines
    -- an optional message id line is skipped
    let lines :=
      match lines with
      | ('M' :: _) :: rest => rest
      | _ => lines
    let (line, lines) ← expectLine env 'I' lines
    let env := if mode = .queueInfo then { env with eDinode := (sscanfLu line).getD dinode0 } else env
    let (env, lines) ←
      readNumber (version ≥ 3) 'X' (keep fun env v => { env with eNExpLevel := v }) env lines
    let (env, lines) ←
      readNumber (version ≥ 5) 'J' (keep fun env v => { env with eJail := v }) env lines
    let (hostname, lines) ← expectLine env 'H' lines
    let env ← readHost mode env hostname
    let (env, lines) ←
      readNumber (version ≥ 4) 'D' (keep fun env v => { env with eAttributes := v }) env lines
    let (sender, lines) ← expectLine env 'F' lines
    readSender mode env sender lines

/-! ## What reading leaves -/

/-- `x` is `env` with the fields of an Efile filled in; the modes that compare them fill in recipients. -/
def FilledIn (mode : ReadMode) (env x : Envelope) : Prop :=
  if mode = .queueInfo then
    x = { env with
      eDinode := x.eDinode, eNExpLevel := x.eNExpLevel, eJail := x.eJail, eHostname := x.eHostname
      eAttributes := x.eAttributes, eMail := x.eMail }
  else x = { env with eRcpt := x.eRcpt, eNRcpt := x.eNRcpt }

section FilledIn

variable {mode : ReadMode} {env x y : Envelope} {α β : Type} {get : α → Envelope} {get' : β → Envelope}

theorem FilledIn.refl (mode : ReadMode) (env : Envelope) : FilledIn mode env env := by
  unfold FilledIn
  split <;> rfl

theorem FilledIn.trans (h : FilledIn mode env x) (h' : FilledIn mode x y) : FilledIn mode env y := by
  unfold FilledIn at h h' ⊢
  split
  · rename_i hm
    rw [if_pos hm] at h h'
    rw [h', h]
  · rename_i hm
    rw [if_neg hm] at h h'
    rw [h', h]

theorem FilledIn.of_queueInfo (hx : x = { env with
    eDinode := x.eDinode, eNExpLevel := x.eNExpLevel, eJail := x.eJail, eHostname := x.eHostname
    eAttributes := x.eAttributes, eMail := x.eMail }) : FilledIn .queueInfo env x := by
  unfold FilledIn
  rw [if_pos rfl]
  exact hx

theorem FilledIn.eId (h : FilledIn mode env x) : x.eId = env.eId := by
  unfold FilledIn at h
  split at h <;> rw [h]

theorem FilledIn.eDir (h : FilledIn mode env x) : x.eDir = env.eDir := by
  unfold FilledIn at h
  split at h <;> rw [h]

theorem FilledIn.eFlags (h : FilledIn mode env x) : x.eFlags = env.eFlags := by
  unfold FilledIn at h
  split at h <;> rw [h]

/-- A step of `env_read` has only filled in fields, also where it fails. -/
def Fills (mode : ReadMode) (env : Envelope) (get : α → Envelope) : EnvRead α → Prop
  | .ok a => FilledIn mode env (get a)
  | .error x => FilledIn mode env x

theorem Fills.bind {m : EnvRead α} {f : α → EnvRead β} (hm : Fills mode env get m)
    (hf : ∀ a, m = .ok a → Fills mode (get a) get' (f a)) : Fills mode env get' (m >>= f) := by
  cases m with
  | error x => exact hm
  | ok a =>
    have hfa := hf a rfl
    show Fills mode env get' (f a)
    cases hr : f a <;> rw [hr] at hfa <;> exact hm.trans hfa

theorem expectLine_fills (c : Char) (lines : List Text) :
    Fills mode env (fun _ => env) (expectLine env c lines) := by
  unfold expectLine
  split
  · split <;> exact .refl mode env
  · exact .refl mode env

theorem readNumber_fills {present : Prop} [Decidable present] (c : Char)
    {set : Envelope → Int → Envelope} (hset : ∀ env v, FilledIn mode env (set env v)) (lines : List Text) :
    Fills mode env Prod.fst (readNumber present c set env lines) := by
  unfold readNumber
  split
  · refine (expectLine_fills c lines).bind fun r _ => ?_
    have hd : Fills mode env (fun _ => env) (expectD env r.1) := by
      unfold expectD
      split <;> exact .refl mode env
    exact hd.bind fun v _ => hset env v
  · exact .refl mode env

theorem readQueueId_fills (version : Int) (lines : List Text) :
    Fills mode env (fun _ => env) (readQueueId version env lines) := by
  unfold readQueueId
  split
  · refine (expectLine_fills 'E' lines).bind fun r _ => ?_
    dsimp only
    split <;> exact .refl mode env
  · exact .refl mode env

theorem readHost_fills (hostname : Text) : Fills mode env id (readHost mode env hostname) := by
  unfold readHost
  split
  · rename_i hm
    subst hm
    refine .of_queueInfo ?_
    unfold envHostname
    split
    · rfl
    · dsimp only [id]
      split <;> rfl
  · split <;> split <;> exact .refl mode env

theorem readRecipients_fills (hm : mode ≠ .queueInfo) (lines : List Text) :
    Fills mode env id (readRecipients env lines) := by
  induction lines generalizing env with
  | nil => exact .refl mode env
  | cons line rest ih =>
    cases line with
    | nil => exact .refl mode env
    | cons c addr =>
      by_cases hc : c = 'R'
      · subst hc
        have hadd : FilledIn mode env (envRecipient env addr) := by
          unfold FilledIn
          rw [if_neg hm]
          rfl
        have hrest := @ih (envRecipient env addr)
        show Fills mode env id (readRecipients (envRecipient env addr) rest)
        cases hr : readRecipients (envRecipient env addr) rest <;> rw [hr] at hrest <;> exact hadd.trans hrest
      · have herror : readRecipients env ((c :: addr) :: rest) = .error env := by simp [readRecipients, hc]
        rw [herror]
        exact .refl mode env

theorem readSender_fills (sender : Text) (lines : List Text) :
    Fills mode env id (readSender mode env sender lines) := by
  unfold readSender
  split
  · rename_i hm
    subst hm
    unfold envSender
    cases hmail : env.eMail with
    | some _ => exact .refl _ env
    | none => exact .of_queueInfo rfl
  · rename_i hm
    split
    · refine (readRecipients_fills hm lines).bind fun x _ => ?_
      dsimp only [id]
      split <;> exact .refl mode x
    · exact .refl mode env

/-- **Reading an Efile only fills in its fields.** -/
theorem envReadLines_fills (version0 : Int) (dinode0 : Nat) (lines : List Text) :
    Fills mode env id (envReadLines mode version0 dinode0 env lines) := by
  have hkeep : ∀ (set : Envelope → Int → Envelope),
      (∀ env v, FilledIn .queueInfo env (set env v)) →
      ∀ env v, FilledIn mode env (if mode = .queueInfo then set env v else env) := by
    intro set hset env v
    split
    · rename_i hm
      subst hm
      exact hset env v
    · exact .refl mode env
  unfold envReadLines
  refine (expectLine_fills 'V' lines).bind fun r _ => ?_
  dsimp only
  split
  · exact .refl mode env
  · refine (readQueueId_fills _ _).bind fun lines _ => ?_
    refine (expectLine_fills 'I' _).bind fun r _ => ?_
    have hdinode : FilledIn mode env
        (if mode = .queueInfo then { env with eDinode := (sscanfLu r.1).getD dinode0 } else env) := by
      split
      · rename_i hm
        subst hm
        exact .of_queueInfo rfl
      · exact .refl mode env
    have hrest : ∀ {env' : Envelope} {m : EnvRead Envelope}, FilledIn mode env env' →
        Fills mode env' id m → Fills mode env id m := by
      intro env' m h h'
      cases m <;> exact h.trans h'
    refine hrest hdinode ?_
    refine (readNumber_fills 'X' (hkeep _ fun _ _ => .of_queueInfo rfl) _).bind fun r₁ _ => ?_
    refine (readNumber_fills 'J' (hkeep _ fun _ _ => .of_queueInfo rfl) _).bind fun r₂ _ => ?_
    refine (expectLine_fills 'H' _).bind fun r₃ _ => ?_
    refine (readHost_fills _).bind fun env₁ _ => ?_
    refine (readNumber_fills 'D' (hkeep _ fun _ _ => .of_queueInfo rfl) _).bind fun r₄ _ => ?_
    refine (expectLine_fills 'F' _).bind fun r₅ _ => ?_
    exact readSender_fills _ _

theorem envReadLines_eId {version0 : Int} {dinode0 : Nat} {lines : List Text}
    (h : envReadLines mode version0 dinode0 env lines = .ok x) : x.eId = env.eId := by
  have hf := @envReadLines_fills mode env version0 dinode0 lines
  rw [h] at hf
  exact FilledIn.eId hf

/-! ## The modes that compare -/

/-- The two agree in what `env_read` compares with the file. -/
structure Alike (env x : Envelope) : Prop where
  eId : x.eId = env.eId
  eHostname : x.eHostname = env.eHostname
  eMail : x.eMail = env.eMail

theorem Alike.refl (env : Envelope) : Alike env env := ⟨rfl, rfl, rfl⟩

theorem FilledIn.alike (hm : mode ≠ .queueInfo) (h : FilledIn mode env x) : Alike env x := by
  unfold FilledIn at h
  rw [if_neg hm] at h
  rw [h]
  exact ⟨rfl, rfl, rfl⟩

/-- A step that fails, or gives the same, for all envelopes that agree. -/
def Uniform (env : Envelope) (f : Envelope → EnvRead α) : Prop :=
  (∀ x, Alike env x → f x = .error x) ∨ ∃ g : Envelope → α, ∀ x, Alike env x → f x = .ok (g x)

theorem expectLine_uniform (c : Char) (lines : List Text) :
    (∀ x, expectLine x c lines = .error x) ∨ ∃ r, ∀ x, expectLine x c lines = .ok r := by
  unfold expectLine
  split
  · split
    · exact .inr ⟨_, fun _ => rfl⟩
    · exact .inl fun _ => rfl
  · exact .inl fun _ => rfl

theorem expectD_uniform (line : Text) :
    (∀ x, expectD x line = .error x) ∨ ∃ v, ∀ x, expectD x line = .ok v := by
  unfold expectD
  split
  · exact .inr ⟨_, fun _ => rfl⟩
  · exact .inl fun _ => rfl

theorem readNumber_uniform (present : Prop) [Decidable present] (c : Char) (lines : List Text) :
    (∀ x, readNumber present c (fun env _ => env) x lines = .error x) ∨
      ∃ rest, ∀ x, readNumber present c (fun env _ => env) x lines = .ok (x, rest) := by
  unfold readNumber
  split
  · rcases expectLine_uniform c lines with h | ⟨⟨line, rest⟩, h⟩
    · exact .inl fun x => by rw [h]; rfl
    · rcases expectD_uniform line with hd | ⟨v, hd⟩
      · refine .inl fun x => ?_
        rw [h]
        show (expectD x line >>= _) = _
        rw [hd]
        rfl
      · refine .inr ⟨rest, fun x => ?_⟩
        rw [h]
        show (expectD x line >>= _) = _
        rw [hd]
        rfl
  · exact .inr ⟨lines, fun _ => rfl⟩

theorem readQueueId_uniform (version : Int) (env : Envelope) (lines : List Text) :
    (∀ x, Alike env x → readQueueId version x lines = .error x) ∨
      ∃ rest, ∀ x, Alike env x → readQueueId version x lines = .ok rest := by
  unfold readQueueId
  split
  · rcases expectLine_uniform 'E' lines with h | ⟨⟨line, rest⟩, h⟩
    · exact .inl fun x _ => by rw [h]; rfl
    · by_cases hid : line = env.eId
      · refine .inr ⟨rest, fun x hx => ?_⟩
        rw [h]
        show (if line = x.eId then _ else _) = _
        rw [if_pos (hid.trans hx.eId.symm)]
        rfl
      · refine .inl fun x hx => ?_
        rw [h]
        show (if line = x.eId then _ else _) = _
        rw [if_neg fun hl => hid (hl.trans hx.eId)]
        rfl
  · exact .inr ⟨lines, fun _ _ => rfl⟩

theorem readHost_uniform (hm : mode ≠ .queueInfo) (env : Envelope) (hostname : Text) :
    (∀ x, Alike env x → readHost mode x hostname = .error x) ∨
      ∀ x, Alike env x → readHost mode x hostname = .ok x := by
  have hhost : ∀ x, Alike env x → readHost mode x hostname = match env.eHostname with
      | none => if hostname = [] then .ok x else .error x
      | some old => if strcaseEq hostname old then .ok x else .error x := fun x hx => by
    unfold readHost
    rw [if_neg hm, hx.eHostname]
  cases henv : env.eHostname with
  | none =>
    rw [henv] at hhost
    by_cases hh : hostname = []
    · exact .inr fun x hx => (hhost x hx).trans (if_pos hh)
    · exact .inl fun x hx => (hhost x hx).trans (if_neg hh)
  | some old =>
    rw [henv] at hhost
    by_cases hh : strcaseEq hostname old
    · exact .inr fun x hx => (hhost x hx).trans (if_pos hh)
    · exact .inl fun x hx => (hhost x hx).trans (if_neg hh)

/-- The recipients are the end of the file; there must be one. -/
def readTail (env : Envelope) (lines : List Text) : EnvRead Envelope := do
  let env ← readRecipients env lines
  if env.eRcpt = [] then throw env else return env

/-- **In the modes that compare**, a file that does not agree with the envelope changes nothing; of one that does,
    the recipients are read. -/
theorem envReadLines_compare (hm : mode ≠ .queueInfo) (version0 : Int) (dinode0 : Nat) (env : Envelope)
    (lines : List Text) : (∀ x, Alike env x → envReadLines mode version0 dinode0 x lines = .error x) ∨
      ∃ rest, ∀ x, Alike env x → envReadLines mode version0 dinode0 x lines = readTail x rest := by
  have hskip : ∀ l : List Text, ∃ l' : List Text, (match l with | ('M' :: _) :: rest => rest | _ => l) = l' :=
    fun l => ⟨_, rfl⟩
  rcases expectLine_uniform 'V' lines with h | ⟨⟨line, l₁⟩, h⟩
  · exact .inl fun x _ => by simp only [envReadLines, h, bind, Except.bind]
  by_cases hv : (sscanfD line).getD version0 < 1 ∨ (sscanfD line).getD version0 > simtaEfileVersion
  · exact .inl fun x _ => by simp only [envReadLines, h, bind, Except.bind, if_pos hv]; rfl
  rcases readQueueId_uniform ((sscanfD line).getD version0) env l₁ with h₁ | ⟨l₂, h₁⟩
  · exact .inl fun x hx => by simp only [envReadLines, h, h₁ x hx, bind, Except.bind, if_neg hv]
  obtain ⟨l, hl⟩ := hskip l₂
  rcases expectLine_uniform 'I' l with h₂ | ⟨⟨dinode, l₃⟩, h₂⟩
  · exact .inl fun x hx => by simp only [envReadLines, h, h₁ x hx, hl, h₂, bind, Except.bind, if_neg hv]
  rcases readNumber_uniform ((sscanfD line).getD version0 ≥ 3) 'X' l₃ with h₃ | ⟨l₄, h₃⟩
  · exact .inl fun x hx => by simp only [envReadLines, h, h₁ x hx, hl, h₂, h₃, bind, Except.bind, if_neg hv, if_neg hm]
  rcases readNumber_uniform ((sscanfD line).getD version0 ≥ 5) 'J' l₄ with h₄ | ⟨l₅, h₄⟩
  · exact .inl fun x hx => by
      simp only [envReadLines, h, h₁ x hx, hl, h₂, h₃, h₄, bind, Except.bind, if_neg hv, if_neg hm]
  rcases expectLine_uniform 'H' l₅ with h₅ | ⟨⟨hostname, l₆⟩, h₅⟩
  · exact .inl fun x hx => by
      simp only [envReadLines, h, h₁ x hx, hl, h₂, h₃, h₄, h₅, bind, Except.bind, if_neg hv, if_neg hm]
  rcases readHost_uniform hm env hostname with h₆ | h₆
  · exact .inl fun x hx => by
      simp only [envReadLines, h, h₁ x hx, hl, h₂, h₃, h₄, h₅, h₆ x hx, bind, Except.bind, if_neg hv, if_neg hm]
  rcases readNumber_uniform ((sscanfD line).getD version0 ≥ 4) 'D' l₆ with h₇ | ⟨l₇, h₇⟩
  · exact .inl fun x hx => by
      simp only [envReadLines, h, h₁ x hx, hl, h₂, h₃, h₄, h₅, h₆ x hx, h₇, bind, Except.bind, if_neg hv, if_neg hm]
  rcases expectLine_uniform 'F' l₇ with h₈ | ⟨⟨sender, l₈⟩, h₈⟩
  · exact .inl fun x hx => by
      simp only [envReadLines, h, h₁ x hx, hl, h₂, h₃, h₄, h₅, h₆ x hx, h₇, h₈, bind, Except.bind, if_neg hv, if_neg hm]
  have hsender : ∀ x, Alike env x → envReadLines mode version0 dinode0 x lines =
      if env.eMail = some sender then readTail x l₈ else .error x := fun x hx => by
    simp only [envReadLines, h, h₁ x hx, hl, h₂, h₃, h₄, h₅, h₆ x hx, h₇, h₈, bind, Except.bind, if_neg hv, if_neg hm,
      readSender, hx.eMail]
    rfl
  by_cases hmail : env.eMail = some sender
  · exact .inr ⟨l₈, fun x hx => (hsender x hx).trans (if_pos hmail)⟩
  · exact .inl fun x hx => (hsender x hx).trans (if_neg hmail)

/-- The lines of the recipients. -/
theorem readRecipients_map (env : Envelope) (rcpts : List Text) :
    readRecipients env (rcpts.map ('R' :: ·)) = .ok { env with
      eRcpt := (rcpts.map fun r => ⟨r, .tempfail, none⟩).reverse ++ env.eRcpt
      eNRcpt := env.eNRcpt + rcpts.length } := by
  induction rcpts generalizing env with
  | nil => simp [readRecipients]
  | cons r rest ih =>
    rw [List.map_cons, readRecipients, ih]
    simp only [envRecipient, List.map_cons, List.reverse_cons, List.append_assoc, List.cons_append, List.nil_append,
      List.length_cons, Except.ok.injEq, Envelope.mk.injEq, true_and, and_true]
    omega

/-- A line that is no recipient ends the reading. -/
theorem readRecipients_error {lines : List Text} (h : ∃ line ∈ lines, line.head? ≠ some 'R') (env : Envelope) :
    ∃ x, readRecipients env lines = .error x := by
  induction lines generalizing env with
  | nil =>
    obtain ⟨line, hmem, -⟩ := h
    cases hmem
  | cons line rest ih =>
    unfold readRecipients
    split
    · rename_i heq
      cases heq
    · rename_i addr rest' heq
      obtain ⟨rfl, rfl⟩ := List.cons.inj heq
      obtain ⟨l, hl, hne⟩ := h
      rcases List.mem_cons.mp hl with rfl | hl
      · exact absurd rfl hne
      · exact ih ⟨l, hl, hne⟩ _
    · exact ⟨_, rfl⟩

theorem recipientLines_cases (lines : List Text) :
    (∃ rcpts : List Text, lines = rcpts.map ('R' :: ·)) ∨ ∃ line ∈ lines, line.head? ≠ some 'R' := by
  induction lines with
  | nil => exact .inl ⟨[], rfl⟩
  | cons line rest ih =>
    rcases ih with ⟨rcpts, rfl⟩ | ⟨l, hl, hne⟩
    · by_cases hline : line.head? = some 'R'
      · cases line with
        | nil => cases hline
        | cons c addr =>
          cases hline
          exact .inl ⟨addr :: rcpts, rfl⟩
      · exact .inr ⟨line, List.mem_cons_self, hline⟩
    · exact .inr ⟨l, List.mem_cons_of_mem _ hl, hne⟩

/-- **A file that could not be read in these modes cannot be read the next time.** -/
theorem envReadLines_again (hm : mode ≠ .queueInfo) {version0 : Int} {dinode0 : Nat} {lines : List Text}
    (h : envReadLines mode version0 dinode0 env lines = .error x) :
    ∃ y, envReadLines mode version0 dinode0 x lines = .error y := by
  have hx : Alike env x := by
    have hf := @envReadLines_fills mode env version0 dinode0 lines
    rw [h] at hf
    exact FilledIn.alike hm hf
  rcases envReadLines_compare hm version0 dinode0 env lines with hc | ⟨rest, hc⟩
  · exact ⟨x, hc x hx⟩
  · rw [hc env (.refl env)] at h
    rw [hc x hx]
    rcases recipientLines_cases rest with ⟨rcpts, rfl⟩ | hbad
    · unfold readTail at h ⊢
      rw [readRecipients_map] at h
      simp only [bind, Except.bind] at h
      split at h
      · -- no line was read
        rename_i hnil
        cases h
        rw [readRecipients_map]
        simp only [bind, Except.bind]
        rw [if_pos]
        · exact ⟨_, rfl⟩
        · simp_all
      · cases h
    · obtain ⟨y, hy⟩ := readRecipients_error hbad x
      refine ⟨y, ?_⟩
      unfold readTail
      rw [hy]
      rfl

end FilledIn

/-- An insertion in one of the lists of envelopes, when that list is kept. -/
def listAdd (enable : Bool) : SpoolProg Bool := if enable then Sys.listInsert else return true

/-- `env_read` without a lock to keep: the file is opened, tested for a lock, read and closed. -/
def envRead (conf : Conf) (mode : ReadMode) (version0 : Int) (dinode0 : Nat) (env : Envelope) :
    SpoolProg (Int × Envelope) := do
  match ← Sys.read env.efile with
  | none => return (1, env)
  | some lines =>
    let result := envReadLines mode version0 dinode0 env lines
    let closed ← Sys.fclose env.efile
    match result, closed with
    | .error env, _ => return (1, env)
    | .ok env, false => return (1, env)
    | .ok env, true =>
      if ← listAdd conf.midListEnable then
        if ← listAdd conf.senderListEnable then return (0, env) else return (1, env)
      else return (1, env)

end Simta
