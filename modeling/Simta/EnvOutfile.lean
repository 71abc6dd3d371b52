import Simta.Envelope
import Simta.Lib.World

/-!
# Writing an Efile

`env_outfile`: the lines go to a temporary file, which is renamed to the Efile once it is closed.

* `envTfile`, `envEfile`, `envOutfile`, `envDfileOpen`, `envTfileUnlink`;
* `envTfile_spec`, `envEfile_spec`, `envOutfile_spec` — what each leaves under every pattern of
  failures, and wherever it is cut short.
-/

set_option autoImplicit false

namespace Simta

open Directory (lookup_insert_ite lookup_erase_ite)

/-! ## The lines of an Efile -/

/-- `%lu` and `%d`. -/
def natText (n : Nat) : Text := Nat.toDigits 10 n

def intText : Int → Text
  | .ofNat n => natText n
  | .negSucc n => '-' :: natText (n + 1)

/-- The lines before the inode number, which `env_tfile` checks before it is printed. -/
def tfileHead (env : Envelope) : List Text := ['V' :: intText simtaEfileVersion, 'E' :: env.eId]

/-- The lines from the inode number to the sender; a dead envelope names no host. -/
def tfileBody (env : Envelope) : List Text :=
  ['I' :: natText env.eDinode, 'X' :: intText env.eNExpLevel, 'J' :: intText env.eJail,
    'H' :: (if env.eDir = .dead then [] else env.eHostname.getD []),
    'D' :: natText (env.eAttributes % 2 ^ 32).toNat, 'F' :: env.eMail.getD []]

def tfileRcpts (env : Envelope) : List Text := env.eRcpt.map fun r => 'R' :: r.rRcpt

def tfileLines (env : Envelope) : List Text := tfileHead env ++ tfileBody env ++ tfileRcpts env

/-! ## The functions -/

/-- One `fprintf` a line, to the first that fails. -/
def printLines (p : Path) : List Text → SpoolProg Bool
  | [] => return true
  | line :: rest => do
    if ← Sys.print p line then printLines p rest else return false

/-- The label `cleanup` of `env_tfile`. -/
def tfileCleanup (env : Envelope) : SpoolProg (Option (Int × Envelope)) := do
  let _ ← Sys.fclose env.tfile
  let _ ← Sys.unlink env.tfile
  return some (-1, env)

/-- `env_tfile` from the inode number on. -/
def tfileRest (env : Envelope) : SpoolProg (Option (Int × Envelope)) := do
  if ← printLines env.tfile (tfileBody env) then
    if env.eRcpt ≠ [] then
      if ← printLines env.tfile (tfileRcpts env) then
        if ← Sys.fclose env.tfile then return some (0, env.setTfile true)
        else
          let _ ← Sys.unlink env.tfile
          return some (-1, env)
      else tfileCleanup env
    else tfileCleanup env
  else tfileCleanup env

/-- `env_tfile`; `none` is the `panic` on an inode number of 0. -/
def envTfile (env : Envelope) : SpoolProg (Option (Int × Envelope)) := do
  if ← Sys.creat env.tfile then
    if ← Sys.fdopen env.tfile then
      if ← printLines env.tfile (tfileHead env) then
        if env.eDinode = 0 then return none else tfileRest env
      else tfileCleanup env
    else
      let _ ← Sys.unlink env.tfile
      return some (-1, env)
  else return some (-1, env)

/-- An insertion in a list that may be turned off. -/
def dllInsert (enable : Bool) : SpoolProg Bool := if enable then Sys.listInsert else pure true

/-- The insertions in the lists of messages and senders. -/
def efileLists (conf : Conf) (env : Envelope) : SpoolProg (Int × Envelope) := do
  if ← dllInsert conf.midListEnable then
    if ← dllInsert conf.senderListEnable then return (0, env) else return (1, env)
  else return (1, env)

/-- `env->e_etime` is set. -/
def Envelope.touched (env : Envelope) (now : Int) : Envelope := { env with eEtime := now }

/-- `env_efile`. -/
def envEfile (conf : Conf) (env : Envelope) : SpoolProg (Int × Envelope) := do
  if ← Sys.rename env.tfile env.efile then
    countFast env.eDir 1
    match ← Sys.clock with
    | some now => efileLists conf (((env.setTfile false).setEfile true).touched now)
    | none => return (-1, (env.setTfile false).setEfile true)
  else
    let _ ← Sys.unlink env.tfile
    return (-1, env)

/-- `env_outfile` once there is a temporary file. -/
def outfileRename (conf : Conf) (env : Envelope) : SpoolProg (Option (Int × Envelope)) := do
  match ← envEfile conf env with
  | (0, env) => return some (0, env)
  | (_, env) => return some (1, env)

/-- `env_outfile`. -/
def envOutfile (conf : Conf) (env : Envelope) : SpoolProg (Option (Int × Envelope)) := do
  if env.eFlags.tfile then outfileRename conf env
  else
    match ← envTfile env with
    | none => return none
    | some (0, env) => outfileRename conf env
    | some (_, env) => return some (1, env)

/-- `env_dfile_open`. -/
def envDfileOpen (env : Envelope) : SpoolProg (Bool × Envelope) := do
  if ← Sys.creat env.dfile then return (true, env.setDfile true) else return (false, env)

/-- `env_tfile_unlink`. -/
def envTfileUnlink (e : Envelope) : SpoolProg (Int × Envelope) := do
  if ← Sys.unlink e.tfile then return (0, e.setTfile false) else return (-1, e)

/-! ## What writing leaves of the envelope -/

/-- `x` is `env` with other flags and another time. -/
def Rewritten (env x : Envelope) : Prop := x = { env with eFlags := x.eFlags, eEtime := x.eEtime }

section Rewritten

variable {conf : Conf} {env x y : Envelope}

theorem Rewritten.refl (env : Envelope) : Rewritten env env := rfl

theorem Rewritten.trans (h : Rewritten env x) (h' : Rewritten x y) : Rewritten env y := by
  unfold Rewritten at h h' ⊢
  rw [h', h]

theorem Rewritten.eId (h : Rewritten env x) : x.eId = env.eId := by rw [h]

/-- A program that returns the envelope. -/
theorem returned_env {P : Envelope → Prop} {ret : Int} (h : P x) :
    (pure (some (ret, x)) : SpoolProg (Option (Int × Envelope))).wlp Prog.anyAnswer
      (fun r _ => ∀ p, r = some p → P p.2) () := by
  intro p hp
  cases hp
  exact h

/-- `x` is `env` with whatever flag of a temporary file. -/
def Retagged (env x : Envelope) : Prop := ∃ b, x = env.setTfile b

theorem Retagged.refl (env : Envelope) : Retagged env env := ⟨env.eFlags.tfile, rfl⟩

theorem Retagged.rewritten (h : Retagged env x) : Rewritten env x := by
  obtain ⟨b, rfl⟩ := h
  exact rfl

theorem Retagged.dfile (h : Retagged env x) : x.eFlags.dfile = env.eFlags.dfile := by
  obtain ⟨b, rfl⟩ := h
  exact rfl

theorem tfileCleanup_retagged :
    (tfileCleanup env).wlp Prog.anyAnswer (fun r _ => ∀ p, r = some p → Retagged env p.2) () := by
  unfold tfileCleanup
  refine (Prog.wlp_bind _ _ _ _ _).mpr (Prog.wlp_of_forall fun _ _ => ?_)
  refine (Prog.wlp_bind _ _ _ _ _).mpr (Prog.wlp_of_forall fun _ _ => ?_)
  exact returned_env (Retagged.refl env)

theorem tfileRest_retagged :
    (tfileRest env).wlp Prog.anyAnswer (fun r _ => ∀ p, r = some p → Retagged env p.2) () := by
  unfold tfileRest
  refine (Prog.wlp_bind _ _ _ _ _).mpr (Prog.wlp_of_forall fun ok _ => ?_)
  split
  · split
    · refine (Prog.wlp_bind _ _ _ _ _).mpr (Prog.wlp_of_forall fun ok _ => ?_)
      split
      · refine (Prog.wlp_bind _ _ _ _ _).mpr (Prog.wlp_of_forall fun ok _ => ?_)
        split
        · exact returned_env ⟨true, rfl⟩
        · refine (Prog.wlp_bind _ _ _ _ _).mpr (Prog.wlp_of_forall fun _ _ => ?_)
          exact returned_env (Retagged.refl env)
      · exact tfileCleanup_retagged
    · exact tfileCleanup_retagged
  · exact tfileCleanup_retagged

theorem envTfile_retagged :
    (envTfile env).wlp Prog.anyAnswer (fun r _ => ∀ p, r = some p → Retagged env p.2) () := by
  unfold envTfile
  refine (Prog.wlp_bind _ _ _ _ _).mpr (Prog.wlp_of_forall fun ok _ => ?_)
  split
  · refine (Prog.wlp_bind _ _ _ _ _).mpr (Prog.wlp_of_forall fun ok _ => ?_)
    split
    · refine (Prog.wlp_bind _ _ _ _ _).mpr (Prog.wlp_of_forall fun ok _ => ?_)
      split
      · split
        · exact fun p hp => by cases hp
        · exact tfileRest_retagged
      · exact tfileCleanup_retagged
    · refine (Prog.wlp_bind _ _ _ _ _).mpr (Prog.wlp_of_forall fun _ _ => ?_)
      exact returned_env (Retagged.refl env)
  · exact returned_env (Retagged.refl env)

theorem envTfile_rewritten :
    (envTfile env).wlp Prog.anyAnswer (fun r _ => ∀ p, r = some p → Rewritten env p.2) () :=
  Prog.wlp_mono (fun _ _ h p hp => (h p hp).rewritten) envTfile_retagged

theorem envEfile_rewritten :
    (envEfile conf env).wlp Prog.anyAnswer (fun r _ => Rewritten env r.2) () := by
  have hlists : ∀ e, (efileLists conf e).wlp Prog.anyAnswer (fun r _ => r.2 = e) () := by
    intro e
    unfold efileLists
    refine (Prog.wlp_bind _ _ _ _ _).mpr (Prog.wlp_of_forall fun ok _ => ?_)
    split
    · refine (Prog.wlp_bind _ _ _ _ _).mpr (Prog.wlp_of_forall fun ok _ => ?_)
      split <;> exact rfl
    · exact rfl
  unfold envEfile
  refine (Prog.wlp_bind _ _ _ _ _).mpr (Prog.wlp_of_forall fun ok _ => ?_)
  split
  · refine (Prog.wlp_bind _ _ _ _ _).mpr (Prog.wlp_of_forall fun _ _ => ?_)
    refine (Prog.wlp_bind _ _ _ _ _).mpr (Prog.wlp_of_forall fun now _ => ?_)
    cases now with
    | none => exact rfl
    | some now =>
      refine Prog.wlp_mono (fun r _ hr => ?_) (hlists _)
      rw [hr]
      exact rfl
  · refine (Prog.wlp_bind _ _ _ _ _).mpr (Prog.wlp_of_forall fun _ _ => ?_)
    exact .refl env

/-- **Writing an Efile changes the flags and the time of the envelope** and nothing else. -/
theorem envOutfile_rewritten :
    (envOutfile conf env).wlp Prog.anyAnswer (fun r _ => ∀ p, r = some p → Rewritten env p.2) () := by
  have hrename : ∀ e, Rewritten env e → (outfileRename conf e).wlp Prog.anyAnswer
      (fun r _ => ∀ p, r = some p → Rewritten env p.2) () := by
    intro e he
    unfold outfileRename
    refine Prog.wlp_seq envEfile_rewritten fun r _ hr => ?_
    have hx := he.trans hr
    clear hr
    split <;> exact returned_env hx
  unfold envOutfile
  split
  · exact hrename env (.refl env)
  · refine Prog.wlp_seq envTfile_rewritten fun r _ hr => ?_
    cases r with
    | none => exact fun p hp => by cases hp
    | some p =>
      have hx := hr p rfl
      clear hr
      split
      · rename_i heq
        cases heq
      · rename_i heq
        cases heq
        exact hrename _ hx
      · rename_i heq
        cases heq
        exact returned_env hx

end Rewritten

/-! ## `env_tfile` -/

section Tfile

variable {order : Dir → List Text → List Text} {env : Envelope} {s t : Spool} {lines : List Text}

/-- Nothing but the temporary file has changed. -/
structure TfileOnly (env : Envelope) (s t : Spool) : Prop where
  names : ∀ q, q ≠ env.tfile → t.names.lookup q = s.names.lookup q
  data : ∀ j, j ≠ s.fresh → t.data j = s.data j
  fastFiles : t.fastFiles = s.fastFiles
  fresh : s.fresh ≤ t.fresh
  late : t.Late → s.Late

theorem TfileOnly.refl (env : Envelope) (s : Spool) : TfileOnly env s s :=
  ⟨fun _ _ => rfl, fun _ _ => rfl, rfl, le_refl _, id⟩

theorem TfileOnly.quiet {u : Spool} (h : TfileOnly env s t) (hq : t.Quiet u) : TfileOnly env s u :=
  ⟨fun q hne => by rw [hq.names, h.names q hne], fun j hne => by rw [hq.data, h.data j hne],
    hq.fastFiles.trans h.fastFiles, hq.fresh ▸ h.fresh, h.late ∘ hq.late⟩

theorem TfileOnly.erase (h : TfileOnly env s t) :
    TfileOnly env s (t.setNames (t.names.erase env.tfile)) := by
  refine ⟨fun q hne => ?_, h.data, h.fastFiles, h.fresh, h.late⟩
  rw [Spool.setNames_names, lookup_erase_ite, if_neg hne, h.names q hne]

theorem TfileOnly.frame (h : TfileOnly env s t) : Spool.Frame (· = env.tfile) s t :=
  ⟨h.names, fun j hj => h.data j (by omega), h.fresh⟩

/-- The temporary file is there and holds `lines`. -/
structure Writing (env : Envelope) (s : Spool) (lines : List Text) (t : Spool) : Prop where
  only : TfileOnly env s t
  there : t.names.lookup env.tfile = some s.fresh
  holds : t.data s.fresh = lines
  fresh : t.fresh = s.fresh + 1

theorem Writing.quiet {u : Spool} (h : Writing env s lines t) (hq : t.Quiet u) : Writing env s lines u :=
  ⟨h.only.quiet hq, by rw [hq.names, h.there], by rw [hq.data, h.holds], hq.fresh.trans h.fresh⟩

theorem Writing.print (h : Writing env s lines t) (line : Text) : Writing env s (lines ++ [line])
    { t with data := fun j => if j = s.fresh then t.data j ++ [line] else t.data j } := by
  refine ⟨⟨h.only.names, fun j hne => ?_, h.only.fastFiles, h.only.fresh, h.only.late⟩, h.there, ?_,
    h.fresh⟩
  · simp only [if_neg hne, h.only.data j hne]
  · simp only [if_pos, h.holds]

theorem writing_created : Writing env s [] (s.created env.tfile) := by
  refine ⟨⟨fun q hne => ?_, fun j hne => if_neg hne, rfl, Nat.le_succ _, id⟩, ?_, if_pos rfl, rfl⟩
  · exact (lookup_insert_ite _ _ _ _).trans (if_neg hne)
  · exact (lookup_insert_ite _ _ _ _).trans (if_pos rfl)

theorem printLines_spec (ls : List Text) : ∀ {lines : List Text} {t : Spool}, Writing env s lines t →
    (printLines env.tfile ls).wpF (spool order) spoolFault
      (fun ok u => ∃ written, Writing env s written u ∧ (ok = true → written = lines ++ ls))
      (TfileOnly env s) t := by
  induction ls with
  | nil => exact fun h => ⟨⟨_, h, fun _ => (List.append_nil _).symm⟩, h.only⟩
  | cons line rest ih =>
    intro lines t h
    refine wpF_print h.only (fun i hi => ?_) fun u hq => ⟨⟨_, h.quiet hq, nofun⟩, h.only.quiet hq⟩
    rw [h.there] at hi
    cases hi
    refine Prog.wpF_mono ?_ (fun _ => id) (ih (h.print line))
    rintro ok u ⟨written, hw, heq⟩
    exact ⟨written, hw, fun hok => by rw [heq hok, List.append_assoc, List.singleton_append]⟩

/-- What `env_tfile` returns: the envelope as it was, or the flag with the file complete. -/
inductive TfileDone (env : Envelope) (s : Spool) : Option (Int × Envelope) → Spool → Prop
  | panic {t : Spool} (only : TfileOnly env s t) (inode : env.eDinode = 0) : TfileDone env s none t
  | failed {t : Spool} (only : TfileOnly env s t) : TfileDone env s (some (-1, env)) t
  | ok {t : Spool} (writing : Writing env s (tfileLines env) t) :
      TfileDone env s (some (0, env.setTfile true)) t

theorem unlinkTfile_spec (h : TfileOnly env s t) :
    ((Sys.unlink env.tfile).bind fun _ => Prog.ret (some (-1, env))).wpF (spool order) spoolFault
      (TfileDone env s) (TfileOnly env s) t := by
  refine wpF_unlink h (fun _ => ⟨.failed h.erase, h.erase⟩) (fun _ => ⟨.failed h, h⟩) ?_
  have hq : TfileOnly env s (t.fail (.unlink env.tfile)) := h.quiet (t.quiet_fail nofun nofun)
  exact ⟨.failed hq, hq⟩

theorem tfileCleanup_spec (h : TfileOnly env s t) :
    (tfileCleanup env).wpF (spool order) spoolFault (TfileDone env s) (TfileOnly env s) t :=
  wpF_fclose h fun _ _ hq => unlinkTfile_spec (h.quiet hq)

theorem tfileRest_spec (h : Writing env s (tfileHead env) t) :
    (tfileRest env).wpF (spool order) spoolFault (TfileDone env s) (TfileOnly env s) t := by
  refine Prog.wpF_seq (printLines_spec (tfileBody env) h) (fun _ => id) ?_
  rintro ok u ⟨written, hw, heq⟩ -
  cases ok with
  | false => exact tfileCleanup_spec hw.only
  | true =>
    obtain rfl := heq rfl
    simp only [if_true]
    split
    · refine Prog.wpF_seq (printLines_spec (tfileRcpts env) hw) (fun _ => id) ?_
      rintro ok u ⟨written, hw, heq⟩ -
      cases ok with
      | false => exact tfileCleanup_spec hw.only
      | true =>
        obtain rfl := heq rfl
        refine wpF_fclose hw.only fun ok v hq => ?_
        cases ok with
        | true => exact ⟨.ok (hw.quiet hq), hw.only.quiet hq⟩
        | false => exact unlinkTfile_spec (hw.only.quiet hq)
    · exact tfileCleanup_spec hw.only

/-- **`env_tfile` under every pattern of failures.** -/
theorem envTfile_spec (env : Envelope) (s : Spool) :
    (envTfile env).wpF (spool order) spoolFault (TfileDone env s) (TfileOnly env s) s := by
  have hstart := TfileOnly.refl env s
  refine wpF_creat hstart (fun _ => ?_) fun t hq => ⟨.failed (hstart.quiet hq), hstart.quiet hq⟩
  refine wpF_fdopen writing_created.only fun ok t hq => ?_
  have hw : Writing env s [] t := writing_created.quiet hq
  cases ok with
  | false => exact unlinkTfile_spec hw.only
  | true =>
    refine Prog.wpF_seq (printLines_spec (tfileHead env) hw) (fun _ => id) ?_
    rintro ok u ⟨written, hw, heq⟩ -
    cases ok with
    | false => exact tfileCleanup_spec hw.only
    | true =>
      obtain rfl := heq rfl
      simp only [if_true]
      split
      · exact ⟨.panic hw.only ‹_›, hw.only⟩
      · exact tfileRest_spec hw

end Tfile

/-! ## `env_efile` and `env_outfile` -/

section Efile

variable {order : Dir → List Text → List Text} {conf : Conf} {env : Envelope} {s t : Spool} {i : Nat}

/-- The temporary file of that directory and id, with the inode `i`, has become the Efile. -/
structure Renamed (d : Dir) (id : Text) (s : Spool) (i : Nat) (t : Spool) : Prop where
  old : s.names.lookup (tfile d id) = some i
  names : ∀ q, t.names.lookup q =
    if q = efile d id then some i else if q = tfile d id then none else s.names.lookup q
  data : t.data = s.data
  fresh : t.fresh = s.fresh

/-- By how much an Efile in that directory raises `simta_fast_files`. -/
def fastDelta (env : Envelope) : Int := if env.eDir = .fast then 1 else 0

/-- The flags that `env_efile` leaves once the file is renamed. -/
def Envelope.renamed (env : Envelope) : Envelope := (env.setTfile false).setEfile true

/-- What `env_efile` returns.  Behind the `rename` it fails with the Efile in place, its time new or
    what it was. -/
inductive EfileDone (env : Envelope) (s : Spool) : Int × Envelope → Spool → Prop
  | failed {t : Spool} (only : TfileOnly env s t) (data : t.data = s.data) : EfileDone env s (-1, env) t
  | placed {t : Spool} {j : Nat} (renamed : Renamed env.eDir env.eId s j t)
      (now : Int) (count : t.fastFiles = s.fastFiles + fastDelta env) (late : t.Late → s.Late) :
      EfileDone env s (0, env.renamed.touched now) t
  | late {t : Spool} {j : Nat} {ret : Int} (renamed : Renamed env.eDir env.eId s j t)
      (now : Int) (count : t.fastFiles = s.fastFiles + fastDelta env) (nonzero : ret ≠ 0) (late : t.Late) :
      EfileDone env s (ret, env.renamed.touched now) t

/-- Where `env_efile` may stop. -/
def EfileStop (env : Envelope) (s t : Spool) : Prop :=
  TfileOnly env s t ∧ t.data = s.data ∨ ∃ j, Renamed env.eDir env.eId s j t

theorem Renamed.of_names {d : Dir} {id : Text} {u : Spool} (h : Renamed d id s i t)
    (hn : u.names = t.names) (hd : u.data = t.data) (hf : u.fresh = t.fresh) : Renamed d id s i u :=
  ⟨h.old, fun q => by rw [hn, h.names q], hd.trans h.data, hf.trans h.fresh⟩

theorem late_fail_clock (t : Spool) : (t.fail .clock).Late := .inl (by simp)
theorem late_fail_listInsert (t : Spool) : (t.fail .listInsert).Late := .inr (by simp)

theorem dllInsert_spec {enable : Bool} {Q : Bool → Spool → Prop} {C : Spool → Prop} (hC : C t)
    (hok : Q true t) (hfail : Q false (t.fail .listInsert) ∧ C (t.fail .listInsert)) :
    (dllInsert enable).wpF (spool order) spoolFault Q C t := by
  cases enable with
  | false => exact ⟨hok, hC⟩
  | true => exact ⟨hC, ⟨hok, hC⟩, hfail⟩

theorem efileLists_spec {now : Int} (h : Renamed env.eDir env.eId s i t)
    (hcount : t.fastFiles = s.fastFiles + fastDelta env) (hlate : t.Late → s.Late) :
    (efileLists conf (env.renamed.touched now)).wpF (spool order) spoolFault (EfileDone env s)
      (EfileStop env s) t := by
  have hstop : EfileStop env s t := .inr ⟨i, h⟩
  have hfailed : Renamed env.eDir env.eId s i (t.fail .listInsert) := h.of_names rfl rfl rfl
  have hfail : EfileDone env s (1, env.renamed.touched now) (t.fail .listInsert) ∧
      EfileStop env s (t.fail .listInsert) :=
    ⟨.late hfailed now hcount (by decide) (late_fail_listInsert t), .inr ⟨i, hfailed⟩⟩
  refine (Prog.wpF_bind _ _ _ _ _ _ _).mpr (dllInsert_spec hstop ?_ ⟨hfail, hfail.2⟩)
  refine (Prog.wpF_bind _ _ _ _ _ _ _).mpr (dllInsert_spec hstop ?_ ⟨hfail, hfail.2⟩)
  exact ⟨.placed h now hcount hlate, hstop⟩

/-- **`env_efile` under every pattern of failures.** -/
theorem envEfile_spec (env : Envelope) (s : Spool) :
    (envEfile conf env).wpF (spool order) spoolFault (EfileDone env s) (EfileStop env s) s := by
  have hstart := TfileOnly.refl env s
  refine wpF_rename (.inl ⟨hstart, rfl⟩) (fun i hi => ?_) fun t hq => ?_
  · have hr : Renamed env.eDir env.eId s i
        (s.setNames ((s.names.erase env.tfile).insert env.efile i)) := by
      refine ⟨hi, fun q => ?_, rfl, rfl⟩
      rw [Spool.setNames_names, lookup_insert_ite, lookup_erase_ite]
      rfl
    refine wpF_addFastFiles (.inr ⟨i, hr⟩) ?_
    refine wpF_clock (.inr ⟨i, hr.of_names rfl rfl rfl⟩) (efileLists_spec (hr.of_names rfl rfl rfl) rfl id) ?_
    refine ⟨?_, .inr ⟨i, hr.of_names rfl rfl rfl⟩⟩
    show EfileDone env s (-1, env.renamed.touched env.eEtime) _
    refine .late (j := i) ?_ env.eEtime ?_ (by decide) (late_fail_clock _)
    · exact hr.of_names rfl rfl rfl
    · rfl
  · have honly := hstart.quiet hq
    refine wpF_unlink (.inl ⟨honly, hq.data⟩)
      (fun _ => ⟨.failed honly.erase hq.data, .inl ⟨honly.erase, hq.data⟩⟩)
      (fun _ => ⟨.failed honly hq.data, .inl ⟨honly, hq.data⟩⟩) ?_
    have hq' : TfileOnly env s (t.fail (.unlink env.tfile)) := honly.quiet (t.quiet_fail nofun nofun)
    exact ⟨.failed hq' hq.data, .inl ⟨hq', hq.data⟩⟩

/-- The Efile is in place; nothing but it and the temporary file has changed. -/
structure Placed (env : Envelope) (s t : Spool) : Prop where
  there : ∃ i, t.names.lookup env.efile = some i ∧ (env.eFlags.tfile = false → t.data i = tfileLines env)
  written : env.eFlags.tfile = false → t.names.lookup env.efile = some s.fresh
  waiting : env.eFlags.tfile = true → t.names.lookup env.efile = s.names.lookup env.tfile ∧ t.data = s.data
  names : ∀ q, q ≠ env.efile → q ≠ env.tfile → t.names.lookup q = s.names.lookup q
  data : ∀ j, j ≠ s.fresh → t.data j = s.data j
  count : t.fastFiles = s.fastFiles + fastDelta env
  tfile : t.names.lookup env.tfile = none
  fresh : s.fresh ≤ t.fresh

theorem Placed.frame (h : Placed env s t) : Spool.Frame (fun q => q = env.efile ∨ q = env.tfile) s t :=
  ⟨fun q hq => h.names q (fun he => hq (.inl he)) fun ht => hq (.inr ht), fun j hj => h.data j (by omega),
    h.fresh⟩

/-- What `env_outfile` returns. -/
inductive OutfileDone (env : Envelope) (s : Spool) : Option (Int × Envelope) → Spool → Prop
  | panic {t : Spool} (only : TfileOnly env s t) : OutfileDone env s none t
  | failed {t : Spool} (b : Bool) (only : TfileOnly env s t) :
      OutfileDone env s (some (1, env.setTfile b)) t
  | placed {t : Spool} (now : Int) (placed : Placed env s t) (late : t.Late → s.Late) :
      OutfileDone env s (some (0, env.renamed.touched now)) t
  | late {t : Spool} (now : Int) (placed : Placed env s t) (late : t.Late) :
      OutfileDone env s (some (1, env.renamed.touched now)) t

/-- Where `env_outfile` may stop: the Efile is as it was, or complete. -/
structure OutfileStop (env : Envelope) (s t : Spool) : Prop where
  names : ∀ q, q ≠ env.efile → q ≠ env.tfile → t.names.lookup q = s.names.lookup q
  data : ∀ j, j ≠ s.fresh → t.data j = s.data j
  fresh : s.fresh ≤ t.fresh
  efile : t.names.lookup env.efile = s.names.lookup env.efile ∨
    ∃ i, t.names.lookup env.efile = some i ∧ (env.eFlags.tfile = false → t.data i = tfileLines env)

theorem Envelope.efile_ne_tfile (env : Envelope) : env.efile ≠ env.tfile :=
  Simta.efile_ne_tfile _ _ _ _

theorem TfileOnly.stop (h : TfileOnly env s t) : OutfileStop env s t :=
  ⟨fun q _ hne => h.names q hne, h.data, h.fresh, .inl (h.names _ env.efile_ne_tfile)⟩

theorem Placed.stop (h : Placed env s t) : OutfileStop env s t := ⟨h.names, h.data, h.fresh, .inr h.there⟩

theorem TfileOnly.trans {u : Spool} (h : TfileOnly env s t) (h' : TfileOnly env t u)
    (hdata : u.data = t.data) : TfileOnly env s u :=
  ⟨fun q hne => (h'.names q hne).trans (h.names q hne), fun j hne => by rw [hdata, h.data j hne],
    h'.fastFiles.trans h.fastFiles, le_trans h.fresh h'.fresh, h.late ∘ h'.late⟩

/-- What stands before `env_efile`: nothing but the temporary file has changed, and when `env_outfile`
    wrote it, it is complete. -/
structure Ready (env : Envelope) (s t : Spool) : Prop where
  only : TfileOnly env s t
  writing : env.eFlags.tfile = false → Writing env s (tfileLines env) t
  waiting : env.eFlags.tfile = true → t = s

theorem Ready.placed {u : Spool} (h : Ready env s t) (hr : Renamed env.eDir env.eId t i u)
    (hcount : u.fastFiles = t.fastFiles + fastDelta env) : Placed env s u := by
  have hE : u.names.lookup env.efile = some i := (hr.names _).trans (if_pos rfl)
  refine ⟨⟨i, hE, fun hflag => ?_⟩, fun hflag => ?_, fun hflag => ?_, fun q hE hT => ?_, fun j hne => ?_, ?_,
    (hr.names _).trans ((if_neg env.efile_ne_tfile.symm).trans (if_pos rfl)), hr.fresh ▸ h.only.fresh⟩
  · have hw := h.writing hflag
    have hi : some i = some s.fresh := hr.old.symm.trans hw.there
    cases hi
    rw [hr.data, hw.holds]
  · exact hE.trans (hr.old.symm.trans (h.writing hflag).there)
  · have hts := h.waiting hflag
    subst hts
    exact ⟨hE.trans hr.old.symm, hr.data⟩
  · exact ((hr.names q).trans ((if_neg hE).trans (if_neg hT))).trans (h.only.names q hT)
  · rw [hr.data, h.only.data j hne]
  · rw [hcount, h.only.fastFiles]

theorem outfileRename_spec (b : Bool) (h : Ready env s t) :
    (outfileRename conf (env.setTfile b)).wpF (spool order) spoolFault (OutfileDone env s)
      (OutfileStop env s) t := by
  have honly : ∀ {u}, TfileOnly (env.setTfile b) t u → u.data = t.data → TfileOnly env s u :=
    fun hu hd => h.only.trans ⟨hu.names, hu.data, hu.fastFiles, hu.fresh, hu.late⟩ hd
  refine Prog.wpF_seq (envEfile_spec (env.setTfile b) t) ?_ ?_
  · rintro u (⟨hu, hdata⟩ | ⟨i, hr⟩)
    · exact (honly hu hdata).stop
    · refine ⟨fun q hE hT => ?_, fun j hne => ?_, hr.fresh ▸ h.only.fresh, ?_⟩
      · exact ((hr.names q).trans ((if_neg hE).trans (if_neg hT))).trans (h.only.names q hT)
      · rw [hr.data, h.only.data j hne]
      · refine .inr ⟨i, (hr.names _).trans (if_pos rfl), fun hflag => ?_⟩
        have hw := h.writing hflag
        have hi : some i = some s.fresh := hr.old.symm.trans hw.there
        cases hi
        rw [hr.data, hw.holds]
  · rintro r u hdone -
    cases hdone with
    | failed hu hdata => exact ⟨.failed b (honly hu hdata), (honly hu hdata).stop⟩
    | placed hr now hcount hlate =>
      have hp : Placed env s u := h.placed hr hcount
      exact ⟨.placed now hp (h.only.late ∘ hlate), hp.stop⟩
    | late hr now hcount hne hlate =>
      have hp : Placed env s u := h.placed hr hcount
      split <;> rename_i heq <;> cases heq
      · exact absurd rfl hne
      · exact ⟨.late now hp hlate, hp.stop⟩

/-- **`env_outfile` under every pattern of failures.** -/
theorem envOutfile_spec (conf : Conf) (env : Envelope) (s : Spool) :
    (envOutfile conf env).wpF (spool order) spoolFault (OutfileDone env s) (OutfileStop env s) s := by
  unfold envOutfile
  cases hflag : env.eFlags.tfile with
  | true =>
    refine outfileRename_spec env.eFlags.tfile ⟨TfileOnly.refl env s, fun h => ?_, fun _ => rfl⟩
    simp [hflag] at h
  | false =>
    refine Prog.wpF_seq (envTfile_spec env s) (fun _ => TfileOnly.stop) ?_
    rintro r t h -
    cases h with
    | panic only => exact ⟨.panic only, only.stop⟩
    | failed only => exact ⟨.failed env.eFlags.tfile only, only.stop⟩
    | ok hw => exact outfileRename_spec true ⟨hw.only, fun _ => hw, fun h => by simp [hflag] at h⟩

end Efile

end Simta
