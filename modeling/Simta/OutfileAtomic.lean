import Simta.EnvOutfile

/-!
# When `env_outfile` is atomic

Its callers undo their own work on a non-zero return, as if the Efile had not been written.

* `OutfileAtomic` — what they take a return to mean: nothing has happened, or all of it;
* `envOutfile_clean` — a failure leaves no temporary file, unless it cannot be unlinked;
* `envOutfile_atomic_iff` — a return means this exactly when none of the calls behind the `rename`
  has failed;
* `envOutfile_not_atomic` — the clock cannot be read: the Efile is there, and the return is not zero.
-/

set_option autoImplicit false

namespace Simta

/-- Nothing has happened to the Efile, the flag and the counter, and no temporary file is there. -/
structure Unwritten (env : Envelope) (s : Spool) (x : Envelope) (t : Spool) : Prop where
  efile : t.names.lookup env.efile = s.names.lookup env.efile
  data : ∀ i, s.names.lookup env.efile = some i → t.data i = s.data i
  tfile : t.names.lookup env.tfile = none
  flag : x.eFlags.efile = env.eFlags.efile
  count : t.fastFiles = s.fastFiles

/-- The lines that are to be in the Efile: those of the envelope, or what waits in the temporary file. -/
def outfileLines (env : Envelope) (s : Spool) : Option (List Text) :=
  if env.eFlags.tfile then (s.names.lookup env.tfile).map s.data else some (tfileLines env)

/-- The complete Efile is there; the flag and the counter say so. -/
structure Written (env : Envelope) (s : Spool) (x : Envelope) (t : Spool) : Prop where
  efile : ∃ i, t.names.lookup env.efile = some i ∧ some (t.data i) = outfileLines env s
  flag : x.eFlags.efile = true
  count : t.fastFiles = s.fastFiles + fastDelta env

/-- What the callers of `env_outfile` take its return to mean. -/
def OutfileAtomic (env : Envelope) (s : Spool) (r : Option (Int × Envelope)) (t : Spool) : Prop :=
  ∀ ret x, r = some (ret, x) → if ret = 0 then Written env s x t else Unwritten env s x t

/-- The files as `env_outfile` may find them: numbers of inodes are not used twice, and a temporary file
    of the envelope is one of its own, which is there only while the flag says so. -/
structure OutfileReady (env : Envelope) (s : Spool) : Prop where
  fresh : ∀ p i, s.names.lookup p = some i → i < s.fresh
  tfile : env.eFlags.tfile = false → s.names.lookup env.tfile = none
  own : ∀ i, s.names.lookup env.tfile = some i → s.names.lookup env.efile ≠ some i

/-! ## The temporary file -/

section Clean

variable {order : Dir → List Text → List Text} {conf : Conf} {env : Envelope} {s t : Spool}

/-- The temporary file is gone, or could not be unlinked. -/
def Cleaned (env : Envelope) (t : Spool) : Prop :=
  t.names.lookup env.tfile = none ∨ FileOp.unlink env.tfile ∈ t.failed

theorem unlink_cleaned (r : Option (Int × Envelope)) (s : Spool) :
    ((Sys.unlink env.tfile).bind fun _ => Prog.ret r).wpF (spool order) spoolFault
      (fun _ t => Cleaned env t) (fun _ => True) s := by
  refine wpF_unlink trivial (fun _ => ⟨.inl ?_, trivial⟩) (fun h => ⟨.inl h, trivial⟩) ⟨.inr ?_, trivial⟩
  · simp
  · simp

theorem tfileCleanup_cleaned (s : Spool) :
    (tfileCleanup env).wpF (spool order) spoolFault (fun _ t => Cleaned env t) (fun _ => True) s :=
  wpF_fclose trivial fun _ _ _ => unlink_cleaned _ _

/-- A failure of `env_tfile` takes the file away again. -/
def FailsClean (env : Envelope) (r : Option (Int × Envelope)) (t : Spool) : Prop :=
  ∀ ret x, r = some (ret, x) → ret ≠ 0 → Cleaned env t

theorem tfileRest_clean (s : Spool) :
    (tfileRest env).wpF (spool order) spoolFault (FailsClean env) (fun _ => True) s := by
  have hcleanup : ∀ s, (tfileCleanup env).wpF (spool order) spoolFault (FailsClean env) (fun _ => True) s :=
    fun s => Prog.wpF_mono (fun _ _ h _ _ _ _ => h) (fun _ => id) (tfileCleanup_cleaned s)
  have htrue : ∀ {p : SpoolProg Bool} {s}, p.wpF (spool order) spoolFault (fun _ _ => True) (fun _ => True) s :=
    Prog.wpF_of_forall (fun _ _ => trivial) fun _ => trivial
  refine Prog.wpF_seq htrue (fun _ => id) fun ok t _ _ => ?_
  split
  · split
    · refine Prog.wpF_seq htrue (fun _ => id) fun ok t _ _ => ?_
      split
      · refine wpF_fclose trivial fun ok t _ => ?_
        split
        · refine ⟨fun ret x h hne => ?_, trivial⟩
          cases h
          exact absurd rfl hne
        · exact Prog.wpF_mono (fun _ _ h _ _ _ _ => h) (fun _ => id) (unlink_cleaned _ _)
      · exact hcleanup _
    · exact hcleanup _
  · exact hcleanup _

theorem envTfile_clean (h : s.names.lookup env.tfile = none) :
    (envTfile env).wpF (spool order) spoolFault (FailsClean env) (fun _ => True) s := by
  have htrue : ∀ {p : SpoolProg Bool} {s}, p.wpF (spool order) spoolFault (fun _ _ => True) (fun _ => True) s :=
    Prog.wpF_of_forall (fun _ _ => trivial) fun _ => trivial
  refine wpF_creat trivial (fun _ => ?_) fun t hq => ⟨fun ret x _ _ => .inl (hq.names ▸ h), trivial⟩
  refine wpF_fdopen trivial fun ok t _ => ?_
  split
  · refine Prog.wpF_seq htrue (fun _ => id) fun ok t _ _ => ?_
    split
    · split
      · exact ⟨(fun ret x h => by cases h), trivial⟩
      · exact tfileRest_clean _
    · exact Prog.wpF_mono (fun _ _ h _ _ _ _ => h) (fun _ => id) (tfileCleanup_cleaned _)
  · exact Prog.wpF_mono (fun _ _ h _ _ _ _ => h) (fun _ => id) (unlink_cleaned _ _)

/-- `env_efile` renames the temporary file or unlinks it. -/
theorem envEfile_cleaned (e : Envelope) (he : e.tfile = env.tfile) (s : Spool) :
    (envEfile conf e).wpF (spool order) spoolFault (fun _ t => Cleaned env t) (fun _ => True) s := by
  have hlists : ∀ x (v : Spool), v.names.lookup env.tfile = none →
      (efileLists conf x).wpF (spool order) spoolFault (fun _ t => Cleaned env t) (fun _ => True) v := by
    intro x v hv
    refine (Prog.wpF_bind _ _ _ _ _ _ _).mpr (dllInsert_spec trivial ?_ ⟨⟨.inl hv, trivial⟩, trivial⟩)
    refine (Prog.wpF_bind _ _ _ _ _ _ _).mpr (dllInsert_spec trivial ?_ ⟨⟨.inl hv, trivial⟩, trivial⟩)
    exact ⟨.inl hv, trivial⟩
  refine wpF_rename trivial (fun i hi => ?_) fun t _ => ?_
  · have hgone : ((s.names.erase e.tfile).insert e.efile i).lookup env.tfile = none := by
      rw [Directory.lookup_insert_ite, Directory.lookup_erase_ite, ← he, if_neg e.efile_ne_tfile.symm, if_pos rfl]
    refine wpF_addFastFiles trivial (wpF_clock trivial (hlists _ _ hgone) ⟨.inl hgone, trivial⟩)
  · rw [he]
    refine wpF_unlink trivial (fun _ => ⟨.inl ?_, trivial⟩) (fun h => ⟨.inl h, trivial⟩) ⟨.inr ?_, trivial⟩
    · simp
    · simp

theorem outfileRename_clean (e : Envelope) (he : e.tfile = env.tfile) (s : Spool) :
    (outfileRename conf e).wpF (spool order) spoolFault (FailsClean env) (fun _ => True) s := by
  refine Prog.wpF_seq (envEfile_cleaned e he s) (fun _ => id) fun r t hr _ => ?_
  split <;> exact ⟨fun _ _ _ _ => hr, trivial⟩

/-- **A failure leaves no temporary file**, unless it cannot be unlinked. -/
theorem envOutfile_clean (h : env.eFlags.tfile = false → s.names.lookup env.tfile = none) :
    (envOutfile conf env).wpF (spool order) spoolFault (FailsClean env) (fun _ => True) s := by
  unfold envOutfile
  cases hflag : env.eFlags.tfile with
  | true => exact outfileRename_clean env rfl s
  | false =>
    refine Prog.wpF_seq (Prog.wpF_and (envTfile_clean (h hflag)) (envTfile_spec env s)) (fun _ _ => trivial) ?_
    rintro r t ⟨hclean, hdone⟩ -
    cases hdone with
    | panic only => exact ⟨(fun ret x h => by cases h), trivial⟩
    | failed only =>
      have hgone := hclean (-1) env rfl (by decide)
      exact ⟨fun _ _ _ _ => hgone, trivial⟩
    | ok hw => exact outfileRename_clean _ rfl t

/-! ## The return value -/

/-- **When `env_outfile` is atomic**: a return says what its callers take it to say exactly when none of
    the calls behind the `rename` (the clock, the insertions in the lists) has failed. -/
theorem envOutfile_atomic_iff (hs : OutfileReady env s) (hfailed : s.failed = []) {r : Option (Int × Envelope)}
    (hrun : Prog.Runs (Prog.either (spool order) spoolFault) (envOutfile conf env) s r t)
    (hunlink : FileOp.unlink env.tfile ∉ t.failed) :
    OutfileAtomic env s r t ↔ ¬ t.Late := by
  have hlate : ¬ s.Late := by simp [Spool.Late, hfailed]
  have hclean := (Prog.wlp_iff_runs _ _ _ _).mp (Prog.wlp_of_wpF (envOutfile_clean hs.tfile)) r t hrun
  have hdone := (Prog.wlp_iff_runs _ _ _ _).mp (Prog.wlp_of_wpF (envOutfile_spec conf env s)) r t hrun
  cases hdone with
  | panic only => exact ⟨fun _ => hlate ∘ only.late, fun _ ret x h => by cases h⟩
  | failed b only =>
    refine ⟨fun _ => hlate ∘ only.late, fun _ ret x h => ?_⟩
    obtain ⟨rfl, rfl⟩ := Prod.mk.inj (Option.some.inj h)
    have hgone : t.names.lookup env.tfile = none := (hclean 1 _ rfl (by decide)).resolve_right hunlink
    exact ⟨only.names _ env.efile_ne_tfile, fun i hi => only.data i (by have := hs.fresh _ i hi; omega), hgone,
      rfl, only.fastFiles⟩
  | placed now placed late =>
    refine ⟨fun _ => hlate ∘ late, fun _ ret x h => ?_⟩
    obtain ⟨rfl, rfl⟩ := Prod.mk.inj (Option.some.inj h)
    obtain ⟨i, hi, hdata⟩ := placed.there
    refine ⟨⟨i, hi, ?_⟩, rfl, placed.count⟩
    unfold outfileLines
    cases hflag : env.eFlags.tfile with
    | false => exact congrArg some (hdata hflag)
    | true =>
      obtain ⟨hsame, hkept⟩ := placed.waiting hflag
      rw [if_pos rfl, ← hsame, hi, hkept]
      rfl
  | late now placed late =>
    refine ⟨fun h => ?_, fun h => absurd late h⟩
    -- the Efile is there, but the return says that nothing has happened
    have hefile : t.names.lookup env.efile = s.names.lookup env.efile := (h 1 _ rfl).efile
    cases hflag : env.eFlags.tfile with
    | false =>
      rw [placed.written hflag] at hefile
      exact absurd (hs.fresh _ _ hefile.symm) (lt_irrefl _)
    | true =>
      obtain ⟨i, hi, -⟩ := placed.there
      have hold : s.names.lookup env.tfile = some i := (placed.waiting hflag).1 ▸ hi
      exact absurd (hefile ▸ hi) (hs.own i hold)

end Clean

/-! ## A clock that cannot be read -/

/-- A new message with one recipient in the fast directory. -/
def oneRecipient : Envelope :=
  { envCreate {} .fast "1".toList (some "a@b".toList) none with
    eDinode := 7
    eRcpt := [⟨"c@d".toList, .tempfail, none⟩]
    eNRcpt := 1 }

/-- No file yet, and the record of failures empty. -/
def emptySpool : Spool := ⟨∅, fun _ => [], 10, 0, [], 0⟩

/-- Every call succeeds, but for the clock. -/
def clockFails : Prog.Handler FileOp FileAns Spool
  | .clock, s => spoolFault .clock s
  | op, s => spool (fun _ names => names) op s

theorem outfileReady_empty : OutfileReady oneRecipient emptySpool := by
  refine ⟨fun p i h => ?_, fun _ => rfl, fun i h => ?_⟩
  · rw [show emptySpool.names.lookup p = none from AList.lookup_empty p] at h
    cases h
  · rw [show emptySpool.names.lookup oneRecipient.tfile = none from AList.lookup_empty _] at h
    cases h

theorem clockFails_runs {α : Type} (p : SpoolProg α) (s : Spool) :
    Prog.Runs (Prog.either (spool fun _ names => names) spoolFault) p s (p.run clockFails s).1
      (p.run clockFails s).2 := by
  refine Prog.runs_of_run (fun op s => ?_) p s
  cases op with
  | clock => exact .inr rfl
  | link | unlink | rename | creat | fdopen | print | fclose | utime | ftruncate | stat | read | opendir
  | readdir | closedir | localtime | listInsert | malloc | fastFiles | fastCount => exact .inl rfl

theorem envOutfile_atomic_iff_clock : ¬ OutfileAtomic oneRecipient emptySpool
    ((envOutfile {} oneRecipient).run clockFails emptySpool).1
    ((envOutfile {} oneRecipient).run clockFails emptySpool).2 := by
  rw [envOutfile_atomic_iff outfileReady_empty rfl (clockFails_runs _ _) (by decide)]
  simp only [Spool.Late, not_not]
  decide

/-- The return is not zero, and the Efile is in place. -/
theorem envOutfile_not_atomic : ¬ ∀ (order : Dir → List Text → List Text) (conf : Conf) (env : Envelope)
    (s t : Spool) (r : Option (Int × Envelope)), OutfileReady env s → s.failed = [] →
    Prog.Runs (Prog.either (spool order) spoolFault) (envOutfile conf env) s r t →
    FileOp.unlink env.tfile ∉ t.failed → OutfileAtomic env s r t := by
  intro h
  have hatomic := h _ {} _ _ _ _ outfileReady_empty rfl (clockFails_runs (envOutfile {} oneRecipient) emptySpool)
    (by decide)
  have hcount := (hatomic 1 ((oneRecipient.setTfile false).setEfile true) rfl).count
  exact absurd hcount (by decide)

end Simta
