import Simta.Envelope

/-!
# `env_move` never loses a message

The links and unlinks of `env_move` under every pattern of failures, cut short at any point.

* `envUnlink_spec` — what `env_unlink` leaves, whichever of its two calls fails;
* `MoveStop` — what holds wherever `env_move` may stop: one of the two directories has both files;
* `envMove_spec` — `MoveStop` at every point, and what each return value promises.
-/

set_option autoImplicit false

namespace Simta

open Directory (lookup_insert_ite lookup_erase_ite not_mem_iff_lookup mem_iff_lookup)

variable {order : Dir → List Text → List Text}

/-! ## `env_unlink` -/

/-- Where `env_unlink` may stop. -/
structure UnlinkStop (s : Spool) (env : Envelope) (t : Spool) : Prop where
  data : t.data = s.data
  names : t.names = s.names ∨ t.names = s.names.erase env.efile ∨
    t.names = (s.names.erase env.efile).erase env.dfile

/-- What `env_unlink` returns: it failed and changed nothing, or the Efile is gone and counted. -/
inductive UnlinkDone (s : Spool) (env : Envelope) : Int × Envelope → Spool → Prop
  | failed {t : Spool} (data : t.data = s.data) (names : t.names = s.names)
      (count : t.fastFiles = s.fastFiles) : UnlinkDone s env (-1, env) t
  | kept {t : Spool} (data : t.data = s.data) (names : t.names = s.names.erase env.efile)
      (count : t.fastFiles = s.fastFiles + if env.eDir = .fast then -1 else 0) :
      UnlinkDone s env (0, env.setEfile false) t
  | gone {t : Spool} (data : t.data = s.data)
      (names : t.names = (s.names.erase env.efile).erase env.dfile)
      (count : t.fastFiles = s.fastFiles + if env.eDir = .fast then -1 else 0) :
      UnlinkDone s env (0, (env.setEfile false).setDfile false) t

/-- **`env_unlink` under every pattern of failures.** -/
theorem envUnlink_spec (env : Envelope) (s : Spool) :
    (envUnlink env).wpF (spool order) spoolFault (UnlinkDone s env) (UnlinkStop s env) s := by
  have hstart : UnlinkStop s env s := ⟨rfl, .inl rfl⟩
  refine wpF_unlink hstart (fun _ => ?_) (fun _ => ⟨.failed rfl rfl rfl, hstart⟩)
    ⟨.failed rfl rfl rfl, rfl, .inl rfl⟩
  have herased : ∀ t : Spool, t.data = s.data → t.names = s.names.erase env.efile →
      UnlinkStop s env t := fun t hd hn => ⟨hd, .inr (.inl hn)⟩
  refine wpF_addFastFiles (herased _ rfl rfl) ?_
  simp only [Prog.bind_eq, envDfileUnlink, Prog.bind_assoc]
  refine wpF_unlink (herased _ rfl rfl) (fun _ => ?_) (fun _ => ?_) ?_
  · exact ⟨.gone rfl rfl rfl, rfl, .inr (.inr rfl)⟩
  · exact ⟨.kept rfl rfl rfl, herased _ rfl rfl⟩
  · exact ⟨.kept rfl rfl rfl, herased _ rfl rfl⟩

/-! ## `env_move` -/

/-- The Efile and the Dfile of a message are both in a directory, as the inodes `i` and `j`. -/
def Pair (s : Spool) (d : Dir) (id : Text) (i j : Nat) : Prop :=
  s.names.lookup (efile d id) = some i ∧ s.names.lookup (dfile d id) = some j

/-- Where a move of the pair `i`, `j` from `env.eDir` to `tgt` may stop. -/
structure MoveStop (s : Spool) (env : Envelope) (tgt : Dir) (i j : Nat) (t : Spool) : Prop where
  complete : Pair t env.eDir env.eId i j ∨ Pair t tgt env.eId i j
  source : t.names.lookup env.efile = none ∨ Pair t env.eDir env.eId i j
  target : t.names.lookup (efile tgt env.eId) = none ∨ Pair t tgt env.eId i j
  frame : ∀ p, p ≠ env.efile → p ≠ env.dfile → p ≠ efile tgt env.eId → p ≠ dfile tgt env.eId →
    t.names.lookup p = s.names.lookup p
  data : t.data = s.data

/-- What the return value of `env_move` promises. -/
def MoveDone (env : Envelope) (tgt : Dir) (i j : Nat) (ret : Int) (t : Spool) : Prop :=
  if ret = 0 then
    Pair t tgt env.eId i j ∧ (env.eDir ≠ tgt → t.names.lookup env.efile = none)
  else
    Pair t env.eDir env.eId i j ∧
      (t.names.lookup (efile tgt env.eId) = none ∨ FileOp.unlink (efile tgt env.eId) ∈ t.failed)

section Move

variable {s t : Spool} {env : Envelope} {tgt : Dir} {i j : Nat}

/-- A stop before the source is touched: only the names of the target have changed. -/
theorem MoveStop.of_source (hp : Pair t env.eDir env.eId i j)
    (ht : t.names.lookup (efile tgt env.eId) = none ∨ Pair t tgt env.eId i j)
    (hframe : ∀ p, p ≠ efile tgt env.eId → p ≠ dfile tgt env.eId →
      t.names.lookup p = s.names.lookup p) (hdata : t.data = s.data) : MoveStop s env tgt i j t :=
  ⟨.inl hp, .inr hp, ht, fun p _ _ he hd => hframe p he hd, hdata⟩

/-- A stop after the Efile of the source is gone. -/
theorem MoveStop.of_target (hp : Pair t tgt env.eId i j) (hE : t.names.lookup env.efile = none)
    (hframe : ∀ p, p ≠ env.efile → p ≠ env.dfile → p ≠ efile tgt env.eId →
      p ≠ dfile tgt env.eId → t.names.lookup p = s.names.lookup p) (hdata : t.data = s.data) :
    MoveStop s env tgt i j t :=
  ⟨.inr hp, .inl hE, .inr hp, hframe, hdata⟩

/-- The names after the two links of `env_move`. -/
def linked (s : Spool) (env : Envelope) (tgt : Dir) (i j : Nat) : Directory Path :=
  (s.names.insert (dfile tgt env.eId) j).insert (efile tgt env.eId) i

theorem lookup_linked (p : Path) : (linked s env tgt i j).lookup p =
    if p = efile tgt env.eId then some i else if p = dfile tgt env.eId then some j
      else s.names.lookup p := by
  simp only [linked, lookup_insert_ite]

/-- Both links made: the pair is in both directories. -/
theorem linked_pairs (hp : Pair s env.eDir env.eId i j) (ht : t.names = linked s env tgt i j)
    (hne : env.eDir ≠ tgt) : Pair t env.eDir env.eId i j ∧ Pair t tgt env.eId i j := by
  simp only [Pair, ht, lookup_linked, efile_inj, dfile_inj, hne, false_and, if_false, and_self,
    if_true, efile_ne_dfile, dfile_ne_efile]
  exact ⟨hp, trivial⟩

/-- The source removed, with or without its Dfile. -/
theorem unlinked_source (hne : env.eDir ≠ tgt) (hdata : t.data = s.data)
    (ht : t.names = (linked s env tgt i j).erase env.efile ∨
      t.names = ((linked s env tgt i j).erase env.efile).erase env.dfile) :
    MoveStop s env tgt i j t ∧ MoveDone env tgt i j 0 t := by
  have hne' : tgt ≠ env.eDir := fun h => hne h.symm
  have hpair : Pair t tgt env.eId i j := by
    rcases ht with ht | ht <;> simp [Pair, ht, lookup_linked, Envelope.efile, Envelope.dfile, hne']
  have hE : t.names.lookup env.efile = none := by
    rcases ht with ht | ht <;> simp [ht, lookup_erase_ite]
  refine ⟨.of_target hpair hE (fun p h₁ h₂ h₃ h₄ => ?_) hdata, ⟨hpair, fun _ => hE⟩⟩
  rcases ht with ht | ht <;> simp [ht, lookup_linked, h₁, h₂, h₃, h₄]

/-- The new Efile removed again, with or without the new Dfile. -/
theorem rolled_back (hp : Pair s env.eDir env.eId i j) (hne : env.eDir ≠ tgt)
    (hdata : t.data = s.data) (ht : t.names = (linked s env tgt i j).erase (efile tgt env.eId) ∨
      t.names = ((linked s env tgt i j).erase (efile tgt env.eId)).erase (dfile tgt env.eId)) :
    MoveStop s env tgt i j t ∧ MoveDone env tgt i j (-1) t := by
  have hpair : Pair t env.eDir env.eId i j := by
    rcases ht with ht | ht <;> simpa [Pair, ht, lookup_erase_ite, lookup_linked, hne] using hp
  have hE : t.names.lookup (efile tgt env.eId) = none := by
    rcases ht with ht | ht <;> simp [ht]
  refine ⟨.of_source hpair (.inl hE) (fun p h₁ h₂ => ?_) hdata, ⟨hpair, .inl hE⟩⟩
  rcases ht with ht | ht <;> simp [ht, lookup_linked, h₁, h₂]

/-- The target as it was: the new Dfile linked, or nothing yet. -/
theorem not_linked (hp : Pair s env.eDir env.eId i j) (hne : env.eDir ≠ tgt)
    (hnone : s.names.lookup (efile tgt env.eId) = none) (hdata : t.data = s.data)
    (ht : t.names = s.names ∨ t.names = s.names.insert (dfile tgt env.eId) j ∨
      t.names = (s.names.insert (dfile tgt env.eId) j).erase (dfile tgt env.eId)) :
    MoveStop s env tgt i j t ∧ MoveDone env tgt i j (-1) t := by
  have hpair : Pair t env.eDir env.eId i j := by
    rcases ht with ht | ht | ht <;> simpa [Pair, ht, lookup_insert_ite, lookup_erase_ite, hne] using hp
  have hE : t.names.lookup (efile tgt env.eId) = none := by
    rcases ht with ht | ht | ht <;> simp [ht, hnone]
  refine ⟨.of_source hpair (.inl hE) (fun p h₁ h₂ => ?_) hdata, ⟨hpair, .inl hE⟩⟩
  rcases ht with ht | ht | ht <;> simp [ht, h₂]

/-- The removal of the source, or the rollback of both links. -/
theorem envMoveUnlink_spec (hp : Pair s env.eDir env.eId i j) (hne : env.eDir ≠ tgt)
    (hdata : t.data = s.data) (ht : t.names = linked s env tgt i j) :
    (envMoveUnlink env tgt).wpF (spool order) spoolFault
      (fun r u => MoveDone env tgt i j r.1 u) (MoveStop s env tgt i j) t := by
  have hboth : ∀ u : Spool, u.names = linked s env tgt i j → u.data = s.data →
      MoveStop s env tgt i j u := fun u hu hd =>
    .of_source (linked_pairs hp hu hne).1 (.inr (linked_pairs hp hu hne).2)
      (fun p h₁ h₂ => by simp [hu, lookup_linked, h₁, h₂]) hd
  refine Prog.wpF_seq (envUnlink_spec env t) ?_ ?_
  rotate_left
  · intro r u hr _
    cases hr with
    | kept hd hn hc => exact (unlinked_source hne (hd.trans hdata) (.inl (ht ▸ hn))).symm
    | gone hd hn hc => exact (unlinked_source hne (hd.trans hdata) (.inr (ht ▸ hn))).symm
    | failed hd hn hc =>
      have hn' : u.names = linked s env tgt i j := hn.trans ht
      have hd' : u.data = s.data := hd.trans hdata
      have hback : ∀ v : Spool, v.data = u.data →
          (v.names = u.names.erase (efile tgt env.eId) ∨
            v.names = (u.names.erase (efile tgt env.eId)).erase (dfile tgt env.eId)) →
          MoveDone env tgt i j (-1) v ∧ MoveStop s env tgt i j v := fun v hv hvn =>
        (rolled_back hp hne (hv.trans hd') (hn' ▸ hvn)).symm
      have hstop := fun v hv hvn => (hback v hv hvn).2
      refine wpF_unlink (hboth u hn' hd') (fun _ => ?_) (fun hno => ?_) ?_
      · refine wpF_addFastFiles (hstop _ rfl (.inl rfl))
          (wpF_unlink (hstop _ rfl (.inl rfl)) (fun _ => ?_) (fun _ => ?_) ?_)
        · exact hback _ rfl (.inr rfl)
        · exact hback _ rfl (.inl rfl)
        · exact hback _ rfl (.inl rfl)
      · exact absurd hno (by simp [hn', lookup_linked])
      · -- the rollback unlink failed: the pair is left in both directories
        refine ⟨⟨(linked_pairs hp hn' hne).1, .inr ?_⟩, hboth _ hn' hd'⟩
        simp
  · intro u hu
    rcases hu.names with hn | hn | hn
    · exact hboth u (hn.trans ht) (hu.data.trans hdata)
    · exact (unlinked_source hne (hu.data.trans hdata) (.inl (ht ▸ hn))).1
    · exact (unlinked_source hne (hu.data.trans hdata) (.inr (ht ▸ hn))).1

/-- **`env_move` never loses a message**: from a complete pair in `env.eDir` and no Efile in the
    target, every pattern of failures passes only through states in which one directory holds
    both files, and the return value tells which. -/
theorem envMove_spec (htgt : tgt = .slow ∨ tgt = .fast) (hp : Pair s env.eDir env.eId i j)
    (hnone : env.eDir ≠ tgt → s.names.lookup (efile tgt env.eId) = none) :
    (envMove env tgt).wpF (spool order) spoolFault
      (fun r u => ∃ ret env', r = some (ret, env') ∧ MoveDone env tgt i j ret u)
      (MoveStop s env tgt i j) s := by
  unfold envMove
  rw [if_pos htgt]
  split
  · rename_i hne
    have hsame : ∀ u : Spool, u.data = s.data →
        (u.names = s.names ∨ u.names = s.names.insert (dfile tgt env.eId) j ∨
          u.names = (s.names.insert (dfile tgt env.eId) j).erase (dfile tgt env.eId)) →
        (∃ ret env', some ((-1 : Int), env) = some (ret, env') ∧ MoveDone env tgt i j ret u) ∧
          MoveStop s env tgt i j u := fun u hu hn =>
      have h := not_linked hp hne (hnone hne) hu hn
      ⟨⟨-1, env, rfl, h.2⟩, h.1⟩
    have hstop := fun u hu hn => (hsame u hu hn).2
    refine wpF_link (hstop s rfl (.inl rfl)) (fun j' hj' hD => ?_) (fun _ => ?_) ?_
    · obtain rfl : j' = j := Option.some.inj (hj'.symm.trans hp.2)
      refine wpF_link (hstop _ rfl (.inr (.inl rfl))) (fun i' hi' _ => ?_) (fun _ => ?_) ?_
      · have hi : i' = i := by
          have hE : s.names.lookup env.efile = some i' := by
            simpa [Envelope.efile, lookup_insert_ite] using hi'
          exact Option.some.inj (hE.symm.trans hp.1)
        subst hi
        have hboth := linked_pairs (t := s.setNames (linked s env tgt i' j')) hp rfl hne
        refine wpF_addFastFiles (.of_source hboth.1 (.inr hboth.2)
          (fun p h₁ h₂ => by simp [h₁, h₂]) rfl) ?_
        refine Prog.wpF_seq (envMoveUnlink_spec hp hne rfl rfl) (fun _ h => h) ?_
        rintro ⟨ret, env'⟩ u hr hu
        exact ⟨⟨ret, env', rfl, hr⟩, hu⟩
      · refine wpF_unlink (hstop _ rfl (.inr (.inl rfl))) (fun _ => ?_) (fun _ => ?_) ?_
        · exact hsame _ rfl (.inr (.inr rfl))
        · exact hsame _ rfl (.inr (.inl rfl))
        · exact hsame _ rfl (.inr (.inl rfl))
      · refine wpF_unlink (hstop _ rfl (.inr (.inl rfl))) (fun _ => ?_) (fun _ => ?_) ?_
        · exact hsame _ rfl (.inr (.inr rfl))
        · exact hsame _ rfl (.inr (.inl rfl))
        · exact hsame _ rfl (.inr (.inl rfl))
    · exact hsame s rfl (.inl rfl)
    · exact hsame _ rfl (.inl rfl)
  · rename_i hne
    have heq : env.eDir = tgt := not_not.mp hne
    subst heq
    have hdone : MoveDone env env.eDir i j 0 s := ⟨hp, fun h => absurd rfl h⟩
    exact ⟨⟨0, env, rfl, hdone⟩, .inl hp, .inr hp, .inr hp, fun _ _ _ _ _ => rfl, rfl⟩

end Move

end Simta
