import Simta.SessionInvariant

/-!
# DATA in the history of a session

Every message that DATA reads ends its transaction, or stands in it with an Efile: `f_data` keeps the invariant
of the session.

* `Held` — the transaction whose message is being read;
* `envOutfile_efile` — an Efile that was written is flagged;
* `dataError_held` — the label `error` abandons a message without an Efile;
* `dataFront_held`, `dataVerdict_held`, `fData_left` — the parts of `f_data`.
-/

set_option autoImplicit false

namespace Simta

/-! ## The envelope -/

/-- The sender and the recipients of `env`. -/
def SameParties (env x : Envelope) : Prop := x.eMail = env.eMail ∧ x.eRcpt = env.eRcpt

theorem SameParties.refl (env : Envelope) : SameParties env env := ⟨rfl, rfl⟩

theorem SameParties.trans {env x y : Envelope} (h : SameParties env x) (h' : SameParties x y) : SameParties env y :=
  ⟨h'.1.trans h.1, h'.2.trans h.2⟩

theorem SameParties.carries {env x : Envelope} {t : Transaction} (h : SameParties env x) (ht : t.Carries env) :
    t.Carries x := ⟨h.1.trans ht.sender, by rw [h.2, ht.rcpts]⟩

theorem Rewritten.parties {env x : Envelope} (h : Rewritten env x) : SameParties env x := by
  rw [h]
  exact ⟨rfl, rfl⟩

theorem envDfileOpen_parties (env : Envelope) :
    (envDfileOpen env).wlp Prog.anyAnswer (fun p _ => SameParties env p.2) () := by
  intro ok t _
  cases ok <;> exact ⟨rfl, rfl⟩

theorem envDfileUnlink_parties (env : Envelope) :
    (envDfileUnlink env).wlp Prog.anyAnswer (fun p _ => SameParties env p.2) () := by
  intro ok t _
  cases ok <;> exact ⟨rfl, rfl⟩

theorem envTfileUnlink_parties (env : Envelope) :
    (envTfileUnlink env).wlp Prog.anyAnswer (fun p _ => SameParties env p.2) () := by
  intro ok t _
  cases ok <;> exact ⟨rfl, rfl⟩

/-- **An Efile that was written is flagged.** -/
theorem envOutfile_efile (conf : Conf) (env : Envelope) : (envOutfile conf env).wlp Prog.anyAnswer
    (fun r _ => ∀ x, r = some (0, x) → x.eFlags.efile = true) () := by
  have hlists (e : Envelope) : (efileLists conf e).wlp Prog.anyAnswer (fun p _ => p.2 = e) () := by
    unfold efileLists
    refine (Prog.wlp_bind _ _ _ _ _).mpr (Prog.wlp_of_forall fun ok _ => ?_)
    split
    · refine (Prog.wlp_bind _ _ _ _ _).mpr (Prog.wlp_of_forall fun ok _ => ?_)
      split <;> exact rfl
    · exact rfl
  have hefile (e : Envelope) : (envEfile conf e).wlp Prog.anyAnswer
      (fun p _ => p.1 = 0 → p.2.eFlags.efile = true) () := by
    unfold envEfile
    refine (Prog.wlp_bind _ _ _ _ _).mpr (Prog.wlp_of_forall fun ok _ => ?_)
    split
    · refine (Prog.wlp_bind _ _ _ _ _).mpr (Prog.wlp_of_forall fun _ _ => ?_)
      refine (Prog.wlp_bind _ _ _ _ _).mpr (Prog.wlp_of_forall fun now _ => ?_)
      cases now with
      | none => exact fun _ => rfl
      | some now =>
        refine Prog.wlp_mono (fun p _ hp _ => ?_) (hlists _)
        rw [hp]
        exact rfl
    · refine (Prog.wlp_bind _ _ _ _ _).mpr (Prog.wlp_of_forall fun _ _ => ?_)
      exact fun h => by cases h
  have hrename (e : Envelope) : (outfileRename conf e).wlp Prog.anyAnswer
      (fun r _ => ∀ x, r = some (0, x) → x.eFlags.efile = true) () := by
    unfold outfileRename
    refine Prog.wlp_seq (hefile e) ?_
    rintro ⟨ret, x⟩ _ hp
    split
    · rename_i heq
      cases heq
      rintro y hy
      cases hy
      exact hp rfl
    · rintro y hy
      cases hy
  unfold envOutfile
  split
  · exact hrename env
  · refine (Prog.wlp_bind _ _ _ _ _).mpr (Prog.wlp_of_forall fun r _ => ?_)
    split
    · exact fun x hx => by cases hx
    · exact hrename _
    · exact fun x hx => by cases hx

section Files

variable {σ : Type} {R : Prog.World RecvOp RecvAns σ} {r : ReceiveData} {s : σ}

theorem files_outfile (conf : Conf) (env : Envelope) : (Recv.files (envOutfile conf env)).wlp R
    (fun x r' _ => ((∀ p, x = some p → Rewritten env p.2) ∧ ∀ y, x = some (0, y) → y.eFlags.efile = true) ∧
      r' = r) r s :=
  files_same (Prog.wlp_and envOutfile_rewritten (envOutfile_efile conf env))

end Files

/-! ## The transaction of a message -/

/-- The transaction `t` is open, and has recipients; its message is that of `env`. -/
structure Held (sasl : Bool) (t : Transaction) (env : Envelope) (r : ReceiveData) : Prop where
  history : ∃ h, History.Of sasl r.rLog h ∧ h.current = some t ∧ h.authed = r.rAuth
  carries : t.Carries env
  stored : ∀ id, t.stored = some id → env.eId = id ∧ env.eFlags.efile = true
  rcpts : t.rcpts ≠ []

section Runs

variable {σ : Type} {R : Prog.World RecvOp RecvAns σ} {conf : RecvConf} {sasl : Bool} {t : Transaction}
  {env x : Envelope} {r r' : ReceiveData} {s : σ}

/-- What DATA looks at. -/
def dataView (r : ReceiveData) : Bool × List Event := (r.rAuth, r.rLog)

theorem Held.congr (h : Held sasl t env r) (hview : dataView r' = dataView r) : Held sasl t env r' := by
  simp only [dataView, Prod.mk.injEq] at hview
  obtain ⟨g, hlog, hopen, hauth⟩ := h.history
  exact ⟨⟨g, by rw [hview.2]; exact hlog, hopen, by rw [hview.1]; exact hauth⟩, h.carries, h.stored, h.rcpts⟩

/-- A message that is not stored may change its flags. -/
theorem Held.parties (h : Held sasl t env r) (hnew : t.stored = none) (hx : SameParties env x) :
    Held sasl t x r where
  history := h.history
  carries := hx.carries h.carries
  stored id hid := by
    rw [hnew] at hid
    cases hid
  rcpts := h.rcpts

theorem Held.log {e : Event} (h : Held sasl t env r) (he : ∀ g, g.current = some t → History.Step sasl g e g) :
    Held sasl t env { r with rLog := r.rLog ++ [e] } := by
  obtain ⟨g, hlog, hopen, hauth⟩ := h.history
  exact ⟨⟨g, hlog.snoc (he g hopen), hopen, hauth⟩, h.carries, h.stored, h.rcpts⟩

/-- While a transaction is open the client may send. -/
theorem Held.gate (h : Held sasl t env r) : Gate sasl r := by
  obtain ⟨g, hlog, hopen, hauth⟩ := h.history
  intro hsasl hno
  rw [← hauth, History.Of.guarded hlog (by simp [hopen]) hsasl] at hno
  cases hno

theorem Held.inSession (h : Held sasl t env r) (henv : r.rEnv = some env) : InSession sasl r := by
  refine ⟨?_, h.gate⟩
  obtain ⟨g, hlog, hopen, hauth⟩ := h.history
  refine ⟨g, hlog, ?_, hauth⟩
  rw [henv]
  exact ⟨t, hopen, h.carries, h.stored, fun _ => h.rcpts⟩

theorem Held.logged (h : Held sasl t env r) : ∃ g, History.Of sasl r.rLog g := by
  obtain ⟨g, hlog, -⟩ := h.history
  exact ⟨g, hlog⟩

/-- The message is given up. -/
theorem Held.abandoned (h : Held sasl t env r) (hnew : t.stored = none) :
    InSession sasl { r with rEnv := none, rLog := r.rLog ++ [.abandoned env] } := by
  refine ⟨?_, h.gate⟩
  obtain ⟨g, hlog, hopen, hauth⟩ := h.history
  exact ⟨_, hlog.snoc (.abandoned hopen hnew h.carries), rfl, hauth⟩

/-- The message is stored. -/
theorem Held.store (h : Held sasl t env r) (hnew : t.stored = none) (hefile : env.eFlags.efile = true) :
    Held sasl { t with stored := some env.eId } env { r with rLog := r.rLog ++ [.stored env] } := by
  obtain ⟨g, hlog, hopen, hauth⟩ := h.history
  refine ⟨⟨_, hlog.snoc (.stored hopen hnew h.rcpts h.carries hefile), rfl, hauth⟩, ⟨h.carries.sender, h.carries.rcpts⟩,
    fun id hid => ⟨Option.some.inj hid, hefile⟩, h.rcpts⟩

/-! ## The label `error` -/

theorem setSmtpMode_off_inSession (hr : InSession sasl r) :
    (setSmtpMode .off).wlp R (fun _ r' _ => InSession sasl r') r s := InSession.off hr.tracked

theorem dataReturn_inSession (banner : Bool) (ret : RecvRet) :
    Stateful.Preserves R (InSession sasl) (dataReturn banner ret) := by
  intro r s hr
  unfold dataReturn
  split
  · exact Stateful.wlp_seq (setSmtpMode_off_inSession hr) fun _ _ _ h => h
  · exact hr

theorem dataCleanup_parties {there : Bool} {unlink : Envelope → SpoolProg (Int × Envelope)} (ret : RecvRet)
    (hunlink : ∀ env, (unlink env).wlp Prog.anyAnswer (fun p _ => SameParties env p.2) ()) :
    (dataCleanup there unlink env ret).wlp R (fun p r' _ => SameParties env p.2 ∧ r' = r) r s := by
  unfold dataCleanup
  split
  · refine Stateful.wlp_seq (files_same (hunlink env)) ?_
    rintro ⟨code, x⟩ r' s' ⟨hx, rfl⟩
    split
    · rename_i heq
      cases heq
      exact ⟨hx, rfl⟩
    · rename_i heq
      cases heq
      exact ⟨hx, rfl⟩
  · exact ⟨.refl env, rfl⟩

/-- A step that asks one way or the other, and what both go on with. -/
theorem wlp_branch {α β : Type} {c : Prop} [Decidable c] {m m' : Recv β} {k : β → Recv α}
    {Q : α → ReceiveData → σ → Prop} (hm : m.wlp R (fun _ r' _ => r' = r) r s)
    (hm' : m'.wlp R (fun _ r' _ => r' = r) r s) (hk : ∀ b u, (k b).wlp R Q r u) :
    Stateful.wlp R (if c then m >>= k else m' >>= k) Q r s := by
  have hgo : ∀ b r' u, r' = r → (k b).wlp R Q r' u := by
    rintro b r' u rfl
    exact hk b u
  split
  · exact Stateful.wlp_seq hm hgo
  · exact Stateful.wlp_seq hm' hgo

/-- **Behind the label `error` the transaction is over, or its message has an Efile.** -/
theorem dataError_held (dff banner : Bool) (ret : RecvRet) (h : Held sasl t env r) :
    (dataError env dff banner ret).wlp R (fun _ r' _ => InSession sasl r') r s := by
  unfold dataError
  refine wlp_branch (files_any _) rfl fun closed u => ?_
  dsimp only
  generalize (if closed = true then ret else ret.failed) = ret
  split
  · have hkept : Held sasl t env { r with rEnv := some env } := h.congr rfl
    exact Recv.wlp_modify (dataReturn_inSession banner _ _ _ (hkept.inSession rfl))
  · rename_i hno
    have hnew : t.stored = none := by
      cases ht : t.stored with
      | none => rfl
      | some id => exact absurd (h.stored id ht).2 hno
    refine Stateful.wlp_seq (dataCleanup_parties _ envDfileUnlink_parties) ?_
    rintro p r' s' ⟨hp, rfl⟩
    refine Stateful.wlp_seq (dataCleanup_parties _ envTfileUnlink_parties) ?_
    rintro q r'' s'' ⟨hq, rfl⟩
    refine Recv.wlp_log (Recv.wlp_modify (dataReturn_inSession banner _ _ _ ?_))
    exact (h.parties hnew (hp.trans hq)).abandoned hnew

/-! ## Up to the verdict -/

/-- How a command leaves the session: ready for the next one, or with the log of a history when it aborts. -/
structure Left (sasl : Bool) (ret : RecvRet) (r : ReceiveData) : Prop where
  ready : ret ≠ .abort → InSession sasl r
  logged : ∃ g, History.Of sasl r.rLog g

theorem InSession.left (hr : InSession sasl r) (ret : RecvRet) : Left sasl ret r := by
  refine ⟨fun _ => hr, ?_⟩
  obtain ⟨g, hrec⟩ := hr.tracked
  exact ⟨g, hrec.log⟩

theorem Held.left (h : Held sasl t env r) : Left sasl .abort r := ⟨fun hno => absurd rfl hno, h.logged⟩

/-- Behind the checks: DATA has answered, or the message of a transaction is to be read. -/
def OpenHeld (sasl : Bool) (r : ReceiveData) : DataOpen → Prop
  | .returned _ => InSession sasl r
  | .text env _ => ∃ t, t.stored = none ∧ Held sasl t env r

theorem openHeld_returned {m : Recv RecvRet} (hm : m.wlp R (fun _ r' _ => InSession sasl r') r s) :
    Stateful.wlp R (m >>= fun ret => return DataOpen.returned ret) (fun x r' _ => OpenHeld sasl r' x) r s :=
  Stateful.wlp_seq hm fun _ _ _ h => h

theorem dataOpenDfile_held (hnew : t.stored = none) (h : Held sasl t env r) :
    (dataOpenDfile conf env).wlp R (fun x r' _ => OpenHeld sasl r' x) r s := by
  unfold dataOpenDfile
  refine Stateful.wlp_seq (files_same (envDfileOpen_parties env)) ?_
  rintro ⟨opened, x⟩ r' s' ⟨hx, rfl⟩
  have hset : Held sasl t x { r' with rEnv := some x } := (h.parties hnew hx).congr rfl
  refine Recv.wlp_modify ?_
  dsimp only
  split
  · refine Stateful.wlp_seq (files_any _) ?_
    rintro file r'' s'' rfl
    split
    · refine Recv.wlp_log (Recv.wlp_ask fun daytime u _ => ?_)
      have hopen := hset.log fun g hg => .dfile hg hnew hset.rcpts
      refine wlp_branch (fun _ _ _ => rfl) rfl fun larger v => ?_
      split
      · refine Recv.wlp_get (Stateful.wlp_seq (files_any _) ?_)
        rintro printed y w rfl
        split
        · exact ⟨t, hnew, hopen⟩
        · exact openHeld_returned (dataError_held _ _ _ hopen)
      · exact openHeld_returned (dataError_held _ _ _ hopen)
    · exact openHeld_returned (dataError_held _ _ _ hset)
  · exact hset.inSession rfl

/-- The message of a session that has recipients. -/
theorem InSession.held (hr : InSession sasl r) (henv : r.rEnv = some env) (hno : env.eFlags.efile = false)
    (hrcpt : env.eRcpt ≠ []) : ∃ t, t.stored = none ∧ Held sasl t env r := by
  obtain ⟨h, hlog, hof, hauth⟩ := hr.tracked
  rw [henv] at hof
  obtain ⟨t, hopen, hd⟩ := hof
  refine ⟨t, hd.new hno, ⟨h, hlog, hopen, hauth⟩, hd.carries, hd.stored, fun hnil => hrcpt ?_⟩
  rw [← hd.carries.rcpts] at hnil
  exact List.map_eq_nil_iff.mp hnil

theorem dataOpen_held (hr : InSession sasl r) :
    (dataOpen conf).wlp R (fun x r' _ => OpenHeld sasl r' x) r s := by
  have hbanner (code : Nat) (msg arg : Option Text) :
      Stateful.wlp R (smtpWriteBanner conf code msg arg >>= fun ret => return DataOpen.returned ret)
        (fun x r' _ => OpenHeld sasl r' x) r s :=
    openHeld_returned ((smtpWriteBanner_fixes code msg arg).inSession r s hr)
  unfold dataOpen
  refine Recv.wlp_get ?_
  split
  · exact hbanner _ _ _
  · split
    · exact hbanner _ _ _
    · split
      · exact hbanner _ _ _
      · rename_i env henv
        split
        · exact hbanner _ _ _
        · rename_i hefile
          split
          · exact hbanner _ _ _
          · rename_i hrcpt
            obtain ⟨t, hnew, h⟩ := hr.held henv (by simpa using hefile) hrcpt
            split
            · exact hr
            · exact hbanner _ _ _
            · exact hbanner _ _ _
            · exact hbanner _ _ _
            · exact ⟨t, hnew, h⟩
            · exact dataOpenDfile_held hnew h
            · exact dataOpenDfile_held hnew h

/-- The parties of what the part with the filter leaves. -/
def FilterEnd.Parties (env : Envelope) : FilterEnd → Prop
  | .abort => True
  | .failed x | .passed x _ _ => SameParties env x

theorem dataFilter_parties (env : Envelope) (d : DataState) :
    (dataFilter conf env d).wlp R (fun x r' _ => x.Parties env ∧ dataView r' = dataView r) r s := by
  have hstart (y : ReceiveData) (hy : dataView y = dataView r) (u : σ) :
      (startFilter env d).wlp R (fun x r' _ => x.Parties env ∧ dataView r' = dataView r) y u := by
    refine Recv.wlp_ask fun now u _ => ?_
    cases now with
    | none => exact ⟨.refl env, hy⟩
    | some now =>
      refine Stateful.wlp_seq (files_same envTfile_retagged) ?_
      rintro x r' s' ⟨hx, rfl⟩
      dsimp only
      split
      · exact ⟨trivial, hy⟩
      · exact Recv.wlp_get (Recv.wlp_ask fun _ _ _ => ⟨(hx _ rfl).rewritten.parties, hy⟩)
      · exact ⟨(hx _ rfl).rewritten.parties, hy⟩
  unfold dataFilter
  split
  · exact ⟨.refl env, rfl⟩
  · refine Recv.wlp_get ?_
    split
    · exact ⟨.refl env, rfl⟩
    · split
      · unfold runFilter
        split
        · exact Recv.wlp_modify (hstart _ (by rfl) _)
        · exact hstart _ rfl _
      · exact ⟨.refl env, rfl⟩

/-- At the tests of `filter_result` the transaction is still open. -/
def FrontHeld (sasl : Bool) (r : ReceiveData) : DataFront → Prop
  | .returned ret => Left sasl ret r
  | .verdict v => ∃ t, t.stored = none ∧ Held sasl t v.env r

theorem frontHeld_returned {m : Recv RecvRet} (hm : m.wlp R (fun _ r' _ => InSession sasl r') r s) :
    Stateful.wlp R (m >>= fun ret => return DataFront.returned ret) (fun x r' _ => FrontHeld sasl r' x) r s :=
  Stateful.wlp_seq hm fun ret _ _ h => h.left ret

theorem dataBehind_held {d : DataState} {lines : List (DataAnswers × Text)} (hnew : t.stored = none)
    (h : Held sasl t env r) :
    (dataBehind conf env d lines).wlp R (fun x r' _ => FrontHeld sasl r' x) r s := by
  unfold dataBehind
  refine Stateful.wlp_seq (dataStored_spec env d) ?_
  rintro x r' s' ⟨rfl, hx⟩
  cases x with
  | error dff => exact frontHeld_returned (dataError_held _ _ _ h)
  | ok p =>
    have hp : SameParties env p.1 := by
      obtain ⟨ino, hino⟩ := hx p rfl
      rw [hino]
      exact ⟨rfl, rfl⟩
    refine Stateful.wlp_seq (dataFilter_parties p.1 p.2) ?_
    rintro y r'' s'' ⟨hy, hview⟩
    have hheld (x : Envelope) (hx : SameParties p.1 x) : Held sasl t x r'' :=
      (h.parties hnew (hp.trans hx)).congr hview
    cases y with
    | abort => exact (h.congr hview).left
    | failed x => exact frontHeld_returned (dataError_held _ _ _ (hheld x hy))
    | passed x d' result =>
      have hset : Held sasl t x { r'' with rEnv := some x } := (hheld x hy).congr rfl
      refine Recv.wlp_modify (Recv.wlp_ask fun now u _ => ?_)
      cases now with
      | none => exact frontHeld_returned (dataError_held _ _ _ hset)
      | some now => exact ⟨t, hnew, hset⟩

theorem dataText_held {ans : Nat → DataAnswers} {fuel : Nat} {dff : Bool} (hnew : t.stored = none)
    (h : Held sasl t env r) :
    (dataText conf ans fuel env dff).wlp R (fun x r' _ => FrontHeld sasl r' x) r s := by
  have htimer : Held sasl t env { r with rTvInactivity := 0 } := h.congr rfl
  unfold dataText
  refine Recv.wlp_modify (Stateful.wlp_seq (smtpWriteBanner_same _ _ _) ?_)
  rintro ret r' s' rfl
  split
  · refine Recv.wlp_ask fun now u _ => ?_
    cases now with
    | none => exact frontHeld_returned (dataError_held _ _ _ htimer)
    | some now =>
      refine Recv.wlp_get (Stateful.wlp_seq (dataLoopRead_spec fuel _ _ _) ?_)
      rintro ⟨⟨dend, sn, d⟩, lines⟩ r'' s'' ⟨rfl, -⟩
      refine Recv.wlp_modify ?_
      generalize hx : (if dff = true then env.setDfile d.dfileFlag else env) = x
      have hparties : SameParties env x := by
        rw [← hx]
        split <;> exact ⟨rfl, rfl⟩
      generalize hy : (ReceiveData.mk ..) = y
      have hread : Held sasl t x y := (h.parties hnew hparties).congr (by rw [← hy]; rfl)
      cases dend with
      | dot => exact dataBehind_held hnew hread
      | timeLimit =>
        exact Stateful.wlp_seq (smtpWriteBanner_same _ _ _) fun _ _ _ hr => by
          rw [hr]
          exact frontHeld_returned (dataError_held _ _ _ hread)
      | getline g =>
        split
        · rename_i heq
          cases heq
        · exact Stateful.wlp_seq (smtpWriteBanner_same _ _ _) fun _ _ _ hr => by
            rw [hr]
            exact frontHeld_returned (dataError_held _ _ _ hread)
        · exact Stateful.wlp_seq (smtpWriteBanner_same _ _ _) fun _ _ _ hr => by
            rw [hr]
            exact frontHeld_returned (dataError_held _ _ _ hread)
        · exact frontHeld_returned (dataError_held _ _ _ hread)
  · exact frontHeld_returned (dataError_held _ _ _ htimer)

theorem dataFront_held {ans : Nat → DataAnswers} {fuel : Nat} (hr : InSession sasl r) :
    (dataFront conf ans fuel).wlp R (fun x r' _ => FrontHeld sasl r' x) r s := by
  unfold dataFront
  refine Stateful.wlp_seq (dataOpen_held hr) ?_
  intro x r' s' hx
  cases x with
  | returned ret => exact InSession.left hx ret
  | text env dff =>
    obtain ⟨t, hnew, h⟩ := hx
    exact dataText_held hnew h

/-! ## The verdict -/

theorem dataView_of_session (h : sessionView r' = sessionView r) : dataView r' = dataView r :=
  congrArg Prod.snd h

theorem files_fixes {α : Type} (p : SpoolProg α) : Stateful.Fixes R sessionView (Recv.files p) :=
  Stateful.fixes_of_same fun _ _ => files_any p

theorem bounce_fixes (env : Envelope) (body : Bool) (err : Text) :
    Stateful.Fixes R sessionView (bounce conf env body err) := by
  have hmessage (e : Envelope) (lines : Option (List Text)) :
      Stateful.Fixes R sessionView (bounceMessage conf e lines err) := by
    unfold bounceMessage
    refine Stateful.fixes_bind (Stateful.fixes_ask _) fun id => ?_
    split
    · exact Stateful.fixes_pure _
    · refine Stateful.fixes_bind (Stateful.fixes_ask _) fun ok => ?_
      split
      · refine Stateful.fixes_bind (Stateful.fixes_ask _) fun daytime => ?_
        refine Stateful.fixes_bind (files_fixes _) fun ok => ?_
        split
        · exact Stateful.fixes_bind (files_fixes _) fun _ => files_fixes _
        · exact Stateful.fixes_pure _
      · exact Stateful.fixes_pure _
  unfold bounce
  split
  · refine Stateful.fixes_bind (files_fixes _) fun text => ?_
    split
    · exact Stateful.fixes_pure _
    · exact hmessage _ _
  · exact hmessage _ _

theorem acceptedTimer_fixes (now : Int) : Stateful.Fixes R sessionView (acceptedTimer conf now) := by
  unfold acceptedTimer
  split
  · exact Stateful.fixes_modify fun _ => rfl
  · exact Stateful.fixes_pure _

/-- What a part of the verdict leaves; behind a part that goes on the transaction is one of `P`. -/
def ActsHeld (sasl : Bool) (P : Transaction → Prop) (r : ReceiveData) : ActsEnd → Prop
  | .abort => ∃ g, History.Of sasl r.rLog g
  | .failed x => ∃ t, Held sasl t x r
  | .acted x => ∃ t, P t ∧ Held sasl t x r

/-- The message is not stored. -/
def Transaction.New (t : Transaction) : Prop := t.stored = none

theorem andThen_held {P Q : Transaction → Prop} {p : Recv ActsEnd} {q : Envelope → Recv ActsEnd}
    (hp : p.wlp R (fun x r' _ => ActsHeld sasl P r' x) r s)
    (hq : ∀ t x r' s', P t → Held sasl t x r' → (q x).wlp R (fun y r'' _ => ActsHeld sasl Q r'' y) r' s') :
    (ActsEnd.andThen p q).wlp R (fun x r' _ => ActsHeld sasl Q r' x) r s := by
  refine Stateful.wlp_seq hp ?_
  intro x r' s' hx
  cases x with
  | abort => exact hx
  | failed x => exact hx
  | acted x =>
    obtain ⟨t, ht, h⟩ := hx
    exact hq t x r' s' ht h

theorem dataBounce_held {v : DataVars} (result : Nat) (hnew : t.New) (h : Held sasl t v.env r) :
    (dataBounce conf v result).wlp R (fun x r' _ => ActsHeld sasl Transaction.New r' x) r s := by
  unfold dataBounce
  split
  · refine (bounce_fixes _ _ _).then fun b r' s' hview => ?_
    have h' := h.congr (dataView_of_session hview)
    split
    · exact h'.logged
    · exact ⟨t, h'⟩
    · rename_i b
      refine Recv.wlp_ask fun _ u _ => Recv.wlp_log ?_
      have hlog := h'.log fun g hg => .bounced b hg hnew h'.rcpts
      refine (acceptedTimer_fixes _).then fun _ r'' s'' hview => ?_
      exact ⟨t, hnew, (hlog.congr (dataView_of_session hview)).parties hnew ⟨rfl, rfl⟩⟩
  · exact ⟨t, hnew, h⟩

theorem jailedFor_parties (conf : RecvConf) (env : Envelope) (host : Text) : SameParties env (jailedFor conf env host) := by
  have hhost : SameParties env (envHostname env host) := by
    unfold envHostname
    split
    · exact .refl env
    · split <;> exact ⟨rfl, rfl⟩
  unfold jailedFor
  dsimp only
  split
  · exact hhost
  · exact hhost

theorem dataJail_held (hnew : t.New) (h : Held sasl t env r) :
    (dataJail conf env).wlp R (fun x r' _ => ActsHeld sasl Transaction.New r' x) r s := by
  unfold dataJail
  split
  · split
    · exact ⟨t, hnew, h⟩
    · rename_i host _
      refine Stateful.wlp_seq (files_same (envTfileUnlink_parties env)) ?_
      rintro ⟨code, x⟩ r' s' ⟨hx, rfl⟩
      have h' := h.parties hnew hx
      have hjailed := h'.parties hnew (jailedFor_parties conf x host)
      split
      · rename_i heq
        cases heq
        split
        · refine Recv.wlp_ask fun ok u _ => ?_
          split
          · exact ⟨t, hnew, hjailed⟩
          · exact ⟨t, h'⟩
        · exact ⟨t, hnew, hjailed⟩
      · rename_i heq
        cases heq
        exact ⟨t, h'⟩
  · exact ⟨t, hnew, h⟩

theorem dataDelete_held (banner result : Nat) (hnew : t.New) (h : Held sasl t env r) :
    (dataDelete banner result env).wlp R (fun x r' _ => ActsHeld sasl Transaction.New r' x) r s := by
  unfold dataDelete
  split
  · refine Stateful.wlp_seq (files_same (envDfileUnlink_parties env)) ?_
    rintro ⟨code, x⟩ r' s' ⟨hx, rfl⟩
    have h' := h.parties hnew hx
    split
    · rename_i heq
      cases heq
      exact ⟨t, hnew, h'⟩
    · rename_i heq
      cases heq
      exact ⟨t, h'⟩
  · exact ⟨t, hnew, h⟩

theorem dataOutfile_held (now : Int) (hnew : t.New) (h : Held sasl t env r) :
    (dataOutfile conf now env).wlp R (fun x r' _ => ActsHeld sasl (fun _ => True) r' x) r s := by
  unfold dataOutfile
  split
  · refine Stateful.wlp_seq (files_outfile conf.toConf env) ?_
    rintro x r' s' ⟨⟨hparties, hefile⟩, rfl⟩
    split
    · exact h.logged
    · rename_i x
      refine (acceptedTimer_fixes now).then fun _ r'' s'' hview => Recv.wlp_log ?_
      have h' := (h.parties hnew (hparties _ rfl).parties).congr (dataView_of_session hview)
      exact ⟨_, trivial, h'.store hnew (hefile x rfl)⟩
    · exact ⟨t, h.parties hnew (hparties _ rfl).parties⟩
  · exact ⟨t, trivial, h⟩

theorem dataMode_view (result : Nat) : Stateful.Fixes R dataView (dataMode result) := by
  unfold dataMode
  split
  · exact Stateful.fixes_modify fun _ => rfl
  · split
    · exact Stateful.fixes_modify fun _ => rfl
    · exact Stateful.fixes_pure _

theorem dataActs_held {v : DataVars} (hnew : t.New) (h : Held sasl t v.env r) :
    (dataActs conf v).wlp R (fun x r' _ => ActsHeld sasl (fun _ => True) r' x) r s := by
  have hby (result : Nat) (u : σ) :
      (dataActsBy conf v result).wlp R (fun x r' _ => ActsHeld sasl (fun _ => True) r' x) r u := by
    unfold dataActsBy
    refine andThen_held (dataBounce_held result hnew h) fun t x r' s' hnew h => ?_
    have hnext : Stateful.wlp R
        (if hasFlag result messageJail = true then dataJail conf x else dataDelete v.data.messageBanner result x)
        (fun y r'' _ => ActsHeld sasl Transaction.New r'' y) r' s' := by
      split
      · exact dataJail_held hnew h
      · exact dataDelete_held _ _ hnew h
    refine andThen_held hnext fun t x r' s' hnew h => ?_
    refine andThen_held (dataOutfile_held v.tvNow hnew h) fun t x r' s' _ h => ?_
    refine Recv.wlp_modify ((dataMode_view result).then fun _ r'' s'' hview => ?_)
    exact ⟨t, trivial, h.congr hview⟩
  unfold dataActs
  split
  · exact hby _ s
  · exact Recv.wlp_ask fun result u _ => hby result u

theorem dataReply_held {v : DataVars} (h : Held sasl t env r) :
    (dataReply conf v env).wlp R (fun _ r' _ => InSession sasl r') r s := by
  have hend (ret : RecvRet) (u : σ) : Stateful.wlp R (do
      if ret = .ok then dataError env v.data.dff true (if v.data.readErr = .systemError then .syserror else .ok)
      else dataError env v.data.dff true .closeConnection) (fun _ r' _ => InSession sasl r') r u := by
    split <;> exact dataError_held _ _ _ h
  have hwritten {m : Recv RecvRet} (hm : m.wlp R (fun _ r' _ => r' = r) r s) :
      Stateful.wlp R (m >>= fun ret => do
        if ret = .ok then dataError env v.data.dff true (if v.data.readErr = .systemError then .syserror else .ok)
        else dataError env v.data.dff true .closeConnection) (fun _ r' _ => InSession sasl r') r s :=
    Stateful.wlp_seq hm fun ret _ u hr => by
      rw [hr]
      exact hend ret u
  unfold dataReply
  refine Recv.wlp_get ?_
  dsimp only
  split
  · exact hwritten (smtpWriteBanner_same _ _ _)
  · split
    · exact hwritten (smtpWriteBanner_same _ _ _)
    · exact hwritten (snetWritef_same _)

theorem dataVerdict_held {v : DataVars} (hnew : t.New) (h : Held sasl t v.env r) :
    (dataVerdict conf v).wlp R (fun ret r' _ => Left sasl ret r') r s := by
  unfold dataVerdict
  refine Stateful.wlp_seq (dataActs_held hnew h) ?_
  intro x r' s' hx
  cases x with
  | abort => exact ⟨fun hno => absurd rfl hno, hx⟩
  | failed x =>
    obtain ⟨t, h⟩ := hx
    exact Stateful.wlp_mono (fun ret _ _ hr => hr.left ret) (dataError_held _ _ _ h)
  | acted x =>
    obtain ⟨t, -, h⟩ := hx
    exact Stateful.wlp_mono (fun ret _ _ hr => hr.left ret) (dataReply_held h)

/-- **`f_data` keeps the session and its history in step**, or aborts with the log of a history. -/
theorem fData_left (ans : Nat → DataAnswers) (fuel : Nat) (hr : InSession sasl r) :
    (fData conf ans fuel).wlp R (fun ret r' _ => Left sasl ret r') r s := by
  unfold fData
  refine Stateful.wlp_seq (dataFront_held hr) ?_
  intro x r' s' hx
  cases x with
  | returned ret => exact hx
  | verdict v =>
    obtain ⟨t, hnew, h⟩ := hx
    exact dataVerdict_held hnew h

end Runs

end Simta
