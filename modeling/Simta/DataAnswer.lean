import Simta.DataHistory

/-!
# The answer to a message

Behind the text `f_data` chooses its reply by `message_banner`, and what it does with the message by the bits of
`filter_result`.  The two may disagree.

* `recording` — the world in which every line that is written is kept;
* `keepsMessage` — whether the message is stored, by the bits;
* `dataVerdict_answer` — one reply, and exactly when it says other than what was done.
-/

set_option autoImplicit false

namespace Simta

/-! ## What is written -/

/-- The lines written so far, behind an operation. -/
def RecvOp.written : RecvOp → List Text → List Text
  | .write line, lines => lines ++ [line]
  | _, lines => lines

/-- The world of any answers that keeps every line that is written. -/
def recording : Prog.World RecvOp RecvAns (List Text) := fun op lines _ lines' => lines' = op.written lines

/-- The messages that were stored. -/
def stores (r : ReceiveData) : Nat := r.rLog.countP Event.isStored

/-! ## The bits -/

/-- The reply refuses the message. -/
def refuses (v : DataVars) : Bool :=
  v.data.messageBanner = messageTempfail || v.data.messageBanner = messageReject

/-- The message has a Dfile that is not removed. -/
def keepsMessage (v : DataVars) (result : Nat) : Bool :=
  v.env.eFlags.dfile && (hasFlag result messageJail ||
    !(refuses v || hasFlag result messageDelete || hasFlag result messageBounce))

/-- The reply accepts the message. -/
def accepts (line : Text) : Bool := line.take 3 = "250".toList

section Verdict

variable {conf : RecvConf} {r r' : ReceiveData} {lines : List Text}

/-- Nothing is written and nothing is stored. -/
def Silent {α : Type} (m : Recv α) : Prop :=
  ∀ r lines, m.wlp recording (fun _ r' lines' => lines' = lines ∧ stores r' = stores r) r lines

theorem silent_pure {α : Type} (a : α) : Silent (pure a : Recv α) := fun _ _ => ⟨rfl, rfl⟩

theorem silent_ask {op : RecvOp} (h : ∀ lines, op.written lines = lines) : Silent (Recv.ask op) :=
  fun _ lines _ _ ht => ⟨ht.trans (h lines), rfl⟩

theorem silent_modify {f : ReceiveData → ReceiveData} (h : ∀ r, (f r).rLog = r.rLog) :
    Silent (modify f : Recv Unit) := fun r _ => ⟨rfl, by rw [stores, h r, stores]⟩

theorem silent_log {e : Event} (h : e.isStored = false) : Silent (Recv.log e) := by
  intro r lines
  refine ⟨rfl, ?_⟩
  unfold stores
  rw [List.countP_append, List.countP_singleton, h]
  exact Nat.add_zero _

theorem silent_bind {α β : Type} {m : Recv α} {g : α → Recv β} (hm : Silent m) (hg : ∀ a, Silent (g a)) :
    Silent (m >>= g) := by
  intro r lines
  refine Stateful.wlp_seq (hm r lines) ?_
  rintro a r' lines' ⟨rfl, hr⟩
  exact Stateful.wlp_mono (fun _ _ _ h => ⟨h.1, h.2.trans hr⟩) (hg a r' lines')

theorem silent_files {α : Type} (p : SpoolProg α) : Silent (Recv.files p) := by
  intro r lines
  refine (Stateful.wlp_lift _).mpr ?_
  induction p with
  | ret a => exact ⟨rfl, rfl⟩
  | call op k ih =>
    rintro a lines' rfl
    exact ih a

/-- What goes on behind a silent program. -/
theorem Silent.then {α β : Type} {m : Recv α} {g : α → Recv β} {Q : β → ReceiveData → List Text → Prop}
    (hm : Silent m) (hg : ∀ a r', stores r' = stores r → (g a).wlp recording Q r' lines) :
    (m >>= g).wlp recording Q r lines := by
  refine Stateful.wlp_seq (hm r lines) ?_
  rintro a r' lines' ⟨rfl, hr⟩
  exact hg a r' hr

/-! ## The parts of the verdict -/

/-- Nothing is written, and a part that goes on leaves an envelope in `P` and has stored `n` messages. -/
def ActsStored (P : Envelope → Prop) (n : Nat) (r : ReceiveData) (lines : List Text) (x : ActsEnd)
    (r' : ReceiveData) (lines' : List Text) : Prop :=
  lines' = lines ∧ ∀ env, x = .acted env → P env ∧ stores r' = stores r + n

theorem actsStored_failed {P : Envelope → Prop} {n : Nat} (env : Envelope) :
    ActsStored P n r lines (.failed env) r' lines := ⟨rfl, fun _ h => by cases h⟩

theorem actsStored_abort {P : Envelope → Prop} {n : Nat} : ActsStored P n r lines .abort r' lines :=
  ⟨rfl, fun _ h => by cases h⟩

theorem actsStored_acted {P : Envelope → Prop} {n : Nat} {env : Envelope} (hP : P env)
    (hr : stores r' = stores r + n) : ActsStored P n r lines (.acted env) r' lines := by
  refine ⟨rfl, fun x hx => ?_⟩
  cases hx
  exact ⟨hP, hr⟩

theorem andThen_stored {P Q : Envelope → Prop} {m n : Nat} {p : Recv ActsEnd} {q : Envelope → Recv ActsEnd}
    (hp : p.wlp recording (ActsStored P m r lines) r lines)
    (hq : ∀ env r', P env → (q env).wlp recording (ActsStored Q n r' lines) r' lines) :
    (ActsEnd.andThen p q).wlp recording (ActsStored Q (m + n) r lines) r lines := by
  refine Stateful.wlp_seq hp ?_
  rintro x r' lines' ⟨rfl, hx⟩
  cases x with
  | abort => exact actsStored_abort
  | failed env => exact actsStored_failed env
  | acted env =>
    obtain ⟨hP, hr⟩ := hx env rfl
    refine Stateful.wlp_mono ?_ (hq env r' hP)
    rintro y r'' lines'' ⟨hl, hy⟩
    refine ⟨hl, fun env' henv => ⟨(hy env' henv).1, ?_⟩⟩
    rw [(hy env' henv).2, hr, Nat.add_assoc]

theorem silent_bounce (env : Envelope) (body : Bool) (err : Text) : Silent (bounce conf env body err) := by
  have hmessage (e : Envelope) (text : Option (List Text)) : Silent (bounceMessage conf e text err) := by
    unfold bounceMessage
    refine silent_bind (silent_ask fun _ => rfl) fun id => ?_
    split
    · exact silent_pure _
    · refine silent_bind (silent_ask fun _ => rfl) fun ok => ?_
      split
      · refine silent_bind (silent_ask fun _ => rfl) fun daytime => silent_bind (silent_files _) fun ok => ?_
        split
        · exact silent_bind (silent_files _) fun _ => silent_files _
        · exact silent_pure _
      · exact silent_pure _
  unfold bounce
  split
  · refine silent_bind (silent_files _) fun text => ?_
    split
    · exact silent_pure _
    · exact hmessage _ _
  · exact hmessage _ _

theorem silent_acceptedTimer (now : Int) : Silent (acceptedTimer conf now) := by
  unfold acceptedTimer
  split
  · exact silent_modify fun _ => rfl
  · exact silent_pure _

/-- The flag of the Dfile. -/
def HasDfile (b : Bool) (env : Envelope) : Prop := env.eFlags.dfile = b

theorem dataBounce_stored (v : DataVars) (result : Nat) : (dataBounce conf v result).wlp recording
    (ActsStored (HasDfile v.env.eFlags.dfile) 0 r lines) r lines := by
  unfold dataBounce
  split
  · refine (silent_bounce _ _ _).then fun b r' hr => ?_
    split
    · exact actsStored_abort
    · exact actsStored_failed _
    · refine (silent_ask fun _ => rfl).then fun _ x hx => ?_
      refine (silent_log rfl).then fun _ y hy => (silent_acceptedTimer _).then fun _ z hz => ?_
      exact actsStored_acted rfl (by rw [hz, hy, hx, hr, Nat.add_zero])
  · exact actsStored_acted rfl rfl

/-- A file of the envelope is removed, or is not there to be. -/
theorem files_retagged {Q : Int × Envelope → Prop} {p : SpoolProg (Int × Envelope)}
    (hp : p.wlp Prog.anyAnswer (fun x _ => Q x) ()) {α : Type} {g : Int × Envelope → Recv α}
    {P : α → ReceiveData → List Text → Prop} (hg : ∀ x, Q x → (g x).wlp recording P r lines) :
    (Recv.files p >>= g).wlp recording P r lines := by
  refine Stateful.wlp_seq (P := fun x r' lines' => (Q x ∧ r' = r) ∧ lines' = lines) ?_ ?_
  · refine Stateful.wlp_mono ?_ (Stateful.wlp_and (files_same hp) (silent_files p r lines))
    exact fun x r' lines' h => ⟨h.1, h.2.1⟩
  · rintro x r' lines' ⟨⟨hx, rfl⟩, rfl⟩
    exact hg x hx

theorem envTfileUnlink_dfile (env : Envelope) : (envTfileUnlink env).wlp Prog.anyAnswer
    (fun x _ => x.2.eFlags.dfile = env.eFlags.dfile) () := by
  intro ok t _
  cases ok <;> exact rfl

theorem envDfileUnlink_dfile (env : Envelope) : (envDfileUnlink env).wlp Prog.anyAnswer
    (fun x _ => x.1 = 0 → x.2.eFlags.dfile = false) () := by
  intro ok t _
  cases ok with
  | false => exact fun h => by cases h
  | true => exact fun _ => rfl

theorem jailedFor_dfile (conf : RecvConf) (env : Envelope) (host : Text) :
    (jailedFor conf env host).eFlags.dfile = env.eFlags.dfile := by
  have hhost : (envHostname env host).eFlags = env.eFlags := by
    unfold envHostname
    split
    · exact rfl
    · split <;> exact rfl
  unfold jailedFor
  dsimp only
  split <;> rw [← hhost]

theorem dataJail_stored {b : Bool} {env : Envelope} (h : HasDfile b env) :
    (dataJail conf env).wlp recording (ActsStored (HasDfile b) 0 r lines) r lines := by
  unfold dataJail
  split
  · split
    · exact actsStored_acted h rfl
    · rename_i host _
      refine files_retagged (envTfileUnlink_dfile env) fun x hx => ?_
      have hjailed : HasDfile b (jailedFor conf x.2 host) := (jailedFor_dfile conf x.2 host).trans (hx.trans h)
      split
      · rename_i y
        split
        · refine (silent_ask fun _ => rfl).then fun ok r' hr => ?_
          split
          · exact actsStored_acted hjailed hr
          · exact actsStored_failed _
        · exact actsStored_acted hjailed rfl
      · exact actsStored_failed _
  · exact actsStored_acted h rfl

/-- A message that is not accepted is to be removed. -/
def deletes (v : DataVars) (result : Nat) : Bool :=
  refuses v || hasFlag result messageDelete || hasFlag result messageBounce

theorem dataDelete_stored {v : DataVars} {result : Nat} {b : Bool} {env : Envelope} (h : HasDfile b env) :
    (dataDelete v.data.messageBanner result env).wlp recording
      (ActsStored (HasDfile (b && !deletes v result)) 0 r lines) r lines := by
  have hdeletes : deletes v result = true ↔ (v.data.messageBanner = messageTempfail ∨
      v.data.messageBanner = messageReject ∨ hasFlag result messageDelete = true ∨
      hasFlag result messageBounce = true) := by
    simp [deletes, refuses, or_assoc]
  unfold dataDelete
  split
  · rename_i hc
    refine files_retagged (envDfileUnlink_dfile env) fun x hx => ?_
    split
    · refine actsStored_acted ?_ rfl
      rw [HasDfile, hdeletes.mpr hc.1]
      simpa using hx rfl
    · exact actsStored_failed _
  · rename_i hc
    refine actsStored_acted ?_ rfl
    cases hb : b with
    | false => rw [HasDfile, h, hb, Bool.false_and]
    | true =>
      have hno : deletes v result = false := by
        by_contra hyes
        exact hc ⟨hdeletes.mp (by simpa using hyes), h.trans hb⟩
      rw [HasDfile, h, hb, hno]
      exact rfl

theorem dataOutfile_stored {b : Bool} {env : Envelope} (now : Int) (h : HasDfile b env) :
    (dataOutfile conf now env).wlp recording (ActsStored (fun _ => True) b.toNat r lines) r lines := by
  unfold dataOutfile
  cases b with
  | false =>
    rw [if_neg (by rw [h]; nofun)]
    exact actsStored_acted trivial rfl
  | true =>
    have hdfile : env.eFlags.dfile = true := h
    rw [if_pos hdfile]
    refine (silent_files _).then fun x r' hr => ?_
    split
    · exact actsStored_abort
    · rename_i y
      refine (silent_acceptedTimer now).then fun _ r'' hr' => Recv.wlp_log ?_
      refine actsStored_acted trivial ?_
      have hone : stores { r'' with rLog := r''.rLog ++ [.stored y] } = stores r'' + 1 := by
        unfold stores
        rw [List.countP_append]
        exact rfl
      rw [hone, hr', hr]
      exact rfl
    · exact actsStored_failed _

theorem silent_dataMode (result : Nat) : Silent (dataMode result) := by
  unfold dataMode
  split
  · exact silent_modify fun _ => rfl
  · split
    · exact silent_modify fun _ => rfl
    · exact silent_pure _

theorem dataActsBy_stored (v : DataVars) (result : Nat) : (dataActsBy conf v result).wlp recording
    (ActsStored (fun _ => True) (keepsMessage v result).toNat r lines) r lines := by
  unfold dataActsBy
  have hkeep : keepsMessage v result =
      (v.env.eFlags.dfile && (hasFlag result messageJail || !deletes v result)) := rfl
  rw [← Nat.zero_add (keepsMessage v result).toNat]
  refine andThen_stored (dataBounce_stored v result) fun env r' henv => ?_
  rw [← Nat.zero_add (keepsMessage v result).toNat]
  have hmiddle : Stateful.wlp recording
      (if hasFlag result messageJail = true then dataJail conf env else dataDelete v.data.messageBanner result env)
      (ActsStored (HasDfile (keepsMessage v result)) 0 r' lines) r' lines := by
    split
    · rename_i hjail
      rw [hkeep, hjail, Bool.true_or, Bool.and_true]
      exact dataJail_stored henv
    · rename_i hjail
      rw [hkeep, Bool.eq_false_iff.mpr hjail, Bool.false_or]
      exact dataDelete_stored henv
  refine andThen_stored hmiddle fun env r' henv => ?_
  rw [← Nat.add_zero (keepsMessage v result).toNat]
  refine andThen_stored (dataOutfile_stored v.tvNow henv) fun env r' _ => ?_
  refine (silent_modify (f := fun r => { r with rEnv := some env }) fun _ => rfl).then fun _ x hx => ?_
  refine (silent_dataMode result).then fun _ y hy => ?_
  exact actsStored_acted trivial (hy.trans hx)

/-! ## The reply -/

theorem silent_setEnv (env : Envelope) : Silent (setEnv env) := silent_modify fun _ => rfl

theorem silent_dataReturn (banner : Bool) (ret : RecvRet) : Silent (dataReturn banner ret) := by
  unfold dataReturn
  split
  · exact silent_bind (silent_modify fun _ => rfl) fun _ => silent_pure _
  · exact silent_pure _

theorem silent_dataCleanup (there : Bool) (unlink : Envelope → SpoolProg (Int × Envelope)) (env : Envelope)
    (ret : RecvRet) : Silent (dataCleanup there unlink env ret) := by
  unfold dataCleanup
  split
  · refine silent_bind (silent_files _) fun x => ?_
    split <;> exact silent_pure _
  · exact silent_pure _

theorem silent_branch {α β : Type} {c : Prop} [Decidable c] {m m' : Recv β} {k : β → Recv α} (hm : Silent m)
    (hm' : Silent m') (hk : ∀ b, Silent (k b)) : Silent (if c then m >>= k else m' >>= k) := by
  split
  · exact silent_bind hm hk
  · exact silent_bind hm' hk

/-- Behind the label `error` nothing more is written or stored. -/
theorem silent_dataError (env : Envelope) (dff banner : Bool) (ret : RecvRet) :
    Silent (dataError env dff banner ret) := by
  unfold dataError
  refine silent_branch (silent_files _) (silent_pure true) fun closed => ?_
  dsimp only
  split
  · exact silent_bind (silent_setEnv env) fun _ => silent_dataReturn _ _
  · refine silent_bind (silent_dataCleanup _ _ _ _) fun p => silent_bind (silent_dataCleanup _ _ _ _) fun q => ?_
    refine silent_bind (silent_log rfl) fun _ => silent_bind (silent_modify fun _ => rfl) fun _ => ?_
    exact silent_dataReturn _ _

/-- The answer of `f_data` and what it has done: there is no answer, or one line that says other than what was
    done just when these bits are set. -/
structure Replied (v : DataVars) (result : Nat) (r r' : ReceiveData) (lines lines' : List Text) : Prop where
  reply : ∃ line, lines' = lines ++ [line] ∧ accepts line = !refuses v
  stored : stores r' = stores r + (keepsMessage v result).toNat

theorem accepts_banner (conf : RecvConf) (code : Nat) (msg arg : Option Text) (digits : Text)
    (hcode : Nat.toDigits 10 (replyCode code) = digits) (hlen : digits.length = 3) :
    accepts (bannerLine conf code msg arg) = decide (digits = "250".toList) := by
  unfold accepts bannerLine
  simp only [hcode, List.append_assoc]
  rw [List.take_append_of_le_length (by omega), ← hlen, List.take_length]

theorem accepts_acceptLine (env : Envelope) (filterMessage : Option Text) :
    accepts (acceptLine env filterMessage) = true := by
  cases filterMessage <;> exact rfl

theorem smtpWriteBanner_writes (code : Nat) (msg arg : Option Text) : (smtpWriteBanner conf code msg arg).wlp recording
    (fun _ r' lines' => r' = r ∧ lines' = lines ++ [bannerLine conf code msg arg]) r lines := by
  refine Recv.wlp_ask ?_
  rintro written lines' rfl
  cases written <;> exact ⟨rfl, rfl⟩

theorem snetWritef_writes (line : Text) : (snetWritef line).wlp recording
    (fun _ r' lines' => r' = r ∧ lines' = lines ++ [line]) r lines := by
  refine Recv.wlp_ask ?_
  rintro written lines' rfl
  cases written <;> exact ⟨rfl, rfl⟩

theorem dataReply_replied {v : DataVars} {env : Envelope} : (dataReply conf v env).wlp recording
    (fun _ r' lines' => (∃ line, lines' = lines ++ [line] ∧ accepts line = !refuses v) ∧ stores r' = stores r)
    r lines := by
  have hwritten {m : Recv RecvRet} {line : Text}
      (hm : m.wlp recording (fun _ r' lines' => r' = r ∧ lines' = lines ++ [line]) r lines)
      (hline : accepts line = !refuses v) : Stateful.wlp recording (m >>= fun ret => do
        if ret = .ok then dataError env v.data.dff true (if v.data.readErr = .systemError then .syserror else .ok)
        else dataError env v.data.dff true .closeConnection)
        (fun _ r' lines' => (∃ line, lines' = lines ++ [line] ∧ accepts line = !refuses v) ∧ stores r' = stores r)
        r lines := by
    refine Stateful.wlp_seq hm ?_
    rintro ret r' lines' ⟨rfl, rfl⟩
    have herror (ret : RecvRet) := silent_dataError env v.data.dff true ret r' (lines ++ [line])
    split <;> exact Stateful.wlp_mono (fun _ _ _ h => ⟨⟨line, h.1, hline⟩, h.2⟩) (herror _)
  unfold dataReply
  refine Recv.wlp_get ?_
  dsimp only
  split
  · rename_i htemp
    refine hwritten (smtpWriteBanner_writes _ _ _) ?_
    rw [accepts_banner conf 451 _ _ "451".toList rfl rfl]
    simp [refuses, htemp]
  · rename_i htemp
    split
    · rename_i hreject
      refine hwritten (smtpWriteBanner_writes _ _ _) ?_
      rw [accepts_banner conf 554 _ _ "554".toList rfl rfl]
      simp [refuses, hreject]
    · rename_i hreject
      refine hwritten (snetWritef_writes _) ?_
      rw [accepts_acceptLine]
      simp [refuses, htemp, hreject]

/-- The result by which `f_data` acts. -/
def Acted (v : DataVars) (result : Nat) : Prop := ∀ x, v.filterResult = some x → result = x

theorem dataActs_stored (v : DataVars) : (dataActs conf v).wlp recording
    (fun x r' lines' => ∃ result, Acted v result ∧
      ActsStored (fun _ => True) (keepsMessage v result).toNat r lines x r' lines') r lines := by
  unfold dataActs
  split
  · rename_i result hresult
    refine Stateful.wlp_mono (fun x r' lines' h => ⟨result, fun y hy => ?_, h⟩) (dataActsBy_stored v result)
    exact Option.some.inj (hresult.symm.trans hy)
  · rename_i hresult
    refine Recv.wlp_ask ?_
    rintro result lines' rfl
    refine Stateful.wlp_mono (fun x r' lines' h => ⟨result, fun y hy => ?_, h⟩) (dataActsBy_stored v result)
    cases hresult.symm.trans hy

/-- There is no answer, or one line that accepts the message unless it is refused; it is stored unless it is
    not kept. -/
theorem dataVerdict_replied (v : DataVars) : (dataVerdict conf v).wlp recording
    (fun _ r' lines' => lines' = lines ∨ ∃ result, Acted v result ∧ Replied v result r r' lines lines') r lines := by
  unfold dataVerdict
  refine Stateful.wlp_seq (dataActs_stored v) ?_
  rintro x r' lines' ⟨result, hresult, rfl, hx⟩
  cases x with
  | abort => exact .inl rfl
  | failed env =>
    exact Stateful.wlp_mono (fun _ _ _ h => .inl h.1) (silent_dataError env v.data.dff false .syserror r' lines')
  | acted env =>
    refine Stateful.wlp_mono ?_ dataReply_replied
    rintro _ r'' lines'' ⟨hreply, hr⟩
    exact .inr ⟨result, hresult, hreply, hr.trans (hx env rfl).2⟩

/-- How far a line agrees with what was done with the message. -/
structure Agreement (v : DataVars) (result : Nat) (line : Text) (r r' : ReceiveData) : Prop where
  once : stores r' = stores r ∨ stores r' = stores r + 1
  lost : accepts line = true ∧ stores r' = stores r ↔ refuses v = false ∧ (v.env.eFlags.dfile = false ∨
    hasFlag result messageJail = false ∧ (hasFlag result messageDelete = true ∨ hasFlag result messageBounce = true))
  kept : accepts line = false ∧ stores r' = stores r + 1 ↔ refuses v = true ∧ v.env.eFlags.dfile = true ∧
    hasFlag result messageJail = true

/-- **What DATA answers and what it does with the message**, for every verdict and every outcome of its calls.
    Behind the verdict it writes one line or none.  A line that accepts the message is written for one that is not
    stored just when nothing refuses it and it has no Dfile, or the filter has it deleted or bounced and not jailed;
    a line that refuses it is written for one that is stored just when the filter has it jailed. -/
theorem dataVerdict_answer (conf : RecvConf) (v : DataVars) (r : ReceiveData) (lines : List Text) (ret : RecvRet)
    (r' : ReceiveData) (lines' : List Text) (hrun : (dataVerdict conf v).Runs recording r lines ret r' lines') :
    lines' = lines ∨ ∃ line result, Acted v result ∧ lines' = lines ++ [line] ∧ Agreement v result line r r' := by
  rcases Stateful.wlp_iff_runs.mp (dataVerdict_replied v) _ _ _ hrun with h | ⟨result, hresult, ⟨line, hl, hline⟩, hr⟩
  · exact .inl h
  · refine .inr ⟨line, result, hresult, hl, ⟨?_, ?_, ?_⟩⟩
    · rw [hr]
      cases keepsMessage v result <;> simp
    · rw [hline, hr]
      unfold keepsMessage
      cases refuses v <;> cases v.env.eFlags.dfile <;> cases hasFlag result messageJail <;>
        cases hasFlag result messageDelete <;> cases hasFlag result messageBounce <;> simp
    · rw [hline, hr]
      unfold keepsMessage
      cases refuses v <;> cases v.env.eFlags.dfile <;> cases hasFlag result messageJail <;>
        cases hasFlag result messageDelete <;> cases hasFlag result messageBounce <;> simp

end Verdict

/-! A message that the filter rejects and has jailed, and its verdict with all files at hand. -/

def jailedVars : DataVars where
  env := { envRecipient (envCreate {} .fast "1.2.3".toList (some []) none) joe with eFlags.dfile := true, eDinode := 1 }
  data := { dataStart false ⟨.ready, 0, []⟩ 0 with messageBanner := messageReject }
  filterResult := some (messageReject + messageJail)
  tvNow := 0
  lines := []

def jailedWorld : Prog.Handler RecvOp RecvAns (List Text)
  | .write line, lines => (true, lines ++ [line])
  | .file (.creat _), lines | .file (.fdopen _), lines | .file (.print _ _), lines | .file (.fclose _), lines
  | .file (.rename _ _), lines => (true, lines)
  | .file .clock, lines => (some 0, lines)
  | op, lines => (op.fail, op.written lines)

theorem dataVerdict_answer_jailed : ∃ ret r' lines',
    (dataVerdict largeConf jailedVars).Runs recording largeSession [] ret r' lines' ∧
      (lines' = [] ∨ ∃ line result, Acted jailedVars result ∧ lines' = [] ++ [line] ∧
        Agreement jailedVars result line largeSession r') := by
  have hworld : ∀ op lines, recording op lines (jailedWorld op lines).1 (jailedWorld op lines).2 := by
    intro op lines
    unfold jailedWorld
    split <;> exact rfl
  have hrun := Prog.runs_of_run hworld (dataVerdict largeConf jailedVars largeSession) []
  exact ⟨_, _, _, hrun, dataVerdict_answer largeConf jailedVars largeSession [] _ _ _ hrun⟩

end Simta
