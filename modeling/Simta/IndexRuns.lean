import Simta.EnvIndexed

/-!
# The indexes over whole runs

* `envReadLines_mail`, `envReadLines_sender` — what `env_read` leaves of the sender;
* `EnvIndex.Reached` — the runs of `env_create`, `env_read`, `env_efile` and `env_free`, with the envelopes
  that are live and indexed;
* `EnvIndex.IndexRight` — what is to hold of the indexes;
* `indexes_right` — it holds in every run in which no two such envelopes have one id up to case, and no
  function uses freed memory.
-/

set_option autoImplicit false

namespace Simta

/-! ## What `env_read` leaves of the sender -/

section Stays

variable {P : Envelope → Prop} {α β : Type} {get : α → Envelope} {get' : β → Envelope} {env : Envelope}

/-- `P` holds of the envelope that a step of `env_read` leaves, also where it fails. -/
def Stays (P : Envelope → Prop) (get : α → Envelope) : EnvRead α → Prop
  | .ok a => P (get a)
  | .error x => P x

theorem Stays.bind {m : EnvRead α} {f : α → EnvRead β} (hm : Stays P get m)
    (hf : ∀ a, P (get a) → Stays P get' (f a)) : Stays P get' (m >>= f) := by
  cases m with
  | error x => exact hm
  | ok a => exact hf a hm

theorem expectLine_stays (henv : P env) (c : Char) (lines : List Text) :
    Stays P (fun _ => env) (expectLine env c lines) := by
  unfold expectLine
  split
  · split <;> exact henv
  · exact henv

theorem readNumber_stays {present : Prop} [Decidable present] (c : Char)
    {set : Envelope → Int → Envelope} (hset : ∀ env v, P env → P (set env v)) (henv : P env)
    (lines : List Text) : Stays P Prod.fst (readNumber present c set env lines) := by
  unfold readNumber
  split
  · refine (expectLine_stays henv c lines).bind fun r _ => ?_
    have hd : Stays P (fun _ => env) (expectD env r.1) := by
      unfold expectD
      split <;> exact henv
    exact hd.bind fun v _ => hset env v henv
  · exact henv

theorem readQueueId_stays (henv : P env) (version : Int) (lines : List Text) :
    Stays P (fun _ => env) (readQueueId version env lines) := by
  unfold readQueueId
  split
  · refine (expectLine_stays henv 'E' lines).bind fun r _ => ?_
    dsimp only
    split <;> exact henv
  · exact henv

variable {m : Text} {mode : ReadMode}

theorem readHost_mail (henv : env.eMail = some m) (hostname : Text) :
    Stays (fun x => x.eMail = some m) id (readHost mode env hostname) := by
  unfold readHost
  split
  · show (envHostname env hostname).eMail = some m
    unfold envHostname
    split
    · exact henv
    · split <;> exact henv
  · split <;> split <;> exact henv

theorem readRecipients_mail (lines : List Text) : ∀ {env : Envelope}, env.eMail = some m →
    Stays (fun x => x.eMail = some m) id (readRecipients env lines) := by
  induction lines with
  | nil => exact fun henv => henv
  | cons line rest ih =>
    intro env henv
    cases line with
    | nil => exact henv
    | cons c addr =>
      by_cases hc : c = 'R'
      · subst hc
        show Stays _ id (readRecipients (envRecipient env addr) rest)
        exact ih henv
      · have herror : readRecipients env ((c :: addr) :: rest) = .error env := by simp [readRecipients, hc]
        rw [herror]
        exact henv

theorem readSender_mail (henv : env.eMail = some m) (sender : Text) (lines : List Text) :
    Stays (fun x => x.eMail = some m) id (readSender mode env sender lines) := by
  unfold readSender
  split
  · unfold envSender
    rw [henv]
    exact henv
  · split
    · refine (readRecipients_mail lines henv).bind fun x hx => ?_
      split <;> exact hx
    · exact henv

/-- A sender that is set stays. -/
theorem envReadLines_mail (henv : env.eMail = some m) (version0 : Int) (dinode0 : Nat) (lines : List Text) :
    Stays (fun x => x.eMail = some m) id (envReadLines mode version0 dinode0 env lines) := by
  have hkeep : ∀ (set : Envelope → Int → Envelope), (∀ env v, (set env v).eMail = env.eMail) →
      ∀ (env : Envelope) (v : Int), env.eMail = some m →
        (if mode = .queueInfo then set env v else env).eMail = some m := by
    intro set hset env v henv
    split
    · rw [hset, henv]
    · exact henv
  unfold envReadLines
  refine (expectLine_stays henv 'V' lines).bind fun r _ => ?_
  dsimp only
  split
  · exact henv
  · refine (readQueueId_stays henv _ _).bind fun lines _ => ?_
    refine (expectLine_stays henv 'I' _).bind fun r _ => ?_
    have hdinode : Envelope.eMail (if mode = .queueInfo then
        { env with eDinode := (sscanfLu r.1).getD dinode0 } else env) = some m := by
      split <;> exact henv
    have hX := hkeep (fun x v => { x with eNExpLevel := v }) fun _ _ => rfl
    refine Stays.bind (readNumber_stays 'X' hX hdinode _) fun r₁ h₁ => ?_
    have hJ := hkeep (fun x v => { x with eJail := v }) fun _ _ => rfl
    refine Stays.bind (readNumber_stays 'J' hJ h₁ _) fun r₂ h₂ => ?_
    refine (expectLine_stays h₂ 'H' _).bind fun r₃ _ => ?_
    refine (readHost_mail h₂ _).bind fun env₁ h₃ => ?_
    have hD := hkeep (fun x v => { x with eAttributes := v }) fun _ _ => rfl
    refine Stays.bind (readNumber_stays 'D' hD h₃ _) fun r₄ h₄ => ?_
    refine (expectLine_stays h₄ 'F' _).bind fun r₅ _ => ?_
    exact readSender_mail h₄ _ _

/-- `P` holds of what a step of `env_read` leaves when it succeeds. -/
def Yields (P : α → Prop) (r : EnvRead α) : Prop := ∀ a, r = .ok a → P a

theorem Yields.bind {P : β → Prop} {r : EnvRead α} {f : α → EnvRead β} (hf : ∀ a, Yields P (f a)) :
    Yields P (r >>= f) := by
  intro b hb
  cases r with
  | error x => cases hb
  | ok a => exact hf a b hb

theorem readRecipients_yields (lines : List Text) : ∀ {env : Envelope},
    Yields (fun x => x.eMail = env.eMail) (readRecipients env lines) := by
  induction lines with
  | nil =>
    rintro env x ⟨⟩
    rfl
  | cons line rest ih =>
    intro env x hx
    cases line with
    | nil => cases hx
    | cons c addr =>
      by_cases hc : c = 'R'
      · subst hc
        exact @ih (envRecipient env addr) x hx
      · have herror : readRecipients env ((c :: addr) :: rest) = .error env := by simp [readRecipients, hc]
        rw [herror] at hx
        cases hx

theorem readSender_yields (sender : Text) (lines : List Text) :
    Yields (fun x => x.eMail ≠ none) (readSender mode env sender lines) := by
  unfold readSender
  split
  · unfold envSender
    cases env.eMail with
    | some _ =>
      intro x hx
      cases hx
    | none =>
      intro x hx
      cases hx
      simp
  · split
    · rename_i hmail
      have hr := @readRecipients_yields lines env
      cases hrr : readRecipients env lines with
      | error y =>
        intro x hx
        cases hx
      | ok y =>
        intro x hx
        have hx : (if y.eRcpt = [] then throw y else return y : EnvRead Envelope) = .ok x := hx
        split at hx
        · cases hx
        · cases hx
          rw [hr y hrr, hmail]
          simp
    · intro x hx
      cases hx

/-- An envelope that has been read has a sender. -/
theorem envReadLines_sender (version0 : Int) (dinode0 : Nat) (lines : List Text) :
    Yields (fun x => x.eMail ≠ none) (envReadLines mode version0 dinode0 env lines) := by
  unfold envReadLines
  refine .bind fun r => ?_
  dsimp only
  split
  · intro x hx
    cases hx
  · exact .bind fun _ => .bind fun _ => .bind fun _ => .bind fun _ => .bind fun _ => .bind fun _ =>
      .bind fun _ => .bind fun _ => readSender_yields _ _

end Stays

namespace EnvIndex

variable {s s' : EnvIndex} {cells cells' : DllOf → List Nat} {e : Nat} {conf : Conf}
variable {env : IndexedEnvelope}

/-! ## Runs -/

/-- The ids of the envelopes `I` are distinct. -/
def DistinctIds (same : Text → Text → Bool) (s : EnvIndex) (I : List Nat) : Prop :=
  ∀ a ∈ I, ∀ b ∈ I, ∀ x y, s.envs a = some x → s.envs b = some y → same x.eId y.eId = true → a = b

/-- The runs of the functions on envelopes, each with the live envelopes `I` that `env_read` or `env_efile`
    has indexed.  `write` is any other function that fills in fields of an envelope. -/
inductive Reached (same : Text → Text → Bool) (conf : Conf) : EnvIndex → List Nat → Prop
  | start : Reached same conf empty []
  | create {s : EnvIndex} {I : List Nat} (dir : Dir) (id : Text) (eMail : Option Text)
      (parent : Option Envelope) (h : Reached same conf s I) :
      Reached same conf (s.envCreate conf dir id eMail parent) I
  | write {s s' : EnvIndex} {I : List Nat} {e : Nat} {env : IndexedEnvelope} {y : Envelope}
      (h : Reached same conf s I) (he : s.envs e = some env) (hy : Kept env.toEnvelope y)
      (hs : s.store e y = some s') : Reached same conf s' I
  | read {s s' : EnvIndex} {I : List Nat} {e : Nat} {mode : ReadMode} {lock : Bool} {a : ReadAnswers} {ret : Int}
      (h : Reached same conf s I) (hids : ret = 0 → DistinctIds same s (e :: I))
      (hs : s.envRead conf mode lock a e = some (ret, s')) :
      Reached same conf s' (if ret = 0 then e :: I else I)
  | efile {s s' : EnvIndex} {I : List Nat} {e : Nat} {renamed : Bool} {now : Option Int} {ret : Int}
      (h : Reached same conf s I) (hids : ret = 0 → DistinctIds same s (e :: I))
      (hs : s.envEfile conf renamed now e = some (ret, s')) :
      Reached same conf s' (if ret = 0 then e :: I else I)
  | free {s s' : EnvIndex} {I : List Nat} {e : Nat} (h : Reached same conf s I)
      (hs : s.envFree e = some s') : Reached same conf s' (I.filter (· ≠ e))

/-- What holds of the indexes at any time in a run. -/
structure Standing (conf : Conf) (s : EnvIndex) (I : List Nat) : Prop where
  holds : ∃ cells, s.Holds cells none
  entered : ∀ e ∈ I, ∃ env, s.envs e = some env ∧ (conf.midListEnable = true → env.eEnvListEntry ≠ none) ∧
    (conf.senderListEnable = true → env.eSenderEntry ≠ none)
  only : ∀ e, s.mid e ≠ none ∨ s.se e ≠ none → e ∈ I

theorem strcaseEq_iff {a b : Text} : strcaseEq a b = true ↔ hostKey a = hostKey b := by
  simp [strcaseEq, hostKey]

/-- The ids are distinct, so an entry under the id of the envelope is its own. -/
theorem DistinctIds.onlyId {I : List Nat} (hids : DistinctIds strcaseEq s (e :: I)) (he : s.envs e = some env)
    {entry : Nat → Option Nat} (honly : ∀ a, entry a ≠ none → a ∈ I) : s.OnlyId entry e env.toEnvelope :=
  fun a x hx hne hkey => hids a (List.mem_cons_of_mem _ (honly a hne)) e List.mem_cons_self x env hx he
    (strcaseEq_iff.mpr hkey)

theorem Standing.index {I : List Nat} (h : Standing conf s I) (he : s.envs e = some env)
    (hids : DistinctIds strcaseEq s (e :: I)) (hm : conf.senderListEnable = true → env.eMail ≠ none) :
    ∃ s', s.index conf e = some s' ∧ Standing conf s' (e :: I) := by
  obtain ⟨cells, hs⟩ := h.holds
  obtain ⟨s', cells', hindex, hs', hadv, hmid, hse⟩ := index_spec hs he
    (hids.onlyId he fun a ha => h.only a (.inl ha)) (hids.onlyId he fun a ha => h.only a (.inr ha)) hm
  refine ⟨s', hindex, ⟨cells', hs'⟩, ?_, ?_⟩
  · intro a ha
    by_cases hae : a = e
    · subst hae
      obtain ⟨x, hx, -⟩ := hadv.self env he
      rw [mid_eq hx] at hmid
      rw [se_eq hx] at hse
      exact ⟨x, hx, hmid, hse⟩
    · rw [hadv.others a hae]
      exact h.entered a ((List.mem_cons.mp ha).resolve_left hae)
  · intro a ha
    by_cases hae : a = e
    · exact hae ▸ List.mem_cons_self
    · refine List.mem_cons_of_mem _ (h.only a ?_)
      unfold mid se at ha ⊢
      rwa [hadv.others a hae] at ha

theorem Standing.store {I : List Nat} {y : Envelope} (h : Standing conf s I) (he : s.envs e = some env)
    (hy : Kept env.toEnvelope y) : ∃ t, s.store e y = some t ∧ Standing conf t I ∧
      t.envs e = some { env with toEnvelope := y } ∧
      ∀ J, DistinctIds strcaseEq s J → DistinctIds strcaseEq t J := by
  obtain ⟨cells, hs⟩ := h.holds
  obtain ⟨hstore, hs'⟩ := store_spec hs he hy
  have hself : (s.setEnv e { env with toEnvelope := y }).envs e = some { env with toEnvelope := y } :=
    Function.update_self ..
  have hothers : ∀ a, a ≠ e → (s.setEnv e { env with toEnvelope := y }).envs a = s.envs a :=
    fun a ha => Function.update_of_ne ha ..
  refine ⟨_, hstore, ⟨⟨cells, hs'⟩, ?_, ?_⟩, hself, ?_⟩
  · intro a ha
    obtain ⟨x, hx, hentries⟩ := h.entered a ha
    by_cases hae : a = e
    · subst hae
      rw [he] at hx
      cases hx
      exact ⟨_, hself, hentries⟩
    · exact ⟨x, (hothers a hae).trans hx, hentries⟩
  · intro a ha
    apply h.only a
    rw [setEnv_mid, setEnv_se] at ha
    by_cases hae : a = e
    · subst hae
      rwa [Function.update_self, Function.update_self, ← mid_eq he, ← se_eq he] at ha
    · rwa [Function.update_of_ne hae, Function.update_of_ne hae] at ha
  · have hid : ∀ a x, (s.setEnv e { env with toEnvelope := y }).envs a = some x →
        ∃ x', s.envs a = some x' ∧ x'.eId = x.eId := by
      intro a x hx
      by_cases hae : a = e
      · subst hae
        rw [hself] at hx
        cases hx
        exact ⟨env, he, hy.1.symm⟩
      · exact ⟨x, (hothers a hae).symm.trans hx, rfl⟩
    intro J hJ a ha b hb x x' hx hx' hsame
    obtain ⟨z, hz, hzx⟩ := hid a x hx
    obtain ⟨z', hz', hzx'⟩ := hid b x' hx'
    exact hJ a ha b hb z z' hz hz' (by rwa [hzx, hzx'])

/-- What a function does that reads or writes a file: it fails, with some fields filled in, or the
    envelope is indexed with fields of which `P` holds. -/
def Files (P : Envelope → Prop) (conf : Conf) (s : EnvIndex) (e : Nat) (env : IndexedEnvelope)
    (r : Option (Int × EnvIndex)) : Prop :=
  (∃ ret, ret ≠ 0 ∧ (r = some (ret, s) ∨
    ∃ y, Kept env.toEnvelope y ∧ r = (s.store e y).map fun t => (ret, t))) ∨
  ∃ y, Kept env.toEnvelope y ∧ P y ∧ r = (s.store e y).bind fun t => (t.index conf e).map fun u => (0, u)

theorem kept_of_read {mode : ReadMode} {version0 : Int} {dinode0 : Nat} {lines : List Text} {env : Envelope} :
    Fills mode env id (envReadLines mode version0 dinode0 env lines) →
    (∀ y, envReadLines mode version0 dinode0 env lines = .ok y → Kept env y) ∧
      ∀ y, envReadLines mode version0 dinode0 env lines = .error y → Kept env y := by
  intro hfills
  have hmail : ∀ m, env.eMail = some m →
      Stays (fun x => x.eMail = some m) id (envReadLines mode version0 dinode0 env lines) :=
    fun m hm => envReadLines_mail hm version0 dinode0 lines
  constructor
  · intro y hy
    rw [hy] at hfills hmail
    exact ⟨FilledIn.eId hfills, hmail⟩
  · intro y hy
    rw [hy] at hfills hmail
    exact ⟨FilledIn.eId hfills, hmail⟩

theorem envRead_files (he : s.envs e = some env) (mode : ReadMode) (lock : Bool) (a : ReadAnswers) :
    Files (fun y => y.eMail ≠ none) conf s e env (s.envRead conf mode lock a e) := by
  obtain ⟨hok, herror⟩ := kept_of_read (@envReadLines_fills mode env.toEnvelope a.version0 a.dinode0 a.lines)
  unfold envRead
  simp only [he, Option.bind_eq_bind, Option.bind_some]
  split
  · exact .inl ⟨1, by decide, .inl rfl⟩
  · split
    · exact .inl ⟨1, by decide, .inl rfl⟩
    · split
      · rename_i y hy
        refine .inl ⟨1, by decide, .inr ⟨y, herror y hy, ?_⟩⟩
        cases s.store e y <;> rfl
      · rename_i y hy
        by_cases hclosed : lock ∨ a.closed
        · refine .inr ⟨y, hok y hy, envReadLines_sender _ _ _ y hy, ?_⟩
          simp only [hclosed, if_true]
          cases s.store e y with
          | none => rfl
          | some t =>
            simp only [Option.bind_some]
            cases t.index conf e <;> rfl
        · refine .inl ⟨1, by decide, .inr ⟨y, hok y hy, ?_⟩⟩
          simp only [hclosed, if_false]
          cases s.store e y <;> rfl

theorem envEfile_files (he : s.envs e = some env) (renamed : Bool) (now : Option Int) :
    Files (fun y => y.eMail = env.eMail) conf s e env (s.envEfile conf renamed now e) := by
  unfold envEfile
  simp only [he, Option.bind_eq_bind, Option.bind_some]
  cases renamed with
  | false => exact .inl ⟨-1, by decide, .inl rfl⟩
  | true =>
    cases now with
    | none =>
      refine .inl ⟨-1, by decide, .inr ⟨(env.setTfile false).setEfile true, ⟨rfl, fun _ hm => hm⟩, ?_⟩⟩
      simp only [if_true]
      cases s.store e _ <;> rfl
    | some now =>
      refine .inr ⟨((env.setTfile false).setEfile true).touched now, ⟨rfl, fun _ hm => hm⟩, rfl, ?_⟩
      simp only [if_true]
      cases s.store e _ with
      | none => rfl
      | some t =>
        simp only [Option.bind_some]
        cases t.index conf e <;> rfl

/-- Only an envelope with a sender enters the list of a sender. -/
theorem Standing.sender_of_index {I : List Nat} (h : Standing conf s I) (he : s.envs e = some env)
    (hids : DistinctIds strcaseEq s (e :: I)) (hindex : s.index conf e = some s')
    (hc : conf.senderListEnable = true) : env.eMail ≠ none := by
  intro hnone
  have hno : ∀ {t : EnvIndex} {x : IndexedEnvelope}, t.envs e = some x → x.eMail = none →
      t.senderListAdd e = none := by
    intro t x hx hmail
    simp [senderListAdd, hx, hmail]
  rw [index_eq, hc] at hindex
  cases hmid : conf.midListEnable with
  | false =>
    rw [hmid] at hindex
    have hadd : s.senderListAdd e = some s' := hindex
    rw [hno he hnone] at hadd
    cases hadd
  | true =>
    obtain ⟨cells, hs⟩ := h.holds
    obtain ⟨t, -, hadd, -, -, hadv⟩ := midListAdd_spec hs he (hids.onlyId he fun a ha => h.only a (.inl ha))
    obtain ⟨x, hx, hxe, -⟩ := hadv.self env he
    rw [hmid] at hindex
    have hadd' : (s.midListAdd e).bind (fun t => t.senderListAdd e) = some s' := hindex
    rw [hadd, Option.bind_some, hno hx (by rw [hxe, hnone])] at hadd'
    cases hadd'

/-- A function that succeeds has indexed the envelope. -/
theorem Standing.filed {P : Envelope → Prop} {I : List Nat} {ret : Int} (h : Standing conf s I)
    (he : s.envs e = some env) (hfiles : Files P conf s e env (some (ret, s')))
    (hids : ret = 0 → DistinctIds strcaseEq s (e :: I)) : Standing conf s' (if ret = 0 then e :: I else I) := by
  obtain ⟨ret', hret, hr | ⟨y, hy, hr⟩⟩ | ⟨y, hy, -, hr⟩ := hfiles
  · cases hr
    rwa [if_neg hret]
  · obtain ⟨t, hstore, ht, -⟩ := h.store he hy
    rw [hstore] at hr
    cases hr
    rwa [if_neg hret]
  · obtain ⟨t, hstore, ht, hte, hkeep⟩ := h.store he hy
    rw [hstore, Option.bind_some] at hr
    obtain ⟨u, hindex, hu⟩ := Option.map_eq_some_iff.mp hr.symm
    cases hu
    have hids := hkeep _ (hids rfl)
    obtain ⟨u, hindex', hu⟩ := ht.index hte hids (ht.sender_of_index hte hids hindex)
    rw [hindex] at hindex'
    cases hindex'
    exact hu

/-- A function on an envelope uses no freed memory. -/
theorem Standing.defined {P : Envelope → Prop} {I : List Nat} {r : Option (Int × EnvIndex)} (h : Standing conf s I)
    (he : s.envs e = some env) (hfiles : Files P conf s e env r) (hids : DistinctIds strcaseEq s (e :: I))
    (hm : ∀ y, P y → conf.senderListEnable = true → y.eMail ≠ none) : r ≠ none := by
  obtain ⟨ret', hret, hr | ⟨y, hy, hr⟩⟩ | ⟨y, hy, hP, hr⟩ := hfiles
  · rw [hr]
    simp
  · obtain ⟨t, hstore, -⟩ := h.store he hy
    rw [hr, hstore]
    simp
  · obtain ⟨t, hstore, ht, hte, hkeep⟩ := h.store he hy
    obtain ⟨u, hindex, -⟩ := ht.index hte (hkeep _ hids) (hm y hP)
    rw [hr, hstore, Option.bind_some, hindex]
    simp

theorem Standing.free {I : List Nat} (h : Standing conf s I) (he : s.envs e = some env) :
    ∃ s', s.envFree e = some s' ∧ Standing conf s' (I.filter (· ≠ e)) := by
  obtain ⟨cells, hs⟩ := h.holds
  obtain ⟨s', cells', hfree, hs', henvs⟩ := envFree_spec hs he
  have hothers : ∀ a, a ≠ e → s'.envs a = s.envs a := by
    intro a ha
    rw [henvs, Function.update_of_ne ha]
  refine ⟨s', hfree, ⟨cells', hs'⟩, ?_, ?_⟩
  · intro a ha
    obtain ⟨ha, hae⟩ := List.mem_filter.mp ha
    rw [hothers a (by simpa using hae)]
    exact h.entered a ha
  · intro a ha
    have hae : a ≠ e := by
      rintro rfl
      unfold mid se at ha
      rw [henvs, Function.update_self] at ha
      simp at ha
    refine List.mem_filter.mpr ⟨h.only a ?_, by simpa using hae⟩
    unfold mid se at ha ⊢
    rwa [hothers a hae] at ha

theorem Standing.create {I : List Nat} (h : Standing conf s I) (dir : Dir) (id : Text) (eMail : Option Text)
    (parent : Option Envelope) : Standing conf (s.envCreate conf dir id eMail parent) I := by
  obtain ⟨cells, hs⟩ := h.holds
  have hfresh := (hs.below _ le_rfl).1
  have hothers : ∀ a, a ≠ s.fresh → (s.envCreate conf dir id eMail parent).envs a = s.envs a :=
    fun a ha => Function.update_of_ne ha ..
  refine ⟨⟨cells, envCreate_spec hs conf dir id eMail parent⟩, ?_, ?_⟩
  · intro a ha
    obtain ⟨x, hx, hentries⟩ := h.entered a ha
    refine ⟨x, ?_, hentries⟩
    rw [hothers, hx]
    rintro rfl
    rw [hfresh] at hx
    cases hx
  · intro a ha
    apply h.only a
    by_cases hae : a = s.fresh
    · subst hae
      have hself : (s.envCreate conf dir id eMail parent).envs s.fresh = some _ := Function.update_self ..
      rw [mid_eq hself, se_eq hself] at ha
      simp at ha
    · unfold mid se at ha ⊢
      rwa [hothers a hae] at ha

theorem standing_empty (conf : Conf) : Standing conf empty [] := by
  refine ⟨⟨fun _ => [], ⟨⟨⟨fun _ => Linked.nil, fun _ _ _ ha => absurd ha List.not_mem_nil⟩, ?_, ?_, ?_⟩, ?_, ?_, ?_⟩⟩,
    ?_, ?_⟩
  · intro i d hd
    cases hd
  · exact fun _ => .nil
  · exact fun _ _ => rfl
  · refine ⟨fun e d he => ?_, fun d hd => ?_⟩
    · cases he
    · cases hd
  · refine ⟨fun e se he => ?_, fun se sl e d hse => ?_, fun sl d hd => ?_, fun sl L hL => ?_, fun d hd => ?_⟩
    · cases he
    · cases hse
    · cases hd
    · cases hL
    · cases hd
  · exact fun _ _ => ⟨rfl, rfl, rfl⟩
  · intro e he
    cases he
  · rintro e (he | he) <;> exact absurd rfl he

/-- A call on memory that is not an envelope is undefined. -/
theorem live_of_call {α : Type} {f : IndexedEnvelope → Option α} {r : α} (h : (s.envs e).bind f = some r) :
    ∃ env, s.envs e = some env := by
  obtain ⟨env, he, -⟩ := Option.bind_eq_some_iff.mp h
  exact ⟨env, he⟩

/-- **The indexes stand in every run.** -/
theorem Reached.standing {I : List Nat} (h : Reached strcaseEq conf s I) : Standing conf s I := by
  induction h with
  | start => exact standing_empty conf
  | create dir id eMail parent _ ih => exact ih.create dir id eMail parent
  | write _ he hy hs ih =>
    obtain ⟨t, hstore, ht, -⟩ := ih.store he hy
    rw [hs] at hstore
    cases hstore
    exact ht
  | read _ hids hs ih =>
    obtain ⟨env, he⟩ := live_of_call hs
    exact ih.filed he (hs ▸ envRead_files he _ _ _) hids
  | efile _ hids hs ih =>
    obtain ⟨env, he⟩ := live_of_call hs
    exact ih.filed he (hs ▸ envEfile_files he _ _) hids
  | free _ hs ih =>
    obtain ⟨env, he⟩ := live_of_call hs
    obtain ⟨t, hfree, ht⟩ := ih.free he
    rw [hs] at hfree
    cases hfree
    exact ht

/-! ## What holds in every run -/

/-- The envelope that the entry `d` of a list of a sender is for. -/
def entryEnv (s : EnvIndex) (d : Nat) : Option Nat := do
  let c ← s.dll.content d
  let entry ← s.senders (← c.2)
  return entry.seEnv

/-- The indexes are right, with the entries `cells`. -/
structure IndexRight (conf : Conf) (s : EnvIndex) (I : List Nat) (cells : DllOf → List Nat) : Prop where
  /-- Every list is linked both ways. -/
  linked : ∀ i, Linked s.dll.next s.dll.prev (s.dll.head i) (cells i)
  /-- Every list is strictly ordered by key, up to case. -/
  ascending : ∀ i, (cells i).Pairwise fun d d' => s.dll.keyOf s.text d < s.dll.keyOf s.text d'
  /-- An indexed envelope is once in the list of messages. -/
  message : conf.midListEnable = true → ∀ e ∈ I, ∃! d, d ∈ cells .message ∧
    (s.dll.content d).bind (·.2) = some e
  /-- An indexed envelope is once in the lists of senders, in that of its own sender. -/
  sender : conf.senderListEnable = true → ∀ e ∈ I, ∃ sl L m d, s.lists sl = some L ∧ s.mail e = some m ∧
    s.dll.keyOf s.text L.slDll = hostKey m ∧ d ∈ cells (.entries sl) ∧ s.entryEnv d = some e ∧
    ∀ sl' d', d' ∈ cells (.entries sl') → s.entryEnv d' = some e → sl' = sl ∧ d' = d
  /-- The count of a sender is the length of its list, and its list is not empty. -/
  counts : ∀ sl L, s.lists sl = some L →
    L.slDll ∈ cells .sender ∧ L.slNEntries = (cells (.entries sl)).length ∧ cells (.entries sl) ≠ []
  /-- `dll_lookup` finds a key exactly if it is there. -/
  lookup : ∀ i key, ∃ r, s.dll.dllLookup s.text (s.dll.head i) key = some r ∧
    ∀ d, r = some d ↔ d ∈ cells i ∧ s.dll.keyOf s.text d = hostKey key
  /-- No entry refers to a freed envelope, or to a freed key. -/
  messages : ∀ d ∈ cells .message, ∃ e ∈ I, (∃ env, s.envs e = some env) ∧
    s.dll.content d = some (.shared e, some e)
  senders : ∀ d ∈ cells .sender, ∃ sl L k, s.lists sl = some L ∧ L.slDll = d ∧
    s.dll.content d = some (.copy k, some sl)
  entries : ∀ sl, ∀ d ∈ cells (.entries sl), ∃ e ∈ I, (∃ env, s.envs e = some env) ∧ (∃ L, s.lists sl = some L) ∧
    ∃ se, s.senders se = some ⟨sl, e, d⟩ ∧ s.dll.content d = some (.shared e, some se)

theorem live_of_mid {d : Nat} (h : s.mid e = some d) : ∃ env, s.envs e = some env := by
  obtain ⟨env, he, -⟩ := Option.bind_eq_some_iff.mp h
  exact ⟨env, he⟩

theorem live_of_se {se : Nat} (h : s.se e = some se) : ∃ env, s.envs e = some env := by
  obtain ⟨env, he, -⟩ := Option.bind_eq_some_iff.mp h
  exact ⟨env, he⟩

theorem Standing.right {I : List Nat} (h : Standing conf s I) : ∃ cells, IndexRight conf s I cells := by
  obtain ⟨cells, hs⟩ := h.holds
  have hentry : ∀ {sl d e' : Nat}, d ∈ cells (.entries sl) → s.entryEnv d = some e' →
      ∃ se, s.senders se = some ⟨sl, e', d⟩ := by
    intro sl d e' hd he
    obtain ⟨se, a, hse⟩ := hs.sender.full sl d hd
    obtain ⟨-, -, hc, -⟩ := hs.sender.filed se sl a d hse
    have hae : s.entryEnv d = some a := by simp [entryEnv, hc, hse]
    rw [hae] at he
    cases he
    exact ⟨se, hse⟩
  refine ⟨cells, fun i => hs.sorted.family.linked i, hs.sorted.ascending, ?_, ?_, ?_,
    fun i key => DllHeap.dllLookup_spec hs.sorted i key, ?_, ?_, ?_⟩
  · intro hc e he
    obtain ⟨env, henv, hmid, -⟩ := h.entered e he
    obtain ⟨d, hd⟩ := Option.ne_none_iff_exists'.mp (hmid hc)
    have hmid := (mid_eq henv).trans hd
    obtain ⟨hmem, hcon⟩ := hs.message.filed e d hmid
    refine ⟨d, ⟨hmem, by rw [hcon]; rfl⟩, ?_⟩
    rintro d' ⟨hmem', hdata⟩
    obtain ⟨a, ha⟩ := hs.message.full d' hmem'
    obtain ⟨-, hcon'⟩ := hs.message.filed a d' ha
    rw [hcon'] at hdata
    cases hdata
    rw [hmid] at ha
    exact (Option.some.inj ha).symm
  · intro hc e he
    obtain ⟨env, henv, -, hse⟩ := h.entered e he
    obtain ⟨se, hse⟩ := Option.ne_none_iff_exists'.mp (hse hc)
    obtain ⟨sl, d, hsd⟩ := hs.sender.entered e se ((se_eq henv).trans hse)
    obtain ⟨hse, hmem, hcon, L, k, m, hL, hk, hm, hmk⟩ := hs.sender.filed se sl e d hsd
    refine ⟨sl, L, m, d, hL, hm, ?_, hmem, by simp [entryEnv, hcon, hsd], ?_⟩
    · rw [hmk]
      exact DllHeap.keyOf_eq hk rfl
    · intro sl' d' hmem' hd'
      obtain ⟨se', hse'⟩ := hentry hmem' hd'
      obtain ⟨hse'', -⟩ := hs.sender.filed se' sl' e d' hse'
      rw [hse] at hse''
      cases hse''
      rw [hsd] at hse'
      cases hse'
      exact ⟨rfl, rfl⟩
  · intro sl L hL
    obtain ⟨hmem, -, hlen, hne⟩ := hs.sender.list sl L hL
    exact ⟨hmem, hlen, hne (Option.some_ne_none sl).symm⟩
  · intro d hd
    obtain ⟨e, he⟩ := hs.message.full d hd
    exact ⟨e, h.only e (.inl (by rw [he]; simp)), live_of_mid he, (hs.message.filed e d he).2⟩
  · intro d hd
    obtain ⟨sl, L, hL, hdll⟩ := hs.sender.node d hd
    obtain ⟨-, ⟨k, hk⟩, -⟩ := hs.sender.list sl L hL
    exact ⟨sl, L, k, hL, hdll, hdll ▸ hk⟩
  · intro sl d hd
    obtain ⟨se, e, hse⟩ := hs.sender.full sl d hd
    obtain ⟨he, -, hc, L, -, -, hL, -⟩ := hs.sender.filed se sl e d hse
    exact ⟨e, h.only e (.inr (by rw [he]; simp)), live_of_se he, ⟨L, hL⟩, se, hse, hc⟩

/-- **The indexes of senders and messages.**  In every run in which no two live indexed envelopes have one
    id up to case, the indexes are right and no function uses freed memory. -/
theorem indexes_right {I : List Nat} (h : Reached strcaseEq conf s I) : (∃ cells, IndexRight conf s I cells) ∧
    ∀ e env, s.envs e = some env → s.envFree e ≠ none ∧ (DistinctIds strcaseEq s (e :: I) →
      (∀ mode lock a, s.envRead conf mode lock a e ≠ none) ∧
      ((conf.senderListEnable = true → env.eMail ≠ none) → ∀ renamed now, s.envEfile conf renamed now e ≠ none)) := by
  have hs := h.standing
  refine ⟨hs.right, fun e env he => ⟨?_, fun hids => ⟨fun mode lock a => ?_, fun hm renamed now => ?_⟩⟩⟩
  · obtain ⟨s', hfree, -⟩ := hs.free he
    rw [hfree]
    simp
  · exact hs.defined he (envRead_files he mode lock a) hids fun y hy _ => hy
  · exact hs.defined he (envEfile_files he renamed now) hids fun y hy hc => hy ▸ hm hc

/-! ### Two envelopes -/

def bothLists : Conf := { midListEnable := true, senderListEnable := true }

/-- Two envelopes of two senders. -/
def twoIds (a b : Text) : EnvIndex :=
  (empty.envCreate bothLists .fast a (some "s".toList) none).envCreate bothLists .fast b (some "t".toList) none

theorem distinctIds_one (same : Text → Text → Bool) (s : EnvIndex) : DistinctIds same s [e] := by
  intro a ha b hb x y _ _ _
  rw [List.mem_singleton.mp ha, List.mem_singleton.mp hb]

theorem distinctIds_two {same : Text → Text → Bool} {a b : Text} (ha : s.text (.shared 0) = some a)
    (hb : s.text (.shared 1) = some b) (hab : same a b = false) (hba : same b a = false) :
    DistinctIds same s [1, 0] := by
  have hid : ∀ {e : Nat} {x : IndexedEnvelope} {id : Text}, s.envs e = some x → s.text (.shared e) = some id →
      x.eId = id := by
    intro e x id hx hid
    rw [text_shared hx] at hid
    exact Option.some.inj hid
  intro c hc d hd x y hx hy hsame
  simp only [List.mem_cons, List.not_mem_nil, or_false] at hc hd
  obtain rfl | rfl := hc <;> obtain rfl | rfl := hd
  · rfl
  · rw [hid hx hb, hid hy ha, hba] at hsame
    cases hsame
  · rw [hid hx ha, hid hy hb, hab] at hsame
    cases hsame
  · rfl

/-- Both are filed, one after the other. -/
theorem twoIds_filed {same : Text → Text → Bool} {a b : Text} {t : EnvIndex}
    (h₁ : (twoIds a b).envEfile bothLists true (some 0) 0 = some (0, s))
    (h₂ : s.envEfile bothLists true (some 0) 1 = some (0, t)) (ha : s.text (.shared 0) = some a)
    (hb : s.text (.shared 1) = some b) (hab : same a b = false) (hba : same b a = false) :
    Reached same bothLists t [1, 0] := by
  have h₀ : Reached same bothLists (twoIds a b) [] := .create .fast b _ none (.create .fast a _ none .start)
  exact (h₀.efile (fun _ => distinctIds_one same _) h₁).efile (fun _ => distinctIds_two ha hb hab hba) h₂

/-- Two ids that differ: both envelopes are in the indexes. -/
theorem indexes_right_two : ∃ s t,
    (twoIds "A".toList "B".toList).envEfile bothLists true (some 0) 0 = some (0, s) ∧
    s.envEfile bothLists true (some 0) 1 = some (0, t) ∧ ∃ cells, IndexRight bothLists t [1, 0] cells := by
  obtain ⟨s, t, h₁, h₂, ha, hb⟩ : ∃ s t,
      (twoIds "A".toList "B".toList).envEfile bothLists true (some 0) 0 = some (0, s) ∧
      s.envEfile bothLists true (some 0) 1 = some (0, t) ∧ s.text (.shared 0) = some "A".toList ∧
      s.text (.shared 1) = some "B".toList := ⟨_, _, rfl, rfl, rfl, rfl⟩
  exact ⟨s, t, h₁, h₂, (indexes_right (twoIds_filed h₁ h₂ ha hb (by decide) (by decide))).1⟩

/-- **Ids that differ in case only**: the second envelope is not in the list of messages. -/
theorem not_indexes_right : ¬ ∀ (conf : Conf) (s : EnvIndex) (I : List Nat),
    Reached (fun a b => decide (a = b)) conf s I → ∃ cells, IndexRight conf s I cells := by
  intro hall
  obtain ⟨s, t, h₁, h₂, ha, hb, hhead, hnext, hcontent⟩ : ∃ s t,
      (twoIds "A".toList "a".toList).envEfile bothLists true (some 0) 0 = some (0, s) ∧
      s.envEfile bothLists true (some 0) 1 = some (0, t) ∧ s.text (.shared 0) = some "A".toList ∧
      s.text (.shared 1) = some "a".toList ∧ t.dll.head .message = some 0 ∧ t.dll.next 0 = none ∧
      t.dll.content 0 = some (.shared 0, some 0) := ⟨_, _, rfl, rfl, rfl, rfl, rfl, rfl, rfl⟩
  obtain ⟨cells, hr⟩ := hall _ _ _ (twoIds_filed h₁ h₂ ha hb (by decide) (by decide))
  obtain ⟨d, ⟨hd, hdata⟩, -⟩ := hr.message rfl 1 List.mem_cons_self
  have hl := hr.linked .message
  cases hc : cells .message with
  | nil =>
    rw [hc] at hd
    cases hd
  | cons c l =>
    rw [hc] at hl hd
    have hhead' := hl.head
    rw [hhead] at hhead'
    cases hhead'
    have hlast := @Linked.next_eq _ _ _ _ [] l 0 hl
    rw [hnext, eq_comm, List.head?_eq_none_iff] at hlast
    rw [hlast, List.mem_singleton] at hd
    rw [hd, hcontent] at hdata
    cases hdata

end EnvIndex

end Simta
