import Simta.ExpandMarks
import Simta.ExpandOut
import Simta.TerminalAddress

/-!
# How an expansion divides its recipients

When `expand` returns 0, its envelopes divide the addresses of the list that it writes.

* `Fits`, `Grouped` — where an address goes, and what `host_stab` is after some of them;
* `StabOk.insert`, `Grouped.write` — a new envelope, and a recipient more in one;
* `wlp_outAddresses` — the loop over the list;
* `wlp_expandOut` — the envelopes when nothing fails.
-/

set_option autoImplicit false

namespace Simta

variable {conf : ExpandConf} {unexpanded env : Envelope} {h : AddrHeap} {o o' : ExpandOut} {w : List Nat} {e i : Nat}

/-! ## The envelopes -/

/-- The recipients of the envelopes together. -/
def allRcpts (envs : List Envelope) : List Text := envs.flatMap fun env => env.eRcpt.map Recipient.rRcpt

/-- The envelope is one that `expand` puts the address in. -/
def Fits (a : ExpAddr) (env : Envelope) : Prop :=
  match a.eAddrType with
  | .email => (∃ user domain, strchrAt a.eAddr = some (user, domain) ∧ strcaseEq (eoHostname env) domain = true) ∧
      strcaseEq (eoFrom env) a.eAddrFrom = true
  | .dead => env.eDir = .dead
  | .ldap => False

/-- What an envelope has of the original one. -/
structure Carries (unexpanded env : Envelope) : Prop where
  inode : env.eDinode = unexpanded.eDinode
  attributes : env.eAttributes = unexpanded.eAttributes
  level : env.eNExpLevel = unexpanded.eNExpLevel + 1

/-- Two envelopes for hosts that have the same host and sender. -/
def SameOutput (env env' : Envelope) : Prop :=
  env.eDir = .fast ∧ env'.eDir = .fast ∧ strcaseEq (eoHostname env) (eoHostname env') = true ∧
    strcaseEq (eoFrom env) (eoFrom env') = true

/-- The envelopes of `host_stab`: each has its number, `env_dead` is the one for dead addresses, and no two of
    the others have the same host and sender. -/
structure StabOk (unexpanded : Envelope) (o : ExpandOut) : Prop where
  nodup : (o.hostStab.map Prod.fst).Nodup
  numbered : ∀ eo ∈ o.hostStab, eo.1 < o.hostStab.length
  dirs : ∀ eo ∈ o.hostStab, eo.2.eDir = .fast ∨ eo.2.eDir = .dead
  dead : ∀ eo ∈ o.hostStab, eo.2.eDir = .dead ↔ o.envDead = some eo.1
  found : ∀ i, o.envDead = some i → ∃ env, (i, env) ∈ o.hostStab
  apart : o.hostStab.Pairwise fun eo eo' => ¬ SameOutput eo.2 eo'.2
  carried : ∀ eo ∈ o.hostStab, Carries unexpanded eo.2

/-- `host_stab` when the addresses `w` were handed out. -/
structure Grouped (unexpanded : Envelope) (h : AddrHeap) (w : List Nat) (o : ExpandOut) : Prop
    extends StabOk unexpanded o where
  recipients : (allRcpts (o.hostStab.map Prod.snd)).Perm (w.map fun e => (h e).eAddr)
  placed : ∀ eo ∈ o.hostStab, ∀ r ∈ eo.2.eRcpt, ∃ e ∈ w, (h e).eAddr = r.rRcpt ∧ Fits (h e) eo.2

theorem Grouped.start (h : AddrHeap) (loopColor : Nat) :
    Grouped unexpanded h [] ⟨loopColor, [], none, 0, [], []⟩ where
  nodup := List.nodup_nil
  numbered _ heo := absurd heo List.not_mem_nil
  dirs _ heo := absurd heo List.not_mem_nil
  dead _ heo := absurd heo List.not_mem_nil
  found _ hi := by cases hi
  apart := .nil
  carried _ heo := absurd heo List.not_mem_nil
  recipients := .refl _
  placed _ heo := absurd heo List.not_mem_nil

/-- What does not touch the envelopes. -/
theorem Grouped.congr (hg : Grouped unexpanded h w o) (hstab : o'.hostStab = o.hostStab) (hdead : o'.envDead = o.envDead) :
    Grouped unexpanded h w o' where
  nodup := hstab ▸ hg.nodup
  numbered := hstab ▸ hg.numbered
  dirs := hstab ▸ hg.dirs
  dead := hstab ▸ hdead ▸ hg.dead
  found := hstab ▸ hdead ▸ hg.found
  apart := hstab ▸ hg.apart
  carried := hstab ▸ hg.carried
  recipients := hstab ▸ hg.recipients
  placed := hstab ▸ hg.placed

/-! ### A new envelope -/

theorem outputEnvelope_hostname (conf : ExpandConf) (unexpanded : Envelope) (id origin : Text) (domain : Option Text) :
    eoHostname (outputEnvelope conf unexpanded id domain origin) = domain.getD [] := by
  cases domain with
  | none => rfl
  | some domain =>
    cases domain with
    | nil => rfl
    | cons c rest => rfl

/-- The other fields of a new envelope. -/
theorem outputEnvelope_fields (conf : ExpandConf) (unexpanded : Envelope) (id origin : Text) (domain : Option Text) :
    eoFrom (outputEnvelope conf unexpanded id domain origin) = origin ∧
      (outputEnvelope conf unexpanded id domain origin).eRcpt = [] ∧
      (outputEnvelope conf unexpanded id domain origin).eDir = (if domain.isSome then .fast else .dead) ∧
      Carries unexpanded (outputEnvelope conf unexpanded id domain origin) := by
  cases domain with
  | none => exact ⟨rfl, rfl, rfl, rfl, rfl, rfl⟩
  | some domain =>
    cases domain with
    | nil => exact ⟨rfl, rfl, rfl, rfl, rfl, rfl⟩
    | cons c rest => exact ⟨rfl, rfl, rfl, rfl, rfl, rfl⟩

/-- The envelope that an address was looked up for. -/
def Keyed (domain : Option Text) (origin : Text) (env : Envelope) : Prop :=
  match domain with
  | some domain => strcaseEq (eoHostname env) domain = true ∧ strcaseEq (eoFrom env) origin = true
  | none => env.eDir = .dead

theorem outputFound_keyed (hg : Grouped unexpanded h w o) {domain : Option Text} {origin : Text}
    (hfound : outputFound o domain origin = some i) : ∃ env, (i, env) ∈ o.hostStab ∧ Keyed domain origin env := by
  cases domain with
  | none =>
    obtain ⟨env, henv⟩ := hg.found i hfound
    exact ⟨env, henv, (hg.dead _ henv).mpr hfound⟩
  | some domain =>
    obtain ⟨eo, heo, rfl⟩ := Option.map_eq_some_iff.mp hfound
    have hkey := List.find?_some heo
    rw [Bool.and_eq_true] at hkey
    exact ⟨eo.2, List.mem_of_find?_eq_some heo, hkey⟩

theorem outputFound_none {domain : Option Text} {origin : Text} (hfound : outputFound o domain origin = none) :
    (domain = none ∧ o.envDead = none) ∨ ∃ d, domain = some d ∧ ∀ eo ∈ o.hostStab,
      ¬ (strcaseEq (eoHostname eo.2) d = true ∧ strcaseEq (eoFrom eo.2) origin = true) := by
  cases domain with
  | none => exact .inl ⟨rfl, hfound⟩
  | some domain =>
    refine .inr ⟨domain, rfl, fun eo heo hkey => ?_⟩
    have hnone := List.find?_eq_none.mp (Option.map_eq_none_iff.mp hfound) eo heo
    rw [Bool.and_eq_true] at hnone
    exact hnone hkey

/-- **A new envelope** is apart from the others. -/
theorem StabOk.insert (hg : StabOk unexpanded o) {domain : Option Text} {origin id : Text}
    (hfound : outputFound o domain origin = none) :
    StabOk unexpanded (insertOutput o domain (outputEnvelope conf unexpanded id domain origin)) := by
  obtain ⟨hfrom, -, hdir, hcarries⟩ := outputEnvelope_fields conf unexpanded id origin domain
  have hhost := outputEnvelope_hostname conf unexpanded id origin domain
  generalize outputEnvelope conf unexpanded id domain origin = env at *
  have hnot : o.hostStab.length ∉ o.hostStab.map Prod.fst := by
    intro hmem
    obtain ⟨eo, heo, heq⟩ := List.mem_map.mp hmem
    exact Nat.ne_of_lt (hg.numbered eo heo) heq
  have hmem : ∀ eo, eo ∈ (insertOutput o domain env).hostStab → eo = (o.hostStab.length, env) ∨ eo ∈ o.hostStab :=
    fun eo heo => List.mem_cons.mp heo
  refine ⟨?_, ?_, ?_, ?_, ?_, ?_, ?_⟩
  · exact List.nodup_cons.mpr ⟨hnot, hg.nodup⟩
  · intro eo heo
    have hlength : (insertOutput o domain env).hostStab.length = o.hostStab.length + 1 := rfl
    rcases hmem eo heo with rfl | heo
    · omega
    · have := hg.numbered eo heo
      omega
  · intro eo heo
    rcases hmem eo heo with rfl | heo
    · rw [hdir]
      split
      · exact .inl rfl
      · exact .inr rfl
    · exact hg.dirs eo heo
  · intro eo heo
    rcases outputFound_none hfound with ⟨rfl, hnone⟩ | ⟨d, rfl, -⟩
    · have hdead : (insertOutput o none env).envDead = some o.hostStab.length := rfl
      rw [hdead]
      rcases hmem eo heo with rfl | heo
      · exact ⟨fun _ => rfl, fun _ => hdir⟩
      · refine ⟨fun hd => ?_, fun hi => ?_⟩
        · have := (hg.dead eo heo).mp hd
          rw [hnone] at this
          cases this
        · have hlt := hg.numbered eo heo
          have heq : o.hostStab.length = eo.1 := Option.some.inj hi
          omega
    · have hdead : (insertOutput o (some d) env).envDead = o.envDead := by simp [insertOutput]
      rw [hdead]
      rcases hmem eo heo with rfl | heo
      · refine ⟨fun hd => ?_, fun hi => ?_⟩
        · rw [hdir] at hd
          cases hd
        · obtain ⟨env', henv'⟩ := hg.found _ hi
          exact absurd (hg.numbered _ henv') (Nat.lt_irrefl _)
      · exact hg.dead eo heo
  · intro i hi
    cases domain with
    | none =>
      have heq : o.hostStab.length = i := Option.some.inj hi
      exact ⟨env, heq ▸ List.mem_cons_self⟩
    | some d =>
      have hdead : (insertOutput o (some d) env).envDead = o.envDead := by simp [insertOutput]
      rw [hdead] at hi
      obtain ⟨env', henv'⟩ := hg.found i hi
      exact ⟨env', List.mem_cons_of_mem _ henv'⟩
  · refine List.pairwise_cons.mpr ⟨fun eo heo hsame => ?_, hg.apart⟩
    obtain ⟨hfast, -, hhosts, hfroms⟩ := hsame
    rcases outputFound_none hfound with ⟨rfl, -⟩ | ⟨d, rfl, hnone⟩
    · rw [hdir] at hfast
      cases hfast
    · rw [hhost] at hhosts
      rw [hfrom] at hfroms
      exact hnone eo heo ⟨strcaseEq_comm .. ▸ hhosts, strcaseEq_comm .. ▸ hfroms⟩
  · intro eo heo
    rcases hmem eo heo with rfl | heo
    · exact hcarries
    · exact hg.carried eo heo

theorem Grouped.insert (hg : Grouped unexpanded h w o) {domain : Option Text} {origin id : Text}
    (hfound : outputFound o domain origin = none) :
    Grouped unexpanded h w (insertOutput o domain (outputEnvelope conf unexpanded id domain origin)) := by
  obtain ⟨-, hrcpt, -, -⟩ := outputEnvelope_fields conf unexpanded id origin domain
  refine ⟨hg.toStabOk.insert hfound, ?_, ?_⟩
  · show (allRcpts (_ :: o.hostStab.map Prod.snd)).Perm _
    rw [allRcpts, List.flatMap_cons, hrcpt]
    exact hg.recipients
  · intro eo heo r hr
    rcases List.mem_cons.mp heo with rfl | heo
    · rw [hrcpt] at hr
      cases hr
    · exact hg.placed eo heo r hr

/-! ### A new recipient -/

@[simp] theorem ExpandOut.write_fst (f : Envelope → Envelope) :
    (o.write i f).hostStab.map Prod.fst = o.hostStab.map Prod.fst := by
  unfold ExpandOut.write
  rw [List.map_map]
  refine List.map_congr_left fun eo _ => ?_
  show (if eo.1 = i then (eo.1, f eo.2) else eo).1 = eo.1
  split <;> rfl

@[simp] theorem ExpandOut.write_length (f : Envelope → Envelope) : (o.write i f).hostStab.length = o.hostStab.length :=
  List.length_map ..

/-- An envelope after a write is the one that was written, or another one. -/
theorem ExpandOut.mem_write {f : Envelope → Envelope} (hnodup : (o.hostStab.map Prod.fst).Nodup)
    (hmem : (i, env) ∈ o.hostStab) {eo : Nat × Envelope} (heo : eo ∈ (o.write i f).hostStab) :
    eo = (i, f env) ∨ (eo ∈ o.hostStab ∧ eo.1 ≠ i) := by
  obtain ⟨⟨j, env'⟩, hmem', rfl⟩ := List.mem_map.mp heo
  by_cases hj : j = i
  · subst hj
    have heq : (j, env') = (j, env) := List.inj_on_of_nodup_map hnodup hmem' hmem rfl
    cases heq
    exact .inl (if_pos rfl)
  · rw [if_neg hj]
    exact .inr ⟨hmem', hj⟩

/-- What an envelope is found by and what it carries. -/
def Envelope.head (env : Envelope) : Dir × Option Text × Option Text × Nat × Int × Int :=
  (env.eDir, env.eHostname, env.eMail, env.eDinode, env.eAttributes, env.eNExpLevel)

theorem SameOutput.congr {env₁ env₂ env₁' env₂' : Envelope} (h₁ : env₁'.head = env₁.head) (h₂ : env₂'.head = env₂.head)
    (hsame : SameOutput env₁' env₂') : SameOutput env₁ env₂ := by
  have hdir₁ : env₁'.eDir = env₁.eDir := congrArg (·.1) h₁
  have hhost₁ : env₁'.eHostname = env₁.eHostname := congrArg (·.2.1) h₁
  have hmail₁ : env₁'.eMail = env₁.eMail := congrArg (·.2.2.1) h₁
  have hdir₂ : env₂'.eDir = env₂.eDir := congrArg (·.1) h₂
  have hhost₂ : env₂'.eHostname = env₂.eHostname := congrArg (·.2.1) h₂
  have hmail₂ : env₂'.eMail = env₂.eMail := congrArg (·.2.2.1) h₂
  unfold SameOutput eoHostname eoFrom at *
  rwa [hdir₁, hhost₁, hmail₁, hdir₂, hhost₂, hmail₂] at hsame

theorem Carries.congr {env' : Envelope} (hc : Carries unexpanded env) (hhead : env'.head = env.head) :
    Carries unexpanded env' where
  inode := (congrArg (·.2.2.2.1) hhead : env'.eDinode = env.eDinode).trans hc.inode
  attributes := (congrArg (·.2.2.2.2.1) hhead : env'.eAttributes = env.eAttributes).trans hc.attributes
  level := (congrArg (·.2.2.2.2.2) hhead : env'.eNExpLevel = env.eNExpLevel).trans hc.level

theorem Fits.head {a : ExpAddr} {env' : Envelope} (hfits : Fits a env) (hhead : env'.head = env.head) : Fits a env' := by
  have hdir : env'.eDir = env.eDir := congrArg (·.1) hhead
  have hhost : env'.eHostname = env.eHostname := congrArg (·.2.1) hhead
  have hmail : env'.eMail = env.eMail := congrArg (·.2.2.1) hhead
  unfold Fits eoHostname eoFrom at *
  rwa [hdir, hhost, hmail]

/-- **A write** that leaves alone what an envelope is found by. -/
theorem StabOk.write (hs : StabOk unexpanded o) {f : Envelope → Envelope} (hmem : (i, env) ∈ o.hostStab)
    (hhead : (f env).head = env.head) : StabOk unexpanded (o.write i f) := by
  have hcases : ∀ {eo}, eo ∈ (o.write i f).hostStab → eo = (i, f env) ∨ (eo ∈ o.hostStab ∧ eo.1 ≠ i) :=
    fun heo => ExpandOut.mem_write hs.nodup hmem heo
  have hdir : (f env).eDir = env.eDir := congrArg (·.1) hhead
  refine ⟨?_, ?_, ?_, ?_, ?_, ?_, ?_⟩
  · rw [ExpandOut.write_fst]
    exact hs.nodup
  · intro eo heo
    rw [ExpandOut.write_length]
    rcases hcases heo with rfl | ⟨heo, -⟩
    · exact hs.numbered (i, env) hmem
    · exact hs.numbered eo heo
  · intro eo heo
    rcases hcases heo with rfl | ⟨heo, -⟩
    · rw [hdir]
      exact hs.dirs _ hmem
    · exact hs.dirs eo heo
  · intro eo heo
    rcases hcases heo with rfl | ⟨heo, -⟩
    · rw [hdir]
      exact hs.dead _ hmem
    · exact hs.dead eo heo
  · intro j hj
    obtain ⟨env', hmem'⟩ := hs.found j hj
    by_cases hji : j = i
    · exact ⟨f env', List.mem_map.mpr ⟨(j, env'), hmem', if_pos hji⟩⟩
    · exact ⟨env', List.mem_map.mpr ⟨(j, env'), hmem', if_neg hji⟩⟩
  · have hheads : ∀ eo ∈ o.hostStab, (if eo.1 = i then (eo.1, f eo.2) else eo).2.head = eo.2.head := by
      intro eo heo
      by_cases hi : eo.1 = i
      · have heq : eo = (i, env) := List.inj_on_of_nodup_map hs.nodup heo hmem hi
        subst heq
        rw [if_pos rfl]
        exact hhead
      · rw [if_neg hi]
    refine List.pairwise_map.mpr (hs.apart.imp_of_mem fun heo heo' hapart hsame => ?_)
    exact hapart (hsame.congr (hheads _ heo) (hheads _ heo'))
  · intro eo heo
    rcases hcases heo with rfl | ⟨heo, -⟩
    · exact (hs.carried _ hmem).congr hhead
    · exact hs.carried eo heo

/-- A recipient more in one envelope is one more in all of them. -/
theorem allRcpts_write {stab : List (Nat × Envelope)} {addr : Text} (hnodup : (stab.map Prod.fst).Nodup)
    (hmem : (i, env) ∈ stab) :
    (allRcpts ((stab.map fun eo => if eo.1 = i then (eo.1, envRecipient eo.2 addr) else eo).map Prod.snd)).Perm
      (addr :: allRcpts (stab.map Prod.snd)) := by
  unfold allRcpts
  induction stab with
  | nil => cases hmem
  | cons eo rest ih =>
    obtain ⟨hnot, hrest⟩ := List.nodup_cons.mp hnodup
    simp only [List.map_cons, List.flatMap_cons]
    rcases List.mem_cons.mp hmem with rfl | hmem
    · -- the others have other numbers
      have hsame : (rest.map fun eo => if eo.1 = i then (eo.1, envRecipient eo.2 addr) else eo) = rest := by
        refine (List.map_congr_left fun eo heo => ?_).trans (List.map_id rest)
        have hne : eo.1 ≠ i := fun heq => hnot (List.mem_map.mpr ⟨eo, heo, heq⟩)
        rw [if_neg hne]
        rfl
      rw [hsame, if_pos rfl]
      exact .refl _
    · have hne : eo.1 ≠ i := fun heq => hnot (List.mem_map.mpr ⟨(i, env), hmem, heq.symm⟩)
      rw [if_neg hne]
      exact ((ih hrest hmem).append_left _).trans List.perm_middle

/-- **A recipient** comes to the envelope that it was looked up for. -/
theorem Grouped.write (hg : Grouped unexpanded h w o) (hmem : (i, env) ∈ o.hostStab) (hfits : Fits (h e) env) :
    Grouped unexpanded h (w ++ [e]) (o.write i fun env => envRecipient env (h e).eAddr) := by
  refine ⟨hg.toStabOk.write hmem rfl, ?_, fun eo heo r hr => ?_⟩
  · rw [List.map_append, List.map_singleton]
    refine (allRcpts_write hg.nodup hmem).trans ?_
    exact (hg.recipients.cons _).trans (List.perm_append_singleton _ _).symm
  · rcases ExpandOut.mem_write hg.nodup hmem heo with rfl | ⟨heo, -⟩
    · rcases List.mem_cons.mp hr with rfl | hr
      · exact ⟨e, List.mem_append_right _ (List.mem_singleton_self e), rfl, hfits.head rfl⟩
      · obtain ⟨x, hx, haddr, hfitsx⟩ := hg.placed _ hmem r hr
        exact ⟨x, List.mem_append_left _ hx, haddr, hfitsx.head rfl⟩
    · obtain ⟨x, hx, haddr, hfitsx⟩ := hg.placed _ heo r hr
      exact ⟨x, List.mem_append_left _ hx, haddr, hfitsx⟩

/-- **An envelope that was written out** stands for the one before. -/
theorem Grouped.rewrite (hg : Grouped unexpanded h w o) {env' : Envelope} (hmem : (i, env) ∈ o.hostStab)
    (hr : Rewritten env env') : Grouped unexpanded h w (o.write i fun _ => env') := by
  have hhead : env'.head = env.head := by rw [hr]; rfl
  have hrcpt : env'.eRcpt = env.eRcpt := by rw [hr]
  refine ⟨hg.toStabOk.write hmem hhead, ?_, fun eo heo r hr => ?_⟩
  · have hsame : allRcpts ((o.write i fun _ => env').hostStab.map Prod.snd) = allRcpts (o.hostStab.map Prod.snd) := by
      unfold allRcpts ExpandOut.write
      rw [List.map_map, List.flatMap_map, List.flatMap_map]
      refine List.flatMap_congr fun eo heo => ?_
      by_cases hi : eo.1 = i
      · have heq : eo = (i, env) := List.inj_on_of_nodup_map hg.nodup heo hmem hi
        subst heq
        simp [hrcpt]
      · simp [hi]
    rw [hsame]
    exact hg.recipients
  · rcases ExpandOut.mem_write hg.nodup hmem heo with rfl | ⟨heo, -⟩
    · rw [hrcpt] at hr
      obtain ⟨x, hx, haddr, hfitsx⟩ := hg.placed _ hmem r hr
      exact ⟨x, hx, haddr, hfitsx.head hhead⟩
    · exact hg.placed eo heo r hr

/-! ## The loop over the list -/

section Loop

variable {σ : Type} {R : Prog.World ExpOp ExpAns σ} {exp : Expand} {s : σ} {debug : Bool}

/-- What a lookup leaves of the other variables. -/
def SameSupressed (o o' : ExpandOut) : Prop := o'.supressed = o.supressed ∧ o'.loopColor = o.loopColor

theorem wlp_newOutput (domain : Option Text) (origin : Text) :
    (newOutput conf unexpanded domain origin).wlp R True (fun r exp' _ => exp' = exp ∧
      ∀ env, r = some env → ∃ id, env = outputEnvelope conf unexpanded id domain origin) exp s := by
  apply wlp_ask_bind
  intro id t _
  cases id with
  | none => exact ⟨rfl, (fun env h => by cases h)⟩
  | some id =>
    dsimp only
    split
    · exact ⟨rfl, fun env h => ⟨id, (Option.some.inj h).symm⟩⟩
    · apply wlp_ask_bind
      intro b u _
      cases b
      · exact ⟨rfl, (fun env h => by cases h)⟩
      · exact ⟨rfl, fun env h => ⟨id, (Option.some.inj h).symm⟩⟩

theorem wlp_outputFor (hg : Grouped unexpanded h w o) (domain : Option Text) (origin : Text) :
    (outputFor conf unexpanded domain origin o).wlp R True (fun r exp' _ => exp' = exp ∧
      ∀ x, r = some x → Grouped unexpanded h w x.2 ∧ SameSupressed o x.2 ∧
        ∃ env, (x.1, env) ∈ x.2.hostStab ∧ Keyed domain origin env) exp s := by
  unfold outputFor
  split
  · rename_i i hfound
    refine ⟨rfl, fun x hx => ?_⟩
    cases hx
    exact ⟨hg, ⟨rfl, rfl⟩, outputFound_keyed hg hfound⟩
  · rename_i hfound
    refine Faulty.wlp_seq (wlp_newOutput domain origin) ?_
    rintro env exp' t ⟨rfl, henv⟩
    cases env with
    | none => exact ⟨rfl, (fun x h => by cases h)⟩
    | some env =>
      obtain ⟨id, rfl⟩ := henv env rfl
      apply wlp_ask_bind
      intro b u _
      cases b
      · exact ⟨rfl, (fun x h => by cases h)⟩
      · refine ⟨rfl, fun x hx => ?_⟩
        cases hx
        refine ⟨hg.insert hfound, ⟨rfl, rfl⟩, _, List.mem_cons_self, ?_⟩
        obtain ⟨hfrom, -, hdir, -⟩ := outputEnvelope_fields conf unexpanded id origin domain
        have hhost := outputEnvelope_hostname conf unexpanded id origin domain
        cases domain with
        | none => exact hdir
        | some domain =>
          refine ⟨?_, ?_⟩
          · rw [hhost]
            exact strcaseEq_refl domain
          · rw [hfrom]
            exact strcaseEq_refl origin

/-- What an address of the list has to do with the envelopes. -/
def ExpAddr.written (a : ExpAddr) : Text × AddressType × Text := (a.eAddr, a.eAddrType, a.eAddrFrom)

theorem Fits.congr {a a' : ExpAddr} (hfits : Fits a env) (hsame : a'.written = a.written) : Fits a' env := by
  have haddr : a'.eAddr = a.eAddr := congrArg (·.1) hsame
  have htype : a'.eAddrType = a.eAddrType := congrArg (·.2.1) hsame
  have hfrom : a'.eAddrFrom = a.eAddrFrom := congrArg (·.2.2) hsame
  unfold Fits at *
  rwa [haddr, htype, hfrom]

theorem wlp_outRecipient (hg : Grouped unexpanded h w o) {domain : Option Text} {a : ExpAddr}
    (hsame : a.written = (h e).written)
    (hfits : ∀ env, Keyed domain a.eAddrFrom env → Fits a env) :
    (outRecipient conf unexpanded domain a o).wlp R True (fun r exp' _ => exp' = exp ∧
      (r.1 = true → Grouped unexpanded h (w ++ [e]) r.2 ∧ SameSupressed o r.2)) exp s := by
  refine Faulty.wlp_seq (wlp_outputFor hg domain a.eAddrFrom) ?_
  rintro r exp' t ⟨rfl, hr⟩
  cases r with
  | none => exact ⟨rfl, (fun h => by cases h)⟩
  | some x =>
    obtain ⟨hg', hkept, env, hmem, hkeyed⟩ := hr x rfl
    apply wlp_ask_bind
    intro b u _
    cases b
    · exact ⟨rfl, (fun h => by cases h)⟩
    · refine ⟨rfl, fun _ => ⟨?_, hkept⟩⟩
      have haddr : a.eAddr = (h e).eAddr := congrArg (·.1) hsame
      rw [haddr]
      exact hg'.write hmem ((hfits env hkeyed).congr hsame.symm)

/-- **A terminal address** becomes a recipient of an envelope that it fits. -/
theorem wlp_outTerminal (hg : Grouped unexpanded h w o) {a : ExpAddr} (hsame : a.written = (h e).written) :
    (outTerminal conf unexpanded a o).wlp R True (fun r exp' _ => exp' = exp ∧
      (r.1 = true → Grouped unexpanded h (w ++ [e]) r.2 ∧ SameSupressed o r.2)) exp s := by
  unfold outTerminal
  split
  · rename_i htype
    split
    · exact ⟨rfl, (fun h => by cases h)⟩
    · rename_i user domain hat
      refine wlp_outRecipient hg hsame fun env hkeyed => ?_
      unfold Fits
      rw [htype]
      exact ⟨⟨user, domain, hat, hkeyed.1⟩, hkeyed.2⟩
  · rename_i htype
    refine wlp_outRecipient hg hsame fun env hkeyed => ?_
    unfold Fits
    rw [htype]
    exact hkeyed
  · exact trivial

/-- What the other branches leave of the expansion. -/
def SameAddrs (exp exp' : Expand) : Prop :=
  exp'.addrs = exp.addrs ∧ exp'.fresh = exp.fresh ∧ exp'.expAddrHead = exp.expAddrHead

theorem SameAddrs.refl (exp : Expand) : SameAddrs exp exp := ⟨rfl, rfl, rfl⟩

theorem SameAddrs.trans {exp' exp'' : Expand} (h₁ : SameAddrs exp exp') (h₂ : SameAddrs exp' exp'') :
    SameAddrs exp exp'' :=
  ⟨h₂.1.trans h₁.1, h₂.2.1.trans h₁.2.1, h₂.2.2.trans h₁.2.2⟩

theorem wlp_bounceTextAt (errors : Nat) (isError : Bool) (text : Text) :
    (bounceTextAt errors isError text).wlp R True (fun _ exp' _ => SameAddrs exp exp') exp s := by
  have hrest : ∀ (f : List ErrorEnv → List ErrorEnv) (exp : Expand), (do
      if ← ExpProg.ask .alloc then
        modify fun exp => { exp with expErrors := f exp.expErrors }
        return true
      else return false : ExpProg Bool).wlp R True (fun _ exp' _ => SameAddrs exp exp') exp s := by
    intro f exp
    apply wlp_ask_bind
    intro b t _
    cases b
    · exact .refl exp
    · exact ⟨rfl, rfl, rfl⟩
  unfold bounceTextAt
  split
  · apply wlp_modify_bind
    exact hrest _ _
  · exact hrest _ exp

theorem wlp_errorTexts (errors : Nat) (texts : List Text) :
    (errorTexts errors texts).wlp R True (fun _ exp' _ => SameAddrs exp exp') exp s := by
  induction texts generalizing exp s with
  | nil => exact .refl exp
  | cons text rest ih =>
    refine Faulty.wlp_seq (wlp_bounceTextAt errors true text) ?_
    intro b exp' t hsame
    cases b
    · exact hsame
    · exact Faulty.wlp_mono (fun _ _ _ h => hsame.trans h) ih

theorem wlp_outSupressor (a : ExpAddr) (parents : List (Option Nat)) :
    (outSupressor a parents).wlp R True (fun _ exp' _ => SameAddrs exp exp') exp s := by
  induction parents generalizing exp s with
  | nil => exact .refl exp
  | cons p rest ih =>
    have hnext : ∀ (b : Bool) exp' t, SameAddrs exp exp' →
        (if b then outSupressor a rest else pure false : ExpProg Bool).wlp R True
          (fun _ exp'' _ => SameAddrs exp exp'') exp' t := by
      intro b exp' t hsame
      cases b
      · exact hsame
      · exact Faulty.wlp_mono (fun _ _ _ h => hsame.trans h) ih
    cases p with
    | none => exact Faulty.wlp_seq (wlp_errorTexts 0 (memonlyTexts a)) hnext
    | some p =>
      unfold outSupressor
      split
      · exact ih
      · apply wlp_addr_bind
        exact Faulty.wlp_seq (wlp_errorTexts _ (memonlyTexts a)) hnext

theorem wlp_files {α : Type} {p : SpoolProg α} {Q : α → Prop} (hp : p.wlp Prog.anyAnswer (fun a _ => Q a) ()) :
    (ExpProg.files p).wlp R True (fun a exp' _ => exp' = exp ∧ Q a) exp s := by
  unfold ExpProg.files
  rw [Faulty.wlp_lift]
  exact Prog.wlp_mono (fun a _ ha => ⟨rfl, ha⟩) (Prog.wlp_lift_anyAnswer hp)

/-- **What goes to the disk** changes in its flags and its time only. -/
theorem wlp_writeOutput (dOriginal : Path) (env : Envelope) :
    (writeOutput conf dOriginal env).wlp R True (fun r exp' _ => exp' = exp ∧ Rewritten env r.2) exp s := by
  have hall : ∀ {α : Type} (p : SpoolProg α), p.wlp Prog.anyAnswer (fun _ _ => True) () :=
    fun p => Prog.wlp_of_forall fun _ _ => trivial
  refine Faulty.wlp_seq (wlp_files (hall _)) ?_
  rintro b exp' t ⟨rfl, -⟩
  cases b
  · exact ⟨rfl, .refl env⟩
  · refine Faulty.wlp_seq (wlp_files envOutfile_rewritten) ?_
    rintro r exp' t ⟨rfl, hr⟩
    split
    · exact trivial
    · rename_i x
      apply wlp_ask_bind
      intro b u _
      exact ⟨rfl, hr _ rfl⟩
    · rename_i x _
      refine Faulty.wlp_seq (wlp_files (hall _)) ?_
      rintro b exp' t ⟨rfl, -⟩
      exact ⟨rfl, hr _ rfl⟩

/-- The address goes to an envelope, if it is not withheld: it is terminal and has none of its own. -/
def ExpAddr.goesOut (a : ExpAddr) : Bool :=
  a.eAddrTerminal && decide (a.eAddrEnvGmailfwd = none) && decide (a.eAddrEnvModerated = none)

theorem ownEnvelope_eq_none {a : ExpAddr} :
    ownEnvelope unexpanded a = none ↔ a.eAddrEnvGmailfwd = none ∧ a.eAddrEnvModerated = none := by
  unfold ownEnvelope
  cases a.eAddrEnvGmailfwd with
  | some env => simp
  | none => simp

/-- What is read of an address stays when it is marked. -/
theorem unmarked_fields {a a' : ExpAddr} (hsame : a'.unmarked = a.unmarked) :
    a'.written = a.written ∧ a'.goesOut = a.goesOut ∧ a'.eAddrTerminal = a.eAddrTerminal ∧
      a'.eAddrLdapFlags.ldapSupressor = a.eAddrLdapFlags.ldapSupressor := by
  have hterminal : a'.eAddrTerminal = a.eAddrTerminal :=
    (congrArg ExpAddr.eAddrTerminal hsame :)
  have hgmail : a'.eAddrEnvGmailfwd = a.eAddrEnvGmailfwd :=
    (congrArg ExpAddr.eAddrEnvGmailfwd hsame :)
  have hmoderated : a'.eAddrEnvModerated = a.eAddrEnvModerated :=
    (congrArg ExpAddr.eAddrEnvModerated hsame :)
  refine ⟨(congrArg ExpAddr.written hsame :), ?_, hterminal, (congrArg (fun x => x.eAddrLdapFlags.ldapSupressor) hsame :)⟩
  unfold ExpAddr.goesOut
  rw [hterminal, hgmail, hmoderated]

theorem wlp_outOwn (hg : Grouped unexpanded h w o) (env : Envelope) :
    (outOwn conf debug unexpanded e env o).wlp R True (fun r exp' _ => exp' = exp ∧
      Grouped unexpanded h w r.2 ∧ SameSupressed o r.2) exp s := by
  unfold outOwn
  split
  · exact ⟨rfl, hg, rfl, rfl⟩
  · refine Faulty.wlp_seq (wlp_writeOutput unexpanded.dfile env) ?_
    rintro ⟨b, env'⟩ exp' t ⟨rfl, -⟩
    cases b
    · exact ⟨rfl, hg.congr rfl rfl, rfl, rfl⟩
    · exact ⟨rfl, hg.congr rfl rfl, rfl, rfl⟩

/-- **An address that is not withheld** goes to an envelope, or it is nothing for one. -/
theorem wlp_outOpen (hg : Grouped unexpanded h w o) (hmarks : (exp.addrs e).unmarked = (h e).unmarked)
    (hsupressor : (h e).eAddrLdapFlags.ldapSupressor = true → (h e).eAddrTerminal = false) :
    (outOpen conf debug unexpanded e o).wlp R True (fun r exp' _ => SameAddrs exp exp' ∧
      (r.1 = true → Grouped unexpanded h (if (h e).goesOut then w ++ [e] else w) r.2 ∧ SameSupressed o r.2)) exp s := by
  obtain ⟨hwritten, hgoes, hterminal, hflag⟩ := unmarked_fields hmarks
  apply wlp_addr_bind
  split
  · rename_i env hown
    have hno : (h e).goesOut = false := by
      rw [← hgoes, Bool.eq_false_iff]
      intro htrue
      simp only [ExpAddr.goesOut, Bool.and_eq_true, decide_eq_true_eq] at htrue
      rw [ownEnvelope_eq_none.mpr ⟨htrue.1.2, htrue.2⟩] at hown
      cases hown
    rw [hno]
    refine Faulty.wlp_mono ?_ (wlp_outOwn hg env)
    rintro r exp' t ⟨rfl, hrest⟩
    exact ⟨.refl exp', fun _ => hrest⟩
  · rename_i hown
    obtain ⟨hgmail, hmoderated⟩ := ownEnvelope_eq_none.mp hown
    have hopen : (h e).goesOut = (exp.addrs e).eAddrTerminal := by
      rw [← hgoes, ExpAddr.goesOut, hgmail, hmoderated]
      simp
    split
    · rename_i hsup
      rw [hflag] at hsup
      rw [hopen, hterminal, hsupressor hsup]
      refine Faulty.wlp_seq (wlp_outSupressor _ _) ?_
      intro b exp' t hsame
      exact ⟨hsame, fun _ => ⟨hg, rfl, rfl⟩⟩
    · split
      · rename_i hterm
        rw [hopen, hterm]
        refine Faulty.wlp_mono ?_ (wlp_outTerminal hg hwritten)
        rintro r exp' t ⟨rfl, hrest⟩
        exact ⟨.refl exp', hrest⟩
      · rename_i hterm
        rw [hopen, Bool.eq_false_iff.mpr hterm]
        exact ⟨.refl exp, fun _ => ⟨hg, rfl, rfl⟩⟩

/-- The list with its addresses as they were, but for marks. -/
def SameList (exp exp' : Expand) : Prop :=
  SameMarked exp.addrs exp'.addrs ∧ exp'.fresh = exp.fresh ∧ exp'.expAddrHead = exp.expAddrHead

theorem SameList.trans {exp' exp'' : Expand} (h₁ : SameList exp exp') (h₂ : SameList exp' exp'') : SameList exp exp'' :=
  ⟨h₁.1.trans h₂.1, h₂.2.1.trans h₁.2.1, h₂.2.2.trans h₁.2.2⟩

/-- An address of the list: it is withheld, or it goes on. -/
theorem wlp_outAddress (hg : Grouped unexpanded h w o) (hmarks : SameMarked h exp.addrs)
    (hsupressor : (h e).eAddrLdapFlags.ldapSupressor = true → (h e).eAddrTerminal = false) :
    (outAddress conf debug unexpanded e o).wlp R True (fun r exp' _ => SameList exp exp' ∧ (r.1 = true →
      (Grouped unexpanded h w r.2 ∧ r.2.supressed = o.supressed ++ [e]) ∨
      (Grouped unexpanded h (if (h e).goesOut then w ++ [e] else w) r.2 ∧ r.2.supressed = o.supressed))) exp s := by
  apply wlp_get_bind
  split
  · exact trivial
  · rename_i held painted hheld
    have hpaint : SameMarked exp.addrs painted.heap := withheld_sameMarked hheld
    apply wlp_set_bind
    split
    · exact ⟨⟨hpaint, rfl, rfl⟩, fun _ => .inl ⟨hg.congr rfl rfl, rfl⟩⟩
    · have hg' : Grouped unexpanded h w { o with loopColor := painted.loopColor } := hg.congr rfl rfl
      refine Faulty.wlp_mono ?_ (wlp_outOpen hg' ((hmarks.trans hpaint) e) hsupressor)
      rintro r exp' t ⟨⟨haddrs, hfresh, hhead⟩, hrest⟩
      refine ⟨⟨?_, hfresh, hhead⟩, fun hr => .inr ⟨(hrest hr).1, (hrest hr).2.1⟩⟩
      rw [haddrs]
      exact hpaint

/-- **The loop over the list**: what goes out and was not withheld is in the envelopes. -/
theorem wlp_outAddresses (l : List Nat) (hnodup : l.Nodup) (hg : Grouped unexpanded h w o)
    (hmarks : SameMarked h exp.addrs)
    (hsupressor : ∀ e ∈ l, (h e).eAddrLdapFlags.ldapSupressor = true → (h e).eAddrTerminal = false) :
    (outAddresses conf debug unexpanded l o).wlp R True (fun r exp' _ => SameList exp exp' ∧ (r.1 = true →
      ∃ held, r.2.supressed = o.supressed ++ held ∧ (∀ e ∈ held, e ∈ l) ∧
        Grouped unexpanded h (w ++ l.filter fun e => (h e).goesOut && decide (e ∉ held)) r.2)) exp s := by
  induction l generalizing exp s w o with
  | nil =>
    refine ⟨⟨.refl _, rfl, rfl⟩, fun _ => ⟨[], (List.append_nil _).symm, (fun e he => by cases he), ?_⟩⟩
    rw [List.filter_nil, List.append_nil]
    exact hg
  | cons e rest ih =>
    obtain ⟨hnot, hrest⟩ := List.nodup_cons.mp hnodup
    refine Faulty.wlp_seq (wlp_outAddress hg hmarks (hsupressor e List.mem_cons_self)) ?_
    rintro ⟨b, o₁⟩ exp₁ t ⟨hsame, hstep⟩
    cases b
    · exact ⟨hsame, (fun h => by cases h)⟩
    · have hsup : ∀ x ∈ rest, (h x).eAddrLdapFlags.ldapSupressor = true → (h x).eAddrTerminal = false :=
        fun x hx => hsupressor x (List.mem_cons_of_mem e hx)
      rcases hstep rfl with ⟨hg₁, hheld⟩ | ⟨hg₁, hheld⟩
      · refine Faulty.wlp_mono ?_ (ih hrest hg₁ (hmarks.trans hsame.1) hsup)
        rintro r exp₂ t₂ ⟨hsame₂, hloop⟩
        refine ⟨hsame.trans hsame₂, fun hr => ?_⟩
        obtain ⟨held, hsupressed, hmem, hg₂⟩ := hloop hr
        refine ⟨e :: held, ?_, ?_, ?_⟩
        · rw [hsupressed, hheld, List.append_assoc]
          rfl
        · exact fun x hx => (List.mem_cons.mp hx).elim (fun heq => heq ▸ List.mem_cons_self)
            fun hx => List.mem_cons_of_mem e (hmem x hx)
        · -- the address itself is held, the others are not it
          rw [List.filter_cons_of_neg (by simp)]
          have hfilter : (rest.filter fun x => (h x).goesOut && decide (x ∉ e :: held)) =
              rest.filter fun x => (h x).goesOut && decide (x ∉ held) := by
            refine List.filter_congr fun x hx => ?_
            have hne : x ≠ e := fun heq => hnot (heq ▸ hx)
            simp [hne]
          rw [hfilter]
          exact hg₂
      · refine Faulty.wlp_mono ?_ (ih hrest hg₁ (hmarks.trans hsame.1) hsup)
        rintro r exp₂ t₂ ⟨hsame₂, hloop⟩
        refine ⟨hsame.trans hsame₂, fun hr => ?_⟩
        obtain ⟨held, hsupressed, hmem, hg₂⟩ := hloop hr
        refine ⟨held, ?_, fun x hx => List.mem_cons_of_mem e (hmem x hx), ?_⟩
        · rw [hsupressed, hheld]
        · have hne : e ∉ held := fun he => hnot (hmem e he)
          by_cases hgoes : (h e).goesOut = true
          · rw [if_pos hgoes, List.append_assoc] at hg₂
            rw [List.filter_cons_of_pos (by simp [hgoes, hne])]
            exact hg₂
          · rw [if_neg hgoes] at hg₂
            rw [List.filter_cons_of_neg (by simp [hgoes])]
            exact hg₂

/-! ## The end -/

/-- The envelopes on the disk are those of `host_stab`. -/
theorem wlp_writeStab (l : List (Nat × Envelope)) (hl : (l.map Prod.fst).Nodup) (hsub : ∀ eo ∈ l, eo ∈ o.hostStab)
    (hg : Grouped unexpanded h w o) :
    (writeStab conf debug unexpanded l o).wlp R True (fun r exp' _ => exp' = exp ∧
      Grouped unexpanded h w r.2 ∧ r.2.supressed = o.supressed) exp s := by
  induction l generalizing o exp s with
  | nil => exact ⟨rfl, hg, rfl⟩
  | cons eo rest ih =>
    obtain ⟨i, env⟩ := eo
    obtain ⟨hnot, hrest⟩ := List.nodup_cons.mp hl
    have hmem : (i, env) ∈ o.hostStab := hsub _ List.mem_cons_self
    unfold writeStab
    split
    · exact ih hrest (fun eo heo => hsub eo (List.mem_cons_of_mem _ heo)) hg
    · refine Faulty.wlp_seq (wlp_writeOutput unexpanded.dfile env) ?_
      rintro ⟨b, env'⟩ exp' t ⟨rfl, hr⟩
      have hg' := hg.rewrite hmem hr
      cases b
      · exact ⟨rfl, hg', rfl⟩
      · refine ih hrest ?_ (hg'.congr rfl rfl)
        intro eo heo
        have hne : eo.1 ≠ i := fun heq => hnot (List.mem_map.mpr ⟨eo, heo, heq⟩)
        exact List.mem_map.mpr ⟨eo, hsub eo (List.mem_cons_of_mem _ heo), if_neg hne⟩

theorem wlp_any {α β : Type} {m : ExpProg α} {g : α → ExpProg β} {Q : β → Expand → σ → Prop}
    (hg : ∀ a exp' s', (g a).wlp R True Q exp' s') : (m >>= g).wlp R True Q exp s :=
  Faulty.wlp_seq (Faulty.wlp_of_forall trivial fun _ _ _ => trivial) fun a exp' s' _ => hg a exp' s'

/-- The cleanup ends with a failure. -/
theorem wlp_cleanup3 : (cleanup3 o).wlp R True (fun r _ _ => r.returnValue = 1) exp s :=
  wlp_any fun _ _ _ => wlp_any fun _ _ _ => rfl

theorem wlp_cleanup4 : (cleanup4 o).wlp R True (fun r _ _ => r.returnValue = 1) exp s :=
  wlp_any fun _ _ _ => wlp_cleanup3

theorem wlp_cleanup5 (kept : List Envelope) : (cleanup5 kept o).wlp R True (fun r _ _ => r.returnValue = 1) exp s :=
  wlp_any fun _ _ _ => wlp_any fun _ _ _ => wlp_any fun _ _ _ => wlp_cleanup4

/-- What a success says of the end of a run that began in `exp`. -/
def EndsWith (exp : Expand) (o : ExpandOut) (r : ExpandEnd) (exp' : Expand) : Prop :=
  r.returnValue = 0 → exp' = exp ∧ r.hostStab = o.hostStab.map Prod.snd ∧ r.supressed = o.supressed

theorem endsWith_failure {o₀ : ExpandOut} {m : ExpProg ExpandEnd}
    (hm : m.wlp R True (fun r _ _ => r.returnValue = 1) exp s) {exp₀ : Expand} :
    m.wlp R True (fun r exp' _ => EndsWith exp₀ o₀ r exp') exp s := by
  refine Faulty.wlp_mono ?_ hm
  intro r exp' t hr hzero
  rw [hr] at hzero
  cases hzero

theorem wlp_writeErrors (daytime : Text → Text) (errors : List ErrorEnv) (snet : Option (List Text)) :
    (writeErrors conf debug daytime unexpanded errors snet).wlp R True (fun _ exp' _ => exp' = exp) exp s := by
  have hall : ∀ {α : Type} (p : SpoolProg α), p.wlp Prog.anyAnswer (fun _ _ => True) () :=
    fun p => Prog.wlp_of_forall fun _ _ => trivial
  have hopen : ∀ (snet : Option (List Text)) s,
      (openMessage unexpanded snet).wlp R True (fun _ exp' _ => exp' = exp) exp s := by
    intro snet s
    cases snet with
    | none => exact Faulty.wlp_mono (fun _ _ _ h => h.1) (wlp_files (hall _))
    | some lines =>
      apply wlp_ask_bind
      intro b t _
      cases b
      · exact trivial
      · exact rfl
  have hwrite : ∀ env message s, (writeError conf daytime env message).wlp R True (fun _ exp' _ => exp' = exp) exp s := by
    intro env message s
    refine Faulty.wlp_seq (wlp_files (hall _)) ?_
    rintro r exp' t ⟨rfl, -⟩
    split
    · exact trivial
    · apply wlp_ask_bind
      intro b u _
      exact rfl
    · refine Faulty.wlp_seq (wlp_files (hall _)) ?_
      rintro r exp' t ⟨rfl, -⟩
      split
      · exact trivial
      · apply wlp_ask_bind
        intro b u _
        exact rfl
      · refine Faulty.wlp_seq (wlp_files (hall _)) ?_
        rintro r exp' t ⟨rfl, -⟩
        exact rfl
  induction errors generalizing snet s with
  | nil => exact rfl
  | cons b rest ih =>
    unfold writeErrors
    split
    · exact ih snet
    · refine Faulty.wlp_seq (hopen snet s) ?_
      rintro message exp' t rfl
      cases message with
      | none => exact rfl
      | some message =>
        refine Faulty.wlp_seq (hwrite _ _ _) ?_
        rintro ⟨b, env⟩ exp' t rfl
        cases b
        · exact rfl
        · refine Faulty.wlp_seq (ih (some message)) ?_
          rintro r exp' t rfl
          exact rfl

theorem wlp_expandRemove (kept : List Envelope) :
    (expandRemove unexpanded kept o).wlp R True (fun r exp' _ => EndsWith exp o r exp') exp s := by
  have hall : ∀ {α : Type} (p : SpoolProg α), p.wlp Prog.anyAnswer (fun _ _ => True) () :=
    fun p => Prog.wlp_of_forall fun _ _ => trivial
  refine Faulty.wlp_seq (wlp_files (hall _)) ?_
  rintro b exp' t ⟨rfl, -⟩
  cases b
  · exact endsWith_failure (wlp_cleanup5 kept)
  · have htruncate : (if unexpanded.eDir = .fast then pure true else ExpProg.files (Sys.ftruncate unexpanded.efile) :
        ExpProg Bool).wlp R True (fun _ exp'' _ => exp'' = exp') exp' t := by
      split
      · exact rfl
      · exact Faulty.wlp_mono (fun _ _ _ h => h.1) (wlp_files (hall _))
    refine Faulty.wlp_seq htruncate ?_
    rintro b exp'' u rfl
    cases b
    · exact endsWith_failure (wlp_cleanup5 kept)
    · refine Faulty.wlp_seq (wlp_files (hall _)) ?_
      rintro r exp' t ⟨rfl, -⟩
      exact fun _ => ⟨rfl, rfl, rfl⟩

theorem wlp_expandErrors (daytime : Text → Text) :
    (expandErrors conf debug daytime unexpanded o).wlp R True (fun r exp' _ => EndsWith exp o r exp') exp s := by
  apply wlp_get_bind
  refine Faulty.wlp_seq (wlp_writeErrors daytime _ none) ?_
  rintro ⟨b, kept, snet⟩ exp' t rfl
  cases b
  · exact endsWith_failure (wlp_cleanup5 kept)
  · have hclosed : (if snet = none then pure true else ExpProg.ask .snetClose : ExpProg Bool).wlp R True
        (fun _ exp'' _ => exp'' = exp') exp' t := by
      split
      · exact rfl
      · exact fun _ _ _ => rfl
    refine Faulty.wlp_seq hclosed ?_
    rintro b exp'' u rfl
    cases b
    · exact trivial
    · rw [if_pos rfl]
      split
      · exact fun _ => ⟨rfl, rfl, rfl⟩
      · exact wlp_expandRemove kept

/-- What the addresses of the list that go out have become when there is no failure. -/
theorem wlp_expandOut (daytime : Text → Text) (loopColor : Nat) (hnodup : exp.list.Nodup)
    (hsupressor : ∀ e ∈ exp.list, (exp.addrs e).eAddrLdapFlags.ldapSupressor = true →
      (exp.addrs e).eAddrTerminal = false) :
    (expandOut conf debug daytime unexpanded loopColor).wlp R True (fun r exp' _ => r.returnValue = 0 →
      SameList exp exp' ∧ ∃ o, Grouped unexpanded exp.addrs
        (exp.list.filter fun e => (exp.addrs e).goesOut && decide (e ∉ o.supressed)) o ∧
        r.hostStab = o.hostStab.map Prod.snd ∧ r.supressed = o.supressed) exp s := by
  apply wlp_get_bind
  refine Faulty.wlp_seq (wlp_outAddresses exp.list hnodup (.start exp.addrs loopColor) (.refl _) hsupressor) ?_
  rintro ⟨b, o⟩ exp₁ t ⟨hsame, hloop⟩
  cases b
  · refine Faulty.wlp_mono ?_ wlp_cleanup3
    intro r exp' t' hr hzero
    rw [hr] at hzero
    cases hzero
  · obtain ⟨held, hheld, -, hg⟩ := hloop rfl
    rw [List.nil_append] at hheld hg
    rw [← hheld] at hg
    refine Faulty.wlp_seq (wlp_writeStab o.hostStab hg.nodup (fun _ h => h) hg) ?_
    rintro ⟨b, o'⟩ exp₂ t₂ ⟨rfl, hg', hsupressed⟩
    cases b
    · refine Faulty.wlp_mono ?_ wlp_cleanup4
      intro r exp' t' hr hzero
      rw [hr] at hzero
      cases hzero
    · refine Faulty.wlp_mono ?_ (wlp_expandErrors daytime)
      intro r exp' t' hends hzero
      obtain ⟨rfl, hstab, hsup⟩ := hends hzero
      refine ⟨hsame, o', ?_, hstab, hsup⟩
      dsimp only at hsupressed hg' ⊢
      rw [hsupressed]
      exact hg'

end Loop

end Simta
