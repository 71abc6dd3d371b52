import Simta.Envelope

/-!
# The host table

`red.c`: the hosts this server knows, each with the rules by which it receives and expands
addresses.  The table is a list in descending order of names; `redLookupHost` stops early on
that order, `redAddHost` keeps it.

* `redAddHost`, `redAddAction`, `redActionDefault` — adding a host and its default rules, with
  every outcome of the allocations.
-/

set_option autoImplicit false

namespace Simta

/-- `strcasecmp(3)`. -/
def strcasecmp (a b : Text) : Ordering := strcmp (a.map Char.toLower) (b.map Char.toLower)

theorem strcasecmp_eq_iff {a b : Text} : strcasecmp a b = .eq ↔ strcaseEq a b = true := by
  unfold strcasecmp strcmp strcaseEq
  rw [decide_eq_true_iff]
  split
  · rename_i h
    exact iff_of_true rfl h
  · rename_i h
    refine iff_of_false ?_ h
    split <;> simp

theorem toLower_dot (c : Char) : c.toLower = '.' ↔ c = '.' := toLower_eq_iff (by decide)

/-- `EXPANSION_TYPE_PASSWORD`, `EXPANSION_TYPE_ALIAS`, `EXPANSION_TYPE_LDAP`. -/
inductive ExpansionType
  | password
  | alias
  | ldap
  deriving DecidableEq, Repr

/-- `struct action`; `aSufficient` is `ACTION_SUFFICIENT`, otherwise `ACTION_REQUIRED`. -/
structure Action where
  aAction : ExpansionType
  aSufficient : Bool
  aFname : Option Text
  deriving DecidableEq, Repr

/-- `RED_HOST_TYPE_LOCAL`, `RED_HOST_TYPE_SECONDARY_MX`, `RED_HOST_TYPE_REMOTE`. -/
inductive RedHostType
  | loc
  | secondaryMx
  | remote
  deriving DecidableEq, Repr

/-- `RED_DELIVER_SMTP_DEFAULT`, `RED_DELIVER_SMTP`, `RED_DELIVER_BINARY`. -/
inductive RedDeliverType
  | smtpDefault
  | smtp
  | binary
  deriving DecidableEq, Repr

/-- `struct simta_red`. -/
structure Red where
  redHostName : Text
  redHostType : RedHostType
  redReceive : List Action
  redExpand : List Action
  redDeliverType : RedDeliverType
  redMinWait : Int := 0
  redMaxWait : Int := 0
  redNoPunt : Bool := false
  deriving DecidableEq, Repr

/-- The globals of the host table. -/
structure RedConf where
  domainTrailingDot : Bool
  defaultAliasDb : Option Text
  defaultPasswdFile : Option Text

/-- `RED_CODE_R`, `RED_CODE_r`, `RED_CODE_E`. -/
inductive RedCode
  | sufficient
  | required
  | expand
  deriving DecidableEq, Repr

/-- The two allocations of `simta_red_add_action`: the first fails, the second fails, or neither. -/
inductive ActionAlloc
  | fails
  | noName
  | ok
  deriving DecidableEq, Repr

/-- One dot at the end of a name is not looked at. -/
def stripDot (conf : RedConf) (name : Text) : Text :=
  if conf.domainTrailingDot ∧ name.getLast? = some '.' then name.dropLast else name

/-- The search of `simta_red_lookup_host_2`. -/
def redFind (name : Text) : List Red → Option Red
  | [] => none
  | red :: rest =>
    match strcasecmp name red.redHostName with
    | .eq => some red
    | .gt => none
    | .lt => redFind name rest

/-- `simta_red_lookup_host`. -/
def redLookupHost (conf : RedConf) (name : Text) (hosts : List Red) : Option Red :=
  redFind (stripDot conf name) hosts

/-- `simta_red_add_host` for a local host: the table and the name of the entry it returns, or `none`
    when an allocation fails. -/
def redAddHost (alloc : Bool) (name : Text) : List Red → Option (List Red × Text)
  | [] => if alloc then some ([⟨name, .loc, [], [], .smtpDefault, 0, 0, false⟩], name) else none
  | red :: rest =>
    match strcasecmp red.redHostName name with
    | .eq => some (red :: rest, red.redHostName)
    | .lt => if alloc then some (⟨name, .loc, [], [], .smtpDefault, 0, 0, false⟩ :: red :: rest, name) else none
    | .gt => (redAddHost alloc name rest).map fun r => (red :: r.1, r.2)

/-- `simta_red_add_action`: whether it succeeds, and the host. -/
def redAddAction (alloc : ActionAlloc) (code : RedCode) (action : ExpansionType)
    (fname : Option Text) (red : Red) : Bool × Red :=
  let name := if alloc = .ok then fname else none
  let a : Action := ⟨action, decide (code = .sufficient), name⟩
  let added := match code with
    | .expand => { red with redExpand := red.redExpand ++ [a] }
    | _ => { red with redReceive := red.redReceive ++ [a] }
  match alloc, fname with
  | .fails, _ => (false, red)
  | .noName, some _ => (false, added)
  | _, _ => (true, added)

/-- The alias rule and the password rule that a host gets when it lacks rules of that kind. -/
def redAddDefaults (conf : RedConf) (alloc alloc' : ActionAlloc) (code : RedCode) (lacking : Bool)
    (red : Red) : Bool × Red :=
  if lacking then
    match redAddAction alloc code .alias conf.defaultAliasDb red with
    | (false, red) => (false, red)
    | (true, red) => redAddAction alloc' code .password conf.defaultPasswdFile red
  else (true, red)

/-- `simta_red_action_default`. -/
def redActionDefault (conf : RedConf) (alloc : Fin 4 → ActionAlloc) (red : Red) : Bool × Red :=
  match redAddDefaults conf (alloc 0) (alloc 1) .sufficient red.redReceive.isEmpty red with
  | (false, red) => (false, red)
  | (true, red) =>
    match redAddDefaults conf (alloc 2) (alloc 3) .expand red.redExpand.isEmpty red with
    | (false, red) => (false, red)
    | (true, red) =>
      (true, if red.redDeliverType = .smtpDefault then { red with redDeliverType := .binary } else red)

/-- Change the entry of that name. -/
def redUpdate (name : Text) (f : Red → Bool × Red) : List Red → Bool × List Red
  | [] => (true, [])
  | red :: rest =>
    if red.redHostName = name then ((f red).1, (f red).2 :: rest)
    else ((redUpdate name f rest).1, red :: (redUpdate name f rest).2)

/-! ## What the table holds afterwards -/

/-- The same host, with other rules. -/
structure SameHost (red red' : Red) : Prop where
  name : red'.redHostName = red.redHostName
  type : red'.redHostType = red.redHostType

theorem SameHost.refl (red : Red) : SameHost red red := ⟨rfl, rfl⟩

theorem SameHost.trans {a b c : Red} (hab : SameHost a b) (hbc : SameHost b c) : SameHost a c :=
  ⟨hbc.name.trans hab.name, hbc.type.trans hab.type⟩

theorem redAddAction_same (alloc : ActionAlloc) (code : RedCode) (action : ExpansionType)
    (fname : Option Text) (red : Red) : SameHost red (redAddAction alloc code action fname red).2 := by
  cases alloc <;> cases fname <;> cases code <;> exact ⟨rfl, rfl⟩

theorem redAddDefaults_same (conf : RedConf) (alloc alloc' : ActionAlloc) (code : RedCode)
    (lacking : Bool) (red : Red) :
    SameHost red (redAddDefaults conf alloc alloc' code lacking red).2 := by
  have h := redAddAction_same alloc code .alias conf.defaultAliasDb red
  unfold redAddDefaults
  split
  · split
    · rename_i heq
      rw [heq] at h
      exact h
    · rename_i heq
      rw [heq] at h
      exact h.trans (redAddAction_same _ _ _ _ _)
  · exact SameHost.refl red

theorem redActionDefault_same (conf : RedConf) (alloc : Fin 4 → ActionAlloc) (red : Red) :
    SameHost red (redActionDefault conf alloc red).2 := by
  have h := redAddDefaults_same conf (alloc 0) (alloc 1) .sufficient red.redReceive.isEmpty red
  unfold redActionDefault
  split
  · rename_i heq
    rw [heq] at h
    exact h
  · rename_i red' heq
    rw [heq] at h
    have h' := redAddDefaults_same conf (alloc 2) (alloc 3) .expand red'.redExpand.isEmpty red'
    split
    · rename_i heq'
      rw [heq'] at h'
      exact h.trans h'
    · rename_i heq'
      rw [heq'] at h'
      refine (h.trans h').trans ?_
      split <;> exact ⟨rfl, rfl⟩

/-- The names of the table. -/
def redNames (hosts : List Red) : List Text := hosts.map Red.redHostName

theorem redNames_redUpdate (name : Text) {f : Red → Bool × Red} (hf : ∀ red, SameHost red (f red).2) :
    ∀ hosts : List Red, redNames (redUpdate name f hosts).2 = redNames hosts
  | [] => rfl
  | red :: rest => by
    unfold redUpdate
    split
    · simp [redNames, (hf red).name]
    · simpa [redNames] using redNames_redUpdate name hf rest

/-- The table holds local hosts alone: the other types have tables of their own. -/
def LocalTable (hosts : List Red) : Prop := ∀ red ∈ hosts, red.redHostType = .loc

theorem localTable_cons {red : Red} {hosts : List Red} :
    LocalTable (red :: hosts) ↔ red.redHostType = .loc ∧ LocalTable hosts := List.forall_mem_cons

theorem localTable_redUpdate (name : Text) {f : Red → Bool × Red} (hf : ∀ red, SameHost red (f red).2) :
    ∀ {hosts : List Red}, LocalTable hosts → LocalTable (redUpdate name f hosts).2
  | [], h => h
  | red :: rest, h => by
    obtain ⟨hred, hrest⟩ := localTable_cons.mp h
    unfold redUpdate
    split
    · exact localTable_cons.mpr ⟨(hf red).type.trans hred, hrest⟩
    · exact localTable_cons.mpr ⟨hred, localTable_redUpdate name hf hrest⟩

theorem localTable_redAddHost {alloc : Bool} {name entry : Text} {hosts hosts' : List Red}
    (h : redAddHost alloc name hosts = some (hosts', entry)) (hloc : LocalTable hosts) :
    LocalTable hosts' := by
  induction hosts generalizing hosts' with
  | nil =>
    unfold redAddHost at h
    split at h <;> cases h
    exact localTable_cons.mpr ⟨rfl, hloc⟩
  | cons red rest ih =>
    obtain ⟨hred, hrest⟩ := localTable_cons.mp hloc
    unfold redAddHost at h
    split at h
    · cases h
      exact hloc
    · split at h <;> cases h
      exact localTable_cons.mpr ⟨rfl, hloc⟩
    · obtain ⟨⟨rest', entry'⟩, hr, heq⟩ := Option.map_eq_some_iff.mp h
      cases heq
      exact localTable_cons.mpr ⟨hred, ih hr hrest⟩

theorem redUpdate_ok (name : Text) {f : Red → Bool × Red} (hf : ∀ red, (f red).1 = true) :
    ∀ hosts : List Red, (redUpdate name f hosts).1 = true
  | [] => rfl
  | red :: rest => by
    unfold redUpdate
    split
    · exact hf red
    · exact redUpdate_ok name hf rest

/-- With memory at hand nothing of this fails. -/
theorem redAddDefaults_ok (conf : RedConf) (code : RedCode) (lacking : Bool) (red : Red) :
    (redAddDefaults conf .ok .ok code lacking red).1 = true := by
  have h : ∀ action fname red, (redAddAction .ok code action fname red).1 = true := by
    intro action fname red
    cases fname <;> rfl
  unfold redAddDefaults
  split
  · split
    · rename_i heq
      have := h .alias conf.defaultAliasDb red
      rw [heq] at this
      cases this
    · exact h _ _ _
  · rfl

theorem redActionDefault_ok (conf : RedConf) (red : Red) :
    (redActionDefault conf (fun _ => .ok) red).1 = true := by
  unfold redActionDefault
  split
  · rename_i heq
    have := redAddDefaults_ok conf .sufficient red.redReceive.isEmpty red
    rw [heq] at this
    cases this
  · rename_i red' heq
    split
    · rename_i heq'
      have := redAddDefaults_ok conf .expand red'.redExpand.isEmpty red'
      rw [heq'] at this
      cases this
    · rfl

theorem redAddHost_ok (name : Text) : ∀ hosts : List Red, ∃ r, redAddHost true name hosts = some r
  | [] => ⟨_, rfl⟩
  | red :: rest => by
    obtain ⟨r, hr⟩ := redAddHost_ok name rest
    unfold redAddHost
    split
    · exact ⟨_, rfl⟩
    · exact ⟨_, rfl⟩
    · rw [hr]
      exact ⟨_, rfl⟩

/-- What adding a host leaves: the entry it returns is in the table, the others stay, and at most the
    name asked for comes in. -/
structure HostAdded (name entry : Text) (hosts hosts' : List Red) : Prop where
  same : strcaseEq entry name = true
  mem : entry ∈ redNames hosts'
  kept : ∀ n ∈ redNames hosts, n ∈ redNames hosts'
  new : ∀ n ∈ redNames hosts', n ∈ redNames hosts ∨ n = name

theorem redAddHost_spec {alloc : Bool} {name entry : Text} {hosts hosts' : List Red}
    (h : redAddHost alloc name hosts = some (hosts', entry)) : HostAdded name entry hosts hosts' := by
  induction hosts generalizing hosts' with
  | nil =>
    unfold redAddHost at h
    split at h <;> cases h
    exact ⟨by simp [strcaseEq], by simp [redNames], by simp [redNames], by simp [redNames]⟩
  | cons red rest ih =>
    unfold redAddHost at h
    split at h
    · rename_i heq
      cases h
      exact ⟨strcasecmp_eq_iff.mp heq, by simp [redNames], fun n hn => hn, fun n hn => .inl hn⟩
    · split at h <;> cases h
      refine ⟨by simp [strcaseEq], by simp [redNames], fun n hn => List.mem_cons_of_mem _ hn,
        fun n hn => ?_⟩
      rcases List.mem_cons.mp hn with rfl | hn
      · exact .inr rfl
      · exact .inl hn
    · cases hr : redAddHost alloc name rest with
      | none => simp [hr] at h
      | some r =>
        obtain ⟨rest', entry'⟩ := r
        simp only [hr, Option.map_some, Option.some.injEq, Prod.mk.injEq] at h
        obtain ⟨rfl, rfl⟩ := h
        have hrest := ih hr
        refine ⟨hrest.same, List.mem_cons_of_mem _ hrest.mem, fun n hn => ?_, fun n hn => ?_⟩
        · rcases List.mem_cons.mp hn with rfl | hn
          · exact List.mem_cons_self
          · exact List.mem_cons_of_mem _ (hrest.kept n hn)
        · rcases List.mem_cons.mp hn with rfl | hn
          · exact .inl List.mem_cons_self
          · exact (hrest.new n hn).imp_left (List.mem_cons_of_mem _)

theorem redFind_name {name : Text} {hosts : List Red} {red : Red}
    (h : redFind name hosts = some red) : strcaseEq name red.redHostName = true ∧ red ∈ hosts := by
  induction hosts with
  | nil => cases h
  | cons x rest ih =>
    unfold redFind at h
    split at h
    · rename_i heq
      cases h
      exact ⟨strcasecmp_eq_iff.mp heq, List.mem_cons_self⟩
    · cases h
    · exact ⟨(ih h).1, List.mem_cons_of_mem _ (ih h).2⟩

end Simta
