import Simta.EnvOutfile
import Simta.Lib.Fields
import Simta.Lib.Numeral

/-!
# The ids of envelopes

An envelope that is made without an id gets one of the time and the process: `simta_gettimeofday` of `simta.c`, which
never returns a time twice, and the beginning of `env_create`.  A process that is forked off goes on from the time
that its parent has last returned.

* `simtaGettimeofday`, `envId`, `envCreateClock` — the functions;
* `gettimeofday_later` — a call returns a time behind the remembered one, which it becomes;
* `envId_inj` — an id tells the time and the process;
* `IdRun`, `IdRun.Reached` — processes that ask for the time, make envelopes and fork, in any order;
* `ids_unique` — the times of a process increase, and no two envelopes have the same id.
-/

set_option autoImplicit false

namespace Simta

/-! ## The functions -/

/-- `struct timeval`.  The microseconds are a `long`, which the function tests for an overflow; seconds do not come
    near the end of their type, and are as many as there are. -/
structure Timeval where
  tvSec : Int
  tvUsec : Int64
  deriving DecidableEq

/-- `simta_tv_now` at the start. -/
def Timeval.zero : Timeval := ⟨0, 0⟩

/-- `simta_gettimeofday`: the time that it returns, which is then in `simta_tv_now`, where `now` was before; `reading`
    is what `gettimeofday` answers, `none` being an error. -/
def simtaGettimeofday (now : Timeval) (reading : Option Timeval) : Option Timeval :=
  reading.map fun tv =>
    if tv.tvSec < now.tvSec ∨ (tv.tvSec = now.tvSec ∧ tv.tvUsec ≤ now.tvUsec) then
      if now.tvUsec + 1 ≤ now.tvUsec then ⟨now.tvSec + 1, 0⟩ else ⟨now.tvSec, now.tvUsec + 1⟩
    else tv

/-- The conversion of seconds to `unsigned long`. -/
def unsignedLong (n : Int) : Nat := if 0 ≤ n then n.toNat else (n + 2 ^ 64).toNat

/-- `%lX`. -/
def hexText (n : Nat) : Text := (Nat.toDigits 16 n).map Char.toUpper

/-- The id that is printed, which has at most 45 of the 1023 characters that there is room for. -/
def envId (tv : Timeval) (pid : Int) : Text :=
  hexText (unsignedLong tv.tvSec) ++ '.' :: (hexText tv.tvUsec.toUInt64.toNat ++ '.' :: intText pid)

/-- What the calls of `env_create` answer, in their order: the `malloc`, `gettimeofday`, `getpid`, the `strdup` and
    `env_sender`. -/
structure EnvAnswers where
  malloc : Bool
  reading : Option Timeval
  pid : Int
  strdup : Bool
  sender : Bool

/-- No id is given. -/
def noId (id : Option Text) : Bool := id.getD [] = []

/-- The id of the new envelope, and `simta_tv_now` afterwards. -/
def envCreateId (now : Timeval) (id : Option Text) (ans : EnvAnswers) : Timeval × Option Text :=
  if noId id then
    match simtaGettimeofday now ans.reading with
    | none => (now, none)
    | some tv => (tv, if ans.pid < 0 then none else some (envId tv ans.pid))
  else (now, id)

/-- `env_create`: the envelope, and `simta_tv_now` afterwards. -/
def envCreateClock (conf : Conf) (now : Timeval) (dir : Dir) (id eMail : Option Text) (parent : Option Envelope)
    (ans : EnvAnswers) : Timeval × Option Envelope :=
  if ans.malloc then
    let (now, name) := envCreateId now id ans
    (now, name.bind fun name =>
      if ans.strdup ∧ (eMail = none ∨ ans.sender) then some (envCreate conf dir name eMail parent) else none)
  else (now, none)

/-! ## The time -/

/-- The order of times. -/
def Timeval.Before (t u : Timeval) : Prop := t.tvSec < u.tvSec ∨ (t.tvSec = u.tvSec ∧ t.tvUsec < u.tvUsec)

theorem Timeval.Before.irrefl (t : Timeval) : ¬ t.Before t := by
  rintro (h | ⟨-, h⟩)
  · exact Int.lt_irrefl _ h
  · exact Int64.lt_irrefl h

theorem Timeval.Before.trans {t u v : Timeval} (h : t.Before u) (h' : u.Before v) : t.Before v := by
  unfold Timeval.Before at *
  rw [Int64.lt_iff_toInt_lt] at *
  omega

/-- **A call** returns a time behind the remembered one. -/
theorem gettimeofday_later {now tv : Timeval} {reading : Option Timeval}
    (h : simtaGettimeofday now reading = some tv) : now.Before tv := by
  obtain ⟨t, -, rfl⟩ := Option.map_eq_some_iff.mp h
  unfold Timeval.Before
  split
  · split
    · exact .inl (Int.lt_succ _)
    · rename_i hadd
      exact .inr ⟨rfl, Int64.not_le.mp hadd⟩
  · rename_i hlate
    rw [Int64.le_iff_toInt_le] at hlate
    rw [Int64.lt_iff_toInt_lt]
    omega

/-- Seconds since the start of the clock. -/
theorem Timeval.Before.nonneg {t u : Timeval} (h : t.Before u) (ht : 0 ≤ t.tvSec) : 0 ≤ u.tvSec := by
  rcases h with h | ⟨h, -⟩
  · omega
  · omega

/-! ## The id -/

theorem hexText_injective : Function.Injective hexText := fun _ _ h =>
  toDigits_map_injective (by decide) (by decide) h

theorem dot_notMem_hexText (n : Nat) : '.' ∉ hexText n := notMem_toDigits_map (by decide) (by decide) n

theorem intText_inj {p q : Int} (hp : 0 ≤ p) (hq : 0 ≤ q) (h : intText p = intText q) : p = q := by
  obtain ⟨n, rfl⟩ := Int.eq_ofNat_of_zero_le hp
  obtain ⟨m, rfl⟩ := Int.eq_ofNat_of_zero_le hq
  have hdigits : (Nat.toDigits 10 n).map id = (Nat.toDigits 10 m).map id := by
    rw [List.map_id, List.map_id]
    exact h
  rw [toDigits_map_injective (by decide) (by decide) hdigits]

/-- **An id tells** the time and the process. -/
theorem envId_inj {t u : Timeval} {p q : Int} (ht : 0 ≤ t.tvSec) (hu : 0 ≤ u.tvSec) (hp : 0 ≤ p) (hq : 0 ≤ q)
    (h : envId t p = envId u q) : t = u ∧ p = q := by
  obtain ⟨hsec, h⟩ := field_inj (dot_notMem_hexText _) (dot_notMem_hexText _) h
  obtain ⟨husec, hpid⟩ := field_inj (dot_notMem_hexText _) (dot_notMem_hexText _) h
  have hsec' := hexText_injective hsec
  unfold unsignedLong at hsec'
  rw [if_pos ht, if_pos hu] at hsec'
  have husec' : t.tvUsec.toUInt64 = u.tvUsec.toUInt64 := UInt64.toNat_inj.mp (hexText_injective husec)
  refine ⟨?_, intText_inj hp hq hpid⟩
  obtain ⟨s, x⟩ := t
  obtain ⟨s', x'⟩ := u
  obtain rfl : s = s' := by
    have hs : s.toNat = s'.toNat := hsec'
    have h₁ : 0 ≤ s := ht
    have h₂ : 0 ≤ s' := hu
    omega
  obtain rfl : x = x' := congrArg Int64.ofUInt64 husec'
  rfl

/-! ## Processes -/

/-- What a process has of the clock: `simta_tv_now`, and the times that calls have returned to it, and to its parent
    before it was forked off, the last one first. -/
structure ProcClock where
  now : Timeval
  returned : List Timeval

/-- A call of `simta_gettimeofday`. -/
def ProcClock.call (c : ProcClock) (reading : Option Timeval) : ProcClock :=
  match simtaGettimeofday c.now reading with
  | none => c
  | some tv => ⟨tv, tv :: c.returned⟩

/-- What an `env_create` does to the clock. -/
def ProcClock.create (c : ProcClock) (id : Option Text) (ans : EnvAnswers) : ProcClock :=
  if ans.malloc ∧ noId id then c.call ans.reading else c

theorem ProcClock.create_now (c : ProcClock) (conf : Conf) (dir : Dir) (id eMail : Option Text)
    (parent : Option Envelope) (ans : EnvAnswers) :
    (c.create id ans).now = (envCreateClock conf c.now dir id eMail parent ans).1 := by
  unfold ProcClock.create ProcClock.call envCreateClock envCreateId
  cases ans.malloc with
  | false => rfl
  | true =>
    cases noId id with
    | false => rfl
    | true => cases simtaGettimeofday c.now ans.reading <;> rfl

/-- The processes by their numbers, and the envelopes that `env_create` has named in any of them, the last one
    first. -/
structure IdRun where
  procs : Int → Option ProcClock
  named : List Envelope

/-- A process has a new clock. -/
def IdRun.setClock (s : IdRun) (p : Int) (c : ProcClock) : IdRun :=
  { s with procs := Function.update s.procs p (some c) }

@[simp] theorem IdRun.setClock_self (s : IdRun) (p : Int) (c : ProcClock) : (s.setClock p c).procs p = some c :=
  Function.update_self ..

theorem IdRun.setClock_of_ne (s : IdRun) {p q : Int} (h : q ≠ p) (c : ProcClock) :
    (s.setClock p c).procs q = s.procs q := Function.update_of_ne h ..

/-- An envelope that is made without an id is named. -/
def IdRun.name (s : IdRun) (id : Option Text) (env : Option Envelope) : IdRun :=
  if noId id then { s with named := env.toList ++ s.named } else s

/-- What processes reach: one begins, with any number; each asks for the time and makes envelopes, with any answers
    of the system, and forks off processes, whose numbers no process has had.  Nothing else assigns
    `simta_tv_now`. -/
inductive IdRun.Reached : IdRun → Prop
  | start {p : Int} (hp : 0 ≤ p) : Reached (IdRun.setClock ⟨fun _ => none, []⟩ p ⟨.zero, []⟩)
  | call {s : IdRun} {p : Int} {c : ProcClock} (h : Reached s) (hc : s.procs p = some c) (reading : Option Timeval) :
      Reached (s.setClock p (c.call reading))
  | create {s : IdRun} {p : Int} {c : ProcClock} (h : Reached s) (hc : s.procs p = some c) (conf : Conf) (dir : Dir)
      (id eMail : Option Text) (parent : Option Envelope) (ans : EnvAnswers) (hpid : ans.pid = p ∨ ans.pid < 0) :
      Reached ((s.setClock p (c.create id ans)).name id (envCreateClock conf c.now dir id eMail parent ans).2)
  | fork {s : IdRun} {p q : Int} {c : ProcClock} (h : Reached s) (hc : s.procs p = some c) (hq : 0 ≤ q)
      (hnew : s.procs q = none) : Reached (s.setClock q c)

/-! ## The invariant -/

/-- The times of a process increase up to the remembered one. -/
structure ProcClock.Increasing (c : ProcClock) : Prop where
  sec : 0 ≤ c.now.tvSec
  behind : ∀ t ∈ c.returned, 0 ≤ t.tvSec ∧ (t = c.now ∨ t.Before c.now)
  pairs : c.returned.Pairwise fun t u => u.Before t

/-- A later time. -/
theorem ProcClock.Increasing.later {c : ProcClock} (h : c.Increasing) {tv : Timeval} (hlater : c.now.Before tv) :
    (∀ t ∈ c.returned, t.Before tv) ∧ ProcClock.Increasing ⟨tv, tv :: c.returned⟩ := by
  have hsec : 0 ≤ tv.tvSec := hlater.nonneg h.sec
  have hall : ∀ t ∈ c.returned, t.Before tv := by
    intro t ht
    rcases (h.behind t ht).2 with rfl | hbefore
    · exact hlater
    · exact hbefore.trans hlater
  refine ⟨hall, hsec, ?_, List.pairwise_cons.mpr ⟨hall, h.pairs⟩⟩
  intro t ht
  rcases List.mem_cons.mp ht with rfl | ht
  · exact ⟨hsec, .inl rfl⟩
  · exact ⟨(h.behind t ht).1, .inr (hall t ht)⟩

theorem ProcClock.Increasing.call {c : ProcClock} (h : c.Increasing) (reading : Option Timeval) :
    (c.call reading).Increasing ∧ ∀ t ∈ c.returned, t ∈ (c.call reading).returned := by
  unfold ProcClock.call
  cases htv : simtaGettimeofday c.now reading with
  | none => exact ⟨h, fun t ht => ht⟩
  | some tv => exact ⟨(h.later (gettimeofday_later htv)).2, fun t ht => List.mem_cons_of_mem _ ht⟩

theorem ProcClock.Increasing.create {c : ProcClock} (h : c.Increasing) (id : Option Text) (ans : EnvAnswers) :
    (c.create id ans).Increasing ∧ ∀ t ∈ c.returned, t ∈ (c.create id ans).returned := by
  unfold ProcClock.create
  split
  · exact h.call ans.reading
  · exact ⟨h, fun t ht => ht⟩

/-- An envelope that is made without an id has one of a time that was just returned. -/
theorem envCreateClock_named {conf : Conf} {c : ProcClock} {dir : Dir} {id eMail : Option Text}
    {parent : Option Envelope} {ans : EnvAnswers} {env : Envelope} (hid : noId id = true)
    (h : (envCreateClock conf c.now dir id eMail parent ans).2 = some env) :
    ∃ tv, c.now.Before tv ∧ (c.create id ans).returned = tv :: c.returned ∧ 0 ≤ ans.pid ∧
      env.eId = envId tv ans.pid := by
  unfold envCreateClock at h
  split at h
  · rename_i hmalloc
    unfold envCreateId at h
    rw [if_pos hid] at h
    unfold ProcClock.create ProcClock.call
    rw [if_pos ⟨hmalloc, hid⟩]
    cases htv : simtaGettimeofday c.now ans.reading with
    | none =>
      rw [htv] at h
      cases h
    | some tv =>
      rw [htv] at h
      obtain ⟨name, hname, henv⟩ := Option.bind_eq_some_iff.mp h
      refine ⟨tv, gettimeofday_later htv, rfl, ?_⟩
      have hname' : (if ans.pid < 0 then none else some (envId tv ans.pid)) = some name := hname
      split at hname'
      · cases hname'
      · rename_i hpid
        obtain rfl := Option.some.inj hname'
        split at henv
        · obtain rfl := Option.some.inj henv
          exact ⟨by omega, rfl⟩
        · cases henv
  · cases h

/-- What holds in a run: the clocks increase, every id is of a time that was returned to the process it names, and
    no id is there twice. -/
structure IdRun.Unique (s : IdRun) : Prop where
  clock : ∀ p c, s.procs p = some c → 0 ≤ p ∧ c.Increasing
  origin : ∀ env ∈ s.named, ∃ p c t, s.procs p = some c ∧ t ∈ c.returned ∧ env.eId = envId t p
  nodup : (s.named.map Envelope.eId).Nodup

namespace IdRun.Unique

variable {s : IdRun} {p : Int} {c : ProcClock}

/-- A process has a clock that has gone on, or a new process has one. -/
theorem setClock (h : s.Unique) (hp : 0 ≤ p) (hc : c.Increasing)
    (hkeeps : ∀ c', s.procs p = some c' → ∀ t ∈ c'.returned, t ∈ c.returned) : (s.setClock p c).Unique := by
  refine ⟨?_, ?_, h.nodup⟩
  · intro q c' hq
    by_cases hqp : q = p
    · subst hqp
      rw [IdRun.setClock_self] at hq
      obtain rfl := Option.some.inj hq
      exact ⟨hp, hc⟩
    · rw [IdRun.setClock_of_ne s hqp] at hq
      exact h.clock q c' hq
  · intro env henv
    obtain ⟨q, c', t, hq, ht, hid⟩ := h.origin env henv
    by_cases hqp : q = p
    · subst hqp
      exact ⟨q, c, t, IdRun.setClock_self .., hkeeps c' hq t ht, hid⟩
    · exact ⟨q, c', t, (IdRun.setClock_of_ne s hqp c).trans hq, ht, hid⟩

/-- The id of a time that was not returned before. -/
theorem fresh (h : s.Unique) (hc : s.procs p = some c) {tv : Timeval} (hlater : c.now.Before tv) :
    envId tv p ∉ s.named.map Envelope.eId := by
  intro hmem
  obtain ⟨env, henv, hid⟩ := List.mem_map.mp hmem
  obtain ⟨q, c', t, hq, ht, hid'⟩ := h.origin env henv
  obtain ⟨hp, hincreasing⟩ := h.clock p c hc
  obtain ⟨hq', hincreasing'⟩ := h.clock q c' hq
  obtain ⟨rfl, rfl⟩ := envId_inj (hincreasing'.behind t ht).1 (hlater.nonneg hincreasing.sec) hq' hp
    (hid'.symm.trans hid)
  obtain rfl : c' = c := Option.some.inj (hq.symm.trans hc)
  exact Timeval.Before.irrefl _ ((hincreasing.later hlater).1 t ht)

theorem create (h : s.Unique) (hc : s.procs p = some c) (conf : Conf) (dir : Dir) (id eMail : Option Text)
    (parent : Option Envelope) (ans : EnvAnswers) (hpid : ans.pid = p ∨ ans.pid < 0) :
    ((s.setClock p (c.create id ans)).name id (envCreateClock conf c.now dir id eMail parent ans).2).Unique := by
  obtain ⟨hp, hincreasing⟩ := h.clock p c hc
  obtain ⟨hcreate, hkeeps⟩ := hincreasing.create id ans
  have hset : (s.setClock p (c.create id ans)).Unique := by
    apply h.setClock hp hcreate
    intro c' hc' t ht
    obtain rfl : c = c' := Option.some.inj (hc.symm.trans hc')
    exact hkeeps t ht
  unfold IdRun.name
  split
  · rename_i hid
    cases henv : (envCreateClock conf c.now dir id eMail parent ans).2 with
    | none => exact hset
    | some env =>
      obtain ⟨tv, hlater, hreturned, hpos, heid⟩ := envCreateClock_named hid henv
      obtain rfl : ans.pid = p := by omega
      refine ⟨hset.clock, ?_, ?_⟩
      · intro env' henv'
        rcases List.mem_cons.mp henv' with rfl | hmem
        · refine ⟨ans.pid, c.create id ans, tv, IdRun.setClock_self .., ?_, heid⟩
          rw [hreturned]
          exact List.mem_cons_self ..
        · exact hset.origin env' hmem
      · refine List.nodup_cons.mpr ⟨?_, h.nodup⟩
        rw [heid]
        exact h.fresh hc hlater
  · exact hset

end IdRun.Unique

theorem IdRun.Reached.unique {s : IdRun} (h : s.Reached) : s.Unique := by
  induction h with
  | @start p hp =>
    refine IdRun.Unique.setClock ⟨?_, ?_, List.nodup_nil⟩ hp ⟨Int.le_refl _, ?_, List.Pairwise.nil⟩ ?_
    · intro q c hq
      cases hq
    · intro env henv
      exact absurd henv List.not_mem_nil
    · intro t ht
      exact absurd ht List.not_mem_nil
    · intro c hc
      cases hc
  | call _ hc reading ih =>
    obtain ⟨hp, hincreasing⟩ := ih.clock _ _ hc
    obtain ⟨hcall, hkeeps⟩ := hincreasing.call reading
    apply ih.setClock hp hcall
    intro c' hc' t ht
    obtain rfl := Option.some.inj (hc.symm.trans hc')
    exact hkeeps t ht
  | create _ hc conf dir id eMail parent ans hpid ih => exact ih.create hc conf dir id eMail parent ans hpid
  | fork _ hc hq hnew ih =>
    apply ih.setClock hq (ih.clock _ _ hc).2
    intro c' hc'
    rw [hnew] at hc'
    cases hc'

/-- **Ids are unique.**  Whatever the clock shows, the times that calls return to a process increase, also behind
    those of its parent, and no two envelopes that were named, in any process, have the same id. -/
theorem ids_unique {s : IdRun} (h : s.Reached) :
    (∀ p c, s.procs p = some c → c.returned.Pairwise fun t u => u.Before t) ∧ (s.named.map Envelope.eId).Nodup :=
  ⟨fun p c hc => (h.unique.clock p c hc).2.pairs, h.unique.nodup⟩

/-- A process before it makes an envelope, at a clock that stands at `reading`. -/
def firstProc : IdRun := IdRun.setClock ⟨fun _ => none, []⟩ 100 ⟨.zero, []⟩

/-- The answers of a system whose clock stands. -/
def standingAnswers (pid : Int) : EnvAnswers := ⟨true, some ⟨7, 0⟩, pid, true, true⟩

/-- Two envelopes of a process, while the clock stands. -/
theorem ids_unique_standing :
    let c : ProcClock := ⟨.zero, []⟩
    let s := (firstProc.setClock 100 (c.create none (standingAnswers 100))).name none
      (envCreateClock {} c.now .fast none none none (standingAnswers 100)).2
    let t := (s.setClock 100 ((c.create none (standingAnswers 100)).create none (standingAnswers 100))).name none
      (envCreateClock {} (c.create none (standingAnswers 100)).now .fast none none none (standingAnswers 100)).2
    t.named.length = 2 ∧ (t.named.map Envelope.eId).Nodup :=
  ⟨rfl, (ids_unique (.create (.create (.start (by decide)) (IdRun.setClock_self ..) {} .fast none none none
    (standingAnswers 100) (.inl rfl)) (IdRun.setClock_self ..) {} .fast none none none (standingAnswers 100)
    (.inl rfl))).2⟩

/-- The clock stands at the remembered second, and its last microsecond of all: the seconds go on. -/
example : simtaGettimeofday ⟨7, Int64.maxValue⟩ (some ⟨7, 0⟩) = some ⟨8, 0⟩ := by decide

end Simta
