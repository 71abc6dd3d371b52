import Simta.ProcessTable
import Mathlib.Data.List.MinMax
import Mathlib.Data.List.Nodup
import Mathlib.Data.List.Perm.Subperm

/-!
# The accounts of the server

Everything that the server counts is kept in several places: in the table of children, in the limits, with the
listening sockets and with the clients.  A ledger has them all, and a child enters it and leaves it at once.

* `Ledger`, `Ledger.enter`, `Ledger.leave`, `Ledger.register` — what is counted, and how it changes;
* `Ledger.Right` — every counter counts the children it is for;
* `simtaChildQRunner_spec`, `simtaChildReceive_spec`, `daemonWaitpid_spec`, `cleanThrottleTable_spec` — what the
  functions do to the ledger of the server;
* `server_accounts` — the ledger is right whenever the loop comes round;
* `runners_limited` — the runners keep to their limits.
-/

set_option autoImplicit false

namespace Simta

namespace ProcTable

/-! ## The ledger -/

/-- What the counters are about: the children, what is counted for each limit and each socket, and the connection
    records, each with its address, its client and its count. -/
@[ext] structure Ledger where
  children : List ProcType
  limit : Limit → Int
  socket : Nat → Int
  records : List (Nat × Nat × Int)
  fresh : Nat

namespace Ledger

def addrs (l : Ledger) : List Nat := l.records.map Prod.fst

/-- A child is counted `delta` times more. -/
def count (p : ProcType) (delta : Int) (l : Ledger) : Ledger :=
  { l with
    limit := fun i => l.limit i + if p.pLimit = some i then delta else 0
    socket := fun i => l.socket i + if p.pSs = some i then delta else 0
    records := l.records.map fun x => (x.1, x.2.1, x.2.2 + if p.pCinfo = some x.1 then delta else 0) }

def enter (p : ProcType) (l : Ledger) : Ledger := { l.count p 1 with children := p :: l.children }

def leave (p : ProcType) (l : Ledger) : Ledger := { l.count p (-1) with children := l.children.erase p }

/-- A record for a client. -/
def register (sin : Nat) (l : Ledger) : Ledger :=
  { l with records := (l.fresh, sin, 0) :: l.records, fresh := l.fresh + 1 }

end Ledger

/-- The counter of each kind of child. -/
def ProcessType.limit : ProcessType → Limit
  | .receive => .globalConnections
  | .qLocal => .qRunnerLocal
  | .qSlow => .qRunnerSlow

theorem limit_injective {t t' : ProcessType} (h : ProcessType.limit t = ProcessType.limit t') : t = t' := by
  cases t <;> cases t' <;> first | rfl | cases h

/-- A child has the pointers that its type needs, and a connection record that is not freed. -/
structure ProcType.Wired (addrs : List Nat) (p : ProcType) : Prop where
  limit : p.pLimit = some (ProcessType.limit p.pType)
  host : p.pType = .qSlow → p.pHost.isSome
  socket : p.pSs.isSome ↔ p.pType = .receive
  record : p.pCinfo.isSome ↔ p.pType = .receive
  addr : ∀ a, p.pCinfo = some a → a ∈ addrs

def Ledger.Wired (l : Ledger) : Prop := ∀ p ∈ l.children, p.Wired l.addrs

/-- **The ledger is right**: it has the children that are not reaped, each once, every counter counts the children it
    is for, and there is one record for a client. -/
structure Ledger.Right (l : Ledger) (live : List Nat) : Prop where
  wired : l.Wired
  pids : (l.children.map ProcType.pId).Perm live
  nodup : live.Nodup
  limit : ∀ i, l.limit i = l.children.countP fun p => p.pLimit = some i
  socket : ∀ i, l.socket i = l.children.countP fun p => p.pSs = some i
  total : ∀ x ∈ l.records, x.2.2 = l.children.countP fun p => p.pCinfo = some x.1
  addrs : l.addrs.Nodup
  below : ∀ a ∈ l.addrs, a < l.fresh
  clients : (l.records.map fun x => x.2.1).Nodup

namespace Ledger

variable {l : Ledger} {live : List Nat} {p : ProcType}

theorem addrs_count (p : ProcType) (delta : Int) (l : Ledger) : (l.count p delta).addrs = l.addrs := by
  unfold addrs count
  rw [List.map_map]
  rfl

theorem clients_count (p : ProcType) (delta : Int) (l : Ledger) :
    ((l.count p delta).records.map fun x => x.2.1) = l.records.map fun x => x.2.1 := by
  unfold count
  rw [List.map_map]
  rfl

/-- A counter that counts the children with `P` goes on to do so when a child enters. -/
theorem countP_enter (P : ProcType → Bool) (ps : List ProcType) (p : ProcType) :
    ((p :: ps).countP P : Int) = ps.countP P + if P p then 1 else 0 := by
  by_cases hp : P p <;> simp [hp]

theorem countP_leave (P : ProcType → Bool) {ps : List ProcType} (hp : p ∈ ps) :
    ((ps.erase p).countP P : Int) = ps.countP P + if P p then -1 else 0 := by
  have hcons := countP_enter P (ps.erase p) p
  rw [← (List.perm_cons_erase hp).countP_eq P] at hcons
  split_ifs at hcons ⊢ <;> omega

theorem Right.enter (h : l.Right live) (hp : p.Wired l.addrs) (hpid : p.pId ∉ live) :
    (l.enter p).Right (p.pId :: live) where
  wired := by
    intro q hq
    rw [show (l.enter p).addrs = l.addrs from addrs_count p 1 l]
    rcases List.mem_cons.mp hq with rfl | hq
    · exact hp
    · exact h.wired q hq
  pids := h.pids.cons _
  nodup := List.nodup_cons.mpr ⟨hpid, h.nodup⟩
  limit i := by simp [Ledger.enter, count, h.limit i, countP_enter]
  socket i := by simp [Ledger.enter, count, h.socket i, countP_enter]
  total := by
    intro y hy
    obtain ⟨x, hx, rfl⟩ := List.mem_map.mp hy
    simp [Ledger.enter, h.total x hx, countP_enter]
  addrs := (addrs_count p 1 l).symm ▸ h.addrs
  below := (addrs_count p 1 l).symm ▸ h.below
  clients := (clients_count p 1 l).symm ▸ h.clients

theorem Wired.leave (h : l.Wired) : (l.leave p).Wired := by
  intro q hq
  rw [show (l.leave p).addrs = l.addrs from addrs_count p (-1) l]
  exact h q (List.mem_of_mem_erase hq)

theorem Right.leave (h : l.Right (p.pId :: live)) (hp : p ∈ l.children) : (l.leave p).Right live where
  wired := h.wired.leave
  pids := ((List.perm_cons_erase hp).map ProcType.pId).symm.trans h.pids |>.cons_inv
  nodup := (List.nodup_cons.mp h.nodup).2
  limit i := by simp [Ledger.leave, count, h.limit i, countP_leave _ hp]
  socket i := by simp [Ledger.leave, count, h.socket i, countP_leave _ hp]
  total := by
    intro y hy
    obtain ⟨x, hx, rfl⟩ := List.mem_map.mp hy
    simp [Ledger.leave, h.total x hx, countP_leave _ hp]
  addrs := (addrs_count p (-1) l).symm ▸ h.addrs
  below := (addrs_count p (-1) l).symm ▸ h.below
  clients := (clients_count p (-1) l).symm ▸ h.clients

/-- A new record is at an address that no child has. -/
theorem Right.register (h : l.Right live) {sin : Nat} (hsin : sin ∉ l.records.map fun x => x.2.1) :
    (l.register sin).Right live where
  wired := fun p hp =>
    { h.wired p hp with addr := fun a ha => List.mem_cons_of_mem _ ((h.wired p hp).addr a ha) }
  pids := h.pids
  nodup := h.nodup
  limit := h.limit
  socket := h.socket
  total := by
    intro x hx
    rcases List.mem_cons.mp hx with rfl | hx
    · have hnone : l.children.countP (fun p => p.pCinfo = some l.fresh) = 0 := by
        refine List.countP_eq_zero.mpr fun p hp hc => ?_
        exact Nat.lt_irrefl _ (h.below _ ((h.wired p hp).addr _ (of_decide_eq_true hc)))
      exact (congrArg Nat.cast hnone).symm
    · exact h.total x hx
  addrs := List.nodup_cons.mpr ⟨fun hmem => Nat.lt_irrefl _ (h.below _ hmem), h.addrs⟩
  below := by
    intro a ha
    rcases List.mem_cons.mp ha with rfl | ha
    · exact Nat.lt_succ_self _
    · exact Nat.lt_succ_of_lt (h.below a ha)
  clients := List.nodup_cons.mpr ⟨hsin, h.clients⟩

/-- The records of some clients without a child are freed. -/
theorem Right.prune (h : l.Right live) {rs : List (Nat × Nat × Int)} (hsub : rs.Sublist l.records)
    (hkeep : ∀ x ∈ l.records, x.2.2 ≠ 0 → x ∈ rs) : ({ l with records := rs } : Ledger).Right live where
  wired := by
    intro p hp
    refine { h.wired p hp with addr := fun a ha => ?_ }
    obtain ⟨x, hx, rfl⟩ := List.mem_map.mp ((h.wired p hp).addr a ha)
    refine List.mem_map_of_mem (hkeep x hx ?_)
    rw [h.total x hx]
    have hpos : 0 < l.children.countP fun p => p.pCinfo = some x.1 :=
      List.countP_pos_iff.mpr ⟨p, hp, decide_eq_true ha⟩
    omega
  pids := h.pids
  nodup := h.nodup
  limit := h.limit
  socket := h.socket
  total x hx := h.total x (hsub.subset hx)
  addrs := (hsub.map _).nodup h.addrs
  below a ha := h.below a ((hsub.map _).subset ha)
  clients := (hsub.map _).nodup h.clients

end Ledger

/-! ## The server keeps its ledger -/

def Server.limit (v : Server) : Limit → Int
  | .globalConnections => v.globalConnections
  | .qRunnerLocal => v.qRunnerLocal
  | .qRunnerSlow => v.qRunnerSlow

def Server.ledger (v : Server) : Ledger where
  children := v.procStab
  limit := v.limit
  socket := v.ssCount
  records := v.cinfoStab.map fun x => (x.1, x.2.cSin, x.2.cProcTotal)
  fresh := v.fresh

theorem mem_addrs {v : Server} {a : Nat} : a ∈ v.ledger.addrs ↔ a ∈ v.cinfoStab.map Prod.fst := by
  unfold Server.ledger Ledger.addrs
  rw [List.map_map]
  exact Iff.rfl

section Writes

variable {v : Server} {live : List Nat}

theorem Server.limit_addLimit (delta : Int) (l : Limit) :
    (v.addLimit delta (some l)).limit = fun i => v.limit i + if some l = some i then delta else 0 := by
  funext i
  cases l <;> cases i <;> simp [Server.addLimit, Server.limit]

theorem addLimit_procStab (delta : Int) (l : Option Limit) : (v.addLimit delta l).procStab = v.procStab := by
  rcases l with _ | (_ | _ | _) <;> rfl

theorem addLimit_cinfoStab (delta : Int) (l : Option Limit) : (v.addLimit delta l).cinfoStab = v.cinfoStab := by
  rcases l with _ | (_ | _ | _) <;> rfl

theorem addLimit_ssCount (delta : Int) (l : Option Limit) : (v.addLimit delta l).ssCount = v.ssCount := by
  rcases l with _ | (_ | _ | _) <;> rfl

theorem addLimit_fresh (delta : Int) (l : Option Limit) : (v.addLimit delta l).fresh = v.fresh := by
  rcases l with _ | (_ | _ | _) <;> rfl

theorem modCinfo_addrs (stab : List (Nat × ConnectionInfo)) (a : Nat) (f : ConnectionInfo → ConnectionInfo) :
    (modCinfo stab a f).map Prod.fst = stab.map Prod.fst := by
  unfold modCinfo
  rw [List.map_map]
  refine List.map_congr_left fun x _ => ?_
  by_cases hx : x.1 = a <;> simp [hx]

/-- The records after one is written that counts `delta` more children. -/
theorem records_modCinfo (stab : List (Nat × ConnectionInfo)) (a : Nat) {f : ConnectionInfo → ConnectionInfo}
    {delta : Int} (hf : ∀ c, (f c).cSin = c.cSin ∧ (f c).cProcTotal = c.cProcTotal + delta) :
    ((modCinfo stab a f).map fun x => (x.1, x.2.cSin, x.2.cProcTotal)) =
      (stab.map fun x => (x.1, x.2.cSin, x.2.cProcTotal)).map fun x =>
        (x.1, x.2.1, x.2.2 + if some a = some x.1 then delta else 0) := by
  unfold modCinfo
  rw [List.map_map, List.map_map]
  refine List.map_congr_left fun x _ => ?_
  by_cases hx : x.1 = a
  · simp [hx, hf]
  · have hne : ¬ a = x.1 := fun h => hx h.symm
    simp [hx, hne]

theorem wlp_modCinfo {a : Nat} {f : ConnectionInfo → ConnectionInfo} {Q : PUnit → Server → List Nat → Prop}
    (ha : a ∈ v.ledger.addrs) (hQ : Q ⟨⟩ { v with cinfoStab := modCinfo v.cinfoStab a f } live) :
    (Faulty.update (Server.modCinfo a f) : ServerProg PUnit).wlp serverWorld False Q v live := by
  have hsome : v.modCinfo a f = some { v with cinfoStab := modCinfo v.cinfoStab a f } :=
    if_pos (mem_addrs.mp ha)
  refine Faulty.wlp_update.mpr ⟨fun hnone => ?_, fun v' hv' => ?_⟩
  · rw [hsome] at hnone
    cases hnone
  · rw [hsome] at hv'
    cases hv'
    exact hQ

theorem gettimeofday_spec : gettimeofday.wlp serverWorld False
    (fun _ v' l => (∃ now, v' = { v with tvNow := now }) ∧ l = live) v live := by
  unfold gettimeofday
  simp only [Faulty.wlp_bind, Faulty.wlp_get, ask, Faulty.wlp_ask]
  rintro reading t rfl
  cases simtaGettimeofday v.tvNow reading with
  | none => exact (Faulty.wlp_pure _).mpr ⟨⟨v.tvNow, rfl⟩, rfl⟩
  | some now => exact (Faulty.wlp_bind _ _).mpr ⟨⟨now, rfl⟩, rfl⟩

end Writes

/-! ### Children that end -/

/-- The server without a child, which its limit does not count any longer. -/
def Server.without (p : ProcType) (v : Server) : Server :=
  { v with procStab := v.procStab.erase p }.addLimit (-1) p.pLimit

section Ended

variable {v : Server} {p : ProcType} {live : List Nat}

theorem Wired.without (h : v.ledger.Wired) : (v.without p).ledger.Wired := by
  intro q hq
  unfold Server.without Server.ledger at hq ⊢
  rw [addLimit_procStab] at hq
  rw [addLimit_cinfoStab]
  exact h q (List.mem_of_mem_erase hq)

theorem records_skip (rs : List (Nat × Nat × Int)) (delta : Int) (hp : p.pCinfo = none) :
    (rs.map fun x => (x.1, x.2.1, x.2.2 + if p.pCinfo = some x.1 then delta else 0)) = rs := by
  rw [hp]
  simp

/-- A runner is counted nowhere else. -/
theorem ledger_without (hw : p.Wired v.ledger.addrs) (ht : p.pType ≠ .receive) :
    (v.without p).ledger = v.ledger.leave p := by
  have hss : p.pSs = none := Option.not_isSome_iff_eq_none.mp (hw.socket.not.mpr ht)
  have hcinfo : p.pCinfo = none := Option.not_isSome_iff_eq_none.mp (hw.record.not.mpr ht)
  unfold Server.without Server.ledger Ledger.leave Ledger.count
  rw [hw.limit, addLimit_procStab, addLimit_cinfoStab, addLimit_ssCount, addLimit_fresh, Server.limit_addLimit,
    records_skip _ _ hcinfo]
  simp [hss]
  rfl

theorem receiveExited_spec (hw : p.Wired v.ledger.addrs) (ht : p.pType = .receive) :
    (receiveExited p).wlp serverWorld False (fun _ v' l => v'.ledger = v.ledger.leave p ∧ l = live) (v.without p)
      live := by
  obtain ⟨ss, hss⟩ := Option.isSome_iff_exists.mp (hw.socket.mpr ht)
  obtain ⟨a, hcinfo⟩ := Option.isSome_iff_exists.mp (hw.record.mpr ht)
  unfold receiveExited
  rw [hss, hcinfo]
  simp only [Faulty.wlp_bind, Faulty.wlp_modify]
  refine wlp_modCinfo ?_ ⟨?_, rfl⟩
  · have ha := mem_addrs.mp (hw.addr a hcinfo)
    refine mem_addrs.mpr ?_
    unfold Server.without Server.addSs
    rwa [addLimit_cinfoStab]
  · unfold Server.without Server.addSs Server.ledger Ledger.leave Ledger.count
    rw [hw.limit, hss, hcinfo]
    ext1
    · exact addLimit_procStab ..
    · exact Server.limit_addLimit ..
    · funext i
      simp only [addLimit_ssCount, Option.some.injEq, eq_comm (a := ss)]
      by_cases hi : i = ss <;> simp [hi]
    · simp only [addLimit_cinfoStab]
      exact records_modCinfo _ _ fun c => ⟨rfl, rfl⟩
    · exact addLimit_fresh ..

theorem exitedReads_eq (hw : p.Wired v.ledger.addrs) : exitedReads p = pure ⟨⟩ := by
  unfold exitedReads
  rw [if_neg]
  rintro (h | ⟨ht, hhost⟩)
  · rw [hw.limit] at h
    cases h
  · have hsome := hw.host ht
    rw [hhost] at hsome
    cases hsome

/-- A child that exits is taken out of the ledger, with or without an error. -/
theorem childExited_spec (hw : p.Wired v.ledger.addrs) (status : Int) :
    (childExited p status).wlp serverWorld False
      (fun n v' l => v'.ledger = v.ledger.leave p ∧ l = live ∧ ∀ k, n = some k → 0 ≤ k) (v.without p) live := by
  have hnum : ∀ k, some (if status ≠ 0 then (1 : Int) else 0) = some k → 0 ≤ k := by
    rintro k ⟨⟩
    split_ifs <;> decide
  unfold childExited
  rw [exitedReads_eq hw]
  by_cases ht : p.pType = .receive
  · rw [if_pos ht]
    refine Faulty.wlp_seq (receiveExited_spec hw ht) ?_
    rintro - v' l ⟨hv, rfl⟩
    exact ⟨hv, rfl, hnum⟩
  rw [if_neg ht]
  by_cases hleaky : p.pType = .qSlow ∧ status = simtaExitOkLeaky
  · rw [if_pos hleaky]
    obtain ⟨host, hhost⟩ := Option.isSome_iff_exists.mp (hw.host hleaky.1)
    unfold requeueHost
    rw [hhost]
    simp only [Faulty.wlp_bind, ask, Faulty.wlp_ask]
    rintro ret t rfl
    by_cases hret : ret ≠ 0
    · rw [if_pos hret]
      exact ⟨ledger_without hw ht, rfl, fun k hk => by cases hk⟩
    · rw [if_neg hret]
      exact ⟨ledger_without hw ht, rfl, fun k hk => by cases hk; exact le_rfl⟩
  · rw [if_neg hleaky]
    exact ⟨ledger_without hw ht, rfl, hnum⟩

end Ended

/-- The loop takes the children that have ended out of the ledger, unless it returns an error. -/
theorem waitpidLoop_spec {live : List Nat} (ended : List (Nat × WaitStatus)) :
    ∀ (errors : Int) (v : Server), 0 ≤ errors → v.ledger.Wired →
      (errors = 0 → v.ledger.Right (ended.map Prod.fst ++ live)) →
      (waitpidLoop ended errors).wlp serverWorld False
        (fun n v' l => n = 0 → v'.ledger.Right l ∧ v'.procStab.Sublist v.procStab) v live := by
  induction ended with
  | nil => exact fun errors v _ _ hright h => ⟨hright h, List.Sublist.refl _⟩
  | cons x rest ih =>
    obtain ⟨pid, status⟩ := x
    intro errors v herrors hwired hright
    rw [waitpidLoop]
    simp only [Faulty.wlp_bind, Faulty.wlp_get]
    cases hfind : v.procStab.find? fun p => p.pId = pid with
    | none => exact ih _ v (by omega) hwired fun h => by omega
    | some p =>
      have hp : p ∈ v.procStab := List.mem_of_find?_eq_some hfind
      have hpid : p.pId = pid := by simpa using List.find?_some hfind
      have hw := hwired p hp
      have hless : (v.procStab.erase p).Sublist v.procStab := List.erase_sublist
      simp only [Faulty.wlp_bind, Faulty.wlp_modify]
      cases status with
      | other =>
        refine Faulty.wlp_mono ?_ (ih (errors + 1) (v.without p) (by omega) (Wired.without hwired) fun h => by omega)
        intro n v' l h hn
        exact ⟨(h hn).1, (h hn).2.trans ((addLimit_procStab ..).symm ▸ hless)⟩
      | exited status =>
        simp only [Faulty.wlp_bind]
        refine Faulty.wlp_mono ?_ (childExited_spec hw status)
        rintro n v' l ⟨hv, rfl, hn⟩
        cases n with
        | none => exact fun h => by cases h
        | some k =>
          have hk := hn k rfl
          have hprocs : v'.procStab = v.procStab.erase p := congrArg Ledger.children hv
          refine Faulty.wlp_mono ?_ (ih (errors + k) v' (by omega) (hv ▸ hwired.leave) fun h => ?_)
          · exact fun n u l h hn => ⟨(h hn).1, (h hn).2.trans (hprocs ▸ hless)⟩
          · rw [hv]
            refine Ledger.Right.leave ?_ hp
            rw [hpid]
            exact hright (by omega)

/-- The children are those that have ended and those that are left. -/
theorem reaped_perm {live es : List Nat} (hlive : live.Nodup) (hes : es.Nodup) (hsub : ∀ x ∈ es, x ∈ live) :
    live.Perm (es ++ live.filter fun x => x ∉ es) := by
  have hnodup : (es ++ live.filter fun x => x ∉ es).Nodup := by
    refine hes.append (hlive.filter _) fun x hx hx' => ?_
    exact of_decide_eq_true (List.mem_filter.mp hx').2 hx
  refine (List.perm_ext_iff_of_nodup hlive hnodup).mpr fun x => ?_
  rw [List.mem_append, List.mem_filter, decide_eq_true_iff]
  exact ⟨fun hx => (em (x ∈ es)).imp id fun hn => ⟨hx, hn⟩, fun h => h.elim (hsub x) And.left⟩

theorem daemonWaitpid_spec {v : Server} {live : List Nat} (h : v.ledger.Right live) :
    daemonWaitpid.wlp serverWorld False
      (fun n v' l => n = 0 → v'.ledger.Right l ∧ v'.procStab.Sublist v.procStab) v live := by
  unfold daemonWaitpid
  refine Faulty.wlp_seq gettimeofday_spec ?_
  rintro b v' l ⟨⟨now, rfl⟩, rfl⟩
  cases b with
  | false => exact fun h => by cases h
  | true =>
    simp only [if_true, Faulty.wlp_bind, ask, Faulty.wlp_ask]
    rintro ended live' ⟨hnodup, hmem, rfl⟩
    refine waitpidLoop_spec ended 0 { v with tvNow := now } le_rfl h.wired fun _ => ?_
    have hperm := reaped_perm h.nodup hnodup fun x hx => by
      obtain ⟨y, hy, rfl⟩ := List.mem_map.mp hx
      exact hmem y hy
    exact { h with pids := h.pids.trans hperm, nodup := hperm.nodup_iff.mp h.nodup }

/-! ### New children -/

section Entered

variable {v : Server} {live : List Nat}

/-- The new child of a step that returns 0, which fork has made. -/
def Entered (v : Server) (live : List Nat) (t : ProcessType) (host : Option Text) (n : Int) (v' : Server)
    (live' : List Nat) : Prop :=
  n = 0 → ∃ p, p.Wired v.ledger.addrs ∧ p.pType = t ∧ p.pHost = host ∧ p.pId ∉ live ∧ v'.ledger = v.ledger.enter p ∧
    live' = p.pId :: live

theorem simtaProcAdd_spec (t : ProcessType) (pid : Nat) :
    (simtaProcAdd t pid).wlp serverWorld False (fun b v' l => l = live ∧ (b = true → ∃ tv,
      v' = { v with procStab := { pTv := tv, pId := pid, pType := t } :: v.procStab })) v live := by
  unfold simtaProcAdd
  simp only [Faulty.wlp_bind, ask, Faulty.wlp_ask]
  rintro b t rfl
  cases b with
  | false => exact ⟨rfl, fun h => by cases h⟩
  | true => exact (Faulty.wlp_bind _ _).mpr ⟨rfl, fun _ => ⟨_, rfl⟩⟩

/-- A runner enters no other counters than that of its limit. -/
theorem ledger_runner {p : ProcType} {l : Limit} (hlimit : p.pLimit = some l) (hss : p.pSs = none)
    (hcinfo : p.pCinfo = none) {v' : Server}
    (hv' : v' = { v.addLimit 1 (some l) with procStab := p :: v.procStab }) : v'.ledger = v.ledger.enter p := by
  subst hv'
  unfold Server.ledger Ledger.enter Ledger.count
  rw [records_skip _ _ hcinfo, hlimit]
  ext1
  · rfl
  · exact Server.limit_addLimit ..
  · simp [addLimit_ssCount, hss]
  · simp [addLimit_cinfoStab]
  · exact addLimit_fresh ..

theorem simtaProcQRunner_spec {pid : Nat} (hpid : pid ∉ live) (hq : Option Text) :
    (simtaProcQRunner pid hq).wlp serverWorld False
      (Entered v live (if hq = none then .qLocal else .qSlow) hq) v (pid :: live) := by
  unfold simtaProcQRunner
  cases hq with
  | none =>
    simp only
    refine Faulty.wlp_seq (simtaProcAdd_spec _ _) ?_
    rintro b v' l ⟨rfl, hb⟩
    cases b with
    | false => exact fun h => by cases h
    | true =>
      obtain ⟨tv, rfl⟩ := hb rfl
      simp only [if_true, modNew, Faulty.wlp_bind, Faulty.wlp_modify]
      intro _
      exact ⟨{ pTv := tv, pId := pid, pType := .qLocal, pLimit := some .qRunnerLocal },
        ⟨rfl, by simp, by simp, by simp, by simp⟩, rfl, rfl, hpid, ledger_runner rfl rfl rfl rfl, rfl⟩
  | some host =>
    simp only
    refine Faulty.wlp_seq (simtaProcAdd_spec _ _) ?_
    rintro b v' l ⟨rfl, hb⟩
    cases b with
    | false => exact fun h => by cases h
    | true =>
      obtain ⟨tv, rfl⟩ := hb rfl
      simp only [if_true, modNew, Faulty.wlp_bind, Faulty.wlp_modify, ask, Faulty.wlp_ask]
      rintro b t rfl
      cases b with
      | false => exact fun h => by cases h
      | true =>
        simp only [if_true, Faulty.wlp_bind, Faulty.wlp_modify]
        intro _
        exact ⟨{ pTv := tv, pId := pid, pType := .qSlow, pHost := some host, pLimit := some .qRunnerSlow },
          ⟨rfl, by simp, by simp, by simp, by simp⟩, rfl, rfl, hpid, ledger_runner rfl rfl rfl rfl, rfl⟩

/-- The server forks a runner. -/
theorem simtaChildQRunner_spec (hq : Option Text) :
    (simtaChildQRunner hq).wlp serverWorld False (Entered v live (if hq = none then .qLocal else .qSlow) hq) v
      live := by
  unfold simtaChildQRunner
  refine Faulty.wlp_seq gettimeofday_spec ?_
  rintro b v' l ⟨⟨now, rfl⟩, rfl⟩
  cases b with
  | false => exact fun h => by cases h
  | true =>
    simp only [if_true, Faulty.wlp_bind, ask, Faulty.wlp_ask]
    intro pid t ht
    cases pid with
    | none => exact fun h => by cases h
    | some pid =>
      obtain ⟨hpid, rfl⟩ := ht
      exact simtaProcQRunner_spec hpid hq

/-- The client has a record after the lookup, and the ledger is as right as before. -/
theorem lookupCinfo_spec (h : v.ledger.Right live) (sin : Nat) :
    (lookupCinfo sin).wlp serverWorld False
      (fun r v' l => l = live ∧ v'.ledger.Right live ∧ v'.ledger.children = v.ledger.children ∧
        ∀ a, r = some a → a ∈ v'.ledger.addrs) v live := by
  unfold lookupCinfo
  simp only [Faulty.wlp_bind, Faulty.wlp_get]
  cases hfind : v.cinfoStab.find? fun x => x.2.cSin = sin with
  | some x =>
    refine ⟨rfl, h, rfl, fun a ha => ?_⟩
    cases ha
    exact mem_addrs.mpr (List.mem_map_of_mem (List.mem_of_find?_eq_some hfind))
  | none =>
    simp only [Faulty.wlp_bind, ask, Faulty.wlp_ask]
    rintro b t rfl
    cases b with
    | false => exact ⟨rfl, h, rfl, fun a ha => by cases ha⟩
    | true =>
      simp only [if_true, Faulty.wlp_bind, Faulty.wlp_modify]
      have hnew : sin ∉ v.ledger.records.map fun x => x.2.1 := by
        intro hmem
        obtain ⟨y, hy, hsin⟩ := List.mem_map.mp hmem
        obtain ⟨x, hx, rfl⟩ := List.mem_map.mp hy
        exact List.find?_eq_none.mp hfind x hx (decide_eq_true hsin)
      refine ⟨rfl, h.register hnew, rfl, fun a ha => ?_⟩
      cases ha
      exact List.mem_cons_self ..

/-- What a record counts for the throttle is not in the ledger. -/
theorem throttleCinfo_same (conf : ServerConf) (now : Timeval) (c : ConnectionInfo) :
    (throttleCinfo conf now c).cSin = c.cSin ∧ (throttleCinfo conf now c).cProcTotal = c.cProcTotal + 0 := by
  unfold throttleCinfo
  split_ifs <;> exact ⟨rfl, (Int.add_zero _).symm⟩

theorem throttleGlobal_ledger (conf : ServerConf) (v : Server) : (throttleGlobal conf v).ledger = v.ledger := by
  unfold throttleGlobal
  split_ifs <;> rfl

/-- The child that receives from a client. -/
def receiver (tv : Timeval) (ss sin a pid : Nat) : ProcType where
  pTv := tv
  pSs := some ss
  pCinfo := some a
  pId := pid
  pType := .receive
  pHost := some (inetNtoa sin)
  pLimit := some .globalConnections

theorem receiveFork_spec (ss sin a : Nat) :
    (receiveFork ss sin a).wlp serverWorld False (fun n v' l => n = 0 → ∃ tv pid, pid ∉ live ∧ l = pid :: live ∧
      v' = { v.addSs ss 1 with procStab := receiver tv ss sin a pid :: v.procStab }) v live := by
  unfold receiveFork
  simp only [Faulty.wlp_bind, ask, Faulty.wlp_ask]
  intro pid t ht
  cases pid with
  | none => exact fun h => by cases h
  | some pid =>
    obtain ⟨hpid, rfl⟩ := ht
    simp only [Faulty.wlp_bind, Faulty.wlp_ask]
    rintro closed t rfl
    cases closed with
    | false => exact fun h => by cases h
    | true =>
      simp only [if_true, Faulty.wlp_bind]
      refine Faulty.wlp_mono ?_ (simtaProcAdd_spec _ _)
      rintro b v' l ⟨rfl, hb⟩
      cases b with
      | false => exact fun h => by cases h
      | true =>
        obtain ⟨tv, rfl⟩ := hb rfl
        simp only [if_true, modNew, Faulty.wlp_bind, Faulty.wlp_modify, Faulty.wlp_ask]
        rintro b t rfl
        cases b with
        | false => exact fun h => by cases h
        | true =>
          simp only [if_true, Faulty.wlp_bind, Faulty.wlp_modify, Faulty.wlp_pure]
          exact fun _ => ⟨tv, pid, hpid, rfl, rfl⟩

/-- What the ledger is told before the child is made. -/
def Ledger.announce (a : Nat) (l : Ledger) : Ledger :=
  { l with
    limit := fun i => l.limit i + if some Limit.globalConnections = some i then 1 else 0
    records := l.records.map fun x => (x.1, x.2.1, x.2.2 + if some a = some x.1 then 1 else 0) }

/-- The child completes what has been announced. -/
theorem ledger_receiver {u : Server} {tv : Timeval} {ss sin a pid : Nat} (hu : u.ledger = v.ledger.announce a) :
    ({ u.addSs ss 1 with procStab := receiver tv ss sin a pid :: u.procStab } : Server).ledger =
      v.ledger.enter (receiver tv ss sin a pid) := by
  have hprocs : u.procStab = v.procStab := congrArg Ledger.children hu
  have hlimit : u.limit = (v.ledger.announce a).limit := congrArg Ledger.limit hu
  have hsocket : u.ssCount = v.ssCount := congrArg Ledger.socket hu
  have hrecords : u.ledger.records = (v.ledger.announce a).records := congrArg Ledger.records hu
  have hfresh : u.fresh = v.fresh := congrArg Ledger.fresh hu
  ext1
  · exact congrArg (receiver tv ss sin a pid :: ·) hprocs
  · exact hlimit
  · funext i
    simp only [Server.ledger, Server.addSs, Ledger.enter, Ledger.count, receiver, hsocket, Option.some.injEq]
    by_cases hi : i = ss
    · simp [hi]
    · simp [hi, Ne.symm hi]
  · exact hrecords
  · exact hfresh

/-- What the throttle writes makes no difference to the ledger. -/
theorem records_announced (conf : ServerConf) (now : Timeval) (a : Nat) (stab : List (Nat × ConnectionInfo)) :
    ((modCinfo (modCinfo stab a fun c => { c with cProcTotal := c.cProcTotal + 1 }) a (throttleCinfo conf now)).map
      fun x => (x.1, x.2.cSin, x.2.cProcTotal)) =
    (stab.map fun x => (x.1, x.2.cSin, x.2.cProcTotal)).map fun x =>
      (x.1, x.2.1, x.2.2 + if some a = some x.1 then 1 else 0) := by
  rw [records_modCinfo _ a (throttleCinfo_same conf now),
    records_modCinfo stab a (f := fun c => { c with cProcTotal := c.cProcTotal + 1 }) fun c => ⟨rfl, rfl⟩]
  simp

theorem receiveFrom_spec (conf : ServerConf) (ss sin : Nat) {a : Nat} (ha : a ∈ v.ledger.addrs) :
    (receiveFrom conf ss sin a).wlp serverWorld False (Entered v live .receive (some (inetNtoa sin))) v live := by
  unfold receiveFrom
  simp only [Faulty.wlp_bind, Faulty.wlp_modify]
  refine wlp_modCinfo ha ?_
  refine Faulty.wlp_mono ?_ gettimeofday_spec
  rintro b v' l ⟨⟨now, rfl⟩, rfl⟩
  cases b with
  | false => exact fun h => by cases h
  | true =>
    simp only [if_true, Faulty.wlp_bind, Faulty.wlp_get, Faulty.wlp_modify]
    refine wlp_modCinfo ?_ ?_
    · refine mem_addrs.mpr ?_
      simp only [Server.addLimit, modCinfo_addrs]
      exact mem_addrs.mp ha
    · refine Faulty.wlp_mono ?_ (receiveFork_spec ss sin a)
      rintro n v' l' h rfl
      obtain ⟨tv, pid, hpid, rfl, rfl⟩ := h rfl
      refine ⟨receiver tv ss sin a pid, ⟨rfl, ?_, ?_, ?_, ?_⟩, rfl, rfl, hpid, ?_, rfl⟩
      · simp [receiver]
      · simp [receiver]
      · simp [receiver]
      · simp [receiver, ha]
      · refine ledger_receiver ?_
        rw [throttleGlobal_ledger]
        unfold Ledger.announce Server.ledger
        ext1
        · rfl
        · exact Server.limit_addLimit 1 .globalConnections
        · rfl
        · exact records_announced conf now a v.cinfoStab
        · rfl

end Entered

/-! ## Runs of the loop -/

/-- A runner for the queue of a host. -/
def ProcType.ForHost (p : ProcType) : Prop := p.pType = .qSlow ∧ p.pHost ≠ some unexpandedName

instance (p : ProcType) : Decidable p.ForHost := inferInstanceAs (Decidable (_ ∧ _))

/-- A step takes children out of the table, or enters one within the limits. -/
def Grown (conf : ServerConf) (v v' : Server) : Prop :=
  v'.procStab.Sublist v.procStab ∨ ∃ p, v'.procStab = p :: v.procStab ∧
    (p.pType = .qLocal → v.qRunnerLocal < conf.qRunnerLocalMax) ∧
    (p.ForHost → conf.qRunnerSlowMax = 0 ∨ v.qRunnerSlow < conf.qRunnerSlowMax)

theorem Grown.refl (conf : ServerConf) (v : Server) : Grown conf v v := .inl (List.Sublist.refl _)

section Steps

variable {conf : ServerConf} {v v' : Server} {live live' : List Nat}

theorem Entered.right {t : ProcessType} {host : Option Text} {n : Int} (h : v.ledger.Right live)
    (he : Entered v live t host n v' live') (hn : n = 0) : v'.ledger.Right live' ∧
      ∃ p, v'.procStab = p :: v.procStab ∧ p.pType = t ∧ p.pHost = host := by
  obtain ⟨p, hp, ht, hhost, hpid, hv, rfl⟩ := he hn
  rw [hv]
  exact ⟨h.enter hp hpid, p, congrArg Ledger.children hv, ht, hhost⟩

theorem simtaChildReceive_spec (h : v.ledger.Right live) (ss : Nat) :
    (simtaChildReceive conf ss).wlp serverWorld False (fun n v' l => n = 0 → v'.ledger.Right l ∧ Grown conf v v') v
      live := by
  unfold simtaChildReceive
  simp only [Faulty.wlp_bind, ask, Faulty.wlp_ask]
  rintro client t rfl
  cases client with
  | none => exact fun _ => ⟨h, .refl conf v⟩
  | some sin =>
    simp only [Faulty.wlp_bind]
    refine Faulty.wlp_mono ?_ (lookupCinfo_spec h sin)
    rintro a u l ⟨rfl, hu, hchildren, ha⟩
    cases a with
    | none => exact fun h => by cases h
    | some a =>
      refine Faulty.wlp_mono ?_ (receiveFrom_spec conf ss sin (ha a rfl))
      intro n v' l' he hn
      obtain ⟨hright, p, hp, ht, -⟩ := he.right hu hn
      refine ⟨hright, .inr ⟨p, hp.trans (congrArg (p :: ·) hchildren), fun h => ?_, fun h => ?_⟩⟩
      · rw [ht] at h
        cases h
      · have h' := h.1
        rw [ht] at h'
        cases h'

theorem cleanThrottleTable_spec (h : v.ledger.Right live) :
    (cleanThrottleTable conf).wlp serverWorld False (fun n v' l => n = 0 → v'.ledger.Right l ∧ Grown conf v v') v
      live := by
  unfold cleanThrottleTable
  refine Faulty.wlp_seq gettimeofday_spec ?_
  rintro b u l ⟨⟨now, rfl⟩, rfl⟩
  cases b with
  | false => exact fun h => by cases h
  | true =>
    simp only [if_true, Faulty.wlp_bind, Faulty.wlp_modify]
    refine fun _ => ⟨h.prune ?_ ?_, .refl conf v⟩
    · exact List.filter_sublist.map _
    · intro y hy hne
      obtain ⟨x, hx, rfl⟩ := List.mem_map.mp hy
      exact List.mem_map_of_mem (List.mem_filter.mpr ⟨hx, decide_eq_true fun hc => hne hc.1⟩)

/-- **A step** keeps the ledger right and the limits, and does not fault. -/
theorem step_spec (h : v.ledger.Right live) (s : ServerStep) :
    (s.prog conf).wlp serverWorld False (fun n v' l => n = 0 → v'.ledger.Right l ∧ Grown conf v v') v live := by
  cases s with
  | localRunner =>
    simp only [ServerStep.prog, Faulty.wlp_bind, ask, Faulty.wlp_ask]
    rintro signal t rfl
    cases signal with
    | false => exact fun _ => ⟨h, .refl conf v⟩
    | true =>
      simp only [if_true, Faulty.wlp_bind, Faulty.wlp_get]
      by_cases hmax : v.qRunnerLocal < conf.qRunnerLocalMax
      · rw [if_pos hmax]
        refine Faulty.wlp_mono ?_ (simtaChildQRunner_spec none)
        intro n v' l he hn
        obtain ⟨hright, p, hp, ht, -⟩ := he.right h hn
        refine ⟨hright, .inr ⟨p, hp, fun _ => hmax, fun hh => ?_⟩⟩
        have hh' := hh.1
        rw [ht] at hh'
        cases hh'
      · rw [if_neg hmax]
        exact fun _ => ⟨h, .refl conf v⟩
  | waitpid =>
    exact Faulty.wlp_mono (fun n v' l hv hn => ⟨(hv hn).1, .inl (hv hn).2⟩) (daemonWaitpid_spec h)
  | unexpanded =>
    refine Faulty.wlp_mono ?_ (simtaChildQRunner_spec (some unexpandedName))
    intro n v' l he hn
    obtain ⟨hright, p, hp, ht, hhost⟩ := he.right h hn
    refine ⟨hright, .inr ⟨p, hp, fun hh => ?_, fun hh => absurd hhost hh.2⟩⟩
    rw [ht] at hh
    cases hh
  | launch host =>
    simp only [ServerStep.prog, Faulty.wlp_bind, Faulty.wlp_get]
    by_cases hmax : conf.qRunnerSlowMax ≠ 0 ∧ conf.qRunnerSlowMax ≤ v.qRunnerSlow
    · rw [if_pos hmax]
      exact fun _ => ⟨h, .refl conf v⟩
    · rw [if_neg hmax]
      refine Faulty.wlp_mono ?_ (simtaChildQRunner_spec (some host))
      intro n v' l he hn
      obtain ⟨hright, p, hp, ht, -⟩ := he.right h hn
      refine ⟨hright, .inr ⟨p, hp, fun hh => ?_, fun _ => by omega⟩⟩
      rw [ht] at hh
      cases hh
  | clean => exact cleanThrottleTable_spec h
  | receive ss => exact simtaChildReceive_spec h ss

theorem right_start (now : Timeval) : ({ tvNow := now } : Server).ledger.Right [] where
  wired := by
    rintro p hp
    cases hp
  pids := .nil
  nodup := List.nodup_nil
  limit i := by cases i <;> rfl
  socket _ := rfl
  total := by
    rintro x hx
    cases hx
  addrs := List.nodup_nil
  below := by
    rintro a ha
    cases ha
  clients := List.nodup_nil

theorem ServerRun.right (hr : ServerRun conf v live) : v.ledger.Right live := by
  induction hr with
  | start now => exact right_start now
  | step hr s hrun ih => exact ((Faulty.wlp_iff_runs.mp (step_spec ih s)).1 _ _ _ hrun rfl).1

/-- The counters are those of the types. -/
theorem limit_eq (h : v.ledger.Right live) (t : ProcessType) :
    v.limit (ProcessType.limit t) = v.procStab.countP fun p => p.pType = t := by
  refine (h.limit _).trans (congrArg Nat.cast (List.countP_congr fun p hp => ?_))
  rw [decide_eq_true_iff, decide_eq_true_iff, (h.wired p hp).limit, Option.some.injEq]
  exact ⟨limit_injective, congrArg ProcessType.limit⟩

/-- The numbers of runners are within the limits. -/
def Limited (conf : ServerConf) (v : Server) : Prop :=
  ((v.procStab.countP fun p => p.pType = .qLocal : Nat) : Int) ≤ max 0 conf.qRunnerLocalMax ∧
    (conf.qRunnerSlowMax ≠ 0 → ((v.procStab.countP fun p => p.ForHost : Nat) : Int) ≤ max 0 conf.qRunnerSlowMax)

theorem Limited.grown (hl : Limited conf v) (h : v.ledger.Right live) (hg : Grown conf v v') : Limited conf v' := by
  rcases hg with hsub | ⟨p, hp, hlocal, hhost⟩
  · have hless := fun P => Int.ofNat_le.mpr (hsub.countP_le (p := P))
    exact ⟨(hless _).trans hl.1, fun hmax => (hless _).trans (hl.2 hmax)⟩
  have hruns : v.qRunnerLocal = v.procStab.countP fun p => p.pType = .qLocal := limit_eq h .qLocal
  have hslow : v.qRunnerSlow = v.procStab.countP fun p => p.pType = .qSlow := limit_eq h .qSlow
  have hsome : v.procStab.countP (fun p => p.ForHost) ≤ v.procStab.countP fun p => p.pType = .qSlow :=
    List.countP_mono_left fun q _ hq => decide_eq_true (of_decide_eq_true hq).1
  unfold Limited
  rw [hp, Ledger.countP_enter, Ledger.countP_enter]
  refine ⟨?_, fun hmax => ?_⟩
  · have hold := hl.1
    by_cases ht : p.pType = .qLocal
    · have hroom := hlocal ht
      simp only [ht, decide_true, if_true]
      omega
    · simp only [ht, decide_false, Bool.false_eq_true, if_false]
      omega
  · have hold := hl.2 hmax
    by_cases ht : p.ForHost
    · have hroom := (hhost ht).resolve_left hmax
      simp only [ht, decide_true, if_true]
      omega
    · simp only [ht, decide_false, Bool.false_eq_true, if_false]
      omega

theorem ServerRun.limited (hr : ServerRun conf v live) : Limited conf v := by
  induction hr with
  | start now => exact ⟨Int.le_max_left 0 _, fun _ => Int.le_max_left 0 _⟩
  | step hr s hrun ih => exact ih.grown hr.right ((Faulty.wlp_iff_runs.mp (step_spec hr.right s)).1 _ _ _ hrun rfl).2

end Steps

/-- **The accounts of the server.**  Whenever the loop comes round, the table has the children that are not reaped,
    each counter is the number of the children of its type, its socket or its client, and no child has the record of
    a client that is freed; and no step of the loop follows a pointer that leads nowhere. -/
theorem server_accounts {conf : ServerConf} {v : Server} {live : List Nat} (hr : ServerRun conf v live) :
    v.ledger.Right live ∧ (∀ t, v.limit (ProcessType.limit t) = v.procStab.countP fun p => p.pType = t) ∧
      ∀ s : ServerStep, ¬ (s.prog conf).Faults serverWorld v live :=
  ⟨hr.right, limit_eq hr.right, fun s => (Faulty.wlp_iff_runs.mp (step_spec hr.right s)).2⟩

/-- **The limits of the runners.**  There are never more runners of the local directory than its maximum, and never
    more runners for the queues of hosts than theirs, where that is not 0; the runners of the unexpanded queue count
    against the maximum but are not held to it. -/
theorem runners_limited {conf : ServerConf} {v : Server} {live : List Nat} (hr : ServerRun conf v live) :
    ((v.procStab.countP fun p => p.pType = .qLocal : Nat) : Int) ≤ max 0 conf.qRunnerLocalMax ∧
      (conf.qRunnerSlowMax ≠ 0 → ((v.procStab.countP fun p => p.ForHost : Nat) : Int) ≤ max 0 conf.qRunnerSlowMax) :=
  hr.limited

/-! ### A run -/

/-- Every call succeeds; a client connects, and the youngest child has ended. -/
def calmServer : Prog.Handler ServerOp ServerAns (List Nat)
  | .gettimeofday, live => (some .zero, live)
  | .signal, live => (true, live)
  | .accept _, live => (some 5, live)
  | .malloc, live => (true, live)
  | .fork, live => (some (live.foldr max 0 + 1), (live.foldr max 0 + 1) :: live)
  | .close, live => (true, live)
  | .strdup, live => (true, live)
  | .waitpid, [] => ([], [])
  | .waitpid, pid :: live => ([(pid, .exited 0)], (pid :: live).filter fun p => p ∉ [pid])
  | .requeue _, live => (0, live)

theorem calmServer_allowed (op : ServerOp) (live : List Nat) :
    serverWorld op live (calmServer op live).1 (calmServer op live).2 := by
  cases op with
  | fork =>
    refine ⟨fun hmem => ?_, rfl⟩
    exact absurd (List.le_max_of_le' 0 hmem le_rfl) (by omega)
  | waitpid =>
    cases live with
    | nil => exact ⟨List.nodup_nil, by simp [calmServer], rfl⟩
    | cons pid live => exact ⟨List.nodup_singleton _, by simp [calmServer], rfl⟩
  | _ => rfl

/-- The steps, as long as they return 0. -/
def calmRun (conf : ServerConf) : List ServerStep → Server × List Nat → Option (Server × List Nat)
  | [], x => some x
  | s :: rest, x =>
    match (s.prog conf).run calmServer x.1 x.2 with
    | (some (n, v), live) => if n = 0 then calmRun conf rest (v, live) else none
    | (none, _) => none

theorem calmRun_reached {conf : ServerConf} (steps : List ServerStep) :
    ∀ x y : Server × List Nat, ServerRun conf x.1 x.2 → calmRun conf steps x = some y → ServerRun conf y.1 y.2 := by
  induction steps with
  | nil =>
    intro x y hx h
    cases h
    exact hx
  | cons s rest ih =>
    intro x y hx h
    have hrun := Prog.runs_of_run calmServer_allowed (s.prog conf x.1) x.2
    unfold calmRun Faulty.run at h
    revert h hrun
    rcases Prog.run calmServer (s.prog conf x.1) x.2 with ⟨_ | ⟨n, v⟩, live⟩
    · exact fun _ h => by cases h
    · intro hrun h
      by_cases hn : n = 0
      · subst hn
        exact ih (v, live) y (hx.step s hrun) ((if_pos rfl).symm.trans h)
      · exact absurd ((if_neg hn).symm.trans h) (by simp)

/-- One runner for a host at most. -/
def oneRunner : ServerConf := { qRunnerSlowMax := 1 }

/-- A client has gone and another is there, one host has its runner, another waits, and the unexpanded queue runs. -/
theorem busy_run : ∃ v, ServerRun oneRunner v [3, 2, 1] ∧ v.globalConnections = 1 ∧ v.qRunnerSlow = 2 := by
  have hsome : ((calmRun oneRunner [.receive 0, .waitpid, .receive 1, .launch ['h'], .launch ['i'], .unexpanded]
      ({}, [])).map fun y => (y.2, y.1.globalConnections, y.1.qRunnerSlow)) = some ([3, 2, 1], 1, 2) := by
    decide +kernel
  obtain ⟨y, hy, heq⟩ := Option.map_eq_some_iff.mp hsome
  obtain ⟨hlive, hcounts⟩ := Prod.mk.inj heq
  obtain ⟨hconnections, hslow⟩ := Prod.mk.inj hcounts
  exact ⟨y.1, hlive ▸ calmRun_reached _ _ y (.start .zero) hy, hconnections, hslow⟩

theorem server_accounts_busy :
    ∃ v : Server, v.globalConnections = 1 ∧ v.qRunnerSlow = 2 ∧ v.ledger.Right [3, 2, 1] := by
  obtain ⟨v, hr, hconnections, hslow⟩ := busy_run
  exact ⟨v, hconnections, hslow, (server_accounts hr).1⟩

theorem runners_limited_busy : ∃ v : Server, v.qRunnerSlow = 2 ∧
    ((v.procStab.countP fun p => p.ForHost : Nat) : Int) ≤ max 0 1 := by
  obtain ⟨v, hr, -, hslow⟩ := busy_run
  exact ⟨v, hslow, (runners_limited hr).2 (by decide)⟩

end ProcTable

end Simta
