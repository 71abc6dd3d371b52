import Mathlib.Algebra.Order.BigOperators.Group.List
import Mathlib.Algebra.Order.Ring.Nat
import Mathlib.Data.List.DropRight
import Simta.Red

/-!
# Mail exchangers and the host table

The answer section that `denser` gives, and the two functions of `mx.c` that make hosts local or
secondary from it.  Both compare a preference with one read from a fixed slot of the answer, as
the first two bytes of the record's data whatever its type.

* `Rr.slotPreference` — that reading;
* `getMxTable`, `hostLocal` — `get_mx` on an answer, and `host_local`;
* `bestMx_iff` — exactly when only domains we are best exchanger for become local, and the
  secondary is returned only above the lowest preference.
-/

set_option autoImplicit false

namespace Simta

/-! ## Answers -/

/-- The data of a resource record.  `name` stands for the types whose data begins with a string (NS,
    PTR, MB, MD, MF, MG, MR, SOA, HINFO, TXT), `other` for those that are skipped. -/
inductive RrData
  | mx (preference : Nat) (exchange : Text)
  | cname (name : Text)
  | name (t : Text)
  | a (o₀ o₁ o₂ o₃ : Nat)
  | srv (priority : Nat)
  | other
  deriving DecidableEq, Repr

/-- `struct dnsr_rr`. -/
structure Rr where
  rrName : Text
  rrData : RrData
  deriving DecidableEq, Repr

/-- The first two bytes of a string and its terminator, as a `uint16_t` with the low byte first. -/
def firstBytes : Text → Nat
  | [] => 0
  | [c] => c.toNat
  | c :: d :: _ => c.toNat + 256 * d.toNat

/-- `rr_mx.mx_preference` of a record of any type: the union is read as it lies. -/
def Rr.slotPreference (rr : Rr) : Nat :=
  match rr.rrData with
  | .mx p _ => p
  | .cname n => firstBytes n
  | .name n => firstBytes n
  | .a o₀ o₁ _ _ => o₀ + 256 * o₁
  | .srv p => p
  | .other => 0

def Rr.isCname (rr : Rr) : Bool :=
  match rr.rrData with
  | .cname _ => true
  | _ => false

/-- The test of the sort of `_dnsr_create_result`: two MX records of one name, out of order. -/
def mxOutOfOrder (a b : Rr) : Bool :=
  match a.rrData, b.rrData with
  | .mx p _, .mx q _ => decide (a.rrName = b.rrName) && decide (q < p)
  | _, _ => false

/-- The inner loop: the record of the outer index, and the records behind it after the exchanges. -/
def exchange (a : Rr) : List Rr → Rr × List Rr
  | [] => (a, [])
  | b :: rest =>
    if mxOutOfOrder a b then
      let r := exchange b rest
      (r.1, a :: r.2)
    else
      let r := exchange a rest
      (r.1, b :: r.2)

/-- The outer loop, for as many records as `n` says. -/
def exchangeSort : Nat → List Rr → List Rr
  | 0, l => l
  | _, [] => []
  | n + 1, a :: rest => (exchange a rest).1 :: exchangeSort n (exchange a rest).2

/-- The exchange sort of `_dnsr_create_result`. -/
def createResult (l : List Rr) : List Rr := exchangeSort l.length l

/-! ## `get_mx` -/

/-- The globals of `mx.c`. -/
structure MxConf where
  hostname : Text
  dnsConfig : Bool
  secondaryMx : Option Text
  red : RedConf

/-- The allocations of one addition to the host table. -/
structure AddAlloc where
  host : Bool
  actions : Fin 4 → ActionAlloc

/-- Add the name of a record as a local host, unless the table has `known`. -/
def getMxAdd (conf : MxConf) (alloc : AddAlloc) (known name : Text) (hosts : List Red) :
    Bool × List Red :=
  match redLookupHost conf.red known hosts with
  | some _ => (true, hosts)
  | none =>
    match redAddHost alloc.host name hosts with
    | none => (false, hosts)
    | some (hosts, entry) => redUpdate entry (redActionDefault conf.red alloc.actions) hosts

/-- One record of the loop of `get_mx`; `slot` is the preference read from the first slot. -/
def getMxStep (conf : MxConf) (slot : Nat) (alloc : AddAlloc) (rr : Rr) (hosts : List Red) :
    Bool × List Red :=
  match rr.rrData with
  | .cname n =>
    if strcaseEq conf.hostname n then getMxAdd conf alloc n rr.rrName hosts else (true, hosts)
  | .mx p e =>
    if strcaseEq conf.hostname e ∧ p ≤ slot then getMxAdd conf alloc rr.rrName rr.rrName hosts
    else (true, hosts)
  | _ => (true, hosts)

/-- The loop of `get_mx`; `alloc` gives the outcomes of the allocations for each record. -/
def getMxLoop (conf : MxConf) (slot : Nat) : (Nat → AddAlloc) → List Rr → List Red → Bool × List Red
  | _, [], hosts => (true, hosts)
  | alloc, rr :: rest, hosts =>
    match getMxStep conf slot (alloc 0) rr hosts with
    | (false, hosts) => (false, hosts)
    | (true, hosts) => getMxLoop conf slot (fun n => alloc (n + 1)) rest hosts

/-- `get_mx` on the answer of the resolver: whether it returns the answer, and the host table. -/
def getMxTable (conf : MxConf) (alloc : Nat → AddAlloc) (answer : List Rr) (hosts : List Red) :
    Bool × List Red :=
  match answer with
  | [] => (true, hosts)
  | first :: _ =>
    if conf.dnsConfig then getMxLoop conf first.slotPreference alloc answer hosts else (true, hosts)

/-! ## `host_local` -/

/-- What `host_local` returns: an entry of the host table, `simta_secondary_mx`, or `NULL`. -/
inductive HostLocal
  | table (red : Red)
  | secondary
  | none
  deriving DecidableEq, Repr

/-- The search for the secondary: `offset` counts the CNAME records seen. -/
def secondaryScan (secondary : Text) (answer : List Rr) : List Rr → Nat → Bool
  | [], _ => false
  | rr :: rest, offset =>
    match rr.rrData with
    | .cname _ => secondaryScan secondary answer rest (offset + 1)
    | .mx p e =>
      if strcaseEq secondary e ∧ ((answer[offset]?).map Rr.slotPreference).getD 0 < p then true
      else secondaryScan secondary answer rest offset
    | _ => secondaryScan secondary answer rest offset

/-- `host_local`, with the answer of the resolver for `hostname` (`none` when the query fails). -/
def hostLocal (conf : MxConf) (alloc : Nat → AddAlloc) (result : Option (List Rr)) (hostname : Text)
    (hosts : List Red) : HostLocal × List Red :=
  match redLookupHost conf.red hostname hosts with
  | some red => (.table red, hosts)
  | none =>
    match result with
    | none => (.none, hosts)
    | some answer =>
      match getMxTable conf alloc answer hosts with
      | (false, hosts) => (.none, hosts)
      | (true, hosts) =>
        if answer = [] then (.none, hosts)
        else
          match redLookupHost conf.red hostname hosts with
          | some red => (.table red, hosts)
          | none =>
            match conf.secondaryMx with
            | some secondary =>
              if secondaryScan secondary answer answer 0 then (.secondary, hosts) else (.none, hosts)
            | none => (.none, hosts)

/-! ## Best exchanger -/

/-- Two spellings of one domain name: case and dots at the end apart. -/
def SameName (a b : Text) : Prop :=
  strcaseEq (a.rdropWhile (· = '.')) (b.rdropWhile (· = '.')) = true

/-- An MX record of the answer has the preference `p` or a higher one. -/
def LowestMx (answer : List Rr) (p : Nat) : Prop :=
  ∀ rr ∈ answer, ∀ q e, rr.rrData = .mx q e → p ≤ q

/-- A record of the answer makes `name` ours: an MX of that name with the lowest preference, or a CNAME,
    that names this host. -/
def Ours (conf : MxConf) (answer : List Rr) (name : Text) : Prop :=
  ∃ rr ∈ answer, SameName rr.rrName name ∧
    ((∃ p e, rr.rrData = .mx p e ∧ strcaseEq conf.hostname e = true ∧ LowestMx answer p) ∨
      ∃ n, rr.rrData = .cname n ∧ strcaseEq conf.hostname n = true)

/-- An MX record naming the secondary lies above the lowest preference of the answer. -/
def SecondaryAbove (secondary : Text) (answer : List Rr) : Prop :=
  ∃ rr ∈ answer, ∃ p e, rr.rrData = .mx p e ∧ strcaseEq secondary e = true ∧ ¬ LowestMx answer p

/-- What is promised for an answer, whatever the host table, the name asked for and the allocations:
    a name that comes into the table is ours, and the secondary is returned only above the lowest
    preference. -/
structure BestMx (conf : MxConf) (answer : List Rr) : Prop where
  added : ∀ alloc hosts, ∀ name ∈ redNames (getMxTable conf alloc answer hosts).2,
    name ∉ redNames hosts → Ours conf answer name
  secondary : ∀ alloc hostname hosts, ∀ s, conf.secondaryMx = some s →
    (hostLocal conf alloc (some answer) hostname hosts).1 = .secondary → SecondaryAbove s answer

/-- No MX record that names this host gets past the first slot without its name being ours. -/
def FirstSlotSound (conf : MxConf) (answer : List Rr) : Prop :=
  conf.dnsConfig = true → ∀ first, answer.head? = some first → ∀ rr ∈ answer, ∀ p e,
    rr.rrData = .mx p e → strcaseEq conf.hostname e = true → p ≤ first.slotPreference →
    Ours conf answer rr.rrName

/-- No MX record at the lowest preference alone gets the secondary past the slot that the number of
    CNAME records before it selects. -/
def CnameSlotSound (conf : MxConf) (answer : List Rr) : Prop :=
  ∀ s, conf.secondaryMx = some s → ∀ before rr after p e, answer = before ++ rr :: after →
    rr.rrData = .mx p e → strcaseEq s e = true →
    ((answer[before.countP Rr.isCname]?).map Rr.slotPreference).getD 0 < p → SecondaryAbove s answer

/-! ## Spellings of a name -/

theorem map_rdropWhile_dot (a : Text) :
    (a.rdropWhile (· = '.')).map Char.toLower = (a.map Char.toLower).rdropWhile (· = '.') := by
  induction a using List.reverseRecOn with
  | nil => rfl
  | append_singleton a c ih =>
    rw [List.map_append, List.map_singleton]
    by_cases hc : c = '.'
    · rw [List.rdropWhile_concat_pos _ _ _ (by simpa using hc),
        List.rdropWhile_concat_pos _ _ _ (by simpa [toLower_dot] using hc), ih]
    · rw [List.rdropWhile_concat_neg _ _ _ (by simpa using hc),
        List.rdropWhile_concat_neg _ _ _ (by simpa [toLower_dot] using hc)]
      simp

theorem sameName_iff {a b : Text} : SameName a b ↔
    (a.map Char.toLower).rdropWhile (· = '.') = (b.map Char.toLower).rdropWhile (· = '.') := by
  unfold SameName strcaseEq
  rw [decide_eq_true_iff, map_rdropWhile_dot, map_rdropWhile_dot]

theorem SameName.refl (a : Text) : SameName a a := sameName_iff.mpr rfl

theorem SameName.symm {a b : Text} (h : SameName a b) : SameName b a :=
  sameName_iff.mpr (sameName_iff.mp h).symm

theorem SameName.trans {a b c : Text} (hab : SameName a b) (hbc : SameName b c) : SameName a c :=
  sameName_iff.mpr ((sameName_iff.mp hab).trans (sameName_iff.mp hbc))

theorem SameName.of_strcaseEq {a b : Text} (h : strcaseEq a b = true) : SameName a b := by
  unfold strcaseEq at h
  rw [sameName_iff, of_decide_eq_true h]

theorem sameName_stripDot (conf : RedConf) (a : Text) : SameName a (stripDot conf a) := by
  unfold stripDot
  split
  · rename_i h
    obtain ⟨b, rfl⟩ := List.getLast?_eq_some_iff.mp h.2
    rw [List.dropLast_concat, SameName, List.rdropWhile_concat_pos _ _ _ (by simp)]
    simp [strcaseEq]
  · exact SameName.refl a

theorem Ours.of_sameName {conf : MxConf} {answer : List Rr} {a b : Text} (h : Ours conf answer a)
    (hab : SameName a b) : Ours conf answer b := by
  obtain ⟨rr, hmem, hname, hrest⟩ := h
  exact ⟨rr, hmem, hname.trans hab, hrest⟩

/-! ## What `get_mx` adds -/

/-- The tests of the loop of `get_mx` let this record through. -/
def Passes (conf : MxConf) (slot : Nat) (rr : Rr) : Prop :=
  (∃ n, rr.rrData = .cname n ∧ strcaseEq conf.hostname n = true) ∨
    ∃ p e, rr.rrData = .mx p e ∧ strcaseEq conf.hostname e = true ∧ p ≤ slot

theorem getMxAdd_names {conf : MxConf} {alloc : AddAlloc} {known name : Text} {hosts : List Red} :
    (∀ n ∈ redNames hosts, n ∈ redNames (getMxAdd conf alloc known name hosts).2) ∧
      ∀ n ∈ redNames (getMxAdd conf alloc known name hosts).2, n ∈ redNames hosts ∨ n = name := by
  unfold getMxAdd
  split
  · exact ⟨fun n hn => hn, fun n hn => .inl hn⟩
  · split
    · exact ⟨fun n hn => hn, fun n hn => .inl hn⟩
    · rename_i hosts' entry hadd
      have hspec := redAddHost_spec hadd
      rw [redNames_redUpdate _ (redActionDefault_same _ _)]
      exact ⟨hspec.kept, hspec.new⟩

theorem getMxStep_names (conf : MxConf) (slot : Nat) (alloc : AddAlloc) (rr : Rr) (hosts : List Red) :
    (∀ n ∈ redNames hosts, n ∈ redNames (getMxStep conf slot alloc rr hosts).2) ∧
      ∀ n ∈ redNames (getMxStep conf slot alloc rr hosts).2,
        n ∈ redNames hosts ∨ Passes conf slot rr ∧ n = rr.rrName := by
  unfold getMxStep
  split
  · rename_i c hdata
    split
    · rename_i heq
      exact getMxAdd_names.imp_right fun h n hn =>
        (h n hn).imp_right fun hn => ⟨.inl ⟨c, hdata, heq⟩, hn⟩
    · exact ⟨fun n hn => hn, fun n hn => .inl hn⟩
  · rename_i p e hdata
    split
    · rename_i heq
      exact getMxAdd_names.imp_right fun h n hn =>
        (h n hn).imp_right fun hn => ⟨.inr ⟨p, e, hdata, heq⟩, hn⟩
    · exact ⟨fun n hn => hn, fun n hn => .inl hn⟩
  · exact ⟨fun n hn => hn, fun n hn => .inl hn⟩

theorem getMxLoop_kept {conf : MxConf} {slot : Nat} {alloc : Nat → AddAlloc} {l : List Rr}
    {hosts : List Red} {n : Text} (hn : n ∈ redNames hosts) :
    n ∈ redNames (getMxLoop conf slot alloc l hosts).2 := by
  induction l generalizing alloc hosts with
  | nil => exact hn
  | cons rr rest ih =>
    have hstep := (getMxStep_names conf slot (alloc 0) rr hosts).1 n hn
    unfold getMxLoop
    split <;> rename_i heq <;> rw [heq] at hstep
    · exact hstep
    · exact ih hstep

theorem getMxLoop_new {conf : MxConf} {slot : Nat} {alloc : Nat → AddAlloc} {l : List Rr}
    {hosts : List Red} {n : Text} (hn : n ∈ redNames (getMxLoop conf slot alloc l hosts).2) :
    n ∈ redNames hosts ∨ ∃ rr ∈ l, Passes conf slot rr ∧ n = rr.rrName := by
  induction l generalizing alloc hosts with
  | nil => exact .inl hn
  | cons rr rest ih =>
    have hstep := (getMxStep_names conf slot (alloc 0) rr hosts).2 n
    have hfirst : n ∈ redNames (getMxStep conf slot (alloc 0) rr hosts).2 →
        n ∈ redNames hosts ∨ ∃ rr' ∈ rr :: rest, Passes conf slot rr' ∧ n = rr'.rrName :=
      fun h => (hstep h).imp_right fun h => ⟨rr, List.mem_cons_self, h⟩
    unfold getMxLoop at hn
    split at hn <;> rename_i heq <;> rw [heq] at hfirst
    · exact hfirst hn
    · rcases ih hn with h | ⟨rr', hmem, h⟩
      · exact hfirst h
      · exact .inr ⟨rr', List.mem_cons_of_mem _ hmem, h⟩

theorem localTable_getMxAdd {conf : MxConf} {alloc : AddAlloc} {known name : Text} {hosts : List Red}
    (h : LocalTable hosts) : LocalTable (getMxAdd conf alloc known name hosts).2 := by
  unfold getMxAdd
  split
  · exact h
  · split
    · exact h
    · rename_i hadd
      exact localTable_redUpdate _ (redActionDefault_same _ _) (localTable_redAddHost hadd h)

theorem localTable_getMxLoop {conf : MxConf} {slot : Nat} {alloc : Nat → AddAlloc} {l : List Rr}
    {hosts : List Red} (h : LocalTable hosts) : LocalTable (getMxLoop conf slot alloc l hosts).2 := by
  induction l generalizing alloc hosts with
  | nil => exact h
  | cons rr rest ih =>
    have hstep : LocalTable (getMxStep conf slot (alloc 0) rr hosts).2 := by
      unfold getMxStep
      split
      · split
        · exact localTable_getMxAdd h
        · exact h
      · split
        · exact localTable_getMxAdd h
        · exact h
      · exact h
    unfold getMxLoop
    split <;> rename_i heq <;> rw [heq] at hstep
    · exact hstep
    · exact ih hstep

theorem localTable_getMxTable {conf : MxConf} {alloc : Nat → AddAlloc} {answer : List Rr}
    {hosts : List Red} (h : LocalTable hosts) : LocalTable (getMxTable conf alloc answer hosts).2 := by
  unfold getMxTable
  split
  · exact h
  · split
    · exact localTable_getMxLoop h
    · exact h

/-- The table that `host_local` leaves. -/
theorem hostLocal_hosts {conf : MxConf} {alloc : Nat → AddAlloc} {result : Option (List Rr)}
    {hostname : Text} {hosts : List Red} :
    (hostLocal conf alloc result hostname hosts).2 = hosts ∨
      ∃ answer, result = some answer ∧
        (hostLocal conf alloc result hostname hosts).2 = (getMxTable conf alloc answer hosts).2 := by
  unfold hostLocal
  split
  · exact .inl rfl
  · split
    · exact .inl rfl
    · rename_i answer
      refine .inr ⟨answer, rfl, ?_⟩
      split <;> rename_i heq <;> rw [heq]
      split
      · rfl
      · split
        · rfl
        · split
          · split <;> rfl
          · rfl

/-- An entry of the host table that `host_local` returns is in the table it leaves. -/
theorem hostLocal_table {conf : MxConf} {alloc : Nat → AddAlloc} {result : Option (List Rr)}
    {hostname : Text} {hosts : List Red} {red : Red}
    (h : (hostLocal conf alloc result hostname hosts).1 = .table red) :
    red ∈ (hostLocal conf alloc result hostname hosts).2 := by
  revert h
  unfold hostLocal
  split
  · rename_i hfind
    rintro ⟨⟩
    exact (redFind_name hfind).2
  · split
    · nofun
    · split
      · nofun
      · split
        · nofun
        · split
          · rename_i hfind
            rintro ⟨⟩
            exact (redFind_name hfind).2
          · split
            · split <;> nofun
            · nofun

/-! ## With memory at hand -/

/-- No allocation fails. -/
def allocOk : AddAlloc := ⟨true, fun _ => .ok⟩

theorem getMxAdd_ok (conf : MxConf) (known name : Text) (hosts : List Red) :
    (getMxAdd conf allocOk known name hosts).1 = true := by
  unfold getMxAdd
  split
  · rfl
  · obtain ⟨r, hr⟩ := redAddHost_ok name hosts
    simp only [allocOk, hr]
    exact redUpdate_ok _ (redActionDefault_ok _) _

theorem getMxAdd_present (conf : MxConf) (name : Text) (hosts : List Red) :
    ∃ n ∈ redNames (getMxAdd conf allocOk name name hosts).2, SameName n name := by
  unfold getMxAdd
  split
  · rename_i red hred
    obtain ⟨hname, hmem⟩ := redFind_name hred
    exact ⟨red.redHostName, List.mem_map_of_mem hmem,
      ((sameName_stripDot conf.red name).trans (SameName.of_strcaseEq hname)).symm⟩
  · obtain ⟨⟨hosts', entry⟩, hr⟩ := redAddHost_ok name hosts
    have hspec := redAddHost_spec hr
    simp only [allocOk, hr]
    rw [redNames_redUpdate _ (redActionDefault_same _ _)]
    exact ⟨entry, hspec.mem, SameName.of_strcaseEq hspec.same⟩

theorem getMxStep_ok (conf : MxConf) (slot : Nat) (rr : Rr) (hosts : List Red) :
    (getMxStep conf slot allocOk rr hosts).1 = true := by
  unfold getMxStep
  split <;> try rfl
  all_goals
    split
    · exact getMxAdd_ok _ _ _ _
    · rfl

theorem getMxLoop_ok (conf : MxConf) (slot : Nat) (l : List Rr) (hosts : List Red) :
    (getMxLoop conf slot (fun _ => allocOk) l hosts).1 = true := by
  induction l generalizing hosts with
  | nil => rfl
  | cons rr rest ih =>
    have hstep := getMxStep_ok conf slot rr hosts
    unfold getMxLoop
    split <;> rename_i heq
    · rw [heq] at hstep
      cases hstep
    · exact ih _

/-- An MX record that passes has its name in the table afterwards, in some spelling. -/
theorem getMxLoop_present {conf : MxConf} {slot : Nat} {l : List Rr} {rr : Rr} (hmem : rr ∈ l)
    {p : Nat} {e : Text} (hdata : rr.rrData = .mx p e) (hus : strcaseEq conf.hostname e = true)
    (hslot : p ≤ slot) (hosts : List Red) :
    ∃ n ∈ redNames (getMxLoop conf slot (fun _ => allocOk) l hosts).2, SameName n rr.rrName := by
  induction l generalizing hosts with
  | nil => cases hmem
  | cons rr' rest ih =>
    have hstep := getMxStep_ok conf slot rr' hosts
    unfold getMxLoop
    split <;> rename_i heq
    · rw [heq] at hstep
      cases hstep
    · rcases List.mem_cons.mp hmem with rfl | hrest
      · obtain ⟨n, hn, hsame⟩ := getMxAdd_present conf rr.rrName hosts
        have hadd : getMxStep conf slot allocOk rr hosts =
            getMxAdd conf allocOk rr.rrName rr.rrName hosts := by
          simp only [getMxStep, hdata, hus, hslot, and_self, if_true]
        rw [← hadd, heq] at hn
        exact ⟨n, getMxLoop_kept hn, hsame⟩
      · exact ih hrest _

/-! ## The search for the secondary -/

/-- Some MX record of `l` names the secondary and exceeds the slot that `offset` and the CNAME records
    before it select. -/
def SecondaryHit (secondary : Text) (answer l : List Rr) (offset : Nat) : Prop :=
  ∃ before rr after p e, l = before ++ rr :: after ∧ rr.rrData = .mx p e ∧
    strcaseEq secondary e = true ∧
    ((answer[offset + before.countP Rr.isCname]?).map Rr.slotPreference).getD 0 < p

theorem secondaryHit_cons {secondary : Text} {answer : List Rr} {x : Rr} {rest : List Rr} {offset : Nat} :
    SecondaryHit secondary answer (x :: rest) offset ↔
      (∃ p e, x.rrData = .mx p e ∧ strcaseEq secondary e = true ∧
        ((answer[offset]?).map Rr.slotPreference).getD 0 < p) ∨
      SecondaryHit secondary answer rest (offset + if x.isCname then 1 else 0) := by
  have hcount : ∀ before : List Rr, offset + (x :: before).countP Rr.isCname =
      offset + (if x.isCname then 1 else 0) + before.countP Rr.isCname := fun before => by
    rw [List.countP_cons]
    omega
  constructor
  · rintro ⟨before, rr, after, p, e, heq, hdata, hsec, hlt⟩
    cases before with
    | nil =>
      cases heq
      exact .inl ⟨p, e, hdata, hsec, by simpa using hlt⟩
    | cons y before =>
      cases heq
      rw [hcount] at hlt
      exact .inr ⟨before, rr, after, p, e, rfl, hdata, hsec, hlt⟩
  · rintro (⟨p, e, hdata, hsec, hlt⟩ | ⟨before, rr, after, p, e, rfl, hdata, hsec, hlt⟩)
    · exact ⟨[], x, rest, p, e, rfl, hdata, hsec, by simpa using hlt⟩
    · exact ⟨x :: before, rr, after, p, e, rfl, hdata, hsec, by rwa [hcount]⟩

theorem secondaryScan_iff {secondary : Text} {answer : List Rr} {l : List Rr} {offset : Nat} :
    secondaryScan secondary answer l offset = true ↔ SecondaryHit secondary answer l offset := by
  induction l generalizing offset with
  | nil => simp [secondaryScan, SecondaryHit]
  | cons x rest ih =>
    rw [secondaryHit_cons, ← ih, secondaryScan]
    cases hdata : x.rrData with
    | mx p e =>
      by_cases hsec : strcaseEq secondary e = true ∧ ((answer[offset]?).map Rr.slotPreference).getD 0 < p
      · simp [hsec]
      · simp [hsec, hdata, Rr.isCname]
    | _ => simp [hdata, Rr.isCname]

/-! ## Exactly when -/

/-- A name as long as that, spelled like nothing shorter. -/
theorem lookup_fresh {conf : RedConf} {hosts : List Red} {k : Nat}
    (h : ∀ n ∈ redNames hosts, n.length ≤ k) :
    redLookupHost conf (List.replicate (k + 1) 'a') hosts = none := by
  have hstrip : stripDot conf (List.replicate (k + 1) 'a') = List.replicate (k + 1) 'a' := by
    unfold stripDot
    rw [if_neg]
    rintro ⟨-, hlast⟩
    have := List.eq_of_mem_replicate (List.mem_of_getLast? hlast)
    simp at this
  unfold redLookupHost
  rw [hstrip]
  cases hfind : redFind (List.replicate (k + 1) 'a') hosts with
  | none => rfl
  | some red =>
    obtain ⟨hname, hmem⟩ := redFind_name hfind
    have hlen := congrArg List.length (of_decide_eq_true hname)
    have := h _ (List.mem_map_of_mem hmem)
    simp only [List.length_map, List.length_replicate] at hlen
    omega

theorem firstSlotSound_of_added {conf : MxConf} {answer : List Rr}
    (h : ∀ alloc hosts, ∀ name ∈ redNames (getMxTable conf alloc answer hosts).2,
      name ∉ redNames hosts → Ours conf answer name) : FirstSlotSound conf answer := by
  intro hdns first hfirst rr hmem p e hdata hus hslot
  obtain ⟨rest, rfl⟩ : ∃ rest, answer = first :: rest := List.head?_eq_some_iff.mp hfirst
  obtain ⟨n, hn, hsame⟩ := getMxLoop_present hmem hdata hus hslot []
  refine (h (fun _ => allocOk) [] n ?_ (by simp [redNames])).of_sameName hsame
  simpa [getMxTable, hdns] using hn

theorem added_of_firstSlotSound {conf : MxConf} {answer : List Rr} (h : FirstSlotSound conf answer)
    (alloc : Nat → AddAlloc) (hosts : List Red) (name : Text)
    (hname : name ∈ redNames (getMxTable conf alloc answer hosts).2) (hnew : name ∉ redNames hosts) :
    Ours conf answer name := by
  unfold getMxTable at hname
  split at hname
  · exact absurd hname hnew
  · rename_i first rest
    split at hname
    · rename_i hdns
      rcases getMxLoop_new hname with hold | ⟨rr, hmem, hpass, rfl⟩
      · exact absurd hold hnew
      · rcases hpass with ⟨n, hdata, hus⟩ | ⟨p, e, hdata, hus, hslot⟩
        · exact ⟨rr, hmem, SameName.refl _, .inr ⟨n, hdata, hus⟩⟩
        · exact h hdns first rfl rr hmem p e hdata hus hslot
    · exact absurd hname hnew

theorem hostLocal_secondary {conf : MxConf} {alloc : Nat → AddAlloc} {answer : List Rr}
    {hostname s : Text} {hosts : List Red} (hs : conf.secondaryMx = some s)
    (h : (hostLocal conf alloc (some answer) hostname hosts).1 = .secondary) :
    secondaryScan s answer answer 0 = true := by
  unfold hostLocal at h
  split at h
  · cases h
  · dsimp only at h
    split at h
    · cases h
    · split at h
      · cases h
      · split at h
        · cases h
        · simp only [hs] at h
          split at h
          · assumption
          · cases h

/-- The empty table, memory at hand, and a name longer than any of the answer. -/
theorem hostLocal_fresh {conf : MxConf} {answer : List Rr} {s : Text} (hs : conf.secondaryMx = some s)
    (hscan : secondaryScan s answer answer 0 = true) :
    ∃ hostname, (hostLocal conf (fun _ => allocOk) (some answer) hostname []).1 = .secondary := by
  have hok : (getMxTable conf (fun _ => allocOk) answer []).1 = true := by
    unfold getMxTable
    split
    · rfl
    · split
      · exact getMxLoop_ok _ _ _ _
      · rfl
  have hne : answer ≠ [] := by
    rintro rfl
    cases hscan
  obtain ⟨k, hk⟩ : ∃ k, ∀ rr ∈ answer, rr.rrName.length ≤ k :=
    ⟨(answer.map fun rr => rr.rrName.length).sum, fun rr hmem =>
      List.single_le_sum (by simp) _ (List.mem_map_of_mem hmem)⟩
  have hnames : ∀ n ∈ redNames (getMxTable conf (fun _ => allocOk) answer []).2, n.length ≤ k := by
    intro n hn
    unfold getMxTable at hn
    split at hn
    · simp [redNames] at hn
    · split at hn
      · rcases getMxLoop_new hn with hold | ⟨rr, hmem, -, rfl⟩
        · simp [redNames] at hold
        · exact hk rr hmem
      · simp [redNames] at hn
  refine ⟨List.replicate (k + 1) 'a', ?_⟩
  have hempty : redLookupHost conf.red (List.replicate (k + 1) 'a') [] = none := rfl
  have hpair : getMxTable conf (fun _ => allocOk) answer [] =
      (true, (getMxTable conf (fun _ => allocOk) answer []).2) := Prod.ext hok rfl
  simp only [hostLocal, hempty]
  rw [hpair]
  simp only [if_neg hne, lookup_fresh hnames, hs, hscan, if_true]

/-- **Only domains we are best exchanger for become local** exactly when no MX record gets past a slot
    that is not the lowest preference: with any record in the first slot the first two bytes of its
    data count as a preference, and with a CNAME anywhere before it the secondary is measured against
    a slot that need not hold the lowest. -/
theorem bestMx_iff (conf : MxConf) (raw : List Rr) :
    BestMx conf (createResult raw) ↔
      FirstSlotSound conf (createResult raw) ∧ CnameSlotSound conf (createResult raw) := by
  constructor
  · intro h
    refine ⟨firstSlotSound_of_added h.added, ?_⟩
    intro s hs before rr after p e hsplit hdata hsec hlt
    have hscan := secondaryScan_iff.mpr
      (⟨before, rr, after, p, e, hsplit, hdata, hsec, by simpa using hlt⟩ : SecondaryHit s _ _ 0)
    obtain ⟨hostname, hlocal⟩ := hostLocal_fresh hs hscan
    exact h.secondary _ hostname _ s hs hlocal
  · rintro ⟨hfirst, hcname⟩
    refine ⟨added_of_firstSlotSound hfirst, ?_⟩
    intro alloc hostname hosts s hs hlocal
    obtain ⟨before, rr, after, p, e, hsplit, hdata, hsec, hlt⟩ :=
      secondaryScan_iff.mp (hostLocal_secondary hs hlocal)
    exact hcname s hs before rr after p e hsplit hdata hsec (by simpa using hlt)

/-- `simta_hostname` is `us.example`; the answer to a query for an alias of another site's name. -/
def usConf : MxConf :=
  ⟨"us.example".toList, true, none, ⟨true, none, none⟩⟩

def aliasAnswer : List Rr :=
  [⟨"alias.example".toList, .cname "mail.example".toList⟩,
    ⟨"mail.example".toList, .mx 10 "better.example".toList⟩,
    ⟨"mail.example".toList, .mx 20 "us.example".toList⟩]

/-- The alias in the first slot reads as a preference of 24941, so we become local for a name whose
    better exchanger is another host. -/
theorem aliasAnswer_local : ¬ BestMx usConf (createResult aliasAnswer) := by
  intro h
  have hsorted : createResult aliasAnswer = aliasAnswer := by decide
  rw [hsorted] at h
  obtain ⟨rr, hmem, hname, hours⟩ := h.added (fun _ => allocOk) [] "mail.example".toList
    (by decide) (by simp [redNames])
  simp only [aliasAnswer, List.mem_cons, List.not_mem_nil, or_false] at hmem
  rcases hmem with rfl | rfl | rfl
  · revert hname
    unfold SameName
    decide
  · rcases hours with ⟨p, e, heq, hus, -⟩ | ⟨n, heq, -⟩
    · cases heq
      revert hus
      decide
    · cases heq
  · rcases hours with ⟨p, e, heq, -, hlow⟩ | ⟨n, heq, -⟩
    · cases heq
      have := hlow ⟨"mail.example".toList, .mx 10 "better.example".toList⟩ (by simp [aliasAnswer]) 10 _ rfl
      omega
    · cases heq

end Simta
