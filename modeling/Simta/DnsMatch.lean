import Simta.Smtp

/-!
# The addresses of the additional section

`_dnsr_match_additional` of `denser`, and when every address reaches the records that name its owner.

* `matchIp`, `matchSection`, `matchAdditional` — the functions of `match.c`, with an answer of `malloc` for each pair;
* `Attached` — what the caller relies on: every address with each record that names its owner, once and in order;
* `matchAdditional_iff` — when it is so: nothing stops the loops in front of a pair that belongs together.
-/

set_option autoImplicit false

namespace Simta

/-! ## Records -/

/-- The data of a record as `_dnsr_match_ip` reads it.  `dn` stands for CNAME, MB, MD, MF, MG, MR, NS and PTR, `other` for every
    type of its `default`. -/
inductive DnsrData
  | a (address : Ip)
  | dn (name : Text)
  | mx (exchange : Text)
  | soa (mname : Text)
  | srv (target : Text)
  | other
  deriving DecidableEq, Repr

/-- `struct dnsr_rr`, with the chain of `rr_ip` as a list. -/
structure DnsrRr where
  rrName : Text
  rrData : DnsrData
  rrIp : List Ip
  deriving DecidableEq, Repr

/-- `struct dnsr_result`. -/
structure DnsrResult where
  rAnswer : List DnsrRr
  rNs : List DnsrRr
  rAdditional : List DnsrRr
  deriving DecidableEq, Repr

/-- The name in the data of a record that `_dnsr_match_ip` compares; `none` for a type that it returns for. -/
def DnsrData.target : DnsrData → Option Text
  | .dn name => some name
  | .mx exchange => some exchange
  | .soa mname => some mname
  | .srv target => some target
  | .a _ => none
  | .other => none

/-- The address of an A record. -/
def DnsrRr.address (rr : DnsrRr) : Option Ip :=
  match rr.rrData with
  | .a address => some address
  | _ => none

/-- An address at the end of the chain. -/
def DnsrRr.attach (rr : DnsrRr) (ip : Ip) : DnsrRr := { rr with rrIp := rr.rrIp ++ [ip] }

/-- `_dnsr_match_ip` for an additional record of that name and address: its value, and the record. -/
def matchIp (malloc : Bool) (name : Text) (ip : Ip) (rr : DnsrRr) : Int × DnsrRr :=
  match rr.rrData with
  | .a _ => (0, rr)
  | .other => (-1, rr)
  | data =>
    if data.target ≠ some name then (0, rr)
    else if malloc then (1, rr.attach ip)
    else (-1, rr)

/-- The loop over the records of a section from the number `j` on; `true` when it is left early. -/
def matchSection (malloc : Nat → Bool) (name : Text) (ip : Ip) : Nat → List DnsrRr → List DnsrRr × Bool
  | _, [] => ([], false)
  | j, rr :: rest =>
    if (matchIp (malloc j) name ip rr).1 < 0 then (rr :: rest, true)
    else
      let (rest, stopped) := matchSection malloc name ip (j + 1) rest
      ((matchIp (malloc j) name ip rr).2 :: rest, stopped)

/-- The loop over the additional records from the number `i` on.  `malloc i j` is the allocation for that record and the record
    `j` of the answers and the authority section taken together. -/
def matchLoop (malloc : Nat → Nat → Bool) : Nat → List DnsrRr → DnsrResult → DnsrResult
  | _, [], result => result
  | i, ar :: rest, result =>
    match ar.address with
    | none => matchLoop malloc (i + 1) rest result
    | some ip =>
      let (answer, stopped) := matchSection (malloc i) ar.rrName ip 0 result.rAnswer
      if stopped then { result with rAnswer := answer }
      else
        let (ns, stopped) := matchSection (malloc i) ar.rrName ip result.rAnswer.length result.rNs
        if stopped then { result with rAnswer := answer, rNs := ns }
        else matchLoop malloc (i + 1) rest { result with rAnswer := answer, rNs := ns }

/-- `_dnsr_match_additional`. -/
def matchAdditional (malloc : Nat → Nat → Bool) (result : DnsrResult) : DnsrResult :=
  matchLoop malloc 0 result.rAdditional result

/-! ## What is to be delivered -/

/-- The record names the owner of the additional record. -/
def DnsrRr.names (rr ar : DnsrRr) : Bool := rr.rrData.target = some ar.rrName

/-- The addresses of those additional records that a record names, in order. -/
def DnsrRr.addresses (rr : DnsrRr) (additional : List DnsrRr) : List Ip :=
  (additional.filter rr.names).filterMap DnsrRr.address

/-- A record with all of them. -/
def DnsrRr.complete (rr : DnsrRr) (additional : List DnsrRr) : DnsrRr :=
  { rr with rrIp := rr.rrIp ++ rr.addresses additional }

/-- **Every address reaches its records**, once and in order, and nothing else changes. -/
def Attached (result result' : DnsrResult) : Prop :=
  result' = { result with
    rAnswer := result.rAnswer.map fun rr => rr.complete result.rAdditional
    rNs := result.rNs.map fun rr => rr.complete result.rAdditional }

/-- The pair stops the loops: a record of a type that is not known, or an allocation that fails. -/
def stops (malloc : Bool) (ar rr : DnsrRr) : Bool :=
  rr.rrData = .other || (rr.names ar && !malloc)

/-- Nothing stops the loops up to a pair that belongs together. -/
def Unstopped (malloc : Nat → Nat → Bool) (additional records : List DnsrRr) : Prop :=
  ∀ i j ar rr, additional[i]? = some ar → ar.address ≠ none → records[j]? = some rr → rr.names ar = true →
    ∀ i' j' ar' rr', i' < i ∨ i' = i ∧ j' ≤ j → additional[i']? = some ar' → ar'.address ≠ none →
      records[j']? = some rr' → stops (malloc i' j') ar' rr' = false

/-! ## One section -/

section Match

variable (malloc : Nat → Bool)

/-- A record that an additional record of that name and address has been compared with. -/
def DnsrRr.matched (name : Text) (ip : Ip) (rr : DnsrRr) : DnsrRr :=
  if rr.rrData.target = some name then rr.attach ip else rr

@[simp] theorem attach_data (rr : DnsrRr) (ip : Ip) : (rr.attach ip).rrData = rr.rrData := rfl

@[simp] theorem matched_data (name : Text) (ip : Ip) (rr : DnsrRr) : (rr.matched name ip).rrData = rr.rrData := by
  unfold DnsrRr.matched
  split <;> rfl

@[simp] theorem matched_names (name : Text) (ip : Ip) (rr ar : DnsrRr) : (rr.matched name ip).names ar = rr.names ar := by
  unfold DnsrRr.names
  rw [matched_data]

@[simp] theorem matched_stops (b : Bool) (name : Text) (ip : Ip) (rr ar : DnsrRr) :
    stops b ar (rr.matched name ip) = stops b ar rr := by
  unfold stops
  rw [matched_names, matched_data]

/-- One pair. -/
theorem matchIp_spec (b : Bool) (ar : DnsrRr) (ip : Ip) (rr : DnsrRr) :
    stops b ar rr = true ∧ (matchIp b ar.rrName ip rr).1 < 0 ∨
      stops b ar rr = false ∧ ¬(matchIp b ar.rrName ip rr).1 < 0 ∧
        (matchIp b ar.rrName ip rr).2 = rr.matched ar.rrName ip := by
  unfold matchIp stops DnsrRr.names DnsrRr.matched
  by_cases h : rr.rrData.target = some ar.rrName
  · cases hd : rr.rrData <;> rw [hd] at h <;> cases b <;> simp_all [DnsrData.target]
  · cases hd : rr.rrData <;> rw [hd] at h <;> simp_all

/-- The loop over a section: it stops nowhere, or at the first record that stops it. -/
theorem matchSection_spec (ar : DnsrRr) (ip : Ip) (j : Nat) (l : List DnsrRr) :
    (∀ m rr, l[m]? = some rr → stops (malloc (j + m)) ar rr = false) ∧
        matchSection malloc ar.rrName ip j l = (l.map (DnsrRr.matched ar.rrName ip), false) ∨
      ∃ l₁ rr l₂, l = l₁ ++ rr :: l₂ ∧ (∀ m x, l₁[m]? = some x → stops (malloc (j + m)) ar x = false) ∧
        stops (malloc (j + l₁.length)) ar rr = true ∧
        matchSection malloc ar.rrName ip j l = (l₁.map (DnsrRr.matched ar.rrName ip) ++ rr :: l₂, true) := by
  induction l generalizing j with
  | nil =>
    refine .inl ⟨?_, rfl⟩
    rintro m rr ⟨⟩
  | cons rr rest ih =>
    have hcons : ∀ {l' : List DnsrRr}, stops (malloc j) ar rr = false →
        (∀ m x, l'[m]? = some x → stops (malloc (j + 1 + m)) ar x = false) →
        ∀ m x, (rr :: l')[m]? = some x → stops (malloc (j + m)) ar x = false := by
      intro l' hhead htail m x hx
      cases m with
      | zero =>
        cases hx
        exact hhead
      | succ m =>
        rw [← Nat.add_assoc, Nat.add_right_comm]
        exact htail m x hx
    unfold matchSection
    obtain ⟨hstop, hneg⟩ | ⟨hstop, hneg, hrr⟩ := matchIp_spec (malloc j) ar ip rr
    · rw [if_pos hneg]
      refine .inr ⟨[], rr, rest, rfl, ?_, hstop, rfl⟩
      rintro m x ⟨⟩
    · rw [if_neg hneg, hrr]
      obtain ⟨hnone, hrest⟩ | ⟨l₁, x, l₂, rfl, hfront, hx, hrest⟩ := ih (j + 1)
      · rw [hrest]
        exact .inl ⟨hcons hstop hnone, rfl⟩
      · rw [hrest]
        refine .inr ⟨rr :: l₁, x, l₂, rfl, hcons hstop hfront, ?_, rfl⟩
        rw [List.length_cons, ← Nat.add_assoc, Nat.add_right_comm]
        exact hx

theorem matchSection_cons (name : Text) (ip : Ip) (j : Nat) (rr : DnsrRr) (rest : List DnsrRr) :
    matchSection malloc name ip j (rr :: rest) =
      if (matchIp (malloc j) name ip rr).1 < 0 then (rr :: rest, true)
      else ((matchIp (malloc j) name ip rr).2 :: (matchSection malloc name ip (j + 1) rest).1,
        (matchSection malloc name ip (j + 1) rest).2) := rfl

/-- Two sections are gone through as one. -/
theorem matchSection_append (name : Text) (ip : Ip) (j : Nat) (l₁ l₂ : List DnsrRr) :
    matchSection malloc name ip j (l₁ ++ l₂) =
      if (matchSection malloc name ip j l₁).2 then ((matchSection malloc name ip j l₁).1 ++ l₂, true)
      else ((matchSection malloc name ip j l₁).1 ++ (matchSection malloc name ip (j + l₁.length) l₂).1,
        (matchSection malloc name ip (j + l₁.length) l₂).2) := by
  induction l₁ generalizing j with
  | nil => rfl
  | cons rr rest ih =>
    have hj : j + (rr :: rest).length = j + 1 + rest.length := by
      rw [List.length_cons]
      omega
    rw [List.cons_append, matchSection_cons, matchSection_cons, hj]
    by_cases hneg : (matchIp (malloc j) name ip rr).1 < 0
    · simp [hneg]
    · rw [if_neg hneg, if_neg hneg, ih]
      by_cases hstopped : (matchSection malloc name ip (j + 1) rest).2 = true
      · simp [hstopped]
      · simp [hstopped]

theorem matchSection_length (name : Text) (ip : Ip) (j : Nat) (l : List DnsrRr) :
    (matchSection malloc name ip j l).1.length = l.length := by
  induction l generalizing j with
  | nil => rfl
  | cons rr rest ih =>
    rw [matchSection_cons]
    split
    · rfl
    · simp only [List.length_cons, ih]

end Match

/-! ## The loop -/

section Loop

variable {malloc : Nat → Nat → Bool} {ar : DnsrRr} {additional records : List DnsrRr}

/-- The loop over the additional records, for the answers and the authority section as one list. -/
def matchRecords (malloc : Nat → Nat → Bool) : List DnsrRr → List DnsrRr → List DnsrRr
  | [], records => records
  | ar :: rest, records =>
    match ar.address with
    | none => matchRecords (fun i => malloc (i + 1)) rest records
    | some ip =>
      if (matchSection (malloc 0) ar.rrName ip 0 records).2 then (matchSection (malloc 0) ar.rrName ip 0 records).1
      else matchRecords (fun i => malloc (i + 1)) rest (matchSection (malloc 0) ar.rrName ip 0 records).1

/-- What the loop leaves alone, and the records it makes. -/
structure LoopRecords (result result' : DnsrResult) (records : List DnsrRr) : Prop where
  length : result'.rAnswer.length = result.rAnswer.length
  additional : result'.rAdditional = result.rAdditional
  records : result'.rAnswer ++ result'.rNs = records

theorem matchLoop_records (malloc : Nat → Nat → Bool) (i : Nat) (additional : List DnsrRr) (result : DnsrResult) :
    LoopRecords result (matchLoop malloc i additional result)
      (matchRecords (fun k => malloc (i + k)) additional (result.rAnswer ++ result.rNs)) := by
  induction additional generalizing i result with
  | nil => exact ⟨rfl, rfl, rfl⟩
  | cons ar rest ih =>
    have hshift : (fun k => malloc (i + (k + 1))) = fun k => malloc (i + 1 + k) := by
      funext k
      congr 1
      omega
    unfold matchLoop matchRecords
    rw [hshift]
    split
    · exact ih (i + 1) result
    · rename_i ip hip
      have hanswer := matchSection_length (malloc i) ar.rrName ip 0 result.rAnswer
      have happend := matchSection_append (malloc i) ar.rrName ip 0 result.rAnswer result.rNs
      rw [Nat.zero_add] at happend
      have hzero : malloc (i + 0) = malloc i := rfl
      rw [hzero, happend]
      by_cases hstopped : (matchSection (malloc i) ar.rrName ip 0 result.rAnswer).2 = true
      · simp only [hstopped, if_true]
        exact ⟨hanswer, rfl, rfl⟩
      · by_cases hstopped' : (matchSection (malloc i) ar.rrName ip result.rAnswer.length result.rNs).2 = true
        · simp only [hstopped, hstopped', if_true, if_false, Bool.false_eq_true]
          exact ⟨hanswer, rfl, rfl⟩
        · simp only [hstopped, hstopped', if_false, Bool.false_eq_true]
          have hrest := ih (i + 1) { result with
            rAnswer := (matchSection (malloc i) ar.rrName ip 0 result.rAnswer).1
            rNs := (matchSection (malloc i) ar.rrName ip result.rAnswer.length result.rNs).1 }
          exact ⟨hrest.length.trans hanswer, hrest.additional, hrest.records⟩

/-- The record names no owner of an A record among them. -/
def DnsrRr.NamesNone (rr : DnsrRr) (additional : List DnsrRr) : Prop :=
  ∀ ar ∈ additional, ar.address ≠ none → rr.names ar = false

theorem complete_eq_iff (rr : DnsrRr) (more : List DnsrRr) : rr.complete more = rr ↔ rr.NamesNone more := by
  have haddresses : rr.complete more = rr ↔ rr.addresses more = [] := by
    unfold DnsrRr.complete
    constructor
    · intro h
      have hip : rr.rrIp ++ rr.addresses more = rr.rrIp := congrArg DnsrRr.rrIp h
      exact List.append_right_eq_self.mp hip
    · intro h
      rw [h, List.append_nil]
  rw [haddresses]
  unfold DnsrRr.addresses DnsrRr.NamesNone
  rw [List.filterMap_eq_nil_iff]
  constructor
  · intro h ar har hne
    by_contra hnames
    exact hne (h ar (List.mem_filter.mpr ⟨har, by simpa using hnames⟩))
  · intro h ar har
    obtain ⟨hmem, hnames⟩ := List.mem_filter.mp har
    by_contra hne
    rw [h ar hmem hne] at hnames
    cases hnames

/-- An additional record that is no A record adds nothing. -/
theorem complete_cons_none (rr : DnsrRr) {more : List DnsrRr} (har : ar.address = none) :
    rr.complete (ar :: more) = rr.complete more := by
  unfold DnsrRr.complete DnsrRr.addresses
  rw [List.filter_cons]
  split
  · rw [List.filterMap_cons_none har]
  · rfl

theorem complete_cons_some (rr : DnsrRr) {more : List DnsrRr} {ip : Ip} (har : ar.address = some ip) :
    rr.complete (ar :: more) = (rr.matched ar.rrName ip).complete more := by
  have haddresses : (rr.matched ar.rrName ip).addresses more = rr.addresses more := by
    unfold DnsrRr.addresses
    congr 2
    funext x
    rw [matched_names]
  unfold DnsrRr.complete
  rw [haddresses]
  unfold DnsrRr.matched DnsrRr.addresses DnsrRr.attach
  by_cases hnames : rr.rrData.target = some ar.rrName
  · have hn : rr.names ar = true := decide_eq_true hnames
    rw [List.filter_cons_of_pos hn, List.filterMap_cons_some har, if_pos hnames]
    simp
  · have hn : ¬rr.names ar = true := fun h => hnames (of_decide_eq_true h)
    rw [List.filter_cons_of_neg hn, if_neg hnames]

/-! ## When nothing is missed -/

theorem unstopped_cons_none (har : ar.address = none) :
    Unstopped malloc (ar :: additional) records ↔ Unstopped (fun i => malloc (i + 1)) additional records := by
  constructor
  · intro h i j ar₁ rr har₁ hne hrr hn i' j' ar' rr' hle har' hne' hrr'
    exact h (i + 1) j ar₁ rr har₁ hne hrr hn (i' + 1) j' ar' rr' (by omega) har' hne' hrr'
  · intro h i j ar₁ rr har₁ hne hrr hn i' j' ar' rr' hle har' hne' hrr'
    cases i with
    | zero =>
      cases har₁
      exact absurd har hne
    | succ i =>
      cases i' with
      | zero =>
        cases har'
        exact absurd har hne'
      | succ i' => exact h i j ar₁ rr har₁ hne hrr hn i' j' ar' rr' (by omega) har' hne' hrr'

/-- The records that were compared stop the loops where they did before. -/
theorem unstopped_map (name : Text) (ip : Ip) :
    Unstopped malloc additional (records.map (DnsrRr.matched name ip)) ↔ Unstopped malloc additional records := by
  unfold Unstopped
  simp only [List.getElem?_map, Option.map_eq_some_iff]
  constructor
  · intro h i j ar rr har hne hrr hn i' j' ar' rr' hle har' hne' hrr'
    have hstop := h i j ar _ har hne ⟨rr, hrr, rfl⟩ (by rwa [matched_names]) i' j' ar' _ hle har' hne' ⟨rr', hrr', rfl⟩
    rwa [matched_stops] at hstop
  · rintro h i j ar _ har hne ⟨rr, hrr, rfl⟩ hn i' j' ar' _ hle har' hne' ⟨rr', hrr', rfl⟩
    rw [matched_names] at hn
    rw [matched_stops]
    exact h i j ar rr har hne hrr hn i' j' ar' rr' hle har' hne' hrr'

/-- When the first A record is gone through without a stop. -/
theorem unstopped_cons_clean (hclean : ∀ m rr, records[m]? = some rr → stops (malloc 0 m) ar rr = false) :
    Unstopped malloc (ar :: additional) records ↔ Unstopped (fun i => malloc (i + 1)) additional records := by
  constructor
  · intro h i j ar₁ rr har₁ hne hrr hn i' j' ar' rr' hle har' hne' hrr'
    exact h (i + 1) j ar₁ rr har₁ hne hrr hn (i' + 1) j' ar' rr' (by omega) har' hne' hrr'
  · intro h i j ar₁ rr har₁ hne hrr hn i' j' ar' rr' hle har' hne' hrr'
    cases i' with
    | zero =>
      cases har'
      exact hclean j' rr' hrr'
    | succ i' =>
      cases i with
      | zero => omega
      | succ i => exact h i j ar₁ rr har₁ hne hrr hn i' j' ar' rr' (by omega) har' hne' hrr'

/-- When it is stopped at a record: the pairs that belong together are those in front. -/
theorem unstopped_cons_stopped {l₁ l₂ : List DnsrRr} {rr : DnsrRr} (har : ar.address ≠ none)
    (hfront : ∀ m x, l₁[m]? = some x → stops (malloc 0 m) ar x = false)
    (hstop : stops (malloc 0 l₁.length) ar rr = true) :
    Unstopped malloc (ar :: additional) (l₁ ++ rr :: l₂) ↔
      (∀ x ∈ l₁, x.NamesNone additional) ∧ ∀ x ∈ rr :: l₂, x.NamesNone (ar :: additional) := by
  have hself : (l₁ ++ rr :: l₂)[l₁.length]? = some rr := by simp
  constructor
  · intro h
    -- a pair behind the stop is ruled out by it
    have hno : ∀ i j ar₁ x, 0 < i ∨ l₁.length ≤ j → (ar :: additional)[i]? = some ar₁ → ar₁.address ≠ none →
        (l₁ ++ rr :: l₂)[j]? = some x → x.names ar₁ = false := by
      intro i j ar₁ x hlate har₁ hne hx
      by_contra hn
      have hfalse := h i j ar₁ x har₁ hne hx (by simpa using hn) 0 l₁.length ar rr (by omega) rfl har hself
      rw [hstop] at hfalse
      cases hfalse
    constructor
    · intro x hx ar₁ har₁ hne
      obtain ⟨j, hj⟩ := List.mem_iff_getElem?.mp hx
      obtain ⟨i, hi⟩ := List.mem_iff_getElem?.mp har₁
      refine hno (i + 1) j ar₁ x (.inl (Nat.succ_pos i)) hi hne ?_
      rw [List.getElem?_append_left (List.getElem?_eq_some_iff.mp hj).choose, hj]
    · intro x hx ar₁ har₁ hne
      obtain ⟨j, hj⟩ := List.mem_iff_getElem?.mp hx
      obtain ⟨i, hi⟩ := List.mem_iff_getElem?.mp har₁
      refine hno i (l₁.length + j) ar₁ x (.inr (Nat.le_add_right _ _)) hi hne ?_
      rw [List.getElem?_append_right (Nat.le_add_right _ _), Nat.add_sub_cancel_left, hj]
  · rintro ⟨hbefore, hbehind⟩ i j ar₁ x har₁ hne hx hn i' j' ar' rr' hle har' hne' hrr'
    have hmem := List.mem_of_getElem? har₁
    have hlt : j < l₁.length := by
      by_contra hge
      rw [List.getElem?_append_right (by omega)] at hx
      rw [hbehind x (List.mem_of_getElem? hx) ar₁ hmem hne] at hn
      cases hn
    rw [List.getElem?_append_left hlt] at hx
    have hzero : i = 0 := by
      cases i with
      | zero => rfl
      | succ i =>
        rw [hbefore x (List.mem_of_getElem? hx) ar₁ (List.mem_of_getElem? har₁) hne] at hn
        cases hn
    have hi' : i' = 0 := by omega
    subst hi'
    cases har'
    rw [List.getElem?_append_left (by omega)] at hrr'
    exact hfront j' rr' hrr'

/-- **The records as one list**: each is complete if nothing stops the loops in front of a pair, and only then. -/
theorem matchRecords_iff : matchRecords malloc additional records = records.map (fun rr => rr.complete additional) ↔
    Unstopped malloc additional records := by
  induction additional generalizing malloc records with
  | nil =>
    have hcomplete : ∀ rr : DnsrRr, rr.complete [] = rr := fun rr => (complete_eq_iff rr []).mpr (by rintro ar ⟨⟩)
    have hleft : matchRecords malloc [] records = records.map fun rr => rr.complete [] := by
      simp only [hcomplete, List.map_id']
      rfl
    refine ⟨fun _ => ?_, fun _ => hleft⟩
    rintro i j ar rr ⟨⟩
  | cons ar more ih =>
    unfold matchRecords
    split
    · rename_i har
      rw [unstopped_cons_none har, ← ih]
      simp only [complete_cons_none _ har]
    · rename_i ip har
      have hne : ar.address ≠ none := by
        rw [har]
        rintro ⟨⟩
      simp only [complete_cons_some _ har]
      obtain ⟨hclean, hsection⟩ | ⟨l₁, rr, l₂, rfl, hfront, hstop, hsection⟩ :=
        matchSection_spec (malloc 0) ar ip 0 records
      · simp only [Nat.zero_add] at hclean
        rw [hsection, if_neg (by rintro ⟨⟩), unstopped_cons_clean hclean, ← unstopped_map ar.rrName ip, ← ih, List.map_map]
        rfl
      · simp only [Nat.zero_add] at hfront hstop
        rw [hsection, if_pos rfl, unstopped_cons_stopped hne hfront hstop, List.map_append]
        have hleft : l₁.map (DnsrRr.matched ar.rrName ip) = l₁.map (fun x => (x.matched ar.rrName ip).complete more) ↔
            ∀ x ∈ l₁, x.NamesNone more := by
          rw [List.map_inj_left]
          refine forall₂_congr fun x _ => ?_
          rw [eq_comm, complete_eq_iff]
          unfold DnsrRr.NamesNone
          simp only [matched_names]
        have hright : rr :: l₂ = (rr :: l₂).map (fun x => (x.matched ar.rrName ip).complete more) ↔
            ∀ x ∈ rr :: l₂, x.NamesNone (ar :: more) := by
          have hid : rr :: l₂ = (rr :: l₂).map id := (List.map_id _).symm
          have hself : rr :: l₂ = (rr :: l₂).map (fun x => (x.matched ar.rrName ip).complete more) ↔
              (rr :: l₂).map id = (rr :: l₂).map (fun x => (x.matched ar.rrName ip).complete more) := by rw [← hid]
          rw [hself, List.map_inj_left]
          refine forall₂_congr fun x _ => ?_
          rw [← complete_eq_iff, complete_cons_some _ har, eq_comm]
          rfl
        rw [← hleft, ← hright]
        constructor
        · intro h
          exact List.append_inj h (by simp)
        · rintro ⟨h₁, h₂⟩
          exact congrArg₂ _ h₁ h₂

end Loop

/-- **Additional addresses reach every exchanger** exactly when nothing stops the loops in front of a pair that belongs
    together: a record of a type that is not known, or an allocation that fails. -/
theorem matchAdditional_iff (malloc : Nat → Nat → Bool) (result : DnsrResult) :
    Attached result (matchAdditional malloc result) ↔
      Unstopped malloc result.rAdditional (result.rAnswer ++ result.rNs) := by
  have hloop := matchLoop_records malloc 0 result.rAdditional result
  simp only [Nat.zero_add] at hloop
  rw [← matchRecords_iff, ← hloop.records, List.map_append]
  unfold Attached matchAdditional
  constructor
  · intro h
    rw [h]
  · intro h
    obtain ⟨hanswer, hns⟩ := List.append_inj h (by rw [hloop.length, List.length_map])
    have hext : ∀ {r : DnsrResult} {answer ns : List DnsrRr}, r.rAnswer = answer → r.rNs = ns →
        r.rAdditional = result.rAdditional → r = { result with rAnswer := answer, rNs := ns } := by
      rintro ⟨_, _, _⟩ _ _ rfl rfl rfl
      rfl
    exact hext hanswer hns hloop.additional

/-- A result with a TXT record in front of an exchanger, and the exchanger's address. -/
def txtInFront : DnsrResult :=
  let mx : Text := ['m']
  { rAnswer := [⟨['d'], .other, []⟩, ⟨['d'], .mx mx, []⟩], rNs := [], rAdditional := [⟨mx, .a ⟨192, 0, 2, 1⟩, []⟩] }

/-- The exchanger is left without its address. -/
theorem not_attached_txt : ¬Attached txtInFront (matchAdditional (fun _ _ => true) txtInFront) := by
  unfold Attached
  decide

end Simta
