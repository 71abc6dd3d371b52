import Mathlib.Data.Finset.Prod
import Mathlib.Data.List.Basic
import Simta.Lib.Orbit

/-!
# Domain names in a response

`_dnsr_labels_to_name` of `denser`, on the memory that a response begins: what it reads and writes, and when it comes to an
end.

* `labelsToName` — the function, one unit of fuel for each turn of its loop and each call of itself;
* `nameStep` — the next place at which it looks for a label;
* `NameBounded` — what its callers rely on; `labelsToName_iff` — when it holds.
-/

set_option autoImplicit false

namespace Simta

/-- `DNSR_MAX_LABEL`. -/
def dnsrMaxLabel : Nat := 63

/-- `DNSR_MAX_NAME`. -/
def dnsrMaxName : Nat := 255

/-- The dot between two labels. -/
def dot : UInt8 := 46

/-- What a call leaves behind: its cursor, the bytes it has written from `dn_begin` on, and the offsets it has read. -/
structure NameRead where
  ok : Bool
  respCur : Nat
  dn : List UInt8
  reads : List Nat
  deriving DecidableEq, Repr

section Name

variable (mem : Nat → UInt8) (resplen dnEnd : Nat)

/-- The two octets at an offset, as `ntohs` gives them. -/
def twoOctets (cur : Nat) : Nat := (mem cur).toNat * 256 + (mem (cur + 1)).toNat

/-- `_dnsr_labels_to_name`, on the memory from `resp_begin` on and with `dn_end` that far behind `dn_begin`; `none` when the fuel
    is used up.  `DNSR_OFFSET` is the two high bits of the offset. -/
def labelsToName : Nat → Nat → List UInt8 → Option NameRead
  | 0, _, _ => none
  | fuel + 1, cur, dn =>
    if twoOctets mem cur / 0x4000 ≠ 0 then
      if resplen < twoOctets mem cur % 0x4000 then some ⟨false, cur, dn, [cur, cur + 1]⟩
      else
        (labelsToName fuel (twoOctets mem cur % 0x4000) dn).map fun r =>
          { r with respCur := if r.ok then cur + 2 else cur, reads := cur :: (cur + 1) :: r.reads }
    else if resplen ≤ cur then some ⟨false, cur, dn, [cur, cur + 1]⟩
    else
      let len := (mem cur).toNat
      if dnsrMaxLabel < len ∨ resplen < cur + 1 + len ∨ dnEnd < dn.length + len then
        some ⟨false, cur + 1, dn, [cur, cur + 1, cur]⟩
      else if len = 0 then some ⟨true, cur + 1, dn ++ [0], [cur, cur + 1, cur]⟩
      else if dn ≠ [] ∧ dnEnd ≤ dn.length then some ⟨false, cur + 1, dn, [cur, cur + 1, cur]⟩
      else
        let offsets := (List.range len).map (cur + 1 + ·)
        (labelsToName fuel (cur + 1 + len) ((if dn = [] then [] else dn ++ [dot]) ++ offsets.map mem)).map fun r =>
          { r with reads := cur :: (cur + 1) :: cur :: (offsets ++ r.reads) }

/-- From a place at which the function looks for a label, with so many bytes written, the next one. -/
def nameStep : Nat × Nat → Option (Nat × Nat)
  | (cur, written) =>
    if twoOctets mem cur / 0x4000 ≠ 0 then
      if resplen < twoOctets mem cur % 0x4000 then none else some (twoOctets mem cur % 0x4000, written)
    else if resplen ≤ cur then none
    else
      let len := (mem cur).toNat
      if dnsrMaxLabel < len ∨ resplen < cur + 1 + len ∨ dnEnd < written + len then none
      else if len = 0 then none
      else if written ≠ 0 ∧ dnEnd ≤ written then none
      else some (cur + 1 + len, (if written = 0 then 0 else written + 1) + len)

/-- The name that stands at an offset ends in front of another. -/
inductive EncodedName (mem : Nat → UInt8) : Nat → Nat → Prop
  | root {p : Nat} (h : (mem p).toNat = 0) : EncodedName mem p (p + 1)
  | pointer {p : Nat} (h : 64 ≤ (mem p).toNat) : EncodedName mem p (p + 2)
  | label {p q : Nat} (h : 0 < (mem p).toNat ∧ (mem p).toNat < 64) (rest : EncodedName mem (p + 1 + (mem p).toNat) q) :
      EncodedName mem p q

/-- **What is expected of a call** at an offset: it ends, reads only octets of the response, writes from `dn_begin` to `dn_end`,
    and when it succeeds the output ends in a NUL and the cursor stands behind the name. -/
def NameBounded (start : Nat) : Prop :=
  ∃ fuel r, labelsToName mem resplen dnEnd fuel start [] = some r ∧ (∀ p ∈ r.reads, p < resplen) ∧
    r.dn.length ≤ dnEnd + 1 ∧ (r.ok = true → (∃ name, r.dn = name ++ [0]) ∧ EncodedName mem start r.respCur)

/-- From an offset the function looks for labels only where two octets of the response stand, and at no place twice without
    having written in between. -/
structure PlainName (start : Nat) : Prop where
  inside : ∀ n h, orbit (nameStep mem resplen dnEnd) n (start, 0) = some h → h.1 + 1 < resplen
  once : ∀ n h, orbit (nameStep mem resplen dnEnd) n (start, 0) = some h →
    ∀ m, 0 < m → orbit (nameStep mem resplen dnEnd) m h ≠ some h

end Name

/-! ## One turn -/

section Turn

variable {mem : Nat → UInt8} {resplen dnEnd cur : Nat} {dn : List UInt8}

/-- A turn that returns `r`. -/
structure NameStop (mem : Nat → UInt8) (resplen dnEnd cur : Nat) (dn : List UInt8) (r : NameRead) : Prop where
  step : nameStep mem resplen dnEnd (cur, dn.length) = none
  result : ∀ fuel, labelsToName mem resplen dnEnd (fuel + 1) cur dn = some r
  reads : (∀ p ∈ r.reads, p < resplen) ↔ cur + 1 < resplen
  room : dn.length ≤ dnEnd + 1 → r.dn.length ≤ dnEnd + 1
  done : r.ok = true → (∃ name, r.dn = name ++ [0]) ∧ EncodedName mem cur r.respCur

/-- A turn that goes on at `cur'` with `dn'` written; `back` is what it makes of the rest. -/
structure NameGo (mem : Nat → UInt8) (resplen dnEnd cur : Nat) (dn : List UInt8) (cur' : Nat) (dn' : List UInt8)
    (back : NameRead → NameRead) : Prop where
  step : nameStep mem resplen dnEnd (cur, dn.length) = some (cur', dn'.length)
  result : ∀ fuel, labelsToName mem resplen dnEnd (fuel + 1) cur dn = (labelsToName mem resplen dnEnd fuel cur' dn').map back
  reads : ∀ r, (∀ p ∈ (back r).reads, p < resplen) ↔ cur + 1 < resplen ∧ ∀ p ∈ r.reads, p < resplen
  room : dn.length ≤ dnEnd + 1 → dn'.length ≤ dnEnd + 1
  output : ∀ r, (back r).dn = r.dn ∧ (back r).ok = r.ok
  done : ∀ r, r.ok = true → EncodedName mem cur' r.respCur → EncodedName mem cur (back r).respCur

theorem twoOctets_pointer (h : twoOctets mem cur / 0x4000 ≠ 0) : 64 ≤ (mem cur).toNat := by
  have hlow := (mem (cur + 1)).toNat_lt
  unfold twoOctets at h
  omega

theorem twoOctets_label (h : ¬twoOctets mem cur / 0x4000 ≠ 0) : (mem cur).toNat < 64 := by
  unfold twoOctets at h
  omega

theorem reads_here {q : Nat} (hq : q ≤ cur + 1) {rest : List Nat} :
    (∀ p ∈ cur :: (cur + 1) :: q :: rest, p < resplen) ↔ cur + 1 < resplen ∧ ∀ p ∈ rest, p < resplen := by
  simp only [List.forall_mem_cons]
  constructor
  · rintro ⟨-, hnext, -, hrest⟩
    exact ⟨hnext, hrest⟩
  · rintro ⟨hnext, hrest⟩
    exact ⟨by omega, hnext, by omega, hrest⟩

/-- **One turn**: it returns, or goes on. -/
theorem labelsToName_turn (mem : Nat → UInt8) (resplen dnEnd cur : Nat) (dn : List UInt8) :
    (∃ r, NameStop mem resplen dnEnd cur dn r) ∨
      ∃ cur' dn' back, NameGo mem resplen dnEnd cur dn cur' dn' back := by
  have hpair : (∀ p ∈ [cur, cur + 1], p < resplen) ↔ cur + 1 < resplen := by
    simp only [List.forall_mem_cons, List.not_mem_nil]
    constructor
    · rintro ⟨-, hnext, -⟩
      exact hnext
    · intro hnext
      exact ⟨by omega, hnext, by rintro p ⟨⟩⟩
  have hthree : (∀ p ∈ [cur, cur + 1, cur], p < resplen) ↔ cur + 1 < resplen := by
    rw [reads_here (Nat.le_succ cur)]
    exact and_iff_left (by rintro p ⟨⟩)
  by_cases hpointer : twoOctets mem cur / 0x4000 ≠ 0
  · by_cases hoffset : resplen < twoOctets mem cur % 0x4000
    · refine .inl ⟨⟨false, cur, dn, [cur, cur + 1]⟩, ?_, fun fuel => ?_, hpair, id, by rintro ⟨⟩⟩
      · exact (if_pos hpointer).trans (if_pos hoffset)
      · unfold labelsToName
        rw [if_pos hpointer, if_pos hoffset]
    · refine .inr ⟨twoOctets mem cur % 0x4000, dn,
        fun r => { r with respCur := if r.ok then cur + 2 else cur, reads := cur :: (cur + 1) :: r.reads },
        ?_, fun fuel => ?_, fun r => ?_, id, fun r => ⟨rfl, rfl⟩, fun r hr _ => ?_⟩
      · exact (if_pos hpointer).trans (if_neg hoffset)
      · rw [labelsToName, if_pos hpointer, if_neg hoffset]
      · simp only [List.forall_mem_cons]
        constructor
        · rintro ⟨-, hnext, hrest⟩
          exact ⟨hnext, hrest⟩
        · rintro ⟨hnext, hrest⟩
          exact ⟨by omega, hnext, hrest⟩
      · show EncodedName mem cur (if r.ok then cur + 2 else cur)
        rw [if_pos hr]
        exact .pointer (twoOctets_pointer hpointer)
  · have hlabel := twoOctets_label hpointer
    by_cases hcur : resplen ≤ cur
    · refine .inl ⟨⟨false, cur, dn, [cur, cur + 1]⟩, ?_, fun fuel => ?_, hpair, id, by rintro ⟨⟩⟩
      · exact (if_neg hpointer).trans (if_pos hcur)
      · unfold labelsToName
        rw [if_neg hpointer, if_pos hcur]
    by_cases hlen : dnsrMaxLabel < (mem cur).toNat ∨ resplen < cur + 1 + (mem cur).toNat ∨
        dnEnd < dn.length + (mem cur).toNat
    · refine .inl ⟨⟨false, cur + 1, dn, [cur, cur + 1, cur]⟩, ?_, fun fuel => ?_, hthree, id, by rintro ⟨⟩⟩
      · exact (if_neg hpointer).trans ((if_neg hcur).trans (if_pos hlen))
      · unfold labelsToName
        rw [if_neg hpointer, if_neg hcur]
        exact if_pos hlen
    by_cases hroot : (mem cur).toNat = 0
    · refine .inl ⟨⟨true, cur + 1, dn ++ [0], [cur, cur + 1, cur]⟩, ?_, fun fuel => ?_, hthree, fun _ => ?_,
        fun _ => ⟨⟨dn, rfl⟩, .root hroot⟩⟩
      · exact (if_neg hpointer).trans ((if_neg hcur).trans ((if_neg hlen).trans (if_pos hroot)))
      · unfold labelsToName
        rw [if_neg hpointer, if_neg hcur]
        exact (if_neg hlen).trans (if_pos hroot)
      · show (dn ++ [0]).length ≤ dnEnd + 1
        rw [List.length_append, List.length_singleton]
        omega
    by_cases hfull : dn ≠ [] ∧ dnEnd ≤ dn.length
    · refine .inl ⟨⟨false, cur + 1, dn, [cur, cur + 1, cur]⟩, ?_, fun fuel => ?_, hthree, id, by rintro ⟨⟩⟩
      · refine (if_neg hpointer).trans ((if_neg hcur).trans ((if_neg hlen).trans ((if_neg hroot).trans (if_pos ?_))))
        rwa [ne_eq, List.length_eq_zero_iff]
      · unfold labelsToName
        rw [if_neg hpointer, if_neg hcur]
        exact (if_neg hlen).trans ((if_neg hroot).trans (if_pos hfull))
    · have hlength : ((if dn = [] then [] else dn ++ [dot]) ++
          ((List.range (mem cur).toNat).map (cur + 1 + ·)).map mem).length =
            (if dn.length = 0 then 0 else dn.length + 1) + (mem cur).toNat := by
        by_cases hdn : dn = []
        · simp [hdn]
        · rw [if_neg hdn, if_neg (by rwa [List.length_eq_zero_iff])]
          simp
          omega
      refine .inr ⟨cur + 1 + (mem cur).toNat, (if dn = [] then [] else dn ++ [dot]) ++
          ((List.range (mem cur).toNat).map (cur + 1 + ·)).map mem,
        fun r => { r with
          reads := cur :: (cur + 1) :: cur :: ((List.range (mem cur).toNat).map (cur + 1 + ·) ++ r.reads) },
        ?_, fun fuel => ?_, fun r => ?_, fun hdn => ?_, fun r => ⟨rfl, rfl⟩, fun r _ hrest => ?_⟩
      · rw [hlength]
        refine (if_neg hpointer).trans ((if_neg hcur).trans ((if_neg hlen).trans ((if_neg hroot).trans (if_neg ?_))))
        rwa [ne_eq, List.length_eq_zero_iff]
      · rw [labelsToName, if_neg hpointer, if_neg hcur]
        exact (if_neg hlen).trans ((if_neg hroot).trans (if_neg hfull))
      · rw [reads_here (Nat.le_succ cur)]
        refine and_congr_right fun _ => ?_
        rw [List.forall_mem_append]
        refine and_iff_right fun p hp => ?_
        obtain ⟨i, hi, rfl⟩ := List.mem_map.mp hp
        have hlt := List.mem_range.mp hi
        omega
      · rw [hlength]
        by_cases hzero : dn.length = 0
        · rw [if_pos hzero]
          omega
        · rw [if_neg hzero]
          have hne : dn ≠ [] := fun h => hzero (List.length_eq_zero_iff.mpr h)
          have hroom : ¬dnEnd ≤ dn.length := fun h => hfull ⟨hne, h⟩
          omega
      · exact .label ⟨by omega, hlabel⟩ hrest

end Turn

/-! ## A call -/

section Call

variable {mem : Nat → UInt8} {resplen dnEnd cur : Nat} {dn : List UInt8}

/-- A call ends with that fuel if and only if the places at which it looks for a label come to an end. -/
theorem labelsToName_isSome (fuel cur : Nat) (dn : List UInt8) :
    (labelsToName mem resplen dnEnd fuel cur dn).isSome ↔
      orbit (nameStep mem resplen dnEnd) fuel (cur, dn.length) = none := by
  induction fuel generalizing cur dn with
  | zero => simp [labelsToName]
  | succ fuel ih =>
    rw [orbit_succ]
    obtain ⟨r, hstop⟩ | ⟨cur', dn', back, hgo⟩ := labelsToName_turn mem resplen dnEnd cur dn
    · rw [hstop.result, hstop.step]
      simp
    · rw [hgo.result, hgo.step, Option.isSome_map]
      exact ih cur' dn'

/-- What holds of a call that ends. -/
structure NameEnded (mem : Nat → UInt8) (resplen dnEnd cur : Nat) (dn : List UInt8) (r : NameRead) : Prop where
  reads : (∀ p ∈ r.reads, p < resplen) ↔
    ∀ n h, orbit (nameStep mem resplen dnEnd) n (cur, dn.length) = some h → h.1 + 1 < resplen
  room : dn.length ≤ dnEnd + 1 → r.dn.length ≤ dnEnd + 1
  done : r.ok = true → (∃ name, r.dn = name ++ [0]) ∧ EncodedName mem cur r.respCur

theorem labelsToName_ended (fuel cur : Nat) (dn : List UInt8) {r : NameRead}
    (h : labelsToName mem resplen dnEnd fuel cur dn = some r) : NameEnded mem resplen dnEnd cur dn r := by
  induction fuel generalizing cur dn r with
  | zero => cases h
  | succ fuel ih =>
    obtain ⟨r', hstop⟩ | ⟨cur', dn', back, hgo⟩ := labelsToName_turn mem resplen dnEnd cur dn
    · rw [hstop.result] at h
      cases h
      refine ⟨hstop.reads.trans ⟨fun hcur n x hx => ?_, fun hall => hall 0 _ rfl⟩, hstop.room, hstop.done⟩
      cases n with
      | zero =>
        cases hx
        exact hcur
      | succ n =>
        rw [orbit_succ, hstop.step] at hx
        cases hx
    · rw [hgo.result] at h
      obtain ⟨rest, hrest, rfl⟩ := Option.map_eq_some_iff.mp h
      have hended := ih cur' dn' hrest
      refine ⟨?_, fun hdn => ?_, fun hok => ?_⟩
      · rw [hgo.reads, hended.reads]
        constructor
        · rintro ⟨hcur, hall⟩ n x hx
          cases n with
          | zero =>
            cases hx
            exact hcur
          | succ n =>
            rw [orbit_succ, hgo.step] at hx
            exact hall n x hx
        · intro hall
          refine ⟨hall 0 _ rfl, fun n x hx => hall (n + 1) x ?_⟩
          rw [orbit_succ, hgo.step]
          exact hx
      · rw [(hgo.output rest).1]
        exact hended.room (hgo.room hdn)
      · rw [(hgo.output rest).2] at hok
        obtain ⟨hname, hencoded⟩ := hended.done hok
        rw [(hgo.output rest).1]
        exact ⟨hname, hgo.done rest hok hencoded⟩

/-- A place behind another is in the response or at its end. -/
theorem nameStep_le {p q : Nat × Nat} (h : nameStep mem resplen dnEnd p = some q) (hp : p.2 ≤ dnEnd + 1) :
    q.1 ≤ resplen ∧ q.2 ≤ dnEnd + 1 := by
  obtain ⟨cur, written⟩ := p
  unfold nameStep at h
  simp only at h hp
  split at h
  · split at h
    · cases h
    · cases h
      exact ⟨by omega, hp⟩
  · split at h
    · cases h
    split at h
    · cases h
    split at h
    · cases h
    split at h
    · cases h
    · cases h
      refine ⟨by omega, ?_⟩
      show (if written = 0 then 0 else written + 1) + _ ≤ _
      split <;> omega

/-- The places are finitely many. -/
theorem nameStep_mem (start n : Nat) : ∀ h, orbit (nameStep mem resplen dnEnd) n (start, 0) = some h →
    h ∈ Finset.range (start + resplen + 1) ×ˢ Finset.range (dnEnd + 2) := by
  have hrun : ∀ (n : Nat) (p h : Nat × Nat), orbit (nameStep mem resplen dnEnd) n p = some h → p.1 ≤ start + resplen →
      p.2 ≤ dnEnd + 1 → h.1 ≤ start + resplen ∧ h.2 ≤ dnEnd + 1 := by
    intro n
    induction n with
    | zero =>
      rintro p h ⟨⟩ hpos hlen
      exact ⟨hpos, hlen⟩
    | succ n ih =>
      intro p h hh hpos hlen
      rw [orbit_succ] at hh
      obtain ⟨q, hq, hh⟩ := Option.bind_eq_some_iff.mp hh
      obtain ⟨hqpos, hqlen⟩ := nameStep_le hq hlen
      exact ih q h hh (hqpos.trans (Nat.le_add_left _ _)) hqlen
  intro h hh
  obtain ⟨hpos, hlen⟩ := hrun n _ h hh (Nat.le_add_right _ _) (Nat.zero_le _)
  exact Finset.mem_product.mpr ⟨Finset.mem_range.mpr (Nat.lt_succ_of_le hpos), Finset.mem_range.mpr (Nat.lt_succ_of_le hlen)⟩

end Call

/-- **Name decompression** ends and keeps to its bounds exactly if every place at which it looks for a label has two octets of
    the response, and it comes to no place again without having written in between. -/
theorem labelsToName_iff (mem : Nat → UInt8) (resplen dnEnd start : Nat) :
    NameBounded mem resplen dnEnd start ↔ PlainName mem resplen dnEnd start := by
  have hends := orbit_ends_iff (@nameStep_mem mem resplen dnEnd start)
  constructor
  · rintro ⟨fuel, r, hr, hreads, -, -⟩
    have hended := labelsToName_ended fuel start [] hr
    refine ⟨hended.reads.mp hreads, hends.mp ⟨fuel, ?_⟩⟩
    apply (labelsToName_isSome fuel start []).mp
    rw [hr]
    rfl
  · intro h
    obtain ⟨fuel, hfuel⟩ := hends.mpr h.once
    have hsome : (labelsToName mem resplen dnEnd fuel start []).isSome := (labelsToName_isSome fuel start []).mpr hfuel
    obtain ⟨r, hr⟩ := Option.isSome_iff_exists.mp hsome
    have hended := labelsToName_ended fuel start [] hr
    exact ⟨fuel, r, hr, hended.reads.mpr h.inside, hended.room (Nat.zero_le _), hended.done⟩

/-- A pointer to itself, at the start of a response of two octets. -/
def selfPointer : Nat → UInt8
  | 0 => 0xC0
  | _ => 0

/-- The call goes on for ever. -/
theorem not_bounded_selfPointer : ¬NameBounded selfPointer 2 dnsrMaxName 0 := by
  rintro ⟨fuel, r, hr, -⟩
  have hnone : ∀ fuel, labelsToName selfPointer 2 dnsrMaxName fuel 0 [] = none := by
    intro fuel
    induction fuel with
    | zero => rfl
    | succ fuel ih =>
      rw [labelsToName, if_pos (by decide), if_neg (by decide)]
      have hself : twoOctets selfPointer 0 % 0x4000 = 0 := by decide
      rw [hself, ih]
      rfl
  rw [hnone] at hr
  cases hr

end Simta
