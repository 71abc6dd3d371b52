import Simta.Spool

/-!
# Buffered lines

The reading half of `libsnet`: a buffer over a descriptor, lines ended by LF, CR, CR LF or NUL.
Each `read` of the descriptor is asked for through a monad, so one definition serves a socket and
a file.

* `Snet.hasdata`, `Snet.readByte` — `snet_hasdata` and `snet_read` of one buffered byte;
* `Snet.getline` — `snet_getline`, with every way it returns `NULL` told apart.
-/

set_option autoImplicit false

namespace Simta

/-- `SNET_BOL`, `SNET_FUZZY`, `SNET_IN`. -/
inductive SnetState
  | bol
  | fuzzy
  | inLine
  deriving DecidableEq, Repr

/-- What a `read` of the descriptor gives. -/
inductive ReadResult
  | data (bytes : Text)
  | eof
  | error (timedOut : Bool)
  deriving DecidableEq, Repr

/-- A line, or `NULL` with its cause. -/
inductive GetLine
  | line (l : Text)
  | eof
  | error (timedOut : Bool)
  | tooLong
  deriving DecidableEq, Repr

/-- `SNET`.  `snBuf` is what lies between `sn_rcur` and `sn_rend`; `snOver` holds when `sn_rcur` is
    one past `sn_rend`, as a last line without its LF leaves it; `snBad` once bytes were stored in
    front of `sn_rbuf`. -/
structure Snet where
  snBuf : Text
  snRbuflen : Nat
  snMaxlen : Nat
  snRstate : SnetState
  snTls : Bool
  snOver : Bool
  snBad : Bool
  deriving DecidableEq, Repr

/-- `SNET_BUFLEN`. -/
def snetBuflen : Nat := 4096

/-- `snet_attach`, once its allocations have succeeded. -/
def snetAttach (max : Nat) : Snet := ⟨[], snetBuflen, max, .bol, false, false, false⟩

namespace Snet

/-- The LF that belongs to a CR at the end of the line before. -/
def dropFuzzy (sn : Snet) : Snet :=
  match sn.snRstate, sn.snBuf with
  | .fuzzy, '\n' :: rest => { sn with snBuf := rest, snRstate := .bol }
  | _, _ => sn

/-- `snet_hasdata`: in the fuzzy state it leaves the line start behind. -/
def hasdata (sn : Snet) : Bool × Snet :=
  match sn.snBuf with
  | [] => (false, sn)
  | _ :: _ =>
    let sn := { sn.dropFuzzy with
      snRstate := if sn.snRstate = .fuzzy then .bol else sn.snRstate }
    (!sn.snBuf.isEmpty, sn)

/-- `snet_read` of one byte while the buffer has data. -/
def readByte (sn : Snet) : Snet := { sn.hasdata.2 with snBuf := sn.hasdata.2.snBuf.tail }

def isLineEnd (c : Char) : Bool := c = '\r' || c = '\x00' || c = '\n'

/-- The line at the front of a buffer, what ends it and what follows. -/
def takeLine (buf : Text) : Option (Text × Char × Text) :=
  match buf.dropWhile (!isLineEnd ·) with
  | [] => none
  | c :: rest => some (buf.takeWhile (!isLineEnd ·), c, rest)

/-- The state after the characters of an unfinished line. -/
def scanned (sn : Snet) : Snet :=
  { sn with snRstate := if sn.snBuf.isEmpty then sn.snRstate else .inLine }

/-- Store what was read behind the buffer.  Behind an `snOver` buffer the first byte lands in front
    of `sn_rbuf`. -/
def store (sn : Snet) (bytes : Text) : Snet :=
  if sn.snOver then { sn with snBuf := bytes.tail, snOver := false, snBad := true }
  else { sn with snBuf := sn.snBuf ++ bytes }

/-- The room that the next `read` asks for; `none` when the line has reached `sn_maxlen`. -/
def expand (sn : Snet) : Option Snet :=
  if sn.snBuf.length = sn.snRbuflen then
    if sn.snMaxlen ≠ 0 ∧ sn.snMaxlen ≤ sn.snRbuflen then none
    else some { sn with snRbuflen := sn.snRbuflen + snetBuflen }
  else some sn

/-- The loop of `snet_getline`, with a bound on the number of its reads. -/
def getlineLoop {m : Type → Type} [Monad m] (read : Nat → m ReadResult) :
    Nat → Snet → m (GetLine × Snet)
  | 0, sn => return (.tooLong, sn)
  | fuel + 1, sn => do
    let sn := sn.dropFuzzy
    match takeLine sn.snBuf with
    | some (line, c, rest) =>
      return (.line line, { sn with
        snBuf := rest, snRstate := if c = '\n' then .bol else .fuzzy })
    | none =>
      let sn := sn.scanned
      match sn.expand with
      | none => return (.tooLong, sn)
      | some sn =>
        match ← read (sn.snRbuflen - sn.snBuf.length) with
        | .data bytes =>
          if bytes = [] then return (.eof, sn) else getlineLoop read fuel (sn.store bytes)
        | .error timedOut => return (.error timedOut, sn)
        | .eof =>
          if sn.snBuf = [] then return (.eof, sn)
          else return (.line sn.snBuf, { sn with snBuf := [], snOver := true })

/-- `snet_getline`.  A read that gives data gives at least one byte, so a line of `sn_maxlen` bytes
    is reached within the bound. -/
def getline {m : Type → Type} [Monad m] (read : Nat → m ReadResult) (sn : Snet) :
    m (GetLine × Snet) :=
  getlineLoop read (sn.snMaxlen + snetBuflen + 1) sn

/-! ## Emptying the buffer -/

theorem hasdata_of_nil {sn : Snet} (h : sn.snBuf = []) : sn.hasdata = (false, sn) := by
  simp [hasdata, h]

theorem hasdata_snTls (sn : Snet) (b : Bool) : ({ sn with snTls := b } : Snet).hasdata.1 = sn.hasdata.1 := by
  obtain ⟨buf, len, max, state, tls, ovr, bad⟩ := sn
  cases buf with
  | nil => rfl
  | cons c rest =>
    cases state with
    | bol => rfl
    | inLine => rfl
    | fuzzy =>
      unfold hasdata dropFuzzy
      by_cases hc : c = '\n'
      · subst hc
        rfl
      · simp [hc]

theorem hasdata_length (sn : Snet) : sn.hasdata.2.snBuf.length ≤ sn.snBuf.length := by
  unfold hasdata
  split
  · exact le_refl _
  · unfold dropFuzzy
    split
    · rename_i h
      simp [h]
    · exact le_refl _

theorem hasdata_eq_false {sn : Snet} (h : sn.hasdata.1 = false) : sn.hasdata.2.snBuf = [] := by
  unfold hasdata at h ⊢
  split
  · assumption
  · rename_i heq
    simp only [heq] at h
    simpa using h

theorem readByte_length {sn : Snet} (h : sn.hasdata.1 = true) :
    sn.readByte.snBuf.length < sn.snBuf.length := by
  have hne : sn.hasdata.2.snBuf ≠ [] := by
    unfold hasdata at h ⊢
    split at h
    · cases h
    · simpa using h
  have hpos : 0 < sn.hasdata.2.snBuf.length := List.length_pos_iff.mpr hne
  have hle := hasdata_length sn
  have htail : sn.readByte.snBuf.length = sn.hasdata.2.snBuf.length - 1 := List.length_tail
  omega

/-- `while ( snet_hasdata( sn )) snet_read( sn, … , 1, … )`: a buffered byte can always be read. -/
def drain (sn : Snet) : Snet :=
  if sn.hasdata.1 then sn.readByte.drain else sn.hasdata.2
termination_by sn.snBuf.length
decreasing_by exact readByte_length ‹_›

theorem drain_snBuf (sn : Snet) : sn.drain.snBuf = [] := by
  induction sn using drain.induct with
  | case1 sn h ih => rw [drain, if_pos h, ih]
  | case2 sn h => rw [drain, if_neg h, hasdata_eq_false (by simpa using h)]

end Snet

end Simta
