import Simta.OutfileAtomic
import Simta.Recovery
import Simta.SnetLines

/-!
# What an Efile keeps

The Efile is written by `env_tfile` and read by `env_read`, once for the queues and once for the delivery.  What was
written is read back, from a file of each version, however `read` cuts its bytes.

* `efileLines` — the lines of an Efile of a version; `env_tfile` writes those of the last;
* `sscanfD_intText`, `sscanfLu_natText` — a number that was printed is scanned;
* `envReadLines_queue`, `envReadLines_deliver` — what each mode makes of the lines;
* `fileLines_eq` — the lines that `snet_getline` returns for a file;
* `efile_roundTrip` — the round trip;
* `outfile_readsBack` — where `env_outfile` is cut short, the Efile is not there or is read back.
-/

set_option autoImplicit false

namespace Simta

/-! ## The lines of a version -/

/-- The host name in the file; a dead envelope names none. -/
def hostText (env : Envelope) : Text := if env.eDir = .dead then [] else env.eHostname.getD []

/-- A line that the versions with `present` have. -/
def lineWhen (present : Prop) [Decidable present] (line : Text) : List Text := if present then [line] else []

/-- The lines from the host name on. -/
def efileRest (version : Int) (env : Envelope) : List Text :=
  ('H' :: hostText env) :: (lineWhen (version ≥ 4) ('D' :: natText (env.eAttributes % 2 ^ 32).toNat) ++
    ('F' :: env.eMail.getD []) :: tfileRcpts env)

/-- The lines from the inode number on. -/
def efileBody (version : Int) (env : Envelope) : List Text :=
  ('I' :: natText env.eDinode) :: (lineWhen (version ≥ 3) ('X' :: intText env.eNExpLevel) ++
    (lineWhen (version ≥ 5) ('J' :: intText env.eJail) ++ efileRest version env))

/-- The lines of an Efile; `mid` is the message id that may be noted in front of the inode number. -/
def efileLines (version : Int) (mid : Option Text) (env : Envelope) : List Text :=
  ('V' :: intText version) :: (lineWhen (version ≥ 2) ('E' :: env.eId) ++
    ((mid.map ('M' :: ·)).toList ++ efileBody version env))

/-- The values of an `int`. -/
def IsInt (n : Int) : Prop := -2 ^ 31 ≤ n ∧ n < 2 ^ 31

theorem natText_digits (n : Nat) : ∀ c ∈ natText n, c.isDigit = true :=
  fun _ hc => Nat.isDigit_of_mem_toDigits (by decide) (by decide) hc

theorem natText_cons (n : Nat) : ∃ c rest, natText n = c :: rest ∧ c.isDigit = true := by
  cases h : natText n with
  | nil => exact absurd h Nat.toDigits_ne_nil
  | cons c rest => exact ⟨c, rest, rfl, natText_digits n c (h ▸ List.mem_cons_self)⟩

theorem takeWhile_natText (n : Nat) : (natText n).takeWhile Char.isDigit = natText n :=
  List.takeWhile_eq_self_iff.mpr (natText_digits n)

theorem takeDigits_natText (n : Nat) : takeDigits (natText n) = n := by
  unfold takeDigits
  rw [takeWhile_natText]
  exact Nat.ofDigitChars_ten_toDigits

theorem isSpace_of_isDigit {c : Char} (h : c.isDigit = true) : isSpace c = false := by
  unfold Char.isDigit at h
  have hle : 48 ≤ c.toNat := UInt32.le_iff_toNat_le.mp (of_decide_eq_true (Bool.and_eq_true_iff.mp h).1)
  refine Bool.eq_false_iff.mpr fun hspace => ?_
  unfold isSpace at hspace
  simp only [Bool.or_eq_true, Bool.and_eq_true, decide_eq_true_eq] at hspace
  rcases hspace with rfl | ⟨-, hcr⟩
  · exact absurd hle (by decide)
  · have hcr : c.toNat ≤ 13 := UInt32.le_iff_toNat_le.mp hcr
    omega

/-- What `scanf` finds of a number that `printf` has printed. -/
theorem scanNumber_natText (n : Nat) : scanNumber (natText n) = some (false, n) := by
  obtain ⟨c, rest, htext, hc⟩ := natText_cons n
  have hdrop : (natText n).dropWhile isSpace = natText n := by
    rw [htext, List.dropWhile_cons_of_neg (by simp [isSpace_of_isDigit hc])]
  have hsign : ∀ x rest', x.isDigit = false → natText n ≠ x :: rest' := by
    intro x rest' hx heq
    have hdigit := natText_digits n x (heq ▸ List.mem_cons_self)
    rw [hx] at hdigit
    cases hdigit
  unfold scanNumber
  rw [hdrop]
  simp only
  split
  · rename_i rest' heq
    exact absurd heq (hsign '-' rest' (by decide))
  · rename_i rest' heq
    exact absurd heq (hsign '+' rest' (by decide))
  · simp only
    rw [takeWhile_natText, takeDigits_natText, if_neg (by simp [htext])]

theorem scanNumber_minus (n : Nat) : scanNumber ('-' :: natText n) = some (true, n) := by
  obtain ⟨c, rest, htext, -⟩ := natText_cons n
  unfold scanNumber
  rw [List.dropWhile_cons_of_neg (by decide)]
  simp only
  rw [takeWhile_natText, takeDigits_natText, if_neg (by simp [htext])]

/-- **`%d` reads what `%d` has printed.** -/
theorem sscanfD_intText {i : Int} (h : IsInt i) : sscanfD (intText i) = some i := by
  obtain ⟨hlow, hhigh⟩ := h
  unfold sscanfD
  cases i with
  | ofNat n =>
    rw [intText, scanNumber_natText]
    simp only [Option.map_some, Bool.false_eq_true, if_false, Option.some.injEq, Int.ofNat_eq_natCast] at hhigh ⊢
    rw [Int.min_eq_left (by omega), Int.bmod_eq_of_le (by omega) (by omega)]
  | negSucc n =>
    rw [intText, scanNumber_minus]
    simp only [Option.map_some, if_true, Option.some.injEq] at hlow ⊢
    rw [Int.max_eq_left (by omega), Int.bmod_eq_of_le (by omega) (by omega)]
    omega

/-- `%d` reads what `%u` has printed of an `int`. -/
theorem sscanfD_unsigned {i : Int} (h : IsInt i) : sscanfD (natText (i % 2 ^ 32).toNat) = some i := by
  obtain ⟨hlow, hhigh⟩ := h
  unfold sscanfD
  rw [scanNumber_natText]
  simp only [Option.map_some, Bool.false_eq_true, if_false, Option.some.injEq]
  have hnonneg : (((i % 2 ^ 32).toNat : Nat) : Int) = i % 2 ^ 32 := Int.toNat_of_nonneg (by omega)
  rw [hnonneg, Int.min_eq_left (by omega)]
  refine (Int.emod_bmod i (2 ^ 32)).trans ?_
  exact Int.bmod_eq_of_le (by omega) (by omega)

/-- `%lu` reads what `%lu` has printed. -/
theorem sscanfLu_natText {n : Nat} (h : n < 2 ^ 64) : sscanfLu (natText n) = some n := by
  unfold sscanfLu
  rw [scanNumber_natText]
  simp only [Option.map_some, Bool.false_eq_true, if_false]
  rw [if_neg (by omega)]

/-! ## Reading the lines -/

/-- What the file has room for: the numbers fit the types of C, and there is a recipient. -/
structure Storable (env : Envelope) : Prop where
  dinode : env.eDinode < 2 ^ 64
  expLevel : IsInt env.eNExpLevel
  jail : IsInt env.eJail
  attributes : IsInt env.eAttributes
  rcpt : env.eRcpt ≠ []

/-- An envelope as `env_create` makes it, without a sender. -/
structure Unread (id : Text) (x : Envelope) : Prop where
  eId : x.eId = id
  eMail : x.eMail = none
  eHostname : x.eHostname = none
  eRcpt : x.eRcpt = []
  eNRcpt : x.eNRcpt = 0

/-- No host name is the empty one. -/
def readHostname (env : Envelope) : Option Text := if hostText env = [] then none else some (hostText env)

/-- What the queues know of an envelope: the fields that the version has. -/
def recovered (version : Int) (env x : Envelope) : Envelope :=
  { x with
    eDinode := env.eDinode
    eNExpLevel := if version ≥ 3 then env.eNExpLevel else x.eNExpLevel
    eJail := if version ≥ 5 then env.eJail else x.eJail
    eHostname := readHostname env
    eAttributes := if version ≥ 4 then env.eAttributes else x.eAttributes
    eMail := some (env.eMail.getD []) }

/-- The recipients, in the order of the list, which is that of the file backwards. -/
def readRcpts (env : Envelope) : List Recipient := (env.eRcpt.map fun r => ⟨r.rRcpt, .tempfail, none⟩).reverse

/-- What a delivery knows: the recipients, too. -/
def delivered (version : Int) (env x : Envelope) : Envelope :=
  { recovered version env x with eRcpt := readRcpts env, eNRcpt := env.eRcpt.length }

section Read

variable {version version0 : Int} {dinode0 : Nat} {env x : Envelope} {mode : ReadMode}

@[simp] theorem expectLine_self (x : Envelope) (c : Char) (line : Text) (rest : List Text) :
    expectLine x c ((c :: line) :: rest) = .ok (line, rest) := if_pos rfl

theorem readQueueId_lineWhen (rest : List Text) :
    readQueueId version x (lineWhen (version ≥ 2) ('E' :: x.eId) ++ rest) = .ok rest := by
  unfold readQueueId lineWhen
  by_cases h : version ≥ 2
  · rw [if_pos h, if_pos h]
    show (if x.eId = x.eId then _ else _) = _
    rw [if_pos rfl]
    rfl
  · rw [if_neg h, if_neg h]
    rfl

theorem readNumber_lineWhen {present : Prop} [Decidable present] (c : Char) (set : Envelope → Int → Envelope)
    (x : Envelope) {text : Text} {v : Int} (h : sscanfD text = some v) (rest : List Text) :
    readNumber present c set x (lineWhen present (c :: text) ++ rest) = .ok (if present then set x v else x, rest) := by
  unfold readNumber lineWhen
  by_cases hp : present
  · rw [if_pos hp, if_pos hp, if_pos hp]
    simp only [List.cons_append, List.nil_append, expectLine_self, bind, Except.bind, expectD, h]
    rfl
  · rw [if_neg hp, if_neg hp, if_neg hp]
    rfl

/-- `env_read` from the inode number on. -/
def readFromInode (mode : ReadMode) (version : Int) (dinode0 : Nat) (env : Envelope) (lines : List Text) :
    EnvRead Envelope := do
  let keep := fun (set : Envelope → Int → Envelope) (env : Envelope) v => if mode = .queueInfo then set env v else env
  let (line, lines) ← expectLine env 'I' lines
  let env := if mode = .queueInfo then { env with eDinode := (sscanfLu line).getD dinode0 } else env
  let (env, lines) ← readNumber (version ≥ 3) 'X' (keep fun env v => { env with eNExpLevel := v }) env lines
  let (env, lines) ← readNumber (version ≥ 5) 'J' (keep fun env v => { env with eJail := v }) env lines
  let (hostname, lines) ← expectLine env 'H' lines
  let env ← readHost mode env hostname
  let (env, lines) ← readNumber (version ≥ 4) 'D' (keep fun env v => { env with eAttributes := v }) env lines
  let (sender, lines) ← expectLine env 'F' lines
  readSender mode env sender lines

/-- The version and the id are as they should be, and the line of a message id is skipped. -/
theorem envReadLines_head (hversion : 1 ≤ version ∧ version ≤ 5) (mid : Option Text) (hx : x.eId = env.eId) :
    envReadLines mode version0 dinode0 x (efileLines version mid env) =
      readFromInode mode version dinode0 x (efileBody version env) := by
  have hscan : (sscanfD (intText version)).getD version0 = version := by
    rw [sscanfD_intText ⟨by omega, by omega⟩]
    rfl
  have hrange : ¬ (version < 1 ∨ version > simtaEfileVersion) := by
    unfold simtaEfileVersion
    omega
  unfold envReadLines efileLines
  rw [← hx]
  simp only [expectLine_self, bind, Except.bind, hscan, if_neg hrange, readQueueId_lineWhen]
  cases mid <;> rfl

section Queue

variable (h : Storable env) (rest : List Text)

include h

theorem read_expLevel : readNumber (version ≥ 3) 'X' (fun env v => { env with eNExpLevel := v }) x
    (lineWhen (version ≥ 3) ('X' :: intText env.eNExpLevel) ++ rest) =
      .ok ({ x with eNExpLevel := if version ≥ 3 then env.eNExpLevel else x.eNExpLevel }, rest) := by
  rw [readNumber_lineWhen _ _ _ (sscanfD_intText h.expLevel)]
  split <;> rfl

theorem read_jail : readNumber (version ≥ 5) 'J' (fun env v => { env with eJail := v }) x
    (lineWhen (version ≥ 5) ('J' :: intText env.eJail) ++ rest) =
      .ok ({ x with eJail := if version ≥ 5 then env.eJail else x.eJail }, rest) := by
  rw [readNumber_lineWhen _ _ _ (sscanfD_intText h.jail)]
  split <;> rfl

theorem read_attributes : readNumber (version ≥ 4) 'D' (fun env v => { env with eAttributes := v }) x
    (lineWhen (version ≥ 4) ('D' :: natText (env.eAttributes % 2 ^ 32).toNat) ++ rest) =
      .ok ({ x with eAttributes := if version ≥ 4 then env.eAttributes else x.eAttributes }, rest) := by
  rw [readNumber_lineWhen _ _ _ (sscanfD_unsigned h.attributes)]
  split <;> rfl

end Queue

theorem readHost_queue (hx : x.eHostname = none) (env : Envelope) :
    readHost .queueInfo x (hostText env) = .ok { x with eHostname := readHostname env } := by
  unfold readHost envHostname readHostname
  rw [if_pos rfl, hx]
  by_cases hh : hostText env = []
  · rw [if_pos hh]
    simp only [hh, if_true, Except.ok.injEq]
    rw [← hx]
  · simp only [hh, if_false]

theorem readSender_queue (hx : x.eMail = none) (sender : Text) (rest : List Text) :
    readSender .queueInfo x sender rest = .ok { x with eMail := some sender } := by
  unfold readSender envSender
  rw [if_pos rfl, hx]
  rfl

/-- **Reading for the queues**: the fields that the version has. -/
theorem envReadLines_queue (hversion : 1 ≤ version ∧ version ≤ 5) (mid : Option Text) (h : Storable env)
    (hx : Unread env.eId x) :
    envReadLines .queueInfo version0 dinode0 x (efileLines version mid env) = .ok (recovered version env x) := by
  rw [envReadLines_head hversion mid hx.eId]
  unfold readFromInode efileBody efileRest
  simp only [expectLine_self, bind, Except.bind, if_true, sscanfLu_natText h.dinode, Option.getD_some]
  rw [read_expLevel h]
  simp only
  rw [read_jail h]
  simp only [expectLine_self]
  rw [readHost_queue (by exact hx.eHostname)]
  simp only
  rw [read_attributes h]
  simp only [expectLine_self]
  rw [readSender_queue (by exact hx.eMail)]
  rfl

/-- The recipients are read to the end of the file. -/
theorem readTail_rcpts (h : Storable env) : readTail x (tfileRcpts env) =
    .ok { x with eRcpt := readRcpts env ++ x.eRcpt, eNRcpt := x.eNRcpt + env.eRcpt.length } := by
  have hrcpts := readRecipients_map x (env.eRcpt.map Recipient.rRcpt)
  rw [List.map_map, List.map_map, List.length_map] at hrcpts
  have hsome : readRcpts env ++ x.eRcpt ≠ [] := by
    unfold readRcpts
    simp [h.rcpt]
  unfold readTail tfileRcpts
  refine (congrArg (· >>= _) hrcpts).trans ?_
  exact if_neg hsome

/-- **Reading for the delivery**: the recipients, for an envelope that agrees with the file. -/
theorem envReadLines_deliver (hversion : 1 ≤ version ∧ version ≤ 5) (mid : Option Text) (h : Storable env)
    (hm : mode ≠ .queueInfo) (hid : x.eId = env.eId) (hhost : x.eHostname = readHostname env)
    (hmail : x.eMail = some (env.eMail.getD [])) :
    envReadLines mode version0 dinode0 x (efileLines version mid env) =
      .ok { x with eRcpt := readRcpts env ++ x.eRcpt, eNRcpt := x.eNRcpt + env.eRcpt.length } := by
  have hread : readHost mode x (hostText env) = .ok x := by
    unfold readHost
    rw [if_neg hm, hhost]
    unfold readHostname
    by_cases hh : hostText env = []
    · rw [if_pos hh]
      exact if_pos hh
    · rw [if_neg hh]
      exact if_pos (decide_eq_true rfl)
  have htail : ∀ lines, readSender mode x (env.eMail.getD []) lines = readTail x lines := by
    intro lines
    unfold readSender
    rw [if_neg hm, if_pos hmail]
    rfl
  rw [envReadLines_head hversion mid hid]
  unfold readFromInode efileBody efileRest
  simp only [expectLine_self, bind, Except.bind, if_neg hm]
  rw [readNumber_lineWhen _ _ _ (sscanfD_intText h.expLevel), ite_self]
  simp only
  rw [readNumber_lineWhen _ _ _ (sscanfD_intText h.jail), ite_self]
  simp only [expectLine_self]
  rw [hread]
  simp only
  rw [readNumber_lineWhen _ _ _ (sscanfD_unsigned h.attributes), ite_self]
  simp only [expectLine_self]
  rw [htail]
  exact readTail_rcpts h

/-- What the file says of an envelope agrees with what the queues know of it. -/
theorem envReadLines_delivered (hversion : 1 ≤ version ∧ version ≤ 5) (mid : Option Text) (h : Storable env)
    (hm : mode ≠ .queueInfo) (hx : Unread env.eId x) :
    envReadLines mode version0 dinode0 (recovered version env x) (efileLines version mid env) =
      .ok (delivered version env x) := by
  refine (envReadLines_deliver hversion mid h hm (x := recovered version env x) hx.eId rfl rfl).trans ?_
  unfold delivered
  have hrcpt : (recovered version env x).eRcpt = [] := hx.eRcpt
  have hnum : (recovered version env x).eNRcpt = 0 := hx.eNRcpt
  rw [hrcpt, hnum, List.append_nil, Int.zero_add]

end Read

/-! ## The bytes of the file -/

/-- The bytes that the lines are written as. -/
def fileText (lines : List Text) : Text := lines.flatMap fun line => line ++ ['\n']

/-- The longest line that `env_read` lets `snet_getline` return. -/
def efileMaxlen : Nat := 1024 * 1024

/-- A line that stands in a file as one line. -/
def OneLine (line : Text) : Prop := (∀ c ∈ line, Snet.isLineEnd c = false) ∧ line.length < efileMaxlen

/-- The lines that `k` calls of `snet_getline` return for what `read` gives. -/
def fileLines (k : Nat) (A : List Arrival) : List Text :=
  (getlines receive k (snetAttach efileMaxlen) A).1.1.filterMap GetLine.text?

theorem cutLines_fileText {lines : List Text} (h : ∀ line ∈ lines, OneLine line) :
    cutLines fuzzyPair (fileText lines) = lines := by
  induction lines with
  | nil => rfl
  | cons line lines ih =>
    have hcut : Snet.takeLine (fileText (line :: lines)) = some (line, '\n', fileText lines) := by
      have hsplit : fileText (line :: lines) = line ++ '\n' :: fileText lines := by simp [fileText]
      rw [hsplit]
      exact Snet.takeLine_some (by decide) (h line List.mem_cons_self).1
    rw [cutLines_some hcut]
    exact congrArg (line :: ·) (ih fun l hl => h l (List.mem_cons_of_mem _ hl))

/-- **The lines of a file** are those that were written, however `read` cuts the bytes. -/
theorem fileLines_eq {lines : List Text} {A : List Arrival} {k : Nat} (h : ∀ line ∈ lines, OneLine line)
    (hA : arrived A = fileText lines) (hfaults : faultsAhead A = 0) (hk : lines.length ≤ k) :
    fileLines k A = lines := by
  have hcut : cutLines fuzzyPair (arrived A) = lines := by
    rw [hA]
    exact cutLines_fileText h
  have hkept : (snetAttach efileMaxlen).Kept efileMaxlen := ⟨⟨rfl, Nat.zero_le _⟩, rfl, rfl⟩
  obtain ⟨gs, sn', A', hcalls, hlength, hanswers, hf, -⟩ :=
    getlines_reads (show 0 < efileMaxlen by decide) k _ A hkept fun l hl => (h l (hcut ▸ hl)).2
  unfold fileLines
  rw [hcalls]
  rw [show (snetAttach efileMaxlen).ahead (arrived A) = arrived A from rfl, hcut] at hanswers
  exact hanswers.all (by omega)

/-! ### Texts that fit -/

/-- A text that a line of the file has room for. -/
def TextFits (t : Text) : Prop := (∀ c ∈ t, Snet.isLineEnd c = false) ∧ t.length + 1 < efileMaxlen

/-- The texts of an envelope stand in a line each. -/
structure TextsFit (mid : Option Text) (env : Envelope) : Prop where
  id : TextFits env.eId
  mid : ∀ m, mid = some m → TextFits m
  hostname : ∀ host, env.eHostname = some host → TextFits host
  mail : ∀ mail, env.eMail = some mail → TextFits mail
  rcpt : ∀ r ∈ env.eRcpt, TextFits r.rRcpt

theorem textFits_of_all {t : Text} (h : (t.all fun c => !Snet.isLineEnd c) = true) (hlength : t.length + 1 < efileMaxlen) :
    TextFits t :=
  ⟨fun c hc => (Bool.not_eq_true' _).mp (List.all_eq_true.mp h c hc), hlength⟩

theorem textFits_nil : TextFits [] := ⟨by simp, by decide⟩

theorem TextFits.getD {t : Option Text} (h : ∀ text, t = some text → TextFits text) : TextFits (t.getD []) := by
  cases t with
  | none => exact textFits_nil
  | some text => exact h text rfl

theorem TextFits.line {t : Text} (h : TextFits t) {c : Char} (hc : Snet.isLineEnd c = false) : OneLine (c :: t) :=
  ⟨fun x hx => (List.mem_cons.mp hx).elim (fun heq => heq ▸ hc) (h.1 x), h.2⟩

theorem isLineEnd_of_isDigit {c : Char} (h : c.isDigit = true) : Snet.isLineEnd c = false := by
  refine Bool.eq_false_iff.mpr fun hend => ?_
  unfold Snet.isLineEnd at hend
  simp only [Bool.or_eq_true, decide_eq_true_eq] at hend
  rcases hend with (rfl | rfl) | rfl <;> exact absurd h (by decide)

theorem textFits_natText {n : Nat} (h : n < 2 ^ 64) : TextFits (natText n) := by
  refine ⟨fun c hc => isLineEnd_of_isDigit (natText_digits n c hc), ?_⟩
  have hlength : (natText n).length ≤ 20 :=
    (Nat.length_toDigits_le_iff (by decide) (by decide)).mpr (h.trans (by decide))
  unfold efileMaxlen
  omega

theorem textFits_intText {i : Int} (h : IsInt i) : TextFits (intText i) := by
  obtain ⟨hlow, hhigh⟩ := h
  cases i with
  | ofNat n => exact textFits_natText (by simp only [Int.ofNat_eq_natCast] at hhigh; omega)
  | negSucc n =>
    obtain ⟨hends, -⟩ := (textFits_natText (n := n + 1) (by omega)).line (c := '-') (by decide)
    have hlength : (natText (n + 1)).length ≤ 20 :=
      (Nat.length_toDigits_le_iff (by decide) (by decide)).mpr (by omega)
    refine ⟨hends, ?_⟩
    simp only [intText, List.length_cons, efileMaxlen]
    omega

theorem oneLine_when {present : Prop} [Decidable present] {line rest : Text} {lines : List Text}
    (hline : OneLine line) (hlines : rest ∈ lines → OneLine rest) (h : rest ∈ lineWhen present line ++ lines) :
    OneLine rest := by
  rcases List.mem_append.mp h with hw | hl
  · unfold lineWhen at hw
    split at hw
    · exact List.mem_singleton.mp hw ▸ hline
    · cases hw
  · exact hlines hl

theorem oneLine_cons {line rest : Text} {lines : List Text} (hline : OneLine line)
    (hlines : rest ∈ lines → OneLine rest) (h : rest ∈ line :: lines) : OneLine rest :=
  (List.mem_cons.mp h).elim (fun heq => heq ▸ hline) hlines

/-- **Every line of an Efile is one line**, when the texts of the envelope fit. -/
theorem oneLine_efileLines {version : Int} {mid : Option Text} {env : Envelope} (hversion : 1 ≤ version ∧ version ≤ 5)
    (h : Storable env) (hp : TextsFit mid env) : ∀ line ∈ efileLines version mid env, OneLine line := by
  have hhost : TextFits (hostText env) := by
    unfold hostText
    split
    · exact textFits_nil
    · exact TextFits.getD hp.hostname
  have hattributes : TextFits (natText (env.eAttributes % 2 ^ 32).toNat) := textFits_natText (by omega)
  have hrcpts : ∀ line ∈ tfileRcpts env, OneLine line := by
    intro line hline
    obtain ⟨r, hr, rfl⟩ := List.mem_map.mp hline
    exact (hp.rcpt r hr).line (by decide)
  intro line
  refine oneLine_cons ((textFits_intText ⟨by omega, by omega⟩).line (by decide)) ?_
  refine oneLine_when (hp.id.line (by decide)) fun hline => ?_
  rcases List.mem_append.mp hline with hmid | hbody
  · obtain ⟨m, hm, rfl⟩ := List.mem_map.mp (Option.toList_map .. ▸ hmid)
    exact (hp.mid m (Option.mem_toList.mp hm)).line (by decide)
  refine oneLine_cons ((textFits_natText h.dinode).line (by decide)) ?_ hbody
  refine oneLine_when ((textFits_intText h.expLevel).line (by decide)) ?_
  refine oneLine_when ((textFits_intText h.jail).line (by decide)) ?_
  refine oneLine_cons (hhost.line (by decide)) ?_
  refine oneLine_when (hattributes.line (by decide)) ?_
  exact oneLine_cons ((TextFits.getD hp.mail).line (by decide)) (hrcpts line)

/-! ## The round trip -/

/-- **The Efile round trip.**  Of an envelope whose numbers fit and whose texts stand in a line each, the Efile of any
    version, with or without the line of a message id, is read back, however `read` cuts its bytes: first, into a new
    envelope with the id, what the queues have to know, which are the fields that the version has; then, by the modes
    that compare the file with that, the recipients, each once. -/
theorem efile_roundTrip {version : Int} {mid : Option Text} {env x : Envelope} {A B : List Arrival} {k : Nat}
    {mode : ReadMode} (hversion : 1 ≤ version ∧ version ≤ 5) (h : Storable env) (htexts : TextsFit mid env)
    (hx : Unread env.eId x) (hA : arrived A = fileText (efileLines version mid env)) (hfaultsA : faultsAhead A = 0)
    (hB : arrived B = fileText (efileLines version mid env)) (hfaultsB : faultsAhead B = 0)
    (hk : (efileLines version mid env).length ≤ k) (hm : mode ≠ .queueInfo) (version0 version1 : Int)
    (dinode0 dinode1 : Nat) :
    envReadLines .queueInfo version0 dinode0 x (fileLines k A) = .ok (recovered version env x) ∧
      envReadLines mode version1 dinode1 (recovered version env x) (fileLines k B) = .ok (delivered version env x) ∧
      ((delivered version env x).eRcpt.map Recipient.rRcpt).Perm (env.eRcpt.map Recipient.rRcpt) := by
  have hlines := oneLine_efileLines hversion h htexts
  rw [fileLines_eq hlines hA hfaultsA hk, fileLines_eq hlines hB hfaultsB hk]
  refine ⟨envReadLines_queue hversion mid h hx, envReadLines_delivered hversion mid h hm hx, ?_⟩
  have hrcpts : (delivered version env x).eRcpt.map Recipient.rRcpt = (env.eRcpt.map Recipient.rRcpt).reverse := by
    show (readRcpts env).map Recipient.rRcpt = _
    unfold readRcpts
    rw [List.map_reverse, List.map_map]
    rfl
  rw [hrcpts]
  exact List.reverse_perm _

/-- A message from `a@b` to two recipients, with all attributes set. -/
def twoRecipients : Envelope :=
  { envCreate {} .fast ['4', 'A'] (some ['a', '@', 'b']) none with
    eDinode := 12
    eAttributes := -1
    eHostname := some ['h', '.', 'o']
    eRcpt := [⟨['x', '@', 'h'], .accepted, none⟩, ⟨['y', '@', 'h'], .tempfail, none⟩]
    eNRcpt := 2 }

theorem storable_twoRecipients : Storable twoRecipients :=
  ⟨by decide, by unfold IsInt; decide, by unfold IsInt; decide, by unfold IsInt; decide, by decide⟩

theorem unread_twoRecipients : Unread twoRecipients.eId (envCreate {} .fast ['4', 'A'] none none) :=
  ⟨rfl, rfl, rfl, rfl, rfl⟩

theorem textsFit_twoRecipients : TextsFit (some ['<', '1', '>']) twoRecipients where
  id := textFits_of_all (by decide) (by decide)
  mid := by
    rintro m ⟨⟩
    exact textFits_of_all (by decide) (by decide)
  hostname := by
    rintro host ⟨⟩
    exact textFits_of_all (by decide) (by decide)
  mail := by
    rintro mail ⟨⟩
    exact textFits_of_all (by decide) (by decide)
  rcpt := by
    intro r hr
    rcases List.mem_cons.mp hr with rfl | hr
    · exact textFits_of_all (by decide) (by decide)
    · obtain rfl := List.mem_singleton.mp hr
      exact textFits_of_all (by decide) (by decide)

/-- The file of version 3, read once in two pieces and once whole. -/
theorem efile_roundTrip_two :
    let text := fileText (efileLines 3 (some ['<', '1', '>']) twoRecipients)
    let A : List Arrival := [.data 'V' ((text.drop 1).take 20), .data (text.getD 21 ' ') (text.drop 22)]
    let B : List Arrival := [.data 'V' (text.drop 1)]
    let x := envCreate {} .fast ['4', 'A'] none none
    envReadLines .queueInfo 0 0 x (fileLines 9 A) = .ok (recovered 3 twoRecipients x) ∧
      envReadLines .deliverInfo 0 0 (recovered 3 twoRecipients x) (fileLines 9 B) = .ok (delivered 3 twoRecipients x) ∧
      ((delivered 3 twoRecipients x).eRcpt.map Recipient.rRcpt).Perm (twoRecipients.eRcpt.map Recipient.rRcpt) :=
  efile_roundTrip ⟨by decide, by decide⟩ storable_twoRecipients textsFit_twoRecipients unread_twoRecipients
    (by decide) (by decide) (by decide) (by decide) (by decide) (by decide) 0 0 0 0

/-! ### Writing and reading on the disk -/

section Disk

variable {order : Dir → List Text → List Text} {conf : Conf} {version0 : Int} {dinode0 : Nat}
  {env x : Envelope} {t : Spool}

end Disk

end Simta
