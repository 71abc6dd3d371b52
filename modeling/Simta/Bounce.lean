import Simta.EnvOutfile

/-!
# Bounces

`bounce_snet`: a message to the sender that names the recipients which failed, in an envelope of
its own.  It is split where the text of the message is copied, for its callers read that text from
different places.

* `bounceReport`, `bounceClose` — what stands before the copy and what stands behind it;
* `copyMessage` — the copy, over any way of reading a line and of printing one;
* `bounceReport_spec`, `bounceClose_spec` — under every pattern of failures nothing but the files of
  the bounce has changed, and a bounce that is returned has its Efile and its Dfile.
-/

set_option autoImplicit false

namespace Simta

open Directory (lookup_insert_ite lookup_erase_ite)

/-- What `bounce_snet` reads of the host queue. -/
structure BounceHost where
  hqHostname : Text
  hqErrText : Option (List Text)
  deriving DecidableEq, Repr

/-! ## The envelope -/

/-- The recipients that a bounce names: all of a message that is bounced, else those that failed. -/
def bouncing (env : Envelope) (r : Recipient) : Bool := env.eFlags.bounce || decide (r.rStatus = .failed)

/-- A postmaster among them puts the bounce in the dead queue. -/
def bounceDir (env : Envelope) : Dir :=
  if env.eRcpt.any fun r => bouncing env r && decide (r.rRcpt = []) then .dead else .fast

/-- Where the bounce goes. -/
def returnAddress (conf : Conf) (env : Envelope) : Text :=
  match conf.jailBounceAddress with
  | some addr => if env.eJail = envJailPrisoner then addr else env.eMail.getD []
  | none => env.eMail.getD []

/-- The envelope of the bounce, with the id that `env_create` found for it. -/
def bounceEnvelope (conf : Conf) (env : Envelope) (id : Text) : Envelope :=
  let b := envCreate conf (bounceDir env) id (some []) (some env)
  envRecipient
    (if conf.mailJail ∧ ¬ conf.bounceJail then { b with eJail := envJailNoChange } else b)
    (returnAddress conf env)

/-! ## The report -/

/-- `simta_host_is_jailhost`. -/
def hostIsJailhost (conf : Conf) (host : Text) : Bool :=
  match conf.jailHost with
  | some jailHost => strcaseEq jailHost host
  | none => false

/-- `host_or_jailhost`. -/
def hostOrJailhost (conf : Conf) (host : Text) : Text :=
  if hostIsJailhost conf host then "quarantine host".toList else "host".toList

/-- `old_or_jailed`. -/
def oldOrJailed (env : Envelope) : Text :=
  if env.eJail = envJailPrisoner then "quarantined".toList else "undeliverable".toList

def bounceTo (conf : Conf) (r : Recipient) : Text :=
  if r.rRcpt = [] then "To: <postmaster@".toList ++ conf.hostname ++ ">".toList
  else "To: <".toList ++ r.rRcpt ++ ">".toList

def bounceHeader (conf : Conf) (b : Envelope) (daytime : Text) : List Text :=
  ["From: <mailer-daemon@".toList ++ conf.hostname ++ ">".toList] ++ b.eRcpt.map (bounceTo conf) ++
  ["Date: ".toList ++ daytime,
    "Message-ID: <".toList ++ b.eId ++ "@".toList ++ conf.hostname ++ ">".toList,
    "Subject: undeliverable mail".toList, [],
    "Message delivery failed for one or more recipients, check specific errors below".toList, []]

def bounceAge (env : Envelope) : List Text :=
  if env.eAge = .old then ["This message is old and ".toList ++ oldOrJailed env ++ ".".toList, []] else []

def bounceHostText (conf : Conf) (env : Envelope) (hq : Option BounceHost) (err : Option Text) :
    List Text :=
  if env.eJail = envJailPrisoner then []
  else
    match hq with
    | none =>
      [err.getD "An error occurred during the expansion of the message recipients.".toList, []]
    | some hq =>
      match hq.hqErrText with
      | some text => ["The following error occurred during delivery to ".toList ++
          hostOrJailhost conf hq.hqHostname ++ " ".toList ++ hq.hqHostname ++ ":".toList] ++ text ++ [[]]
      | none => ["An error occurred during delivery to ".toList ++
          hostOrJailhost conf hq.hqHostname ++ " ".toList ++ hq.hqHostname ++ ".".toList, []]

def bounceEnvText (env : Envelope) (err : Option Text) : List Text :=
  match env.eErrText with
  | none => []
  | some text =>
    ["The following error occurred during delivery of message ".toList ++ env.eId ++ ":".toList, []] ++
    (match err with | some e => [e, []] | none => []) ++ text ++ [[]]

/-- `address <r>` with the replies that were kept for it. -/
def bounceAddress (r : Recipient) : List Text :=
  ["address ".toList ++ r.rRcpt] ++ r.rErrText.getD [] ++ [[]]

/-- The lines that stand before the text of the message. -/
def bounceText (conf : Conf) (env b : Envelope) (hq : Option BounceHost) (err : Option Text)
    (daytime : Text) (copies : Bool) : List Text :=
  bounceHeader conf b daytime ++ bounceAge env ++ bounceHostText conf env hq err ++
  bounceEnvText env err ++ ((env.eRcpt.filter (bouncing env)).map bounceAddress).flatten ++
  (if copies then ["Bounced message:".toList, []] else [])

/-! ## The function -/

/-- Calls of `fprintf` that nobody checks. -/
def printAll (p : Path) : List Text → SpoolProg Unit
  | [] => return ()
  | line :: rest => do
    let _ ← Sys.print p line
    printAll p rest

/-- The label `cleanup2`. -/
def bounceUnlink {α : Type} (b : Envelope) (a : α) : SpoolProg α := do
  let _ ← Sys.unlink b.dfile
  return a

/-- `bounce_snet` up to the text of the message; whether the Dfile is there with the report in it. -/
def bounceReport (b : Envelope) (text : List Text) : SpoolProg Bool := do
  if ← Sys.creat b.dfile then
    if ← Sys.fdopen b.dfile then
      if ← Sys.localtime then
        printAll b.dfile text
        return true
      else bounceUnlink b false
    else bounceUnlink b false
  else return false

/-- `while (( line = snet_getline( sn, NULL )) != NULL )`, for at most as many lines as `n` says. -/
def copyMessage {m : Type → Type} [Monad m] (getline : m (Option Text)) (print : Text → m Unit) :
    Nat → m Unit
  | 0 => return ()
  | n + 1 => do
    match ← getline with
    | none => return ()
    | some line =>
      print line
      copyMessage getline print n

/-- `bounce_snet` from the `fstat` on; the outer `none` is the `panic` of `env_outfile`. -/
def bounceClose (conf : Conf) (b : Envelope) : SpoolProg (Option (Option Envelope)) := do
  match ← Sys.stat b.dfile with
  | none => bounceUnlink b (some none)
  | some (ino, _) =>
    if ← Sys.fclose b.dfile then
      match ← envOutfile conf { b with eDinode := ino } with
      | none => return none
      | some (0, b) => return some (some b)
      | some (_, b) => bounceUnlink b (some none)
    else bounceUnlink b (some none)

/-! ## What they leave -/

/-- The files of an envelope. -/
def Envelope.Files (b : Envelope) (q : Path) : Prop := q = b.efile ∨ q = b.dfile ∨ q = b.tfile

section Specs

variable {order : Dir → List Text → List Text} {conf : Conf} {b : Envelope} {s t u : Spool}

/-- The Dfile of the bounce is there, and nothing else has changed. -/
structure Reporting (b : Envelope) (s t : Spool) : Prop where
  frame : Spool.Frame (· = b.dfile) s t
  there : t.names.lookup b.dfile = some s.fresh
  fresh : t.fresh = s.fresh + 1
  fastFiles : t.fastFiles = s.fastFiles
  late : t.Late → s.Late

theorem Reporting.quiet (h : Reporting b s t) (hq : t.Quiet u) : Reporting b s u :=
  ⟨h.frame.trans (hq.frame _), by rw [hq.names, h.there], hq.fresh.trans h.fresh,
    hq.fastFiles.trans h.fastFiles, h.late ∘ hq.late⟩

theorem Reporting.print (h : Reporting b s t) (line : Text) : Reporting b s
    { t with data := fun j => if j = s.fresh then t.data j ++ [line] else t.data j } := by
  refine ⟨⟨h.frame.names, fun j hj => ?_, h.frame.fresh⟩, h.there, h.fresh, h.fastFiles, h.late⟩
  exact (if_neg (by omega)).trans (h.frame.data j hj)

theorem reporting_created : Reporting b s (s.created b.dfile) :=
  ⟨Spool.frame_created (P := (· = b.dfile)) rfl, (lookup_insert_ite _ _ _ _).trans (if_pos rfl), rfl, rfl,
    id⟩

/-- Only the files of the bounce have changed. -/
abbrev BounceOnly (b : Envelope) (s t : Spool) : Prop := Spool.Frame b.Files s t

theorem Reporting.only (h : Reporting b s t) : BounceOnly b s t := h.frame.mono fun _ hq => .inr (.inl hq)

theorem bounceUnlink_spec {α : Type} {a : α} {Q : α → Spool → Prop} (hs : BounceOnly b s t)
    (hQ : ∀ u, BounceOnly b s u → Q a u) :
    (bounceUnlink b a).wpF (spool order) spoolFault Q (BounceOnly b s) t := by
  have herase : BounceOnly b s (t.setNames (t.names.erase b.dfile)) :=
    hs.trans (Spool.frame_erase (.inr (.inl rfl)))
  have hq : t.Quiet (t.fail (.unlink b.dfile)) := t.quiet_fail nofun nofun
  have hfail : BounceOnly b s (t.fail (.unlink b.dfile)) := hs.trans (hq.frame _)
  exact wpF_unlink hs (fun _ => ⟨hQ _ herase, herase⟩) (fun _ => ⟨hQ _ hs, hs⟩) ⟨hQ _ hfail, hfail⟩

theorem printAll_spec (ls : List Text) : ∀ {t : Spool}, Reporting b s t →
    (printAll b.dfile ls).wpF (spool order) spoolFault (fun _ u => Reporting b s u)
      (BounceOnly b s) t := by
  induction ls with
  | nil => exact fun h => ⟨h, h.only⟩
  | cons line rest ih =>
    intro t h
    refine wpF_print h.only (fun i hi => ?_) fun u hq => ih (h.quiet hq)
    rw [h.there] at hi
    cases hi
    exact ih (h.print line)

/-- **The report under every pattern of failures.** -/
theorem bounceReport_spec (b : Envelope) (text : List Text) (s : Spool) :
    (bounceReport b text).wpF (spool order) spoolFault
      (fun ok t => if ok then Reporting b s t else BounceOnly b s t) (BounceOnly b s) s := by
  have hstart : BounceOnly b s s := .refl _ s
  refine wpF_creat hstart (fun _ => ?_) fun t hq => ⟨hq.frame _, hq.frame _⟩
  refine wpF_fdopen reporting_created.only fun ok t hq => ?_
  have ht := reporting_created.quiet hq
  cases ok with
  | false => exact bounceUnlink_spec ht.only fun _ h => h
  | true =>
    refine wpF_localtime ht.only fun ok u hq => ?_
    have hu := ht.quiet hq
    cases ok with
    | false => exact bounceUnlink_spec hu.only fun _ h => h
    | true => exact Prog.wpF_seq (printAll_spec text hu) (fun _ => id) fun _ v hv _ => ⟨hv, hv.only⟩

/-- What the end of `bounce_snet` returns. -/
inductive BounceDone (b : Envelope) (s : Spool) : Option (Option Envelope) → Spool → Prop
  | panic {t : Spool} (only : BounceOnly b s t) : BounceDone b s none t
  | failed {t : Spool} (only : BounceOnly b s t) : BounceDone b s (some none) t
  | made {t : Spool} (ino : Nat) (now : Int) (only : BounceOnly b s t) (efile : b.efile ∈ t.names)
      (dfile : b.dfile ∈ t.names) :
      BounceDone b s (some (some ((Envelope.renamed { b with eDinode := ino }).touched now))) t

/-- **The end of a bounce under every pattern of failures.** -/
theorem bounceClose_spec (h : Reporting b s t) :
    (bounceClose conf b).wpF (spool order) spoolFault (BounceDone b s) (BounceOnly b s) t := by
  refine wpF_stat h.only fun answer u hq => ?_
  have hu := h.quiet hq
  cases answer with
  | none => exact bounceUnlink_spec hu.only fun _ h => .failed h
  | some inoNlink =>
    refine wpF_fclose hu.only fun ok v hq => ?_
    have hv := hu.quiet hq
    cases ok with
    | false => exact bounceUnlink_spec hv.only fun _ h => .failed h
    | true =>
      have hstop : ∀ w, OutfileStop { b with eDinode := inoNlink.1 } v w → BounceOnly b s w :=
        fun w hw => hv.only.trans ⟨fun q hq => hw.names q (fun he => hq (.inl he))
          fun ht => hq (.inr (.inr ht)), fun j hj => hw.data j (by omega), hw.fresh⟩
      refine Prog.wpF_seq (envOutfile_spec conf _ v) hstop ?_
      intro r w hdone hw
      have honly := hstop w hw
      cases hdone with
      | panic only => exact ⟨.panic honly, honly⟩
      | failed _ only => exact bounceUnlink_spec honly fun _ h => .failed h
      | late now placed late => exact bounceUnlink_spec honly fun _ h => .failed h
      | placed now placed late =>
        refine ⟨.made inoNlink.1 now honly ?_ ?_, honly⟩
        · obtain ⟨i, hi, -⟩ := placed.there
          exact Directory.mem_iff_lookup.mpr ⟨i, hi⟩
        · refine Directory.mem_iff_lookup.mpr ⟨s.fresh, ?_⟩
          rw [placed.names b.dfile (dfile_ne_efile _ _ _ _) (dfile_ne_tfile _ _ _ _), hv.there]

end Specs

end Simta
