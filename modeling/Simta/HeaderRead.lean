import Simta.HeaderNames

/-!
# The headers that the recipients are read from

Whose addresses `header_correct` puts into the envelope.

* `lineFor_ne` — headers with other letters are other lines;
* `ReadTo`, `Addrs` — what a header is read to;
* `headerCorrect_reads` — whose addresses come to the envelope;
* `headers_read_iff` — when these are the recipients of the message.
-/

set_option autoImplicit false

namespace Simta

variable {conf : HeaderConf} {lines : List Text} {pre : List Nat} {l : Nat}

/-! ## The lines that are found -/

/-- A line is taken for headers with one first letter only. -/
theorem begins_letter (hblock : headerBlock lines = true) (hl : l < lines.length) {key : HeadKey}
    (h : begins lines key l = true) :
    (key.hKey.map Char.toLower).head? = ((lines.getD l []).map Char.toLower).head? := by
  unfold begins at h
  obtain ⟨hfolds, hmatch⟩ := Bool.and_eq_true_iff.mp h
  obtain ⟨name, body, hname, hline, hfield⟩ := fieldName_some (headerBlock_line hblock hl (by simpa using hfolds))
  have hlineName : lineName (lines.getD l []) = name := by
    have hcolon : ∀ c ∈ name, decide (c ≠ ':') = true := by
      intro c hc
      have hc := hfield c hc
      unfold isFieldName at hc
      simp only [Bool.and_eq_true] at hc
      exact hc.1.1
    unfold lineName
    rw [hline, List.takeWhile_append_of_pos hcolon, List.takeWhile_cons, if_neg (by decide), List.append_nil]
  rw [hlineName] at hmatch
  have hequal := of_decide_eq_true hmatch
  rw [hline]
  cases name with
  | nil => exact absurd rfl hname
  | cons c name =>
    rw [List.length_cons] at hequal
    cases hkey : key.hKey with
    | nil =>
      rw [hkey] at hequal
      cases hequal
    | cons d rest =>
      rw [hkey, List.take_succ_cons, List.map_cons, List.map_cons] at hequal
      simp only [List.map_cons, List.cons_append, List.head?_cons]
      rw [(List.cons.inj hequal).1]

theorem lineFor_spec {key : HeadKey} (h : lineFor lines key = some l) :
    l < lines.length ∧ folds (lines.getD l []) = false ∧ begins lines key l = true := by
  have hbegins := List.find?_some h
  obtain ⟨hfolds, -⟩ := Bool.and_eq_true_iff.mp hbegins
  exact ⟨List.mem_range.mp (List.mem_of_find?_eq_some h), by simpa using hfolds, hbegins⟩

/-- **Headers with other letters are other lines.** -/
theorem lineFor_ne (hblock : headerBlock lines = true) {key key' : HeadKey} {l' : Nat}
    (hne : (key.hKey.map Char.toLower).head? ≠ (key'.hKey.map Char.toLower).head?) (h : lineFor lines key = some l)
    (h' : lineFor lines key' = some l') : l ≠ l' := by
  rintro rfl
  obtain ⟨hl, -, hbegins⟩ := lineFor_spec h
  obtain ⟨-, -, hbegins'⟩ := lineFor_spec h'
  exact hne ((begins_letter hblock hl hbegins).trans (begins_letter hblock hl hbegins').symm)

/-! ## The addresses of a header -/

/-- How the addresses of a header are read. -/
def headerParse (conf : HeaderConf) (key : HeadKey) (rounds : Nat) (f : Field) : Except ParseStop ParsedList :=
  match key with
  | .headSender => parseMailboxList conf true .sender rounds f 0 ⟨0, 7⟩
  | key => parseRecipients conf true rounds f 0 ⟨0, key.hKey.length + 1⟩

/-- What a header is read to. -/
def ReadTo (conf : HeaderConf) (key : HeadKey) (f : Field) (r : ParsedList) : Prop :=
  ∃ rounds, headerParse conf key rounds f = .ok r

theorem headerParse_more {key : HeadKey} {rounds : Nat} {f : Field} {r : ParsedList}
    (h : headerParse conf key rounds f = .ok r) : headerParse conf key (rounds + 1) f = .ok r := by
  unfold headerParse at h ⊢
  split at h
  · exact parseMailboxList_more h
  · exact parseRecipients_more h

theorem headerParse_mono {key : HeadKey} {n m : Nat} (hnm : n ≤ m) {f : Field} {r : ParsedList}
    (h : headerParse conf key n f = .ok r) : headerParse conf key m f = .ok r := by
  induction hnm with
  | refl => exact h
  | step _ ih => exact headerParse_more ih

theorem ReadTo.unique {key : HeadKey} {f : Field} {r r' : ParsedList} (h : ReadTo conf key f r)
    (h' : ReadTo conf key f r') : r = r' := by
  obtain ⟨n, h⟩ := h
  obtain ⟨m, h'⟩ := h'
  have hn := headerParse_mono (Nat.le_max_left n m) h
  rw [headerParse_mono (Nat.le_max_right n m) h'] at hn
  exact (Except.ok.inj hn).symm

theorem headerParse_spec {key : HeadKey} {rounds : Nat} {f : Field} {r : ParsedList}
    (h : headerParse conf key rounds f = .ok r) : r.Of conf true f := by
  unfold headerParse at h
  split at h
  · exact parseMailboxList_spec h
  · exact parseRecipients_spec h

theorem ReadTo.rcpts_ne {key : HeadKey} {f : Field} {r : ParsedList} (h : ReadTo conf key f r) : r.rcpts ≠ [] := by
  obtain ⟨rounds, h⟩ := h
  intro hnil
  cases (headerParse_spec h).2.mp hnil

/-- The addresses of a header that begins with that line, if there is one. -/
def Addrs (conf : HeaderConf) (lines : List Text) (key : HeadKey) (line : Option Nat) (addrs : List Text) : Prop :=
  match line with
  | none => addrs = []
  | some l => ∃ r, ReadTo conf key (fieldTexts lines l) r ∧ addrs = r.rcpts

theorem Addrs.unique {key : HeadKey} {line : Option Nat} {addrs addrs' : List Text} (h : Addrs conf lines key line addrs)
    (h' : Addrs conf lines key line addrs') : addrs = addrs' := by
  cases line with
  | none => exact Eq.trans h (Eq.symm h')
  | some l =>
    obtain ⟨r, hr, rfl⟩ := h
    obtain ⟨r', hr', rfl⟩ := h'
    rw [hr.unique hr']

/-- A header that is there has addresses. -/
theorem Addrs.eq_nil {key : HeadKey} {line : Option Nat} {addrs : List Text} (h : Addrs conf lines key line addrs) :
    addrs = [] ↔ line = none := by
  cases line with
  | none => exact ⟨fun _ => rfl, fun _ => h⟩
  | some l =>
    obtain ⟨r, hr, rfl⟩ := h
    exact ⟨fun hnil => absurd hnil hr.rcpts_ne, (fun h => by cases h)⟩

/-- The lines of the headers that are found for `keys`. -/
def readIds (lines : List Text) (keys : List HeadKey) : List Nat :=
  keys.flatMap fun key => ((lineFor lines key).map (fieldIds lines)).getD []

theorem readIds_none {key : HeadKey} (h : lineFor lines key = none) (keys : List HeadKey) :
    readIds lines (key :: keys) = readIds lines keys := by
  unfold readIds
  rw [List.flatMap_cons, h]
  rfl

theorem readIds_some {key : HeadKey} (h : lineFor lines key = some l) (keys : List HeadKey) :
    readIds lines (key :: keys) = fieldIds lines l ++ readIds lines keys := by
  unfold readIds
  rw [List.flatMap_cons, h]
  rfl

/-- A header shares no line with headers of other letters. -/
theorem notMem_readIds (hblock : headerBlock lines = true) {key : HeadKey} {keys : List HeadKey}
    (hne : ∀ k ∈ keys, (key.hKey.map Char.toLower).head? ≠ (k.hKey.map Char.toLower).head?)
    (h : lineFor lines key = some l) : ∀ i ∈ fieldIds lines l, i ∉ readIds lines keys := by
  intro i hi hread
  obtain ⟨k, hk, hmem⟩ := List.mem_flatMap.mp hread
  cases hline : lineFor lines k with
  | none =>
    rw [hline] at hmem
    cases hmem
  | some l' =>
    rw [hline] at hmem
    obtain ⟨-, hfolds, -⟩ := lineFor_spec h
    obtain ⟨-, hfolds', -⟩ := lineFor_spec hline
    exact fieldIds_disjoint (lineFor_ne hblock (hne k hk) h hline) hfolds hfolds' hi hmem

/-- A header that is read two times: the addresses of the first time, and those of the second, when the local parts
    have domains. -/
def ReadTwice (conf : HeaderConf) (key : HeadKey) (f : Field) (once twice : List Text) : Prop :=
  ∃ r r', ReadTo conf key f r ∧ ReadTo conf key r.field r' ∧ once = r.rcpts ∧ twice = r'.rcpts

/-! ## The headers in turn -/

/-- The addresses of the recipients. -/
def Envelope.addresses (env : Envelope) : List Text := env.eRcpt.map Recipient.rRcpt

theorem addresses_envRecipients (rcpts : List Text) : ∀ env : Envelope,
    (rcpts.foldl envRecipient env).addresses.Perm (rcpts ++ env.addresses) := by
  induction rcpts with
  | nil => exact fun env => .refl _
  | cons addr rcpts ih =>
    intro env
    calc ((rcpts.foldl envRecipient (envRecipient env addr)).addresses).Perm
          (rcpts ++ addr :: env.addresses) := ih (envRecipient env addr)
      List.Perm _ (addr :: (rcpts ++ env.addresses)) := List.perm_middle

variable {s s' : Correction} {keys : List HeadKey} {touched : List Nat} {rounds off : Nat}

/-- **A header whose recipients are read** the first time. -/
theorem Intact.recipients (hblock : headerBlock lines = true) {key : HeadKey}
    (h : Intact conf lines pre (readIds lines keys) s.lf)
    (hne : ∀ k ∈ keys, (key.hKey.map Char.toLower).head? ≠ (k.hKey.map Char.toLower).head?)
    {parse : Field → CharPtr → Except ParseStop ParsedList}
    (hparse : ∀ f, parse f ⟨0, off⟩ = headerParse conf key rounds f) (hl : lineFor lines key = some l)
    (hrun : s.recipients l off parse = .ok s') :
    ∃ r, ReadTo conf key (fieldTexts lines l) r ∧ Intact conf lines pre (readIds lines (key :: keys)) s'.lf ∧
      s'.lf.texts (fieldIds lines l) = r.field ∧ s'.env = r.rcpts.foldl envRecipient s.env := by
  obtain ⟨hlt, -, -⟩ := lineFor_spec hl
  unfold Correction.recipients at hrun
  cases hfield : Simta.onField s.lf l off parse with
  | error stop =>
    rw [hfield] at hrun
    cases hrun
  | ok r =>
    rw [hfield] at hrun
    cases hrun
    have hcompleted : ∀ f r, parse f ⟨0, off⟩ = .ok r → f.Completed conf.simtaDomain r.field := by
      intro f r hr
      rw [hparse f] at hr
      exact (headerParse_spec hr).1
    obtain ⟨hread, hintact, htexts⟩ := h.onField hlt hcompleted hfield
    rw [hparse, h.texts hlt (notMem_readIds hblock hne hl)] at hread
    refine ⟨r.2, ⟨rounds, hread⟩, ?_, htexts, rfl⟩
    rw [readIds_some hl]
    exact hintact

/-- **From:** leaves the recipients. -/
theorem Intact.correctFrom (h : Intact conf lines [] (readIds lines []) s.lf)
    (hrun : correctFrom conf rounds (lineFor lines) s = .ok s') :
    ∃ pre, Intact conf lines pre (readIds lines [.headFrom]) s'.lf ∧ s'.env = s.env := by
  unfold Simta.correctFrom at hrun
  split at hrun
  · rename_i l hl
    obtain ⟨hlt, -, -⟩ := lineFor_spec hl
    cases hfield : Simta.onField s.lf l 5 (parseMailboxList conf false .fromCorrect rounds · 0 ·) with
    | error stop =>
      rw [hfield] at hrun
      cases hrun
    | ok r =>
      rw [hfield] at hrun
      cases hrun
      obtain ⟨-, hintact, -⟩ := h.onField hlt (fun f r hr => (parseMailboxList_spec hr).1) hfield
      refine ⟨[], ?_, rfl⟩
      rw [readIds_some hl]
      exact hintact
  · rename_i hnone
    cases hrun
    refine ⟨[s.lf.fresh], ?_, rfl⟩
    rw [readIds_none hnone]
    exact h.prepend _

/-- **Sender:**, whose address comes to the envelope. -/
theorem Intact.correctSender (hblock : headerBlock lines = true)
    (h : Intact conf lines pre (readIds lines [.headFrom]) s.lf)
    (hrun : correctSender conf rounds (lineFor lines) s = .ok s') :
    ∃ pre sender, Addrs conf lines .headSender (lineFor lines .headSender) sender ∧
      Intact conf lines pre (readIds lines [.headSender, .headFrom]) s'.lf ∧
      s'.env = sender.foldl envRecipient s.env := by
  unfold Simta.correctSender at hrun
  split at hrun
  · rename_i l hl
    obtain ⟨r, hread, hintact, -, henv⟩ := h.recipients hblock (by decide) (fun f => rfl) hl hrun
    refine ⟨pre, r.rcpts, ?_, hintact, henv⟩
    rw [hl]
    exact ⟨r, hread, rfl⟩
  · rename_i hnone
    rw [readIds_none hnone]
    split at hrun
    · cases hrun
      exact ⟨s.lf.fresh :: pre, [], by rw [hnone]; rfl, h.prepend _, rfl⟩
    · cases hrun
      exact ⟨pre, [], by rw [hnone]; rfl, h, rfl⟩

theorem Intact.correctDate {daytime : Option Text} {H : HeadLines} (h : Intact conf lines pre touched s.lf)
    (hrun : correctDate daytime H s = .ok s') : ∃ pre, Intact conf lines pre touched s'.lf ∧ s'.env = s.env := by
  unfold Simta.correctDate at hrun
  split at hrun
  · cases hrun
    exact ⟨pre, h, rfl⟩
  · split at hrun
    · cases hrun
    · cases hrun
      exact ⟨s.lf.fresh :: pre, h.prepend _, rfl⟩

theorem Intact.correctMessageId {H : HeadLines} (h : Intact conf lines pre touched s.lf) :
    ∃ pre, Intact conf lines pre touched (correctMessageId conf H s).lf ∧ (correctMessageId conf H s).env = s.env := by
  unfold Simta.correctMessageId
  split
  · exact ⟨pre, h, rfl⟩
  · exact ⟨s.lf.fresh :: pre, h.prepend _, rfl⟩

/-- What is read for Cc:, after To: was read to `once`: the lines of To:, for the second time. -/
def Again (conf : HeaderConf) (lines : List Text) (once again : List Text) : Prop :=
  match lineFor lines .headCc with
  | none => again = []
  | some _ => ∃ t, lineFor lines .headTo = some t ∧ ReadTwice conf .headTo (fieldTexts lines t) once again

/-- **To: and Cc:**, both of which read the lines of To:. -/
theorem Intact.correctToCc (hblock : headerBlock lines = true) {s'' : Correction}
    (h : Intact conf lines pre (readIds lines [.headSender, .headFrom]) s.lf)
    (hto : correctTo conf true rounds (lineFor lines) s = .ok s')
    (hcc : correctCc conf true rounds (lineFor lines) s' = .ok s'') :
    ∃ once again, Addrs conf lines .headTo (lineFor lines .headTo) once ∧ Again conf lines once again ∧
      Intact conf lines pre (readIds lines [.headTo, .headSender, .headFrom]) s''.lf ∧
      s''.env = again.foldl envRecipient (once.foldl envRecipient s.env) := by
  unfold correctTo at hto
  unfold correctCc at hcc
  unfold Again
  split at hto
  · rename_i l hl
    obtain ⟨r, hread, hintact, htexts, henv⟩ := h.recipients hblock (by decide) (fun f => rfl) hl hto
    have haddrs : Addrs conf lines .headTo (lineFor lines .headTo) r.rcpts := by
      rw [hl]
      exact ⟨r, hread, rfl⟩
    rw [hl] at hcc
    cases hline : lineFor lines .headCc with
    | none =>
      rw [hline] at hcc
      cases hcc
      exact ⟨r.rcpts, [], haddrs, rfl, hintact, henv⟩
    | some c =>
      rw [hline] at hcc
      dsimp only at hcc
      unfold Correction.recipients at hcc
      cases hfield : Simta.onField s'.lf l 3 (parseRecipients conf true rounds · 0 ·) with
      | error stop =>
        rw [hfield] at hcc
        cases hcc
      | ok r' =>
        rw [hfield] at hcc
        cases hcc
        obtain ⟨hread', hintact', -⟩ :=
          hintact.onField (lineFor_spec hl).1 (fun f r hr => (parseRecipients_spec hr).1) hfield
        rw [htexts] at hread'
        refine ⟨r.rcpts, r'.2.rcpts, haddrs, ⟨l, hl, r, r'.2, hread, ⟨rounds, hread'⟩, rfl, rfl⟩, ?_, ?_⟩
        · apply hintact'.mono
          intro i hi
          rw [readIds_some hl] at hi ⊢
          rcases List.mem_append.mp hi with hi | hi
          · exact List.mem_append_left _ hi
          · exact hi
        · exact congrArg (r'.2.rcpts.foldl envRecipient) henv
  · rename_i hnone
    cases hto
    rw [readIds_none hnone]
    cases hline : lineFor lines .headCc with
    | none =>
      rw [hline] at hcc
      cases hcc
      exact ⟨[], [], by rw [hnone]; rfl, rfl, h, rfl⟩
    | some c =>
      rw [hline, hnone] at hcc
      cases hcc

/-- **Bcc:**, whose lines are taken out of the list. -/
theorem Intact.correctBcc (hblock : headerBlock lines = true)
    (h : Intact conf lines pre (readIds lines [.headTo, .headSender, .headFrom]) s.lf)
    (hrun : correctBcc conf true rounds (lineFor lines) s = .ok s') :
    ∃ bcc, Addrs conf lines .headBcc (lineFor lines .headBcc) bcc ∧ s'.env = bcc.foldl envRecipient s.env ∧
      s'.lf.reached = pre ++ (List.range lines.length).filter (fun i => i ∉ readIds lines [.headBcc]) ∧
      ∀ i, i < lines.length → Completed conf.simtaDomain (lines.getD i []) (s'.lf.heap i).lineData := by
  unfold Simta.correctBcc at hrun
  split at hrun
  · rename_i l hl
    cases hrcpts : s.recipients l 4 (parseRecipients conf true rounds · 0 ·) with
    | error stop =>
      rw [hrcpts] at hrun
      cases hrun
    | ok s₁ =>
      rw [hrcpts] at hrun
      cases hrun
      obtain ⟨r, hread, hintact, -, henv⟩ := h.recipients hblock (by decide) (fun f => rfl) hl hrcpts
      obtain ⟨hreached, hdata⟩ := hintact.removed (lineFor_spec hl).1
      refine ⟨r.rcpts, by rw [hl]; exact ⟨r, hread, rfl⟩, henv, ?_, ?_⟩
      · rw [readIds_some hl]
        show (removeBcc s₁.lf l).reached = _
        rw [hreached]
        simp [readIds]
      · intro i hi
        show Completed _ _ ((removeBcc s₁.lf l).heap i).lineData
        rw [hdata i]
        exact hintact.completed i hi
  · rename_i hnone
    cases hrun
    refine ⟨[], by rw [hnone]; rfl, rfl, ?_, h.completed⟩
    rw [h.list.reached_eq, readIds_none hnone]
    simp [readIds]

/-- **Whose addresses come to the envelope**: those of Sender:, of To:, of To: again for Cc:, and of Bcc:. -/
theorem headerCorrect_reads (hblock : headerBlock lines = true) {daytime : Option Text} {env : Envelope}
    {r : LineFile × Envelope} (hrun : headerCorrect conf daytime true rounds (lineFile lines) env = .ok r) :
    (∃ sender once again bcc, Addrs conf lines .headSender (lineFor lines .headSender) sender ∧
      Addrs conf lines .headTo (lineFor lines .headTo) once ∧ Again conf lines once again ∧
      Addrs conf lines .headBcc (lineFor lines .headBcc) bcc ∧
      r.2.addresses.Perm (sender ++ (once ++ (again ++ (bcc ++ env.addresses))))) ∧
    (∃ pre, (∀ l ∈ pre, lines.length ≤ l) ∧
      r.1.reached = pre ++ (List.range lines.length).filter (fun i => i ∉ readIds lines [.headBcc])) ∧
    ∀ i, i < lines.length → Completed conf.simtaDomain (lines.getD i []) (r.1.heap i).lineData := by
  have hstart := intact_headerExceptions conf hblock
  unfold headerCorrect at hrun
  cases hlines : headerLines (headerExceptions (lineFile lines)) with
  | error stop =>
    simp only [hlines] at hrun
    cases hrun
  | ok H =>
    simp only [hlines] at hrun
    obtain ⟨rfl, -⟩ := headerLines_spec hstart hlines
    obtain ⟨s₁, hfrom, hrun⟩ := bind_eq_ok.mp hrun
    obtain ⟨s₂, hsender, hrun⟩ := bind_eq_ok.mp hrun
    obtain ⟨s₃, hdate, hrun⟩ := bind_eq_ok.mp hrun
    obtain ⟨s₄, hto, hrun⟩ := bind_eq_ok.mp hrun
    obtain ⟨s₅, hcc, hrun⟩ := bind_eq_ok.mp hrun
    obtain ⟨s₆, hbcc, hrun⟩ := bind_eq_ok.mp hrun
    cases hrun
    obtain ⟨pre₁, h₁, henv₁⟩ := Intact.correctFrom hstart hfrom
    obtain ⟨pre₂, sender, haddrs₂, h₂, henv₂⟩ := h₁.correctSender hblock hsender
    obtain ⟨pre₃, h₃, henv₃⟩ := h₂.correctDate hdate
    obtain ⟨pre₄, h₄, henv₄⟩ := @Intact.correctMessageId conf lines pre₃ s₃ _ (lineFor lines) h₃
    obtain ⟨once, again, haddrs₅, hagain, h₅, henv₅⟩ := h₄.correctToCc hblock hto hcc
    obtain ⟨bcc, haddrs₆, henv₆, hreached, hcompleted⟩ := h₅.correctBcc hblock hbcc
    refine ⟨⟨sender, once, again, bcc, haddrs₂, haddrs₅, hagain, haddrs₆, ?_⟩, ⟨pre₄, h₅.behind, hreached⟩, hcompleted⟩
    show s₆.env.addresses.Perm _
    rw [henv₆, henv₅, henv₄, henv₃, henv₂, henv₁]
    -- from the last header to the first
    have hperm := addresses_envRecipients bcc
      (again.foldl envRecipient (once.foldl envRecipient (sender.foldl envRecipient env)))
    have hagain := addresses_envRecipients again (once.foldl envRecipient (sender.foldl envRecipient env))
    have honce := addresses_envRecipients once (sender.foldl envRecipient env)
    have hsender := addresses_envRecipients sender env
    calc List.Perm _ (bcc ++ (again ++ (once ++ (sender ++ env.addresses)))) :=
          hperm.trans ((hagain.trans ((honce.trans (hsender.append_left once)).append_left again)).append_left bcc)
      List.Perm _ (sender ++ (once ++ (again ++ (bcc ++ env.addresses)))) := by
          classical
          apply List.perm_iff_count.mpr
          intro a
          simp only [List.count_append]
          omega

/-- An error of two steps is an error of one of them. -/
theorem bind_eq_error {α β ε : Type} {x : Except ε α} {g : α → Except ε β} {e : ε} :
    (x >>= g) = .error e ↔ x = .error e ∨ ∃ a, x = .ok a ∧ g a = .error e := by
  cases x with
  | error e' =>
    constructor
    · exact fun h => .inl (congrArg Except.error (Except.error.inj h))
    · rintro (h | ⟨_, h, _⟩)
      · exact congrArg Except.error (Except.error.inj h)
      · cases h
  | ok a =>
    constructor
    · exact fun h => .inr ⟨a, rfl, h⟩
    · rintro (h | ⟨_, h, hg⟩)
      · cases h
      · cases h
        exact hg

theorem onField_ne_missing {lf : LineFile} {parse : Field → CharPtr → Except ParseStop ParsedList} :
    onField lf l off parse ≠ .error .missing := by
  unfold onField
  dsimp only
  split
  · exact fun h => by cases h
  · split
    · exact fun h => by cases h
    · exact fun h => by cases h

theorem map_ne_missing {α β : Type} {x : Except HeaderStop α} {f : α → β} (hx : x ≠ .error .missing) :
    x.map f ≠ .error .missing := by
  cases x with
  | error stop =>
    intro h
    cases h
    exact hx rfl
  | ok a => exact fun h => by cases h

theorem recipients_ne_missing {parse : Field → CharPtr → Except ParseStop ParsedList} :
    s.recipients l off parse ≠ .error .missing := map_ne_missing onField_ne_missing

variable {daytime : Option Text} {H : HeadLines}

theorem correctFrom_ne_missing : correctFrom conf rounds H s ≠ .error .missing := by
  unfold correctFrom
  split
  · exact map_ne_missing onField_ne_missing
  · exact fun h => by cases h

theorem correctSender_ne_missing : correctSender conf rounds H s ≠ .error .missing := by
  unfold correctSender
  split
  · exact recipients_ne_missing
  · split
    · exact fun h => by cases h
    · exact fun h => by cases h

theorem correctDate_ne_missing : correctDate daytime H s ≠ .error .missing := by
  unfold correctDate
  split
  · exact fun h => by cases h
  · split
    · exact fun h => by cases h
    · exact fun h => by cases h

theorem correctTo_ne_missing : correctTo conf true rounds H s ≠ .error .missing := by
  unfold correctTo
  split
  · exact recipients_ne_missing
  · exact fun h => by cases h

theorem correctBcc_ne_missing : correctBcc conf true rounds H s ≠ .error .missing := by
  unfold correctBcc
  split
  · exact map_ne_missing recipients_ne_missing
  · exact fun h => by cases h

theorem correctCc_missing (h : correctCc conf true rounds H s = .error .missing) :
    H .headCc ≠ none ∧ H .headTo = none := by
  unfold correctCc at h
  split at h
  · rename_i c hc
    split at h
    · exact absurd h recipients_ne_missing
    · rename_i hto
      exact ⟨(fun hnone => by rw [hc] at hnone; cases hnone), hto⟩
  · cases h

/-- A step behind a header that is not there: Cc: is, and To: is not. -/
theorem headerCorrect_missing (hblock : headerBlock lines = true) {daytime : Option Text} {env : Envelope}
    (hrun : headerCorrect conf daytime true rounds (lineFile lines) env = .error .missing) :
    lineFor lines .headCc ≠ none ∧ lineFor lines .headTo = none := by
  have hstart := intact_headerExceptions conf hblock
  unfold headerCorrect at hrun
  cases hlines : headerLines (headerExceptions (lineFile lines)) with
  | error stop =>
    simp only [hlines] at hrun
    cases hrun
  | ok H =>
    simp only [hlines] at hrun
    obtain ⟨rfl, -⟩ := headerLines_spec hstart hlines
    rcases bind_eq_error.mp hrun with hstop | ⟨s₁, -, hrun⟩
    · exact absurd hstop correctFrom_ne_missing
    rcases bind_eq_error.mp hrun with hstop | ⟨s₂, -, hrun⟩
    · exact absurd hstop correctSender_ne_missing
    rcases bind_eq_error.mp hrun with hstop | ⟨s₃, -, hrun⟩
    · exact absurd hstop correctDate_ne_missing
    rcases bind_eq_error.mp hrun with hstop | ⟨s₄, -, hrun⟩
    · exact absurd hstop correctTo_ne_missing
    rcases bind_eq_error.mp hrun with hstop | ⟨s₅, -, hrun⟩
    · exact correctCc_missing hstop
    rcases bind_eq_error.mp hrun with hstop | ⟨s₆, -, hrun⟩
    · exact absurd hstop correctBcc_ne_missing
    cases hrun

/-! ## The recipients -/

/-- The lines of Bcc:. -/
def bccIds (lines : List Text) : List Nat := ((namedLine lines .headBcc).map (fieldIds lines)).getD []

/-- Every header of recipients is read: the addresses of To:, Cc: and Bcc: are new in the envelope, the lines of Bcc:
    are gone, and all others are still reached, in their order and with nothing but domains added. -/
structure RecipientsRead (conf : HeaderConf) (lines : List Text) (env : Envelope) (r : LineFile × Envelope) : Prop where
  recipients : ∃ forTo forCc forBcc, Addrs conf lines .headTo (namedLine lines .headTo) forTo ∧
    Addrs conf lines .headCc (namedLine lines .headCc) forCc ∧
    Addrs conf lines .headBcc (namedLine lines .headBcc) forBcc ∧
    r.2.addresses.Perm (forTo ++ (forCc ++ (forBcc ++ env.addresses)))
  reached : ∃ pre, (∀ l ∈ pre, lines.length ≤ l) ∧
    r.1.reached = pre ++ (List.range lines.length).filter (fun i => i ∉ bccIds lines)
  texts : ∀ i, i < lines.length → Completed conf.simtaDomain (lines.getD i []) (r.1.heap i).lineData

/-- The outcome of `header_correct` is as it should be. -/
def HeadersRead (conf : HeaderConf) (lines : List Text) (env : Envelope)
    (outcome : Except HeaderStop (LineFile × Envelope)) : Prop :=
  outcome ≠ .error .missing ∧ ∀ r, outcome = .ok r → RecipientsRead conf lines env r

/-- The lines that are taken for Bcc: and Cc: have these names.  Without Cc:, there is no line that is taken for
    Sender:, and To: has its name as well; with Cc:, there is a line taken for To:, and Cc: happens to have the
    addresses of Sender: and those that this line is read to in its place. -/
def ReadsAll (conf : HeaderConf) (lines : List Text) : Prop :=
  lineFor lines .headBcc = namedLine lines .headBcc ∧ lineFor lines .headCc = namedLine lines .headCc ∧
    match namedLine lines .headCc with
    | none => lineFor lines .headSender = none ∧ lineFor lines .headTo = namedLine lines .headTo
    | some c => ∃ sender once again forCc, Addrs conf lines .headSender (lineFor lines .headSender) sender ∧
        Again conf lines once again ∧ Addrs conf lines .headCc (some c) forCc ∧
        forCc.Perm (sender ++ ((if namedLine lines .headTo = none then once else []) ++ again))

/-! ## When they are read -/

/-- The lines that are found are those that are taken for the headers, one for each. -/
theorem headerCorrect_found (hblock : headerBlock lines = true) {daytime : Option Text} {env : Envelope}
    {r : LineFile × Envelope} (hrun : headerCorrect conf daytime true rounds (lineFile lines) env = .ok r)
    {key : HeadKey} (hl : namedLine lines key = some l) : lineFor lines key = some l := by
  have hstart := intact_headerExceptions conf hblock
  unfold headerCorrect at hrun
  cases hlines : headerLines (headerExceptions (lineFile lines)) with
  | error stop =>
    simp only [hlines] at hrun
    cases hrun
  | ok H =>
    obtain ⟨-, hfound⟩ := headerLines_spec hstart hlines
    have hnamed : Named lines key l :=
      ⟨List.mem_range.mp (List.mem_of_find?_eq_some hl), List.find?_some hl⟩
    exact (hfound key l).mpr ⟨hnamed.1, hnamed.begins⟩

theorem Again.unique {once again once' again' : List Text} {c : Nat} (hc : lineFor lines .headCc = some c)
    (h : Again conf lines once again) (h' : Again conf lines once' again') : once = once' ∧ again = again' := by
  unfold Again at h h'
  rw [hc] at h h'
  obtain ⟨t, ht, r₁, r₂, h₁, h₂, rfl, rfl⟩ := h
  obtain ⟨t', ht', r₁', r₂', h₁', h₂', rfl, rfl⟩ := h'
  cases ht.symm.trans ht'
  cases h₁.unique h₁'
  cases h₂.unique h₂'
  exact ⟨rfl, rfl⟩

theorem Again.eq_nil {once again : List Text} (h : Again conf lines once again) (hc : lineFor lines .headCc = none) :
    again = [] := by
  unfold Again at h
  rw [hc] at h
  exact h

theorem Again.ne_nil {once again : List Text} {c : Nat} (h : Again conf lines once again)
    (hc : lineFor lines .headCc = some c) : again ≠ [] := by
  unfold Again at h
  rw [hc] at h
  obtain ⟨t, -, r, r', -, hread, -, rfl⟩ := h
  exact hread.rcpts_ne

/-- The addresses of To: are those of the line that is found, if that has the name. -/
theorem Addrs.of_found {key : HeadKey} {addrs found : List Text}
    (hfound : ∀ l, namedLine lines key = some l → lineFor lines key = some l)
    (h : Addrs conf lines key (namedLine lines key) addrs) (h' : Addrs conf lines key (lineFor lines key) found) :
    addrs = if namedLine lines key = none then [] else found := by
  cases hnamed : namedLine lines key with
  | none =>
    rw [hnamed] at h
    exact h
  | some l =>
    rw [hnamed] at h
    rw [hfound l hnamed] at h'
    exact h.unique h'

/-- The lines of the header that is taken for Bcc:. -/
theorem readIds_bcc (h : lineFor lines .headBcc = namedLine lines .headBcc) :
    readIds lines [.headBcc] = bccIds lines := by
  unfold readIds bccIds
  rw [List.flatMap_cons, h, List.flatMap_nil, List.append_nil]

/-- A line that is taken for Bcc: and has another name is gone, where it should be reached. -/
theorem lineFor_bcc {reached pre pre' : List Nat} (hpre' : ∀ l ∈ pre', lines.length ≤ l)
    (hfound : ∀ l, namedLine lines .headBcc = some l → lineFor lines .headBcc = some l)
    (h : reached = pre ++ (List.range lines.length).filter (fun i => i ∉ bccIds lines))
    (h' : reached = pre' ++ (List.range lines.length).filter (fun i => i ∉ readIds lines [.headBcc])) :
    lineFor lines .headBcc = namedLine lines .headBcc := by
  cases hnamed : namedLine lines .headBcc with
  | some l => exact hfound l hnamed
  | none =>
    cases hline : lineFor lines .headBcc with
    | none => rfl
    | some l =>
      obtain ⟨hl, -, -⟩ := lineFor_spec hline
      have hmem : l ∈ reached := by
        rw [h]
        apply List.mem_append_right
        simp [bccIds, hnamed, hl]
      rw [h', readIds_some hline] at hmem
      rcases List.mem_append.mp hmem with hmem | hmem
      · exact absurd hl (Nat.not_lt.mpr (hpre' l hmem))
      · have hnot := of_decide_eq_true (List.mem_filter.mp hmem).2
        exact absurd (List.mem_append_left _ self_mem_fieldIds) hnot

/-- **When every header of recipients is read**: the lines that are taken for Bcc: and Cc: have these names, and there
    is no Cc:, no Sender: and To: has its name too, or Cc: has the addresses that are read in its place. -/
theorem headers_read_iff {daytime : Option Text} {env : Envelope} (hblock : headerBlock lines = true)
    (hend : (∃ r, headerCorrect conf daytime true rounds (lineFile lines) env = .ok r) ∨
      headerCorrect conf daytime true rounds (lineFile lines) env = .error .missing) :
    HeadersRead conf lines env (headerCorrect conf daytime true rounds (lineFile lines) env) ↔ ReadsAll conf lines := by
  rcases hend with ⟨r, hrun⟩ | hrun
  · obtain ⟨⟨sender, once, again, bcc, hsender, honce, hagain, hbcc, hperm⟩, ⟨pre, hpre, hreached⟩, htexts⟩ :=
      headerCorrect_reads hblock hrun
    have hfound : ∀ {key l}, namedLine lines key = some l → lineFor lines key = some l :=
      fun hl => headerCorrect_found hblock hrun hl
    rw [hrun]
    constructor
    · rintro ⟨-, h⟩
      obtain ⟨⟨forTo, forCc, forBcc, hforTo, hforCc, hforBcc, hperm'⟩, ⟨pre', -, hreached'⟩, -⟩ := h r rfl
      have hlineBcc := lineFor_bcc hpre (fun _ => hfound) hreached' hreached
      rw [← hlineBcc] at hforBcc
      cases hbcc.unique hforBcc
      -- what is read for Sender:, To: and Cc: are the addresses of To: and Cc:
      have hcounts : ∀ a, sender.count a + (once.count a + again.count a) = forTo.count a + forCc.count a := by
        intro a
        have hcount := List.perm_iff_count.mp (hperm.symm.trans hperm') a
        simp only [List.count_append] at hcount
        omega
      have hlengths : sender.length + (once.length + again.length) = forTo.length + forCc.length := by
        have hlength := (hperm.symm.trans hperm').length_eq
        simp only [List.length_append] at hlength
        omega
      have hto := hforTo.of_found (fun _ => hfound) honce
      have hlineCc : lineFor lines .headCc = namedLine lines .headCc := by
        cases hnamed : namedLine lines .headCc with
        | some c => exact hfound hnamed
        | none =>
          rw [hnamed] at hforCc
          cases hforCc
          have hnil : again = [] := by
            rw [hto] at hlengths
            apply List.eq_nil_of_length_eq_zero
            split at hlengths <;> simp only [List.length_nil] at hlengths <;> omega
          cases hline : lineFor lines .headCc with
          | none => rfl
          | some c =>
            subst hnil
            exact absurd rfl (hagain.ne_nil hline)
      refine ⟨hlineBcc, hlineCc, ?_⟩
      cases hnamed : namedLine lines .headCc with
      | none =>
        rw [hnamed] at hforCc hlineCc
        cases hforCc
        cases hagain.eq_nil hlineCc
        have hnil : sender = [] ∧ (namedLine lines .headTo = none → once = []) := by
          rw [hto] at hlengths
          constructor
          · apply List.eq_nil_of_length_eq_zero
            split at hlengths <;> simp only [List.length_nil] at hlengths <;> omega
          · intro hnone
            rw [if_pos hnone] at hlengths
            apply List.eq_nil_of_length_eq_zero
            simp only [List.length_nil] at hlengths
            omega
        refine ⟨hsender.eq_nil.mp hnil.1, ?_⟩
        cases hnamedTo : namedLine lines .headTo with
        | some t => exact hfound hnamedTo
        | none => exact honce.eq_nil.mp (hnil.2 hnamedTo)
      | some c =>
        rw [hnamed] at hforCc
        refine ⟨sender, once, again, forCc, hsender, hagain, hforCc, ?_⟩
        apply List.perm_iff_count.mpr
        intro a
        have hcount := hcounts a
        rw [hto] at hcount
        simp only [List.count_append]
        split at hcount <;> rename_i hnone <;> simp only [hnone, if_true, if_false, List.count_nil] at hcount ⊢ <;> omega
    · rintro ⟨hlineBcc, hlineCc, h⟩
      refine ⟨(fun h => by cases h), fun r' hr => ?_⟩
      cases hr
      have hforTo : Addrs conf lines .headTo (namedLine lines .headTo)
          (if namedLine lines .headTo = none then [] else once) := by
        cases hnamed : namedLine lines .headTo with
        | none => exact rfl
        | some t =>
          rw [hfound hnamed] at honce
          exact honce
      refine ⟨?_, ⟨pre, hpre, readIds_bcc hlineBcc ▸ hreached⟩, htexts⟩
      rw [hlineBcc] at hbcc
      cases hnamed : namedLine lines .headCc with
      | none =>
        rw [hnamed] at h hlineCc
        obtain ⟨hnone, hlineTo⟩ := h
        cases hsender.eq_nil.mpr hnone
        cases hagain.eq_nil hlineCc
        rw [hlineTo] at honce
        exact ⟨once, [], bcc, honce, rfl, hbcc, hperm⟩
      | some c =>
        rw [hnamed] at h hlineCc
        obtain ⟨sender', once', again', forCc, hsender', hagain', hforCc, hcc⟩ := h
        cases hsender.unique hsender'
        obtain ⟨rfl, rfl⟩ := hagain.unique hlineCc hagain'
        refine ⟨_, forCc, bcc, hforTo, hforCc, hbcc, ?_⟩
        apply List.perm_iff_count.mpr
        intro a
        have hcount := List.perm_iff_count.mp hperm a
        have hcountCc := List.perm_iff_count.mp hcc a
        simp only [List.count_append] at hcount hcountCc ⊢
        split <;> rename_i hnone <;> simp only [hnone, if_true, if_false, List.count_nil] at hcountCc ⊢ <;> omega
  · obtain ⟨hcc, hto⟩ := headerCorrect_missing hblock hrun
    rw [hrun]
    constructor
    · exact fun h => absurd rfl h.1
    · rintro ⟨-, hlineCc, h⟩
      rw [← hlineCc] at h
      split at h
      · rename_i hnone
        exact absurd hnone hcc
      · rename_i c hc
        obtain ⟨_, _, _, _, _, hagain, _, _⟩ := h
        unfold Again at hagain
        rw [hc, hto] at hagain
        obtain ⟨t, ht, -⟩ := hagain
        cases ht

/-- The configuration of a host that submits messages, and the envelope of one that it submits. -/
def submitConf : HeaderConf := ⟨"h.org".toList, "u@h.org".toList, "h.org".toList, false⟩

def submitEnvelope : Envelope := envCreate {} .loc "1".toList (some "u@h.org".toList) none

theorem headers_read_bcc :
    HeadersRead submitConf ["To: a@b".toList, "Bcc: c@d".toList] submitEnvelope
        (headerCorrect submitConf (some "now".toList) true 9 (lineFile ["To: a@b".toList, "Bcc: c@d".toList])
          submitEnvelope) ↔
      ReadsAll submitConf ["To: a@b".toList, "Bcc: c@d".toList] := by
  have hok : (headerCorrect submitConf (some "now".toList) true 9
      (lineFile ["To: a@b".toList, "Bcc: c@d".toList]) submitEnvelope).isOk = true := by decide +kernel
  apply headers_read_iff (by decide) (.inl _)
  cases hrun : headerCorrect submitConf (some "now".toList) true 9
      (lineFile ["To: a@b".toList, "Bcc: c@d".toList]) submitEnvelope with
  | error stop =>
    rw [hrun] at hok
    cases hok
  | ok r => exact ⟨r, rfl⟩

/-- With Cc: and no To: there is no line to read; with both, the addresses of To: come two times and those of Cc: not
    at all. -/
theorem not_headers_read :
    (headerBlock ["Cc: q@r".toList] = true ∧
      ¬ HeadersRead submitConf ["Cc: q@r".toList] submitEnvelope
        (headerCorrect submitConf (some "now".toList) true 9 (lineFile ["Cc: q@r".toList]) submitEnvelope)) ∧
    headerBlock ["To: a@b".toList, "Cc: c@d".toList] = true ∧
      (headerCorrect submitConf (some "now".toList) true 9 (lineFile ["To: a@b".toList, "Cc: c@d".toList])
        submitEnvelope).map (fun r => r.2.addresses) = .ok ["a@b".toList, "a@b".toList] := by
  have hstop : (match headerCorrect submitConf (some "now".toList) true 9 (lineFile ["Cc: q@r".toList]) submitEnvelope with
      | .error stop => decide (stop = .missing)
      | .ok _ => false) = true := by decide +kernel
  refine ⟨⟨by decide, fun h => h.1 ?_⟩, by decide, ?_⟩
  · split at hstop
    · rename_i stop hrun
      rw [hrun, of_decide_eq_true hstop]
    · cases hstop
  · have hlist : (match (headerCorrect submitConf (some "now".toList) true 9
          (lineFile ["To: a@b".toList, "Cc: c@d".toList]) submitEnvelope).map (fun r => r.2.addresses) with
        | .error _ => false
        | .ok addrs => decide (addrs = ["a@b".toList, "a@b".toList])) = true := by decide +kernel
    split at hlist
    · cases hlist
    · rename_i addrs hrun
      rw [hrun, of_decide_eq_true hlist]

end Simta
