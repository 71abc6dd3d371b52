import Simta.FieldText
import Simta.HeaderRead

/-!
# A header with recipients

What `parse_recipients` makes of a header that is a list of addresses or a group.

* `parseAddr_reads` — an address of the list;
* `mailboxes_reads`, `parseRecipients_reads` — the list, and what it can begin with;
* `Corrected` — the addresses come to the envelope, the header has their domains, and it stays so;
* `recipients_corrected` — the header when no local part without a domain goes over several lines.
-/

set_option autoImplicit false

namespace Simta

variable {conf : HeaderConf} {mode : MailboxMode} {f : Field} {c e : CharPtr} {s w b x : FText} {domain : Text}

/-! ## What may follow -/

theorem isPlain_of_dotAtom {a : Char} (h : isDotAtomText a = true) : isPlain a = true := by
  by_contra hnot
  have hcases : a = ' ' ∨ a = '\t' ∨ a = '(' ∨ a = ')' ∨ a = '\\' := by
    unfold isPlain isWsp at hnot
    simp only [Bool.and_eq_true, decide_eq_true_eq, Bool.not_eq_true', Bool.or_eq_false_iff, decide_eq_false_iff_not] at hnot
    tauto
  rcases hcases with rfl | rfl | rfl | rfl | rfl <;> cases h

/-- What a word begins with. -/
def isWordStart (a : Char) : Bool := isDotAtomText a || a = '"'

theorem Word.head (h : Word w) : ∃ a v, w = some a :: v ∧ isWordStart a = true := by
  rcases h with hatom | ⟨v, -, rfl⟩
  · obtain ⟨a, v, hv, ha⟩ := hatom.head
    exact ⟨a, v, hv, by rw [isWordStart, ha, Bool.true_or]⟩
  · exact ⟨'"', _, rfl, rfl⟩

theorem isPlain_of_wordStart {a : Char} (h : isWordStart a = true) : isPlain a = true := by
  rcases Bool.or_eq_true_iff.mp h with hatom | hquote
  · exact isPlain_of_dotAtom hatom
  · rw [of_decide_eq_true hquote]
    rfl

theorem wordStart_ne {a c : Char} (h : isWordStart a = true) (hc : isWordStart c = false) : a ≠ c := by
  rintro rfl
  rw [h] at hc
  cases hc

theorem DomainWord.head (h : DomainWord w) : ∃ a v, w = some a :: v ∧ isPlain a = true := by
  rcases h with hatom | ⟨v, -, rfl⟩
  · obtain ⟨a, v, hv, ha⟩ := hatom.head
    exact ⟨a, v, hv, isPlain_of_dotAtom ha⟩
  · exact ⟨'[', _, rfl, rfl⟩

theorem Word.ne_nil (h : Word w) : w ≠ [] := by
  obtain ⟨a, v, rfl, -⟩ := h.head
  exact List.cons_ne_nil _ _

theorem DomainWord.ne_nil (h : DomainWord w) : w ≠ [] := by
  obtain ⟨a, v, rfl, -⟩ := h.head
  exact List.cons_ne_nil _ _

theorem apart_cons {a : Char} (ha : isDotAtomText a = false) : Apart (some a :: s) := by
  intro a' h
  rw [← Option.some.inj (Option.some.inj h)]
  exact ha

/-- No dot-atom goes on in comments and white space. -/
theorem Blank.apart (h : Blank 0 b) (hs : Apart s) : Apart (b ++ s) := by
  cases h with
  | done => exact hs
  | wsp _ a b ha _ =>
    apply apart_cons
    have hws : a = ' ' ∨ a = '\t' := by simpa [isWsp] using ha
    rcases hws with rfl | rfl <;> rfl
  | fold _ b _ =>
    intro a h
    cases h
  | opening => exact apart_cons (by decide)
  | pair => exact apart_cons (by decide)

/-- An address of a list ends with the header, with a comma, or with the group. -/
def EndsItem (mode : MailboxMode) (s : FText) : Prop :=
  s = [] ∨ (∃ t, s = some ',' :: t) ∨ (mode = .groupCorrect ∧ ∃ t, s = some ';' :: t)

theorem EndsItem.apart (h : EndsItem mode s) : Apart s := by
  rcases h with rfl | ⟨t, rfl⟩ | ⟨-, t, rfl⟩
  · intro a h
    cases h
  · exact apart_cons (by decide)
  · exact apart_cons (by decide)

theorem EndsItem.stops (h : EndsItem mode s) : Stops s := by
  rcases h with rfl | ⟨t, rfl⟩ | ⟨-, t, rfl⟩
  · intro y hy
    cases hy
  · exact fun y hy => ⟨',', (Option.some.inj hy).symm, by decide⟩
  · exact fun y hy => ⟨';', (Option.some.inj hy).symm, by decide⟩

/-- The recipients of a header, as a list or in a group. -/
def ForRecipients (mode : MailboxMode) : Prop := mode = .recipientsCorrect ∨ mode = .groupCorrect

namespace Mailbox

theorem Closes.apart {angle : Bool} (h : Closes angle x) (hs : Apart s) : Apart (x ++ s) := by
  unfold Closes at h
  split at h
  · obtain ⟨b, b', rfl, hb, -⟩ := h
    rw [List.append_assoc]
    exact hb.apart (apart_cons (by decide))
  · exact h.apart hs

theorem Follows.apart {dom : Option FText} {angle : Bool} {back : FText} (h : Follows dom back x) (hx : Closes angle x)
    (hs : Apart s) : Apart (back ++ s) := by
  unfold Follows at h
  split at h
  · subst h
    exact hx.apart hs
  · obtain ⟨b, b', rfl, hb, -, -⟩ := h
    rw [List.append_assoc]
    exact hb.apart (apart_cons (by decide))

end Mailbox

/-! ## An address -/

/-- What is inserted behind a local part. -/
def inserted (domain : Text) (dom : Option FText) : FText :=
  match dom with
  | some _ => []
  | none => some '@' :: onLine domain

/-- The header and the tokens behind the domain of an address. -/
structure DomainRead (conf : HeaderConf) (f : Field) (start : CharPtr) (m : Mailbox) (lead x s : FText)
    (r : Field × LineToken × LineToken) : Prop where
  folds : r.1.Folds
  length : r.1.length = f.length
  user : lineTokenUnfold r.1 r.2.1 = .ok (unfolded m.loc)
  host : lineTokenUnfold r.1 r.2.2 = .ok (match m.dom with | some d => unfolded d | none => conf.simtaDomain)
  tEndLine : r.2.2.tEndLine = r.2.2.tEnd.line
  place : r.1.Place r.2.2.tEnd
  onward : r.1.onward r.2.2.tEnd = x ++ s
  text : ∀ u, f.onward ⟨0, 0⟩ = u ++ f.onward start →
    r.1.onward ⟨0, 0⟩ = u ++ (lead ++ (m.loc ++ (inserted conf.simtaDomain m.dom ++ (m.back ++ s))))

/-- **A local part without a domain** gets one. -/
theorem completeAddr_reads (conf : HeaderConf) (hf : f.Folds) {start : CharPtr} {m : Mailbox} {lead : FText} {loc : LineToken}
    (hstart : f.Place start) (hc : f.Place c) (hw : Word m.loc) (hline : none ∉ m.loc) (hdom : m.dom = none)
    (hlead : f.onward start = lead ++ f.onward c) (honward : f.onward c = m.loc ++ (m.back ++ s))
    (hloc : loc.Is f c m.loc (m.back ++ s)) :
    ∃ r, completeAddr conf f start loc = .ok r ∧ DomainRead conf f start m lead m.back s r := by
  have hend : f.onward loc.tEnd = m.back ++ s := hloc.onward
  have hword : f.onward c = m.loc ++ f.onward loc.tEnd := by rw [hend, honward]
  have hstartEnd : f.onward start = (lead ++ m.loc) ++ f.onward loc.tEnd := by rw [hlead, hword, List.append_assoc]
  have hne : lead ++ m.loc ≠ [] := List.append_ne_nil_of_right_ne_nil _ hw.ne_nil
  have hsame : c.line = loc.tEnd.line := hc.line_eq hloc.place hw.ne_nil hword hline
  have hbefore : c.off < loc.tEnd.off := by
    rcases hc.before hloc.place hw.ne_nil hword with hne | hlt
    · exact absurd hsame hne
    · exact hlt
  have hmoves : ∀ {p : CharPtr} {v : FText}, f.Place p → v ≠ [] → f.onward p = v ++ f.onward loc.tEnd →
      (decide (p.line ≠ loc.tEndLine) || decide (p.off < loc.tEnd.off)) = true := by
    intro p v hp hv heq
    rw [hloc.tEndLine]
    simpa using hp.before hloc.place hv heq
  have htStart : loc.tStart.filter (fun p => decide (p.line ≠ loc.tEndLine) || decide (p.off < loc.tEnd.off)) = some c := by
    rw [hloc.tStart, Option.filter_some, if_pos (hmoves hc hw.ne_nil hword)]
  have hloc' : ({ loc with tStart := some c } : LineToken) = loc := by
    rw [← hloc.tStart]
  have hplace := Field.insert_onward (x := '@' :: conf.simtaDomain) hloc.place
  have hhost : (⟨loc.tEnd.line, loc.tEnd.off + ('@' :: conf.simtaDomain).length⟩ : CharPtr) =
      ⟨loc.tEnd.line, loc.tEnd.off + 1 + conf.simtaDomain.length⟩ := by
    rw [List.length_cons]
    congr 1
    omega
  rw [hhost] at hplace
  refine ⟨(f.insert loc.tEnd ('@' :: conf.simtaDomain), loc, ⟨.dotAtom, some ⟨loc.tEnd.line, loc.tEnd.off + 1⟩,
    loc.tEnd.line, ⟨loc.tEnd.line, loc.tEnd.off + 1 + conf.simtaDomain.length⟩, loc.tEnd.line⟩), ?_, ?_⟩
  · have hkept : ¬ (!(decide (start.line ≠ loc.tEndLine) || decide (start.off < loc.tEnd.off))) = true := by
      rw [hmoves hstart hne hstartEnd]
      decide
    unfold completeAddr
    rw [if_neg (by simp [hloc.tEndLine])]
    dsimp only
    rw [if_neg hkept, htStart, hloc']
    rw [hloc.tEndLine, hloc.tStartLine, hsame]
    rfl
  · refine ⟨Field.insert_folds hf hloc.place (by omega), Field.insert_length, ?_, ?_, rfl, hplace.1, ?_, ?_⟩
    · rw [hloc.insert hsame (Nat.le_of_lt hbefore)]
      exact hloc.unfold hc hw.ne_nil honward
    · unfold lineTokenUnfold LineToken.text
      rw [if_pos rfl, hdom]
      dsimp only
      rw [show loc.tEnd.off + 1 + conf.simtaDomain.length - (loc.tEnd.off + 1) = conf.simtaDomain.length by omega,
        Field.insert_host hloc.place]
    · rw [hplace.2, hend]
    · intro u hu
      have hupto : Field.Upto ⟨0, 0⟩ loc.tEnd := by
        unfold Field.Upto
        dsimp only
        omega
      have hspan : f.span ⟨0, 0⟩ loc.tEnd = u ++ (lead ++ m.loc) := by
        have hall := Field.onward_span hloc.place hupto
        rw [hu, hstartEnd, ← List.append_assoc] at hall
        exact (List.append_cancel_right hall).symm
      rw [Field.insert_span hloc.place hupto, hspan, hend, hdom]
      simp [inserted, onLine]

/-- **A local part with a domain** is left as it is. -/
theorem qualified_reads (hf : f.Folds) {start : CharPtr} {m : Mailbox} {lead d b b' : FText} {loc : LineToken}
    (angle : Bool) (hc : f.Place c) (hw : Word m.loc) (hdom : m.dom = some d)
    (hback : m.back = b ++ some '@' :: (b' ++ (d ++ x))) (hb : Blank 0 b) (hb' : Blank 0 b') (hd : DomainWord d)
    (hx : Apart (x ++ s)) (hlead : f.onward start = lead ++ f.onward c) (honward : f.onward c = m.loc ++ (m.back ++ s))
    (hloc : loc.Is f c m.loc (m.back ++ s)) :
    ∃ next r, skipCfws f loc.tEndLine loc.tEnd = .ok next ∧
      addrDomain conf mode angle f start loc next.1 next.2 = .ok r ∧ DomainRead conf f start m lead x s r := by
  have hend : f.onward loc.tEnd = b ++ some '@' :: (b' ++ (d ++ (x ++ s))) := by
    rw [hloc.onward, hback]
    simp
  obtain ⟨e, hskip, he, heat⟩ := skipCfws_char hf hb hloc.place (a := '@') (by decide) hend
  obtain ⟨t, ht, -, hat⟩ := Field.onward_char heat
  obtain ⟨a, v, hdv, ha⟩ := hd.head
  have hat' : f.onward ⟨e.line, e.off + 1⟩ = b' ++ some a :: (v ++ (x ++ s)) := by
    rw [hat, hdv]
    rfl
  obtain ⟨e', hskip', he', heword⟩ := skipCfws_char hf hb' (he.char ht) ha hat'
  have heword' : f.onward e' = d ++ (x ++ s) := by
    rw [heword, hdv]
    rfl
  obtain ⟨host, hhost, his⟩ := lineTokenDomain_spec hf he' hd hx heword'
  refine ⟨(e.line, some e), (f, loc, host), by rw [hloc.tEndLine]; exact hskip, ?_, ?_⟩
  · have hchar : f.char e = some '@' := char_onward heat
    have hnot : endsLocal mode angle (some '@') = false := by
      simp [endsLocal]
    unfold addrDomain
    dsimp only
    rw [show (some e).bind f.char = some '@' from hchar, hnot, if_neg Bool.false_ne_true, if_pos hchar]
    have hskip'' : skipCfws f e.line ⟨e.line, e.off + 1⟩ = .ok (e'.line, some e') := hskip'
    rw [hskip'']
    dsimp only
    rw [hhost]
    rfl
  · refine ⟨hf, rfl, hloc.unfold hc hw.ne_nil honward, ?_, his.tEndLine, his.place, his.onward, ?_⟩
    · rw [hdom]
      exact his.unfold he' hd.ne_nil heword'
    · intro u hu
      rw [hu, hlead, honward, hdom]
      rfl

/-- What comes behind a local part that ends there. -/
theorem endsLocal_reads (hf : f.Folds) {angle : Bool} (hc : f.Place c) (hx : Mailbox.Closes angle x) (hs : EndsItem mode s)
    (heq : f.onward c = x ++ s) :
    ∃ next, skipCfws f c.line c = .ok next ∧ endsLocal mode angle (next.2.bind f.char) = true := by
  unfold Mailbox.Closes at hx
  cases angle with
  | true =>
    obtain ⟨b, b', rfl, hb, -⟩ := hx
    rw [List.append_assoc, List.cons_append] at heq
    obtain ⟨e, hskip, -, he⟩ := skipCfws_char hf hb hc (a := '>') (by decide) heq
    refine ⟨_, hskip, ?_⟩
    show endsLocal mode true (f.char e) = true
    rw [char_onward he]
    simp [endsLocal]
  | false =>
    rcases hs with rfl | ⟨t, rfl⟩ | ⟨rfl, t, rfl⟩
    · rw [List.append_nil] at heq
      obtain ⟨l, hskip⟩ := skipCfws_end hf hx hc heq
      exact ⟨_, hskip, rfl⟩
    · obtain ⟨e, hskip, -, he⟩ := skipCfws_char hf hx hc (a := ',') (by decide) heq
      refine ⟨_, hskip, ?_⟩
      show endsLocal mode false (f.char e) = true
      rw [char_onward he]
      simp [endsLocal]
    · obtain ⟨e, hskip, -, he⟩ := skipCfws_char hf hx hc (a := ';') (by decide) heq
      refine ⟨_, hskip, ?_⟩
      show endsLocal .groupCorrect false (f.char e) = true
      rw [char_onward he]
      rfl

/-- The end of an address. -/
theorem addrEnd_reads (hf : f.Folds) {angle : Bool} {host : LineToken} (hline : host.tEndLine = host.tEnd.line)
    (hplace : f.Place host.tEnd) (hx : Mailbox.Closes angle x) (heq : f.onward host.tEnd = x ++ s) :
    ∃ e y, addrEnd angle f host = .ok (e.line, e) ∧ f.Place e ∧ Blank 0 y ∧ f.onward e = y ++ s := by
  unfold Mailbox.Closes at hx
  unfold addrEnd
  cases angle with
  | true =>
    obtain ⟨b, b', rfl, hb, hb'⟩ := hx
    rw [List.append_assoc, List.cons_append] at heq
    obtain ⟨e, hskip, he, hgt⟩ := skipCfws_char hf hb hplace (a := '>') (by decide) heq
    obtain ⟨t, ht, -, hbehind⟩ := Field.onward_char hgt
    refine ⟨⟨e.line, e.off + 1⟩, b', ?_, he.char ht, hb', hbehind⟩
    rw [if_pos rfl, hline, hskip]
    dsimp only
    rw [if_pos (char_onward hgt)]
  | false =>
    refine ⟨host.tEnd, x, ?_, hplace, hx, heq⟩
    rw [if_neg Bool.false_ne_true, hline]

/-- What is read of an address, with `y` and `s` behind it. -/
structure AddrRead (conf : HeaderConf) (f : Field) (start : CharPtr) (m : Mailbox) (lead y s : FText) (r : ParsedAddr) :
    Prop where
  folds : r.field.Folds
  length : r.field.length = f.length
  rcpt : r.rcpt = some (m.address conf.simtaDomain)
  line : r.line = r.c.line
  place : r.field.Place r.c
  blank : Blank 0 y
  onward : r.field.onward r.c = y ++ s
  text : ∀ u, f.onward ⟨0, 0⟩ = u ++ f.onward start →
    r.field.onward ⟨0, 0⟩ = u ++ (lead ++ (m.loc ++ (inserted conf.simtaDomain m.dom ++ (m.back ++ s))))

/-- What an address begins with. -/
def leadText (angle : Bool) (b : FText) : FText := if angle then some '<' :: b else []

/-- **An address of the list.** -/
theorem parseAddr_reads (conf : HeaderConf) (hf : f.Folds) (hmode : ForRecipients mode) {start : CharPtr} {m : Mailbox} {angle : Bool}
    (hplace : f.Place start) (hb : Blank 0 b) (hw : Word m.loc) (hfollows : Mailbox.Follows m.dom m.back x)
    (hx : Mailbox.Closes angle x) (hs : EndsItem mode s) (hline : m.dom = none → none ∉ m.loc)
    (heq : f.onward start = leadText angle b ++ (m.loc ++ (m.back ++ s))) :
    ∃ r y, parseAddr conf true mode f start.line start = .ok r ∧ AddrRead conf f start m (leadText angle b) y s r := by
  have happ := hfollows.apart hx hs.apart
  -- the beginning of the local part
  have hbegin : decide (f.char start = some '<') = angle ∧ ∃ c, skipCfws f start.line
        (if angle then ⟨start.line, start.off + 1⟩ else start) = .ok (c.line, some c) ∧ f.Place c ∧
      f.onward c = m.loc ++ (m.back ++ s) := by
    obtain ⟨a, v, hv, hword⟩ := hw.head
    have ha := isPlain_of_wordStart hword
    have hne : a ≠ '<' := wordStart_ne hword (by decide)
    have hloc : m.loc ++ (m.back ++ s) = some a :: (v ++ (m.back ++ s)) := by rw [hv, List.cons_append]
    cases angle with
    | true =>
      obtain ⟨t, ht, -, hbehind⟩ := Field.onward_char heq
      rw [hloc] at hbehind ⊢
      obtain ⟨c, hskip, hc, honward⟩ := skipCfws_char hf hb (hplace.char ht) ha hbehind
      exact ⟨decide_eq_true (char_onward heq), c, hskip, hc, honward⟩
    | false =>
      rw [show leadText false b = [] from rfl, hloc] at heq
      rw [hloc]
      obtain ⟨c, hskip, hc, honward⟩ := skipCfws_char hf .done hplace ha heq
      refine ⟨decide_eq_false ?_, c, hskip, hc, honward⟩
      rw [char_onward heq]
      exact fun h => hne (Option.some.inj h)
  obtain ⟨hangle, c, hskip, hc, honward⟩ := hbegin
  have hlead : f.onward start = leadText angle b ++ f.onward c := by rw [heq, honward]
  obtain ⟨loc, hword, hloc⟩ := lineTokenWord_spec hf hc hw (fun _ => happ) honward
  -- the domain
  have hdomain : ∃ next r, skipCfws f loc.tEndLine loc.tEnd = .ok next ∧
      addrDomain conf mode angle f start loc next.1 next.2 = .ok r ∧
        DomainRead conf f start m (leadText angle b) x s r := by
    unfold Mailbox.Follows at hfollows
    cases hdom : m.dom with
    | none =>
      rw [hdom] at hfollows
      have hback : m.back = x := hfollows
      obtain ⟨next, hnext, hends⟩ := endsLocal_reads hf hloc.place hx hs (hback ▸ hloc.onward)
      obtain ⟨r, hr, hread⟩ := completeAddr_reads conf hf hplace hc hw (hline hdom) hdom hlead honward hloc
      refine ⟨next, r, by rw [hloc.tEndLine]; exact hnext, ?_, hback ▸ hread⟩
      unfold addrDomain
      rw [hends, if_pos rfl]
      exact hr
    | some d =>
      rw [hdom] at hfollows
      obtain ⟨b₁, b₂, hback, hb₁, hb₂, hd⟩ := hfollows
      exact qualified_reads hf angle hc hw hdom hback hb₁ hb₂ hd (hx.apart hs.apart) hlead honward hloc
  obtain ⟨next, ⟨f', loc', host⟩, hnext, hdomain, hread⟩ := hdomain
  obtain ⟨e, y, hend, he, hy, hebehind⟩ := addrEnd_reads hread.folds hread.tEndLine hread.place hx hread.onward
  refine ⟨⟨f', e.line, e, some (m.address conf.simtaDomain), false⟩, y, ?_,
    ⟨hread.folds, hread.length, rfl, rfl, he, hy, hebehind, hread.text⟩⟩
  unfold parseAddr
  rw [hangle]
  apply bind_ok_of hskip
  apply bind_ok_of hword
  apply bind_ok_of hnext
  apply bind_ok_of hdomain
  apply bind_ok_of hend
  have hsender : addrSender conf mode f' loc' host = .ok false := by
    rcases hmode with rfl | rfl <;> rfl
  apply bind_ok_of hsender
  have hrcpt : addrRcpt true f' loc' host = .ok (some (m.address conf.simtaDomain)) := by
    unfold addrRcpt
    rw [if_pos rfl]
    apply bind_ok_of hread.user
    apply bind_ok_of hread.host
    rfl
  exact bind_ok_of hrcpt rfl

/-! ## Words in front of an address -/

/-- A phrase, and what follows it, begins with a character that counts. -/
theorem Phrase.head {p : FText} (h : Phrase p) {a : Char} (ha : isPlain a = true) (s : FText) :
    ∃ a' v, p ++ some a :: s = some a' :: v ∧ isPlain a' = true ∧ (p ≠ [] → isWordStart a' = true) ∧
      (p = [] → a' = a) := by
  cases h with
  | done => exact ⟨a, s, rfl, ha, fun h => absurd rfl h, fun _ => rfl⟩
  | word w b p hw _ _ _ =>
    obtain ⟨a', v, rfl, ha'⟩ := hw.head
    refine ⟨a', _, rfl, isPlain_of_wordStart ha', fun _ => ha', fun h => by cases h⟩

/-- A dot-atom does not go on behind the words. -/
theorem apart_phrase {p : FText} {a : Char} (ha : isDotAtomText a = false) (h : Apart (b ++ p)) :
    Apart (b ++ (p ++ some a :: s)) := by
  cases hbp : b ++ p with
  | nil =>
    obtain ⟨rfl, rfl⟩ := List.append_eq_nil_iff.mp hbp
    exact apart_cons ha
  | cons y v =>
    rw [hbp] at h
    rw [← List.append_assoc, hbp]
    exact h

/-- The next word, or what follows the words. -/
theorem nextWord_reads (hf : f.Folds) {p : FText} (hp : Phrase p) {a : Char} (ha : isPlain a = true) (hc : f.Place c)
    (hb : Blank 0 b) (heq : f.onward c = b ++ (p ++ some a :: s)) :
    ∃ e, skipCfws f c.line c = .ok (e.line, some e) ∧ f.Place e ∧ f.onward e = p ++ some a :: s := by
  obtain ⟨a', v, hv, ha', -, -⟩ := hp.head ha s
  rw [hv] at heq ⊢
  exact skipCfws_char hf hb hc ha' heq

/-- **Over the words** up to the character behind them. -/
theorem skipWords_reads (hf : f.Folds) {p : FText} (hp : Phrase p) {stop : Char → Bool} {a : Char} (ha : isPlain a = true)
    (hnot : isDotAtomText a = false) (hstop : stop a = true) (hwords : ∀ a, isWordStart a = true → stop a = false) :
    ∀ {c : CharPtr}, f.Place c → f.onward c = p ++ some a :: s →
      ∃ n e, skipWords stop f n c.line (some c) = .ok (e.line, e) ∧ f.Place e ∧ f.onward e = some a :: s := by
  induction hp with
  | done =>
    intro c hc heq
    refine ⟨0, c, ?_, hc, heq⟩
    unfold skipWords
    rw [char_onward heq]
    exact if_pos hstop
  | word w b p hw hb happ hp ih =>
    intro c hc heq
    rw [List.append_assoc, List.append_assoc] at heq
    obtain ⟨token, hword, htoken⟩ := lineTokenWord_spec hf hc hw (fun hatom => apart_phrase hnot (happ hatom)) heq
    obtain ⟨e, hskip, he, honward⟩ := nextWord_reads hf hp ha htoken.place hb htoken.onward
    obtain ⟨n, e', hrun, he', honward'⟩ := ih he honward
    refine ⟨n + 1, e', ?_, he', honward'⟩
    obtain ⟨a', v, hv, ha'⟩ := hw.head
    have hchar : f.char c = some a' := char_onward (heq.trans (by rw [hv]; rfl))
    unfold skipWords
    rw [hchar, if_neg (by simp [hwords a' ha'])]
    apply bind_ok_of hword
    rw [htoken.tEndLine]
    exact bind_ok_of hskip hrun

/-- **Over the first words** to the character behind them; none of them is an address. -/
theorem firstWords_reads (hf : f.Folds) {p : FText} (hp : Phrase p) (hne : p ≠ []) (stop : Char → Bool) {a : Char}
    (ha : a = '<' ∨ a = ':') (hstop : stop a = true) (hwords : ∀ a, isWordStart a = true → stop a = false)
    (hc : f.Place c) (heq : f.onward c = p ++ some a :: s) :
    ∃ token next n e, lineTokenWord f c.line c = .ok token ∧ skipCfws f token.tEndLine token.tEnd = .ok next ∧
      (next.2.bind f.char ≠ none ∧ next.2.bind f.char ≠ some ',' ∧ next.2.bind f.char ≠ some '@' ∧
        next.2.bind f.char ≠ some ';') ∧
      skipWords stop f n next.1 next.2 = .ok (e.line, e) ∧ f.Place e ∧ f.onward e = some a :: s := by
  have hplain : isPlain a = true ∧ isDotAtomText a = false ∧ (a ≠ ',' ∧ a ≠ '@' ∧ a ≠ ';') := by
    rcases ha with rfl | rfl <;> exact ⟨by decide, by decide, by decide, by decide, by decide⟩
  obtain ⟨hplain, hatom, hspecial⟩ := hplain
  cases hp with
  | done => exact absurd rfl hne
  | word w b p hword hb happ hp =>
    rw [List.append_assoc, List.append_assoc] at heq
    obtain ⟨token, htoken, his⟩ := lineTokenWord_spec hf hc hword (fun h => apart_phrase hatom (happ h)) heq
    obtain ⟨e, hskip, he, honward⟩ := nextWord_reads hf hp hplain his.place hb his.onward
    obtain ⟨n, e', hrun, he', honward'⟩ := skipWords_reads hf hp hplain hatom hstop hwords he honward
    refine ⟨token, (e.line, some e), n, e', htoken, by rw [his.tEndLine]; exact hskip, ?_, hrun, he', honward'⟩
    obtain ⟨a', v', hv', -, hstart, hend⟩ := hp.head hplain s
    have hne : ∀ c, isWordStart c = false → a ≠ c → a' ≠ c := by
      intro c hc hac
      by_cases hp : p = []
      · rw [hend hp]
        exact hac
      · exact wordStart_ne (hstart hp) hc
    have hcomma := hne ',' (by decide) hspecial.1
    have hat := hne '@' (by decide) hspecial.2.1
    have hsemi := hne ';' (by decide) hspecial.2.2
    show f.char e ≠ none ∧ f.char e ≠ some ',' ∧ f.char e ≠ some '@' ∧ f.char e ≠ some ';'
    rw [char_onward (honward.trans hv')]
    simp [hcomma, hat, hsemi]

/-- A word does not begin with one of these. -/
theorem Word.char_ne (hw : Word w) (heq : f.onward c = w ++ s) {a : Char} (ha : isWordStart a = false) :
    f.char c ≠ some a := by
  obtain ⟨a', v, hv, ha'⟩ := hw.head
  rw [char_onward (heq.trans (by rw [hv]; rfl))]
  exact fun h => wordStart_ne ha' ha (Option.some.inj h)

theorem Phrase.char_ne {p : FText} (hp : Phrase p) (hne : p ≠ []) (heq : f.onward c = p ++ s) {a : Char}
    (ha : isWordStart a = false) : f.char c ≠ some a := by
  cases hp with
  | done => exact absurd rfl hne
  | word w b p hword _ _ _ =>
    rw [List.append_assoc] at heq
    exact hword.char_ne heq ha

/-- In front of an address there are words only if it is in angle brackets. -/
structure Leads (angle : Bool) (p b : FText) : Prop where
  phrase : Phrase p
  blank : Blank 0 b
  bare : angle = false → p = []

theorem Mailbox.Opens.leads {angle : Bool} {front : FText} (h : Mailbox.Opens angle front) :
    ∃ b p b', front = b ++ (p ++ leadText angle b') ∧ Blank 0 b ∧ Leads angle p b' := by
  unfold Mailbox.Opens at h
  cases angle with
  | true =>
    obtain ⟨b, p, b', hfront, hb, hp, hb'⟩ := h
    exact ⟨b, p, b', hfront, hb, hp, hb', fun h => by cases h⟩
  | false => exact ⟨front, [], [], (List.append_nil _).symm, h, .done, .done, fun _ => rfl⟩

/-- An address begins with a character that counts. -/
theorem Leads.head {angle : Bool} {p : FText} (h : Leads angle p b) (hw : Word w) (s : FText) :
    ∃ a v, p ++ (leadText angle b ++ (w ++ s)) = some a :: v ∧ isPlain a = true ∧ (isWordStart a = true ∨ a = '<') := by
  cases angle with
  | true =>
    obtain ⟨a, v, hv, ha, hword, hnil⟩ := h.phrase.head (a := '<') (by decide) (b ++ (w ++ s))
    refine ⟨a, v, hv, ha, ?_⟩
    by_cases hp : p = []
    · exact .inr (hnil hp)
    · exact .inl (hword hp)
  | false =>
    rw [h.bare rfl]
    obtain ⟨a, v, rfl, ha⟩ := hw.head
    exact ⟨a, _, rfl, isPlain_of_wordStart ha, .inl ha⟩

/-- What comes behind the first word of an address without brackets. -/
theorem single_reads (hf : f.Folds) {m : Mailbox} (hc : f.Place c) (hfollows : Mailbox.Follows m.dom m.back x)
    (hx : Mailbox.Closes false x) (hs : EndsItem mode s) (heq : f.onward c = m.back ++ s) :
    ∃ next, skipCfws f c.line c = .ok next ∧ (next.2.bind f.char = none ∨ next.2.bind f.char = some ',' ∨
      next.2.bind f.char = some '@' ∨ (mode = .groupCorrect ∧ next.2.bind f.char = some ';')) := by
  unfold Mailbox.Follows at hfollows
  split at hfollows
  · rw [hfollows] at heq
    obtain ⟨next, hskip, hends⟩ := endsLocal_reads hf hc hx hs heq
    refine ⟨next, hskip, ?_⟩
    simp only [endsLocal, Bool.or_eq_true, Bool.and_eq_true, decide_eq_true_eq, Bool.false_eq_true, and_false, or_false] at hends
    tauto
  · obtain ⟨b, b', hback, hb, -, -⟩ := hfollows
    rw [hback, List.append_assoc, List.cons_append] at heq
    obtain ⟨e, hskip, -, he⟩ := skipCfws_char hf hb hc (a := '@') (by decide) heq
    exact ⟨_, hskip, .inr (.inr (.inl (char_onward he)))⟩

theorem Mailbox.text_corrected (m : Mailbox) :
    (m.corrected domain).text = m.front ++ (m.loc ++ (inserted domain m.dom ++ m.back)) := by
  cases hdom : m.dom with
  | some d => simp [Mailbox.corrected, inserted, Mailbox.text, hdom]
  | none => simp [Mailbox.corrected, inserted, Mailbox.text, hdom]

/-! ## The list -/

/-- What is behind an address of the list. -/
def tailText (ms : List Mailbox) (after : FText) : FText :=
  if ms = [] then after else some ',' :: (listText ms ++ after)

theorem listText_cons (m : Mailbox) (ms : List Mailbox) (after : FText) :
    listText (m :: ms) ++ after = m.text ++ tailText ms after := by
  cases ms with
  | nil => rfl
  | cons m' ms =>
    unfold tailText
    rw [if_neg (List.cons_ne_nil _ _), listText, List.append_assoc, List.cons_append]

theorem tailText_cons (m : Mailbox) (ms : List Mailbox) (after : FText) :
    tailText (m :: ms) after = some ',' :: (m.text ++ tailText ms after) := by
  rw [← listText_cons]
  exact if_neg (List.cons_ne_nil _ _)

/-- What is behind the list. -/
def Ends (mode : MailboxMode) (after : FText) : Prop :=
  (mode = .recipientsCorrect ∧ after = []) ∨ (mode = .groupCorrect ∧ ∃ b, after = some ';' :: b ∧ Blank 0 b)

theorem Ends.item {after : FText} (h : Ends mode after) (ms : List Mailbox) : EndsItem mode (tailText ms after) := by
  cases ms with
  | nil =>
    rcases h with ⟨-, rfl⟩ | ⟨hmode, b, rfl, -⟩
    · exact .inl rfl
    · exact .inr (.inr ⟨hmode, b, rfl⟩)
  | cons m ms =>
    rw [tailText_cons]
    exact .inr (.inl ⟨_, rfl⟩)

theorem Ends.forRecipients {after : FText} (h : Ends mode after) : ForRecipients mode := by
  rcases h with ⟨hmode, -⟩ | ⟨hmode, -⟩
  · exact .inl hmode
  · exact .inr hmode

/-- **Where an address begins** behind a display name. -/
theorem mailboxStart_reads (mode : MailboxMode) (hf : f.Folds) {m : Mailbox} {angle : Bool} {p : FText} (hc : f.Place c)
    (hlead : Leads angle p b) (hw : Word m.loc) (hfollows : Mailbox.Follows m.dom m.back x)
    (hx : Mailbox.Closes angle x) (hs : EndsItem mode s)
    (heq : f.onward c = p ++ (leadText angle b ++ (m.loc ++ (m.back ++ s)))) :
    ∃ n e, mailboxStart mode n f c.line c = .ok (e.line, e) ∧ f.Place e ∧
      f.onward e = leadText angle b ++ (m.loc ++ (m.back ++ s)) := by
  unfold mailboxStart
  cases angle with
  | false =>
    rw [hlead.bare rfl] at heq
    have hloc : f.onward c = m.loc ++ (m.back ++ s) := heq
    obtain ⟨token, hword, htoken⟩ := lineTokenWord_spec hf hc hw (fun _ => hfollows.apart hx hs.apart) hloc
    obtain ⟨next, hskip, hsingle⟩ := single_reads hf htoken.place hfollows hx hs htoken.onward
    refine ⟨0, c, ?_, hc, heq⟩
    rw [if_neg (hw.char_ne hloc (by decide))]
    apply bind_ok_of hword
    rw [htoken.tEndLine]
    apply bind_ok_of hskip
    exact if_pos hsingle
  | true =>
    by_cases hp : p = []
    · rw [hp] at heq
      refine ⟨0, c, ?_, hc, heq⟩
      rw [if_pos (char_onward heq)]
    · obtain ⟨token, next, n, e, hword, hskip, ⟨hnone, hcomma, hat, hsemi⟩, hwords, he, honward⟩ :=
        firstWords_reads hf hlead.phrase hp (· = '<') (.inl rfl) (decide_eq_true rfl)
          (fun a ha => decide_eq_false (wordStart_ne ha (by decide))) hc heq
      refine ⟨n, e, ?_, he, honward⟩
      rw [if_neg (hlead.phrase.char_ne hp heq (by decide))]
      apply bind_ok_of hword
      apply bind_ok_of hskip
      have hmore : ¬ (next.2.bind f.char = none ∨ next.2.bind f.char = some ',' ∨ next.2.bind f.char = some '@' ∨
          (mode = .groupCorrect ∧ next.2.bind f.char = some ';')) := by
        rintro (h | h | h | ⟨-, h⟩)
        · exact hnone h
        · exact hcomma h
        · exact hat h
        · exact hsemi h
      exact (if_neg hmore).trans hwords

theorem mailboxes_mono {read : Bool} {n k : Nat} (hle : n ≤ k) {r : ParsedList}
    (h : mailboxes conf read mode n f c.line c = .ok r) : mailboxes conf read mode k f c.line c = .ok r := by
  induction hle with
  | refl => exact h
  | step _ ih => exact mailboxes_more _ ih

theorem mailboxStart_mono {n k : Nat} (hle : n ≤ k) {r : Nat × CharPtr} (h : mailboxStart mode n f c.line c = .ok r) :
    mailboxStart mode k f c.line c = .ok r := by
  induction hle with
  | refl => exact h
  | step _ ih => exact mailboxStart_more ih

/-- A valid address whose local part has a domain or is on one line. -/
def Mailbox.Plain (m : Mailbox) : Prop := m.Valid ∧ (m.dom = none → none ∉ m.loc)

/-- What a list is read to: its addresses, and the header from `c` on with their domains. -/
structure ListRead (conf : HeaderConf) (f : Field) (c : CharPtr) (ms : List Mailbox) (text : FText) (r : ParsedList) :
    Prop where
  folds : r.field.Folds
  length : r.field.length = f.length
  rcpts : r.rcpts = ms.map (Mailbox.address conf.simtaDomain)
  text : ∀ u, f.onward ⟨0, 0⟩ = u ++ f.onward c → r.field.onward ⟨0, 0⟩ = u ++ text

/-- The end of a list. -/
theorem listEnd_reads {y after : FText} (hf : f.Folds) (hafter : Ends mode after) (hc : f.Place c) (hy : Blank 0 y)
    (heq : f.onward c = y ++ after) :
    (mode = .recipientsCorrect ∧ ∃ l, skipCfws f c.line c = .ok (l, none)) ∨
      (mode = .groupCorrect ∧ ∃ e l, skipCfws f c.line c = .ok (e.line, some e) ∧ f.char e = some ';' ∧
        skipCfws f e.line ⟨e.line, e.off + 1⟩ = .ok (l, none)) := by
  rcases hafter with ⟨hmode, rfl⟩ | ⟨hmode, b, rfl, hb⟩
  · rw [List.append_nil] at heq
    exact .inl ⟨hmode, skipCfws_end hf hy hc heq⟩
  · obtain ⟨e, hskip, he, hsemi⟩ := skipCfws_char hf hy hc (a := ';') (by decide) heq
    obtain ⟨t, ht, -, hbehind⟩ := Field.onward_char hsemi
    obtain ⟨l, hend⟩ := skipCfws_end hf hb (he.char ht) hbehind
    exact .inr ⟨hmode, e, l, hskip, char_onward hsemi, hend⟩

/-- **The loop over the addresses.** -/
theorem mailboxes_reads (conf : HeaderConf) {after : FText} (hafter : Ends mode after) (rest : List Mailbox) :
    ∀ {f : Field} {c : CharPtr} {m : Mailbox} {angle : Bool} {p b x : FText}, f.Folds → f.Place c → Leads angle p b →
      Word m.loc → Mailbox.Follows m.dom m.back x → Mailbox.Closes angle x → (m.dom = none → none ∉ m.loc) →
      (∀ m' ∈ rest, m'.Plain) →
      f.onward c = p ++ (leadText angle b ++ (m.loc ++ (m.back ++ tailText rest after))) →
      ∃ n r, mailboxes conf true mode n f c.line c = .ok r ∧
        ListRead conf f c (m :: rest) (p ++ (leadText angle b ++ (m.loc ++ (inserted conf.simtaDomain m.dom ++
          (m.back ++ tailText (rest.map (Mailbox.corrected conf.simtaDomain)) after))))) r := by
  have hmode := hafter.forRecipients
  induction rest with
  | nil =>
    intro f c m angle p b x hf hc hlead hw hfollows hx hline _ heq
    obtain ⟨n, e, hstart, he, honward⟩ := mailboxStart_reads mode hf hc hlead hw hfollows hx (hafter.item []) heq
    obtain ⟨r, y, hparse, hread⟩ := parseAddr_reads conf hf hmode he hlead.blank hw hfollows hx (hafter.item [])
      hline honward
    refine ⟨n + 1, ⟨r.field, [m.address conf.simtaDomain], r.generateSender⟩, ?_, hread.folds, hread.length, rfl, ?_⟩
    · unfold mailboxes
      apply bind_ok_of hstart
      apply bind_ok_of hparse
      rw [hread.line]
      rcases listEnd_reads hread.folds hafter hread.place hread.blank hread.onward with
        ⟨hlist, l, hskip⟩ | ⟨hgroup, e', l, hskip, hsemi, hend⟩
      · apply bind_ok_of hskip
        dsimp only
        rw [hlist, if_neg (fun h => by cases h), hread.rcpt]
        rfl
      · apply bind_ok_of hskip
        dsimp only
        rw [hsemi, if_neg (by decide), if_pos ⟨hgroup, rfl⟩]
        apply bind_ok_of hend
        dsimp only
        rw [hread.rcpt]
        rfl
    · intro u hu
      rw [heq, ← honward, ← List.append_assoc] at hu
      rw [hread.text _ hu, List.append_assoc]
      rfl
  | cons m' rest ih =>
    intro f c m angle p b x hf hc hlead hw hfollows hx hline hrest heq
    obtain ⟨n, e, hstart, he, honward⟩ := mailboxStart_reads mode hf hc hlead hw hfollows hx
      (hafter.item (m' :: rest)) heq
    obtain ⟨r, y, hparse, hread⟩ := parseAddr_reads conf hf hmode he hlead.blank hw hfollows hx
      (hafter.item (m' :: rest)) hline honward
    obtain ⟨⟨hw', angle', x', hopens', hfollows', hx'⟩, hline'⟩ := hrest m' (List.mem_cons_self ..)
    obtain ⟨b₀, p', b', hfront, hb₀, hlead'⟩ := hopens'.leads
    -- from the comma to the next address
    have hcomma : r.field.onward r.c = y ++ some ',' :: (b₀ ++ (p' ++ (leadText angle' b' ++ (m'.loc ++ (m'.back ++
        tailText rest after))))) := by
      rw [hread.onward, tailText_cons, Mailbox.text, hfront]
      simp only [List.append_assoc]
    obtain ⟨e₁, hskip, he₁, hat⟩ := skipCfws_char hread.folds hread.blank hread.place (a := ',') (by decide) hcomma
    obtain ⟨t, ht, -, hbehind⟩ := Field.onward_char hat
    obtain ⟨a, v, hv, ha, -⟩ := hlead'.head hw' (m'.back ++ tailText rest after)
    rw [hv] at hbehind
    obtain ⟨e₂, hskip₂, he₂, honward₂⟩ := skipCfws_char hread.folds hb₀ (he₁.char ht) ha hbehind
    rw [← hv] at honward₂
    obtain ⟨k, r', hloop, hlist⟩ := ih hread.folds he₂ hlead' hw' hfollows' hx' hline'
      (fun m hm => hrest m (List.mem_cons_of_mem _ hm)) honward₂
    refine ⟨max n k + 1, ⟨r'.field, m.address conf.simtaDomain :: r'.rcpts,
      r.generateSender || mode = .fromCorrect || r'.generateSender⟩, ?_, hlist.folds, hlist.length.trans hread.length, ?_, ?_⟩
    · unfold mailboxes
      apply bind_ok_of (mailboxStart_mono (Nat.le_max_left n k) hstart)
      apply bind_ok_of hparse
      rw [hread.line]
      apply bind_ok_of hskip
      dsimp only
      rw [if_pos (char_onward hat)]
      apply bind_ok_of hskip₂
      dsimp only
      have hnot : mode ≠ .sender := by
        rcases hmode with rfl | rfl <;> exact fun h => by cases h
      rw [if_neg hnot]
      apply bind_ok_of (mailboxes_mono (Nat.le_max_right n k) hloop)
      rw [hread.rcpt]
      rfl
    · rw [hlist.rcpts]
      rfl
    · intro u hu
      rw [heq, ← honward, ← List.append_assoc] at hu
      have htext := hread.text _ hu
      have hsplit : r.field.onward ⟨0, 0⟩ = (u ++ (p ++ (leadText angle b ++ (m.loc ++ (inserted conf.simtaDomain m.dom ++
          (m.back ++ some ',' :: b₀)))))) ++ r.field.onward e₂ := by
        rw [htext, honward₂, tailText_cons, Mailbox.text, hfront]
        simp only [List.append_assoc, List.cons_append]
      rw [hlist.text _ hsplit, List.map_cons, tailText_cons, Mailbox.text_corrected, hfront]
      simp only [List.append_assoc, List.cons_append]

/-- `parse_mailbox_list` for a list that may have comments in front of it. -/
theorem parseMailboxList_reads (conf : HeaderConf) {after : FText} (hafter : Ends mode after) (hf : f.Folds) (hc : f.Place c) {m : Mailbox}
    {rest : List Mailbox} {angle : Bool} {b₀ p : FText} (hb₀ : Blank 0 b₀) (hlead : Leads angle p b) (hw : Word m.loc)
    (hfollows : Mailbox.Follows m.dom m.back x) (hx : Mailbox.Closes angle x) (hline : m.dom = none → none ∉ m.loc)
    (hrest : ∀ m' ∈ rest, m'.Plain)
    (heq : f.onward c = b₀ ++ (p ++ (leadText angle b ++ (m.loc ++ (m.back ++ tailText rest after))))) :
    ∃ n r, parseMailboxList conf true mode n f c.line c = .ok r ∧
      ListRead conf f c (m :: rest) (b₀ ++ (p ++ (leadText angle b ++ (m.loc ++ (inserted conf.simtaDomain m.dom ++
        (m.back ++ tailText (rest.map (Mailbox.corrected conf.simtaDomain)) after)))))) r := by
  obtain ⟨a, v, hv, ha, -⟩ := hlead.head hw (m.back ++ tailText rest after)
  rw [hv] at heq
  obtain ⟨e, hskip, he, honward⟩ := skipCfws_char hf hb₀ hc ha heq
  rw [← hv] at honward heq
  obtain ⟨n, r, hrun, hread⟩ := mailboxes_reads conf hafter rest hf he hlead hw hfollows hx hline hrest honward
  refine ⟨n, r, bind_ok_of hskip hrun, hread.folds, hread.length, hread.rcpts, fun u hu => ?_⟩
  rw [heq, ← honward, ← List.append_assoc] at hu
  rw [hread.text _ hu, List.append_assoc]

/-- What follows the words at the beginning of a header. -/
theorem headerWords_reads (hf : f.Folds) {p : FText} (hp : Phrase p) (hne : p ≠ []) {a : Char} (ha : a = '<' ∨ a = ':')
    (hc : f.Place c) (heq : f.onward c = p ++ some a :: s) :
    ∃ token next n e, lineTokenWord f c.line c = .ok token ∧ skipCfws f token.tEndLine token.tEnd = .ok next ∧
      ¬ (next.2.bind f.char = none ∨ next.2.bind f.char = some ',' ∨ next.2.bind f.char = some '@') ∧
      skipWords (fun c => c = ':' || c = '<') f n next.1 next.2 = .ok (e.line, e) ∧ f.Place e ∧
      f.onward e = some a :: s := by
  have hstop : (decide (a = ':') || decide (a = '<')) = true := by
    rcases ha with rfl | rfl <;> rfl
  have hwords : ∀ a, isWordStart a = true → (decide (a = ':') || decide (a = '<')) = false := by
    intro a ha
    have hcolon : a ≠ ':' := wordStart_ne ha (by decide)
    have hless : a ≠ '<' := wordStart_ne ha (by decide)
    simp [hcolon, hless]
  obtain ⟨token, next, n, e, hword, hskip, ⟨hnone, hcomma, hat, -⟩, hrun, he, honward⟩ :=
    firstWords_reads hf hp hne (fun c => c = ':' || c = '<') ha hstop hwords hc heq
  refine ⟨token, next, n, e, hword, hskip, ?_, hrun, he, honward⟩
  rintro (h | h | h)
  · exact hnone h
  · exact hcomma h
  · exact hat h

theorem parseMailboxList_mono {read : Bool} {n k : Nat} (hle : n ≤ k) {r : ParsedList}
    (h : parseMailboxList conf read mode n f c.line c = .ok r) : parseMailboxList conf read mode k f c.line c = .ok r := by
  induction hle with
  | refl => exact h
  | step _ ih => exact parseMailboxList_more ih

theorem skipWords_mono {stop : Char → Bool} {n k l : Nat} {next : Option CharPtr} {r : Nat × CharPtr} (hle : n ≤ k)
    (h : skipWords stop f n l next = .ok r) : skipWords stop f k l next = .ok r := by
  induction hle with
  | refl => exact h
  | step _ ih => exact skipWords_more _ ih

/-- A header that is a list of addresses. -/
theorem recipientsList_reads (conf : HeaderConf) (hf : f.Folds) (hc : f.Place c) {m : Mailbox} {rest : List Mailbox} (hm : m.Plain)
    (hrest : ∀ m' ∈ rest, m'.Plain) (heq : f.onward c = m.text ++ tailText rest []) :
    ∃ n r, parseRecipients conf true n f c.line c = .ok r ∧
      ListRead conf f c (m :: rest) ((m.corrected conf.simtaDomain).text ++
        tailText (rest.map (Mailbox.corrected conf.simtaDomain)) []) r := by
  obtain ⟨⟨hw, angle, x, hopens, hfollows, hx⟩, hline⟩ := hm
  obtain ⟨b₀, p, b, hfront, hb₀, hlead⟩ := hopens.leads
  have hafter : Ends .recipientsCorrect [] := .inl ⟨rfl, rfl⟩
  have htext : f.onward c = b₀ ++ (p ++ (leadText angle b ++ (m.loc ++ (m.back ++ tailText rest [])))) := by
    rw [heq, Mailbox.text, hfront]
    simp only [List.append_assoc]
  have hcorrected : (m.corrected conf.simtaDomain).text ++ tailText (rest.map (Mailbox.corrected conf.simtaDomain)) [] =
      b₀ ++ (p ++ (leadText angle b ++ (m.loc ++ (inserted conf.simtaDomain m.dom ++
        (m.back ++ tailText (rest.map (Mailbox.corrected conf.simtaDomain)) []))))) := by
    rw [Mailbox.text_corrected, hfront]
    simp only [List.append_assoc]
  obtain ⟨a, v, hv, ha, hstart⟩ := hlead.head hw (m.back ++ tailText rest [])
  rw [hv] at htext
  obtain ⟨e, hskip, he, honward⟩ := skipCfws_char hf hb₀ hc ha htext
  rw [← hv] at htext
  have hchar : f.char e = some a := char_onward honward
  have hcolon : f.char e ≠ some ':' := by
    rw [hchar]
    rcases hstart with hstart | rfl
    · exact fun h => wordStart_ne hstart (by decide) (Option.some.inj h)
    · exact fun h => by cases h
  rw [← hv] at honward
  rw [hcorrected]
  -- the list is read from there on
  have hthere : ∃ n r, parseMailboxList conf true .recipientsCorrect n f e.line e = .ok r ∧
      ListRead conf f c (m :: rest) (b₀ ++ (p ++ (leadText angle b ++ (m.loc ++ (inserted conf.simtaDomain m.dom ++
        (m.back ++ tailText (rest.map (Mailbox.corrected conf.simtaDomain)) [])))))) r := by
    obtain ⟨n, r, hrun, hread⟩ := parseMailboxList_reads conf hafter hf he .done hlead hw hfollows hx hline hrest
      honward
    refine ⟨n, r, hrun, hread.folds, hread.length, hread.rcpts, fun u hu => ?_⟩
    rw [htext, ← honward, ← List.append_assoc] at hu
    rw [hread.text _ hu, List.append_assoc]
    rfl
  by_cases hless : a = '<'
  · obtain ⟨n, r, hrun, hread⟩ := hthere
    refine ⟨n, r, ?_, hread⟩
    unfold parseRecipients
    apply bind_ok_of hskip
    dsimp only
    rw [if_neg hcolon, if_pos (hless ▸ hchar)]
    exact hrun
  · have hnot : f.char e ≠ some '<' := by
      rw [hchar]
      exact fun h => hless (Option.some.inj h)
    cases angle with
    | false =>
      obtain ⟨n, r, hrun, hread⟩ := hthere
      refine ⟨n, r, ?_, hread⟩
      rw [hlead.bare rfl] at honward
      have hloc : f.onward e = m.loc ++ (m.back ++ tailText rest []) := honward
      obtain ⟨token, hword, htoken⟩ := lineTokenWord_spec hf he hw
        (fun _ => hfollows.apart hx (hafter.item rest).apart) hloc
      obtain ⟨next, hnext, hsingle⟩ := single_reads hf htoken.place hfollows hx (hafter.item rest) htoken.onward
      unfold parseRecipients
      apply bind_ok_of hskip
      dsimp only
      rw [if_neg hcolon, if_neg hnot]
      apply bind_ok_of hword
      rw [htoken.tEndLine]
      apply bind_ok_of hnext
      have hone : next.2.bind f.char = none ∨ next.2.bind f.char = some ',' ∨ next.2.bind f.char = some '@' := by
        rcases hsingle with h | h | h | ⟨h, -⟩
        · exact .inl h
        · exact .inr (.inl h)
        · exact .inr (.inr h)
        · cases h
      exact (if_pos hone).trans hrun
    | true =>
      have hp : p ≠ [] := by
        rintro rfl
        exact hless (Option.some.inj (List.cons.inj hv).1).symm
      obtain ⟨token, next, n, e', hword, hnext, hmore, hwords, he', honward'⟩ :=
        headerWords_reads hf hlead.phrase hp (.inl rfl) he honward
      have hlead' : Leads true [] b := ⟨.done, hlead.blank, fun h => by cases h⟩
      obtain ⟨k, r, hrun, hread⟩ := parseMailboxList_reads conf hafter hf he' .done hlead' hw hfollows hx hline
        hrest honward'
      refine ⟨max n k, r, ?_, hread.folds, hread.length, hread.rcpts, fun u hu => ?_⟩
      · unfold parseRecipients
        apply bind_ok_of hskip
        dsimp only
        rw [if_neg hcolon, if_neg hnot]
        apply bind_ok_of hword
        apply bind_ok_of hnext
        refine (if_neg hmore).trans ?_
        apply bind_ok_of (skipWords_mono (Nat.le_max_left n k) hwords)
        dsimp only
        rw [char_onward honward', if_neg (by decide)]
        exact parseMailboxList_mono (Nat.le_max_right n k) hrun
      · have hsplit : f.onward ⟨0, 0⟩ = (u ++ (b₀ ++ p)) ++ f.onward e' := by
          rw [hu, htext, honward']
          simp only [List.append_assoc]
          rfl
        rw [hread.text _ hsplit]
        simp only [List.append_assoc, List.nil_append]

/-- A header that is a group. -/
theorem recipientsGroup_reads (conf : HeaderConf) (hf : f.Folds) (hc : f.Place c) {m : Mailbox} {rest : List Mailbox} (hm : m.Plain)
    (hrest : ∀ m' ∈ rest, m'.Plain) {b₁ p b₂ : FText} (hb₁ : Blank 0 b₁) (hp : Phrase p) (hne : p ≠ []) (hb₂ : Blank 0 b₂)
    (heq : f.onward c = b₁ ++ (p ++ some ':' :: (m.text ++ tailText rest (some ';' :: b₂)))) :
    ∃ n r, parseRecipients conf true n f c.line c = .ok r ∧
      ListRead conf f c (m :: rest) (b₁ ++ (p ++ some ':' :: ((m.corrected conf.simtaDomain).text ++
        tailText (rest.map (Mailbox.corrected conf.simtaDomain)) (some ';' :: b₂)))) r := by
  obtain ⟨⟨hw, angle, x, hopens, hfollows, hx⟩, hline⟩ := hm
  obtain ⟨b₀, p', b, hfront, hb₀, hlead⟩ := hopens.leads
  have hafter : Ends .groupCorrect (some ';' :: b₂) := .inr ⟨rfl, b₂, rfl, hb₂⟩
  obtain ⟨e, hskip, he, honward⟩ := nextWord_reads hf hp (a := ':') (by decide) hc hb₁ heq
  obtain ⟨token, next, n, e', hword, hnext, hmore, hwords, he', hcolon⟩ :=
    headerWords_reads hf hp hne (.inr rfl) he honward
  obtain ⟨t, ht, -, hbehind⟩ := Field.onward_char hcolon
  have hlist : f.onward ⟨e'.line, e'.off + 1⟩ =
      b₀ ++ (p' ++ (leadText angle b ++ (m.loc ++ (m.back ++ tailText rest (some ';' :: b₂))))) := by
    rw [hbehind, Mailbox.text, hfront]
    simp only [List.append_assoc]
  obtain ⟨k, r, hrun, hread⟩ := parseMailboxList_reads conf hafter hf (he'.char ht) hb₀ hlead hw hfollows hx hline
    hrest hlist
  refine ⟨max n k, r, ?_, hread.folds, hread.length, hread.rcpts, fun u hu => ?_⟩
  · unfold parseRecipients
    apply bind_ok_of hskip
    dsimp only
    rw [if_neg (hp.char_ne hne honward (by decide)), if_neg (hp.char_ne hne honward (by decide))]
    apply bind_ok_of hword
    apply bind_ok_of hnext
    refine (if_neg hmore).trans ?_
    apply bind_ok_of (skipWords_mono (Nat.le_max_left n k) hwords)
    dsimp only
    rw [if_pos (char_onward hcolon)]
    exact parseMailboxList_mono (Nat.le_max_right n k) hrun
  · have hsplit : f.onward ⟨0, 0⟩ = (u ++ (b₁ ++ (p ++ [some ':']))) ++ f.onward ⟨e'.line, e'.off + 1⟩ := by
      rw [hu, heq, hbehind]
      simp only [List.append_assoc, List.cons_append, List.nil_append]
    rw [hread.text _ hsplit, Mailbox.text_corrected, hfront]
    simp only [List.append_assoc, List.cons_append, List.nil_append]

/-- **A header with recipients** is read to its addresses. -/
theorem parseRecipients_reads (conf : HeaderConf) (hf : f.Folds) (hc : f.Place c) {R : Recipients} (hR : R.Valid) (hplain : R.Unfolded)
    (heq : f.onward c = R.text) :
    ∃ n r, parseRecipients conf true n f c.line c = .ok r ∧
      ListRead conf f c R.mailboxes (R.corrected conf.simtaDomain).text r := by
  obtain ⟨before, ms, after⟩ := R
  obtain ⟨haround, hne, hvalid⟩ := hR
  cases ms with
  | nil => exact absurd rfl hne
  | cons m rest =>
    have hm : ∀ m' ∈ m :: rest, m'.Plain := fun m' hm' => ⟨hvalid m' hm', hplain m' hm'⟩
    have hrest : ∀ m' ∈ rest, m'.Plain := fun m' hm' => hm m' (List.mem_cons_of_mem _ hm')
    have htext : f.onward c = before ++ (m.text ++ tailText rest after) := by
      rw [heq, Recipients.text, listText_cons]
    have hcorrected : (Recipients.corrected conf.simtaDomain ⟨before, m :: rest, after⟩).text =
        before ++ ((m.corrected conf.simtaDomain).text ++
          tailText (rest.map (Mailbox.corrected conf.simtaDomain)) after) := by
      unfold Recipients.corrected Recipients.text
      rw [List.map_cons, listText_cons]
    rw [hcorrected]
    cases haround with
    | list => exact recipientsList_reads conf hf hc (hm m (List.mem_cons_self ..)) hrest htext
    | group b p b' hb hp hpne hb' =>
      have hcolon : ∀ t : FText, (b ++ (p ++ [some ':'])) ++ t = b ++ (p ++ some ':' :: t) := by
        intro t
        simp only [List.append_assoc, List.cons_append, List.nil_append]
      obtain ⟨n, r, hrun, hread⟩ := recipientsGroup_reads conf hf hc (hm m (List.mem_cons_self ..)) hrest hb hp hpne
        hb' (htext.trans (hcolon _))
      rw [← hcolon] at hread
      exact ⟨n, r, hrun, hread⟩

/-! ## The header -/

/-- A line and the lines below it. -/
theorem onLine_append_inj {t u : Text} {a b : FText} (ha : ∀ y ∈ a.head?, y = none) (hb : ∀ y ∈ b.head?, y = none)
    (h : onLine t ++ a = onLine u ++ b) : t = u ∧ a = b := by
  induction t generalizing u with
  | nil =>
    cases u with
    | nil => exact ⟨rfl, h⟩
    | cons c u =>
      rw [show a = some c :: (onLine u ++ b) from h] at ha
      cases ha _ rfl
  | cons c t ih =>
    cases u with
    | nil =>
      rw [show b = some c :: (onLine t ++ a) from h.symm] at hb
      cases hb _ rfl
    | cons d u =>
      obtain ⟨hcd, hrest⟩ := List.cons.inj h
      obtain ⟨rfl, hab⟩ := ih hrest
      exact ⟨by rw [Option.some.inj hcd], hab⟩

theorem lowerText_head (ls : List Text) : ∀ y ∈ (ls.flatMap fun line => none :: onLine line).head?, y = none := by
  cases ls with
  | nil => exact fun y hy => by cases hy
  | cons l ls => exact fun y hy => (Option.some.inj hy).symm

/-- The lines that make a text. -/
theorem lowerText_inj (ls : List Text) : ∀ {ks : List Text},
    (ls.flatMap fun line => none :: onLine line) = (ks.flatMap fun line => none :: onLine line) → ls = ks := by
  induction ls with
  | nil =>
    intro ks h
    cases ks with
    | nil => rfl
    | cons k ks => cases h
  | cons l ls ih =>
    intro ks h
    cases ks with
    | nil => cases h
    | cons k ks =>
      rw [List.flatMap_cons, List.flatMap_cons] at h
      obtain ⟨rfl, hrest⟩ := onLine_append_inj (lowerText_head ls) (lowerText_head ks) (List.cons.inj h).2
      rw [ih hrest]

/-- A header is its text. -/
theorem Field.eq_of_onward {g : Field} (hlength : f.length = g.length) (h : f.onward ⟨0, 0⟩ = g.onward ⟨0, 0⟩) : f = g := by
  cases f with
  | nil => exact (List.length_eq_zero_iff.mp hlength.symm).symm
  | cons l ls =>
    cases g with
    | nil => cases hlength
    | cons k ks =>
      obtain ⟨hl, hrest⟩ := onLine_append_inj (t := l) (u := k) (lowerText_head ls) (lowerText_head ks) h
      rw [hl, lowerText_inj ls hrest]

/-- The header with its body from `off` on is a list of recipients or a group; no local part without a domain goes over
    several lines. -/
def PlainRecipients (f : Field) (off : Nat) : Prop :=
  ∃ R : Recipients, R.Valid ∧ f.onward ⟨0, off⟩ = R.text ∧ R.Unfolded

/-- What should become of a header that is accepted. -/
structure HeaderCorrected (conf : HeaderConf) (f : Field) (off : Nat) (r : ParsedList) : Prop where
  lines : r.field.length = f.length
  recipients : ∃ (name : Text) (R : Recipients), name.length = off ∧ R.Valid ∧
    f.onward ⟨0, 0⟩ = onLine name ++ R.text ∧
    r.rcpts = R.mailboxes.map (Mailbox.address conf.simtaDomain) ∧
    r.field.onward ⟨0, 0⟩ = onLine name ++ (R.corrected conf.simtaDomain).text
  again : ∃ n r', parseRecipients conf true n r.field 0 ⟨0, off⟩ = .ok r' ∧ r'.field = r.field ∧ r'.rcpts = r.rcpts

/-- The name in front of the body. -/
theorem Field.name (hf : f.Place ⟨0, c.off⟩) (hc : c.line = 0) :
    ∃ name : Text, name.length = c.off ∧ f.onward ⟨0, 0⟩ = onLine name ++ f.onward c := by
  have hupto : Field.Upto ⟨0, 0⟩ ⟨0, c.off⟩ := .inr ⟨rfl, Nat.zero_le _⟩
  have hspan := Field.onward_span hf hupto
  have hhere : (⟨0, c.off⟩ : CharPtr) = c := by rw [← hc]
  unfold Field.span at hspan
  rw [if_pos rfl, hhere] at hspan
  refine ⟨_, ?_, hspan⟩
  have hle := hf.off
  unfold Field.text
  rw [List.length_take, List.drop_zero]
  exact Nat.min_eq_left hle

/-- **A plain header** is accepted. -/
theorem plainRecipients_accepted {off : Nat} (hf : f.Folds) (hplace : f.Place ⟨0, off⟩) (hplain : PlainRecipients f off) :
    ∃ n r, parseRecipients conf true n f 0 ⟨0, off⟩ = .ok r := by
  obtain ⟨R, hR, heq, hunfolded⟩ := hplain
  obtain ⟨n, r, hrun, -⟩ := parseRecipients_reads conf hf hplace hR hunfolded heq
  exact ⟨n, r, hrun⟩

/-- **A plain header is corrected**: its addresses come to the envelope, each once and in order, those without a domain
    get one in the header, and it stays as it is the next time. -/
theorem recipients_corrected {off : Nat} (hdomain : HostName conf.simtaDomain) (hf : f.Folds) (hplace : f.Place ⟨0, off⟩)
    (hplain : PlainRecipients f off) :
    ∀ n r, parseRecipients conf true n f 0 ⟨0, off⟩ = .ok r → HeaderCorrected conf f off r := by
  intro n r hrun
  obtain ⟨R, hR, heq, hunfolded⟩ := hplain
  obtain ⟨k, r', hrun', hread⟩ := parseRecipients_reads conf hf hplace hR hunfolded heq
  have hsame : r = r' := by
    have hn := parseRecipients_mono (Nat.le_max_left n k) hrun
    rw [parseRecipients_mono (Nat.le_max_right n k) hrun'] at hn
    exact (Except.ok.inj hn).symm
  subst hsame
  obtain ⟨name, hname, hwhole⟩ := Field.name (c := ⟨0, off⟩) hplace rfl
  have hwhole' := hread.text _ hwhole
  -- the corrected header is a header with recipients
  have hfirst : r.field.Place ⟨0, 0⟩ := Field.place_line (by rw [hread.length]; exact hplace.line)
  obtain ⟨hplace', hbody, -⟩ := onward_atom hfirst hwhole'
  rw [Nat.zero_add, hname] at hplace' hbody
  obtain ⟨j, r'', hagain, hread'⟩ := parseRecipients_reads conf hread.folds hplace' (hR.corrected hdomain)
    R.unfolded_corrected hbody
  refine ⟨hread.length, ⟨name, R, hname, hR, ?_, hread.rcpts, hwhole'⟩, j, r'', hagain, ?_, ?_⟩
  · rw [hwhole, heq]
  · apply Field.eq_of_onward hread'.length
    have hbodyWhole : r.field.onward ⟨0, 0⟩ = onLine name ++ r.field.onward ⟨0, off⟩ := by rw [hwhole', hbody]
    rw [hread'.text _ hbodyWhole, hwhole', R.corrected_corrected]
  · rw [hread'.rcpts, hread.rcpts, R.addresses_corrected]

/-- The configuration says what domain addresses without one have. -/
def domainConf : HeaderConf where
  simtaDomain := "h.org".toList
  simtaSender := []
  simtaHostname := []
  simsendStrictFrom := false

theorem domainConf_host : HostName domainConf.simtaDomain :=
  ⟨by decide, List.all_eq_true.mp (by decide), by decide⟩

theorem recipients_corrected_list : HostName domainConf.simtaDomain ∧ Field.Folds ["To: a,".toList, " b@x".toList] ∧
    Field.Place ["To: a,".toList, " b@x".toList] ⟨0, 3⟩ ∧ PlainRecipients ["To: a,".toList, " b@x".toList] 3 ∧
    ∀ n r, parseRecipients domainConf true n ["To: a,".toList, " b@x".toList] 0 ⟨0, 3⟩ = .ok r →
      HeaderCorrected domainConf ["To: a,".toList, " b@x".toList] 3 r := by
  have hfolds : Field.Folds ["To: a,".toList, " b@x".toList] := by
    intro l hl
    obtain rfl : l = 0 := Nat.lt_one_iff.mp (Nat.lt_of_succ_lt_succ hl)
    rfl
  have hplace : Field.Place ["To: a,".toList, " b@x".toList] ⟨0, 3⟩ := ⟨by decide, by decide⟩
  have hword : ∀ c, isDotAtomText c = true → AtomText [some c] := by
    intro c hc
    refine ⟨[c], List.cons_ne_nil _ _, ?_, rfl⟩
    intro c' hc'
    rw [List.mem_singleton.mp hc']
    exact hc
  have hplain : PlainRecipients ["To: a,".toList, " b@x".toList] 3 := by
    refine ⟨⟨[], [⟨[some ' '], [some 'a'], none, []⟩, ⟨[none, some ' '], [some 'b'], some [some 'x'], [some '@', some 'x']⟩],
      []⟩, ⟨.list, List.cons_ne_nil _ _, ?_⟩, rfl, ?_⟩
    · intro m hm
      rcases List.mem_cons.mp hm with rfl | hm
      · exact ⟨.inl (hword 'a' (by decide)), false, [], .wsp 0 ' ' [] rfl .done, rfl, .done⟩
      · rw [List.mem_singleton.mp hm]
        exact ⟨.inl (hword 'b' (by decide)), false, [], .fold 0 _ (.wsp 0 ' ' [] rfl .done),
          ⟨[], [], rfl, .done, .done, .inl (hword 'x' (by decide))⟩, .done⟩
    · intro m hm hnone
      rcases List.mem_cons.mp hm with rfl | hm
      · decide
      · rw [List.mem_singleton.mp hm] at hnone
        cases hnone
  exact ⟨domainConf_host, hfolds, hplace, hplain, recipients_corrected domainConf_host hfolds hplace hplain⟩

/-- **A quoted string over two lines that gets a domain** is read once more, with the address behind it. -/
theorem not_header_corrected : ¬ ∀ (conf : HeaderConf) (f : Field) (off n : Nat) (r : ParsedList),
    HostName conf.simtaDomain → f.Folds → f.Place ⟨0, off⟩ → parseRecipients conf true n f 0 ⟨0, off⟩ = .ok r →
      HeaderCorrected conf f off r := by
  intro h
  have hfolds : Field.Folds ["To: \"a".toList, " b\", \"c".toList, " d\"@x".toList] := by
    intro l hl
    have hcases : l = 0 ∨ l = 1 := by
      have hlt : l + 1 < 3 := hl
      omega
    rcases hcases with rfl | rfl <;> rfl
  have hrun : parseRecipients domainConf true 9 ["To: \"a".toList, " b\", \"c".toList, " d\"@x".toList] 0 ⟨0, 3⟩ =
      .ok ⟨["To: \"a".toList, " b\"@h.org, \"c".toList, " d\"@x".toList],
        ["\"a b\"@h.org".toList, "\"c b\"@h.org".toList, "\"c d\"@x".toList], false⟩ := by
    decide +kernel
  have hagain : parseRecipients domainConf true 9 ["To: \"a".toList, " b\"@h.org, \"c".toList, " d\"@x".toList] 0 ⟨0, 3⟩ =
      .ok ⟨["To: \"a".toList, " b\"@h.org, \"c".toList, " d\"@x".toList],
        ["\"a b\"@h.org".toList, "\"c d\"@x".toList], false⟩ := by
    decide +kernel
  obtain ⟨n, r', hrun', -, hrcpts⟩ := (h domainConf _ 3 9 _ domainConf_host hfolds ⟨by decide, by decide⟩ hrun).again
  have hmore := parseRecipients_mono (Nat.le_max_left n 9) hrun'
  rw [parseRecipients_mono (Nat.le_max_right n 9) hagain] at hmore
  rw [← Except.ok.inj hmore] at hrcpts
  exact absurd (congrArg List.length hrcpts) (by decide)

end Simta
