import Simta.AddressCorrection
import Simta.HeaderParse

/-!
# The text of a list of addresses

What a header with recipients is, read as a whole and not line by line: its text over all lines, with the comments, the
words and the addresses in it.

* `Blank`, `Word`, `DomainWord`, `Phrase` — what stands between the words, the words, and a display name;
* `unfolded` — the text of a word that goes over several lines;
* `Mailbox`, `Mailbox.Valid` — an address in the list, with or without a domain;
* `Recipients`, `Recipients.Valid` — the list, or a group with a list;
* `Mailbox.corrected` — the address with the domain that it had not;
* `Mailbox.Valid.corrected` — it is an address again, and the same one.
-/

set_option autoImplicit false

namespace Simta

/-- The text of a header over its lines: `none` is the end of a line. -/
abbrev FText : Type := List (Option Char)

/-- A text on one line. -/
def onLine (t : Text) : FText := t.map some

variable {s s' w b x : FText} {d : Nat} {domain : Text}

/-! ## Words -/

/-- What is neither white space nor a parenthesis nor a backslash. -/
def isPlain (c : Char) : Bool := !isWsp c && c ≠ '(' && c ≠ ')' && c ≠ '\\'

/-- Comments and white space, from inside of `depth` comments; a backslash quotes the character behind it, in a comment
    or outside. -/
inductive Blank : Nat → FText → Prop
  | done : Blank 0 []
  | wsp (d : Nat) (c : Char) (s : FText) (hc : isWsp c = true) (h : Blank d s) : Blank d (some c :: s)
  | fold (d : Nat) (s : FText) (h : Blank d s) : Blank d (none :: s)
  | opening (d : Nat) (s : FText) (h : Blank (d + 1) s) : Blank d (some '(' :: s)
  | closing (d : Nat) (s : FText) (h : Blank d s) : Blank (d + 1) (some ')' :: s)
  | pair (d : Nat) (c : Char) (s : FText) (h : Blank d s) : Blank d (some '\\' :: some c :: s)
  | comment (d : Nat) (c : Char) (s : FText) (hc : isPlain c = true) (h : Blank (d + 1) s) : Blank (d + 1) (some c :: s)

/-- What is in a quoted string or a domain literal, up to the character that ends it. -/
inductive Enclosed (close : Char) : FText → Prop
  | done : Enclosed close []
  | char (c : Char) (s : FText) (hclose : c ≠ close) (hslash : c ≠ '\\') (h : Enclosed close s) :
    Enclosed close (some c :: s)
  | pair (c : Char) (s : FText) (h : Enclosed close s) : Enclosed close (some '\\' :: some c :: s)
  | fold (s : FText) (h : Enclosed close s) : Enclosed close (none :: s)

/-- A dot-atom. -/
def AtomText (w : FText) : Prop := ∃ t : Text, t ≠ [] ∧ (∀ c ∈ t, isDotAtomText c = true) ∧ w = onLine t

/-- A text between two characters. -/
def Between (opening close : Char) (w : FText) : Prop := ∃ s, Enclosed close s ∧ w = some opening :: (s ++ [some close])

/-- A quoted string or a dot-atom. -/
def Word (w : FText) : Prop := AtomText w ∨ Between '"' '"' w

/-- A domain literal or a dot-atom. -/
def DomainWord (w : FText) : Prop := AtomText w ∨ Between '[' ']' w

/-- No dot-atom goes on there. -/
def Apart (s : FText) : Prop := ∀ c, s.head? = some (some c) → isDotAtomText c = false

/-- The words of a display name or the name of a group. -/
inductive Phrase : FText → Prop
  | done : Phrase []
  | word (w b s : FText) (hw : Word w) (hb : Blank 0 b) (happ : AtomText w → Apart (b ++ s)) (h : Phrase s) :
    Phrase (w ++ (b ++ s))

/-- A text on one line: each new line counts for a blank, with the white space that it begins with. -/
def unfoldFrom (ws : Bool) : FText → Text
  | [] => []
  | none :: s => ' ' :: unfoldFrom true s
  | some c :: s => if ws && isWsp c then unfoldFrom true s else c :: unfoldFrom false s

def unfolded (s : FText) : Text := unfoldFrom false s

/-! ## Addresses -/

/-- An address in a list: what is in front of its local part, the local part, the domain if it has one, and all that is
    behind the local part. -/
structure Mailbox where
  front : FText
  loc : FText
  dom : Option FText
  back : FText
  deriving DecidableEq

namespace Mailbox

/-- What is in front of an address, in angle brackets or not. -/
def Opens (angle : Bool) (s : FText) : Prop :=
  if angle then ∃ b p b', s = b ++ (p ++ some '<' :: b') ∧ Blank 0 b ∧ Phrase p ∧ Blank 0 b' else Blank 0 s

/-- What is behind it. -/
def Closes (angle : Bool) (s : FText) : Prop :=
  if angle then ∃ b b', s = b ++ some '>' :: b' ∧ Blank 0 b ∧ Blank 0 b' else Blank 0 s

/-- The domain behind a local part, and what is behind the address. -/
def Follows (dom : Option FText) (s x : FText) : Prop :=
  match dom with
  | none => s = x
  | some d => ∃ b b', s = b ++ some '@' :: (b' ++ (d ++ x)) ∧ Blank 0 b ∧ Blank 0 b' ∧ DomainWord d

/-- The grammar of an address in a list. -/
def Valid (m : Mailbox) : Prop :=
  Word m.loc ∧ ∃ angle x, Opens angle m.front ∧ Follows m.dom m.back x ∧ Closes angle x

def text (m : Mailbox) : FText := m.front ++ (m.loc ++ m.back)

/-- The address itself; without a domain it is one of `domain`. -/
def address (domain : Text) (m : Mailbox) : Text :=
  unfolded m.loc ++ '@' :: match m.dom with
    | some d => unfolded d
    | none => domain

/-- The address with a domain. -/
def corrected (domain : Text) (m : Mailbox) : Mailbox :=
  match m.dom with
  | some _ => m
  | none => { m with dom := some (onLine domain), back := some '@' :: (onLine domain ++ m.back) }

end Mailbox

/-- The addresses of a list, with commas between them. -/
def listText (ms : List Mailbox) : FText :=
  match ms with
  | [] => []
  | [m] => m.text
  | m :: m' :: ms => m.text ++ some ',' :: listText (m' :: ms)

/-- A header with recipients: what is in front of the list, the addresses in it, and what is behind it. -/
structure Recipients where
  before : FText
  mailboxes : List Mailbox
  after : FText

namespace Recipients

/-- The list stands alone or in a group. -/
inductive Around : FText → FText → Prop
  | list : Around [] []
  | group (b p b' : FText) (hb : Blank 0 b) (hp : Phrase p) (hne : p ≠ []) (hb' : Blank 0 b') :
    Around (b ++ (p ++ [some ':'])) (some ';' :: b')

structure Valid (r : Recipients) : Prop where
  around : Around r.before r.after
  ne_nil : r.mailboxes ≠ []
  mailboxes : ∀ m ∈ r.mailboxes, m.Valid

def text (r : Recipients) : FText := r.before ++ (listText r.mailboxes ++ r.after)

/-- Each address without a domain gets one. -/
def corrected (domain : Text) (r : Recipients) : Recipients :=
  { r with mailboxes := r.mailboxes.map (Mailbox.corrected domain) }

/-- The local parts that have no domain are on one line each. -/
def Unfolded (r : Recipients) : Prop := ∀ m ∈ r.mailboxes, m.dom = none → none ∉ m.loc

end Recipients

/-! ## Corrected addresses -/

theorem unfoldFrom_onLine (t : Text) : unfoldFrom false (onLine t) = t := by
  induction t with
  | nil => rfl
  | cons c t ih => exact congrArg (c :: ·) ih

theorem HostName.atom (h : HostName domain) : AtomText (onLine domain) := ⟨domain, h.1, h.2.1, rfl⟩

/-- **An address that got a domain** is an address. -/
theorem Mailbox.Valid.corrected {m : Mailbox} (h : m.Valid) (hdomain : HostName domain) : (m.corrected domain).Valid := by
  unfold Mailbox.corrected
  split
  · exact h
  · rename_i hnone
    obtain ⟨hw, angle, x, hopens, hfollows, hcloses⟩ := h
    rw [hnone] at hfollows
    refine ⟨hw, angle, x, hopens, ⟨[], [], ?_, .done, .done, .inl hdomain.atom⟩, hcloses⟩
    rw [show m.back = x from hfollows]
    rfl

theorem Mailbox.address_corrected (m : Mailbox) : (m.corrected domain).address domain = m.address domain := by
  unfold Mailbox.corrected
  split
  · rfl
  · rename_i hnone
    unfold Mailbox.address
    rw [hnone]
    dsimp only
    rw [unfolded, unfolded, unfoldFrom_onLine]

theorem Mailbox.dom_corrected (domain : Text) (m : Mailbox) : (m.corrected domain).dom ≠ none := by
  unfold Mailbox.corrected
  split
  · rename_i hsome
    rw [hsome]
    exact fun h => by cases h
  · exact fun h => by cases h

theorem Mailbox.corrected_corrected (m : Mailbox) : (m.corrected domain).corrected domain = m.corrected domain := by
  have hdom := m.dom_corrected domain
  generalize m.corrected domain = m' at hdom ⊢
  unfold Mailbox.corrected
  split
  · rfl
  · rename_i hnone
    exact absurd hnone hdom

theorem Recipients.Valid.corrected {r : Recipients} (h : r.Valid) (hdomain : HostName domain) :
    (r.corrected domain).Valid where
  around := h.around
  ne_nil := by
    intro hnil
    exact h.ne_nil (List.map_eq_nil_iff.mp hnil)
  mailboxes := by
    intro m hm
    obtain ⟨m', hm', rfl⟩ := List.mem_map.mp hm
    exact (h.mailboxes m' hm').corrected hdomain

theorem Recipients.unfolded_corrected (r : Recipients) : (r.corrected domain).Unfolded := by
  intro m hm hnone
  obtain ⟨m', -, rfl⟩ := List.mem_map.mp hm
  exact absurd hnone (m'.dom_corrected domain)

theorem Recipients.corrected_corrected (r : Recipients) : (r.corrected domain).corrected domain = r.corrected domain := by
  unfold Recipients.corrected
  congr 1
  rw [List.map_map]
  exact List.map_congr_left fun m _ => m.corrected_corrected

theorem Recipients.addresses_corrected (r : Recipients) :
    (r.corrected domain).mailboxes.map (Mailbox.address domain) = r.mailboxes.map (Mailbox.address domain) := by
  unfold Recipients.corrected
  rw [List.map_map]
  exact List.map_congr_left fun m _ => m.address_corrected

end Simta
