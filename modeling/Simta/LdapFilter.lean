import Simta.Ldap
import Simta.Address

/-!
# Names in search filters

`simta_ldap_string` of `simta_ldap.c`: the filter of an LDAP search is made from a template, in a static buffer that
grows, with the name and the domain of an address in the places that the template has for them.

* `simtaLdapString`, `ldapRun` — the function with its buffer, and what earlier calls leave of that;
* `FilterPart`, `filterParts`, `partsText` — a template, and what is written for it;
* `readFilter`, `readTemplate`, `FilterUnaltered` — which characters of a filter mean something, and what a template
  is for;
* `ldapString_writes` — every write is inside the buffer, and the result is the text of the template;
* `filterUnaltered_iff`, `ldapString_unaltered_iff` — exactly when an address cannot alter the filter.
-/

set_option autoImplicit false

namespace Simta

/-! ## The function -/

/-- The static variables: how much is allocated at `buf`, nothing when it is `NULL`, and `buf_len`. -/
structure LdapBuf where
  size : Nat
  bufLen : Nat
  deriving DecidableEq, Repr

/-- The variables before the first call. -/
def LdapBuf.initial : LdapBuf := ⟨0, 0⟩

/-- How a call ends early: it returns `NULL`, or it has written outside of the buffer. -/
inductive LdapStop
  | null (buf : LdapBuf)
  | overrun
  deriving DecidableEq, Repr

/-- The locals: `out` is what stands between `buf` and `d`. -/
structure LdapWrite where
  buf : LdapBuf
  len : Nat
  out : Text
  deriving DecidableEq, Repr

/-- The `realloc` to `len` bytes, unless the buffer is as large; `realloc` tells for each size whether it is got. -/
def LdapBuf.fit (realloc : Nat → Bool) (len : Nat) (buf : LdapBuf) : Except LdapStop LdapBuf :=
  if buf.bufLen < len then
    if realloc len then .ok ⟨len, len⟩ else .error (.null ⟨0, buf.bufLen⟩)
  else .ok buf

/-- Make room for an insertion. -/
def LdapWrite.reserve (realloc : Nat → Bool) (n : Nat) (s : LdapWrite) : Except LdapStop LdapWrite := do
  return { s with len := s.len + n, buf := ← s.buf.fit realloc (s.len + n) }

/-- `*d = c` and `d++`. -/
def LdapWrite.put (c : Char) (s : LdapWrite) : Except LdapStop LdapWrite :=
  if s.out.length < s.buf.size then .ok { s with out := s.out ++ [c] } else .error .overrun

/-- Insert the user. -/
def insertUser : Text → LdapWrite → Except LdapStop LdapWrite
  | [], s => .ok s
  | c :: rest, s =>
    if c = '.' ∨ c = '_' then do insertUser rest (← s.put ' ')
    else if c = '(' ∨ c = ')' ∨ c = '*' then do insertUser rest (← (← s.put '\\').put c)
    else do insertUser rest (← s.put c)

/-- Insert the domain. -/
def insertDomain : Text → LdapWrite → Except LdapStop LdapWrite
  | [], s => .ok s
  | c :: rest, s => do insertDomain rest (← s.put c)

/-- The walk through the filter. -/
def ldapStringLoop (realloc : Nat → Bool) (user domain : Text) : Text → LdapWrite → Except LdapStop LdapWrite
  | [], s => .ok s
  | '%' :: 's' :: rest, s => do
    ldapStringLoop realloc user domain rest (← insertUser user (← s.reserve realloc (2 * user.length)))
  | '%' :: 'h' :: rest, s => do
    ldapStringLoop realloc user domain rest (← insertDomain domain (← s.reserve realloc domain.length))
  | '%' :: '%' :: rest, s => do ldapStringLoop realloc user domain rest (← s.put '%')
  | '%' :: rest, s => ldapStringLoop realloc user domain rest s
  | c :: rest, s => do ldapStringLoop realloc user domain rest (← s.put c)

/-- What a call is given. -/
structure LdapQuery where
  filter : Text
  user : Text
  domain : Text
  deriving DecidableEq, Repr

/-- `simta_ldap_string`: the static variables and the string. -/
def simtaLdapString (realloc : Nat → Bool) (buf : LdapBuf) (q : LdapQuery) : Except LdapStop (LdapBuf × Text) := do
  let len := q.filter.length + 1
  let s ← ldapStringLoop realloc q.user q.domain q.filter ⟨← buf.fit realloc len, len, []⟩
  -- the terminating NUL
  let _ ← s.put '\x00'
  return (s.buf, s.out)

/-- The static variables after a call that got its memory. -/
def ldapNext (buf : LdapBuf) (q : LdapQuery) : LdapBuf :=
  match simtaLdapString (fun _ => true) buf q with
  | .ok r => r.1
  | .error _ => buf

/-- The static variables after calls that got their memory. -/
def ldapRun (calls : List LdapQuery) (buf : LdapBuf) : LdapBuf := calls.foldl ldapNext buf

/-! ## Templates -/

/-- A character of a template, or one of its places. -/
inductive FilterPart
  | raw (c : Char)
  | user
  | domain
  deriving DecidableEq, Repr

/-- The parts of a template. -/
def filterParts : Text → List FilterPart
  | [] => []
  | '%' :: 's' :: rest => .user :: filterParts rest
  | '%' :: 'h' :: rest => .domain :: filterParts rest
  | '%' :: '%' :: rest => .raw '%' :: filterParts rest
  | '%' :: rest => filterParts rest
  | c :: rest => .raw c :: filterParts rest

/-- What is written for a character of the user. -/
def userCell (c : Char) : Text :=
  if c = '.' ∨ c = '_' then [' '] else if c = '(' ∨ c = ')' ∨ c = '*' then ['\\', c] else [c]

/-- What is written for the user. -/
def userText (user : Text) : Text := user.flatMap userCell

/-- What is written for a part. -/
def partText (u d : Text) : FilterPart → Text
  | .raw c => [c]
  | .user => u
  | .domain => d

/-- What is written for a template. -/
def partsText (u d : Text) (parts : List FilterPart) : Text := parts.flatMap (partText u d)

/-! ## Every write is inside -/

/-- The buffer is as large as `buf_len` says. -/
def LdapBuf.Sound (buf : LdapBuf) : Prop := buf.bufLen ≤ buf.size

/-- There is room for `n` characters and the NUL. -/
structure LdapWrite.Room (n : Nat) (s : LdapWrite) : Prop where
  room : s.out.length + n + 1 ≤ s.len
  len : s.len ≤ s.buf.bufLen
  sound : s.buf.Sound

/-- A step ends in a state with `Q`, or returns `NULL` because there is no memory. -/
def WriteEnds {α : Type} (realloc : Nat → Bool) (Q : α → Prop) : Except LdapStop α → Prop
  | .ok a => Q a
  | .error (.null _) => ∃ n, realloc n = false
  | .error .overrun => False

theorem WriteEnds.bind {α β : Type} {realloc : Nat → Bool} {Q : α → Prop} {R : β → Prop} {r : Except LdapStop α}
    {f : α → Except LdapStop β} (h : WriteEnds realloc Q r) (hf : ∀ a, Q a → WriteEnds realloc R (f a)) :
    WriteEnds realloc R (r >>= f) := by
  cases r with
  | ok a => exact hf a h
  | error stop =>
    cases stop with
    | null buf => exact h
    | overrun => exact h.elim

theorem WriteEnds.mono {α : Type} {realloc : Nat → Bool} {Q R : α → Prop} {r : Except LdapStop α}
    (h : WriteEnds realloc Q r) (hQR : ∀ a, Q a → R a) : WriteEnds realloc R r := by
  cases r with
  | ok a => exact hQR a h
  | error stop => cases stop <;> exact h

theorem LdapBuf.fit_ends {realloc : Nat → Bool} {buf : LdapBuf} (h : buf.Sound) (len : Nat) :
    WriteEnds realloc (fun buf' => len ≤ buf'.bufLen ∧ buf'.Sound) (buf.fit realloc len) := by
  unfold LdapBuf.fit
  by_cases hlt : buf.bufLen < len
  · rw [if_pos hlt]
    by_cases hgot : realloc len = true
    · rw [if_pos hgot]
      exact ⟨le_refl _, le_refl _⟩
    · rw [if_neg hgot]
      exact ⟨len, Bool.eq_false_iff.mpr hgot⟩
  · rw [if_neg hlt]
    exact ⟨not_lt.mp hlt, h⟩

/-- What a step has written, and the room that is left. -/
def LdapWrote (s : LdapWrite) (t : Text) (n : Nat) (s' : LdapWrite) : Prop := s'.out = s.out ++ t ∧ s'.Room n

theorem LdapWrite.put_ends {realloc : Nat → Bool} {s : LdapWrite} {n : Nat} (h : s.Room (n + 1)) (c : Char) :
    WriteEnds realloc (LdapWrote s [c] n) (s.put c) := by
  have hroom := h.room
  have hlen := h.len
  have hsound : s.buf.bufLen ≤ s.buf.size := h.sound
  unfold LdapWrite.put
  rw [if_pos (by omega)]
  refine ⟨rfl, ⟨?_, hlen, h.sound⟩⟩
  show (s.out ++ [c]).length + n + 1 ≤ s.len
  rw [List.length_append, List.length_singleton]
  omega

theorem LdapWrite.reserve_ends {realloc : Nat → Bool} {s : LdapWrite} {n : Nat} (h : s.Room n) (k : Nat) :
    WriteEnds realloc (LdapWrote s [] (n + k)) (s.reserve realloc k) := by
  apply (LdapBuf.fit_ends h.sound (s.len + k)).bind
  rintro buf ⟨hlen, hsound⟩
  refine ⟨(List.append_nil _).symm, ⟨?_, hlen, hsound⟩⟩
  have := h.room
  show s.out.length + (n + k) + 1 ≤ s.len + k
  omega

theorem LdapWrote.trans {s u v : LdapWrite} {t t' : Text} {m n : Nat} (h : LdapWrote s t m u) (h' : LdapWrote u t' n v) :
    LdapWrote s (t ++ t') n v := ⟨by rw [h'.1, h.1, List.append_assoc], h'.2⟩

theorem LdapWrite.Room.le {s : LdapWrite} {m n : Nat} (h : s.Room m) (hle : n ≤ m) : s.Room n :=
  ⟨by have := h.room; omega, h.len, h.sound⟩

theorem insertDomain_ends {realloc : Nat → Bool} {n : Nat} (domain : Text) {s : LdapWrite}
    (h : s.Room (n + domain.length)) : WriteEnds realloc (LdapWrote s domain n) (insertDomain domain s) := by
  induction domain generalizing s with
  | nil => exact ⟨(List.append_nil _).symm, h⟩
  | cons c rest ih =>
    apply (LdapWrite.put_ends (n := n + rest.length) h c).bind
    intro u hu
    exact (ih hu.2).mono (fun v hv => hu.trans hv)

theorem insertUser_ends {realloc : Nat → Bool} {n : Nat} (user : Text) {s : LdapWrite}
    (h : s.Room (n + 2 * user.length)) : WriteEnds realloc (LdapWrote s (userText user) n) (insertUser user s) := by
  induction user generalizing s with
  | nil => exact ⟨(List.append_nil _).symm, h⟩
  | cons c rest ih =>
    have htext : userText (c :: rest) = userCell c ++ userText rest := List.flatMap_cons
    have hroom : s.Room (n + 2 * rest.length + 1 + 1) := h.le (by simp only [List.length_cons]; omega)
    unfold insertUser
    rw [htext, userCell]
    by_cases hdot : c = '.' ∨ c = '_'
    · rw [if_pos hdot, if_pos hdot]
      apply (LdapWrite.put_ends hroom ' ').bind
      intro u hu
      exact (ih (hu.2.le (Nat.le_succ _))).mono (fun v hv => hu.trans hv)
    · rw [if_neg hdot, if_neg hdot]
      by_cases hspecial : c = '(' ∨ c = ')' ∨ c = '*'
      · rw [if_pos hspecial, if_pos hspecial]
        have hput : WriteEnds realloc (LdapWrote s ['\\', c] (n + 2 * rest.length)) (s.put '\\' >>= fun u => u.put c) := by
          apply (LdapWrite.put_ends hroom '\\').bind
          intro u hu
          exact (LdapWrite.put_ends hu.2 c).mono (fun v hv => hu.trans hv)
        have hbind : (do insertUser rest (← (← s.put '\\').put c)) =
            (s.put '\\' >>= fun u => u.put c) >>= insertUser rest := by
          cases s.put '\\' <;> rfl
        rw [hbind]
        apply hput.bind
        intro u hu
        exact (ih hu.2).mono (fun v hv => hu.trans hv)
      · rw [if_neg hspecial, if_neg hspecial]
        apply (LdapWrite.put_ends hroom c).bind
        intro u hu
        exact (ih (hu.2.le (Nat.le_succ _))).mono (fun v hv => hu.trans hv)

theorem partsText_cons (u d : Text) (p : FilterPart) (parts : List FilterPart) :
    partsText u d (p :: parts) = partText u d p ++ partsText u d parts := List.flatMap_cons

theorem ldapStringLoop_ends (realloc : Nat → Bool) (user domain filter : Text) (s : LdapWrite)
    (h : s.Room filter.length) :
    WriteEnds realloc (LdapWrote s (partsText (userText user) domain (filterParts filter)) 0)
      (ldapStringLoop realloc user domain filter s) := by
  fun_induction filterParts filter generalizing s with
  | case1 => exact ⟨(List.append_nil _).symm, h⟩
  | case2 rest ih =>
    rw [partsText_cons]
    apply (LdapWrite.reserve_ends (h.le (Nat.le_add_right rest.length 2)) (2 * user.length)).bind
    intro u hu
    apply (insertUser_ends user hu.2).bind
    intro v hv
    exact (ih v hv.2).mono (fun w hw => hu.trans (hv.trans hw))
  | case3 rest ih =>
    rw [partsText_cons]
    apply (LdapWrite.reserve_ends (h.le (Nat.le_add_right rest.length 2)) domain.length).bind
    intro u hu
    apply (insertDomain_ends domain hu.2).bind
    intro v hv
    exact (ih v hv.2).mono (fun w hw => hu.trans (hv.trans hw))
  | case4 rest ih =>
    rw [partsText_cons]
    apply (LdapWrite.put_ends (n := rest.length) (h.le (by simp)) '%').bind
    intro u hu
    exact (ih u hu.2).mono (fun w hw => hu.trans hw)
  | case5 rest hs hh hp ih =>
    rw [ldapStringLoop]
    · exact ih s (h.le (Nat.le_succ _))
    · exact hs
    · exact hh
    · exact hp
  | case6 c rest hs hh hp hc ih =>
    rw [partsText_cons, ldapStringLoop]
    · apply (LdapWrite.put_ends h c).bind
      intro u hu
      exact (ih u hu.2).mono (fun w hw => hu.trans hw)
    · exact hs
    · exact hh
    · exact hp
    · exact hc

/-- **Every write is inside the buffer,** its NUL too: with a buffer as large as `buf_len` says, the string is the text
    of the template and the buffer stays as large, or there was no memory and `NULL` is returned. -/
theorem simtaLdapString_ends (realloc : Nat → Bool) {buf : LdapBuf} (h : buf.Sound) (q : LdapQuery) :
    WriteEnds realloc
      (fun r => r.1.Sound ∧ r.2 = partsText (userText q.user) q.domain (filterParts q.filter))
      (simtaLdapString realloc buf q) := by
  apply (LdapBuf.fit_ends h (q.filter.length + 1)).bind
  rintro b ⟨hlen, hsound⟩
  apply (ldapStringLoop_ends realloc q.user q.domain q.filter ⟨b, q.filter.length + 1, []⟩
    ⟨by simp, hlen, hsound⟩).bind
  rintro s ⟨hout, hroom⟩
  have hlt : s.out.length < s.buf.size := by
    have hr := hroom.room
    have hl := hroom.len
    have hb : s.buf.bufLen ≤ s.buf.size := hroom.sound
    omega
  have hput : s.put '\x00' = .ok { s with out := s.out ++ ['\x00'] } := if_pos hlt
  rw [hput]
  exact ⟨hroom.sound, hout⟩

theorem ldapRun_sound (calls : List LdapQuery) {buf : LdapBuf} (h : buf.Sound) : (ldapRun calls buf).Sound := by
  induction calls generalizing buf with
  | nil => exact h
  | cons q calls ih =>
    apply ih
    have hends := simtaLdapString_ends (fun _ => true) h q
    unfold ldapNext
    revert hends
    cases simtaLdapString (fun _ => true) buf q with
    | ok r => exact fun hr => hr.1
    | error stop => exact fun _ => h

/-! ## What a filter says -/

/-- What a character of a filter does. -/
inductive FilterRole
  | special
  | escape
  | stray
  | plain
  deriving DecidableEq, Repr

/-- `(`, `)` and `*`, which mean something when they are not escaped. -/
def isFilterSpecial (c : Char) : Bool := c = '(' || c = ')' || c = '*'

/-- What a character does that no backslash stands in front of; a backslash with nothing behind it escapes nothing. -/
def loneRole (c : Char) : FilterRole := if c = '\\' then .stray else if isFilterSpecial c then .special else .plain

/-- The characters of a filter with what they do: a backslash escapes the character behind it. -/
def readFilter : Text → List (FilterRole × Char)
  | [] => []
  | '\\' :: c :: rest => (.escape, '\\') :: (.plain, c) :: readFilter rest
  | c :: rest => (loneRole c, c) :: readFilter rest

/-- The characters of a template with what they do, and `u` and `d` in its places. -/
def readTemplate (u d : List (FilterRole × Char)) : List FilterPart → List (FilterRole × Char)
  | [] => []
  | .raw '\\' :: .raw c :: rest => (.escape, '\\') :: (.plain, c) :: readTemplate u d rest
  | .raw c :: rest => (loneRole c, c) :: readTemplate u d rest
  | .user :: rest => u ++ readTemplate u d rest
  | .domain :: rest => d ++ readTemplate u d rest

/-- A text that means nothing in a filter and reads back as a name. -/
structure Encodes (name t : Text) : Prop where
  quiet : ∀ r ∈ readFilter t, r.1 = .escape ∨ r.1 = .plain
  name : ((readFilter t).filter (·.1 = .plain)).map (·.2) = name

/-- What the template is for: its own characters do in the result what they do in it, and in its places stands what reads
    back as the name, with blanks for `.` and `_`, and as the domain. -/
def FilterUnaltered (q : LdapQuery) (result : Text) : Prop :=
  ∃ u d, readFilter result = readTemplate (readFilter u) (readFilter d) (filterParts q.filter) ∧
    (.user ∈ filterParts q.filter → Encodes (undotted q.user) u) ∧
    (.domain ∈ filterParts q.filter → Encodes q.domain d)

theorem length_readFilter (t : Text) : (readFilter t).length = t.length := by
  fun_induction readFilter t with
  | case1 => rfl
  | case2 c rest ih => simp [ih]
  | case3 c rest h ih => simp [ih]

theorem length_readTemplate (u d : Text) (parts : List FilterPart) :
    (readTemplate (readFilter u) (readFilter d) parts).length = (partsText u d parts).length := by
  fun_induction readTemplate (readFilter u) (readFilter d) parts with
  | case1 => rfl
  | case2 c rest ih => simp [ih, partsText_cons, partText]
  | case3 c rest h ih => simp [ih, partsText_cons, partText]
  | case4 rest ih => simp [ih, partsText_cons, partText, length_readFilter]
  | case5 rest ih => simp [ih, partsText_cons, partText, length_readFilter]

/-- A text that means nothing in a filter. -/
def Quiet (t : Text) : Prop := ∀ r ∈ readFilter t, r.1 = .escape ∨ r.1 = .plain

theorem readFilter_append {a : Text} (h : Quiet a) (b : Text) : readFilter (a ++ b) = readFilter a ++ readFilter b := by
  unfold Quiet at h
  fun_induction readFilter a with
  | case1 => rfl
  | case2 c rest ih =>
    have hrest := ih (fun r hr => h r (List.mem_cons_of_mem _ (List.mem_cons_of_mem _ hr)))
    show readFilter ('\\' :: c :: (rest ++ b)) = _
    rw [readFilter, hrest]
    rfl
  | case3 c rest hpair ih =>
    have hrest := ih (fun r hr => h r (List.mem_cons_of_mem _ hr))
    have hc : c ≠ '\\' := by
      rintro rfl
      have hrole := h (loneRole '\\', '\\') List.mem_cons_self
      revert hrole
      decide
    show readFilter (c :: (rest ++ b)) = _
    rw [readFilter, hrest]
    · rfl
    · rintro d t rfl
      exact absurd rfl hc

/-! ## Escaped names -/

/-- A character with the escape it needs. -/
def encodeCell (c : Char) : Text := if c = '\\' ∨ isFilterSpecial c = true then ['\\', c] else [c]

/-- A name with the escapes it needs. -/
def encodeText (name : Text) : Text := name.flatMap encodeCell

theorem encodes_encodeText (name : Text) : Encodes name (encodeText name) := by
  induction name with
  | nil => exact ⟨fun r hr => absurd hr List.not_mem_nil, rfl⟩
  | cons c rest ih =>
    have htext : encodeText (c :: rest) = encodeCell c ++ encodeText rest := List.flatMap_cons
    rw [htext, encodeCell]
    by_cases hc : c = '\\' ∨ isFilterSpecial c = true
    · rw [if_pos hc]
      show Encodes _ ('\\' :: c :: encodeText rest)
      constructor
      · rw [readFilter]
        simpa using ih.quiet
      · rw [readFilter]
        simpa using ih.name
    · rw [if_neg hc]
      have hread : readFilter (c :: encodeText rest) = (.plain, c) :: readFilter (encodeText rest) := by
        rw [readFilter, loneRole, if_neg (fun h => hc (.inl h)), if_neg (fun h => hc (.inr h))]
        rintro d t rfl
        exact absurd rfl (fun h => hc (.inl h))
      show Encodes _ (c :: encodeText rest)
      constructor
      · rw [hread]
        simpa using ih.quiet
      · rw [hread]
        simpa using ih.name

/-- What reads back as a name has at least the escapes it needs. -/
theorem Encodes.length {name t : Text} (h : Encodes name t) :
    (encodeText name).length ≤ t.length ∧ (t.length = (encodeText name).length → t = encodeText name) := by
  obtain ⟨hquiet, hname⟩ := h
  fun_induction readFilter t generalizing name with
  | case1 =>
    subst hname
    exact ⟨le_refl _, fun _ => rfl⟩
  | case2 c rest ih =>
    simp only [List.forall_mem_cons] at hquiet
    obtain ⟨hle, heq⟩ := ih hquiet.2.2 rfl
    rw [show name = c :: ((readFilter rest).filter (·.1 = .plain)).map (·.2) by simpa using hname.symm]
    generalize ((readFilter rest).filter (·.1 = .plain)).map (·.2) = tail at hle heq
    have htext : encodeText (c :: tail) = encodeCell c ++ encodeText tail := List.flatMap_cons
    rw [htext, encodeCell]
    by_cases hc : c = '\\' ∨ isFilterSpecial c = true
    · rw [if_pos hc]
      refine ⟨by simpa using hle, fun hlen => ?_⟩
      rw [heq (by simpa using hlen)]
      rfl
    · rw [if_neg hc]
      refine ⟨by simp only [List.length_append, List.length_cons, List.length_nil]; omega, fun hlen => ?_⟩
      simp only [List.length_append, List.length_cons, List.length_nil] at hlen
      omega
  | case3 c rest hpair ih =>
    simp only [List.forall_mem_cons] at hquiet
    obtain ⟨hle, heq⟩ := ih hquiet.2 rfl
    have hrole : loneRole c = .plain := by
      obtain hesc | hplain := hquiet.1
      · unfold loneRole at hesc
        split at hesc
        · cases hesc
        · split at hesc <;> cases hesc
      · exact hplain
    have hc : ¬ (c = '\\' ∨ isFilterSpecial c = true) := by
      intro hc
      unfold loneRole at hrole
      obtain rfl | hc := hc
      · rw [if_pos rfl] at hrole
        cases hrole
      · split at hrole
        · cases hrole
        · cases hrole
    rw [show name = c :: ((readFilter rest).filter (·.1 = .plain)).map (·.2) by simpa [hrole] using hname.symm]
    generalize ((readFilter rest).filter (·.1 = .plain)).map (·.2) = tail at hle heq
    have htext : encodeText (c :: tail) = encodeCell c ++ encodeText tail := List.flatMap_cons
    rw [htext, encodeCell, if_neg hc]
    refine ⟨by simpa using hle, fun hlen => ?_⟩
    rw [heq (by simpa using hlen)]
    rfl

/-! ## When a filter cannot be altered -/

theorem flatMap_shorter {f g : Char → Text} (h : ∀ c, f c = g c ∨ (f c).length < (g c).length) (t : Text) :
    (t.flatMap f).length ≤ (t.flatMap g).length ∧
      ((t.flatMap f).length = (t.flatMap g).length ↔ ∀ c ∈ t, f c = g c) := by
  induction t with
  | nil => simp
  | cons c t ih =>
    obtain ⟨hle, hiff⟩ := ih
    rw [List.flatMap_cons, List.flatMap_cons, List.length_append, List.length_append, List.forall_mem_cons, ← hiff]
    obtain hc | hc := h c
    · rw [hc]
      exact ⟨by omega, by simp⟩
    · have hne : f c ≠ g c := fun heq => by simp [heq] at hc
      exact ⟨by omega, iff_of_false (by omega) (fun hall => hne hall.1)⟩

/-- A character of a name with a blank for `.` and `_`. -/
def undot (c : Char) : Char := if c = '.' ∨ c = '_' then ' ' else c

theorem encodeText_undotted (user : Text) : encodeText (undotted user) = user.flatMap (encodeCell ∘ undot) := by
  unfold encodeText undotted
  rw [List.flatMap_map]
  rfl

/-- The user is written with the escapes it needs, those of backslashes apart. -/
theorem userCell_cases (c : Char) : (c ≠ '\\' ∧ userCell c = encodeCell (undot c)) ∨
    (c = '\\' ∧ (userCell c).length < (encodeCell (undot c)).length) := by
  by_cases hslash : c = '\\'
  · subst hslash
    exact .inr ⟨rfl, by decide⟩
  · refine .inl ⟨hslash, ?_⟩
    unfold userCell undot encodeCell isFilterSpecial
    by_cases hdot : c = '.' ∨ c = '_'
    · rw [if_pos hdot, if_pos hdot]
      rfl
    · rw [if_neg hdot, if_neg hdot]
      by_cases hspecial : c = '(' ∨ c = ')' ∨ c = '*'
      · rw [if_pos hspecial, if_pos (by simpa [or_assoc] using .inr hspecial)]
      · rw [if_neg hspecial, if_neg (by simpa [or_assoc, hslash] using hspecial)]

theorem userText_shorter (user : Text) : (userText user).length ≤ (encodeText (undotted user)).length ∧
    ((userText user).length = (encodeText (undotted user)).length ↔ '\\' ∉ user) := by
  rw [encodeText_undotted]
  obtain ⟨hle, hiff⟩ := flatMap_shorter (f := userCell) (g := encodeCell ∘ undot)
    (fun c => (userCell_cases c).imp (·.2) (·.2)) user
  refine ⟨hle, hiff.trans ⟨fun h hmem => ?_, fun h c hc => ?_⟩⟩
  · have := h _ hmem
    revert this
    decide
  · exact ((userCell_cases c).resolve_right (fun hslash => h (hslash.1 ▸ hc))).2

theorem userText_eq {user : Text} (h : '\\' ∉ user) : userText user = encodeText (undotted user) := by
  rw [encodeText_undotted]
  apply List.flatMap_congr
  intro c hc
  exact ((userCell_cases c).resolve_right (fun hslash => h (hslash.1 ▸ hc))).2

/-- A character that has to be escaped. -/
def needsEscape (c : Char) : Bool := c = '\\' || isFilterSpecial c

theorem encodeCell_cases (c : Char) : (needsEscape c = false ∧ [c] = encodeCell c) ∨
    (needsEscape c = true ∧ [c].length < (encodeCell c).length) := by
  unfold needsEscape encodeCell
  by_cases h : c = '\\' ∨ isFilterSpecial c = true
  · rw [if_pos h]
    exact .inr ⟨by simpa using h, by simp⟩
  · rw [if_neg h]
    exact .inl ⟨by simpa using h, rfl⟩

theorem domain_shorter (domain : Text) : domain.length ≤ (encodeText domain).length ∧
    (domain.length = (encodeText domain).length ↔ ∀ c ∈ domain, needsEscape c = false) := by
  have hself : domain.flatMap (fun c => [c]) = domain := by simp
  obtain ⟨hle, hiff⟩ := flatMap_shorter (f := fun c => [c]) (g := encodeCell)
    (fun c => (encodeCell_cases c).imp (·.2) (·.2)) domain
  rw [hself] at hle hiff
  refine ⟨hle, hiff.trans (forall₂_congr fun c _ => ?_)⟩
  obtain ⟨hneeds, heq⟩ | ⟨hneeds, hlt⟩ := encodeCell_cases c
  · exact iff_of_true heq hneeds
  · refine iff_of_false (fun heq => by rw [heq] at hlt; exact lt_irrefl _ hlt) (by simp [hneeds])

theorem encodeText_eq {domain : Text} (h : ∀ c ∈ domain, needsEscape c = false) : encodeText domain = domain := by
  have hself : domain.flatMap (fun c => [c]) = domain := by simp
  conv_rhs => rw [← hself]
  apply List.flatMap_congr
  intro c hc
  obtain ⟨-, heq⟩ | ⟨hneeds, -⟩ := encodeCell_cases c
  · exact heq.symm
  · rw [h c hc] at hneeds
    cases hneeds

/-- No backslash of the template that escapes nothing has something behind it in the result. -/
def NoStray (u d : Text) : List FilterPart → Prop
  | [] => True
  | .raw '\\' :: .raw _ :: rest => NoStray u d rest
  | .raw c :: rest => if c = '\\' then partsText u d rest = [] else NoStray u d rest
  | .user :: rest => NoStray u d rest
  | .domain :: rest => NoStray u d rest

theorem readTemplate_congr {u u' d d' : List (FilterRole × Char)} {parts : List FilterPart}
    (hu : .user ∈ parts → u = u') (hd : .domain ∈ parts → d = d') :
    readTemplate u d parts = readTemplate u' d' parts := by
  fun_induction readTemplate u d parts with
  | case1 => rfl
  | case2 c rest ih => rw [readTemplate, ih (fun h => hu (by simp [h])) (fun h => hd (by simp [h]))]
  | case3 c rest hraw ih =>
    rw [readTemplate, ih (fun h => hu (by simp [h])) (fun h => hd (by simp [h]))]
    exact hraw
  | case4 rest ih =>
    rw [readTemplate, ih (fun h => hu (by simp [h])) (fun h => hd (by simp [h])), hu List.mem_cons_self]
  | case5 rest ih =>
    rw [readTemplate, ih (fun h => hu (by simp [h])) (fun h => hd (by simp [h])), hd List.mem_cons_self]

theorem readFilter_parts_iff {u d : Text} {parts : List FilterPart} (hu : .user ∈ parts → Quiet u)
    (hd : .domain ∈ parts → Quiet d) :
    readFilter (partsText u d parts) = readTemplate (readFilter u) (readFilter d) parts ↔ NoStray u d parts := by
  fun_induction NoStray u d parts with
  | case1 => exact iff_of_true rfl trivial
  | case2 c rest ih =>
    rw [← ih (fun h => hu (by simp [h])) (fun h => hd (by simp [h]))]
    show readFilter ('\\' :: c :: partsText u d rest) = _ ↔ _
    rw [readFilter, readTemplate, List.cons_inj_right, List.cons_inj_right]
  | case3 rest hraw =>
    rw [readTemplate]
    · show readFilter ('\\' :: partsText u d rest) = _ ↔ _
      have hlen := length_readTemplate u d rest
      cases htext : partsText u d rest with
      | nil =>
        rw [htext] at hlen
        rw [List.length_eq_zero_iff.mp hlen]
        exact iff_of_true rfl rfl
      | cons c t =>
        refine iff_of_false ?_ (List.cons_ne_nil c t)
        rw [readFilter]
        intro heq
        have hrole := congrArg Prod.fst (List.cons.inj heq).1
        revert hrole
        decide
    · exact hraw
  | case4 c rest hraw hc ih =>
    rw [readTemplate]
    · rw [← ih (fun h => hu (by simp [h])) (fun h => hd (by simp [h]))]
      show readFilter (c :: partsText u d rest) = _ ↔ _
      rw [readFilter, List.cons_inj_right]
      rintro e t rfl
      exact absurd rfl hc
    · exact hraw
  | case5 rest ih =>
    rw [readTemplate, partsText_cons, partText, readFilter_append (hu List.mem_cons_self),
      List.append_cancel_left_eq, ih (fun h => hu (by simp [h])) (fun h => hd (by simp [h]))]
  | case6 rest ih =>
    rw [readTemplate, partsText_cons, partText, readFilter_append (hd List.mem_cons_self),
      List.append_cancel_left_eq, ih (fun h => hu (by simp [h])) (fun h => hd (by simp [h]))]

theorem partsText_length_le {a b u d : Text} {parts : List FilterPart} (hu : .user ∈ parts → a.length ≤ u.length)
    (hd : .domain ∈ parts → b.length ≤ d.length) : (partsText a b parts).length ≤ (partsText u d parts).length := by
  induction parts with
  | nil => exact le_refl _
  | cons p parts ih =>
    have ih := ih (fun h => hu (List.mem_cons_of_mem _ h)) (fun h => hd (List.mem_cons_of_mem _ h))
    have hp : (partText a b p).length ≤ (partText u d p).length := by
      cases p with
      | raw c => exact le_refl _
      | user => exact hu List.mem_cons_self
      | domain => exact hd List.mem_cons_self
    rw [partsText_cons, partsText_cons, List.length_append, List.length_append]
    omega

theorem partsText_length_eq {a b u d : Text} {parts : List FilterPart} (hu : .user ∈ parts → a.length ≤ u.length)
    (hd : .domain ∈ parts → b.length ≤ d.length) (h : (partsText a b parts).length = (partsText u d parts).length) :
    (.user ∈ parts → a.length = u.length) ∧ (.domain ∈ parts → b.length = d.length) := by
  induction parts with
  | nil => exact ⟨fun hm => absurd hm List.not_mem_nil, fun hm => absurd hm List.not_mem_nil⟩
  | cons p parts ih =>
    have hu' : .user ∈ parts → a.length ≤ u.length := fun hm => hu (List.mem_cons_of_mem _ hm)
    have hd' : .domain ∈ parts → b.length ≤ d.length := fun hm => hd (List.mem_cons_of_mem _ hm)
    have hrest := partsText_length_le hu' hd'
    rw [partsText_cons, partsText_cons, List.length_append, List.length_append] at h
    cases p with
    | raw c =>
      obtain ⟨hu'', hd''⟩ := ih hu' hd' (by simpa [partText] using h)
      exact ⟨fun hm => hu'' (by simpa using hm), fun hm => hd'' (by simpa using hm)⟩
    | user =>
      have hle := hu List.mem_cons_self
      simp only [partText] at h
      obtain ⟨-, hd''⟩ := ih hu' hd' (by omega)
      exact ⟨fun _ => by omega, fun hm => hd'' (by simpa using hm)⟩
    | domain =>
      have hle := hd List.mem_cons_self
      simp only [partText] at h
      obtain ⟨hu'', -⟩ := ih hu' hd' (by omega)
      exact ⟨fun hm => hu'' (by simpa using hm), fun _ => by omega⟩

/-- The address cannot alter the filter: no backslash in a user that is inserted, nothing that means something in a
    domain that is inserted, and no backslash of the template in front of what is inserted. -/
structure LdapClean (q : LdapQuery) : Prop where
  user : .user ∈ filterParts q.filter → '\\' ∉ q.user
  domain : .domain ∈ filterParts q.filter → ∀ c ∈ q.domain, needsEscape c = false
  stray : NoStray (userText q.user) q.domain (filterParts q.filter)

theorem filterUnaltered_iff (q : LdapQuery) :
    FilterUnaltered q (partsText (userText q.user) q.domain (filterParts q.filter)) ↔ LdapClean q := by
  obtain ⟨huser, huser_iff⟩ := userText_shorter q.user
  obtain ⟨hdomain, hdomain_iff⟩ := domain_shorter q.domain
  -- with what is inserted read back, the text is that of the template when no backslash is stray
  have hquiet : (.user ∈ filterParts q.filter → '\\' ∉ q.user) →
      (.domain ∈ filterParts q.filter → ∀ c ∈ q.domain, needsEscape c = false) →
      (.user ∈ filterParts q.filter → Encodes (undotted q.user) (userText q.user)) ∧
        (.domain ∈ filterParts q.filter → Encodes q.domain q.domain) := by
    intro hu hd
    constructor
    · intro hmem
      rw [userText_eq (hu hmem)]
      exact encodes_encodeText _
    · intro hmem
      have := encodes_encodeText q.domain
      rwa [encodeText_eq (hd hmem)] at this
  constructor
  · rintro ⟨u, d, hread, hu, hd⟩
    have hlen := congrArg List.length hread
    rw [length_readFilter, length_readTemplate] at hlen
    obtain ⟨hu', hd'⟩ := partsText_length_eq (fun hm => huser.trans (hu hm).length.1)
      (fun hm => hdomain.trans (hd hm).length.1) hlen
    have hslash : .user ∈ filterParts q.filter → '\\' ∉ q.user := by
      intro hm
      have := (hu hm).length.1
      have := hu' hm
      exact huser_iff.mp (by omega)
    have hplain : .domain ∈ filterParts q.filter → ∀ c ∈ q.domain, needsEscape c = false := by
      intro hm
      have := (hd hm).length.1
      have := hd' hm
      exact hdomain_iff.mp (by omega)
    refine ⟨hslash, hplain, ?_⟩
    obtain ⟨hue, hde⟩ := hquiet hslash hplain
    rw [← readFilter_parts_iff (fun hm => (hue hm).quiet) (fun hm => (hde hm).quiet), hread]
    -- what was inserted is what reads back as the name, without more escapes than it needs
    apply readTemplate_congr
    · intro hm
      have htext := userText_eq (hslash hm)
      rw [(hu hm).length.2 (by rw [← htext, hu' hm]), htext]
    · intro hm
      have htext := encodeText_eq (hplain hm)
      rw [(hd hm).length.2 (by rw [htext, hd' hm]), htext]
  · rintro ⟨hu, hd, hstray⟩
    obtain ⟨hue, hde⟩ := hquiet hu hd
    exact ⟨userText q.user, q.domain,
      (readFilter_parts_iff (fun hm => (hue hm).quiet) (fun hm => (hde hm).quiet)).mpr hstray, hue, hde⟩

/-- A call does what it should: no write is outside of the buffer, `NULL` is returned for want of memory alone, and the
    filter is the one that the template says. -/
def LdapCallSafe (realloc : Nat → Bool) (buf : LdapBuf) (q : LdapQuery) : Prop :=
  WriteEnds realloc (fun r => FilterUnaltered q r.2) (simtaLdapString realloc buf q)

theorem LdapCallSafe.clean {buf : LdapBuf} {q : LdapQuery} (hbuf : buf.Sound)
    (h : LdapCallSafe (fun _ => true) buf q) : LdapClean q := by
  have hends := simtaLdapString_ends (fun _ => true) hbuf q
  unfold LdapCallSafe at h
  revert h hends
  cases simtaLdapString (fun _ => true) buf q with
  | ok r =>
    rintro h ⟨-, htext⟩
    rw [← filterUnaltered_iff, ← htext]
    exact h
  | error stop =>
    intro _ hends
    cases stop with
    | null buf => exact absurd hends.choose_spec Bool.noConfusion
    | overrun => exact hends.elim

/-- **An address cannot alter a filter** exactly when the call is clean, whatever calls were made before that got their
    memory. -/
theorem ldapString_unaltered_iff (calls : List LdapQuery) (q : LdapQuery) :
    (∀ realloc, LdapCallSafe realloc (ldapRun calls .initial) q) ↔ LdapClean q := by
  have hsound : (ldapRun calls .initial).Sound := ldapRun_sound calls (le_refl _)
  constructor
  · intro h
    exact (h fun _ => true).clean hsound
  · intro h realloc
    apply (simtaLdapString_ends realloc hsound q).mono
    rintro r ⟨-, htext⟩
    rw [htext]
    exact (filterUnaltered_iff q).mpr h

/-- The address `"x\\)"@h.org` is accepted, and the bracket of its name closes the filter. -/
theorem not_ldapString_unaltered :
    parseEmailaddr .rcptTo "<\"x\\\\)\"@h.org>".toList = some ("\"x\\\\)\"@h.org".toList, some "h.org".toList) ∧
      dequoteFrom "x\\\\)\"".toList = some "x\\)".toList ∧
      ¬ LdapCallSafe (fun _ => true) .initial ⟨"(uid=%s)".toList, "x\\)".toList, "h.org".toList⟩ := by
  refine ⟨by decide, by decide, fun h => ?_⟩
  exact (h.clean (le_refl _)).user (by decide) (by decide)

/-- After a `realloc` that failed the next call writes to `NULL`. -/
theorem simtaLdapString_null {realloc : Nat → Bool} {q : LdapQuery} {c : Char} {rest : Text} {len : Nat}
    (hfilter : q.filter = c :: rest) (hc : c ≠ '%') (hlen : q.filter.length + 1 ≤ len) :
    simtaLdapString realloc ⟨0, len⟩ q = .error .overrun := by
  have hfit : LdapBuf.fit realloc (q.filter.length + 1) ⟨0, len⟩ = .ok ⟨0, len⟩ := if_neg (not_lt.mpr hlen)
  have hput : LdapWrite.put c ⟨⟨0, len⟩, q.filter.length + 1, []⟩ = .error .overrun := if_neg (lt_irrefl 0)
  unfold simtaLdapString
  dsimp only
  rw [hfit]
  show (do
    let s ← ldapStringLoop realloc q.user q.domain q.filter ⟨⟨0, len⟩, q.filter.length + 1, []⟩
    let _ ← s.put '\x00'
    return (s.buf, s.out) : Except LdapStop (LdapBuf × Text)) = _
  rw [hfilter] at hput ⊢
  rw [ldapStringLoop, hput]
  · rfl
  · rintro rest' rfl
    exact absurd rfl hc
  · rintro rest' rfl
    exact absurd rfl hc
  · rintro rest' rfl
    exact absurd rfl hc
  · exact hc

end Simta
