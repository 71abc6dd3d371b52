import Mathlib.Data.Char
import Mathlib.Data.List.Lex
import Simta.Lib.CBuffer
import Simta.Lib.KeyList
import Simta.Red

/-!
# Names in the host tables

`simta_red_add_host` for each type of host and `simta_red_lookup_host_2`, with the name as a buffer from which the
trailing dot is taken while the table is searched.

* `RedTables`, `simtaRedAddHost`, `redLookupHost2` — the three tables, an addition and a search;
* `redAddAll` — a sequence of additions, and the names that were added;
* `TableHolds` — what a sequence of additions leaves: the names are those that were added, in order;
* `tableComplete_iff` — exactly when a search finds the names that were added.
-/

set_option autoImplicit false

namespace Simta

/-! ## The tables -/

/-- `simta_red_hosts`, `simta_secondary_mx` and `simta_remote_hosts`. -/
structure RedTables where
  redHosts : List Red
  secondaryMx : List Red
  remoteHosts : List Red
  deriving DecidableEq, Repr

/-- The table of a type of host. -/
def RedTables.table (t : RedTables) : RedHostType → List Red
  | .loc => t.redHosts
  | .secondaryMx => t.secondaryMx
  | .remote => t.remoteHosts

/-- The tables with another one for a type. -/
def RedTables.setTable (t : RedTables) (hosts : List Red) : RedHostType → RedTables
  | .loc => { t with redHosts := hosts }
  | .secondaryMx => { t with secondaryMx := hosts }
  | .remote => { t with remoteHosts := hosts }

/-- No host is known. -/
def RedTables.empty : RedTables := ⟨[], [], []⟩

/-- A new entry, when it and its name are allocated. -/
def redNewHost (alloc : Bool) (hostType : RedHostType) (name : Text) : Option Red :=
  if alloc then some ⟨name, hostType, [], [], .smtpDefault, 0, 0, false⟩ else none

/-- The walk of `simta_red_add_host` down a table, and its insertion there. -/
def redPlaceHost (alloc : Bool) (hostType : RedHostType) (name : Text) : List Red → Option (List Red × Red)
  | [] => (redNewHost alloc hostType name).map fun new => ([new], new)
  | red :: rest =>
    match strcasecmp red.redHostName name with
    | .eq => some (red :: rest, red)
    | .lt => (redNewHost alloc hostType name).map fun new => (new :: red :: rest, new)
    | .gt => (redPlaceHost alloc hostType name rest).map fun r => (red :: r.1, r.2)

/-- `simta_red_add_host`. -/
def simtaRedAddHost (alloc : Bool) (name : Text) (hostType : RedHostType) (t : RedTables) : Option Red × RedTables :=
  if hostType = .secondaryMx ∧ t.secondaryMx ≠ [] then (none, t)
  else
    match redPlaceHost alloc hostType name (t.table hostType) with
    | none => (none, t)
    | some (hosts, red) => (some red, t.setTable hosts hostType)

/-- `simta_red_lookup_host_2`: the entry, and the buffer of the name. -/
def redLookupHost2 (conf : RedConf) (hostName : Text) (hosts : List Red) : Option Red × List (Option Char) :=
  let buf := cells hostName
  let dot := hostName.length - 1
  if conf.domainTrailingDot ∧ hostName[dot]? = some '.' then
    let buf := buf.set dot none
    (redFind (headString buf) hosts, buf.set dot (some '.'))
  else (redFind (headString buf) hosts, buf)

/-- A sequence of additions of hosts of one type, each with what its allocations do: the tables, and the names for which
    an entry was returned. -/
def redAddAll (hostType : RedHostType) : List (Bool × Text) → RedTables → RedTables × List Text
  | [], t => (t, [])
  | (alloc, name) :: calls, t =>
    let r := simtaRedAddHost alloc name hostType t
    let r' := redAddAll hostType calls r.2
    (r'.1, if r.1.isSome then name :: r'.2 else r'.2)

/-! ## Keys -/

/-- What names are compared by. -/
def hostKey (name : Text) : Text := name.map Char.toLower

/-- What the tables are ordered by. -/
def redKey (red : Red) : Text := hostKey red.redHostName

theorem strcasecmp_cases (a b : Text) : (hostKey a = hostKey b ∧ strcasecmp a b = .eq) ∨
    (hostKey a < hostKey b ∧ strcasecmp a b = .lt) ∨ hostKey b < hostKey a ∧ strcasecmp a b = .gt := by
  unfold strcasecmp strcmp hostKey
  obtain h | h | h := lt_trichotomy (a.map Char.toLower) (b.map Char.toLower)
  · exact .inr (.inl ⟨h, by rw [if_neg (ne_of_lt h), if_pos h]⟩)
  · exact .inl ⟨h, if_pos h⟩
  · exact .inr (.inr ⟨h, by rw [if_neg (ne_of_gt h), if_neg (lt_asymm h)]⟩)

/-- The search of the table is that of a list in the order of its keys. -/
theorem redFind_eq_keyFind (name : Text) (hosts : List Red) :
    redFind name hosts = keyFind redKey (hostKey name) hosts := by
  induction hosts with
  | nil => rfl
  | cons red rest ih =>
    unfold redFind keyFind
    obtain ⟨h, hcmp⟩ | ⟨h, hcmp⟩ | ⟨h, hcmp⟩ := strcasecmp_cases name red.redHostName
    · rw [hcmp, if_pos (show hostKey name = redKey red from h)]
    · rw [hcmp, if_neg (show ¬ hostKey name = redKey red from ne_of_lt h),
        if_neg (show ¬ redKey red < hostKey name from lt_asymm h), ← ih]
    · rw [hcmp, if_neg (show ¬ hostKey name = redKey red from ne_of_gt h),
        if_pos (show redKey red < hostKey name from h)]

theorem redPlaceHost_eq_keyPlace (alloc : Bool) (hostType : RedHostType) (name : Text) (hosts : List Red) :
    redPlaceHost alloc hostType name hosts =
      keyPlace redKey (hostKey name) (redNewHost alloc hostType name) hosts := by
  induction hosts with
  | nil => rfl
  | cons red rest ih =>
    unfold redPlaceHost keyPlace
    obtain ⟨h, hcmp⟩ | ⟨h, hcmp⟩ | ⟨h, hcmp⟩ := strcasecmp_cases red.redHostName name
    · rw [hcmp, if_pos (show redKey red = hostKey name from h)]
    · rw [hcmp, if_neg (show ¬ redKey red = hostKey name from ne_of_lt h),
        if_pos (show redKey red < hostKey name from h)]
    · rw [hcmp, if_neg (show ¬ redKey red = hostKey name from ne_of_gt h),
        if_neg (show ¬ redKey red < hostKey name from lt_asymm h), ← ih]

theorem redNewHost_key {alloc : Bool} {hostType : RedHostType} {name : Text} {red : Red}
    (h : red ∈ redNewHost alloc hostType name) : red.redHostName = name := by
  unfold redNewHost at h
  split at h
  · cases h
    rfl
  · cases h

/-- Adding to the local hosts alone, as the search for the exchangers of a host does. -/
theorem redAddHost_eq (alloc : Bool) (name : Text) (hosts : List Red) : redAddHost alloc name hosts =
    (redPlaceHost alloc .loc name hosts).map fun r => (r.1, r.2.redHostName) := by
  induction hosts with
  | nil => cases alloc <;> rfl
  | cons red rest ih =>
    unfold redAddHost redPlaceHost
    cases strcasecmp red.redHostName name with
    | eq => rfl
    | lt => cases alloc <;> rfl
    | gt =>
      rw [ih, Option.map_map, Option.map_map]
      rfl

@[simp] theorem RedTables.table_setTable (t : RedTables) (hosts : List Red) (hostType : RedHostType) :
    (t.setTable hosts hostType).table hostType = hosts := by cases hostType <;> rfl

/-! ## What additions leave -/

/-- The table of a type holds the names that were added, one entry for each, in order. -/
structure TableHolds (hostType : RedHostType) (names : List Text) (t : RedTables) : Prop where
  descending : Descending redKey (t.table hostType)
  entries : ∀ red ∈ t.table hostType, red.redHostName ∈ names
  added : ∀ name ∈ names, ∃ red ∈ t.table hostType, redKey red = hostKey name

theorem TableHolds.empty (hostType : RedHostType) : TableHolds hostType [] .empty := by
  cases hostType <;> exact ⟨List.Pairwise.nil, fun _ h => absurd h List.not_mem_nil, fun _ h => absurd h List.not_mem_nil⟩

theorem simtaRedAddHost_holds {hostType : RedHostType} {names : List Text} {t : RedTables} (alloc : Bool) (name : Text)
    (h : TableHolds hostType names t) :
    TableHolds hostType (names ++ if (simtaRedAddHost alloc name hostType t).1.isSome then [name] else [])
      (simtaRedAddHost alloc name hostType t).2 := by
  have hsame : TableHolds hostType (names ++ []) t := by rwa [List.append_nil]
  unfold simtaRedAddHost
  by_cases hsecond : hostType = .secondaryMx ∧ t.secondaryMx ≠ []
  · rw [if_pos hsecond]
    exact hsame
  · rw [if_neg hsecond]
    cases hplace : redPlaceHost alloc hostType name (t.table hostType) with
    | none => exact hsame
    | some r =>
      obtain ⟨hosts, red⟩ := r
      rw [redPlaceHost_eq_keyPlace] at hplace
      have hmake : ∀ red ∈ redNewHost alloc hostType name, redKey red = hostKey name :=
        fun red hred => congrArg hostKey (redNewHost_key hred)
      have hplaced := keyPlace_spec hmake h.descending hplace
      have hentry := keyPlace_entry hplace
      refine ⟨by simpa using hplaced.descending, ?_, ?_⟩
      · intro x hx
        rw [RedTables.table_setTable, hplaced.mem] at hx
        obtain hx | rfl := hx
        · exact List.mem_append_left _ (h.entries x hx)
        · obtain hold | hnew := hentry
          · exact List.mem_append_left _ (h.entries x hold)
          · rw [redNewHost_key hnew]
            simp
      · intro n hn
        rw [RedTables.table_setTable]
        obtain hn | hn := List.mem_append.mp hn
        · obtain ⟨x, hx, hkey⟩ := h.added n hn
          exact ⟨x, (hplaced.mem x).mpr (.inl hx), hkey⟩
        · obtain rfl : n = name := by simpa using hn
          exact ⟨red, (hplaced.mem red).mpr (.inr rfl), hplaced.found⟩

theorem redAddAll_holds {hostType : RedHostType} (calls : List (Bool × Text)) {names : List Text} {t : RedTables}
    (h : TableHolds hostType names t) :
    TableHolds hostType (names ++ (redAddAll hostType calls t).2) (redAddAll hostType calls t).1 := by
  induction calls generalizing names t with
  | nil =>
    show TableHolds hostType (names ++ []) t
    rwa [List.append_nil]
  | cons call calls ih =>
    obtain ⟨alloc, name⟩ := call
    have hstep := ih (simtaRedAddHost_holds alloc name h)
    have hnames : (redAddAll hostType ((alloc, name) :: calls) t).2 =
        (if (simtaRedAddHost alloc name hostType t).1.isSome then [name] else []) ++
          (redAddAll hostType calls (simtaRedAddHost alloc name hostType t).2).2 := by
      show (if _ then _ else _) = _
      split <;> rfl
    rw [hnames, ← List.append_assoc]
    exact hstep

/-! ## Searches -/

theorem redLookupHost2_eq (conf : RedConf) (hostName : Text) (hosts : List Red) :
    redLookupHost2 conf hostName hosts = (redLookupHost conf hostName hosts, cells hostName) := by
  have hlast : hostName[hostName.length - 1]? = hostName.getLast? := List.getLast?_eq_getElem?.symm
  unfold redLookupHost2 redLookupHost stripDot
  dsimp only
  rw [hlast]
  by_cases hdot : conf.domainTrailingDot = true ∧ hostName.getLast? = some '.'
  · have hget : hostName[hostName.length - 1]? = some '.' := hlast.trans hdot.2
    have hlt : hostName.length - 1 < hostName.length := (List.getElem?_eq_some_iff.mp hget).choose
    rw [if_pos hdot, if_pos hdot, headString_cut hlt, cells_restore hget, List.dropLast_eq_take]
  · rw [if_neg hdot, if_neg hdot, headString_cells]

/-- One name up to case and one trailing dot. -/
def SameHostName (conf : RedConf) (a b : Text) : Prop := strcaseEq (stripDot conf a) (stripDot conf b) = true

/-- What the table of a type is for, after a sequence of additions to no hosts: a search for a name finds an entry if and
    only if that name was added, no name has two entries, the names are in strict order, and the name searched for is
    left as it is. -/
structure TableComplete (conf : RedConf) (hostType : RedHostType) (calls : List (Bool × Text)) : Prop where
  found : ∀ name, name ≠ [] →
    ((redLookupHost2 conf name ((redAddAll hostType calls .empty).1.table hostType)).1.isSome = true ↔
      ∃ n ∈ (redAddAll hostType calls .empty).2, SameHostName conf n name)
  once : ((redAddAll hostType calls .empty).1.table hostType).Pairwise
    fun a b => ¬ SameHostName conf a.redHostName b.redHostName
  ordered : ((redAddAll hostType calls .empty).1.table hostType).Pairwise
    fun a b => strcasecmp a.redHostName b.redHostName = .gt
  unchanged : ∀ name, name ≠ [] →
    (redLookupHost2 conf name ((redAddAll hostType calls .empty).1.table hostType)).2 = cells name

theorem hostKey_getLast? (name : Text) : (hostKey name).getLast? = some '.' ↔ name.getLast? = some '.' := by
  unfold hostKey
  rw [List.getLast?_map, Option.map_eq_some_iff]
  simp [toLower_dot]

theorem sameHostName_iff {conf : RedConf} {a b : Text} :
    SameHostName conf a b ↔ hostKey (stripDot conf a) = hostKey (stripDot conf b) := by
  unfold SameHostName strcaseEq hostKey
  exact decide_eq_true_iff

/-- A search finds the entry that has the name without its dot. -/
theorem TableHolds.lookup {hostType : RedHostType} {names : List Text} {t : RedTables} (h : TableHolds hostType names t)
    (conf : RedConf) (name : Text) : (redLookupHost2 conf name (t.table hostType)).1.isSome = true ↔
      ∃ n ∈ names, hostKey n = hostKey (stripDot conf name) := by
  rw [redLookupHost2_eq, redLookupHost, redFind_eq_keyFind, Option.isSome_iff_exists]
  constructor
  · rintro ⟨red, hred⟩
    obtain ⟨hmem, hkey⟩ := (keyFind_eq_some_iff h.descending).mp hred
    exact ⟨_, h.entries red hmem, hkey⟩
  · rintro ⟨n, hn, hkey⟩
    obtain ⟨red, hred, hred'⟩ := h.added n hn
    exact ⟨red, (keyFind_eq_some_iff h.descending).mpr ⟨hred, hred'.trans hkey⟩⟩

theorem TableHolds.ordered {hostType : RedHostType} {names : List Text} {t : RedTables}
    (h : TableHolds hostType names t) :
    (t.table hostType).Pairwise fun a b => strcasecmp a.redHostName b.redHostName = .gt := by
  apply h.descending.imp
  intro a b hlt
  obtain ⟨heq, -⟩ | ⟨hlt', -⟩ | ⟨-, hcmp⟩ := strcasecmp_cases a.redHostName b.redHostName
  · exact absurd heq.symm (ne_of_lt hlt)
  · exact absurd hlt' (lt_asymm hlt)
  · exact hcmp

theorem stripDot_of_not {conf : RedConf} {name : Text} (h : name.getLast? ≠ some '.') : stripDot conf name = name :=
  if_neg (fun hdot => h hdot.2)

theorem stripDot_of_dot {conf : RedConf} (hconf : conf.domainTrailingDot = true) {name : Text}
    (h : name.getLast? = some '.') : stripDot conf name = name.dropLast := if_pos ⟨hconf, h⟩

/-- A name with a dot at its end makes a search fail, or there is another entry for it. -/
theorem not_complete_of_dot {conf : RedConf} {hostType : RedHostType} {calls : List (Bool × Text)}
    (hconf : conf.domainTrailingDot = true) (h : TableComplete conf hostType calls) :
    ∀ (k : Nat) (n : Text), n.length = k → n ∈ (redAddAll hostType calls .empty).2 → n.getLast? ≠ some '.' := by
  have hholds := redAddAll_holds calls (TableHolds.empty hostType)
  rw [List.nil_append] at hholds
  intro k
  induction k with
  | zero =>
    intro n hlen _
    rw [List.length_eq_zero_iff.mp hlen]
    simp
  | succ k ih =>
    intro n hlen hn hdot
    -- the search for `n` looks for the name without the dot
    have hne : n ≠ [] := fun hnil => by simp [hnil] at hlen
    obtain ⟨m, hm, hkey⟩ := (hholds.lookup conf n).mp ((h.found n hne).mpr ⟨n, hn, sameHostName_iff.mpr rfl⟩)
    rw [stripDot_of_dot hconf hdot] at hkey
    have hmlen : m.length = k := by
      have := congrArg List.length hkey
      simp only [hostKey, List.length_map, List.length_dropLast] at this
      omega
    have hmdot := ih m hmlen hm
    -- so both have an entry
    obtain ⟨red, hred, hredkey⟩ := hholds.added n hn
    obtain ⟨red', hred', hredkey'⟩ := hholds.added m hm
    have hname : red.redHostName.getLast? = some '.' := by
      rw [← hostKey_getLast?]
      exact (congrArg List.getLast? hredkey).trans ((hostKey_getLast? n).mpr hdot)
    have hname' : red'.redHostName.getLast? ≠ some '.' := by
      intro hdot'
      apply hmdot
      rw [← hostKey_getLast?, ← hredkey']
      exact (hostKey_getLast? _).mpr hdot'
    have hsame : SameHostName conf red.redHostName red'.redHostName := by
      rw [sameHostName_iff, stripDot_of_dot hconf hname, stripDot_of_not hname']
      have hdrop : hostKey red.redHostName.dropLast = hostKey n.dropLast := by
        have := congrArg List.dropLast hredkey
        simpa only [redKey, hostKey, List.map_dropLast] using this
      rw [hdrop, ← hkey, ← hredkey']
      rfl
    have hdiff : red ≠ red' := by
      rintro rfl
      exact hname' hname
    have hsymm : Std.Symm fun a b : Red => ¬ SameHostName conf a.redHostName b.redHostName :=
      ⟨fun a b hab hba => hab (sameHostName_iff.mpr (sameHostName_iff.mp hba).symm)⟩
    exact h.once.forall hred hred' hdiff hsame

/-- **A search finds exactly the names that were added,** one entry for each, when no name that was added ends in a
    dot. -/
theorem tableComplete_iff (conf : RedConf) (hconf : conf.domainTrailingDot = true) (hostType : RedHostType)
    (calls : List (Bool × Text)) : TableComplete conf hostType calls ↔
      ∀ n ∈ (redAddAll hostType calls .empty).2, n.getLast? ≠ some '.' := by
  have hholds := redAddAll_holds calls (TableHolds.empty hostType)
  rw [List.nil_append] at hholds
  constructor
  · intro h n hn
    exact not_complete_of_dot hconf h n.length n rfl hn
  · intro h
    refine ⟨fun name _ => ?_, ?_, hholds.ordered, fun name _ => by rw [redLookupHost2_eq]⟩
    · rw [hholds.lookup conf name]
      apply exists_congr
      intro n
      apply and_congr_right
      intro hn
      rw [sameHostName_iff, stripDot_of_not (h n hn)]
    · apply hholds.descending.imp_of_mem
      intro a b ha hb hlt
      rw [sameHostName_iff, stripDot_of_not (h _ (hholds.entries a ha)), stripDot_of_not (h _ (hholds.entries b hb))]
      exact ne_of_gt hlt

/-- The table of a server that handles the dot at the end of a domain. -/
def dotConf : RedConf := ⟨true, none, none⟩

theorem tableComplete_two : TableComplete dotConf .loc [(true, "H.org".toList), (true, "h.org".toList)] :=
  (tableComplete_iff dotConf rfl .loc _).mpr (by decide)

/-- A name added with a dot is found neither with nor without it. -/
theorem not_tableComplete : ¬ TableComplete dotConf .loc [(true, "h.org.".toList)] := by
  intro h
  have hfound := (h.found "h.org.".toList (by simp)).mpr ⟨"h.org.".toList, by decide, sameHostName_iff.mpr rfl⟩
  revert hfound
  decide

end Simta
