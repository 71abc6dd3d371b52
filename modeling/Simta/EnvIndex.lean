import Simta.Dll
import Simta.EnvOutfile

/-!
# The indexes of senders and messages

`simta_env_list` holds the envelopes by id, `simta_sender_list` the senders, and each sender a list of its
envelopes by id.

* `EnvIndex` — the lists, and the envelopes, senders and sender entries that they point to and that point
  to them;
* `midListAdd`, `senderListAdd`, `envRead`, `envEfile`, `envFree`; `none` is a use of freed memory;
* `MessageOk`, `SenderOk` — which entry belongs to which envelope;
* `EnvIndex.Holds` — the invariant.
-/

set_option autoImplicit false

namespace Simta

/-! ## The data -/

/-- The heads of lists: `simta_env_list`, `simta_sender_list` and `sl_entries` of a sender. -/
inductive DllOf
  | message
  | sender
  | entries (list : Nat)
  deriving DecidableEq

/-- What `dll_key` points to: the id of an envelope, or a copy that goes with the entry. -/
inductive DllKey
  | shared (env : Nat)
  | copy (key : Text)
  deriving DecidableEq

/-- `struct sender_list`; the head `sl_entries` is that of `DllOf.entries`. -/
structure SenderList where
  slNEntries : Int := 0
  slDll : Nat
  deriving DecidableEq

/-- `struct sender_entry`. -/
structure SenderEntry where
  seList : Nat
  seEnv : Nat
  seDll : Nat
  deriving DecidableEq

/-- An envelope with its pointers into the indexes. -/
structure IndexedEnvelope extends Envelope where
  eEnvListEntry : Option Nat := none
  eSenderEntry : Option Nat := none

/-- The indexes, and the objects by address. -/
structure EnvIndex where
  dll : DllHeap DllOf DllKey Nat
  envs : Nat → Option IndexedEnvelope
  lists : Nat → Option SenderList
  senders : Nat → Option SenderEntry
  fresh : Nat

namespace EnvIndex

def empty : EnvIndex where
  dll := ⟨fun _ => none, fun _ => none, 0⟩
  envs _ := none
  lists _ := none
  senders _ := none
  fresh := 0

/-- A key is read through its pointer. -/
def text (s : EnvIndex) : DllKey → Option Text
  | .shared e => (s.envs e).map (·.eId)
  | .copy key => some key

def setEnv (s : EnvIndex) (e : Nat) (env : IndexedEnvelope) : EnvIndex :=
  { s with envs := Function.update s.envs e (some env) }

/-- A write through the pointer of an envelope. -/
def modEnv (s : EnvIndex) (e : Nat) (f : IndexedEnvelope → IndexedEnvelope) : Option EnvIndex :=
  (s.envs e).map fun env => s.setEnv e (f env)

/-! ## The functions of the source -/

/-- The envelope enters the list of messages, if nothing stands under its id. -/
def midListAdd (s : EnvIndex) (e : Nat) : Option EnvIndex := do
  let (dll, eDll) ← s.dll.dllLookupOrCreate s.text .message (.shared e)
  let entry ← dll.entry eDll
  match entry.dllData with
  | some _ => return { s with dll }
  | none =>
    let dll ← dll.setData eDll e
    ({ s with dll } : EnvIndex).modEnv e fun env => { env with eEnvListEntry := some eDll }

/-- The list of the sender at `slDll`, made if there is none yet. -/
def senderList (s : EnvIndex) (slDll : Nat) : Option Nat → Option (EnvIndex × Nat)
  | some list => some (s, list)
  | none => do
    let dll ← s.dll.setData slDll s.fresh
    return ({ s with
      dll := dll.setHead (.entries s.fresh) none
      lists := Function.update s.lists s.fresh (some { slDll })
      fresh := s.fresh + 1 }, s.fresh)

/-- The envelope enters the list of its sender, if nothing stands under its id. -/
def senderEntryAdd (s : EnvIndex) (list e : Nat) : Option EnvIndex := do
  let (dll, seDll) ← s.dll.dllLookupOrCreate s.text (.entries list) (.shared e)
  let entry ← dll.entry seDll
  match entry.dllData with
  | some _ => return { s with dll }
  | none =>
    let dll ← dll.setData seDll s.fresh
    let l ← s.lists list
    ({ s with
      dll
      lists := Function.update s.lists list (some { l with slNEntries := l.slNEntries + 1 })
      senders := Function.update s.senders s.fresh (some ⟨list, e, seDll⟩)
      fresh := s.fresh + 1 } : EnvIndex).modEnv e fun env => { env with eSenderEntry := some s.fresh }

/-- `sender_list_add`, the allocations succeeding. -/
def senderListAdd (s : EnvIndex) (e : Nat) : Option EnvIndex := do
  let env ← s.envs e
  let eMail ← env.eMail
  let (dll, slDll) ← s.dll.dllLookupOrCreate s.text .sender (.copy eMail)
  let entry ← dll.entry slDll
  let (s, list) ← ({ s with dll } : EnvIndex).senderList slDll entry.dllData
  s.senderEntryAdd list e

/-- What `env_read` and `env_efile` do when all else has succeeded. -/
def index (conf : Conf) (s : EnvIndex) (e : Nat) : Option EnvIndex := do
  let s ← if conf.midListEnable then s.midListAdd e else some s
  if conf.senderListEnable then s.senderListAdd e else some s

/-- What `env_read` meets: whether the file can be opened and locked, or is found without a lock, its
    lines, whether `snet_close` succeeds, and what the uninitialised locals hold. -/
structure ReadAnswers where
  opened : Bool
  locked : Bool
  lines : List Text
  closed : Bool
  version0 : Int
  dinode0 : Nat

/-- The fields that a function of `envelope.c` leaves. -/
def store (s : EnvIndex) (e : Nat) (x : Envelope) : Option EnvIndex :=
  s.modEnv e fun env => { env with toEnvelope := x }

/-- `env_read` with the result and the indexes; `lock` is `s_lock != NULL`. -/
def envRead (conf : Conf) (mode : ReadMode) (lock : Bool) (a : ReadAnswers) (s : EnvIndex) (e : Nat) :
    Option (Int × EnvIndex) := do
  let env ← s.envs e
  if (mode = .queueInfo ∧ lock) ∨ ¬ a.opened then return (1, s)
  else if (mode = .queueInfo ∨ lock) ∧ ¬ a.locked then return (1, s)
  else
    match envReadLines mode a.version0 a.dinode0 env.toEnvelope a.lines with
    | .error x => return (1, ← s.store e x)
    | .ok x =>
      let s ← s.store e x
      if lock ∨ a.closed then return (0, ← s.index conf e)
      else return (1, s)

/-- `env_efile` with the result and the indexes; `now` is the answer of `simta_gettimeofday`. -/
def envEfile (conf : Conf) (renamed : Bool) (now : Option Int) (s : EnvIndex) (e : Nat) :
    Option (Int × EnvIndex) := do
  let env ← s.envs e
  if renamed then
    let x := (env.toEnvelope.setTfile false).setEfile true
    match now with
    | none => return (-1, ← s.store e x)
    | some now =>
      let s ← s.store e (x.touched now)
      return (0, ← s.index conf e)
  else return (-1, s)

/-- `env_create`, the allocations succeeding. -/
def envCreate (s : EnvIndex) (conf : Conf) (dir : Dir) (id : Text) (eMail : Option Text)
    (parent : Option Envelope) : EnvIndex :=
  { s.setEnv s.fresh { toEnvelope := Simta.envCreate conf dir id eMail parent } with fresh := s.fresh + 1 }

/-- The envelope leaves the list of messages. -/
def unlistMessage (s : EnvIndex) (env : IndexedEnvelope) : Option EnvIndex :=
  match env.eEnvListEntry with
  | none => some s
  | some d => do
    let dll ← s.dll.dllRemoveEntry .message d
    return { s with dll }

/-- A sender whose list is empty is taken out. -/
def dropEmpty (s : EnvIndex) (list slDll : Nat) : Option EnvIndex :=
  match s.dll.head (.entries list) with
  | some _ => some s
  | none => do
    let dll ← s.dll.dllRemoveEntry .sender slDll
    return { s with dll, lists := Function.update s.lists list none }

/-- The envelope leaves the list of its sender. -/
def unlistSender (s : EnvIndex) (env : IndexedEnvelope) : Option EnvIndex :=
  match env.eSenderEntry with
  | none => some s
  | some se => do
    let entry ← s.senders se
    let dll ← s.dll.dllRemoveEntry (.entries entry.seList) entry.seDll
    let l ← s.lists entry.seList
    let s ← ({ s with
      dll
      lists := Function.update s.lists entry.seList (some { l with slNEntries := l.slNEntries - 1 }) }
        : EnvIndex).dropEmpty entry.seList l.slDll
    return { s with senders := Function.update s.senders se none }

/-- `env_free`. -/
def envFree (s : EnvIndex) (e : Nat) : Option EnvIndex := do
  let env ← s.envs e
  let s ← s.unlistMessage env
  let s ← s.unlistSender env
  return { s with envs := Function.update s.envs e none }

/-- The pointers of the envelopes, and their senders. -/
def mid (s : EnvIndex) (e : Nat) : Option Nat := (s.envs e).bind (·.eEnvListEntry)

def se (s : EnvIndex) (e : Nat) : Option Nat := (s.envs e).bind (·.eSenderEntry)

def mail (s : EnvIndex) (e : Nat) : Option Text := (s.envs e).bind (·.eMail)

end EnvIndex

/-! ## Whose an entry is -/

variable {content content' : Nat → Option (DllKey × Option Nat)} {mid : Nat → Option Nat}
variable {lists : Nat → Option SenderList} {senders : Nat → Option SenderEntry} {seOf : Nat → Option Nat}
variable {mail mail' : Nat → Option Text} {cells cells' : DllOf → List Nat} {busy : Option Nat}
variable {d e n sl : Nat} {L : SenderList} {k m : Text}

/-- The entries of the list of messages are those of the envelopes that point to them. -/
structure MessageOk (content : Nat → Option (DllKey × Option Nat)) (mid : Nat → Option Nat)
    (cells : DllOf → List Nat) : Prop where
  filed : ∀ e d, mid e = some d → d ∈ cells .message ∧ content d = some (.shared e, some e)
  full : ∀ d ∈ cells .message, ∃ e, mid e = some d

/-- The entries of the lists of the senders are those of the envelopes that point to them, each under the
    sender of its envelope.  The list of the sender `busy` may be empty, the others are not. -/
structure SenderOk (content : Nat → Option (DllKey × Option Nat)) (lists : Nat → Option SenderList)
    (senders : Nat → Option SenderEntry) (seOf : Nat → Option Nat) (mail : Nat → Option Text)
    (cells : DllOf → List Nat) (busy : Option Nat) : Prop where
  entered : ∀ e se, seOf e = some se → ∃ sl d, senders se = some ⟨sl, e, d⟩
  filed : ∀ se sl e d, senders se = some ⟨sl, e, d⟩ → seOf e = some se ∧ d ∈ cells (.entries sl) ∧
    content d = some (.shared e, some se) ∧ ∃ L k m, lists sl = some L ∧
      content L.slDll = some (.copy k, some sl) ∧ mail e = some m ∧ hostKey m = hostKey k
  full : ∀ sl, ∀ d ∈ cells (.entries sl), ∃ se e, senders se = some ⟨sl, e, d⟩
  list : ∀ sl L, lists sl = some L → L.slDll ∈ cells .sender ∧
    (∃ k, content L.slDll = some (.copy k, some sl)) ∧ L.slNEntries = (cells (.entries sl)).length ∧
      (busy ≠ some sl → cells (.entries sl) ≠ [])
  node : ∀ d ∈ cells .sender, ∃ sl L, lists sl = some L ∧ L.slDll = d

open DllHeap (Joined)

/-- What the other lists hold does not matter to the list of messages. -/
theorem MessageOk.frame (h : MessageOk content mid cells) (hcells : cells' .message = cells .message)
    (hcontent : ∀ x ∈ cells .message, content' x = content x) : MessageOk content' mid cells' := by
  constructor
  · intro e d he
    obtain ⟨hd, hc⟩ := h.filed e d he
    exact ⟨hcells ▸ hd, (hcontent d hd).trans hc⟩
  · intro d hd
    exact h.full d (hcells ▸ hd)

theorem MessageOk.add (h : MessageOk content mid cells) (hd : d ∉ cells .message)
    (hj : Joined cells cells' .message d) (he : mid e = none) :
    MessageOk (Function.update content d (some (.shared e, some e))) (Function.update mid e (some d)) cells' := by
  constructor
  · intro x y hx
    by_cases hxe : x = e
    · subst hxe
      rw [Function.update_self] at hx
      cases hx
      exact ⟨hj.mem_iff.mpr (.inl rfl), Function.update_self ..⟩
    · rw [Function.update_of_ne hxe] at hx
      obtain ⟨hy, hc⟩ := h.filed x y hx
      refine ⟨hj.mem_iff.mpr (.inr hy), ?_⟩
      rw [Function.update_of_ne (ne_of_mem_of_not_mem hy hd), hc]
  · intro y hy
    obtain rfl | hy := hj.mem_iff.mp hy
    · exact ⟨e, Function.update_self ..⟩
    · obtain ⟨x, hx⟩ := h.full y hy
      refine ⟨x, ?_⟩
      rwa [Function.update_of_ne]
      rintro rfl
      rw [he] at hx
      cases hx

theorem MessageOk.remove (h : MessageOk content mid cells) (he : mid e = some d)
    (hj : Joined cells' cells .message d) (hd : d ∉ cells' .message) :
    MessageOk (Function.update content d none) (Function.update mid e none) cells' := by
  constructor
  · intro x y hx
    by_cases hxe : x = e
    · rw [hxe, Function.update_self] at hx
      cases hx
    · rw [Function.update_of_ne hxe] at hx
      obtain ⟨hy, hc⟩ := h.filed x y hx
      have hyd : y ≠ d := by
        rintro rfl
        rw [(h.filed e y he).2] at hc
        cases hc
        exact hxe rfl
      refine ⟨(hj.mem_iff.mp hy).resolve_left hyd, ?_⟩
      rw [Function.update_of_ne hyd, hc]
  · intro y hy
    obtain ⟨x, hx⟩ := h.full y (hj.mem_iff.mpr (.inr hy))
    refine ⟨x, ?_⟩
    rwa [Function.update_of_ne]
    rintro rfl
    rw [he] at hx
    cases hx
    exact hd hy

/-! ## The lists of the senders -/

theorem SenderOk.frame (h : SenderOk content lists senders seOf mail cells busy)
    (hcells : ∀ i, i ≠ .message → cells' i = cells i)
    (hcontent : ∀ i, i ≠ .message → ∀ x ∈ cells i, content' x = content x)
    (hmail : ∀ e, seOf e ≠ none → mail' e = mail e) :
    SenderOk content' lists senders seOf mail' cells' busy := by
  have hne : ∀ sl, DllOf.entries sl ≠ .message := fun sl h => DllOf.noConfusion h
  have hns : DllOf.sender ≠ .message := fun h => DllOf.noConfusion h
  have hentries : ∀ sl, cells' (.entries sl) = cells (.entries sl) := fun sl => hcells _ (hne sl)
  have hsender : cells' .sender = cells .sender := hcells _ hns
  refine ⟨h.entered, ?_, ?_, ?_, ?_⟩
  · intro se sl e d hse
    obtain ⟨he, hd, hc, L, k, m, hL, hk, hm, hmk⟩ := h.filed se sl e d hse
    refine ⟨he, hentries sl ▸ hd, (hcontent _ (hne sl) d hd).trans hc, L, k, m, hL, ?_, ?_, hmk⟩
    · exact (hcontent _ hns _ (h.list sl L hL).1).trans hk
    · rw [hmail e (by simp [he]), hm]
  · intro sl d hd
    exact h.full sl d (hentries sl ▸ hd)
  · intro sl L hL
    obtain ⟨hd, ⟨k, hk⟩, hn, hne⟩ := h.list sl L hL
    rw [hsender, hentries]
    exact ⟨hd, ⟨k, (hcontent _ hns _ hd).trans hk⟩, hn, hne⟩
  · intro d hd
    exact h.node d (hsender ▸ hd)

/-- A list that is not there has no entries. -/
theorem SenderOk.no_entries (h : SenderOk content lists senders seOf mail cells busy) (hsl : lists sl = none) :
    cells (.entries sl) = [] := by
  apply List.eq_nil_iff_forall_not_mem.mpr
  intro d hd
  obtain ⟨se, e, hse⟩ := h.full sl d hd
  obtain ⟨-, -, -, L, -, -, hL, -⟩ := h.filed se sl e d hse
  rw [hsl] at hL
  cases hL

/-- A new sender, whose list is still empty. -/
theorem SenderOk.newList (h : SenderOk content lists senders seOf mail cells none) (hd : ∀ i, d ∉ cells i)
    (hj : Joined cells cells' .sender d) (hsl : lists sl = none) :
    SenderOk (Function.update content d (some (.copy k, some sl)))
      (Function.update lists sl (some { slDll := d })) senders seOf mail cells' (some sl) := by
  have hentries : ∀ sl, cells' (.entries sl) = cells (.entries sl) :=
    fun sl => hj.others _ fun h => DllOf.noConfusion h
  have hold : ∀ i, ∀ x ∈ cells i, Function.update content d (some (.copy k, some sl)) x = content x :=
    fun i x hx => Function.update_of_ne (ne_of_mem_of_not_mem hx (hd i)) ..
  have hlist : ∀ sl' L, lists sl' = some L → Function.update lists sl (some { slDll := d }) sl' = some L := by
    intro sl' L hL
    rw [Function.update_of_ne, hL]
    rintro rfl
    rw [hsl] at hL
    cases hL
  refine ⟨h.entered, ?_, ?_, ?_, ?_⟩
  · intro se sl' e x hse
    obtain ⟨he, hx, hc, L, k, m, hL, hk, hm⟩ := h.filed se sl' e x hse
    exact ⟨he, hentries sl' ▸ hx, (hold _ x hx).trans hc, L, k, m, hlist sl' L hL,
      (hold _ _ (h.list sl' L hL).1).trans hk, hm⟩
  · intro sl' x hx
    exact h.full sl' x (hentries sl' ▸ hx)
  · intro sl' L hL
    by_cases hne : sl' = sl
    · subst hne
      rw [Function.update_self] at hL
      cases hL
      rw [hentries, h.no_entries hsl]
      exact ⟨hj.mem_iff.mpr (.inl rfl), ⟨k, Function.update_self ..⟩, rfl, fun hb => absurd rfl hb⟩
    · rw [Function.update_of_ne hne] at hL
      obtain ⟨hx, ⟨k', hk⟩, hn, hfull⟩ := h.list sl' L hL
      rw [hentries]
      exact ⟨hj.mem_iff.mpr (.inr hx), ⟨k', (hold _ _ hx).trans hk⟩, hn, fun _ => hfull (Option.some_ne_none sl').symm⟩
  · intro x hx
    obtain rfl | hx := hj.mem_iff.mp hx
    · exact ⟨sl, _, Function.update_self .., rfl⟩
    · obtain ⟨sl', L, hL, hx⟩ := h.node x hx
      exact ⟨sl', L, hlist sl' L hL, hx⟩

/-- The count of a list changes, and no list its place among the senders. -/
theorem count_keeps (hL : lists sl = some L) (n : Int) (sl' : Nat) (L' : SenderList)
    (hL' : lists sl' = some L') : ∃ L'', Function.update lists sl (some { L with slNEntries := n }) sl' = some L'' ∧ L''.slDll = L'.slDll := by
  by_cases hne : sl' = sl
  · subst hne
    rw [hL] at hL'
    cases hL'
    exact ⟨_, Function.update_self .., rfl⟩
  · exact ⟨L', by rw [Function.update_of_ne hne, hL'], rfl⟩

/-- An envelope enters the list of its sender. -/
theorem SenderOk.add (h : SenderOk content lists senders seOf mail cells busy)
    (hbusy : busy = none ∨ busy = some sl) (hd : ∀ i, d ∉ cells i) (hj : Joined cells cells' (.entries sl) d)
    (hL : lists sl = some L) (hk : content L.slDll = some (.copy k, some sl)) (hm : mail e = some m)
    (hmk : hostKey m = hostKey k) (hn : senders n = none) (he : seOf e = none) :
    SenderOk (Function.update content d (some (.shared e, some n)))
      (Function.update lists sl (some { L with slNEntries := L.slNEntries + 1 }))
      (Function.update senders n (some ⟨sl, e, d⟩)) (Function.update seOf e (some n)) mail cells' none := by
  have hothers : ∀ sl', sl' ≠ sl → cells' (.entries sl') = cells (.entries sl') :=
    fun sl' hne => hj.others _ fun h => hne (DllOf.entries.inj h)
  have hsender : cells' .sender = cells .sender := hj.others _ fun h => DllOf.noConfusion h
  have hkeep : ∀ sl', ∀ x ∈ cells (.entries sl'), x ∈ cells' (.entries sl') := by
    intro sl' x hx
    by_cases hne : sl' = sl
    · subst hne
      exact hj.mem_iff.mpr (.inr hx)
    · rwa [hothers sl' hne]
  have hold : ∀ i, ∀ x ∈ cells i, Function.update content d (some (.shared e, some n)) x = content x :=
    fun i x hx => Function.update_of_ne (ne_of_mem_of_not_mem hx (hd i)) ..
  have hlist := @count_keeps lists sl L hL (L.slNEntries + 1)
  refine ⟨?_, ?_, ?_, ?_, ?_⟩
  · intro x se hx
    by_cases hxe : x = e
    · subst hxe
      rw [Function.update_self] at hx
      cases hx
      exact ⟨sl, d, Function.update_self ..⟩
    · rw [Function.update_of_ne hxe] at hx
      obtain ⟨sl', y, hse⟩ := h.entered x se hx
      refine ⟨sl', y, ?_⟩
      rw [Function.update_of_ne, hse]
      rintro rfl
      rw [hn] at hse
      cases hse
  · intro se sl' x y hse
    by_cases hsen : se = n
    · subst hsen
      rw [Function.update_self] at hse
      cases hse
      refine ⟨Function.update_self .., hj.mem_iff.mpr (.inl rfl), Function.update_self .., _, k, m,
        Function.update_self .., ?_, hm, hmk⟩
      exact (hold _ _ (h.list sl L hL).1).trans hk
    · rw [Function.update_of_ne hsen] at hse
      obtain ⟨hx, hy, hc, L', k', m', hL', hk', hm'⟩ := h.filed se sl' x y hse
      obtain ⟨L'', hL'', hdll⟩ := hlist sl' L' hL'
      refine ⟨?_, hkeep sl' y hy, (hold _ y hy).trans hc, L'', k', m', hL'', ?_, hm'⟩
      · rwa [Function.update_of_ne]
        rintro rfl
        rw [he] at hx
        cases hx
      · rw [hdll]
        exact (hold _ _ (h.list sl' L' hL').1).trans hk'
  · intro sl' x hx
    obtain ⟨rfl, rfl⟩ | hx : (sl' = sl ∧ x = d) ∨ x ∈ cells (.entries sl') := by
      by_cases hne : sl' = sl
      · subst hne
        obtain rfl | hx := hj.mem_iff.mp hx
        · exact .inl ⟨rfl, rfl⟩
        · exact .inr hx
      · rw [hothers sl' hne] at hx
        exact .inr hx
    · exact ⟨n, e, Function.update_self ..⟩
    · obtain ⟨se, y, hse⟩ := h.full sl' x hx
      refine ⟨se, y, ?_⟩
      rw [Function.update_of_ne, hse]
      rintro rfl
      rw [hn] at hse
      cases hse
  · intro sl' L' hL'
    by_cases hne : sl' = sl
    · subst hne
      rw [Function.update_self] at hL'
      cases hL'
      obtain ⟨hx, ⟨k', hk'⟩, hlen, -⟩ := h.list sl' L hL
      refine ⟨hsender ▸ hx, ⟨k', (hold _ _ hx).trans hk'⟩, ?_, ?_⟩
      · rw [hj.perm.length_eq, List.length_cons, hlen]
        rfl
      · rintro -
        exact List.ne_nil_of_mem (hj.mem_iff.mpr (.inl rfl))
    · rw [Function.update_of_ne hne] at hL'
      obtain ⟨hx, ⟨k', hk'⟩, hlen, hfull⟩ := h.list sl' L' hL'
      rw [hothers sl' hne]
      refine ⟨hsender ▸ hx, ⟨k', (hold _ _ hx).trans hk'⟩, hlen, fun _ => hfull ?_⟩
      rintro rfl
      obtain hb | hb := hbusy
      · cases hb
      · cases hb
        exact hne rfl
  · intro x hx
    obtain ⟨sl', L', hL', hx⟩ := h.node x (hsender ▸ hx)
    obtain ⟨L'', hL'', hdll⟩ := hlist sl' L' hL'
    exact ⟨sl', L'', hL'', hdll.trans hx⟩

/-- An envelope leaves the list of its sender, which may then be empty. -/
theorem SenderOk.remove (h : SenderOk content lists senders seOf mail cells none)
    (hse : senders n = some ⟨sl, e, d⟩) (hL : lists sl = some L) (hj : Joined cells' cells (.entries sl) d)
    (hd : ∀ i, d ∉ cells' i) :
    SenderOk (Function.update content d none)
      (Function.update lists sl (some { L with slNEntries := L.slNEntries - 1 }))
      (Function.update senders n none) (Function.update seOf e none) mail cells' (some sl) := by
  obtain ⟨hen, -⟩ := h.filed n sl e d hse
  have hothers : ∀ sl', sl' ≠ sl → cells' (.entries sl') = cells (.entries sl') :=
    fun sl' hne => (hj.others _ fun h => hne (DllOf.entries.inj h)).symm
  have hsender : cells' .sender = cells .sender := (hj.others _ fun h => DllOf.noConfusion h).symm
  have hold : ∀ i, ∀ x ∈ cells' i, Function.update content d none x = content x :=
    fun i x hx => Function.update_of_ne (ne_of_mem_of_not_mem hx (hd i)) ..
  have hlist := @count_keeps lists sl L hL (L.slNEntries - 1)
  refine ⟨?_, ?_, ?_, ?_, ?_⟩
  · intro x se hx
    by_cases hxe : x = e
    · rw [hxe, Function.update_self] at hx
      cases hx
    · rw [Function.update_of_ne hxe] at hx
      obtain ⟨sl', y, hy⟩ := h.entered x se hx
      refine ⟨sl', y, ?_⟩
      rw [Function.update_of_ne, hy]
      rintro rfl
      rw [hse] at hy
      cases hy
      exact hxe rfl
  · intro se sl' x y hx
    by_cases hsen : se = n
    · rw [hsen, Function.update_self] at hx
      cases hx
    · rw [Function.update_of_ne hsen] at hx
      obtain ⟨hxe, hy, hc, L', k', m', hL', hk', hm'⟩ := h.filed se sl' x y hx
      have hyd : y ≠ d := by
        rintro rfl
        rw [(h.filed n sl e y hse).2.2.1] at hc
        cases hc
        exact hsen rfl
      have hy : y ∈ cells' (.entries sl') := by
        by_cases hne : sl' = sl
        · subst hne
          exact (hj.mem_iff.mp hy).resolve_left hyd
        · rwa [hothers sl' hne]
      obtain ⟨L'', hL'', hdll⟩ := hlist sl' L' hL'
      refine ⟨?_, hy, (hold _ y hy).trans hc, L'', k', m', hL'', ?_, hm'⟩
      · rwa [Function.update_of_ne]
        rintro rfl
        rw [hen] at hxe
        cases hxe
        exact hsen rfl
      · rw [hdll]
        exact (hold .sender _ (hsender ▸ (h.list sl' L' hL').1)).trans hk'
  · intro sl' x hx
    have hmem : x ∈ cells (.entries sl') := by
      by_cases hne : sl' = sl
      · subst hne
        exact hj.mem_iff.mpr (.inr hx)
      · rwa [← hothers sl' hne]
    obtain ⟨se, y, hy⟩ := h.full sl' x hmem
    refine ⟨se, y, ?_⟩
    rw [Function.update_of_ne, hy]
    rintro rfl
    rw [hse] at hy
    cases hy
    exact hd _ hx
  · intro sl' L' hL'
    by_cases hne : sl' = sl
    · subst hne
      rw [Function.update_self] at hL'
      cases hL'
      obtain ⟨hx, ⟨k', hk'⟩, hlen, -⟩ := h.list sl' L hL
      have hx : L.slDll ∈ cells' .sender := hsender ▸ hx
      refine ⟨hx, ⟨k', (hold _ _ hx).trans hk'⟩, ?_, fun hb => absurd rfl hb⟩
      rw [hj.perm.length_eq, List.length_cons] at hlen
      simp only [hlen]
      omega
    · rw [Function.update_of_ne hne] at hL'
      obtain ⟨hx, ⟨k', hk'⟩, hlen, hfull⟩ := h.list sl' L' hL'
      have hx : L'.slDll ∈ cells' .sender := hsender ▸ hx
      rw [hothers sl' hne]
      exact ⟨hx, ⟨k', (hold _ _ hx).trans hk'⟩, hlen, fun _ => hfull (Option.some_ne_none sl').symm⟩
  · intro x hx
    obtain ⟨sl', L', hL', hx⟩ := h.node x (hsender ▸ hx)
    obtain ⟨L'', hL'', hdll⟩ := hlist sl' L' hL'
    exact ⟨sl', L'', hL'', hdll.trans hx⟩

/-- A list that has entries stays. -/
theorem SenderOk.keep (h : SenderOk content lists senders seOf mail cells (some sl))
    (hne : cells (.entries sl) ≠ []) : SenderOk content lists senders seOf mail cells none := by
  refine ⟨h.entered, h.filed, h.full, ?_, h.node⟩
  intro sl' L' hL'
  obtain ⟨hx, hk, hlen, hfull⟩ := h.list sl' L' hL'
  refine ⟨hx, hk, hlen, fun _ => ?_⟩
  by_cases hsl : sl' = sl
  · rwa [hsl]
  · exact hfull fun hb => hsl (Option.some.inj hb).symm

/-- A list that has none goes, with its sender. -/
theorem SenderOk.drop (h : SenderOk content lists senders seOf mail cells (some sl)) (hL : lists sl = some L)
    (hnil : cells (.entries sl) = []) (hj : Joined cells' cells .sender L.slDll)
    (hd : ∀ i, L.slDll ∉ cells' i) :
    SenderOk (Function.update content L.slDll none) (Function.update lists sl none) senders seOf mail cells'
      none := by
  have hentries : ∀ sl', cells' (.entries sl') = cells (.entries sl') :=
    fun sl' => (hj.others _ fun h => DllOf.noConfusion h).symm
  have hold : ∀ i, ∀ x ∈ cells' i, Function.update content L.slDll none x = content x :=
    fun i x hx => Function.update_of_ne (ne_of_mem_of_not_mem hx (hd i)) ..
  have hlist : ∀ sl' L', lists sl' = some L' → sl' ≠ sl → L'.slDll ∈ cells' .sender := by
    intro sl' L' hL' hne
    obtain ⟨hx, ⟨k', hk'⟩, -⟩ := h.list sl' L' hL'
    apply (hj.mem_iff.mp hx).resolve_left
    intro hdll
    obtain ⟨-, ⟨k, hk⟩, -⟩ := h.list sl L hL
    rw [hdll, hk] at hk'
    cases hk'
    exact hne rfl
  refine ⟨h.entered, ?_, ?_, ?_, ?_⟩
  · intro se sl' x y hx
    obtain ⟨hxe, hy, hc, L', k', m', hL', hk', hm'⟩ := h.filed se sl' x y hx
    have hne : sl' ≠ sl := by
      rintro rfl
      rw [hnil] at hy
      cases hy
    have hy : y ∈ cells' (.entries sl') := hentries sl' ▸ hy
    refine ⟨hxe, hy, (hold _ y hy).trans hc, L', k', m', by rw [Function.update_of_ne hne, hL'], ?_, hm'⟩
    exact (hold _ _ (hlist sl' L' hL' hne)).trans hk'
  · intro sl' x hx
    exact h.full sl' x (hentries sl' ▸ hx)
  · intro sl' L' hL'
    have hne : sl' ≠ sl := by
      rintro rfl
      rw [Function.update_self] at hL'
      cases hL'
    rw [Function.update_of_ne hne] at hL'
    obtain ⟨-, ⟨k', hk'⟩, hlen, hfull⟩ := h.list sl' L' hL'
    have hx := hlist sl' L' hL' hne
    rw [hentries]
    exact ⟨hx, ⟨k', (hold _ _ hx).trans hk'⟩, hlen, fun _ => hfull fun hb => hne (Option.some.inj hb).symm⟩
  · intro x hx
    obtain ⟨sl', L', hL', hdll⟩ := h.node x (hj.mem_iff.mpr (.inr hx))
    refine ⟨sl', L', ?_, hdll⟩
    rw [Function.update_of_ne, hL']
    rintro rfl
    rw [hL] at hL'
    cases hL'
    exact hd _ (hdll ▸ hx)

end Simta
