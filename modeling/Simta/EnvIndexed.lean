import Simta.EnvIndex

/-!
# What the functions do to the indexes

* `EnvIndex.Holds` — the invariant of the indexes: the lists are sorted, and every entry is that of the
  envelope that points to it;
* `midListAdd_spec`, `senderListAdd_spec`, `index_spec` — entering an envelope keeps it;
* `envFree_spec` — so does freeing one, and no entry is left that refers to it;
* `store_spec`, `envCreate_spec` — writing and creating envelopes.
-/

set_option autoImplicit false

namespace Simta

namespace EnvIndex

open DllHeap (Joined)

variable {s s' : EnvIndex} {cells cells' : DllOf → List Nat} {busy : Option Nat} {e list : Nat}
variable {env x : IndexedEnvelope} {L : SenderList} {k m : Text}

/-! ## The invariant -/

/-- The lists are sorted and every entry is that of the envelope that points to it. -/
structure Holds (s : EnvIndex) (cells : DllOf → List Nat) (busy : Option Nat) : Prop where
  sorted : s.dll.Sorted s.text cells
  message : MessageOk s.dll.content s.mid cells
  sender : SenderOk s.dll.content s.lists s.senders s.se s.mail cells busy
  below : ∀ a, s.fresh ≤ a → s.envs a = none ∧ s.lists a = none ∧ s.senders a = none

theorem setEnv_mid : (s.setEnv e x).mid = Function.update s.mid e x.eEnvListEntry :=
  DllHeap.update_map s.envs (some x)

theorem setEnv_se : (s.setEnv e x).se = Function.update s.se e x.eSenderEntry :=
  DllHeap.update_map s.envs (some x)

theorem setEnv_mail : (s.setEnv e x).mail = Function.update s.mail e x.eMail :=
  DllHeap.update_map s.envs (some x)

theorem setEnv_text (he : s.envs e = some env) (hid : x.eId = env.eId) : (s.setEnv e x).text = s.text := by
  funext key
  cases key with
  | copy key => rfl
  | shared a =>
    show (Function.update s.envs e (some x) a).map (·.eId) = (s.envs a).map (·.eId)
    by_cases ha : a = e
    · subst ha
      rw [Function.update_self, he, Option.map_some, Option.map_some, hid]
    · rw [Function.update_of_ne ha]

theorem mid_eq (he : s.envs e = some env) : s.mid e = env.eEnvListEntry := by
  unfold mid
  rw [he, Option.bind_some]

theorem se_eq (he : s.envs e = some env) : s.se e = env.eSenderEntry := by
  unfold se
  rw [he, Option.bind_some]

theorem mail_eq (he : s.envs e = some env) : s.mail e = env.eMail := by
  unfold mail
  rw [he, Option.bind_some]

theorem text_shared (he : s.envs e = some env) : s.text (.shared e) = some env.eId := by
  show (s.envs e).map (·.eId) = some env.eId
  rw [he, Option.map_some]

theorem Holds.not_fresh (h : s.Holds cells busy) (i : DllOf) : s.dll.fresh ∉ cells i :=
  fun hmem => absurd (h.sorted.lt_fresh hmem) (by omega)

/-- An envelope is written that keeps its id. -/
theorem Holds.setEnv (he : s.envs e = some env) (hid : x.eId = env.eId) (hsort : s.dll.Sorted s.text cells)
    (hmsg : MessageOk s.dll.content (Function.update s.mid e x.eEnvListEntry) cells)
    (hsend : SenderOk s.dll.content s.lists s.senders (Function.update s.se e x.eSenderEntry)
      (Function.update s.mail e x.eMail) cells busy)
    (hbelow : ∀ a, s.fresh ≤ a → s.envs a = none ∧ s.lists a = none ∧ s.senders a = none) :
    (s.setEnv e x).Holds cells busy := by
  refine ⟨?_, ?_, ?_, ?_⟩
  · rw [setEnv_text he hid]
    exact hsort
  · rw [setEnv_mid]
    exact hmsg
  · rw [setEnv_se, setEnv_mail]
    exact hsend
  · intro a ha
    obtain ⟨henv, hrest⟩ := hbelow a ha
    refine ⟨?_, hrest⟩
    show Function.update s.envs e (some x) a = none
    rwa [Function.update_of_ne]
    rintro rfl
    rw [he] at henv
    cases henv

/-- No other envelope that has an entry has the id of `env`, up to case. -/
def OnlyId (s : EnvIndex) (entry : Nat → Option Nat) (e : Nat) (env : Envelope) : Prop :=
  ∀ a x, s.envs a = some x → entry a ≠ none → hostKey x.eId = hostKey env.eId → a = e

/-- `e` keeps its fields and its entries, the others all. -/
structure Advanced (e : Nat) (s s' : EnvIndex) : Prop where
  others : ∀ a, a ≠ e → s'.envs a = s.envs a
  self : ∀ env, s.envs e = some env → ∃ x, s'.envs e = some x ∧ x.toEnvelope = env.toEnvelope ∧
    (env.eEnvListEntry ≠ none → x.eEnvListEntry ≠ none) ∧ (env.eSenderEntry ≠ none → x.eSenderEntry ≠ none)

theorem Advanced.refl (e : Nat) (s : EnvIndex) : Advanced e s s :=
  ⟨fun _ _ => rfl, fun env he => ⟨env, he, rfl, id, id⟩⟩

theorem Advanced.trans {t : EnvIndex} (h : Advanced e s s') (h' : Advanced e s' t) : Advanced e s t := by
  constructor
  · intro a ha
    rw [h'.others a ha, h.others a ha]
  · intro env he
    obtain ⟨x, hx, hxe, hm, hs⟩ := h.self env he
    obtain ⟨y, hy, hye, hm', hs'⟩ := h'.self x hx
    exact ⟨y, hy, hye.trans hxe, hm' ∘ hm, hs' ∘ hs⟩

/-! ## Indexing -/

/-- **An envelope enters the list of messages.** -/
theorem midListAdd_spec (h : s.Holds cells busy) (he : s.envs e = some env)
    (hid : s.OnlyId s.mid e env.toEnvelope) : ∃ s' cells', s.midListAdd e = some s' ∧ s'.Holds cells' busy ∧ s'.mid e ≠ none ∧ Advanced e s s' := by
  have hk := text_shared he
  obtain ⟨d, hd, hkey, hadd⟩ | ⟨hnone, dll, cells', hadd, hsort, hj, hcontent, hfresh⟩ :=
    DllHeap.dllLookupOrCreate_spec h.sorted .message hk
  · -- the entry is its own
    obtain ⟨a, ha⟩ := h.message.full d hd
    obtain ⟨-, hc⟩ := h.message.filed a d ha
    obtain ⟨x, hx, -⟩ := Option.bind_eq_some_iff.mp ha
    have hae : a = e := by
      apply hid a x hx (by rw [ha]; simp)
      rw [← DllHeap.keyOf_eq hc (text_shared hx), hkey]
    subst hae
    refine ⟨s, cells, ?_, h, by rw [ha]; simp, .refl a s⟩
    simp [midListAdd, hadd, DllHeap.entry_of_content hc]
  · have hnew : dll.content s.dll.fresh = some (.shared e, none) := by rw [hcontent, Function.update_self]
    obtain ⟨dll', hset, hsort', hcontent', hfresh'⟩ := DllHeap.setData_spec hsort hnew e
    rw [hcontent, Function.update_idem] at hcontent'
    have hmid : s.mid e = none := by
      by_contra hne
      obtain ⟨d, hd⟩ := Option.ne_none_iff_exists'.mp hne
      obtain ⟨hmem, hc⟩ := h.message.filed e d hd
      exact hnone d hmem (DllHeap.keyOf_eq hc hk)
    have he' : ({ s with dll := dll' } : EnvIndex).envs e = some env := he
    have hold : ∀ i, ∀ d ∈ cells i, dll'.content d = s.dll.content d := by
      intro i d hd
      rw [hcontent', Function.update_of_ne (ne_of_mem_of_not_mem hd (h.not_fresh i))]
    refine ⟨_, cells', ?_, Holds.setEnv he' (x := { env with eEnvListEntry := some s.dll.fresh }) rfl hsort'
      ?_ ?_ h.below, ?_, ?_⟩
    · simp [midListAdd, hadd, DllHeap.entry_of_content hnew, hset, modEnv, he]
    · show MessageOk dll'.content (Function.update s.mid e _) cells'
      rw [hcontent']
      exact h.message.add (h.not_fresh _) hj hmid
    · show SenderOk dll'.content s.lists s.senders (Function.update s.se e env.eSenderEntry)
        (Function.update s.mail e env.eMail) cells' busy
      rw [← se_eq he, ← mail_eq he, Function.update_eq_self, Function.update_eq_self]
      exact h.sender.frame (fun i hi => hj.others i hi) (fun i _ => hold i) fun _ _ => rfl
    · rw [setEnv_mid, Function.update_self]
      simp
    · refine ⟨fun a ha => Function.update_of_ne ha .., fun y hy => ?_⟩
      rw [he] at hy
      cases hy
      exact ⟨_, Function.update_self .., rfl, by simp, id⟩

/-- The envelope with the sender `m` is in no other list than that of `m`. -/
theorem Holds.own_list (h : s.Holds cells busy) (he : s.envs e = some env) (hm : env.eMail = some m)
    (hL : s.lists list = some L) (hk : s.dll.content L.slDll = some (.copy k, some list))
    (hmk : hostKey m = hostKey k) {se : Nat} (hse : s.se e = some se) :
    ∃ d ∈ cells (.entries list), s.dll.keyOf s.text d = hostKey env.eId := by
  obtain ⟨sl, d, hsd⟩ := h.sender.entered e se hse
  obtain ⟨-, hd, hc, L', k', m', hL', hk', hm', hmk'⟩ := h.sender.filed se sl e d hsd
  have hmm : m' = m := by
    rw [mail_eq he, hm] at hm'
    exact (Option.some.inj hm').symm
  obtain ⟨hmem, -⟩ := h.sender.list list L hL
  obtain ⟨hmem', -⟩ := h.sender.list sl L' hL'
  have hkey : s.dll.keyOf s.text L.slDll = hostKey k := DllHeap.keyOf_eq hk rfl
  have hkey' : s.dll.keyOf s.text L'.slDll = hostKey k' := DllHeap.keyOf_eq hk' rfl
  have hdll : L'.slDll = L.slDll := by
    apply h.sorted.key_inj hmem' hmem
    rw [hkey, hkey', ← hmk, ← hmk', hmm]
  rw [hdll, hk] at hk'
  have hsl : list = sl := by
    cases hk'
    rfl
  subst hsl
  exact ⟨d, hd, DllHeap.keyOf_eq hc (text_shared he)⟩

/-- An envelope enters the list `list` of its sender. -/
theorem senderEntryAdd_spec (h : s.Holds cells busy) (hbusy : busy = none ∨ busy = some list)
    (he : s.envs e = some env) (hid : s.OnlyId s.se e env.toEnvelope) (hm : env.eMail = some m)
    (hL : s.lists list = some L) (hk : s.dll.content L.slDll = some (.copy k, some list))
    (hmk : hostKey m = hostKey k) : ∃ s' cells', s.senderEntryAdd list e = some s' ∧
      s'.Holds cells' none ∧ s'.se e ≠ none ∧ Advanced e s s' := by
  have htext := text_shared he
  obtain ⟨d, hd, hkey, hadd⟩ | ⟨hnone, dll, cells', hadd, hsort, hj, hcontent, hfresh⟩ :=
    DllHeap.dllLookupOrCreate_spec h.sorted (.entries list) htext
  · -- the entry is its own
    obtain ⟨se, a, hse⟩ := h.sender.full list d hd
    obtain ⟨ha, -, hc, -⟩ := h.sender.filed se list a d hse
    obtain ⟨x, hx, -⟩ := Option.bind_eq_some_iff.mp ha
    have hae : a = e := by
      apply hid a x hx (by rw [ha]; simp)
      rw [← DllHeap.keyOf_eq hc (text_shared hx), hkey]
    subst hae
    have hkeep : s.Holds cells none := by
      obtain rfl | rfl := hbusy
      · exact h
      · exact ⟨h.sorted, h.message, h.sender.keep (List.ne_nil_of_mem hd), h.below⟩
    refine ⟨s, cells, ?_, hkeep, by rw [ha]; simp, .refl a s⟩
    simp [senderEntryAdd, hadd, DllHeap.entry_of_content hc]
  · have hnew : dll.content s.dll.fresh = some (.shared e, none) := by rw [hcontent, Function.update_self]
    obtain ⟨dll', hset, hsort', hcontent', hfresh'⟩ := DllHeap.setData_spec hsort hnew s.fresh
    rw [hcontent, Function.update_idem] at hcontent'
    have hse : s.se e = none := by
      by_contra hne
      obtain ⟨se, hse⟩ := Option.ne_none_iff_exists'.mp hne
      obtain ⟨d, hd, hkey⟩ := h.own_list he hm hL hk hmk hse
      exact hnone d hd hkey
    have hold : ∀ d ∈ cells .message, dll'.content d = s.dll.content d := by
      intro d hd
      rw [hcontent', Function.update_of_ne (ne_of_mem_of_not_mem hd (h.not_fresh _))]
    let t : EnvIndex := { s with
      dll := dll'
      lists := Function.update s.lists list (some { L with slNEntries := L.slNEntries + 1 })
      senders := Function.update s.senders s.fresh (some ⟨list, e, s.dll.fresh⟩)
      fresh := s.fresh + 1 }
    have he' : t.envs e = some env := he
    refine ⟨_, cells', ?_, Holds.setEnv he' (x := { env with eSenderEntry := some s.fresh }) rfl hsort'
      ?_ ?_ ?_, ?_, ?_⟩
    · simp [senderEntryAdd, hadd, DllHeap.entry_of_content hnew, hset, modEnv, he, hL, t]
    · show MessageOk dll'.content (Function.update s.mid e env.eEnvListEntry) cells'
      rw [← mid_eq he, Function.update_eq_self]
      exact h.message.frame (hj.others _ fun h => DllOf.noConfusion h) hold
    · show SenderOk dll'.content _ _ (Function.update s.se e _) (Function.update s.mail e env.eMail) cells' none
      rw [← mail_eq he, Function.update_eq_self, hcontent']
      exact h.sender.add hbusy h.not_fresh hj hL hk ((mail_eq he).trans hm) hmk (h.below _ le_rfl).2.2 hse
    · intro a ha
      have ha : s.fresh + 1 ≤ a := ha
      obtain ⟨henv, hlist, hsender⟩ := h.below a (by omega)
      refine ⟨henv, ?_, ?_⟩
      · show Function.update s.lists list _ a = none
        rwa [Function.update_of_ne]
        rintro rfl
        rw [hL] at hlist
        cases hlist
      · show Function.update s.senders s.fresh _ a = none
        rwa [Function.update_of_ne (by omega)]
    · rw [setEnv_se, Function.update_self]
      simp
    · refine ⟨fun a ha => Function.update_of_ne ha .., fun y hy => ?_⟩
      rw [he] at hy
      cases hy
      exact ⟨_, Function.update_self .., rfl, id, by simp⟩

theorem setHead_none {h : DllHeap DllOf DllKey Nat} {i : DllOf} (hhead : h.head i = none) :
    h.setHead i none = h := by
  unfold DllHeap.setHead
  rw [← hhead, Function.update_eq_self]

/-- **An envelope enters the list of its sender**, which is made if there is none. -/
theorem senderListAdd_spec (h : s.Holds cells none) (he : s.envs e = some env)
    (hid : s.OnlyId s.se e env.toEnvelope) (hm : env.eMail = some m) : ∃ s' cells',
      s.senderListAdd e = some s' ∧ s'.Holds cells' none ∧ s'.se e ≠ none ∧ Advanced e s s' := by
  have htext : s.text (.copy m) = some m := rfl
  obtain ⟨d, hd, hkey, hadd⟩ | ⟨hnone, dll, cells', hadd, hsort, hj, hcontent, hfresh⟩ :=
    DllHeap.dllLookupOrCreate_spec h.sorted .sender htext
  · obtain ⟨list, L, hL, rfl⟩ := h.sender.node d hd
    obtain ⟨-, ⟨k, hk⟩, -⟩ := h.sender.list list L hL
    have hmk : hostKey m = hostKey k := by
      rw [← hkey]
      exact DllHeap.keyOf_eq hk rfl
    obtain ⟨s', cells', hentry, hrest⟩ := senderEntryAdd_spec h (.inl rfl) he hid hm hL hk hmk
    refine ⟨s', cells', ?_, hrest⟩
    simp [senderListAdd, he, hm, hadd, DllHeap.entry_of_content hk, senderList, hentry]
  · have hnew : dll.content s.dll.fresh = some (.copy m, none) := by rw [hcontent, Function.update_self]
    obtain ⟨dll', hset, hsort', hcontent', hfresh'⟩ := DllHeap.setData_spec hsort hnew s.fresh
    rw [hcontent, Function.update_idem] at hcontent'
    have hlist : s.lists s.fresh = none := (h.below _ le_rfl).2.1
    -- `memset` makes the new list empty, as it is
    have hhead : dll'.setHead (.entries s.fresh) none = dll' := by
      apply setHead_none
      rw [(hsort'.family.linked _).head, hj.others _ fun h => DllOf.noConfusion h, h.sender.no_entries hlist]
      rfl
    have hold : ∀ d ∈ cells .message, dll'.content d = s.dll.content d := by
      intro d hd
      rw [hcontent', Function.update_of_ne (ne_of_mem_of_not_mem hd (h.not_fresh _))]
    let t : EnvIndex := { s with
      dll := dll'
      lists := Function.update s.lists s.fresh (some { slDll := s.dll.fresh })
      fresh := s.fresh + 1 }
    have ht : t.Holds cells' (some s.fresh) := by
      refine ⟨hsort', ?_, ?_, ?_⟩
      · exact h.message.frame (hj.others _ fun h => DllOf.noConfusion h) hold
      · show SenderOk dll'.content _ _ _ _ cells' _
        rw [hcontent']
        exact h.sender.newList h.not_fresh hj hlist
      · intro a ha
        have ha : s.fresh + 1 ≤ a := ha
        obtain ⟨henv, hlist, hsender⟩ := h.below a (by omega)
        refine ⟨henv, ?_, hsender⟩
        show Function.update s.lists s.fresh _ a = none
        rwa [Function.update_of_ne (by omega)]
    have hL : t.lists s.fresh = some { slDll := s.dll.fresh } := Function.update_self ..
    have hk : t.dll.content s.dll.fresh = some (.copy m, some s.fresh) := by
      show dll'.content s.dll.fresh = _
      rw [hcontent', Function.update_self]
    have he' : t.envs e = some env := he
    obtain ⟨s', cells'', hentry, hrest⟩ := senderEntryAdd_spec ht (.inr rfl) he' hid hm hL hk rfl
    refine ⟨s', cells'', ?_, hrest.1, hrest.2.1, ?_⟩
    · simp [senderListAdd, he, hm, hadd, DllHeap.entry_of_content hnew, senderList, hset, hhead, t] at hentry ⊢
      exact hentry
    · exact ⟨hrest.2.2.others, hrest.2.2.self⟩

theorem index_eq (conf : Conf) (s : EnvIndex) (e : Nat) :
    s.index conf e = (if conf.midListEnable then s.midListAdd e else some s).bind fun t =>
      if conf.senderListEnable then t.senderListAdd e else some t := by
  unfold index
  cases conf.midListEnable <;> cases conf.senderListEnable <;> rfl

/-- **An envelope is indexed**: it has the entries that the configuration asks for. -/
theorem index_spec {conf : Conf} (h : s.Holds cells none) (he : s.envs e = some env)
    (hmid : s.OnlyId s.mid e env.toEnvelope) (hse : s.OnlyId s.se e env.toEnvelope)
    (hm : conf.senderListEnable = true → env.eMail ≠ none) : ∃ s' cells', s.index conf e = some s' ∧
      s'.Holds cells' none ∧ Advanced e s s' ∧ (conf.midListEnable = true → s'.mid e ≠ none) ∧
        (conf.senderListEnable = true → s'.se e ≠ none) := by
  obtain ⟨t, cells₁, hadd, ht, hmt, hadv⟩ : ∃ t cells₁,
      (if conf.midListEnable then s.midListAdd e else some s) = some t ∧ t.Holds cells₁ none ∧
        (conf.midListEnable = true → t.mid e ≠ none) ∧ Advanced e s t := by
    cases conf.midListEnable with
    | false => exact ⟨s, cells, rfl, h, fun hc => absurd hc (by simp), Advanced.refl e s⟩
    | true =>
      obtain ⟨t, cells₁, hadd, ht, hmt, hadv⟩ := midListAdd_spec h he hmid
      exact ⟨t, cells₁, hadd, ht, fun _ => hmt, hadv⟩
  obtain ⟨x, hx, hxe, -⟩ := hadv.self env he
  have hse' : t.OnlyId t.se e x.toEnvelope := by
    intro a y hy hne hkey
    by_contra ha
    have hya := hadv.others a ha
    unfold se at hne
    rw [hya] at hy hne
    exact ha (hse a y hy hne (hkey.trans (by rw [hxe])))
  cases hconf : conf.senderListEnable with
  | false =>
    refine ⟨t, cells₁, ?_, ht, hadv, hmt, fun hc => absurd hc (by simp)⟩
    rw [index_eq, hadd, hconf]
    rfl
  | true =>
    obtain ⟨m, hmail⟩ := Option.ne_none_iff_exists'.mp (hm hconf)
    obtain ⟨u, cells₂, hadd', hu, hsu, hadv'⟩ := senderListAdd_spec ht hx hse' (m := m) (by rw [hxe, hmail])
    refine ⟨u, cells₂, ?_, hu, hadv.trans hadv', fun hc => ?_, fun _ => hsu⟩
    · rw [index_eq, hadd, hconf]
      exact hadd'
    · obtain ⟨y, hy, -, hkeep, -⟩ := hadv'.self x hx
      rw [mid_eq hy]
      apply hkeep
      rw [← mid_eq hx]
      exact hmt hc

/-! ## Freeing -/

theorem Joined.not_mem {h : DllHeap DllOf DllKey Nat} {text : DllKey → Option Text} {i : DllOf} {d : Nat}
    (hs : h.Sorted text cells) (hj : Joined cells' cells i d) (j : DllOf) : d ∉ cells' j := by
  have hnd := (hs.family.linked i).nodup
  rw [hj.perm.nodup_iff, List.nodup_cons] at hnd
  by_cases hji : j = i
  · rw [hji]
    exact hnd.1
  · intro hmem
    rw [← hj.others j hji] at hmem
    exact hji (hs.family.apart j i d hmem (hj.mem_iff.mpr (.inl rfl)))

/-- The envelope leaves the list of messages. -/
theorem unlistMessage_spec (h : s.Holds cells none) (he : s.envs e = some env) : ∃ dll cells',
    s.unlistMessage env = some { s with dll } ∧ dll.Sorted s.text cells' ∧
    MessageOk dll.content (Function.update s.mid e none) cells' ∧
    SenderOk dll.content s.lists s.senders s.se s.mail cells' none := by
  unfold unlistMessage
  cases hd : env.eEnvListEntry with
  | none =>
    refine ⟨s.dll, cells, rfl, h.sorted, ?_, h.sender⟩
    rw [Function.update_eq_self_iff.mpr ((mid_eq he).trans hd).symm]
    exact h.message
  | some d =>
    have hmid := (mid_eq he).trans hd
    obtain ⟨dll, cells', hremove, hsort, hj, hcontent, -⟩ :=
      DllHeap.dllRemoveEntry_spec h.sorted (h.message.filed e d hmid).1
    have hnot := Joined.not_mem h.sorted hj
    refine ⟨dll, cells', by simp [hremove], hsort, ?_, ?_⟩
    · rw [hcontent]
      exact h.message.remove hmid hj (hnot _)
    · apply h.sender.frame (fun i hi => (hj.others i hi).symm) ?_ fun _ _ => rfl
      intro i hi x hx
      rw [hj.others i hi] at hx
      rw [hcontent, Function.update_of_ne (ne_of_mem_of_not_mem hx (hnot i))]

/-- The sender goes if its list has become empty. -/
theorem dropEmpty_spec {list : Nat} {mid se : Nat → Option Nat} {senders : Nat → Option SenderEntry}
    (hsort : s.dll.Sorted s.text cells) (hmsg : MessageOk s.dll.content mid cells)
    (hsend : SenderOk s.dll.content s.lists senders se s.mail cells (some list)) (hL : s.lists list = some L) :
    ∃ dll lists cells', s.dropEmpty list L.slDll = some { s with dll, lists } ∧ dll.Sorted s.text cells' ∧
      MessageOk dll.content mid cells' ∧ SenderOk dll.content lists senders se s.mail cells' none ∧
        ∀ a, s.lists a = none → lists a = none := by
  unfold dropEmpty
  rw [(hsort.family.linked (.entries list)).head]
  cases hcells : cells (.entries list) with
  | cons d l =>
    refine ⟨s.dll, s.lists, cells, rfl, hsort, hmsg, hsend.keep ?_, fun _ => id⟩
    rw [hcells]
    exact List.cons_ne_nil d l
  | nil =>
    obtain ⟨dll, cells', hremove, hsort', hj, hcontent, -⟩ :=
      DllHeap.dllRemoveEntry_spec hsort (hsend.list list L hL).1
    have hnot := Joined.not_mem hsort hj
    refine ⟨dll, Function.update s.lists list none, cells', by simp [hremove], hsort', ?_, ?_, ?_⟩
    · apply hmsg.frame (hj.others _ fun h => DllOf.noConfusion h).symm
      intro x hx
      rw [hj.others _ fun h => DllOf.noConfusion h] at hx
      rw [hcontent, Function.update_of_ne (ne_of_mem_of_not_mem hx (hnot _))]
    · rw [hcontent]
      exact hsend.drop hL hcells hj hnot
    · intro a ha
      by_cases hal : a = list
      · rw [hal, Function.update_self]
      · rwa [Function.update_of_ne hal]

/-- The envelope leaves the list of its sender. -/
theorem unlistSender_spec {mid : Nat → Option Nat} (hsort : s.dll.Sorted s.text cells)
    (hmsg : MessageOk s.dll.content mid cells)
    (hsend : SenderOk s.dll.content s.lists s.senders s.se s.mail cells none) (he : s.envs e = some env) :
    ∃ dll lists senders cells', s.unlistSender env = some { s with dll, lists, senders } ∧
      dll.Sorted s.text cells' ∧ MessageOk dll.content mid cells' ∧
      SenderOk dll.content lists senders (Function.update s.se e none) s.mail cells' none ∧
      (∀ a, s.lists a = none → lists a = none) ∧ ∀ a, s.senders a = none → senders a = none := by
  unfold unlistSender
  cases hse : env.eSenderEntry with
  | none =>
    refine ⟨s.dll, s.lists, s.senders, cells, rfl, hsort, hmsg, ?_, fun _ => id, fun _ => id⟩
    rw [Function.update_eq_self_iff.mpr ((se_eq he).trans hse).symm]
    exact hsend
  | some se =>
    obtain ⟨sl, d, hsd⟩ := hsend.entered e se ((se_eq he).trans hse)
    obtain ⟨-, hd, -, L, -, -, hL, -⟩ := hsend.filed se sl e d hsd
    obtain ⟨dll, cells₁, hremove, hsort₁, hj, hcontent, -⟩ := DllHeap.dllRemoveEntry_spec hsort hd
    have hnot := Joined.not_mem hsort hj
    let t : EnvIndex := { s with
      dll
      lists := Function.update s.lists sl (some { L with slNEntries := L.slNEntries - 1 }) }
    have hmsg₁ : MessageOk t.dll.content mid cells₁ := by
      apply hmsg.frame (hj.others _ fun h => DllOf.noConfusion h).symm
      intro x hx
      rw [hj.others _ fun h => DllOf.noConfusion h] at hx
      show dll.content x = _
      rw [hcontent, Function.update_of_ne (ne_of_mem_of_not_mem hx (hnot _))]
    have hsend₁ : SenderOk t.dll.content t.lists (Function.update s.senders se none) (Function.update s.se e none)
        t.mail cells₁ (some sl) := by
      show SenderOk dll.content _ _ _ _ _ _
      rw [hcontent]
      exact hsend.remove hsd hL hj hnot
    obtain ⟨dll', lists, cells', hdrop, hsort', hmsg', hsend', hlists⟩ :=
      dropEmpty_spec (s := t) hsort₁ hmsg₁ hsend₁ (Function.update_self ..)
    refine ⟨dll', lists, Function.update s.senders se none, cells', ?_, hsort', hmsg', hsend', ?_, ?_⟩
    · simp only [t] at hdrop
      simp [hsd, hremove, hL, hdrop]
    · intro a ha
      apply hlists
      show Function.update s.lists sl _ a = none
      rwa [Function.update_of_ne]
      rintro rfl
      rw [hL] at ha
      cases ha
    · intro a ha
      by_cases has : a = se
      · rw [has, Function.update_self]
      · rwa [Function.update_of_ne has]

/-- **An envelope is freed**: no entry is left that refers to it. -/
theorem envFree_spec (h : s.Holds cells none) (he : s.envs e = some env) : ∃ s' cells',
    s.envFree e = some s' ∧ s'.Holds cells' none ∧ s'.envs = Function.update s.envs e none := by
  obtain ⟨dll₁, cells₁, hunlist, hsort₁, hmsg₁, hsend₁⟩ := unlistMessage_spec h he
  let t : EnvIndex := { s with dll := dll₁ }
  obtain ⟨dll, lists, senders, cells', hunlist', hsort, hmsg, hsend, hlists, hsenders⟩ :=
    unlistSender_spec (s := t) hsort₁ hmsg₁ hsend₁ he
  refine ⟨{ t with dll, lists, senders, envs := Function.update s.envs e none }, cells', ?_, ⟨?_, ?_, ?_, ?_⟩, rfl⟩
  · simp only [t] at hunlist'
    simp [envFree, he, hunlist, hunlist', t]
  · -- no key is that of the envelope
    apply hsort.congr
    intro i d hd c hc
    have hshared : ∀ a, c.1 = .shared a → a ≠ e := by
      rintro a ha rfl
      cases i with
      | message =>
        obtain ⟨b, hb⟩ := hmsg.full d hd
        rw [(hmsg.filed b d hb).2] at hc
        cases hc
        cases ha
        rw [Function.update_self] at hb
        cases hb
      | sender =>
        obtain ⟨sl, L, hL, rfl⟩ := hsend.node d hd
        obtain ⟨-, ⟨k, hk⟩, -⟩ := hsend.list sl L hL
        rw [hk] at hc
        cases hc
        cases ha
      | entries sl =>
        obtain ⟨se, b, hse⟩ := hsend.full sl d hd
        obtain ⟨hb, -, hcb, -⟩ := hsend.filed se sl b d hse
        rw [hcb] at hc
        cases hc
        cases ha
        rw [Function.update_self] at hb
        cases hb
    cases hkey : c.1 with
    | copy key => rfl
    | shared a =>
      show (Function.update s.envs e none a).map (·.eId) = (s.envs a).map (·.eId)
      rw [Function.update_of_ne (hshared a hkey)]
  · show MessageOk dll.content (fun a => (Function.update s.envs e none a).bind (·.eEnvListEntry)) cells'
    rw [DllHeap.update_map]
    exact hmsg
  · show SenderOk dll.content lists senders (fun a => (Function.update s.envs e none a).bind (·.eSenderEntry))
      (fun a => (Function.update s.envs e none a).bind (·.eMail)) cells' none
    rw [DllHeap.update_map, DllHeap.update_map]
    apply hsend.frame (fun _ _ => rfl) fun _ _ _ _ => rfl
    intro a ha
    apply Function.update_of_ne
    rintro rfl
    exact ha (Function.update_self ..)
  · intro a ha
    obtain ⟨henv, hlist, hsender⟩ := h.below a ha
    refine ⟨?_, hlists a hlist, hsenders a hsender⟩
    show Function.update s.envs e none a = none
    by_cases hae : a = e
    · rw [hae, Function.update_self]
    · rwa [Function.update_of_ne hae]

/-! ## Writing and creating -/

/-- A function of `envelope.c` keeps the id, and the sender once it is set. -/
def Kept (env y : Envelope) : Prop := y.eId = env.eId ∧ ∀ m, env.eMail = some m → y.eMail = some m

theorem store_spec {y : Envelope} (h : s.Holds cells none) (he : s.envs e = some env)
    (hy : Kept env.toEnvelope y) : s.store e y = some (s.setEnv e { env with toEnvelope := y }) ∧
      (s.setEnv e { env with toEnvelope := y }).Holds cells none := by
  refine ⟨by simp [store, modEnv, he], Holds.setEnv he hy.1 h.sorted ?_ ?_ h.below⟩
  · show MessageOk _ (Function.update s.mid e env.eEnvListEntry) cells
    rw [← mid_eq he, Function.update_eq_self]
    exact h.message
  · show SenderOk _ _ _ (Function.update s.se e env.eSenderEntry) (Function.update s.mail e y.eMail) cells none
    rw [← se_eq he, Function.update_eq_self]
    apply h.sender.frame (fun _ _ => rfl) fun _ _ _ _ => rfl
    intro a ha
    by_cases hae : a = e
    · subst hae
      obtain ⟨se, hse⟩ := Option.ne_none_iff_exists'.mp ha
      obtain ⟨sl, d, hsd⟩ := h.sender.entered a se hse
      obtain ⟨-, -, -, L, k, m, -, -, hm, -⟩ := h.sender.filed se sl a d hsd
      rw [Function.update_self, hm]
      exact hy.2 m ((mail_eq he).symm.trans hm)
    · rw [Function.update_of_ne hae]

theorem envCreate_spec (h : s.Holds cells none) (conf : Conf) (dir : Dir) (id : Text) (eMail : Option Text)
    (parent : Option Envelope) : (s.envCreate conf dir id eMail parent).Holds cells none := by
  have hfresh := (h.below _ le_rfl).1
  have hnew : ∀ {β : Type} (f : IndexedEnvelope → Option β), (s.envs s.fresh).bind f = none := by
    intro β f
    rw [hfresh]
    rfl
  refine ⟨?_, ?_, ?_, ?_⟩
  · apply h.sorted.congr
    intro i d hd c hc
    obtain ⟨c', t, hc', ht⟩ := h.sorted.live i d hd
    rw [hc] at hc'
    cases hc'
    cases hkey : c.1 with
    | copy key => rfl
    | shared a =>
      show (Function.update s.envs s.fresh _ a).map (·.eId) = (s.envs a).map (·.eId)
      rw [Function.update_of_ne]
      rintro rfl
      rw [hkey] at ht
      have ht : (s.envs s.fresh).map (·.eId) = some t := ht
      rw [hfresh] at ht
      cases ht
  · show MessageOk _ (fun a => (Function.update s.envs s.fresh _ a).bind (·.eEnvListEntry)) cells
    rw [DllHeap.update_map]
    have hsame : Function.update s.mid s.fresh none = s.mid :=
      Function.update_eq_self_iff.mpr (hnew _).symm
    show MessageOk _ (Function.update s.mid s.fresh none) cells
    rw [hsame]
    exact h.message
  · show SenderOk _ _ _ (fun a => (Function.update s.envs s.fresh _ a).bind (·.eSenderEntry))
      (fun a => (Function.update s.envs s.fresh _ a).bind (·.eMail)) cells none
    rw [DllHeap.update_map, DllHeap.update_map]
    have hsame : Function.update s.se s.fresh none = s.se :=
      Function.update_eq_self_iff.mpr (hnew _).symm
    show SenderOk _ _ _ (Function.update s.se s.fresh none) (Function.update s.mail s.fresh _) cells none
    rw [hsame]
    apply h.sender.frame (fun _ _ => rfl) fun _ _ _ _ => rfl
    intro a ha
    apply Function.update_of_ne
    rintro rfl
    exact ha (hnew _)
  · intro a ha
    have ha : s.fresh + 1 ≤ a := ha
    obtain ⟨henv, hrest⟩ := h.below a (by omega)
    refine ⟨?_, hrest⟩
    show Function.update s.envs s.fresh _ a = none
    rwa [Function.update_of_ne (by omega)]

end EnvIndex

end Simta
