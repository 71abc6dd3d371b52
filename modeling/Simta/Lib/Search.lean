import Mathlib.Data.Finset.Card
import Mathlib.Data.List.Basic
import Mathlib.Logic.Relation

/-!
# Depth-first search with memos

A search over a graph whose vertices lie in a store.  A vertex is marked when the search comes by, a
marked vertex is passed over, and what the search learns of a vertex is kept in the store for the
searches to come.

* `Searching`, `Searching.Lawful` — how a search reads and writes its store;
* `search` — the search of a list of successors, in which `none` is the goal;
* `Found` — a chain to the goal, or to a vertex with a positive memo, past vertices without a memo;
* `search_spec` — what a search returns and leaves, from any store;
* `search_iff` — with nothing marked, the answer is `Found`, read in the store before the search;
* `search_preserves` — what marking and learning keep, a search keeps;
* `search_total` — the search ends when its vertices lie in a finite set;
* `search_right`, `NoWrong.search` — a negative memo that a search leaves is right unless its vertex
  lies on a cycle.
-/

set_option autoImplicit false

namespace Simta

/-- How a search reads and writes the store `σ` of its vertices. -/
structure Searching (V σ : Type) where
  succ : σ → V → List (Option V)
  seen : σ → V → Bool
  mark : V → σ → σ
  known : σ → V → Option Bool
  learn : V → Bool → σ → σ

namespace Searching

variable {V σ : Type}

/-- Marking a vertex and learning of it change the marks and the memos alone. -/
structure Lawful (S : Searching V σ) : Prop where
  succ_mark : ∀ v s, S.succ (S.mark v s) = S.succ s
  succ_learn : ∀ v b s, S.succ (S.learn v b s) = S.succ s
  seen_mark : ∀ v s w, S.seen (S.mark v s) w = true ↔ S.seen s w = true ∨ w = v
  seen_learn : ∀ v b s, S.seen (S.learn v b s) = S.seen s
  known_mark : ∀ v s, S.known (S.mark v s) = S.known s
  known_learn : ∀ v b s, S.known s v = none → S.known (S.learn v b s) v = some b
  known_learn_of_ne : ∀ v b s w, w ≠ v → S.known (S.learn v b s) w = S.known s w

/-! ## The search -/

variable (S : Searching V σ)

/-- One vertex; `below` searches its successors. -/
def visit (below : List (Option V) → σ → Option (Bool × σ)) (v : V) (s : σ) : Option (Bool × σ) :=
  if S.seen s v then some (false, s)
  else
    match S.known s v with
    | some b => some (b, S.mark v s)
    | none => (below (S.succ s v) (S.mark v s)).map fun r => (r.1, S.learn v r.1 r.2)

/-- The successors one after the other, up to the first by which the goal is found. -/
def visitAll (below : List (Option V) → σ → Option (Bool × σ)) :
    List (Option V) → σ → Option (Bool × σ)
  | [], s => some (false, s)
  | none :: _, s => some (true, s)
  | some v :: rest, s =>
    match S.visit below v s with
    | none => none
    | some (true, s) => some (true, s)
    | some (false, s) => visitAll below rest s

/-- The search, at most `depth` vertices deep. -/
def search : Nat → List (Option V) → σ → Option (Bool × σ)
  | 0 => fun _ _ => none
  | depth + 1 => S.visitAll (search depth)

/-! ## What it finds -/

/-- The goal is found from `v` by the memos of `s`. -/
inductive Found (s : σ) : V → Prop
  | memo {v : V} (h : S.known s v = some true) : Found s v
  | goal {v : V} (h : S.known s v = none) (hgoal : none ∈ S.succ s v) : Found s v
  | step {v w : V} (h : S.known s v = none) (hw : some w ∈ S.succ s v) (hfound : Found s w) : Found s v

/-- The goal is found from one of the successors. -/
def FoundIn (s : σ) (l : List (Option V)) : Prop := none ∈ l ∨ ∃ v, some v ∈ l ∧ S.Found s v

/-- A vertex from which the search has gone on in vain: it has no positive memo, and when it has no
    memo at all the search has come by all its successors. -/
structure Spent (s t : σ) (v : V) : Prop where
  memo : S.known s v ≠ some true
  goal : S.known s v = none → none ∉ S.succ s v
  next : S.known s v = none → ∀ w, some w ∈ S.succ s v → S.seen t w = true

variable {S} {s t u s₀ : σ} {v w : V} {l : List (Option V)} {b : Bool}

theorem Spent.mono (h : S.Spent s t v) (hseen : ∀ w, S.seen t w = true → S.seen u w = true) :
    S.Spent s u v := ⟨h.memo, h.goal, fun hv w hw => hseen w (h.next hv w hw)⟩

/-- A set of vertices that the search has all gone on from holds nothing that is found. -/
theorem not_found_of_spent (h : ∀ v, S.seen t v = true → S.Spent s t v) (hfound : S.Found s v) :
    S.seen t v ≠ true := by
  induction hfound with
  | memo hk => exact fun hv => (h _ hv).memo hk
  | goal hk hg => exact fun hv => (h _ hv).goal hk hg
  | step hk hw _ ih => exact fun hv => ih ((h _ hv).next hk _ hw)

/-! ## One search -/

/-- How the store stands while one search is under way that began in `s₀`: the graph is the same, and
    a vertex that is not marked has the memo it had. -/
structure Searched (S : Searching V σ) (s₀ s : σ) : Prop where
  succ : S.succ s = S.succ s₀
  known : ∀ v, S.seen s v ≠ true → S.known s v = S.known s₀ v
  yes : ∀ v, S.known s v = some true → S.Found s₀ v

/-- What a search from `s` comes to in `t`. -/
structure Outcome (S : Searching V σ) (s₀ s t : σ) (found : Prop) (b : Bool) : Prop where
  searched : S.Searched s₀ t
  seen : ∀ v, S.seen s v = true → S.seen t v = true
  memos : ∀ v, S.known s v ≠ none ∨ S.seen s v = true → S.known t v = S.known s v
  sound : b = true → found
  spent : b = false → ∀ v, S.seen t v = true → S.seen s v ≠ true → S.Spent s₀ t v

theorem Searched.refl : S.Searched s s := ⟨rfl, fun _ _ => rfl, fun _ h => .memo h⟩

theorem Outcome.refl {found : Prop} (h : S.Searched s₀ s) : S.Outcome s₀ s s found false :=
  ⟨h, fun _ h => h, fun _ _ => rfl, nofun, fun _ _ h h' => absurd h h'⟩

theorem Outcome.trans {found found' : Prop} (h : S.Outcome s₀ s t found false)
    (h' : S.Outcome s₀ t u found' b) : S.Outcome s₀ s u found' b where
  searched := h'.searched
  seen v hv := h'.seen v (h.seen v hv)
  memos v hv := by
    have hst := h.memos v hv
    rw [h'.memos v (hv.imp (by rw [hst]; exact id) (h.seen v)), hst]
  sound := h'.sound
  spent hb v hv hs := by
    by_cases ht : S.seen t v = true
    · exact (h.spent rfl v ht hs).mono h'.seen
    · exact h'.spent hb v hv ht

theorem Outcome.imp {found found' : Prop} (h : S.Outcome s₀ s t found b) (hf : found → found') :
    S.Outcome s₀ s t found' b := { h with sound := hf ∘ h.sound }

theorem Searched.mark (hS : S.Lawful) (h : S.Searched s₀ s) : S.Searched s₀ (S.mark v s) where
  succ := (hS.succ_mark v s).trans h.succ
  known w hw := by
    rw [hS.known_mark]
    exact h.known w fun hs => hw ((hS.seen_mark v s w).mpr (.inl hs))
  yes w hw := h.yes w (by rwa [hS.known_mark] at hw)

/-- What a search of successors has to do for the search of a vertex. -/
def SearchesBelow (S : Searching V σ) (s₀ : σ) (below : List (Option V) → σ → Option (Bool × σ)) : Prop :=
  ∀ l s b t, S.Searched s₀ s → below l s = some (b, t) →
    S.Outcome s₀ s t (S.FoundIn s₀ l) b ∧
      (b = false → none ∉ l ∧ ∀ w, some w ∈ l → S.seen t w = true)

variable {below : List (Option V) → σ → Option (Bool × σ)}

theorem visit_spec (hS : S.Lawful) (hbelow : S.SearchesBelow s₀ below) (hs : S.Searched s₀ s)
    (h : S.visit below v s = some (b, t)) :
    S.Outcome s₀ s t (S.Found s₀ v) b ∧ S.seen t v = true := by
  unfold visit at h
  split at h
  · rename_i hv
    cases h
    exact ⟨.refl hs, hv⟩
  · rename_i hv
    have hmarked : S.seen (S.mark v s) v = true := (hS.seen_mark v s v).mpr (.inr rfl)
    have hkv := hs.known v hv
    split at h
    · rename_i known hk
      cases h
      rw [hk] at hkv
      refine ⟨⟨hs.mark hS, fun w hw => (hS.seen_mark v s w).mpr (.inl hw), fun w _ => ?_, ?_, ?_⟩, hmarked⟩
      · rw [hS.known_mark]
      · rintro rfl
        exact .memo hkv.symm
      · rintro rfl w hw hws
        obtain rfl := ((hS.seen_mark v s w).mp hw).resolve_left hws
        exact ⟨by simp [← hkv], by simp [← hkv], by simp [← hkv]⟩
    · rename_i hk
      obtain ⟨⟨b', t'⟩, hb, heq⟩ := Option.map_eq_some_iff.mp h
      cases heq
      obtain ⟨hout, hnext⟩ := hbelow _ _ _ _ (hs.mark hS) hb
      rw [hk] at hkv
      have hsucc : S.succ s v = S.succ s₀ v := congrFun hs.succ v
      have ht' : S.seen t' v = true := hout.seen v hmarked
      have hk' : S.known t' v = none := by rw [hout.memos v (.inr hmarked), hS.known_mark, hk]
      have hlearned : S.known (S.learn v b' t') v = some b' := hS.known_learn v b' t' hk'
      have hfound : b' = true → S.Found s₀ v := by
        intro htrue
        rcases hout.sound htrue with hg | ⟨w, hw, hf⟩
        · exact .goal hkv.symm (by rwa [← hsucc])
        · exact .step hkv.symm (by rwa [← hsucc]) hf
      refine ⟨⟨⟨(hS.succ_learn v b' t').trans hout.searched.succ, fun w hw => ?_, fun w hw => ?_⟩,
        fun w hw => ?_, fun w hw => ?_, hfound, fun hb' w hw hws => ?_⟩, by rwa [hS.seen_learn]⟩
      · rw [hS.seen_learn] at hw
        rw [hS.known_learn_of_ne v b' t' w (by rintro rfl; exact hw ht')]
        exact hout.searched.known w hw
      · by_cases hwv : w = v
        · subst hwv
          rw [hlearned] at hw
          exact hfound (by simpa using hw)
        · rw [hS.known_learn_of_ne v b' t' w hwv] at hw
          exact hout.searched.yes w hw
      · rw [hS.seen_learn]
        exact hout.seen w ((hS.seen_mark v s w).mpr (.inl hw))
      · have hwv : w ≠ v := by
          rintro rfl
          exact hw.elim (absurd hk) hv
        rw [hS.known_learn_of_ne v b' t' w hwv, hout.memos w, hS.known_mark]
        rw [hS.known_mark]
        exact hw.imp_right fun h => (hS.seen_mark v s w).mpr (.inl h)
      · rw [hS.seen_learn] at hw
        obtain ⟨hgoal, hseen⟩ := hnext hb'
        have hmono : ∀ x, S.seen t' x = true → S.seen (S.learn v b' t') x = true := by
          rw [hS.seen_learn]
          exact fun _ h => h
        by_cases hwv : w = v
        · subst hwv
          exact ⟨by simp [← hkv], fun _ => hsucc ▸ hgoal, fun _ x hx => hmono x (hseen x (hsucc ▸ hx))⟩
        · have hws' : S.seen (S.mark v s) w ≠ true := fun h =>
            ((hS.seen_mark v s w).mp h).elim hws hwv
          exact (hout.spent hb' w hw hws').mono hmono

theorem visitAll_spec (hS : S.Lawful) (hbelow : S.SearchesBelow s₀ below) :
    S.SearchesBelow s₀ (S.visitAll below) := by
  intro l
  induction l with
  | nil =>
    intro s b t hs h
    cases h
    exact ⟨.refl hs, fun _ => ⟨by simp, by simp⟩⟩
  | cons x rest ih =>
    intro s b t hs h
    cases x with
    | none =>
      cases h
      exact ⟨⟨hs, fun _ h => h, fun _ _ => rfl, fun _ => .inl List.mem_cons_self, nofun⟩, nofun⟩
    | some v =>
      rw [visitAll] at h
      split at h
      · cases h
      · rename_i t' hv
        cases h
        obtain ⟨hout, -⟩ := visit_spec hS hbelow hs hv
        exact ⟨hout.imp fun hf => .inr ⟨v, List.mem_cons_self, hf⟩, nofun⟩
      · rename_i t' hv
        obtain ⟨hout, hseen⟩ := visit_spec hS hbelow hs hv
        obtain ⟨hrest, hnext⟩ := ih t' b t hout.searched h
        have hin : S.FoundIn s₀ rest → S.FoundIn s₀ (some v :: rest) := by
          rintro (hg | ⟨w, hw, hf⟩)
          · exact .inl (List.mem_cons_of_mem _ hg)
          · exact .inr ⟨w, List.mem_cons_of_mem _ hw, hf⟩
        refine ⟨hout.trans (hrest.imp hin), fun hb => ?_⟩
        obtain ⟨hg, hall⟩ := hnext hb
        refine ⟨by simpa using hg, fun w hw => ?_⟩
        rcases List.mem_cons.mp hw with hwv | hw
        · cases hwv
          exact hrest.seen v hseen
        · exact hall w hw

/-- **What a search returns and leaves**, from any store of the search that began in `s₀`. -/
theorem search_spec (hS : S.Lawful) (depth : Nat) : S.SearchesBelow s₀ (S.search depth) := by
  induction depth with
  | zero => exact fun _ _ _ _ _ h => by cases h
  | succ depth ih => exact visitAll_spec hS ih

/-- **A search of an unmarked graph is exact for the memos it starts with.** -/
theorem search_iff (hS : S.Lawful) {depth : Nat} (hfresh : ∀ v, S.seen s v = false)
    (h : S.search depth l s = some (b, t)) : b = true ↔ S.FoundIn s l := by
  obtain ⟨hout, hnext⟩ := search_spec hS depth l s b t .refl h
  refine ⟨hout.sound, fun hfound => ?_⟩
  by_contra hb
  rw [Bool.not_eq_true] at hb
  obtain ⟨hgoal, hseen⟩ := hnext hb
  have hspent : ∀ v, S.seen t v = true → S.Spent s t v := fun v hv =>
    hout.spent hb v hv (by simp [hfresh])
  rcases hfound with hg | ⟨v, hv, hf⟩
  · exact hgoal hg
  · exact not_found_of_spent hspent hf (hseen v hv)

/-! ## The memos it leaves -/

/-- An edge of the graph. -/
def Edge (S : Searching V σ) (s : σ) (v w : V) : Prop := some w ∈ S.succ s v

/-- The vertex lies on a cycle. -/
def OnCycle (S : Searching V σ) (s : σ) (v : V) : Prop := Relation.TransGen (S.Edge s) v v

/-- A vertex that the search has come by and not yet gone on from. -/
def Pending (S : Searching V σ) (s₀ s : σ) (v : V) : Prop := S.seen s v = true ∧ ¬ S.Spent s₀ s v

/-- A found vertex that the search has come by leads to one that is pending. -/
theorem Found.pending (h : S.Found s₀ v) (hv : S.seen s v = true) :
    ∃ g, S.Pending s₀ s g ∧ Relation.ReflTransGen (S.Edge s₀) v g := by
  induction h with
  | memo hk => exact ⟨_, ⟨hv, fun h => h.memo hk⟩, .refl⟩
  | goal hk hg => exact ⟨_, ⟨hv, fun h => h.goal hk hg⟩, .refl⟩
  | @step x w hk hw _ ih =>
    by_cases hspent : S.Spent s₀ s x
    · obtain ⟨g, hg, hpath⟩ := ih (hspent.next hk w hw)
      exact ⟨g, hg, .head hw hpath⟩
    · exact ⟨x, ⟨hv, hspent⟩, .refl⟩

theorem Outcome.pending {found : Prop} (h : S.Outcome s₀ s t found false) (hv : S.Pending s₀ t v) :
    S.Pending s₀ s v := by
  by_cases hs : S.seen s v = true
  · exact ⟨hs, fun hspent => hv.2 (hspent.mono h.seen)⟩
  · exact absurd (h.spent rfl v hv.1 hs) hv.2

/-- The negative memos of `t` are those of `s`, and such as are right unless their vertex lies on a
    cycle. -/
def Right (S : Searching V σ) (s₀ s t : σ) : Prop :=
  ∀ v, S.known t v = some false → S.known s v = some false ∨ (S.Found s₀ v → S.OnCycle s₀ v)

theorem Right.trans (h : S.Right s₀ s t) (h' : S.Right s₀ t u) : S.Right s₀ s u := fun v hv =>
  (h' v hv).elim (h v) .inr

/-- A search whose pending vertices lead to all that it is to search. -/
def RightBelow (S : Searching V σ) (s₀ : σ) (below : List (Option V) → σ → Option (Bool × σ)) : Prop :=
  ∀ l s b t, S.Searched s₀ s →
    (∀ g v, S.Pending s₀ s g → some v ∈ l → Relation.TransGen (S.Edge s₀) g v) →
    below l s = some (b, t) → S.Right s₀ s t

theorem visit_right (hS : S.Lawful) (hbelow : S.SearchesBelow s₀ below) (hright : S.RightBelow s₀ below)
    (hs : S.Searched s₀ s) (hpend : ∀ g, S.Pending s₀ s g → Relation.TransGen (S.Edge s₀) g v)
    (h : S.visit below v s = some (b, t)) : S.Right s₀ s t := by
  obtain ⟨hout, hseen⟩ := visit_spec hS hbelow hs h
  unfold visit at h
  split at h
  · cases h
    exact fun w hw => .inl hw
  · split at h
    · cases h
      intro w hw
      rw [hS.known_mark] at hw
      exact .inl hw
    · obtain ⟨⟨b', t'⟩, hb, heq⟩ := Option.map_eq_some_iff.mp h
      cases heq
      have hsucc : S.succ s v = S.succ s₀ v := congrFun hs.succ v
      have hpend' : ∀ g w, S.Pending s₀ (S.mark v s) g → some w ∈ S.succ s v →
          Relation.TransGen (S.Edge s₀) g w := by
        intro g w hg hw
        rw [hsucc] at hw
        rcases (hS.seen_mark v s g).mp hg.1 with hgs | rfl
        · have hspent : ¬ S.Spent s₀ s g := fun h =>
            hg.2 (h.mono fun x hx => (hS.seen_mark v s x).mpr (.inl hx))
          exact (hpend g ⟨hgs, hspent⟩).tail hw
        · exact .single hw
      have hrest := hright _ _ _ _ (hs.mark hS) hpend' hb
      intro w hw
      by_cases hwv : w = v
      · subst hwv
        have hmarked : S.seen (S.mark w s) w = true := (hS.seen_mark w s w).mpr (.inr rfl)
        cases b' with
        | true =>
          obtain ⟨hout', -⟩ := hbelow _ _ _ _ (hs.mark hS) hb
          by_cases hk : S.known t' w = none
          · rw [hS.known_learn w true t' hk] at hw
            cases hw
          · rw [hout'.memos w (.inr hmarked), hS.known_mark] at hk
            contradiction
        | false =>
          refine .inr fun hfound => ?_
          obtain ⟨g, hg, hpath⟩ := hfound.pending hseen
          exact Relation.TransGen.trans_right hpath (hpend g (hout.pending hg))
      · rw [hS.known_learn_of_ne v b' t' w hwv] at hw
        have h' := hrest w hw
        rwa [hS.known_mark] at h'

theorem visitAll_right (hS : S.Lawful) (hbelow : S.SearchesBelow s₀ below) (hright : S.RightBelow s₀ below) :
    S.RightBelow s₀ (S.visitAll below) := by
  intro l
  induction l with
  | nil =>
    intro s b t _ _ h
    cases h
    exact fun v hv => .inl hv
  | cons x rest ih =>
    intro s b t hs hpend h
    cases x with
    | none =>
      cases h
      exact fun v hv => .inl hv
    | some v =>
      have hpendv : ∀ g, S.Pending s₀ s g → Relation.TransGen (S.Edge s₀) g v :=
        fun g hg => hpend g v hg List.mem_cons_self
      rw [visitAll] at h
      split at h
      · cases h
      · rename_i t' hv
        cases h
        exact visit_right hS hbelow hright hs hpendv hv
      · rename_i t' hv
        obtain ⟨hout, -⟩ := visit_spec hS hbelow hs hv
        refine (visit_right hS hbelow hright hs hpendv hv).trans (ih t' b t hout.searched ?_ h)
        exact fun g w hg hw => hpend g w (hout.pending hg) (List.mem_cons_of_mem _ hw)

/-- **A search of an unmarked graph leaves no wrong negative memo but on a cycle.** -/
theorem search_right (hS : S.Lawful) {depth : Nat} (hfresh : ∀ v, S.seen s v = false)
    (h : S.search depth l s = some (b, t)) : S.Right s s t := by
  have hbelow : ∀ depth, S.RightBelow s (S.search depth) := by
    intro depth
    induction depth with
    | zero => exact fun _ _ _ _ _ _ h => by cases h
    | succ depth ih => exact visitAll_right hS (search_spec hS depth) ih
  refine hbelow depth l s b t .refl (fun g v hg => ?_) h
  exact absurd hg.1 (by simp [hfresh])

/-! ## One search after the other -/

/-- `s` has the graph of `s₀` and its memos, and further memos of which the positive ones are right. -/
structure Descends (S : Searching V σ) (s₀ s : σ) : Prop where
  succ : S.succ s = S.succ s₀
  kept : ∀ v, S.known s₀ v ≠ none → S.known s v = S.known s₀ v
  yes : ∀ v, S.known s v = some true → S.Found s₀ v

theorem Descends.refl : S.Descends s s := ⟨rfl, fun _ _ => rfl, fun _ h => .memo h⟩

theorem Descends.none (h : S.Descends s₀ s) (hv : S.known s v = none) : S.known s₀ v = none := by
  by_contra hne
  rw [h.kept v hne] at hv
  exact hne hv

theorem Descends.found (h : S.Descends s₀ s) (hf : S.Found s v) : S.Found s₀ v := by
  induction hf with
  | memo hk => exact h.yes _ hk
  | goal hk hg => exact .goal (h.none hk) (by rwa [← h.succ])
  | step hk hw _ ih => exact .step (h.none hk) (by rwa [← h.succ]) ih

theorem Descends.foundIn (h : S.Descends s₀ s) (hf : S.FoundIn s l) : S.FoundIn s₀ l :=
  hf.imp_right fun ⟨v, hv, hf⟩ => ⟨v, hv, h.found hf⟩

theorem Descends.search (hS : S.Lawful) {depth : Nat} (h : S.Descends s₀ s)
    (hrun : S.search depth l s = some (b, t)) : S.Descends s₀ t := by
  obtain ⟨hout, -⟩ := search_spec hS depth l s b t .refl hrun
  refine ⟨hout.searched.succ.trans h.succ, fun v hv => ?_, fun v hv => h.found (hout.searched.yes v hv)⟩
  have hs := h.kept v hv
  rw [hout.memos v (.inl (by rwa [hs])), hs]

/-- A store without a wrong negative memo. -/
def NoWrong (S : Searching V σ) (s₀ s : σ) : Prop := ∀ v, S.known s v = some false → ¬ S.Found s₀ v

theorem Descends.found_iff (h : S.Descends s₀ s) (hno : S.NoWrong s₀ s) : S.Found s v ↔ S.Found s₀ v := by
  refine ⟨h.found, fun hf => ?_⟩
  induction hf with
  | memo hk =>
    apply Found.memo
    rw [h.kept _ (by simp [hk]), hk]
  | @goal x hk hg =>
    rcases hkx : S.known s x with _ | _ | _
    · exact .goal hkx (by rwa [h.succ])
    · exact absurd (.goal hk hg) (hno x hkx)
    · exact .memo hkx
  | @step x w hk hw hf ih =>
    rcases hkx : S.known s x with _ | _ | _
    · exact .step hkx (by rwa [h.succ]) ih
    · exact absurd (.step hk hw hf) (hno x hkx)
    · exact .memo hkx

/-- **Where no found vertex lies on a cycle, no search leaves a wrong negative memo.** -/
theorem NoWrong.search (hS : S.Lawful) {depth : Nat} (hno : S.NoWrong s₀ s) (h : S.Descends s₀ s)
    (hacyclic : ∀ v, S.Found s₀ v → ¬ S.OnCycle s₀ v) (hfresh : ∀ v, S.seen s v = false)
    (hrun : S.search depth l s = some (b, t)) : S.NoWrong s₀ t := by
  intro v hv hf
  rcases search_right hS hfresh hrun v hv with hs | hcycle
  · exact hno v hs hf
  · have hon := hcycle ((h.found_iff hno).mpr hf)
    refine hacyclic v hf ?_
    unfold OnCycle Edge at hon ⊢
    rwa [h.succ] at hon

/-! ## What a search leaves alone -/

section Preserves

variable {P : σ → Prop}

theorem visitAll_preserves (hmark : ∀ v s, P s → P (S.mark v s)) (hlearn : ∀ v b s, P s → P (S.learn v b s))
    (hbelow : ∀ l s b t, below l s = some (b, t) → P s → P t) (l : List (Option V)) :
    ∀ s b t, S.visitAll below l s = some (b, t) → P s → P t := by
  induction l with
  | nil =>
    intro s b t h
    cases h
    exact id
  | cons x rest ih =>
    intro s b t h hs
    cases x with
    | none =>
      cases h
      exact hs
    | some v =>
      have hvisit : ∀ b t, S.visit below v s = some (b, t) → P t := by
        intro b t hv
        unfold visit at hv
        split at hv
        · cases hv
          exact hs
        · split at hv
          · cases hv
            exact hmark v s hs
          · obtain ⟨⟨b', t'⟩, hb, heq⟩ := Option.map_eq_some_iff.mp hv
            cases heq
            exact hlearn v b' t' (hbelow _ _ _ _ hb (hmark v s hs))
      rw [visitAll] at h
      split at h
      · cases h
      · rename_i hv
        cases h
        exact hvisit _ _ hv
      · rename_i hv
        exact ih _ _ _ h (hvisit _ _ hv)

/-- **What marking and learning keep, a search keeps.** -/
theorem search_preserves (hmark : ∀ v s, P s → P (S.mark v s)) (hlearn : ∀ v b s, P s → P (S.learn v b s))
    {depth : Nat} (h : S.search depth l s = some (b, t)) : P s → P t := by
  have hall : ∀ depth l s b t, S.search depth l s = some (b, t) → P s → P t := by
    intro depth
    induction depth with
    | zero => exact fun _ _ _ _ h => by cases h
    | succ depth ih => exact visitAll_preserves hmark hlearn ih
  exact hall depth l s b t h

end Preserves

/-! ## It ends -/

section Total

variable {U : Finset V} {depth : Nat}

/-- The vertices of `U` that the search has not come by. -/
def unseen (S : Searching V σ) (U : Finset V) (s : σ) : Finset V := U.filter fun v => S.seen s v = false

theorem unseen_card_le (h : ∀ v, S.seen s v = true → S.seen t v = true) :
    (S.unseen U t).card ≤ (S.unseen U s).card := by
  refine Finset.card_le_card fun v hv => ?_
  obtain ⟨hU, ht⟩ := Finset.mem_filter.mp hv
  refine Finset.mem_filter.mpr ⟨hU, ?_⟩
  by_contra hs
  rw [h v (by simpa using hs)] at ht
  cases ht

theorem unseen_mark_card_lt (hS : S.Lawful) (hv : v ∈ U) (hs : S.seen s v = false) :
    (S.unseen U (S.mark v s)).card < (S.unseen U s).card := by
  refine Finset.card_lt_card (Finset.ssubset_iff_subset_ne.mpr ⟨fun w hw => ?_, fun heq => ?_⟩)
  · obtain ⟨hU, hw⟩ := Finset.mem_filter.mp hw
    refine Finset.mem_filter.mpr ⟨hU, ?_⟩
    by_contra hs'
    rw [(hS.seen_mark v s w).mpr (.inl (by simpa using hs'))] at hw
    cases hw
  · have hmem : v ∈ S.unseen U s := Finset.mem_filter.mpr ⟨hv, hs⟩
    rw [← heq] at hmem
    have hmarked := (Finset.mem_filter.mp hmem).2
    rw [(hS.seen_mark v s v).mpr (.inr rfl)] at hmarked
    cases hmarked

/-- `U` is closed under the edges of the graph. -/
def Closed (S : Searching V σ) (U : Finset V) (s : σ) : Prop :=
  ∀ v ∈ U, ∀ w, some w ∈ S.succ s v → w ∈ U

theorem Closed.congr (h : S.Closed U s) (ht : S.succ t = S.succ s) : S.Closed U t := by
  intro v hv w hw
  rw [ht] at hw
  exact h v hv w hw

theorem visitAll_total (hS : S.Lawful) (hbelow : ∀ s, S.SearchesBelow s below)
    (htotal : ∀ l s, S.Closed U s → (∀ w, some w ∈ l → w ∈ U) → (S.unseen U s).card < depth →
      ∃ r, below l s = some r) (l : List (Option V)) : ∀ s, S.Closed U s → (∀ w, some w ∈ l → w ∈ U) →
    (S.unseen U s).card < depth + 1 → ∃ r, S.visitAll below l s = some r := by
  induction l with
  | nil => exact fun s _ _ _ => ⟨_, rfl⟩
  | cons x rest ih =>
    intro s hclosed hl hcard
    cases x with
    | none => exact ⟨_, rfl⟩
    | some v =>
      have hv : v ∈ U := hl v List.mem_cons_self
      have hvisit : ∃ r, S.visit below v s = some r := by
        unfold visit
        split
        · exact ⟨_, rfl⟩
        · rename_i hseen
          split
          · exact ⟨_, rfl⟩
          · have hlt := unseen_mark_card_lt hS hv (by simpa using hseen)
            obtain ⟨r, hr⟩ := htotal (S.succ s v) (S.mark v s) (hclosed.congr (hS.succ_mark v s))
              (hclosed v hv) (by omega)
            rw [hr]
            exact ⟨_, rfl⟩
      obtain ⟨⟨b, t⟩, hr⟩ := hvisit
      rw [visitAll, hr]
      cases b with
      | true => exact ⟨_, rfl⟩
      | false =>
        obtain ⟨hout, -⟩ := visit_spec hS (hbelow s) .refl hr
        have hle := unseen_card_le (U := U) hout.seen
        exact ih t (hclosed.congr hout.searched.succ) (fun w hw => hl w (List.mem_cons_of_mem _ hw)) (by omega)

/-- **A search ends** when it may go deeper than the number of vertices it has not come by. -/
theorem search_total (hS : S.Lawful) (depth : Nat) : ∀ l s, S.Closed U s → (∀ w, some w ∈ l → w ∈ U) →
    (S.unseen U s).card < depth → ∃ r, S.search depth l s = some r := by
  induction depth with
  | zero => exact fun _ _ _ _ h => absurd h (Nat.not_lt_zero _)
  | succ depth ih => exact visitAll_total hS (fun _ => search_spec hS depth) ih

end Total

end Searching

end Simta
