import Mathlib.Data.List.Induction
import Simta.Lib.World

/-!
# Monitors

A monitor follows a log of events with a state of its own and a relation that says which event it takes in which
state.  A program that writes a log is tied to it by an invariant of its runs, and the rules for these need not
know what the program does elsewhere.

* `Traced` — the monitor follows a log from one state to another;
* `Traced.split` — it does so event by event;
* `Stateful.Fixes` — a program leaves a view of its state alone, whatever the world does;
* `Stateful.Preserves` — every run keeps an invariant of the state.
-/

set_option autoImplicit false

namespace Simta

/-! ## Logs -/

section Traced

variable {ε χ : Type} {step : χ → ε → χ → Prop} {a b c : χ} {e : ε} {l l' : List ε}

/-- The monitor gets from `a` to a state by the events of a log. -/
inductive Traced (step : χ → ε → χ → Prop) (a : χ) : List ε → χ → Prop
  | nil : Traced step a [] a
  | snoc {l : List ε} {e : ε} {b c : χ} (h : Traced step a l b) (he : step b e c) : Traced step a (l ++ [e]) c

theorem traced_nil_iff : Traced step a [] b ↔ b = a := by
  constructor
  · intro h
    generalize hl : ([] : List ε) = l at h
    cases h with
    | nil => rfl
    | snoc h he => simp at hl
  · rintro rfl
    exact .nil

theorem traced_snoc_iff : Traced step a (l ++ [e]) c ↔ ∃ b, Traced step a l b ∧ step b e c := by
  constructor
  · intro h
    generalize hl : l ++ [e] = k at h
    cases h with
    | nil => simp at hl
    | snoc h he =>
      obtain ⟨rfl, hlast⟩ := List.append_inj' hl rfl
      cases hlast
      exact ⟨_, h, he⟩
  · rintro ⟨b, h, he⟩
    exact h.snoc he

/-- One log behind another. -/
theorem Traced.append_iff : Traced step a (l ++ l') c ↔ ∃ b, Traced step a l b ∧ Traced step b l' c := by
  induction l' using List.reverseRecOn generalizing c with
  | nil => simp [traced_nil_iff]
  | append_singleton l' e ih =>
    rw [← List.append_assoc, traced_snoc_iff]
    simp only [ih, traced_snoc_iff]
    constructor
    · rintro ⟨d, ⟨b, hb, hd⟩, he⟩
      exact ⟨b, hb, d, hd, he⟩
    · rintro ⟨b, hb, d, hd, he⟩
      exact ⟨d, ⟨b, hb, hd⟩, he⟩

/-- **Each event of a log is one that the monitor takes.** -/
theorem Traced.split (h : Traced step a (l ++ e :: l') c) :
    ∃ d d', Traced step a l d ∧ step d e d' ∧ Traced step d' l' c := by
  rw [List.append_cons, Traced.append_iff] at h
  obtain ⟨d', h₁, h₂⟩ := h
  obtain ⟨d, hd, he⟩ := traced_snoc_iff.mp h₁
  exact ⟨d, d', hd, he, h₂⟩

/-- What every step keeps holds behind every log. -/
theorem Traced.invariant {I : χ → Prop} (hstep : ∀ b e c, step b e c → I b → I c) (h : Traced step a l b)
    (ha : I a) : I b := by
  induction h with
  | nil => exact ha
  | snoc _ he ih => exact hstep _ _ _ he ih

end Traced

/-! ## Programs -/

namespace Stateful

variable {ρ Op : Type} {Ans : Op → Type} {α β σ γ : Type} {R : Prog.World Op Ans σ} {view : ρ → γ} {I : ρ → Prop}

/-- No run changes what `view` shows of the state. -/
def Fixes (R : Prog.World Op Ans σ) (view : ρ → γ) (m : Stateful ρ Op Ans α) : Prop :=
  ∀ r s, m.wlp R (fun _ r' _ => view r' = view r) r s

/-- Every run from a state in `I` ends in one. -/
def Preserves (R : Prog.World Op Ans σ) (I : ρ → Prop) (m : Stateful ρ Op Ans α) : Prop :=
  ∀ r s, I r → m.wlp R (fun _ r' _ => I r') r s

theorem fixes_of_same {m : Stateful ρ Op Ans α} (h : ∀ r s, m.wlp R (fun _ r' _ => r' = r) r s) :
    Fixes R view m := fun r s => wlp_mono (fun _ _ _ hr => congrArg view hr) (h r s)

theorem fixes_pure (a : α) : Fixes R view (pure a : Stateful ρ Op Ans α) := fun _ _ => rfl

theorem fixes_get : Fixes R view (get : Stateful ρ Op Ans ρ) := fun _ _ => rfl

theorem fixes_modify {f : ρ → ρ} (hf : ∀ r, view (f r) = view r) :
    Fixes R view (modify f : Stateful ρ Op Ans PUnit) := fun r _ => hf r

theorem fixes_ask (op : Op) : Fixes R view (ask op : Stateful ρ Op Ans (Ans op)) := fun _ _ _ _ _ => rfl

theorem fixes_bind {m : Stateful ρ Op Ans α} {g : α → Stateful ρ Op Ans β} (hm : Fixes R view m)
    (hg : ∀ a, Fixes R view (g a)) : Fixes R view (m >>= g) := by
  intro r s
  refine wlp_seq (hm r s) ?_
  intro a r' s' hr
  exact wlp_mono (fun _ _ _ h => h.trans hr) (hg a r' s')

/-- An invariant that the view decides is kept by what leaves the view alone. -/
theorem Fixes.preserves {m : Stateful ρ Op Ans α} (hm : Fixes R view m)
    (hI : ∀ r r', view r' = view r → I r → I r') : Preserves R I m :=
  fun r s hr => wlp_mono (fun _ r' _ h => hI r r' h hr) (hm r s)

/-- What goes on behind a program that leaves the view alone. -/
theorem Fixes.then {m : Stateful ρ Op Ans α} {g : α → Stateful ρ Op Ans β} {Q : β → ρ → σ → Prop} {r : ρ} {s : σ}
    (hm : Fixes R view m) (hg : ∀ a r' s', view r' = view r → (g a).wlp R Q r' s') : (m >>= g).wlp R Q r s :=
  wlp_seq (hm r s) hg

theorem preserves_pure (a : α) : Preserves R I (pure a : Stateful ρ Op Ans α) := fun _ _ h => h

theorem preserves_bind {m : Stateful ρ Op Ans α} {g : α → Stateful ρ Op Ans β} (hm : Preserves R I m)
    (hg : ∀ a, Preserves R I (g a)) : Preserves R I (m >>= g) := by
  intro r s hr
  exact wlp_seq (hm r s hr) fun a r' s' h => hg a r' s' h

theorem preserves_get {g : ρ → Stateful ρ Op Ans β} (hg : ∀ r, Preserves R I (g r)) :
    Preserves R I ((get : Stateful ρ Op Ans ρ) >>= g) := fun r s hr => hg r r s hr

end Stateful

end Simta
