import Mathlib.Data.List.Basic

/-!
# Programs of fallible operations

A program here is a tree of *operations*: it asks for one operation, reads its answer and goes
on.  What an operation does to the world is given by a handler, so one program can be run
against a world in which every call succeeds, or against one in which any call may fail.

* `Prog.run` — the result and the final world of a run;
* `Prog.states` — every world the run passes through, which is where it can be cut short;
* `Prog.wp` — the precondition under which a run ends in `Q` and never leaves `C`;
* `Prog.wpF` — the same when each call may take its failing handler instead;
* `Prog.ends` — the postcondition alone, for a run that nothing cuts short.

`wp_iff_run` and `wpF_iff` tie the two predicates to the runs themselves.
-/

set_option autoImplicit false

namespace Simta

/-- A program over operations `Op` answered by `Ans`. -/
inductive Prog (Op : Type) (Ans : Op → Type) (α : Type) : Type
  | ret (a : α) : Prog Op Ans α
  | call (op : Op) (k : Ans op → Prog Op Ans α) : Prog Op Ans α

namespace Prog

variable {Op : Type} {Ans : Op → Type} {α β σ : Type}

/-- What an operation answers and how it changes the world. -/
abbrev Handler (Op : Type) (Ans : Op → Type) (σ : Type) : Type := (op : Op) → σ → Ans op × σ

/-- Ask for one operation. -/
def perform (op : Op) : Prog Op Ans (Ans op) := call op ret

/-- Sequencing. -/
def bind : Prog Op Ans α → (α → Prog Op Ans β) → Prog Op Ans β
  | ret a, f => f a
  | call op k, f => call op fun a => (k a).bind f

instance : Monad (Prog Op Ans) where
  pure := ret
  bind := bind

/-- The result and the final world. -/
def run (h : Handler Op Ans σ) : Prog Op Ans α → σ → α × σ
  | ret a, s => (a, s)
  | call op k, s => (k (h op s).1).run h (h op s).2

/-- Every world a run passes through, first to last. -/
def states (h : Handler Op Ans σ) : Prog Op Ans α → σ → List σ
  | ret _, s => [s]
  | call op k, s => s :: (k (h op s).1).states h (h op s).2

/-- A run from `s` ends in `Q`, and `C` holds wherever it may be cut short. -/
def wp (h : Handler Op Ans σ) (p : Prog Op Ans α) (Q : α → σ → Prop) (C : σ → Prop) (s : σ) : Prop :=
  match p with
  | ret a => Q a s ∧ C s
  | call op k => C s ∧ (k (h op s).1).wp h Q C (h op s).2

/-- `wp` for a world in which every call may take the handler `f` in place of `h`. -/
def wpF (h f : Handler Op Ans σ) (p : Prog Op Ans α) (Q : α → σ → Prop) (C : σ → Prop)
    (s : σ) : Prop :=
  match p with
  | ret a => Q a s ∧ C s
  | call op k => C s ∧ (k (h op s).1).wpF h f Q C (h op s).2 ∧ (k (f op s).1).wpF h f Q C (f op s).2

/-- The handler that follows a schedule: `true` at the head of the schedule makes the call fail,
    and a schedule that has run out fails nothing more. -/
def scheduled (h f : Handler Op Ans σ) : Handler Op Ans (σ × List Bool)
  | op, (s, []) => ((h op s).1, (h op s).2, [])
  | op, (s, b :: bs) => if b then ((f op s).1, (f op s).2, bs) else ((h op s).1, (h op s).2, bs)

/-! ## The two readings of a program -/

@[simp] theorem pure_eq_ret (a : α) : (pure a : Prog Op Ans α) = ret a := rfl

@[simp] theorem bind_eq (p : Prog Op Ans α) (f : α → Prog Op Ans β) : p >>= f = p.bind f := rfl

@[simp] theorem ret_bind (a : α) (f : α → Prog Op Ans β) : (ret a).bind f = f a := rfl

@[simp] theorem perform_bind (op : Op) (f : Ans op → Prog Op Ans β) :
    (perform op).bind f = call op f := rfl

theorem bind_assoc {γ : Type} (p : Prog Op Ans α) (f : α → Prog Op Ans β) (g : β → Prog Op Ans γ) :
    (p.bind f).bind g = p.bind fun a => (f a).bind g := by
  induction p with
  | ret a => rfl
  | call op k ih => simp only [bind, ih]

theorem run_bind (h : Handler Op Ans σ) (p : Prog Op Ans α) (f : α → Prog Op Ans β) (s : σ) :
    (p.bind f).run h s = (f (p.run h s).1).run h (p.run h s).2 := by
  induction p generalizing s with
  | ret a => rfl
  | call op k ih => simp only [bind, run, ih]

theorem run_mem_states (h : Handler Op Ans σ) (p : Prog Op Ans α) (s : σ) :
    (p.run h s).2 ∈ p.states h s := by
  induction p generalizing s with
  | ret a => exact List.mem_singleton.mpr rfl
  | call op k ih => exact List.mem_cons_of_mem _ (ih _ _)

/-- **`wp` speaks of runs**: it is the postcondition of the run together with `C` at every
    world on the way. -/
theorem wp_iff_run (h : Handler Op Ans σ) (p : Prog Op Ans α) (Q : α → σ → Prop) (C : σ → Prop)
    (s : σ) :
    p.wp h Q C s ↔ Q (p.run h s).1 (p.run h s).2 ∧ ∀ s' ∈ p.states h s, C s' := by
  induction p generalizing s with
  | ret a => simp [wp, run, states]
  | call op k ih =>
    simp only [wp, run, states, ih, List.mem_cons, forall_eq_or_imp]
    tauto

/-- **`wpF` speaks of every schedule of failures**. -/
theorem wpF_iff (h f : Handler Op Ans σ) (p : Prog Op Ans α) (Q : α → σ → Prop) (C : σ → Prop)
    (s : σ) :
    p.wpF h f Q C s ↔
      ∀ bs : List Bool, p.wp (scheduled h f) (fun a t => Q a t.1) (fun t => C t.1) (s, bs) := by
  induction p generalizing s with
  | ret a => simp [wp, wpF]
  | call op k ih =>
    simp only [wp, wpF, ih]
    constructor
    · rintro ⟨hc, hok, hfail⟩ bs
      refine ⟨hc, ?_⟩
      rcases bs with _ | ⟨b, bs⟩
      · exact hok []
      · cases b
        · exact hok bs
        · exact hfail bs
    · intro hall
      exact ⟨(hall []).1, fun bs => (hall (false :: bs)).2, fun bs => (hall (true :: bs)).2⟩

/-! ## Proof rules -/

theorem wp_start {h : Handler Op Ans σ} {p : Prog Op Ans α} {Q : α → σ → Prop} {C : σ → Prop} {s : σ}
    (hp : p.wp h Q C s) : C s := by
  cases p with
  | ret a => exact hp.2
  | call op k => exact hp.1

theorem wpF_start {h f : Handler Op Ans σ} {p : Prog Op Ans α} {Q : α → σ → Prop} {C : σ → Prop}
    {s : σ} (hp : p.wpF h f Q C s) : C s := by
  cases p with
  | ret a => exact hp.2
  | call op k => exact hp.1

theorem wp_mono {h : Handler Op Ans σ} {p : Prog Op Ans α} {Q Q' : α → σ → Prop} {C C' : σ → Prop}
    (hQ : ∀ a s, Q a s → Q' a s) (hC : ∀ s, C s → C' s) :
    ∀ {s : σ}, p.wp h Q C s → p.wp h Q' C' s := by
  induction p with
  | ret a => exact fun hp => ⟨hQ _ _ hp.1, hC _ hp.2⟩
  | call op k ih => exact fun hp => ⟨hC _ hp.1, ih _ hp.2⟩

theorem wpF_mono {h f : Handler Op Ans σ} {p : Prog Op Ans α} {Q Q' : α → σ → Prop}
    {C C' : σ → Prop} (hQ : ∀ a s, Q a s → Q' a s) (hC : ∀ s, C s → C' s) :
    ∀ {s : σ}, p.wpF h f Q C s → p.wpF h f Q' C' s := by
  induction p with
  | ret a => exact fun hp => ⟨hQ _ _ hp.1, hC _ hp.2⟩
  | call op k ih => exact fun hp => ⟨hC _ hp.1, ih _ hp.2.1, ih _ hp.2.2⟩

/-- What holds of every result and every world holds of every schedule. -/
theorem wpF_of_forall {h f : Handler Op Ans σ} {p : Prog Op Ans α} {Q : α → σ → Prop} {C : σ → Prop}
    (hQ : ∀ a s, Q a s) (hC : ∀ s, C s) : ∀ {s : σ}, p.wpF h f Q C s := by
  induction p with
  | ret a => exact ⟨hQ a _, hC _⟩
  | call op k ih => exact ⟨hC _, ih _, ih _⟩

theorem wpF_and {h f : Handler Op Ans σ} {p : Prog Op Ans α} {Q Q' : α → σ → Prop} {C C' : σ → Prop} :
    ∀ {s : σ}, p.wpF h f Q C s → p.wpF h f Q' C' s →
      p.wpF h f (fun a t => Q a t ∧ Q' a t) (fun t => C t ∧ C' t) s := by
  induction p with
  | ret a => exact fun hp hp' => ⟨⟨hp.1, hp'.1⟩, hp.2, hp'.2⟩
  | call op k ih => exact fun hp hp' => ⟨⟨hp.1, hp'.1⟩, ih _ hp.2.1 hp'.2.1, ih _ hp.2.2 hp'.2.2⟩

theorem wp_bind (h : Handler Op Ans σ) (p : Prog Op Ans α) (g : α → Prog Op Ans β)
    (Q : β → σ → Prop) (C : σ → Prop) (s : σ) :
    (p.bind g).wp h Q C s ↔ p.wp h (fun a t => (g a).wp h Q C t) C s := by
  induction p generalizing s with
  | ret a => exact ⟨fun hp => ⟨hp, wp_start hp⟩, fun hp => hp.1⟩
  | call op k ih => simp only [bind, wp, ih]

theorem wpF_bind (h f : Handler Op Ans σ) (p : Prog Op Ans α) (g : α → Prog Op Ans β)
    (Q : β → σ → Prop) (C : σ → Prop) (s : σ) :
    (p.bind g).wpF h f Q C s ↔ p.wpF h f (fun a t => (g a).wpF h f Q C t) C s := by
  induction p generalizing s with
  | ret a => exact ⟨fun hp => ⟨hp, wpF_start hp⟩, fun hp => hp.1⟩
  | call op k ih => simp only [bind, wpF, ih]

theorem wpF_post {h f : Handler Op Ans σ} {p : Prog Op Ans α} {Q : α → σ → Prop} {C : σ → Prop} :
    ∀ {s : σ}, p.wpF h f Q C s → p.wpF h f (fun a t => Q a t ∧ C t) C s := by
  induction p with
  | ret a => exact fun hp => ⟨hp, hp.2⟩
  | call op k ih => exact fun hp => ⟨hp.1, ih _ hp.2.1, ih _ hp.2.2⟩

theorem wp_post {h : Handler Op Ans σ} {p : Prog Op Ans α} {Q : α → σ → Prop} {C : σ → Prop} :
    ∀ {s : σ}, p.wp h Q C s → p.wp h (fun a t => Q a t ∧ C t) C s := by
  induction p with
  | ret a => exact fun hp => ⟨hp, hp.2⟩
  | call op k ih => exact fun hp => ⟨hp.1, ih _ hp.2⟩

/-- The rule of sequencing: the second program starts where the first may end. -/
theorem wp_seq {h : Handler Op Ans σ} {p : Prog Op Ans α} {g : α → Prog Op Ans β} {R : α → σ → Prop}
    {Q : β → σ → Prop} {C C' : σ → Prop} {s : σ} (hp : p.wp h R C' s) (hC : ∀ t, C' t → C t)
    (hg : ∀ a t, R a t → C' t → (g a).wp h Q C t) : (p.bind g).wp h Q C s :=
  (wp_bind h p g Q C s).mpr (wp_mono (fun a t hr => hg a t hr.1 hr.2) hC (wp_post hp))

theorem wpF_seq {h f : Handler Op Ans σ} {p : Prog Op Ans α} {g : α → Prog Op Ans β}
    {R : α → σ → Prop} {Q : β → σ → Prop} {C C' : σ → Prop} {s : σ} (hp : p.wpF h f R C' s)
    (hC : ∀ t, C' t → C t) (hg : ∀ a t, R a t → C' t → (g a).wpF h f Q C t) :
    (p.bind g).wpF h f Q C s :=
  (wpF_bind h f p g Q C s).mpr (wpF_mono (fun a t hr => hg a t hr.1 hr.2) hC (wpF_post hp))

/-- A program none of whose calls the schedule fails runs as it does without failures. -/
theorem wp_of_wpF {h f : Handler Op Ans σ} {p : Prog Op Ans α} {Q : α → σ → Prop} {C : σ → Prop} :
    ∀ {s : σ}, p.wpF h f Q C s → p.wp h Q C s := by
  induction p with
  | ret a => exact fun hp => hp
  | call op k ih => exact fun hp => ⟨hp.1, ih _ hp.2.1⟩

/-! ## Runs without a crash condition -/

/-- The run of `p` from `s` ends in `Q`. -/
def ends (h : Handler Op Ans σ) (p : Prog Op Ans α) (Q : α → σ → Prop) (s : σ) : Prop :=
  Q (p.run h s).1 (p.run h s).2

theorem ends_ret {h : Handler Op Ans σ} {a : α} {Q : α → σ → Prop} {s : σ} (hQ : Q a s) :
    (ret a : Prog Op Ans α).ends h Q s := hQ

theorem ends_call {h : Handler Op Ans σ} {op : Op} {k : Ans op → Prog Op Ans α} {Q : α → σ → Prop}
    {s : σ} {a : Ans op} {t : σ} (hop : h op s = (a, t)) (hk : (k a).ends h Q t) :
    (call op k).ends h Q s := by
  unfold ends at hk ⊢
  simp only [run, hop]
  exact hk

theorem ends_bind {h : Handler Op Ans σ} {p : Prog Op Ans α} {g : α → Prog Op Ans β}
    {Q : β → σ → Prop} {s : σ} :
    (p.bind g).ends h Q s ↔ p.ends h (fun a t => (g a).ends h Q t) s := by
  unfold ends
  rw [run_bind]

theorem ends_mono {h : Handler Op Ans σ} {p : Prog Op Ans α} {Q Q' : α → σ → Prop} {s : σ}
    (hp : p.ends h Q s) (hQ : ∀ a t, Q a t → Q' a t) : p.ends h Q' s := hQ _ _ hp

theorem ends_seq {h : Handler Op Ans σ} {p : Prog Op Ans α} {g : α → Prog Op Ans β}
    {R : α → σ → Prop} {Q : β → σ → Prop} {s : σ} (hp : p.ends h R s)
    (hg : ∀ a t, R a t → (g a).ends h Q t) : (p.bind g).ends h Q s :=
  ends_bind.mpr (ends_mono hp hg)

end Prog

end Simta
