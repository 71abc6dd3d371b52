import Simta.Lib.Prog

/-!
# Programs in an open world

A `World` says which answers an operation may get and how the world may change with each; a
handler is the world with one answer.  `Stateful` adds a state that the program alone changes.

* `Prog.Runs` — a run of a program in a world, with its result and the world it leaves;
* `Prog.wlp` — every run ends in `Q`;
* `Prog.wlp_iff_runs` — the second speaks of the first;
* `Prog.eval` — the run in which each operation has one answer;
* `Prog.either` — the world in which a call may take either of two handlers, where `wpF` is `wlp`;
* `Prog.lift` — a program as one over more operations, in a world that contains its own;
* `Stateful.wlp`, `Stateful.Runs`, `Stateful.eval` — the same for programs with a state, with a rule
  for each construct;
* `Faulty.wlp`, `Faulty.Runs` — the same for programs with a state that may also end in a fault.
-/

set_option autoImplicit false

namespace Simta

namespace Prog

variable {Op : Type} {Ans : Op → Type} {α β σ : Type}

/-- The answers an operation may get in a world, with the world each leaves. -/
abbrev World (Op : Type) (Ans : Op → Type) (σ : Type) : Type :=
  (op : Op) → σ → Ans op → σ → Prop

/-- The world of a handler. -/
def Handler.world (h : Handler Op Ans σ) : World Op Ans σ := fun op s a t => (a, t) = h op s

/-- The world in which any answer may come. -/
def anyAnswer : World Op Ans Unit := fun _ _ _ _ => True

/-- A run from `s` with the result `b`, leaving `u`. -/
inductive Runs (R : World Op Ans σ) : Prog Op Ans α → σ → α → σ → Prop
  | ret (a : α) (s : σ) : Runs R (ret a) s a s
  | call {op : Op} {k : Ans op → Prog Op Ans α} {s t u : σ} {a : Ans op} {b : α}
      (hop : R op s a t) (hk : Runs R (k a) t b u) : Runs R (call op k) s b u

/-- Every run from `s` ends in `Q`. -/
def wlp (R : World Op Ans σ) (p : Prog Op Ans α) (Q : α → σ → Prop) (s : σ) : Prop :=
  match p with
  | ret a => Q a s
  | call op k => ∀ a t, R op s a t → (k a).wlp R Q t

/-- **`wlp` speaks of runs.** -/
theorem wlp_iff_runs (R : World Op Ans σ) (p : Prog Op Ans α) (Q : α → σ → Prop) (s : σ) :
    p.wlp R Q s ↔ ∀ b u, Runs R p s b u → Q b u := by
  induction p generalizing s with
  | ret a =>
    constructor
    · rintro h b u ⟨⟩
      exact h
    · exact fun h => h a s (.ret a s)
  | call op k ih =>
    constructor
    · rintro h b u (_ | ⟨hop, hk⟩)
      exact (ih _ _).mp (h _ _ hop) b u hk
    · exact fun h a t hop => (ih a t).mpr fun b u hk => h b u (.call hop hk)

/-- A handler that answers as the world allows gives a run. -/
theorem runs_of_run {R : World Op Ans σ} {h : Handler Op Ans σ}
    (hR : ∀ op s, R op s (h op s).1 (h op s).2) (p : Prog Op Ans α) :
    ∀ s, Runs R p s (p.run h s).1 (p.run h s).2 := by
  induction p with
  | ret a => exact fun s => .ret a s
  | call op k ih => exact fun s => .call (hR op s) (ih _ _)

/-- The result when every operation gets the answer `ans` has for it. -/
def eval (ans : (op : Op) → Ans op) : Prog Op Ans α → α
  | ret a => a
  | call op k => (k (ans op)).eval ans

/-- Fixed answers give a run in every world that allows them. -/
theorem runs_of_answers {R : World Op Ans Unit} {ans : (op : Op) → Ans op} (hR : ∀ op, R op () (ans op) ())
    (p : Prog Op Ans α) : Runs R p () (p.eval ans) () := by
  induction p with
  | ret a => exact .ret a ()
  | call op k ih => exact .call (hR op) (ih _)

theorem runs_of_eval (ans : (op : Op) → Ans op) (p : Prog Op Ans α) :
    Runs anyAnswer p () (p.eval ans) () :=
  runs_of_answers (fun _ => trivial) p

theorem eval_bind (ans : (op : Op) → Ans op) (p : Prog Op Ans α) (f : α → Prog Op Ans β) :
    (p.bind f).eval ans = (f (p.eval ans)).eval ans := by
  induction p with
  | ret a => rfl
  | call op k ih => exact ih _

/-! ## Rules -/

theorem wlp_mono {R : World Op Ans σ} {p : Prog Op Ans α} {Q Q' : α → σ → Prop}
    (hQ : ∀ a s, Q a s → Q' a s) : ∀ {s : σ}, p.wlp R Q s → p.wlp R Q' s := by
  induction p with
  | ret a => exact fun hp => hQ _ _ hp
  | call op k ih => exact fun hp a t hop => ih a (hp a t hop)

/-- What holds of every result and every world holds of every run. -/
theorem wlp_of_forall {R : World Op Ans σ} {p : Prog Op Ans α} {Q : α → σ → Prop} (hQ : ∀ a s, Q a s) :
    ∀ {s : σ}, p.wlp R Q s := by
  induction p with
  | ret a => exact hQ a _
  | call op k ih => exact fun a t _ => ih a

theorem wlp_and {R : World Op Ans σ} {p : Prog Op Ans α} {Q Q' : α → σ → Prop} {s : σ} (h : p.wlp R Q s)
    (h' : p.wlp R Q' s) : p.wlp R (fun a t => Q a t ∧ Q' a t) s :=
  (wlp_iff_runs R p _ s).mpr fun b u hrun =>
    ⟨(wlp_iff_runs R p Q s).mp h b u hrun, (wlp_iff_runs R p Q' s).mp h' b u hrun⟩

/-- Programs that go on alike with whatever a first one gives are the same. -/
theorem bind_congr {p : Prog Op Ans α} {f g : α → Prog Op Ans β} (h : p.wlp anyAnswer (fun a _ => f a = g a) ()) :
    p.bind f = p.bind g := by
  induction p with
  | ret a => exact h
  | call op k ih => exact congrArg (call op) (funext fun a => ih a (h a () trivial))

/-- A world with fewer answers has fewer runs. -/
theorem wlp_world {R R' : World Op Ans σ} (hR : ∀ op s a t, R' op s a t → R op s a t) {p : Prog Op Ans α}
    {Q : α → σ → Prop} : ∀ {s : σ}, p.wlp R Q s → p.wlp R' Q s := by
  induction p with
  | ret a => exact fun hp => hp
  | call op k ih => exact fun hp a t hop => ih a (hp a t (hR _ _ _ _ hop))

theorem wlp_bind (R : World Op Ans σ) (p : Prog Op Ans α) (g : α → Prog Op Ans β)
    (Q : β → σ → Prop) (s : σ) :
    (p.bind g).wlp R Q s ↔ p.wlp R (fun a t => (g a).wlp R Q t) s := by
  induction p generalizing s with
  | ret a => exact Iff.rfl
  | call op k ih => simp only [bind, wlp, ih]

theorem wlp_seq {R : World Op Ans σ} {p : Prog Op Ans α} {g : α → Prog Op Ans β} {P : α → σ → Prop}
    {Q : β → σ → Prop} {s : σ} (hp : p.wlp R P s) (hg : ∀ a t, P a t → (g a).wlp R Q t) :
    (p.bind g).wlp R Q s :=
  (wlp_bind R p g Q s).mpr (wlp_mono hg hp)

/-- In the world of a handler there is the one run that it gives. -/
theorem wlp_handler {h : Handler Op Ans σ} {p : Prog Op Ans α} {Q : α → σ → Prop} :
    ∀ {s : σ}, p.wlp h.world Q s ↔ Q (p.run h s).1 (p.run h s).2 := by
  induction p with
  | ret a => exact Iff.rfl
  | call op k ih =>
    intro s
    constructor
    · exact fun hp => (ih _).mp (hp _ _ rfl)
    · intro hp a t hop
      obtain ⟨rfl, rfl⟩ := Prod.mk.inj hop
      exact (ih _).mpr hp

/-- **What holds in a world holds in every finer one**, of the part of it that the first one sees. -/
theorem wlp_view {τ : Type} {R : World Op Ans τ} {R' : World Op Ans σ} {view : σ → τ}
    (hR : ∀ op s a t, R' op s a t → R op (view s) a (view t)) {p : Prog Op Ans α} {Q : α → τ → Prop} :
    ∀ {s : σ}, p.wlp R Q (view s) → p.wlp R' (fun a t => Q a (view t)) s := by
  induction p with
  | ret a => exact fun hp => hp
  | call op k ih => exact fun hp a t hop => ih a (hp a (view t) (hR _ _ _ _ hop))

/-- What holds in a world without a state holds in one that allows no other answers. -/
theorem wlp_forget {R : World Op Ans Unit} {R' : World Op Ans σ} (hR : ∀ op s a t, R' op s a t → R op () a ())
    {p : Prog Op Ans α} {Q : α → Unit → Prop} {s : σ} (hp : p.wlp R Q ()) : p.wlp R' (fun a _ => Q a ()) s :=
  wlp_view hR hp

/-! ## Two handlers -/

/-- Each call takes one of two handlers. -/
def either (h f : Handler Op Ans σ) : World Op Ans σ :=
  fun op s a t => (a, t) = h op s ∨ (a, t) = f op s

/-- What `wpF` says of every schedule holds of every run in which each call may fail. -/
theorem wlp_of_wpF {h f : Handler Op Ans σ} {p : Prog Op Ans α} {Q : α → σ → Prop} {C : σ → Prop} :
    ∀ {s : σ}, p.wpF h f Q C s → p.wlp (either h f) Q s := by
  induction p with
  | ret a => exact fun hp => hp.1
  | call op k ih =>
    rintro s ⟨-, hok, hfail⟩ a t (heq | heq)
    · obtain ⟨rfl, rfl⟩ := Prod.mk.inj heq
      exact ih _ hok
    · obtain ⟨rfl, rfl⟩ := Prod.mk.inj heq
      exact ih _ hfail

/-! ## More operations -/

section Lift

variable {Op' : Type} {Ans' : Op' → Type} {σ' : Type} {emb : Op → Op'}

/-- The program over more operations, of which `emb` are its own. -/
def lift (emb : Op → Op') (ans : (op : Op) → Ans' (emb op) → Ans op) : Prog Op Ans α → Prog Op' Ans' α
  | ret a => ret a
  | call op k => call (emb op) fun a => (k (ans op a)).lift emb ans

/-- What holds of every result in the world of any answer holds in every larger world. -/
theorem wlp_lift_anyAnswer {R' : World Op' Ans' σ'} {ans : (op : Op) → Ans' (emb op) → Ans op}
    {p : Prog Op Ans α} {Q : α → Prop} (hp : p.wlp anyAnswer (fun a _ => Q a) ()) :
    ∀ {s : σ'}, (p.lift emb ans).wlp R' (fun a _ => Q a) s := by
  induction p with
  | ret a => exact hp
  | call op k ih => exact fun a t _ => ih _ (hp _ () trivial)

/-- The part of a larger world that a program can change. -/
structure Part (σ σ' : Type) where
  get : σ' → σ
  put : σ' → σ → σ'
  get_put : ∀ s u, get (put s u) = u
  put_put : ∀ s u v, put (put s u) v = put s v
  put_get : ∀ s, put s (get s) = s

variable {ans : (op : Op) → Ans' (emb op) → Ans op}

/-- A larger world in which the operations of the program do what they do in its own. -/
def Contains (ans : (op : Op) → Ans' (emb op) → Ans op) (part : Part σ σ') (R' : World Op' Ans' σ')
    (R : World Op Ans σ) : Prop :=
  ∀ op s a t, R' (emb op) s a t → ∃ u, t = part.put s u ∧ R op (part.get s) (ans op a) u

/-- **A specification carries over to a larger world**, whose other parts stay as they are. -/
theorem wlp_lift {part : Part σ σ'} {R' : World Op' Ans' σ'} {R : World Op Ans σ}
    (hR : Contains ans part R' R) {p : Prog Op Ans α} {Q : α → σ' → Prop} :
    ∀ {s : σ'}, p.wlp R (fun a u => Q a (part.put s u)) (part.get s) → (p.lift emb ans).wlp R' Q s := by
  induction p with
  | ret a =>
    intro s hp
    rw [wlp, part.put_get] at hp
    exact hp
  | call op k ih =>
    intro s hp a t hop
    obtain ⟨u, rfl, hu⟩ := hR op s a t hop
    refine ih _ ?_
    rw [part.get_put]
    exact wlp_mono (fun b v h => by rw [part.put_put]; exact h) (hp _ u hu)

end Lift

end Prog

/-! ## Programs with a state -/

/-- A program over `Op` that also reads and writes a state `ρ`. -/
abbrev Stateful (ρ Op : Type) (Ans : Op → Type) : Type → Type := StateT ρ (Prog Op Ans)

namespace Stateful

variable {ρ Op : Type} {Ans : Op → Type} {α β σ : Type}

/-- Ask for one operation. -/
def ask (op : Op) : Stateful ρ Op Ans (Ans op) := fun r => .call op fun a => .ret (a, r)

/-- A program that leaves the state alone. -/
def lift (p : Prog Op Ans α) : Stateful ρ Op Ans α := fun r => p.bind fun a => .ret (a, r)

/-- Every run from the state `r` and the world `s` ends in `Q`. -/
def wlp (R : Prog.World Op Ans σ) (m : Stateful ρ Op Ans α) (Q : α → ρ → σ → Prop) (r : ρ)
    (s : σ) : Prop :=
  (m r).wlp R (fun x t => Q x.1 x.2 t) s

variable {R : Prog.World Op Ans σ} {Q : β → ρ → σ → Prop} {r : ρ} {s : σ}

theorem wlp_mono {m : Stateful ρ Op Ans α} {P P' : α → ρ → σ → Prop}
    (hP : ∀ a r s, P a r s → P' a r s) (hm : m.wlp R P r s) : m.wlp R P' r s :=
  Prog.wlp_mono (fun _ _ => hP _ _ _) hm

@[simp] theorem wlp_pure (b : β) : (pure b : Stateful ρ Op Ans β).wlp R Q r s ↔ Q b r s := Iff.rfl

@[simp] theorem wlp_bind (m : Stateful ρ Op Ans α) (g : α → Stateful ρ Op Ans β) :
    (m >>= g).wlp R Q r s ↔ m.wlp R (fun a r' s' => (g a).wlp R Q r' s') r s :=
  Prog.wlp_bind R (m r) (fun x => g x.1 x.2) _ s

@[simp] theorem wlp_get {Q : ρ → ρ → σ → Prop} :
    (get : Stateful ρ Op Ans ρ).wlp R Q r s ↔ Q r r s := Iff.rfl

@[simp] theorem wlp_set {Q : PUnit → ρ → σ → Prop} (r' : ρ) :
    (set r' : Stateful ρ Op Ans PUnit).wlp R Q r s ↔ Q ⟨⟩ r' s := Iff.rfl

@[simp] theorem wlp_modify {Q : PUnit → ρ → σ → Prop} (f : ρ → ρ) :
    (modify f : Stateful ρ Op Ans PUnit).wlp R Q r s ↔ Q ⟨⟩ (f r) s := Iff.rfl

@[simp] theorem wlp_ask (op : Op) {Q : Ans op → ρ → σ → Prop} :
    (ask op : Stateful ρ Op Ans (Ans op)).wlp R Q r s ↔ ∀ a t, R op s a t → Q a r t := Iff.rfl

@[simp] theorem wlp_lift (p : Prog Op Ans β) :
    (lift p : Stateful ρ Op Ans β).wlp R Q r s ↔ p.wlp R (fun a t => Q a r t) s :=
  Prog.wlp_bind R p (fun a => .ret (a, r)) _ s

/-- The result and the final state when every operation gets the answer `ans` has for it. -/
def eval (ans : (op : Op) → Ans op) (m : Stateful ρ Op Ans α) (r : ρ) : α × ρ := (m r).eval ans

section Eval

variable {ans : (op : Op) → Ans op} {r : ρ}

@[simp] theorem eval_pure (a : α) : (pure a : Stateful ρ Op Ans α).eval ans r = (a, r) := rfl

@[simp] theorem eval_bind (m : Stateful ρ Op Ans α) (g : α → Stateful ρ Op Ans β) :
    (m >>= g).eval ans r = (g (m.eval ans r).1).eval ans (m.eval ans r).2 :=
  Prog.eval_bind ans (m r) fun x => g x.1 x.2

@[simp] theorem eval_get : (get : Stateful ρ Op Ans ρ).eval ans r = (r, r) := rfl

@[simp] theorem eval_set (r' : ρ) : (set r' : Stateful ρ Op Ans PUnit).eval ans r = (⟨⟩, r') := rfl

@[simp] theorem eval_modify (f : ρ → ρ) :
    (modify f : Stateful ρ Op Ans PUnit).eval ans r = (⟨⟩, f r) := rfl

@[simp] theorem eval_ask (op : Op) : (ask op : Stateful ρ Op Ans (Ans op)).eval ans r = (ans op, r) :=
  rfl

end Eval

theorem seq_assoc {γ : Type} (m : Stateful ρ Op Ans α) (f : α → Stateful ρ Op Ans β)
    (g : β → Stateful ρ Op Ans γ) : m >>= f >>= g = m >>= fun a => f a >>= g :=
  funext fun r => Prog.bind_assoc (m r) (fun x => f x.1 x.2) fun x => g x.1 x.2

/-- The rule of sequencing: the second program starts where the first may end. -/
theorem wlp_seq {m : Stateful ρ Op Ans α} {g : α → Stateful ρ Op Ans β} {P : α → ρ → σ → Prop}
    (hm : m.wlp R P r s) (hg : ∀ a r' s', P a r' s' → (g a).wlp R Q r' s') :
    (m >>= g).wlp R Q r s :=
  (wlp_bind m g).mpr (wlp_mono hg hm)

/-! ### Runs -/

/-- A run from the state `r` and the world `s` with the result `a`, leaving `r'` and `s'`. -/
def Runs (R : Prog.World Op Ans σ) (m : Stateful ρ Op Ans α) (r : ρ) (s : σ) (a : α) (r' : ρ)
    (s' : σ) : Prop :=
  Prog.Runs R (m r) s (a, r') s'

theorem wlp_iff_runs {m : Stateful ρ Op Ans α} {P : α → ρ → σ → Prop} :
    m.wlp R P r s ↔ ∀ a r' s', m.Runs R r s a r' s' → P a r' s' := by
  unfold wlp Runs
  rw [Prog.wlp_iff_runs]
  exact ⟨fun h a r' s' hrun => h (a, r') s' hrun, fun h x t hrun => h x.1 x.2 t hrun⟩

/-- Every run ends in what can be said of it. -/
theorem wlp_runs (m : Stateful ρ Op Ans α) : m.wlp R (m.Runs R r s) r s :=
  wlp_iff_runs.mpr fun _ _ _ h => h

theorem wlp_and {m : Stateful ρ Op Ans α} {P P' : α → ρ → σ → Prop} (h : m.wlp R P r s)
    (h' : m.wlp R P' r s) : m.wlp R (fun a r' s' => P a r' s' ∧ P' a r' s') r s :=
  wlp_iff_runs.mpr fun a r' s' hrun =>
    ⟨wlp_iff_runs.mp h a r' s' hrun, wlp_iff_runs.mp h' a r' s' hrun⟩

theorem wlp_view {τ : Type} {R : Prog.World Op Ans τ} {R' : Prog.World Op Ans σ} {view : σ → τ}
    (hR : ∀ op s a t, R' op s a t → R op (view s) a (view t)) {m : Stateful ρ Op Ans α} {P : α → ρ → τ → Prop}
    (hm : m.wlp R P r (view s)) : m.wlp R' (fun a r' t => P a r' (view t)) r s :=
  Prog.wlp_view hR hm

/-! ### What a program leaves alone -/

section Keeps

variable {γ : Type} {view : ρ → γ}

/-- No run changes the world, or the part of the state that `view` shows. -/
def Keeps (R : Prog.World Op Ans σ) (view : ρ → γ) (m : Stateful ρ Op Ans α) : Prop :=
  ∀ r s, m.wlp R (fun _ r' s' => view r' = view r ∧ s' = s) r s

theorem keeps_pure (a : α) : Keeps R view (pure a : Stateful ρ Op Ans α) := fun _ _ => ⟨rfl, rfl⟩

theorem keeps_get : Keeps R view (get : Stateful ρ Op Ans ρ) := fun _ _ => ⟨rfl, rfl⟩

theorem keeps_modify {f : ρ → ρ} (hf : ∀ r, view (f r) = view r) :
    Keeps R view (modify f : Stateful ρ Op Ans PUnit) := fun r _ => ⟨hf r, rfl⟩

theorem keeps_ask {op : Op} (hop : ∀ s a t, R op s a t → t = s) :
    Keeps R view (ask op : Stateful ρ Op Ans (Ans op)) := fun _ s a t h => ⟨rfl, hop s a t h⟩

theorem keeps_bind {m : Stateful ρ Op Ans α} {g : α → Stateful ρ Op Ans β} (hm : Keeps R view m)
    (hg : ∀ a, Keeps R view (g a)) : Keeps R view (m >>= g) := by
  intro r s
  refine wlp_seq (hm r s) ?_
  rintro a r' s' ⟨hr, rfl⟩
  exact wlp_mono (fun _ _ _ h => ⟨h.1.trans hr, h.2⟩) (hg a r' s')

/-- What goes on behind a program that leaves the view alone. -/
theorem Keeps.seq {m : Stateful ρ Op Ans α} {g : α → Stateful ρ Op Ans β} (hm : Keeps R view m)
    (hg : ∀ a r', view r' = view r → (g a).wlp R Q r' s) : (m >>= g).wlp R Q r s := by
  refine wlp_seq (hm r s) ?_
  rintro a r' s' ⟨hr, rfl⟩
  exact hg a r' hr

end Keeps

/-- Fixed answers give a run in the world of any answer. -/
theorem runs_of_eval (ans : (op : Op) → Ans op) (m : Stateful ρ Op Ans α) (r : ρ) :
    m.Runs Prog.anyAnswer r () (m.eval ans r).1 (m.eval ans r).2 () :=
  Prog.runs_of_eval ans (m r)

end Stateful

/-! ## Programs that may fault -/

/-- A program over `Op` with a state `ρ` whose run may end in a fault: an access through a pointer that
    leads nowhere, a remainder by zero, an `abort`. -/
abbrev Faulty (ρ Op : Type) (Ans : Op → Type) : Type → Type := StateT ρ (OptionT (Prog Op Ans))

namespace Faulty

variable {ρ Op : Type} {Ans : Op → Type} {α β σ : Type}

/-- Ask for one operation. -/
def ask (op : Op) : Faulty ρ Op Ans (Ans op) := fun r => Prog.call op fun a => .ret (some (a, r))

/-- A program that leaves the state alone and cannot fault. -/
def lift (p : Prog Op Ans α) : Faulty ρ Op Ans α := fun r => p.bind fun a => .ret (some (a, r))

/-- The run ends in a fault. -/
def fault : Faulty ρ Op Ans α := fun _ => Prog.ret none

/-- A value read from the state; there may be none. -/
def read (f : ρ → Option α) : Faulty ρ Op Ans α := fun r => Prog.ret ((f r).map fun a => (a, r))

/-- A change of the state that may fault. -/
def update (f : ρ → Option ρ) : Faulty ρ Op Ans PUnit := fun r => Prog.ret ((f r).map fun r' => (⟨⟩, r'))

/-- What a run comes to when a fault is worth `F`. -/
def after (F : Prop) (Q : α → ρ → σ → Prop) : Option (α × ρ) → σ → Prop
  | some (a, r), s => Q a r s
  | none, _ => F

/-- Every run from the state `r` and the world `s` ends in `Q`, or in a fault if `F` allows it. -/
def wlp (R : Prog.World Op Ans σ) (F : Prop) (m : Faulty ρ Op Ans α) (Q : α → ρ → σ → Prop) (r : ρ)
    (s : σ) : Prop :=
  Prog.wlp R (m r) (after F Q) s

variable {R : Prog.World Op Ans σ} {F : Prop} {Q : β → ρ → σ → Prop} {r : ρ} {s : σ}

theorem wlp_mono {m : Faulty ρ Op Ans α} {P P' : α → ρ → σ → Prop} (hP : ∀ a r s, P a r s → P' a r s)
    (hm : m.wlp R F P r s) : m.wlp R F P' r s := by
  refine Prog.wlp_mono ?_ hm
  intro x t hx
  cases x with
  | none => exact hx
  | some y => exact hP _ _ _ hx

theorem wlp_of_forall (hF : F) (hQ : ∀ b r s, Q b r s) {m : Faulty ρ Op Ans β} : m.wlp R F Q r s := by
  refine Prog.wlp_of_forall fun x t => ?_
  cases x with
  | none => exact hF
  | some y => exact hQ _ _ _

/-- A fault may be worth less. -/
theorem wlp_weaken {F' : Prop} (hF : F → F') {m : Faulty ρ Op Ans β} (hm : m.wlp R F Q r s) : m.wlp R F' Q r s := by
  refine Prog.wlp_mono ?_ hm
  intro x t hx
  cases x with
  | none => exact hF hx
  | some y => exact hx

theorem wlp_world {R' : Prog.World Op Ans σ} (hR : ∀ op s a t, R' op s a t → R op s a t)
    {m : Faulty ρ Op Ans β} (hm : m.wlp R F Q r s) : m.wlp R' F Q r s :=
  Prog.wlp_world hR hm

@[simp] theorem wlp_pure (b : β) : (pure b : Faulty ρ Op Ans β).wlp R F Q r s ↔ Q b r s := Iff.rfl

@[simp] theorem wlp_bind (m : Faulty ρ Op Ans α) (g : α → Faulty ρ Op Ans β) :
    (m >>= g).wlp R F Q r s ↔ m.wlp R F (fun a r' s' => (g a).wlp R F Q r' s') r s := by
  refine (Prog.wlp_bind R (m r) _ _ s).trans ?_
  constructor <;> refine Prog.wlp_mono ?_ <;> intro x t hx <;> cases x <;> exact hx

@[simp] theorem wlp_map (f : α → β) (m : Faulty ρ Op Ans α) :
    (f <$> m).wlp R F Q r s ↔ m.wlp R F (fun a r' s' => Q (f a) r' s') r s := by
  refine (Prog.wlp_bind R (m r) _ _ s).trans ?_
  constructor <;> refine Prog.wlp_mono ?_ <;> intro x t hx <;> cases x <;> exact hx

@[simp] theorem wlp_get {Q : ρ → ρ → σ → Prop} : (get : Faulty ρ Op Ans ρ).wlp R F Q r s ↔ Q r r s :=
  Iff.rfl

@[simp] theorem wlp_set {Q : PUnit → ρ → σ → Prop} (r' : ρ) :
    (set r' : Faulty ρ Op Ans PUnit).wlp R F Q r s ↔ Q ⟨⟩ r' s := Iff.rfl

@[simp] theorem wlp_modify {Q : PUnit → ρ → σ → Prop} (f : ρ → ρ) :
    (modify f : Faulty ρ Op Ans PUnit).wlp R F Q r s ↔ Q ⟨⟩ (f r) s := Iff.rfl

@[simp] theorem wlp_ask (op : Op) {Q : Ans op → ρ → σ → Prop} :
    (ask op : Faulty ρ Op Ans (Ans op)).wlp R F Q r s ↔ ∀ a t, R op s a t → Q a r t := Iff.rfl

@[simp] theorem wlp_fault : (fault : Faulty ρ Op Ans β).wlp R F Q r s ↔ F := Iff.rfl

theorem wlp_read {f : ρ → Option β} :
    (read f : Faulty ρ Op Ans β).wlp R F Q r s ↔ (f r = none → F) ∧ ∀ a, f r = some a → Q a r s := by
  unfold wlp read
  cases f r <;> simp [Prog.wlp, after]

theorem wlp_update {f : ρ → Option ρ} {Q : PUnit → ρ → σ → Prop} :
    (update f : Faulty ρ Op Ans PUnit).wlp R F Q r s ↔
      (f r = none → F) ∧ ∀ r', f r = some r' → Q ⟨⟩ r' s := by
  unfold wlp update
  cases f r <;> simp [Prog.wlp, after]

@[simp] theorem wlp_lift (p : Prog Op Ans β) :
    (lift p : Faulty ρ Op Ans β).wlp R F Q r s ↔ p.wlp R (fun a t => Q a r t) s :=
  Prog.wlp_bind R p (fun a => .ret (some (a, r))) _ s

/-- The rule of sequencing: the second program starts where the first may end. -/
theorem wlp_seq {m : Faulty ρ Op Ans α} {g : α → Faulty ρ Op Ans β} {P : α → ρ → σ → Prop}
    (hm : m.wlp R F P r s) (hg : ∀ a r' s', P a r' s' → (g a).wlp R F Q r' s') :
    (m >>= g).wlp R F Q r s :=
  (wlp_bind m g).mpr (wlp_mono hg hm)

/-- A run that ends without a fault, with the result `a`, leaving `r'` and `s'`. -/
def Runs (R : Prog.World Op Ans σ) (m : Faulty ρ Op Ans α) (r : ρ) (s : σ) (a : α) (r' : ρ) (s' : σ) :
    Prop :=
  Prog.Runs R (m r) s (some (a, r')) s'

/-- A run that ends in a fault. -/
def Faults (R : Prog.World Op Ans σ) (m : Faulty ρ Op Ans α) (r : ρ) (s : σ) : Prop :=
  ∃ s', Prog.Runs R (m r) s none s'

/-- **`wlp` speaks of runs**, of those that end and of those that fault. -/
theorem wlp_iff_runs {m : Faulty ρ Op Ans α} {P : α → ρ → σ → Prop} :
    m.wlp R F P r s ↔ (∀ a r' s', m.Runs R r s a r' s' → P a r' s') ∧ (m.Faults R r s → F) := by
  unfold wlp Runs Faults
  rw [Prog.wlp_iff_runs]
  constructor
  · intro h
    exact ⟨fun a r' s' hrun => h _ s' hrun, fun ⟨s', hrun⟩ => h _ s' hrun⟩
  · rintro ⟨hends, hfaults⟩ x t hrun
    cases x with
    | none => exact hfaults ⟨t, hrun⟩
    | some y => exact hends y.1 y.2 t hrun

theorem wlp_and {m : Faulty ρ Op Ans α} {P P' : α → ρ → σ → Prop} (h : m.wlp R F P r s)
    (h' : m.wlp R F P' r s) : m.wlp R F (fun a r' s' => P a r' s' ∧ P' a r' s') r s :=
  wlp_iff_runs.mpr ⟨fun a r' s' hrun =>
    ⟨(wlp_iff_runs.mp h).1 a r' s' hrun, (wlp_iff_runs.mp h').1 a r' s' hrun⟩, (wlp_iff_runs.mp h).2⟩

/-- What holds of the runs that end, besides. -/
theorem wlp_and_ends {m : Faulty ρ Op Ans α} {P P' : α → ρ → σ → Prop} (h : m.wlp R F P r s)
    (h' : m.wlp R True P' r s) : m.wlp R F (fun a r' s' => P a r' s' ∧ P' a r' s') r s :=
  wlp_iff_runs.mpr ⟨fun a r' s' hrun =>
    ⟨(wlp_iff_runs.mp h).1 a r' s' hrun, (wlp_iff_runs.mp h').1 a r' s' hrun⟩, (wlp_iff_runs.mp h).2⟩

theorem wlp_forget {R : Prog.World Op Ans Unit} {R' : Prog.World Op Ans σ}
    (hR : ∀ op s a t, R' op s a t → R op () a ()) {m : Faulty ρ Op Ans α} {P : α → ρ → Unit → Prop}
    (hm : m.wlp R F P r ()) : m.wlp R' F (fun a r' _ => P a r' ()) r s := by
  refine Prog.wlp_mono ?_ (Prog.wlp_forget hR hm)
  intro x t hx
  cases x <;> exact hx

/-- The run that a handler gives: its result and the final state, if it does not fault, and the final world. -/
def run (h : Prog.Handler Op Ans σ) (m : Faulty ρ Op Ans α) (r : ρ) (s : σ) : Option (α × ρ) × σ :=
  Prog.run h (m r) s

theorem wlp_handler {h : Prog.Handler Op Ans σ} {m : Faulty ρ Op Ans α} {P : α → ρ → σ → Prop} :
    m.wlp h.world F P r s ↔ after F P (m.run h r s).1 (m.run h r s).2 :=
  Prog.wlp_handler

/-- The result and the final state when every operation gets the answer `ans` has for it. -/
def eval (ans : (op : Op) → Ans op) (m : Faulty ρ Op Ans α) (r : ρ) : Option (α × ρ) :=
  Prog.eval ans (m r)

/-- Fixed answers give a run in every world that allows them. -/
theorem runs_of_answers {R : Prog.World Op Ans Unit} {ans : (op : Op) → Ans op} {m : Faulty ρ Op Ans α}
    {r r' : ρ} {a : α} (hR : ∀ op, R op () (ans op) ()) (h : m.eval ans r = some (a, r')) :
    m.Runs R r () a r' () := by
  have hrun := Prog.runs_of_answers hR (m r)
  unfold eval at h
  rw [h] at hrun
  exact hrun

theorem runs_of_eval {ans : (op : Op) → Ans op} {m : Faulty ρ Op Ans α} {r r' : ρ} {a : α}
    (h : m.eval ans r = some (a, r')) : m.Runs Prog.anyAnswer r () a r' () :=
  runs_of_answers (fun _ => trivial) h

/-- Where no run faults and answers are allowed, there is a run that ends in what can be said of all. -/
theorem exists_of_wlp {R : Prog.World Op Ans Unit} {ans : (op : Op) → Ans op} {m : Faulty ρ Op Ans α} {r : ρ}
    {P : α → ρ → Unit → Prop} (hR : ∀ op, R op () (ans op) ()) (hm : m.wlp R False P r ()) : ∃ a r', P a r' () := by
  have hrun := (Prog.wlp_iff_runs _ _ _ _).mp hm _ _ (Prog.runs_of_answers hR (m r))
  cases hend : (m r).eval ans with
  | none =>
    rw [hend] at hrun
    exact hrun.elim
  | some x =>
    rw [hend] at hrun
    exact ⟨x.1, x.2, hrun⟩

end Faulty

end Simta
