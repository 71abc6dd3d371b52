import Simta.Lib.CBuffer
import Simta.Rcpt

/-!
# The receive rules of a host

`local_address` of `receive.c` with every outcome of its lookups and the address as a buffer, which is cut at its `@`
while a rule is looked up.

* `RuleLookup`, `localLoop`, `localAddressIn` — the outcomes of the lookups, the loop and the function;
* `localAddressRules_loop` — the loop with fewer outcomes, as RCPT runs it, is this loop;
* `Consult`, `LocalRule`, `LocalJudged` — the rules and what they say, and what the function is for;
* `localLoop_judged` — what the loop makes of the rules that are left;
* `localAddress_judged_iff` — exactly when an address is judged as its rules say.
-/

set_option autoImplicit false

namespace Simta

/-! ## The function -/

/-- What comes of `db_open_r` and `db_get`. -/
inductive DbLookup
  | openFails
  | found
  | notFound
  | getFails
  deriving DecidableEq, Repr

/-- What comes of `simta_getpwnam`: `fopen`, the reading or `fclose` fails, or there is an entry or none. -/
inductive PwLookup
  | openFails
  | readFails
  | closeFails
  | found
  | notFound
  deriving DecidableEq, Repr

/-- What comes of `simta_ldap_address_local`. -/
inductive LdapLookup
  | badValue
  | sysError
  | notLocal
  | loc
  | localRbl
  deriving DecidableEq, Repr

/-- The outcomes of a lookup of each kind. -/
structure RuleLookup where
  db : DbLookup
  pw : PwLookup
  ldap : LdapLookup
  deriving DecidableEq, Repr

/-- A rule, with what comes of looking up a user. -/
structure ReceiveRule where
  action : Action
  lookup : Text → RuleLookup

/-- What the function returns, how many rules it has looked at, and the buffer. -/
structure LocalRun where
  ret : LocalAddress
  looked : Nat
  buf : List (Option Char)
  deriving DecidableEq, Repr

/-- The loop; `i` is the offset of the `@`, and `required` counts the required rules that matched. -/
def localLoop (i : Nat) : List ReceiveRule → Nat → Nat → List (Option Char) → LocalRun
  | [], required, looked, buf => ⟨if required ≠ 0 then .localAddress else .notLocal, looked, buf⟩
  | rule :: rest, required, looked, buf =>
    let user := headString (buf.set i none)
    let restored := (buf.set i none).set i (some '@')
    let found : LocalRun :=
      if rule.action.aSufficient then ⟨.localAddress, looked + 1, restored⟩
      else localLoop i rest (required + 1) (looked + 1) restored
    let notFound : LocalRun :=
      if rule.action.aSufficient then localLoop i rest required (looked + 1) restored
      else ⟨.notLocal, looked + 1, restored⟩
    match rule.action.aAction with
    | .alias =>
      match (rule.lookup user).db with
      | .openFails => localLoop i rest required (looked + 1) buf
      | .found => found
      | .notFound => notFound
      | .getFails => notFound
    | .password =>
      match (rule.lookup user).pw with
      | .found => found
      | _ => notFound
    | .ldap =>
      match (rule.lookup user).ldap with
      | .badValue => ⟨.localError, looked + 1, restored⟩
      | .sysError => ⟨.localError, looked + 1, restored⟩
      | .notLocal => notFound
      | .loc => found
      | .localRbl => ⟨.localAddressRbl, looked + 1, restored⟩

/-- `local_address`. -/
def localAddressIn (addr : Text) (hostType : RedHostType) (rules : List ReceiveRule) : LocalRun :=
  if '@' ∉ addr then ⟨.notLocal, 0, cells addr⟩
  else if hostType = .secondaryMx then ⟨.mxAddress, 0, cells addr⟩
  else localLoop (addr.idxOf '@') rules 0 0 (cells addr)

/-! ## The rules -/

/-- What consulting a rule gives. -/
inductive Consult
  | matched
  | unmatched
  | failed
  deriving DecidableEq, Repr

/-- A rule and what consulting it gives. -/
structure LocalRule where
  sufficient : Bool
  consult : Consult
  deriving DecidableEq, Repr

/-- What consulting a rule gives for a user. -/
def ReceiveRule.consult (rule : ReceiveRule) (user : Text) : Consult :=
  match rule.action.aAction with
  | .alias =>
    match (rule.lookup user).db with
    | .found => .matched
    | .notFound => .unmatched
    | _ => .failed
  | .password =>
    match (rule.lookup user).pw with
    | .found => .matched
    | .notFound => .unmatched
    | _ => .failed
  | .ldap =>
    match (rule.lookup user).ldap with
    | .notLocal => .unmatched
    | .loc => .matched
    | .localRbl => .matched
    | _ => .failed

/-- The rule as it bears on a user. -/
def ReceiveRule.rule (rule : ReceiveRule) (user : Text) : LocalRule :=
  ⟨rule.action.aSufficient, rule.consult user⟩

/-- Some sufficient rule matches, and each required rule before it was consulted and matched; `looked` rules were
    looked at. -/
def Sufficed (rules : List LocalRule) (looked : Nat) : Prop :=
  ∃ a r b, rules = a ++ r :: b ∧ r.sufficient = true ∧ r.consult = .matched ∧
    (∀ x ∈ a, x.sufficient = false → x.consult = .matched) ∧ ∀ x ∈ a.drop looked, x.sufficient = true

/-- No sufficient rule matches, each required rule was consulted and matched, and there is one. -/
def RequiredMet (rules : List LocalRule) (looked : Nat) : Prop :=
  (∀ x ∈ rules, x.sufficient = true → x.consult ≠ .matched) ∧
    (∀ x ∈ rules, x.sufficient = false → x.consult = .matched) ∧
    (∀ x ∈ rules.drop looked, x.sufficient = true) ∧ ∃ x ∈ rules, x.sufficient = false

/-- A rule that leaves the matter open: a sufficient one that does not match, or a required one that is not known not
    to match. -/
def LocalRule.Open (r : LocalRule) : Prop :=
  if r.sufficient then r.consult ≠ .matched else r.consult ≠ .unmatched

/-- A required rule on which the matter turns could not be consulted. -/
def RequiredFailed (rules : List LocalRule) : Prop :=
  ∃ a r b, rules = a ++ r :: b ∧ r.sufficient = false ∧ r.consult = .failed ∧ ∀ x ∈ a, x.Open

/-- The results by which an address is local. -/
def LocalAddress.Accepts (ret : LocalAddress) : Prop := ret = .localAddress ∨ ret = .localAddressRbl

/-- What the function is for. -/
structure LocalJudged (rules : List LocalRule) (ret : LocalAddress) (looked : Nat) : Prop where
  accepts : ret.Accepts → Sufficed rules looked ∨ RequiredMet rules looked
  failed : RequiredFailed rules → ret = .localError

/-! ## What the loop does with a rule -/

/-- What the loop does with a rule: it passes it by as if it were not there, it takes it as found or as not found, or it
    returns. -/
inductive RuleMove
  | skipped
  | found
  | notFound
  | error
  | rbl
  deriving DecidableEq, Repr

/-- What the loop does with a rule for a user. -/
def ReceiveRule.move (rule : ReceiveRule) (user : Text) : RuleMove :=
  match rule.action.aAction with
  | .alias =>
    match (rule.lookup user).db with
    | .openFails => .skipped
    | .found => .found
    | _ => .notFound
  | .password => if (rule.lookup user).pw = .found then .found else .notFound
  | .ldap =>
    match (rule.lookup user).ldap with
    | .notLocal => .notFound
    | .loc => .found
    | .localRbl => .rbl
    | _ => .error

/-- The result with which a move ends the loop, or by how much it counts. -/
def RuleMove.next : RuleMove → Bool → LocalAddress ⊕ Nat
  | .skipped, _ => .inr 0
  | .found, true => .inl .localAddress
  | .found, false => .inr 1
  | .notFound, true => .inr 0
  | .notFound, false => .inl .notLocal
  | .error, _ => .inl .localError
  | .rbl, _ => .inl .localAddressRbl

theorem localLoop_cons {addr : Text} {i : Nat} (hat : addr[i]? = some '@') (rule : ReceiveRule)
    (rest : List ReceiveRule) (required looked : Nat) :
    localLoop i (rule :: rest) required looked (cells addr) =
      ((rule.move (addr.take i)).next rule.action.aSufficient).elim (fun ret => ⟨ret, looked + 1, cells addr⟩)
        (fun k => localLoop i rest (required + k) (looked + 1) (cells addr)) := by
  have hlt : i < addr.length := (List.getElem?_eq_some_iff.mp hat).choose
  rw [localLoop, headString_cut hlt, cells_restore hat]
  unfold ReceiveRule.move
  cases rule.action.aAction with
  | «alias» => cases (rule.lookup (addr.take i)).db <;> cases rule.action.aSufficient <;> rfl
  | password => cases (rule.lookup (addr.take i)).pw <;> cases rule.action.aSufficient <;> rfl
  | ldap => cases (rule.lookup (addr.take i)).ldap <;> cases rule.action.aSufficient <;> rfl

/-- What the consultation gave that a move goes with. -/
def RuleMove.goesWith : RuleMove → Consult → Bool
  | .skipped, c => c = .failed
  | .found, c => c = .matched
  | .notFound, c => c ≠ .matched
  | .error, c => c = .failed
  | .rbl, c => c = .matched

theorem ReceiveRule.move_consult (rule : ReceiveRule) (user : Text) :
    (rule.move user).goesWith (rule.consult user) = true := by
  unfold ReceiveRule.move ReceiveRule.consult
  cases rule.action.aAction with
  | «alias» => cases (rule.lookup user).db <;> rfl
  | password => cases (rule.lookup user).pw <;> rfl
  | ldap => cases (rule.lookup user).ldap <;> rfl

/-! ## The loop as RCPT runs it -/

variable {σ : Type} {R : Prog.World RecvOp RecvAns σ}

/-- What RCPT gets of a loop is what the loop returns with some outcomes of its lookups. -/
def LoopReturns (addr : Text) (i : Nat) (rules : List Action) (required : Nat) (ret : LocalAddress) : Prop :=
  ∀ looked, ∃ rs : List ReceiveRule, rs.map ReceiveRule.action = rules ∧
    ret = (localLoop i rs required looked (cells addr)).ret

theorem LoopReturns.cons {addr : Text} {i : Nat} (hat : addr[i]? = some '@') {action : Action} {rest : List Action}
    {required : Nat} {ret : LocalAddress} (lookup : RuleLookup)
    (h : (((ReceiveRule.mk action fun _ => lookup).move (addr.take i)).next action.aSufficient).elim (ret = ·)
      (fun k => LoopReturns addr i rest (required + k) ret)) : LoopReturns addr i (action :: rest) required ret := by
  intro looked
  revert h
  cases hnext : ((ReceiveRule.mk action fun _ => lookup).move (addr.take i)).next action.aSufficient with
  | inl ret' =>
    rintro rfl
    refine ⟨⟨action, fun _ => lookup⟩ :: rest.map fun a => ⟨a, fun _ => lookup⟩, ?_, ?_⟩
    · rw [List.map_cons, List.map_map]
      exact congrArg _ (List.map_id rest)
    · rw [localLoop_cons hat, hnext]
      rfl
  | inr k =>
    intro h
    obtain ⟨rs, hrs, hret⟩ := h (looked + 1)
    refine ⟨⟨action, fun _ => lookup⟩ :: rs, by rw [List.map_cons, hrs], ?_⟩
    rw [localLoop_cons hat, hnext]
    exact hret

/-- **RCPT runs this loop:** where its lookups have fewer outcomes, each of its runs is one of the loop here. -/
theorem localAddressRules_loop {addr : Text} {i : Nat} (hat : addr[i]? = some '@') (domain : Text) (rules : List Action)
    (required : Nat) {r : ReceiveData} {s : σ} :
    (localAddressRules (addr.take i) domain rules required).wlp R
      (fun ret _ _ => LoopReturns addr i rules required ret) r s := by
  induction rules generalizing required r s with
  | nil => exact fun looked => ⟨[], rfl, rfl⟩
  | cons action rest ih =>
    -- what a rule does with the outcome of its lookup
    have hdecide : ∀ (found : Bool) t (lookup : RuleLookup),
        (ReceiveRule.mk action fun _ => lookup).move (addr.take i) = (if found then .found else .notFound) →
        Stateful.wlp R (if found then
            if action.aSufficient then (pure .localAddress : Recv LocalAddress)
            else localAddressRules (addr.take i) domain rest (required + 1)
          else if action.aSufficient then localAddressRules (addr.take i) domain rest required
          else pure .notLocal) (fun ret _ _ => LoopReturns addr i (action :: rest) required ret) r t := by
      intro found t lookup hmove
      have hcons : ∀ ret, _ → _ := fun ret => @LoopReturns.cons addr i hat action rest required ret lookup
      cases found with
      | true =>
        cases hsuff : action.aSufficient with
        | true => exact hcons .localAddress (by rw [hmove, hsuff]; rfl)
        | false =>
          exact Stateful.wlp_mono (fun ret _ _ h => hcons ret (by rw [hmove, hsuff]; exact h)) (ih (required + 1))
      | false =>
        cases hsuff : action.aSufficient with
        | true => exact Stateful.wlp_mono (fun ret _ _ h => hcons ret (by rw [hmove, hsuff]; exact h)) (ih required)
        | false => exact hcons .notLocal (by rw [hmove, hsuff]; rfl)
    unfold localAddressRules
    dsimp only
    cases haction : action.aAction with
    | «alias» =>
      refine Recv.wlp_ask fun opened t _ => ?_
      cases opened with
      | false =>
        refine Stateful.wlp_mono (fun ret _ _ h => LoopReturns.cons hat ⟨.openFails, .notFound, .notLocal⟩ ?_)
          (ih required)
        simpa [ReceiveRule.move, haction, RuleMove.next] using h
      | true =>
        refine Recv.wlp_ask fun found t' _ =>
          hdecide found t' ⟨if found then .found else .notFound, .notFound, .notLocal⟩ ?_
        cases found <;> simp [ReceiveRule.move, haction]
    | password =>
      refine Recv.wlp_ask fun found t' _ =>
        hdecide found t' ⟨.notFound, if found then .found else .notFound, .notLocal⟩ ?_
      cases found <;> simp [ReceiveRule.move, haction]
    | ldap =>
      refine Recv.wlp_ask fun answer t' _ => ?_
      cases answer with
      | sysError =>
        exact LoopReturns.cons hat ⟨.notFound, .notFound, .sysError⟩
          (by simp [ReceiveRule.move, haction, RuleMove.next])
      | notLocal => exact hdecide false t' ⟨.notFound, .notFound, .notLocal⟩ (by simp [ReceiveRule.move, haction])
      | loc => exact hdecide true t' ⟨.notFound, .notFound, .loc⟩ (by simp [ReceiveRule.move, haction])
      | localRbl =>
        exact LoopReturns.cons hat ⟨.notFound, .notFound, .localRbl⟩
          (by simp [ReceiveRule.move, haction, RuleMove.next])

/-! ## When an address is judged as the rules say -/

/-- An LDAP rule that cannot be consulted is reached, so that the loop returns `LOCAL_ERROR`. -/
def ErrorAhead (user : Text) : List ReceiveRule → Prop
  | [] => False
  | rule :: rest =>
    match rule.move user with
    | .skipped => ErrorAhead user rest
    | .found => rule.action.aSufficient = false ∧ ErrorAhead user rest
    | .notFound => rule.action.aSufficient = true ∧ ErrorAhead user rest
    | .error => True
    | .rbl => False

/-- Up to the first sufficient rule that matches there is no required rule. -/
def NoRequiredAhead : List LocalRule → Prop
  | [] => True
  | r :: rest => r.sufficient = true ∧ (r.consult = .matched ∨ NoRequiredAhead rest)

/-- Of the rules that are reached, no required alias rule is passed by because its file does not open (unless an LDAP
    error ends the matter anyway), no other required rule fails but an LDAP rule, and behind a required LDAP rule that
    names a block list there is no other required rule. -/
def RulesKept (user : Text) : List ReceiveRule → Prop
  | [] => True
  | rule :: rest =>
    match rule.move user with
    | .skipped => if rule.action.aSufficient then RulesKept user rest else ErrorAhead user rest
    | .found => rule.action.aSufficient = true ∨ RulesKept user rest
    | .notFound => if rule.action.aSufficient then RulesKept user rest else rule.consult user = .unmatched
    | .error => True
    | .rbl => rule.action.aSufficient = true ∨ NoRequiredAhead (rest.map fun r => r.rule user)

theorem localLoop_error_iff {addr : Text} {i : Nat} (hat : addr[i]? = some '@') (rules : List ReceiveRule)
    (required looked : Nat) :
    (localLoop i rules required looked (cells addr)).ret = .localError ↔ ErrorAhead (addr.take i) rules := by
  induction rules generalizing required looked with
  | nil =>
    refine iff_of_false ?_ id
    show (if required ≠ 0 then LocalAddress.localAddress else .notLocal) ≠ .localError
    split <;> decide
  | cons rule rest ih =>
    rw [localLoop_cons hat, ErrorAhead]
    cases rule.move (addr.take i) with
    | skipped => exact ih _ _
    | found =>
      cases rule.action.aSufficient with
      | true => simp [RuleMove.next]
      | false => simp [RuleMove.next, ih]
    | notFound =>
      cases rule.action.aSufficient with
      | true => simp [RuleMove.next, ih]
      | false => simp [RuleMove.next]
    | error => simp [RuleMove.next]
    | rbl => simp [RuleMove.next]

theorem noRequiredAhead_iff {rules : List LocalRule} : NoRequiredAhead rules ↔
    (∀ x ∈ rules, x.sufficient = true ∧ x.consult ≠ .matched) ∨
      ∃ a r b, rules = a ++ r :: b ∧ r.sufficient = true ∧ r.consult = .matched ∧ ∀ x ∈ a, x.sufficient = true := by
  induction rules with
  | nil => exact iff_of_true trivial (.inl fun x hx => absurd hx List.not_mem_nil)
  | cons r rest ih =>
    rw [NoRequiredAhead, ih]
    constructor
    · rintro ⟨hsuff, hmatch | hall | ⟨a, x, b, rfl, hx⟩⟩
      · exact .inr ⟨[], r, rest, rfl, hsuff, hmatch, fun x hx => absurd hx List.not_mem_nil⟩
      · by_cases hmatch : r.consult = .matched
        · exact .inr ⟨[], r, rest, rfl, hsuff, hmatch, fun x hx => absurd hx List.not_mem_nil⟩
        · exact .inl (List.forall_mem_cons.mpr ⟨⟨hsuff, hmatch⟩, hall⟩)
      · exact .inr ⟨r :: a, x, b, rfl, hx.1, hx.2.1, List.forall_mem_cons.mpr ⟨hsuff, hx.2.2⟩⟩
    · rintro (hall | ⟨a, x, b, heq, hsuff, hmatch, ha⟩)
      · obtain ⟨hr, hall⟩ := List.forall_mem_cons.mp hall
        exact ⟨hr.1, .inr (.inl hall)⟩
      · cases a with
        | nil =>
          obtain ⟨rfl, rfl⟩ := List.cons.inj heq
          exact ⟨hsuff, .inl hmatch⟩
        | cons y a =>
          obtain ⟨rfl, rfl⟩ := List.cons.inj heq
          obtain ⟨hy, ha⟩ := List.forall_mem_cons.mp ha
          exact ⟨hy, .inr (.inr ⟨a, x, b, rfl, hsuff, hmatch, ha⟩)⟩

/-- The rules that were passed by: no sufficient one matched, each required one did. -/
def PassedRules (pre : List LocalRule) : Prop :=
  (∀ x ∈ pre, x.sufficient = true → x.consult ≠ .matched) ∧ ∀ x ∈ pre, x.sufficient = false → x.consult = .matched

theorem PassedRules.isOpen {pre : List LocalRule} (h : PassedRules pre) : ∀ x ∈ pre, x.Open := by
  intro x hx
  unfold LocalRule.Open
  cases hsuff : x.sufficient with
  | true => exact h.1 x hx hsuff
  | false =>
    show x.consult ≠ .unmatched
    rw [h.2 x hx hsuff]
    decide

theorem PassedRules.snoc {pre : List LocalRule} (h : PassedRules pre) {r : LocalRule}
    (hs : r.sufficient = true → r.consult ≠ .matched) (hr : r.sufficient = false → r.consult = .matched) :
    PassedRules (pre ++ [r]) := by
  constructor
  · intro x hx
    obtain hx | hx := List.mem_append.mp hx
    · exact h.1 x hx
    · obtain rfl := List.mem_singleton.mp hx
      exact hs
  · intro x hx
    obtain hx | hx := List.mem_append.mp hx
    · exact h.2 x hx
    · obtain rfl := List.mem_singleton.mp hx
      exact hr

/-- Where a rule stands, seen from another. -/
theorem split_cases {α : Type} {pre rest a b : List α} {r x : α} (h : pre ++ r :: rest = a ++ x :: b) :
    x ∈ pre ∨ (x = r ∧ a = pre) ∨ ∃ a', a = pre ++ r :: a' ∧ rest = a' ++ x :: b := by
  obtain ⟨c, rfl, hc⟩ | ⟨c, rfl, hc⟩ := List.append_eq_append_iff.mp h
  · cases c with
    | nil =>
      obtain ⟨rfl, rfl⟩ := List.cons.inj hc
      exact .inr (.inl ⟨rfl, List.append_nil pre⟩)
    | cons y c =>
      obtain ⟨rfl, rfl⟩ := List.cons.inj hc
      exact .inr (.inr ⟨c, rfl, rfl⟩)
  · cases c with
    | nil =>
      obtain ⟨rfl, rfl⟩ := List.cons.inj hc
      exact .inr (.inl ⟨rfl, (List.append_nil a).symm⟩)
    | cons y c =>
      obtain ⟨rfl, rfl⟩ := List.cons.inj hc
      exact .inl (by simp)

/-- Behind a rule that settles the matter nothing turns on a rule that fails. -/
theorem PassedRules.not_requiredFailed {pre rest : List LocalRule} (h : PassedRules pre) {r : LocalRule}
    (hopen : ¬ r.Open) : ¬ RequiredFailed (pre ++ r :: rest) := by
  rintro ⟨a, x, b, heq, hreq, hfail, ha⟩
  obtain hx | ⟨rfl, -⟩ | ⟨a', rfl, -⟩ := split_cases heq
  · rw [h.2 x hx hreq] at hfail
    cases hfail
  · apply hopen
    unfold LocalRule.Open
    rw [hreq, hfail]
    decide
  · exact hopen (ha r (by simp))

theorem not_open_of_matched {r : LocalRule} (hs : r.sufficient = true) (hm : r.consult = .matched) : ¬ r.Open := by
  unfold LocalRule.Open
  rw [if_pos hs]
  exact fun h => h hm

theorem not_open_of_unmatched {r : LocalRule} (hs : r.sufficient = false) (hm : r.consult = .unmatched) : ¬ r.Open := by
  unfold LocalRule.Open
  rw [if_neg (by simp [hs])]
  exact fun h => h hm

/-- A sufficient rule that matches settles the matter. -/
theorem PassedRules.judged_sufficient {pre rest : List LocalRule} (h : PassedRules pre) {r : LocalRule}
    (hs : r.sufficient = true) (hm : r.consult = .matched) {ret : LocalAddress} {looked : Nat}
    (hlooked : pre.length ≤ looked) : LocalJudged (pre ++ r :: rest) ret looked := by
  constructor
  · intro _
    refine .inl ⟨pre, r, rest, rfl, hs, hm, h.2, fun x hx => ?_⟩
    rw [List.drop_eq_nil_of_le hlooked] at hx
    exact absurd hx List.not_mem_nil
  · exact fun hfail => absurd hfail (h.not_requiredFailed (not_open_of_matched hs hm))

/-- A required rule that matches ends the matter only when no other required rule is in question. -/
theorem PassedRules.judged_rbl_iff {pre rest : List LocalRule} (h : PassedRules pre) {r : LocalRule}
    (hs : r.sufficient = false) (hm : r.consult = .matched) :
    LocalJudged (pre ++ r :: rest) .localAddressRbl (pre.length + 1) ↔ NoRequiredAhead rest := by
  have hdrop : ∀ t : List LocalRule, (pre ++ r :: t).drop (pre.length + 1) = t := by
    intro t
    rw [List.append_cons, List.drop_left' (by simp)]
  rw [noRequiredAhead_iff]
  constructor
  · rintro ⟨haccepts, -⟩
    obtain ⟨a, x, b, heq, hx, hmatch, -, ha⟩ | ⟨hnone, -, hdropped, -⟩ := haccepts (.inr rfl)
    · obtain hmem | ⟨rfl, -⟩ | ⟨a', rfl, rfl⟩ := split_cases heq
      · exact absurd hmatch (h.1 x hmem hx)
      · rw [hs] at hx
        cases hx
      · rw [hdrop] at ha
        exact .inr ⟨a', x, b, rfl, hx, hmatch, ha⟩
    · rw [hdrop] at hdropped
      exact .inl fun x hx => ⟨hdropped x hx, hnone x (by simp [hx]) (hdropped x hx)⟩
  · intro hahead
    constructor
    · intro _
      obtain hall | ⟨a, x, b, rfl, hx, hmatch, ha⟩ := hahead
      · refine .inr ⟨?_, ?_, ?_, r, by simp, hs⟩
        · intro x hx hsuff
          obtain hx | hx := List.mem_append.mp hx
          · exact h.1 x hx hsuff
          · obtain rfl | hx := List.mem_cons.mp hx
            · rw [hs] at hsuff
              cases hsuff
            · exact (hall x hx).2
        · intro x hx hreq
          obtain hx | hx := List.mem_append.mp hx
          · exact h.2 x hx hreq
          · obtain rfl | hx := List.mem_cons.mp hx
            · exact hm
            · rw [(hall x hx).1] at hreq
              cases hreq
        · rw [hdrop]
          exact fun x hx => (hall x hx).1
      · refine .inl ⟨pre ++ r :: a, x, b, by simp, hx, hmatch, ?_, by rwa [hdrop]⟩
        intro y hy hreq
        obtain hy | hy := List.mem_append.mp hy
        · exact h.2 y hy hreq
        · obtain rfl | hy := List.mem_cons.mp hy
          · exact hm
          · rw [ha y hy] at hreq
            cases hreq
    · rintro ⟨a, x, b, heq, hreq, hfail, hopen⟩
      exfalso
      obtain hmem | ⟨rfl, -⟩ | ⟨a', rfl, rfl⟩ := split_cases heq
      · rw [h.2 x hmem hreq] at hfail
        cases hfail
      · rw [hm] at hfail
        cases hfail
      · obtain hall | ⟨a'', y, b', heq', hy, hmatch, ha⟩ := hahead
        · rw [(hall x (by simp)).1] at hreq
          cases hreq
        · -- the sufficient rule that matches comes before the one that fails, and is not open
          obtain hmem | ⟨rfl, -⟩ | ⟨c, rfl, -⟩ := split_cases heq'
          · exact not_open_of_matched hy hmatch (hopen y (by simp [hmem]))
          · rw [hy] at hreq
            cases hreq
          · rw [ha x (by simp)] at hreq
            cases hreq

theorem LocalJudged.of_error {rules : List LocalRule} {looked : Nat} : LocalJudged rules .localError looked :=
  ⟨(by rintro (h | h) <;> cases h), fun _ => rfl⟩

/-- **What the loop makes of the rules that are left,** behind rules that were passed by. -/
theorem localLoop_judged {addr : Text} {i : Nat} (hat : addr[i]? = some '@') (rules : List ReceiveRule)
    {pre : List LocalRule} {required : Nat} (hpre : PassedRules pre)
    (hrequired : required ≠ 0 ↔ ∃ x ∈ pre, x.sufficient = false) :
    LocalJudged (pre ++ rules.map fun r => r.rule (addr.take i))
        (localLoop i rules required pre.length (cells addr)).ret
        (localLoop i rules required pre.length (cells addr)).looked ↔
      RulesKept (addr.take i) rules := by
  induction rules generalizing pre required with
  | nil =>
    refine iff_of_true ?_ trivial
    show LocalJudged (pre ++ []) (if required ≠ 0 then _ else _) pre.length
    rw [List.append_nil]
    constructor
    · intro haccepts
      by_cases hreq : required ≠ 0
      · exact .inr ⟨hpre.1, hpre.2, by simp, hrequired.mp hreq⟩
      · rw [if_neg hreq] at haccepts
        obtain h | h := haccepts <;> cases h
    · rintro ⟨a, x, b, rfl, hreq, hfail, -⟩
      rw [hpre.2 x (by simp) hreq] at hfail
      cases hfail
  | cons rule rest ih =>
    have hgoes := rule.move_consult (addr.take i)
    -- the rule is passed by, and the loop goes on
    have hpass : ∀ {required' : Nat}, (rule.action.aSufficient = true → rule.consult (addr.take i) ≠ .matched) →
        (rule.action.aSufficient = false → rule.consult (addr.take i) = .matched) →
        (required' ≠ 0 ↔ ∃ x ∈ pre ++ [rule.rule (addr.take i)], x.sufficient = false) →
        (LocalJudged (pre ++ (rule :: rest).map fun r => r.rule (addr.take i))
            (localLoop i rest required' (pre.length + 1) (cells addr)).ret
            (localLoop i rest required' (pre.length + 1) (cells addr)).looked ↔ RulesKept (addr.take i) rest) := by
      intro required' hs hr hcount
      have hnext := ih (hpre.snoc hs hr) hcount
      rw [List.length_append, List.length_singleton, List.append_assoc] at hnext
      exact hnext
    rw [localLoop_cons hat, RulesKept]
    cases hmove : rule.move (addr.take i) with
    | skipped =>
      have hfailed : rule.consult (addr.take i) = .failed := by simpa [hmove, RuleMove.goesWith] using hgoes
      cases hsuff : rule.action.aSufficient with
      | true =>
        exact hpass (fun _ => by rw [hfailed]; decide) (fun h => by rw [hsuff] at h; cases h)
          (by simp [hrequired, ReceiveRule.rule, hsuff])
      | false =>
        show LocalJudged _ (localLoop i rest required (pre.length + 1) (cells addr)).ret _ ↔ ErrorAhead _ rest
        rw [← localLoop_error_iff hat rest required (pre.length + 1)]
        constructor
        · intro h
          exact h.failed ⟨pre, _, _, rfl, hsuff, hfailed, hpre.isOpen⟩
        · intro h
          rw [h]
          exact LocalJudged.of_error
    | found =>
      have hmatched : rule.consult (addr.take i) = .matched := by simpa [hmove, RuleMove.goesWith] using hgoes
      cases hsuff : rule.action.aSufficient with
      | true => exact iff_of_true (hpre.judged_sufficient hsuff hmatched (Nat.le_succ _)) (.inl rfl)
      | false =>
        have hnext := @hpass (required + 1) (fun h => by rw [hsuff] at h; cases h) (fun _ => hmatched)
          (by simp [ReceiveRule.rule, hsuff])
        simpa [RuleMove.next] using hnext
    | notFound =>
      have hnot : rule.consult (addr.take i) ≠ .matched := by simpa [hmove, RuleMove.goesWith] using hgoes
      cases hsuff : rule.action.aSufficient with
      | true =>
        exact hpass (fun _ => hnot) (fun h => by rw [hsuff] at h; cases h)
          (by simp [hrequired, ReceiveRule.rule, hsuff])
      | false =>
        show LocalJudged _ .notLocal (pre.length + 1) ↔ rule.consult (addr.take i) = .unmatched
        constructor
        · intro h
          by_contra hun
          have hfailed : rule.consult (addr.take i) = .failed := by
            cases hc : rule.consult (addr.take i) with
            | matched => exact absurd hc hnot
            | unmatched => exact absurd hc hun
            | failed => rfl
          have := h.failed ⟨pre, _, _, rfl, hsuff, hfailed, hpre.isOpen⟩
          cases this
        · intro hun
          have hclosed := not_open_of_unmatched (r := rule.rule (addr.take i)) hsuff hun
          exact ⟨(by rintro (h | h) <;> cases h), fun h => absurd h (hpre.not_requiredFailed hclosed)⟩
    | error => exact iff_of_true LocalJudged.of_error trivial
    | rbl =>
      have hmatched : rule.consult (addr.take i) = .matched := by simpa [hmove, RuleMove.goesWith] using hgoes
      cases hsuff : rule.action.aSufficient with
      | true => exact iff_of_true (hpre.judged_sufficient hsuff hmatched (Nat.le_succ _)) (.inl rfl)
      | false =>
        show LocalJudged _ .localAddressRbl (pre.length + 1) ↔ false = true ∨ NoRequiredAhead _
        simp only [Bool.false_eq_true, false_or]
        exact hpre.judged_rbl_iff hsuff hmatched

theorem localLoop_buf {addr : Text} {i : Nat} (hat : addr[i]? = some '@') (rules : List ReceiveRule)
    (required looked : Nat) : (localLoop i rules required looked (cells addr)).buf = cells addr := by
  induction rules generalizing required looked with
  | nil => rfl
  | cons rule rest ih =>
    rw [localLoop_cons hat]
    cases rule.move (addr.take i) with
    | skipped => exact ih _ _
    | error => rfl
    | rbl => rfl
    | _ =>
      cases rule.action.aSufficient with
      | true => first | rfl | exact ih _ _
      | false => first | rfl | exact ih _ _

/-! ## The function -/

/-- What `local_address` is for: with any rules and outcomes, an address of a host that is ours is judged by the rules of
    that host, no other is local, and the buffer is left as it was. -/
structure AddressJudged (addr : Text) (hostType : RedHostType) (rules : List ReceiveRule) : Prop where
  judged : '@' ∈ addr → hostType ≠ .secondaryMx →
    LocalJudged (rules.map fun r => r.rule (addr.takeWhile (· ≠ '@'))) (localAddressIn addr hostType rules).ret
      (localAddressIn addr hostType rules).looked
  other : '@' ∉ addr ∨ hostType = .secondaryMx → ¬ (localAddressIn addr hostType rules).ret.Accepts
  restored : (localAddressIn addr hostType rules).buf = cells addr

/-- The first `@`, and what stands before it. -/
theorem getElem?_idxOf_at {addr : Text} (h : '@' ∈ addr) :
    addr[addr.idxOf '@']? = some '@' ∧ addr.take (addr.idxOf '@') = addr.takeWhile (· ≠ '@') := by
  induction addr with
  | nil => exact absurd h List.not_mem_nil
  | cons c rest ih =>
    by_cases hc : c = '@'
    · subst hc
      simp
    · obtain ⟨hget, htake⟩ := ih ((List.mem_cons.mp h).resolve_left (Ne.symm hc))
      rw [List.idxOf_cons_ne _ hc, List.takeWhile_cons_of_pos (by simpa using hc)]
      exact ⟨hget, congrArg (c :: ·) htake⟩

/-- **An address is judged as the rules of its host say** exactly when no required rule is passed by or fails without
    notice, and no required rule that names a block list cuts off another required one. -/
theorem localAddress_judged_iff (addr : Text) (hostType : RedHostType) (rules : List ReceiveRule) :
    AddressJudged addr hostType rules ↔
      ('@' ∈ addr → hostType ≠ .secondaryMx → RulesKept (addr.takeWhile (· ≠ '@')) rules) := by
  by_cases hat : '@' ∈ addr
  · obtain ⟨hget, htake⟩ := getElem?_idxOf_at hat
    have hnot : ¬ '@' ∉ addr := fun h => h hat
    by_cases htype : hostType = .secondaryMx
    · have hrun : localAddressIn addr hostType rules = ⟨.mxAddress, 0, cells addr⟩ := by
        rw [localAddressIn, if_neg hnot, if_pos htype]
      refine iff_of_true ⟨fun _ h => absurd htype h, fun _ => ?_, by rw [hrun]⟩ (fun _ h => absurd htype h)
      rw [hrun]
      rintro (h | h) <;> cases h
    · have hrun : localAddressIn addr hostType rules = localLoop (addr.idxOf '@') rules 0 0 (cells addr) := by
        rw [localAddressIn, if_neg hnot, if_neg htype]
      have hloop := @localLoop_judged addr _ hget rules [] 0 ⟨by simp, by simp⟩ (by simp)
      rw [List.nil_append, List.length_nil, htake] at hloop
      constructor
      · intro h _ _
        have hjudged := h.judged hat htype
        rw [hrun] at hjudged
        exact hloop.mp hjudged
      · intro h
        refine ⟨fun _ _ => ?_, ?_, ?_⟩
        · rw [hrun]
          exact hloop.mpr (h hat htype)
        · rintro (h' | h')
          · exact absurd hat h'
          · exact absurd h' htype
        · rw [hrun]
          exact localLoop_buf hget rules 0 0
  · have hrun : localAddressIn addr hostType rules = ⟨.notLocal, 0, cells addr⟩ := by
      rw [localAddressIn, if_pos hat]
    refine iff_of_true ⟨fun h => absurd h hat, fun _ => ?_, by rw [hrun]⟩ (fun h => absurd h hat)
    rw [hrun]
    rintro (h | h) <;> cases h

/-- A required alias rule, whose file does not open, in front of a sufficient password rule that finds the user. -/
def closedRules : List ReceiveRule :=
  [⟨⟨.alias, false, some "/etc/members.db".toList⟩, fun _ => ⟨.openFails, .notFound, .notLocal⟩⟩,
    ⟨⟨.password, true, some "/etc/passwd".toList⟩, fun _ => ⟨.openFails, .found, .notLocal⟩⟩]

/-- The required rule is skipped, and the address is local. -/
theorem not_localAddress_judged : ¬ AddressJudged "u@h.org".toList .loc closedRules := by
  intro h
  have hret : (localAddressIn "u@h.org".toList .loc closedRules).ret = .localAddress := by decide
  have hfailed := (h.judged (by decide) (by decide)).failed
    ⟨[], ⟨false, .failed⟩, [⟨true, .matched⟩], rfl, rfl, rfl, fun x hx => absurd hx List.not_mem_nil⟩
  rw [hret] at hfailed
  cases hfailed

end Simta
