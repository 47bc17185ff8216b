import Mathlib.Order.Lattice
import TicketBooking.Parties
import TicketBooking.Retry
import TicketBooking.Runs
/-!
# AttemptBudget — one manager, many functions with budgets of their own (`RetryManager.decorator`)

A decorated function with a budget of its own saves the manager's `max_attempts`, sets its own, makes its call and puts
back what it saved.  The field is the manager's, so it is the budget of every call in progress, nested or in another
thread, and the loop of `call` reads it again at every turn.  `BudgetState` is the field and the calls begun so far, a
step is one step of one call, and `kept_iff_along` is the exact condition on the steps of a run under which no call is
run by another's budget and the manager keeps its own.  Calls made one at a time meet it, calls that nest, and calls
that overlap in any way as long as all budgets are the manager's (`along_guard_of_alone`, `along_guard_of_nested`,
`along_guard_of_same`).
-/
namespace Ticket

inductive BudgetPhase where
  /-- the old budget is saved and the own one not yet set -/
  | setting
  /-- before a test of the loop, at its start or after a failure -/
  | testing
  | invoking
  /-- the loop is left and the old budget not yet put back -/
  | leaving
  | done
  deriving DecidableEq

/-- A call of a decorated function.  `old` is the local of that name: a call with no budget of its own has none. -/
structure BudgetCall where
  override : Option ℤ
  old : ℤ
  attempt : ℕ
  invocations : ℕ
  phase : BudgetPhase
  deriving DecidableEq

inductive BudgetAct where
  | set
  | test
  /-- the function returns, or raises what is not retried -/
  | pass
  /-- the function raises what may be retried, and the budget is compared -/
  | fail
  /-- the logger or the sleep before the next test raises -/
  | abort
  | leave
  deriving DecidableEq

namespace BudgetCall

/-- `_wrapped`, up to `old = mgr.max_attempts`. -/
def start (override : Option ℤ) (field : ℤ) : BudgetCall :=
  ⟨override, field, 0, 0, if override.isSome = true then .setting else .testing⟩

/-- A step of a call while the manager's `max_attempts` is `field`: what the field is then, and the call. -/
def act (field : ℤ) (c : BudgetCall) : BudgetAct → Option (ℤ × BudgetCall)
  | .set => if c.phase = .setting then some (c.override.getD field, { c with phase := .testing }) else none
  | .test =>
    if c.phase = .testing then
      if (c.attempt : ℤ) < field then some (field, { c with invocations := c.invocations + 1, phase := .invoking })
      else some (field, { c with phase := .leaving })
    else none
  | .pass => if c.phase = .invoking then some (field, { c with phase := .leaving }) else none
  | .fail =>
    if c.phase = .invoking then
      let attempt := c.attempt + 1
      some (field, { c with attempt := attempt, phase := if field ≤ attempt then .leaving else .testing })
    else none
  | .abort => if c.phase = .testing ∧ 1 ≤ c.attempt then some (field, { c with phase := .leaving }) else none
  | .leave =>
    if c.phase = .leaving then some (if c.override.isSome = true then c.old else field, { c with phase := .done })
    else none

end BudgetCall

structure BudgetState where
  maxAttempts : ℤ
  calls : List BudgetCall

inductive BudgetEvent where
  | start (override : Option ℤ)
  /-- a step of the call begun after `k` others -/
  | act (k : ℕ) (a : BudgetAct)
  deriving DecidableEq

namespace BudgetState

open Runs

/-- A manager as it is constructed. -/
def new (maxAttempts : ℤ) : BudgetState := ⟨max 1 maxAttempts, []⟩

def step (s : BudgetState) : BudgetEvent → Unit × BudgetState
  | .start override => ((), { s with calls := s.calls ++ [BudgetCall.start override s.maxAttempts] })
  | .act k a =>
    let r := Parties.move BudgetCall.act (s.maxAttempts, s.calls) k a
    ((), ⟨r.1, r.2⟩)

end BudgetState

namespace BudgetCall

/-- The budget of a call: its own, or the manager's. -/
def budget (configured : ℤ) (c : BudgetCall) : ℤ := max 1 (c.override.getD configured)

/-- The loop is behind the call. -/
def Past (c : BudgetCall) : Prop := c.phase = .leaving ∨ c.phase = .done

/-- **The call keeps to its budget**, and does not leave its loop without an invocation. -/
def Kept (configured : ℤ) (c : BudgetCall) : Prop :=
  c.invocations ≤ c.budget configured ∧ (c.Past → 1 ≤ c.invocations)

/-- How often the function has been invoked, by what the call has counted. -/
def Counted (c : BudgetCall) : Prop :=
  (c.phase = .setting → c.attempt = 0 ∧ c.invocations = 0) ∧ (c.phase = .testing → c.invocations = c.attempt) ∧
    (c.phase = .invoking → c.invocations = c.attempt + 1)

theorem one_le_budget (configured : ℤ) (c : BudgetCall) : 1 ≤ c.budget configured := le_max_left _ _

theorem counted_start (override : Option ℤ) (field : ℤ) : (start override field).Counted := by
  unfold start Counted
  cases override <;> simp

/-- **What a step of a call can do.** -/
theorem act_cases {c c' : BudgetCall} {field field' : ℤ} {a : BudgetAct} (h : c.act field a = some (field', c')) :
    (a = .set ∧ c.phase = .setting ∧ field' = c.override.getD field ∧ c' = { c with phase := .testing }) ∨
    (a = .test ∧ c.phase = .testing ∧ (c.attempt : ℤ) < field ∧ field' = field ∧
      c' = { c with invocations := c.invocations + 1, phase := .invoking }) ∨
    (a = .test ∧ c.phase = .testing ∧ field ≤ c.attempt ∧ field' = field ∧ c' = { c with phase := .leaving }) ∨
    (a = .pass ∧ c.phase = .invoking ∧ field' = field ∧ c' = { c with phase := .leaving }) ∨
    (a = .fail ∧ c.phase = .invoking ∧ field' = field ∧ ∃ phase, (phase = .leaving ∨ phase = .testing) ∧
      c' = { c with attempt := c.attempt + 1, phase := phase }) ∨
    (a = .abort ∧ c.phase = .testing ∧ 1 ≤ c.attempt ∧ field' = field ∧ c' = { c with phase := .leaving }) ∨
    (a = .leave ∧ c.phase = .leaving ∧ field' = (if c.override.isSome = true then c.old else field) ∧
      c' = { c with phase := .done }) := by
  cases a with
  | set =>
    obtain ⟨hp, rfl, rfl⟩ := Parties.of_guarded h
    exact Or.inl ⟨rfl, hp, rfl, rfl⟩
  | test =>
    rw [act, Option.ite_none_right_eq_some] at h
    obtain ⟨hp, h⟩ := h
    by_cases hlt : (c.attempt : ℤ) < field
    · rw [if_pos hlt] at h
      obtain ⟨rfl, rfl⟩ := Prod.mk.inj (Option.some.inj h)
      exact Or.inr (Or.inl ⟨rfl, hp, hlt, rfl, rfl⟩)
    · rw [if_neg hlt] at h
      obtain ⟨rfl, rfl⟩ := Prod.mk.inj (Option.some.inj h)
      exact Or.inr (Or.inr (Or.inl ⟨rfl, hp, not_lt.1 hlt, rfl, rfl⟩))
  | pass =>
    obtain ⟨hp, rfl, rfl⟩ := Parties.of_guarded h
    exact Or.inr (Or.inr (Or.inr (Or.inl ⟨rfl, hp, rfl, rfl⟩)))
  | fail =>
    obtain ⟨hp, rfl, rfl⟩ := Parties.of_guarded h
    refine Or.inr (Or.inr (Or.inr (Or.inr (Or.inl ⟨rfl, hp, rfl, _, ?_, rfl⟩))))
    split
    · exact Or.inl rfl
    · exact Or.inr rfl
  | abort =>
    obtain ⟨⟨hp, hone⟩, rfl, rfl⟩ := Parties.of_guarded h
    exact Or.inr (Or.inr (Or.inr (Or.inr (Or.inr (Or.inl ⟨rfl, hp, hone, rfl, rfl⟩)))))
  | leave =>
    obtain ⟨hp, rfl, rfl⟩ := Parties.of_guarded h
    exact Or.inr (Or.inr (Or.inr (Or.inr (Or.inr (Or.inr ⟨rfl, hp, rfl, rfl⟩)))))

theorem counted_act {c c' : BudgetCall} {field field' : ℤ} {a : BudgetAct} (h : c.Counted)
    (ha : c.act field a = some (field', c')) : c'.Counted := by
  obtain ⟨hs, ht, hi⟩ := h
  rcases act_cases ha with ⟨-, hp, -, rfl⟩ | ⟨-, hp, -, -, rfl⟩ | ⟨-, -, -, -, rfl⟩ | ⟨-, -, -, rfl⟩ |
    ⟨-, hp, -, phase, hphase, rfl⟩ | ⟨-, -, -, -, rfl⟩ | ⟨-, -, -, rfl⟩
  · simp [Counted, hs hp]
  · simp [Counted, ht hp]
  · simp [Counted]
  · simp [Counted]
  · rcases hphase with rfl | rfl <;> simp [Counted, hi hp]
  · simp [Counted]
  · simp [Counted]

/-- **A failure is followed by what the loop of `call` does after one**, with the field for the budget. -/
theorem act_fail_phase (m : RetryManager) {c : BudgetCall} (hp : c.phase = .invoking) (draw : ℚ) :
    (c.act m.maxAttempts .fail).map (fun r => r.2.phase) = some (match m.afterFailure c.attempt draw with
      | .giveUp _ => .leaving
      | .sleep _ _ => .testing) := by
  by_cases hle : m.maxAttempts ≤ c.attempt + 1
  · simp [act, hp, RetryManager.afterFailure, hle, show (m.maxAttempts : ℤ) ≤ (c.attempt : ℤ) + 1 by omega]
  · simp [act, hp, RetryManager.afterFailure, hle, show ¬ (m.maxAttempts : ℤ) ≤ (c.attempt : ℤ) + 1 by omega]

end BudgetCall

/-! ## When budgets do not leak -/

namespace BudgetState

open Runs BudgetCall

/-- **No call has used another's budget**, and when no call is in progress the manager has its own. -/
def Kept (configured : ℤ) (s : BudgetState) : Prop :=
  (∀ c ∈ s.calls, c.Kept configured) ∧ ((∀ c ∈ s.calls, c.phase = .done) → s.maxAttempts = configured)

/-- The condition on a step.  A test of the loop finds in the field what lets a first attempt be made, and what stops a
call that has used its budget; and the last call in progress leaves the manager's own budget behind it. -/
def Guard (configured : ℤ) (s : BudgetState) : BudgetEvent → Prop
  | .act k .test => ∀ c ∈ s.calls[k]?, c.phase = .testing →
      (c.attempt = 0 → 1 ≤ s.maxAttempts) ∧ (c.budget configured ≤ c.attempt → s.maxAttempts ≤ c.attempt)
  | .act k .leave => ∀ c ∈ s.calls[k]?, c.phase = .leaving → (∀ j ≠ k, ∀ c' ∈ s.calls[j]?, c'.phase = .done) →
      (if c.override.isSome = true then c.old else s.maxAttempts) = configured
  | _ => True

theorem kept_set_iff {configured f : ℤ} {s : BudgetState} {k : ℕ} {c c' : BudgetCall}
    (hs : ∀ c ∈ s.calls, c.Kept configured) (hk : s.calls[k]? = some c) :
    Kept configured ⟨f, s.calls.set k c'⟩ ↔
      c'.Kept configured ∧ (c'.phase = .done → (∀ j ≠ k, ∀ x ∈ s.calls[j]?, x.phase = .done) → f = configured) := by
  unfold Kept
  rw [Parties.forall_mem_set_iff hk, Parties.forall_mem_set_iff hk]
  constructor
  · rintro ⟨⟨hc, -⟩, hf⟩
    exact ⟨hc, fun hp hrest => hf ⟨hp, hrest⟩⟩
  · rintro ⟨hc, hf⟩
    refine ⟨⟨hc, fun j _ x hx => hs x (Parties.mem_of_getElem? hx)⟩, fun h => hf h.1 h.2⟩

/-- **A step keeps the budgets apart exactly when it meets the condition.** -/
theorem kept_act_iff {configured f : ℤ} {s : BudgetState} {k : ℕ} {c c' : BudgetCall} {a : BudgetAct}
    (hs : s.Kept configured) (hcount : c.Counted) (hk : s.calls[k]? = some c)
    (ha : c.act s.maxAttempts a = some (f, c')) :
    Kept configured ⟨f, s.calls.set k c'⟩ ↔ Guard configured s (.act k a) := by
  obtain ⟨hle, hpast⟩ : c.Kept configured := hs.1 c (Parties.mem_of_getElem? hk)
  obtain ⟨hset, htest, hinv⟩ := hcount
  have hpos := one_le_budget configured c
  rw [kept_set_iff hs.1 hk]
  rcases act_cases ha with ⟨rfl, hp, -, rfl⟩ | ⟨rfl, hp, hlt, -, rfl⟩ | ⟨rfl, hp, hge, -, rfl⟩ | ⟨rfl, hp, -, rfl⟩ |
    ⟨rfl, hp, -, phase, hphase, rfl⟩ | ⟨rfl, hp, hone, -, rfl⟩ | ⟨rfl, hp, rfl, rfl⟩
  · refine iff_of_true ⟨⟨hle, ?_⟩, fun h => by cases h⟩ trivial
    rintro (h | h) <;> cases h
  · have hi := htest hp
    simp only [Guard, hk, Option.mem_def, Option.some.injEq, forall_eq']
    constructor
    · rintro ⟨⟨hbound, -⟩, -⟩ -
      refine ⟨fun h0 => by omega, fun hb => ?_⟩
      have hbound' : ((c.invocations + 1 : ℕ) : ℤ) ≤ c.budget configured := hbound
      push_cast at hbound'
      omega
    · intro h
      obtain ⟨-, hstop⟩ := h hp
      refine ⟨⟨?_, ?_⟩, fun h => by cases h⟩
      · change ((c.invocations + 1 : ℕ) : ℤ) ≤ c.budget configured
        push_cast
        by_contra hn
        have := hstop (by omega)
        omega
      · rintro (h | h) <;> cases h
  · have hi := htest hp
    simp only [Guard, hk, Option.mem_def, Option.some.injEq, forall_eq']
    constructor
    · rintro ⟨⟨-, hpast'⟩, -⟩ -
      have hone : 1 ≤ c.invocations := hpast' (Or.inl rfl)
      exact ⟨fun h0 => by omega, fun _ => hge⟩
    · intro h
      obtain ⟨hfirst, -⟩ := h hp
      refine ⟨⟨hle, fun _ => ?_⟩, fun h => by cases h⟩
      change 1 ≤ c.invocations
      by_contra hn
      have := hfirst (by omega)
      omega
  · have hi := hinv hp
    refine iff_of_true ⟨⟨hle, fun _ => ?_⟩, fun h => by cases h⟩ trivial
    change 1 ≤ c.invocations
    omega
  · have hi := hinv hp
    refine iff_of_true ⟨⟨hle, fun _ => ?_⟩, fun h => ?_⟩ trivial
    · change 1 ≤ c.invocations
      omega
    · rcases hphase with rfl | rfl <;> cases h
  · have hi := htest hp
    refine iff_of_true ⟨⟨hle, fun _ => ?_⟩, fun h => by cases h⟩ trivial
    change 1 ≤ c.invocations
    omega
  · simp only [Guard, hk, Option.mem_def, Option.some.injEq, forall_eq']
    constructor
    · rintro ⟨-, hfield⟩ -
      exact hfield trivial
    · intro h
      exact ⟨⟨hle, fun _ => hpast (Or.inl hp)⟩, fun _ => h hp⟩

theorem step_act (s : BudgetState) (k : ℕ) (a : BudgetAct) :
    (∃ c f c', s.calls[k]? = some c ∧ c.act s.maxAttempts a = some (f, c') ∧
      (step s (.act k a)).2 = ⟨f, s.calls.set k c'⟩) ∨
    ((step s (.act k a)).2 = s ∧ ∀ c ∈ s.calls[k]?, c.act s.maxAttempts a = none) := by
  rcases Parties.move_cases BudgetCall.act (s.maxAttempts, s.calls) k a with ⟨c, f, c', hk, ha, hmove⟩ | ⟨hmove, hnone⟩
  · exact Or.inl ⟨c, f, c', hk, ha, by simp only [step, hmove]⟩
  · exact Or.inr ⟨by simp only [step, hmove], hnone⟩

theorem counted_step {s : BudgetState} (h : ∀ c ∈ s.calls, c.Counted) (e : BudgetEvent) :
    ∀ c ∈ (step s e).2.calls, c.Counted := by
  cases e with
  | start override =>
    intro c hc
    rcases List.mem_append.1 hc with hc | hc
    · exact h c hc
    · rw [List.mem_singleton.1 hc]
      exact counted_start override s.maxAttempts
  | act k a => exact Parties.forall_move (s := (s.maxAttempts, s.calls)) h fun c f c' hc ha => counted_act hc ha

theorem counted_run (maxAttempts : ℤ) (es : List BudgetEvent) :
    ∀ c ∈ (run step (new maxAttempts) es).calls, c.Counted :=
  invariant (P := fun s : BudgetState => ∀ c ∈ s.calls, c.Counted) (fun _ hc => absurd hc List.not_mem_nil)
    (fun _ e h => counted_step h e) es

/-- Where a step is not the call's next, the condition asks nothing. -/
theorem guard_of_act_none {configured : ℤ} {s : BudgetState} {k : ℕ} {a : BudgetAct}
    (hnone : ∀ c ∈ s.calls[k]?, c.act s.maxAttempts a = none) : Guard configured s (.act k a) := by
  cases a with
  | test =>
    intro c hc hp
    have ha := hnone c hc
    rw [act, if_pos hp] at ha
    split at ha <;> cases ha
  | leave =>
    intro c hc hp
    have ha := hnone c hc
    rw [act, if_pos hp] at ha
    cases ha
  | _ => trivial

theorem kept_step_iff {configured : ℤ} {s : BudgetState} (hcount : ∀ c ∈ s.calls, c.Counted) (hs : s.Kept configured)
    (e : BudgetEvent) : (step s e).2.Kept configured ↔ Guard configured s e := by
  cases e with
  | start override =>
    refine iff_of_true ⟨fun c hc => ?_, fun hdone => ?_⟩ trivial
    · rcases List.mem_append.1 hc with hc | hc
      · exact hs.1 c hc
      · rw [List.mem_singleton.1 hc]
        have hpos := one_le_budget configured (start override s.maxAttempts)
        refine ⟨?_, ?_⟩
        · change (0 : ℤ) ≤ _
          omega
        · unfold start Past
          cases override <;> simp
    · have hnew := hdone _ (List.mem_append_right _ List.mem_cons_self)
      unfold start at hnew
      cases override <;> cases hnew
  | act k a =>
    rcases step_act s k a with ⟨c, f, c', hk, ha, hstep⟩ | ⟨hstep, hnone⟩
    · rw [hstep]
      exact kept_act_iff hs (hcount c (Parties.mem_of_getElem? hk)) hk ha
    · rw [hstep]
      exact iff_of_true hs (guard_of_act_none hnone)

/-- **When per-function budgets do not leak**: throughout a run, every call has kept to its budget and the manager has
its own when no call is in progress, exactly when every step of the run meets the condition. -/
theorem kept_iff_along (maxAttempts : ℤ) (es : List BudgetEvent) :
    (∀ pre post, es = pre ++ post → (run step (new maxAttempts) pre).Kept (max 1 maxAttempts)) ↔
      Along step (Guard (max 1 maxAttempts)) (new maxAttempts) es :=
  always_iff_along ⟨fun _ hc => absurd hc List.not_mem_nil, fun _ => rfl⟩ es
    fun pre e _ _ hs => kept_step_iff (counted_run maxAttempts pre) hs e

/-- A call is begun when none is in progress, with a budget of at least 1 if it has its own. -/
def Alone (s : BudgetState) : BudgetEvent → Prop
  | .start override => (∀ c ∈ s.calls, c.phase = .done) ∧ ∀ v ∈ override, 1 ≤ v
  | _ => True

/-- What the field holds while one call is in progress and all others are done. -/
structure OneCall (configured : ℤ) (s : BudgetState) (k : ℕ) (c : BudgetCall) : Prop where
  call : s.calls[k]? = some c
  others : ∀ j ≠ k, ∀ c' ∈ s.calls[j]?, c'.phase = .done
  own : ∀ v ∈ c.override, 1 ≤ v
  old : c.old = configured
  field : s.maxAttempts = if c.phase = .setting then configured else c.override.getD configured

/-- No call is in progress and the field is the manager's own, or one call is. -/
def AtMostOneCall (configured : ℤ) (s : BudgetState) : Prop :=
  ((∀ c ∈ s.calls, c.phase = .done) ∧ s.maxAttempts = configured) ∨
    ∃ k c, c.phase ≠ .done ∧ OneCall configured s k c

theorem act_of_done {c : BudgetCall} (hc : c.phase = .done) (field : ℤ) (a : BudgetAct) : c.act field a = none := by
  cases a <;> simp [act, hc]

theorem OneCall.act {configured f : ℤ} {s : BudgetState} {k : ℕ} {c c' : BudgetCall} {a : BudgetAct}
    (h : OneCall configured s k c) (ha : c.act s.maxAttempts a = some (f, c')) :
    AtMostOneCall configured ⟨f, s.calls.set k c'⟩ := by
  have hlt : k < s.calls.length := (List.getElem?_eq_some_iff.1 h.call).1
  have hset : (s.calls.set k c')[k]? = some c' := List.getElem?_set_self hlt
  have hothers : ∀ j ≠ k, ∀ x ∈ (s.calls.set k c')[j]?, x.phase = .done := by
    intro j hj x hx
    rw [List.getElem?_set_ne (Ne.symm hj)] at hx
    exact h.others j hj x hx
  have hfield := h.field
  rcases act_cases ha with ⟨-, hp, rfl, rfl⟩ | ⟨-, hp, -, rfl, rfl⟩ | ⟨-, hp, -, rfl, rfl⟩ | ⟨-, hp, rfl, rfl⟩ |
    ⟨-, hp, rfl, phase, hphase, rfl⟩ | ⟨-, hp, -, rfl, rfl⟩ | ⟨-, hp, rfl, rfl⟩
  · rw [if_pos hp] at hfield
    refine Or.inr ⟨k, _, by simp, hset, hothers, h.own, h.old, ?_⟩
    simp [hfield]
  · rw [if_neg (by simp [hp])] at hfield
    exact Or.inr ⟨k, _, by simp, hset, hothers, h.own, h.old, by simpa using hfield⟩
  · rw [if_neg (by simp [hp])] at hfield
    exact Or.inr ⟨k, _, by simp, hset, hothers, h.own, h.old, by simpa using hfield⟩
  · rw [if_neg (by simp [hp])] at hfield
    exact Or.inr ⟨k, _, by simp, hset, hothers, h.own, h.old, by simpa using hfield⟩
  · rw [if_neg (by simp [hp])] at hfield
    have hne : phase ≠ .done ∧ phase ≠ .setting := by rcases hphase with rfl | rfl <;> simp
    exact Or.inr ⟨k, _, hne.1, hset, hothers, h.own, h.old, by simpa [hne.2] using hfield⟩
  · rw [if_neg (by simp [hp])] at hfield
    exact Or.inr ⟨k, _, by simp, hset, hothers, h.own, h.old, by simpa using hfield⟩
  · rw [if_neg (by simp [hp])] at hfield
    refine Or.inl ⟨(Parties.forall_mem_set_iff h.call _ _).2 ⟨rfl, h.others⟩, ?_⟩
    change (if c.override.isSome = true then c.old else s.maxAttempts) = configured
    cases ho : c.override with
    | none => rw [ho] at hfield; simpa using hfield
    | some v => simpa using h.old

theorem atMostOneCall_step {configured : ℤ} {s : BudgetState} (h : AtMostOneCall configured s) {e : BudgetEvent}
    (he : Alone s e) : AtMostOneCall configured (step s e).2 := by
  cases e with
  | start override =>
    obtain ⟨hdone, hown⟩ := he
    have hfield : s.maxAttempts = configured := by
      rcases h with h | ⟨k, c, hc, hone⟩
      · exact h.2
      · exact absurd (hdone c (Parties.mem_of_getElem? hone.call)) hc
    refine Or.inr ⟨s.calls.length, start override s.maxAttempts, ?_, by simp [step], fun j hj x hx => ?_, hown, hfield,
      ?_⟩
    · unfold start
      cases override <;> simp
    · rcases Parties.getElem?_concat_cases hx with ⟨rfl, -⟩ | hx
      · exact absurd rfl hj
      · exact hdone x (Parties.mem_of_getElem? hx)
    · unfold start
      cases override <;> simpa [step] using hfield
  | act k a =>
    rcases step_act s k a with ⟨c, f, c', hk, ha, hstep⟩ | ⟨hstep, -⟩
    · rw [hstep]
      rcases h with h | ⟨k', c₁, hc, hone⟩
      · have hdone := h.1 c (Parties.mem_of_getElem? hk)
        rw [act_of_done hdone] at ha
        cases ha
      · by_cases hkk : k = k'
        · subst hkk
          obtain rfl := Option.some.inj (hk.symm.trans hone.call)
          exact hone.act ha
        · rw [act_of_done (hone.others k hkk c hk)] at ha
          cases ha
    · rwa [hstep]

theorem guard_of_atMostOneCall {configured : ℤ} (hconf : 1 ≤ configured) {s : BudgetState}
    (h : AtMostOneCall configured s) (e : BudgetEvent) : Guard configured s e := by
  cases e with
  | start override => trivial
  | act k a =>
    have hone : ∀ c ∈ s.calls[k]?, c.phase ≠ .done → OneCall configured s k c := by
      intro c hc hp
      rcases h with h | ⟨k', c₁, -, hone⟩
      · exact absurd (h.1 c (Parties.mem_of_getElem? hc)) hp
      · by_cases hkk : k = k'
        · subst hkk
          obtain rfl := Option.some.inj (hone.call.symm.trans hc)
          exact hone
        · exact absurd (hone.others k hkk c hc) hp
    cases a with
    | test =>
      intro c hc hp
      have h := hone c hc (by simp [hp])
      have hfield := h.field
      have hown := h.own
      rw [if_neg (by simp [hp])] at hfield
      have hpos : 1 ≤ c.override.getD configured := by
        cases ho : c.override with
        | none => exact hconf
        | some v => exact hown v ho
      rw [hfield]
      refine ⟨fun _ => hpos, fun hb => ?_⟩
      rwa [budget, max_eq_right hpos] at hb
    | leave =>
      intro c hc hp _
      have h := hone c hc (by simp [hp])
      have hfield := h.field
      rw [if_neg (by simp [hp])] at hfield
      cases ho : c.override with
      | none => rw [ho] at hfield; simpa using hfield
      | some v => simpa using h.old
    | _ => trivial

/-- **One call at a time, with budgets of at least 1, meets the condition.** -/
theorem along_guard_of_alone (maxAttempts : ℤ) (es : List BudgetEvent) (h : Along step Alone (new maxAttempts) es) :
    Along step (Guard (max 1 maxAttempts)) (new maxAttempts) es := by
  refine (along_iff es).2 fun pre e post he => guard_of_atMostOneCall (le_max_left _ _) ?_ e
  have hrun : Along step Alone (new maxAttempts) pre := ((along_append pre (e :: post) _).1 (he ▸ h)).1
  exact invariant_along (P := AtMostOneCall (max 1 maxAttempts)) (Or.inl ⟨fun _ hc => absurd hc List.not_mem_nil, rfl⟩)
    (fun _ _ hs hg => atMostOneCall_step hs hg) pre hrun

/-! ## Calls that overlap and do not leak -/

theorem same_act {configured field f : ℤ} {c c' : BudgetCall} {a : BudgetAct} (hfield : field = configured)
    (hbudget : c.override.getD configured = configured) (hold : c.old = configured)
    (ha : c.act field a = some (f, c')) :
    f = configured ∧ c'.override.getD configured = configured ∧ c'.old = configured := by
  subst hfield
  rcases act_cases ha with ⟨-, -, rfl, rfl⟩ | ⟨-, -, -, rfl, rfl⟩ | ⟨-, -, -, rfl, rfl⟩ | ⟨-, -, rfl, rfl⟩ |
    ⟨-, -, rfl, _, -, rfl⟩ | ⟨-, -, -, rfl, rfl⟩ | ⟨-, -, rfl, rfl⟩
  · exact ⟨hbudget, hbudget, hold⟩
  · exact ⟨rfl, hbudget, hold⟩
  · exact ⟨rfl, hbudget, hold⟩
  · exact ⟨rfl, hbudget, hold⟩
  · exact ⟨rfl, hbudget, hold⟩
  · exact ⟨rfl, hbudget, hold⟩
  · refine ⟨?_, hbudget, hold⟩
    rw [hold, ite_self]

/-- A call begun has no budget of its own, or the manager's. -/
def Same (configured : ℤ) (_ : BudgetState) : BudgetEvent → Prop
  | .start override => ∀ v ∈ override, v = configured
  | _ => True

/-- The manager's own budget is all there is. -/
def AllSame (configured : ℤ) (s : BudgetState) : Prop :=
  s.maxAttempts = configured ∧ ∀ c ∈ s.calls, c.override.getD configured = configured ∧ c.old = configured

theorem allSame_step {configured : ℤ} {s : BudgetState} (h : AllSame configured s) {e : BudgetEvent}
    (he : Same configured s e) : AllSame configured (step s e).2 := by
  obtain ⟨hfield, hcalls⟩ := h
  cases e with
  | start override =>
    refine ⟨hfield, fun c hc => ?_⟩
    rcases List.mem_append.1 hc with hc | hc
    · exact hcalls c hc
    · rw [List.mem_singleton.1 hc]
      refine ⟨?_, hfield⟩
      cases override with
      | none => rfl
      | some v => exact he v rfl
  | act k a =>
    rcases step_act s k a with ⟨c, f, c', hk, ha, hstep⟩ | ⟨hstep, -⟩
    · rw [hstep]
      obtain ⟨hbudget, hold⟩ := hcalls c (Parties.mem_of_getElem? hk)
      obtain ⟨hf, hcall⟩ := same_act hfield hbudget hold ha
      exact ⟨hf, Parties.forall_mem_set hcalls hcall⟩
    · rw [hstep]
      exact ⟨hfield, hcalls⟩

/-- **Calls with the manager's own budget meet the condition**, however they overlap. -/
theorem along_guard_of_same (maxAttempts : ℤ) (es : List BudgetEvent)
    (h : Along step (Same (max 1 maxAttempts)) (new maxAttempts) es) :
    Along step (Guard (max 1 maxAttempts)) (new maxAttempts) es := by
  refine (along_iff es).2 fun pre e post he => ?_
  have hrun : Along step (Same (max 1 maxAttempts)) (new maxAttempts) pre :=
    ((along_append pre (e :: post) _).1 (he ▸ h)).1
  obtain ⟨hfield, hcalls⟩ := invariant_along (P := AllSame (max 1 maxAttempts))
    ⟨rfl, fun c hc => absurd hc List.not_mem_nil⟩ (fun _ _ hs hg => allSame_step hs hg) pre hrun
  generalize run step (new maxAttempts) pre = s at hfield hcalls ⊢
  cases e with
  | start override => trivial
  | act k a =>
    cases a with
    | test =>
      intro c hc _
      rw [budget, (hcalls c (Parties.mem_of_getElem? hc)).1, hfield, max_eq_right (le_max_left _ _)]
      exact ⟨fun _ => le_max_left _ _, id⟩
    | leave =>
      intro c hc _ _
      rw [(hcalls c (Parties.mem_of_getElem? hc)).2, hfield, ite_self]
    | _ => trivial

/-- **What the field holds behind the calls**, `v` having been there before them: a call in progress has saved what was
there before it, holds a budget of at least 1, and lets others begin only inside its function. -/
def Stacked (field : ℤ) : ℤ → List BudgetCall → Prop
  | v, [] => field = v
  | v, c :: cs =>
    if c.phase = .done then Stacked field v cs
    else c.old = v ∧ (∃ o, c.override = some o ∧ 1 ≤ o) ∧ (c.phase ≠ .invoking → ∀ x ∈ cs, x.phase = .done) ∧
      Stacked field (if c.phase = .setting then v else c.override.getD v) cs

theorem stacked_of_done {field v : ℤ} : ∀ {cs : List BudgetCall}, (∀ x ∈ cs, x.phase = .done) →
    (Stacked field v cs ↔ field = v)
  | [], _ => Iff.rfl
  | c :: cs, h => by
    rw [Stacked, if_pos (h c List.mem_cons_self)]
    exact stacked_of_done fun x hx => h x (List.mem_cons_of_mem c hx)

theorem done_of_later {cs : List BudgetCall} {c : BudgetCall} (h : ∀ j, 0 < j → ∀ x ∈ (c :: cs)[j]?, x.phase = .done) :
    ∀ x ∈ cs, x.phase = .done := by
  intro x hx
  obtain ⟨j, hj⟩ := List.mem_iff_getElem?.1 hx
  exact h (j + 1) (Nat.succ_pos j) x hj

/-- **The innermost call in progress** finds its own budget in the field once it is set, and the one that is alone has
saved what was there before all. -/
theorem Stacked.innermost {field : ℤ} : ∀ {cs : List BudgetCall} {v : ℤ} {k : ℕ} {c : BudgetCall}, Stacked field v cs →
    cs[k]? = some c → c.phase ≠ .done → (∀ j, k < j → ∀ x ∈ cs[j]?, x.phase = .done) →
    (∃ o, c.override = some o ∧ 1 ≤ o ∧ field = if c.phase = .setting then c.old else o) ∧
      ((∀ j ≠ k, ∀ x ∈ cs[j]?, x.phase = .done) → c.old = v)
  | x :: cs, v, 0, c, h, hk, hp, hlater => by
    obtain rfl := Option.some.inj hk
    rw [Stacked, if_neg hp] at h
    obtain ⟨hold, ⟨o, ho, hone⟩, -, hrest⟩ := h
    rw [stacked_of_done (done_of_later hlater), ho] at hrest
    exact ⟨⟨o, ho, hone, by rw [hold]; exact hrest⟩, fun _ => hold⟩
  | x :: cs, v, k + 1, c, h, hk, hp, hlater => by
    have hlater' : ∀ j, k < j → ∀ y ∈ cs[j]?, y.phase = .done := fun j hj => hlater (j + 1) (by omega)
    rw [Stacked] at h
    split at h
    · obtain ⟨hfield, hold⟩ := h.innermost hk hp hlater'
      exact ⟨hfield, fun hothers => hold fun j hj => hothers (j + 1) (by omega)⟩
    · obtain ⟨hfield, -⟩ := h.2.2.2.innermost hk hp hlater'
      exact ⟨hfield, fun hothers => absurd (hothers 0 (by omega) x rfl) ‹_›⟩

/-- A step of a call after which none is in progress. -/
theorem Stacked.act_first {field f v : ℤ} {a : BudgetAct} {c c' : BudgetCall} {cs : List BudgetCall}
    (h : Stacked field v (c :: cs)) (hrest : ∀ x ∈ cs, x.phase = .done) (ha : c.act field a = some (f, c')) :
    Stacked f v (c' :: cs) := by
  have hp : c.phase ≠ .done := fun hd => by
    rw [act_of_done hd] at ha
    cases ha
  rw [Stacked, if_neg hp] at h
  obtain ⟨hold, ⟨o, ho, hone⟩, -, hfield⟩ := h
  rw [stacked_of_done hrest, ho, Option.getD_some] at hfield
  have hlive : ∀ x : BudgetCall, x.phase ≠ .done → x.old = v → x.override = some o →
      f = (if x.phase = .setting then v else o) → Stacked f v (x :: cs) := by
    intro x hx hxold hxo hf
    rw [Stacked, if_neg hx, stacked_of_done hrest, hxo]
    exact ⟨hxold, ⟨o, rfl, hone⟩, fun _ => hrest, hf⟩
  -- a call that has set its budget finds it in the field until it leaves
  have hset : c.phase ≠ .setting → field = o := fun hs => by rwa [if_neg hs] at hfield
  rcases act_cases ha with ⟨-, hs, rfl, rfl⟩ | ⟨-, hs, -, rfl, rfl⟩ | ⟨-, hs, -, rfl, rfl⟩ | ⟨-, hs, rfl, rfl⟩ |
    ⟨-, hs, rfl, phase, hphase, rfl⟩ | ⟨-, hs, -, rfl, rfl⟩ | ⟨-, hs, rfl, rfl⟩
  · exact hlive _ nofun hold ho (by rw [ho]; rfl)
  · exact hlive _ nofun hold ho (hset (by rw [hs]; decide))
  · exact hlive _ nofun hold ho (hset (by rw [hs]; decide))
  · exact hlive _ nofun hold ho (hset (by rw [hs]; decide))
  · have hfo := hset (by rw [hs]; decide)
    rcases hphase with rfl | rfl
    · exact hlive _ nofun hold ho hfo
    · exact hlive _ nofun hold ho hfo
  · exact hlive _ nofun hold ho (hset (by rw [hs]; decide))
  · rw [Stacked, if_pos rfl, stacked_of_done hrest, ho]
    exact hold

/-- **A step of the innermost call keeps the calls stacked.** -/
theorem Stacked.act {field f : ℤ} {a : BudgetAct} {c c' : BudgetCall} (ha : c.act field a = some (f, c')) :
    ∀ {cs : List BudgetCall} {v : ℤ} {k : ℕ}, Stacked field v cs → cs[k]? = some c →
      (∀ j, k < j → ∀ x ∈ cs[j]?, x.phase = .done) → Stacked f v (cs.set k c')
  | x :: cs, v, 0, h, hk, hlater => by
    obtain rfl := Option.some.inj hk
    exact h.act_first (done_of_later hlater) ha
  | x :: cs, v, k + 1, h, hk, hlater => by
    have hlater' : ∀ j, k < j → ∀ y ∈ cs[j]?, y.phase = .done := fun j hj => hlater (j + 1) (by omega)
    rw [Stacked] at h
    rw [List.set_cons_succ, Stacked]
    split at h
    · rw [if_pos ‹_›]
      exact Stacked.act ha h hk hlater'
    · obtain ⟨hold, hown, hinside, hrest⟩ := h
      rw [if_neg ‹_›]
      refine ⟨hold, hown, fun hne => ?_, Stacked.act ha hrest hk hlater'⟩
      -- a call that is not inside its function has none after it in progress
      have hdone := hinside hne c (Parties.mem_of_getElem? hk)
      rw [act_of_done hdone] at ha
      cases ha

/-- A call begun inside the functions of those in progress. -/
theorem Stacked.start {field o : ℤ} (hone : 1 ≤ o) : ∀ {cs : List BudgetCall} {v : ℤ}, Stacked field v cs →
    (∀ x ∈ cs, x.phase = .done ∨ x.phase = .invoking) → Stacked field v (cs ++ [start (some o) field])
  | [], v, h, _ => by
    obtain rfl : field = v := h
    simp [Stacked, BudgetCall.start, hone]
  | x :: cs, v, h, hin => by
    have hin' : ∀ y ∈ cs, y.phase = .done ∨ y.phase = .invoking := fun y hy => hin y (List.mem_cons_of_mem x hy)
    rw [Stacked] at h
    rw [List.cons_append, Stacked]
    split at h
    · rw [if_pos ‹_›]
      exact h.start hone hin'
    · obtain ⟨hold, hown, -, hrest⟩ := h
      rw [if_neg ‹_›]
      exact ⟨hold, hown, fun hne => absurd ((hin x List.mem_cons_self).resolve_left ‹_›) hne, hrest.start hone hin'⟩

/-- Calls nest: each has a budget of its own of at least 1 and is begun inside the functions of those in progress, and
only the last begun of these goes on. -/
def Nested (s : BudgetState) : BudgetEvent → Prop
  | .start override => (∃ o, override = some o ∧ 1 ≤ o) ∧ ∀ c ∈ s.calls, c.phase = .done ∨ c.phase = .invoking
  | .act k _ => ∀ j, k < j → ∀ c ∈ s.calls[j]?, c.phase = .done

theorem stacked_step {configured : ℤ} {s : BudgetState} (h : Stacked s.maxAttempts configured s.calls) {e : BudgetEvent}
    (he : Nested s e) : Stacked (step s e).2.maxAttempts configured (step s e).2.calls := by
  cases e with
  | start override =>
    obtain ⟨⟨o, rfl, hone⟩, hin⟩ := he
    exact h.start hone hin
  | act k a =>
    rcases step_act s k a with ⟨c, f, c', hk, ha, hstep⟩ | ⟨hstep, -⟩
    · rw [hstep]
      exact Stacked.act ha h hk he
    · rwa [hstep]

/-- **Calls that nest, with budgets of their own of at least 1, meet the condition.** -/
theorem along_guard_of_nested (maxAttempts : ℤ) (es : List BudgetEvent) (h : Along step Nested (new maxAttempts) es) :
    Along step (Guard (max 1 maxAttempts)) (new maxAttempts) es := by
  refine (along_iff es).2 fun pre e post he => ?_
  have hrun : Along step Nested (new maxAttempts) pre := ((along_append pre (e :: post) _).1 (he ▸ h)).1
  have hnested := (along_iff es).1 h pre e post he
  have hnew : Stacked (new maxAttempts).maxAttempts (max 1 maxAttempts) (new maxAttempts).calls := rfl
  have hstacked := invariant_along (P := fun s : BudgetState => Stacked s.maxAttempts (max 1 maxAttempts) s.calls) hnew
    (fun _ _ hs hg => stacked_step hs hg) pre hrun
  generalize run step (new maxAttempts) pre = s at hnested hstacked ⊢
  cases e with
  | start override => trivial
  | act k a =>
    cases a with
    | test =>
      intro c hc hp
      obtain ⟨⟨o, ho, hone, hfield⟩, -⟩ := hstacked.innermost hc (by simp [hp]) hnested
      rw [if_neg (by simp [hp])] at hfield
      rw [budget, ho, hfield]
      exact ⟨fun _ => hone, fun hb => (le_max_right _ _).trans hb⟩
    | leave =>
      intro c hc hp hothers
      obtain ⟨⟨o, ho, -, -⟩, hold⟩ := hstacked.innermost hc (by simp [hp]) hnested
      rw [ho]
      exact hold hothers
    | _ => trivial

/-- Two functions with budgets of 5 and 2, whose calls overlap and do not nest. -/
def overlapping : List BudgetEvent :=
  [.start (some 5), .act 0 .set, .start (some 2), .act 1 .set, .act 0 .test, .act 0 .pass, .act 0 .leave, .act 1 .test,
    .act 1 .pass, .act 1 .leave]

/-- **The manager is left with another function's budget.** -/
theorem overlapping_leaks : ¬ ∀ pre post, overlapping = pre ++ post → (run step (new 3) pre).Kept 3 := by
  intro h
  have hend := (h overlapping [] (List.append_nil _).symm).2 (by decide)
  exact absurd hend (by decide)

end BudgetState
end Ticket
