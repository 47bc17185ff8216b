import TicketBooking.Breaker
import TicketBooking.Runs
/-!
# CircuitCalls — overlapping calls on one circuit

`CircuitBreaker.call` is an admission through `allow_request` and, arbitrarily later, one outcome through
`record_success` or `record_failure`; between the two any number of other calls run.  `Calls` adds to the breaker what
its documentation speaks of and the code does not keep: which `HALF_OPEN` episode is running, in which one each
call in flight was admitted, and the outcomes recorded since the episode began.  The breaker counts every outcome that
arrives in `HALF_OPEN` and admits every call there, so its recovery is decided by the probes of the episode, and their
number bounded, only under a condition on the steps: `onlyProbes_of_probesOnly`, `limited_iff_room`.
-/
namespace Ticket

structure Calls where
  cb : CircuitBreaker
  /-- how often `HALF_OPEN` has been entered -/
  episode : ℕ
  /-- the calls admitted whose outcome is not recorded, with the episode they were admitted in, if in one -/
  inFlight : List (ℕ × Option ℕ)
  admitted : ℕ
  /-- the outcomes recorded since `HALF_OPEN` was entered, each with the admission of its call -/
  recorded : List (Option ℕ × Bool)
  deriving DecidableEq

inductive CallEvent where
  | arrive (now : ℚ)
  | finish (call : ℕ) (succeeded : Bool) (now later : ℚ)
  | readState (now : ℚ)

namespace CircuitCalls

open Runs

def init (cb : CircuitBreaker) : Calls := ⟨cb, 0, [], 0, []⟩

/-- The breaker moves; an entry to `HALF_OPEN` begins an episode. -/
def moved (s : Calls) (cb : CircuitBreaker) : Calls :=
  if s.cb.state ≠ .halfOpen ∧ cb.state = .halfOpen then { s with cb := cb, episode := s.episode + 1, recorded := [] }
  else { s with cb := cb }

/-- The admission step of `call`; a refused call raises `CircuitOpenError` and is not in flight. -/
def arrive (s : Calls) (now : ℚ) : Calls :=
  let s' := moved s (s.cb.allowRequest now).2
  if (s.cb.allowRequest now).1 = true then
    { s' with
      inFlight := s'.inFlight ++ [(s.admitted, if s'.cb.state = .halfOpen then some s'.episode else none)]
      admitted := s.admitted + 1 }
  else s'

def admission (s : Calls) (call : ℕ) : Option (Option ℕ) :=
  (s.inFlight.find? (fun c => decide (c.1 = call))).map Prod.snd

def outcome (cb : CircuitBreaker) (succeeded : Bool) (now later : ℚ) : CircuitBreaker :=
  if succeeded then cb.recordSuccess now else cb.recordFailure now later

/-- The outcome step of `call`. -/
def finish (s : Calls) (call : ℕ) (succeeded : Bool) (now later : ℚ) : Calls :=
  match admission s call with
  | none => s
  | some adm =>
    let s' := moved s (outcome s.cb succeeded now later)
    { s' with
      inFlight := s'.inFlight.filter (fun c => decide (c.1 ≠ call))
      recorded := s'.recorded ++ [(adm, succeeded)] }

def step (s : Calls) (e : CallEvent) : Unit × Calls :=
  ((), match e with
    | .arrive now => arrive s now
    | .finish call succeeded now later => finish s call succeeded now later
    | .readState now => moved s (s.cb.readState now).2)

/-- The successful outcomes since the episode began. -/
def successes (s : Calls) : List (Option ℕ × Bool) := s.recorded.filter Prod.snd

/-- **Only probes decide**: a step that closes a `HALF_OPEN` circuit comes after `halfOpenSuccesses` successes (one at
least) of calls admitted in the episode, and the outcome of a call admitted before the episode neither closes nor
reopens the circuit. -/
structure OnlyProbes (s : Calls) (e : CallEvent) : Prop where
  closing : s.cb.state = .halfOpen → (step s e).2.cb.state = .closed →
    ((successes (step s e).2).length : ℤ) = max 1 s.cb.halfOpenSuccesses ∧
      ∀ o ∈ successes (step s e).2, o.1 = some s.episode
  late : ∀ call succeeded now later adm, e = .finish call succeeded now later → admission s call = some adm →
    adm ≠ some s.episode → s.cb.state = .halfOpen → (step s e).2.cb.state = .halfOpen

/-- **An outcome that arrives in `HALF_OPEN` is of a call admitted in that episode.** -/
def ProbesOnly (s : Calls) (e : CallEvent) : Prop :=
  ∀ call succeeded now later adm, e = .finish call succeeded now later → admission s call = some adm →
    s.cb.state = .halfOpen → adm = some s.episode

/-- The calls of the running episode whose outcome is not recorded. -/
def outstanding (s : Calls) : ℕ := s.inFlight.countP (fun c => decide (c.2 = some s.episode))

/-- **The trial requests are limited.** -/
def Limited (s : Calls) : Prop := s.cb.state = .halfOpen → (outstanding s : ℤ) ≤ s.cb.halfOpenSuccesses

/-- **There is room for the step**: an admission in `HALF_OPEN`, or into it, finds fewer than `halfOpenSuccesses` calls
of the episode outstanding, and no episode begins when that number is negative. -/
def Room (s : Calls) (e : CallEvent) : Prop :=
  match e with
  | .arrive now => (s.cb.allowRequest now).2.state = .halfOpen →
    (outstanding (moved s (s.cb.allowRequest now).2) : ℤ) < s.cb.halfOpenSuccesses
  | .finish _ _ _ _ => True
  | .readState now => s.cb.state = .opened → (s.cb.readState now).2.state = .halfOpen → 0 ≤ s.cb.halfOpenSuccesses

/-! ## One step -/

section
variable (s : Calls) (cb : CircuitBreaker)

@[simp] theorem moved_cb : (moved s cb).cb = cb := by
  unfold moved
  split <;> rfl

@[simp] theorem moved_inFlight : (moved s cb).inFlight = s.inFlight := by
  unfold moved
  split <;> rfl

@[simp] theorem moved_admitted : (moved s cb).admitted = s.admitted := by
  unfold moved
  split <;> rfl

theorem moved_of_not {s : Calls} (cb : CircuitBreaker) (h : s.cb.state = .halfOpen ∨ cb.state ≠ .halfOpen) :
    (moved s cb).episode = s.episode ∧ (moved s cb).recorded = s.recorded := by
  unfold moved
  rw [if_neg]
  · exact ⟨rfl, rfl⟩
  · rintro ⟨h1, h2⟩
    exact h.elim h1 fun h => h h2

theorem moved_of_entry {s : Calls} {cb : CircuitBreaker} (h1 : s.cb.state ≠ .halfOpen) (h2 : cb.state = .halfOpen) :
    (moved s cb).episode = s.episode + 1 ∧ (moved s cb).recorded = [] := by
  unfold moved
  rw [if_pos ⟨h1, h2⟩]
  exact ⟨rfl, rfl⟩

theorem episode_le_moved : s.episode ≤ (moved s cb).episode := by
  unfold moved
  split
  · exact Nat.le_succ _
  · exact le_rfl

end

theorem outcome_config (cb : CircuitBreaker) (succeeded : Bool) (now later : ℚ) :
    (outcome cb succeeded now later).config = cb.config := by
  unfold outcome
  split
  · exact CircuitBreaker.recordSuccess_config _ _
  · exact CircuitBreaker.recordFailure_config _ _ _

theorem step_config (s : Calls) (e : CallEvent) : (step s e).2.cb.config = s.cb.config := by
  cases e with
  | arrive now =>
    have h := CircuitBreaker.allowRequest_config s.cb now
    simp only [step, arrive]
    split <;> simpa using h
  | finish call succeeded now later =>
    simp only [step, finish]
    split
    · rfl
    · simpa using outcome_config s.cb succeeded now later
  | readState now => simpa [step] using CircuitBreaker.readState_config s.cb now

/-- A query that finds the circuit `HALF_OPEN` afterwards left it there, or has just opened the way. -/
theorem query_halfOpen {cb : CircuitBreaker} {now : ℚ} (h : (cb.readState now).2.state = .halfOpen) :
    (cb.state = .halfOpen ∧ (cb.readState now).2 = cb) ∨
      (cb.state = .opened ∧ (cb.readState now).2.halfOpenSuccessCount = 0) := by
  by_cases hs : cb.state = .opened
  · refine Or.inr ⟨hs, ?_⟩
    rw [CircuitBreaker.readState_of_opened hs] at h ⊢
    split at h
    · rename_i hr
      rw [if_pos hr]
      rfl
    · rw [hs] at h
      cases h
  · rw [CircuitBreaker.readState_of_not_opened hs] at h ⊢
    exact Or.inl ⟨h, rfl⟩

theorem outcome_halfOpen {cb : CircuitBreaker} {succeeded : Bool} {now later : ℚ}
    (h : (outcome cb succeeded now later).state = .halfOpen) :
    cb.state = .halfOpen ∧ succeeded = true ∧
      (outcome cb succeeded now later).halfOpenSuccessCount = cb.halfOpenSuccessCount + 1 ∧
      ((cb.halfOpenSuccessCount + 1 : ℕ) : ℤ) < cb.halfOpenSuccesses := by
  unfold outcome at h ⊢
  cases succeeded with
  | false =>
    simp only [Bool.false_eq_true, if_false] at h
    rw [CircuitBreaker.recordFailure_state] at h
    split at h <;> cases h
  | true =>
    simp only [if_true] at h ⊢
    by_cases hs : cb.state = .halfOpen
    · rw [CircuitBreaker.recordSuccess_of_halfOpen hs] at h ⊢
      split at h
      · rw [CircuitBreaker.transition_state] at h
        cases h
      · rename_i hlt
        rw [if_neg hlt]
        exact ⟨hs, trivial, rfl, lt_of_not_ge hlt⟩
    · rw [CircuitBreaker.recordSuccess_of_ne hs] at h
      exact absurd h hs

theorem outcome_closed {cb : CircuitBreaker} {succeeded : Bool} {now later : ℚ} (hs : cb.state = .halfOpen)
    (h : (outcome cb succeeded now later).state = .closed) :
    succeeded = true ∧ cb.halfOpenSuccesses ≤ (cb.halfOpenSuccessCount + 1 : ℕ) := by
  unfold outcome at h
  cases succeeded with
  | false =>
    simp only [Bool.false_eq_true, if_false] at h
    rw [CircuitBreaker.recordFailure_state, hs] at h
    simp at h
  | true =>
    simp only [if_true] at h
    rw [CircuitBreaker.recordSuccess_of_halfOpen hs] at h
    split at h
    · rename_i hle
      exact ⟨rfl, hle⟩
    · exact absurd (hs.symm.trans h) (by simp)

/-- **What the counters of the breaker count.** -/
structure Counted (s : Calls) : Prop where
  tags : ∀ c ∈ s.inFlight, ∀ k ∈ c.2, k ≤ s.episode
  count : s.cb.state = .halfOpen → s.cb.halfOpenSuccessCount = (successes s).length
  few : s.cb.state = .halfOpen → (s.cb.halfOpenSuccessCount : ℤ) < max 1 s.cb.halfOpenSuccesses

/-- The successes of the running episode are its probes'. -/
def Pure (s : Calls) : Prop := s.cb.state = .halfOpen → ∀ o ∈ successes s, o.1 = some s.episode

theorem counted_init {cb : CircuitBreaker} (h : cb.state ≠ .halfOpen) : Counted (init cb) :=
  ⟨fun _ hc => (nomatch hc), fun hs => absurd hs h, fun hs => absurd hs h⟩

theorem pure_init {cb : CircuitBreaker} (h : cb.state ≠ .halfOpen) : Pure (init cb) := fun hs => absurd hs h

section
variable {s : Calls}

theorem counted_moved (h : Counted s) (now : ℚ) : Counted (moved s (s.cb.readState now).2) := by
  have hconf := CircuitBreaker.readState_config s.cb now
  have hhos : (s.cb.readState now).2.halfOpenSuccesses = s.cb.halfOpenSuccesses := by
    simpa [CircuitBreaker.config] using congrArg (fun c => c.2.2) hconf
  refine ⟨fun c hc k hk => ?_, fun hs => ?_, fun hs => ?_⟩
  · rw [moved_inFlight] at hc
    exact le_trans (h.tags c hc k hk) (episode_le_moved s _)
  all_goals
    rw [moved_cb] at hs ⊢
    rcases query_halfOpen hs with ⟨hst, hcb⟩ | ⟨hst, hzero⟩
  · unfold successes
    rw [(moved_of_not _ (Or.inl hst)).2, hcb]
    exact h.count hst
  · unfold successes
    rw [(moved_of_entry (by simp [hst]) hs).2, hzero]
    rfl
  · rw [hcb]
    exact h.few hst
  · rw [hzero]
    exact lt_of_lt_of_le Int.one_pos (le_max_left _ _)

theorem pure_moved (h : Pure s) (now : ℚ) : Pure (moved s (s.cb.readState now).2) := by
  intro hs o ho
  rw [moved_cb] at hs
  unfold successes at ho
  rcases query_halfOpen hs with ⟨hst, -⟩ | ⟨hst, -⟩
  · obtain ⟨hep, hrec⟩ := moved_of_not (s.cb.readState now).2 (Or.inl hst)
    rw [hrec] at ho
    rw [hep]
    exact h hst o ho
  · rw [(moved_of_entry (by simp [hst]) hs).2] at ho
    cases ho

theorem arrive_cases (s : Calls) (now : ℚ) :
    (arrive s now = moved s (s.cb.readState now).2 ∧ (s.cb.readState now).2.state = .opened) ∨
    (arrive s now = { moved s (s.cb.readState now).2 with
      inFlight := s.inFlight ++ [(s.admitted,
        if (s.cb.readState now).2.state = .halfOpen then some (moved s (s.cb.readState now).2).episode else none)]
      admitted := s.admitted + 1 } ∧ (s.cb.readState now).2.state ≠ .opened) := by
  have hfst := CircuitBreaker.allowRequest_fst s.cb now
  unfold arrive
  rw [CircuitBreaker.allowRequest_snd] at hfst ⊢
  by_cases hs : (s.cb.readState now).2.state = .opened
  · refine Or.inl ⟨?_, hs⟩
    simp [hfst, hs]
  · refine Or.inr ⟨?_, hs⟩
    simp [hfst, hs]

theorem counted_step (h : Counted s) (e : CallEvent) : Counted (step s e).2 := by
  cases e with
  | readState now => exact counted_moved h now
  | arrive now =>
    have hm := counted_moved h now
    rcases arrive_cases s now with ⟨ha, -⟩ | ⟨ha, -⟩
    · simp only [step, ha]
      exact hm
    · simp only [step, ha]
      refine ⟨fun c hc k hk => ?_, hm.count, hm.few⟩
      rcases List.mem_append.1 hc with hc | hc
      · exact le_trans (h.tags c hc k hk) (episode_le_moved s _)
      · rw [List.mem_singleton.1 hc] at hk
        simp only at hk
        split at hk
        · rw [Option.mem_some_iff.1 hk]
        · cases hk
  | finish call succeeded now later =>
    simp only [step, finish]
    cases hadm : admission s call with
    | none => exact h
    | some adm =>
      refine ⟨fun c hc k hk => ?_, fun hs => ?_, fun hs => ?_⟩
      · have hin : c ∈ s.inFlight := by simpa using (List.mem_filter.1 hc).1
        exact le_trans (h.tags c hin k hk) (episode_le_moved s _)
      all_goals
        simp only [moved_cb] at hs
        obtain ⟨hst, hok, hcount, hlt⟩ := outcome_halfOpen hs
      · have hrec := (moved_of_not (outcome s.cb succeeded now later) (Or.inl hst)).2
        have hc := h.count hst
        unfold successes at hc ⊢
        simp only [moved_cb, hrec, hcount, List.filter_append, List.length_append, hc]
        simp [hok]
      · have hhos : (outcome s.cb succeeded now later).halfOpenSuccesses = s.cb.halfOpenSuccesses := by
          simpa [CircuitBreaker.config] using congrArg (fun c => c.2.2) (outcome_config s.cb succeeded now later)
        simp only [moved_cb, hcount, hhos]
        exact lt_of_lt_of_le hlt (le_max_right _ _)

theorem pure_step (h : Pure s) {e : CallEvent} (hg : ProbesOnly s e) : Pure (step s e).2 := by
  cases e with
  | readState now => exact pure_moved h now
  | arrive now =>
    have hm := pure_moved h now
    rcases arrive_cases s now with ⟨ha, -⟩ | ⟨ha, -⟩
    · simp only [step, ha]
      exact hm
    · simp only [step, ha]
      exact hm
  | finish call succeeded now later =>
    simp only [step, finish]
    cases hadm : admission s call with
    | none => exact h
    | some adm =>
      intro hs o ho
      simp only [moved_cb] at hs
      obtain ⟨hst, -, -, -⟩ := outcome_halfOpen hs
      obtain ⟨hep, hrec⟩ := moved_of_not (outcome s.cb succeeded now later) (Or.inl hst)
      simp only [successes, hrec, hep, List.filter_append, List.mem_append] at ho ⊢
      rcases ho with ho | ho
      · exact h hst o ho
      · rw [List.mem_singleton.1 (List.mem_filter.1 ho).1]
        exact hg call succeeded now later adm rfl hadm hst

/-! ## Recovery -/

/-- A step that closes a `HALF_OPEN` circuit is the success of a call in flight. -/
theorem closing_cases (h : Counted s) {e : CallEvent} (hs : s.cb.state = .halfOpen)
    (hc : (step s e).2.cb.state = .closed) :
    ∃ call now later adm, e = .finish call true now later ∧ admission s call = some adm ∧
      successes (step s e).2 = successes s ++ [(adm, true)] ∧
      ((successes s).length + 1 : ℤ) = max 1 s.cb.halfOpenSuccesses := by
  have hquery : ∀ now, (s.cb.readState now).2 = s.cb :=
    fun now => CircuitBreaker.readState_of_not_opened (by simp [hs]) now
  have hstay : ∀ now, (moved s (s.cb.readState now).2).cb.state = .halfOpen := by
    intro now
    rw [moved_cb, hquery, hs]
  cases e with
  | readState now => exact absurd ((hstay now).symm.trans hc) (by simp)
  | arrive now =>
    rcases arrive_cases s now with ⟨ha, -⟩ | ⟨ha, -⟩
    all_goals
      simp only [step, ha] at hc
      exact absurd ((hstay now).symm.trans hc) (by simp)
  | finish call succeeded now later =>
    simp only [step, finish] at hc ⊢
    cases hadm : admission s call with
    | none =>
      simp only [hadm] at hc
      exact absurd (hs.symm.trans hc) (by simp)
    | some adm =>
      simp only [hadm, moved_cb] at hc
      obtain ⟨rfl, hle⟩ := outcome_closed hs hc
      have hcount := h.count hs
      have hfew := h.few hs
      obtain ⟨-, hrec⟩ := moved_of_not (outcome s.cb true now later) (Or.inl hs)
      refine ⟨call, now, later, adm, rfl, hadm, ?_, ?_⟩
      · simp [successes, hrec]
      · rw [← hcount]
        omega

theorem onlyProbes_step (h : Counted s) (hp : Pure s) {e : CallEvent} (hg : ProbesOnly s e) : OnlyProbes s e := by
  constructor
  · intro hs hc
    obtain ⟨call, now, later, adm, rfl, hadm, hsucc, hlen⟩ := closing_cases h hs hc
    rw [hsucc]
    refine ⟨by simpa using hlen, fun o ho => ?_⟩
    rcases List.mem_append.1 ho with ho | ho
    · exact hp hs o ho
    · rw [List.mem_singleton.1 ho]
      exact hg call true now later adm rfl hadm hs
  · rintro call succeeded now later adm rfl hadm hne hs
    exact absurd (hg call succeeded now later adm rfl hadm hs) hne

/-- **The outcome of a call admitted before the episode** reopens the circuit, closes it, or is counted towards
closing. -/
theorem late_counts {call : ℕ} {succeeded : Bool} {now later : ℚ} {adm : Option ℕ}
    (hadm : admission s call = some adm) :
    (step s (.finish call succeeded now later)).2.cb.state ≠ .halfOpen ∨
      (step s (.finish call succeeded now later)).2.cb.halfOpenSuccessCount = s.cb.halfOpenSuccessCount + 1 := by
  simp only [step, finish, hadm, moved_cb]
  by_cases ho : (outcome s.cb succeeded now later).state = .halfOpen
  · exact Or.inr (outcome_halfOpen ho).2.2.1
  · exact Or.inl ho

end

/-- Calls on a new circuit. -/
abbrev start (failureThreshold : ℤ) (recoveryTimeout : ℚ) (halfOpenSuccesses : ℤ) : Calls :=
  init (CircuitBreaker.new failureThreshold recoveryTimeout halfOpenSuccesses)

theorem new_state (failureThreshold : ℤ) (recoveryTimeout : ℚ) (halfOpenSuccesses : ℤ) :
    (CircuitBreaker.new failureThreshold recoveryTimeout halfOpenSuccesses).state ≠ .halfOpen := nofun

theorem counted_run (failureThreshold : ℤ) (recoveryTimeout : ℚ) (halfOpenSuccesses : ℤ) (es : List CallEvent) :
    Counted (run step (start failureThreshold recoveryTimeout halfOpenSuccesses) es) :=
  invariant (counted_init (new_state _ _ _)) (fun _ e h => counted_step h e) es

/-- **Only probes decide recovery when only probes report in `HALF_OPEN`.**  Along every run of overlapping calls, at
any readings, whose outcomes arriving in `HALF_OPEN` are all of calls admitted in that episode, no other outcome closes
or reopens the circuit; and after any run, an outcome of another call that arrives there moves the circuit or is
counted towards closing it. -/
theorem onlyProbes_of_probesOnly (failureThreshold : ℤ) (recoveryTimeout : ℚ) (halfOpenSuccesses : ℤ)
    (es : List CallEvent) :
    (Along step ProbesOnly (start failureThreshold recoveryTimeout halfOpenSuccesses) es →
      ∀ pre e post, es = pre ++ e :: post →
        OnlyProbes (run step (start failureThreshold recoveryTimeout halfOpenSuccesses) pre) e) ∧
    ∀ s e, s = run step (start failureThreshold recoveryTimeout halfOpenSuccesses) es → ¬ ProbesOnly s e →
      (step s e).2.cb.state ≠ .halfOpen ∨ (step s e).2.cb.halfOpenSuccessCount = s.cb.halfOpenSuccessCount + 1 := by
  constructor
  · rintro hg pre e post rfl
    obtain ⟨hpre, he, -⟩ := (along_append pre (e :: post) _).1 hg
    have hpure : Pure (run step (start failureThreshold recoveryTimeout halfOpenSuccesses) pre) :=
      invariant_along (pure_init (new_state _ _ _)) (fun _ _ h => pure_step h) pre hpre
    exact onlyProbes_step (counted_run _ _ _ pre) hpure he
  · intro s e _ hn
    simp only [ProbesOnly, not_forall] at hn
    obtain ⟨call, succeeded, now, later, adm, rfl, hadm, -, -⟩ := hn
    exact late_counts hadm

/-- Two calls admitted in `CLOSED`, one of which fails and opens the circuit; it is `HALF_OPEN` when the other ends. -/
def slowCall : List CallEvent := [.arrive 0, .arrive 0, .finish 1 false 1 1, .readState 10]

theorem slowCall_closes : ¬ OnlyProbes (run step (start 1 5 1) slowCall) (.finish 0 true 11 11) := by
  have hadm : admission (run step (start 1 5 1) slowCall) 0 = some none := by decide +kernel
  have hstate : (run step (start 1 5 1) slowCall).cb.state = .halfOpen := by decide +kernel
  have hclosed : (step (run step (start 1 5 1) slowCall) (.finish 0 true 11 11)).2.cb.state = .closed := by
    decide +kernel
  intro h
  have hstay := h.late 0 true 11 11 none rfl hadm (by simp) hstate
  rw [hclosed] at hstay
  cases hstay

/-! ## The number of trial requests -/

section
variable {s : Calls}

theorem step_hos (s : Calls) (e : CallEvent) : (step s e).2.cb.halfOpenSuccesses = s.cb.halfOpenSuccesses := by
  simpa [CircuitBreaker.config] using congrArg (fun c => c.2.2) (step_config s e)

/-- An episode begins with no call outstanding. -/
theorem outstanding_entry (h : Counted s) {cb : CircuitBreaker} (h1 : s.cb.state ≠ .halfOpen)
    (h2 : cb.state = .halfOpen) : outstanding (moved s cb) = 0 := by
  unfold outstanding
  rw [moved_inFlight, (moved_of_entry h1 h2).1, List.countP_eq_zero]
  intro c hc hk
  have hle := h.tags c hc (s.episode + 1) (by simpa using hk)
  omega

theorem outstanding_stay {cb : CircuitBreaker} (h : s.cb.state = .halfOpen) :
    outstanding (moved s cb) = outstanding s := by
  unfold outstanding
  rw [moved_inFlight, (moved_of_not _ (Or.inl h)).1]

/-- **A step keeps the trial requests limited exactly when there is room for it.** -/
theorem limited_step (h : Counted s ∧ Limited s) (e : CallEvent) : Limited (step s e).2 ↔ Room s e := by
  obtain ⟨h, hl⟩ := h
  unfold Limited
  rw [step_hos]
  cases e with
  | readState now =>
    simp only [step, Room, moved_cb]
    constructor
    · intro hlim hs hhalf
      have hle := hlim hhalf
      rw [outstanding_entry h (by simp [hs]) hhalf] at hle
      exact hle
    · intro hroom hhalf
      rcases query_halfOpen hhalf with ⟨hst, -⟩ | ⟨hst, -⟩
      · rw [outstanding_stay hst]
        exact hl hst
      · rw [outstanding_entry h (by simp [hst]) hhalf]
        exact hroom hst hhalf
  | arrive now =>
    simp only [step, Room, CircuitBreaker.allowRequest_snd]
    rcases arrive_cases s now with ⟨ha, hst⟩ | ⟨ha, -⟩
    · simp only [ha, moved_cb, hst, reduceCtorEq, false_implies]
    · have hone : (s.cb.readState now).2.state = .halfOpen →
          outstanding (arrive s now) = outstanding (moved s (s.cb.readState now).2) + 1 := by
        intro hhalf
        rw [ha]
        simp [outstanding, hhalf]
      have hcb : (arrive s now).cb = (s.cb.readState now).2 := by
        rw [ha]
        exact moved_cb s _
      rw [hcb]
      refine forall_congr' fun hhalf => ?_
      rw [hone hhalf]
      omega
  | finish call succeeded now later =>
    simp only [step, finish, Room, iff_true]
    cases hadm : admission s call with
    | none => exact hl
    | some adm =>
      simp only [moved_cb]
      intro hhalf
      obtain ⟨hst, -⟩ := outcome_halfOpen hhalf
      have hsub : ((moved s (outcome s.cb succeeded now later)).inFlight.filter (fun c => decide (c.1 ≠ call))).Sublist
          s.inFlight := by
        rw [moved_inFlight]
        exact List.filter_sublist
      have hle := hsub.countP_le (p := fun c => decide (c.2 = some s.episode))
      have hlim := hl hst
      unfold outstanding at hlim ⊢
      rw [(moved_of_not _ (Or.inl hst)).1]
      exact le_trans (Int.ofNat_le.2 hle) hlim

end

/-- **The trial requests stay limited exactly along the runs in which every admission finds room.** -/
theorem limited_iff_room (failureThreshold : ℤ) (recoveryTimeout : ℚ) (halfOpenSuccesses : ℤ) (es : List CallEvent) :
    (∀ pre post, es = pre ++ post →
      Limited (run step (start failureThreshold recoveryTimeout halfOpenSuccesses) pre)) ↔
      Along step Room (start failureThreshold recoveryTimeout halfOpenSuccesses) es := by
  have h0 : Counted (start failureThreshold recoveryTimeout halfOpenSuccesses) ∧
      Limited (start failureThreshold recoveryTimeout halfOpenSuccesses) :=
    ⟨counted_init (new_state _ _ _), nofun⟩
  have hboth := always_iff_along (P := fun s => Counted s ∧ Limited s) (G := Room) h0 es
    (fun _ e _ _ h => (and_iff_right (counted_step h.1 e)).trans (limited_step h e))
  rw [← hboth]
  exact forall_congr' fun pre => forall_congr' fun post => forall_congr' fun _ =>
    (and_iff_right (counted_run _ _ _ pre)).symm

/-- A failed call, and two admitted together once the timeout has passed. -/
def twoProbes : List CallEvent := [.arrive 0, .finish 0 false 1 1, .arrive 10, .arrive 10]

theorem twoProbes_outstanding : ¬ Limited (run step (start 1 5 1) twoProbes) := by
  have hstate : (run step (start 1 5 1) twoProbes).cb.state = .halfOpen := by decide +kernel
  have hmany : ¬ (outstanding (run step (start 1 5 1) twoProbes) : ℤ) ≤
      (run step (start 1 5 1) twoProbes).cb.halfOpenSuccesses := by decide +kernel
  exact fun h => hmany (h hstate)

end CircuitCalls
end Ticket
