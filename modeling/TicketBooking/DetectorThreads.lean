import TicketBooking.Parties
import TicketBooking.Runs
/-!
# DetectorThreads — starting and stopping the failure detector (`monitoring/failure_detector.py`)

The loop threads of a detector share one stop flag.  `stop` sets it, waits for the thread it knows and forgets it,
whether the thread has ended or the wait has; `start` looks only at the thread it knows, clears the flag and spawns
another.  A step is one step of `start` or of `stop`, called one after another, or of a loop thread.  A thread that was
told to stop and has not yet looked resumes once the flag is cleared, beside the new one: that is the case exactly when
a `start` clears the flag while a thread still lives (`atMostOneLoop_iff_along`), and never where every `stop` waits for
its thread (`along_guard_of_patient`).
-/
namespace Ticket

inductive LoopPhase where
  /-- before a look at the stop flag -/
  | testing
  | iterating
  /-- in `_stop_event.wait` -/
  | waiting
  | exited
  deriving DecidableEq

/-- A loop thread.  `told` is not of the code: since the thread was started, `stop` has been called. -/
structure LoopThread where
  phase : LoopPhase
  told : Bool
  deriving DecidableEq

inductive LoopAct where
  | test
  /-- the iteration ends, with its callbacks -/
  | finish
  /-- the wait ends, by the flag or by its interval -/
  | wake
  deriving DecidableEq

/-- A step of `_run_loop`, which only looks at the flag. -/
def LoopThread.act (stopEvent : Bool) (t : LoopThread) : LoopAct → Option (Bool × LoopThread)
  | .test =>
    if t.phase = .testing then
      some (stopEvent, { t with phase := if stopEvent = true then .exited else .iterating })
    else none
  | .finish => if t.phase = .iterating then some (stopEvent, { t with phase := .waiting }) else none
  | .wake => if t.phase = .waiting then some (stopEvent, { t with phase := .testing }) else none

/-- Where the caller of `start` and `stop` is. -/
inductive DetectorCaller where
  | idle
  /-- `start` has found no live thread -/
  | clearing
  /-- and has cleared the flag -/
  | spawning
  /-- `stop` has set the flag and waits, for ever or up to a timeout -/
  | joining (timeout : Bool)
  | forgetting
  deriving DecidableEq

structure DetectorThreads where
  stopEvent : Bool
  thread : Option ℕ
  /-- every thread started so far -/
  threads : List LoopThread
  caller : DetectorCaller

inductive ThreadsEvent where
  | start
  | clear
  | spawn
  | stop (timeout : Bool)
  | join
  | forget
  /-- a step of the thread started after `k` others -/
  | act (k : ℕ) (a : LoopAct)
  deriving DecidableEq

namespace DetectorThreads

open Runs

def new : DetectorThreads := ⟨false, none, [], .idle⟩

def isAlive (s : DetectorThreads) (k : ℕ) : Bool := (s.threads[k]?).any (fun t => decide (t.phase ≠ .exited))

def step (s : DetectorThreads) : ThreadsEvent → Unit × DetectorThreads
  | .start =>
    if s.caller = .idle ∧ s.thread.any s.isAlive = false then ((), { s with caller := .clearing }) else ((), s)
  | .clear => if s.caller = .clearing then ((), { s with stopEvent := false, caller := .spawning }) else ((), s)
  | .spawn =>
    if s.caller = .spawning then
      ((), { s with
        thread := some s.threads.length, threads := s.threads ++ [⟨.testing, false⟩], caller := .idle })
    else ((), s)
  | .stop timeout =>
    if s.caller = .idle then
      ((), { s with
        stopEvent := true
        threads := s.threads.map (fun t => { t with told := true })
        caller := if s.thread.isSome = true then .joining timeout else .idle })
    else ((), s)
  | .join =>
    match s.caller with
    | .joining timeout =>
      if timeout = true ∨ s.thread.any s.isAlive = false then ((), { s with caller := .forgetting }) else ((), s)
    | _ => ((), s)
  | .forget => if s.caller = .forgetting then ((), { s with thread := none, caller := .idle }) else ((), s)
  | .act k a =>
    let r := Parties.move LoopThread.act (s.stopEvent, s.threads) k a
    ((), { s with stopEvent := r.1, threads := r.2 })

/-! ## Which threads can begin an iteration -/

/-- The thread's next step begins an iteration. -/
def Begins (s : DetectorThreads) (k : ℕ) : Prop :=
  s.stopEvent = false ∧ ∃ t, s.threads[k]? = some t ∧ t.phase = .testing

/-- Left to itself, the thread may come to begin another iteration. -/
def CanBegin (s : DetectorThreads) (k : ℕ) : Prop :=
  ∃ acts : List LoopAct, Begins (run step s (acts.map (fun a => ThreadsEvent.act k a))) k

def Alive (s : DetectorThreads) (k : ℕ) : Prop := ∃ t, s.threads[k]? = some t ∧ t.phase ≠ .exited

/-- **At most one thread can begin an iteration**, and none that was told to stop. -/
structure AtMostOneLoop (s : DetectorThreads) : Prop where
  single : ∀ j k, CanBegin s j → CanBegin s k → j = k
  stopped : ∀ k t, s.threads[k]? = some t → t.told = true → ¬ CanBegin s k

variable {s : DetectorThreads} {j k : ℕ} {a : LoopAct}

theorem act_cases {stopEvent f : Bool} {t t' : LoopThread} (h : t.act stopEvent a = some (f, t')) :
    f = stopEvent ∧ t'.told = t.told ∧ t.phase ≠ .exited := by
  cases a with
  | test =>
    obtain ⟨hp, rfl, rfl⟩ := Parties.of_guarded h
    exact ⟨rfl, rfl, by simp [hp]⟩
  | finish =>
    obtain ⟨hp, rfl, rfl⟩ := Parties.of_guarded h
    exact ⟨rfl, rfl, by simp [hp]⟩
  | wake =>
    obtain ⟨hp, rfl, rfl⟩ := Parties.of_guarded h
    exact ⟨rfl, rfl, by simp [hp]⟩

/-- **What a thread's step leaves**: the flag, what the caller does, and every thread that had ended; and it tells no
thread to stop. -/
theorem step_act (s : DetectorThreads) (k : ℕ) (a : LoopAct) :
    (step s (.act k a)).2.stopEvent = s.stopEvent ∧ (step s (.act k a)).2.thread = s.thread ∧
      (step s (.act k a)).2.caller = s.caller ∧
      ∀ (i : ℕ) (t' : LoopThread), (step s (.act k a)).2.threads[i]? = some t' →
        ∃ t : LoopThread, s.threads[i]? = some t ∧ t'.told = t.told ∧ (t'.phase ≠ .exited → t.phase ≠ .exited) := by
  rcases Parties.move_cases LoopThread.act (s.stopEvent, s.threads) k a with ⟨t, f, t', hk, ha, hmove⟩ | ⟨hmove, -⟩
  · obtain ⟨rfl, htold, hlive⟩ := act_cases ha
    have hstep : (step s (.act k a)).2 = { s with threads := s.threads.set k t' } := by simp only [step, hmove]
    rw [hstep]
    refine ⟨rfl, rfl, rfl, fun i t'' hi => ?_⟩
    rcases Parties.getElem?_set_cases hi with ⟨rfl, rfl⟩ | ⟨-, hi⟩
    · exact ⟨t, hk, htold, fun _ => hlive⟩
    · exact ⟨t'', hi, rfl, id⟩
  · have hstep : (step s (.act k a)).2 = s := by simp only [step, hmove]
    rw [hstep]
    exact ⟨rfl, rfl, rfl, fun i t' hi => ⟨t', hi, rfl, id⟩⟩

theorem alive_of_act (h : Alive (step s (.act k a)).2 j) : Alive s j := by
  obtain ⟨t', hj, hp⟩ := h
  obtain ⟨t, ht, -, hlive⟩ := (step_act s k a).2.2.2 j t' hj
  exact ⟨t, ht, hlive hp⟩

theorem run_acts (s : DetectorThreads) (k : ℕ) (acts : List LoopAct) :
    (run step s (acts.map (fun a => ThreadsEvent.act k a))).stopEvent = s.stopEvent ∧
      (Alive (run step s (acts.map (fun a => ThreadsEvent.act k a))) k → Alive s k) := by
  induction acts using List.reverseRecOn with
  | nil => exact ⟨rfl, id⟩
  | append_singleton acts a ih =>
    rw [List.map_append, List.map_singleton, run_snoc]
    exact ⟨(step_act _ k a).1.trans ih.1, fun h => ih.2 (alive_of_act h)⟩

theorem step_act_some {t t' : LoopThread} {f : Bool} (hk : s.threads[k]? = some t)
    (ha : t.act s.stopEvent a = some (f, t')) :
    (step s (.act k a)).2.threads[k]? = some t' ∧ (step s (.act k a)).2.stopEvent = f := by
  have hlt : k < s.threads.length := (List.getElem?_eq_some_iff.1 hk).1
  simp only [step, Parties.move, hk, ha]
  exact ⟨List.getElem?_set_self hlt, trivial⟩

/-- **A thread can begin an iteration as long as it lives and the flag is clear.** -/
theorem canBegin_iff : CanBegin s k ↔ s.stopEvent = false ∧ Alive s k := by
  constructor
  · rintro ⟨acts, hflag, t, ht, hp⟩
    obtain ⟨hstop, halive⟩ := run_acts s k acts
    exact ⟨hstop ▸ hflag, halive ⟨t, ht, by simp [hp]⟩⟩
  · rintro ⟨hflag, t, ht, hp⟩
    have hwake : ∀ {s : DetectorThreads} {t : LoopThread}, s.stopEvent = false → s.threads[k]? = some t →
        t.phase = .waiting → Begins (step s (.act k .wake)).2 k := by
      intro s t hflag ht hp
      obtain ⟨hk, hf⟩ := step_act_some (a := .wake) ht (by rw [LoopThread.act, if_pos hp])
      exact ⟨hf.trans hflag, _, hk, rfl⟩
    cases hphase : t.phase with
    | testing => exact ⟨[], hflag, t, ht, hphase⟩
    | iterating =>
      obtain ⟨hk, hf⟩ := step_act_some (a := .finish) ht (by rw [LoopThread.act, if_pos hphase])
      exact ⟨[.finish, .wake], hwake (hf.trans hflag) hk rfl⟩
    | waiting => exact ⟨[.wake], hwake hflag ht hphase⟩
    | exited => exact absurd hphase hp

theorem atMostOneLoop_iff : AtMostOneLoop s ↔ (s.stopEvent = false → (∀ j k, Alive s j → Alive s k → j = k) ∧
    ∀ (k : ℕ) (t : LoopThread), s.threads[k]? = some t → t.phase ≠ .exited → t.told = false) := by
  constructor
  · intro h hflag
    refine ⟨fun j k hj hk => ?_, fun k t ht hp => ?_⟩
    · exact h.single j k (canBegin_iff.2 ⟨hflag, hj⟩) (canBegin_iff.2 ⟨hflag, hk⟩)
    · exact eq_false_of_ne_true fun htold => h.stopped k t ht htold (canBegin_iff.2 ⟨hflag, t, ht, hp⟩)
  · intro h
    refine ⟨fun j k hj hk => ?_, fun k t ht htold hk => ?_⟩
    · obtain ⟨hflag, hj⟩ := canBegin_iff.1 hj
      exact (h hflag).1 j k hj (canBegin_iff.1 hk).2
    · obtain ⟨hflag, t', ht', hp⟩ := canBegin_iff.1 hk
      obtain rfl := Option.some.inj (ht.symm.trans ht')
      rw [(h hflag).2 k t ht hp] at htold
      cases htold

/-! ## What the caller leaves behind -/

theorem isAlive_iff : s.isAlive k = true ↔ Alive s k := by
  unfold isAlive Alive
  cases s.threads[k]? <;> simp

theorem any_isAlive_eq_false : s.thread.any s.isAlive = false ↔ ∀ k ∈ s.thread, ¬ Alive s k := by
  cases hth : s.thread with
  | none => simp
  | some k => simp [← isAlive_iff]

/-- **What a step can do**: nothing, a step of `start`, a step of `stop`, or one of a thread. -/
theorem step_cases (s : DetectorThreads) (e : ThreadsEvent) :
    ((step s e).2 = s ∧ (e = .clear → s.caller ≠ .clearing)) ∨
    (e = .start ∧ s.caller = .idle ∧ (∀ k ∈ s.thread, ¬ Alive s k) ∧ (step s e).2 = { s with caller := .clearing }) ∨
    (e = .clear ∧ s.caller = .clearing ∧ (step s e).2 = { s with stopEvent := false, caller := .spawning }) ∨
    (e = .spawn ∧ s.caller = .spawning ∧ (step s e).2 = { s with
      thread := some s.threads.length, threads := s.threads ++ [⟨.testing, false⟩], caller := .idle }) ∨
    (∃ timeout, e = .stop timeout ∧ s.caller = .idle ∧ (step s e).2 = { s with
      stopEvent := true
      threads := s.threads.map (fun t => { t with told := true })
      caller := if s.thread.isSome = true then .joining timeout else .idle }) ∨
    (∃ timeout, e = .join ∧ s.caller = .joining timeout ∧ (timeout = true ∨ ∀ k ∈ s.thread, ¬ Alive s k) ∧
      (step s e).2 = { s with caller := .forgetting }) ∨
    (e = .forget ∧ s.caller = .forgetting ∧ (step s e).2 = { s with thread := none, caller := .idle }) ∨
    ∃ k a, e = .act k a := by
  cases e with
  | start =>
    by_cases hc : s.caller = .idle ∧ s.thread.any s.isAlive = false
    · exact Or.inr (Or.inl ⟨rfl, hc.1, any_isAlive_eq_false.1 hc.2, by rw [step, if_pos hc]⟩)
    · exact Or.inl ⟨by rw [step, if_neg hc], fun he => by cases he⟩
  | clear =>
    by_cases hc : s.caller = .clearing
    · exact Or.inr (Or.inr (Or.inl ⟨rfl, hc, by rw [step, if_pos hc]⟩))
    · exact Or.inl ⟨by rw [step, if_neg hc], fun _ => hc⟩
  | spawn =>
    by_cases hc : s.caller = .spawning
    · exact Or.inr (Or.inr (Or.inr (Or.inl ⟨rfl, hc, by rw [step, if_pos hc]⟩)))
    · exact Or.inl ⟨by rw [step, if_neg hc], fun he => by cases he⟩
  | stop timeout =>
    by_cases hc : s.caller = .idle
    · exact Or.inr (Or.inr (Or.inr (Or.inr (Or.inl ⟨timeout, rfl, hc, by rw [step, if_pos hc]⟩))))
    · exact Or.inl ⟨by rw [step, if_neg hc], fun he => by cases he⟩
  | join =>
    rw [step]
    split
    · rename_i timeout hc
      split
      · rename_i hend
        rw [any_isAlive_eq_false] at hend
        exact Or.inr (Or.inr (Or.inr (Or.inr (Or.inr (Or.inl ⟨timeout, rfl, hc, hend, rfl⟩)))))
      · exact Or.inl ⟨rfl, fun he => by cases he⟩
    · exact Or.inl ⟨rfl, fun he => by cases he⟩
  | forget =>
    by_cases hc : s.caller = .forgetting
    · exact Or.inr (Or.inr (Or.inr (Or.inr (Or.inr (Or.inr (Or.inl ⟨rfl, hc, by rw [step, if_pos hc]⟩))))))
    · exact Or.inl ⟨by rw [step, if_neg hc], fun he => by cases he⟩
  | act k a => exact Or.inr (Or.inr (Or.inr (Or.inr (Or.inr (Or.inr (Or.inr ⟨k, a, rfl⟩))))))

/-- What the caller has seen to at each place. -/
def SeenTo (s : DetectorThreads) : DetectorCaller → Prop
  | .idle => True
  | .clearing => ∀ k ∈ s.thread, ¬ Alive s k
  | .spawning => s.stopEvent = false ∧ ∀ k ∈ s.thread, ¬ Alive s k
  | .joining _ => ∀ t ∈ s.threads, t.told = true
  | .forgetting => ∀ t ∈ s.threads, t.told = true

/-- **Every live thread but the one the detector knows was told to stop.** -/
structure Sane (s : DetectorThreads) : Prop where
  forgotten : ∀ k t, s.threads[k]? = some t → t.phase ≠ .exited → s.thread ≠ some k → t.told = true
  seenTo : SeenTo s s.caller

theorem sane_new : Sane new := by
  refine ⟨fun k t ht => ?_, trivial⟩
  simp [new] at ht

/-- While the thread the detector knows is not alive, every thread that is was told to stop. -/
theorem Sane.told (h : Sane s) (hdead : ∀ k ∈ s.thread, ¬ Alive s k) {t : LoopThread}
    (ht : s.threads[k]? = some t) (hp : t.phase ≠ .exited) : t.told = true :=
  h.forgotten k t ht hp fun hk => hdead k hk ⟨t, ht, hp⟩

theorem told_act (h : ∀ t ∈ s.threads, t.told = true) : ∀ t ∈ (step s (.act k a)).2.threads, t.told = true := by
  intro t' ht'
  obtain ⟨i, hi⟩ := List.mem_iff_getElem?.1 ht'
  obtain ⟨t, ht, htold, -⟩ := (step_act s k a).2.2.2 i t' hi
  rw [htold]
  exact h t (Parties.mem_of_getElem? ht)

theorem seenTo_act {c : DetectorCaller} (h : SeenTo s c) : SeenTo (step s (.act k a)).2 c := by
  obtain ⟨hflag, hthread, -, -⟩ := step_act s k a
  have hdead : (∀ k ∈ s.thread, ¬ Alive s k) → ∀ j ∈ (step s (.act k a)).2.thread, ¬ Alive (step s (.act k a)).2 j := by
    intro hdead j hj hlive
    exact hdead j (hthread ▸ hj) (alive_of_act hlive)
  cases c with
  | idle => trivial
  | clearing => exact hdead h
  | spawning => exact ⟨hflag.trans h.1, hdead h.2⟩
  | joining timeout => exact told_act h
  | forgetting => exact told_act h

theorem sane_step (h : Sane s) (e : ThreadsEvent) : Sane (step s e).2 := by
  have hseen := h.seenTo
  rcases step_cases s e with ⟨hstep, -⟩ | ⟨-, -, hdead, hstep⟩ | ⟨-, hc, hstep⟩ | ⟨-, hc, hstep⟩ |
    ⟨timeout, -, -, hstep⟩ | ⟨timeout, -, hc, -, hstep⟩ | ⟨-, hc, hstep⟩ | ⟨k, a, rfl⟩
  · rwa [hstep]
  · rw [hstep]
    exact ⟨h.forgotten, hdead⟩
  · rw [hc] at hseen
    rw [hstep]
    exact ⟨h.forgotten, rfl, hseen⟩
  · rw [hc] at hseen
    rw [hstep]
    refine ⟨fun k t ht hp hne => ?_, trivial⟩
    rcases Parties.getElem?_concat_cases ht with ⟨rfl, -⟩ | ht
    · exact absurd rfl hne
    · exact h.told hseen.2 ht hp
  · have htold : ∀ t ∈ s.threads.map (fun t => { t with told := true }), t.told = true := by
      intro t ht
      obtain ⟨t', -, rfl⟩ := List.mem_map.1 ht
      rfl
    rw [hstep]
    refine ⟨fun k t ht _ _ => htold t (Parties.mem_of_getElem? ht), ?_⟩
    dsimp only
    split
    · exact htold
    · trivial
  · rw [hc] at hseen
    rw [hstep]
    exact ⟨h.forgotten, hseen⟩
  · rw [hc] at hseen
    rw [hstep]
    exact ⟨fun k t ht _ _ => hseen t (Parties.mem_of_getElem? ht), trivial⟩
  · obtain ⟨-, hthread, hcaller, hsame⟩ := step_act s k a
    refine ⟨fun i t' hi hp hne => ?_, ?_⟩
    · obtain ⟨t, ht, htold, hlive⟩ := hsame i t' hi
      rw [htold]
      exact h.forgotten i t ht (hlive hp) (hthread ▸ hne)
    · rw [hcaller]
      exact seenTo_act hseen

theorem sane_run (es : List ThreadsEvent) : Sane (run step new es) :=
  invariant sane_new (fun _ e h => sane_step h e) es

/-! ## When a stopped thread stays stopped -/

/-- The condition on a step: a `start` clears the flag when every thread started before has ended. -/
def Guard (s : DetectorThreads) : ThreadsEvent → Prop
  | .clear => s.caller = .clearing → ∀ t ∈ s.threads, t.phase = .exited
  | _ => True

theorem not_alive_iff : (∀ k, ¬ Alive s k) ↔ ∀ t ∈ s.threads, t.phase = .exited := by
  constructor
  · intro h t ht
    obtain ⟨k, hk⟩ := List.mem_iff_getElem?.1 ht
    by_contra hp
    exact h k ⟨t, hk, hp⟩
  · rintro h k ⟨t, ht, hp⟩
    exact hp (h t (Parties.mem_of_getElem? ht))

/-- Once the flag is clear, one loop runs exactly when none was left. -/
theorem clear_iff (hs : Sane s) (hc : s.caller = .clearing) :
    AtMostOneLoop { s with stopEvent := false, caller := .spawning } ↔ ∀ t ∈ s.threads, t.phase = .exited := by
  have hdead := hs.seenTo
  rw [hc] at hdead
  rw [atMostOneLoop_iff, ← not_alive_iff]
  constructor
  · rintro hnext k ⟨t, ht, hp⟩
    have hfalse : t.told = false := (hnext rfl).2 k t ht hp
    rw [hs.told hdead ht hp] at hfalse
    cases hfalse
  · intro hnone _
    exact ⟨fun j _ hj => absurd hj (hnone j), fun k t ht hp => absurd ⟨t, ht, hp⟩ (hnone k)⟩

/-- The new thread is then the only one. -/
theorem atMostOneLoop_spawn (hs : Sane s) (h : AtMostOneLoop s) (hc : s.caller = .spawning) : AtMostOneLoop { s with
    thread := some s.threads.length, threads := s.threads ++ [⟨.testing, false⟩], caller := .idle } := by
  have hseen := hs.seenTo
  rw [hc] at hseen
  have hnone : ∀ k, ¬ Alive s k := by
    rintro k ⟨t, ht, hp⟩
    have hfalse := (atMostOneLoop_iff.1 h hseen.1).2 k t ht hp
    rw [hs.told hseen.2 ht hp] at hfalse
    cases hfalse
  have honly : ∀ {k t}, (s.threads ++ [⟨.testing, false⟩])[k]? = some t → t.phase ≠ .exited →
      k = s.threads.length ∧ t.told = false := by
    intro k t ht hp
    rcases Parties.getElem?_concat_cases ht with ⟨rfl, rfl⟩ | ht
    · exact ⟨rfl, rfl⟩
    · exact absurd ⟨t, ht, hp⟩ (hnone k)
  refine atMostOneLoop_iff.2 fun _ => ⟨?_, fun k t ht hp => (honly ht hp).2⟩
  rintro j k ⟨t, ht, hp⟩ ⟨t', ht', hp'⟩
  rw [(honly ht hp).1, (honly ht' hp').1]

theorem atMostOneLoop_act (h : AtMostOneLoop s) : AtMostOneLoop (step s (.act k a)).2 := by
  obtain ⟨hflag, -, -, hsame⟩ := step_act s k a
  refine atMostOneLoop_iff.2 fun hf => ?_
  obtain ⟨hsingle, huntold⟩ := atMostOneLoop_iff.1 h (hflag ▸ hf)
  refine ⟨fun i j hi hj => hsingle i j (alive_of_act hi) (alive_of_act hj), fun i t' hi hp => ?_⟩
  obtain ⟨t, ht, htold, hlive⟩ := hsame i t' hi
  rw [htold]
  exact huntold i t ht (hlive hp)

theorem atMostOneLoop_step_iff (hs : Sane s) (h : AtMostOneLoop s) (e : ThreadsEvent) :
    AtMostOneLoop (step s e).2 ↔ Guard s e := by
  have hloop := atMostOneLoop_iff.1 h
  rcases step_cases s e with ⟨hstep, he⟩ | ⟨rfl, -, -, hstep⟩ | ⟨rfl, hc, hstep⟩ | ⟨rfl, hc, hstep⟩ |
    ⟨timeout, rfl, -, hstep⟩ | ⟨timeout, rfl, -, -, hstep⟩ | ⟨rfl, -, hstep⟩ | ⟨k, a, rfl⟩
  · rw [hstep]
    refine iff_of_true h ?_
    cases e with
    | clear => exact fun hc => absurd hc (he rfl)
    | _ => trivial
  · rw [hstep]
    exact iff_of_true (atMostOneLoop_iff.2 hloop) trivial
  · rw [hstep, clear_iff hs hc]
    exact ⟨fun hg _ => hg, fun hg => hg hc⟩
  · rw [hstep]
    exact iff_of_true (atMostOneLoop_spawn hs h hc) trivial
  · rw [hstep]
    exact iff_of_true (atMostOneLoop_iff.2 fun hflag => by cases hflag) trivial
  · rw [hstep]
    exact iff_of_true (atMostOneLoop_iff.2 hloop) trivial
  · rw [hstep]
    exact iff_of_true (atMostOneLoop_iff.2 hloop) trivial
  · exact iff_of_true (atMostOneLoop_act h) trivial

/-- **At most one loop runs, and no stopped thread resumes**, throughout a run, exactly when no `start` of the run clears
the flag while a thread started before still lives. -/
theorem atMostOneLoop_iff_along (es : List ThreadsEvent) :
    (∀ pre post, es = pre ++ post → AtMostOneLoop (run step new pre)) ↔ Along step Guard new es :=
  always_iff_along (atMostOneLoop_iff.2 fun _ => ⟨fun j _ hj => by obtain ⟨t, ht, -⟩ := hj; simp [new] at ht,
    fun k t ht => by simp [new] at ht⟩) es fun pre e _ _ h => atMostOneLoop_step_iff (sane_run pre) h e

/-! ## Stops that wait -/

/-- A `stop` waits for as long as the thread takes. -/
def Patient : ThreadsEvent → Prop
  | .stop timeout => timeout = false
  | _ => True

/-- **No thread lives but the one the detector knows.** -/
structure Known (s : DetectorThreads) : Prop where
  only : ∀ k, Alive s k → s.thread = some k
  joining : ∀ timeout, s.caller = .joining timeout → timeout = false
  forgetting : s.caller = .forgetting → ∀ k, ¬ Alive s k

theorem known_new : Known new := by
  refine ⟨?_, fun timeout h => ?_, fun h => ?_⟩
  · rintro k ⟨t, ht, -⟩
    simp [new] at ht
  · cases h
  · cases h

theorem Known.dead (h : Known s) (hdead : ∀ k ∈ s.thread, ¬ Alive s k) : ∀ k, ¬ Alive s k :=
  fun k hk => hdead k (h.only k hk) hk

theorem known_step (hs : Sane s) (h : Known s) {e : ThreadsEvent} (he : Patient e) : Known (step s e).2 := by
  have hseen := hs.seenTo
  rcases step_cases s e with ⟨hstep, -⟩ | ⟨-, -, -, hstep⟩ | ⟨-, -, hstep⟩ | ⟨-, hc, hstep⟩ |
    ⟨timeout, rfl, -, hstep⟩ | ⟨timeout, -, hc, hend, hstep⟩ | ⟨-, hc, hstep⟩ | ⟨k, a, rfl⟩
  · rwa [hstep]
  · rw [hstep]
    refine ⟨h.only, fun _ hj => ?_, fun hf => ?_⟩
    · cases hj
    · cases hf
  · rw [hstep]
    refine ⟨h.only, fun _ hj => ?_, fun hf => ?_⟩
    · cases hj
    · cases hf
  · rw [hc] at hseen
    rw [hstep]
    refine ⟨?_, fun _ hj => ?_, fun hf => ?_⟩
    · rintro k ⟨t, ht, hp⟩
      rcases Parties.getElem?_concat_cases ht with ⟨rfl, -⟩ | ht
      · rfl
      · exact absurd ⟨t, ht, hp⟩ (h.dead hseen.2 k)
    · cases hj
    · cases hf
  · rw [hstep]
    refine ⟨?_, fun timeout' hj => ?_, fun hf => ?_⟩
    · rintro k ⟨t, ht, hp⟩
      rw [List.getElem?_map] at ht
      obtain ⟨t', ht', rfl⟩ := Option.map_eq_some_iff.1 ht
      exact h.only k ⟨t', ht', hp⟩
    · dsimp only at hj
      split at hj
      · rw [← DetectorCaller.joining.inj hj]
        exact he
      · cases hj
    · dsimp only at hf
      split at hf <;> cases hf
  · rw [hstep]
    refine ⟨h.only, fun _ hj => ?_, fun _ => h.dead ?_⟩
    · cases hj
    · rcases hend with htimeout | hdead
      · rw [h.joining timeout hc] at htimeout
        cases htimeout
      · exact hdead
  · rw [hstep]
    refine ⟨fun k hk => absurd hk (h.forgetting hc k), fun _ hj => ?_, fun hf => ?_⟩
    · cases hj
    · cases hf
  · obtain ⟨-, hthread, hcaller, -⟩ := step_act s k a
    refine ⟨fun j hj => ?_, fun timeout hj => ?_, fun hf j hj => ?_⟩
    · rw [hthread]
      exact h.only j (alive_of_act hj)
    · exact h.joining timeout (hcaller ▸ hj)
    · exact h.forgetting (hcaller ▸ hf) j (alive_of_act hj)

/-- **Where every `stop` waits for its thread, the condition is met.** -/
theorem along_guard_of_patient {es : List ThreadsEvent} (hes : ∀ e ∈ es, Patient e) : Along step Guard new es := by
  refine (along_iff es).2 fun pre e post he => ?_
  have hpre : Along step (fun _ e => Patient e) new pre :=
    along_of_mem fun e' he' _ => hes e' (by rw [he]; exact List.mem_append_left _ he')
  obtain ⟨hs, hk⟩ : Sane (run step new pre) ∧ Known (run step new pre) :=
    invariant_along (P := fun s => Sane s ∧ Known s) ⟨sane_new, known_new⟩
      (fun _ e h he => ⟨sane_step h.1 e, known_step h.1 h.2 he⟩) pre hpre
  cases e with
  | clear =>
    intro hc
    have hdead := hs.seenTo
    rw [hc] at hdead
    exact not_alive_iff.1 (hk.dead hdead)
  | _ => trivial

/-- A thread in a slow callback, a `stop` that waits for a moment only, and a `start`. -/
def hastyRestart : List ThreadsEvent :=
  [.start, .clear, .spawn, .act 0 .test, .stop true, .join, .forget, .start, .clear, .spawn]

/-- **Two loops run**, the stopped one and the new one. -/
theorem hastyRestart_twoLoops : ¬ ∀ pre post, hastyRestart = pre ++ post → AtMostOneLoop (run step new pre) := by
  intro h
  have hend := (h hastyRestart [] (List.append_nil _).symm).single 0 1
    ⟨[.finish, .wake], rfl, ⟨.testing, true⟩, rfl, rfl⟩ ⟨[], rfl, ⟨.testing, false⟩, rfl, rfl⟩
  exact absurd hend (by decide)

end DetectorThreads
end Ticket
