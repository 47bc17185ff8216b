import TicketBooking.Parties
import TicketBooking.Runs
/-!
# CheckerThreads — starting and stopping the health checker (`monitoring/health_checker.py`)

`start` goes by the thread it spawned last: while that thread lives it returns, and leaves the stop flag as it is; when
it has ended, the flag is cleared and a thread spawned.  A step is one step of `start` or of `stop`, called one after
another, or of a loop thread, whose `Event.wait` looks at the flag when it begins and is told when the flag is set.
After a `start` the checker is running exactly when no `start` of the run has found a thread that lives and the flag
set (`restarted_iff_along`), which is never where every `stop` waits for its thread (`along_guard_of_patient`).
-/
namespace Ticket

inductive CheckPhase where
  /-- before `_stop_event.wait` looks at the flag -/
  | entering
  /-- asleep in `_stop_event.wait` -/
  | sleeping
  /-- in `update_states` -/
  | updating
  /-- `_stop_event.wait` returns `True` -/
  | leaving
  | exited
  deriving DecidableEq

inductive CheckAct where
  | look
  /-- the wait ends with its interval -/
  | timeout
  /-- `update_states` returns -/
  | finish
  | exit
  deriving DecidableEq

namespace CheckPhase

/-- A step of `_run`. -/
def act (stopEvent : Bool) (p : CheckPhase) : CheckAct → Option (Bool × CheckPhase)
  | .look => if p = .entering then some (stopEvent, if stopEvent = true then .leaving else .sleeping) else none
  | .timeout => if p = .sleeping then some (stopEvent, .updating) else none
  | .finish => if p = .updating then some (stopEvent, .entering) else none
  | .exit => if p = .leaving then some (stopEvent, .exited) else none

/-- What `Event.set` does to a thread: those that sleep are told, and stay told when the flag is cleared. -/
def notify (p : CheckPhase) : CheckPhase := if p = .sleeping then .leaving else p

end CheckPhase

/-- Where the caller of `start` and `stop` is. -/
inductive CheckerCaller where
  | idle
  /-- `start` has found no live thread -/
  | clearing
  /-- and has cleared the flag -/
  | spawning
  /-- `stop` has set the flag and waits, for ever or up to a timeout -/
  | joining (timeout : Bool)
  deriving DecidableEq

inductive Lifecycle where
  | start
  | stop
  deriving DecidableEq

/-- `last` is not of the code: the call completed last. -/
structure CheckerThreads where
  stopEvent : Bool
  thread : Option ℕ
  /-- every thread started so far -/
  threads : List CheckPhase
  caller : CheckerCaller
  last : Option Lifecycle

inductive CheckerEvent where
  | start
  | clear
  | spawn
  | stop (timeout : Bool)
  | join
  /-- a step of the thread started after `k` others -/
  | act (k : ℕ) (a : CheckAct)
  deriving DecidableEq

namespace CheckerThreads

open Runs

def new : CheckerThreads := ⟨false, none, [], .idle, none⟩

def isAlive (s : CheckerThreads) (k : ℕ) : Bool := (s.threads[k]?).any (fun p => decide (p ≠ .exited))

def step (s : CheckerThreads) : CheckerEvent → Unit × CheckerThreads
  | .start =>
    if s.caller = .idle then
      if s.thread.any s.isAlive = true then ((), { s with last := some .start })
      else ((), { s with caller := .clearing })
    else ((), s)
  | .clear => if s.caller = .clearing then ((), { s with stopEvent := false, caller := .spawning }) else ((), s)
  | .spawn =>
    if s.caller = .spawning then
      ((), { s with
        thread := some s.threads.length, threads := s.threads ++ [.entering], caller := .idle, last := some .start })
    else ((), s)
  | .stop timeout =>
    if s.caller = .idle then
      let set := { s with stopEvent := true, threads := s.threads.map CheckPhase.notify }
      if s.thread.isSome = true then ((), { set with caller := .joining timeout })
      else ((), { set with last := some .stop })
    else ((), s)
  | .join =>
    match s.caller with
    | .joining timeout =>
      if timeout = true ∨ s.thread.any s.isAlive = false then ((), { s with caller := .idle, last := some .stop })
      else ((), s)
    | _ => ((), s)
  | .act k a =>
    let r := Parties.move CheckPhase.act (s.stopEvent, s.threads) k a
    ((), { s with stopEvent := r.1, threads := r.2 })

/-! ## What it is to be running -/

def Alive (s : CheckerThreads) (k : ℕ) : Prop := ∃ p, s.threads[k]? = some p ∧ p ≠ .exited

/-- The state after steps of the loop threads, in any order. -/
def acted (s : CheckerThreads) (acts : List (ℕ × CheckAct)) : CheckerThreads :=
  run step s (acts.map (fun a => CheckerEvent.act a.1 a.2))

/-- **The checker is running**: the flag is clear, one thread lives, and it does not exit by any steps of the threads. -/
structure ReallyRunning (s : CheckerThreads) : Prop where
  clear : s.stopEvent = false
  one : ∃ k, Alive s k ∧ (∀ j, Alive s j → j = k) ∧ ∀ acts, Alive (acted s acts) k

/-- Between two calls, of which the one before was `start`, the checker is running. -/
def Restarted (s : CheckerThreads) : Prop := s.caller = .idle → s.last = some .start → ReallyRunning s

variable {s : CheckerThreads} {j k : ℕ} {a : CheckAct}

/-- **What a step of a thread can do**: it exits only when it has been told, and is told only by the flag. -/
theorem act_cases {stopEvent f : Bool} {p p' : CheckPhase} (h : p.act stopEvent a = some (f, p')) :
    f = stopEvent ∧ p ≠ .exited ∧ (p' = .leaving → stopEvent = true) ∧ (p' = .exited → p = .leaving) := by
  cases a with
  | look =>
    obtain ⟨rfl, rfl, rfl⟩ := Parties.of_guarded h
    cases f <;> simp
  | timeout =>
    obtain ⟨rfl, rfl, rfl⟩ := Parties.of_guarded h
    simp
  | finish =>
    obtain ⟨rfl, rfl, rfl⟩ := Parties.of_guarded h
    simp
  | exit =>
    obtain ⟨rfl, rfl, rfl⟩ := Parties.of_guarded h
    simp

/-- **A step of a loop thread**: the other threads, the flag and what `start` and `stop` know stay. -/
theorem step_act_cases (s : CheckerThreads) (k : ℕ) (a : CheckAct) :
    (∃ p p', s.threads[k]? = some p ∧ p.act s.stopEvent a = some (s.stopEvent, p') ∧
      (step s (.act k a)).2 = { s with threads := s.threads.set k p' }) ∨ (step s (.act k a)).2 = s := by
  rcases Parties.move_cases CheckPhase.act (s.stopEvent, s.threads) k a with ⟨p, f, p', hk, ha, hmove⟩ | ⟨hmove, -⟩
  · obtain ⟨rfl, -⟩ := act_cases ha
    exact Or.inl ⟨p, p', hk, ha, by simp only [step, hmove]⟩
  · exact Or.inr (by simp only [step, hmove])

theorem isAlive_iff : s.isAlive k = true ↔ Alive s k := by
  unfold isAlive Alive
  cases s.threads[k]? <;> simp

theorem any_isAlive_iff : s.thread.any s.isAlive = true ↔ ∃ k, s.thread = some k ∧ Alive s k := by
  cases hth : s.thread with
  | none => simp
  | some k => simp [isAlive_iff]

theorem any_isAlive_eq_false : s.thread.any s.isAlive = false ↔ ∀ k, s.thread = some k → ¬ Alive s k := by
  rw [← Bool.not_eq_true, any_isAlive_iff]
  exact not_exists.trans (forall_congr' fun k => not_and)

/-- **What a step can do**: nothing, a step of `start`, a step of `stop`, or one of a thread. -/
theorem step_cases (s : CheckerThreads) (e : CheckerEvent) :
    ((step s e).2 = s ∧ (e = .start → s.caller ≠ .idle)) ∨
    (e = .start ∧ s.caller = .idle ∧ s.thread.any s.isAlive = true ∧ (step s e).2 = { s with last := some .start }) ∨
    (e = .start ∧ s.caller = .idle ∧ s.thread.any s.isAlive = false ∧ (step s e).2 = { s with caller := .clearing }) ∨
    (e = .clear ∧ s.caller = .clearing ∧ (step s e).2 = { s with stopEvent := false, caller := .spawning }) ∨
    (e = .spawn ∧ s.caller = .spawning ∧ (step s e).2 = { s with
      thread := some s.threads.length, threads := s.threads ++ [.entering], caller := .idle, last := some .start }) ∨
    (∃ timeout, e = .stop timeout ∧ s.caller = .idle ∧ ∃ caller last,
      (caller = .joining timeout ∨ caller = .idle ∧ last = some .stop ∧ s.thread = none) ∧
      (step s e).2 = ⟨true, s.thread, s.threads.map CheckPhase.notify, caller, last⟩) ∨
    (∃ timeout, e = .join ∧ s.caller = .joining timeout ∧ (timeout = true ∨ s.thread.any s.isAlive = false) ∧
      (step s e).2 = { s with caller := .idle, last := some .stop }) ∨
    ∃ k a, e = .act k a := by
  cases e with
  | start =>
    by_cases hc : s.caller = .idle
    · cases hlive : s.thread.any s.isAlive with
      | true => exact Or.inr (Or.inl ⟨rfl, hc, rfl, by rw [step, if_pos hc, if_pos hlive]⟩)
      | false => exact Or.inr (Or.inr (Or.inl ⟨rfl, hc, rfl, by rw [step, if_pos hc, if_neg (by simp [hlive])]⟩))
    · exact Or.inl ⟨by rw [step, if_neg hc], fun _ => hc⟩
  | clear =>
    by_cases hc : s.caller = .clearing
    · exact Or.inr (Or.inr (Or.inr (Or.inl ⟨rfl, hc, by rw [step, if_pos hc]⟩)))
    · exact Or.inl ⟨by rw [step, if_neg hc], fun he => by cases he⟩
  | spawn =>
    by_cases hc : s.caller = .spawning
    · exact Or.inr (Or.inr (Or.inr (Or.inr (Or.inl ⟨rfl, hc, by rw [step, if_pos hc]⟩))))
    · exact Or.inl ⟨by rw [step, if_neg hc], fun he => by cases he⟩
  | stop timeout =>
    by_cases hc : s.caller = .idle
    · refine Or.inr (Or.inr (Or.inr (Or.inr (Or.inr (Or.inl ⟨timeout, rfl, hc, ?_⟩)))))
      rw [step, if_pos hc]
      dsimp only
      split
      · exact ⟨_, _, Or.inl rfl, rfl⟩
      · rename_i hnone
        exact ⟨_, _, Or.inr ⟨hc, rfl, Option.not_isSome_iff_eq_none.1 hnone⟩, rfl⟩
    · exact Or.inl ⟨by rw [step, if_neg hc], fun he => by cases he⟩
  | join =>
    rw [step]
    split
    · rename_i timeout hc
      split
      · rename_i hend
        exact Or.inr (Or.inr (Or.inr (Or.inr (Or.inr (Or.inr (Or.inl ⟨timeout, rfl, hc, hend, rfl⟩))))))
      · exact Or.inl ⟨rfl, fun he => by cases he⟩
    · exact Or.inl ⟨rfl, fun he => by cases he⟩
  | act k a => exact Or.inr (Or.inr (Or.inr (Or.inr (Or.inr (Or.inr (Or.inr ⟨k, a, rfl⟩))))))

/-! ## What the calls leave behind -/

/-- What the caller has seen to at each place. -/
def SeenTo (s : CheckerThreads) : CheckerCaller → Prop
  | .clearing => ∀ k, ¬ Alive s k
  | .spawning => s.stopEvent = false ∧ ∀ k, ¬ Alive s k
  | _ => True

/-- **No thread lives but the last one started**, and a thread is told to leave only while the flag is set. -/
structure Sane (s : CheckerThreads) : Prop where
  others : ∀ k, Alive s k → s.thread = some k
  told : ∀ p ∈ s.threads, p = .leaving → s.stopEvent = true
  seenTo : SeenTo s s.caller

theorem sane_new : Sane new := by
  refine ⟨fun k hk => ?_, fun p hp => ?_, trivial⟩
  · obtain ⟨p, hp, -⟩ := hk
    simp [new] at hp
  · simp [new] at hp

theorem alive_of_act (h : Alive (step s (.act k a)).2 j) : Alive s j := by
  rcases step_act_cases s k a with ⟨p, p', hk, ha, hstep⟩ | hstep
  · rw [hstep] at h
    obtain ⟨q, hj, hq⟩ := h
    rcases Parties.getElem?_set_cases hj with ⟨rfl, -⟩ | ⟨-, hj⟩
    · exact ⟨p, hk, (act_cases ha).2.1⟩
    · exact ⟨q, hj, hq⟩
  · rwa [hstep] at h

/-- While the flag is clear no thread exits. -/
theorem alive_act (hs : Sane s) (hflag : s.stopEvent = false) (h : Alive s j) : Alive (step s (.act k a)).2 j := by
  rcases step_act_cases s k a with ⟨p, p', hk, ha, hstep⟩ | hstep
  · rw [hstep]
    obtain ⟨q, hj, hq⟩ := h
    by_cases hjk : j = k
    · subst hjk
      refine ⟨p', List.getElem?_set_self (List.getElem?_eq_some_iff.1 hk).1, fun hexit => ?_⟩
      have htold := hs.told p (Parties.mem_of_getElem? hk) ((act_cases ha).2.2.2 hexit)
      rw [hflag] at htold
      cases htold
    · exact ⟨q, by rwa [List.getElem?_set_ne (Ne.symm hjk)], hq⟩
  · rwa [hstep]

theorem act_stopEvent : (step s (.act k a)).2.stopEvent = s.stopEvent := by
  rcases step_act_cases s k a with ⟨p, p', -, -, hstep⟩ | hstep
  · rw [hstep]
  · rw [hstep]

theorem act_caller : (step s (.act k a)).2.caller = s.caller := by
  rcases step_act_cases s k a with ⟨p, p', -, -, hstep⟩ | hstep
  · rw [hstep]
  · rw [hstep]

theorem act_last : (step s (.act k a)).2.last = s.last := by
  rcases step_act_cases s k a with ⟨p, p', -, -, hstep⟩ | hstep
  · rw [hstep]
  · rw [hstep]

theorem seenTo_act {c : CheckerCaller} (h : SeenTo s c) : SeenTo (step s (.act k a)).2 c := by
  have hdead : (∀ j, ¬ Alive s j) → ∀ j, ¬ Alive (step s (.act k a)).2 j := fun hdead j hj => hdead j (alive_of_act hj)
  cases c with
  | clearing => exact hdead h
  | spawning => exact ⟨act_stopEvent.trans h.1, hdead h.2⟩
  | _ => trivial

theorem notify_eq_exited_iff {p : CheckPhase} : p.notify = .exited ↔ p = .exited := by
  cases p <;> simp [CheckPhase.notify]

theorem sane_act (h : Sane s) : Sane (step s (.act k a)).2 := by
  refine ⟨fun j hj => ?_, ?_, ?_⟩
  · have hold := h.others j (alive_of_act hj)
    rcases step_act_cases s k a with ⟨p, p', -, -, hstep⟩ | hstep
    · rwa [hstep]
    · rwa [hstep]
  · rcases step_act_cases s k a with ⟨p, p', hk, ha, hstep⟩ | hstep
    · rw [hstep]
      exact Parties.forall_mem_set h.told (act_cases ha).2.2.1
    · rw [hstep]
      exact h.told
  · rw [act_caller]
    exact seenTo_act h.seenTo

theorem sane_step (h : Sane s) (e : CheckerEvent) : Sane (step s e).2 := by
  have hseen := h.seenTo
  rcases step_cases s e with ⟨hstep, -⟩ | ⟨-, hc, -, hstep⟩ | ⟨-, -, hdead, hstep⟩ | ⟨-, hc, hstep⟩ | ⟨-, hc, hstep⟩ |
    ⟨timeout, -, -, caller, last, hcaller, hstep⟩ | ⟨timeout, -, -, -, hstep⟩ | ⟨k, a, rfl⟩
  · rwa [hstep]
  · rw [hstep]
    refine ⟨h.others, h.told, ?_⟩
    rw [hc]
    trivial
  · rw [hstep]
    exact ⟨h.others, h.told, fun k hk => any_isAlive_eq_false.1 hdead k (h.others k hk) hk⟩
  · rw [hc] at hseen
    rw [hstep]
    refine ⟨h.others, fun p hp hl => ?_, rfl, hseen⟩
    obtain ⟨k, hk⟩ := List.mem_iff_getElem?.1 hp
    exact absurd ⟨p, hk, by simp [hl]⟩ (hseen k)
  · rw [hc] at hseen
    rw [hstep]
    refine ⟨fun k hk => ?_, fun p hp hl => ?_, trivial⟩
    · obtain ⟨p, hp, hlive⟩ := hk
      rcases Parties.getElem?_concat_cases hp with ⟨rfl, -⟩ | hp
      · rfl
      · exact absurd ⟨p, hp, hlive⟩ (hseen.2 k)
    · rcases List.mem_append.1 hp with hp | hp
      · exact h.told p hp hl
      · rw [List.mem_singleton.1 hp] at hl
        cases hl
  · rw [hstep]
    refine ⟨fun k hk => ?_, fun _ _ _ => rfl, ?_⟩
    · obtain ⟨p, hp, hlive⟩ := hk
      rw [List.getElem?_map] at hp
      obtain ⟨q, hq, rfl⟩ := Option.map_eq_some_iff.1 hp
      exact h.others k ⟨q, hq, fun hexit => hlive (notify_eq_exited_iff.2 hexit)⟩
    · rcases hcaller with rfl | ⟨rfl, -⟩
      · trivial
      · trivial
  · rw [hstep]
    exact ⟨h.others, h.told, trivial⟩
  · exact sane_act h

theorem sane_run (es : List CheckerEvent) : Sane (run step new es) :=
  invariant sane_new (fun _ e h => sane_step h e) es

theorem alive_acted (hs : Sane s) (hflag : s.stopEvent = false) (h : Alive s k) (acts : List (ℕ × CheckAct)) :
    Alive (acted s acts) k := by
  suffices hall : Sane (acted s acts) ∧ (acted s acts).stopEvent = false ∧ Alive (acted s acts) k from hall.2.2
  induction acts using List.reverseRecOn with
  | nil => exact ⟨hs, hflag, h⟩
  | append_singleton acts a ih =>
    obtain ⟨hs, hflag, h⟩ := ih
    have hsnoc : acted s (acts ++ [a]) = (step (acted s acts) (.act a.1 a.2)).2 := by
      rw [acted, List.map_append, List.map_singleton, run_snoc]
      rfl
    rw [hsnoc]
    exact ⟨sane_act hs, act_stopEvent.trans hflag, alive_act hs hflag h⟩

/-- **To be running is to have a clear flag and the last thread alive.** -/
theorem reallyRunning_iff (hs : Sane s) :
    ReallyRunning s ↔ s.stopEvent = false ∧ s.thread.any s.isAlive = true := by
  rw [any_isAlive_iff]
  constructor
  · rintro ⟨hflag, k, hk, -⟩
    exact ⟨hflag, k, hs.others k hk, hk⟩
  · rintro ⟨hflag, k, hth, hk⟩
    refine ⟨hflag, k, hk, fun j hj => ?_, alive_acted hs hflag hk⟩
    exact Option.some.inj ((hs.others j hj).symm.trans hth)

/-! ## When a restarted checker runs -/

/-- The condition on a step: a `start` that finds the last thread alive finds the flag clear. -/
def Guard (s : CheckerThreads) : CheckerEvent → Prop
  | .start => s.caller = .idle → s.thread.any s.isAlive = true → s.stopEvent = false
  | _ => True

theorem restarted_of_caller (h : s.caller ≠ .idle) : Restarted s := fun hc => absurd hc h

theorem restarted_of_last (h : s.last = some .stop) : Restarted s := by
  intro _ hlast
  rw [h] at hlast
  cases hlast

theorem restarted_act (hs : Sane s) (h : Restarted s) : Restarted (step s (.act k a)).2 := by
  intro hc hlast
  rw [act_caller] at hc
  rw [act_last] at hlast
  obtain ⟨hflag, hlive⟩ := (reallyRunning_iff hs).1 (h hc hlast)
  obtain ⟨j, -, hj⟩ := any_isAlive_iff.1 hlive
  have hnext : Sane (step s (.act k a)).2 := sane_act hs
  have hj' := alive_act (k := k) (a := a) hs hflag hj
  exact (reallyRunning_iff hnext).2 ⟨act_stopEvent.trans hflag, any_isAlive_iff.2 ⟨j, hnext.others j hj', hj'⟩⟩

theorem restarted_step_iff (hs : Sane s) (h : Restarted s) (e : CheckerEvent) :
    Restarted (step s e).2 ↔ Guard s e := by
  have hnext := sane_step hs e
  have hseen := hs.seenTo
  rcases step_cases s e with ⟨hstep, he⟩ | ⟨rfl, hc, hlive, hstep⟩ | ⟨rfl, -, hdead, hstep⟩ | ⟨rfl, -, hstep⟩ |
    ⟨rfl, hc, hstep⟩ | ⟨timeout, rfl, -, caller, last, hcaller, hstep⟩ | ⟨timeout, rfl, -, -, hstep⟩ | ⟨k, a, rfl⟩
  · rw [hstep]
    refine iff_of_true h ?_
    cases e with
    | start => exact fun hc => absurd hc (he rfl)
    | _ => trivial
  · rw [hstep] at hnext ⊢
    constructor
    · intro hr _ _
      exact (hr hc rfl).clear
    · intro hg _ _
      exact (reallyRunning_iff hnext).2 ⟨hg hc hlive, hlive⟩
  · rw [hstep]
    refine iff_of_true (restarted_of_caller (by simp)) fun _ hlive => ?_
    rw [hdead] at hlive
    cases hlive
  · rw [hstep]
    exact iff_of_true (restarted_of_caller (by simp)) trivial
  · rw [hc] at hseen
    rw [hstep] at hnext ⊢
    refine iff_of_true (fun _ _ => (reallyRunning_iff hnext).2 ⟨hseen.1, any_isAlive_iff.2 ?_⟩) trivial
    exact ⟨s.threads.length, rfl, .entering, List.getElem?_concat_length, by simp⟩
  · rw [hstep]
    refine iff_of_true ?_ trivial
    rcases hcaller with rfl | ⟨-, rfl, -⟩
    · exact restarted_of_caller (by simp)
    · exact restarted_of_last rfl
  · rw [hstep]
    exact iff_of_true (restarted_of_last rfl) trivial
  · exact iff_of_true (restarted_act hs h) trivial

/-- **A restarted checker is running**, throughout a run, exactly when every `start` of the run that finds the last
thread alive finds the flag clear. -/
theorem restarted_iff_along (es : List CheckerEvent) :
    (∀ pre post, es = pre ++ post → Restarted (run step new pre)) ↔ Along step Guard new es :=
  always_iff_along (fun _ hlast => by cases hlast) es fun pre e _ _ h => restarted_step_iff (sane_run pre) h e

/-! ## Stops that wait -/

/-- A `stop` waits for as long as the thread takes. -/
def Patient : CheckerEvent → Prop
  | .stop timeout => timeout = false
  | _ => True

/-- **A thread that lives between two calls has not been told to stop.** -/
structure Untold (s : CheckerThreads) : Prop where
  idle : s.caller = .idle → s.thread.any s.isAlive = true → s.stopEvent = false
  joining : ∀ timeout, s.caller = .joining timeout → timeout = false

theorem untold_step (hs : Sane s) (h : Untold s) {e : CheckerEvent} (he : Patient e) : Untold (step s e).2 := by
  have hseen := hs.seenTo
  rcases step_cases s e with ⟨hstep, -⟩ | ⟨-, hc, -, hstep⟩ | ⟨-, -, -, hstep⟩ | ⟨-, -, hstep⟩ | ⟨-, hc, hstep⟩ |
    ⟨timeout, rfl, -, caller, last, hcaller, hstep⟩ | ⟨timeout, -, hc, hend, hstep⟩ | ⟨k, a, rfl⟩
  · rwa [hstep]
  · rw [hstep]
    exact ⟨h.idle, h.joining⟩
  · rw [hstep]
    refine ⟨fun hi => ?_, fun _ hj => ?_⟩
    · cases hi
    · cases hj
  · rw [hstep]
    refine ⟨fun hi => ?_, fun _ hj => ?_⟩
    · cases hi
    · cases hj
  · rw [hc] at hseen
    rw [hstep]
    refine ⟨fun _ _ => hseen.1, fun _ hj => ?_⟩
    cases hj
  · rw [hstep]
    rcases hcaller with rfl | ⟨rfl, -, hnone⟩
    · refine ⟨fun hi => ?_, fun timeout' hj => ?_⟩
      · cases hi
      · rw [← CheckerCaller.joining.inj hj]
        exact he
    · refine ⟨fun _ hlive => ?_, fun _ hj => ?_⟩
      · rw [hnone] at hlive
        cases hlive
      · cases hj
  · rw [hstep]
    refine ⟨fun _ hlive => ?_, fun _ hj => ?_⟩
    · rcases hend with htimeout | hdead
      · rw [h.joining timeout hc] at htimeout
        cases htimeout
      · have halive : s.thread.any s.isAlive = true := hlive
        rw [hdead] at halive
        cases halive
    · cases hj
  · refine ⟨fun hi hlive => ?_, fun timeout hj => ?_⟩
    · obtain ⟨j, -, hj⟩ := any_isAlive_iff.1 hlive
      have hj' := alive_of_act hj
      rw [act_caller] at hi
      rw [act_stopEvent]
      exact h.idle hi (any_isAlive_iff.2 ⟨j, hs.others j hj', hj'⟩)
    · rw [act_caller] at hj
      exact h.joining timeout hj

/-- **Where every `stop` waits for its thread, the condition is met.** -/
theorem along_guard_of_patient {es : List CheckerEvent} (hes : ∀ e ∈ es, Patient e) : Along step Guard new es := by
  refine (along_iff es).2 fun pre e post he => ?_
  have hpre : Along step (fun _ e => Patient e) new pre :=
    along_of_mem fun e' he' _ => hes e' (by rw [he]; exact List.mem_append_left _ he')
  have hnew : Untold new := ⟨fun _ _ => rfl, fun _ hj => by cases hj⟩
  obtain ⟨hs, hu⟩ : Sane (run step new pre) ∧ Untold (run step new pre) :=
    invariant_along (P := fun s => Sane s ∧ Untold s) ⟨sane_new, hnew⟩
      (fun _ e h he => ⟨sane_step h.1 e, untold_step h.1 h.2 he⟩) pre hpre
  cases e with
  | start => exact hu.idle
  | _ => trivial

/-- A `stop` that waits for a moment only, and a `start` that finds the thread alive. -/
def hastyStart : List CheckerEvent := [.start, .clear, .spawn, .act 0 .look, .act 0 .timeout, .stop true, .join, .start]

/-- **The flag stays set**, and the thread the `start` has found is about to exit. -/
theorem hastyStart_notRunning : ¬ ∀ pre post, hastyStart = pre ++ post → Restarted (run step new pre) := by
  intro h
  have hflag := (h hastyStart [] (List.append_nil _).symm rfl rfl).clear
  exact absurd hflag (by decide)

end CheckerThreads
end Ticket
