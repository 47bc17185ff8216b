import TicketBooking.Failover
import TicketBooking.Runs
import TicketBooking.Streak
/-!
# Hysteresis — a server's health and its last updates (`failover/failover_manager.py`)

The two counters of a server are the streaks of its updates, unhealthy and healthy, and a server below its threshold has
not reached it (`Counted`); both are kept by every call (`counted_step`).  So along every run a server changes exactly
when a threshold of like updates has just been completed, each change runs its callbacks, and nothing an update does
concerns another server (`hysteresis_exact`).
-/
namespace Ticket

open Runs Streak

/-- A call of the manager. -/
inductive FailoverCall (ι : Type) where
  | updateHealth (serverId : ι) (healthy : Bool) (timestamp : Time) (reason : String)
  | getState (serverId : ι)
  | getHealthyServers (metrics : List (ServerMetrics ι))
  | chooseFailoverTarget (metrics : List (ServerMetrics ι))

/-- The callbacks registered for failures and for recoveries, in order. -/
structure FailoverCallbacks (κ : Type) where
  failure : List κ
  recovery : List κ

/-- The loop over the callbacks of a change. -/
def FailoverCallbacks.of {κ : Type} (c : FailoverCallbacks κ) : Option FailoverCallback → List κ
  | none => []
  | some .failure => c.failure
  | some .recovery => c.recovery

inductive FailoverAnswer (ι κ : Type) where
  /-- the callbacks called, each with the server -/
  | updated (called : List (κ × ι))
  | state (s : ServerFailoverState)
  | servers (ids : List ι)
  | target (serverId : Option ι)

namespace ServerFailoverState

variable (state : ServerFailoverState) (healthyThreshold unhealthyThreshold : ℤ) (timestamp : Time) (reason : String)

/-! ## One update -/

/-- What changed between two states of a server. -/
def change (before after : ServerFailoverState) : Option FailoverCallback :=
  if before.healthy = true ∧ after.healthy = false then some .failure
  else if before.healthy = false ∧ after.healthy = true then some .recovery
  else none

/-- **What a healthy update does**: it counts, and recovers a server that has reached the threshold. -/
theorem update_true :
    (state.update healthyThreshold unhealthyThreshold true timestamp reason).1 =
        change state (state.update healthyThreshold unhealthyThreshold true timestamp reason).2 ∧
      (state.update healthyThreshold unhealthyThreshold true timestamp reason).2.failCount = 0 ∧
      (state.update healthyThreshold unhealthyThreshold true timestamp reason).2.recoverCount =
        state.recoverCount + 1 ∧
      ((state.update healthyThreshold unhealthyThreshold true timestamp reason).2.healthy = true ↔
        state.healthy = true ∨ healthyThreshold ≤ (state.recoverCount + 1 : ℕ)) := by
  unfold update
  simp only [if_true]
  by_cases hc : state.healthy = false ∧ healthyThreshold ≤ (state.recoverCount + 1 : ℕ)
  · rw [if_pos hc]
    exact ⟨by simp [change, hc.1], rfl, rfl, iff_of_true rfl (Or.inr hc.2)⟩
  · rw [if_neg hc]
    refine ⟨?_, rfl, rfl, ?_⟩
    · cases hs : state.healthy <;> simp [change, hs]
    · cases hs : state.healthy <;> simp_all

/-- **What an unhealthy update does**: it counts, and marks a server that has reached the threshold. -/
theorem update_false :
    (state.update healthyThreshold unhealthyThreshold false timestamp reason).1 =
        change state (state.update healthyThreshold unhealthyThreshold false timestamp reason).2 ∧
      (state.update healthyThreshold unhealthyThreshold false timestamp reason).2.failCount = state.failCount + 1 ∧
      (state.update healthyThreshold unhealthyThreshold false timestamp reason).2.recoverCount = 0 ∧
      ((state.update healthyThreshold unhealthyThreshold false timestamp reason).2.healthy = true ↔
        state.healthy = true ∧ ¬ unhealthyThreshold ≤ (state.failCount + 1 : ℕ)) := by
  unfold update
  simp only [Bool.false_eq_true, if_false]
  by_cases hc : state.healthy = true ∧ unhealthyThreshold ≤ (state.failCount + 1 : ℕ)
  · rw [if_pos hc]
    exact ⟨by simp [change, hc.1], rfl, rfl, iff_of_false Bool.false_ne_true fun h => h.2 hc.2⟩
  · rw [if_neg hc]
    refine ⟨?_, rfl, rfl, ?_⟩
    · cases hs : state.healthy <;> simp [change, hs]
    · cases hs : state.healthy <;> simp_all

end ServerFailoverState

namespace FailoverManager

variable {ι κ : Type} [DecidableEq ι]

def step (callbacks : FailoverCallbacks κ) (f : FailoverManager ι) (call : FailoverCall ι) :
    FailoverAnswer ι κ × FailoverManager ι :=
  match call with
  | .updateHealth serverId healthy timestamp reason =>
    let r := f.updateHealth serverId healthy timestamp reason
    (.updated ((callbacks.of r.1).map (fun callback => (callback, serverId))), r.2)
  | .getState serverId => (.state (f.getState serverId).1, (f.getState serverId).2)
  | .getHealthyServers metrics => (.servers (f.getHealthyServers metrics), f)
  | .chooseFailoverTarget metrics => (.target (f.chooseFailoverTarget metrics), f)

/-- The state of a server, the default one before it is known. -/
def stateOf (f : FailoverManager ι) (i : ι) : ServerFailoverState := (f.states.get? i).getD .new

/-- The update a call makes to the server. -/
def updateOf (i : ι) : FailoverCall ι → Option Bool
  | .updateHealth serverId healthy _ _ => if serverId = i then some healthy else none
  | _ => none

/-- **The updates of a server**, in order. -/
def updates (i : ι) (calls : List (FailoverCall ι)) : List Bool := calls.filterMap (updateOf i)

/-- The callbacks an answer reports to have been called with the server. -/
def calledWith (i : ι) : FailoverAnswer ι κ → List κ
  | .updated called => (called.filter (fun c => decide (c.2 = i))).map Prod.fst
  | _ => []

/-- **The counters of a server are the streaks of its updates**, and it has not reached the threshold that would change
it. -/
structure Counted (f : FailoverManager ι) (i : ι) (history : List Bool) : Prop where
  positive : 1 ≤ f.healthyThreshold ∧ 1 ≤ f.unhealthyThreshold
  fails : (f.stateOf i).failCount = streak false history
  recoveries : (f.stateOf i).recoverCount = streak true history
  below : (f.stateOf i).healthy = true → (streak false history : ℤ) < f.unhealthyThreshold
  down : (f.stateOf i).healthy = false → (streak true history : ℤ) < f.healthyThreshold

/-- **A step changes a server as its updates say**: it marks the server when the last `unhealthyThreshold` updates were
all unhealthy, recovers it when the last `healthyThreshold` were all healthy, and calls the callbacks of the change. -/
structure Exact (callbacks : FailoverCallbacks κ) (f f' : FailoverManager ι) (i : ι) (history : List Bool)
    (called : List κ) : Prop where
  marks : ((f.stateOf i).healthy = true ∧ (f'.stateOf i).healthy = false) ↔
    (f.stateOf i).healthy = true ∧ List.replicate f.unhealthyThreshold.toNat false <:+ history
  recovers : ((f.stateOf i).healthy = false ∧ (f'.stateOf i).healthy = true) ↔
    (f.stateOf i).healthy = false ∧ List.replicate f.healthyThreshold.toNat true <:+ history
  calls : called = callbacks.of ((f.stateOf i).change (f'.stateOf i))

variable (callbacks : FailoverCallbacks κ) (f : FailoverManager ι)

theorem stateOf_updateHealth (serverId : ι) (healthy : Bool) (timestamp : Time) (reason : String) (i : ι) :
    (f.updateHealth serverId healthy timestamp reason).2.stateOf i =
      if i = serverId then ((f.stateOf serverId).update f.healthyThreshold f.unhealthyThreshold healthy timestamp
        reason).2 else f.stateOf i := by
  unfold updateHealth stateOf
  dsimp only
  rw [Dict.get?_set]
  split <;> rfl

theorem stateOf_getState (serverId i : ι) : (f.getState serverId).2.stateOf i = f.stateOf i := by
  unfold getState stateOf
  cases hs : f.states.get? serverId with
  | some state => rfl
  | none =>
    dsimp only
    rw [Dict.get?_set]
    split
    · rename_i hi
      rw [hi, hs]
      rfl
    · rfl

/-- **A call that does not update a server leaves its state alone** and calls nothing with it. -/
theorem step_of_not_updated {call : FailoverCall ι} {i : ι} (h : updateOf i call = none) :
    (step callbacks f call).2.stateOf i = f.stateOf i ∧ calledWith i (step callbacks f call).1 = [] := by
  cases call with
  | updateHealth serverId healthy timestamp reason =>
    have hne : serverId ≠ i := fun he => by
      rw [updateOf, if_pos he] at h
      cases h
    refine ⟨(stateOf_updateHealth f serverId healthy timestamp reason i).trans (if_neg (Ne.symm hne)), ?_⟩
    simp [calledWith, step, hne]
  | getState serverId => exact ⟨stateOf_getState f serverId i, rfl⟩
  | getHealthyServers metrics => exact ⟨rfl, rfl⟩
  | chooseFailoverTarget metrics => exact ⟨rfl, rfl⟩

theorem suffix_iff (thr : ℤ) (b : Bool) (history : List Bool) :
    List.replicate thr.toNat b <:+ history ↔ thr ≤ (streak b history : ℤ) := by
  rw [← le_streak_iff, Int.toNat_le]

theorem step_thresholds (call : FailoverCall ι) : (step callbacks f call).2.healthyThreshold = f.healthyThreshold ∧
    (step callbacks f call).2.unhealthyThreshold = f.unhealthyThreshold := by
  cases call with
  | getState serverId =>
    unfold step getState
    dsimp only
    split <;> exact ⟨rfl, rfl⟩
  | _ => exact ⟨rfl, rfl⟩

variable {f} {i : ι} {history : List Bool}

theorem exact_of_not_updated (h : Counted f i history) {call : FailoverCall ι} (hc : updateOf i call = none) :
    Counted (step callbacks f call).2 i history ∧
      Exact callbacks f (step callbacks f call).2 i history (calledWith i (step callbacks f call).1) := by
  obtain ⟨hsame, hcalled⟩ := step_of_not_updated callbacks f hc
  obtain ⟨hh, hu⟩ := step_thresholds callbacks f call
  refine ⟨⟨?_, ?_, ?_, ?_, ?_⟩, ?_, ?_, ?_⟩
  · rw [hh, hu]
    exact h.positive
  · rw [hsame]
    exact h.fails
  · rw [hsame]
    exact h.recoveries
  · rw [hsame, hu]
    exact h.below
  · rw [hsame, hh]
    exact h.down
  · rw [hsame, suffix_iff]
    exact iff_of_false (fun hc => by simp [hc.1] at hc) fun hc => absurd (h.below hc.1) (not_lt.2 hc.2)
  · rw [hsame, suffix_iff]
    exact iff_of_false (fun hc => by simp [hc.1] at hc) fun hc => absurd (h.down hc.1) (not_lt.2 hc.2)
  · rw [hsame, hcalled]
    cases hs : (f.stateOf i).healthy <;> simp [ServerFailoverState.change, FailoverCallbacks.of, hs]

theorem calledWith_updated (i : ι) (called : List κ) :
    calledWith i (.updated (called.map fun callback => (callback, i)) : FailoverAnswer ι κ) = called := by
  simp [calledWith, List.filter_map, Function.comp_def]

/-- A call that updates a server does the update, and calls the callbacks of its change. -/
theorem step_updated (f : FailoverManager ι) (i : ι) (healthy : Bool) (timestamp : Time) (reason : String) :
    (step callbacks f (.updateHealth i healthy timestamp reason)).2.stateOf i =
        ((f.stateOf i).update f.healthyThreshold f.unhealthyThreshold healthy timestamp reason).2 ∧
      calledWith i (step callbacks f (.updateHealth i healthy timestamp reason)).1 = callbacks.of
        ((f.stateOf i).update f.healthyThreshold f.unhealthyThreshold healthy timestamp reason).1 :=
  ⟨(stateOf_updateHealth f i healthy timestamp reason i).trans (if_pos rfl), calledWith_updated i _⟩

theorem exact_of_healthy (h : Counted f i history) (timestamp : Time) (reason : String) :
    Counted (step callbacks f (.updateHealth i true timestamp reason)).2 i (history ++ [true]) ∧
      Exact callbacks f (step callbacks f (.updateHealth i true timestamp reason)).2 i (history ++ [true])
        (calledWith i (step callbacks f (.updateHealth i true timestamp reason)).1) := by
  obtain ⟨hstate, hcalled⟩ := step_updated callbacks f i true timestamp reason
  obtain ⟨hh, hu⟩ := step_thresholds callbacks f (.updateHealth i true timestamp reason)
  obtain ⟨hchange, hfail, hrecover, hhealthy⟩ := (f.stateOf i).update_true f.healthyThreshold f.unhealthyThreshold
    timestamp reason
  have hfalse : streak false (history ++ [true]) = 0 := by rw [streak_snoc, if_neg (by decide)]
  have htrue : streak true (history ++ [true]) = streak true history + 1 := by rw [streak_snoc, if_pos rfl]
  have hpos := h.positive.2
  rw [← hstate] at hchange hfail hrecover hhealthy
  rw [h.recoveries] at hhealthy hrecover
  rw [hcalled, hchange]
  refine ⟨⟨by rw [hh, hu]; exact h.positive, by rw [hfail, hfalse], by rw [hrecover, htrue], ?_, ?_⟩, ?_, ?_, rfl⟩
  · rw [hu, hfalse]
    exact fun _ => by omega
  · rw [hh, htrue]
    exact fun hd => not_le.1 fun hle => by
      rw [hhealthy.2 (Or.inr hle)] at hd
      cases hd
  · rw [suffix_iff, hfalse]
    refine iff_of_false (fun hc => ?_) fun hc => by omega
    exact Bool.false_ne_true (hc.2.symm.trans (hhealthy.2 (Or.inl hc.1)))
  · rw [suffix_iff, htrue, hhealthy]
    refine and_congr_right fun hs => ?_
    simp [hs]

theorem exact_of_unhealthy (h : Counted f i history) (timestamp : Time) (reason : String) :
    Counted (step callbacks f (.updateHealth i false timestamp reason)).2 i (history ++ [false]) ∧
      Exact callbacks f (step callbacks f (.updateHealth i false timestamp reason)).2 i (history ++ [false])
        (calledWith i (step callbacks f (.updateHealth i false timestamp reason)).1) := by
  obtain ⟨hstate, hcalled⟩ := step_updated callbacks f i false timestamp reason
  obtain ⟨hh, hu⟩ := step_thresholds callbacks f (.updateHealth i false timestamp reason)
  obtain ⟨hchange, hfail, hrecover, hhealthy⟩ := (f.stateOf i).update_false f.healthyThreshold f.unhealthyThreshold
    timestamp reason
  have hfalse : streak false (history ++ [false]) = streak false history + 1 := by rw [streak_snoc, if_pos rfl]
  have htrue : streak true (history ++ [false]) = 0 := by rw [streak_snoc, if_neg (by decide)]
  have hpos := h.positive.1
  rw [← hstate] at hchange hfail hrecover hhealthy
  rw [h.fails] at hhealthy hfail
  rw [hcalled, hchange]
  refine ⟨⟨by rw [hh, hu]; exact h.positive, by rw [hfail, hfalse], by rw [hrecover, htrue], ?_, ?_⟩, ?_, ?_, rfl⟩
  · rw [hu, hfalse]
    exact fun hs => not_le.1 (hhealthy.1 hs).2
  · rw [hh, htrue]
    exact fun _ => by omega
  · rw [suffix_iff, hfalse]
    refine and_congr_right fun hs => ?_
    rw [← Bool.not_eq_true, hhealthy, not_and, not_not]
    exact ⟨fun hc => hc hs, fun hc _ => hc⟩
  · rw [suffix_iff, htrue]
    refine iff_of_false (fun hc => ?_) fun hc => by omega
    exact Bool.false_ne_true (hc.1.symm.trans (hhealthy.1 hc.2).1)

/-- **Every step is exact**, and keeps the counters the streaks. -/
theorem exact_step (h : Counted f i history) (call : FailoverCall ι) :
    Counted (step callbacks f call).2 i (history ++ (updateOf i call).toList) ∧
      Exact callbacks f (step callbacks f call).2 i (history ++ (updateOf i call).toList)
        (calledWith i (step callbacks f call).1) := by
  cases hc : updateOf i call with
  | none =>
    rw [Option.toList_none, List.append_nil]
    exact exact_of_not_updated callbacks h hc
  | some healthy =>
    cases call with
    | updateHealth serverId healthy' timestamp reason =>
      rw [updateOf] at hc
      split at hc
      · rename_i he
        subst he
        obtain rfl := Option.some.inj hc
        cases healthy' with
        | true => exact exact_of_healthy callbacks h timestamp reason
        | false => exact exact_of_unhealthy callbacks h timestamp reason
      · cases hc
    | _ => cases hc

theorem counted_new (healthyThreshold unhealthyThreshold : ℤ) (i : ι) :
    Counted (new healthyThreshold unhealthyThreshold) i [] :=
  ⟨⟨le_max_left _ _, le_max_left _ _⟩, rfl, rfl, fun _ => lt_of_lt_of_le one_pos (le_max_left _ _),
    fun h => (nomatch h)⟩

theorem updates_snoc (i : ι) (calls : List (FailoverCall ι)) (call : FailoverCall ι) :
    updates i (calls ++ [call]) = updates i calls ++ (updateOf i call).toList := by
  unfold updates
  rw [List.filterMap_append]
  cases hc : updateOf i call <;> simp [hc]

theorem counted_run (callbacks : FailoverCallbacks κ) (healthyThreshold unhealthyThreshold : ℤ)
    (calls : List (FailoverCall ι)) (i : ι) :
    Counted (run (step callbacks) (new healthyThreshold unhealthyThreshold) calls) i (updates i calls) := by
  induction calls using List.reverseRecOn with
  | nil => exact counted_new healthyThreshold unhealthyThreshold i
  | append_singleton calls call ih =>
    rw [run_snoc, updates_snoc]
    exact (exact_step callbacks ih call).1

theorem thresholds_run (callbacks : FailoverCallbacks κ) (healthyThreshold unhealthyThreshold : ℤ)
    (calls : List (FailoverCall ι)) :
    (run (step callbacks) (new healthyThreshold unhealthyThreshold) calls).healthyThreshold =
        max 1 healthyThreshold ∧
      (run (step callbacks) (new healthyThreshold unhealthyThreshold) calls).unhealthyThreshold =
        max 1 unhealthyThreshold := by
  refine invariant (P := fun f : FailoverManager ι => f.healthyThreshold = max 1 healthyThreshold ∧
    f.unhealthyThreshold = max 1 unhealthyThreshold) ⟨rfl, rfl⟩ (fun f call h => ?_) calls
  obtain ⟨hh, hu⟩ := step_thresholds callbacks f call
  rw [hh, hu]
  exact h

/-- **Failover hysteresis is exact.**  Whatever calls have been made, the next one marks a server unhealthy exactly when
it is healthy and its last `unhealthyThreshold` updates were all unhealthy, recovers it exactly when it is unhealthy and
its last `healthyThreshold` updates were all healthy, and calls with it the callbacks of that change, each once; a call
that does not update a server leaves its state alone.  A threshold below one counts as one. -/
theorem hysteresis_exact (callbacks : FailoverCallbacks κ) (healthyThreshold unhealthyThreshold : ℤ)
    (calls : List (FailoverCall ι)) (call : FailoverCall ι) (i : ι) :
    let f := run (step callbacks) (new healthyThreshold unhealthyThreshold) calls
    let f' := (step callbacks f call).2
    let history := updates i (calls ++ [call])
    (((f.stateOf i).healthy = true ∧ (f'.stateOf i).healthy = false) ↔
      (f.stateOf i).healthy = true ∧ List.replicate (max 1 unhealthyThreshold).toNat false <:+ history) ∧
    (((f.stateOf i).healthy = false ∧ (f'.stateOf i).healthy = true) ↔
      (f.stateOf i).healthy = false ∧ List.replicate (max 1 healthyThreshold).toNat true <:+ history) ∧
    calledWith i (step callbacks f call).1 =
      (if (f.stateOf i).healthy = true ∧ (f'.stateOf i).healthy = false then callbacks.failure
        else if (f.stateOf i).healthy = false ∧ (f'.stateOf i).healthy = true then callbacks.recovery else []) ∧
    (updateOf i call = none → f'.stateOf i = f.stateOf i) := by
  have hcounted := counted_run callbacks healthyThreshold unhealthyThreshold calls i
  obtain ⟨hh, hu⟩ := thresholds_run callbacks healthyThreshold unhealthyThreshold calls (ι := ι)
  obtain ⟨-, hexact⟩ := exact_step callbacks hcounted call
  rw [← updates_snoc] at hexact
  have hmarks := hexact.marks
  have hrecovers := hexact.recovers
  rw [hu] at hmarks
  rw [hh] at hrecovers
  refine ⟨hmarks, hrecovers, hexact.calls.trans ?_, fun hc => (step_of_not_updated callbacks _ hc).1⟩
  unfold ServerFailoverState.change
  split
  · rfl
  · split <;> rfl

end FailoverManager
end Ticket
