import Mathlib.Data.Finset.Dedup
import Mathlib.Data.Finset.Order
import Mathlib.Data.List.Chain
import TicketBooking.HealthOrder
/-!
# HealthFreshness — one thread's calls of the health checker

With the notifications delivered before the next call begins (`run_alone`), a refresh records for each known server the
classification of its last heartbeat's age (`updateStates_spec`).  Ages only grow between heartbeats and so do the
classifications (`severity_stateFor_mono`): whatever state is recorded is the classification at some earlier reading
(`Dated`), and a change at a refresh is a change for the worse.
-/
namespace Ticket

open Runs

/-- A call of the checker with its readings. -/
inductive HealthCall (ι : Type) where
  | registerServer (serverId : ι)
  | recordHeartbeat (serverId : ι) (now : Time)
  | updateStates (now : Time)
  | getState (serverId : ι) (now : Time)
  | getHealth (serverId : ι) (now later : Time)
  | getAllHealth (now later : Time)
  | getServersByState (state : ServerState) (now : Time)

inductive HealthAnswer (ι : Type) where
  | nothing
  | state (s : ServerState)
  | states (all : Dict ι ServerState)
  | health (health : ServerHealth ι)
  | allHealth (all : Dict ι (ServerHealth ι))
  | servers (ids : List ι)

/-- What a call answers, and the notifications delivered before it does. -/
structure HealthReply (ι : Type) where
  told : List (ι × ServerState)
  answer : HealthAnswer ι

namespace HealthCall

variable {ι : Type}

/-- The reading at which a call refreshes the states. -/
def refresh : HealthCall ι → Option Time
  | .registerServer _ => none
  | .recordHeartbeat _ _ => none
  | .updateStates now => some now
  | .getState _ now => some now
  | .getHealth _ now _ => some now
  | .getAllHealth now _ => some now
  | .getServersByState _ now => some now

/-- All readings of a call, in order. -/
def readings : HealthCall ι → List Time
  | .registerServer _ => []
  | .recordHeartbeat _ now => [now]
  | .updateStates now => [now]
  | .getState _ now => [now]
  | .getHealth _ now later => [now, later]
  | .getAllHealth now later => [now, later]
  | .getServersByState _ now => [now]

variable [DecidableEq ι]

/-- The heartbeat a call records for the server. -/
def heartbeatOf (i : ι) : HealthCall ι → Option Time
  | .recordHeartbeat serverId now => if serverId = i then some now else none
  | _ => none

/-- The call makes the server known. -/
def Names (i : ι) : HealthCall ι → Prop
  | .registerServer serverId => serverId = i
  | .recordHeartbeat serverId _ => serverId = i
  | _ => False

end HealthCall

/-- The order in which states get worse. -/
def ServerState.severity : ServerState → ℕ
  | .online => 0
  | .degraded => 1
  | .offline => 2

theorem ServerState.severity_injective : Function.Injective ServerState.severity := by
  intro a b h
  cases a <;> cases b <;> first | rfl | cases h

namespace HealthChecker

variable {ι : Type} [DecidableEq ι]

/-- `_state_for`, of the time of the last heartbeat. -/
def classify (degradedAfterSec offlineAfterSec : Time) (heartbeat : Option Time) (now : Time) : ServerState :=
  match heartbeat with
  | none => .offline
  | some heartbeatAt =>
    if max 0 (now - heartbeatAt) ≤ degradedAfterSec then .online
    else if max 0 (now - heartbeatAt) ≤ offlineAfterSec then .degraded
    else .offline

def step (h : HealthChecker ι) (call : HealthCall ι) : HealthReply ι × HealthChecker ι :=
  match call with
  | .registerServer serverId => (⟨[], .nothing⟩, h.registerServer serverId)
  | .recordHeartbeat serverId now =>
    let r := h.recordHeartbeat serverId now
    (⟨r.1, .state .online⟩, r.2)
  | .updateStates now => (⟨(h.updateStates now).1, .states (h.updateStates now).2.states⟩, (h.updateStates now).2)
  | .getState serverId now =>
    let r := h.updateStates now
    (⟨r.1, .state (r.2.recordedState serverId)⟩, r.2)
  | .getHealth serverId now later =>
    let r := h.updateStates now
    (⟨r.1, .health (r.2.healthOf serverId (r.2.recordedState serverId) later)⟩, r.2)
  | .getAllHealth now later => (⟨(h.updateStates now).1, .allHealth ((h.updateStates now).2.allHealth later)⟩,
      (h.updateStates now).2)
  | .getServersByState state now =>
    let r := h.updateStates now
    (⟨r.1, .servers (r.2.serversIn state)⟩, r.2)

/-! ## What a refresh does -/

variable {h : HealthChecker ι} {i : ι} {now t : Time}

theorem stateFor_eq (h : HealthChecker ι) (i : ι) (now : Time) :
    h.stateFor i now = classify h.degradedAfterSec h.offlineAfterSec (h.lastHeartbeat.get? i) now := rfl

theorem about_ite (i j : ι) (p : Prop) [Decidable p] (st : ServerState) :
    HealthSystem.about i (if p then [(j, st)] else []) = if i = j ∧ p then [st] else [] := by
  unfold HealthSystem.about
  by_cases hp : p
  · by_cases hi : i = j
    · simp [hp, hi]
    · simp [hp, hi, Ne.symm hi]
  · simp [hp]

theorem foldl_updateOne_frame (now : Time) : ∀ (known : List ι) (acc : List (ι × ServerState) × HealthChecker ι),
    (known.foldl (updateOne now) acc).2 = { acc.2 with states := (known.foldl (updateOne now) acc).2.states }
  | [], _ => rfl
  | j :: known, acc => foldl_updateOne_frame now known (updateOne now acc j)

/-- The updates of `known`, as they concern one server. -/
theorem foldl_updateOne (now : Time) (i : ι) : ∀ (known : List ι) (acc : List (ι × ServerState) × HealthChecker ι),
    known.Nodup →
    (known.foldl (updateOne now) acc).2.states.get? i =
        (if i ∈ known then some (acc.2.stateFor i now) else acc.2.states.get? i) ∧
      HealthSystem.about i (known.foldl (updateOne now) acc).1 = HealthSystem.about i acc.1 ++
        if i ∈ known ∧ acc.2.states.get? i ≠ some (acc.2.stateFor i now) then [acc.2.stateFor i now] else []
  | [], acc, _ => by simp
  | j :: known, acc, hn => by
    obtain ⟨hj, hn⟩ := List.nodup_cons.1 hn
    obtain ⟨hstate, habout⟩ := foldl_updateOne now i known (updateOne now acc j) hn
    have hfor : (updateOne now acc j).2.stateFor i now = acc.2.stateFor i now := rfl
    have hset : (updateOne now acc j).2.states.get? i =
        if i = j then some (acc.2.stateFor j now) else acc.2.states.get? i := Dict.get?_set _ _ _ _
    have htold : HealthSystem.about i (updateOne now acc j).1 = HealthSystem.about i acc.1 ++
        if i = j ∧ acc.2.states.get? j ≠ some (acc.2.stateFor j now) then [acc.2.stateFor j now] else [] := by
      unfold updateOne
      rw [HealthSystem.about_append, about_ite]
    rw [List.foldl_cons, hstate, habout, hfor, hset, htold]
    by_cases hi : i = j
    · subst hi
      exact ⟨by simp [hj], by simp [hj]⟩
    · exact ⟨by simp [hi], by simp [hi]⟩

theorem mem_knownServers : i ∈ h.knownServers ↔ (h.states.get? i).isSome ∨ (h.lastHeartbeat.get? i).isSome := by
  unfold knownServers
  rw [List.mem_append, List.mem_filter, decide_eq_true_eq, Dict.mem_keys_iff, Dict.mem_keys_iff]
  by_cases hs : (h.states.get? i).isSome <;> simp [hs]

theorem nodup_knownServers (h : HealthChecker ι) : h.knownServers.Nodup := by
  refine List.nodup_append.2 ⟨h.states.nodup, h.lastHeartbeat.nodup.filter _, ?_⟩
  rintro a ha b hb rfl
  exact of_decide_eq_true (List.mem_filter.1 hb).2 ha

theorem updateStates_frame (h : HealthChecker ι) (now : Time) :
    (h.updateStates now).2 = { h with states := (h.updateStates now).2.states } :=
  foldl_updateOne_frame now h.knownServers ([], h)

/-- **A refresh records the classification of every known server**, and tells the changes. -/
theorem updateStates_spec (h : HealthChecker ι) (now : Time) (i : ι) :
    (h.updateStates now).2.states.get? i =
        (if i ∈ h.knownServers then some (h.stateFor i now) else h.states.get? i) ∧
      HealthSystem.about i (h.updateStates now).1 =
        if i ∈ h.knownServers ∧ h.states.get? i ≠ some (h.stateFor i now) then [h.stateFor i now] else [] :=
  foldl_updateOne now i h.knownServers ([], h) h.nodup_knownServers

/-! ## The recorded states and the clock -/

/-- The thresholds make sense, as the constructor sees to it. -/
def Valid (h : HealthChecker ι) : Prop := 0 ≤ h.degradedAfterSec ∧ h.degradedAfterSec < h.offlineAfterSec

/-- **What is recorded is a classification at an earlier reading**, and whoever has sent a heartbeat has a state. -/
structure Dated (t : Time) (h : HealthChecker ι) : Prop where
  valid : h.Valid
  heard : ∀ i, (h.lastHeartbeat.get? i).isSome → (h.states.get? i).isSome
  earlier : ∀ i, ∃ t' ≤ t, h.recordedState i = h.stateFor i t'

theorem Dated.mono (hd : Dated t h) (htn : t ≤ now) : Dated now h :=
  ⟨hd.valid, hd.heard, fun i => (hd.earlier i).imp fun _ ht => ⟨le_trans ht.1 htn, ht.2⟩⟩

/-- **The classification only gets worse with time.** -/
theorem severity_stateFor_mono (h : HealthChecker ι) (i : ι) (htn : t ≤ now) :
    (h.stateFor i t).severity ≤ (h.stateFor i now).severity := by
  unfold stateFor
  cases h.lastHeartbeat.get? i with
  | none => exact le_refl _
  | some heartbeatAt =>
    have hage : max 0 (t - heartbeatAt) ≤ max 0 (now - heartbeatAt) :=
      max_le_max_left 0 (sub_le_sub_right htn heartbeatAt)
    dsimp only
    split
    · exact Nat.zero_le _
    · rename_i hd
      rw [if_neg fun hc => hd (le_trans hage hc)]
      split
      · split
        · exact le_refl _
        · exact Nat.le_succ 1
      · rename_i ho
        rw [if_neg fun hc => ho (le_trans hage hc)]

theorem recordedState_eq_online_iff : h.recordedState i = .online ↔ h.states.get? i = some .online := by
  unfold recordedState
  cases h.states.get? i with
  | none => exact iff_of_false (by decide) (by simp)
  | some st => simp

/-- A heartbeat of the server itself. -/
theorem recordHeartbeat_spec (h : HealthChecker ι) (serverId : ι) (now : Time) (i : ι) :
    (h.recordHeartbeat serverId now).2.recordedState i = (if i = serverId then .online else h.recordedState i) ∧
      HealthSystem.about i (h.recordHeartbeat serverId now).1 =
        if i = serverId ∧ h.recordedState i ≠ .online then [.online] else [] := by
  constructor
  · unfold recordHeartbeat recordedState
    dsimp only
    rw [Dict.get?_set]
    split <;> rfl
  · unfold recordHeartbeat
    dsimp only
    rw [about_ite]
    by_cases hi : i = serverId
    · subst hi
      simp [recordedState_eq_online_iff]
    · simp [hi]

theorem recordedState_registerServer (h : HealthChecker ι) (serverId i : ι) :
    (h.registerServer serverId).recordedState i = h.recordedState i := by
  unfold registerServer recordedState
  cases hs : h.states.get? serverId with
  | some st => rfl
  | none =>
    dsimp only
    rw [Dict.get?_set]
    split
    · rename_i hi
      rw [hi, hs]
      rfl
    · rfl

/-- **A refresh records the classification at its reading**, and tells it if it is new. -/
theorem Dated.updateStates (hd : Dated t h) (now : Time) (i : ι) :
    (h.updateStates now).2.recordedState i = h.stateFor i now ∧
      HealthSystem.about i (h.updateStates now).1 =
        if h.stateFor i now = h.recordedState i then [] else [h.stateFor i now] := by
  obtain ⟨hstate, habout⟩ := h.updateStates_spec now i
  have hheard := hd.heard i
  rw [habout]
  unfold recordedState
  rw [hstate]
  by_cases hk : i ∈ h.knownServers
  · obtain ⟨st, hst⟩ := Option.isSome_iff_exists.1 ((mem_knownServers.1 hk).elim id hheard)
    rw [if_pos hk, hst]
    refine ⟨rfl, ?_⟩
    by_cases hsame : h.stateFor i now = st
    · simp [hsame]
    · simp [hk, hsame, Ne.symm hsame]
  · have hnone : h.states.get? i = none ∧ h.lastHeartbeat.get? i = none := by
      simpa [mem_knownServers] using hk
    have hfor : h.stateFor i now = .offline := by rw [stateFor_eq, hnone.2, classify]
    simp [hk, hnone.1, hfor]

/-! ## One call -/

variable {call : HealthCall ι}

theorem step_of_refresh (hr : call.refresh = some now) :
    (step h call).2 = (h.updateStates now).2 ∧ (step h call).1.told = (h.updateStates now).1 := by
  cases call with
  | registerServer serverId => cases hr
  | recordHeartbeat serverId now => cases hr
  | _ =>
    obtain rfl := Option.some.inj hr
    exact ⟨rfl, rfl⟩

omit [DecidableEq ι] in
/-- A call makes a refresh, records a heartbeat or registers. -/
theorem cases_call (call : HealthCall ι) : (∃ now ∈ call.readings, call.refresh = some now) ∨
    (∃ serverId now, call = .recordHeartbeat serverId now) ∨ ∃ serverId, call = .registerServer serverId := by
  cases call with
  | registerServer serverId => exact Or.inr (Or.inr ⟨serverId, rfl⟩)
  | recordHeartbeat serverId now => exact Or.inr (Or.inl ⟨serverId, now, rfl⟩)
  | _ => exact Or.inl ⟨_, List.mem_cons_self, rfl⟩

/-! ## A call that is alone -/

/-- The steps of a call up to its notifications. -/
def startOf : HealthCall ι → List (HealthEvent ι)
  | .registerServer _ => []
  | .recordHeartbeat serverId now => [.heartbeat serverId now]
  | .updateStates now => [.read now, .enter 0]
  | .getState _ now => [.read now, .enter 0]
  | .getHealth _ now _ => [.read now, .enter 0]
  | .getAllHealth now _ => [.read now, .enter 0]
  | .getServersByState _ now => [.read now, .enter 0]

theorem deliver_all : ∀ (told : List (ι × ServerState)) (s : HealthSystem ι), s.inFlight = told →
    run HealthSystem.step s (List.replicate told.length (.deliver 0)) =
      { s with inFlight := [], received := s.received ++ told }
  | [], s, h => by
    obtain ⟨checker, waiting, inFlight, received⟩ := s
    obtain rfl : inFlight = [] := h
    simp
  | n :: told, s, h => by
    have hstep : (HealthSystem.step s (.deliver 0)).2 =
        { s with inFlight := told, received := s.received ++ [n] } := by
      simp [HealthSystem.step, h]
    rw [List.length_cons, List.replicate_succ, run_cons, hstep, deliver_all told _ rfl]
    simp

/-- **A call that is alone is its steps and then its deliveries**: while nothing else is in progress, what the checker
does under its lock and the notifications that follow are one call. -/
theorem run_alone {s : HealthSystem ι} (hq : s.Quiet) (hc : ∀ serverId, call ≠ .registerServer serverId) :
    run HealthSystem.step s (startOf call ++
        List.replicate (step s.checker call).1.told.length (.deliver 0)) =
      ⟨(step s.checker call).2, [], [], s.received ++ (step s.checker call).1.told⟩ := by
  obtain ⟨checker, waiting, inFlight, received⟩ := s
  obtain ⟨rfl, rfl⟩ : waiting = [] ∧ inFlight = [] := hq
  have hstart : run HealthSystem.step ⟨checker, [], [], received⟩ (startOf call) =
      ⟨(step checker call).2, [], (step checker call).1.told, received⟩ := by
    cases call with
    | registerServer serverId => exact absurd rfl (hc serverId)
    | _ => simp [startOf, HealthSystem.step, step]
  rw [run_append, hstart, deliver_all _ _ rfl]

/-! ## What a call keeps -/

theorem step_lastHeartbeat (h : HealthChecker ι) (call : HealthCall ι) (i : ι) :
    (step h call).2.lastHeartbeat.get? i = (call.heartbeatOf i).or (h.lastHeartbeat.get? i) := by
  obtain ⟨now, -, hr⟩ | ⟨serverId, now, rfl⟩ | ⟨serverId, rfl⟩ := cases_call call
  · rw [(step_of_refresh hr).1, h.updateStates_frame now]
    cases call with
    | recordHeartbeat serverId now => cases hr
    | _ => rfl
  · refine (Dict.get?_set _ _ _ _).trans ?_
    by_cases hi : i = serverId
    · simp [HealthCall.heartbeatOf, hi]
    · simp [HealthCall.heartbeatOf, hi, Ne.symm hi]
  · show (h.registerServer serverId).lastHeartbeat.get? i = _
    unfold registerServer
    split <;> rfl

theorem step_thresholds (h : HealthChecker ι) (call : HealthCall ι) :
    (step h call).2.degradedAfterSec = h.degradedAfterSec ∧ (step h call).2.offlineAfterSec = h.offlineAfterSec := by
  cases call with
  | registerServer serverId =>
    unfold step registerServer
    dsimp only
    split <;> exact ⟨rfl, rfl⟩
  | recordHeartbeat serverId now => exact ⟨rfl, rfl⟩
  | _ =>
    rw [(step_of_refresh rfl).1, updateStates_frame]
    exact ⟨rfl, rfl⟩

theorem isSome_updateStates (hk : (h.states.get? i).isSome) (now : Time) :
    ((h.updateStates now).2.states.get? i).isSome := by
  rw [(h.updateStates_spec now i).1]
  split
  · rfl
  · exact hk

/-- **A server stays known**, and a call makes known the server it names. -/
theorem isSome_step (hk : (h.states.get? i).isSome ∨ call.Names i) : ((step h call).2.states.get? i).isSome := by
  obtain ⟨now, -, hr⟩ | ⟨serverId, now, rfl⟩ | ⟨serverId, rfl⟩ := cases_call call
  · rw [(step_of_refresh hr).1]
    refine isSome_updateStates (hk.resolve_right fun hn => ?_) now
    cases call with
    | registerServer serverId => cases hr
    | recordHeartbeat serverId now => cases hr
    | _ => exact hn
  · show ((h.states.set serverId .online).get? i).isSome
    rw [Dict.get?_set]
    split
    · rfl
    · rename_i hi
      exact hk.resolve_right (Ne.symm hi)
  · show ((h.registerServer serverId).states.get? i).isSome
    unfold registerServer
    cases hs : h.states.get? serverId with
    | some st =>
      rcases hk with hk | rfl
      · exact hk
      · exact Option.isSome_iff_exists.2 ⟨st, hs⟩
    | none =>
      dsimp only
      rw [Dict.get?_set]
      split
      · rfl
      · rename_i hi
        exact hk.resolve_right (Ne.symm hi)

/-- **Every call keeps the recorded states dated**, up to any time that is not before its readings. -/
theorem Dated.step (hd : Dated t h) (hr : ∀ r ∈ call.readings, r ≤ t) : Dated t (step h call).2 := by
  obtain ⟨hd', ho'⟩ := step_thresholds h call
  refine ⟨by unfold Valid; rw [hd', ho']; exact hd.valid, fun i hi => ?_, fun i => ?_⟩
  · rw [step_lastHeartbeat, Option.isSome_or, Bool.or_eq_true] at hi
    refine isSome_step (hi.symm.imp (hd.heard i) fun hb => ?_)
    cases call with
    | recordHeartbeat serverId now =>
      by_contra hne
      rw [HealthCall.heartbeatOf, if_neg (c := serverId = i) hne] at hb
      cases hb
    | _ => cases hb
  · have hsame (t' : Time) (hb : call.heartbeatOf i = none) :
        (HealthChecker.step h call).2.stateFor i t' = h.stateFor i t' := by
      rw [stateFor_eq, stateFor_eq, step_lastHeartbeat, hb, hd', ho', Option.none_or]
    obtain ⟨now, hmem, hnow⟩ | ⟨serverId, now, rfl⟩ | ⟨serverId, rfl⟩ := cases_call call
    · refine ⟨now, hr now hmem, ?_⟩
      have hb : call.heartbeatOf i = none := by
        cases call with
        | recordHeartbeat serverId now => cases hnow
        | _ => rfl
      rw [hsame now hb, (step_of_refresh hnow).1]
      exact (hd.updateStates now i).1
    · by_cases hi : i = serverId
      · subst hi
        refine ⟨now, hr now (List.mem_singleton.2 rfl), ?_⟩
        rw [stateFor_eq, step_lastHeartbeat, HealthCall.heartbeatOf, if_pos rfl, Option.some_or, classify, hd', ho',
          sub_self, max_self, if_pos hd.valid.1]
        exact (h.recordHeartbeat_spec i now i).1.trans (if_pos rfl)
      · obtain ⟨t', ht', he⟩ := hd.earlier i
        refine ⟨t', ht', ?_⟩
        rw [hsame t' (if_neg (Ne.symm hi)), ← he]
        exact (h.recordHeartbeat_spec serverId now i).1.trans (if_neg hi)
    · obtain ⟨t', ht', he⟩ := hd.earlier i
      refine ⟨t', ht', ?_⟩
      rw [hsame t' rfl, ← he]
      exact recordedState_registerServer h serverId i

/-- **A call tells the recorded state of a server when it changes it**, and then the two states are related. -/
def Tells (R : ServerState → ServerState → Prop) (i : ι) (h : HealthChecker ι) (call : HealthCall ι) : Prop :=
  let after := (step h call).2.recordedState i
  HealthSystem.about i (step h call).1.told = (if after = h.recordedState i then [] else [after]) ∧
    (after ≠ h.recordedState i → R (h.recordedState i) after)

theorem tells_ne (hd : Dated t h) (i : ι) (call : HealthCall ι) : Tells (· ≠ ·) i h call := by
  refine ⟨?_, Ne.symm⟩
  obtain ⟨now, -, hr⟩ | ⟨serverId, now, rfl⟩ | ⟨serverId, rfl⟩ := cases_call call
  · obtain ⟨hstate, htold⟩ := hd.updateStates now i
    rw [(step_of_refresh hr).1, (step_of_refresh hr).2, hstate, htold]
  · obtain ⟨hstate, htold⟩ := h.recordHeartbeat_spec serverId now i
    show HealthSystem.about i (h.recordHeartbeat serverId now).1 =
      if (h.recordHeartbeat serverId now).2.recordedState i = h.recordedState i then []
      else [(h.recordHeartbeat serverId now).2.recordedState i]
    rw [hstate, htold]
    by_cases hi : i = serverId
    · simp [hi, eq_comm]
    · simp [hi]
  · exact (if_pos (recordedState_registerServer h serverId i)).symm

/-- **Without a heartbeat of the server, a change is for the worse.** -/
theorem tells_worse (hd : Dated t h) (hr : ∀ now ∈ call.readings, Dated now h) (hb : call.heartbeatOf i = none) :
    Tells (fun a b => a.severity < b.severity) i h call := by
  refine ⟨(tells_ne hd i call).1, fun hne => ?_⟩
  obtain ⟨now, hmem, hnow⟩ | ⟨serverId, now, rfl⟩ | ⟨serverId, rfl⟩ := cases_call call
  · obtain ⟨t', ht', he⟩ := (hr now hmem).earlier i
    rw [(step_of_refresh hnow).1, (hd.updateStates now i).1, he] at hne ⊢
    refine lt_of_le_of_ne (severity_stateFor_mono h i ht') fun hs => hne ?_
    exact (ServerState.severity_injective hs).symm
  · by_cases hi : serverId = i
    · rw [HealthCall.heartbeatOf, if_pos hi] at hb
      cases hb
    · exact absurd ((h.recordHeartbeat_spec serverId now i).1.trans (if_neg (Ne.symm hi))) hne
  · exact absurd (recordedState_registerServer h serverId i) hne

/-! ## Runs -/

/-- The notifications of a run, each delivered before the next call. -/
def toldBy (h : HealthChecker ι) (calls : List (HealthCall ι)) : List (ι × ServerState) :=
  (trace step h calls).flatMap (fun entry => entry.2.told)

/-- The last heartbeat of the server in a run. -/
def latest (i : ι) (calls : List (HealthCall ι)) : Option Time := (calls.filterMap (HealthCall.heartbeatOf i)).getLast?

theorem toldBy_snoc (h : HealthChecker ι) (calls : List (HealthCall ι)) (call : HealthCall ι) :
    toldBy h (calls ++ [call]) = toldBy h calls ++ (step (run step h calls) call).1.told :=
  flatMap_trace_snoc _ calls call

theorem latest_snoc (i : ι) (calls : List (HealthCall ι)) (call : HealthCall ι) :
    latest i (calls ++ [call]) = (call.heartbeatOf i).or (latest i calls) := by
  unfold latest
  rw [List.filterMap_append]
  cases hc : call.heartbeatOf i with
  | none => simp [hc]
  | some now => simp [hc]

/-- **The notifications of a run tell its changes**, one after the other, and the last tells the state recorded. -/
theorem changes_run {R : ServerState → ServerState → Prop} {i : ι} (calls : List (HealthCall ι))
    (hs : ∀ pre call post, calls = pre ++ call :: post → Tells R i (run step h pre) call) :
    (h.recordedState i :: HealthSystem.about i (toldBy h calls)).IsChain R ∧
      (h.recordedState i :: HealthSystem.about i (toldBy h calls)).getLast? =
        some ((run step h calls).recordedState i) := by
  induction calls using List.reverseRecOn with
  | nil => exact ⟨List.isChain_singleton _, rfl⟩
  | append_singleton calls call ih =>
    obtain ⟨hchain, hlast⟩ := ih fun pre c post he => hs pre c (post ++ [call]) (by simp [he])
    obtain ⟨htold, hrel⟩ := hs calls call [] rfl
    rw [toldBy_snoc, HealthSystem.about_append, htold, run_snoc, ← List.cons_append]
    split
    · rename_i hsame
      rw [List.append_nil, hsame]
      exact ⟨hchain, hlast⟩
    · rename_i hne
      refine ⟨Streak.isChain_snoc.2 ⟨hchain, fun before hbefore => ?_⟩, List.getLast?_concat⟩
      obtain rfl := Option.some.inj (hlast.symm.trans hbefore)
      exact hrel hne

variable {degradedAfterSec offlineAfterSec checkIntervalSec : Time}

/-- A checker that was made has sensible thresholds and knows no server. -/
theorem dated_new (hnew : new degradedAfterSec offlineAfterSec checkIntervalSec = .ok h) (t : Time) :
    h = fresh degradedAfterSec offlineAfterSec checkIntervalSec ∧ Dated t h := by
  unfold new at hnew
  split at hnew
  · cases hnew
  · rename_i hd
    split at hnew
    · cases hnew
    · rename_i ho
      split at hnew
      · cases hnew
      · cases hnew
        refine ⟨rfl, ⟨not_lt.1 hd, not_le.1 ho⟩, fun i hi => ?_, fun i => ⟨t, le_refl t, rfl⟩⟩
        cases hi

theorem dated_run (hd : Dated t h) (calls : List (HealthCall ι))
    (hr : ∀ r ∈ calls.flatMap HealthCall.readings, r ≤ t) : Dated t (run step h calls) := by
  induction calls using List.reverseRecOn with
  | nil => exact hd
  | append_singleton calls call ih =>
    rw [run_snoc]
    refine (ih fun r h => hr r (by simp_all)).step fun r h => hr r ?_
    rw [List.flatMap_append, List.flatMap_singleton]
    exact List.mem_append_right _ h

theorem latest_run (h : HealthChecker ι) (calls : List (HealthCall ι)) (i : ι) :
    (run step h calls).lastHeartbeat.get? i = (latest i calls).or (h.lastHeartbeat.get? i) := by
  induction calls using List.reverseRecOn with
  | nil => rfl
  | append_singleton calls call ih => rw [run_snoc, step_lastHeartbeat, ih, latest_snoc, Option.or_assoc]

theorem known_run (h : HealthChecker ι) (calls : List (HealthCall ι)) (hk : ∃ call ∈ calls, call.Names i) :
    ((run step h calls).states.get? i).isSome := by
  induction calls using List.reverseRecOn with
  | nil => simp at hk
  | append_singleton calls call ih =>
    rw [run_snoc]
    obtain ⟨c, hc, hn⟩ := hk
    rcases List.mem_append.1 hc with hc | hc
    · exact isSome_step (Or.inl (ih ⟨c, hc, hn⟩))
    · obtain rfl := List.mem_singleton.1 hc
      exact isSome_step (Or.inr hn)

theorem thresholds_run (h : HealthChecker ι) (calls : List (HealthCall ι)) :
    (run step h calls).degradedAfterSec = h.degradedAfterSec ∧
      (run step h calls).offlineAfterSec = h.offlineAfterSec := by
  refine invariant (P := fun s : HealthChecker ι => s.degradedAfterSec = h.degradedAfterSec ∧
    s.offlineAfterSec = h.offlineAfterSec) ⟨rfl, rfl⟩ (fun s call hs => ?_) calls
  obtain ⟨hd, ho⟩ := step_thresholds s call
  exact ⟨hd.trans hs.1, ho.trans hs.2⟩

section
variable (hnew : new degradedAfterSec offlineAfterSec checkIntervalSec = .ok h) {calls pre mid post : List (HealthCall ι)}
include hnew

theorem exists_dated (calls : List (HealthCall ι)) : ∃ t, Dated t (run step h calls) := by
  obtain ⟨t, ht⟩ := (calls.flatMap HealthCall.readings).toFinset.exists_le
  exact ⟨t, dated_run (dated_new hnew t).2 calls fun r hr => ht r (List.mem_toFinset.2 hr)⟩

/-- At each of its readings, a call finds the states dated. -/
theorem dated_reading (hclock : ((pre ++ call :: post).flatMap HealthCall.readings).Pairwise (· ≤ ·)) :
    ∀ now ∈ call.readings, Dated now (run step h pre) := by
  intro now hnow
  rw [List.flatMap_append, List.flatMap_cons, List.pairwise_append] at hclock
  exact dated_run (dated_new hnew now).2 pre fun r hr => hclock.2.2 r hr now (List.mem_append_left _ hnow)

theorem tells_worse_run (hclock : ((pre ++ call :: post).flatMap HealthCall.readings).Pairwise (· ≤ ·))
    (hb : call.heartbeatOf i = none) : Tells (fun a b => a.severity < b.severity) i (run step h pre) call := by
  obtain ⟨t, ht⟩ := exists_dated hnew pre
  exact tells_worse ht (dated_reading hnew hclock) hb

theorem classified_after_refresh (hr : call.refresh = some now) (hk : ∃ c ∈ pre, c.Names i) :
    (run step h (pre ++ [call])).states.get? i =
      some (classify degradedAfterSec offlineAfterSec (latest i pre) now) := by
  have hin : i ∈ (run step h pre).knownServers := mem_knownServers.2 (Or.inl (known_run h pre hk))
  obtain ⟨hd, ho⟩ := thresholds_run h pre
  have hlatest := latest_run h pre i
  obtain ⟨rfl, -⟩ := dated_new hnew 0
  rw [run_snoc, (step_of_refresh hr).1, (updateStates_spec _ now i).1, if_pos hin, stateFor_eq, hd, ho, hlatest]
  exact congrArg (fun o => some (classify degradedAfterSec offlineAfterSec o now)) Option.or_none

theorem worsens_between {heartbeatAt : Time}
    (hclock : ((pre ++ .recordHeartbeat i heartbeatAt :: mid ++ post).flatMap HealthCall.readings).Pairwise (· ≤ ·))
    (hmid : ∀ call ∈ mid, call.heartbeatOf i = none) :
    (.online :: HealthSystem.about i (toldBy (run step h (pre ++ [.recordHeartbeat i heartbeatAt])) mid)).Pairwise
      (fun a b => a.severity < b.severity) := by
  have honline : (run step h (pre ++ [.recordHeartbeat i heartbeatAt])).recordedState i = .online := by
    rw [run_snoc]
    exact ((run step h pre).recordHeartbeat_spec i heartbeatAt i).1.trans (if_pos rfl)
  have hchain := (changes_run (h := run step h (pre ++ [.recordHeartbeat i heartbeatAt])) (i := i)
    (R := fun a b => a.severity < b.severity) mid fun before call after he => ?_).1
  · rw [honline] at hchain
    have : IsTrans ServerState (fun a b => a.severity < b.severity) := ⟨fun _ _ _ => lt_trans⟩
    exact List.isChain_iff_pairwise.1 hchain
  · subst he
    have hclock' : (((pre ++ [HealthCall.recordHeartbeat i heartbeatAt]) ++ before ++ call :: (after ++ post)).flatMap
        HealthCall.readings).Pairwise (· ≤ ·) := by simpa using hclock
    rw [← run_append]
    exact tells_worse_run hnew hclock' (hmid call (by simp))

theorem online_by_heartbeat (hclock : ((pre ++ call :: post).flatMap HealthCall.readings).Pairwise (· ≤ ·))
    (honline : .online ∈ HealthSystem.about i (step (run step h pre) call).1.told) :
    ∃ now, call = .recordHeartbeat i now := by
  cases hb : call.heartbeatOf i with
  | none =>
    obtain ⟨htold, hworse⟩ := tells_worse_run hnew hclock hb
    rw [htold] at honline
    split at honline
    · cases honline
    · rename_i hne
      have hlt := hworse hne
      rw [← List.mem_singleton.1 honline] at hlt
      exact absurd hlt (Nat.not_lt_zero _)
  | some heartbeatAt =>
    cases call with
    | recordHeartbeat serverId now =>
      by_cases hi : serverId = i
      · exact ⟨now, by rw [hi]⟩
      · rw [HealthCall.heartbeatOf, if_neg hi] at hb
        cases hb
    | _ => cases hb

end

/-- **The checker follows the age of the last heartbeat and tells each change once.**  In every run of a checker on a
clock that does not go back: after a refresh the state of each known server is the classification of its last
heartbeat; the notifications about a server never repeat a state and the last is the state recorded, `offline` when
there is none; after a heartbeat of the server, until the next, its notified states only get worse; and `online` is
notified by a heartbeat of the server only. -/
theorem follows_freshness (hnew : new degradedAfterSec offlineAfterSec checkIntervalSec = .ok h)
    (calls : List (HealthCall ι)) (hclock : (calls.flatMap HealthCall.readings).Pairwise (· ≤ ·)) (i : ι) :
    (∀ pre call post now, calls = pre ++ call :: post → call.refresh = some now → (∃ c ∈ pre, c.Names i) →
      (run step h (pre ++ [call])).states.get? i =
        some (classify degradedAfterSec offlineAfterSec (latest i pre) now)) ∧
    (HealthSystem.about i (toldBy h calls)).IsChain (· ≠ ·) ∧
    (HealthSystem.about i (toldBy h calls)).getLast?.getD .offline = (run step h calls).recordedState i ∧
    (∀ pre heartbeatAt mid post, calls = pre ++ .recordHeartbeat i heartbeatAt :: mid ++ post →
      (∀ call ∈ mid, call.heartbeatOf i = none) →
      (.online :: HealthSystem.about i (toldBy (run step h (pre ++ [.recordHeartbeat i heartbeatAt])) mid)).Pairwise
        (fun a b => a.severity < b.severity)) ∧
    (∀ pre call post, calls = pre ++ call :: post →
      .online ∈ HealthSystem.about i (step (run step h pre) call).1.told → ∃ now, call = .recordHeartbeat i now) := by
  have hstart : h.recordedState i = .offline := by
    rw [(dated_new hnew 0).1]
    rfl
  obtain ⟨hchain, hlast⟩ := changes_run (i := i) calls fun pre call _ _ =>
    tells_ne (exists_dated hnew pre).choose_spec i call
  rw [List.getLast?_cons, hstart] at hlast
  refine ⟨fun pre call post now he hr hk => classified_after_refresh hnew hr hk, hchain.tail, Option.some.inj hlast,
    fun pre heartbeatAt mid post he hmid => ?_, fun pre call post he honline => ?_⟩
  · rw [he] at hclock
    exact worsens_between hnew hclock hmid
  · rw [he] at hclock
    exact online_by_heartbeat hnew hclock honline

/-- Server 1 sends a heartbeat, falls silent, and is back. -/
def silentServer : List (HealthCall ℕ) :=
  [.registerServer 1, .recordHeartbeat 1 0, .updateStates 6, .getState 1 20, .recordHeartbeat 1 21, .updateStates 22]

theorem follows_freshness_silentServer :
    HealthSystem.about 1 (toldBy (fresh 5 15 1) silentServer) = [.online, .degraded, .offline, .online] ∧
      (run step (fresh 5 15 1) silentServer).recordedState 1 = .online ∧
      [ServerState.online, .degraded, .offline, .online].IsChain (· ≠ ·) := by
  have hnew : new 5 15 1 = .ok (fresh 5 15 1 : HealthChecker ℕ) := rfl
  obtain ⟨-, hchain, hlast, -, -⟩ := follows_freshness hnew silentServer (by decide) 1
  have htold : HealthSystem.about 1 (toldBy (fresh 5 15 1) silentServer) = [.online, .degraded, .offline, .online] := by
    decide +kernel
  rw [htold] at hchain hlast
  exact ⟨htold, hlast.symm, hchain⟩

end HealthChecker
end Ticket
