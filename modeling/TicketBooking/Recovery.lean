import Mathlib.Data.Finset.Sort
import TicketBooking.Replicas
import TicketBooking.Runs
/-!
# Recovery — the recovery manager (`failover/recovery_manager.py`)

`RecoveryManager` marks servers recovered, lets them rejoin the cluster and hands them seats, calling the callbacks
registered for each.  A callback's exception is swallowed and the logger's is not, so a call may end at any of its log
lines: the members are nonetheless told by the calls made (`member_iff`).  While the logger returns, no server is handed
a seat before it was announced to have joined, nor announced to have joined before it was to have recovered, and a
callback is handed every seat as often as it is registered by then, in the order of the calls (`announced`).
-/
namespace Ticket

/-- `ServerRecoveryState`, kept under its server's id. -/
structure ServerRecoveryState where
  recovered : Bool
  joinedCluster : Bool
  lastRecoveryTime : Time
  lastReason : String
  deriving DecidableEq

/-- The defaults of the dataclass. -/
def ServerRecoveryState.new : ServerRecoveryState := ⟨false, false, 0, ""⟩

/-- A call of a registered callback. -/
inductive RecoveryNotice (ι κ : Type) where
  | recovery (callback : κ) (serverId : ι)
  | join (callback : κ) (serverId : ι)
  | sync (callback : κ) (serverId : ι) (seat : SeatState)
  deriving DecidableEq

/-- What a call comes to: whether it returned, and the callbacks it called. -/
structure RecoveryAnswer (ι κ : Type) where
  returned : Bool
  notices : List (RecoveryNotice ι κ)
  deriving DecidableEq

structure RecoveryManager (ι κ : Type) where
  states : Dict ι ServerRecoveryState
  clusterMembers : Finset ι
  recoveryCallbacks : List κ
  joinCallbacks : List κ
  syncCallbacks : List κ

/-- A call of the manager.  `logs n` says whether the `n`-th log line of the call returns. -/
inductive RecoveryCall (ι κ : Type) where
  | registerRecoveryCallback (callback : κ)
  | registerJoinCallback (callback : κ)
  | registerSyncCallback (callback : κ)
  | markRecovered (serverId : ι) (reason : String) (now : Time) (logs : ℕ → Bool)
  | rejoinCluster (serverId : ι) (peerIds : List ι) (now : Time) (logs : ℕ → Bool)
  | receiveSyncUpdates (serverId : ι) (updates : List SeatState) (now : Time) (logs : ℕ → Bool)
  | getRecoveryState (serverId : ι)

namespace RecoveryManager

variable {ι κ : Type} [DecidableEq ι]

def new : RecoveryManager ι κ := ⟨Dict.empty, ∅, [], [], []⟩

/-- A new manager with callbacks registered: for recoveries, for joins, for seats. -/
def starting (callbacks : List κ × List κ × List κ) : RecoveryManager ι κ :=
  ⟨Dict.empty, ∅, callbacks.1, callbacks.2.1, callbacks.2.2⟩

/-- `get_recovery_state`, which creates the state it does not find. -/
def getRecoveryState (m : RecoveryManager ι κ) (serverId : ι) : ServerRecoveryState × RecoveryManager ι κ :=
  match m.states.get? serverId with
  | some state => (state, m)
  | none => (.new, { m with states := m.states.set serverId .new })

def markRecovered (m : RecoveryManager ι κ) (serverId : ι) (reason : String) (now : Time) (logs : ℕ → Bool) :
    RecoveryAnswer ι κ × RecoveryManager ι κ :=
  let found := m.getRecoveryState serverId
  let state := { found.1 with recovered := true, lastRecoveryTime := now, lastReason := reason }
  (if logs 0 = true then ⟨true, m.recoveryCallbacks.map (RecoveryNotice.recovery · serverId)⟩ else ⟨false, []⟩,
    { found.2 with states := found.2.states.set serverId state })

/-- How `rejoin_cluster` begins: a server that has not recovered is marked. -/
def ensureRecovered (m : RecoveryManager ι κ) (serverId : ι) (now : Time) (logs : ℕ → Bool) :
    RecoveryAnswer ι κ × RecoveryManager ι κ :=
  let found := m.getRecoveryState serverId
  if found.1.recovered = true then (⟨true, []⟩, found.2)
  else found.2.markRecovered serverId "rejoin requested" now logs

def rejoinCluster (m : RecoveryManager ι κ) (serverId : ι) (peerIds : List ι) (now : Time) (logs : ℕ → Bool) :
    RecoveryAnswer ι κ × RecoveryManager ι κ :=
  let marked := m.ensureRecovered serverId now logs
  if marked.1.returned = true then
    let logged := logs 1 && (peerIds.isEmpty || logs 2)
    (⟨logged, marked.1.notices ++ if logged = true then m.joinCallbacks.map (RecoveryNotice.join · serverId) else []⟩,
      { marked.2 with
        states := marked.2.states.modify serverId (fun state => { state with joinedCluster := true })
        clusterMembers := insert serverId marked.2.clusterMembers })
  else marked

/-- How `receive_sync_updates` begins: a server that has not joined rejoins. -/
def ensureJoined (m : RecoveryManager ι κ) (serverId : ι) (now : Time) (logs : ℕ → Bool) :
    RecoveryAnswer ι κ × RecoveryManager ι κ :=
  let found := m.getRecoveryState serverId
  if found.1.joinedCluster = true then (⟨true, []⟩, found.2) else found.2.rejoinCluster serverId [] now logs

def receiveSyncUpdates (m : RecoveryManager ι κ) (serverId : ι) (updates : List SeatState) (now : Time)
    (logs : ℕ → Bool) : RecoveryAnswer ι κ × RecoveryManager ι κ :=
  let joined := m.ensureJoined serverId now logs
  if joined.1.returned = true then
    (⟨logs 3, joined.1.notices ++
        updates.flatMap (fun seat => m.syncCallbacks.map (RecoveryNotice.sync · serverId seat))⟩, joined.2)
  else joined

def isInCluster (m : RecoveryManager ι κ) (serverId : ι) : Bool := decide (serverId ∈ m.clusterMembers)

/-- `get_cluster_members`: the members sorted. -/
def getClusterMembers {ι : Type} [LinearOrder ι] (m : RecoveryManager ι κ) : List ι := m.clusterMembers.sort

def step (m : RecoveryManager ι κ) (c : RecoveryCall ι κ) : RecoveryAnswer ι κ × RecoveryManager ι κ :=
  match c with
  | .registerRecoveryCallback callback =>
    (⟨true, []⟩, { m with recoveryCallbacks := m.recoveryCallbacks ++ [callback] })
  | .registerJoinCallback callback => (⟨true, []⟩, { m with joinCallbacks := m.joinCallbacks ++ [callback] })
  | .registerSyncCallback callback => (⟨true, []⟩, { m with syncCallbacks := m.syncCallbacks ++ [callback] })
  | .markRecovered serverId reason now logs => m.markRecovered serverId reason now logs
  | .rejoinCluster serverId peerIds now logs => m.rejoinCluster serverId peerIds now logs
  | .receiveSyncUpdates serverId updates now logs => m.receiveSyncUpdates serverId updates now logs
  | .getRecoveryState serverId => (⟨true, []⟩, (m.getRecoveryState serverId).2)

/-- The state of a server, the default where there is none yet. -/
def stateOf (m : RecoveryManager ι κ) (i : ι) : ServerRecoveryState := (m.states.get? i).getD .new

/-- The callbacks registered. -/
def callbacks (m : RecoveryManager ι κ) : List κ × List κ × List κ :=
  (m.recoveryCallbacks, m.joinCallbacks, m.syncCallbacks)

variable {m : RecoveryManager ι κ} {i serverId : ι}

/-! ## What each call does to the states and the members -/

theorem getRecoveryState_fst : (m.getRecoveryState serverId).1 = m.stateOf serverId := by
  unfold getRecoveryState stateOf
  cases m.states.get? serverId <;> rfl

theorem getRecoveryState_stateOf : (m.getRecoveryState serverId).2.stateOf i = m.stateOf i := by
  unfold getRecoveryState
  cases hs : m.states.get? serverId with
  | some state => rfl
  | none =>
    unfold stateOf
    dsimp only
    rw [Dict.get?_set]
    split
    · rename_i hi
      rw [hi, hs]
      rfl
    · rfl

theorem getRecoveryState_frame : (m.getRecoveryState serverId).2.clusterMembers = m.clusterMembers ∧
    (m.getRecoveryState serverId).2.callbacks = m.callbacks := by
  unfold getRecoveryState
  cases m.states.get? serverId <;> exact ⟨rfl, rfl⟩

theorem markRecovered_stateOf (reason : String) (now : Time) (logs : ℕ → Bool) :
    (m.markRecovered serverId reason now logs).2.stateOf i =
      if i = serverId then { m.stateOf serverId with recovered := true, lastRecoveryTime := now, lastReason := reason }
      else m.stateOf i := by
  have hset : (m.markRecovered serverId reason now logs).2.stateOf i =
      if i = serverId then { (m.getRecoveryState serverId).1 with
        recovered := true, lastRecoveryTime := now, lastReason := reason }
      else (m.getRecoveryState serverId).2.stateOf i := by
    unfold markRecovered stateOf
    dsimp only
    rw [Dict.get?_set]
    split <;> rfl
  rw [hset, getRecoveryState_fst, getRecoveryState_stateOf]

theorem markRecovered_frame (reason : String) (now : Time) (logs : ℕ → Bool) :
    (m.markRecovered serverId reason now logs).2.clusterMembers = m.clusterMembers ∧
      (m.markRecovered serverId reason now logs).2.callbacks = m.callbacks := getRecoveryState_frame

/-- A state that is there is found again. -/
theorem modify_stateOf {f : ServerRecoveryState → ServerRecoveryState} (h : (m.states.get? serverId).isSome = true) :
    ((m.states.modify serverId f).get? i).getD .new =
      if i = serverId then f (m.stateOf serverId) else m.stateOf i := by
  obtain ⟨state, hs⟩ := Option.isSome_iff_exists.1 h
  unfold Dict.modify stateOf
  rw [hs]
  dsimp only
  rw [Dict.get?_set]
  split <;> rfl

/-- The server has recovered, or the first log line of the call returns. -/
def Enters (m : RecoveryManager ι κ) (serverId : ι) (logs : ℕ → Bool) : Prop :=
  (m.stateOf serverId).recovered = true ∨ logs 0 = true

theorem ensureRecovered_returned (m : RecoveryManager ι κ) (serverId : ι) (now : Time) (logs : ℕ → Bool) :
    (m.ensureRecovered serverId now logs).1.returned = true ↔ m.Enters serverId logs := by
  unfold ensureRecovered Enters
  dsimp only
  rw [getRecoveryState_fst]
  by_cases hr : (m.stateOf serverId).recovered = true
  · rw [if_pos hr]
    exact iff_of_true rfl (Or.inl hr)
  · rw [if_neg hr]
    unfold markRecovered
    cases logs 0 <;> simp [hr]

theorem ensureRecovered_recovered (m : RecoveryManager ι κ) (serverId i : ι) (now : Time) (logs : ℕ → Bool) :
    ((m.ensureRecovered serverId now logs).2.stateOf i).recovered = true ↔
      (m.stateOf i).recovered = true ∨ i = serverId := by
  unfold ensureRecovered
  dsimp only
  rw [getRecoveryState_fst]
  by_cases hr : (m.stateOf serverId).recovered = true
  · rw [if_pos hr, getRecoveryState_stateOf]
    exact ⟨Or.inl, fun h => h.elim id fun hi => by rw [hi, hr]⟩
  · rw [if_neg hr, markRecovered_stateOf]
    by_cases hi : i = serverId
    · rw [if_pos hi]
      exact iff_of_true rfl (Or.inr hi)
    · rw [if_neg hi, getRecoveryState_stateOf]
      exact ⟨Or.inl, fun h => h.resolve_right hi⟩

theorem ensureRecovered_joined (m : RecoveryManager ι κ) (serverId i : ι) (now : Time) (logs : ℕ → Bool) :
    ((m.ensureRecovered serverId now logs).2.stateOf i).joinedCluster = (m.stateOf i).joinedCluster := by
  unfold ensureRecovered
  dsimp only
  split
  · rw [getRecoveryState_stateOf]
  · rw [markRecovered_stateOf]
    split
    · rename_i hi
      rw [hi, getRecoveryState_stateOf]
    · rw [getRecoveryState_stateOf]

theorem ensureRecovered_frame (m : RecoveryManager ι κ) (serverId : ι) (now : Time) (logs : ℕ → Bool) :
    (m.ensureRecovered serverId now logs).2.clusterMembers = m.clusterMembers ∧
      (m.ensureRecovered serverId now logs).2.callbacks = m.callbacks := by
  unfold ensureRecovered
  dsimp only
  split
  · exact getRecoveryState_frame
  · exact ⟨(markRecovered_frame _ _ _).1.trans getRecoveryState_frame.1,
      (markRecovered_frame _ _ _).2.trans getRecoveryState_frame.2⟩

theorem getRecoveryState_isSome : ((m.getRecoveryState serverId).2.states.get? serverId).isSome = true := by
  unfold getRecoveryState
  cases hs : m.states.get? serverId with
  | some state => exact Option.isSome_iff_exists.2 ⟨state, hs⟩
  | none => exact Option.isSome_iff_exists.2 ⟨_, Dict.get?_set_self _ _ _⟩

theorem ensureRecovered_isSome (m : RecoveryManager ι κ) (serverId : ι) (now : Time) (logs : ℕ → Bool) :
    ((m.ensureRecovered serverId now logs).2.states.get? serverId).isSome = true := by
  unfold ensureRecovered
  dsimp only
  split
  · exact getRecoveryState_isSome
  · exact Option.isSome_iff_exists.2 ⟨_, Dict.get?_set_self _ _ _⟩

/-- **A rejoining server has recovered**, and joins if its recovery could be logged. -/
theorem rejoinCluster_stateOf (m : RecoveryManager ι κ) (serverId i : ι) (peerIds : List ι) (now : Time)
    (logs : ℕ → Bool) :
    (((m.rejoinCluster serverId peerIds now logs).2.stateOf i).recovered = true ↔
      (m.stateOf i).recovered = true ∨ i = serverId) ∧
    (((m.rejoinCluster serverId peerIds now logs).2.stateOf i).joinedCluster = true ↔
      (m.stateOf i).joinedCluster = true ∨ (i = serverId ∧ m.Enters serverId logs)) := by
  have hrecovered := ensureRecovered_recovered m serverId i now logs
  have hjoined := ensureRecovered_joined m serverId i now logs
  have hreturned := ensureRecovered_returned m serverId now logs
  have hsome := ensureRecovered_isSome m serverId now logs
  unfold rejoinCluster
  generalize m.ensureRecovered serverId now logs = marked at *
  by_cases he : marked.1.returned = true
  · have hmod := modify_stateOf (i := i) (f := fun state => { state with joinedCluster := true }) hsome
    dsimp only
    rw [if_pos he]
    unfold stateOf at hmod hrecovered hjoined ⊢
    rw [hmod]
    by_cases hi : i = serverId
    · subst hi
      rw [if_pos rfl]
      exact ⟨hrecovered, iff_of_true rfl (Or.inr ⟨rfl, hreturned.1 he⟩)⟩
    · rw [if_neg hi]
      refine ⟨hrecovered, ?_⟩
      rw [hjoined]
      exact ⟨Or.inl, fun h => h.resolve_right fun hc => hi hc.1⟩
  · dsimp only
    rw [if_neg he, hjoined]
    exact ⟨hrecovered, Or.inl, fun h => h.resolve_right fun hc => he (hreturned.2 hc.2)⟩

theorem rejoinCluster_members (m : RecoveryManager ι κ) (serverId i : ι) (peerIds : List ι) (now : Time)
    (logs : ℕ → Bool) :
    i ∈ (m.rejoinCluster serverId peerIds now logs).2.clusterMembers ↔
      i ∈ m.clusterMembers ∨ (i = serverId ∧ m.Enters serverId logs) := by
  have hreturned := ensureRecovered_returned m serverId now logs
  have hmembers := (ensureRecovered_frame m serverId now logs).1
  unfold rejoinCluster
  dsimp only
  split
  · rename_i he
    rw [Finset.mem_insert, hmembers, ← hreturned]
    tauto
  · rename_i he
    rw [hmembers, ← hreturned]
    tauto

theorem rejoinCluster_callbacks (peerIds : List ι) (now : Time) (logs : ℕ → Bool) :
    (m.rejoinCluster serverId peerIds now logs).2.callbacks = m.callbacks := by
  have hcallbacks := (ensureRecovered_frame m serverId now logs).2
  unfold rejoinCluster
  dsimp only
  split <;> exact hcallbacks

/-- Handing seats to a server changes the manager as its rejoining does, if that. -/
theorem receiveSyncUpdates_snd (updates : List SeatState) (now : Time) (logs : ℕ → Bool) :
    (m.receiveSyncUpdates serverId updates now logs).2 = (m.ensureJoined serverId now logs).2 := by
  unfold receiveSyncUpdates
  dsimp only
  split <;> rfl

/-! ## The members -/

/-- **The members and the flags agree**: the members are the servers that joined, and these have recovered. -/
def Consistent (m : RecoveryManager ι κ) : Prop :=
  ∀ i, (i ∈ m.clusterMembers ↔ (m.stateOf i).joinedCluster = true) ∧
    ((m.stateOf i).joinedCluster = true → (m.stateOf i).recovered = true)

end RecoveryManager

namespace RecoveryCall

variable {ι κ : Type} [DecidableEq ι]

/-- The call asks the server to join, and the log lines it may end at. -/
def joins (i : ι) : RecoveryCall ι κ → Option (ℕ → Bool)
  | .rejoinCluster serverId _ _ logs => if i = serverId then some logs else none
  | .receiveSyncUpdates serverId _ _ logs => if i = serverId then some logs else none
  | _ => none

/-- The call marks the server recovered, if it has not. -/
def marks (i : ι) : RecoveryCall ι κ → Bool
  | .markRecovered serverId _ _ _ => decide (i = serverId)
  | .rejoinCluster serverId _ _ _ => decide (i = serverId)
  | .receiveSyncUpdates serverId _ _ _ => decide (i = serverId)
  | _ => false

theorem marks_of_joins {i : ι} {c : RecoveryCall ι κ} {logs : ℕ → Bool} (h : c.joins i = some logs) :
    c.marks i = true := by
  cases c with
  | rejoinCluster serverId peerIds now logs' =>
    exact decide_eq_true (by_contra fun hi => nomatch (if_neg hi).symm.trans h)
  | receiveSyncUpdates serverId updates now logs' =>
    exact decide_eq_true (by_contra fun hi => nomatch (if_neg hi).symm.trans h)
  | _ => cases h

end RecoveryCall

namespace RecoveryManager

variable {ι κ : Type} [DecidableEq ι] {m : RecoveryManager ι κ} {i : ι}

theorem asked_iff {serverId : ι} {logs : ℕ → Bool} :
    (∃ l, (if i = serverId then some logs else none) = some l ∧ m.Enters i l) ↔
      i = serverId ∧ m.Enters serverId logs := by
  by_cases hi : i = serverId
  · subst hi
    simp
  · simp [hi]

/-- **What a call makes of a server.** -/
theorem step_flags (h : Consistent m) (c : RecoveryCall ι κ) :
    (((step m c).2.stateOf i).recovered = true ↔ (m.stateOf i).recovered = true ∨ c.marks i = true) ∧
    (((step m c).2.stateOf i).joinedCluster = true ↔
      (m.stateOf i).joinedCluster = true ∨ ∃ logs, c.joins i = some logs ∧ m.Enters i logs) ∧
    (i ∈ (step m c).2.clusterMembers ↔
      i ∈ m.clusterMembers ∨ ∃ logs, c.joins i = some logs ∧ m.Enters i logs) := by
  have hidle : ∀ m' : RecoveryManager ι κ, m'.stateOf i = m.stateOf i → m'.clusterMembers = m.clusterMembers →
      c.marks i = false → c.joins i = none →
      ((m'.stateOf i).recovered = true ↔ (m.stateOf i).recovered = true ∨ c.marks i = true) ∧
      ((m'.stateOf i).joinedCluster = true ↔
        (m.stateOf i).joinedCluster = true ∨ ∃ logs, c.joins i = some logs ∧ m.Enters i logs) ∧
      (i ∈ m'.clusterMembers ↔ i ∈ m.clusterMembers ∨ ∃ logs, c.joins i = some logs ∧ m.Enters i logs) := by
    intro m' hs hm hc hj
    rw [hs, hm, hc, hj]
    simp
  cases c with
  | registerRecoveryCallback callback => exact hidle _ rfl rfl rfl rfl
  | registerJoinCallback callback => exact hidle _ rfl rfl rfl rfl
  | registerSyncCallback callback => exact hidle _ rfl rfl rfl rfl
  | getRecoveryState serverId => exact hidle _ getRecoveryState_stateOf getRecoveryState_frame.1 rfl rfl
  | markRecovered serverId reason now logs =>
    simp only [step, markRecovered_stateOf, (markRecovered_frame _ _ _).1, RecoveryCall.marks, RecoveryCall.joins]
    by_cases hi : i = serverId
    · subst hi
      simp
    · simp [hi]
  | rejoinCluster serverId peerIds now logs =>
    obtain ⟨hrecovered, hjoined⟩ := rejoinCluster_stateOf m serverId i peerIds now logs
    have hmembers := rejoinCluster_members m serverId i peerIds now logs
    simp only [step, RecoveryCall.marks, RecoveryCall.joins, asked_iff, decide_eq_true_eq]
    exact ⟨hrecovered, hjoined, hmembers⟩
  | receiveSyncUpdates serverId updates now logs =>
    simp only [step, receiveSyncUpdates_snd, RecoveryCall.marks, RecoveryCall.joins, asked_iff, decide_eq_true_eq]
    unfold ensureJoined
    dsimp only
    rw [getRecoveryState_fst]
    by_cases hj : (m.stateOf serverId).joinedCluster = true
    · -- a server that has joined has recovered and is a member already
      rw [if_pos hj, getRecoveryState_stateOf, getRecoveryState_frame.1]
      have hr := (h serverId).2 hj
      have hm := (h serverId).1.2 hj
      refine ⟨⟨Or.inl, fun hc => hc.elim id fun hi => by rw [hi, hr]⟩, ⟨Or.inl, fun hc => hc.elim id fun hi => ?_⟩,
        Or.inl, fun hc => hc.elim id fun hi => ?_⟩
      · rw [hi.1, hj]
      · rw [hi.1]
        exact hm
    · rw [if_neg hj]
      have hrejoin := rejoinCluster_stateOf (m.getRecoveryState serverId).2 serverId i [] now logs
      have hmembers := rejoinCluster_members (m.getRecoveryState serverId).2 serverId i [] now logs
      simp only [Enters, getRecoveryState_stateOf, getRecoveryState_frame.1] at hrejoin hmembers
      exact ⟨hrejoin.1, hrejoin.2, hmembers⟩

theorem consistent_step (h : Consistent m) (c : RecoveryCall ι κ) : Consistent (step m c).2 := by
  intro i
  obtain ⟨hrecovered, hjoined, hmembers⟩ := step_flags (i := i) h c
  refine ⟨?_, fun hj => hrecovered.2 ?_⟩
  · rw [hmembers, hjoined, (h i).1]
  · rcases hjoined.1 hj with hj | ⟨logs, hasked, -⟩
    · exact Or.inl ((h i).2 hj)
    · exact Or.inr (RecoveryCall.marks_of_joins hasked)

theorem consistent_starting (callbacks : List κ × List κ × List κ) :
    Consistent (starting callbacks : RecoveryManager ι κ) := fun i =>
  ⟨iff_of_false (Finset.notMem_empty i) Bool.false_ne_true, fun h => absurd h Bool.false_ne_true⟩

theorem consistent_run (callbacks : List κ × List κ × List κ) (cs : List (RecoveryCall ι κ)) :
    Consistent (Runs.run step (starting callbacks) cs) :=
  Runs.invariant (consistent_starting callbacks) (fun _ c h => consistent_step h c) cs

/-- **Calls whose logger returns make members of the servers they ask to join**, and of no others. -/
theorem members_quiet : ∀ (cs : List (RecoveryCall ι κ)) (m : RecoveryManager ι κ), Consistent m →
    (∀ c ∈ cs, ∀ logs, c.joins i = some logs → logs 0 = true) →
    (Consistent (Runs.run step m cs) ∧
      (i ∈ (Runs.run step m cs).clusterMembers ↔ i ∈ m.clusterMembers ∨ ∃ c ∈ cs, (c.joins i).isSome = true))
  | [], m, h, _ => ⟨h, by simp⟩
  | c :: cs, m, h, hq => by
    obtain ⟨hlater, hmembers⟩ := members_quiet cs (step m c).2 (consistent_step h c)
      fun c' hc => hq c' (List.mem_cons_of_mem c hc)
    have hc : (∃ logs, c.joins i = some logs ∧ m.Enters i logs) ↔ (c.joins i).isSome = true := by
      rw [Option.isSome_iff_exists]
      exact ⟨fun ⟨logs, hasked, _⟩ => ⟨logs, hasked⟩,
        fun ⟨logs, hasked⟩ => ⟨logs, hasked, Or.inr (hq c List.mem_cons_self logs hasked)⟩⟩
    refine ⟨hlater, ?_⟩
    rw [Runs.run_cons, hmembers, (step_flags h c).2.2, hc]
    simp only [List.mem_cons, exists_eq_or_imp]
    exact or_assoc

theorem recovered_run (callbacks : List κ × List κ × List κ) (cs : List (RecoveryCall ι κ)) :
    ((Runs.run step (starting callbacks) cs).stateOf i).recovered = true ↔ ∃ c ∈ cs, c.marks i = true := by
  induction cs using List.reverseRecOn with
  | nil => exact iff_of_false Bool.false_ne_true fun ⟨_, h, _⟩ => absurd h List.not_mem_nil
  | append_singleton cs c ih =>
    rw [Runs.run_snoc, (step_flags (consistent_run callbacks cs) c).1, ih]
    simp only [List.mem_append, List.mem_singleton]
    constructor
    · rintro (⟨c', hc, hm⟩ | hm)
      · exact ⟨c', Or.inl hc, hm⟩
      · exact ⟨c, Or.inr rfl, hm⟩
    · rintro ⟨c', hc | rfl, hm⟩
      · exact Or.inl ⟨c', hc, hm⟩
      · exact Or.inr hm

/-- **Who is in the cluster**: the servers with a call that asked them to join and whose first log line returned or
that another call for the server had come before.  The members are listed once each, in order. -/
theorem member_iff [LinearOrder ι] (callbacks : List κ × List κ × List κ) (cs : List (RecoveryCall ι κ))
    (i : ι) :
    ((Runs.run step (starting callbacks) cs).isInCluster i = true ↔ ∃ pre c post logs, cs = pre ++ c :: post ∧
      c.joins i = some logs ∧ (logs 0 = true ∨ ∃ b ∈ pre, b.marks i = true)) ∧
    (i ∈ (Runs.run step (starting callbacks) cs).getClusterMembers ↔
      (Runs.run step (starting callbacks) cs).isInCluster i = true) ∧
    ((Runs.run step (starting callbacks) cs).isInCluster i = true ↔
      ((Runs.run step (starting callbacks) cs).stateOf i).joinedCluster = true) ∧
    (Runs.run step (starting callbacks) cs).getClusterMembers.Pairwise (· < ·) := by
  refine ⟨?_, ?_, ?_, ?_⟩
  · unfold isInCluster
    rw [decide_eq_true_eq]
    induction cs using List.reverseRecOn with
    | nil =>
      refine iff_of_false (show i ∉ (∅ : Finset ι) from Finset.notMem_empty i) ?_
      rintro ⟨pre, c, post, logs, hsplit, -⟩
      exact absurd hsplit (by simp)
    | append_singleton cs c ih =>
      rw [Runs.run_snoc, (step_flags (consistent_run callbacks cs) c).2.2, ih]
      unfold Enters
      rw [recovered_run]
      constructor
      · rintro (⟨pre, c', post, logs, rfl, h⟩ | ⟨logs, hasked, h⟩)
        · exact ⟨pre, c', post ++ [c], logs, by rw [List.append_assoc, List.cons_append], h⟩
        · exact ⟨cs, c, [], logs, rfl, hasked, h.symm⟩
      · rintro ⟨pre, c', post, logs, hsplit, hasked, h⟩
        rcases Runs.snoc_eq_append_cons hsplit with ⟨rfl, rfl, rfl⟩ | ⟨mid, -, rfl⟩
        · exact Or.inr ⟨logs, hasked, h.symm⟩
        · exact Or.inl ⟨pre, c', mid, logs, rfl, hasked, h⟩
  · unfold getClusterMembers isInCluster
    rw [Finset.mem_sort, decide_eq_true_eq]
  · unfold isInCluster
    rw [decide_eq_true_eq]
    exact (consistent_run callbacks cs i).1
  · exact (Finset.sortedLT_sort _).pairwise

end RecoveryManager

namespace RecoveryCall

variable {ι κ : Type} [DecidableEq ι]

/-- The logger returns whenever the call logs. -/
def Quiet : RecoveryCall ι κ → Prop
  | .markRecovered _ _ _ logs => ∀ n, logs n = true
  | .rejoinCluster _ _ _ logs => ∀ n, logs n = true
  | .receiveSyncUpdates _ _ _ logs => ∀ n, logs n = true
  | _ => True

/-- The seats the call hands to the server. -/
def updates (i : ι) : RecoveryCall ι κ → List SeatState
  | .receiveSyncUpdates serverId updates _ _ => if i = serverId then updates else []
  | _ => []

/-- How often the call registers the callback for seats. -/
def registers [DecidableEq κ] (k : κ) : RecoveryCall ι κ → ℕ
  | .registerSyncCallback callback => if callback = k then 1 else 0
  | _ => 0

end RecoveryCall

/-- The seat a callback is handed for a server, if the notice is of one. -/
def RecoveryNotice.synced {ι κ : Type} [DecidableEq ι] [DecidableEq κ] (k : κ) (i : ι) :
    RecoveryNotice ι κ → Option SeatState
  | .sync callback serverId seat => if callback = k ∧ i = serverId then some seat else none
  | _ => none

namespace RecoveryManager

variable {ι κ : Type} [DecidableEq ι] {m : RecoveryManager ι κ} {i : ι}

/-- The callbacks called in a run, in order. -/
def told (m : RecoveryManager ι κ) (cs : List (RecoveryCall ι κ)) : List (RecoveryNotice ι κ) :=
  (Runs.trace step m cs).flatMap (fun t => t.2.notices)

/-- A server is made to join, whether it had or not, when the logger returns. -/
theorem ensureJoined_quiet (m : RecoveryManager ι κ) (serverId : ι) (now : Time) {logs : ℕ → Bool}
    (hq : ∀ n, logs n = true) :
    (m.ensureJoined serverId now logs).1.returned = true ∧
      ((m.ensureJoined serverId now logs).2.stateOf serverId).joinedCluster = true := by
  unfold ensureJoined
  dsimp only
  rw [getRecoveryState_fst]
  by_cases hj : (m.stateOf serverId).joinedCluster = true
  · rw [if_pos hj, getRecoveryState_stateOf]
    exact ⟨rfl, hj⟩
  · have hjoined := (rejoinCluster_stateOf (m.getRecoveryState serverId).2 serverId serverId [] now logs).2.2
      (Or.inr ⟨rfl, Or.inr (hq 0)⟩)
    rw [if_neg hj]
    refine ⟨?_, hjoined⟩
    have hmarked := (ensureRecovered_returned (m.getRecoveryState serverId).2 serverId now logs).2 (Or.inr (hq 0))
    unfold rejoinCluster
    dsimp only
    rw [if_pos hmarked, hq 1, hq 2]
    rfl

theorem receiveSyncUpdates_notices {serverId : ι} {updates : List SeatState} {now : Time} {logs : ℕ → Bool}
    (hq : ∀ n, logs n = true) : (m.receiveSyncUpdates serverId updates now logs).1.notices =
      (m.ensureJoined serverId now logs).1.notices ++
        updates.flatMap (fun seat => m.syncCallbacks.map (RecoveryNotice.sync · serverId seat)) := by
  unfold receiveSyncUpdates
  dsimp only
  rw [if_pos (ensureJoined_quiet m serverId now hq).1]

/-- **What must have been announced before**: of a seat, that the server joined; of a join, that it recovered. -/
def Due (callbacks : List κ × List κ × List κ) (before : List (RecoveryNotice ι κ)) : RecoveryNotice ι κ → Prop
  | .recovery _ _ => True
  | .join _ i => ∀ r ∈ callbacks.1, RecoveryNotice.recovery r i ∈ before
  | .sync _ i _ => ∀ j ∈ callbacks.2.1, RecoveryNotice.join j i ∈ before

omit [DecidableEq ι] in
theorem Due.append {callbacks : List κ × List κ × List κ} {before : List (RecoveryNotice ι κ)}
    {n : RecoveryNotice ι κ} (h : Due callbacks before n) (more : List (RecoveryNotice ι κ)) :
    Due callbacks (before ++ more) n := by
  cases n with
  | recovery r i => trivial
  | join j i => exact fun r hr => List.mem_append_left more (h r hr)
  | sync k i seat => exact fun j hj => List.mem_append_left more (h j hj)

/-- The callbacks are registered still, all announced so far was due, and the flags raised have been announced. -/
structure Announced (callbacks : List κ × List κ × List κ) (m : RecoveryManager ι κ)
    (before : List (RecoveryNotice ι κ)) : Prop where
  recoveries : callbacks.1 ⊆ m.callbacks.1
  joins : callbacks.2.1 ⊆ m.callbacks.2.1
  recovered : ∀ i, (m.stateOf i).recovered = true → ∀ r ∈ callbacks.1, RecoveryNotice.recovery r i ∈ before
  joined : ∀ i, (m.stateOf i).joinedCluster = true → ∀ j ∈ callbacks.2.1, RecoveryNotice.join j i ∈ before
  due : Runs.Justified (Due callbacks) before

namespace Announced

variable {callbacks : List κ × List κ × List κ} {before : List (RecoveryNotice ι κ)} {serverId : ι} {now : Time}
  {logs : ℕ → Bool}

/-- Flags are raised with their announcement. -/
theorem extend (h : Announced callbacks m before) (m' : RecoveryManager ι κ) (hc : m'.callbacks = m.callbacks)
    (more : List (RecoveryNotice ι κ))
    (hr : ∀ i, (m'.stateOf i).recovered = true →
      (m.stateOf i).recovered = true ∨ ∀ r ∈ callbacks.1, RecoveryNotice.recovery r i ∈ more)
    (hj : ∀ i, (m'.stateOf i).joinedCluster = true →
      (m.stateOf i).joinedCluster = true ∨ ∀ j ∈ callbacks.2.1, RecoveryNotice.join j i ∈ more)
    (hdue : ∀ n ∈ more, Due callbacks before n) : Announced callbacks m' (before ++ more) where
  recoveries := hc ▸ h.recoveries
  joins := hc ▸ h.joins
  recovered i hi r hmem := (hr i hi).elim (fun ho => List.mem_append_left _ (h.recovered i ho r hmem))
    fun hn => List.mem_append_right _ (hn r hmem)
  joined i hi j hmem := (hj i hi).elim (fun ho => List.mem_append_left _ (h.joined i ho j hmem))
    fun hn => List.mem_append_right _ (hn j hmem)
  due := h.due.append_of_forall (fun _ _ more hd => hd.append more) hdue

/-- Nothing need be announced when no flag is raised. -/
theorem same (h : Announced callbacks m before) {m' : RecoveryManager ι κ} (hc : m'.callbacks = m.callbacks)
    (hs : ∀ i, m'.stateOf i = m.stateOf i) : Announced callbacks m' before := by
  have he := h.extend m' hc [] (fun i hi => Or.inl (hs i ▸ hi)) (fun i hi => Or.inl (hs i ▸ hi)) fun n hn => nomatch hn
  rwa [List.append_nil] at he

theorem getRecoveryState (h : Announced callbacks m before) :
    Announced callbacks (m.getRecoveryState serverId).2 before :=
  h.same getRecoveryState_frame.2 fun _ => getRecoveryState_stateOf

theorem markRecovered (h : Announced callbacks m before) (hq : ∀ n, logs n = true) (reason : String) :
    Announced callbacks (m.markRecovered serverId reason now logs).2
      (before ++ (m.markRecovered serverId reason now logs).1.notices) := by
  have hn : (m.markRecovered serverId reason now logs).1.notices =
      m.recoveryCallbacks.map (RecoveryNotice.recovery · serverId) := by
    unfold RecoveryManager.markRecovered
    dsimp only
    rw [if_pos (hq 0)]
  rw [hn]
  refine h.extend _ (markRecovered_frame _ _ _).2 _ (fun i hi => ?_) (fun i hi => Or.inl ?_) fun n hm => ?_
  · rw [markRecovered_stateOf] at hi
    split at hi
    · rename_i hs
      subst hs
      exact Or.inr fun r hr => List.mem_map_of_mem (h.recoveries hr)
    · exact Or.inl hi
  · rw [markRecovered_stateOf] at hi
    split at hi
    · rename_i hs
      rw [hs]
      exact hi
    · exact hi
  · obtain ⟨r, -, rfl⟩ := List.mem_map.1 hm
    trivial

theorem ensureRecovered (h : Announced callbacks m before) (serverId : ι) (now : Time) (hq : ∀ n, logs n = true) :
    Announced callbacks (m.ensureRecovered serverId now logs).2
      (before ++ (m.ensureRecovered serverId now logs).1.notices) := by
  unfold RecoveryManager.ensureRecovered
  dsimp only
  split
  · rw [List.append_nil]
    exact h.getRecoveryState
  · exact h.getRecoveryState.markRecovered hq "rejoin requested"

/-- **A server that has recovered is announced to join.** -/
theorem rejoinCluster (h : Announced callbacks m before) (hq : ∀ n, logs n = true) (peerIds : List ι) :
    Announced callbacks (m.rejoinCluster serverId peerIds now logs).2
      (before ++ (m.rejoinCluster serverId peerIds now logs).1.notices) := by
  have hmarked := h.ensureRecovered serverId now hq
  have hreturned := (ensureRecovered_returned m serverId now logs).2 (Or.inr (hq 0))
  have hrecovered := (ensureRecovered_recovered m serverId serverId now logs).2 (Or.inr rfl)
  have hsome := ensureRecovered_isSome m serverId now logs
  unfold RecoveryManager.rejoinCluster
  generalize m.ensureRecovered serverId now logs = marked at *
  have hmod := fun i => modify_stateOf (i := i) (f := fun state => { state with joinedCluster := true }) hsome
  have hlogged : (logs 1 && (peerIds.isEmpty || logs 2)) = true := by rw [hq 1, hq 2, Bool.or_true]; rfl
  dsimp only
  rw [if_pos hreturned, if_pos hlogged, ← List.append_assoc]
  refine hmarked.extend { marked.2 with
      states := marked.2.states.modify serverId (fun state => { state with joinedCluster := true })
      clusterMembers := insert serverId marked.2.clusterMembers } rfl _ (fun i hi => Or.inl ?_) (fun i hi => ?_)
    fun n hm => ?_
  · unfold stateOf at hi hmod ⊢
    dsimp only at hi
    rw [hmod] at hi
    split at hi
    · rename_i hs
      rw [hs]
      exact hi
    · exact hi
  · unfold stateOf at hi hmod ⊢
    dsimp only at hi
    rw [hmod] at hi
    split at hi
    · rename_i hs
      subst hs
      exact Or.inr fun j hj => List.mem_map_of_mem (h.joins hj)
    · exact Or.inl hi
  · obtain ⟨j, -, rfl⟩ := List.mem_map.1 hm
    exact hmarked.recovered serverId hrecovered

theorem ensureJoined (h : Announced callbacks m before) (serverId : ι) (now : Time) (hq : ∀ n, logs n = true) :
    Announced callbacks (m.ensureJoined serverId now logs).2
      (before ++ (m.ensureJoined serverId now logs).1.notices) := by
  unfold RecoveryManager.ensureJoined
  dsimp only
  split
  · rw [List.append_nil]
    exact h.getRecoveryState
  · exact h.getRecoveryState.rejoinCluster hq []

/-- **A server that has joined is handed the seats.** -/
theorem receiveSyncUpdates (h : Announced callbacks m before) (hq : ∀ n, logs n = true) (updates : List SeatState) :
    Announced callbacks (m.receiveSyncUpdates serverId updates now logs).2
      (before ++ (m.receiveSyncUpdates serverId updates now logs).1.notices) := by
  have hensured := h.ensureJoined serverId now hq
  have hjoined := (ensureJoined_quiet m serverId now hq).2
  rw [receiveSyncUpdates_notices hq, ← List.append_assoc, receiveSyncUpdates_snd]
  refine hensured.extend _ rfl _ (fun i hi => Or.inl hi) (fun i hi => Or.inl hi) fun n hm => ?_
  obtain ⟨seat, -, hn⟩ := List.mem_flatMap.1 hm
  obtain ⟨k, -, rfl⟩ := List.mem_map.1 hn
  exact hensured.joined serverId hjoined

theorem step {c : RecoveryCall ι κ} (h : Announced callbacks m before) (hq : c.Quiet) :
    Announced callbacks (RecoveryManager.step m c).2 (before ++ (RecoveryManager.step m c).1.notices) := by
  cases c with
  | registerRecoveryCallback callback =>
    rw [show (RecoveryManager.step m _).1.notices = [] from rfl, List.append_nil]
    exact ⟨fun r hr => List.mem_append_left _ (h.recoveries hr), h.joins, h.recovered, h.joined, h.due⟩
  | registerJoinCallback callback =>
    rw [show (RecoveryManager.step m _).1.notices = [] from rfl, List.append_nil]
    exact ⟨h.recoveries, fun j hj => List.mem_append_left _ (h.joins hj), h.recovered, h.joined, h.due⟩
  | registerSyncCallback callback =>
    rw [show (RecoveryManager.step m _).1.notices = [] from rfl, List.append_nil]
    exact ⟨h.recoveries, h.joins, h.recovered, h.joined, h.due⟩
  | markRecovered serverId reason now logs => exact h.markRecovered hq reason
  | rejoinCluster serverId peerIds now logs => exact h.rejoinCluster hq peerIds
  | receiveSyncUpdates serverId updates now logs => exact h.receiveSyncUpdates hq updates
  | getRecoveryState serverId =>
    rw [show (RecoveryManager.step m _).1.notices = [] from rfl, List.append_nil]
    exact h.getRecoveryState

end Announced

theorem ensureJoined_callbacks {serverId : ι} {now : Time} {logs : ℕ → Bool} :
    (m.ensureJoined serverId now logs).2.callbacks = m.callbacks := by
  unfold ensureJoined
  dsimp only
  split
  · exact getRecoveryState_frame.2
  · exact (rejoinCluster_callbacks _ _ _).trans getRecoveryState_frame.2

theorem announced_run (callbacks : List κ × List κ × List κ) {cs : List (RecoveryCall ι κ)}
    (hq : ∀ c ∈ cs, c.Quiet) :
    Announced callbacks (Runs.run step (starting callbacks) cs) ((starting callbacks).told cs) := by
  induction cs using List.reverseRecOn with
  | nil => exact ⟨fun _ h => h, fun _ h => h, fun _ h => absurd h Bool.false_ne_true,
      fun _ h => absurd h Bool.false_ne_true, Runs.justified_nil _⟩
  | append_singleton cs c ih =>
    have hcs := ih fun c' h => hq c' (List.mem_append_left _ h)
    unfold told at hcs ⊢
    rw [Runs.run_snoc, Runs.flatMap_trace_snoc]
    exact hcs.step (hq c (List.mem_append_right _ List.mem_cons_self))

/-! ## Callbacks for seats only -/

section

variable {serverId : ι} {now : Time} {logs : ℕ → Bool}

theorem markRecovered_silent (hr : m.callbacks.1 = []) (reason : String) :
    (m.markRecovered serverId reason now logs).1.notices = [] := by
  unfold markRecovered
  dsimp only
  split
  · exact List.map_eq_nil_iff.2 hr
  · rfl

theorem ensureRecovered_silent (hr : m.callbacks.1 = []) : (m.ensureRecovered serverId now logs).1.notices = [] := by
  unfold ensureRecovered
  dsimp only
  split
  · rfl
  · exact markRecovered_silent (by rw [getRecoveryState_frame.2, hr]) _

theorem rejoinCluster_silent (hr : m.callbacks.1 = []) (hj : m.callbacks.2.1 = []) (peerIds : List ι) :
    (m.rejoinCluster serverId peerIds now logs).1.notices = [] := by
  have hjoins : m.joinCallbacks = [] := hj
  unfold rejoinCluster
  dsimp only
  split
  · rw [ensureRecovered_silent hr, hjoins]
    split <;> rfl
  · exact ensureRecovered_silent hr

theorem ensureJoined_silent (hr : m.callbacks.1 = []) (hj : m.callbacks.2.1 = []) :
    (m.ensureJoined serverId now logs).1.notices = [] := by
  unfold ensureJoined
  dsimp only
  split
  · rfl
  · exact rejoinCluster_silent (by rw [getRecoveryState_frame.2, hr]) (by rw [getRecoveryState_frame.2, hj]) []

/-- **Where only callbacks for seats are registered**, nothing else is announced. -/
theorem receiveSyncUpdates_silent (hr : m.callbacks.1 = []) (hj : m.callbacks.2.1 = []) (hq : ∀ n, logs n = true)
    (updates : List SeatState) : (m.receiveSyncUpdates serverId updates now logs).1.notices =
      updates.flatMap (fun seat => m.syncCallbacks.map (RecoveryNotice.sync · serverId seat)) := by
  rw [receiveSyncUpdates_notices hq, ensureJoined_silent hr hj, List.nil_append]

end

/-! ## The seats handed over -/

variable [DecidableEq κ] {k : κ} {serverId : ι} {now : Time} {logs : ℕ → Bool}

theorem markRecovered_synced (reason : String) :
    (m.markRecovered serverId reason now logs).1.notices.filterMap (RecoveryNotice.synced k i) = [] := by
  refine List.filterMap_eq_nil_iff.2 fun n hn => ?_
  unfold markRecovered at hn
  dsimp only at hn
  split at hn
  · obtain ⟨r, -, rfl⟩ := List.mem_map.1 hn
    rfl
  · cases hn

theorem ensureRecovered_synced (m : RecoveryManager ι κ) (serverId i : ι) (k : κ) (now : Time) (logs : ℕ → Bool) :
    (m.ensureRecovered serverId now logs).1.notices.filterMap (RecoveryNotice.synced k i) = [] := by
  unfold ensureRecovered
  dsimp only
  split
  · rfl
  · exact markRecovered_synced _

theorem rejoinCluster_synced (peerIds : List ι) :
    (m.rejoinCluster serverId peerIds now logs).1.notices.filterMap (RecoveryNotice.synced k i) = [] := by
  have hmarked := ensureRecovered_synced m serverId i k now logs
  unfold rejoinCluster
  dsimp only
  split
  · rw [List.filterMap_append, hmarked, List.nil_append]
    refine List.filterMap_eq_nil_iff.2 fun n hn => ?_
    split at hn
    · obtain ⟨j, -, rfl⟩ := List.mem_map.1 hn
      rfl
    · cases hn
  · exact hmarked

theorem ensureJoined_synced :
    (m.ensureJoined serverId now logs).1.notices.filterMap (RecoveryNotice.synced k i) = [] := by
  unfold ensureJoined
  dsimp only
  split
  · rfl
  · exact rejoinCluster_synced []

/-- A callback is handed a seat as often as it was registered. -/
theorem filterMap_sync (seat : SeatState) : ∀ callbacks : List κ,
    (callbacks.map (RecoveryNotice.sync · serverId seat)).filterMap (RecoveryNotice.synced k i) =
      if i = serverId then List.replicate (callbacks.count k) seat else []
  | [] => by simp
  | callback :: callbacks => by
    rw [List.map_cons, List.filterMap_cons, filterMap_sync seat callbacks, List.count_cons]
    unfold RecoveryNotice.synced
    by_cases hk : callback = k <;> by_cases hi : i = serverId <;> simp [hk, hi, List.replicate_succ]

theorem step_synced {c : RecoveryCall ι κ} (hq : c.Quiet) :
    (step m c).1.notices.filterMap (RecoveryNotice.synced k i) =
      (c.updates i).flatMap (List.replicate (m.callbacks.2.2.count k)) := by
  cases c with
  | markRecovered serverId reason now logs => exact markRecovered_synced reason
  | rejoinCluster serverId peerIds now logs => exact rejoinCluster_synced peerIds
  | receiveSyncUpdates serverId updates now logs =>
    simp only [step, RecoveryCall.updates]
    rw [receiveSyncUpdates_notices hq, List.filterMap_append, ensureJoined_synced, List.nil_append,
      List.filterMap_flatMap]
    simp only [filterMap_sync]
    by_cases hi : i = serverId
    · simp only [if_pos hi]
      rfl
    · simp only [if_neg hi, List.flatMap_nil]
      exact List.flatMap_eq_nil_iff.2 fun seat _ => rfl
  | _ => rfl

/-- Only a registration changes how often a callback is registered for seats. -/
theorem step_count (c : RecoveryCall ι κ) :
    (step m c).2.callbacks.2.2.count k = m.callbacks.2.2.count k + c.registers k := by
  have hsame : ∀ {m' : RecoveryManager ι κ}, m'.callbacks = m.callbacks →
      m'.callbacks.2.2.count k = m.callbacks.2.2.count k + 0 := fun h => by rw [h, Nat.add_zero]
  cases c with
  | registerSyncCallback callback =>
    show (m.syncCallbacks ++ [callback]).count k = m.syncCallbacks.count k + if callback = k then 1 else 0
    rw [List.count_append, List.count_singleton]
    simp only [beq_iff_eq]
  | registerRecoveryCallback callback => rfl
  | registerJoinCallback callback => rfl
  | markRecovered serverId reason now logs => exact hsame (markRecovered_frame reason now logs).2
  | rejoinCluster serverId peerIds now logs => exact hsame (rejoinCluster_callbacks peerIds now logs)
  | receiveSyncUpdates serverId updates now logs =>
    simp only [step, receiveSyncUpdates_snd]
    exact hsame ensureJoined_callbacks
  | getRecoveryState serverId => exact hsame getRecoveryState_frame.2

/-- The seats of a server handed to a callback that has been registered `n` times: those of each call, in order, each as
often as the callback is registered by then. -/
def handed (k : κ) (i : ι) : ℕ → List (RecoveryCall ι κ) → List SeatState
  | _, [] => []
  | n, c :: cs => (c.updates i).flatMap (List.replicate n) ++ handed k i (n + c.registers k) cs

theorem told_synced {m : RecoveryManager ι κ} {cs : List (RecoveryCall ι κ)} (hq : ∀ c ∈ cs, c.Quiet) :
    (m.told cs).filterMap (RecoveryNotice.synced k i) = handed k i (m.callbacks.2.2.count k) cs := by
  induction cs generalizing m with
  | nil => rfl
  | cons c cs ih =>
    have hrest := ih (m := (step m c).2) fun c' h => hq c' (List.mem_cons_of_mem c h)
    rw [step_count c] at hrest
    rw [handed, ← step_synced (hq c List.mem_cons_self), ← hrest]
    exact List.filterMap_append

/-- **What the callbacks are told.**  Along a run whose logger returns, a server is handed a seat only after every
callback registered for joins was told that it joined, and they are told so only after every callback registered for
recoveries was told that it recovered; and a callback is handed the seats of each server in the order of the calls,
each as often as it is registered by then. -/
theorem announced (callbacks : List κ × List κ × List κ) (cs : List (RecoveryCall ι κ)) (hq : ∀ c ∈ cs, c.Quiet) :
    (∀ pre k i seat post, (starting callbacks).told cs = pre ++ RecoveryNotice.sync k i seat :: post →
      ∀ j ∈ callbacks.2.1, RecoveryNotice.join j i ∈ pre) ∧
    (∀ pre j i post, (starting callbacks).told cs = pre ++ RecoveryNotice.join j i :: post →
      ∀ r ∈ callbacks.1, RecoveryNotice.recovery r i ∈ pre) ∧
    ∀ k i, ((starting callbacks).told cs).filterMap (RecoveryNotice.synced k i) =
      handed k i (callbacks.2.2.count k) cs := by
  have hdue := (announced_run callbacks hq).due
  exact ⟨fun pre k i seat post h => hdue pre _ post h, fun pre j i post h => hdue pre _ post h,
    fun k i => told_synced hq⟩

/-- A seat for a server never heard of, and another once the callback is registered a second time. -/
def twoHandedOver : List (RecoveryCall ℕ ℕ) :=
  [.receiveSyncUpdates 7 [⟨1, .locked, 0, "Ann", 21⟩] 0 (fun _ => true), .registerSyncCallback 2,
    .receiveSyncUpdates 7 [⟨1, .reserved, 1, "Ann", 22⟩] 1 (fun _ => true)]

theorem announced_handed :
    RecoveryNotice.join 1 7 ∈ [RecoveryNotice.recovery 0 7, (RecoveryNotice.join 1 7 : RecoveryNotice ℕ ℕ)] ∧
    ((starting ([0], [1], [2]) : RecoveryManager ℕ ℕ).told twoHandedOver).filterMap (RecoveryNotice.synced 2 7) =
      [⟨1, .locked, 0, "Ann", 21⟩, ⟨1, .reserved, 1, "Ann", 22⟩, ⟨1, .reserved, 1, "Ann", 22⟩] := by
  have hquiet : ∀ c ∈ twoHandedOver, c.Quiet :=
    List.forall_mem_cons.2 ⟨fun n => rfl, List.forall_mem_cons.2 ⟨trivial, List.forall_mem_singleton.2 fun n => rfl⟩⟩
  obtain ⟨hjoined, -, hhanded⟩ := announced ([0], [1], [2]) twoHandedOver hquiet
  refine ⟨?_, (hhanded 2 7).trans (by decide)⟩
  exact hjoined [RecoveryNotice.recovery 0 7, RecoveryNotice.join 1 7] 2 7 ⟨1, .locked, 0, "Ann", 21⟩
    [RecoveryNotice.sync 2 7 ⟨1, .reserved, 1, "Ann", 22⟩, RecoveryNotice.sync 2 7 ⟨1, .reserved, 1, "Ann", 22⟩]
    (by decide) 1 (by decide)

end RecoveryManager
end Ticket
