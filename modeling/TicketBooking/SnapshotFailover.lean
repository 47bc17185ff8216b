import TicketBooking.Failover
import TicketBooking.Heartbeat
/-!
# SnapshotFailover — a heartbeat snapshot never reaches the failover manager

`update_from_heartbeat_snapshot` would make one health update for each entry of a snapshot (`applySnapshot`), but its
first statement reads the clock through the name `time`, which `failover_manager.py` does not import.  So the call does
what it is for exactly in a module that has the name (`drives_iff`), and in this one it raises, whatever the snapshot,
and the manager stays as it was (`snapshot_never_drives`).
-/
namespace Ticket
namespace FailoverManager

variable {ι : Type} [DecidableEq ι]

/-- The names `failover_manager.py` has at its top level: its imports and its classes. -/
def moduleNames : List String :=
  ["annotations", "dataclass", "field", "Lock", "Callable", "Dict", "Iterable", "List", "Optional", "ServerMetrics",
    "ServerFailoverState", "FailoverManager", "__all__"]

/-- `time.time()` in a module with the given names: no built-in is called `time`. -/
def readTime (names : List String) (now : Time) : Except String Time :=
  if "time" ∈ names then .ok now else .error "name 'time' is not defined"

/-- One turn of the loop: the callbacks run so far, with their server, and the manager. -/
def applyEntry (now : Time) (acc : List (FailoverCallback × ι) × FailoverManager ι) (entry : ι × HeartbeatStatus) :
    List (FailoverCallback × ι) × FailoverManager ι :=
  -- no entry of a snapshot has a reason
  let r := acc.2.updateHealth entry.1 entry.2.isAlive now "heartbeat"
  (acc.1 ++ r.1.toList.map (fun callback => (callback, entry.1)), r.2)

/-- The loop of `update_from_heartbeat_snapshot`: one `update_health` call for each entry. -/
def applySnapshot (f : FailoverManager ι) (snapshot : Dict ι HeartbeatStatus) (now : Time) :
    List (FailoverCallback × ι) × FailoverManager ι :=
  snapshot.items.foldl (applyEntry now) ([], f)

/-- `update_from_heartbeat_snapshot`, in a module with the given names. -/
def updateFromHeartbeatSnapshot (names : List String) (f : FailoverManager ι) (snapshot : Dict ι HeartbeatStatus)
    (now : Time) : Except String (List (FailoverCallback × ι)) × FailoverManager ι :=
  match readTime names now with
  | .error e => (.error e, f)
  | .ok now => (.ok (f.applySnapshot snapshot now).1, (f.applySnapshot snapshot now).2)

/-- **The snapshot drives the manager**: the call completes, with the state and the callbacks of one health update for
each entry, healthy as the entry is alive. -/
def Drives (names : List String) (f : FailoverManager ι) (snapshot : Dict ι HeartbeatStatus) (now : Time) : Prop :=
  f.updateFromHeartbeatSnapshot names snapshot now =
    (.ok (f.applySnapshot snapshot now).1, (f.applySnapshot snapshot now).2)

theorem drives_iff (names : List String) (f : FailoverManager ι) (snapshot : Dict ι HeartbeatStatus) (now : Time) :
    Drives names f snapshot now ↔ "time" ∈ names := by
  unfold Drives updateFromHeartbeatSnapshot readTime
  by_cases ht : "time" ∈ names
  · rw [if_pos ht]
    exact iff_of_true rfl ht
  · rw [if_neg ht]
    exact iff_of_false (fun h => (nomatch congrArg Prod.fst h)) ht

theorem updateFromHeartbeatSnapshot_raises (f : FailoverManager ι) (snapshot : Dict ι HeartbeatStatus) (now : Time) :
    f.updateFromHeartbeatSnapshot moduleNames snapshot now = (.error "name 'time' is not defined", f) := rfl

/-- The manager after a run of snapshots, each with the reading of its call. -/
def afterSnapshots (f : FailoverManager ι) (snapshots : List (Dict ι HeartbeatStatus × Time)) : FailoverManager ι :=
  snapshots.foldl (fun f s => (f.updateFromHeartbeatSnapshot moduleNames s.1 s.2).2) f

theorem afterSnapshots_eq (f : FailoverManager ι) : ∀ snapshots : List (Dict ι HeartbeatStatus × Time),
    f.afterSnapshots snapshots = f
  | [] => rfl
  | _ :: snapshots => afterSnapshots_eq f snapshots

/-- **No snapshot drives the manager.**  Every call raises, with whatever snapshot and in whatever state, and after any
run of snapshots the manager finds the same servers healthy as before. -/
theorem snapshot_never_drives (f : FailoverManager ι) :
    (∀ snapshot now, ¬ Drives moduleNames f snapshot now ∧
      f.updateFromHeartbeatSnapshot moduleNames snapshot now = (.error "name 'time' is not defined", f)) ∧
    ∀ snapshots metrics, (f.afterSnapshots snapshots).getHealthyServers metrics = f.getHealthyServers metrics ∧
      (f.afterSnapshots snapshots).chooseFailoverTarget metrics = f.chooseFailoverTarget metrics := by
  refine ⟨fun snapshot now => ⟨fun h => ?_, updateFromHeartbeatSnapshot_raises f snapshot now⟩, ?_⟩
  · exact absurd ((drives_iff moduleNames f snapshot now).1 h) (by decide)
  · intro snapshots metrics
    rw [afterSnapshots_eq]
    exact ⟨rfl, rfl⟩

/-- The snapshot of a monitor whose only server has been silent for 20 seconds. -/
def silentSnapshot : Dict ℕ HeartbeatStatus :=
  (((HeartbeatMonitor.new 5 15).recordHeartbeat 1 none 0).getAllServerStatus (fun _ => 20)).1

/-- **The server is down in two snapshots and still the failover target.** -/
theorem silentSnapshot_ignored : (silentSnapshot.get? 1).map HeartbeatStatus.isAlive = some false ∧
    ¬ Drives moduleNames (new 2 2) silentSnapshot 20 ∧
    ((new 2 2).afterSnapshots [(silentSnapshot, 20), (silentSnapshot, 25)]).chooseFailoverTarget
      [.idle 1 .online] = some 1 := by
  have hdown : (silentSnapshot.get? 1).map HeartbeatStatus.isAlive = some false := by decide +kernel
  have htarget : ((new 2 2).afterSnapshots [(silentSnapshot, 20), (silentSnapshot, 25)]).chooseFailoverTarget
      [.idle 1 .online] = some 1 := by decide +kernel
  exact ⟨hdown, fun h => absurd ((drives_iff moduleNames (new 2 2) silentSnapshot 20).1 h) (by decide), htarget⟩

end FailoverManager
end Ticket
