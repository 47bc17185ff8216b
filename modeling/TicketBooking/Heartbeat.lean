import Mathlib.Data.List.Induction
import TicketBooking.Lease
/-!
# Heartbeat — the heartbeat monitor (`monitoring/heartbeat.py`)

`HeartbeatMonitor` keeps the last heartbeat of each server and whether it took the server for alive when it last looked.
Three pieces of code write that status: a heartbeat, `checkServerHealth`, and the refresh of `getAllServerStatus`; the
first two call the registered callback when it changes.  Clock readings are arguments, in the order the code takes them.
-/
namespace Ticket

structure HeartbeatMonitor (ι : Type) where
  heartbeatInterval : Time
  timeout : Time
  /-- the time of each server's last heartbeat -/
  heartbeats : Dict ι Time
  serverStatus : Dict ι Bool
  /-- the calls made of a callback registered from the start, latest last -/
  notified : List (ι × Bool)

/-- What the monitor says of one server. -/
structure HeartbeatStatus where
  isAlive : Bool
  /-- the time whose text the code returns -/
  lastHeartbeat : Option Time
  timeSinceHeartbeatMs : Option ℤ
  deriving DecidableEq

/-- Python's `int` of a number, which drops its fraction. -/
def pyInt (x : ℚ) : ℤ := if 0 ≤ x then x.floor else x.ceil

namespace HeartbeatMonitor

variable {ι : Type} [DecidableEq ι]

def new (heartbeatIntervalSec timeoutSec : Time) : HeartbeatMonitor ι :=
  ⟨heartbeatIntervalSec, timeoutSec, Dict.empty, Dict.empty, []⟩

/-- `record_heartbeat`: without a `timestamp`, the reading taken under the lock. -/
def recordHeartbeat (m : HeartbeatMonitor ι) (serverId : ι) (timestamp : Option Time) (now : Time) :
    HeartbeatMonitor ι :=
  let wasDown := (m.serverStatus.get? serverId).getD false = false
  { m with
    heartbeats := m.heartbeats.set serverId (timestamp.getD now)
    serverStatus := m.serverStatus.set serverId true
    notified := if wasDown then m.notified ++ [(serverId, true)] else m.notified }

/-- A heartbeat at `timestamp` is not too old. -/
def fresh (m : HeartbeatMonitor ι) (timestamp now : Time) : Bool := decide (now - timestamp ≤ m.timeout)

/-- One turn of the loop of `check_server_health`. -/
def checkOne (now : Time) (m : HeartbeatMonitor ι) (entry : ι × Time) : HeartbeatMonitor ι :=
  let isAlive := m.fresh entry.2 now
  let wasAlive := (m.serverStatus.get? entry.1).getD true
  { m with
    serverStatus := m.serverStatus.set entry.1 isAlive
    notified := if wasAlive = true ∧ isAlive = false then m.notified ++ [(entry.1, false)] else m.notified }

/-- The dictionary the two loops collect. -/
def updatedStatus (m : HeartbeatMonitor ι) (now : Time) : Dict ι Bool :=
  m.heartbeats.items.foldl (fun d entry => d.set entry.1 (m.fresh entry.2 now)) Dict.empty

def checkServerHealth (m : HeartbeatMonitor ι) (now : Time) : Dict ι Bool × HeartbeatMonitor ι :=
  (m.updatedStatus now, m.heartbeats.items.foldl (checkOne now) m)

def refreshServerHealthLocked (m : HeartbeatMonitor ι) (now : Time) : Dict ι Bool × HeartbeatMonitor ι :=
  (m.updatedStatus now,
    { m with
      serverStatus := m.heartbeats.items.foldl (fun d entry => d.set entry.1 (m.fresh entry.2 now)) m.serverStatus })

def statusFromHeartbeat (m : HeartbeatMonitor ι) (heartbeat : Option Time) (now : Time) : HeartbeatStatus :=
  match heartbeat with
  | none => ⟨false, none, none⟩
  | some timestamp =>
    let timeSince := (now - timestamp) * 1000
    ⟨decide (timeSince ≤ m.timeout * 1000), some timestamp, some (pyInt timeSince)⟩

/-- `is_server_alive`: the lock is taken twice. -/
def isServerAlive (m : HeartbeatMonitor ι) (serverId : ι) (now : Time) : Bool × HeartbeatMonitor ι :=
  let m := (m.checkServerHealth now).2
  ((m.serverStatus.get? serverId).getD false, m)

def getServerStatus (m : HeartbeatMonitor ι) (serverId : ι) (now : Time) : HeartbeatStatus :=
  m.statusFromHeartbeat (m.heartbeats.get? serverId) now

/-- `get_all_server_status`: one reading for the refresh, and one for each server it lists. -/
def getAllServerStatus (m : HeartbeatMonitor ι) (now : ℕ → Time) : Dict ι HeartbeatStatus × HeartbeatMonitor ι :=
  let m := (m.refreshServerHealthLocked (now 0)).2
  (m.heartbeats.items.zipIdx.foldl
    (fun d entry => d.set entry.1.1 (m.statusFromHeartbeat (some entry.1.2) (now (entry.2 + 1)))) Dict.empty, m)

def getAliveServers (m : HeartbeatMonitor ι) (now : Time) : List ι × HeartbeatMonitor ι :=
  let m := (m.checkServerHealth now).2
  ((m.serverStatus.items.filter Prod.snd).map Prod.fst, m)

def getDownServers (m : HeartbeatMonitor ι) (now : Time) : List ι × HeartbeatMonitor ι :=
  let m := (m.checkServerHealth now).2
  ((m.serverStatus.items.filter (fun entry => !entry.2)).map Prod.fst, m)

/-- The loop of `check_server_health` when a status callback may raise on some server's going down: it ends there, the
server's status set, and answers whether it came to its end. -/
def checkUntil (raises : ι → Bool) (now : Time) : List (ι × Time) → HeartbeatMonitor ι → Bool × HeartbeatMonitor ι
  | [], m => (true, m)
  | entry :: entries, m =>
    let wasAlive := (m.serverStatus.get? entry.1).getD true
    if wasAlive = true ∧ m.fresh entry.2 now = false ∧ raises entry.1 = true then (false, checkOne now m entry)
    else checkUntil raises now entries (checkOne now m entry)

/-- `check_server_health` with callbacks that may raise; nothing is returned when one does. -/
def checkServerHealthRaising (m : HeartbeatMonitor ι) (raises : ι → Bool) (now : Time) :
    Option (Dict ι Bool) × HeartbeatMonitor ι :=
  let r := checkUntil raises now m.heartbeats.items m
  (if r.1 then some (m.updatedStatus now) else none, r.2)

/-- No callback raises in a check at `now`: none does at a server that the check finds to have gone down. -/
def Returns (m : HeartbeatMonitor ι) (raises : ι → Bool) (now : Time) : Prop :=
  ∀ i t, m.heartbeats.get? i = some t → (m.serverStatus.get? i).getD true = true → m.fresh t now = false →
    raises i = false

/-- `get_down_servers` likewise. -/
def getDownServersRaising (m : HeartbeatMonitor ι) (raises : ι → Bool) (now : Time) :
    Option (List ι) × HeartbeatMonitor ι :=
  let r := m.checkServerHealthRaising raises now
  (r.1.map (fun _ => (r.2.serverStatus.items.filter (fun entry => !entry.2)).map Prod.fst), r.2)

def reset (m : HeartbeatMonitor ι) : HeartbeatMonitor ι :=
  { m with heartbeats := Dict.empty, serverStatus := Dict.empty }

/-- `get_summary`: the counts of the alive, of the down, and of all. -/
def getSummary (m : HeartbeatMonitor ι) (now : Time) : (ℕ × ℕ × ℕ) × HeartbeatMonitor ι :=
  let m := (m.checkServerHealth now).2
  ((m.serverStatus.values.countP id, m.serverStatus.values.countP (fun s => !s), m.serverStatus.values.length), m)

/-! ## What each call does to the status and the notifications of one server -/

def story (m : HeartbeatMonitor ι) (i : ι) : List Bool :=
  (m.notified.filter (fun n => decide (n.1 = i))).map Prod.snd

variable {m : HeartbeatMonitor ι} {i : ι}

theorem record_status (serverId : ι) (timestamp : Option Time) (now : Time) :
    (m.recordHeartbeat serverId timestamp now).serverStatus.get? i =
      if i = serverId then some true else m.serverStatus.get? i := Dict.get?_set _ _ _ _

theorem record_heartbeats (serverId : ι) (timestamp : Option Time) (now : Time) :
    (m.recordHeartbeat serverId timestamp now).heartbeats.get? i =
      if i = serverId then some (timestamp.getD now) else m.heartbeats.get? i := Dict.get?_set _ _ _ _

theorem record_story (serverId : ι) (timestamp : Option Time) (now : Time) :
    (m.recordHeartbeat serverId timestamp now).story i =
      m.story i ++ if i = serverId ∧ m.serverStatus.get? i ≠ some true then [true] else [] := by
  unfold recordHeartbeat story
  by_cases hi : i = serverId
  · subst hi
    cases hs : m.serverStatus.get? i with
    | none => simp
    | some b => cases b <;> simp
  · dsimp only
    split
    · simp [hi, Ne.symm hi]
    · simp [hi]

@[simp] theorem refresh_status (now : Time) : (m.refreshServerHealthLocked now).2.serverStatus.get? i =
    ((m.heartbeats.get? i).map (fun t => m.fresh t now)).or (m.serverStatus.get? i) :=
  Dict.get?_foldl_set (fun t => m.fresh t now) i m.heartbeats.items m.serverStatus m.heartbeats.nodup

/-- What a turn of the loop of `check_server_health` leaves alone. -/
theorem foldl_checkOne (now : Time) : ∀ (l : List (ι × Time)) (m : HeartbeatMonitor ι),
    (l.foldl (checkOne now) m).heartbeats = m.heartbeats ∧ (l.foldl (checkOne now) m).timeout = m.timeout ∧
      (l.foldl (checkOne now) m).serverStatus =
        l.foldl (fun d entry => d.set entry.1 (m.fresh entry.2 now)) m.serverStatus
  | [], _ => ⟨rfl, rfl, rfl⟩
  | entry :: l, m => foldl_checkOne now l (checkOne now m entry)

theorem check_heartbeats (now : Time) : (m.checkServerHealth now).2.heartbeats = m.heartbeats :=
  (foldl_checkOne now _ m).1

theorem check_timeout (now : Time) : (m.checkServerHealth now).2.timeout = m.timeout := (foldl_checkOne now _ m).2.1

/-- **A check sets every status as the refresh does.** -/
theorem check_status (now : Time) :
    (m.checkServerHealth now).2.serverStatus = (m.refreshServerHealthLocked now).2.serverStatus :=
  (foldl_checkOne now _ m).2.2

theorem checkOne_story (now : Time) (m : HeartbeatMonitor ι) (entry : ι × Time) (i : ι) :
    (checkOne now m entry).story i = m.story i ++
      if i = entry.1 ∧ (m.serverStatus.get? i).getD true = true ∧ m.fresh entry.2 now = false then [false] else [] := by
  unfold checkOne story
  by_cases hi : i = entry.1
  · subst hi
    dsimp only
    split
    · rename_i hc
      simp [hc.1, hc.2]
    · rename_i hc
      rw [if_neg fun h => hc h.2, List.append_nil]
  · dsimp only
    split
    · simp [hi, Ne.symm hi]
    · simp [hi]

theorem foldl_checkOne_story (now : Time) (i : ι) : ∀ (l : List (ι × Time)) (m : HeartbeatMonitor ι),
    (l.map Prod.fst).Nodup → (l.foldl (checkOne now) m).story i = m.story i ++
      if ∃ t, (l.find? (fun p => decide (p.1 = i))).map Prod.snd = some t ∧
        (m.serverStatus.get? i).getD true = true ∧ m.fresh t now = false then [false] else []
  | [], m, _ => by simp
  | entry :: l, m, hn => by
    rw [List.map_cons, List.nodup_cons] at hn
    rw [List.foldl_cons, foldl_checkOne_story now i l _ hn.2, checkOne_story]
    by_cases hi : entry.1 = i
    · subst hi
      simp [Dict.find?_of_notMem hn.1]
    · have hstatus : (checkOne now m entry).serverStatus.get? i = m.serverStatus.get? i :=
        Dict.get?_set_of_ne _ _ (Ne.symm hi)
      rw [if_neg fun h => hi h.1.symm, List.append_nil, hstatus, List.find?_cons_of_neg (by simpa using hi)]
      rfl

/-- **A check reports each server it finds to have expired.** -/
theorem check_story (now : Time) : (m.checkServerHealth now).2.story i = m.story i ++
    if ∃ t, m.heartbeats.get? i = some t ∧ (m.serverStatus.get? i).getD true = true ∧ m.fresh t now = false
    then [false] else [] := foldl_checkOne_story now i m.heartbeats.items m m.heartbeats.nodup

/-! ## Callbacks that raise -/

/-- **A loop that is ended early has done the turns up to there.** -/
theorem checkUntil_eq (raises : ι → Bool) (now : Time) : ∀ (l : List (ι × Time)) (m : HeartbeatMonitor ι),
    ∃ n, (checkUntil raises now l m).2 = (l.take n).foldl (checkOne now) m ∧
      ((checkUntil raises now l m).1 = true → l.take n = l)
  | [], _ => ⟨0, rfl, fun _ => rfl⟩
  | entry :: l, m => by
    unfold checkUntil
    dsimp only
    split
    · exact ⟨1, rfl, fun h => nomatch h⟩
    · obtain ⟨n, hn, hall⟩ := checkUntil_eq raises now l (checkOne now m entry)
      refine ⟨n + 1, hn, fun h => ?_⟩
      rw [List.take_succ_cons, hall h]

theorem checkUntil_returns_iff (raises : ι → Bool) (now : Time) : ∀ (l : List (ι × Time)) (m : HeartbeatMonitor ι),
    (l.map Prod.fst).Nodup → ((checkUntil raises now l m).1 = true ↔ ∀ entry ∈ l,
      (m.serverStatus.get? entry.1).getD true = true → m.fresh entry.2 now = false → raises entry.1 = false)
  | [], _, _ => iff_of_true rfl fun _ h => nomatch h
  | entry :: l, m, hn => by
    obtain ⟨hnew, hn⟩ := List.nodup_cons.1 hn
    have hstatus : ∀ p ∈ l, (checkOne now m entry).serverStatus.get? p.1 = m.serverStatus.get? p.1 := fun p hp =>
      Dict.get?_set_of_ne _ _ fun he => hnew (List.mem_map.2 ⟨p, hp, he⟩)
    have hrest := checkUntil_returns_iff raises now l (checkOne now m entry) hn
    unfold checkUntil
    dsimp only
    rw [List.forall_mem_cons]
    split
    · rename_i hc
      exact iff_of_false Bool.false_ne_true fun h => absurd (h.1 hc.1 hc.2.1) (by simp [hc.2.2])
    · rename_i hc
      rw [hrest]
      constructor
      · refine fun h => ⟨fun hup hold => ?_, fun p hp hup => h p hp (by rw [hstatus p hp]; exact hup)⟩
        exact Bool.eq_false_iff.2 fun hr => hc ⟨hup, hold, hr⟩
      · exact fun h p hp hup => h.2 p hp (by rw [← hstatus p hp]; exact hup)

/-- **A check returns exactly when nobody raises in it.** -/
theorem check_returns_iff {raises : ι → Bool} {now : Time} :
    (m.checkServerHealthRaising raises now).1.isSome ↔ m.Returns raises now := by
  have hloop := checkUntil_returns_iff raises now m.heartbeats.items m m.heartbeats.nodup
  have hsome : (m.checkServerHealthRaising raises now).1.isSome ↔
      (checkUntil raises now m.heartbeats.items m).1 = true := by
    unfold checkServerHealthRaising
    dsimp only
    split <;> simp_all
  rw [hsome, hloop]
  exact ⟨fun h i t ht => h (i, t) ((Dict.get?_eq_some_iff _ _ _).1 ht),
    fun h entry he => h entry.1 entry.2 ((Dict.get?_eq_some_iff _ _ _).2 he)⟩

theorem down_returns_iff {raises : ι → Bool} {now : Time} :
    (m.getDownServersRaising raises now).1.isSome ↔ m.Returns raises now := by
  rw [← check_returns_iff]
  unfold getDownServersRaising
  rw [Option.isSome_map]

/-- A check that returns is the check nobody raises in. -/
theorem check_of_returned {raises : ι → Bool} {now : Time} {d : Dict ι Bool}
    (h : (m.checkServerHealthRaising raises now).1 = some d) :
    (m.checkServerHealthRaising raises now).2 = (m.checkServerHealth now).2 := by
  obtain ⟨n, hn, hall⟩ := checkUntil_eq raises now m.heartbeats.items m
  have hret : (checkUntil raises now m.heartbeats.items m).1 = true := by
    by_contra hne
    unfold checkServerHealthRaising at h
    dsimp only at h
    rw [if_neg hne] at h
    cases h
  rw [hall hret] at hn
  exact hn

/-- **A check leaves the heartbeats alone** and gives no status to a server without one, also when it is ended early. -/
theorem check_raising_frame (raises : ι → Bool) (now : Time) :
    (m.checkServerHealthRaising raises now).2.heartbeats = m.heartbeats ∧
      (m.checkServerHealthRaising raises now).2.timeout = m.timeout ∧
      ∀ i, ((m.checkServerHealthRaising raises now).2.serverStatus.get? i).isSome →
        (m.heartbeats.get? i).isSome ∨ (m.serverStatus.get? i).isSome := by
  obtain ⟨n, hn, -⟩ := checkUntil_eq raises now m.heartbeats.items m
  obtain ⟨hbeats, htime, hstatus⟩ := foldl_checkOne now (m.heartbeats.items.take n) m
  have he : (m.checkServerHealthRaising raises now).2 = (m.heartbeats.items.take n).foldl (checkOne now) m := hn
  rw [he]
  refine ⟨hbeats, htime, fun i hi => ?_⟩
  have hnodup : ((m.heartbeats.items.take n).map Prod.fst).Nodup :=
    ((List.take_sublist n _).map Prod.fst).nodup m.heartbeats.nodup
  rw [hstatus, Dict.get?_foldl_set (fun t => m.fresh t now) i _ _ hnodup, Option.isSome_or, Option.isSome_map,
    Option.isSome_map, Bool.or_eq_true] at hi
  refine hi.imp_left fun hfind => ?_
  obtain ⟨entry, hentry⟩ := Option.isSome_iff_exists.1 hfind
  obtain rfl : entry.1 = i := by simpa using List.find?_some hentry
  exact Option.isSome_iff_exists.2 ⟨entry.2,
    (Dict.get?_eq_some_iff _ _ _).2 (List.mem_of_mem_take (List.mem_of_find?_eq_some hentry))⟩

/-- The servers listed as down are those whose status is down, each once. -/
theorem down_of_returned {raises : ι → Bool} {now : Time} {ids : List ι}
    (h : (m.getDownServersRaising raises now).1 = some ids) :
    (m.getDownServersRaising raises now).2 = (m.checkServerHealth now).2 ∧ ids.Nodup ∧
      ∀ i, i ∈ ids ↔ (m.checkServerHealth now).2.serverStatus.get? i = some false := by
  unfold getDownServersRaising at h ⊢
  dsimp only at h ⊢
  obtain ⟨d, hd, rfl⟩ := Option.map_eq_some_iff.1 h
  rw [check_of_returned hd]
  refine ⟨rfl, ?_, fun i => ?_⟩
  · exact (List.filter_sublist.map Prod.fst).nodup (m.checkServerHealth now).2.serverStatus.nodup
  · rw [Dict.get?_eq_some_iff, List.mem_map]
    constructor
    · rintro ⟨⟨j, b⟩, hp, rfl⟩
      obtain ⟨hp, hb⟩ := List.mem_filter.1 hp
      cases b
      · exact hp
      · cases hb
    · exact fun hp => ⟨(i, false), List.mem_filter.2 ⟨hp, rfl⟩, rfl⟩

end HeartbeatMonitor
end Ticket
