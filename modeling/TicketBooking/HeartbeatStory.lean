import Mathlib.Data.List.Chain
import TicketBooking.Heartbeat
import TicketBooking.Runs
import TicketBooking.Streak
/-!
# HeartbeatStory — what the notifications tell of a server

A heartbeat and a check report every change of a server's status, so its notifications go up, down, up, and end with its
status (`Told`).  The refresh of `getAllServerStatus` changes a status and reports nothing: the story stays whole
exactly as long as no such call is the first to find a server's heartbeat too old (`story_told_iff`).
-/
namespace Ticket

open Runs

/-- A call of the monitor, with its readings. -/
inductive HeartbeatCall (ι : Type) where
  | recordHeartbeat (serverId : ι) (now : Time)
  | checkServerHealth (now : Time)
  | isServerAlive (serverId : ι) (now : Time)
  | getServerStatus (serverId : ι) (now : Time)
  | getAllServerStatus (now : ℕ → Time)
  | getAliveServers (now : Time)
  | getDownServers (now : Time)
  | getSummary (now : Time)

inductive HeartbeatAnswer (ι : Type) where
  | nothing
  | health (status : Dict ι Bool)
  | alive (isAlive : Bool)
  | status (status : HeartbeatStatus)
  | allStatus (status : Dict ι HeartbeatStatus)
  | servers (ids : List ι)
  | summary (alive down total : ℕ)

/-- The reading by which a call decides statuses. -/
def HeartbeatCall.reading {ι : Type} : HeartbeatCall ι → Option Time
  | .recordHeartbeat _ now => some now
  | .checkServerHealth now => some now
  | .isServerAlive _ now => some now
  | .getServerStatus _ _ => none
  | .getAllServerStatus now => some (now 0)
  | .getAliveServers now => some now
  | .getDownServers now => some now
  | .getSummary now => some now

/-- The notifications go up, down, up. -/
def UpDown (story : List Bool) : Prop := story.IsChain (· ≠ ·) ∧ ∀ b ∈ story.head?, b = true

instance (story : List Bool) : Decidable (UpDown story) := inferInstanceAs (Decidable (_ ∧ _))

theorem upDown_snoc {story : List Bool} {b : Bool} (h : UpDown story) (hb : story.getLast? ≠ some b)
    (hfirst : story.getLast? = none → b = true) : UpDown (story ++ [b]) := Streak.alternates_snoc h hb hfirst

namespace HeartbeatMonitor

variable {ι : Type} [DecidableEq ι]

def step (m : HeartbeatMonitor ι) (call : HeartbeatCall ι) : HeartbeatAnswer ι × HeartbeatMonitor ι :=
  match call with
  | .recordHeartbeat serverId now => (.nothing, m.recordHeartbeat serverId none now)
  | .checkServerHealth now => (.health (m.checkServerHealth now).1, (m.checkServerHealth now).2)
  | .isServerAlive serverId now => (.alive (m.isServerAlive serverId now).1, (m.isServerAlive serverId now).2)
  | .getServerStatus serverId now => (.status (m.getServerStatus serverId now), m)
  | .getAllServerStatus now => (.allStatus (m.getAllServerStatus now).1, (m.getAllServerStatus now).2)
  | .getAliveServers now => (.servers (m.getAliveServers now).1, (m.getAliveServers now).2)
  | .getDownServers now => (.servers (m.getDownServers now).1, (m.getDownServers now).2)
  | .getSummary now =>
    let r := m.getSummary now
    (.summary r.1.1 r.1.2.1 r.1.2.2, r.2)

/-- **The story of a server is whole**: its notifications go up, down, up, and end with its status. -/
def Told (m : HeartbeatMonitor ι) (i : ι) : Prop :=
  UpDown (m.story i) ∧ (m.story i).getLast? = m.serverStatus.get? i

/-- The call is not the first to find a heartbeat too old without reporting it. -/
def Tells (m : HeartbeatMonitor ι) (call : HeartbeatCall ι) : Prop :=
  match call with
  | .getAllServerStatus now =>
    ∀ i t, m.heartbeats.get? i = some t → m.serverStatus.get? i = some true → now 0 - t ≤ m.timeout
  | _ => True

/-- What holds by the reading `t`: every heartbeat is of the past, exactly the servers with a heartbeat have a status,
and whoever is down has a heartbeat too old. -/
structure Dated (t : Time) (m : HeartbeatMonitor ι) : Prop where
  past : ∀ i s, m.heartbeats.get? i = some s → s ≤ t
  known : ∀ i, (m.serverStatus.get? i).isSome = (m.heartbeats.get? i).isSome
  down : ∀ i s, m.serverStatus.get? i = some false → m.heartbeats.get? i = some s → m.timeout < t - s

variable {m : HeartbeatMonitor ι} {t now : Time}

theorem dated_new (heartbeatIntervalSec timeoutSec t : Time) :
    Dated t (new heartbeatIntervalSec timeoutSec : HeartbeatMonitor ι) :=
  ⟨fun _ _ h => (nomatch h), fun _ => rfl, fun _ _ h => (nomatch h)⟩

theorem Dated.mono (h : Dated t m) (htn : t ≤ now) : Dated now m :=
  ⟨fun i s hs => le_trans (h.past i s hs) htn, h.known, fun i s hd hs =>
    lt_of_lt_of_le (h.down i s hd hs) (sub_le_sub_right htn s)⟩

theorem Dated.record (h : Dated t m) (htn : t ≤ now) (serverId : ι) :
    Dated now (m.recordHeartbeat serverId none now) := by
  refine ⟨fun i s hs => ?_, fun i => ?_, fun i s hd hs => ?_⟩
  · rw [record_heartbeats] at hs
    split at hs
    · exact le_of_eq (Option.some.inj hs).symm
    · exact le_trans (h.past i s hs) htn
  · rw [record_heartbeats, record_status]
    split
    · rfl
    · exact h.known i
  · rw [record_heartbeats] at hs
    rw [record_status] at hd
    split at hd
    · exact absurd (Option.some.inj hd) Bool.noConfusion
    · rename_i hi
      rw [if_neg hi] at hs
      exact (h.mono htn).down i s hd hs

theorem Dated.status (h : Dated t m) (now : Time) (i : ι) : (m.refreshServerHealthLocked now).2.serverStatus.get? i =
    (m.heartbeats.get? i).map (fun s => m.fresh s now) := by
  have hknown := h.known i
  rw [refresh_status]
  cases hs : m.heartbeats.get? i with
  | none =>
    rw [hs] at hknown
    exact Option.isNone_iff_eq_none.1 (Option.isSome_eq_false_iff.1 hknown)
  | some s => rfl

theorem Dated.refresh (h : Dated t m) (htn : t ≤ now) : Dated now (m.refreshServerHealthLocked now).2 := by
  refine ⟨(h.mono htn).past, fun i => ?_, fun i s hd hs => ?_⟩
  · rw [h.status, Option.isSome_map]
    rfl
  · have hs' : m.heartbeats.get? i = some s := hs
    rw [h.status, hs'] at hd
    exact not_le.1 (of_decide_eq_false (Option.some.inj hd))

theorem Dated.check (h : Dated t m) (htn : t ≤ now) : Dated now (m.checkServerHealth now).2 := by
  have hr := h.refresh htn
  refine ⟨?_, ?_, ?_⟩
  · rw [check_heartbeats]
    exact hr.past
  · rw [check_heartbeats, check_status]
    exact hr.known
  · rw [check_heartbeats, check_status, check_timeout]
    exact hr.down

theorem Dated.step {call : HeartbeatCall ι} (h : Dated t m) (hr : call.reading = some now) (htn : t ≤ now) :
    Dated now (m.step call).2 := by
  cases call with
  | recordHeartbeat serverId r =>
    obtain rfl := Option.some.inj hr
    exact h.record htn serverId
  | getServerStatus serverId r => cases hr
  | getAllServerStatus r =>
    obtain rfl := Option.some.inj hr
    exact h.refresh htn
  | _ =>
    obtain rfl := Option.some.inj hr
    exact h.check htn

/-! ## What each piece of code that writes a status does to the story -/

theorem Told.snoc {m' : HeartbeatMonitor ι} {i : ι} {b : Bool} (h : m.Told i) (hstory : m'.story i = m.story i ++ [b])
    (hstatus : m'.serverStatus.get? i = some b) (hb : m.serverStatus.get? i ≠ some b)
    (hfirst : m.serverStatus.get? i = none → b = true) : m'.Told i := by
  unfold Told
  rw [hstory, hstatus]
  refine ⟨upDown_snoc h.1 ?_ ?_, List.getLast?_concat⟩
  · rw [h.2]
    exact hb
  · rw [h.2]
    exact hfirst

theorem told_record {i : ι} (h : m.Told i) (serverId : ι) : (m.recordHeartbeat serverId none now).Told i := by
  have hstory := record_story (m := m) (i := i) serverId none now
  have hstatus := record_status (m := m) (i := i) serverId none now
  by_cases hi : i = serverId
  · rw [if_pos hi] at hstatus
    by_cases hup : m.serverStatus.get? i = some true
    · rw [if_neg fun hc => hc.2 hup, List.append_nil] at hstory
      unfold Told
      rw [hstory, hstatus, ← hup]
      exact h
    · rw [if_pos ⟨hi, hup⟩] at hstory
      exact h.snoc hstory hstatus hup fun _ => rfl
  · rw [if_neg fun hc => hi hc.1, List.append_nil] at hstory
    rw [if_neg hi] at hstatus
    unfold Told
    rw [hstory, hstatus]
    exact h

/-- Whoever was down stays down, the clock not going back. -/
theorem Dated.still_down (h : Dated t m) (htn : t ≤ now) {i : ι} {s : Time} (hs : m.heartbeats.get? i = some s)
    (hd : m.serverStatus.get? i = some false) : m.fresh s now = false :=
  decide_eq_false (not_le.2 ((h.mono htn).down i s hd hs))

theorem Dated.told_check (h : Dated t m) (htn : t ≤ now) {i : ι} (hm : m.Told i) :
    (m.checkServerHealth now).2.Told i := by
  have hstory := check_story (m := m) (i := i) now
  have hstatus := h.status now i
  rw [← check_status] at hstatus
  have hknown := h.known i
  cases hs : m.heartbeats.get? i with
  | none =>
    rw [hs] at hstory hstatus hknown
    rw [if_neg fun hc => (nomatch hc.choose_spec.1), List.append_nil] at hstory
    unfold Told
    rw [hstory, hstatus, hm.2]
    exact ⟨hm.1, Option.isNone_iff_eq_none.1 (Option.isSome_eq_false_iff.1 hknown)⟩
  | some s =>
    rw [hs] at hstory hstatus hknown
    obtain ⟨b, hb⟩ := Option.isSome_iff_exists.1 hknown
    by_cases hexp : b = true ∧ m.fresh s now = false
    · rw [if_pos ⟨s, rfl, by rw [hb, hexp.1]; rfl, hexp.2⟩] at hstory
      rw [Option.map_some, hexp.2] at hstatus
      refine hm.snoc hstory hstatus ?_ fun hn => ?_
      · rw [hb, hexp.1]
        exact fun hc => Bool.noConfusion (Option.some.inj hc)
      · exact absurd (hb.symm.trans hn) (by simp)
    · have hsame : m.fresh s now = b := by
        cases b with
        | false => exact h.still_down htn hs hb
        | true => exact Bool.not_eq_false _ ▸ fun hf => hexp ⟨rfl, hf⟩
      rw [if_neg, List.append_nil] at hstory
      · unfold Told
        rw [hstory, hstatus, Option.map_some, hsame, ← hb]
        exact hm
      · rintro ⟨s', hs', hup, hold⟩
        obtain rfl := Option.some.inj hs'
        rw [hb] at hup
        exact hexp ⟨hup, hold⟩

/-- **A refresh keeps the story whole exactly when it finds nobody expired.** -/
theorem Dated.told_refresh_iff (h : Dated t m) (htn : t ≤ now) {i : ι} (hm : m.Told i) :
    (m.refreshServerHealthLocked now).2.Told i ↔
      ∀ s, m.heartbeats.get? i = some s → m.serverStatus.get? i = some true → now - s ≤ m.timeout := by
  have hstory : (m.refreshServerHealthLocked now).2.story i = m.story i := rfl
  have hstatus := h.status now i
  have hknown := h.known i
  have hkeep : (m.refreshServerHealthLocked now).2.Told i ↔
      (m.refreshServerHealthLocked now).2.serverStatus.get? i = m.serverStatus.get? i := by
    unfold Told
    rw [hstory, hm.2]
    exact ⟨fun hc => hc.2.symm, fun hc => ⟨hm.1, hc.symm⟩⟩
  rw [hkeep, hstatus]
  cases hs : m.heartbeats.get? i with
  | none =>
    rw [hs] at hknown
    rw [Option.isNone_iff_eq_none.1 (Option.isSome_eq_false_iff.1 hknown)]
    exact iff_of_true rfl fun s hs' => nomatch hs'
  | some s =>
    rw [hs] at hknown
    obtain ⟨b, hb⟩ := Option.isSome_iff_exists.1 hknown
    rw [hb, Option.map_some, Option.some.injEq]
    cases b with
    | false => exact iff_of_true (h.still_down htn hs hb) fun _ _ hc => nomatch hc
    | true => simp [fresh]

/-! ## A run of calls -/

def Chronological (calls : List (HeartbeatCall ι)) : Prop := (calls.filterMap HeartbeatCall.reading).Pairwise (· ≤ ·)

instance (calls : List (HeartbeatCall ι)) : Decidable (Chronological calls) :=
  inferInstanceAs (Decidable (List.Pairwise _ _))

/-- **A step keeps every story whole exactly when it tells what it finds.** -/
theorem told_step_iff {call : HeartbeatCall ι} (h : ∀ r, call.reading = some r → Dated r m) (hm : ∀ i, m.Told i) :
    (∀ i, (m.step call).2.Told i) ↔ m.Tells call := by
  cases call with
  | recordHeartbeat serverId now => exact iff_of_true (fun i => told_record (hm i) serverId) trivial
  | getServerStatus serverId now => exact iff_of_true hm trivial
  | getAllServerStatus now => exact forall_congr' fun i => (h _ rfl).told_refresh_iff le_rfl (hm i)
  | _ => exact iff_of_true (fun i => (h _ rfl).told_check le_rfl (hm i)) trivial

theorem dated_run {heartbeatIntervalSec timeoutSec : Time} (calls : List (HeartbeatCall ι))
    (hc : Chronological calls) {now : Time} (hnow : ∀ r ∈ calls.filterMap HeartbeatCall.reading, r ≤ now) :
    Dated now (run step (new heartbeatIntervalSec timeoutSec) calls) := by
  induction calls using List.reverseRecOn generalizing now with
  | nil => exact dated_new heartbeatIntervalSec timeoutSec now
  | append_singleton calls call ih =>
    unfold Chronological at hc
    rw [List.filterMap_append, List.pairwise_append] at hc
    rw [List.filterMap_append] at hnow
    have hbefore : ∀ r ∈ calls.filterMap HeartbeatCall.reading, r ≤ now :=
      fun r hr => hnow r (List.mem_append_left _ hr)
    rw [run_snoc]
    cases hr : call.reading with
    | none =>
      cases call with
      | getServerStatus serverId r => exact ih hc.1 hbefore
      | _ => cases hr
    | some r =>
      have hmem : r ∈ [call].filterMap HeartbeatCall.reading := by simp [hr]
      have hdated : Dated r (run step (new heartbeatIntervalSec timeoutSec) calls) :=
        ih hc.1 fun r' hr' => hc.2.2 r' hr' r hmem
      exact (hdated.step hr le_rfl).mono (hnow r (List.mem_append_right _ hmem))

/-- **The notifications tell the whole story**, throughout a run, exactly when no `getAllServerStatus` of it is the
first to find a heartbeat too old. -/
theorem story_told_iff (heartbeatIntervalSec timeoutSec : Time) (calls : List (HeartbeatCall ι))
    (hc : Chronological calls) :
    (∀ pre post, calls = pre ++ post → ∀ i, (run step (new heartbeatIntervalSec timeoutSec) pre).Told i) ↔
      Along step Tells (new heartbeatIntervalSec timeoutSec) calls := by
  refine always_iff_along (P := fun m : HeartbeatMonitor ι => ∀ i, m.Told i) (fun i => ?_) calls ?_
  · exact ⟨⟨List.isChain_nil, fun b hb => (nomatch hb)⟩, rfl⟩
  · rintro pre call post rfl hm
    unfold Chronological at hc
    rw [List.filterMap_append, List.pairwise_append] at hc
    refine told_step_iff (fun r hr => dated_run pre hc.1 fun r' hr' => hc.2.2 r' hr' r ?_) hm
    rw [List.filterMap_cons_some hr]
    exact List.mem_cons_self

/-- A heartbeat, a look at all statuses while it is fresh, and the next heartbeat. -/
def promptSnapshot : List (HeartbeatCall ℕ) :=
  [.recordHeartbeat 1 0, .getAllServerStatus (fun _ => 10), .recordHeartbeat 1 12]

theorem story_told_iff_promptSnapshot : (run step (new 5 15) promptSnapshot).Told 1 := by
  refine (story_told_iff 5 15 promptSnapshot (by decide +kernel)).2 ⟨trivial, fun i t ht _ => ?_, trivial, trivial⟩
    promptSnapshot [] rfl 1
  have hbeats : (step (new 5 15) (.recordHeartbeat 1 0 : HeartbeatCall ℕ)).2.heartbeats = Dict.empty.set 1 0 := rfl
  rw [hbeats, Dict.get?_set] at ht
  split at ht
  · obtain rfl := Option.some.inj ht
    decide +kernel
  · cases ht

/-- A heartbeat, a look at all statuses when it is too old, and the next heartbeat. -/
def lateSnapshot : List (HeartbeatCall ℕ) :=
  [.recordHeartbeat 1 0, .getAllServerStatus (fun _ => 20), .recordHeartbeat 1 21]

/-- **The server comes up twice and never goes down.** -/
theorem lateSnapshot_untold : Chronological lateSnapshot ∧
    (run step (new 5 15) (lateSnapshot.take 2)).serverStatus.get? 1 = some false ∧
    (run step (new 5 15) (lateSnapshot.take 2)).story 1 = [true] ∧
    (run step (new 5 15) lateSnapshot).story 1 = [true, true] ∧
    ¬ (∀ i, (run step (new 5 15) (lateSnapshot.take 2)).Told i) ∧
    ¬ UpDown ((run step (new 5 15) lateSnapshot).story 1) := by
  have hstatus : (run step (new 5 15) (lateSnapshot.take 2)).serverStatus.get? 1 = some false := by decide +kernel
  have hstory : (run step (new 5 15) (lateSnapshot.take 2)).story 1 = [true] := by decide +kernel
  refine ⟨by decide +kernel, hstatus, hstory, by decide +kernel, fun h => ?_, by decide +kernel⟩
  have hlast := (h 1).2
  rw [hstatus, hstory] at hlast
  exact absurd hlast (by decide)

end HeartbeatMonitor
end Ticket
