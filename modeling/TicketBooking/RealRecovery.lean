import TicketBooking.DetectorStory
/-!
# RealRecovery — a recovery and the monitor's memory

The detector takes whoever has left the down list for recovered.  A server that it knows to be down and that has not
sent a heartbeat since stays on the list while the monitor remembers its last heartbeat (`Silent`), so the recoveries
are real as long as every turn finds the servers known to be down still tracked.  A `reset` of the monitor forgets them:
the next turn reports as recovered a server that never returned (`recoveries_real_iff`).
-/
namespace Ticket

open Runs

namespace DetectorEvent

variable {ι : Type}

/-- All readings of an event, in order. -/
def readings : DetectorEvent ι → List Time
  | .recordHeartbeat _ _ now => [now]
  | .checkServerHealth now _ => [now]
  | .getAllServerStatus now => [now]
  | .reset => []
  | .turn first second _ _ => [first, second]

/-- The event records a heartbeat of the server. -/
def Records (i : ι) : DetectorEvent ι → Prop
  | .recordHeartbeat serverId _ _ => serverId = i
  | _ => False

end DetectorEvent

namespace FailureDetector

variable {ι κ : Type} [LinearOrder ι] [ToString ι]

/-- A recovery callback is called with the server. -/
def RecoveryCalled (d : FailureDetector ι κ) (e : DetectorEvent ι) (i : ι) : Prop :=
  ∃ t callback, (step d e).1 = some t ∧ .called .recovery callback i ∈ t.output

/-- The server has sent a heartbeat after each turn that reported its failure. -/
def Heard (d : FailureDetector ι κ) (es : List (DetectorEvent ι)) (i : ι) : Prop :=
  ∀ pre e post, es = pre ++ e :: post → .failure ∈ reportedBy i (step (run step d pre) e).1 →
    ∃ f ∈ post, f.Records i

/-- **The event is a turn whose check has the server tracked as alive**: its last heartbeat is within the timeout, and
it has sent one since it was reported down. -/
def Real (d : FailureDetector ι κ) (pre : List (DetectorEvent ι)) (e : DetectorEvent ι) (i : ι) : Prop :=
  ∃ first second raises raises' t, e = .turn first second raises raises' ∧
    (step (run step d pre) e).2.monitor.serverStatus.get? i = some true ∧
    (step (run step d pre) e).2.monitor.heartbeats.get? i = some t ∧
    second - t ≤ (run step d pre).monitor.timeout ∧ Heard d pre i

/-- A turn in which nobody raises, of a detector with recovery callbacks, finds the servers known to be down still
tracked. -/
def Tracked (d : FailureDetector ι κ) (e : DetectorEvent ι) : Prop :=
  match e with
  | .turn first second raises raises' =>
    d.monitor.Returns raises first → (d.monitor.checkServerHealth first).2.Returns raises' second →
      d.recoveryCallbacks ≠ [] → ∀ i ∈ d.knownDown, (d.monitor.heartbeats.get? i).isSome
  | _ => True

/-! ## What the monitor remembers -/

/-- Only servers with a heartbeat have a status. -/
def Known (m : HeartbeatMonitor ι) : Prop := ∀ i, (m.serverStatus.get? i).isSome → (m.heartbeats.get? i).isSome

/-- What an event does to the monitor's memory. -/
structure Remembers (e : DetectorEvent ι) (m m' : HeartbeatMonitor ι) : Prop where
  timeout : m'.timeout = m.timeout
  heartbeats : ∀ i t, m'.heartbeats.get? i = some t → e.Records i ∨ m.heartbeats.get? i = some t
  known : Known m → Known m'

variable {d : FailureDetector ι κ} {i : ι} {now : Time} {e : DetectorEvent ι} {m m' m'' : HeartbeatMonitor ι}

omit [ToString ι] in
theorem Remembers.trans (h : Remembers e m m') (h' : Remembers e m' m'') : Remembers e m m'' :=
  ⟨h'.timeout.trans h.timeout, fun i t ht => (h'.heartbeats i t ht).elim Or.inl (h.heartbeats i t),
    fun hk => h'.known (h.known hk)⟩

omit [ToString ι] in
theorem remembers_of_frame (hb : m'.heartbeats = m.heartbeats) (ht : m'.timeout = m.timeout)
    (hs : ∀ i, (m'.serverStatus.get? i).isSome → (m.heartbeats.get? i).isSome ∨ (m.serverStatus.get? i).isSome) :
    Remembers e m m' :=
  ⟨ht, fun _ _ h => Or.inr (hb ▸ h), fun hk i hi => hb ▸ (hs i hi).elim id (hk i)⟩

omit [ToString ι] in
theorem remembers_check (m : HeartbeatMonitor ι) (raises : ι → Bool) (now : Time) :
    Remembers e m (m.checkServerHealthRaising raises now).2 := by
  obtain ⟨hb, ht, hs⟩ := m.check_raising_frame raises now
  exact remembers_of_frame hb ht hs

/-- **A turn that comes to its end knows the servers its second check has down.** -/
theorem turn_cases (d : FailureDetector ι κ) (first second : Time) (raises raises' : ι → Bool) :
    let d' := (d.turn first second raises raises').2
    ((d.monitor.Returns raises first ∧ (d.monitor.checkServerHealth first).2.Returns raises' second) ∧
        (d.turn first second raises raises').1 =
          some ⟨d.changes d'.knownDown, (d.changes d'.knownDown).flatMap d.report⟩ ∧
        d'.monitor = ((d.monitor.checkServerHealth first).2.checkServerHealth second).2 ∧
        ∀ i, i ∈ d'.knownDown ↔ d'.monitor.serverStatus.get? i = some false) ∨
      (¬ (d.monitor.Returns raises first ∧ (d.monitor.checkServerHealth first).2.Returns raises' second) ∧
        (d.turn first second raises raises').1 = none ∧ d'.knownDown = d.knownDown) := by
  unfold turn
  dsimp only
  split
  · rename_i hfirst
    refine Or.inr ⟨fun hr => ?_, rfl, rfl⟩
    have hsome := HeartbeatMonitor.check_returns_iff.2 hr.1
    rw [hfirst] at hsome
    cases hsome
  · rename_i updated hfirst
    have hchecked := HeartbeatMonitor.check_of_returned hfirst
    split
    · rename_i hdown
      refine Or.inr ⟨fun hr => ?_, rfl, rfl⟩
      have hsome := HeartbeatMonitor.down_returns_iff.2 hr.2
      rw [← hchecked, hdown] at hsome
      cases hsome
    · rename_i ids hdown
      obtain ⟨hmonitor, -, hids⟩ := HeartbeatMonitor.down_of_returned hdown
      refine Or.inl ⟨⟨?_, ?_⟩, rfl, ?_, fun i => ?_⟩
      · exact HeartbeatMonitor.check_returns_iff.1 (by rw [hfirst]; rfl)
      · rw [← hchecked]
        exact HeartbeatMonitor.down_returns_iff.1 (by rw [hdown]; rfl)
      · rw [← hchecked]
        exact hmonitor
      · rw [hids i]
        show _ ↔ ((d.monitor.checkServerHealthRaising raises first).2.getDownServersRaising raises' second).2.serverStatus.get?
          i = some false
        rw [hmonitor]

/-- **An event that is no heartbeat of a server records none of it.** -/
theorem remembers_step (d : FailureDetector ι κ) (e : DetectorEvent ι) :
    Remembers e d.monitor (step d e).2.monitor := by
  cases e with
  | recordHeartbeat serverId timestamp now =>
    refine ⟨rfl, fun i t ht => ?_, fun hk i hi => ?_⟩
    · rw [step, HeartbeatMonitor.record_heartbeats] at ht
      split at ht
      · rename_i hi
        exact Or.inl hi.symm
      · exact Or.inr ht
    · rw [step, HeartbeatMonitor.record_status] at hi
      rw [step, HeartbeatMonitor.record_heartbeats]
      split
      · rfl
      · rename_i hne
        rw [if_neg hne] at hi
        exact hk i hi
  | checkServerHealth now raises => exact remembers_check d.monitor raises now
  | getAllServerStatus now =>
    refine remembers_of_frame rfl rfl fun i hi => ?_
    rw [step, HeartbeatMonitor.refresh_status, Option.isSome_or, Option.isSome_map, Bool.or_eq_true] at hi
    exact hi
  | reset => exact ⟨rfl, fun i t ht => (by cases ht), fun _ i hi => (by cases hi)⟩
  | turn first second raises raises' =>
    unfold step turn
    dsimp only
    split
    · exact remembers_check d.monitor raises first
    · split <;> exact (remembers_check d.monitor raises first).trans (remembers_check _ raises' second)

omit [ToString ι] in
/-- Two checks leave each server with the status that the second finds. -/
theorem status_checked (hk : Known m) (first second : Time) (i : ι) :
    ((m.checkServerHealth first).2.checkServerHealth second).2.serverStatus.get? i =
      (m.heartbeats.get? i).map (fun t => m.fresh t second) := by
  have hfresh : ∀ t now, (m.checkServerHealth first).2.fresh t now = m.fresh t now := fun t now => by
    unfold HeartbeatMonitor.fresh
    rw [HeartbeatMonitor.check_timeout]
  rw [HeartbeatMonitor.check_status, HeartbeatMonitor.refresh_status, HeartbeatMonitor.check_heartbeats,
    HeartbeatMonitor.check_status, HeartbeatMonitor.refresh_status]
  simp only [hfresh]
  cases hs : m.heartbeats.get? i with
  | none =>
    have hnone : m.serverStatus.get? i = none := by
      by_contra hne
      have hsome := hk i (Option.isSome_iff_ne_none.2 hne)
      rw [hs] at hsome
      cases hsome
    rw [hnone]
    rfl
  | some t => rfl

/-! ## What is reported -/

omit [LinearOrder ι] in
theorem mem_report {entry : ι × DetectorChange} {callback : κ} :
    .called .recovery callback i ∈ d.report entry ↔ entry = (i, .recovery) ∧ callback ∈ d.recoveryCallbacks := by
  obtain ⟨j, change⟩ := entry
  unfold report
  cases change with
  | failure => simp
  | recovery =>
    have hcallbacks : d.callbacks .recovery = d.recoveryCallbacks := rfl
    rw [List.mem_append, List.mem_map, hcallbacks]
    constructor
    · rintro (h | ⟨cb, hcb, he⟩)
      · simp at h
      · obtain ⟨rfl, rfl⟩ : cb = callback ∧ j = i := by simpa using he
        exact ⟨rfl, hcb⟩
    · rintro ⟨he, hcb⟩
      obtain ⟨rfl, -⟩ := Prod.mk.inj he
      exact Or.inr ⟨callback, hcb, rfl⟩

omit [ToString ι] in
theorem mem_changes {currentDown : List ι} :
    (i, .recovery) ∈ d.changes currentDown ↔ i ∈ d.knownDown ∧ i ∉ currentDown := by
  unfold changes
  simp [List.mem_insertionSort]

/-- **A recovery callback is called with the servers that leave the down list.** -/
theorem recoveryCalled_iff (d : FailureDetector ι κ) (e : DetectorEvent ι) (i : ι) :
    RecoveryCalled d e i ↔ d.recoveryCallbacks ≠ [] ∧ i ∈ d.knownDown ∧ i ∉ (step d e).2.knownDown := by
  unfold RecoveryCalled
  rcases step_cases d e with ⟨hnone, hsame⟩ | hturn
  · rw [hnone, hsame]
    exact iff_of_false (fun ⟨t, _, h, _⟩ => nomatch h) fun h => h.2.2 h.2.1
  · rw [hturn]
    constructor
    · rintro ⟨t, callback, ht, hcalled⟩
      obtain rfl := Option.some.inj ht
      obtain ⟨entry, hentry, hmem⟩ := List.mem_flatMap.1 hcalled
      obtain ⟨rfl, hcb⟩ := mem_report.1 hmem
      exact ⟨List.ne_nil_of_mem hcb, mem_changes.1 hentry⟩
    · rintro ⟨hne, hchange⟩
      obtain ⟨callback, hcb⟩ := List.exists_mem_of_ne_nil _ hne
      exact ⟨_, callback, rfl, List.mem_flatMap.2 ⟨_, mem_changes.2 hchange, mem_report.2 ⟨rfl, hcb⟩⟩⟩

theorem heard_snoc {es : List (DetectorEvent ι)} (hreport : .failure ∉ reportedBy i (step (run step d es) e).1)
    (h : e.Records i ∨ Heard d es i) : Heard d (es ++ [e]) i := by
  rintro pre f post he hfail
  rcases snoc_eq_append_cons he with ⟨rfl, rfl, -⟩ | ⟨mid, rfl, hes⟩
  · exact absurd hfail hreport
  · rcases h with hrec | hheard
    · exact ⟨e, List.mem_append_right _ List.mem_cons_self, hrec⟩
    · obtain ⟨k, hk, hkr⟩ := hheard pre f mid hes hfail
      exact ⟨k, List.mem_append_left _ hk, hkr⟩

/-- **Whoever is known to be down and has not been heard is silent for longer than the timeout**, or forgotten. -/
def Silent (now : Time) (d : FailureDetector ι κ) (es : List (DetectorEvent ι)) : Prop :=
  Known (run step d es).monitor ∧ ∀ i ∈ (run step d es).knownDown, Heard d es i ∨
    ∀ t, (run step d es).monitor.heartbeats.get? i = some t → (run step d es).monitor.timeout < now - t

theorem silent_snoc {es : List (DetectorEvent ι)} (h : Silent now d es) (hr : ∀ r ∈ e.readings, r ≤ now) :
    Silent now d (es ++ [e]) := by
  obtain ⟨hknown, hsilent⟩ := h
  have hmem := remembers_step (run step d es) e
  unfold Silent
  rw [run_snoc]
  refine ⟨hmem.known hknown, fun i hi => ?_⟩
  by_cases hold : i ∈ (run step d es).knownDown
  · have hquiet : .failure ∉ reportedBy i (step (run step d es) e).1 := by
      rw [reportedBy_step, if_neg fun hc => hc.2 hold, if_neg fun hc => hc.2 hi]
      exact List.not_mem_nil
    rcases hsilent i hold with hheard | hpast
    · exact Or.inl (heard_snoc hquiet (Or.inr hheard))
    · by_cases hrec : e.Records i
      · exact Or.inl (heard_snoc hquiet (Or.inl hrec))
      · refine Or.inr fun t ht => ?_
        rw [hmem.timeout]
        exact hpast t ((hmem.heartbeats i t ht).resolve_left hrec)
  · cases e with
    | turn first second raises raises' =>
      rcases turn_cases (run step d es) first second raises raises' with ⟨-, -, hmonitor, hdown⟩ | ⟨-, -, hsame⟩
      · refine Or.inr fun t ht => ?_
        have hstatus := (hdown i).1 hi
        have ht' : (run step d es).monitor.heartbeats.get? i = some t :=
          (hmem.heartbeats i t ht).resolve_left fun h => h
        rw [hmonitor, status_checked hknown, ht'] at hstatus
        have hold' : ¬ second - t ≤ (run step d es).monitor.timeout := of_decide_eq_false (Option.some.inj hstatus)
        rw [hmem.timeout]
        exact lt_of_lt_of_le (not_le.1 hold') (sub_le_sub_right (hr second (by simp [DetectorEvent.readings])) t)
      · exact absurd (hsame ▸ hi) hold
    | _ => exact absurd hi hold

theorem silent_run (hbi timeout : Time) (failureCallbacks recoveryCallbacks : List κ) (es : List (DetectorEvent ι))
    (hr : ∀ r ∈ es.flatMap DetectorEvent.readings, r ≤ now) :
    Silent now (new (HeartbeatMonitor.new hbi timeout) failureCallbacks recoveryCallbacks) es := by
  induction es using List.reverseRecOn with
  | nil => exact ⟨fun i hi => (nomatch hi), fun i hi => (nomatch hi)⟩
  | append_singleton es e ih =>
    rw [List.flatMap_append, List.flatMap_singleton] at hr
    exact silent_snoc (ih fun r h => hr r (List.mem_append_left _ h)) fun r h => hr r (List.mem_append_right _ h)

/-- **The recoveries a step reports are real exactly when it finds the known down tracked.** -/
theorem real_step_iff {pre : List (DetectorEvent ι)} (h : ∀ now ∈ e.readings, Silent now d pre)
    (hknown : Known (run step d pre).monitor) :
    (∀ i, RecoveryCalled (run step d pre) e i → Real d pre e i) ↔ Tracked (run step d pre) e := by
  cases e with
  | turn first second raises raises' =>
    have hmem := remembers_step (run step d pre) (.turn first second raises raises')
    rcases turn_cases (run step d pre) first second raises raises' with ⟨hret, -, hmonitor, hdown⟩ | ⟨hret, -, hsame⟩
    · have hstatus := fun i => status_checked hknown first second i
      rw [← hmonitor] at hstatus
      constructor
      · intro hreal _ _ hcb i hi
        by_contra hnone
        rw [Bool.not_eq_true, Option.isSome_eq_false_iff, Option.isNone_iff_eq_none] at hnone
        have hcalled : RecoveryCalled (run step d pre) (.turn first second raises raises') i := by
          refine (recoveryCalled_iff _ _ i).2 ⟨hcb, hi, fun hc => ?_⟩
          have hc' := (hdown i).1 hc
          rw [hstatus, hnone] at hc'
          cases hc'
        obtain ⟨-, -, -, -, t, -, -, ht, -⟩ := hreal i hcalled
        have ht' := (hmem.heartbeats i t ht).resolve_left fun h => h
        rw [hnone] at ht'
        cases ht'
      · intro htracked i hcalled
        obtain ⟨hcb, hi, hup⟩ := (recoveryCalled_iff _ _ i).1 hcalled
        obtain ⟨t, ht⟩ := Option.isSome_iff_exists.1 (htracked hret.1 hret.2 hcb i hi)
        have hs := hstatus i
        rw [ht, Option.map_some] at hs
        have hfresh : (run step d pre).monitor.fresh t second = true := by
          rw [← Bool.not_eq_false]
          intro hf
          rw [hf] at hs
          exact hup ((hdown i).2 hs)
        rw [hfresh] at hs
        have hbeats := congrArg HeartbeatMonitor.heartbeats hmonitor
        rw [HeartbeatMonitor.check_heartbeats, HeartbeatMonitor.check_heartbeats] at hbeats
        refine ⟨first, second, raises, raises', t, rfl, hs, ?_, of_decide_eq_true hfresh, ?_⟩
        · exact (congrArg (fun beats => beats.get? i) hbeats).trans ht
        · refine ((h second (by simp [DetectorEvent.readings])).2 i hi).resolve_right fun hpast => ?_
          exact absurd (of_decide_eq_true hfresh) (not_le.2 (hpast t ht))
    · refine iff_of_true (fun i hcalled => ?_) fun h1 h2 => absurd ⟨h1, h2⟩ hret
      obtain ⟨-, hi, hup⟩ := (recoveryCalled_iff _ _ i).1 hcalled
      exact absurd (hsame ▸ hi) hup
  | _ =>
    refine iff_of_true (fun i hcalled => ?_) trivial
    obtain ⟨-, hi, hup⟩ := (recoveryCalled_iff _ _ i).1 hcalled
    exact absurd hi hup

/-- **The reported recoveries are real**, throughout a run on a clock that does not go back, exactly when every turn
that comes to its end finds the servers known to be down still tracked by the monitor. -/
theorem recoveries_real_iff (heartbeatIntervalSec timeoutSec : Time) (failureCallbacks recoveryCallbacks : List κ)
    (es : List (DetectorEvent ι)) (hclock : (es.flatMap DetectorEvent.readings).Pairwise (· ≤ ·)) :
    let d := new (HeartbeatMonitor.new heartbeatIntervalSec timeoutSec) failureCallbacks recoveryCallbacks
    (∀ pre e post, es = pre ++ e :: post → ∀ i, RecoveryCalled (run step d pre) e i → Real d pre e i) ↔
      Along step Tracked d es := by
  intro d
  rw [along_iff]
  refine forall_congr' fun pre => forall_congr' fun e => forall_congr' fun post => forall_congr' fun he => ?_
  rw [he, List.flatMap_append, List.flatMap_cons, List.pairwise_append] at hclock
  refine real_step_iff (fun now hnow => ?_) ?_
  · exact silent_run heartbeatIntervalSec timeoutSec failureCallbacks recoveryCallbacks pre
      fun r hr => hclock.2.2 r hr now (List.mem_append_left _ hnow)
  · have hnew : Known (HeartbeatMonitor.new heartbeatIntervalSec timeoutSec : HeartbeatMonitor ι) :=
      fun i hi => (nomatch hi)
    exact invariant (P := fun d : FailureDetector ι κ => Known d.monitor) hnew
      (fun d e hk => (remembers_step d e).known hk) pre

/-- A heartbeat, a turn that finds it too old, a new heartbeat, and the next turn. -/
def rememberedServer : List (DetectorEvent ℕ) :=
  [.recordHeartbeat 1 none 0, .turn 20 20 (fun _ => false) (fun _ => false), .recordHeartbeat 1 none 21,
    .turn 22 22 (fun _ => false) (fun _ => false)]

/-- The server is reported as recovered, and is. -/
theorem recoveries_real_iff_rememberedServer :
    let d : FailureDetector ℕ String := new (HeartbeatMonitor.new 5 15) ["log"] ["route"]
    RecoveryCalled (run step d (rememberedServer.take 3)) (.turn 22 22 (fun _ => false) (fun _ => false)) 1 ∧
      Real d (rememberedServer.take 3) (.turn 22 22 (fun _ => false) (fun _ => false)) 1 := by
  intro d
  have hcalled : RecoveryCalled (run step d (rememberedServer.take 3))
      (.turn 22 22 (fun _ => false) (fun _ => false)) 1 :=
    (recoveryCalled_iff _ _ 1).2 ⟨by decide +kernel, by decide +kernel, by decide +kernel⟩
  have hfirst : (run step d (rememberedServer.take 1)).knownDown = [] := by decide +kernel
  have hsecond : (run step d (rememberedServer.take 3)).knownDown = [1] := by decide +kernel
  refine ⟨hcalled, (recoveries_real_iff 5 15 ["log"] ["route"] rememberedServer (by decide)).2 ?_ _ _ [] rfl 1 hcalled⟩
  refine ⟨trivial, fun _ _ _ i hi => ?_, trivial, fun _ _ _ i hi => ?_, trivial⟩
  · rw [show (step (new (HeartbeatMonitor.new 5 15) ["log"] ["route"]) _).2.knownDown = [] from hfirst] at hi
    cases hi
  · obtain rfl : i = 1 := List.mem_singleton.1 (hsecond ▸ hi)
    decide +kernel

/-- A heartbeat, a turn that finds it too old, a reset of the monitor, and the next turn. -/
def forgottenServer : List (DetectorEvent ℕ) :=
  [.recordHeartbeat 1 none 0, .turn 20 20 (fun _ => false) (fun _ => false), .reset,
    .turn 21 21 (fun _ => false) (fun _ => false)]

/-- **The forgotten server is reported as recovered**, and the monitor does not know it. -/
theorem forgottenServer_recovers :
    let d : FailureDetector ℕ String := new (HeartbeatMonitor.new 5 15) ["log"] ["route"]
    (forgottenServer.flatMap DetectorEvent.readings).Pairwise (· ≤ ·) ∧
    (run step d (forgottenServer.take 2)).getKnownDown = [1] ∧
    (run step d forgottenServer).monitor.heartbeats.get? 1 = none ∧
    RecoveryCalled (run step d (forgottenServer.take 3)) (.turn 21 21 (fun _ => false) (fun _ => false)) 1 ∧
    ¬ ∀ pre e post, forgottenServer = pre ++ e :: post → ∀ i,
      RecoveryCalled (run step d pre) e i → Real d pre e i := by
  intro d
  have hnone : (run step d forgottenServer).monitor.heartbeats.get? 1 = none := by decide +kernel
  have hcalled : RecoveryCalled (run step d (forgottenServer.take 3))
      (.turn 21 21 (fun _ => false) (fun _ => false)) 1 :=
    (recoveryCalled_iff _ _ 1).2 ⟨by decide +kernel, by decide +kernel, by decide +kernel⟩
  refine ⟨by decide, by decide +kernel, hnone, hcalled, fun h => ?_⟩
  obtain ⟨-, -, -, -, t, -, -, ht, -⟩ := h (forgottenServer.take 3) _ [] rfl 1 hcalled
  exact absurd (hnone.symm.trans ht) nofun

end FailureDetector
end Ticket
