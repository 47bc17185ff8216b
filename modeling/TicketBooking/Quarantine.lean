import TicketBooking.Circuits
import TicketBooking.LeaseRuns
/-!
# Quarantine — a server whose circuit has opened

The failure that opens a server's circuit dates it, and only a question at least eight seconds later moves it on.  Until
then the server is measured offline, so it is not shown as active and no attempt is offered it, whatever else happens
and whichever strategy routes (`quarantine`).  Nothing else keeps a server that is on from being measured online
(`offline_after_failure`).
-/
namespace Ticket

open Runs Balancer

theorem Env.readings_le (env : Env) (h : env.readings.Pairwise (· ≤ ·)) {i j : ℕ} (hij : i < j) (hj : j < Env.span) :
    env.time i ≤ env.time j := by
  unfold Env.readings at h
  rw [List.pairwise_map, List.pairwise_iff_getElem] at h
  have hlen : (List.range Env.span).length = Env.span := List.length_range
  have hle := h i j (by omega) (by omega) hij
  rwa [List.getElem_range, List.getElem_range] at hle

/-- The circuit is open since a failure not before the reading, and waits eight seconds. -/
structure Breaker.Quarantined (since : Time) (b : Breaker) : Prop where
  opened : b.circuit = .opened
  dated : since ≤ b.cb.lastFailureTime
  timeout : b.cb.recoveryTimeout = 8

namespace Breaker

variable {b : Breaker} {since : Time}

theorem Quarantined.ask (h : b.Quarantined since) (now : Time) :
    (b.use (.ask now)).Quarantined since ∨ since + 8 ≤ now := by
  rcases b.ask_cases now with hcb | ⟨-, hr, -⟩
  · refine Or.inl ⟨?_, ?_, ?_⟩
    · exact (congrArg CircuitBreaker.state hcb).trans h.opened
    · rw [hcb]
      exact h.dated
    · rw [hcb]
      exact h.timeout
  · rw [h.timeout] at hr
    have hdated := h.dated
    exact Or.inr (by linarith)

/-- **Questions end a quarantine only eight seconds after its failure.** -/
theorem Quarantined.asked {rs : List Time} : ∀ (us : List BreakerUse) (b : Breaker), b.Quarantined since →
    (∀ u ∈ us, u.AsksAt rs) → (b.uses us).Quarantined since ∨ ∃ r ∈ rs, since + 8 ≤ r
  | [], _, h, _ => Or.inl h
  | u :: us, b, h, hus => by
    have hu := hus u List.mem_cons_self
    have hrest : ∀ v ∈ us, v.AsksAt rs := fun v hv => hus v (List.mem_cons_of_mem _ hv)
    cases u with
    | ask now =>
      rcases h.ask now with h | hover
      · exact asked us _ h hrest
      · exact Or.inr ⟨now, hu, hover⟩
    | rate now => exact asked us _ ⟨h.opened, h.dated, h.timeout⟩ hrest
    | success now => cases hu
    | failure now => cases hu

/-- A server measured online is quarantined no more. -/
theorem Quarantined.metric {id : ServerId} {server : Server} {now later : Time} (h : b.Quarantined since)
    (hm : (Cluster.metric id server b now later).1.status = .online) : since + 8 ≤ now := by
  obtain ⟨hon, hshut⟩ := Cluster.metric_online hm
  have hcb : (Cluster.metric id server b now later).2.cb = (b.use (.ask now)).cb := by
    simp only [Cluster.metric, hon, if_true]
    rfl
  rw [hcb] at hshut
  rcases h.ask now with h | hover
  · exact absurd h.opened hshut
  · exact hover

end Breaker

theorem Cluster.quarantined_measured {c : Cluster} {now : ℕ → Time} {id : ServerId} {since : Time}
    (h : (c.breakers id).Quarantined since) (hm : Measured (c.currentMetrics now).1 id) :
    since + 8 ≤ now (2 * index id) := by
  obtain ⟨m, hmem, hid, hon⟩ := hm
  obtain ⟨id', -, rfl⟩ := List.mem_map.1 hmem
  obtain rfl : id' = id := hid
  exact h.metric hon

namespace Site

/-- **What a step measures**: the metrics an attempt is routed by or a snapshot shows, and the reading at which each
server's state was asked for. -/
def measures (s : Site) (e : Event) : Option (List (ServerMetrics ServerId) × (ServerId → Time)) :=
  match e with
  | .attempt call env _ => (s.running call).bind (fun c =>
    if (s.swept env).tables.Bookable c.seatId then
      some (((s.swept env).measured env).1, fun id => env.time (2 + 2 * Cluster.index id))
    else none)
  | .snapshot env =>
    some (((s.app.cluster.refreshServerMetrics env.randint).currentMetrics (fun n => env.time (1 + n))).1,
      fun id => env.time (1 + 2 * Cluster.index id))
  | _ => none

theorem asked_mem_readings {s : Site} {e : Event} {metrics : List (ServerMetrics ServerId)} {asked : ServerId → Time}
    (hm : s.measures e = some (metrics, asked)) (id : ServerId) : asked id ∈ e.readings := by
  have hindex : Cluster.index id < 3 := by cases id <;> decide
  cases e with
  | attempt call env draw =>
    obtain ⟨c, -, hif⟩ := Option.bind_eq_some_iff.1 hm
    split at hif
    · obtain ⟨-, rfl⟩ := Prod.mk.inj (Option.some.inj hif)
      exact mem_readings env (by unfold Env.span; omega)
    · cases hif
  | snapshot env =>
    obtain ⟨-, rfl⟩ := Prod.mk.inj (Option.some.inj hm)
    exact mem_readings env (by unfold Env.span; omega)
  | _ => cases hm

/-- **A quarantined server is measured offline until eight seconds have passed.** -/
theorem measures_quarantined {s : Site} {e : Event} {id : ServerId} {since : Time}
    (h : (s.app.cluster.breakers id).Quarantined since) {metrics : List (ServerMetrics ServerId)}
    {asked : ServerId → Time} (hm : s.measures e = some (metrics, asked)) (hon : Measured metrics id) :
    since + 8 ≤ asked id := by
  cases e with
  | attempt call env draw =>
    obtain ⟨c, -, hif⟩ := Option.bind_eq_some_iff.1 hm
    split at hif
    · obtain ⟨rfl, rfl⟩ := Prod.mk.inj (Option.some.inj hif)
      exact @Cluster.quarantined_measured (s.swept env).cluster (fun n => env.time (2 + n)) id since h hon
    · cases hif
  | snapshot env =>
    obtain ⟨rfl, rfl⟩ := Prod.mk.inj (Option.some.inj hm)
    have hbreaker : (s.app.cluster.refreshServerMetrics env.randint).breakers id = s.app.cluster.breakers id := rfl
    rw [← hbreaker] at h
    exact @Cluster.quarantined_measured _ (fun n => env.time (1 + n)) id since h hon
  | _ => cases hm

/-- An attempt is offered a server that it measured online. -/
theorem measured_of_outcome {s : Site} {e : Event} {id : ServerId} (h : s.outcomeOn e id ≠ none) :
    ∃ metrics asked, s.measures e = some (metrics, asked) ∧ Measured metrics id := by
  cases e with
  | attempt call env draw =>
    simp only [outcomeOn, measures] at h ⊢
    cases hc : s.running call with
    | none =>
      rw [hc] at h
      exact absurd rfl h
    | some c =>
      rw [hc] at h
      simp only [Option.bind_some] at h ⊢
      split at h
      · rename_i hoffered
        rw [if_pos hoffered.1]
        exact ⟨_, _, rfl, Strategy.select_measured env.md5 _ hoffered.2⟩
      · exact absurd rfl h
  | _ => exact absurd rfl h

theorem quarantined_step {s : Site} {id : ServerId} {since : Time} (h : (s.app.cluster.breakers id).Quarantined since)
    (e : Event) : ((step s e).2.app.cluster.breakers id).Quarantined since ∨ ∃ r ∈ e.readings, since + 8 ≤ r := by
  by_cases hout : s.outcomeOn e id = none
  · rcases s.uses_of_outcome e id with ⟨-, hasks⟩ | ⟨env, r, -, hsome, -, -⟩
    · rw [breakers_step]
      exact h.asked _ _ hasks
    · rw [hout] at hsome
      cases hsome
  · obtain ⟨metrics, asked, hm, hon⟩ := measured_of_outcome hout
    exact Or.inr ⟨_, asked_mem_readings hm id, measures_quarantined h hm hon⟩

/-- Since an attempt failed on the server, its circuit is quarantined or eight seconds have passed. -/
theorem quarantined_run {s : Site} {id : ServerId} {since : Time} (h : (s.app.cluster.breakers id).Quarantined since)
    (es : List Event) : ((run step s es).app.cluster.breakers id).Quarantined since ∨
      ∃ r ∈ es.flatMap Event.readings, since + 8 ≤ r := by
  induction es using List.reverseRecOn with
  | nil => exact Or.inl h
  | append_singleton es e ih =>
    rw [run_snoc, List.flatMap_append, List.flatMap_singleton]
    rcases ih with h | ⟨r, hr, hover⟩
    · rcases quarantined_step h e with h | ⟨r, hr, hover⟩
      · exact Or.inl h
      · exact Or.inr ⟨r, List.mem_append_right _ hr, hover⟩
    · exact Or.inr ⟨r, List.mem_append_left _ hr, hover⟩

/-- **The failure of an attempt dates the circuit it leaves open**, not before the attempt's outcome. -/
theorem quarantined_of_failed (b : Boot) {es : List Event} {call : ℕ} {env : Env} {draw : ℚ} {id : ServerId}
    (hc : Chronological (es ++ [Event.attempt call env draw]))
    (hf : (run step b.site es).outcomeOn (.attempt call env draw) id = some false)
    (ho : (run step b.site (es ++ [Event.attempt call env draw])).circuit id = .opened) :
    ((run step b.site (es ++ [Event.attempt call env draw])).app.cluster.breakers id).Quarantined (env.time 19) := by
  have hconfig := config_run b id (es ++ [Event.attempt call env draw])
  have horder : env.readings.Pairwise (· ≤ ·) := by
    unfold Chronological at hc
    rw [List.flatMap_append, List.flatMap_singleton] at hc
    exact (List.pairwise_append.1 hc).2.1
  refine ⟨ho, ?_, congrArg (fun c => c.2.1) hconfig⟩
  rw [run_snoc, breakers_step]
  rcases (run step b.site es).uses_of_outcome (.attempt call env draw) id with ⟨hnone, -⟩ |
    ⟨env', r, hread, hsome, huses, -⟩
  · rw [hnone] at hf
    cases hf
  · rw [hsome] at hf
    cases r with
    | ok resp => cases hf
    | error m =>
      have henv : ∀ k < Env.span, env'.time k = env.time k := by
        intro k hk
        have hget := congrArg (fun l => l[k]?) hread
        simp only [Event.readings, Env.readings, List.getElem?_map, List.getElem?_range hk, Option.map_some,
          Option.some.injEq] at hget
        exact hget.symm
      rw [huses, Breaker.uses_append]
      obtain ⟨-, k, hk1, hk4, htime⟩ := Breaker.failure_cases (((run step b.site es).app.cluster.breakers id).uses
        (measuring env' id)) (fun n => env'.time (19 + n))
      have hlast : env.time 19 ≤ env.time (19 + k) := env.readings_le horder (by omega) (by unfold Env.span; omega)
      calc env.time 19 ≤ env.time (19 + k) := hlast
        _ = env'.time (19 + k) := (henv _ (by unfold Env.span; omega)).symm
        _ = _ := htime.symm

/-- **A server whose circuit an attempt's failure has opened is in quarantine for eight seconds**: no later step
measures it online before, and no later attempt is offered it before. -/
theorem quarantine (b : Boot) (pre mid : List Event) (call : ℕ) (env : Env) (draw : ℚ) (f : Event) (id : ServerId)
    (hc : Chronological (pre ++ [Event.attempt call env draw] ++ mid ++ [f]))
    (hf : (run step b.site pre).outcomeOn (.attempt call env draw) id = some false)
    (ho : (run step b.site (pre ++ [Event.attempt call env draw])).circuit id = .opened) :
    (∀ metrics asked, (run step b.site (pre ++ [Event.attempt call env draw] ++ mid)).measures f = some (metrics, asked) →
      Measured metrics id → env.time 19 + 8 ≤ asked id) ∧
    ∀ call' env' draw', f = .attempt call' env' draw' →
      (run step b.site (pre ++ [Event.attempt call env draw] ++ mid)).outcomeOn f id ≠ none →
        env.time 19 + 8 ≤ env'.time (2 + 2 * Cluster.index id) := by
  obtain ⟨hcm, hlast⟩ := chronological_snoc hc
  have hq := quarantined_run (quarantined_of_failed b (chronological_left hcm) hf ho) mid
  rw [← run_append] at hq
  have hmeasured : ∀ metrics asked,
      (run step b.site (pre ++ [Event.attempt call env draw] ++ mid)).measures f = some (metrics, asked) →
      Measured metrics id → env.time 19 + 8 ≤ asked id := by
    intro metrics asked hm hon
    rcases hq with hq | ⟨r, hr, hover⟩
    · exact measures_quarantined hq hm hon
    · refine hover.trans (hlast (asked id) ?_ r ?_)
      · exact asked_mem_readings hm id
      · rw [List.flatMap_append]
        exact List.mem_append_right _ hr
  refine ⟨hmeasured, ?_⟩
  rintro call' env' draw' rfl hout
  obtain ⟨metrics, asked, hm, hon⟩ := measured_of_outcome hout
  have hover := hmeasured metrics asked hm hon
  obtain ⟨c, -, hif⟩ := Option.bind_eq_some_iff.1 hm
  split at hif
  · obtain ⟨-, rfl⟩ := Prod.mk.inj (Option.some.inj hif)
    exact hover
  · cases hif

/-- A second after its failure, the next attempt of the call is not offered the server again. -/
theorem quarantine_nextAttempt :
    (run step Boot.calm.site ([.book 1 "Ann"] ++ [failedAttempt] ++ [])).outcomeOn (.attempt 0 (.calm 1 idB) 0) .server1 =
      none := by
  have h := quarantine Boot.calm [.book 1 "Ann"] [] 0 { Env.calm 0 idA with random := 0 } 0 (.attempt 0 (.calm 1 idB) 0)
    .server1 (by decide +kernel) (by decide +kernel) (by decide +kernel)
  by_contra hout
  exact absurd (h.2 0 (.calm 1 idB) 0 rfl hout) (by decide +kernel)

/-! ## Back from it -/

/-- Questions that leave a circuit open leave it as it was. -/
theorem asked_opened {rs : List Time} : ∀ (us : List BreakerUse) (b : Breaker), (∀ u ∈ us, u.AsksAt rs) →
    (b.uses us).circuit = .opened → b.circuit = .opened ∧ (b.uses us).cb.lastFailureTime = b.cb.lastFailureTime
  | [], _, _, h => ⟨h, rfl⟩
  | u :: us, b, hus, h => by
    obtain ⟨hopen, hdate⟩ := asked_opened us (b.use u) (fun v hv => hus v (List.mem_cons_of_mem u hv)) h
    have hu := hus u List.mem_cons_self
    cases u with
    | ask now =>
      rcases b.ask_cases now with hcb | ⟨-, -, hhalf⟩
      · exact ⟨(congrArg CircuitBreaker.state hcb).symm.trans hopen,
          hdate.trans (congrArg CircuitBreaker.lastFailureTime hcb)⟩
      · rw [hhalf] at hopen
        cases hopen
    | rate now => exact ⟨hopen, hdate⟩
    | success now => cases hu
    | failure now => cases hu

/-- A run in which an attempt failed on the server, at a time that one of its readings gives. -/
def FailedAt (b : Boot) (id : ServerId) (es : List Event) (r : Time) : Prop :=
  ∃ pre e post, es = pre ++ e :: post ∧ (run step b.site pre).outcomeOn e id = some false ∧ r ∈ e.readings

theorem FailedAt.snoc {b : Boot} {id : ServerId} {es : List Event} {r : Time} (h : FailedAt b id es r) (e : Event) :
    FailedAt b id (es ++ [e]) r := by
  obtain ⟨pre, e', post, rfl, hout, hr⟩ := h
  exact ⟨pre, e', post ++ [e], by simp, hout, hr⟩

/-- **An open circuit dates from an attempt that failed on the server.** -/
theorem opened_run (b : Boot) (id : ServerId) (es : List Event) (h : (run step b.site es).circuit id = .opened) :
    FailedAt b id es ((run step b.site es).app.cluster.breakers id).cb.lastFailureTime := by
  induction es using List.reverseRecOn with
  | nil => cases h
  | append_singleton es e ih =>
    have hconfig := config_run b id es
    rw [run_snoc] at h ⊢
    unfold circuit at h
    rw [breakers_step] at h ⊢
    rcases (run step b.site es).uses_of_outcome e id with ⟨-, hasks⟩ | ⟨env, r, hreadings, hout, huses, hshut⟩
    · obtain ⟨hopen, hdate⟩ := asked_opened _ _ hasks h
      rw [hdate]
      exact (ih hopen).snoc e
    · rw [huses, Breaker.uses_append] at h ⊢
      have hsame := Breaker.uses_config ((run step b.site es).app.cluster.breakers id) (measuring env id)
      rw [hconfig] at hsame
      generalize ((run step b.site es).app.cluster.breakers id).uses (measuring env id) = br at h hshut hsame ⊢
      cases r with
      | ok r =>
        -- one success closes it, and asking for a closed circuit leaves it closed
        have hclosed := Breaker.success_closes hshut (congrArg (fun c => c.2.2) hsame) (fun n => env.time (19 + n))
        have hstill : (br.uses (App.outcomeUses env (.ok r))).circuit = .closed :=
          @Breaker.closed_of_asked [env.time 24] [.ask (env.time 24)] _ hclosed fun u hu => by
            rw [List.mem_singleton.1 hu]
            exact List.mem_singleton_self _
        rw [hstill] at h
        cases h
      | error m =>
        obtain ⟨-, n, -, hn, hdate⟩ := Breaker.failure_cases br (fun n => env.time (19 + n))
        refine ⟨es, e, [], rfl, hout, ?_⟩
        rw [hreadings]
        have hmem := mem_readings env (k := 19 + n) (by unfold Env.span; omega)
        rwa [← hdate] at hmem

/-- A server that is on and measured offline has an open circuit that has not waited long enough. -/
theorem recent_of_offline {c : Cluster} {now : ℕ → Time} {id : ServerId} (hon : (c.servers id).online = true)
    (hoff : ¬ Measured (c.currentMetrics now).1 id) : (c.breakers id).circuit = .opened ∧
      now (2 * Cluster.index id) < (c.breakers id).cb.lastFailureTime + (c.breakers id).cb.recoveryTimeout := by
  have hstate : ((c.breakers id).getState (now (2 * Cluster.index id))).1 = .opened := by
    by_contra hne
    refine hoff ⟨_, List.mem_map_of_mem (by cases id <;> decide : id ∈ serverIds), rfl, ?_⟩
    simp only [Cluster.metric, hon, if_true, ne_eq, hne, not_false_eq_true]
  have hcb := (CircuitBreaker.readState_fst (c.breakers id).cb (now (2 * Cluster.index id))).symm.trans hstate
  rcases (c.breakers id).ask_cases (now (2 * Cluster.index id)) with hsame | ⟨-, -, hhalf⟩
  · have hopen : (c.breakers id).circuit = .opened := (congrArg CircuitBreaker.state hsame).symm.trans hcb
    refine ⟨hopen, ?_⟩
    by_contra hle
    have hread := CircuitBreaker.readState_of_opened hopen (now (2 * Cluster.index id))
    rw [if_pos (by linarith)] at hread
    rw [hread, CircuitBreaker.transition_state] at hcb
    cases hcb
  · exact absurd (hhalf.symm.trans hcb) (by decide)

/-- **A server that is on is measured offline for less than eight seconds after a failure**: whenever an attempt or a
snapshot measures it offline, an attempt has failed on it of which a reading is less than eight seconds old. -/
theorem offline_after_failure (b : Boot) (es : List Event) (f : Event) (id : ServerId)
    (metrics : List (ServerMetrics ServerId)) (asked : ServerId → Time)
    (hm : (run step b.site es).measures f = some (metrics, asked))
    (hon : ((run step b.site es).app.cluster.servers id).online = true) (hoff : ¬ Measured metrics id) :
    ∃ r, FailedAt b id es r ∧ asked id < r + 8 := by
  have hdated := opened_run b id es
  have htimeout : ((run step b.site es).app.cluster.breakers id).cb.recoveryTimeout = 8 :=
    congrArg (fun c => c.2.1) (config_run b id es)
  unfold circuit at hdated
  generalize run step b.site es = s at *
  cases f with
  | attempt call env draw =>
    obtain ⟨c, -, hif⟩ := Option.bind_eq_some_iff.1 hm
    split at hif
    · obtain ⟨rfl, rfl⟩ := Prod.mk.inj (Option.some.inj hif)
      obtain ⟨hopen, hrecent⟩ := recent_of_offline hon hoff
      have hrecent : env.time (2 + 2 * Cluster.index id) <
          (s.app.cluster.breakers id).cb.lastFailureTime + (s.app.cluster.breakers id).cb.recoveryTimeout := hrecent
      rw [htimeout] at hrecent
      exact ⟨_, hdated hopen, hrecent⟩
    · cases hif
  | snapshot env =>
    obtain ⟨rfl, rfl⟩ := Prod.mk.inj (Option.some.inj hm)
    have hon' : ((s.app.cluster.refreshServerMetrics env.randint).servers id).online = true := by
      simp only [Cluster.refreshServerMetrics, hon, if_true]
    obtain ⟨hopen, hrecent⟩ := recent_of_offline hon' hoff
    have hrecent : env.time (1 + 2 * Cluster.index id) <
        (s.app.cluster.breakers id).cb.lastFailureTime + (s.app.cluster.breakers id).cb.recoveryTimeout := hrecent
    rw [htimeout] at hrecent
    exact ⟨_, hdated hopen, hrecent⟩
  | _ => cases hm

/-- A snapshot a second after a failure. -/
theorem offline_after_failure_snapshot :
    ∃ r, FailedAt .calm .server1 [.book 1 "Ann", failedAttempt] r ∧ 1 < r + 8 := by
  have hoff : ¬ Measured (((run step Boot.calm.site [.book 1 "Ann", failedAttempt]).app.cluster.refreshServerMetrics
      fun _ => 0).currentMetrics fun _ => 1).1 .server1 := by
    rintro ⟨m, hm, hid, hon⟩
    have hnone : (((run step Boot.calm.site [.book 1 "Ann", failedAttempt]).app.cluster.refreshServerMetrics
        fun _ => 0).currentMetrics fun _ => 1).1.any
        (fun m => decide (m.serverId = .server1 ∧ m.status = .online)) = false := by decide +kernel
    exact List.any_eq_false.1 hnone m hm (decide_eq_true ⟨hid, hon⟩)
  exact offline_after_failure .calm [.book 1 "Ann", failedAttempt] (.snapshot (.calm 1 idB)) .server1 _ _ rfl
    (by decide +kernel) hoff

end Site
end Ticket
