import TicketBooking.Balancer
import TicketBooking.Credit
import TicketBooking.Runs
/-!
# WeightedRotation — the smooth weighted rotation is proportional

Over one set of online servers the strategy's `current` weights are the credits of `Credit`: a call lets every online
server earn its weight and the one chosen pay the total (`select_greedy`).  So its choices are scheduled by credit
(`scheduled_run`), in whatever order each call lists the servers, and every server is chosen in proportion to its weight
(`proportional`).
-/
namespace Ticket

open Runs Credit

namespace Balancer
namespace WeightedRoundRobin

variable {ι : Type} [DecidableEq ι]

/-- The current weight of a server, with none before its first call. -/
def level (s : WeightedRoundRobin ι) (i : ι) : ℤ := (s.current.get? i).getD 0

/-- The online entries of the call are those of `S`, in some order. -/
def Lists (S : Finset ι) (metrics : List (ServerMetrics ι)) : Prop :=
  ((online metrics).map ServerMetrics.serverId).Nodup ∧ ((online metrics).map ServerMetrics.serverId).toFinset = S

def choices (s : WeightedRoundRobin ι) (calls : List (List (ServerMetrics ι))) : List (Option ι) :=
  (trace select s calls).map Prod.snd

/-! ## The loops of a call -/

/-- Making the missing entries changes no level. -/
theorem present_get? (i : ι) : ∀ (ms : List (ServerMetrics ι)) (c : Dict ι ℤ),
    ((ms.foldl (fun c m => if (c.get? m.serverId).isSome then c else c.set m.serverId 0) c).get? i).getD 0 =
      (c.get? i).getD 0
  | [], _ => rfl
  | m :: ms, c => by
    rw [List.foldl_cons, present_get? i ms]
    split
    · rfl
    · rename_i hm
      rw [Dict.get?_set]
      split
      · rename_i hi
        rw [hi, Option.not_isSome_iff_eq_none.1 hm]
        rfl
      · rfl

/-- Everyone listed earns its weight, as often as it is listed. -/
theorem raised_get? (w : ι → ℤ) (i : ι) : ∀ (ms : List (ServerMetrics ι)) (c : Dict ι ℤ),
    ((ms.foldl (fun c m => c.set m.serverId ((c.get? m.serverId).getD 0 + w m.serverId)) c).get? i).getD 0 =
      (c.get? i).getD 0 + (ms.map ServerMetrics.serverId).count i * w i
  | [], _ => by simp
  | m :: ms, c => by
    rw [List.foldl_cons, raised_get? w i ms, Dict.get?_set, List.map_cons, List.count_cons]
    by_cases hi : i = m.serverId
    · subst hi
      simp only [if_true, beq_self_eq_true, Option.getD_some]
      push_cast
      ring
    · simp [hi, Ne.symm hi]

/-- The level of a server with what it earns in the call. -/
def earned (s : WeightedRoundRobin ι) (metrics : List (ServerMetrics ι)) (i : ι) : ℤ :=
  s.level i + ((online metrics).map ServerMetrics.serverId).count i * s.weightFor i

def totalWeight (s : WeightedRoundRobin ι) (metrics : List (ServerMetrics ι)) : ℤ :=
  ((online metrics).map (fun m => s.weightFor m.serverId)).sum

/-- **What a call does when there is weight online**: it chooses the first of those with most earned, which pays. -/
theorem select_of_pos (s : WeightedRoundRobin ι) {metrics : List (ServerMetrics ι)}
    (hpos : 0 < s.totalWeight metrics) :
    ∃ chosen ∈ online metrics, (s.select metrics).1 = some chosen.serverId ∧
      (∀ m ∈ online metrics, s.earned metrics m.serverId ≤ s.earned metrics chosen.serverId) ∧
      (∀ m ∈ online metrics, s.earned metrics chosen.serverId ≤ s.earned metrics m.serverId →
        (online metrics).idxOf chosen ≤ (online metrics).idxOf m) ∧
      (s.select metrics).2.weights = s.weights ∧
      ∀ j, (s.select metrics).2.level j =
        s.earned metrics j - if j = chosen.serverId then s.totalWeight metrics else 0 := by
  have hne : online metrics ≠ [] := by
    intro hnil
    unfold totalWeight at hpos
    rw [hnil] at hpos
    exact absurd hpos (lt_irrefl _)
  have hraised := fun j => raised_get? s.weightFor j (online metrics)
    ((online metrics).foldl (fun c m => if (c.get? m.serverId).isSome then c else c.set m.serverId 0) s.current)
  simp only [present_get?] at hraised
  unfold totalWeight at hpos
  simp only [select, if_neg hne, if_neg (not_le.2 hpos)]
  generalize (online metrics).foldl _ _ = raised at hraised ⊢
  cases hc : (online metrics).argmax (fun m => (((raised.get? m.serverId).getD 0 : ℤ) : ℚ)) with
  | none => exact absurd (List.argmax_eq_none.1 hc) hne
  | some chosen =>
    obtain ⟨hmem, hmax, hfirst⟩ := List.argmax_eq_some_iff.1 hc
    simp only [Int.cast_le, hraised] at hmax hfirst
    refine ⟨chosen, hmem, rfl, hmax, hfirst, rfl, fun j => ?_⟩
    simp only [level, Dict.get?_set]
    split
    · rename_i hj
      subst hj
      rw [Option.getD_some, hraised]
      rfl
    · rw [hraised, sub_zero]
      rfl

variable {S : Finset ι} {s : WeightedRoundRobin ι} {metrics : List (ServerMetrics ι)}

theorem total_eq (h : Lists S metrics) : ((online metrics).map (fun m => s.weightFor m.serverId)).sum =
    total S s.weightFor := by
  unfold total
  rw [← h.2, List.sum_toFinset _ h.1, List.map_map]
  rfl

theorem mem_iff (h : Lists S metrics) (i : ι) : i ∈ S ↔ i ∈ (online metrics).map ServerMetrics.serverId := by
  rw [← h.2, List.mem_toFinset]

/-- **A call is one turn by credit.** -/
theorem select_greedy (h : Lists S metrics) (hpos : 0 < total S s.weightFor) :
    ∃ i, (s.select metrics).1 = some i ∧ Greedy S s.weightFor s.level i ∧
      (s.select metrics).2.weights = s.weights ∧
      ∀ j ∈ S, (s.select metrics).2.level j =
        s.level j + s.weightFor j - if j = i then total S s.weightFor else 0 := by
  have hpos' : 0 < s.totalWeight metrics := by
    unfold totalWeight
    rwa [total_eq h]
  have hearned : ∀ j ∈ S, s.earned metrics j = s.level j + s.weightFor j := by
    intro j hj
    unfold earned
    rw [List.count_eq_one_of_mem h.1 ((mem_iff h j).1 hj), Nat.cast_one, one_mul]
  obtain ⟨chosen, hmem, hsel, hmax, -, hweights, hlevel⟩ := s.select_of_pos hpos'
  have hin : chosen.serverId ∈ S := (mem_iff h _).2 (List.mem_map_of_mem hmem)
  refine ⟨chosen.serverId, hsel, ⟨hin, fun j hj => ?_⟩, hweights, fun j hj => ?_⟩
  · obtain ⟨m, hm, rfl⟩ := List.mem_map.1 ((mem_iff h j).1 hj)
    have hle := hmax m hm
    rwa [hearned _ hj, hearned _ hin] at hle
  · rw [hlevel, hearned j hj, totalWeight, total_eq h]

/-! ## A run of calls -/

theorem weightFor_congr {s s' : WeightedRoundRobin ι} (h : s'.weights = s.weights) (i : ι) :
    s'.weightFor i = s.weightFor i := by
  unfold weightFor
  rw [h]

theorem choices_snoc (s : WeightedRoundRobin ι) (calls : List (List (ServerMetrics ι)))
    (metrics : List (ServerMetrics ι)) :
    choices s (calls ++ [metrics]) = choices s calls ++ [((run select s calls).select metrics).1] := by
  unfold choices
  rw [trace_snoc, List.map_append]
  rfl

/-- **The choices of a run are scheduled by credit**, and the current weights are the credits. -/
theorem scheduled_run (weights : Dict ι ℤ) (hpos : 0 < total S (new weights).weightFor)
    (calls : List (List (ServerMetrics ι))) (hcalls : ∀ metrics ∈ calls, Lists S metrics) :
    ∃ l : List ι, choices (new weights) calls = l.map some ∧ Scheduled S (new weights).weightFor l ∧
      (run select (new weights) calls).weights = weights ∧
      ∀ j ∈ S, (run select (new weights) calls).level j = credit S (new weights).weightFor l j := by
  induction calls using List.reverseRecOn with
  | nil => exact ⟨[], rfl, .nil, rfl, fun j _ => (credit_nil j).symm⟩
  | append_singleton calls metrics ih =>
    obtain ⟨l, hl, hsched, hweights, hlevel⟩ := ih fun m hm => hcalls m (List.mem_append_left _ hm)
    have hfor : (run select (new weights) calls).weightFor = (new weights).weightFor :=
      funext (weightFor_congr hweights)
    have hlists : Lists S metrics := hcalls metrics (List.mem_append_right _ List.mem_cons_self)
    obtain ⟨i, hi, hgreedy, hw, hnext⟩ :=
      select_greedy (s := run select (new weights) calls) hlists (by rw [hfor]; exact hpos)
    rw [hfor] at hgreedy hnext
    have hgreedy' : Greedy S (new weights).weightFor (credit S (new weights).weightFor l) i := by
      refine ⟨hgreedy.1, fun j hj => ?_⟩
      rw [← hlevel j hj, ← hlevel i hgreedy.1]
      exact hgreedy.2 j hj
    refine ⟨l ++ [i], ?_, hsched.snoc hgreedy', ?_, fun j hj => ?_⟩
    · rw [choices_snoc, hl, hi, List.map_append, List.map_singleton]
    · rw [run_snoc, hw, hweights]
    · rw [run_snoc, hnext j hj, hlevel j hj, credit_snoc]

theorem choices_length (s : WeightedRoundRobin ι) (calls : List (List (ServerMetrics ι))) :
    (choices s calls).length = calls.length := by
  unfold choices
  rw [List.length_map, ← List.length_map (f := Prod.fst), trace_map_fst]

/-- **Smooth weighted round robin is exactly proportional.**  From a fresh strategy, and with one set of online servers
at every call, each server has been chosen less than a whole turn more than its share after any number of calls, and
exactly its share after whole rounds. -/
theorem proportional (weights : Dict ι ℤ) (S : Finset ι) (calls : List (List (ServerMetrics ι)))
    (hcalls : ∀ metrics ∈ calls, Lists S metrics) (hpos : 0 < total S (new weights).weightFor) (i : ι) (hi : i ∈ S) :
    total S (new weights).weightFor * (choices (new weights) calls).count (some i) <
        calls.length * (new weights).weightFor i + total S (new weights).weightFor ∧
      ∀ k : ℕ, (calls.length : ℤ) = k * total S (new weights).weightFor →
        ((choices (new weights) calls).count (some i) : ℤ) = k * (new weights).weightFor i := by
  have hw : ∀ j ∈ S, 0 ≤ (new weights).weightFor j := fun j _ => le_max_left _ _
  obtain ⟨l, hl, hsched, -⟩ := scheduled_run weights hpos calls hcalls
  have hlen : calls.length = l.length := by rw [← choices_length (new weights), hl, List.length_map]
  have hcount : (choices (new weights) calls).count (some i) = l.count i := by
    rw [hl, List.count_map_of_injective l some (Option.some_injective ι)]
  rw [hcount, hlen]
  exact ⟨count_lt hpos hw hsched hi, fun k hk => count_eq hpos hw hsched hk hi⟩

/-- A whole round over two servers, the third offline: two of the three calls go to the server of weight 2. -/
theorem proportional_wholeRound : ((choices (new ((Dict.empty.set 1 2).set 2 1))
      [[.idle 1 .online, .idle 2 .online], [.idle 2 .online, .idle 3 .offline, .idle 1 .online],
        [.idle 1 .online, .idle 2 .online]]).count (some 1) : ℤ) = 2 :=
  (proportional ((Dict.empty.set 1 2).set 2 1) {1, 2}
    [[.idle 1 .online, .idle 2 .online], [.idle 2 .online, .idle 3 .offline, .idle 1 .online],
      [.idle 1 .online, .idle 2 .online]]
    (fun _ h => by
      rcases List.mem_cons.1 h with rfl | h
      · exact ⟨by decide, by decide⟩
      rcases List.mem_cons.1 h with rfl | h
      · exact ⟨by decide, by decide⟩
      · rw [List.mem_singleton.1 h]
        exact ⟨by decide, by decide⟩) (by decide) 1 (by decide)).2 1 (by decide)

end WeightedRoundRobin
end Balancer
end Ticket
