import Mathlib.Data.List.Basic
import Mathlib.Order.Lattice
/-!
# Window — a sliding window kept by pruning the front of a queue

A log of stamped entries grows at the end, its stamps never going back (`Ordered`).  A queue that receives the same
entries and drops overdue ones from its front alone *covers* the log from some cutoff on (`Covers`): it is exactly the
entries of the log stamped at the cutoff or later, however the earlier prunings fell (`Covers.prune`,
`Covers.push`).
-/
namespace Window

variable {α τ : Type} [LinearOrder τ] (stamp : α → τ)

/-- Drop entries from the front while they are stamped before the cutoff. -/
def prune (cutoff : τ) (queue : List α) : List α := queue.dropWhile (fun a => decide (stamp a < cutoff))

def since (cutoff : τ) (log : List α) : List α := log.filter (fun a => decide (cutoff ≤ stamp a))

def Ordered (log : List α) : Prop := log.Pairwise (fun a b => stamp a ≤ stamp b)

/-- **The queue is the log from the cutoff on.** -/
def Covers (cutoff : τ) (queue log : List α) : Prop := Ordered stamp log ∧ queue = since stamp cutoff log

variable {stamp} {cutoff cutoff' : τ} {queue log : List α}

theorem ordered_snoc (h : Ordered stamp log) {a : α} (ha : ∀ b ∈ log, stamp b ≤ stamp a) :
    Ordered stamp (log ++ [a]) := by
  refine List.pairwise_append.2 ⟨h, List.pairwise_singleton _ a, fun b hb c hc => ?_⟩
  rw [List.mem_singleton.1 hc]
  exact ha b hb

/-- **On an ordered queue, pruning the front finds every overdue entry.** -/
theorem prune_eq_since : ∀ {queue : List α}, Ordered stamp queue → prune stamp cutoff queue = since stamp cutoff queue
  | [], _ => rfl
  | a :: queue, h => by
    have hq := List.pairwise_cons.1 h
    have ih : prune stamp cutoff queue = since stamp cutoff queue := prune_eq_since hq.2
    unfold prune since at ih ⊢
    by_cases ha : stamp a < cutoff
    · simpa [ha] using ih
    · have hle : cutoff ≤ stamp a := le_of_not_gt ha
      have hall : ∀ b ∈ queue, cutoff ≤ stamp b := fun b hb => le_trans hle (hq.1 b hb)
      have hkeep : queue.filter (fun b => decide (cutoff ≤ stamp b)) = queue :=
        List.filter_eq_self.2 fun b hb => decide_eq_true (hall b hb)
      simp [ha, hle, hkeep]

theorem since_since (h : cutoff ≤ cutoff') :
    since stamp cutoff' (since stamp cutoff log) = since stamp cutoff' log := by
  unfold since
  rw [List.filter_filter]
  apply List.filter_congr
  intro a _
  rw [← Bool.decide_and, decide_eq_decide]
  exact ⟨fun hc => hc.1, fun hc => ⟨hc, le_trans h hc⟩⟩

theorem Covers.ordered_queue (h : Covers stamp cutoff queue log) : Ordered stamp queue := by
  rw [h.2]
  exact h.1.sublist List.filter_sublist

/-- **Pruning a covering queue at a later cutoff** covers the log from there on. -/
theorem Covers.prune (h : Covers stamp cutoff queue log) (hc : cutoff ≤ cutoff') :
    Covers stamp cutoff' (prune stamp cutoff' queue) log := by
  refine ⟨h.1, ?_⟩
  rw [prune_eq_since h.ordered_queue, h.2, since_since hc]

/-- **An entry pushed and the queue pruned** after it. -/
theorem Covers.push (h : Covers stamp cutoff queue log) {a : α} (ha : ∀ b ∈ log, stamp b ≤ stamp a)
    (hc : cutoff ≤ cutoff') : Covers stamp cutoff' (Window.prune stamp cutoff' (queue ++ [a])) (log ++ [a]) := by
  have hlog : Ordered stamp (log ++ [a]) := ordered_snoc h.1 ha
  have hqueue : Ordered stamp (queue ++ [a]) := by
    refine ordered_snoc h.ordered_queue fun b hb => ha b ?_
    rw [h.2] at hb
    exact (List.mem_filter.1 hb).1
  refine ⟨hlog, ?_⟩
  rw [prune_eq_since hqueue, h.2]
  unfold since
  rw [List.filter_append, List.filter_append]
  congr 1
  exact since_since hc

end Window
