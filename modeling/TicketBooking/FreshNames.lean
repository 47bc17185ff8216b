import Mathlib.Data.List.Nodup
import TicketBooking.Runs
/-!
# FreshNames — machines that hand out names

A step of a machine may hand out a name, read off its event and its answer (`gives`), and a state `has` names that were
handed out and not taken back.  When a step hands out a name the state does not have, it keeps `P` and brings in that
name alone (`Keeps`).  So along a run that hands out no name twice `P` holds, every name a state has was handed out
(`kept_run`), and a name that was taken back does not return (`not_back`).
-/
namespace FreshNames

open Runs

variable {σ ε α ι : Type} (step : σ → ε → α × σ) (has : σ → ι → Prop) (gives : ε × α → Option ι)

/-- The names a run hands out, in order. -/
def given (s : σ) (es : List ε) : List ι := (trace step s es).filterMap gives

/-- **A step that hands out no name the state has** keeps `P`, and leaves no names but those of before and the one it
hands out. -/
def Keeps (P : σ → Prop) : Prop :=
  ∀ s e, P s → (∀ i ∈ gives (e, (step s e).1), ¬ has s i) →
    P (step s e).2 ∧ ∀ i, has (step s e).2 i → has s i ∨ i ∈ gives (e, (step s e).1)

variable {step has gives} {P : σ → Prop} {s : σ}

theorem given_snoc (es : List ε) (e : ε) :
    given step gives s (es ++ [e]) = given step gives s es ++ (gives (e, (step (run step s es) e).1)).toList := by
  unfold given
  rw [trace_snoc, List.filterMap_append]
  cases h : gives (e, (step (run step s es) e).1) <;> simp [h]

/-- The next name is not one of before. -/
theorem not_given {es : List ε} {e : ε} (hn : (given step gives s (es ++ [e])).Nodup) {i : ι}
    (hi : i ∈ gives (e, (step (run step s es) e).1)) : i ∉ given step gives s es := by
  rw [given_snoc] at hn
  intro hmem
  exact (List.nodup_append.1 hn).2.2 i hmem i (Option.mem_toList.2 hi) rfl

theorem nodup_init {es fs : List ε} (hn : (given step gives s (es ++ fs)).Nodup) : (given step gives s es).Nodup := by
  unfold given at hn ⊢
  rw [trace_append, List.filterMap_append] at hn
  exact (List.nodup_append.1 hn).1

/-- **Along a run that hands out no name twice**, `P` holds and every name was handed out. -/
theorem kept_run (hk : Keeps step has gives P) (h0 : P s) (hnone : ∀ i, ¬ has s i) (es : List ε)
    (hn : (given step gives s es).Nodup) :
    P (run step s es) ∧ ∀ i, has (run step s es) i → i ∈ given step gives s es := by
  induction es using List.reverseRecOn with
  | nil => exact ⟨h0, fun i hi => absurd hi (hnone i)⟩
  | append_singleton es e ih =>
    obtain ⟨hp, hgiven⟩ := ih (nodup_init hn)
    have hfresh : ∀ i ∈ gives (e, (step (run step s es) e).1), ¬ has (run step s es) i :=
      fun i hi hhas => not_given hn hi (hgiven i hhas)
    obtain ⟨hp', hhas'⟩ := hk _ e hp hfresh
    rw [run_snoc, given_snoc]
    refine ⟨hp', fun i hi => ?_⟩
    rcases hhas' i hi with hi | hi
    · exact List.mem_append_left _ (hgiven i hi)
    · exact List.mem_append_right _ (Option.mem_toList.2 hi)

/-- **A name that was taken back does not return.** -/
theorem not_back (hk : Keeps step has gives P) (h0 : P s) (hnone : ∀ i, ¬ has s i) {pre mid : List ε} (post : List ε)
    (hn : (given step gives s (pre ++ mid ++ post)).Nodup) {i : ι} (hpre : has (run step s pre) i)
    (hmid : ¬ has (run step s (pre ++ mid)) i) : ¬ has (run step s (pre ++ mid ++ post)) i := by
  induction post using List.reverseRecOn with
  | nil => rwa [List.append_nil]
  | append_singleton post e ih =>
    rw [← List.append_assoc] at hn ⊢
    have hinit := nodup_init hn
    obtain ⟨hp, hgiven⟩ := kept_run hk h0 hnone _ hinit
    have hold : i ∈ given step gives s (pre ++ mid ++ post) := by
      have hi := (kept_run hk h0 hnone pre (nodup_init (nodup_init hinit))).2 i hpre
      unfold given at hi ⊢
      rw [trace_append, trace_append, List.filterMap_append, List.filterMap_append]
      exact List.mem_append_left _ (List.mem_append_left _ hi)
    have hfresh : ∀ j ∈ gives (e, (step (run step s (pre ++ mid ++ post)) e).1),
        ¬ has (run step s (pre ++ mid ++ post)) j := fun j hj hhas => not_given hn hj (hgiven j hhas)
    rw [run_snoc]
    intro hback
    rcases (hk _ e hp hfresh).2 i hback with hi | hi
    · exact ih hinit hi
    · exact not_given hn hi hold

end FreshNames
