import Mathlib.Data.List.Chain
import Mathlib.Data.List.Induction
/-!
# Streak — how long the same outcome has been repeated

`streak b l` counts the outcomes `b` at the end of `l`: one more with every `b`, none after anything else.  It is at
least `n` exactly when the last `n` outcomes were all `b` (`le_streak_iff`).  The words in which nothing is repeated
grow by whatever is not their last letter (`isChain_snoc`, `alternates_snoc`).
-/
namespace Streak

variable {α : Type} {b a : α} {l : List α}

theorem isChain_snoc {R : α → α → Prop} : (l ++ [a]).IsChain R ↔ l.IsChain R ∧ ∀ b, l.getLast? = some b → R b a := by
  rw [List.isChain_append]
  constructor
  · exact fun h => ⟨h.1, fun b hb => h.2.2 b hb a rfl⟩
  · refine fun h => ⟨h.1, List.isChain_singleton a, fun x hx y hy => ?_⟩
    obtain rfl := Option.some.inj hy
    exact h.2 x hx

/-- **A word that changes with every letter**, from a first letter on, goes on with another letter. -/
theorem alternates_snoc {first : α} (h : l.IsChain (· ≠ ·) ∧ ∀ c ∈ l.head?, c = first) (hb : l.getLast? ≠ some b)
    (hfirst : l.getLast? = none → b = first) :
    (l ++ [b]).IsChain (· ≠ ·) ∧ ∀ c ∈ (l ++ [b]).head?, c = first := by
  refine ⟨isChain_snoc.2 ⟨h.1, fun c hc he => hb (he ▸ hc)⟩, fun c hc => ?_⟩
  cases l with
  | nil =>
    obtain rfl := Option.some.inj hc
    exact hfirst rfl
  | cons d l => exact h.2 c hc

variable [DecidableEq α]

def streak (b : α) (l : List α) : ℕ := (l.reverse.takeWhile (fun a => decide (a = b))).length

theorem streak_nil (b : α) : streak b [] = 0 := rfl

theorem streak_snoc (b a : α) (l : List α) : streak b (l ++ [a]) = if a = b then streak b l + 1 else 0 := by
  unfold streak
  rw [List.reverse_concat, List.takeWhile_cons]
  by_cases h : a = b
  · simp [h]
  · simp [h]

/-- **The streak is at least `n` exactly when the last `n` were all `b`.** -/
theorem le_streak_iff (n : ℕ) : n ≤ streak b l ↔ List.replicate n b <:+ l := by
  induction l using List.reverseRecOn generalizing n with
  | nil =>
    rw [streak_nil, List.suffix_nil, List.replicate_eq_nil_iff]
    exact Nat.le_zero
  | append_singleton l a ih =>
    cases n with
    | zero => exact iff_of_true (Nat.zero_le _) (List.nil_suffix)
    | succ n =>
      rw [streak_snoc, List.suffix_concat_iff, List.replicate_succ']
      by_cases h : a = b
      · subst h
        rw [if_pos rfl, Nat.succ_le_succ_iff, ih n]
        constructor
        · exact fun hs => Or.inr ⟨_, rfl, hs⟩
        · rintro (hnil | ⟨t, ht, hs⟩)
          · simp at hnil
          · rwa [List.append_cancel_right ht]
      · rw [if_neg h]
        refine iff_of_false (Nat.not_succ_le_zero n) ?_
        rintro (hnil | ⟨t, ht, -⟩)
        · simp at hnil
        · have hlast := congrArg List.getLast? ht
          rw [List.getLast?_concat, List.getLast?_concat] at hlast
          exact h (Option.some.inj hlast).symm

end Streak
