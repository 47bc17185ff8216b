import Mathlib.Data.List.MinMax
import Mathlib.Order.Lattice
/-!
# Versioned — records of which the greater version wins

A replica keeps the record with the greater version, its own on a tie (`merge`).  Against a primary whose versions only
grow, a record is `Behind` when it is an older version or carries what the primary's carries, and `Agrees` when it has
the primary's version and content.  Merging records that are behind leaves one that is behind, merging one that agrees
leaves one that agrees, and a record that agrees is not lost to one that is behind: so messages may arrive in any order
and any number of times.

Without a primary, what a replica keeps of a list of records that `arrive` one after another is the first record of the
greatest version (`foldl_arrive`); when records of one version are one record, that does not depend on their order or
number (`argmax_congr`).
-/
namespace Versioned

variable {ρ γ τ : Type} [LinearOrder τ] (version : ρ → τ) (content : ρ → γ)

/-- What a replica holding `own` keeps when `remote` arrives. -/
def merge (own remote : ρ) : ρ := if version own < version remote then remote else own

def Behind (r p : ρ) : Prop := version r ≤ version p ∧ (version r = version p → content r = content p)

def Agrees (r p : ρ) : Prop := version r = version p ∧ content r = content p

variable {version content} {r m p p' : ρ}

theorem behind_refl (p : ρ) : Behind version content p p := ⟨le_rfl, fun _ => rfl⟩

theorem Agrees.behind (h : Agrees version content r p) : Behind version content r p := ⟨le_of_eq h.1, fun _ => h.2⟩

theorem Behind.newer (h : Behind version content r p) (hp : version p < version p') : Behind version content r p' := by
  have hlt : version r < version p' := lt_of_le_of_lt h.1 hp
  exact ⟨le_of_lt hlt, fun he => absurd he (ne_of_lt hlt)⟩

theorem le_merge (r m : ρ) : version r ≤ version (merge version r m) := by
  unfold merge
  split
  · exact le_of_lt ‹_›
  · exact le_rfl

theorem remote_le_merge (r m : ρ) : version m ≤ version (merge version r m) := by
  unfold merge
  split
  · exact le_rfl
  · exact le_of_not_gt ‹_›

theorem merge_choice (version : ρ → τ) (r m : ρ) : merge version r m = r ∨ merge version r m = m := by
  unfold merge
  split
  · exact Or.inr rfl
  · exact Or.inl rfl

theorem merge_of_le (h : version m ≤ version r) : merge version r m = r := if_neg (not_lt.2 h)

/-- **A remote record is ignored exactly when it is not newer.** -/
theorem merge_eq_self_iff : merge version r m = r ↔ version m ≤ version r := by
  refine ⟨fun h => ?_, merge_of_le⟩
  by_contra hn
  have hlt : version r < version m := lt_of_not_ge hn
  rw [merge, if_pos hlt] at h
  exact absurd (congrArg version h) (ne_of_gt hlt)

theorem Behind.merge (hr : Behind version content r p) (hm : Behind version content m p) :
    Behind version content (merge version r m) p := by
  unfold Versioned.merge
  split
  · exact hm
  · exact hr

/-- **A record that agrees brings the replica to agree.** -/
theorem Behind.merge_agrees (hr : Behind version content r p) (hm : Agrees version content m p) :
    Agrees version content (Versioned.merge version r m) p := by
  unfold Versioned.merge
  split
  · exact hm
  · rename_i hn
    have he : version r = version p := le_antisymm hr.1 (hm.1 ▸ le_of_not_gt hn)
    exact ⟨he, hr.2 he⟩

/-- **A replica that agrees stays so**, whatever older record arrives. -/
theorem Agrees.merge (hr : Agrees version content r p) (hm : Behind version content m p) :
    Versioned.merge version r m = r := merge_of_le (hr.1 ▸ hm.1)

/-! ## Records that arrive one after another -/

/-- What a replica holding `own`, or nothing, keeps when `remote` arrives. -/
def arrive (version : ρ → τ) (own : Option ρ) (remote : ρ) : Option ρ :=
  some ((own.map (fun r => merge version r remote)).getD remote)

/-- **A list of arrivals leaves the first record of the greatest version.** -/
theorem foldl_arrive (own : Option ρ) (l : List ρ) :
    l.foldl (arrive version) own = (own.toList ++ l).argmax version := by
  induction l using List.reverseRecOn with
  | nil => cases own <;> rfl
  | append_singleton l m ih =>
    rw [List.foldl_append, ih, ← List.append_assoc, List.argmax_concat]
    cases (own.toList ++ l).argmax version with
    | none => rfl
    | some r =>
      by_cases hlt : version r < version m <;> simp [arrive, Versioned.merge, hlt]

theorem argmax_cons_eq_ite (own : ρ) (l : List ρ) :
    (own :: l).argmax version = if ∀ m ∈ l, version m ≤ version own then some own else l.argmax version := by
  rw [List.argmax_cons]
  cases hl : l.argmax version with
  | none =>
    rw [List.argmax_eq_none.1 hl]
    simp
  | some r =>
    by_cases hlt : version own < version r
    · have hnot : ¬ ∀ m ∈ l, version m ≤ version own := fun h => absurd (h r (List.argmax_mem hl)) (not_le.2 hlt)
      simp only [if_pos hlt, if_neg hnot]
    · have hall : ∀ m ∈ l, version m ≤ version own := fun m hm =>
        le_trans (List.le_of_mem_argmax hm hl) (le_of_not_gt hlt)
      simp only [if_neg hlt, if_pos hall]

/-- **Where a version names one record, the order and the number of the records do not matter.** -/
theorem argmax_congr {l l' : List ρ} (hv : ∀ m ∈ l, ∀ m' ∈ l, version m = version m' → m = m')
    (hmem : ∀ m, m ∈ l' ↔ m ∈ l) : l'.argmax version = l.argmax version := by
  cases hl : l.argmax version with
  | none =>
    rw [List.argmax_eq_none.1 hl] at hmem
    rw [List.argmax_eq_none]
    exact List.eq_nil_iff_forall_not_mem.2 fun m hm => List.not_mem_nil ((hmem m).1 hm)
  | some r =>
    have hr : r ∈ l := List.argmax_mem hl
    cases hl' : l'.argmax version with
    | none =>
      rw [List.argmax_eq_none.1 hl'] at hmem
      exact absurd ((hmem r).2 hr) List.not_mem_nil
    | some r' =>
      have hr' : r' ∈ l := (hmem r').1 (List.argmax_mem hl')
      have hle : version r' ≤ version r := List.le_of_mem_argmax hr' hl
      have hge : version r ≤ version r' := List.le_of_mem_argmax ((hmem r).2 hr) hl'
      rw [hv r' hr' r hr (le_antisymm hle hge)]

end Versioned
