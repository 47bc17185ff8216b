import Mathlib.Algebra.BigOperators.Group.Finset.Basic
import Mathlib.Algebra.Order.BigOperators.Group.Finset
import Mathlib.Algebra.BigOperators.Ring.Finset
import Mathlib.Algebra.Order.Ring.Int
import Mathlib.Tactic.Linarith
import Mathlib.Tactic.Ring
/-!
# Credit — turns that go to whoever has most credit

The members of a set have weights.  At each turn everyone earns its weight, and the turn goes to a member with most
credit, which pays the total of the weights for it.  The credits always sum to zero (`sum_credit`) and nobody ever owes
as much as the total (`credit_gt`), however ties are broken; so nobody gets a whole turn more than its share
(`count_lt`), and over whole rounds everybody gets exactly its share (`count_eq`).
-/
namespace Credit

variable {ι : Type} [DecidableEq ι] (S : Finset ι) (w : ι → ℤ)

def total : ℤ := ∑ i ∈ S, w i

/-- The credit after the turns `l`. -/
def credit (l : List ι) (i : ι) : ℤ := l.length * w i - total S w * l.count i

/-- `i` may take the next turn: with its weight earned, nobody has more. -/
def Greedy (c : ι → ℤ) (i : ι) : Prop := i ∈ S ∧ ∀ j ∈ S, c j + w j ≤ c i + w i

/-- **Turns that went to whoever had most credit.** -/
inductive Scheduled : List ι → Prop where
  | nil : Scheduled []
  | snoc {l : List ι} {i : ι} (h : Scheduled l) (hi : Greedy S w (credit S w l) i) : Scheduled (l ++ [i])

variable {S w} {l : List ι}

theorem credit_nil (i : ι) : credit S w [] i = 0 := by simp [credit]

theorem credit_snoc (l : List ι) (i j : ι) :
    credit S w (l ++ [i]) j = credit S w l j + w j - if j = i then total S w else 0 := by
  unfold credit
  rw [List.length_append, List.count_append, List.count_singleton]
  by_cases hj : j = i
  · subst hj
    simp only [List.length_singleton, beq_self_eq_true, if_true]
    push_cast
    ring
  · simp only [List.length_singleton, beq_iff_eq, Ne.symm hj, hj, if_false]
    push_cast
    ring

/-- **The credits sum to zero.** -/
theorem sum_credit (h : Scheduled S w l) : ∑ i ∈ S, credit S w l i = 0 := by
  induction h with
  | nil => exact Finset.sum_eq_zero fun i _ => credit_nil i
  | snoc h hi ih =>
    simp only [credit_snoc, Finset.sum_sub_distrib, Finset.sum_add_distrib, ih, Finset.sum_ite_eq', if_pos hi.1]
    simp [total]

/-- Whoever takes a turn has credit for it: all the credits together come to the total, which is positive. -/
theorem greedy_pos (hpos : 0 < total S w) (h : Scheduled S w l) {i : ι} (hi : Greedy S w (credit S w l) i) :
    0 < credit S w l i + w i := by
  by_contra hneg
  have hsum : ∑ j ∈ S, (credit S w l j + w j) ≤ 0 :=
    Finset.sum_nonpos fun j hj => le_trans (hi.2 j hj) (not_lt.1 hneg)
  rw [Finset.sum_add_distrib, sum_credit h, zero_add] at hsum
  exact absurd hpos (not_lt.2 hsum)

/-- **Nobody owes as much as the total.** -/
theorem credit_gt (hpos : 0 < total S w) (hw : ∀ i ∈ S, 0 ≤ w i) (h : Scheduled S w l) :
    ∀ i ∈ S, -total S w < credit S w l i := by
  induction h with
  | nil =>
    intro i _
    rw [credit_nil]
    linarith
  | snoc h hi ih =>
    intro j hj
    rw [credit_snoc]
    split
    · rename_i hji
      subst hji
      have hown := greedy_pos hpos h hi
      linarith
    · have hown := ih j hj
      have hearn := hw j hj
      linarith

/-- **Nobody gets a whole turn more than its share.** -/
theorem count_lt (hpos : 0 < total S w) (hw : ∀ i ∈ S, 0 ≤ w i) (h : Scheduled S w l) {i : ι} (hi : i ∈ S) :
    total S w * l.count i < l.length * w i + total S w := by
  have hgt := credit_gt hpos hw h i hi
  unfold credit at hgt
  linarith

/-- **Over whole rounds everybody gets its share.** -/
theorem count_eq (hpos : 0 < total S w) (hw : ∀ i ∈ S, 0 ≤ w i) (h : Scheduled S w l) {k : ℤ}
    (hk : l.length = k * total S w) {i : ι} (hi : i ∈ S) : (l.count i : ℤ) = k * w i := by
  have hcredit : ∀ j, credit S w l j = total S w * (k * w j - l.count j) := by
    intro j
    unfold credit
    rw [hk]
    ring
  have hnonneg : ∀ j ∈ S, 0 ≤ credit S w l j := by
    intro j hj
    have hgt := credit_gt hpos hw h j hj
    rw [hcredit] at hgt ⊢
    have hover : -1 < k * w j - l.count j := by
      by_contra hle
      have hmul := mul_le_mul_of_nonneg_left (not_lt.1 hle) hpos.le
      linarith
    exact mul_nonneg hpos.le (by omega)
  have hzero := (Finset.sum_eq_zero_iff_of_nonneg hnonneg).1 (sum_credit h) i hi
  rw [hcredit] at hzero
  rcases mul_eq_zero.1 hzero with ht | hd
  · exact absurd ht (ne_of_gt hpos)
  · linarith

end Credit
