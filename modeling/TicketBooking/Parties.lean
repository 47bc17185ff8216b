import Mathlib.Data.List.Basic
/-!
# Parties — a list of parties that step one at a time

A system has a part that all parties share and a list of parties.  `act shared p a` is what party `p` makes of step `a`:
what is shared then, and the party, or nothing when the step is not one it can take.  `move` lets one party of the list
step.  A property of every party is kept when each step keeps it of the party that takes it (`forall_move`).
-/
namespace Parties

variable {σ π α : Type} (act : σ → π → α → Option (σ × π))

/-- The `k`-th party takes step `a`, if there is such a party and it can. -/
def move (s : σ × List π) (k : ℕ) (a : α) : σ × List π :=
  match s.2[k]? with
  | none => s
  | some p =>
    match act s.1 p a with
    | none => s
    | some r => (r.1, s.2.set k r.2)

variable {act} {s : σ × List π} {k : ℕ} {a : α}

/-- **A party steps, or nothing happens.** -/
theorem move_cases (act : σ → π → α → Option (σ × π)) (s : σ × List π) (k : ℕ) (a : α) :
    (∃ p f p', s.2[k]? = some p ∧ act s.1 p a = some (f, p') ∧ move act s k a = (f, s.2.set k p')) ∨
    (move act s k a = s ∧ ∀ p ∈ s.2[k]?, act s.1 p a = none) := by
  cases hk : s.2[k]? with
  | none => exact Or.inr ⟨by simp only [move, hk], fun p hp => by cases hp⟩
  | some p =>
    cases ha : act s.1 p a with
    | none =>
      refine Or.inr ⟨by simp only [move, hk, ha], fun p' hp' => ?_⟩
      rwa [← Option.some.inj hp']
    | some r => exact Or.inl ⟨p, r.1, r.2, rfl, ha, by simp only [move, hk, ha]⟩

/-- A step that a party takes when `G` holds of it, and not otherwise. -/
theorem of_guarded {G : Prop} [Decidable G] {f f' : σ} {p p' : π}
    (h : (if G then some (f, p) else none) = some (f', p')) : G ∧ f' = f ∧ p' = p := by
  rw [Option.ite_none_right_eq_some] at h
  obtain ⟨hg, h⟩ := h
  obtain ⟨hf, hp⟩ := Prod.mk.inj (Option.some.inj h)
  exact ⟨hg, hf.symm, hp.symm⟩

theorem mem_of_getElem? {l : List π} {p : π} (h : l[k]? = some p) : p ∈ l := List.mem_iff_getElem?.2 ⟨k, h⟩

/-- A party of a list in which one has changed is that one or one of before. -/
theorem getElem?_set_cases {l : List π} {p' q : π} {j : ℕ} (h : (l.set k p')[j]? = some q) :
    (j = k ∧ q = p') ∨ (j ≠ k ∧ l[j]? = some q) := by
  rcases eq_or_ne j k with rfl | hj
  · have hlt : j < l.length := by
      have hlen := (List.getElem?_eq_some_iff.1 h).1
      rwa [List.length_set] at hlen
    rw [List.getElem?_set_self hlt] at h
    exact Or.inl ⟨rfl, (Option.some.inj h).symm⟩
  · rw [List.getElem?_set_ne (Ne.symm hj)] at h
    exact Or.inr ⟨hj, h⟩

/-- A party of a list with a new one is the new one or one of before. -/
theorem getElem?_concat_cases {l : List π} {p q : π} (h : (l ++ [p])[k]? = some q) :
    (k = l.length ∧ q = p) ∨ l[k]? = some q := by
  rcases Nat.lt_or_ge k l.length with hlt | hge
  · rw [List.getElem?_append_left hlt] at h
    exact Or.inr h
  · have hlen := (List.getElem?_eq_some_iff.1 h).1
    rw [List.length_append, List.length_singleton] at hlen
    obtain rfl : k = l.length := by omega
    rw [List.getElem?_concat_length] at h
    exact Or.inl ⟨rfl, (Option.some.inj h).symm⟩

/-- What holds of every party once one has changed. -/
theorem forall_mem_set_iff {l : List π} {p : π} (hk : l[k]? = some p) (p' : π) (P : π → Prop) :
    (∀ x ∈ l.set k p', P x) ↔ P p' ∧ ∀ j ≠ k, ∀ x ∈ l[j]?, P x := by
  have hlt : k < l.length := (List.getElem?_eq_some_iff.1 hk).1
  constructor
  · intro h
    refine ⟨h p' (mem_of_getElem? (List.getElem?_set_self hlt)), fun j hj x hx => ?_⟩
    exact h x (List.mem_iff_getElem?.2 ⟨j, by rwa [List.getElem?_set_ne (Ne.symm hj)]⟩)
  · rintro ⟨hp, h⟩ x hx
    obtain ⟨j, hj⟩ := List.mem_iff_getElem?.1 hx
    rcases getElem?_set_cases hj with ⟨-, rfl⟩ | ⟨hjk, hj⟩
    · exact hp
    · exact h j hjk x hj

theorem forall_mem_set {l : List π} {p' : π} {P : π → Prop} (h : ∀ p ∈ l, P p) (hp : P p') : ∀ x ∈ l.set k p', P x := by
  intro x hx
  rcases List.mem_or_eq_of_mem_set hx with hx | rfl
  · exact h x hx
  · exact hp

/-- **What a step keeps of the party that takes it, it keeps of all.** -/
theorem forall_move {P : π → Prop} (h : ∀ p ∈ s.2, P p)
    (hact : ∀ p f p', P p → act s.1 p a = some (f, p') → P p') : ∀ p ∈ (move act s k a).2, P p := by
  rcases move_cases act s k a with ⟨p, f, p', hk, ha, hmove⟩ | ⟨hmove, -⟩
  · rw [hmove]
    exact forall_mem_set h (hact p f p' (h p (mem_of_getElem? hk)) ha)
  · rwa [hmove]

end Parties
