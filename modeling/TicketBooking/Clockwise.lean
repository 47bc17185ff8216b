import Mathlib.Data.List.Sort
/-!
# Clockwise — places round a circle, and the next one from a point

The places of a circle are a list sorted by position, stably, so that places at one position keep the order they were
given in.  `next` is the first place at or after a point, and past the last place the first again.  Taking places away
commutes with the sort (`around_filter`), and the next place from a point stays what it was unless it is itself taken
away (`next_filter`).  Said without the sort, the next place is the least one at or after the point, or the least of all
(`next_around`); of places that differ in position there is one such, in whatever order they are given (`IsNext.pos_eq`).
-/
namespace Clockwise

variable {α τ : Type} [LinearOrder τ] (pos : α → τ)

/-- The order in which the sort compares two places. -/
def before (a b : α) : Bool := decide (pos a ≤ pos b)

/-- The places in order of position. -/
def around (l : List α) : List α := l.mergeSort (before pos)

/-- The first place at or after `k`, wrapping round. -/
def next (k : τ) (l : List α) : Option α := (l.find? (fun a => decide (k ≤ pos a))).or l.head?

theorem before_trans (a b c : α) (hab : before pos a b = true) (hbc : before pos b c = true) :
    before pos a c = true := by
  unfold before at *
  rw [decide_eq_true_eq] at *
  exact le_trans hab hbc

theorem before_total (a b : α) : (before pos a b || before pos b a) = true := by
  unfold before
  rw [Bool.or_eq_true, decide_eq_true_eq, decide_eq_true_eq]
  exact le_total _ _

variable {pos}

/-- A list that splits into a part that does not satisfy `q` and a rest that does, splits so in one way. -/
theorem split_filter {q : α → Bool} {l₁ l₂ : List α} (h₁ : ∀ a ∈ l₁, q a = false) (h₂ : ∀ a ∈ l₂, q a = true) :
    (l₁ ++ l₂).filter (fun a => !q a) = l₁ ∧ (l₁ ++ l₂).filter q = l₂ := by
  have hkeep : l₁.filter (fun a => !q a) = l₁ := List.filter_eq_self.2 fun a ha => by rw [h₁ a ha]; rfl
  have hnone : l₂.filter (fun a => !q a) = [] :=
    List.filter_eq_nil_iff.2 fun a ha => by rw [h₂ a ha]; exact Bool.false_ne_true
  have hnone' : l₁.filter q = [] := List.filter_eq_nil_iff.2 fun a ha => by rw [h₁ a ha]; exact Bool.false_ne_true
  have hkeep' : l₂.filter q = l₂ := List.filter_eq_self.2 h₂
  rw [List.filter_append, List.filter_append, hkeep, hnone, hnone', hkeep', List.append_nil, List.nil_append]
  exact ⟨rfl, rfl⟩

variable (pos) in
/-- **Where a new place goes**: before the places at or after its position. -/
theorem around_cons (a : α) (l : List α) : ∃ l₁ l₂, around pos (a :: l) = l₁ ++ a :: l₂ ∧ around pos l = l₁ ++ l₂ ∧
    (∀ b ∈ l₁, before pos a b = false) ∧ ∀ b ∈ l₂, before pos a b = true := by
  obtain ⟨l₁, l₂, h₁, h₂, h₃⟩ := List.mergeSort_cons (before_trans pos) (before_total pos) a l
  refine ⟨l₁, l₂, h₁, h₂, fun b hb => by simpa using h₃ b hb, ?_⟩
  have hsorted := List.pairwise_mergeSort (before_trans pos) (before_total pos) (a :: l)
  rw [h₁] at hsorted
  exact (List.pairwise_cons.1 (List.pairwise_append.1 hsorted).2.1).1

/-- **Taking places away commutes with the sort**, because it is stable. -/
theorem around_filter (p : α → Bool) : ∀ l : List α, around pos (l.filter p) = (around pos l).filter p
  | [] => by simp [around]
  | a :: l => by
    have ih := around_filter p l
    obtain ⟨l₁, l₂, h₁, h₂, hl₁, hl₂⟩ := around_cons pos a l
    rw [h₂, List.filter_append] at ih
    rw [h₁, List.filter_append]
    by_cases hp : p a = true
    · obtain ⟨m₁, m₂, h₃, h₄, hm₁, hm₂⟩ := around_cons pos a (l.filter p)
      rw [List.filter_cons_of_pos hp, List.filter_cons_of_pos hp, h₃]
      have hm := split_filter hm₁ hm₂
      have hbefore : ∀ b ∈ l₁.filter p, before pos a b = false := fun b hb => hl₁ b (List.mem_of_mem_filter hb)
      have hafter : ∀ b ∈ l₂.filter p, before pos a b = true := fun b hb => hl₂ b (List.mem_of_mem_filter hb)
      have hl := split_filter hbefore hafter
      rw [h₄.symm.trans ih] at hm
      rw [← hm.1, ← hm.2, hl.1, hl.2]
    · rw [List.filter_cons_of_neg hp, List.filter_cons_of_neg hp, ih]

theorem next_eq_none {k : τ} {l : List α} (h : next pos k l = none) : l = [] := by
  unfold next at h
  exact List.head?_eq_none_iff.1 (Option.or_eq_none_iff.1 h).2

theorem next_eq_none_iff {k : τ} {l : List α} : next pos k l = none ↔ l = [] := by
  refine ⟨next_eq_none, ?_⟩
  rintro rfl
  rfl

theorem mem_of_next {k : τ} {l : List α} {a : α} (h : next pos k l = some a) : a ∈ l := by
  unfold next at h
  rcases Option.or_eq_some_iff.1 h with h | ⟨-, h⟩
  · exact List.mem_of_find?_eq_some h
  · exact List.mem_of_mem_head? h

theorem head?_filter {p : α → Bool} {a : α} {l : List α} (h : l.head? = some a) (hp : p a = true) :
    (l.filter p).head? = some a := by
  obtain ⟨l', rfl⟩ := List.head?_eq_some_iff.1 h
  rw [List.filter_cons_of_pos hp]
  rfl

/-- **The next place stays the next** when others are taken away. -/
theorem next_filter {k : τ} {p : α → Bool} {a : α} {l : List α} (h : next pos k l = some a) (hp : p a = true) :
    next pos k (l.filter p) = some a := by
  unfold next at h ⊢
  rw [Option.or_eq_some_iff] at h ⊢
  rw [List.find?_filter]
  rcases h with h | ⟨hnone, hhead⟩
  · left
    obtain ⟨hk, pre, post, rfl, hpre⟩ := List.find?_eq_some_iff_append.1 h
    refine List.find?_eq_some_iff_append.2 ⟨decide_eq_true ⟨hp, hk⟩, pre, post, rfl, fun b hb => ?_⟩
    have hb' := hpre b hb
    rw [Bool.not_eq_true'] at hb' ⊢
    exact decide_eq_false fun hc => Bool.false_ne_true (hb'.symm.trans hc.2)
  · right
    refine ⟨?_, head?_filter hhead hp⟩
    rw [List.find?_eq_none] at hnone ⊢
    exact fun b hb hpk => hnone b hb (of_decide_eq_true hpk).2

/-! ## The next place without the sort -/

variable (pos) in
/-- **The next place from `k`, declared**: the least at or after `k`, or the least of all when none is. -/
def IsNext (k : τ) (l : List α) (a : α) : Prop :=
  a ∈ l ∧ ((k ≤ pos a ∧ ∀ b ∈ l, k ≤ pos b → pos a ≤ pos b) ∨ ((∀ b ∈ l, pos b < k) ∧ ∀ b ∈ l, pos a ≤ pos b))

theorem mem_around {a : α} {l : List α} : a ∈ around pos l ↔ a ∈ l := List.mem_mergeSort

theorem sorted_around (l : List α) : (around pos l).Pairwise (fun a b => pos a ≤ pos b) :=
  (List.pairwise_mergeSort (before_trans pos) (before_total pos) l).imp of_decide_eq_true

/-- **The first of the sorted places at or after the point is the least such.** -/
theorem next_around {k : τ} {l : List α} {a : α} (h : next pos k (around pos l) = some a) : IsNext pos k l a := by
  have hsorted : (around pos l).Pairwise (fun a b => pos a ≤ pos b) := sorted_around l
  have hmem : a ∈ l := mem_around.1 (mem_of_next h)
  unfold next at h
  rw [Option.or_eq_some_iff] at h
  rcases h with h | ⟨hnone, hhead⟩
  · obtain ⟨hk, pre, post, hsplit, hpre⟩ := List.find?_eq_some_iff_append.1 h
    refine ⟨hmem, Or.inl ⟨of_decide_eq_true hk, fun b hb hkb => ?_⟩⟩
    have hb' : b ∈ around pos l := mem_around.2 hb
    rw [hsplit] at hsorted hb'
    rcases List.mem_append.1 hb' with hb' | hb'
    · exact absurd hkb (by simpa using hpre b hb')
    · rcases List.mem_cons.1 hb' with rfl | hb'
      · exact le_refl _
      · exact (List.pairwise_cons.1 (List.pairwise_append.1 hsorted).2.1).1 b hb'
  · obtain ⟨rest, hsplit⟩ := List.head?_eq_some_iff.1 hhead
    have hbelow : ∀ b ∈ l, pos b < k := fun b hb => by
      simpa using List.find?_eq_none.1 hnone b (mem_around.2 hb)
    refine ⟨hmem, Or.inr ⟨hbelow, fun b hb => ?_⟩⟩
    have hb' : b ∈ around pos l := mem_around.2 hb
    rw [hsplit] at hsorted hb'
    rcases List.mem_cons.1 hb' with rfl | hb'
    · exact le_refl _
    · exact (List.pairwise_cons.1 hsorted).1 b hb'

/-- **There is one next position.** -/
theorem IsNext.pos_eq {k : τ} {l : List α} {a b : α} (ha : IsNext pos k l a) (hb : IsNext pos k l b) :
    pos a = pos b := by
  obtain ⟨hal, ⟨hka, hmina⟩ | ⟨hbelow, hmina⟩⟩ := ha
  · obtain ⟨hbl, ⟨hkb, hminb⟩ | ⟨hbelow, -⟩⟩ := hb
    · exact le_antisymm (hmina b hbl hkb) (hminb a hal hka)
    · exact absurd hka (not_le.2 (hbelow a hal))
  · obtain ⟨hbl, ⟨hkb, -⟩ | ⟨-, hminb⟩⟩ := hb
    · exact absurd hkb (not_le.2 (hbelow b hbl))
    · exact le_antisymm (hmina b hbl) (hminb a hal)

theorem IsNext.congr {k : τ} {l l' : List α} {a : α} (h : ∀ b, b ∈ l ↔ b ∈ l') :
    IsNext pos k l a ↔ IsNext pos k l' a := by
  unfold IsNext
  simp only [h]

/-- Places named by others. -/
theorem IsNext.of_map {β : Type} {f : β → α} {k : τ} {l : List β} {a : α} (h : IsNext pos k (l.map f) a) :
    ∃ b, f b = a ∧ IsNext (fun b => pos (f b)) k l b := by
  obtain ⟨hmem, hnext⟩ := h
  obtain ⟨b, hb, rfl⟩ := List.mem_map.1 hmem
  refine ⟨b, rfl, hb, ?_⟩
  simpa only [List.forall_mem_map] using hnext

end Clockwise
