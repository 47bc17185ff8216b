import Mathlib.Data.List.MinMax
/-!
# Choice — rules whose choice survives the loss of others

A rule chooses an element of a list.  It is *independent* when what it chose it still chooses once others are taken
away.  The first greatest and the first least element are such choices (`independent_argmax`, `independent_argmin`),
and so is the owner of a chosen place, each element having places of its own (`Independent.owner`).  An independent rule
that chose from two parts of one list chose the same, if each part has what was chosen from the other
(`Independent.agree`).
-/
namespace Choice

variable {α β : Type}

/-- **What is chosen is still chosen** when others are taken away. -/
def Independent (choose : List α → Option α) : Prop :=
  ∀ (l : List α) (p : α → Bool) (a : α), choose l = some a → p a = true → choose (l.filter p) = some a

theorem Independent.agree {choose : List α → Option α} (h : Independent choose) {l : List α} {p q : α → Bool} {a b : α}
    (ha : choose (l.filter p) = some a) (hb : choose (l.filter q) = some b) (hqa : q a = true) (hpb : p b = true) :
    a = b := by
  have ha' := h _ q a ha hqa
  have hb' := h _ p b hb hpb
  -- both are chosen from what the two parts have in common
  have hcommon : (l.filter p).filter q = (l.filter q).filter p := by
    rw [List.filter_filter, List.filter_filter]
    exact List.filter_congr fun x _ => Bool.and_comm _ _
  rw [hcommon, hb'] at ha'
  exact (Option.some.inj ha').symm

theorem Independent.owner {choose : List β → Option β} (h : Independent choose) {places : α → List β} {owner : β → α}
    (hown : ∀ a, ∀ b ∈ places a, owner b = a) : Independent (fun l => (choose (l.flatMap places)).map owner) := by
  intro l p a ha hp
  obtain ⟨b, hb, rfl⟩ := Option.map_eq_some_iff.1 ha
  have hfilter : ∀ l : List α, (l.filter p).flatMap places = (l.flatMap places).filter (fun b => p (owner b)) := by
    intro l
    induction l with
    | nil => rfl
    | cons x l ih =>
      have hx : (places x).filter (fun b => p (owner b)) = if p x = true then places x else [] := by
        split
        · rename_i hpx
          exact List.filter_eq_self.2 fun b hb => by rw [hown x b hb, hpx]
        · rename_i hpx
          exact List.filter_eq_nil_iff.2 fun b hb => by rw [hown x b hb]; exact hpx
      rw [List.flatMap_cons, List.filter_append, hx, ← ih]
      by_cases hpx : p x = true
      · rw [if_pos hpx, List.filter_cons_of_pos hpx, List.flatMap_cons]
      · rw [if_neg hpx, List.filter_cons_of_neg hpx, List.nil_append]
  dsimp only
  rw [hfilter, h _ _ b hb hp]
  rfl

theorem independent_argmax {τ : Type} [LinearOrder τ] (f : α → τ) : Independent (List.argmax f) := by
  intro l p
  induction l with
  | nil => exact fun a h => nomatch h
  | cons x l ih =>
    intro a h hp
    rw [List.argmax_cons] at h
    cases hl : l.argmax f with
    | none =>
      rw [hl] at h
      obtain rfl := Option.some.inj h
      rw [List.argmax_eq_none.1 hl, List.filter_cons_of_pos hp]
      rfl
    | some c =>
      rw [hl] at h
      dsimp only at h
      by_cases hlt : f x < f c
      · rw [if_pos hlt] at h
        obtain rfl := Option.some.inj h
        have hrest := ih c hl hp
        by_cases hpx : p x = true
        · rw [List.filter_cons_of_pos hpx, List.argmax_cons, hrest]
          exact if_pos hlt
        · rw [List.filter_cons_of_neg hpx, hrest]
      · rw [if_neg hlt] at h
        obtain rfl := Option.some.inj h
        rw [List.filter_cons_of_pos hp, List.argmax_cons]
        cases hr : (l.filter p).argmax f with
        | none => rfl
        | some d =>
          have hd : f d ≤ f c := List.le_of_mem_argmax (List.mem_of_mem_filter (List.argmax_mem hr)) hl
          exact if_neg fun hc => hlt (lt_of_lt_of_le hc hd)

theorem independent_argmin {τ : Type} [LinearOrder τ] (f : α → τ) : Independent (List.argmin f) :=
  @independent_argmax α (OrderDual τ) _ f

end Choice
