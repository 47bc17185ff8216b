import Mathlib.Data.List.TakeDrop
import Mathlib.Data.Int.Init
import Mathlib.Data.Nat.Notation
/-!
# Decimal — integers as text

`Int.repr` writes an integer as Python's `str` does, and `Decimal.parse` reads a text as Python's `int` does: blanks
around it are dropped, a sign may stand in front, and single underscores between the digits.  The digits are the ASCII
ones; and the separators from 28 to 31 count as blanks, as `str.strip` has it, where `int` refuses them in a text that
is all ASCII.  What was written is read back (`parse_repr`).
-/
namespace Decimal

/-- The characters `str.strip` drops. -/
def isSpace (c : Char) : Bool :=
  let n := c.toNat
  decide ((9 ≤ n ∧ n ≤ 13) ∨ (28 ≤ n ∧ n ≤ 32) ∨ n = 133 ∨ n = 160 ∨ n = 5760 ∨ (8192 ≤ n ∧ n ≤ 8202) ∨ n = 8232 ∨
    n = 8233 ∨ n = 8239 ∨ n = 8287 ∨ n = 12288)

def strip (cs : List Char) : List Char := ((cs.dropWhile isSpace).reverse.dropWhile isSpace).reverse

/-- The digits of a numeral, its underscores dropped: each stands between two digits.  `afterDigit` says whether a digit
comes right before. -/
def digits (afterDigit : Bool) : List Char → Option (List Char)
  | [] => if afterDigit = true then some [] else none
  | c :: cs =>
    if c.isDigit = true then (digits true cs).map (fun ds => c :: ds)
    else if c = '_' ∧ afterDigit = true then digits false cs
    else none

def parseNat (cs : List Char) : Option ℕ := (digits false cs).map (fun ds => Nat.ofDigitChars 10 ds 0)

/-- `int(text)`: `none` where it raises `ValueError`. -/
def parse (text : String) : Option ℤ :=
  match strip text.toList with
  | [] => none
  | c :: cs =>
    if c = '-' then (parseNat cs).map (fun n => -(n : ℤ))
    else if c = '+' then (parseNat cs).map (fun n => (n : ℤ))
    else (parseNat (c :: cs)).map (fun n => (n : ℤ))

theorem isSpace_of_isDigit {c : Char} (h : c.isDigit = true) : isSpace c = false := by
  have hc : 48 ≤ c.toNat ∧ c.toNat ≤ 57 := by
    simpa [Char.isDigit, UInt32.le_iff_toNat_le] using h
  unfold isSpace
  rw [decide_eq_false_iff_not]
  omega

theorem strip_of_notSpace {cs : List Char} (h : ∀ c ∈ cs, isSpace c = false) : strip cs = cs := by
  have hdrop : ∀ l : List Char, (∀ c ∈ l, isSpace c = false) → l.dropWhile isSpace = l := by
    intro l hl
    cases l with
    | nil => rfl
    | cons c l => simp [hl c List.mem_cons_self]
  unfold strip
  rw [hdrop cs h, hdrop cs.reverse fun c hc => h c (List.mem_reverse.1 hc), List.reverse_reverse]

theorem digits_of_isDigit : ∀ {cs : List Char} {afterDigit : Bool}, (∀ c ∈ cs, c.isDigit = true) →
    (cs ≠ [] ∨ afterDigit = true) → digits afterDigit cs = some cs
  | [], _, _, hne => by
    rcases hne with hne | rfl
    · exact absurd rfl hne
    · rfl
  | c :: cs, _, hd, _ => by
    rw [digits, if_pos (hd c List.mem_cons_self),
      digits_of_isDigit (fun c' hc' => hd c' (List.mem_cons_of_mem c hc')) (Or.inr rfl)]
    rfl

theorem isDigit_of_mem_repr {n : ℕ} {c : Char} (h : c ∈ (Nat.repr n).toList) : c.isDigit = true := by
  rw [Nat.toList_repr] at h
  exact Nat.isDigit_of_mem_toDigits (by decide) (by decide) h

theorem repr_ne_nil (n : ℕ) : (Nat.repr n).toList ≠ [] := by
  rw [Nat.toList_repr]
  exact Nat.toDigits_ne_nil

theorem parseNat_repr (n : ℕ) : parseNat (Nat.repr n).toList = some n := by
  have hd : digits false (Nat.repr n).toList = some (Nat.repr n).toList :=
    digits_of_isDigit (fun c hc => isDigit_of_mem_repr hc) (Or.inl (repr_ne_nil n))
  rw [parseNat, hd, Option.map_some, Nat.toList_repr, Nat.ofDigitChars_toDigits (by decide) (by decide)]

/-- **What `str` wrote, `int` reads back.** -/
theorem parse_repr (a : ℤ) : parse (Int.repr a) = some a := by
  cases a with
  | ofNat n =>
    have hstrip : strip (Nat.repr n).toList = (Nat.repr n).toList :=
      strip_of_notSpace fun c hc => isSpace_of_isDigit (isDigit_of_mem_repr hc)
    have hval := parseNat_repr n
    unfold parse
    rw [show Int.repr (Int.ofNat n) = Nat.repr n from rfl, hstrip]
    cases hl : (Nat.repr n).toList with
    | nil => exact absurd hl (repr_ne_nil n)
    | cons c cs =>
      have hc : c.isDigit = true := isDigit_of_mem_repr (hl ▸ List.mem_cons_self)
      have hminus : c ≠ '-' := by rintro rfl; exact absurd hc (by decide)
      have hplus : c ≠ '+' := by rintro rfl; exact absurd hc (by decide)
      rw [hl] at hval
      simp only [if_neg hminus, if_neg hplus, hval]
      rfl
  | negSucc n =>
    have hlist : (Int.repr (Int.negSucc n)).toList = '-' :: (Nat.repr (n + 1)).toList := by
      simp [Int.repr]
    have hspace : ∀ c ∈ '-' :: (Nat.repr (n + 1)).toList, isSpace c = false := by
      intro c hc
      rcases List.mem_cons.1 hc with rfl | hc
      · decide
      · exact isSpace_of_isDigit (isDigit_of_mem_repr hc)
    unfold parse
    rw [hlist, strip_of_notSpace hspace]
    simp only [if_pos, parseNat_repr]
    rfl

theorem repr_injective : Function.Injective Int.repr := by
  intro a b h
  have hab : parse (Int.repr a) = parse (Int.repr b) := congrArg parse h
  rw [parse_repr, parse_repr] at hab
  exact Option.some.inj hab

end Decimal
