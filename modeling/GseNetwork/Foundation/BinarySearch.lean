import Mathlib

namespace GseNetwork.Foundation.BinarySearch

variable {α : Type} [LinearOrder α]

/-- The loop of `std::lower_bound` over the `len` places from `first` on, at most `fuel` rounds. -/
def lowerBound (l : List α) (x : α) : ℕ → ℕ → ℕ → ℕ
  | 0, first, _ => first
  | fuel + 1, first, len =>
    if len = 0 then first
    else if (l[first + len / 2]?).any fun y ↦ decide (y < x) then
      lowerBound l x fuel (first + len / 2 + 1) (len - len / 2 - 1)
    else lowerBound l x fuel first (len / 2)

def binarySearch (l : List α) (x : α) : Bool :=
  (l[lowerBound l x l.length 0 l.length]?).any fun y ↦ decide (¬ x < y)

variable {l : List α} {x y : α}

theorem getElem?_le (hsorted : l.Pairwise (· ≤ ·)) {i j : ℕ} (hij : i ≤ j) (hi : l[i]? = some x)
    (hj : l[j]? = some y) : x ≤ y := by
  obtain ⟨hi', rfl⟩ := List.getElem?_eq_some_iff.mp hi
  obtain ⟨hj', rfl⟩ := List.getElem?_eq_some_iff.mp hj
  rcases hij.eq_or_lt with rfl | hlt
  · exact le_refl _
  · exact List.pairwise_iff_getElem.mp hsorted i j hi' hj' hlt

/-- All places before the bound hold smaller elements, those from it on no smaller ones. -/
theorem lowerBound_spec (hsorted : l.Pairwise (· ≤ ·)) {fuel first len : ℕ} (hfuel : len ≤ fuel)
    (hend : first + len ≤ l.length)
    (hbefore : ∀ i y, i < first → l[i]? = some y → y < x)
    (hafter : ∀ i y, first + len ≤ i → l[i]? = some y → x ≤ y) :
    (∀ i y, i < lowerBound l x fuel first len → l[i]? = some y → y < x) ∧
      ∀ i y, lowerBound l x fuel first len ≤ i → l[i]? = some y → x ≤ y := by
  induction fuel generalizing first len with
  | zero =>
    obtain rfl : len = 0 := by omega
    exact ⟨hbefore, hafter⟩
  | succ fuel ih =>
    by_cases hlen : len = 0
    · rw [lowerBound, if_pos hlen]
      rw [hlen] at hafter
      exact ⟨hbefore, hafter⟩
    obtain ⟨middle, hmiddle⟩ : ∃ y, l[first + len / 2]? = some y :=
      ⟨_, List.getElem?_eq_getElem (by omega)⟩
    rw [lowerBound, if_neg hlen, hmiddle, Option.any_some]
    split_ifs with hless
    · have hlt : middle < x := of_decide_eq_true hless
      refine ih (by omega) (by omega) (fun i y hi hy ↦ ?_) fun i y hi hy ↦ ?_
      · exact (getElem?_le hsorted (by omega) hy hmiddle).trans_lt hlt
      · exact hafter i y (by omega) hy
    · have hge : x ≤ middle := not_lt.mp fun h ↦ hless (decide_eq_true h)
      refine ih (by omega) (by omega) hbefore fun i y hi hy ↦ ?_
      exact hge.trans (getElem?_le hsorted hi hmiddle hy)

theorem binarySearch_iff (hsorted : l.Pairwise (· ≤ ·)) : binarySearch l x = true ↔ x ∈ l := by
  obtain ⟨hbefore, hafter⟩ := lowerBound_spec (x := x) hsorted (le_refl l.length) (by omega)
    (fun i y hi ↦ absurd hi (Nat.not_lt_zero i)) fun i y hi hy ↦ by
      rw [List.getElem?_eq_none (by omega)] at hy
      cases hy
  unfold binarySearch
  generalize lowerBound l x l.length 0 l.length = bound at hbefore hafter
  constructor
  · intro h
    cases hy : l[bound]? with
    | none => simp [hy] at h
    | some y =>
      rw [hy, Option.any_some, decide_eq_true_eq, not_lt] at h
      rw [le_antisymm (hafter bound y (le_refl _) hy) h]
      exact List.mem_of_getElem? hy
  · intro h
    obtain ⟨i, hi⟩ := List.mem_iff_getElem?.mp h
    have hle : bound ≤ i := not_lt.mp fun hlt ↦ lt_irrefl x (hbefore i x hlt hi)
    obtain ⟨hilen, -⟩ := List.getElem?_eq_some_iff.mp hi
    have hbound : l[bound]? = some l[bound] := List.getElem?_eq_getElem (by omega)
    rw [hbound, Option.any_some, decide_eq_true_eq, not_lt]
    exact getElem?_le hsorted hle hbound hi

end GseNetwork.Foundation.BinarySearch
