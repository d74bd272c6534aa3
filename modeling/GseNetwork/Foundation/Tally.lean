import Mathlib

namespace GseNetwork.Foundation

open Std (ExtTreeMap TransOrd LawfulEqOrd)

variable {K V : Type}

theorem sum_update [DecidableEq K] [Fintype K] (f g : K → ℕ) (k : K)
    (h : ∀ a, a ≠ k → g a = f a) : ∑ a, g a + f k = ∑ a, f a + g k := by
  have hrest : ∑ a ∈ Finset.univ.erase k, g a = ∑ a ∈ Finset.univ.erase k, f a :=
    Finset.sum_congr rfl fun a ha ↦ h a (Finset.ne_of_mem_erase ha)
  rw [← Finset.add_sum_erase _ g (Finset.mem_univ k),
    ← Finset.add_sum_erase _ f (Finset.mem_univ k), hrest]
  ring

variable [Ord K] [TransOrd K]

def tally (weight : V → ℕ) (m : ExtTreeMap K V) : ℕ := (m.toList.map fun i ↦ weight i.2).sum

variable [LawfulEqOrd K]

theorem nodup_keys (m : ExtTreeMap K V) : (m.toList.map Prod.fst).Nodup := by
  have hdistinct := ExtTreeMap.distinct_keys_toList (t := m)
  rw [List.Nodup, List.pairwise_map]
  exact hdistinct.imp fun h heq ↦ h (by rw [heq, Std.compare_self])

variable [DecidableEq K] [Fintype K] (weight : V → ℕ)

theorem tally_eq_sum (m : ExtTreeMap K V) :
    tally weight m = ∑ k : K, (m[k]?).elim 0 weight := by
  have hvalue : m.toList.map (fun i ↦ weight i.2) =
      (m.toList.map Prod.fst).map fun k ↦ (m[k]?).elim 0 weight := by
    rw [List.map_map]
    refine List.map_congr_left fun i hi ↦ ?_
    have hget := ExtTreeMap.mem_toList_iff_getElem?_eq_some.mp (show (i.1, i.2) ∈ m.toList from hi)
    simp [hget]
  rw [tally, hvalue, ← List.sum_toFinset _ (nodup_keys m)]
  refine Finset.sum_subset (Finset.subset_univ _) fun k _ hk ↦ ?_
  cases hget : m[k]? with
  | none => rfl
  | some v =>
    have hmem := ExtTreeMap.mem_toList_iff_getElem?_eq_some.mpr hget
    exact absurd (List.mem_toFinset.mpr (List.mem_map_of_mem (f := Prod.fst) hmem)) hk

@[simp] theorem tally_empty : tally weight (∅ : ExtTreeMap K V) = 0 := by
  simp [tally_eq_sum]

theorem tally_insert (m : ExtTreeMap K V) (k : K) (v : V) :
    tally weight (m.insert k v) + (m[k]?).elim 0 weight = tally weight m + weight v := by
  have h := sum_update (fun a ↦ (m[a]?).elim 0 weight)
    (fun a ↦ ((m.insert k v)[a]?).elim 0 weight) k fun a ha ↦ by
      rw [ExtTreeMap.getElem?_insert, if_neg]
      rw [Std.compare_eq_iff_eq]
      exact Ne.symm ha
  simpa [tally_eq_sum] using h

theorem tally_erase (m : ExtTreeMap K V) (k : K) :
    tally weight (m.erase k) + (m[k]?).elim 0 weight = tally weight m := by
  have h := sum_update (fun a ↦ (m[a]?).elim 0 weight)
    (fun a ↦ ((m.erase k)[a]?).elim 0 weight) k fun a ha ↦ by
      rw [ExtTreeMap.getElem?_erase, if_neg]
      rw [Std.compare_eq_iff_eq]
      exact Ne.symm ha
  simpa [tally_eq_sum] using h

end GseNetwork.Foundation
