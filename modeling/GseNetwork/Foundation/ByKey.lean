import Mathlib

namespace GseNetwork.Foundation

section ByKey

variable {α : Type} (key : α → ℕ)

def byKey (n : ℕ) (l : List α) : List α :=
  (List.range n).flatMap fun k ↦ l.filter fun x ↦ key x = k

theorem pairwise_byKey (n : ℕ) (l : List α) :
    (byKey key n l).Pairwise fun x y ↦ key x ≤ key y := by
  apply List.pairwise_flatMap.mpr
  constructor
  · intro k _
    refine List.pairwise_of_forall_mem_list fun x hx y hy ↦ ?_
    have hx' : key x = k := of_decide_eq_true (List.mem_filter.mp hx).2
    have hy' : key y = k := of_decide_eq_true (List.mem_filter.mp hy).2
    rw [hx', hy']
  · refine List.pairwise_lt_range.imp fun {a b} hlt x hx y hy ↦ ?_
    have hx' : key x = a := of_decide_eq_true (List.mem_filter.mp hx).2
    have hy' : key y = b := of_decide_eq_true (List.mem_filter.mp hy).2
    rw [hx', hy']
    exact hlt.le

theorem byKey_perm_filter (n : ℕ) (l : List α) :
    (byKey key n l).Perm (l.filter fun x ↦ key x < n) := by
  induction n with
  | zero => simp [byKey]
  | succ n ih =>
    have hsplit : byKey key (n + 1) l = byKey key n l ++ l.filter fun x ↦ key x = n := by
      simp [byKey, List.range_succ]
    have hlow : l.filter (fun x ↦ key x < n) =
        (l.filter fun x ↦ key x < n + 1).filter fun x ↦ key x < n := by
      rw [List.filter_filter]
      exact List.filter_congr fun x _ ↦ by
        rw [← Bool.decide_and]
        exact decide_eq_decide.mpr (by omega)
    have hhigh : l.filter (fun x ↦ key x = n) =
        (l.filter fun x ↦ key x < n + 1).filter fun x ↦ !decide (key x < n) := by
      rw [List.filter_filter]
      exact List.filter_congr fun x _ ↦ by
        rw [← decide_not, ← Bool.decide_and]
        exact decide_eq_decide.mpr (by omega)
    rw [hsplit, hhigh]
    rw [hlow] at ih
    exact (ih.append_right _).trans (List.filter_append_perm _ _)

theorem byKey_perm {n : ℕ} {l : List α} (h : ∀ x ∈ l, key x < n) : (byKey key n l).Perm l := by
  have hperm := byKey_perm_filter key n l
  rwa [List.filter_eq_self.mpr fun x hx ↦ decide_eq_true (h x hx)] at hperm

/-- Of a sorted list, what is left out of the first `k` is not below any of them. -/
theorem le_of_mem_take {l : List α} (h : l.Pairwise fun x y ↦ key x ≤ key y) {k : ℕ} {x : α}
    (hx : x ∈ l) (hout : x ∉ l.take k) : (l.take k).length = k ∧ ∀ y ∈ l.take k, key y ≤ key x := by
  have hdrop : x ∈ l.drop k := by
    rw [← List.take_append_drop k l, List.mem_append] at hx
    exact hx.resolve_left hout
  rw [← List.take_append_drop k l, List.pairwise_append] at h
  refine ⟨?_, fun y hy ↦ h.2.2 y hy x hdrop⟩
  have hpos := List.length_pos_of_mem hdrop
  rw [List.length_drop] at hpos
  rw [List.length_take]
  omega

end ByKey

end GseNetwork.Foundation
