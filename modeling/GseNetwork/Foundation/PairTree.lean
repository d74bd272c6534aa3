import Mathlib

namespace GseNetwork.Foundation.PairTree

/-! Trees built by hashing neighbours, compared up to a key of their nodes. -/

variable {α κ : Type} (node : α → α → α)

def pairs : List α → List (α × α)
  | [] => []
  | [x] => [(x, x)]
  | x :: y :: rest => (x, y) :: pairs rest

def level (l : List α) : List α := (pairs l).map fun p ↦ node p.1 p.2

def hashedPairs : ℕ → List α → List (α × α)
  | 0, _ => []
  | rounds + 1, l => pairs l ++ hashedPairs rounds (level node l)

theorem length_pairs (l : List α) : (pairs l).length = (l.length + 1) / 2 := by
  induction l using pairs.induct with
  | case1 => simp [pairs]
  | case2 x => simp [pairs]
  | case3 x y rest ih =>
    rw [pairs, List.length_cons, ih, List.length_cons, List.length_cons]
    omega

theorem length_level (l : List α) : (level node l).length = (l.length + 1) / 2 := by
  rw [level, List.length_map, length_pairs]

theorem clog_length_level {l : List α} (hl : 2 ≤ l.length) :
    Nat.clog 2 (level node l).length + 1 = Nat.clog 2 l.length := by
  rw [length_level, Nat.clog_of_two_le (le_refl 2) hl]
  rfl

theorem length_iterate_level {d : ℕ} {l : List α} (hne : l ≠ []) (hd : Nat.clog 2 l.length = d) :
    ((level node)^[d] l).length = 1 := by
  induction d generalizing l with
  | zero =>
    have hpos := List.length_pos_iff.mpr hne
    have hle : l.length ≤ 2 ^ 0 := (Nat.clog_le_iff_le_pow (by decide)).mp hd.le
    change l.length = 1
    omega
  | succ d ih =>
    have hl : 2 ≤ l.length := by
      by_contra hsmall
      rw [Nat.clog_of_right_le_one (by omega)] at hd
      omega
    have hlevel := clog_length_level node hl
    rw [Function.iterate_succ_apply]
    refine ih ?_ (by omega)
    rw [← List.length_pos_iff, length_level]
    omega

section Key

variable (key : α → κ)

def Binding (s : List (α × α)) : Prop :=
  ∀ p ∈ s, ∀ q ∈ s, key (node p.1 p.2) = key (node q.1 q.2) →
    key p.1 = key q.1 ∧ key p.2 = key q.2

variable {node key}

theorem Binding.mono {s t : List (α × α)} (h : Binding node key t) (hst : s ⊆ t) :
    Binding node key s :=
  fun p hp q hq ↦ h p (hst hp) q (hst hq)

theorem mem_of_mem_pairs {l : List α} {p : α × α} (hp : p ∈ pairs l) : p.1 ∈ l ∧ p.2 ∈ l := by
  induction l using pairs.induct with
  | case1 => exact absurd hp List.not_mem_nil
  | case2 x =>
    rw [pairs, List.mem_singleton] at hp
    exact hp ▸ ⟨List.mem_singleton_self x, List.mem_singleton_self x⟩
  | case3 x y rest ih =>
    rw [pairs, List.mem_cons] at hp
    rcases hp with rfl | hp
    · exact ⟨List.mem_cons_self, List.mem_cons_of_mem _ List.mem_cons_self⟩
    · obtain ⟨hfst, hsnd⟩ := ih hp
      exact ⟨List.mem_cons_of_mem _ (List.mem_cons_of_mem _ hfst),
        List.mem_cons_of_mem _ (List.mem_cons_of_mem _ hsnd)⟩

theorem nodup_level {l : List α} (hl : (l.map key).Nodup) (h : Binding node key (pairs l)) :
    ((level node l).map key).Nodup := by
  induction l using pairs.induct with
  | case1 => exact List.nodup_nil
  | case2 x => exact List.nodup_singleton _
  | case3 x y rest ih =>
    rw [List.map_cons, List.nodup_cons, List.map_cons, List.nodup_cons] at hl
    rw [level, pairs, List.map_cons, List.map_cons, List.nodup_cons]
    refine ⟨fun hmem ↦ ?_, ih hl.2.2 (h.mono (List.subset_cons_self _ _))⟩
    obtain ⟨_, hnode, hkey⟩ := List.mem_map.mp hmem
    obtain ⟨q, hq, rfl⟩ := List.mem_map.mp hnode
    have hsame := h q (List.mem_cons_of_mem _ hq) (x, y) List.mem_cons_self hkey
    refine hl.1 (List.mem_cons_of_mem _ ?_)
    exact hsame.1 ▸ List.mem_map_of_mem (mem_of_mem_pairs hq).1

/-- The keys of a round are those of no other list: an odd last element would stand for two
equal keys of the other. -/
theorem level_inj {l l' : List α} (hl : (l.map key).Nodup) (hl' : (l'.map key).Nodup)
    (h : Binding node key (pairs l ++ pairs l'))
    (hlevel : (level node l).map key = (level node l').map key) : l.map key = l'.map key := by
  induction l using pairs.induct generalizing l' with
  | case1 =>
    match l' with
    | [] => rfl
    | [x'] => exact absurd hlevel (by simp [level, pairs])
    | x' :: y' :: rest' => exact absurd hlevel (by simp [level, pairs])
  | case2 x =>
    match l' with
    | [] => exact absurd hlevel (by simp [level, pairs])
    | [x'] =>
      have hkey : key (node x x) = key (node x' x') := List.head_eq_of_cons_eq hlevel
      have hsame := h (x, x) (by simp [pairs]) (x', x') (by simp [pairs]) hkey
      rw [List.map_singleton, List.map_singleton, hsame.1]
    | x' :: y' :: rest' =>
      have hkey : key (node x x) = key (node x' y') := List.head_eq_of_cons_eq hlevel
      have hsame := h (x, x) (by simp [pairs]) (x', y') (by simp [pairs]) hkey
      refine absurd (hsame.1.symm.trans hsame.2) ?_
      rw [List.map_cons, List.nodup_cons, List.map_cons] at hl'
      exact fun heq ↦ hl'.1 (heq ▸ List.mem_cons_self)
  | case3 x y rest ih =>
    match l' with
    | [] => exact absurd hlevel (by simp [level, pairs])
    | [x'] =>
      have hkey : key (node x y) = key (node x' x') := List.head_eq_of_cons_eq hlevel
      have hsame := h (x, y) (by simp [pairs]) (x', x') (by simp [pairs]) hkey
      refine absurd (hsame.1.trans hsame.2.symm) ?_
      rw [List.map_cons, List.nodup_cons, List.map_cons] at hl
      exact fun heq ↦ hl.1 (heq ▸ List.mem_cons_self)
    | x' :: y' :: rest' =>
      have hkey : key (node x y) = key (node x' y') := List.head_eq_of_cons_eq hlevel
      have hsame := h (x, y) (by simp [pairs]) (x', y') (by simp [pairs]) hkey
      rw [List.map_cons, List.nodup_cons, List.map_cons, List.nodup_cons] at hl hl'
      have hrest : rest.map key = rest'.map key := by
        refine ih hl.2.2 hl'.2.2 (h.mono ?_) (List.tail_eq_of_cons_eq hlevel)
        intro p hp
        rcases List.mem_append.mp hp with hp | hp
        · exact List.mem_append_left _ (List.mem_cons_of_mem _ hp)
        · exact List.mem_append_right _ (List.mem_cons_of_mem _ hp)
      rw [List.map_cons, List.map_cons, List.map_cons, List.map_cons, hsame.1, hsame.2, hrest]

/-- The rounds together: lists whose keys agree after as many rounds agree. -/
theorem iterate_level_inj {d : ℕ} {l l' : List α} (hl : (l.map key).Nodup)
    (hl' : (l'.map key).Nodup)
    (h : Binding node key (hashedPairs node d l ++ hashedPairs node d l'))
    (hroot : ((level node)^[d] l).map key = ((level node)^[d] l').map key) :
    l.map key = l'.map key := by
  induction d generalizing l l' with
  | zero => exact hroot
  | succ d ih =>
    have hpairs : Binding node key (pairs l ++ pairs l') := by
      refine h.mono fun p hp ↦ ?_
      rw [hashedPairs, hashedPairs]
      simp only [List.mem_append] at hp ⊢
      exact hp.imp Or.inl Or.inl
    have hrest : Binding node key
        (hashedPairs node d (level node l) ++ hashedPairs node d (level node l')) := by
      refine h.mono fun p hp ↦ ?_
      rw [hashedPairs, hashedPairs]
      simp only [List.mem_append] at hp ⊢
      exact hp.imp Or.inr Or.inr
    rw [Function.iterate_succ_apply, Function.iterate_succ_apply] at hroot
    refine level_inj hl hl' hpairs (ih ?_ ?_ hrest hroot)
    · exact nodup_level hl (hpairs.mono (List.subset_append_left _ _))
    · exact nodup_level hl' (hpairs.mono (List.subset_append_right _ _))

end Key

end GseNetwork.Foundation.PairTree
