import GseNetwork.Chain.Failure
import GseNetwork.Chain.Operations
import GseNetwork.Chain.Pruning

namespace GseNetwork.Chain

open GseNetwork.Core GseNetwork.Foundation GseNetwork.Storage
open BlockChain
open ForkIndex (ids)

section Way

variable {x : RollbackState} {first p q e e' : BlockState} {l l' : List BlockState}

/-- The way of `rollbackTo` down from a block: the branch and the block it stops at. -/
inductive WayDown (x : RollbackState) (first : BlockState) :
    BlockState → List BlockState → BlockState → Prop
  | stop {p : BlockState} (h : ¬ first.blockNumber < p.blockNumber) : WayDown x first p [] p
  | step {p q e : BlockState} {l : List BlockState} (h : first.blockNumber < p.blockNumber)
      (hprev : x.getBlock p.getPrev = some q) (hrest : WayDown x first q l e) :
      WayDown x first p (p :: l) e

theorem WayDown.unique (h : WayDown x first p l e) (h' : WayDown x first p l' e') : l = l' := by
  induction h generalizing l' with
  | stop hstop =>
    cases h' with
    | stop _ => rfl
    | step hlt _ _ => exact absurd hlt hstop
  | step hlt hprev _ ih =>
    cases h' with
    | stop hstop => exact absurd hlt hstop
    | step _ hprev' hrest' =>
      rw [hprev, Option.some.injEq] at hprev'
      rw [ih (hprev' ▸ hrest')]

theorem WayDown.suffix (h : WayDown x first p l e) (hq : q ∈ l) :
    ∃ l', l'.length < l.length ∧ WayDown x first q (q :: l') e := by
  induction h with
  | stop _ => exact absurd hq List.not_mem_nil
  | @step p r e l hlt hprev hrest ih =>
    rcases List.mem_cons.mp hq with rfl | hq
    · exact ⟨l, Nat.lt_succ_self _, .step hlt hprev hrest⟩
    · obtain ⟨l', hlength, hway⟩ := ih hq
      exact ⟨l', hlength.trans (Nat.lt_succ_self _), hway⟩

theorem WayDown.above (h : WayDown x first p l e) (hq : q ∈ l) :
    first.blockNumber < q.blockNumber := by
  obtain ⟨l', -, hway⟩ := h.suffix hq
  cases hway with
  | step hlt _ _ => exact hlt

theorem WayDown.stops (h : WayDown x first p l e) : ¬ first.blockNumber < e.blockNumber := by
  induction h with
  | stop hstop => exact hstop
  | step _ _ _ ih => exact ih

theorem WayDown.nodup (h : WayDown x first p l e) : (l ++ [e]).Nodup := by
  have hend : e ∉ l := fun he ↦ h.stops (h.above he)
  refine List.Nodup.append ?_ (List.nodup_singleton e) (List.disjoint_singleton.mpr hend)
  clear hend
  induction h with
  | stop _ => exact List.nodup_nil
  | @step p q e l hlt hprev hrest ih =>
    refine List.nodup_cons.mpr ⟨fun hmem ↦ ?_, ih⟩
    obtain ⟨l', hlength, hway⟩ := hrest.suffix hmem
    have hsame := WayDown.unique (.step hlt hprev hrest) hway
    rw [List.cons.injEq] at hsame
    exact absurd hlength (by rw [hsame.2]; exact lt_irrefl _)

theorem getBlock_mem {id : BlockID} (h : x.getBlock id = some p) :
    p ∈ x.index ∧ p.blockID = id :=
  ⟨List.mem_of_find?_eq_some h, by simpa using List.find?_some h⟩

theorem WayDown.mem (h : WayDown x first p l e) (hp : p ∈ x.index) :
    ∀ q ∈ l ++ [e], q ∈ x.index := by
  induction h with
  | stop _ =>
    intro q hq
    exact List.mem_singleton.mp hq ▸ hp
  | step _ hprev _ ih =>
    intro q hq
    rcases List.mem_cons.mp hq with rfl | hq
    · exact hp
    · exact ih (getBlock_mem hprev).1 q hq

theorem WayDown.length_lt (h : WayDown x first p l e) (hp : p ∈ x.index) :
    l.length < x.index.length := by
  have hle := (h.nodup.subperm (h.mem hp)).length_le
  rw [List.length_append] at hle
  exact hle

theorem WayDown.removed {fuel : ℕ} (h : WayDown x first p l e)
    (hp : x.index.find? (fun b ↦ b.blockID == p.blockID) = some p) (hfuel : l.length < fuel) :
    ∀ c ∈ RollbackState.removeAncestors fuel x.index p.blockID, c.blockID ≠ e.blockID := by
  induction h generalizing fuel with
  | @stop p _ =>
    obtain ⟨fuel, rfl⟩ := Nat.exists_eq_add_of_lt hfuel
    intro c hc
    rw [List.length_nil, Nat.zero_add, RollbackState.removeAncestors, hp] at hc
    simpa using (List.mem_filter.mp hc).2
  | @step p q e l _ hprev _ ih =>
    obtain ⟨fuel, rfl⟩ : ∃ n, fuel = n + 1 := ⟨fuel - 1, by omega⟩
    obtain ⟨hq, hid⟩ := getBlock_mem hprev
    have hany : (x.index.any fun c ↦ c.blockID == p.getPrev) = true :=
      List.any_eq_true.mpr ⟨q, hq, by rw [hid, beq_self_eq_true]⟩
    intro c hc
    rw [RollbackState.removeAncestors, hp] at hc
    dsimp only at hc
    rw [if_pos hany, ← hid] at hc
    refine ih ?_ (by rw [List.length_cons] at hfuel; omega) c (List.mem_filter.mp hc).1
    rw [hid]
    exact hprev

end Way

section Switch

variable {s t u : BlockChain} {p e first : BlockState} {l branch : List BlockState}

theorem Trimmed.subset (h : Trimmed s t) : t.rollbackState.index ⊆ s.rollbackState.index := by
  obtain ⟨h, -⟩ := h
  generalize t.rollbackState = y at h
  induction h with
  | refl => exact List.Subset.refl _
  | tail _ htrim ih =>
    cases htrim with
    | remove blockID => exact fun b hb ↦ ih (Quorum.removeAncestors_subset _ _ _ hb)
    | solidify number => exact ih

end Switch

section Siblings

end Siblings

end GseNetwork.Chain
