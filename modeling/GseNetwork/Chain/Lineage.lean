import GseNetwork.Chain.ForkIndex

namespace GseNetwork.Chain.ForkIndex

open GseNetwork.Core
open Relation (ReflTransGen TransGen)

variable {sha3 : Bytes → H256} {index : List BlockState} {x y : BlockID}

def Parent (index : List BlockState) (x y : BlockID) : Prop :=
  ∃ b ∈ index, b.blockID = x ∧ b.getPrev = y

/-- The block `y` is `x` or one of its ancestors, as far as the index knows them. -/
def Line (index : List BlockState) (x y : BlockID) : Prop := ReflTransGen (Parent index) x y

def Descends (index : List BlockState) (x y : BlockID) : Prop := TransGen (Parent index) x y

theorem Parent.mono {index' : List BlockState} (hsub : ∀ b ∈ index', b ∈ index)
    (h : Parent index' x y) : Parent index x y := by
  obtain ⟨b, hb, hx, hy⟩ := h
  exact ⟨b, hsub b hb, hx, hy⟩

theorem Descends.mono {index' : List BlockState} (hsub : ∀ b ∈ index', b ∈ index)
    (h : Descends index' x y) : Descends index x y :=
  TransGen.mono (fun _ _ ↦ Parent.mono hsub) _ _ h

theorem Parent.mem_ids (h : Parent index x y) : x ∈ ids index := by
  obtain ⟨b, hb, rfl, -⟩ := h
  exact List.mem_map_of_mem hb

section Removal

theorem removeAncestors_sublist (fuel : ℕ) (index : List BlockState) (id : BlockID) :
    (RollbackState.removeAncestors fuel index id).Sublist index := by
  induction fuel generalizing id with
  | zero => exact List.Sublist.refl _
  | succ fuel ih =>
    unfold RollbackState.removeAncestors
    split
    · exact List.Sublist.refl _
    · next c hc =>
      refine List.filter_sublist.trans ?_
      split
      · exact ih c.getPrev
      · exact List.Sublist.refl _

theorem mem_removeAncestors (fuel : ℕ) {b : BlockState} {id : BlockID} (hb : b ∈ index)
    (hline : ¬ Line index id b.blockID) : b ∈ RollbackState.removeAncestors fuel index id := by
  induction fuel generalizing id with
  | zero => exact hb
  | succ fuel ih =>
    unfold RollbackState.removeAncestors
    split
    · exact hb
    · next c hc =>
      have hmem := List.mem_of_find?_eq_some hc
      have hid : c.blockID = id := by simpa using List.find?_some hc
      have hne : b.blockID ≠ id := fun heq ↦ hline (heq ▸ ReflTransGen.refl)
      have hkept : b ∈ RollbackState.removeAncestors fuel index c.getPrev :=
        ih fun h ↦ hline (ReflTransGen.head ⟨c, hmem, hid, rfl⟩ h)
      refine List.mem_filter.mpr ⟨?_, by simpa using hne⟩
      split
      · exact hkept
      · exact hb

end Removal

end GseNetwork.Chain.ForkIndex
