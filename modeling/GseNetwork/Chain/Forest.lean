import GseNetwork.Chain.Finality
import GseNetwork.Chain.Lineage

namespace GseNetwork.Chain

open GseNetwork.Core GseNetwork.Foundation
open ForkIndex (ids Line Same)
open BlockChain

namespace RollbackState

def set (x : RollbackState) (bsp : BlockState) : Except Exception RollbackState :=
  if (x.getBlock bsp.blockID).isSome then .error ⟨.rollbackState, "Duplicate state!"⟩
  else .ok { x with
    index := x.index ++ [bsp]
    head := if x.head.blockNumber < bsp.blockNumber then bsp else x.head }

inductive Operation
  | set (bsp : BlockState)
  | add (block : Block) (ps : ProducerSnapshot)
  | confirmation (hc : HeaderConfirmation)
  | blockState (number : ℕ) (confirmations : List HeaderConfirmation)
  | remove (blockID : BlockID)
  | removeByNumber (number : ℕ)

def perform (sha3 : Bytes → H256) (garbage : UInt8) (x : RollbackState) :
    Operation → RollbackState
  | .set bsp => (x.set bsp).toOption.getD x
  | .add block ps => ((x.add sha3 garbage block ps).toOption.map (·.1)).getD x
  | .confirmation hc => x.addConfirmation hc
  | .blockState number confirmations => x.addSyncBlockState number confirmations
  | .remove blockID => x.remove blockID
  | .removeByNumber number => x.removeByNumber number

def first (bsp : BlockState) : RollbackState := { head := bsp, index := [bsp] }

inductive Reached (sha3 : Bytes → H256) (garbage : UInt8) (P : RollbackState → Operation → Prop)
    (x : RollbackState) : RollbackState → Prop
  | start : Reached sha3 garbage P x x
  | step {y : RollbackState} {operation : Operation} :
      Reached sha3 garbage P x y → P y operation →
        Reached sha3 garbage P x (perform sha3 garbage y operation)

structure Forest (x : RollbackState) : Prop where
  linked : ∀ b ∈ x.index, ∀ p ∈ x.index, p.blockID = b.getPrev → b.blockNumber = p.blockNumber + 1
  distinct : (ids x.index).Nodup
  head : ∃ b ∈ x.index, Same b x.head ∧ ∀ c ∈ x.index, c.blockNumber ≤ b.blockNumber

/-- The number of a new block is one above that of its parent in the index and one below those of
its children there. -/
structure Numbered (index : List BlockState) (blockID prev : BlockID) (number : ℕ) : Prop where
  parent : ∀ p ∈ index, p.blockID = prev → number = p.blockNumber + 1
  children : ∀ c ∈ index, c.getPrev = blockID → c.blockNumber = number + 1
  loopless : prev ≠ blockID

/-- What is inserted carries the number of its place, and what is removed is neither the head nor
a descendant of it. -/
def Fits (sha3 : Bytes → H256) (x : RollbackState) : Operation → Prop
  | .set bsp => Numbered x.index bsp.blockID bsp.getPrev bsp.blockNumber
  | .add block _ => Numbered x.index (block.getHash sha3) block.getParentHash block.getNumber
  | .remove blockID => ¬ Line x.index blockID x.head.blockID
  | .removeByNumber number => ∀ b, x.getBlockByNumber number = some b →
      ¬ Line x.index b.blockID x.head.blockID
  | _ => True

variable {sha3 : Bytes → H256} {garbage : UInt8} {x y : RollbackState} {new : BlockState}

theorem linked_append (h : Forest x) (hnew : Numbered x.index new.blockID new.getPrev
    new.blockNumber) :
    ∀ b ∈ x.index ++ [new], ∀ p ∈ x.index ++ [new], p.blockID = b.getPrev →
      b.blockNumber = p.blockNumber + 1 := by
  intro b hb p hp heq
  rcases List.mem_append.mp hb with hb | hb
  · rcases List.mem_append.mp hp with hp | hp
    · exact h.linked b hb p hp heq
    · rw [List.mem_singleton.mp hp] at heq ⊢
      exact hnew.children b hb heq.symm
  · rw [List.mem_singleton.mp hb] at heq ⊢
    rcases List.mem_append.mp hp with hp | hp
    · exact hnew.parent p hp heq
    · rw [List.mem_singleton.mp hp] at heq
      exact absurd heq.symm hnew.loopless

theorem distinct_append (h : Forest x) (hid : new.blockID ∉ ids x.index) :
    (ids (x.index ++ [new])).Nodup := by
  rw [ids, List.map_append]
  refine List.Nodup.append h.distinct (List.nodup_singleton _) fun i hi hnew ↦ ?_
  rw [List.mem_singleton.mp hnew] at hi
  exact hid hi

theorem highest_spec {index : List BlockState} (hne : index ≠ []) :
    ∃ b, highest index = some b ∧ b ∈ index ∧ ∀ c ∈ index, c.blockNumber ≤ b.blockNumber := by
  have hsome : (highest index).isSome = true := by
    obtain ⟨m, hm, hmax⟩ := Finset.exists_max_image index.toFinset (·.blockNumber)
      (List.toFinset_nonempty_iff index |>.mpr hne)
    rw [highest, List.find?_isSome]
    refine ⟨m, List.mem_toFinset.mp hm, ?_⟩
    rw [List.all_eq_true]
    exact fun c hc ↦ decide_eq_true (hmax c (List.mem_toFinset.mpr hc))
  obtain ⟨b, hb⟩ := Option.isSome_iff_exists.mp hsome
  refine ⟨b, hb, List.mem_of_find?_eq_some hb, fun c hc ↦ ?_⟩
  have hall := List.find?_some hb
  rw [List.all_eq_true] at hall
  exact of_decide_eq_true (hall c hc)

theorem Forest.set (h : Forest x) {bsp : BlockState}
    (hfits : Numbered x.index bsp.blockID bsp.getPrev bsp.blockNumber)
    (hset : x.set bsp = .ok y) : Forest y := by
  unfold RollbackState.set at hset
  split at hset
  · contradiction
  · next habsent =>
    obtain rfl := Except.ok.inj hset
    rw [ForkIndex.isSome_getBlock] at habsent
    refine ⟨linked_append h hfits, distinct_append h habsent, ?_⟩
    obtain ⟨b, hb, hsame, hmax⟩ := h.head
    have hnumber := hsame.number
    split_ifs with hlt
    · refine ⟨bsp, by simp, ⟨rfl, rfl, rfl⟩, fun c hc ↦ ?_⟩
      rcases List.mem_append.mp hc with hc | hc
      · have hle := hmax c hc
        omega
      · rw [List.mem_singleton.mp hc]
    · refine ⟨b, List.mem_append_left _ hb, hsame, fun c hc ↦ ?_⟩
      rcases List.mem_append.mp hc with hc | hc
      · exact hmax c hc
      · rw [List.mem_singleton.mp hc]
        omega

theorem Forest.add (h : Forest x) {block : Block} {ps : ProducerSnapshot}
    (hfits : Numbered x.index (block.getHash sha3) block.getParentHash block.getNumber)
    {signal : Option BlockState} (hadd : x.add sha3 garbage block ps = .ok (y, signal)) :
    Forest y := by
  rcases ForkIndex.add_cases sha3 garbage x block ps with
    ⟨e, herror, -⟩ | ⟨new, hof, hblock, -, -, -, habsent, -, hok⟩
  · rw [hadd] at herror
    contradiction
  · rw [hadd] at hok
    obtain ⟨rfl, -⟩ := Prod.mk.inj (Except.ok.inj hok)
    have hnumbered : Numbered x.index new.blockID new.getPrev new.blockNumber := by
      rw [hof.id_eq, hof.number_eq, BlockState.getPrev, hblock]
      exact hfits
    obtain ⟨b, hhighest, hb, hmax⟩ := highest_spec
      (List.append_ne_nil_of_right_ne_nil x.index (List.cons_ne_nil new []))
    refine ⟨linked_append h hnumbered, distinct_append h habsent, b, hb, ?_, hmax⟩
    simp only [ForkIndex.inserted, hhighest, Option.getD_some]
    exact ⟨rfl, rfl, rfl⟩

theorem Forest.confirmation (h : Forest x) (hc : HeaderConfirmation) :
    Forest (x.addConfirmation hc) := by
  refine ⟨?_, ?_, ?_⟩
  · intro b hb p hp heq
    obtain ⟨b₀, hb₀, rfl⟩ := List.mem_map.mp hb
    obtain ⟨p₀, hp₀, rfl⟩ := List.mem_map.mp hp
    have hbsame := Control.same_confirm hc b₀
    have hpsame := Control.same_confirm hc p₀
    rw [hbsame.number, hpsame.number]
    refine h.linked b₀ hb₀ p₀ hp₀ ?_
    rw [BlockState.getPrev, hbsame.block, hpsame.id] at heq
    exact heq
  · have hids : ids (x.addConfirmation hc).index = ids x.index :=
      ForkIndex.ids_map (Control.same_confirm hc)
    rw [hids]
    exact h.distinct
  · obtain ⟨b, hb, hsame, hmax⟩ := h.head
    have hbsame := Control.same_confirm hc b
    refine ⟨_, List.mem_map_of_mem hb, ⟨hsame.block.trans hbsame.block.symm,
      hsame.number.trans hbsame.number.symm, hsame.id.trans hbsame.id.symm⟩, fun c hc' ↦ ?_⟩
    obtain ⟨c₀, hc₀, rfl⟩ := List.mem_map.mp hc'
    rw [(Control.same_confirm hc c₀).number, hbsame.number]
    exact hmax c₀ hc₀

theorem Forest.confirmations (h : Forest x) (confirmations : List HeaderConfirmation) :
    Forest (confirmations.foldl addConfirmation x) := by
  induction confirmations generalizing x with
  | nil => exact h
  | cons hc confirmations ih => exact ih (h.confirmation hc)

theorem Forest.blockState (h : Forest x) (number : ℕ) (confirmations : List HeaderConfirmation) :
    Forest (x.addSyncBlockState number confirmations) := by
  unfold addSyncBlockState
  split
  · exact h
  · exact h.confirmations confirmations

theorem Forest.remove (h : Forest x) {blockID : BlockID}
    (hhead : ¬ Line x.index blockID x.head.blockID) : Forest (x.remove blockID) := by
  have hsub := ForkIndex.removeAncestors_sublist x.index.length x.index blockID
  obtain ⟨b, hb, hsame, hmax⟩ := h.head
  refine ⟨fun b hb p hp ↦ h.linked b (hsub.subset hb) p (hsub.subset hp),
    h.distinct.sublist (hsub.map _), b, ?_, hsame, fun c hc ↦ hmax c (hsub.subset hc)⟩
  exact ForkIndex.mem_removeAncestors _ hb (hsame.id ▸ hhead)

theorem Forest.perform (h : Forest x) {operation : Operation} (hfits : Fits sha3 x operation) :
    Forest (x.perform sha3 garbage operation) := by
  cases operation with
  | set bsp =>
    cases hset : x.set bsp with
    | error e => simpa [RollbackState.perform, hset, Except.toOption] using h
    | ok y => simpa [RollbackState.perform, hset, Except.toOption] using h.set hfits hset
  | add block ps =>
    cases hadd : x.add sha3 garbage block ps with
    | error e => simpa [RollbackState.perform, hadd, Except.toOption] using h
    | ok r =>
      obtain ⟨y, signal⟩ := r
      simpa [RollbackState.perform, hadd, Except.toOption] using h.add hfits hadd
  | confirmation hc => exact h.confirmation hc
  | blockState number confirmations => exact h.blockState number confirmations
  | remove blockID => exact h.remove hfits
  | removeByNumber number =>
    simp only [RollbackState.perform, RollbackState.removeByNumber]
    split
    · next b hfind => exact h.remove (hfits b hfind)
    · exact h

theorem forest_first {bsp : BlockState} (hloop : bsp.getPrev ≠ bsp.blockID) :
    Forest (first bsp) := by
  refine ⟨fun b hb p hp heq ↦ ?_, List.nodup_singleton _, bsp, List.mem_singleton_self _,
    ⟨rfl, rfl, rfl⟩, fun c hc ↦ ?_⟩
  · rw [List.mem_singleton.mp hb, List.mem_singleton.mp hp] at heq
    exact absurd heq.symm hloop
  · rw [List.mem_singleton.mp hc]

/-- Whatever is inserted, confirmed and removed in whatever order, as long as what is inserted
carries the number of its place and the head is not removed. -/
theorem forest_of_fits (sha3 : Bytes → H256) (garbage : UInt8) (bsp : BlockState)
    (hloop : bsp.getPrev ≠ bsp.blockID) (y : RollbackState)
    (hreached : Reached sha3 garbage (Fits sha3) (first bsp) y) : Forest y := by
  induction hreached with
  | start => exact forest_first hloop
  | step _ hfits ih => exact ih.perform hfits

end RollbackState

section Skipping

open RollbackState

def trioSkip : Block := trioBlock 1 1 2 2

theorem forest_of_fits_trio :
    Forest ((first trioChain.head).perform trioEnv.sha3 trioEnv.garbage (.add trioFirst {})) := by
  refine forest_of_fits trioEnv.sha3 trioEnv.garbage trioChain.head (by decide +kernel) _
    (.step .start ⟨?_, ?_, ?_⟩)
  all_goals decide +kernel

/-- The worker takes the block as the next one, and the index accepts it. -/
theorem block_misnumbered :
    Initialised trioEnv {} trioChain ∧
      Run trioEnv (fun _ _ ↦ True) trioChain
        (afterBlock trioEnv (afterBlock trioEnv trioChain trioFirst) trioSkip) ∧
      ¬ Forest (afterBlock trioEnv (afterBlock trioEnv trioChain trioFirst)
        trioSkip).rollbackState := by
  refine ⟨initialised_trioChain,
    run_afterBlock (run_afterBlock .start trivial trivial (by decide +kernel)) trivial trivial
      (by decide +kernel), fun h ↦ ?_⟩
  have hbad : ¬ ∀ b ∈ (afterBlock trioEnv (afterBlock trioEnv trioChain trioFirst)
      trioSkip).rollbackState.index,
      ∀ p ∈ (afterBlock trioEnv (afterBlock trioEnv trioChain trioFirst)
        trioSkip).rollbackState.index,
        p.blockID = b.getPrev → b.blockNumber = p.blockNumber + 1 := by decide +kernel
  exact hbad h.linked

end Skipping

end GseNetwork.Chain
