import GseNetwork.Chain.Quorum

namespace GseNetwork.Chain.ForkIndex

open GseNetwork.Core

variable {sha3 : Bytes → H256} {index : List BlockState} {b c : BlockState}

structure OfBlock (sha3 : Bytes → H256) (b : BlockState) : Prop where
  number_eq : b.blockNumber = b.block.getNumber
  id_eq : b.blockID = b.block.getHash sha3

def ids (index : List BlockState) : List BlockID := index.map BlockState.blockID

structure WellFormed (sha3 : Bytes → H256) (index : List BlockState) : Prop where
  ofBlock : ∀ b ∈ index, OfBlock sha3 b
  nodup : (ids index).Nodup

def byNumber (index : List BlockState) (number : ℕ) : Option BlockState :=
  index.find? fun b ↦ b.blockNumber == number

def byID (index : List BlockState) (id : BlockID) : Option BlockState :=
  index.find? fun b ↦ b.blockID == id

theorem mem_of_byNumber {number : ℕ} (h : byNumber index number = some b) :
    b ∈ index ∧ b.blockNumber = number :=
  ⟨List.mem_of_find?_eq_some h, by simpa using List.find?_some h⟩

theorem WellFormed.eq_of_id (h : WellFormed sha3 index) (hb : b ∈ index) (hc : c ∈ index)
    (hid : b.blockID = c.blockID) : b = c := List.inj_on_of_nodup_map h.nodup hb hc hid

theorem byID_of_nodup (h : (ids index).Nodup) (hb : b ∈ index) :
    byID index b.blockID = some b := by
  cases hfind : byID index b.blockID with
  | none =>
    have hnone := List.find?_eq_none.mp hfind b hb
    simp at hnone
  | some c =>
    have hid : c.blockID = b.blockID := by simpa using List.find?_some hfind
    rw [List.inj_on_of_nodup_map h (List.mem_of_find?_eq_some hfind) hb hid]

theorem WellFormed.byID_eq (h : WellFormed sha3 index) (hb : b ∈ index) :
    byID index b.blockID = some b := byID_of_nodup h.nodup hb

theorem isSome_getBlock (x : RollbackState) (id : BlockID) :
    (x.getBlock id).isSome = true ↔ id ∈ ids x.index := by
  unfold RollbackState.getBlock
  rw [List.find?_isSome, ids, List.mem_map]
  simp only [beq_iff_eq]

theorem byNumber_append (number : ℕ) (new : BlockState) :
    byNumber (index ++ [new]) number =
      (byNumber index number).or (if new.blockNumber = number then some new else none) := by
  unfold byNumber
  rw [List.find?_append, List.find?_singleton]
  simp only [beq_iff_eq]

theorem byNumber_singleton (b : BlockState) : byNumber [b] b.blockNumber = some b := by
  simp [byNumber]

theorem byNumber_append_of_some {number : ℕ} (h : byNumber index number = some b)
    (new : BlockState) : byNumber (index ++ [new]) number = some b := by
  rw [byNumber_append, h]
  rfl

theorem byNumber_eq_none {number : ℕ} (h : ∀ b ∈ index, b.blockNumber ≠ number) :
    byNumber index number = none := by
  refine List.find?_eq_none.mpr fun b hb ↦ ?_
  simpa using h b hb

theorem WellFormed.append (h : WellFormed sha3 index) {new : BlockState} (hnew : OfBlock sha3 new)
    (hid : new.blockID ∉ ids index) : WellFormed sha3 (index ++ [new]) := by
  refine ⟨fun b hb ↦ ?_, ?_⟩
  · rcases List.mem_append.mp hb with hold | hlast
    · exact h.ofBlock b hold
    · rw [List.mem_singleton.mp hlast]
      exact hnew
  · rw [ids, List.map_append, List.map_singleton]
    exact List.Nodup.append h.nodup (by simp) (by simpa [ids] using hid)

theorem WellFormed.filter (h : WellFormed sha3 index) (p : BlockState → Bool) :
    WellFormed sha3 (index.filter p) :=
  ⟨fun b hb ↦ h.ofBlock b (List.mem_of_mem_filter hb),
    h.nodup.sublist (List.filter_sublist.map BlockState.blockID)⟩

theorem byNumber_filter {number : ℕ} {p : BlockState → Bool}
    (h : ∀ b ∈ index, b.blockNumber = number → p b = true) :
    byNumber (index.filter p) number = byNumber index number := by
  unfold byNumber
  rw [List.find?_filter]
  refine List.find?_congr fun b hb ↦ ?_
  rw [Bool.eq_iff_iff, decide_eq_true_eq, and_iff_right_iff_imp, beq_iff_eq]
  exact h b hb

section Extremes

theorem highest_eq_some (hb : byNumber index b.blockNumber = some b)
    (hmax : ∀ c ∈ index, c.blockNumber ≤ b.blockNumber) :
    RollbackState.highest index = some b := by
  have heq : (fun c : BlockState ↦ index.all fun d ↦ decide (d.blockNumber ≤ c.blockNumber)) =
      fun c ↦ decide (b.blockNumber ≤ c.blockNumber) := by
    funext c
    rw [Bool.eq_iff_iff, List.all_eq_true]
    simp only [decide_eq_true_eq]
    constructor
    · intro hall
      exact hall b (mem_of_byNumber hb).1
    · intro hle d hd
      exact (hmax d hd).trans hle
  rw [RollbackState.highest, heq, ← hb]
  refine List.find?_congr fun c hc ↦ ?_
  rw [Bool.eq_iff_iff, decide_eq_true_eq, beq_iff_eq]
  exact ⟨fun hle ↦ le_antisymm (hmax c hc) hle, fun he ↦ he.ge⟩

theorem maxBftSolidify_append (index : List BlockState) (new : BlockState) :
    RollbackState.maxBftSolidify (index ++ [new]) =
      max (RollbackState.maxBftSolidify index) new.bftSolidifyBlockNumber := by
  simp only [RollbackState.maxBftSolidify, List.foldl_append, List.foldl_cons, List.foldl_nil]

theorem oldestNumber_append (hne : index ≠ []) (new : BlockState) :
    RollbackState.oldestNumber (index ++ [new]) =
      min (RollbackState.oldestNumber index) new.blockNumber := by
  cases index with
  | nil => exact absurd rfl hne
  | cons b index =>
    simp only [RollbackState.oldestNumber, List.foldl_append, List.foldl_cons, List.foldl_nil,
      List.cons_append, List.map_cons, List.headD_cons]

end Extremes

section Adding

def inserted (x : RollbackState) (new : BlockState) : RollbackState :=
  { x with
    index := x.index ++ [new]
    head := (RollbackState.highest (x.index ++ [new])).getD new }

/-- `add` refuses a block that is there or whose parent is not; else it appends a block state
without confirmations, and raises the signal as its numbers say. -/
theorem add_cases (sha3 : Bytes → H256) (garbage : UInt8) (x : RollbackState) (block : Block)
    (ps : ProducerSnapshot) :
    (∃ e, x.add sha3 garbage block ps = .error e ∧ e.type = .rollbackState ∧
      (block.getHash sha3 ∈ ids x.index ∨ block.getParentHash ∉ ids x.index)) ∨
    ∃ new : BlockState, OfBlock sha3 new ∧ new.block = block ∧ new.activeProducers = ps ∧
      new.bftSolidifyBlockNumber = 0 ∧ new.confirmations = [] ∧
      new.blockID ∉ ids x.index ∧ block.getParentHash ∈ ids x.index ∧
      x.add sha3 garbage block ps = .ok
        (inserted x new,
          if min (RollbackState.oldestNumber x.index) block.getNumber <
              RollbackState.maxBftSolidify x.index then
            byNumber (x.index ++ [new]) (RollbackState.maxBftSolidify x.index)
          else none) := by
  unfold RollbackState.add
  by_cases hexist : (x.getBlock (block.getHash sha3)).isSome = true
  · rw [if_pos hexist]
    exact Or.inl ⟨_, rfl, rfl, Or.inl ((isSome_getBlock x _).mp hexist)⟩
  rw [if_neg hexist]
  rw [isSome_getBlock] at hexist
  by_cases hparent : block.getParentHash ∈ ids x.index
  · have hsome := (isSome_getBlock x block.getParentHash).mpr hparent
    rw [if_neg (by simp [Option.isSome_iff_ne_none.mp hsome])]
    have hne : x.index ≠ [] := by
      intro hnil
      simp [hnil, ids] at hparent
    obtain ⟨new, hnew⟩ : ∃ new, new = { BlockState.ofBlock sha3 garbage block with
      activeProducers := ps } := ⟨_, rfl⟩
    have hnumber : new.blockNumber = block.getNumber := by rw [hnew]; rfl
    have hbft : new.bftSolidifyBlockNumber = 0 := by rw [hnew]; rfl
    refine Or.inr ⟨new, ?_, ?_, ?_, hbft, ?_, ?_, hparent, ?_⟩
    · rw [hnew]
      exact ⟨rfl, rfl⟩
    · rw [hnew]
      rfl
    · rw [hnew]
    · rw [hnew]
      rfl
    · rw [hnew]
      exact hexist
    · have hmax := maxBftSolidify_append x.index new
      have hold := oldestNumber_append hne new
      rw [hbft, max_eq_left (Nat.zero_le _)] at hmax
      rw [hnumber] at hold
      simp only [← hnew, hmax, hold]
      rfl
  · have hnone := mt (isSome_getBlock x block.getParentHash).mp hparent
    rw [if_pos (by simpa using hnone)]
    exact Or.inl ⟨_, rfl, rfl, Or.inr hparent⟩

end Adding

section Removal

theorem any_blockID (id : BlockID) :
    (index.any fun c ↦ c.blockID == id) = decide (id ∈ ids index) := by
  rw [Bool.eq_iff_iff, decide_eq_true_eq, List.any_eq_true, ids, List.mem_map]
  simp only [beq_iff_eq]

theorem WellFormed.removeAncestors_root (h : WellFormed sha3 index) (hb : b ∈ index)
    (hprev : b.getPrev ∉ ids index) (fuel : ℕ) :
    RollbackState.removeAncestors (fuel + 1) index b.blockID =
      index.filter fun d ↦ d.blockID != b.blockID := by
  have hfind : index.find? (fun d ↦ d.blockID == b.blockID) = some b := h.byID_eq hb
  simp only [RollbackState.removeAncestors, hfind, any_blockID, hprev, decide_false,
    Bool.false_eq_true, if_false]

theorem WellFormed.removeAncestors_child (h : WellFormed sha3 index) (hb : b ∈ index)
    (hc : c ∈ index) (hprev : b.getPrev = c.blockID) (hroot : c.getPrev ∉ ids index) (fuel : ℕ) :
    RollbackState.removeAncestors (fuel + 2) index b.blockID =
      (index.filter fun d ↦ d.blockID != c.blockID).filter fun d ↦ d.blockID != b.blockID := by
  have hfind : index.find? (fun d ↦ d.blockID == b.blockID) = some b := h.byID_eq hb
  have hmem : c.blockID ∈ ids index := List.mem_map_of_mem hc
  rw [RollbackState.removeAncestors]
  simp only [hfind, hprev, any_blockID, hmem, decide_true, if_true,
    h.removeAncestors_root hc hroot]

end Removal

section Confirmed

structure Same (b c : BlockState) : Prop where
  block : c.block = b.block
  number : c.blockNumber = b.blockNumber
  id : c.blockID = b.blockID

variable {f : BlockState → BlockState}

theorem ids_map (hf : ∀ b, Same b (f b)) : ids (index.map f) = ids index := by
  rw [ids, List.map_map]
  exact List.map_congr_left fun b _ ↦ (hf b).id

theorem byNumber_map (hf : ∀ b, Same b (f b)) (number : ℕ) :
    byNumber (index.map f) number = (byNumber index number).map f := by
  unfold byNumber
  rw [List.find?_map]
  congr 2
  funext b
  simp only [Function.comp_apply, (hf b).number]

theorem WellFormed.map (h : WellFormed sha3 index) (hf : ∀ b, Same b (f b)) :
    WellFormed sha3 (index.map f) := by
  refine ⟨fun b hb ↦ ?_, ?_⟩
  · obtain ⟨c, hc, rfl⟩ := List.mem_map.mp hb
    have hof := h.ofBlock c hc
    exact ⟨by rw [(hf c).number, (hf c).block, hof.number_eq],
      by rw [(hf c).id, (hf c).block, hof.id_eq]⟩
  · rw [ids_map hf]
    exact h.nodup

end Confirmed

end GseNetwork.Chain.ForkIndex
