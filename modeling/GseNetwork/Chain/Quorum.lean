import GseNetwork.Chain.Valid

namespace GseNetwork.Chain.Quorum

open GseNetwork.Core

variable {env : Env} {b b' : BlockState} {x y : RollbackState} {hc : HeaderConfirmation}

structure Confirms (hc : HeaderConfirmation) (b : BlockState) : Prop where
  number_eq : hc.number.toNat = b.blockNumber
  blockID_eq : hc.blockID = b.blockID
  isExist : b.activeProducers.isExist hc.producer = true

theorem Confirms.congr (h : Confirms hc b) (hnumber : b'.blockNumber = b.blockNumber)
    (hid : b'.blockID = b.blockID) (hps : b'.activeProducers = b.activeProducers) :
    Confirms hc b' :=
  ⟨h.number_eq.trans hnumber.symm, h.blockID_eq.trans hid.symm, hps ▸ h.isExist⟩

/-- At least two thirds of the producers of the snapshot, rounded down, and at least one have
each signed a confirmation of exactly this block. -/
def Backed (env : Env) (b : BlockState) : Prop :=
  ∃ addresses : List Address, addresses.Nodup ∧
    b.activeProducers.size * 2 / 3 ≤ addresses.length ∧ 1 ≤ addresses.length ∧
    ∀ a ∈ addresses, b.activeProducers.isExist a = true ∧
      ∃ hc ∈ b.confirmations, hc.producer = a ∧ hc.number.toNat = b.blockNumber ∧
        hc.blockID = b.blockID ∧ Valid.Signed env hc

/-- What a delivered confirmation has to be like for the block state `b` that it reaches: one
that is not the repetition of a stored one is signed, and of a producer that none is stored of;
and where the quorum is empty, the first one is one that `b` counts. -/
structure FairFor (env : Env) (hc : HeaderConfirmation) (b : BlockState) : Prop where
  signed : Confirms hc b → (∀ hc' ∈ b.confirmations, hc'.equal hc = false) →
    Valid.Signed env hc
  unique : Confirms hc b → ∀ hc' ∈ b.confirmations, hc'.producer = hc.producer →
    hc'.equal hc = true
  counted : b.activeProducers.size < 2 → b.confirmations = [] → Confirms hc b

/-- What one block state keeps: its confirmations are signed, for this block, and of different
producers, and it is solid only with a quorum of them. -/
structure Counted (env : Env) (b : BlockState) : Prop where
  confirms : ∀ hc ∈ b.confirmations, Confirms hc b
  signed : ∀ hc ∈ b.confirmations, Valid.Signed env hc
  distinct : (b.confirmations.map HeaderConfirmation.producer).Nodup
  quorum : b.bftSolidifyBlockNumber ≠ 0 → b.activeProducers.size * 2 / 3 ≤ b.confirmations.length ∧
    1 ≤ b.confirmations.length

theorem Counted.backed (h : Counted env b) (hsolid : b.bftSolidifyBlockNumber ≠ 0) :
    Backed env b := by
  obtain ⟨hthreshold, hone⟩ := h.quorum hsolid
  refine ⟨b.confirmations.map HeaderConfirmation.producer, h.distinct, ?_, ?_, ?_⟩
  · rwa [List.length_map]
  · rwa [List.length_map]
  · intro a ha
    obtain ⟨hc, hmem, rfl⟩ := List.mem_map.mp ha
    have hconfirms := h.confirms hc hmem
    exact ⟨hconfirms.isExist, hc, hmem, rfl, hconfirms.number_eq, hconfirms.blockID_eq,
      h.signed hc hmem⟩

theorem counted_ofBlock (sha3 : Bytes → H256) (garbage : UInt8) (block : Block)
    (ps : ProducerSnapshot) :
    Counted env { BlockState.ofBlock sha3 garbage block with activeProducers := ps } := by
  constructor <;> simp [BlockState.ofBlock]

section Confirm

theorem addConfirmation_cases (b : BlockState) (hc : HeaderConfirmation) :
    b.addConfirmation hc = b ∧ (Confirms hc b → ∃ hc' ∈ b.confirmations, hc'.equal hc = true) ∨
      Confirms hc b ∧ (∀ hc' ∈ b.confirmations, hc'.equal hc = false) ∧
        b.addConfirmation hc = { b with
          confirmCount := b.confirmCount + 1
          confirmations := b.confirmations ++ [hc] } := by
  unfold BlockState.addConfirmation
  split_ifs with hblock hexist hequal
  · refine Or.inl ⟨rfl, fun h ↦ ?_⟩
    rcases hblock with hnumber | hid
    · exact absurd h.number_eq hnumber
    · exact absurd h.blockID_eq hid
  · refine Or.inl ⟨rfl, fun h ↦ ?_⟩
    rw [h.isExist] at hexist
    contradiction
  · exact Or.inl ⟨rfl, fun _ ↦ List.any_eq_true.mp hequal⟩
  · obtain ⟨hnumber, hid⟩ := not_or.mp hblock
    refine Or.inr ⟨⟨not_not.mp hnumber, not_not.mp hid, by simpa using hexist⟩, ?_, rfl⟩
    simpa using hequal

theorem Counted.addConfirmation (h : Counted env b) (hfair : FairFor env hc b) :
    Counted env (b.addConfirmation hc) := by
  rcases addConfirmation_cases b hc with ⟨heq, -⟩ | ⟨hconfirms, hnew, heq⟩
  · rwa [heq]
  · rw [heq]
    refine ⟨fun c hmem ↦ ?_, fun c hmem ↦ ?_, ?_, fun hsolid ↦ ?_⟩
    · rcases List.mem_append.mp hmem with hold | hlast
      · exact (h.confirms c hold).congr rfl rfl rfl
      · rw [List.mem_singleton.mp hlast]
        exact hconfirms.congr rfl rfl rfl
    · rcases List.mem_append.mp hmem with hold | hlast
      · exact h.signed c hold
      · rw [List.mem_singleton.mp hlast]
        exact hfair.signed hconfirms hnew
    · rw [List.map_append, List.map_singleton, List.nodup_append]
      refine ⟨h.distinct, by simp, ?_⟩
      intro a ha c hc' heq
      obtain ⟨old, hold, rfl⟩ := List.mem_map.mp ha
      have hsame := hfair.unique hconfirms old hold (heq.trans (List.mem_singleton.mp hc'))
      rw [hnew old hold] at hsame
      contradiction
    · obtain ⟨hthreshold, hone⟩ := h.quorum hsolid
      simp only [List.length_append, List.length_singleton]
      exact ⟨by omega, by omega⟩

theorem one_le_of_quorum (hfair : FairFor env hc b)
    (hquorum : (b.addConfirmation hc).reachesQuorum = true) :
    1 ≤ (b.addConfirmation hc).confirmations.length := by
  simp only [BlockState.reachesQuorum, Bool.and_eq_true, decide_eq_true_eq] at hquorum
  rcases addConfirmation_cases b hc with ⟨heq, hexists⟩ | ⟨-, -, heq⟩
  · rw [heq] at hquorum ⊢
    by_cases hsize : b.activeProducers.size < 2
    · refine List.length_pos_of_ne_nil fun hnil ↦ ?_
      obtain ⟨old, hold, -⟩ := hexists (hfair.counted hsize hnil)
      rw [hnil] at hold
      simp at hold
    · omega
  · rw [heq]
    simp

theorem confirm_eq (hc : HeaderConfirmation) (b : BlockState) :
    RollbackState.confirm hc b = if (b.addConfirmation hc).reachesQuorum then
      (b.addConfirmation hc).setBFTSolidify else b.addConfirmation hc := rfl

theorem Counted.confirm (h : Counted env b) (hfair : FairFor env hc b) :
    Counted env (RollbackState.confirm hc b) := by
  have hadd := h.addConfirmation hfair
  rw [confirm_eq]
  split_ifs with hquorum
  · have hone := one_le_of_quorum hfair hquorum
    simp only [BlockState.reachesQuorum, Bool.and_eq_true, decide_eq_true_eq] at hquorum
    exact ⟨fun c hmem ↦ (hadd.confirms c hmem).congr rfl rfl rfl, hadd.signed, hadd.distinct,
      fun _ ↦ ⟨hquorum.2, hone⟩⟩
  · exact hadd

end Confirm

section Runs

/-- What the node does to its fork index, one operation at a time; a received block state counts
as the sequence of its confirmations. The confirmations delivered are those that `P` admits in
the state they reach. -/
inductive Step (env : Env) (P : RollbackState → HeaderConfirmation → Prop) :
    RollbackState → RollbackState → Prop
  | add {x y : RollbackState} {block : Block} {ps : ProducerSnapshot}
      {signal : Option BlockState} :
      x.add env.sha3 env.garbage block ps = .ok (y, signal) → Step env P x y
  | confirm {x : RollbackState} {hc : HeaderConfirmation} :
      P x hc → Step env P x (x.addConfirmation hc)
  | remove (x : RollbackState) (blockID : BlockID) : Step env P x (x.remove blockID)
  | solidify (x : RollbackState) (number : ℕ) :
      Step env P x { x with solidifyNumber := number }

def Run (env : Env) (P : RollbackState → HeaderConfirmation → Prop) :
    RollbackState → RollbackState → Prop :=
  Relation.ReflTransGen (Step env P)

def Fair (env : Env) (x : RollbackState) (hc : HeaderConfirmation) : Prop :=
  ∀ b ∈ x.index, b.blockID = hc.blockID → FairFor env hc b

theorem add_eq_ok {sha3 : Bytes → H256} {garbage : UInt8} {block : Block} {ps : ProducerSnapshot}
    {signal : Option BlockState} (h : x.add sha3 garbage block ps = .ok (y, signal)) :
    y.index = x.index ++ [{ BlockState.ofBlock sha3 garbage block with activeProducers := ps }] ∧
      y.solidifyNumber = x.solidifyNumber := by
  unfold RollbackState.add at h
  split_ifs at h
  obtain ⟨rfl, -⟩ := Prod.mk.inj (Except.ok.inj h)
  exact ⟨rfl, rfl⟩

theorem removeAncestors_subset (fuel : ℕ) (index : List BlockState) (blockID : BlockID) :
    RollbackState.removeAncestors fuel index blockID ⊆ index := by
  induction fuel generalizing blockID with
  | zero => exact List.Subset.refl _
  | succ fuel ih =>
    rw [RollbackState.removeAncestors]
    split
    · exact List.Subset.refl _
    · dsimp only
      refine List.Subset.trans (List.filter_subset_self _) ?_
      split
      · exact ih _
      · exact List.Subset.refl _

@[simp] theorem confirm_blockID (hc : HeaderConfirmation) (b : BlockState) :
    (RollbackState.confirm hc b).blockID = b.blockID := by
  have hadd : (b.addConfirmation hc).blockID = b.blockID := by
    rcases addConfirmation_cases b hc with ⟨heq, -⟩ | ⟨-, -, heq⟩ <;> rw [heq]
  rw [confirm_eq]
  split_ifs <;> exact hadd

def AllCounted (env : Env) (initial : BlockID) (x : RollbackState) : Prop :=
  ∀ b ∈ x.index, b.blockID ≠ initial → Counted env b

theorem AllCounted.step {initial : BlockID} (h : AllCounted env initial x)
    (hstep : Step env (Fair env) x y) : AllCounted env initial y := by
  cases hstep with
  | add hadd =>
    intro b hb hne
    rw [(add_eq_ok hadd).1] at hb
    rcases List.mem_append.mp hb with hold | hnew
    · exact h b hold hne
    · rw [List.mem_singleton.mp hnew]
      exact counted_ofBlock _ _ _ _
  | confirm hfair =>
    intro b hb hne
    obtain ⟨b₀, hb₀, rfl⟩ := List.mem_map.mp hb
    split_ifs at hne ⊢ with hid
    · rw [confirm_blockID] at hne
      exact (h b₀ hb₀ hne).confirm (hfair b₀ hb₀ (beq_iff_eq.mp hid))
    · exact h b₀ hb₀ hne
  | remove blockID => exact fun b hb ↦ h b (removeAncestors_subset _ _ _ hb)
  | solidify number => exact h

theorem AllCounted.run {initial : BlockID} (h : AllCounted env initial x)
    (hrun : Run env (Fair env) x y) : AllCounted env initial y := by
  induction hrun with
  | refl => exact h
  | tail _ hstep ih => exact ih.step hstep

/-- In every run in which all confirmations delivered are fair, a block state other than the
initial one that is marked solid is backed by a quorum. A block of number zero would start with
both numbers equal. -/
theorem backed_of_fair (env : Env) (head : BlockState) (x : RollbackState)
    (hrun : Run env (Fair env) { head := head, index := [head] } x) (b : BlockState)
    (hb : b ∈ x.index) (hne : b.blockID ≠ head.blockID) (hpos : 0 < b.blockNumber)
    (hsolid : b.bftSolidifyBlockNumber = b.blockNumber) : Backed env b := by
  have hinit : AllCounted env head.blockID { head := head, index := [head] } := by
    intro c hc hne
    exact absurd (congrArg BlockState.blockID (List.mem_singleton.mp hc)) hne
  exact (hinit.run hrun b hb hne).backed (by omega)

end Runs

section Pair

/-- The fork index after `add`, which leaves it alone where it throws. -/
def added (env : Env) (x : RollbackState) (block : Block) (ps : ProducerSnapshot) :
    RollbackState :=
  match x.add env.sha3 env.garbage block ps with
  | .ok (y, _) => y
  | .error _ => x

theorem run_added {P : RollbackState → HeaderConfirmation → Prop} (block : Block)
    (ps : ProducerSnapshot) : Run env P x (added env x block ps) := by
  unfold added
  split
  · next hadd => exact .single (.add hadd)
  · exact .refl

/-- Two producers, a block of one of them and a confirmation of it in the name of producer 1;
every signature recovers to the given key. -/
def pairEnv (key : Public) : Env where
  sha3 data := BitVec.ofNat 256 (Foundation.BigEndian.fromBigEndian data)
  recover _ _ := key
  chainID := 0
  address := 1

variable (key : Public)

def pairHead : BlockState := BlockState.ofBlock (pairEnv key).sha3 0 {}

def pairBlock : Block :=
  { blockHeader := { number := 1, parentHash := (pairHead key).blockID, producer := 1 } }

def pairSnapshot : ProducerSnapshot where
  producers := [
    { address := 1, timestamp := 1, votes := 0 }, { address := 2, timestamp := 1, votes := 0 }]

def pairAdded : RollbackState :=
  added (pairEnv key) { head := pairHead key, index := [pairHead key] } (pairBlock key)
    pairSnapshot

def pairConfirmation : HeaderConfirmation where
  chainID := 0
  number := 1
  blockID := (pairBlock key).getHash (pairEnv key).sha3
  timestamp := 0
  producer := 1

def pairState : BlockState :=
  RollbackState.confirm (pairConfirmation key)
    { BlockState.ofBlock (pairEnv key).sha3 0 (pairBlock key) with
      activeProducers := pairSnapshot }

theorem backed_of_fair_pair : Backed (pairEnv 1) (pairState 1) := by
  have hfresh : ∀ b ∈ (pairAdded 1).index, b.confirmations = [] ∧
      (b.blockID = (pairConfirmation 1).blockID → b.activeProducers.size = 2) := by
    decide +kernel
  have hsigned : Valid.validConfirmation (pairEnv 1) (pairConfirmation 1) = true := by
    decide +kernel
  refine backed_of_fair (pairEnv 1) (pairHead 1)
    ((pairAdded 1).addConfirmation (pairConfirmation 1))
    (.tail (run_added (pairBlock 1) pairSnapshot) (.confirm fun b hb hid ↦ ?_)) (pairState 1)
    (by decide +kernel) (by decide +kernel) (by decide +kernel) (by decide +kernel)
  obtain ⟨hnone, hsize⟩ := hfresh b hb
  refine ⟨fun _ _ ↦ ⟨hsigned, by decide +kernel⟩, fun _ old hold ↦ ?_, fun hlt ↦ ?_⟩
  · rw [hnone] at hold
    simp at hold
  · have htwo := hsize hid
    omega

/-- One confirmation without a valid signature makes a block of two producers solid. -/
theorem solid_without_signature :
    Run (pairEnv 0) (fun _ _ ↦ True) { head := pairHead 0, index := [pairHead 0] }
        ((pairAdded 0).addConfirmation (pairConfirmation 0)) ∧
      pairState 0 ∈ ((pairAdded 0).addConfirmation (pairConfirmation 0)).index ∧
      (pairState 0).blockID ≠ (pairHead 0).blockID ∧ 0 < (pairState 0).blockNumber ∧
      (pairState 0).bftSolidifyBlockNumber = (pairState 0).blockNumber ∧
      ¬ Backed (pairEnv 0) (pairState 0) := by
  refine ⟨.tail (run_added (pairBlock 0) pairSnapshot) (.confirm trivial), by decide +kernel,
    by decide +kernel, by decide +kernel, by decide +kernel, ?_⟩
  rintro ⟨addresses, -, -, hone, hall⟩
  obtain ⟨a, ha⟩ := List.exists_mem_of_length_pos hone
  obtain ⟨-, hc, -, -, -, -, hsigned⟩ := hall a ha
  exact hsigned.2 rfl

end Pair

end GseNetwork.Chain.Quorum
