import GseNetwork.Chain.Operations

namespace GseNetwork.Chain.Agreement

open GseNetwork.Core GseNetwork.Foundation
open ForkIndex (OfBlock)

def CountsOnce (x : RollbackState) (hc : HeaderConfirmation) : Prop :=
  ∀ b ∈ x.index, b.blockID = hc.blockID → Quorum.Confirms hc b →
    ∀ hc' ∈ b.confirmations, hc'.producer = hc.producer → hc'.equal hc = true

def CountsAllOnce : RollbackState → List HeaderConfirmation → Prop
  | _, [] => True
  | x, hc :: hcs => CountsOnce x hc ∧ CountsAllOnce (x.addConfirmation hc) hcs

variable (sha3 : Bytes → H256) (ps : ProducerSnapshot) (D : HeaderConfirmation → Prop)

structure Good (b : BlockState) : Prop where
  ofBlock : OfBlock sha3 b
  producers_eq : b.activeProducers = ps
  confirms : ∀ hc ∈ b.confirmations, Quorum.Confirms hc b ∧ D hc
  distinct : (b.confirmations.map HeaderConfirmation.producer).Nodup

def Certified (block : Block) : Prop :=
  ∃ addresses : List Address, addresses.Nodup ∧ ps.size * 2 / 3 ≤ addresses.length ∧
    ∀ a ∈ addresses, ps.isExist a = true ∧ ∃ hc, D hc ∧ hc.producer = a ∧
      hc.number.toNat = block.getNumber ∧ hc.blockID = block.getHash sha3

structure Tallied (x : RollbackState) : Prop where
  states : ∀ b ∈ x.index, b.blockNumber ≤ b.bftSolidifyBlockNumber ∨ Good sha3 ps D b
  marked : ∀ block ∈ x.marked, Certified sha3 ps D block

variable {sha3 ps D} {b : BlockState} {x y : RollbackState} {hc : HeaderConfirmation}

theorem Good.addConfirmation (h : Good sha3 ps D b) (hD : D hc)
    (honce : Quorum.Confirms hc b →
      ∀ hc' ∈ b.confirmations, hc'.producer = hc.producer → hc'.equal hc = true) :
    Good sha3 ps D (b.addConfirmation hc) := by
  rcases Quorum.addConfirmation_cases b hc with ⟨heq, -⟩ | ⟨hconfirms, hnew, heq⟩
  · rwa [heq]
  · rw [heq]
    refine ⟨⟨h.ofBlock.number_eq, h.ofBlock.id_eq⟩, h.producers_eq, fun c hc' ↦ ?_, ?_⟩
    · rcases List.mem_append.mp hc' with hold | hlast
      · exact ⟨(h.confirms c hold).1.congr rfl rfl rfl, (h.confirms c hold).2⟩
      · rw [List.mem_singleton.mp hlast]
        exact ⟨hconfirms.congr rfl rfl rfl, hD⟩
    · rw [List.map_append, List.map_singleton, List.nodup_append]
      refine ⟨h.distinct, List.nodup_singleton _, ?_⟩
      intro a ha c hc' heq
      obtain ⟨old, hold, rfl⟩ := List.mem_map.mp ha
      have hsame := honce hconfirms old hold (heq.trans (List.mem_singleton.mp hc'))
      rw [hnew old hold] at hsame
      contradiction

theorem Good.certified (h : Good sha3 ps D b) (hquorum : b.reachesQuorum = true) :
    Certified sha3 ps D b.block := by
  simp only [BlockState.reachesQuorum, Bool.and_eq_true, decide_eq_true_eq] at hquorum
  refine ⟨b.confirmations.map HeaderConfirmation.producer, h.distinct, ?_, ?_⟩
  · rw [List.length_map, ← h.producers_eq]
    exact hquorum.2
  · intro a ha
    obtain ⟨hc, hmem, rfl⟩ := List.mem_map.mp ha
    obtain ⟨hconfirms, hD⟩ := h.confirms hc hmem
    refine ⟨h.producers_eq ▸ hconfirms.isExist, hc, hD, rfl, ?_, ?_⟩
    · rw [hconfirms.number_eq, h.ofBlock.number_eq]
    · rw [hconfirms.blockID_eq, h.ofBlock.id_eq]

theorem Good.mono {D' : HeaderConfirmation → Prop} (h : Good sha3 ps D b)
    (hD : ∀ hc, D hc → D' hc) : Good sha3 ps D' b :=
  ⟨h.ofBlock, h.producers_eq, fun hc hmem ↦ (h.confirms hc hmem).imp_right (hD hc), h.distinct⟩

theorem Tallied.mono {D' : HeaderConfirmation → Prop} (h : Tallied sha3 ps D x)
    (hD : ∀ hc, D hc → D' hc) : Tallied sha3 ps D' x := by
  refine ⟨fun b hb ↦ (h.states b hb).imp_right fun hgood ↦ hgood.mono hD, fun block hmem ↦ ?_⟩
  obtain ⟨addresses, hnodup, hlength, hall⟩ := h.marked block hmem
  refine ⟨addresses, hnodup, hlength, fun a ha ↦ ?_⟩
  obtain ⟨hexist, hc, hmem, hrest⟩ := hall a ha
  exact ⟨hexist, hc, hD hc hmem, hrest⟩

theorem Tallied.upkeep {env : Env} (h : Tallied env.sha3 ps D x) (hstep : Upkeep env ps x y) :
    Tallied env.sha3 ps D y := by
  cases hstep with
  | @add block signal hadd =>
    rcases ForkIndex.add_cases env.sha3 env.garbage x block ps with
      ⟨e, herror, -⟩ | ⟨new, hof, -, hps, -, hnone, -, -, hok⟩
    · rw [hadd] at herror
      contradiction
    · rw [hadd] at hok
      obtain ⟨rfl, -⟩ := Prod.mk.inj (Except.ok.inj hok)
      refine ⟨fun b hb ↦ ?_, h.marked⟩
      rcases List.mem_append.mp hb with hold | hlast
      · exact h.states b hold
      · rw [List.mem_singleton.mp hlast]
        exact Or.inr ⟨hof, hps, by simp [hnone], by simp [hnone]⟩
  | trim htrim =>
    refine ⟨fun b hb ↦ h.states b (htrim.subset hb), fun block hmem ↦ h.marked block ?_⟩
    cases htrim with
    | remove blockID => exact hmem
    | solidify number => exact hmem

theorem Tallied.upkeeps {env : Env} (h : Tallied env.sha3 ps D x)
    (hsteps : Relation.ReflTransGen (Upkeep env ps) x y) : Tallied env.sha3 ps D y := by
  induction hsteps with
  | refl => exact h
  | tail _ hstep ih => exact ih.upkeep hstep

theorem Good.confirm (h : Good sha3 ps D (b.addConfirmation hc)) :
    Good sha3 ps D (RollbackState.confirm hc b) := by
  rw [Quorum.confirm_eq]
  split_ifs
  · exact ⟨⟨h.ofBlock.number_eq, h.ofBlock.id_eq⟩, h.producers_eq,
      fun c hmem ↦ ⟨(h.confirms c hmem).1.congr rfl rfl rfl, (h.confirms c hmem).2⟩, h.distinct⟩
  · exact h

theorem solid_confirm (h : b.blockNumber ≤ b.bftSolidifyBlockNumber) :
    (b.addConfirmation hc).reachesQuorum = false ∧
      (RollbackState.confirm hc b).blockNumber ≤
        (RollbackState.confirm hc b).bftSolidifyBlockNumber := by
  have hadd : (b.addConfirmation hc).blockNumber ≤
      (b.addConfirmation hc).bftSolidifyBlockNumber := by
    rcases Quorum.addConfirmation_cases b hc with ⟨heq, -⟩ | ⟨-, -, heq⟩
    · rwa [heq]
    · rwa [heq]
  have hquorum : (b.addConfirmation hc).reachesQuorum = false := by
    simp only [BlockState.reachesQuorum, decide_eq_false hadd.not_gt, Bool.false_and]
  refine ⟨hquorum, ?_⟩
  rw [Quorum.confirm_eq, hquorum]
  exact hadd

theorem Tallied.addConfirmation (h : Tallied sha3 ps D x) (hD : D hc)
    (honce : CountsOnce x hc) : Tallied sha3 ps D (x.addConfirmation hc) := by
  refine ⟨fun b hb ↦ ?_, fun block hmem ↦ ?_⟩
  · obtain ⟨b₀, hb₀, rfl⟩ := List.mem_map.mp hb
    split_ifs with hid
    · rcases h.states b₀ hb₀ with hsolid | hgood
      · exact Or.inl (solid_confirm hsolid).2
      · exact Or.inr (hgood.addConfirmation hD (honce b₀ hb₀ (beq_iff_eq.mp hid))).confirm
    · exact h.states b₀ hb₀
  · rcases List.mem_append.mp hmem with hold | hnew
    · exact h.marked block hold
    · obtain ⟨b, hb, rfl⟩ := List.mem_map.mp hnew
      obtain ⟨hb, hreaches⟩ := List.mem_filter.mp hb
      obtain ⟨hid, hquorum⟩ := Bool.and_eq_true_iff.mp hreaches
      rcases h.states b hb with hsolid | hgood
      · rw [(solid_confirm hsolid).1] at hquorum
        contradiction
      · have hcertified := (hgood.addConfirmation hD
          (honce b hb (beq_iff_eq.mp hid))).certified hquorum
        have hblock : (b.addConfirmation hc).block = b.block := by
          rcases Quorum.addConfirmation_cases b hc with ⟨heq, -⟩ | ⟨-, -, heq⟩ <;> rw [heq]
        rwa [hblock] at hcertified

theorem Tallied.addConfirmations {hcs : List HeaderConfirmation} (h : Tallied sha3 ps D x)
    (hD : ∀ hc ∈ hcs, D hc) (honce : CountsAllOnce x hcs) :
    Tallied sha3 ps D (hcs.foldl RollbackState.addConfirmation x) := by
  induction hcs generalizing x with
  | nil => exact h
  | cons hc hcs ih =>
    exact ih (h.addConfirmation (hD hc List.mem_cons_self) honce.1)
      (fun c hmem ↦ hD c (List.mem_cons_of_mem _ hmem)) honce.2

end GseNetwork.Chain.Agreement
