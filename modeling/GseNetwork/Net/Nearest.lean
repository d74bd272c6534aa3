import GseNetwork.Net.Buckets

namespace GseNetwork.Net.NodeTable

open GseNetwork.Core GseNetwork.Foundation

section Bins

theorem mem_forwardBins {fuel head x : ℕ} (h : sBins ≤ head + fuel) :
    x ∈ forwardBins fuel head ↔ head ≤ x ∧ x < sBins := by
  induction fuel generalizing head with
  | zero =>
    simp only [forwardBins, List.not_mem_nil, false_iff]
    omega
  | succ fuel ih =>
    rw [forwardBins]
    split_ifs with hlt
    · rw [List.mem_cons, ih (by omega)]
      omega
    · simp only [List.not_mem_nil, false_iff]
      omega

theorem nodup_forwardBins (fuel head : ℕ) (h : sBins ≤ head + fuel) :
    (forwardBins fuel head).Nodup := by
  induction fuel generalizing head with
  | zero => exact List.nodup_nil
  | succ fuel ih =>
    rw [forwardBins]
    split_ifs
    · refine List.nodup_cons.mpr ⟨fun hmem ↦ ?_, ih _ (by omega)⟩
      have hle := ((mem_forwardBins (by omega)).mp hmem).1
      omega
    · exact List.nodup_nil

theorem mem_backwardBins {fuel tail x : ℕ} (h : tail ≤ fuel) :
    x ∈ backwardBins fuel tail ↔ 1 ≤ x ∧ x ≤ tail := by
  induction fuel generalizing tail with
  | zero =>
    simp only [backwardBins, List.not_mem_nil, false_iff]
    omega
  | succ fuel ih =>
    rw [backwardBins]
    split_ifs with hpos
    · rw [List.mem_cons, ih (by omega)]
      omega
    · simp only [List.not_mem_nil, false_iff]
      omega

theorem nodup_backwardBins (fuel tail : ℕ) (h : tail ≤ fuel) : (backwardBins fuel tail).Nodup := by
  induction fuel generalizing tail with
  | zero => exact List.nodup_nil
  | succ fuel ih =>
    rw [backwardBins]
    split_ifs
    · refine List.nodup_cons.mpr ⟨fun hmem ↦ ?_, ih _ (by omega)⟩
      have hle := ((mem_backwardBins (by omega)).mp hmem).2
      omega
    · exact List.nodup_nil

/-- The spread goes up to the last bin, and down as many bins as it has gone up. -/
theorem mem_spreadBins {fuel head tail x : ℕ} (hlt : tail < head) (h : sBins ≤ head + fuel) :
    x ∈ spreadBins fuel head tail ↔
      (head ≤ x ∧ x < sBins) ∨ (1 ≤ x ∧ x ≤ tail ∧ tail + head < x + sBins) := by
  induction fuel generalizing head tail with
  | zero =>
    simp only [spreadBins, List.not_mem_nil, false_iff]
    omega
  | succ fuel ih =>
    rw [spreadBins]
    split_ifs with hgo htail
    · rw [List.cons_append, List.singleton_append, List.mem_cons, List.mem_cons,
        ih (by omega) (by omega)]
      omega
    · rw [List.cons_append, List.nil_append, List.mem_cons, ih (by omega) (by omega)]
      omega
    · simp only [List.not_mem_nil, false_iff]
      omega

theorem nodup_spreadBins (fuel head tail : ℕ) (hlt : tail < head) (h : sBins ≤ head + fuel) :
    (spreadBins fuel head tail).Nodup := by
  induction fuel generalizing head tail with
  | zero => exact List.nodup_nil
  | succ fuel ih =>
    have hrest := ih (head + 1) (tail - 1) (by omega) (by omega)
    have hmem : ∀ {x}, x ∈ spreadBins fuel (head + 1) (tail - 1) ↔ _ :=
      fun {x} ↦ mem_spreadBins (by omega) (by omega)
    rw [spreadBins]
    split_ifs with hgo htail
    · rw [List.cons_append, List.singleton_append, List.nodup_cons, List.nodup_cons, List.mem_cons,
        hmem, hmem]
      refine ⟨?_, ?_, hrest⟩ <;> omega
    · rw [List.cons_append, List.nil_append, List.nodup_cons, hmem]
      exact ⟨by omega, hrest⟩
    · exact List.nodup_nil

/-- The bins that are looked at for a target at the distance `head`: all of them only if that is
zero; otherwise not the first, and unless `head` is the greatest distance, none that is farther
below it than the last bin is above. -/
def Reaches (head bin : ℕ) : Prop :=
  bin < sBins ∧ (head = 0 ∨ 1 ≤ bin ∧ (head = sBins ∨ 2 * head ≤ bin + sBins))

theorem sBins_eq : sBins = 255 := rfl

theorem visitedBins_eq {head : ℕ} (h : head ≤ sBins) : visitedBins head =
    if head < 2 then forwardBins sBins head
    else if head = sBins then backwardBins sBins (head - 1)
    else spreadBins sBins head (head - 1) := by
  have hbins := sBins_eq
  unfold visitedBins
  rcases Nat.eq_zero_or_pos head with rfl | hpos
  · rfl
  · have htail : (head - 1) % sBins = head - 1 := Nat.mod_eq_of_lt (by omega)
    simp only [if_neg hpos.ne', htail]
    split_ifs <;> first | rfl | omega

theorem mem_visitedBins {head bin : ℕ} (h : head ≤ sBins) :
    bin ∈ visitedBins head ↔ Reaches head bin := by
  have hbins := sBins_eq
  rw [visitedBins_eq h, Reaches]
  split_ifs
  · rw [mem_forwardBins (by omega)]
    omega
  · rw [mem_backwardBins (by omega)]
    omega
  · rw [mem_spreadBins (by omega) (by omega)]
    omega

theorem nodup_visitedBins {head : ℕ} (h : head ≤ sBins) : (visitedBins head).Nodup := by
  rw [visitedBins_eq h]
  split_ifs
  · exact nodup_forwardBins _ _ (by omega)
  · exact nodup_backwardBins _ _ (by omega)
  · exact nodup_spreadBins _ _ _ (by omega) (by omega)

end Bins

section Nearest

variable {sha3 : Bytes → H256} {s : NodeTable} {nID : NodeID}

structure Candidate (sha3 : Bytes → H256) (s : NodeTable) (nID : NodeID) (r : Ref) : Prop where
  live : s.lock r = true
  usable : s.usable r = true
  reached : ∃ bin, r ∈ s.state bin ∧ Reaches (distance sha3 s.node.id nID) bin

theorem mem_visited {r : Ref} : r ∈ s.visited sha3 nID ↔
    s.lock r = true ∧ ∃ bin, r ∈ s.state bin ∧ Reaches (distance sha3 s.node.id nID) bin := by
  have hle : distance sha3 s.node.id nID ≤ sBins := distance_le _ _
  simp only [visited, List.mem_flatMap, List.mem_filter, mem_visitedBins hle]
  constructor
  · rintro ⟨bin, hbin, hr, hlive⟩
    exact ⟨hlive, bin, hr, hbin⟩
  · rintro ⟨hlive, bin, hr, hbin⟩
    exact ⟨bin, hbin, hr, hlive⟩

theorem nodup_visited (hs : WellFormed sha3 s) : (s.visited sha3 nID).Nodup := by
  refine List.nodup_flatMap.mpr ⟨fun bin _ ↦ (hs.nodup bin).filter _, ?_⟩
  refine (nodup_visitedBins (distance_le _ _)).imp fun {bin bin'} hne r hr hr' ↦ hne ?_
  have hdistance := (hs.members bin r (List.mem_filter.mp hr).1).distance
  have hdistance' := (hs.members bin' r (List.mem_filter.mp hr').1).distance
  omega

theorem found_perm : (s.found sha3 nID).Perm (s.visited sha3 nID) :=
  byKey_perm _ fun _ _ ↦ Nat.lt_succ_of_le (distance_le _ _)

theorem mem_found_usable {r : Ref} :
    r ∈ (s.found sha3 nID).filter s.usable ↔ Candidate sha3 s nID r := by
  rw [List.mem_filter, found_perm.mem_iff, mem_visited]
  exact ⟨fun h ↦ ⟨h.1.1, h.2, h.1.2⟩, fun h ↦ ⟨⟨h.live, h.reached⟩, h.usable⟩⟩

variable {crypto : Crypto} {allowed : NodeTable → TableEvent → Prop} {node : Node}
  {enabled : Bool} {events : List (ℕ × TableEvent)}

/-- What a table answers to a search: at most sixteen of the entries that may be handed out, each
once and by their distance from the target; an entry is left out only if there are sixteen that
are not farther from the target. -/
theorem nearestNodeEntries_nearest (h : Run crypto allowed (start node enabled) events s)
    (nID : NodeID) :
    let near := s.nearestNodeEntries crypto.sha3 nID
    let far (r : Ref) := distance crypto.sha3 nID (s.entries r).id
    near.length ≤ sBucketSize ∧ near.Nodup ∧ near.Pairwise (fun a b ↦ far a ≤ far b) ∧
    (∀ r ∈ near, Candidate crypto.sha3 s nID r) ∧
    ∀ r, Candidate crypto.sha3 s nID r → r ∉ near →
      near.length = sBucketSize ∧ ∀ x ∈ near, far x ≤ far r := by
  intro near far
  have hs := h.wellFormed wellFormed_start
  have hsorted : ((s.found crypto.sha3 nID).filter s.usable).Pairwise fun a b ↦ far a ≤ far b :=
    (pairwise_byKey _ _ _).filter _
  have hsub : List.Sublist near ((s.found crypto.sha3 nID).filter s.usable) :=
    List.take_sublist _ _
  have hnodup : ((s.found crypto.sha3 nID).filter s.usable).Nodup :=
    (found_perm.nodup_iff.mpr (nodup_visited hs)).filter _
  refine ⟨List.length_take_le _ _, hsub.nodup hnodup, hsorted.sublist hsub, fun r hr ↦ ?_,
    fun r hr hout ↦ ?_⟩
  · exact mem_found_usable.mp (hsub.subset hr)
  · exact le_of_mem_take far hsorted (mem_found_usable.mpr hr) hout

def knownPair : NodeTable := (perform plainCrypto 7 (.addNode (localNode 6) .known) known).2

theorem nearestNodeEntries_nearest_pair :
    knownPair.nearestNodeEntries plainCrypto.sha3 7 = [1, 0] ∧
      distance plainCrypto.sha3 7 (knownPair.entries 1).id ≤
        distance plainCrypto.sha3 7 (knownPair.entries 0).id ∧
      Candidate plainCrypto.sha3 knownPair 7 0 ∧ Candidate plainCrypto.sha3 knownPair 7 1 := by
  have hknown : Run plainCrypto (fun _ _ ↦ True) (start (localNode 2) true) _ known :=
    run_known trivial
  have hrun : Run plainCrypto (fun _ _ ↦ True) (start (localNode 2) true) _ knownPair :=
    hknown.perform trivial trivial (by decide +kernel)
  have hnear : knownPair.nearestNodeEntries plainCrypto.sha3 7 = [1, 0] := by decide +kernel
  obtain ⟨-, -, hsorted, hcandidates, -⟩ := nearestNodeEntries_nearest hrun 7
  rw [hnear] at hsorted hcandidates
  exact ⟨hnear, (List.pairwise_cons.mp hsorted).1 0 List.mem_cons_self,
    hcandidates 0 (by decide), hcandidates 1 List.mem_cons_self⟩

end Nearest

end GseNetwork.Net.NodeTable
