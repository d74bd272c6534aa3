import GseNetwork.Producer.Schedule
import Mathlib.Data.List.Sort

namespace GseNetwork.Producer.Schedule

open GseNetwork.Core

/-- `x` comes strictly before `y` in descending order of votes and address. -/
def Before (x y : Producer) : Prop :=
  y.votes < x.votes ∨ (x.votes = y.votes ∧ y.address < x.address)

theorem gt_iff {x y : Producer} : x.gt y = true ↔ Before x y := by
  unfold Producer.gt Before
  split_ifs with hgt heq
  · simp [show y.votes < x.votes from hgt]
  · simp [heq]
  · simp [show ¬ y.votes < x.votes from hgt, heq]

theorem not_before_iff {x y : Producer} :
    ¬ Before y x ↔ y.votes < x.votes ∨ (x.votes = y.votes ∧ y.address ≤ x.address) := by
  unfold Before
  rw [UInt64.lt_iff_toNat_lt, UInt64.lt_iff_toNat_lt, ← UInt64.toNat_inj, ← UInt64.toNat_inj,
    BitVec.lt_def, BitVec.le_def]
  omega

theorem notBefore_trans {x y z : Producer} (hxy : ¬ Before y x) (hyz : ¬ Before z y) :
    ¬ Before z x := by
  rw [not_before_iff, UInt64.lt_iff_toNat_lt, ← UInt64.toNat_inj, BitVec.le_def] at *
  omega

theorem notBefore_total (x y : Producer) : ¬ Before y x ∨ ¬ Before x y := by
  rw [not_before_iff, not_before_iff, UInt64.lt_iff_toNat_lt, UInt64.lt_iff_toNat_lt,
    ← UInt64.toNat_inj, ← UInt64.toNat_inj, BitVec.le_def, BitVec.le_def]
  omega

theorem eq_address_of_notBefore {x y : Producer} (hxy : ¬ Before y x) (hyx : ¬ Before x y) :
    x.address = y.address := by
  rw [not_before_iff, UInt64.lt_iff_toNat_lt, ← UInt64.toNat_inj, BitVec.le_def] at hxy hyx
  apply BitVec.eq_of_toNat_eq
  omega

instance : IsTrans Producer fun x y ↦ y.gt x = false where
  trans x y z hxy hyz := by
    rw [← Bool.not_eq_true, gt_iff] at *
    exact notBefore_trans hxy hyz

instance : Std.Total fun x y : Producer ↦ y.gt x = false where
  total x y := by
    simp only [← Bool.not_eq_true, gt_iff]
    exact notBefore_total x y

variable {l l' : List Producer}

theorem perm_producerSort (l : List Producer) : (producerSort l).Perm l :=
  List.perm_insertionSort _ l

theorem pairwise_producerSort (l : List Producer) :
    (producerSort l).Pairwise fun x y ↦ ¬ Before y x := by
  refine (List.pairwise_insertionSort (fun x y : Producer ↦ y.gt x = false) l).imp ?_
  intro x y hxy
  rwa [← Bool.not_eq_true, gt_iff] at hxy

/-- Producers with different addresses have only one descending order, so the result does not
depend on how the library sorts. -/
theorem eq_of_perm_of_descending (hnodup : (l.map Producer.address).Nodup) (hperm : l.Perm l')
    (h : l.Pairwise fun x y ↦ ¬ Before y x) (h' : l'.Pairwise fun x y ↦ ¬ Before y x) :
    l = l' := by
  refine hperm.eq_of_pairwise ?_ h h'
  intro x y hx hy hxy hyx
  exact List.inj_on_of_nodup_map hnodup hx (hperm.mem_iff.mpr hy)
    (eq_address_of_notBefore hxy hyx)

theorem producerSort_eq_of_perm (hnodup : (l.map Producer.address).Nodup) (hperm : l'.Perm l) :
    producerSort l' = producerSort l := by
  have hsort : (producerSort l').Perm (producerSort l) :=
    (perm_producerSort l').trans (hperm.trans (perm_producerSort l).symm)
  refine eq_of_perm_of_descending ?_ hsort (pairwise_producerSort l') (pairwise_producerSort l)
  exact (((perm_producerSort l').trans hperm).map Producer.address).nodup_iff.mpr hnodup

theorem strict_producerSort (hnodup : (l.map Producer.address).Nodup) :
    (producerSort l).Pairwise Before := by
  have hsorted : ((producerSort l).map Producer.address).Nodup :=
    ((perm_producerSort l).map Producer.address).nodup_iff.mpr hnodup
  have hne : (producerSort l).Pairwise fun x y ↦ x.address ≠ y.address :=
    List.pairwise_map.mp hsorted
  refine ((pairwise_producerSort l).and hne).imp ?_
  intro x y hxy
  by_contra hnot
  exact hxy.2 (eq_address_of_notBefore hxy.1 hnot)

/-- Producers with new and different addresses are all added, in their order. -/
theorem foldl_addProducer (ps : ProducerSnapshot) (l : List Producer)
    (hnodup : ((ps.producers ++ l).map Producer.address).Nodup) :
    l.foldl ProducerSnapshot.addProducer ps = { ps with producers := ps.producers ++ l } := by
  induction l generalizing ps with
  | nil => simp
  | cons x l ih =>
    have hnew : ps.isExist x.address = false := by
      rw [List.map_append, List.nodup_append] at hnodup
      unfold ProducerSnapshot.isExist
      rw [List.any_eq_false]
      intro y hy heq
      exact hnodup.2.2 y.address (List.mem_map_of_mem hy) x.address (by simp) (by simpa using heq)
    have hadd : ps.addProducer x = { ps with producers := ps.producers ++ [x] } := by
      unfold ProducerSnapshot.addProducer
      rw [hnew]
      rfl
    rw [List.foldl_cons, hadd, ih _ (by simpa using hnodup)]
    simp

theorem producers_getProducerSnapshot (x : Schedule)
    (hnodup : (x.currentProducerList.map Producer.address).Nodup) :
    x.getProducerSnapshot.producers = x.getCurrentProducerList := by
  unfold getProducerSnapshot
  rw [foldl_addProducer]
  · rfl
  · have hsub : (x.getCurrentProducerList.map Producer.address).Sublist
        (x.currentProducerList.map Producer.address) :=
      (List.take_sublist _ _).map _
    exact hnodup.sublist hsub

/-- The schedule depends on the set of producers only: every order of the same producers and
every earlier schedule give the same strictly descending list, and the three ways of reading a
slot agree on it. -/
theorem schedule_determined (x y : Schedule) (producerList producerList' : List Producer)
    (timestamp timestamp' : Int64) (hnodup : (producerList.map Producer.address).Nodup)
    (hperm : producerList'.Perm producerList) :
    (y.schedule producerList' timestamp').currentProducerList =
        (x.schedule producerList timestamp).currentProducerList ∧
      (x.schedule producerList timestamp).currentProducerList.Perm producerList ∧
      (x.schedule producerList timestamp).currentProducerList.Pairwise Before ∧
      ∀ i,
        (i < min (x.schedule producerList timestamp).currentProducerList.length
            numDelegatedBlocks →
          ∃ producer,
            (x.schedule producerList timestamp).getCurrentProducerList[i]? = some producer ∧
            (x.schedule producerList timestamp).getProducerSnapshot.producers[i]? =
              some producer ∧
            (x.schedule producerList timestamp).getAddress i = producer.address) ∧
        (¬ i < min (x.schedule producerList timestamp).currentProducerList.length
            numDelegatedBlocks →
          (x.schedule producerList timestamp).getAddress i = 0) := by
  refine ⟨producerSort_eq_of_perm hnodup hperm, perm_producerSort _,
    strict_producerSort hnodup, ?_⟩
  intro i
  have hsnapshot := producers_getProducerSnapshot (x.schedule producerList timestamp)
    (((perm_producerSort producerList).map Producer.address).nodup_iff.mpr hnodup)
  generalize x.schedule producerList timestamp = s at hsnapshot ⊢
  constructor
  · intro hi
    rw [lt_min_iff] at hi
    refine ⟨s.currentProducerList.getD i emptyProducer, ?_, ?_, ?_⟩
    · unfold getCurrentProducerList
      rw [List.getElem?_take_of_lt hi.2, List.getD_eq_getElem?_getD, List.getElem?_eq_getElem hi.1]
      rfl
    · rw [hsnapshot]
      unfold getCurrentProducerList
      rw [List.getElem?_take_of_lt hi.2, List.getD_eq_getElem?_getD, List.getElem?_eq_getElem hi.1]
      rfl
    · unfold getAddress
      rw [if_neg (by omega)]
  · intro hi
    unfold getAddress
    rw [if_pos (by omega)]

/-- Two producers with the same votes. -/
theorem schedule_determined_pair :
    let producers : List Producer := [⟨1, 0, 5, ∅⟩, ⟨2, 0, 5, ∅⟩]
    (producers.map Producer.address).Nodup ∧ producers.reverse.Perm producers ∧
      (Schedule.schedule {} producers.reverse 3).currentProducerList =
        (Schedule.schedule {} producers 4).currentProducerList :=
  ⟨by decide, List.reverse_perm _,
    (schedule_determined {} {} [⟨1, 0, 5, ∅⟩, ⟨2, 0, 5, ∅⟩] [⟨2, 0, 5, ∅⟩, ⟨1, 0, 5, ∅⟩] 4 3
      (by decide) (List.Perm.swap _ _ [])).1⟩

end GseNetwork.Producer.Schedule
