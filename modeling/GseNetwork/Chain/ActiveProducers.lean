import GseNetwork.Chain.Bonus
import GseNetwork.Chain.Slots

namespace GseNetwork.Chain

open GseNetwork.Core GseNetwork.Foundation GseNetwork.Storage
open BlockChain

def slotNumber (timestamp : Int64) : ℤ := (timestamp.toInt - genesisTimestamp) / producerInterval

def Missed (prev block : Block) (i : ℕ) : Prop :=
  ∃ k, 0 ≤ k ∧ slotNumber prev.getTimestamp < k ∧ k < slotNumber block.getTimestamp ∧
    k % numDelegatedBlocks = i

/-- How many of the slots before slot `b` are looked at after slot `p`: those since the last slot
with the position of `p`. Before the genesis positions are negative, and converted to `unsigned`
they are behind all others. -/
def lookback (p b : ℤ) : ℤ :=
  if b.tmod numDelegatedBlocks < 0 then
    if p.tmod numDelegatedBlocks = b.tmod numDelegatedBlocks then numDelegatedBlocks else 0
  else if 0 ≤ p.tmod numDelegatedBlocks then (b - p - 1) % numDelegatedBlocks
  else if p.tmod numDelegatedBlocks = -1 then numDelegatedBlocks
  else b % numDelegatedBlocks

def Noticed (prev block : Block) (i : ℕ) : Prop :=
  ∃ k, Block.slot block - lookback (Block.slot prev) (Block.slot block) ≤ k ∧
    k < Block.slot block ∧ k % numDelegatedBlocks = i

/-- The position of slot `b` is in a list of the given size or right behind it, or it is that of
slot `p` or the next one. -/
def Within (p b : ℤ) (size : ℕ) : Prop :=
  0 ≤ b.tmod numDelegatedBlocks ∧ b.tmod numDelegatedBlocks ≤ size ∨
    b.tmod numDelegatedBlocks = p.tmod numDelegatedBlocks ∨
    b.tmod numDelegatedBlocks = p.tmod numDelegatedBlocks + 1

/-- The loops of `updateActiveProducers` read position `i` of a list of the given size. -/
def Touched (prevIndex currentIndex size i : ℕ) : Prop :=
  if prevIndex < currentIndex then prevIndex < i ∧ i < currentIndex
  else if prevIndex = currentIndex then i < size ∧ i ≠ currentIndex
  else i < currentIndex ∨ (prevIndex + 1) % 2 ^ 32 ≤ i ∧ i < size

theorem skipped_iff {prevIndex currentIndex size i : ℕ} (hi : i < size) :
    skipped prevIndex currentIndex i = true ↔ Touched prevIndex currentIndex size i := by
  unfold skipped Touched
  split_ifs with hlt heq
  · rw [decide_eq_true_eq]
  · rw [decide_eq_true_eq]
    exact (and_iff_right hi).symm
  · rw [decide_eq_true_eq]
    exact or_congr_right (and_iff_left hi).symm

theorem producerPosition_eq (t : Int64) :
    producerPosition t = ((slotOf t.toInt).tmod numDelegatedBlocks % 2 ^ 32).toNat := by
  unfold producerPosition slotOf
  generalize t.toInt - genesisTimestamp = d
  have hswap : (d.tmod timePerRound).tdiv producerInterval =
      (d.tdiv producerInterval).tmod numDelegatedBlocks := by
    change (d.tmod 14000).tdiv 2000 = (d.tdiv 2000).tmod 7
    rcases le_total 0 d with hd | hd
    · rw [Int.tmod_eq_emod_of_nonneg hd, Int.tdiv_eq_ediv_of_nonneg (Int.emod_nonneg d (by decide)),
        Int.tdiv_eq_ediv_of_nonneg hd, Int.tmod_eq_emod_of_nonneg (by omega)]
      omega
    · obtain ⟨e, rfl⟩ : ∃ e, d = -e := ⟨-d, by omega⟩
      have he : 0 ≤ e := by omega
      rw [Int.neg_tmod, Int.neg_tdiv, Int.neg_tdiv, Int.neg_tmod, Int.tmod_eq_emod_of_nonneg he,
        Int.tdiv_eq_ediv_of_nonneg (Int.emod_nonneg e (by decide)),
        Int.tdiv_eq_ediv_of_nonneg he, Int.tmod_eq_emod_of_nonneg (by omega)]
      omega
  rw [hswap]

section Positions

variable {p b : ℤ} {size i : ℕ}

theorem tmod_bounds (x : ℤ) :
    -7 < x.tmod numDelegatedBlocks ∧ x.tmod numDelegatedBlocks < 7 ∧
      (0 ≤ x.tmod numDelegatedBlocks → x.tmod numDelegatedBlocks = x % 7) := by
  change -7 < x.tmod 7 ∧ x.tmod 7 < 7 ∧ (0 ≤ x.tmod 7 → x.tmod 7 = x % 7)
  rcases le_total 0 x with hx | hx
  · rw [Int.tmod_eq_emod_of_nonneg hx]
    omega
  · obtain ⟨y, rfl⟩ : ∃ y, x = -y := ⟨-x, by omega⟩
    rw [Int.neg_tmod, Int.tmod_eq_emod_of_nonneg (by omega)]
    omega

theorem touched_lt_iff (hsize : size ≤ numDelegatedBlocks) :
    (∀ i, Touched (p.tmod numDelegatedBlocks % 2 ^ 32).toNat
      (b.tmod numDelegatedBlocks % 2 ^ 32).toNat size i → i < size) ↔ Within p b size := by
  have hp := tmod_bounds p
  have hb := tmod_bounds b
  unfold Within
  change size ≤ 7 at hsize
  generalize p.tmod numDelegatedBlocks = q at hp ⊢
  generalize b.tmod numDelegatedBlocks = c at hb ⊢
  constructor
  · intro h
    by_contra hnot
    have hlast := h ((c % 2 ^ 32).toNat - 1)
    unfold Touched at hlast
    split_ifs at hlast <;> omega
  · intro h i hi
    unfold Touched at hi
    split_ifs at hi <;> omega

/-- A position within the list is read exactly if it has one of the slots that are looked at. -/
theorem touched_iff (hsize : size ≤ numDelegatedBlocks) (hwithin : Within p b size)
    (hi : i < size) :
    Touched (p.tmod numDelegatedBlocks % 2 ^ 32).toNat
        (b.tmod numDelegatedBlocks % 2 ^ 32).toNat size i ↔
      ∃ k, b - lookback p b ≤ k ∧ k < b ∧ k % numDelegatedBlocks = i := by
  have hlatest : (∃ k, b - lookback p b ≤ k ∧ k < b ∧ k % numDelegatedBlocks = i) ↔
      (b - 1 - i) % 7 < lookback p b := by
    change size ≤ 7 at hsize
    constructor
    · rintro ⟨k, hlow, hhigh, hk⟩
      change k % 7 = i at hk
      omega
    · intro h
      refine ⟨b - 1 - (b - 1 - i) % 7, by omega, by omega, ?_⟩
      change (b - 1 - (b - 1 - i) % 7) % 7 = i
      omega
  rw [hlatest]
  have hp := tmod_bounds p
  have hb := tmod_bounds b
  unfold Within at hwithin
  unfold lookback
  change size ≤ 7 at hsize
  generalize p.tmod numDelegatedBlocks = q at hp hwithin ⊢
  generalize b.tmod numDelegatedBlocks = c at hb hwithin ⊢
  change Touched _ _ _ _ ↔ (b - 1 - i) % 7 <
    if c < 0 then if q = c then 7 else 0
    else if 0 ≤ q then (b - p - 1) % 7 else if q = -1 then 7 else b % 7
  unfold Touched
  split_ifs <;> omega

end Positions

/-- After the genesis and with no more than a round between two blocks, every position that missed
a slot is noticed. -/
theorem noticed_of_missed {prev block : Block} {i : ℕ}
    (hprev : genesisTimestamp ≤ prev.getTimestamp.toInt)
    (hround : slotNumber block.getTimestamp ≤ slotNumber prev.getTimestamp + numDelegatedBlocks)
    (hmissed : Missed prev block i) : Noticed prev block i := by
  obtain ⟨k, hk, hlow, hhigh, hi⟩ := hmissed
  have hslot : ∀ t : Int64, genesisTimestamp ≤ t.toInt → slotOf t.toInt = slotNumber t :=
    fun t ht ↦ Int.tdiv_eq_ediv_of_nonneg (sub_nonneg.mpr ht)
  have hblock : genesisTimestamp ≤ block.getTimestamp.toInt := by
    have hpos : 0 < slotNumber block.getTimestamp := by omega
    unfold slotNumber producerInterval at hpos
    omega
  have hnonneg : 0 ≤ slotNumber prev.getTimestamp :=
    Int.ediv_nonneg (sub_nonneg.mpr hprev) (by decide)
  refine ⟨k, ?_, ?_, hi⟩
  · unfold Block.slot lookback
    rw [hslot _ hprev, hslot _ hblock, if_neg (not_lt.mpr (Int.tmod_nonneg _ (by omega))),
      if_pos (Int.tmod_nonneg _ hnonneg)]
    change _ - (_ - _ - 1) % 7 ≤ k
    change _ ≤ _ + 7 at hround
    omega
  · unfold Block.slot
    rw [hslot _ hblock]
    exact hhigh

section Delete

variable {x : ProducerSnapshot}

theorem equal_iff {p q : Producer} :
    p.equal q = true ↔ p.address = q.address ∧ p.timestamp = q.timestamp := by
  unfold Producer.equal
  rw [Bool.and_eq_true, beq_iff_eq, beq_iff_eq]

theorem eraseP_eq_filter {l : List Producer} (hl : (l.map Producer.address).Nodup)
    (producer : Producer) :
    l.eraseP (fun i ↦ i.equal producer) = l.filter fun i ↦ !i.equal producer := by
  induction l with
  | nil => rfl
  | cons p l ih =>
    rw [List.map_cons, List.nodup_cons] at hl
    cases hp : p.equal producer with
    | true =>
      have hrest : ∀ i ∈ l, (!i.equal producer) = true := by
        intro i hi
        rw [Bool.not_eq_true', ← Bool.not_eq_true, equal_iff]
        rintro ⟨haddress, -⟩
        refine hl.1 (List.mem_map.mpr ⟨i, hi, ?_⟩)
        rw [haddress, (equal_iff.mp hp).1]
      rw [List.eraseP_cons, List.filter_cons, hp, List.filter_eq_self.mpr hrest]
      rfl
    | false =>
      rw [List.eraseP_cons, List.filter_cons, hp, ih hl.2]
      rfl

/-- Of a set without two entries for one address, what is in none of the deleted ones is left. -/
theorem producers_foldl_deleteProducer (dropped : List Producer)
    (hx : (x.producers.map Producer.address).Nodup) :
    (dropped.foldl deleteProducer x).producers =
      x.producers.filter fun e ↦ !dropped.any fun d ↦ e.equal d := by
  induction dropped generalizing x with
  | nil => simp
  | cons d dropped ih =>
    have hdelete : (deleteProducer x d).producers = x.producers.filter fun i ↦ !i.equal d :=
      eraseP_eq_filter hx d
    have hnodup : ((deleteProducer x d).producers.map Producer.address).Nodup := by
      rw [hdelete]
      exact hx.sublist ((List.filter_sublist).map _)
    rw [List.foldl_cons, ih hnodup, hdelete, List.filter_filter]
    refine List.filter_congr fun e _ ↦ ?_
    rw [List.any_cons, Bool.not_or, Bool.and_comm]

theorem nodup_addProducer (hx : (x.producers.map Producer.address).Nodup) (p : Producer) :
    ((x.addProducer p).producers.map Producer.address).Nodup := by
  unfold ProducerSnapshot.addProducer
  cases hp : x.isExist p.address with
  | true => exact hx
  | false =>
    unfold ProducerSnapshot.isExist at hp
    rw [List.any_eq_false] at hp
    simp only [Bool.false_eq_true, if_false, List.map_append, List.map_cons, List.map_nil]
    refine List.nodup_append.mpr ⟨hx, List.nodup_singleton _, ?_⟩
    intro a ha b hb
    obtain ⟨y, hy, rfl⟩ := List.mem_map.mp ha
    rw [List.mem_singleton.mp hb]
    exact fun heq ↦ hp y hy (by rw [heq, beq_self_eq_true])

theorem isExist_iff {address : Address} :
    x.isExist address = true ↔ ∃ e ∈ x.producers, e.address = address := by
  unfold ProducerSnapshot.isExist
  rw [List.any_eq_true]
  exact exists_congr fun e ↦ and_congr_right fun _ ↦ beq_iff_eq

end Delete

section Update

variable {s s' : BlockChain} {block prev : Block} {record : Producer}

def Kept (s : BlockChain) (prev block : Block) (e : Producer) : Prop :=
  ∀ i x, s.schedule.getCurrentProducerList[i]? = some x →
    Touched (producerPosition prev.getTimestamp) (producerPosition block.getTimestamp)
      s.schedule.getCurrentProducerList.length i → e.equal x = false

def droppedProducers (s : BlockChain) (prev block : Block) : List Producer :=
  (s.schedule.getCurrentProducerList.zipIdx.filter fun i ↦
    skipped (producerPosition prev.getTimestamp) (producerPosition block.getTimestamp) i.2).map
      (·.1)

theorem kept_iff (e : Producer) :
    ((droppedProducers s prev block).any fun d ↦ e.equal d) = false ↔ Kept s prev block e := by
  unfold droppedProducers
  rw [List.any_map, List.any_filter, List.any_eq_false]
  constructor
  · intro h i x hx htouched
    have hi : i < s.schedule.getCurrentProducerList.length := (List.getElem?_eq_some_iff.mp hx).1
    have hnot := h (x, i) (List.mem_zipIdx_iff_getElem?.mpr hx)
    rw [(skipped_iff hi).mpr htouched, Bool.true_and, Bool.not_eq_true] at hnot
    exact hnot
  · rintro h ⟨x, i⟩ hmem hdropped
    have hx := List.mem_zipIdx_iff_getElem?.mp hmem
    have hi : i < s.schedule.getCurrentProducerList.length := (List.getElem?_eq_some_iff.mp hx).1
    rw [Bool.and_eq_true] at hdropped
    have hkept := h i x hx ((skipped_iff hi).mp hdropped.1)
    exact Bool.false_ne_true (hkept.symm.trans hdropped.2)

/-- The set after the update, with the block before and the producer's committed record. -/
theorem currentActiveProducers_updateFrom {number : ℕ}
    (hprev : s.getBlockByNumber number = .ok prev)
    (hrecord : s.dbc.getProducer block.getProducer = .ok record)
    (hrun : updateActiveProducersFrom number block s = (.ok (), s')) :
    s'.currentActiveProducers.producers =
      ((droppedProducers s prev block).foldl deleteProducer
        (ProducerSnapshot.mk block.getTimestamp
          (s.currentActiveProducers.addProducer record).producers)).producers := by
  unfold updateActiveProducersFrom at hrun
  rw [Eff.get_bind_apply, hprev, Eff.ofExcept_ok_bind, Eff.modify_bind_apply, hrecord,
    Eff.ofExcept_ok_bind, Eff.modify_apply, Prod.mk.injEq] at hrun
  rw [← hrun.2]
  unfold ProducerSnapshot.addProducer ProducerSnapshot.isExist
  split_ifs <;> rfl

/-- The entries left by `updateActiveProducers` are those of the extended set that it keeps. -/
theorem mem_updateActiveProducers
    (hprev : s.getBlockByNumber ((block.getNumber + (2 ^ 64 - 1)) % 2 ^ 64) = .ok prev)
    (hrecord : s.dbc.getProducer block.getProducer = .ok record)
    (hactive : (s.currentActiveProducers.producers.map Producer.address).Nodup)
    (hrun : updateActiveProducers block s = (.ok (), s')) (e : Producer) :
    e ∈ s'.currentActiveProducers.producers ↔
      e ∈ (s.currentActiveProducers.addProducer record).producers ∧ Kept s prev block e := by
  rw [currentActiveProducers_updateFrom hprev hrecord hrun, producers_foldl_deleteProducer,
    List.mem_filter, Bool.not_eq_true', kept_iff]
  exact nodup_addProducer hactive record

/-- The set after a block: its producer is in it, no other that missed a slot since the block
before is, and the lists were read within their bounds. -/
structure ActiveSet (s s' : BlockChain) (prev block : Block) : Prop where
  producer : s'.currentActiveProducers.isExist block.getProducer = true
  missed : ∀ i x, s.schedule.getCurrentProducerList[i]? = some x → Missed prev block i →
    x.address ≠ block.getProducer → s'.currentActiveProducers.isExist x.address = false
  bounds : ∀ i, Touched (producerPosition prev.getTimestamp) (producerPosition block.getTimestamp)
    s.schedule.getCurrentProducerList.length i → i < s.schedule.getCurrentProducerList.length

def Struck (s : BlockChain) (prev block : Block) (e : Producer) : Prop :=
  ∃ i x, s.schedule.getCurrentProducerList[i]? = some x ∧ Noticed prev block i ∧ e.equal x = true

/-- The positions of the two blocks fit the list; of the active producers, the block's own with its
committed record if it is new, the block's own is not struck, and every other that missed a slot
is. -/
structure Tracked (s : BlockChain) (prev block : Block) (record : Producer) : Prop where
  within : Within (Block.slot prev) (Block.slot block) s.schedule.getCurrentProducerList.length
  producer : ∃ e ∈ (s.currentActiveProducers.addProducer record).producers,
    e.address = block.getProducer ∧ ¬ Struck s prev block e
  missed : ∀ i x, s.schedule.getCurrentProducerList[i]? = some x → Missed prev block i →
    x.address ≠ block.getProducer →
      ∀ e ∈ (s.currentActiveProducers.addProducer record).producers, e.address = x.address →
        Struck s prev block e

theorem length_getCurrentProducerList_le :
    s.schedule.getCurrentProducerList.length ≤ numDelegatedBlocks :=
  List.length_take_le _ _

theorem within_iff : Within (Block.slot prev) (Block.slot block)
      s.schedule.getCurrentProducerList.length ↔
    ∀ i, Touched (producerPosition prev.getTimestamp) (producerPosition block.getTimestamp)
      s.schedule.getCurrentProducerList.length i →
        i < s.schedule.getCurrentProducerList.length := by
  rw [producerPosition_eq, producerPosition_eq]
  exact (touched_lt_iff length_getCurrentProducerList_le).symm

theorem kept_iff_not_struck {e : Producer} (hwithin : Within (Block.slot prev) (Block.slot block)
    s.schedule.getCurrentProducerList.length) :
    Kept s prev block e ↔ ¬ Struck s prev block e := by
  have hnoticed : ∀ i x, s.schedule.getCurrentProducerList[i]? = some x →
      (Touched (producerPosition prev.getTimestamp) (producerPosition block.getTimestamp)
        s.schedule.getCurrentProducerList.length i ↔ Noticed prev block i) := by
    intro i x hx
    rw [producerPosition_eq, producerPosition_eq]
    exact touched_iff length_getCurrentProducerList_le hwithin (List.getElem?_eq_some_iff.mp hx).1
  constructor
  · rintro hkept ⟨i, x, hx, hi, hequal⟩
    exact Bool.false_ne_true ((hkept i x hx ((hnoticed i x hx).mpr hi)).symm.trans hequal)
  · intro hnot i x hx htouched
    rw [← Bool.not_eq_true]
    exact fun hequal ↦ hnot ⟨i, x, hx, (hnoticed i x hx).mp htouched, hequal⟩

theorem activeSet_iff
    (hprev : s.getBlockByNumber ((block.getNumber + (2 ^ 64 - 1)) % 2 ^ 64) = .ok prev)
    (hrecord : s.dbc.getProducer block.getProducer = .ok record)
    (hactive : (s.currentActiveProducers.producers.map Producer.address).Nodup)
    (hrun : updateActiveProducers block s = (.ok (), s')) :
    ActiveSet s s' prev block ↔ Tracked s prev block record := by
  have hmem := mem_updateActiveProducers hprev hrecord hactive hrun
  constructor
  · intro h
    have hwithin := within_iff.mpr h.bounds
    refine ⟨hwithin, ?_, fun i x hx hmissed hother e he haddress ↦ ?_⟩
    · obtain ⟨e, he, haddress⟩ := isExist_iff.mp h.producer
      have hkept := (hmem e).mp he
      exact ⟨e, hkept.1, haddress, (kept_iff_not_struck hwithin).mp hkept.2⟩
    · by_contra hkept
      have hgone := h.missed i x hx hmissed hother
      rw [isExist_iff.mpr
        ⟨e, (hmem e).mpr ⟨he, (kept_iff_not_struck hwithin).mpr hkept⟩, haddress⟩] at hgone
      exact Bool.false_ne_true hgone.symm
  · intro h
    refine ⟨?_, fun i x hx hmissed hother ↦ ?_, within_iff.mp h.within⟩
    · obtain ⟨e, he, haddress, hkept⟩ := h.producer
      exact isExist_iff.mpr
        ⟨e, (hmem e).mpr ⟨he, (kept_iff_not_struck h.within).mpr hkept⟩, haddress⟩
    · rw [← Bool.not_eq_true, isExist_iff]
      rintro ⟨e, he, haddress⟩
      have hkept := (hmem e).mp he
      exact (kept_iff_not_struck h.within).mp hkept.2
        (h.missed i x hx hmissed hother e hkept.1 haddress)

end Update

def registered (address : Address) : Producer where
  address := address
  timestamp := 1
  votes := 0

/-- A node over a committed block of the genesis slot, with the producers of the given addresses
committed and on the schedule, and others active. -/
def rosterChain (roster active : List Address) : BlockChain :=
  { start Relay.openEnv
      { producerStore := roster.foldl (fun m a ↦ m.insert a (.ok (registered a))) ∅
        blockIndexStore := Std.ExtTreeMap.insert ∅ 0 (.ok { blockHeader := {
          timestamp := 1538352000000 } }) }
      { currentProducerList := { producers := roster.map registered } }
      { blockHeader := { timestamp := 1538352000000 } } with
    currentActiveProducers := { producers := active.map registered } }

def pairChain : BlockChain := rosterChain [1, 2] [2]

def threeChain : BlockChain := rosterChain [1, 2, 3] [2, 3]

def slotBlock (slot : ℕ) : Block where
  blockHeader := {
    producer := 1, number := 1, timestamp := Int64.ofNat (1538352000000 + 2000 * slot) }

def slotParent : Block where
  blockHeader := { timestamp := 1538352000000 }

theorem getBlockByNumber_rosterChain (roster active : List Address) (slot : ℕ) :
    (rosterChain roster active).getBlockByNumber
      (((slotBlock slot).getNumber + (2 ^ 64 - 1)) % 2 ^ 64) = .ok slotParent := by
  have hnumber : ((slotBlock slot).getNumber + (2 ^ 64 - 1)) % 2 ^ 64 = 0 := by
    change (1 + (2 ^ 64 - 1)) % 2 ^ 64 = 0
    decide
  rw [hnumber]
  rfl

/-- A block of the third position after one of the first: the producer of the second position, whose
slot was missed, is no longer active. -/
theorem activeSet_iff_third :
    threeChain.checkProducer (slotBlock 2) = true ∧
    ∃ s', updateActiveProducers (slotBlock 2) threeChain = (.ok (), s') ∧
      ActiveSet threeChain s' slotParent (slotBlock 2) ∧
      s'.currentActiveProducers.isExist 2 = false := by
  obtain ⟨s', hrun⟩ : ∃ s', updateActiveProducers (slotBlock 2) threeChain = (.ok (), s') :=
    ⟨_, Eff.eq_ok_of_isOk (by decide +kernel)⟩
  have hlist : threeChain.schedule.getCurrentProducerList =
    [registered 3, registered 2, registered 1] := by decide +kernel
  have hrecord : threeChain.dbc.getProducer (slotBlock 2).getProducer = .ok (registered 1) := by
    decide +kernel
  have hactive : (threeChain.currentActiveProducers.addProducer (registered 1)).producers =
    [registered 2, registered 3, registered 1] := by decide +kernel
  have hslot : Block.slot (slotBlock 2) = 2 := by decide +kernel
  have hlook : lookback (Block.slot slotParent) (Block.slot (slotBlock 2)) = 1 := by decide +kernel
  have hset : ActiveSet threeChain s' slotParent (slotBlock 2) := by
    have hprev : threeChain.getBlockByNumber
        (((slotBlock 2).getNumber + (2 ^ 64 - 1)) % 2 ^ 64) = .ok slotParent :=
      getBlockByNumber_rosterChain [1, 2, 3] [2, 3] 2
    refine (activeSet_iff hprev hrecord (by decide +kernel) hrun).mpr
      ⟨Or.inl ⟨?_, ?_⟩, ⟨registered 1, ?_, rfl, ?_⟩,
        fun i x hx hmissed _ e he haddress ↦ ⟨i, x, hx, ?_, ?_⟩⟩
    · decide +kernel
    · decide +kernel
    · rw [hactive]
      simp
    · rintro ⟨i, x, hx, ⟨k, hlow, hhigh, hk⟩, hequal⟩
      rw [hlook, hslot] at hlow
      rw [hslot] at hhigh
      obtain rfl : k = 1 := by omega
      obtain rfl : 1 = i := by exact_mod_cast hk
      rw [hlist] at hx
      cases hx
      exact absurd hequal (by decide)
    · exact noticed_of_missed (by decide +kernel) (by decide +kernel) hmissed
    · rw [hlist] at hx
      rw [hactive] at he
      obtain ⟨a, -, rfl⟩ := List.mem_map.mp (show x ∈ [3, 2, 1].map registered from
        List.mem_of_getElem? hx)
      obtain ⟨b, -, rfl⟩ := List.mem_map.mp (show e ∈ [2, 3, 1].map registered from he)
      exact equal_iff.mpr ⟨haddress, rfl⟩
  refine ⟨by decide +kernel, s', hrun, hset, hset.missed 1 (registered 2) (by rw [hlist]; rfl)
    ⟨1, by decide, by decide +kernel, by decide +kernel, by decide⟩ (by decide)⟩

/-- Eight slots after its parent a block of the second position leaves the first producer active,
whose slot seven was missed. -/
theorem missed_slot_unseen :
    pairChain.checkProducer (slotBlock 8) = true ∧
      (updateActiveProducers (slotBlock 8) pairChain).1.isOk = true ∧
      ¬ ActiveSet pairChain (updateActiveProducers (slotBlock 8) pairChain).2 slotParent
        (slotBlock 8) := by
  refine ⟨by decide +kernel, by decide +kernel, fun h ↦ ?_⟩
  have hgone := h.missed 0 (registered 2) (by decide +kernel)
    ⟨7, by decide, by decide +kernel, by decide +kernel, by decide⟩ (by decide +kernel)
  exact absurd hgone (by decide +kernel)

end GseNetwork.Chain
