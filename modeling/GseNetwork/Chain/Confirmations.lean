import GseNetwork.Chain.StateCodec
import GseNetwork.Chain.Sync

namespace GseNetwork.Chain

open GseNetwork.Core GseNetwork.Foundation

namespace BlockState

def setProducerSnapshot (x : BlockState) (ps : ProducerSnapshot) : BlockState :=
  { x with activeProducers := ps }

/-- The books are in order: the count is the number of confirmations, which are all different and
all for this block. -/
structure Booked (x : BlockState) : Prop where
  count : x.confirmCount.toNat = x.confirmations.length
  distinct : x.confirmations.Pairwise fun c d ↦ c.equal d = false
  own : ∀ c ∈ x.confirmations, c.number.toNat = x.blockNumber ∧ c.blockID = x.blockID

variable {x y : BlockState}

theorem Booked.isSolidified_iff (h : x.Booked) (hpos : 0 < x.activeProducers.size) :
    x.isSolidified = true ↔ x.activeProducers.size * 2 / 3 ≤ x.confirmations.length := by
  unfold isSolidified
  rw [h.count, Bool.and_eq_true, bne_iff_ne, decide_eq_true_eq]
  exact and_iff_right hpos.ne'

theorem booked_ofBlock (sha3 : Bytes → H256) (block : Block) : (ofBlock sha3 0 block).Booked :=
  ⟨rfl, .nil, fun _ hc ↦ absurd hc List.not_mem_nil⟩

def Ignores (x : BlockState) (c : HeaderConfirmation) : Prop :=
  c.number.toNat ≠ x.blockNumber ∨ c.blockID ≠ x.blockID ∨
    x.activeProducers.isExist c.producer = false ∨ ∃ d ∈ x.confirmations, d.equal c = true

theorem booked_addConfirmation (h : x.Booked) (c : HeaderConfirmation)
    (hroom : x.confirmations.length < 255 ∨ x.Ignores c) : (x.addConfirmation c).Booked := by
  unfold addConfirmation
  split_ifs with hother hactive hknown
  · exact h
  · exact h
  · exact h
  · simp only [not_or, not_not] at hother
    have hroom : x.confirmations.length < 255 := by
      refine hroom.resolve_right ?_
      rintro (hnumber | hid | hproducer | hmem)
      · exact hnumber hother.1
      · exact hid hother.2
      · exact hactive (by rw [hproducer]; rfl)
      · exact hknown (List.any_eq_true.mpr hmem)
    refine ⟨?_, ?_, ?_⟩
    · have hcount := h.count
      change (x.confirmCount + 1).toNat = (x.confirmations ++ [c]).length
      rw [UInt8.toNat_add, List.length_append, hcount, List.length_singleton]
      exact Nat.mod_eq_of_lt (Nat.succ_lt_succ hroom)
    · refine List.pairwise_append.mpr ⟨h.distinct, List.pairwise_singleton _ _, ?_⟩
      intro d hd e he
      rw [List.mem_singleton.mp he]
      rw [Bool.not_eq_true, List.any_eq_false] at hknown
      exact Bool.eq_false_iff.mpr (hknown d hd)
    · intro d hd
      rcases List.mem_append.mp hd with hd | hd
      · exact h.own d hd
      · rw [List.mem_singleton.mp hd]
        exact hother

theorem assign_of_nil (h : x.confirmations = []) : x.assign y = y := by
  unfold assign
  rw [h, List.nil_append]

theorem Booked.of_sameStored (h : y.Booked) (hsame : SameStored x y) : x.Booked := by
  refine ⟨?_, ?_, ?_⟩
  · rw [hsame.confirmCount, hsame.confirmations]
    exact h.count
  · rw [hsame.confirmations]
    exact h.distinct
  · rw [hsame.confirmations, hsame.blockNumber, hsame.blockID]
    exact h.own

end BlockState

/-- How a block state came about: constructed from a block, and then changed, copied, assigned to
another state, or written and read into a fresh object. -/
inductive History
  | construct (garbage : UInt8) (block : Block)
  | addConfirmation (history : History) (confirmation : HeaderConfirmation)
  | setProducerSnapshot (history : History) (ps : ProducerSnapshot)
  | copy (history : History)
  | assign (target : BlockState) (history : History)
  | reload (fresh : BlockState) (history : History)

namespace History

variable (sha3 : Bytes → H256)

def result : History → BlockState
  | construct garbage block => BlockState.ofBlock sha3 garbage block
  | addConfirmation history confirmation => history.result.addConfirmation confirmation
  | setProducerSnapshot history ps => history.result.setProducerSnapshot ps
  | copy history => history.result
  | assign target history => target.assign history.result
  | reload fresh history =>
    BlockState.ofRLP { fresh with confirmations := [] } history.result.getRLPData

/-- Every step meets its condition: the count starts at zero, no count is full, nothing is assigned
to a state with confirmations, and no negative time is written. -/
def Careful : History → Prop
  | construct garbage _ => garbage = 0
  | addConfirmation history confirmation => history.Careful ∧
    ((history.result sha3).confirmations.length < 255 ∨
      (history.result sha3).Ignores confirmation)
  | setProducerSnapshot history _ => history.Careful
  | copy history => history.Careful
  | assign target history => history.Careful ∧ target.confirmations = []
  | reload _ history => history.Careful ∧ (history.result sha3).Timely ∧
    (history.result sha3).getRLPData.length < maxLength

variable {sha3}

theorem blockNumber_addConfirmation (x : BlockState) (c : HeaderConfirmation) :
    (x.addConfirmation c).blockNumber = x.blockNumber := by
  unfold BlockState.addConfirmation
  split_ifs <;> rfl

theorem result_blockNumber_lt {history : History} (h : history.Careful sha3) :
    (history.result sha3).blockNumber < 2 ^ 64 := by
  induction history with
  | construct garbage block => exact block.blockHeader.number.toNat_lt
  | addConfirmation history confirmation ih =>
    rw [result, blockNumber_addConfirmation]
    exact ih h.1
  | setProducerSnapshot history ps ih => exact ih h
  | copy history ih => exact ih h
  | assign target history ih => exact ih h.1
  | reload fresh history ih =>
    have hsame := BlockState.ofRLP_getRLPData h.2.1 (ih h.1) h.2.2
      (show ({ fresh with confirmations := [] } : BlockState).confirmations = [] from rfl)
    rw [result, hsame.blockNumber]
    exact ih h.1

theorem result_booked {history : History} (h : history.Careful sha3) :
    (history.result sha3).Booked := by
  induction history with
  | construct garbage block =>
    obtain rfl : garbage = 0 := h
    exact BlockState.booked_ofBlock sha3 block
  | addConfirmation history confirmation ih =>
    exact BlockState.booked_addConfirmation (ih h.1) confirmation h.2
  | setProducerSnapshot history ps ih => exact ⟨(ih h).count, (ih h).distinct, (ih h).own⟩
  | copy history ih => exact ih h
  | assign target history ih =>
    rw [result, BlockState.assign_of_nil h.2]
    exact ih h.1
  | reload fresh history ih =>
    exact (ih h.1).of_sameStored
      (BlockState.ofRLP_getRLPData h.2.1 (result_blockNumber_lt h.1) h.2.2 rfl)

end History

namespace Sync

variable {env : Env} {rlpSize : Block → ℕ} {s : BlockChain}

def solidState (s : BlockChain) (i : ℕ) : Option BlockState :=
  let found := getBlockStateByNumber s (if i < 11 then i else i - 10)
  if !found.equal BlockState.empty && found.isSolidified then some found else none

def solidStates (s : BlockChain) (numbers : List ℕ) : List BlockState :=
  numbers.filterMap (solidState s)

theorem found_of_solidState {i : ℕ} {y : BlockState} (h : solidState s i = some y) :
    ∃ n, getBlockStateByNumber s n = y := by
  unfold solidState at h
  dsimp only at h
  generalize (if i < 11 then i else i - 10) = n at h
  split_ifs at h
  exact ⟨n, Option.some.inj h⟩

theorem takeBlockState_eq (s : BlockChain) (i : ℕ) (bs : BlockState) :
    takeBlockState s i bs = ((solidState s i).map bs.assign).getD bs := by
  unfold takeBlockState solidState
  dsimp only
  split_ifs <;> rfl

theorem foldl_solidStates_cons (s : BlockChain) (i : ℕ) (numbers : List ℕ) (bs : BlockState) :
    (solidStates s (i :: numbers)).foldl BlockState.assign bs =
      (solidStates s numbers).foldl BlockState.assign (takeBlockState s i bs) := by
  rw [takeBlockState_eq, solidStates, List.filterMap_cons]
  cases solidState s i <;> rfl

/-- The loop takes the solid states of the first numbers, as far as it comes. -/
theorem replyLoop_takes {numbers : List ℕ} {size : ℕ} {blocks blocks' : List Block}
    {bs bs' : BlockState}
    (h : replyLoop env rlpSize s numbers size blocks bs = .ok (blocks', bs')) :
    ∃ k, bs' = (solidStates s (numbers.take k)).foldl BlockState.assign bs := by
  induction numbers generalizing size blocks bs with
  | nil => exact ⟨0, (Prod.mk.inj (Except.ok.inj h)).2.symm⟩
  | cons i numbers ih =>
    rw [replyLoop] at h
    obtain ⟨block, -, hrest⟩ := bind_eq_ok.mp h
    split_ifs at hrest with hempty hfull
    · exact ⟨0, (Prod.mk.inj (Except.ok.inj hrest)).2.symm⟩
    · exact ⟨0, (Prod.mk.inj (Except.ok.inj hrest)).2.symm⟩
    · obtain ⟨k, hk⟩ := ih hrest
      refine ⟨k + 1, ?_⟩
      rw [List.take_succ_cons, foldl_solidStates_cons]
      exact hk

/-- If all states but the last are without confirmations, the last one is what remains. -/
theorem foldl_assign (l : List BlockState) {bs : BlockState} (hbs : bs.confirmations = [])
    (h : ∀ y ∈ l.dropLast, y.confirmations = []) :
    l.foldl BlockState.assign bs = l.getLastD bs := by
  induction l generalizing bs with
  | nil => rfl
  | cons y l ih =>
    rw [List.foldl_cons, BlockState.assign_of_nil hbs]
    cases l with
    | nil => rfl
    | cons z l =>
      rw [ih (h y (by simp)) fun x hx ↦ h x (List.mem_cons_of_mem _ hx)]
      rfl

theorem mem_dropLast_take {numbers : List ℕ} (k : ℕ) {y : BlockState}
    (hy : y ∈ (solidStates s (numbers.take k)).dropLast) :
    y ∈ (solidStates s numbers).dropLast := by
  have hsplit : solidStates s numbers =
      solidStates s (numbers.take k) ++ solidStates s (numbers.drop k) := by
    unfold solidStates
    rw [← List.filterMap_append, List.take_append_drop]
  rw [hsplit]
  rcases List.eq_nil_or_concat (solidStates s (numbers.drop k)) with hnil | ⟨l, z, hl⟩
  · rwa [hnil, List.append_nil]
  · rw [hl, List.concat_eq_append, ← List.append_assoc, List.dropLast_concat]
    exact List.mem_append_left _ (List.mem_of_mem_dropLast hy)

theorem sent_booked {first last : UInt64} {packets : List Packet} {bs : BlockState}
    (hreply : syncReply env rlpSize first last s = .ok packets) (hsent : .blockState bs ∈ packets)
    (hstates : ∀ number, (getBlockStateByNumber s number).Booked)
    (hsole : ∀ y ∈ (solidStates s
      (List.range' first.toNat (last.toNat + 1 - first.toNat))).dropLast, y.confirmations = []) :
    bs.Booked := by
  unfold syncReply at hreply
  split_ifs at hreply with hrange
  · obtain ⟨⟨blocks, bs'⟩, hloop, hpackets⟩ := bind_eq_ok.mp hreply
    obtain rfl := Except.ok.inj hpackets
    have hbs : bs = bs' ∧ bs'.equal BlockState.empty = false := by
      rcases List.mem_cons.mp hsent with hcontra | hmem
      · cases hcontra
      · split_ifs at hmem with hempty
        · cases hmem
        · refine ⟨?_, by simpa using hempty⟩
          exact Packet.blockState.inj (List.mem_singleton.mp hmem)
    obtain ⟨rfl, hne⟩ := hbs
    obtain ⟨k, hk⟩ := replyLoop_takes hloop
    rw [foldl_assign _ rfl fun y hy ↦ hsole y (mem_dropLast_take k hy)] at hk
    rcases List.eq_nil_or_concat (solidStates s
      ((List.range' first.toNat (last.toNat + 1 - first.toNat)).take k)) with hnil | ⟨l, z, hl⟩
    · rw [hnil] at hk
      rw [hk] at hne
      exact absurd hne (by decide)
    · have hz : z ∈ solidStates s
          ((List.range' first.toNat (last.toNat + 1 - first.toNat)).take k) := by
        rw [hl]
        simp
      rw [hl, List.concat_eq_append, List.getLastD_concat] at hk
      obtain ⟨i, -, hi⟩ := List.mem_filterMap.mp hz
      obtain ⟨n, hn⟩ := found_of_solidState hi
      rw [hk, ← hn]
      exact hstates n
  · obtain rfl := Except.ok.inj hreply
    cases hsent

end Sync

/-- In every careful history the books are in order and the two tests for a quorum agree, and a
reply carries a state whose books are in order if at most the last solid state of the range has
confirmations. -/
theorem booked_of_careful (sha3 : Bytes → H256) (history : History) (h : history.Careful sha3) :
    (history.result sha3).Booked ∧
      (0 < (history.result sha3).activeProducers.size →
        ((history.result sha3).isSolidified = true ↔
          (history.result sha3).activeProducers.size * 2 / 3 ≤
            (history.result sha3).confirmations.length)) ∧
      ∀ (env : Env) (rlpSize : Block → ℕ) (s : BlockChain) (first last : UInt64)
        (packets : List Packet) (bs : BlockState),
        Sync.syncReply env rlpSize first last s = .ok packets → .blockState bs ∈ packets →
        (∀ number, (Sync.getBlockStateByNumber s number).Booked) →
        (∀ y ∈ (Sync.solidStates s
          (List.range' first.toNat (last.toNat + 1 - first.toNat))).dropLast,
          y.confirmations = []) → bs.Booked :=
  ⟨History.result_booked h, (History.result_booked h).isSolidified_iff,
    fun _ _ _ _ _ _ _ ↦ Sync.sent_booked⟩

def confirmationOf (block : Block) : HeaderConfirmation where
  chainID := 0
  number := block.blockHeader.number
  blockID := block.getHash Relay.openEnv.sha3
  timestamp := 5
  producer := 1

def soleProducer : ProducerSnapshot where
  producers := [Producer.new 1 0]

def confirmedHistory (garbage : UInt8) (block : Block) : History :=
  .addConfirmation (.setProducerSnapshot (.construct garbage block) soleProducer)
    (confirmationOf block)

theorem booked_of_careful_confirmed :
    ((confirmedHistory 0 (Sync.plainBlock 1)).result Relay.openEnv.sha3).Booked :=
  (booked_of_careful Relay.openEnv.sha3 (confirmedHistory 0 (Sync.plainBlock 1))
    ⟨rfl, Or.inl (by decide +kernel)⟩).1

def confirmedChain : BlockChain :=
  { Relay.openRelay.chain with
    latestBlockNumber := 2
    dbc := { Sync.stockedStore with
      blockStateIndexStore := (Std.ExtTreeMap.insert ∅ 1 (.ok
        ((confirmedHistory 0 (Sync.plainBlock 1)).result Relay.openEnv.sha3))).insert 2 (.ok
        ((confirmedHistory 0 (Sync.plainBlock 2)).result Relay.openEnv.sha3)) } }

/-- The state sent for blocks one and two is that of block two with the confirmations of both; a
state constructed on memory that held a one counts a confirmation it does not have. -/
theorem books_mixed :
    (Sync.syncReply Relay.openEnv (fun _ ↦ 300) 1 2 confirmedChain).toOption =
        some [.status (.replyBlocks [Sync.plainBlock 1, Sync.plainBlock 2]),
          .blockState { (confirmedHistory 0 (Sync.plainBlock 2)).result Relay.openEnv.sha3 with
            confirmations :=
              [confirmationOf (Sync.plainBlock 1), confirmationOf (Sync.plainBlock 2)] }] ∧
      (History.result Relay.openEnv.sha3 (.construct 1 (Sync.plainBlock 1))).confirmCount = 1 ∧
      (History.result Relay.openEnv.sha3 (.construct 1 (Sync.plainBlock 1))).confirmations =
        [] := by
  decide +kernel

end GseNetwork.Chain
