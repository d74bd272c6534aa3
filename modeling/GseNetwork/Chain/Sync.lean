import GseNetwork.Chain.Displacement

namespace GseNetwork.Chain

open GseNetwork.Core GseNetwork.Foundation GseNetwork.Storage

inductive Status
  | getHeight
  | replyHeight (height : UInt64)
  | syncBlocks (first last : UInt64)
  | replyBlocks (blocks : List Block)
  deriving DecidableEq

inductive Packet
  | status (x : Status)
  | blockState (x : BlockState)
  deriving DecidableEq

namespace BlockState

def empty : BlockState where
  block := {}
  blockNumber := 0
  blockID := 0

def equal (x y : BlockState) : Bool :=
  x.blockNumber == y.blockNumber && x.blockID == y.blockID &&
    x.activeProducers.size == y.activeProducers.size && x.confirmCount == y.confirmCount

def isSolidified (x : BlockState) : Bool :=
  x.activeProducers.size != 0 && decide (x.activeProducers.size * 2 / 3 ≤ x.confirmCount.toNat)

/-- `operator=`, which appends the confirmations to those already there. -/
def assign (x y : BlockState) : BlockState :=
  { y with confirmations := x.confirmations ++ y.confirmations }

end BlockState

structure Syncing (ε : Type) where
  relay : Relay
  heights : List (ε × UInt64) := []

namespace Sync

variable {ε : Type}

section Requests

def countPerRound : UInt64 := 15

def rangeEnd (requestStart height : UInt64) : UInt64 :=
  if countPerRound ≤ height - requestStart then requestStart + countPerRound - 1 else height

/-- The loop of `Sync::doWork` over the sorted heights: two peers in turn are asked for the same
range. A peer that is too low is passed over without counting. -/
def requestLoop : List (ε × UInt64) → ℕ → UInt64 → UInt64 → List (ε × UInt64 × UInt64)
  | [], _, _, _ => []
  | (peer, height) :: heights, idx, requestStart, requestEnd =>
    if idx % 2 = 0 then
      if requestStart ≤ height then
        (peer, requestStart, rangeEnd requestStart height) ::
          requestLoop heights (idx + 1) requestStart (rangeEnd requestStart height)
      else requestLoop heights idx requestStart requestEnd
    else
      (peer, requestStart, requestEnd) ::
        requestLoop heights (idx + 1) (requestStart + countPerRound) requestEnd

/-- The ranges asked for at a height of the node, `heights` being sorted. -/
def requests (currentHeight : UInt64) (heights : List (ε × UInt64)) :
    List (ε × UInt64 × UInt64) :=
  requestLoop heights 0 (currentHeight + 1) 0

/-- `Sync::doWork` past its clock, with the heights in the order `std::sort` has left them in. -/
def doWork (heights : List (ε × UInt64)) (s : BlockChain) :
    List (ε × UInt64 × UInt64) × BlockChain :=
  let sent := requests (UInt64.ofNat s.latestBlockNumber) heights
  if heights.isEmpty ∨ ¬ sent.isEmpty then (sent, { s with blockChainStatus := .sync })
  else if s.blockChainStatus = .sync then (sent, { s with blockChainStatus := .producer })
  else (sent, s)

theorem rangeEnd_bounds {s height : UInt64} (h : s ≤ height) :
    s ≤ rangeEnd s height ∧ rangeEnd s height ≤ height := by
  have h15 : (15 : UInt64).toNat = 15 := rfl
  have h1 : (1 : UInt64).toNat = 1 := rfl
  have hlt := height.toNat_lt
  have hsub := UInt64.toNat_sub_of_le height s h
  unfold rangeEnd countPerRound
  simp only [UInt64.le_iff_toNat_le] at h ⊢
  split_ifs with hround
  · have hadd : (s + 15).toNat = s.toNat + 15 := by
      rw [UInt64.toNat_add]
      omega
    have hsub₁ : (s + 15 - 1).toNat = s.toNat + 15 - 1 := by
      rw [UInt64.toNat_sub_of_le _ _ (by rw [UInt64.le_iff_toNat_le]; omega), hadd]
      rfl
    omega
  · exact ⟨h, le_refl _⟩

/-- A request never reaches beyond the height that its peer has advertised. -/
theorem mem_requestLoop {heights : List (ε × UInt64)} {idx : ℕ} {s e : UInt64}
    (hsorted : heights.Pairwise fun x y ↦ x.2 ≤ y.2)
    (hodd : idx % 2 = 1 → s ≤ e ∧ ∀ x ∈ heights, e ≤ x.2) {peer : ε} {first last : UInt64}
    (hmem : (peer, first, last) ∈ requestLoop heights idx s e) :
    first ≤ last ∧ ∃ height, (peer, height) ∈ heights ∧ last ≤ height := by
  induction heights generalizing idx s e with
  | nil => cases hmem
  | cons entry heights ih =>
    obtain ⟨p, height⟩ := entry
    obtain ⟨hfirst, hsorted⟩ := List.pairwise_cons.mp hsorted
    have hlater : (first ≤ last ∧ ∃ h, (peer, h) ∈ heights ∧ last ≤ h) →
        first ≤ last ∧ ∃ h, (peer, h) ∈ (p, height) :: heights ∧ last ≤ h :=
      fun ⟨hle, h, hmem, hlast⟩ ↦ ⟨hle, h, List.mem_cons_of_mem _ hmem, hlast⟩
    unfold requestLoop at hmem
    split_ifs at hmem with heven hreach
    · have hbounds := rangeEnd_bounds hreach
      rcases List.mem_cons.mp hmem with heq | hmem
      · cases heq
        exact ⟨hbounds.1, height, List.mem_cons_self, hbounds.2⟩
      · refine hlater (ih hsorted (fun _ ↦ ⟨hbounds.1, fun x hx ↦ ?_⟩) hmem)
        exact UInt64.le_trans hbounds.2 (hfirst x hx)
    · exact hlater (ih hsorted (fun h ↦ by omega) hmem)
    · obtain ⟨hle, hall⟩ := hodd (by omega)
      rcases List.mem_cons.mp hmem with heq | hmem
      · cases heq
        exact ⟨hle, height, List.mem_cons_self, hall (peer, height) List.mem_cons_self⟩
      · exact hlater (ih hsorted (fun h ↦ by omega) hmem)

theorem mem_requests {height : UInt64} {heights : List (ε × UInt64)}
    (hsorted : heights.Pairwise fun x y ↦ x.2 ≤ y.2) {peer : ε} {first last : UInt64}
    (hmem : (peer, first, last) ∈ requests height heights) :
    first ≤ last ∧ ∃ h, (peer, h) ∈ heights ∧ last ≤ h :=
  mem_requestLoop hsorted (fun h ↦ by omega) hmem

end Requests

section Replies

variable (env : Env) (rlpSize : Block → ℕ)

/-- `getBlockStateByNumber`; an entry of the database that does not decode reads as empty. -/
def getBlockStateByNumber (s : BlockChain) (number : ℕ) : BlockState :=
  let stored := match s.dbc.blockStateIndexStore[number]? with
    | some (.ok bs) => bs
    | _ => BlockState.empty
  if s.rollbackState.solidifyNumber ≤ number then
    (s.rollbackState.getBlockByNumber number).getD stored
  else stored

/-- The solid block state sent along with the block of number `i`: its own, or the one ten blocks
before it. -/
def takeBlockState (s : BlockChain) (i : ℕ) (bs : BlockState) : BlockState :=
  let found := getBlockStateByNumber s (if i < 11 then i else i - 10)
  if !found.equal BlockState.empty && found.isSolidified then bs.assign found else bs

def maxPacketSize : ℕ := 55000

/-- The loop that fills a `ReplyBlocks` status, over the numbers asked for. -/
def replyLoop (s : BlockChain) :
    List ℕ → ℕ → List Block → BlockState → Except Exception (List Block × BlockState)
  | [], _, blocks, bs => .ok (blocks, bs)
  | i :: numbers, realBlockSize, blocks, bs => do
    let block ← s.getBlockByNumber i
    if block.getHash env.sha3 = emptyBlock.getHash env.sha3 then return (blocks, bs)
    else if maxPacketSize ≤ realBlockSize + rlpSize block then return (blocks, bs)
    else
      replyLoop s numbers (realBlockSize + rlpSize block) (blocks ++ [block])
        (takeBlockState s i bs)

def syncReply (first last : UInt64) (s : BlockChain) : Except Exception (List Packet) :=
  if first < last ∧ last.toNat ≤ s.latestBlockNumber then do
    let (blocks, bs) ← replyLoop env rlpSize s
      (List.range' first.toNat (last.toNat + 1 - first.toNat)) 0 [] BlockState.empty
    return .status (.replyBlocks blocks) ::
      if bs.equal BlockState.empty then [] else [.blockState bs]
  else return []

def processStatusMessage [DecidableEq ε] (source : ε) (status : Status) :
    Eff (Syncing ε) Exception (List Packet) := fun n ↦
  match status with
  | .getHeight =>
    (.ok [.status (.replyHeight (UInt64.ofNat n.relay.chain.latestBlockNumber))], n)
  | .replyHeight height =>
    if n.relay.chain.latestBlockNumber < height.toNat then
      (.ok [], { n with heights := (source, height) :: n.heights.filter fun i ↦ i.1 != source })
    else (.ok [], n)
  | .syncBlocks first last => (syncReply env rlpSize first last n.relay.chain, n)
  | .replyBlocks blocks =>
    let r := Relay.processReplyBlocks env blocks n.relay
    (r.1.map fun _ ↦ [], { n with relay := r.2 })

/-- The node has a block of the number: solid blocks in the database, later ones in the queue, or
in the database if they are not queued. -/
structure Holds (s : BlockChain) (i : ℕ) (b : Block) : Prop where
  number_eq : b.getNumber = i
  real : b.getHash env.sha3 ≠ emptyBlock.getHash env.sha3
  kept : s.dbc.blockIndexStore[i]? = some (.ok b) ∧
      (i ≤ s.rollbackState.solidifyNumber ∨ ∀ item ∈ s.memoryQueue, item.blockNumber ≠ i) ∨
    s.rollbackState.solidifyNumber < i ∧
      ∃ item ∈ s.memoryQueue, item.blockNumber = i ∧ item.repository.block = b

structure Stocked (s : BlockChain) (first last : ℕ) : Prop where
  ordered : (s.memoryQueue.map (·.blockNumber)).Pairwise (· < ·)
  held : ∀ i, first ≤ i → i ≤ last → ∃ b, Holds env s i b

variable {env rlpSize} {s : BlockChain} {b : Block} {i : ℕ}

theorem getBlockByNumber_queued (hordered : (s.memoryQueue.map (·.blockNumber)).Pairwise (· < ·))
    (hlatest : i ≤ s.latestBlockNumber) (hsolid : s.rollbackState.solidifyNumber < i)
    {item : MemoryItem} (hmem : item ∈ s.memoryQueue) (hnumber : item.blockNumber = i) :
    s.getBlockByNumber i = .ok item.repository.block := by
  have hfind : s.memoryQueue.find? (fun j ↦ j.blockNumber == i) = some item := by
    obtain ⟨found, hfound⟩ : ∃ found, s.memoryQueue.find? (fun j ↦ j.blockNumber == i) =
        some found := by
      rw [← Option.isSome_iff_exists, List.find?_isSome]
      exact ⟨item, hmem, by simpa using hnumber⟩
    have hin := List.mem_of_find?_eq_some hfound
    have heq : found.blockNumber = i := by simpa using List.find?_some hfound
    have hinj := List.inj_on_of_nodup_map hordered.nodup hin hmem (heq.trans hnumber.symm)
    rw [hfound, hinj]
  have hbounds : (s.memoryQueue.map (·.blockNumber)).headD 0 ≤ i ∧
      i ≤ (s.memoryQueue.map (·.blockNumber)).getLastD 0 := by
    have hin : i ∈ s.memoryQueue.map (·.blockNumber) := by
      rw [← hnumber]
      exact List.mem_map_of_mem hmem
    generalize s.memoryQueue.map (·.blockNumber) = numbers at hordered hin
    constructor
    · cases numbers with
      | nil => cases hin
      | cons x xs =>
        rcases List.mem_cons.mp hin with rfl | hin
        · exact le_refl _
        · exact ((List.pairwise_cons.mp hordered).1 i hin).le
    · rcases List.eq_nil_or_concat' numbers with rfl | ⟨xs, x, rfl⟩
      · cases hin
      · rw [List.getLastD_concat]
        rcases List.mem_append.mp hin with hin | hin
        · exact ((List.pairwise_append.mp hordered).2.2 i hin x List.mem_cons_self).le
        · exact (List.mem_singleton.mp hin).le
  unfold BlockChain.getBlockByNumber
  rw [if_neg (by omega), if_neg (by omega), hfind]
  exact if_pos hbounds

theorem Holds.getBlockByNumber_eq (h : Holds env s i b)
    (hordered : (s.memoryQueue.map (·.blockNumber)).Pairwise (· < ·))
    (hlatest : i ≤ s.latestBlockNumber) : s.getBlockByNumber i = .ok b := by
  rcases h.kept with ⟨hstored, hplace⟩ | ⟨hsolid, item, hmem, hnumber, rfl⟩
  · have hdb : s.dbc.getBlockByNumber i = .ok b := by
      unfold DatabaseController.getBlockByNumber
      rw [Std.ExtTreeMap.getD_eq_getD_getElem?, hstored]
      rfl
    unfold BlockChain.getBlockByNumber
    rw [if_neg (by omega)]
    by_cases hsolid : i ≤ s.rollbackState.solidifyNumber
    · rw [if_pos hsolid]
      exact hdb
    · have hnone : s.memoryQueue.find? (fun j ↦ j.blockNumber == i) = none := by
        rw [List.find?_eq_none]
        intro item hitem
        simpa using (hplace.resolve_left hsolid) item hitem
      rw [if_neg hsolid, hnone]
      exact hdb
  · exact getBlockByNumber_queued hordered hlatest hsolid hmem hnumber

/-- The loop only appends blocks, and ends without an exception if all look-ups do. -/
theorem replyLoop_ok (env : Env) (rlpSize : Block → ℕ) {numbers : List ℕ}
    (hfound : ∀ i ∈ numbers, ∃ b, s.getBlockByNumber i = .ok b) (size : ℕ) (blocks : List Block)
    (bs : BlockState) :
    ∃ more bs', replyLoop env rlpSize s numbers size blocks bs = .ok (blocks ++ more, bs') := by
  induction numbers generalizing size blocks bs with
  | nil => exact ⟨[], bs, by rw [List.append_nil]; rfl⟩
  | cons i numbers ih =>
    obtain ⟨b, hb⟩ := hfound i List.mem_cons_self
    unfold replyLoop
    rw [hb, ok_bind]
    split_ifs
    · exact ⟨[], bs, by rw [List.append_nil]; rfl⟩
    · exact ⟨[], bs, by rw [List.append_nil]; rfl⟩
    · obtain ⟨more, bs', heq⟩ := ih (fun j hj ↦ hfound j (List.mem_cons_of_mem i hj))
        (size + rlpSize b) (blocks ++ [b]) (takeBlockState s i bs)
      exact ⟨b :: more, bs', by rw [heq, List.append_assoc]; rfl⟩

theorem syncReply_starts {first last : UInt64} (hstocked : Stocked env s first.toNat last.toNat)
    (hb : Holds env s first.toNat b) (hlatest : last.toNat ≤ s.latestBlockNumber) :
    (∃ blocks packets, syncReply env rlpSize first last s =
      .ok (.status (.replyBlocks (b :: blocks)) :: packets)) ↔
      first < last ∧ rlpSize b < maxPacketSize := by
  unfold syncReply
  by_cases hrange : first < last
  · have hlt : first.toNat < last.toNat := UInt64.lt_iff_toNat_lt.mp hrange
    have hrange' : List.range' first.toNat (last.toNat + 1 - first.toNat) =
        first.toNat :: List.range' (first.toNat + 1) (last.toNat - first.toNat) := by
      rw [show last.toNat + 1 - first.toNat = last.toNat - first.toNat + 1 by omega,
        List.range'_succ]
    have hfirst := hb.getBlockByNumber_eq hstocked.ordered (hlt.le.trans hlatest)
    have hrest : ∀ i ∈ List.range' (first.toNat + 1) (last.toNat - first.toNat),
        ∃ b, s.getBlockByNumber i = .ok b := by
      intro i hi
      rw [List.mem_range'_1] at hi
      obtain ⟨c, hc⟩ := hstocked.held i (by omega) (by omega)
      exact ⟨c, hc.getBlockByNumber_eq hstocked.ordered (by omega)⟩
    rw [if_pos ⟨hrange, hlatest⟩, hrange']
    unfold replyLoop
    rw [hfirst, ok_bind, if_neg hb.real, Nat.zero_add]
    split_ifs with hsize
    · constructor
      · rintro ⟨blocks, packets, heq⟩
        cases heq
      · intro h
        omega
    · obtain ⟨more, bs', heq⟩ := replyLoop_ok env rlpSize hrest (rlpSize b) ([] ++ [b])
        (takeBlockState s first.toNat BlockState.empty)
      rw [heq]
      refine ⟨fun _ ↦ ⟨hrange, by omega⟩, fun _ ↦ ⟨more, _, rfl⟩⟩
  · rw [if_neg fun h ↦ hrange h.1]
    constructor
    · rintro ⟨blocks, packets, heq⟩
      cases heq
    · intro h
      exact absurd h.1 hrange

/-- A request of `Sync::doWork` to a peer that still has the height it advertised and all blocks
of the range is answered with the first of them exactly if the range has more than one block and
the first fits into a packet. -/
theorem request_answered_iff [DecidableEq ε] (env : Env) (rlpSize : Block → ℕ) (height : UInt64)
    (heights : List (ε × UInt64)) (hsorted : heights.Pairwise fun x y ↦ x.2 ≤ y.2) (peer : ε)
    (first last : UInt64) (hrequest : (peer, first, last) ∈ requests height heights)
    (n : Syncing ε)
    (hheight : ∀ h, (peer, h) ∈ heights → h.toNat ≤ n.relay.chain.latestBlockNumber)
    (hstocked : Stocked env n.relay.chain first.toNat last.toNat) (b : Block)
    (hb : Holds env n.relay.chain first.toNat b) (source : ε) :
    (∃ blocks packets, processStatusMessage env rlpSize source (.syncBlocks first last) n =
      (.ok (.status (.replyBlocks (b :: blocks)) :: packets), n)) ↔
      first < last ∧ rlpSize b < maxPacketSize := by
  obtain ⟨-, h, hmem, hlast⟩ := mem_requests hsorted hrequest
  have hlatest := (UInt64.le_iff_toNat_le.mp hlast).trans (hheight h hmem)
  rw [← syncReply_starts hstocked hb hlatest]
  constructor
  · rintro ⟨blocks, packets, heq⟩
    exact ⟨blocks, packets, congrArg Prod.fst heq⟩
  · rintro ⟨blocks, packets, heq⟩
    exact ⟨blocks, packets, Prod.ext heq rfl⟩

end Replies

def plainBlock (number : UInt64) : Block := { blockHeader := { number := number } }

def stockedStore : DatabaseController where
  blockIndexStore := (Std.ExtTreeMap.insert ∅ 1 (.ok (plainBlock 1))).insert 2 (.ok (plainBlock 2))

def stockedPeer : Syncing ℕ where
  relay := { chain := { Relay.openRelay.chain with
    latestBlockNumber := 2
    dbc := stockedStore } }

theorem stocked_stockedPeer :
    Stocked Relay.openEnv stockedPeer.relay.chain 1 2 ∧
      Holds Relay.openEnv stockedPeer.relay.chain 1 (plainBlock 1) := by
  have hstored : stockedPeer.relay.chain.dbc.blockIndexStore[1]? =
        some (.ok (plainBlock 1)) ∧
      stockedPeer.relay.chain.dbc.blockIndexStore[2]? = some (.ok (plainBlock 2)) := by
    change stockedStore.blockIndexStore[1]? = _ ∧ stockedStore.blockIndexStore[2]? = _
    unfold stockedStore
    constructor
    · rw [Std.ExtTreeMap.getElem?_insert, if_neg (by decide), Std.ExtTreeMap.getElem?_insert_self]
    · rw [Std.ExtTreeMap.getElem?_insert_self]
  have hreal : (plainBlock 1).getHash Relay.openEnv.sha3 ≠
        emptyBlock.getHash Relay.openEnv.sha3 ∧
      (plainBlock 2).getHash Relay.openEnv.sha3 ≠
        emptyBlock.getHash Relay.openEnv.sha3 := by
    decide +kernel
  have hone : Holds Relay.openEnv stockedPeer.relay.chain 1 (plainBlock 1) :=
    ⟨rfl, hreal.1, Or.inl ⟨hstored.1, Or.inr fun _ h ↦ absurd h List.not_mem_nil⟩⟩
  refine ⟨⟨List.Pairwise.nil, fun i hlow hhigh ↦ ?_⟩, hone⟩
  obtain rfl | rfl : i = 1 ∨ i = 2 := by omega
  · exact ⟨_, hone⟩
  · exact ⟨_, rfl, hreal.2, Or.inl ⟨hstored.2, Or.inr fun _ h ↦ absurd h List.not_mem_nil⟩⟩

theorem request_answered_iff_stockedPeer :
    (7, 1, 2) ∈ requests 0 [(7, 2)] ∧
      ∃ blocks packets, processStatusMessage Relay.openEnv (fun _ ↦ 300) 5 (.syncBlocks 1 2)
        stockedPeer =
          (.ok (.status (.replyBlocks (plainBlock 1 :: blocks)) :: packets),
            stockedPeer) := by
  obtain ⟨hstocked, hone⟩ := stocked_stockedPeer
  refine ⟨by decide, (request_answered_iff Relay.openEnv (fun _ ↦ 300) 0 [(7, 2)]
    (List.pairwise_singleton _ _) 7 1 2 (by decide) stockedPeer ?_ hstocked _ hone 5).mpr
    ⟨by decide, by decide⟩⟩
  intro h hmem
  rw [(Prod.mk.inj (List.mem_singleton.mp hmem)).2]
  exact Nat.le_refl 2

/-- A peer that is one block ahead is asked for a range of one block, which it does not answer; a
first block that does not fit into a packet is answered with no block at all. -/
theorem request_unanswered :
    requests 0 [(7, 1)] = [(7, 1, 1)] ∧
      (processStatusMessage Relay.openEnv (fun _ ↦ 300) 5 (.syncBlocks 1 1)
        stockedPeer).1.toOption = some [] ∧
      requests 0 [(7, 2)] = [(7, 1, 2)] ∧
      (processStatusMessage Relay.openEnv (fun _ ↦ 55000) 5 (.syncBlocks 1 2)
        stockedPeer).1.toOption = some [.status (.replyBlocks [])] ∧
      Stocked Relay.openEnv stockedPeer.relay.chain 1 2 := by
  refine ⟨by decide, by decide +kernel, by decide, by decide +kernel, stocked_stockedPeer.1⟩

end Sync

end GseNetwork.Chain
