import GseNetwork.Chain.Runs

namespace GseNetwork.Chain

open GseNetwork.Core GseNetwork.Foundation GseNetwork.Storage
open ForkIndex (byNumber ids OfBlock)
open BlockChain

section Start

variable {env : Env} {initial : Block} {s : BlockChain}

/-- `s` is what `init` makes of a database whose last committed block is `initial`. -/
structure Initialised (env : Env) (initial : Block) (s : BlockChain) : Prop where
  init_eq : ∃ dbc attributes, dbc.getBlockByNumber attributes.currentBlockHeight = .ok initial ∧
    attributes.currentBlockHeight = initial.getNumber ∧ init env dbc attributes = .ok s
  parent_ne : initial.getParentHash ≠ initial.getHash env.sha3

theorem start_linked {dbc : DatabaseController} {attributes : Attributes}
    (hheight : attributes.currentBlockHeight = initial.getNumber)
    (hparent : initial.getParentHash ≠ initial.getHash env.sha3) :
    (start env dbc attributes initial).control.Linked env.sha3 initial where
  items i hi := by cases hi
  linked := List.isChain_singleton _
  height := hheight
  wf := ⟨fun b hb ↦ by rw [List.mem_singleton.mp hb]; exact ⟨rfl, rfl⟩, List.nodup_singleton _⟩
  queued i hi := by cases hi
  past := Or.inr ⟨⟨_, List.mem_singleton_self _, rfl⟩,
    fun hmem ↦ hparent (List.mem_singleton.mp hmem)⟩
  latest := rfl
  headOf := ⟨rfl, rfl⟩
  rollbackHeadOf := ⟨rfl, rfl⟩
  sameHead := rfl
  bounded b hb := by rw [List.mem_singleton.mp hb]; exact le_rfl
  loopless := hparent
  mode := .following rfl ⟨_, ForkIndex.byNumber_singleton _, rfl⟩
  cached n b hb := by
    change (∅ : Std.ExtTreeMap ℕ Block)[n]? = some b at hb
    rw [Std.ExtTreeMap.getElem?_empty] at hb
    contradiction

theorem Initialised.eq_start (h : Initialised env initial s) :
    ∃ dbc attributes, attributes.currentBlockHeight = initial.getNumber ∧
      s = start env dbc attributes initial := by
  obtain ⟨dbc, attributes, hblock, hheight, hinit⟩ := h.init_eq
  unfold BlockChain.init at hinit
  rw [hblock] at hinit
  change (if dbc.attributesStore.dbDirty = 1 then _ else _) = _ at hinit
  split_ifs at hinit
  refine ⟨dbc, { attributes with dbDirty := dbc.attributesStore.dbDirty }, hheight, ?_⟩
  exact (Except.ok.inj hinit).symm

theorem initialised_start {dbc : DatabaseController} {attributes : Attributes}
    (hblock : dbc.getBlockByNumber attributes.currentBlockHeight = .ok initial)
    (hheight : attributes.currentBlockHeight = initial.getNumber)
    (hclean : dbc.attributesStore.dbDirty ≠ 1)
    (hdirty : attributes.dbDirty = dbc.attributesStore.dbDirty)
    (hparent : initial.getParentHash ≠ initial.getHash env.sha3) :
    Initialised env initial (start env dbc attributes initial) := by
  refine ⟨⟨dbc, attributes, hblock, hheight, ?_⟩, hparent⟩
  unfold BlockChain.init
  rw [hblock]
  change (if dbc.attributesStore.dbDirty = 1 then _ else _) = _
  rw [if_neg hclean, ← hdirty]
  rfl

theorem Initialised.linked (h : Initialised env initial s) :
    s.control.Linked env.sha3 initial := by
  obtain ⟨dbc, attributes, hheight, rfl⟩ := h.eq_start
  exact start_linked hheight h.parent_ne

end Start

section Coherence

variable (env : Env) (initial : Block) (s : BlockChain)

/-- The queue continues the committed chain, its last block is the head and the latest block, and
the fork index would accept a child of the head. -/
structure Coherent : Prop where
  linked : (s.control.lastCommitted initial :: s.control.blocks).IsChain (Follows env.sha3)
  head : s.head.block = s.control.tip initial
  latest : s.latestBlockNumber = s.head.blockNumber
  accepts : (s.rollbackState.getBlock s.head.blockID).isSome = true

/-- What keeps the node coherent when the worker takes this block: if it is accepted with the next
number then as a child of the head, and its execution raises no exception; if it is accepted with
a lower number then not together with a solid head, which would leave the index. -/
structure SmoothBlock (block : Block) : Prop where
  fresh : s.control.Fresh env.sha3 initial block
  parent : Accepted env block s → block.getNumber = s.latestBlockNumber + 1 →
    block.getParentHash = s.head.blockID
  executes : Accepted env block s → block.getNumber = s.latestBlockNumber + 1 →
    ∀ t, addToRollbackState env block s = (.ok (), t) → (attemptBlock env block t).1.isOk = true
  fork : Accepted env block s → block.getNumber ≤ s.latestBlockNumber → Solidifies block s →
    s.memoryQueue ≠ [] →
    RollbackState.maxBftSolidify s.rollbackState.index < s.latestBlockNumber

def Smooth (s : BlockChain) : Event → Prop
  | .work => ∀ block, s.nextBlock.1 = some block → SmoothBlock env initial s.nextBlock.2 block
  | _ => True

variable {env initial s} {t : BlockChain} {block : Block}

structure Follower (sha3 : Bytes → H256) (initial : Block) (c : Control) : Prop
    extends Control.Linked sha3 initial c where
  head : c.head.block = c.tip initial
  live : c.Live

theorem Follower.coherent (h : Follower env.sha3 initial s.control) : Coherent env initial s := by
  refine ⟨h.chain, h.head, ?_, ?_⟩
  · have hnumber : s.head.blockNumber = (s.control.tip initial).getNumber := by
      rw [← h.head]
      exact h.headOf.number_eq
    exact h.latest.trans hnumber.symm
  · rw [ForkIndex.isSome_getBlock]
    exact Control.Live.mem_ids h.toLinked h.live

theorem Follower.latest_eq (h : Follower env.sha3 initial s.control) :
    s.latestBlockNumber = s.head.blockNumber := h.coherent.latest

/-- Where the node is not told to commit its whole queue, the head stays in the index. -/
theorem Added.fork_kept {new : BlockState} {c : Control}
    (h : Follower env.sha3 initial s.control) (hadd : Added env initial block s new c)
    (hfork : Solidifies block s → s.memoryQueue ≠ [] →
      RollbackState.maxBftSolidify s.rollbackState.index < s.latestBlockNumber) :
    c.queue = s.control.queue ∨
      (c.lastCommitted initial).getNumber < s.control.head.blockNumber := by
  by_cases hsolid : Solidifies block s
  · obtain ⟨l, hqueue, hcommitted, hall⟩ := hadd.solidified.commits
    have hqueue' : s.control.queue = l ++ c.queue := hqueue
    rcases List.eq_nil_or_concat l with rfl | ⟨l, last, rfl⟩
    · exact Or.inl hqueue'.symm
    · right
      have hne : s.memoryQueue ≠ [] := by
        intro hnil
        simp [BlockChain.control, hnil] at hqueue'
      have hlt := hfork hsolid hne
      have hle := hall last (by simp)
      have hitem := h.items last (by rw [hqueue']; simp)
      have hlast : c.lastCommitted initial = last.2 := by
        rw [Control.lastCommitted, hcommitted]
        simp [List.getLastD_eq_getLast?]
      have hlatest : s.latestBlockNumber = s.control.head.blockNumber := h.latest_eq
      rw [hlast, ← hitem]
      omega
  · left
    rw [hadd.quiet hsolid]
    rfl

theorem Follower.contained (h : Follower env.sha3 initial s.control)
    (hsmooth : SmoothBlock env initial s block) : Contained env block s := by
  intro hacc hnumber hparent t e u hadd hattempt
  have hok := hsmooth.executes hacc (by rw [h.latest_eq, hnumber]) t hadd
  rw [hattempt] at hok
  contradiction

theorem Follower.processed (h : Follower env.sha3 initial s.control)
    (hsmooth : SmoothBlock env initial s block) (hp : Processed env initial block s t) :
    Follower env.sha3 initial t.control := by
  have hlinked := hp.linked h.toLinked
  cases hp with
  | rejected ht =>
    rw [ht]
    exact h
  | @fork new c hacc hadd hle hlive ht =>
    have hnew : new.blockNumber ≤ s.control.head.blockNumber := by
      rw [hadd.newOf.number_eq, hadd.block_eq]
      exact hle
    obtain ⟨-, -, hblock⟩ := h.head_add_of_le hlive hnew
    have hkept := hadd.fork_kept h (hsmooth.fork hacc (by rw [h.latest_eq]; exact hle))
    have htip : c.follow.tip initial = s.control.tip initial := hadd.solidified.tip_eq
    rw [ht] at hlinked ⊢
    refine ⟨hlinked, ?_, h.fork_live hadd.solidified hlive hnew hkept⟩
    rw [htip, ← h.head, ← hblock]
    exact congrArg BlockState.block hadd.solidified.rollbackHead_eq
  | apart hacc hadd hhead hnumber hparent ht =>
    exact absurd (hsmooth.parent hacc (by rw [h.latest_eq, hnumber])) hparent
  | failed hacc hadd hhead hnumber hparent hfails ht =>
    obtain ⟨u, e, v, hrun, hattempt⟩ := hfails
    have hok := hsmooth.executes hacc (by rw [h.latest_eq, hnumber]) u hrun
    rw [hattempt] at hok
    contradiction
  | @done new c hacc hadd hhead hnumber hparent ht =>
    obtain ⟨-, hlive, hblock, -⟩ := hadd.next_linked h.toLinked hhead hnumber
    have hlive' : c.follow.execute.Live := hlive
    rw [ht] at hlinked ⊢
    refine ⟨hlinked, ?_, hlive'.send env block⟩
    rw [Control.tip_send, Control.tip_execute, Control.head_send]
    rfl

theorem Follower.nextBlock (h : Follower env.sha3 initial s.control) :
    Follower env.sha3 initial s.nextBlock.2.control := by
  have hlinked := h.toLinked.nextBlock
  obtain ⟨cache, heq, -⟩ := nextBlock_eq s
  rw [heq] at hlinked ⊢
  exact ⟨hlinked, h.head, h.live⟩

theorem Follower.confirm {c : Control} (h : Follower env.sha3 initial c)
    (hc : HeaderConfirmation) : Follower env.sha3 initial (c.confirm hc) :=
  ⟨h.toLinked.confirm hc, h.head, Control.byNumber_confirm hc h.live⟩

theorem Follower.confirmAll {c : Control} (h : Follower env.sha3 initial c)
    (hcs : List HeaderConfirmation) : Follower env.sha3 initial (hcs.foldl Control.confirm c) := by
  induction hcs generalizing c with
  | nil => exact h
  | cons hc hcs ih => exact ih (h.confirm hc)

theorem Follower.orderly (h : Follower env.sha3 initial s.control) {event : Event}
    (hsmooth : Smooth env initial s event) : Orderly env initial s event := by
  cases event with
  | work =>
    intro block hnext
    have hblock := hsmooth block hnext
    exact ⟨hblock.fresh, h.nextBlock.contained hblock⟩
  | _ => trivial

theorem Follower.handle (h : Follower env.sha3 initial s.control) {event : Event}
    (hsmooth : Smooth env initial s event) (hrun : handle env event s = (.ok (), t)) :
    Follower env.sha3 initial t.control := by
  cases event with
  | block block =>
    obtain ⟨-, rfl⟩ := Prod.mk.inj hrun
    exact ⟨h.toLinked.setBlockCache (h.cached.cacheBlock block), h.head, h.live⟩
  | work =>
    rcases doWork_cases h.toLinked (h.orderly hsmooth) with
      ⟨-, hwork⟩ | ⟨block, u, hnext, hwork, hprocessed⟩
    · obtain ⟨-, rfl⟩ := Prod.mk.inj (hwork.symm.trans hrun)
      exact h.nextBlock
    · obtain ⟨-, rfl⟩ := Prod.mk.inj (hwork.symm.trans hrun)
      exact h.nextBlock.processed (hsmooth block hnext) hprocessed
  | confirmation hc =>
    obtain ⟨-, rfl⟩ := Prod.mk.inj hrun
    exact h.confirm hc
  | blockState number confirmations =>
    obtain ⟨-, rfl⟩ := Prod.mk.inj hrun
    rw [control_processBlockStateMessage]
    split_ifs
    · exact h
    · exact h.confirmAll confirmations
  | status status =>
    obtain ⟨-, rfl⟩ := Prod.mk.inj hrun
    exact h

theorem Follower.run (h : Follower env.sha3 initial s.control)
    (hrun : Run env (Smooth env initial) s t) : Follower env.sha3 initial t.control := by
  induction hrun with
  | start => exact h
  | step _ hsmooth hstep ih => exact ih.handle hsmooth hstep

theorem Initialised.follower (h : Initialised env initial s) :
    Follower env.sha3 initial s.control := by
  refine ⟨h.linked, ?_, ?_⟩
  all_goals
    obtain ⟨dbc, attributes, hheight, rfl⟩ := h.eq_start
  · rfl
  · exact ⟨_, ForkIndex.byNumber_singleton _, rfl⟩

/-- In every run from the initialised node in which the worker takes blocks smoothly, whatever
confirmations and blocks arrive in between, the node stays coherent. -/
theorem coherent_of_smooth (h : Initialised env initial s)
    (hrun : Run env (Smooth env initial) s t) : Coherent env initial t :=
  (h.follower.run hrun).coherent

end Coherence

section Solo

def soloEnv : Env where
  sha3 data := BitVec.ofNat 256 (BigEndian.fromBigEndian data)
  chainID := 0
  address := 1

def soloStore (funded : Bool) : DatabaseController where
  accountStore := if funded then Std.ExtTreeMap.insert ∅ 1 (.ok (Account.new 1 1 0)) else ∅
  blockIndexStore := Std.ExtTreeMap.insert ∅ 0 (.ok {})

def soloAttributes : Attributes where
  currentProducerList := { producers := [{ address := 1, timestamp := 1, votes := 0 }] }

def soloChain (funded : Bool) : BlockChain := start soloEnv (soloStore funded) soloAttributes {}

def soloBlock (parent : Block) (number : UInt64) (slot : Int64) : Block where
  blockHeader := {
    producer := 1, parentHash := parent.getHash soloEnv.sha3, number := number
    timestamp := 1538352000000 + 2000 * slot }

def soloFirst : Block := soloBlock {} 1 0

theorem initialised_soloChain (funded : Bool) : Initialised soloEnv {} (soloChain funded) :=
  initialised_start Std.ExtTreeMap.getD_insert_self rfl Nat.zero_ne_one rfl (by decide +kernel)

theorem smooth_soloFirst : Smooth soloEnv {} (cacheBlock soloFirst (soloChain true)) .work := by
  intro block hnext
  obtain ⟨s, hs⟩ : ∃ s, s = (cacheBlock soloFirst (soloChain true)).nextBlock := ⟨_, rfl⟩
  have hcheck : s.1 = some soloFirst ∧ s.2.control.Fresh soloEnv.sha3 {} soloFirst ∧
      soloFirst.getParentHash = s.2.head.blockID ∧
      ¬ soloFirst.getNumber ≤ s.2.latestBlockNumber ∧
      (attemptBlock soloEnv soloFirst (addToRollbackState soloEnv soloFirst s.2).2).1.isOk =
        true := by
    rw [hs]
    decide +kernel
  obtain ⟨hfirst, hfresh, hparent, hhigh, hok⟩ := hcheck
  rw [← hs, hfirst] at hnext
  obtain rfl := Option.some.inj hnext
  rw [← hs]
  refine ⟨hfresh, fun _ _ ↦ hparent, fun _ _ t hadd ↦ ?_, fun _ hle ↦ absurd hle hhigh⟩
  rwa [hadd] at hok

theorem coherent_of_smooth_solo :
    Coherent soloEnv {} (afterBlock soloEnv (soloChain true) soloFirst) :=
  coherent_of_smooth (initialised_soloChain true)
    (run_afterBlock .start trivial smooth_soloFirst (by decide +kernel))

/-- A block whose execution fails, here for want of an account to pay the bonus to, is the head
without being in the queue. -/
theorem incoherent_after_failure :
    Initialised soloEnv {} (soloChain false) ∧
      Run soloEnv (fun _ _ ↦ True) (soloChain false)
        (afterBlock soloEnv (soloChain false) soloFirst) ∧
      ¬ Coherent soloEnv {} (afterBlock soloEnv (soloChain false) soloFirst) := by
  refine ⟨initialised_soloChain false,
    run_afterBlock .start trivial trivial (by decide +kernel), fun hcoherent ↦ ?_⟩
  have hhead : (afterBlock soloEnv (soloChain false) soloFirst).head.block ≠
      (afterBlock soloEnv (soloChain false) soloFirst).control.tip {} := by decide +kernel
  exact hhead hcoherent.head

end Solo

end GseNetwork.Chain
