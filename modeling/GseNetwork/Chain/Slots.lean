import GseNetwork.Chain.Displacement
import GseNetwork.Chain.Executed
import GseNetwork.Chain.Finality

namespace GseNetwork.Chain

open GseNetwork.Core GseNetwork.Foundation GseNetwork.Storage GseNetwork.Runtime
open BlockChain Relation

variable {env : Env} {block : Block} {s t : BlockChain}

def slotOf (time : ℤ) : ℤ := (time - genesisTimestamp).tdiv producerInterval

def Block.slot (block : Block) : ℤ := slotOf block.getTimestamp.toInt

/-- The times a node remembers: those of the producers' records and the one of the last update of
the schedule. -/
def Remembers (s : BlockChain) (time : ℤ) : Prop :=
  time = s.scheduleUpdateBlockTimestamp ∨
    ∃ producer : Address, s.producerRecord[producer]? = some time

def Dated (time : ℤ) : Prop := time = 0 ∨ genesisTimestamp ≤ time

/-- A block that starts later than a time of the network's life belongs to a later slot. -/
theorem slotOf_lt {time blockTime : ℤ} (hdated : Dated time) (hblock : genesisTimestamp ≤ blockTime)
    (h : time - genesisTimestamp < slotOf blockTime * producerInterval) :
    slotOf time < slotOf blockTime := by
  have hnonneg : 0 ≤ slotOf blockTime := Int.tdiv_nonneg (by omega) (by decide)
  unfold slotOf at h hnonneg ⊢
  rcases hdated with rfl | htime
  · have hneg : (0 - genesisTimestamp).tdiv producerInterval < 0 := by decide
    omega
  · have hdiv : (time - genesisTimestamp).tdiv producerInterval * producerInterval ≤
        time - genesisTimestamp := by
      rw [Int.tdiv_eq_ediv_of_nonneg (by omega)]
      exact Int.ediv_mul_le _ (by decide)
    exact lt_of_mul_lt_mul_right (hdiv.trans_lt h) (by decide)

/-- What `checkProducer` does not see: the block is not of a slot before the network's first, and
the other producers' records are of earlier slots. -/
structure Later (s : BlockChain) (block : Block) : Prop where
  dated : genesisTimestamp ≤ block.getTimestamp.toInt
  others : ∀ producer time, producer ≠ block.getProducer →
    s.producerRecord[producer]? = some time → slotOf time < Block.slot block

/-- The block is of the expected producer, and of a later slot than that producer's record and the
last update of the schedule. -/
theorem checkProducer_iff : s.checkProducer block = true ↔
    block.getProducer = s.getExpectedProducer block.getTimestamp ∧
      (∀ time, s.producerRecord[block.getProducer]? = some time →
        time - genesisTimestamp < Block.slot block * producerInterval) ∧
      s.scheduleUpdateBlockTimestamp - genesisTimestamp <
        Block.slot block * producerInterval := by
  unfold checkProducer
  dsimp only
  split_ifs with hexpected hrecord hschedule
  · exact iff_of_false not_false fun h ↦ hexpected h.1
  · refine iff_of_false not_false fun h ↦ ?_
    cases htime : s.producerRecord[block.getProducer]? with
    | none =>
      rw [htime] at hrecord
      cases hrecord
    | some time =>
      rw [htime] at hrecord
      exact absurd (h.2.1 time htime) (not_lt.mpr (of_decide_eq_true hrecord))
  · exact iff_of_false not_false fun h ↦ absurd h.2.2 (not_lt.mpr hschedule)
  · refine iff_of_true rfl ⟨not_not.mp hexpected, fun time htime ↦ ?_, not_le.mp hschedule⟩
    rw [htime] at hrecord
    exact not_le.mp fun hle ↦ hrecord (decide_eq_true hle)

/-- A block that passes `checkProducer` and is later than the other producers' records is of a
later slot than all that the node remembers. -/
theorem Later.slotOf_lt (h : Later s block) (hcheck : s.checkProducer block = true)
    (hdated : ∀ time, Remembers s time → Dated time) {time : ℤ} (htime : Remembers s time) :
    slotOf time < Block.slot block := by
  obtain ⟨-, hown, hschedule⟩ := checkProducer_iff.mp hcheck
  rcases htime with rfl | ⟨producer, hrecord⟩
  · exact Chain.slotOf_lt (hdated _ (Or.inl rfl)) h.dated hschedule
  · by_cases heq : producer = block.getProducer
    · rw [heq] at hrecord
      exact Chain.slotOf_lt (hdated _ (Or.inr ⟨_, hrecord⟩)) h.dated (hown time hrecord)
    · exact h.others producer time heq hrecord

structure InOrder (s : BlockChain) : Prop where
  increasing : (executedBlocks s).Pairwise fun a b ↦ Block.slot a < Block.slot b
  remembered : ∀ b ∈ executedBlocks s, ∃ time, Remembers s time ∧ Block.slot b ≤ slotOf time
  dated : ∀ time, Remembers s time → Dated time

section Around

structure Shrinks (s t : BlockChain) : Prop where
  sublist : (executedBlocks t).Sublist (executedBlocks s)
  record_eq : t.producerRecord = s.producerRecord
  scheduleUpdate_eq : t.scheduleUpdateBlockTimestamp = s.scheduleUpdateBlockTimestamp

theorem Shrinks.refl (s : BlockChain) : Shrinks s s := ⟨.refl _, rfl, rfl⟩

theorem Shrinks.trans {s t u : BlockChain} (h₁ : Shrinks s t) (h₂ : Shrinks t u) : Shrinks s u :=
  ⟨h₂.sublist.trans h₁.sublist, h₂.record_eq.trans h₁.record_eq,
    h₂.scheduleUpdate_eq.trans h₁.scheduleUpdate_eq⟩

theorem Shrinks.remembers_iff (h : Shrinks s t) (time : ℤ) :
    Remembers t time ↔ Remembers s time := by
  unfold Remembers
  rw [h.record_eq, h.scheduleUpdate_eq]

theorem InOrder.shrinks (h : InOrder s) (hst : Shrinks s t) : InOrder t := by
  refine ⟨h.increasing.sublist hst.sublist, fun b hb ↦ ?_, fun time htime ↦ ?_⟩
  · obtain ⟨time, htime, hle⟩ := h.remembered b (hst.sublist.subset hb)
    exact ⟨time, (hst.remembers_iff time).mpr htime, hle⟩
  · exact h.dated time ((hst.remembers_iff time).mp htime)

theorem Commits.shrinks (h : Commits env s t) : Shrinks s t := by
  cases h with
  | @commit item rest hqueue =>
    have hblocks : executedBlocks s = s.committed ++ [item.repository.block] ++
        rest.map fun i ↦ i.repository.block := by
      unfold executedBlocks
      rw [hqueue, List.map_cons, List.append_cons]
    refine ⟨?_, rfl, rfl⟩
    rw [hblocks]
    exact .refl _
  | solidify => exact ⟨.refl _, rfl, rfl⟩
  | front => exact ⟨.refl _, rfl, rfl⟩

theorem Undoes.shrinks (h : Undoes s t) : Shrinks s t := by
  cases h with
  | sync => exact ⟨.refl _, rfl, rfl⟩
  | back => exact ⟨.refl _, rfl, rfl⟩
  | pop prev =>
    refine ⟨?_, rfl, rfl⟩
    unfold executedBlocks cancelMemoryItem
    rw [List.map_dropLast]
    exact (List.dropLast_sublist _).append_left _

theorem shrinks_of_steps {r : BlockChain → BlockChain → Prop} (hr : ∀ s t, r s t → Shrinks s t)
    (h : ReflTransGen r s t) : Shrinks s t := by
  induction h with
  | refl => exact .refl s
  | tail _ hstep ih => exact ih.trans (hr _ _ hstep)

theorem addToRollbackState_shrinks (env : Env) (block : Block) :
    Eff.Keeps Shrinks (addToRollbackState env block) := by
  have htrans : ∀ s t u, Shrinks s t → Shrinks t u → Shrinks s u := fun _ _ _ ↦ Shrinks.trans
  refine Eff.Keeps.bind htrans (fun s ↦ .refl s) fun s ↦ ?_
  refine Eff.Keeps.bind htrans (fun s ↦ .refl s) fun p ↦ ?_
  refine Eff.Keeps.bind htrans (fun s ↦ ⟨.refl _, rfl, rfl⟩) fun _ ↦ ?_
  cases p.2 with
  | none => exact fun s ↦ .refl s
  | some bsp =>
    exact fun s ↦ shrinks_of_steps (fun _ _ ↦ Commits.shrinks) (onSolidifiable_steps env bsp s)

end Around

section Process

structure UpTo (block : Block) (s : BlockChain) : Prop where
  increasing : (executedBlocks s).Pairwise fun a b ↦ Block.slot a < Block.slot b
  bounded : ∀ b ∈ executedBlocks s, Block.slot b ≤ Block.slot block
  dated : ∀ time, Remembers s time → Dated time

def Marked (block : Block) (s : BlockChain) : Prop := Remembers s block.getTimestamp.toInt

theorem UpTo.inOrder (h : UpTo block s) (hmarked : Marked block s) : InOrder s :=
  ⟨h.increasing, fun b hb ↦ ⟨_, hmarked, h.bounded b hb⟩, h.dated⟩

structure Below (block : Block) (s : BlockChain) : Prop where
  inOrder : InOrder s
  earlier : ∀ b ∈ executedBlocks s, Block.slot b < Block.slot block

theorem InOrder.below (h : InOrder s)
    (hlater : ∀ time, Remembers s time → slotOf time < Block.slot block) : Below block s := by
  refine ⟨h, fun b hb ↦ ?_⟩
  obtain ⟨time, htime, hle⟩ := h.remembered b hb
  exact hle.trans_lt (hlater time htime)

theorem remembers_record {time : ℤ} (h : Remembers
    { s with
      producerRecord :=
        s.producerRecord.insert block.getProducer block.getTimestamp.toInt } time) :
    time = block.getTimestamp.toInt ∨ Remembers s time := by
  rcases h with hschedule | ⟨producer, hrecord⟩
  · exact Or.inr (Or.inl hschedule)
  · dsimp only at hrecord
    rw [ReadThrough.getElem?_insert] at hrecord
    split_ifs at hrecord
    · exact Or.inl (Option.some.inj hrecord).symm
    · exact Or.inr (Or.inr ⟨producer, hrecord⟩)

theorem marked_record (s : BlockChain) (block : Block) : Marked block
    { s with
      producerRecord := s.producerRecord.insert block.getProducer block.getTimestamp.toInt } :=
  Or.inr ⟨block.getProducer, Std.ExtTreeMap.getElem?_insert_self⟩

theorem Prepares.below (hdated : genesisTimestamp ≤ block.getTimestamp.toInt)
    (hstep : Prepares env block s t) (h : Below block s) : Below block t := by
  have hblocks := executedBlocks_of_control hstep.control_eq
  cases hstep with
  | lookup tx =>
    have hst : Shrinks s (isExistInRepo env tx s).2 := by
      refine ⟨by rw [hblocks], ?_, ?_⟩ <;> rw [isExistInRepo_state] <;> rfl
    exact ⟨h.inOrder.shrinks hst, fun b hb ↦ h.earlier b (hst.sublist.subset hb)⟩
  | active => exact ⟨h.inOrder.shrinks ⟨.refl _, rfl, rfl⟩, h.earlier⟩
  | record =>
    refine ⟨⟨h.inOrder.increasing, fun b hb ↦ ?_, fun time htime ↦ ?_⟩, h.earlier⟩
    · exact ⟨_, marked_record s block, (h.earlier b hb).le⟩
    · rcases remembers_record htime with rfl | hold
      · exact Or.inr hdated
      · exact h.inOrder.dated time hold

theorem prepareBlock_marked (h : prepareBlock env block s = (.ok (), t)) : Marked block t := by
  unfold prepareBlock at h
  obtain ⟨_, u, -, h⟩ := Eff.bind_eq_ok.mp h
  generalize updateActiveProducers block = m at h
  obtain ⟨_, v, -, h⟩ := Eff.bind_eq_ok.mp h
  obtain ⟨-, rfl⟩ := Prod.mk.inj h
  exact marked_record v block

theorem Below.push (h : Below block s) : UpTo block (addMemoryItem block s) := by
  have hblocks : executedBlocks (addMemoryItem block s) = executedBlocks s ++ [block] := by
    unfold executedBlocks addMemoryItem
    rw [List.map_append, ← List.append_assoc]
    rfl
  refine ⟨?_, ?_, h.inOrder.dated⟩
  · rw [hblocks, List.pairwise_append]
    refine ⟨h.inOrder.increasing, List.pairwise_singleton _ _, fun a ha b hb ↦ ?_⟩
    rw [List.mem_singleton.mp hb]
    exact h.earlier a ha
  · intro b hb
    rw [hblocks] at hb
    rcases List.mem_append.mp hb with hold | hnew
    · exact (h.earlier b hold).le
    · rw [List.mem_singleton.mp hnew]

theorem UpTo.of_eq (h : UpTo block s) (hblocks : (executedBlocks t).Sublist (executedBlocks s))
    (hdated : ∀ time, Remembers t time → Dated time) : UpTo block t :=
  ⟨h.increasing.sublist hblocks, fun b hb ↦ h.bounded b (hblocks.subset hb), hdated⟩

theorem getElem?_updateProducerRecord {producer : Address} {time : ℤ}
    (h : (updateProducerRecord s).producerRecord[producer]? = some time) :
    time = 0 ∨ s.producerRecord[producer]? = some time := by
  unfold updateProducerRecord at h
  dsimp only at h
  have hfold : ∀ (l : List Producer) (m : Std.ExtTreeMap Address ℤ),
      (∀ (p : Address) (x : ℤ), m[p]? = some x → x = 0 ∨ s.producerRecord[p]? = some x) →
      ∀ (p : Address) (x : ℤ),
        (l.foldl (fun m i ↦ m.insert i.address (s.producerRecord.getD i.address 0)) m)[p]? =
          some x → x = 0 ∨ s.producerRecord[p]? = some x := by
    intro l
    induction l with
    | nil => exact fun m hm ↦ hm
    | cons i l ih =>
      intro m hm
      refine ih _ fun p x hx ↦ ?_
      rw [ReadThrough.getElem?_insert] at hx
      split_ifs at hx with hp
      · subst hp
        rw [Std.ExtTreeMap.getD_eq_getD_getElem?] at hx
        cases hrec : s.producerRecord[i.address]? with
        | none => exact Or.inl (by simpa [hrec] using hx.symm)
        | some y => exact Or.inr (by simpa [hrec] using hx)
      · exact hm p x hx
  exact hfold _ ∅ (fun p x hx ↦ by simp at hx) producer time h

theorem Completes.upTo (hdated : genesisTimestamp ≤ block.getTimestamp.toInt)
    (hstep : Completes env block s t) (h : UpTo block s) : UpTo block t := by
  have hblocks : executedBlocks t = executedBlocks s := by
    obtain ⟨hqueue, hcommitted⟩ := hstep.queue_eq
    rw [executedBlocks_eq, hqueue, show t.control.committed = s.control.committed from hcommitted,
      ← executedBlocks_eq]
  refine h.of_eq (by rw [hblocks]) fun time htime ↦ ?_
  cases hstep with
  | confirm =>
    refine h.dated time ?_
    unfold sendConfirmation at htime
    split_ifs at htime <;> exact htime
  | schedule =>
    refine h.dated time ?_
    unfold updateSchedule at htime
    rw [Eff.get_bind_apply] at htime
    cases hlist : Repository.getProducerList s.dbc (stack s.memoryQueue) <;>
      rw [hlist] at htime <;> exact htime
  | prune =>
    rcases htime with hschedule | ⟨producer, hrecord⟩
    · exact h.dated time (Or.inl hschedule)
    · rcases getElem?_updateProducerRecord hrecord with hzero | hold
      · exact Or.inl hzero
      · exact h.dated time (Or.inr ⟨producer, hold⟩)
  | scheduled =>
    rcases htime with rfl | hold
    · exact Or.inr hdated
    · exact h.dated time (Or.inr hold)
  | bonus => exact h.dated time htime
  | done => exact h.dated time htime

def KeepsMark (block : Block) (s t : BlockChain) : Prop := Marked block s → Marked block t

theorem keepsMark_of_eq {α : Type} {m : ChainM α}
    (h : ∀ s, (m s).2.producerRecord = s.producerRecord ∧
      (m s).2.scheduleUpdateBlockTimestamp = s.scheduleUpdateBlockTimestamp) :
    Eff.Keeps (KeepsMark block) m := by
  intro s hs
  unfold Marked Remembers
  rw [(h s).1, (h s).2]
  exact hs

theorem keepsMark_reschedule (env : Env) (block : Block) :
    Eff.Keeps (KeepsMark block) (reschedule env block) := by
  unfold reschedule
  split_ifs
  · intro s hs
    rcases hrun : updateSchedule env block.getTimestamp s with ⟨e | ⟨⟨⟩⟩, t⟩
    · -- the records are as they were
      rw [Eff.bind_error hrun]
      unfold updateSchedule at hrun
      rw [Eff.get_bind_apply] at hrun
      cases hlist : Repository.getProducerList s.dbc (stack s.memoryQueue) with
      | error e' =>
        rw [hlist] at hrun
        obtain ⟨-, rfl⟩ := Prod.mk.inj hrun
        exact hs
      | ok list =>
        rw [hlist] at hrun
        cases (Prod.mk.inj hrun).1
    · rw [Eff.bind_ok hrun]
      exact Or.inl rfl
  · exact fun s hs ↦ hs

theorem keepsMark_executeBlock (env : Env) (block : Block) :
    Eff.Keeps (KeepsMark block) (executeBlock env block) := by
  have htrans : ∀ s t u, KeepsMark block s t → KeepsMark block t u → KeepsMark block s u :=
    fun _ _ _ h₁ h₂ h ↦ h₂ (h₁ h)
  refine Eff.Keeps.bind htrans (keepsMark_of_eq fun s ↦ ⟨rfl, rfl⟩) fun _ ↦ ?_
  refine Eff.Keeps.bind htrans (keepsMark_of_eq fun s ↦ ?_) fun _ ↦ ?_
  · change (sendConfirmation env block s).producerRecord = _ ∧
      (sendConfirmation env block s).scheduleUpdateBlockTimestamp = _
    unfold sendConfirmation
    split_ifs <;> exact ⟨rfl, rfl⟩
  refine Eff.Keeps.bind htrans (keepsMark_reschedule env block) fun _ ↦ ?_
  exact Eff.Keeps.bind htrans (keepsMark_of_eq fun s ↦ ⟨rfl, rfl⟩) fun _ ↦
    keepsMark_of_eq fun s ↦ ⟨rfl, rfl⟩

theorem upTo_executeBlock (env : Env) (hdated : genesisTimestamp ≤ block.getTimestamp.toInt)
    (h : UpTo block s) : UpTo block (executeBlock env block s).2 := by
  have hrun : UpTo block (onRepo (fun db ↦ Runtime.run env.sha3 db block) s).2 := by
    refine h.of_eq ?_ h.dated
    rw [executedBlocks_of_control (sameControl_onRepo
      (fun db ↦ sameBlocks_run env.sha3 db block) s)]
  rw [executeBlock_eq]
  rcases hexec : onRepo (fun db ↦ Runtime.run env.sha3 db block) s with ⟨e | ⟨⟨⟩⟩, t⟩
  · rw [hexec] at hrun
    rw [Eff.bind_error hexec]
    exact hrun
  · rw [hexec] at hrun
    rw [Eff.bind_ok hexec]
    exact steps_invariant (fun _ _ hstep ht ↦ hstep.upTo hdated ht)
      (completeBlock_steps env block t) hrun

/-- A block of a later slot than all that the node remembers is processed. -/
theorem InOrder.doProcessBlock (h : InOrder s)
    (hdated : genesisTimestamp ≤ block.getTimestamp.toInt)
    (hlater : ∀ time, Remembers s time → slotOf time < Block.slot block) :
    InOrder (doProcessBlock env block s).2 := by
  have hbelow := steps_invariant (fun _ _ hstep hs ↦ Prepares.below hdated hstep hs)
    (prepareBlock_steps env block s) (h.below hlater)
  unfold BlockChain.doProcessBlock
  rcases hprep : prepareBlock env block s with ⟨e | ⟨⟨⟩⟩, s₁⟩
  · rw [hprep] at hbelow
    dsimp only
    split_ifs <;> exact hbelow.inOrder
  · rw [hprep] at hbelow
    have hmarked : Marked block (executeBlock env block (addMemoryItem block s₁)).2 :=
      keepsMark_executeBlock env block _ (show Marked block s₁ from prepareBlock_marked hprep)
    have hupTo := upTo_executeBlock env hdated hbelow.push
    dsimp only
    rcases hexec : executeBlock env block (addMemoryItem block s₁) with ⟨e | ⟨⟨⟩⟩, s₂⟩
    · rw [hexec] at hmarked hupTo
      have horder := hupTo.inOrder hmarked
      dsimp only
      split_ifs
      · refine horder.shrinks ⟨?_, rfl, rfl⟩
        unfold executedBlocks cancelMemoryItem
        rw [List.map_dropLast]
        exact (List.dropLast_sublist _).append_left _
      · exact horder
    · rw [hexec] at hmarked hupTo
      exact hupTo.inOrder hmarked

end Process

section Runs

theorem checkBifurcation_inOrder (h : InOrder s)
    (hdated : genesisTimestamp ≤ block.getTimestamp.toInt)
    (hlater : ∀ time, Remembers s time → slotOf time < Block.slot block) :
    InOrder (checkBifurcation env block s).2 := by
  unfold checkBifurcation
  rw [Eff.get_bind_apply]
  split_ifs
  · exact h.doProcessBlock hdated hlater
  · have hswitch := shrinks_of_steps (fun _ _ ↦ Undoes.shrinks) (switchBranch_steps s)
    unfold Eff.tryCatch
    rcases hrun : switchBranch s with ⟨e | ⟨⟨⟩⟩, t⟩
    · rw [hrun] at hswitch
      dsimp only
      split_ifs <;> exact h.shrinks hswitch
    · rw [hrun] at hswitch
      exact h.shrinks hswitch

theorem InOrder.processBlock (h : InOrder s)
    (hlater : s.checkProducer block = true → Later s block) :
    InOrder (processBlock env block s).2 := by
  unfold BlockChain.processBlock
  have hhandler : ∀ (e : Exception) (t : BlockChain),
      ((if rejects e then pure false else Eff.throw e : ChainM Bool) t).2 = t := by
    intro e t
    split_ifs <;> rfl
  suffices hbody : InOrder ((do
      let s ← Eff.get
      if !s.checkProducer block then Eff.throw ⟨.invalidProducer, "Invalid block producer!"⟩
      else do
        addToRollbackState env block
        checkBifurcation env block
        Eff.modify fun s ↦ { s with head := s.rollbackState.head }
        return true : ChainM Bool) s).2 by
    unfold Eff.tryCatch
    split
    · next heq => rwa [heq] at hbody
    · next heq =>
      rw [heq] at hbody
      rw [hhandler]
      exact hbody
  rw [Eff.get_bind_apply]
  split_ifs with hcheck
  · exact h
  have hpass : s.checkProducer block = true := by simpa using hcheck
  have hblock := hlater hpass
  have hadd := addToRollbackState_shrinks env block s
  rcases hrun : addToRollbackState env block s with ⟨e | ⟨⟨⟩⟩, t⟩
  · rw [hrun] at hadd
    rw [Eff.bind_error hrun]
    exact h.shrinks hadd
  rw [hrun] at hadd
  rw [Eff.bind_ok hrun]
  have hfork : InOrder (checkBifurcation env block t).2 :=
    checkBifurcation_inOrder (h.shrinks hadd) hblock.dated fun time htime ↦
      hblock.slotOf_lt hpass h.dated ((hadd.remembers_iff time).mp htime)
  rcases hrun' : checkBifurcation env block t with ⟨e | ⟨⟨⟩⟩, u⟩
  · rw [hrun'] at hfork
    rw [Eff.bind_error hrun']
    exact hfork
  · rw [hrun'] at hfork
    rw [Eff.bind_ok hrun']
    exact hfork.shrinks ⟨.refl _, rfl, rfl⟩

/-- Each block that the worker takes and `checkProducer` lets pass is later than the other
producers' records. -/
def TakesLater (s : BlockChain) (event : Event) : Prop :=
  event = .work → ∀ block, s.nextBlock.1 = some block → s.checkProducer block = true →
    Later s block

theorem InOrder.handle {event : Event} (h : InOrder s) (hevent : TakesLater s event) :
    InOrder (handle env event s).2 := by
  cases event with
  | block block => exact h.shrinks ⟨.refl _, rfl, rfl⟩
  | confirmation hc => exact h.shrinks ⟨.refl _, rfl, rfl⟩
  | blockState number confirmations => exact h.shrinks ⟨.refl _, rfl, rfl⟩
  | status status => exact h.shrinks ⟨.refl _, rfl, rfl⟩
  | work =>
    change InOrder (doWork env s).2
    obtain ⟨cache, heq, -⟩ := nextBlock_eq s
    unfold doWork
    rw [Eff.get_bind_apply, Eff.modify_bind_apply, heq]
    have hnext : InOrder { s with blockCache := cache } := h.shrinks ⟨.refl _, rfl, rfl⟩
    cases hblock : s.nextBlock.1 with
    | none => exact hnext
    | some block =>
      have hprocess :
          InOrder (BlockChain.processBlock env block { s with blockCache := cache }).2 :=
        hnext.processBlock fun hcheck ↦ by
          have hlater := hevent rfl block hblock hcheck
          exact ⟨hlater.dated, hlater.others⟩
      dsimp only
      rcases hrun : BlockChain.processBlock env block { s with blockCache := cache } with
        ⟨e | _, t⟩
      · rw [hrun] at hprocess
        rw [Eff.bind_error hrun]
        exact hprocess
      · rw [hrun] at hprocess
        rw [Eff.bind_ok hrun]
        exact hprocess

theorem inOrder_start (env : Env) (dbc : DatabaseController) (attributes : Attributes)
    (solidifyBlock : Block) : InOrder (start env dbc attributes solidifyBlock) := by
  refine ⟨List.Pairwise.nil, fun b hb ↦ absurd hb List.not_mem_nil, fun time htime ↦ ?_⟩
  rcases htime with rfl | ⟨producer, hrecord⟩
  · exact Or.inl rfl
  · change (∅ : Std.ExtTreeMap Address ℤ)[producer]? = some time at hrecord
    simp at hrecord

/-- The slots of the executed blocks increase in every run in which each block taken is later than
the other producers' records. -/
theorem slots_increase (env : Env) (dbc : DatabaseController) (attributes : Attributes)
    (solidifyBlock : Block) (t : BlockChain)
    (hrun : Run env TakesLater (start env dbc attributes solidifyBlock) t) :
    (executedBlocks t).Pairwise fun a b ↦ Block.slot a < Block.slot b := by
  suffices horder : InOrder t from horder.increasing
  induction hrun with
  | start => exact inOrder_start env dbc attributes solidifyBlock
  | @step t u event _ hevent hstep ih =>
    have hu : (handle env event t).2 = u := by rw [hstep]
    rw [← hu]
    exact ih.handle hevent

theorem takesLater_of_all (block : Block)
    (h : s.nextBlock.1 = some block ∧ genesisTimestamp ≤ block.getTimestamp.toInt ∧
      ∀ i ∈ s.producerRecord.toList, slotOf i.2 < Block.slot block) : TakesLater s .work := by
  obtain ⟨hnext, hdated, hall⟩ := h
  intro _ block' hnext' _
  obtain rfl := Option.some.inj (hnext.symm.trans hnext')
  exact ⟨hdated, fun producer time _ hrecord ↦
    hall _ (Std.ExtTreeMap.mem_toList_iff_getElem?_eq_some.mpr hrecord)⟩

/-- The third slot's block after the first's. -/
theorem slots_increase_trio :
    (executedBlocks (afterBlock trioEnv (afterBlock trioEnv trioChain trioFirst)
      trioSecond)).Pairwise fun a b ↦ Block.slot a < Block.slot b := by
  refine slots_increase trioEnv trioStore trioAttributes {} _ ?_
  refine run_afterBlock (run_afterBlock .start (fun h ↦ (by cases h)) ?_ (by decide +kernel))
    (fun h ↦ (by cases h)) ?_ (by decide +kernel)
  · exact takesLater_of_all trioFirst (by decide +kernel)
  · exact takesLater_of_all trioSecond (by decide +kernel)

def trioEarlier : Block := trioBlock 3 3 2 0

/-- The producer of the first slot extends the block of the second. -/
theorem slot_order_broken :
    Run trioEnv (fun _ _ ↦ True) trioChain
        (afterBlock trioEnv (afterBlock trioEnv trioChain trioFork) trioEarlier) ∧
      executedBlocks (afterBlock trioEnv (afterBlock trioEnv trioChain trioFork) trioEarlier) =
        [trioFork, trioEarlier] ∧
      Block.slot trioFork = 1 ∧ Block.slot trioEarlier = 0 := by
  refine ⟨run_afterBlock (run_afterBlock .start trivial trivial ?_) trivial trivial ?_, ?_, ?_⟩
  all_goals decide +kernel

end Runs

end GseNetwork.Chain
