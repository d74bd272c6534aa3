import GseNetwork.Chain.Moves

namespace GseNetwork.Chain

open GseNetwork.Core GseNetwork.Foundation GseNetwork.Storage
open BlockChain Relation

variable {env : Env} {block : Block}

section BlockCache

variable {s t : BlockChain}

theorem isExistInRepo_state (env : Env) (tx : Transaction) (s : BlockChain) :
    (isExistInRepo env tx s).2 =
      (onRepo (fun db ↦ Repository.getTransaction env.sha3 db (tx.getHash env.sha3)) s).2 := by
  unfold isExistInRepo
  rcases hrun : onRepo (fun db ↦ Repository.getTransaction env.sha3 db (tx.getHash env.sha3)) s
    with ⟨e | item, u⟩
  · rw [Eff.bind_error hrun]
  · rw [Eff.bind_ok hrun]
    rfl

theorem Checks.blockCache_eq (h : Checks env s t) : t.blockCache = s.blockCache := by
  cases h <;> rfl

theorem checks_blockCache_eq (h : ReflTransGen (Checks env) s t) :
    t.blockCache = s.blockCache := by
  induction h with
  | refl => rfl
  | tail _ hstep ih => exact hstep.blockCache_eq.trans ih

theorem Prepares.blockCache_eq (h : Prepares env block s t) : t.blockCache = s.blockCache := by
  cases h with
  | lookup tx =>
    rw [isExistInRepo_state]
    rfl
  | active => rfl
  | record => rfl

theorem Completes.blockCache_eq (h : Completes env block s t) : t.blockCache = s.blockCache := by
  cases h with
  | confirm =>
    unfold sendConfirmation
    split_ifs <;> rfl
  | schedule =>
    unfold updateSchedule
    rw [Eff.get_bind_apply]
    cases hlist : Repository.getProducerList s.dbc (stack s.memoryQueue) <;> rfl
  | prune => rfl
  | scheduled => rfl
  | bonus => rfl
  | done => rfl

theorem blockCache_doProcessBlock (env : Env) (block : Block) (s : BlockChain) :
    (doProcessBlock env block s).2.blockCache = s.blockCache := by
  refine doProcessBlock_invariant (I := fun t ↦ t.blockCache = s.blockCache)
    (fun _ _ hstep hs ↦ hstep.blockCache_eq.trans hs) (fun _ hs ↦ hs) (fun _ hs ↦ hs)
    (fun _ _ hstep hs ↦ hstep.blockCache_eq.trans hs) (fun _ hs ↦ hs) rfl

theorem Passes.blockCache_eq (h : Passes env block s t) : t.blockCache = s.blockCache := by
  cases h with
  | index => rfl
  | commit hcommit => cases hcommit <;> rfl
  | process => exact blockCache_doProcessBlock env block s
  | undo hundo => cases hundo <;> rfl
  | head => rfl

theorem blockCache_doWork (env : Env) (s : BlockChain) :
    (doWork env s).2.blockCache = s.nextBlock.2.blockCache := by
  rcases doWork_steps env s with ⟨heq, -⟩ | ⟨block, -, hsteps⟩
  · rw [heq]
  · exact steps_invariant (I := fun t ↦ t.blockCache = s.nextBlock.2.blockCache)
      (fun _ _ hstep ht ↦ hstep.blockCache_eq.trans ht) hsteps rfl

end BlockCache

/-- `doWork` takes the block for `processBlock`, or discards it because its number is at most the
solid height. -/
def Leaves (s : BlockChain) (block : Block) : Prop :=
  s.nextBlock.1 = some block ∨
    s.blockCache.toList.head? = some (block.getNumber, block) ∧
      block.getNumber ≤ s.attributes.currentBlockHeight

theorem nextBlock_keeps {s : BlockChain} (h : s.blockCache[block.getNumber]? = some block)
    (hleaves : ¬ Leaves s block) :
    s.nextBlock.2.blockCache[block.getNumber]? = some block := by
  unfold Leaves nextBlock at hleaves
  unfold nextBlock
  cases hhead : s.blockCache.toList.head? with
  | none => exact h
  | some item =>
    obtain ⟨number, first⟩ := item
    have hmem : s.blockCache[number]? = some first :=
      Std.ExtTreeMap.mem_toList_iff_getElem?_eq_some.mp (List.mem_of_head? hhead)
    rw [hhead] at hleaves
    push Not at hleaves
    dsimp only at hleaves ⊢
    -- the entry that is erased is another one
    have hother : number ≠ block.getNumber → (s.blockCache.erase number)[block.getNumber]? =
        some block := by
      intro hne
      rw [Std.ExtTreeMap.getElem?_erase, if_neg (by simpa using hne), h]
    have hsame : number = block.getNumber → first = block := by
      rintro rfl
      exact Option.some.inj (hmem.symm.trans h)
    split_ifs at hleaves ⊢ with hnext hold hsolid
    · exact hother fun heq ↦ hleaves.1 (congrArg some (hsame heq))
    · refine hother fun heq ↦ ?_
      have := hleaves.2 (by rw [hsame heq, heq])
      omega
    · exact hother fun heq ↦ hleaves.1 (congrArg some (hsame heq))
    · exact h

namespace Relay

variable {r r' t u : Relay}

theorem cacheBlock_keeps {s : BlockChain} {n : ℕ} {b : Block} (h : s.blockCache[n]? = some b)
    (block : Block) : (cacheBlock block s).blockCache[n]? = some b := by
  change (s.blockCache.insertIfNew block.getNumber block)[n]? = some b
  rw [Std.ExtTreeMap.getElem?_insertIfNew]
  split_ifs with hnew
  · have hmem : n ∈ s.blockCache := Std.ExtTreeMap.mem_iff_isSome_getElem?.mpr (by rw [h]; rfl)
    rw [Std.LawfulEqCmp.eq_of_compare hnew.1] at hnew
    exact absurd hmem hnew.2
  · exact h

theorem Moves.keeps_block {call : Call} {n : ℕ} {b : Block} (hmove : Moves env call r t)
    (h : r.chain.blockCache[n]? = some b) : t.chain.blockCache[n]? = some b := by
  cases hmove with
  | checks hchecks =>
    dsimp only
    rw [hchecks.blockCache_eq]
    exact h
  | history => exact h
  | tx => exact h
  | block => exact cacheBlock_keeps h _
  | index => exact h
  | status => exact h
  | take =>
    dsimp only
    unfold getTransactionFromCache
    cases r.chain.txCache.toList.head? <;> exact h
  | producer => exact h
  | produce =>
    dsimp only
    unfold processProducerBlock
    split_ifs
    · exact h
    · exact cacheBlock_keeps h _

theorem perform_keeps_block {call : Call} (hstep : perform env call t = (.ok (), u))
    (hcall : ¬ (call = .work ∧ Leaves t.chain block))
    (h : t.chain.blockCache[block.getNumber]? = some block) :
    u.chain.blockCache[block.getNumber]? = some block := by
  have hu : (perform env call t).2 = u := by rw [hstep]
  rw [← hu]
  by_cases hwork : call = .work
  · subst hwork
    rcases perform_work env t with heq | ⟨working, heq⟩
    · rw [heq]
      exact h
    · rw [heq]
      dsimp only
      rw [blockCache_doWork]
      exact nextBlock_keeps h fun hleaves ↦ hcall ⟨rfl, hleaves⟩
  · exact steps_invariant (I := fun t ↦ t.chain.blockCache[block.getNumber]? = some block)
      (fun _ _ hmove ht ↦ hmove.keeps_block ht) (perform_moves hwork t) h

theorem acceptBlock_ok (h : acceptBlock env block r = (.ok true, r')) :
    r'.chain.blockCache = r.chain.blockCache.insertIfNew block.getNumber block ∧
      r.chain.blockCache[block.getNumber]? ≠ some block := by
  rcases acceptBlock_cases env block r with ⟨s, hpre, heq⟩ | ⟨e, s, -, hne, -⟩
  · have hr' := (Prod.mk.inj (heq.symm.trans h)).2
    have hcache := checks_blockCache_eq (preProcessBlock_steps env block r.chain)
    rw [hpre] at hcache
    refine ⟨?_, fun hmem ↦ ?_⟩
    · rw [← hr', ← show s.blockCache = r.chain.blockCache from hcache]
      rfl
    · have habsent := (preProcessBlock_ok env hpre).2
      unfold isExistBlock at habsent
      rw [Eff.get_bind_apply, if_pos] at habsent
      · cases habsent
      · refine List.any_eq_true.mpr ⟨(block.getNumber, block), ?_, by simp⟩
        exact Std.ExtTreeMap.mem_toList_iff_getElem?_eq_some.mpr hmem
  · rw [h] at hne
    exact absurd rfl hne

theorem processBlockMessage_ok (h : processBlockMessage env block r = (.ok true, r')) :
    r'.chain.blockCache = r.chain.blockCache.insertIfNew block.getNumber block ∧
      r.chain.blockCache[block.getNumber]? ≠ some block := by
  unfold processBlockMessage at h
  rw [Eff.get_bind_apply] at h
  split_ifs at h
  · cases h
  · cases h
  · rw [Eff.modify_bind_apply] at h
    have hok := acceptBlock_ok h
    exact hok

/-- An accepted block is in the cache until `doWork` takes it or discards it as solid, whatever
happens, exactly if no block of its number was there before. -/
theorem accepted_block_stays (env : Env) (block : Block) (r r' : Relay)
    (haccept : processBlockMessage env block r = (.ok true, r') ∨
      processSyncBlockMessage env block r = (.ok true, r')) :
    (∀ u, Reaches env (fun t call ↦ ¬ (call = .work ∧ Leaves t.chain block)) r' u →
      u.chain.blockCache[block.getNumber]? = some block) ↔
      r.chain.blockCache[block.getNumber]? = none := by
  obtain ⟨hcache, hne⟩ : r'.chain.blockCache =
      r.chain.blockCache.insertIfNew block.getNumber block ∧
      r.chain.blockCache[block.getNumber]? ≠ some block :=
    haccept.elim processBlockMessage_ok acceptBlock_ok
  have hentry := Std.ExtTreeMap.getElem?_insertIfNew (t := r.chain.blockCache)
    (k := block.getNumber) (a := block.getNumber) (v := block)
  rw [← hcache] at hentry
  constructor
  · intro hstays
    have hmem := hstays r' .start
    by_contra hsome
    obtain ⟨other, hother⟩ := Option.ne_none_iff_exists'.mp hsome
    have hin : block.getNumber ∈ r.chain.blockCache :=
      Std.ExtTreeMap.mem_iff_isSome_getElem?.mpr (by rw [hother]; rfl)
    rw [hentry, if_neg fun h ↦ h.2 hin] at hmem
    exact hne hmem
  · intro hnone u hrun
    induction hrun with
    | start =>
      rw [hentry, if_pos]
      refine ⟨Std.ReflCmp.compare_self, fun hin ↦ ?_⟩
      rw [Std.ExtTreeMap.mem_iff_isSome_getElem?, hnone] at hin
      cases hin
    | step _ hcall hstep ih => exact perform_keeps_block hstep hcall ih

def openEnv : Env where
  sha3 data := BitVec.ofNat 256 (BigEndian.fromBigEndian data)
  recover signature _ := signature.r.setWidth 512
  chainID := 0
  address := 1

def openRelay : Relay where
  chain := start openEnv
    { accountStore := Std.ExtTreeMap.insert ∅ 1 (.ok (Account.new 1 1 0))
      blockIndexStore := Std.ExtTreeMap.insert ∅ 0 (.ok {}) }
    { currentProducerList := { producers := [{ address := 1, timestamp := 1, votes := 0 }] } } {}

def openBlock (producer : Address) : Block where
  blockHeader := {
    chainID := 0, producer := producer, parentHash := Block.getHash openEnv.sha3 {}, number := 1
    timestamp := 1538352000000, extra := [UInt8.ofNat producer.toNat]
    signature := { r := producer.setWidth 256 } }

theorem accepted_block_stays_open :
    ∃ r', processBlockMessage openEnv (openBlock 1) openRelay = (.ok true, r') ∧
      ∀ u, Reaches openEnv (fun t call ↦ ¬ (call = .work ∧ Leaves t.chain (openBlock 1))) r' u →
        u.chain.blockCache[(openBlock 1).getNumber]? = some (openBlock 1) := by
  have haccept : (processBlockMessage openEnv (openBlock 1) openRelay).1.toOption = some true := by
    decide +kernel
  have hrun := Eff.eq_ok_of_toOption haccept
  exact ⟨_, hrun, (accepted_block_stays openEnv (openBlock 1) openRelay _ (.inl hrun)).mpr
    (by decide +kernel)⟩

/-- A block of an address that is not scheduled keeps the block of the scheduled producer out. -/
theorem block_displaced :
    (processBlockMessage openEnv (openBlock 2) openRelay).1.toOption = some true ∧
      (processBlockMessage openEnv (openBlock 1)
        (processBlockMessage openEnv (openBlock 2) openRelay).2).1.toOption = some true ∧
      openRelay.chain.checkProducer (openBlock 2) = false ∧
      openRelay.chain.checkProducer (openBlock 1) = true ∧
      (processBlockMessage openEnv (openBlock 1)
        (processBlockMessage openEnv (openBlock 2) openRelay).2).2.chain.blockCache[1]? =
          some (openBlock 2) := by
  decide +kernel

end Relay

end GseNetwork.Chain
