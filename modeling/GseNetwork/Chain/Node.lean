import GseNetwork.Chain.Solidify

namespace GseNetwork.Chain

open GseNetwork.Core GseNetwork.Foundation
open BlockChain

/-- What a node reacts to: a block enters its cache, its worker thread takes a block from the
cache, messages arrive, its status is set. -/
inductive Event
  | block (block : Block)
  | work
  | confirmation (hc : HeaderConfirmation)
  | blockState (number : ℕ) (confirmations : List HeaderConfirmation)
  | status (status : BlockChainStatus)

def handle (env : Env) : Event → ChainM Unit
  | .block block => Eff.modify (cacheBlock block)
  | .work => doWork env
  | .confirmation hc => Eff.modify (processConfirmationMessage hc)
  | .blockState number confirmations =>
    Eff.modify (processBlockStateMessage number confirmations)
  | .status status => Eff.modify fun s ↦ { s with blockChainStatus := status }

/-- The runs of a node in which every event meets `P` in the state it reaches. A run ends with an
exception that nothing catches. -/
inductive Run (env : Env) (P : BlockChain → Event → Prop) (s : BlockChain) : BlockChain → Prop
  | start : Run env P s s
  | step {t u : BlockChain} {event : Event} :
      Run env P s t → P t event → handle env event t = (.ok (), u) → Run env P s u

def HandedOut (s : BlockChain) (block : Block) : Prop :=
  block.getNumber = (s.latestBlockNumber + 1) % 2 ^ 64 ∨
    s.attributes.currentBlockHeight < block.getNumber ∧ block.getNumber ≤ s.latestBlockNumber

def Control.Cached (c : Control) : Prop :=
  ∀ (n : ℕ) (b : Block), c.blockCache[n]? = some b → b.getNumber = n

theorem Control.Cached.cacheBlock {s : BlockChain} (h : s.control.Cached) (block : Block) :
    (s.cacheBlock block).control.Cached := by
  intro n b hb
  change (s.blockCache.insertIfNew block.getNumber block)[n]? = some b at hb
  rw [Std.ExtTreeMap.getElem?_insertIfNew] at hb
  split_ifs at hb with hnew
  · rw [← Option.some.inj hb]
    exact Std.LawfulEqCmp.eq_of_compare hnew.1
  · exact h n b hb

theorem nextBlock_eq (s : BlockChain) :
    ∃ cache, s.nextBlock.2 = { s with blockCache := cache } ∧
      (∀ (n : ℕ) (b : Block), cache[n]? = some b → s.blockCache[n]? = some b) := by
  unfold nextBlock
  cases s.blockCache.toList.head? with
  | none => exact ⟨s.blockCache, rfl, fun _ _ h ↦ h⟩
  | some item =>
    have herase : ∀ (n : ℕ) (b : Block),
        (s.blockCache.erase item.1)[n]? = some b → s.blockCache[n]? = some b := by
      intro n b hb
      rw [Std.ExtTreeMap.getElem?_erase] at hb
      split_ifs at hb
      exact hb
    dsimp only
    split_ifs
    · exact ⟨_, rfl, herase⟩
    · exact ⟨_, rfl, herase⟩
    · exact ⟨_, rfl, herase⟩
    · exact ⟨s.blockCache, rfl, fun _ _ h ↦ h⟩

theorem Control.Cached.handedOut {s : BlockChain} (h : s.control.Cached) {block : Block}
    (hnext : s.nextBlock.1 = some block) : HandedOut s block := by
  unfold nextBlock at hnext
  cases hhead : s.blockCache.toList.head? with
  | none => simp [hhead] at hnext
  | some item =>
    have hmem : s.blockCache[item.1]? = some item.2 :=
      Std.ExtTreeMap.mem_toList_iff_getElem?_eq_some.mp (List.mem_of_head? hhead)
    have hnumber := h item.1 item.2 hmem
    rw [hhead] at hnext
    dsimp only at hnext
    split_ifs at hnext with hnew hold hsolid
    · rw [← Option.some.inj hnext]
      exact Or.inl (hnumber.trans hnew)
    · rw [← Option.some.inj hnext]
      right
      omega

end GseNetwork.Chain
