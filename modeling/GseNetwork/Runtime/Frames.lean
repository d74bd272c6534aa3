import GseNetwork.Runtime.Action
import GseNetwork.Storage.Views

namespace GseNetwork.Runtime

open GseNetwork.Core GseNetwork.Foundation GseNetwork.Storage GseNetwork.Foundation.ReadThrough

structure Framed (db : DatabaseController) (R : List Repository → List Repository → Prop) :
    Prop where
  refl : ∀ st, R st st
  trans : ∀ st st' st'', R st st' → R st' st'' → R st st''
  getAccount : ∀ a, Eff.Keeps R (Repository.getAccount db a)
  getProducer : ∀ a, Eff.Keeps R (Repository.getProducer db a)
  putAccount : ∀ x, Eff.Keeps R (Repository.putAccount x)
  putProducer : ∀ p, Eff.Keeps R (Repository.putProducer p)

namespace Framed

variable {db : DatabaseController} {R : List Repository → List Repository → Prop}
  (h : Framed db R)

include h

section Repositories

theorem throw {α : Type} (e : Exception) : Eff.Keeps R (Eff.throw e : RepoM α) :=
  Eff.keeps_throw h.refl e

theorem burn (a : Address) (v : UInt64) : Eff.Keeps R (Repository.burn db a v) := by
  refine Eff.Keeps.bind h.trans (h.getAccount a) fun x ↦ ?_
  split_ifs
  · exact h.throw _
  · exact h.throw _
  · exact h.putAccount _

theorem bonus (a : Address) (v : UInt64) : Eff.Keeps R (Repository.bonus db a v) := by
  refine Eff.Keeps.bind h.trans (h.getAccount a) fun x ↦ ?_
  split_ifs
  · exact h.throw _
  · exact h.putAccount _

theorem transfer (sender recipient : Address) (v : UInt64) :
    Eff.Keeps R (Repository.transfer db sender recipient v) := by
  refine Eff.Keeps.bind h.trans (h.getAccount sender) fun x ↦ ?_
  refine Eff.Keeps.bind h.trans (h.getAccount recipient) fun y ↦ ?_
  split
  · exact h.throw _
  · refine Eff.Keeps.bind h.trans (fun st ↦ h.refl st) fun timestamp ↦ ?_
    dsimp only
    generalize (if y.isEmpty then y.assign (Account.new recipient 0 timestamp) else y) = z
    split
    · exact h.throw _
    · exact Eff.Keeps.bind h.trans (h.putAccount _) fun _ ↦ h.putAccount _

theorem clearVote (a : Address) : Eff.Keeps R (Repository.clearVote db a) := by
  refine Eff.Keeps.bind h.trans (h.getAccount a) fun x ↦ ?_
  split
  · exact h.throw _
  · refine Eff.Keeps.bind h.trans ?_ fun _ ↦ h.putAccount _
    refine Eff.keeps_forEach h.refl h.trans _ fun i _ ↦ ?_
    refine Eff.Keeps.bind h.trans (h.getProducer i.1) fun p ↦ ?_
    split
    · exact h.throw _
    · exact h.putProducer _

theorem voteIncrease (voter candidate : Address) (v : UInt64) :
    Eff.Keeps R (Repository.voteIncrease db voter candidate v) := by
  refine Eff.Keeps.bind h.trans (h.getAccount voter) fun x ↦ ?_
  split
  · exact h.throw _
  · refine Eff.Keeps.bind h.trans (h.getProducer candidate) fun p ↦ ?_
    split_ifs
    · exact h.throw _
    · exact h.throw _
    · exact Eff.Keeps.bind h.trans (h.putAccount _) fun _ ↦ h.putProducer _

end Repositories

theorem execute (timestamp : Int64) (tx : Transaction) :
    Eff.Keeps R (Runtime.execute db timestamp tx) := by
  unfold Runtime.execute
  split_ifs
  · refine Eff.Keeps.bind h.trans (h.clearVote _) fun _ ↦ ?_
    refine Eff.Keeps.bind h.trans (h.burn _ _) fun _ ↦ ?_
    refine Eff.Keeps.bind h.trans (fun st ↦ h.refl st) fun ballot ↦ ?_
    exact Eff.keeps_forEach h.refl h.trans _ fun i _ ↦ h.voteIncrease _ _ _
  · exact Eff.Keeps.bind h.trans (h.burn _ _) fun _ ↦ h.transfer _ _ _
  · refine Eff.Keeps.bind h.trans (h.burn _ _) fun _ ↦ ?_
    refine Eff.Keeps.bind h.trans (h.getProducer _) fun target ↦ ?_
    split
    · exact Eff.Keeps.bind h.trans (h.burn _ _) fun _ ↦ h.putProducer _
    · exact Eff.keeps_pure h.refl _
  · exact Eff.keeps_pure h.refl _

/-- The transactions of a block keep what storing a transaction keeps as well. -/
theorem run {sha3 : Bytes → H256} (hput : ∀ tx, Eff.Keeps R (Repository.putTransaction sha3 tx))
    (block : Block) : Eff.Keeps R (Runtime.run sha3 db block) := by
  refine Eff.keeps_forEach h.refl h.trans _ fun tx _ ↦ ?_
  exact Eff.Keeps.bind h.trans (h.execute _ tx) fun _ ↦ hput tx

end Framed

section SameBlocks

variable (sha3 : Bytes → H256) (db : DatabaseController)

def SameBlocks (st st' : List Repository) : Prop :=
  st'.map Repository.block = st.map Repository.block

theorem sameBlocks_setAccounts {st : List Repository}
    {caches : List (Std.ExtTreeMap Address Account)} (h : caches.length = st.length) :
    SameBlocks st (Repository.setAccounts st caches) := (Repository.map_setAccounts h).2.2.2

theorem sameBlocks_setProducers {st : List Repository}
    {caches : List (Std.ExtTreeMap Address Producer)} (h : caches.length = st.length) :
    SameBlocks st (Repository.setProducers st caches) := (Repository.map_setProducers h).2.2.2

theorem sameBlocks_setTransactions {st : List Repository}
    {caches : List (Std.ExtTreeMap TxID Transaction)} (h : caches.length = st.length) :
    SameBlocks st (Repository.setTransactions st caches) :=
  (Repository.map_setTransactions h).2.2.2

theorem framed_sameBlocks : Framed db SameBlocks where
  refl _ := rfl
  trans _ _ _ h h' := Eq.trans h' h
  getAccount a _ := sameBlocks_setAccounts (by rw [Table.length_get, List.length_map])
  getProducer a _ := sameBlocks_setProducers (by rw [Table.length_get, List.length_map])
  putAccount x st := sameBlocks_setAccounts (by cases st <;> simp [Table.putTop])
  putProducer p st := sameBlocks_setProducers (by cases st <;> simp [Table.putTop])

theorem sameBlocks_getTransaction (id : TxID) :
    Eff.Keeps SameBlocks (Repository.getTransaction sha3 db id) :=
  fun _ ↦ sameBlocks_setTransactions (by rw [Table.length_get, List.length_map])

theorem sameBlocks_putTransaction (tx : Transaction) :
    Eff.Keeps SameBlocks (Repository.putTransaction sha3 tx) :=
  fun st ↦ sameBlocks_setTransactions (by cases st <;> simp [Table.putTop])

theorem sameBlocks_run (block : Block) : Eff.Keeps SameBlocks (run sha3 db block) :=
  (framed_sameBlocks db).run (sameBlocks_putTransaction sha3) block

end SameBlocks

end GseNetwork.Runtime
