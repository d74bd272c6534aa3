import GseNetwork.Chain.Authorisation
import GseNetwork.Runtime.TransactionCaches

namespace GseNetwork.Chain

open GseNetwork.Core GseNetwork.Foundation GseNetwork.Storage GseNetwork.Storage.Repository
open BlockChain Relation
open Std (ExtTreeMap)

variable {env : Env} {block : Block} {s t u : BlockChain}

section Growth

variable {sha3 : Bytes → H256}

def ItemGrows (sha3 : Bytes → H256) (i i' : MemoryItem) : Prop :=
  i'.repository.block = i.repository.block ∧
    CacheGrows sha3 i.repository.cacheTransaction i'.repository.cacheTransaction

structure QueueGrows (sha3 : Bytes → H256) (s t : BlockChain) : Prop where
  queue : List.Forall₂ (ItemGrows sha3) s.memoryQueue t.memoryQueue
  store : t.dbc.transactionStore = s.dbc.transactionStore
  committed : t.committed = s.committed

theorem ItemGrows.refl (i : MemoryItem) : ItemGrows sha3 i i := ⟨rfl, CacheGrows.refl _⟩

theorem forall₂_itemGrows_refl (l : List MemoryItem) : List.Forall₂ (ItemGrows sha3) l l :=
  List.forall₂_same.mpr fun i _ ↦ ItemGrows.refl i

theorem QueueGrows.refl (s : BlockChain) : QueueGrows sha3 s s :=
  ⟨forall₂_itemGrows_refl _, rfl, rfl⟩

theorem forall₂_itemGrows_trans {l l' l'' : List MemoryItem}
    (h : List.Forall₂ (ItemGrows sha3) l l') (h' : List.Forall₂ (ItemGrows sha3) l' l'') :
    List.Forall₂ (ItemGrows sha3) l l'' := by
  induction h generalizing l'' with
  | nil => exact h'
  | cons hi _ ih =>
    cases h' with
    | cons hi' hrest' => exact List.Forall₂.cons ⟨hi'.1.trans hi.1, hi.2.trans hi'.2⟩ (ih hrest')

theorem QueueGrows.trans (s t u : BlockChain) (h : QueueGrows sha3 s t) (h' : QueueGrows sha3 t u) :
    QueueGrows sha3 s u :=
  ⟨forall₂_itemGrows_trans h.queue h'.queue, h'.store.trans h.store,
    h'.committed.trans h.committed⟩

theorem grows_unstack {queue : List MemoryItem} {st : List Repository}
    (h : Grows sha3 (stack queue) st) :
    List.Forall₂ (ItemGrows sha3) queue (unstack queue st) := by
  unfold Grows stack at h
  have hreverse := List.forall₂_reverse_iff.mpr h
  rw [List.reverse_reverse] at hreverse
  unfold unstack
  generalize st.reverse = repositories at hreverse
  clear h
  induction queue generalizing repositories with
  | nil => exact List.Forall₂.nil
  | cons i queue ih =>
    cases hreverse with
    | cons hi hrest => exact List.Forall₂.cons hi (ih _ hrest)

theorem queueGrows_onRepo {α : Type} {m : DatabaseController → RepoM α}
    (hm : ∀ db, Eff.Keeps (Grows sha3) (m db)) : Eff.Keeps (QueueGrows sha3) (onRepo m) :=
  fun s ↦ ⟨grows_unstack (hm s.dbc (stack s.memoryQueue)), rfl, rfl⟩

theorem queueGrows_onChild {α : Type} {m : DatabaseController → RepoM α}
    (hm : ∀ db, Eff.Keeps (Grows sha3) (m db)) : Eff.Keeps (QueueGrows sha3) (onChild m) := by
  intro s
  have hgrows := hm s.dbc ({ block := emptyBlock } :: stack s.memoryQueue)
  refine ⟨grows_unstack ?_, rfl, rfl⟩
  unfold Grows at hgrows ⊢
  generalize (m s.dbc ({ block := emptyBlock } :: stack s.memoryQueue)).2 = st at hgrows
  cases hgrows with
  | cons _ hrest => exact hrest

theorem grows_excute (db : DatabaseController) (timestamp : Int64) (tx : Transaction) :
    Eff.Keeps (Grows sha3) (Runtime.excute sha3 db timestamp tx) :=
  Eff.Keeps.bind (framed_grows sha3 db).trans ((framed_grows sha3 db).execute timestamp tx)
    fun _ ↦ grows_putTransaction tx

theorem Checks.queueGrows (h : Checks env s t) : QueueGrows env.sha3 s t := by
  cases h with
  | seek id => exact queueGrows_onRepo (fun db ↦ grows_getTransaction id) s
  | lookup id => exact queueGrows_onChild (fun db ↦ grows_getTransaction id) s
  | trial tx => exact queueGrows_onChild (fun db ↦ grows_excute db 0 tx) s
  | trials txs =>
    refine queueGrows_onChild (fun db ↦ ?_) s
    exact Eff.keeps_forEach (framed_grows env.sha3 db).refl (framed_grows env.sha3 db).trans txs
      fun tx _ ↦ grows_excute db 0 tx

theorem Prepares.queueGrows (h : Prepares env block s t) : QueueGrows env.sha3 s t := by
  cases h with
  | lookup tx =>
    refine Eff.Keeps.bind QueueGrows.trans ?_ (fun _ ↦ Eff.keeps_pure QueueGrows.refl _) s
    exact queueGrows_onRepo fun db ↦ grows_getTransaction _
  | active =>
    refine ⟨?_, rfl, rfl⟩
    exact forall₂_itemGrows_refl _
  | record => exact ⟨forall₂_itemGrows_refl _, rfl, rfl⟩

theorem queueGrows_setDone (sha3 : Bytes → H256) (s : BlockChain) :
    QueueGrows sha3 s s.setDone := by
  refine ⟨?_, rfl, rfl⟩
  unfold setDone
  rcases List.eq_nil_or_concat s.memoryQueue with hnil | ⟨l, i, hqueue⟩
  · rw [hnil]
    exact List.Forall₂.nil
  · rw [List.concat_eq_append] at hqueue
    rw [hqueue, List.dropLast_concat, List.getLast?_concat]
    exact List.rel_append (forall₂_itemGrows_refl l)
      (List.Forall₂.cons ⟨rfl, CacheGrows.refl _⟩ List.Forall₂.nil)

theorem Completes.queueGrows (h : Completes env block s t) : QueueGrows env.sha3 s t := by
  cases h with
  | confirm =>
    unfold sendConfirmation
    split_ifs <;> exact ⟨forall₂_itemGrows_refl _, rfl, rfl⟩
  | schedule =>
    unfold updateSchedule
    rw [Eff.get_bind_apply]
    cases hlist : Repository.getProducerList s.dbc (stack s.memoryQueue) <;>
      exact ⟨forall₂_itemGrows_refl _, rfl, rfl⟩
  | prune => exact ⟨forall₂_itemGrows_refl _, rfl, rfl⟩
  | scheduled => exact ⟨forall₂_itemGrows_refl _, rfl, rfl⟩
  | bonus value =>
    exact queueGrows_onRepo (fun db ↦ (framed_grows env.sha3 db).bonus block.getProducer value) s
  | done =>
    have hdone := queueGrows_setDone env.sha3 s
    exact ⟨hdone.queue, hdone.store, hdone.committed⟩

end Growth

section Recorded

def txHashes (env : Env) (block : Block) : List TxID :=
  block.transactions.map fun tx ↦ tx.getHash env.sha3

/-- Every executed transaction can be found, in the repository of its block or in the database, and
none was executed twice. -/
structure Recorded (env : Env) (s : BlockChain) : Prop where
  keyed : ∀ i ∈ s.memoryQueue, Keyed env.sha3 i.repository.cacheTransaction
  queued : ∀ i ∈ s.memoryQueue, ∀ h ∈ txHashes env i.repository.block,
    h ∈ i.repository.cacheTransaction
  stored : ∀ b ∈ s.committed, ∀ h ∈ txHashes env b, InStore env.sha3 s.dbc h
  proper : ∀ b ∈ executedBlocks s, emptyTransaction.getHash env.sha3 ∉ txHashes env b
  once : ((executedBlocks s).flatMap (txHashes env)).Nodup

theorem inStore_congr {sha3 : Bytes → H256} {db db' : DatabaseController} {h : TxID}
    (heq : db'.transactionStore = db.transactionStore) (hin : InStore sha3 db h) :
    InStore sha3 db' h := by
  unfold InStore at hin ⊢
  rw [heq]
  exact hin

theorem exists_grown {sha3 : Bytes → H256} {l l' : List MemoryItem} {i' : MemoryItem}
    (h : List.Forall₂ (ItemGrows sha3) l l') (hi' : i' ∈ l') : ∃ i ∈ l, ItemGrows sha3 i i' := by
  induction h with
  | nil => exact absurd hi' List.not_mem_nil
  | @cons i j l l' hij _ ih =>
    rcases List.mem_cons.mp hi' with rfl | hi'
    · exact ⟨i, List.mem_cons_self, hij⟩
    · obtain ⟨k, hk, hgrows⟩ := ih hi'
      exact ⟨k, List.mem_cons_of_mem i hk, hgrows⟩

theorem map_block_of_grows {sha3 : Bytes → H256} {l l' : List MemoryItem}
    (h : List.Forall₂ (ItemGrows sha3) l l') :
    (l'.map fun i ↦ i.repository.block) = l.map fun i ↦ i.repository.block := by
  induction h with
  | nil => rfl
  | cons hij _ ih => rw [List.map_cons, List.map_cons, hij.1, ih]

theorem QueueGrows.executedBlocks_eq (h : QueueGrows env.sha3 s t) :
    executedBlocks t = executedBlocks s := by
  unfold executedBlocks
  rw [h.committed, map_block_of_grows h.queue]

theorem Recorded.grows (hs : Recorded env s) (h : QueueGrows env.sha3 s t) : Recorded env t := by
  refine ⟨fun i' hi' ↦ ?_, fun i' hi' k hk ↦ ?_, fun b hb k hk ↦ ?_, ?_, ?_⟩
  · obtain ⟨i, hi, hgrows⟩ := exists_grown h.queue hi'
    exact hgrows.2.keyed (hs.keyed i hi)
  · obtain ⟨i, hi, hgrows⟩ := exists_grown h.queue hi'
    rw [hgrows.1] at hk
    exact hgrows.2.keeps k (hs.queued i hi k hk)
  · rw [h.committed] at hb
    exact inStore_congr h.store (hs.stored b hb k hk)
  · rw [h.executedBlocks_eq]
    exact hs.proper
  · rw [h.executedBlocks_eq]
    exact hs.once

theorem Recorded.absent (hs : Recorded env s) {tx : Transaction}
    (hlookup : (isExistInRepo env tx s).1 = .ok false)
    (hne : tx.getHash env.sha3 ≠ emptyTransaction.getHash env.sha3) :
    tx.getHash env.sha3 ∉ (executedBlocks s).flatMap (txHashes env) := by
  intro hmem
  obtain ⟨b, hb, hin⟩ := List.mem_flatMap.mp hmem
  have hknown : Known env.sha3 s.dbc (stack s.memoryQueue) (tx.getHash env.sha3) := by
    rcases List.mem_append.mp hb with hb | hb
    · exact Or.inl (hs.stored b hb _ hin)
    · obtain ⟨i, hi, rfl⟩ := List.mem_map.mp hb
      refine Or.inr ⟨i.repository, ?_, hs.queued i hi _ hin⟩
      exact List.mem_reverse.mpr (List.mem_map_of_mem hi)
  have hkeyed : ∀ r ∈ stack s.memoryQueue, Keyed env.sha3 r.cacheTransaction := by
    intro r hr
    obtain ⟨i, hi, rfl⟩ := List.mem_map.mp (List.mem_reverse.mp hr)
    exact hs.keyed i hi
  unfold isExistInRepo at hlookup
  rw [Eff.bind_apply] at hlookup
  rcases hget : onRepo (fun db ↦ Repository.getTransaction env.sha3 db (tx.getHash env.sha3)) s with
    ⟨e | item, v⟩
  · rw [hget] at hlookup
    exact absurd hlookup (by simp)
  · rw [hget] at hlookup
    have hview : (transactionTable env.sha3).view s.dbc.getTransaction
        ((stack s.memoryQueue).map cacheTransaction) (tx.getHash env.sha3) = .ok item :=
      congrArg Prod.fst hget
    have hfound := view_of_known hne hkeyed hknown hview
    have hfalse : (!item.equal env.sha3 emptyTransaction) = false := Except.ok.inj hlookup
    rw [hfound] at hfalse
    exact absurd hfalse (by decide)

theorem lookups_absent {txs : List Transaction} (hs : Recorded env s)
    (h : Eff.forEach txs (fun tx ↦ do
      if ← isExistInRepo env tx then
        Eff.throw ⟨.blockChain, "Transaction(" ++ (tx.getHash env.sha3).toHex ++ ") has exist."⟩
      else pure ()) s = (.ok (), t)) :
    ∀ tx ∈ txs, tx.getHash env.sha3 ≠ emptyTransaction.getHash env.sha3 →
      tx.getHash env.sha3 ∉ (executedBlocks s).flatMap (txHashes env) := by
  induction txs generalizing s with
  | nil => exact fun tx htx ↦ absurd htx List.not_mem_nil
  | cons x txs ih =>
    obtain ⟨⟨⟩, s₁, hfirst, hrest⟩ := Eff.bind_eq_ok.mp h
    obtain ⟨found, s₂, hlookup, hpass⟩ := Eff.bind_eq_ok.mp hfirst
    have hgrows : QueueGrows env.sha3 s s₂ := by
      have hstep := (@Prepares.lookup env emptyBlock s x).queueGrows
      rwa [hlookup] at hstep
    cases found with
    | true => exact absurd (congrArg Prod.fst hpass) (by simp [Eff.throw])
    | false =>
      obtain ⟨-, rfl⟩ := Prod.mk.inj hpass
      intro tx htx hne
      rcases List.mem_cons.mp htx with rfl | htx
      · exact hs.absent (by rw [hlookup]) hne
      · rw [← hgrows.executedBlocks_eq]
        exact ih (hs.grows hgrows) hrest tx htx hne

theorem executedBlocks_cancel (s : BlockChain) :
    (executedBlocks s.cancelMemoryItem).Sublist (executedBlocks s) := by
  unfold executedBlocks cancelMemoryItem
  rw [List.map_dropLast]
  exact (List.dropLast_sublist _).append_left _

theorem Recorded.cancel (hs : Recorded env s) : Recorded env s.cancelMemoryItem := by
  have hmem : ∀ i ∈ s.cancelMemoryItem.memoryQueue, i ∈ s.memoryQueue :=
    fun i hi ↦ List.mem_of_mem_dropLast hi
  refine ⟨fun i hi ↦ hs.keyed i (hmem i hi), fun i hi ↦ hs.queued i (hmem i hi), hs.stored,
    fun b hb ↦ hs.proper b ((executedBlocks_cancel s).subset hb), ?_⟩
  exact hs.once.sublist ((executedBlocks_cancel s).flatMap _)

end Recorded

section Process

structure Pending (env : Env) (block : Block) (s : BlockChain) : Prop where
  before : Recorded env s.cancelMemoryItem
  absent : ∀ h ∈ txHashes env block, h ≠ emptyTransaction.getHash env.sha3 →
    h ∉ (executedBlocks s.cancelMemoryItem).flatMap (txHashes env)
  last : ∃ queue item, s.memoryQueue = queue ++ [item] ∧ item.repository.block = block ∧
    Keyed env.sha3 item.repository.cacheTransaction

def Executed (env : Env) (block : Block) (s : BlockChain) : Prop :=
  ∃ queue item, s.memoryQueue = queue ++ [item] ∧
    ∀ h ∈ txHashes env block, h ∈ item.repository.cacheTransaction

theorem QueueGrows.cancel (h : QueueGrows env.sha3 s t) :
    QueueGrows env.sha3 s.cancelMemoryItem t.cancelMemoryItem := by
  refine ⟨?_, h.store, h.committed⟩
  unfold cancelMemoryItem
  rw [List.dropLast_eq_take, List.dropLast_eq_take, ← h.queue.length_eq]
  exact List.forall₂_take _ h.queue

theorem exists_last {l l' queue : List MemoryItem} {item : MemoryItem} {sha3 : Bytes → H256}
    (h : List.Forall₂ (ItemGrows sha3) l l') (hl : l = queue ++ [item]) :
    ∃ queue' item', l' = queue' ++ [item'] ∧ ItemGrows sha3 item item' := by
  subst hl
  induction queue generalizing l' with
  | nil =>
    cases h with
    | @cons _ item' _ _ hitem hnil =>
      cases hnil
      exact ⟨[], item', rfl, hitem⟩
  | cons i queue ih =>
    cases h with
    | @cons _ i' _ l' _ hrest =>
      obtain ⟨queue', item', rfl, hitem⟩ := ih hrest
      exact ⟨i' :: queue', item', rfl, hitem⟩

theorem Pending.grows (hs : Pending env block s) (h : QueueGrows env.sha3 s t) :
    Pending env block t := by
  obtain ⟨queue, item, hqueue, hblock, hkeyed⟩ := hs.last
  obtain ⟨queue', item', hqueue', hitem⟩ := exists_last h.queue hqueue
  refine ⟨hs.before.grows h.cancel, ?_, queue', item', hqueue', hitem.1.trans hblock,
    hitem.2.keyed hkeyed⟩
  rw [h.cancel.executedBlocks_eq]
  exact hs.absent

theorem Executed.grows (hs : Executed env block s) (h : QueueGrows env.sha3 s t) :
    Executed env block t := by
  obtain ⟨queue, item, hqueue, hall⟩ := hs
  obtain ⟨queue', item', hqueue', hitem⟩ := exists_last h.queue hqueue
  exact ⟨queue', item', hqueue', fun k hk ↦ hitem.2.keeps k (hall k hk)⟩

theorem pending_push (hs : Recorded env s)
    (habsent : ∀ h ∈ txHashes env block, h ≠ emptyTransaction.getHash env.sha3 →
      h ∉ (executedBlocks s).flatMap (txHashes env)) :
    Pending env block (addMemoryItem block s) := by
  have hcancel : (addMemoryItem block s).cancelMemoryItem = s := by
    unfold cancelMemoryItem addMemoryItem
    rw [List.dropLast_concat]
  refine ⟨?_, ?_, s.memoryQueue, _, rfl, rfl, fun h tx htx ↦ ?_⟩
  · rw [hcancel]
    exact hs
  · rw [hcancel]
    exact habsent
  · simp at htx

theorem run_executed {u : BlockChain} (hs : Pending env block s)
    (h : onRepo (fun db ↦ Runtime.run env.sha3 db block) s = (.ok (), u)) :
    Executed env block u := by
  obtain ⟨queue, item, hqueue, -, -⟩ := hs.last
  have hstack : stack s.memoryQueue = item.repository :: stack queue := by
    unfold stack
    rw [hqueue, List.map_append, List.reverse_append]
    rfl
  have hgrows := Eff.keeps_forEach (framed_grows env.sha3 s.dbc).refl
    (framed_grows env.sha3 s.dbc).trans block.transactions
    (fun tx _ ↦ grows_excute s.dbc block.getTimestamp tx) (stack s.memoryQueue)
  rcases hrun : Eff.forEach block.transactions (fun tx ↦
    Runtime.excute env.sha3 s.dbc block.getTimestamp tx) (stack s.memoryQueue) with ⟨e | ⟨⟨⟩⟩, st⟩
  · have herror : (onRepo (fun db ↦ Runtime.run env.sha3 db block) s).1 = .error e :=
      congrArg Prod.fst hrun
    rw [h] at herror
    cases herror
  have hstate : u = { s with memoryQueue := unstack s.memoryQueue st } := by
    have hrepo : onRepo (fun db ↦ Runtime.run env.sha3 db block) s =
        (.ok (), { s with memoryQueue := unstack s.memoryQueue st }) := by
      unfold onRepo Runtime.run
      rw [Eff.zoom_apply]
      beta_reduce
      rw [hrun]
    rw [h] at hrepo
    exact (Prod.mk.inj hrepo).2
  have htop := topHas_run (by rw [hstack]; exact List.cons_ne_nil _ _) hrun
  rw [hrun] at hgrows
  rw [hstack] at hgrows
  cases hgrows with
  | @cons _ r _ rest hitem hrest =>
    have hlength : queue.length = rest.reverse.length := by
      rw [List.length_reverse, ← hrest.length_eq]
      unfold stack
      rw [List.length_reverse, List.length_map]
    refine ⟨unstack queue rest, { item with repository := r }, ?_, fun k hk ↦ ?_⟩
    · rw [hstate]
      dsimp only
      unfold unstack
      rw [hqueue, List.reverse_cons, List.zipWith_append hlength]
      rfl
    · obtain ⟨tx, htx, rfl⟩ := List.mem_map.mp hk
      obtain ⟨r', rest', heq, hmem⟩ := htop tx htx
      rw [(List.cons.inj heq).1]
      exact hmem

/-- A transaction of the block that hashes like `EmptyTransaction` is a vote without a ballot, as
that one is. -/
def Proper (env : Env) (block : Block) : Prop :=
  ∀ tx ∈ block.transactions, tx.getHash env.sha3 = emptyTransaction.getHash env.sha3 →
    tx.type = emptyTransaction.type ∧ tx.data = emptyTransaction.data

theorem excute_empty_ne_ok {sha3 : Bytes → H256} {db : DatabaseController} {timestamp : Int64}
    {tx : Transaction} {st st' : List Repository} (htype : tx.type = emptyTransaction.type)
    (hdata : tx.data = emptyTransaction.data) :
    Runtime.excute sha3 db timestamp tx st ≠ (.ok (), st') := by
  intro h
  obtain ⟨⟨⟩, st₁, hexecute, -⟩ := Eff.bind_eq_ok.mp h
  have hvote : tx.type = Transaction.voteType := htype
  unfold Runtime.execute at hexecute
  rw [if_pos hvote] at hexecute
  obtain ⟨⟨⟩, _, -, hexecute⟩ := Eff.bind_eq_ok.mp hexecute
  obtain ⟨⟨⟩, _, -, hexecute⟩ := Eff.bind_eq_ok.mp hexecute
  obtain ⟨ballot, _, hballot, -⟩ := Eff.bind_eq_ok.mp hexecute
  rw [hdata] at hballot
  cases hballot

theorem run_proper (hproper : Proper env block) {db : DatabaseController}
    {st st' : List Repository} (h : Runtime.run env.sha3 db block st = (.ok (), st')) :
    emptyTransaction.getHash env.sha3 ∉ txHashes env block := by
  unfold Runtime.run at h
  unfold Proper at hproper
  unfold txHashes
  generalize block.transactions = txs at h hproper ⊢
  induction txs generalizing st with
  | nil => exact List.not_mem_nil
  | cons tx txs ih =>
    obtain ⟨⟨⟩, st₁, hfirst, hrest⟩ := Eff.bind_eq_ok.mp h
    intro hmem
    rcases List.mem_cons.mp hmem with heq | hmem
    · obtain ⟨htype, hdata⟩ := hproper tx List.mem_cons_self heq.symm
      exact excute_empty_ne_ok htype hdata hfirst
    · exact ih hrest (fun y hy ↦ hproper y (List.mem_cons_of_mem tx hy)) hmem

theorem queueGrows_of_steps {r : BlockChain → BlockChain → Prop}
    (hr : ∀ s t, r s t → QueueGrows env.sha3 s t) (h : ReflTransGen r s t) :
    QueueGrows env.sha3 s t := by
  induction h with
  | refl => exact QueueGrows.refl s
  | tail _ hstep ih => exact QueueGrows.trans _ _ _ ih (hr _ _ hstep)

theorem pending_executeBlock (hs : Pending env block s) (hproper : Proper env block) :
    Pending env block (executeBlock env block s).2 ∧
      ((executeBlock env block s).1 = .ok () → Executed env block (executeBlock env block s).2 ∧
        emptyTransaction.getHash env.sha3 ∉ txHashes env block) := by
  have hrun : QueueGrows env.sha3 s (onRepo (fun db ↦ Runtime.run env.sha3 db block) s).2 :=
    queueGrows_onRepo (fun db ↦ Eff.keeps_forEach (framed_grows env.sha3 db).refl
      (framed_grows env.sha3 db).trans block.transactions
      fun tx _ ↦ grows_excute db block.getTimestamp tx) s
  rw [executeBlock_eq]
  rcases hexec : onRepo (fun db ↦ Runtime.run env.sha3 db block) s with ⟨e | ⟨⟨⟩⟩, u⟩
  · rw [hexec] at hrun
    rw [Eff.bind_error hexec]
    exact ⟨hs.grows hrun, fun h ↦ (by cases h)⟩
  · rw [hexec] at hrun
    rw [Eff.bind_ok hexec]
    have hgrows := queueGrows_of_steps (fun _ _ ↦ Completes.queueGrows)
      (completeBlock_steps env block u)
    have hdone : Runtime.run env.sha3 s.dbc block (stack s.memoryQueue) =
        (.ok (), (Runtime.run env.sha3 s.dbc block (stack s.memoryQueue)).2) := by
      have hfst := congrArg Prod.fst hexec
      exact Prod.ext hfst rfl
    exact ⟨(hs.grows hrun).grows hgrows,
      fun _ ↦ ⟨(run_executed hs hexec).grows hgrows, run_proper hproper hdone⟩⟩

/-- A block whose transactions have been executed is recorded with those before it. -/
theorem Pending.recorded (hs : Pending env block s) (hexecuted : Executed env block s)
    (hnodup : (txHashes env block).Nodup)
    (hproper : emptyTransaction.getHash env.sha3 ∉ txHashes env block) : Recorded env s := by
  obtain ⟨queue, item, hqueue, hblock, hkeyed⟩ := hs.last
  obtain ⟨queue', item', hqueue', hall⟩ := hexecuted
  obtain ⟨rfl, hitem⟩ := List.append_inj' (hqueue.symm.trans hqueue') rfl
  obtain rfl := List.singleton_inj.mp hitem
  have hcancel : s.cancelMemoryItem.memoryQueue = queue := by
    unfold cancelMemoryItem
    rw [hqueue, List.dropLast_concat]
  have hblocks : executedBlocks s = executedBlocks s.cancelMemoryItem ++ [block] := by
    unfold executedBlocks
    rw [hcancel, hqueue, List.map_append, ← List.append_assoc, List.map_singleton, hblock]
    rfl
  have hmem : ∀ i ∈ s.memoryQueue, i ∈ s.cancelMemoryItem.memoryQueue ∨ i = item := by
    intro i hi
    rw [hqueue] at hi
    rw [hcancel]
    exact (List.mem_append.mp hi).imp_right List.mem_singleton.mp
  refine ⟨fun i hi ↦ ?_, fun i hi ↦ ?_, hs.before.stored, fun b hb ↦ ?_, ?_⟩
  · rcases hmem i hi with hold | rfl
    · exact hs.before.keyed i hold
    · exact hkeyed
  · rcases hmem i hi with hold | rfl
    · exact hs.before.queued i hold
    · rw [hblock]
      exact hall
  · rw [hblocks] at hb
    rcases List.mem_append.mp hb with hold | hnew
    · exact hs.before.proper b hold
    · rw [List.mem_singleton.mp hnew]
      exact hproper
  · rw [hblocks, List.flatMap_append, List.flatMap_singleton]
    refine List.nodup_append'.mpr ⟨hs.before.once, hnodup, fun k hk hk' ↦ ?_⟩
    refine hs.absent k hk' ?_ hk
    rintro rfl
    exact hproper hk'

/-- A block is processed: it is recorded, or refused, or an exception has left it in the queue
before it was done. -/
theorem Recorded.doProcessBlock (hs : Recorded env s) (hnodup : (txHashes env block).Nodup)
    (hproper : Proper env block) :
    Recorded env (doProcessBlock env block s).2 ∨
      (BlockChain.doProcessBlock env block s).1.isOk = false := by
  have hgrows := queueGrows_of_steps (fun _ _ ↦ Prepares.queueGrows)
    (prepareBlock_steps env block s)
  unfold BlockChain.doProcessBlock
  rcases hprep : prepareBlock env block s with ⟨e | ⟨⟨⟩⟩, s₁⟩
  · rw [hprep] at hgrows
    dsimp only
    split_ifs <;> exact Or.inl (hs.grows hgrows)
  rw [hprep] at hgrows
  have habsent : ∀ h ∈ txHashes env block, h ≠ emptyTransaction.getHash env.sha3 →
      h ∉ (executedBlocks s₁).flatMap (txHashes env) := by
    obtain ⟨⟨⟩, u, hlookups, -⟩ := Eff.bind_eq_ok.mp hprep
    intro h hh
    obtain ⟨tx, htx, rfl⟩ := List.mem_map.mp hh
    rw [hgrows.executedBlocks_eq]
    exact lookups_absent hs hlookups tx htx
  have hpending := pending_push (hs.grows hgrows) habsent
  have hexecute := pending_executeBlock hpending hproper
  dsimp only
  rcases hexec : executeBlock env block (addMemoryItem block s₁) with ⟨e | ⟨⟨⟩⟩, s₂⟩
  · rw [hexec] at hexecute
    dsimp only
    split_ifs
    · exact Or.inl hexecute.1.before
    · exact Or.inr rfl
  · rw [hexec] at hexecute
    obtain ⟨hexecuted, hproper⟩ := hexecute.2 rfl
    exact Or.inl (hexecute.1.recorded hexecuted hnodup hproper)

end Process

end GseNetwork.Chain
