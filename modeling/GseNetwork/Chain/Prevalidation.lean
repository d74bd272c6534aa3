import GseNetwork.Chain.Displacement
import GseNetwork.Ledger.Existence
import GseNetwork.Ledger.Supply
import GseNetwork.Ledger.Timeless

namespace GseNetwork.Chain

open GseNetwork.Core GseNetwork.Foundation GseNetwork.Storage GseNetwork.Foundation.ReadThrough
open GseNetwork.Ledger
open BlockChain
open Repository (Shows)

variable {env : Env} {block : Block} {s t : BlockChain}

section Child

variable {db : DatabaseController}

def ParentsShow (db : DatabaseController) (st st' : List Repository) : Prop :=
  ∀ blocks w, Shows db blocks w st.tail → Shows db blocks w st'.tail

theorem setAccounts_self (st : List Repository) :
    Repository.setAccounts st (st.map Repository.cacheAccount) = st := by
  unfold Repository.setAccounts
  rw [List.zipWith_map_right, List.zipWith_self]
  exact List.map_id st

theorem setProducers_self (st : List Repository) :
    Repository.setProducers st (st.map Repository.cacheProducer) = st := by
  unfold Repository.setProducers
  rw [List.zipWith_map_right, List.zipWith_self]
  exact List.map_id st

theorem setTransactions_self (st : List Repository) :
    Repository.setTransactions st (st.map Repository.cacheTransaction) = st := by
  unfold Repository.setTransactions
  rw [List.zipWith_map_right, List.zipWith_self]
  exact List.map_id st

/-- A read through a repository reaches its parents as a read of its own, or not at all. -/
theorem tail_getAccount (db : DatabaseController) (a : Address) (r : Repository)
    (rest : List Repository) :
    (Repository.getAccount db a (r :: rest)).2.tail = rest ∨
      (Repository.getAccount db a (r :: rest)).2.tail = (Repository.getAccount db a rest).2 := by
  unfold Repository.getAccount
  obtain ⟨rest', hrest, hget⟩ := Table.get_snd_cons accountTable db.getAccount r.cacheAccount
    (rest.map Repository.cacheAccount) a
  have htail : (Repository.setAccounts (r :: rest) (accountTable.get db.getAccount
      ((r :: rest).map Repository.cacheAccount) a).2).tail = Repository.setAccounts rest rest' := by
    rw [List.map_cons]
    rcases hget with heq | ⟨v, -, -, -, heq⟩ <;> rw [heq] <;> rfl
  rcases hrest with rfl | rfl
  · left
    exact htail.trans (setAccounts_self rest)
  · right
    exact htail

theorem tail_getProducer (db : DatabaseController) (a : Address) (r : Repository)
    (rest : List Repository) :
    (Repository.getProducer db a (r :: rest)).2.tail = rest ∨
      (Repository.getProducer db a (r :: rest)).2.tail = (Repository.getProducer db a rest).2 := by
  unfold Repository.getProducer
  obtain ⟨rest', hrest, hget⟩ := Table.get_snd_cons producerTable db.getProducer r.cacheProducer
    (rest.map Repository.cacheProducer) a
  have htail : (Repository.setProducers (r :: rest) (producerTable.get db.getProducer
      ((r :: rest).map Repository.cacheProducer) a).2).tail =
        Repository.setProducers rest rest' := by
    rw [List.map_cons]
    rcases hget with heq | ⟨v, -, -, -, heq⟩ <;> rw [heq] <;> rfl
  rcases hrest with rfl | rfl
  · left
    exact htail.trans (setProducers_self rest)
  · right
    exact htail

theorem framed_parentsShow (db : DatabaseController) : Runtime.Framed db (ParentsShow db) where
  refl _ _ _ h := h
  trans _ _ _ h₁ h₂ blocks w h := h₂ blocks w (h₁ blocks w h)
  getAccount a st blocks w h := by
    cases st with
    | nil => exact h
    | cons r rest =>
      rcases tail_getAccount db a r rest with heq | heq <;> rw [heq]
      · exact h
      · exact (Repository.getAccount_spec h rfl).1
  getProducer a st blocks w h := by
    cases st with
    | nil => exact h
    | cons r rest =>
      rcases tail_getProducer db a r rest with heq | heq <;> rw [heq]
      · exact h
      · exact (Repository.getProducer_spec h rfl).1
  putAccount x st blocks w h := by
    cases st with
    | nil => exact h
    | cons r rest =>
      change Shows db blocks w (Repository.setAccounts rest (rest.map Repository.cacheAccount))
      rw [setAccounts_self]
      exact h
  putProducer p st blocks w h := by
    cases st with
    | nil => exact h
    | cons r rest =>
      change Shows db blocks w (Repository.setProducers rest (rest.map Repository.cacheProducer))
      rw [setProducers_self]
      exact h

theorem parentsShow_putTransaction (sha3 : Bytes → H256) (tx : Transaction) :
    Eff.Keeps (ParentsShow db) (Repository.putTransaction sha3 tx) := by
  intro st blocks w h
  cases st with
  | nil => exact h
  | cons r rest =>
    change Shows db blocks w
      (Repository.setTransactions rest (rest.map Repository.cacheTransaction))
    rw [setTransactions_self]
    exact h

theorem keepsView_trials (txs : List Transaction) :
    Eff.Keeps KeepsView (onChild fun db ↦
      Eff.forEach txs fun tx ↦ Runtime.excute env.sha3 db 0 tx) := by
  intro s
  refine ⟨rfl, rfl, fun blocks w h ↦ ?_⟩
  have hframed := framed_parentsShow s.dbc
  have hparents : Eff.Keeps (ParentsShow s.dbc)
      (Eff.forEach txs fun tx ↦ Runtime.excute env.sha3 s.dbc 0 tx) :=
    Eff.keeps_forEach hframed.refl hframed.trans txs fun tx _ ↦
      Eff.Keeps.bind hframed.trans (hframed.execute 0 tx) fun _ ↦
        parentsShow_putTransaction env.sha3 tx
  have hshows := hparents ({ block := emptyBlock } :: stack s.memoryQueue) blocks w h
  have hlength : ∀ st : List Repository, Shows s.dbc blocks w st →
      st.length = s.memoryQueue.length := by
    intro st hst
    rw [← length_stack, ← List.length_map (f := Repository.block), hst.blocks_eq, ← h.blocks_eq,
      List.length_map]
  change Shows s.dbc blocks w (stack (unstack s.memoryQueue _))
  rw [stack_unstack (hlength _ hshows)]
  exact hshows

theorem keepsView_preProcessBlock (env : Env) (block : Block) :
    Eff.Keeps KeepsView (preProcessBlock env block) := by
  have hstill : Eff.Keeps KeepsView (isExistBlock env block) := by
    intro s
    rw [isExistBlock_state]
    exact .refl s
  unfold preProcessBlock
  split_ifs
  · exact Eff.keeps_throw KeepsView.refl _
  · exact Eff.keeps_throw KeepsView.refl _
  · refine Eff.Keeps.bind KeepsView.trans hstill fun found ↦ ?_
    split_ifs <;> exact Eff.keeps_throw KeepsView.refl _
  · refine Eff.Keeps.bind KeepsView.trans hstill fun found ↦ ?_
    split_ifs
    · exact Eff.keeps_throw KeepsView.refl _
    · exact keepsView_trials block.transactions

end Child

section Lookups

theorem unstack_stack (queue : List MemoryItem) : unstack queue (stack queue) = queue := by
  unfold unstack stack
  rw [List.reverse_reverse, List.zipWith_map_right, List.zipWith_self]
  exact List.map_id queue

theorem isExistInRepo_absent {tx : Transaction} (h : (isExistInRepo env tx s).1 = .ok false) :
    isExistInRepo env tx s = (.ok false, s) := by
  rcases hrun : onRepo (fun db ↦ Repository.getTransaction env.sha3 db (tx.getHash env.sha3)) s
    with ⟨e | item, u⟩
  · unfold isExistInRepo at h
    rw [Eff.bind_error hrun] at h
    cases h
  · unfold isExistInRepo at h ⊢
    rw [Eff.bind_ok hrun] at h ⊢
    have hempty : item.equal env.sha3 emptyTransaction = true := by
      simpa using Except.ok.inj h
    obtain ⟨st, hget, rfl⟩ := onRepo_eq hrun
    obtain ⟨hitem, rfl⟩ := Prod.mk.inj hget
    have hread : (transactionTable env.sha3).get s.dbc.getTransaction
        ((stack s.memoryQueue).map Repository.cacheTransaction) (tx.getHash env.sha3) =
          (.ok item, _) := Prod.ext hitem rfl
    have hcaches := Table.get_eq_of_isEmpty (transactionTable_lawful env.sha3) hread hempty
    have hqueue : unstack s.memoryQueue (Repository.setTransactions (stack s.memoryQueue)
        ((transactionTable env.sha3).get s.dbc.getTransaction
          ((stack s.memoryQueue).map Repository.cacheTransaction) (tx.getHash env.sha3)).2) =
        s.memoryQueue := by
      refine (congrArg (fun caches ↦ unstack s.memoryQueue
        (Repository.setTransactions (stack s.memoryQueue) caches)) hcaches).trans ?_
      rw [setTransactions_self, unstack_stack]
    rw [hempty]
    exact congrArg (fun queue ↦
      ((.ok false : Except Exception Bool), { s with memoryQueue := queue })) hqueue

theorem lookup_ok_iff (tx : Transaction) (e : Exception) :
    ((do
      if ← isExistInRepo env tx then Eff.throw e else pure () : ChainM Unit) s = (.ok (), t)) ↔
      (isExistInRepo env tx s).1 = .ok false ∧ t = s := by
  rw [Eff.bind_eq_ok]
  constructor
  · rintro ⟨found, u, hrun, hrest⟩
    cases found with
    | true => cases hrest
    | false =>
      have habsent : (isExistInRepo env tx s).1 = .ok false := by rw [hrun]
      rw [isExistInRepo_absent habsent] at hrun
      obtain ⟨-, rfl⟩ := Prod.mk.inj hrun
      exact ⟨habsent, (Prod.mk.inj hrest).2.symm⟩
  · rintro ⟨habsent, rfl⟩
    exact ⟨false, t, isExistInRepo_absent habsent, rfl⟩

/-- The first loop of `doProcessBlock` ends if no transaction of the block is found. -/
theorem lookups_ok_iff (txs : List Transaction) :
    (Eff.forEach txs (fun tx ↦ do
      if ← isExistInRepo env tx then
        Eff.throw ⟨.blockChain, "Transaction(" ++ (tx.getHash env.sha3).toHex ++ ") has exist."⟩
      else pure ()) s = (.ok (), t)) ↔
      (∀ tx ∈ txs, (isExistInRepo env tx s).1 = .ok false) ∧ t = s := by
  induction txs with
  | nil =>
    rw [Eff.forEach_nil]
    constructor
    · intro h
      exact ⟨fun _ hmem ↦ absurd hmem List.not_mem_nil, (Prod.mk.inj h).2.symm⟩
    · rintro ⟨-, rfl⟩
      rfl
  | cons tx txs ih =>
    rw [Eff.forEach_cons_eq_ok, List.forall_mem_cons, and_assoc, ← ih]
    constructor
    · rintro ⟨u, htx, hrest⟩
      obtain ⟨habsent, rfl⟩ := (lookup_ok_iff tx _).mp htx
      exact ⟨habsent, hrest⟩
    · rintro ⟨habsent, hrest⟩
      exact ⟨s, (lookup_ok_iff tx _).mpr ⟨habsent, rfl⟩, hrest⟩

end Lookups

section Readable

structure Readable (db : DatabaseController) : Prop where
  producer : ∀ (a : Address) (e : Exception), db.producerStore[a]? ≠ some (.error e)
  block : ∀ (number : ℕ) (e : Exception), db.blockIndexStore[number]? ≠ some (.error e)

theorem Readable.getBlockByNumber (h : Readable s.dbc) (number : ℕ) :
    ∃ b, s.getBlockByNumber number = .ok b := by
  have hdb : ∃ b, s.dbc.getBlockByNumber number = .ok b := by
    unfold DatabaseController.getBlockByNumber
    rw [Std.ExtTreeMap.getD_eq_getD_getElem?]
    cases hentry : s.dbc.blockIndexStore[number]? with
    | none => exact ⟨_, rfl⟩
    | some x =>
      cases x with
      | ok b => exact ⟨b, rfl⟩
      | error e => exact absurd hentry (h.block number e)
  unfold BlockChain.getBlockByNumber
  split_ifs
  · exact ⟨_, rfl⟩
  · exact hdb
  all_goals
    cases s.memoryQueue.find? fun i ↦ i.blockNumber == number with
    | none => exact hdb
    | some i => first | exact hdb | exact ⟨_, rfl⟩

theorem Readable.getProducer {db : DatabaseController} (h : Readable db) (a : Address) :
    ∃ p, db.getProducer a = .ok p := by
  unfold DatabaseController.getProducer
  rw [Std.ExtTreeMap.getD_eq_getD_getElem?]
  cases hentry : db.producerStore[a]? with
  | none => exact ⟨_, rfl⟩
  | some x =>
    cases x with
    | ok p => exact ⟨p, rfl⟩
    | error e => exact absurd hentry (h.producer a e)

theorem Readable.getProducerList {db : DatabaseController} (h : Readable db)
    (st : List Repository) : ∃ m, Repository.getProducerList db st = .ok m := by
  induction st with
  | nil =>
    have hfold : ∀ (l : List (Address × Except Exception Producer))
        (m : Std.ExtTreeMap Address Producer), (∀ i ∈ l, ∃ p, i.2 = .ok p) →
        ∃ m', l.foldlM (fun m i ↦ do
          let temp ← i.2
          return m.insert temp.address temp) m = (.ok m' : Except Exception _) := by
      intro l
      induction l with
      | nil => exact fun m _ ↦ ⟨m, rfl⟩
      | cons i l ih =>
        intro m hall
        obtain ⟨p, hp⟩ := hall i List.mem_cons_self
        rw [List.foldlM_cons, hp]
        exact ih _ fun j hj ↦ hall j (List.mem_cons_of_mem i hj)
    refine hfold _ ∅ fun i hi ↦ ?_
    have hentry := Std.ExtTreeMap.mem_toList_iff_getElem?_eq_some.mp hi
    cases hx : i.2 with
    | ok p => exact ⟨p, rfl⟩
    | error e => exact absurd (hx ▸ hentry) (h.producer i.1 e)
  | cons r rest ih =>
    obtain ⟨m, hm⟩ := ih
    exact ⟨r.cacheProducer.toList.foldl (fun m i ↦ m.insert i.1 i.2) m, by
      rw [Repository.getProducerList, hm]
      rfl⟩

end Readable

section Execution

variable {blocks : List Block} {w : View}

def SameStores (s t : BlockChain) : Prop := t.dbc = s.dbc ∧ t.memoryQueue = s.memoryQueue

theorem succeeds_updateActiveProducers (h : Readable s.dbc) (block : Block) :
    Eff.Succeeds (SameStores s) (updateActiveProducers block) fun _ ↦ True := by
  refine Eff.succeeds_get.bind fun u hu ↦ ?_
  have hreadable : Readable u.dbc := hu.1 ▸ h
  refine (Eff.succeeds_ofExcept (hreadable.getBlockByNumber _)).bind fun prevBlock _ ↦ ?_
  refine Eff.Succeeds.bind (P := fun _ ↦ True) (Eff.succeeds_modify ?_) fun _ _ ↦ ?_
  · exact fun _ ht ↦ ht
  refine (Eff.succeeds_ofExcept (hreadable.getProducer _)).bind fun producer _ ↦ ?_
  exact Eff.succeeds_modify fun _ ht ↦ ht

/-- What the node does before the transactions succeeds if no transaction of the block is found,
and leaves the repositories and the stores alone. -/
theorem prepareBlock_ok_iff (h : Readable s.dbc) :
    (∃ t, prepareBlock env block s = (.ok (), t) ∧ SameStores s t) ↔
      ∀ tx ∈ block.transactions, (isExistInRepo env tx s).1 = .ok false := by
  constructor
  · rintro ⟨t, hprepare, -⟩
    obtain ⟨⟨⟩, u, hloop, -⟩ := Eff.bind_eq_ok.mp hprepare
    exact ((lookups_ok_iff block.transactions).mp hloop).1
  · intro habsent
    have hloop := (lookups_ok_iff (t := s) block.transactions).mpr ⟨habsent, rfl⟩
    obtain ⟨⟨⟩, u, hactive, hsame, -⟩ := succeeds_updateActiveProducers h block s ⟨rfl, rfl⟩
    unfold prepareBlock
    generalize updateActiveProducers block = active at hactive ⊢
    rw [Eff.bind_ok hloop, Eff.bind_ok hactive]
    exact ⟨_, rfl, hsame⟩

theorem reschedule_ok (h : Readable s.dbc) (env : Env) (block : Block) :
    ∃ t, reschedule env block s = (.ok (), t) := by
  unfold reschedule
  split_ifs
  · obtain ⟨m, hm⟩ := h.getProducerList (stack s.memoryQueue)
    have hschedule : ∃ t, updateSchedule env block.getTimestamp s = (.ok (), t) := by
      unfold updateSchedule
      rw [Eff.get_bind_apply, hm]
      exact ⟨_, rfl⟩
    obtain ⟨t, ht⟩ := hschedule
    rw [Eff.bind_ok ht]
    exact ⟨_, rfl⟩
  · exact ⟨s, rfl⟩

theorem Shows.hasAccount {db : DatabaseController} {st : List Repository} (h : Shows db blocks w st)
    {a : Address} {x : Account} (hx : w.account a = .ok x) (hne : x.isEmpty = false) :
    HasAccount w a x := by
  rcases hget : Repository.getAccount db a st with ⟨r, st'⟩
  obtain ⟨-, hview, hsound⟩ := Repository.getAccount_spec h hget
  rw [hx] at hview
  cases r with
  | error e => cases hview
  | ok y =>
    obtain rfl : erase y = x := Except.ok.inj hview
    exact ⟨hx, hsound y rfl hne⟩

theorem bonus_ok_iff {db : DatabaseController} {st : List Repository} (h : Shows db blocks w st)
    (a : Address) (v : UInt64) :
    (∃ st', Repository.bonus db a v st = (.ok (), st')) ↔ AccountExists w a := by
  unfold Repository.bonus
  rcases hget : Repository.getAccount db a st with ⟨r, st'⟩
  obtain ⟨-, hview, -⟩ := Repository.getAccount_spec h hget
  cases r with
  | error e =>
    rw [Eff.bind_error hget]
    refine iff_of_false (fun ⟨_, hok⟩ ↦ by cases hok) ?_
    rintro ⟨x, hx, -⟩
    rw [hx] at hview
    cases hview
  | ok x =>
    rw [Eff.bind_ok hget]
    cases hempty : x.isEmpty with
    | true =>
      rw [if_pos rfl]
      refine iff_of_false (fun ⟨_, hok⟩ ↦ by cases hok) ?_
      rintro ⟨y, hy, hsound⟩
      rw [hy] at hview
      obtain rfl : erase x = y := Except.ok.inj hview
      rw [isEmpty_of_alive (show x.alive = true from hsound.2)] at hempty
      cases hempty
    | false =>
      rw [if_neg Bool.false_ne_true]
      exact iff_of_true ⟨_, rfl⟩ ⟨erase x, Shows.hasAccount h hview.symm hempty⟩

def Payable (block : Block) (w : View) : Prop :=
  AccountExists w block.getProducer ∨ ∃ tx ∈ block.transactions,
    tx.type = Transaction.transferType ∧ tx.recipient = block.getProducer

/-- A block whose transactions succeed is executed to its end if the bonus can be paid. -/
theorem executeBlock_ok_iff (hs : Shows s.dbc (block :: blocks) w (stack s.memoryQueue))
    (hreadable : Readable s.dbc)
    (hrun : ∃ u, onRepo (fun db ↦ Runtime.run env.sha3 db block) s = (.ok (), u)) :
    (∃ t, executeBlock env block s = (.ok (), t)) ↔ Payable block w := by
  obtain ⟨u, hrun⟩ := hrun
  obtain ⟨st, htxs, hdbc, hstack⟩ := onRepo_shows hrun hs
  obtain ⟨w', hshows, hexists⟩ := transactions_exists hs htxs
  have hu : Shows u.dbc (block :: blocks) w' (stack u.memoryQueue) := by
    rw [hdbc, hstack hshows.blocks_eq]
    exact hshows
  -- the confirmation and the schedule do not touch what the bonus reads
  obtain ⟨v₀, hv₀⟩ : ∃ v₀, v₀ = sendConfirmation env block u := ⟨_, rfl⟩
  have hconfirm : v₀.dbc = s.dbc ∧ v₀.memoryQueue = u.memoryQueue := by
    rw [hv₀, ← hdbc]
    unfold sendConfirmation
    split_ifs <;> exact ⟨rfl, rfl⟩
  have hv : Shows v₀.dbc (block :: blocks) w' (stack v₀.memoryQueue) := by
    rw [hconfirm.1, hconfirm.2, ← hdbc]
    exact hu
  obtain ⟨v, hschedule⟩ := reschedule_ok (hconfirm.1 ▸ hreadable) env block
  have hkept := keepsView_reschedule env block v₀
  rw [hschedule] at hkept
  have hkeeps : Shows v.dbc (block :: blocks) w' (stack v.memoryQueue) := hkept.shows _ _ hv
  have hbonus := bonus_ok_iff hkeeps block.getProducer (blockBonus env block.getTimestamp)
  unfold executeBlock
  rw [Eff.bind_ok hrun, Eff.modify_bind_apply, ← hv₀, Eff.bind_ok hschedule]
  trans AccountExists w' block.getProducer
  · rw [← hbonus]
    constructor
    · rintro ⟨t, ht⟩
      obtain ⟨⟨⟩, t', ht', -⟩ := Eff.bind_eq_ok.mp ht
      obtain ⟨st', hst', -⟩ := onRepo_eq ht'
      exact ⟨st', hst'⟩
    · rintro ⟨st', hst'⟩
      have hpaid : onRepo (fun db ↦ Repository.bonus db block.getProducer
          (blockBonus env block.getTimestamp)) v =
            (.ok (), { v with memoryQueue := unstack v.memoryQueue st' }) := by
        unfold onRepo
        rw [Eff.zoom_apply]
        dsimp only
        rw [hst']
      rw [Eff.bind_ok hpaid]
      exact ⟨_, rfl⟩
  · rw [hexists]
    exact or_comm

end Execution

/-- A block that passes has been tried out on a child of the last repository. -/
theorem preProcessBlock_trial {s' : BlockChain} (h : preProcessBlock env block s = (.ok (), s')) :
    ∃ st, Eff.forEach block.transactions (fun tx ↦ Runtime.excute env.sha3 s.dbc 0 tx)
      ({ block := emptyBlock } :: stack s.memoryQueue) = (.ok (), st) := by
  unfold preProcessBlock at h
  split_ifs at h with hchain hvalid hdup
  · cases h
  · cases h
  · obtain ⟨found, u, -, h⟩ := Eff.bind_eq_ok.mp h
    split_ifs at h <;> cases h
  · obtain ⟨found, u, hexist, htrial⟩ := Eff.bind_eq_ok.mp h
    have hu : u = s := by rw [← isExistBlock_state env block s, hexist]
    rw [hu] at htrial
    split_ifs at htrial
    · cases htrial
    · exact ⟨_, Prod.ext (Prod.mk.inj htrial).1 rfl⟩

/-- A block whose transactions have been tried out is executed without an exception, as long as the
ledger is the same, exactly if none of its transactions is on the ledger and its producer has an
account or gets one in the block. -/
theorem attemptBlock_ok_iff (hwell : WellFormed s)
    (htrial : ∃ st, Eff.forEach block.transactions (fun tx ↦ Runtime.excute env.sha3 s.dbc 0 tx)
      ({ block := emptyBlock } :: stack s.memoryQueue) = (.ok (), st))
    (hkeeps : KeepsView s t) (hreadable : Readable t.dbc)
    (hsender : ∀ tx ∈ block.transactions, tx.type = Transaction.beenProducerType → tx.sender ≠ 0) :
    (attemptBlock env block t).1 = .ok () ↔
      (∀ tx ∈ block.transactions, (isExistInRepo env tx t).1 = .ok false) ∧
        Payable block (chainView t) := by
  obtain ⟨blocks, hs⟩ : ∃ blocks, Shows s.dbc blocks (chainView s) (stack s.memoryQueue) :=
    ⟨_, hwell.shows⟩
  have ht := hkeeps.shows _ _ hs
  have hopen := shows_open hs emptyBlock
  have hopen' := shows_open ht block
  have htwin : Twin s.dbc t.dbc emptyBlock block ({ block := emptyBlock } :: stack s.memoryQueue)
      ({ block := block } :: stack t.memoryQueue) := by
    refine ⟨_, _, _, _, hopen, hopen', ?_⟩
    change Agree (openView block s) (openView block t)
    rw [hkeeps.openView_eq hs block]
    exact Agree.refl fun a x hx hne ↦ (Shows.hasAccount (shows_open hs block) hx hne).sound.2
  obtain ⟨st, htrial⟩ := htrial
  obtain ⟨⟨⟩, st', hrun, -, -⟩ := lockstep_transactions env.sha3 0 block.getTimestamp
    block.transactions hsender _ _ htwin () st htrial
  have hpayable : Payable block (openView block t) ↔ Payable block (chainView t) := by
    rw [show chainView t = chainView s from ht.view_eq]
    exact or_congr_left (exists_of_account_eq (openView_account ht block) block.getProducer)
  -- once the look-ups are passed, it is up to the bonus
  have hexecute : ∀ u, SameStores t u →
      ((∃ v, executeBlock env block (addMemoryItem block u) = (.ok (), v)) ↔
        Payable block (chainView t)) := by
    rintro u ⟨hdbc, hqueue⟩
    have hstack : stack (addMemoryItem block u).memoryQueue =
        { block := block } :: stack t.memoryQueue := by
      rw [stack_addMemoryItem, hqueue]
    have hdbc' : (addMemoryItem block u).dbc = t.dbc := hdbc
    have hpush : Shows (addMemoryItem block u).dbc (block :: blocks) (openView block t)
        (stack (addMemoryItem block u).memoryQueue) := by
      rw [hstack, hdbc']
      exact hopen'
    rw [← hpayable]
    refine executeBlock_ok_iff hpush ?_ ⟨_, Prod.ext ?_ rfl⟩
    · rw [hdbc']
      exact hreadable
    · change (Runtime.run env.sha3 (addMemoryItem block u).dbc block
        (stack (addMemoryItem block u).memoryQueue)).1 = .ok ()
      rw [hstack, hdbc']
      exact congrArg Prod.fst hrun
  constructor
  · intro hok
    obtain ⟨⟨⟩, u, hprepare, hrest⟩ := Eff.bind_eq_ok.mp
      (show attemptBlock env block t = (.ok (), _) from Prod.ext hok rfl)
    have hlookups : ∀ tx ∈ block.transactions, (isExistInRepo env tx t).1 = .ok false := by
      obtain ⟨⟨⟩, v, hloop, -⟩ := Eff.bind_eq_ok.mp hprepare
      exact ((lookups_ok_iff block.transactions).mp hloop).1
    obtain ⟨u', hprepare', hsame⟩ := (prepareBlock_ok_iff hreadable).mpr hlookups
    obtain rfl : u = u' := (Prod.mk.inj (hprepare.symm.trans hprepare')).2
    exact ⟨hlookups, (hexecute u hsame).mp ⟨_, hrest⟩⟩
  · rintro ⟨hlookups, hpay⟩
    obtain ⟨u, hprepare, hsame⟩ := (prepareBlock_ok_iff hreadable).mpr hlookups
    obtain ⟨v, hv⟩ := (hexecute u hsame).mpr hpay
    have hattempt : attemptBlock env block t = (.ok (), v) := by
      unfold attemptBlock
      rw [Eff.bind_ok hprepare, Eff.modify_bind_apply]
      exact hv
    rw [hattempt]

/-- A block that passed `preProcessBlock` is executed without an exception, as long as the ledger
is the same, exactly if none of its transactions is on the ledger and its producer has an account
or gets one in the block. -/
theorem prevalidated_executes_iff (env : Env) (block : Block) (s s' t : BlockChain)
    (hwell : WellFormed s) (hpre : preProcessBlock env block s = (.ok (), s'))
    (hbetween : KeepsView s' t) (hreadable : Readable t.dbc)
    (hsender : ∀ tx ∈ block.transactions, tx.type = Transaction.beenProducerType → tx.sender ≠ 0) :
    (attemptBlock env block t).1 = .ok () ↔
      (∀ tx ∈ block.transactions, (isExistInRepo env tx t).1 = .ok false) ∧
        Payable block (chainView t) := by
  have hkeeps : KeepsView s t := by
    have hchecked := keepsView_preProcessBlock env block s
    rw [hpre] at hchecked
    exact hchecked.trans _ _ _ hbetween
  exact attemptBlock_ok_iff hwell (preProcessBlock_trial hpre) hkeeps hreadable hsender

def chainOver (accounts : List Account) : BlockChain :=
  start Relay.openEnv
    { accountStore := accounts.foldl (fun m x ↦ m.insert x.address (.ok x)) ∅
      blockIndexStore := Std.ExtTreeMap.insert ∅ 0 (.ok {}) }
    { currentProducerList := { producers := [{ address := 1, timestamp := 1, votes := 0 }] } } {}

/-- The node of `openRelay`, whose scheduled producer may have no account. -/
def openChain (funded : Bool) : BlockChain := chainOver (if funded then [Account.new 1 1 0] else [])

theorem getElem?_filed {accounts : List Account}
    {m : Std.ExtTreeMap Address (Except Exception Account)} {a : Address}
    {r : Except Exception Account}
    (h : (accounts.foldl (fun m x ↦ m.insert x.address (.ok x)) m)[a]? = some r) :
    (∃ x ∈ accounts, x.address = a ∧ r = .ok x) ∨ m[a]? = some r := by
  induction accounts generalizing m with
  | nil => exact Or.inr h
  | cons x accounts ih =>
    rcases ih h with ⟨y, hy, hfiled⟩ | hm
    · exact Or.inl ⟨y, List.mem_cons_of_mem x hy, hfiled⟩
    · rw [getElem?_insert] at hm
      split_ifs at hm with hx
      · exact Or.inl ⟨x, List.mem_cons_self, hx, (Option.some.inj hm).symm⟩
      · exact Or.inr hm

theorem getAccount_chainOver {accounts : List Account} {a : Address} {x : Account}
    (h : (chainOver accounts).dbc.getAccount a = .ok x) (hne : x.isEmpty = false) :
    x ∈ accounts ∧ x.address = a := by
  have hstore : (chainOver accounts).dbc.accountStore =
      accounts.foldl (fun m x ↦ m.insert x.address (.ok x)) ∅ := rfl
  rw [DatabaseController.getAccount, hstore, Std.ExtTreeMap.getD_eq_getD_getElem?] at h
  rcases hentry : (accounts.foldl (fun m x ↦ m.insert x.address (.ok x))
    (∅ : Std.ExtTreeMap Address (Except Exception Account)))[a]? with _ | r
  · rw [hentry, Option.getD_none, Except.ok.injEq] at h
    rw [← h] at hne
    cases hne
  · rw [hentry, Option.getD_some] at h
    rcases getElem?_filed hentry with ⟨y, hy, hfiled, hr⟩ | hnone
    · obtain rfl : x = y := Except.ok.inj (h.symm.trans hr)
      exact ⟨hy, hfiled⟩
    · simp at hnone

theorem wellFormed_chainOver {accounts : List Account} (h : ∀ x ∈ accounts, x.alive = 1) :
    WellFormed (chainOver accounts) := by
  have hstack : stack (chainOver accounts).memoryQueue = [] := rfl
  refine ⟨fun a x hx hne ↦ ?_, fun a p hp hne ↦ ?_, fun m hm ↦ ?_, fun m hm ↦ ?_⟩
  · obtain ⟨hmem, haddress⟩ := getAccount_chainOver hx hne
    exact ⟨haddress, h x hmem⟩
  · have hempty : (chainOver accounts).dbc.getProducer a = .ok emptyProducer :=
      Std.ExtTreeMap.getD_empty
    obtain rfl : emptyProducer = p := Except.ok.inj (hempty.symm.trans hp)
    cases hne
  · simp [hstack] at hm
  · simp [hstack] at hm

theorem readable_chainOver (accounts : List Account) : Readable (chainOver accounts).dbc := by
  have hblocks : (chainOver accounts).dbc.blockIndexStore =
    Std.ExtTreeMap.insert ∅ 0 (.ok {}) := rfl
  have hproducers : (chainOver accounts).dbc.producerStore = ∅ := rfl
  refine ⟨fun a e h ↦ ?_, fun number e h ↦ ?_⟩
  · simp [hproducers] at h
  · rw [hblocks, getElem?_insert] at h
    split_ifs at h
    · cases h
    · simp at h

theorem getAccount_openChain (a : Address) :
    (openChain true).dbc.getAccount a =
      .ok (if a = 1 then Account.new 1 1 0 else emptyAccount) :=
  getAccount_single rfl a

theorem wellFormed_openChain : WellFormed (openChain true) :=
  wellFormed_chainOver (by decide)

theorem Checks.dbc_eq (h : Checks env s t) : t.dbc = s.dbc := by
  cases h <;> rfl

theorem preProcessBlock_dbc (env : Env) (block : Block) (s : BlockChain) :
    (preProcessBlock env block s).2.dbc = s.dbc :=
  steps_invariant (I := fun t ↦ t.dbc = s.dbc) (fun _ _ hstep ht ↦ hstep.dbc_eq.trans ht)
    (preProcessBlock_steps env block s) rfl

def wealthyChain : BlockChain := chainOver [Account.new 1 1 0, Account.new 2 2000000000 0]

def wealthyTransaction (type : UInt32) (recipient : Address) (timestamp : Int64) : Transaction where
  chainID := 0
  type := type
  sender := 2
  recipient := recipient
  timestamp := timestamp
  value := 100
  signature := { r := 2 }

def wealthyBlock : Block :=
  { Relay.openBlock 1 with transactions := [wealthyTransaction Transaction.transferType 1 1,
      wealthyTransaction Transaction.transferType 3 2,
      wealthyTransaction Transaction.beenProducerType 0 3] }

theorem prevalidated_executes_iff_wealthy :
    (attemptBlock Relay.openEnv wealthyBlock
      (preProcessBlock Relay.openEnv wealthyBlock wealthyChain).2).1 = .ok () := by
  have hok : (preProcessBlock Relay.openEnv wealthyBlock wealthyChain).1.isOk = true := by
    decide +kernel
  have hwell : WellFormed wealthyChain := wellFormed_chainOver (by decide)
  have hkeeps := keepsView_preProcessBlock Relay.openEnv wealthyBlock wealthyChain
  refine (prevalidated_executes_iff Relay.openEnv wealthyBlock wealthyChain _ _
    hwell (Eff.eq_ok_of_isOk hok) (KeepsView.refl _) ?_ (by decide)).mpr ⟨?_, Or.inl ?_⟩
  · rw [preProcessBlock_dbc]
    exact readable_chainOver _
  · have hlookups : ∀ tx ∈ wealthyBlock.transactions, (isExistInRepo Relay.openEnv tx
        (preProcessBlock Relay.openEnv wealthyBlock wealthyChain).2).1.toOption = some false := by
      decide +kernel
    exact fun tx htx ↦ congrArg Prod.fst (Eff.eq_ok_of_toOption (hlookups tx htx))
  · have hview := (hkeeps.shows _ _ hwell.shows).view_eq
    unfold chainView
    rw [hview]
    refine ⟨Account.new 1 1 0, ?_, rfl, rfl⟩
    change (wealthyChain.dbc.getAccount 1).map erase = _
    rfl

/-- The block of a scheduled producer without an account extends the head, passes all checks, and
is not executed. -/
theorem prevalidated_fails :
    (openChain false).checkProducer (Relay.openBlock 1) = true ∧
      (Relay.openBlock 1).getParentHash = (openChain false).head.blockID ∧
      (Relay.openBlock 1).getNumber = (openChain false).latestBlockNumber + 1 ∧
      (preProcessBlock Relay.openEnv (Relay.openBlock 1) (openChain false)).1.isOk = true ∧
      (attemptBlock Relay.openEnv (Relay.openBlock 1)
        (preProcessBlock Relay.openEnv (Relay.openBlock 1) (openChain false)).2).1.isOk =
          false := by
  decide +kernel

end GseNetwork.Chain
