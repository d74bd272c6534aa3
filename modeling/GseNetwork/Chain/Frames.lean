import GseNetwork.Chain.Processing
import GseNetwork.Storage.Views

namespace GseNetwork.Chain.BlockChain

open GseNetwork.Core GseNetwork.Foundation GseNetwork.Storage GseNetwork.Foundation.ReadThrough
open Repository (Shows)

section Stack

variable {queue : List MemoryItem} {repositories : List Repository}

theorem stack_unstack (h : repositories.length = queue.length) :
    stack (unstack queue repositories) = repositories := by
  unfold stack unstack
  rw [Repository.map_zipWith_right (fun _ _ ↦ rfl) (by simpa using h), List.reverse_reverse]

theorem length_stack (queue : List MemoryItem) : (stack queue).length = queue.length := by
  simp [stack]

theorem stack_append_singleton (queue : List MemoryItem) (item : MemoryItem) :
    stack (queue ++ [item]) = item.repository :: stack queue := by
  simp [stack]

theorem stack_addMemoryItem (block : Block) (s : BlockChain) :
    stack (addMemoryItem block s).memoryQueue = { block := block } :: stack s.memoryQueue :=
  stack_append_singleton _ _

theorem stack_setDone (s : BlockChain) : stack s.setDone.memoryQueue = stack s.memoryQueue := by
  rcases List.eq_nil_or_concat s.memoryQueue with h | ⟨queue, item, h⟩
  · simp [setDone, h]
  · simp [setDone, h, stack]

end Stack

def chainView (s : BlockChain) : View := Repository.viewOf s.dbc (stack s.memoryQueue)

def openView (block : Block) (s : BlockChain) : View :=
  Repository.viewOf s.dbc ({ block := block } :: stack s.memoryQueue)

section Stores

variable {db db' : DatabaseController} (haccount : db'.accountStore = db.accountStore)
  (hproducer : db'.producerStore = db.producerStore)

include haccount in
theorem getAccount_congr : db'.getAccount = db.getAccount := by
  funext a
  rw [DatabaseController.getAccount, DatabaseController.getAccount, haccount]

include hproducer in
theorem getProducer_congr : db'.getProducer = db.getProducer := by
  funext a
  rw [DatabaseController.getProducer, DatabaseController.getProducer, hproducer]

include haccount hproducer

theorem viewOf_congr (st : List Repository) :
    Repository.viewOf db' st = Repository.viewOf db st := by
  unfold Repository.viewOf Repository.accountView Repository.producerView
  rw [getAccount_congr haccount, getProducer_congr hproducer]

theorem shows_congr {blocks : List Block} {w : View} {st : List Repository}
    (h : Shows db blocks w st) : Shows db' blocks w st := by
  refine ⟨⟨?_, ?_, h.sound.accounts, h.sound.producers⟩, ?_, h.blocks_eq⟩
  · rw [getAccount_congr haccount]
    exact h.sound.accountStore
  · rw [getProducer_congr hproducer]
    exact h.sound.producerStore
  · rw [viewOf_congr haccount hproducer, h.view_eq]

end Stores

structure KeepsView (s t : BlockChain) : Prop where
  accountStore_eq : t.dbc.accountStore = s.dbc.accountStore
  producerStore_eq : t.dbc.producerStore = s.dbc.producerStore
  shows : ∀ blocks w, Shows s.dbc blocks w (stack s.memoryQueue) →
    Shows t.dbc blocks w (stack t.memoryQueue)

namespace KeepsView

theorem refl (s : BlockChain) : KeepsView s s := ⟨rfl, rfl, fun _ _ h ↦ h⟩

theorem trans (s t u : BlockChain) (hst : KeepsView s t) (htu : KeepsView t u) :
    KeepsView s u where
  accountStore_eq := htu.accountStore_eq.trans hst.accountStore_eq
  producerStore_eq := htu.producerStore_eq.trans hst.producerStore_eq
  shows blocks w h := htu.shows blocks w (hst.shows blocks w h)

theorem of_eq {s t : BlockChain} (haccount : t.dbc.accountStore = s.dbc.accountStore)
    (hproducer : t.dbc.producerStore = s.dbc.producerStore)
    (hstack : stack t.memoryQueue = stack s.memoryQueue) : KeepsView s t := by
  refine ⟨haccount, hproducer, fun blocks w h ↦ ?_⟩
  rw [hstack]
  exact shows_congr haccount hproducer h

end KeepsView

section Layers

variable {db : DatabaseController} {blocks : List Block} {w : View} {st : List Repository}

theorem openView_account (h : Shows db blocks w st) (block : Block) :
    (Repository.viewOf db ({ block := block } :: st)).account = w.account := by
  have hfull : Table.SoundStack (fun _ x ↦ accountTable.isEmpty x = false)
      (st.map Repository.cacheAccount) :=
    fun m hm k x hx ↦ isEmpty_of_alive (h.sound.accounts m hm k x hx).2
  funext a
  refine Eq.trans ?_ (h.account_eq a)
  exact Table.view_empty_cons accountTable_lawful hfull (fun _ _ _ ↦ rfl) emptyAccount a

theorem shows_open (h : Shows db blocks w st) (block : Block) :
    Shows db (block :: blocks) (Repository.viewOf db ({ block := block } :: st))
      ({ block := block } :: st) := by
  refine ⟨⟨h.sound.accountStore, h.sound.producerStore, ?_, ?_⟩, rfl, ?_⟩
  · intro m hm
    rcases List.mem_cons.mp hm with rfl | hm
    · exact Table.sound_empty
    · exact h.sound.accounts m hm
  · intro m hm
    rcases List.mem_cons.mp hm with rfl | hm
    · exact Table.sound_empty
    · exact h.sound.producers m hm
  · rw [List.map_cons, h.blocks_eq]

theorem viewOf_open_congr {st' : List Repository} (h : Shows db blocks w st)
    (h' : Shows db blocks w st') (block : Block) :
    Repository.viewOf db ({ block := block } :: st') =
      Repository.viewOf db ({ block := block } :: st) := by
  have hlen : st'.length = st.length := by
    rw [← List.length_map (f := Repository.block), h'.blocks_eq, ← h.blocks_eq, List.length_map]
  refine View.ext ?_ ?_
  · rw [openView_account h, openView_account h']
  · refine Table.view_cons_congr ?_ (h'.producer_eq.trans h.producer_eq.symm)
    rw [Bool.eq_iff_iff, List.isEmpty_iff_length_eq_zero, List.isEmpty_iff_length_eq_zero,
      List.length_map, List.length_map, hlen]

end Layers

section Operations

variable (env : Env) {s s' : BlockChain}

theorem onRepo_eq {α : Type} {m : DatabaseController → RepoM α} {r : Except Exception α}
    (h : onRepo m s = (r, s')) :
    ∃ st, m s.dbc (stack s.memoryQueue) = (r, st) ∧
      s' = { s with memoryQueue := unstack s.memoryQueue st } := by
  obtain ⟨rfl, rfl⟩ := Prod.mk.inj h
  exact ⟨_, rfl, rfl⟩

/-- An operation on the repositories that shows `w'` where it was shown `w`. -/
theorem onRepo_shows {α : Type} {m : DatabaseController → RepoM α} {r : Except Exception α}
    {blocks : List Block} {w : View} (h : onRepo m s = (r, s'))
    (hs : Shows s.dbc blocks w (stack s.memoryQueue)) :
    ∃ st, m s.dbc (stack s.memoryQueue) = (r, st) ∧ s'.dbc = s.dbc ∧
      (st.map Repository.block = blocks → stack s'.memoryQueue = st) := by
  obtain ⟨st, hm, rfl⟩ := onRepo_eq h
  refine ⟨st, hm, rfl, fun hblocks ↦ stack_unstack ?_⟩
  rw [← List.length_map (f := Repository.block), hblocks, ← hs.blocks_eq, List.length_map,
    length_stack]

theorem keepsView_isExistInRepo (tx : Transaction) :
    Eff.Keeps KeepsView (isExistInRepo env tx) := by
  refine Eff.Keeps.bind KeepsView.trans ?_ fun _ ↦ Eff.keeps_pure KeepsView.refl _
  refine fun s ↦ ⟨rfl, rfl, fun blocks w hs ↦ ?_⟩
  rcases hrun : onRepo (fun db ↦ Repository.getTransaction env.sha3 db (tx.getHash env.sha3)) s
    with ⟨r, s'⟩
  obtain ⟨st, hm, hdbc, hstack⟩ := onRepo_shows hrun hs
  have hst := Repository.getTransaction_spec hs hm
  dsimp only
  rw [hdbc, hstack hst.blocks_eq]
  exact hst

theorem keepsView_get : Eff.Keeps KeepsView (Eff.get : ChainM BlockChain) := KeepsView.refl

theorem keepsView_ofExcept {α : Type} (x : Except Exception α) :
    Eff.Keeps KeepsView (Eff.ofExcept x : ChainM α) := KeepsView.refl

theorem keepsView_modify {f : BlockChain → BlockChain}
    (haccount : ∀ s, (f s).dbc.accountStore = s.dbc.accountStore)
    (hproducer : ∀ s, (f s).dbc.producerStore = s.dbc.producerStore)
    (hstack : ∀ s, stack (f s).memoryQueue = stack s.memoryQueue) :
    Eff.Keeps KeepsView (Eff.modify f : ChainM Unit) :=
  fun s ↦ KeepsView.of_eq (haccount s) (hproducer s) (hstack s)

theorem keepsView_updateActiveProducers (block : Block) :
    Eff.Keeps KeepsView (updateActiveProducers block) := by
  refine Eff.Keeps.bind KeepsView.trans keepsView_get fun s ↦ ?_
  refine Eff.Keeps.bind KeepsView.trans (keepsView_ofExcept _) fun prevBlock ↦ ?_
  refine Eff.Keeps.bind KeepsView.trans (keepsView_modify ?_ ?_ ?_) fun _ ↦ ?_
  iterate 3 exact fun _ ↦ rfl
  refine Eff.Keeps.bind KeepsView.trans (keepsView_ofExcept _) fun producer ↦ ?_
  exact keepsView_modify (fun _ ↦ rfl) (fun _ ↦ rfl) fun _ ↦ rfl

theorem keepsView_prepareBlock (block : Block) : Eff.Keeps KeepsView (prepareBlock env block) := by
  refine Eff.Keeps.bind KeepsView.trans ?_ fun _ ↦ ?_
  · refine Eff.keeps_forEach KeepsView.refl KeepsView.trans _ fun tx _ ↦ ?_
    refine Eff.Keeps.bind KeepsView.trans (keepsView_isExistInRepo env tx) fun found ↦ ?_
    split
    · exact Eff.keeps_throw KeepsView.refl _
    · exact Eff.keeps_pure KeepsView.refl _
  · refine Eff.Keeps.bind KeepsView.trans (keepsView_updateActiveProducers block) fun _ ↦ ?_
    exact keepsView_modify (fun _ ↦ rfl) (fun _ ↦ rfl) fun _ ↦ rfl

theorem keepsView_updateSchedule (timestamp : Int64) :
    Eff.Keeps KeepsView (updateSchedule env timestamp) := by
  refine Eff.Keeps.bind KeepsView.trans keepsView_get fun s ↦ ?_
  refine Eff.Keeps.bind KeepsView.trans (keepsView_ofExcept _) fun updatedSchedule ↦ ?_
  exact keepsView_modify (fun _ ↦ rfl) (fun _ ↦ rfl) fun _ ↦ rfl

theorem keepsView_reschedule (block : Block) :
    Eff.Keeps KeepsView (reschedule env block) := by
  unfold reschedule
  split
  · refine Eff.Keeps.bind KeepsView.trans (keepsView_updateSchedule env _) fun _ ↦ ?_
    refine Eff.Keeps.bind KeepsView.trans (keepsView_modify ?_ ?_ ?_) fun _ ↦ ?_
    iterate 3 exact fun _ ↦ rfl
    exact keepsView_modify (fun _ ↦ rfl) (fun _ ↦ rfl) fun _ ↦ rfl
  · exact Eff.keeps_pure KeepsView.refl _

theorem keepsView_sendConfirmation (block : Block) :
    Eff.Keeps KeepsView (Eff.modify (sendConfirmation env block) : ChainM Unit) := by
  refine keepsView_modify ?_ ?_ ?_ <;> intro s <;> unfold sendConfirmation <;> split <;> rfl

/-- The view of the new repository is not changed by what comes before it. -/
theorem KeepsView.openView_eq {blocks : List Block} {w : View} (hkeeps : KeepsView s s')
    (h : Shows s.dbc blocks w (stack s.memoryQueue)) (block : Block) :
    openView block s' = openView block s := by
  have h' := hkeeps.shows blocks w h
  unfold openView
  rw [viewOf_congr hkeeps.accountStore_eq hkeeps.producerStore_eq]
  exact viewOf_open_congr h
    (shows_congr hkeeps.accountStore_eq.symm hkeeps.producerStore_eq.symm h') block

end Operations

end GseNetwork.Chain.BlockChain
