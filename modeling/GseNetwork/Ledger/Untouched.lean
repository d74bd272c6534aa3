import GseNetwork.Ledger.Effects

namespace GseNetwork.Ledger

open GseNetwork.Core GseNetwork.Foundation GseNetwork.Foundation.ReadThrough GseNetwork.Storage
open Repository (accountView producerView)
open Std (ExtTreeMap)

/-- A producer is kept under its own address, and one that compares equal to `EmptyProducer`
never had a voter. -/
def ProducerKept (a : Address) (p : Producer) : Prop :=
  p.address = a ∧ (p.isEmpty = true → p.voters = ∅)

theorem producerKept_stable : producerTable.Stable ProducerKept :=
  ⟨fun _ _ h ↦ h.1, fun _ _ _ h ↦ h⟩

/-- Every record of the database and of the caches is one that the constructors and the
operations make. -/
structure Records (db : DatabaseController) (stack : List Repository) : Prop where
  accountStore : ∀ a x, db.getAccount a = .ok x → AccountSound a x ∨ x = emptyAccount
  producerStore : ∀ q p, db.getProducer q = .ok p → ProducerKept q p ∨ p = emptyProducer
  accounts : Table.SoundStack AccountSound (stack.map Repository.cacheAccount)
  producers : Table.SoundStack ProducerKept (stack.map Repository.cacheProducer)

variable {db : DatabaseController} {stack stack' : List Repository}

theorem Records.soundAccounts (h : Records db stack) :
    accountTable.SoundStore db.getAccount AccountSound := by
  intro a x hx hempty
  rcases h.accountStore a x hx with hsound | rfl
  · exact hsound
  · contradiction

theorem Records.keptProducers (h : Records db stack) :
    producerTable.SoundStore db.getProducer ProducerKept := by
  intro q p hp hempty
  rcases h.producerStore q p hp with hkept | rfl
  · exact hkept
  · contradiction

theorem Records.sound (h : Records db stack) : Repository.Sound db stack where
  accountStore := h.soundAccounts
  producerStore a p hp hempty := (h.keptProducers a p hp hempty).1
  accounts := h.accounts
  producers m hm a p hp := (h.producers m hm a p hp).1

theorem Records.shows (h : Records db stack) :
    Repository.Shows db (stack.map Repository.block) (Repository.viewOf db stack) stack :=
  ⟨h.sound, rfl, rfl⟩

theorem Records.votes_empty (h : Records db stack) {a : Address} {x : Account}
    (hx : accountView db stack a = .ok x) (hempty : x.isEmpty = true) :
    x.votes = 0 ∧ x.candidates = ∅ := by
  let F (x : Account) : Prop := x.isEmpty = true → x.votes = 0 ∧ x.candidates = ∅
  have halive {x : Account} (hx : x.alive = true) : F x := by
    intro hempty
    rw [isEmpty_of_alive hx] at hempty
    contradiction
  refine Table.forall_view (F := F) (fun _ _ h ↦ h) (fun _ h ↦ h) ?_ ?_ hx hempty
  · intro k v hv
    rcases h.accountStore k v hv with hsound | rfl
    · exact halive hsound.2
    · exact fun _ ↦ ⟨rfl, rfl⟩
  · exact fun m hm k v hv ↦ halive (h.accounts m hm k v hv).2

theorem Records.voters_empty (h : Records db stack) {q : Address} {p : Producer}
    (hp : producerView db stack q = .ok p) (hempty : p.isEmpty = true) : p.voters = ∅ := by
  refine Table.forall_view (F := fun p : Producer ↦ p.isEmpty = true → p.voters = ∅)
    (fun _ _ h ↦ h) (fun _ _ _ ↦ rfl) ?_ ?_ hp hempty
  · intro k v hv
    rcases h.producerStore k v hv with hkept | rfl
    · exact hkept.2
    · exact fun _ ↦ rfl
  · exact fun m hm k v hv ↦ (h.producers m hm k v hv).2

/-- The accounts outside `A` and the producers outside `P` are read as they were, and so are
the votes of everyone but `voter` in every producer. -/
structure Untouched (db : DatabaseController) (stack : List Repository) (A P : Set Address)
    (voter : Address) (stack' : List Repository) : Prop where
  records : Records db stack'
  account_eq : ∀ a ∉ A, accountView db stack' a = accountView db stack a
  producer_eq : ∀ q ∉ P, producerView db stack' q = producerView db stack q
  voters_eq : ∀ q a, a ≠ voter →
    (producerView db stack' q).map (fun p ↦ p.voters[a]?) =
      (producerView db stack q).map (fun p ↦ p.voters[a]?)

theorem eraseVoter_voters_of_ne (p : Producer) {voter a : Address} (ha : a ≠ voter) :
    (p.eraseVoter voter).voters[a]? = p.voters[a]? := by
  unfold Producer.eraseVoter
  split
  · rw [getElem?_erase, if_neg (Ne.symm ha)]
  · rfl

namespace Untouched

variable {A P : Set Address} {voter : Address}

theorem refl (h : Records db stack) (A P : Set Address) (voter : Address) :
    Untouched db stack A P voter stack :=
  ⟨h, fun _ _ ↦ rfl, fun _ _ ↦ rfl, fun _ _ _ ↦ rfl⟩

/-- Operations that change neither what is read nor the shape of the records. -/
theorem of_views (h : Untouched db stack A P voter stack') {stack'' : List Repository}
    (hrecords : Records db stack'') (haccount : accountView db stack'' = accountView db stack')
    (hproducer : producerView db stack'' = producerView db stack') :
    Untouched db stack A P voter stack'' where
  records := hrecords
  account_eq a ha := (congrFun haccount a).trans (h.account_eq a ha)
  producer_eq q hq := (congrFun hproducer q).trans (h.producer_eq q hq)
  voters_eq q a ha := by rw [hproducer]; exact h.voters_eq q a ha

/-- What reading the producer `q` says about the votes that it had. -/
structure Reads (db : DatabaseController) (stack : List Repository) (voter q : Address)
    (p : Producer) : Prop where
  address_eq : p.isEmpty = false → p.address = q
  voters_empty : p.isEmpty = true → p.voters = ∅
  voters_eq : ∀ a, a ≠ voter →
    (producerView db stack q).map (fun p ↦ p.voters[a]?) = .ok (p.voters[a]?)

theorem getAccount (a : Address) :
    Eff.Ensures (Untouched db stack A P voter) (Repository.getAccount db a) fun x ↦
      x.isEmpty = false → AccountSound a x := by
  intro st x st' h hget
  have hrecords := h.records
  obtain ⟨-, -, hsound⟩ := Repository.getAccount_spec hrecords.shows hget
  obtain ⟨-, rfl⟩ := Prod.mk.inj hget
  have hlen : (accountTable.get db.getAccount (st.map Repository.cacheAccount) a).2.length =
      st.length := by
    rw [Table.length_get, List.length_map]
  obtain ⟨haccount, hproducer, -, -⟩ := Repository.map_setAccounts hlen
  refine ⟨h.of_views ⟨hrecords.accountStore, hrecords.producerStore, ?_, ?_⟩ ?_ ?_, hsound x rfl⟩
  · rw [haccount]
    exact hrecords.accounts.get accountTable_lawful accountTable_stable hrecords.soundAccounts a
  · rw [hproducer]
    exact hrecords.producers
  · funext c
    unfold accountView
    rw [haccount, Table.view_get accountTable_lawful accountTable_stable hrecords.soundAccounts
      hrecords.accounts]
  · funext q
    unfold producerView
    rw [hproducer]

theorem getProducer (q : Address) :
    Eff.Ensures (Untouched db stack A P voter) (Repository.getProducer db q)
      (Reads db stack voter q) := by
  intro st p st' h hget
  have hrecords := h.records
  obtain ⟨-, -, haddress⟩ := Repository.getProducer_spec hrecords.shows hget
  obtain ⟨hp, rfl⟩ := Prod.mk.inj hget
  have hview : producerView db st q = .ok p := hp
  have hlen : (producerTable.get db.getProducer (st.map Repository.cacheProducer) q).2.length =
      st.length := by
    rw [Table.length_get, List.length_map]
  obtain ⟨haccount, hproducer, -, -⟩ := Repository.map_setProducers hlen
  refine ⟨h.of_views ⟨hrecords.accountStore, hrecords.producerStore, ?_, ?_⟩ ?_ ?_,
    haddress p rfl, hrecords.voters_empty hview, ?_⟩
  · rw [haccount]
    exact hrecords.accounts
  · rw [hproducer]
    exact hrecords.producers.get producerTable_lawful producerKept_stable hrecords.keptProducers q
  · funext c
    unfold accountView
    rw [haccount]
  · funext c
    unfold producerView
    rw [hproducer, Table.view_get producerTable_lawful producerKept_stable hrecords.keptProducers
      hrecords.producers]
  · intro a ha
    rw [← h.voters_eq q a ha, hview]
    rfl

theorem putAccount {x : Account} (halive : x.alive = true) (hA : x.address ∈ A) :
    Eff.Ensures (Untouched db stack A P voter) (Repository.putAccount x) fun _ ↦ True := by
  intro st _ st' h hput
  have hrecords := h.records
  obtain ⟨-, rfl⟩ := Prod.mk.inj hput
  have hlen : (accountTable.putTop x (st.map Repository.cacheAccount)).length = st.length := by
    cases st <;> simp [Table.putTop]
  obtain ⟨haccount, hproducer, -, -⟩ := Repository.map_setAccounts hlen
  have hviews : producerView db (Repository.setAccounts st
      (accountTable.putTop x (st.map Repository.cacheAccount))) = producerView db st := by
    funext q
    unfold producerView
    rw [hproducer]
  refine ⟨⟨⟨hrecords.accountStore, hrecords.producerStore, ?_, ?_⟩, ?_, ?_, ?_⟩, trivial⟩
  · rw [haccount]
    exact hrecords.accounts.putTop accountTable_stable ⟨rfl, halive⟩
  · rw [hproducer]
    exact hrecords.producers
  · intro a ha
    have hne : a ≠ x.address := fun heq ↦ ha (heq ▸ hA)
    refine Eq.trans ?_ (h.account_eq a ha)
    unfold accountView
    rw [haccount]
    cases st with
    | nil => rfl
    | cons top rest =>
      rw [List.map_cons, Table.putTop, Table.view_put]
      exact Function.update_of_ne hne _ _
  · intro q hq
    rw [hviews]
    exact h.producer_eq q hq
  · intro q a ha
    rw [hviews]
    exact h.voters_eq q a ha

theorem putProducer {p : Producer} (hempty : p.isEmpty = true → p.voters = ∅)
    (hP : p.address ∈ P)
    (hvoters : ∀ a, a ≠ voter →
      (producerView db stack p.address).map (fun p ↦ p.voters[a]?) = .ok (p.voters[a]?)) :
    Eff.Ensures (Untouched db stack A P voter) (Repository.putProducer p) fun _ ↦ True := by
  intro st _ st' h hput
  have hrecords := h.records
  obtain ⟨-, rfl⟩ := Prod.mk.inj hput
  have hlen : (producerTable.putTop p (st.map Repository.cacheProducer)).length =
      st.length := by
    cases st <;> simp [Table.putTop]
  obtain ⟨haccount, hproducer, -, -⟩ := Repository.map_setProducers hlen
  have hother : ∀ q, q ≠ p.address →
      producerView db (Repository.setProducers st
        (producerTable.putTop p (st.map Repository.cacheProducer))) q = producerView db st q := by
    intro q hq
    unfold producerView
    rw [hproducer]
    cases st with
    | nil => rfl
    | cons top rest =>
      rw [List.map_cons, Table.putTop, Table.view_put]
      exact Function.update_of_ne hq _ _
  refine ⟨⟨⟨hrecords.accountStore, hrecords.producerStore, ?_, ?_⟩, ?_, ?_, ?_⟩, trivial⟩
  · rw [haccount]
    exact hrecords.accounts
  · rw [hproducer]
    exact hrecords.producers.putTop producerKept_stable ⟨rfl, hempty⟩
  · intro a ha
    refine Eq.trans ?_ (h.account_eq a ha)
    unfold accountView
    rw [haccount]
  · intro q hq
    have hne : q ≠ p.address := fun heq ↦ hq (heq ▸ hP)
    exact (hother q hne).trans (h.producer_eq q hq)
  · intro q a ha
    by_cases hq : q = p.address
    · subst hq
      cases st with
      | nil => exact h.voters_eq _ a ha
      | cons top rest =>
        have hwritten : producerTable.written top.cacheProducer p = p :=
          Table.assign_written producerTable_lawful top.cacheProducer emptyProducer p
        rw [hvoters a ha]
        unfold producerView
        rw [hproducer, List.map_cons, Table.putTop, Table.view_put, hwritten]
        have hself := Function.update_self p.address (Except.ok p)
          (producerTable.view db.getProducer
            (top.cacheProducer :: rest.map Repository.cacheProducer))
        exact congrArg (Except.map fun p : Producer ↦ p.voters[a]?) hself
    · rw [hother q hq]
      exact h.voters_eq q a ha

theorem blockTimestamp :
    Eff.Ensures (Untouched db stack A P voter) Repository.blockTimestamp fun _ ↦ True := by
  intro st timestamp st' h hget
  obtain ⟨-, rfl⟩ := Prod.mk.inj hget
  exact ⟨h, trivial⟩

theorem burn {a : Address} (hA : a ∈ A) (value : UInt64) :
    Eff.Ensures (Untouched db stack A P voter) (Repository.burn db a value) fun _ ↦ True := by
  refine (getAccount a).bind fun x hx ↦ ?_
  split
  · exact Eff.ensures_throw _
  · next hempty =>
    obtain ⟨haddress, halive⟩ := hx (by simpa using hempty)
    split
    · exact Eff.ensures_throw _
    · exact putAccount halive (haddress ▸ hA)

theorem transfer {sender recipient : Address} (hsender : sender ∈ A) (hrecipient : recipient ∈ A)
    (value : UInt64) :
    Eff.Ensures (Untouched db stack A P voter) (Repository.transfer db sender recipient value)
      fun _ ↦ True := by
  refine (getAccount sender).bind fun x hx ↦ (getAccount recipient).bind fun y hy ↦ ?_
  split
  · exact Eff.ensures_throw _
  · next hempty =>
    obtain ⟨hx, hxalive⟩ := hx (by simpa using hempty)
    refine blockTimestamp.bind fun timestamp _ ↦ ?_
    have htarget : AccountSound recipient
        (if y.isEmpty then y.assign (Account.new recipient 0 timestamp) else y) := by
      split
      · exact ⟨rfl, rfl⟩
      · next hnew => exact hy (by simpa using hnew)
    dsimp only
    generalize (if y.isEmpty then y.assign (Account.new recipient 0 timestamp) else y) = z
      at htarget ⊢
    obtain ⟨rfl, hzalive⟩ := htarget
    split
    · exact Eff.ensures_throw _
    · refine Eff.Ensures.bind (putAccount ?_ ?_) fun _ _ ↦ putAccount ?_ ?_
      · exact hxalive
      · exact hx.symm ▸ hsender
      · exact hzalive
      · exact hrecipient

theorem eraseVoter {q : Address} {p : Producer} (hp : Reads db stack voter q p)
    (hempty : p.isEmpty = false) (hP : q ∈ P) :
    Eff.Ensures (Untouched db stack A P voter) (Repository.putProducer (p.eraseVoter voter))
      fun _ ↦ True := by
  have haddress : (p.eraseVoter voter).address = q :=
    (eraseVoter_address p voter).trans (hp.address_eq hempty)
  refine putProducer ?_ (haddress ▸ hP) ?_
  · intro h
    rw [eraseVoter_isEmpty, hempty] at h
    contradiction
  · intro a ha
    rw [haddress, hp.voters_eq a ha, eraseVoter_voters_of_ne p ha]

theorem addVoter {q : Address} {p : Producer} (hp : Reads db stack voter q p)
    (hempty : p.isEmpty = false) (hP : q ∈ P) (value : UInt64) :
    Eff.Ensures (Untouched db stack A P voter)
      (Repository.putProducer (p.addVoter voter value)) fun _ ↦ True := by
  have haddress : (p.addVoter voter value).address = q := hp.address_eq hempty
  refine putProducer ?_ (haddress ▸ hP) ?_
  · intro h
    have hsame : (p.addVoter voter value).isEmpty = p.isEmpty := rfl
    rw [hsame, hempty] at h
    contradiction
  · intro a ha
    rw [haddress, hp.voters_eq a ha, Producer.addVoter, getElem?_insert, if_neg (Ne.symm ha)]

theorem clearVote {A P : Set Address} {sender : Address} (hrecords : Records db stack)
    (hA : sender ∈ A)
    (hP : ∀ x, accountView db stack sender = .ok x → ∀ q ∈ x.candidates, q ∈ P)
    (hrun : Repository.clearVote db sender stack = (.ok (), stack')) :
    Untouched db stack A P sender stack' := by
  obtain ⟨x, t, hget, hrest⟩ := Eff.bind_eq_ok.mp hrun
  obtain ⟨ht, hx⟩ := getAccount sender stack x t (refl hrecords A P sender) hget
  have hview : accountView db stack sender = .ok x := congrArg Prod.fst hget
  split at hrest
  · simp at hrest
  · next hempty =>
    obtain ⟨haddress, halive⟩ := hx (by simpa using hempty)
    have hlast : Eff.Ensures (Untouched db stack A P sender)
        (Repository.putAccount x.clearVote) fun _ ↦ True :=
      putAccount halive (show x.address ∈ A from haddress ▸ hA)
    refine (Eff.Ensures.bind (Eff.ensures_forEach ?_) (fun _ _ ↦ hlast) t () stack' ht hrest).1
    intro i hi
    refine (getProducer i.1).bind fun p hp ↦ ?_
    have hmem : i.1 ∈ P := by
      have hi := ExtTreeMap.mem_toList_iff_getElem?_eq_some.mp hi
      exact hP x hview i.1 (ExtTreeMap.mem_iff_isSome_getElem?.mpr (by simp [hi]))
    split
    · exact Eff.ensures_throw _
    · next hproducer => exact eraseVoter hp (by simpa using hproducer) hmem

theorem voteIncrease {candidate : Address} (hA : voter ∈ A) (hP : candidate ∈ P)
    (value : UInt64) :
    Eff.Ensures (Untouched db stack A P voter)
      (Repository.voteIncrease db voter candidate value) fun _ ↦ True := by
  refine (getAccount voter).bind fun x hx ↦ ?_
  split
  · exact Eff.ensures_throw _
  · next hempty =>
    obtain ⟨hx, halive⟩ := hx (by simpa using hempty)
    refine (getProducer candidate).bind fun p hp ↦ ?_
    split
    · exact Eff.ensures_throw _
    · next hproducer =>
      split
      · exact Eff.ensures_throw _
      · refine Eff.Ensures.bind (putAccount ?_ ?_) fun _ _ ↦
          addVoter hp (by simpa using hproducer) hP value
        · exact halive
        · exact hx.symm ▸ hA

end Untouched

end GseNetwork.Ledger
