import GseNetwork.Storage.Repository

namespace GseNetwork.Storage

open GseNetwork.Core GseNetwork.Foundation GseNetwork.Foundation.ReadThrough
open Std (ExtTreeMap)

def erase (x : Account) : Account := { x with contractAddresses := [] }

@[simp] theorem erase_isEmpty (x : Account) : (erase x).isEmpty = x.isEmpty := rfl
@[simp] theorem erase_address (x : Account) : (erase x).address = x.address := rfl
@[simp] theorem erase_balance (x : Account) : (erase x).balance = x.balance := rfl
@[simp] theorem erase_votes (x : Account) : (erase x).votes = x.votes := rfl
@[simp] theorem erase_candidates (x : Account) : (erase x).candidates = x.candidates := rfl
@[simp] theorem erase_erase (x : Account) : erase (erase x) = erase x := rfl

@[ext] structure View where
  account : Address → Except Exception Account
  producer : Address → Except Exception Producer

namespace View

def putAccount (w : View) (x : Account) : View :=
  { w with account := Function.update w.account x.address (.ok (erase x)) }

def putProducer (w : View) (p : Producer) : View :=
  { w with producer := Function.update w.producer p.address (.ok p) }

@[simp] theorem putAccount_producer (w : View) (x : Account) :
    (w.putAccount x).producer = w.producer := rfl

@[simp] theorem putProducer_account (w : View) (p : Producer) :
    (w.putProducer p).account = w.account := rfl

theorem putAccount_account (w : View) (x : Account) (a : Address) :
    (w.putAccount x).account a = if a = x.address then .ok (erase x) else w.account a :=
  Function.update_apply w.account x.address _ a

theorem putProducer_producer (w : View) (p : Producer) (a : Address) :
    (w.putProducer p).producer a = if a = p.address then .ok p else w.producer a :=
  Function.update_apply w.producer p.address _ a

theorem putAccount_putAccount (w : View) {x y : Account} (h : x.address = y.address) :
    (w.putAccount x).putAccount y = w.putAccount y := by
  simp only [putAccount, h, Function.update_idem]

end View

@[simp] theorem accountTable_key (x : Account) : accountTable.key x = x.address := rfl

theorem accountTable_lawful : accountTable.Lawful where
  key_assign _ _ := rfl
  isEmpty_assign _ _ := rfl
  assign_assign _ _ _ := rfl
  isEmpty_missing _ h := h

theorem producerTable_lawful : producerTable.Lawful where
  key_assign _ _ := rfl
  isEmpty_assign _ _ := rfl
  assign_assign _ _ _ := rfl
  isEmpty_missing _ _ := rfl

theorem transactionTable_lawful (sha3 : Bytes → H256) : (transactionTable sha3).Lawful where
  key_assign _ _ := rfl
  isEmpty_assign _ _ := rfl
  assign_assign _ _ _ := rfl
  isEmpty_missing _ _ := by simp [transactionTable, Transaction.equal]

section SingleStores

variable {db : DatabaseController} {k : Address}

theorem getAccount_single {x : Account}
    (h : db.accountStore = ExtTreeMap.insert ∅ k (.ok x)) (a : Address) :
    db.getAccount a = .ok (if a = k then x else emptyAccount) := by
  rw [DatabaseController.getAccount, h, ExtTreeMap.getD_eq_getD_getElem?, getElem?_insert]
  by_cases ha : k = a
  · simp [ha]
  · simp [ha, Ne.symm ha]

theorem getProducer_single {p : Producer}
    (h : db.producerStore = ExtTreeMap.insert ∅ k (.ok p)) (a : Address) :
    db.getProducer a = .ok (if a = k then p else emptyProducer) := by
  rw [DatabaseController.getProducer, h, ExtTreeMap.getD_eq_getD_getElem?, getElem?_insert]
  by_cases ha : k = a
  · simp [ha]
  · simp [ha, Ne.symm ha]

theorem soundStore_single {x : Account}
    (h : db.accountStore = ExtTreeMap.insert ∅ k (.ok x)) (hx : x.address = k)
    (halive : x.alive = true) : ∀ a y, db.getAccount a = .ok y → y.isEmpty = false →
      y.address = a ∧ y.alive = true := by
  intro a y hy hne
  rw [getAccount_single h, Except.ok.injEq] at hy
  split at hy
  · next ha => exact hy ▸ ⟨hx.trans ha.symm, halive⟩
  · subst hy
    contradiction

end SingleStores

/-- Accounts are kept under their own addresses, and every account is alive: the constructor
sets the flag, and nothing clears it. -/
def AccountSound (a : Address) (x : Account) : Prop := x.address = a ∧ x.alive = true

def ProducerSound (a : Address) (p : Producer) : Prop := p.address = a

theorem accountTable_stable : accountTable.Stable AccountSound :=
  ⟨fun _ _ h ↦ h.1, fun _ _ _ h ↦ h⟩

theorem producerTable_stable : producerTable.Stable ProducerSound :=
  ⟨fun _ _ h ↦ h, fun _ _ _ h ↦ h⟩

theorem isEmpty_of_alive {x : Account} (h : x.alive = true) : x.isEmpty = false := by
  simp [Account.isEmpty, Account.equal, h, emptyAccount]

namespace Repository

variable {db : DatabaseController}

def accountView (db : DatabaseController) (stack : List Repository) (address : Address) :
    Except Exception Account :=
  accountTable.view db.getAccount (stack.map cacheAccount) address

def producerView (db : DatabaseController) (stack : List Repository) (address : Address) :
    Except Exception Producer :=
  producerTable.view db.getProducer (stack.map cacheProducer) address

def viewOf (db : DatabaseController) (stack : List Repository) : View where
  account a := (accountView db stack a).map erase
  producer := producerView db stack

structure Sound (db : DatabaseController) (stack : List Repository) : Prop where
  accountStore : accountTable.SoundStore db.getAccount AccountSound
  producerStore : producerTable.SoundStore db.getProducer ProducerSound
  accounts : Table.SoundStack AccountSound (stack.map cacheAccount)
  producers : Table.SoundStack ProducerSound (stack.map cacheProducer)

/-- A sound stack of repositories for the given blocks that shows `w`. -/
structure Shows (db : DatabaseController) (blocks : List Block) (w : View)
    (stack : List Repository) : Prop where
  sound : Sound db stack
  view_eq : viewOf db stack = w
  blocks_eq : stack.map block = blocks

section ZipWith

variable {α β γ δ : Type}

theorem map_zipWith_right {g : α → β → γ} {f : γ → β} (h : ∀ a b, f (g a b) = b) {l : List α}
    {m : List β} (hlen : m.length = l.length) : (List.zipWith g l m).map f = m := by
  induction l generalizing m with
  | nil => cases m <;> simp_all
  | cons a l ih =>
    cases m with
    | nil => simp at hlen
    | cons b m => simp [h, ih (by simpa using hlen)]

theorem map_zipWith_left {g : α → β → γ} {f : γ → δ} {p : α → δ} (h : ∀ a b, f (g a b) = p a)
    {l : List α} {m : List β} (hlen : m.length = l.length) :
    (List.zipWith g l m).map f = l.map p := by
  induction l generalizing m with
  | nil => cases m <;> simp_all
  | cons a l ih =>
    cases m with
    | nil => simp at hlen
    | cons b m => simp [h, ih (by simpa using hlen)]

end ZipWith

section SetCaches

variable {stack : List Repository}

theorem map_setAccounts {caches : List (ExtTreeMap Address Account)}
    (h : caches.length = stack.length) :
    (setAccounts stack caches).map cacheAccount = caches ∧
      (setAccounts stack caches).map cacheProducer = stack.map cacheProducer ∧
      (setAccounts stack caches).map cacheTransaction = stack.map cacheTransaction ∧
      (setAccounts stack caches).map block = stack.map block := by
  unfold setAccounts
  refine ⟨map_zipWith_right ?_ h, map_zipWith_left ?_ h, map_zipWith_left ?_ h,
    map_zipWith_left ?_ h⟩ <;> exact fun _ _ ↦ rfl

theorem map_setProducers {caches : List (ExtTreeMap Address Producer)}
    (h : caches.length = stack.length) :
    (setProducers stack caches).map cacheAccount = stack.map cacheAccount ∧
      (setProducers stack caches).map cacheProducer = caches ∧
      (setProducers stack caches).map cacheTransaction = stack.map cacheTransaction ∧
      (setProducers stack caches).map block = stack.map block := by
  unfold setProducers
  refine ⟨map_zipWith_left ?_ h, map_zipWith_right ?_ h, map_zipWith_left ?_ h,
    map_zipWith_left ?_ h⟩ <;> exact fun _ _ ↦ rfl

theorem map_setTransactions {caches : List (ExtTreeMap TxID Transaction)}
    (h : caches.length = stack.length) :
    (setTransactions stack caches).map cacheAccount = stack.map cacheAccount ∧
      (setTransactions stack caches).map cacheProducer = stack.map cacheProducer ∧
      (setTransactions stack caches).map cacheTransaction = caches ∧
      (setTransactions stack caches).map block = stack.map block := by
  unfold setTransactions
  refine ⟨map_zipWith_left ?_ h, map_zipWith_left ?_ h, map_zipWith_right ?_ h,
    map_zipWith_left ?_ h⟩ <;> exact fun _ _ ↦ rfl

end SetCaches

section Specs

variable {blocks : List Block} {b : Block} {w w' : View} {stack stack' : List Repository}

theorem Shows.of_maps (h : Shows db blocks w stack)
    (haccounts : Table.SoundStack AccountSound (stack'.map cacheAccount))
    (hproducers : Table.SoundStack ProducerSound (stack'.map cacheProducer))
    (haccount : ∀ a, (accountTable.view db.getAccount (stack'.map cacheAccount) a).map erase =
      w'.account a)
    (hproducer : producerTable.view db.getProducer (stack'.map cacheProducer) = w'.producer)
    (hblock : stack'.map block = stack.map block) : Shows db blocks w' stack' where
  sound := ⟨h.sound.accountStore, h.sound.producerStore, haccounts, hproducers⟩
  view_eq := View.ext (funext haccount) hproducer
  blocks_eq := hblock.trans h.blocks_eq

theorem Shows.account_eq (h : Shows db blocks w stack) (a : Address) :
    (accountTable.view db.getAccount (stack.map cacheAccount) a).map erase = w.account a := by
  rw [← h.view_eq]
  rfl

theorem Shows.producer_eq (h : Shows db blocks w stack) :
    producerTable.view db.getProducer (stack.map cacheProducer) = w.producer := by
  rw [← h.view_eq]
  rfl

theorem getAccount_spec (h : Shows db blocks w stack) {a : Address} {r : Except Exception Account}
    (hget : getAccount db a stack = (r, stack')) :
    Shows db blocks w stack' ∧ r.map erase = w.account a ∧
      ∀ x, r = .ok x → x.isEmpty = false → AccountSound a x := by
  obtain ⟨rfl, rfl⟩ := Prod.mk.inj hget
  have hlen : (accountTable.get db.getAccount (stack.map cacheAccount) a).2.length =
      stack.length := by
    rw [Table.length_get, List.length_map]
  obtain ⟨haccount, hproducer, -, hblock⟩ := map_setAccounts hlen
  have hview := Table.view_get accountTable_lawful accountTable_stable h.sound.accountStore
    h.sound.accounts a
  refine ⟨h.of_maps ?_ ?_ ?_ ?_ hblock, h.account_eq a, fun x hx hempty ↦
    Table.sound_of_view accountTable_lawful accountTable_stable h.sound.accountStore
      h.sound.accounts hx hempty⟩
  · rw [haccount]
    exact h.sound.accounts.get accountTable_lawful accountTable_stable h.sound.accountStore a
  · rw [hproducer]
    exact h.sound.producers
  · rw [haccount, hview]
    exact h.account_eq
  · rw [hproducer]
    exact h.producer_eq

theorem getProducer_spec (h : Shows db blocks w stack) {a : Address}
    {r : Except Exception Producer} (hget : getProducer db a stack = (r, stack')) :
    Shows db blocks w stack' ∧ r = w.producer a ∧
      ∀ p, r = .ok p → p.isEmpty = false → p.address = a := by
  obtain ⟨rfl, rfl⟩ := Prod.mk.inj hget
  have hlen : (producerTable.get db.getProducer (stack.map cacheProducer) a).2.length =
      stack.length := by
    rw [Table.length_get, List.length_map]
  obtain ⟨haccount, hproducer, -, hblock⟩ := map_setProducers hlen
  have hview := Table.view_get producerTable_lawful producerTable_stable h.sound.producerStore
    h.sound.producers a
  refine ⟨h.of_maps ?_ ?_ ?_ ?_ hblock, congrFun h.producer_eq a, fun p hp hempty ↦
    Table.sound_of_view producerTable_lawful producerTable_stable h.sound.producerStore
      h.sound.producers hp hempty⟩
  · rw [haccount]
    exact h.sound.accounts
  · rw [hproducer]
    exact h.sound.producers.get producerTable_lawful producerTable_stable h.sound.producerStore a
  · rw [haccount]
    exact h.account_eq
  · rw [hproducer, hview]
    exact h.producer_eq

theorem Shows.exists_cons (h : Shows db (b :: blocks) w stack) :
    ∃ top rest, stack = top :: rest ∧ top.block = b := by
  have hb := h.blocks_eq
  cases stack with
  | nil => simp at hb
  | cons top rest => exact ⟨top, rest, rfl, (List.cons.inj hb).1⟩

theorem putAccount_spec (h : Shows db (b :: blocks) w stack) {x : Account}
    {r : Except Exception Unit} (hput : putAccount x stack = (r, stack'))
    (halive : x.alive = true) :
    Shows db (b :: blocks) (w.putAccount x) stack' := by
  obtain ⟨top, rest, rfl, -⟩ := h.exists_cons
  obtain ⟨-, rfl⟩ := Prod.mk.inj hput
  have hlen : (accountTable.putTop x (List.map cacheAccount (top :: rest))).length =
      (top :: rest).length := by
    simp [Table.putTop]
  obtain ⟨haccount, hproducer, -, hblock⟩ := map_setAccounts hlen
  refine h.of_maps ?_ ?_ ?_ ?_ hblock
  · rw [haccount]
    exact h.sound.accounts.putTop accountTable_stable ⟨rfl, halive⟩
  · rw [hproducer]
    exact h.sound.producers
  · intro a
    have hold := h.account_eq a
    rw [haccount, List.map_cons, Table.putTop, Table.view_put, View.putAccount_account,
      Function.update_apply, accountTable_key]
    by_cases ha : a = x.address
    · rw [if_pos ha, if_pos ha]
      exact congrArg Except.ok
        (Table.assign_written accountTable_lawful top.cacheAccount emptyAccount x)
    · rw [if_neg ha, if_neg ha]
      exact hold
  · rw [hproducer]
    exact h.producer_eq

theorem putProducer_spec (h : Shows db (b :: blocks) w stack) {p : Producer}
    {r : Except Exception Unit} (hput : putProducer p stack = (r, stack')) :
    Shows db (b :: blocks) (w.putProducer p) stack' := by
  obtain ⟨top, rest, rfl, -⟩ := h.exists_cons
  obtain ⟨-, rfl⟩ := Prod.mk.inj hput
  have hlen : (producerTable.putTop p (List.map cacheProducer (top :: rest))).length =
      (top :: rest).length := by
    simp [Table.putTop]
  obtain ⟨haccount, hproducer, -, hblock⟩ := map_setProducers hlen
  refine h.of_maps ?_ ?_ ?_ ?_ hblock
  · rw [haccount]
    exact h.sound.accounts
  · rw [hproducer]
    exact h.sound.producers.putTop producerTable_stable rfl
  · rw [haccount]
    exact h.account_eq
  · have hwritten : producerTable.written top.cacheProducer p = p :=
      Table.assign_written producerTable_lawful top.cacheProducer emptyProducer p
    rw [hproducer, List.map_cons, Table.putTop, Table.view_put, ← List.map_cons, h.producer_eq,
      hwritten]
    rfl

theorem Shows.setTransactions (h : Shows db blocks w stack)
    {caches : List (ExtTreeMap TxID Transaction)} (hlen : caches.length = stack.length) :
    Shows db blocks w (setTransactions stack caches) := by
  obtain ⟨haccount, hproducer, -, hblock⟩ := map_setTransactions hlen
  refine h.of_maps ?_ ?_ ?_ ?_ hblock
  · rw [haccount]
    exact h.sound.accounts
  · rw [hproducer]
    exact h.sound.producers
  · rw [haccount]
    exact h.account_eq
  · rw [hproducer]
    exact h.producer_eq

theorem putTransaction_spec (h : Shows db blocks w stack) {sha3 : Bytes → H256} {tx : Transaction}
    {r : Except Exception Unit} (hput : putTransaction sha3 tx stack = (r, stack')) :
    Shows db blocks w stack' := by
  obtain ⟨-, rfl⟩ := Prod.mk.inj hput
  refine h.setTransactions ?_
  cases stack <;> simp [Table.putTop]

theorem getTransaction_spec (h : Shows db blocks w stack) {sha3 : Bytes → H256} {id : TxID}
    {r : Except Exception Transaction} (hget : getTransaction sha3 db id stack = (r, stack')) :
    Shows db blocks w stack' := by
  obtain ⟨-, rfl⟩ := Prod.mk.inj hget
  refine h.setTransactions ?_
  rw [Table.length_get, List.length_map]

theorem blockTimestamp_spec (h : Shows db (b :: blocks) w stack) :
    blockTimestamp stack = (.ok b.getTimestamp, stack) := by
  obtain ⟨top, rest, rfl, rfl⟩ := h.exists_cons
  rfl

end Specs

end Repository

end GseNetwork.Storage
