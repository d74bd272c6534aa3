import GseNetwork.Foundation.Interleaving
import GseNetwork.Storage.Views

namespace GseNetwork.Storage

open GseNetwork.Core GseNetwork.Foundation GseNetwork.Foundation.ReadThrough
open GseNetwork.Foundation.Interleaving
open Std (ExtTreeMap)

/-- The caches of a repository and of those below it, while one thread (`none`) executes a block
on it and the threads `ι` read through it. Each kind of entity has its own mutex. -/
structure Shared (ι : Type) where
  accounts : State ι Address Account Exception
  producers : State ι Address Producer Exception
  transactions : State ι TxID Transaction Exception

inductive SharedEvent (ι : Type) where
  | account (e : Event ι Address Account)
  | producer (e : Event ι Address Producer)
  | transaction (e : Event ι TxID Transaction)

namespace Shared

variable {ι : Type} [DecidableEq ι] (sha3 : Bytes → H256) (db : DatabaseController)

def start (stack : List Repository) : Shared ι where
  accounts := { caches := stack.map Repository.cacheAccount }
  producers := { caches := stack.map Repository.cacheProducer }
  transactions := { caches := stack.map Repository.cacheTransaction }

def next (s : Shared ι) : SharedEvent ι → Option (Shared ι)
  | .account e => (Interleaving.next accountTable db.getAccount s.accounts e).map fun x ↦
      { s with accounts := x }
  | .producer e => (Interleaving.next producerTable db.getProducer s.producers e).map fun x ↦
      { s with producers := x }
  | .transaction e =>
      (Interleaving.next (transactionTable sha3) db.getTransaction s.transactions e).map fun x ↦
        { s with transactions := x }

/-- A reader that stores what it fetched stores it under a key for which the executing thread has
not put a value since the reader missed it. -/
def OnTime (s : Shared ι) : SharedEvent ι → Prop
  | .account e => Timely accountTable s.accounts e
  | .producer e => Timely producerTable s.producers e
  | .transaction e => Timely (transactionTable sha3) s.transactions e

instance (s : Shared ι) (e : SharedEvent ι) : Decidable (OnTime sha3 s e) :=
  match e with
  | .account e => inferInstanceAs (Decidable (Timely accountTable s.accounts e))
  | .producer e => inferInstanceAs (Decidable (Timely producerTable s.producers e))
  | .transaction e =>
    inferInstanceAs (Decidable (Timely (transactionTable sha3) s.transactions e))

structure NoLostUpdate (s : Shared ι) : Prop where
  accounts : Current accountTable s.accounts
  producers : Current producerTable s.producers
  transactions : Current (transactionTable sha3) s.transactions

inductive Runs (P : Shared ι → SharedEvent ι → Prop) (s : Shared ι) : Shared ι → Prop
  | refl : Runs P s s
  | tail {u v : Shared ι} {e : SharedEvent ι} :
      Runs P s u → P u e → next sha3 db u e = some v → Runs P s v

structure Keyed (stack : List Repository) : Prop where
  accountStore : accountTable.SoundStore db.getAccount fun k v ↦ accountTable.key v = k
  producerStore : producerTable.SoundStore db.getProducer fun k v ↦ producerTable.key v = k
  transactionStore : (transactionTable sha3).SoundStore db.getTransaction
    fun k v ↦ (transactionTable sha3).key v = k
  accounts : Interleaving.Keyed accountTable (stack.map Repository.cacheAccount)
  producers : Interleaving.Keyed producerTable (stack.map Repository.cacheProducer)
  transactions : Interleaving.Keyed (transactionTable sha3)
    (stack.map Repository.cacheTransaction)

variable {sha3 db}

omit [DecidableEq ι] in
theorem inv_start {K V ε : Type} [Ord K] [Std.TransOrd K] [Std.LawfulEqOrd K] [DecidableEq K]
    {t : Table K V} {caches : List (Cache K V)} (hne : caches ≠ [])
    (hkeyed : Interleaving.Keyed t caches) :
    Interleaving.Inv t ({ caches } : State ι K V ε) where
  nonempty := hne
  keyed := hkeyed
  pending i k g h := by contradiction
  own k g h := by contradiction
  current k v h := by contradiction

/-- If no reader is late, no update is lost: each kind of entity is a machine of its own. -/
theorem no_lost_update (sha3 : Bytes → H256) (db : DatabaseController) (ι : Type)
    [DecidableEq ι] (stack : List Repository) (hne : stack ≠ []) (hkeyed : Keyed sha3 db stack)
    (s : Shared ι) (hruns : Runs sha3 db (OnTime sha3) (start stack) s) :
    NoLostUpdate sha3 s := by
  have hinv : Interleaving.Inv accountTable s.accounts ∧
      Interleaving.Inv producerTable s.producers ∧
      Interleaving.Inv (transactionTable sha3) s.transactions := by
    induction hruns with
    | refl =>
      exact ⟨inv_start (by simpa using hne) hkeyed.accounts,
        inv_start (by simpa using hne) hkeyed.producers,
        inv_start (by simpa using hne) hkeyed.transactions⟩
    | @tail u v e _ htimely hnext ih =>
      obtain ⟨haccounts, hproducers, htransactions⟩ := ih
      cases e with
      | account e =>
        obtain ⟨x, hx, rfl⟩ := Option.map_eq_some_iff.mp hnext
        exact ⟨haccounts.next accountTable_lawful hkeyed.accountStore htimely hx, hproducers,
          htransactions⟩
      | producer e =>
        obtain ⟨x, hx, rfl⟩ := Option.map_eq_some_iff.mp hnext
        exact ⟨haccounts, hproducers.next producerTable_lawful hkeyed.producerStore htimely hx,
          htransactions⟩
      | transaction e =>
        obtain ⟨x, hx, rfl⟩ := Option.map_eq_some_iff.mp hnext
        exact ⟨haccounts, hproducers, htransactions.next (transactionTable_lawful sha3)
          hkeyed.transactionStore htimely hx⟩
  exact ⟨hinv.1.current, hinv.2.1.current, hinv.2.2.current⟩

section Schedules

variable (sha3 db) (P : Shared ι → SharedEvent ι → Prop) [∀ s e, Decidable (P s e)]

/-- The state after the given steps, if each of them can be taken and meets `P`. -/
def runAll (events : List (SharedEvent ι)) (s : Shared ι) : Option (Shared ι) :=
  events.foldlM (fun s e ↦ if P s e then next sha3 db s e else none) s

variable {sha3 db P}

theorem runs_of_runAll {events : List (SharedEvent ι)} {r s s' : Shared ι}
    (hr : Runs sha3 db P r s) (h : runAll sha3 db P events s = some s') : Runs sha3 db P r s' := by
  induction events generalizing s with
  | nil =>
    obtain rfl := Option.some.inj h
    exact hr
  | cons e events ih =>
    obtain ⟨u, hu, hrest⟩ := Option.bind_eq_some_iff.mp h
    simp only [Option.ite_none_right_eq_some] at hu
    exact ih (hr.tail hu.1 hu.2) hrest

end Schedules

section Burning

def tillStore : DatabaseController where
  accountStore := ExtTreeMap.insert ∅ 1 (.ok (Account.new 1 10000000 0))

def tillStack : List Repository := [{ block := {} }]

def burnt : Account := Account.new 1 9500000 0

def burning : List (SharedEvent Unit) :=
  [.account (.begins none 1), .account (.reads none), .account (.reads none),
    .account (.reads none), .account (.puts burnt)]

/-- A reader misses and fetches before them and stores when `burn` has begun to read; afterwards it
reads what was put. -/
def promptReading : List (SharedEvent Unit) :=
  [.account (.begins (some ()) 1), .account (.reads (some ())), .account (.reads (some ())),
    .account (.begins none 1), .account (.reads none), .account (.reads (some ())),
    .account (.reads none), .account (.reads none), .account (.puts burnt),
    .account (.begins (some ()) 1), .account (.reads (some ()))]

def lateReading : List (SharedEvent Unit) :=
  [.account (.begins (some ()) 1), .account (.reads (some ())), .account (.reads (some ()))] ++
    burning ++ [.account (.reads (some ()))]

theorem keyed_till : Keyed (fun _ ↦ 0) tillStore tillStack where
  accountStore k v hv hempty := by
    rw [getAccount_single rfl, Except.ok.injEq] at hv
    split at hv
    · next hk => exact hv ▸ hk.symm
    · subst hv
      contradiction
  producerStore k v hv hempty := by
    obtain rfl := Except.ok.inj hv
    contradiction
  transactionStore k v hv hempty := by
    obtain rfl := Except.ok.inj hv
    simp [transactionTable, Transaction.equal] at hempty
  accounts m hm := by
    rw [List.mem_singleton.mp hm]
    exact Table.sound_empty
  producers m hm := by
    rw [List.mem_singleton.mp hm]
    exact Table.sound_empty
  transactions m hm := by
    rw [List.mem_singleton.mp hm]
    exact Table.sound_empty

def outcome (s : Shared Unit) : Option Account × Option Account :=
  (s.accounts.last 1, s.accounts.caches.head?.bind fun m ↦ m[(1 : Address)]?)

theorem outcome_promptReading :
    (runAll (fun _ ↦ 0) tillStore (OnTime fun _ ↦ 0) promptReading (start tillStack)).map outcome =
      some (some burnt, some burnt) := by
  decide +kernel

theorem outcome_lateReading :
    (runAll (fun _ ↦ 0) tillStore (fun _ _ ↦ True) lateReading (start tillStack)).map outcome =
      some (some burnt, some (Account.new 1 10000000 0)) := by
  decide +kernel

theorem no_lost_update_prompt :
    ∃ s : Shared Unit, outcome s = (some burnt, some burnt) ∧ NoLostUpdate (fun _ ↦ 0) s := by
  obtain ⟨s, hs, hout⟩ := Option.map_eq_some_iff.mp outcome_promptReading
  exact ⟨s, hout, no_lost_update (fun _ ↦ 0) tillStore Unit tillStack (by simp [tillStack])
    keyed_till s (runs_of_runAll .refl hs)⟩

/-- The late reader puts the balance from before the fee over the one that `burn` left. -/
theorem update_lost :
    ∃ s : Shared Unit, Runs (fun _ ↦ 0) tillStore (fun _ _ ↦ True) (start tillStack) s ∧
      ((Repository.burn tillStore 1 transactionFee tillStack).2.map fun r ↦
        r.cacheAccount[(1 : Address)]?) = [some burnt] ∧
      outcome s = (some burnt, some (Account.new 1 10000000 0)) ∧
      ¬ NoLostUpdate (fun _ ↦ 0) s := by
  obtain ⟨s, hs, hout⟩ := Option.map_eq_some_iff.mp outcome_lateReading
  refine ⟨s, runs_of_runAll .refl hs, by decide +kernel, hout, fun h ↦ ?_⟩
  obtain ⟨hlast, hentry⟩ := Prod.mk.inj hout
  obtain ⟨m, e, hm, he, heq⟩ := h.accounts 1 burnt hlast
  rw [hm, Option.bind_some, he] at hentry
  obtain rfl := Option.some.inj hentry
  exact absurd (congrArg Account.balance heq) (by decide)

end Burning

end Shared

namespace Repository

/-- `getAccount` is the read of the machine when no other thread takes a step. -/
theorem getAccount_alone (db : DatabaseController) (a : Address) (stack : List Repository)
    (hne : stack ≠ []) :
    Relation.ReflTransGen (Alone accountTable db.getAccount a)
      (stack.map cacheAccount, .look 0)
      ((getAccount db a stack).2.map cacheAccount,
        Get.finish accountTable 0 (getAccount db a stack).1) := by
  have hlen : (accountTable.get db.getAccount (stack.map cacheAccount) a).2.length =
      stack.length := by
    rw [Table.length_get, List.length_map]
  unfold getAccount
  dsimp only
  rw [(map_setAccounts hlen).1]
  exact alone_get a [] (stack.map cacheAccount) (by simpa using hne)

end Repository

end GseNetwork.Storage
