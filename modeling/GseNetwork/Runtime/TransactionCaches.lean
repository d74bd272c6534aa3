import GseNetwork.Runtime.Frames
import GseNetwork.Storage.Layers

namespace GseNetwork.Storage.Repository

open GseNetwork.Core GseNetwork.Foundation GseNetwork.Foundation.ReadThrough
open Std (ExtTreeMap)

variable {sha3 : Bytes → H256} {db : DatabaseController} {id : TxID} {tx : Transaction}
  {r r' : Repository} {st st' : List Repository}

def Keyed (sha3 : Bytes → H256) (m : ExtTreeMap TxID Transaction) : Prop :=
  ∀ (h : TxID) (tx : Transaction), m[h]? = some tx → tx.getHash sha3 = h

structure CacheGrows (sha3 : Bytes → H256) (m m' : ExtTreeMap TxID Transaction) : Prop where
  keeps : ∀ h, h ∈ m → h ∈ m'
  keyed : Keyed sha3 m → Keyed sha3 m'

theorem CacheGrows.refl (m : ExtTreeMap TxID Transaction) : CacheGrows sha3 m m :=
  ⟨fun _ h ↦ h, fun h ↦ h⟩

theorem CacheGrows.trans {m m' m'' : ExtTreeMap TxID Transaction} (h : CacheGrows sha3 m m')
    (h' : CacheGrows sha3 m' m'') : CacheGrows sha3 m m'' :=
  ⟨fun k hk ↦ h'.keeps k (h.keeps k hk), fun hm ↦ h'.keyed (h.keyed hm)⟩

theorem written_transaction (m : ExtTreeMap TxID Transaction) (tx : Transaction) :
    (transactionTable sha3).written m tx = tx := by
  unfold Table.written
  split <;> rfl

theorem cacheGrows_put (m : ExtTreeMap TxID Transaction) (tx : Transaction) :
    CacheGrows sha3 m ((transactionTable sha3).put m tx) := by
  refine ⟨fun h hh ↦ ExtTreeMap.mem_insert.mpr (Or.inr hh), fun hm h y hy ↦ ?_⟩
  rw [Table.getElem?_put, written_transaction] at hy
  split_ifs at hy with hkey
  · rw [← Option.some.inj hy]
    exact hkey
  · exact hm h y hy

theorem cacheGrows_get (st : List (ExtTreeMap TxID Transaction)) (id : TxID) :
    List.Forall₂ (CacheGrows sha3) st
      ((transactionTable sha3).get db.getTransaction st id).2 := by
  induction st with
  | nil => exact List.Forall₂.nil
  | cons m rest ih =>
    obtain ⟨rest', hrest, hget⟩ :=
      Table.get_snd_cons (transactionTable sha3) db.getTransaction m rest id
    have htail : List.Forall₂ (CacheGrows sha3) rest rest' := by
      rcases hrest with rfl | rfl
      · exact List.forall₂_same.mpr fun x _ ↦ CacheGrows.refl x
      · exact ih
    rcases hget with hget | ⟨v, -, -, -, hget⟩
    · rw [hget]
      exact List.Forall₂.cons (CacheGrows.refl m) htail
    · rw [hget]
      exact List.Forall₂.cons (cacheGrows_put m v) htail

theorem cacheGrows_putTop (st : List (ExtTreeMap TxID Transaction)) (tx : Transaction) :
    List.Forall₂ (CacheGrows sha3) st ((transactionTable sha3).putTop tx st) := by
  cases st with
  | nil => exact List.Forall₂.nil
  | cons m rest =>
    refine List.Forall₂.cons (cacheGrows_put m tx) ?_
    exact List.forall₂_same.mpr fun x _ ↦ CacheGrows.refl x

def Grows (sha3 : Bytes → H256) (st st' : List Repository) : Prop :=
  List.Forall₂ (fun r r' ↦ r'.block = r.block ∧
    CacheGrows sha3 r.cacheTransaction r'.cacheTransaction) st st'

theorem Grows.refl (st : List Repository) : Grows sha3 st st :=
  List.forall₂_same.mpr fun _ _ ↦ ⟨rfl, CacheGrows.refl _⟩

theorem Grows.trans {st'' : List Repository} (h : Grows sha3 st st') (h' : Grows sha3 st' st'') :
    Grows sha3 st st'' := by
  unfold Grows at h h' ⊢
  induction h generalizing st'' with
  | nil => exact h'
  | cons hr _ ih =>
    cases h' with
    | cons hr' hrest' => exact List.Forall₂.cons ⟨hr'.1.trans hr.1, hr.2.trans hr'.2⟩ (ih hrest')

theorem grows_zipWith {M : Type} {f : Repository → M → Repository} {caches : List M}
    (hlength : caches.length = st.length)
    (hf : ∀ r m, (f r m).block = r.block ∧ (f r m).cacheTransaction = r.cacheTransaction) :
    Grows sha3 st (List.zipWith f st caches) := by
  unfold Grows
  induction st generalizing caches with
  | nil => exact List.Forall₂.nil
  | cons r st ih =>
    cases caches with
    | nil => exact absurd hlength (by simp)
    | cons m caches =>
      refine List.Forall₂.cons ⟨(hf r m).1, ?_⟩ (ih (by simpa using hlength))
      rw [(hf r m).2]
      exact CacheGrows.refl _

theorem grows_setTransactions {caches : List (ExtTreeMap TxID Transaction)}
    (h : List.Forall₂ (CacheGrows sha3) (st.map cacheTransaction) caches) :
    Grows sha3 st (setTransactions st caches) := by
  unfold Grows setTransactions
  induction st generalizing caches with
  | nil => exact List.Forall₂.nil
  | cons r st ih =>
    cases h with
    | cons hr hrest => exact List.Forall₂.cons ⟨rfl, hr⟩ (ih hrest)

theorem grows_getTransaction (id : TxID) : Eff.Keeps (Grows sha3) (getTransaction sha3 db id) :=
  fun _ ↦ grows_setTransactions (cacheGrows_get _ id)

theorem grows_putTransaction (tx : Transaction) : Eff.Keeps (Grows sha3) (putTransaction sha3 tx) :=
  fun _ ↦ grows_setTransactions (cacheGrows_putTop _ tx)

theorem framed_grows (sha3 : Bytes → H256) (db : DatabaseController) :
    Runtime.Framed db (Grows sha3) where
  refl := Grows.refl
  trans _ _ _ := Grows.trans
  getAccount a st := grows_zipWith (by rw [Table.length_get, List.length_map]) fun _ _ ↦ ⟨rfl, rfl⟩
  getProducer a st := grows_zipWith (by rw [Table.length_get, List.length_map]) fun _ _ ↦ ⟨rfl, rfl⟩
  putAccount x st := grows_zipWith (by cases st <;> simp [Table.putTop]) fun _ _ ↦ ⟨rfl, rfl⟩
  putProducer p st := grows_zipWith (by cases st <;> simp [Table.putTop]) fun _ _ ↦ ⟨rfl, rfl⟩

def TopHas (h : TxID) (st : List Repository) : Prop :=
  ∃ r rest, st = r :: rest ∧ h ∈ r.cacheTransaction

theorem TopHas.grows {h : TxID} (htop : TopHas h st) (hgrows : Grows sha3 st st') :
    TopHas h st' := by
  obtain ⟨r, rest, rfl, hmem⟩ := htop
  cases hgrows with
  | cons hr hrest => exact ⟨_, _, rfl, hr.2.keeps h hmem⟩

theorem topHas_putTransaction (sha3 : Bytes → H256) (hst : st ≠ []) (tx : Transaction) :
    TopHas (tx.getHash sha3) (putTransaction sha3 tx st).2 := by
  cases st with
  | nil => exact absurd rfl hst
  | cons r rest => exact ⟨_, _, rfl, ExtTreeMap.mem_insert_self⟩

/-- The transactions of a block are in the top repository once they have run. -/
theorem topHas_run {txs : List Transaction} {timestamp : Int64} (hst : st ≠ [])
    (hrun : Eff.forEach txs (fun tx ↦ Runtime.excute sha3 db timestamp tx) st = (.ok (), st')) :
    ∀ tx ∈ txs, TopHas (tx.getHash sha3) st' := by
  induction txs generalizing st with
  | nil => exact fun tx htx ↦ absurd htx List.not_mem_nil
  | cons x txs ih =>
    obtain ⟨⟨⟩, st₁, hfirst, hrest⟩ := Eff.bind_eq_ok.mp hrun
    obtain ⟨⟨⟩, st₀, hexecute, hput⟩ := Eff.bind_eq_ok.mp hfirst
    have hgrows₀ := (framed_grows sha3 db).execute timestamp x st
    rw [hexecute] at hgrows₀
    have hst₀ : st₀ ≠ [] := by
      intro hnil
      have hlength := hgrows₀.length_eq
      rw [hnil] at hlength
      exact hst (List.length_eq_zero_iff.mp hlength)
    have hhas := topHas_putTransaction sha3 hst₀ x
    rw [hput] at hhas
    have hgrows : Grows sha3 st₁ st' := by
      have hkeeps := Eff.keeps_forEach (framed_grows sha3 db).refl (framed_grows sha3 db).trans txs
        (fun tx _ ↦ Eff.Keeps.bind (framed_grows sha3 db).trans
          ((framed_grows sha3 db).execute timestamp tx) fun _ ↦ grows_putTransaction tx) st₁
      change Grows sha3 st₁ (Eff.forEach txs (fun tx ↦ Runtime.excute sha3 db timestamp tx) st₁).2
        at hkeeps
      rw [hrest] at hkeeps
      exact hkeeps
    have hst₁ : st₁ ≠ [] := by
      obtain ⟨r, rest, heq, -⟩ := hhas
      change st₁ = r :: rest at heq
      rw [heq]
      exact List.cons_ne_nil r rest
    intro tx htx
    rcases List.mem_cons.mp htx with rfl | htx
    · exact hhas.grows hgrows
    · exact ih hst₁ hrest tx htx

section Lookup

def InStore (sha3 : Bytes → H256) (db : DatabaseController) (h : TxID) : Prop :=
  ∃ x, db.transactionStore[h]? = some x ∧
    ∀ v : Transaction, x = .ok v → v.equal sha3 emptyTransaction = false

def Known (sha3 : Bytes → H256) (db : DatabaseController) (st : List Repository) (h : TxID) :
    Prop :=
  InStore sha3 db h ∨ ∃ r ∈ st, h ∈ r.cacheTransaction

theorem stored_of_inStore {h : TxID} (hdb : InStore sha3 db h) {v : Transaction}
    (hv : db.getTransaction h = .ok v) : v.equal sha3 emptyTransaction = false := by
  obtain ⟨x, hx, hall⟩ := hdb
  refine hall v ?_
  unfold DatabaseController.getTransaction at hv
  rw [ExtTreeMap.getD_eq_getD_getElem?, hx] at hv
  exact hv

theorem view_of_known {h : TxID} (hne : h ≠ emptyTransaction.getHash sha3)
    (hkeyed : ∀ r ∈ st, Keyed sha3 r.cacheTransaction) (hknown : Known sha3 db st h)
    {v : Transaction}
    (hv : (transactionTable sha3).view db.getTransaction (st.map cacheTransaction) h = .ok v) :
    v.equal sha3 emptyTransaction = false := by
  induction st generalizing v with
  | nil =>
    rcases hknown with hdb | ⟨r, hr, -⟩
    · exact stored_of_inStore hdb hv
    · exact absurd hr List.not_mem_nil
  | cons r rest ih =>
    rw [List.map_cons, Table.view_cons] at hv
    cases hm : r.cacheTransaction[h]? with
    | some w =>
      rw [hm] at hv
      have hw : w.getHash sha3 = h := hkeyed r List.mem_cons_self h w hm
      rw [← Except.ok.inj hv]
      unfold Transaction.equal
      rw [hw, beq_eq_false_iff_ne]
      exact hne
    | none =>
      rw [hm] at hv
      dsimp only at hv
      have hknown' : Known sha3 db rest h := by
        rcases hknown with hdb | ⟨r', hr', hmem⟩
        · exact Or.inl hdb
        rcases List.mem_cons.mp hr' with rfl | hr'
        · rw [ExtTreeMap.mem_iff_isSome_getElem?, hm] at hmem
          exact absurd hmem (by simp)
        · exact Or.inr ⟨r', hr', hmem⟩
      have hrest := fun r' hr' ↦ hkeyed r' (List.mem_cons_of_mem r hr')
      split_ifs at hv with hempty
      · have hdb : InStore sha3 db h := by
          rcases hknown' with hdb | ⟨r', hr', -⟩
          · exact hdb
          rw [List.isEmpty_iff, List.map_eq_nil_iff] at hempty
          rw [hempty] at hr'
          exact absurd hr' List.not_mem_nil
        unfold Table.stored at hv
        cases hw : db.getTransaction h with
        | error e => simp [hw] at hv
        | ok w =>
          have hfound := stored_of_inStore hdb hw
          rw [hw] at hv
          dsimp only at hv
          rw [if_neg (by rw [Bool.not_eq_true]; exact hfound)] at hv
          rw [← Except.ok.inj hv]
          exact hfound
      · cases hw : (transactionTable sha3).view db.getTransaction (rest.map cacheTransaction) h with
        | error e => simp [hw] at hv
        | ok w =>
          have hfound := ih hrest hknown' hw
          rw [hw] at hv
          dsimp only at hv
          rw [if_neg (by rw [Bool.not_eq_true]; exact hfound)] at hv
          rw [← Except.ok.inj hv]
          exact hfound

end Lookup

end GseNetwork.Storage.Repository
