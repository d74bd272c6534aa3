import GseNetwork.Foundation.ReadThrough

namespace GseNetwork.Foundation.Interleaving

open ReadThrough

/-- Where a read through a stack of caches stands between two accesses to shared state: it is
about to look into the cache of a layer, to ask the backing store for that layer, or to store
what was found in the cache of that layer. -/
inductive Get (V ε : Type) where
  | look (layer : ℕ)
  | load (layer : ℕ)
  | store (layer : ℕ) (v : V)
  | done (r : Except ε V)

variable {ι K V ε : Type} [Ord K] [Std.TransOrd K] [Std.LawfulEqOrd K] [DecidableEq K]
  [DecidableEq ι]

namespace Get

variable (t : Table K V) (db : K → Except ε V)

def receive : ℕ → V → Get V ε
  | 0, v => .done (.ok v)
  | layer + 1, v =>
    let ret := t.assign t.blank v
    if t.isEmpty ret then .load layer else .store layer ret

def step (k : K) (caches : List (Cache K V)) : Get V ε → List (Cache K V) × Get V ε
  | .look layer =>
    match caches[layer]?.bind fun m ↦ m[k]? with
    | some v => (caches, receive t layer v)
    | none => (caches, if layer + 1 < caches.length then .look (layer + 1) else .load layer)
  | .load layer =>
    match db k with
    | .error e => (caches, .done (.error e))
    | .ok v =>
      let ret := t.assign t.blank v
      if t.isEmpty ret then (caches, receive t layer (t.missing ret))
      else (caches, .store layer ret)
  | .store layer v => (caches.modify layer fun m ↦ t.put m v, receive t layer v)
  | .done r => (caches, .done r)

def finish (layer : ℕ) : Except ε V → Get V ε
  | .ok v => receive t layer v
  | .error e => .done (.error e)

end Get

/-- The caches with the reads under way. Thread `none` is the one that also puts values;
`last` records what it put, and no step reads it. -/
structure State (ι K V ε : Type) [Ord K] where
  caches : List (Cache K V)
  threads : Option ι → Option (K × Get V ε) := fun _ ↦ none
  last : K → Option V := fun _ ↦ none

inductive Event (ι K V : Type) where
  | begins (i : Option ι) (k : K)
  | reads (i : Option ι)
  | puts (v : V)

def underWay (k : K) : Get V ε → Option (K × Get V ε)
  | .done _ => none
  | g => some (k, g)

variable (t : Table K V) (db : K → Except ε V)

/-- One step of one thread; `none` where the thread is not at that point. -/
def next (s : State ι K V ε) : Event ι K V → Option (State ι K V ε)
  | .begins i k =>
    match s.threads i with
    | some _ => none
    | none => some { s with threads := Function.update s.threads i (some (k, .look 0)) }
  | .reads i =>
    match s.threads i with
    | none => none
    | some (k, g) =>
      let r := g.step t db k s.caches
      some { s with caches := r.1, threads := Function.update s.threads i (underWay k r.2) }
  | .puts v =>
    match s.threads none with
    | some _ => none
    | none => some { s with
        caches := t.putTop v s.caches
        last := Function.update s.last (t.key v) (some v) }

/-- The entry of every key for which the putting thread has put a value is the last such value,
as far as assignment carries it. -/
def Current (s : State ι K V ε) : Prop :=
  ∀ k v, s.last k = some v →
    ∃ m e, s.caches.head? = some m ∧ m[k]? = some e ∧ t.assign t.blank e = t.assign t.blank v

/-- A reader that is about to store in the top cache stores under a key for which the putting
thread has not put a value since the reader found nothing there. -/
def Timely (s : State ι K V ε) : Event ι K V → Prop
  | .reads (some i) => ∀ k v, s.threads (some i) = some (k, .store 0 v) → s.last (t.key v) = none
  | _ => True

instance (s : State ι K V ε) (e : Event ι K V) : Decidable (Timely t s e) :=
  match e with
  | .begins _ _ => isTrue trivial
  | .puts _ => isTrue trivial
  | .reads none => isTrue trivial
  | .reads (some i) =>
    match h : s.threads (some i) with
    | some (_, .store 0 v) =>
      decidable_of_iff (s.last (t.key v) = none) (by simp [Timely, h])
    | none => isTrue (by simp [Timely, h])
    | some (_, .look _) => isTrue (by simp [Timely, h])
    | some (_, .load _) => isTrue (by simp [Timely, h])
    | some (_, .store (_ + 1) _) => isTrue (by simp [Timely, h])
    | some (_, .done _) => isTrue (by simp [Timely, h])

abbrev Keyed (t : Table K V) (caches : List (Cache K V)) : Prop :=
  Table.SoundStack (fun k v ↦ t.key v = k) caches

section Alone

variable {t db}

def Alone (t : Table K V) (db : K → Except ε V) (k : K)
    (x y : List (Cache K V) × Get V ε) : Prop :=
  y = x.2.step t db k x.1

open Relation (ReflTransGen)

theorem modify_length_append {α : Type} (f : α → α) (pre : List α) (a : α) (rest : List α) :
    (pre ++ a :: rest).modify pre.length f = pre ++ f a :: rest := by
  induction pre with
  | nil => rfl
  | cons x pre ih => simp [ih]

omit [Std.LawfulEqOrd K] [DecidableEq K] in
theorem alone_load (k : K) (pre : List (Cache K V)) (m : Cache K V) (rest : List (Cache K V)) :
    ReflTransGen (Alone t db k) (pre ++ m :: rest, .load pre.length)
      (pre ++ (t.load db m rest k).2, Get.finish t pre.length (t.load db m rest k).1) := by
  unfold Table.load
  cases hdb : db k with
  | error e =>
    refine .single ?_
    simp [Alone, Get.step, hdb, Get.finish]
  | ok v =>
    dsimp only
    split
    · next hempty =>
      refine .single ?_
      simp [Alone, Get.step, hdb, Get.finish, hempty]
    · next hempty =>
      refine .head (b := (pre ++ m :: rest, .store pre.length (t.assign t.blank v))) ?_ (.single ?_)
      · simp [Alone, Get.step, hdb, hempty]
      · simp [Alone, Get.step, Get.finish, modify_length_append]

omit [Std.LawfulEqOrd K] [DecidableEq K] in
/-- A read that no other thread interrupts returns and caches what the sequential read does. -/
theorem alone_get (k : K) (pre stack : List (Cache K V)) (hne : stack ≠ []) :
    ReflTransGen (Alone t db k) (pre ++ stack, .look pre.length)
      (pre ++ (t.get db stack k).2, Get.finish t pre.length (t.get db stack k).1) := by
  induction stack generalizing pre with
  | nil => contradiction
  | cons m rest ih =>
    unfold Table.get
    cases hm : m[k]? with
    | some v =>
      refine .single ?_
      simp [Alone, Get.step, hm, Get.finish]
    | none =>
      dsimp only
      cases rest with
      | nil =>
        refine .head (b := (pre ++ [m], .load pre.length)) ?_ (alone_load k pre m [])
        simp [Alone, Get.step, hm]
      | cons m' rest =>
        refine .head (b := (pre ++ m :: m' :: rest, .look (pre.length + 1))) ?_ ?_
        · simp [Alone, Get.step, hm]
        have hrest := ih (pre ++ [m]) (by simp)
        simp only [List.append_assoc, List.singleton_append, List.length_append,
          List.length_singleton] at hrest
        refine hrest.trans ?_
        rcases t.get db (m' :: rest) k with ⟨_ | v, rest'⟩
        · exact .refl
        · cases hempty : t.isEmpty (t.assign t.blank v) with
          | true => simpa [Get.finish, Get.receive, hempty] using alone_load k pre m rest'
          | false =>
            refine .single ?_
            simp [Alone, Get.step, Get.finish, Get.receive, hempty, modify_length_append]

end Alone

section Steps

variable {t db} {k : K} {caches : List (Cache K V)} {g : Get V ε}

def Pending (t : Table K V) (k : K) : Get V ε → Prop
  | .store _ v => t.key v = k
  | _ => True

omit [Ord K] [Std.TransOrd K] [Std.LawfulEqOrd K] [DecidableEq K] in
theorem pending_receive (ht : t.Lawful) (layer : ℕ) {v : V}
    (hv : t.isEmpty v = false → t.key v = k) :
    Pending t k (Get.receive t layer v : Get V ε) := by
  cases layer with
  | zero => trivial
  | succ layer =>
    unfold Get.receive
    dsimp only
    split
    · trivial
    · next hempty =>
      rw [ht.isEmpty_assign] at hempty
      exact (ht.key_assign _ _).trans (hv (by simpa using hempty))

omit [Std.LawfulEqOrd K] [DecidableEq K] in
theorem pending_step (ht : t.Lawful) (hdb : t.SoundStore db fun k v ↦ t.key v = k)
    (hcaches : Keyed t caches) (hg : Pending t k g) :
    Pending t k (g.step t db k caches).2 := by
  cases g with
  | look layer =>
    simp only [Get.step]
    split
    · next v hv =>
      obtain ⟨m, hm, hmv⟩ := Option.bind_eq_some_iff.mp hv
      exact pending_receive ht layer fun _ ↦ hcaches m (List.mem_of_getElem? hm) k v hmv
    · split <;> trivial
  | load layer =>
    simp only [Get.step]
    split
    · trivial
    · next v hv =>
      split
      · next hempty =>
        refine pending_receive ht layer fun hno ↦ ?_
        rw [ht.isEmpty_missing _ hempty] at hno
        contradiction
      · next hempty =>
        rw [ht.isEmpty_assign] at hempty
        exact (ht.key_assign _ _).trans (hdb k v hv (by simpa using hempty))
  | store layer v => exact pending_receive ht layer fun _ ↦ hg
  | done r => trivial

omit [Ord K] [Std.TransOrd K] [Std.LawfulEqOrd K] [DecidableEq K] in
theorem keyed_stable (ht : t.Lawful) : t.Stable fun k v ↦ t.key v = k :=
  ⟨fun _ _ h ↦ h, fun _ _ v h ↦ (ht.key_assign _ v).trans h⟩

theorem keyed_modify (ht : t.Lawful) (hcaches : Keyed t caches) (layer : ℕ) (v : V) :
    Keyed t (caches.modify layer fun m ↦ t.put m v) := by
  intro m hm
  obtain ⟨i, hi⟩ := List.getElem?_of_mem hm
  rw [List.getElem?_modify] at hi
  obtain ⟨m', hm', rfl⟩ := Option.map_eq_some_iff.mp hi
  have hsound := hcaches m' (List.mem_of_getElem? hm')
  split
  · exact hsound.put (keyed_stable ht) rfl
  · exact hsound

theorem keyed_step (ht : t.Lawful) (hcaches : Keyed t caches) :
    Keyed t (g.step t db k caches).1 := by
  cases g with
  | look layer =>
    simp only [Get.step]
    split <;> exact hcaches
  | load layer =>
    simp only [Get.step]
    split
    · exact hcaches
    · split <;> exact hcaches
  | store layer v => exact keyed_modify ht hcaches layer v
  | done r => exact hcaches

omit [Std.LawfulEqOrd K] [DecidableEq K] in
theorem head_step (hg : ∀ v, g ≠ .store 0 v) :
    (g.step t db k caches).1.head? = caches.head? := by
  cases g with
  | look layer =>
    simp only [Get.step]
    split <;> rfl
  | load layer =>
    simp only [Get.step]
    split
    · rfl
    · split <;> rfl
  | store layer v =>
    cases layer with
    | zero => exact absurd rfl (hg v)
    | succ layer =>
      cases caches with
      | nil => rfl
      | cons m rest => simp [Get.step]
  | done r => rfl

omit [Std.LawfulEqOrd K] [DecidableEq K] in
theorem length_step : (g.step t db k caches).1.length = caches.length := by
  cases g with
  | look layer =>
    simp only [Get.step]
    split <;> rfl
  | load layer =>
    simp only [Get.step]
    split
    · rfl
    · split <;> rfl
  | store layer v => simp [Get.step]
  | done r => rfl

end Steps

section Runs

/-- What every step keeps: in particular the putting thread, once it has found nothing in the
top cache, has not put a value for the key it is reading. -/
structure Inv (t : Table K V) (s : State ι K V ε) : Prop where
  nonempty : s.caches ≠ []
  keyed : Keyed t s.caches
  pending : ∀ i k g, s.threads i = some (k, g) → Pending t k g
  own : ∀ k g, s.threads none = some (k, g) → g ≠ .look 0 → s.last k = none
  current : Current t s

variable {t db} {s s' : State ι K V ε}

omit [Ord K] [Std.TransOrd K] [Std.LawfulEqOrd K] [DecidableEq K] in
theorem underWay_eq_some {k k' : K} {g g' : Get V ε} (h : underWay k g = some (k', g')) :
    k' = k ∧ g' = g ∧ ∀ r, g ≠ .done r := by
  cases g with
  | done r => contradiction
  | _ =>
    obtain ⟨rfl, rfl⟩ := Prod.mk.inj (Option.some.inj h)
    exact ⟨rfl, rfl, fun r hr ↦ by contradiction⟩

omit [Std.LawfulEqOrd K] [DecidableEq K] [DecidableEq ι] in
theorem Current.last_eq_none (h : Current t s) {k : K}
    (hmiss : (s.caches[0]?.bind fun m ↦ m[k]?) = none) : s.last k = none := by
  cases hlast : s.last k with
  | none => rfl
  | some v =>
    obtain ⟨m, e, hm, he, -⟩ := h k v hlast
    rw [List.head?_eq_getElem?] at hm
    simp [hm, he] at hmiss

omit [DecidableEq ι] in
theorem Current.store (h : Current t s) {v : V} (hlast : s.last (t.key v) = none)
    {caches : List (Cache K V)} (hhead : caches.head? = s.caches.head?.map fun m ↦ t.put m v)
    {threads : Option ι → Option (K × Get V ε)} :
    Current t { s with caches, threads } := by
  intro k w hw
  obtain ⟨m, e, hm, he, heq⟩ := h k w hw
  have hne : t.key v ≠ k := by
    rintro rfl
    rw [hlast] at hw
    contradiction
  refine ⟨t.put m v, e, ?_, ?_, heq⟩
  · rw [hhead, hm]
    rfl
  · rw [Table.getElem?_put, if_neg hne]
    exact he

omit [Std.LawfulEqOrd K] in
theorem Inv.begins (h : Inv t s) {i : Option ι} {k : K}
    (hnext : next t db s (.begins i k) = some s') : Inv t s' := by
  simp only [next] at hnext
  split at hnext
  · contradiction
  · obtain rfl := Option.some.inj hnext
    refine ⟨h.nonempty, h.keyed, fun j k' g hj ↦ ?_, fun k' g hj hg ↦ ?_, h.current⟩
    · simp only [Function.update_apply] at hj
      split at hj
      · obtain ⟨rfl, rfl⟩ := Prod.mk.inj (Option.some.inj hj)
        trivial
      · exact h.pending j k' g hj
    · simp only [Function.update_apply] at hj
      split at hj
      · obtain ⟨rfl, rfl⟩ := Prod.mk.inj (Option.some.inj hj)
        contradiction
      · exact h.own k' g hj hg

theorem Inv.puts (ht : t.Lawful) (h : Inv t s) {v : V}
    (hnext : next t db s (.puts v) = some s') : Inv t s' := by
  simp only [next] at hnext
  split at hnext
  · contradiction
  · next hidle =>
    obtain rfl := Option.some.inj hnext
    obtain ⟨m, rest, hcaches⟩ := List.exists_cons_of_ne_nil h.nonempty
    refine ⟨?_, ?_, h.pending, fun k g hk ↦ ?_, fun k w hw ↦ ?_⟩
    · simp [hcaches, Table.putTop]
    · exact h.keyed.putTop (keyed_stable ht) rfl
    · rw [hidle] at hk
      contradiction
    · have hhead : (t.putTop v s.caches).head? = some (t.put m v) := by
        rw [hcaches]
        rfl
      simp only [Function.update_apply] at hw
      split at hw
      · next hk =>
        obtain rfl := Option.some.inj hw
        refine ⟨_, _, hhead, ?_, Table.assign_written ht m t.blank v⟩
        rw [Table.getElem?_put, if_pos hk.symm]
      · next hk =>
        obtain ⟨m', e, hm, he, heq⟩ := h.current k w hw
        rw [hcaches] at hm
        obtain rfl := Option.some.inj hm
        refine ⟨_, e, hhead, ?_, heq⟩
        rw [Table.getElem?_put, if_neg (Ne.symm hk)]
        exact he

omit [Std.LawfulEqOrd K] [DecidableEq K] [DecidableEq ι] in
theorem Inv.last_of_store (h : Inv t s) {i : Option ι} (htimely : Timely t s (.reads i)) {k : K}
    {v : V} (hi : s.threads i = some (k, .store 0 v)) : s.last (t.key v) = none := by
  cases i with
  | none =>
    have hkey : t.key v = k := h.pending none k _ hi
    exact hkey ▸ h.own k _ hi (by simp)
  | some i => exact htimely k v hi

theorem Inv.reads (ht : t.Lawful) (hdb : t.SoundStore db fun k v ↦ t.key v = k) (h : Inv t s)
    {i : Option ι} (htimely : Timely t s (.reads i))
    (hnext : next t db s (.reads i) = some s') : Inv t s' := by
  simp only [next] at hnext
  split at hnext
  · contradiction
  · next k g hi =>
    obtain rfl := Option.some.inj hnext
    refine ⟨?_, keyed_step ht h.keyed, fun j k' g' hj ↦ ?_, fun k' g' hj hg' ↦ ?_, ?_⟩
    · intro hnil
      have hlen : (g.step t db k s.caches).1.length = s.caches.length := length_step
      have hzero : (g.step t db k s.caches).1.length = 0 := congrArg List.length hnil
      exact h.nonempty (List.eq_nil_of_length_eq_zero (hlen.symm.trans hzero))
    · simp only [Function.update_apply] at hj
      split at hj
      · obtain ⟨rfl, rfl, -⟩ := underWay_eq_some hj
        exact pending_step ht hdb h.keyed (h.pending i _ g hi)
      · exact h.pending j k' g' hj
    · simp only [Function.update_apply] at hj
      split at hj
      · next hnone =>
        subst hnone
        obtain ⟨rfl, rfl, hnot⟩ := underWay_eq_some hj
        by_cases hg : g = .look 0
        · subst hg
          refine h.current.last_eq_none ?_
          simp only [Get.step] at hnot
          split at hnot
          · exact absurd rfl (hnot _)
          · assumption
        · exact h.own _ g hi hg
      · exact h.own k' g' hj hg'
    · by_cases hg : ∃ v, g = .store 0 v
      · obtain ⟨v, rfl⟩ := hg
        refine h.current.store (h.last_of_store htimely hi) ?_
        obtain ⟨m, rest, hcaches⟩ := List.exists_cons_of_ne_nil h.nonempty
        simp [Get.step, hcaches]
      · intro k' w hw
        obtain ⟨m, e, hm, he, heq⟩ := h.current k' w hw
        have hhead : (g.step t db k s.caches).1.head? = s.caches.head? :=
          head_step fun v hv ↦ hg ⟨v, hv⟩
        exact ⟨m, e, hhead.trans hm, he, heq⟩

theorem Inv.next (ht : t.Lawful) (hdb : t.SoundStore db fun k v ↦ t.key v = k) (h : Inv t s)
    {e : Event ι K V} (htimely : Timely t s e) (hnext : next t db s e = some s') : Inv t s' := by
  cases e with
  | begins i k => exact h.begins hnext
  | reads i => exact h.reads ht hdb htimely hnext
  | puts v => exact h.puts ht hnext

end Runs

end GseNetwork.Foundation.Interleaving
