import Mathlib

namespace GseNetwork.Foundation.ReadThrough

open Std

/-- How entities of one kind are kept in caches: under which key, which values stand for
"absent", and what a variable holding `x` holds after `v` has been assigned to it. -/
structure Table (K V : Type) where
  key : V → K
  isEmpty : V → Bool
  assign : V → V → V
  blank : V
  missing : V → V

/-- Assignment copies everything that the key and the emptiness test look at, and what it
leaves out does not depend on the value assigned. -/
structure Table.Lawful {K V : Type} (t : Table K V) : Prop where
  key_assign : ∀ x v, t.key (t.assign x v) = t.key v
  isEmpty_assign : ∀ x v, t.isEmpty (t.assign x v) = t.isEmpty v
  assign_assign : ∀ x y v, t.assign x (t.assign y v) = t.assign x v
  isEmpty_missing : ∀ v, t.isEmpty v = true → t.isEmpty (t.missing v) = true

structure Table.Stable {K V : Type} (t : Table K V) (Q : K → V → Prop) : Prop where
  key_eq : ∀ k v, Q k v → t.key v = k
  assign : ∀ k x v, Q k v → Q k (t.assign x v)

variable {K V ε : Type} [Ord K] [TransOrd K]

section Entries

variable [LawfulEqOrd K] [DecidableEq K]

theorem getElem?_insert (m : ExtTreeMap K V) (k a : K) (v : V) :
    (m.insert k v)[a]? = if k = a then some v else m[a]? := by
  rw [ExtTreeMap.getElem?_insert]
  by_cases h : k = a
  · simp [h, compare_self]
  · rw [if_neg h, if_neg]
    rwa [Std.compare_eq_iff_eq]

theorem getElem?_erase (m : ExtTreeMap K V) (k a : K) :
    (m.erase k)[a]? = if k = a then none else m[a]? := by
  rw [ExtTreeMap.getElem?_erase]
  by_cases h : k = a
  · simp [h, compare_self]
  · rw [if_neg h, if_neg]
    rwa [Std.compare_eq_iff_eq]

end Entries

abbrev Cache (K V : Type) [Ord K] := ExtTreeMap K V

namespace Table

variable (t : Table K V) (db : K → Except ε V) (Q : K → V → Prop)

/-- What the cache holds once `v` is put: an entry that exists is assigned to. -/
def written (m : Cache K V) (v : V) : V :=
  match m[t.key v]? with
  | some old => t.assign old v
  | none => v

def put (m : Cache K V) (v : V) : Cache K V := m.insert (t.key v) (t.written m v)

def load (m : Cache K V) (rest : List (Cache K V)) (k : K) : Except ε V × List (Cache K V) :=
  match db k with
  | .error e => (.error e, m :: rest)
  | .ok v =>
    let ret := t.assign t.blank v
    if t.isEmpty ret then (.ok (t.missing ret), m :: rest) else (.ok ret, t.put m ret :: rest)

/-- A read through a stack of caches, innermost first: the own cache, then the rest of the
stack, then the backing store; whatever is found is cached on the way back. -/
def get : List (Cache K V) → K → Except ε V × List (Cache K V)
  | [], k => (db k, [])
  | m :: rest, k =>
    match m[k]? with
    | some v => (.ok v, m :: rest)
    | none =>
      if rest.isEmpty then t.load db m rest k
      else match get rest k with
        | (.error e, rest') => (.error e, m :: rest')
        | (.ok v, rest') =>
          let ret := t.assign t.blank v
          if t.isEmpty ret then t.load db m rest' k else (.ok ret, t.put m ret :: rest')

def putTop (v : V) : List (Cache K V) → List (Cache K V)
  | [] => []
  | m :: rest => t.put m v :: rest

def view (stack : List (Cache K V)) (k : K) : Except ε V := (t.get db stack k).1

def stored (k : K) : Except ε V :=
  match db k with
  | .error e => .error e
  | .ok v =>
    let ret := t.assign t.blank v
    if t.isEmpty ret then .ok (t.missing ret) else .ok ret

def Sound (m : Cache K V) : Prop := ∀ k v, m[k]? = some v → Q k v

def SoundStore : Prop := ∀ k v, db k = .ok v → t.isEmpty v = false → Q k v

def SoundStack (stack : List (Cache K V)) : Prop := ∀ m ∈ stack, Sound Q m

section Lookup

variable {t db Q}

theorem written_of_none {m : Cache K V} {v : V} (h : m[t.key v]? = none) :
    t.written m v = v := by
  rw [written, h]

theorem assign_written (ht : t.Lawful) (m : Cache K V) (x v : V) :
    t.assign x (t.written m v) = t.assign x v := by
  unfold written
  split
  · exact ht.assign_assign _ _ _
  · rfl

theorem Stable.written (hQ : t.Stable Q) {k : K} {v : V} (h : Q k v) (m : Cache K V) :
    Q k (t.written m v) := by
  unfold Table.written
  split
  · exact hQ.assign _ _ _ h
  · exact h

theorem sound_empty : Sound Q (∅ : Cache K V) := by
  intro k v h
  simp at h

variable [LawfulEqOrd K] [DecidableEq K]

theorem getElem?_put (m : Cache K V) (v : V) (a : K) :
    (t.put m v)[a]? = if t.key v = a then some (t.written m v) else m[a]? :=
  getElem?_insert m (t.key v) a (t.written m v)

theorem Sound.put (hQ : t.Stable Q) {m : Cache K V} (h : Sound Q m) {v : V}
    (hv : Q (t.key v) v) : Sound Q (t.put m v) := by
  intro k w hw
  rw [getElem?_put] at hw
  split at hw
  · next hk =>
    obtain rfl := Option.some.inj hw
    exact hk ▸ hQ.written hv m
  · exact h k w hw

end Lookup

section View

variable {t db Q}

@[simp] theorem view_nil (k : K) : t.view db [] k = db k := rfl

theorem load_fst (m : Cache K V) (rest : List (Cache K V)) (k : K) :
    (t.load db m rest k).1 = t.stored db k := by
  unfold load stored
  cases db k with
  | error e => rfl
  | ok v => dsimp only; split <;> rfl

theorem view_cons (m : Cache K V) (rest : List (Cache K V)) (k : K) :
    t.view db (m :: rest) k = match m[k]? with
      | some v => .ok v
      | none =>
        if rest.isEmpty then t.stored db k
        else match t.view db rest k with
          | .error e => .error e
          | .ok v =>
            if t.isEmpty (t.assign t.blank v) then t.stored db k
            else .ok (t.assign t.blank v) := by
  unfold view
  rw [get]
  cases m[k]? with
  | some v => rfl
  | none =>
    dsimp only
    split
    · exact load_fst m rest k
    · rcases t.get db rest k with ⟨_ | v, rest'⟩
      · rfl
      · dsimp only
        split
        · exact load_fst m rest' k
        · rfl

theorem view_cons_hit {m : Cache K V} {rest : List (Cache K V)} {k : K} {v : V}
    (h : m[k]? = some v) : t.view db (m :: rest) k = .ok v := by
  rw [view_cons, h]

theorem view_cons_congr {m : Cache K V} {rest rest' : List (Cache K V)}
    (hempty : rest'.isEmpty = rest.isEmpty) (h : t.view db rest' = t.view db rest) :
    t.view db (m :: rest') = t.view db (m :: rest) := by
  funext k
  rw [view_cons, view_cons, hempty, h]

omit [Ord K] [TransOrd K] in
theorem stored_of_isEmpty_false {k : K} {v : V} (ht : t.Lawful)
    (h : t.stored db k = .ok v) (hv : t.isEmpty v = false) :
    ∃ w, db k = .ok w ∧ t.isEmpty w = false ∧ v = t.assign t.blank w := by
  unfold stored at h
  cases hw : db k with
  | error e => simp [hw] at h
  | ok w =>
    simp only [hw] at h
    split at h
    · next hempty =>
      obtain rfl := Except.ok.inj h
      rw [ht.isEmpty_missing _ hempty] at hv
      contradiction
    · next hempty =>
      obtain rfl := Except.ok.inj h
      rw [ht.isEmpty_assign] at hempty
      exact ⟨w, rfl, by simpa using hempty, rfl⟩

omit [Ord K] [TransOrd K] in
theorem sound_of_stored (ht : t.Lawful) (hQ : t.Stable Q) (hdb : t.SoundStore db Q) {k : K}
    {v : V} (h : t.stored db k = .ok v) (hv : t.isEmpty v = false) : Q k v := by
  obtain ⟨w, hw, hwe, rfl⟩ := stored_of_isEmpty_false ht h hv
  exact hQ.assign k _ w (hdb k w hw hwe)

/-- A read answers with an entity that has the property at the key asked for, or with an empty
one. -/
theorem sound_of_view (ht : t.Lawful) (hQ : t.Stable Q) (hdb : t.SoundStore db Q)
    {stack : List (Cache K V)} (hs : SoundStack Q stack) {k : K} {v : V}
    (h : t.view db stack k = .ok v) (hv : t.isEmpty v = false) : Q k v := by
  induction stack generalizing v with
  | nil => exact hdb k v h hv
  | cons m rest ih =>
    rw [view_cons] at h
    cases hm : m[k]? with
    | some w =>
      simp only [hm, Except.ok.injEq] at h
      exact h ▸ hs m (by simp) k w hm
    | none =>
      simp only [hm] at h
      split at h
      · exact sound_of_stored ht hQ hdb h hv
      · cases hw : t.view db rest k with
        | error e => simp [hw] at h
        | ok w =>
          simp only [hw] at h
          split at h
          · exact sound_of_stored ht hQ hdb h hv
          · obtain rfl := Except.ok.inj h
            rw [ht.isEmpty_assign] at hv
            exact hQ.assign k _ w (ih (fun m' hm' ↦ hs m' (by simp [hm'])) hw hv)

theorem load_snd (t : Table K V) (db : K → Except ε V) (m : Cache K V)
    (rest : List (Cache K V)) (k : K) :
    (t.load db m rest k).2 = m :: rest ∨
      ∃ v, t.stored db k = .ok v ∧ t.isEmpty v = false ∧
        (t.load db m rest k).2 = t.put m v :: rest := by
  unfold load stored
  cases db k with
  | error e => exact Or.inl rfl
  | ok v =>
    dsimp only
    split
    · exact Or.inl rfl
    · next h => exact Or.inr ⟨_, rfl, by simpa using h, rfl⟩

theorem get_snd_cons (t : Table K V) (db : K → Except ε V) (m : Cache K V)
    (rest : List (Cache K V)) (k : K) :
    ∃ rest', (rest' = rest ∨ rest' = (t.get db rest k).2) ∧
      ((t.get db (m :: rest) k).2 = m :: rest' ∨
        ∃ v, m[k]? = none ∧ t.view db (m :: rest) k = .ok v ∧ t.isEmpty v = false ∧
          (t.get db (m :: rest) k).2 = t.put m v :: rest') := by
  rw [view_cons, get]
  unfold view
  cases m[k]? with
  | some v => exact ⟨rest, Or.inl rfl, Or.inl rfl⟩
  | none =>
    dsimp only
    split
    · refine ⟨rest, Or.inl rfl, ?_⟩
      rcases load_snd t db m rest k with h | ⟨v, hv, hne, h⟩
      · exact Or.inl h
      · exact Or.inr ⟨v, rfl, hv, hne, h⟩
    · rcases hget : t.get db rest k with ⟨_ | v, rest'⟩
      · exact ⟨rest', Or.inr rfl, Or.inl rfl⟩
      · refine ⟨rest', Or.inr rfl, ?_⟩
        dsimp only
        split
        · rcases load_snd t db m rest' k with h | ⟨v, hv, hne, h⟩
          · exact Or.inl h
          · exact Or.inr ⟨v, rfl, hv, hne, h⟩
        · next hne => exact Or.inr ⟨_, rfl, rfl, by simpa using hne, rfl⟩

theorem load_eq_of_isEmpty {m : Cache K V} {rest stack' : List (Cache K V)} {k : K} {v : V}
    (h : t.load db m rest k = (.ok v, stack')) (hv : t.isEmpty v = true) : stack' = m :: rest := by
  rcases load_snd t db m rest k with heq | ⟨v', hstored, hne, -⟩
  · rw [h] at heq
    exact heq
  · have hfst : (t.load db m rest k).1 = t.stored db k := load_fst m rest k
    rw [h, hstored] at hfst
    rw [Except.ok.inj hfst, hne] at hv
    cases hv

theorem get_eq_of_isEmpty (ht : t.Lawful) {stack stack' : List (Cache K V)} {k : K} {v : V}
    (h : t.get db stack k = (.ok v, stack')) (hv : t.isEmpty v = true) : stack' = stack := by
  induction stack generalizing v stack' with
  | nil =>
    obtain ⟨-, rfl⟩ := Prod.mk.inj h
    rfl
  | cons m rest ih =>
    rw [get] at h
    cases hm : m[k]? with
    | some w =>
      simp only [hm] at h
      exact (Prod.mk.inj h).2.symm
    | none =>
      simp only [hm] at h
      split at h
      · exact load_eq_of_isEmpty h hv
      · rcases hrest : t.get db rest k with ⟨_ | w, rest'⟩
        · simp [hrest] at h
        · simp only [hrest] at h
          split at h
          · next hempty =>
            rw [ht.isEmpty_assign] at hempty
            rw [ih hrest hempty] at h
            exact load_eq_of_isEmpty h hv
          · next hne =>
            rw [Except.ok.inj (Prod.mk.inj h).1, hv] at hne
            exact absurd rfl hne

theorem length_get (stack : List (Cache K V)) (k : K) :
    (t.get db stack k).2.length = stack.length := by
  induction stack with
  | nil => rfl
  | cons m rest ih =>
    obtain ⟨rest', hrest, hget⟩ := get_snd_cons t db m rest k
    have hlen : rest'.length = rest.length := by
      rcases hrest with rfl | rfl
      · rfl
      · exact ih
    rcases hget with h | ⟨v, -, -, -, h⟩ <;> rw [h] <;> simp [hlen]

/-- What holds of every record kept, and of what stands for a missing one, holds of what is
read. -/
theorem forall_view {F : V → Prop} (hassign : ∀ x v, F v → F (t.assign x v))
    (hmissing : ∀ v, F v → F (t.missing v)) (hdb : ∀ k v, db k = .ok v → F v)
    {stack : List (Cache K V)} (hstack : SoundStack (fun _ v ↦ F v) stack) {k : K} {v : V}
    (h : t.view db stack k = .ok v) : F v := by
  have hstored : ∀ v, t.stored db k = .ok v → F v := by
    intro v hv
    unfold stored at hv
    cases hw : db k with
    | error e => simp [hw] at hv
    | ok w =>
      simp only [hw] at hv
      have hF := hassign t.blank w (hdb k w hw)
      split at hv
      · exact Except.ok.inj hv ▸ hmissing _ hF
      · exact Except.ok.inj hv ▸ hF
  induction stack generalizing v with
  | nil => exact hdb k v h
  | cons m rest ih =>
    rw [view_cons] at h
    cases hm : m[k]? with
    | some w =>
      simp only [hm, Except.ok.injEq] at h
      exact h ▸ hstack m (by simp) k w hm
    | none =>
      simp only [hm] at h
      split at h
      · exact hstored v h
      · cases hw : t.view db rest k with
        | error e => simp [hw] at h
        | ok w =>
          simp only [hw] at h
          split at h
          · exact hstored v h
          · have hrest : SoundStack (fun _ v ↦ F v) rest :=
              fun m hm ↦ hstack m (List.mem_cons_of_mem _ hm)
            exact Except.ok.inj h ▸ hassign _ _ (ih hrest hw)

theorem exists_view_eq_ok {k : K} (hdb : ∃ v, db k = .ok v) (stack : List (Cache K V)) :
    ∃ v, t.view db stack k = .ok v := by
  obtain ⟨w, hw⟩ := hdb
  have hstored : ∃ v, t.stored db k = .ok v := by
    unfold stored
    rw [hw]
    dsimp only
    split <;> exact ⟨_, rfl⟩
  induction stack with
  | nil => exact ⟨w, hw⟩
  | cons m rest ih =>
    obtain ⟨v, hv⟩ := ih
    rw [view_cons, hv]
    cases m[k]? with
    | some v => exact ⟨v, rfl⟩
    | none =>
      dsimp only
      split
      · exact hstored
      · split
        · exact hstored
        · exact ⟨_, rfl⟩

/-- Where no cache holds an empty entity, an empty answer comes from the backing store. -/
theorem stored_of_view_isEmpty {stack : List (Cache K V)} (hne : stack ≠ [])
    (hfull : SoundStack (fun _ v ↦ t.isEmpty v = false) stack) {k : K} {v : V}
    (h : t.view db stack k = .ok v) (hv : t.isEmpty v = true) : t.stored db k = .ok v := by
  cases stack with
  | nil => contradiction
  | cons m rest =>
    rw [view_cons] at h
    cases hm : m[k]? with
    | some w =>
      simp only [hm, Except.ok.injEq] at h
      have hw := hfull m (by simp) k w hm
      simp [h, hv] at hw
    | none =>
      simp only [hm] at h
      split at h
      · exact h
      · cases hw : t.view db rest k with
        | error e => simp [hw] at h
        | ok w =>
          simp only [hw] at h
          split at h
          · exact h
          · next hempty => simp [Except.ok.inj h, hv] at hempty

/-- A new layer shows what the stack below shows, as far as assignment carries it. -/
theorem view_empty_cons (ht : t.Lawful) {stack : List (Cache K V)}
    (hfull : SoundStack (fun _ v ↦ t.isEmpty v = false) stack)
    (hmissing : ∀ x v, t.isEmpty v = true → t.assign x (t.missing v) = t.assign x v) (x : V)
    (k : K) :
    (t.view db (∅ :: stack) k).map (t.assign x) = (t.view db stack k).map (t.assign x) := by
  have hstored : (t.stored db k).map (t.assign x) = (db k).map (t.assign x) := by
    unfold stored
    cases db k with
    | error e => rfl
    | ok v =>
      dsimp only
      split
      · next h => exact congrArg Except.ok ((hmissing _ _ h).trans (ht.assign_assign _ _ _))
      · exact congrArg Except.ok (ht.assign_assign _ _ _)
  rw [view_cons]
  cases stack with
  | nil => simpa using hstored
  | cons m rest =>
    cases hv : t.view db (m :: rest) k with
    | error e => simp
    | ok v =>
      simp only [ExtTreeMap.getElem?_empty, List.isEmpty_cons, Bool.false_eq_true, if_false]
      split
      · next hempty =>
        rw [ht.isEmpty_assign] at hempty
        rw [stored_of_view_isEmpty (by simp) hfull hv hempty]
      · exact congrArg Except.ok (ht.assign_assign _ _ _)

end View

section Put

variable {t db Q} [LawfulEqOrd K] [DecidableEq K]

theorem SoundStack.get (ht : t.Lawful) (hQ : t.Stable Q) (hdb : t.SoundStore db Q)
    {stack : List (Cache K V)} (hs : SoundStack Q stack) (k : K) :
    SoundStack Q (t.get db stack k).2 := by
  induction stack with
  | nil => exact hs
  | cons m rest ih =>
    have hm : Sound Q m := hs m (by simp)
    have hrest : SoundStack Q rest := fun m' hm' ↦ hs m' (by simp [hm'])
    obtain ⟨rest', hrest', hget⟩ := get_snd_cons t db m rest k
    have hsound : SoundStack Q rest' := by
      rcases hrest' with rfl | rfl
      · exact hrest
      · exact ih hrest
    rcases hget with h | ⟨v, -, hv, hne, h⟩ <;> rw [h] <;> intro m' hm'
    · rcases List.mem_cons.mp hm' with rfl | hmem
      · exact hm
      · exact hsound m' hmem
    · have hQv := sound_of_view ht hQ hdb hs hv hne
      rcases List.mem_cons.mp hm' with rfl | hmem
      · exact hm.put hQ ((hQ.key_eq k v hQv).symm ▸ hQv)
      · exact hsound m' hmem

theorem view_put_view {m : Cache K V} {rest : List (Cache K V)} {k : K} {v : V}
    (hm : m[k]? = none) (hv : t.view db (m :: rest) k = .ok v) (hkey : t.key v = k) :
    t.view db (t.put m v :: rest) = t.view db (m :: rest) := by
  subst hkey
  funext a
  by_cases ha : t.key v = a
  · subst ha
    rw [hv]
    refine view_cons_hit ?_
    rw [getElem?_put, if_pos rfl, written_of_none hm]
  · rw [view_cons, view_cons, getElem?_put, if_neg ha]

theorem view_get (ht : t.Lawful) (hQ : t.Stable Q) (hdb : t.SoundStore db Q)
    {stack : List (Cache K V)} (hs : SoundStack Q stack) (k : K) :
    t.view db (t.get db stack k).2 = t.view db stack := by
  induction stack with
  | nil => rfl
  | cons m rest ih =>
    have hrest : SoundStack Q rest := fun m' hm' ↦ hs m' (by simp [hm'])
    obtain ⟨rest', hrest', hget⟩ := get_snd_cons t db m rest k
    have hview : t.view db (m :: rest') = t.view db (m :: rest) := by
      rcases hrest' with rfl | rfl
      · rfl
      · refine view_cons_congr ?_ (ih hrest)
        rw [Bool.eq_iff_iff, List.isEmpty_iff_length_eq_zero, List.isEmpty_iff_length_eq_zero,
          length_get]
    rcases hget with h | ⟨v, hm, hv, hne, h⟩
    · rw [h, hview]
    · have hkey := hQ.key_eq k v (sound_of_view ht hQ hdb hs hv hne)
      rw [h, view_put_view hm (by rwa [hview]) hkey, hview]

theorem SoundStack.putTop (hQ : t.Stable Q) {stack : List (Cache K V)} (hs : SoundStack Q stack)
    {v : V} (hv : Q (t.key v) v) : SoundStack Q (t.putTop v stack) := by
  cases stack with
  | nil => exact hs
  | cons m rest =>
    intro m' hm'
    rcases List.mem_cons.mp hm' with rfl | hmem
    · exact (hs m (by simp)).put hQ hv
    · exact hs m' (by simp [hmem])

theorem view_put (m : Cache K V) (rest : List (Cache K V)) (v : V) :
    t.view db (t.put m v :: rest) =
      Function.update (t.view db (m :: rest)) (t.key v) (.ok (t.written m v)) := by
  funext a
  by_cases ha : a = t.key v
  · subst ha
    rw [Function.update_self]
    exact view_cons_hit (by rw [getElem?_put, if_pos rfl])
  · rw [Function.update_of_ne ha, view_cons, view_cons, getElem?_put, if_neg (Ne.symm ha)]

end Put

end Table

end GseNetwork.Foundation.ReadThrough
