import GseNetwork.Foundation.ReadThrough

namespace GseNetwork.Foundation.ReadThrough

open Std

variable {K V W ε : Type} [Ord K] [TransOrd K]

section Fold

variable {α : Type} (κ : α → K) (g : α → W) [LawfulEqOrd K] [DecidableEq K]

/-- After a list of insertions a key holds what the last insertion under it put there. -/
theorem getElem?_foldl_insert (l : List α) (m : ExtTreeMap K W) (k : K) :
    (∃ a ∈ l, κ a = k ∧ (l.foldl (fun m a ↦ m.insert (κ a) (g a)) m)[k]? = some (g a)) ∨
      (∀ a ∈ l, κ a ≠ k) ∧ (l.foldl (fun m a ↦ m.insert (κ a) (g a)) m)[k]? = m[k]? := by
  induction l generalizing m with
  | nil => exact Or.inr ⟨fun a ha ↦ absurd ha List.not_mem_nil, rfl⟩
  | cons a l ih =>
    rcases ih (m.insert (κ a) (g a)) with ⟨b, hb, hkey, hget⟩ | ⟨hnone, hget⟩
    · exact Or.inl ⟨b, List.mem_cons_of_mem _ hb, hkey, hget⟩
    · by_cases ha : κ a = k
      · left
        refine ⟨a, List.mem_cons_self, ha, hget.trans ?_⟩
        rw [getElem?_insert, if_pos ha]
      · right
        refine ⟨fun b hb ↦ ?_, hget.trans ?_⟩
        · rcases List.mem_cons.mp hb with rfl | hmem
          · exact ha
          · exact hnone b hmem
        · rw [getElem?_insert, if_neg ha]

theorem getElem?_foldl_toList {h : V → W} (m : ExtTreeMap K W) (cache : Cache K V)
    (key : V → K) (hkey : ∀ k v, cache[k]? = some v → key v = k) (k : K) :
    (cache.toList.foldl (fun m i ↦ m.insert (key i.2) (h i.2)) m)[k]? =
      (cache[k]?.map h).or m[k]? := by
  rcases getElem?_foldl_insert (fun i : K × V ↦ key i.2) (fun i ↦ h i.2) cache.toList m k with
    ⟨⟨a, v⟩, hmem, heq, hget⟩ | ⟨hnone, hget⟩
  · have hcache := ExtTreeMap.mem_toList_iff_getElem?_eq_some.mp hmem
    obtain rfl : a = k := (hkey a v hcache).symm.trans heq
    rw [hget, hcache]
    rfl
  · cases hcache : cache[k]? with
    | none => exact hget
    | some v =>
      have hmem := ExtTreeMap.mem_toList_iff_getElem?_eq_some.mpr hcache
      exact absurd (hkey k v hcache) (hnone (k, v) hmem)

end Fold

namespace Table

/-- On the entities of `Q` assignment copies everything, and no other entity than the sentinel
itself counts as absent. -/
structure Plain (t : Table K V) (Q : V → Prop) : Prop where
  blank : Q t.blank
  assign : ∀ x v, Q x → Q v → t.assign x v = v
  missing : ∀ v, Q v → t.isEmpty v = true → t.missing v = v

def lookup (f : K → V) : List (Cache K V) → K → V
  | [], k => f k
  | m :: rest, k => m[k]?.getD (lookup f rest k)

def shown (f : K → V) : List (Cache K V) → List (K → V)
  | [] => [f]
  | m :: rest => lookup f (m :: rest) :: shown f rest

/-- Store and caches hold entities of `Q` under their own keys, the caches no absent ones. -/
structure Tidy (t : Table K V) (Q : V → Prop) (f : K → V) (stack : List (Cache K V)) : Prop where
  store : ∀ k, Q (f k)
  storeKey : ∀ k, t.isEmpty (f k) = false → t.key (f k) = k
  entry : ∀ m ∈ stack, ∀ k v, m[k]? = some v → t.key v = k ∧ t.isEmpty v = false ∧ Q v

variable {t : Table K V} {Q : V → Prop} {f : K → V} {m : Cache K V} {stack rest : List (Cache K V)}
  {k : K} {v : V}

theorem lookup_cons (f : K → V) (m : Cache K V) (rest : List (Cache K V)) (k : K) :
    lookup f (m :: rest) k = m[k]?.getD (lookup f rest k) := rfl

theorem head?_shown (f : K → V) (stack : List (Cache K V)) :
    (shown f stack).head? = some (lookup f stack) := by
  cases stack <;> rfl

theorem lookup_eq_of_shown {f' : K → V} {stack' : List (Cache K V)}
    (h : shown f' stack' = shown f stack) : lookup f' stack' = lookup f stack := by
  have hhead := congrArg List.head? h
  rw [head?_shown, head?_shown] at hhead
  exact Option.some.inj hhead

theorem length_shown (f : K → V) (stack : List (Cache K V)) :
    (shown f stack).length = stack.length + 1 := by
  induction stack with
  | nil => rfl
  | cons m rest ih => exact congrArg (· + 1) ih

theorem getElem?_shown (f : K → V) (stack : List (Cache K V)) {i : ℕ} (hi : i ≤ stack.length) :
    (shown f stack)[i]? = some (lookup f (stack.drop i)) := by
  induction stack generalizing i with
  | nil =>
    obtain rfl : i = 0 := by simpa using hi
    rfl
  | cons m rest ih =>
    cases i with
    | zero => rfl
    | succ i => exact ih (by simpa using hi)

section Tidy

theorem Tidy.tail (h : t.Tidy Q f (m :: rest)) : t.Tidy Q f rest :=
  ⟨h.store, h.storeKey, fun m' hm' ↦ h.entry m' (List.mem_cons_of_mem _ hm')⟩

theorem Tidy.cons (h : t.Tidy Q f rest)
    (hentry : ∀ k v, m[k]? = some v → t.key v = k ∧ t.isEmpty v = false ∧ Q v) :
    t.Tidy Q f (m :: rest) := by
  refine ⟨h.store, h.storeKey, fun m' hm' ↦ ?_⟩
  rcases List.mem_cons.mp hm' with rfl | hmem
  · exact hentry
  · exact h.entry m' hmem

theorem Tidy.key_eq (h : t.Tidy Q f (m :: rest)) (k : K) (v : V) (hv : m[k]? = some v) :
    t.key v = k := (h.entry m List.mem_cons_self k v hv).1

theorem Tidy.drop (h : t.Tidy Q f stack) (i : ℕ) : t.Tidy Q f (stack.drop i) :=
  ⟨h.store, h.storeKey, fun m hm ↦ h.entry m (List.mem_of_mem_drop hm)⟩

theorem Tidy.lookup (h : t.Tidy Q f stack) (k : K) :
    Q (lookup f stack k) ∧ (t.isEmpty (Table.lookup f stack k) = false →
      t.key (Table.lookup f stack k) = k) ∧
      (t.isEmpty (Table.lookup f stack k) = true → Table.lookup f stack k = f k) := by
  induction stack with
  | nil => exact ⟨h.store k, h.storeKey k, fun _ ↦ rfl⟩
  | cons m rest ih =>
    rw [lookup_cons]
    cases hm : m[k]? with
    | none => exact ih h.tail
    | some v =>
      obtain ⟨hkey, hne, hQ⟩ := h.entry m List.mem_cons_self k v hm
      refine ⟨hQ, fun _ ↦ hkey, fun hempty ↦ ?_⟩
      rw [Option.getD_some, hne] at hempty
      contradiction

theorem Tidy.written (ht : t.Plain Q) (h : t.Tidy Q f (m :: rest)) (hv : Q v) :
    t.written m v = v := by
  unfold Table.written
  cases hm : m[t.key v]? with
  | none => rfl
  | some old =>
    obtain ⟨-, -, hold⟩ := h.entry m List.mem_cons_self _ old hm
    exact ht.assign old v hold hv

variable [LawfulEqOrd K] [DecidableEq K]

theorem Tidy.put (ht : t.Plain Q) (h : t.Tidy Q f (m :: rest)) (hv : Q v)
    (hne : t.isEmpty v = false) : t.Tidy Q f (t.put m v :: rest) := by
  refine h.tail.cons fun k w hw ↦ ?_
  rw [getElem?_put, h.written ht hv] at hw
  split_ifs at hw with hk
  · obtain rfl := Option.some.inj hw
    exact ⟨hk, hne, hv⟩
  · exact h.entry m List.mem_cons_self k w hw

end Tidy

section Operations

theorem shown_push (f : K → V) (stack : List (Cache K V)) :
    shown f (∅ :: stack) = lookup f stack :: shown f stack := by
  have hlookup : lookup f (∅ :: stack) = lookup f stack := by
    funext k
    simp [lookup_cons]
  rw [shown, hlookup]

theorem shown_push_of_eq {g : K → V} {gs : List (K → V)} (h : g :: gs = shown f stack) :
    g :: g :: gs = shown f (∅ :: stack) := by
  have hhead := head?_shown f stack
  rw [← h, List.head?_cons] at hhead
  rw [shown_push, ← h, Option.some.inj hhead]

/-- What a layer shows does not depend on how the layers below are cached. -/
theorem shown_cons_congr {g : K → V} {gs : List (K → V)} {rest' : List (Cache K V)}
    (h : g :: gs = shown f (m :: rest)) (hrest : gs = shown f rest') :
    g :: gs = shown f (m :: rest') := by
  obtain ⟨hhead, htail⟩ := List.cons.inj h
  have hlookup := lookup_eq_of_shown (hrest.symm.trans htail)
  rw [shown, ← hrest, hhead]
  refine congrArg (· :: gs) (funext fun k ↦ ?_)
  rw [lookup_cons, lookup_cons, hlookup]

theorem lookup_concat (f : K → V) (stack : List (Cache K V)) (m : Cache K V) :
    lookup f (stack ++ [m]) = lookup (lookup f [m]) stack := by
  induction stack with
  | nil => rfl
  | cons m' rest ih =>
    funext k
    rw [List.cons_append, lookup_cons, ih, lookup_cons]

theorem shown_concat (f : K → V) (stack : List (Cache K V)) (m : Cache K V) :
    shown f (stack ++ [m]) = shown (lookup f [m]) stack ++ [f] := by
  induction stack with
  | nil => rfl
  | cons m' rest ih =>
    have hlookup := lookup_concat f (m' :: rest) m
    rw [List.cons_append] at hlookup ⊢
    rw [shown, ih, shown, hlookup]
    rfl

theorem Tidy.concat (h : t.Tidy Q f (stack ++ [m])) : t.Tidy Q (Table.lookup f [m]) stack := by
  have hlast : t.Tidy Q f [m] :=
    ⟨h.store, h.storeKey, fun m' hm' ↦ h.entry m' (List.mem_append_right _ hm')⟩
  exact ⟨fun k ↦ (hlast.lookup k).1, fun k ↦ (hlast.lookup k).2.1,
    fun m' hm' ↦ h.entry m' (List.mem_append_left _ hm')⟩

variable {db : K → Except ε V} [LawfulEqOrd K] [DecidableEq K]

theorem lookup_put (ht : t.Plain Q) (h : t.Tidy Q f (m :: rest)) (hv : Q v) :
    lookup f (t.put m v :: rest) = Function.update (lookup f (m :: rest)) (t.key v) v := by
  funext a
  rw [lookup_cons, getElem?_put, h.written ht hv, Function.update_apply]
  by_cases ha : a = t.key v
  · rw [if_pos ha.symm, if_pos ha]
    rfl
  · rw [if_neg (Ne.symm ha), if_neg ha]
    rfl

theorem shown_put (ht : t.Plain Q) (h : t.Tidy Q f (m :: rest)) (hv : Q v) :
    shown f (t.put m v :: rest) =
      Function.update (lookup f (m :: rest)) (t.key v) v :: shown f rest := by
  rw [shown, lookup_put ht h hv]

theorem Tidy.fill (ht : t.Plain Q) (h : t.Tidy Q f (m :: rest)) {rest' : List (Cache K V)}
    (hrest : t.Tidy Q f rest') (hshown : shown f rest' = shown f rest)
    (hm : m[k]? = none) (hne : t.isEmpty (Table.lookup f rest k) = false) :
    shown f (t.put m (Table.lookup f rest k) :: rest') = shown f (m :: rest) ∧
      t.Tidy Q f (t.put m (Table.lookup f rest k) :: rest') := by
  obtain ⟨hQ, hkey, -⟩ := h.tail.lookup k
  have hcons : t.Tidy Q f (m :: rest') := hrest.cons (h.entry m List.mem_cons_self)
  refine ⟨?_, hcons.put ht hQ hne⟩
  have hlookup := lookup_eq_of_shown hshown
  rw [shown_put ht hcons hQ, hkey hne, hshown, shown]
  refine congrArg (· :: shown f rest) ?_
  funext a
  rw [Function.update_apply, lookup_cons, lookup_cons, hlookup]
  by_cases ha : a = k
  · rw [if_pos ha, ha, hm]
    rfl
  · rw [if_neg ha]

theorem Tidy.load (ht : t.Plain Q) (hdb : ∀ k, db k = .ok (f k)) (h : t.Tidy Q f (m :: rest))
    {rest' : List (Cache K V)} (hrest : t.Tidy Q f rest') (hshown : shown f rest' = shown f rest)
    (hm : m[k]? = none) (hbelow : Table.lookup f rest k = f k) :
    (t.load db m rest' k).1 = .ok (f k) ∧
      shown f (t.load db m rest' k).2 = shown f (m :: rest) ∧
      t.Tidy Q f (t.load db m rest' k).2 := by
  have hsame : shown f (m :: rest') = shown f (m :: rest) := by
    rw [shown, shown, hshown]
    refine congrArg (· :: shown f rest) (funext fun a ↦ ?_)
    rw [lookup_cons, lookup_cons, lookup_eq_of_shown hshown]
  unfold Table.load
  rw [hdb k]
  dsimp only
  rw [ht.assign t.blank (f k) ht.blank (h.store k)]
  split_ifs with hempty
  · exact ⟨congrArg Except.ok (ht.missing _ (h.store k) hempty), hsame,
      hrest.cons (h.entry m List.mem_cons_self)⟩
  · have hne : t.isEmpty (Table.lookup f rest k) = false := by
      rw [hbelow]
      simpa using hempty
    have hfill := h.fill ht hrest hshown hm hne
    rw [hbelow] at hfill
    exact ⟨rfl, hfill⟩

/-- A read answers with what the stack shows, and no layer shows anything else afterwards. -/
theorem Tidy.get (ht : t.Plain Q) (hdb : ∀ k, db k = .ok (f k)) (h : t.Tidy Q f stack) (k : K) :
    (t.get db stack k).1 = .ok (Table.lookup f stack k) ∧
      shown f (t.get db stack k).2 = shown f stack ∧ t.Tidy Q f (t.get db stack k).2 := by
  induction stack with
  | nil => exact ⟨hdb k, rfl, h⟩
  | cons m rest ih =>
    rw [Table.get, lookup_cons]
    cases hm : m[k]? with
    | some v => exact ⟨rfl, rfl, h⟩
    | none =>
      rw [Option.getD_none]
      dsimp only
      split_ifs with hnil
      · obtain rfl := List.isEmpty_iff.mp hnil
        exact h.load ht hdb h.tail rfl hm rfl
      · obtain ⟨hresult, hshown, htidy⟩ := ih h.tail
        rcases hget : t.get db rest k with ⟨_ | v, rest'⟩
        · rw [hget] at hresult
          cases hresult
        · rw [hget] at hresult hshown htidy
          obtain rfl : v = Table.lookup f rest k := Except.ok.inj hresult
          obtain ⟨hQ, -, hstore⟩ := h.tail.lookup k
          dsimp only
          rw [ht.assign t.blank _ ht.blank hQ]
          split_ifs with hempty
          · have hbelow := hstore hempty
            have hload := h.load ht hdb htidy hshown hm hbelow
            rw [hbelow]
            exact hload
          · exact ⟨rfl, h.fill ht htidy hshown hm (by simpa using hempty)⟩

end Operations

end Table

end GseNetwork.Foundation.ReadThrough
