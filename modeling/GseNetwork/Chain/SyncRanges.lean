import GseNetwork.Chain.Sync

namespace GseNetwork.Chain.Sync

open GseNetwork.Core

variable {ε : Type}

abbrev Request (ε : Type) := ε × UInt64 × UInt64

def Asked (sent : List (Request ε)) (i : ℕ) : Prop :=
  ∃ r ∈ sent, r.2.1.toNat ≤ i ∧ i ≤ r.2.2.toNat

def Tiles (height : UInt64) (sent : List (Request ε)) : Prop :=
  ∃ n, ∀ i, Asked sent i ↔ height.toNat + 1 ≤ i ∧ i < height.toNat + 1 + n

def holders (table : List (ε × UInt64)) (n : ℕ) : ℕ := table.countP fun x ↦ n ≤ x.2.toNat

def tips (table : List (ε × UInt64)) (first last : ℕ) : ℕ :=
  table.countP fun x ↦ first ≤ x.2.toNat ∧ x.2.toNat ≤ last

def roundStart (height : UInt64) (k : ℕ) : ℕ := height.toNat + 1 + 15 * k

/-- Two peers a round are enough for all that have the first block of some round, so that none is
left after round `k`. -/
def UsedUp (height : UInt64) (table : List (ε × UInt64)) (k : ℕ) : Prop :=
  ∃ j ≤ k, holders table (roundStart height j) ≤ 2 * (k + 1 - j)

/-- Two peers a round are enough for all that end between the first block of some round and the
last one of round `k`, so that the peers left for round `k` have all of it. -/
def Whole (height : UInt64) (table : List (ε × UInt64)) (k : ℕ) : Prop :=
  ∃ j ≤ k, tips table (roundStart height j) (roundStart height k + 13) ≤ 2 * (k - j)

structure Gapless (height : UInt64) (table : List (ε × UInt64)) : Prop where
  successor : table ≠ [] → height.toNat + 1 < 2 ^ 64
  rounds : ∀ k, UsedUp height table k ∨ roundStart height (k + 1) < 2 ^ 64 ∧
    (Whole height table k ∨ holders table (roundStart height (k + 1)) = 0)

/-- The second request is for the range of the first one, or the first one is for fifteen blocks and
does not end with the largest number. -/
def Joins (x y : Request ε) : Prop :=
  y.2.1 = x.2.1 ∨ x.2.2.toNat = x.2.1.toNat + 14 ∧ x.2.2.toNat + 1 < 2 ^ 64

section Ranges

variable {heights : List (ε × UInt64)} {idx : ℕ} {s e : UInt64}

theorem rangeEnd_lt {height : UInt64} (h : s ≤ height) :
    (rangeEnd s height).toNat < s.toNat + 15 := by
  have h15 : (15 : UInt64).toNat = 15 := rfl
  have h1 : (1 : UInt64).toNat = 1 := rfl
  have hlt := height.toNat_lt
  have hsub := UInt64.toNat_sub_of_le height s h
  unfold rangeEnd countPerRound
  simp only [UInt64.le_iff_toNat_le] at h ⊢
  split_ifs with hround
  · have hadd : (s + 15).toNat = s.toNat + 15 := by
      rw [UInt64.toNat_add]
      omega
    rw [UInt64.toNat_sub_of_le _ _ (by rw [UInt64.le_iff_toNat_le, hadd]; omega), hadd]
    omega
  · omega

theorem length_requestLoop (hodd : idx % 2 = 1 → e.toNat < s.toNat + 15) {r : Request ε}
    (hmem : r ∈ requestLoop heights idx s e) : r.2.2.toNat < r.2.1.toNat + 15 := by
  induction heights generalizing idx s e with
  | nil => cases hmem
  | cons entry heights ih =>
    obtain ⟨p, height⟩ := entry
    unfold requestLoop at hmem
    split_ifs at hmem with heven hreach
    · rcases List.mem_cons.mp hmem with rfl | hmem
      · exact rangeEnd_lt hreach
      · exact ih (fun _ ↦ rangeEnd_lt hreach) hmem
    · exact ih (fun h ↦ by omega) hmem
    · rcases List.mem_cons.mp hmem with rfl | hmem
      · exact hodd (by omega)
      · exact ih (fun h ↦ by omega) hmem

theorem requestLoop_assigned (heven : idx % 2 = 0) (garbage : UInt64) :
    requestLoop heights idx s garbage = requestLoop heights idx s e := by
  induction heights generalizing idx with
  | nil => rfl
  | cons entry heights ih =>
    obtain ⟨p, height⟩ := entry
    unfold requestLoop
    rw [if_pos heven, if_pos heven]
    split_ifs
    · rfl
    · exact ih heven

theorem requestLoop_reach {p : ε} {height : UInt64} (heven : idx % 2 = 0) (h : s ≤ height) :
    requestLoop ((p, height) :: heights) idx s e = (p, s, rangeEnd s height) ::
      requestLoop heights (idx + 1) s (rangeEnd s height) := by
  rw [requestLoop, if_pos heven, if_pos h]

theorem requestLoop_skip {p : ε} {height : UInt64} (heven : idx % 2 = 0) (h : ¬ s ≤ height) :
    requestLoop ((p, height) :: heights) idx s e = requestLoop heights idx s e := by
  rw [requestLoop, if_pos heven, if_neg h]

theorem requestLoop_odd {p : ε} {height : UInt64} (hodd : idx % 2 = 1) :
    requestLoop ((p, height) :: heights) idx s e = (p, s, e) ::
      requestLoop heights (idx + 1) (s + 15) e := by
  rw [requestLoop, if_neg (by omega)]
  rfl

theorem requestLoop_split (heights : List (ε × UInt64)) (s e : UInt64) (heven : idx % 2 = 0) :
    (∀ x ∈ heights, ¬ s ≤ x.2) ∧ requestLoop heights idx s e = [] ∨
      ∃ skipped p height rest, heights = skipped ++ (p, height) :: rest ∧
        (∀ x ∈ skipped, ¬ s ≤ x.2) ∧ s ≤ height ∧
        requestLoop heights idx s e = (p, s, rangeEnd s height) ::
          requestLoop rest (idx + 1) s (rangeEnd s height) := by
  induction heights with
  | nil => exact Or.inl ⟨fun x hx ↦ absurd hx List.not_mem_nil, rfl⟩
  | cons entry heights ih =>
    obtain ⟨p, height⟩ := entry
    by_cases hreach : s ≤ height
    · right
      exact ⟨[], p, height, heights, rfl, fun x hx ↦ absurd hx List.not_mem_nil, hreach,
        requestLoop_reach heven hreach⟩
    · rw [requestLoop_skip heven hreach]
      rcases ih with ⟨hlow, hnone⟩ | ⟨skipped, q, other, rest, rfl, hlow, hother, heq⟩
      · exact Or.inl ⟨List.forall_mem_cons.mpr ⟨hreach, hlow⟩, hnone⟩
      · exact Or.inr ⟨(p, height) :: skipped, q, other, rest, rfl,
          List.forall_mem_cons.mpr ⟨hreach, hlow⟩, hother, heq⟩

/-- The loop between two ranges: nothing is asked for, or one peer or two are asked for the next
range and the loop goes on fifteen blocks later. -/
theorem requestLoop_cases (hsorted : heights.Pairwise fun x y ↦ x.2 ≤ y.2) (heven : idx % 2 = 0) :
    requestLoop heights idx s e = [] ∨
      ∃ p last, s ≤ last ∧ last.toNat < s.toNat + 15 ∧
        (requestLoop heights idx s e = [(p, s, last)] ∨
          ∃ q rest idx', rest.Pairwise (fun x y : ε × UInt64 ↦ x.2 ≤ y.2) ∧
            rest.length < heights.length ∧ idx' % 2 = 0 ∧
            requestLoop heights idx s e =
              (p, s, last) :: (q, s, last) :: requestLoop rest idx' (s + 15) last) := by
  rcases requestLoop_split heights s e heven with
    ⟨-, hnone⟩ | ⟨skipped, p, height, rest, rfl, -, hreach, heq⟩
  · exact Or.inl hnone
  right
  refine ⟨p, rangeEnd s height, (rangeEnd_bounds hreach).1, rangeEnd_lt hreach, ?_⟩
  rw [heq]
  cases rest with
  | nil => exact Or.inl rfl
  | cons entry rest =>
    obtain ⟨q, other⟩ := entry
    rw [requestLoop_odd (by omega)]
    right
    obtain ⟨-, hafter, -⟩ := List.pairwise_append.mp hsorted
    exact ⟨q, rest, idx + 1 + 1, (List.pairwise_cons.mp (List.pairwise_cons.mp hafter).2).2,
      by simp; omega, by omega, rfl⟩

theorem first_eq (hsorted : heights.Pairwise fun x y ↦ x.2 ≤ y.2) (heven : idx % 2 = 0)
    {r : Request ε} {sent : List (Request ε)} (h : requestLoop heights idx s e = r :: sent) :
    r.2.1 = s ∧ s ≤ r.2.2 := by
  rcases requestLoop_cases (e := e) hsorted heven with
    hnone | ⟨p, last, hle, -, hone | ⟨q, rest, idx', -, -, -, htwo⟩⟩
  · rw [hnone] at h
    cases h
  · rw [hone] at h
    cases h
    exact ⟨rfl, hle⟩
  · rw [htwo] at h
    cases h
    exact ⟨rfl, hle⟩

theorem asked_cons {r : Request ε} {sent : List (Request ε)} {i : ℕ} :
    Asked (r :: sent) i ↔ (r.2.1.toNat ≤ i ∧ i ≤ r.2.2.toNat) ∨ Asked sent i := by
  simp only [Asked, List.exists_mem_cons_iff]

theorem asked_twice {p q : ε} {last : UInt64} {sent : List (Request ε)} {i : ℕ} :
    Asked ((p, s, last) :: (q, s, last) :: sent) i ↔
      (s.toNat ≤ i ∧ i ≤ last.toNat) ∨ Asked sent i := by
  rw [asked_cons, asked_cons, ← or_assoc, or_self]

theorem toNat_next (s : UInt64) : (s + 15).toNat = (s.toNat + 15) % 2 ^ 64 := UInt64.toNat_add s 15

end Ranges

section Interval

variable {s e : UInt64}

/-- What is asked for from a start on is an interval if no short range is followed by another. -/
theorem asked_interval {heights : List (ε × UInt64)} {idx : ℕ}
    (hsorted : heights.Pairwise fun x y ↦ x.2 ≤ y.2) (heven : idx % 2 = 0)
    (hchain : (requestLoop heights idx s e).IsChain Joins) :
    ∃ n, ∀ i, Asked (requestLoop heights idx s e) i ↔ s.toNat ≤ i ∧ i < s.toNat + n := by
  induction hlength : heights.length using Nat.strong_induction_on generalizing heights idx s e with
  | _ k ih =>
  rcases requestLoop_cases (e := e) hsorted heven with
    hnone | ⟨p, last, hle, hlt, hone | ⟨q, rest, idx', hrest, hshorter, heven', htwo⟩⟩
  · rw [hnone]
    exact ⟨0, fun i ↦ by simp [Asked]⟩
  · rw [hone]
    rw [UInt64.le_iff_toNat_le] at hle
    refine ⟨last.toNat + 1 - s.toNat, fun i ↦ ?_⟩
    rw [asked_cons]
    simp only [Asked, List.not_mem_nil, false_and, exists_false, or_false]
    omega
  · rw [htwo] at hchain ⊢
    rw [UInt64.le_iff_toNat_le] at hle
    obtain ⟨-, hchain⟩ := List.isChain_cons_cons.mp hchain
    cases hnext : requestLoop rest idx' (s + 15) last with
    | nil =>
      refine ⟨last.toNat + 1 - s.toNat, fun i ↦ ?_⟩
      rw [asked_twice]
      simp only [Asked, List.not_mem_nil, false_and, exists_false, or_false]
      omega
    | cons r sent =>
      rw [hnext] at hchain
      obtain ⟨hstep, hchain⟩ := List.isChain_cons_cons.mp hchain
      obtain ⟨hfirst, -⟩ := first_eq hrest heven' hnext
      have hnext15 := toNat_next s
      have hs := s.toNat_lt
      have hfull : last.toNat = s.toNat + 14 ∧ last.toNat + 1 < 2 ^ 64 := by
        refine hstep.resolve_left fun heq ↦ ?_
        have hsame := congrArg UInt64.toNat (hfirst.symm.trans heq)
        dsimp only at hsame
        omega
      rw [← hnext] at hchain ⊢
      obtain ⟨n, hn⟩ := ih rest.length (by omega) hrest heven' hchain rfl
      refine ⟨15 + n, fun i ↦ ?_⟩
      rw [asked_twice, hn]
      omega

/-- If something more is asked for, and nothing below the first start of all, the next start has
not wrapped around: it would be one short of the first start modulo fifteen. -/
theorem next_of_asked {heights : List (ε × UInt64)} {idx base : ℕ}
    (hsorted : heights.Pairwise fun x y ↦ x.2 ≤ y.2) (heven : idx % 2 = 0) (hbase : 1 ≤ base)
    (hmod : s.toNat % 15 = base % 15)
    (hlow : ∀ i, Asked (requestLoop heights idx (s + 15) e) i → base ≤ i)
    (hmore : requestLoop heights idx (s + 15) e ≠ []) : (s + 15).toNat = s.toNat + 15 := by
  obtain ⟨r, sent, hcons⟩ := List.exists_cons_of_ne_nil hmore
  obtain ⟨hfirst, hlast⟩ := first_eq hsorted heven hcons
  have hstart : Asked (requestLoop heights idx (s + 15) e) (s + 15).toNat := by
    rw [hcons, asked_cons, hfirst]
    exact Or.inl ⟨le_refl _, UInt64.le_iff_toNat_le.mp hlast⟩
  have hbelow := hlow _ hstart
  have hs := s.toNat_lt
  have hnext := toNat_next s
  omega

/-- From a start on nothing below it is asked for, if nothing is asked for below the first start
of all. -/
theorem le_of_asked {heights : List (ε × UInt64)} {idx base : ℕ}
    (hsorted : heights.Pairwise fun x y ↦ x.2 ≤ y.2) (heven : idx % 2 = 0) (hbase : 1 ≤ base)
    (hmod : s.toNat % 15 = base % 15) (hle : base ≤ s.toNat)
    (hlow : ∀ i, Asked (requestLoop heights idx s e) i → base ≤ i) {i : ℕ}
    (hi : Asked (requestLoop heights idx s e) i) : s.toNat ≤ i := by
  induction hlength : heights.length using Nat.strong_induction_on generalizing heights idx s e with
  | _ k ih =>
  rcases requestLoop_cases (e := e) hsorted heven with
    hnone | ⟨p, last, -, -, hone | ⟨q, rest, idx', hrest, hshorter, heven', htwo⟩⟩
  · rw [hnone] at hi
    obtain ⟨r, hr, -⟩ := hi
    cases hr
  · rw [hone, asked_cons] at hi
    rcases hi with hi | ⟨r, hr, -⟩
    · exact hi.1
    · cases hr
  · rw [htwo] at hi hlow
    rcases asked_twice.mp hi with hi | hi
    · exact hi.1
    have hlow' : ∀ j, Asked (requestLoop rest idx' (s + 15) last) j → base ≤ j :=
      fun j hj ↦ hlow j (asked_twice.mpr (Or.inr hj))
    have hmore : requestLoop rest idx' (s + 15) last ≠ [] := by
      obtain ⟨r, hr, -⟩ := hi
      exact List.ne_nil_of_mem hr
    have hnext := next_of_asked hrest heven' hbase hmod hlow' hmore
    have hle' := ih rest.length (by omega) hrest heven' (by omega) (by omega) hlow' hi rfl
    omega

/-- If the numbers asked for have no gap, and none is below the first start of all, no short range
is followed by another. -/
theorem unbroken_of_interval {heights : List (ε × UInt64)} {idx base : ℕ}
    (hsorted : heights.Pairwise fun x y ↦ x.2 ≤ y.2) (heven : idx % 2 = 0) (hbase : 1 ≤ base)
    (hmod : s.toNat % 15 = base % 15) (hle : base ≤ s.toNat)
    (hlow : ∀ i, Asked (requestLoop heights idx s e) i → base ≤ i)
    (hconvex : ∀ i j k, Asked (requestLoop heights idx s e) i →
      Asked (requestLoop heights idx s e) k → i ≤ j → j ≤ k →
      Asked (requestLoop heights idx s e) j) :
    (requestLoop heights idx s e).IsChain Joins := by
  induction hlength : heights.length using Nat.strong_induction_on generalizing heights idx s e with
  | _ k ih =>
  rcases requestLoop_cases (e := e) hsorted heven with
    hnone | ⟨p, last, hreach, hlt, hone | ⟨q, rest, idx', hrest, hshorter, heven', htwo⟩⟩
  · rw [hnone]
    exact List.isChain_nil
  · rw [hone]
    exact List.isChain_singleton _
  · rw [htwo] at hlow hconvex ⊢
    refine List.isChain_cons_cons.mpr ⟨Or.inl rfl, ?_⟩
    cases hnext : requestLoop rest idx' (s + 15) last with
    | nil => exact List.isChain_singleton _
    | cons r sent =>
      have hmore : requestLoop rest idx' (s + 15) last ≠ [] := by
        rw [hnext]
        exact List.cons_ne_nil r sent
      have hlow' : ∀ j, Asked (requestLoop rest idx' (s + 15) last) j → base ≤ j :=
        fun j hj ↦ hlow j (asked_twice.mpr (Or.inr hj))
      have hstart := next_of_asked hrest heven' hbase hmod hlow' hmore
      have hlater : ∀ j, Asked (requestLoop rest idx' (s + 15) last) j → s.toNat + 15 ≤ j := by
        intro j hj
        have hj' := le_of_asked hrest heven' hbase (by omega) (by omega) hlow' hj
        omega
      have hfirst := first_eq hrest heven' hnext
      have hr : Asked (requestLoop rest idx' (s + 15) last) (s.toNat + 15) := by
        rw [hnext, asked_cons, hfirst.1, hstart]
        refine Or.inl ⟨le_refl _, ?_⟩
        rw [← hstart]
        exact UInt64.le_iff_toNat_le.mp hfirst.2
      rw [UInt64.le_iff_toNat_le] at hreach
      -- the number after the range is asked for, since the later start is; it must be that start
      have hfull : s.toNat + 14 ≤ last.toNat := by
        by_contra hshort
        have hgap := hconvex s.toNat (last.toNat + 1) (s.toNat + 15)
          (asked_twice.mpr (Or.inl ⟨le_refl _, hreach⟩)) (asked_twice.mpr (Or.inr hr))
          (by omega) (by omega)
        rcases asked_twice.mp hgap with hin | hin
        · omega
        · have hge := hlater _ hin
          omega
      have hbound := (s + 15).toNat_lt
      rw [← hnext]
      have htail := ih rest.length (by omega) hrest heven' (by omega) (by omega) hlow'
        (fun i j k hi hk hij hjk ↦ ?_) rfl
      · rw [hnext] at htail ⊢
        refine List.isChain_cons_cons.mpr ⟨Or.inr ⟨?_, ?_⟩, htail⟩ <;> dsimp only <;> omega
      · have hj := hconvex i j k (asked_twice.mpr (Or.inr hi)) (asked_twice.mpr (Or.inr hk)) hij hjk
        have hge := hlater i hi
        refine (asked_twice.mp hj).resolve_left fun hin ↦ ?_
        omega

end Interval

section Counting

variable {heights rest skipped : List (ε × UInt64)} {idx : ℕ} {s e : UInt64}

theorem holders_cons (x : ε × UInt64) (table : List (ε × UInt64)) (n : ℕ) :
    holders (x :: table) n = holders table n + if n ≤ x.2.toNat then 1 else 0 := by
  simp [holders, List.countP_cons]

theorem holders_append (table table' : List (ε × UInt64)) (n : ℕ) :
    holders (table ++ table') n = holders table n + holders table' n :=
  List.countP_append

theorem holders_eq_zero_iff {n : ℕ} : holders heights n = 0 ↔ ∀ x ∈ heights, x.2.toNat < n := by
  simp [holders, List.countP_eq_zero]

theorem holders_eq_length_iff {n : ℕ} :
    holders heights n = heights.length ↔ ∀ x ∈ heights, n ≤ x.2.toNat := by
  simp [holders, List.countP_eq_length]

theorem tips_add_holders {first last : ℕ} (h : first ≤ last + 1) :
    tips heights first last + holders heights (last + 1) = holders heights first := by
  induction heights with
  | nil => rfl
  | cons x heights ih =>
    unfold tips at ih ⊢
    rw [List.countP_cons, holders_cons, holders_cons, ← ih]
    simp only [decide_eq_true_eq]
    split_ifs <;> omega

/-- How many peers are left when a round begins: two fewer than before the round before it, and
only those that have its first block. -/
def remaining (n : ℕ → ℕ) : ℕ → ℕ
  | 0 => n 0
  | k + 1 => min (remaining n k - 2) (n (k + 1))

theorem remaining_le_iff {n : ℕ → ℕ} {k x : ℕ} :
    remaining n k ≤ x ↔ ∃ j ≤ k, n j ≤ x + 2 * (k - j) := by
  induction k generalizing x with
  | zero => simp [remaining]
  | succ k ih =>
    rw [remaining, min_le_iff, Nat.sub_le_iff_le_add, ih]
    constructor
    · rintro (⟨j, hj, hle⟩ | hle)
      · exact ⟨j, by omega, by omega⟩
      · exact ⟨k + 1, le_refl _, by omega⟩
    · rintro ⟨j, hj, hle⟩
      rcases hj.eq_or_lt with rfl | hj
      · exact Or.inr (by omega)
      · exact Or.inl ⟨j, by omega, by omega⟩

theorem remaining_shift {n m : ℕ → ℕ} (h : ∀ j, m j = min (n 0 - 2) (n (j + 1))) (k : ℕ) :
    remaining m k = remaining n (k + 1) := by
  have hbound : ∀ k, remaining n (k + 1) ≤ n 0 - 2 := by
    intro k
    induction k with
    | zero => exact min_le_left _ _
    | succ k ih =>
      have hmin : remaining n (k + 1 + 1) ≤ remaining n (k + 1) - 2 := min_le_left _ _
      omega
  induction k with
  | zero => exact h 0
  | succ k ih =>
    have hk := hbound k
    change min (remaining m k - 2) (m (k + 1)) = min (remaining n (k + 1) - 2) (n (k + 1 + 1))
    rw [ih, h]
    omega

/-- No peer is left after a round, or its range reaches the next round, or no peer has the first
block of that. -/
def Meets (start : ℕ) (table : List (ε × UInt64)) (k : ℕ) : Prop :=
  let left := remaining (fun j ↦ holders table (start + 15 * j)) k
  left ≤ 2 ∨ start + 15 * (k + 1) < 2 ^ 64 ∧
    (left ≤ holders table (start + 15 * k + 14) ∨ holders table (start + 15 * (k + 1)) = 0)

theorem meets_of_few {start : ℕ} (h : holders heights start ≤ 2) (k : ℕ) :
    Meets start heights k :=
  Or.inl (remaining_le_iff.mpr ⟨0, Nat.zero_le k, by simpa using h.trans (by omega)⟩)

theorem requestLoop_eq_nil_iff (heven : idx % 2 = 0) :
    requestLoop heights idx s e = [] ↔ holders heights s.toNat = 0 := by
  rw [holders_eq_zero_iff]
  rcases requestLoop_split heights s e heven with
    ⟨hlow, hnone⟩ | ⟨skipped, p, height, rest, rfl, -, hreach, heq⟩
  · refine iff_of_true hnone fun x hx ↦ ?_
    exact Nat.lt_of_not_le (mt UInt64.le_iff_toNat_le.mpr (hlow x hx))
  · refine iff_of_false (by simp [heq]) fun hall ↦ ?_
    have hlt := hall (p, height) (by simp)
    rw [UInt64.le_iff_toNat_le] at hreach
    dsimp only at hlt
    omega

theorem rangeEnd_full_iff {height : UInt64} (h : s ≤ height) :
    (rangeEnd s height).toNat = s.toNat + 14 ↔ s.toNat + 14 ≤ height.toNat := by
  have hbounds := rangeEnd_bounds h
  have h15 : (15 : UInt64).toNat = 15 := rfl
  have h1 : (1 : UInt64).toNat = 1 := rfl
  have hlt := height.toNat_lt
  have hsub := UInt64.toNat_sub_of_le height s h
  unfold rangeEnd countPerRound at hbounds ⊢
  simp only [UInt64.le_iff_toNat_le] at h hbounds ⊢
  split_ifs at hbounds ⊢ with hround
  · have hadd : (s + 15).toNat = s.toNat + 15 := by
      rw [UInt64.toNat_add]
      omega
    have hsub₁ : (s + 15 - 1).toNat = s.toNat + 15 - 1 := by
      rw [UInt64.toNat_sub_of_le _ _ (by rw [UInt64.le_iff_toNat_le]; omega), hadd]
      rfl
    omega
  · omega

theorem holders_rest {p q : ε} {a b : UInt64} {n : ℕ}
    (hsorted : (skipped ++ (p, a) :: (q, b) :: rest).Pairwise fun x y ↦ x.2 ≤ y.2)
    (hlow : ∀ x ∈ skipped, ¬ s ≤ x.2) (hreach : s ≤ a) (hn : s.toNat ≤ n) :
    holders (skipped ++ (p, a) :: (q, b) :: rest) s.toNat = rest.length + 2 ∧
      holders rest n = min rest.length (holders (skipped ++ (p, a) :: (q, b) :: rest) n) ∧
      (rest.length + 2 ≤ holders (skipped ++ (p, a) :: (q, b) :: rest) n ↔ n ≤ a.toNat) := by
  obtain ⟨-, hafter, -⟩ := List.pairwise_append.mp hsorted
  obtain ⟨hfirst, hafter⟩ := List.pairwise_cons.mp hafter
  obtain ⟨hsecond, -⟩ := List.pairwise_cons.mp hafter
  have hskipped : ∀ m, s.toNat ≤ m → holders skipped m = 0 := by
    intro m hm
    refine holders_eq_zero_iff.mpr fun x hx ↦ ?_
    have hx := mt UInt64.le_iff_toNat_le.mpr (hlow x hx)
    omega
  have hab : a.toNat ≤ b.toNat := UInt64.le_iff_toNat_le.mp (hfirst (q, b) List.mem_cons_self)
  have hrest : ∀ x ∈ rest, b.toNat ≤ x.2.toNat :=
    fun x hx ↦ UInt64.le_iff_toNat_le.mp (hsecond x hx)
  have hall : ∀ m ≤ b.toNat, holders rest m = rest.length :=
    fun m hm ↦ holders_eq_length_iff.mpr fun x hx ↦ hm.trans (hrest x hx)
  have hle : holders rest n ≤ rest.length := List.countP_le_length
  rw [UInt64.le_iff_toNat_le] at hreach
  simp only [holders_append, holders_cons, hskipped _ le_rfl, hskipped n hn]
  refine ⟨?_, ?_, ?_⟩
  · rw [hall _ (by omega), if_pos (by omega), if_pos (by omega)]
    omega
  · by_cases hb : n ≤ b.toNat
    · rw [hall n hb]
      omega
    · rw [if_neg hb, if_neg (by omega)]
      omega
  · by_cases ha : n ≤ a.toNat
    · rw [hall n (by omega), if_pos (by omega), if_pos ha]
      omega
    · rw [if_neg ha]
      split_ifs <;> omega

theorem meets_rest {p q : ε} {a b : UInt64}
    (hsorted : (skipped ++ (p, a) :: (q, b) :: rest).Pairwise fun x y ↦ x.2 ≤ y.2)
    (hlow : ∀ x ∈ skipped, ¬ s ≤ x.2) (hreach : s ≤ a) (hmore : rest ≠ []) (k : ℕ) :
    Meets (s.toNat + 15) rest k ↔
      Meets s.toNat (skipped ++ (p, a) :: (q, b) :: rest) (k + 1) := by
  have hlength : 0 < rest.length := List.length_pos_of_ne_nil hmore
  have hn : ∀ n, s.toNat ≤ n → _ := fun n ↦ holders_rest (n := n) hsorted hlow hreach
  have htotal := (hn _ le_rfl).1
  have hshift := remaining_shift (n := fun j ↦
      holders (skipped ++ (p, a) :: (q, b) :: rest) (s.toNat + 15 * j))
    (m := fun j ↦ holders rest (s.toNat + 15 + 15 * j)) (fun j ↦ by
      rw [(hn _ (by omega)).2.1, show s.toNat + 15 * 0 = s.toNat from rfl, htotal,
        Nat.add_sub_cancel, show s.toNat + 15 + 15 * j = s.toNat + 15 * (j + 1) by omega]) k
  unfold Meets
  dsimp only
  rw [hshift, (hn _ (by omega : s.toNat ≤ s.toNat + 15 + 15 * k + 14)).2.1,
    (hn _ (by omega : s.toNat ≤ s.toNat + 15 + 15 * (k + 1))).2.1,
    show s.toNat + 15 + 15 * (k + 1) = s.toNat + 15 * (k + 1 + 1) by omega,
    show s.toNat + 15 + 15 * k + 14 = s.toNat + 15 * (k + 1) + 14 by omega]
  have hbound : remaining (fun j ↦
      holders (skipped ++ (p, a) :: (q, b) :: rest) (s.toNat + 15 * j)) (k + 1) ≤ rest.length :=
    remaining_le_iff.mpr
      ⟨0, Nat.zero_le _, by simp only [Nat.mul_zero, Nat.add_zero, htotal]; omega⟩
  omega

/-- No short range is followed by another exactly if every round meets the next. -/
theorem isChain_requestLoop_iff (hsorted : heights.Pairwise fun x y ↦ x.2 ≤ y.2)
    (heven : idx % 2 = 0) :
    (requestLoop heights idx s e).IsChain Joins ↔ ∀ k, Meets s.toNat heights k := by
  induction hlength : heights.length using Nat.strong_induction_on generalizing heights idx s e with
  | _ n ih =>
  subst hlength
  rcases requestLoop_split heights s e heven with
    ⟨hlow, hnone⟩ | ⟨skipped, p, a, rest, rfl, hlow, hreach, heq⟩
  · rw [requestLoop_eq_nil_iff heven] at hnone
    rw [(requestLoop_eq_nil_iff heven).mpr hnone]
    exact iff_of_true List.isChain_nil (meets_of_few (by omega))
  rw [heq]
  rcases rest with _ | ⟨⟨q, b⟩, rest⟩
  · refine iff_of_true (List.isChain_singleton _) (meets_of_few ?_)
    have hskipped : holders skipped s.toNat = 0 := holders_eq_zero_iff.mpr fun x hx ↦
      Nat.lt_of_not_le (mt UInt64.le_iff_toNat_le.mpr (hlow x hx))
    rw [holders_append, hskipped, holders_cons]
    simp only [holders, List.countP_nil]
    split_ifs <;> omega
  rw [requestLoop_odd (by omega), List.isChain_cons_cons]
  have hfirst := holders_rest (n := s.toNat) hsorted hlow hreach le_rfl
  obtain ⟨-, hpair, -⟩ := List.pairwise_append.mp hsorted
  obtain ⟨hhigh, hpair⟩ := List.pairwise_cons.mp hpair
  obtain ⟨-, hafter⟩ := List.pairwise_cons.mp hpair
  by_cases hmore : rest = []
  · subst hmore
    refine iff_of_true ⟨Or.inl rfl, List.isChain_singleton _⟩ (meets_of_few ?_)
    rw [hfirst.1]
    rfl
  have hpositive := List.length_pos_of_ne_nil hmore
  have hnext := toNat_next s
  -- The link between the pair and the next request, if there is one.
  have hlink : ((q, s, rangeEnd s a) ::
        requestLoop rest (idx + 1 + 1) (s + 15) (rangeEnd s a)).IsChain Joins ↔
      (holders rest (s + 15).toNat = 0 ∨ s.toNat + 14 ≤ a.toNat ∧ s.toNat + 15 < 2 ^ 64) ∧
        (requestLoop rest (idx + 1 + 1) (s + 15) (rangeEnd s a)).IsChain Joins := by
    rw [← rangeEnd_full_iff hreach, ← requestLoop_eq_nil_iff (e := rangeEnd s a)
      (show (idx + 1 + 1) % 2 = 0 by omega)]
    cases hsent : requestLoop rest (idx + 1 + 1) (s + 15) (rangeEnd s a) with
    | nil => simp
    | cons r sent =>
      obtain ⟨hstart, -⟩ := first_eq hafter (by omega) hsent
      have hother : s + 15 ≠ s := by
        intro hsame
        have hsame := congrArg UInt64.toNat hsame
        have hs := s.toNat_lt
        omega
      rw [List.isChain_cons_cons, Joins, hstart]
      simp only [hother, false_or, reduceCtorEq]
      refine and_congr_left fun _ ↦ and_congr_right fun hfull ↦ ?_
      rw [hfull]
  rw [hlink]
  by_cases hwrap : s.toNat + 15 < 2 ^ 64
  · have hsucc : (s + 15).toNat = s.toNat + 15 := by omega
    have hbehind := holders_rest (n := s.toNat + 15) hsorted hlow hreach (by omega)
    have hfull := holders_rest (n := s.toNat + 14) hsorted hlow hreach (by omega)
    rw [ih rest.length (by simp; omega) hafter (by omega) rfl, hsucc,
      forall_congr' (meets_rest hsorted hlow hreach hmore), hbehind.2.1, ← hfull.2.2]
    constructor
    · rintro ⟨-, hzero, hlater⟩ (_ | k)
      · right
        simp only [remaining, Nat.mul_zero, Nat.add_zero, Nat.zero_add, Nat.mul_one, hfirst.1]
        omega
      · exact hlater k
    · intro hall
      refine ⟨Or.inl rfl, ?_, fun k ↦ hall (k + 1)⟩
      have hzero := hall 0
      simp only [Meets, remaining, Nat.mul_zero, Nat.add_zero, Nat.zero_add, Nat.mul_one,
        hfirst.1] at hzero
      omega
  · refine iff_of_false ?_ fun hall ↦ ?_
    · rintro ⟨-, hnone | hfull, -⟩
      · obtain ⟨x, hx⟩ := List.exists_mem_of_ne_nil rest hmore
        have hlt := holders_eq_zero_iff.mp hnone x hx
        have hge := UInt64.le_iff_toNat_le.mp (hhigh x (List.mem_cons_of_mem _ hx))
        rw [UInt64.le_iff_toNat_le] at hreach
        have hs := s.toNat_lt
        dsimp only at hge
        omega
      · omega
    · have hzero := hall 0
      simp only [Meets, remaining, Nat.mul_zero, Nat.add_zero, Nat.zero_add, Nat.mul_one,
        hfirst.1] at hzero
      omega

theorem gapless_iff {height : UInt64} (hsorted : heights.Pairwise fun x y ↦ x.2 ≤ y.2) :
    Gapless height heights ↔
      (requests height heights ≠ [] → height.toNat + 1 < 2 ^ 64) ∧
        (requests height heights).IsChain Joins := by
  have hstart : (height + 1).toNat = (height.toNat + 1) % 2 ^ 64 := UInt64.toNat_add height 1
  have hlt := height.toNat_lt
  have hchain : (requests height heights).IsChain Joins ↔ ∀ k, Meets (height + 1).toNat heights k :=
    isChain_requestLoop_iff hsorted rfl
  by_cases hnowrap : height.toNat + 1 < 2 ^ 64
  · have hmeets : ∀ k, Meets (height + 1).toNat heights k ↔ UsedUp height heights k ∨
        roundStart height (k + 1) < 2 ^ 64 ∧
          (Whole height heights k ∨ holders heights (roundStart height (k + 1)) = 0) := by
      intro k
      have hone : (height + 1).toNat = height.toNat + 1 := by omega
      have htips : ∀ j ≤ k, tips heights (roundStart height j) (roundStart height k + 13) +
          holders heights (roundStart height k + 14) = holders heights (roundStart height j) :=
        fun j hj ↦ tips_add_holders (by unfold roundStart; omega)
      unfold Meets UsedUp Whole
      dsimp only
      rw [remaining_le_iff, remaining_le_iff, hone]
      refine or_congr (exists_congr fun j ↦ and_congr_right fun hj ↦ ?_)
        (and_congr_right fun _ ↦ or_congr_left (exists_congr fun j ↦ and_congr_right fun hj ↦ ?_))
      · change holders heights (roundStart height j) ≤ _ ↔ _
        omega
      · have hj := htips j hj
        change holders heights (roundStart height j) ≤
          holders heights (roundStart height k + 14) + _ ↔ _
        omega
    rw [hchain]
    constructor
    · rintro ⟨-, hrounds⟩
      exact ⟨fun _ ↦ hnowrap, fun k ↦ (hmeets k).mpr (hrounds k)⟩
    · rintro ⟨-, hall⟩
      exact ⟨fun _ ↦ hnowrap, fun k ↦ (hmeets k).mp (hall k)⟩
  · have hnil : requests height heights = [] ↔ heights = [] := by
      rw [requests, requestLoop_eq_nil_iff rfl, holders_eq_zero_iff]
      constructor
      · intro hall
        refine List.eq_nil_iff_forall_not_mem.mpr fun x hx ↦ ?_
        have hx := hall x hx
        omega
      · rintro rfl x hx
        exact absurd hx List.not_mem_nil
    by_cases hnone : heights = []
    · subst hnone
      refine iff_of_true ⟨fun h ↦ absurd rfl h, fun k ↦ Or.inl ⟨0, Nat.zero_le k, ?_⟩⟩
        ⟨fun h ↦ absurd rfl h, List.isChain_nil⟩
      exact Nat.zero_le _
    · exact iff_of_false (fun h ↦ hnowrap (h.successor hnone))
        fun h ↦ hnowrap (h.1 (mt hnil.mp hnone))

theorem Gapless.perm {height : UInt64} {table : List (ε × UInt64)} (hperm : heights.Perm table) :
    Gapless height heights ↔ Gapless height table := by
  have hholders : ∀ n, holders heights n = holders table n := fun n ↦ hperm.countP_eq _
  have htips : ∀ a b, tips heights a b = tips table a b := fun a b ↦ hperm.countP_eq _
  have hnil : heights = [] ↔ table = [] := by
    rw [← List.length_eq_zero_iff, hperm.length_eq, List.length_eq_zero_iff]
  constructor
  · rintro ⟨hsuccessor, hrounds⟩
    refine ⟨fun h ↦ hsuccessor (mt hnil.mp h), fun k ↦ ?_⟩
    simpa only [UsedUp, Whole, hholders, htips] using hrounds k
  · rintro ⟨hsuccessor, hrounds⟩
    refine ⟨fun h ↦ hsuccessor (mt hnil.mpr h), fun k ↦ ?_⟩
    simpa only [UsedUp, Whole, hholders, htips] using hrounds k

end Counting

theorem tiles_iff {height : UInt64} {heights : List (ε × UInt64)}
    (hsorted : heights.Pairwise fun x y ↦ x.2 ≤ y.2) :
    Tiles height (requests height heights) ↔
      (requests height heights ≠ [] → height.toNat + 1 < 2 ^ 64) ∧
        (requests height heights).IsChain Joins := by
  have hstart : (height + 1).toNat = (height.toNat + 1) % 2 ^ 64 := UInt64.toNat_add height 1
  have hlt := height.toNat_lt
  constructor
  · rintro ⟨n, hn⟩
    have hlow : ∀ i, Asked (requests height heights) i → height.toNat + 1 ≤ i :=
      fun i hi ↦ ((hn i).mp hi).1
    have hwrap : requests height heights ≠ [] → height.toNat + 1 < 2 ^ 64 := by
      intro hmore
      obtain ⟨r, sent, hcons⟩ := List.exists_cons_of_ne_nil hmore
      obtain ⟨hfirst, hlast⟩ := first_eq hsorted rfl hcons
      have hasked : Asked (requests height heights) (height + 1).toNat := by
        rw [hcons, asked_cons, hfirst]
        exact Or.inl ⟨le_refl _, UInt64.le_iff_toNat_le.mp hlast⟩
      have hge := hlow _ hasked
      omega
    refine ⟨hwrap, ?_⟩
    by_cases hmore : requests height heights = []
    · rw [hmore]
      exact List.isChain_nil
    · have hnowrap := hwrap hmore
      refine unbroken_of_interval hsorted rfl (Nat.le_add_left 1 height.toNat) (by omega) (by omega)
        hlow fun i j k hi hk hij hjk ↦ ?_
      have hik := (hn i).mp hi
      have hkk := (hn k).mp hk
      exact (hn j).mpr ⟨by omega, by omega⟩
  · rintro ⟨hwrap, hchain⟩
    by_cases hmore : requests height heights = []
    · rw [hmore]
      exact ⟨0, fun i ↦ by simp [Asked]⟩
    · obtain ⟨n, hn⟩ := asked_interval hsorted rfl hchain
      have hnowrap := hwrap hmore
      refine ⟨n, fun i ↦ ?_⟩
      change Asked (requestLoop heights 0 (height + 1) 0) i ↔ _
      rw [hn]
      omega

/-- In one round of `Sync::doWork`, for every height of the node and every table of peers, in
whatever order equal heights are sorted: each request is for at most fifteen blocks up to the
height of its peer, `requestEnd` is not read before it is assigned, and the ranges are contiguous
from the next block on exactly if the heights leave no gap. -/
theorem requests_tile_iff (height : UInt64) (table heights : List (ε × UInt64))
    (hkeys : (table.map Prod.fst).Nodup) (hperm : heights.Perm table)
    (hsorted : heights.Pairwise fun x y ↦ x.2 ≤ y.2) :
    (∀ r ∈ requests height heights, r.2.1 ≤ r.2.2 ∧ r.2.2.toNat - r.2.1.toNat < 15 ∧
      ∀ advertised, (r.1, advertised) ∈ table → r.2.2 ≤ advertised) ∧
    (∀ garbage, requestLoop heights 0 (height + 1) garbage = requests height heights) ∧
    (Tiles height (requests height heights) ↔ Gapless height table) := by
  refine ⟨fun r hr ↦ ?_, fun garbage ↦ requestLoop_assigned rfl garbage, ?_⟩
  · obtain ⟨p, first, last⟩ := r
    obtain ⟨hle, h, hmem, hlast⟩ := mem_requests hsorted hr
    have hlength := length_requestLoop (fun h ↦ by omega) hr
    refine ⟨hle, by omega, fun advertised hadvertised ↦ ?_⟩
    have heq := List.inj_on_of_nodup_map hkeys (hperm.subset hmem) hadvertised rfl
    rwa [← (Prod.mk.inj heq).2]
  · rw [tiles_iff hsorted, ← gapless_iff hsorted, Gapless.perm hperm]

/-- Four peers that are far ahead. -/
theorem requests_tile_iff_ahead :
    requests 0 [(1, 40), (2, 40), (3, 40), (4, 50)] =
        [(1, 1, 15), (2, 1, 15), (3, 16, 30), (4, 16, 30)] ∧
      Tiles 0 (requests 0 [(1, 40), (2, 40), (3, 40), (4, 50)]) := by
  have hsent : requests 0 [(1, 40), (2, 40), (3, 40), (4, 50)] =
      [(1, 1, 15), (2, 1, 15), (3, 16, 30), (4, 16, 30)] := by decide
  refine ⟨hsent, ?_⟩
  refine (requests_tile_iff 0 [(4, 50), (1, 40), (2, 40), (3, 40)] _ (by decide) (by decide)
    (by decide)).2.2.mpr ⟨fun _ ↦ by decide, fun k ↦ ?_⟩
  -- Both peers of the first round have all of it, and after the second round none is left.
  rcases k with _ | k
  · exact Or.inr ⟨by decide, Or.inl ⟨0, le_rfl, by decide⟩⟩
  · have hfour : holders [(4, 50), (1, 40), (2, 40), (3, 40)] (roundStart 0 0) = 4 := by decide
    exact Or.inl ⟨0, Nat.zero_le _, by omega⟩

/-- Two peers that are three blocks ahead are asked for those; the third is then asked for the
range that would follow fifteen blocks, and blocks four to fifteen are not asked for at all. -/
theorem requests_gap :
    requests 0 [(1, 3), (2, 3), (3, 20)] = [(1, 1, 3), (2, 1, 3), (3, 16, 20)] ∧
      ¬ Tiles 0 (requests 0 [(1, 3), (2, 3), (3, 20)]) := by
  have hsent : requests 0 [(1, 3), (2, 3), (3, 20)] = [(1, 1, 3), (2, 1, 3), (3, 16, 20)] := by
    decide
  refine ⟨hsent, ?_⟩
  rw [hsent]
  rintro ⟨n, hn⟩
  have hlast : Asked [(1, 1, 3), (2, 1, 3), (3, 16, 20)] 16 :=
    ⟨(3, 16, 20), by simp, by decide, by decide⟩
  have hfour := (hn 4).mpr ⟨by decide, by have h16 := (hn 16).mp hlast; omega⟩
  obtain ⟨r, hr, hlow, hhigh⟩ := hfour
  fin_cases hr
  · exact absurd hhigh (by decide)
  · exact absurd hhigh (by decide)
  · exact absurd hlow (by decide)

end GseNetwork.Chain.Sync
