import GseNetwork.Chain.Prevalidation

namespace GseNetwork.Chain

open GseNetwork.Core GseNetwork.Foundation GseNetwork.Storage GseNetwork.Ledger
open BlockChain
open Repository (Shows)

/-- `y` whole years lie between the genesis and the given time. -/
def WholeYears (timestamp : Int64) (y : ℕ) : Prop :=
  millisecondsPerYear * y ≤ timestamp.toInt - genesisTimestamp ∧
    timestamp.toInt - genesisTimestamp < millisecondsPerYear * (y + 1)

def InBonusYears (timestamp : Int64) : Prop :=
  genesisTimestamp ≤ timestamp.toInt ∧
    timestamp.toInt < genesisTimestamp + 64 * millisecondsPerYear

instance (timestamp : Int64) : Decidable (InBonusYears timestamp) := by
  unfold InBonusYears
  infer_instance

def bonusYears (timestamp : Int64) : ℕ :=
  ((timestamp.toInt - genesisTimestamp) / millisecondsPerYear).toNat

variable {env : Env} {t t₀ : Int64} {y : ℕ}

theorem wholeYears_bonusYears (h : genesisTimestamp ≤ t.toInt) : WholeYears t (bonusYears t) := by
  unfold WholeYears bonusYears
  unfold millisecondsPerYear at *
  omega

theorem WholeYears.genesis_le (h : WholeYears t y) : genesisTimestamp ≤ t.toInt := by
  obtain ⟨hlow, -⟩ := h
  unfold millisecondsPerYear at hlow
  omega

theorem WholeYears.eq_bonusYears (h : WholeYears t y) : y = bonusYears t := by
  obtain ⟨hlow, hhigh⟩ := h
  unfold bonusYears
  unfold millisecondsPerYear at *
  omega

theorem bonusYears_lt_iff (h : genesisTimestamp ≤ t.toInt) :
    bonusYears t < 64 ↔ t.toInt < genesisTimestamp + 64 * millisecondsPerYear := by
  unfold bonusYears millisecondsPerYear
  omega

theorem bonusYears_mono (h : t₀.toInt ≤ t.toInt) : bonusYears t₀ ≤ bonusYears t := by
  unfold bonusYears millisecondsPerYear
  omega

theorem toNat_blockBonus (env : Env) (h : InBonusYears t) :
    (blockBonus env t).toNat = blockBonusBase.toNat / 2 ^ bonusYears t := by
  obtain ⟨hlow, hhigh⟩ := h
  have hyears : bonusYears t < 64 := (bonusYears_lt_iff hlow).mpr hhigh
  have hfactor : (((t.toInt - genesisTimestamp).tdiv millisecondsPerYear) % 2 ^ 32).toNat =
      bonusYears t := by
    rw [Int.tdiv_eq_ediv_of_nonneg (by omega)]
    unfold bonusYears at hyears ⊢
    unfold millisecondsPerYear at hyears ⊢
    omega
  unfold blockBonus
  rw [hfactor, if_pos hyears, UInt64.toNat_shiftRight, UInt64.toNat_ofNat',
    Nat.shiftRight_eq_div_pow]
  congr 2
  omega

theorem blockBonus_le_base (env : Env) (h : InBonusYears t) :
    blockBonus env t ≤ blockBonusBase := by
  rw [UInt64.le_iff_toNat_le, toNat_blockBonus env h]
  exact Nat.div_le_self _ _

theorem blockBonus_antitone (env : Env) (h : InBonusYears t)
    (hlow : genesisTimestamp ≤ t₀.toInt) (hle : t₀.toInt ≤ t.toInt) :
    blockBonus env t ≤ blockBonus env t₀ := by
  have h₀ : InBonusYears t₀ := ⟨hlow, hle.trans_lt h.2⟩
  rw [UInt64.le_iff_toNat_le, toNat_blockBonus env h, toNat_blockBonus env h₀]
  exact Nat.div_le_div_left (Nat.pow_le_pow_right (by omega) (bonusYears_mono hle)) (by positivity)

/-- The reward of a block: the base halved once for each whole year since the genesis, computed
without leaving the range of a machine word, and credited without wrapping around. -/
structure Rewarded (env : Env) (block : Block) (db : DatabaseController) (blocks : List Block)
    (w : View) (st : List Repository) : Prop where
  halved : ∃ y, WholeYears block.getTimestamp y ∧ y < 64 ∧
    (blockBonus env block.getTimestamp).toNat = blockBonusBase.toNat / 2 ^ y
  subtraction : -2 ^ 63 ≤ block.getTimestamp.toInt - genesisTimestamp ∧
    block.getTimestamp.toInt - genesisTimestamp < 2 ^ 63
  bounded : blockBonus env block.getTimestamp ≤ blockBonusBase
  antitone : ∀ t₀ : Int64, genesisTimestamp ≤ t₀.toInt → t₀.toInt ≤ block.getTimestamp.toInt →
    blockBonus env block.getTimestamp ≤ blockBonus env t₀
  credited : ∀ st' w',
    Repository.bonus db block.getProducer (blockBonus env block.getTimestamp) st = (.ok (), st') →
    Shows db (block :: blocks) w' st' →
    balance w' block.getProducer =
      balance w block.getProducer + (blockBonus env block.getTimestamp).toNat

variable {block : Block} {db : DatabaseController} {blocks : List Block} {w : View}
  {st : List Repository}

theorem credited_iff (h : Shows db (block :: blocks) w st) (a : Address) (v : UInt64) :
    (∀ st' w', Repository.bonus db a v st = (.ok (), st') → Shows db (block :: blocks) w' st' →
      balance w' a = balance w a + v.toNat) ↔
    (AccountExists w a → balance w a + v.toNat < 2 ^ 64) := by
  constructor
  · intro hcredit hexists
    obtain ⟨st', hbonus⟩ := (bonus_ok_iff h a v).mpr hexists
    obtain ⟨w', hshows, hbalance⟩ := bonus_balance h hbonus
    have hexact := hcredit st' w' hbonus hshows
    rw [hbalance, Pi.add_apply, Pi.single_eq_same] at hexact
    by_contra hwrap
    rw [if_pos (by omega)] at hexact
    omega
  · intro hfits st' w' hbonus hshows
    obtain ⟨w₁, hshows₁, hbalance⟩ := bonus_balance h hbonus
    obtain rfl : w₁ = w' := hshows₁.view_eq.symm.trans hshows.view_eq
    have hlt := hfits ((bonus_ok_iff h a v).mp ⟨st', hbonus⟩)
    rw [hbalance, Pi.add_apply, Pi.single_eq_same, if_neg (by omega)]
    omega

/-- The reward of a block is as intended exactly for a time in the first 64 years after the
genesis and a producer whose balance has room for it. -/
theorem rewarded_iff (env : Env) (h : Shows db (block :: blocks) w st) :
    Rewarded env block db blocks w st ↔
      InBonusYears block.getTimestamp ∧
        (AccountExists w block.getProducer → balance w block.getProducer +
          ((blockBonusBase.toNat / 2 ^ bonusYears block.getTimestamp : ℕ) : ℤ) < 2 ^ 64) := by
  have hcredited := credited_iff h block.getProducer (blockBonus env block.getTimestamp)
  constructor
  · intro hreward
    obtain ⟨y, hyears, hlt, -⟩ := hreward.halved
    have hrange : InBonusYears block.getTimestamp := by
      refine ⟨hyears.genesis_le, ?_⟩
      rw [← bonusYears_lt_iff hyears.genesis_le, ← hyears.eq_bonusYears]
      exact hlt
    refine ⟨hrange, ?_⟩
    rw [← toNat_blockBonus env hrange]
    exact hcredited.mp hreward.credited
  · rintro ⟨hrange, hfits⟩
    rw [← toNat_blockBonus env hrange] at hfits
    have hhigh := Int64.toInt_lt block.getTimestamp
    refine ⟨⟨bonusYears block.getTimestamp, wholeYears_bonusYears hrange.1,
      (bonusYears_lt_iff hrange.1).mpr hrange.2, toNat_blockBonus env hrange⟩, ⟨?_, ?_⟩,
      blockBonus_le_base env hrange, fun t₀ hlow hle ↦ blockBonus_antitone env hrange hlow hle,
      hcredited.mpr hfits⟩
    · have hlow := hrange.1
      omega
    · unfold genesisTimestamp
      omega

theorem rewarded_iff_open :
    Rewarded Relay.openEnv (Relay.openBlock 1) (openChain true).dbc []
      (openView (Relay.openBlock 1) (openChain true)) [{ block := Relay.openBlock 1 }] := by
  have hshows := shows_open wellFormed_openChain.shows (Relay.openBlock 1)
  refine (rewarded_iff Relay.openEnv hshows).mpr ⟨by decide, fun _ ↦ ?_⟩
  have hbalance : balance (openView (Relay.openBlock 1) (openChain true)) 1 = 1 := by
    have hview : (openView (Relay.openBlock 1) (openChain true)).account 1 =
        ((openChain true).dbc.getAccount 1).map erase :=
      congrFun (openView_account wellFormed_openChain.shows _) 1
    rw [getAccount_openChain] at hview
    unfold balance
    rw [hview]
    rfl
  change balance (openView (Relay.openBlock 1) (openChain true)) 1 + _ < _
  rw [hbalance]
  decide

def timedBlock (timestamp : Int64) : Block :=
  { Relay.openBlock 1 with
    blockHeader := { (Relay.openBlock 1).blockHeader with timestamp := timestamp } }

/-- The bonus has run out after 63 years, and is back in full where a shift by 64 shifts by
nothing; ten seconds after the start of the epoch the years to the genesis are taken for
a shift by far more. -/
theorem reward_restarts :
    (openChain true).checkProducer (timedBlock 3525120000000) = true ∧
      (openChain true).checkProducer (timedBlock 3556656008000) = true ∧
      blockBonus Relay.openEnv 3525120000000 = 0 ∧
      blockBonus Relay.openEnv 3556656008000 = blockBonusBase ∧
      ¬ InBonusYears 3556656008000 ∧
      (openChain true).checkProducer (timedBlock 10000) = true ∧
      blockBonus Relay.openEnv 10000 ≠ blockBonusBase := by
  decide +kernel

end GseNetwork.Chain
