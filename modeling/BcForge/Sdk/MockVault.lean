import BcForge.Sdk.MockClient
import BcForge.YieldVault.Dilution

/-! The in-memory stand-in for the vault client. -/
namespace BcForge.Sdk

open Soroban Js Method

structure MockVaultClient where
  shareBalances : Address → Option ℤ
  totalShares : ℤ
  totalAssetsAmount : ℤ
  pendingRewardsAmount : ℤ

namespace MockVaultClient

def new : MockVaultClient := ⟨fun _ => none, 0, 0, 0⟩

def getShareBalance (c : MockVaultClient) (a : Address) : ℤ := (c.shareBalances a).getD 0

def getTotalSupply (c : MockVaultClient) : ℤ := c.totalShares

def getTotalAssets (c : MockVaultClient) : ℤ := c.totalAssetsAmount

def refuse (message : String) : Method MockVaultClient TransactionResult :=
  pure (mockReply false (some (.text message)))

/-- `a / b` between integers. -/
def divide (a b : ℤ) : Method MockVaultClient ℤ :=
  if b = 0 then throw "Division by zero" else pure (a.tdiv b)

/-- What `deposit` takes an amount for. -/
def sharesOutFor (amount : ℤ) : Method MockVaultClient ℤ := do
  let c ← get
  if c.totalShares = 0 then pure amount
  else divide (amount * c.totalShares) c.totalAssetsAmount

def deposit (caller : Address) (amount minSharesOut : ℤ) :
    Method MockVaultClient TransactionResult := do
  if amount ≤ 0 then refuse "InvalidAmount: Amount must be positive"
  else
    let sharesOut ← sharesOutFor amount
    if sharesOut ≤ 0 then refuse "InvalidAmount: Calculated shares are zero"
    else if sharesOut < minSharesOut then
      refuse "SlippageExceeded: Minted shares less than minSharesOut"
    else
      modify fun c => { c with
        shareBalances :=
          Function.update c.shareBalances caller (some (c.getShareBalance caller + sharesOut))
        totalShares := c.totalShares + sharesOut
        totalAssetsAmount := c.totalAssetsAmount + amount }
      return mockReply true (some (.bigint sharesOut))

def withdraw (caller : Address) (shares minTokensOut : ℤ) :
    Method MockVaultClient TransactionResult := do
  if shares ≤ 0 then refuse "InvalidAmount: Shares must be positive"
  else
    let c ← get
    let userBalance := c.getShareBalance caller
    if userBalance < shares then refuse "InsufficientBalance: Not enough shares"
    else if c.totalShares = 0 then refuse "ZeroShares: No shares in vault"
    else
      let tokensOut ← divide (shares * c.totalAssetsAmount) c.totalShares
      if tokensOut ≤ 0 then refuse "InvalidAmount: Payout rounds down to zero"
      else if tokensOut < minTokensOut then
        refuse "SlippageExceeded: Returned tokens less than minTokensOut"
      else
        modify fun c => { c with
          shareBalances := Function.update c.shareBalances caller (some (userBalance - shares))
          totalShares := c.totalShares - shares
          totalAssetsAmount := c.totalAssetsAmount - tokensOut }
        return mockReply true (some (.bigint tokensOut))

def distributeRewards (_caller : Address) (amount : ℤ) :
    Method MockVaultClient TransactionResult := do
  if amount ≤ 0 then refuse "InvalidAmount: Reward amount must be positive"
  else
    modify fun c => { c with
      totalAssetsAmount := c.totalAssetsAmount + amount
      pendingRewardsAmount := c.pendingRewardsAmount + amount }
    return mockReply true none

/-- What the getters show. -/
structure Shows (c : MockVaultClient) (shares : Address → ℤ) (supply assets : ℤ) : Prop where
  shares : c.getShareBalance = shares
  supply : c.totalShares = supply
  assets : c.totalAssetsAmount = assets

variable {c : MockVaultClient} {f : Address → ℤ} {s a n m x : ℤ} {caller : Address}

theorem getShareBalance_set {c' : MockVaultClient}
    (h : c'.shareBalances = Function.update c.shareBalances caller (some x)) :
    c'.getShareBalance = Function.update c.getShareBalance caller x := by
  funext o
  unfold getShareBalance
  rw [h]
  by_cases ho : o = caller
  · subst ho
    simp
  · simp [ho]

theorem returns_divide (hm : m ≠ 0) (c : MockVaultClient) (n : ℤ) :
    Returns (divide n m) c (n.tdiv m) c := by
  rw [divide, if_neg hm]
  rfl

/-- What a deposit of `n` is worth, at the price the stand-in knows. -/
structure SharesOut (s a n x : ℤ) : Prop where
  first : s = 0 → x = n
  later : s ≠ 0 → a ≠ 0 ∧ x = (n * s).tdiv a

theorem returns_sharesOutFor (h : c.Shows f s a) (hx : SharesOut s a n x) :
    Returns (sharesOutFor n) c x c := by
  obtain ⟨rfl, rfl, rfl⟩ := h
  refine returns_get_bind ?_
  by_cases hs : c.totalShares = 0
  · rw [if_pos hs, hx.first hs]
    rfl
  · obtain ⟨ha, hx⟩ := hx.later hs
    rw [if_neg hs, hx]
    exact returns_divide ha c _

theorem returns_deposit (h : c.Shows f s a) (caller : Address) (hn : 0 < n)
    (hx : SharesOut s a n x) (hpos : 0 < x) (hmin : m ≤ x) :
    ∃ c', Returns (deposit caller n m) c (mockReply true (some (.bigint x))) c' ∧
      c'.Shows (Function.update f caller (f caller + x)) (s + x) (a + n) := by
  have hprice := returns_sharesOutFor h hx
  obtain ⟨rfl, rfl, rfl⟩ := h
  refine ⟨{ c with
      shareBalances := Function.update c.shareBalances caller (some (c.getShareBalance caller + x))
      totalShares := c.totalShares + x
      totalAssetsAmount := c.totalAssetsAmount + n }, ?_, getShareBalance_set rfl, rfl, rfl⟩
  rw [deposit, if_neg (not_le.mpr hn)]
  refine returns_bind hprice ?_
  rw [if_neg (not_le.mpr hpos), if_neg (not_lt.mpr hmin)]
  exact returns_modify_bind (returns_pure _ _)

theorem returns_withdraw (h : c.Shows f s a) (hn : 0 < n) (hle : n ≤ f caller) (hs : s ≠ 0)
    (hx : x = (n * a).tdiv s) (hpos : 0 < x) (hmin : m ≤ x) :
    ∃ c', Returns (withdraw caller n m) c (mockReply true (some (.bigint x))) c' ∧
      c'.Shows (Function.update f caller (f caller - n)) (s - n) (a - x) := by
  obtain ⟨rfl, rfl, rfl⟩ := h
  refine ⟨{ c with
      shareBalances := Function.update c.shareBalances caller (some (c.getShareBalance caller - n))
      totalShares := c.totalShares - n
      totalAssetsAmount := c.totalAssetsAmount - x }, ?_, getShareBalance_set rfl, rfl, rfl⟩
  rw [withdraw, if_neg (not_le.mpr hn)]
  refine returns_get_bind ?_
  dsimp only
  rw [if_neg (not_lt.mpr hle), if_neg hs]
  refine returns_bind (returns_divide hs c _) ?_
  rw [← hx, if_neg (not_le.mpr hpos), if_neg (not_lt.mpr hmin)]
  exact returns_modify_bind (returns_pure _ _)

theorem returns_distributeRewards (h : c.Shows f s a) (caller : Address) (hn : 0 < n) :
    ∃ c', Returns (distributeRewards caller n) c (mockReply true none) c' ∧
      c'.Shows f s (a + n) := by
  obtain ⟨rfl, rfl, rfl⟩ := h
  refine ⟨{ c with
      totalAssetsAmount := c.totalAssetsAmount + n
      pendingRewardsAmount := c.pendingRewardsAmount + n }, ?_, rfl, rfl, rfl⟩
  rw [distributeRewards, if_neg (not_le.mpr hn)]
  exact returns_modify_bind (returns_pure _ _)

end MockVaultClient

end BcForge.Sdk
