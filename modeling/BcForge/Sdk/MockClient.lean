import BcForge.Js.Method
import BcForge.Sdk.Submit
import BcForge.Soroban.Standard

/-! The in-memory stand-in for the token client. Whatever a standard token does, it does too. -/
namespace BcForge.Sdk

open Soroban Js Method

/-- An account's text stands for the account. -/
structure AccountState where
  balance : ℤ
  allowances : Address → Option ℤ

structure MockBcForgeClient where
  accounts : Address → Option AccountState
  totalSupply : ℤ

structure BatchMintRecipient where
  dst : Address
  amount : ℤ

/-- A reply that names a transaction. -/
def mockReply (success : Bool) (returnValue : Option Native) : TransactionResult :=
  ⟨success, "mock-hash", returnValue⟩

namespace MockBcForgeClient

/-- The fields the methods below use, as the constructor sets them. -/
def new : MockBcForgeClient := ⟨fun _ => none, 0⟩

/-- `getBalance` before it is formatted. -/
def balanceOf (c : MockBcForgeClient) (a : Address) : ℤ :=
  ((c.accounts a).map AccountState.balance).getD 0

def getTotalSupply (c : MockBcForgeClient) : ℤ := c.totalSupply

def getAllowance (c : MockBcForgeClient) (owner spender : Address) : ℤ :=
  ((c.accounts owner).bind fun account => account.allowances spender).getD 0

def write (a : Address) (account : AccountState) (c : MockBcForgeClient) : MockBcForgeClient :=
  { c with accounts := Function.update c.accounts a (some account) }

/-- `if (!this.accounts[a]) this.accounts[a] = { balance: 0n, allowances: {} }`. -/
def ensureAccount (a : Address) : Method MockBcForgeClient Unit :=
  modify fun c =>
    match c.accounts a with
    | some _ => c
    | none => c.write a ⟨0, fun _ => none⟩

/-- `this.accounts[a].balance += x`. -/
def addBalance (a : Address) (x : ℤ) : Method MockBcForgeClient Unit := do
  let c ← get
  match c.accounts a with
  | some account => modify (write a { account with balance := account.balance + x })
  | none => throw "Cannot read properties of undefined (reading 'balance')"

def addSupply (x : ℤ) : Method MockBcForgeClient Unit :=
  modify fun c => { c with totalSupply := c.totalSupply + x }

def mint (_minter dst : Address) (amount : ℤ) : Method MockBcForgeClient TransactionResult := do
  ensureAccount dst
  addBalance dst amount
  addSupply amount
  return mockReply true none

def mintAll : List BatchMintRecipient → Method MockBcForgeClient Unit
  | [] => pure ()
  | r :: rest => do
    ensureAccount r.dst
    addBalance r.dst r.amount
    addSupply r.amount
    mintAll rest

def batchMint (_minter : Address) (recipients : List BatchMintRecipient) :
    Method MockBcForgeClient TransactionResult :=
  if recipients.isEmpty = true then
    return mockReply false (some (.text "Recipients list cannot be empty"))
  else if recipients.any (fun r => decide (r.amount ≤ 0)) = true then
    return mockReply false (some (.text "Mint amount must be positive"))
  else do
    mintAll recipients
    return mockReply true none

/-- Both sides of a movement between accounts. -/
def move (src dst : Address) (amount : ℤ) : Method MockBcForgeClient Unit := do
  ensureAccount dst
  addBalance src (-amount)
  addBalance dst amount

def transfer (src dst : Address) (amount : ℤ) : Method MockBcForgeClient TransactionResult := do
  let c ← get
  if c.balanceOf src < amount then
    return mockReply false (some (.text "Insufficient balance"))
  move src dst amount
  return mockReply true none

def approve (owner spender : Address) (amount : ℤ) :
    Method MockBcForgeClient TransactionResult := do
  ensureAccount owner
  modify fun c =>
    match c.accounts owner with
    | some account =>
      c.write owner { account with
        allowances := Function.update account.allowances spender (some amount) }
    | none => c
  return mockReply true none

def moveAll (src : Address) : List BatchMintRecipient → Method MockBcForgeClient Unit
  | [] => pure ()
  | r :: rest => do
    move src r.dst r.amount
    moveAll src rest

def batchTransfer (src : Address) (recipients : List BatchMintRecipient) :
    Method MockBcForgeClient TransactionResult := do
  let c ← get
  if c.balanceOf src < recipients.foldl (fun sum r => sum + r.amount) 0 then
    return mockReply false (some (.text "Insufficient balance"))
  moveAll src recipients
  return mockReply true none

/-- `this.accounts[owner].allowances[spender] -= x`. -/
def spend (owner spender : Address) (x : ℤ) : Method MockBcForgeClient Unit := do
  let c ← get
  match c.accounts owner with
  | some account =>
    match account.allowances spender with
    | some allowance =>
      modify (write owner { account with
        allowances := Function.update account.allowances spender (some (allowance - x)) })
    | none => throw "Cannot mix BigInt and other types, use explicit conversions"
  | none => throw "Cannot read properties of undefined (reading 'allowances')"

def transferFrom (owner spender dst : Address) (amount : ℤ) :
    Method MockBcForgeClient TransactionResult := do
  let c ← get
  if c.getAllowance owner spender < amount then
    return mockReply false (some (.text "Insufficient allowance"))
  if c.balanceOf owner < amount then
    return mockReply false (some (.text "Insufficient balance"))
  move owner dst amount
  spend owner spender amount
  return mockReply true none

/-- What the getters show. -/
structure Books (c : MockBcForgeClient) (balance : Address → ℤ) (supply : ℤ)
    (allowance : Address → Address → ℤ) : Prop where
  balance : c.balanceOf = balance
  supply : c.totalSupply = supply
  allowance : c.getAllowance = allowance

variable {c c' : MockBcForgeClient} {b : Address → ℤ} {s x : ℤ} {f : Address → Address → ℤ}
  {a src dst owner spender : Address} {account : AccountState}

theorem books_new : new.Books (fun _ => 0) 0 fun _ _ => 0 := ⟨rfl, rfl, rfl⟩

theorem balanceOf_write : (c.write a account).balanceOf =
    Function.update c.balanceOf a account.balance := by
  funext o
  by_cases ho : o = a
  · subst ho
    simp [balanceOf, write]
  · simp [balanceOf, write, ho]

theorem getAllowance_write : (c.write a account).getAllowance =
    Function.update c.getAllowance a fun sp => (account.allowances sp).getD 0 := by
  funext o sp
  by_cases ho : o = a
  · subst ho
    simp [getAllowance, write]
  · simp [getAllowance, write, ho]

theorem balanceOf_eq (h : c.accounts a = some account) : c.balanceOf a = account.balance := by
  simp [balanceOf, h]

theorem getAllowance_eq (h : c.accounts a = some account) :
    c.getAllowance a = fun sp => (account.allowances sp).getD 0 := by
  funext sp
  simp [getAllowance, h]

/-- Only accounts that exist hold anything. -/
theorem isSome_of_balance (h : c.balanceOf a ≠ 0) : (c.accounts a).isSome = true := by
  by_contra hnone
  apply h
  simp [balanceOf, Option.not_isSome_iff_eq_none.mp hnone]

/-- Accounts are added and never removed. -/
def Extends (c c' : MockBcForgeClient) : Prop :=
  ∀ a, (c.accounts a).isSome = true → (c'.accounts a).isSome = true

theorem extends_write (c : MockBcForgeClient) (a : Address) (account : AccountState) :
    c.Extends (c.write a account) := by
  intro o ho
  by_cases hoa : o = a
  · subst hoa
    simp [write]
  · simpa [write, hoa] using ho

theorem returns_ensureAccount (h : c.Books b s f) (a : Address) : ∃ c',
    Returns (ensureAccount a) c () c' ∧ c'.Books b s f ∧ c.Extends c' ∧
      (c'.accounts a).isSome = true := by
  cases ha : c.accounts a with
  | some account =>
    have hrun : Returns (ensureAccount a) c () c := by
      simp [Returns, ensureAccount, Method.modify, ha]
    exact ⟨c, hrun, h, fun _ ho => ho, by rw [ha]; rfl⟩
  | none =>
    have hrun : Returns (ensureAccount a) c () (c.write a ⟨0, fun _ => none⟩) := by
      simp [Returns, ensureAccount, Method.modify, ha]
    have hb : c.balanceOf a = 0 := by simp [balanceOf, ha]
    have hf : c.getAllowance a = fun _ => 0 := by
      funext sp
      simp [getAllowance, ha]
    refine ⟨_, hrun, ⟨?_, h.supply, ?_⟩, extends_write c a _, by simp [write]⟩
    · rw [balanceOf_write, ← h.balance]
      exact Function.update_eq_self_iff.mpr hb.symm
    · rw [getAllowance_write, ← h.allowance]
      exact Function.update_eq_self_iff.mpr hf.symm

theorem returns_addBalance (h : c.Books b s f) (ha : (c.accounts a).isSome = true) (x : ℤ) :
    ∃ c', Returns (addBalance a x) c () c' ∧ c'.Books (Function.update b a (b a + x)) s f ∧
      c.Extends c' := by
  obtain ⟨account, haccount⟩ := Option.isSome_iff_exists.mp ha
  refine ⟨c.write a { account with balance := account.balance + x }, ?_, ⟨?_, h.supply, ?_⟩,
    extends_write c a _⟩
  · refine returns_get_bind ?_
    rw [haccount]
    rfl
  · rw [balanceOf_write, ← h.balance, balanceOf_eq haccount]
  · rw [getAllowance_write, ← h.allowance]
    exact Function.update_eq_self_iff.mpr (getAllowance_eq haccount).symm

theorem returns_addSupply (h : c.Books b s f) (x : ℤ) : ∃ c',
    Returns (addSupply x) c () c' ∧ c'.Books b (s + x) f := by
  refine ⟨_, rfl, h.balance, ?_, h.allowance⟩
  rw [← h.supply]

theorem update_moved (b : Address → ℤ) (src dst : Address) (x : ℤ) :
    Function.update (Function.update b src (b src + -x)) dst
      (Function.update b src (b src + -x) dst + x) = moved b src dst x := by
  unfold moved
  split
  case isTrue heq =>
    subst heq
    simp
  case isFalse hne => rw [Function.update_of_ne (Ne.symm hne), ← sub_eq_add_neg]

/-- A payer with something to pay exists. -/
theorem returns_move (h : c.Books b s f) (hx : 0 < x) (hle : x ≤ b src) (dst : Address) : ∃ c',
    Returns (move src dst x) c () c' ∧ c'.Books (moved b src dst x) s f ∧ c.Extends c' := by
  obtain ⟨c₁, hensure, h₁, hext₁, hdst⟩ := returns_ensureAccount h dst
  have hsrc : (c₁.accounts src).isSome = true := by
    apply isSome_of_balance
    rw [h₁.balance]
    omega
  obtain ⟨c₂, hpay, h₂, hext₂⟩ := returns_addBalance h₁ hsrc (-x)
  obtain ⟨c₃, hget, h₃, hext₃⟩ := returns_addBalance h₂ (hext₂ dst hdst) x
  rw [update_moved] at h₃
  refine ⟨c₃, returns_bind hensure (returns_bind hpay hget), h₃, fun a ha => ?_⟩
  exact hext₃ a (hext₂ a (hext₁ a ha))

theorem returns_minting (h : c.Books b s f) (dst : Address) (x : ℤ) : ∃ c₁ c₂ c',
    Returns (ensureAccount dst) c () c₁ ∧ Returns (addBalance dst x) c₁ () c₂ ∧
      Returns (addSupply x) c₂ () c' ∧
      c'.Books (Function.update b dst (b dst + x)) (s + x) f := by
  obtain ⟨c₁, hensure, h₁, -, hdst⟩ := returns_ensureAccount h dst
  obtain ⟨c₂, hget, h₂, -⟩ := returns_addBalance h₁ hdst x
  obtain ⟨c₃, hsupply, h₃⟩ := returns_addSupply h₂ x
  exact ⟨c₁, c₂, c₃, hensure, hget, hsupply, h₃⟩

/-- Whatever is left of an allowance `g`, `f` has as much. -/
def Covers (f g : Address → Address → ℤ) : Prop := ∀ o sp, 0 < g o sp → g o sp ≤ f o sp

/-- The client shows the ledger of a token; it does not know that allowances run out. -/
def Mirrors (c : MockBcForgeClient) (t : Token) : Prop :=
  ∃ f, c.Books t.balance t.supply f ∧ Covers f t.allowance

variable {t t' : Token} {g : Address → Address → ℤ} {y : ℤ} {d : ℕ}

theorem mirrors_new (d : ℕ) : new.Mirrors (Token.empty d) :=
  ⟨_, books_new, fun _ _ _ => le_rfl⟩

theorem mirrors_of_shows (hc : c.Books b s f) (ht : t.Shows b s g d) (hcovers : Covers f g) :
    c.Mirrors t := by
  obtain ⟨rfl, rfl, rfl, -⟩ := ht
  exact ⟨f, hc, hcovers⟩

theorem covers_granted (h : Covers f g) (hxy : 0 < x → x ≤ y) :
    Covers (granted f owner spender y) (granted g owner spender x) := by
  intro o sp
  unfold granted
  split
  · exact hxy
  · exact h o sp

theorem mirrors_lapse (h : c.Mirrors t) (out : Address → Address → Bool) :
    c.Mirrors (t.lapse out) := by
  obtain ⟨f, hbooks, hf⟩ := h
  refine ⟨f, hbooks, fun o sp hpos => ?_⟩
  change 0 < (if out o sp = true then 0 else t.allowance o sp) at hpos
  change (if out o sp = true then 0 else t.allowance o sp) ≤ f o sp
  split at hpos
  · omega
  case isFalse hin =>
    rw [if_neg hin]
    exact hf o sp hpos

/-- What the token transfers, the client transfers. -/
theorem mirrors_transfer (h : c.Mirrors t) (hx : 0 < x) (ht : t.transfer src dst x = some t') :
    ∃ c', Returns (transfer src dst x) c (mockReply true none) c' ∧ c'.Mirrors t' := by
  obtain ⟨f, hbooks, hf⟩ := h
  obtain ⟨⟨-, hle⟩, hshows⟩ := Token.transfer_shows ht
  obtain ⟨c', hmove, hbooks', -⟩ := returns_move hbooks hx hle dst
  refine ⟨c', returns_get_bind ?_, mirrors_of_shows hbooks' hshows hf⟩
  rw [if_neg (by rw [hbooks.balance]; omega)]
  exact returns_bind hmove (returns_pure _ _)

theorem mirrors_moveAll {recipients : List BatchMintRecipient} (h : c.Mirrors t)
    (hpos : ∀ r ∈ recipients, 0 < r.amount)
    (ht : t.replay (recipients.map fun r => .transfer src r.dst r.amount) = some t') :
    ∃ c', Returns (moveAll src recipients) c () c' ∧ c'.Mirrors t' := by
  induction recipients generalizing c t with
  | nil =>
    obtain rfl := Option.some.inj ht
    exact ⟨c, returns_pure () c, h⟩
  | cons r rest ih =>
    obtain ⟨t₁, hfirst, hrest⟩ := Option.bind_eq_some_iff.mp ht
    obtain ⟨f, hbooks, hf⟩ := h
    obtain ⟨⟨-, hle⟩, hshows⟩ := Token.transfer_shows hfirst
    obtain ⟨c₁, hmove, hbooks₁, -⟩ :=
      returns_move hbooks (hpos r List.mem_cons_self) hle r.dst
    obtain ⟨c', hall, h'⟩ := ih (mirrors_of_shows hbooks₁ hshows hf)
      (fun r' hr' => hpos r' (List.mem_cons_of_mem r hr')) hrest
    exact ⟨c', returns_bind hmove hall, h'⟩

theorem mirrors_batchTransfer {recipients : List BatchMintRecipient} (h : c.Mirrors t)
    (hpos : ∀ r ∈ recipients, 0 < r.amount)
    (htotal : recipients.foldl (fun sum r => sum + r.amount) 0 ≤ t.balance src)
    (ht : t.replay (recipients.map fun r => .transfer src r.dst r.amount) = some t') :
    ∃ c', Returns (batchTransfer src recipients) c (mockReply true none) c' ∧ c'.Mirrors t' := by
  obtain ⟨c', hall, h'⟩ := mirrors_moveAll h hpos ht
  obtain ⟨f, hbooks, -⟩ := h
  refine ⟨c', returns_get_bind ?_, h'⟩
  rw [if_neg (by rw [hbooks.balance]; omega)]
  exact returns_bind hall (returns_pure _ _)

theorem mirrors_mint (h : c.Mirrors t) (minter : Address) (ht : t.mint dst x = some t') :
    ∃ c', Returns (mint minter dst x) c (mockReply true none) c' ∧ c'.Mirrors t' := by
  obtain ⟨f, hbooks, hf⟩ := h
  obtain ⟨-, hshows⟩ := Token.mint_shows ht
  obtain ⟨c₁, c₂, c', hensure, hget, hsupply, hbooks'⟩ := returns_minting hbooks dst x
  refine ⟨c', ?_, mirrors_of_shows hbooks' hshows hf⟩
  exact returns_bind hensure (returns_bind hget (returns_bind hsupply (returns_pure _ _)))

theorem mirrors_mintAll {recipients : List BatchMintRecipient} (h : c.Mirrors t)
    (ht : t.replay (recipients.map fun r => .mint r.dst r.amount) = some t') :
    ∃ c', Returns (mintAll recipients) c () c' ∧ c'.Mirrors t' := by
  induction recipients generalizing c t with
  | nil =>
    obtain rfl := Option.some.inj ht
    exact ⟨c, returns_pure () c, h⟩
  | cons r rest ih =>
    obtain ⟨t₁, hfirst, hrest⟩ := Option.bind_eq_some_iff.mp ht
    obtain ⟨f, hbooks, hf⟩ := h
    obtain ⟨-, hshows⟩ := Token.mint_shows hfirst
    obtain ⟨c₁, c₂, c₃, hensure, hget, hsupply, hbooks₃⟩ := returns_minting hbooks r.dst r.amount
    obtain ⟨c', hall, h'⟩ := ih (mirrors_of_shows hbooks₃ hshows hf) hrest
    exact ⟨c', returns_bind hensure (returns_bind hget (returns_bind hsupply hall)), h'⟩

theorem mirrors_batchMint {recipients : List BatchMintRecipient} (h : c.Mirrors t)
    (minter : Address) (hne : recipients ≠ []) (hpos : ∀ r ∈ recipients, 0 < r.amount)
    (ht : t.replay (recipients.map fun r => .mint r.dst r.amount) = some t') :
    ∃ c', Returns (batchMint minter recipients) c (mockReply true none) c' ∧ c'.Mirrors t' := by
  obtain ⟨c', hall, h'⟩ := mirrors_mintAll h ht
  refine ⟨c', ?_, h'⟩
  have hempty : ¬ recipients.isEmpty = true := by simpa using hne
  have hbad : ¬ recipients.any (fun r => decide (r.amount ≤ 0)) = true := by simpa using hpos
  rw [batchMint, if_neg hempty, if_neg hbad]
  exact returns_bind hall (returns_pure _ _)

theorem granted_update (f : Address → Address → ℤ) (owner spender : Address) (x : ℤ) :
    Function.update f owner (Function.update (f owner) spender x) = granted f owner spender x := by
  funext o sp
  by_cases ho : o = owner
  · subst ho
    by_cases hs : sp = spender
    · subst hs
      simp [granted]
    · simp [granted, hs]
  · simp [granted, ho]

theorem getD_update (g : Address → Option ℤ) (spender : Address) (x : ℤ) :
    (fun sp => (Function.update g spender (some x) sp).getD 0) =
      Function.update (fun sp => (g sp).getD 0) spender x := by
  funext sp
  by_cases hs : sp = spender
  · subst hs
    simp
  · simp [hs]

theorem returns_approve (h : c.Books b s f) (owner spender : Address) (x : ℤ) : ∃ c',
    Returns (approve owner spender x) c (mockReply true none) c' ∧
      c'.Books b s (granted f owner spender x) := by
  obtain ⟨c₁, hensure, h₁, -, howner⟩ := returns_ensureAccount h owner
  obtain ⟨account, haccount⟩ := Option.isSome_iff_exists.mp howner
  refine ⟨c₁.write owner { account with
      allowances := Function.update account.allowances spender (some x) }, ?_, ?_, h₁.supply, ?_⟩
  · refine returns_bind hensure (returns_modify_bind ?_)
    rw [haccount]
    exact returns_pure _ _
  · rw [balanceOf_write, ← h₁.balance]
    exact Function.update_eq_self_iff.mpr (balanceOf_eq haccount).symm
  · rw [getAllowance_write, ← granted_update, ← h₁.allowance, getAllowance_eq haccount]
    exact congrArg _ (getD_update _ _ _)

theorem mirrors_approve (h : c.Mirrors t) (owner spender : Address) (hxy : 0 < x → x ≤ y) : ∃ c',
    Returns (approve owner spender y) c (mockReply true none) c' ∧
      c'.Mirrors (t.approve owner spender x) := by
  obtain ⟨f, hbooks, hf⟩ := h
  obtain ⟨c', hrun, hbooks'⟩ := returns_approve hbooks owner spender y
  have hshows : (t.approve owner spender x).Shows t.balance t.supply _ t.decimals :=
    Token.shows_approve ⟨rfl, rfl, rfl, rfl⟩ owner spender x
  exact ⟨c', hrun, mirrors_of_shows hbooks' hshows (covers_granted hf hxy)⟩

/-- Only an allowance that was set is more than nothing. -/
theorem found_allowance (h : c.Books b s f) (hne : f owner spender ≠ 0) :
    ∃ account allowance, c.accounts owner = some account ∧
      account.allowances spender = some allowance ∧ f owner spender = allowance := by
  rw [← h.allowance] at hne ⊢
  cases haccount : c.accounts owner with
  | none => exact absurd (by simp [getAllowance, haccount]) hne
  | some account =>
    cases hallowance : account.allowances spender with
    | none => exact absurd (by simp [getAllowance, haccount, hallowance]) hne
    | some allowance =>
      exact ⟨account, allowance, rfl, hallowance, by simp [getAllowance, haccount, hallowance]⟩

theorem returns_spend (h : c.Books b s f) (hne : f owner spender ≠ 0) (x : ℤ) : ∃ c',
    Returns (spend owner spender x) c () c' ∧
      c'.Books b s (granted f owner spender (f owner spender - x)) := by
  obtain ⟨account, allowance, haccount, hallowance, hf⟩ := found_allowance h hne
  refine ⟨c.write owner { account with
      allowances := Function.update account.allowances spender (some (allowance - x)) },
    ?_, ?_, h.supply, ?_⟩
  · refine returns_get_bind ?_
    rw [haccount]
    dsimp only
    rw [hallowance]
    rfl
  · rw [balanceOf_write, ← h.balance]
    exact Function.update_eq_self_iff.mpr (balanceOf_eq haccount).symm
  · rw [getAllowance_write, ← granted_update, hf, ← h.allowance, getAllowance_eq haccount]
    exact congrArg _ (getD_update _ _ _)

/-- The allowance is there, since the token has at least as little of it. -/
theorem mirrors_transferFrom (h : c.Mirrors t) (hx : 0 < x)
    (ht : t.transferFrom spender src dst x = some t') : ∃ c',
    Returns (transferFrom src spender dst x) c (mockReply true none) c' ∧ c'.Mirrors t' := by
  obtain ⟨f, hbooks, hf⟩ := h
  obtain ⟨⟨-, hle⟩, hallowed, hshows⟩ := Token.transferFrom_shows ht
  have hcovered : t.allowance src spender ≤ f src spender := hf src spender (by omega)
  obtain ⟨c₁, hmove, hbooks₁, -⟩ := returns_move hbooks hx hle dst
  have hsome : f src spender ≠ 0 := by omega
  obtain ⟨c', hspend, hbooks'⟩ := returns_spend hbooks₁ hsome x
  refine ⟨c', returns_get_bind ?_,
    mirrors_of_shows hbooks' hshows (covers_granted hf fun _ => by omega)⟩
  have hallowance : ¬ c.getAllowance src spender < x := by
    rw [hbooks.allowance]
    omega
  have hbalance : ¬ c.balanceOf src < x := by
    rw [hbooks.balance]
    omega
  rw [if_neg hallowance, if_neg hbalance]
  exact returns_bind hmove (returns_bind hspend (returns_pure _ _))

end MockBcForgeClient

end BcForge.Sdk
