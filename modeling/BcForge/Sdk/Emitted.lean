import BcForge.Token.Contract
import BcForge.Wrapper.Contract

/-! The events of the token, of the wrapper and of the admin library both are built on, as
`events().publish` hands them to the host. -/
namespace BcForge.Sdk

open Soroban Admin

/-- A value in the form in which it leaves a contract. -/
inductive ScVal where
  | bool (b : Bool)
  | u32 (n : ℕ)
  | u64 (n : ℕ)
  | i128 (n : ℤ)
  | bytes (b : BytesN32)
  | string (s : String)
  | symbol (s : String)
  | address (a : Address)
  /-- Also a tuple, and a variant of an enum behind its name. -/
  | vec (vs : List ScVal)
  /-- A struct: its fields by name, in the order of the names. -/
  | map (entries : List (String × ScVal))

structure Published where
  topics : List ScVal
  data : ScVal

/-- An event whose only topic is its name. -/
def publish (name : String) (data : List ScVal) : Published := ⟨[.symbol name], .vec data⟩

/-- An event with an address beside its name. -/
def publishFor (name : String) (who : Address) (data : List ScVal) : Published :=
  ⟨[.symbol name, .address who], .vec data⟩

/-- `EVENT_SCHEMA_VERSION`, the same in both contracts. -/
def eventSchemaVersion : ℕ := 1

/-- One constructor for each `emit_*` of the token. -/
inductive TokenEvent where
  | initialized (admin : Address) (decimals : ℕ) (name symbol : String)
  | mint (admin dst : Address) (amount newBalance newSupply : ℤ)
  | burn (src : Address) (amount newBalance newSupply : ℤ)
  | transfer (src dst : Address) (amount : ℤ)
  | transferFrom (spender src dst : Address) (amount remainingAllowance : ℤ)
  | approve (src spender : Address) (amount : ℤ) (expiration : ℕ)
  | ownershipTransferred (oldAdmin newAdmin : Address)
  | paused (admin : Address)
  | unpaused (admin : Address)
  | upgraded (upgrader : Address) (newWasmHash : BytesN32)
  | maxSupplyChanged (caller : Address) (newMaxSupply : ℤ)
  | feeConfigSet (caller : Address) (config : BcForgeToken.FeeConfig)
  | treasurySet (caller treasury : Address)
  | feeExemptionSet (caller a : Address) (exemptionType : ℕ)
  | feeExemptionRemoved (caller a : Address)
  | updateName (admin : Address) (oldName newName : String)
  | updateSymbol (admin : Address) (oldSymbol newSymbol : String)
  | metadataUpdated (caller : Address) (name symbol : String)
  | batchExecute (src : Address) (count : ℕ)
  | rescued (caller token dst : Address) (amount : ℤ)
  | locked (user : Address) (amount : ℤ) (unlockTimestamp : ℕ)
  | withdrawLocked (user : Address) (amount : ℤ)

def TokenEvent.emit : TokenEvent → Published
  | .initialized admin decimals name symbol =>
    publishFor "init" admin
      [.u32 decimals, .string name, .string symbol, .u32 eventSchemaVersion]
  | .mint admin dst amount newBalance newSupply =>
    publish "mint" [.address admin, .address dst, .i128 amount, .i128 newBalance,
      .i128 newSupply, .u32 eventSchemaVersion]
  | .burn src amount newBalance newSupply =>
    publish "burn" [.address src, .i128 amount, .i128 newBalance, .i128 newSupply,
      .u32 eventSchemaVersion]
  | .transfer src dst amount =>
    publish "xfer" [.address src, .address dst, .i128 amount, .u32 eventSchemaVersion]
  | .transferFrom spender src dst amount remainingAllowance =>
    publish "xfer_frm" [.address spender, .address src, .address dst, .i128 amount,
      .i128 remainingAllowance, .u32 eventSchemaVersion]
  | .approve src spender amount expiration =>
    publish "approve" [.address src, .address spender, .i128 amount, .u32 expiration,
      .u32 eventSchemaVersion]
  | .ownershipTransferred oldAdmin newAdmin =>
    publish "own_xfer" [.address oldAdmin, .address newAdmin, .u32 eventSchemaVersion]
  | .paused admin => publish "paused" [.address admin, .u32 eventSchemaVersion]
  | .unpaused admin => publish "unpause" [.address admin, .u32 eventSchemaVersion]
  | .upgraded upgrader newWasmHash =>
    publish "upgraded" [.address upgrader, .bytes newWasmHash, .u32 eventSchemaVersion]
  | .maxSupplyChanged caller newMaxSupply =>
    publish "max_sup" [.address caller, .i128 newMaxSupply, .u32 eventSchemaVersion]
  | .feeConfigSet caller config =>
    publish "fee_cfg" [.address caller, .i128 config.baseFee, .u32 config.complexityMultiplier,
      .i128 config.maxFee, .bool config.enabled, .u32 eventSchemaVersion]
  | .treasurySet caller treasury =>
    publish "fee_tres" [.address caller, .address treasury, .u32 eventSchemaVersion]
  | .feeExemptionSet caller a exemptionType =>
    publish "fee_exm" [.address caller, .address a, .u32 exemptionType,
      .u32 eventSchemaVersion]
  | .feeExemptionRemoved caller a =>
    publish "fee_rmv" [.address caller, .address a, .u32 eventSchemaVersion]
  | .updateName admin oldName newName =>
    publishFor "upd_name" admin [.string oldName, .string newName]
  | .updateSymbol admin oldSymbol newSymbol =>
    publishFor "upd_sym" admin [.string oldSymbol, .string newSymbol]
  | .metadataUpdated caller name symbol =>
    publishFor "upd_meta" caller [.string name, .string symbol]
  | .batchExecute src count => publish "exec_btch" [.address src, .u32 count]
  | .rescued caller token dst amount =>
    publish "rescue" [.address caller, .address token, .address dst, .i128 amount]
  | .locked user amount unlockTimestamp =>
    publish "locked" [.address user, .i128 amount, .u64 unlockTimestamp,
      .u32 eventSchemaVersion]
  | .withdrawLocked user amount =>
    publish "withdraw_locked" [.address user, .i128 amount, .u32 eventSchemaVersion]

/-- One constructor for each `emit_*` of the wrapper. -/
inductive WrapperEvent where
  | initialized (admin tokenContractId : Address)
  | wrap (caller : Address) (amount wrappedAmount : ℤ)
  | deposit (caller : Address) (assets shares : ℤ)
  | unwrap (caller : Address) (wrappedAmount underlyingAmount : ℤ)
  | transfer (src dst : Address) (amount : ℤ)
  | transferFrom (spender src dst : Address) (amount : ℤ)
  | approve (src spender : Address) (amount : ℤ)
  | burn (src : Address) (amount : ℤ)
  | paused (admin : Address)
  | unpaused (admin : Address)
  | distributeRewards (caller : Address) (amount : ℤ)
  | vaultStateSet (caller : Address) (state : Wrapper.VaultState)
  | withdraw (caller : Address) (shares underlyingAmount : ℤ)
  | unlockTimeSet (caller user : Address) (unlockTimestamp : ℕ)
  | unlockTimeCleared (caller user : Address)
  | rescued (caller token dst : Address) (amount : ℤ)
  | cooldownConfigSet (admin : Address) (config : Wrapper.CooldownConfig)
  | withdrawQueued (caller : Address) (shares amount : ℤ) (releaseLedger : ℕ)

def vaultStateVal (state : Wrapper.VaultState) : ScVal :=
  .map [("accumulated_fees", .i128 state.accumulatedFees),
    ("exchange_rate", .i128 state.exchangeRate), ("fee_rate_bps", .u32 state.feeRateBps),
    ("fee_receiver", .address state.feeReceiver),
    ("last_update_timestamp", .u64 state.lastUpdateTimestamp),
    ("max_deposit", .i128 state.maxDeposit), ("min_deposit", .i128 state.minDeposit)]

def cooldownConfigVal (config : Wrapper.CooldownConfig) : ScVal :=
  .map [("cooldown_ledgers", .u32 config.cooldownLedgers),
    ("emergency_cap", .i128 config.emergencyCap),
    ("emergency_window_ledgers", .u32 config.emergencyWindowLedgers),
    ("enabled", .bool config.enabled)]

def WrapperEvent.emit : WrapperEvent → Published
  | .initialized admin tokenContractId =>
    publish "init" [.address admin, .address tokenContractId]
  | .wrap caller amount wrappedAmount =>
    publish "wrap" [.address caller, .i128 amount, .i128 wrappedAmount]
  | .deposit caller assets shares =>
    publish "deposit" [.address caller, .i128 assets, .i128 shares, .u32 eventSchemaVersion]
  | .unwrap caller wrappedAmount underlyingAmount =>
    publish "unwrap" [.address caller, .i128 wrappedAmount, .i128 underlyingAmount]
  | .transfer src dst amount => publish "xfer" [.address src, .address dst, .i128 amount]
  | .transferFrom spender src dst amount =>
    publish "xfer_frm" [.address spender, .address src, .address dst, .i128 amount]
  | .approve src spender amount =>
    publish "approve" [.address src, .address spender, .i128 amount]
  | .burn src amount => publish "burn" [.address src, .i128 amount]
  | .paused admin => publish "paused" [.address admin]
  | .unpaused admin => publish "unpause" [.address admin]
  | .distributeRewards caller amount => publish "dist_rw" [.address caller, .i128 amount]
  | .vaultStateSet caller state => publish "v_state" [.address caller, vaultStateVal state]
  | .withdraw caller shares underlyingAmount =>
    publish "withdrw" [.address caller, .i128 shares, .i128 underlyingAmount,
      .u32 eventSchemaVersion]
  | .unlockTimeSet caller user unlockTimestamp =>
    publish "lockup" [.address caller, .address user, .u64 unlockTimestamp]
  | .unlockTimeCleared caller user => publish "unlock" [.address caller, .address user]
  | .rescued caller token dst amount =>
    publish "rescue" [.address caller, .address token, .address dst, .i128 amount]
  | .cooldownConfigSet admin config =>
    publish "c_cfg" [.address admin, cooldownConfigVal config]
  | .withdrawQueued caller shares amount releaseLedger =>
    publish "w_queued" [.address caller, .i128 shares, .i128 amount, .u32 releaseLedger]

/-- One constructor for each `emit_*` of the admin library. -/
inductive AdminEvent where
  | roleGranted (admin : Address) (role : Role) (a : Address)
  | roleRevoked (admin : Address) (role : Role) (a : Address)
  | roleChecked (a : Address) (role : Role) (result : Bool)
  | upgraded (executor : Address) (proposalId : ℕ) (wasmHash : BytesN32)
  | privilegeProposed (submitter : Address) (action : PrivilegeAction) (executableAt : ℕ)
  | privilegeCancelled (caller : Address) (action : PrivilegeAction)
  | privilegeExecuted (action : PrivilegeAction)
  | proposalCancelled (caller : Address) (proposalId : ℕ)
  | upgradeProposalSubmitted (submitter : Address) (proposalId : ℕ) (newWasmHash : BytesN32)

def roleVal : Role → ScVal
  | .admin => .vec [.symbol "Admin"]
  | .minter => .vec [.symbol "Minter"]
  | .superAdmin => .vec [.symbol "SuperAdmin"]
  | .pauser => .vec [.symbol "Pauser"]

def privilegeActionVal : PrivilegeAction → ScVal
  | .setFeeConfig => .vec [.symbol "SetFeeConfig"]
  | .transferOwnership newAdmin => .vec [.symbol "TransferOwnership", .address newAdmin]

def AdminEvent.emit : AdminEvent → Published
  | .roleGranted admin role a =>
    publish "role_grnt" [.address admin, roleVal role, .address a]
  | .roleRevoked admin role a => publish "role_rvk" [.address admin, roleVal role, .address a]
  | .roleChecked a role result => publish "role_chk" [.address a, roleVal role, .bool result]
  | .upgraded executor proposalId wasmHash =>
    publish "upgraded" [.address executor, .u64 proposalId, .bytes wasmHash]
  | .privilegeProposed submitter action executableAt =>
    publish "prv_prop" [.address submitter, privilegeActionVal action, .u64 executableAt]
  | .privilegeCancelled caller action =>
    publish "prv_cncl" [.address caller, privilegeActionVal action]
  | .privilegeExecuted action => publish "prv_exec" [privilegeActionVal action]
  | .proposalCancelled caller proposalId =>
    publish "prop_cncl" [.address caller, .u64 proposalId]
  | .upgradeProposalSubmitted submitter proposalId newWasmHash =>
    publish "upg_prop" [.u64 proposalId, .address submitter, .bytes newWasmHash]

/-- Everything either contract emits. The library runs inside the contract that calls it, so its
events carry that contract's address. -/
inductive Emitted where
  | token (e : TokenEvent)
  | wrapper (e : WrapperEvent)
  | library (e : AdminEvent)

def Emitted.emit : Emitted → Published
  | .token e => e.emit
  | .wrapper e => e.emit
  | .library e => e.emit

end BcForge.Sdk
