import BcForge.Sdk.Events

/-! Agreement between the names and tuples the contracts publish and the ones the SDK looks for.
Two topics of the token's lockups have drifted from the enum, and the name the enum kept for one
of them is in use by the wrapper. -/
namespace BcForge.Sdk

open Soroban

/-- What the documentation of `scValToNative` says, as far as the decoders depend on it. -/
structure Documented (scValToNative : ScVal → Option Native) : Prop where
  symbol (s : String) : scValToNative (.symbol s) = some (.text s)
  u32 (n : ℕ) : scValToNative (.u32 n) = some (.number n)
  /-- A tuple becomes the array of its components. -/
  tuple (vs : List ScVal) :
    scValToNative (.vec vs) = (vs.mapM scValToNative).map .array
  /-- No value of a contract makes it throw. -/
  total (v : ScVal) : (scValToNative v).isSome

/-- The type with the meaning of this event. -/
def TokenEvent.meaning : TokenEvent → Option EventType
  | .initialized .. => some .initialized
  | .mint .. => some .mint
  | .burn .. => some .burn
  | .transfer .. => some .transfer
  | .transferFrom .. => some .transferFrom
  | .approve .. => some .approve
  | .ownershipTransferred .. => some .ownershipTransferred
  | .paused .. => some .paused
  | .unpaused .. => some .unpaused
  | .locked .. => some .locked
  | .withdrawLocked .. => some .withdrawLocked
  | .upgraded .. | .maxSupplyChanged .. | .feeConfigSet .. | .treasurySet ..
  | .feeExemptionSet .. | .feeExemptionRemoved .. | .updateName .. | .updateSymbol ..
  | .metadataUpdated .. | .batchExecute .. | .rescued .. => none

/-- An admin who sets or clears the time lock of a deposit neither locks tokens nor withdraws
them: those two events have no type. -/
def WrapperEvent.meaning : WrapperEvent → Option EventType
  | .initialized .. => some .initialized
  | .transfer .. => some .transfer
  | .transferFrom .. => some .transferFrom
  | .approve .. => some .approve
  | .burn .. => some .burn
  | .paused .. => some .paused
  | .unpaused .. => some .unpaused
  | .wrap .. | .deposit .. | .unwrap .. | .distributeRewards .. | .vaultStateSet ..
  | .withdraw .. | .unlockTimeSet .. | .unlockTimeCleared .. | .rescued ..
  | .cooldownConfigSet .. | .withdrawQueued .. => none

/-- The enum has no type for roles, proposals and upgrades. -/
def Emitted.meaning : Emitted → Option EventType
  | .token e => e.meaning
  | .wrapper e => e.meaning
  | .library _ => none

/-- What the RPC adds to an event. -/
structure Delivery where
  ledger : ℕ
  contractId : Option String
  txHash : Option String
  id : Option String

def Emitted.response (e : Emitted) (r : Delivery) : EventResponse where
  topic := some e.emit.topics
  value := e.emit.data
  ledger := r.ledger
  contractId := r.contractId
  txHash := r.txHash
  id := r.id

section Agreement
variable (scValToNative : ScVal → Option Native)

/-- `decode`, given the event's data, returns these fields in this order and the version under
which they were emitted; `layout` lists what it returned. -/
def ReadsBack {δ : Type} (decode : Native → Option δ) (layout : δ → JsNumber × List Native)
    (data : ScVal) (fields : List ScVal) : Prop :=
  ∃ natives, fields.mapM scValToNative = some natives ∧
    ((scValToNative data).bind decode).map layout = some (.int eventSchemaVersion, natives)

/-- The six events with a decoder of their own. -/
def Emitted.Typed (e : Emitted) : Prop :=
  match e with
  | .token (.mint admin dst amount newBalance newSupply) =>
    ReadsBack scValToNative decodeMintEventData
      (fun d => (d.version, [d.admin, d.dst, d.amount, d.newBalance, d.newSupply])) e.emit.data
      [.address admin, .address dst, .i128 amount, .i128 newBalance, .i128 newSupply]
  | .token (.burn src amount newBalance newSupply) =>
    ReadsBack scValToNative decodeBurnEventData
      (fun d => (d.version, [d.src, d.amount, d.newBalance, d.newSupply])) e.emit.data
      [.address src, .i128 amount, .i128 newBalance, .i128 newSupply]
  | .token (.transfer src dst amount) =>
    ReadsBack scValToNative decodeTransferEventData
      (fun d => (d.version, [d.src, d.dst, d.amount])) e.emit.data
      [.address src, .address dst, .i128 amount]
  | .token (.transferFrom spender src dst amount remainingAllowance) =>
    ReadsBack scValToNative decodeTransferFromEventData
      (fun d => (d.version, [d.spender, d.src, d.dst, d.amount, d.remainingAllowance]))
      e.emit.data
      [.address spender, .address src, .address dst, .i128 amount, .i128 remainingAllowance]
  | .wrapper (.deposit caller assets shares) =>
    ReadsBack scValToNative decodeDepositEventData
      (fun d => (d.version, [d.caller, d.assets, d.shares])) e.emit.data
      [.address caller, .i128 assets, .i128 shares]
  | .wrapper (.withdraw caller shares underlyingAmount) =>
    ReadsBack scValToNative decodeWithdrawEventData
      (fun d => (d.version, [d.caller, d.shares, d.underlyingAmount])) e.emit.data
      [.address caller, .i128 shares, .i128 underlyingAmount]
  | _ => True

/-- The codec agrees on an event, delivered in any way. -/
structure Agrees (e : Emitted) (r : Delivery) : Prop where
  /-- A token event with a meaning in the enum is decoded, and under that meaning. -/
  decoded : ∀ te type, e = .token te → te.meaning = some type →
    ∃ event, decodeEvent scValToNative (e.response r) = some event ∧ event.type = type
  /-- No event is decoded under another one's meaning. -/
  sound : ∀ event, decodeEvent scValToNative (e.response r) = some event →
    e.meaning = some event.type
  typed : e.Typed scValToNative

end Agreement

/-- The token's two lockup events, and the wrapper's event for a lockup that an admin cleared. -/
def Emitted.drifted : Emitted → Bool
  | .token (.locked ..) | .token (.withdrawLocked ..) | .wrapper (.unlockTimeCleared ..) => true
  | _ => false

/-- The first topic, which is a symbol in every event. -/
def Emitted.name (e : Emitted) : String :=
  match e.emit.topics with
  | .symbol s :: _ => s
  | _ => ""

theorem topics_eq (e : Emitted) : ∃ rest, e.emit.topics = .symbol e.name :: rest := by
  cases e with
  | token e => cases e <;> exact ⟨_, rfl⟩
  | wrapper e => cases e <;> exact ⟨_, rfl⟩
  | library e => cases e <;> exact ⟨_, rfl⟩

/-- Apart from the three events, the enum has the name of every event it has a meaning for, and of
no other. -/
theorem find_name {e : Emitted} (h : e.drifted = false) :
    EventType.find (.text e.name) = e.meaning := by
  cases e with
  | token e => cases e <;> first | rfl | cases h
  | wrapper e => cases e <;> first | rfl | cases h
  | library e => cases e <;> rfl

section Decode
variable {scValToNative : ScVal → Option Native} (h : Documented scValToNative)
  {e : Emitted} {r : Delivery}
include h

theorem type_decodeEvent :
    (decodeEvent scValToNative (e.response r)).map (·.type) = EventType.find (.text e.name) := by
  obtain ⟨rest, ht⟩ := topics_eq e
  obtain ⟨data, hd⟩ := Option.isSome_iff_exists.mp (h.total e.emit.data)
  simp only [decodeEvent, Emitted.response, ht, h.symbol, hd, Option.bind_eq_bind,
    Option.bind_some]
  cases EventType.find (.text e.name) <;> rfl

theorem decoded_iff {type : EventType} :
    (∃ event, decodeEvent scValToNative (e.response r) = some event ∧ event.type = type) ↔
      EventType.find (.text e.name) = some type := by
  rw [← type_decodeEvent h (r := r), Option.map_eq_some_iff]

theorem mapM_total (vs : List ScVal) :
    ∃ natives, vs.mapM scValToNative = some natives ∧ natives.length = vs.length := by
  induction vs with
  | nil => exact ⟨[], rfl, rfl⟩
  | cons v vs ih =>
    obtain ⟨natives, hn, hl⟩ := ih
    obtain ⟨x, hx⟩ := Option.isSome_iff_exists.mp (h.total v)
    exact ⟨x :: natives, by simp [hx, hn], by simp [hl]⟩

theorem readsBack_of_decode {δ : Type} {decode : Native → Option δ}
    {layout : δ → JsNumber × List Native} {fields : List ScVal}
    (hd : ∀ natives v, natives.length = fields.length →
      (decode (.array (natives ++ [.number v]))).map layout = some (.int v, natives)) :
    ReadsBack scValToNative decode layout (.vec (fields ++ [.u32 eventSchemaVersion])) fields := by
  obtain ⟨natives, hn, hl⟩ := mapM_total h fields
  refine ⟨natives, hn, ?_⟩
  rw [h.tuple, List.mapM_append, hn]
  simp [h.u32, hd natives _ hl]

theorem emitted_typed (e : Emitted) : e.Typed scValToNative := by
  unfold Emitted.Typed
  split
  case h_1 => exact readsBack_of_decode h fun | [_, _, _, _, _], _, _ => rfl
  case h_2 => exact readsBack_of_decode h fun | [_, _, _, _], _, _ => rfl
  case h_3 => exact readsBack_of_decode h fun | [_, _, _], _, _ => rfl
  case h_4 => exact readsBack_of_decode h fun | [_, _, _, _, _], _, _ => rfl
  case h_5 => exact readsBack_of_decode h fun | [_, _, _], _, _ => rfl
  case h_6 => exact readsBack_of_decode h fun | [_, _, _], _, _ => rfl
  case h_7 => trivial

theorem agrees_of_not_drifted (hd : e.drifted = false) : Agrees scValToNative e r where
  decoded := by
    rintro te type rfl ht
    exact (decoded_iff h).mpr ((find_name hd).trans ht)
  sound := by
    intro event he
    rw [← find_name hd]
    exact (decoded_iff h).mp ⟨event, he, rfl⟩
  typed := emitted_typed h e

theorem not_drifted_of_agrees (ha : Agrees scValToNative e r) : e.drifted = false := by
  by_contra hd
  rw [Bool.not_eq_false] at hd
  unfold Emitted.drifted at hd
  split at hd
  case h_1 =>
    -- the enum says `lock`
    exact nomatch (decoded_iff h).mp (ha.decoded _ _ rfl rfl)
  case h_2 =>
    -- the enum says `unlock`
    exact nomatch (decoded_iff h).mp (ha.decoded _ _ rfl rfl)
  case h_3 caller user =>
    have hf : EventType.find (.text (Emitted.wrapper (.unlockTimeCleared caller user)).name) =
        some .withdrawLocked := rfl
    obtain ⟨event, he, _⟩ := (decoded_iff h (r := r)).mpr hf
    exact nomatch ha.sound event he
  case h_4 => cases hd

end Decode

/-- On every event of either contract, whatever its fields, and however it is delivered, the SDK
agrees with the contract exactly when the event is not one of the three. -/
theorem agrees_iff {scValToNative : ScVal → Option Native} (h : Documented scValToNative)
    (e : Emitted) (r : Delivery) : Agrees scValToNative e r ↔ e.drifted = false :=
  ⟨not_drifted_of_agrees h, agrees_of_not_drifted h⟩

mutual

/-- A conversion as documented; an address is shown by its number. -/
def toNative : ScVal → Native
  | .bool b => .boolean b
  | .u32 n => .number n
  | .u64 n => .bigint n
  | .i128 n => .bigint n
  | .bytes b => .bytes b
  | .string s => .text s
  | .symbol s => .text s
  | .address a => .text (toString a.id)
  | .vec vs => .array (toNatives vs)
  | .map entries => .object (toEntries entries)

def toNatives : List ScVal → List Native
  | [] => []
  | v :: vs => toNative v :: toNatives vs

def toEntries : List (String × ScVal) → List (String × Native)
  | [] => []
  | (key, v) :: entries => (key, toNative v) :: toEntries entries

end

theorem mapM_toNative (vs : List ScVal) :
    vs.mapM (fun v => some (toNative v)) = some (toNatives vs) := by
  induction vs with
  | nil => rfl
  | cons v vs ih => simp [ih, toNatives]

theorem documented_toNative : Documented fun v => some (toNative v) where
  symbol s := by rw [toNative]
  u32 n := by rw [toNative]
  tuple vs := by rw [toNative, mapM_toNative, Option.map_some]
  total _ := rfl

def delivered : Delivery := ⟨120, some "CTOKEN", some "9f0a", none⟩

/-- A mint comes back as it was emitted. -/
theorem mint_agrees :
    Agrees (fun v => some (toNative v)) (.token (.mint ⟨1⟩ ⟨2⟩ 50 70 900)) delivered :=
  (agrees_iff documented_toNative _ _).mpr rfl

/-- A holder's tokens are locked and the SDK drops the event; an admin clears a deposit's lockup
and the SDK reports that locked tokens were withdrawn. -/
theorem lockups_disagree :
    ¬ Agrees (fun v => some (toNative v)) (.token (.locked ⟨2⟩ 40 1700000000)) delivered ∧
    ¬ Agrees (fun v => some (toNative v)) (.wrapper (.unlockTimeCleared ⟨1⟩ ⟨2⟩)) delivered := by
  constructor
  · intro h
    exact nomatch (decoded_iff documented_toNative).mp (h.decoded _ _ rfl rfl)
  · intro h
    exact nomatch h.sound _ rfl

end BcForge.Sdk
