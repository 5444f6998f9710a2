import BcForge.Admin.Multisig
import BcForge.Soroban.Tokens

/-! The split contract: invoices paid out to several recipients at once, with a record of each
payout that failed and a way to retry it. -/
namespace BcForge.Split

open Soroban Call Admin

structure Recipient where
  dst : Address
  amount : ℤ
deriving DecidableEq

inductive InvoiceStatus where
  | pending
  | partiallyReleased
  | fullyReleased
  | failed
deriving DecidableEq

structure FailedPayout where
  invoiceId : ℕ
  recipient : Address
  amount : ℤ
  retryCount : ℕ

structure Invoice where
  invoiceId : ℕ
  totalAmount : ℤ
  releasedAmount : ℤ
  status : InvoiceStatus
  recipients : List Recipient
  createdAt : ℕ

inductive SplitError where
  | invoiceNotFound
  | invalidRecipient
  | insufficientBalance
  | invoiceAlreadyCompleted
  | failedPayoutNotFound
  | access (e : AdminError)
deriving DecidableEq

inductive Guard where
  | releasePayment
  | retryFailedPayout
deriving DecidableEq

/-- The contract's storage, and beside it the tokens it can pay in. There is one `token` for all
invoices. -/
structure Store where
  access : Admin.Store
  token : Option Address
  invoice : ℕ → Option Invoice
  failedPayout : ℕ → Address → Option FailedPayout
  guard : Guard → Bool
  tokens : Tokens

abbrev SplitCall := Call Store SplitError

def accessLens : Lens Store Admin.Store where
  get s := s.access
  set a s := { s with access := a }

def guardLens (g : Guard) : Lens Store Bool where
  get s := s.guard g
  set b s := { s with guard := Function.update s.guard g b }

def admin {α : Type} (x : AdminCall α) : SplitCall α := within accessLens .access x

def reentrancyGuard {α : Type} (g : Guard) (body : SplitCall α) : SplitCall α :=
  guarded (guardLens g) "Reentrancy detected: function is being called recursively" body

/-- A call on the tokens; the caller traps with a call that fails. -/
def onTokens (f : Tokens → Option Tokens) : SplitCall Unit := do
  let tokens ← gets (f ·.tokens)
  let tokens ← expect tokens .host
  modify fun s => { s with tokens := tokens }

def ensureInvoiceExists (id : ℕ) : SplitCall Unit := do
  let invoice ← gets (·.invoice id)
  failIf (invoice.isSome = false) .invoiceNotFound

def readInvoice (id : ℕ) : SplitCall Invoice := do
  let invoice ← gets (·.invoice id)
  okOr invoice .invoiceNotFound

def writeInvoice (invoice : Invoice) (s : Store) : Store :=
  { s with invoice := Function.update s.invoice invoice.invoiceId (some invoice) }

def readFailedPayout (id : ℕ) (recipient : Address) : SplitCall (Option FailedPayout) :=
  gets (·.failedPayout id recipient)

def setFailedPayout (id : ℕ) (recipient : Address) (fp : Option FailedPayout) (s : Store) : Store :=
  { s with
    failedPayout := Function.update s.failedPayout id
      (Function.update (s.failedPayout id) recipient fp) }

def writeFailedPayout (fp : FailedPayout) : Store → Store :=
  setFailedPayout fp.invoiceId fp.recipient (some fp)

def removeFailedPayout (id : ℕ) (recipient : Address) : Store → Store :=
  setFailedPayout id recipient none

/-- Only a lack of funds is reported; a transfer the token refuses traps the whole call. -/
def tryTransfer (token src dst : Address) (amount : ℤ) : SplitCall Bool := do
  let balance ← gets (·.tokens.balance token src)
  let fromBalance ← expect balance .host
  if fromBalance < amount ∨ amount ≤ 0 then pure false
  else do
    onTokens (·.transfer ⟨token, src, dst, amount⟩)
    pure true

/-- What the loop over the recipients has added up. -/
structure Progress where
  totalToRelease : ℤ
  failedCount : ℕ
  invoiceUpdated : Bool

def payRecipients (id : ℕ) (token self : Address) :
    List Recipient → Progress → SplitCall Progress
  | [], p => pure p
  | r :: rest, p => do
    let failedPayout ← readFailedPayout id r.dst
    if failedPayout.any (3 ≤ ·.retryCount) then payRecipients id token self rest p
    else do
      let succeeded ← tryTransfer token self r.dst r.amount
      if succeeded = true then
        let total ← i128 (p.totalToRelease + r.amount)
        payRecipients id token self rest { p with totalToRelease := total, invoiceUpdated := true }
      else do
        let failedCount ← u32 (p.failedCount + 1)
        let retryCount ← u32 (failedPayout.elim 1 (·.retryCount + 1))
        modify (writeFailedPayout ⟨id, r.dst, r.amount, retryCount⟩)
        payRecipients id token self rest { p with failedCount := failedCount }

def releasedStatus (invoice : Invoice) (p : Progress) : InvoiceStatus :=
  if p.failedCount = invoice.recipients.length then .failed
  else if p.totalToRelease = invoice.totalAmount then .fullyReleased
  else .partiallyReleased

def releasePaymentInner (id : ℕ) : SplitCall Unit := do
  let token ← gets (·.token)
  let token ← okOr token .insufficientBalance
  let invoice ← readInvoice id
  failIf (invoice.status ≠ .pending) .invoiceAlreadyCompleted
  let self ← Call.self
  let p ← payRecipients id token self invoice.recipients ⟨0, 0, false⟩
  if p.invoiceUpdated = true then
    modify (writeInvoice { invoice with
      releasedAmount := p.totalToRelease, status := releasedStatus invoice p })
  else pure ()

def retryFailedPayoutInner (id : ℕ) (recipient : Address) : SplitCall Unit := do
  ensureInvoiceExists id
  let failedPayout ← readFailedPayout id recipient
  let failedPayout ← okOr failedPayout .failedPayoutNotFound
  failIf (3 ≤ failedPayout.retryCount) .invoiceAlreadyCompleted
  let token ← gets (·.token)
  let token ← okOr token .insufficientBalance
  let self ← Call.self
  let succeeded ← tryTransfer token self recipient failedPayout.amount
  if succeeded = true then modify (removeFailedPayout id recipient)
  else do
    let retryCount ← u32 (failedPayout.retryCount + 1)
    modify (writeFailedPayout { failedPayout with retryCount := retryCount })
    fail .insufficientBalance

/-- The sum of the shares, each of which has to be positive. -/
def recipientAmounts : List Recipient → ℤ → SplitCall ℤ
  | [], total => pure total
  | r :: rest, total => do
    failIf (r.amount ≤ 0) .invalidRecipient
    let total ← okOr (I128.checkedAdd total r.amount) .invalidRecipient
    recipientAmounts rest total

def createInvoice (adminAddress : Address) (id : ℕ) (totalAmount : ℤ)
    (recipients : List Recipient) (token : Address) : SplitCall Unit := do
  admin (requireSuperAdmin adminAddress)
  failIf (totalAmount ≤ 0) .invalidRecipient
  let amounts ← recipientAmounts recipients 0
  failIf (amounts ≠ totalAmount) .invalidRecipient
  let ledger ← Call.ledger
  modify fun s => { s with token := some token }
  admin (setAdmin adminAddress)
  modify (writeInvoice
    { invoiceId := id
      totalAmount := totalAmount
      releasedAmount := 0
      status := .pending
      recipients := recipients
      createdAt := ledger.sequence })

def releasePayment (id : ℕ) (adminAddress : Address) : SplitCall Unit :=
  reentrancyGuard .releasePayment do
    admin (requireSuperAdmin adminAddress)
    releasePaymentInner id

def retryFailedPayout (id : ℕ) (recipient adminAddress : Address) : SplitCall Unit :=
  reentrancyGuard .retryFailedPayout do
    admin (requireSuperAdmin adminAddress)
    retryFailedPayoutInner id recipient

def upgrade (upgrader : Address) (hash : BytesN32) : SplitCall Unit := do
  admin (requireSuperAdmin upgrader)
  admin (updateCurrentContractWasm hash)

/-- The contract's entry points, and what others do on the tokens. -/
inductive Op where
  | createInvoice (adminAddress : Address) (id : ℕ) (totalAmount : ℤ)
      (recipients : List Recipient) (token : Address)
  | releasePayment (id : ℕ) (adminAddress : Address)
  | retryFailedPayout (id : ℕ) (recipient adminAddress : Address)
  | upgrade (upgrader : Address) (hash : BytesN32)
  | setAdminPool (pool : List Address) (threshold : ℕ)
  | createProposal (creator : Address) (description : String)
  | approveProposal (adminAddress : Address) (id : ℕ)
  | executeUpgrade (executor : Address) (id : ℕ) (hash : BytesN32)
  | tokenMint (token dst : Address) (amount : ℤ)
  | tokenTransfer (token src dst : Address) (amount : ℤ)
  | tokenSetRefusals (token : Address) (refuses : Address → Address → ℤ → Bool)

def exec : Op → SplitCall Unit
  | .createInvoice adminAddress id totalAmount recipients token =>
    Split.createInvoice adminAddress id totalAmount recipients token
  | .releasePayment id adminAddress => Split.releasePayment id adminAddress
  | .retryFailedPayout id recipient adminAddress =>
    Split.retryFailedPayout id recipient adminAddress
  | .upgrade upgrader hash => Split.upgrade upgrader hash
  | .setAdminPool pool threshold => admin (Admin.setAdminPool pool threshold)
  | .createProposal creator description => do
    let _ ← admin (Admin.createProposal creator description)
    pure ()
  | .approveProposal adminAddress id => admin (Admin.approveProposal adminAddress id)
  | .executeUpgrade executor id hash => admin (Admin.executeUpgrade executor id hash)
  | .tokenMint token dst amount => onTokens (·.mint token dst amount)
  | .tokenTransfer token src dst amount => do
    requireAuth src
    onTokens (·.transfer ⟨token, src, dst, amount⟩)
  | .tokenSetRefusals token refuses => onTokens (·.setRefusals token refuses)

end BcForge.Split
