import BcForge.Remote.Talk
import BcForge.Sdk.Events
import BcForge.Sdk.Network

/-! How the SDK builds, sends and confirms a transaction, with the retries of `submitTransaction`
and of the vault client around it. -/
namespace BcForge.Sdk

open Remote Talk

inductive ContractModule where
  | token | admin
  deriving DecidableEq, Repr

/-- The error class is the module's entry under the code. -/
structure ContractError where
  contractModule : ContractModule
  numericCode : ℕ
  rawMessage : String
  deriving DecidableEq, Repr

inductive Failure where
  | contract (e : ContractError)
  | timeout (hash : String)
  | submission (message : String) (hash : Option String)
  | simulation (message : String)
  | signerRequired (message : String)
  /-- Any other exception, above all those of the RPC client. -/
  | thrown (message : String)
  deriving DecidableEq, Repr

/-- `String.prototype.includes`. -/
def includes (s needle : String) : Bool := decide (needle.toList <:+: s.toList)

def includesAny (s : String) (needles : List String) : Bool := needles.any (includes s)

/-- `s || t`, where the empty string counts as missing. -/
def truthyOr (s : Option String) (t : String) : String :=
  match s with
  | some x => if x = "" then t else x
  | none => t

/-- The white space of `\s`. -/
def isSpace (c : Char) : Bool :=
  c.val ∈ [9, 10, 11, 12, 13, 32, 0xa0, 0x1680, 0x2028, 0x2029, 0x202f, 0x205f, 0x3000, 0xfeff]
    || (0x2000 ≤ c.val && c.val ≤ 0x200a)

/-- What follows `p`, read without regard to case. -/
def afterPrefix : List Char → List Char → Option (List Char)
  | [], cs => some cs
  | _ :: _, [] => none
  | p :: ps, c :: cs => if p = c.toLower then afterPrefix ps cs else none

def dropHash : List Char → List Char
  | '#' :: cs => cs
  | cs => cs

/-- `(\d+)` at the head: the number and what follows it. -/
def digits (cs : List Char) : Option (ℕ × List Char) :=
  let ds := cs.takeWhile Char.isDigit
  if ds = [] then none
  else some (ds.foldl (fun n d => 10 * n + (d.toNat - 48)) 0, cs.dropWhile Char.isDigit)

/-- `Error\(Contract,\s*#?(\d+)\)` at the head. -/
def hostErrorCode (cs : List Char) : Option ℕ := do
  let rest ← afterPrefix "error(contract,".toList cs
  let (code, rest) ← digits (dropHash (rest.dropWhile isSpace))
  if rest.head? = some ')' then some code else none

/-- `contract error #?(\d+)` at the head. -/
def plainErrorCode (cs : List Char) : Option ℕ := do
  let rest ← afterPrefix "contract error ".toList cs
  let (code, _) ← digits (dropHash rest)
  return code

def inTokenErrorMap (code : ℕ) : Bool := 1 ≤ code && code ≤ 17

def inAdminErrorMap (code : ℕ) : Bool := 1 ≤ code && code ≤ 24

def isMethodAdmin (method : Option String) : Bool :=
  match method with
  | some m => includesAny m ["role", "proposal", "admin", "upgrade", "threshold"]
  | none => false

def parseContractError (errorMsg : String) (method : Option String) : Option ContractError :=
  let cs := errorMsg.toList
  match cs.tails.findSome? hostErrorCode <|> cs.tails.findSome? plainErrorCode with
  | none => none
  | some code =>
    if isMethodAdmin method && inAdminErrorMap code then some ⟨.admin, code, errorMsg⟩
    else if inTokenErrorMap code then some ⟨.token, code, errorMsg⟩
    else if inAdminErrorMap code then some ⟨.admin, code, errorMsg⟩
    else none

inductive SendStatus where
  | pending | duplicate | tryAgainLater | error
  deriving DecidableEq, Repr

/-- The two error fields are as a template string prints them. -/
structure SendTransactionResponse where
  status : SendStatus
  hash : String
  errorResult : Option String
  errorResultXdr : Option String

inductive GetTransactionStatus where
  | success | notFound | failed
  deriving DecidableEq, Repr

structure GetTransactionResponse where
  status : GetTransactionStatus
  hash : Option String
  txHash : String
  returnValue : Option ScVal
  resultXdr : Option String

/-- What the server and the network do during one request. The network may close ledgers, and an
answer may get lost, whatever the request and its outcome. -/
structure Turn where
  /-- Whether a transaction that is sent reaches the network. -/
  arrives : Bool
  closed : List Inclusion
  getAccount : Except String ℤ
  /-- The minimal resource fee, when the simulation finds no error. -/
  simulateTransaction : Except String (Except String ℕ)
  sendTransaction : Except String SendTransactionResponse
  getTransaction : Except String GetTransactionResponse
  /-- Whether the wallet signs. -/
  signTransaction : Except String Unit

abbrev Client := Talk Turn Network Failure

def ask {α : Type} (answer : Turn → Except String α) : Client α :=
  request fun t n => ((answer t).mapError .thrown, n.recordAll t.closed)

def sendTransaction (xdr : Envelope) : Client SendTransactionResponse :=
  request fun t n => (t.sendTransaction.mapError .thrown,
    (if t.arrives then n.receive xdr else n).recordAll t.closed)

/-- The wallet returns the transaction it was given, signed. -/
def signTransaction (unsignedXdr : Envelope) : Client Envelope := do
  ask Turn.signTransaction
  return unsignedXdr

/-- `assembleTransaction` adds the resource fee. -/
def assemble (source : String) (sequence : ℤ) (fee resourceFee : ℕ) (networkPassphrase : String)
    (i : Invocation) : Envelope where
  source := source
  sequence := sequence + 1
  fee := fee + resourceFee
  network := networkPassphrase
  invocation := i

/-- `options?.fee ? options.fee : 100`. -/
def feeOr100 (fee : Option ℕ) : ℕ := if fee.getD 0 = 0 then 100 else fee.getD 0

def buildInvokeTransaction (networkPassphrase : String) (i : Invocation) (sourceKeypair : String)
    (fee : Option ℕ) : Client Envelope := do
  let sequence ← ask Turn.getAccount
  match ← ask Turn.simulateTransaction with
  | .error error =>
    match parseContractError error (some i.method) with
    | some parsed => fail (.contract parsed)
    | none => fail (.simulation ("Contract simulation failed: " ++ error))
  | .ok resourceFee =>
    return assemble sourceKeypair sequence (feeOr100 fee) resourceFee networkPassphrase i

def buildUnsignedTransaction (networkPassphrase : String) (i : Invocation)
    (sourcePublicKey : String) : Client Envelope := do
  let sequence ← ask Turn.getAccount
  match ← ask Turn.simulateTransaction with
  | .error error => fail (.thrown ("Simulation failed: " ++ error))
  | .ok resourceFee =>
    return assemble sourcePublicKey sequence 100 resourceFee networkPassphrase i

structure SubmitTransactionOptions where
  maxAttempts : Option ℕ
  maxFeeCap : Option ℕ
  /-- The account of the keypair. -/
  sourceKeypair : Option String
  networkPassphrase : Option String
  contractId : Option String
  method : Option String
  args : Option (List String)

namespace SubmitTransactionOptions
variable (options : SubmitTransactionOptions)

def attempts : ℕ := options.maxAttempts.getD 3

def feeCap : ℕ := options.maxFeeCap.getD 10000000

def network : String := truthyOr options.networkPassphrase "Test SDF Network ; September 2015"

/-- Who would sign which invocation anew; every part has to be given. -/
def context : Option (String × Invocation) :=
  match options.sourceKeypair, options.contractId, options.method, options.args with
  | some keypair, some contractId, some method, some args =>
    if contractId = "" ∨ method = "" then none else some (keypair, ⟨contractId, method, args⟩)
  | _, _, _, _ => none

/-- The condition of the sequence branches; `more` says that attempts are left. -/
def sequenceRetry (more : Bool) : Option (String × Invocation) :=
  if more then options.context else none

def bumpedFee (currentFee : ℕ) : ℕ :=
  if currentFee * 2 < options.feeCap then currentFee * 2 else options.feeCap

/-- The condition of the fee branches. -/
def feeRetry (more : Bool) (currentFee : ℕ) : Option (String × Invocation) :=
  if more ∧ currentFee < options.feeCap ∧ currentFee < options.bumpedFee currentFee then
    options.context
  else none

end SubmitTransactionOptions

/-- What the body of the loop decides on an answer to `sendTransaction`. -/
inductive Reaction where
  | poll
  | rebuild (context : String × Invocation) (fee : ℕ)
  | raise (e : Failure)

def SendTransactionResponse.errorStr (r : SendTransactionResponse) : String :=
  r.errorResult.getD "" ++ " " ++ r.errorResultXdr.getD ""

def submissionError (text : String) (r : SendTransactionResponse) : Failure :=
  .submission (text ++ truthyOr r.errorResult r.errorStr) (some r.hash)

def react (options : SubmitTransactionOptions) (more : Bool) (currentFee : ℕ)
    (r : SendTransactionResponse) : Reaction :=
  if r.status ≠ .error then .poll
  else if includesAny r.errorStr ["txFAILED", "txfailed", "ContractError", "Error(Contract"] then
    match parseContractError r.errorStr options.method with
    | some parsed => .raise (.contract parsed)
    | none => .raise (submissionError "Transaction submission failed: " r)
  else if includesAny r.errorStr ["txBAD_SEQ", "txbad_seq", "BAD_SEQ", "bad_seq"] then
    match options.sequenceRetry more with
    | some context => .rebuild context currentFee
    | none => .raise (submissionError "Transaction submission failed (sequence error): " r)
  else if includesAny r.errorStr
      ["txINSUFFICIENT_FEE", "txinsufficient_fee", "INSUFFICIENT_FEE", "insufficient_fee"] then
    match options.feeRetry more currentFee with
    | some context => .rebuild context (options.bumpedFee currentFee)
    | none => .raise (submissionError "Transaction submission failed (fee error): " r)
  else .raise (submissionError "Transaction submission failed: " r)

/-- What the catch clause of the loop decides. -/
inductive Recovery where
  | rethrow (e : Failure)
  | rebuild (context : String × Invocation) (fee : ℕ)
  /-- The error is remembered and the next attempt sends the same transaction. -/
  | remember

def recoverText (options : SubmitTransactionOptions) (more : Bool) (currentFee : ℕ)
    (errStr : String) (error : Failure) : Recovery :=
  if includesAny errStr ["txFAILED", "ContractError", "Error(Contract"] then
    match parseContractError errStr options.method with
    | some parsed => .rethrow (.contract parsed)
    | none => .rethrow error
  else if includesAny errStr ["txBAD_SEQ", "BAD_SEQ", "bad sequence"] then
    match options.sequenceRetry more with
    | some context => .rebuild context currentFee
    | none => .rethrow error
  else if includesAny errStr ["txINSUFFICIENT_FEE", "INSUFFICIENT_FEE", "insufficient_fee"] then
    match options.feeRetry more currentFee with
    | some context => .rebuild context (options.bumpedFee currentFee)
    | none => .rethrow error
  else .remember

def recover (options : SubmitTransactionOptions) (more : Bool) (currentFee : ℕ)
    (error : Failure) : Recovery :=
  match error with
  | .contract _ | .timeout _ => .rethrow error
  | .submission message _ | .simulation message | .signerRequired message | .thrown message =>
    recoverText options more currentFee message error

/-- The polls that are left after this one. -/
def poll : ℕ → Client GetTransactionResponse
  | 0 => ask Turn.getTransaction
  | pollAttempts + 1 => do
    let response ← ask Turn.getTransaction
    if response.status = .notFound then poll pollAttempts else return response

def confirm (options : SubmitTransactionOptions) (hash : String) :
    Client GetTransactionResponse := do
  let response ← poll 29
  match response.status with
  | .notFound => fail (.timeout hash)
  | .failed =>
    let errorStr := truthyOr response.resultXdr "Transaction execution failed on ledger"
    match parseContractError errorStr options.method with
    | some parsed => fail (.contract parsed)
    | none => fail (.submission ("Transaction failed: " ++ errorStr) (some hash))
  | .success => return response

/-- How one pass through the loop ends, when it does not throw. -/
inductive Attempted where
  | confirmed (response : GetTransactionResponse)
  | rebuilt (xdr : Envelope) (fee : ℕ)
  | remembered (error : Failure) (fee : ℕ)

def rebuild (options : SubmitTransactionOptions) (context : String × Invocation) (fee : ℕ) :
    Client Attempted := do
  let xdr ← buildInvokeTransaction options.network context.2 context.1 (some fee)
  return .rebuilt xdr fee

/-- The catch clause. -/
def caught (options : SubmitTransactionOptions) (more : Bool) (currentFee : ℕ)
    (error : Failure) : Client Attempted :=
  match recover options more currentFee error with
  | .rethrow e => fail e
  | .rebuild context fee => rebuild options context fee
  | .remember => return .remembered error currentFee

/-- A lost answer is met by sending the transaction a second time. -/
def send (xdr : Envelope) : Client SendTransactionResponse := do
  match ← capture (sendTransaction xdr) with
  | .ok response => return response
  | .error _ => sendTransaction xdr

/-- One pass through the loop. The fee is raised before the transaction is built anew, and stays
raised when that fails. -/
def attempt (options : SubmitTransactionOptions) (more : Bool) (currentXdr : Envelope)
    (currentFee : ℕ) : Client Attempted := do
  match ← capture (send currentXdr) with
  | .error error => caught options more currentFee error
  | .ok response =>
    match react options more currentFee response with
    | .raise error => caught options more currentFee error
    | .rebuild context fee =>
      match ← capture (rebuild options context fee) with
      | .ok done => return done
      | .error error => caught options more fee error
    | .poll =>
      match ← capture (confirm options response.hash) with
      | .ok getResponse => return .confirmed getResponse
      | .error error => caught options more currentFee error

/-- The loop, by the number of attempts left. -/
def submitLoop (options : SubmitTransactionOptions) :
    ℕ → Envelope → ℕ → Option Failure → Client GetTransactionResponse
  | 0, _, _, lastError => fail (lastError.getD
      (.submission "Transaction submission failed after maximum retry attempts" none))
  | left + 1, currentXdr, currentFee, lastError => do
    match ← attempt options (left ≠ 0) currentXdr currentFee with
    | .confirmed response => return response
    | .rebuilt xdr fee => submitLoop options left xdr fee lastError
    | .remembered error fee => submitLoop options left currentXdr fee (some error)

def submitTransaction (txXdr : Envelope) (options : SubmitTransactionOptions) :
    Client GetTransactionResponse :=
  submitLoop options options.attempts txXdr txXdr.fee none

/-- `{}`. -/
def SubmitTransactionOptions.default : SubmitTransactionOptions :=
  ⟨none, none, none, none, none, none, none⟩

structure WalletAdapter where
  connected : Bool
  publicKey : Option String

/-- A caller may pass a keypair or a wallet in its place. -/
inductive Signer where
  | keypair (account : String)
  | adapter (wallet : WalletAdapter)

structure VaultClient where
  contractId : String
  networkPassphrase : String
  walletAdapter : Option WalletAdapter

structure TransactionResult where
  success : Bool
  hash : String
  returnValue : Option Native

/-- The retries that are left, after `lastError`. -/
def retryAfter {α : Type} (fn : Client α) (lastError : Failure) : ℕ → Client α
  | 0 => fail lastError
  | retries + 1 => do
    match ← capture fn with
    | .ok a => return a
    | .error error => retryAfter fn error retries

def withRetry {α : Type} (fn : Client α) : Client α := retryAfter fn (.thrown "undefined") 3

/-- Who signs, and with what. -/
inductive Authority where
  | keypair (account : String)
  | wallet (account : String)

def WalletAdapter.authority (wallet : WalletAdapter) : Except Failure Authority :=
  match wallet.publicKey with
  | some key =>
    if wallet.connected ∧ key ≠ "" then .ok (.wallet key)
    else .error (.signerRequired "Wallet adapter is not connected")
  | none => .error (.signerRequired "Wallet adapter is not connected")

/-- The client's own wallet signs only when the caller passed nothing. -/
def VaultClient.authority (client : VaultClient) (source : Option Signer) :
    Except Failure Authority :=
  match source with
  | some (.keypair account) => .ok (.keypair account)
  | some (.adapter wallet) => wallet.authority
  | none =>
    match client.walletAdapter with
    | some wallet => wallet.authority
    | none => .error (.signerRequired
        "A signer (Keypair or connected WalletAdapter) is required to execute write transactions")

def VaultClient.signed (client : VaultClient) (i : Invocation) : Authority → Client Envelope
  | .keypair account => buildInvokeTransaction client.networkPassphrase i account none
  | .wallet account => do
    let unsignedXdr ← buildUnsignedTransaction client.networkPassphrase i account
    signTransaction unsignedXdr

/-- `scValToNative` on the returned value, where there is one. -/
def nativeValue (scValToNative : ScVal → Option Native) : Option ScVal → Client (Option Native)
  | none => return none
  | some v =>
    match scValToNative v with
    | some native => return some native
    | none => fail (.thrown "scValToNative")

/-- What is retried: a new transaction each time. -/
def VaultClient.invokeOnce (scValToNative : ScVal → Option Native) (client : VaultClient)
    (i : Invocation) (authority : Authority) : Client TransactionResult := do
  let txXdr ← client.signed i authority
  let response ← submitTransaction txXdr .default
  if response.status = .success then
    let returnValue ← nativeValue scValToNative response.returnValue
    return ⟨true, response.hash.getD response.txHash, returnValue⟩
  else return ⟨false, response.hash.getD response.txHash, none⟩

def VaultClient.invokeContract (scValToNative : ScVal → Option Native) (client : VaultClient)
    (method : String) (args : List String) (source : Option Signer) :
    Client TransactionResult :=
  match client.authority source with
  | .error e => fail e
  | .ok authority =>
    withRetry (client.invokeOnce scValToNative ⟨client.contractId, method, args⟩ authority)

end BcForge.Sdk
