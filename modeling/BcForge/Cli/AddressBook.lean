import BcForge.Cli.Files

/-! The address book of the CLI: named accounts in its config file, and what a name resolves to. -/
namespace BcForge.Cli.AddressBook

open Js

def ACCOUNT_NAME_PATTERN (name : String) : Bool := isShortName name

def G_ADDRESS_SHAPE (value : String) : Bool := hasStrKeyShape 'G' value

/-- `StrKey.isValidEd25519PublicKey` of the Stellar SDK. -/
abbrev KeyCheck := String → Bool

def assertEd25519PublicKey (isValid : KeyCheck) (publicKey : String) : Except CliError Unit :=
  if isValid publicKey = true then .ok ()
  else .error (.error
    ("Invalid public key \"" ++ publicKey ++ "\". Stellar StrKey checksum check failed."))

def assertAccountName (name : String) : Except CliError Unit :=
  if ACCOUNT_NAME_PATTERN name = true then .ok ()
  else .error (.error ("Invalid account name \"" ++ name ++
    "\". Use a letter followed by letters, digits, \"_\" or \"-\"."))

def readConfigObject (filePath : String) : File → Except CliError (Record Json)
  | .missing => .ok ∅
  | .invalid message =>
    .error (.error ("CLI config at " ++ filePath ++ " is not valid JSON: " ++ message))
  | .json (.object fields) => .ok (record fields)
  | .json _ => .error (.error ("CLI config at " ++ filePath ++ " must be a JSON object."))

def accountsFromUnknown : Option Json → Record String
  | some (.object fields) => collect (fun
    | .string key => some key
    | _ => none) (record fields)
  | _ => ∅

/-- `config.accounts`, a name that no object inherits. -/
def accountsOf (config : Record Json) : Record String :=
  accountsFromUnknown ((property config "accounts").bind Found.own?)

def readStoredAccounts (filePath : String) (file : File) : Record String :=
  match readConfigObject filePath file with
  | .ok config => accountsOf config
  | .error _ => ∅

/-- The accounts of the project's own config file take precedence. -/
def loadAccounts (filePath : String) (file : File) (project : Option Json) : Record String :=
  spread (readStoredAccounts filePath file) (accountsFromUnknown project)

def writeAccounts (config : Record Json) (accounts : Record String) : File :=
  .json (.object (toJson id (config.insert "accounts" (.object (toJson .string accounts)))))

section Calls

variable (isValid : KeyCheck) (filePath : String)

def saveAccount (name publicKey : String) (file : File) :
    Except CliError (Record String × File) := do
  let accountName := trim name
  let key := trim publicKey
  assertAccountName accountName
  assertEd25519PublicKey isValid key
  let config ← readConfigObject filePath file
  let accounts := assign (accountsOf config) accountName key
  return (accounts, writeAccounts config accounts)

def removeAccount (name : String) (file : File) : Except CliError File := do
  let accountName := trim name
  let config ← readConfigObject filePath file
  let accounts := accountsOf config
  if accountName ∈ accounts then
    return writeAccounts config (accounts.erase accountName)
  else throw (.error ("Unknown account \"" ++ accountName ++ "\"."))

/-- A raw address that is not in the book is returned as it is. -/
def resolveAccountReference (ref : String) (accounts : Record String) :
    Except CliError String :=
  let value := trim ref
  match accounts.lookup value with
  | some key => do
    assertEd25519PublicKey isValid key
    return key
  | none => .ok value

def resolveAccount (ref : String) (accounts : Record String) : Except CliError String :=
  let value := trim ref
  match accounts.lookup value with
  | some key => do
    assertEd25519PublicKey isValid key
    return key
  | none =>
    if isValid value = true then .ok value
    else if G_ADDRESS_SHAPE value = true then
      .error (.error
        ("Invalid public key \"" ++ value ++ "\". Stellar StrKey checksum check failed."))
    else .error (.error ("Unknown account \"" ++ value ++
      "\". Add it with `bc-forge account add " ++ value ++ " <publicKey>`."))

inductive Op where
  | save (name publicKey : String)
  | remove (name : String)

def exec : Op → File → Except CliError File
  | .save name publicKey, file => do
    let (_, written) ← saveAccount isValid filePath name publicKey file
    return written
  | .remove name, file => removeAccount filePath name file

end Calls

/-- The key last saved under the name and not removed since, in a history with its end first. -/
def lastSaved : List Op → String → Option String
  | [], _ => none
  | .save saved publicKey :: done, name =>
    if name = trim saved then some (trim publicKey) else lastSaved done name
  | .remove removed :: done, name => if name = trim removed then none else lastSaved done name

/-- What the book promises of a reference: a valid key stands for itself, and any other name for
the key last saved under it, or for nothing. -/
def Faithful (isValid : KeyCheck) (done : List Op) (ref : String)
    (result : Except CliError String) : Prop :=
  if isValid (trim ref) = true then result = .ok (trim ref)
  else
    match lastSaved done (trim ref) with
    | some key => result = .ok key
    | none => ∃ e, result = .error e

/-- A valid key serves as the name of another one. -/
def Redirected (isValid : KeyCheck) (done : List Op) (ref : String) : Prop :=
  isValid (trim ref) = true ∧ ∃ key, lastSaved done (trim ref) = some key ∧ key ≠ trim ref

section Steps

variable {isValid : KeyCheck} {filePath name publicKey key ref : String} {file file' start : File}
  {accounts : Record String} {config : Record Json} {done : List Op} {op : Op}

theorem lookup_accountsOf_proto : (accountsOf config).lookup "__proto__" = none := by
  unfold accountsOf accountsFromUnknown
  split
  · exact lookup_collect_proto
  · exact AList.lookup_empty _

theorem lookup_stored_proto : (readStoredAccounts filePath file).lookup "__proto__" = none := by
  unfold readStoredAccounts
  split
  · exact lookup_accountsOf_proto
  · exact AList.lookup_empty _

/-- The accounts that were written are read again. -/
theorem lookup_stored_writeAccounts (h : accounts.lookup "__proto__" = none) (name : String) :
    (readStoredAccounts filePath (writeAccounts config accounts)).lookup name =
      accounts.lookup name := by
  by_cases hname : name = "__proto__"
  · rw [hname, lookup_stored_proto, h]
  · simp only [readStoredAccounts, writeAccounts, readConfigObject, accountsOf, property_own,
      lookup_record_toJson, AList.lookup_insert, Option.map_some, id_eq, accountsFromUnknown]
    rw [lookup_collect hname, lookup_record_toJson, Option.bind_map]
    cases accounts.lookup name <;> rfl

theorem saveAccount_ok
    (h : saveAccount isValid filePath name publicKey file = .ok (accounts, file')) :
    ACCOUNT_NAME_PATTERN (trim name) = true ∧ isValid (trim publicKey) = true ∧
      ∃ config, readConfigObject filePath file = .ok config ∧
        accounts = assign (accountsOf config) (trim name) (trim publicKey) ∧
        file' = writeAccounts config accounts := by
  simp only [saveAccount, bind_eq_ok, pure_eq_ok, Prod.mk.injEq] at h
  obtain ⟨_, hname, _, hkey, config, hconfig, rfl, rfl⟩ := h
  unfold assertAccountName at hname
  unfold assertEd25519PublicKey at hkey
  refine ⟨?_, ?_, config, hconfig, rfl, rfl⟩
  · by_contra hfalse
    rw [if_neg hfalse] at hname
    cases hname
  · by_contra hfalse
    rw [if_neg hfalse] at hkey
    cases hkey

theorem removeAccount_ok (h : removeAccount filePath name file = .ok file') :
    ∃ config, readConfigObject filePath file = .ok config ∧
      file' = writeAccounts config ((accountsOf config).erase (trim name)) := by
  simp only [removeAccount, bind_eq_ok] at h
  obtain ⟨config, hconfig, h⟩ := h
  split at h
  · exact ⟨config, hconfig, (pure_eq_ok.mp h).symm⟩
  · cases h

/-- The book holds what the completed calls say, and valid keys only. -/
structure Agrees (isValid : KeyCheck) (filePath : String) (file : File) (done : List Op) :
    Prop where
  stored : ∀ name, (readStoredAccounts filePath file).lookup name = lastSaved done name
  valid : ∀ name key, lastSaved done name = some key → isValid key = true

theorem Agrees.lookup_config (h : Agrees isValid filePath file done)
    (hconfig : readConfigObject filePath file = .ok config) (name : String) :
    (accountsOf config).lookup name = lastSaved done name := by
  rw [← h.stored, readStoredAccounts, hconfig]

theorem agrees_save (h : Agrees isValid filePath file done)
    (hconfig : readConfigObject filePath file = .ok config)
    (hname : ACCOUNT_NAME_PATTERN (trim name) = true) (hkey : isValid (trim publicKey) = true) :
    Agrees isValid filePath
      (writeAccounts config (assign (accountsOf config) (trim name) (trim publicKey)))
      (.save name publicKey :: done) where
  stored other := by
    have hne : trim name ≠ "__proto__" := by
      intro heq
      rw [heq] at hname
      exact absurd hname (by decide)
    have hproto : (assign (accountsOf config) (trim name) (trim publicKey)).lookup "__proto__" =
        none := by
      rw [lookup_assign hne, if_neg hne.symm, lookup_accountsOf_proto]
    rw [lookup_stored_writeAccounts hproto, lookup_assign hne, lastSaved, h.lookup_config hconfig]
  valid other key hlast := by
    rw [lastSaved] at hlast
    split at hlast
    · rw [← Option.some.inj hlast]
      exact hkey
    · exact h.valid other key hlast

theorem agrees_remove (h : Agrees isValid filePath file done)
    (hconfig : readConfigObject filePath file = .ok config) :
    Agrees isValid filePath (writeAccounts config ((accountsOf config).erase (trim name)))
      (.remove name :: done) where
  stored other := by
    have hlookup : ∀ other, ((accountsOf config).erase (trim name)).lookup other =
        if other = trim name then none else (accountsOf config).lookup other := by
      intro other
      split
      · rename_i heq
        rw [heq, AList.lookup_erase]
      · rename_i hne
        rw [AList.lookup_erase_ne hne]
    have hproto : ((accountsOf config).erase (trim name)).lookup "__proto__" = none := by
      rw [hlookup, lookup_accountsOf_proto, ite_self]
    rw [lookup_stored_writeAccounts hproto, hlookup, lastSaved, h.lookup_config hconfig]
  valid other key hlast := by
    rw [lastSaved] at hlast
    split at hlast
    · cases hlast
    · exact h.valid other key hlast

theorem agrees_exec (h : Agrees isValid filePath file done)
    (hexec : exec isValid filePath op file = .ok file') :
    Agrees isValid filePath file' (op :: done) := by
  cases op with
  | save saved publicKey =>
    simp only [exec, bind_eq_ok, pure_eq_ok] at hexec
    obtain ⟨⟨accounts, written⟩, hsave, rfl⟩ := hexec
    obtain ⟨hname, hkey, config, hconfig, rfl, rfl⟩ := saveAccount_ok hsave
    exact agrees_save h hconfig hname hkey
  | remove removed =>
    obtain ⟨config, hconfig, rfl⟩ := removeAccount_ok hexec
    exact agrees_remove h hconfig

theorem agrees_attempts (hstart : readStoredAccounts filePath start = ∅) (ops : List Op) :
    Agrees isValid filePath (attempts (exec isValid filePath) start ops).1
      (attempts (exec isValid filePath) start ops).2 := by
  refine attempts_induction ⟨fun name => ?_, fun name key h => ?_⟩
    (fun file done op file' h hexec => agrees_exec h hexec) ops
  · rw [hstart, AList.lookup_empty, lastSaved]
  · cases h

theorem resolveAccount_saved (h : accounts.lookup (trim ref) = some key)
    (hkey : isValid key = true) : resolveAccount isValid ref accounts = .ok key := by
  simp [resolveAccount, h, assertEd25519PublicKey, hkey, bind, Except.bind, pure, Except.pure]

theorem resolveAccount_valid (h : accounts.lookup (trim ref) = none)
    (hkey : isValid (trim ref) = true) : resolveAccount isValid ref accounts = .ok (trim ref) := by
  simp [resolveAccount, h, hkey]

theorem resolveAccount_unknown (h : accounts.lookup (trim ref) = none)
    (hkey : isValid (trim ref) = false) : ∃ e, resolveAccount isValid ref accounts = .error e := by
  simp only [resolveAccount, h, hkey, Bool.false_eq_true, if_false]
  split <;> exact ⟨_, rfl⟩

/-- Where the strict lookup succeeds, the lenient one agrees with it. -/
theorem resolveAccountReference_of_ok (h : resolveAccount isValid ref accounts = .ok key) :
    resolveAccountReference isValid ref accounts = .ok key := by
  unfold resolveAccount at h
  unfold resolveAccountReference
  cases hsaved : accounts.lookup (trim ref) with
  | some saved => simpa only [hsaved] using h
  | none =>
    simp only [hsaved] at h ⊢
    split at h
    · exact h
    · split at h <;> cases h

theorem faithful_iff (h : ∀ name, accounts.lookup name = lastSaved done name)
    (hvalid : ∀ name key, lastSaved done name = some key → isValid key = true) (ref : String) :
    Faithful isValid done ref (resolveAccount isValid ref accounts) ↔
      ¬ Redirected isValid done ref := by
  unfold Faithful Redirected
  cases hkey : isValid (trim ref) with
  | true =>
    rw [if_pos rfl]
    cases hsaved : lastSaved done (trim ref) with
    | none =>
      rw [resolveAccount_valid (by rw [h, hsaved]) hkey]
      simp
    | some key =>
      rw [resolveAccount_saved (by rw [h, hsaved]) (hvalid _ _ hsaved)]
      simp
  | false =>
    rw [if_neg (by decide)]
    refine iff_of_true ?_ (by simp)
    cases hsaved : lastSaved done (trim ref) with
    | none => exact resolveAccount_unknown (by rw [h, hsaved]) hkey
    | some key => exact resolveAccount_saved (by rw [h, hsaved]) (hvalid _ _ hsaved)

end Steps

/-- Whatever was saved and removed: a reference resolves as the book promises unless it is a valid
key that another key was saved under; so does a key that is given with nothing around it. -/
theorem resolveAccount_iff {isValid : KeyCheck} {filePath : String} {start : File}
    {project : Option Json} (hshape : ∀ key, isValid key = true → G_ADDRESS_SHAPE key = true)
    (hstart : readStoredAccounts filePath start = ∅) (hproject : accountsFromUnknown project = ∅)
    (ops : List Op) :
    let s := attempts (exec isValid filePath) start ops
    let accounts := loadAccounts filePath s.1 project
    (∀ ref, Faithful isValid s.2 ref (resolveAccount isValid ref accounts) ↔
      ¬ Redirected isValid s.2 ref) ∧
    ∀ key, isValid key = true → (resolveAccount isValid key accounts = .ok key ↔
      ∀ other, lastSaved s.2 key = some other → other = key) := by
  intro s accounts
  have hagrees : Agrees isValid filePath s.1 s.2 := agrees_attempts hstart ops
  have haccounts : accounts = readStoredAccounts filePath s.1 := by
    change loadAccounts filePath s.1 project = _
    rw [loadAccounts, hproject, spread, AList.empty_union]
  have hiff : ∀ ref, Faithful isValid s.2 ref (resolveAccount isValid ref accounts) ↔
      ¬ Redirected isValid s.2 ref := by
    rw [haccounts]
    exact faithful_iff hagrees.stored hagrees.valid
  refine ⟨hiff, fun key hkey => ?_⟩
  have htrim : trim key = key := trim_of_strKeyShape (by decide) (hshape key hkey)
  have hthis := hiff key
  simp only [Faithful, Redirected, htrim, hkey, if_true, true_and, not_exists, not_and,
    not_not] at hthis
  exact hthis

def firstKey : String := "GAAAAAAAAAAAAAAAAAAAAAAAAAAAAAAAAAAAAAAAAAAAAAAAAAAAAWHF"

def secondKey : String := "GAAQCAIBAEAQCAIBAEAQCAIBAEAQCAIBAEAQCAIBAEAQCAIBAEAQDZ7H"

/-- The check, as it answers for these two keys and for texts that are no keys. -/
def checkTwo : KeyCheck := fun key => key = firstKey || key = secondKey

/-- A name saved with a blank too many, and looked up without it. -/
theorem treasury_faithful :
    let s := attempts (exec checkTwo "config.json") .missing [.save "treasury " firstKey]
    Faithful checkTwo s.2 "treasury"
      (resolveAccount checkTwo "treasury" (loadAccounts "config.json" s.1 none)) := by
  have hshape : ∀ key, checkTwo key = true → G_ADDRESS_SHAPE key = true := by
    intro key hkey
    rw [checkTwo, Bool.or_eq_true, decide_eq_true_eq, decide_eq_true_eq] at hkey
    rcases hkey with rfl | rfl <;> decide +kernel
  refine ((resolveAccount_iff hshape rfl rfl [.save "treasury " firstKey]).1 "treasury").mpr ?_
  rintro ⟨hkey, -⟩
  exact absurd hkey (by decide +kernel)

/-- The letters of a key are those of a name, so that another key can be saved under it. -/
theorem key_redirected : checkTwo firstKey = true ∧ firstKey ≠ secondKey ∧
    resolveAccount checkTwo firstKey (loadAccounts "config.json"
      (attempts (exec checkTwo "config.json") .missing [.save firstKey secondKey]).1 none) =
        .ok secondKey := by
  decide +kernel

end BcForge.Cli.AddressBook
