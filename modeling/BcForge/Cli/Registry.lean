import BcForge.Cli.Files

/-! The deployment registry of the CLI: contract ids by network and alias in one JSON file. -/
namespace BcForge.Cli.Registry

open Js

inductive NetworkName where
  | testnet
  | futurenet
  | mainnet
  | localnet
deriving DecidableEq

def NetworkName.text : NetworkName → String
  | .testnet => "testnet"
  | .futurenet => "futurenet"
  | .mainnet => "mainnet"
  | .localnet => "local"

def NETWORK_CHOICES : List String := ["testnet", "futurenet", "mainnet", "public", "local"]

def NETWORK_ALIASES : Record NetworkName :=
  [("testnet", .testnet), ("futurenet", .futurenet), ("mainnet", .mainnet), ("pubnet", .mainnet),
   ("public", .mainnet), ("local", .localnet), ("standalone", .localnet)].foldl
    (fun o e => o.insert e.1 e.2) ∅

def unknownNetworkMessage (network : String) : String :=
  let label := if trim network = "" then "(empty)" else network
  "Unknown network \"" ++ label ++ "\". Supported networks: " ++
    ", ".intercalate NETWORK_CHOICES ++ "."

def unknownAliasMessage (aliasName network : String) : String :=
  "Unknown deployment alias \"" ++ aliasName ++ "\" for network \"" ++ network ++ "\". " ++
    "Register it with: bc-forge deployments register " ++ aliasName ++ " <id> --network " ++
      network

def errorMessage : CliError → String
  | .error message => message
  | .typeError message => message
  | .unknownNetwork network => unknownNetworkMessage network
  | .unknownAlias aliasName network => unknownAliasMessage aliasName network

/-- Of the ASCII letters only: no other letter has a lower case that occurs in a network name. -/
def toLowerCase (s : String) : String := String.ofList (s.toList.map Char.toLower)

/-- The spelling is looked up as a property, so two names that every object inherits pass as well.
What they stand for is not a string, and the error for it cannot be built either. -/
def parseNetworkName : Found String → Except CliError (Found NetworkName)
  | .inherited _ => .error (.typeError "network.trim is not a function")
  | .own value =>
    if trim value = "" then .error (.unknownNetwork value)
    else
      match property NETWORK_ALIASES (toLowerCase (trim value)) with
      | none => .error (.unknownNetwork value)
      | some mapped => .ok mapped

abbrev Network := Found NetworkName

def Network.key (network : Network) : String := network.text NetworkName.text

/-- The network as a value that can be parsed again. -/
def Network.value : Network → Found String
  | .own name => .own name.text
  | .inherited property => .inherited property

def isContractId (value : String) : Bool := hasStrKeyShape 'C' value

def isSecretKey (value : String) : Bool := hasStrKeyShape 'S' value

def ALIAS_REGEX (name : String) : Bool := isShortName name

abbrev NetworkAliasMap := Record (Record String)

def readDeploymentsDocument (filePath : String) (file : File) (strict : Bool) :
    Except CliError (Option (Record Json)) :=
  match file with
  | .missing => .ok none
  | .invalid message =>
    if strict = false then .ok none
    else .error (.error
      ("Deployments registry at " ++ filePath ++ " is not valid JSON: " ++ message))
  | .json (.object fields) => .ok (some (record fields))
  | .json _ =>
    if strict = false then .ok none
    else .error (.error ("Deployments registry at " ++ filePath ++ " must be a JSON object."))

def trimmedString : Json → Option String
  | .string value => if trim value = "" then none else some (trim value)
  | _ => none

/-- An alias is stored as its contract id, or as an object with one. -/
def contractIdFromAliasValue : Json → Option String
  | .object fields =>
    ((property (record fields) "contractId").bind Found.own?).bind trimmedString
  | value => trimmedString value

/-- The id of an alias, unless it is a secret. -/
def publicId (value : Json) : Option String :=
  match contractIdFromAliasValue value with
  | some contractId => if isSecretKey contractId = true then none else some contractId
  | none => none

def bucketFromAliases : Json → Option (Record String)
  | .object aliases => some (collect publicId (record aliases))
  | _ => none

def networksFromDocument (doc : Option (Record Json)) : NetworkAliasMap :=
  match doc.bind fun doc => (property doc "networks").bind Found.own? with
  | some (.object networks) => collect bucketFromAliases (record networks)
  | _ => ∅

def storeAlias (bucket : Record String) (aliasName : String) (contractId : Option String) :
    Record String :=
  match contractId with
  | none => bucket
  | some contractId =>
    if contractId = "" ∨ trim contractId = "" ∨ isSecretKey (trim contractId) = true then bucket
    else if ALIAS_REGEX aliasName = false then bucket
    else assign bucket aliasName (trim contractId)

/-- An inherited property has no enumerable ones of its own to copy. -/
def mergeNetworkAliases (networks : NetworkAliasMap) (network : Found String)
    (aliases : Record (Option String)) : Except CliError NetworkAliasMap := do
  let canonical ← parseNetworkName network
  let stored := ((property networks (Network.key canonical)).bind Found.own?).getD ∅
  let bucket := aliases.foldl storeAlias stored
  if bucket.keys = [] then return networks.erase (Network.key canonical)
  else return networks.insert (Network.key canonical) bucket

def assertRegisterInput (aliasName contractId : String) : Except CliError (String × String) :=
  let trimmedAlias := trim aliasName
  let trimmedId := trim contractId
  if ALIAS_REGEX trimmedAlias = false then
    .error (.error ("Invalid alias \"" ++ trimmedAlias ++
      "\". Use a short name such as \"token\" (letters, digits, _ or -)."))
  else if isContractId trimmedAlias = true then
    .error (.error ("Alias \"" ++ trimmedAlias ++
      "\" looks like a contract id. Choose a short name such as \"token\"."))
  else if isSecretKey trimmedId = true then
    .error (.error "Refusing to store a secret key in the deployments registry.")
  else if isContractId trimmedId = false then
    .error (.error ("Invalid contract id \"" ++ trimmedId ++
      "\". Expected a 56-character C... Soroban contract id."))
  else .ok (trimmedAlias, trimmedId)

structure RegisterAliasInput where
  aliasName : String
  contractId : String
  network : String

structure RegisterAliasResult where
  filePath : String
  network : Network
  aliasName : String
  contractId : String

def versionOf (doc : Record Json) : String :=
  match (property doc "version").bind Found.own? with
  | some (.string version) => version
  | _ => "1.0.0"

def networksToJson (networks : NetworkAliasMap) : Json :=
  .object (toJson (fun bucket => .object (toJson .string bucket)) networks)

def registerDeploymentAlias (filePath : String) (input : RegisterAliasInput) (file : File) :
    Except CliError (RegisterAliasResult × File) := do
  let network ← parseNetworkName (.own input.network)
  let (aliasName, contractId) ← assertRegisterInput input.aliasName input.contractId
  let existing := (← readDeploymentsDocument filePath file true).getD ∅
  let networks ← mergeNetworkAliases (networksFromDocument (some existing)) (Network.value network)
    ((∅ : Record (Option String)).insert aliasName (some contractId))
  let next := (existing.insert "version" (.string (versionOf existing))).insert "networks"
    (networksToJson networks)
  return (⟨filePath, network, aliasName, contractId⟩, .json (.object (toJson id next)))

/-- A truthy own property is an id; an inherited one is a function or an object, and just as
truthy. -/
def resolveContractReference (filePath value network : String) (file : File) :
    Except CliError (Found String) := do
  let trimmed := trim value
  if isContractId trimmed = true then return .own trimmed
  else
    let canonical ← parseNetworkName (.own network)
    let doc ← readDeploymentsDocument filePath file true
    let bucket := (property (networksFromDocument doc) (Network.key canonical)).bind Found.own?
    match bucket.bind (property · trimmed) with
    | none => throw (.unknownAlias trimmed (Network.key canonical))
    | some contractId =>
      if contractId = .own "" then throw (.unknownAlias trimmed (Network.key canonical))
      else return contractId

def exec (filePath : String) (input : RegisterAliasInput) (file : File) : Except CliError File := do
  let (_, written) ← registerDeploymentAlias filePath input file
  return written

/-- What the map holds, without the order it holds it in. -/
def contents (networks : NetworkAliasMap) (key : String) : Option (String → Option String) :=
  (networks.lookup key).map fun bucket aliasName => bucket.lookup aliasName

/-- What a document that was read can give, and what can be written to be read again. -/
structure Clean (networks : NetworkAliasMap) : Prop where
  proto : networks.lookup "__proto__" = none
  aliases : ∀ key bucket, networks.lookup key = some bucket → bucket.lookup "__proto__" = none
  ids : ∀ key bucket aliasName contractId, networks.lookup key = some bucket →
    bucket.lookup aliasName = some contractId →
      trim contractId = contractId ∧ contractId ≠ "" ∧ isSecretKey contractId = false

section Documents

variable {networks : NetworkAliasMap} {doc next : Record Json} {key aliasName contractId : String}
  {value : Json}

theorem trimmedString_eq_some (h : trimmedString value = some contractId) :
    trim contractId = contractId ∧ contractId ≠ "" := by
  cases value with
  | string text =>
    rw [trimmedString] at h
    split at h
    · cases h
    · rename_i hne
      obtain rfl := Option.some.inj h
      exact ⟨trim_trim text, hne⟩
  | _ => cases h

theorem contractIdFromAliasValue_eq_some (h : contractIdFromAliasValue value = some contractId) :
    trim contractId = contractId ∧ contractId ≠ "" := by
  unfold contractIdFromAliasValue at h
  split at h
  · obtain ⟨_, -, h⟩ := Option.bind_eq_some_iff.mp h
    exact trimmedString_eq_some h
  · exact trimmedString_eq_some h

theorem publicId_eq_some (h : publicId value = some contractId) :
    trim contractId = contractId ∧ contractId ≠ "" ∧ isSecretKey contractId = false := by
  unfold publicId at h
  split at h
  · rename_i id hid
    split at h
    · cases h
    · rename_i hsecret
      obtain rfl := Option.some.inj h
      obtain ⟨htrim, hempty⟩ := contractIdFromAliasValue_eq_some hid
      exact ⟨htrim, hempty, by simpa using hsecret⟩
  · cases h

theorem publicId_string (htrim : trim contractId = contractId) (hempty : contractId ≠ "")
    (hsecret : isSecretKey contractId = false) :
    publicId (.string contractId) = some contractId := by
  simp [publicId, contractIdFromAliasValue, trimmedString, htrim, hempty, hsecret]

theorem clean_empty : Clean ∅ where
  proto := AList.lookup_empty _
  aliases key bucket h := by cases h
  ids key bucket aliasName contractId h := by cases h

theorem clean_networksFromDocument (doc : Option (Record Json)) :
    Clean (networksFromDocument doc) := by
  unfold networksFromDocument
  split
  · rename_i fields heq
    have hbucket : ∀ key bucket,
        (collect bucketFromAliases (record fields)).lookup key = some bucket →
          ∃ aliases, collect publicId (record aliases) = bucket := by
      intro key bucket h
      have hne : key ≠ "__proto__" := by
        rintro rfl
        rw [lookup_collect_proto] at h
        cases h
      rw [lookup_collect hne] at h
      obtain ⟨value, -, h⟩ := Option.bind_eq_some_iff.mp h
      cases value with
      | object aliases => exact ⟨aliases, Option.some.inj h⟩
      | _ => cases h
    refine ⟨lookup_collect_proto, fun key bucket h => ?_, fun key bucket name id h hid => ?_⟩
    · obtain ⟨aliases, rfl⟩ := hbucket key bucket h
      exact lookup_collect_proto
    · obtain ⟨aliases, rfl⟩ := hbucket key bucket h
      have hne : name ≠ "__proto__" := by
        rintro rfl
        rw [lookup_collect_proto] at hid
        cases hid
      rw [lookup_collect hne] at hid
      obtain ⟨value, -, hid⟩ := Option.bind_eq_some_iff.mp hid
      exact publicId_eq_some hid
  · exact clean_empty

/-- What was written is read again: first the aliases of one network, then the networks. -/
theorem lookup_bucket_written (h : Clean networks) {bucket : Record String}
    (hbucket : networks.lookup key = some bucket) (aliasName : String) :
    (collect publicId (record (toJson .string bucket))).lookup aliasName =
      bucket.lookup aliasName := by
  by_cases hname : aliasName = "__proto__"
  · rw [hname, lookup_collect_proto, h.aliases key bucket hbucket]
  · rw [lookup_collect hname, lookup_record_toJson, Option.bind_map]
    cases hid : bucket.lookup aliasName with
    | none => rfl
    | some contractId =>
      obtain ⟨htrim, hempty, hsecret⟩ := h.ids key bucket aliasName contractId hbucket hid
      rw [Option.bind_some, Function.comp_apply, publicId_string htrim hempty hsecret]

theorem contents_written (h : Clean networks)
    (hnext : next.lookup "networks" = some (networksToJson networks)) :
    contents (networksFromDocument (some (record (toJson id next)))) = contents networks := by
  have hdoc : networksFromDocument (some (record (toJson id next))) = collect bucketFromAliases
      (record (toJson (fun bucket => .object (toJson .string bucket)) networks)) := by
    simp only [networksFromDocument, Option.bind_some, property_own, lookup_record_toJson, hnext,
      Option.map_some, id_eq, networksToJson]
  funext key
  rw [hdoc, contents, contents]
  by_cases hkey : key = "__proto__"
  · rw [hkey, lookup_collect_proto, h.proto]
  · rw [lookup_collect hkey, lookup_record_toJson, Option.bind_map]
    cases hbucket : networks.lookup key with
    | none => rfl
    | some bucket =>
      refine congrArg some (funext fun aliasName => ?_)
      exact lookup_bucket_written h hbucket aliasName

end Documents

section Calls

variable {networks : NetworkAliasMap} {doc : Option (Record Json)} {name : NetworkName}
  {network : Network} {filePath aliasName contractId value : String} {file file' : File}
  {input : RegisterAliasInput} {result : RegisterAliasResult} {done : List RegisterAliasInput}

theorem parseNetworkName_text (name : NetworkName) :
    parseNetworkName (.own name.text) = .ok (.own name) := by
  cases name <;> decide +kernel

theorem key_eq_text (h : network.key = name.text) : network = .own name := by
  cases network with
  | own other => cases other <;> cases name <;> first | rfl | exact absurd h (by decide)
  | inherited property =>
    have hchars := congrArg String.toList h
    simp only [Network.key, Found.text] at hchars
    split at hchars <;> cases name <;> simp [NetworkName.text] at hchars

/-- The message always includes the alias. -/
theorem aliasName_infix_message (aliasName network : String) :
    aliasName.toList <:+: (errorMessage (.unknownAlias aliasName network)).toList := by
  unfold errorMessage unknownAliasMessage
  simp only [String.toList_append, List.append_assoc]
  exact List.infix_append' _ _ _

theorem text_ne_proto (name : NetworkName) : name.text ≠ "__proto__" := by
  cases name <;> decide

/-- The merge parses the network once more, and what is inherited is no text. -/
theorem mergeNetworkAliases_inherited {property : String} {aliases : Record (Option String)} :
    mergeNetworkAliases networks (Network.value (.inherited property)) aliases =
      .error (.typeError "network.trim is not a function") := rfl

/-- One alias is stored under a network that parses as its own text. -/
theorem mergeNetworkAliases_ok (hname : ALIAS_REGEX aliasName = true)
    (htrim : trim contractId = contractId) (hempty : contractId ≠ "")
    (hsecret : isSecretKey contractId = false) :
    mergeNetworkAliases networks (Network.value (.own name))
        ((∅ : Record (Option String)).insert aliasName (some contractId)) =
      .ok (networks.insert name.text
        (((networks.lookup name.text).getD ∅).insert aliasName contractId)) := by
  have hproto : aliasName ≠ "__proto__" := by
    rintro rfl
    exact absurd hname (by decide)
  have hstored : ∀ stored : Record String,
      ((∅ : Record (Option String)).insert aliasName (some contractId)).foldl storeAlias stored =
        stored.insert aliasName contractId := by
    intro stored
    change storeAlias stored aliasName (some contractId) = _
    simp [storeAlias, htrim, hempty, hsecret, hname, assign, hproto]
  have hkeys : ∀ stored : Record String, (stored.insert aliasName contractId).keys ≠ [] := by
    intro stored
    rw [AList.keys_insert]
    exact List.cons_ne_nil _ _
  simp only [mergeNetworkAliases, Network.value, parseNetworkName_text, bind, Except.bind,
    property_own, hstored, hkeys, if_false]
  rfl

theorem assertRegisterInput_ok {out : String × String}
    (h : assertRegisterInput aliasName contractId = .ok out) :
    out = (trim aliasName, trim contractId) ∧ ALIAS_REGEX (trim aliasName) = true ∧
      isSecretKey (trim contractId) = false ∧ isContractId (trim contractId) = true := by
  simp only [assertRegisterInput] at h
  split at h
  · cases h
  split at h
  · cases h
  split at h
  · cases h
  split at h
  · cases h
  rename_i hname _ hsecret hid
  exact ⟨(Except.ok.inj h).symm, by simpa using hname, by simpa using hsecret, by simpa using hid⟩

theorem networksFromDocument_getD (doc : Option (Record Json)) :
    networksFromDocument (some (doc.getD ∅)) = networksFromDocument doc := by
  cases doc with
  | none => rfl
  | some doc => rfl

theorem clean_insert (h : Clean networks) {bucket : Record String}
    (hproto : bucket.lookup "__proto__" = none)
    (hids : ∀ aliasName contractId, bucket.lookup aliasName = some contractId →
      trim contractId = contractId ∧ contractId ≠ "" ∧ isSecretKey contractId = false)
    (name : NetworkName) : Clean (networks.insert name.text bucket) where
  proto := by rw [lookup_insert_if, if_neg (text_ne_proto name).symm, h.proto]
  aliases key other hother := by
    rw [lookup_insert_if] at hother
    split at hother
    · rw [← Option.some.inj hother, hproto]
    · exact h.aliases key other hother
  ids key other aliasName contractId hother hid := by
    rw [lookup_insert_if] at hother
    split at hother
    · rw [← Option.some.inj hother] at hid
      exact hids aliasName contractId hid
    · exact h.ids key other aliasName contractId hother hid

/-- The bucket of a network with one more alias in it. -/
theorem clean_stored (h : Clean networks) (hname : ALIAS_REGEX aliasName = true)
    (htrim : trim contractId = contractId) (hempty : contractId ≠ "")
    (hsecret : isSecretKey contractId = false) (name : NetworkName) :
    Clean (networks.insert name.text
      (((networks.lookup name.text).getD ∅).insert aliasName contractId)) := by
  have hproto : "__proto__" ≠ aliasName := by
    rintro rfl
    exact absurd hname (by decide)
  refine clean_insert h ?_ ?_ name
  · rw [lookup_insert_if, if_neg hproto]
    cases hbucket : networks.lookup name.text with
    | none => exact AList.lookup_empty _
    | some bucket => exact h.aliases _ _ hbucket
  · intro other id hid
    rw [lookup_insert_if] at hid
    split at hid
    · rw [← Option.some.inj hid]
      exact ⟨htrim, hempty, hsecret⟩
    · cases hbucket : networks.lookup name.text with
      | none =>
        rw [hbucket, Option.getD_none, AList.lookup_empty] at hid
        cases hid
      | some bucket =>
        rw [hbucket, Option.getD_some] at hid
        exact h.ids _ _ _ _ hbucket hid

theorem contents_insert (networks : NetworkAliasMap) (key aliasName contractId : String) :
    contents (networks.insert key
        (((networks.lookup key).getD ∅).insert aliasName contractId)) =
      Function.update (contents networks) key (some (Function.update
        ((contents networks key).getD fun _ => none) aliasName (some contractId))) := by
  funext other
  rw [Function.update_apply, contents, lookup_insert_if]
  split
  · have hold : ∀ name, ((networks.lookup key).getD ∅).lookup name =
        ((contents networks key).getD fun _ => none) name := by
      intro name
      rw [contents]
      cases networks.lookup key with
      | none => exact AList.lookup_empty _
      | some bucket => rfl
    refine congrArg some (funext fun name => ?_)
    rw [Function.update_apply, ← hold]
    exact lookup_insert_if
  · rfl

/-- A completed registration reads the file, and changes in it the one alias of the one network. -/
theorem registerDeploymentAlias_ok
    (h : registerDeploymentAlias filePath input file = .ok (result, file')) :
    ∃ name doc doc', parseNetworkName (.own input.network) = .ok (.own name) ∧
      readDeploymentsDocument filePath file true = .ok doc ∧
      readDeploymentsDocument filePath file' true = .ok doc' ∧
      contents (networksFromDocument doc') = Function.update (contents (networksFromDocument doc))
        name.text (some (Function.update
          ((contents (networksFromDocument doc) name.text).getD fun _ => none)
          (trim input.aliasName) (some (trim input.contractId)))) := by
  simp only [registerDeploymentAlias, bind_eq_ok, pure_eq_ok, Prod.mk.injEq] at h
  obtain ⟨network, hnetwork, out, hinput, doc, hread, networks, hmerge, -, rfl⟩ := h
  obtain ⟨rfl, hname, hsecret, hid⟩ := assertRegisterInput_ok hinput
  have hempty : trim input.contractId ≠ "" := by
    intro heq
    rw [heq] at hid
    exact absurd hid (by decide)
  cases network with
  | inherited property =>
    rw [mergeNetworkAliases_inherited] at hmerge
    cases hmerge
  | own name =>
    rw [networksFromDocument_getD,
      mergeNetworkAliases_ok hname (trim_trim _) hempty hsecret] at hmerge
    obtain rfl := Except.ok.inj hmerge
    have hclean := clean_stored (clean_networksFromDocument doc) hname (trim_trim _) hempty hsecret
    refine ⟨name, doc, _, hnetwork, hread, rfl, ?_⟩
    rw [contents_written (hclean name) (AList.lookup_insert _), contents_insert]

end Calls

end BcForge.Cli.Registry
