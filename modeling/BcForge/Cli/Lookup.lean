import BcForge.Cli.Registry

/-! What a reference resolves to after any registrations in a deployment registry. -/
namespace BcForge.Cli.Registry

open Js

/-- The id last registered for the network and the alias, in a history with its end first. -/
def lastRegistered : List RegisterAliasInput → Network → String → Option String
  | [], _, _ => none
  | input :: done, network, aliasName =>
    if parseNetworkName (.own input.network) = .ok network ∧ aliasName = trim input.aliasName then
      some (trim input.contractId)
    else lastRegistered done network aliasName

/-- What a reference is meant to resolve to. -/
def expected (done : List RegisterAliasInput) (network : Network) (value : String) :
    Except CliError (Found String) :=
  if isContractId (trim value) = true then .ok (.own (trim value))
  else
    match lastRegistered done network (trim value) with
    | some contractId => .ok (.own contractId)
    | none => .error (.unknownAlias (trim value) network.key)

def Registered (done : List RegisterAliasInput) (network : Network) : Prop :=
  ∃ input ∈ done, parseNetworkName (.own input.network) = .ok network

/-- The network has an object of aliases, and the reference names what that inherits. -/
def Inherits (done : List RegisterAliasInput) (network : Network) (value : String) : Prop :=
  Registered done network ∧ lastRegistered done network (trim value) = none ∧
    trim value ∈ objectPrototype

section Runs

variable {name : NetworkName} {network : Network} {filePath value spelling : String}
  {file file' : File} {input : RegisterAliasInput} {done : List RegisterAliasInput}
  {doc : Option (Record Json)}

/-- The book of a network: its aliases, once there is one. -/
structure Booked (done : List RegisterAliasInput) (network : Network)
    (book : Option (String → Option String)) : Prop where
  registered : book.isSome = true ↔ Registered done network
  aliases : ∀ aliasName, book.bind (· aliasName) = lastRegistered done network aliasName

/-- The file can be read, and holds what the completed registrations say. -/
def Agrees (filePath : String) (file : File) (done : List RegisterAliasInput) : Prop :=
  ∃ doc, readDeploymentsDocument filePath file true = .ok doc ∧
    ∀ network : Network, Booked done network (contents (networksFromDocument doc) network.key)

theorem booked_missing (network : Network) : Booked [] network none where
  registered := by simp [Registered]
  aliases aliasName := rfl

theorem registered_cons : Registered (input :: done) network ↔
    parseNetworkName (.own input.network) = .ok network ∨ Registered done network := by
  simp [Registered]

theorem lastRegistered_of_eq (h : parseNetworkName (.own input.network) = .ok network)
    (aliasName : String) : lastRegistered (input :: done) network aliasName =
      if aliasName = trim input.aliasName then some (trim input.contractId)
      else lastRegistered done network aliasName := by
  simp only [lastRegistered, h, true_and]

theorem lastRegistered_of_ne (h : parseNetworkName (.own input.network) ≠ .ok network)
    (aliasName : String) : lastRegistered (input :: done) network aliasName =
      lastRegistered done network aliasName := by
  simp only [lastRegistered, h, false_and, if_false]

variable {book : Option (String → Option String)}

theorem booked_same (h : Booked done network book)
    (hinput : parseNetworkName (.own input.network) = .ok network) :
    Booked (input :: done) network (some (Function.update (book.getD fun _ => none)
      (trim input.aliasName) (some (trim input.contractId)))) where
  registered := iff_of_true rfl (registered_cons.mpr (Or.inl hinput))
  aliases aliasName := by
    rw [lastRegistered_of_eq hinput, ← h.aliases, Option.bind_some, Function.update_apply]
    split
    · rfl
    · cases book <;> rfl

theorem booked_other (h : Booked done network book)
    (hinput : parseNetworkName (.own input.network) ≠ .ok network) :
    Booked (input :: done) network book where
  registered := by rw [h.registered, registered_cons, or_iff_right hinput]
  aliases aliasName := by rw [lastRegistered_of_ne hinput, h.aliases]

/-- What a completed call makes of a file that was read: one alias of one network is new. -/
theorem exec_ok (h : exec filePath input file = .ok file')
    (hread : readDeploymentsDocument filePath file true = .ok doc) :
    ∃ name doc', parseNetworkName (.own input.network) = .ok (.own name) ∧
      readDeploymentsDocument filePath file' true = .ok doc' ∧
      contents (networksFromDocument doc') = Function.update (contents (networksFromDocument doc))
        name.text (some (Function.update
          ((contents (networksFromDocument doc) name.text).getD fun _ => none)
          (trim input.aliasName) (some (trim input.contractId)))) := by
  simp only [exec, bind_eq_ok, pure_eq_ok] at h
  obtain ⟨⟨result, written⟩, hregister, rfl⟩ := h
  obtain ⟨name, doc₀, doc', hinput, hread₀, hread', hcontents⟩ :=
    registerDeploymentAlias_ok hregister
  obtain rfl : doc = doc₀ := Except.ok.inj (hread.symm.trans hread₀)
  exact ⟨name, doc', hinput, hread', hcontents⟩

theorem agrees_exec (h : Agrees filePath file done) (hexec : exec filePath input file = .ok file') :
    Agrees filePath file' (input :: done) := by
  obtain ⟨doc, hread, hbooked⟩ := h
  obtain ⟨name, doc', hinput, hread', hcontents⟩ := exec_ok hexec hread
  refine ⟨doc', hread', fun network => ?_⟩
  rw [hcontents, Function.update_apply]
  split
  · rename_i hkey
    obtain rfl := key_eq_text hkey
    exact booked_same (hbooked _) hinput
  · rename_i hkey
    refine booked_other (hbooked network) fun hparse => hkey ?_
    rw [← Except.ok.inj (hinput.symm.trans hparse)]
    rfl

theorem agrees_attempts (filePath : String) (inputs : List RegisterAliasInput) :
    Agrees filePath (attempts (exec filePath) .missing inputs).1
      (attempts (exec filePath) .missing inputs).2 :=
  attempts_induction ⟨none, rfl, booked_missing⟩
    (fun _ _ _ _ h hexec => agrees_exec h hexec) inputs

/-- Where the aliases of the network do not have the name, all objects have it or none. -/
def lookupAlias (book : Option (String → Option String)) (network : Network) (value : String) :
    Except CliError (Found String) :=
  match book with
  | none => .error (.unknownAlias value network.key)
  | some aliases =>
    match aliases value with
    | some contractId => .ok (.own contractId)
    | none =>
      if value ∈ objectPrototype then .ok (.inherited value)
      else .error (.unknownAlias value network.key)

theorem resolveContractReference_eq (hread : readDeploymentsDocument filePath file true = .ok doc)
    (hspelling : parseNetworkName (.own spelling) = .ok network)
    (hvalue : isContractId (trim value) = false) :
    resolveContractReference filePath value spelling file =
      lookupAlias (contents (networksFromDocument doc) network.key) network (trim value) := by
  have hclean := clean_networksFromDocument doc
  simp only [resolveContractReference, hvalue, Bool.false_eq_true, if_false, hspelling, hread, bind,
    Except.bind, property_own, lookupAlias, contents]
  cases hbucket : (networksFromDocument doc).lookup network.key with
  | none => rfl
  | some bucket =>
    simp only [Option.bind_some, Option.map_some]
    cases hid : bucket.lookup (trim value) with
    | some contractId =>
      have hempty := (hclean.ids _ _ _ _ hbucket hid).2.1
      rw [property_of_lookup hid]
      simp only [Found.own.injEq, hempty, if_false]
      rfl
    | none =>
      rw [property_of_lookup_none hid]
      by_cases hproto : trim value ∈ objectPrototype
      · simp only [hproto, if_true, reduceCtorEq, if_false]
        rfl
      · simp only [hproto, if_false]
        rfl

theorem isContractId_of_mem (h : value ∈ objectPrototype) : isContractId value = false := by
  have hall : ∀ name ∈ objectPrototype, isContractId name = false := by decide +kernel
  exact hall value h

theorem lookupAlias_iff (h : Booked done network book)
    (hvalue : isContractId (trim value) = false) :
    lookupAlias book network (trim value) = expected done network value ↔
      ¬ Inherits done network value := by
  simp only [lookupAlias, expected, Inherits, hvalue, Bool.false_eq_true, if_false]
  rw [← h.registered, ← h.aliases]
  cases book with
  | none => simp
  | some aliases =>
    cases hid : aliases (trim value) with
    | some contractId => simp [hid]
    | none =>
      by_cases hproto : trim value ∈ objectPrototype <;> simp [hid, hproto]

/-- Another network keeps its aliases. -/
theorem resolveContractReference_exec (h : exec filePath input file = .ok file')
    (hread : readDeploymentsDocument filePath file true = .ok doc)
    (hspelling : parseNetworkName (.own spelling) = .ok network)
    (hother : parseNetworkName (.own input.network) ≠ .ok network) (value : String) :
    resolveContractReference filePath value spelling file' =
      resolveContractReference filePath value spelling file := by
  obtain ⟨name, doc', hinput, hread', hcontents⟩ := exec_ok h hread
  cases hvalue : isContractId (trim value) with
  | true => simp [resolveContractReference, hvalue]
  | false =>
    have hkey : network.key ≠ name.text := by
      intro hkey
      rw [key_eq_text hkey] at hother
      exact hother hinput
    rw [resolveContractReference_eq hread hspelling hvalue,
      resolveContractReference_eq hread' hspelling hvalue, hcontents,
      Function.update_of_ne hkey]

end Runs

/-- After any registrations in a file that was missing: a reference resolves as it is meant to
unless it names what the aliases of its network inherit, and registering for another network
changes nothing. -/
theorem resolveContractReference_iff {filePath spelling : String} {network : Network}
    (hspelling : parseNetworkName (.own spelling) = .ok network)
    (inputs : List RegisterAliasInput) :
    let s := attempts (exec filePath) .missing inputs
    (∀ value, resolveContractReference filePath value spelling s.1 = expected s.2 network value ↔
      ¬ Inherits s.2 network value) ∧
    ∀ input file, exec filePath input s.1 = .ok file →
      parseNetworkName (.own input.network) ≠ .ok network → ∀ value,
        resolveContractReference filePath value spelling file =
          resolveContractReference filePath value spelling s.1 := by
  intro s
  obtain ⟨doc, hread, hbooked⟩ : Agrees filePath s.1 s.2 := agrees_attempts filePath inputs
  constructor
  · intro value
    cases hvalue : isContractId (trim value) with
    | true =>
      refine iff_of_true ?_ fun h => ?_
      · simp [resolveContractReference, expected, hvalue, pure, Except.pure]
      · rw [isContractId_of_mem h.2.2] at hvalue
        cases hvalue
    | false =>
      rw [resolveContractReference_eq hread hspelling hvalue]
      exact lookupAlias_iff (hbooked network) hvalue
  · intro input file hexec hother value
    exact resolveContractReference_exec hexec hread hspelling hother value

def tokenId : String := "CAAAAAAAAAAAAAAAAAAAAAAAAAAAAAAAAAAAAAAAAAAAAAAAAAAABSC4"

/-- A registry with one alias for one network. -/
def oneAlias : File × List RegisterAliasInput :=
  attempts (exec "deployments.json") .missing [⟨" token", tokenId, "public"⟩]

theorem oneAlias_resolves :
    resolveContractReference "deployments.json" "token" "MainNet" oneAlias.1 =
      expected oneAlias.2 (.own .mainnet) "token" := by
  have hspelling : parseNetworkName (.own "MainNet") = .ok (.own .mainnet) := by decide +kernel
  refine ((resolveContractReference_iff hspelling [⟨" token", tokenId, "public"⟩]).1 "token").mpr ?_
  rintro ⟨-, -, hproto⟩
  exact absurd hproto (by decide +kernel)

/-- Nobody registered this alias, and yet there is no error. -/
theorem constructor_resolves : isContractId "constructor" = false ∧
    lastRegistered oneAlias.2 (.own .mainnet) "constructor" = none ∧
    resolveContractReference "deployments.json" "constructor" "mainnet" oneAlias.1 =
      .ok (.inherited "constructor") := by
  decide +kernel

end BcForge.Cli.Registry
