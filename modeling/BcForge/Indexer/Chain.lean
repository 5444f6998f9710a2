import BcForge.Indexer.Faithful
import BcForge.Token.Books
import BcForge.Token.Emitting

/-! From the token to the index: what the token publishes, as the RPC hands it over and the indexer
reads it. -/
namespace BcForge.Indexer

open Soroban

/-- The cases of the switch. -/
def Topic.ofSymbol : String → Topic
  | "mint" => .mint
  | "burn" => .burn
  | "xfer" => .xfer
  | "xfer_frm" => .xferFrm
  | "deposit" => .deposit
  | "wrap" => .wrap
  | "unwrap" => .unwrap
  | "v_rel" => .vRel
  | "pyo_succ" => .pyoSucc
  | symbol => .other symbol

variable (name : Address → String)

/-- `scValToNative`, with the text of an address. What no case of the switch reads is left blank. -/
def nativeOf : Sdk.ScVal → Native
  | .address a => .text (name a)
  | .string s | .symbol s => .text s
  | .i128 n => .int n
  | .u32 n | .u64 n => .int n
  | _ => .text ""

/-- A published event in the answer of the RPC. -/
def responseOf (p : Sdk.Published) (ledger : ℕ) (txHash : String) (closedAt : Option ℤ) :
    EventResponse where
  topic :=
    match p.topics with
    | .symbol s :: _ => some (Topic.ofSymbol s)
    | _ => none
  value :=
    match p.data with
    | .vec vs => vs.map (nativeOf name)
    | _ => []
  ledger := ledger
  txHash := txHash
  ledgerClosedAt := closedAt

/-- The event as the index knows it, if it is one of those the index keeps. -/
def named : Sdk.TokenEvent → Option TokenEvent
  | .mint admin dst amount newBalance newSupply =>
    some (.mint (name admin) (name dst) amount newBalance newSupply)
  | .burn src amount newBalance newSupply => some (.burn (name src) amount newBalance newSupply)
  | .transfer src dst amount => some (.transfer (name src) (name dst) amount)
  | .transferFrom spender src dst amount remainingAllowance =>
    some (.transferFrom (name spender) (name src) (name dst) amount remainingAllowance)
  | _ => none

/-- The switch takes up exactly the events the index keeps, with their own fields. -/
theorem decode_published (e : Sdk.TokenEvent) (ledger : ℕ) (txHash : String) (closedAt : Option ℤ) :
    decodeEvent (responseOf name e.emit ledger txHash closedAt) =
      .ok ((named name e).map fun e =>
        ⟨e.model, e.rowData, some (e.ledgerEvent, e.newSupply)⟩) := by
  cases e <;> rfl

/-- What events say about the supply: the one each of them names is the one after it. -/
def SupplyTold : ℤ → List TokenEvent → ℤ → Prop
  | supply, [], supply' => supply' = supply
  | supply, e :: es, supply' =>
    (∀ x ∈ e.newSupply, x = supply + supplyDeltaFor e.ledgerEvent) ∧
      SupplyTold (supply + supplyDeltaFor e.ledgerEvent) es supply'

theorem supplyTold_append {es es' : List TokenEvent} {x y z : ℤ} (h : SupplyTold x es y)
    (h' : SupplyTold y es' z) : SupplyTold x (es ++ es') z := by
  induction es generalizing x with
  | nil =>
    obtain rfl : y = x := h
    exact h'
  | cons e es ih => exact ⟨h.1, ih h.2⟩

/-- The balance changes that events report. -/
def deltasOf (es : List TokenEvent) : List Delta := es.flatMap fun e => deltasFor e.ledgerEvent

open BcForgeToken (Store)

/-- The events account for the difference between two stores. -/
structure Tells (s : Store) (es : List Sdk.TokenEvent) (t : Store) : Prop where
  balance : ∀ a, t.balance a = s.balance a + net (deltasOf (es.filterMap (named name))) (name a)
  supply : SupplyTold s.supply (es.filterMap (named name)) t.supply

variable {name} {s t : Store} {es es' : List Sdk.TokenEvent}

theorem tells_nil (hb : t.balance = s.balance) (hs : t.supply = s.supply) : Tells name s [] t := by
  refine ⟨fun a => ?_, hs⟩
  rw [hb]
  simp [deltasOf]

theorem Tells.append {r : Store} (h : Tells name s es t) (h' : Tells name t es' r) :
    Tells name s (es ++ es') r := by
  refine ⟨fun a => ?_, ?_⟩
  · rw [h'.balance, h.balance, List.filterMap_append]
    simp only [deltasOf, List.flatMap_append, net_append]
    omega
  · rw [List.filterMap_append]
    exact supplyTold_append h.supply h'.supply

/-- Events that are none of the index's say nothing. -/
theorem tells_unnamed (hes : ∀ e ∈ es, named name e = none) (hb : t.balance = s.balance)
    (hs : t.supply = s.supply) : Tells name s es t := by
  have hnil : es.filterMap (named name) = [] := List.filterMap_eq_nil_iff.mpr hes
  have h : Tells name s [] t := tells_nil hb hs
  refine ⟨?_, ?_⟩
  · rw [hnil]
    exact h.balance
  · rw [hnil]
    exact h.supply

variable {src dst : Address} {x : ℤ}

theorem net_moved (hname : Function.Injective name) (f : Address → ℤ) (a : Address) :
    moved f src dst x a =
      f a + net [⟨name src, -x⟩, ⟨name dst, x⟩] (name a) := by
  simp only [net_cons, net_nil, hname.eq_iff, moved]
  by_cases heq : src = dst
  · subst heq
    by_cases ha : src = a <;> simp [ha]
  · by_cases hd : dst = a
    · subst hd
      simp [heq]
    · by_cases hs : src = a
      · subst hs
        simp [heq, hd]
        omega
      · simp [heq, Function.update_of_ne (Ne.symm hd), Function.update_of_ne (Ne.symm hs), hd, hs]

theorem net_updated (hname : Function.Injective name) (f : Address → ℤ) (a : Address) :
    Function.update f src (f src + x) a = f a + net [⟨name src, x⟩] (name a) := by
  simp only [net_cons, net_nil, hname.eq_iff]
  by_cases ha : src = a
  · subst ha
    simp
  · simp [Function.update_of_ne (Ne.symm ha), ha]

/-- What a call has published accounts for what it did. -/
def Reports (name : Address → String) (s s' : Logged Store Sdk.TokenEvent) : Prop :=
  ∃ es, s'.events = s.events ++ es ∧ Tells name s.store es s'.store

instance : IsPreorder (Logged Store Sdk.TokenEvent) (Reports name) where
  refl _ := ⟨[], by simp, tells_nil rfl rfl⟩
  trans _ _ _ h h' := by
    obtain ⟨es, he, ht⟩ := h
    obtain ⟨es', he', ht'⟩ := h'
    exact ⟨es ++ es', by rw [he', he, List.append_assoc], ht.append ht'⟩

open BcForgeToken Call

variable {α : Type} {ws : List Part}

theorem sameBooks_of_writes {y : TokenCall α} {env : Env} {a : α} (h : Writes parts ws y)
    (hb : .balance ∉ ws) (hs : .supply ∉ ws) (hr : Runs y env s a t) :
    t.balance = s.balance ∧ t.supply = s.supply :=
  ⟨h env s a t hr _ hb, h env s a t hr _ hs⟩

theorem reports_silently {y : TokenCall α} (h : Writes parts ws y) (hb : .balance ∉ ws)
    (hs : .supply ∉ ws) : Respects (Reports name) (silently y) := by
  intro env s a s' hr
  obtain ⟨t, hy, rfl⟩ := runs_silently.mp hr
  obtain ⟨hbal, hsup⟩ := sameBooks_of_writes h hb hs hy
  exact ⟨[], by simp, tells_nil hbal hsup⟩

/-- A call followed by the events that account for it. -/
theorem reports_told {y : TokenCall Unit} {f : Store → List Sdk.TokenEvent}
    (h : ∀ env s u t, Runs y env s u t → Tells name s (f t) t) :
    Respects (Reports name) (silently y >>= fun _ => emits f) := by
  intro env s a s' hr
  obtain ⟨_, t, hy, rfl⟩ := runs_silently_emits.mp hr
  exact ⟨f t, rfl, h env s.store _ t hy⟩

/-- A call away from the books, with an event the index does not keep. -/
theorem reports_aside {y : TokenCall Unit} {f : Store → List Sdk.TokenEvent}
    (h : Writes parts ws y) (hb : .balance ∉ ws) (hs : .supply ∉ ws)
    (hf : ∀ t, ∀ e ∈ f t, named name e = none) :
    Respects (Reports name) (silently y >>= fun _ => emits f) := by
  refine reports_told fun env s u t hy => ?_
  obtain ⟨hbal, hsup⟩ := sameBooks_of_writes h hb hs hy
  exact tells_unnamed (hf t) hbal hsup

theorem reports_emits {f : Store → List Sdk.TokenEvent}
    (hf : ∀ t, ∀ e ∈ f t, named name e = none) :
    Respects (Reports name) (emits f : Emitting.EmittingCall Unit) := by
  intro env s a s' hr
  rw [runs_emits.mp hr]
  exact ⟨f s.store, rfl, tells_unnamed (hf _) rfl rfl⟩

theorem reports_reentrancyGuard {g : Guard} {y : Emitting.EmittingCall α}
    (h : Respects (Reports name) y) : Respects (Reports name) (Emitting.reentrancyGuard g y) :=
  respects_guarded (fun _ _ => ⟨[], by simp [loggedFlag], tells_nil rfl rfl⟩) h

theorem tells_minted (hname : Function.Injective name) (m : Address)
    (hb : t.balance = Function.update s.balance dst (s.balance dst + x))
    (hs : t.supply = s.supply + x) :
    Tells name s [.mint m dst x (t.balance dst) t.supply] t := by
  refine ⟨fun a => ?_, ?_, hs⟩
  · rw [hb, net_updated hname]
    rfl
  · intro y hy
    rw [← Option.some.inj hy, hs]
    rfl

theorem tells_burnt (hname : Function.Injective name)
    (hb : t.balance = Function.update s.balance src (s.balance src - x))
    (hs : t.supply = s.supply - x) : Tells name s [.burn src x (t.balance src) t.supply] t := by
  refine ⟨fun a => ?_, ?_, ?_⟩
  · rw [hb, sub_eq_add_neg, net_updated hname]
    rfl
  · intro y hy
    rw [← Option.some.inj hy, hs]
    rfl
  · exact hs

theorem tells_moved (hname : Function.Injective name)
    (hb : t.balance = moved s.balance src dst x) (hs : t.supply = s.supply)
    {e : Sdk.TokenEvent} (e' : TokenEvent) (he : named name e = some e')
    (hl : e'.ledgerEvent = .transfer (name src) (name dst) x) (hn : e'.newSupply = none) :
    Tells name s [e] t := by
  refine ⟨fun a => ?_, ?_⟩
  · rw [hb, net_moved hname]
    simp [he, deltasOf, hl, deltasFor]
  · simp [he, SupplyTold, hl, hn, supplyDeltaFor, hs]

theorem reports_internalMint (hname : Function.Injective name) (m : Address) :
    Respects (Reports name) (Emitting.internalMint m dst x) := by
  refine reports_told fun env s u t hr => ?_
  obtain ⟨-, -, -, rfl⟩ := runs_internalMint hr
  exact tells_minted hname m rfl rfl

theorem reports_moveAndEmit (hname : Function.Injective name) :
    Respects (Reports name) (Emitting.moveAndEmit src dst x) := by
  refine reports_told fun env s u t hr => ?_
  obtain ⟨-, ht⟩ := runs_moveBalance hr
  have hb : t.balance = moved s.balance src dst x := by rw [ht]
  have hs : t.supply = s.supply := by rw [ht]
  exact tells_moved hname hb hs (.transfer _ _ _) rfl rfl rfl

theorem reports_checked (operation : String) (a : Address) :
    Respects (Reports name) (silently (checkRateLimit operation a)) := by
  have hframe : Writes parts [.rateLimit] (checkRateLimit operation a) :=
    writes_checkRateLimit (by decide) _ _
  exact reports_silently hframe (by decide) (by decide)

theorem reports_mintAll (hname : Function.Injective name) (m : Address)
    (recipients : List Recipient) : Respects (Reports name) (Emitting.mintAll m recipients) := by
  induction recipients with
  | nil => exact respects_pure _
  | cons r rest ih =>
    exact (reports_checked _ _).bind fun _ => (reports_internalMint hname m).bind fun _ => ih

theorem reports_transferAll (hname : Function.Injective name) (recipients : List (Address × ℤ)) :
    Respects (Reports name) (Emitting.transferAll src recipients) := by
  induction recipients with
  | nil => exact respects_pure _
  | cons r rest ih =>
    exact (reports_checked _ _).bind fun _ => (reports_moveAndEmit hname).bind fun _ => ih

/-- A step that reads or checks. -/
theorem reports_still {y : TokenCall α} (h : Writes parts [] y) :
    Respects (Reports name) (silently y) :=
  reports_silently h (by decide) (by decide)

theorem reports_executeOperation (hname : Function.Injective name) (op : BatchOp) :
    Respects (Reports name) (Emitting.executeOperation src op) := by
  cases op with
  | approve spender amount expiration =>
    refine (reports_still (respects_failIf _ _)).bind fun _ => ?_
    have hframe : Writes parts [.allowance] (writeAllowance src spender amount expiration) :=
      writes_persistAllowanceData (by decide)
    exact reports_aside hframe (by decide) (by decide) (by simp [named])
  | transfer dst amount =>
    exact (reports_still (respects_failIf _ _)).bind fun _ => (reports_checked _ _).bind fun _ =>
      reports_moveAndEmit hname

theorem reports_executeAll (hname : Function.Injective name) (operations : List BatchOp) :
    Respects (Reports name) (Emitting.executeAll src operations) := by
  induction operations with
  | nil => exact respects_pure _
  | cons op rest ih => exact (reports_executeOperation hname op).bind fun _ => ih

theorem reports_announced (op : Op) (h : .balance ∉ op.writes ∧ .supply ∉ op.writes)
    {e : Sdk.TokenEvent} (he : named name e = none) :
    Respects (Reports name) (Emitting.announced (exec op) e) :=
  reports_aside (exec_writes op) h.1 h.2 (by simp [he])

/-- Every entry point publishes what accounts for what it did. -/
theorem reports_exec (hname : Function.Injective name) (op : Op)
    (hop : ∀ a d n m, op ≠ .initializeToken a d n m) :
    Respects (Reports name) (Emitting.exec op) := by
  cases op with
  | initializeToken a d n m => exact absurd rfl (hop a d n m)
  | mint minter dst amount =>
    exact (reports_still (respects_failIf _ _)).bind fun _ => reports_reentrancyGuard <|
      (reports_still writes_ensureInitialized).bind fun _ =>
      (reports_still writes_ensureNotPaused).bind fun _ =>
      (reports_still (writes_requireRole _ _)).bind fun _ => (reports_checked _ _).bind fun _ =>
      reports_internalMint hname minter
  | batchMint minter recipients =>
    exact reports_reentrancyGuard <| (reports_still writes_ensureInitialized).bind fun _ =>
      (reports_still writes_ensureNotPaused).bind fun _ =>
      (reports_still (respects_failIf _ _)).bind fun _ =>
      (reports_still (writes_requireRole _ _)).bind fun _ => reports_mintAll hname minter recipients
  | batchTransfer src recipients =>
    exact reports_reentrancyGuard <| (reports_still writes_ensureInitialized).bind fun _ =>
      (reports_still writes_ensureNotPaused).bind fun _ =>
      (reports_still (respects_requireAuth _)).bind fun _ =>
      (reports_still (writes_batchTotal _ _)).bind fun _ =>
      (reports_still (respects_gets _)).bind fun _ =>
      (reports_still (respects_failIf _ _)).bind fun _ => reports_transferAll hname recipients
  | transfer src dst amount =>
    exact reports_reentrancyGuard <| (reports_still writes_ensureInitialized).bind fun _ =>
      (reports_still writes_ensureNotPaused).bind fun _ =>
      (reports_still (respects_requireAuth _)).bind fun _ =>
      (reports_still (respects_failIf _ _)).bind fun _ => (reports_checked _ _).bind fun _ =>
      reports_moveAndEmit hname
  | transferFrom spender src dst amount =>
    refine reports_told fun env s u t hr => ?_
    obtain ⟨-, -, -, hl⟩ := leaves_transferFrom hr
    exact tells_moved hname hl.balance hl.supply (.transferFrom _ _ _ _ _) rfl rfl rfl
  | burn src amount =>
    refine reports_told fun env s u t hr => ?_
    obtain ⟨-, -, -, hl⟩ := leaves_burn hr
    exact tells_burnt hname hl.balance hl.supply
  | burnFrom spender src amount =>
    refine reports_told fun env s u t hr => ?_
    obtain ⟨-, -, -, hl⟩ := leaves_burnFrom hr
    exact tells_burnt hname hl.balance hl.supply
  | executeFromContract src operations nonce maxLedger =>
    refine reports_reentrancyGuard <| (reports_still writes_ensureInitialized).bind fun _ =>
      (reports_still writes_ensureNotPaused).bind fun _ =>
      (reports_still (respects_failIf _ _)).bind fun _ =>
      (reports_still (respects_failIf _ _)).bind fun _ =>
      (reports_still respects_ledger).bind fun _ =>
      (reports_still (respects_failIf _ _)).bind fun _ =>
      (reports_still (respects_requireAuth _)).bind fun _ =>
      (reports_still (respects_gets _)).bind fun _ =>
      (reports_still (respects_failIf _ _)).bind fun _ =>
      (reports_still (respects_u64 _)).bind fun nextNonce => ?_
    have hframe : Writes parts [.nonce] (modify fun s => { s with
        nonce := Function.update s.nonce src nextNonce } : TokenCall Unit) :=
      writes_modify .nonce (by decide) fun _ => rfl
    refine (reports_silently hframe (by decide) (by decide)).bind fun _ => ?_
    exact (reports_executeAll hname operations).bind fun _ => reports_emits (by simp [named])
  | withdrawLocked user =>
    refine (reports_still (respects_gets _)).bind fun lock => ?_
    refine reports_aside writes_withdrawLocked (by decide) (by decide) ?_
    cases lock <;> simp [named]
  | transferOwnership newAdmin =>
    refine (reports_still (respects_gets _)).bind fun currentAdmin => ?_
    exact reports_aside (exec_writes (.transferOwnership newAdmin)) (by simp [Op.writes])
      (by simp [Op.writes]) (by cases currentAdmin <;> simp [named])
  | updateName newName =>
    refine (reports_still (respects_gets _)).bind fun oldName => ?_
    exact reports_aside (exec_writes (.updateName newName)) (by simp [Op.writes])
      (by simp [Op.writes]) fun t => by cases t.access.admin <;> simp [named]
  | updateSymbol newSymbol =>
    refine (reports_still (respects_gets _)).bind fun oldSymbol => ?_
    exact reports_aside (exec_writes (.updateSymbol newSymbol)) (by simp [Op.writes])
      (by simp [Op.writes]) fun t => by cases t.access.admin <;> simp [named]
  | lockTokens caller user amount unlock =>
    exact reports_aside (writes_lockTokens caller unlock) (by decide) (by decide)
      fun t => by cases t.lockup user <;> simp [named]
  | setMaxSupply caller maxSupply =>
    exact reports_announced (.setMaxSupply caller maxSupply) (by simp [Op.writes]) rfl
  | rescueTokens caller token recipient amount =>
    exact reports_announced (.rescueTokens caller token recipient amount) (by simp [Op.writes]) rfl
  | pause caller =>
    exact reports_announced (.pause caller) (by simp [Op.writes]) rfl
  | unpause caller =>
    exact reports_announced (.unpause caller) (by simp [Op.writes]) rfl
  | upgrade upgrader hash =>
    exact reports_announced (.upgrade upgrader hash) (by simp [Op.writes]) rfl
  | pauseAs caller =>
    exact reports_announced (.pauseAs caller) (by simp [Op.writes]) rfl
  | unpauseAs caller =>
    exact reports_announced (.unpauseAs caller) (by simp [Op.writes]) rfl
  | setFeeConfig caller config =>
    exact reports_announced (.setFeeConfig caller config) (by simp [Op.writes]) rfl
  | setTreasury caller treasury =>
    exact reports_announced (.setTreasury caller treasury) (by simp [Op.writes]) rfl
  | setFeeExemption caller a exemptionType =>
    exact reports_announced (.setFeeExemption caller a exemptionType) (by simp [Op.writes]) rfl
  | removeFeeExemption caller a =>
    exact reports_announced (.removeFeeExemption caller a) (by simp [Op.writes]) rfl
  | approve owner spender amount exp =>
    exact reports_announced (.approve owner spender amount exp) (by simp [Op.writes]) rfl
  | setMetadata caller name' symbol decimals =>
    exact reports_announced (.setMetadata caller name' symbol decimals) (by simp [Op.writes]) rfl
  | updateMetadata caller name' symbol =>
    exact reports_announced (.updateMetadata caller name' symbol) (by simp [Op.writes]) rfl
  | _ => exact reports_silently (exec_writes _) (by simp [Op.writes]) (by simp [Op.writes])

variable {w : World Store} {ls : List (Label Op)}

/-- What the token publishes in a run, as the index knows it. -/
def eventLog (name : Address → String) (w : World Store) (ls : List (Label Op)) :
    List TokenEvent :=
  (w.collectSteps exec (published Emitting.exec) ls).filterMap (named name)

theorem tells_published (hname : Function.Injective name) (w : World Store) (l : Label Op) :
    Tells name w.store (published Emitting.exec w l) (w.next exec l).store := by
  rcases published_cases Emitting.erases_exec w l with ⟨hs, he⟩ | ⟨signers, uploaded, op, rfl, hr⟩
  · rw [he]
    exact tells_nil (congrArg _ hs) (congrArg _ hs)
  · have hop : ∀ a d n m, op ≠ .initializeToken a d n m := by
      rintro a d n m rfl
      exact not_runs_initializeToken ((Emitting.erases_exec _).runs hr)
    obtain ⟨es, he, ht⟩ := reports_exec hname op hop _ _ _ _ hr
    rw [List.nil_append] at he
    dsimp only at he ht
    rwa [he]

theorem tells_run (hname : Function.Injective name) (w : World Store) (ls : List (Label Op)) :
    Tells name w.store (w.collectSteps exec (published Emitting.exec) ls) (w.run exec ls).store :=
  World.run_induction_collect (b := []) (C := fun _ _ => True)
    (J := fun v es => Tells name w.store es v.store) (tells_nil rfl rfl)
    (fun v l _ h _ => h.append (tells_published hname v l))
    (World.everyStep_of_forall fun _ _ => trivial)

/-- The supply that events tell is the one the fold arrives at. -/
theorem supply_foldl {es : List TokenEvent} {supply : ℤ} {state : LedgerState}
    (h : SupplyTold state.supply es supply) :
    ((es.map TokenEvent.ledgerEvent).foldl applyLedgerEvent state).supply = supply := by
  induction es generalizing state with
  | nil => exact Eq.symm h
  | cons e es ih =>
    have hrest : SupplyTold (applyLedgerEvent state e.ledgerEvent).supply es supply := h.2
    exact ih hrest

/-- Events about named addresses move nothing else. -/
theorem net_unnamed (es : List Sdk.TokenEvent) {text : String} (h : text ∉ Set.range name) :
    net (deltasOf (es.filterMap (named name))) text = 0 := by
  have hne : ∀ a, name a ≠ text := fun a ha => h ⟨a, ha⟩
  induction es with
  | nil => rfl
  | cons e es ih =>
    cases e with
    | mint m dst amount nb ns =>
      simpa [named, deltasOf, deltasFor, TokenEvent.ledgerEvent, hne] using ih
    | burn src amount nb ns =>
      simpa [named, deltasOf, deltasFor, TokenEvent.ledgerEvent, hne] using ih
    | transfer src dst amount =>
      simpa [named, deltasOf, deltasFor, TokenEvent.ledgerEvent, hne] using ih
    | transferFrom spender src dst amount rest =>
      simpa [named, deltasOf, deltasFor, TokenEvent.ledgerEvent, hne] using ih
    | _ => exact ih

theorem folded_log (text : String) :
    (foldLedgerEvents ((eventLog name w ls).map TokenEvent.ledgerEvent)).balances text =
      sparse (net (deltasOf (eventLog name w ls)) text) := by
  rw [foldLedgerEvents_balances, List.flatMap_map]
  rfl

theorem folded_balance (hname : Function.Injective name) (h : Deployed w) (a : Address) :
    (foldLedgerEvents ((eventLog name w ls).map TokenEvent.ledgerEvent)).balances (name a) =
      sparse ((w.run exec ls).store.balance a) := by
  obtain ⟨_, _, access, decimal, n, symbol, foreign, -, hs⟩ := deployed_store h
  have hstart : w.store.balance = fun _ => 0 := by
    rw [hs]
    rfl
  rw [folded_log, (tells_run hname w ls).balance, hstart, zero_add]
  rfl

theorem folded_unnamed {text : String} (h : text ∉ Set.range name) :
    (foldLedgerEvents ((eventLog name w ls).map TokenEvent.ledgerEvent)).balances text = none := by
  rw [folded_log, eventLog, net_unnamed _ h]
  rfl

theorem supply_told (hname : Function.Injective name) (h : Deployed w) :
    SupplyTold 0 (eventLog name w ls) (w.run exec ls).store.supply := by
  obtain ⟨_, _, access, decimal, n, symbol, foreign, -, hs⟩ := deployed_store h
  have hstart : w.store.supply = 0 := by
    rw [hs]
    rfl
  have htold := (tells_run hname w ls).supply
  rw [hstart] at htold
  exact htold

/-- The pure fold over everything the token has published since its deployment gives back its
books: every balance, no others, and the supply. Each event has named the supply after it. -/
theorem events_tell_books (hname : Function.Injective name) (h : Deployed w)
    (ls : List (Label Op)) :
    (∀ a, (foldLedgerEvents ((eventLog name w ls).map TokenEvent.ledgerEvent)).balances (name a) =
      sparse ((w.run exec ls).store.balance a)) ∧
    (∀ text ∉ Set.range name,
      (foldLedgerEvents ((eventLog name w ls).map TokenEvent.ledgerEvent)).balances text = none) ∧
    (foldLedgerEvents ((eventLog name w ls).map TokenEvent.ledgerEvent)).supply =
      (w.run exec ls).store.supply ∧
    SupplyTold 0 (eventLog name w ls) (w.run exec ls).store.supply := by
  have htold : SupplyTold 0 (eventLog name w ls) _ := supply_told hname h
  exact ⟨folded_balance hname h, fun _ ht => folded_unnamed ht, supply_foldl htold, htold⟩

/-- Texts for addresses: as many letters as the number says. -/
def letters (a : Address) : String := String.ofList (List.replicate a.id 'x')

theorem letters_injective : Function.Injective letters := by
  intro a b h
  have hlength := congrArg List.length (String.ofList_injective h)
  simp only [List.length_replicate] at hlength
  cases a
  cases b
  exact congrArg Address.mk hlength

theorem events_tell_busyRun :
    (foldLedgerEvents ((eventLog letters genesis busyRun).map TokenEvent.ledgerEvent)).balances
      (letters ⟨2⟩) = some 300 ∧ (eventLog letters genesis busyRun).length = 6 :=
  ⟨((events_tell_books letters_injective genesis_deployed busyRun).1 ⟨2⟩).trans (by decide +kernel),
    by decide +kernel⟩

end BcForge.Indexer
