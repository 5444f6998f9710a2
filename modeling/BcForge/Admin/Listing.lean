import BcForge.Admin.Multisig
import BcForge.Relational.Paging

/-! The proposal listings: what a walk over their pages yields, and whether an entry can be
executed. -/
namespace BcForge.Admin

open Soroban Call Relational

def proposalListScanCap : ℕ := 50

/-- The list an id belongs to. -/
inductive Listing where
  | pending
  | approved
deriving DecidableEq, Repr

/-- One page, of either flow. -/
structure ProposalLists where
  pendingIds : List ℕ
  approvedIds : List ℕ
  nextCursor : Option ℕ
deriving DecidableEq, Repr

def ProposalLists.push (lists : ProposalLists) (id : ℕ) : Option Listing → ProposalLists
  | some .pending => { lists with pendingIds := lists.pendingIds ++ [id] }
  | some .approved => { lists with approvedIds := lists.approvedIds ++ [id] }
  | none => lists

/-- The loop over the slots, and the cursor behind them. -/
def listProposals (counter : ℕ) (listing : ℕ → Option Listing) (startAfter : ℕ) : ProposalLists :=
  let stop := min counter (saturatingU64 (startAfter + proposalListScanCap))
  let nextCursor := if stop < counter then some stop else none
  (List.range' startAfter (stop - startAfter)).foldl (fun lists id => lists.push id (listing id))
    ⟨[], [], nextCursor⟩

/-- Expired proposals are skipped, the expiry ledger itself included. -/
def legacyListing (ledger : Ledger) (s : Store) (id : ℕ) : Option Listing :=
  match s.proposal id with
  | none => none
  | some proposal =>
    if proposal.executed = false ∧ proposal.cancelled = false then
      let expired := proposal.expiryLedger.any (· ≤ ledger.sequence)
      if expired = false then
        if getThreshold s ≤ proposal.approvals.length then some .approved else some .pending
      else none
    else none

def listLegacyProposals (ledger : Ledger) (s : Store) : ℕ → ProposalLists :=
  listProposals s.proposalIdCounter (legacyListing ledger s)

def upgradeListing (ledger : Ledger) (s : Store) (id : ℕ) : Option Listing :=
  match s.upgradeProposal id with
  | none => none
  | some proposal =>
    match proposal.status with
    | .pending => if ledger.timestamp < proposal.expiresAt then some .pending else none
    | .approved => some .approved
    | .executed | .cancelled | .expired => none

def listUpgradeProposals (ledger : Ledger) (s : Store) : ℕ → ProposalLists :=
  listProposals s.upgradeProposalIdCounter (upgradeListing ledger s)

variable {counter start id : ℕ} {listing : ℕ → Option Listing} {x : Listing} {env : Env}
  {s : Store}

section Pages

/-- The ids of a page on one of the lists. -/
def ProposalLists.ids (lists : ProposalLists) : Listing → List ℕ
  | .pending => lists.pendingIds
  | .approved => lists.approvedIds

theorem nextCursor_foldl {ids : List ℕ} {lists : ProposalLists} :
    (ids.foldl (fun lists id => lists.push id (listing id)) lists).nextCursor =
      lists.nextCursor := by
  induction ids generalizing lists with
  | nil => rfl
  | cons id ids ih =>
    rw [List.foldl_cons, ih]
    cases listing id with
    | none => rfl
    | some y => cases y <;> rfl

theorem ids_foldl {ids : List ℕ} {lists : ProposalLists} :
    (ids.foldl (fun lists id => lists.push id (listing id)) lists).ids x =
      lists.ids x ++ ids.filter (listing · = some x) := by
  induction ids generalizing lists with
  | nil => simp
  | cons id ids ih =>
    rw [List.foldl_cons, ih]
    cases hid : listing id with
    | none => simp [ProposalLists.push, hid]
    | some y => cases x <;> cases y <;> simp [ProposalLists.push, ProposalLists.ids, hid]

/-- The slots a page looks at. -/
def scanned (counter start : ℕ) : List ℕ :=
  List.range' start (min counter (start + proposalListScanCap) - start)

theorem stop_eq (hc : counter < 2 ^ 64) :
    min counter (saturatingU64 (start + proposalListScanCap)) =
      min counter (start + proposalListScanCap) := by
  unfold saturatingU64
  omega

theorem ids_listProposals (hc : counter < 2 ^ 64) :
    (listProposals counter listing start).ids x =
      (scanned counter start).filter (listing · = some x) := by
  simp only [listProposals, stop_eq hc, ids_foldl]
  cases x <;> rfl

theorem nextCursor_listProposals (hc : counter < 2 ^ 64) :
    (listProposals counter listing start).nextCursor =
      if start + proposalListScanCap < counter then some (start + proposalListScanCap)
      else none := by
  simp only [listProposals, stop_eq hc, nextCursor_foldl]
  by_cases h : start + proposalListScanCap < counter
  · rw [min_eq_right h.le]
  · rw [min_eq_left (not_lt.mp h), if_neg h, if_neg (lt_irrefl _)]

/-- The ids from a cursor on that belong to a list. -/
def remaining (counter : ℕ) (listing : ℕ → Option Listing) (x : Listing) (start : ℕ) : List ℕ :=
  (List.range' start (counter - start)).filter (listing · = some x)

theorem listProposals_accounts (hc : counter < 2 ^ 64) :
    Accounts ProposalLists.nextCursor (fun lists => lists.ids x) (fun _ => True)
      (remaining counter listing x) (fun start => counter - start)
      (fun start lists => lists = listProposals counter listing start) where
  split := by
    rintro start _ - rfl
    rw [ids_listProposals hc, nextCursor_listProposals hc, remaining, scanned]
    split
    case isTrue h =>
      have hsplit : List.range' start (counter - start) =
          List.range' start (min counter (start + proposalListScanCap) - start) ++
            List.range' (start + proposalListScanCap)
              (counter - (start + proposalListScanCap)) := by
        have hscan : min counter (start + proposalListScanCap) - start = proposalListScanCap := by
          omega
        have hrest : counter - start =
            proposalListScanCap + (counter - (start + proposalListScanCap)) := by
          omega
        rw [hscan, hrest, ← List.range'_append_1]
      rw [hsplit, List.filter_append]
      rfl
    case isFalse h =>
      rw [min_eq_left (not_lt.mp h)]
      exact (List.append_nil _).symm
  smaller := by
    rintro start _ k' - rfl hnext
    rw [nextCursor_listProposals hc] at hnext
    split at hnext
    · cases hnext
      refine ⟨trivial, ?_⟩
      have hcap : 0 < proposalListScanCap := by decide
      omega
    · cases hnext

/-- Following the cursor from 0 ends, and lists every id below the counter that qualifies, each once
and in increasing order. -/
def Complete (counter : ℕ) (listing : ℕ → Option Listing) (page : ℕ → ProposalLists) : Prop :=
  ∃ fuel pages, follow ProposalLists.nextCursor fuel (fun _ => page) 0 = some pages ∧
    pages.flatMap ProposalLists.pendingIds =
      (List.range counter).filter (listing · = some .pending) ∧
    pages.flatMap ProposalLists.approvedIds =
      (List.range counter).filter (listing · = some .approved)

theorem complete_listProposals (hc : counter < 2 ^ 64) :
    Complete counter listing (listProposals counter listing) := by
  have hall : ∀ x, ∃ pages,
      follow ProposalLists.nextCursor (counter + 1) (fun _ => listProposals counter listing) 0 =
        some pages ∧ pages.flatMap (fun lists => lists.ids x) =
          (List.range counter).filter (listing · = some x) := by
    intro x
    have hsize : counter - 0 < counter + 1 := by omega
    obtain ⟨pages, hpages, hids⟩ := follow_accounts (listProposals_accounts (x := x) hc)
      (fun _ _ _ => rfl) trivial hsize
    refine ⟨pages, hpages, ?_⟩
    rw [hids, remaining, List.range_eq_range', Nat.sub_zero]
  obtain ⟨pages, hpages, hpending⟩ := hall .pending
  obtain ⟨pages', hpages', happroved⟩ := hall .approved
  rw [hpages] at hpages'
  cases hpages'
  exact ⟨counter + 1, pages, hpages, hpending, happroved⟩

/-- Whatever is stored and however far the counters are. -/
theorem listings_complete (ledger : Ledger) (s : Store) (hlegacy : s.proposalIdCounter < 2 ^ 64)
    (hupgrade : s.upgradeProposalIdCounter < 2 ^ 64) :
    Complete s.proposalIdCounter (legacyListing ledger s) (listLegacyProposals ledger s) ∧
      Complete s.upgradeProposalIdCounter (upgradeListing ledger s)
        (listUpgradeProposals ledger s) :=
  ⟨complete_listProposals hlegacy, complete_listProposals hupgrade⟩

/-- Sixty proposals, of which the even ones have the one approval they need. -/
def sixtyProposals : Store :=
  { Store.empty with
    proposalIdCounter := 60
    threshold := some 2
    proposal := fun id => if id < 60 then
      some ⟨⟨1⟩, "", if id % 2 = 0 then [⟨1⟩, ⟨2⟩] else [⟨1⟩], false, none, false⟩ else none }

theorem sixtyProposals_complete :
    Complete 60 (legacyListing (Ledger.ofNat 100 1000) sixtyProposals)
      (listLegacyProposals (Ledger.ofNat 100 1000) sixtyProposals) :=
  (listings_complete (Ledger.ofNat 100 1000) sixtyProposals (by decide) (by decide)).1

end Pages

section Execution

/-- The checks that an execution makes on its proposal. -/
def checkExecution (id : ℕ) : AdminCall Proposal := do
  let proposal ← gets (·.proposal id)
  let proposal ← okOr proposal .proposalNotFound
  failIf (proposal.executed = true) .proposalAlreadyExecuted
  failIf (proposal.cancelled = true) .proposalCancelled
  let ledger ← Call.ledger
  failIf (proposalExpired ledger proposal = true) .proposalExpired
  let ready ← isProposalReady id
  failIf (ready = false) .thresholdNotMet
  pure proposal

/-- Either way of execution makes them, after the checks on the caller. -/
theorem markExecuted_eq (id : ℕ) : markExecuted id = withProposalGuard (do
    let admin ← getAdmin
    requireAuth admin
    let action ← gets (·.roleGrantProposal id)
    failIf (action.isSome = true) .roleProposalRequiresExecution
    let proposal ← checkExecution id
    modify (writeProposal id { proposal with executed := true })) := by
  simp only [markExecuted, checkExecution, Call.bind_assoc, Call.pure_bind]

theorem executeRoleProposal_eq (executor : Address) (id : ℕ) :
    executeRoleProposal executor id = withProposalGuard (do
      requireAuth executor
      let pool ← gets getAdminPool
      failIf (executor ∉ pool) .unauthorizedRole
      requireSuperAdmin executor
      let proposal ← checkExecution id
      let action ← gets (·.roleGrantProposal id)
      let action ← okOr action .roleProposalNotFound
      grantRole' action.role action.target
      modify (writeProposal id { proposal with executed := true })) := by
  simp only [executeRoleProposal, checkExecution, Call.bind_assoc, Call.pure_bind]

theorem checkExecution_eq : checkExecution id env s =
    match s.proposal id with
    | none => .error (.error .proposalNotFound)
    | some p =>
      if p.executed = true then .error (.error .proposalAlreadyExecuted)
      else if p.cancelled = true then .error (.error .proposalCancelled)
      else if proposalExpired env.ledger p = true then .error (.error .proposalExpired)
      else if getThreshold s ≤ p.approvals.length then .ok ⟨p, s, []⟩
      else .error (.error .thresholdNotMet) := by
  cases hp : s.proposal id with
  | none => simp [checkExecution, gets, okOr, fail, Bind.bind, Call.bind, hp]
  | some p =>
    by_cases hx : p.executed = true <;> by_cases hc : p.cancelled = true <;>
      by_cases he : proposalExpired env.ledger p = true <;>
      by_cases ht : getThreshold s ≤ p.approvals.length <;>
      simp [checkExecution, isProposalReady, gets, okOr, failIf, fail, pure, Call.ledger,
        Bind.bind, Call.bind, hp, hx, hc, he, ht]

/-- The page has the id among its approved ones exactly if an execution would accept it, and among
its pending ones exactly if only the threshold stands in the way. -/
structure Agrees (env : Env) (s : Store) (id : ℕ) (lists : ProposalLists) : Prop where
  approved : id ∈ lists.approvedIds ↔ (checkExecution id env s).isOk = true
  pending : id ∈ lists.pendingIds ↔ checkExecution id env s = .error (.error .thresholdNotMet)

/-- The proposal is neither executed nor cancelled, and this is the ledger it expires with. -/
def AtExpiry (ledger : Ledger) (s : Store) (id : ℕ) : Prop :=
  ∃ p, s.proposal id = some p ∧ p.executed = false ∧ p.cancelled = false ∧
    p.expiryLedger = some ledger.sequence

/-- Which list an id is on, on the page that scans it. -/
theorem mem_listLegacyProposals {ledger : Ledger}
    (hnumbered : s.proposal id ≠ none → id < s.proposalIdCounter)
    (hcounter : s.proposalIdCounter < 2 ^ 64) (hstart : start ≤ id)
    (hpage : id < start + proposalListScanCap) :
    id ∈ (listLegacyProposals ledger s start).ids x ↔ legacyListing ledger s id = some x := by
  rw [listLegacyProposals, ids_listProposals hcounter, List.mem_filter, decide_eq_true_iff,
    and_iff_right_iff_imp]
  intro hlisted
  have hstored : s.proposal id ≠ none := by
    intro hnone
    simp [legacyListing, hnone] at hlisted
  have hid := hnumbered hstored
  rw [scanned, List.mem_range'_1]
  omega

/-- The listing and the execution judge every proposal alike except at its expiry ledger, which the
listing counts as past and the execution does not. -/
theorem listing_agrees_iff (hnumbered : s.proposal id ≠ none → id < s.proposalIdCounter)
    (hcounter : s.proposalIdCounter < 2 ^ 64) (hstart : start ≤ id)
    (hpage : id < start + proposalListScanCap) :
    Agrees env s id (listLegacyProposals env.ledger s start) ↔ ¬ AtExpiry env.ledger s id := by
  have happroved : id ∈ (listLegacyProposals env.ledger s start).approvedIds ↔ _ :=
    mem_listLegacyProposals (x := .approved) hnumbered hcounter hstart hpage
  have hpending : id ∈ (listLegacyProposals env.ledger s start).pendingIds ↔ _ :=
    mem_listLegacyProposals (x := .pending) hnumbered hcounter hstart hpage
  have hagrees : Agrees env s id (listLegacyProposals env.ledger s start) ↔
      (legacyListing env.ledger s id = some .approved ↔
        (checkExecution id env s).isOk = true) ∧
      (legacyListing env.ledger s id = some .pending ↔
        checkExecution id env s = .error (.error .thresholdNotMet)) := by
    rw [← happroved, ← hpending]
    exact ⟨fun h => ⟨h.approved, h.pending⟩, fun h => ⟨h.1, h.2⟩⟩
  rw [hagrees, checkExecution_eq, legacyListing, AtExpiry]
  cases hp : s.proposal id with
  | none => simp [Except.isOk, Except.toBool]
  | some p =>
    by_cases hx : p.executed = true
    · simp [Except.isOk, Except.toBool, hx]
    by_cases hc : p.cancelled = true
    · simp [Except.isOk, Except.toBool, hx, hc]
    cases he : p.expiryLedger with
    | none =>
      by_cases ht : getThreshold s ≤ p.approvals.length <;>
        simp [Except.isOk, Except.toBool, proposalExpired, hx, hc, he, ht]
    | some expiry =>
      rcases lt_trichotomy expiry env.ledger.sequence with hlt | heq | hgt
      · simp [Except.isOk, Except.toBool, proposalExpired, hx, hc, he, hlt, hlt.le, hlt.ne]
      · by_cases ht : getThreshold s ≤ p.approvals.length <;>
          simp [Except.isOk, Except.toBool, proposalExpired, hx, hc, he, heq, ht]
      · by_cases ht : getThreshold s ≤ p.approvals.length <;>
          simp [Except.isOk, Except.toBool, proposalExpired, hx, hc, he, hgt.not_gt, hgt.not_ge,
            hgt.ne', ht]

/-- One proposal, approved when created, seen at the ledger before its last one. -/
def lastButOne : World Store :=
  World.run exec ⟨Ledger.ofNat 100 1000, ⟨100⟩, Store.empty⟩
    [.call [] [] (.setAdmin ⟨1⟩), .call [⟨1⟩] [] (.createProposal ⟨1⟩ "upgrade"),
      .close (Ledger.ofNat 699 4000)]

theorem lastButOne_agrees : Agrees (lastButOne.env [⟨1⟩] []) lastButOne.store 0
    (listLegacyProposals lastButOne.ledger lastButOne.store 0) := by
  refine (listing_agrees_iff (fun _ => by decide +kernel)
    (by decide +kernel) (le_refl 0) (by decide)).mpr ?_
  rintro ⟨p, hp, -, -, he⟩
  have hexpiry : (lastButOne.store.proposal 0).map Proposal.expiryLedger = some (some 700) := by
    decide +kernel
  rw [hp, Option.map_some, he] at hexpiry
  revert hexpiry
  decide +kernel

/-- One ledger later it can be executed and is on no list. -/
def atLast : World Store := lastButOne.next exec (.close (Ledger.ofNat 700 4005))

theorem atLast_disagrees :
    listLegacyProposals atLast.ledger atLast.store 0 = ⟨[], [], none⟩ ∧
      (exec (.markExecuted 0) (atLast.env [⟨1⟩] []) atLast.store).isOk = true ∧
      ¬ Agrees (atLast.env [⟨1⟩] []) atLast.store 0
        (listLegacyProposals atLast.ledger atLast.store 0) := by
  have hlists : listLegacyProposals atLast.ledger atLast.store 0 = ⟨[], [], none⟩ := by
    decide +kernel
  refine ⟨hlists, by decide +kernel, fun h => ?_⟩
  have hchecked : (checkExecution 0 (atLast.env [⟨1⟩] []) atLast.store).isOk = true := by
    decide +kernel
  have hmem := h.approved.mpr hchecked
  rw [hlists] at hmem
  cases hmem

end Execution

end BcForge.Admin
