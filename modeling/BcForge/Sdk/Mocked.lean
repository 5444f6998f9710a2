import BcForge.Sdk.MockClient
import BcForge.Token.BatchTransfer
import BcForge.Token.Standard

/-! The stand-in beside the contract: it accepts what the contract accepted. -/
namespace BcForge.BcForgeToken

open Soroban Call Js Sdk MockBcForgeClient

/-- The method of the stand-in for an entry point, where it has one. -/
def Op.mocked : Op → Option (Method MockBcForgeClient TransactionResult)
  | .mint minter dst amount => some (MockBcForgeClient.mint minter dst amount)
  | .batchMint minter recipients =>
    some (MockBcForgeClient.batchMint minter (recipients.map fun r => ⟨r.dst, r.amount⟩))
  | .batchTransfer src recipients =>
    some (MockBcForgeClient.batchTransfer src (recipients.map fun r => ⟨r.1, r.2⟩))
  | .approve owner spender amount _ => some (MockBcForgeClient.approve owner spender amount)
  | .transfer src dst amount => some (MockBcForgeClient.transfer src dst amount)
  | .transferFrom spender src dst amount =>
    some (MockBcForgeClient.transferFrom src spender dst amount)
  | _ => none

/-- What the stand-in cannot follow: it has no method for it, or wants at least one recipient. -/
def Op.unmocked : Op → Bool
  | .burn _ _ | .burnFrom _ _ _ | .executeFromContract _ _ _ _ => true
  | .batchMint _ recipients => recipients.isEmpty
  | _ => false

abbrev Rehearsal := Method.Transcript MockBcForgeClient TransactionResult

/-- Each call that succeeded on the contract is made on the stand-in. -/
def rehearse (w : World Store) (r : Rehearsal) : Label Op → Rehearsal
  | .call signers uploaded op =>
    if (exec op (w.env signers uploaded) w.store).isOk = true then
      (op.mocked.map r.call).getD r
    else r
  | .close _ => r

variable {env : Env} {s s' : Store} {t t' : Token} {c : MockBcForgeClient} {op : Op} {u : Unit}
  {w : World Store} {l : Label Op} {ls : List (Label Op)} {r : Rehearsal} {sequence : ℕ}

theorem standard_nil (hm : op.mocked = none) (hop : op.unmocked = false) :
    op.standard sequence = [] := by
  cases op with
  | mint minter dst amount => cases hm
  | batchMint minter recipients => cases hm
  | batchTransfer src recipients => cases hm
  | approve owner spender amount exp => cases hm
  | transfer src dst amount => cases hm
  | transferFrom spender src dst amount => cases hm
  | burn src amount => cases hop
  | burnFrom spender src amount => cases hop
  | executeFromContract src operations nonce maxLedger => cases hop
  | _ => rfl

theorem available_le {amount : ℤ} {exp : ℕ}
    (h : 0 < AllowanceData.available ⟨amount, exp⟩ sequence) :
    AllowanceData.available ⟨amount, exp⟩ sequence ≤ amount := by
  unfold AllowanceData.available at h ⊢
  split at h
  · omega
  case isFalse hlive =>
    rw [if_neg hlive]

theorem sum_amounts (recipients : List (Address × ℤ)) :
    amounts recipients = recipients.foldl (fun sum r => sum + r.2) 0 := by
  have hfrom : ∀ x, recipients.foldl (fun sum r => sum + r.2) x = x + amounts recipients := by
    induction recipients with
    | nil => simp [amounts]
    | cons r rest ih =>
      intro x
      rw [List.foldl_cons, ih]
      simp [amounts, add_assoc]
  rw [hfrom, zero_add]

/-- A batch is covered by the balance before any of it is moved. -/
theorem enough_batchTransfer {src : Address} {recipients : List (Address × ℤ)}
    (hs : s.ledger.Sound) (hr : Runs (batchTransfer src recipients) env s u s') :
    (∀ r ∈ recipients, 0 < r.2) ∧ amounts recipients ≤ s.balance src := by
  obtain ⟨-, t, hbody, rfl⟩ := runs_reentrancyGuard.mp hr
  simp only [runs_ensureInitialized_bind, runs_ensureNotPaused_bind, runs_requireAuth_bind,
    runs_bind (x := batchTotal recipients 0), runs_batchTotal le_rfl (by decide : I128.InRange 0),
    runs_gets_bind, runs_failIf_bind, not_lt, zero_add] at hbody
  obtain ⟨-, -, -, total, s₁, ⟨hpos, -, rfl, rfl⟩, hle, -⟩ := hbody
  refine ⟨hpos, ?_⟩
  by_cases hne : recipients = []
  · subst hne
    have hnonneg : 0 ≤ s.balance src := hs.balance_nonneg src
    exact hnonneg
  · exact le_balance hs (amounts_pos hpos hne) hle

/-- What the contract did, the stand-in does, and it says so. -/
theorem mocked_exec (hs : s.ledger.Sound) (hr : Runs (exec op) env s u s')
    (hseen : Seen env.ledger.sequence s t)
    (ht : t.replay (op.standard env.ledger.sequence) = some t') (hc : c.Mirrors t)
    (hop : op.unmocked = false) {m : Method MockBcForgeClient TransactionResult}
    (hm : op.mocked = some m) :
    ∃ c', m.Returns c (mockReply true none) c' ∧ c'.Mirrors t' := by
  cases op with
  | mint minter dst amount =>
    obtain rfl := Option.some.inj hm
    rw [Op.standard, Token.replay_singleton] at ht
    exact mirrors_mint hc minter ht
  | batchMint minter recipients =>
    obtain rfl := Option.some.inj hm
    obtain ⟨-, t₁, hbody, rfl⟩ := runs_reentrancyGuard.mp hr
    simp only [runs_ensureInitialized_bind, runs_ensureNotPaused_bind, runs_failIf_bind] at hbody
    obtain ⟨-, -, hbad, -⟩ := hbody
    refine mirrors_batchMint hc minter ?_ ?_ ?_
    · simpa [Op.unmocked] using hop
    · simpa using hbad
    · rwa [List.map_map]
  | batchTransfer src recipients =>
    obtain rfl := Option.some.inj hm
    obtain ⟨hpos, hle⟩ := enough_batchTransfer hs hr
    refine mirrors_batchTransfer hc ?_ ?_ ?_
    · intro r hr
      obtain ⟨p, hp, rfl⟩ := List.mem_map.mp hr
      exact hpos p hp
    · rw [hseen.balance, List.foldl_map, ← sum_amounts]
      exact hle
    · rwa [List.map_map]
  | approve owner spender amount exp =>
    obtain rfl := Option.some.inj hm
    rw [Op.standard, Token.replay_singleton] at ht
    obtain rfl := Option.some.inj ht
    exact mirrors_approve hc owner spender available_le
  | transfer src dst amount =>
    obtain rfl := Option.some.inj hm
    rw [Op.standard, Token.replay_singleton] at ht
    obtain ⟨-, hx, -, -⟩ := leaves_transfer hr
    exact mirrors_transfer hc hx ht
  | transferFrom spender src dst amount =>
    obtain rfl := Option.some.inj hm
    rw [Op.standard, Token.replay_singleton] at ht
    obtain ⟨-, ⟨hx, -⟩, -, -⟩ := leaves_transferFrom hr
    exact mirrors_transferFrom hc hx ht
  | _ => cases hm

/-- The stand-in shows what the token shows, and has refused nothing. -/
structure Follows (r : Rehearsal) (t : Token) : Prop where
  mirrors : r.object.Mirrors t
  replies : ∀ reply ∈ r.results, reply = .ok (mockReply true none)

theorem Follows.call (h : Follows r t) {m : Method MockBcForgeClient TransactionResult}
    (hm : ∃ c', m.Returns r.object (mockReply true none) c' ∧ c'.Mirrors t') :
    Follows (r.call m) t' := by
  obtain ⟨c', hrun, hc'⟩ := hm
  rw [hrun.transcript]
  refine ⟨hc', fun reply hin => ?_⟩
  rcases List.mem_append.mp hin with hin | hin
  · exact h.replies reply hin
  · exact List.mem_singleton.mp hin

theorem follows_next (hs : w.store.ledger.Sound) (ht : Seen w.ledger.sequence w.store t)
    (hr : Follows r t) (hop : World.OnSuccess exec (fun _ op => op.unmocked = false) w l) :
    ∃ t', Seen (w.next exec l).ledger.sequence (w.next exec l).store t' ∧
      Follows (rehearse w r l) t' := by
  obtain ⟨t', hreplay, ht'⟩ := seen_next hs ht
  refine ⟨t', ht', ?_⟩
  cases l with
  | close l =>
    obtain rfl := Option.some.inj hreplay
    exact ⟨mirrors_lapse hr.mirrors _, hr.replies⟩
  | call signers uploaded op =>
    rcases World.call_cases exec w signers uploaded op with hrun | ⟨hfail, -⟩
    · have hok := isOk_of_runs hrun
      rw [standardSteps, if_pos hok] at hreplay
      rw [rehearse, if_pos hok]
      have hmocked := hop _ hrun
      cases hm : op.mocked with
      | none =>
        rw [standard_nil hm hmocked] at hreplay
        obtain rfl := Option.some.inj hreplay
        exact hr
      | some m => exact hr.call (mocked_exec hs hrun ht hreplay hr.mirrors hmocked hm)
    · rw [standardSteps, if_neg hfail] at hreplay
      obtain rfl := Option.some.inj hreplay
      rw [rehearse, if_neg hfail]
      exact hr

theorem follows_run (hs : w.store.ledger.Sound) (ht : Seen w.ledger.sequence w.store t)
    (hr : Follows r t)
    (hls : w.EveryStep exec (World.OnSuccess exec fun _ op => op.unmocked = false) ls) :
    ∃ t', Seen (w.run exec ls).ledger.sequence (w.run exec ls).store t' ∧
      Follows (w.foldSteps exec rehearse r ls) t' := by
  induction ls generalizing w r t with
  | nil => exact ⟨t, ht, hr⟩
  | cons l ls ih =>
    obtain ⟨t₁, ht₁, hr₁⟩ := follows_next hs ht hr hls.1
    exact ih (sound_next hs) ht₁ hr₁ hls.2

/-- A new stand-in that is given the calls the contract accepted, in a run without burns, batches
of mixed operations and empty batches of mints, replies to all of them with success and shows
the contract's balances and supply; of every allowance that still counts it has enough. -/
theorem mock_follows_token (h : Deployed w)
    (hls : w.EveryStep exec (World.OnSuccess exec fun _ op => op.unmocked = false) ls) :
    let r := w.foldSteps exec rehearse ⟨.new, []⟩ ls
    (∀ reply ∈ r.results, reply = .ok (mockReply true none)) ∧
      r.object.balanceOf = (w.run exec ls).store.balance ∧
      r.object.getTotalSupply = (w.run exec ls).store.supply ∧
      Covers r.object.getAllowance fun o sp =>
        (effective (w.run exec ls).store o sp).available (w.run exec ls).ledger.sequence := by
  have hnew : Follows ⟨.new, []⟩ (Token.empty (storedDecimals w.store)) := ⟨mirrors_new _, nofun⟩
  obtain ⟨t, ht, ⟨f, hbooks, hcovers⟩, hreplies⟩ :=
    follows_run (sound_deployed h) (seen_deployed h) hnew hls
  refine ⟨hreplies, ?_, ?_, ?_⟩
  · exact hbooks.balance.trans ht.balance
  · exact hbooks.supply.trans ht.supply
  · rw [hbooks.allowance]
    rw [ht.allowance] at hcovers
    exact hcovers

/-- A batch of mints, a transfer that fails, one that does not, and an approval. -/
def rehearsed : List (Label Op) :=
  [.call [⟨1⟩] [] (.batchMint ⟨1⟩ [⟨⟨2⟩, 600⟩, ⟨⟨3⟩, 400⟩]),
   .call [⟨2⟩] [] (.transfer ⟨2⟩ ⟨3⟩ 700),
   .call [⟨2⟩] [] (.transfer ⟨2⟩ ⟨3⟩ 200),
   .call [⟨3⟩] [] (.approve ⟨3⟩ ⟨4⟩ 50 0)]

theorem mock_follows_token_rehearsed :
    (genesis.foldSteps exec rehearse ⟨.new, []⟩ rehearsed).object.balanceOf ⟨3⟩ = 600 ∧
      (genesis.foldSteps exec rehearse ⟨.new, []⟩ rehearsed).results.length = 3 := by
  have hls : genesis.EveryStep exec (World.OnSuccess exec fun _ op => op.unmocked = false)
      rehearsed := ⟨fun _ _ => rfl, fun _ _ => rfl, fun _ _ => rfl, fun _ _ => rfl, trivial⟩
  obtain ⟨-, hbalance, -, -⟩ := mock_follows_token genesis_deployed hls
  refine ⟨?_, by decide +kernel⟩
  rw [hbalance]
  decide +kernel

end BcForge.BcForgeToken
