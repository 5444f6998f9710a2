import BcForge.Soroban.Custody
import BcForge.Token.Standard

/-! An account that signs nothing loses no tokens beyond the allowances it had given. -/
namespace BcForge.BcForgeToken

open Soroban Call Admin

variable {env : Env} {s s' : Store} {a : Address} {u : Unit} {op : Op} {sequence : ℕ}

/-- What `sp` may still take from the account of `a`. -/
def drawable (w : World Store) (a sp : Address) : ℤ :=
  max 0 ((effective w.store a sp).available w.ledger.sequence)

theorem holder_batch {operations : List BatchOp} {src : Address} :
    ∀ o ∈ operations.map (BatchOp.standard sequence src), o.holder = some src := by
  intro o ho
  obtain ⟨op, -, rfl⟩ := List.mem_map.mp ho
  cases op <;> rfl

/-- Whatever a call does in the name of a holder, the holder has signed for. -/
theorem holder_signed (h : Runs (exec op) env s u s') :
    ∀ o ∈ op.standard sequence, o.holder = some a → env.Authorized a := by
  intro o ho ha
  cases op with
  | batchMint minter recipients =>
    obtain ⟨r, -, rfl⟩ := List.mem_map.mp ho
    cases ha
  | batchTransfer src recipients =>
    obtain ⟨r, -, rfl⟩ := List.mem_map.mp ho
    obtain rfl := Option.some.inj ha
    obtain ⟨-, t, hbody, -⟩ := runs_reentrancyGuard.mp h
    simp only [runs_ensureInitialized_bind, runs_ensureNotPaused_bind, runs_requireAuth_bind]
      at hbody
    exact hbody.2.2.1
  | executeFromContract src operations nonce maxLedger =>
    obtain rfl := Option.some.inj ((holder_batch o ho).symm.trans ha)
    exact (runs_executeFromContract h).1.signed
  | approve owner spender amount exp =>
    obtain rfl := List.mem_singleton.mp ho
    obtain rfl := Option.some.inj ha
    obtain ⟨-, t, hbody, -⟩ := runs_reentrancyGuard.mp h
    simp only [runs_ensureInitialized_bind, runs_requireAuth_bind] at hbody
    exact hbody.2.1
  | transfer src dst amount =>
    obtain rfl := List.mem_singleton.mp ho
    obtain rfl := Option.some.inj ha
    exact (leaves_transfer h).1
  | burn src amount =>
    obtain rfl := List.mem_singleton.mp ho
    obtain rfl := Option.some.inj ha
    exact (leaves_burn h).1
  | mint minter dst amount =>
    obtain rfl := List.mem_singleton.mp ho
    cases ha
  | transferFrom spender src dst amount =>
    obtain rfl := List.mem_singleton.mp ho
    cases ha
  | burnFrom spender src amount =>
    obtain rfl := List.mem_singleton.mp ho
    cases ha
  | _ => cases ho

variable {w : World Store}

theorem holder_step (w : World Store) (l : Label Op) :
    ∀ o ∈ standardSteps w l, o.holder = some a → l.SignedBy a := by
  intro o ho ha
  cases l with
  | close l =>
    obtain rfl := List.mem_singleton.mp ho
    cases ha
  | call signers uploaded op =>
    rcases World.call_cases exec w signers uploaded op with hr | ⟨hfail, -⟩
    · rw [standardSteps, if_pos (isOk_of_runs hr)] at ho
      have hsigned := holder_signed hr o ho ha
      rw [World.env_authorized] at hsigned
      exact hsigned.2
    · rw [standardSteps, if_neg hfail] at ho
      cases ho

theorem drawable_seen {t : Token} {sp : Address} (h : Seen w.ledger.sequence w.store t) :
    drawable w a sp = t.drawable a sp := by
  rw [drawable, Token.drawable, h.allowance]

/-- From any reachable state on, whatever anybody else does, an account that signs none of the
calls is short of no more than was drawn on the allowances it had given by then, and nobody is
allowed more than before. With no allowance open it loses nothing. -/
theorem unsigned_account_keeps (h : Deployed w) (ls₀ ls : List (Label Op)) (a : Address)
    (hls : (w.run exec ls₀).EveryStep exec (fun _ l => ¬ l.SignedBy a) ls) :
    (∀ sp, drawable ((w.run exec ls₀).run exec ls) a sp ≤ drawable (w.run exec ls₀) a sp) ∧
      ∀ S : Finset Address, (∀ sp, sp ∉ S → drawable (w.run exec ls₀) a sp = 0) →
        (w.run exec ls₀).store.balance a - ((w.run exec ls₀).run exec ls).store.balance a ≤
          ∑ sp ∈ S, (drawable (w.run exec ls₀) a sp -
            drawable ((w.run exec ls₀).run exec ls) a sp) := by
  have hsound : (w.run exec ls₀).store.ledger.Sound :=
    World.run_induction (P := fun w : World Store => w.store.ledger.Sound) (sound_deployed h)
      fun _ _ hs => sound_next hs
  obtain ⟨t, -, ht⟩ := explains_token.run (sound_deployed h) (seen_deployed h) ls₀
  obtain ⟨t', ht', hkeeps⟩ := explains_token.keeps holder_step hsound ht hls
  simp only [drawable_seen ht, drawable_seen ht', ← ht.balance, ← ht'.balance]
  exact ⟨hkeeps.drawable_le, hkeeps.balance⟩

/-- Account 2 holds a hundred and allows account 3 half of them. -/
def entrusted : List (Label Op) :=
  [.call [⟨1⟩] [] (.mint ⟨1⟩ ⟨2⟩ 100), .call [⟨2⟩] [] (.approve ⟨2⟩ ⟨3⟩ 50 0)]

/-- Account 3 takes 30 of them; account 4 tries as well. -/
def drawnUpon : List (Label Op) :=
  [.call [⟨4⟩] [] (.transferFrom ⟨4⟩ ⟨2⟩ ⟨4⟩ 1), .call [⟨3⟩] [] (.transferFrom ⟨3⟩ ⟨2⟩ ⟨4⟩ 30)]

theorem entrusted_keeps :
    100 - ((genesis.run exec entrusted).run exec drawnUpon).store.balance ⟨2⟩ ≤ 30 := by
  have hstored : (genesis.run exec entrusted).store.allowance =
      update₂ (fun _ _ => none) ⟨2⟩ ⟨3⟩ (some (.data ⟨50, 0⟩)) := rfl
  have hexp : (genesis.run exec entrusted).store.allowanceExp =
      update₂ (fun _ _ => none) ⟨2⟩ ⟨3⟩ none := rfl
  have hnone : ∀ sp, sp ∉ ({⟨3⟩} : Finset Address) →
      drawable (genesis.run exec entrusted) ⟨2⟩ sp = 0 := by
    intro sp hsp
    have hsp : ¬ ((⟨2⟩ : Address) = ⟨2⟩ ∧ sp = ⟨3⟩) := by simpa using hsp
    rw [drawable, effective, hstored, hexp, update₂_of_ne _ _ hsp, update₂_of_ne _ _ hsp]
    rfl
  have hkept := (unsigned_account_keeps genesis_deployed entrusted drawnUpon ⟨2⟩
    ⟨by decide, by decide, trivial⟩).2 {⟨3⟩} hnone
  have hbefore : (genesis.run exec entrusted).store.balance ⟨2⟩ = 100 := by decide +kernel
  have hdrawn : drawable (genesis.run exec entrusted) ⟨2⟩ ⟨3⟩ -
      drawable ((genesis.run exec entrusted).run exec drawnUpon) ⟨2⟩ ⟨3⟩ = 30 := by
    decide +kernel
  rwa [Finset.sum_singleton, hdrawn, hbefore] at hkept

end BcForge.BcForgeToken
