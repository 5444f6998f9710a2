import BcForge.Admin.Multisig
import BcForge.Soroban.Run

/-! The migration of legacy contracts: it fills a mapping that no access check reads. -/
namespace BcForge.Admin

open Soroban Call

/-- The library's storage with `AdminKey::SuperAdmin` beside the other keys. -/
structure LegacyStore where
  access : Store
  superAdmin : Address → Bool

def LegacyStore.accessLens : Lens LegacyStore Store where
  get s := s.access
  set a s := { s with access := a }

def migrateAdmin : Call LegacyStore AdminError Unit := do
  let admin ← gets (·.access.admin)
  match admin with
  | some admin => modify fun s => { s with superAdmin := Function.update s.superAdmin admin true }
  | none => pure ()

/-- The library's entry points with the migration among them. -/
inductive LegacyOp where
  | access (op : Op)
  | migrateAdmin

def LegacyOp.exec : LegacyOp → Call LegacyStore AdminError Unit
  | .access op => within LegacyStore.accessLens id (Admin.exec op)
  | .migrateAdmin => Admin.migrateAdmin

variable {env : Env} {s s' : LegacyStore}

theorem migrateAdmin_access (h : Runs migrateAdmin env s () s') : s'.access = s.access := by
  obtain ⟨admin, t, hg, hrest⟩ := runs_bind.mp h
  obtain ⟨rfl, rfl⟩ := runs_gets.mp hg
  cases ha : t.access.admin with
  | none =>
    rw [ha] at hrest
    obtain ⟨-, rfl⟩ := runs_pure.mp hrest
    rfl
  | some admin =>
    rw [ha] at hrest
    obtain rfl := runs_modify.mp hrest
    rfl

/-- The steps of a run that are not migrations. -/
def withoutMigrations : List (Label LegacyOp) → List (Label Op)
  | [] => []
  | .call signers uploaded (.access op) :: ls =>
    .call signers uploaded op :: withoutMigrations ls
  | .call _ _ .migrateAdmin :: ls => withoutMigrations ls
  | .close l :: ls => .close l :: withoutMigrations ls

/-- The world without the mapping. -/
def legacyView (w : World LegacyStore) : World Store := ⟨w.ledger, w.self, w.store.access⟩

variable {w : World LegacyStore} {signers : List Address} {uploaded : List BytesN32}

theorem view_access (op : Op) :
    legacyView (w.next LegacyOp.exec (.call signers uploaded (.access op))) =
      (legacyView w).next exec (.call signers uploaded op) := by
  rcases World.call_cases LegacyOp.exec w signers uploaded (.access op) with hr | ⟨hfail, hw⟩
  · obtain ⟨t, ht, hs⟩ := runs_within.mp hr
    have hinvoke : invoke (exec op) (w.env signers uploaded) w.store.access = t :=
      invoke_of_runs ht
    have haccess : (w.next LegacyOp.exec (.call signers uploaded (.access op))).store.access = t :=
      congrArg LegacyStore.access hs
    exact congrArg (World.mk w.ledger w.self) (haccess.trans hinvoke.symm)
  · rw [hw]
    rcases World.call_cases exec (legacyView w) signers uploaded op with hr | ⟨-, hv⟩
    · have hok : Runs (LegacyOp.exec (.access op)) (w.env signers uploaded) w.store () _ :=
        runs_within.mpr ⟨_, hr, rfl⟩
      exact absurd (isOk_of_runs hok) hfail
    · exact hv.symm

theorem view_migrateAdmin :
    legacyView (w.next LegacyOp.exec (.call signers uploaded .migrateAdmin)) = legacyView w := by
  rcases World.call_cases LegacyOp.exec w signers uploaded .migrateAdmin with hr | ⟨-, hw⟩
  · exact congrArg (World.mk w.ledger w.self) (migrateAdmin_access hr)
  · rw [hw]

theorem view_close (l : Ledger) :
    legacyView (w.next LegacyOp.exec (.close l)) = (legacyView w).next exec (.close l) := by
  by_cases h : w.ledger.sequence ≤ l.sequence ∧ w.ledger.timestamp ≤ l.timestamp <;>
    simp [legacyView, World.next, h]

/-- Whatever is done to a contract, it comes to the same without the migrations. -/
theorem legacyView_run (w : World LegacyStore) (ls : List (Label LegacyOp)) :
    legacyView (w.run LegacyOp.exec ls) = (legacyView w).run exec (withoutMigrations ls) := by
  induction ls generalizing w with
  | nil => rfl
  | cons l ls ih =>
    rw [World.run_cons, ih]
    cases l with
    | close l =>
      rw [view_close]
      rfl
    | call signers uploaded op =>
      cases op with
      | access op =>
        rw [view_access]
        rfl
      | migrateAdmin =>
        rw [view_migrateAdmin]
        rfl

end BcForge.Admin
