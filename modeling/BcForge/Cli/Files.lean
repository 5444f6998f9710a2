import BcForge.Js.Object
import BcForge.Sdk.Submit
import Mathlib.Data.List.DropRight

/-! What the commands of the CLI share: texts as they are typed in, and the JSON files they keep. -/
namespace BcForge.Cli

open Js Sdk

def trim (s : String) : String :=
  String.ofList ((s.toList.dropWhile isSpace).rdropWhile isSpace)

def isBase32 (c : Char) : Bool := ('A' ≤ c && c ≤ 'Z') || ('2' ≤ c && c ≤ '7')

/-- `[A-Z2-7]{55}` behind a first letter that says what is encoded. -/
def hasStrKeyShape (first : Char) (s : String) : Bool :=
  match s.toList with
  | c :: rest => c = first && rest.length = 55 && rest.all isBase32
  | [] => false

/-- `[A-Za-z][A-Za-z0-9_-]{0,63}` -/
def isShortName (s : String) : Bool :=
  match s.toList with
  | c :: rest =>
    c.isAlpha && rest.length ≤ 63 && rest.all fun c => c.isAlphanum || c = '_' || c = '-'
  | [] => false

/-- A file as it is read: absent, not JSON, or a JSON document. -/
inductive File where
  | missing
  | invalid (message : String)
  | json (document : Json)

inductive CliError where
  | error (message : String)
  | typeError (message : String)
  | unknownNetwork (network : String)
  | unknownAlias (aliasName network : String)
deriving DecidableEq

section Results

variable {α β : Type} {b : β}

theorem bind_eq_ok {x : Except CliError α} {f : α → Except CliError β} :
    x >>= f = .ok b ↔ ∃ a, x = .ok a ∧ f a = .ok b := by
  cases x <;> simp [bind, Except.bind]

theorem pure_eq_ok {a : α} {b : α} : (pure a : Except CliError α) = .ok b ↔ a = b := by
  simp [pure, Except.pure]

end Results

section Attempts

variable {Op : Type}

/-- A call that throws leaves the file as it was; one that completes is remembered. -/
def attempt (exec : Op → File → Except CliError File) (s : File × List Op) (op : Op) :
    File × List Op :=
  match exec op s.1 with
  | .ok file => (file, op :: s.2)
  | .error _ => s

/-- The file after the calls, and the completed ones among them, the last of them first. -/
def attempts (exec : Op → File → Except CliError File) (start : File) (ops : List Op) :
    File × List Op :=
  ops.foldl (attempt exec) (start, [])

variable {exec : Op → File → Except CliError File} {start : File}

theorem attempts_induction {P : File → List Op → Prop} (hstart : P start [])
    (hstep : ∀ file done op file', P file done → exec op file = .ok file' → P file' (op :: done))
    (ops : List Op) : P (attempts exec start ops).1 (attempts exec start ops).2 := by
  suffices h : ∀ s : File × List Op, P s.1 s.2 →
      P (ops.foldl (attempt exec) s).1 (ops.foldl (attempt exec) s).2 from h _ hstart
  induction ops with
  | nil => exact fun s hs => hs
  | cons op ops ih =>
    intro s hs
    refine ih _ ?_
    unfold attempt
    split
    · rename_i file hexec
      exact hstep _ _ _ _ hs hexec
    · exact hs

end Attempts

section Trim

variable {s : String} {c first : Char}

theorem dropWhile_rdropWhile {α : Type} (p : α → Bool) (l : List α) :
    ((l.dropWhile p).rdropWhile p).dropWhile p = (l.dropWhile p).rdropWhile p := by
  cases h : (l.dropWhile p).rdropWhile p with
  | nil => rfl
  | cons a t =>
    -- the text left over starts as `l.dropWhile p` does
    obtain ⟨rest, hrest⟩ : (l.dropWhile p).rdropWhile p <+: l.dropWhile p :=
      List.rdropWhile_prefix _ _
    rw [h, List.cons_append] at hrest
    have hhead := List.head?_dropWhile_not p l
    rw [← hrest, List.head?_cons] at hhead
    rw [List.dropWhile_cons, if_neg (by simpa using hhead)]

@[simp] theorem trim_trim (s : String) : trim (trim s) = trim s := by
  simp only [trim, String.toList_ofList, dropWhile_rdropWhile, List.rdropWhile_idempotent]

theorem trim_of_all (h : ∀ c ∈ s.toList, isSpace c = false) : trim s = s := by
  have hleft : s.toList.dropWhile isSpace = s.toList := by
    rw [List.dropWhile_eq_self_iff]
    intro hl
    simpa using h _ (List.get_mem s.toList ⟨0, hl⟩)
  have hright : s.toList.rdropWhile isSpace = s.toList := by
    rw [List.rdropWhile_eq_self_iff]
    intro hl
    simpa using h _ (List.getLast_mem hl)
  rw [trim, hleft, hright, String.ofList_toList]

theorem isSpace_of_isBase32 (h : isBase32 c = true) : isSpace c = false := by
  simp only [isBase32, Bool.or_eq_true, Bool.and_eq_true, decide_eq_true_eq, Char.le_def,
    UInt32.le_iff_toNat_le] at h
  have hlow : 50 ≤ c.toNat := by
    rcases h with ⟨h, -⟩ | ⟨h, -⟩
    · exact le_trans (by decide) h
    · exact h
  have hhigh : c.toNat ≤ 90 := by
    rcases h with ⟨-, h⟩ | ⟨-, h⟩
    · exact h
    · exact h.trans (by decide)
  simp [isSpace, ← UInt32.toNat_inj, UInt32.le_iff_toNat_le]
  omega

theorem trim_of_strKeyShape (hfirst : isSpace first = false)
    (h : hasStrKeyShape first s = true) : trim s = s := by
  refine trim_of_all fun c hc => ?_
  unfold hasStrKeyShape at h
  split at h
  · rename_i a rest hs
    simp only [Bool.and_eq_true, decide_eq_true_eq, List.all_eq_true] at h
    obtain ⟨⟨rfl, -⟩, hrest⟩ := h
    rw [hs] at hc
    rcases List.mem_cons.mp hc with rfl | hc
    · exact hfirst
    · exact isSpace_of_isBase32 (hrest c hc)
  · cases h

end Trim

end BcForge.Cli
