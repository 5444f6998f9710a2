import Mathlib.Data.List.Sort
import Mathlib.Data.Set.List
import BcForge.Relational.Paging

/-! The paginated lists of the read API, and what a client collects that follows their cursors. -/
namespace BcForge.Indexer.Api

open Relational Std

/-- A value of the query string, as Express parses it. -/
inductive QueryValue where
  | text (value : String)
  | list (values : List QueryValue)
  | object

/-- `raw[0]` of an array; only a string goes on. -/
def QueryValue.firstText : QueryValue → Option String
  | .text value => some value
  | .list (.text value :: _) => some value
  | _ => none

structure Query where
  limit : Option QueryValue
  cursor : Option QueryValue

def DEFAULT_LIMIT : ℕ := 50

def MAX_LIMIT : ℕ := 100

/-- `number` is `Number(value)` where that is an integer. -/
def parseLimit (number : String → Option ℤ) (query : Query) : Option ℕ :=
  match query.limit with
  | none => some DEFAULT_LIMIT
  | some raw =>
    match raw.firstText.bind number with
    | none => none
    | some parsed => if parsed < 1 then none else some (min parsed.toNat MAX_LIMIT)

/-- Empty or missing values mean the first page. -/
def parseCursor (query : Query) : Option String :=
  match query.cursor with
  | none => none
  | some raw => raw.firstText.filter (· ≠ "")

variable {δ : Type}

structure Row (δ : Type) where
  id : String
  createdAt : ℤ
  data : δ
  deriving DecidableEq

/-- The rows of a table, whose ids are distinct uuids. -/
structure Table (δ : Type) where
  rows : List (Row δ)
  unique : (rows.map Row.id).Nodup
  named : ∀ row ∈ rows, row.id ≠ ""

inductive Column where
  | createdAt
  | id

inductive SortOrder where
  | asc
  | desc

def newestFirst : List (Column × SortOrder) := [(.createdAt, .desc), (.id, .desc)]

structure FindManyArgs (δ : Type) where
  take : ℕ
  skip : Option ℕ
  cursor : Option String
  whereClause : Option (δ → Bool)
  orderBy : List (Column × SortOrder)

structure PrismaError where
  code : Option String

/-- `findMany` of a model, on what the table holds when it is called. -/
abbrev Delegate (δ : Type) := Table δ → FindManyArgs δ → Except PrismaError (List (Row δ))

structure Page (δ : Type) where
  data : List (Row δ)
  nextCursor : Option String

inductive Reply (δ : Type) where
  | badRequest (error : String)
  | page (page : Page δ)

def handlePaginatedList (number : String → Option ℤ) (delegate : Delegate δ)
    (whereClause : Option (δ → Bool)) (t : Table δ) (query : Query) :
    Except PrismaError (Reply δ) :=
  match parseLimit number query with
  | none => .ok (.badRequest "Invalid limit: must be an integer >= 1")
  | some limit =>
    let cursor := parseCursor query
    match delegate t ⟨limit + 1, cursor.map (fun _ => 1), cursor, whereClause, newestFirst⟩ with
    | .error err =>
      if err.code = some "P2025" then .ok (.badRequest "Invalid cursor") else .error err
    | .ok rows =>
      let hasNextPage := decide (limit < rows.length)
      let data := if hasNextPage then rows.take limit else rows
      .ok (.page ⟨data,
        if hasNextPage ∧ 0 < data.length then data.getLast?.map Row.id else none⟩)

section Ordering

variable (collate : String → String → Ordering)

def columnCompare : Column → Row δ → Row δ → Ordering
  | .createdAt, a, b => compare a.createdAt b.createdAt
  | .id, a, b => collate a.id b.id

def sortCompare : Column × SortOrder → Row δ → Row δ → Ordering
  | (column, .asc), a, b => columnCompare collate column a b
  | (column, .desc), a, b => columnCompare collate column b a

def orderCompare : List (Column × SortOrder) → Row δ → Row δ → Ordering
  | [] => fun _ _ => .eq
  | key :: keys => compareLex (sortCompare collate key) (orderCompare keys)

variable [TransCmp collate]

instance (column : Column) : TransCmp (columnCompare (δ := δ) collate column) := by
  cases column with
  | createdAt => exact inferInstanceAs (TransCmp (compareOn Row.createdAt))
  | id => exact
    { eq_swap := fun {a b} => (OrientedCmp.eq_swap : collate a.id b.id = _)
      isLE_trans := fun {a b c} hab hbc => by
        have hac : (collate a.id c.id).isLE := TransCmp.isLE_trans (b := b.id) hab hbc
        exact hac }

instance (key : Column × SortOrder) : TransCmp (sortCompare (δ := δ) collate key) := by
  obtain ⟨column, _ | _⟩ := key
  · exact inferInstanceAs (TransCmp (columnCompare collate column))
  · exact inferInstanceAs (TransCmp fun a b => columnCompare collate column b a)

instance (orderBy : List (Column × SortOrder)) :
    TransCmp (orderCompare (δ := δ) collate orderBy) := by
  induction orderBy with
  | nil => exact { eq_swap := rfl, isLE_trans := fun _ _ => rfl }
  | cons key keys ih =>
    exact inferInstanceAs (TransCmp (compareLex (sortCompare collate key) _))

end Ordering

/-- The rows for which `p` holds, in the order asked for. -/
structure InOrder (collate : String → String → Ordering) (orderBy : List (Column × SortOrder))
    (p : Row δ → Bool) (t : Table δ) (all : List (Row δ)) : Prop where
  perm : all.Perm (t.rows.filter p)
  sorted : all.Pairwise fun a b => (orderCompare collate orderBy a b).isLE

def matched (whereClause : Option (δ → Bool)) (row : Row δ) : Bool :=
  whereClause.all (· row.data)

/-- How Prisma reads a table: the matching rows in order, from the cursor's row on if there is a
cursor, less those skipped, and no more than those to take. -/
structure PrismaSemantics (collate : String → String → Ordering) (delegate : Delegate δ) :
    Prop where
  first : ∀ t args, args.cursor = none →
    ∃ all, InOrder collate args.orderBy (matched args.whereClause) t all ∧
      delegate t args = .ok ((all.drop (args.skip.getD 0)).take args.take)
  atCursor : ∀ t args, ∀ row ∈ t.rows, args.cursor = some row.id →
    ∃ all, InOrder collate args.orderBy (fun x => matched args.whereClause x &&
        (orderCompare collate args.orderBy row x).isLE) t all ∧
      delegate t args = .ok ((all.drop (args.skip.getD 0)).take args.take)

/-- Nothing is deleted, and what is inserted is newer than all that was there at the start. -/
structure Grows (start t : Table δ) : Prop where
  kept : ∀ row ∈ start.rows, row ∈ t.rows
  later : ∀ row ∈ t.rows, row ∉ start.rows → ∀ old ∈ start.rows, old.createdAt < row.createdAt

def Page.ofRest (rest : List (Row δ)) (limit : ℕ) : Page δ :=
  ⟨rest.take limit, if limit < rest.length then (rest.take limit).getLast?.map Row.id else none⟩

section Request

variable {number : String → Option ℤ} {delegate : Delegate δ} {whereClause : Option (δ → Bool)}
  {t : Table δ} {query : Query} {limit : ℕ} {rest : List (Row δ)}

theorem parseLimit_pos (h : parseLimit number query = some limit) : 0 < limit := by
  rw [parseLimit] at h
  split at h
  · cases h
    decide
  · split at h
    · cases h
    · split at h
      · cases h
      · cases h
        rw [MAX_LIMIT]
        omega

/-- One row more than the limit is enough to see whether there is a next page. -/
theorem handlePaginatedList_eq (hlimit : parseLimit number query = some limit)
    (hrows : delegate t ⟨limit + 1, (parseCursor query).map (fun _ => 1), parseCursor query,
      whereClause, newestFirst⟩ = .ok (rest.take (limit + 1))) :
    handlePaginatedList number delegate whereClause t query =
      .ok (.page (Page.ofRest rest limit)) := by
  have hpos := parseLimit_pos hlimit
  simp only [handlePaginatedList, hlimit, hrows, Page.ofRest, List.length_take]
  by_cases hmore : limit < rest.length
  · have hnext : limit < min (limit + 1) rest.length := by omega
    have hrest : rest ≠ [] := List.ne_nil_of_length_pos (by omega)
    rw [decide_eq_true hnext]
    simp [hmore, List.take_take, hpos, hpos.ne', hrest]
  · have hnext : ¬ limit < min (limit + 1) rest.length := by omega
    have hall : rest.take (limit + 1) = rest.take limit := by
      rw [List.take_of_length_le (by omega), List.take_of_length_le (by omega)]
    simp [hnext, hmore, hall]

end Request

section Order

variable {collate : String → String → Ordering} {a b row : Row δ} {p : Row δ → Bool}
  {t start : Table δ} {all xs rest : List (Row δ)}

/-- Strictly earlier in the list: newer, or equally new with the greater id. -/
def Precedes (collate : String → String → Ordering) (a b : Row δ) : Prop :=
  orderCompare collate newestFirst a b = .lt

theorem orderCompare_newestFirst : orderCompare collate newestFirst a b =
    (compare b.createdAt a.createdAt).then (collate b.id a.id) := by
  simp [newestFirst, orderCompare, sortCompare, columnCompare, compareLex, Ordering.then_eq]

theorem precedes_of_newer (h : b.createdAt < a.createdAt) : Precedes collate a b := by
  rw [Precedes, orderCompare_newestFirst, compare_lt_iff_lt.mpr h]
  rfl

theorem InOrder.mem_iff (h : InOrder collate newestFirst p t all) :
    row ∈ all ↔ row ∈ t.rows ∧ p row = true := by
  rw [h.perm.mem_iff, List.mem_filter]

theorem orderCompare_eq [LawfulEqCmp collate]
    (h : orderCompare collate newestFirst a b = .eq) : a.id = b.id := by
  rw [orderCompare_newestFirst, Ordering.then_eq_eq] at h
  exact (LawfulEqCmp.eq_of_compare h.2).symm

theorem InOrder.ids (h : InOrder collate newestFirst p t all) : (all.map Row.id).Nodup := by
  have hsub : ((t.rows.filter p).map Row.id).Nodup :=
    t.unique.sublist (List.filter_sublist.map Row.id)
  exact (h.perm.map Row.id).nodup_iff.mpr hsub

/-- The ids decide between rows that are equally new. -/
theorem InOrder.strict [LawfulEqCmp collate] (h : InOrder collate newestFirst p t all) :
    all.Pairwise (Precedes collate) := by
  have hdistinct : all.Pairwise fun a b => a.id ≠ b.id := List.pairwise_map.mp h.ids
  refine (h.sorted.and hdistinct).imp ?_
  rintro a b ⟨hle, hne⟩
  cases horder : orderCompare collate newestFirst a b with
  | lt => exact horder
  | eq => exact (hne (orderCompare_eq horder)).elim
  | gt =>
    rw [horder] at hle
    cases hle

variable [TransCmp collate]

theorem not_isLE_of_precedes (h : Precedes collate a b) :
    ¬ (orderCompare collate newestFirst b a).isLE :=
  OrientedCmp.not_isLE_of_lt h

instance : Std.Irrefl (Precedes (δ := δ) collate) where
  irrefl _ h := OrientedCmp.not_lt_of_lt h h

instance : Std.Antisymm (Precedes (δ := δ) collate) where
  antisymm _ _ hab hba := (OrientedCmp.not_lt_of_lt hab hba).elim

variable [LawfulEqCmp collate] {whereClause : Option (δ → Bool)} {delegate : Delegate δ}
  {limit : ℕ}

/-- Whatever was inserted since, the rows from a cursor on are those that were behind it at the
start. -/
theorem found_eq {found : List (Row δ)} (hgrows : Grows start t)
    (hall : InOrder collate newestFirst p start (xs ++ row :: rest))
    (hfound : InOrder collate newestFirst
      (fun x => p x && (orderCompare collate newestFirst row x).isLE) t found) :
    found = row :: rest := by
  have hstrict := hall.strict
  obtain ⟨-, hfrom, hbefore⟩ := List.pairwise_append.mp hstrict
  have hrow : row ∈ start.rows := (hall.mem_iff.mp (by simp)).1
  refine hfound.strict.eq_of_mem_iff hfrom fun x => ?_
  rw [hfound.mem_iff, Bool.and_eq_true]
  constructor
  · rintro ⟨hx, hp, hle⟩
    by_cases hold : x ∈ start.rows
    · have hmem : x ∈ xs ++ row :: rest := hall.mem_iff.mpr ⟨hold, hp⟩
      rcases List.mem_append.mp hmem with hxs | hrest
      · exact (not_isLE_of_precedes (hbefore x hxs row (List.mem_cons_self)) hle).elim
      · exact hrest
    · have hnewer := hgrows.later x hx hold row hrow
      exact (not_isLE_of_precedes (precedes_of_newer hnewer) hle).elim
  · intro hx
    obtain ⟨hold, hp⟩ := hall.mem_iff.mp (List.mem_append_right xs hx)
    refine ⟨hgrows.kept x hold, hp, ?_⟩
    rcases List.mem_cons.mp hx with rfl | hrest
    · exact ReflCmp.isLE_rfl
    · exact Ordering.isLE_of_eq_lt ((List.pairwise_cons.mp hfrom).1 x hrest)

end Order

section Traversal

variable {all earlier rest : List (Row δ)} {row : Row δ} {limit : ℕ} {k' : Option String}

/-- What a client does with an answer: it puts its cursor into the next query and keeps its rows. -/
def nextCursor : Except PrismaError (Reply δ) → Option (Option String)
  | .ok (.page page) => page.nextCursor.map some
  | _ => none

def data : Except PrismaError (Reply δ) → List (Row δ)
  | .ok (.page page) => page.data
  | _ => []

/-- The rows that a cursor has still before it; all of them without one. -/
def behind (all : List (Row δ)) : Option String → List (Row δ)
  | none => all
  | some id => (all.dropWhile (·.id ≠ id)).tail

/-- The cursor is at one of the rows. -/
def Points (all : List (Row δ)) (cursor : Option String) : Prop :=
  ∃ earlier row rest, all = earlier ++ row :: rest ∧ cursor = some row.id

theorem behind_eq (hids : (all.map Row.id).Nodup) (hall : all = earlier ++ row :: rest) :
    behind all (some row.id) = rest := by
  subst hall
  have hpassed : ∀ x ∈ earlier, decide (x.id ≠ row.id) = true := by
    intro x hx
    rw [List.map_append, List.nodup_append] at hids
    exact decide_eq_true (hids.2.2 x.id (List.mem_map_of_mem hx) row.id (by simp))
  rw [behind, List.dropWhile_append_of_pos hpassed, List.dropWhile_cons_of_neg (by simp)]
  rfl

/-- A page takes the first rows of what it is about, and its cursor is at the last of them. -/
theorem page_splits (hids : (all.map Row.id).Nodup) (hlimit : 0 < limit)
    (hall : all = earlier ++ rest) :
    rest = data (.ok (.page (Page.ofRest rest limit))) ++
        (nextCursor (.ok (.page (Page.ofRest rest limit)))).elim [] (behind all) ∧
      ∀ k', nextCursor (.ok (.page (Page.ofRest rest limit))) = some k' →
        Points all k' ∧ (behind all k').length < rest.length := by
  by_cases hmore : limit < rest.length
  · have hnonempty : rest.take limit ≠ [] := List.ne_nil_of_length_pos (by simp; omega)
    obtain ⟨init, last, htake⟩ := (List.eq_nil_or_concat (rest.take limit)).resolve_left hnonempty
    rw [List.concat_eq_append] at htake
    have hsplit : all = (earlier ++ init) ++ last :: rest.drop limit := by
      rw [hall, List.append_assoc, ← List.singleton_append, ← List.append_assoc init, ← htake,
        List.take_append_drop]
    have hnext : nextCursor (.ok (.page (Page.ofRest rest limit))) = some (some last.id) := by
      simp [nextCursor, Page.ofRest, hmore, htake]
    have hbehind := behind_eq hids hsplit
    rw [hnext]
    refine ⟨?_, fun k' hk' => ?_⟩
    · change rest = rest.take limit ++ behind all (some last.id)
      rw [hbehind, List.take_append_drop]
    · cases hk'
      refine ⟨⟨_, last, _, hsplit, rfl⟩, ?_⟩
      rw [hbehind, List.length_drop]
      omega
  · have hnext : nextCursor (.ok (.page (Page.ofRest rest limit))) = none := by
      simp [nextCursor, Page.ofRest, hmore]
    rw [hnext]
    refine ⟨?_, fun k' hk' => by cases hk'⟩
    change rest = rest.take limit ++ []
    rw [List.append_nil, List.take_of_length_le (Nat.not_lt.mp hmore)]

/-- The reply is the page of what is behind the cursor. -/
def Continues (all : List (Row δ)) (cursor : Option String)
    (reply : Except PrismaError (Reply δ)) : Prop :=
  ∃ limit, 0 < limit ∧ reply = .ok (.page (Page.ofRest (behind all cursor) limit))

theorem continues_accounts (hids : (all.map Row.id).Nodup) :
    Accounts nextCursor data (Points all) (behind all) (fun cursor => (behind all cursor).length)
      (Continues all) where
  split := by
    rintro _ _ ⟨earlier, row, rest, hall, rfl⟩ ⟨limit, hlimit, rfl⟩
    have hbehind := behind_eq hids hall
    rw [List.append_cons, ← hbehind] at hall
    exact (page_splits hids hlimit hall).1
  smaller := by
    rintro _ _ k' ⟨earlier, row, rest, hall, rfl⟩ ⟨limit, hlimit, rfl⟩ hnext
    have hbehind := behind_eq hids hall
    rw [List.append_cons, ← hbehind] at hall
    exact (page_splits hids hlimit hall).2 k' hnext

/-- The requests of a client that follows the cursors: the `n`-th with the limit and the table of
its time. -/
def fetch (number : String → Option ℤ) (delegate : Delegate δ) (whereClause : Option (δ → Bool))
    (tables : ℕ → Table δ) (limits : ℕ → Option QueryValue) (n : ℕ) (cursor : Option String) :
    Except PrismaError (Reply δ) :=
  handlePaginatedList number delegate whereClause (tables n) ⟨limits n, cursor.map .text⟩

variable {collate : String → String → Ordering} {number : String → Option ℤ}
  {delegate : Delegate δ} {whereClause : Option (δ → Bool)} {tables : ℕ → Table δ}
  {limits : ℕ → Option QueryValue} {n : ℕ}

theorem parseLimit_fetch (cursor : Option QueryValue)
    (hlimits : parseLimit number ⟨limits n, none⟩ ≠ none) :
    ∃ limit, 0 < limit ∧ parseLimit number ⟨limits n, cursor⟩ = some limit := by
  obtain ⟨limit, hlimit⟩ := Option.ne_none_iff_exists'.mp hlimits
  exact ⟨limit, parseLimit_pos hlimit, hlimit⟩

theorem first_fetch (whereClause : Option (δ → Bool)) (tables : ℕ → Table δ)
    (hprisma : PrismaSemantics collate delegate)
    (hlimits : parseLimit number ⟨limits 0, none⟩ ≠ none) :
    ∃ all limit, InOrder collate newestFirst (matched whereClause) (tables 0) all ∧ 0 < limit ∧
      fetch number delegate whereClause tables limits 0 none =
        .ok (.page (Page.ofRest all limit)) := by
  obtain ⟨limit, hpos, hlimit⟩ := parseLimit_fetch none hlimits
  obtain ⟨all, hall, hrows⟩ := hprisma.first (tables 0)
    ⟨limit + 1, none, none, whereClause, newestFirst⟩ rfl
  exact ⟨all, limit, hall, hpos, handlePaginatedList_eq hlimit hrows⟩

variable [TransCmp collate] [LawfulEqCmp collate]

theorem continues_fetch (hprisma : PrismaSemantics collate delegate)
    (hgrows : Grows (tables 0) (tables n)) (hlimits : parseLimit number ⟨limits n, none⟩ ≠ none)
    (hall : InOrder collate newestFirst (matched whereClause) (tables 0) all)
    {cursor : Option String} (hcursor : Points all cursor) :
    Continues all cursor (fetch number delegate whereClause tables limits n cursor) := by
  obtain ⟨earlier, row, rest, rfl, rfl⟩ := hcursor
  have hrow : row ∈ (tables n).rows := hgrows.kept row (hall.mem_iff.mp (by simp)).1
  have hid : parseCursor ⟨limits n, some (.text row.id)⟩ = some row.id := by
    simp [parseCursor, QueryValue.firstText, (tables n).named row hrow]
  obtain ⟨limit, hpos, hlimit⟩ :=
    parseLimit_fetch (some (.text row.id)) hlimits
  obtain ⟨found, hfound, hrows⟩ := hprisma.atCursor (tables n)
    ⟨limit + 1, some 1, some row.id, whereClause, newestFirst⟩ row hrow rfl
  have hbehind : behind (earlier ++ row :: rest) (some row.id) = rest :=
    behind_eq hall.ids rfl
  rw [found_eq hgrows hall hfound] at hrows
  refine ⟨limit, hpos, ?_⟩
  rw [hbehind]
  exact handlePaginatedList_eq hlimit (by rw [Option.map_some, hid]; exact hrows)

/-- The traversal ends after pages only, and these list the rows that matched at the start, each
once and in order. -/
theorem pages_complete (hprisma : PrismaSemantics collate delegate)
    (hgrows : ∀ n, Grows (tables 0) (tables n))
    (hlimits : ∀ n, parseLimit number ⟨limits n, none⟩ ≠ none) :
    ∃ fuel, ∃ pages : List (Page δ),
      follow nextCursor fuel (fetch number delegate whereClause tables limits) none =
          some (pages.map fun page => .ok (.page page)) ∧
        InOrder collate newestFirst (matched whereClause) (tables 0)
          (pages.flatMap Page.data) := by
  obtain ⟨all, limit, hall, hlimit, hfirst⟩ := first_fetch whereClause tables hprisma (hlimits 0)
  obtain ⟨hsplit, hnext⟩ := page_splits hall.ids hlimit (List.nil_append all).symm
  rw [← hfirst] at hsplit hnext
  obtain ⟨fuel, replies, hreplies, hdata, hmet⟩ :=
    exists_follow (continues_accounts hall.ids) hsplit (fun k hk => (hnext k hk).1)
      fun n k hk => continues_fetch hprisma (hgrows (n + 1)) (hlimits (n + 1)) hall hk
  have hpages : replies ∈ Set.range (List.map fun page : Page δ => Except.ok (.page page)) := by
    rw [Set.range_list_map]
    intro reply hreply
    rcases hmet reply hreply with rfl | ⟨k, limit, -, rfl⟩
    · exact ⟨_, hfirst.symm⟩
    · exact ⟨_, rfl⟩
  obtain ⟨pages, rfl⟩ := hpages
  rw [List.flatMap_map] at hdata
  have hwhole : pages.flatMap Page.data = all := hdata
  rw [← hwhole] at hall
  exact ⟨fuel, pages, hreplies, hall⟩

end Traversal

/-- A delegate that sorts the rows on every read, the ids by their code points. -/
def sortedRead : Delegate δ := fun t args =>
  let read (p : Row δ → Bool) : List (Row δ) :=
    (((t.rows.filter p).mergeSort fun a b => (orderCompare compare args.orderBy a b).isLE).drop
      (args.skip.getD 0)).take args.take
  match args.cursor with
  | none => .ok (read (matched args.whereClause))
  | some id =>
    match t.rows.find? (·.id = id) with
    | none => .error ⟨some "P2025"⟩
    | some row => .ok (read fun x =>
        matched args.whereClause x && (orderCompare compare args.orderBy row x).isLE)

theorem inOrder_mergeSort {orderBy : List (Column × SortOrder)} {p : Row δ → Bool} {t : Table δ} :
    InOrder compare orderBy p t
      ((t.rows.filter p).mergeSort fun a b => (orderCompare compare orderBy a b).isLE) where
  perm := List.mergeSort_perm _ _
  sorted := by
    refine List.pairwise_mergeSort (fun _ _ _ => TransCmp.isLE_trans) (fun a b => ?_) _
    have hswap : orderCompare compare orderBy b a = _ := OrientedCmp.eq_swap
    rw [hswap]
    cases orderCompare compare orderBy a b <;> rfl

theorem prismaSemantics_sortedRead : PrismaSemantics compare (sortedRead (δ := δ)) where
  first t args hcursor := ⟨_, inOrder_mergeSort, by rw [sortedRead, hcursor]⟩
  atCursor t args row hrow hcursor := by
    have hfind : t.rows.find? (·.id = row.id) = some row := by
      have hfound : (t.rows.find? (·.id = row.id)).isSome := by
        rw [List.find?_isSome]
        exact ⟨row, hrow, decide_eq_true rfl⟩
      obtain ⟨other, hother⟩ := Option.isSome_iff_exists.mp hfound
      have hid : other.id = row.id := by simpa using List.find?_some hother
      rw [hother, List.inj_on_of_nodup_map t.unique (List.mem_of_find?_eq_some hother) hrow hid]
    exact ⟨_, inOrder_mergeSort, by rw [sortedRead, hcursor]; simp only [hfind]⟩

/-- `Number` on decimal digits. -/
def decimal (value : String) : Option ℤ :=
  if value ≠ "" ∧ value.toList.all Char.isDigit then
    some (value.toList.foldl (fun (n : ℤ) c => 10 * n + (c.toNat - '0'.toNat)) 0)
  else none

/-- Mints with their ledgers, three of them equally new. -/
def mintsAtStart : Table ℕ where
  rows := [⟨"a", 10, 5⟩, ⟨"b", 20, 3⟩, ⟨"c", 20, 6⟩, ⟨"d", 20, 7⟩]
  unique := by decide
  named := by decide

/-- One more arrives after the first page. -/
def mintsAfter : Table ℕ where
  rows := ⟨"e", 30, 8⟩ :: mintsAtStart.rows
  unique := by decide
  named := by decide

theorem mintsFromFive_complete :
    ∃ fuel, ∃ pages : List (Page ℕ),
      follow nextCursor fuel (fetch decimal sortedRead (some (5 ≤ ·))
          (fun n => if n = 0 then mintsAtStart else mintsAfter)
          (fun n => if n = 0 then some (.text "1") else none)) none =
          some (pages.map fun page => .ok (.page page)) ∧
        InOrder compare newestFirst (matched (some (5 ≤ ·))) mintsAtStart
          (pages.flatMap Page.data) := by
  have hgrows : ∀ n : ℕ, Grows mintsAtStart (if n = 0 then mintsAtStart else mintsAfter) := by
    intro n
    by_cases hn : n = 0
    · rw [if_pos hn]
      exact ⟨fun row h => h, fun row h hnew => (hnew h).elim⟩
    · rw [if_neg hn]
      exact ⟨fun row h => List.mem_cons_of_mem _ h, by decide⟩
  refine pages_complete prismaSemantics_sortedRead hgrows fun n => ?_
  by_cases hn : n = 0
  · rw [if_pos hn]
    decide +kernel
  · rw [if_neg hn]
    decide +kernel

end BcForge.Indexer.Api
