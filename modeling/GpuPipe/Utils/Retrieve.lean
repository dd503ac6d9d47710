import Mathlib.Data.Nat.Notation
import Mathlib.Data.List.Infix
import Mathlib.Tactic.TypeStar

/-!
# A table read page by page

`RetrieveSQL` is a root worker: every call asks the database for the next page of its query, and the
call that comes to the counted end counts again and then starts over or returns `End`. The database and
`str.upper` are parameters.
-/

namespace GpuPipe.Utils

inductive Sql
  | plain (query : String)
  /-- `{query} LIMIT {limit} OFFSET {offset}` -/
  | page (query : String) (limit offset : ℕ)
  /-- `{query} ORDER BY RANDOM() LIMIT {limit} OFFSET {offset}` -/
  | shuffled (query : String) (limit offset : ℕ)

/-- `data.db`: the rows of a query, and the `count` of the first row that
`SELECT COUNT(*) as count FROM ({query}) as subquery` has. -/
structure Database (Row : Type*) where
  query : Sql → List Row
  count : String → Option ℕ

structure RetrieveSQL where
  offset : ℕ
  chunkSize : ℕ
  baseQuery : String
  query : String
  skipCount : Bool
  count : ℕ

inductive Answer (Row : Type*)
  | items (rows : List Row)
  | ended

section Calls

variable {Row : Type*} (upper : String → String) (db : Database Row)

def ordersBy (query : String) : Prop := "ORDER BY".toList <:+: (upper query).toList

instance (query : String) : Decidable (ordersBy upper query) :=
  inferInstanceAs (Decidable ("ORDER BY".toList <:+: (upper query).toList))

def getTotalCount (baseQuery : String) : ℕ := (db.count baseQuery).getD 0

namespace RetrieveSQL

def new (query : String) (chunkSize : ℕ) (skipCount : Bool) : RetrieveSQL where
  offset := 0
  chunkSize := chunkSize
  baseQuery := query
  query := query
  skipCount := skipCount
  count := if skipCount then 0 else getTotalCount db query

variable (worker : RetrieveSQL)

def fetch : List Row :=
  if ordersBy upper worker.query then db.query (.page worker.query worker.chunkSize worker.offset)
  else db.query (.shuffled worker.query worker.chunkSize worker.offset)

def call : Answer Row × RetrieveSQL :=
  if worker.skipCount then
    let items := db.query (.plain worker.query)
    if items.length = 0 then (.ended, worker) else (.items items, worker)
  else
    let items := worker.fetch upper db
    let worker := { worker with offset := worker.offset + items.length }
    if items.length = 0 ∨ worker.count ≤ worker.offset then
      let updatedCount := getTotalCount db worker.baseQuery
      if worker.count < updatedCount then
        (.items items, { worker with count := updatedCount, offset := 0 })
      else (.ended, worker)
    else (.items items, worker)

/-- The lists that successive calls return before the first `End`, put together, if one of the first
`calls` of them returns it. -/
def collect : ℕ → RetrieveSQL → Option (List Row)
  | 0, _ => none
  | calls + 1, worker =>
    match worker.call upper db with
    | (.ended, _) => some []
    | (.items rows, worker) => (collect calls worker).map (rows ++ ·)

end RetrieveSQL

end Calls

section Paging

variable {Row : Type*} {upper : String → String} {db : Database Row} {query : String} {rows : List Row}
  {worker : RetrieveSQL}

/-- The database has these rows for this query, in this order. -/
structure Serves (db : Database Row) (query : String) (rows : List Row) : Prop where
  page : ∀ limit offset, db.query (.page query limit offset) = (rows.drop offset).take limit
  count : db.count query = some rows.length

/-- The worker has delivered everything before its offset. -/
structure Paging (query : String) (rows : List Row) (worker : RetrieveSQL) : Prop where
  baseQuery : worker.baseQuery = query
  query : worker.query = query
  skipCount : worker.skipCount = false
  count : worker.count = rows.length

theorem Serves.getTotalCount (h : Serves db query rows) : getTotalCount db query = rows.length := by
  rw [Utils.getTotalCount, h.count, Option.getD_some]

theorem Paging.new (h : Serves db query rows) (chunkSize : ℕ) :
    Paging query rows (.new db query chunkSize false) :=
  ⟨rfl, rfl, rfl, h.getTotalCount⟩

/-- A page begins where the last one ended. -/
theorem Paging.fetch (h : Paging query rows worker) (hserves : Serves db query rows)
    (hordered : ordersBy upper query) :
    worker.fetch upper db = (rows.drop worker.offset).take worker.chunkSize := by
  rw [RetrieveSQL.fetch, h.query, if_pos hordered, hserves.page]

/-- A page that stops short of the end is returned. -/
theorem Paging.call_page (h : Paging query rows worker) (hserves : Serves db query rows)
    (hordered : ordersBy upper query) (hchunk : 0 < worker.chunkSize)
    (hmore : worker.offset + worker.chunkSize < rows.length) :
    worker.call upper db = (.items ((rows.drop worker.offset).take worker.chunkSize),
      { worker with offset := worker.offset + worker.chunkSize }) := by
  have hlength : ((rows.drop worker.offset).take worker.chunkSize).length = worker.chunkSize := by
    rw [List.length_take, List.length_drop]
    omega
  have hcount : ¬ (worker.chunkSize = 0 ∨ worker.count ≤ worker.offset + worker.chunkSize) := by
    rw [h.count]
    omega
  simp only [RetrieveSQL.call, h.skipCount, h.fetch hserves hordered, hlength, if_neg hcount,
    Bool.false_eq_true, if_false]

/-- The page that comes to the end is not returned: `End` is. -/
theorem Paging.call_last (h : Paging query rows worker) (hserves : Serves db query rows)
    (hordered : ordersBy upper query)
    (hlast : worker.chunkSize = 0 ∨ rows.length ≤ worker.offset + worker.chunkSize) :
    (worker.call upper db).1 = .ended := by
  have hdone : ((rows.drop worker.offset).take worker.chunkSize).length = 0 ∨
      worker.count ≤ worker.offset + ((rows.drop worker.offset).take worker.chunkSize).length := by
    rw [h.count, List.length_take, List.length_drop]
    omega
  have hsame : ¬ worker.count < getTotalCount db worker.baseQuery := by
    rw [h.baseQuery, hserves.getTotalCount, h.count]
    exact lt_irrefl _
  simp only [RetrieveSQL.call, h.skipCount, h.fetch hserves hordered, if_pos hdone, if_neg hsame,
    Bool.false_eq_true, if_false]

/-- With `pages` whole pages before the last one, these are what the calls return. The induction is on
the pages still to come. -/
theorem Paging.collect (h : Paging query rows worker) (hserves : Serves db query rows)
    (hordered : ordersBy upper query) (pages : ℕ)
    (hbefore : 0 < pages → worker.offset + pages * worker.chunkSize < rows.length)
    (hlast : worker.chunkSize = 0 ∧ pages = 0 ∨
      rows.length ≤ worker.offset + (pages + 1) * worker.chunkSize) :
    RetrieveSQL.collect upper db (pages + 1) worker =
      some ((rows.drop worker.offset).take (pages * worker.chunkSize)) := by
  induction pages generalizing worker with
  | zero =>
    have hended : (worker.call upper db).1 = .ended := by
      apply h.call_last hserves hordered
      omega
    rw [RetrieveSQL.collect]
    split
    · simp
    · rename_i hcall
      rw [hcall] at hended
      cases hended
  | succ pages ih =>
    have hbefore := hbefore (Nat.succ_pos pages)
    have hmul : (pages + 1) * worker.chunkSize = worker.chunkSize + pages * worker.chunkSize := by
      rw [Nat.succ_mul, Nat.add_comm]
    have hchunk : 0 < worker.chunkSize := by
      rcases hlast with ⟨-, hnone⟩ | hlast
      · cases hnone
      · rw [Nat.succ_mul] at hlast
        omega
    have hnext : Paging query rows { worker with offset := worker.offset + worker.chunkSize } :=
      ⟨h.baseQuery, h.query, h.skipCount, h.count⟩
    have hrest := ih hnext (fun _ ↦ by dsimp only; omega)
      (.inr (by dsimp only; rw [Nat.succ_mul] at hlast; omega))
    have hmore : worker.offset + worker.chunkSize < rows.length := by omega
    rw [RetrieveSQL.collect, h.call_page hserves hordered hchunk hmore]
    dsimp only
    rw [hrest, Option.map_some, hmul, List.take_add, List.drop_drop]

theorem collect_add {calls : ℕ} {delivered : List Row} (more : ℕ)
    (h : RetrieveSQL.collect upper db calls worker = some delivered) :
    RetrieveSQL.collect upper db (calls + more) worker = some delivered := by
  induction calls generalizing worker delivered with
  | zero => cases h
  | succ calls ih =>
    rw [Nat.succ_add]
    rw [RetrieveSQL.collect] at h ⊢
    split
    · rename_i hcall
      rw [hcall] at h
      exact h
    · rename_i rows next hcall
      rw [hcall] at h
      obtain ⟨rest, hrest, rfl⟩ := Option.map_eq_some_iff.mp h
      rw [ih hrest, Option.map_some]

/-- The first `End` is where it is, however many calls one looks at. -/
theorem collect_unique {calls calls' : ℕ} {delivered delivered' : List Row}
    (h : RetrieveSQL.collect upper db calls worker = some delivered)
    (h' : RetrieveSQL.collect upper db calls' worker = some delivered') : delivered = delivered' := by
  have hmore := collect_add calls' h
  have hmore' := collect_add calls h'
  rw [Nat.add_comm, hmore', Option.some.injEq] at hmore
  exact hmore.symm

/-- What is delivered: every page but the last one. -/
theorem collect_new (hserves : Serves db query rows) (hordered : ordersBy upper query) (chunkSize : ℕ) :
    RetrieveSQL.collect upper db ((rows.length - 1) / chunkSize + 1) (.new db query chunkSize false) =
      some (rows.take ((rows.length - 1) / chunkSize * chunkSize)) := by
  have hdiv : (rows.length - 1) / chunkSize * chunkSize ≤ rows.length - 1 := Nat.div_mul_le_self _ _
  have hpaging := Paging.new hserves chunkSize
  apply hpaging.collect hserves hordered
  · intro hpages
    have hpos : 0 < rows.length - 1 := by
      by_contra hnone
      rw [Nat.eq_zero_of_not_pos hnone, Nat.zero_div] at hpages
      exact hpages.ne rfl
    show 0 + (rows.length - 1) / chunkSize * chunkSize < rows.length
    omega
  · rcases Nat.eq_zero_or_pos chunkSize with rfl | hchunk
    · exact .inl ⟨rfl, Nat.div_zero _⟩
    · have hlt := Nat.lt_div_mul_add (a := rows.length - 1) hchunk
      right
      show rows.length ≤ 0 + ((rows.length - 1) / chunkSize + 1) * chunkSize
      rw [Nat.succ_mul]
      omega

/-- Only an empty table is delivered whole: the last page of any other is fetched and dropped. -/
theorem collect_all_iff (hserves : Serves db query rows) (hordered : ordersBy upper query)
    (chunkSize : ℕ) :
    (∃ calls, RetrieveSQL.collect upper db calls (.new db query chunkSize false) = some rows) ↔
      rows = [] := by
  have hnew := collect_new hserves hordered chunkSize
  have hdiv : (rows.length - 1) / chunkSize * chunkSize ≤ rows.length - 1 := Nat.div_mul_le_self _ _
  constructor
  · rintro ⟨calls, hall⟩
    have hlength := congrArg List.length (collect_unique hall hnew)
    rw [List.length_take] at hlength
    apply List.eq_nil_of_length_eq_zero
    omega
  · rintro rfl
    exact ⟨_, by simpa using hnew⟩

def table (rows : List Row) : Database Row where
  query
    | .plain _ => rows
    | .page _ limit offset => (rows.drop offset).take limit
    | .shuffled _ limit offset => (rows.drop offset).take limit
  count _ := some rows.length

theorem serves_table (query : String) (rows : List Row) : Serves (table rows) query rows :=
  ⟨fun _ _ ↦ rfl, rfl⟩

/-- An empty table gives nothing, which is all of it. -/
theorem collect_all_iff_empty :
    (∃ calls, RetrieveSQL.collect String.toUpper (table ([] : List ℕ)) calls
      (.new (table ([] : List ℕ)) "SELECT id FROM clips order by id" 20 false) = some []) ↔ ([] : List ℕ) = [] :=
  collect_all_iff (serves_table _ _) (by decide +kernel) 20

/-- A table of one row is over before the row is delivered. -/
theorem not_collect_all :
    Serves (table [7]) "SELECT id FROM clips order by id" [7] ∧
    ordersBy String.toUpper "SELECT id FROM clips order by id" ∧
    ¬ ∃ calls, RetrieveSQL.collect String.toUpper (table [7]) calls
      (.new (table [7]) "SELECT id FROM clips order by id" 20 false) = some [7] := by
  have hended : RetrieveSQL.collect String.toUpper (table [7]) 1
      (.new (table [7]) "SELECT id FROM clips order by id" 20 false) = some [] := by decide +kernel
  refine ⟨serves_table _ _, by decide +kernel, ?_⟩
  rintro ⟨calls, hall⟩
  exact absurd (collect_unique hall hended) (by decide)

end Paging

end GpuPipe.Utils
