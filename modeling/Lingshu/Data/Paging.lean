import Lingshu.Data.Sql
import Lingshu.Relation.Paging

/-! # Pages of a query

What the pages of one query show together, when each is a query of its own. The database returns rows that tie under
`ORDER BY` in any order, and in another one for every page. -/
namespace Lingshu.Data
open Json
open Sql (Dialect)
set_option autoImplicit false

/-- The values of a column are ordered. -/
structure Postgres.Ordered (db : Postgres) : Prop where
  total : ∀ a b, db.le a b ∨ db.le b a
  trans : ∀ a b c, db.le a b → db.le b c → db.le a c

/-- The statements that neither the connector nor the database refuses; `IN ()` is none of Doris'. -/
structure Accepted (dialect : Dialect) (t : Table) (tablePath : String) (columns : List String) (filters : List Filter)
    (sort : List SortSpec) : Prop where
  path : safeIdentifier tablePath
  selected : ∀ c ∈ columns, safeIdentifier c ∧ c ∈ t.columns
  filtered : ∀ f ∈ filters, f.field ∈ t.columns
  sorted : ∀ s ∈ sort, safeIdentifier s.field ∧ s.field ∈ t.columns
  members : dialect = .doris → ∀ f ∈ filters, f.operator = .in → f.value ≠ .list []

def matching (db : Postgres) (t : Table) (filters : List Filter) : List Row := t.rows.filter (holds db filters)

/-- `execute_query` may return the rows: those of a page, in some order that respects `ORDER BY`. -/
structure Answers (dialect : Dialect) (db : Postgres) (t : Table) (tablePath : String) (columns : List String)
    (filters : List Filter) (sort : List SortSpec) (offset limit : ℕ) (rows : List Row) : Prop where
  accepted : Accepted dialect t tablePath columns filters sort
  rows : ∃ l, Paging.Sorted (rowLe db (orderClause t columns sort)) (matching db t filters) l ∧
    rows = ((l.drop offset).take limit).map (project (selectList t columns))

/-- The pages up to the last, put together, are the matching rows. -/
def PagesPartition (dialect : Dialect) (db : Postgres) (t : Table) (tablePath : String) (columns : List String)
    (filters : List Filter) (sort : List SortSpec) (limit : ℕ) : Prop :=
  ∀ n results, (matching db t filters).length ≤ n * limit →
    (∀ k < n, Answers dialect db t tablePath columns filters sort (k * limit) limit (results k)) →
    ((List.range n).map results).flatten.Perm ((matching db t filters).map (project (selectList t columns)))

section Order
variable {db : Postgres}

/-- One sort field. -/
def columnLe (db : Postgres) (s : SortSpec) (a b : Row) : Bool :=
  match s.order with
  | .asc => db.le (field a s.field) (field b s.field)
  | .desc => db.le (field b s.field) (field a s.field)

theorem rowLe_cons (s : SortSpec) (sort : List SortSpec) (a b : Row) :
    rowLe db (s :: sort) a b = true ↔
      columnLe db s a b = true ∧ (columnLe db s b a = true → rowLe db sort a b = true) := by
  have heq : rowLe db (s :: sort) a b =
      if columnLe db s a b && columnLe db s b a then rowLe db sort a b else columnLe db s a b := by
    unfold columnLe
    cases hs : s.order <;> simp only [rowLe, hs]
  rw [heq]
  cases columnLe db s a b <;> cases columnLe db s b a <;> simp

variable (h : db.Ordered)
include h

theorem columnLe_total (s : SortSpec) (a b : Row) : columnLe db s a b ∨ columnLe db s b a := by
  unfold columnLe
  cases s.order with
  | asc => exact h.total ..
  | desc => exact h.total ..

theorem columnLe_trans (s : SortSpec) (a b c : Row) (hab : columnLe db s a b) (hbc : columnLe db s b c) :
    columnLe db s a c := by
  unfold columnLe at *
  cases hs : s.order with
  | asc =>
    rw [hs] at hab hbc
    exact h.trans _ _ _ hab hbc
  | desc =>
    rw [hs] at hab hbc
    exact h.trans _ _ _ hbc hab

theorem rowLe_total (sort : List SortSpec) (a b : Row) : rowLe db sort a b ∨ rowLe db sort b a := by
  induction sort with
  | nil => exact .inl rfl
  | cons s sort ih =>
    rw [rowLe_cons, rowLe_cons]
    by_cases hab : columnLe db s a b = true
    · by_cases hba : columnLe db s b a = true
      · exact ih.imp (fun hrest => ⟨hab, fun _ => hrest⟩) fun hrest => ⟨hba, fun _ => hrest⟩
      · exact .inl ⟨hab, fun hba' => absurd hba' hba⟩
    · exact .inr ⟨(columnLe_total h s a b).resolve_left hab, fun hab' => absurd hab' hab⟩

theorem rowLe_trans (sort : List SortSpec) (a b c : Row) (hab : rowLe db sort a b) (hbc : rowLe db sort b c) :
    rowLe db sort a c := by
  induction sort with
  | nil => rfl
  | cons s sort ih =>
    rw [rowLe_cons] at hab hbc ⊢
    refine ⟨columnLe_trans h s a b c hab.1 hbc.1, fun hca => ih (hab.2 ?_) (hbc.2 ?_)⟩
    · exact columnLe_trans h s b c a hbc.1 hca
    · exact columnLe_trans h s c a b hca hab.1

/-- The query that was modelled with a fixed order is one of those that may be answered. -/
theorem answers_of_executeQuery {tables : String → Option Table} {tablePath : String} {columns : List String}
    {filters : List Filter} {sort : List SortSpec} {offset limit : ℕ} {result : QueryResult}
    (hquery : executeQuery db tables tablePath columns filters sort offset limit = .ok result) :
    ∃ t, tables tablePath = some t ∧
      Answers .postgresql db t tablePath columns filters sort offset limit result.rows := by
  unfold executeQuery at hquery
  simp only [bind_ok_iff, validateIdentifiers_ok_iff, openTable_ok_iff, exists_const, List.forall_mem_singleton] at hquery
  obtain ⟨hpath, hcolumns, hsort, t, ⟨htable, hopen⟩, hresult⟩ := hquery
  obtain rfl := Except.ok.inj hresult
  have hmem : ∀ c, c ∈ columns ∨ c ∈ filters.map Filter.field ∨ c ∈ sort.map SortSpec.field → c ∈ t.columns := by
    intro c hc
    refine hopen c ?_
    rwa [List.append_assoc, List.mem_append, List.mem_append]
  have hordered : ∀ clause, Std.Total fun a b => rowLe db clause a b = true := fun clause => ⟨rowLe_total h clause⟩
  have htransitive : ∀ clause, IsTrans Row fun a b => rowLe db clause a b = true := fun clause => ⟨rowLe_trans h clause⟩
  refine ⟨t, htable, ⟨hpath, fun c hc => ⟨hcolumns c hc, hmem c (.inl hc)⟩, fun f hf => ?_, fun s hs => ?_, nofun⟩,
    _, ⟨List.perm_insertionSort .., List.pairwise_insertionSort ..⟩, rfl⟩
  · exact hmem _ (.inr (.inl (List.mem_map_of_mem hf)))
  · exact ⟨hsort _ (List.mem_map_of_mem hs), hmem _ (.inr (.inr (List.mem_map_of_mem hs)))⟩

end Order

/-! ## Pages put together -/

section Pages
variable {dialect : Dialect} {db : Postgres} {t : Table} {tablePath : String} {columns : List String}
  {filters : List Filter} {sort : List SortSpec} {limit : ℕ}

theorem pagesPartition_of_uniform (hdb : db.Ordered)
    (h : ∀ k, Paging.UniformAt (rowLe db (orderClause t columns sort)) (project (selectList t columns))
      (matching db t filters) (k * limit)) :
    PagesPartition dialect db t tablePath columns filters sort limit := by
  intro n results hlength hanswers
  exact Paging.results_perm (rowLe_total hdb _) (rowLe_trans hdb _) hlength (fun k hk => (hanswers k hk).rows) h

theorem uniform_of_pagesPartition (hdb : db.Ordered) (hlimit : 0 < limit)
    (haccepted : Accepted dialect t tablePath columns filters sort)
    (h : PagesPartition dialect db t tablePath columns filters sort limit) (k : ℕ) :
    Paging.UniformAt (rowLe db (orderClause t columns sort)) (project (selectList t columns))
      (matching db t filters) (k * limit) := by
  refine Paging.uniformAt_of_results (rowLe_total hdb _) (rowLe_trans hdb _) hlimit (fun n results hlength hresults => ?_) k
  exact h n results hlength fun j hj => ⟨haccepted, hresults j hj⟩

end Pages

/-- No class of tied rows that show different columns goes over the end of a page. -/
theorem pagesPartition_iff {dialect : Dialect} {db : Postgres} {t : Table} {tablePath : String} {columns : List String}
    {filters : List Filter} {sort : List SortSpec} {limit : ℕ} (hdb : db.Ordered) (hlimit : 0 < limit) :
    PagesPartition dialect db t tablePath columns filters sort limit ↔
      ¬ Accepted dialect t tablePath columns filters sort ∨
      ∀ k, Paging.UniformAt (rowLe db (orderClause t columns sort)) (project (selectList t columns))
        (matching db t filters) (k * limit) := by
  constructor
  · intro h
    by_cases haccepted : Accepted dialect t tablePath columns filters sort
    · exact .inr (uniform_of_pagesPartition hdb hlimit haccepted h)
    · exact .inl haccepted
  · rintro (hrefused | huniform)
    · intro n results hlength hanswers
      cases n with
      | zero =>
        have hnone : matching db t filters = [] := List.eq_nil_of_length_eq_zero (by omega)
        rw [hnone]
        exact .refl _
      | succ n => exact absurd (hanswers 0 (by omega)).accepted hrefused
    · exact pagesPartition_of_uniform hdb huniform

def integerOf : Value → ℤ
  | .int i => i
  | _ => 0

/-- A database with integers only. -/
def Postgres.integers : Postgres where
  test _ a b := a = b
  le a b := integerOf a ≤ integerOf b

theorem Postgres.integers_ordered : Postgres.integers.Ordered := by
  constructor
  · intro a b
    simpa [Postgres.integers] using le_total (integerOf a) (integerOf b)
  · intro a b c hab hbc
    simp only [Postgres.integers, decide_eq_true_eq] at *
    exact hab.trans hbc

/-- Two robots in one city. -/
def cityTable : Table := ⟨["city", "id"], [[("city", .int 1), ("id", .int 1)], [("city", .int 1), ("id", .int 2)]]⟩

theorem pagesPartition_by_id :
    PagesPartition .doris .integers cityTable "robots" ["city", "id"] [] [⟨"id", .asc⟩] 1 := by
  have hdistinct : ∀ a ∈ matching .integers cityTable [], ∀ b ∈ matching .integers cityTable [],
      rowLe .integers [⟨"id", .asc⟩] a b → rowLe .integers [⟨"id", .asc⟩] b a →
        project ["city", "id"] a = project ["city", "id"] b := by decide
  exact (pagesPartition_iff Postgres.integers_ordered (by decide)).mpr
    (.inr fun k a ha b hb hab hba _ => hdistinct a ha b hb hab hba)

/-- Without a sort the first column decides, and the second page may begin again. -/
theorem page_repeats : ¬ PagesPartition .postgresql .integers cityTable "robots" ["city", "id"] [] [] 1 := by
  intro h
  have haccepted : Accepted .postgresql cityTable "robots" ["city", "id"] [] [] :=
    ⟨by decide, by decide, nofun, nofun, fun _ => nofun⟩
  have hpages := h 2 (fun _ => [[("city", .int 1), ("id", .int 1)]]) (by decide) fun k hk => by
    refine ⟨haccepted, ?_⟩
    match k, hk with
    | 0, _ => exact ⟨cityTable.rows, ⟨.refl _, by decide⟩, rfl⟩
    | 1, _ => exact ⟨cityTable.rows.reverse, ⟨List.reverse_perm _, by decide⟩, rfl⟩
  exact absurd hpages (by decide)

end Lingshu.Data
