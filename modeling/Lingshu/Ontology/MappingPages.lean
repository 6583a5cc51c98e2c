import Lingshu.Ontology.Reads
import Lingshu.Relation.Paging
import Mathlib.Data.String.Basic

/-! # Pages of asset mappings

What the pages of `query_all_asset_mappings` show together. Each page reads at most 1000 nodes of each label, and the
database returns nodes that were created at the same time in any order, and in another one for every page. -/
namespace Lingshu.Ontology
open Json Paging
set_option autoImplicit false

/-! ## Answers -/

/-- The Active nodes of a label that match the search. -/
def matching (g : Graph) (tenantId : String) (search : Option String) (label : Label) : List Node :=
  g.nodes.filter fun n => decide (n.label = label) && n.ofTenant tenantId && n.active && matchesSearch search n

/-- `ORDER BY n.created_at DESC`. -/
def newer (a b : Node) : Bool := decide (strOf (b.props .createdAt) ≤ strOf (a.props .createdAt))

def hasMapping (n : Node) : Bool := truthy (deserializeFromNeo4j n.props .assetMapping)

def mappingEntry (n : Node) : MappingEntry :=
  let data := deserializeFromNeo4j n.props
  ⟨getDefault data .rid (.str ""), getDefault data .apiName (.str ""), getDefault data .displayName (.str ""),
    data .assetMapping, if (strOf (data .rid)).startsWith "ri.obj." then .objectType else .linkType⟩

/-- The results, before they are cut to a page. -/
def mappings (objects links : List Node) : List Node := (objects.take 1000 ++ links.take 1000).filter hasMapping

/-- `query_all_asset_mappings` may return the page and the total. -/
structure AnswersMappings (g : Graph) (tenantId : String) (search : Option String) (offset limit : ℕ)
    (answer : List MappingEntry × ℕ) : Prop where
  orders : ∃ objects links, Sorted newer (matching g tenantId search .objectType) objects ∧
    Sorted newer (matching g tenantId search .linkType) links ∧
    answer = (Ontology.page offset limit ((mappings objects links).map mappingEntry), (mappings objects links).length)

theorem newer_total (a b : Node) : newer a b ∨ newer b a := by
  simp only [newer, decide_eq_true_eq]
  exact le_total (strOf (b.props .createdAt)) (strOf (a.props .createdAt))

theorem newer_trans (a b c : Node) (hab : newer a b) (hbc : newer b c) : newer a c := by
  simp only [newer, decide_eq_true_eq] at *
  exact le_trans hbc hab

/-- What the read returns in the model with a fixed order is one of the answers. -/
theorem answersMappings_queryAll (g : Graph) (tenantId : String) (search : Option String) (offset limit : ℕ) :
    AnswersMappings g tenantId search offset limit (queryAllAssetMappings g tenantId search offset limit) := by
  have hresults : ∀ nodes : List Node, (nodes.filterMap fun node =>
      if truthy (deserializeFromNeo4j node.props .assetMapping) then some (mappingEntry node) else none) =
        (nodes.filter hasMapping).map mappingEntry := by
    intro nodes
    induction nodes with
    | nil => rfl
    | cons n nodes ih =>
      rw [List.filterMap_cons, ih, List.filter_cons, hasMapping]
      cases truthy (deserializeFromNeo4j n.props .assetMapping) <;> rfl
  refine ⟨newestFirst (matching g tenantId search .objectType), newestFirst (matching g tenantId search .linkType),
    sorted_mergeSort newer_total newer_trans _, sorted_mergeSort newer_total newer_trans _, ?_⟩
  exact Prod.ext (congrArg (Ontology.page offset limit) (hresults _))
    ((congrArg List.length (hresults _)).trans (List.length_map _))

/-- The Active ObjectTypes and LinkTypes that have an asset mapping and match the search. -/
def mapped (g : Graph) (tenantId : String) (search : Option String) : List Node :=
  (matching g tenantId search .objectType).filter hasMapping ++ (matching g tenantId search .linkType).filter hasMapping

/-- What is asked of the pages: each reports how many mappings there are, and together they are all of them. -/
structure PagesComplete (g : Graph) (tenantId : String) (search : Option String) (limit : ℕ) : Prop where
  total : ∀ offset answer, AnswersMappings g tenantId search offset limit answer →
    answer.2 = (mapped g tenantId search).length
  pages : ∀ n (answers : ℕ → List MappingEntry × ℕ), (mapped g tenantId search).length ≤ n * limit →
    (∀ k < n, AnswersMappings g tenantId search (k * limit) limit (answers k)) →
    ((List.range n).map fun k => (answers k).1).flatten.Perm ((mapped g tenantId search).map mappingEntry)

/-- A node with a mapping has at most 1000 nodes of its label created no earlier. -/
def WithinBound (g : Graph) (tenantId : String) (search : Option String) (label : Label) : Prop :=
  ∀ n ∈ matching g tenantId search label, hasMapping n = true → upTo newer (matching g tenantId search label) n ≤ 1000

def isObjectType (n : Node) : Bool := decide (n.label = .objectType)

/-- Mappings of one label that were created at the same time do not lie on both sides of the end of a page. -/
def UncutPages (g : Graph) (tenantId : String) (search : Option String) (limit : ℕ) : Prop :=
  ∀ k, UniformAt (firstOf isObjectType newer) mappingEntry (mapped g tenantId search) (k * limit)

/-! ## One answer -/

section OneAnswer
variable {g : Graph} {tenantId : String} {search : Option String} {objects links : List Node}

theorem newer_refl (a : Node) : newer a a := (newer_total a a).elim id id

theorem isObjectType_of_matching {label : Label} {n : Node}
    (hn : n ∈ (matching g tenantId search label).filter hasMapping) :
    isObjectType n = decide (label = .objectType) := by
  have hmatches := (List.mem_filter.mp (List.mem_filter.mp hn).1).2
  simp only [Bool.and_eq_true, decide_eq_true_eq] at hmatches
  rw [isObjectType, hmatches.1.1.1]

/-- Each label has its part of the entities with a mapping. -/
theorem filter_mapped (g : Graph) (tenantId : String) (search : Option String) :
    (mapped g tenantId search).filter isObjectType = (matching g tenantId search .objectType).filter hasMapping ∧
      (mapped g tenantId search).filter (fun n => !isObjectType n) =
        (matching g tenantId search .linkType).filter hasMapping :=
  filter_append_kinds (fun _ hn => isObjectType_of_matching hn) fun _ hn => isObjectType_of_matching hn

theorem length_mappings : (mappings objects links).length =
    (objects.take 1000).countP hasMapping + (links.take 1000).countP hasMapping := by
  rw [mappings, List.filter_append, List.length_append, List.countP_eq_length_filter, List.countP_eq_length_filter]

theorem length_mapped : (mapped g tenantId search).length =
    (matching g tenantId search .objectType).countP hasMapping +
      (matching g tenantId search .linkType).countP hasMapping := by
  rw [mapped, List.length_append, List.countP_eq_length_filter, List.countP_eq_length_filter]

variable (hobjects : WithinBound g tenantId search .objectType) (hlinks : WithinBound g tenantId search .linkType)
include hobjects hlinks

theorem mappings_eq (ho : Sorted newer (matching g tenantId search .objectType) objects)
    (hl : Sorted newer (matching g tenantId search .linkType) links) :
    mappings objects links = objects.filter hasMapping ++ links.filter hasMapping := by
  rw [mappings, List.filter_append, ho.filter_take newer_refl hobjects, hl.filter_take newer_refl hlinks]

/-- Within the bound, the results are all entities with a mapping, the ObjectTypes first. -/
theorem mappings_sorted (ho : Sorted newer (matching g tenantId search .objectType) objects)
    (hl : Sorted newer (matching g tenantId search .linkType) links) :
    Sorted (firstOf isObjectType newer) (mapped g tenantId search) (mappings objects links) := by
  obtain ⟨hfirst, hsecond⟩ := filter_mapped g tenantId search
  rw [mappings_eq hobjects hlinks ho hl]
  refine Sorted.append ?_ ?_
  · rw [hfirst]
    exact ho.filter hasMapping
  · rw [hsecond]
    exact hl.filter hasMapping

/-- Every such order is one of results. -/
theorem exists_mappings {rows : List Node} (h : Sorted (firstOf isObjectType newer) (mapped g tenantId search) rows) :
    ∃ objects links, Sorted newer (matching g tenantId search .objectType) objects ∧
      Sorted newer (matching g tenantId search .linkType) links ∧ mappings objects links = rows := by
  obtain ⟨hrows, hfirst, hsecond⟩ := h.split
  obtain ⟨hobjectPart, hlinkPart⟩ := filter_mapped g tenantId search
  rw [hobjectPart] at hfirst
  rw [hlinkPart] at hsecond
  obtain ⟨objects, ho, hshownObjects⟩ := exists_sorted_filter newer_total newer_trans hfirst
  obtain ⟨links, hl, hshownLinks⟩ := exists_sorted_filter newer_total newer_trans hsecond
  exact ⟨objects, links, ho, hl, by rw [mappings_eq hobjects hlinks ho hl, hshownObjects, hshownLinks, ← hrows]⟩

end OneAnswer

/-! ## All pages -/

section AllPages
variable {g : Graph} {tenantId : String} {search : Option String} {limit : ℕ}

/-- A page of the entries is a page of the nodes. -/
theorem page_map (limit k : ℕ) (rows : List Node) :
    Ontology.page (k * limit) limit (rows.map mappingEntry) = (Paging.page limit k rows).map mappingEntry := by
  rw [Ontology.page, Paging.page, List.map_take, List.map_drop]

/-- An entity with a mapping that comes after the bound is missing in the total. -/
theorem withinBound_of_total {label : Label} (hlabel : label = .objectType ∨ label = .linkType)
    (h : ∀ offset answer, AnswersMappings g tenantId search offset limit answer →
      answer.2 = (mapped g tenantId search).length) : WithinBound g tenantId search label := by
  intro n hn hmapping
  by_contra hover
  obtain ⟨rows, hrows, hdrop⟩ := exists_sorted_drop newer_total newer_trans hn (Nat.lt_of_not_le hover)
  have hshort := hrows.countP_take_lt hdrop hmapping
  rcases hlabel with rfl | rfl
  · have hlinks := sorted_mergeSort newer_total newer_trans (matching g tenantId search .linkType)
    have htotal := h 0 _ ⟨rows, _, hrows, hlinks, rfl⟩
    have hrest := hlinks.countP_take_le (m := 1000) (p := hasMapping)
    rw [length_mappings, length_mapped] at htotal
    omega
  · have hobjects := sorted_mergeSort newer_total newer_trans (matching g tenantId search .objectType)
    have htotal := h 0 _ ⟨_, rows, hobjects, hrows, rfl⟩
    have hrest := hobjects.countP_take_le (m := 1000) (p := hasMapping)
    rw [length_mappings, length_mapped] at htotal
    omega

theorem pagesComplete_of_within (hobjects : WithinBound g tenantId search .objectType)
    (hlinks : WithinBound g tenantId search .linkType) (huncut : UncutPages g tenantId search limit) :
    PagesComplete g tenantId search limit where
  total := by
    rintro offset _ ⟨objects, links, ho, hl, rfl⟩
    exact (mappings_sorted hobjects hlinks ho hl).perm.length_eq
  pages := by
    intro n answers hlength hanswers
    refine results_perm (firstOf_total newer_total) (firstOf_trans newer_trans) hlength (fun k hk => ?_) huncut
    obtain ⟨objects, links, ho, hl, hanswer⟩ := hanswers k hk
    exact ⟨_, mappings_sorted hobjects hlinks ho hl, by rw [hanswer, page_map]⟩

theorem uncutPages_of_pages (hobjects : WithinBound g tenantId search .objectType)
    (hlinks : WithinBound g tenantId search .linkType) (h : PagesComplete g tenantId search limit) :
    UncutPages g tenantId search limit := by
  intro k
  obtain rfl | hlimit := Nat.eq_zero_or_pos limit
  · intro a _ b _ _ _ hcut
    exact absurd hcut.1 (Nat.not_lt_zero _)
  · classical
    refine uniformAt_of_results (firstOf_total newer_total) (firstOf_trans newer_trans) hlimit
      (fun n results hlength hresults => ?_) k
    refine h.pages n (fun j => (results j, (mapped g tenantId search).length)) hlength fun j hj => ?_
    obtain ⟨rows, hrows, hpage⟩ := hresults j hj
    obtain ⟨objects, links, ho, hl, hmappings⟩ := exists_mappings hobjects hlinks hrows
    exact ⟨objects, links, ho, hl, by rw [hmappings, page_map, hpage, hrows.perm.length_eq]⟩

end AllPages

/-- The pages are complete just when no mapping lies beyond the 1000 newest nodes of its label and no page is cut
between mappings of one age. -/
theorem pagesComplete_iff (g : Graph) (tenantId : String) (search : Option String) (limit : ℕ) :
    PagesComplete g tenantId search limit ↔ (WithinBound g tenantId search .objectType ∧
      WithinBound g tenantId search .linkType) ∧ UncutPages g tenantId search limit := by
  constructor
  · intro h
    have hobjects := withinBound_of_total (.inl rfl) h.total
    have hlinks := withinBound_of_total (.inr rfl) h.total
    exact ⟨⟨hobjects, hlinks⟩, uncutPages_of_pages hobjects hlinks h⟩
  · rintro ⟨⟨hobjects, hlinks⟩, huncut⟩
    exact pagesComplete_of_within hobjects hlinks huncut

/-! ### One mapping too old -/

/-- An Active ObjectType. -/
def activeEntity (id : ℕ) (createdAt : String) (assetMapping : Value) : Node :=
  ⟨id, .objectType, Props.update (fun _ => .null) [(.rid, .str ("ri.obj." ++ toString id)), (.tenantId, .str "t"),
    (.apiName, .str ("Entity" ++ toString id)), (.displayName, .str ("Entity " ++ toString id)),
    (.isDraft, .bool false), (.isStaging, .bool false), (.isActive, .bool true), (.createdAt, .str createdAt),
    (.assetMapping, assetMapping)]⟩

def oldestEntity : Node :=
  activeEntity 0 "2024-01-01" (.str "\x7b\"read_connection_id\": \"ri.conn.1\"\x7d")

/-- The first ObjectType has a mapping, the 1000 that were created later have none. -/
def crowdedGraph : Graph :=
  ⟨oldestEntity :: (List.range 1000).map fun i => activeEntity (i + 1) "2024-01-02" .null, [], 1001⟩

theorem activeEntity_matches (id : ℕ) (createdAt : String) (assetMapping : Value) :
    (decide ((activeEntity id createdAt assetMapping).label = .objectType) &&
      (activeEntity id createdAt assetMapping).ofTenant "t" && (activeEntity id createdAt assetMapping).active &&
      matchesSearch none (activeEntity id createdAt assetMapping)) = true := rfl

theorem matching_crowded : matching crowdedGraph "t" none .objectType = crowdedGraph.nodes := by
  refine List.filter_eq_self.mpr fun n hn => ?_
  rcases List.mem_cons.mp hn with rfl | hn
  · exact activeEntity_matches ..
  · obtain ⟨i, -, rfl⟩ := List.mem_map.mp hn
    exact activeEntity_matches ..

theorem newer_crowded : ∀ n ∈ crowdedGraph.nodes, newer n oldestEntity = true := by
  intro n hn
  rcases List.mem_cons.mp hn with rfl | hn
  · exact newer_refl _
  · obtain ⟨i, -, rfl⟩ := List.mem_map.mp hn
    change decide ("2024-01-01" ≤ "2024-01-02") = true
    decide

/-- The mapping of the oldest of 1001 ObjectTypes is on no page. -/
theorem crowded_missing : ¬ PagesComplete crowdedGraph "t" none 20 := by
  intro h
  have hbound := withinBound_of_total (.inl rfl) h.total oldestEntity (by rw [matching_crowded]; exact List.mem_cons_self)
    (by decide +kernel)
  rw [matching_crowded, upTo, List.countP_eq_length.mpr newer_crowded, crowdedGraph, List.length_cons, List.length_map,
    List.length_range] at hbound
  omega

end Lingshu.Ontology
