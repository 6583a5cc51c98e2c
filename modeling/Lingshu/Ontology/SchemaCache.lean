import Lingshu.Interaction.Until
import Lingshu.Interaction.Yields
import Lingshu.Ontology.Reads
import Lingshu.Ontology.Runs

/-! # The schema cache

`SchemaLoader.get_schema` as a program of its readings of the clock and the cache and of its queries, between which the
calls of the ontology go on. Nothing but its age ends the life of a cached schema: `invalidate` has no caller. -/
namespace Lingshu.Ontology
open Json Interaction
set_option autoImplicit false

/-! ## The loader -/

structure CacheEntry where
  schema : SchemaInfo
  expiresAt : ℕ

/-- What the loader shares with the calls of the ontology, its `_cache`, and `time.monotonic()`. -/
structure SchemaStore where
  calls : Calls
  cache : String → Option CacheEntry
  clock : ℕ

def SchemaStore.graph (s : SchemaStore) : Graph := s.calls.state.graph

inductive SchemaCmd where
  /-- The time and the entry of a key. -/
  | lookup (key : String)
  | propertyNodes (label : Label) (rid tenantId : String)
  | activeNode (label : Label) (rid tenantId : String)
  | save (key : String) (entry : CacheEntry)

def SchemaCmd.Answer : SchemaCmd → Type
  | .lookup _ => ℕ × Option CacheEntry
  | .propertyNodes .. => List Node
  | .activeNode .. => Option Node
  | .save .. => Unit

def SchemaCmd.exec : (c : SchemaCmd) → SchemaStore → Except Exc c.Answer × SchemaStore
  | .lookup key, s => (.ok (s.clock, s.cache key), s)
  | .propertyNodes label rid tenantId, s => (.ok (Ontology.propertyNodes s.graph label rid tenantId), s)
  | .activeNode label rid tenantId, s => (.ok (s.graph.getActiveNode label rid tenantId), s)
  | .save key entry, s => (.ok (), { s with cache := Function.update s.cache key (some entry) })

abbrev SchemaProgram (α : Type) := Prog SchemaCmd SchemaCmd.Answer Exc α

def consult (c : SchemaCmd) : SchemaProgram c.Answer := Prog.perform c

/-- `CACHE_TTL_SECONDS`. -/
def cacheTtlSeconds : ℕ := 300

structure SchemaCall where
  typeRid : String
  tenantId : String
  deriving DecidableEq

namespace SchemaCall

/-- `cache_key`. -/
def key (call : SchemaCall) : String := call.tenantId ++ ":" ++ call.typeRid

/-- What `_load_schema` makes of the PropertyTypes and of the node with the mapping. -/
def schemaOf (call : SchemaCall) (nodes : List Node) (mapped : Option Node) : Except Exc SchemaInfo :=
  let propertyTypes := nodes.map fun n => deserializeFromNeo4j n.props
  let assetMapping := mapped.elim .null fun n => deserializeFromNeo4j n.props .assetMapping
  schemaLoop propertyTypes ⟨call.typeRid, propertyTypes, assetMapping, [], fun _ => none, [], [], fun _ => false, []⟩

variable (call : SchemaCall) (now : ℕ)

/-- `get_schema` once the schema is loaded. -/
def saveSchema (schema : SchemaInfo) : SchemaProgram SchemaInfo := do
  let _ ← (consult (.save call.key ⟨schema, now + cacheTtlSeconds⟩) : SchemaProgram Unit)
  return schema

def finishLoad (nodes : List Node) (mapped : Option Node) : SchemaProgram SchemaInfo :=
  match call.schemaOf nodes mapped with
  | .ok schema => call.saveSchema now schema
  | .error e => .throw e

/-- The second query of `get_asset_mapping`, and the rest. -/
def askMappedLink (nodes : List Node) : SchemaProgram SchemaInfo := do
  let link ← (consult (.activeNode .linkType call.typeRid call.tenantId) : SchemaProgram (Option Node))
  call.finishLoad now nodes link

/-- `get_asset_mapping` once the ObjectType has been asked for, and the rest. -/
def mapped (nodes : List Node) : Option Node → SchemaProgram SchemaInfo
  | some node => call.finishLoad now nodes (some node)
  | none => call.askMappedLink now nodes

/-- `get_asset_mapping`, and the rest. -/
def askMapping (nodes : List Node) : SchemaProgram SchemaInfo := do
  let object ← (consult (.activeNode .objectType call.typeRid call.tenantId) : SchemaProgram (Option Node))
  call.mapped now nodes object

/-- The second query of `get_property_types_for_entity`, and the rest. -/
def askLinkProperties : SchemaProgram SchemaInfo := do
  let nodes ← (consult (.propertyNodes .linkType call.typeRid call.tenantId) : SchemaProgram (List Node))
  call.askMapping now nodes

/-- `get_schema` when nothing usable is cached. -/
def load : SchemaProgram SchemaInfo := do
  let nodes ← (consult (.propertyNodes .objectType call.typeRid call.tenantId) : SchemaProgram (List Node))
  if nodes.isEmpty then call.askLinkProperties now else call.askMapping now nodes

/-- The schema of a live entry. -/
def live (now : ℕ) (entry : Option CacheEntry) : Option SchemaInfo :=
  (entry.filter fun entry => now < entry.expiresAt).map CacheEntry.schema

/-- `get_schema` once the cache has been read. -/
def cached : Option SchemaInfo → SchemaProgram SchemaInfo
  | some schema => return schema
  | none => call.load now

/-- `get_schema`. -/
def getSchema : SchemaProgram SchemaInfo := do
  let (now, entry) ← (consult (.lookup call.key) : SchemaProgram (ℕ × Option CacheEntry))
  call.cached now (live now entry)

section Alone
variable (s : SchemaStore)

/-- What a load that has come to `r` returns and leaves behind. -/
def saved : Except Exc SchemaInfo → Except Exc SchemaInfo × SchemaStore
  | .ok schema => (.ok schema,
      { s with cache := Function.update s.cache call.key (some ⟨schema, now + cacheTtlSeconds⟩) })
  | .error e => (.error e, s)

theorem run_finishLoad (nodes : List Node) (mapped : Option Node) :
    (call.finishLoad now nodes mapped).run SchemaCmd.exec s = call.saved now s (call.schemaOf nodes mapped) := by
  unfold finishLoad
  cases call.schemaOf nodes mapped with
  | ok schema => rfl
  | error e => rfl

theorem run_askMapping (nodes : List Node) : (call.askMapping now nodes).run SchemaCmd.exec s =
    (call.finishLoad now nodes (mappedNode s.graph call.tenantId call.typeRid)).run SchemaCmd.exec s := by
  have hask : (call.askMapping now nodes).run SchemaCmd.exec s = (call.mapped now nodes
    (s.graph.getActiveNode .objectType call.typeRid call.tenantId)).run SchemaCmd.exec s := rfl
  rw [hask, mappedNode]
  cases s.graph.getActiveNode .objectType call.typeRid call.tenantId with
  | some node => rfl
  | none => rfl

/-- Alone, the queries of a load find what `_load_schema` is said to return, which is then cached. -/
theorem run_load : (call.load now).run SchemaCmd.exec s =
    call.saved now s (loadSchema s.graph call.tenantId call.typeRid) := by
  have hload : (call.load now).run SchemaCmd.exec s =
      (if (propertyNodes s.graph .objectType call.typeRid call.tenantId).isEmpty then call.askLinkProperties now
        else call.askMapping now (propertyNodes s.graph .objectType call.typeRid call.tenantId)).run SchemaCmd.exec s := rfl
  have hlink : (call.askLinkProperties now).run SchemaCmd.exec s =
      (call.askMapping now (propertyNodes s.graph .linkType call.typeRid call.tenantId)).run SchemaCmd.exec s := rfl
  have hschema : ∀ nodes, (nodes.map fun n => deserializeFromNeo4j n.props) =
        getPropertyTypesForEntity s.graph call.tenantId call.typeRid →
      call.schemaOf nodes (mappedNode s.graph call.tenantId call.typeRid) =
        loadSchema s.graph call.tenantId call.typeRid := by
    intro nodes hnodes
    have hmapping : (mappedNode s.graph call.tenantId call.typeRid).elim .null
        (fun n => deserializeFromNeo4j n.props .assetMapping) =
        getAssetMapping s.graph call.tenantId call.typeRid := by
      unfold getAssetMapping
      cases mappedNode s.graph call.tenantId call.typeRid <;> rfl
    simp only [schemaOf, loadSchema, hnodes, hmapping]
  rw [hload]
  cases hempty : (propertyNodes s.graph .objectType call.typeRid call.tenantId).isEmpty with
  | true =>
    rw [if_pos rfl, hlink, run_askMapping, run_finishLoad, hschema]
    rw [getPropertyTypesForEntity, if_pos hempty]
  | false =>
    rw [if_neg (by simp), run_askMapping, run_finishLoad, hschema]
    rw [getPropertyTypesForEntity, if_neg (by simp [hempty])]

end Alone

end SchemaCall

/-! ## Calls in any order -/

/-- What goes on around the loader: the calls of the ontology, and time. -/
inductive SchemaEnv where
  | ontology (e : CallEvent)
  | tick (d : ℕ)

def SchemaEnv.apply : SchemaEnv → SchemaStore → SchemaStore
  | .ontology e, s => { s with calls := concurrent.next s.calls e }
  | .tick d, s => { s with clock := s.clock + d }

def loaders : System SchemaCmd SchemaCmd.Answer Exc SchemaStore SchemaInfo SchemaCall SchemaEnv where
  handler := SchemaCmd.exec
  program := SchemaCall.getSchema
  env := SchemaEnv.apply

abbrev Loads := Pool SchemaCmd SchemaCmd.Answer Exc SchemaStore SchemaInfo SchemaCall

abbrev LoadEvent := Interaction.Event Exc SchemaCall SchemaEnv

/-! ## Where a schema comes from -/

namespace SchemaCall

/-- The PropertyTypes that are found when the two queries meet these graphs. -/
def nodesRead (call : SchemaCall) (g₁ g₂ : Graph) : List Node :=
  if (propertyNodes g₁ .objectType call.typeRid call.tenantId).isEmpty then
    propertyNodes g₂ .linkType call.typeRid call.tenantId
  else propertyNodes g₁ .objectType call.typeRid call.tenantId

/-- The node with the mapping, likewise. -/
def mappedRead (call : SchemaCall) (g₁ g₂ : Graph) : Option Node :=
  match g₁.getActiveNode .objectType call.typeRid call.tenantId with
  | some node => some node
  | none => g₂.getActiveNode .linkType call.typeRid call.tenantId

end SchemaCall

/-- The schema is what a load finds in graphs of `G`. -/
def ComputedFrom (G : Graph → Prop) (call : SchemaCall) (schema : SchemaInfo) : Prop :=
  ∃ g₁ g₂ g₃ g₄, G g₁ ∧ G g₂ ∧ G g₃ ∧ G g₄ ∧
    call.schemaOf (call.nodesRead g₁ g₂) (call.mappedRead g₃ g₄) = .ok schema

/-- The graphs before each event of a run and after the last. -/
def visited (p : Loads) (es : List LoadEvent) (g : Graph) : Prop :=
  ∃ fs, fs <+: es ∧ g = (runFrom loaders.next p fs).state.graph

/-- The last query with which a commit or a rollback of the tenant changes what is Active. -/
def Cmd.publishes (tenantId : String) : Cmd → Bool
  | .cleanupDeleted t _ => t = tenantId
  | .reactivateSnapshot t _ => t = tenantId
  | _ => false

/-- The call of the ontology that publishes for the tenant in a step. -/
def publisher (tenantId : String) (p : Loads) : LoadEvent → Option ℕ
  | .env (.ontology e) => if (p.state.calls.issues e).any fun kc => kc.2.publishes tenantId then e.thread else none
  | _ => none

/-- The call of the ontology has returned. -/
def hasReturned (p : Loads) (i : ℕ) : Bool := ((p.state.calls.threads[i]?).bind fun t => t.2.returned).isSome

/-- In the step `e` from `p` a call publishes for the tenant, and in `p'` it has returned. -/
def Published (tenantId : String) (p : Loads) (e : LoadEvent) (p' : Loads) : Prop :=
  ∃ i, publisher tenantId p e = some i ∧ hasReturned p' i

/-- Before any schema has been loaded. -/
def nothingLoaded (calls : Calls) (clock : ℕ) : Loads := ⟨⟨calls, fun _ => none, clock⟩, []⟩

/-- Whoever asks for a schema after a publication has returned gets one that is computed from the graph since then. -/
def SchemasFresh (tenantId : String) (p : Loads) (run : List LoadEvent) : Prop :=
  ∀ es e bs cs, run = es ++ e :: (bs ++ cs) →
    Published tenantId (runFrom loaders.next p es) e (runFrom loaders.next p (es ++ e :: bs)) →
    ∀ i call schema, (runFrom loaders.next p (es ++ e :: bs)).threads.length ≤ i →
      (runFrom loaders.next p run).threads[i]? = some (call, .pure schema) → call.tenantId = tenantId →
      ComputedFrom (visited (runFrom loaders.next p (es ++ [e])) (bs ++ cs)) call schema

/-- If a call for the tenant finds a live schema, it is one of the type that was loaded after the time `t₀`. -/
def FindsSince (tenantId : String) (t₀ : ℕ) (p : Loads) (e : LoadEvent) : Prop :=
  ∀ call key, p.issues e = some (call, .lookup key) → call.tenantId = tenantId → ∀ entry ∈ p.state.cache key,
    p.state.clock < entry.expiresAt → t₀ + cacheTtlSeconds < entry.expiresAt ∧ entry.schema.typeRid = call.typeRid

/-- After a publication has returned, no call for the tenant finds a live schema from before it. -/
def NoneOutlives (tenantId : String) (p : Loads) (run : List LoadEvent) : Prop :=
  ∀ es e bs cs, run = es ++ e :: (bs ++ cs) →
    Published tenantId (runFrom loaders.next p es) e (runFrom loaders.next p (es ++ e :: bs)) →
    StepsMeet loaders.next (FindsSince tenantId (runFrom loaders.next p (es ++ [e])).state.clock)
      (runFrom loaders.next p (es ++ e :: bs)) cs

/-! ## The stages of a load -/

/-- Where a load that began at `now` can be, when its queries have met graphs of `G`. -/
inductive Loading (G : Graph → Prop) (call : SchemaCall) (now : ℕ) : SchemaProgram SchemaInfo → Prop where
  | loading : Loading G call now (call.load now)
  | linkProperties {g : Graph} (hg : G g)
      (h : (propertyNodes g .objectType call.typeRid call.tenantId).isEmpty = true) :
      Loading G call now (call.askLinkProperties now)
  | mapping {g₁ g₂ : Graph} (h₁ : G g₁) (h₂ : G g₂) : Loading G call now (call.askMapping now (call.nodesRead g₁ g₂))
  | mappedLink {g₁ g₂ g₃ : Graph} (h₁ : G g₁) (h₂ : G g₂) (h₃ : G g₃)
      (h : g₃.getActiveNode .objectType call.typeRid call.tenantId = none) :
      Loading G call now (call.askMappedLink now (call.nodesRead g₁ g₂))
  | saving {schema : SchemaInfo} (h : ComputedFrom G call schema) : Loading G call now (call.saveSchema now schema)
  | returned {schema : SchemaInfo} (h : ComputedFrom G call schema) : Loading G call now (.pure schema)
  | failed (e : Exc) : Loading G call now (.throw e)

section Stages
variable {G : Graph → Prop} {call : SchemaCall} {now : ℕ} {s : SchemaStore} {c : SchemaCmd}
variable {k : Except Exc c.Answer → SchemaProgram SchemaInfo}

theorem Loading.finish {g₁ g₂ g₃ g₄ : Graph} (h₁ : G g₁) (h₂ : G g₂) (h₃ : G g₃) (h₄ : G g₄) :
    Loading G call now (call.finishLoad now (call.nodesRead g₁ g₂) (call.mappedRead g₃ g₄)) := by
  unfold SchemaCall.finishLoad
  cases h : call.schemaOf (call.nodesRead g₁ g₂) (call.mappedRead g₃ g₄) with
  | ok schema => exact .saving ⟨g₁, g₂, g₃, g₄, h₁, h₂, h₃, h₄, h⟩
  | error e => exact .failed e

/-- A query takes a load to its next stage. -/
theorem Loading.answered (h : Loading G call now (.call c k)) (hg : G s.graph) :
    Loading G call now (k (c.exec s).1) := by
  cases h with
  | loading =>
    change Loading G call now (if (propertyNodes s.graph .objectType call.typeRid call.tenantId).isEmpty then
      call.askLinkProperties now else call.askMapping now (propertyNodes s.graph .objectType call.typeRid call.tenantId))
    by_cases hempty : (propertyNodes s.graph .objectType call.typeRid call.tenantId).isEmpty = true
    · rw [if_pos hempty]
      exact .linkProperties hg hempty
    · have hread : call.nodesRead s.graph s.graph = propertyNodes s.graph .objectType call.typeRid call.tenantId :=
        if_neg hempty
      rw [if_neg hempty, ← hread]
      exact .mapping hg hg
  | @linkProperties g hg' hempty =>
    have hread : call.nodesRead g s.graph = propertyNodes s.graph .linkType call.typeRid call.tenantId := if_pos hempty
    change Loading G call now (call.askMapping now (propertyNodes s.graph .linkType call.typeRid call.tenantId))
    rw [← hread]
    exact .mapping hg' hg
  | @mapping g₁ g₂ h₁ h₂ =>
    change Loading G call now (call.mapped now (call.nodesRead g₁ g₂)
      (s.graph.getActiveNode .objectType call.typeRid call.tenantId))
    cases hobject : s.graph.getActiveNode .objectType call.typeRid call.tenantId with
    | some node =>
      have hread : call.mappedRead s.graph s.graph = some node := by simp only [SchemaCall.mappedRead, hobject]
      change Loading G call now (call.finishLoad now (call.nodesRead g₁ g₂) (some node))
      rw [← hread]
      exact .finish h₁ h₂ hg hg
    | none => exact .mappedLink h₁ h₂ hg hobject
  | @mappedLink g₁ g₂ g₃ h₁ h₂ h₃ hnone =>
    have hread : call.mappedRead g₃ s.graph = s.graph.getActiveNode .linkType call.typeRid call.tenantId := by
      simp only [SchemaCall.mappedRead, hnone]
    change Loading G call now (call.finishLoad now (call.nodesRead g₁ g₂)
      (s.graph.getActiveNode .linkType call.typeRid call.tenantId))
    rw [← hread]
    exact .finish h₁ h₂ h₃ hg
  | saving hc => exact .returned hc

/-- An exception ends a load. -/
theorem Loading.raised (h : Loading G call now (.call c k)) (e : Exc) : k (.error e) = .throw e := by
  cases h <;> rfl

/-- A load saves what it has computed, for 300 seconds from when it began. -/
theorem Loading.saves {key : String} {entry : CacheEntry}
    {k : Except Exc (SchemaCmd.save key entry).Answer → SchemaProgram SchemaInfo}
    (h : Loading G call now (.call (.save key entry) k)) :
    key = call.key ∧ entry.expiresAt = now + cacheTtlSeconds ∧ ComputedFrom G call entry.schema := by
  cases h with
  | saving hc => exact ⟨rfl, rfl, hc⟩

end Stages

/-! ## Every run -/

/-- A load that began no later than `t₀`. -/
def BegunBy (t₀ : ℕ) (call : SchemaCall) (q : SchemaProgram SchemaInfo) : Prop :=
  q.head = none ∨ ∃ now ≤ t₀, Loading (fun _ => True) call now q

/-- A call has not begun, or is loading from graphs of `G`, or is none of the `late` ones and began by `t₀`. -/
inductive Placed (G : Graph → Prop) (t₀ : ℕ) (late : Prop) (call : SchemaCall) (q : SchemaProgram SchemaInfo) : Prop where
  | asking (h : q = call.getSchema)
  | since (g : Graph) (hg : G g) (now : ℕ) (h : Loading G call now q)
  | before (hlate : ¬ late) (h : BegunBy t₀ call q)

/-- What is cached was loaded from graphs of `G`, or began to be loaded by `t₀`. -/
structure Tracked (G : Graph → Prop) (t₀ : ℕ) (late : ℕ → SchemaCall → Prop) (p : Loads) : Prop where
  cache : ∀ key, ∀ entry ∈ p.state.cache key,
    entry.expiresAt ≤ t₀ + cacheTtlSeconds ∨ ∃ call, call.key = key ∧ ComputedFrom G call entry.schema
  threads : ∀ i t, p.threads[i]? = some t → Placed G t₀ (late i t.1) t.1 t.2

/-- The graph is one of `G`; or there is none yet, time has not passed `t₀`, and no call is late. -/
def InPhase (G : Graph → Prop) (t₀ : ℕ) (late : ℕ → SchemaCall → Prop) (s : SchemaStore) : Prop :=
  G s.graph ∨ (∀ g, ¬ G g) ∧ s.clock ≤ t₀ ∧ ∀ i call, ¬ late i call

section Step
variable {G : Graph → Prop} {t₀ : ℕ} {late : ℕ → SchemaCall → Prop} {p : Loads} {call : SchemaCall} {c : SchemaCmd}
variable {k : Except Exc c.Answer → SchemaProgram SchemaInfo} {i : ℕ}

/-- The loop adds up the columns, and leaves the rest. -/
theorem schemaLoop_kept {pts : List Props} {schema schema' : SchemaInfo} (h : schemaLoop pts schema = .ok schema') :
    schema'.typeRid = schema.typeRid ∧ schema'.assetMapping = schema.assetMapping := by
  induction pts generalizing schema with
  | nil =>
    cases h
    exact ⟨rfl, rfl⟩
  | cons pt pts ih =>
    simp only [schemaLoop] at h
    cases hmasked : isMasked (pt .compliance) with
    | error e =>
      rw [hmasked] at h
      cases h
    | ok masked =>
      rw [hmasked] at h
      have hrest := ih h
      exact hrest

theorem ComputedFrom.typeRid {schema : SchemaInfo} (h : ComputedFrom G call schema) : schema.typeRid = call.typeRid := by
  obtain ⟨g₁, g₂, g₃, g₄, _, _, _, _, h⟩ := h
  exact (schemaLoop_kept h).1

/-- A key with its type tells the tenant. -/
theorem SchemaCall.eq_of_key {call' : SchemaCall} (hkey : call'.key = call.key) (htype : call'.typeRid = call.typeRid) :
    call' = call := by
  obtain ⟨typeRid, tenantId⟩ := call
  obtain ⟨typeRid', tenantId'⟩ := call'
  obtain rfl : typeRid' = typeRid := htype
  have htenant : tenantId' = tenantId := by
    have hchars := congrArg String.toList hkey
    simp only [SchemaCall.key, String.toList_append, List.append_assoc] at hchars
    exact String.ext (List.append_cancel_right hchars)
  rw [htenant]

theorem placed_throw (hphase : InPhase G t₀ late p.state) (e : Exc) : Placed G t₀ (late i call) call (.throw e) := by
  rcases hphase with hg | ⟨_, _, hlate⟩
  · exact .since _ hg 0 (.failed e)
  · exact .before (hlate i call) (.inl rfl)

theorem Tracked.placed (h : Tracked G t₀ late p) {q : SchemaProgram SchemaInfo} (hi : p.threads[i]? = some (call, q)) :
    Placed G t₀ (late i call) call q := h.threads i _ hi

/-- The first step of a call finds a schema, or begins a load. -/
theorem placed_asked (hphase : InPhase G t₀ late p.state) (h : Tracked G t₀ late p)
    (hlate : late i call → ∀ entry ∈ p.state.cache call.key, p.state.clock < entry.expiresAt →
      t₀ + cacheTtlSeconds < entry.expiresAt ∧ entry.schema.typeRid = call.typeRid) :
    Placed G t₀ (late i call) call
      (call.cached p.state.clock (SchemaCall.live p.state.clock (p.state.cache call.key))) := by
  cases hlive : SchemaCall.live p.state.clock (p.state.cache call.key) with
  | none =>
    rcases hphase with hg | ⟨_, hclock, hnone⟩
    · exact .since _ hg _ .loading
    · exact .before (hnone i call) (.inr ⟨_, hclock, .loading⟩)
  | some schema =>
    obtain ⟨entry, hentry, rfl⟩ := Option.map_eq_some_iff.mp hlive
    obtain ⟨hcached, hexpires⟩ := Option.filter_eq_some_iff.mp hentry
    by_cases hl : late i call
    · obtain ⟨hsince, htype⟩ := hlate hl entry hcached (of_decide_eq_true hexpires)
      rcases h.cache _ entry hcached with hold | ⟨call', hkey, hcomputed⟩
      · omega
      · obtain rfl := SchemaCall.eq_of_key hkey (hcomputed.typeRid.symm.trans htype)
        obtain ⟨g, _, _, _, hg, _⟩ := id hcomputed
        exact .since g hg 0 (.returned hcomputed)
    · exact .before hl (.inl rfl)

theorem placed_answered (hphase : InPhase G t₀ late p.state) (h : Tracked G t₀ late p)
    (hi : p.threads[i]? = some (call, .call c k))
    (hlate : late i call → ∀ key, c = .lookup key → ∀ entry ∈ p.state.cache key, p.state.clock < entry.expiresAt →
      t₀ + cacheTtlSeconds < entry.expiresAt ∧ entry.schema.typeRid = call.typeRid) :
    Placed G t₀ (late i call) call (k (c.exec p.state).1) := by
  cases h.placed hi with
  | asking hq =>
    cases hq
    exact placed_asked hphase h fun hl => hlate hl _ rfl
  | since g hg now hload =>
    rcases hphase with hg' | ⟨hnone, _⟩
    · exact .since _ hg' now (hload.answered hg')
    · exact absurd hg (hnone g)
  | before hl hbegun =>
    obtain hended | ⟨now, hnow, hload⟩ := hbegun
    · cases hended
    · exact .before hl (.inr ⟨now, hnow, hload.answered trivial⟩)

theorem placed_raised (hphase : InPhase G t₀ late p.state) (h : Tracked G t₀ late p)
    (hi : p.threads[i]? = some (call, .call c k)) (e : Exc) : Placed G t₀ (late i call) call (k (.error e)) := by
  have hthrow : k (.error e) = .throw e := by
    cases h.placed hi with
    | asking hq =>
      cases hq
      rfl
    | since g hg now hload => exact hload.raised e
    | before hl hbegun =>
      obtain hended | ⟨now, hnow, hload⟩ := hbegun
      · cases hended
      · exact hload.raised e
  rw [hthrow]
  exact placed_throw hphase e

/-- What a call saves. -/
theorem cache_exec (h : Tracked G t₀ late p) (hi : p.threads[i]? = some (call, .call c k)) :
    ∀ key, ∀ entry ∈ (c.exec p.state).2.cache key,
      entry.expiresAt ≤ t₀ + cacheTtlSeconds ∨ ∃ call, call.key = key ∧ ComputedFrom G call entry.schema := by
  cases c with
  | lookup | propertyNodes | activeNode => exact h.cache
  | save key₀ entry₀ =>
    intro key entry hentry
    by_cases hkey : key = key₀
    · subst hkey
      have hsaved : entry = entry₀ := by
        simp only [SchemaCmd.exec, Function.update_self, Option.mem_def, Option.some.injEq] at hentry
        exact hentry.symm
      subst hsaved
      cases h.placed hi with
      | asking hq => cases hq
      | since g hg now hload =>
        obtain ⟨rfl, _, hcomputed⟩ := hload.saves
        exact .inr ⟨call, rfl, hcomputed⟩
      | before hl hbegun =>
        obtain hended | ⟨now, hnow, hload⟩ := hbegun
        · cases hended
        · obtain ⟨_, hexpires, _⟩ := hload.saves
          left
          omega
    · simp only [SchemaCmd.exec, Function.update_of_ne hkey] at hentry
      exact h.cache key entry hentry

/-- One call goes on. -/
theorem Tracked.set (h : Tracked G t₀ late p) {s : SchemaStore} {q : SchemaProgram SchemaInfo}
    (hcache : ∀ key, ∀ entry ∈ s.cache key,
      entry.expiresAt ≤ t₀ + cacheTtlSeconds ∨ ∃ call, call.key = key ∧ ComputedFrom G call entry.schema)
    (hq : Placed G t₀ (late i call) call q) : Tracked G t₀ late ⟨s, p.threads.set i (call, q)⟩ where
  cache := hcache
  threads := by
    intro j t ht
    rw [List.getElem?_set] at ht
    split at ht
    · rename_i hij
      subst hij
      split at ht
      · cases ht
        exact hq
      · cases ht
    · exact h.threads j t ht

/-- A step of the loaders, of the ontology or of time keeps the cache tracked. -/
theorem tracked_next (tenantId : String) {e : LoadEvent} (htenant : ∀ i call, late i call → call.tenantId = tenantId)
    (h : Tracked G t₀ late p) (hphase : InPhase G t₀ late p.state)
    (hfinds : (∀ i call, ¬ late i call) ∨ FindsSince tenantId t₀ p e) : Tracked G t₀ late (loaders.next p e) := by
  have hhappens := System.happens loaders p e
  revert hhappens
  generalize loaders.next p e = p'
  intro hhappens
  cases hhappens with
  | started call =>
    refine ⟨h.cache, fun i t ht => ?_⟩
    rw [List.getElem?_append] at ht
    split at ht
    · exact h.threads i t ht
    · obtain rfl := List.mem_singleton.mp (List.mem_of_getElem? ht)
      exact .asking rfl
  | outside v =>
    cases v with
    | ontology | tick => exact ⟨h.cache, h.threads⟩
  | nothing => exact h
  | @answered i call c k hi =>
    refine h.set (cache_exec h hi) (placed_answered hphase h hi ?_)
    rintro hl key rfl
    rcases hfinds with hnone | hfinds
    · exact absurd hl (hnone i call)
    · exact hfinds call key (System.pending_of_getElem? hi) (htenant i call hl)
  | lost x hi => exact h.set (cache_exec h hi) (placed_raised hphase h hi x)
  | refused x hi => exact h.set h.cache (placed_raised hphase h hi x)

end Step

/-! ## The clock and the graphs of a run -/

theorem clock_next (p : Loads) (e : LoadEvent) : p.state.clock ≤ (loaders.next p e).state.clock := by
  have hexec : ∀ (c : SchemaCmd) (s : SchemaStore), (c.exec s).2.clock = s.clock := by
    intro c s
    cases c <;> rfl
  have hhappens := System.happens loaders p e
  revert hhappens
  generalize loaders.next p e = p'
  intro hhappens
  cases hhappens with
  | started | refused | nothing => exact Nat.le_refl _
  | outside v =>
    cases v with
    | ontology => exact Nat.le_refl _
    | tick d => exact Nat.le_add_right _ d
  | answered => exact Nat.le_of_eq (hexec _ _).symm
  | lost => exact Nat.le_of_eq (hexec _ _).symm

theorem clock_run (p : Loads) (es : List LoadEvent) : p.state.clock ≤ (runFrom loaders.next p es).state.clock := by
  induction es generalizing p with
  | nil => exact Nat.le_refl _
  | cons e es ih => exact (clock_next p e).trans (ih _)

/-- Along a run the clock is not past its end. -/
theorem stepsMeet_clock {t₀ : ℕ} {p : Loads} {es : List LoadEvent}
    (h : (runFrom loaders.next p es).state.clock ≤ t₀) :
    StepsMeet loaders.next (fun p _ => p.state.clock ≤ t₀) p es := by
  induction es generalizing p with
  | nil => trivial
  | cons e es ih => exact ⟨(clock_run p (e :: es)).trans h, ih h⟩

/-- A run passes through its graphs. -/
theorem stepsMeet_visited (p : Loads) (es : List LoadEvent) :
    StepsMeet loaders.next (fun q _ => visited p es q.state.graph) p es := by
  suffices h : ∀ fs gs, es = fs ++ gs → StepsMeet loaders.next (fun q _ => visited p es q.state.graph)
      (runFrom loaders.next p fs) gs from h [] es rfl
  intro fs gs
  induction gs generalizing fs with
  | nil => intro _; trivial
  | cons e gs ih =>
    intro hes
    refine ⟨⟨fs, ⟨e :: gs, hes.symm⟩, rfl⟩, ?_⟩
    have hrest := ih (fs ++ [e]) (by rw [hes, List.append_assoc, List.singleton_append])
    rw [runFrom_append] at hrest
    exact hrest

/-! ## Freshness -/

/-- What has been cached and begun so far began by now. -/
theorem tracked_before (calls : Calls) (clock : ℕ) (es : List LoadEvent) :
    Tracked (fun _ => False) (runFrom loaders.next (nothingLoaded calls clock) es).state.clock (fun _ _ => False)
      (runFrom loaders.next (nothingLoaded calls clock) es) := by
  refine steps_inv (P := fun q _ => q.state.clock ≤ (runFrom loaders.next (nothingLoaded calls clock) es).state.clock)
    ?_ ⟨fun _ _ h => (nomatch h), fun _ _ h => (nomatch h)⟩ (stepsMeet_clock (Nat.le_refl _))
  intro q e hq hclock
  refine tracked_next "" (fun _ _ h => h.elim) hq (.inr ⟨fun _ h => h, hclock, fun _ _ h => h⟩) ?_
  exact .inl fun _ _ h => h

/-- From then on, graphs are kept account of. -/
theorem Tracked.since {G : Graph → Prop} {t₀ : ℕ} {p : Loads} (h : Tracked (fun _ => False) t₀ (fun _ _ => False) p) :
    Tracked G t₀ (fun _ _ => False) p where
  cache := by
    intro key entry hentry
    rcases h.cache key entry hentry with hold | ⟨_, _, _, _, _, _, hg, _⟩
    · exact .inl hold
    · exact hg.elim
  threads := by
    intro i t ht
    cases h.threads i t ht with
    | asking hq => exact .asking hq
    | since g hg => exact hg.elim
    | before hlate hbegun => exact .before hlate hbegun

/-- From then on, calls that come in are late. -/
theorem Tracked.late {G : Graph → Prop} {t₀ : ℕ} {p : Loads} (h : Tracked G t₀ (fun _ _ => False) p) (tenantId : String) :
    Tracked G t₀ (fun i call => p.threads.length ≤ i ∧ call.tenantId = tenantId) p where
  cache := h.cache
  threads := by
    intro i t ht
    have hi := (List.getElem?_eq_some_iff.mp ht).1
    cases h.threads i t ht with
    | asking hq => exact .asking hq
    | since g hg now hload => exact .since g hg now hload
    | before _ hbegun => exact .before (fun hlate => absurd hlate.1 (by omega)) hbegun

/-- When no live schema outlives a publication, schemas are fresh. -/
theorem schemas_fresh {tenantId : String} {calls : Calls} {clock : ℕ} {run : List LoadEvent}
    (h : NoneOutlives tenantId (nothingLoaded calls clock) run) :
    SchemasFresh tenantId (nothingLoaded calls clock) run := by
  rintro es e bs cs rfl hpublished i call schema hi hreturned htenant
  have hfinds := h es e bs cs rfl hpublished
  revert hfinds hi hreturned
  have hsplit : es ++ e :: bs = es ++ [e] ++ bs := by simp
  have hwhole : es ++ e :: (bs ++ cs) = es ++ [e] ++ (bs ++ cs) := by simp
  rw [hsplit, hwhole, runFrom_append loaders.next _ (es ++ [e]) bs, runFrom_append loaders.next _ (es ++ [e]) (bs ++ cs),
    runFrom_append loaders.next _ bs cs]
  have hbefore := tracked_before calls clock (es ++ [e])
  generalize runFrom loaders.next (nothingLoaded calls clock) (es ++ [e]) = p at hbefore ⊢
  intro hi hreturned hfinds
  obtain ⟨hvisited, hvisited'⟩ := stepsMeet_append.mp (stepsMeet_visited p (bs ++ cs))
  -- Until the publication has returned, and from then on with late calls.
  have hreturning : Tracked (visited p (bs ++ cs)) p.state.clock (fun _ _ => False) (runFrom loaders.next p bs) := by
    refine steps_inv ?_ hbefore.since hvisited
    intro q e hq hg
    exact tracked_next tenantId (fun _ _ h => h.elim) hq (.inl hg) (.inl fun _ _ h => h)
  have hafter := steps_inv (J := Tracked (visited p (bs ++ cs)) p.state.clock fun i call =>
      (runFrom loaders.next p bs).threads.length ≤ i ∧ call.tenantId = tenantId)
    (fun q e hq he => tracked_next tenantId (fun _ _ h => h.2) hq (.inl he.1) (.inr he.2)) (hreturning.late tenantId)
    (hvisited'.and hfinds)
  cases hafter.placed hreturned with
  | asking hq => cases hq
  | since g hg now hload =>
    cases hload with
    | returned hcomputed => exact hcomputed
  | before hlate => exact absurd ⟨hi, htenant⟩ hlate

/-- The live entry that an event finds. -/
def found (p : Loads) (e : LoadEvent) : Option CacheEntry :=
  (p.issues e).bind fun kc => match kc.2 with
    | .lookup key => (p.state.cache key).filter fun entry => p.state.clock < entry.expiresAt
    | _ => none

/-- Nothing outlives a publication when nothing live is ever found. -/
theorem noneOutlives_of_notFound {tenantId : String} {p : Loads} {run : List LoadEvent}
    (h : StepsMeet loaders.next (fun p e => (found p e).isNone) p run) : NoneOutlives tenantId p run := by
  rintro es e bs cs rfl _
  have hwhole : es ++ e :: (bs ++ cs) = es ++ e :: bs ++ cs := by simp
  rw [hwhole] at h
  refine (stepsMeet_append.mp h).2.mono ?_
  intro q f hnone call key hissues _ entry hentry hlive
  have hfound : found q f = some entry := by
    simp only [found, hissues, Option.bind_some]
    exact Option.filter_eq_some_iff.mpr ⟨hentry, decide_eq_true hlive⟩
  rw [hfound] at hnone
  cases hnone

/-! ## A mapping that is replaced -/

def steps (i n : ℕ) : List CallEvent := List.replicate n (.step i)

/-- An ObjectType with a mapping is published. -/
def mappingPublished : List LoadEvent :=
  (.start ⟨⟨"t", "u", "1", "a"⟩, .create .objectType [(.assetMapping, .dict [("read_asset_path", .str "old")])]⟩ ::
    steps 0 2 ++ .start ⟨⟨"t", "u", "2", "b"⟩, .submitToStaging .objectType "ri.obj.a"⟩ ::
    steps 1 3 ++ .start ⟨⟨"t", "u", "3", "c"⟩, .commitStaging none⟩ :: steps 2 14).map fun e => .env (.ontology e)

/-- Somebody asks for its schema. -/
def schemaAsked (i n : ℕ) : List LoadEvent := .start ⟨"ri.obj.a", "t"⟩ :: List.replicate n (.step i)

/-- The mapping is edited, and committed up to the last query that writes to the graph. -/
def mappingReplaced : List LoadEvent :=
  (.start ⟨⟨"t", "u", "4", "d"⟩, .acquireLock "ri.obj.a"⟩ :: steps 3 1 ++
    .start ⟨⟨"t", "u", "5", "e"⟩, .update .objectType "ri.obj.a"
      [(.assetMapping, .dict [("read_asset_path", .str "new")])]⟩ :: steps 4 5 ++
    .start ⟨⟨"t", "u", "6", "f"⟩, .submitToStaging .objectType "ri.obj.a"⟩ :: steps 5 3 ++
    .start ⟨⟨"t", "u", "7", "g"⟩, .commitStaging none⟩ :: steps 6 7).map fun e => .env (.ontology e)

def beforePublication : List LoadEvent := mappingPublished ++ schemaAsked 0 5 ++ mappingReplaced

/-- The last query of the commit, its return, and another that asks for the schema. -/
def replacementPublished : LoadEvent := .env (.ontology (.step 6))

def publicationReturning : List LoadEvent := (steps 6 6).map fun e => .env (.ontology e)

def mappingOf (path : String) : Value := .dict [("read_asset_path", .str path)]

/-- The state when the commit has written to the graph for the last time. -/
def replaced : Loads := runFrom loaders.next (nothingLoaded noCalls 0) (beforePublication ++ [replacementPublished])

theorem replacement_published : Published "t" (runFrom loaders.next (nothingLoaded noCalls 0) beforePublication)
    replacementPublished (runFrom loaders.next (nothingLoaded noCalls 0)
      (beforePublication ++ replacementPublished :: publicationReturning)) :=
  ⟨6, by decide +kernel, by decide +kernel⟩

/-- From then on the graph has the new mapping, and the call still gets the old one. -/
theorem schema_stale : (∀ fs ∈ (publicationReturning ++ schemaAsked 1 1).inits,
    ((runFrom loaders.next replaced fs).state.graph.getActiveNode .objectType "ri.obj.a" "t").map
      (fun n => deserializeFromNeo4j n.props .assetMapping) = some (mappingOf "new")) ∧
    (runFrom loaders.next (nothingLoaded noCalls 0)
      (beforePublication ++ replacementPublished :: publicationReturning)).threads.length = 1 ∧
    ((runFrom loaders.next (nothingLoaded noCalls 0) (beforePublication ++ replacementPublished ::
      (publicationReturning ++ schemaAsked 1 1))).threads[1]?).map
      (fun t => (t.1, t.2.returned.map SchemaInfo.assetMapping)) = some (⟨"ri.obj.a", "t"⟩, some (mappingOf "old")) := by
  decide +kernel

theorem schema_not_fresh : ¬ ∀ (tenantId : String) (calls : Calls) (clock : ℕ) (run : List LoadEvent),
    SchemasFresh tenantId (nothingLoaded calls clock) run := by
  intro h
  have hfresh := h "t" noCalls 0 _ beforePublication replacementPublished publicationReturning (schemaAsked 1 1) rfl
    replacement_published
  obtain ⟨hgraph, hlength, hreturned⟩ := schema_stale
  obtain ⟨⟨call, q⟩, ht, hasked⟩ := Option.map_eq_some_iff.mp hreturned
  obtain ⟨rfl, hmapping⟩ := Prod.mk.inj hasked
  obtain ⟨schema, hschema, hold⟩ := Option.map_eq_some_iff.mp hmapping
  obtain rfl : q = .pure schema := by
    cases q with
    | pure a => rw [Option.some.inj hschema]
    | throw | call => cases hschema
  obtain ⟨g₁, g₂, g₃, g₄, _, _, ⟨fs, hfs, rfl⟩, _, hcomputed⟩ := hfresh 1 _ schema hlength.le ht rfl
  have hnew := hgraph fs ((List.mem_inits _ _).mpr hfs)
  obtain ⟨n, hn, hmapped⟩ := Option.map_eq_some_iff.mp hnew
  have hread : SchemaCall.mappedRead ⟨"ri.obj.a", "t"⟩ (runFrom loaders.next replaced fs).state.graph g₄ = some n := by
    simp only [SchemaCall.mappedRead, hn]
  have hkept := (schemaLoop_kept hcomputed).2
  rw [← replaced, hread] at hkept
  have hpath : mappingOf "old" = mappingOf "new" := hold.symm.trans (hkept.trans hmapped)
  exact absurd hpath (by decide)

/-- The second call comes when the schema has expired. -/
theorem schemas_fresh_expired : SchemasFresh "t" (nothingLoaded noCalls 0) (beforePublication ++ replacementPublished ::
    (publicationReturning ++ .env (.tick 300) :: schemaAsked 1 5)) :=
  schemas_fresh (noneOutlives_of_notFound (by decide +kernel))

end Lingshu.Ontology
