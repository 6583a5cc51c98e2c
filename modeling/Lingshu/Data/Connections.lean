import Lingshu.Data.Pipeline
import Lingshu.Interaction.Run
import Mathlib.Data.Int.Notation
import Mathlib.Data.List.Nodup

/-! # Connections and their connectors

The `connections` table and the connectors that `DataServiceImpl` keeps for its rows. The calls come one after
another; what a call takes from outside (a new rid, the answer of a data source) is in the call. -/
namespace Lingshu.Data
open Json Interaction
set_option autoImplicit false

inductive ErrorCode where
  | dataSourceUnreachable
  | dataSourceNotFound
  | dataAssetNotMapped
  | dataMaskedFieldNotSortable
  deriving DecidableEq, Repr

structure AppError where
  code : ErrorCode
  message : String
  deriving DecidableEq, Repr

/-! ## Rows and connectors -/

structure Connection where
  rid : String
  tenantId : String
  displayName : String
  type : String
  config : Assoc Value
  credentials : Option String
  status : String := "disconnected"
  statusMessage : Option String := none
  lastTestedAt : Option ℤ := none
  deriving DecidableEq

structure PostgreSQLConnector where
  config : Assoc Value
  deriving DecidableEq

structure ConnectionTestResult where
  success : Bool
  error : Option String := none
  deriving DecidableEq

/-- The fields of `UpdateConnectionRequest`; one that is `none` is left out of the updates. -/
structure ConnectionUpdate where
  displayName : Option String := none
  config : Option (Assoc Value) := none
  credentials : Option String := none
  deriving DecidableEq

def ConnectionUpdate.apply (u : ConnectionUpdate) (conn : Connection) : Connection :=
  { conn with
    displayName := u.displayName.getD conn.displayName
    config := u.config.getD conn.config
    credentials := u.credentials <|> conn.credentials }

/-- The connector that `_get_or_create_connector` makes of a row. -/
def buildConnector (conn : Connection) : Except AppError PostgreSQLConnector :=
  if conn.type = "postgresql" then
    match nonempty conn.credentials with
    | some credentials => .ok ⟨conn.config.set "password" (.str credentials)⟩
    | none => .ok ⟨conn.config⟩
  else .error ⟨.dataSourceUnreachable, "Unsupported connection type: " ++ conn.type⟩

structure DataState where
  connections : List Connection := []
  connectors : Assoc PostgreSQLConnector := []

namespace DataState

/-- `ConnectionRepository.get_by_rid`. -/
def getByRid (s : DataState) (rid tenantId : String) : Option Connection :=
  s.connections.find? fun conn => conn.rid = rid ∧ conn.tenantId = tenantId

/-- `ConnectionRepository.update_fields`. -/
def updateFields (s : DataState) (rid tenantId : String) (fields : Connection → Connection) : List Connection :=
  s.connections.map fun conn => if conn.rid = rid ∧ conn.tenantId = tenantId then fields conn else conn

/-- `_get_or_create_connector`. -/
def getOrCreateConnector (s : DataState) (conn : Connection) : Except AppError (Assoc PostgreSQLConnector) :=
  match s.connectors.lookup conn.rid with
  | some _ => .ok s.connectors
  | none => (buildConnector conn).map fun connector => s.connectors.set conn.rid connector

/-- `_get_connector_by_rid`; the tenant is not looked at. -/
def getConnectorByRid (s : DataState) (connRid _tenantId : String) : Except AppError PostgreSQLConnector :=
  match s.connectors.lookup connRid with
  | some connector => .ok connector
  | none => .error ⟨.dataSourceNotFound, "Connection " ++ connRid ++ " not found or not initialized"⟩

/-- The connector that `query_instances` and `get_instance` read through. -/
def readConnector (s : DataState) (typeRid tenantId : String) :
    Option AssetMapping → Except AppError PostgreSQLConnector
  | none => .error ⟨.dataAssetNotMapped, "No asset mapping configured for " ++ typeRid⟩
  | some mapping => s.getConnectorByRid mapping.readConnectionId tenantId

end DataState

/-! ## Calls -/

inductive DataCall where
  | createConnection (tenantId rid displayName connType : String) (config : Assoc Value) (credentials : Option String)
  | updateConnection (tenantId rid : String) (updates : ConnectionUpdate)
  | deleteConnection (tenantId rid : String)
  | testConnection (tenantId rid : String) (result : ConnectionTestResult) (now : ℤ)
  | queryInstances (tenantId typeRid : String) (assetMapping : Option AssetMapping)
  | getInstance (tenantId typeRid : String) (assetMapping : Option AssetMapping)

/-- What is stored after a call; one that raises leaves everything as it is. -/
def DataState.next (s : DataState) : DataCall → DataState
  | .createConnection tenantId rid displayName connType config credentials =>
    if rid ∈ s.connections.map Connection.rid then s
    else
      { s with connections := s.connections ++ [{ rid, tenantId, displayName, type := connType, config, credentials }] }
  | .updateConnection tenantId rid updates =>
    match s.getByRid rid tenantId with
    | none => s
    | some _ =>
      { connections := s.updateFields rid tenantId updates.apply, connectors := s.connectors.pop rid }
  | .deleteConnection tenantId rid =>
    match s.getByRid rid tenantId with
    | none => s
    | some _ =>
      { connections := s.connections.filter fun conn => ¬(conn.rid = rid ∧ conn.tenantId = tenantId)
        connectors := s.connectors.pop rid }
  | .testConnection tenantId rid result now =>
    match s.getByRid rid tenantId with
    | none => s
    | some conn =>
      match s.getOrCreateConnector conn with
      | .error _ => s
      | .ok connectors =>
        { connections := s.updateFields rid tenantId fun conn =>
            { conn with
              status := if result.success then "connected" else "error"
              statusMessage := result.error
              lastTestedAt := some now }
          connectors }
  | .queryInstances _ _ _ | .getInstance _ _ _ => s

/-! ## What reads use -/

/-- The connector of a read in the tenant is that of a stored connection of the tenant, as it is now configured. -/
def DataState.UsesOwn (s : DataState) (tenantId typeRid : String) (assetMapping : Option AssetMapping) : Prop :=
  ∀ connector, s.readConnector typeRid tenantId assetMapping = .ok connector →
    ∃ mapping, assetMapping = some mapping ∧ ∃ conn ∈ s.connections, conn.rid = mapping.readConnectionId ∧
      conn.tenantId = tenantId ∧ buildConnector conn = .ok connector

/-- The connection that the mapping names is the tenant's, or no connector is kept for it. -/
def DataState.Names (s : DataState) (tenantId : String) (assetMapping : Option AssetMapping) : Prop :=
  ∀ mapping, assetMapping = some mapping → ∀ conn ∈ s.connections, conn.rid = mapping.readConnectionId →
    (s.connectors.lookup conn.rid).isSome → conn.tenantId = tenantId

/-- A property of the reads among the calls. -/
def DataCall.Reads (P : (tenantId typeRid : String) → Option AssetMapping → Prop) : DataCall → Prop
  | .queryInstances tenantId typeRid assetMapping | .getInstance tenantId typeRid assetMapping =>
    P tenantId typeRid assetMapping
  | _ => True

/-! ## Every run -/

/-- A connector is kept only for a stored connection, and is the one that its row makes now. -/
structure DataState.Consistent (s : DataState) : Prop where
  unique : (s.connections.map Connection.rid).Nodup
  built : ∀ rid connector, s.connectors.lookup rid = some connector →
    ∃ conn ∈ s.connections, conn.rid = rid ∧ buildConnector conn = .ok connector

namespace DataState
variable {s : DataState}

theorem getByRid_mem {rid tenantId : String} {conn : Connection} (h : s.getByRid rid tenantId = some conn) :
    conn ∈ s.connections ∧ conn.rid = rid ∧ conn.tenantId = tenantId := by
  have hkey := List.find?_some h
  rw [decide_eq_true_eq] at hkey
  exact ⟨List.mem_of_find?_eq_some h, hkey⟩

/-- A row is found by its rid alone. -/
theorem Consistent.eq_of_rid (h : s.Consistent) {conn conn' : Connection} (hc : conn ∈ s.connections)
    (hc' : conn' ∈ s.connections) (hrid : conn.rid = conn'.rid) : conn = conn' :=
  List.inj_on_of_nodup_map h.unique hc hc' hrid

theorem consistent_empty : ({} : DataState).Consistent := ⟨List.nodup_nil, fun _ _ h => nomatch h⟩

section Rows
variable (fields : Connection → Connection) (hrid : ∀ conn, (fields conn).rid = conn.rid)
include hrid

theorem updateFields_rids (s : DataState) (rid tenantId : String) :
    (s.updateFields rid tenantId fields).map Connection.rid = s.connections.map Connection.rid := by
  rw [updateFields, List.map_map]
  refine List.map_congr_left fun conn _ => ?_
  rw [Function.comp_apply]
  split
  · exact hrid conn
  · rfl

end Rows

theorem mem_updateFields_of_ne {rid tenantId : String} (fields : Connection → Connection) {conn : Connection}
    (h : conn ∈ s.connections) (hne : conn.rid ≠ rid) : conn ∈ s.updateFields rid tenantId fields :=
  List.mem_map.mpr ⟨conn, h, if_neg fun hkey => hne hkey.1⟩

/-- Kept connectors of other rids stay what they were. -/
theorem built_of_pop {connections : List Connection} {rid : String}
    (hother : ∀ conn ∈ s.connections, conn.rid ≠ rid → conn ∈ connections) (h : s.Consistent) (name : String)
    (connector : PostgreSQLConnector) (hname : (s.connectors.pop rid).lookup name = some connector) :
    ∃ conn ∈ connections, conn.rid = name ∧ buildConnector conn = .ok connector := by
  rw [Assoc.lookup_pop] at hname
  split at hname
  · cases hname
  next hne =>
    obtain ⟨conn, hmem, rfl, hbuild⟩ := h.built name connector hname
    exact ⟨conn, hother conn hmem hne, rfl, hbuild⟩

/-- The kept connectors, with that of a stored connection among them. -/
theorem built_getOrCreate (h : s.Consistent) {conn : Connection} (hconn : conn ∈ s.connections)
    {connectors : Assoc PostgreSQLConnector} (hget : s.getOrCreateConnector conn = .ok connectors) (name : String)
    (connector : PostgreSQLConnector) (hname : connectors.lookup name = some connector) :
    ∃ conn ∈ s.connections, conn.rid = name ∧ buildConnector conn = .ok connector := by
  unfold getOrCreateConnector at hget
  split at hget
  · obtain rfl := Except.ok.inj hget
    exact h.built name connector hname
  · cases hbuild : buildConnector conn with
    | error e =>
      rw [hbuild] at hget
      cases hget
    | ok built =>
      rw [hbuild] at hget
      obtain rfl := Except.ok.inj hget
      rw [Assoc.lookup_set] at hname
      split at hname
      next heq =>
        obtain rfl := Option.some.inj hname
        exact ⟨conn, hconn, heq.symm, hbuild⟩
      next => exact h.built name connector hname

/-- Every call keeps the connectors in step with the rows. -/
theorem Consistent.next (h : s.Consistent) (call : DataCall) : (s.next call).Consistent := by
  cases call with
  | createConnection tenantId rid displayName connType config credentials =>
    dsimp only [DataState.next]
    split
    · exact h
    next hnew =>
      refine ⟨?_, fun name connector hname => ?_⟩
      · rw [List.map_append, List.nodup_append]
        refine ⟨h.unique, List.nodup_singleton _, fun a ha b hb hab => ?_⟩
        obtain rfl := hab.trans (List.mem_singleton.mp hb)
        exact hnew ha
      · obtain ⟨conn, hmem, hrid, hbuild⟩ := h.built name connector hname
        exact ⟨conn, List.mem_append_left _ hmem, hrid, hbuild⟩
  | updateConnection tenantId rid updates =>
    dsimp only [DataState.next]
    split
    · exact h
    · refine ⟨?_, built_of_pop (fun conn hmem hne => mem_updateFields_of_ne _ hmem hne) h⟩
      have hrids := updateFields_rids updates.apply (fun _ => rfl) s rid tenantId
      exact hrids ▸ h.unique
  | deleteConnection tenantId rid =>
    dsimp only [DataState.next]
    split
    · exact h
    · refine ⟨h.unique.sublist (List.filter_sublist.map _), built_of_pop (fun conn hmem hne => ?_) h⟩
      exact List.mem_filter.mpr ⟨hmem, by simp [hne]⟩
  | testConnection tenantId rid result now =>
    dsimp only [DataState.next]
    split
    · exact h
    next conn hconn =>
      split
      · exact h
      next connectors hget =>
        refine ⟨?_, fun name connector hname => ?_⟩
        · have hrids := updateFields_rids (fun conn : Connection =>
            { conn with
              status := if result.success then "connected" else "error"
              statusMessage := result.error
              lastTestedAt := some now }) (fun _ => rfl) s rid tenantId
          exact hrids ▸ h.unique
        · obtain ⟨stored, hmem, hrid, hbuild⟩ := built_getOrCreate h (getByRid_mem hconn).1 hget name connector hname
          refine ⟨_, List.mem_map_of_mem hmem, ?_, ?_⟩
          · split <;> exact hrid
          · split <;> exact hbuild
  | queryInstances tenantId typeRid assetMapping => exact h
  | getInstance tenantId typeRid assetMapping => exact h

/-- What a read uses, from a state in step. -/
theorem Consistent.usesOwn_iff (h : s.Consistent) (tenantId typeRid : String) (assetMapping : Option AssetMapping) :
    s.UsesOwn tenantId typeRid assetMapping ↔ s.Names tenantId assetMapping := by
  constructor
  · rintro huses mapping rfl conn hmem hrid hkept
    obtain ⟨connector, hlookup⟩ := Option.isSome_iff_exists.mp hkept
    rw [hrid] at hlookup
    obtain ⟨_, hmapping, own, hown, hownRid, htenant, -⟩ :=
      huses connector (by simp [readConnector, getConnectorByRid, hlookup])
    obtain rfl := Option.some.inj hmapping
    rw [h.eq_of_rid hmem hown (hrid.trans hownRid.symm)]
    exact htenant
  · intro hnames connector hread
    cases assetMapping with
    | none => cases hread
    | some mapping =>
      cases hlookup : s.connectors.lookup mapping.readConnectionId with
      | none => simp [readConnector, getConnectorByRid, hlookup] at hread
      | some kept =>
        simp only [readConnector, getConnectorByRid, hlookup, Except.ok.injEq] at hread
        obtain rfl := hread
        obtain ⟨conn, hmem, hrid, hbuild⟩ := h.built _ _ hlookup
        exact ⟨mapping, rfl, conn, hmem, hrid, hnames mapping rfl conn hmem hrid (by rw [hrid, hlookup]; rfl), hbuild⟩

end DataState

/-- In every sequence of calls, from a service that has just started: all reads go through the reader's own
connections exactly when each one's mapping names no connection of another tenant for which a connector is kept. -/
theorem reads_own_iff (calls : List DataCall) :
    StepsMeet DataState.next (fun s call => call.Reads s.UsesOwn) {} calls ↔
      StepsMeet DataState.next (fun s call => call.Reads fun tenantId _ => s.Names tenantId) {} calls := by
  have hkeeps : ∀ (s : DataState) (call : DataCall), s.Consistent → (s.next call).Consistent :=
    fun _ call h => h.next call
  have hiff : ∀ (s : DataState) (call : DataCall), s.Consistent →
      (call.Reads s.UsesOwn ↔ call.Reads fun tenantId _ => s.Names tenantId) := by
    intro s call h
    cases call with
    | queryInstances tenantId typeRid assetMapping => exact h.usesOwn_iff tenantId typeRid assetMapping
    | getInstance tenantId typeRid assetMapping => exact h.usesOwn_iff tenantId typeRid assetMapping
    | _ => exact Iff.rfl
  constructor
  · exact StepsMeet.of_inv (fun s call h huses => ⟨hkeeps s call h, (hiff s call h).mp huses⟩)
      DataState.consistent_empty
  · exact StepsMeet.of_inv (fun s call h hnames => ⟨hkeeps s call h, (hiff s call h).mpr hnames⟩)
      DataState.consistent_empty

/-! ### Another tenant's connection -/

/-- Tenant `t` tests its connection; then tenant `u` reads a type that is mapped to it. -/
def foreignRead : List DataCall :=
  [.createConnection "t" "ri.conn.1" "Orders" "postgresql" [("host", .str "db")] (some "secret"),
    .testConnection "t" "ri.conn.1" { success := true } 0,
    .queryInstances "u" "ri.obj.1" (some { readConnectionId := "ri.conn.1", readAssetPath := "orders" })]

theorem not_reads_own_foreign : ¬StepsMeet DataState.next (fun s call => call.Reads s.UsesOwn) {} foreignRead := by
  rintro ⟨-, -, huses, -⟩
  obtain ⟨_, hmapping, conn, hmem, -, htenant, -⟩ := huses ⟨[("host", .str "db"), ("password", .str "secret")]⟩ rfl
  obtain rfl := List.mem_singleton.mp hmem
  exact absurd htenant (by decide)

end Lingshu.Data
