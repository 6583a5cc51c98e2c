import Lingshu.Ontology.Encoding
import Lingshu.Ontology.FieldDiff
import Lingshu.Ontology.Restoration
import Lingshu.Ontology.Snapshots

/-! # Field diffs of snapshots

`get_field_diff` compares what two commits had staged. The Active views right after the commits also hold what was
published before, and hold nothing of an entity that was staged for deletion. -/
namespace Lingshu.Ontology
open Json Interaction
set_option autoImplicit false

/-! ## Reports -/

/-- What a report says of one field. -/
inductive FieldEntry where
  | added (new : Value)
  | removed (old : Value)
  | changed (change : FieldChange)
  deriving DecidableEq

/-- The body of the loop of `_compute_field_diff`, for the two values of a key. -/
def fieldEntry : Option Value → Option Value → Option FieldEntry
  | none, some new => some (.added new)
  | some old, none => some (.removed old)
  | some old, some new => if old.equal new then none else some (.changed ⟨old, new⟩)
  | none, none => none

/-- What the three dicts of a report have under a key. -/
def FieldDiff.entry (diff : FieldDiff) (key : String) : Option FieldEntry :=
  ((diff.added.lookup key).map .added).or
    (((diff.removed.lookup key).map .removed).or ((diff.changed.lookup key).map .changed))

/-- A property that is not null. -/
def Props.value (props : Props) (f : Field) : Option Value :=
  match props f with
  | .null => none
  | v => some v

/-- `data.get(rid, {})`, of the `entity_data` of a snapshot that may not be there. -/
def fieldsOf (snap : Option Snapshot) (rid : String) : Props :=
  (snap.bind fun s => s.entityData rid).getD fun _ => .null

/-- `get_field_diff`: what the report has of an entity and a field. An entity with no entry is left out. -/
def getFieldDiff (snapshotIdA snapshotIdB : String) : Program (String → Field → Option FieldEntry) := do
  let snapA ← getById snapshotIdA
  let snapB ← getById snapshotIdB
  return fun rid f => fieldEntry (Props.value (fieldsOf snapA rid) f) (Props.value (fieldsOf snapB rid) f)

/-! ## Views -/

/-- The contents of the Active versions of an entity, whatever its label. -/
def World.activeContents (w : World) (tenantId rid : String) : Set Props :=
  {content | ∃ label, content ∈ w.activeView tenantId label rid}

/-- The fields of the one content that a set has, or no field of none. -/
inductive Shows (contents : Set Props) : Props → Prop where
  | absent (h : contents = ∅) : Shows contents fun _ => .null
  | version {content : Props} (h : contents = {content}) : Shows contents (deserializeFromNeo4j content)

/-- A field that is not internal and that a publication does not write. -/
def Field.OfContent (f : Field) : Prop := f ≠ .isStaging ∧ f ≠ .snapshotId ∧ f.name.startsWith "_" = false

instance (f : Field) : Decidable f.OfContent := inferInstanceAs (Decidable (_ ∧ _ ∧ _))

/-- The entry says how a field differs. -/
structure Describes (old new : Option Value) (entry : Option FieldEntry) : Prop where
  added : ∀ v, entry = some (.added v) ↔ old = none ∧ new = some v
  removed : ∀ v, entry = some (.removed v) ↔ old = some v ∧ new = none
  changed : ∀ v v', entry = some (.changed ⟨v, v'⟩) ↔ old = some v ∧ new = some v' ∧ v.equal v' = false

/-- A report has of an entity what differs between two views. -/
def TellsDifference (before after : Set Props) (diff : Field → Option FieldEntry) : Prop :=
  ∃ old new, Shows before old ∧ Shows after new ∧
    ∀ f, f.OfContent → Describes (Props.value old f) (Props.value new f) (diff f)

/-! ## Entries -/

section Entries
variable {old new : Option Value} {entry : Option FieldEntry}

/-- The three dicts of a report, as one entry for each key. -/
theorem entry_computeFieldDiff {a b : Assoc Value} (allKeys : AllKeys a b) (key : String) :
    (computeFieldDiff a b allKeys).entry key = fieldEntry (a.lookup key) (b.lookup key) := by
  rw [FieldDiff.entry, lookup_added, lookup_removed, lookup_changed, addedAt, removedAt, changedAt]
  cases a.lookup key with
  | none => cases b.lookup key <;> rfl
  | some old =>
    cases b.lookup key with
    | none => rfl
    | some new =>
      simp only [fieldEntry]
      split <;> rfl

/-- Both values are missing, or both are there and equal. -/
def EqualValues (old new : Option Value) : Prop := Option.Rel (fun v w => v.equal w = true) old new

theorem fieldEntry_none_iff : fieldEntry old new = none ↔ EqualValues old new := by
  unfold EqualValues
  cases old with
  | none => cases new <;> simp [fieldEntry]
  | some v => cases new <;> simp [fieldEntry]

theorem describes_fieldEntry : Describes old new (fieldEntry old new) := by
  constructor
  · intro v
    cases old <;> cases new <;> simp [fieldEntry]
  · intro v
    cases old <;> cases new <;> simp [fieldEntry]
  · intro v v'
    cases old with
    | none => cases new <;> simp [fieldEntry]
    | some a =>
      cases new with
      | none => simp [fieldEntry]
      | some b =>
        simp only [fieldEntry]
        split <;> grind

/-- There is one right entry. -/
theorem describes_iff : Describes old new entry ↔ entry = fieldEntry old new := by
  refine ⟨fun h => Option.ext fun change => ?_, fun h => h ▸ describes_fieldEntry⟩
  have h' := @describes_fieldEntry old new
  cases change with
  | added v => exact (h.added v).trans (h'.added v).symm
  | removed v => exact (h.removed v).trans (h'.removed v).symm
  | changed change => exact (h.changed change.old change.new).trans (h'.changed change.old change.new).symm

/-- An entry other than none tells both values. -/
theorem fieldEntry_eq_iff {a b : Option Value} :
    fieldEntry a b = fieldEntry old new ↔ (a = old ∧ b = new) ∨ (EqualValues a b ∧ EqualValues old new) := by
  constructor
  · intro h
    cases he : fieldEntry old new with
    | none => exact .inr ⟨fieldEntry_none_iff.mp (h.trans he), fieldEntry_none_iff.mp he⟩
    | some change =>
      have hold := he
      rw [← h] at he
      have h1 := @describes_fieldEntry a b
      have h2 := @describes_fieldEntry old new
      cases change with
      | added v =>
        obtain ⟨ha, hb⟩ := (h1.added v).mp he
        obtain ⟨ho, hn⟩ := (h2.added v).mp hold
        exact .inl ⟨ha.trans ho.symm, hb.trans hn.symm⟩
      | removed v =>
        obtain ⟨ha, hb⟩ := (h1.removed v).mp he
        obtain ⟨ho, hn⟩ := (h2.removed v).mp hold
        exact .inl ⟨ha.trans ho.symm, hb.trans hn.symm⟩
      | changed change =>
        obtain ⟨ha, hb, _⟩ := (h1.changed change.old change.new).mp he
        obtain ⟨ho, hn, _⟩ := (h2.changed change.old change.new).mp hold
        exact .inl ⟨ha.trans ho.symm, hb.trans hn.symm⟩
  · rintro (⟨rfl, rfl⟩ | ⟨hab, hon⟩)
    · rfl
    · rw [fieldEntry_none_iff.mpr hab, fieldEntry_none_iff.mpr hon]

end Entries

/-! ## What a commit records and what it shows -/

/-- The Staging versions of an entity. -/
def World.stagedOf (w : World) (tenantId rid : String) : List Node :=
  (w.graph.getStagingNodes tenantId).filter fun n => n.rid = rid

/-- What `entity_data` has of a node. -/
def recordedProps (n : Node) : Props := fun f =>
  if f.name.startsWith "_" then .null else deserializeFromNeo4j n.props f

/-- The fields that a commit records of an entity: those of the last of its Staging versions, whether it is staged for
publication or for deletion. -/
def World.recordOf (w : World) (tenantId rid : String) : Props :=
  ((w.stagedOf tenantId rid).getLast?.map recordedProps).getD fun _ => .null

/-- The Active view of an entity overridden by what is staged of it. -/
def World.overlaidContents (w : World) (ctx : Ctx) (rid : String) : Set Props :=
  {content | ∃ label, content ∈ w.overlaid ctx label rid}

/-- At every field of content, each of two commits has recorded what it shows, or neither what they have recorded nor
what they show differs. -/
def Comparable (ctx ctx' : Ctx) (w w' : World) (rid : String) : Prop :=
  ∃ old new, Shows (w.overlaidContents ctx rid) old ∧ Shows (w'.overlaidContents ctx' rid) new ∧
    ∀ f, f.OfContent →
      Props.value (w.recordOf ctx.tenantId rid) f = Props.value old f ∧
        Props.value (w'.recordOf ctx'.tenantId rid) f = Props.value new f ∨
      EqualValues (Props.value (w.recordOf ctx.tenantId rid) f) (Props.value (w'.recordOf ctx'.tenantId rid) f) ∧
        EqualValues (Props.value old f) (Props.value new f)

section EntityData
variable {rid : String}

/-- The last node of a rid is the one that stays. -/
theorem entityDataOf_eq (hrid : rid ≠ "") (nodes : List Node) (data : String → Option Props) :
    entityDataOf nodes data rid =
      (((nodes.filter fun n => n.rid = rid).getLast?.map recordedProps).or (data rid)) := by
  induction nodes generalizing data with
  | nil => rfl
  | cons n nodes ih =>
    unfold entityDataOf
    by_cases hn : n.rid = rid
    · rw [if_neg (hn ▸ hrid), ih, hn, Function.update_self, List.filter_cons_of_pos (by simpa using hn),
        List.getLast?_cons]
      cases (nodes.filter fun n => n.rid = rid).getLast? <;> rfl
    · have hrest : (n :: nodes).filter (fun n => n.rid = rid) = nodes.filter fun n => n.rid = rid :=
        List.filter_cons_of_neg (by simpa using hn)
      rw [hrest]
      split
      · exact ih data
      · rw [ih, Function.update_of_ne (Ne.symm hn)]

theorem Node.Sound.rid_ne {calls : List Call} {n : Node} (h : n.Sound calls) : n.rid ≠ "" := by
  obtain ⟨call, -, hdescends⟩ := h.descends
  have hrid := Value.str.inj (h.rid.symm.trans hdescends.rid)
  rw [hrid, generateRid]
  intro hempty
  have hlength := congrArg (fun s => s.toList.length) hempty
  simp at hlength

/-- What is stored of an entity in `entity_data`. -/
theorem entityDataOf_staged {calls : List Call} {w : World} (hw : w.Sound calls) (tenantId rid : String) :
    (entityDataOf (w.graph.getStagingNodes tenantId) (fun _ => none) rid).getD (fun _ => .null) =
      w.recordOf tenantId rid := by
  by_cases hrid : rid = ""
  · have hnone : ∀ n ∈ w.graph.getStagingNodes tenantId, n.rid ≠ rid := fun n hn =>
      hrid ▸ (hw.nodes n (Graph.mem_getStagingNodes.mp hn).1).rid_ne
    have hempty : w.stagedOf tenantId rid = [] :=
      List.filter_eq_nil_iff.mpr fun n hn => by simpa using hnone n hn
    have hskip : ∀ (nodes : List Node) (data : String → Option Props), (∀ n ∈ nodes, n.rid ≠ rid) →
        entityDataOf nodes data rid = data rid := by
      intro nodes
      induction nodes with
      | nil => exact fun _ _ => rfl
      | cons n nodes ih =>
        intro data hnodes
        have hrest := fun m hm => hnodes m (List.mem_cons_of_mem _ hm)
        unfold entityDataOf
        split
        · exact ih data hrest
        · rw [ih _ hrest]
          exact Function.update_of_ne (hnodes n List.mem_cons_self).symm _ _
    rw [hskip _ _ hnone, World.recordOf, hempty]
    rfl
  · rw [entityDataOf_eq hrid, Option.or_none]
    rfl

end EntityData

/-- A commit records what it shows of an entity: it publishes the one Staging version, or the entity is neither staged
nor Active. -/
inductive Told (ctx : Ctx) (w : World) (rid : String) : Prop where
  | published {n : Node} (hstaged : w.stagedOf ctx.tenantId rid = [n]) (hactive : n.has .isActive (.bool true))
  | nowhere (hstaged : w.stagedOf ctx.tenantId rid = []) (hactive : w.activeContents ctx.tenantId rid = ∅)

/-- Two commits that have an entity in one of three ways. -/
inductive Matched (ctx ctx' : Ctx) (w w' : World) (rid : String) : Prop where
  | told (h : Told ctx w rid) (h' : Told ctx' w' rid)
  /-- Both delete it, with contents that are alike. -/
  | deleted {n n' : Node} (hstaged : w.stagedOf ctx.tenantId rid = [n]) (hstaged' : w'.stagedOf ctx'.tenantId rid = [n'])
      (hactive : n.has .isActive (.bool false)) (hactive' : n'.has .isActive (.bool false))
      (hfields : ∀ f, f.OfContent → EqualValues (Props.value (recordedProps n) f) (Props.value (recordedProps n') f))
  /-- Neither touches it, and its Active versions are alike. -/
  | kept {old new : Props} (hstaged : w.stagedOf ctx.tenantId rid = []) (hstaged' : w'.stagedOf ctx'.tenantId rid = [])
      (hshows : Shows (w.activeContents ctx.tenantId rid) old)
      (hshows' : Shows (w'.activeContents ctx'.tenantId rid) new)
      (hfields : ∀ f, f.OfContent → EqualValues (Props.value old f) (Props.value new f))

section Kinds
variable {calls calls' : List Call} {ctx ctx' : Ctx} {w w' : World} {rid : String} {n : Node} {fields : Props}

theorem mem_stagedOf : n ∈ w.stagedOf ctx.tenantId rid ↔
    n ∈ w.graph.nodes ∧ n.ofTenant ctx.tenantId ∧ n.staging ∧ n.rid = rid := by
  simp only [World.stagedOf, List.mem_filter, Graph.mem_getStagingNodes, decide_eq_true_eq, and_assoc]

/-- The Staging versions of an entity, as `overlaid` has them. -/
theorem keyed_of_mem_stagedOf (hw : w.Sound calls) (h : n ∈ w.stagedOf ctx.tenantId rid) :
    n.keyed n.label rid ctx.tenantId := by
  obtain ⟨hn, ht, -, rfl⟩ := mem_stagedOf.mp h
  exact (hw.nodes n hn).keyed ht

theorem mem_stagedOf_of_keyed {label : Label} (hn : n ∈ w.graph.nodes) (hk : n.keyed label rid ctx.tenantId)
    (hs : n.staging) : n ∈ w.stagedOf ctx.tenantId rid := by
  obtain ⟨-, hrid, -⟩ := Node.keyed_iff.mp hk
  refine mem_stagedOf.mpr ⟨hn, ofTenant_of_keyed hk, hs, ?_⟩
  rw [Node.rid, hrid]

theorem overlaidContents_of_staged (hw : w.Sound calls) (h : w.stagedOf ctx.tenantId rid ≠ []) :
    w.overlaidContents ctx rid = {content | ∃ n ∈ w.stagedOf ctx.tenantId rid, n.has .isActive (.bool true) ∧
      Graph.publishedContent ctx.snapshotId n = content} := by
  obtain ⟨m, hm⟩ := List.exists_mem_of_ne_nil _ h
  refine Set.ext fun content => ⟨?_, ?_⟩
  · rintro ⟨label, ⟨n, hn, hk, hs, ha, rfl⟩ | ⟨hnone, n, hn, hk, -⟩⟩
    · exact ⟨n, mem_stagedOf_of_keyed hn hk hs, ha, rfl⟩
    · -- The rid tells the label, so the staged version is one of those that are not there.
      obtain ⟨hmn, hmt, hms, hmrid⟩ := mem_stagedOf.mp hm
      have hlabel : m.label = label := by
        refine (hw.nodes m hmn).label_eq (hw.nodes n hn) ?_ |>.trans (Node.keyed_iff.mp hk).1
        rw [(hw.nodes m hmn).rid, hmrid, (Node.keyed_iff.mp hk).2.1]
      rw [hnone m hmn (hlabel ▸ keyed_of_mem_stagedOf hw hm)] at hms
      cases hms
  · rintro ⟨n, hn, ha, rfl⟩
    obtain ⟨hnn, -, hs, -⟩ := mem_stagedOf.mp hn
    exact ⟨n.label, .inl ⟨n, hnn, keyed_of_mem_stagedOf hw hn, hs, ha, rfl⟩⟩

theorem overlaidContents_of_unstaged (h : w.stagedOf ctx.tenantId rid = []) :
    w.overlaidContents ctx rid = w.activeContents ctx.tenantId rid := by
  have hnone : ∀ {n label}, n ∈ w.graph.nodes → n.keyed label rid ctx.tenantId → n.staging = false := by
    intro n label hn hk
    by_contra hs
    have hmem := mem_stagedOf_of_keyed hn hk (Bool.not_eq_false _ ▸ hs)
    rw [h] at hmem
    cases hmem
  refine Set.ext fun content => exists_congr fun label => ⟨?_, fun hc => .inr ⟨fun n hn hk => hnone hn hk, hc⟩⟩
  rintro (⟨n, hn, hk, hs, -⟩ | ⟨-, hc⟩)
  · rw [hnone hn hk] at hs
    cases hs
  · exact hc

theorem publishedContent_content (snapshotId : String) (n : Node) {f : Field} (hf : f.OfContent) :
    deserializeFromNeo4j (Graph.publishedContent snapshotId n) f = recordedProps n f := by
  have hprops : Graph.publishedContent snapshotId n f = n.props f := by
    simp [Graph.publishedContent, Props.update_cons, hf.1, hf.2.1]
  rw [deserializeFromNeo4j_apply, hprops, recordedProps, hf.2.2]
  rfl

theorem Told.shows (hw : w.Sound calls) (h : Told ctx w rid) : ∃ fields, Shows (w.overlaidContents ctx rid) fields ∧
    ∀ f, f.OfContent → Props.value (w.recordOf ctx.tenantId rid) f = Props.value fields f := by
  cases h with
  | @published n hstaged hactive =>
    refine ⟨_, @Shows.version _ (Graph.publishedContent ctx.snapshotId n) ?_, fun f hf => ?_⟩
    · rw [overlaidContents_of_staged hw (hstaged ▸ List.cons_ne_nil _ _), hstaged]
      refine Set.ext fun content => ⟨?_, fun hc => ⟨n, List.mem_singleton_self n, hactive, hc.symm⟩⟩
      rintro ⟨m, hm, -, rfl⟩
      rw [List.mem_singleton.mp hm]
      rfl
    · rw [World.recordOf, hstaged, Props.value, Props.value, publishedContent_content _ _ hf]
      rfl
  | nowhere hstaged hactive =>
    refine ⟨_, .absent ?_, fun f _ => ?_⟩
    · rw [overlaidContents_of_unstaged hstaged, hactive]
    · rw [World.recordOf, hstaged]
      rfl

theorem EqualValues.isSome {a b : Option Value} (h : EqualValues a b) : a.isSome = b.isSome := by
  cases h <;> rfl

/-- A record has the rid when there is something staged. -/
theorem recordOf_rid (hw : w.Sound calls) :
    (Props.value (w.recordOf ctx.tenantId rid) .rid).isSome = !(w.stagedOf ctx.tenantId rid).isEmpty := by
  cases h : (w.stagedOf ctx.tenantId rid).getLast? with
  | none =>
    rw [World.recordOf, h, List.getLast?_eq_none_iff.mp h]
    rfl
  | some n =>
    have hmem := List.mem_of_getLast? h
    have hrid := (hw.nodes n (mem_stagedOf.mp hmem).1).rid
    have hrecord : recordedProps n .rid = .str n.rid := by
      have hname : Field.rid.name.startsWith "_" = false := by decide +kernel
      rw [recordedProps, hname, if_neg Bool.false_ne_true, deserializeFromNeo4j_apply, hrid]
      rfl
    have hrecorded : Props.value (w.recordOf ctx.tenantId rid) .rid = some (.str n.rid) := by
      rw [World.recordOf, h, Option.map_some, Option.getD_some, Props.value, hrecord]
    rw [hrecorded]
    cases hs : w.stagedOf ctx.tenantId rid with
    | nil => rw [hs] at hmem; cases hmem
    | cons => rfl

/-- What is shown has the rid when there is something to show. -/
theorem Shows.rid_isSome_iff (h : Shows (w.overlaidContents ctx rid) fields) :
    (Props.value fields .rid).isSome ↔ (w.overlaidContents ctx rid).Nonempty := by
  cases h with
  | absent h =>
    rw [h]
    simp [Props.value]
  | @version content h =>
    rw [h]
    refine iff_of_true ?_ (Set.singleton_nonempty _)
    have hmem : content ∈ w.overlaidContents ctx rid := h ▸ rfl
    have hrid : content .rid = .str rid := by
      obtain ⟨label, ⟨n, -, hk, -, -, rfl⟩ | ⟨-, n, -, hk, -, rfl⟩⟩ := hmem
      · exact (Props.update_of_notMem (by simp [Dict.keys])).trans (Node.keyed_iff.mp hk).2.1
      · exact (Node.keyed_iff.mp hk).2.1
    rw [Props.value, deserializeFromNeo4j_apply, hrid]
    rfl

theorem overlaidContents_of_deleted (hw : w.Sound calls) (hs : w.stagedOf ctx.tenantId rid = [n])
    (ha : n.has .isActive (.bool false)) : w.overlaidContents ctx rid = ∅ := by
  rw [overlaidContents_of_staged hw (hs ▸ List.cons_ne_nil _ _), hs]
  refine Set.eq_empty_iff_forall_notMem.mpr ?_
  rintro content ⟨m, hm, hactive, -⟩
  rw [List.mem_singleton.mp hm, Node.has, of_decide_eq_true ha] at hactive
  cases of_decide_eq_true hactive

/-- An entity with at most one Staging version is published, deleted or left alone. -/
theorem staged_cases (hw : w.Sound calls) (hone : (w.stagedOf ctx.tenantId rid).length ≤ 1) :
    (∃ n, w.stagedOf ctx.tenantId rid = [n] ∧ n.has .isActive (.bool true) ∧ (w.overlaidContents ctx rid).Nonempty) ∨
    (∃ n, w.stagedOf ctx.tenantId rid = [n] ∧ n.has .isActive (.bool false) ∧ w.overlaidContents ctx rid = ∅) ∨
    (w.stagedOf ctx.tenantId rid = [] ∧ w.overlaidContents ctx rid = w.activeContents ctx.tenantId rid) := by
  match hs : w.stagedOf ctx.tenantId rid with
  | [] => exact .inr (.inr ⟨rfl, overlaidContents_of_unstaged hs⟩)
  | _ :: _ :: _ => rw [hs] at hone; simp at hone
  | [n] =>
    have hmem : n ∈ w.stagedOf ctx.tenantId rid := hs ▸ List.mem_singleton_self n
    rcases (hw.nodes n (mem_stagedOf.mp hmem).1).isActive with ha | ha
    · refine .inl ⟨n, rfl, decide_eq_true ha, Graph.publishedContent ctx.snapshotId n, ?_⟩
      rw [overlaidContents_of_staged hw (hs ▸ List.cons_ne_nil _ _)]
      exact ⟨n, hmem, decide_eq_true ha, rfl⟩
    · exact .inr (.inl ⟨n, rfl, decide_eq_true ha, overlaidContents_of_deleted hw hs (decide_eq_true ha)⟩)

theorem Shows.of_empty {contents : Set Props} (h : Shows contents fields) (hempty : contents = ∅) (f : Field) :
    Props.value fields f = none := by
  cases h with
  | absent => rfl
  | version h =>
    rw [hempty] at h
    exact absurd h (Set.singleton_ne_empty _).symm

/-- Comparable commits record the entity and show it, or do neither, or do the same both. -/
theorem Comparable.presence (hw : w.Sound calls) (hw' : w'.Sound calls') (h : Comparable ctx ctx' w w' rid) :
    ((w.stagedOf ctx.tenantId rid ≠ [] ↔ (w.overlaidContents ctx rid).Nonempty) ∧
      (w'.stagedOf ctx'.tenantId rid ≠ [] ↔ (w'.overlaidContents ctx' rid).Nonempty)) ∨
    ((w.stagedOf ctx.tenantId rid ≠ [] ↔ w'.stagedOf ctx'.tenantId rid ≠ []) ∧
      ((w.overlaidContents ctx rid).Nonempty ↔ (w'.overlaidContents ctx' rid).Nonempty)) := by
  obtain ⟨old, new, hold, hnew, hfields⟩ := h
  have hrid : Field.rid.OfContent := ⟨by decide, by decide, by decide +kernel⟩
  have hrecorded : ∀ {calls : List Call} {ctx : Ctx} {w : World}, w.Sound calls →
      (w.stagedOf ctx.tenantId rid ≠ [] ↔ (Props.value (w.recordOf ctx.tenantId rid) .rid).isSome) := by
    intro calls ctx w hw
    rw [recordOf_rid hw]
    simp
  rw [hrecorded hw, hrecorded hw', ← hold.rid_isSome_iff, ← hnew.rid_isSome_iff]
  refine (hfields .rid hrid).imp ?_ ?_
  · rintro ⟨h, h'⟩
    rw [h, h']
    exact ⟨Iff.rfl, Iff.rfl⟩
  · rintro ⟨h, h'⟩
    rw [h.isSome, h'.isSome]
    exact ⟨Iff.rfl, Iff.rfl⟩

/-- Commits that find at most one Staging version of an entity are comparable there in three ways. -/
theorem comparable_iff_matched (hw : w.Sound calls) (hw' : w'.Sound calls')
    (hone : (w.stagedOf ctx.tenantId rid).length ≤ 1) (hone' : (w'.stagedOf ctx'.tenantId rid).length ≤ 1) :
    Comparable ctx ctx' w w' rid ↔ Matched ctx ctx' w w' rid := by
  constructor
  · intro hc
    have hpresence := hc.presence hw hw'
    obtain ⟨old, new, hold, hnew, hfields⟩ := hc
    rcases staged_cases hw hone with ⟨n, hs, ha, hv⟩ | ⟨n, hs, ha, hv⟩ | ⟨hs, hv⟩ <;>
      rcases staged_cases hw' hone' with ⟨n', hs', ha', hv'⟩ | ⟨n', hs', ha', hv'⟩ | ⟨hs', hv'⟩
    · exact .told (.published hs ha) (.published hs' ha')
    · simp [hs, hs', hv, hv'] at hpresence
    · have hnone : w'.activeContents ctx'.tenantId rid = ∅ := by
        rw [hv'] at hpresence
        simpa [hs, hs', hv, Set.not_nonempty_iff_eq_empty] using hpresence
      exact .told (.published hs ha) (.nowhere hs' hnone)
    · simp [hs, hs', hv, hv'] at hpresence
    · refine .deleted hs hs' ha ha' fun f hf => ?_
      rcases hfields f hf with ⟨h, h'⟩ | ⟨h, -⟩
      · rw [hold.of_empty hv, World.recordOf, hs] at h
        rw [hnew.of_empty hv', World.recordOf, hs'] at h'
        exact h ▸ h' ▸ .none
      · rwa [World.recordOf, World.recordOf, hs, hs'] at h
    · simp [hs, hs', hv] at hpresence
    · have hnone : w.activeContents ctx.tenantId rid = ∅ := by
        rw [hv] at hpresence
        simpa [hs, hs', hv', Set.not_nonempty_iff_eq_empty] using hpresence
      exact .told (.nowhere hs hnone) (.published hs' ha')
    · simp [hs, hs', hv'] at hpresence
    · refine .kept hs hs' (hv ▸ hold) (hv' ▸ hnew) fun f hf => ?_
      rcases hfields f hf with ⟨h, h'⟩ | ⟨-, h⟩
      · rw [World.recordOf, hs] at h
        rw [World.recordOf, hs'] at h'
        exact h ▸ h' ▸ .none
      · exact h
  · intro hm
    cases hm with
    | told h h' =>
      obtain ⟨old, hold, hrecorded⟩ := h.shows hw
      obtain ⟨new, hnew, hrecorded'⟩ := h'.shows hw'
      exact ⟨old, new, hold, hnew, fun f hf => .inl ⟨hrecorded f hf, hrecorded' f hf⟩⟩
    | @deleted n n' hs hs' ha ha' hfields =>
      refine ⟨_, _, .absent (overlaidContents_of_deleted hw hs ha), .absent (overlaidContents_of_deleted hw' hs' ha'),
        fun f hf => .inr ⟨?_, .none⟩⟩
      rw [World.recordOf, World.recordOf, hs, hs']
      exact hfields f hf
    | @kept old new hs hs' hshows hshows' hfields =>
      refine ⟨old, new, ?_, ?_, fun f hf => .inr ⟨?_, hfields f hf⟩⟩
      · rwa [overlaidContents_of_unstaged hs]
      · rwa [overlaidContents_of_unstaged hs']
      · rw [World.recordOf, World.recordOf, hs, hs']
        exact .none

end Kinds

/-! ## Rows -/

/-- A snapshot that the command stores has the data. -/
def Cmd.Records (data : String → Option Props) : Cmd → Prop
  | .pgCommit rows => ∀ s, .insertSnapshot s ∈ rows → s.entityData = data
  | _ => True

/-- Every row of a snapshot is an old one or has the data. -/
def AddsOnly (data : String → Option Props) (w w' : World) : Prop :=
  ∀ s ∈ w'.snapshots, s ∈ w.snapshots ∨ s.entityData = data

section Rows
variable {ctx : Ctx} {m : Option String} {maxRetries : ℕ} {w w' : World} {data : String → Option Props}

theorem AddsOnly.of_eq (h : w'.snapshots = w.snapshots) : AddsOnly data w w' := fun _ hs => .inl (h ▸ hs)

theorem Reads.records {α : Type} {p : Program α} {Q : α → Prop}
    (h : p.Meets (fun c => c.quiet = true) (fun _ _ => True) Q) :
    p.Meets (Cmd.Records data) (fun _ _ => True) Q := by
  refine h.mono (fun c hc => ?_) (fun _ _ h => h) fun _ h => h
  cases c with
  | pgCommit => cases hc
  | _ => trivial

theorem records_promote (tenantId snapshotId : String) :
    Sends (Cmd.Records data) (fun _ _ => True) (promoteStagingToActive tenantId snapshotId) :=
  Sends.bind (Sends.issue trivial) fun _ => Sends.bind (Sends.issue trivial) fun _ =>
    Sends.bind (Sends.issue trivial) fun _ => Sends.pure _

theorem records_publishStaging (nodes : List Node) (changes : String → Option Change) :
    Sends (Cmd.Records (entityDataOf nodes fun _ => none)) (fun _ _ => True)
      (publishStaging maxRetries ctx m nodes changes) := by
  refine Sends.bind (Reads.records (reads_issue rfl)) fun parent => ?_
  refine Prog.Meets.bind (Reads.records (meets_createSnapshot _)) fun inserted hinserted => ?_
  refine Sends.bind ((records_promote _ _).retry _) fun _ => ?_
  refine Prog.Meets.bind (Reads.records (meets_setActivePointer _ _)) fun pointed hpointed => ?_
  refine Sends.bind (Sends.issue fun s hs => ?_) fun _ => ?_
  · simp only [List.mem_cons, List.not_mem_nil, or_false] at hs
    rcases hs with rfl | rfl
    · obtain rfl := PgWrite.insertSnapshot.inj hinserted
      rfl
    · rcases hpointed with hrow | hrow <;> cases hrow
  · exact Sends.bind (Reads.records (reads_onSchemaPublished _ _)) fun _ => Sends.pure _

theorem mem_foldl_apply {rows : List PgWrite} {s : Snapshot} (h : s ∈ (rows.foldl PgWrite.apply w).snapshots) :
    s ∈ w.snapshots ∨ .insertSnapshot s ∈ rows := by
  induction rows generalizing w with
  | nil => exact .inl h
  | cons row rows ih =>
    rcases ih h with hs | hs
    · cases row with
      | insertPointer | updatePointer => exact .inl hs
      | insertSnapshot s' =>
        rcases List.mem_cons.mp hs with rfl | hs
        · exact .inr List.mem_cons_self
        · exact .inl hs
    · exact .inr (List.mem_cons_of_mem _ hs)

theorem addsOnly_exec {c : Cmd} (hc : c.Records data) (h : AddsOnly data w w') : AddsOnly data w (exec c w').2 := by
  intro s hs
  have hnew : s ∈ w'.snapshots ∨ s.entityData = data := by
    cases c with
    | createNode | updateNode =>
      simp only [exec] at hs
      split at hs <;> exact .inl hs
    | redisSetNx key value =>
      simp only [exec] at hs
      split at hs <;> exact .inl hs
    | pgFlush row =>
      rw [flush_state] at hs
      exact .inl hs
    | pgCommit rows =>
      simp only [exec] at hs
      split at hs
      · exact .inl hs
      · exact (mem_foldl_apply hs).imp_right (hc s)
    | _ => exact .inl hs
  exact hnew.elim (h s) .inr

/-- Whichever of its commands fail, a commit stores no row but one with the data of what it found staged. -/
theorem exec_recorded {done : List Cmd} {r : Except Exc SnapshotResponse}
    (hx : Exec exec (commitStagingWith maxRetries ctx m) w done r w') :
    AddsOnly (entityDataOf (w.graph.getStagingNodes ctx.tenantId) fun _ => none) w w' := by
  obtain ⟨e, rfl, h1⟩ | ⟨acquired, w1, d1, d2, h1, hbody, rfl⟩ := exec_bind hx
  · exact .of_eq (exec_of_quiet (reads_issue rfl) h1).1.2.1
  obtain ⟨⟨hg, hs, -⟩, -, -⟩ := exec_of_quiet (reads_issue rfl) h1
  split at hbody
  · obtain ⟨r1, r2, w2, d3, d4, htry, hfree, -, -⟩ := exec_tryFinally hbody
    obtain ⟨⟨-, hs', -⟩, -, -⟩ := exec_of_quiet (reads_issue rfl) hfree
    rw [← hg]
    suffices h : AddsOnly (entityDataOf (w1.graph.getStagingNodes ctx.tenantId) fun _ => none) w1 w2 by
      intro s hmem
      rw [hs'] at hmem
      exact (h s hmem).imp_left fun hold => hs ▸ hold
    obtain ⟨e, rfl, h2⟩ | ⟨nodes, w3, d5, d6, h2, hx, rfl⟩ := exec_bind htry
    · exact .of_eq (exec_of_quiet (reads_issue rfl) h2).1.2.1
    obtain ⟨rfl, rfl, hnodes⟩ := exec_issue_ok h2
    cases hnodes
    split at hx
    · obtain ⟨rfl, rfl, rfl⟩ := exec_throw.mp hx
      exact .of_eq rfl
    obtain ⟨e, rfl, h3⟩ | ⟨changes, w4, d7, d8, h3, hpublish, rfl⟩ := exec_bind hx
    · exact .of_eq (exec_of_quiet (reads_entityChangesLoop _ _ _) h3).1.2.1
    obtain ⟨rfl, -⟩ := exec_entityChangesLoop h3
    exact Prog.Meets.exec (J := AddsOnly _ w4) (records_publishStaging _ _)
      (fun c s hs hc _ => ⟨addsOnly_exec hc hs, fun _ _ => trivial⟩) (.of_eq rfl) hpublish
  · obtain ⟨rfl, rfl, rfl⟩ := exec_throw.mp hbody
    exact .of_eq hs

end Rows

/-! ## Commits of a run -/

/-- A commit of the run that returns, and the stores that it starts from. -/
structure CommitsIn (es : List SerialEvent) (ctx : Ctx) (m : Option String) (w : World) : Prop where
  place : ∃ before later, es = before ++ .call ⟨ctx, .commitStaging m⟩ :: later ∧ w = Serial.ran before
  succeeds : Succeeds ⟨ctx, .commitStaging m⟩ w

section Runs
variable {es : List SerialEvent} {ctx ctx' : Ctx} {m m' : Option String} {w w' : World} {calls : List Call} {rid : String}

/-- The stores before a commit that returns. -/
structure Commits (calls : List Call) (ctx : Ctx) (w : World) : Prop where
  sound : w.Sound calls
  fresh : ∀ call ∈ calls, call.ctx.uuid ≠ ctx.uuid
  unlocked : w.redis (.commitLock ctx.tenantId) = none
  staged : w.graph.getStagingNodes ctx.tenantId ≠ []

theorem CommitsIn.commits (h : CommitsIn es ctx m w) (ha : StepsMeet Serial.next Serial.Admits .empty es) :
    ∃ calls, Commits calls ctx w := by
  obtain ⟨before, later, rfl, rfl⟩ := h.place
  obtain ⟨hbefore, hcall, -⟩ := stepsMeet_append.mp ha
  have hsound := Serial.sound_run hbefore
  have hctx := (hcall _ rfl).2
  obtain ⟨hlock, hstaged⟩ := (commit_succeeds_sound hsound hctx).mp h.succeeds
  exact ⟨_, hsound, hctx, hlock, hstaged⟩

/-- The row of a commit is the one found under its id. -/
theorem Commits.snapshot (h : Commits calls ctx w) (m : Option String) :
    ∃ s, (after ⟨ctx, .commitStaging m⟩ w).snapshot ctx.snapshotId = some s ∧
      s.entityData = entityDataOf (w.graph.getStagingNodes ctx.tenantId) fun _ => none := by
  have hfresh := h.sound.fresh_snapshot h.fresh
  obtain ⟨-, -, -, -, hstored⟩ := commit_accepted (m := m) h.unlocked h.staged hfresh
  obtain ⟨s, hs, hid, -⟩ := hstored.snapshot
  refine ⟨s, ?_, ?_⟩
  · rw [World.snapshot, hs]
    exact List.find?_cons_of_pos (by simpa using hid)
  · obtain ⟨done, hx⟩ := Exec.of_run (h := exec) (commitStaging ctx m) w
    rw [← after_commit] at hx
    refine (exec_recorded hx s (hs ▸ List.mem_cons_self)).resolve_left fun hold => ?_
    exact hfresh s hold hid

/-- No other call touches the row. -/
theorem after_snapshot {s : Snapshot} {call : Call} (hne : call.ctx.uuid ≠ ctx.uuid)
    (h : w.snapshot ctx.snapshotId = some s) : (after call w).snapshot ctx.snapshotId = some s := by
  refine after_inv (G := fun _ => True) (J := fun w => w.snapshot ctx.snapshotId = some s) (fun _ _ _ _ => trivial) ?_ h
  intro c w₁ hc hw₁
  obtain hsame | ⟨new, hid, hnew⟩ := exec_snapshots hc w₁
  · rw [World.snapshot, hsame]
    exact hw₁
  · have hother : ¬ new.snapshotId = ctx.snapshotId := fun heq => hne (snapshotId_injective (hid.symm.trans heq))
    rw [World.snapshot, hnew, List.find?_cons_of_neg (by simpa using hother)]
    exact hw₁

/-- The row is there to the end of the run. -/
theorem CommitsIn.snapshot (h : CommitsIn es ctx m w) (ha : StepsMeet Serial.next Serial.Admits .empty es) :
    ∃ s, (Serial.ran es).snapshot ctx.snapshotId = some s ∧
      s.entityData = entityDataOf (w.graph.getStagingNodes ctx.tenantId) fun _ => none := by
  obtain ⟨calls, hcommits⟩ := h.commits ha
  obtain ⟨s, hs, hdata⟩ := hcommits.snapshot m
  refine ⟨s, ?_, hdata⟩
  obtain ⟨before, later, rfl, rfl⟩ := h.place
  obtain ⟨-, hcall, hlater⟩ := stepsMeet_append.mp ha
  rw [Serial.ran, runFrom_append, runFrom_cons]
  refine (steps_inv (J := fun t : Serial => t.world.snapshot ctx.snapshotId = some s ∧
    ∃ call ∈ t.calls, call.ctx.uuid = ctx.uuid) ?_ ⟨hs, _, List.mem_cons_self, rfl⟩ hlater).1
  rintro t e ⟨hrow, call, hmem, huuid⟩ hadmits
  cases e with
  | env v =>
    refine ⟨?_, call, hmem, huuid⟩
    rw [World.snapshot, Serial.next, Env.apply_snapshots]
    exact hrow
  | call next =>
    have hne : next.ctx.uuid ≠ ctx.uuid := huuid ▸ ((hadmits next rfl).2 call hmem).symm
    exact ⟨after_snapshot hne hrow, call, List.mem_cons_of_mem _ hmem, huuid⟩

theorem CommitsIn.fieldsOf (h : CommitsIn es ctx m w) (ha : StepsMeet Serial.next Serial.Admits .empty es) :
    fieldsOf ((Serial.ran es).snapshot ctx.snapshotId) rid = w.recordOf ctx.tenantId rid := by
  obtain ⟨calls, hcommits⟩ := h.commits ha
  obtain ⟨s, hs, hdata⟩ := h.snapshot ha
  rw [hs, Ontology.fieldsOf, ← entityDataOf_staged hcommits.sound, Option.bind_some, hdata]

/-- The view right after a commit. -/
theorem Commits.activeContents (h : Commits calls ctx w) (m : Option String) (rid : String) :
    (after ⟨ctx, .commitStaging m⟩ w).activeContents ctx.tenantId rid = w.overlaidContents ctx rid := by
  have hnodes := after_commit_nodes (m := m) h.sound h.fresh h.unlocked h.staged
  refine Set.ext fun content => exists_congr fun label => ?_
  exact Graph.mem_activeView_promoted h.sound.nodes hnodes

theorem run_getFieldDiff (w : World) (a b : String) : (getFieldDiff a b).run exec w =
    (.ok fun rid f => fieldEntry (Props.value (fieldsOf (w.snapshot a) rid) f)
      (Props.value (fieldsOf (w.snapshot b) rid) f), w) := by
  refine (Prog.run_bind_ok exec (run_getById w a) _).trans ?_
  exact Prog.run_bind_ok exec (run_getById w b) _

/-- After any run, the field diff of two snapshots reports of an entity what differs between the Active views right
after their commits exactly when the commits are comparable there: for an entity with at most one Staging version, each
publishes it or has it nowhere, or both delete it with contents alike, or both leave it alone with Active versions
alike. -/
theorem field_diff_reports_iff (ha : StepsMeet Serial.next Serial.Admits .empty es) (hc : CommitsIn es ctx m w)
    (hc' : CommitsIn es ctx' m' w') :
    ∃ diff, (getFieldDiff ctx.snapshotId ctx'.snapshotId).run exec (Serial.ran es) = (.ok diff, Serial.ran es) ∧
      ∀ rid, (TellsDifference ((after ⟨ctx, .commitStaging m⟩ w).activeContents ctx.tenantId rid)
        ((after ⟨ctx', .commitStaging m'⟩ w').activeContents ctx'.tenantId rid) (diff rid) ↔
          Comparable ctx ctx' w w' rid) ∧
        ((w.stagedOf ctx.tenantId rid).length ≤ 1 → (w'.stagedOf ctx'.tenantId rid).length ≤ 1 →
          (Comparable ctx ctx' w w' rid ↔ Matched ctx ctx' w w' rid)) := by
  obtain ⟨calls, hcommits⟩ := hc.commits ha
  obtain ⟨calls', hcommits'⟩ := hc'.commits ha
  refine ⟨_, run_getFieldDiff _ _ _, fun rid => ⟨?_, comparable_iff_matched hcommits.sound hcommits'.sound⟩⟩
  rw [hcommits.activeContents, hcommits'.activeContents, hc.fieldsOf ha, hc'.fieldsOf ha]
  refine exists_congr fun old => exists_congr fun new => and_congr_right' (and_congr_right' ?_)
  exact forall_congr' fun f => imp_congr_right fun _ => describes_iff.trans fieldEntry_eq_iff

end Runs

/-- The commit of an entity, and later the commit of another one. -/
def publishBoth : List SerialEvent := publishFirst ++ .call ⟨⟨"t", "u", "3", "s1"⟩, .commitStaging none⟩ :: publishSecond

theorem publishBoth_first : CommitsIn publishBoth ⟨"t", "u", "3", "s1"⟩ none (Serial.ran publishFirst) :=
  ⟨⟨publishFirst, publishSecond, rfl, rfl⟩, by unfold Succeeds; decide⟩

theorem publishBoth_second : CommitsIn publishBoth ⟨"t", "u", "6", "s2"⟩ none (Serial.ran (publishBoth.take 5)) :=
  ⟨⟨publishBoth.take 5, [], rfl, rfl⟩, by unfold Succeeds; decide⟩

theorem field_diff_reports_iff_publishBoth :
    ∃ diff, (getFieldDiff "ri.snap.s1" "ri.snap.s2").run exec (Serial.ran publishBoth) =
        (.ok diff, Serial.ran publishBoth) ∧
      ∀ rid, (TellsDifference ((after ⟨⟨"t", "u", "3", "s1"⟩, .commitStaging none⟩ (Serial.ran publishFirst)).activeContents "t" rid)
        ((after ⟨⟨"t", "u", "6", "s2"⟩, .commitStaging none⟩ (Serial.ran (publishBoth.take 5))).activeContents "t" rid)
          (diff rid) ↔ Comparable ⟨"t", "u", "3", "s1"⟩ ⟨"t", "u", "6", "s2"⟩ (Serial.ran publishFirst)
            (Serial.ran (publishBoth.take 5)) rid) ∧
        (((Serial.ran publishFirst).stagedOf "t" rid).length ≤ 1 →
          ((Serial.ran (publishBoth.take 5)).stagedOf "t" rid).length ≤ 1 →
          (Comparable ⟨"t", "u", "3", "s1"⟩ ⟨"t", "u", "6", "s2"⟩ (Serial.ran publishFirst)
              (Serial.ran (publishBoth.take 5)) rid ↔
            Matched ⟨"t", "u", "3", "s1"⟩ ⟨"t", "u", "6", "s2"⟩ (Serial.ran publishFirst)
              (Serial.ran (publishBoth.take 5)) rid)) :=
  field_diff_reports_iff (by decide) publishBoth_first publishBoth_second

end Lingshu.Ontology
