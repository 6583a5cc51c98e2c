import Lingshu.Json.Access
import Mathlib.Data.List.Forall2
import Mathlib.Logic.Relation

/-! # JSON values as objects

Lists and dicts are objects, and a value is what is read from a reference to one. Nothing below writes into an object
that exists: a copy, a dict of a dict and a merge of two are new objects behind the old ones. -/
namespace Memory
open Json
set_option autoImplicit false

inductive Constant where
  | null
  | bool (b : Bool)
  | int (i : Int)
  | float (text : String)
  | str (s : String)
  deriving DecidableEq, Repr

def Constant.value : Constant → Value
  | .null => .null
  | .bool b => .bool b
  | .int i => .int i
  | .float text => .float text
  | .str s => .str s

/-- What a name or a slot holds: a constant, or the object at a place. -/
inductive Ref where
  | constant (c : Constant)
  | object (place : ℕ)
  deriving DecidableEq, Repr

/-- `None`. -/
def Ref.null : Ref := .constant .null

inductive Object where
  | list (items : List Ref)
  | dict (entries : Assoc Ref)
  deriving DecidableEq, Repr

/-- The objects, in the order in which they were made. -/
abbrev Heap : Type := List Object

def Object.refs : Object → List Ref
  | .list items => items
  | .dict entries => entries.values

/-! ## Reading -/

/-- The value of a reference whose objects lie at most `fuel` deep. -/
def read (h : Heap) : ℕ → Ref → Option Value
  | _, .constant c => some c.value
  | 0, .object _ => none
  | fuel + 1, .object p =>
    h[p]?.bind fun
      | .list items => (items.mapM (read h fuel)).map .list
      | .dict entries => (entries.mapM fun e => (read h fuel e.2).map fun v => (e.1, v)).map .dict

/-- The value that a reference stands for. -/
def Holds (h : Heap) (r : Ref) (v : Value) : Prop := ∃ fuel, read h fuel r = some v

/-- The same of the entries of a dict, in their order. -/
def HoldsEntries (h : Heap) : Assoc Ref → Assoc Value → Prop :=
  List.Forall₂ fun e e' => e.1 = e'.1 ∧ Holds h e.2 e'.2

/-- The dict at a place. -/
def HoldsDict (h : Heap) (p : ℕ) (d : Assoc Value) : Prop := Holds h (.object p) (.dict d)

section Reading
variable {h h' : Heap}

theorem mapM_eq_some_iff {α β : Type} {f : α → Option β} {l : List α} {l' : List β} :
    l.mapM f = some l' ↔ List.Forall₂ (fun a b => f a = some b) l l' := by
  induction l generalizing l' with
  | nil =>
    rw [List.mapM_nil, List.forall₂_nil_left_iff]
    exact ⟨fun h => (Option.some.inj h).symm, fun h => congrArg some h.symm⟩
  | cons a l ih =>
    rw [List.mapM_cons, List.forall₂_cons_left_iff]
    constructor
    · intro h
      obtain ⟨b, hb, h⟩ := Option.bind_eq_some_iff.mp h
      obtain ⟨bs, hbs, h⟩ := Option.bind_eq_some_iff.mp h
      exact ⟨b, bs, hb, ih.mp hbs, (Option.some.inj h).symm⟩
    · rintro ⟨b, bs, hb, hbs, rfl⟩
      rw [hb, ih.mpr hbs]
      rfl

theorem read_list {p fuel : ℕ} {items : List Ref} (hp : h[p]? = some (.list items)) {v : Value} :
    read h (fuel + 1) (.object p) = some v ↔
      ∃ vs, List.Forall₂ (fun r v => read h fuel r = some v) items vs ∧ v = .list vs := by
  rw [read, hp, Option.bind_some, Option.map_eq_some_iff]
  exact exists_congr fun vs => and_congr mapM_eq_some_iff eq_comm

theorem read_dict {p fuel : ℕ} {entries : Assoc Ref} (hp : h[p]? = some (.dict entries)) {v : Value} :
    read h (fuel + 1) (.object p) = some v ↔
      ∃ d : Assoc Value, List.Forall₂ (fun e e' => e.1 = e'.1 ∧ read h fuel e.2 = some e'.2) entries d ∧
        v = .dict d := by
  rw [read, hp, Option.bind_some, Option.map_eq_some_iff]
  refine exists_congr fun d => and_congr (mapM_eq_some_iff.trans ?_) eq_comm
  have hentry : ∀ (e : String × Ref) (e' : String × Value),
      (read h fuel e.2).map (fun v => (e.1, v)) = some e' ↔ e.1 = e'.1 ∧ read h fuel e.2 = some e'.2 := by
    rintro e ⟨k, v⟩
    rw [Option.map_eq_some_iff]
    constructor
    · rintro ⟨w, hw, heq⟩
      cases heq
      exact ⟨rfl, hw⟩
    · rintro ⟨rfl, hw⟩
      exact ⟨v, hw, rfl⟩
  simp only [hentry]

theorem read_constant {fuel : ℕ} {c : Constant} : read h fuel (.constant c) = some c.value := by
  cases fuel <;> rfl

theorem extend_getElem? (hext : h <+: h') {p : ℕ} {o : Object} (hp : h[p]? = some o) : h'[p]? = some o := by
  obtain ⟨new, rfl⟩ := hext
  rw [List.getElem?_append_left (List.getElem?_eq_some_iff.mp hp).1, hp]

/-- More fuel and more objects read the same. -/
theorem read_mono {fuel fuel' : ℕ} (hle : fuel ≤ fuel') (hext : h <+: h') {r : Ref} {v : Value}
    (hread : read h fuel r = some v) : read h' fuel' r = some v := by
  induction fuel generalizing fuel' r v with
  | zero =>
    cases r with
    | constant c => rwa [read_constant] at hread ⊢
    | object p => cases hread
  | succ fuel ih =>
    obtain ⟨n, rfl⟩ : ∃ n, fuel' = n + 1 := ⟨fuel' - 1, by omega⟩
    cases r with
    | constant c => rwa [read_constant] at hread ⊢
    | object p =>
      cases hp : h[p]? with
      | none => rw [read, hp] at hread; cases hread
      | some o =>
        have hp' := extend_getElem? hext hp
        cases o with
        | list items =>
          obtain ⟨vs, hitems, rfl⟩ := (read_list hp).mp hread
          exact (read_list hp').mpr ⟨vs, hitems.imp fun r v hv => ih (by omega) hv, rfl⟩
        | dict entries =>
          obtain ⟨d, hentries, rfl⟩ := (read_dict hp).mp hread
          exact (read_dict hp').mpr ⟨d, hentries.imp fun e e' he => ⟨he.1, ih (by omega) he.2⟩, rfl⟩

theorem Holds.extend {r : Ref} {v : Value} (hread : Holds h r v) (hext : h <+: h') : Holds h' r v :=
  hread.imp fun _ hread => read_mono (Nat.le_refl _) hext hread

theorem Holds.unique {r : Ref} {v w : Value} (hv : Holds h r v) (hw : Holds h r w) : v = w := by
  obtain ⟨n, hv⟩ := hv
  obtain ⟨m, hw⟩ := hw
  have hv' := read_mono (Nat.le_max_left n m) (List.prefix_refl h) hv
  have hw' := read_mono (Nat.le_max_right n m) (List.prefix_refl h) hw
  exact Option.some.inj (hv'.symm.trans hw')

/-- Fuel that is enough for each of finitely many references is enough for all. -/
theorem exists_fuel {α β : Type} {R : ℕ → α → β → Prop} (hmono : ∀ n m a b, n ≤ m → R n a b → R m a b) {l : List α}
    {l' : List β} (h : List.Forall₂ (fun a b => ∃ n, R n a b) l l') : ∃ n, List.Forall₂ (R n) l l' := by
  induction h with
  | nil => exact ⟨0, .nil⟩
  | cons hab _ ih =>
    obtain ⟨n, hn⟩ := hab
    obtain ⟨m, hm⟩ := ih
    exact ⟨max n m, .cons (hmono _ _ _ _ (Nat.le_max_left n m) hn)
      (hm.imp fun a b => hmono _ _ a b (Nat.le_max_right n m))⟩

theorem holds_list {p : ℕ} {items : List Ref} (hp : h[p]? = some (.list items)) {v : Value} :
    Holds h (.object p) v ↔ ∃ vs, List.Forall₂ (Holds h) items vs ∧ v = .list vs := by
  constructor
  · rintro ⟨_ | fuel, hread⟩
    · cases hread
    · obtain ⟨vs, hitems, rfl⟩ := (read_list hp).mp hread
      exact ⟨vs, hitems.imp fun _ _ hv => ⟨fuel, hv⟩, rfl⟩
  · rintro ⟨vs, hitems, rfl⟩
    have hmono : ∀ n m r v, n ≤ m → read h n r = some v → read h m r = some v :=
      fun n m _ _ hle => read_mono hle (List.prefix_refl h)
    obtain ⟨fuel, hitems⟩ := exists_fuel hmono hitems
    exact ⟨fuel + 1, (read_list hp).mpr ⟨vs, hitems, rfl⟩⟩

theorem holds_dict {p : ℕ} {entries : Assoc Ref} (hp : h[p]? = some (.dict entries)) {v : Value} :
    Holds h (.object p) v ↔ ∃ d, HoldsEntries h entries d ∧ v = .dict d := by
  constructor
  · rintro ⟨_ | fuel, hread⟩
    · cases hread
    · obtain ⟨d, hentries, rfl⟩ := (read_dict hp).mp hread
      exact ⟨d, hentries.imp fun _ _ he => ⟨he.1, fuel, he.2⟩, rfl⟩
  · rintro ⟨d, hentries, rfl⟩
    have hmono : ∀ n m (e : String × Ref) (e' : String × Value), n ≤ m → (e.1 = e'.1 ∧ read h n e.2 = some e'.2) →
        e.1 = e'.1 ∧ read h m e.2 = some e'.2 :=
      fun n m _ _ hle he => ⟨he.1, read_mono hle (List.prefix_refl h) he.2⟩
    obtain ⟨fuel, hentries⟩ := exists_fuel hmono (List.Forall₂.imp (fun _ _ he => exists_and_left.mpr he) hentries)
    exact ⟨fuel + 1, (read_dict hp).mpr ⟨d, hentries, rfl⟩⟩

theorem Holds.object {p : ℕ} {v : Value} (hread : Holds h (.object p) v) : ∃ o, h[p]? = some o := by
  obtain ⟨_ | fuel, hread⟩ := hread
  · cases hread
  · obtain ⟨o, hp, -⟩ := Option.bind_eq_some_iff.mp hread
    exact ⟨o, hp⟩

/-- What is read as `None` is `None`. -/
theorem Holds.null {r : Ref} (hread : Holds h r .null) : r = .null := by
  cases r with
  | constant c =>
    obtain ⟨fuel, hread⟩ := hread
    rw [read_constant] at hread
    cases c <;> first | rfl | cases hread
  | object p =>
    obtain ⟨_ | _, hp⟩ := hread.object
    · obtain ⟨_, -, heq⟩ := (holds_list hp).mp hread
      cases heq
    · obtain ⟨_, -, heq⟩ := (holds_dict hp).mp hread
      cases heq

/-- What is read as a dict is one. -/
theorem HoldsDict.entries {p : ℕ} {d : Assoc Value} (hread : HoldsDict h p d) :
    ∃ entries, h[p]? = some (.dict entries) ∧ HoldsEntries h entries d := by
  obtain ⟨_ | entries, hp⟩ := Holds.object hread
  · obtain ⟨_, -, heq⟩ := (holds_list hp).mp hread
    cases heq
  · obtain ⟨d', hentries, heq⟩ := (holds_dict hp).mp hread
    cases heq
    exact ⟨entries, hp, hentries⟩

theorem HoldsEntries.extend {entries : Assoc Ref} {d : Assoc Value} (hread : HoldsEntries h entries d)
    (hext : h <+: h') : HoldsEntries h' entries d :=
  List.Forall₂.imp (fun _ _ he => ⟨he.1, he.2.extend hext⟩) hread

theorem HoldsEntries.set {entries : Assoc Ref} {d : Assoc Value} (hread : HoldsEntries h entries d) {key : String}
    {r : Ref} {v : Value} (hv : Holds h r v) : HoldsEntries h (entries.set key r) (d.set key v) := by
  induction hread with
  | nil => exact .cons ⟨rfl, hv⟩ .nil
  | @cons e e' entries d he hrest ih =>
    by_cases hkey : e.1 = key
    · have hset : Assoc.set (e :: entries) key r = (key, r) :: entries := if_pos hkey
      have hset' : Assoc.set (e' :: d) key v = (key, v) :: d := if_pos (he.1 ▸ hkey)
      rw [hset, hset']
      exact .cons ⟨rfl, hv⟩ hrest
    · have hset : Assoc.set (e :: entries) key r = e :: Assoc.set entries key r := if_neg hkey
      have hset' : Assoc.set (e' :: d) key v = e' :: Assoc.set d key v := if_neg (he.1 ▸ hkey)
      rw [hset, hset']
      exact .cons he ih

end Reading

/-! ## New objects -/

/-- What runs over the objects that there are. -/
abbrev Mem (α : Type) : Type := StateT Heap Option α

def make (o : Object) : Mem Ref := fun h => some (.object h.length, h ++ [o])

def dictAt : Ref → Mem (Assoc Ref)
  | .constant _ => fun _ => none
  | .object p => fun h =>
    match h[p]? with
    | some (.dict entries) => some (entries, h)
    | _ => none

/-- `dict(d)`. -/
def copyDict (d : Ref) : Mem Ref := do make (.dict (← dictAt d))

/-- `{**d, **e}`. -/
def mergeDicts (d e : Ref) : Mem Ref := do
  let entries ← dictAt d
  let others ← dictAt e
  make (.dict (entries.update others))

/-- The objects, and the copies made so far of some of them. -/
structure Copying where
  heap : Heap
  memo : List (ℕ × ℕ)

def Copying.keep (p : ℕ) (o : Object) : StateT Copying Option Ref := fun s =>
  some (.object s.heap.length, ⟨s.heap ++ [o], (p, s.heap.length) :: s.memo⟩)

/-- `copy.deepcopy(x, memo)`, of objects without cycles: an object is copied after its parts. -/
def Copying.deepcopy : ℕ → Ref → StateT Copying Option Ref
  | _, .constant c => fun s => some (.constant c, s)
  | 0, .object _ => fun _ => none
  | fuel + 1, .object p => fun s =>
    match s.memo.lookup p with
    | some q => some (.object q, s)
    | none =>
      match s.heap[p]? with
      | none => none
      | some (.list items) => (do keep p (.list (← items.mapM (deepcopy fuel))) : StateT Copying Option Ref) s
      | some (.dict entries) =>
        (do keep p (.dict (← entries.mapM fun e => do return (e.1, ← deepcopy fuel e.2))) :
          StateT Copying Option Ref) s

/-- `copy.deepcopy(x)`. -/
def deepcopy (fuel : ℕ) (r : Ref) : Mem Ref := fun h =>
  (Copying.deepcopy fuel r ⟨h, []⟩).map fun result => (result.1, result.2.heap)

/-! ## Parts -/

/-- A reference to an object of `C`, or none. -/
def Ref.Inside (C : ℕ → Prop) : Ref → Prop
  | .constant _ => True
  | .object p => C p

/-- The objects of `C` refer to objects of `C`. -/
def Closed (C : ℕ → Prop) (h : Heap) : Prop := ∀ p o, C p → h[p]? = some o → ∀ r ∈ o.refs, r.Inside C

/-- The object at `p` refers to the one at `q`. -/
def PartOf (h : Heap) (p q : ℕ) : Prop := ∃ o, h[p]? = some o ∧ .object q ∈ o.refs

/-- What can be reached from a reference. -/
def Reaches (h : Heap) : Ref → ℕ → Prop
  | .constant _, _ => False
  | .object p, q => Relation.ReflTransGen (PartOf h) p q

section Parts
variable {h h' : Heap} {C : ℕ → Prop}

theorem Closed.reaches (hclosed : Closed C h) {r : Ref} (hr : r.Inside C) {q : ℕ} (hq : Reaches h r q) : C q := by
  cases r with
  | constant c => cases hq
  | object p =>
    have hfrom : ∀ q, Relation.ReflTransGen (PartOf h) p q → C q := by
      intro q hq
      induction hq with
      | refl => exact hr
      | tail _ hpart ih =>
        obtain ⟨o, ho, hmem⟩ := hpart
        exact hclosed _ o ih ho _ hmem
    exact hfrom q hq

/-- A new object whose parts are inside. -/
theorem Closed.append (hclosed : Closed C h) {o : Object} (ho : ∀ r ∈ o.refs, r.Inside C) : Closed C (h ++ [o]) := by
  intro p o' hp hget r hr
  rcases Nat.lt_or_ge p h.length with hlt | hge
  · rw [List.getElem?_append_left hlt] at hget
    exact hclosed p o' hp hget r hr
  · rw [List.getElem?_append_right hge] at hget
    obtain rfl := List.mem_singleton.mp (List.mem_of_getElem? hget)
    exact ho r hr

/-- There are no objects yet behind the last one. -/
theorem closed_new (h : Heap) : Closed (h.length ≤ ·) h := fun p _ hp hget => by
  rw [List.getElem?_eq_none hp] at hget
  cases hget

/-- Objects that refer to new ones only do not change what can be reached from the old ones. -/
theorem Closed.join (hkept : h <+: h') (hclosed : Closed (h.length ≤ ·) h') (roots : List Ref) :
    Closed (fun p => h.length ≤ p ∨ ∃ r ∈ roots, Reaches h r p) h' := by
  rintro p o hp hget part hpart
  rcases Nat.lt_or_ge p h.length with hlt | hge
  · obtain ⟨root, hroot, hreach⟩ := hp.resolve_left (Nat.not_le.mpr hlt)
    have hold : h[p]? = some o := by
      obtain ⟨new, rfl⟩ := hkept
      rwa [List.getElem?_append_left hlt] at hget
    cases part with
    | constant c => trivial
    | object q =>
      refine .inr ⟨root, hroot, ?_⟩
      cases root with
      | constant c => cases hreach
      | object start => exact Relation.ReflTransGen.tail hreach ⟨o, hold, hpart⟩
  · cases part with
    | constant c => trivial
    | object q => exact .inl (hclosed p o hge hget _ hpart)

end Parts

/-! ## What is made -/

/-- From `h` there came `h'` with a reference to the value: what was there is as it was, and what was made refers to
nothing but objects of `C`. -/
structure Made (C : ℕ → Prop) (h h' : Heap) (r : Ref) (v : Value) : Prop where
  kept : h <+: h'
  holds : Holds h' r v
  closed : Closed C h'
  inside : r.Inside C

theorem Made.mono {C D : ℕ → Prop} {h h' : Heap} {r : Ref} {v : Value} (hmade : Made C h h' r v)
    (hclosed : Closed D h') (hsub : ∀ p, C p → D p) : Made D h h' r v where
  kept := hmade.kept
  holds := hmade.holds
  closed := hclosed
  inside := by
    cases r with
    | constant c => trivial
    | object p => exact hsub p hmade.inside

section Making
variable {h : Heap} {C : ℕ → Prop}

theorem bind_run {σ α β : Type} {f : StateT σ Option α} {g : α → StateT σ Option β} {s s' : σ} {a : α}
    (hrun : f s = some (a, s')) : (f >>= g) s = g a s' := by
  simp only [bind, StateT.bind, hrun, Option.bind_some]

theorem dictAt_run {r : Ref} {d : Assoc Value} (hread : Holds h r (.dict d)) :
    ∃ entries, dictAt r h = some (entries, h) ∧ HoldsEntries h entries d ∧
      (Closed C h → r.Inside C → ∀ part ∈ entries.values, part.Inside C) := by
  cases r with
  | constant c =>
    obtain ⟨fuel, hread⟩ := hread
    rw [read_constant] at hread
    cases c <;> cases hread
  | object p =>
    obtain ⟨entries, hp, hentries⟩ := HoldsDict.entries hread
    refine ⟨entries, ?_, hentries, fun hclosed hin part hpart => hclosed p _ hin hp part hpart⟩
    simp only [dictAt, hp]

theorem make_dict {entries : Assoc Ref} {d : Assoc Value} (hread : HoldsEntries h entries d) (hclosed : Closed C h)
    (hparts : ∀ part ∈ entries.values, part.Inside C) (hnew : C h.length) :
    Made C h (h ++ [.dict entries]) (.object h.length) (.dict d) where
  kept := List.prefix_append h _
  holds := (holds_dict List.getElem?_concat_length).mpr ⟨d, hread.extend (List.prefix_append h _), rfl⟩
  closed := hclosed.append hparts
  inside := hnew

theorem values_set {entries : Assoc Ref} {key : String} {r part : Ref} (hpart : part ∈ (entries.set key r).values) :
    part = r ∨ part ∈ entries.values := by
  induction entries with
  | nil => exact .inl (List.mem_singleton.mp hpart)
  | cons e entries ih =>
    by_cases hkey : e.1 = key
    · have hset : Assoc.set (e :: entries) key r = (key, r) :: entries := if_pos hkey
      rw [hset] at hpart
      exact (List.mem_cons.mp hpart).imp_right (List.mem_cons_of_mem e.2)
    · have hset : Assoc.set (e :: entries) key r = e :: Assoc.set entries key r := if_neg hkey
      rw [hset] at hpart
      rcases List.mem_cons.mp hpart with rfl | hrest
      · exact .inr List.mem_cons_self
      · exact (ih hrest).imp_right (List.mem_cons_of_mem e.2)

theorem HoldsEntries.update {entries others : Assoc Ref} {d e : Assoc Value} (hd : HoldsEntries h entries d)
    (he : HoldsEntries h others e) : HoldsEntries h (entries.update others) (d.update e) := by
  induction he generalizing entries d with
  | nil => exact hd
  | @cons x y _ _ hxy _ ih =>
    rw [Assoc.update, Assoc.update, List.foldl_cons, List.foldl_cons, ← hxy.1]
    exact ih (hd.set hxy.2)

theorem update_inside {entries others : Assoc Ref} (hentries : ∀ part ∈ entries.values, part.Inside C)
    (hothers : ∀ part ∈ others.values, part.Inside C) : ∀ part ∈ (entries.update others).values, part.Inside C := by
  induction others generalizing entries with
  | nil => exact hentries
  | cons e others ih =>
    refine ih (fun part hpart => ?_) fun part hpart => hothers part (List.mem_cons_of_mem _ hpart)
    rcases values_set hpart with rfl | hold
    · exact hothers _ List.mem_cons_self
    · exact hentries part hold

section Dicts
variable (hclosed : Closed C h) (hnew : C h.length) {r : Ref} {d : Assoc Value} (hr : Holds h r (.dict d))
  (hin : r.Inside C)
include hclosed hnew hr hin

theorem copyDict_run : ∃ h', copyDict r h = some (.object h.length, h') ∧ Made C h h' (.object h.length) (.dict d) := by
  obtain ⟨entries, hrun, hentries, hparts⟩ := dictAt_run (C := C) hr
  refine ⟨_, ?_, make_dict hentries hclosed (hparts hclosed hin) hnew⟩
  exact bind_run hrun

theorem mergeDicts_run {s : Ref} {e : Assoc Value} (hs : Holds h s (.dict e)) (hin' : s.Inside C) :
    ∃ h', mergeDicts r s h = some (.object h.length, h') ∧
      Made C h h' (.object h.length) (.dict (d.update e)) := by
  obtain ⟨entries, hrun, hentries, hparts⟩ := dictAt_run (C := C) hr
  obtain ⟨others, hrun', hothers, hparts'⟩ := dictAt_run (C := C) hs
  refine ⟨_, ?_, make_dict (hentries.update hothers) hclosed
    (update_inside (hparts hclosed hin) (hparts' hclosed hin')) hnew⟩
  exact (bind_run hrun).trans (bind_run hrun')

end Dicts
end Making

/-! ## Deep copies -/

section Copies
variable {h : Heap}

/-- The objects of `h` are as they were, the copies are complete, and no copy refers to an object of `h`. -/
structure Copying.Good (h : Heap) (s : Copying) : Prop where
  kept : h <+: s.heap
  closed : Closed (h.length ≤ ·) s.heap
  copies : ∀ p q, s.memo.lookup p = some q →
    h.length ≤ q ∧ ∀ v, Holds h (.object p) v → Holds s.heap (.object q) v

/-- A value was copied. -/
structure Copying.Copied (h : Heap) (s s' : Copying) (r : Ref) (v : Value) : Prop where
  good : s'.Good h
  kept : s.heap <+: s'.heap
  holds : Holds s'.heap r v
  inside : r.Inside (h.length ≤ ·)

namespace Copying
variable {s : Copying}

theorem keep_copied {p : ℕ} {o : Object} {v : Value} (hgood : s.Good h) (hv : Holds h (.object p) v)
    (hholds : Holds (s.heap ++ [o]) (.object s.heap.length) v) (hparts : ∀ r ∈ o.refs, r.Inside (h.length ≤ ·)) :
    ∃ r s', keep p o s = some (r, s') ∧ Copied h s s' r v := by
  have hext : s.heap <+: s.heap ++ [o] := List.prefix_append _ _
  refine ⟨_, _, rfl, ⟨⟨hgood.kept.trans hext, hgood.closed.append hparts, fun p' q hq => ?_⟩, hext, hholds,
    hgood.kept.length_le⟩⟩
  rw [List.lookup_cons] at hq
  by_cases hp : p' = p
  · subst hp
    rw [beq_self_eq_true] at hq
    obtain rfl := Option.some.inj hq
    refine ⟨hgood.kept.length_le, fun w hw => ?_⟩
    rwa [hw.unique hv]
  · rw [beq_eq_false_iff_ne.mpr hp] at hq
    obtain ⟨hle, hcopy⟩ := hgood.copies p' q hq
    exact ⟨hle, fun w hw => (hcopy w hw).extend hext⟩

/-- One part after the other. -/
theorem mapM_run {α β γ : Type} {f : α → StateT Copying Option β} {Q : α → γ → Prop} {p : β → Prop}
    {P : Copying → β → γ → Prop} (hmono : ∀ s s' b c, s.heap <+: s'.heap → P s b c → P s' b c)
    (hf : ∀ a c s, Q a c → s.Good h →
      ∃ b s', f a s = some (b, s') ∧ s'.Good h ∧ s.heap <+: s'.heap ∧ p b ∧ P s' b c) {l : List α} {l' : List γ}
    (hl : List.Forall₂ Q l l') : ∀ s, s.Good h →
      ∃ bs s', l.mapM f s = some (bs, s') ∧ s'.Good h ∧ s.heap <+: s'.heap ∧ (∀ b ∈ bs, p b) ∧
        List.Forall₂ (P s') bs l' := by
  induction hl with
  | nil => intro s hgood; exact ⟨[], s, rfl, hgood, List.prefix_refl _, by simp, .nil⟩
  | @cons a c l l' hac _ ih =>
    intro s hgood
    obtain ⟨b, s₁, hrun, hgood₁, hkept₁, hb, hbc⟩ := hf a c s hac hgood
    obtain ⟨bs, s₂, hrun₂, hgood₂, hkept₂, hbs, hbcs⟩ := ih s₁ hgood₁
    refine ⟨b :: bs, s₂, ?_, hgood₂, hkept₁.trans hkept₂, List.forall_mem_cons.mpr ⟨hb, hbs⟩,
      .cons (hmono _ _ _ _ hkept₂ hbc) hbcs⟩
    rw [List.mapM_cons]
    exact (bind_run hrun).trans (bind_run hrun₂)

section Containers
variable {fuel p : ℕ} {v : Value}
  (ih : ∀ {s r v}, read h fuel r = some v → s.Good h → ∃ r' s', deepcopy fuel r s = some (r', s') ∧ Copied h s s' r' v)
  (hread : read h (fuel + 1) (.object p) = some v) (hgood : s.Good h)
include ih hread hgood

theorem deepcopy_list {items : List Ref} (hp : h[p]? = some (.list items)) :
    ∃ r' s', (items.mapM (deepcopy fuel) >>= fun items => keep p (.list items)) s = some (r', s') ∧
      Copied h s s' r' v := by
  have hv : Holds h (.object p) v := ⟨fuel + 1, hread⟩
  obtain ⟨vs, hitems, rfl⟩ := (read_list hp).mp hread
  obtain ⟨copies, s₁, hrun, hgood₁, hkept₁, hparts, hcopies⟩ := mapM_run
    (P := fun s r v => Holds s.heap r v) (fun _ _ _ _ hext hb => hb.extend hext)
    (fun r v s hr hgood => by
      obtain ⟨r', s', hrun, hcopied⟩ := ih hr hgood
      exact ⟨r', s', hrun, hcopied.good, hcopied.kept, hcopied.inside, hcopied.holds⟩)
    hitems s hgood
  have hholds : Holds (s₁.heap ++ [.list copies]) (.object s₁.heap.length) (.list vs) :=
    (holds_list List.getElem?_concat_length).mpr
      ⟨vs, hcopies.imp fun _ _ hb => hb.extend (List.prefix_append _ _), rfl⟩
  obtain ⟨r', s', hkeep, hcopied⟩ := keep_copied hgood₁ hv hholds hparts
  exact ⟨r', s', (bind_run hrun).trans hkeep, hcopied.good, hkept₁.trans hcopied.kept, hcopied.holds, hcopied.inside⟩

theorem deepcopy_dict {entries : Assoc Ref} (hp : h[p]? = some (.dict entries)) :
    ∃ r' s', ((entries.mapM fun e => do return (e.1, ← deepcopy fuel e.2)) >>= fun entries =>
        keep p (.dict entries)) s = some (r', s') ∧ Copied h s s' r' v := by
  have hv : Holds h (.object p) v := ⟨fuel + 1, hread⟩
  obtain ⟨d, hentries, rfl⟩ := (read_dict hp).mp hread
  obtain ⟨copies, s₁, hrun, hgood₁, hkept₁, hparts, hcopies⟩ := mapM_run
    (f := fun e : String × Ref => do return (e.1, ← deepcopy fuel e.2)) (p := fun e => e.2.Inside (h.length ≤ ·))
    (P := fun s e (e' : String × Value) => e.1 = e'.1 ∧ Holds s.heap e.2 e'.2)
    (fun _ _ _ _ hext he => ⟨he.1, he.2.extend hext⟩)
    (fun e e' s he hgood => by
      obtain ⟨r', s', hrun, hcopied⟩ := ih he.2 hgood
      exact ⟨(e.1, r'), s', bind_run hrun, hcopied.good, hcopied.kept, hcopied.inside, he.1, hcopied.holds⟩)
    hentries s hgood
  have hread₁ : HoldsEntries s₁.heap copies d := hcopies
  have hholds : Holds (s₁.heap ++ [.dict copies]) (.object s₁.heap.length) (.dict d) :=
    (holds_dict List.getElem?_concat_length).mpr ⟨d, hread₁.extend (List.prefix_append _ _), rfl⟩
  have hinside : ∀ r ∈ (Object.dict copies).refs, r.Inside (h.length ≤ ·) := by
    intro r hr
    obtain ⟨e, he, rfl⟩ := List.mem_map.mp hr
    exact hparts e he
  obtain ⟨r', s', hkeep, hcopied⟩ := keep_copied hgood₁ hv hholds hinside
  exact ⟨r', s', (bind_run hrun).trans hkeep, hcopied.good, hkept₁.trans hcopied.kept, hcopied.holds, hcopied.inside⟩

end Containers

theorem deepcopy_run {fuel : ℕ} {r : Ref} {v : Value} (hread : read h fuel r = some v) (hgood : s.Good h) :
    ∃ r' s', deepcopy fuel r s = some (r', s') ∧ Copied h s s' r' v := by
  induction fuel generalizing r v s with
  | zero =>
    cases r with
    | constant c => exact ⟨.constant c, s, rfl, hgood, List.prefix_refl _, ⟨0, hread⟩, trivial⟩
    | object p => cases hread
  | succ fuel ih =>
    cases r with
    | constant c => exact ⟨.constant c, s, rfl, hgood, List.prefix_refl _, ⟨fuel + 1, hread⟩, trivial⟩
    | object p =>
      unfold deepcopy
      cases hmemo : s.memo.lookup p with
      | some q =>
        obtain ⟨hle, hcopy⟩ := hgood.copies p q hmemo
        exact ⟨.object q, s, rfl, hgood, List.prefix_refl _, hcopy v ⟨fuel + 1, hread⟩, hle⟩
      | none =>
        cases hp : h[p]? with
        | none => rw [read, hp] at hread; cases hread
        | some o =>
          simp only [extend_getElem? hgood.kept hp]
          cases o with
          | list items => exact deepcopy_list ih hread hgood hp
          | dict entries => exact deepcopy_dict ih hread hgood hp

end Copying

/-- A deep copy is the same value in objects that are all new. -/
theorem deepcopy_run {fuel : ℕ} {r : Ref} {v : Value} (hread : read h fuel r = some v) :
    ∃ r' h', deepcopy fuel r h = some (r', h') ∧ Made (h.length ≤ ·) h h' r' v := by
  have hgood : Copying.Good h ⟨h, []⟩ := ⟨List.prefix_refl h, closed_new h, fun _ _ hq => by cases hq⟩
  obtain ⟨r', s', hrun, hcopied⟩ := Copying.deepcopy_run hread hgood
  refine ⟨r', s'.heap, ?_, hcopied.kept, hcopied.holds, hcopied.good.closed, hcopied.inside⟩
  rw [deepcopy, hrun]
  rfl

end Copies
end Memory
