import Lingshu.Json.Value

/-! # Python's accesses to JSON values

What `v.get`, `v[...]`, `for x in v`, a use as a dict key and a test of `v` do on a value of any type. -/
namespace Json
set_option autoImplicit false

/-- The exceptions of Python's own operators. -/
inductive AccessError where
  | attributeError
  | keyError (key : String)
  | typeError
  deriving DecidableEq, Repr

/-- A dict with string keys, in insertion order. -/
abbrev Assoc (α : Type) : Type := List (String × α)

namespace Assoc
variable {α : Type}

def keys (d : Assoc α) : List String := d.map Prod.fst

def values (d : Assoc α) : List α := d.map Prod.snd

/-- `d[key] = v`: a key that is there keeps its place. -/
def set : Assoc α → String → α → Assoc α
  | [], key, v => [(key, v)]
  | e :: d, key, v => if e.1 = key then (key, v) :: d else e :: set d key v

/-- The dict that `for k, v in entries: d[k] = v` builds. -/
def ofEntries (entries : List (String × α)) : Assoc α := entries.foldl (fun d e => d.set e.1 e.2) []

theorem lookup_cons (key : String) (v : α) (d : Assoc α) (name : String) :
    List.lookup name ((key, v) :: d) = if name = key then some v else d.lookup name := by
  rw [List.lookup_cons]
  by_cases hname : name = key
  · simp [hname]
  · rw [beq_eq_false_iff_ne.mpr hname, if_neg hname]

/-- A dict after an assignment. -/
theorem lookup_set (d : Assoc α) (key : String) (v : α) (name : String) :
    List.lookup name (d.set key v) = if name = key then some v else d.lookup name := by
  induction d with
  | nil => exact lookup_cons key v [] name
  | cons e d ih =>
    obtain ⟨k, w⟩ := e
    by_cases he : k = key
    · have hset : set ((k, w) :: d) key v = (key, v) :: d := if_pos he
      rw [hset, lookup_cons, lookup_cons, he]
      by_cases hname : name = key <;> simp [hname]
    · have hset : set ((k, w) :: d) key v = (k, w) :: set d key v := if_neg he
      rw [hset, lookup_cons, lookup_cons, ih]
      by_cases hname : name = k
      · simp [hname, he]
      · simp [hname]

/-- `d.update(entries)`. -/
def update (d entries : Assoc α) : Assoc α := entries.foldl (fun d e => d.set e.1 e.2) d

theorem lookup_update (d entries : Assoc α) (name : String) :
    (d.update entries).lookup name = (entries.reverse.lookup name).or (d.lookup name) := by
  unfold update
  induction entries generalizing d with
  | nil => rfl
  | cons e entries ih =>
    rw [List.foldl_cons, ih, lookup_set, List.reverse_cons, List.lookup_append, Option.or_assoc, lookup_cons]
    split <;> rfl

theorem lookup_ofEntries (entries : List (String × α)) (name : String) :
    (ofEntries entries).lookup name = entries.reverse.lookup name :=
  (lookup_update [] entries name).trans Option.or_none

/-- The keys of a dict after assignments to `names`, in this order. -/
def keysOf (names : List String) : List String :=
  names.foldl (fun keys name => if name ∈ keys then keys else keys ++ [name]) []

theorem keys_set (d : Assoc α) (key : String) (v : α) :
    (d.set key v).keys = if key ∈ d.keys then d.keys else d.keys ++ [key] := by
  induction d with
  | nil => rfl
  | cons e d ih =>
    by_cases he : e.1 = key
    · have hset : set (e :: d) key v = (key, v) :: d := if_pos he
      have hmem : key ∈ keys (e :: d) := he ▸ List.mem_cons_self
      rw [hset, if_pos hmem, ← he]
      rfl
    · have hset : set (e :: d) key v = e :: set d key v := if_neg he
      have hmem : key ∈ keys (e :: d) ↔ key ∈ keys d := by simp [keys, Ne.symm he]
      have hkeys : keys (e :: set d key v) = e.1 :: keys (set d key v) := rfl
      rw [hset, hkeys, ih]
      simp only [hmem]
      split <;> rfl

theorem keys_foldl_set (entries : List (String × α)) (d : Assoc α) :
    (entries.foldl (fun d e => d.set e.1 e.2) d).keys =
      (entries.map Prod.fst).foldl (fun keys name => if name ∈ keys then keys else keys ++ [name]) d.keys := by
  induction entries generalizing d with
  | nil => rfl
  | cons e entries ih => rw [List.foldl_cons, ih, keys_set, List.map_cons, List.foldl_cons]

theorem keys_ofEntries (entries : List (String × α)) : (ofEntries entries).keys = keysOf (entries.map Prod.fst) :=
  keys_foldl_set entries []

theorem nodup_keysOf (names : List String) : (keysOf names).Nodup := by
  have hfrom : ∀ names keys : List String, keys.Nodup →
      (names.foldl (fun keys name => if name ∈ keys then keys else keys ++ [name]) keys).Nodup := by
    intro names
    induction names with
    | nil => intro keys h; exact h
    | cons name names ih =>
      intro keys h
      rw [List.foldl_cons]
      split
      · exact ih keys h
      next hnew =>
        refine ih _ (List.nodup_append.mpr ⟨h, by simp, fun a ha b hb hab => ?_⟩)
        obtain rfl := hab.trans (List.mem_singleton.mp hb)
        exact hnew ha
  exact hfrom names [] List.nodup_nil

theorem mem_keysOf {names : List String} {name : String} : name ∈ keysOf names ↔ name ∈ names := by
  have hfrom : ∀ names keys : List String,
      name ∈ names.foldl (fun keys name => if name ∈ keys then keys else keys ++ [name]) keys ↔
        name ∈ keys ∨ name ∈ names := by
    intro names
    induction names with
    | nil => intro keys; simp
    | cons n names ih =>
      intro keys
      rw [List.foldl_cons, ih, List.mem_cons]
      split
      next hmem =>
        constructor
        · exact fun h => h.imp id .inr
        · rintro (h | rfl | h)
          · exact .inl h
          · exact .inl hmem
          · exact .inr h
      next => rw [List.mem_append, List.mem_singleton, or_assoc]
  simp [keysOf, hfrom]

theorem nodup_keys_ofEntries (entries : List (String × α)) : (ofEntries entries).keys.Nodup := by
  rw [keys_ofEntries]
  exact nodup_keysOf _

theorem lookup_map_self {names : List String} {name : String} (g : String → α) (h : name ∈ names) :
    (names.map fun n => (n, g n)).lookup name = some (g name) := by
  induction names with
  | nil => cases h
  | cons n names ih =>
    rw [List.map_cons, lookup_cons]
    split
    next heq => rw [heq]
    next hne => exact ih ((List.mem_cons.mp h).resolve_left hne)

theorem keys_map_self (names : List String) (g : String → α) : keys (names.map fun n => (n, g n)) = names := by
  rw [keys, List.map_map]
  exact List.map_id names

theorem mem_keys_of_lookup {d : Assoc α} {name : String} {v : α} (h : d.lookup name = some v) : name ∈ d.keys := by
  induction d with
  | nil => cases h
  | cons e d ih =>
    rw [lookup_cons] at h
    split at h
    next heq => exact heq ▸ List.mem_cons_self
    next => exact List.mem_cons_of_mem _ (ih h)

theorem lookup_eq_none_of_notMem {d : Assoc α} {name : String} (h : name ∉ d.keys) : d.lookup name = none := by
  cases hlookup : d.lookup name with
  | none => rfl
  | some v => exact absurd (mem_keys_of_lookup hlookup) h

theorem exists_lookup_of_mem {d : Assoc α} {name : String} (h : name ∈ d.keys) : ∃ v, d.lookup name = some v := by
  induction d with
  | nil => cases h
  | cons e d ih =>
    rw [lookup_cons]
    by_cases hname : name = e.1
    · exact ⟨e.2, if_pos hname⟩
    · rw [if_neg hname]
      exact ih ((List.mem_cons.mp h).resolve_left hname)

/-- In a dict every entry is found under its key. -/
theorem lookup_of_mem {d : Assoc α} {name : String} {v : α} (hnodup : d.keys.Nodup) (h : (name, v) ∈ d) :
    d.lookup name = some v := by
  induction d with
  | nil => cases h
  | cons e d ih =>
    obtain ⟨hnew, hrest⟩ := List.nodup_cons.mp hnodup
    rw [lookup_cons]
    obtain rfl | h := List.mem_cons.mp h
    · exact if_pos rfl
    · have hne : name ≠ e.1 := fun heq => hnew (heq ▸ List.mem_map_of_mem h)
      rw [if_neg hne]
      exact ih hrest h

theorem mem_of_lookup {d : Assoc α} {name : String} {v : α} (h : d.lookup name = some v) : (name, v) ∈ d := by
  induction d with
  | nil => cases h
  | cons e d ih =>
    obtain ⟨k, w⟩ := e
    rw [lookup_cons] at h
    split at h
    next heq =>
      obtain rfl := Option.some.inj h
      rw [heq]
      exact List.mem_cons_self
    next => exact List.mem_cons_of_mem _ (ih h)

/-- Two dicts with the same keys in the same order and the same values are the same. -/
theorem eq_of_lookup {d d' : Assoc α} (hkeys : d.keys = d'.keys) (hnodup : d.keys.Nodup)
    (h : ∀ name ∈ d.keys, d.lookup name = d'.lookup name) : d = d' := by
  induction d generalizing d' with
  | nil =>
    cases d' with
    | nil => rfl
    | cons e d' => cases hkeys
  | cons e d ih =>
    cases d' with
    | nil => cases hkeys
    | cons e' d' =>
      obtain ⟨k, v⟩ := e
      obtain ⟨k', v'⟩ := e'
      obtain ⟨rfl, hrest⟩ := List.cons.inj (show k :: keys d = k' :: keys d' from hkeys)
      obtain ⟨hnew, hnodup⟩ := List.nodup_cons.mp (show (k :: keys d).Nodup from hnodup)
      have hv := h k List.mem_cons_self
      rw [lookup_cons, lookup_cons, if_pos rfl, if_pos rfl] at hv
      obtain rfl := Option.some.inj hv
      congr 1
      refine ih hrest hnodup fun name hname => ?_
      have hne : name ≠ k := fun heq => hnew (heq ▸ hname)
      have hlookup := h name (List.mem_cons_of_mem _ hname)
      rwa [lookup_cons, lookup_cons, if_neg hne, if_neg hne] at hlookup

/-- A dict whose values are a function of their keys. -/
theorem ofEntries_map (names : List String) (g : String → α) :
    ofEntries (names.map fun n => (n, g n)) = (keysOf names).map fun n => (n, g n) := by
  have hkeys : (ofEntries (names.map fun n => (n, g n))).keys = keysOf names := by
    rw [keys_ofEntries]
    exact congrArg keysOf (keys_map_self names g)
  refine eq_of_lookup (hkeys.trans (keys_map_self _ g).symm) (nodup_keys_ofEntries _) fun name hname => ?_
  rw [hkeys] at hname
  rw [lookup_map_self g hname, lookup_ofEntries, ← List.map_reverse]
  exact lookup_map_self g (List.mem_reverse.mpr (mem_keysOf.mp hname))

/-- A dict without some keys. -/
def without (d : Assoc α) (names : List String) : Assoc α := d.filter fun e => e.1 ∉ names

theorem keys_without (d : Assoc α) (names : List String) : (d.without names).keys = d.keys.filter (· ∉ names) := by
  rw [without, keys, keys, List.filter_map]
  rfl

theorem lookup_without {names : List String} {name : String} (h : name ∉ names) (d : Assoc α) :
    (d.without names).lookup name = d.lookup name := by
  induction d with
  | nil => rfl
  | cons e d ih =>
    obtain ⟨k, v⟩ := e
    by_cases hk : k ∈ names
    · have hrest : without ((k, v) :: d) names = without d names := List.filter_cons_of_neg (by simpa using hk)
      have hne : name ≠ k := fun heq => h (heq ▸ hk)
      rw [hrest, ih, lookup_cons, if_neg hne]
    · have hrest : without ((k, v) :: d) names = (k, v) :: without d names :=
        List.filter_cons_of_pos (by simpa using hk)
      rw [hrest, lookup_cons, lookup_cons, ih]

theorem lookup_without_of_mem {names : List String} {name : String} (h : name ∈ names) (d : Assoc α) :
    (d.without names).lookup name = none := by
  refine lookup_eq_none_of_notMem fun hkey => ?_
  rw [keys_without] at hkey
  exact of_decide_eq_true (List.mem_filter.mp hkey).2 h

theorem nodup_keys_set {d : Assoc α} (h : d.keys.Nodup) (key : String) (v : α) : (d.set key v).keys.Nodup := by
  rw [keys_set]
  split
  · exact h
  next hnew => exact List.nodup_append.mpr ⟨h, by simp, fun k hk l hl => by
      rw [List.mem_singleton.mp hl]
      exact fun heq => hnew (heq ▸ hk)⟩

theorem lookup_reverse {d : Assoc α} (h : d.keys.Nodup) (name : String) :
    List.lookup name d.reverse = d.lookup name := by
  have hkeys : keys d.reverse = d.keys.reverse := List.map_reverse
  cases hv : d.lookup name with
  | some v =>
    have hnodup : (keys d.reverse).Nodup := by
      rw [hkeys]
      exact List.pairwise_reverse.mpr (h.imp Ne.symm)
    exact lookup_of_mem hnodup (List.mem_reverse.mpr (mem_of_lookup hv))
  | none =>
    refine lookup_eq_none_of_notMem fun hmem => ?_
    rw [hkeys, List.mem_reverse] at hmem
    obtain ⟨v, hv'⟩ := exists_lookup_of_mem hmem
    rw [hv] at hv'
    cases hv'

/-- `d.pop(key, None)`. -/
def pop (d : Assoc α) (key : String) : Assoc α := d.filter fun e => e.1 ≠ key

theorem lookup_pop (d : Assoc α) (key name : String) :
    List.lookup name (d.pop key) = if name = key then none else d.lookup name := by
  induction d with
  | nil => simp [pop]
  | cons e d ih =>
    obtain ⟨k, w⟩ := e
    by_cases hk : k = key
    · have hpop : pop ((k, w) :: d) key = pop d key := List.filter_cons_of_neg (by simp [hk])
      rw [hpop, ih, lookup_cons, hk]
      by_cases hname : name = key <;> simp [hname]
    · have hpop : pop ((k, w) :: d) key = (k, w) :: pop d key := List.filter_cons_of_pos (by simp [hk])
      rw [hpop, lookup_cons, lookup_cons, ih]
      by_cases hname : name = k
      · simp [hname, hk]
      · simp [hname]

theorem set_ne_nil (d : Assoc α) (key : String) (v : α) : d.set key v ≠ [] := by
  cases d with
  | nil => simp [set]
  | cons e d =>
    unfold set
    split <;> simp

end Assoc

/-- Two accesses in a row that both succeed. -/
theorem bind_ok_iff {ε α β : Type} {x : Except ε α} {f : α → Except ε β} {b : β} :
    (x >>= f) = .ok b ↔ ∃ a, x = .ok a ∧ f a = .ok b := by
  cases x with
  | error e =>
    constructor
    · intro h
      cases h
    · rintro ⟨a, h, -⟩
      cases h
  | ok a =>
    constructor
    · exact fun h => ⟨a, rfl, h⟩
    · rintro ⟨a', h, hf⟩
      rw [Except.ok.inj h]
      exact hf

theorem ok_of_bind {ε α β : Type} {x : Except ε α} {f : α → Except ε β} {b : β} (h : (x >>= f) = .ok b) :
    ∃ a, x = .ok a ∧ f a = .ok b :=
  bind_ok_iff.mp h

/-- A loop whose steps all succeed. -/
theorem mapM_eq_ok {ε α β : Type} {f : α → Except ε β} {l : List α} {l' : List β} :
    l.mapM f = .ok l' ↔ l.map f = l'.map .ok := by
  induction l generalizing l' with
  | nil => cases l' <;> simp [pure, Except.pure]
  | cons a l ih =>
    rw [List.mapM_cons, List.map_cons]
    cases hrest : l.mapM f <;> cases f a <;> cases l' <;> simp [← ih, hrest, bind, Except.bind, pure, Except.pure]

namespace Value

/-- `v.get(key, default)`. -/
def get (v : Value) (key : String) (default : Value) : Except AccessError Value :=
  match v with
  | .dict entries => .ok ((entries.lookup key).getD default)
  | _ => .error .attributeError

/-- `v[key]`. -/
def item (v : Value) (key : String) : Except AccessError Value :=
  match v with
  | .dict entries =>
    match entries.lookup key with
    | some w => .ok w
    | none => .error (.keyError key)
  | _ => .error .typeError

/-- `v.items()`. -/
def items : Value → Except AccessError (Assoc Value)
  | .dict entries => .ok entries
  | _ => .error .attributeError

/-- The elements of `for x in v`. -/
def elems : Value → Except AccessError (List Value)
  | .list items => .ok items
  | .dict entries => .ok (entries.map fun e => .str e.1)
  | .str s => .ok (s.toList.map fun c => .str (String.singleton c))
  | _ => .error .typeError

/-- The value as a key of a dict whose keys are strings: `none` is a key that no such dict has. -/
def key : Value → Except AccessError (Option String)
  | .str s => .ok (some s)
  | .list _ | .dict _ => .error .typeError
  | _ => .ok none

/-- `bool(v)`. A float is zero when no digit before its exponent is another one. -/
def truthy : Value → Bool
  | .null => false
  | .bool b => b
  | .int i => i ≠ 0
  | .float text => (text.toList.takeWhile fun c => c ≠ 'e' ∧ c ≠ 'E').any fun c => c ≠ '0' ∧ c ≠ '.' ∧ c ≠ '-'
  | .str s => s ≠ ""
  | .list items => items ≠ []
  | .dict entries => entries ≠ []

end Value
end Json
