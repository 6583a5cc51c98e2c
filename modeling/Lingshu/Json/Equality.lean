import Lingshu.Json.RoundTrip
import Mathlib.Algebra.Ring.Int.Defs
import Mathlib.Algebra.Ring.Nat
import Mathlib.Data.List.Perm.Subperm

/-! # Equality of JSON values

Python's `==`: truth values, integers and floats are numbers, and dicts do not depend on the order of their keys. -/
namespace Json
set_option autoImplicit false

/-! ## Numbers -/

/-- A number that is not `nan`; a finite one in units of `2 ^ -1074`, the least positive double. -/
inductive Quantity where
  | finite (units : ℤ)
  | infinite (negative : Bool)
  deriving DecidableEq, Repr

/-- `n / d`, rounded to a whole number, and to an even one in the middle. -/
def roundEven (n d : ℕ) : ℕ := if 2 * (n % d) < d ∨ 2 * (n % d) = d ∧ n / d % 2 = 0 then n / d else n / d + 1

/-- `n / d`, rounded to a number of at most 53 binary digits before zeros. -/
def roundDouble (n d : ℕ) : ℕ :=
  let zeros := Nat.log2 (n / d) - 52
  roundEven n (d * 2 ^ zeros) * 2 ^ zeros

/-- The digits of a decimal as a number, and the power of ten that it is to be multiplied by. -/
def decimalParts (text : List Char) : ℕ × ℤ :=
  let mantissa := text.takeWhile fun c => c ≠ 'e' ∧ c ≠ 'E'
  let whole := mantissa.takeWhile (· ≠ '.')
  let fraction := (mantissa.dropWhile (· ≠ '.')).drop 1
  let exponent : ℤ := match (text.dropWhile fun c => c ≠ 'e' ∧ c ≠ 'E').drop 1 with
    | '-' :: digits => -(digitsValue digits : ℤ)
    | '+' :: digits => digitsValue digits
    | digits => digitsValue digits
  (digitsValue (whole ++ fraction), exponent - fraction.length)

/-- The double nearest to a decimal. -/
def Quantity.ofDecimal (negative : Bool) (text : List Char) : Quantity :=
  let (digits, exponent) := decimalParts text
  let units := roundDouble (digits * 10 ^ exponent.toNat * 2 ^ 1074) (10 ^ (-exponent).toNat)
  -- The largest doubles are below `2 ^ 1024`.
  if 2 ^ 2098 ≤ units then .infinite negative else .finite (if negative then -(units : ℤ) else units)

def Quantity.ofFloat : List Char → Option Quantity
  | ['N', 'a', 'N'] => none
  | ['I', 'n', 'f', 'i', 'n', 'i', 't', 'y'] => some (.infinite false)
  | ['-', 'I', 'n', 'f', 'i', 'n', 'i', 't', 'y'] => some (.infinite true)
  | '-' :: text => some (.ofDecimal true text)
  | text => some (.ofDecimal false text)

def Value.quantity : Value → Option Quantity
  | .bool b => some (.finite (if b then 2 ^ 1074 else 0))
  | .int i => some (.finite (i * 2 ^ 1074))
  | .float text => Quantity.ofFloat text.toList
  | _ => none

/-- Two numbers are equal; `nan` is equal to none. -/
def sameQuantity : Option Quantity → Option Quantity → Bool
  | some n, some m => n = m
  | _, _ => false

/-! ## Values -/

mutual

/-- `v == w`, of values that share no objects. -/
def Value.equal : Value → Value → Bool
  | .null, w => w = .null
  | .str s, w => w = .str s
  | .list a, w => match w with
    | .list b => itemsEqual a b
    | _ => false
  | .dict a, w => match w with
    | .dict b => a.length = b.length && entriesEqual a b
    | _ => false
  | .bool b, w => sameQuantity (Value.bool b).quantity w.quantity
  | .int i, w => sameQuantity (Value.int i).quantity w.quantity
  | .float text, w => sameQuantity (Value.float text).quantity w.quantity

def itemsEqual : List Value → List Value → Bool
  | [], [] => true
  | v :: vs, w :: ws => v.equal w && itemsEqual vs ws
  | _, _ => false

/-- Each entry of the first is in the second. -/
def entriesEqual : List (String × Value) → Assoc Value → Bool
  | [], _ => true
  | (k, v) :: es, b =>
    (match b.lookup k with
      | some w => v.equal w
      | none => false) && entriesEqual es b

end

example : (Value.dict [("n", .int 1), ("s", .null)]).equal (.dict [("s", .null), ("n", .float "10.0e-1")]) = true := by
  decide +kernel

section Equal
variable {a b : Assoc Value}

theorem sameQuantity_comm (x y : Option Quantity) : sameQuantity x y = sameQuantity y x := by
  cases x <;> cases y <;> first | rfl | simp only [sameQuantity, eq_comm]

theorem entriesEqual_iff : entriesEqual a b ↔ ∀ e ∈ a, ∃ w, b.lookup e.1 = some w ∧ e.2.equal w := by
  induction a with
  | nil => simp [entriesEqual]
  | cons e a ih =>
    obtain ⟨k, v⟩ := e
    rw [entriesEqual, Bool.and_eq_true, ih, List.forall_mem_cons]
    refine and_congr_left fun _ => ?_
    cases b.lookup k <;> simp

theorem mem_keys_iff_isSome {key : String} : key ∈ a.keys ↔ (a.lookup key).isSome := by
  constructor
  · intro hkey
    obtain ⟨v, hv⟩ := Assoc.exists_lookup_of_mem hkey
    rw [hv]
    rfl
  · intro hsome
    obtain ⟨v, hv⟩ := Option.isSome_iff_exists.mp hsome
    exact Assoc.mem_keys_of_lookup hv

theorem isSome_of_rel {R : Value → Value → Prop} {x y : Option Value} (h : Option.Rel R x y) : x.isSome = y.isSome := by
  cases h <;> rfl

/-- Dicts are equal when they have the same keys, with equal values. -/
theorem dict_equal_iff (ha : a.keys.Nodup) (hb : b.keys.Nodup) : (Value.dict a).equal (.dict b) ↔
    ∀ key, Option.Rel (fun v w => v.equal w = true) (a.lookup key) (b.lookup key) := by
  rw [Value.equal, Bool.and_eq_true, decide_eq_true_iff, entriesEqual_iff]
  constructor
  · rintro ⟨hlength, hentries⟩ key
    have hsub : a.keys ⊆ b.keys := by
      intro k hk
      obtain ⟨e, he, rfl⟩ := List.mem_map.mp hk
      obtain ⟨w, hw, -⟩ := hentries e he
      exact Assoc.mem_keys_of_lookup hw
    have hlen : b.keys.length = a.keys.length := by
      rw [Assoc.keys, Assoc.keys, List.length_map, List.length_map, hlength]
    have hperm : a.keys.Perm b.keys := (List.subperm_of_subset ha hsub).perm_of_length_le (Nat.le_of_eq hlen)
    cases hv : a.lookup key with
    | some v =>
      obtain ⟨w, hw, hequal⟩ := hentries _ (Assoc.mem_of_lookup hv)
      rw [hw]
      exact .some hequal
    | none =>
      have hkey : key ∉ b.keys := by
        rw [← hperm.mem_iff, mem_keys_iff_isSome, hv]
        exact Bool.false_ne_true
      rw [Assoc.lookup_eq_none_of_notMem hkey]
      exact .none
  · intro h
    have hkeys : ∀ key, key ∈ a.keys ↔ key ∈ b.keys := fun key => by
      rw [mem_keys_iff_isSome, mem_keys_iff_isSome, isSome_of_rel (h key)]
    refine ⟨?_, fun e he => ?_⟩
    · have hperm : a.keys.Perm b.keys := (List.perm_ext_iff_of_nodup ha hb).mpr hkeys
      simpa only [Assoc.keys, List.length_map] using hperm.length_eq
    · have hkey := h e.1
      rw [Assoc.lookup_of_mem ha he] at hkey
      cases hw : b.lookup e.1 with
      | none => rw [hw] at hkey; cases hkey
      | some w =>
        rw [hw] at hkey
        cases hkey with
        | some hequal => exact ⟨w, rfl, hequal⟩

theorem wellFormed_of_mem {es : List (String × Value)} (h : entriesWellFormed es) {e : String × Value} (he : e ∈ es) :
    e.2.wellFormed := by
  induction es with
  | nil => cases he
  | cons e' es ih =>
    rw [entriesWellFormed, Bool.and_eq_true] at h
    rcases List.mem_cons.mp he with rfl | hrest
    · exact h.1
    · exact ih h.2 hrest

theorem wellFormed_dict {entries : Assoc Value} (h : (Value.dict entries).wellFormed) :
    entries.keys.Nodup ∧ ∀ e ∈ entries, e.2.wellFormed := by
  rw [Value.wellFormed, Bool.and_eq_true] at h
  exact ⟨of_decide_eq_true h.1, fun _ he => wellFormed_of_mem h.2 he⟩

/-- What equals a number is one, and equal to it. -/
theorem number_symm {v w : Value} (h : sameQuantity v.quantity w.quantity) : w.equal v := by
  have hcomm := sameQuantity_comm v.quantity w.quantity
  rw [h] at hcomm
  cases w with
  | bool _ | int _ | float _ => exact hcomm.symm
  | _ => cases (show true = false from hcomm)

theorem rel_symm {R S : Value → Value → Prop} {x y : Option Value} (h : Option.Rel R x y)
    (hsymm : ∀ v ∈ x, ∀ w ∈ y, R v w → S w v) : Option.Rel S y x := by
  cases h with
  | none => exact .none
  | some hvw => exact .some (hsymm _ rfl _ rfl hvw)

end Equal

mutual

theorem Value.equal_symm : (v w : Value) → v.wellFormed → w.wellFormed → v.equal w → w.equal v
  | .null, w, _, _, h => by
    obtain rfl : w = .null := of_decide_eq_true h
    exact h
  | .str s, w, _, _, h => by
    obtain rfl : w = .str s := of_decide_eq_true h
    exact h
  | .list a, w, hv, hw, h => by
    cases w with
    | list b => exact itemsEqual_symm a b hv hw h
    | _ => cases h
  | .dict a, w, hv, hw, h => by
    cases w with
    | dict b =>
      have ha := wellFormed_dict hv
      have hb := wellFormed_dict hw
      refine (dict_equal_iff hb.1 ha.1).mpr fun key => ?_
      refine rel_symm ((dict_equal_iff ha.1 hb.1).mp h key) fun v hv w hw hequal => ?_
      exact entriesEqual_symm a ha.2 (key, v) (Assoc.mem_of_lookup hv) w (hb.2 _ (Assoc.mem_of_lookup hw)) hequal
    | _ => cases h
  | .bool _, _, _, _, h | .int _, _, _, _, h | .float _, _, _, _, h => number_symm h

theorem itemsEqual_symm : (a b : List Value) → itemsWellFormed a → itemsWellFormed b → itemsEqual a b → itemsEqual b a
  | [], [], _, _, _ => rfl
  | [], _ :: _, _, _, h | _ :: _, [], _, _, h => by cases h
  | v :: vs, w :: ws, ha, hb, h => by
    rw [itemsWellFormed, Bool.and_eq_true] at ha hb
    rw [itemsEqual, Bool.and_eq_true] at h ⊢
    exact ⟨Value.equal_symm v w ha.1 hb.1 h.1, itemsEqual_symm vs ws ha.2 hb.2 h.2⟩

theorem entriesEqual_symm : (a : List (String × Value)) → (∀ e ∈ a, e.2.wellFormed) → ∀ e ∈ a, ∀ w : Value,
    w.wellFormed → e.2.equal w → w.equal e.2
  | [], _, e, he, _, _, _ => by cases he
  | (k, v) :: a, ha, e, he, w, hw, h => by
    rcases List.mem_cons.mp he with rfl | hrest
    · exact Value.equal_symm v w (ha (k, v) he) hw h
    · exact entriesEqual_symm a (fun e he => ha e (List.mem_cons_of_mem _ he)) e hrest w hw h

end

theorem Value.equal_comm {v w : Value} (hv : v.wellFormed) (hw : w.wellFormed) : v.equal w = w.equal v :=
  Bool.eq_iff_iff.mpr ⟨Value.equal_symm v w hv hw, Value.equal_symm w v hw hv⟩

end Json
