import Mathlib.Data.Nat.Notation
import Mathlib.Tactic.IntervalCases

/-! # UTF-8, byte by byte

The decoder of the encoding standard: it keeps the character that it is in the middle of, and replaces what is no
character. -/
namespace Text
set_option autoImplicit false

/-- The bits of a character so far, how many of its bytes are missing, and between what the next one is. -/
structure Utf8 where
  codePoint : ℕ
  needed : ℕ
  lower : ℕ
  upper : ℕ

namespace Utf8

def replacement : Char := Char.ofNat 0xFFFD

def idle : Utf8 := ⟨0, 0, 0x80, 0xBF⟩

/-- The first byte of a character. -/
def first (b : ℕ) : List Char × Utf8 :=
  if b ≤ 0x7F then ([Char.ofNat b], idle)
  else if 0xC2 ≤ b ∧ b ≤ 0xDF then ([], ⟨b - 0xC0, 1, 0x80, 0xBF⟩)
  else if 0xE0 ≤ b ∧ b ≤ 0xEF then
    ([], ⟨b - 0xE0, 2, if b = 0xE0 then 0xA0 else 0x80, if b = 0xED then 0x9F else 0xBF⟩)
  else if 0xF0 ≤ b ∧ b ≤ 0xF4 then
    ([], ⟨b - 0xF0, 3, if b = 0xF0 then 0x90 else 0x80, if b = 0xF4 then 0x8F else 0xBF⟩)
  else ([replacement], idle)

def next (d : Utf8) (byte : UInt8) : List Char × Utf8 :=
  let b := byte.toNat
  if d.needed = 0 then first b
  else if d.lower ≤ b ∧ b ≤ d.upper then
    let codePoint := d.codePoint * 64 + (b - 0x80)
    if d.needed = 1 then ([Char.ofNat codePoint], idle) else ([], ⟨codePoint, d.needed - 1, 0x80, 0xBF⟩)
  else (replacement :: (first b).1, (first b).2)

theorem toNat_ofNat {n : ℕ} (h : n < 256) : (UInt8.ofNat n).toNat = n := by
  rw [UInt8.toNat_ofNat']
  exact Nat.mod_eq_of_lt h

section Steps
variable {a x n lower upper codePoint : ℕ}

theorem first_two (h : 2 ≤ a ∧ a < 32) : idle.next (UInt8.ofNat (a + 0xC0)) = ([], ⟨a, 1, 0x80, 0xBF⟩) := by
  have hfirst : first (a + 0xC0) = ([], ⟨a + 0xC0 - 0xC0, 1, 0x80, 0xBF⟩) := by
    rw [first, if_neg (by omega), if_pos (by omega)]
  show first (UInt8.ofNat (a + 0xC0)).toNat = _
  rw [toNat_ofNat (by omega), hfirst, Nat.add_sub_cancel]

theorem first_three (h : a < 16) : idle.next (UInt8.ofNat (a + 0xE0)) =
    ([], ⟨a, 2, if a + 0xE0 = 0xE0 then 0xA0 else 0x80, if a + 0xE0 = 0xED then 0x9F else 0xBF⟩) := by
  show first (UInt8.ofNat (a + 0xE0)).toNat = _
  rw [toNat_ofNat (by omega), first, if_neg (by omega), if_neg (by omega), if_pos (by omega), Nat.add_sub_cancel]

theorem first_four (h : a < 5) : idle.next (UInt8.ofNat (a + 0xF0)) =
    ([], ⟨a, 3, if a + 0xF0 = 0xF0 then 0x90 else 0x80, if a + 0xF0 = 0xF4 then 0x8F else 0xBF⟩) := by
  show first (UInt8.ofNat (a + 0xF0)).toNat = _
  rw [toNat_ofNat (by omega), first, if_neg (by omega), if_neg (by omega), if_neg (by omega), if_pos (by omega),
    Nat.add_sub_cancel]

theorem next_more (hx : x < 64) (hlower : lower ≤ x + 0x80) (hupper : x + 0x80 ≤ upper) :
    (Utf8.mk codePoint (n + 2) lower upper).next (UInt8.ofNat (x + 0x80)) =
      ([], ⟨codePoint * 64 + x, n + 1, 0x80, 0xBF⟩) := by
  have hbyte : (UInt8.ofNat (x + 0x80)).toNat = x + 0x80 := toNat_ofNat (by omega)
  unfold next
  rw [hbyte, if_neg (Nat.succ_ne_zero _), if_pos ⟨hlower, hupper⟩, if_neg (by simp), Nat.add_sub_cancel]
  rfl

theorem next_last (hx : x < 64) (hlower : lower ≤ x + 0x80) (hupper : x + 0x80 ≤ upper) :
    (Utf8.mk codePoint 1 lower upper).next (UInt8.ofNat (x + 0x80)) = ([Char.ofNat (codePoint * 64 + x)], idle) := by
  have hbyte : (UInt8.ofNat (x + 0x80)).toNat = x + 0x80 := toNat_ofNat (by omega)
  unfold next
  rw [hbyte, if_neg Nat.one_ne_zero, if_pos ⟨hlower, hupper⟩, if_pos rfl, Nat.add_sub_cancel]

end Steps

/-- What the bytes leave the decoder with, where none of them ends a character. -/
inductive Silent : Utf8 → List UInt8 → Utf8 → Prop where
  | nil (d : Utf8) : Silent d [] d
  | cons {d d' d'' : Utf8} {byte : UInt8} {bytes : List UInt8} (h : d.next byte = ([], d'))
    (rest : Silent d' bytes d'') : Silent d (byte :: bytes) d''

/-- The bytes of a character give nothing before the last, and then the character. -/
theorem decodes (c : Char) : ∃ (bytes : List UInt8) (byte : UInt8) (d : Utf8),
    String.utf8EncodeChar c = bytes ++ [byte] ∧ Silent idle bytes d ∧ d.next byte = ([c], idle) := by
  have hvalid : c.toNat < 55296 ∨ (57343 < c.toNat ∧ c.toNat < 1114112) := c.valid
  have hchar : ∀ n, n = c.toNat → Char.ofNat n = c := by
    rintro n rfl
    exact Char.ofNat_toNat c
  fun_cases String.utf8EncodeChar c with
  | case1 v h =>
    have hfirst : first v = ([Char.ofNat v], idle) := if_pos h
    refine ⟨[], UInt8.ofNat v, idle, rfl, .nil _, ?_⟩
    show first (UInt8.ofNat v).toNat = _
    rw [toNat_ofNat (by omega), hfirst, hchar v rfl]
  | case2 v h h2 =>
    refine ⟨[UInt8.ofNat (v / 64 % 32 + 0xC0)], _, _, rfl, .cons (first_two (by omega)) (.nil _), ?_⟩
    rw [next_last (by omega) (by omega) (by omega), hchar _ (by change _ = v; omega)]
  | case3 v h h2 h3 =>
    have hv : v < 55296 ∨ 57343 < v ∧ v < 1114112 := hvalid
    refine ⟨[UInt8.ofNat (v / 4096 % 16 + 0xE0), UInt8.ofNat (v / 64 % 64 + 0x80)], _, _, rfl,
      .cons (first_three (by omega)) (.cons (next_more (by omega) ?_ ?_) (.nil _)), ?_⟩
    · split <;> omega
    · split <;> omega
    · rw [next_last (by omega) (by omega) (by omega), hchar _ (by change _ = v; omega)]
  | case4 v h h2 h3 =>
    have hv : v < 55296 ∨ 57343 < v ∧ v < 1114112 := hvalid
    refine ⟨[UInt8.ofNat (v / 262144 % 8 + 0xF0), UInt8.ofNat (v / 4096 % 64 + 0x80), UInt8.ofNat (v / 64 % 64 + 0x80)],
      _, _, rfl, .cons (first_four (by omega)) (.cons (next_more (by omega) ?_ ?_)
        (.cons (next_more (by omega) (by omega) (by omega)) (.nil _))), ?_⟩
    · split <;> omega
    · split <;> omega
    · rw [next_last (by omega) (by omega) (by omega), hchar _ (by change _ = v; omega)]

end Utf8
end Text
