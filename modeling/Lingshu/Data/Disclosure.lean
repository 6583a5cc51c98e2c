import Lingshu.Data.Reads

/-! # What a mask discloses

A mask hides something of a text if another text of the same length gets the same mask. -/
namespace Lingshu.Data
open Json
set_option autoImplicit false

/-- Another text for the same masked value, of the same length; and one masked value for all values, if the strategy
shows nothing of them. -/
structure Hides (py : Python) (strategy : String) (value : Value) : Prop where
  shared : ∃ s : String, s ≠ py.str value ∧ s.length = (py.str value).length ∧
    maskValue py (.str s) strategy = maskValue py value strategy
  constant : strategy ∉ ["SHOW_LAST_4", "MASK_PHONE_MIDDLE"] → ∀ other, other ≠ .null →
    maskValue py other strategy = maskValue py value strategy

/-- A text with one character replaced. -/
def altered (s : List Char) (i : ℕ) : List Char := s.modify i fun c => if c = 'a' then 'b' else 'a'

theorem altered_ne {s : List Char} {i : ℕ} (hi : i < s.length) : altered s i ≠ s := by
  intro h
  have hget := congrArg (·[i]?) h
  simp only [altered, List.getElem?_modify_eq, List.getElem?_eq_getElem hi, Option.map_eq_map,
    Option.map_some, Option.some.injEq] at hget
  split at hget
  next ha => exact absurd (ha.symm.trans hget.symm) (by decide)
  next ha => exact ha hget.symm

theorem length_altered (s : List Char) (i : ℕ) : (altered s i).length = s.length := List.length_modify ..

theorem take_altered {s : List Char} {i n : ℕ} (h : n ≤ i) : (altered s i).take n = s.take n := by
  rw [altered, List.take_modify, List.modify_eq_self (by rw [List.length_take]; omega)]

theorem drop_altered {s : List Char} {i n : ℕ} (h : i < n) : (altered s i).drop n = s.drop n := by
  rw [altered, List.drop_modify_of_lt _ _ _ _ h]

theorem str_ne_null (s : String) : Value.str s ≠ .null := nofun

section Strategies
variable {py : Python} {strategy : String} {value : Value}

/-- A replaced character that the mask does not show. -/
theorem shared_altered {i : ℕ} (hi : i < (py.str value).toList.length)
    (h : maskValue py (.str (String.ofList (altered (py.str value).toList i))) strategy = maskValue py value strategy) :
    ∃ s : String, s ≠ py.str value ∧ s.length = (py.str value).length ∧
      maskValue py (.str s) strategy = maskValue py value strategy := by
  refine ⟨_, fun heq => altered_ne hi ?_, ?_, h⟩
  · have htext := congrArg String.toList heq
    rwa [String.toList_ofList] at htext
  · rw [String.length_ofList, length_altered, String.length_toList]

theorem maskValue_last4 (hvalue : value ≠ .null) : maskValue py value "SHOW_LAST_4" =
    if (py.str value).toList.length ≤ 4 then .str "***"
    else .str ("***" ++ String.ofList ((py.str value).toList.drop ((py.str value).toList.length - 4))) :=
  if_neg hvalue

theorem maskValue_phone (hvalue : value ≠ .null) : maskValue py value "MASK_PHONE_MIDDLE" =
    if 7 ≤ (py.str value).toList.length then
      .str (String.ofList ((py.str value).toList.take 3) ++ "****" ++
        String.ofList ((py.str value).toList.drop ((py.str value).toList.length - 4)))
    else .str "***" :=
  if_neg hvalue

/-- The strategies that show nothing. -/
theorem maskValue_full (hnone : strategy ≠ "MASK_NONE") (hs : strategy ∉ ["SHOW_LAST_4", "MASK_PHONE_MIDDLE"])
    {other : Value} (hvalue : value ≠ .null) (hother : other ≠ .null) :
    maskValue py other strategy = maskValue py value strategy := by
  unfold maskValue
  rw [if_neg hother, if_neg hvalue]
  split
  next => exact absurd rfl hnone
  next => rfl
  next => rfl
  next => exact absurd (List.mem_cons_self ..) hs
  next => exact absurd (List.mem_cons_of_mem _ (List.mem_cons_self ..)) hs
  next => rfl

/-- Both ends shown, and nothing between them. -/
theorem phone_shows {s t : List Char} (hs : s.length = 7) (ht : t.length = 7)
    (h : String.ofList (s.take 3) ++ "****" ++ String.ofList (s.drop (s.length - 4)) =
      String.ofList (t.take 3) ++ "****" ++ String.ofList (t.drop (t.length - 4))) : s = t := by
  have htext := congrArg String.toList h
  simp only [String.toList_append, String.toList_ofList, hs, ht, List.append_assoc] at htext
  obtain ⟨hhead, htail⟩ := List.append_inj htext (by rw [List.length_take, List.length_take, hs, ht])
  have hlast := List.append_cancel_left htail
  rw [← List.take_append_drop 3 s, ← List.take_append_drop 3 t, hhead, hlast]

/-- Of a text of seven characters the middle is empty. -/
theorem not_hides_seven (hstr : ∀ s, py.str (.str s) = s) (hvalue : value ≠ .null) (h7 : (py.str value).length = 7) :
    ¬ Hides py "MASK_PHONE_MIDDLE" value := by
  rintro ⟨⟨s, hdiff, hlen, heq⟩, -⟩
  have hs7 : s.toList.length = 7 := by rw [String.length_toList, hlen, h7]
  have hv7 : (py.str value).toList.length = 7 := by rw [String.length_toList, h7]
  rw [maskValue_phone (str_ne_null s), maskValue_phone hvalue, hstr, if_pos hs7.ge, if_pos hv7.ge] at heq
  injection heq with heq
  exact hdiff (String.toList_inj.mp (phone_shows hs7 hv7 heq))

theorem hides_iff (hstr : ∀ s, py.str (.str s) = s) (hs : strategy ≠ "MASK_NONE") (hvalue : value ≠ .null)
    (hne : py.str value ≠ "") :
    Hides py strategy value ↔ ¬(strategy = "MASK_PHONE_MIDDLE" ∧ (py.str value).length = 7) := by
  have hpos : 0 < (py.str value).toList.length := by
    rw [List.length_pos_iff]
    exact fun h => hne (String.toList_eq_nil_iff.mp h)
  constructor
  · rintro hhides ⟨rfl, h7⟩
    exact not_hides_seven hstr hvalue h7 hhides
  · intro hcond
    refine ⟨?_, fun hfull other hother => maskValue_full hs hfull hvalue hother⟩
    by_cases hlast : strategy = "SHOW_LAST_4"
    · subst hlast
      refine shared_altered hpos ?_
      rw [maskValue_last4 (str_ne_null _), maskValue_last4 hvalue, hstr, String.toList_ofList, length_altered]
      split
      · rfl
      · rw [drop_altered (by omega)]
    by_cases hphone : strategy = "MASK_PHONE_MIDDLE"
    · subst hphone
      have h7 : (py.str value).toList.length ≠ 7 := fun h => hcond ⟨rfl, by rw [← String.length_toList, h]⟩
      by_cases hlong : 7 ≤ (py.str value).toList.length
      · refine shared_altered (i := 3) (by omega) ?_
        rw [maskValue_phone (str_ne_null _), maskValue_phone hvalue, hstr, String.toList_ofList, length_altered, if_pos hlong,
          if_pos hlong, take_altered (le_refl 3), drop_altered (by omega)]
      · refine shared_altered hpos ?_
        rw [maskValue_phone (str_ne_null _), maskValue_phone hvalue, hstr, String.toList_ofList, length_altered, if_neg hlong,
          if_neg hlong]
    · refine shared_altered hpos (maskValue_full hs ?_ hvalue (str_ne_null _))
      simp only [List.mem_cons, List.not_mem_nil, or_false, not_or]
      exact ⟨hlast, hphone⟩

end Strategies

/-- Python for which a text is its own text. -/
def Python.texts : Python :=
  { Python.plain with str := fun v => match v with
    | .str s => s
    | v => dumps v }

theorem hides_phone : Hides Python.texts "MASK_PHONE_MIDDLE" (.str "13812345678") :=
  (@hides_iff Python.texts "MASK_PHONE_MIDDLE" (.str "13812345678") (fun _ => rfl) (by decide) (str_ne_null _)
    (by decide)).mpr fun h => absurd h.2 (by decide)

/-- All seven characters of a short number are shown. -/
theorem short_number_shown : maskValue Python.texts (.str "5551234") "MASK_PHONE_MIDDLE" = .str "555****1234" ∧
    ¬ Hides Python.texts "MASK_PHONE_MIDDLE" (.str "5551234") :=
  ⟨by decide, not_hides_seven (fun _ => rfl) (str_ne_null _) (by decide)⟩

end Lingshu.Data
