import Mathlib.Data.List.Basic
import Mathlib.Order.Max
import Mathlib.Order.MinMax

/-! # Entries that lapse

A log of writes under keys, where what was written last under a key stands until it lapses, and when something stands
at every moment between two. -/
namespace Log
set_option autoImplicit false

structure Lapsing (κ τ : Type) where
  key : κ
  write : τ
  lapse : τ

section Standing
variable {κ τ : Type} [DecidableEq κ] [LinearOrder τ]

/-- What was written last under the key by the moment. -/
def latest (key : κ) (moment : τ) (log : List (Lapsing κ τ)) : Option (Lapsing κ τ) :=
  log.reverse.find? fun e => e.key = key ∧ e.write ≤ moment

def standing (key : κ) (moment : τ) (log : List (Lapsing κ τ)) : Option (Lapsing κ τ) :=
  (latest key moment log).filter fun e => moment < e.lapse

variable {key : κ} {moment a b : τ} {log rest : List (Lapsing κ τ)} {e : Lapsing κ τ}

theorem latest_eq_some_iff : latest key moment log = some e ↔
    (e.key = key ∧ e.write ≤ moment) ∧
      ∃ pre rest, log = pre ++ e :: rest ∧ ∀ other ∈ rest, other.key = key → moment < other.write := by
  rw [latest, List.find?_eq_some_iff_append, decide_eq_true_iff]
  refine and_congr_right fun _ => ?_
  constructor
  · rintro ⟨after, before, hlog, hafter⟩
    refine ⟨before.reverse, after.reverse, ?_, fun other hother hkey => ?_⟩
    · simpa using congrArg List.reverse hlog
    · have hnot := hafter other (List.mem_reverse.mp hother)
      simpa [hkey] using hnot
  · rintro ⟨pre, rest, rfl, hrest⟩
    refine ⟨rest.reverse, pre.reverse, by simp, fun other hother => ?_⟩
    simpa [imp_iff_not_or] using hrest other (List.mem_reverse.mp hother)

theorem latest_eq_none_iff : latest key moment log = none ↔ ∀ e ∈ log, e.key = key → moment < e.write := by
  simp [latest]

theorem standing_isSome_iff :
    (standing key moment log).isSome ↔ ∃ e, latest key moment log = some e ∧ moment < e.lapse := by
  simp only [standing, Option.isSome_iff_exists, Option.filter_eq_some_iff, decide_eq_true_iff]

variable [DenselyOrdered τ]

/-- Soon after a moment nothing of what is written after it has been written. -/
theorem exists_before_writes (hab : a < b) (h : ∀ e ∈ log, e.key = key → a < e.write) :
    ∃ moment, a < moment ∧ moment < b ∧ ∀ e ∈ log, e.key = key → moment < e.write := by
  induction log with
  | nil =>
    obtain ⟨moment, hmoment⟩ := exists_between hab
    exact ⟨moment, hmoment.1, hmoment.2, by simp⟩
  | cons e log ih =>
    rw [List.forall_mem_cons] at h
    obtain ⟨moment, ha, hb, hlog⟩ := ih h.2
    by_cases hkey : e.key = key
    · obtain ⟨earlier, hearlier, hlt⟩ := exists_between (lt_min ha (h.1 hkey))
      refine ⟨earlier, hearlier, (lt_min_iff.mp hlt).1.trans hb, List.forall_mem_cons.mpr ⟨?_, ?_⟩⟩
      · exact fun _ => (lt_min_iff.mp hlt).2
      · exact fun other hother hkey => (lt_min_iff.mp hlt).1.trans (hlog other hother hkey)
    · exact ⟨moment, ha, hb, List.forall_mem_cons.mpr ⟨fun h => absurd h hkey, hlog⟩⟩

/-- Something stands from one moment to another iff something has been written by the first, and whatever lapses before
the second is written again by then. -/
theorem standing_throughout_iff (hlapse : ∀ e ∈ log, e.key = key → e.write ≤ e.lapse) :
    (∀ moment, a < moment → moment < b → (standing key moment log).isSome) ↔
      b ≤ a ∨ (∃ e ∈ log, e.key = key ∧ e.write ≤ a) ∧
        ∀ pre e rest, log = pre ++ e :: rest → e.key = key →
          b ≤ e.lapse ∨ ∃ next ∈ rest, next.key = key ∧ next.write ≤ max e.lapse a := by
  simp only [standing_isSome_iff]
  constructor
  · intro h
    rcases le_or_gt b a with hba | hab
    · exact .inl hba
    refine .inr ⟨?_, fun pre e rest hlog hkey => ?_⟩
    · by_contra hno
      push Not at hno
      obtain ⟨moment, ha, hb, hnone⟩ := exists_before_writes hab hno
      obtain ⟨e, he, -⟩ := h moment ha hb
      rw [latest_eq_none_iff.mpr hnone] at he
      cases he
    · by_contra hno
      push Not at hno
      obtain ⟨moment, hmax, hb, hrest⟩ := exists_before_writes (max_lt hno.1 hab) hno.2
      obtain ⟨hlapsed, ha⟩ := max_lt_iff.mp hmax
      have hwritten : e.write ≤ moment := (hlapse e (by simp [hlog]) hkey).trans hlapsed.le
      obtain ⟨other, hother, hstands⟩ := h moment ha hb
      rw [latest_eq_some_iff.mpr ⟨⟨hkey, hwritten⟩, pre, rest, hlog, hrest⟩] at hother
      obtain rfl := Option.some.inj hother
      exact absurd hstands hlapsed.not_gt
  · rintro (hba | ⟨⟨first, hfirst, hkey, hwritten⟩, hlasts⟩) moment ha hb
    · exact absurd (ha.trans hb) hba.not_gt
    · cases hlatest : latest key moment log with
      | none => exact absurd (latest_eq_none_iff.mp hlatest first hfirst hkey) (hwritten.trans ha.le).not_gt
      | some e =>
        obtain ⟨⟨hkey, -⟩, pre, rest, hlog, hrest⟩ := latest_eq_some_iff.mp hlatest
        refine ⟨e, rfl, ?_⟩
        rcases hlasts pre e rest hlog hkey with hend | ⟨next, hnext, hnextKey, hnextWrite⟩
        · exact hb.trans_le hend
        · -- The next one has not been written yet, so this one has not lapsed.
          have hlater := hrest next hnext hnextKey
          rcases le_max_iff.mp hnextWrite with hle | hle
          · exact hlater.trans_le hle
          · exact absurd (ha.trans hlater) hle.not_gt

end Standing
end Log
