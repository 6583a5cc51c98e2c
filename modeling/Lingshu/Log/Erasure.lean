import Lingshu.Log.Keyed
import Mathlib.Data.List.DropRight

/-! # Logs that erase

A store with one entry for a key, into which lists of entries are written and from which groups of entries are erased. In
a group there are the entries that last of those written since it was erased. -/
namespace Log
set_option autoImplicit false

variable {κ γ ε : Type} [DecidableEq κ] {key : ε → κ}

/-! ## Parts of a store -/

/-- What the key decides picks the same entries before and after a write. -/
theorem filter_put {p : ε → Bool} (hp : ∀ e e', key e = key e' → p e = p e') (store : List ε) (e : ε) :
    (put key store e).filter p = if p e then put key (store.filter p) e else store.filter p := by
  rw [put, List.filter_append]
  cases hpe : p e with
  | true =>
    rw [if_pos rfl, put, List.filter_filter, List.filter_filter, List.filter_cons_of_pos hpe, List.filter_nil]
    simp only [Bool.and_comm]
  | false =>
    rw [if_neg Bool.false_ne_true, List.filter_filter, List.filter_cons_of_neg (by simp [hpe]), List.filter_nil,
      List.append_nil]
    refine List.filter_congr fun e' _ => ?_
    by_cases hkey : key e' = key e
    · simp [hp e' e hkey, hpe]
    · simp [hkey]

theorem filter_foldl_put {p : ε → Bool} (hp : ∀ e e', key e = key e' → p e = p e') (store log : List ε) :
    (log.foldl (put key) store).filter p = (log.filter p).foldl (put key) (store.filter p) := by
  induction log generalizing store with
  | nil => rfl
  | cons e log ih =>
    rw [List.foldl_cons, ih, filter_put hp, List.filter_cons]
    cases p e <;> rfl

/-- What lasts in a part of a log is what lasts of the part. -/
theorem filter_lasting {p : ε → Bool} (hp : ∀ e e', key e = key e' → p e = p e') (log : List ε) :
    (lasting key log).filter p = lasting key (log.filter p) := by
  rw [← puts_eq_lasting, ← puts_eq_lasting, puts, filter_foldl_put hp]
  rfl

/-- Of a log that goes on, there lasts what the rest does not overwrite, and what lasts of the rest. -/
theorem lasting_append (log rest : List ε) : lasting key (log ++ rest) =
    (lasting key log).filter (fun e => ∀ e' ∈ rest, key e' ≠ key e) ++ lasting key rest := by
  rw [← puts_eq_lasting, puts, List.foldl_append, foldl_put, ← puts, puts_eq_lasting]

theorem lasting_eq_self {log : List ε} (h : log.Pairwise fun e e' => key e ≠ key e') : lasting key log = log := by
  induction log with
  | nil => rfl
  | cons e log ih =>
    obtain ⟨hhead, htail⟩ := List.pairwise_cons.mp h
    rw [lasting_cons_of_last fun ⟨e', he', hkey⟩ => hhead e' he' hkey.symm, ih htail]

/-- The last entry lasts. -/
theorem getLast?_lasting (log : List ε) : (lasting key log).getLast? = log.getLast? := by
  induction log using List.reverseRecOn with
  | nil => rfl
  | append_singleton log e _ =>
    rw [lasting_append, List.getLast?_concat]
    exact List.getLast?_concat

theorem lasting_concat (log : List ε) (e : ε) :
    lasting key (log ++ [e]) = (lasting key log).filter (fun e' => key e ≠ key e') ++ [e] := by
  rw [lasting_append]
  simp [lasting]

/-- Each key of the log is among those that last. -/
theorem exists_lasting {log : List ε} {e : ε} (h : e ∈ log) : ∃ e' ∈ lasting key log, key e' = key e := by
  induction log using List.reverseRecOn with
  | nil => cases h
  | append_singleton log last ih =>
    rw [lasting_concat]
    by_cases hkey : key last = key e
    · exact ⟨last, List.mem_append_right _ List.mem_cons_self, hkey⟩
    · obtain h | h := List.mem_append.mp h
      · obtain ⟨e', he', hkey'⟩ := ih h
        refine ⟨e', List.mem_append_left _ (List.mem_filter.mpr ⟨he', decide_eq_true ?_⟩), hkey'⟩
        rwa [hkey']
      · exact absurd (congrArg key (List.mem_singleton.mp h).symm) hkey

theorem lasting_map {ε' : Type} (f : ε' → ε) (log : List ε') :
    lasting key (log.map f) = (lasting (key ∘ f) log).map f := by
  induction log with
  | nil => rfl
  | cons e log ih =>
    have hiff : (∃ e' ∈ log.map f, key e' = key (f e)) ↔ ∃ e' ∈ log, (key ∘ f) e' = (key ∘ f) e := by
      simp
    by_cases hlater : ∃ e' ∈ log, (key ∘ f) e' = (key ∘ f) e
    · rw [List.map_cons, lasting_cons_of_later (hiff.mpr hlater), lasting_cons_of_later hlater, ih]
    · rw [List.map_cons, lasting_cons_of_last (mt hiff.mp hlater), lasting_cons_of_last hlater, ih, List.map_cons]

/-- Keys that tell the same entries apart leave the same entries. -/
theorem lasting_congr {κ' : Type} [DecidableEq κ'] {key' : ε → κ'} {log : List ε}
    (h : ∀ e ∈ log, ∀ e' ∈ log, key e' = key e ↔ key' e' = key' e) : lasting key log = lasting key' log := by
  induction log with
  | nil => rfl
  | cons e log ih =>
    have hrest := ih fun a ha b hb => h a (List.mem_cons_of_mem e ha) b (List.mem_cons_of_mem e hb)
    have hiff : (∃ e' ∈ log, key e' = key e) ↔ ∃ e' ∈ log, key' e' = key' e := by
      refine exists_congr fun e' => and_congr_right fun he' => ?_
      exact h e List.mem_cons_self e' (List.mem_cons_of_mem e he')
    by_cases hlater : ∃ e' ∈ log, key e' = key e
    · rw [lasting_cons_of_later hlater, lasting_cons_of_later (hiff.mp hlater), hrest]
    · rw [lasting_cons_of_last hlater, lasting_cons_of_last (mt hiff.mpr hlater), hrest]

/-- Where all entries have one key, the last one lasts. -/
theorem lasting_of_one_key {log : List ε} (h : ∀ e ∈ log, ∀ e' ∈ log, key e = key e') :
    (lasting key log).head? = log.getLast? := by
  have hlast : (lasting key log).getLast? = log.getLast? := getLast?_lasting log
  rw [← hlast]
  have hsub := (lasting_sublist key log).subset
  cases hlasting : lasting key log with
  | nil => rfl
  | cons e rest =>
    cases rest with
    | nil => rfl
    | cons e' rest =>
      have hpairwise := lasting_pairwise key log
      rw [hlasting] at hpairwise hsub
      have hne := (List.pairwise_cons.mp hpairwise).1 e' List.mem_cons_self
      exact absurd (h e (hsub List.mem_cons_self) e' (hsub (List.mem_cons_of_mem e List.mem_cons_self))) hne

/-- There is one way to sort entries by labels that differ. -/
theorem eq_of_sorted {β : Type} [LinearOrder β] (f : ε → β) {l l' : List ε} (hperm : l.Perm l')
    (hl : l.Pairwise fun a b => f a ≤ f b) (hl' : l'.Pairwise fun a b => f a < f b) : l = l' := by
  have hinj : ∀ a ∈ l', ∀ b ∈ l', f a = f b → a = b := by
    refine List.inj_on_of_nodup_map ?_
    exact List.pairwise_map.mpr (hl'.imp ne_of_lt)
  refine hperm.eq_of_pairwise (fun a b ha hb hab hba => ?_) hl (hl'.imp le_of_lt)
  exact hinj a (hperm.mem_iff.mp ha) b hb (le_antisymm hab hba)

/-! ## Groups -/

/-- Entries are written together, or a group is erased. -/
inductive Event (γ ε : Type) where
  | write (entries : List ε)
  | erase (g : γ)

namespace Event
variable [DecidableEq γ] {group : ε → γ}

def entries : Event γ ε → List ε
  | write es => es
  | erase _ => []

def erases (g : γ) : Event γ ε → Bool
  | write _ => false
  | erase g' => g' = g

variable (key group) in
def apply (store : List ε) : Event γ ε → List ε
  | write es => es.foldl (put key) store
  | erase g => store.filter fun e => group e ≠ g

variable {p : ε → Bool} {g : γ}

/-- An event at a part of one group. -/
theorem filter_apply (hp : ∀ e e', key e = key e' → p e = p e') (hg : ∀ e, p e → group e = g) (store : List ε)
    (ev : Event γ ε) : (ev.apply key group store).filter p =
      if ev.erases g then [] else (ev.entries.filter p).foldl (put key) (store.filter p) := by
  cases ev with
  | write es => exact filter_foldl_put hp store es
  | erase g' =>
    by_cases hgroup : g' = g
    · rw [if_pos (by simpa [erases] using hgroup), apply, List.filter_filter, List.filter_eq_nil_iff]
      intro e _ h
      simp only [Bool.and_eq_true, decide_eq_true_eq] at h
      exact h.2 ((hg e h.1).trans hgroup.symm)
    · rw [if_neg (by simpa [erases] using hgroup), apply, List.filter_filter]
      refine List.filter_congr fun e _ => ?_
      by_cases hpe : p e
      · simp [hpe, hg e hpe, Ne.symm hgroup]
      · simp [hpe]

end Event

variable [DecidableEq γ] {group : ε → γ}

variable (key group) in
def replay (log : List (Event γ ε)) : List ε := log.foldl (Event.apply key group) []

/-- In a part of a group there is what lasts of the entries since the group was erased. -/
theorem filter_replay {p : ε → Bool} {g : γ} (hp : ∀ e e', key e = key e' → p e = p e')
    (hg : ∀ e, p e → group e = g) (log : List (Event γ ε)) : (replay key group log).filter p =
      lasting key (((log.rtakeWhile fun ev => !ev.erases g).flatMap Event.entries).filter p) := by
  induction log using List.reverseRecOn with
  | nil => rfl
  | append_singleton log ev ih =>
    rw [replay, List.foldl_concat, ← replay, Event.filter_apply hp hg, ih, List.rtakeWhile_concat]
    cases ev.erases g with
    | true => rfl
    | false =>
      rw [if_neg Bool.false_ne_true, if_pos (by rfl), List.flatMap_append, List.filter_append, List.flatMap_singleton,
        ← puts_eq_lasting, ← puts_eq_lasting, puts, puts, List.foldl_append]

theorem rtakeWhile_map {α β : Type} (f : α → β) (p : β → Bool) (l : List α) :
    (l.map f).rtakeWhile p = (l.rtakeWhile (p ∘ f)).map f := by
  rw [List.rtakeWhile, List.rtakeWhile, ← List.map_reverse, List.takeWhile_map, List.map_reverse]

end Log
