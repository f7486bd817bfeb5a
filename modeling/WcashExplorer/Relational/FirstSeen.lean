import Mathlib.Algebra.BigOperators.Ring.Finset
import Mathlib.Data.Set.Card
import WcashExplorer.Relational.Grouping

/-! Names seen over time: who is active, who is new, and how many were seen so far. -/
namespace Relational

variable {ν : Type} [DecidableEq ν] {events : List (ν × ℕ)} {a : ν} {s t : ℕ}

/-- `SELECT name, MIN(time) … GROUP BY name`. -/
def firstSeen (events : List (ν × ℕ)) : List (ν × ℕ) :=
  (groupBy Prod.fst events).filterMap fun g => (g.2.map Prod.snd).min?.map fun t => (g.1, t)

/-- How many names have an event at a time. -/
def activeAt (events : List (ν × ℕ)) (t : ℕ) : ℕ :=
  ((group Prod.snd t events).map Prod.fst).dedup.length

/-- How many names have their first event at a time. -/
def newAt (events : List (ν × ℕ)) (t : ℕ) : ℕ := (group Prod.snd t (firstSeen events)).length

theorem mem_firstSeen :
    (a, t) ∈ firstSeen events ↔ (a, t) ∈ events ∧ ∀ s, (a, s) ∈ events → t ≤ s := by
  have htimes {s : ℕ} : s ∈ (group Prod.fst a events).map Prod.snd ↔ (a, s) ∈ events := by
    simp only [List.mem_map, mem_group, Prod.exists]
    constructor
    · rintro ⟨_, _, ⟨h, rfl⟩, rfl⟩
      exact h
    · intro h
      exact ⟨a, s, ⟨h, rfl⟩, rfl⟩
  simp only [firstSeen, List.mem_filterMap, Option.map_eq_some_iff]
  constructor
  · rintro ⟨⟨b, g⟩, hg, first, hfirst, heq⟩
    obtain ⟨rfl, rfl⟩ := Prod.mk.inj heq
    obtain ⟨-, hrows⟩ := mem_groupBy.mp hg
    rw [hrows] at hfirst
    obtain ⟨hmem, hle⟩ := List.min?_eq_some_iff.mp hfirst
    exact ⟨htimes.mp hmem, fun s hs => hle s (htimes.mpr hs)⟩
  · rintro ⟨hmem, hle⟩
    refine ⟨_, group_mem_groupBy hmem, t, ?_, rfl⟩
    exact List.min?_eq_some_iff.mpr ⟨htimes.mpr hmem, fun s hs => hle s (htimes.mp hs)⟩

theorem firstSeen_nodup : ((firstSeen events).map Prod.fst).Nodup := by
  have hkeys : (groupBy Prod.fst events).Pairwise fun g g' => g.1 ≠ g'.1 :=
    List.pairwise_map.mp keys_groupBy_nodup
  refine List.pairwise_map.mpr (hkeys.filterMap _ fun g g' hne e he e' he' => ?_)
  obtain ⟨t, -, rfl⟩ := Option.map_eq_some_iff.mp he
  obtain ⟨t', -, rfl⟩ := Option.map_eq_some_iff.mp he'
  exact hne

/-- A name that has an event has a first one. -/
theorem exists_firstSeen (h : (a, s) ∈ events) : ∃ t ≤ s, (a, t) ∈ firstSeen events := by
  have hex : ∃ t, (a, t) ∈ events := ⟨s, h⟩
  exact ⟨Nat.find hex, Nat.find_le h,
    mem_firstSeen.mpr ⟨Nat.find_spec hex, fun s hs => Nat.find_le hs⟩⟩

theorem ncard_eq_length {names : List ν} {S : Set ν} (hnodup : names.Nodup)
    (hmem : ∀ a, a ∈ S ↔ a ∈ names) : S.ncard = names.length := by
  have hset : S = ↑names.toFinset := by
    ext a
    simp [hmem]
  rw [hset, Set.ncard_coe_finset, List.toFinset_card_of_nodup hnodup]

/-- As many names were seen before a time as have their first event before it. -/
theorem length_firstSeen_lt : ((firstSeen events).filter fun e => e.2 < t).length =
    {a | ∃ s < t, (a, s) ∈ events}.ncard := by
  have hnodup : (((firstSeen events).filter fun e => e.2 < t).map Prod.fst).Nodup :=
    (List.filter_sublist.map _).nodup firstSeen_nodup
  rw [ncard_eq_length hnodup, List.length_map]
  intro a
  simp only [Set.mem_ofPred_eq, List.mem_map, List.mem_filter, decide_eq_true_eq, Prod.exists]
  constructor
  · rintro ⟨s, hs, hevent⟩
    obtain ⟨first, hle, hfirst⟩ := exists_firstSeen hevent
    exact ⟨a, first, ⟨hfirst, lt_of_le_of_lt hle hs⟩, rfl⟩
  · rintro ⟨_, s, ⟨hfirst, hs⟩, rfl⟩
    exact ⟨s, hs, (mem_firstSeen.mp hfirst).1⟩

theorem sum_length_groups {ρ κ : Type} [DecidableEq κ] {key : ρ → κ} {rows : List ρ} {ks : List κ}
    (hks : ks.Nodup) : (ks.map fun k => (group key k rows).length).sum =
      (rows.filter fun r => key r ∈ ks).length := by
  have hsum : (ks.map fun k => ((group key k rows).map fun _ => (1 : ℤ)).sum).sum =
      ((rows.filter fun r => key r ∈ ks).map fun _ => (1 : ℤ)).sum := sum_keys hks _
  have hone (l : List ρ) : (l.map fun _ => (1 : ℤ)).sum = l.length := by simp
  simp only [hone] at hsum
  have hcast : ((ks.map fun k => (group key k rows).length).sum : ℤ) =
      (ks.map fun k => ((group key k rows).length : ℤ)).sum := by
    rw [Nat.cast_list_sum, List.map_map]
    rfl
  exact_mod_cast hcast.trans hsum

/-- Over distinct times that cover the events, the new names add up to those seen. -/
theorem sum_newAt {times : List ℕ} (hnodup : times.Nodup) (hcover : ∀ e ∈ events, e.2 ∈ times) :
    ((times.filter fun s => s < t).map (newAt events)).sum =
      {a | ∃ s < t, (a, s) ∈ events}.ncard := by
  refine (sum_length_groups (hnodup.filter _)).trans ?_
  rw [← length_firstSeen_lt]
  refine congrArg List.length (List.filter_congr fun e he => ?_)
  have hin := hcover e (mem_firstSeen.mp he).1
  simp [hin]

theorem activeAt_eq : activeAt events t = {a | (a, t) ∈ events}.ncard := by
  rw [activeAt, ncard_eq_length (List.nodup_dedup _)]
  intro a
  simp [mem_group]

/-- New names are active ones. -/
theorem newAt_le_activeAt : newAt events t ≤ activeAt events t := by
  have hnodup : ((group Prod.snd t (firstSeen events)).map Prod.fst).Nodup :=
    (List.filter_sublist.map _).nodup firstSeen_nodup
  have hsub : (group Prod.snd t (firstSeen events)).map Prod.fst ⊆
      ((group Prod.snd t events).map Prod.fst).dedup := by
    intro a ha
    obtain ⟨e, he, rfl⟩ := List.mem_map.mp ha
    obtain ⟨hfirst, ht⟩ := mem_group.mp he
    refine List.mem_dedup.mpr (List.mem_map_of_mem (mem_group.mpr ⟨?_, ht⟩))
    exact (mem_firstSeen.mp hfirst).1
  rw [newAt, activeAt, ← List.length_map Prod.fst]
  exact (List.subperm_of_subset hnodup hsub).length_le

/-- What is new at a time was not seen before. -/
theorem newAt_add : newAt events t + {a | ∃ s < t, (a, s) ∈ events}.ncard =
    {a | ∃ s < t + 1, (a, s) ∈ events}.ncard := by
  rw [← length_firstSeen_lt, ← length_firstSeen_lt, newAt, group]
  induction firstSeen events with
  | nil => rfl
  | cons e rest ih =>
    simp only [List.filter_cons, decide_eq_true_eq, apply_ite List.length, List.length_cons]
    split_ifs <;> omega

end Relational
