import Mathlib.Data.List.TakeDrop
import WcashExplorer.Relational.Keyset

/-! Windows over an ordered selection: its last rows, and each row beside the one before it. -/
namespace Relational

variable {ρ σ κ ε : Type}

section Latest

variable {n b : ℕ} {rows chain : List ρ}

/-- The last `n` rows. -/
def latest (n : ℕ) (rows : List ρ) : List ρ := rows.drop (rows.length - n)

theorem map_latest (f : ρ → σ) (n : ℕ) (rows : List ρ) :
    (latest n rows).map f = latest n (rows.map f) := by
  rw [latest, latest, List.map_drop, List.length_map]

theorem reverse_take_reverse (n : ℕ) (rows : List ρ) :
    (rows.reverse.take n).reverse = latest n rows := by
  rw [List.take_reverse, List.reverse_reverse, latest]

theorem latest_take (hb : b ≤ rows.length) : latest n (rows.take b) = (rows.take b).drop (b - n) := by
  rw [latest, List.length_take, Nat.min_eq_left hb]

/-- The rows before the last ones, and the last ones. -/
theorem take_append_latest (hb : b ≤ rows.length) :
    rows.take (b - n) ++ latest n (rows.take b) = rows.take b := by
  have htake : rows.take (b - n) = (rows.take b).take (b - n) := by
    rw [List.take_take, Nat.min_eq_left (Nat.sub_le b n)]
  rw [latest_take hb, htake, List.take_append_drop]

theorem getLast?_latest (hn : 0 < n) : (latest n rows).getLast? = rows.getLast? := by
  rw [latest, List.getLast?_drop]
  split_ifs with h
  · have hnil : rows = [] := List.length_eq_zero_iff.mp (by omega)
    rw [hnil]
    rfl
  · rfl

variable [LinearOrder κ] {key : ρ → κ} {before : Option κ}

/-- `SELECT … WHERE key < $before ORDER BY key DESC LIMIT n`, put back in ascending order. -/
def recent (key : ρ → κ) (before : Option κ) (n : ℕ) (rows : List ρ) : List ρ :=
  orderBy key ((below key before rows).take n)

theorem orderBy_of_sorted (hsorted : chain.Pairwise fun r s => key r < key s)
    (hperm : rows.Perm chain) : orderBy key rows = chain :=
  orderBy_eq hsorted
    (hperm.nodup_iff.mpr (hsorted.imp fun h heq => absurd (heq ▸ h) (lt_irrefl _)))
    fun _ => hperm.mem_iff

/-- Of rows in strict order, the last ones below the bound. -/
theorem recent_eq (hsorted : chain.Pairwise fun r s => key r < key s) (hperm : rows.Perm chain) :
    recent key before n rows =
      latest n (chain.filter fun r => before.all fun k => key r < k) := by
  have hkept : (chain.filter fun r => before.all fun k => key r < k).Pairwise
      fun r s => key r < key s := hsorted.filter _
  have hbelow : below key before rows =
      (chain.filter fun r => before.all fun k => key r < k).reverse :=
    orderBy_of_sorted (List.pairwise_reverse.mpr hkept)
      ((hperm.filter _).trans (List.reverse_perm _).symm)
  rw [recent, hbelow, ← reverse_take_reverse]
  have hpage : ((chain.filter fun r => before.all fun k => key r < k).reverse.take n).reverse.Pairwise
      fun r s => key r < key s := by
    rw [reverse_take_reverse]
    exact hkept.sublist (List.drop_sublist _ _)
  exact orderBy_of_sorted hpage (List.reverse_perm _).symm

/-- Where the keys count up from `start`, the rows below a bound are the first ones. -/
theorem filter_below_range' {index : ρ → ℕ} {start : ℕ}
    (h : rows.map index = List.range' start rows.length) (b : ℕ) :
    (rows.filter fun r => index r < b) = rows.take (b - start) := by
  induction rows generalizing start with
  | nil => simp
  | cons r rest ih =>
    rw [List.map_cons, List.length_cons, List.range'_succ, List.cons.injEq] at h
    obtain ⟨hfirst, hrest⟩ := h
    rw [List.filter_cons, ih hrest, hfirst]
    by_cases hb : start < b
    · have hmore : b - start = b - (start + 1) + 1 := by omega
      rw [if_pos (by simpa using hb), hmore, List.take_succ_cons]
    · have hnone : b - start = 0 := by omega
      have hnone' : b - (start + 1) = 0 := by omega
      rw [if_neg (by simpa using hb), hnone, hnone', List.take_zero, List.take_zero]

theorem filter_below_range {index : ρ → ℕ} (h : rows.map index = List.range rows.length)
    (before : Option ℕ) : (rows.filter fun r => before.all fun b => index r < b) =
      rows.take (before.getD rows.length) := by
  cases before with
  | none => simp
  | some b =>
    rw [List.range_eq_range'] at h
    have hrows := filter_below_range' h b
    rw [Nat.sub_zero] at hrows
    exact hrows

end Latest

section Lag

variable {n k : ℕ} {rows : List ρ}

/-- `LAG(row) OVER (ORDER BY key)`, for rows in that order. -/
def lag (rows : List ρ) : List (Option ρ × ρ) := (none :: rows.map some).zip rows

theorem length_lag : (lag rows).length = rows.length := by
  simp [lag]

theorem getElem?_lag {i : ℕ} :
    (lag rows)[i]? = rows[i]?.map fun r => (if i = 0 then none else rows[i - 1]?, r) := by
  rw [lag, List.zip_eq_zipWith, List.getElem?_zipWith]
  cases i with
  | zero => cases rows <;> rfl
  | succ i =>
    rw [List.getElem?_cons_succ, List.getElem?_map]
    cases hnext : rows[i + 1]? with
    | none => cases rows[i]? <;> rfl
    | some r =>
      have hlt := (List.getElem?_eq_some_iff.mp hnext).1
      rw [Nat.add_sub_cancel, List.getElem?_eq_getElem (by omega)]
      rfl

theorem lag_take : lag (rows.take k) = (lag rows).take k := by
  refine List.ext_getElem? fun i => ?_
  rw [getElem?_lag, List.getElem?_take, List.getElem?_take]
  by_cases hi : i < k
  · have hprevious : (if i - 1 < k then rows[i - 1]? else none) = rows[i - 1]? :=
      if_pos (by omega)
    rw [if_pos hi, hprevious, List.getElem?_take_of_lt hi, getElem?_lag]
  · rw [if_neg hi, List.getElem?_take_eq_none (by omega), Option.map_none]

/-- Behind its first row, a suffix has the same predecessors as the whole. -/
theorem lag_drop : (lag (rows.drop k)).drop 1 = (lag rows).drop (k + 1) := by
  refine List.ext_getElem? fun i => ?_
  rw [List.getElem?_drop, List.getElem?_drop, getElem?_lag, getElem?_lag, List.getElem?_drop,
    List.getElem?_drop, if_neg (by omega), if_neg (by omega)]
  have hrow : k + (1 + i) = k + 1 + i := by omega
  have hprevious : k + (1 + i - 1) = k + 1 + i - 1 := by omega
  rw [hrow, hprevious]

/-- One more row is enough to know the predecessors of the last ones. -/
theorem latest_lag (n : ℕ) (rows : List ρ) :
    latest n (lag (latest (n + 1) rows)) = latest n (lag rows) := by
  by_cases hall : rows.length ≤ n + 1
  · have hwhole : latest (n + 1) rows = rows := by
      rw [latest, Nat.sub_eq_zero_of_le hall, List.drop_zero]
    rw [hwhole]
  · rw [latest, latest, latest, length_lag, length_lag, List.length_drop]
    have hone : rows.length - (rows.length - (n + 1)) - n = 1 := by omega
    have hrest : rows.length - (n + 1) + 1 = rows.length - n := by omega
    rw [hone, lag_drop, hrest]

end Lag

section Older

variable {total : List σ} {request : ℕ → Option ℕ → Except ε (List σ × Option ℕ)}

/-- A page shows the rows just below a bound, and names where it begins unless that is the first
row of all. -/
def OlderPage (total : List σ) (before : Option ℕ) (page : List σ) (next : Option ℕ) : Prop :=
  ∃ limit, 0 < limit ∧ page = latest limit (total.take (before.getD total.length)) ∧
    next = if before.getD total.length ≤ limit then none
      else some (before.getD total.length - limit)

theorem bound_le {before : Option ℕ} (h : ∀ b ∈ before, b < total.length) :
    before.getD total.length ≤ total.length := by
  cases before with
  | none => exact le_refl _
  | some b => exact (h b rfl).le

/-- A client that goes back page by page ends with the whole list. -/
theorem follow_older (hrequest : ∀ i before, (∀ b ∈ before, b < total.length) →
      ∃ page next, request i before = .ok (page, next) ∧ OlderPage total before page next)
    {fuel i : ℕ} {before : Option ℕ} (hfuel : before.getD total.length < fuel)
    (hbefore : ∀ b ∈ before, b < total.length) :
    ∃ pages, follow request fuel i before = .ok (some pages) ∧
      pages.reverse.flatten = total.take (before.getD total.length) := by
  induction fuel generalizing i before with
  | zero => omega
  | succ fuel ih =>
    obtain ⟨page, next, hpage, limit, hpos, rfl, rfl⟩ := hrequest i before hbefore
    have hbound := bound_le hbefore
    have hsplit := take_append_latest (n := limit) hbound
    by_cases hfirst : before.getD total.length ≤ limit
    · rw [if_pos hfirst] at hpage
      rw [Nat.sub_eq_zero_of_le hfirst, List.take_zero, List.nil_append] at hsplit
      refine ⟨[_], follow_last hpage, ?_⟩
      rw [List.reverse_singleton, List.flatten_singleton, hsplit]
    · rw [if_neg hfirst] at hpage
      have holder : ∃ pages, follow request fuel (i + 1)
          (some (before.getD total.length - limit)) = .ok (some pages) ∧
          pages.reverse.flatten = total.take (before.getD total.length - limit) := by
        refine ih ?_ ?_
        · rw [Option.getD_some]
          omega
        · intro b hb
          obtain rfl := Option.mem_some.mp hb
          omega
      obtain ⟨pages, hpages, hrest⟩ := holder
      refine ⟨_ :: pages, follow_next hpage hpages, ?_⟩
      rw [List.reverse_cons, List.flatten_append, List.flatten_singleton, hrest, hsplit]

end Older

end Relational
