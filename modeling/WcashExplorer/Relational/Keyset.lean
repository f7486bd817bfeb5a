import Mathlib.Order.Lattice
import WcashExplorer.Relational.Ordered

/-! Keyset pagination: pages below a cursor, read while rows are added above the first page. -/
namespace Relational

variable {ρ σ τ κ γ ε : Type}

section Below

variable [LinearOrder κ] {key : ρ → κ} {rows total done rest : List ρ} {last : ρ}

/-- `SELECT … WHERE key < $before ORDER BY key DESC`, with no bound for a null cursor. -/
def below (key : ρ → κ) (before : Option κ) (rows : List ρ) : List ρ :=
  orderBy (fun r => OrderDual.toDual (key r)) (rows.filter fun r => before.all fun k => key r < k)

/-- Selecting by a column of part of a row selects the parts. -/
theorem map_below (key : ρ → κ) (f : σ → ρ) (rows : List σ) (before : Option κ) :
    (below (fun r => key (f r)) before rows).map f = below key before (rows.map f) := by
  rw [below, below, List.filter_map]
  exact map_orderBy (fun r => OrderDual.toDual (key r)) f _

theorem mem_below {before : Option κ} {r : ρ} :
    r ∈ below key before rows ↔ r ∈ rows ∧ ∀ k ∈ before, key r < k := by
  cases before <;> simp [below]

/-- Distinct keys make the order strict. -/
theorem below_strict (hkeys : (rows.map key).Nodup) :
    (below key none rows).Pairwise fun r s => key s < key r := by
  have hall : (rows.filter fun r => (none : Option κ).all fun k => key r < k) = rows := by simp
  rw [below, hall]
  exact orderBy_strict (f := fun r => OrderDual.toDual (key r)) hkeys

/-- Below the last row of a front part is the rest. -/
theorem mem_rest (hsorted : (done ++ rest).Pairwise fun r s => key s < key r)
    (hlast : done.getLast? = some last) {r : ρ} :
    r ∈ rest ↔ r ∈ done ++ rest ∧ key r < key last := by
  obtain ⟨hdone, -, hcross⟩ := List.pairwise_append.mp hsorted
  obtain ⟨front, rfl⟩ := List.getLast?_eq_some_iff.mp hlast
  constructor
  · intro hr
    exact ⟨List.mem_append_right _ hr, hcross last (by simp) r hr⟩
  · rintro ⟨hr, hlt⟩
    rcases List.mem_append.mp hr with hr | hr
    · rcases List.mem_append.mp hr with hr | hr
      · have hgt := (List.pairwise_append.mp hdone).2.2 r hr last (by simp)
        exact absurd hlt (lt_asymm hgt)
      · obtain rfl := List.mem_singleton.mp hr
        exact absurd hlt (lt_irrefl _)
    · exact hr

/-- A later state that holds the same rows below the cursor is read as the rest of the list. -/
theorem below_eq_rest (hsorted : (done ++ rest).Pairwise fun r s => key s < key r)
    (hlast : done.getLast? = some last) (hnodup : rows.Nodup)
    (hsame : ∀ r, key r < key last → (r ∈ rows ↔ r ∈ done ++ rest)) :
    below key (some (key last)) rows = rest := by
  refine orderBy_eq (List.pairwise_append.mp hsorted).2.1 (hnodup.filter _) fun r => ?_
  rw [mem_rest hsorted hlast]
  simp only [List.mem_filter, Option.all_some, decide_eq_true_eq]
  exact ⟨fun ⟨hr, hlt⟩ => ⟨(hsame r hlt).mp hr, hlt⟩, fun ⟨hr, hlt⟩ => ⟨(hsame r hlt).mpr hr, hlt⟩⟩

end Below

section Follow

/-- The pages a client collects by following cursors, in at most `fuel` requests; none when the
last of them still names a next page. -/
def follow (request : ℕ → Option γ → Except ε (List σ × Option γ)) :
    (fuel i : ℕ) → Option γ → Except ε (Option (List (List σ)))
  | 0, _, _ => .ok none
  | fuel + 1, i, cursor => do
    let (page, next) ← request i cursor
    match next with
    | none => .ok (some [page])
    | some cursor => do
      let pages ← follow request fuel (i + 1) (some cursor)
      .ok (pages.map (page :: ·))

theorem follow_last {request : ℕ → Option γ → Except ε (List σ × Option γ)} {fuel i : ℕ}
    {cursor : Option γ} {page : List σ} (h : request i cursor = .ok (page, none)) :
    follow request (fuel + 1) i cursor = .ok (some [page]) := by
  rw [follow, h]
  rfl

theorem follow_next {request : ℕ → Option γ → Except ε (List σ × Option γ)} {fuel i : ℕ}
    {cursor : Option γ} {page : List σ} {next : γ} {pages : List (List σ)}
    (h : request i cursor = .ok (page, some next))
    (hrest : follow request fuel (i + 1) (some next) = .ok (some pages)) :
    follow request (fuel + 1) i cursor = .ok (some (page :: pages)) := by
  rw [follow, h]
  change (follow request fuel (i + 1) (some next) >>= _) = _
  rw [hrest]
  rfl

/-- The page shows the next rows of the list, and names the last one where more follow. -/
def NextPage (view : σ → τ) (entry : ρ → τ) (cursorOf : ρ → γ) (rest : List ρ) (page : List σ)
    (next : Option γ) : Prop :=
  ∃ limit, 0 < limit ∧ page.map view = (rest.take limit).map entry ∧
    next = if limit < rest.length then (rest.take limit).getLast?.map cursorOf else none

variable {view : σ → τ} {entry : ρ → τ} {cursorOf : ρ → γ}

/-- One more row than the limit is fetched, and tells whether another page follows. -/
theorem nextPage_of_lookahead {δ : Type} {f : δ → σ} {fetched : List δ} {rest : List ρ}
    {limit : ℕ} (cursor : τ → γ) (hpos : 0 < limit) (hcursor : ∀ r, cursor (entry r) = cursorOf r)
    (hfetched : fetched.map (fun r => view (f r)) = (rest.take (limit + 1)).map entry) :
    NextPage view entry cursorOf rest ((fetched.take limit).map f)
      (if limit < fetched.length then
        ((fetched.take limit).map f).getLast?.map fun s => cursor (view s) else none) := by
  have hdata : ((fetched.take limit).map f).map view = (rest.take limit).map entry := by
    have htake := congrArg (List.take limit) hfetched
    rw [← List.map_take, ← List.map_take, List.take_take, Nat.min_eq_left (Nat.le_succ limit)]
      at htake
    simpa only [List.map_map, Function.comp_def] using htake
  have hmore : limit < fetched.length ↔ limit < rest.length := by
    have hlen := congrArg List.length hfetched
    rw [List.length_map, List.length_map, List.length_take] at hlen
    omega
  refine ⟨limit, hpos, hdata, ?_⟩
  have hlast := congrArg (fun l => l.getLast?.map cursor) hdata
  simp only [List.getLast?_map, Option.map_map, Function.comp_def, hcursor] at hlast ⊢
  simp only [hmore, hlast]

/-- A client that is answered with the next rows each time ends with all of them, once each and in
order. -/
theorem follow_complete {total : List ρ} {request : ℕ → Option γ → Except ε (List σ × Option γ)}
    (hrequest : ∀ i done rest, total = done ++ rest → (i = 0 ∨ done ≠ []) → ∃ page next,
      request i (done.getLast?.map cursorOf) = .ok (page, next) ∧
        NextPage view entry cursorOf rest page next)
    {fuel i : ℕ} {done rest : List ρ} (hfuel : rest.length < fuel) (hsplit : total = done ++ rest)
    (hi : i = 0 ∨ done ≠ []) :
    ∃ pages, follow request fuel i (done.getLast?.map cursorOf) = .ok (some pages) ∧
      pages.flatten.map view = rest.map entry := by
  induction fuel generalizing i done rest with
  | zero => omega
  | succ fuel ih =>
    obtain ⟨page, next, hpage, limit, hpos, hview, hnext⟩ := hrequest i done rest hsplit hi
    by_cases hmore : limit < rest.length
    · have hne : rest.take limit ≠ [] := by
        rw [Ne, List.take_eq_nil_iff]
        rintro (h | rfl)
        · omega
        · simp at hmore
      obtain ⟨last, hlast⟩ := Option.isSome_iff_exists.mp (List.getLast?_isSome.mpr hne)
      rw [if_pos hmore, hlast, Option.map_some] at hnext
      have hsplit' : total = (done ++ rest.take limit) ++ rest.drop limit := by
        rw [List.append_assoc, List.take_append_drop]
        exact hsplit
      have hshort : (rest.drop limit).length < fuel := by
        rw [List.length_drop]
        omega
      obtain ⟨pages, hpages, hrest⟩ := ih (i := i + 1) hshort hsplit' (.inr (by simp [hne]))
      rw [List.getLast?_append_of_ne_nil _ hne, hlast, Option.map_some] at hpages
      subst hnext
      refine ⟨page :: pages, follow_next hpage hpages, ?_⟩
      rw [List.flatten_cons, List.map_append, hview, hrest, ← List.map_append,
        List.take_append_drop]
    · rw [if_neg hmore] at hnext
      subst hnext
      refine ⟨[page], follow_last hpage, ?_⟩
      rw [List.flatten_singleton, hview, List.take_of_length_le (by omega)]

end Follow

end Relational
