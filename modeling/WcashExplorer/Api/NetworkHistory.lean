import WcashExplorer.Api.Traversal
import WcashExplorer.Db.BlockRows
import WcashExplorer.Indexer.Tip
import WcashExplorer.Relational.Window

/-! The network history: every page is a slice of one list of points. -/
namespace WcashExplorer

open Relational

section Query

structure HistoryQuery where
  before : Option Nat
  limit : Option Nat

def defaultHistoryLimit : Nat := 240

def maxHistoryLimit : Nat := 2048

/-- `history_limit`. -/
def historyLimit (limit : Option Nat) : Nat :=
  max 2 (min (limit.getD defaultHistoryLimit) maxHistoryLimit)

/-- The bound as it is bound to the query, or `height_error`. -/
def historyBefore (before : Option Nat) : Result (Option Nat) :=
  optional (requestToI64 · "height") before

/-- A selected row with its block. -/
abbrev HeightBlock : Type := CanonicalRow × BlockRow

/-- `selectors JOIN blocks`. -/
def joinBlocks (db : Db) (selectors : List CanonicalRow) : List HeightBlock :=
  selectors.filterMap fun c => (db.blocks.find? c.blockHash).map fun b => (c, b)

/-- `EXTRACT(EPOCH FROM …)::BIGINT`, to the nearest second, and away from zero between two. -/
def epochSeconds (interval : Int) : Int := interval.sign * ((interval.natAbs + 500000) / 1000000 : Nat)

structure NetworkHistoryRow where
  height : Nat
  hash : Text
  blockTime : Timestamp
  difficultyText : Text
  spacingSeconds : Option Int
  sizeBytes : Nat
  transactionCount : Nat
  chainSupplyZat : Option Int

/-- The interval between two instants has the range of a machine integer too. -/
def spacingSeconds (b previous : BlockRow) : Result Int := do
  let interval ← asBigint (b.blockTime - previous.blockTime)
  .ok (epochSeconds interval)

def networkHistoryRow (x : HeightBlock) (spacing : Option Int) : NetworkHistoryRow where
  height := x.1.height
  hash := x.1.blockHash
  blockTime := x.2.blockTime
  difficultyText := x.2.difficultyText
  spacingSeconds := spacing
  sizeBytes := x.2.sizeBytes
  transactionCount := x.2.transactionCount
  chainSupplyZat := x.2.chainSupplyZat

/-- A row of `history`: `LAG(block_time)` is null for the first row of the window. -/
def windowRow (x : Option HeightBlock × HeightBlock) : Result NetworkHistoryRow :=
  (optional (fun previous => spacingSeconds x.2.2 previous.2) x.1).map (networkHistoryRow x.2)

/-- `NETWORK_HISTORY_QUERY`: one row more than the limit is selected, for the window. -/
def networkHistoryQuery (db : Db) (networkId : Text) (before : Option Nat) (limit : Nat) :
    Result (List NetworkHistoryRow) := do
  let selectors := (below CanonicalRow.height before (canonicalRows db networkId)).take (limit + 1)
  let selected := joinBlocks db selectors
  let history ← (lag (orderBy (fun x => x.1.height) selected)).mapM windowRow
  .ok (recent NetworkHistoryRow.height none limit history)

structure NetworkHistoryPoint where
  height : Nat
  hash : Text
  time : Timestamp
  difficulty : Text
  spacingSeconds : Option Int
  sizeBytes : Nat
  transactionCount : Nat
  totalIssued : Option AmountView

structure NetworkHistoryView where
  asOfHeight : Option Nat
  asOfHash : Option Text
  targetSpacingSeconds : Nat
  points : List NetworkHistoryPoint

def NetworkHistoryPoint.fromRow (network : NetworkProfile) (row : NetworkHistoryRow) :
    NetworkHistoryPoint where
  height := row.height
  hash := row.hash
  time := row.blockTime
  difficulty := row.difficultyText
  spacingSeconds := row.spacingSeconds
  sizeBytes := row.sizeBytes
  transactionCount := row.transactionCount
  totalIssued := row.chainSupplyZat.map (amount network)

/-- `GET /network/history`, all of it read from one snapshot. -/
def networkHistory (network : NetworkProfile) (targetSpacingSeconds : Nat) (query : HistoryQuery)
    (db : Db) (now : Timestamp) : Result (ApiEnvelope NetworkHistoryView) := do
  let limit := historyLimit query.limit
  let before ← historyBefore query.before
  let chain ← chainStateRow db network
  let rows ← networkHistoryQuery db network.id before limit
  .ok (envelope network
    { asOfHeight := chain.indexedHeight
      asOfHash := chain.indexedHash
      targetSpacingSeconds
      points := rows.map (NetworkHistoryPoint.fromRow network) } none chain now)

end Query

section Window

variable {db : Db} {networkId : Text} {xs : List CanonicalRow} {ps : List HeightBlock}
  {before : Option Nat} {limit : Nat}

/-- Rows that are joined with their own blocks. -/
def Joined (db : Db) (ps : List HeightBlock) : Prop :=
  ∀ p ∈ ps, db.blocks.find? p.1.blockHash = some p.2

theorem joinBlocks_map (h : Joined db ps) : joinBlocks db (ps.map Prod.fst) = ps := by
  rw [joinBlocks, List.filterMap_map]
  have hrow : ∀ p ∈ ps, ((fun c : CanonicalRow => (db.blocks.find? c.blockHash).map fun b => (c, b)) ∘
      Prod.fst) p = some p := by
    intro p hp
    simp only [Function.comp_def, h p hp]
    rfl
  rw [List.filterMap_congr hrow, List.filterMap_some]

/-- A chain's rows, each with its block. -/
theorem Selected.joined (hx : Selected networkId db xs) :
    ∃ ps : List HeightBlock, ps.map Prod.fst = xs ∧ Joined db ps := by
  refine ⟨joinBlocks db xs, ?_, fun p hp => ?_⟩
  · rw [joinBlocks, List.map_filterMap]
    have hrow : ∀ c ∈ xs, ((db.blocks.find? c.blockHash).map fun b => (c, b)).map Prod.fst =
        some c := by
      intro c hc
      obtain ⟨b, hb, -⟩ := hx.stored c hc
      rw [hb]
      rfl
    rw [List.filterMap_congr hrow, List.filterMap_some]
  · obtain ⟨c, -, hc⟩ := List.mem_filterMap.mp hp
    obtain ⟨b, hb, rfl⟩ := Option.map_eq_some_iff.mp hc
    exact hb

theorem Selected.pairwise_height (hx : Selected networkId db xs) :
    xs.Pairwise fun r s => r.height < s.height := by
  refine List.pairwise_map.mp ?_
  rw [hx.map_height]
  exact List.pairwise_lt_range

/-- The last rows below a bound, in ascending order. -/
theorem Selected.recent_eq (hx : Selected networkId db xs) :
    recent CanonicalRow.height before limit (canonicalRows db networkId) =
      latest limit (xs.take (before.getD xs.length)) := by
  rw [Relational.recent_eq hx.pairwise_height hx.canonicalRows_perm,
    filter_below_range hx.map_height]

theorem Joined.sublist {qs : List HeightBlock} (h : Joined db ps) (hsub : qs.Sublist ps) :
    Joined db qs := fun p hp => h p (hsub.subset hp)

/-- What the window is evaluated over. -/
theorem orderBy_joinBlocks (hx : Selected networkId db xs) (hps : ps.map Prod.fst = xs)
    (hjoined : Joined db ps) :
    orderBy (fun x : HeightBlock => x.1.height)
        (joinBlocks db ((below CanonicalRow.height before (canonicalRows db networkId)).take limit)) =
      latest limit (ps.take (before.getD ps.length)) := by
  have hsub : (latest limit (ps.take (before.getD ps.length))).Sublist ps :=
    (List.drop_sublist _ _).trans (List.take_sublist _ _)
  have hselected : (latest limit (ps.take (before.getD ps.length))).map Prod.fst =
      recent CanonicalRow.height before limit (canonicalRows db networkId) := by
    rw [hx.recent_eq, map_latest, List.map_take, hps, ← hps, List.length_map]
  have hrows : joinBlocks db (recent CanonicalRow.height before limit (canonicalRows db networkId)) =
      latest limit (ps.take (before.getD ps.length)) := by
    rw [← hselected, joinBlocks_map (hjoined.sublist hsub)]
  rw [← hrows]
  refine orderBy_of_sorted ?_ ?_
  · rw [hrows]
    have hheights := hx.pairwise_height
    rw [← hps, List.pairwise_map] at hheights
    exact hheights.sublist hsub
  · exact ((orderBy_perm _ _).symm.filterMap _)

end Window

section Points

variable {lib : AuxPowCrate} {db : Db} {network : NetworkProfile} {xs : List CanonicalRow}
  {ps : List HeightBlock} {before : Option Nat} {limit : Nat} {b previous : BlockRow}

theorem epochSeconds_whole (secs : Int) : epochSeconds (secs * microsPerSecond) = secs := by
  have habs : (secs * microsPerSecond).natAbs = secs.natAbs * 1000000 := Int.natAbs_mul _ _
  have hrounded : (secs.natAbs * 1000000 + 500000) / 1000000 = secs.natAbs := by omega
  have hsign : (secs * microsPerSecond).sign = secs.sign := by
    rw [Int.sign_mul]
    exact Int.mul_one _
  rw [epochSeconds, habs, hrounded, hsign, Int.sign_mul_natAbs]

/-- Between blocks, the spacing is the exact difference of the times. -/
theorem spacingSeconds_eq_ok (hb : b.Made) (hprevious : previous.Made) :
    spacingSeconds b previous = .ok (epochSeconds (b.blockTime - previous.blockTime)) ∧
      epochSeconds (b.blockTime - previous.blockTime) * microsPerSecond =
        b.blockTime - previous.blockTime := by
  obtain ⟨secs, htime, hlow, hhigh⟩ := hb.blockTime
  obtain ⟨secs', htime', hlow', hhigh'⟩ := hprevious.blockTime
  have hdiff : b.blockTime - previous.blockTime = (secs - secs') * microsPerSecond := by
    rw [htime, htime', Int.sub_mul]
  have hfits : InBigint (b.blockTime - previous.blockTime) := by
    simp only [InBigint, i64Max, hdiff, microsPerSecond]
    omega
  refine ⟨?_, by rw [hdiff, epochSeconds_whole]⟩
  rw [spacingSeconds, asBigint_eq_ok hfits]
  rfl

theorem mapM_eq_ok {α β : Type} {f : α → Result β} {g : α → β} {rows : List α}
    (h : ∀ a ∈ rows, f a = .ok (g a)) : rows.mapM f = .ok (rows.map g) := by
  induction rows with
  | nil => rfl
  | cons a rest ih =>
    rw [List.mapM_cons, h a (by simp), ih fun a' ha' => h a' (by simp [ha'])]
    rfl

/-- The row of a block beside the one before it. -/
def spacedRow (x : Option HeightBlock × HeightBlock) : NetworkHistoryRow :=
  networkHistoryRow x.2 (x.1.map fun p => epochSeconds (x.2.2.blockTime - p.2.blockTime))

theorem map_snd_lag {ρ : Type} (rows : List ρ) : (lag rows).map Prod.snd = rows :=
  List.map_snd_zip (by simp)

theorem lag_subset {ρ : Type} {rows : List ρ} {x : Option ρ × ρ} (hx : x ∈ lag rows) :
    x.2 ∈ rows ∧ ∀ p ∈ x.1, p ∈ rows := by
  obtain ⟨i, hi⟩ := List.mem_iff_getElem?.mp hx
  rw [getElem?_lag, Option.map_eq_some_iff] at hi
  obtain ⟨r, hr, rfl⟩ := hi
  refine ⟨List.mem_of_getElem? hr, fun p hp => ?_⟩
  split_ifs at hp with hzero
  · cases hp
  · exact List.mem_of_getElem? hp

/-- Every page is cut out of the rows of the whole chain. -/
theorem networkHistoryQuery_eq_ok (hx : Selected network.id db xs) (hmade : BlocksMade db)
    (hps : ps.map Prod.fst = xs) (hjoined : Joined db ps) :
    networkHistoryQuery db network.id before limit =
      .ok (latest limit (((lag ps).map spacedRow).take (before.getD ps.length))) := by
  have hmem : ∀ p ∈ ps, p.2.Made := fun p hp => hmade _ (Table.mem_of_find? (hjoined p hp))
  have hsub : (latest (limit + 1) (ps.take (before.getD ps.length))).Sublist ps :=
    (List.drop_sublist _ _).trans (List.take_sublist _ _)
  have hrow : ∀ x ∈ lag (latest (limit + 1) (ps.take (before.getD ps.length))),
      windowRow x = .ok (spacedRow x) := by
    rintro ⟨previous, x⟩ hin
    obtain ⟨hxin, hpin⟩ := lag_subset hin
    cases previous with
    | none => rfl
    | some p =>
      have hspacing := (spacingSeconds_eq_ok (hmem x (hsub.subset hxin))
        (hmem p (hsub.subset (hpin p rfl)))).1
      simp only [windowRow, optional, hspacing]
      rfl
  have hsorted : ((lag (latest (limit + 1) (ps.take (before.getD ps.length)))).map
      spacedRow).Pairwise fun r s => r.height < s.height := by
    have hheights := hx.pairwise_height
    rw [← hps, List.pairwise_map] at hheights
    have hwindow := hheights.sublist hsub
    rw [← map_snd_lag (latest (limit + 1) (ps.take (before.getD ps.length))),
      List.pairwise_map] at hwindow
    exact List.pairwise_map.mpr hwindow
  have hall : (((lag (latest (limit + 1) (ps.take (before.getD ps.length)))).map
      spacedRow).filter fun r => (none : Option Nat).all fun h => r.height < h) =
      (lag (latest (limit + 1) (ps.take (before.getD ps.length)))).map spacedRow := by simp
  simp only [networkHistoryQuery, orderBy_joinBlocks hx hps hjoined, mapM_eq_ok hrow]
  change Except.ok (recent NetworkHistoryRow.height none limit _) = _
  rw [Relational.recent_eq hsorted (.refl _), hall, ← map_latest, latest_lag, lag_take, map_latest,
    List.map_take]

/-- The block the canonical chain has at a height. -/
def blockAt (db : Db) (networkId : Text) (height : Nat) : Option HeightBlock := do
  let c ← db.canonicalChain.find? (networkId, height)
  let b ← db.blocks.find? c.blockHash
  some (c, b)

/-- The point of a height: its block, and the time since the block before it. -/
structure IsPoint (db : Db) (network : NetworkProfile) (height : Nat) (p : NetworkHistoryPoint) :
    Prop where
  block : ∃ c b, blockAt db network.id height = some (c, b) ∧ p.height = height ∧
    p.hash = c.blockHash ∧ p.time = b.blockTime ∧ p.difficulty = b.difficultyText ∧
    p.sizeBytes = b.sizeBytes ∧ p.transactionCount = b.transactionCount ∧
    p.totalIssued = b.chainSupplyZat.map (amount network)
  first : height = 0 → p.spacingSeconds = none
  spacing : ∀ below, height = below + 1 → ∃ c b secs, blockAt db network.id below = some (c, b) ∧
    p.spacingSeconds = some secs ∧ secs * microsPerSecond = p.time - b.blockTime

theorem blockAt_eq (hx : Selected network.id db xs) (hps : ps.map Prod.fst = xs)
    (hjoined : Joined db ps) {height : Nat} {p : HeightBlock} (hp : ps[height]? = some p) :
    blockAt db network.id height = some p ∧ p.1.height = height := by
  have hat : xs[height]? = some p.1 := by
    rw [← hps, List.getElem?_map, hp]
    rfl
  have hc := (hx.represents height).trans hat
  have hb := hjoined p (List.mem_of_getElem? hp)
  refine ⟨?_, (hx.key_eq hat).2⟩
  rw [blockAt, hc]
  simp only [Option.bind_eq_bind, Option.bind_some, hb]

/-- The points of a chain. -/
def chainPoints (network : NetworkProfile) (ps : List HeightBlock) : List NetworkHistoryPoint :=
  (lag ps).map fun x => .fromRow network (spacedRow x)

theorem length_chainPoints : (chainPoints network ps).length = ps.length := by
  rw [chainPoints, List.length_map, length_lag]

/-- What a point takes from its selected row, the points take from the chain. -/
theorem map_chainPoints {α : Type} {f : NetworkHistoryPoint → α} {g : CanonicalRow → α}
    (h : ∀ x, f (.fromRow network (spacedRow x)) = g x.2.1) :
    (chainPoints network ps).map f = (ps.map Prod.fst).map g := by
  rw [chainPoints, List.map_map, List.map_map]
  conv => rhs; rw [← map_snd_lag ps, List.map_map]
  exact List.map_congr_left fun x _ => h x

theorem isPoint_of_chain (hx : Selected network.id db xs) (hmade : BlocksMade db)
    (hps : ps.map Prod.fst = xs) (hjoined : Joined db ps) {height : Nat}
    {point : NetworkHistoryPoint} (hpoint : (chainPoints network ps)[height]? = some point) :
    IsPoint db network height point := by
  rw [chainPoints, List.getElem?_map, getElem?_lag, Option.map_map,
    Option.map_eq_some_iff] at hpoint
  obtain ⟨p, hp, rfl⟩ := hpoint
  obtain ⟨hat, hheight⟩ := blockAt_eq hx hps hjoined hp
  have hmem (q : HeightBlock) (i : Nat) (hq : ps[i]? = some q) : q.2.Made :=
    hmade _ (Table.mem_of_find? (hjoined q (List.mem_of_getElem? hq)))
  refine ⟨⟨p.1, p.2, hat, hheight, rfl, rfl, rfl, rfl, rfl, rfl⟩, ?_, ?_⟩
  · rintro rfl
    rfl
  · rintro below rfl
    obtain ⟨hlt, -⟩ := List.getElem?_eq_some_iff.mp hp
    have hq : ps[below]? = some ps[below] := List.getElem?_eq_getElem (by omega)
    have hspacing := (spacingSeconds_eq_ok (hmem p _ hp) (hmem _ below hq)).2
    refine ⟨_, _, _, (blockAt_eq hx hps hjoined hq).1, ?_, hspacing⟩
    simp only [Function.comp_def, spacedRow, networkHistoryRow, NetworkHistoryPoint.fromRow,
      Nat.add_sub_cancel, hq, if_neg (Nat.succ_ne_zero below), Option.map_some]

end Points

section Pages

variable {lib : AuxPowCrate} {db : Db} {network : NetworkProfile}

/-- Where a page ends. -/
def pageEnd (length : Nat) (before : Option Nat) : Nat := min (before.getD length) length

/-- A page of the points of the chain, and the tip it was read at. -/
structure IsSlice (points : List NetworkHistoryPoint) (query : HistoryQuery)
    (view : NetworkHistoryView) : Prop where
  slice : view.points = (points.take (pageEnd points.length query.before)).drop
    (pageEnd points.length query.before - historyLimit query.limit)
  heights : view.points.map NetworkHistoryPoint.height =
    List.range' (pageEnd points.length query.before - historyLimit query.limit)
      (min (pageEnd points.length query.before) (historyLimit query.limit))
  tip : view.asOfHeight = points.getLast?.map NetworkHistoryPoint.height ∧
    view.asOfHash = points.getLast?.map NetworkHistoryPoint.hash
  last : query.before = none → view.points.getLast? = points.getLast?

/-- A client that asks for what is before the first point it was shown. -/
def historyRequest (network : NetworkProfile) (targetSpacingSeconds : Nat)
    (limits : ℕ → Option Nat) (db : Db) (now : Timestamp) (i : ℕ) (before : Option ℕ) :
    Result (List NetworkHistoryPoint × Option ℕ) := do
  let answer ← networkHistory network targetSpacingSeconds ⟨before, limits i⟩ db now
  .ok (answer.data.points, answer.data.points.head?.bind fun p =>
    if p.height = 0 then none else some p.height)

theorem historyLimit_pos (limit : Option Nat) : 0 < historyLimit limit := by
  rw [historyLimit]
  omega

theorem historyBefore_eq_ok {before : Option Nat} (h : ∀ b ∈ before, b ≤ i64Max) :
    historyBefore before = .ok before := by
  cases before with
  | none => rfl
  | some b =>
    simp only [historyBefore, optional, requestToI64, if_pos (h b rfl)]
    rfl

theorem latest_take_eq {ρ : Type} (rows : List ρ) (before : Option Nat) (limit : Nat) :
    latest limit (rows.take (before.getD rows.length)) =
      (rows.take (pageEnd rows.length before)).drop (pageEnd rows.length before - limit) := by
  have hsame : rows.take (before.getD rows.length) = rows.take (pageEnd rows.length before) := by
    rw [pageEnd, List.take_eq_take_iff]
    omega
  have hle : pageEnd rows.length before ≤ rows.length := Nat.min_le_right _ _
  rw [hsame, latest_take hle]

theorem height_of_point {points : List NetworkHistoryPoint} {height : Nat}
    {p : NetworkHistoryPoint}
    (hheights : points.map NetworkHistoryPoint.height = List.range points.length)
    (hp : points[height]? = some p) : p.height = height := by
  obtain ⟨hlt, -⟩ := List.getElem?_eq_some_iff.mp hp
  have hat := congrArg (fun heights => heights[height]?) hheights
  simp only [List.getElem?_map, hp, Option.map_some, List.getElem?_range hlt] at hat
  exact Option.some.inj hat

/-- The answer to one request, from the points of the chain. -/
theorem networkHistory_slice (hreach : Filled lib network.id db) {points : List NetworkHistoryPoint}
    (hpoints : ∀ before limit, (networkHistoryQuery db network.id before limit).map
      (List.map (NetworkHistoryPoint.fromRow network)) =
        .ok (latest limit (points.take (before.getD points.length))))
    (hheights : points.map NetworkHistoryPoint.height = List.range points.length)
    (htip : ∀ chain, db.chainState.find? network.id = some chain →
      chain.indexedHeight = points.getLast?.map NetworkHistoryPoint.height ∧
        chain.indexedHash = points.getLast?.map NetworkHistoryPoint.hash)
    (targetSpacingSeconds : Nat) (query : HistoryQuery) (now : Timestamp)
    (hbefore : ∀ b ∈ query.before, b ≤ i64Max) :
    ∃ answer, networkHistory network targetSpacingSeconds query db now = .ok answer ∧
      IsSlice points query answer.data := by
  obtain ⟨chain, hchain⟩ := Option.isSome_iff_exists.mp hreach.initialized
  have hstate : chainStateRow db network = .ok chain := by rw [chainStateRow, hchain]
  have hquery := hpoints query.before (historyLimit query.limit)
  cases hrows : networkHistoryQuery db network.id query.before (historyLimit query.limit) with
  | error error =>
    rw [hrows] at hquery
    cases hquery
  | ok rows =>
    rw [hrows] at hquery
    have hview := Except.ok.inj hquery
    refine ⟨_, by
      simp only [networkHistory, historyBefore_eq_ok hbefore, hstate, Result.bind_eq_ok]
      exact ⟨_, rfl, chain, rfl, rows, hrows, rfl⟩, ?_, ?_, htip chain hchain, ?_⟩
    · exact hview.trans (latest_take_eq _ _ _)
    · have hrange := congrArg (List.map NetworkHistoryPoint.height)
        (hview.trans (latest_take_eq _ _ _))
      refine hrange.trans ?_
      rw [List.map_drop, List.map_take, hheights, List.take_range, List.range_eq_range',
        List.drop_range']
      have hend : pageEnd points.length query.before ≤ points.length := Nat.min_le_right _ _
      congr 1 <;> omega
    · intro hnone
      refine (congrArg List.getLast? hview).trans ?_
      rw [hnone, Option.getD_none, List.take_length, getLast?_latest (historyLimit_pos _)]

/-- A page shows what is older than the page before it. -/
theorem historyRequest_older {points : List NetworkHistoryPoint} {targetSpacingSeconds : Nat}
    {limits : ℕ → Option Nat} {now : Timestamp} {i : ℕ} {before : Option ℕ}
    (hheights : points.map NetworkHistoryPoint.height = List.range points.length)
    (hslice : ∃ answer, networkHistory network targetSpacingSeconds ⟨before, limits i⟩ db now =
      .ok answer ∧ IsSlice points ⟨before, limits i⟩ answer.data)
    (hbefore : before.getD points.length ≤ points.length) :
    ∃ page next, historyRequest network targetSpacingSeconds limits db now i before =
      .ok (page, next) ∧ OlderPage points before page next := by
  obtain ⟨answer, hanswer, hpage⟩ := hslice
  have hend : pageEnd points.length before = before.getD points.length := Nat.min_eq_left hbefore
  have hslice := hpage.slice
  simp only [hend] at hslice
  refine ⟨_, _, by
    simp only [historyRequest, hanswer, Result.bind_eq_ok]
    exact ⟨_, rfl, rfl⟩, historyLimit (limits i), historyLimit_pos _, ?_, ?_⟩
  · rw [hslice, latest_take hbefore]
  · rw [hslice, List.head?_drop, List.getElem?_take]
    by_cases hfirst : before.getD points.length ≤ historyLimit (limits i)
    · rw [if_pos hfirst, Nat.sub_eq_zero_of_le hfirst]
      split_ifs with hpos
      · cases hp : points[0]? with
        | none => rfl
        | some p => exact if_pos (height_of_point hheights hp)
      · rfl
    · have hpos := historyLimit_pos (limits i)
      have hp : points[before.getD points.length - historyLimit (limits i)]? =
          some points[before.getD points.length - historyLimit (limits i)] :=
        List.getElem?_eq_getElem (by omega)
      have hheight := height_of_point hheights hp
      rw [if_neg hfirst, if_pos (by omega), hp, Option.bind_some, hheight, if_neg (by omega)]

/-- Every page is a slice of one list of points, and the pages together are the whole list. -/
theorem network_history_sliced (hreach : Filled lib network.id db) (targetSpacingSeconds : Nat)
    (now : Timestamp) :
    ∃ points : List NetworkHistoryPoint, points.length = (canonicalRows db network.id).length ∧
      (∀ (height : Nat) (p : NetworkHistoryPoint), points[height]? = some p →
        IsPoint db network height p) ∧
      (∀ query : HistoryQuery, (∀ b ∈ query.before, b ≤ i64Max) → ∃ answer,
        networkHistory network targetSpacingSeconds query db now = .ok answer ∧
          IsSlice points query answer.data) ∧
      ∀ limits : ℕ → Option Nat, ∃ pages,
        follow (historyRequest network targetSpacingSeconds limits db now) (points.length + 1) 0
          none = .ok (some pages) ∧ pages.reverse.flatten = points := by
  obtain ⟨xs, hx, hrecorded⟩ := hreach.reachable.soundChain
  obtain ⟨ps, hps, hjoined⟩ := hx.joined
  have hmade := hreach.blocksMade
  have hlen : ps.length = xs.length := by rw [← hps, List.length_map]
  have hheights : (chainPoints network ps).map NetworkHistoryPoint.height =
      List.range (chainPoints network ps).length := by
    rw [map_chainPoints (g := CanonicalRow.height) fun _ => rfl, hps, hx.map_height,
      length_chainPoints, hlen]
  have hslice (query : HistoryQuery) (hbefore : ∀ b ∈ query.before, b ≤ i64Max) :
      ∃ answer, networkHistory network targetSpacingSeconds query db now = .ok answer ∧
        IsSlice (chainPoints network ps) query answer.data := by
    refine networkHistory_slice hreach (fun before limit => ?_) hheights ?_ targetSpacingSeconds
      query now hbefore
    · rw [networkHistoryQuery_eq_ok hx hmade hps hjoined, length_chainPoints]
      refine congrArg Except.ok ?_
      rw [map_latest, List.map_take, List.map_map]
      rfl
    · intro chain hchain
      obtain ⟨chain', hchain', hheight, hhash⟩ := hrecorded
      obtain rfl := Option.some.inj (hchain.symm.trans hchain')
      rw [hheight, hhash, ← hps, ← List.getLast?_map, ← List.getLast?_map, ← List.getLast?_map,
        ← List.getLast?_map]
      exact ⟨congrArg List.getLast? (map_chainPoints fun _ => rfl).symm,
        congrArg List.getLast? (map_chainPoints fun _ => rfl).symm⟩
  refine ⟨chainPoints network ps, ?_, fun height p hp => isPoint_of_chain hx hmade hps hjoined hp,
    hslice, fun limits => ?_⟩
  · rw [length_chainPoints, hlen, hx.canonicalRows_perm.length_eq]
  · have hrequest (i : ℕ) (before : Option ℕ)
        (hbefore : ∀ b ∈ before, b < (chainPoints network ps).length) : ∃ page next,
          historyRequest network targetSpacingSeconds limits db now i before = .ok (page, next) ∧
            OlderPage (chainPoints network ps) before page next := by
      refine historyRequest_older hheights (hslice _ fun b hb => ?_) (bound_le hbefore)
      have hlt := hbefore b hb
      rw [length_chainPoints, hlen] at hlt
      have hat : xs[b]? = some xs[b] := List.getElem?_eq_getElem hlt
      have hbound := hx.bounded xs[b] (List.getElem_mem hlt)
      rwa [(hx.key_eq hat).2] at hbound
    obtain ⟨pages, hpages, hflat⟩ := follow_older hrequest (Nat.lt_succ_self _)
      fun b hb => absurd hb (Option.not_mem_none b)
    exact ⟨pages, hpages, hflat.trans (List.take_length)⟩

end Pages

section Sample

def sampleHistoryDb : Db :=
  (sampleIndexer 10).round (steadyNode ['1', '2']) (initialDb sampleNetwork)

/-- Three blocks, the last two of them on a page. -/
theorem network_history_sliced_three : ∃ (points : List NetworkHistoryPoint) (answer : _),
    points.length = 3 ∧ networkHistory sampleProfile 75 ⟨none, some 2⟩ sampleHistoryDb 0 =
      .ok answer ∧ IsSlice points ⟨none, some 2⟩ answer.data ∧
      answer.data.points.map NetworkHistoryPoint.height = [1, 2] := by
  have hreach : Filled sampleCrate sampleProfile.id sampleHistoryDb :=
    (Filled.initial sampleNetwork).round rfl
  obtain ⟨points, hlength, -, hslice, -⟩ := network_history_sliced hreach 75 0
  have hthree : (canonicalRows sampleHistoryDb sampleProfile.id).length = 3 := by decide +kernel
  obtain ⟨answer, hanswer, hpage⟩ := hslice ⟨none, some 2⟩ fun b hb => absurd hb (by simp)
  refine ⟨points, answer, hlength.trans hthree, hanswer, hpage, ?_⟩
  rw [hpage.heights, hlength, hthree]
  decide

end Sample

end WcashExplorer
