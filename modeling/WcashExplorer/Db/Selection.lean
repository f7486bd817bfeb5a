import WcashExplorer.Chain.Linked
import WcashExplorer.Db.Database
import WcashExplorer.Db.Inserts

/-! The selector of one network as a chain of rows, and what selecting and detaching do to it. -/
namespace WcashExplorer

open Relational

/-- The predecessor a stored block names. -/
def storedParent (db : Db) (hash : Text) : Option Text :=
  (db.blocks.find? hash).bind fun b => b.previousBlockHash

/-- The stored block of a selected row, under the row's own height and network. -/
def BlockStored (db : Db) (r : CanonicalRow) : Prop :=
  ∃ b, db.blocks.find? r.blockHash = some b ∧ b.height = r.height ∧ b.networkId = r.networkId

/-- The network's selector is the gap-free, hash-linked chain `xs`, height by height. -/
structure Selected (networkId : Text) (db : Db) (xs : List CanonicalRow) : Prop where
  represents : ∀ h, db.canonicalChain.find? (networkId, h) = xs[h]?
  linked : Chain.Linked (storedParent db) (xs.map CanonicalRow.blockHash)
  nodup : (xs.map CanonicalRow.blockHash).Nodup
  stored : ∀ r ∈ xs, BlockStored db r
  bounded : ∀ r ∈ xs, r.height ≤ i64Max

/-- The tip recorded for the network is the last row of `xs`, in height and hash. -/
def TipRecorded (networkId : Text) (db : Db) (xs : List CanonicalRow) : Prop :=
  ∃ c, db.chainState.find? networkId = some c ∧
    c.indexedHeight = xs.getLast?.map CanonicalRow.height ∧
    c.indexedHash = xs.getLast?.map CanonicalRow.blockHash

variable {lib : AuxPowCrate} {networkId : Text} {indexed : IndexedBlock} {db db' : Db}
  {xs ys : List CanonicalRow} {r s : CanonicalRow} {h : Nat}

theorem storedParent_of_inserts (hi : Inserts db db') (hs : BlockStored db r) :
    storedParent db' r.blockHash = storedParent db r.blockHash := by
  obtain ⟨b, hb, -⟩ := hs
  simp [storedParent, hb, Table.find?_of_prefix hi.blocks hb]

theorem BlockStored.of_inserts (hi : Inserts db db') (hs : BlockStored db r) :
    BlockStored db' r := by
  obtain ⟨b, hb, hrest⟩ := hs
  exact ⟨b, Table.find?_of_prefix hi.blocks hb, hrest⟩

theorem mem_canonicalRows :
    r ∈ canonicalRows db networkId ↔ r ∈ db.canonicalChain.rows ∧ r.networkId = networkId := by
  simp [canonicalRows]

theorem canonicalRows_nodup : ((canonicalRows db networkId).map CanonicalRow.height).Nodup := by
  have hrows : (canonicalRows db networkId).Nodup :=
    (List.Nodup.of_map _ db.canonicalChain.nodup).filter _
  refine List.Nodup.map_on ?_ hrows
  intro r hr s hs hheight
  obtain ⟨hr, hn⟩ := mem_canonicalRows.mp hr
  obtain ⟨hs, hn'⟩ := mem_canonicalRows.mp hs
  refine List.inj_on_of_nodup_map db.canonicalChain.nodup hr hs ?_
  rw [CanonicalRow.key, CanonicalRow.key, hn, hn', hheight]

namespace Selected

theorem key_eq (hx : Selected networkId db xs) (hr : xs[h]? = some r) :
    r.networkId = networkId ∧ r.height = h := by
  have hk : CanonicalRow.key r = (networkId, h) :=
    Table.key_of_find? ((hx.represents h).trans hr)
  exact ⟨congrArg Prod.fst hk, congrArg Prod.snd hk⟩

/-- The last row's height is one below the chain's length. -/
theorem last_height (hx : Selected networkId db xs) (hr : xs.getLast? = some r) :
    r.height + 1 = xs.length := by
  have hne : xs ≠ [] := by
    rintro rfl
    cases hr
  have hpos := List.length_pos_of_ne_nil hne
  rw [List.getLast?_eq_getElem?] at hr
  rw [(hx.key_eq hr).2]
  omega

theorem mem_canonicalRows (hx : Selected networkId db xs) :
    r ∈ canonicalRows db networkId ↔ r ∈ xs := by
  constructor
  · intro hr
    obtain ⟨hmem, hn⟩ : r ∈ db.canonicalChain.rows ∧ r.networkId = networkId := by
      simpa [canonicalRows] using hr
    have hf : db.canonicalChain.find? (networkId, r.height) = some r := by
      rw [← hn]
      exact Table.find?_of_mem hmem
    exact List.mem_of_getElem? ((hx.represents r.height).symm.trans hf)
  · intro hr
    obtain ⟨h, hh⟩ := List.mem_iff_getElem?.mp hr
    have hmem := Table.mem_of_find? ((hx.represents h).trans hh)
    simpa [canonicalRows] using And.intro hmem (hx.key_eq hh).1

theorem canonicalRows_perm (hx : Selected networkId db xs) : (canonicalRows db networkId).Perm xs :=
  (List.perm_ext_iff_of_nodup (List.Nodup.of_map _ canonicalRows_nodup)
    (List.Nodup.of_map _ hx.nodup)).mpr fun _ => hx.mem_canonicalRows

/-- Each height below the length once. -/
theorem map_height (hx : Selected networkId db xs) :
    xs.map CanonicalRow.height = List.range xs.length := by
  apply List.ext_getElem
  · simp
  · intro i hi hi'
    rw [List.length_map] at hi
    have hat : xs[i]? = some xs[i] := List.getElem?_eq_getElem hi
    simpa using (hx.key_eq hat).2

/-- The tip query returns the chain's last row. -/
theorem tipRow_eq (hx : Selected networkId db xs) : tipRow db networkId = xs.getLast? := by
  cases ht : tipRow db networkId with
  | none =>
    have hnil : canonicalRows db networkId = [] := List.argmax_eq_none.mp ht
    have hxs : xs = [] := by
      refine List.eq_nil_iff_forall_not_mem.mpr ?_
      intro r hr
      simpa [hnil] using hx.mem_canonicalRows.mpr hr
    simp [hxs]
  | some r =>
    have hr : r ∈ xs := hx.mem_canonicalRows.mp (List.argmax_mem ht)
    obtain ⟨h, hh⟩ := List.mem_iff_getElem?.mp hr
    obtain ⟨hlt, -⟩ := List.getElem?_eq_some_iff.mp hh
    have hlast : xs[xs.length - 1]? = some xs[xs.length - 1] :=
      List.getElem?_eq_getElem (by omega)
    have hle := List.le_of_mem_argmax
      (hx.mem_canonicalRows.mpr (List.mem_of_getElem? hlast)) ht
    rw [(hx.key_eq hlast).2, (hx.key_eq hh).2] at hle
    obtain rfl : h = xs.length - 1 := by omega
    rw [List.getLast?_eq_getElem?, hh]

/-- The network's rows fill the heights below the chain's length and no others. -/
theorem occupied_iff (hx : Selected networkId db xs) :
    (∃ r ∈ db.canonicalChain.rows, r.networkId = networkId ∧ r.height = h) ↔ h < xs.length := by
  constructor
  · rintro ⟨r, hr, hn, rfl⟩
    have hf : db.canonicalChain.find? (networkId, r.height) = some r := by
      rw [← hn]
      exact Table.find?_of_mem hr
    exact (List.getElem?_eq_some_iff.mp ((hx.represents _).symm.trans hf)).1
  · intro hlt
    have hh : xs[h]? = some xs[h] := List.getElem?_eq_getElem hlt
    exact ⟨xs[h], Table.mem_of_find? ((hx.represents h).trans hh), hx.key_eq hh⟩

theorem unique (hx : Selected networkId db xs) (hy : Selected networkId db ys) : xs = ys := by
  refine List.ext_getElem? ?_
  intro h
  rw [← hx.represents h, hy.represents h]

theorem of_inserts (hx : Selected networkId db xs) (hi : Inserts db db') :
    Selected networkId db' xs where
  represents := by
    intro h
    rw [hi.canonicalChain]
    exact hx.represents h
  linked := by
    refine hx.linked.congr ?_
    intro a ha
    obtain ⟨r, hr, rfl⟩ := List.mem_map.mp ha
    exact (storedParent_of_inserts hi (hx.stored r hr)).symm
  nodup := hx.nodup
  stored := fun r hr => (hx.stored r hr).of_inserts hi
  bounded := hx.bounded

/-- Moving only `chain_state` and the event log leaves the selection as it is. -/
theorem of_eq (hx : Selected networkId db xs) (hc : db'.canonicalChain = db.canonicalChain)
    (hb : db'.blocks = db.blocks) : Selected networkId db' xs where
  represents := by
    intro h
    rw [hc]
    exact hx.represents h
  linked := by
    refine hx.linked.congr ?_
    intro a _
    simp [storedParent, hb]
  nodup := hx.nodup
  stored := by
    intro r hr
    obtain ⟨b, hrest⟩ := hx.stored r hr
    exact ⟨b, hb ▸ hrest⟩
  bounded := hx.bounded

/-- A row whose block is stored extends the chain by one height. -/
theorem concat (hx : Selected networkId db xs) (hn : r.networkId = networkId)
    (hh : r.height = xs.length)
    (hnew : ∀ s ∈ db.canonicalChain.rows, s.networkId = networkId → s.blockHash ≠ r.blockHash)
    (hp : ∀ s ∈ xs.getLast?, storedParent db r.blockHash = some s.blockHash)
    (hs : BlockStored db r) (hle : r.height ≤ i64Max) :
    Selected networkId { db with canonicalChain := db.canonicalChain.insertNew r } (xs ++ [r]) where
  represents := by
    intro h
    have hk : CanonicalRow.key r = (networkId, xs.length) := by simp [CanonicalRow.key, hn, hh]
    rw [Table.find?_insertNew, hx.represents h, hk, List.getElem?_append]
    by_cases hlt : h < xs.length
    · simp [hlt]
    · by_cases he : xs.length = h
      · subst he
        simp
      · have hge : ¬ h - xs.length < 1 := by omega
        simp [hlt, he]
        omega
  linked := by
    rw [List.map_append]
    refine hx.linked.concat ?_
    intro a ha
    rw [List.getLast?_map] at ha
    obtain ⟨s, hs', rfl⟩ := Option.map_eq_some_iff.mp ha
    exact hp s hs'
  nodup := by
    rw [List.map_append, List.nodup_append]
    refine ⟨hx.nodup, by simp, ?_⟩
    intro a ha b hb
    obtain ⟨s, hs', rfl⟩ := List.mem_map.mp ha
    obtain rfl : b = r.blockHash := by simpa using hb
    have hmem : s ∈ canonicalRows db networkId := hx.mem_canonicalRows.mpr hs'
    simp only [canonicalRows, List.mem_filter, decide_eq_true_eq] at hmem
    exact hnew s hmem.1 hmem.2
  stored := by
    intro s hs'
    rcases List.mem_append.mp hs' with hs' | hs'
    · exact hx.stored s hs'
    · obtain rfl : s = r := by simpa using hs'
      exact hs
  bounded := by
    intro s hs'
    rcases List.mem_append.mp hs' with hs' | hs'
    · exact hx.bounded s hs'
    · obtain rfl : s = r := by simpa using hs'
      exact hle

/-- Detaching everything above a height keeps the chain up to it. -/
theorem detach (hx : Selected networkId db xs) (a : Nat) :
    Selected networkId (detach networkId (some a) db) (xs.take (a + 1)) where
  represents := by
    intro h
    rw [WcashExplorer.detach, Table.find?_deleteWhere, hx.represents h, List.getElem?_take]
    cases hh : xs[h]? with
    | none => simp
    | some r =>
      obtain ⟨hn, rfl⟩ := hx.key_eq hh
      by_cases hlt : a < r.height
      · have hnot : ¬ r.height < a + 1 := by omega
        simp [hn, hlt, hnot]
      · have hle : r.height < a + 1 := by omega
        simp [hn, hlt, hle]
  linked := by
    rw [List.map_take]
    exact hx.linked.take _
  nodup := by
    rw [List.map_take]
    exact (List.take_sublist _ _).nodup hx.nodup
  stored := fun r hr => hx.stored r (List.mem_of_mem_take hr)
  bounded := fun r hr => hx.bounded r (List.mem_of_mem_take hr)

end Selected

end WcashExplorer
