import WcashExplorer.Api.Probe
import WcashExplorer.Api.RichListView
import WcashExplorer.Db.LastPass
import WcashExplorer.Indexer.Vouched

/-! The strict readiness probe, and the parents' answers it rests on. -/
namespace WcashExplorer

open Effects Relational

variable {lib : AuxPowCrate} {networkId : Text} {k : Text × Text} {start db db' : Db}
  {log : List DbCall} {now : Timestamp}

section Passes

end Passes

section Calls

/-- A run of a program is the sequence of the methods that succeed in it. -/
theorem Calls.of_run {α : Type} {p p' : Action α} {tr : Trace}
    (h : Run (exec lib) (p, db) tr (p', db')) :
    Calls lib (fun _ t => t ∈ committed tr) db (committed tr) db' := by
  generalize hc : (p, db) = c at h
  generalize hd : (p', db') = d at h
  induction h generalizing p db with
  | refl c =>
    cases hc
    cases hd
    exact .nil _
  | @step c d e ev tr hs hr ih =>
    subst hc
    obtain ⟨q, u⟩ := d
    have hrest := ih rfl hd
    cases hs with
    | ask a => exact hrest
    | @commit t k _ _ w r hx =>
      have hfirst : Calls lib (fun _ t' => t' ∈ t :: committed tr) _ [t] _ :=
        Calls.accepted (.nil _) List.mem_cons_self hx
      exact hfirst.trans (hrest.mono fun _ t' ht' => List.mem_cons_of_mem _ ht')
    | rollback hx =>
      have hfirst := Calls.rejected (P := fun _ t => t ∈ committed tr) (.nil _) hx
      exact hfirst.trans hrest

/-- Each method of a sequence had the property where it was called. -/
theorem Calls.holds {P : Db → DbCall → Prop} (h : Calls lib P db log db') :
    ∀ t ∈ log, ∃ d, P d t := by
  induction h with
  | nil => simp
  | accepted _ hp _ ih =>
    intro t ht
    rcases List.mem_append.mp ht with ht | ht
    · exact ih t ht
    · obtain rfl := List.mem_singleton.mp ht
      exact ⟨_, hp⟩
  | rejected _ _ ih => exact ih

/-- A round of a history in which a method succeeded. -/
structure RoundOf (lib : AuxPowCrate) (networkId : Text) (P : PassProperty lib)
    (indexer : Indexer lib) (tr : Trace) (t : DbCall) : Prop where
  network : indexer.network.id = networkId
  run : ∃ db rest db', Run (exec lib) (indexer.tick, db) tr (rest, db') ∧ P indexer db tr
  succeeded : t ∈ committed tr

theorem History.rounds {P : PassProperty lib} (h : History lib networkId P db db') :
    ∃ log, Calls lib (fun _ t => ∃ indexer tr, RoundOf lib networkId P indexer tr t) db log db' := by
  induction h with
  | refl => exact ⟨[], .nil _⟩
  | @pass db₁ db₂ indexer tr rest _ network run holds ih =>
    obtain ⟨log, hlog⟩ := ih
    refine ⟨_, hlog.trans ((Calls.of_run run).mono fun _ t ht => ?_)⟩
    exact ⟨indexer, tr, network, ⟨_, _, _, run, holds⟩, ht⟩

/-- What a round stores, it has observed in the answers of the round itself. -/
theorem RoundOf.vouched {P : PassProperty lib} {indexer : Indexer lib} {tr : Trace} {t : DbCall}
    (h : RoundOf lib networkId P indexer tr t) :
    ∀ b ∈ t.blocks, Vouched lib indexer.auxpow (answersIn tr) b := by
  obtain ⟨d, rest, d', run, -⟩ := h.run
  obtain ⟨w, r, hdone⟩ := mem_committed h.succeeded
  exact tick_vouched run hdone

end Calls

section Stored

theorem ObserveAll.sources {answers : Answers} {hash : Text} {header : Bytes} {parent : Nat}
    {sources : List Text} {observations : List ParentObservation}
    (h : ObserveAll lib answers hash header parent sources observations) :
    observations.map ParentObservation.source = sources := by
  refine List.ext_getElem? fun i => ?_
  rw [List.getElem?_map]
  cases ho : observations[i]? with
  | none =>
    have hlen := List.getElem?_eq_none_iff.mp ho
    rw [h.length] at hlen
    exact (List.getElem?_eq_none_iff.mpr hlen).symm
  | some o =>
    obtain ⟨hi, -⟩ := List.getElem?_eq_some_iff.mp ho
    rw [h.length] at hi
    have hs : sources[i]? = some sources[i] := List.getElem?_eq_getElem hi
    rw [Option.map_some, (h.each i o _ ho hs).source, hs]

end Stored

section Probe

end Probe

end WcashExplorer
