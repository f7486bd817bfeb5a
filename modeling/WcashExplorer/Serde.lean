import Mathlib.Data.List.Forall2
import Mathlib.Data.List.GetD
import Mathlib.Data.List.Nodup
import WcashExplorer.Json

/-! Decoding of JSON objects into typed records, and what a record encodes of the object it came
from. -/
namespace WcashExplorer

namespace Json

/-- A stored value holds an original one: every member of an original object is found with a value
that holds the original one, arrays item by item, and anything else is equal. -/
inductive Within : Json → Json → Prop
  | refl (j : Json) : Within j j
  | array {items items' : List Json} : items.length = items'.length →
      (∀ i, Within (items.getD i null) (items'.getD i null)) → Within (array items) (array items')
  | object {members members' : List (Text × Json)} :
      (∀ key value, get? members key = some value → (get? members' key).isSome) →
      (∀ key value, get? members key = some value → Within value ((get? members' key).getD null)) →
      Within (object members) (object members')

section Decode

variable {α : Type}

def decodeString : Json → Option Text
  | string s => some s
  | _ => none

/-- An unsigned integer up to a largest one. -/
def decodeUnsigned (largest : Nat) : Json → Option Nat
  | number (.posInt n) => if n ≤ largest then some n else none
  | _ => none

/-- `i64`; a number kept as negative is below zero. -/
def decodeI64 : Json → Option Int
  | number (.posInt n) => if n ≤ i64Max then some n else none
  | number (.negInt n) => if -(2 : Int) ^ 63 ≤ n ∧ n < 0 then some n else none
  | _ => none

/-- `Option<T>`: null is no value. -/
def decodeOption (decode : Json → Option α) : Json → Option (Option α)
  | null => some none
  | j => (decode j).map some

/-- `Vec<T>`. -/
def decodeArray (decode : Json → Option α) : Json → Option (List α)
  | array items => items.mapM decode
  | _ => none

/-- A member that has to be there. -/
def required (decode : Json → Option α) (members : List (Text × Json)) (key : Text) : Option α :=
  (get? members key).bind decode

/-- `#[serde(default)]`: a member with a value for its absence. -/
def defaulted (decode : Json → Option α) (absent : α) (members : List (Text × Json)) (key : Text) :
    Option α :=
  match get? members key with
  | none => some absent
  | some value => decode value

/-- `#[serde(flatten)]` of a map: the members with none of the names, in a map of their own. -/
def flattened (names : List Text) (members : List (Text × Json)) : List (Text × Json) :=
  (members.filter fun m => !names.contains m.1).foldr (fun m acc => insert m.1 m.2 acc) []

end Decode

section Members

variable {members members' : List (Text × Json)} {key key' : Text} {value : Json}

theorem get?_cons (m : Text × Json) (members : List (Text × Json)) (key : Text) :
    get? (m :: members) key = if m.1 = key then some m.2 else get? members key := by
  unfold get?
  rw [List.find?_cons]
  by_cases h : m.1 = key <;> simp [h]

theorem get?_insert (members : List (Text × Json)) (key key' : Text) (value : Json) :
    get? (insert key value members) key' =
      if key = key' then some value else get? members key' := by
  induction members with
  | nil => exact get?_cons _ _ _
  | cons m rest ih =>
    obtain ⟨k, v⟩ := m
    unfold insert
    by_cases hsame : k = key
    · rw [if_pos hsame, get?_cons, get?_cons, hsame]
      by_cases hkey : key = key'
      · rw [if_pos hkey, if_pos hkey]
      · rw [if_neg hkey, if_neg hkey, if_neg hkey]
    · rw [if_neg hsame]
      by_cases hbefore : keyLt key k
      · rw [if_pos hbefore, get?_cons]
      · rw [if_neg hbefore, get?_cons, get?_cons, ih]
        by_cases hk : k = key'
        · rw [if_pos hk, if_pos hk, if_neg (fun heq => hsame (hk.trans heq.symm))]
        · rw [if_neg hk, if_neg hk]

theorem get?_eq_none : get? members key = none ↔ ∀ m ∈ members, m.1 ≠ key := by
  simp [get?]

theorem isSome_get? (h : (key, value) ∈ members) : (get? members key).isSome := by
  rw [Option.isSome_iff_ne_none, ne_eq, get?_eq_none]
  intro hnone
  exact hnone _ h rfl

/-- Members as a map: the later of one name count. -/
theorem get?_foldl_insert (members acc : List (Text × Json)) (key : Text)
    (hnames : (members.map Prod.fst).Nodup) :
    get? (members.foldl (fun acc m => insert m.1 m.2 acc) acc) key =
      (get? members key).or (get? acc key) := by
  induction members generalizing acc with
  | nil => rfl
  | cons m rest ih =>
    rw [List.map_cons, List.nodup_cons] at hnames
    rw [List.foldl_cons, ih _ hnames.2, get?_insert, get?_cons]
    by_cases hkey : m.1 = key
    · have hnone : get? rest key = none := by
        rw [get?_eq_none]
        intro other hother heq
        exact hnames.1 (List.mem_map.mpr ⟨other, hother, heq.trans hkey.symm⟩)
      rw [if_pos hkey, if_pos hkey, hnone, Option.none_or, Option.some_or]
    · rw [if_neg hkey, if_neg hkey]

theorem get?_foldr_insert (members : List (Text × Json)) (key : Text) :
    get? (members.foldr (fun m acc => insert m.1 m.2 acc) []) key = get? members key := by
  induction members with
  | nil => rfl
  | cons m rest ih => rw [List.foldr_cons, get?_insert, ih, get?_cons]

theorem get?_append (members members' : List (Text × Json)) (key : Text) :
    get? (members ++ members') key = (get? members key).or (get? members' key) := by
  unfold get?
  rw [List.find?_append]
  cases members.find? fun m => m.1 = key <;> simp

theorem get?_filter (p : Text → Bool) (members : List (Text × Json)) (key : Text) :
    get? (members.filter fun m => p m.1) key = if p key then get? members key else none := by
  induction members with
  | nil => simp [get?]
  | cons m rest ih =>
    have hcons : (m :: rest).filter (fun m => p m.1) =
        if p m.1 then m :: rest.filter (fun m => p m.1) else rest.filter fun m => p m.1 :=
      List.filter_cons
    rw [get?_cons, hcons]
    by_cases hm : p m.1 <;> by_cases hkey : m.1 = key
    · rw [if_pos hm, get?_cons, if_pos hkey, if_pos hkey, ← hkey, if_pos hm]
    · rw [if_pos hm, get?_cons, if_neg hkey, if_neg hkey, ih]
    · rw [if_neg hm, ih, ← hkey, if_neg hm, if_neg hm]
    · rw [if_neg hm, ih, if_neg hkey]

end Members

section Order

theorem keyLt_irrefl (k : Text) : keyLt k k = false := by
  induction k with
  | nil => rfl
  | cons c k ih => simp [keyLt, ih]

theorem keyLt_trans {a b c : Text} (h : keyLt a b) (h' : keyLt b c) : keyLt a c := by
  induction a generalizing b c with
  | nil =>
    cases b with
    | nil => cases h
    | cons y b =>
      cases c with
      | nil => cases h'
      | cons z c => rfl
  | cons x a ih =>
    cases b with
    | nil => cases h
    | cons y b =>
      cases c with
      | nil => cases h'
      | cons z c =>
        simp only [keyLt, Bool.or_eq_true, Bool.and_eq_true, decide_eq_true_eq] at h h' ⊢
        rcases h with hlt | ⟨rfl, hrest⟩
        · rcases h' with hlt' | ⟨rfl, -⟩
          · exact Or.inl (by omega)
          · exact Or.inl hlt
        · rcases h' with hlt' | ⟨rfl, hrest'⟩
          · exact Or.inl hlt'
          · exact Or.inr ⟨rfl, ih hrest hrest'⟩

theorem keyLt_total {a b : Text} (hne : a ≠ b) (h : keyLt a b = false) : keyLt b a := by
  induction a generalizing b with
  | nil =>
    cases b with
    | nil => exact absurd rfl hne
    | cons y b => cases h
  | cons x a ih =>
    cases b with
    | nil => rfl
    | cons y b =>
      simp only [keyLt, Bool.or_eq_false_iff, decide_eq_false_iff_not, Bool.and_eq_false_iff] at h
      simp only [keyLt, Bool.or_eq_true, Bool.and_eq_true, decide_eq_true_eq]
      rcases Nat.lt_trichotomy x.toNat y.toNat with hlt | heq | hlt
      · exact absurd hlt h.1
      · obtain rfl : x = y := Char.toNat_inj.mp heq
        refine Or.inr ⟨rfl, ih (fun hab => hne (by rw [hab])) ?_⟩
        exact h.2.resolve_left (fun hnot => hnot rfl)
      · exact Or.inl hlt

variable {members : List (Text × Json)}

theorem mem_insert {key : Text} {value : Json} {m : Text × Json}
    (h : m ∈ insert key value members) : m = (key, value) ∨ m ∈ members := by
  induction members with
  | nil => simpa [insert] using h
  | cons head rest ih =>
    obtain ⟨k, v⟩ := head
    unfold insert at h
    split_ifs at h
    · rcases List.mem_cons.mp h with hm | hm
      · exact Or.inl hm
      · exact Or.inr (List.mem_cons_of_mem _ hm)
    · exact List.mem_cons.mp h
    · rcases List.mem_cons.mp h with hm | hm
      · exact Or.inr (hm ▸ List.mem_cons_self)
      · exact (ih hm).imp id (List.mem_cons_of_mem _)

/-- Inserting keeps a map in the order of its names. -/
theorem insert_ordered {key : Text} {value : Json}
    (h : members.Pairwise fun a b => keyLt a.1 b.1) :
    (insert key value members).Pairwise fun a b => keyLt a.1 b.1 := by
  induction members with
  | nil => exact List.pairwise_singleton _ _
  | cons head rest ih =>
    obtain ⟨k, v⟩ := head
    obtain ⟨hhead, hrest⟩ := List.pairwise_cons.mp h
    unfold insert
    split_ifs with hsame hbefore
    · subst hsame
      exact List.pairwise_cons.mpr ⟨hhead, hrest⟩
    · refine List.pairwise_cons.mpr ⟨fun m hm => ?_, h⟩
      rcases List.mem_cons.mp hm with rfl | hm
      · exact hbefore
      · exact keyLt_trans hbefore (hhead m hm)
    · refine List.pairwise_cons.mpr ⟨fun m hm => ?_, ih hrest⟩
      rcases mem_insert hm with rfl | hm
      · exact keyLt_total (fun heq => hsame heq.symm) (by simpa using hbefore)
      · exact hhead m hm

theorem ordered_nodup (h : members.Pairwise fun a b => keyLt a.1 b.1) :
    (members.map Prod.fst).Nodup := by
  rw [List.Nodup, List.pairwise_map]
  refine h.imp fun hlt heq => ?_
  rw [heq, keyLt_irrefl] at hlt
  cases hlt

theorem foldr_insert_ordered (members : List (Text × Json)) :
    (members.foldr (fun m acc => insert m.1 m.2 acc) []).Pairwise fun a b => keyLt a.1 b.1 := by
  induction members with
  | nil => exact List.Pairwise.nil
  | cons m rest ih => exact insert_ordered ih

end Order

section Held

variable {members known extra : List (Text × Json)}

theorem within_object {j : Json} (h : Within (object members) j) :
    ∃ members', j = object members' ∧ ∀ key value, get? members key = some value →
      ∃ value', get? members' key = some value' ∧ Within value value' := by
  cases h with
  | refl => exact ⟨members, rfl, fun key value hvalue => ⟨value, hvalue, .refl value⟩⟩
  | @object _ members' hfound hheld =>
    refine ⟨members', rfl, fun key value hvalue => ?_⟩
    obtain ⟨value', hvalue'⟩ := Option.isSome_iff_exists.mp (hfound key value hvalue)
    have hwithin := hheld key value hvalue
    rw [hvalue', Option.getD_some] at hwithin
    exact ⟨value', hvalue', hwithin⟩

theorem within_object_iff {members' : List (Text × Json)} :
    Within (object members) (object members') ↔ ∀ key value, get? members key = some value →
      ∃ value', get? members' key = some value' ∧ Within value value' := by
  constructor
  · intro h
    obtain ⟨found, heq, hheld⟩ := within_object h
    rw [object.inj heq]
    exact hheld
  · intro h
    refine .object (fun key value hvalue => ?_) fun key value hvalue => ?_
    · obtain ⟨value', hvalue', -⟩ := h key value hvalue
      rw [hvalue']
      rfl
    · obtain ⟨value', hvalue', hwithin⟩ := h key value hvalue
      rwa [hvalue', Option.getD_some]

theorem within_array_iff {items items' : List Json} :
    Within (array items) (array items') ↔
      items.length = items'.length ∧ ∀ i, Within (items.getD i null) (items'.getD i null) := by
  constructor
  · intro h
    cases h with
    | refl => exact ⟨rfl, fun i => .refl _⟩
    | array hlen hitems => exact ⟨hlen, hitems⟩
  · rintro ⟨hlen, hitems⟩
    exact .array hlen hitems

/-- Serialized members of distinct names are all in the object. -/
theorem within_ofMembers (hnames : (known.map Prod.fst).Nodup) :
    Within (object members) (ofMembers known) ↔ ∀ key value, get? members key = some value →
      ∃ value', get? known key = some value' ∧ Within value value' := by
  have hget : ∀ key, get? (known.foldl (fun acc m => insert m.1 m.2 acc) []) key =
      get? known key := by
    intro key
    rw [get?_foldl_insert _ _ _ hnames]
    exact Option.or_none
  rw [ofMembers, within_object_iff]
  simp only [hget]

theorem get?_flattened (names : List Text) (members : List (Text × Json)) (key : Text) :
    get? (flattened names members) key = if names.contains key then none else get? members key := by
  rw [flattened, get?_foldr_insert, get?_filter (fun name => !names.contains name)]
  cases names.contains key <;> rfl

theorem not_mem_of_flattened {names : List Text} {m : Text × Json}
    (h : m ∈ flattened names members) : m.1 ∉ names := by
  have hsub : ∀ (rest : List (Text × Json)) (m : Text × Json),
      m ∈ rest.foldr (fun m acc => insert m.1 m.2 acc) [] → m ∈ rest := by
    intro rest
    induction rest with
    | nil => exact fun m hm => hm
    | cons head rest ih =>
      intro m hm
      rcases mem_insert hm with rfl | hm
      · exact List.mem_cons_self
      · exact List.mem_cons_of_mem _ (ih m hm)
  simpa using (List.mem_filter.mp (hsub _ _ h)).2

theorem get?_known {m : Text × Json} (hnames : (known.map Prod.fst).Nodup) (hm : m ∈ known) :
    get? known m.1 = some m.2 := by
  obtain ⟨value, hvalue⟩ := Option.isSome_iff_exists.mp (isSome_get? hm)
  obtain ⟨found, hfound, hval⟩ := Option.map_eq_some_iff.mp hvalue
  have hname : found.1 = m.1 := by simpa using List.find?_some hfound
  have hsame := List.inj_on_of_nodup_map hnames (List.mem_of_find?_eq_some hfound) hm hname
  rw [hvalue, ← hval, hsame]

/-- A record that keeps the members it does not name holds an object as soon as its own members
do. -/
theorem within_flattened {names : List Text} (hkeys : known.map Prod.fst = names)
    (hnames : names.Nodup) :
    Within (object members) (ofMembers (known ++ flattened names members)) ↔
      ∀ m ∈ known, ∀ value, get? members m.1 = some value → Within value m.2 := by
  subst hkeys
  have hall : ((known ++ flattened (known.map Prod.fst) members).map Prod.fst).Nodup := by
    rw [List.map_append]
    refine List.Nodup.append hnames (ordered_nodup (foldr_insert_ordered _)) ?_
    intro name hname hname'
    obtain ⟨m, hm, rfl⟩ := List.mem_map.mp hname'
    exact not_mem_of_flattened hm hname
  have hknown : ∀ m ∈ known, get? known m.1 = some m.2 := fun m hm => get?_known hnames hm
  rw [within_ofMembers hall]
  constructor
  · intro h m hm value hvalue
    obtain ⟨value', hvalue', hwithin⟩ := h m.1 value hvalue
    rw [get?_append, hknown m hm, Option.some_or] at hvalue'
    rwa [Option.some.inj hvalue']
  · intro h key value hvalue
    by_cases hkey : key ∈ known.map Prod.fst
    · obtain ⟨m, hm, rfl⟩ := List.mem_map.mp hkey
      exact ⟨m.2, by rw [get?_append, hknown m hm, Option.some_or], h m hm value hvalue⟩
    · refine ⟨value, ?_, .refl value⟩
      have hnone : get? known key = none := by
        rw [get?_eq_none]
        intro m hm heq
        exact hkey (List.mem_map.mpr ⟨m, hm, heq⟩)
      rw [get?_append, hnone, Option.none_or, get?_flattened, if_neg (by simpa using hkey), hvalue]

/-- A record without such members holds an object that has none of other names. -/
theorem within_named {names : List Text} (hkeys : known.map Prod.fst = names) (hnames : names.Nodup)
    (hheld : ∀ m ∈ known, ∀ value, get? members m.1 = some value → Within value m.2) :
    Within (object members) (ofMembers known) ↔
      ∀ key value, get? members key = some value → key ∈ names := by
  subst hkeys
  rw [within_ofMembers hnames]
  constructor
  · intro h key value hvalue
    obtain ⟨value', hvalue', -⟩ := h key value hvalue
    by_contra hkey
    have hnone : get? known key = none := by
      rw [get?_eq_none]
      intro m hm heq
      exact hkey (List.mem_map.mpr ⟨m, hm, heq⟩)
    rw [hnone] at hvalue'
    cases hvalue'
  · intro h key value hvalue
    obtain ⟨m, hm, rfl⟩ := List.mem_map.mp (h key value hvalue)
    exact ⟨m.2, get?_known hnames hm, hheld m hm value hvalue⟩

end Held

section Preserved

variable {α : Type} {decode : Json → Option α} {encode : α → Json} {good : Json → Prop}

/-- Encoding holds what was decoded, exactly of the good values. -/
def PreservesWhen (decode : Json → Option α) (encode : α → Json) (good : Json → Prop) : Prop :=
  ∀ j a, decode j = some a → (Within j (encode a) ↔ good j)

/-- Encoding holds everything that was decoded. -/
def Preserves (decode : Json → Option α) (encode : α → Json) : Prop :=
  ∀ j a, decode j = some a → Within j (encode a)

theorem Preserves.when (h : Preserves decode encode) : PreservesWhen decode encode fun _ => True :=
  fun j a hdecode => iff_true_intro (h j a hdecode)

theorem preserves_string : Preserves decodeString string := by
  intro j s h
  cases j <;> simp only [decodeString, Option.some.injEq, reduceCtorEq] at h
  rw [h]
  exact .refl _

theorem preserves_unsigned (largest : Nat) : Preserves (decodeUnsigned largest) nat := by
  intro j n h
  unfold decodeUnsigned at h
  split at h
  · split_ifs at h
    rw [← Option.some.inj h]
    exact .refl _
  · cases h

theorem preserves_i64 : Preserves decodeI64 int := by
  intro j n h
  unfold decodeI64 at h
  split at h
  · split_ifs at h
    rw [← Option.some.inj h, int, if_pos (Int.natCast_nonneg _), Int.toNat_natCast]
    exact .refl _
  · split_ifs at h with hrange
    rw [← Option.some.inj h, int, if_neg (by omega)]
    exact .refl _
  · cases h

theorem preserves_value : Preserves some id := by
  intro j value h
  rw [← Option.some.inj h]
  exact .refl _

theorem preserves_option (h : Preserves decode encode) :
    Preserves (decodeOption decode) (ofOption encode) := by
  intro j a hdecode
  unfold decodeOption at hdecode
  split at hdecode
  · rw [← Option.some.inj hdecode]
    exact .refl _
  · obtain ⟨value, hvalue, rfl⟩ := Option.map_eq_some_iff.mp hdecode
    exact h j value hvalue

theorem forall₂_of_mapM {items : List Json} {values : List α}
    (h : items.mapM decode = some values) :
    List.Forall₂ (fun j a => decode j = some a) items values := by
  induction items generalizing values with
  | nil =>
    rw [List.mapM_nil] at h
    rw [← Option.some.inj h]
    exact .nil
  | cons item items ih =>
    rw [List.mapM_cons] at h
    simp only [Option.bind_eq_bind, Option.bind_eq_some_iff, Option.pure_def, Option.some.injEq] at h
    obtain ⟨value, hvalue, rest, hrest, rfl⟩ := h
    exact .cons hvalue (ih hrest)

/-- A list holds a list item by item. -/
theorem preservesWhen_array (h : PreservesWhen decode encode good) :
    PreservesWhen (decodeArray decode) (fun values => array (values.map encode)) fun j =>
      ∀ items, j = array items → ∀ item ∈ items, good item := by
  intro j values hdecode
  cases j with
  | array items =>
    have hitems := forall₂_of_mapM (show items.mapM decode = some values from hdecode)
    have hlen := hitems.length_eq
    have hpoint : ∀ i (hi : i < items.length),
        Within (items.getD i null) ((values.map encode).getD i null) ↔ good items[i] := by
      intro i hi
      have hdecoded := hitems.get (i := i) hi (by omega)
      rw [List.getD_eq_getElem _ _ hi, List.getD_eq_getElem _ _ (by simpa using hlen ▸ hi),
        List.getElem_map]
      exact h _ _ hdecoded
    rw [within_array_iff, List.length_map]
    constructor
    · rintro ⟨-, hwithin⟩ items' heq item hitem
      obtain rfl := array.inj heq
      obtain ⟨i, hi, rfl⟩ := List.mem_iff_getElem.mp hitem
      exact (hpoint i hi).mp (hwithin i)
    · intro hgood
      refine ⟨hlen, fun i => ?_⟩
      by_cases hi : i < items.length
      · exact (hpoint i hi).mpr (hgood items rfl _ (List.getElem_mem hi))
      · rw [List.getD_eq_default _ _ (by omega), List.getD_eq_default _ _ (by simp; omega)]
        exact .refl _
  | _ => cases hdecode

theorem preserves_array (h : Preserves decode encode) :
    Preserves (decodeArray decode) fun values => array (values.map encode) :=
  fun j values hdecode =>
    (preservesWhen_array h.when j values hdecode).mpr fun _ _ _ _ => trivial

variable {members : List (Text × Json)} {key : Text} {a absent : α}

theorem required_iff (h : PreservesWhen decode encode good)
    (hmember : required decode members key = some a) :
    (∀ value, get? members key = some value → Within value (encode a)) ↔
      ∀ value, get? members key = some value → good value := by
  obtain ⟨value, hvalue, hdecode⟩ := Option.bind_eq_some_iff.mp hmember
  simp only [hvalue, Option.some.injEq, forall_eq']
  exact h value a hdecode

theorem required_held (h : Preserves decode encode)
    (hmember : required decode members key = some a) :
    ∀ value, get? members key = some value → Within value (encode a) :=
  (required_iff h.when hmember).mpr fun _ _ => trivial

theorem defaulted_iff (h : PreservesWhen decode encode good)
    (hmember : defaulted decode absent members key = some a) :
    (∀ value, get? members key = some value → Within value (encode a)) ↔
      ∀ value, get? members key = some value → good value := by
  cases hvalue : get? members key with
  | none => simp
  | some value =>
    rw [defaulted, hvalue] at hmember
    simp only [Option.some.injEq, forall_eq']
    exact h value a hmember

theorem defaulted_held (h : Preserves decode encode)
    (hmember : defaulted decode absent members key = some a) :
    ∀ value, get? members key = some value → Within value (encode a) :=
  (defaulted_iff h.when hmember).mpr fun _ _ => trivial

end Preserved

end Json

end WcashExplorer
