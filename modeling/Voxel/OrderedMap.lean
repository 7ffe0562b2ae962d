/-!
Maps that keep the order in which their keys came. Putting in a key that is there replaces its
value and leaves its place.
-/
namespace Voxel

/-- A map as a list of entries with distinct keys. -/
structure OrderedMap (κ ν : Type) where
  entries : List (κ × ν)
  nodup : (entries.map Prod.fst).Nodup
  deriving DecidableEq

namespace OrderedMap

variable {κ ν : Type}

instance [Repr κ] [Repr ν] : Repr (OrderedMap κ ν) := ⟨fun m p => reprPrec m.entries p⟩

def empty : OrderedMap κ ν := ⟨[], .nil⟩

instance : Inhabited (OrderedMap κ ν) := ⟨empty⟩

def keys (m : OrderedMap κ ν) : List κ := m.entries.map Prod.fst

def values (m : OrderedMap κ ν) : List ν := m.entries.map Prod.snd

def size (m : OrderedMap κ ν) : Nat := m.entries.length

theorem eq_of_entries {m n : OrderedMap κ ν} (same : m.entries = n.entries) : m = n := by
  cases m
  cases n
  congr

variable [DecidableEq κ]

def put (k : κ) (v : ν) : List (κ × ν) → List (κ × ν)
  | [] => [(k, v)]
  | e :: rest => if e.1 = k then (k, v) :: rest else e :: put k v rest

theorem keys_put (k : κ) (v : ν) (es : List (κ × ν)) :
    (put k v es).map Prod.fst =
      if k ∈ es.map Prod.fst then es.map Prod.fst else es.map Prod.fst ++ [k] := by
  induction es with
  | nil => simp [put]
  | cons e rest ih =>
    by_cases h : e.1 = k
    · simp [put, h]
    · have : ¬ k = e.1 := fun e' => h e'.symm
      simp only [put, h, if_false, List.map_cons, ih, List.mem_cons, this, false_or]
      split <;> simp

theorem nodup_put {k : κ} {v : ν} {es : List (κ × ν)} (h : (es.map Prod.fst).Nodup) :
    ((put k v es).map Prod.fst).Nodup := by
  rw [keys_put]
  split
  · exact h
  · rename_i absent
    exact List.nodup_append.2 ⟨h, by simp, fun a ha b hb => by
      rw [List.mem_singleton.1 hb]
      exact fun e => absent (e ▸ ha)⟩

theorem put_new {k : κ} {es : List (κ × ν)} (new : k ∉ es.map Prod.fst) (v : ν) :
    put k v es = es ++ [(k, v)] := by
  induction es with
  | nil => rfl
  | cons e rest ih =>
    rw [List.map_cons, List.mem_cons, not_or] at new
    rw [put, if_neg (Ne.symm new.1), ih new.2, List.cons_append]

def insert (m : OrderedMap κ ν) (k : κ) (v : ν) : OrderedMap κ ν :=
  ⟨put k v m.entries, nodup_put m.nodup⟩

def find? (m : OrderedMap κ ν) (k : κ) : Option ν :=
  (m.entries.find? fun e => e.1 = k).map Prod.snd

def contains (m : OrderedMap κ ν) (k : κ) : Bool := (m.find? k).isSome

def erase (m : OrderedMap κ ν) (k : κ) : OrderedMap κ ν :=
  ⟨m.entries.filter (·.1 ≠ k), (List.filter_sublist.map Prod.fst).nodup m.nodup⟩

/-- The map of a list of entries, where the last value of a key counts. -/
def ofList (es : List (κ × ν)) : OrderedMap κ ν :=
  es.foldl (fun m e => m.insert e.1 e.2) empty

def sortedBy (le : κ → κ → Bool) (m : OrderedMap κ ν) : OrderedMap κ ν :=
  ⟨m.entries.mergeSort fun a b => le a.1 b.1,
    ((List.mergeSort_perm m.entries _).map Prod.fst).nodup_iff.2 m.nodup⟩

@[simp] theorem entries_insert (m : OrderedMap κ ν) (k : κ) (v : ν) :
    (m.insert k v).entries = put k v m.entries := rfl

theorem find?_put (k j : κ) (v : ν) (es : List (κ × ν)) :
    ((put k v es).find? fun e => e.1 = j) =
      if j = k then some (k, v) else es.find? fun e => e.1 = j := by
  induction es with
  | nil => by_cases h : j = k <;> simp [put, h, eq_comm]
  | cons e rest ih =>
    by_cases h : e.1 = k
    · by_cases hj : j = k
      · simp [put, h, hj]
      · have hk : ¬ k = j := fun e => hj e.symm
        simp [put, h, hj, hk]
    · by_cases hj : e.1 = j
      · have hk : ¬ j = k := fun e => h (hj.trans e)
        simp [put, hj, hk]
      · simp [put, h, hj, ih]

@[simp] theorem find?_insert (m : OrderedMap κ ν) (k j : κ) (v : ν) :
    (m.insert k v).find? j = if j = k then some v else m.find? j := by
  simp only [find?, entries_insert, find?_put]
  split <;> simp

theorem find?_entry {es : List (κ × ν)} (nodup : (es.map Prod.fst).Nodup) {e : κ × ν}
    (member : e ∈ es) : (es.find? fun f => f.1 = e.1) = some e := by
  induction es with
  | nil => cases member
  | cons f rest ih =>
    rw [List.map_cons, List.nodup_cons] at nodup
    cases member with
    | head => simp
    | tail _ later =>
      have other : ¬ f.1 = e.1 := fun same => nodup.1 (same ▸ List.mem_map_of_mem later)
      simp [other, ih nodup.2 later]

theorem find?_of_mem {m : OrderedMap κ ν} {k : κ} {v : ν} (member : (k, v) ∈ m.entries) :
    m.find? k = some v := by
  unfold find?
  rw [find?_entry m.nodup member]
  rfl

theorem find?_eq_some_iff {m : OrderedMap κ ν} {k : κ} {v : ν} :
    m.find? k = some v ↔ (k, v) ∈ m.entries := by
  constructor
  · intro found
    obtain ⟨e, there, rfl⟩ := Option.map_eq_some_iff.mp found
    have key : e.1 = k := by simpa using List.find?_some there
    exact key ▸ List.mem_of_find?_eq_some there
  · exact find?_of_mem

theorem contains_eq_true_iff {m : OrderedMap κ ν} {k : κ} : m.contains k = true ↔ k ∈ m.keys := by
  rw [contains, find?, Option.isSome_map, List.find?_isSome, keys, List.mem_map]
  simp only [decide_eq_true_eq]

theorem value_eq {m : OrderedMap κ ν} {k : κ} {v w : ν} (left : (k, v) ∈ m.entries)
    (right : (k, w) ∈ m.entries) : v = w := by
  have found := find?_of_mem left
  rw [find?_of_mem right] at found
  exact (Option.some.inj found).symm

/-! ### Values -/

theorem filter_put (k : κ) (v : ν) (es : List (κ × ν)) :
    (put k v es).filter (·.1 ≠ k) = es.filter (·.1 ≠ k) := by
  induction es with
  | nil => simp [put]
  | cons e rest ih =>
    by_cases h : e.1 = k
    · simp [put, h]
    · simp only [put, h, if_false, List.filter_cons, ih]

theorem erase_insert (m : OrderedMap κ ν) (k : κ) (v : ν) : (m.insert k v).erase k = m.erase k :=
  eq_of_entries (filter_put k v m.entries)

theorem erase_of_absent {m : OrderedMap κ ν} {k : κ} (absent : m.find? k = none) : m.erase k = m := by
  refine eq_of_entries (List.filter_eq_self.mpr fun e member => ?_)
  have other : e.1 ≠ k := by
    rintro rfl
    cases absent.symm.trans (find?_of_mem member)
  exact decide_eq_true other

theorem find?_erase (m : OrderedMap κ ν) (k j : κ) :
    (m.erase k).find? j = if j = k then none else m.find? j := by
  simp only [find?, erase, List.find?_filter]
  split
  · rename_i same
    subst same
    rw [List.find?_eq_none.mpr (by simp), Option.map_none]
  · rename_i other
    congr 2
    funext e
    by_cases h : e.1 = j <;> simp [h, other]

theorem mem_keys_erase {m : OrderedMap κ ν} {k j : κ} : j ∈ (m.erase k).keys ↔ j ∈ m.keys ∧ j ≠ k := by
  simp only [keys, erase, List.mem_map, List.mem_filter, decide_eq_true_eq]
  constructor
  · rintro ⟨e, ⟨member, other⟩, rfl⟩
    exact ⟨⟨e, member, rfl⟩, other⟩
  · rintro ⟨⟨e, member, rfl⟩, other⟩
    exact ⟨e, ⟨member, other⟩, rfl⟩

theorem entries_perm {es : List (κ × ν)} (nodup : (es.map Prod.fst).Nodup) {e : κ × ν} (member : e ∈ es) :
    es.Perm (e :: es.filter (·.1 ≠ e.1)) := by
  induction es with
  | nil => cases member
  | cons f rest ih =>
    rw [List.map_cons, List.nodup_cons] at nodup
    cases member with
    | head =>
      have others : rest.filter (·.1 ≠ e.1) = rest := List.filter_eq_self.mpr fun g inside =>
        decide_eq_true fun same => nodup.1 (same ▸ List.mem_map_of_mem inside)
      rw [List.filter_cons_of_neg (by simp), others]
    | tail _ later =>
      have other : f.1 ≠ e.1 := fun same => nodup.1 (same ▸ List.mem_map_of_mem later)
      rw [List.filter_cons, if_pos (decide_eq_true other)]
      exact ((ih nodup.2 later).cons f).trans (.swap e f _)

theorem values_perm {m : OrderedMap κ ν} {k : κ} {v : ν} (here : m.find? k = some v) :
    m.values.Perm (v :: (m.erase k).values) :=
  (entries_perm m.nodup (find?_eq_some_iff.mp here)).map Prod.snd

theorem values_insert_perm (m : OrderedMap κ ν) (k : κ) (v : ν) :
    (m.insert k v).values.Perm (v :: (m.erase k).values) := by
  have here : (m.insert k v).find? k = some v := by rw [find?_insert, if_pos rfl]
  exact erase_insert m k v ▸ values_perm here

omit [DecidableEq κ] in
theorem values_eq_nil {m : OrderedMap κ ν} (none : ∀ k, k ∉ m.keys) : m.values = [] := by
  have keys : m.entries.map Prod.fst = [] := List.eq_nil_iff_forall_not_mem.mpr none
  rw [values, List.map_eq_nil_iff.mp keys, List.map_nil]

theorem mem_values_of_find? {m : OrderedMap κ ν} {k : κ} {v : ν} (here : m.find? k = some v) :
    v ∈ m.values :=
  List.mem_map_of_mem (find?_eq_some_iff.mp here)

theorem mem_values_of_erase {m : OrderedMap κ ν} {k : κ} {v : ν} (member : v ∈ (m.erase k).values) :
    v ∈ m.values :=
  (List.filter_sublist.map Prod.snd).subset member

theorem mem_values_insert {m : OrderedMap κ ν} {k : κ} {v w : ν} (member : w ∈ (m.insert k v).values) :
    w = v ∨ w ∈ m.values := by
  obtain same | others := List.mem_cons.mp ((values_insert_perm m k v).mem_iff.mp member)
  · exact Or.inl same
  · exact Or.inr (mem_values_of_erase others)

/-! ### Lists of entries -/

/-- An entry of a list, after which its key does not come again. -/
def LastOf (es : List (κ × ν)) (e : κ × ν) : Prop :=
  ∃ before after, es = before ++ e :: after ∧ e.1 ∉ after.map Prod.fst

omit [DecidableEq κ] in
theorem lastOf_cons {f e : κ × ν} {rest : List (κ × ν)} :
    LastOf (f :: rest) e ↔ LastOf rest e ∨ (e = f ∧ e.1 ∉ rest.map Prod.fst) := by
  constructor
  · intro last
    obtain ⟨before, after, split, absent⟩ := last
    cases before with
    | nil =>
      obtain ⟨rfl, rfl⟩ := List.cons.inj split
      exact Or.inr ⟨rfl, absent⟩
    | cons g before => exact Or.inl ⟨before, after, (List.cons.inj split).2, absent⟩
  · intro last
    rcases last with ⟨before, after, rfl, absent⟩ | ⟨rfl, absent⟩
    · exact ⟨f :: before, after, rfl, absent⟩
    · exact ⟨[], rest, rfl, absent⟩

theorem find?_foldl_insert {es : List (κ × ν)} {m : OrderedMap κ ν} {k : κ} {v : ν} :
    (es.foldl (fun m e => m.insert e.1 e.2) m).find? k = some v ↔
      LastOf es (k, v) ∨ (k ∉ es.map Prod.fst ∧ m.find? k = some v) := by
  induction es generalizing m with
  | nil => simp [LastOf]
  | cons f rest ih =>
    rw [List.foldl_cons, ih, lastOf_cons, find?_insert, List.map_cons, List.mem_cons, not_or]
    by_cases same : k = f.1
    · subst same
      have value : some f.2 = some v ↔ (f.1, v) = f := by simp [Prod.ext_iff, eq_comm]
      simp only [if_pos, value, not_true_eq_false, false_and, or_false, and_comm]
    · have other : (k, v) ≠ f := fun equal => same (congrArg Prod.fst equal)
      simp only [same, if_false, other, false_and, or_false, not_false_eq_true, true_and]

/-- The map of a list has the last entry of each key. -/
theorem mem_ofList {es : List (κ × ν)} {e : κ × ν} : e ∈ (ofList es).entries ↔ LastOf es e := by
  rw [← find?_eq_some_iff, ofList, find?_foldl_insert]
  simp [find?, empty]

end OrderedMap
end Voxel
