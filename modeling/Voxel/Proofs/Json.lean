import Mathlib.Data.List.Forall2
import Mathlib.Data.List.Nodup
import Voxel.Json.Decode
import Voxel.Outcome
import Voxel.Proofs.Name

/-!
# Reading what was written

A text, a number, a list or a map is read as what it was written from. A record is too, if its
fields are written in the order of their names, absent ones left out (`Taken`). The other way round,
`asMap_ok` and `foldRecord_field` say where in a tree that was read a map and a field come from.
-/

namespace Voxel

namespace Json

/-! ### Values and lists -/

theorem asName_text {n : Name} (proper : n.Proper) : asName (text n.text) = .ok n := by
  rw [asName, text, asText, Outcome.ok_bind, Name.ofText?_text proper]

theorem asNatBelow_nat {n limit : Nat} (low : n < limit) : asNatBelow limit (nat n) = .ok n :=
  if_pos ⟨Int.natCast_nonneg n, Int.ofNat_lt.mpr low⟩

theorem asOption_ok {α : Type} {read : Json → Read α} {j : Json} {a : α}
    (present : asOption read j = some <$> read j) (given : read j = .ok a) :
    asOption read j = .ok (some a) := by
  rw [present, given]
  rfl

theorem asOption_nat {α : Type} {n limit : Nat} (low : n < limit) (ofNat : Nat → α) :
    asOption (fun j => ofNat <$> j.asNatBelow limit) (nat n) = .ok (some (ofNat n)) := by
  refine asOption_ok rfl ?_
  rw [asNatBelow_nat low]
  rfl

theorem asList_list {α : Type} {read : Json → Read α} {write : α → Json} {l : List α}
    (each : ∀ a ∈ l, read (write a) = .ok a) : asList read (list (l.map write)) = .ok l := by
  have run : (l.map write).mapM read = .ok l := by
    induction l with
    | nil => rfl
    | cons a rest ih =>
      obtain ⟨first, later⟩ := List.forall_mem_cons.mp each
      rw [List.map_cons, List.mapM_cons, first, Outcome.ok_bind, ih later]
      rfl
  rw [list, asList, run, Outcome.ok_bind, if_pos rfl]

/-! ### Maps -/

section

variable {κ ν σ : Type}

theorem foldFields_record (step : σ → String → Json → Read σ) (start : σ)
    (fields : List (String × Json)) :
    foldFields step start (record fields) = fields.foldlM (fun s e => step s e.1 e.2) start := by
  rw [record, foldFields, List.foldlM_map]
  dsimp only
  cases fields.foldlM (fun s e => step s e.1 e.2) start <;> rfl

variable [DecidableEq κ]

theorem foldlM_insert {step : OrderedMap κ ν → σ → Read (OrderedMap κ ν)} {entry : σ → κ × ν}
    (l : List σ) (m : OrderedMap κ ν)
    (inserted : ∀ m, ∀ a ∈ l, (entry a).1 ∉ m.keys →
      step m a = .ok (m.insert (entry a).1 (entry a).2))
    (distinct : (m.keys ++ l.map fun a => (entry a).1).Nodup) :
    ∃ n, l.foldlM step m = .ok n ∧ n.entries = m.entries ++ l.map entry := by
  induction l generalizing m with
  | nil => exact ⟨m, rfl, (List.append_nil _).symm⟩
  | cons a rest ih =>
    rw [List.map_cons] at distinct
    have new : (entry a).1 ∉ m.keys := by
      intro known
      exact (List.nodup_append.mp distinct).2.2 _ known _ List.mem_cons_self rfl
    have entries : (m.insert (entry a).1 (entry a).2).entries = m.entries ++ [entry a] :=
      OrderedMap.put_new new _
    rw [List.append_cons] at distinct
    obtain ⟨n, run, same⟩ := ih (m.insert (entry a).1 (entry a).2)
      (fun m b later => inserted m b (List.mem_cons_of_mem _ later))
      (by rwa [OrderedMap.keys, entries, List.map_append])
    refine ⟨n, ?_, by rw [same, entries, List.append_assoc]; rfl⟩
    rw [List.foldlM_cons, inserted m a List.mem_cons_self new, Outcome.ok_bind, run]

theorem asMap_record {key : String → Read κ} {read : Json → Read ν} (writeKey : κ → String)
    (write : ν → Json) (m : OrderedMap κ ν)
    (keys : ∀ e ∈ m.entries, key (writeKey e.1) = .ok e.1)
    (values : ∀ e ∈ m.entries, read (write e.2) = .ok e.2) :
    asMap key read (record (m.entries.map fun e => (writeKey e.1, write e.2))) = .ok m := by
  rw [asMap, foldFields_record, List.foldlM_map]
  let insert (n : OrderedMap κ ν) (e : κ × ν) : Read (OrderedMap κ ν) := do
    let k ← key (writeKey e.1)
    let v ← read (write e.2)
    .ok (n.insert k v)
  have inserted : ∀ n, ∀ e ∈ m.entries, e.1 ∉ n.keys → insert n e = .ok (n.insert e.1 e.2) := by
    intro n e member _
    simp only [insert, keys e member, values e member, Outcome.ok_bind]
  obtain ⟨n, run, same⟩ := foldlM_insert m.entries .empty inserted m.nodup
  refine Eq.trans run ?_
  exact congrArg Except.ok (OrderedMap.eq_of_entries (same.trans (List.map_id _)))

theorem asMap_texts (m : OrderedMap String String) :
    asMap pure asText (record (m.entries.map fun e => (e.1, text e.2))) = .ok m :=
  asMap_record id text m (fun _ _ => rfl) fun _ _ => rfl

end

/-! ### Records -/

section

variable {σ : Type} {names : List String} {step : σ → Nat → Json → Read σ} {needed : List Nat}

/-- The fields stand in the order of the names, from a place on, and none that is needed is left out.
Reading them one after the other leads from one value to another. -/
inductive Taken (names : List String) (step : σ → Nat → Json → Read σ) (needed : List Nat) :
    Nat → σ → List (String × Json) → σ → Prop
  | nil {i s} (all : ∀ n ∈ needed, n < i) : Taken names step needed i s [] s
  | skip {i s fields t} (free : i ∉ needed) (rest : Taken names step needed (i + 1) s fields t) :
    Taken names step needed i s fields t
  | take {i s k j next fields t} (name : names[i]? = some k) (read : step s i j = .ok next)
    (rest : Taken names step needed (i + 1) next fields t) :
    Taken names step needed i s ((k, j) :: fields) t

theorem Taken.optional {i : Nat} {s next t : σ} {k : String} {field fields : List (String × Json)}
    (name : names[i]? = some k) (free : i ∉ needed)
    (given : (field = [] ∧ s = next) ∨ ∃ j, field = [(k, j)] ∧ step s i j = .ok next)
    (rest : Taken names step needed (i + 1) next fields t) :
    Taken names step needed i s (field ++ fields) t := by
  rcases given with ⟨rfl, rfl⟩ | ⟨j, rfl, read⟩
  · exact .skip free rest
  · exact .take name read rest

theorem Taken.option {α : Type} {i : Nat} {s next t : σ} {k : String} {write : α → Json}
    {fields : List (String × Json)} {a : Option α} (name : names[i]? = some k) (free : i ∉ needed)
    (absent : a = none → s = next) (present : ∀ b, a = some b → step s i (write b) = .ok next)
    (rest : Taken names step needed (i + 1) next fields t) :
    Taken names step needed i s ((a.map fun b => (k, write b)).toList ++ fields) t := by
  refine Taken.optional name free ?_ rest
  cases a with
  | none => exact Or.inl ⟨rfl, absent rfl⟩
  | some b => exact Or.inr ⟨_, rfl, present b rfl⟩

def recordStep (names : List String) (step : σ → Nat → Json → Read σ) (x : σ × List Nat)
    (e : String × Json) : Read (σ × List Nat) :=
  let i := names.idxOf e.1
  if i < names.length then
    if i ∈ x.2 then .error .malformed
    else return (← step x.1 i e.2, i :: x.2)
  else if e.2.isIntact then .ok x
  else .error .malformed

theorem foldRecord_record (start : σ) (fields : List (String × Json)) :
    foldRecord names step start (record fields) =
      fields.foldlM (recordStep names step) (start, []) := by
  rw [record, foldRecord, List.foldlM_map]
  dsimp only
  show ((fields.foldlM (recordStep names step) (start, [])) >>= fun result =>
    if true = true then Except.ok result else .error .malformed) = _
  cases fields.foldlM (recordStep names step) (start, []) <;> rfl

theorem Taken.foldlM_ok (distinct : names.Nodup) {i : Nat} {s t : σ} {fields : List (String × Json)}
    (taken : Taken names step needed i s fields t) (seen : List Nat) (low : ∀ n ∈ seen, n < i)
    (before : ∀ n ∈ needed, n < i → n ∈ seen) :
    ∃ places, fields.foldlM (recordStep names step) (s, seen) = .ok (t, places) ∧
      ∀ n ∈ needed, n ∈ places := by
  induction taken generalizing seen with
  | nil all => exact ⟨seen, rfl, fun n member => before n member (all n member)⟩
  | @skip i s fields t free _ ih =>
    refine ih seen (fun n member => Nat.lt_succ_of_lt (low n member)) fun n member reached => ?_
    have other : n ≠ i := fun same => free (same ▸ member)
    exact before n member (by omega)
  | @take i s k j next fields t name read _ ih =>
    obtain ⟨inside, rfl⟩ := List.getElem?_eq_some_iff.mp name
    -- what was seen stands before this place
    have new : i ∉ seen := fun member => Nat.lt_irrefl i (low i member)
    have here : recordStep names step (s, seen) (names[i], j) = .ok (next, i :: seen) := by
      rw [recordStep]
      dsimp only
      rw [distinct.idxOf_getElem i inside, if_pos inside, if_neg new, read]
      rfl
    rw [List.foldlM_cons, here, Outcome.ok_bind]
    refine ih (i :: seen) ?_ fun n member reached => ?_
    · simp only [List.mem_cons, forall_eq_or_imp]
      exact ⟨Nat.lt_succ_self i, fun n member => Nat.lt_succ_of_lt (low n member)⟩
    · rcases Nat.lt_succ_iff_lt_or_eq.mp reached with earlier | rfl
      · exact List.mem_cons_of_mem _ (before n member earlier)
      · exact List.mem_cons_self

/-- A record whose fields are in order is read, and every field that is needed is found. -/
theorem Taken.foldRecord_ok (distinct : names.Nodup) {s t : σ} {fields : List (String × Json)}
    (taken : Taken names step needed 0 s fields t) :
    ∃ places, foldRecord names step s (record fields) = .ok (t, places) ∧
      ∀ n ∈ needed, n ∈ places := by
  rw [foldRecord_record]
  exact taken.foldlM_ok distinct [] (by simp) (by simp)

end

/-! ### What is read of a tree -/

/-- A field of a record, by its name or by its place in a list. -/
def member? (place : Nat) (name : String) : Json → Option Json
  | .object fields _ => (fields.find? fun e => e.1 = some name).map Prod.snd
  | .array items _ => items[place]?
  | _ => none

/-- A value that is read from what is there, or is as usual if nothing is. -/
def ReadsOr {β : Type} (reads : Json → Read β) (usual value : β) : Option Json → Prop
  | some v => reads v = .ok value
  | none => value = usual

section

variable {κ ν : Type} [DecidableEq κ]

def ReadsEntry (key : String → Read κ) (read : Json → Read ν) (e : Option String × Json)
    (given : κ × ν) : Prop :=
  ∃ k, e.1 = some k ∧ key k = .ok given.1 ∧ read e.2 = .ok given.2

theorem foldlM_insert_ok {key : String → Read κ} {read : Json → Read ν}
    {fields : List (Option String × Json)} {m n : OrderedMap κ ν}
    (run : fields.foldlM (fun m (k, j) =>
      match k with
      | some k => do
        let k ← key k
        let v ← read j
        .ok (m.insert k v)
      | none => .error .malformed) m = .ok n) :
    ∃ given, List.Forall₂ (ReadsEntry key read) fields given ∧
      n = given.foldl (fun m e => m.insert e.1 e.2) m := by
  induction fields generalizing m with
  | nil =>
    cases run
    exact ⟨[], .nil, rfl⟩
  | cons e rest ih =>
    obtain ⟨name, value⟩ := e
    rw [List.foldlM_cons] at run
    obtain ⟨next, first, run⟩ := Outcome.bind_ok run
    cases name with
    | none => cases first
    | some k =>
      obtain ⟨a, readKey, first⟩ := Outcome.bind_ok first
      obtain ⟨b, readValue, first⟩ := Outcome.bind_ok first
      cases first
      obtain ⟨given, reads, result⟩ := ih run
      exact ⟨(a, b) :: given, .cons ⟨k, rfl, readKey, readValue⟩ reads, result⟩

/-- Of the entries of an object with one key, the last counts. -/
theorem asMap_ok {key : String → Read κ} {read : Json → Read ν} {j : Json} {m : OrderedMap κ ν}
    (run : asMap key read j = .ok m) : ∃ fields given, j = .object fields true ∧
      List.Forall₂ (ReadsEntry key read) fields given ∧ m = .ofList given := by
  unfold asMap foldFields at run
  cases j with
  | object fields closed =>
    dsimp only at run
    obtain ⟨n, fold, run⟩ := Outcome.bind_ok run
    split at run
    · rename_i same
      cases run
      cases same
      obtain ⟨given, reads, result⟩ := foldlM_insert_ok fold
      exact ⟨fields, given, rfl, reads, result⟩
    · cases run
  | _ => cases run

end

/-! ### One field of a record -/

section

variable {σ β : Type} {names : List String} {step : σ → Nat → Json → Read σ} {i : Nat} {name : String}
  {view : σ → β} {reads : Json → Read β}

def fieldStep (names : List String) (step : σ → Nat → Json → Read σ) (x : σ × List Nat)
    (e : Option String × Json) : Read (σ × List Nat) :=
  match e.1 with
  | none => .error .malformed
  | some k => recordStep names step x (k, e.2)

theorem foldRecord_object (start : σ) (fields : List (Option String × Json)) (closed : Bool) :
    foldRecord names step start (.object fields closed) =
      (fields.foldlM (fieldStep names step) (start, []) >>= fun result =>
        if closed then .ok result else .error .malformed) := by
  rw [foldRecord]
  rfl

theorem fieldStep_ok {x y : σ × List Nat} {e : Option String × Json}
    (run : fieldStep names step x e = .ok y) : ∃ k, e.1 = some k ∧
      ((k ∈ names ∧ names.idxOf k ∉ x.2 ∧ ∃ s, step x.1 (names.idxOf k) e.2 = .ok s ∧
        y = (s, names.idxOf k :: x.2)) ∨ (k ∉ names ∧ y = x)) := by
  obtain ⟨key, value⟩ := e
  cases key with
  | none => cases run
  | some k =>
    refine ⟨k, rfl, ?_⟩
    unfold fieldStep recordStep at run
    dsimp only at run
    split at run
    · rename_i known
      split at run
      · cases run
      · rename_i new
        obtain ⟨s, read, run⟩ := Outcome.bind_ok run
        exact Or.inl ⟨List.idxOf_lt_length_iff.mp known, new, s, read, (Except.ok.inj run).symm⟩
    · rename_i unknown
      split at run
      · exact Or.inr ⟨mt List.idxOf_lt_length_iff.mpr unknown, (Except.ok.inj run).symm⟩
      · cases run

variable (distinct : names.Nodup) (here : names[i]? = some name)
  (keeps : ∀ s n j t, n < names.length → n ≠ i → step s n j = .ok t → view t = view s)
include keeps

theorem foldlM_fieldStep_seen {fields : List (Option String × Json)} {x y : σ × List Nat}
    (run : fields.foldlM (fieldStep names step) x = .ok y) (seen : i ∈ x.2) : view y.1 = view x.1 := by
  induction fields generalizing x with
  | nil =>
    cases run
    rfl
  | cons e rest ih =>
    rw [List.foldlM_cons] at run
    obtain ⟨z, first, later⟩ := Outcome.bind_ok run
    obtain ⟨k, _, ⟨known, new, s, read, rfl⟩ | ⟨_, rfl⟩⟩ := fieldStep_ok first
    · have other : names.idxOf k ≠ i := fun same => new (same ▸ seen)
      have stays := keeps _ _ _ _ (List.idxOf_lt_length_iff.mpr known) other read
      exact (ih later (List.mem_cons_of_mem _ seen)).trans stays
    · exact ih later seen

omit keeps in
include here in
theorem mem_of_foldlM_fieldStep {fields : List (Option String × Json)} {x y : σ × List Nat}
    (run : fields.foldlM (fieldStep names step) x = .ok y) (new : i ∉ x.2) (seen : i ∈ y.2) :
    ∃ e ∈ fields, e.1 = some name := by
  induction fields generalizing x with
  | nil =>
    cases run
    exact absurd seen new
  | cons e rest ih =>
    rw [List.foldlM_cons] at run
    obtain ⟨z, first, later⟩ := Outcome.bind_ok run
    by_cases already : i ∈ z.2
    · obtain ⟨k, key, ⟨known, _, s, _, rfl⟩ | ⟨_, rfl⟩⟩ := fieldStep_ok first
      · obtain rfl | old := List.mem_cons.mp already
        · rw [List.getElem?_idxOf known] at here
          exact ⟨e, List.mem_cons_self, key.trans here⟩
        · exact absurd old new
      · exact absurd already new
    · obtain ⟨e, member, key⟩ := ih later already
      exact ⟨e, List.mem_cons_of_mem _ member, key⟩

variable (sets : ∀ s j t, step s i j = .ok t → reads j = .ok (view t))
include distinct here sets

theorem foldlM_fieldStep {fields : List (Option String × Json)} {x y : σ × List Nat}
    (run : fields.foldlM (fieldStep names step) x = .ok y) (new : i ∉ x.2) :
    ReadsOr reads (view x.1) (view y.1)
      ((fields.find? fun e => e.1 = some name).map Prod.snd) := by
  obtain ⟨inside, named⟩ := List.getElem?_eq_some_iff.mp here
  have place : names.idxOf name = i := by rw [← named, distinct.idxOf_getElem i inside]
  induction fields generalizing x with
  | nil =>
    cases run
    rfl
  | cons e rest ih =>
    rw [List.foldlM_cons] at run
    obtain ⟨z, first, later⟩ := Outcome.bind_ok run
    obtain ⟨k, key, ⟨known, _, s, read, rfl⟩ | ⟨unknown, rfl⟩⟩ := fieldStep_ok first
    · by_cases same : k = name
      · subst same
        rw [place] at read later
        rw [List.find?_cons_of_pos (by simpa using key)]
        show reads e.2 = .ok (view y.1)
        -- it cannot come again, so that what was read is what there is in the end
        rw [foldlM_fieldStep_seen keeps later List.mem_cons_self]
        exact sets _ _ _ read
      · have other : i ≠ names.idxOf k := by
          intro equal
          rw [← place] at equal
          exact same ((List.idxOf_inj known).mp equal.symm)
        have stays := keeps _ _ _ _ (List.idxOf_lt_length_iff.mpr known) (Ne.symm other) read
        rw [List.find?_cons_of_neg (by simpa [key] using same), ← stays]
        exact ih later (by simp [other, new])
    · have other : k ≠ name := by
        rintro rfl
        exact unknown (named ▸ List.getElem_mem inside)
      rw [List.find?_cons_of_neg (by simpa [key] using other)]
      exact ih later new

omit distinct here in
theorem foldlM_places {items : List Json} {s t : σ} {n m : Nat}
    (run : items.foldlM (fun (s, n) j =>
      if n < names.length then return (← step s n j, n + 1)
      else .error .malformed) (s, n) = (.ok (t, m) : Read (σ × Nat))) :
    m = n + items.length ∧ (i < n → view t = view s) ∧
      (n ≤ i → ReadsOr reads (view s) (view t) items[i - n]?) := by
  induction items generalizing s n with
  | nil =>
    cases run
    exact ⟨rfl, fun _ => rfl, fun _ => rfl⟩
  | cons j rest ih =>
    rw [List.foldlM_cons] at run
    obtain ⟨z, first, later⟩ := Outcome.bind_ok run
    dsimp only at first
    split at first
    · rename_i inside
      obtain ⟨u, read, first⟩ := Outcome.bind_ok first
      cases first
      obtain ⟨count, stays, found⟩ := ih later
      refine ⟨by rw [count, List.length_cons]; omega, fun low => ?_, fun low => ?_⟩
      · exact (stays (by omega)).trans (keeps _ _ _ _ inside (by omega) read)
      · obtain below | rfl := Nat.lt_or_eq_of_le low
        · rw [show i - n = (i - (n + 1)) + 1 by omega, List.getElem?_cons_succ,
            ← keeps _ _ _ _ inside (Nat.ne_of_lt below) read]
          exact found below
        · rw [Nat.sub_self, List.getElem?_cons_zero]
          show reads j = .ok (view t)
          rw [stays (Nat.lt_succ_self _)]
          exact sets _ _ _ read
    · cases first

/-- A field of a record is read from its member, or left as it was if it has none. -/
theorem foldRecord_field {start t : σ} {j : Json} {seen : List Nat}
    (run : foldRecord names step start j = .ok (t, seen)) :
    ReadsOr reads (view start) (view t) (j.member? i name) ∧
      (i ∈ seen → ∃ v, j.member? i name = some v) := by
  cases j with
  | object fields closed =>
    rw [foldRecord_object] at run
    obtain ⟨y, fold, run⟩ := Outcome.bind_ok run
    split at run
    · cases run
      refine ⟨foldlM_fieldStep distinct here keeps sets fold List.not_mem_nil, fun there => ?_⟩
      obtain ⟨e, member, key⟩ := mem_of_foldlM_fieldStep here fold List.not_mem_nil there
      have some : (fields.find? fun e => e.1 = some name).isSome := by
        rw [List.find?_isSome]
        exact ⟨e, member, by simpa using key⟩
      obtain ⟨found, first⟩ := Option.isSome_iff_exists.mp some
      exact ⟨found.2, by rw [member?, first]; rfl⟩
    · cases run
  | array items closed =>
    obtain ⟨y, fold, run⟩ := Outcome.bind_ok run
    dsimp only at run
    split at run
    · cases run
      obtain ⟨count, _, found⟩ := foldlM_places keeps sets fold
      refine ⟨found (Nat.zero_le i), fun there => ?_⟩
      have inside := List.mem_range.mp there
      rw [count, Nat.zero_add] at inside
      exact ⟨_, List.getElem?_eq_getElem inside⟩
    · cases run
  | _ => cases run

omit distinct here keeps sets in
theorem foldRecord_sets {Sets : σ → Nat → Json → σ → Prop} {start t : σ} {j : Json}
    (run : Prod.fst <$> foldRecord names step start j = .ok t) (distinct : names.Nodup)
    (here : names[i]? = some name)
    (does : ∀ s n j t, n < names.length → step s n j = .ok t → Sets s n j t)
    (keeps : ∀ s n j t, Sets s n j t → n ≠ i → view t = view s)
    (sets : ∀ s j t, Sets s i j t → reads j = .ok (view t)) :
    ReadsOr reads (view start) (view t) (j.member? i name) := by
  obtain ⟨⟨t, seen⟩, record, rfl⟩ := Outcome.map_ok run
  obtain ⟨inside, _⟩ := List.getElem?_eq_some_iff.mp here
  exact (foldRecord_field distinct here
    (fun s n j t low other run => keeps s n j t (does s n j t low run) other)
    (fun s j t run => sets s j t (does s i j t inside run)) record).1

end

theorem asName_text_ok {s : String} {n : Name} (run : asName (.text s) = .ok n) :
    Name.ofText? s = some n := by
  rw [asName, text, asText, Outcome.ok_bind] at run
  split at run
  · rename_i found
    cases run
    exact found
  · cases run

end Json
end Voxel
