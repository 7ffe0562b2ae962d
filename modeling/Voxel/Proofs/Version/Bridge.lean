import Voxel.Proofs.Block.State
import Voxel.Proofs.Registry.Index
import Voxel.Version.Bridge

/-!
# The tables of a bridge

`indices_translate` says what becomes of the texts of a state in a global kind. `bridge_spec` ties the
two tables of a bridge to the list of states and what each of them becomes.
-/

namespace Voxel

namespace BlockDescription

/-- The index that a global property reads off a text given under the name that stands for it. -/
def reads? (b : BlockDescription) (p : Property) (e : String × String) : Option Nat :=
  if p.name = b.globalProperty e.1 then (p.decodeIndex e.2).toOption else none

/-- The index that a global property takes over: off the last text that it can read. -/
def carried? (b : BlockDescription) (p : Property) (texts : List (String × String)) : Option Nat :=
  (texts.filterMap (b.reads? p)).getLast?

/-- The state of a global kind that takes over texts one after the other. -/
def translate (b : BlockDescription) (g : BlockKind) (texts : List (String × String)) : BlockState :=
  texts.foldl (fun t e => t.taking (b.globalProperty e.1) e.2) g.defaultState

variable {b : BlockDescription} {g : BlockKind} {texts : List (String × String)}

theorem kind_foldl_taking (t : BlockState) :
    (texts.foldl (fun t e => t.taking (b.globalProperty e.1) e.2) t).kind = t.kind := by
  induction texts generalizing t with
  | nil => rfl
  | cons e rest ih => exact (ih _).trans (t.kind_taking _ _)

theorem kind_translate : (b.translate g texts).kind = g := kind_foldl_taking _

theorem carried?_cons (p : Property) (e : String × String) :
    b.carried? p (e :: texts) = (b.carried? p texts).or (b.reads? p e) := by
  unfold carried?
  cases read : b.reads? p e with
  | none => simp [read]
  | some d =>
    rw [List.filterMap_cons_some read, List.getLast?_cons]
    cases (texts.filterMap (b.reads? p)).getLast? <;> rfl

theorem indices_foldl_taking {t : BlockState} (names : (t.kind.properties.map Property.name).Nodup)
    {i : Nat} {p : Property} (here : t.kind.properties[i]? = some p) :
    (texts.foldl (fun t e => t.taking (b.globalProperty e.1) e.2) t).indices[i]? =
      (b.carried? p texts).or t.indices[i]? := by
  induction texts generalizing t with
  | nil => rfl
  | cons e rest ih =>
    have kind := t.kind_taking (b.globalProperty e.1) e.2
    have step := BlockState.indices_taking names here (b.globalProperty e.1) e.2
    rw [← kind] at names here
    rw [List.foldl_cons, ih names here, step, carried?_cons, Option.or_assoc]
    rfl

theorem indices_translate (names : (g.properties.map Property.name).Nodup) {i : Nat} {p : Property}
    (here : g.properties[i]? = some p) : (b.translate g texts).indices[i]? =
      (b.carried? p texts).or g.defaultState.indices[i]? :=
  indices_foldl_taking (t := g.defaultState) names here

end BlockDescription

namespace Version

/-! ### Links -/

variable {b : BlockDescription} {k g : BlockKind}

theorem take_eq_taking {t : BlockState} (kind : t.kind = g) (name text : String) :
    (match g.place? name with
      | none => t
      | some place => (t.withText (g.properties.get place).name text).toOption.getD t) =
      t.taking name text := by
  subst kind
  cases found : t.kind.place? name with
  | some place =>
    dsimp only
    rw [name_of_findFinIdx? found]
    rfl
  | none =>
    have refused : t.withText name text =
        .error (.invalidValue (.property (.noSuchProperty t.kind.name name))) := by
      rw [BlockState.withText, BlockKind.place, found]
      rfl
    rw [BlockState.taking, refused]
    rfl

theorem zip_places (s : BlockState) (kind : s.kind = k) :
    (k.properties.map fun p => g.place? (b.globalProperty p.name)).zip s.encoded =
      s.encoded.map fun e => (g.place? (b.globalProperty e.1), e) := by
  have places : (k.properties.map fun p => g.place? (b.globalProperty p.name)) =
      s.encoded.map fun e => g.place? (b.globalProperty e.1) := by
    have names := congrArg (List.map fun name => g.place? (b.globalProperty name)) s.map_fst_encoded
    rw [List.map_map, List.map_map, kind] at names
    exact names.symm
  have zipped := @List.zip_map' _ _ _ (fun e => g.place? (b.globalProperty e.1)) id s.encoded
  rw [List.map_id] at zipped
  rw [places, zipped]
  rfl

theorem image_eq_translate (s : BlockState) (kind : s.kind = k) :
    image g (k.properties.map fun p => g.place? (b.globalProperty p.name)) s.encoded =
      b.translate g s.encoded := by
  unfold image BlockDescription.translate
  rw [zip_places s kind, List.foldl_map]
  have same : ∀ (texts : List (String × String)) (t : BlockState), t.kind = g →
      texts.foldl (fun t e => match g.place? (b.globalProperty e.1) with
        | none => t
        | some place => (t.withText (g.properties.get place).name e.2).toOption.getD t) t =
      texts.foldl (fun t e => t.taking (b.globalProperty e.1) e.2) t := by
    intro texts
    induction texts with
    | nil => intro t _; rfl
    | cons e rest ih =>
      intro t kind
      rw [List.foldl_cons, List.foldl_cons, take_eq_taking kind]
      exact ih _ ((t.kind_taking _ _).trans kind)
  exact same s.encoded g.defaultState rfl

/-- What a state of a version becomes, if its block has a global kind. -/
def counterpart? (global : Index) (blocks : OrderedMap Name BlockDescription) (s : BlockState) :
    Option BlockState :=
  let b := (blocks.find? s.name).getD default
  (global.kind (b.globalName s.name)).toOption.map fun g => b.translate g s.encoded

def images (global : Index) (blocks : OrderedMap Name BlockDescription) (states : List BlockState) :
    List (BlockState × StateId) :=
  states.filterMap fun s => (counterpart? global blocks s).map fun t => (s, t.runtimeId)

theorem mem_images {global : Index} {blocks : OrderedMap Name BlockDescription}
    {states : List BlockState} {e : BlockState × StateId} : e ∈ images global blocks states ↔
      e.1 ∈ states ∧ (counterpart? global blocks e.1).map BlockState.runtimeId = some e.2 := by
  unfold images
  rw [List.mem_filterMap]
  constructor
  · intro h
    obtain ⟨s, member, found⟩ := h
    obtain ⟨t, here, rfl⟩ := Option.map_eq_some_iff.mp found
    exact ⟨member, by rw [here]; rfl⟩
  · intro h
    obtain ⟨t, here, same⟩ := Option.map_eq_some_iff.mp h.2
    refine ⟨e.1, h.1, ?_⟩
    rw [here, Option.map_some, same]

theorem links_eq (global : Index) (blocks : OrderedMap Name BlockDescription)
    (kinds : List BlockKind) : (links global blocks kinds).result =
      .ok (kinds.filterMap fun k => link? global ((blocks.find? k.name).getD default) k) := by
  induction kinds with
  | nil => rfl
  | cons k rest ih =>
    unfold links
    dsimp only
    rw [List.filterMap_cons]
    cases link? global ((blocks.find? k.name).getD default) k with
    | some l =>
      simp only [Report.result_bind, ih, Outcome.ok_bind]
      rfl
    | none => simp only [Report.result_bind, Report.result_log, ih, Outcome.ok_bind]

theorem images_of_kind (global : Index) (blocks : OrderedMap Name BlockDescription) (k : BlockKind) :
    images global blocks k.states =
      ((link? global ((blocks.find? k.name).getD default) k).map Link.images).getD [] := by
  have named : ∀ s ∈ k.states, s.name = k.name := by
    intro s member
    exact congrArg BlockKind.name (BlockKind.mem_states.mp member)
  unfold images link?
  cases found : global.kind (((blocks.find? k.name).getD default).globalName k.name) with
  | error e =>
    rw [List.filterMap_eq_nil_iff.mpr]
    · rfl
    · intro s member
      rw [counterpart?, named s member, found]
      rfl
  | ok g =>
    show _ = k.states.map _
    rw [← List.filterMap_eq_map]
    refine List.filterMap_congr fun s member => ?_
    have same := image_eq_translate (b := (blocks.find? k.name).getD default) (g := g) s
      (BlockKind.mem_states.mp member)
    rw [counterpart?, named s member, found]
    exact congrArg (fun t => some (s, t.runtimeId)) same.symm

theorem flatMap_images (global : Index) (blocks : OrderedMap Name BlockDescription)
    (kinds : List BlockKind) :
    (kinds.filterMap fun k => link? global ((blocks.find? k.name).getD default) k).flatMap
      Link.images = images global blocks (kinds.flatMap BlockKind.states) := by
  induction kinds with
  | nil => rfl
  | cons k rest ih =>
    have here := images_of_kind global blocks k
    unfold images at ih here ⊢
    rw [List.flatMap_cons, List.filterMap_append, here, ← ih]
    rw [List.filterMap_cons]
    cases link? global ((blocks.find? k.name).getD default) k with
    | some l => rfl
    | none => rfl

/-! ### The two tables -/

/-- The first default state, or else the first state. -/
def preferred (states : List BlockState) : Option BlockState :=
  (states.find? BlockState.isDefault).or states.head?

theorem foldl_prefer_some (t : BlockState) (states : List BlockState) :
    states.foldl prefer (some t) =
      if t.isDefault then some t else (states.find? BlockState.isDefault).or (some t) := by
  induction states generalizing t with
  | nil => simp
  | cons s rest ih =>
    rw [List.foldl_cons, prefer]
    cases here : t.isDefault <;> cases next : s.isDefault <;>
      simp [ih, here, next]

theorem foldl_prefer (states : List BlockState) : states.foldl prefer none = preferred states := by
  cases states with
  | nil => rfl
  | cons s rest =>
    rw [List.foldl_cons, prefer, foldl_prefer_some, preferred, List.head?_cons, List.find?_cons]
    cases s.isDefault <;> rfl

theorem setItems_spec (images : List (BlockState × StateId)) (a : Array StateId)
    (low : ∀ e ∈ images, e.1.runtimeId.toNat < a.size)
    (distinct : (images.map fun e => e.1.runtimeId).Nodup) :
    ∃ out, (images.foldlM (fun a e =>
      (liftM (setItem a e.1.runtimeId.toNat e.2) : Report (Array StateId))) a).result = .ok out ∧
      (∀ e ∈ images, out[e.1.runtimeId.toNat]? = some e.2) ∧
      ∀ n, (∀ e ∈ images, e.1.runtimeId.toNat ≠ n) → out[n]? = a[n]? := by
  induction images generalizing a with
  | nil => exact ⟨a, rfl, fun _ member => absurd member List.not_mem_nil, fun _ _ => rfl⟩
  | cons e rest ih =>
    obtain ⟨here, later⟩ := List.forall_mem_cons.mp low
    rw [List.map_cons, List.nodup_cons] at distinct
    have fits : ∀ f ∈ rest, f.1.runtimeId.toNat < (a.set e.1.runtimeId.toNat e.2 here).size := by
      intro f member
      rw [Array.size_set]
      exact later f member
    obtain ⟨out, run, stored, others⟩ := ih _ fits distinct.2
    refine ⟨out, ?_, List.forall_mem_cons.mpr ⟨?_, stored⟩, fun n apart => ?_⟩
    · rw [List.foldlM_cons, Report.result_bind, Report.result_lift, setItem, dif_pos here,
        Outcome.ok_bind]
      exact run
    · rw [others, Array.getElem?_set_self]
      intro f member same
      apply distinct.1
      rw [← UInt32.toNat_inj.mp same]
      exact List.mem_map_of_mem (f := fun e => e.1.runtimeId) member
    · obtain ⟨first, apart⟩ := List.forall_mem_cons.mp apart
      rw [others n apart, Array.getElem?_set_ne here first]

theorem getElem?_foldl_prefer (images : List (BlockState × StateId)) (a : Array (Option BlockState))
    (n : Nat) : (images.foldl (fun a e => a.modify e.2.toNat (prefer · e.1)) a)[n]? =
      a[n]?.map fun slot =>
        ((images.filter fun e => e.2.toNat = n).map Prod.fst).foldl prefer slot := by
  induction images generalizing a with
  | nil => simp
  | cons e rest ih =>
    rw [List.foldl_cons, ih, Array.getElem?_modify, List.filter_cons]
    by_cases here : e.2.toNat = n
    · simp only [here, if_true, decide_true, Option.map_map, List.map_cons, List.foldl_cons]
      rfl
    · simp only [here, if_false, decide_false, Bool.false_eq_true]

theorem getElem?_inward (images : List (BlockState × StateId)) (limit n : Nat) (air : StateId) :
    ((images.foldl (fun a e => a.modify e.2.toNat (prefer · e.1)) (Array.replicate limit none)).map
      fun s => (s.map BlockState.runtimeId).getD air)[n]? =
      if n < limit then some (((preferred ((images.filter fun e => e.2.toNat = n).map Prod.fst)).map
        BlockState.runtimeId).getD air) else none := by
  rw [Array.getElem?_map, getElem?_foldl_prefer, Array.getElem?_replicate]
  split
  · simp only [Option.map_some, foldl_prefer]
  · rfl

end Version

/-- Where the tables of a bridge lead: there, from each state to what it becomes, and back, to the
preferred one of the states that become a number below a limit. -/
structure Bridge.Leads (b : Bridge) (images : List (BlockState × StateId)) (limit : Nat) : Prop where
  toGlobal : ∀ e ∈ images, b.toGlobal e.1.runtimeId = e.2
  toGlobal_other : ∀ k, (∀ e ∈ images, e.1.runtimeId ≠ k) → b.toGlobal k = 0
  fromGlobal : ∀ g : StateId, g.toNat < limit → b.fromGlobal g =
    ((Version.preferred ((images.filter fun e => e.2 = g).map Prod.fst)).map
      BlockState.runtimeId).getD b.air
  fromGlobal_other : ∀ g : StateId, limit ≤ g.toNat → b.fromGlobal g = b.air

namespace Version

theorem map_fst_images (global : Index) (blocks : OrderedMap Name BlockDescription)
    (states : List BlockState) : (images global blocks states).map Prod.fst =
      states.filter fun s => (counterpart? global blocks s).isSome := by
  unfold images
  rw [List.map_filterMap, ← List.filterMap_eq_filter]
  refine List.filterMap_congr fun s _ => ?_
  cases found : counterpart? global blocks s <;> simp [Option.guard, found]

theorem bridge_global {x : Index} {air : StateId} {blocks : OrderedMap Name BlockDescription}
    {global : Registry} {b : Bridge} (bridged : (bridge x air blocks global).result = .ok b) :
    b.global = global.id := by
  unfold bridge at bridged
  simp only [Report.result_bind] at bridged
  obtain ⟨_, _, bridged⟩ := Outcome.bind_ok bridged
  obtain ⟨_, _, bridged⟩ := Outcome.bind_ok bridged
  cases bridged
  rfl

/-- Registered states always have a bridge. -/
theorem bridge_spec {x : Index} (faithful : x.Faithful) (air : StateId)
    (blocks : OrderedMap Name BlockDescription) (global : Registry) :
    ∃ b, (bridge x air blocks global).result = .ok b ∧ b.air = air ∧
      b.Leads (images global.index blocks x.states) global.index.limit := by
  have run := links_eq global.index blocks x.kinds.toList
  have all := flatMap_images global.index blocks x.kinds.toList
  have states := map_fst_images global.index blocks x.states
  have low : ∀ e ∈ images global.index blocks x.states,
      e.1.runtimeId.toNat < (Array.replicate x.limit (0 : StateId)).size := by
    intro e member
    have inside : e.1 ∈ x.states := by
      apply List.mem_of_mem_filter
      rw [← states]
      exact List.mem_map_of_mem member
    rw [Array.size_replicate]
    exact Index.lt_limit_of_hasRuntimeId
      ((Index.hasRuntimeId_eq_true faithful).mpr ⟨e.1, inside, rfl⟩)
  have distinct : ((images global.index blocks x.states).map fun e => e.1.runtimeId).Nodup := by
    have same := congrArg (List.map BlockState.runtimeId) states
    rw [List.map_map] at same
    refine same ▸ faithful.distinct.sublist ?_
    exact List.filter_sublist.map _
  obtain ⟨outward, filled, stored, others⟩ := setItems_spec _ _ low distinct
  refine ⟨⟨global.id, outward, ((images global.index blocks x.states).foldl
    (fun a e => a.modify e.2.toNat (prefer · e.1)) (Array.replicate global.index.limit none)).map
      fun s => (s.map BlockState.runtimeId).getD air, air⟩, ?_, rfl, ⟨?_, ?_, ?_, ?_⟩⟩
  · rw [show x.kinds.toList.flatMap BlockKind.states = x.states from rfl] at all
    unfold bridge
    simp only [Report.result_bind, run, Outcome.ok_bind]
    rw [all, filled]
    rfl
  · intro e member
    rw [Bridge.toGlobal, stored e member]
    rfl
  · intro k apart
    rw [Bridge.toGlobal, others k.toNat fun e member same => apart e member (UInt32.toNat_inj.mp same),
      Array.getElem?_replicate]
    split <;> rfl
  · intro g below
    rw [Bridge.fromGlobal, getElem?_inward, if_pos below]
    simp only [UInt32.toNat_inj]
    rfl
  · intro g above
    rw [Bridge.fromGlobal, getElem?_inward, if_neg (Nat.not_lt.mpr above)]
    rfl

end Version
end Voxel
