import Voxel.Registry.Basic
import Voxel.Report
import Voxel.Version.Description
/-!
The bridge from a version to the global registry. A state becomes the state of the global kind
that takes the same texts for the properties of the same names, after renaming, wherever the
global property can read them. On the way back a default state goes before any other.
-/
namespace Voxel.Version

/-- A version's block kind with its global kind and, for each property, the place of the global
property that takes its value. -/
structure Link where
  kind : BlockKind
  global : BlockKind
  places : List (Option (Fin global.properties.length))

def link? (global : Index) (b : BlockDescription) (k : BlockKind) : Option Link :=
  match global.kind (b.globalName k.name) with
  | .error _ => none
  | .ok g => some ⟨k, g, k.properties.map fun p => g.place? (b.globalProperty p.name)⟩

/-- The global state that a state becomes. Texts that the global property cannot read leave its
default. -/
def image (global : BlockKind) (places : List (Option (Fin global.properties.length)))
    (texts : List (String × String)) : BlockState :=
  -- of several properties that become one, the last that can be read wins
  (places.zip texts).foldl (fun target (place, _, text) =>
    match place with
    | none => target
    | some place => (target.withText (global.properties.get place).name text).toOption.getD target)
    global.defaultState

/-- The states of a link's kind, each with the number of the global state it becomes. -/
def Link.images (l : Link) : List (BlockState × StateId) :=
  l.kind.states.map fun s => (s, (image l.global l.places s.encoded).runtimeId)

/-- The preferred state so far for the way back: the first default state, or else the first. -/
def prefer (old : Option BlockState) (s : BlockState) : Option BlockState :=
  match old with
  | none => some s
  | some t => if !t.isDefault && s.isDefault then some s else some t

def links (global : Index) (blocks : OrderedMap Name BlockDescription) :
    List BlockKind → Report (List Link)
  | [] => pure []
  | k :: rest => do
    let b := (blocks.find? k.name).getD default
    match link? global b k with
    | some l =>
      let others ← links global blocks rest
      return l :: others
    | none =>
      Report.log .warn
        s!"{k.name.text} has no global equivalent {(b.globalName k.name).text}, converting it to air"
      links global blocks rest

def bridge (index : Index) (air : StateId) (blocks : OrderedMap Name BlockDescription)
    (global : Registry) : Report Bridge := do
  let found ← links global.index blocks index.kinds.toList
  let images := found.flatMap Link.images
  let outward ← images.foldlM
    (fun a (s, g) => setItem a s.runtimeId.toNat g) (Array.replicate index.limit (0 : StateId))
  let inward := images.foldl
    (fun a (s, g) => a.modify g.toNat (prefer · s)) (Array.replicate global.index.limit none)
  return ⟨global.id, outward, inward.map fun s => (s.map BlockState.runtimeId).getD air, air⟩

end Voxel.Version
