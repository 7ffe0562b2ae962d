import Mathlib.Data.List.Perm.Subperm
import Mathlib.Logic.Relation
import Voxel.Version.Catalog

/-!
# Aliases of versions

`Catalog.follow` takes one step more than there are aliases and keeps no record of where it was. That is
enough (`circles_of_follow`): the versions it went through are aliased, so while they differ they are no
more than the aliases, and as soon as they repeat there is a circle. It is never too much, since a version
that leads to a circle has no end (`follow_of_circles`). `resolve_exact` is what a catalog makes of it.
-/

namespace Voxel.Catalog

open Relation

def Links (aliases : OrderedMap String String) (version target : String) : Prop :=
  aliases.find? version = some target

/-- From a version the aliases lead to one that leads back to itself. -/
def Circles (aliases : OrderedMap String String) (version : String) : Prop :=
  ∃ turn, ReflTransGen (Links aliases) version turn ∧ TransGen (Links aliases) turn turn

section

variable {aliases : OrderedMap String String} {version target : String}

theorem links_unique : Relator.RightUnique (Links aliases) := fun _ _ _ left right =>
  Option.some.inj (left.symm.trans right)

theorem Links.aliased (link : Links aliases version target) : version ∈ aliases.keys :=
  OrderedMap.contains_eq_true_iff.mp (Option.isSome_of_eq_some link)

theorem follow_last (last : aliases.find? version = none) (steps : Nat) :
    follow aliases (steps + 1) version = some version := by
  rw [follow, last]

theorem follow_link (link : Links aliases version target) (steps : Nat) :
    follow aliases (steps + 1) version = follow aliases steps target := by
  rw [follow, link]

/-! ### Where the aliases end -/

theorem reach_of_follow {steps : Nat} {found : String} (there : follow aliases steps version = some found) :
    ReflTransGen (Links aliases) version found ∧ aliases.find? found = none := by
  induction steps generalizing version with
  | zero => cases there
  | succ steps ih =>
    cases next : aliases.find? version with
    | none =>
      rw [follow_last next] at there
      cases there
      exact ⟨.refl, next⟩
    | some target =>
      rw [follow_link next] at there
      exact ⟨.head next (ih there).1, (ih there).2⟩

theorem end_unique {one other : String} (left : ReflTransGen (Links aliases) version one)
    (last : aliases.find? one = none) (right : ReflTransGen (Links aliases) version other)
    (lastToo : aliases.find? other = none) : one = other := by
  have stays {a b : String} (reach : ReflTransGen (Links aliases) a b) (stop : aliases.find? a = none) :
      a = b := by
    obtain rfl | ⟨_, link, _⟩ := reach.cases_head
    · rfl
    · cases stop.symm.trans link
  obtain reach | reach := ReflTransGen.total_of_right_unique links_unique left right
  · exact stays reach last
  · exact (stays reach lastToo).symm

/-! ### Circles -/

theorem Circles.link (circles : Circles aliases version) :
    ∃ target, Links aliases version target ∧ Circles aliases target := by
  obtain ⟨turn, reach, back⟩ := circles
  obtain rfl | ⟨target, link, rest⟩ := reach.cases_head
  · obtain ⟨target, link, rest⟩ := TransGen.head'_iff.mp back
    exact ⟨target, link, version, rest, back⟩
  · exact ⟨target, link, turn, rest, back⟩

theorem Circles.of_reach (circles : Circles aliases version)
    (reach : ReflTransGen (Links aliases) version target) : Circles aliases target := by
  induction reach with
  | refl => exact circles
  | tail _ link ih =>
    obtain ⟨next, there, onward⟩ := ih.link
    exact links_unique there link ▸ onward

theorem follow_of_circles (circles : Circles aliases version) (steps : Nat) :
    follow aliases steps version = none := by
  induction steps generalizing version with
  | zero => rfl
  | succ steps ih =>
    obtain ⟨target, link, onward⟩ := circles.link
    rw [follow_link link, ih onward]

/-- Versions that were gone through are aliased. When the steps run out after more of them than there are
aliases, one of them came twice. -/
theorem circles_of_follow {steps : Nat} {seen : List String} (nodup : seen.Nodup)
    (aliased : seen ⊆ aliases.keys) (behind : ∀ u ∈ seen, TransGen (Links aliases) u version)
    (enough : aliases.size < seen.length + steps) (lost : follow aliases steps version = none) :
    Circles aliases version := by
  induction steps generalizing version seen with
  | zero =>
    have few : seen.length ≤ aliases.keys.length := (nodup.subperm aliased).length_le
    rw [OrderedMap.keys, List.length_map] at few
    rw [OrderedMap.size, Nat.add_zero] at enough
    exact absurd few (Nat.not_le_of_lt enough)
  | succ steps ih =>
    by_cases again : version ∈ seen
    · exact ⟨version, .refl, behind version again⟩
    cases next : aliases.find? version with
    | none =>
      rw [follow_last next] at lost
      cases lost
    | some target =>
      have link : Links aliases version target := next
      rw [follow_link link] at lost
      have behindToo : ∀ u ∈ version :: seen, TransGen (Links aliases) u target := by
        intro u member
        cases member with
        | head => exact .single link
        | tail _ earlier => exact (behind u earlier).tail link
      obtain ⟨turn, reach, back⟩ := ih (List.nodup_cons.mpr ⟨again, nodup⟩)
        (List.cons_subset.mpr ⟨link.aliased, aliased⟩) behindToo
        (by rw [List.length_cons]; omega) lost
      exact ⟨turn, .head link reach, back⟩

theorem circles_iff : Circles aliases version ↔ follow aliases (aliases.size + 1) version = none :=
  ⟨fun circles => follow_of_circles circles _, circles_of_follow .nil (List.nil_subset _)
    (fun _ none => absurd none List.not_mem_nil) (by rw [List.length_nil]; omega)⟩

end

/-! ### Tables that agree -/

section

variable {left right : OrderedMap String String} {version : String}

/-- Two tables say the same of every version that the first leads to. -/
def Agree (left right : OrderedMap String String) (version : String) : Prop :=
  ∀ u, ReflTransGen (Links left) version u → right.find? u = left.find? u

theorem Agree.reach (agree : Agree left right version) {a b : String}
    (from_ : ReflTransGen (Links left) version a) (reach : ReflTransGen (Links left) a b) :
    ReflTransGen (Links right) a b := by
  induction reach with
  | refl => exact .refl
  | tail before link ih => exact ih.tail ((agree _ (from_.trans before)).trans link)

theorem Agree.circles (agree : Agree left right version) (circles : Circles left version) :
    Circles right version := by
  obtain ⟨turn, reach, back⟩ := circles
  obtain ⟨next, link, rest⟩ := TransGen.head'_iff.mp back
  exact ⟨turn, agree.reach .refl reach, .head' ((agree turn reach).trans link)
    (agree.reach (reach.tail link) rest)⟩

end

/-! ### Resolving -/

variable {c : Catalog} {version : String}

theorem resolve_eq_ok_iff {found : String} : c.resolve version = .ok found ↔
    ReflTransGen (Links c.aliases) version found ∧ c.aliases.find? found = none := by
  cases there : follow c.aliases (c.aliases.size + 1) version with
  | none =>
    rw [resolve, there]
    refine ⟨nofun, fun ⟨reach, last⟩ => ?_⟩
    obtain ⟨_, link, _⟩ := ((circles_iff.mpr there).of_reach reach).link
    cases last.symm.trans link
  | some t =>
    rw [resolve, there]
    obtain ⟨reach, last⟩ := reach_of_follow there
    refine ⟨fun same => Except.ok.inj same ▸ ⟨reach, last⟩, fun ⟨reachToo, lastToo⟩ => ?_⟩
    rw [end_unique reach last reachToo lastToo]

theorem resolve_eq_error_iff {e : BlockError} : c.resolve version = .error e ↔
    e = .invalidValue (.aliasCycle version) ∧ Circles c.aliases version := by
  rw [circles_iff, resolve]
  cases follow c.aliases (c.aliases.size + 1) version with
  | none => simp [eq_comm]
  | some t => simp

/-- What a version stands for: the end of its aliases, or nothing if they lead into a circle. -/
structure Resolves (c : Catalog) (version : String) : Prop where
  found : ∀ t, c.resolve version = .ok t ↔
    ReflTransGen (Links c.aliases) version t ∧ c.aliases.find? t = none
  refused : ∀ e, c.resolve version = .error e ↔
    e = .invalidValue (.aliasCycle version) ∧ Circles c.aliases version
  again : ∀ t, c.resolve version = .ok t → c.resolve t = .ok t
  elsewhere : ∀ d : Catalog, Agree c.aliases d.aliases version → d.resolve version = c.resolve version

/-- Every version of every catalog is resolved to the end of its aliases, however many there are, and it is
refused just when there is no end. Aliases that it does not lead to do not matter. -/
theorem resolve_exact (c : Catalog) (version : String) : c.Resolves version := by
  refine ⟨fun t => resolve_eq_ok_iff, fun e => resolve_eq_error_iff, fun t found => ?_, fun d agree => ?_⟩
  · exact resolve_eq_ok_iff.mpr ⟨.refl, (resolve_eq_ok_iff.mp found).2⟩
  · cases result : c.resolve version with
    | ok t =>
      obtain ⟨reach, last⟩ := resolve_eq_ok_iff.mp result
      exact resolve_eq_ok_iff.mpr ⟨agree.reach .refl reach, (agree t reach).trans last⟩
    | error e =>
      obtain ⟨rfl, circles⟩ := resolve_eq_error_iff.mp result
      exact resolve_eq_error_iff.mpr ⟨rfl, agree.circles circles⟩

-- a chain of all the aliases there are, and a version that is not on the circle it leads to
example : (((fresh 0 none).link "a" "b").link "b" "c").resolve "a" = .ok "c" := rfl
example : (((fresh 0 none).link "a" "b").link "b" "b").resolve "a" =
    .error (.invalidValue (.aliasCycle "a")) := rfl

end Voxel.Catalog
