import Voxel.Error
import Voxel.Text.Letters
/-!
Properties of blocks: named axes of variation, each with a finite ordered domain and a default. A
domain is boolean, an integer range, or a choice among texts that differ by more than case. Every
value has an index in its domain and a text.
-/
namespace Voxel

/-- The kind of thing a choice is made among. Two choices are of one sort if their families are. -/
inductive Family
  | text | axis | direction | blockFace | buttonType | doorType | fenceType | hingeSide | leafType
  | slabPart | slabType | stairShape | stoneType | plateWeight | woodType
  deriving DecidableEq, Inhabited, Repr

/-- The integers from `min` to `max`, with one of them as default. -/
structure IntRange where
  min : Int32
  max : Int32
  default : Int32
  min_lt_max : min < max
  min_le_default : min ≤ default
  default_le_max : default ≤ max
  deriving DecidableEq

/-- Texts to choose from, distinct without regard to case, with the index of the default. -/
structure Choices where
  family : Family
  values : List String
  default : Nat
  distinct : (values.map Text.fold).Nodup
  default_lt : default < values.length
  deriving DecidableEq

/-- What values a property takes. -/
inductive Domain
  | bool (default : Bool)
  | int (range : IntRange)
  | choice (choices : Choices)
  deriving DecidableEq

inductive ValueSort
  | bool
  | int
  | choice (family : Family)
  deriving DecidableEq, Inhabited, Repr

inductive Value
  | bool (b : Bool)
  | int (i : Int32)
  | choice (family : Family) (text : String)
  deriving DecidableEq, Inhabited, Repr

def Value.sort : Value → ValueSort
  | bool _ => .bool
  | int _ => .int
  | choice family _ => .choice family

def Value.text : Value → String
  | bool b => if b then "true" else "false"
  | int i => Text.int32 i
  | choice _ s => s

namespace IntRange

def size (r : IntRange) : Nat := (r.max.toInt - r.min.toInt + 1).toNat

end IntRange

namespace Domain

def sort : Domain → ValueSort
  | bool _ => .bool
  | int _ => .int
  | choice c => .choice c.family

def size : Domain → Nat
  | bool _ => 2
  | int r => r.size
  | choice c => c.values.length

def defaultValue : Domain → Value
  | bool b => .bool b
  | int r => .int r.default
  | choice c => .choice c.family (c.values.get ⟨c.default, c.default_lt⟩)

def valueAt? : Domain → Nat → Option Value
  | bool _, 0 => some (.bool false)
  | bool _, 1 => some (.bool true)
  | bool _, _ => none
  | int r, i => if i < r.size then some (.int (Int32.ofInt (r.min.toInt + i))) else none
  | choice c, i => c.values[i]?.map (.choice c.family)

def indexOf? : Domain → Value → Option Nat
  | bool _, .bool b => some b.toNat
  | int r, .int i => if i < r.min ∨ r.max < i then none else some (i.toInt - r.min.toInt).toNat
  | choice c, .choice f s =>
    if f = c.family ∧ s ∈ c.values then some (c.values.idxOf s) else none
  | _, _ => none

end Domain

/-- A named axis of variation. -/
structure Property where
  name : String
  domain : Domain
  deriving DecidableEq

namespace Property

def bool (name : String) (default : Bool) : Property := ⟨name, .bool default⟩

/-- An integer property from `min` to `max`, which have to differ, around its default. -/
def int (name : String) (min max default : Int32) : Except BlockError Property :=
  if h : min < max then
    if h' : min ≤ default ∧ default ≤ max then
      .ok ⟨name, .int ⟨min, max, default, h, h'.1, h'.2⟩⟩
    else .error (.construction (.property (.defaultOutOfRange name default min max)))
  else .error (.construction (.property (.emptyRange name min max)))

/-- The first text that repeats an earlier one without regard to case. -/
def firstRepeat? (seen : List (List Char)) : List String → Option String
  | [] => none
  | s :: rest =>
    if seen.contains (Text.fold s) then some s else firstRepeat? (Text.fold s :: seen) rest

/-- A choice among texts. The default, if it is not given, is the first of them. -/
def choice (family : Family) (name : String) (values : List String) (default : Option String) :
    Except BlockError Property :=
  let refuse (d : PropertyDefect) := Except.error (BlockError.construction (.property d))
  match values with
  | [] => refuse (.noValues name)
  | first :: _ =>
    if distinct : (values.map Text.fold).Nodup then
      let chosen := default.getD first
      if default_lt : values.idxOf chosen < values.length then
        .ok ⟨name, .choice ⟨family, values, values.idxOf chosen, distinct, default_lt⟩⟩
      else refuse (.foreignDefault name chosen)
    else refuse (.repeatedValue name ((firstRepeat? [] values).getD first))

def size (p : Property) : Nat := p.domain.size

def sort (p : Property) : ValueSort := p.domain.sort

def defaultValue (p : Property) : Value := p.domain.defaultValue

def valueAt? (p : Property) (i : Nat) : Option Value := p.domain.valueAt? i

def indexOf (p : Property) (v : Value) : Except BlockError Nat :=
  match p.domain.indexOf? v with
  | some i => .ok i
  | none =>
    match p.domain, v with
    | .int r, .int i =>
      .error (.invalidValue (.property (.outOfRange p.name i r.min r.max)))
    | _, _ => .error (.invalidValue (.property (.notAValue p.name v.text)))

def isValid (p : Property) (v : Value) : Bool := (p.domain.indexOf? v).isSome

def defaultIndex (p : Property) : Nat := (p.domain.indexOf? p.defaultValue).getD 0

/-- Reads a value. Booleans and choices ignore case; integers have one text each. -/
def decode (p : Property) (s : String) : Except BlockError Value :=
  match p.domain with
  | .bool _ =>
    if Text.sameLetters s "true" then .ok (.bool true)
    else if Text.sameLetters s "false" then .ok (.bool false)
    else .error (.invalidValue (.property (.notBoolean p.name s)))
  | .int r =>
    match Text.readInt32? s with
    | none => .error (.invalidValue (.property (.notInteger p.name s)))
    | some i =>
      if i < r.min ∨ r.max < i then
        .error (.invalidValue (.property (.outOfRange p.name i r.min r.max)))
      else .ok (.int i)
  | .choice c =>
    match c.values.find? (Text.sameLetters · s) with
    | some v => .ok (.choice c.family v)
    | none => .error (.invalidValue (.property (.undecodable p.name s)))

def encodeIndex? (p : Property) (i : Nat) : Option String := (p.valueAt? i).map Value.text

def decodeIndex (p : Property) (s : String) : Except BlockError Nat := do
  let v ← p.decode s
  p.indexOf v

def text (p : Property) : String :=
  let values := (List.range p.size).map fun i => (p.encodeIndex? i).getD ""
  p.name ++ "\x7b" ++ ",".intercalate values ++ "\x7d"

end Property
end Voxel
