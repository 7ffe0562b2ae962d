import Voxel.Property.Basic
/-!
The families of named values, and the standard properties that the standard block kinds share.
-/
namespace Voxel

/-- The values of a family in their usual order; plain text has none of its own. -/
def Family.values : Family → List String
  | text => []
  | axis =>
    ["x", "y", "z"]
  | direction =>
    ["down", "up", "north", "south", "west", "east"]
  | blockFace =>
    ["floor", "wall", "ceiling"]
  | buttonType =>
    ["oak", "spruce", "birch", "jungle", "acacia", "dark_oak", "crimson", "warped", "stone",
     "polished_blackstone"]
  | doorType =>
    ["oak", "spruce", "birch", "jungle", "acacia", "dark_oak", "crimson", "warped", "iron"]
  | fenceType =>
    ["oak", "spruce", "birch", "jungle", "acacia", "dark_oak", "crimson", "warped",
     "nether_brick"]
  | hingeSide =>
    ["left", "right"]
  | leafType =>
    ["oak", "spruce", "birch", "jungle", "acacia", "dark_oak"]
  | slabPart =>
    ["bottom", "top", "double"]
  | slabType =>
    ["acacia", "andesite", "birch", "blackstone", "brick", "cobblestone", "crimson",
     "cut_red_sandstone", "cut_sandstone", "dark_oak", "dark_prismarine", "diorite", "end_stone",
     "granite", "jungle", "mossy_cobblestone", "mossy_stone_brick", "nether_brick", "oak",
     "petrified_oak", "polished_andesite", "polished_blackstone", "polished_blackstone_brick",
     "polished_diorite", "polished_granite", "prismarine", "prismarine_brick", "purpur",
     "quartz", "red_nether_brick", "red_sandstone", "sandstone", "smooth_quartz",
     "smooth_red_sandstone", "smooth_sandstone", "smooth_stone", "spruce", "stone",
     "stone_brick", "warped"]
  | stairShape =>
    ["straight", "inner_left", "inner_right", "outer_left", "outer_right"]
  | stoneType =>
    ["stone", "granite", "polished_granite", "diorite", "polished_diorite", "andesite",
     "polished_andesite"]
  | plateWeight =>
    ["light", "heavy"]
  | woodType =>
    ["oak", "spruce", "birch", "jungle", "acacia", "dark_oak", "crimson", "warped"]

namespace Standard

/-- A property over a whole family. -/
def whole (name : String) (family : Family) (default : Nat)
    (distinct : (family.values.map Text.fold).Nodup) (default_lt : default < family.values.length) :
    Property :=
  ⟨name, .choice ⟨family, family.values, default, distinct, default_lt⟩⟩

def north : Property := .bool "north" false

def south : Property := .bool "south" false

def east : Property := .bool "east" false

def west : Property := .bool "west" false

def axis : Property := whole "axis" .axis 1 (by decide) (by decide)

def direction : Property := whole "direction" .direction 0 (by decide) (by decide)

def face : Property := whole "face" .blockFace 0 (by decide) (by decide)

def facing : Property :=
  ⟨"facing", .choice ⟨.direction, ["north", "east", "south", "west"], 0, by decide, by decide⟩⟩

def rotation : Property := ⟨"rotation", .int ⟨0, 15, 0, by decide, by decide, by decide⟩⟩

def buttonType : Property := whole "button_type" .buttonType 0 (by decide) (by decide)

/-- The distance from the nearest log, by which leaves decay. -/
def distance : Property := ⟨"distance", .int ⟨1, 7, 1, by decide, by decide, by decide⟩⟩

def doorType : Property := whole "door_type" .doorType 0 (by decide) (by decide)

def fenceType : Property := whole "fence_type" .fenceType 0 (by decide) (by decide)

def hingeSide : Property := whole "hinge_side" .hingeSide 0 (by decide) (by decide)

/-- Whether a gate is lowered to fit a wall. -/
def inWall : Property := .bool "in_wall" false

def leafType : Property := whole "leaf_type" .leafType 0 (by decide) (by decide)

def isOpen : Property := .bool "open" false

def persistent : Property := .bool "persistent" false

def power : Property := ⟨"power", .int ⟨0, 15, 0, by decide, by decide, by decide⟩⟩

def powered : Property := .bool "powered" false

def pressed : Property := .bool "pressed" false

def saplingStage : Property := ⟨"sapling_stage", .int ⟨0, 1, 0, by decide, by decide, by decide⟩⟩

def slabPart : Property := whole "slab_part" .slabPart 0 (by decide) (by decide)

def slabType : Property := whole "slab_type" .slabType 35 (by decide) (by decide)

def snowy : Property := .bool "snowy" false

def stairShape : Property := whole "stair_shape" .stairShape 0 (by decide) (by decide)

def stoneType : Property := whole "stone_type" .stoneType 0 (by decide) (by decide)

/-- Whether this is the upper half of a block two cells tall. -/
def top : Property := .bool "top" false

def upsideDown : Property := .bool "upside_down" false

def waterFalling : Property := .bool "water_falling" false

/-- The level of a fluid, 0 at its source. -/
def waterLevel : Property := ⟨"water_level", .int ⟨0, 7, 0, by decide, by decide, by decide⟩⟩

def weightedPressurePlateType : Property :=
  whole "weighted_pressure_plate_type" .plateWeight 0 (by decide) (by decide)

def woodType : Property := whole "wood_type" .woodType 0 (by decide) (by decide)

def all : List Property :=
  [north, south, east, west, axis, direction, face, facing, rotation, buttonType, distance,
   doorType, fenceType, hingeSide, inWall, leafType, isOpen, persistent, power, powered,
   pressed, saplingStage, slabPart, slabType, snowy, stairShape, stoneType, top, upsideDown,
   waterFalling, waterLevel, weightedPressurePlateType, woodType]

def find? (name : String) : Option Property := all.find? (·.name = name)

end Standard
end Voxel
