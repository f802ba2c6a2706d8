import Parterre.Shape.Circle

/-! # Symbols and elements

The symbols of the garden grammar, and the elements that carry them: a symbol with its shape and
what else belongs to it.  Four symbols are nonterminal, that is, still to be expanded; the other
eight make up a finished garden. -/
namespace Parterre

inductive Symbol where
  | garden
  | area
  | pathSystem
  | flowerArea
  | grassRect
  | pathRect
  | treeCircle
  | waterCircle
  | waterRect
  | roseBed
  | tulipBed
  | fountain
  deriving DecidableEq, Inhabited

namespace Symbol

def all : List Symbol :=
  [garden, area, pathSystem, flowerArea, grassRect, pathRect, treeCircle, waterCircle, waterRect,
    roseBed, tulipBed, fountain]

/-- Whether productions still expand the symbol. -/
def isNonterminal : Symbol → Bool
  | garden | area | pathSystem | flowerArea => true
  | _ => false

/-- Whether the symbol stands for a piece of ground, at some stage of the derivation. -/
def isSector : Symbol → Bool
  | area | grassRect | flowerArea => true
  | _ => false

/-- The layer in which the symbol is drawn; lower ones first. -/
def drawLayer : Symbol → Nat
  | grassRect => 0
  | roseBed | tulipBed => 1
  | waterCircle | waterRect | fountain => 2
  | pathRect => 3
  | treeCircle => 5
  | garden | area | pathSystem | flowerArea => 9

def label : Symbol → String
  | garden => "GARDEN"
  | area => "AREA"
  | pathSystem => "PATH_SYSTEM"
  | flowerArea => "FLOWER_AREA"
  | grassRect => "GRASS_RECT"
  | pathRect => "PATH_RECT"
  | treeCircle => "TREE_CIRCLE"
  | waterCircle => "WATER_CIRCLE"
  | waterRect => "WATER_RECT"
  | roseBed => "ROSE_BED"
  | tulipBed => "TULIP_BED"
  | fountain => "FOUNTAIN"

def title : Symbol → String
  | garden => "Garden"
  | area => "Area"
  | pathSystem => "PathSystem"
  | flowerArea => "FlowerArea"
  | grassRect => "GrassRect"
  | pathRect => "PathRect"
  | treeCircle => "TreeCircle"
  | waterCircle => "WaterCircle"
  | waterRect => "WaterRect"
  | roseBed => "RoseBed"
  | tulipBed => "TulipBed"
  | fountain => "Fountain"

/-- The symbol with a given name in the grammar. -/
def ofLabel? (label : String) : Option Symbol := all.find? fun s => s.label == label

end Symbol

/-- A symbol with its shape.  An area knows how often it may still be cut, and the path system how
dense the paths are to be; both go when the element is expanded. -/
inductive Element where
  | garden (rect : Rect)
  | area (rect : Rect) (depth : Nat)
  | pathSystem (rect : Rect) (intensity : Nat)
  | flowerArea (rect : Rect)
  | grassRect (rect : Rect)
  | pathRect (rect : Rect)
  | treeCircle (circle : Circle)
  | waterCircle (circle : Circle)
  | waterRect (rect : Rect)
  | roseBed (rect : Rect)
  | tulipBed (rect : Rect)
  | fountain (circle : Circle)
  deriving DecidableEq, Inhabited

namespace Element

def symbol : Element → Symbol
  | garden _ => .garden
  | area _ _ => .area
  | pathSystem _ _ => .pathSystem
  | flowerArea _ => .flowerArea
  | grassRect _ => .grassRect
  | pathRect _ => .pathRect
  | treeCircle _ => .treeCircle
  | waterCircle _ => .waterCircle
  | waterRect _ => .waterRect
  | roseBed _ => .roseBed
  | tulipBed _ => .tulipBed
  | fountain _ => .fountain

def shape : Element → Shape
  | garden r | area r _ | pathSystem r _ | flowerArea r | grassRect r | pathRect r | waterRect r
  | roseBed r | tulipBed r => .rect r
  | treeCircle c | waterCircle c | fountain c => .circle c

def rect? (e : Element) : Option Rect :=
  match e.shape with
  | .rect r => some r
  | .circle _ => none

end Element
end Parterre
