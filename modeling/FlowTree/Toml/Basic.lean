import FlowTree.Json.Basic
import FlowTree.Toml.Moment

/-!
# Configuration values

The values of a configuration text. As free-form values, moments are texts and doubles that are not
finite are null.
-/

namespace FlowTree

inductive Toml
  | str (s : String)
  | int (n : Int)
  | float (x : Float)
  | bool (b : Bool)
  | moment (m : Toml.Moment)
  | arr (items : List Toml)
  | table (entries : List (String × Toml))

namespace Toml

mutual

/-- The free-form value in which moments are what `ofMoment` makes of them. -/
def toJsonWith (ofMoment : Moment → Json) : Toml → Json
  | str s => .str s
  | int n => .int n
  | float x => .stored x
  | bool b => .bool b
  | moment m => ofMoment m
  | arr items => .arr (itemsWith ofMoment items)
  | table entries => .obj (Fields.ofList (entriesWith ofMoment entries))

def itemsWith (ofMoment : Moment → Json) : List Toml → List Json
  | [] => []
  | v :: vs => toJsonWith ofMoment v :: itemsWith ofMoment vs

def entriesWith (ofMoment : Moment → Json) : List (String × Toml) → List (String × Json)
  | [] => []
  | (k, v) :: es => (k, toJsonWith ofMoment v) :: entriesWith ofMoment es

end

def toJson : Toml → Json :=
  toJsonWith fun m => .str m.text

end Toml

end FlowTree
