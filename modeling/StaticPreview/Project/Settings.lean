import StaticPreview.Disk.Basic
import StaticPreview.Toml.Document

/-! # Project settings

Settings are read from the configuration file of a project; what it leaves out has a default, and
what it says beyond them is ignored. A section is a table, or an array of its settings in order.
-/
namespace StaticPreview

namespace Project

structure Settings where
  root : String
  src : String
  entry : Option String
  stylesheet : Option String
  minify : Bool
  output : String
  deriving DecidableEq, Repr

structure Place where
  root : String
  src : String
  entry : Option String
  deriving DecidableEq, Repr

structure Look where
  stylesheet : Option String
  minify : Bool
  deriving DecidableEq, Repr

def Place.default : Place := ⟨".", "src", none⟩

def Look.default : Look := ⟨none, true⟩

def defaultOutput : String := "dist"

def Settings.of (place : Place) (look : Look) (output : String) : Settings :=
  ⟨place.root, place.src, place.entry, look.stylesheet, look.minify, output⟩

def Settings.default : Settings := .of .default .default defaultOutput

open Toml

def text? : Toml.Value → Option String
  | .text s => some (.ofList s)
  | _ => none

def boolean? : Toml.Value → Option Bool
  | .boolean b => some b
  | _ => none

/-- What a value says about a section: its fields by name, or its settings in order. -/
inductive Section where
  | named (fields : Fields)
  | ordered (items : List Toml.Value)

/-- A date has no setting in it, but is taken for a section all the same. -/
def section? : Toml.Value → Option Section
  | .table _ fields => some (.named fields)
  | .inline fields => some (.named fields)
  | .moment => some (.named [])
  | .array items => some (.ordered items)
  | .tables rows => some (.ordered (rows.map .inline))
  | _ => none

def Section.setting {α : Type} (s : Section) (name : String) (position : Nat)
    (read : Toml.Value → Option α) (absent : Option α) : Option α :=
  let v :=
    match s with
    | .named fields => fields.lookup name.toList
    | .ordered items => items[position]?
  match v with
  | some v => read v
  | none => absent

/-- What stands in for a setting without a default: nothing, where settings have names. -/
def Section.missing {α : Type} : Section → Option (Option α)
  | .named _ => some none
  | .ordered _ => none

def Place.ofSection? (s : Section) : Option Place := do
  let root ← s.setting "root" 0 text? (some Place.default.root)
  let src ← s.setting "src" 1 text? (some Place.default.src)
  let entry ← s.setting "entry" 2 (fun v => (text? v).map some) s.missing
  return ⟨root, src, entry⟩

def Look.ofSection? (s : Section) : Option Look := do
  let stylesheet ← s.setting "stylesheet" 0 (fun v => (text? v).map some) s.missing
  let minify ← s.setting "minify" 1 boolean? (some Look.default.minify)
  return ⟨stylesheet, minify⟩

def outputOfSection? (s : Section) : Option String :=
  s.setting "output" 0 text? (some defaultOutput)

def sectionOr {α : Type} (fields : Fields) (name : String) (read : Section → Option α)
    (absent : α) : Option α :=
  match fields.lookup name.toList with
  | some v => section? v >>= read
  | none => some absent

namespace Settings

def ofFields? (fields : Fields) : Option Settings := do
  let place ← sectionOr fields "project" Place.ofSection? .default
  let look ← sectionOr fields "preview" Look.ofSection? .default
  let output ← sectionOr fields "build" outputOfSection? defaultOutput
  return .of place look output

def ofText? (s : String) : Option Settings :=
  Toml.read? s.toList >>= ofFields?

def sourceFolder (s : Settings) : RawText := Path.join s.root s.src

def stylesheetPath (s : Settings) : Option String :=
  s.stylesheet.map fun path => (Path.join s.root path).shown

def outputFolder (s : Settings) : RawText := Path.join s.root s.output

end Settings

inductive SettingsError where
  | unreadable (path : String)
  | malformed (path : String)
  deriving DecidableEq, Repr

def SettingsError.message : SettingsError → String
  | unreadable path => "Failed to read " ++ path
  | malformed path => "Failed to parse " ++ path

def Settings.load (d : Disk) (path : String) : Except SettingsError Settings :=
  if d.holds path then
    match d.read path with
    | .error _ => .error (.unreadable path)
    | .ok s =>
      match ofText? s with
      | some settings => .ok settings
      | none => .error (.malformed path)
  else .ok .default

end Project
end StaticPreview
