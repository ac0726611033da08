/-! # Values of a configuration file

A table remembers how it came to be, for that decides what may still be added to it.
-/
namespace StaticPreview.Toml

abbrev Key := List Char

/-- How a table came to be: by its own header, on the way to another header, or by a dotted key. -/
inductive Origin where
  | header
  | implied
  | dotted
  deriving DecidableEq, Repr

inductive Value where
  | text (s : List Char)
  | integer (n : Int)
  | float
  | boolean (b : Bool)
  | moment
  | array (items : List Value)
  | inline (fields : List (Key × Value))
  | table (origin : Origin) (fields : List (Key × Value))
  | tables (rows : List (List (Key × Value)))

abbrev Fields := List (Key × Value)

def setField (key : Key) (v : Value) : Fields → Fields
  | [] => [(key, v)]
  | (k, w) :: more => if k = key then (k, v) :: more else (k, w) :: setField key v more

/-- Changes the table that a path leads to, which begins at the table with the given origin and
fields. Tables on the way are made where there are none. By dotted keys one gets into no table
that has a header of its own. -/
def within (dotted : Bool) (change : Origin → Fields → Option Fields) :
    List Key → Origin → Fields → Option Fields
  | [], origin, fields => change origin fields
  | key :: path, _, fields =>
    match fields.lookup key with
    | none =>
      let origin := if dotted then Origin.dotted else .implied
      (within dotted change path origin []).map fun inner =>
        setField key (.table origin inner) fields
    | some (.table origin inner) =>
      if dotted && origin == .header then none
      else
        (within dotted change path origin inner).map fun inner' =>
          setField key (.table origin inner') fields
    | some (.tables rows) =>
      match rows.getLast? with
      | some row =>
        (within dotted change path .header row).map fun row' =>
          setField key (.tables (rows.dropLast ++ [row'])) fields
      | none => none
    | some _ => none

/-- Adds a field under a dotted key. The table that takes it is new to dotted keys or, where the
key has no dots, is the table at hand itself. -/
def addField (path : List Key) (key : Key) (v : Value) (origin : Origin) (fields : Fields) :
    Option Fields :=
  within true
    (fun inner row =>
      if (inner == .dotted) == path.isEmpty then none
      else if (row.lookup key).isSome then none
      else some (row ++ [(key, v)]))
    path origin fields

def openTable (path : List Key) (key : Key) (fields : Fields) : Option Fields :=
  within false
    (fun _ row =>
      match row.lookup key with
      | none => some (row ++ [(key, .table .header [])])
      | some (.table .implied inner) => some (setField key (.table .header inner) row)
      | some _ => none)
    path .header fields

def openRow (path : List Key) (key : Key) (fields : Fields) : Option Fields :=
  within false
    (fun _ row =>
      match row.lookup key with
      | none => some (row ++ [(key, .tables [[]])])
      | some (.tables rows) => some (setField key (.tables (rows ++ [[]])) row)
      | some _ => none)
    path .header fields

end StaticPreview.Toml
