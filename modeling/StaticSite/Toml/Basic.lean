/-!
# TOML trees

This file gives TOML trees and the rules by which tables grow.  A table may be named by its own
header, in front of the headers of its subtables, or by dotted keys, but not in two of these ways.
-/

namespace StaticSite

namespace Toml

/-- How a table came to be. -/
inductive Origin where
  | inline
  /-- Named by its own header. -/
  | header
  /-- Named only in front of the headers of its subtables. -/
  | implied
  /-- Named by dotted keys. -/
  | dotted
  deriving DecidableEq, Repr

end Toml

/-- A TOML tree. -/
inductive Toml where
  | string (text : String)
  | integer (value : Int)
  | float (value : Float)
  | boolean (value : Bool)
  /-- A date, a time, or both; what it says is not kept. -/
  | moment
  | array (items : List Toml)
  | table (origin : Toml.Origin) (entries : List (String × Toml))
  /-- Tables under headers in double brackets. -/
  | tables (each : List (List (String × Toml)))
  deriving Inhabited

namespace Toml

/-- Named trees in order. -/
abbrev Entries := List (String × Toml)

namespace Entries

/-- Set the tree of a name; a new name comes last. -/
def set (name : String) (tree : Toml) : Entries → Entries
  | [] => [(name, tree)]
  | (other, old) :: rest =>
      if other == name then (name, tree) :: rest else (other, old) :: set name tree rest

/-- Change the table with the given name, which dotted keys open only if no header named it.  A
table that is not there is made, and of tables under one header the last one is changed. -/
def modify? (dotted : Bool) (name : String) (change : Origin → Entries → Option Entries)
    (entries : Entries) : Option Entries :=
  match entries.lookup name with
  | none =>
      let origin := if dotted then .dotted else .implied
      (change origin []).map fun inner => entries.set name (.table origin inner)
  | some (.table origin inner) =>
      if origin == .inline || (dotted && origin == .header) then none
      else (change origin inner).map fun inner => entries.set name (.table origin inner)
  | some (.tables each) =>
      match each.getLast? with
      | some last =>
          (change .header last).map fun last => entries.set name (.tables (each.dropLast ++ [last]))
      | none => none
  | some _ => none

/-- Change the table at a path of names, of which the last table's origin is given. -/
def modifyAt? (dotted : Bool) (change : Origin → Entries → Option Entries) :
    List String → Origin → Entries → Option Entries
  | [], origin, entries => change origin entries
  | name :: path, _, entries => entries.modify? dotted name (modifyAt? dotted change path)

/-- Add a tree at a dotted key, given by the names before the last one and the last one.  Dotted
keys add to tables of their own kind only, and no name is given twice. -/
def add? (path : List String) (name : String) (tree : Toml) (entries : Entries) :
    Option Entries :=
  entries.modifyAt? true (fun origin inner =>
    if (!path.isEmpty && origin != .dotted) || (inner.lookup name).isSome then none
    else some (inner.set name tree)) path .header

/-- Open a table under its header. -/
def openTable? (path : List String) (name : String) (entries : Entries) : Option Entries :=
  entries.modifyAt? false (fun _ inner =>
    match inner.lookup name with
    | none => some (inner.set name (.table .header []))
    | some (.table .implied entries) => some (inner.set name (.table .header entries))
    | some _ => none) path .header

/-- Open one more table under a header in double brackets. -/
def openItem? (path : List String) (name : String) (entries : Entries) : Option Entries :=
  entries.modifyAt? false (fun _ inner =>
    match inner.lookup name with
    | none => some (inner.set name (.tables [[]]))
    | some (.tables each) => some (inner.set name (.tables (each ++ [[]])))
    | some _ => none) path .header

end Entries
end Toml
end StaticSite
