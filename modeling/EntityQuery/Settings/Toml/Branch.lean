import EntityQuery.Settings.Document
import EntityQuery.Settings.Toml.Moment

/-! The tree of a TOML document while it is read. Unlike a finished setting it knows how each
table came to be, because that decides what may still be added to it, and it has the entries
of a table in their order, because the first one may say that the table is a date. -/
namespace EntityQuery.Toml

/-- How a table came to be: by a header of its own, as the parent of a table with a header,
by a key with dots, or in braces. -/
inductive Origin where
  | header | parent | dotted | braces
deriving DecidableEq

/-- A `series` holds the tables of one repeated header. -/
inductive Branch where
  | leaf (value : Setting)
  | moment (m : Moment)
  | list (items : List Branch)
  | table (origin : Origin) (entries : List (String × Branch))
  | series (tables : List Branch)
deriving Inhabited

/-- A table with this name for its first entry is the date or time in that entry. -/
def momentName : String := "$__toml_private_datetime"

namespace Branch

/-- What makes a table a date or time. -/
def momentEntry? : List (String × Branch) → Option Branch
  | (name, b) :: _ => if name = momentName then some b else none
  | [] => none

/-- The date or time in a text; nothing else has one in it. -/
def writtenMoment? : Branch → Option Moment
  | leaf (.text s) => Moment.ofText? s.toList
  | _ => none

def momentSetting (m : Moment) : Setting := .text (String.ofList m.text)

mutual

/-- The finished setting; `none` where a table should be a date and has none. -/
def toSetting? : Branch → Option Setting
  | leaf value => some value
  | moment m => some (momentSetting m)
  | list items => (itemSettings? items).map .list
  | table _ entries =>
    match momentEntry? entries with
    | some b => b.writtenMoment?.map momentSetting
    | none => (entrySettings? entries).map fun es => .table (Catalog.ofList es)
  | series tables => (itemSettings? tables).map .list

def entrySettings? : List (String × Branch) → Option (List (String × Setting))
  | [] => some []
  | (name, b) :: rest => do some ((name, ← toSetting? b) :: (← entrySettings? rest))

def itemSettings? : List Branch → Option (List Setting)
  | [] => some []
  | b :: rest => do some ((← toSetting? b) :: (← itemSettings? rest))

end

/-- Puts `b` under a name: where an entry of that name is, or else last. -/
def put (name : String) (b : Branch) : List (String × Branch) → List (String × Branch)
  | [] => [(name, b)]
  | (n, old) :: rest => if n = name then (name, b) :: rest else (n, old) :: put name b rest

/-- May a path go through here? Nothing leads into a value, and dots do not lead into a table
that has a header. -/
def admits (dotted : Bool) : Branch → Bool
  | table .braces _ => false
  | table .header _ => !dotted
  | table _ _ => true
  | series _ => true
  | _ => false

/-- Changes a table, or the last table of a series. -/
def onTable (f : Branch → Option Branch) : Branch → Option Branch
  | series tables => do some (series (tables.dropLast ++ [← f (← tables.getLast?)]))
  | b => f b

/-- Changes what a path leads to, through tables that are made where they are missing. -/
def change (dotted : Bool) (f : Branch → Option Branch) : List String → Branch → Option Branch
  | [], b => f b
  | name :: names, table origin entries => do
    let made := table (if dotted then .dotted else .parent) []
    let inner := (entries.lookup name).getD made
    if inner.admits dotted then
      let changed ← inner.onTable (change dotted f names)
      some (table origin (put name changed entries))
    else none
  | _, _ => none

/-- Puts a value under a name that is free. A name after dots stands in a table that dots
have made, and no other does. -/
def define (dotted : Bool) (name : String) (value : Branch) : Branch → Option Branch
  | table origin entries =>
    if (origin == .dotted) == dotted && (entries.lookup name).isNone then
      some (table origin (put name value entries))
    else none
  | _ => none

/-- Puts a value under a key with or without dots. -/
def defineAt (key : List String) (value b : Branch) : Option Branch := do
  change true (define (1 < key.length) (← key.getLast?) value) key.dropLast b

/-- Gives a table its header. One that was there as a parent comes last from now on. -/
def openTable (name : String) : Branch → Option Branch
  | table origin entries =>
    match entries.lookup name with
    | none => some (table origin (put name (table .header []) entries))
    | some (table .parent inner) =>
      some (table origin (entries.filter (·.1 != name) ++ [(name, table .header inner)]))
    | some _ => none
  | _ => none

/-- Adds a table to a series. -/
def pushTable (name : String) : Branch → Option Branch
  | table origin entries =>
    match entries.lookup name with
    | none => some (table origin (put name (series [table .header []]) entries))
    | some (series tables) =>
      some (table origin (put name (series (tables ++ [table .header []])) entries))
    | some _ => none
  | _ => none

end Branch

end EntityQuery.Toml
