import SchemaClosure.Schema.Basic
import SchemaClosure.Text.Class
import SchemaClosure.Text.CodePoint

/-!
# Requests and reachable sets

A `Request` names the types of one top-level namespace that must stay. A `ReachableNames` says
for each namespace, by its full name and in the order of first mention, which names in it are
reachable.

Its summary has one line for each namespace: its name, the number of reachable names in it, and the names in
order. Names and numbers stand in columns that are as wide as their widest entry, counted in characters.
-/

namespace SchemaClosure

/-- Types of a top-level namespace that must stay, each named once. -/
structure Request where
  owner : String
  typeNames : List String
  deriving DecidableEq, Repr

/-- The request for some names, each at its first place. -/
def Request.of (owner : String) (names : List String) : Request :=
  ⟨owner, names.foldl (fun seen n => if seen.contains n then seen else seen ++ [n]) []⟩

abbrev ReachableNames := List (String × List String)

namespace ReachableNames

def names (owner : String) : ReachableNames → List String
  | [] => []
  | (n, xs) :: rest => if n = owner then xs else names owner rest

/-- The set with an entry for the namespace, which may be empty. -/
def touch (owner : String) : ReachableNames → ReachableNames
  | [] => [(owner, [])]
  | (n, xs) :: rest => if n = owner then (n, xs) :: rest else (n, xs) :: touch owner rest

/-- The set with a name of a namespace in it. -/
def insert (owner name : String) : ReachableNames → ReachableNames
  | [] => [(owner, [name])]
  | (n, xs) :: rest =>
    if n = owner then (n, if xs.contains name then xs else xs ++ [name]) :: rest
    else (n, xs) :: insert owner name rest

/-- The set where the entry of a namespace holds these names, each once. -/
def put (owner : String) (names : List String) : ReachableNames → ReachableNames
  | [] => [(owner, names.eraseDups)]
  | (n, xs) :: rest =>
    if n = owner then (n, names.eraseDups) :: rest else (n, xs) :: put owner names rest

/-- The set that some entries make up; of several entries for a namespace the last one counts, in the
place of the first. -/
def ofEntries (entries : List (String × List String)) : ReachableNames :=
  entries.foldl (fun r (n, xs) => r.put n xs) []

/-- The greatest of some numbers, zero if there is none. -/
def widest (widths : List Nat) : Nat := widths.foldl max 0

/-- The summary, empty for an empty set. -/
def summary (r : ReachableNames) : String :=
  let nameWidth := widest (r.map fun (n, _) => n.length)
  let countWidth := widest (r.map fun (_, xs) => (toString xs.length).length)
  Text.join "\n" <| r.map fun (n, xs) =>
    Text.stripRight <| Text.padded n nameWidth true ++ "  "
      ++ Text.padded (toString xs.length) countWidth false ++ "  "
      ++ Text.join ", " (Text.sorted xs)

end ReachableNames

end SchemaClosure
