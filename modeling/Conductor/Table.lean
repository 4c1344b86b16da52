/-!
# Tables

A table is a list of entries in strictly increasing order of their keys, so
that two tables with the same entries are equal and a listing of a table is
sorted. Keys are ordered by code points, which is the order of their UTF-8
octets. The operations are those of a finite map; `Table.insert` replaces
the entry of a key that the table has.
-/

namespace Conductor

/-- Entries by increasing key. -/
abbrev Table (α : Type) := List (String × α)

namespace Table

variable {α β : Type}

/-- The table with `key` mapped to `value`, whatever it was mapped to before. -/
def insert (key : String) (value : α) : Table α → Table α
  | [] => [(key, value)]
  | (k, v) :: rest =>
    if key < k then (key, value) :: (k, v) :: rest
    else if key = k then (key, value) :: rest
    else (k, v) :: insert key value rest

/-- The value of a key. -/
def get? (key : String) : Table α → Option α
  | [] => none
  | (k, v) :: rest => if key = k then some v else get? key rest

/-- The table without a key. -/
def erase (key : String) (t : Table α) : Table α :=
  t.filter fun e => e.1 ≠ key

/-- The table of a list of entries, the last of equal keys winning. -/
def ofList (entries : List (String × α)) : Table α :=
  entries.foldl (fun t e => insert e.1 e.2 t) []

/-- The entries of `upper` on top of those of `base`. -/
def overlay (base upper : Table α) : Table α :=
  upper.foldl (fun t e => insert e.1 e.2 t) base

/-- The keys in order. -/
def keys (t : Table α) : List String :=
  t.map Prod.fst

/-- The keys strictly increase. -/
def Sorted (t : Table α) : Prop :=
  t.Pairwise fun a b => a.1 < b.1

end Table

end Conductor
