import Conductor.Composition.Basic
/-!
# Compositions — build keys

Groups share a build when their build keys are equal. A key lists the
selectors in order and without repetitions, and the dependencies by module,
entries of one module in the order given; so the order in which a group lists
its requests does not matter. The key of a group ends with the group's own
build configuration.
-/

namespace Conductor

/-- Insertion into an increasing list without repetitions. -/
def insertSorted (x : String) : List String → List String
  | [] => [x]
  | y :: ys => if x < y then x :: y :: ys else if x = y then y :: ys else y :: insertSorted x ys

/-- The members of a list, increasing and without repetitions. -/
def sortDistinct (xs : List String) : List String :=
  xs.foldr insertSorted []

namespace BuildOptions

/-- Insertion before the first dependency of the same or a later module. -/
def insertDependency (d : Dependency) : List Dependency → List Dependency
  | [] => [d]
  | e :: es => if e.package < d.package then e :: insertDependency d es else d :: e :: es

/-- The dependencies by module; entries of one module keep their order. -/
def sortedDependencies (b : BuildOptions) : List Dependency :=
  b.dependencies.foldr insertDependency []

/-- The text of one dependency in a key. -/
def dependencyKey (d : Dependency) : String :=
  d.package ++ ":" ++ d.version ++ "|"

/-- The key of the requests. -/
def key (b : BuildOptions) : String :=
  "selectors=" ++ String.intercalate "," (sortDistinct b.selectors) ++ ";dependencies=" ++
    String.join (b.sortedDependencies.map dependencyKey)

end BuildOptions

/-- The key under which groups share a build. -/
def Group.buildKey (g : Group) : String :=
  g.build.key ++ ";config=" ++ Json.objectText g.buildConfig

end Conductor
