import Conductor.Proofs.Files.Places
import Conductor.Proofs.Table
/-!
# Files — directories that are made

In a tree without links whatever a path leads to is at the place to which the parts of the
path lead (`find_place`). So when a directory has been made with all that were missing
above it, there is a directory at that place (`createAll_directory`), and there still are
no links, since nothing but directories has been put into the tree.
-/

namespace Conductor

namespace FileTree

open Conductor.Path (leadsTo enter parts)

variable {t t' : FileTree} {path name : String} {place : Place} {ps : List String}
  {n new : FileNode} {found : Found} {followed : Bool} {fuel links : Nat}

/-! ## Nodes below a node -/

/-- The node at a place below a node. -/
def nodeAt (n : FileNode) (place : Place) : Option FileNode :=
  place.foldl (fun n name => n.bind (child? name)) (some n)

theorem node?_eq : t.node? place = nodeAt (.directory t.root) place := rfl

theorem nodeAt_concat : nodeAt n (place ++ [name]) = (nodeAt n place).bind (child? name) := by
  rw [nodeAt, List.foldl_append]
  rfl

theorem nodeAt_cons : nodeAt n (name :: place) = (child? name n).bind (nodeAt · place) := by
  rw [nodeAt, List.foldl_cons, Option.bind_some]
  cases child? name n with
  | some n => rfl
  | none =>
    induction place with
    | nil => rfl
    | cons name place ih => exact ih

/-- There are no links below a node. -/
def NoLinks (n : FileNode) : Prop := ∀ place target, nodeAt n place ≠ some (.link target)

theorem NoLinks.child (h : NoLinks n) {child : FileNode} (hchild : child? name n = some child) :
    NoLinks child := by
  intro place target hlink
  refine h (name :: place) target ?_
  rw [nodeAt_cons, hchild]
  exact hlink

/-- What is in a directory has no links if the directory has none. -/
theorem noLinks_directory {entries : Table FileNode} :
    NoLinks (.directory entries) ↔
      ∀ name child, entries.get? name = some child → NoLinks child := by
  refine ⟨fun h name child hchild => h.child hchild, fun h place target hlink => ?_⟩
  cases place with
  | nil => cases hlink
  | cons name place =>
    rw [nodeAt_cons] at hlink
    cases hchild : child? name (.directory entries) with
    | none => rw [hchild] at hlink; cases hlink
    | some child =>
      rw [hchild] at hlink
      exact h name child hchild place target hlink

/-- A tree without links. -/
def LinkFree (t : FileTree) : Prop := NoLinks (.directory t.root)

/-! ## Finding -/

/-- The place that was looked for. -/
def Found.sought : Found → Place
  | .node place _ => place
  | .missing directory name => directory ++ [name]

/-- What was found is in the tree; what is missing, is missing in a directory. -/
def Found.IsIn (t : FileTree) : Found → Prop
  | .node place n => t.node? place = some n
  | .missing directory _ => ∃ entries, t.node? directory = some (.directory entries)

/-- **Without links a walk goes where its parts lead.** -/
theorem walk_place (ht : t.LinkFree) (h : t.walk followed fuel links place ps = .ok found) :
    found.sought = ps.foldl enter place ∧ found.IsIn t := by
  induction fuel generalizing place ps with
  | zero => cases h
  | succ fuel ih =>
    unfold walk at h
    split at h
    · cases h
    rename_i here hhere
    split at h
    · cases h
      exact ⟨rfl, hhere⟩
    rename_i name rest
    split at h
    · cases h
    rename_i hdirectory
    rw [List.foldl_cons]
    split at h
    · rename_i hdot
      rw [enter, if_pos hdot]
      exact ih h
    rename_i hdot
    split at h
    · rename_i hdots
      rw [enter, if_neg hdot, if_pos hdots]
      exact ih h
    rename_i hdots
    have hdown : enter place name = place ++ [name] := by
      rw [enter, if_neg hdot, if_neg hdots]
    rw [hdown]
    split at h
    · cases h
    -- a name of the directory at hand is looked up
    split at h
    · split at h
      · rename_i hrest
        obtain rfl := List.isEmpty_iff.1 hrest
        cases h
        refine ⟨rfl, ?_⟩
        cases here with
        | directory entries => exact ⟨entries, hhere⟩
        | file octets mode => simp [FileNode.isDirectory] at hdirectory
        | link target => simp [FileNode.isDirectory] at hdirectory
      · cases h
    · rename_i target hlink
      refine absurd ?_ (ht (place ++ [name]) target)
      rw [nodeAt_concat, ← node?_eq, hhere]
      exact hlink
    · exact ih h

/-- A slash at the end asks for a directory, and leads nowhere else. -/
theorem foldl_partsOf : (partsOf path).foldl enter place = (parts path).foldl enter place := by
  unfold partsOf
  split
  · rw [List.foldl_append, List.foldl_cons, List.foldl_nil, enter, if_pos rfl]
  · rw [List.append_nil]

theorem locate_place (ht : t.LinkFree) (h : t.locate followed path = .ok found) :
    found.sought = leadsTo [] path ∧ found.IsIn t := by
  unfold locate at h
  split at h
  · cases h
  split at h
  · cases h
  rw [Path.leadsTo_root, ← foldl_partsOf]
  exact walk_place ht h

/-- **Without links a path leads to the place to which its parts lead.** -/
theorem find_place (ht : t.LinkFree) (h : t.find path = .ok (place, n)) :
    place = leadsTo [] path ∧ t.node? place = some n := by
  unfold find at h
  cases hlocate : t.locate true path with
  | error e => rw [hlocate] at h; cases h
  | ok found =>
    rw [hlocate] at h
    obtain ⟨hsought, hin⟩ := locate_place ht hlocate
    cases found with
    | node place n => cases h; exact ⟨hsought, hin⟩
    | missing directory name => cases h

/-- A path that leads to a directory. -/
theorem directory_of_isDirectory (ht : t.LinkFree) (h : t.isDirectory path = true) :
    ∃ entries, t.node? (leadsTo [] path) = some (.directory entries) := by
  unfold isDirectory metadata at h
  cases hfind : t.find path with
  | error e => rw [hfind] at h; cases h
  | ok r =>
    obtain ⟨place, n⟩ := r
    rw [hfind] at h
    obtain ⟨rfl, hnode⟩ := find_place ht hfind
    cases n with
    | directory entries => exact ⟨entries, hnode⟩
    | file octets mode => cases h
    | link target => cases h

/-- A path that is taken is good if it leads to a directory. -/
theorem directory_of_taken {e : FileFault} (ht : t.LinkFree)
    (h : (if t.isDirectory path then .ok () else .error e : Except FileFault Unit) = .ok ()) :
    ∃ entries, t.node? (leadsTo [] path) = some (.directory entries) := by
  split at h
  · rename_i hdirectory
    exact directory_of_isDirectory ht hdirectory
  · cases h

/-! ## Making -/

/-- What has been put at a place in a directory is there. -/
theorem nodeAt_put {entries : Table FileNode} (h : nodeAt n place = some (.directory entries)) :
    nodeAt (put new (place ++ [name]) n) (place ++ [name]) = some new := by
  induction place generalizing n with
  | nil =>
    cases h
    simp [put, nodeAt, child?]
  | cons d place ih =>
    rw [nodeAt_cons] at h
    cases n with
    | file octets mode => cases h
    | link target => cases h
    | directory above =>
      cases hchild : child? d (.directory above) with
      | none => rw [hchild] at h; cases h
      | some child =>
        rw [hchild] at h
        obtain ⟨x, xs, hxs⟩ : ∃ x xs, place ++ [name] = x :: xs :=
          List.exists_cons_of_ne_nil (by simp)
        have hput : put new (d :: (place ++ [name])) (.directory above) =
            .directory (Table.insert d (put new (place ++ [name]) child) above) := by
          have hget : Table.get? d above = some child := hchild
          rw [hxs]
          conv_lhs => unfold FileTree.put
          simp only [hget]
        rw [List.cons_append, hput, nodeAt_cons, child?, Table.get?_insert_self]
        exact ih h

/-- What has no links has none when something without links is put into it. -/
theorem NoLinks.put (h : NoLinks n) (hnew : NoLinks new) : NoLinks (FileTree.put new place n) := by
  induction place generalizing n with
  | nil => exact hnew
  | cons d place ih =>
    cases n with
    | file octets mode => exact h
    | link target => exact h
    | directory entries =>
      have hentries := noLinks_directory.1 h
      have hinsert : ∀ x, NoLinks x → NoLinks (.directory (Table.insert d x entries)) := by
        intro x hx
        refine noLinks_directory.2 fun name child hchild => ?_
        rw [Table.get?_insert] at hchild
        split at hchild
        · cases hchild
          exact hx
        · exact hentries name child hchild
      unfold FileTree.put
      split
      · exact hinsert _ hnew
      · rename_i child _ hchild
        exact hinsert _ (ih (hentries d child hchild))
      · exact h

theorem root_set (hne : place ≠ []) :
    .directory (t.set place n).root = put n place (.directory t.root) := by
  obtain ⟨d, rest, rfl⟩ := List.exists_cons_of_ne_nil hne
  have hdirectory : ∃ entries, put n (d :: rest) (.directory t.root) = .directory entries := by
    unfold put
    split <;> exact ⟨_, rfl⟩
  obtain ⟨entries, hentries⟩ := hdirectory
  rw [set, hentries]

/-- A directory that is made has no links in it. -/
theorem noLinks_empty : NoLinks (.directory []) :=
  noLinks_directory.2 fun _ _ hchild => by cases hchild

theorem LinkFree.set (ht : t.LinkFree) (hne : place ≠ []) :
    (t.set place (.directory [])).LinkFree := by
  rw [LinkFree, root_set hne]
  exact NoLinks.put ht noLinks_empty

/-- The slashes at the end of a path are cut off with no part. -/
theorem parts_trimSlashes (path : String) : parts (trimSlashes path) = parts path := by
  have hslashes : ∀ c ∈ path.toList.reverse.takeWhile (· = '/'), c = '/' := fun c hc =>
    of_decide_eq_true (List.all_eq_true.1 List.all_takeWhile c hc)
  obtain ⟨k, hk⟩ : ∃ k, path.toList.reverse.takeWhile (· = '/') = List.replicate k '/' :=
    ⟨_, List.eq_replicate_of_mem hslashes⟩
  have hpath : path = String.ofList (path.toList.reverse.dropWhile (· = '/')).reverse ++
      String.ofList (List.replicate k '/') := by
    refine String.toList_injective ?_
    rw [String.toList_append, String.toList_ofList, String.toList_ofList, ← List.reverse_replicate,
      ← hk, ← List.reverse_append, List.takeWhile_append_dropWhile, List.reverse_reverse]
  have hparts : parts path =
      parts (String.ofList (path.toList.reverse.dropWhile (· = '/')).reverse) :=
    (congrArg parts hpath).trans (Path.parts_append_slashes _ _)
  unfold trimSlashes
  dsimp only
  split
  · -- nothing but slashes
    rename_i hempty
    rw [Bool.and_eq_true, String.isEmpty_iff] at hempty
    rw [hparts, hempty.1]
    exact Path.parts_close ""
  · exact hparts.symm

/-- A directory has been made: the tree has no links still, and there it is. -/
structure Made (t' : FileTree) (path : String) : Prop where
  linkFree : t'.LinkFree
  directory : ∃ entries, t'.node? (leadsTo [] path) = some (.directory entries)

theorem makeDirectory_made (ht : t.LinkFree) (h : t.makeDirectory path = .ok t') :
    Made t' path := by
  unfold makeDirectory at h
  cases hlocate : t.locate false (trimSlashes path) with
  | error e => rw [hlocate] at h; cases h
  | ok found =>
    rw [hlocate] at h
    obtain ⟨hsought, hin⟩ := locate_place ht hlocate
    cases found with
    | node place n => cases h
    | missing directory name =>
      cases h
      obtain ⟨entries, hdirectory⟩ := hin
      have hne : directory ++ [name] ≠ [] := by simp
      refine ⟨ht.set hne, [], ?_⟩
      have hplace : leadsTo [] path = directory ++ [name] := by
        rw [Path.leadsTo_root, ← parts_trimSlashes, ← Path.leadsTo_root]
        exact hsought.symm
      rw [hplace, node?_eq, root_set hne]
      exact nodeAt_put hdirectory

/-- Nothing but directories is put into the tree, and in the end that of the path. -/
theorem makeDirectories_made (fuel : Nat) (path : String) (ht : t.LinkFree) :
    (t.makeDirectories fuel path).2.LinkFree ∧
    ((t.makeDirectories fuel path).1 = .ok () → path ≠ "" →
      ∃ entries, (t.makeDirectories fuel path).2.node? (leadsTo [] path) =
        some (.directory entries)) := by
  induction fuel generalizing path t with
  | zero => exact ⟨ht, fun h => by cases h⟩
  | succ fuel ih =>
    unfold makeDirectories
    split
    · rename_i hempty
      exact ⟨ht, fun _ hne => absurd (String.isEmpty_iff.1 hempty) hne⟩
    split
    · rename_i hmade
      have hmade := makeDirectory_made ht hmade
      exact ⟨hmade.linkFree, fun _ _ => hmade.directory⟩
    · -- something is missing above
      split
      · exact ⟨ht, fun h => by cases h⟩
      · rename_i above habove
        have hlinkFree := (ih above ht).1
        split
        · rename_i hresult
          rw [hresult] at hlinkFree
          exact ⟨hlinkFree, fun h => by cases h⟩
        · rename_i hresult
          rw [hresult] at hlinkFree
          split
          · rename_i hmade
            have hmade := makeDirectory_made hlinkFree hmade
            exact ⟨hmade.linkFree, fun _ _ => hmade.directory⟩
          · exact ⟨hlinkFree, fun h _ => directory_of_taken hlinkFree h⟩
    · exact ⟨ht, fun h _ => directory_of_taken ht h⟩

/-- A directory in one that is there already is made at once. -/
theorem createAll_of_makeDirectory (hne : path ≠ "") (h : t.makeDirectory path = .ok t') :
    t.createAll path = (.ok (), t') := by
  have hempty : ¬ path.isEmpty = true := by simpa using hne
  rw [createAll, makeDirectories, if_neg hempty, h]

/-- **When a directory has been made there is a directory** at the place to which its path
leads. -/
theorem createAll_directory (ht : t.LinkFree) (hne : path ≠ "")
    (h : t.createAll path = (.ok (), t')) :
    ∃ entries, t'.node? (leadsTo [] path) = some (.directory entries) := by
  have hmade := (makeDirectories_made (path.length + 1) path ht).2
  rw [createAll] at h
  rw [h] at hmade
  exact hmade rfl hne

end FileTree

end Conductor
