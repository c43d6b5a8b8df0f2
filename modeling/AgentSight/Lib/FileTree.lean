import Mathlib.Data.Set.Insert

/-!
# Sets of files

A place in a tree is the list of the names that lead to it from the root, and what there is is the
set of the places of the files. A directory is only what its files are below of.
-/

namespace FileTree

variable {ν : Type*}

/-- The path goes on below the directory. -/
def Below (dir path : List ν) : Prop := ∃ rest, rest ≠ [] ∧ path = dir ++ rest

/-- The file is at the new place afterwards, whether it was there before or not. -/
def move (old new : List ν) (files : Set (List ν)) : Set (List ν) := insert new (files \ {old})

def removeBelow (dir : List ν) (files : Set (List ν)) : Set (List ν) :=
  {path ∈ files | ¬Below dir path}

/-- What is below the old place is at the same place below the new one. -/
def rebase (old new : List ν) (files : Set (List ν)) : Set (List ν) :=
  removeBelow old files ∪ {path | ∃ rest, rest ≠ [] ∧ old ++ rest ∈ files ∧ path = new ++ rest}

/-- No file is the root, and its names are all of a kind. -/
def Named (IsName : ν → Prop) (files : Set (List ν)) : Prop :=
  ∀ path ∈ files, path ≠ [] ∧ ∀ name ∈ path, IsName name

variable {IsName : ν → Prop} {files files' : Set (List ν)} {old new : List ν}

section

variable (h : Named IsName files)
include h

theorem Named.mono (hsub : files' ⊆ files) : Named IsName files' :=
  fun path hpath => h path (hsub hpath)

theorem Named.insert (hne : new ≠ []) (hnames : ∀ name ∈ new, IsName name) :
    Named IsName (insert new files) := by
  rintro path (rfl | hpath)
  · exact ⟨hne, hnames⟩
  · exact h path hpath

theorem Named.move (hne : new ≠ []) (hnames : ∀ name ∈ new, IsName name) :
    Named IsName (move old new files) :=
  (h.mono fun _ hpath => hpath.1).insert hne hnames

theorem Named.removeBelow (dir : List ν) :
    Named IsName (removeBelow dir files) :=
  h.mono fun _ hpath => hpath.1

theorem Named.rebase (hnames : ∀ name ∈ new, IsName name) :
    Named IsName (rebase old new files) := by
  rintro path (hpath | ⟨rest, hne, hold, rfl⟩)
  · exact h path hpath.1
  · refine ⟨List.append_ne_nil_of_right_ne_nil new hne, fun name hname => ?_⟩
    obtain hnew | hrest := List.mem_append.mp hname
    · exact hnames name hnew
    · exact (h _ hold).2 name (List.mem_append_right old hrest)

end

end FileTree
