import AgentSight.Lib.FileTree
import AgentSight.Text

/-!
# Paths of the evolution graph

The texts that `repository-nebula.js` reads a path by: its parts, the directory it is in, the area
of the repository, the path without the directory it is below. A path as the collector writes it,
relative to the root and normalized, is the join of names that are not empty and have no slash.
-/

namespace AgentSight.Nebula

open Str List

def slash (c : Char) : Bool := c = '/'

def pathParts (path : String) : List String := (split path slash).filter (· ≠ "")

def directoryParts (path : String) : List String := (pathParts path).dropLast

def joinParts (parts : List String) : String := "/".intercalate parts

def parentDirectory (path : String) : String :=
  let parts := pathParts path
  if parts.length > 1 then joinParts parts.dropLast else parts.head?.getD "(root)"

def rootArea (path : String) : String := (pathParts path).head?.getD "(root)"

/-- The keys that `indexNode` has the path under in `prefixIndex`: `directories.slice(0, depth)` for
every depth. -/
def prefixKeys (path : String) : List String :=
  let directories := directoryParts path
  (List.range' 1 directories.length).map fun depth => joinParts (directories.take depth)

/-- The text without the slashes at either end. -/
def stripSlashes (path : String) : String :=
  String.ofList ((path.toList.dropWhile slash).reverse.dropWhile slash).reverse

def scopeDisplayPath (path : String) : String :=
  let value := stripSlashes path
  if value = "" ∨ value = "." then "_scope" else value ++ "/_scope"

/-- The text without one slash at its start. -/
def dropLeadingSlash (path : String) : String := (stripPrefix path "/").getD path

/-- The text without one slash at its end. -/
def dropTrailingSlash (path : String) : String := (stripSuffix path "/").getD path

/-- The path that a member of the directory `oldPath` has after the directory is renamed. -/
def nextPath (oldPath newPath path : String) : String :=
  let suffix := if oldPath = "." then path
    else dropLeadingSlash (String.ofList (path.toList.drop oldPath.toList.length))
  joinParts ([dropTrailingSlash newPath, suffix].filter (· ≠ ""))

/-! ### Normalized paths -/

/-- A name of a file or directory. -/
def IsName (name : String) : Prop := name ≠ "" ∧ name ≠ "." ∧ name ≠ ".." ∧ '/' ∉ name.toList

instance : DecidablePred IsName := fun _ => inferInstanceAs (Decidable (_ ∧ _ ∧ _ ∧ _))

def AreNames (names : List String) : Prop := ∀ name ∈ names, IsName name

/-- What `relative_to_roots` of the collector makes of a path: the root, or names. -/
def Normalized (path : String) : Prop := path = "." ∨ AreNames (split path slash)

instance : DecidablePred Normalized := fun path =>
  inferInstanceAs (Decidable (path = "." ∨ ∀ name ∈ split path slash, IsName name))

/-- The names that lead to the place of a normalized path. -/
def namesOf (path : String) : List String := if path = "." then [] else pathParts path

/-- The normalized path of the place that the names lead to. -/
def pathOf (names : List String) : String := if names = [] then "." else joinParts names

/-! ### Parts and their join -/

def AreParts (parts : List String) : Prop := ∀ part ∈ parts, part ≠ "" ∧ '/' ∉ part.toList

variable {names rest parts : List String} {part : String}

theorem AreNames.areParts (h : AreNames names) : AreParts names := fun name hname =>
  ⟨(h name hname).1, (h name hname).2.2.2⟩

theorem AreNames.append (h : AreNames names) (h' : AreNames rest) : AreNames (names ++ rest) :=
  fun name hname => (mem_append.mp hname).elim (h name) (h' name)

theorem toList_joinParts (parts : List String) :
    (joinParts parts).toList = ['/'].intercalate (parts.map String.toList) := by
  rw [joinParts, String.toList_intercalate]
  rfl

theorem split_joinParts (h : AreParts parts) (hne : parts ≠ []) :
    split (joinParts parts) slash = parts := by
  have hslash : ∀ part ∈ parts.map String.toList, ∀ c ∈ part, slash c = false := by
    intro part hpart c hc
    obtain ⟨part, hmem, rfl⟩ := mem_map.mp hpart
    rw [slash, decide_eq_false_iff_not]
    rintro rfl
    exact (h part hmem).2 hc
  rw [split, toList_joinParts, splitChars_intercalate (by decide) (by simpa using hne) hslash]
  simp [Function.comp_def]

/-- Joined parts are read back. -/
theorem pathParts_joinParts (h : AreParts parts) : pathParts (joinParts parts) = parts := by
  by_cases hne : parts = []
  · rw [hne]
    rfl
  · rw [pathParts, split_joinParts h hne, filter_eq_self]
    exact fun part hpart => decide_eq_true (h part hpart).1

theorem joinParts_inj (h : AreParts parts) (h' : AreParts rest)
    (heq : joinParts parts = joinParts rest) : parts = rest := by
  rw [← pathParts_joinParts h, heq, pathParts_joinParts h']

theorem joinParts_append (hparts : parts ≠ []) (hrest : rest ≠ []) :
    joinParts (parts ++ rest) = joinParts parts ++ "/" ++ joinParts rest :=
  String.intercalate_append_of_ne_nil hparts hrest

theorem exists_joinParts_cons (part : String) (rest : List String) :
    ∃ tail, (joinParts (part :: rest)).toList = part.toList ++ tail := by
  by_cases hrest : rest = []
  · exact ⟨[], by rw [hrest, joinParts, String.intercalate_singleton, append_nil]⟩
  · refine ⟨"/".toList ++ (joinParts rest).toList, ?_⟩
    rw [joinParts, String.intercalate_cons_of_ne_nil hrest, String.toList_append,
      String.toList_append, append_assoc, joinParts]

theorem exists_joinParts_concat (rest : List String) (part : String) :
    ∃ front, (joinParts (rest ++ [part])).toList = front ++ part.toList := by
  by_cases hrest : rest = []
  · exact ⟨[], by rw [hrest, nil_append, joinParts, String.intercalate_singleton,
      nil_append]⟩
  · refine ⟨(joinParts rest).toList ++ "/".toList, ?_⟩
    rw [joinParts_append hrest (cons_ne_nil _ _), String.toList_append, String.toList_append,
      joinParts, joinParts, String.intercalate_singleton]

theorem joinParts_ne_empty (h : AreParts parts) (hne : parts ≠ []) : joinParts parts ≠ "" := by
  intro hempty
  have hparts := pathParts_joinParts h
  rw [hempty] at hparts
  exact hne hparts.symm

/-- A join starts with its first part, so it does not start with a slash. -/
theorem head?_joinParts (h : AreParts parts) (hne : parts ≠ []) :
    (joinParts parts).toList.head? ≠ some '/' := by
  obtain ⟨part, rest, rfl⟩ := exists_cons_of_ne_nil hne
  obtain ⟨hempty, hslash⟩ := h part mem_cons_self
  obtain ⟨tail, htail⟩ := exists_joinParts_cons part rest
  rw [htail, head?_append_of_ne_nil _ (fun hnil => hempty (String.toList_eq_nil_iff.mp hnil))]
  exact fun hhead => hslash (mem_of_head? hhead)

theorem getLast?_joinParts (h : AreParts parts) (hne : parts ≠ []) :
    (joinParts parts).toList.getLast? ≠ some '/' := by
  obtain ⟨rest, part, rfl⟩ := (eq_nil_or_concat parts).resolve_left hne
  rw [concat_eq_append] at h ⊢
  obtain ⟨hempty, hslash⟩ := h part mem_concat_self
  obtain ⟨front, hfront⟩ := exists_joinParts_concat rest part
  rw [hfront,
    getLast?_append_of_ne_nil _ (fun hnil => hempty (String.toList_eq_nil_iff.mp hnil))]
  exact fun hlast => hslash (mem_of_getLast? hlast)

/-! ### Texts without a slash at an end -/

theorem dropLeadingSlash_cons (cs : List Char) :
    dropLeadingSlash (String.ofList ('/' :: cs)) = String.ofList cs := by
  have hstrip : stripPrefix (String.ofList ('/' :: cs)) "/" = some (String.ofList cs) := by
    rw [stripPrefix_iff, String.toList_ofList, String.toList_ofList, String.toList_ofList]
    rfl
  rw [dropLeadingSlash, hstrip, Option.getD_some]

theorem dropTrailingSlash_eq {path : String} (h : path.toList.getLast? ≠ some '/') :
    dropTrailingSlash path = path := by
  have hends : endsWith path "/" = false := by
    rw [endsWith, Bool.eq_false_iff, Ne, isSuffixOf_iff_suffix]
    rintro ⟨front, hfront⟩
    refine h ?_
    rw [← hfront]
    exact getLast?_concat
  rw [dropTrailingSlash, stripSuffix, hends]
  rfl

theorem dropWhile_slash {cs : List Char} (h : cs.head? ≠ some '/') : cs.dropWhile slash = cs := by
  cases cs with
  | nil => rfl
  | cons c cs =>
    refine dropWhile_cons_of_neg fun hc => h ?_
    rw [head?_cons, of_decide_eq_true hc]

theorem stripSlashes_eq {path : String} (hhead : path.toList.head? ≠ some '/')
    (hlast : path.toList.getLast? ≠ some '/') : stripSlashes path = path := by
  rw [stripSlashes, dropWhile_slash hhead,
    dropWhile_slash (by rwa [head?_reverse]), reverse_reverse, String.ofList_toList]

/-! ### Normalized paths and their names -/

theorem not_areNames_dot : ¬AreNames ("." :: rest) := fun h => (h "." mem_cons_self).2.1 rfl

/-- The path of names leads back to them. -/
theorem namesOf_pathOf (h : AreNames names) : namesOf (pathOf names) = names := by
  rw [pathOf]
  split_ifs with hnil
  · rw [hnil]
    rfl
  · have hdot : joinParts names ≠ "." := by
      intro hdot
      have hparts := pathParts_joinParts h.areParts
      rw [hdot] at hparts
      exact not_areNames_dot (hparts ▸ h)
    rw [namesOf, if_neg hdot, pathParts_joinParts h.areParts]

theorem pathOf_inj (h : AreNames names) (h' : AreNames rest) (heq : pathOf names = pathOf rest) :
    names = rest := by
  rw [← namesOf_pathOf h, heq, namesOf_pathOf h']

theorem stripSlashes_pathOf (h : AreNames names) : stripSlashes (pathOf names) = pathOf names := by
  rw [pathOf]
  split_ifs with hnil
  · decide
  · exact stripSlashes_eq (head?_joinParts h.areParts hnil) (getLast?_joinParts h.areParts hnil)

theorem intercalate_splitChars (cs : List Char) : ['/'].intercalate (splitChars slash cs) = cs := by
  induction cs with
  | nil => rfl
  | cons c cs ih =>
    obtain ⟨part, parts, hsplit⟩ := exists_cons_of_ne_nil splitChars_ne_nil
    simp only [splitChars]
    split
    · next hc =>
      rw [intercalate_cons_of_ne_nil splitChars_ne_nil, ih, of_decide_eq_true hc]
      rfl
    · rw [hsplit] at ih ⊢
      rw [← ih]
      cases parts with
      | nil => rw [intercalate_singleton, intercalate_singleton]
      | cons next parts => rw [intercalate_cons_cons, intercalate_cons_cons,
          cons_append, cons_append]

theorem Normalized.exists_names {path : String} (h : Normalized path) :
    AreNames (namesOf path) ∧ pathOf (namesOf path) = path := by
  by_cases hdot : path = "."
  · rw [hdot]
    exact ⟨fun name hname => absurd hname not_mem_nil, rfl⟩
  · have hnames := h.resolve_left hdot
    have hparts : pathParts path = split path slash :=
      filter_eq_self.mpr fun part hpart => decide_eq_true (hnames part hpart).1
    have hne : split path slash ≠ [] := by
      rw [split, Ne, map_eq_nil_iff]
      exact splitChars_ne_nil
    rw [namesOf, if_neg hdot, hparts]
    refine ⟨hnames, ?_⟩
    rw [pathOf, if_neg hne, ← String.toList_inj, toList_joinParts, split, map_map]
    have hback : (splitChars slash path.toList).map (String.toList ∘ String.ofList) =
        splitChars slash path.toList := by simp [Function.comp_def]
    rw [hback, intercalate_splitChars]

/-! ### What is below a directory -/

theorem mem_prefixKeys (hdir : AreNames names) (hne : names ≠ []) (hparts : AreParts parts) :
    joinParts names ∈ prefixKeys (joinParts parts) ↔ FileTree.Below names parts := by
  rw [prefixKeys, directoryParts, pathParts_joinParts hparts]
  simp only [mem_map, mem_range'_1, length_dropLast]
  constructor
  · rintro ⟨depth, hdepth, hjoin⟩
    have htake : parts.dropLast.take depth = parts.take depth := by
      rw [dropLast_eq_take, take_take, min_eq_left (by omega)]
    have hpart : AreParts (parts.take depth) := fun part hpart =>
      hparts part (mem_of_mem_take hpart)
    rw [htake] at hjoin
    have hnames := joinParts_inj hpart hdir.areParts hjoin
    refine ⟨parts.drop depth, ?_, ?_⟩
    · rw [Ne, drop_eq_nil_iff]
      omega
    · rw [← hnames, take_append_drop]
  · rintro ⟨rest, hrest, rfl⟩
    have hpos : 0 < names.length := length_pos_of_ne_nil hne
    have hrestpos : 0 < rest.length := length_pos_of_ne_nil hrest
    refine ⟨names.length, ⟨hpos, ?_⟩, ?_⟩
    · rw [length_append]
      omega
    · rw [dropLast_append_of_ne_nil hrest, take_left]

theorem pathOf_append (hne : names ≠ []) (hrest : rest ≠ []) :
    pathOf (names ++ rest) = pathOf names ++ "/" ++ pathOf rest := by
  rw [pathOf, pathOf, pathOf, if_neg hne, if_neg hrest,
    if_neg (append_ne_nil_of_left_ne_nil hne rest), joinParts_append hne hrest]

theorem pathOf_ne_empty (h : AreNames names) : pathOf names ≠ "" := by
  rw [pathOf]
  split_ifs with hnil
  · decide
  · exact joinParts_ne_empty h.areParts hnil

theorem pathOf_ne_dot (h : AreNames names) (hne : names ≠ []) : pathOf names ≠ "." := fun hdot =>
  hne (pathOf_inj h (fun _ hname => absurd hname not_mem_nil : AreNames []) hdot)

/-- The suffix that is kept of the path of a member. -/
theorem nextPath_pathOf {old new : List String} (hold : AreNames old) (hrest : AreNames rest)
    (hne : rest ≠ []) (newPath : String) (hnew : newPath = pathOf new) (hnames : AreNames new) :
    nextPath (pathOf old) newPath (pathOf (old ++ rest)) = joinParts [newPath, pathOf rest] := by
  have hsuffix : (if pathOf old = "." then pathOf (old ++ rest)
      else dropLeadingSlash (String.ofList
        ((pathOf (old ++ rest)).toList.drop (pathOf old).toList.length))) = pathOf rest := by
    split_ifs with hdot
    · by_cases hnil : old = []
      · rw [hnil, nil_append]
      · exact absurd hdot (pathOf_ne_dot hold hnil)
    · have hnil : old ≠ [] := by
        rintro rfl
        exact hdot rfl
      rw [pathOf_append hnil hne, String.toList_append, String.toList_append, append_assoc,
        drop_left]
      exact (dropLeadingSlash_cons _).trans String.ofList_toList
  have htrailing : dropTrailingSlash newPath = newPath := by
    refine dropTrailingSlash_eq ?_
    rw [hnew, pathOf]
    split_ifs with hnil
    · decide
    · exact getLast?_joinParts hnames.areParts hnil
  rw [nextPath, hsuffix, htrailing, filter_eq_self.mpr]
  intro text htext
  rw [mem_cons, mem_singleton] at htext
  obtain rfl | rfl := htext
  · exact decide_eq_true (hnew ▸ pathOf_ne_empty hnames)
  · exact decide_eq_true (pathOf_ne_empty hrest)

theorem nextPath_of_ne_nil {old new : List String} (hold : AreNames old) (hnew : AreNames new)
    (hrest : AreNames rest) (hne : rest ≠ []) (hroot : new ≠ []) :
    nextPath (pathOf old) (pathOf new) (pathOf (old ++ rest)) = pathOf (new ++ rest) := by
  rw [nextPath_pathOf hold hrest hne _ rfl hnew, pathOf_append hroot hne, joinParts,
    String.intercalate_cons_cons, String.intercalate_singleton]

/-- A path that is moved to the root is not normalized: it has the root as its first part. -/
theorem nextPath_root {old : List String} (hold : AreNames old) (hrest : AreNames rest)
    (hne : rest ≠ []) (hnames : AreNames names) :
    nextPath (pathOf old) "." (pathOf (old ++ rest)) ≠ pathOf names := by
  have hparts : AreParts ("." :: rest) := by
    intro part hpart
    obtain rfl | hpart := mem_cons.mp hpart
    · decide
    · exact hrest.areParts part hpart
  have hmoved : nextPath (pathOf old) "." (pathOf (old ++ rest)) = joinParts ("." :: rest) := by
    have hroot : AreNames [] := fun _ hname => absurd hname not_mem_nil
    rw [nextPath_pathOf hold hrest hne "." rfl hroot]
    rw [joinParts, joinParts, String.intercalate_cons_cons, String.intercalate_singleton,
      String.intercalate_cons_of_ne_nil hne, pathOf, if_neg hne, joinParts]
  intro heq
  have hpath := congrArg pathParts (hmoved.symm.trans heq)
  rw [pathParts_joinParts hparts, pathOf] at hpath
  split_ifs at hpath
  · exact hne (cons.inj hpath).2
  · rw [pathParts_joinParts hnames.areParts] at hpath
    exact not_areNames_dot (hpath ▸ hnames)

end AgentSight.Nebula
