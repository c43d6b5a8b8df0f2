import AgentSight.Nebula.Paths
import Mathlib.Data.Finset.Max
import Mathlib.Data.List.Destutter
import Mathlib.Data.Prod.Lex
import Mathlib.Data.String.Basic

/-!
# The path of a file action

`resolve_path` of `repository.rs`: the text that a tool was given for a file is made absolute, is
normalized without a look at the file system, and is named relative to the first worktree that it
is in. The roots come sorted from `worktree_roots`, the deepest first.

The text goes through `std::path`, where a backslash is a character of a name, and each backslash
of what is left becomes a slash after that. So a name with a backslash in it falls into parts that
no normalization has seen, which may lead out of the worktree.
-/

namespace AgentSight.Nebula

open Str List Option

/-! ### Paths -/

/-- `std::path::Component`. -/
inductive Component where
  | rootDir
  | curDir
  | parentDir
  | normal (name : String)
  deriving DecidableEq

namespace Component

/-- The component that a part between two slashes stands for. -/
def ofPart (part : String) : Option Component :=
  if part = "" ∨ part = "." then none
  else if part = ".." then some .parentDir
  else some (.normal part)

def text : Component → String
  | .rootDir => "/"
  | .curDir => "."
  | .parentDir => ".."
  | .normal name => name

end Component

def isAbsolute (path : String) : Bool := startsWith path "/"

/-- `Path::components`: a dot is a component at the start of a relative path only. -/
def components (path : String) : List Component :=
  let body := (split path slash).filterMap Component.ofPart
  if isAbsolute path then .rootDir :: body
  else if (split path slash).head? = some "." then .curDir :: body
  else body

/-- `Path::join`. -/
def joinPath (base path : String) : String :=
  if isAbsolute path then path
  else if base = "" ∨ endsWith base "/" then base ++ path
  else base ++ "/" ++ path

/-- `PathBuf::push` of a component, on a path that is kept as its components. -/
def push (output : List Component) : Component → List Component
  | .rootDir => [.rootDir]
  | component => output ++ [component]

/-- `PathBuf::pop`, which leaves the root alone. -/
def pop (output : List Component) : List Component :=
  match output.getLast? with
  | some (.normal _) => output.dropLast
  | _ => output

def lexicalStep (output : List Component) : Component → List Component
  | .curDir => output
  | .parentDir => pop output
  | component => push output component

def lexical (path : String) : List Component := (components path).foldl lexicalStep []

/-- The text of a path that is kept as its components. -/
def pathText : List Component → String
  | .rootDir :: rest => "/" ++ joinParts (rest.map Component.text)
  | path => joinParts (path.map Component.text)

/-- `Path::strip_prefix`. -/
def stripComponents (path base : List Component) : Option (List Component) :=
  if base <+: path then some (path.drop base.length) else none

/-! ### Resolution -/

def backslashToSlash (c : Char) : Char := if c = '\\' then '/' else c

/-- `replace('\\', "/")`. -/
def replaceBackslash (text : String) : String :=
  String.ofList (text.toList.map backslashToSlash)

def relativeToRoots (path : String) (roots : List String) : Option String :=
  let normalized := lexical path
  roots.findSome? fun root =>
    (stripComponents normalized (lexical root)).map fun relative =>
      let value := replaceBackslash (pathText relative)
      if value = "" then "." else value

def isQuote (c : Char) : Bool := c == '\x22' || c == '\x27' || c == '\x60'

/-- `trim_matches` for the quotes. -/
def trimQuoteMarks (text : String) : String :=
  String.ofList ((text.toList.dropWhile isQuote).reverse.dropWhile isQuote).reverse

/-- The characters that a text with a pattern or more than one line has. -/
def isRefused (c : Char) : Bool := c == '*' || c == '$' || c == '\n' || c == '\r'

/-- The path that `resolve_path` looks for in the roots. -/
def namedPath (raw : String) (cwd : Option String) : Option String :=
  let raw := trimQuoteMarks (trim raw)
  if raw = "" ∨ raw.toList.any isRefused then none
  else if isAbsolute raw then some raw
  else cwd.map (joinPath · raw)

def resolvePath (raw : String) (cwd : Option String) (roots : List String) : Option String :=
  (namedPath raw cwd).bind (relativeToRoots · roots)

/-! ### The roots -/

/-- `Component` in its derived order, for a comparison of paths. -/
def Component.sortKey (component : Component) : ℕ ×ₗ String :=
  match component with
  | .rootDir => toLex (0, "")
  | .curDir => toLex (1, "")
  | .parentDir => toLex (2, "")
  | .normal name => toLex (3, name)

/-- More components come first, and equally many in the order of the paths. -/
def rootKey (root : String) : ℕᵒᵈ ×ₗ List (ℕ ×ₗ String) :=
  toLex (OrderDual.toDual (components root).length, (components root).map Component.sortKey)

/-- `worktree_roots`, from the lines of `git worktree list --porcelain`. -/
def worktreeRoots (listing : List String) (repo : String) : List String :=
  let roots := listing.filterMap (stripPrefix · "worktree ") ++ [repo]
  (roots.mergeSort fun left right => rootKey left ≤ rootKey right).destutter
    fun left right => components left ≠ components right

/-! ### Normalization of an absolute path -/

def rooted (names : List String) : List Component := .rootDir :: names.map .normal

variable {path base root : String} {names rest : List String} {parts : List Component}

/-- A part between slashes stands for nothing, for the parent, or for a name. -/
theorem ofPart_cases {part : String} (hslash : '/' ∉ part.toList) {component : Component}
    (h : Component.ofPart part = some component) :
    component = .parentDir ∨ ∃ name, IsName name ∧ component = .normal name := by
  unfold Component.ofPart at h
  split_ifs at h with hempty hparent
  · exact .inl (some.inj h).symm
  · rw [not_or] at hempty
    exact .inr ⟨part, ⟨hempty.1, hempty.2, hparent, hslash⟩, (some.inj h).symm⟩

theorem ofPart_of_isName {name : String} (h : IsName name) :
    Component.ofPart name = some (.normal name) := by
  rw [Component.ofPart, if_neg (not_or.mpr ⟨h.1, h.2.1⟩), if_neg h.2.2.1]

theorem notMem_of_mem_split {part : String} (h : part ∈ split path slash) : '/' ∉ part.toList := by
  obtain ⟨chars, hchars, rfl⟩ := mem_map.mp h
  rw [String.toList_ofList]
  intro hmem
  have hslash := forall_of_mem_splitChars hchars '/' hmem
  simp [slash] at hslash

theorem pop_rooted (names : List String) : pop (rooted names) = rooted names.dropLast := by
  obtain rfl | ⟨front, name, rfl⟩ := eq_nil_or_concat names
  · rfl
  · have hlast : rooted (front ++ [name]) = rooted front ++ [.normal name] := by simp [rooted]
    rw [concat_eq_append, dropLast_concat, hlast, pop, getLast?_concat]
    exact dropLast_concat

/-- From an absolute path each step leads to an absolute path. -/
theorem exists_rooted_foldl (hparts : ∀ component ∈ parts,
    component = .parentDir ∨ ∃ name, IsName name ∧ component = .normal name)
    (hnames : AreNames names) :
    ∃ names', AreNames names' ∧ parts.foldl lexicalStep (rooted names) = rooted names' := by
  induction parts generalizing names with
  | nil => exact ⟨names, hnames, rfl⟩
  | cons component parts ih =>
    rw [forall_mem_cons] at hparts
    rw [foldl_cons]
    obtain rfl | ⟨name, hname, rfl⟩ := hparts.1
    · rw [lexicalStep, pop_rooted]
      exact ih hparts.2 fun name hname => hnames name (mem_of_mem_dropLast hname)
    · have hpush : lexicalStep (rooted names) (.normal name) = rooted (names ++ [name]) := by
        simp [lexicalStep, push, rooted]
      rw [hpush]
      refine ih hparts.2 (hnames.append fun other hother => ?_)
      rw [mem_singleton] at hother
      exact hother ▸ hname

theorem body_cases (path : String) : ∀ component ∈ (split path slash).filterMap Component.ofPart,
    component = .parentDir ∨ ∃ name, IsName name ∧ component = .normal name := by
  intro component hcomponent
  obtain ⟨part, hpart, hof⟩ := mem_filterMap.mp hcomponent
  exact ofPart_cases (notMem_of_mem_split hpart) hof

/-- An absolute path is normalized to the root and names below it. -/
theorem exists_rooted_lexical (h : isAbsolute path = true) :
    ∃ names, AreNames names ∧ lexical path = rooted names := by
  rw [lexical, components, if_pos h]
  have hroot : AreNames [] := fun _ hname => nomatch hname
  exact exists_rooted_foldl (body_cases path) hroot

/-! ### Paths that are joined -/

/-- What the parts between the slashes stand for. -/
def body (path : String) : List Component := (split path slash).filterMap Component.ofPart

theorem body_append_slash (front back : String) :
    body (front ++ "/" ++ back) = body front ++ body back := by
  rw [body, split_append_slash (by decide), filterMap_append, body, body]

theorem components_of_isAbsolute (h : isAbsolute path = true) :
    components path = .rootDir :: body path := by
  rw [components, if_pos h, body]

theorem isAbsolute_append (h : isAbsolute base = true) (back : String) :
    isAbsolute (base ++ back) = true := by
  rw [isAbsolute, startsWith_iff] at h ⊢
  rw [String.toList_append]
  exact h.trans (prefix_append _ _)

theorem exists_of_endsWith (h : endsWith base "/" = true) : ∃ front, base = front ++ "/" := by
  obtain ⟨front, hfront⟩ := isSuffixOf_iff_suffix.mp h
  refine ⟨String.ofList front, ?_⟩
  rw [← String.toList_inj, String.toList_append, String.toList_ofList, hfront]

theorem body_joinPath (hbase : base ≠ "") (hpath : isAbsolute path = false) :
    body (joinPath base path) = body base ++ body path := by
  have hempty : body "" = [] := by decide
  simp only [joinPath, hpath, Bool.false_eq_true, if_false, hbase, false_or]
  split_ifs with hends
  · obtain ⟨front, rfl⟩ := exists_of_endsWith hends
    have hself : body (front ++ "/") = body front := by
      rw [← String.append_empty (s := front ++ "/"), body_append_slash, hempty, append_nil]
    rw [body_append_slash, hself]
  · rw [body_append_slash]

theorem isAbsolute_joinPath (hbase : isAbsolute base = true) (path : String) :
    isAbsolute (joinPath base path) = true := by
  rw [joinPath]
  split_ifs with hpath
  · exact hpath
  · exact isAbsolute_append hbase path
  · rw [String.append_assoc]
    exact isAbsolute_append hbase _

theorem ne_empty_of_isAbsolute (h : isAbsolute base = true) : base ≠ "" := by
  rintro rfl
  exact absurd h (by decide)

/-- A relative path is walked from where the path before it leads. -/
theorem lexical_joinPath (hbase : isAbsolute base = true) (hpath : isAbsolute path = false) :
    lexical (joinPath base path) = (body path).foldl lexicalStep (lexical base) := by
  rw [lexical, components_of_isAbsolute (isAbsolute_joinPath hbase path),
    body_joinPath (ne_empty_of_isAbsolute hbase) hpath, lexical, components_of_isAbsolute hbase,
    ← cons_append, foldl_append]

theorem foldl_normal (names : List String) (output : List Component) :
    (names.map Component.normal).foldl lexicalStep output =
      output ++ names.map Component.normal := by
  induction names generalizing output with
  | nil => simp
  | cons name names ih => rw [map_cons, foldl_cons, ih]; simp [lexicalStep, push]

theorem body_joinParts (h : AreNames names) (hne : names ≠ []) :
    body (joinParts names) = names.map Component.normal := by
  rw [body, split_joinParts h.areParts hne,
    filterMap_congr fun name hname => ofPart_of_isName (h name hname)]
  exact congrFun filterMap_eq_map names

theorem body_pathOf (h : AreNames names) : body (pathOf names) = names.map Component.normal := by
  rw [pathOf]
  split_ifs with hnil
  · rw [hnil]
    decide
  · exact body_joinParts h hnil

theorem isAbsolute_pathOf (h : AreNames names) : isAbsolute (pathOf names) = false := by
  rw [pathOf]
  split_ifs with hnil
  · decide
  · rw [← Bool.not_eq_true, isAbsolute, startsWith_iff]
    rintro ⟨back, hback⟩
    refine head?_joinParts h.areParts hnil ?_
    rw [← hback]
    rfl

/-! ### Names and backslashes -/

theorem length_splitChars (p : Char → Bool) (cs : List Char) :
    (splitChars p cs).length = cs.countP p + 1 := by
  induction cs with
  | nil => rfl
  | cons c cs ih =>
    rw [splitChars, countP_cons]
    split_ifs with hc
    · rw [length_cons, ih]
    · cases hparts : splitChars p cs with
      | nil => exact absurd hparts splitChars_ne_nil
      | cons part parts =>
        rw [hparts] at ih
        simpa using ih

/-- Each backslash that becomes a slash makes one part more. -/
theorem length_split_replaceBackslash (text : String) :
    (split (replaceBackslash text) slash).length =
      (split text slash).length + text.toList.count '\\' := by
  have hcount (cs : List Char) : (cs.map backslashToSlash).countP slash =
      cs.countP slash + cs.count '\\' := by
    induction cs with
    | nil => rfl
    | cons c cs ih =>
      rw [map_cons, countP_cons, countP_cons, ih]
      by_cases hback : c = '\\'
      · subst hback
        simp [backslashToSlash, slash]
        omega
      · simp [backslashToSlash, hback]
        omega
  rw [split, split, length_map, length_map, length_splitChars, length_splitChars,
    replaceBackslash, String.toList_ofList, hcount]
  omega

theorem replaceBackslash_eq_self {text : String} (h : '\\' ∉ text.toList) :
    replaceBackslash text = text := by
  have hmap : text.toList.map backslashToSlash = text.toList := by
    refine (map_congr_left fun c hc => ?_).trans (map_id _)
    have hne : c ≠ '\\' := by
      rintro rfl
      exact h hc
    rw [backslashToSlash, if_neg hne, id]
  rw [replaceBackslash, hmap, String.ofList_toList]

/-- A join has the backslashes of its names. -/
theorem mem_joinParts {c : Char} (hc : c ≠ '/') :
    c ∈ (joinParts names).toList ↔ ∃ name ∈ names, c ∈ name.toList := by
  induction names with
  | nil => simp [joinParts]
  | cons name names ih =>
    cases names with
    | nil => simp [joinParts]
    | cons next names =>
      have hjoin : joinParts (name :: next :: names) = name ++ "/" ++ joinParts (next :: names) :=
        String.intercalate_cons_cons
      rw [hjoin]
      simp only [String.toList_append, mem_append, ih, mem_cons, exists_eq_or_imp]
      simp [hc]

/-! ### Containment -/

/-- The root contains the path. -/
def IsUnder (path root : String) : Prop := lexical root <+: lexical path

instance (path : String) : DecidablePred (IsUnder path) := fun _ =>
  inferInstanceAs (Decidable (_ <+: _))

/-- The names that lead from the root to the path. -/
def below (path root : String) : List Component := (lexical path).drop (lexical root).length

/-- A deepest one of the roots that contain the path. -/
structure Deepest (path : String) (roots : List String) (root : String) : Prop where
  mem : root ∈ roots
  isUnder : IsUnder path root
  deepest : ∀ other ∈ roots, IsUnder path other → (lexical other).length ≤ (lexical root).length

/-- What is resolved is a normalized path, and leads from a deepest root to where the path leads. -/
def Contained (raw : String) (cwd : Option String) (roots : List String) : Prop :=
  ∀ value ∈ resolvePath raw cwd roots, Normalized value ∧
    ∃ path ∈ namedPath raw cwd, ∀ root, Deepest path roots root →
      lexical (joinPath root value) = lexical path

/-- The first of the roots that contain the path is a deepest one, and no name below it has a
backslash. -/
def Resolves (raw : String) (cwd : Option String) (roots : List String) : Prop :=
  ∀ path ∈ namedPath raw cwd, ∀ root ∈ roots.find? (IsUnder path ·),
    Deepest path roots root ∧ ∀ component ∈ below path root, '\\' ∉ component.text.toList

/-- The text of the names. -/
def relativeValue (relative : List Component) : String :=
  let value := replaceBackslash (pathText relative)
  if value = "" then "." else value

theorem relativeToRoots_eq (path : String) (roots : List String) : relativeToRoots path roots =
      (roots.find? (IsUnder path ·)).map fun root => relativeValue (below path root) := by
  induction roots with
  | nil => rfl
  | cons root roots ih =>
    rw [relativeToRoots] at ih ⊢
    rw [findSome?_cons, find?_cons, stripComponents]
    by_cases hunder : lexical root <+: lexical path
    · have hfirst : IsUnder path root := hunder
      simp only [hunder, hfirst, decide_true, if_true, map_some]
      rfl
    · simpa [IsUnder, hunder] using ih

variable {roots : List String}

theorem exists_deepest {path root : String} (hmem : root ∈ roots)
    (hunder : IsUnder path root) : ∃ deep, Deepest path roots deep := by
  obtain ⟨deep, hdeep, hmax⟩ := (roots.toFinset.filter (IsUnder path)).exists_max_image
    (fun root => (lexical root).length) ⟨root, by simp [hmem, hunder]⟩
  simp only [Finset.mem_filter, List.mem_toFinset] at hdeep hmax
  exact ⟨deep, hdeep.1, hdeep.2, fun other hother hother' => hmax other ⟨hother, hother'⟩⟩

/-- Where an absolute root contains an absolute path, the path goes on from it. -/
theorem exists_below (hpath : isAbsolute path = true) (hroot : isAbsolute root = true)
    (hunder : IsUnder path root) : ∃ names, AreNames names ∧
      lexical path = lexical root ++ names.map Component.normal ∧
      below path root = names.map Component.normal := by
  obtain ⟨names, hnames, hlexical⟩ := exists_rooted_lexical hpath
  obtain ⟨front, -, hfront⟩ := exists_rooted_lexical hroot
  obtain ⟨rest, hrest⟩ := hunder
  have hback : names.map Component.normal = front.map Component.normal ++ rest := by
    rw [hlexical, hfront] at hrest
    exact (cons.inj hrest).2.symm
  obtain ⟨front', back, rfl, -, rfl⟩ := map_eq_append_iff.mp hback
  refine ⟨back, fun name hname => hnames name (mem_append_right _ hname), hrest.symm, ?_⟩
  rw [below, ← hrest, drop_left]

theorem relativeValue_of_no_backslash (h : AreNames names)
    (hback : ∀ name ∈ names, '\\' ∉ name.toList) :
    relativeValue (names.map Component.normal) = pathOf names := by
  have htext : pathText (names.map Component.normal) = joinParts names := by
    cases names <;> simp [pathText, Component.text, Function.comp_def]
  have hplain : '\\' ∉ (joinParts names).toList := by
    rw [mem_joinParts (by decide)]
    rintro ⟨name, hname, hmem⟩
    exact hback name hname hmem
  rw [relativeValue, htext, replaceBackslash_eq_self hplain, pathOf]
  by_cases hnil : names = []
  · rw [hnil]
    rfl
  · rw [if_neg hnil, if_neg (joinParts_ne_empty h.areParts hnil)]

theorem replaceBackslash_eq_dot {text : String} (h : replaceBackslash text = ".") : text = "." := by
  have hchars : text.toList.map backslashToSlash = ['.'] := by
    rw [replaceBackslash, ← String.toList_inj, String.toList_ofList] at h
    exact h
  obtain ⟨c, hc, hdot⟩ := map_eq_singleton_iff.mp hchars
  have hdot' : c = '.' := by
    unfold backslashToSlash at hdot
    split_ifs at hdot
    · exact absurd hdot (by decide)
    · exact hdot
  rw [← String.toList_inj, hc, hdot']
  rfl

theorem replaceBackslash_ne_empty {text : String} (h : text ≠ "") : replaceBackslash text ≠ "" := by
  intro hempty
  rw [replaceBackslash, ← String.toList_inj, String.toList_ofList, String.toList_empty,
    map_eq_nil_iff] at hempty
  exact h (String.toList_eq_nil_iff.mp hempty)

/-- A value that is normalized and has no more parts than there are names has no backslash. -/
theorem no_backslash_of_normalized (h : AreNames names)
    (hnormalized : Normalized (relativeValue (names.map Component.normal)))
    (hlength : (namesOf (relativeValue (names.map Component.normal))).length ≤ names.length) :
    ∀ name ∈ names, '\\' ∉ name.toList := by
  by_cases hnil : names = []
  · rw [hnil]
    exact fun _ hname => nomatch hname
  have htext : pathText (names.map Component.normal) = joinParts names := by
    cases names <;> simp [pathText, Component.text, Function.comp_def]
  have hvalue : relativeValue (names.map Component.normal) =
      replaceBackslash (joinParts names) := by
    rw [relativeValue, htext,
      if_neg (replaceBackslash_ne_empty (joinParts_ne_empty h.areParts hnil))]
  have hdot : replaceBackslash (joinParts names) ≠ "." := by
    intro hdot
    have hsplit := split_joinParts h.areParts hnil
    rw [replaceBackslash_eq_dot hdot] at hsplit
    exact not_areNames_dot (hsplit ▸ h)
  rw [hvalue] at hnormalized hlength
  have hnames := hnormalized.resolve_left hdot
  have hparts : pathParts (replaceBackslash (joinParts names)) =
      split (replaceBackslash (joinParts names)) slash :=
    filter_eq_self.mpr fun part hpart => decide_eq_true (hnames part hpart).1
  rw [namesOf, if_neg hdot, hparts, length_split_replaceBackslash,
    split_joinParts h.areParts hnil] at hlength
  have hcount : (joinParts names).toList.count '\\' = 0 := by omega
  rw [count_eq_zero, mem_joinParts (by decide)] at hcount
  exact fun name hname hmem => hcount ⟨name, hname, hmem⟩

theorem normalized_pathOf (h : AreNames names) : Normalized (pathOf names) := by
  rw [pathOf]
  split_ifs with hnil
  · exact .inl rfl
  · refine .inr ?_
    rw [split_joinParts h.areParts hnil]
    exact h

/-- A normalized path leads on from an absolute one by its names. -/
theorem lexical_joinPath_pathOf (hbase : isAbsolute base = true) (h : AreNames names) :
    lexical (joinPath base (pathOf names)) = lexical base ++ names.map Component.normal := by
  rw [lexical_joinPath hbase (isAbsolute_pathOf h), body_pathOf h, foldl_normal]

theorem isAbsolute_namedPath {raw : String} {cwd : Option String}
    (hcwd : ∀ base ∈ cwd, isAbsolute base = true) (h : path ∈ namedPath raw cwd) :
    isAbsolute path = true := by
  rw [namedPath] at h
  split at h
  · cases h
  · split at h
    · next habsolute => exact some.inj h ▸ habsolute
    · obtain ⟨base, hbase, rfl⟩ := map_eq_some_iff.mp h
      exact isAbsolute_joinPath (hcwd base hbase) _

theorem mem_resolvePath {raw value : String} {cwd : Option String} :
    value ∈ resolvePath raw cwd roots ↔ ∃ path ∈ namedPath raw cwd,
      ∃ root ∈ roots.find? (IsUnder path ·), relativeValue (below path root) = value := by
  rw [mem_def, resolvePath, bind_eq_some_iff]
  simp [relativeToRoots_eq, map_eq_some_iff, mem_def]

/-- The deepest roots that contain a path lead to the same place. -/
theorem Deepest.lexical_eq {deep : String} (h : Deepest path roots root)
    (h' : Deepest path roots deep) : lexical deep = lexical root :=
  (prefix_of_prefix_length_le h'.isUnder h.isUnder
    (h.deepest deep h'.mem h'.isUnder)).eq_of_length
      (Nat.le_antisymm (h.deepest deep h'.mem h'.isUnder) (h'.deepest root h.mem h.isUnder))

/-- **When a resolved path stays in its worktree.** For an absolute working directory and absolute
roots, what `resolve_path` returns is a normalized path that leads from a deepest root to where the
path leads if and only if the first of the roots that contain it is a deepest one and no name below
it has a backslash. -/
theorem resolve_path_contained_iff (raw : String) (cwd : Option String) (roots : List String)
    (hcwd : ∀ base ∈ cwd, isAbsolute base = true)
    (hroots : ∀ root ∈ roots, isAbsolute root = true) :
    Contained raw cwd roots ↔ Resolves raw cwd roots := by
  constructor
  · intro hcontained path hpath root hfind
    have hmem := mem_of_find?_eq_some hfind
    have hunder : IsUnder path root := by simpa using find?_some hfind
    have habsolute := isAbsolute_namedPath hcwd hpath
    obtain ⟨names, hnames, hlexical, hbelow⟩ := exists_below habsolute (hroots root hmem) hunder
    obtain ⟨hnormalized, path', hpath', hjoin⟩ := hcontained _
      (mem_resolvePath.mpr ⟨path, hpath, root, hfind, rfl⟩)
    obtain rfl : path = path' := some.inj (hpath.symm.trans hpath')
    rw [hbelow] at hnormalized hjoin
    obtain ⟨deep, hdeep⟩ := exists_deepest hmem hunder
    obtain ⟨rest, -, hrest, -⟩ := exists_below habsolute (hroots deep hdeep.mem) hdeep.isUnder
    -- What is joined to the deepest root has as many names as the path has below it.
    obtain ⟨hvalue, hself⟩ := hnormalized.exists_names
    have hdeepJoin := hjoin deep hdeep
    rw [← hself, lexical_joinPath_pathOf (hroots deep hdeep.mem) hvalue, hrest] at hdeepJoin
    have hcount := congrArg List.length (append_cancel_left hdeepJoin)
    have hlength := congrArg List.length (hlexical.symm.trans hrest)
    have hle := hdeep.deepest root hmem hunder
    simp only [length_append, length_map] at hcount hlength
    have hback := no_backslash_of_normalized hnames hnormalized (by omega)
    rw [relativeValue_of_no_backslash hnames hback, namesOf_pathOf hnames] at hcount
    refine ⟨⟨hmem, hunder, fun other hother hother' => ?_⟩, ?_⟩
    · have hdeepest := hdeep.deepest other hother hother'
      omega
    · rw [hbelow]
      intro component hcomponent
      obtain ⟨name, hname, rfl⟩ := mem_map.mp hcomponent
      exact hback name hname
  · intro hresolves value hvalue
    obtain ⟨path, hpath, root, hfind, rfl⟩ := mem_resolvePath.mp hvalue
    obtain ⟨hdeepest, hback⟩ := hresolves path hpath root hfind
    obtain ⟨names, hnames, hlexical, hbelow⟩ := exists_below (isAbsolute_namedPath hcwd hpath)
      (hroots root hdeepest.mem) hdeepest.isUnder
    rw [hbelow] at hback ⊢
    rw [relativeValue_of_no_backslash hnames fun name hname =>
      hback (.normal name) (mem_map_of_mem hname)]
    refine ⟨normalized_pathOf hnames, path, hpath, fun deep hdeep => ?_⟩
    rw [lexical_joinPath_pathOf (hroots deep hdeep.mem) hnames, hdeepest.lexical_eq hdeep, hlexical]

/-- A name with backslashes in it leads out of the repository. -/
theorem resolve_path_escapes : ¬ ∀ (raw : String) (cwd : Option String) (roots : List String),
    (∀ base ∈ cwd, isAbsolute base = true) → (∀ root ∈ roots, isAbsolute root = true) →
      Contained raw cwd roots := by
  intro h
  have hvalue : resolvePath "..\\secret" (some "/repo") ["/repo"] = some "../secret" := by
    decide +kernel
  obtain ⟨hnormalized, -⟩ :=
    h "..\\secret" (some "/repo") ["/repo"] (by decide) (by decide) _ hvalue
  exact absurd hnormalized (by decide)

theorem resolve_path_contained_iff_source : Contained "src/../lib.rs" (some "/repo") ["/repo"] := by
  refine (resolve_path_contained_iff "src/../lib.rs" (some "/repo") ["/repo"] (by decide)
    (by decide)).mpr fun path hpath root hfind => ?_
  have hnamed : namedPath "src/../lib.rs" (some "/repo") = some "/repo/src/../lib.rs" := by
    decide +kernel
  rw [hnamed] at hpath
  cases hpath
  have hroot := mem_of_find?_eq_some hfind
  rw [mem_singleton] at hroot
  subst hroot
  have hunder : IsUnder "/repo/src/../lib.rs" "/repo" := by decide +kernel
  refine ⟨⟨mem_singleton_self _, hunder, fun other hother _ => ?_⟩, by decide +kernel⟩
  rw [mem_singleton] at hother
  rw [hother]

/-! ### The roots that the callers pass -/

/-- Among roots that come in the order of their depth the first is a deepest one. -/
theorem deepest_of_pairwise
    (hroots : roots.Pairwise fun left right => (lexical right).length ≤ (lexical left).length)
    (hfind : root ∈ roots.find? (IsUnder path ·)) : Deepest path roots root := by
  obtain ⟨hunder, before, after, rfl, hbefore⟩ := find?_eq_some_iff_append.mp hfind
  refine ⟨mem_append_right _ mem_cons_self, of_decide_eq_true hunder,
    fun other hother hother' => ?_⟩
  obtain hother | hother := mem_append.mp hother
  · exact absurd (decide_eq_true hother') (by simpa using hbefore other hother)
  · obtain rfl | hother := mem_cons.mp hother
    · exact Nat.le_refl _
    · exact rel_of_pairwise_cons (pairwise_append.mp hroots).2.1 hother

theorem pairwise_worktreeRoots (listing : List String) (repo : String) :
    (worktreeRoots listing repo).Pairwise fun left right =>
      (components right).length ≤ (components left).length := by
  have hsorted := @pairwise_mergeSort _ (fun left right => rootKey left ≤ rootKey right)
    (fun _ _ _ h h' => decide_eq_true ((of_decide_eq_true h).trans (of_decide_eq_true h')))
    (fun left right => by simpa using le_total (rootKey left) (rootKey right))
    (listing.filterMap (stripPrefix · "worktree ") ++ [repo])
  refine (hsorted.imp fun {left right} hle => ?_).sublist (destutter_sublist _ _)
  have hkey := Prod.Lex.le_iff.mp (of_decide_eq_true hle)
  obtain hlt | ⟨heq, -⟩ := hkey
  · exact Nat.le_of_lt hlt
  · exact Nat.le_of_eq (congrArg OrderDual.ofDual heq).symm

/-- With the roots of a repository, which git names without dots, a path gets the name it has in the
deepest worktree that contains it, in whatever order git lists them. -/
theorem relativeToRoots_worktreeRoots (path value : String) (listing : List String) (repo : String)
    (hroots : ∀ root ∈ worktreeRoots listing repo, components root = lexical root) :
    value ∈ relativeToRoots path (worktreeRoots listing repo) ↔
      ∃ root, Deepest path (worktreeRoots listing repo) root ∧
        relativeValue (below path root) = value := by
  have hdepth : (worktreeRoots listing repo).Pairwise fun left right =>
      (lexical right).length ≤ (lexical left).length := by
    refine (pairwise_worktreeRoots listing repo).imp_of_mem fun hleft hright hle => ?_
    rwa [← hroots _ hleft, ← hroots _ hright]
  rw [relativeToRoots_eq, mem_def, map_eq_some_iff]
  constructor
  · rintro ⟨root, hfind, hvalue⟩
    exact ⟨root, deepest_of_pairwise hdepth hfind, hvalue⟩
  · rintro ⟨deep, hdeep, rfl⟩
    cases hfind : (worktreeRoots listing repo).find? (IsUnder path ·) with
    | none => exact absurd (decide_eq_true hdeep.isUnder) (find?_eq_none.mp hfind deep hdeep.mem)
    | some root =>
      have hsame := (deepest_of_pairwise hdepth hfind).lexical_eq hdeep
      exact ⟨root, rfl, by rw [below, below, hsame]⟩

theorem relativeToRoots_worktreeRoots_nested : "lib.rs" ∈
    relativeToRoots "/repo/sub/lib.rs" (worktreeRoots ["worktree /repo/sub"] "/repo") := by
  have hroots : worktreeRoots ["worktree /repo/sub"] "/repo" = ["/repo/sub", "/repo"] := by
    rw [worktreeRoots, mergeSort_of_pairwise (by decide +kernel)]
    decide +kernel
  refine (relativeToRoots_worktreeRoots _ _ _ _ (by rw [hroots]; decide +kernel)).mpr
    ⟨"/repo/sub", ?_, by decide +kernel⟩
  rw [hroots]
  exact ⟨by decide +kernel, by decide +kernel, by decide +kernel⟩

end AgentSight.Nebula
