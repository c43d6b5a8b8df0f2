import AgentSight.Bridge.Metadata
import AgentSight.Lib.LexicalPath

/-!
# The class of a workspace

`workspace_class` of `bridge/metadata.rs`: the bucket of a path and the basename of the workspace.
For a path that is a home root the only basename is the account, so the bucket stands alone.

The home prefix is looked for in the path as it is spelled. A path that is a home root without being
spelled as one has its last component, the account, for a basename.
-/

namespace AgentSight.Bridge.Metadata

open Str LexicalPath List

def workspaceBasename (path : String) : Option String :=
  let trimmed := trimEndMatches (trim path) '/'
  let normalized := trimmed ++ "/"
  -- Under a home prefix only the home-relative part may be named.
  let nameable := (homeRelative normalized).getD trimmed
  let basename := trim (lastPart (trimEndMatches nameable '/') '/')
  if !basename.isEmpty && !containsChar basename '=' then some basename else none

/-- The bucket of a workspace and its own basename. -/
def workspaceClass (path : String) : Option String := do
  let bucket ← pathClass path
  match workspaceBasename path with
  | some basename => some (bucket ++ ":" ++ basename)
  | none => some bucket

/-! ### What a path names -/

def partOf (part : String) : LexicalPath.Part String :=
  if part = "" ∨ part = "." then .stay
  else if part = ".." then .up
  else .down part

/-- The names from the root to where a path leads. -/
def pathNames (path : String) : List String :=
  resolve ((split (trim path) (· == '/')).map partOf)

/-- The path leads from the home root of `account` down the names `below`. -/
structure UnderHome (path account : String) (below : List String) : Prop where
  absolute : startsWith (trim path) "/" = true
  names : pathNames path = "home" :: account :: below ∨
    pathNames path = "Users" :: account :: below ∨
    account = "root" ∧ pathNames path = "root" :: below

/-- A label hides what led to the workspace: it is a bucket, alone or with a basename, and the
basename is the workspace's own one or a dot component, which names nothing. A home root has no
basename of its own, so neither the account nor a component other than the last one below it is in
the label. -/
def Hides (below : List String) (label : String) : Prop :=
  '/' ∉ label.toList ∧ ∃ bucket ∈ classes, label = bucket ∨
    ∃ basename, label = bucket ++ ":" ++ basename ∧
      (basename = "." ∨ basename = ".." ∨ below.getLast?.map trim = some basename)

/-- The text spells a home root. -/
def IsHomeRoot (text : String) : Prop :=
  text = "/root" ∨ ∃ user, '/' ∉ user.toList ∧ (text = "/home/" ++ user ∨ text = "/Users/" ++ user)

/-- The text up to its last slashes. -/
def spelled (path : String) : String := trimEndMatches (trim path) '/'

/-! ### Parts between slashes -/

variable {path text front back account label : String} {below : List String}

theorem toList_eq_iff {s t : String} : s.toList = t.toList ↔ s = t := String.toList_inj

theorem split_of_notMem (h : '/' ∉ text.toList) : split text (· == '/') = [text] := by
  have hparts : splitChars (· == '/') text.toList = [text.toList] := by
    refine splitChars_of_forall fun c hc => ?_
    rw [beq_eq_false_iff_ne]
    rintro rfl
    exact h hc
  rw [split, hparts, map_singleton, String.ofList_toList]

theorem split_ne_nil (text : String) : split text (· == '/') ≠ [] :=
  mt map_eq_nil_iff.mp splitChars_ne_nil

theorem exists_split_eq_concat (text : String) :
    ∃ before, split text (· == '/') = before ++ [lastPart text '/'] := by
  have hlast := getLast?_eq_some_getLast (split_ne_nil text)
  refine ⟨(split text (· == '/')).dropLast, ?_⟩
  rw [lastPart, hlast, Option.getD_some, dropLast_append_getLast]

theorem lastPart_append (front back : String) :
    lastPart (front ++ "/" ++ back) '/' = lastPart back '/' := by
  have hlast := getLast?_eq_some_getLast (split_ne_nil back)
  rw [lastPart, lastPart, split_append_slash (by decide), getLast?_append, hlast]
  rfl

theorem notMem_lastPart (text : String) : '/' ∉ (lastPart text '/').toList := by
  obtain ⟨before, hbefore⟩ := exists_split_eq_concat text
  obtain ⟨part, hpart, hlast⟩ := mem_map.mp (hbefore ▸ mem_concat_self :
    lastPart text '/' ∈ split text (· == '/'))
  rw [← hlast, String.toList_ofList]
  intro hmem
  simpa using forall_of_mem_splitChars hpart '/' hmem

/-! ### Trailing slashes -/

theorem getLast?_trimEndMatches (text : String) (c : Char) :
    (trimEndMatches text c).toList.getLast? ≠ some c := by
  rw [trimEndMatches, String.toList_ofList, getLast?_reverse]
  intro hhead
  simpa [hhead] using head?_dropWhile_not (· == c) text.toList.reverse

theorem trimEndMatches_eq_self {c : Char} (h : text.toList.getLast? ≠ some c) :
    trimEndMatches text c = text := by
  have hkeep : text.toList.reverse.dropWhile (· == c) = text.toList.reverse := by
    cases hchars : text.toList.reverse with
    | nil => rfl
    | cons d chars =>
      refine dropWhile_cons_of_neg fun hd => h ?_
      rw [← head?_reverse, hchars, head?_cons, eq_of_beq hd]
  rw [trimEndMatches, hkeep, reverse_reverse, String.ofList_toList]

theorem trimEndMatches_append_slash (h : text.toList.getLast? ≠ some '/') :
    trimEndMatches (text ++ "/") '/' = text := by
  have hchars : (text ++ "/").toList.reverse = '/' :: text.toList.reverse := by simp
  rw [trimEndMatches, hchars]
  exact trimEndMatches_eq_self h

theorem splitChars_append_replicate (cs : List Char) (k : ℕ) :
    splitChars (· == '/') (cs ++ List.replicate k '/') =
      splitChars (· == '/') cs ++ List.replicate k [] := by
  induction k generalizing cs with
  | zero => simp
  | succ k ih =>
    have hnil : splitChars (· == '/') (List.replicate k '/') = [] :: List.replicate k [] := by
      simpa [splitChars] using ih []
    rw [replicate_succ, splitChars_concat (by decide), hnil, replicate_succ]

theorem exists_replicate (text : String) : ∃ k,
    text.toList = (trimEndMatches text '/').toList ++ List.replicate k '/' := by
  have hchars := takeWhile_append_dropWhile (p := fun c => c == '/') (l := text.toList.reverse)
  have hslashes : ∀ c ∈ text.toList.reverse.takeWhile (fun c => c == '/'), c = '/' := by
    intro c hc
    simpa using mem_takeWhile_imp hc
  refine ⟨(text.toList.reverse.takeWhile fun c => c == '/').length, ?_⟩
  rw [trimEndMatches, String.toList_ofList, ← reverse_inj, reverse_append,
    reverse_reverse, reverse_replicate, ← eq_replicate_of_mem hslashes, hchars]

/-- The slashes at the end of a path lead nowhere. -/
theorem pathNames_eq (path : String) :
    pathNames path = resolve ((split (spelled path) (· == '/')).map partOf) := by
  obtain ⟨k, hk⟩ := exists_replicate (trim path)
  have hstay : partOf (String.ofList []) = .stay := if_pos (.inl rfl)
  rw [pathNames, split, hk, splitChars_append_replicate, map_append, map_append,
    map_replicate, map_replicate, hstay, resolve_append_stay, split, spelled]

/-- A path that ends in a name leads to that name. -/
theorem exists_pathNames_eq_concat (hempty : lastPart (spelled path) '/' ≠ "")
    (hdot : lastPart (spelled path) '/' ≠ ".") (hdots : lastPart (spelled path) '/' ≠ "..") :
    ∃ names, pathNames path = names ++ [lastPart (spelled path) '/'] := by
  obtain ⟨before, hbefore⟩ := exists_split_eq_concat (spelled path)
  rw [pathNames_eq, hbefore, map_append, map_singleton, partOf,
    if_neg (not_or.mpr ⟨hempty, hdot⟩), if_neg hdots, resolve_concat_down]
  exact ⟨_, rfl⟩

/-! ### The home prefix as it is spelled -/

variable {rest bucket : String}

theorem splitOnce_eq_some {found user : String} (h : splitOnce found "/" = some (user, rest)) :
    '/' ∉ user.toList ∧ found = user ++ "/" ++ rest := by
  obtain ⟨⟨before, after⟩, hchars, heq⟩ := Option.map_eq_some_iff.mp h
  cases heq
  refine ⟨?_, ?_⟩
  · rw [String.toList_ofList]
    exact notMem_of_splitOnceChars hchars
  · rw [← toList_eq_iff, splitOnceChars_eq_some hchars]
    simp

theorem splitOnce_slash {user : String} (huser : '/' ∉ user.toList) (rest : String) :
    splitOnce (user ++ "/" ++ rest) "/" = some (user, rest) := by
  have hchars : (user ++ "/" ++ rest).toList = user.toList ++ '/' :: rest.toList := by simp
  have hslash : ("/" : String).toList = ['/'] := rfl
  simp [splitOnce, hslash, hchars, splitOnceChars_append huser]

theorem stripPrefix_append (pre rest : String) : stripPrefix (pre ++ rest) pre = some rest :=
  stripPrefix_iff.mpr String.toList_append

theorem stripPrefix_eq_none {pre : String} (h : ¬pre.toList <+: text.toList) :
    stripPrefix text pre = none := by
  rw [stripPrefix, if_neg (mt startsWith_iff.mp h)]

/-- What stands behind a home prefix is behind a home root and a slash, or goes on from `/root`. -/
theorem homeRelative_cases {normalized : String} (h : homeRelative normalized = some rest) :
    (∃ home, IsHomeRoot home ∧ normalized = home ++ "/" ++ rest) ∨
      normalized = "/root" ++ rest ∧ startsWith rest "/" = false := by
  obtain ⟨pre, hpre, hrest⟩ := exists_of_findSome?_eq_some h
  obtain ⟨found, hfound, hrest⟩ := Option.bind_eq_some_iff.mp hrest
  have hnormalized : normalized = pre ++ found := by
    rw [← toList_eq_iff, String.toList_append]
    exact stripPrefix_iff.mp hfound
  have huser (hsplit : (splitOnce found "/").map (·.2) = some rest) :
      ∃ user, '/' ∉ user.toList ∧ found = user ++ "/" ++ rest := by
    obtain ⟨⟨user, back⟩, honce, hback⟩ := Option.map_eq_some_iff.mp hsplit
    exact ⟨user, hback ▸ splitOnce_eq_some honce⟩
  simp only [homePrefixes, mem_cons, not_mem_nil, or_false] at hpre
  obtain rfl | rfl | rfl := hpre
  · obtain ⟨user, hslash, rfl⟩ := huser hrest
    exact .inl ⟨"/home/" ++ user, .inr ⟨user, hslash, .inl rfl⟩,
      by simp [hnormalized, String.append_assoc]⟩
  · obtain ⟨user, hslash, rfl⟩ := huser hrest
    exact .inl ⟨"/Users/" ++ user, .inr ⟨user, hslash, .inr rfl⟩,
      by simp [hnormalized, String.append_assoc]⟩
  · obtain rfl := Option.some.inj hrest
    by_cases hstarts : startsWith found "/" = true
    · obtain ⟨back, hback⟩ := startsWith_iff.mp hstarts
      have hfound : found = "/" ++ String.ofList back := by
        rw [← toList_eq_iff, ← hback]
        simp
      refine .inl ⟨"/root", .inl rfl, ?_⟩
      rw [hnormalized, hfound, stripPrefix_append, Option.getD_some, String.append_assoc]
    · rw [stripPrefix, if_neg hstarts]
      exact .inr ⟨hnormalized, Bool.not_eq_true _ ▸ hstarts⟩

theorem homeRelative_of_isHomeRoot (h : IsHomeRoot text) : homeRelative
    (text ++ "/") = some "" := by
  have huser {user : String} (hslash : '/' ∉ user.toList) :
      splitOnce (user ++ "/") "/" = some (user, "") := by
    simpa using splitOnce_slash hslash ""
  obtain rfl | ⟨user, hslash, rfl | rfl⟩ := h
  · decide
  · rw [String.append_assoc, homeRelative, homePrefixes, findSome?_cons, stripPrefix_append]
    simp [huser hslash]
  · have hhome : stripPrefix ("/Users/" ++ (user ++ "/")) "/home/" = none :=
      stripPrefix_eq_none fun hprefix => by
        simp at hprefix
    rw [String.append_assoc, homeRelative, homePrefixes, findSome?_cons, findSome?_cons,
      hhome, stripPrefix_append]
    simp [huser hslash]

/-! ### The basename -/

/-- The text that the basename is taken from. -/
def nameable (path : String) : String :=
  trimEndMatches ((homeRelative (spelled path ++ "/")).getD (spelled path)) '/'

theorem workspaceBasename_eq_some_iff {basename : String} : workspaceBasename path = some basename ↔
      basename = trim (lastPart (nameable path) '/') ∧ basename ≠ "" ∧ '=' ∉ basename.toList := by
  have hunfold : workspaceBasename path =
      if !(trim (lastPart (nameable path) '/')).isEmpty &&
        !containsChar (trim (lastPart (nameable path) '/')) '=' then
          some (trim (lastPart (nameable path) '/'))
      else none := rfl
  rw [hunfold]
  simp only [containsChar, Option.ite_none_right_eq_some, Bool.and_eq_true, Bool.not_eq_true',
    String.isEmpty_eq_false_iff, contains_eq_mem, decide_eq_false_iff_not, Option.some.injEq]
  constructor
  · rintro ⟨⟨hne, heq⟩, rfl⟩
    exact ⟨rfl, hne, heq⟩
  · rintro ⟨rfl, hne, heq⟩
    exact ⟨⟨hne, heq⟩, rfl⟩

theorem nameable_of_isHomeRoot (h : IsHomeRoot (spelled path)) : nameable path = "" := by
  rw [nameable, homeRelative_of_isHomeRoot h]
  rfl

/-- A text that ends in a slash, without that slash. -/
theorem exists_append_slash {home : String} (h : text ++ "/" = home ++ rest) (hne : rest ≠ "") :
    ∃ back, rest = back ++ "/" ∧ text = home ++ back := by
  have hrest : rest.toList ≠ [] := mt String.toList_eq_nil_iff.mp hne
  obtain ⟨back, hback⟩ : ∃ back, rest.toList = back ++ ['/'] := by
    have hlast := congrArg (·.toList.getLast?) h
    simp only [String.toList_append, getLast?_append_of_ne_nil _ hrest] at hlast
    refine ⟨rest.toList.dropLast, (dropLast_append_getLast? _ ?_).symm⟩
    rw [← hlast]
    simp
  have hrest : rest = String.ofList back ++ "/" := by
    rw [← toList_eq_iff, hback]
    simp
  refine ⟨_, hrest, ?_⟩
  rw [hrest, ← String.append_assoc, ← toList_eq_iff, String.toList_append,
    String.toList_append] at h
  exact toList_eq_iff.mp (append_cancel_right h)

theorem getLast?_ne_of_append {c : Char} (h : (front ++ back).toList.getLast? ≠ some c) :
    back.toList.getLast? ≠ some c := by
  intro hback
  rw [String.toList_append, getLast?_append, hback] at h
  exact h rfl

/-- A path of one component is not under home. -/
theorem UnderHome.exists_slash (h : UnderHome path account below) (hne : back ≠ "")
    (hspelled : spelled path = "/root" ++ back) : '/' ∈ back.toList := by
  by_contra hslash
  have hroot : '/' ∉ ("root" ++ back).toList := by simp [hslash]
  have hsplit : split (spelled path) (· == '/') = ["", "root" ++ back] := by
    have hparts := split_append_slash (p := (· == '/')) (by decide) "" ("root" ++ back)
    rw [split_of_notMem hroot] at hparts
    exact hspelled ▸ hparts
  have hnames : pathNames path = ["root" ++ back] := by
    rw [pathNames_eq, hsplit]
    rfl
  obtain hhome | husers | ⟨-, hroot⟩ := h.names
  · simp [hhome] at hnames
  · simp [husers] at hnames
  · rw [hroot, cons.injEq] at hnames
    have hchars := congrArg String.toList hnames.1
    rw [String.toList_append, self_eq_append_right] at hchars
    exact hne (String.toList_eq_nil_iff.mp hchars)

/-- The basename of a path under home is its last component, unless the text spells a home root. -/
theorem nameable_cases (h : UnderHome path account below) :
    IsHomeRoot (spelled path) ∨ lastPart (nameable path) '/' = lastPart (spelled path) '/' := by
  have hlast : (spelled path).toList.getLast? ≠ some '/' := getLast?_trimEndMatches _ _
  rw [nameable]
  cases hrelative : homeRelative (spelled path ++ "/") with
  | none =>
    rw [Option.getD_none, trimEndMatches_eq_self hlast]
    exact .inr rfl
  | some rest =>
    rw [Option.getD_some]
    obtain ⟨home, hhome, hspelled⟩ | ⟨hspelled, hslash⟩ := homeRelative_cases hrelative
    · by_cases hempty : rest = ""
      · rw [hempty, String.append_empty, ← toList_eq_iff, String.toList_append,
          String.toList_append] at hspelled
        exact .inl (toList_eq_iff.mp (append_cancel_right hspelled) ▸ hhome)
      · obtain ⟨back, rfl, hback⟩ := exists_append_slash hspelled hempty
        rw [trimEndMatches_append_slash (getLast?_ne_of_append (hback ▸ hlast)), hback,
          lastPart_append]
        exact .inr rfl
    · -- The text goes on from `/root` with more of a first component, which is not the last one.
      have hempty : rest ≠ "" := by
        rintro rfl
        have hchars := congrArg (·.toList.getLast?) hspelled
        simp at hchars
      obtain ⟨back, rfl, hback⟩ := exists_append_slash hspelled hempty
      have hne : back ≠ "" := by
        rintro rfl
        exact absurd hslash (by decide)
      obtain ⟨before, after, hmem⟩ := append_of_mem (h.exists_slash hne hback)
      have hparts : back = String.ofList before ++ "/" ++ String.ofList after := by
        rw [← toList_eq_iff, hmem]
        simp
      rw [trimEndMatches_append_slash (getLast?_ne_of_append (hback ▸ hlast)), hback, hparts,
        lastPart_append, ← String.append_assoc, ← String.append_assoc, lastPart_append]
      exact .inr rfl

/-! ### The label -/

theorem exists_pathClass
    (h : trim path ≠ "") : ∃ bucket ∈ classes, pathClass path = some bucket := by
  cases hclass : pathClass path with
  | none =>
    have hempty : (trim path).isEmpty = false := by simpa using h
    simp only [pathClass, hempty, Bool.false_eq_true, if_false] at hclass
    generalize (if endsWith (trim path) "/" then trim path else trim path ++ "/") = text at hclass
    split_ifs at hclass
    split at hclass <;> cases hclass
  | some bucket => exact ⟨bucket, pathClass_mem hclass, rfl⟩

theorem notMem_of_mem_classes (h : bucket ∈ classes) :
    '/' ∉ bucket.toList ∧ ':' ∉ bucket.toList := by
  revert bucket
  decide

theorem hides_bucket (h : bucket ∈ classes) : Hides below bucket :=
  ⟨(notMem_of_mem_classes h).1, bucket, h, .inl rfl⟩

theorem hides_named_iff {basename : String} (h : bucket ∈ classes)
    (hslash : '/' ∉ basename.toList) : Hides below (bucket ++ ":" ++ basename) ↔
      basename = "." ∨ basename = ".." ∨ below.getLast?.map trim = some basename := by
  constructor
  · rintro ⟨-, other, hother, heq | ⟨name, heq, hname⟩⟩
    · refine absurd ?_ (notMem_of_mem_classes hother).2
      rw [← heq]
      simp
    · have hchars := congrArg String.toList heq
      simp only [String.toList_append, append_assoc] at hchars
      have hsame := append_cons_inj (notMem_of_mem_classes h).2
        (notMem_of_mem_classes hother).2 hchars
      exact toList_eq_iff.mp hsame.2 ▸ hname
  · intro hname
    refine ⟨?_, bucket, h, .inr ⟨basename, rfl, hname⟩⟩
    simp [(notMem_of_mem_classes h).1, hslash]

theorem isWhitespace_equals : isWhitespace '=' = false := by decide

theorem mem_trim_iff {c : Char} (hc : isWhitespace c = false) :
    c ∈ (trim text).toList ↔ c ∈ text.toList :=
  ⟨fun hmem => (infix_trim text).subset hmem, fun hmem => mem_trim hmem hc⟩

/-- The last component of the text names nothing. -/
def LastNamesNothing (path : String) : Prop :=
  trim (lastPart (spelled path) '/') ∈ ["", ".", ".."] ∨ '=' ∈ (lastPart (spelled path) '/').toList

theorem UnderHome.trim_ne_empty (h : UnderHome path account below) : trim path ≠ "" := by
  intro hempty
  have habsolute := h.absolute
  rw [hempty] at habsolute
  exact absurd habsolute (by decide)

theorem UnderHome.getLast?_names (h : UnderHome path account below) :
    (pathNames path).getLast? = some ((account :: below).getLast (cons_ne_nil _ _)) := by
  obtain hnames | hnames | ⟨rfl, hnames⟩ := h.names <;> rw [hnames]
  · rw [getLast?_cons_cons, getLast?_eq_some_getLast]
  · rw [getLast?_cons_cons, getLast?_eq_some_getLast]
  · rw [getLast?_eq_some_getLast]

/-- **When the class of a workspace hides the account.** The label of a path under home hides what
led to the workspace if and only if the path leads below the home root, or is spelled as the home
root, or has a last component that names nothing. -/
theorem workspace_class_hides_iff (h : UnderHome path account below) :
    (∃ label ∈ workspaceClass path, Hides below label) ↔
      below ≠ [] ∨ IsHomeRoot (spelled path) ∨ LastNamesNothing path := by
  obtain ⟨bucket, hbucket, hclass⟩ := exists_pathClass h.trim_ne_empty
  cases hbasename : workspaceBasename path with
  | none =>
    have hlabel : workspaceClass path = some bucket := by
      simp [workspaceClass, hclass, hbasename]
    have hnothing : IsHomeRoot (spelled path) ∨ LastNamesNothing path := by
      refine (nameable_cases h).imp_right fun hlast => ?_
      by_contra hnot
      rw [LastNamesNothing, not_or, mem_cons, not_or] at hnot
      have hsome : workspaceBasename path = some (trim (lastPart (spelled path) '/')) :=
        workspaceBasename_eq_some_iff.mpr
          ⟨by rw [hlast], hnot.1.1, mt (mem_trim_iff isWhitespace_equals).mp hnot.2⟩
      rw [hbasename] at hsome
      cases hsome
    simp only [hlabel, Option.mem_some_iff, exists_eq_left', hides_bucket hbucket, hnothing,
      or_true]
  | some basename =>
    have hlabel : workspaceClass path = some (bucket ++ ":" ++ basename) := by
      simp [workspaceClass, hclass, hbasename]
    obtain ⟨hbasename, hne, hequals⟩ := workspaceBasename_eq_some_iff.mp hbasename
    have hroot : ¬IsHomeRoot (spelled path) := by
      intro hroot
      rw [nameable_of_isHomeRoot hroot] at hbasename
      exact hne (hbasename.trans (by decide))
    rw [(nameable_cases h).resolve_left hroot] at hbasename
    have hslash : '/' ∉ basename.toList := by
      rw [hbasename, mem_trim_iff (by decide)]
      exact notMem_lastPart _
    rw [hbasename, mem_trim_iff isWhitespace_equals] at hequals
    simp only [hlabel, Option.mem_some_iff, exists_eq_left', hides_named_iff hbucket hslash, hroot,
      false_or, LastNamesNothing, hequals, or_false, ← hbasename, mem_cons, not_mem_nil, hne]
    by_cases hdots : basename = "." ∨ basename = ".."
    · simp [or_assoc.symm, hdots, true_or, or_true]
    · rw [not_or] at hdots
      -- The last component is a name, and so the last of the names that the path leads to.
      have hlast text (htext : trim text = text) (hother : basename ≠ text) :
          lastPart (spelled path) '/' ≠ text := by
        rintro hlast
        rw [hlast, htext] at hbasename
        exact hother hbasename
      obtain ⟨names, hnames⟩ := exists_pathNames_eq_concat (hlast "" (by decide) hne)
        (hlast "." (by decide) hdots.1) (hlast ".." (by decide) hdots.2)
      have hgetLast := h.getLast?_names
      rw [hnames, getLast?_concat, Option.some.injEq] at hgetLast
      simp only [hdots, false_or, or_false]
      constructor
      · rintro hown rfl
        cases hown
      · intro hbelow
        rw [getLast_cons hbelow] at hgetLast
        rw [getLast?_eq_some_getLast hbelow, Option.map_some, ← hgetLast, ← hbasename]

/-- An empty component makes a home root one that is not spelled as such. -/
theorem workspace_class_names_account : ¬ ∀ (path account : String) (below : List String),
    UnderHome path account below → ∃ label ∈ workspaceClass path, Hides below label := by
  intro h
  have hunder : UnderHome "/home//alice" "alice" [] := ⟨by decide, .inl (by decide +kernel)⟩
  obtain ⟨label, hlabel, hhides⟩ := h _ _ _ hunder
  have hrepo : workspaceClass "/home//alice" = some (classRepo ++ ":" ++ "alice") := by
    decide +kernel
  rw [hrepo, Option.mem_some_iff] at hlabel
  rw [← hlabel, hides_named_iff (by simp [classes]) (by decide)] at hhides
  revert hhides
  decide

theorem workspace_class_hides_iff_checkout :
    ∃ label ∈ workspaceClass "/home/alice//src/./agentsight/",
      Hides ["src", "agentsight"] label := by
  have hunder : UnderHome "/home/alice//src/./agentsight/" "alice" ["src", "agentsight"] :=
    ⟨by decide, .inl (by decide +kernel)⟩
  exact (workspace_class_hides_iff hunder).mpr (.inl (cons_ne_nil _ _))

end AgentSight.Bridge.Metadata
