import AgentSight.Bridge.ExecutableName
import AgentSight.Bridge.WorkspaceClass

/-!
# When two raw values differ only in content

What the bridge may show of a raw value, in terms of the value itself: two paths lie in the same
place and end in the same way, two command lines go apart behind the executable, two destinations
behind their origin. `metadata.rs` derives the same from the two.
-/

namespace AgentSight.Bridge.Metadata

open Str List

variable {path path' target target' : String}

/-! ### Paths -/

/-- The path as a directory: with a slash behind it. -/
def asDirectory (path : String) : String :=
  if endsWith (trim path) "/" then trim path else trim path ++ "/"

/-- The path lies below one of the directories. -/
def Under (directories : List String) (path : String) : Prop :=
  ∃ directory ∈ directories, directory.toList <+: (asDirectory path).toList

/-- The path goes through one of the directories. -/
def Through (directories : List String) (path : String) : Prop :=
  ∃ directory ∈ directories, directory.toList <:+: (asDirectory path).toList

/-- What the path names below the home of an account. -/
def BelowHome (path rest : String) : Prop :=
  (∃ home user, (home = "/home/" ∨ home = "/Users/") ∧ '/' ∉ user.toList ∧
      asDirectory path = home ++ (user ++ "/" ++ rest)) ∨ asDirectory path = "/root" ++ rest

/-- The first name is there and not hidden by a dot. -/
def Visible (rest : String) : Prop :=
  ∃ c ∈ (rest.toList.dropWhile (· == '/')).head?, c ≠ '.'

/-- The first of these that can be said of one path can be said of the other: nothing is left of
it, it lies in temporary storage, in a cache of dependencies, in a system directory, below a home
in a visible directory or anywhere below a home. -/
structure SamePlace (path path' : String) : Prop where
  blank : trim path = "" ↔ trim path' = ""
  tmp : Under tmpPrefixes path ↔ Under tmpPrefixes path'
  cache : ¬Under tmpPrefixes path →
    (Through dependencyMarkers path ↔ Through dependencyMarkers path')
  system : ¬Under tmpPrefixes path → ¬Through dependencyMarkers path →
    (Under systemPrefixes path ↔ Under systemPrefixes path')
  home : ¬Under tmpPrefixes path → ¬Through dependencyMarkers path → ¬Under systemPrefixes path →
    ((∃ rest, BelowHome path rest) ↔ ∃ rest, BelowHome path' rest) ∧
      ((∃ rest, BelowHome path rest ∧ Visible rest) ↔ ∃ rest, BelowHome path' rest ∧ Visible rest)

theorem isWorkingTree_iff (rest : String) : isWorkingTree rest = true ↔ Visible rest := by
  rw [isWorkingTree, Visible, split]
  induction rest.toList with
  | nil => simp [splitChars]
  | cons c cs ih =>
    by_cases hc : c = '/'
    · subst hc
      simpa [splitChars] using ih
    · have hbeq : (c == '/') = false := beq_eq_false_iff_ne.mpr hc
      cases hparts : splitChars (· == '/') cs with
      | nil => exact absurd hparts splitChars_ne_nil
      | cons part parts =>
        have hdot : (!startsWith (String.ofList (c :: part)) ".") = true ↔ c ≠ '.' := by
          rw [startsWith, String.toList_ofList, Bool.not_eq_true', ← Bool.not_eq_true,
            isPrefixOf_iff_prefix]
          simp [@eq_comm _ c]
        simpa [splitChars, hbeq, hparts] using hdot

/-- What `homeRelative` finds is what the path names below the home. -/
theorem homeRelative_of_belowHome {rest : String} (h : BelowHome path rest) :
    ∃ found, homeRelative (asDirectory path) = some found ∧ (Visible found ↔ Visible rest) := by
  obtain ⟨home, user, hhome, hslash, heq⟩ | heq := h
  · refine ⟨rest, ?_, Iff.rfl⟩
    have hrest := splitOnce_slash hslash rest
    obtain rfl | rfl := hhome
    · rw [heq, homeRelative, homePrefixes, findSome?_cons, stripPrefix_append]
      simp [hrest]
    · have hother : stripPrefix ("/Users/" ++ (user ++ "/" ++ rest)) "/home/" = none :=
        stripPrefix_eq_none fun hprefix => by simp at hprefix
      rw [heq, homeRelative, homePrefixes, findSome?_cons, findSome?_cons, hother,
        stripPrefix_append]
      simp [hrest]
  · have hhome : stripPrefix ("/root" ++ rest) "/home/" = none :=
      stripPrefix_eq_none fun hprefix => by simp at hprefix
    have husers : stripPrefix ("/root" ++ rest) "/Users/" = none :=
      stripPrefix_eq_none fun hprefix => by simp at hprefix
    refine ⟨(stripPrefix rest "/").getD rest, ?_, ?_⟩
    · rw [heq, homeRelative, homePrefixes, findSome?_cons, findSome?_cons, findSome?_cons,
        hhome, husers, stripPrefix_append]
      rfl
    · cases hstrip : stripPrefix rest "/" with
      | none => rfl
      | some back =>
        -- a slash in front of the first name changes nothing
        have hchars : rest.toList = '/' :: back.toList := stripPrefix_iff.mp hstrip
        simp [Visible, hchars]

theorem belowHome_of_homeRelative {found : String}
    (h : homeRelative (asDirectory path) = some found) :
    ∃ rest, BelowHome path rest ∧ (Visible found ↔ Visible rest) := by
  obtain ⟨home, hroot | ⟨user, hslash, hhome⟩, heq⟩ | ⟨heq, -⟩ := homeRelative_cases h
  · refine ⟨"/" ++ found, .inr ?_, by simp [Visible]⟩
    rw [heq, hroot, String.append_assoc]
  · refine ⟨found, .inl ?_, Iff.rfl⟩
    obtain rfl | rfl := hhome
    · exact ⟨_, user, .inl rfl, hslash, by simp [heq, String.append_assoc]⟩
    · exact ⟨_, user, .inr rfl, hslash, by simp [heq, String.append_assoc]⟩
  · exact ⟨found, .inr heq, Iff.rfl⟩

theorem homeRelative_congr
    (hhome : (∃ rest, BelowHome path rest) ↔ ∃ rest, BelowHome path' rest)
    (hvisible : (∃ rest, BelowHome path rest ∧ Visible rest) ↔
      ∃ rest, BelowHome path' rest ∧ Visible rest) :
    (homeRelative (asDirectory path)).map isWorkingTree =
      (homeRelative (asDirectory path')).map isWorkingTree := by
  have hsome path : (∃ found, homeRelative (asDirectory path) = some found) ↔
      ∃ rest, BelowHome path rest := by
    constructor
    · rintro ⟨found, hfound⟩
      obtain ⟨rest, hrest, -⟩ := belowHome_of_homeRelative hfound
      exact ⟨rest, hrest⟩
    · rintro ⟨rest, hrest⟩
      obtain ⟨found, hfound, -⟩ := homeRelative_of_belowHome hrest
      exact ⟨found, hfound⟩
  have htree path : (∃ found, homeRelative (asDirectory path) = some found ∧ Visible found) ↔
      ∃ rest, BelowHome path rest ∧ Visible rest := by
    constructor
    · rintro ⟨found, hfound, hvis⟩
      obtain ⟨rest, hrest, hiff⟩ := belowHome_of_homeRelative hfound
      exact ⟨rest, hrest, hiff.mp hvis⟩
    · rintro ⟨rest, hrest, hvis⟩
      obtain ⟨found, hfound, hiff⟩ := homeRelative_of_belowHome hrest
      exact ⟨found, hfound, hiff.mpr hvis⟩
  rw [← hsome, ← hsome] at hhome
  rw [← htree, ← htree] at hvisible
  generalize homeRelative (asDirectory path) = found at hhome hvisible ⊢
  generalize homeRelative (asDirectory path') = found' at hhome hvisible ⊢
  cases found <;> cases found'
  · rfl
  · simp at hhome
  · simp at hhome
  · simp only [Option.some.injEq, exists_eq_left', ← isWorkingTree_iff] at hvisible
    rw [Option.map_some, Option.map_some, Bool.eq_iff_iff.mpr hvisible]

theorem under_iff {directories : List String} :
    directories.any (startsWith (asDirectory path)) = true ↔ Under directories path := by
  simp [Under, startsWith_iff]

theorem through_iff {directories : List String} :
    directories.any (Str.contains (asDirectory path)) = true ↔ Through directories path := by
  simp [Through, Str.contains]

theorem pathClass_eq (path : String) : pathClass path =
    if (trim path).isEmpty then none
    else if tmpPrefixes.any (startsWith (asDirectory path)) then some classTmp
    else if dependencyMarkers.any (Str.contains (asDirectory path)) then some classDependencyCache
    else if systemPrefixes.any (startsWith (asDirectory path)) then some classSystem
    else some (((homeRelative (asDirectory path)).map isWorkingTree).elim classOther fun tree =>
      if tree then classRepo else classHome) := by
  unfold pathClass
  dsimp only
  rw [← asDirectory]
  cases homeRelative (asDirectory path) <;> rfl

/-- **Paths in the same place have the same class.** -/
theorem pathClass_congr (h : SamePlace path path') : pathClass path = pathClass path' := by
  have hblank : (trim path).isEmpty = (trim path').isEmpty :=
    Bool.eq_iff_iff.mpr (by simpa using h.blank)
  have htmp := Bool.eq_iff_iff.mpr (under_iff.trans (h.tmp.trans under_iff.symm))
  rw [pathClass_eq, pathClass_eq, ← hblank, ← htmp]
  refine ite_congr rfl (fun _ => rfl) fun _ => ite_congr rfl (fun _ => rfl) fun hnot => ?_
  have hcache := h.cache (mt under_iff.mpr hnot)
  have hin := Bool.eq_iff_iff.mpr (through_iff.trans (hcache.trans through_iff.symm))
  rw [← hin]
  refine ite_congr rfl (fun _ => rfl) fun hnot' => ?_
  have hsystem := h.system (mt under_iff.mpr hnot) (mt through_iff.mpr hnot')
  have hunder := Bool.eq_iff_iff.mpr (under_iff.trans (hsystem.trans under_iff.symm))
  rw [← hunder]
  refine ite_congr rfl (fun _ => rfl) fun hnot'' => ?_
  obtain ⟨hhome, hvisible⟩ := h.home (mt under_iff.mpr hnot) (mt through_iff.mpr hnot')
    (mt under_iff.mpr hnot'')
  rw [homeRelative_congr hhome hvisible]

/-! ### Endings -/

/-- The text behind the last dot of the last name of the path. -/
def HasEnding (path ending : String) : Prop :=
  ∃ front, path.toList = front ++ '.' :: ending.toList ∧ '.' ∉ ending.toList ∧ '/' ∉ ending.toList

/-- The names that the paths lead to have the same ending, or none. -/
def SameEnding (path path' : String) : Prop :=
  ∀ ending, HasEnding path ending ↔ HasEnding path' ending

/-- A path is its last name, or ends in it behind a slash. -/
theorem exists_front_lastPart (path : String) : ∃ front : List Char,
    path.toList = front ++ (lastPart path '/').toList ∧ ∀ c ∈ front.getLast?, c = '/' := by
  by_cases hslash : '/' ∈ path.toList
  · obtain ⟨back, front, hsplit, hback⟩ := eq_append_cons_of_mem (mem_reverse.mpr hslash)
    have hchars : path.toList = front.reverse ++ '/' :: back.reverse := by
      rw [← reverse_inj, hsplit]
      simp
    have hpath : path = String.ofList front.reverse ++ "/" ++ String.ofList back.reverse := by
      rw [← toList_eq_iff, hchars]
      simp
    have hlast : lastPart path '/' = String.ofList back.reverse := by
      rw [hpath, lastPart_append, lastPart, split_of_notMem (by simpa using hback)]
      rfl
    refine ⟨front.reverse ++ ['/'], ?_, by simp⟩
    rw [hlast, String.toList_ofList, hchars]
    simp
  · refine ⟨[], ?_, by simp⟩
    rw [lastPart, split_of_notMem hslash]
    rfl

theorem rsplitOnce_dot_iff {text stem ending : String} :
    rsplitOnce text "." = some (stem, ending) ↔
      text.toList = stem.toList ++ '.' :: ending.toList ∧ '.' ∉ ending.toList := by
  constructor
  · intro h
    obtain ⟨⟨after, before⟩, hchars, heq⟩ := Option.map_eq_some_iff.mp h
    cases heq
    have honce : splitOnceChars ['.'] text.toList.reverse = some (after, before) := hchars
    have hdot := notMem_of_splitOnceChars honce
    refine ⟨?_, by rwa [String.toList_ofList, mem_reverse]⟩
    rw [← reverse_inj, splitOnceChars_eq_some honce]
    simp
  · rintro ⟨htext, hdot⟩
    have hchars : text.toList.reverse = ending.toList.reverse ++ '.' :: stem.toList.reverse := by
      simp [htext]
    have honce : splitOnceChars ['.'] (ending.toList.reverse ++ '.' :: stem.toList.reverse) =
        some (ending.toList.reverse, stem.toList.reverse) :=
      splitOnceChars_append (mt mem_reverse.mp hdot)
    simp [rsplitOnce, hchars, honce]

/-- The last dot of the last name, if it has one, is where the ending begins. -/
theorem hasEnding_iff {ending : String} :
    HasEnding path ending ↔ ∃ stem, rsplitOnce (lastPart path '/') "." = some (stem, ending) := by
  obtain ⟨front, hfront, hlast⟩ := exists_front_lastPart path
  constructor
  · rintro ⟨stem, hstem, hdot, hslash⟩
    rw [hfront] at hstem
    obtain ⟨middle, rfl, hname⟩ | ⟨middle, hmiddle, hname⟩ := append_eq_append_iff.mp hstem
    · exact ⟨String.ofList middle, rsplitOnce_dot_iff.mpr ⟨by simpa using hname, hdot⟩⟩
    · -- the last name cannot begin within the ending
      cases middle with
      | nil => exact ⟨"", rsplitOnce_dot_iff.mpr ⟨hname.symm, hdot⟩⟩
      | cons c middle =>
        obtain ⟨rfl, hending⟩ := cons.inj hname
        rw [hmiddle, getLast?_append_of_ne_nil _ (cons_ne_nil _ _)] at hlast
        have hmem := mem_of_getLast? (getLast?_eq_some_getLast (cons_ne_nil '.' middle))
        rw [hlast _ (getLast?_eq_some_getLast (cons_ne_nil _ _)), mem_cons] at hmem
        refine absurd (hmem.resolve_left (by decide)) fun hin => hslash ?_
        rw [hending]
        exact mem_append_left _ hin
  · rintro ⟨stem, hstem⟩
    obtain ⟨hname, hdot⟩ := rsplitOnce_dot_iff.mp hstem
    refine ⟨front ++ stem.toList, by rw [hfront, hname, append_assoc], hdot, fun hslash => ?_⟩
    refine notMem_lastPart path ?_
    rw [hname]
    exact mem_append_right _ (mem_cons_of_mem _ hslash)

/-- **Paths that end in the same way have the same extension.** -/
theorem extension_congr (h : SameEnding path path') : extension path = extension path' := by
  have hsame ending := hasEnding_iff.symm.trans ((h ending).trans hasEnding_iff)
  unfold extension
  dsimp only
  generalize rsplitOnce (lastPart path '/') "." = found at hsame ⊢
  generalize rsplitOnce (lastPart path' '/') "." = found' at hsame ⊢
  rcases found with _ | ⟨stem, ending⟩
  · rcases found' with _ | ⟨stem', ending'⟩
    · rfl
    · obtain ⟨_, hnone⟩ := (hsame ending').mpr ⟨stem', rfl⟩
      cases hnone
  · obtain ⟨_, rfl⟩ := (hsame ending).mp ⟨stem, rfl⟩
    rfl

/-! ### Command lines -/

/-- The command lines are the same, or go apart behind a word that is no assignment. -/
def SharesExecutable (command command' : String) : Prop :=
  command = command' ∨ ∃ front args args' : List Char,
    command.toList = front ++ args ∧ command'.toList = front ++ args' ∧
    (∀ c ∈ args.head?, isWhitespace c = true) ∧ (∀ c ∈ args'.head?, isWhitespace c = true) ∧
    ∃ word ∈ pieces front, '=' ∉ word

/-- **Command lines that share the executable name the same one.** -/
theorem executableBasename_congr {command command' : String}
    (h : SharesExecutable command command') :
    executableBasename command = executableBasename command' := by
  obtain rfl | ⟨front, args, args', hcommand, hcommand', hargs, hargs', word, hword, hequals⟩ := h
  · rfl
  have hplain : isEnvAssignment (String.ofList word) = false := by
    have hnone : splitOnceChars ['='] word = none := splitOnceChars_of_notMem hequals
    have heq : ("=" : String).toList = ['='] := rfl
    simp [isEnvAssignment, splitOnce, heq, hnone]
  have hfirst : ∃ first, ((pieces front).map String.ofList).find? (! isEnvAssignment ·) =
      some first := by
    rw [← Option.isSome_iff_exists, find?_isSome]
    exact ⟨_, mem_map_of_mem hword, by simp [hplain]⟩
  obtain ⟨first, hfirst⟩ := hfirst
  have hname {command : String} {args : List Char} (hcommand : command.toList = front ++ args)
      (hargs : ∀ c ∈ args.head?, isWhitespace c = true) :
      executableBasename command = lastComponent first := by
    rw [← String.ofList_toList (s := command), executableBasename_eq, splitWhitespace_ofList,
      hcommand, pieces_append _ hargs, map_append, find?_append, hfirst]
    rfl
  rw [hname hcommand hargs, hname hcommand' hargs']

/-! ### Destinations -/

theorem trim_prefix {text : String} (h : ∀ c ∈ text.toList.head?, isWhitespace c = false) :
    (trim text).toList <+: text.toList := by
  have hfront : text.toList.dropWhile isWhitespace = text.toList := by
    cases hchars : text.toList with
    | nil => rfl
    | cons c cs => exact dropWhile_cons_of_neg (by simp [h c (by rw [hchars]; rfl)])
  rw [trim, hfront, String.toList_ofList, ← reverse_suffix, reverse_reverse]
  exact dropWhile_suffix _

/-- A character that a path, a query or a fragment begins with. -/
def endsAuthority (c : Char) : Bool := c == '/' || c == '?' || c == '#'

theorem isWhitespace_of_endsAuthority {c : Char} (h : endsAuthority c = true) :
    isWhitespace c = false := by
  simp only [endsAuthority, Bool.or_eq_true, beq_iff_eq] at h
  obtain (rfl | rfl) | rfl := h <;> decide

/-- A scheme, if there is one, and the host with what stands beside it. -/
def origin (authority : List Char) : Option (List Char) → List Char
  | none => authority
  | some scheme => scheme ++ [':', '/', '/'] ++ authority

/-- The target is the origin with a path behind it. A target without a scheme has no mark of one in
its path either. -/
structure HasOrigin (scheme : Option (List Char)) (host : List Char) (target : String) : Prop where
  path : ∃ path, target.toList = origin host scheme ++ path ∧
    ∀ c ∈ path.head?, endsAuthority c = true
  plain : ∀ c ∈ origin host scheme, isWhitespace c = false
  bounded : ∀ c ∈ host, endsAuthority c = false
  named : ∀ text ∈ scheme, ':' ∉ text
  unmarked : scheme = none → ¬[':', '/', '/'] <:+: target.toList

/-- The targets are the same, or go apart behind their origin. -/
def SharesOrigin (target target' : String) : Prop :=
  target = target' ∨ ∃ scheme host, HasOrigin scheme host target ∧ HasOrigin scheme host target'

theorem splitOnceChars_mark {text : List Char} (h : ':' ∉ text) (rest : List Char) :
    splitOnceChars [':', '/', '/'] (text ++ [':', '/', '/'] ++ rest) = some (text, rest) := by
  induction text with
  | nil => simp [splitOnceChars]
  | cons c text ih =>
    obtain ⟨hne, htext⟩ := not_or.mp (mt mem_cons.mpr h)
    have hrest := ih htext
    simp only [append_assoc, cons_append, nil_append] at hrest
    simp [splitOnceChars, hne, hrest]

section Origin

variable {scheme : Option (List Char)} {host : List Char} (h : HasOrigin scheme host target)
include h

theorem HasOrigin.splitOnce : ∃ path, (∀ c ∈ path.head?, endsAuthority c = true) ∧
    splitOnce target "://" = scheme.map (fun text => (String.ofList text,
      String.ofList (host ++ path))) ∧ (scheme = none → target.toList = host ++ path) := by
  obtain ⟨path, htarget, hpath⟩ := h.path
  refine ⟨path, hpath, ?_, fun hnone => by rw [htarget, hnone, origin]⟩
  have hmark : ("://" : String).toList = [':', '/', '/'] := rfl
  cases hscheme : scheme with
  | none =>
    rw [Str.splitOnce, hmark, Option.map_none, Option.map_eq_none_iff,
      Option.eq_none_iff_forall_ne_some]
    rintro ⟨before, after⟩ hsplit
    refine h.unmarked hscheme ?_
    rw [splitOnceChars_eq_some hsplit]
    exact infix_append ..
  | some text =>
    have hsplit := splitOnceChars_mark (h.named text hscheme) (host ++ path)
    rw [hscheme, origin, append_assoc] at htarget
    rw [Str.splitOnce, hmark, htarget, hsplit]
    rfl

theorem HasOrigin.authority : authority (stripScheme target) = String.ofList host := by
  obtain ⟨path, hpath, hsplit, hnone⟩ := h.splitOnce
  have hstrip : (stripScheme target).toList = host ++ path := by
    cases hscheme : scheme with
    | none => simp [stripScheme, hsplit, hscheme, hnone hscheme]
    | some text => simp [stripScheme, hsplit, hscheme]
  rw [Metadata.authority, split, hstrip]
  change ((splitChars endsAuthority (host ++ path)).map String.ofList).head?.getD _ = _
  cases path with
  | nil =>
    rw [append_nil, splitChars_of_forall h.bounded]
    rfl
  | cons c cs =>
    rw [splitChars_append h.bounded (hpath c rfl)]
    rfl

/-- Trimming leaves the origin. -/
theorem HasOrigin.trim : HasOrigin scheme host (trim target) := by
  obtain ⟨path, htarget, hpath⟩ := h.path
  have hfirst : ∀ c ∈ target.toList.head?, isWhitespace c = false := by
    intro c hc
    rw [htarget, head?_append] at hc
    cases horigin : origin host scheme with
    | nil =>
      rw [horigin] at hc
      exact isWhitespace_of_endsAuthority (hpath c hc)
    | cons d front =>
      rw [horigin] at hc
      obtain rfl := Option.some.inj hc
      exact h.plain d (by simp [horigin])
  have hprefix := trim_prefix hfirst
  obtain ⟨rest, hrest⟩ : origin host scheme <+: (Str.trim target).toList := by
    rw [← String.ofList_toList (s := target), htarget]
    exact prefix_trim h.plain path
  refine ⟨⟨rest, hrest.symm, ?_⟩, h.plain, h.bounded, h.named, fun hnone hmark => ?_⟩
  · rw [← hrest, htarget, prefix_append_right_inj] at hprefix
    obtain ⟨more, rfl⟩ := hprefix
    intro c hc
    exact hpath c (by rw [head?_append, Option.mem_def.mp hc]; rfl)
  · exact h.unmarked hnone (hmark.trans (infix_trim target))

end Origin

variable (h : SharesOrigin target target')
include h

theorem normalizeHost_congr : normalizeHost target = normalizeHost target' := by
  obtain rfl | ⟨scheme, host, h, h'⟩ := h
  · rfl
  · unfold normalizeHost
    rw [h.trim.authority, h'.trim.authority]

/-- **Targets that share their origin have the same class, port and scheme.** -/
theorem destinationClass_congr (provider : Option String) :
    destinationClass target provider = destinationClass target' provider := by
  rw [destinationClass, normalizeHost_congr h, destinationClass]

theorem destinationPort_congr : destinationPort target = destinationPort target' := by
  obtain rfl | ⟨scheme, host, h, h'⟩ := h
  · rfl
  · unfold destinationPort
    rw [h.authority, h'.authority]

theorem splitOnce_congr :
    (splitOnce target "://").map (·.1) = (splitOnce target' "://").map (·.1) := by
  obtain rfl | ⟨scheme, host, h, h'⟩ := h
  · rfl
  · obtain ⟨path, -, hsplit, -⟩ := h.splitOnce
    obtain ⟨path', -, hsplit', -⟩ := h'.splitOnce
    rw [hsplit, hsplit', Option.map_map, Option.map_map]
    rfl

end AgentSight.Bridge.Metadata
