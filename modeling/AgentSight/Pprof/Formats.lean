import AgentSight.Pprof.Profile

/-!
# What the formats of a profile hold

The folded output counts the stacks of the operations that have a frame: a stack without frames
leaves no node in the arena. The pprof output, read back, has one sample for each operation, with
the stack that was rendered for it.
-/

namespace AgentSight.Pprof

open Session (Crates)
open Std (TreeMap)
open Str List

variable {frames : List Frame}

/-! ### Stacks as texts -/

section Frames

variable [Platform]

theorem cleanChars_forall {out cs : List Char} (h : ';' ∉ out) : ';' ∉ cleanChars out cs := by
  induction cs generalizing out with
  | nil => exact h
  | cons c cs ih =>
    rw [cleanChars]
    split
    · next hc =>
      refine ih ?_
      rw [mem_append, mem_singleton, not_or]
      refine ⟨h, ?_⟩
      rintro rfl
      rw [Platform.not_alphanumeric_semicolon] at hc
      revert hc
      decide
    · split
      · exact ih (by simpa using h)
      · exact ih h

omit [Platform] in
theorem semicolon_notMem_trimMatches {p : Char → Bool} {text : String} (h : ';' ∉ text.toList) :
    ';' ∉ (Session.trimMatches p text).toList := by
  rw [Session.trimMatches, String.toList_ofList, mem_reverse]
  intro hmem
  have hfront := mem_reverse.mp ((dropWhile_sublist p).mem hmem)
  exact h ((dropWhile_sublist p).mem hfront)

theorem semicolon_notMem_safeText (text kind : String) : ';' ∉ (safeText text kind).toList := by
  rw [safeText]
  split
  · decide
  · exact semicolon_notMem_trimMatches (by
      rw [String.toList_ofList]
      exact cleanChars_forall not_mem_nil)

/-- A frame that a stack keeps whole when it is written as text. -/
def Plain (frame : String) : Prop := frame ≠ "" ∧ ';' ∉ frame.toList

theorem plain_safeFrame (text : String) {kind : String} (hkind : ';' ∉ kind.toList) :
    Plain (safeFrame text kind) := by
  constructor
  · intro h
    have hlist := congrArg String.toList h
    simp [safeFrame] at hlist
  · simp only [safeFrame, String.toList_append, mem_append, not_or]
    exact ⟨⟨hkind, by decide⟩, semicolon_notMem_safeText text kind⟩

theorem plain_normalizeFoldedFrame {frame : String} (h : Plain frame) :
    Plain (normalizeFoldedFrame frame) := by
  rw [normalizeFoldedFrame]
  split
  · exact plain_safeFrame _ (by decide)
  · exact h

/-- The frames of a stack, as they stand in its text. -/
def renderedFrames (frames : List Frame) : List String :=
  frames.map fun (kind, name) => normalizeFoldedFrame (safeFrame name kind)

/-- The kinds of a stack are the names that the options list. -/
def Named (frames : List Frame) : Prop := ∀ frame ∈ frames, ';' ∉ frame.1.toList

theorem plain_renderedFrames (h : Named frames) : ∀ frame ∈ renderedFrames frames, Plain frame := by
  intro frame hframe
  obtain ⟨⟨kind, name⟩, hmem, rfl⟩ := mem_map.mp hframe
  exact plain_normalizeFoldedFrame (plain_safeFrame name (h _ hmem))

theorem foldedStackFromFrames_eq (h : Named frames) :
    foldedStackFromFrames frames = ";".intercalate (renderedFrames frames) := by
  rw [foldedStackFromFrames, foldedStackFromStrings, map_map]
  refine congrArg _ (filter_eq_self.mpr fun frame hframe => ?_)
  simpa using (plain_renderedFrames h frame hframe).1

/-- The text of a stack gives its frames back. -/
theorem split_foldedStack (h : Named frames) :
    (split (foldedStackFromFrames frames) (· = ';')).filter (· ≠ "") = renderedFrames frames := by
  rw [foldedStackFromFrames_eq h]
  obtain hnil | hne := eq_or_ne (renderedFrames frames) []
  · rw [hnil]
    decide
  · have hplain := plain_renderedFrames h
    rw [split, String.toList_intercalate]
    rw [show (";" : String).toList = [';'] from rfl]
    rw [splitChars_intercalate (by decide) (by simpa using hne), map_map]
    · have hid : String.ofList ∘ String.toList = id := funext fun s => String.ofList_toList
      rw [hid, map_id]
      refine filter_eq_self.mpr fun frame hframe => ?_
      simpa using (hplain frame hframe).1
    · intro part hpart c hc
      obtain ⟨frame, hframe, rfl⟩ := mem_map.mp hpart
      have hne : c ≠ ';' := by
        rintro rfl
        exact (hplain frame hframe).2 hc
      simpa using hne

theorem foldedStack_eq_empty_iff (h : Named frames) :
    foldedStackFromFrames frames = "" ↔ frames = [] := by
  have hsplit := split_foldedStack h
  constructor
  · intro hempty
    rw [hempty] at hsplit
    have hnil : renderedFrames frames = [] := by
      rw [← hsplit]
      decide
    simpa [renderedFrames] using hnil
  · rintro rfl
    rfl

end Frames

theorem FrameName.semicolon_notMem (frame : FrameName) : ';' ∉ frame.name.toList := by
  intro hmem
  have hvalid := frame.valid
  rw [validFrameName, Bool.and_eq_true, all_eq_true] at hvalid
  exact absurd (hvalid.2 ';' hmem) (by decide)

theorem named_stackFrames (sample : Operation) (options : OperationStackConfig) :
    Named (stackFrames sample options) := by
  intro frame hframe
  obtain ⟨name, -, hmem⟩ := mem_flatMap.mp hframe
  obtain ⟨value, -, rfl⟩ := mem_map.mp hmem
  exact name.semicolon_notMem

/-! ### The folded output -/

section Folded

variable [Platform] {ops : List StackNode}

theorem foldedAdd_eq (h : Named frames) (hne : frames ≠ [])
    (counter : TreeMap String ℕ) {value : ℕ} (hvalue : 0 < value) :
    foldedAdd counter (frames.map fun (kind, name) => safeFrame name kind) value =
      Counter.add counter (foldedStackFromFrames frames) value := by
  rw [foldedAdd, ← foldedStackFromFrames]
  rw [if_neg (mt (foldedStack_eq_empty_iff h).mp hne), max_eq_left hvalue]

/-- The stacks of an arena after one more node. -/
theorem opsToStacks_concat (h : ParentArena.Ordered StackNode.parent ops) (node : StackNode) :
    opsToStacks (ops ++ [node]) =
      if node.value = 0 then opsToStacks ops
      else foldedAdd (opsToStacks ops) (opFrames (ops ++ [node]) ops.length) node.value := by
  rw [opsToStacks_eq, zipIdx_append, foldl_append]
  have hold : ops.zipIdx.foldl (fun out p => if p.1.value = 0 then out
      else foldedAdd out (opFrames (ops ++ [node]) p.2) p.1.value) ∅ = opsToStacks ops := by
    refine foldl_ext _ _ _ fun out p hmem => ?_
    have hid : p.2 < ops.length := snd_lt_of_mem_zipIdx hmem
    simp [opFrames, ParentArena.ancestry_append h hid]
  rw [hold, zero_add, zipIdx_singleton, foldl_cons, foldl_nil]

/-- A stack that is pushed counts once, at its last node. -/
theorem opsToStacks_pushFrames {last value idx : ℕ} {parent : Option ℕ}
    (h : ParentArena.Ordered StackNode.parent ops) (hparent : ∀ p ∈ parent, p < ops.length)
    (hne : frames ≠ []) (hlast : last + 1 = idx + frames.length) (hvalue : 0 < value) :
    opsToStacks (pushFrames last value idx parent frames ops) =
      foldedAdd (opsToStacks ops) ((parent.map (opFrames ops)).getD [] ++
          frames.map fun (kind, name) => safeFrame name kind) value := by
  induction frames generalizing ops idx parent with
  | nil => exact absurd rfl hne
  | cons frame frames ih =>
    obtain ⟨kind, name⟩ := frame
    rw [pushFrames]
    have hframes weight : opFrames (ops ++ [{ parent, kind, name, value := weight }]) ops.length =
          (parent.map (opFrames ops)).getD [] ++ [safeFrame name kind] := by
      rw [opFrames, ParentArena.ancestry_concat h hparent, map_cons, reverse_cons]
      cases parent with
      | none => rfl
      | some p => rfl
    cases frames with
    | nil =>
      have hidx : idx = last := by simpa using hlast.symm
      rw [pushFrames, opsToStacks_concat h, if_pos hidx, if_neg hvalue.ne', hframes]
      rfl
    | cons next frames =>
      have hidx : idx ≠ last := by
        simp only [length_cons] at hlast
        omega
      rw [ih (ParentArena.ordered_concat h hparent) (by simp) (cons_ne_nil _ _)
        (by simp only [length_cons] at hlast ⊢; omega)]
      rw [opsToStacks_concat h, if_neg hidx, Option.map_some, Option.getD_some,
        hframes, append_assoc]
      rfl

theorem profileToStacks_sample {profile : Profile} (h : Named frames)
    {value : ℕ} (hvalue : 0 < value) (labels : List (String × String)) :
    profileToStacks (profile.sample frames value labels) =
      if frames = [] then profileToStacks profile
      else Counter.add (profileToStacks profile) (foldedStackFromFrames frames) value := by
  rw [profileToStacks, Profile.sample]
  split
  · next hnil =>
    rw [hnil]
    rfl
  · next hne =>
    have hlength := length_pos_of_ne_nil hne
    rw [opsToStacks_pushFrames profile.ordered (by simp) hne (by omega) hvalue]
    exact foldedAdd_eq h hne _ hvalue

/-- The stack of an operation, as both formats render it. -/
def stackOf (options : OperationStackConfig) (op : Operation) : String :=
  foldedStackFromFrames (stackFrames op options)

/-- The profile of a list of operations. -/
def sampleAll (options : OperationStackConfig) (profile : Profile) (ops : List Operation) :
    Profile :=
  ops.foldl (fun profile op =>
    profile.sample (stackFrames op options) op.value (pprofEvidenceLabels op)) profile

/-- The folded output counts the operations that have a frame. -/
theorem profileToStacks_sampleAll (options : OperationStackConfig) (profile : Profile)
    {ops : List Operation} (hpos : ∀ op ∈ ops, 0 < op.value) :
    profileToStacks (sampleAll options profile ops) =
      Counter.addAll (stackOf options) Operation.value (profileToStacks profile)
        (ops.filter (stackFrames · options ≠ [])) := by
  induction ops generalizing profile with
  | nil => rfl
  | cons op ops ih =>
    rw [forall_mem_cons] at hpos
    have hstep := ih (profile.sample (stackFrames op options) op.value (pprofEvidenceLabels op))
      hpos.2
    rw [sampleAll, foldl_cons, ← sampleAll, hstep,
      profileToStacks_sample (named_stackFrames op options) hpos.1, filter_cons]
    by_cases hframes : stackFrames op options = []
    · simp [hframes]
    · simp only [hframes, if_false, ne_eq, not_false_eq_true, decide_true, if_true,
        Counter.addAll, foldl_cons, stackOf]

theorem pprofSamples_sampleAll (options : OperationStackConfig) (profile : Profile)
    (ops : List Operation) :
    (sampleAll options profile ops).pprofSamples = profile.pprofSamples ++ ops.map fun op =>
      { stack := stackOf options op, value := op.value, labels := pprofEvidenceLabels op } := by
  induction ops generalizing profile with
  | nil => simp [sampleAll]
  | cons op ops ih =>
    have hstep := ih (profile.sample (stackFrames op options) op.value (pprofEvidenceLabels op))
    rw [sampleAll, foldl_cons, ← sampleAll, hstep, Profile.sample, append_assoc]
    rfl

end Folded

/-! ### The pprof output -/

/-- The name of a location: that of its function, in the table of strings. -/
def nameOf (locations : List PprofLocation) (functions : List PprofFunction)
    (strings : List String) (id : ℕ) : Option String :=
  (locations.find? (·.id = id)).bind fun location =>
    location.line.head?.bind fun line =>
      (functions.find? (·.id = line.functionId)).bind fun function => strings[function.name]?

namespace PprofTables

variable {tables before after : PprofTables} {filename : ℕ}

def name (tables : PprofTables) (id : ℕ) : Option String :=
  nameOf tables.locations tables.functions tables.strings id

/-- Tables grow at their ends. -/
structure Extends (before after : PprofTables) : Prop where
  strings : before.strings <+: after.strings
  functions : before.functions <+: after.functions
  locations : before.locations <+: after.locations

theorem Extends.refl (tables : PprofTables) : tables.Extends tables :=
  ⟨prefix_rfl, prefix_rfl, prefix_rfl⟩

theorem Extends.trans {between : PprofTables} (h : before.Extends between)
    (h' : between.Extends after) : before.Extends after :=
  ⟨h.strings.trans h'.strings, h.functions.trans h'.functions, h.locations.trans h'.locations⟩

theorem find?_of_prefix {α : Type*} {p : α → Bool} {items later : List α} {a : α}
    (h : items <+: later) (hfind : items.find? p = some a) : later.find? p = some a := by
  obtain ⟨rest, rfl⟩ := h
  rw [find?_append, hfind, Option.some_or]

/-- A location keeps its name. -/
theorem Extends.name_eq (h : before.Extends after) {id : ℕ} {frame : String}
    (hname : before.name id = some frame) : after.name id = some frame := by
  obtain ⟨location, hlocation, hname⟩ := Option.bind_eq_some_iff.mp hname
  obtain ⟨line, hline, hname⟩ := Option.bind_eq_some_iff.mp hname
  obtain ⟨function, hfunction, hstring⟩ := Option.bind_eq_some_iff.mp hname
  rw [name, nameOf, find?_of_prefix h.locations hlocation, Option.bind_some, hline,
    Option.bind_some, find?_of_prefix h.functions hfunction]
  exact Interner.getElem?_of_prefix h.strings hstring

/-- Each frame has a location by its place, and that location its name. -/
structure Sound (tables : PprofTables) : Prop where
  functions : ∀ function ∈ tables.functions, function.id ≤ tables.frameLocations.length
  locations : ∀ location ∈ tables.locations, location.id ≤ tables.frameLocations.length
  named : ∀ (place : ℕ) (frame : String), tables.frameLocations[place]? = some frame →
    tables.name (place + 1) = some frame

theorem sound_withPprofRoot : withPprofRoot.Sound where
  functions function h := by simp [withPprofRoot] at h
  locations location h := by simp [withPprofRoot] at h
  named place frame h := by simp [withPprofRoot] at h

theorem extends_intern (tables : PprofTables) (value : String) :
    tables.Extends (tables.intern value).1 :=
  ⟨Interner.prefix_intern _ _, prefix_rfl, prefix_rfl⟩

theorem Sound.intern (h : tables.Sound) (value : String) : (tables.intern value).1.Sound where
  functions := h.functions
  locations := h.locations
  named place frame hframe := (extends_intern tables value).name_eq (h.named place frame hframe)

/-- What a function with a location for its frame has been given. -/
structure Located (tables after : PprofTables) (id : ℕ) (frame : String) : Prop where
  extends_ : tables.Extends after
  sound : after.Sound
  name : after.name id = some frame

theorem located_locate (h : tables.Sound) (filename : ℕ) (frame : String) :
    tables.Located (tables.locate filename frame).1 (tables.locate filename frame).2 frame := by
  rw [locate]
  split
  · next place hplace =>
    obtain ⟨hlt, hframe, -⟩ := findIdx?_eq_some_iff_getElem.mp hplace
    refine ⟨Extends.refl tables, h, h.named place frame ?_⟩
    rw [getElem?_eq_getElem hlt]
    exact congrArg some (by simpa using hframe)
  · next hnone =>
    let id := tables.frameLocations.length + 1
    have hextends : tables.Extends
        { strings := (Interner.intern tables.strings frame).1
          frameLocations := tables.frameLocations ++ [frame]
          functions := tables.functions ++ [⟨id, (Interner.intern tables.strings frame).2,
              (Interner.intern tables.strings frame).2, filename⟩]
          locations := tables.locations ++ [⟨id, [⟨id, 0⟩]⟩] } :=
      ⟨Interner.prefix_intern _ _, prefix_append _ _, prefix_append _ _⟩
    have hlocation : tables.locations.find? (·.id = id) = none :=
      find?_eq_none.mpr fun location hmem => by
        have hle := h.locations location hmem
        simp only [decide_eq_true_eq]
        omega
    have hfunction : tables.functions.find? (·.id = id) = none :=
      find?_eq_none.mpr fun function hmem => by
        have hle := h.functions function hmem
        simp only [decide_eq_true_eq]
        omega
    have hname : nameOf (tables.locations ++ [⟨id, [⟨id, 0⟩]⟩])
        (tables.functions ++ [⟨id, (Interner.intern tables.strings frame).2,
          (Interner.intern tables.strings frame).2, filename⟩])
        (Interner.intern tables.strings frame).1 id = some frame := by
      rw [nameOf, find?_append, hlocation]
      simp only [find?_singleton, decide_true, if_true, Option.bind_some, head?_cons,
        find?_append, hfunction, Option.none_or]
      exact Interner.getElem?_intern _ _
    refine ⟨hextends, ⟨?_, ?_, ?_⟩, hname⟩
    · intro function hmem
      rw [length_append]
      obtain hmem | hmem := mem_append.mp hmem
      · exact (h.functions function hmem).trans (Nat.le_succ _)
      · exact (congrArg PprofFunction.id (mem_singleton.mp hmem)).le
    · intro location hmem
      rw [length_append]
      obtain hmem | hmem := mem_append.mp hmem
      · exact (h.locations location hmem).trans (Nat.le_succ _)
      · exact (congrArg PprofLocation.id (mem_singleton.mp hmem)).le
    · intro place other hother
      obtain hlt | hge := Nat.lt_or_ge place tables.frameLocations.length
      · rw [getElem?_append_left hlt] at hother
        exact hextends.name_eq (h.named place other hother)
      · have hlt := (List.getElem?_eq_some_iff.mp hother).1
        rw [length_append, length_singleton] at hlt
        obtain rfl : place = tables.frameLocations.length := by omega
        rw [getElem?_concat_length] at hother
        exact hother ▸ hname

theorem locateAll_spec (h : tables.Sound) (filename : ℕ) (frames : List String) :
    tables.Extends (tables.locateAll filename frames).1 ∧
      (tables.locateAll filename frames).1.Sound ∧
      (tables.locateAll filename frames).2.mapM (tables.locateAll filename frames).1.name =
        some frames := by
  induction frames generalizing tables with
  | nil => exact ⟨Extends.refl tables, h, rfl⟩
  | cons frame frames ih =>
    have hfirst := located_locate h filename frame
    obtain ⟨hextends, hsound, hnames⟩ := ih hfirst.sound
    refine ⟨hfirst.extends_.trans hextends, hsound, ?_⟩
    rw [locateAll]
    rw [mapM_cons, hextends.name_eq hfirst.name, hnames]
    rfl

theorem internLabels_spec (h : tables.Sound) (labels : List (String × String)) :
    tables.Extends (tables.internLabels labels).1 ∧ (tables.internLabels labels).1.Sound := by
  induction labels generalizing tables with
  | nil => exact ⟨Extends.refl tables, h⟩
  | cons label labels ih =>
    obtain ⟨key, value⟩ := label
    have hkey := h.intern key
    obtain ⟨hextends, hsound⟩ := ih (hkey.intern value)
    exact ⟨((extends_intern tables key).trans (extends_intern _ value)).trans hextends, hsound⟩

/-- Names that were read stay. -/
theorem Extends.mapM_eq (h : before.Extends after) {ids : List ℕ} {names : List String}
    (hnames : ids.mapM before.name = some names) : ids.mapM after.name = some names := by
  induction ids generalizing names with
  | nil => exact hnames
  | cons id ids ih =>
    rw [mapM_cons] at hnames ⊢
    obtain ⟨name, hname, hrest⟩ := Option.bind_eq_some_iff.mp hnames
    obtain ⟨rest, hids, hcons⟩ := Option.bind_eq_some_iff.mp hrest
    rw [h.name_eq hname, ih hids]
    exact hcons

/-- A written sample, read with the tables of the message. -/
structure Reads (tables : PprofTables) (written : PprofSample) (sample : PprofProfileSample) :
    Prop where
  names : written.locationId.mapM tables.name =
    some ((split sample.stack (· = ';')).filter (· ≠ "")).reverse
  value : written.value = [toI64 sample.value]

theorem Extends.reads (h : before.Extends after) {written : PprofSample}
    {sample : PprofProfileSample} (hreads : before.Reads written sample) :
    after.Reads written sample :=
  ⟨h.mapM_eq hreads.names, hreads.value⟩

theorem writeSample_spec (h : tables.Sound) (filename : ℕ) (viewLabel : PprofLabel)
    (sample : PprofProfileSample) :
    tables.Extends (writeSample filename viewLabel tables sample).1 ∧
      (writeSample filename viewLabel tables sample).1.Sound ∧
      (writeSample filename viewLabel tables sample).1.Reads
        (writeSample filename viewLabel tables sample).2 sample := by
  obtain ⟨hframes, hsound, hnames⟩ := locateAll_spec h filename
    ((split sample.stack (· = ';')).filter (· ≠ "")).reverse
  obtain ⟨hlabels, hsound⟩ := internLabels_spec hsound sample.labels
  exact ⟨hframes.trans hlabels, hsound, ⟨hlabels.mapM_eq hnames, rfl⟩⟩

theorem writeSamples_spec (h : tables.Sound) (filename : ℕ) (viewLabel : PprofLabel)
    (samples : List PprofProfileSample) :
    tables.Extends (writeSamples filename viewLabel tables samples).1 ∧
      List.Forall₂ (writeSamples filename viewLabel tables samples).1.Reads
        (writeSamples filename viewLabel tables samples).2 samples := by
  induction samples generalizing tables with
  | nil => exact ⟨Extends.refl tables, Forall₂.nil⟩
  | cons sample samples ih =>
    obtain ⟨hextends, hsound, hreads⟩ := writeSample_spec h filename viewLabel sample
    obtain ⟨hrest, hall⟩ := ih hsound
    exact ⟨hextends.trans hrest, Forall₂.cons (hrest.reads hreads) hall⟩

end PprofTables

namespace PprofProfile

/-- The stack of a sample, as a reader of the message finds it: a sample names its leaf first. -/
def stackOf (profile : PprofProfile) (sample : PprofSample) : Option String :=
  (sample.locationId.mapM (nameOf profile.location profile.function profile.stringTable)).map
    fun names => ";".intercalate names.reverse

/-- What a stack weighs in the message. -/
def weightOf (profile : PprofProfile) (stack : String) : ℤ :=
  KeyedSum.total profile.stackOf (·.value.sum) profile.sample (some stack)

def totalWeight (profile : PprofProfile) : ℤ := (profile.sample.map (·.value.sum)).sum

end PprofProfile

/-- The message reads back as the samples that were kept. -/
theorem forall₂_writePprofProjection (projection : Profile) : List.Forall₂ (fun written sample =>
        (writePprofProjection projection).stackOf written =
          some (";".intercalate ((split sample.stack (· = ';')).filter (· ≠ ""))) ∧
        written.value = [toI64 sample.value])
      (writePprofProjection projection).sample projection.pprofSamples := by
  have hspec filename viewLabel {tables : PprofTables} (h : tables.Sound) :=
    (PprofTables.writeSamples_spec h filename viewLabel projection.pprofSamples).2
  have hunit := (PprofTables.sound_withPprofRoot.intern (viewMetadata projection.view).2.1).intern
    (viewMetadata projection.view).2.2
  have hsound := ((hunit.intern "view").intern (viewMetadata projection.view).1).intern "agentpprof"
  refine Forall₂.imp ?_ (hspec _ _ hsound)
  rintro written sample ⟨hnames, hvalue⟩
  refine ⟨?_, hvalue⟩
  have hmap := congrArg (Option.map fun names => ";".intercalate names.reverse) hnames
  rw [Option.map_some, reverse_reverse] at hmap
  exact hmap

end AgentSight.Pprof
