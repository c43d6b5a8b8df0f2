import AgentSight.Pprof.Formats

/-!
# The formats of a profile agree

The two outputs of a profile give every stack one value, and both sum up to the value of the
operations, exactly if every operation has a frame of the stack.
-/

namespace AgentSight.Pprof

open Session (Crates)
open Std (TreeMap)
open List

/-! ### Operations -/

namespace Operation

variable {op : Operation} {key value : String} {n : ℕ}

/-- A sample weighs what a machine integer holds, and says with which skill it was made. -/
structure Sound (op : Operation) : Prop where
  value_le : op.value ≤ i64Max
  skill : op.values "skill" ≠ []

theorem Sound.insert (h : op.Sound) (key value : String) : (op.insert key value).Sound := by
  rw [Operation.insert]
  split
  · exact h
  · refine ⟨h.value_le, ?_⟩
    rw [values, TreeMap.getD_insert]
    split
    · simp
    · exact h.skill

theorem Sound.extend (h : op.Sound) (key : String) (values : List String) :
    (op.extend key values).Sound := by
  induction values generalizing op with
  | nil => exact h
  | cons value values ih => exact ih (h.insert key value)

theorem Sound.replace (h : op.Sound) (key : String) {values : List String} (hne : values ≠ []) :
    (op.replace key values).Sound := by
  refine ⟨h.value_le, ?_⟩
  rw [Operation.values, Operation.replace, TreeMap.getD_insert]
  split
  · exact hne
  · exact h.skill

theorem values_insert (op : Operation) {value : String} (h : value ≠ "") (key : String) :
    (op.insert key value).values key = op.values key ++ [value] := by
  rw [Operation.insert, if_neg h, values, TreeMap.getD_insert_self]

theorem value_insert (op : Operation) (key value : String) :
    (op.insert key value).value = op.value := by
  rw [Operation.insert]
  split <;> rfl

theorem value_extend (op : Operation) (key : String) (values : List String) :
    (op.extend key values).value = op.value := by
  induction values generalizing op with
  | nil => rfl
  | cons value values ih => exact (ih (op.insert key value)).trans (op.value_insert key value)

end Operation

open Operation

variable {value : ℕ}

theorem sound_baseSample (session : SessionRecord) (projectName : String) (promptIndex : ℕ)
    (hvalue : value ≤ i64Max) :
    (baseSample session projectName promptIndex value).Sound := by
  have hskill (op : Operation) (hop : op.value ≤ i64Max) :
      (op.insert "skill" "unscoped").Sound := by
    refine ⟨(op.value_insert _ _).le.trans hop, ?_⟩
    rw [values_insert op (by decide)]
    exact concat_ne_nil _ _
  refine (((hskill _ ?_).insert _ _).insert _ _).insert _ _
  simp only [value_extend, value_insert]
  exact hvalue

variable {sample : Operation}

theorem sound_replaceTaskPath (h : sample.Sound) (taskPath : List String) :
    (replaceTaskPath sample taskPath).Sound := by
  rw [replaceTaskPath]
  split
  · exact h
  · have herase : Sound { sample with fields := sample.fields.erase "task" } := by
      refine ⟨h.value_le, ?_⟩
      rw [values, TreeMap.getD_erase]
      exact h.skill
    exact herase.extend "task" taskPath

theorem sound_replaceSkillScope (h : sample.Sound) (skill : String) :
    (replaceSkillScope sample skill).Sound := by
  rw [replaceSkillScope]
  split
  · exact h
  · exact h.replace "skill" (cons_ne_nil _ _)

section Samples

variable [Crates] (session : SessionRecord) (projectName : String)

theorem sound_toolSample (event : ToolEvent) (hvalue : value ≤ i64Max) :
    (toolSample session projectName event value).Sound := by
  have hbase := sound_baseSample session projectName event.promptIndex hvalue
  have hscope := sound_replaceSkillScope (sound_replaceTaskPath hbase event.taskPath) event.skill
  refine ((Sound.extend ?_ _ _).insert _ _).insert _ _
  split <;> repeat first | exact hscope | refine Sound.insert ?_ _ _ | refine Sound.extend ?_ _ _

theorem sound_promptSample (idx : ℕ) (req : UserRequest) (hvalue : value ≤ i64Max)
    (status : List String) : (promptSample session projectName idx req value status).Sound := by
  have hbase := sound_baseSample session projectName idx hvalue
  repeat first | exact hbase | refine Sound.insert ?_ _ _ | refine Sound.extend ?_ _ _

theorem sound_llmSample (call : LlmEvent) (hvalue : value ≤ i64Max) (status token : List String) :
    (llmSample session projectName call value status token).Sound := by
  have hbase := sound_baseSample session projectName call.promptIndex hvalue
  have hscope := sound_replaceSkillScope (sound_replaceTaskPath hbase call.taskPath) call.skill
  repeat first | exact hscope | refine Sound.insert ?_ _ _ | refine Sound.extend ?_ _ _

omit [Crates] in
theorem sound_insertTaskOutcome (h : sample.Sound)
    (terminalPaths : List (List String)) : (insertTaskOutcome sample terminalPaths).Sound :=
  h.insert "outcome" _

omit [Crates] in
theorem sound_markRepeats {events : List SampledEvent} (h : ∀ event ∈ events, event.sample.Sound)
    (previousTool : Option (ℤ × String)) : ∀ op ∈ markRepeats previousTool events, op.Sound := by
  induction events generalizing previousTool with
  | nil => exact forall_mem_nil _
  | cons event events ih =>
    rw [forall_mem_cons] at h
    rw [markRepeats]
    split
    · exact forall_mem_cons.mpr ⟨h.1, ih h.2 none⟩
    · refine forall_mem_cons.mpr ⟨?_, ih h.2 _⟩
      split
      · exact h.1.insert "repeat" _
      · exact h.1

theorem sound_operationSamples : ∀ op ∈ operationSamples session projectName, op.Sound := by
  have hone : 1 ≤ i64Max := by decide
  refine sound_markRepeats (fun event hevent => ?_) none
  rw [mem_insertionSort, mem_append, mem_append] at hevent
  obtain (hevent | hevent) | hevent := hevent <;>
    obtain ⟨⟨source, idx⟩, -, rfl⟩ := mem_map.mp hevent
  · exact sound_insertTaskOutcome (sound_promptSample session projectName idx source hone _) _
  · exact sound_insertTaskOutcome (sound_toolSample session projectName source hone) _
  · exact sound_insertTaskOutcome (sound_llmSample session projectName source hone _ _) _

omit [Crates] in
theorem le_of_mem_tokenComponents {call : LlmEvent} {kind : String}
    (h : (kind, value) ∈ call.tokenComponents) : value ≤ i64Max := by
  have hreported : maxReportedTokenComponent ≤ i64Max := by decide
  have hestimated : maxEstimatedTokenComponent ≤ i64Max := by decide
  have hone : 1 ≤ i64Max := by decide
  rw [LlmEvent.tokenComponents] at h
  split at h
  · next hestimate =>
    simp only [Bool.and_eq_true, decide_eq_true_eq] at hestimate
    obtain ⟨-, rfl⟩ := Prod.mk.inj (mem_singleton.mp h)
    exact hestimate.2.trans hestimated
  · split at h
    · obtain ⟨-, rfl⟩ := Prod.mk.inj (mem_singleton.mp h)
      exact hone
    · have hle := (mem_filter.mp h).2
      simp only [Bool.and_eq_true, decide_eq_true_eq] at hle
      exact hle.2.trans hreported

theorem sound_tokenSamples : ∀ op ∈ tokenSamples session projectName, op.Sound := by
  intro op hop
  obtain ⟨call, -, hcall⟩ := mem_flatMap.mp hop
  obtain ⟨⟨kind, value⟩, hkind, rfl⟩ := mem_map.mp hcall
  exact sound_insertTaskOutcome
    (sound_llmSample session projectName call (le_of_mem_tokenComponents hkind) _ _) _

theorem sound_fileSamples : ∀ op ∈ fileSamples session projectName, op.Sound := by
  intro op hop
  obtain ⟨event, -, hevent⟩ := mem_flatMap.mp hop
  obtain ⟨group, -, rfl⟩ := mem_map.mp hevent
  have htool := sound_toolSample session projectName event (by decide : 1 ≤ i64Max)
  exact sound_insertTaskOutcome ((htool.insert "path" group).replace "object" (by simp)) _

theorem sound_networkSamples : ∀ op ∈ networkSamples session projectName, op.Sound := by
  intro op hop
  obtain ⟨event, -, hevent⟩ := mem_flatMap.mp hop
  split at hevent
  · exact absurd hevent not_mem_nil
  · obtain ⟨domain, -, rfl⟩ := mem_map.mp hevent
    have htool := sound_toolSample session projectName event (by decide : 1 ≤ i64Max)
    exact sound_insertTaskOutcome ((htool.insert "domain" domain).replace "object" (by simp)) _

omit [Crates] in
/-- A duration is the difference of two machine integers. -/
theorem duration_le (a b : ℤ) : (max ((subI64 a b).tdiv 1000) 1).toNat ≤ i64Max := by
  have hlt : subI64 a b < 2 ^ 63 := by
    have hbmod := Int.bmod_lt (x := a - b) (m := 2 ^ 64) (by decide)
    rw [subI64]
    omega
  have hdiv : (subI64 a b).tdiv 1000 < 2 ^ 63 := by
    obtain hneg | hpos := lt_or_ge (subI64 a b) 0
    · have hnonpos := Int.tdiv_le_tdiv (by decide : (0 : ℤ) < 1000) hneg.le
      rw [Int.zero_tdiv] at hnonpos
      omega
    · exact (Int.tdiv_le_self 1000 hpos).trans_lt hlt
  rw [i64Max]
  omega

omit [Crates] in
theorem sound_durations {events : List (ℤ × Operation)} (h : ∀ event ∈ events, event.2.Sound) :
    ∀ op ∈ durations events, op.Sound := by
  fun_induction durations events with
  | case1 => exact forall_mem_nil _
  | case2 ts sample =>
    rw [forall_mem_singleton] at h ⊢
    exact ⟨Nat.le_of_ble_eq_true rfl, h.skill⟩
  | case3 ts sample nextTs next events ih =>
    rw [forall_mem_cons] at h ⊢
    exact ⟨⟨duration_le nextTs ts, h.1.skill⟩, ih h.2⟩

theorem sound_timeSamples : ∀ op ∈ timeSamples session projectName, op.Sound := by
  have hzero : 0 ≤ i64Max := Nat.zero_le _
  refine sound_durations fun event hevent => ?_
  rw [mem_insertionSort, mem_append, mem_append] at hevent
  obtain (hevent | hevent) | hevent := hevent <;>
    obtain ⟨source, -, hsource⟩ := mem_filterMap.mp hevent <;>
    obtain ⟨ts, -, rfl⟩ := Option.map_eq_some_iff.mp hsource
  · exact sound_insertTaskOutcome (sound_promptSample session projectName _ _ hzero _) _
  · exact sound_insertTaskOutcome (sound_toolSample session projectName _ hzero) _
  · exact sound_insertTaskOutcome (sound_llmSample session projectName _ hzero _ _) _

theorem sound_sessionSamples (view : ProfileView) :
    ∀ op ∈ sessionSamples session projectName view, op.Sound :=
  match view with
  | .operations => sound_operationSamples session projectName
  | .tokens => sound_tokenSamples session projectName
  | .files => sound_fileSamples session projectName
  | .network => sound_networkSamples session projectName
  | .time => sound_timeSamples session projectName

end Samples

theorem sound_applyRules (h : sample.Sound) (rules : List OperationStackRule)
    (claimedFields : List String) : (applyRules rules claimedFields sample).Sound := by
  induction rules generalizing claimedFields sample with
  | nil => exact h
  | cons rule rules ih =>
    rw [applyRules]
    split
    · exact ih (h.replace _ (cons_ne_nil _ _)) _
    · exact ih h _

theorem sound_selectedOperations [Crates] (sessions : List SessionRecord) (projectName : String)
    (view : ProfileView) (options : OperationStackConfig) :
    ∀ op ∈ selectedOperations sessions projectName view options, op.Sound ∧ 0 < op.value := by
  intro op hop
  obtain ⟨hop, hvalue⟩ := mem_filter.mp hop
  obtain ⟨session, -, hsession⟩ := mem_flatMap.mp (mem_filter.mp hop).1
  obtain ⟨sample, hsample, rfl⟩ := mem_map.mp hsession
  have hsound := sound_sessionSamples session projectName view sample hsample
  exact ⟨sound_applyRules hsound options.fieldRules [], by simpa using hvalue⟩

/-! ### Agreement -/

section Agreement

variable [Platform] {options : OperationStackConfig} {view : ProfileView} {ops : List Operation}

omit [Platform] in
theorem stackFrames_ne_nil {op : Operation} : stackFrames op options ≠ [] ↔
      ∃ frame ∈ options.stack.frames, stackFrameValues frame.name op options.rules ≠ [] := by
  rw [stackFrames, ne_eq, flatMap_eq_nil_iff]
  simp only [map_eq_nil_iff, not_forall, exists_prop, ne_eq]

/-- What the samples of a list of operations read back as. -/
theorem forall₂_sampleAll (options : OperationStackConfig) (view : ProfileView)
    (hsound : ∀ op ∈ ops, op.Sound) :
    List.Forall₂ (fun written op =>
        (writePprofProjection (sampleAll options (Profile.new view) ops)).stackOf written =
          some (stackOf options op) ∧ written.value = [(op.value : ℤ)])
      (writePprofProjection (sampleAll options (Profile.new view) ops)).sample ops := by
  have hreads := forall₂_writePprofProjection (sampleAll options (Profile.new view) ops)
  generalize writePprofProjection (sampleAll options (Profile.new view) ops) = message at hreads
  rw [pprofSamples_sampleAll, Profile.new, nil_append, forall₂_map_right_iff] at hreads
  have hboth := (forall₂_and_left ops message.sample).mpr ⟨hsound, hreads.flip⟩
  refine hboth.flip.imp fun written op ⟨hop, hstack, hvalue⟩ => ⟨?_, ?_⟩
  · rw [hstack, stackOf, split_foldedStack (named_stackFrames op options),
      foldedStackFromFrames_eq (named_stackFrames op options)]
  · rw [hvalue, toI64, min_eq_left (Int.ofNat_le.mpr hop.value_le)]

/-- The outputs agree on every stack, and conserve the value of the operations. -/
structure Agree (profile : Profile) (ops : List Operation) : Prop where
  perStack : ∀ stack : String, ((profileToStacks profile).getD stack 0 : ℤ) =
    (writePprofProjection profile).weightOf stack
  folded : (profileToStacks profile).values.sum = (ops.map (·.value)).sum
  pprof : (writePprofProjection profile).totalWeight = ((ops.map (·.value)).sum : ℕ)

omit [Platform] in
/-- Samples that stand for operations weigh what these do, at each stack and together. -/
theorem weights_of_forall₂ {key : PprofSample → Option String} {name : Operation → String}
    {samples : List PprofSample}
    (h : List.Forall₂ (fun written op => key written = some (name op) ∧
      written.value = [(op.value : ℤ)]) samples ops) :
    (∀ stack : String, KeyedSum.total key (·.value.sum) samples (some stack) =
      ((KeyedSum.total name Operation.value ops stack : ℕ) : ℤ)) ∧
      (samples.map (·.value.sum)).sum = (((ops.map (·.value)).sum : ℕ) : ℤ) := by
  induction h with
  | nil => exact ⟨fun stack => rfl, rfl⟩
  | cons hread _ ih =>
    obtain ⟨hkey, hvalue⟩ := hread
    constructor
    · intro stack
      rw [KeyedSum.total_cons, KeyedSum.total_cons, ih.1 stack, hkey, hvalue]
      simp only [Option.some_inj, sum_singleton]
      split <;> simp
    · rw [map_cons, sum_cons, ih.2, hvalue]
      simp

/-- The folded counter of a stack weighs the operations that have it. -/
theorem getD_profileToStacks (hpos : ∀ op ∈ ops, 0 < op.value) (stack : String) :
    (profileToStacks (sampleAll options (Profile.new view) ops)).getD stack 0 =
      KeyedSum.total (stackOf options) Operation.value (ops.filter (stackFrames · options ≠ []))
        stack := by
  rw [profileToStacks_sampleAll options _ hpos, Counter.getD_addAll]
  exact zero_add _

/-- The folded counter has the weight of all operations with a frame. -/
theorem sum_profileToStacks (hpos : ∀ op ∈ ops, 0 < op.value) :
    (profileToStacks (sampleAll options (Profile.new view) ops)).values.sum =
      ((ops.filter (stackFrames · options ≠ [])).map (·.value)).sum := by
  rw [profileToStacks_sampleAll options _ hpos, Counter.sum_values_addAll]
  exact zero_add _

omit [Platform] in
/-- Operations that count cannot be left out of a sum. -/
theorem forall_of_sum_filter {p : Operation → Bool} (hpos : ∀ op ∈ ops, 0 < op.value)
    (hsum : ((ops.filter p).map Operation.value).sum = (ops.map Operation.value).sum) :
    ∀ op ∈ ops, p op = true := by
  have hparts := sum_map_filter_add_sum_map_filter_not (p · = true) Operation.value ops
  simp only [Bool.decide_eq_true] at hparts
  rw [hsum] at hparts
  intro op hop
  by_contra hnot
  have hmem : op.value ∈ (ops.filter fun op => decide ¬ p op = true).map Operation.value :=
    mem_map_of_mem (mem_filter.mpr ⟨hop, by simpa using hnot⟩)
  have hrest := List.sum_pos_iff_exists_pos_nat.mpr ⟨op.value, hmem, hpos op hop⟩
  omega

/-- Where each operation has a frame, the two outputs weigh alike. -/
theorem agree_of_framed (hsound : ∀ op ∈ ops, op.Sound ∧ 0 < op.value)
    (hframed : ∀ op ∈ ops, stackFrames op options ≠ []) :
    Agree (sampleAll options (Profile.new view) ops) ops := by
  have hpos : ∀ op ∈ ops, 0 < op.value := fun op hop => (hsound op hop).2
  have hall : ops.filter (stackFrames · options ≠ []) = ops :=
    filter_eq_self.mpr fun op hop => by simpa using hframed op hop
  have hreads := forall₂_sampleAll options view fun op hop => (hsound op hop).1
  obtain ⟨htotal, hsum⟩ := weights_of_forall₂ hreads
  refine ⟨fun stack => ?_, ?_, hsum⟩
  · rw [getD_profileToStacks hpos, hall]
    exact (htotal stack).symm
  · rw [sum_profileToStacks hpos, hall]

/-- The outputs agree only where each operation has a frame. -/
theorem framed_of_agree (hsound : ∀ op ∈ ops, op.Sound ∧ 0 < op.value)
    (h : Agree (sampleAll options (Profile.new view) ops) ops) :
    ∀ op ∈ ops, stackFrames op options ≠ [] := by
  have hpos : ∀ op ∈ ops, 0 < op.value := fun op hop => (hsound op hop).2
  have hsum := h.folded
  rw [sum_profileToStacks hpos] at hsum
  intro op hop
  simpa using forall_of_sum_filter hpos hsum op hop

end Agreement

section Formats

theorem skill_of_defaultForView (view : ProfileView) :
    ∃ spec, defaultForView view = .ok spec ∧ ∃ frame ∈ spec.frames, frame.name = "skill" := by
  have hnames : ((defaultForView view).toOption.map fun spec =>
      spec.frames.map FrameName.name).any ("skill" ∈ ·) = true := by
    cases view <;> decide
  cases hspec : defaultForView view with
  | error e =>
    rw [hspec] at hnames
    cases hnames
  | ok spec =>
    rw [hspec, Except.toOption, Option.map_some, Option.any_some, decide_eq_true_eq] at hnames
    obtain ⟨frame, hframe, hname⟩ := mem_map.mp hnames
    exact ⟨spec, rfl, frame, hframe, hname⟩

variable [Crates] [Platform] (sessions : List SessionRecord) (projectName : String)
  (view : ProfileView) (options : OperationStackConfig)

/-- The formats agree exactly if each selected operation has a value, or a rule that gives it one,
for some frame of the stack. -/
theorem formats_agree_iff : Agree (buildProfileWithOptions sessions projectName view options)
        (selectedOperations sessions projectName view options) ↔
      ∀ op ∈ selectedOperations sessions projectName view options,
        ∃ frame ∈ options.stack.frames, stackFrameValues frame.name op options.rules ≠ [] := by
  have hsound := sound_selectedOperations sessions projectName view options
  constructor
  · intro h op hop
    exact stackFrames_ne_nil.mp (framed_of_agree hsound h op hop)
  · intro h
    exact agree_of_framed hsound fun op hop => stackFrames_ne_nil.mpr (h op hop)

/-- With the stack of its view, a profile has the same value in every format: each operation is
scoped to a skill. -/
theorem agree_of_defaultForView (h : defaultForView view = .ok options.stack) :
    Agree (buildProfileWithOptions sessions projectName view options)
      (selectedOperations sessions projectName view options) := by
  obtain ⟨spec, hspec, frame, hframe, hname⟩ := skill_of_defaultForView view
  rw [hspec, Except.ok.injEq] at h
  have hsound := sound_selectedOperations sessions projectName view options
  refine agree_of_framed hsound fun op hop => ?_
  refine stackFrames_ne_nil.mpr ⟨frame, h ▸ hframe, ?_⟩
  rw [hname, stackFrameValues]
  split
  · exact cons_ne_nil _ _
  · exact (hsound op hop).1.skill

end Formats

/-! ### A stack that an operation has no value for -/

/-- The digests of the two texts that name the evidence below. -/
local instance cargoCrates : Crates where
  fromStr _ := none
  toJson _ := "null"
  sha256 text := if text = "s1:prompt:bootstrap" then
      "0d2ae9abb6ae64e820888762a263fd4a875b4d1a1c1b95259926908fa5fdee60"
    else "96a9fd79e7e1c5380543095217ddc53eea62877709790761e9c8113b50eda0da"
  parseRfc3339 _ := none

/-- The character tables on ASCII. -/
local instance asciiPlatform : Platform where
  toLowercase text := Str.toAsciiLowercase text
  isAlphanumeric c := c.isAlphanum
  currentUsername := some "agent"
  not_alphanumeric_semicolon := by decide

/-- A prompt, and a shell command that runs `cargo`. -/
def cargoSession : SessionRecord where
  source := "claude"
  sessionId := "s1"
  userRequests := [{
    tsMs := none
    textHash := "bootstrap"
    preview := "session bootstrap"
    tag := ""
    taskPath := [] }]
  tools := [{
    tsMs := none
    promptIndex := 0
    toolName := "Bash"
    category := "shell"
    command := "cargo test"
    commandName := "cargo"
    effect := "test"
    processChain := ["cargo"]
    status := "ok"
    pathGroups := []
    domains := []
    callId := none
    skill := ""
    taskPath := [] }]
  llmCalls := []
  sessionTag := ""
  taskTag := ""
  prompted := by decide

def cmdOptions : OperationStackConfig where
  stack := { frames := [⟨"cmd", by decide⟩], nonempty := by decide }
  fieldRules := []
  filters := []
  rules := []

/-- The prompt runs no command: its sample is in the pprof output only. -/
theorem prompt_without_command_disagrees :
    ¬ Agree (buildProfileWithOptions [cargoSession] "repo" .operations cmdOptions)
      (selectedOperations [cargoSession] "repo" .operations cmdOptions) := by
  intro h
  have hfolded : (profileToStacks (buildProfileWithOptions [cargoSession] "repo" .operations
      cmdOptions)).values.sum = 1 := by decide
  have htotal : ((selectedOperations [cargoSession] "repo" .operations cmdOptions).map
      Operation.value).sum = 2 := by decide
  exact absurd ((hfolded.symm.trans h.folded).trans htotal) (by decide)

def defaultOptions : OperationStackConfig :=
  { cmdOptions with stack := (defaultForView .operations).toOption.get (by decide) }

theorem agree_of_defaultForView_operations :
    Agree (buildProfileWithOptions [cargoSession] "repo" .operations defaultOptions)
      (selectedOperations [cargoSession] "repo" .operations defaultOptions) :=
  agree_of_defaultForView _ _ _ _ rfl

end AgentSight.Pprof
