import AgentSight.Bpf.Lines

/-!
# The command line of an exec

`handle_exec` of `bpf/process.bpf.c` copies a fixed number of bytes from the start of the arguments
of the process into the record and keeps the length of the arguments, up to the size of the buffer,
in the exit code. `postprocess_full_command` takes that many bytes and writes a blank for each NUL.

Where the arguments are read, what is printed is the arguments with blanks between them, as far as
the buffer goes. A blank that would be the very last byte is not printed. Without arguments, and
where the read fails, the name of the process stands in for them.
-/

namespace AgentSight.Bpf

/-! ### The kernel side -/

/-- The memory of a process from `arg_start` on. -/
structure ArgMemory where
  argv : List (List UInt8)
  /-- What is mapped behind the arguments. -/
  behind : List UInt8
  /-- The pages that are read are in memory. -/
  present : Bool
  /-- What a read that fails leaves in its destination. -/
  faulted : List UInt8
  noNul : ∀ arg ∈ argv, 0 ∉ arg

namespace ArgMemory

/-- The bytes from `arg_start` to `arg_end`: each argument and its NUL. -/
def area (m : ArgMemory) : List UInt8 := m.argv.flatMap (· ++ [0])

/-- `bpf_probe_read_user` of `size` bytes. -/
def probeReadUser (m : ArgMemory) (size : ℕ) : Option (List UInt8) :=
  if m.present ∧ size ≤ (m.area ++ m.behind).length then some ((m.area ++ m.behind).take size)
  else none

end ArgMemory

/-- Bytes that are copied over the start of a buffer. -/
def overlay {size : ℕ} (front : List UInt8) (buf : Vector UInt8 size) : Vector UInt8 size :=
  ⟨⟨front.take size ++ buf.toList.drop front.length⟩, by simp; omega⟩

/-- What `handle_exec` is called with, and what the helpers of the kernel answer. -/
structure ExecContext where
  /-- `is_cgroup_tracked`. -/
  tracked : Bool
  minDurationNs : UInt64
  /-- The record that is reserved, with what was in it before. -/
  reserved : Option Event
  pid : Int32
  ppid : Int32
  now : UInt64
  comm : CString taskCommLen
  filename : CString maxFilenameLen
  memory : ArgMemory

/-- The record after the arguments, or the name of the process, are copied into it. -/
def captureArgs (m : ArgMemory) (comm : CString taskCommLen) (e : Event) : Event :=
  let argLen := min m.area.length (maxCommandLen - 1)
  if 0 < argLen then
    let fullCommand :=
      match m.probeReadUser (maxCommandLen - 1) with
      | some bytes => overlay bytes e.fullCommand
      | none =>
        overlay (comm.bytes ++ [0]) (overlay (m.faulted.take (maxCommandLen - 1)) e.fullCommand)
    { e with
      fullCommand := fullCommand.set (maxCommandLen - 1) 0 (by decide)
      exitCode := UInt32.ofNat (argLen &&& (maxCommandLen - 1)) }
  else { e with fullCommand := overlay (comm.bytes ++ [0]) e.fullCommand, exitCode := 0 }

def handleExec (c : ExecContext) : Option Event :=
  if !c.tracked ∨ c.minDurationNs ≠ 0 then none
  else
    c.reserved.map fun e =>
      captureArgs c.memory c.comm { e with
          body := .exec c.filename, pid := c.pid, ppid := c.ppid, timestampNs := c.now,
          comm := c.comm }

/-! ### The printed command -/

/-- The `full_command` that is printed for an exec. -/
def printedCommand (e : Event) : List UInt8 :=
  (postprocessFullCommand e.fullCommand e.exitCode).bytes

/-- The arguments with blanks between them. -/
def joinedArgs (argv : List (List UInt8)) : List UInt8 := [32].intercalate argv

/-- The capture ends right behind an argument, with more of them to come. -/
def CutBehind (m : ArgMemory) : Prop :=
  maxCommandLen - 1 < m.area.length ∧ m.area[maxCommandLen - 2]? = some 0

/-- What is printed for a process with this memory. -/
structure Prints (m : ArgMemory) (comm : CString taskCommLen) (printed : List UInt8) : Prop where
  /-- Arguments that are read, as far as the capture goes. -/
  read : m.argv ≠ [] → m.probeReadUser (maxCommandLen - 1) ≠ none → ¬CutBehind m →
    printed = (joinedArgs m.argv).take (maxCommandLen - 1)
  /-- In any case no byte of another origin. -/
  inside : m.argv ≠ [] → m.probeReadUser (maxCommandLen - 1) ≠ none →
    printed <+: (joinedArgs m.argv).take (maxCommandLen - 1)
  /-- No arguments. -/
  missing : m.argv = [] → printed = comm.bytes
  /-- The name of the process stands in for arguments that are not read. -/
  failed : m.argv ≠ [] → m.probeReadUser (maxCommandLen - 1) = none →
    comm.bytes.take m.area.length <+: printed

/-! ### The arguments and their area -/

/-- `\0` becomes a blank. -/
def blank (b : UInt8) : UInt8 := if b = 0 then 32 else b

variable {m : ArgMemory} {argv : List (List UInt8)} {size : ℕ}

theorem map_blank {bytes : List UInt8} (h : 0 ∉ bytes) : bytes.map blank = bytes := by
  refine (List.map_congr_left fun b hb => ?_).trans (List.map_id _)
  have hne : b ≠ 0 := by
    rintro rfl
    exact h hb
  rw [blank, if_neg hne, id]

theorem blank_ne_zero (b : UInt8) : blank b ≠ 0 := by
  unfold blank
  split_ifs with h
  · decide
  · exact h

/-- The area is the arguments joined, with NULs for the blanks and one more at the end. -/
theorem exists_area (hne : argv ≠ []) (h : ∀ arg ∈ argv, 0 ∉ arg) :
    ∃ inner, argv.flatMap (· ++ [0]) = inner ++ [0] ∧ inner.map blank = joinedArgs argv := by
  induction argv with
  | nil => exact absurd rfl hne
  | cons arg argv ih =>
    rw [List.forall_mem_cons] at h
    cases argv with
    | nil => exact ⟨arg, by simp, by simp [joinedArgs, map_blank h.1]⟩
    | cons next argv =>
      obtain ⟨inner, harea, hjoined⟩ := ih (List.cons_ne_nil _ _) h.2
      refine ⟨arg ++ 0 :: inner, ?_, ?_⟩
      · rw [List.flatMap_cons, harea]
        simp
      · rw [List.map_append, List.map_cons, map_blank h.1, hjoined, joinedArgs, joinedArgs,
          List.intercalate_cons_cons, List.append_assoc]
        rfl

theorem area_eq_nil : m.area = [] ↔ m.argv = [] := by
  rw [ArgMemory.area, List.flatMap_eq_nil_iff]
  constructor
  · intro h
    rw [List.eq_nil_iff_forall_not_mem]
    exact fun arg harg => by simpa using h arg harg
  · intro h
    simp [h]

/-! ### The buffer -/

theorem toList_overlay (front : List UInt8) (buf : Vector UInt8 size) :
    (overlay front buf).toList = front.take size ++ buf.toList.drop front.length := rfl

variable {front : List UInt8}

theorem take_overlay {k : ℕ} (buf : Vector UInt8 size) (hk : k ≤ front.length) (hsize : k ≤ size) :
    (overlay front buf).toList.take k = front.take k := by
  have hlength : k ≤ (front.take size).length := by
    rw [List.length_take]
    omega
  rw [toList_overlay, List.take_append_of_le_length hlength, List.take_take, Nat.min_eq_left hsize]

/-- The user side writes a blank for each NUL but at the last place, and a NUL there ends the
text. -/
theorem postprocessFullCommand_eq {buf : Vector UInt8 maxCommandLen}
    {last : UInt8} {argLen : UInt32} (hlen : argLen.toNat = front.length + 1)
    (hmax : front.length + 1 ≤ maxCommandLen - 1)
    (hbuf : buf.toList.take argLen.toNat = front ++ [last]) :
    (postprocessFullCommand buf argLen).bytes =
      front.map blank ++ if last = 0 then [] else [last] := by
  have hzero : ¬(argLen = 0 ∨ maxCommandLen - 1 < argLen.toNat) := by
    rintro (rfl | hlt)
    · cases hlen
    · omega
  have hmap : ((front ++ [last]).mapIdx fun i b =>
      if i < argLen.toNat - 1 ∧ b = 0 then 32 else b) = front.map blank ++ [last] := by
    refine List.ext_getElem (by simp) fun i hi hi' => ?_
    simp only [List.getElem_mapIdx, hlen]
    by_cases hfront : i < front.length
    · simp [hfront, blank]
    · simp [List.getElem_append, hfront]
  have hfits : (front.map blank ++ [last]).take (maxCommandLen - 1) =
      front.map blank ++ [last] := by
    simpa using hmax
  have hblank : ∀ b ∈ front.map blank, decide (b ≠ 0) = true := by
    intro b hb
    obtain ⟨c, -, rfl⟩ := List.mem_map.mp hb
    exact decide_eq_true (blank_ne_zero c)
  rw [postprocessFullCommand, if_neg hzero, hbuf, hmap, CString.ofBytes]
  simp only [hfits]
  rw [List.takeWhile_append_of_pos hblank]
  by_cases hlast : last = 0 <;> simp [hlast]

/-- Without a length the text goes to the first NUL. -/
theorem postprocessFullCommand_zero {buf : Vector UInt8 maxCommandLen} {rest : List UInt8}
    (hfront : 0 ∉ front) (hmax : front.length < maxCommandLen - 1)
    (hbuf : buf.toList = front ++ 0 :: rest) : (postprocessFullCommand buf 0).bytes = front := by
  have hnone : ∀ b ∈ front, decide (b ≠ 0) = true := by
    intro b hb
    refine decide_eq_true ?_
    rintro rfl
    exact hfront hb
  have htake : (front ++ 0 :: rest).take (maxCommandLen - 1) =
      front ++ 0 :: rest.take (maxCommandLen - 1 - front.length - 1) := by
    obtain ⟨k, hk⟩ : ∃ k, maxCommandLen - 1 - front.length = k + 1 :=
      ⟨maxCommandLen - 1 - front.length - 1, by omega⟩
    rw [List.take_append, List.take_of_length_le hmax.le, hk]
    rfl
  rw [postprocessFullCommand, if_pos (.inl rfl), CString.ofBytes, hbuf]
  simp only [htake]
  rw [List.takeWhile_append_of_pos hnone]
  simp

/-! ### The record -/

theorem exitCode_toNat (n : ℕ) : (UInt32.ofNat
    (min n (maxCommandLen - 1) &&& (maxCommandLen - 1))).toNat = min n (maxCommandLen - 1) := by
  have hmax : maxCommandLen - 1 = 2 ^ 8 - 1 := rfl
  have hle : min n (maxCommandLen - 1) ≤ maxCommandLen - 1 := Nat.min_le_right _ _
  rw [hmax] at hle ⊢
  rw [Nat.and_two_pow_sub_one_of_lt_two_pow (by omega), UInt32.toNat_ofNat_of_lt' (by
      rw [UInt32.size]; omega)]

theorem take_set_overlay {k : ℕ} (buf : Vector UInt8 maxCommandLen)
    (hk : k ≤ front.length) (hmax : k ≤ maxCommandLen - 1) :
    ((overlay front buf).set (maxCommandLen - 1) 0 (by decide)).toList.take k = front.take k := by
  rw [Vector.toList_set, List.take_set_of_le hmax,
    take_overlay buf hk (hmax.trans (Nat.sub_le _ _))]

theorem exists_take_eq_concat (bytes : List UInt8) (k : ℕ) (hpos : 0 < k) (hk : k ≤ bytes.length) :
    ∃ front last, bytes.take k = front ++ [last] ∧ k = front.length + 1 := by
  have hlength : (bytes.take k).length = k := by
    rw [List.length_take, Nat.min_eq_left hk]
  obtain hnil | ⟨front, last, hfront⟩ := List.eq_nil_or_concat (bytes.take k)
  · rw [hnil, List.length_nil] at hlength
    omega
  · rw [List.concat_eq_append] at hfront
    refine ⟨front, last, hfront, ?_⟩
    rw [hfront, List.length_append] at hlength
    exact hlength.symm

theorem take_comm (comm : CString taskCommLen) :
    (comm.bytes ++ [0]).take maxCommandLen = comm.bytes ++ [0] := by
  have hcomm : comm.bytes.length < 16 := comm.fits
  refine List.take_of_length_le ?_
  rw [List.length_append, List.length_singleton, maxCommandLen]
  omega

theorem length_area_pos (hargv : m.argv ≠ []) : 0 < m.area.length :=
  List.length_pos_of_ne_nil (mt area_eq_nil.mp hargv)

/-- The arguments of a process whose memory is read. -/
theorem printedCommand_read {bytes : List UInt8} (comm : CString taskCommLen) (e : Event)
    (hargv : m.argv ≠ []) (hread : m.probeReadUser (maxCommandLen - 1) = some bytes) :
    ∃ front last, m.area.take (maxCommandLen - 1) = front ++ [last] ∧
      printedCommand (captureArgs m comm e) =
        front.map blank ++ if last = 0 then [] else [last] := by
  have hpos := length_area_pos hargv
  have hmax : maxCommandLen - 1 = 255 := rfl
  obtain ⟨⟨-, hmapped⟩, hbytes⟩ := Option.ite_none_right_eq_some.mp hread
  have hle : min m.area.length (maxCommandLen - 1) ≤ maxCommandLen - 1 := Nat.min_le_right _ _
  have harea : m.area.take (min m.area.length (maxCommandLen - 1)) =
      m.area.take (maxCommandLen - 1) := by
    rw [Nat.min_comm, ← List.take_eq_take_min]
  obtain ⟨front, last, hfront, hlength⟩ := exists_take_eq_concat m.area
    (min m.area.length (maxCommandLen - 1)) (by omega) (Nat.min_le_left _ _)
  refine ⟨front, last, harea ▸ hfront, ?_⟩
  have hcopied : bytes.take (min m.area.length (maxCommandLen - 1)) = front ++ [last] := by
    rw [← Option.some.inj hbytes, List.take_take, Nat.min_eq_left hle,
      List.take_append_of_le_length (Nat.min_le_left _ _), hfront]
  have hlonger : min m.area.length (maxCommandLen - 1) ≤ bytes.length := by
    rw [← Option.some.inj hbytes, List.length_take]
    omega
  rw [captureArgs, if_pos (by omega), hread]
  refine postprocessFullCommand_eq ?_ (by omega) ?_
  · rw [exitCode_toNat, hlength]
  · rw [exitCode_toNat, take_set_overlay _ hlonger hle, hcopied]

/-- Bytes that are not NUL are printed as they are. -/
theorem prefix_printed {pre : List UInt8} {last : UInt8} (h : pre <+: front ++ [last])
    (hsolid : 0 ∉ pre) : pre <+: front.map blank ++ if last = 0 then [] else [last] := by
  obtain rfl | h := List.prefix_concat_iff.mp h
  · rw [List.mem_append, not_or, List.mem_singleton] at hsolid
    rw [map_blank hsolid.1, if_neg (Ne.symm hsolid.2)]
  · have hmap := h.map blank
    rw [map_blank hsolid] at hmap
    exact hmap.trans (List.prefix_append _ _)

/-- The name of the process stands in for arguments that are not read. -/
theorem printedCommand_failed {comm : CString taskCommLen} (e : Event)
    (hargv : m.argv ≠ []) (hread : m.probeReadUser (maxCommandLen - 1) = none) :
    comm.bytes.take m.area.length <+: printedCommand (captureArgs m comm e) := by
  have hpos := length_area_pos hargv
  have hmax : maxCommandLen - 1 = 255 := rfl
  have hcomm : comm.bytes.length < 16 := comm.fits
  have hle : min m.area.length (maxCommandLen - 1) ≤ maxCommandLen - 1 := Nat.min_le_right _ _
  rw [printedCommand, captureArgs, if_pos (by omega), hread]
  generalize overlay (m.faulted.take (maxCommandLen - 1)) e.fullCommand = buf
  have hbuf : comm.bytes.take m.area.length <+:
      ((overlay (comm.bytes ++ [0]) buf).set (maxCommandLen - 1) 0 (by decide)).toList.take
        (min m.area.length (maxCommandLen - 1)) := by
    have hsame : comm.bytes.take m.area.length =
        comm.bytes.take (min m.area.length (maxCommandLen - 1)) := by
      rw [List.take_eq_take_iff]
      omega
    rw [Vector.toList_set, List.take_set_of_le hle, toList_overlay, take_comm, List.append_assoc,
      List.take_append, hsame]
    exact List.prefix_append _ _
  obtain ⟨front, last, hfront, hlength⟩ := exists_take_eq_concat
    ((overlay (comm.bytes ++ [0]) buf).set (maxCommandLen - 1) 0 (by decide)).toList
    (min m.area.length (maxCommandLen - 1)) (by omega) (by simp)
  have hprinted := postprocessFullCommand_eq (by rw [exitCode_toNat, hlength]) (by omega)
    (by rw [exitCode_toNat]; exact hfront)
  rw [hfront] at hbuf
  have hsolid : 0 ∉ comm.bytes.take m.area.length :=
    fun hmem => comm.noNul (List.mem_of_mem_take hmem)
  rw [hprinted]
  exact prefix_printed hbuf hsolid

theorem printedCommand_missing (comm : CString taskCommLen) (e : Event) (hargv : m.argv = []) :
    printedCommand (captureArgs m comm e) = comm.bytes := by
  have hcomm : comm.bytes.length < 16 := comm.fits
  have hmax : maxCommandLen - 1 = 255 := rfl
  have hbuf : (overlay (comm.bytes ++ [0]) e.fullCommand).toList =
      comm.bytes ++ 0 :: e.fullCommand.toList.drop (comm.bytes ++ [0]).length := by
    rw [toList_overlay, take_comm, List.append_assoc]
    rfl
  have hnone : ¬0 < min m.area.length (maxCommandLen - 1) := by
    rw [area_eq_nil.mpr hargv, List.length_nil]
    omega
  rw [captureArgs, if_neg hnone]
  exact postprocessFullCommand_zero comm.noNul (by omega) hbuf

theorem prints_captureArgs (m : ArgMemory) (comm : CString taskCommLen) (e : Event) :
    Prints m comm (printedCommand (captureArgs m comm e)) := by
  have hread (hargv : m.argv ≠ []) (hread : m.probeReadUser (maxCommandLen - 1) ≠ none) :
      printedCommand (captureArgs m comm e) <+: (joinedArgs m.argv).take (maxCommandLen - 1) ∧
        (¬CutBehind m → printedCommand (captureArgs m comm e) =
          (joinedArgs m.argv).take (maxCommandLen - 1)) := by
    obtain ⟨bytes, hbytes⟩ := Option.ne_none_iff_exists'.mp hread
    obtain ⟨front, last, hfront, hprinted⟩ := printedCommand_read comm e hargv hbytes
    obtain ⟨inner, harea, hjoined⟩ := exists_area hargv m.noNul
    have hlength : m.area.length = inner.length + 1 := by
      rw [ArgMemory.area, harea, List.length_append, List.length_singleton]
    rw [hprinted, ← hjoined]
    by_cases hfits : m.area.length ≤ maxCommandLen - 1
    · -- All of the arguments are captured, and the last byte is the NUL behind them.
      rw [List.take_of_length_le hfits, ArgMemory.area, harea] at hfront
      obtain ⟨rfl, hlast⟩ := List.append_inj' hfront rfl
      obtain rfl := List.singleton_inj.mp hlast
      rw [if_pos rfl, List.append_nil, List.take_of_length_le (by rw [List.length_map]; omega)]
      exact ⟨List.prefix_refl _, fun _ => rfl⟩
    · have hinner : inner.take (maxCommandLen - 1) = front ++ [last] := by
        rw [← hfront, ArgMemory.area, harea, List.take_append_of_le_length (by omega)]
      rw [← List.map_take, hinner, List.map_append, List.map_singleton]
      by_cases hlast : last = 0
      · rw [if_pos hlast, List.append_nil]
        refine ⟨List.prefix_append _ _, fun hcut => absurd ⟨by omega, ?_⟩ hcut⟩
        have hget := congrArg (fun bytes : List UInt8 => bytes[maxCommandLen - 2]?) hfront
        have hfrontLength := congrArg List.length hinner
        rw [List.length_take, List.length_append, List.length_singleton] at hfrontLength
        have hindex : maxCommandLen - 2 = front.length := by omega
        simp only [hindex, List.getElem?_concat_length] at hget
        rw [List.getElem?_take_of_lt (by omega)] at hget
        rw [hindex, hget, hlast]
      · rw [if_neg hlast, blank, if_neg hlast]
        exact ⟨List.prefix_refl _, fun _ => rfl⟩
  exact ⟨fun hargv hmem => (hread hargv hmem).2, fun hargv hmem => (hread hargv hmem).1,
    printedCommand_missing comm e, printedCommand_failed e⟩

/-- **What is printed for an exec.** The arguments with blanks between them, as far as the capture
goes, where they are read and the capture does not end right behind one of them, and never a byte of
another origin; the name of the process where there are no arguments, and in front where they are
not read. -/
theorem full_command_prints {c : ExecContext} {e : Event} (h : handleExec c = some e) :
    Prints c.memory c.comm (printedCommand e) := by
  rw [handleExec] at h
  split at h
  · cases h
  · obtain ⟨record, -, rfl⟩ := Option.map_eq_some_iff.mp h
    exact prints_captureArgs _ _ _

/-! ### Three execs -/

/-- An exec of a tracked process into a record of zeros. -/
def execOf (argv : List (List UInt8)) (noNul : ∀ arg ∈ argv, 0 ∉ arg) (behind : List UInt8)
    (comm : CString taskCommLen) : ExecContext where
  tracked := true
  minDurationNs := 0
  reserved := some {
    pid := 0, ppid := 0, exitCode := 0, durationNs := 0, timestampNs := 0,
    comm := ⟨[], by decide, by decide⟩, fullCommand := Vector.replicate maxCommandLen 0,
    body := .exit }
  pid := 7
  ppid := 1
  now := 0
  comm
  filename := ⟨[], by decide, by decide⟩
  memory := ⟨argv, behind, true, List.replicate (maxCommandLen - 1) 0, noNul⟩

/-- `sh` -/
def shName : CString taskCommLen := FileOpenRun.shell

/-- `sh -c` -/
def shell : ExecContext := execOf [[115, 104], [45, 99]] (by decide) (List.replicate 300 65) shName

theorem full_command_prints_shell : ∃ e, handleExec shell = some e ∧
    Prints shell.memory shell.comm (printedCommand e) := ⟨_, rfl, full_command_prints rfl⟩

/-- `sh -c` at the end of what is mapped. -/
def unreadable : ExecContext := execOf [[115, 104], [45, 99]] (by decide) [] shName

def noArgs : ExecContext := execOf [] (by decide) (List.replicate 300 65) shName

/-- An argument that fills the capture up to its NUL, and one more. -/
def filled : ExecContext :=
  execOf [List.replicate 254 97, [98]] (by decide +kernel) (List.replicate 300 65) shName

/-- Where the arguments are not read, where there are none, and where the capture ends right behind
one of them, what is printed is not the arguments as far as the capture goes. -/
theorem full_command_not_joined : (handleExec unreadable).map printedCommand ≠
        some ((joinedArgs unreadable.memory.argv).take (maxCommandLen - 1)) ∧
      (handleExec noArgs).map printedCommand ≠
        some ((joinedArgs noArgs.memory.argv).take (maxCommandLen - 1)) ∧
      (handleExec filled).map printedCommand ≠
        some ((joinedArgs filled.memory.argv).take (maxCommandLen - 1)) := by
  refine ⟨?_, ?_, ?_⟩ <;> decide +kernel

end AgentSight.Bpf
