import AgentSight.Nebula.Replay

/-!
# The capped shares of the directories

`cappedDirectoryShares` gives each directory a part of the map by its weight, but none more than a
cap: in each round the directories over the cap get the cap, and the others share what remains. The
cap is above an equal share, so the directories that are left always have room for more than what
remains (`Room`). That is why neither of them runs out.
-/

namespace AgentSight.Nebula

open List

variable {R : Type} [Field R] [LinearOrder R] {weight : String → R} {cap remaining : R}
  {active : List String}

def rowWeight (rows : List (AreaRow R)) (top : String) : R :=
  ((rows.find? (·.top = top)).map AreaRow.weight).getD 0

/-- The directories that go on to the next round. -/
def undersized (weight : String → R) (cap : R) (active : List String) (remaining : R) :
    List String :=
  active.filter (· ∉ oversized weight cap active remaining)

/-- What remains for them. -/
def remainder (weight : String → R) (cap : R) (active : List String) (remaining : R) : R :=
  remaining - (oversized weight cap active remaining).length * cap

/-- The states in which the loop begins a round, from the first one on. -/
inductive Meets (weight : String → R) (cap : R) (active : List String) (remaining : R) :
    List String → R → Prop
  | start : Meets weight cap active remaining active remaining
  | next {active' : List String} {remaining' : R}
      (h : Meets weight cap active remaining active' remaining')
      (hcapped : oversized weight cap active' remaining' ≠ []) :
      Meets weight cap active remaining (undersized weight cap active' remaining')
        (remainder weight cap active' remaining')

theorem capRounds_of_oversized (h : oversized weight cap active remaining ≠ [])
    (shares : OrderedMap String R) : capRounds weight cap active remaining shares =
      capRounds weight cap (undersized weight cap active remaining)
        (remainder weight cap active remaining)
        ((oversized weight cap active remaining).foldl (fun shares top => shares.set top cap)
          shares) := by
  rw [capRounds, dif_neg h]
  rfl

theorem mem_oversized {top : String} : top ∈ oversized weight cap active remaining ↔
    top ∈ active ∧ cap < shareOf weight active remaining top := by
  simp [oversized]

theorem mem_undersized {top : String} : top ∈ undersized weight cap active remaining ↔
    top ∈ active ∧ top ∉ oversized weight cap active remaining := by
  simp [undersized]

/-- Each directory is in one of the two lists. -/
theorem perm_oversized_append (weight : String → R) (cap : R) (active : List String)
    (remaining : R) : (oversized weight cap active remaining ++
    undersized weight cap active remaining).Perm active := by
  have hrest : undersized weight cap active remaining =
      active.filter fun top => !decide (shareOf weight active remaining top > cap) := by
    refine filter_congr fun top htop => ?_
    simp only [decide_not, mem_oversized, htop, true_and, gt_iff_lt]
  rw [hrest]
  exact filter_append_perm _ _

variable [IsStrictOrderedRing R]

theorem sum_shareOf (h : (active.map weight).sum ≠ 0) (remaining : R) :
    (active.map (shareOf weight active remaining)).sum = remaining := by
  have hshare : shareOf weight active remaining =
      fun top => remaining / (active.map weight).sum * weight top := by
    funext top
    rw [shareOf]
    ring
  rw [hshare, sum_map_mul_left, div_mul_cancel₀ _ h]

/-! ### The room that is left -/

/-- The directories have positive weights, and room for more than what remains. -/
structure Room (weight : String → R) (cap : R) (active : List String) (remaining : R) : Prop where
  weight_pos : ∀ top ∈ active, 0 < weight top
  pos : 0 < remaining
  lt : remaining < active.length * cap

namespace Room

omit [IsStrictOrderedRing R] in
theorem ne_nil (h : Room weight cap active remaining) : active ≠ [] := by
  rintro rfl
  have hlt := h.lt
  rw [length_nil, Nat.cast_zero, zero_mul] at hlt
  exact lt_asymm hlt h.pos

section

variable (h : Room weight cap active remaining)
include h

theorem sum_pos : 0 < (active.map weight).sum := by
  refine List.sum_pos _ (fun w hw => ?_) (by simpa using h.ne_nil)
  obtain ⟨top, htop, rfl⟩ := List.mem_map.mp hw
  exact h.weight_pos top htop

theorem shareOf_pos {top : String} (htop : top ∈ active) :
    0 < shareOf weight active remaining top :=
  div_pos (mul_pos h.pos (h.weight_pos top htop)) h.sum_pos

theorem cap_pos : 0 < cap := by
  by_contra hcap
  have hnonpos : (active.length : R) * cap ≤ 0 :=
    mul_nonpos_of_nonneg_of_nonpos (Nat.cast_nonneg _) (not_lt.mp hcap)
  linarith [h.pos, h.lt]

/-- The directories over the cap leave something, and less than the others have room for. -/
theorem next
    (hcapped : oversized weight cap active remaining ≠ []) :
    Room weight cap (undersized weight cap active remaining)
      (remainder weight cap active remaining) := by
  have hover : (oversized weight cap active remaining).length * cap <
      ((oversized weight cap active remaining).map (shareOf weight active remaining)).sum := by
    have hlt := sum_lt_sum_of_ne_nil hcapped (fun _ => cap) (shareOf weight active remaining)
      fun top htop => (mem_oversized.mp htop).2
    simpa using hlt
  have hle : ((oversized weight cap active remaining).map (shareOf weight active remaining)).sum ≤
      remaining := by
    conv_rhs => rw [← sum_shareOf h.sum_pos.ne' remaining]
    refine (filter_sublist.map _).sum_le_sum fun share hshare => ?_
    obtain ⟨top, htop, rfl⟩ := mem_map.mp hshare
    exact (h.shareOf_pos htop).le
  have hlength : (active.length : R) = (oversized weight cap active remaining).length +
      (undersized weight cap active remaining).length := by
    rw [← (perm_oversized_append weight cap active remaining).length_eq, length_append,
      Nat.cast_add]
  have hlt := h.lt
  rw [hlength, add_mul] at hlt
  refine ⟨fun top htop => h.weight_pos top (mem_undersized.mp htop).1, ?_, ?_⟩
  · rw [remainder]
    linarith
  · rw [remainder]
    linarith

theorem meets {active' : List String} {remaining' : R}
    (hmeets : Meets weight cap active remaining active' remaining') :
    Room weight cap active' remaining' := by
  induction hmeets with
  | start => exact h
  | next _ hcapped ih => exact ih.next hcapped

end

end Room

/-! ### What the loop gives -/

/-- What remains is given to the directories, none more than the cap and none with a larger weight
less than another. -/
structure Allots (weight : String → R) (cap : R) (active : List String) (remaining : R)
    (share : String → R) : Prop where
  pos : ∀ top ∈ active, 0 < share top
  le_cap : ∀ top ∈ active, share top ≤ cap
  sum_eq : (active.map share).sum = remaining
  mono : ∀ top ∈ active, ∀ other ∈ active, weight top ≤ weight other → share top ≤ share other

section

variable (h : Room weight cap active remaining)
include h

theorem allots_shareOf
    (hcapped : oversized weight cap active remaining = []) :
    Allots weight cap active remaining (shareOf weight active remaining) where
  pos _ htop := h.shareOf_pos htop
  le_cap top htop := by simpa using filter_eq_nil_iff.mp hcapped top htop
  sum_eq := sum_shareOf h.sum_pos.ne' remaining
  mono _ _ _ _ hle := div_le_div_of_nonneg_right (mul_le_mul_of_nonneg_left hle h.pos.le)
    h.sum_pos.le

/-- The cap for those over it, and a share of the rest for the others. -/
theorem Allots.capped {share : String → R}
    (hrest : Allots weight cap (undersized weight cap active remaining)
      (remainder weight cap active remaining) share) :
    Allots weight cap active remaining fun top =>
      if top ∈ oversized weight cap active remaining then cap else share top := by
  have hle {top : String} (htop : top ∈ active) :
      (if top ∈ oversized weight cap active remaining then cap else share top) ≤ cap := by
    split_ifs with hover
    · exact le_refl cap
    · exact hrest.le_cap top (mem_undersized.mpr ⟨htop, hover⟩)
  refine ⟨fun top htop => ?_, fun top htop => hle htop, ?_, fun top htop other hother hweight => ?_⟩
  · split_ifs with hover
    · exact h.cap_pos
    · exact hrest.pos top (mem_undersized.mpr ⟨htop, hover⟩)
  · rw [← ((perm_oversized_append weight cap active remaining).map _).sum_eq, map_append,
      sum_append, map_congr_left (g := fun _ => cap) fun top htop => if_pos htop,
      map_congr_left (g := share) fun top htop => if_neg (mem_undersized.mp htop).2,
      hrest.sum_eq, remainder]
    simp
  · by_cases hover : other ∈ oversized weight cap active remaining
    · exact (hle htop).trans (if_pos hover).ge
    · -- a directory of no larger weight is not over the cap either
      have hunder : top ∉ oversized weight cap active remaining := by
        intro htopOver
        refine hover (mem_oversized.mpr ⟨hother, (mem_oversized.mp htopOver).2.trans_le ?_⟩)
        exact div_le_div_of_nonneg_right (mul_le_mul_of_nonneg_left hweight h.pos.le) h.sum_pos.le
      rw [if_neg hunder, if_neg hover]
      exact hrest.mono top (mem_undersized.mpr ⟨htop, hunder⟩) other
        (mem_undersized.mpr ⟨hother, hover⟩) hweight

/-- The loop sets the share of each directory once. -/
theorem capRounds_eq :
    ∃ (order : List String) (share : String → R), order.Perm active ∧
      Allots weight cap active remaining share ∧ ∀ shares,
      capRounds weight cap active remaining shares =
        order.foldl (fun shares top => shares.set top (share top)) shares := by
  induction hlength : active.length using Nat.strong_induction_on generalizing active remaining with
  | _ length ih =>
    by_cases hcapped : oversized weight cap active remaining = []
    · refine ⟨active, _, Perm.refl _, allots_shareOf h hcapped, fun shares => ?_⟩
      rw [capRounds, dif_pos hcapped]
    · have hshorter : (undersized weight cap active remaining).length < length := by
        have hpos := length_pos_of_ne_nil hcapped
        have hsplit := (perm_oversized_append weight cap active remaining).length_eq
        rw [length_append] at hsplit
        omega
      obtain ⟨order, share, hperm, hallots, hrounds⟩ := ih _ hshorter (h.next hcapped) rfl
      refine ⟨oversized weight cap active remaining ++ order, _, ?_, hallots.capped h,
        fun shares => ?_⟩
      · exact (hperm.append_left _).trans (perm_oversized_append ..)
      · rw [capRounds_of_oversized hcapped, hrounds, foldl_append]
        have hover := foldl_ext (fun shares top => shares.set top cap) (fun shares top =>
          shares.set top (if top ∈ oversized weight cap active remaining then cap else share top))
          shares fun shares top htop => by rw [if_pos htop]
        rw [hover]
        refine foldl_ext _ _ _ fun shares top htop => ?_
        rw [if_neg (mem_undersized.mp (hperm.mem_iff.mp htop)).2]

end

/-! ### The shares -/

variable {rows : List (AreaRow R)}

omit [LinearOrder R] [IsStrictOrderedRing R] in
theorem rowWeight_of_mem (hnames : (rows.map AreaRow.top).Nodup)
    {row : AreaRow R} (hrow : row ∈ rows) : rowWeight rows row.top = row.weight := by
  rw [rowWeight]
  cases hfind : rows.find? (·.top = row.top) with
  | none => exact absurd (decide_eq_true rfl) (find?_eq_none.mp hfind row hrow)
  | some found =>
    have htop : found.top = row.top := by simpa using find?_some hfind
    rw [inj_on_of_nodup_map hnames (mem_of_find?_eq_some hfind) hrow htop]
    rfl

/-- The cap is above an equal share, so the directories have room for the whole. -/
theorem room_of_rows (hne : rows ≠ [])
    (hnames : (rows.map AreaRow.top).Nodup) (hweight : ∀ row ∈ rows, 0 < row.weight) :
    Room (rowWeight rows) (directoryCap R rows.length) (rows.map AreaRow.top) 1 := by
  refine ⟨fun top htop => ?_, one_pos, ?_⟩
  · obtain ⟨row, hrow, rfl⟩ := mem_map.mp htop
    exact rowWeight_of_mem hnames hrow ▸ hweight row hrow
  · have hpos : (0 : R) < rows.length := Nat.cast_pos.mpr (length_pos_of_ne_nil hne)
    have hcap : 1 / (rows.length : R) < directoryCap R rows.length :=
      lt_max_of_lt_right (lt_add_of_pos_right _ (by norm_num))
    rw [length_map]
    exact (div_lt_iff₀' hpos).mp hcap

theorem exists_shares (hne : rows ≠ [])
    (hnames : (rows.map AreaRow.top).Nodup) (hweight : ∀ row ∈ rows, 0 < row.weight) :
    ∃ (order : List String) (share : String → R), order.Perm (rows.map AreaRow.top) ∧
      Allots (rowWeight rows) (directoryCap R rows.length) (rows.map AreaRow.top) 1 share ∧
      (cappedDirectoryShares rows).entries = order.map fun top => (top, share top) := by
  have hroom := room_of_rows hne hnames hweight
  obtain ⟨order, share, hperm, hallots, hrounds⟩ := capRounds_eq hroom
  match rows with
  | [] => exact absurd rfl hne
  | [row] =>
    refine ⟨[row.top], fun _ => 1, Perm.refl _, ⟨fun _ _ => one_pos, fun _ _ => ?_, by simp,
      fun _ _ _ _ _ => le_refl _⟩, rfl⟩
    exact le_max_of_le_right (by norm_num)
  | row :: other :: rows =>
    refine ⟨order, share, hperm, hallots, ?_⟩
    refine (congrArg OrderedMap.entries (hrounds .empty)).trans ?_
    rw [OrderedMap.entries_foldl_set (hperm.nodup_iff.mpr hnames) _ fun _ _ => not_mem_nil]
    rfl

/-- **Capped shares.** The loop of `cappedDirectoryShares` ends. No state that it meets divides by
zero, each directory gets one share, the shares are positive and sum to one, none exceeds the cap,
and a directory of larger weight gets no smaller share. -/
theorem directory_shares_fair {rows : List (AreaRow R)} (hne : rows ≠ [])
    (hnames : (rows.map AreaRow.top).Nodup) (hweight : ∀ row ∈ rows, 0 < row.weight) :
    ((rows.length : R) ≠ 0 ∧ ∀ active remaining,
      Meets (rowWeight rows) (directoryCap R rows.length) (rows.map AreaRow.top) 1 active
        remaining → (active.map (rowWeight rows)).sum ≠ 0) ∧
      (cappedDirectoryShares rows).keys.Perm (rows.map AreaRow.top) ∧
      (cappedDirectoryShares rows).values.sum = 1 ∧
      ∀ row ∈ rows, ∃ share, (cappedDirectoryShares rows).get row.top = some share ∧
        0 < share ∧ share ≤ directoryCap R rows.length ∧
        ∀ other ∈ rows, row.weight ≤ other.weight →
          ∃ share', (cappedDirectoryShares rows).get other.top = some share' ∧ share ≤ share' := by
  obtain ⟨order, share, hperm, hallots, hentries⟩ := exists_shares hne hnames hweight
  have hget {row : AreaRow R} (hrow : row ∈ rows) :
      (cappedDirectoryShares rows).get row.top = some (share row.top) := by
    rw [OrderedMap.get_eq_some, hentries, mem_map]
    exact ⟨row.top, hperm.mem_iff.mpr (mem_map_of_mem hrow), rfl⟩
  refine ⟨⟨?_, fun active remaining hmeets => ?_⟩, ?_, ?_, fun row hrow => ?_⟩
  · exact Nat.cast_ne_zero.mpr (length_pos_of_ne_nil hne).ne'
  · exact ((room_of_rows hne hnames hweight).meets hmeets).sum_pos.ne'
  · rw [OrderedMap.keys, hentries, map_map]
    simpa [Function.comp_def] using hperm
  · rw [OrderedMap.values, hentries, map_map, ← hallots.sum_eq]
    exact (hperm.map share).sum_eq
  · have htop := mem_map_of_mem (f := AreaRow.top) hrow
    refine ⟨_, hget hrow, hallots.pos _ htop, hallots.le_cap _ htop, fun other hother hle => ?_⟩
    refine ⟨_, hget hother, hallots.mono _ htop _ (mem_map_of_mem hother) ?_⟩
    rwa [rowWeight_of_mem hnames hrow, rowWeight_of_mem hnames hother]

/-- Of three directories the largest one is over the cap. -/
theorem directory_shares_fair_three : (cappedDirectoryShares [⟨"src", [], 0, 8⟩, ⟨"docs", [], 0, 1⟩,
      ⟨"test", [], (0 : ℚ), 1⟩]).values.sum = 1 :=
  (directory_shares_fair (by decide) (by decide) (by simp)).2.2.1

end AgentSight.Nebula
