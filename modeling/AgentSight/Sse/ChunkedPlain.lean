import AgentSight.Sse.Chunked
import AgentSight.Sse.EventText

/-!
# Chunks of plain event streams

For a body as servers write it, in lines of one field each with LF line ends, the condition on the
chunks is exact. The characters of the values that are read are counted: a line that is cut gives
fewer than it has, so no line of a body that is read rightly is cut; and a blank line that comes
between two lines of an event makes one event more.
-/

namespace AgentSight.Sse

open Json (Value)
open Str (countInk countInk_append countInk_trim)
open List Fields

/-! ### Fields -/

inductive Field where
  | event (value : String)
  | data (value : String)
  | id (value : String)

def Field.value : Field → String
  | .event value => value
  | .data value => value
  | .id value => value

def Field.name : Field → String
  | .event _ => "event:"
  | .data _ => "data:"
  | .id _ => "id:"

def fieldNames : List String := ["event:", "data:", "id:"]

theorem Field.name_mem (field : Field) : field.name ∈ fieldNames := by
  cases field <;> simp [Field.name, fieldNames]

/-- The field that a line gives. -/
def fieldOf (line : String) : Option Field :=
  match Str.stripPrefix (Str.trim line) "event:" with
  | some rest => some (.event (Str.trim rest))
  | none =>
    match Str.stripPrefix (Str.trim line) "data:" with
    | some rest => some (.data (Str.trim rest))
    | none => (Str.stripPrefix (Str.trim line) "id:").map fun rest => .id (Str.trim rest)

def Fields.add (fields : Fields) : Field → Fields
  | .event value => { fields with event := some value }
  | .data value => { fields with dataLines := fields.dataLines ++ [value] }
  | .id value => { fields with id := some value }

theorem readLine_eq (fields : Fields) (line : String) :
    fields.readLine line = ((fieldOf line).map fields.add).getD fields := by
  unfold readLine fieldOf
  dsimp only
  cases Str.stripPrefix (Str.trim line) "event:" with
  | some rest => rfl
  | none =>
    cases Str.stripPrefix (Str.trim line) "data:" with
    | some rest => rfl
    | none => cases Str.stripPrefix (Str.trim line) "id:" <;> rfl

/-- A field has its name before its value. -/
theorem exists_rest {line : String} {field : Field} (h : fieldOf line = some field) :
    ∃ rest, (Str.trim line).toList = field.name.toList ++ rest ∧
      countInk field.value.toList = countInk rest := by
  have hvalue {rest : String} hstrip (hfield : field.value = Str.trim rest) : ∃ rest,
        (Str.trim line).toList = field.name.toList ++ rest ∧
          countInk field.value.toList = countInk rest :=
    ⟨rest.toList, Str.stripPrefix_iff.mp hstrip, by rw [hfield, countInk_trim]⟩
  unfold fieldOf at h
  split at h
  · next rest hstrip =>
    obtain rfl := Option.some.inj h
    exact hvalue hstrip rfl
  · split at h
    · next rest hstrip =>
      obtain rfl := Option.some.inj h
      exact hvalue hstrip rfl
    · obtain ⟨rest, hstrip, rfl⟩ := Option.map_eq_some_iff.mp h
      exact hvalue hstrip rfl

/-- A line that begins with a name gives a field. -/
theorem isSome_fieldOf {line name : String} (hname : name ∈ fieldNames)
    (h : Str.startsWith (Str.trim line) name) : (fieldOf line).isSome := by
  have hstrip : Str.stripPrefix (Str.trim line) name ≠ none := by
    rw [Str.stripPrefix, if_pos h]
    exact Option.some_ne_none _
  obtain rfl | rfl | rfl : name = "event:" ∨ name = "data:" ∨ name = "id:" := by
    simpa [fieldNames] using hname
  all_goals
    unfold fieldOf
    split
    · rfl
    · split
      · rfl
      · simp_all [Option.isSome_iff_ne_none]

/-! ### Counting characters -/

/-- How many characters the value of a line has, white space left out. -/
@[irreducible]
def weight (line : List Char) : ℕ :=
  ((fieldOf (String.ofList line)).map (countInk ·.value.toList)).getD 0

variable {line cs rest front back left : List Char}

theorem weight_eq {field : Field} (h : fieldOf (String.ofList line) = some field) :
    weight line = countInk field.value.toList := by
  simp [weight, h]

theorem weight_none (h : fieldOf (String.ofList line) = none) : weight line = 0 := by
  rw [weight, h]
  rfl

/-- The name of a field is not counted. -/
theorem weight_le (line : List Char) : weight line ≤ countInk line - 3 := by
  cases hfield : fieldOf (String.ofList line) with
  | none => rw [weight_none hfield]; exact Nat.zero_le _
  | some field =>
    obtain ⟨rest, hline, hvalue⟩ := exists_rest hfield
    have hcount : countInk line = countInk field.name.toList + countInk rest := by
      rw [← countInk_append, ← hline, countInk_trim, String.toList_ofList]
    have hlong : ∀ name ∈ fieldNames, 3 ≤ countInk name.toList := by decide
    have := hlong field.name field.name_mem
    rw [weight_eq hfield]
    omega

theorem name_ink {name : String} (hname : name ∈ fieldNames) :
    ∀ c ∈ name.toList, Str.isWhitespace c = false := by
  have hall : ∀ name ∈ fieldNames, ∀ c ∈ name.toList, Str.isWhitespace c = false := by
    decide
  exact hall name hname

/-- No name begins like another. -/
theorem name_unique {name name' : String} (hname : name ∈ fieldNames) (hname' : name' ∈ fieldNames)
    {rest' : List Char} (h : cs = name.toList ++ rest) (h' : cs = name'.toList ++ rest') :
    name = name' := by
  have hapart : ∀ name ∈ fieldNames, ∀ name' ∈ fieldNames, name.toList <+: name'.toList →
      name = name' := by decide
  have hbegins : name.toList <+: cs := ⟨rest, h.symm⟩
  obtain hle | hle := prefix_or_prefix_of_prefix hbegins ⟨rest', h'.symm⟩
  · exact hapart name hname name' hname' hle
  · exact (hapart name' hname' name hname hle).symm

theorem weight_name {name : String} (hname : name ∈ fieldNames) (cs : List Char) :
    weight (name.toList ++ cs) = countInk cs := by
  obtain ⟨rest, hrest⟩ := Str.prefix_trim (name_ink hname) cs
  have hsome : (fieldOf (String.ofList (name.toList ++ cs))).isSome :=
    isSome_fieldOf hname (Str.startsWith_iff.mpr ⟨rest, hrest⟩)
  obtain ⟨field, hfield⟩ := Option.isSome_iff_exists.mp hsome
  obtain ⟨rest', hline, hvalue⟩ := exists_rest hfield
  rw [← name_unique hname field.name_mem hrest.symm hline] at hline
  have hsame : rest = rest' := append_cancel_left (hrest.trans hline)
  have hcount := congrArg countInk hrest
  rw [countInk_append, countInk_trim, String.toList_ofList, countInk_append] at hcount
  rw [weight_eq hfield, hvalue, ← hsame]
  omega

theorem weight_of_notMem (h : ':' ∉ line) : weight line = 0 := by
  cases hfield : fieldOf (String.ofList line) with
  | none => exact weight_none hfield
  | some field =>
    obtain ⟨rest, hline, -⟩ := exists_rest hfield
    have hcolon : ∀ name ∈ fieldNames, ':' ∈ name.toList := by decide
    have hmem : ':' ∈ (Str.trim (String.ofList line)).toList := by
      rw [hline]
      exact mem_append_left _ (hcolon field.name field.name_mem)
    have hsub := (Str.infix_trim (String.ofList line)).subset hmem
    rw [String.toList_ofList] at hsub
    exact absurd hsub h

theorem weight_nil : weight [] = 0 := weight_of_notMem not_mem_nil

/-- A name without its beginning is no name. -/
theorem weight_name_rest {name : String} (hname : name ∈ fieldNames)
    (hparts : front ++ back = name.toList) (hfront : front ≠ []) (hback : back ≠ [])
    (cs : List Char) : weight (back ++ cs) = 0 := by
  have hapart : ∀ name ∈ fieldNames, ∀ back ∈ name.toList.tails, back ≠ [] → back ≠ name.toList →
      ∀ name' ∈ fieldNames, ¬ back <+: name'.toList ∧ ¬ name'.toList <+: back := by
    decide
  have hproper : back ≠ name.toList := by
    intro hsame
    rw [hsame] at hparts
    exact hfront (append_left_eq_self.mp hparts)
  have hink : ∀ c ∈ back, Str.isWhitespace c = false := fun c hc =>
    name_ink hname c (by rw [← hparts]; exact mem_append_right _ hc)
  cases hfield : fieldOf (String.ofList (back ++ cs)) with
  | none => exact weight_none hfield
  | some field =>
    obtain ⟨rest, hline, -⟩ := exists_rest hfield
    have hcut := hapart name hname back ((mem_tails _ _).mpr ⟨front, hparts⟩) hback hproper
      field.name field.name_mem
    exact absurd (List.prefix_or_prefix_of_prefix (Str.prefix_trim hink cs) ⟨rest, hline.symm⟩)
      (not_or.mpr hcut)

/-! ### Cutting a line -/

/-- A line of one field with a value, that white space does not end. -/
def Tight (line : List Char) : Prop :=
  ∃ name ∈ fieldNames, ∃ rest, line = name.toList ++ rest ∧ '\r' ∉ rest ∧ '\n' ∉ rest ∧
    ∃ c, rest.getLast? = some c ∧ Str.isWhitespace c = false

theorem countInk_pos {c : Char} (hmem : c ∈ cs)
    (hc : Str.isWhitespace c = false) : 0 < countInk cs :=
  countP_pos_iff.mpr ⟨c, hmem, by simp [hc]⟩

theorem Tight.weight_pos (h : Tight line) : 0 < weight line := by
  obtain ⟨name, hname, rest, rfl, -, -, c, hlast, hc⟩ := h
  rw [weight_name hname]
  exact countInk_pos (mem_of_getLast? hlast) hc

/-- A cut inside the name leaves no field. -/
theorem weight_cut_name {name : String} (hname : name ∈ fieldNames) {part : List Char}
    (hparts : front ++ back = name.toList) (hfront : front ≠ []) (hback : back ≠ [])
    (hpart : part <+: back ++ rest) : weight front = 0 ∧ weight part = 0 := by
  have hcolon : ∀ name ∈ fieldNames, ∀ front ∈ name.toList.inits, front ≠ name.toList →
      ':' ∉ front := by decide
  have hshort {front back : List Char} (hparts : front ++ back = name.toList) (hback : back ≠ []) :
      ':' ∉ front := by
    refine hcolon name hname front ((mem_inits _ _).mpr ⟨back, hparts⟩) fun hsame => ?_
    rw [hsame] at hparts
    exact hback (append_right_eq_self.mp hparts)
  refine ⟨weight_of_notMem (hshort hparts hback), ?_⟩
  obtain ⟨more, hmore⟩ | ⟨more, rfl⟩ :=
    prefix_or_prefix_of_prefix hpart (prefix_append back rest)
  · by_cases hempty : more = []
    · rw [hempty, append_nil] at hmore
      rw [hmore, ← append_nil back]
      exact weight_name_rest hname hparts hfront hback []
    · rw [← hmore, ← append_assoc] at hparts
      exact weight_of_notMem fun hmem => hshort hparts hempty (mem_append_right _ hmem)
  · exact weight_name_rest hname hparts hfront hback more

/-- Where a cut is, in the name or after it. -/
theorem cut_cases {name : String} (h : front ++ back <+: name.toList ++ rest) :
    (∃ more, front = name.toList ++ more ∧ more ++ back <+: rest) ∨
      ∃ more, front ++ more = name.toList ∧ more ≠ [] ∧ back <+: more ++ rest := by
  have hfront : front <+: name.toList ++ rest := (prefix_append _ _).trans h
  obtain ⟨more, hmore⟩ | ⟨more, rfl⟩ :=
    prefix_or_prefix_of_prefix hfront (prefix_append _ _)
  · by_cases hempty : more = []
    · rw [hempty, append_nil] at hmore
      rw [hmore] at h ⊢
      exact .inl ⟨[], (append_nil _).symm, (prefix_append_right_inj _).mp h⟩
    · rw [← hmore, append_assoc] at h
      exact .inr ⟨more, hmore, hempty, (prefix_append_right_inj _).mp h⟩
  · rw [append_assoc] at h
    exact .inl ⟨more, rfl, (prefix_append_right_inj _).mp h⟩

/-- Two parts of a line, or of the beginning of one, give no more than it does. -/
theorem Tight.weight_cut_le (h : Tight line)
    (hline : front ++ back <+: line) : weight front + weight back ≤ weight (front ++ back) := by
  obtain rfl | hfront := eq_or_ne front []
  · rw [weight_nil, nil_append, Nat.zero_add]
  obtain ⟨name, hname, rest, rfl, -⟩ := h
  obtain ⟨more, rfl, -⟩ | ⟨more, hmore, hne, hback⟩ := cut_cases hline
  · have hback := weight_le back
    rw [append_assoc, weight_name hname, weight_name hname, countInk_append]
    omega
  · obtain ⟨hzero, hzero'⟩ := weight_cut_name hname hmore hfront hne hback
    rw [hzero, hzero']
    exact Nat.zero_le _

/-- The two parts of a line give less than it does. -/
theorem Tight.weight_cut_lt (h : Tight (front ++ back)) (hfront : front ≠ []) (hback : back ≠ []) :
    weight front + weight back < weight (front ++ back) := by
  have hpos := h.weight_pos
  obtain ⟨name, hname, rest, hline, -, -, c, hlast, hc⟩ := h
  have hwhole : front ++ back <+: name.toList ++ rest := ⟨[], by rw [append_nil, hline]⟩
  obtain ⟨more, rfl, -⟩ | ⟨more, hmore, hne, hpart⟩ := cut_cases hwhole
  · rw [append_assoc] at hline
    have hrest : more ++ back = rest := append_cancel_left hline
    rw [← hrest, getLast?_append_of_ne_nil _ hback] at hlast
    have hink := countInk_pos (mem_of_getLast? hlast) hc
    have hle := weight_le back
    rw [append_assoc, weight_name hname, weight_name hname, countInk_append]
    omega
  · obtain ⟨hzero, hzero'⟩ := weight_cut_name hname hmore hfront hne hpart
    rwa [hzero, hzero']

/-! ### Scores -/

/-- The score of an event that has `n` characters. Events score less apart than together. -/
def score (n : ℕ) : ℕ := 2 * n - 1

theorem score_add_le (m n : ℕ) : score m + score n ≤ score (m + n) := by
  unfold score
  omega

theorem score_add_lt {m n : ℕ} (hm : 0 < m) (hn : 0 < n) : score m + score n < score (m + n) := by
  unfold score
  omega

/-- The score that lines allow, when those of the current block have given `pending` characters. -/
def linesScore (pending : ℕ) : List (List Char) → ℕ
  | [] => score pending
  | line :: lines =>
    if line = [] then score pending + linesScore 0 lines
    else linesScore (pending + weight line) lines

variable (pending : ℕ)

theorem linesScore_blank (lines : List (List Char)) :
    linesScore pending ([] :: lines) = score pending + linesScore 0 lines := if_pos rfl

theorem linesScore_line (h : line ≠ []) (lines : List (List Char)) :
    linesScore pending (line :: lines) = linesScore (pending + weight line) lines := if_neg h

theorem linesScore_strictMono (lines : List (List Char)) :
    StrictMono fun n => linesScore n lines := by
  intro m n h
  induction lines generalizing m n with
  | nil =>
    simp only [linesScore, score]
    omega
  | cons line lines ih =>
    by_cases hline : line = []
    · simp only [hline, linesScore_blank, score]
      omega
    · simp only [linesScore_line _ hline]
      exact ih (Nat.add_lt_add_right h _)

/-- A block that is parted scores no more. -/
theorem linesScore_apart_le (m n : ℕ) (lines : List (List Char)) :
    score m + linesScore n lines ≤ linesScore (m + n) lines := by
  induction lines generalizing n with
  | nil => exact score_add_le m n
  | cons line lines ih =>
    by_cases hline : line = []
    · have := score_add_le m n
      rw [hline, linesScore_blank, linesScore_blank]
      omega
    · rw [linesScore_line _ hline, linesScore_line _ hline, Nat.add_assoc]
      exact ih _

theorem linesScore_apart_lt {m n : ℕ} (hm : 0 < m) (hn : 0 < n) (lines : List (List Char)) :
    score m + linesScore n lines < linesScore (m + n) lines := by
  induction lines generalizing n with
  | nil => exact score_add_lt hm hn
  | cons line lines ih =>
    by_cases hline : line = []
    · have := score_add_lt hm hn
      rw [hline, linesScore_blank, linesScore_blank]
      omega
    · rw [linesScore_line _ hline, linesScore_line _ hline, Nat.add_assoc]
      exact ih (Nat.lt_of_lt_of_le hn (Nat.le_add_right _ _))

/-- What lines allow, whatever comes after them. -/
theorem exists_linesScore_append (front : List (List Char)) :
    ∃ done n, ∀ back, linesScore pending (front ++ back) = done + linesScore n back := by
  induction front generalizing pending with
  | nil => exact ⟨0, pending, fun back => (Nat.zero_add _).symm⟩
  | cons line front ih =>
    by_cases hline : line = []
    · obtain ⟨done, n, hback⟩ := ih 0
      refine ⟨score pending + done, n, fun back => ?_⟩
      rw [cons_append, hline, linesScore_blank, hback, Nat.add_assoc]
    · obtain ⟨done, n, hback⟩ := ih (pending + weight line)
      refine ⟨done, n, fun back => ?_⟩
      rw [cons_append, linesScore_line _ hline, hback]

/-- The score that a text allows. -/
def textScore (cs : List Char) : ℕ := linesScore 0 (lineChars cs)

theorem ignoresBlanks_textScore : IgnoresBlanks textScore where
  start cs := by
    exact Nat.zero_add _
  stop cs := by
    have hblank pending lines : linesScore pending (lines ++ [[]]) = linesScore pending lines := by
      induction lines generalizing pending with
      | nil => rfl
      | cons line lines ih =>
        rw [cons_append, linesScore, linesScore, ih, ih]
    rw [textScore, lineChars_append, lineChars_of_notMem not_mem_nil, hblank]
    rfl
  double front back := by
    have hblank pending lines rest : linesScore pending (lines ++ [] :: [] :: rest) =
          linesScore pending (lines ++ [] :: rest) := by
      induction lines generalizing pending with
      | nil => simp [linesScore_blank, score]
      | cons line lines ih =>
        rw [cons_append, cons_append, linesScore, linesScore, ih, ih]
    simp only [textScore, lineChars_append, lineChars_newline]
    exact hblank 0 (lineChars front) (lineChars back)

/-! ### A line feed more -/

/-- The lines of a text are those of its parts, with one line of both. -/
theorem exists_lineChars_append (left right : List Char) : ∃ front last first back,
    lineChars left = front ++ [last] ∧ lineChars right = first :: back ∧
      lineChars (left ++ right) = front ++ (last ++ first) :: back := by
  obtain ⟨first, back, hright⟩ := exists_cons_of_ne_nil (lineChars_ne_nil right)
  induction left with
  | nil => exact ⟨[], [], first, back, rfl, hright, hright⟩
  | cons c left ih =>
    obtain ⟨front, last, first', back', hleft, hright', hboth⟩ := ih
    by_cases hc : c = '\n'
    · refine ⟨[] :: front, last, first', back', ?_, hright', ?_⟩
      · rw [hc, lineChars_newline, hleft, cons_append]
      · rw [hc, cons_append, lineChars_newline, hboth, cons_append]
    · have hcons {cs line : List Char} {lines : List (List Char)}
          (h : lineChars cs = line :: lines) :
          lineChars (c :: cs) = (c :: line) :: lines := by
        unfold lineChars at h ⊢
        simp [Str.splitChars, hc, h]
      cases front with
      | nil => exact ⟨[], c :: last, first', back', hcons hleft, hright', hcons hboth⟩
      | cons line front =>
        exact ⟨(c :: line) :: front, last, first', back', hcons hleft, hright', hcons hboth⟩

/-- A text is its lines with line feeds before them, or after them. -/
theorem flatMap_lineChars (cs : List Char) : (lineChars cs).flatMap ('\n' :: ·) = '\n' :: cs ∧
      (lineChars cs).flatMap (· ++ ['\n']) = cs ++ ['\n'] := by
  induction hlength : cs.length using Nat.strong_induction_on generalizing cs with
  | _ n ih =>
  subst hlength
  obtain ⟨line, hline, rfl | ⟨rest, rfl⟩⟩ := exists_first_line cs
  · simp [lineChars_of_notMem hline]
  · obtain ⟨hbefore, hafter⟩ := ih rest.length (by simp; omega) rest rfl
    rw [lineChars_append, lineChars_of_notMem hline]
    simp [hbefore, hafter]

/-- Lines that are blank or give a field. -/
def Lined (cs : List Char) : Prop := ∀ line ∈ lineChars cs, line = [] ∨ Tight line

/-- A line feed more, before text that goes on as a plain body does, raises no score. -/
theorem textScore_break_le {right kept : List Char} (hlined : Lined (left ++ right))
    (hkept : (lineChars kept).headD [] <+: (lineChars right).headD []) :
    textScore (left ++ '\n' :: kept) ≤ textScore (left ++ kept) := by
  obtain ⟨front, last, first, back, hleft, hfirst, hboth⟩ := exists_lineChars_append left kept
  obtain ⟨front', last', first', back', hleft', hfirst', hbody⟩ :=
    exists_lineChars_append left right
  obtain ⟨rfl, hlast⟩ := append_inj' (hleft.symm.trans hleft') rfl
  obtain rfl := singleton_inj.mp hlast
  rw [hfirst, hfirst'] at hkept
  have hcut : weight last + weight first ≤ weight (last ++ first) := by
    have hbegins : last ++ first <+: last ++ first' := (prefix_append_right_inj last).mpr hkept
    obtain hempty | htight := hlined (last ++ first') (by simp [hbody])
    · rw [hempty, prefix_nil, append_eq_nil_iff] at hbegins
      simp [hbegins.1, hbegins.2, weight_nil]
    · exact htight.weight_cut_le hbegins
  obtain ⟨done, n, hfront⟩ := exists_linesScore_append 0 front
  rw [textScore, textScore, lineChars_append, hleft, hfirst, hboth, append_assoc,
    hfront, hfront, singleton_append]
  refine Nat.add_le_add_left ?_ _
  obtain rfl | hlast := eq_or_ne last []
  · obtain rfl | hfirst := eq_or_ne first []
    · simp [linesScore_blank, score]
    · exact linesScore_apart_le _ _ _
  · rw [linesScore_line _ hlast, linesScore_line _ (append_ne_nil_of_left_ne_nil hlast _)]
    obtain rfl | hfirst := eq_or_ne first []
    · rw [append_nil]
      exact linesScore_apart_le _ _ _
    · rw [linesScore_line _ hfirst, Nat.add_assoc]
      exact (linesScore_strictMono back).monotone (Nat.add_le_add_left hcut _)

/-- A blank line between two lines parts their block. -/
theorem linesScore_between_lt {next : List Char} (hline : 0 < weight line)
    (hnext : 0 < weight next) (pending : ℕ) (back : List (List Char)) :
    linesScore pending (line :: [] :: next :: back) <
      linesScore pending (line :: next :: back) := by
  have hne {line : List Char} (h : 0 < weight line) : line ≠ [] := by
    rintro rfl
    rw [weight_nil] at h
    exact Nat.lt_irrefl 0 h
  rw [linesScore_line _ (hne hline), linesScore_line _ (hne hline), linesScore_blank,
    linesScore_line _ (hne hnext), linesScore_line _ (hne hnext), Nat.zero_add]
  exact linesScore_apart_lt (Nat.lt_of_lt_of_le hline (Nat.le_add_left _ _)) hnext back

/-- A line feed more lowers the score, unless it stands beside a blank line. -/
theorem touches_of_textScore {right : List Char} (hlined : Lined (left ++ right))
    (hleft : left ≠ []) (hright : right ≠ [])
    (hscore : textScore (left ++ right) ≤ textScore (left ++ '\n' :: right)) :
    Touches left right := by
  obtain ⟨front, last, first, back, hlast, hfirst, hboth⟩ := exists_lineChars_append left right
  have hbefore := (flatMap_lineChars left).1
  have hafter := (flatMap_lineChars right).2
  rw [textScore, textScore, lineChars_append, hlast, hfirst, hboth, append_assoc,
    singleton_append] at hscore
  rw [Lined, hboth] at hlined
  rw [hlast, flatMap_append] at hbefore
  rw [hfirst] at hafter
  have hnot {front back back' : List (List Char)}
      (h : ∀ n, linesScore n back < linesScore n back') :
      ¬ linesScore 0 (front ++ back') ≤ linesScore 0 (front ++ back) := by
    obtain ⟨done, n, hfront⟩ := exists_linesScore_append 0 front
    rw [hfront, hfront, Nat.not_le]
    exact Nat.add_lt_add_left (h n) done
  obtain rfl | hne := eq_or_ne last []
  · obtain rfl | hne' := eq_or_ne first []
    · exact .inr (.inr ⟨⟨_, hbefore⟩, ⟨_, hafter⟩⟩)
    · -- The cut is at the beginning of a line.
      obtain rfl | ⟨front, line, rfl⟩ := eq_nil_or_concat' front
      · exact absurd (cons.inj hbefore).2.symm hleft
      · have htight := (hlined first (by simp)).resolve_left hne'
        obtain rfl | hline := hlined line (by simp)
        · exact .inl ⟨front.flatMap ('\n' :: ·), by simpa using hbefore⟩
        · rw [append_assoc, append_assoc] at hscore
          exact absurd hscore (hnot fun n =>
            linesScore_between_lt hline.weight_pos htight.weight_pos n back)
  · have htight := (hlined (last ++ first) (by simp)).resolve_left
      (append_ne_nil_of_left_ne_nil hne _)
    obtain rfl | hne' := eq_or_ne first []
    · -- The cut is at the end of a line.
      rw [append_nil] at htight hscore
      cases back with
      | nil => exact absurd (by simpa using hafter) hright
      | cons line back =>
        obtain rfl | hline := hlined line (by simp)
        · exact .inr (.inl ⟨back.flatMap (· ++ ['\n']), by simpa using hafter⟩)
        · exact absurd hscore (hnot fun n =>
            linesScore_between_lt htight.weight_pos hline.weight_pos n back)
    · refine absurd hscore (hnot fun n => ?_)
      rw [linesScore_line _ hne, linesScore_line _ hne',
        linesScore_line _ (append_ne_nil_of_left_ne_nil hne _), Nat.add_assoc]
      exact linesScore_strictMono back (Nat.add_lt_add_left (htight.weight_cut_lt hne hne') n)

/-! ### All chunks -/

theorem normalize_of_notMem (h : '\r' ∉ cs) : normalize cs = cs :=
  Str.replacePair_of_notMem h

theorem firstLine_of_notMem (h : '\r' ∉ cs) : firstLine cs = cs := by
  rw [firstLine, Str.splitPair_of_notMem h]
  rfl

variable {texts : List (List Char)}

theorem notMem_intercalate {c : Char} (hc : c ≠ '\n')
    (h : c ∉ texts.flatten) : c ∉ ['\n'].intercalate texts := by
  induction texts with
  | nil => exact h
  | cons text texts ih =>
    cases texts with
    | nil => simpa using h
    | cons next texts =>
      rw [flatten_cons, mem_append, not_or] at h
      simpa [hc, h.1] using ih h.2

/-- What is kept of some texts begins a line as the texts do. -/
theorem headD_intercalate (text : List Char) (texts : List (List Char)) :
    (lineChars (['\n'].intercalate (text :: texts))).headD [] <+:
      (lineChars (text :: texts).flatten).headD [] := by
  cases texts with
  | nil => simp
  | cons next texts =>
    obtain ⟨front, last, first, back, hlast, hfirst, hboth⟩ :=
      exists_lineChars_append text (next :: texts).flatten
    rw [intercalate_cons_cons, append_assoc, singleton_append, lineChars_append,
      hlast, flatten_cons, hboth]
    cases front with
    | nil => exact prefix_append last first
    | cons line front => exact prefix_rfl

theorem textScore_kept {kept : List Char} (hkept : Broken kept)
    (hne : ∀ text ∈ texts, text ≠ []) (hharmless : Harmless left texts) (hcr : '\r' ∉ kept)
    (hcr' : '\r' ∉ texts.flatten) :
    textScore (kept ++ ['\n'].intercalate texts) = textScore (kept ++ texts.flatten) := by
  have hfirst : texts.map firstLine = texts := by
    have hsame : ∀ text ∈ texts, firstLine text = id text := fun text htext =>
      firstLine_of_notMem fun hmem => hcr' (mem_flatten.mpr ⟨text, htext, hmem⟩)
    rw [map_congr_left hsame, map_id]
  have hread := ignoresBlanks_textScore.kept hkept hne hharmless
  have hlines := notMem_intercalate (by decide) hcr'
  rwa [hfirst, normalize_of_notMem (not_mem_append hcr hlines),
    normalize_of_notMem (not_mem_append hcr hcr')] at hread

/-- Texts between which line feeds do no harm to the score. -/
theorem harmless_of_textScore
    (hne : ∀ text ∈ texts, text ≠ []) (hlined : Lined (left ++ texts.flatten))
    (hcr : '\r' ∉ left ++ texts.flatten) :
    textScore (left ++ ['\n'].intercalate texts) ≤ textScore (left ++ texts.flatten) ∧
      (textScore (left ++ texts.flatten) ≤ textScore (left ++ ['\n'].intercalate texts) →
        Harmless left texts) := by
  induction texts generalizing left with
  | nil => exact ⟨Nat.le_refl _, fun _ => trivial⟩
  | cons text texts ih =>
    rw [forall_mem_cons] at hne
    have htext : '\r' ∉ text := fun hmem => hcr (by simp [hmem])
    have hsplit := Str.splitPair_of_notMem (b := '\n') htext
    cases texts with
    | nil =>
      refine ⟨by simp, fun _ => ⟨.last text 0 hsplit rfl, trivial⟩⟩
    | cons next texts =>
      rw [flatten_cons, ← append_assoc] at hlined hcr ⊢
      obtain ⟨hle, hrest⟩ := ih hne.2 hlined hcr
      have hbreak := textScore_break_le hlined (headD_intercalate next texts)
      have hkept : left ++ ['\n'].intercalate (text :: next :: texts) =
          left ++ text ++ '\n' :: ['\n'].intercalate (next :: texts) := by
        simp
      rw [hkept]
      refine ⟨hbreak.trans hle, fun hscore => ?_⟩
      have hlater := hrest (hscore.trans hbreak)
      generalize htexts : next :: texts = texts' at *
      have hright : texts'.flatten ≠ [] := by
        rw [← htexts]
        exact append_ne_nil_of_left_ne_nil (hne.2 next (by simp [← htexts])) _
      rw [mem_append, not_or] at hcr
      -- The later cuts do no harm either after the line feed of this one.
      have hbroken : Broken (left ++ text ++ ['\n']) := .inr (suffix_append _ _)
      have hmore := textScore_kept hbroken hne.2 hlater
        (not_mem_append hcr.1 (by decide)) hcr.2
      rw [append_assoc _ ['\n'], append_assoc _ ['\n']] at hmore
      have htouches := touches_of_textScore hlined (append_ne_nil_of_right_ne_nil _ hne.1)
        hright (hmore ▸ hscore)
      have hcut : cutLeft (left ++ text) texts'.flatten = left ++ text :=
        if_neg fun hlast => hcr.1 (mem_of_getLast? hlast.1)
      refine ⟨.cut hsplit (fun hlast => absurd (mem_of_getLast? hlast) htext) ?_, hlater⟩
      rwa [hcut, normalize_of_notMem hcr.1, normalize_of_notMem hcr.2]

/-! ### What events score -/

def Fields.weight (fields : Fields) : ℕ :=
  (fields.event.map (countInk ·.toList)).getD 0 + (fields.id.map (countInk ·.toList)).getD 0 +
    (fields.dataLines.map (countInk ·.toList)).sum

/-- How many characters the values of an event have, white space left out. -/
def SSEEvent.weight (event : SSEEvent) : ℕ :=
  (event.event.map (countInk ·.toList)).getD 0 + (event.id.map (countInk ·.toList)).getD 0 +
    (event.data.map (countInk ·.toList)).getD 0

def eventsScore (events : List SSEEvent) : ℕ := (events.map fun event => score event.weight).sum

/-- The field that a line gives is not there yet. -/
def Fields.Free (fields : Fields) : Field → Prop
  | .event _ => fields.event = none
  | .data _ => True
  | .id _ => fields.id = none

theorem Fields.weight_add_le (fields : Fields) (field : Field) :
    (fields.add field).weight ≤ fields.weight + countInk field.value.toList := by
  cases field <;> simp [add, Fields.weight, Field.value] <;> omega

variable {fields : Fields}

theorem Fields.weight_add {field : Field} (h : fields.Free field) :
    (fields.add field).weight = fields.weight + countInk field.value.toList := by
  cases field with
  | event value =>
    have hevent : fields.event = none := h
    simp [add, Fields.weight, Field.value, hevent]
    omega
  | data value =>
    simp [add, Fields.weight, Field.value]
    omega
  | id value =>
    have hid : fields.id = none := h
    simp [add, Fields.weight, Field.value, hid]
    omega

theorem Fields.weight_readLine_le (fields : Fields) (line : List Char) :
    (fields.readLine (String.ofList line)).weight ≤ fields.weight + Sse.weight line := by
  rw [readLine_eq]
  cases hfield : fieldOf (String.ofList line) with
  | none => exact Nat.le_add_right _ _
  | some field =>
    rw [weight_eq hfield]
    exact fields.weight_add_le field

theorem countInk_intercalate (lines : List String) :
    countInk ("\n".intercalate lines).toList = (lines.map (countInk ·.toList)).sum := by
  rw [String.toList_intercalate]
  induction lines with
  | nil => rfl
  | cons line lines ih =>
    cases lines with
    | nil => simp
    | cons next lines =>
      rw [map_cons, map_cons, intercalate_cons_cons, ← map_cons,
        countInk_append, countInk_append, ih]
      rfl

section

variable [External]

theorem weight_toEvent (fields : Fields) : fields.toEvent.weight = fields.weight := by
  unfold toEvent
  split
  · next hempty => simp [SSEEvent.weight, Fields.weight, isEmpty_iff.mp hempty]
  · simp only [SSEEvent.weight, Fields.weight, Option.map_some, Option.getD_some,
      countInk_intercalate]

/-- The events that are read of lines score no more than the lines allow. -/
theorem eventsScore_readStream_le (fields : Fields) (lines : List (List Char)) :
    eventsScore (readStream fields lines) ≤ linesScore fields.weight lines := by
  have hemit (fields : Fields) : eventsScore fields.emit.toList ≤ score fields.weight := by
    unfold emit
    split
    · simp [eventsScore, weight_toEvent]
    · exact Nat.zero_le _
  induction lines generalizing fields with
  | nil => exact hemit fields
  | cons line lines ih =>
    rw [readStream, linesScore]
    split
    · have happend events events' :
          eventsScore (events ++ events') = eventsScore events + eventsScore events' := by
        simp [eventsScore]
      rw [happend]
      exact Nat.add_le_add (hemit fields) (ih {})
    · exact (ih _).trans ((linesScore_strictMono lines).monotone (fields.weight_readLine_le line))

end

/-! ### Plain bodies -/

/-- Two lines do not both name the event, and do not both give the id. -/
def Apart (line line' : String) : Prop :=
  ∀ name ∈ ["event:", "id:"], Str.startsWith (Str.trim line) name →
    ¬ Str.startsWith (Str.trim line') name

/-- A plain body in chunks that end between characters: events in lines of one field each, none of
them given twice, with LF line ends. -/
structure ChunkedBody.Plain (coded : ChunkedBody) : Prop where
  small : ∀ chunk ∈ coded.chunks, chunk.data.length < 2 ^ 32
  characters : coded.chunks.flatMap TransferChunk.chars = coded.body.toList
  lines : ∃ events : List EventText, coded.body = render .lf events ∧
    ∀ event ∈ events, (∀ line ∈ event.lines, Tight line.toList) ∧ event.lines.Pairwise Apart

theorem Fields.Free.readLine {line line' : String} (hapart : Apart line line')
    {field' : Field} (hfield' : fieldOf line' = some field') (h : fields.Free field') :
    (fields.readLine line).Free field' := by
  have hstarts {line : String} {field : Field} (hfield : fieldOf line = some field) :
      Str.startsWith (Str.trim line) field.name := by
    obtain ⟨rest, hrest, -⟩ := exists_rest hfield
    exact Str.startsWith_iff.mpr ⟨rest, hrest.symm⟩
  rw [readLine_eq]
  cases hfield : fieldOf line with
  | none => exact h
  | some field =>
    have hnames hname (hsame : field.name = field'.name) :
        False := hapart field.name hname (hstarts hfield) (hsame ▸ hstarts hfield')
    cases field <;> cases field' <;> first
      | exact h
      | exact absurd rfl (hnames (by simp [Field.name]))

/-- A block in which no field is given twice is read in full. -/
theorem weight_foldl {lines : List String}
    (hfree : ∀ line ∈ lines, ∀ field, fieldOf line = some field → fields.Free field)
    (hapart : lines.Pairwise Apart) :
    (lines.foldl Fields.readLine fields).weight =
      fields.weight + (lines.map fun line => weight line.toList).sum := by
  induction lines generalizing fields with
  | nil => rfl
  | cons line lines ih =>
    rw [forall_mem_cons] at hfree
    obtain ⟨hfirst, hlater⟩ := pairwise_cons.mp hapart
    have hline : (fields.readLine line).weight = fields.weight + weight line.toList := by
      rw [readLine_eq]
      cases hfield : fieldOf line with
      | none => rw [weight_none (by rwa [String.ofList_toList])]; rfl
      | some field =>
        rw [weight_eq (by rwa [String.ofList_toList])]
        exact Fields.weight_add (hfree.1 field hfield)
    rw [foldl_cons, ih (fun line' hline' field' hfield' => (hfree.2 line' hline' field'
      hfield').readLine (hfirst line' hline') hfield') hlater, hline, map_cons, sum_cons,
      Nat.add_assoc]

theorem lineChars_renderLines {lines : List String} (hlines : ∀ line ∈ lines, '\n' ∉ line.toList)
    (rest : List Char) : lineChars (renderLines .lf lines ++ rest) =
      lines.map String.toList ++ lineChars rest := by
  induction lines with
  | nil => rfl
  | cons line lines ih =>
    rw [forall_mem_cons] at hlines
    have hparts : renderLines .lf (line :: lines) ++ rest =
        line.toList ++ '\n' :: (renderLines .lf lines ++ rest) := by
      simp [renderLines, Newline.chars]
    rw [hparts, lineChars_append, lineChars_of_notMem hlines.1, ih hlines.2]
    rfl

theorem lineChars_render (events : List EventText) : lineChars (render .lf events).toList =
      (events.flatMap fun event => event.lines.map String.toList ++ [[]]) ++ [[]] := by
  rw [render, String.toList_ofList]
  induction events with
  | nil => rfl
  | cons event events ih =>
    have hlines := lineChars_renderLines (fun line hline => (event.plain line hline).2.1)
      ('\n' :: (events.flatMap fun event => renderLines .lf event.lines ++ Newline.lf.chars))
    rw [lineChars_newline, ih] at hlines
    simpa [Newline.chars] using hlines

/-- A block scores what its lines give. -/
theorem linesScore_block {lines : List (List Char)} (hlines : ∀ line ∈ lines, line ≠ [])
    (pending : ℕ) (rest : List (List Char)) :
    linesScore pending (lines ++ [] :: rest) =
      score (pending + (lines.map weight).sum) + linesScore 0 rest := by
  induction lines generalizing pending with
  | nil => exact linesScore_blank pending rest
  | cons line lines ih =>
    rw [forall_mem_cons] at hlines
    rw [cons_append, linesScore_line _ hlines.1, ih hlines.2, map_cons, sum_cons,
      Nat.add_assoc]

theorem lined_render {events : List EventText}
    (htight : ∀ event ∈ events, ∀ line ∈ event.lines, Tight line.toList) :
    Lined (render .lf events).toList := by
  intro line hline
  rw [lineChars_render, mem_append, mem_flatMap] at hline
  obtain ⟨event, hevent, hmem⟩ | hlast := hline
  · obtain hmem | hblank := mem_append.mp hmem
    · obtain ⟨line, hline, rfl⟩ := mem_map.mp hmem
      exact .inr (htight event hevent line hline)
    · exact .inl (mem_singleton.mp hblank)
  · exact .inl (mem_singleton.mp hlast)

section

variable [External]

/-- The events of a plain body have the score that its lines allow. -/
theorem eventsScore_render {events : List EventText}
    (hapart : ∀ event ∈ events, event.lines.Pairwise Apart) :
    eventsScore (events.map EventText.parsed) = textScore (render .lf events).toList := by
  rw [textScore, lineChars_render]
  induction events with
  | nil => rfl
  | cons event events ih =>
    rw [forall_mem_cons] at hapart
    have hne : ∀ line ∈ event.lines.map String.toList, line ≠ [] := by
      intro part hpart
      obtain ⟨line, hline, rfl⟩ := mem_map.mp hpart
      exact ne_nil_of_mem (event.plain line hline).2.2
    have hfree : ∀ line ∈ event.lines, ∀ field, fieldOf line = some field →
        ({} : Fields).Free field := fun _ _ field _ => by cases field <;> trivial
    have hweight : event.parsed.weight = ((event.lines.map String.toList).map weight).sum := by
      rw [EventText.parsed, readLines, weight_toEvent, weight_foldl hfree hapart.1, map_map]
      exact Nat.zero_add _
    have hlater := ih hapart.2
    rw [eventsScore] at hlater ⊢
    rw [flatMap_cons, append_assoc, append_assoc, singleton_append,
      linesScore_block hne, ← hlater, map_cons, map_cons, sum_cons, hweight,
      Nat.zero_add]

/-- **Chunks that a plain body can be read from** end where they may. -/
theorem ChunkedBody.Plain.sound {coded : ChunkedBody} (h : coded.Plain)
    (hsame : coded.SameEvents) : coded.Sound := by
  refine ⟨h.small, h.characters, ?_⟩
  obtain ⟨events, hbody, hevents⟩ := h.lines
  have htexts : (coded.chunks.map TransferChunk.chars).flatten = (render .lf events).toList := by
    rw [← hbody, ← h.characters, flatMap_def]
  have hne : ∀ text ∈ coded.chunks.map TransferChunk.chars, text ≠ [] := by
    simp [TransferChunk.chars_ne_nil]
  have hcr : '\r' ∉ (coded.chunks.map TransferChunk.chars).flatten := by
    rw [htexts]
    exact notMem_render_lf events
  have hlined : Lined ([] ++ (coded.chunks.map TransferChunk.chars).flatten) := by
    rw [nil_append, htexts]
    exact lined_render fun event hevent => (hevents event hevent).1
  obtain ⟨-, hharmless⟩ := harmless_of_textScore hne hlined hcr
  have hpiece : ∀ chunk ∈ coded.chunks, Str.splitPair '\r' '\n' chunk.chars =
      chunk.chars :: List.replicate 0 [] := fun chunk hchunk =>
    Str.splitPair_of_notMem fun hmem =>
      hcr (mem_flatten.mpr ⟨chunk.chars, mem_map_of_mem hchunk, hmem⟩)
  have hclean := cleanChunkedContent_text h.small hpiece
  have hkept : (cleanChunkedContent coded.text).toList =
      ['\n'].intercalate (coded.chunks.map TransferChunk.chars) := by
    rw [hclean]
    simp [Function.comp_def]
  cases events with
  | nil =>
    have hempty : coded.chunks.map TransferChunk.chars = [] := by
      by_contra hsome
      obtain ⟨text, texts, hcons⟩ := exists_cons_of_ne_nil hsome
      rw [hcons] at htexts
      exact hne text (by simp [hcons]) (append_eq_nil_iff.mp htexts).1
    rw [hempty]
    trivial
  | cons event events =>
    have hcolon : ':' ∈ (cleanChunkedContent coded.text).toList := by
      obtain ⟨line, hline, -⟩ := event.data
      have hmem : ':' ∈ (render .lf (event :: events)).toList :=
        (line_infix_render mem_cons_self hline).subset (event.plain line hline).2.2
      rw [← htexts] at hmem
      obtain ⟨text, htext, hmem⟩ := mem_flatten.mp hmem
      rw [hkept]
      exact mem_intercalate htext hmem
    have hblank : ¬ (Str.trim (cleanChunkedContent coded.text)).isEmpty = true := by
      intro hempty
      have hmem := Str.mem_trim hcolon (by decide)
      rw [String.isEmpty_iff.mp hempty] at hmem
      exact not_mem_nil hmem
    rw [ChunkedBody.SameEvents, parseSseEvents, if_neg hblank, parse_eq_readStream, hkept,
      normalize_of_notMem (notMem_intercalate (by decide) hcr), hbody,
      parseSseEventsFromChunk_render] at hsame
    refine hharmless ?_
    calc textScore (coded.chunks.map TransferChunk.chars).flatten
      _ = eventsScore ((event :: events).map EventText.parsed) := by
        rw [htexts, eventsScore_render fun event hevent => (hevents event hevent).2]
      _ ≤ textScore (['\n'].intercalate (coded.chunks.map TransferChunk.chars)) := by
        rw [← hsame]
        exact eventsScore_readStream_le {} _

/-- **The events of a chunked body**: they are those of the body when every chunk ends where it may,
and of a plain body in no other case. -/
theorem chunked_sameEvents (coded : ChunkedBody) :
    (coded.Sound → coded.SameEvents) ∧ (coded.Plain → (coded.SameEvents ↔ coded.Sound)) :=
  ⟨ChunkedBody.Sound.sameEvents, fun hplain =>
    ⟨hplain.sound, ChunkedBody.Sound.sameEvents⟩⟩

end

/-! ### Two bodies -/

/-- The values of the bodies below are no JSON. -/
@[reducible] def noJson : External where
  fromStr _ := none
  valueToString _ := ""
  toVec _ := ""
  sha256Hex _ := ""
  parseF64 _ := none

/-- One event, cut inside its value. -/
def cutBody : ChunkedBody where
  body := "data: ab\n\n"
  chunks :=
    [⟨"7", utf8 "data: a".toList, by decide, by decide, by decide⟩,
     ⟨"3", utf8 "b\n\n".toList, by decide, by decide, by decide⟩]
  last := some 0
  whole := by decide

theorem cutBody_differs : ¬ @ChunkedBody.SameEvents noJson cutBody := by
  unfold ChunkedBody.SameEvents
  decide

/-- Two events, each in a chunk of its own. -/
def twoBody : ChunkedBody where
  body := "data: a\n\ndata: b\n\n"
  chunks :=
    [⟨"9", utf8 "data: a\n\n".toList, by decide, by decide, by decide⟩,
     ⟨"9", utf8 "data: b\n\n".toList, by decide, by decide, by decide⟩]
  last := some 0
  whole := by decide

theorem twoBody_sameEvents : @ChunkedBody.SameEvents noJson twoBody := by
  refine (@chunked_sameEvents noJson twoBody).1 ⟨by decide, by decide, ?_⟩
  refine ⟨.cut (by decide) (by decide) (.inl ?_),
    .last "data: b\n\n".toList 0 (by decide) rfl, trivial⟩
  exact ⟨"\ndata: a".toList, by decide⟩

end AgentSight.Sse
