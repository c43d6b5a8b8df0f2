import AgentSight.Session.ScriptScan

/-!
# Where the scan for fields goes on

`occurrences` reads a script without offsets: from a key to the next, past the string literal that
follows a key. The scan of `extract_js_string_fields` should stop at the same places. It computes
the end of a literal from where its colon is and from the length of the literal, and leaves out the
whitespace between the two. So it goes on before the end of the literal by the length of that gap,
inside the literal or even inside a character, and the scan is right exactly if no literal has a
gap (`scan_exact_iff`).
-/

namespace AgentSight.Session

open ByteOffsets Str List Option

/-! ### Literals without offsets -/

/-- The decoded string, the text of the literal and what follows its closing quote. -/
def literal (quote : Char) (escaped : Bool) : List Char → Option (List Char × List Char × List Char)
  | [] => none
  | ch :: rest =>
    if escaped then
      (literal quote false rest).map fun (decoded, text, rest) =>
        (unescape ch :: decoded, ch :: text, rest)
    else if ch = '\\' then
      (literal quote true rest).map fun (decoded, text, rest) => (decoded, ch :: text, rest)
    else if ch = quote then some ([], [], rest)
    else
      (literal quote false rest).map fun (decoded, text, rest) => (ch :: decoded, ch :: text, rest)

theorem literal_eq_some {quote : Char} {escaped : Bool} {body decoded text rest : List Char}
    (h : literal quote escaped body = some (decoded, text, rest)) :
    body = text ++ quote :: rest := by
  induction body generalizing escaped decoded text with
  | nil => cases h
  | cons ch body ih =>
    simp only [literal] at h
    split at h
    · obtain ⟨⟨decoded', text', rest'⟩, hbody, heq⟩ := map_eq_some_iff.mp h
      cases heq
      rw [ih hbody, cons_append]
    · split at h
      · obtain ⟨⟨decoded', text', rest'⟩, hbody, heq⟩ := map_eq_some_iff.mp h
        cases heq
        rw [ih hbody, cons_append]
      · split at h
        · next hquote =>
          cases h
          rw [hquote, nil_append]
        · obtain ⟨⟨decoded', text', rest'⟩, hbody, heq⟩ := map_eq_some_iff.mp h
          cases heq
          rw [ih hbody, cons_append]

/-- The bytes of a literal are its two quotes and its text. -/
theorem parseJsStringFrom_eq (quote : Char) (index : ℕ) (escaped : Bool) (front body : List Char) :
    parseJsStringFrom quote index escaped front body =
      (literal quote escaped body).map fun (decoded, text, _) =>
        (front ++ decoded, index + byteLength text + quote.utf8Size + quote.utf8Size) := by
  induction body generalizing index escaped front with
  | nil => rfl
  | cons ch body ih =>
    simp only [parseJsStringFrom, literal]
    split
    · rw [ih, Option.map_map]
      refine congrArg (Option.map · _) (funext fun _ => ?_)
      simp [Nat.add_assoc]
    · split
      · rw [ih, Option.map_map]
        refine congrArg (Option.map · _) (funext fun _ => ?_)
        simp [Nat.add_assoc]
      · split
        · next hquote => simp [hquote]
        · rw [ih, Option.map_map]
          refine congrArg (Option.map · _) (funext fun _ => ?_)
          simp [Nat.add_assoc]

/-! ### Keys without offsets -/

/-- A string literal that follows a key, with the whitespace between its colon and its quote. -/
structure FieldLiteral where
  gap : List Char
  decoded : List Char
  deriving DecidableEq

/-- An occurrence of a key: the text up to where the scan goes on, and the text from there. -/
structure Occurrence where
  through : List Char
  rest : List Char
  literal : Option FieldLiteral
  deriving DecidableEq

/-- The next occurrence of the key in a text that comes after the character `prev`. -/
def nextOccurrence (key : List Char) (prev : Option Char) (text : List Char) : Option Occurrence :=
  match splitOnceChars key text with
  | none => none
  | some (before, tail) =>
    let bare : Occurrence := ⟨before ++ key, tail, none⟩
    if (before.getLast?.or prev).any isWordChar || tail.head?.any isWordChar then some bare
    else
      match splitOnceChars [':'] tail with
      | none => some bare
      | some (sep, value) =>
        if 4 < byteLength sep then some bare
        else
          match value.dropWhile isWhitespace with
          | [] => some bare
          | quote :: body =>
            if isQuote quote then
              match literal quote false body with
              | none => some bare
              | some (decoded, text, rest) =>
                let gap := value.takeWhile isWhitespace
                some
                  { through := before ++ key ++ sep ++ ':' :: gap ++ quote :: text ++ [quote]
                    rest
                    literal := some ⟨gap, decoded⟩ }
            else some bare

/-- The occurrence is found in the text. -/
theorem nextOccurrence_split {key text : List Char} {prev : Option Char} {o : Occurrence}
    (h : nextOccurrence key prev text = some o) :
    text = o.through ++ o.rest ∧ byteLength key ≤ byteLength o.through := by
  unfold nextOccurrence at h
  split at h
  · cases h
  · next before tail hkey =>
    have htext := splitOnceChars_eq_some hkey
    have hbare : text = (before ++ key) ++ tail ∧ byteLength key ≤ byteLength (before ++ key) :=
      ⟨htext, by simp⟩
    split at h
    · cases h
      exact hbare
    · split at h
      · cases h
        exact hbare
      · next sep value hcolon =>
        have htail := splitOnceChars_eq_some hcolon
        split at h
        · cases h
          exact hbare
        · split at h
          · cases h
            exact hbare
          · next quote body hvalue =>
            split at h
            · split at h
              · cases h
                exact hbare
              · next decoded text' rest hliteral =>
                cases h
                have hbody := literal_eq_some hliteral
                have hsplit : value =
                    value.takeWhile isWhitespace ++ quote :: (text' ++ quote :: rest) := by
                  rw [← hbody, ← hvalue, takeWhile_append_dropWhile]
                refine ⟨?_, by simp; omega⟩
                calc text = before ++ key ++ (sep ++ [':'] ++ value) := by rw [htext, htail]
                  _ = _ := by
                    rw [congrArg (fun value => before ++ key ++ (sep ++ [':'] ++ value)) hsplit]
                    simp
            · cases h
              exact hbare

/-- The values after an occurrence. -/
def Occurrence.keep (values : List (List Char)) (o : Occurrence) : List (List Char) :=
  match o.literal with
  | some l =>
    if l.decoded ≠ [] && !values.contains l.decoded then values ++ [l.decoded] else values
  | none => values

/-- The bytes by which the scan goes on too early. -/
def Occurrence.lag (o : Occurrence) : ℕ := byteLength ((o.literal.map FieldLiteral.gap).getD [])

/-- The round of the scan that starts between two characters. -/
theorem scanField_append {key done text : List Char} {scan : FieldScan}
    (hoffset : scan.offset = byteLength done) :
    scanField (done ++ text) key scan = .returned
      ((nextOccurrence key done.getLast? text).map fun o =>
        let offset := byteLength (done ++ o.through) - o.lag
        ⟨offset, o.keep scan.values, scan.visited ++ [offset]⟩) := by
  unfold scanField nextOccurrence
  rw [hoffset, sliceFrom_append]
  simp only [Outcome.ofSlice, Outcome.bind, strFind]
  cases hkey : splitOnceChars key text with
  | none => rfl
  | some found =>
    obtain ⟨before, tail⟩ := found
    have htext := splitOnceChars_eq_some hkey
    have hfront : sliceTo (done ++ text) (byteLength done + byteLength before) =
        some (done ++ before) := by
      rw [htext, ← byteLength_append, append_assoc, ← append_assoc done, sliceTo_append]
    have hback : sliceFrom (done ++ text) (byteLength done + byteLength before + byteLength key) =
        some tail := by
      rw [htext, ← byteLength_append, ← byteLength_append, ← append_assoc,
        ← append_assoc, sliceFrom_append]
    simp only [map_some, hfront, hback, getLast?_append]
    have hbare : byteLength done + byteLength before + byteLength key =
        byteLength (done ++ (before ++ key)) := by
      simp [Nat.add_assoc]
    split
    · simp [hbare, Occurrence.lag, Occurrence.keep]
    · cases hcolon : splitOnceChars [':'] tail with
      | none => simp [hbare, Occurrence.lag, Occurrence.keep]
      | some found =>
        obtain ⟨sep, value⟩ := found
        have htail := splitOnceChars_eq_some hcolon
        by_cases hfar : 4 < byteLength sep
        · have hnear : ¬ byteLength sep ≤ 4 := by omega
          simp [hbare, hfar, hnear, filter_some, Occurrence.lag, Occurrence.keep]
        · have hnear : byteLength sep ≤ 4 := by omega
          have hrest : sliceFrom tail (byteLength sep + 1) = some value := by
            rw [htail, show byteLength sep + 1 = byteLength (sep ++ [':']) by simp; rfl,
              sliceFrom_append]
          simp only [map_some, filter_some, hnear, decide_true, if_true, hrest,
            if_neg hfar, trimStart]
          cases hvalue : value.dropWhile isWhitespace with
          | nil => simp [hbare, Occurrence.lag, Occurrence.keep]
          | cons quote body =>
            by_cases hquote : isQuote quote = true
            · have hbody : sliceFrom (quote :: body) quote.utf8Size = some body := by
                have hcons := sliceFrom_cons_add quote body 0
                rwa [sliceFrom_zero] at hcons
              simp only [head?_cons, filter_some, hquote, if_true, hbody,
                parseJsString, parseJsStringFrom_eq]
              cases hliteral : literal quote false body with
              | none => simp [hbare, Occurrence.lag, Occurrence.keep]
              | some read =>
                obtain ⟨decoded, text', rest⟩ := read
                have hcolon : ':'.utf8Size = 1 := rfl
                have hend : byteLength done + byteLength before + byteLength key + byteLength sep +
                    1 + (0 + byteLength text' + quote.utf8Size + quote.utf8Size) =
                    byteLength (done ++ (before ++ key ++ sep ++ ':' ::
                      value.takeWhile isWhitespace ++ quote :: text' ++ [quote])) -
                    byteLength (value.takeWhile isWhitespace) := by
                  simp only [byteLength_append, byteLength_cons, byteLength_nil, hcolon]
                  omega
                simp only [map_some, nil_append, hend, getD_some, Occurrence.lag, Occurrence.keep,
                  Bool.and_eq_true, decide_eq_true_eq, Bool.not_eq_true', contains_eq_mem,
                  decide_eq_false_iff_not]
            · simp [hbare, hquote, filter_some, Occurrence.lag, Occurrence.keep]

/-- The occurrences in a text, for a number of rounds. -/
def occurrencesFrom (key : List Char) : ℕ → Option Char → List Char → List Occurrence
  | 0, _, _ => []
  | rounds + 1, prev, text =>
    match nextOccurrence key prev text with
    | none => []
    | some o => o :: occurrencesFrom key rounds (o.through.getLast?.or prev) o.rest

def occurrences (raw key : List Char) : List Occurrence :=
  occurrencesFrom key (byteLength raw + 2) none raw

/-- Where the occurrences end. -/
def stops : ℕ → List Occurrence → List ℕ
  | _, [] => []
  | start, o :: os =>
    (start + byteLength o.through) :: stops (start + byteLength o.through) os

/-- The values of the fields, each once. -/
def fieldsOf (raw : List Char) (keys : List (List Char)) : List (List Char) :=
  keys.foldl (fun values key => (occurrences raw key).foldl Occurrence.keep values) []

/-- No literal has whitespace between its colon and its quote. -/
def Gapless (raw : List Char) (keys : List (List Char)) : Prop :=
  ∀ key ∈ keys, ∀ o ∈ occurrences raw key, ∀ l ∈ o.literal, l.gap = []

/-- The scan ends without a panic, goes on after each occurrence where it ends, and returns what
stands in the literals. -/
def ScansExactly (raw : List Char) (keys : List (List Char)) : Prop :=
  extractJsStringFields raw keys = .returned (fieldsOf raw keys) ∧
    ∀ key ∈ keys, ∀ values, ∃ scan, scanKey raw key values = .returned scan ∧
      scan.visited = stops 0 (occurrences raw key)

/-! ### The loop -/

theorem Occurrence.lag_eq_zero {o : Occurrence} : o.lag = 0 ↔ ∀ l ∈ o.literal, l.gap = [] := by
  unfold Occurrence.lag
  cases o.literal with
  | none => simp
  | some l => simp [byteLength_eq_zero]

section Loop

variable {raw key done text : List Char} {scan final : FieldScan} {rounds : ℕ}

section

variable (hkey : key ≠ [])
include hkey

/-- Without gaps the scan stops where the occurrences end. -/
theorem scanFields_of_gapless (hraw : raw = done ++ text)
    (hoffset : scan.offset = byteLength done) (hrounds : byteLength text < rounds)
    (hgaps : ∀ o ∈ occurrencesFrom key rounds done.getLast? text, o.lag = 0) :
    ∃ final, scanFields raw key rounds scan = .returned final ∧
      final.values = (occurrencesFrom key rounds done.getLast? text).foldl Occurrence.keep
        scan.values ∧
      final.visited = scan.visited ++
        stops (byteLength done) (occurrencesFrom key rounds done.getLast? text) := by
  induction rounds generalizing done text scan with
  | zero => exact absurd hrounds (Nat.not_lt_zero _)
  | succ rounds ih =>
    have hround := @scanField_append key done text scan hoffset
    rw [← hraw] at hround
    rw [occurrencesFrom] at hgaps ⊢
    rw [scanFields, hround]
    cases hnext : nextOccurrence key done.getLast? text with
    | none => exact ⟨scan, rfl, rfl, (append_nil _).symm⟩
    | some o =>
      rw [hnext] at hgaps
      obtain ⟨hlag, hrest⟩ := forall_mem_cons.mp hgaps
      obtain ⟨htext, hlength⟩ := nextOccurrence_split hnext
      have hpos := byteLength_pos hkey
      have hlast : (done ++ o.through).getLast? = o.through.getLast?.or done.getLast? :=
        getLast?_append
      have hshorter : byteLength o.rest < rounds := by
        rw [htext, byteLength_append] at hrounds
        omega
      rw [← hlast] at hrest
      obtain ⟨final, hfinal, hvalues, hvisited⟩ := @ih (done ++ o.through) o.rest
        ⟨byteLength (done ++ o.through), o.keep scan.values,
          scan.visited ++ [byteLength (done ++ o.through)]⟩
        (by rw [hraw, htext, append_assoc]) rfl hshorter hrest
      refine ⟨final, ?_, ?_, ?_⟩
      · simpa [Outcome.bind, hlag] using hfinal
      · rw [hvalues, hlast]
        rfl
      · rw [hvisited, hlast, byteLength_append, append_assoc]
        rfl

/-- What a round can do: it panics, it ends the loop, or it notes from where it goes on, further on
in the text. -/
theorem scanField_cases :
    scanField raw key scan = .panicked ∨ scanField raw key scan = .returned none ∨
      ∃ next, scanField raw key scan = .returned (some next) ∧
        next.visited = scan.visited ++ [next.offset] ∧ scan.offset < next.offset ∧
        scan.offset ≤ byteLength raw := by
  have hpos := byteLength_pos hkey
  unfold scanField
  cases hhere : sliceFrom raw scan.offset with
  | none => exact .inl rfl
  | some here =>
    have hle := le_of_sliceFrom hhere
    simp only [Outcome.ofSlice, Outcome.bind]
    cases strFind key here with
    | none => exact .inr (.inl rfl)
    | some relative =>
      dsimp only
      have hbare : scan.offset < scan.offset + relative + byteLength key := by omega
      cases sliceTo raw (scan.offset + relative) with
      | none => exact .inl rfl
      | some front =>
        cases sliceFrom raw (scan.offset + relative + byteLength key) with
        | none => exact .inl rfl
        | some tail =>
          dsimp only
          split
          · exact .inr (.inr ⟨_, rfl, rfl, hbare, hle⟩)
          · cases (strFind [':'] tail).filter (· ≤ 4) with
            | none => exact .inr (.inr ⟨_, rfl, rfl, hbare, hle⟩)
            | some colon =>
              dsimp only
              cases sliceFrom tail (colon + 1) with
              | none => exact .inl rfl
              | some rest =>
                dsimp only
                cases (trimStart rest).head?.filter isQuote with
                | none => exact .inr (.inr ⟨_, rfl, rfl, hbare, hle⟩)
                | some quote =>
                  dsimp only
                  cases sliceFrom (trimStart rest) quote.utf8Size with
                  | none => exact .inl rfl
                  | some body =>
                    dsimp only
                    cases parseJsString body quote with
                    | none => exact .inr (.inr ⟨_, rfl, rfl, hbare, hle⟩)
                    | some read => exact .inr (.inr ⟨_, rfl, rfl, by dsimp only; omega, hle⟩)

theorem scanField_advances (h : scanField raw key scan = .returned (some final)) :
    final.visited = scan.visited ++ [final.offset] ∧ scan.offset < final.offset ∧
      scan.offset ≤ byteLength raw := by
  obtain hpanic | hend | ⟨next, hnext, hspec⟩ := @scanField_cases raw key scan hkey
  · rw [hpanic] at h
    cases h
  · rw [hend] at h
    cases h
  · rw [hnext] at h
    cases h
    exact hspec

theorem visited_of_scanFields
    (h : scanFields raw key rounds scan = .returned final) :
    ∃ more, final.visited = scan.visited ++ more := by
  induction rounds generalizing scan with
  | zero => cases h
  | succ rounds ih =>
    rw [scanFields] at h
    cases hround : scanField raw key scan with
    | panicked => rw [hround] at h; cases h
    | unfinished => rw [hround] at h; cases h
    | returned next =>
      rw [hround] at h
      cases next with
      | none =>
        cases h
        exact ⟨[], (append_nil _).symm⟩
      | some next =>
        obtain ⟨more, hmore⟩ := ih h
        rw [(scanField_advances hkey hround).1, append_assoc] at hmore
        exact ⟨_, hmore⟩

/-- A scan that stops where the occurrences end has met no gap. -/
theorem gapless_of_scanFields (hraw : raw = done ++ text)
    (hoffset : scan.offset = byteLength done)
    (h : scanFields raw key rounds scan = .returned final)
    (hvisited : final.visited = scan.visited ++
      stops (byteLength done) (occurrencesFrom key rounds done.getLast? text)) :
    ∀ o ∈ occurrencesFrom key rounds done.getLast? text, o.lag = 0 := by
  induction rounds generalizing done text scan with
  | zero => exact fun _ ho => nomatch ho
  | succ rounds ih =>
    have hround := @scanField_append key done text scan hoffset
    rw [← hraw] at hround
    rw [occurrencesFrom] at hvisited ⊢
    rw [scanFields, hround] at h
    cases hnext : nextOccurrence key done.getLast? text with
    | none => exact fun _ ho => nomatch ho
    | some o =>
      rw [hnext] at hvisited h
      simp only [map_some, Outcome.bind] at h
      obtain ⟨htext, hlength⟩ := nextOccurrence_split hnext
      obtain ⟨more, hmore⟩ := visited_of_scanFields hkey h
      have hlist := hmore.symm.trans hvisited
      rw [append_assoc, append_cancel_left_eq, stops, singleton_append,
        cons.injEq] at hlist
      have hlag : o.lag = 0 := by
        have hpos := byteLength_pos hkey
        have hstop := hlist.1
        rw [byteLength_append] at hstop
        omega
      have hlast : (done ++ o.through).getLast? = o.through.getLast?.or done.getLast? :=
        getLast?_append
      refine forall_mem_cons.mpr ⟨hlag, ?_⟩
      rw [← hlast]
      refine ih (by rw [hraw, htext, append_assoc]) ?_ h ?_
      · rw [hlag, Nat.sub_zero]
      · rw [hlag, hvisited, hlast, byteLength_append, append_assoc]
        rfl

/-- The rounds are enough for every text. -/
theorem scanFields_ends (hpos : 0 < rounds)
    (hrounds : byteLength raw + 2 ≤ rounds + scan.offset) :
    scanFields raw key rounds scan ≠ .unfinished := by
  induction rounds generalizing scan with
  | zero => exact absurd hpos (Nat.lt_irrefl _)
  | succ rounds ih =>
    rw [scanFields]
    obtain hpanic | hend | ⟨next, hnext, -, hlt, hle⟩ :=
      @scanField_cases raw key scan hkey
    · rw [hpanic]
      exact nofun
    · rw [hend]
      exact nofun
    · rw [hnext]
      exact ih (by omega) (by omega)

end

end Loop

/-! ### The scan -/

section Scan

variable {raw key : List Char} {keys : List (List Char)}

theorem scanKey_ends (hkey : key ≠ []) (values : List (List Char)) :
    scanKey raw key values ≠ .unfinished :=
  scanFields_ends hkey (Nat.succ_pos _) (by simp)

theorem scanKey_of_gapless (hkey : key ≠ []) (hgaps : ∀ o ∈ occurrences raw key, o.lag = 0)
    (values : List (List Char)) :
    ∃ scan, scanKey raw key values = .returned scan ∧
      scan.values = (occurrences raw key).foldl Occurrence.keep values ∧
      scan.visited = stops 0 (occurrences raw key) := by
  have hrounds : byteLength raw < byteLength raw + 2 := by omega
  have h := @scanFields_of_gapless raw key [] raw ⟨0, values, []⟩ _ hkey rfl rfl hrounds hgaps
  rwa [nil_append] at h

theorem gapless_of_scanKey {values : List (List Char)} {scan : FieldScan} (hkey : key ≠ [])
    (h : scanKey raw key values = .returned scan)
    (hvisited : scan.visited = stops 0 (occurrences raw key)) :
    ∀ o ∈ occurrences raw key, o.lag = 0 :=
  @gapless_of_scanFields raw key [] raw ⟨0, values, []⟩ scan _ hkey rfl rfl h hvisited

theorem extractJsStringFields_eq
    (h : ∀ key ∈ keys, ∀ values, ∃ scan, scanKey raw key values = .returned scan ∧
      scan.values = (occurrences raw key).foldl Occurrence.keep values) :
    extractJsStringFields raw keys = .returned (fieldsOf raw keys) := by
  unfold extractJsStringFields fieldsOf
  generalize [] = values
  induction keys generalizing values with
  | nil => rfl
  | cons key keys ih =>
    obtain ⟨hkey, hkeys⟩ := forall_mem_cons.mp h
    obtain ⟨scan, hscan, hvalues⟩ := hkey values
    rw [foldl_cons, foldl_cons, ← hvalues, ← ih hkeys scan.values]
    simp [Outcome.bind, hscan]

theorem extractJsStringFields_ends (hkeys : ∀ key ∈ keys, key ≠ []) :
    extractJsStringFields raw keys ≠ .unfinished := by
  unfold extractJsStringFields
  have hstart : (Outcome.returned [] : Outcome (List (List Char))) ≠ .unfinished := by simp
  generalize (Outcome.returned [] : Outcome (List (List Char))) = values at hstart ⊢
  induction keys generalizing values with
  | nil => exact hstart
  | cons key keys ih =>
    obtain ⟨hkey, hrest⟩ := forall_mem_cons.mp hkeys
    refine ih hrest _ ?_
    cases values with
    | unfinished => exact absurd rfl hstart
    | panicked => rintro ⟨⟩
    | returned values =>
      have hends := @scanKey_ends raw key hkey values
      simp only [Outcome.bind]
      cases hscan : scanKey raw key values with
      | unfinished => exact absurd hscan hends
      | panicked => rintro ⟨⟩
      | returned scan => rintro ⟨⟩

/-- The scan is exact where no literal has a gap, and nowhere else. -/
theorem scansExactly_iff (hkeys : ∀ key ∈ keys, key ≠ []) :
    ScansExactly raw keys ↔ Gapless raw keys := by
  constructor
  · rintro ⟨-, hscan⟩ key hkey o ho
    obtain ⟨scan, hreturned, hvisited⟩ := hscan key hkey []
    exact Occurrence.lag_eq_zero.mp (gapless_of_scanKey (hkeys key hkey) hreturned hvisited o ho)
  · intro hgaps
    have hscan := fun key hkey => scanKey_of_gapless (hkeys key hkey)
      fun o ho => Occurrence.lag_eq_zero.mpr (hgaps key hkey o ho)
    refine ⟨extractJsStringFields_eq fun key hkey values => ?_, fun key hkey values => ?_⟩
    · obtain ⟨scan, hreturned, hvalues, -⟩ := hscan key hkey values
      exact ⟨scan, hreturned, hvalues⟩
    · obtain ⟨scan, hreturned, -, hvisited⟩ := hscan key hkey values
      exact ⟨scan, hreturned, hvisited⟩

end Scan

/-! ### The scan for calls -/

/-- A round that starts between two characters goes on from between two characters, and past a
byte. -/
theorem scanCall_append (done text : List Char) (calls : List (List Char)) :
    scanCall (done ++ text) (byteLength done) calls = .returned none ∨
      ∃ done' text' calls', done ++ text = done' ++ text' ∧
        byteLength text' < byteLength text ∧
        scanCall (done ++ text) (byteLength done) calls =
          .returned (some (byteLength done', calls')) := by
  unfold scanCall
  rw [sliceFrom_append]
  simp only [Outcome.ofSlice, Outcome.bind, strFind]
  cases hfound : splitOnceChars "tools.".toList text with
  | none => exact .inl rfl
  | some found =>
    right
    obtain ⟨before, tail⟩ := found
    have htext := splitOnceChars_eq_some hfound
    -- The text up to the name, and the rest from there.
    have hraw : done ++ text = (done ++ before ++ "tools.".toList) ++ tail := by
      rw [htext, append_assoc, append_assoc, append_assoc]
    have hstart : byteLength done + byteLength before + byteLength "tools.".toList =
        byteLength (done ++ before ++ "tools.".toList) := by
      simp only [byteLength_append]
    have hshort : byteLength tail < byteLength text := by
      have htools : 0 < byteLength "tools.".toList := byteLength_pos (by decide)
      rw [htext]
      simp only [byteLength_append]
      omega
    have hname : sliceFrom tail (byteLength (tail.takeWhile isWordChar)) =
        some (tail.dropWhile isWordChar) := by
      have hsplit := sliceFrom_append (tail.takeWhile isWordChar) (tail.dropWhile isWordChar)
      rwa [takeWhile_append_dropWhile] at hsplit
    simp only [map_some, hstart]
    rw [hraw, sliceFrom_append]
    simp only [hname, ← byteLength_append]
    by_cases hnil : tail.takeWhile isWordChar = []
    · cases tail with
      | nil =>
        -- Nothing follows, and the loop goes to the end.
        refine ⟨done ++ before ++ "tools.".toList, [], calls, rfl, hshort, ?_⟩
        simp
      | cons ch tail =>
        refine ⟨done ++ before ++ "tools.".toList ++ [ch], tail, calls, by simp, ?_, ?_⟩
        · rw [byteLength_cons] at hshort
          omega
        · simp [hnil, Nat.add_assoc]
    · refine ⟨done ++ before ++ "tools.".toList ++ tail.takeWhile isWordChar,
        tail.dropWhile isWordChar, _, ?_, ?_,
        congrArg (fun offset => Outcome.returned (some (offset, _))) (if_pos hnil)⟩
      · rw [append_assoc _ (tail.takeWhile isWordChar), takeWhile_append_dropWhile]
      · have hlength := congrArg byteLength
          (takeWhile_append_dropWhile (p := isWordChar) (l := tail)).symm
        rw [byteLength_append] at hlength
        omega

theorem scanCalls_returns {rounds : ℕ} {raw done text : List Char} {calls : List (List Char)}
    (hraw : raw = done ++ text) (hrounds : byteLength text < rounds) :
    ∃ calls', scanCalls raw rounds (byteLength done, calls) = .returned calls' := by
  induction rounds generalizing done text calls with
  | zero => exact absurd hrounds (Nat.not_lt_zero _)
  | succ rounds ih =>
    rw [scanCalls, hraw]
    obtain hend | ⟨done', text', calls', hraw', hshort, hnext⟩ := scanCall_append done text calls
    · rw [hend]
      exact ⟨calls, rfl⟩
    · rw [hnext, ← hraw]
      exact ih (hraw.trans hraw') (by omega)

theorem codexCustomToolCalls_returns (raw : List Char) :
    ∃ calls, codexCustomToolCalls raw = .returned calls :=
  @scanCalls_returns _ raw [] raw [] rfl (by omega)

/-! ### The input of a call -/

theorem customToolKeys_nonempty : ∀ keys ∈ customToolKeys, ∀ key ∈ keys, key ≠ [] := by
  decide

theorem codexCustomToolInput_returns {raw : List Char}
    (hgaps : ∀ keys ∈ customToolKeys, Gapless raw keys) (outerName : List Char) :
    ∃ input, codexCustomToolInput outerName raw = .returned input := by
  have hfields : ∀ keys ∈ customToolKeys,
      extractJsStringFields raw keys = .returned (fieldsOf raw keys) := by
    intro keys hkeys
    exact ((scansExactly_iff (customToolKeys_nonempty keys hkeys)).mpr (hgaps keys hkeys)).1
  obtain ⟨calls, hcalls⟩ := codexCustomToolCalls_returns raw
  have hscan := fun keys hmem => hfields keys hmem
  simp only [customToolKeys, forall_mem_cons] at hscan
  obtain ⟨hcommand, hpath, hworkdir, htask, htarget, hmessage, hstep, hstatus, -⟩ := hscan
  unfold codexCustomToolInput
  simp only [hcalls, hcommand, hpath, hworkdir, htask, htarget, hmessage, hstep, hstatus,
    Outcome.bind]
  exact ⟨_, (apply_ite Outcome.returned _ _ _).symm⟩

/-- For every script, the scan for calls returns and each scan for fields ends; it is exact for a
list of keys if and only if no literal that follows one of them has whitespace before its quote.
Without such gaps the input of the call is computed without a panic. -/
theorem customTool_scans (raw : List Char) : (∃ calls, codexCustomToolCalls raw = .returned calls) ∧
      (∀ keys ∈ customToolKeys, extractJsStringFields raw keys ≠ .unfinished ∧
        (ScansExactly raw keys ↔ Gapless raw keys)) ∧
      ((∀ keys ∈ customToolKeys, Gapless raw keys) →
        ∀ outerName, ∃ input, codexCustomToolInput outerName raw = .returned input) := by
  refine ⟨codexCustomToolCalls_returns raw, fun keys hkeys => ?_, codexCustomToolInput_returns⟩
  have hne := customToolKeys_nonempty keys hkeys
  exact ⟨extractJsStringFields_ends hne, scansExactly_iff hne⟩

/-- Two spaces before the quote, and a literal that begins with a character of two bytes. -/
def spacedScript : List Char := "cmd:  \"é\"".toList

/-- The scan goes on inside the character. -/
theorem spacedScript_panics : codexCustomToolInput "exec".toList spacedScript = .panicked ∧
      ¬ ∀ keys ∈ customToolKeys, ScansExactly spacedScript keys := by
  refine ⟨by decide, fun h => ?_⟩
  have hexact := (h _ (mem_cons_self ..)).1
  cases hexact

end AgentSight.Session
