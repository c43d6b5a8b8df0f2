import AgentSight.Lib.MergedRows
import AgentSight.Session.Transcript
import Mathlib.Data.List.Chain

/-!
# The responses that are one

`deduplicate_llm_responses` merges a response into an earlier one of its source, or into the last
one if that was logged within a second. Where each response goes is all there is to know of it: a
response keeps its prompt, its source and its time, and one without a source its hash, so that a
second pass finds nothing more to merge.
-/

namespace AgentSight.Session

open KeyedTable MergedRows List Option

/-- The index of the response that the next one is merged into. -/
def Dedup.duplicateIndex (d : Dedup) (response : LlmResponse) : Option ℕ :=
  ((sourceKey response).bind fun key => (find Prod.fst d.bySourceId key).map Prod.snd).or
    (lastDuplicate d.unique response)

/-- Where the next response goes. -/
def Dedup.place (d : Dedup) (response : LlmResponse) : ℕ :=
  (d.duplicateIndex response).getD d.unique.length

def Dedup.places (d : Dedup) : List LlmResponse → List ℕ
  | [] => []
  | response :: responses => d.place response :: (d.add response).places responses

/-- The responses with the places that `deduplicate_llm_responses` puts them at. -/
def placedResponses (responses : List LlmResponse) : List (ℕ × LlmResponse) :=
  (Dedup.places {} responses).zip responses

/-! ### What a merge keeps -/

/-- What decides that a response is the one before it. -/
def loggedAs (response : LlmResponse) : Option (ℕ × String × Option ℤ) :=
  if response.sourceId = "" then some (response.promptIndex, response.textHash, response.tsMs)
  else none

def sameLog : Option (ℕ × String × Option ℤ) → Option (ℕ × String × Option ℤ) → Bool
  | some (prompt, hash, tsMs), some (prompt', hash', tsMs') =>
    prompt = prompt' && hash = hash' && tsMs.any fun left => tsMs'.any (withinSecond left)
  | _, _ => false

variable {previous response : LlmResponse} {responses : List LlmResponse} {d : Dedup} {i : ℕ}

theorem isDuplicate_eq (previous response : LlmResponse) :
    isDuplicate previous response = sameLog (loggedAs previous) (loggedAs response) := by
  unfold isDuplicate loggedAs
  by_cases hprevious : previous.sourceId = ""
  · by_cases hresponse : response.sourceId = ""
    · simp [hprevious, hresponse, sameLog]
    · simp [hresponse, sameLog]
  · simp [hprevious, sameLog]

theorem sourceKey_merge (previous response : LlmResponse) :
    sourceKey (mergeLlmResponse previous response) = sourceKey previous := rfl

theorem loggedAs_merge_of_source (h : previous.sourceId ≠ "") :
    loggedAs (mergeLlmResponse previous response) = loggedAs previous :=
  (if_neg h).trans (if_neg h).symm

theorem loggedAs_merge_of_duplicate (h : isDuplicate previous response = true) :
    loggedAs (mergeLlmResponse previous response) = loggedAs previous := by
  have hhash : previous.textHash = response.textHash := by
    simp only [isDuplicate, Bool.and_eq_true, decide_eq_true_eq] at h
    exact h.1.2
  unfold loggedAs mergeLlmResponse
  dsimp only
  rw [hhash, ite_self]

theorem map_modify_of_keeps {α β : Type} {l : List α} {f : α → α} {g : α → β}
    (h : ∀ a ∈ l[i]?, g (f a) = g a) : (l.modify i f).map g = l.map g := by
  refine ext_getElem? fun j => ?_
  rw [getElem?_map, getElem?_map, getElem?_modify]
  by_cases hij : i = j
  · subst hij
    cases hget : l[i]? with
    | none => rfl
    | some a =>
      rw [hget] at h
      simpa using h a rfl
  · simp [hij]

/-! ### One turn of the loop -/

/-- The invariant of the loop: the keys are those of the responses that are left, each once, and no
two responses in a row are one. -/
structure Dedup.Settled (d : Dedup) : Prop where
  keys : d.bySourceId =
    (d.unique.map sourceKey).zipIdx.filterMap fun row => row.1.map fun key => (key, row.2)
  nodup : (d.unique.filterMap sourceKey).Nodup
  apart : (d.unique.map loggedAs).IsChain fun a b => sameLog a b = false

theorem Dedup.settled_empty : ({} : Dedup).Settled := ⟨rfl, nodup_nil, isChain_nil⟩

/-- What is found under the key of a source is a response with the key. -/
theorem Dedup.Settled.find_eq_some (h : d.Settled) {key : ℕ × String} {row : (ℕ × String) × ℕ}
    (hfind : find Prod.fst d.bySourceId key = some row) :
    ∃ previous, d.unique[row.2]? = some previous ∧ sourceKey previous = some key := by
  obtain ⟨hmem, rfl⟩ := mem_of_find hfind
  rw [h.keys, mem_filterMap] at hmem
  obtain ⟨⟨found, index⟩, hfound, hrow⟩ := hmem
  obtain ⟨key, rfl, rfl⟩ := map_eq_some_iff.mp hrow
  rw [mem_zipIdx_iff_getElem?, getElem?_map] at hfound
  exact map_eq_some_iff.mp hfound

theorem Dedup.Settled.find_eq_none (h : d.Settled) {key : ℕ × String}
    (hfind : find Prod.fst d.bySourceId key = none) : key ∉ d.unique.filterMap sourceKey := by
  intro hmem
  obtain ⟨previous, hprevious, hkey⟩ := mem_filterMap.mp hmem
  obtain ⟨index, hindex⟩ := getElem?_of_mem hprevious
  have hisSome := (find_isSome Prod.fst d.bySourceId key).mpr ⟨(key, index), ?_, rfl⟩
  · rw [hfind] at hisSome
    cases hisSome
  · rw [h.keys, mem_filterMap]
    refine ⟨(some key, index), ?_, rfl⟩
    rw [mem_zipIdx_iff_getElem?, getElem?_map, hindex, map_some, hkey]

/-- A response is merged into one of its prompt, which keeps its key and how it was logged. -/
theorem Dedup.Settled.duplicateIndex_eq_some (h : d.Settled)
    (hindex : d.duplicateIndex response = some i) :
    ∃ previous, d.unique[i]? = some previous ∧ previous.promptIndex = response.promptIndex ∧
      loggedAs (mergeLlmResponse previous response) = loggedAs previous := by
  rw [duplicateIndex, or_eq_some_iff] at hindex
  rcases hindex with hkey | ⟨-, hlast⟩
  · obtain ⟨key, hresponse, hrow⟩ := bind_eq_some_iff.mp hkey
    obtain ⟨row, hfind, rfl⟩ := map_eq_some_iff.mp hrow
    obtain ⟨previous, hget, hprevious⟩ := h.find_eq_some hfind
    rw [← hresponse] at hprevious
    unfold sourceKey at hprevious hresponse
    split_ifs at hprevious hresponse with hsource hsource'
    have hprompt := congrArg Prod.fst (some_inj.mp hprevious)
    exact ⟨previous, hget, hprompt, loggedAs_merge_of_source hsource⟩
  · unfold lastDuplicate at hlast
    split at hlast
    · next previous hget =>
      split_ifs at hlast with hduplicate
      cases hlast
      rw [getLast?_eq_getElem?] at hget
      refine ⟨previous, hget, ?_, loggedAs_merge_of_duplicate hduplicate⟩
      simp only [isDuplicate, Bool.and_eq_true, decide_eq_true_eq] at hduplicate
      exact hduplicate.1.1.2
    · cases hlast

/-- A response is left as it is if it has a new key and is not the one before it. -/
theorem Dedup.Settled.duplicateIndex_eq_none (h : d.Settled) : d.duplicateIndex response = none ↔
      (∀ key ∈ sourceKey response, key ∉ d.unique.filterMap sourceKey) ∧
        ∀ previous ∈ d.unique.getLast?, isDuplicate previous response = false := by
  rw [duplicateIndex, or_eq_none_iff]
  refine and_congr ⟨fun hkey key hresponse => ?_, fun hkey => ?_⟩ ?_
  · rw [hresponse, bind_some, map_eq_none_iff] at hkey
    exact h.find_eq_none hkey
  · rw [bind_eq_none_iff]
    refine fun key hresponse => map_eq_none_iff.mpr ?_
    cases hfind : find Prod.fst d.bySourceId key with
    | none => rfl
    | some row =>
      obtain ⟨previous, hget, hprevious⟩ := h.find_eq_some hfind
      exact absurd (mem_filterMap.mpr ⟨previous, mem_of_getElem? hget, hprevious⟩)
        (hkey key hresponse)
  · unfold lastDuplicate
    cases d.unique.getLast? with
    | none => simp
    | some previous => simp

theorem Dedup.add_eq (d : Dedup) (response : LlmResponse) : d.add response =
      match d.duplicateIndex response with
      | some index => { d with unique := d.unique.modify index (mergeLlmResponse · response) }
      | none =>
        { unique := d.unique ++ [response]
          bySourceId := d.bySourceId ++ ((sourceKey response).map (·, d.unique.length)).toList } :=
  rfl

theorem Dedup.Settled.add (h : d.Settled) (response : LlmResponse) : (d.add response).Settled := by
  rw [Dedup.add_eq]
  cases hindex : d.duplicateIndex response with
  | some index =>
    obtain ⟨previous, hget, -, hlogged⟩ := h.duplicateIndex_eq_some hindex
    have hkeys : (d.unique.modify index (mergeLlmResponse · response)).map sourceKey =
        d.unique.map sourceKey := map_modify_of_keeps fun a _ => sourceKey_merge a response
    have hmarks : (d.unique.modify index (mergeLlmResponse · response)).map loggedAs =
        d.unique.map loggedAs := map_modify_of_keeps fun a ha => by
      rw [hget] at ha
      obtain rfl := some_inj.mp ha
      exact hlogged
    refine ⟨?_, ?_, ?_⟩
    · rw [hkeys]
      exact h.keys
    · have hsame := congrArg (List.filterMap id) hkeys
      rw [filterMap_map, filterMap_map, Function.id_comp] at hsame
      rw [hsame]
      exact h.nodup
    · rw [hmarks]
      exact h.apart
  | none =>
    obtain ⟨hkey, hlast⟩ := h.duplicateIndex_eq_none.mp hindex
    refine ⟨?_, ?_, ?_⟩
    · rw [map_append, zipIdx_append, filterMap_append, ← h.keys, length_map,
        map_singleton, Nat.zero_add]
      cases sourceKey response <;> rfl
    · rw [filterMap_append]
      refine h.nodup.append ?_ ?_
      · cases hresponse : sourceKey response <;> simp [hresponse]
      · intro key hold hnew
        obtain ⟨new, hmem, hresponse⟩ := mem_filterMap.mp hnew
        rw [mem_singleton.mp hmem] at hresponse
        exact hkey key hresponse hold
    · rw [map_append, isChain_append]
      refine ⟨h.apart, isChain_singleton _, fun a ha b hb => ?_⟩
      rw [getLast?_map] at ha
      obtain ⟨previous, hprevious, rfl⟩ := map_eq_some_iff.mp ha
      obtain rfl := some_inj.mp hb
      rw [← isDuplicate_eq]
      exact hlast previous hprevious

/-- One turn of the loop puts the response at its place. -/
theorem Dedup.Settled.unique_add (h : d.Settled) (response : LlmResponse) :
    (d.add response).unique = put mergeLlmResponse d.unique (d.place response) response := by
  rw [Dedup.add_eq, Dedup.place, put]
  cases hindex : d.duplicateIndex response with
  | some index =>
    obtain ⟨previous, hget, -⟩ := h.duplicateIndex_eq_some hindex
    rw [getD_some, if_pos (List.getElem?_eq_some_iff.mp hget).1]
  | none => rw [getD_none, if_neg (lt_irrefl _)]

/-! ### The whole loop -/

theorem Dedup.Settled.foldl (h : d.Settled) (responses : List LlmResponse) :
    (responses.foldl Dedup.add d).Settled := by
  induction responses generalizing d with
  | nil => exact h
  | cons response responses ih => exact ih (h.add response)

theorem Dedup.length_places (d : Dedup) (responses : List LlmResponse) :
    (d.places responses).length = responses.length := by
  induction responses generalizing d with
  | nil => rfl
  | cons response responses ih => exact congrArg Nat.succ (ih _)

theorem Dedup.places_concat (d : Dedup) (responses : List LlmResponse) (response : LlmResponse) :
    d.places (responses ++ [response]) =
      d.places responses ++ [(responses.foldl Dedup.add d).place response] := by
  induction responses generalizing d with
  | nil => rfl
  | cons first responses ih => exact congrArg (d.place first :: ·) (ih _)

section

variable (responses : List LlmResponse)

theorem map_fst_placedResponses :
    (placedResponses responses).map Prod.fst = Dedup.places {} responses :=
  map_fst_zip (Dedup.length_places {} responses).le

theorem placedResponses_concat (response : LlmResponse) :
    placedResponses (responses ++ [response]) = placedResponses responses ++
      [((responses.foldl Dedup.add {}).place response, response)] := by
  rw [placedResponses, Dedup.places_concat, zip_append (Dedup.length_places {} responses)]
  rfl

/-- The responses that are left are those that were put at their places. -/
theorem deduplicate_eq_putAll :
    deduplicateLlmResponses responses = putAll mergeLlmResponse (placedResponses responses) ∧
      InOrder (Dedup.places {} responses) := by
  induction responses using List.reverseRecOn with
  | nil => exact ⟨rfl, inOrder_nil⟩
  | append_singleton responses response ih =>
    obtain ⟨hleft, hplaces⟩ := ih
    have hsettled := Dedup.settled_empty.foldl responses
    constructor
    · rw [placedResponses_concat, putAll_concat, ← hleft, deduplicateLlmResponses,
        foldl_append]
      exact hsettled.unique_add response
    · rw [Dedup.places_concat, inOrder_concat]
      refine ⟨hplaces, fun j hj => ?_⟩
      rw [← map_fst_placedResponses] at hplaces ⊢
      refine (lt_length_putAll hplaces).mp (lt_of_lt_of_eq (hj.trans_le ?_) (congrArg _ hleft))
      rw [Dedup.place]
      cases hindex : (responses.foldl Dedup.add {}).duplicateIndex response with
      | some index =>
        obtain ⟨previous, hget, -⟩ := hsettled.duplicateIndex_eq_some hindex
        exact (List.getElem?_eq_some_iff.mp hget).1.le
      | none => exact le_rfl

end

/-- Responses that are apart, each with a key of its own, are left as they are. -/
theorem deduplicate_eq_self (hnodup : (responses.filterMap sourceKey).Nodup)
    (hapart : (responses.map loggedAs).IsChain fun a b => sameLog a b = false) :
    deduplicateLlmResponses responses = responses := by
  induction responses using List.reverseRecOn with
  | nil => rfl
  | append_singleton responses response ih =>
    rw [filterMap_append] at hnodup
    rw [map_append, isChain_append] at hapart
    have hleft := ih hnodup.of_append_left hapart.1
    have hsettled := Dedup.settled_empty.foldl responses
    have hunique : (responses.foldl Dedup.add {}).unique = responses := hleft
    have hindex : (responses.foldl Dedup.add {}).duplicateIndex response = none := by
      rw [hsettled.duplicateIndex_eq_none, hunique]
      constructor
      · intro key hresponse hmem
        refine disjoint_of_nodup_append hnodup hmem ?_
        exact mem_filterMap.mpr ⟨response, mem_singleton_self _, hresponse⟩
      · intro previous hprevious
        rw [isDuplicate_eq]
        refine hapart.2.2 _ ?_ _ rfl
        rw [getLast?_map, hprevious]
        rfl
    rw [deduplicateLlmResponses, foldl_append, foldl_cons, foldl_nil, Dedup.add_eq,
      hindex]
    rw [hunique]

/-- A turn changes the prompt of no response that is there, and the response is at its place. -/
theorem Dedup.Settled.promptIndex_add (h : d.Settled) (response : LlmResponse) :
    d.unique.map LlmResponse.promptIndex <+: (d.add response).unique.map LlmResponse.promptIndex ∧
      ((d.add response).unique.map LlmResponse.promptIndex)[d.place response]? =
        some response.promptIndex := by
  rw [Dedup.add_eq, Dedup.place]
  cases hindex : d.duplicateIndex response with
  | some index =>
    obtain ⟨previous, hget, hprompt, -⟩ := h.duplicateIndex_eq_some hindex
    have hkept : (d.unique.modify index (mergeLlmResponse · response)).map LlmResponse.promptIndex =
        d.unique.map LlmResponse.promptIndex := map_modify_of_keeps fun _ _ => rfl
    rw [hkept, getD_some, getElem?_map, hget]
    exact ⟨prefix_rfl, congrArg some hprompt⟩
  | none =>
    rw [map_append, getD_none]
    refine ⟨prefix_append _ _, ?_⟩
    rw [getElem?_append_right (by simp), length_map, Nat.sub_self]
    rfl

theorem promptIndex_placedResponses (responses : List LlmResponse) :
    ∀ item ∈ placedResponses responses,
      ((deduplicateLlmResponses responses).map LlmResponse.promptIndex)[item.1]? =
        some item.2.promptIndex := by
  induction responses using List.reverseRecOn with
  | nil => exact fun _ hitem => absurd hitem not_mem_nil
  | append_singleton responses response ih =>
    obtain ⟨⟨rest, hrest⟩, hput⟩ := (Dedup.settled_empty.foldl responses).promptIndex_add response
    rw [placedResponses_concat, deduplicateLlmResponses, foldl_append]
    intro item hitem
    obtain hitem | hitem := mem_append.mp hitem
    · have hget := ih item hitem
      rw [foldl_cons, foldl_nil, ← hrest]
      exact (List.getElem?_append_left (List.getElem?_eq_some_iff.mp hget).1).trans hget
    · rw [mem_singleton.mp hitem]
      exact hput

/-- **The responses are merged once and for all.** A second pass leaves them as they are, no key is
left twice, the responses are in the order of the first ones that were merged into them, and each
has the prompt of all of these and the largest of their counters. -/
theorem deduplicate_llm_responses (responses : List LlmResponse) :
    deduplicateLlmResponses (deduplicateLlmResponses responses) =
        deduplicateLlmResponses responses ∧
      ((deduplicateLlmResponses responses).filterMap sourceKey).Nodup ∧
      (∀ j < (deduplicateLlmResponses responses).length, ∀ i < j,
        (Dedup.places {} responses).idxOf i < (Dedup.places {} responses).idxOf j) ∧
      (∀ place ∈ Dedup.places {} responses, place < (deduplicateLlmResponses responses).length) ∧
      ∀ i : ℕ, ∀ row ∈ (deduplicateLlmResponses responses)[i]?,
        let merged := members (placedResponses responses) i
        MergedRows.merged mergeLlmResponse merged = some row ∧
          (∀ response ∈ merged, response.promptIndex = row.promptIndex) ∧
          IsGreatest {n | ∃ response ∈ merged, response.inputTokens = n} row.inputTokens ∧
          IsGreatest {n | ∃ response ∈ merged, response.outputTokens = n} row.outputTokens ∧
          IsGreatest {n | ∃ response ∈ merged, response.cacheTokens = n} row.cacheTokens ∧
          IsGreatest {n | ∃ response ∈ merged, response.totalTokens = n} row.totalTokens := by
  have hsettled := Dedup.settled_empty.foldl responses
  obtain ⟨hleft, hplaces⟩ := deduplicate_eq_putAll responses
  have hplaced := hplaces
  rw [← map_fst_placedResponses] at hplaced
  have hlength i : i < (deduplicateLlmResponses responses).length ↔
      i ∈ Dedup.places {} responses := by
    rw [hleft, lt_length_putAll hplaced, map_fst_placedResponses]
  refine ⟨deduplicate_eq_self hsettled.nodup hsettled.apart, hsettled.nodup,
    fun j hj i hij => hplaces.idxOf_lt ((hlength j).mp hj) hij,
    fun place hplace => (hlength place).mpr hplace, fun i row hrow => ?_⟩
  have hmerged := hrow
  rw [hleft, getElem?_putAll hplaced] at hmerged
  have hprompt response (hmember : response ∈ members (placedResponses responses) i) :
      response.promptIndex = row.promptIndex := by
    obtain ⟨item, hitem, rfl⟩ := mem_map.mp hmember
    obtain ⟨hitem, hplace⟩ := mem_filter.mp hitem
    have hget := promptIndex_placedResponses responses item hitem
    rw [of_decide_eq_true hplace, getElem?_map, hrow] at hget
    exact (some_inj.mp hget).symm
  refine ⟨hmerged, hprompt, merged_isGreatest (fun _ _ => rfl) hmerged,
    merged_isGreatest (fun _ _ => rfl) hmerged, merged_isGreatest (fun _ _ => rfl) hmerged,
    merged_isGreatest (fun _ _ => rfl) hmerged⟩

end AgentSight.Session
