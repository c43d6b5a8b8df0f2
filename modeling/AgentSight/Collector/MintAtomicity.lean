import AgentSight.Collector.Capability

/-!
# What a failed mint leaves

`CapabilityStore::mint` puts the grant into memory and then rewrites the file in place. The steps of
`persist` are told apart here, and the file is its bytes: a step may fail, and the process may crash
at it. A mint whose `persist` fails keeps the new grant in memory, and one that stops between the
opening of the file and its last byte leaves a file that no grant is read from.
-/

namespace AgentSight.Collector

open Option

/-- `serde_json` at the type of the file. -/
structure Serde where
  toVec : PersistedCapabilities → List UInt8
  fromSlice : List UInt8 → Option PersistedCapabilities

/-- What is written is read back, and nothing is read from a part of it. -/
structure Serde.Faithful (serde : Serde) (saved : PersistedCapabilities) : Prop where
  whole : serde.fromSlice (serde.toVec saved) = some saved
  cut : ∀ written < (serde.toVec saved).length,
    serde.fromSlice ((serde.toVec saved).take written) = none

/-- The steps of `persist` that can fail. Opening the file empties it if it succeeds. -/
inductive PersistPoint where
  | createDir
  | serialize
  | openFile
  | write (written : ℕ)
  | sync
  | setPermissions
  deriving DecidableEq

/-- What is in the file when `persist` stops at the point. -/
def PersistPoint.leaves (file : Option (List UInt8)) (bytes : List UInt8) :
    PersistPoint → Option (List UInt8)
  | .createDir | .serialize | .openFile => file
  | .write written => some (bytes.take written)
  | .sync | .setPermissions => some bytes

/-- The file is opened and its last byte is not written. -/
def PersistPoint.CutsShort (bytes : List UInt8) : PersistPoint → Prop
  | .write written => written < bytes.length
  | _ => False

/-- How far the write gets, in the terms of `WriteOutcome`. -/
def PersistPoint.outcome (bytes : List UInt8) : PersistPoint → WriteOutcome
  | .createDir | .serialize | .openFile => .notOpened
  | .write written => if written < bytes.length then .cutShort else .unconfirmed
  | .sync | .setPermissions => .unconfirmed

namespace CapabilityStore

variable (serde : Serde) (store : CapabilityStore) (file : Option (List UInt8)) (now : ℕ)
  (token nodeId : String) (request : CapabilityMintRequest)

/-- `persist`, which stops at a point or goes through. -/
def persistTo (stop : Option PersistPoint) : Option (List UInt8) × Except Unit Unit :=
  match store.nodeId, store.persistPath with
  | some nodeId, some _ =>
    let bytes := serde.toVec (store.saved nodeId)
    match stop with
    | none => (some bytes, .ok ())
    | some point => (point.leaves file bytes, .error ())
  | _, _ => (file, .ok ())

def ensured : CapabilityStore × Bool := store.ensureNode (file.bind serde.fromSlice) now nodeId

/-- The store with the new grant. -/
def minted : CapabilityStore :=
  ((store.ensured serde file now nodeId).1.removeExpired now).insert token
    (request.grant nodeId now)

/-- `mint` on the bytes of the file. -/
def mintTo (stop : Option PersistPoint) :
    CapabilityStore × Option (List UInt8) × Except String (String × ℕ) :=
  match request.validate with
  | .error e => (store, file, .error e)
  | .ok () =>
    let (ensured, belongs) := store.ensured serde file now nodeId
    if !belongs then (ensured, file, .error "capability store belongs to another Node")
    else
      let grant := request.grant nodeId now
      let minted := (ensured.removeExpired now).insert token grant
      if grant.persistent then
        let (file, result) := minted.persistTo serde file stop
        (minted, file,
          match result with
          | .error () => .error "could not persist capability"
          | .ok () => .ok (token, grant.expiresAt))
      else (minted, file, .ok (token, grant.expiresAt))

/-- The mint comes to writing the file. -/
def Persists : Prop :=
  request.validate = .ok () ∧ (store.ensured serde file now nodeId).2 = true ∧
    (request.grant nodeId now).persistent = true ∧ store.persistPath.isSome = true

/-- What the mint writes. -/
def newBytes : List UInt8 :=
  serde.toVec ((store.minted serde file now token nodeId request).saved nodeId)

variable {serde store file now token nodeId request}

theorem minted_nodeId (h : (store.ensured serde file now nodeId).2 = true) :
    (store.minted serde file now token nodeId request).nodeId = some nodeId :=
  ensureNode_nodeId h

theorem minted_persistPath :
    (store.minted serde file now token nodeId request).persistPath = store.persistPath := by
  rw [minted, insert_persistPath, removeExpired_persistPath, ensured, ensureNode_persistPath]

/-- A mint that comes to writing the file has the grant in memory, and fails where the write
stops. -/
theorem mintTo_of_persists (h : store.Persists serde file now nodeId request)
    (stop : Option PersistPoint) :
    store.mintTo serde file now token nodeId request stop =
      (store.minted serde file now token nodeId request,
        match stop with
        | none => some (store.newBytes serde file now token nodeId request)
        | some point => point.leaves file (store.newBytes serde file now token nodeId request),
        match stop with
        | none => .ok (token, (request.grant nodeId now).expiresAt)
        | some _ => .error "could not persist capability") := by
  obtain ⟨hvalid, hbelongs, hpersistent, hpath⟩ := h
  obtain ⟨path, hpath⟩ := isSome_iff_exists.mp hpath
  have hnode : (store.minted serde file now token nodeId request).nodeId = some nodeId :=
    minted_nodeId hbelongs
  have hplace : (store.minted serde file now token nodeId request).persistPath = some path :=
    minted_persistPath.trans hpath
  have hwrite : (store.minted serde file now token nodeId request).persistTo serde file stop =
      (match stop with
        | none => some (store.newBytes serde file now token nodeId request)
        | some point => point.leaves file (store.newBytes serde file now token nodeId request),
        match stop with
        | none => .ok ()
        | some _ => .error ()) := by
    simp only [persistTo, hnode, hplace]
    cases stop <;> rfl
  simp only [mintTo, hvalid, hbelongs, hpersistent, Bool.not_true, Bool.false_eq_true, if_false,
    if_true]
  rw [minted] at hwrite
  rw [hwrite]
  cases stop <;> rfl

/-- Another mint leaves the file alone, and the store as well if it fails. -/
theorem mintTo_of_not_persists (h : ¬ store.Persists serde file now nodeId request)
    (stop : Option PersistPoint) :
    (store.mintTo serde file now token nodeId request stop).2.1 = file ∧
      ∀ e, (store.mintTo serde file now token nodeId request stop).2.2 = .error e →
        (store.mintTo serde file now token nodeId request stop).1 = store := by
  simp only [mintTo]
  split
  · exact ⟨rfl, fun _ _ => rfl⟩
  · next hvalid =>
    split
    · next hother => exact ⟨rfl, fun _ _ => ensureNode_eq_false (by simpa [ensured] using hother)⟩
    · next hbelongs =>
      rw [Bool.not_eq_true, Bool.not_eq_false'] at hbelongs
      split
      · next hpersistent =>
        have hpath : store.persistPath = none := by
          by_contra hsome
          exact h ⟨hvalid, hbelongs, hpersistent, isSome_iff_ne_none.mpr hsome⟩
        have hplace : (store.minted serde file now token nodeId request).persistPath = none :=
          minted_persistPath.trans hpath
        have hwrite : (store.minted serde file now token nodeId request).persistTo serde file
            stop = (file, .ok ()) := by
          simp only [persistTo, hplace]
          split
          · next hsome => cases hsome
          · rfl
        rw [minted] at hwrite
        rw [hwrite]
        exact ⟨rfl, fun _ herror => nomatch herror⟩
      · exact ⟨rfl, fun _ herror => nomatch herror⟩

/-! ### The file as its grants -/

/-- How the write goes, in the terms of `WriteOutcome`. -/
def outcomeOf (bytes : List UInt8) : Option PersistPoint → WriteOutcome
  | none => .written
  | some point => point.outcome bytes

theorem fromSlice_leaves {saved : PersistedCapabilities} (h : serde.Faithful saved)
    (point : PersistPoint) :
    (point.leaves file (serde.toVec saved)).bind serde.fromSlice =
      match point.outcome (serde.toVec saved) with
      | .written | .unconfirmed => some saved
      | .notOpened => file.bind serde.fromSlice
      | .cutShort => none := by
  cases point with
  | write written =>
    rw [PersistPoint.leaves, PersistPoint.outcome, bind_some]
    split_ifs with hcut
    · exact h.cut written hcut
    · rw [List.take_of_length_le (by omega), h.whole]
  | sync => exact h.whole
  | setPermissions => exact h.whole
  | createDir => rfl
  | serialize => rfl
  | openFile => rfl

theorem persistTo_refines (h : serde.Faithful (store.saved nodeId))
    (hnode : store.nodeId = some nodeId) (stop : Option PersistPoint) :
    store.persist (file.bind serde.fromSlice) (outcomeOf (serde.toVec (store.saved nodeId)) stop) =
      ((store.persistTo serde file stop).1.bind serde.fromSlice,
        (store.persistTo serde file stop).2) := by
  cases hpath : store.persistPath with
  | none => simp [persist, persistTo, hnode, hpath]
  | some path =>
    cases stop with
    | none => simp [persist, persistTo, hnode, hpath, outcomeOf, bind_some, h.whole]
    | some point =>
      simp only [persist, persistTo, hnode, hpath, outcomeOf, fromSlice_leaves h]
      cases point with
      | write written =>
        rw [PersistPoint.outcome]
        split_ifs <;> rfl
      | _ => rfl

/-- `mint` on the bytes of the file is `mint` on the grants that are read from it. -/
theorem mintTo_refines
    (h : serde.Faithful ((store.minted serde file now token nodeId request).saved nodeId))
    (stop : Option PersistPoint) :
    store.mint (file.bind serde.fromSlice) now token
        (outcomeOf (store.newBytes serde file now token nodeId request) stop) nodeId request =
      ((store.mintTo serde file now token nodeId request stop).1,
        (store.mintTo serde file now token nodeId request stop).2.1.bind serde.fromSlice,
        (store.mintTo serde file now token nodeId request stop).2.2) := by
  cases hvalid : request.validate with
  | error e => simp [mint, mintTo, hvalid]
  | ok _ =>
    cases hbelongs : (store.ensureNode (file.bind serde.fromSlice) now nodeId).2 with
    | false => simp only [mint, mintTo, ensured, hvalid, hbelongs, Bool.not_false, if_true]
    | true =>
      rw [minted, ensured] at h
      simp only [mint, mintTo, ensured, hvalid, hbelongs, Bool.not_true, Bool.false_eq_true,
        if_false]
      split
      · exact congrArg (fun written : Option PersistedCapabilities × Except Unit Unit =>
            (store.minted serde file now token nodeId request, written.1,
              (match written.2 with
                | .error () => .error "could not persist capability"
                | .ok () => .ok (token, (request.grant nodeId now).expiresAt) :
                  Except String (String × ℕ))))
          (persistTo_refines h (ensureNode_nodeId hbelongs) stop)
      · rfl

/-! ### Atomicity -/

variable (serde store file now token nodeId request)

/-- What a restarted process has in memory for the node at the time. -/
def reload (time : ℕ) (file : Option (List UInt8)) : String → Option Grant :=
  ((fresh store.persistPath).ensureNode (file.bind serde.fromSlice) time nodeId).1.grants

/-- How the mint ends. -/
inductive Ending where
  | finished
  | failed (point : PersistPoint)
  | crashed (point : PersistPoint)
  deriving DecidableEq

/-- An error leaves the grants in memory and those a restart reads. -/
def ErrorLeaves (stop : Option PersistPoint) : Prop :=
  ∀ e, (store.mintTo serde file now token nodeId request stop).2.2 = .error e →
    (store.mintTo serde file now token nodeId request stop).1.grants = store.grants ∧
      ∀ time, now ≤ time →
        store.reload serde nodeId time (store.mintTo serde file now token nodeId request stop).2.1 =
          store.reload serde nodeId time file

/-- The mint is atomic in the way it ends: an error changes nothing, and after a crash a restart
reads the grants from before or those that the whole mint files. -/
def Atomic : Ending → Prop
  | .finished => store.ErrorLeaves serde file now token nodeId request none
  | .failed point => store.ErrorLeaves serde file now token nodeId request (some point)
  | .crashed point => ∀ time, now ≤ time → store.reload serde nodeId time
          (store.mintTo serde file now token nodeId request (some point)).2.1 =
        store.reload serde nodeId time file ∨
      store.reload serde nodeId time
          (store.mintTo serde file now token nodeId request (some point)).2.1 =
        store.reload serde nodeId time (store.mintTo serde file now token nodeId request none).2.1

/-- When a mint that comes to writing the file is atomic. -/
def MayEnd : Ending → Prop
  | .finished => True
  | .failed _ => False
  | .crashed point =>
    point.CutsShort (store.newBytes serde file now token nodeId request) →
      store.reload serde nodeId now file = fun _ => none

variable {serde store file now token nodeId request}

theorem reload_eq_some {time : ℕ} {file : Option (List UInt8)} {name : String} {grant : Grant} :
    store.reload serde nodeId time file name = some grant ↔ store.persistPath.isSome = true ∧
      ∃ saved ∈ file.bind serde.fromSlice, saved.nodeId = nodeId ∧
        saved.grants name = some grant ∧ grant.persistent = true ∧ time ≤ grant.expiresAt :=
  ensureNode_grants rfl rfl

theorem reload_of_unread {time : ℕ} {file : Option (List UInt8)}
    (h : file.bind serde.fromSlice = none) :
    store.reload serde nodeId time file = fun _ => none := by
  funext name
  rw [eq_none_iff_forall_ne_some]
  intro grant hgrant
  obtain ⟨-, saved, hsaved, -⟩ := reload_eq_some.mp hgrant
  rw [h] at hsaved
  cases hsaved

/-- What cannot be read now cannot be read later. -/
theorem reload_none_mono {time : ℕ} (htime : now ≤ time)
    (h : store.reload serde nodeId now file = fun _ => none) :
    store.reload serde nodeId time file = fun _ => none := by
  funext name
  rw [eq_none_iff_forall_ne_some]
  intro grant hgrant
  obtain ⟨hpath, saved, hsaved, hnode, hfound, hpersistent, hexpires⟩ := reload_eq_some.mp hgrant
  have hnow := reload_eq_some.mpr
    ⟨hpath, saved, hsaved, hnode, hfound, hpersistent, htime.trans hexpires⟩
  rw [h] at hnow
  cases hnow

theorem minted_grants : (store.minted serde file now token nodeId request).grants token =
    some (request.grant nodeId now) := by
  rw [minted, insert_grants]
  exact .inl ⟨rfl, rfl⟩

/-- A restart reads the new grant once it is filed. -/
theorem reload_newBytes (hnow : now ≤ u64Max)
    (hfaithful : serde.Faithful ((store.minted serde file now token nodeId request).saved nodeId))
    (h : store.Persists serde file now nodeId request) :
    store.reload serde nodeId now (some (store.newBytes serde file now token nodeId request))
      token = some (request.grant nodeId now) := by
  obtain ⟨-, -, hpersistent, hpath⟩ := h
  refine reload_eq_some.mpr ⟨hpath, (store.minted serde file now token nodeId request).saved nodeId,
    ?_, rfl, saved_grants.mpr ⟨minted_grants, hpersistent⟩, hpersistent, ?_⟩
  · rw [newBytes, bind_some, hfaithful.whole]
    rfl
  · simp only [CapabilityMintRequest.grant]
    omega

/-- A failure after the grant is in memory is seen there. -/
theorem not_errorLeaves (hfresh : store.grants token = none)
    (h : store.Persists serde file now nodeId request) (point : PersistPoint) :
    ¬ store.ErrorLeaves serde file now token nodeId request (some point) := by
  intro hleaves
  have hmint : store.mintTo serde file now token nodeId request (some point) = _ :=
    mintTo_of_persists h (some point)
  obtain ⟨hgrants, -⟩ := hleaves "could not persist capability" (by rw [hmint])
  rw [hmint] at hgrants
  have hnew := congrFun hgrants token
  rw [minted_grants, hfresh] at hnew
  cases hnew

/-- A crash before the file is opened leaves the old grants, one after its last byte the new ones,
and one between the two none. -/
theorem crashed_iff (hnow : now ≤ u64Max)
    (hfaithful : serde.Faithful ((store.minted serde file now token nodeId request).saved nodeId))
    (h : store.Persists serde file now nodeId request) (point : PersistPoint) :
    store.Atomic serde file now token nodeId request (.crashed point) ↔
      store.MayEnd serde file now token nodeId request (.crashed point) := by
  simp only [Atomic, MayEnd, mintTo_of_persists h]
  have hcut {written : ℕ} hlt :
      (some ((store.newBytes serde file now token nodeId request).take written)).bind
        serde.fromSlice = none := hfaithful.cut written hlt
  cases point with
  | write written =>
    simp only [PersistPoint.leaves, PersistPoint.CutsShort]
    constructor
    · intro hatomic hlt
      have hread : store.reload serde nodeId now _ = fun _ => none := reload_of_unread (hcut hlt)
      obtain hold | hnew := hatomic now (Nat.le_refl now)
      · rw [← hold, hread]
      · have hgrant := congrFun hnew token
        rw [hread, reload_newBytes hnow hfaithful h] at hgrant
        cases hgrant
    · intro hmay time htime
      by_cases hlt : written < (store.newBytes serde file now token nodeId request).length
      · rw [reload_of_unread (hcut hlt), reload_none_mono htime (hmay hlt)]
        exact .inl rfl
      · rw [List.take_of_length_le (by omega)]
        exact .inr rfl
  | createDir | serialize | openFile => exact ⟨fun _ hcut => hcut.elim, fun _ _ _ => .inl rfl⟩
  | sync | setPermissions => exact ⟨fun _ hcut => hcut.elim, fun _ _ _ => .inr rfl⟩

/-- **When a mint is atomic.** With a new token it is atomic in the way it ends if and only if it
does not come to writing the file, or goes through, or crashes before the file is opened, after its
last byte is written, or when no grant of the node was to be read from it anyway. -/
theorem mint_atomic_iff (serde : Serde) (store : CapabilityStore) (file : Option (List UInt8))
    (now : ℕ) (token nodeId : String) (request : CapabilityMintRequest) (ending : Ending)
    (hnow : now ≤ u64Max) (hfresh : store.grants token = none)
    (hfaithful : serde.Faithful ((store.minted serde file now token nodeId request).saved nodeId)) :
    store.Atomic serde file now token nodeId request ending ↔
      (store.Persists serde file now nodeId request →
        store.MayEnd serde file now token nodeId request ending) := by
  by_cases h : store.Persists serde file now nodeId request
  · rw [forall_prop_of_true h]
    cases ending with
    | finished =>
      refine ⟨fun _ => trivial, fun _ e herror => ?_⟩
      rw [mintTo_of_persists h none] at herror
      cases herror
    | failed point =>
      exact ⟨fun hatomic => not_errorLeaves hfresh h point hatomic, fun hmay => hmay.elim⟩
    | crashed point => exact crashed_iff hnow hfaithful h point
  · refine ⟨fun _ hpersists => absurd hpersists h, fun _ => ?_⟩
    have hleaves stop : store.ErrorLeaves serde file now token nodeId request stop := by
      obtain ⟨hfile, hstore⟩ :
          (store.mintTo serde file now token nodeId request stop).2.1 = file ∧ _ :=
        mintTo_of_not_persists h stop
      intro e herror
      rw [hstore e herror, hfile]
      exact ⟨rfl, fun _ _ => rfl⟩
    cases ending with
    | finished => exact hleaves none
    | failed point => exact hleaves (some point)
    | crashed point =>
      intro time _
      rw [(mintTo_of_not_persists h (some point)).1]
      exact .inl rfl

/-! ### A store with one grant on file -/

/-- A request for an hour. -/
def hourRequest : CapabilityMintRequest := ⟨[nodeInfo], none, 3600⟩

def hourGrant : Grant := hourRequest.grant "node_test" 1000

def asciiBytes (text : String) : List UInt8 := text.toList.map fun c => UInt8.ofNat c.toNat

def grantText : String :=
  "\x7b\"node_id\":\"node_test\",\"actions\":[\"node.info\"],\"session_id\":null," ++
    "\"expires_at\":4600,\"persistent\":true\x7d"

/-- The file of the node with the given members of `grants`. -/
def fileText (members : String) : List UInt8 :=
  asciiBytes ("\x7b\"node_id\":\"node_test\",\"grants\":\x7b" ++ members ++ "\x7d\x7d")

def oneText : List UInt8 := fileText ("\"cap_1\":" ++ grantText)

def twoText : List UInt8 := fileText ("\"cap_1\":" ++ grantText ++ ",\"cap_2\":" ++ grantText)

def oneSaved : PersistedCapabilities :=
  ⟨"node_test", fun token => if token = "cap_1" then some hourGrant else none⟩

def freshStore : CapabilityStore := fresh (some "capabilities.json")

/-- What a process files that has read the one grant and mints a second. -/
def twoSaved : PersistedCapabilities :=
  (((freshStore.ensureNode (some oneSaved) 1000 "node_test").1.removeExpired 1000).insert "cap_2"
    hourGrant).saved "node_test"

/-- `serde_json` on the two files. -/
def hourSerde : Serde where
  toVec saved := if (saved.grants "cap_2").isSome then twoText else oneText
  fromSlice bytes :=
    if bytes = oneText then some oneSaved else if bytes = twoText then some twoSaved else none

theorem oneText_ne_twoText : oneText ≠ twoText := by decide +kernel

theorem hourSerde_one : (some oneText).bind hourSerde.fromSlice = some oneSaved := by
  simp only [hourSerde, bind_some, if_true]

theorem hourSerde_two : hourSerde.toVec twoSaved = twoText := by
  have hsecond : (twoSaved.grants "cap_2").isSome = true := by decide +kernel
  simp only [hourSerde, hsecond, if_true]

theorem hourSerde_faithful : hourSerde.Faithful twoSaved := by
  constructor
  · rw [hourSerde_two]
    simp only [hourSerde, oneText_ne_twoText.symm, if_false, if_true]
  · intro written hlt
    rw [hourSerde_two] at hlt ⊢
    have hlength : (twoText.take written).length = written := by
      rw [List.length_take, Nat.min_eq_left hlt.le]
    have hone : twoText.take written ≠ oneText := by
      intro heq
      have hwritten : written = oneText.length := by rw [← hlength, heq]
      rw [hwritten] at heq
      exact absurd heq (by decide +kernel)
    have htwo : twoText.take written ≠ twoText := by
      intro heq
      rw [heq] at hlength
      omega
    simp only [hourSerde, hone, htwo, if_false]

theorem minted_hour : (freshStore.minted hourSerde (some oneText) 1000 "cap_2" "node_test"
    hourRequest).saved "node_test" = twoSaved := by
  rw [minted, ensured, hourSerde_one]
  rfl

theorem persists_hour :
    freshStore.Persists hourSerde (some oneText) 1000 "node_test" hourRequest := by
  refine ⟨by decide +kernel, ?_, by decide, rfl⟩
  rw [ensured, hourSerde_one]
  decide +kernel

theorem mint_atomic_iff_hour : freshStore.Atomic hourSerde (some oneText) 1000 "cap_2" "node_test"
    hourRequest (.crashed .openFile) :=
  (mint_atomic_iff hourSerde freshStore (some oneText) 1000 "cap_2" "node_test" hourRequest
    (.crashed .openFile) (by decide) rfl (minted_hour ▸ hourSerde_faithful)).mpr
    fun _ hcut => hcut.elim

theorem mintTo_refines_hour :
    freshStore.mint ((some oneText).bind hourSerde.fromSlice) 1000 "cap_2"
        (outcomeOf (freshStore.newBytes hourSerde (some oneText) 1000 "cap_2" "node_test"
          hourRequest) none) "node_test" hourRequest =
      let minted := freshStore.mintTo hourSerde (some oneText) 1000 "cap_2" "node_test" hourRequest
        none
      (minted.1, minted.2.1.bind hourSerde.fromSlice, minted.2.2) :=
  mintTo_refines (minted_hour ▸ hourSerde_faithful) none

/-- The directory cannot be written to, and the new grant stays in memory. The process crashes when
the file is open and the first byte is not written, and the old grant is lost. -/
theorem mint_not_atomic :
    ¬ freshStore.Atomic hourSerde (some oneText) 1000 "cap_2" "node_test" hourRequest
        (.failed .openFile) ∧
      ¬ freshStore.Atomic hourSerde (some oneText) 1000 "cap_2" "node_test" hourRequest
        (.crashed (.write 0)) := by
  refine ⟨not_errorLeaves rfl persists_hour .openFile, ?_⟩
  rw [crashed_iff (by decide) (minted_hour ▸ hourSerde_faithful) persists_hour]
  intro hmay
  have hread : freshStore.reload hourSerde "node_test" 1000 (some oneText) "cap_1" =
      some hourGrant := by
    refine reload_eq_some.mpr ⟨rfl, oneSaved, ?_, rfl, rfl, by decide, by decide⟩
    rw [hourSerde_one]
    rfl
  rw [hmay ?_] at hread
  · cases hread
  · rw [PersistPoint.CutsShort]
    decide +kernel

end CapabilityStore

end AgentSight.Collector
