import AgentSight.Bpf.Lines

/-!
# Calls and events of the TLS probes

An entry probe leaves the arguments of a call in maps keyed by thread, an exit probe takes them
up and submits the event. Calls nest, and the maps have one entry for a thread. A handshake shares
`start_ns` with the read or write that it runs inside, so the outer call loses its entry time or
its event; the exit of a handshake hands its pid to the filter in place of the uid; and a length
of `SSL_read_ex` or `SSL_write_ex` is cut to an `int`. Where none of this matters, the events are
those of the calls.
-/

namespace AgentSight.Bpf.Sslsniff

open Transition List Function

/-! ### The probes -/

/-- The constants `targ_pid` and `targ_uid`, where 0 and -1 let every task pass. -/
structure TlsFilter where
  targPid : Int32
  targUid : UInt32

def traceAllowed (f : TlsFilter) (uid pid : UInt32) : Bool :=
  if f.targPid ≠ 0 ∧ f.targPid.toUInt32 ≠ pid then false
  else if f.targUid ≠ 0xffffffff then
    if f.targUid ≠ uid then false else true
  else true

/-- What the helpers tell a probe of the task that it runs in. -/
structure ProbeCtx where
  pid : UInt32
  tid : UInt32
  uid : UInt32
  ts : UInt64
  comm : CString taskCommLen

/-- The memory of the task: the `size_t` at a pointer, and whether a buffer can be read. -/
structure UserMemory where
  word : UInt64 → UInt64
  readable : UInt64 → Bool

structure TlsMaps where
  bufs : UInt32 → Option UInt64
  startNs : UInt32 → Option UInt64
  readbytesPtrs : UInt32 → Option UInt64

/-- A submitted `struct probe_SSL_data_t`, with the pointer that its bytes are read from. -/
structure SubmittedEvent where
  timestampNs : UInt64
  deltaNs : UInt64
  pid : UInt32
  tid : UInt32
  uid : UInt32
  len : UInt32
  bufSize : UInt32
  bufFilled : Bool
  rw : Rw
  comm : CString taskCommLen
  buf : Option UInt64
  isHandshake : Bool

def probeSslRwEnter (f : TlsFilter) (maps : TlsMaps) (ctx : ProbeCtx) (buf : UInt64) : TlsMaps :=
  if !traceAllowed f ctx.uid ctx.pid then maps
  else { maps with
    bufs := Function.update maps.bufs ctx.tid (some buf)
    startNs := Function.update maps.startNs ctx.tid (some ctx.ts) }

/-- The entry of `SSL_write_ex` and of `SSL_read_ex`. -/
def probeSslExEnter (f : TlsFilter) (maps : TlsMaps) (ctx : ProbeCtx) (buf readbytes : UInt64) :
    TlsMaps :=
  if !traceAllowed f ctx.uid ctx.pid then maps
  else {
    bufs := Function.update maps.bufs ctx.tid (some buf)
    startNs := Function.update maps.startNs ctx.tid (some ctx.ts)
    readbytesPtrs := Function.update maps.readbytesPtrs ctx.tid (some readbytes) }

/-- What `SSL_exit` and `ex_SSL_exit` do, which bound the copied size each in its way. -/
def submitExit (bufCopySize : Int32 → UInt32) (f : TlsFilter) (maps : TlsMaps) (ctx : ProbeCtx)
    (mem : UserMemory) (rw : Rw) (len : Int32) : TlsMaps × List SubmittedEvent :=
  if !traceAllowed f ctx.uid ctx.pid then (maps, [])
  else
    match maps.bufs ctx.tid, maps.startNs ctx.tid with
    | some buf, some start =>
      if len ≤ 0 then (maps, [])
      else
        ({ maps with
            bufs := Function.update maps.bufs ctx.tid none
            startNs := Function.update maps.startNs ctx.tid none },
          [{  timestampNs := ctx.ts
              deltaNs := ctx.ts - start
              pid := ctx.pid
              tid := ctx.tid
              uid := ctx.uid
              len := len.toUInt32
              bufSize := if mem.readable buf then bufCopySize len else 0
              bufFilled := mem.readable buf
              rw
              comm := ctx.comm
              buf := some buf
              isHandshake := false }])
    | _, _ => (maps, [])

def sslExit : TlsFilter → TlsMaps → ProbeCtx → UserMemory → Rw → Int32 →
    TlsMaps × List SubmittedEvent :=
  submitExit fun len => min (UInt32.ofNat maxBufSize) len.toUInt32

def exSslExit : TlsFilter → TlsMaps → ProbeCtx → UserMemory → Rw → Int32 →
    TlsMaps × List SubmittedEvent :=
  submitExit fun len =>
    let bufCopySize := len.toUInt32 &&& 0xfffff
    if bufCopySize > UInt32.ofNat maxBufSize then UInt32.ofNat maxBufSize else bufCopySize

/-- `int len = (ret == 1) ? written : 0`, where `written` is a `size_t`. -/
def exLen (ret : Int32) (written : UInt64) : Int32 :=
  if ret = 1 then written.toUInt32.toInt32 else 0

/-- The exit of `SSL_write_ex` and of `SSL_read_ex`. -/
def probeSslExExit (f : TlsFilter) (maps : TlsMaps) (ctx : ProbeCtx) (mem : UserMemory) (rw : Rw)
    (ret : Int32) : TlsMaps × List SubmittedEvent :=
  match maps.readbytesPtrs ctx.tid with
  | none => (maps, [])
  | some readbytesPtr =>
    let maps := { maps with
      readbytesPtrs := Function.update maps.readbytesPtrs ctx.tid none }
    exSslExit f maps ctx mem rw (exLen ret (mem.word readbytesPtr))

def probeSslDoHandshakeEnter (f : TlsFilter) (maps : TlsMaps) (ctx : ProbeCtx) : TlsMaps :=
  if !traceAllowed f ctx.uid ctx.pid then maps
  else { maps with startNs := Function.update maps.startNs ctx.tid (some ctx.ts) }

def probeSslDoHandshakeExit (f : TlsFilter) (maps : TlsMaps) (ctx : ProbeCtx) (ret : Int32) :
    TlsMaps × List SubmittedEvent :=
  let tgid := ctx.pid
  if !traceAllowed f tgid ctx.pid then (maps, [])
  else
    match maps.startNs ctx.tid with
    | none => (maps, [])
    | some start =>
      if ret ≤ 0 then (maps, [])
      else
        ({ maps with startNs := Function.update maps.startNs ctx.tid none },
          [{  timestampNs := ctx.ts
              deltaNs := ctx.ts - start
              pid := ctx.pid
              tid := ctx.tid
              uid := ctx.uid
              len := ret.toUInt32
              bufSize := 0
              bufFilled := false
              rw := .handshake
              comm := ctx.comm
              buf := none
              isHandshake := true }])

/-! ### Calls -/

/-- The functions that the probes are attached to. -/
inductive TlsFunction where
  | read
  | write
  | readEx
  | writeEx
  | handshake
  deriving DecidableEq

def TlsFunction.isEx : TlsFunction → Bool
  | readEx | writeEx => true
  | _ => false

/-- A call with its arguments, and the task and the time it was made in. -/
structure TlsCall where
  fn : TlsFunction
  pid : UInt32
  tid : UInt32
  uid : UInt32
  entryNs : UInt64
  comm : CString taskCommLen
  buf : UInt64
  readbytes : UInt64

/-- How and when a call returns. -/
structure TlsReturn where
  ts : UInt64
  ret : Int32
  mem : UserMemory

namespace TlsCall

def ctx (call : TlsCall) (ts : UInt64) : ProbeCtx := ⟨call.pid, call.tid, call.uid, ts, call.comm⟩

def passes (f : TlsFilter) (call : TlsCall) : Bool := traceAllowed f call.uid call.pid

/-- A read or write returned more than no bytes, a handshake was successful. -/
def succeeded (call : TlsCall) (r : TlsReturn) : Bool :=
  match call.fn with
  | .read | .write | .handshake => 0 < r.ret
  | .readEx | .writeEx => r.ret = 1 && 0 < r.mem.word call.readbytes

def enterProbe (f : TlsFilter) (maps : TlsMaps) (call : TlsCall) : TlsMaps :=
  match call.fn with
  | .read | .write => probeSslRwEnter f maps (call.ctx call.entryNs) call.buf
  | .readEx | .writeEx => probeSslExEnter f maps (call.ctx call.entryNs) call.buf call.readbytes
  | .handshake => probeSslDoHandshakeEnter f maps (call.ctx call.entryNs)

def exitProbe (f : TlsFilter) (maps : TlsMaps) (call : TlsCall) (r : TlsReturn) :
    TlsMaps × List SubmittedEvent :=
  match call.fn with
  | .read => sslExit f maps (call.ctx r.ts) r.mem .read r.ret
  | .write => sslExit f maps (call.ctx r.ts) r.mem .write r.ret
  | .readEx => probeSslExExit f maps (call.ctx r.ts) r.mem .read r.ret
  | .writeEx => probeSslExExit f maps (call.ctx r.ts) r.mem .write r.ret
  | .handshake => probeSslDoHandshakeExit f maps (call.ctx r.ts) r.ret

end TlsCall

/-- What an event says of the call it is of. -/
structure CallId where
  tid : UInt32
  buf : Option UInt64
  entryNs : UInt64
  isHandshake : Bool
  deriving DecidableEq

def SubmittedEvent.callId (event : SubmittedEvent) : CallId :=
  ⟨event.tid, event.buf, event.timestampNs - event.deltaNs, event.isHandshake⟩

def TlsCall.callId (call : TlsCall) : CallId :=
  if call.fn = .handshake then ⟨call.tid, none, call.entryNs, true⟩
  else ⟨call.tid, some call.buf, call.entryNs, false⟩

/-! ### What the probes do -/

/-- The entries of a thread are the same. -/
structure TlsMaps.AgreesAt (maps maps' : TlsMaps) (tid : UInt32) : Prop where
  bufs : maps'.bufs tid = maps.bufs tid
  startNs : maps'.startNs tid = maps.startNs tid
  readbytesPtrs : maps'.readbytesPtrs tid = maps.readbytesPtrs tid

/-- The maps hold what the entry of the call left. -/
structure Recorded (maps : TlsMaps) (call : TlsCall) : Prop where
  startNs : maps.startNs call.tid = some call.entryNs
  bufs : call.fn ≠ .handshake → maps.bufs call.tid = some call.buf
  readbytesPtrs : call.fn.isEx = true → maps.readbytesPtrs call.tid = some call.readbytes

section Probes

variable {f : TlsFilter} {maps maps' : TlsMaps} {ctx : ProbeCtx} {mem : UserMemory} {rw : Rw}
  {len : Int32} {call : TlsCall} {r : TlsReturn} {tid : UInt32} {size : Int32 → UInt32}

theorem Recorded.congr (h : Recorded maps call) (hagrees : maps.AgreesAt maps' call.tid) :
    Recorded maps' call where
  startNs := hagrees.startNs.trans h.startNs
  bufs hfn := hagrees.bufs.trans (h.bufs hfn)
  readbytesPtrs hfn := hagrees.readbytesPtrs.trans (h.readbytesPtrs hfn)

theorem submitExit_of_not_allowed (h : traceAllowed f ctx.uid ctx.pid = false) :
    submitExit size f maps ctx mem rw len = (maps, []) := by
  rw [submitExit, h]
  rfl

theorem submitExit_of_le (h : len ≤ 0) : submitExit size f maps ctx mem rw len = (maps, []) := by
  unfold submitExit
  repeat' split
  all_goals rfl

theorem submitExit_events (hallowed : traceAllowed f ctx.uid ctx.pid = true) (hlen : 0 < len)
    {buf start : UInt64} (hbuf : maps.bufs ctx.tid = some buf)
    (hstart : maps.startNs ctx.tid = some start) :
    (submitExit size f maps ctx mem rw len).2.map SubmittedEvent.callId =
      [⟨ctx.tid, some buf, start, false⟩] := by
  simp only [submitExit, hallowed, hbuf, hstart, Bool.not_true, Bool.false_eq_true, if_false,
    if_neg (Int32.not_le.mpr hlen), map_cons, map_nil, SubmittedEvent.callId,
    sub_sub_cancel]

theorem probeSslExExit_events {ret : Int32} {ptr : UInt64}
    (hallowed : traceAllowed f ctx.uid ctx.pid = true) (hret : ret = 1)
    (hptr : maps.readbytesPtrs ctx.tid = some ptr)
    (hlen : 0 < (mem.word ptr).toUInt32.toInt32) {buf start : UInt64}
    (hbuf : maps.bufs ctx.tid = some buf) (hstart : maps.startNs ctx.tid = some start) :
    (probeSslExExit f maps ctx mem rw ret).2.map SubmittedEvent.callId =
      [⟨ctx.tid, some buf, start, false⟩] := by
  simp only [probeSslExExit, hptr, exSslExit, exLen, if_pos hret]
  exact submitExit_events hallowed hlen hbuf hstart

theorem submitExit_readbytesPtrs :
    (submitExit size f maps ctx mem rw len).1.readbytesPtrs = maps.readbytesPtrs := by
  unfold submitExit
  repeat' split
  all_goals rfl

theorem submitExit_agreesAt (htid : tid ≠ ctx.tid) :
    maps.AgreesAt (submitExit size f maps ctx mem rw len).1 tid := by
  unfold submitExit
  split
  · exact ⟨rfl, rfl, rfl⟩
  · split
    · split
      · exact ⟨rfl, rfl, rfl⟩
      · exact ⟨update_of_ne htid .., update_of_ne htid .., rfl⟩
    · exact ⟨rfl, rfl, rfl⟩

/-! #### Entries -/

theorem enterProbe_of_not_passes (h : call.passes f = false) : call.enterProbe f maps = maps := by
  have hallowed : traceAllowed f call.uid call.pid = false := h
  cases hfn : call.fn <;>
    simp [TlsCall.enterProbe, hfn, probeSslRwEnter, probeSslExEnter, probeSslDoHandshakeEnter,
      TlsCall.ctx, hallowed]

theorem recorded_enterProbe (h : call.passes f = true) :
    Recorded (call.enterProbe f maps) call := by
  have hallowed : traceAllowed f call.uid call.pid = true := h
  cases hfn : call.fn <;> constructor <;>
    simp [TlsCall.enterProbe, hfn, probeSslRwEnter, probeSslExEnter, probeSslDoHandshakeEnter,
      TlsCall.ctx, hallowed, TlsFunction.isEx]

theorem enterProbe_agreesAt (htid : tid ≠ call.tid) :
    maps.AgreesAt (call.enterProbe f maps) tid := by
  by_cases h : call.passes f = true
  · have hallowed : traceAllowed f call.uid call.pid = true := h
    cases hfn : call.fn <;> constructor <;>
      simp [TlsCall.enterProbe, hfn, probeSslRwEnter, probeSslExEnter, probeSslDoHandshakeEnter,
        TlsCall.ctx, hallowed, update_of_ne htid]
  · rw [enterProbe_of_not_passes (Bool.eq_false_of_not_eq_true h)]
    exact ⟨rfl, rfl, rfl⟩

theorem enterProbe_readbytesPtrs (h : call.fn.isEx = false) :
    (call.enterProbe f maps).readbytesPtrs = maps.readbytesPtrs := by
  cases hfn : call.fn with
  | readEx => rw [hfn] at h; cases h
  | writeEx => rw [hfn] at h; cases h
  | read | write =>
    simp only [TlsCall.enterProbe, hfn, probeSslRwEnter]
    split <;> rfl
  | handshake =>
    simp only [TlsCall.enterProbe, hfn, probeSslDoHandshakeEnter]
    split <;> rfl

/-! #### Returns -/

/-- The return of a call leaves the entries of the other threads. -/
theorem exitProbe_agreesAt (htid : tid ≠ call.tid) :
    maps.AgreesAt (call.exitProbe f maps r).1 tid := by
  have hex rw : maps.AgreesAt (probeSslExExit f maps (call.ctx r.ts) r.mem rw r.ret).1 tid := by
    unfold probeSslExExit
    split
    · exact ⟨rfl, rfl, rfl⟩
    · have hctx : tid ≠ (call.ctx r.ts).tid := htid
      obtain ⟨hbufs, hstart, hptr⟩ := submitExit_agreesAt hctx
      exact ⟨hbufs, hstart, hptr.trans (update_of_ne htid ..)⟩
  cases hfn : call.fn with
  | read | write =>
    simp only [TlsCall.exitProbe, hfn]
    exact submitExit_agreesAt htid
  | readEx | writeEx =>
    simp only [TlsCall.exitProbe, hfn]
    exact hex _
  | handshake =>
    simp only [TlsCall.exitProbe, hfn, probeSslDoHandshakeExit]
    repeat' split
    all_goals try exact ⟨rfl, rfl, rfl⟩
    exact ⟨rfl, update_of_ne htid .., rfl⟩

theorem exSslExit_readbytesPtrs (hptr : maps.readbytesPtrs call.tid = none) :
    (exSslExit f maps (call.ctx r.ts) mem rw len).1.readbytesPtrs call.tid = none := by
  rw [exSslExit, submitExit_readbytesPtrs, hptr]

/-- The return of an `_ex` call removes the pointer of its thread. -/
theorem exitProbe_readbytesPtrs_of_isEx (hex : call.fn.isEx = true) :
    (call.exitProbe f maps r).1.readbytesPtrs call.tid = none := by
  have hnone rw :
      (probeSslExExit f maps (call.ctx r.ts) r.mem rw r.ret).1.readbytesPtrs call.tid = none := by
    unfold probeSslExExit
    split
    · assumption
    · exact exSslExit_readbytesPtrs (update_self ..)
  cases hfn : call.fn with
  | readEx | writeEx =>
    simp only [TlsCall.exitProbe, hfn]
    exact hnone _
  | read | write | handshake =>
    rw [hfn] at hex
    cases hex

theorem exitProbe_readbytesPtrs (hex : call.fn.isEx = false) :
    (call.exitProbe f maps r).1.readbytesPtrs = maps.readbytesPtrs := by
  cases hfn : call.fn with
  | read | write =>
    simp only [TlsCall.exitProbe, hfn]
    exact submitExit_readbytesPtrs
  | readEx | writeEx =>
    rw [hfn] at hex
    cases hex
  | handshake =>
    simp only [TlsCall.exitProbe, hfn, probeSslDoHandshakeExit]
    repeat' split
    all_goals rfl

/-- A call that passes the filter and whose entries are there yields its event if it succeeded. -/
theorem exitProbe_of_recorded (hpasses : call.passes f = true) (h : Recorded maps call)
    (hsucceeded : call.succeeded r = true)
    (hlen : call.fn.isEx = true → 0 < (r.mem.word call.readbytes).toUInt32.toInt32)
    (hhandshake : call.fn = .handshake → traceAllowed f call.pid call.pid = true) :
    (call.exitProbe f maps r).2.map SubmittedEvent.callId = [call.callId] := by
  have hallowed : traceAllowed f (call.ctx r.ts).uid (call.ctx r.ts).pid = true := hpasses
  have hstart : maps.startNs (call.ctx r.ts).tid = some call.entryNs := h.startNs
  cases hfn : call.fn with
  | read | write =>
    have hret : 0 < r.ret := by simpa [TlsCall.succeeded, hfn] using hsucceeded
    simp only [TlsCall.exitProbe, hfn, sslExit]
    rw [submitExit_events hallowed hret (h.bufs (by simp [hfn])) hstart]
    simp [TlsCall.callId, hfn, TlsCall.ctx]
  | readEx | writeEx =>
    have hret : r.ret = 1 := by
      simp only [TlsCall.succeeded, hfn, Bool.and_eq_true, decide_eq_true_eq] at hsucceeded
      exact hsucceeded.1
    have hptr : maps.readbytesPtrs (call.ctx r.ts).tid = some call.readbytes :=
      h.readbytesPtrs (by simp [hfn, TlsFunction.isEx])
    simp only [TlsCall.exitProbe, hfn]
    rw [probeSslExExit_events hallowed hret hptr (hlen (by simp [hfn, TlsFunction.isEx]))
      (h.bufs (by simp [hfn])) hstart]
    simp [TlsCall.callId, hfn, TlsCall.ctx]
  | handshake =>
    have hret : 0 < r.ret := by simpa [TlsCall.succeeded, hfn] using hsucceeded
    have hpid : traceAllowed f (call.ctx r.ts).pid (call.ctx r.ts).pid = true := hhandshake hfn
    simp only [TlsCall.exitProbe, hfn, probeSslDoHandshakeExit, hpid, hstart, Bool.not_true,
      Bool.false_eq_true, if_false, if_neg (Int32.not_le.mpr hret), map_cons, map_nil,
      SubmittedEvent.callId, TlsCall.callId, if_true, sub_sub_cancel]
    rfl

/-- A call that did not succeed yields no event, whatever other calls left in the maps. -/
theorem exitProbe_of_not_succeeded (hsucceeded : call.succeeded r = false)
    (hptr : call.fn.isEx = true →
      maps.readbytesPtrs call.tid = none ∨ maps.readbytesPtrs call.tid = some call.readbytes) :
    (call.exitProbe f maps r).2 = [] := by
  have hex rw (hfn : call.fn.isEx = true)
      (hnone : ¬ (r.ret = 1 ∧ 0 < r.mem.word call.readbytes)) :
      (probeSslExExit f maps (call.ctx r.ts) r.mem rw r.ret).2 = [] := by
    unfold probeSslExExit
    split
    · rfl
    · next ptr hheld =>
      obtain hptr | hptr := hptr hfn
      · cases hptr.symm.trans hheld
      · obtain rfl : call.readbytes = ptr := Option.some.inj (hptr.symm.trans hheld)
        have hlen : exLen r.ret (r.mem.word call.readbytes) ≤ 0 := by
          unfold exLen
          split
          · next hret =>
            have hzero : r.mem.word call.readbytes = 0 := by
              refine UInt64.le_zero_iff.mp (UInt64.not_lt.mp fun hpos => hnone ⟨hret, hpos⟩)
            rw [hzero]
            decide
          · decide
        exact congrArg Prod.snd (submitExit_of_le hlen)
  cases hfn : call.fn with
  | read | write =>
    have hret : r.ret ≤ 0 := by simpa [TlsCall.succeeded, hfn] using hsucceeded
    simp [TlsCall.exitProbe, hfn, sslExit, submitExit_of_le hret]
  | readEx | writeEx =>
    simp only [TlsCall.exitProbe, hfn]
    refine hex _ (by simp [hfn, TlsFunction.isEx]) ?_
    simpa [TlsCall.succeeded, hfn] using hsucceeded
  | handshake =>
    have hret : r.ret ≤ 0 := by simpa [TlsCall.succeeded, hfn] using hsucceeded
    simp only [TlsCall.exitProbe, hfn, probeSslDoHandshakeExit, if_pos hret]
    repeat' split
    all_goals rfl

/-- A call that does not pass the filter yields no event, and leaves the buffer and the entry time
of an outer call. -/
theorem exitProbe_of_not_passes (hpasses : call.passes f = false)
    (hhandshake : call.fn = .handshake → 0 < r.ret →
      traceAllowed f call.pid call.pid = false ∨ maps.startNs call.tid = none) :
    (call.exitProbe f maps r).2 = [] ∧ (call.exitProbe f maps r).1.bufs = maps.bufs ∧
      (call.exitProbe f maps r).1.startNs = maps.startNs := by
  have hallowed : traceAllowed f (call.ctx r.ts).uid (call.ctx r.ts).pid = false := hpasses
  have hex rw : (probeSslExExit f maps (call.ctx r.ts) r.mem rw r.ret).2 = [] ∧
      (probeSslExExit f maps (call.ctx r.ts) r.mem rw r.ret).1.bufs = maps.bufs ∧
      (probeSslExExit f maps (call.ctx r.ts) r.mem rw r.ret).1.startNs = maps.startNs := by
    unfold probeSslExExit
    split
    · exact ⟨rfl, rfl, rfl⟩
    · rw [exSslExit, submitExit_of_not_allowed hallowed]
      exact ⟨rfl, rfl, rfl⟩
  cases hfn : call.fn with
  | read | write =>
    simp only [TlsCall.exitProbe, hfn, sslExit]
    rw [submitExit_of_not_allowed hallowed]
    exact ⟨rfl, rfl, rfl⟩
  | readEx | writeEx =>
    simp only [TlsCall.exitProbe, hfn]
    exact hex _
  | handshake =>
    simp only [TlsCall.exitProbe, hfn, probeSslDoHandshakeExit]
    split
    · exact ⟨rfl, rfl, rfl⟩
    · next hallowed =>
      split
      · exact ⟨rfl, rfl, rfl⟩
      · next start hstart =>
        split
        · exact ⟨rfl, rfl, rfl⟩
        · next hret =>
          obtain hfalse | hnone := hhandshake hfn (Int32.not_le.mp hret)
          · exact absurd hfalse (by simpa [TlsCall.ctx] using hallowed)
          · cases hnone.symm.trans hstart

end Probes

/-! ### Runs -/

/-- A call that has not returned. It is disturbed once a call inside it, of the same thread, has
made use of what its entry left. -/
structure OpenCall where
  call : TlsCall
  disturbed : Bool

inductive TlsAction where
  | enter (call : TlsCall)
  | exit (tid : UInt32) (r : TlsReturn)

structure TlsRun where
  maps : TlsMaps
  /-- The open calls of a thread, the innermost first. -/
  calls : UInt32 → List OpenCall
  emitted : List SubmittedEvent
  /-- The calls that are due an event, in the order of their returns. -/
  due : List CallId

/-- A call that passes the filter writes its own entries, and the return of an `_ex` call removes
the pointer of the thread. -/
def TlsCall.disturbs (f : TlsFilter) (inner outer : TlsCall) : Bool :=
  inner.passes f || (inner.fn.isEx && outer.fn.isEx)

def OpenCall.under (f : TlsFilter) (inner : TlsCall) (outer : OpenCall) : OpenCall :=
  { outer with disturbed := outer.disturbed || inner.disturbs f outer.call }

namespace TlsRun

def init : TlsRun := ⟨⟨fun _ => none, fun _ => none, fun _ => none⟩, fun _ => [], [], []⟩

/-- Calls of a thread return in the order opposite to that of their entries. -/
def step (f : TlsFilter) (s : TlsRun) : TlsAction → Option TlsRun
  | .enter call =>
    some { s with
      maps := call.enterProbe f s.maps
      calls := Function.update s.calls call.tid
        (⟨call, false⟩ :: (s.calls call.tid).map (OpenCall.under f call)) }
  | .exit tid r =>
    match s.calls tid with
    | [] => none
    | ⟨call, _⟩ :: outer =>
      let (maps, events) := call.exitProbe f s.maps r
      some {
        maps
        calls := Function.update s.calls tid outer
        emitted := s.emitted ++ events
        due := if call.passes f && call.succeeded r then s.due ++ [call.callId] else s.due }

/-- The events are those of the calls that are due one. -/
def Paired (s : TlsRun) : Prop := s.emitted.map SubmittedEvent.callId = s.due

/-- The return of a call leads to no defect: a call due an event is not disturbed, its length is
positive as an `int`; and the filter does not tell the uid of a successful handshake from its
pid, unless that makes no event of a call that is due none. -/
def CleanReturn (f : TlsFilter) (maps : TlsMaps) (frame : OpenCall) (r : TlsReturn) : Prop :=
  let call := frame.call
  (call.passes f = true → call.succeeded r = true → frame.disturbed = false ∧
      (call.fn.isEx = true → 0 < (r.mem.word call.readbytes).toUInt32.toInt32)) ∧
    (call.fn = .handshake → 0 < r.ret →
      if call.passes f then traceAllowed f call.pid call.pid = true
      else traceAllowed f call.pid call.pid = false ∨ maps.startNs call.tid = none)

def Clean (f : TlsFilter) (s : TlsRun) : TlsAction → Prop
  | .enter _ => True
  | .exit tid r => ∀ frame ∈ (s.calls tid).head?, CleanReturn f s.maps frame r

end TlsRun

/-! ### The open calls of a thread -/

/-- The pointer of a thread is the one of its innermost `_ex` call, or it is gone. -/
def PointerKept (f : TlsFilter) (ptr : Option UInt64) : List OpenCall → Prop
  | [] => True
  | frame :: outer =>
    if frame.call.fn.isEx then
      frame.call.passes f = true → ptr = none ∨ ptr = some frame.call.readbytes
    else PointerKept f ptr outer

/-- What the maps hold for a thread belongs to those of its open calls that are not disturbed. -/
structure ThreadKept (f : TlsFilter) (maps : TlsMaps) (tid : UInt32) (calls : List OpenCall) :
    Prop where
  tid_eq : ∀ frame ∈ calls, frame.call.tid = tid
  recorded : ∀ frame ∈ calls, frame.call.passes f = true → frame.disturbed = false →
    Recorded maps frame.call
  disturbed : calls.Pairwise fun inner outer =>
    inner.call.disturbs f outer.call = true → outer.disturbed = true
  pointer : PointerKept f (maps.readbytesPtrs tid) calls

section Thread

variable {f : TlsFilter} {maps maps' : TlsMaps} {tid : UInt32} {calls outer : List OpenCall}
  {call : TlsCall} {frame : OpenCall} {r : TlsReturn} {ptr : Option UInt64}

theorem pointerKept_none : PointerKept f none calls := by
  induction calls with
  | nil => trivial
  | cons frame outer ih =>
    rw [PointerKept]
    split
    · exact fun _ => .inl rfl
    · exact ih

theorem pointerKept_map_under :
    PointerKept f ptr (calls.map (OpenCall.under f call)) ↔ PointerKept f ptr calls := by
  induction calls with
  | nil => rfl
  | cons frame outer ih =>
    rw [map_cons, PointerKept, ih]
    rfl

theorem ThreadKept.congr (h : ThreadKept f maps tid calls) (hagrees : maps.AgreesAt maps' tid) :
    ThreadKept f maps' tid calls where
  tid_eq := h.tid_eq
  recorded := by
    intro frame hframe hpasses hdisturbed
    refine (h.recorded frame hframe hpasses hdisturbed).congr ?_
    rwa [h.tid_eq frame hframe]
  disturbed := h.disturbed
  pointer := by
    rw [hagrees.readbytesPtrs]
    exact h.pointer

theorem ThreadKept.enter (h : ThreadKept f maps call.tid calls) :
    ThreadKept f (call.enterProbe f maps) call.tid
      (⟨call, false⟩ :: calls.map (OpenCall.under f call)) where
  tid_eq := by
    intro frame hframe
    obtain rfl | hframe := mem_cons.mp hframe
    · rfl
    · obtain ⟨held, hheld, rfl⟩ := mem_map.mp hframe
      exact h.tid_eq held hheld
  recorded := by
    intro frame hframe hpasses hdisturbed
    obtain rfl | hframe := mem_cons.mp hframe
    · exact recorded_enterProbe hpasses
    · obtain ⟨held, hheld, rfl⟩ := mem_map.mp hframe
      obtain ⟨hold, hnot⟩ := Bool.or_eq_false_iff.mp hdisturbed
      have hcall : call.passes f = false := (Bool.or_eq_false_iff.mp hnot).1
      rw [enterProbe_of_not_passes hcall]
      exact h.recorded held hheld hpasses hold
  disturbed := by
    refine pairwise_cons.mpr ⟨?_, ?_⟩
    · intro frame hframe hdisturbs
      obtain ⟨frame, hframe, rfl⟩ := mem_map.mp hframe
      exact Bool.or_eq_true_iff.mpr (.inr hdisturbs)
    · rw [pairwise_map]
      exact h.disturbed.imp fun hpair hdisturbs =>
        Bool.or_eq_true_iff.mpr (.inl (hpair hdisturbs))
  pointer := by
    rw [PointerKept, pointerKept_map_under]
    split
    · next hex =>
      exact fun hpasses => .inr ((recorded_enterProbe hpasses).readbytesPtrs hex)
    · next hex =>
      rw [enterProbe_readbytesPtrs (Bool.eq_false_of_not_eq_true hex)]
      exact h.pointer

/-- The innermost call returns: it yields its event if it is due one. -/
theorem ThreadKept.events (h : ThreadKept f maps tid (frame :: outer))
    (hclean : TlsRun.CleanReturn f maps frame r) :
    (frame.call.exitProbe f maps r).2.map SubmittedEvent.callId =
      if frame.call.passes f && frame.call.succeeded r then [frame.call.callId] else [] := by
  obtain ⟨hdue, hhandshake⟩ := hclean
  have htid := h.tid_eq frame (mem_cons_self ..)
  cases hpasses : frame.call.passes f with
  | false =>
    rw [hpasses] at hhandshake
    rw [(exitProbe_of_not_passes hpasses hhandshake).1]
    rfl
  | true =>
    rw [hpasses] at hhandshake
    cases hsucceeded : frame.call.succeeded r with
    | false =>
      have hptr : frame.call.fn.isEx = true → maps.readbytesPtrs frame.call.tid = none ∨
          maps.readbytesPtrs frame.call.tid = some frame.call.readbytes := by
        intro hex
        have hpointer := h.pointer
        rw [PointerKept, if_pos hex] at hpointer
        rw [htid]
        exact hpointer hpasses
      rw [exitProbe_of_not_succeeded hsucceeded hptr]
      rfl
    | true =>
      obtain ⟨hdisturbed, hlen⟩ := hdue hpasses hsucceeded
      refine exitProbe_of_recorded hpasses
        (h.recorded frame (mem_cons_self ..) hpasses hdisturbed) hsucceeded hlen fun hfn => ?_
      have hret : 0 < r.ret := by simpa [TlsCall.succeeded, hfn] using hsucceeded
      exact hhandshake hfn hret

theorem ThreadKept.exit (h : ThreadKept f maps tid (frame :: outer))
    (hclean : TlsRun.CleanReturn f maps frame r) :
    ThreadKept f (frame.call.exitProbe f maps r).1 tid outer where
  tid_eq := fun frame hframe => h.tid_eq frame (mem_cons_of_mem _ hframe)
  recorded := by
    intro below hbelow hpasses hdisturbed
    have hrecorded := h.recorded below (mem_cons_of_mem _ hbelow) hpasses hdisturbed
    have hnot : frame.call.disturbs f below.call = false := by
      refine Bool.eq_false_of_not_eq_true fun hdisturbs => ?_
      cases hdisturbed.symm.trans ((pairwise_cons.mp h.disturbed).1 below hbelow hdisturbs)
    obtain ⟨hframe, hex⟩ := Bool.or_eq_false_iff.mp hnot
    have hhandshake := hclean.2
    rw [hframe] at hhandshake
    obtain ⟨-, hbufs, hstart⟩ := exitProbe_of_not_passes hframe hhandshake
    refine ⟨?_, ?_, ?_⟩
    · rw [hstart]
      exact hrecorded.startNs
    · rw [hbufs]
      exact hrecorded.bufs
    · intro hbelowEx
      rw [hbelowEx, Bool.and_true] at hex
      rw [exitProbe_readbytesPtrs hex]
      exact hrecorded.readbytesPtrs hbelowEx
  disturbed := (pairwise_cons.mp h.disturbed).2
  pointer := by
    have htid := h.tid_eq frame (mem_cons_self ..)
    have hpointer := h.pointer
    rw [PointerKept] at hpointer
    cases hex : frame.call.fn.isEx with
    | true =>
      rw [← htid, exitProbe_readbytesPtrs_of_isEx hex]
      exact pointerKept_none
    | false =>
      rw [hex] at hpointer
      rwa [exitProbe_readbytesPtrs hex]

end Thread

/-! ### The invariant along a run -/

namespace TlsRun

variable {f : TlsFilter} {s s' : TlsRun} {a : TlsAction}

structure Kept (f : TlsFilter) (s : TlsRun) : Prop where
  paired : s.Paired
  thread : ∀ tid, ThreadKept f s.maps tid (s.calls tid)

theorem kept_init (f : TlsFilter) : init.Kept f where
  paired := rfl
  thread tid := ⟨by simp [init], by simp [init], Pairwise.nil, trivial⟩

theorem step_exit {tid : UInt32} {frame : OpenCall} {outer : List OpenCall} {r : TlsReturn}
    (hcalls : s.calls tid = frame :: outer) :
    s.step f (.exit tid r) = some {
      maps := (frame.call.exitProbe f s.maps r).1
      calls := Function.update s.calls tid outer
      emitted := s.emitted ++ (frame.call.exitProbe f s.maps r).2
      due := if frame.call.passes f && frame.call.succeeded r then s.due ++ [frame.call.callId]
        else s.due } := by
  rw [TlsRun.step, hcalls]

theorem Kept.step (h : s.Kept f) (hclean : s.Clean f a) (hstep : s.step f a = some s') :
    s'.Kept f := by
  cases a with
  | enter call =>
    cases hstep
    refine ⟨h.paired, fun tid => ?_⟩
    dsimp only
    by_cases htid : tid = call.tid
    · subst htid
      rw [update_self]
      exact (h.thread call.tid).enter
    · rw [update_of_ne htid]
      exact (h.thread tid).congr (enterProbe_agreesAt htid)
  | exit tid r =>
    cases hcalls : s.calls tid with
    | nil =>
      rw [TlsRun.step, hcalls] at hstep
      cases hstep
    | cons frame outer =>
      obtain rfl := Option.some.inj (hstep.symm.trans (step_exit hcalls))
      have hthread := h.thread tid
      rw [hcalls] at hthread
      have hreturn : CleanReturn f s.maps frame r := hclean frame (by rw [hcalls]; rfl)
      refine ⟨?_, fun other => ?_⟩
      · dsimp only [Paired]
        rw [map_append, hthread.events hreturn, h.paired]
        split
        · rfl
        · exact append_nil _
      · dsimp only
        by_cases hother : other = tid
        · subst hother
          rw [update_self]
          exact hthread.exit hreturn
        · rw [update_of_ne hother]
          refine (h.thread other).congr (exitProbe_agreesAt ?_)
          rwa [hthread.tid_eq frame (mem_cons_self ..)]

instance (maps : TlsMaps) (frame : OpenCall) (r : TlsReturn) :
    Decidable (CleanReturn f maps frame r) := by
  unfold CleanReturn
  infer_instance

instance : (s : TlsRun) → (a : TlsAction) → Decidable (s.Clean f a)
  | _, .enter _ => inferInstanceAs (Decidable True)
  | s, .exit tid r =>
    match hcalls : (s.calls tid).head? with
    | none => .isTrue (by simp [Clean, hcalls])
    | some frame => decidable_of_iff (CleanReturn f s.maps frame r) (by simp [Clean, hcalls])

end TlsRun

/-- **In every run of clean steps the submitted events are those of the calls that are due one**:
those that pass the filter and succeed, each with its own thread, buffer and entry time. -/
theorem tls_calls_paired (f : TlsFilter) (s : TlsRun)
    (h : Reaches (TlsRun.step f) (TlsRun.Clean f) .init s) : s.Paired :=
  (h.invariant (TlsRun.kept_init f) fun _ _ _ hs hok hstep => hs.step hok hstep).paired

section Example

def curl : CString taskCommLen := ⟨[99, 117, 114, 108], by decide, by decide⟩

/-- A call of pid 42 in thread 43, as user 1000. -/
def curlCall (fn : TlsFunction) (entryNs : UInt64) : TlsAction :=
  .enter ⟨fn, 42, 43, 1000, entryNs, curl, 4096, 8192⟩

/-- Its return, where an `_ex` call leaves `written` at its pointer. -/
def curlReturn (ts : UInt64) (ret : Int32) (written : UInt64) : TlsAction :=
  .exit 43 ⟨ts, ret, ⟨fun _ => written, fun _ => true⟩⟩

instance (s : TlsRun) : Decidable s.Paired := inferInstanceAs (Decidable (_ = _))

/-- A handshake, a read that fails, and one of five bytes. -/
theorem tls_calls_paired_of_curl : ∃ s : TlsRun,
    s.due = [⟨43, none, 1, true⟩, ⟨43, some 4096, 5, false⟩] ∧ s.Paired := by
  obtain ⟨s, hreaches, hdue⟩ := exists_reaches_of_run
    (Q := fun s : TlsRun => s.due = [⟨43, none, 1, true⟩, ⟨43, some 4096, 5, false⟩])
    (TlsRun.step ⟨42, 0xffffffff⟩) (TlsRun.Clean ⟨42, 0xffffffff⟩) .init
    [curlCall .handshake 1, curlReturn 2 1 0, curlCall .read 3, curlReturn 4 (-1) 0,
      curlCall .readEx 5, curlReturn 6 1 5] (by decide)
  exact ⟨s, hdue, tls_calls_paired ⟨42, 0xffffffff⟩ s hreaches⟩

/-- A handshake inside a read takes its entry time away, a filter by uid drops every handshake of a
process whose pid is another number, and two gibibytes are a negative length. -/
theorem tls_calls_not_paired :
    (¬ ∀ s, Reaches (TlsRun.step ⟨0, 0xffffffff⟩) always .init s → s.Paired) ∧
      (¬ ∀ s, Reaches (TlsRun.step ⟨0, 1000⟩) always .init s → s.Paired) ∧
      ∃ s, Reaches (TlsRun.step ⟨0, 0xffffffff⟩) always .init s ∧ s.emitted.length = 0 ∧
        s.due = [⟨43, some 4096, 1, false⟩] := by
  refine ⟨fun h => ?_, fun h => ?_, ?_⟩
  · obtain ⟨s, hreaches, hnot⟩ := exists_reaches_of_run (Q := fun s : TlsRun => ¬ s.Paired)
      (TlsRun.step ⟨0, 0xffffffff⟩) always .init
      [curlCall .read 1, curlCall .handshake 2, curlReturn 3 1 0, curlReturn 4 5 0]
      (by decide)
    exact hnot (h s hreaches)
  · obtain ⟨s, hreaches, hnot⟩ := exists_reaches_of_run (Q := fun s : TlsRun => ¬ s.Paired)
      (TlsRun.step ⟨0, 1000⟩) always .init [curlCall .handshake 1, curlReturn 2 1 0]
      (by decide)
    exact hnot (h s hreaches)
  · exact exists_reaches_of_run
      (Q := fun s : TlsRun => s.emitted.length = 0 ∧ s.due = [⟨43, some 4096, 1, false⟩])
      (TlsRun.step ⟨0, 0xffffffff⟩) always .init
      [curlCall .writeEx 1, curlReturn 2 1 0x80000000] (by decide)

end Example

end AgentSight.Bpf.Sslsniff
