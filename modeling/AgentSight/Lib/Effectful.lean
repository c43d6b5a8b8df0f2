import Mathlib.Logic.Basic

/-!
# Programs with state and failure

A program may fail, and when it does it keeps the state it had reached. `Maintains P m` says
that `P` survives `m` however `m` ends, and `Keeps f m` that `m` leaves the observation `f`
of the state as it was. Both are closed under the ways programs are put together, so that
a frame fact about a long program is the sum of the frame facts about its primitives.
-/

namespace Effectful

variable {ε S α β γ : Type}

/-- Programs over the state `S` that may fail with an `ε`. -/
abbrev Program (ε S : Type) := ExceptT ε (StateM S)

/-- The result of a program and the state it ends in. -/
def exec (m : Program ε S α) (s : S) : Except ε α × S := m s

/-- The program that runs a state transformer with a result. -/
def ofFn (f : S → Except ε α × S) : Program ε S α := f

/-- The program that changes the state, has a result and cannot fail. -/
def transact (f : S → α × S) : Program ε S α := ofFn fun s => (.ok (f s).1, (f s).2)

/-- The program that changes the state and cannot fail. -/
def update (f : S → S) : Program ε S Unit := transact fun s => ((), f s)

/-- The program that reads an observation of the state. -/
def observe (f : S → α) : Program ε S α := transact fun s => (f s, s)

@[simp] theorem exec_ofFn (f : S → Except ε α × S) (s : S) : exec (ofFn f) s = f s := rfl

@[simp] theorem exec_pure (a : α) (s : S) : exec (pure a : Program ε S α) s = (.ok a, s) := rfl

variable {f : α → Program ε S β} {m : Program ε S α}

theorem exec_bind_of_ok {s s' : S} {a : α}
    (h : exec m s = (.ok a, s')) : exec (m >>= f) s = exec (f a) s' := by
  have hm : m s = (.ok a, s') := h
  change (ExceptT.bindCont f (m s).1) (m s).2 = f a s'
  rw [hm]
  rfl

theorem exec_bind_of_error {s s' : S} {e : ε}
    (h : exec m s = (.error e, s')) : exec (m >>= f) s = (.error e, s') := by
  have hm : m s = (.error e, s') := h
  change (ExceptT.bindCont f (m s).1) (m s).2 = (.error e, s')
  rw [hm]
  rfl

@[simp] theorem exec_transact (f : S → α × S) (s : S) :
    exec (transact f : Program ε S α) s = (.ok (f s).1, (f s).2) := rfl

@[simp] theorem exec_update (f : S → S) (s : S) :
    exec (update f : Program ε S Unit) s = (.ok (), f s) := rfl

@[simp] theorem exec_transact_bind (f : S → α × S) (g : α → Program ε S β) (s : S) :
    exec (transact f >>= g) s = exec (g (f s).1) (f s).2 := exec_bind_of_ok rfl

@[simp] theorem exec_update_bind (f : S → S) (g : Unit → Program ε S β) (s : S) :
    exec (update f >>= g) s = exec (g ()) (f s) := exec_bind_of_ok rfl

@[simp] theorem exec_observe_bind (f : S → α) (g : α → Program ε S β) (s : S) :
    exec (observe f >>= g) s = exec (g (f s)) s := exec_bind_of_ok rfl

/-- A program that ends well ran its first part to the end. -/
theorem exec_bind_eq_ok {s s'' : S} {b : β} (h : exec (m >>= f) s = (.ok b, s'')) :
    ∃ a s', exec m s = (.ok a, s') ∧ exec (f a) s' = (.ok b, s'') := by
  rcases hm : exec m s with ⟨_ | a, s'⟩
  · rw [exec_bind_of_error hm] at h
    cases h
  · exact ⟨a, s', rfl, by rwa [exec_bind_of_ok hm] at h⟩

/-- Only the states the first part ends well in matter for the second. -/
theorem exec_bind_congr {g : α → Program ε S β} {s : S}
    (h : ∀ a s', exec m s = (.ok a, s') → exec (f a) s' = exec (g a) s') :
    exec (m >>= f) s = exec (m >>= g) s := by
  rcases hm : exec m s with ⟨e | a, s'⟩
  · rw [exec_bind_of_error hm, exec_bind_of_error hm]
  · rw [exec_bind_of_ok hm, exec_bind_of_ok hm, h a s' hm]

/-! ### Maintained properties -/

/-- `P` survives the program, whether it fails or not. -/
def Maintains (P : S → Prop) (m : Program ε S α) : Prop := ∀ s, P s → P (exec m s).2

namespace Maintains

variable {P : S → Prop} {m : Program ε S α}

theorem pure (a : α) : Maintains P (Pure.pure a : Program ε S α) := fun _ hs => hs

theorem bind (hm : Maintains P m) (hf : ∀ a, Maintains P (f a)) : Maintains P (m >>= f) := by
  intro s hs
  have hs' := hm s hs
  rcases hr : exec m s with ⟨e | a, s'⟩ <;> rw [hr] at hs'
  · rwa [exec_bind_of_error hr]
  · rw [exec_bind_of_ok hr]
    exact hf a s' hs'

end Maintains

/-! ### Programs that do not fail -/

/-- The program ends well in every state. -/
def Succeeds (m : Program ε S α) : Prop := ∀ s, ∃ a s', exec m s = (.ok a, s')

namespace Succeeds

variable {m : Program ε S α}

theorem pure (a : α) : Succeeds (Pure.pure a : Program ε S α) := fun s => ⟨a, s, rfl⟩

theorem transact (f : S → α × S) : Succeeds (Effectful.transact f : Program ε S α) :=
  fun s => ⟨(f s).1, (f s).2, rfl⟩

theorem bind (hm : Succeeds m) (hf : ∀ a, Succeeds (f a)) : Succeeds (m >>= f) := by
  intro s
  obtain ⟨a, s', hr⟩ := hm s
  rw [exec_bind_of_ok hr]
  exact hf a s'

end Succeeds

/-! ### Observations a program leaves alone -/

/-- The program leaves the observation `f` of the state as it was. -/
def Keeps (f : S → γ) (m : Program ε S α) : Prop := ∀ s, f (exec m s).2 = f s

namespace Keeps

variable {f : S → γ} {m : Program ε S α}

theorem maintains (h : Keeps f m) (c : γ) : Maintains (fun s => f s = c) m :=
  fun s hs => (h s).trans hs

theorem of_maintains (h : ∀ c, Maintains (fun s => f s = c) m) : Keeps f m :=
  fun s => h (f s) s rfl

theorem pure (a : α) : Keeps f (Pure.pure a : Program ε S α) := fun _ => rfl

theorem bind {g : α → Program ε S β} (hm : Keeps f m) (hg : ∀ a, Keeps f (g a)) :
    Keeps f (m >>= g) :=
  of_maintains fun c => (hm.maintains c).bind fun a => (hg a).maintains c

end Keeps

end Effectful
