import Mathlib.Data.List.Basic
import Mathlib.Logic.Relation

/-!
# Processes, sessions and reused numbers

The process table of a Unix kernel with its history. A process is an index into the table: it is
never removed, so two processes that had the same number one after the other stay apart. A number
is free again once the process has been reaped and no session has its number. A session is its
leader. The children of a process that ends go to one that comes later on its chain of parents.

`Descends` is by birth. What a process descends from is fixed when it is made, and so is what
sessions its ancestors had been in then, but for the sessions that they make themselves.
-/

namespace AgentSight.Processes

open List Option

inductive Life where
  | running
  | zombie
  | reaped
  deriving DecidableEq

structure Process (ι : Type) where
  number : ι
  /-- The process that made it. -/
  creator : Option ℕ
  parent : Option ℕ
  /-- The leader of its session. -/
  session : ℕ
  /-- History: the sessions it has left. -/
  left : List ℕ
  life : Life
  deriving DecidableEq

abbrev Table (ι : Type) := List (Process ι)

inductive Event (ι : Type) where
  /-- The new process may be made a sibling of its creator. -/
  | fork (creator : ℕ) (number : ι) (sibling : Bool)
  | exit (process : ℕ) (reaper : Option ℕ)
  | reap (process : ℕ)
  | setsid (process : ℕ)
  deriving DecidableEq

namespace Table

variable {ι : Type} (t : Table ι)

/-- The number of the session of a process. -/
def sessionNumber (p : ℕ) : Option ι :=
  (t[p]?.bind fun proc => t[proc.session]?).map (·.number)

def parentOf (p : ℕ) : Option ℕ := t[p]?.bind (·.parent)

/-- The processes above one on its chain of parents. -/
def above : ℕ → ℕ → List ℕ
  | 0, _ => []
  | fuel + 1, p =>
    match t.parentOf p with
    | none => []
    | some q => q :: above fuel q

/-- No process and no session with a process has the number. -/
def Free [DecidableEq ι] (number : ι) : Prop :=
  ∀ p < t.length, ∀ proc ∈ t[p]?, proc.life ≠ .reaped →
    proc.number ≠ number ∧ t.sessionNumber p ≠ some number

instance [DecidableEq ι] (number : ι) : Decidable (t.Free number) :=
  inferInstanceAs (Decidable (∀ p < _, ∀ proc ∈ _, _ → _))

def isRunning (p : ℕ) : Prop := ∃ proc ∈ t[p]?, proc.life = .running

instance (p : ℕ) : Decidable (t.isRunning p) := inferInstanceAs (Decidable (∃ proc ∈ _, _))

def step [DecidableEq ι] : Event ι → Option (Table ι)
  | .fork creator number sibling =>
    match t[creator]? with
    | some proc =>
      if proc.life = .running ∧ t.Free number then
        some (t ++ [⟨number, some creator, if sibling then proc.parent else some creator,
          proc.session, [], .running⟩])
      else none
    | none => none
  | .exit p reaper =>
    if t.isRunning p ∧ ∀ r ∈ reaper, r ∈ t.above t.length p ∧ t.isRunning r then
      some ((t.map fun proc =>
          if proc.parent = some p then { proc with parent := reaper } else proc)
        |>.modify p fun proc => { proc with life := .zombie })
    else none
  | .reap p =>
    match t[p]? with
    | some proc =>
      if proc.life = .zombie then some (t.modify p fun proc => { proc with life := .reaped })
      else none
    | none => none
  | .setsid p =>
    match t[p]? with
    | some proc =>
      if proc.life = .running then
        some (t.modify p fun proc => { proc with session := p, left := proc.session :: proc.left })
      else none
    | none => none

/-! ### What an event does to a process -/

/-- How the event changes the process with the index `p`. -/
structure Becomes (e : Event ι) (p : ℕ) (proc proc' : Process ι) : Prop where
  number : proc'.number = proc.number
  creator : proc'.creator = proc.creator
  life : proc'.life ≠ .reaped → proc.life ≠ .reaped
  running : proc.life = .running → proc'.life = .running ∨ ∃ reaper, e = .exit p reaper
  parent : proc'.parent = proc.parent ∧ (∀ x reaper, e = .exit x reaper → proc.parent ≠ some x) ∨
    ∃ x reaper, e = .exit x reaper ∧ proc.parent = some x ∧ proc'.parent = reaper
  sessions : proc'.session = proc.session ∧ proc'.left = proc.left ∨
    e = .setsid p ∧ proc.life = .running ∧ proc'.session = p ∧
      proc'.left = proc.session :: proc.left

/-- The process `proc'` has just been made by the event. -/
def Made [DecidableEq ι] (e : Event ι) (proc' : Process ι) : Prop :=
  ∃ creator number sibling proc, e = .fork creator number sibling ∧ t[creator]? = some proc ∧
    proc.life = .running ∧ t.Free number ∧
    proc' = ⟨number, some creator, if sibling then proc.parent else some creator, proc.session, [],
      .running⟩

variable {t} {t' : Table ι} {e : Event ι} {p q : ℕ} {proc proc' : Process ι}

theorem Becomes.refl (h : ∀ x reaper, e = .exit x reaper → proc.parent ≠ some x) :
    Becomes e p proc proc :=
  ⟨rfl, rfl, id, .inl, .inl ⟨rfl, h⟩, .inl ⟨rfl, rfl⟩⟩

variable [DecidableEq ι]

omit [DecidableEq ι] in
theorem getElem?_modify (f : Process ι → Process ι) :
    (t.modify p f)[q]? = t[q]?.map (if p = q then f else id) := by
  rw [List.getElem?_modify]
  split_ifs <;> simp

/-- An event makes a process, or changes those that are there one by one. -/
theorem step_eq_some (h : t.step e = some t') : (∃ new, t.Made e new ∧ t' = t ++ [new]) ∨
      ∃ f : ℕ → Process ι → Process ι, (∀ p, t'[p]? = t[p]?.map (f p)) ∧
        ∀ p proc, t[p]? = some proc → Becomes e p proc (f p proc) := by
  cases e with
  | fork creator number sibling =>
    simp only [step] at h
    split at h
    · next proc hcreator =>
      obtain ⟨⟨hrunning, hfree⟩, h⟩ := ite_none_right_eq_some.mp h
      exact .inl ⟨_, ⟨creator, number, sibling, proc, rfl, hcreator, hrunning, hfree, rfl⟩,
        (some.inj h).symm⟩
    · cases h
  | exit p reaper =>
    obtain ⟨⟨hrunning, -⟩, h⟩ := ite_none_right_eq_some.mp h
    obtain rfl := some.inj h
    refine .inr ⟨fun q => (if p = q then fun proc => { proc with life := .zombie } else id) ∘
      fun proc => if proc.parent = some p then { proc with parent := reaper } else proc,
      fun q => ?_, fun q proc hq => ?_⟩
    · rw [getElem?_modify, getElem?_map, Option.map_map]
    · have hlife (hpq : p = q) : proc.life ≠ .reaped := by
        obtain ⟨proc', hproc', hlife'⟩ := hrunning
        rw [hpq, hq] at hproc'
        obtain rfl := some.inj hproc'
        simp [hlife']
      have hother (hparent : proc.parent ≠ some p) x reaper'
          (heq : Event.exit p reaper = (.exit x reaper' : Event ι)) : proc.parent ≠ some x := by
        cases heq
        exact hparent
      simp only [Function.comp_apply]
      split_ifs with hpq hparent hparent
      · subst hpq
        exact ⟨rfl, rfl, fun _ => hlife rfl, fun _ => .inr ⟨_, rfl⟩, .inr ⟨_, _, rfl, hparent, rfl⟩,
          .inl ⟨rfl, rfl⟩⟩
      · subst hpq
        exact ⟨rfl, rfl, fun _ => hlife rfl, fun _ => .inr ⟨_, rfl⟩, .inl ⟨rfl, hother hparent⟩,
          .inl ⟨rfl, rfl⟩⟩
      · exact ⟨rfl, rfl, id, .inl, .inr ⟨_, _, rfl, hparent, rfl⟩, .inl ⟨rfl, rfl⟩⟩
      · exact .refl (hother hparent)
  | reap p =>
    simp only [step] at h
    split at h
    · next proc hp =>
      obtain ⟨hzombie, h⟩ := ite_none_right_eq_some.mp h
      obtain rfl := some.inj h
      refine .inr ⟨_, fun q => getElem?_modify _, fun q proc' hq => ?_⟩
      split_ifs with hpq
      · subst hpq
        obtain rfl := some.inj (hp.symm.trans hq)
        exact ⟨rfl, rfl, fun h => absurd rfl h, fun h => Life.noConfusion (hzombie.symm.trans h),
          .inl ⟨rfl, fun _ _ h => nomatch h⟩, .inl ⟨rfl, rfl⟩⟩
      · exact .refl fun _ _ h => nomatch h
    · cases h
  | setsid p =>
    simp only [step] at h
    split at h
    · next proc hp =>
      obtain ⟨hrunning, h⟩ := ite_none_right_eq_some.mp h
      obtain rfl := some.inj h
      refine .inr ⟨_, fun q => getElem?_modify _, fun q proc' hq => ?_⟩
      split_ifs with hpq
      · subst hpq
        obtain rfl := some.inj (hp.symm.trans hq)
        exact ⟨rfl, rfl, id, .inl, .inl ⟨rfl, fun _ _ h => nomatch h⟩,
          .inr ⟨rfl, hrunning, rfl, rfl⟩⟩
      · exact .refl fun _ _ h => nomatch h
    · cases h

theorem Made.becomes_refl {new : Process ι} (h : t.Made e new) : Becomes e p proc proc := by
  obtain ⟨_, _, _, _, rfl, -⟩ := h
  exact .refl fun _ _ h => nomatch h

/-- A process that was there is there. -/
theorem getElem?_of_step (h : t.step e = some t') (hp : t[p]? = some proc) :
    ∃ proc', t'[p]? = some proc' ∧ Becomes e p proc proc' := by
  obtain ⟨new, hnew, rfl⟩ | ⟨f, hf, hbecomes⟩ := step_eq_some h
  · have hlt : p < t.length := (List.getElem?_eq_some_iff.mp hp).1
    exact ⟨proc, (getElem?_append_left hlt).trans hp, hnew.becomes_refl⟩
  · exact ⟨f p proc, by rw [hf, hp, map_some], hbecomes p proc hp⟩

/-- A process that is there was there, or has just been made. -/
theorem step_getElem? (h : t.step e = some t') (hp : t'[p]? = some proc') :
    (∃ proc, t[p]? = some proc ∧ Becomes e p proc proc') ∨ p = t.length ∧ t.Made e proc' := by
  obtain ⟨new, hnew, rfl⟩ | ⟨f, hf, hbecomes⟩ := step_eq_some h
  · obtain hlt | rfl | hgt := Nat.lt_trichotomy p t.length
    · rw [getElem?_append_left hlt] at hp
      exact .inl ⟨proc', hp, hnew.becomes_refl⟩
    · rw [getElem?_concat_length] at hp
      obtain rfl := some.inj hp
      exact .inr ⟨rfl, hnew⟩
    · rw [getElem?_eq_none (by simpa using Nat.succ_le_of_lt hgt)] at hp
      cases hp
  · rw [hf] at hp
    obtain ⟨proc, hproc, rfl⟩ := map_eq_some_iff.mp hp
    exact .inl ⟨proc, hproc, hbecomes p proc hproc⟩

/-! ### Descent -/

variable (t) in
/-- The process `p` was made by `q`, or by one that descends from `q`, or is `q`. -/
def Descends : ℕ → ℕ → Prop :=
  Relation.ReflTransGen fun p q => ∃ proc, t[p]? = some proc ∧ proc.creator = some q

variable (t) in
/-- The process is in the session or has been. -/
def Belonged (session p : ℕ) : Prop :=
  ∃ proc, t[p]? = some proc ∧ (proc.session = session ∨ session ∈ proc.left)

variable (t) in
/-- The process descends from one that is in the session or has been. -/
def Inside (session p : ℕ) : Prop := ∃ q, t.Descends p q ∧ t.Belonged session q

theorem Descends.of_step (h : t.step e = some t') (hdescends : t.Descends p q) :
    t'.Descends p q := by
  refine Relation.ReflTransGen.mono (fun p q hmade => ?_) _ _ hdescends
  obtain ⟨proc, hp, hcreator⟩ := hmade
  obtain ⟨proc', hp', hbecomes⟩ := getElem?_of_step h hp
  exact ⟨proc', hp', hbecomes.creator.trans hcreator⟩

theorem Belonged.of_step {session : ℕ} (h : t.step e = some t') (hbelonged : t.Belonged session p) :
    t'.Belonged session p := by
  obtain ⟨proc, hp, hsession⟩ := hbelonged
  obtain ⟨proc', hp', hbecomes⟩ := getElem?_of_step h hp
  refine ⟨proc', hp', ?_⟩
  obtain ⟨hsame, hleft⟩ | ⟨-, -, -, hleft⟩ := hbecomes.sessions
  · rwa [hsame, hleft]
  · rw [hleft, mem_cons]
    exact .inr (hsession.imp_left Eq.symm)

theorem Inside.of_step {session : ℕ} (h : t.step e = some t') (hinside : t.Inside session p) :
    t'.Inside session p := by
  obtain ⟨q, hdescends, hbelonged⟩ := hinside
  exact ⟨q, hdescends.of_step h, hbelonged.of_step h⟩

omit [DecidableEq ι] in
theorem Inside.of_descends {session : ℕ} (hdescends : t.Descends p q)
    (hinside : t.Inside session q) : t.Inside session p := by
  obtain ⟨r, hr, hbelonged⟩ := hinside
  exact ⟨r, hdescends.trans hr, hbelonged⟩

/-! ### Valid tables -/

/-- The processes that are there have numbers of their own, and each has a parent that runs, is
older, and is one that it descends from. The leader of a session is a process. -/
structure Valid (t : Table ι) : Prop where
  leader : ∀ (p : ℕ) (proc : Process ι), t[p]? = some proc → proc.session < t.length
  unique : ∀ (p q : ℕ) (proc proc' : Process ι), t[p]? = some proc → t[q]? = some proc' →
    proc.life ≠ .reaped → proc'.life ≠ .reaped → proc.number = proc'.number → p = q
  parent : ∀ (p : ℕ) (proc : Process ι) (q : ℕ), t[p]? = some proc → proc.life ≠ .reaped →
    proc.parent = some q → t.isRunning q ∧ q < p ∧ t.Descends p q

theorem Valid.unique_step (hvalid : t.Valid) (h : t.step e = some t') :
    ∀ (p q : ℕ) proc proc', t'[p]? = some proc → t'[q]? = some proc' → proc.life ≠ .reaped →
      proc'.life ≠ .reaped → proc.number = proc'.number → p = q := by
  -- the number of a process just made is no other's
  have hnew {q : ℕ} {new proc proc' : Process ι} (hmade : t.Made e new) (hq : t[q]? = some proc)
      (hbecomes : Becomes e q proc proc') (hlife : proc'.life ≠ .reaped) :
      proc'.number ≠ new.number := by
    obtain ⟨_, number, _, _, -, -, -, hfree, rfl⟩ := hmade
    have hlt : q < t.length := (List.getElem?_eq_some_iff.mp hq).1
    rw [hbecomes.number]
    exact (hfree q hlt proc hq (hbecomes.life hlife)).1
  intro p q proc proc' hp hq hlife hlife' hnumber
  obtain ⟨old, hold, hbecomes⟩ | ⟨rfl, hmade⟩ := step_getElem? h hp <;>
    obtain ⟨old', hold', hbecomes'⟩ | ⟨rfl, hmade'⟩ := step_getElem? h hq
  · refine hvalid.unique p q old old' hold hold' (hbecomes.life hlife) (hbecomes'.life hlife') ?_
    rw [← hbecomes.number, ← hbecomes'.number, hnumber]
  · exact absurd hnumber (hnew hmade' hold hbecomes hlife)
  · exact absurd hnumber.symm (hnew hmade hold' hbecomes' hlife')
  · rfl

omit [DecidableEq ι] in
theorem Valid.above (hvalid : t.Valid) {fuel : ℕ} (hp : t[p]? = some proc)
    (hlife : proc.life ≠ .reaped) (hq : q ∈ t.above fuel p) : q < p ∧ t.Descends p q := by
  induction fuel generalizing p proc with
  | zero => cases hq
  | succ fuel ih =>
    cases hparent : proc.parent with
    | none =>
      rw [Table.above, parentOf, hp, bind_some, hparent] at hq
      cases hq
    | some r =>
      rw [Table.above, parentOf, hp, bind_some, hparent] at hq
      obtain ⟨⟨procr, hr, hrunning⟩, hlt, hdescends⟩ := hvalid.parent p proc r hp hlife hparent
      obtain rfl | hq := mem_cons.mp hq
      · exact ⟨hlt, hdescends⟩
      · obtain ⟨hlt', hdescends'⟩ := ih hr (by simp [hrunning]) hq
        exact ⟨Nat.lt_trans hlt' hlt, hdescends.trans hdescends'⟩

theorem isRunning_of_step (h : t.step e = some t') (hp : t.isRunning p)
    (hexit : ∀ reaper, e ≠ .exit p reaper) : t'.isRunning p := by
  obtain ⟨proc, hproc, hrunning⟩ := hp
  obtain ⟨proc', hproc', hbecomes⟩ := getElem?_of_step h hproc
  obtain hrunning' | ⟨reaper, rfl⟩ := hbecomes.running hrunning
  · exact ⟨proc', hproc', hrunning'⟩
  · exact absurd rfl (hexit reaper)

theorem Valid.parent_step (hvalid : t.Valid) (h : t.step e = some t') :
    ∀ p proc q, t'[p]? = some proc → proc.life ≠ .reaped →
      proc.parent = some q → t'.isRunning q ∧ q < p ∧ t'.Descends p q := by
  intro p proc' q hp hlife hparent
  obtain ⟨proc, hproc, hbecomes⟩ | ⟨rfl, hmade⟩ := step_getElem? h hp
  · obtain ⟨hsame, hexit⟩ | ⟨x, reaper, rfl, hx, hreaper⟩ := hbecomes.parent
    · rw [hsame] at hparent
      obtain ⟨hrunning, hlt, hdescends⟩ :=
        hvalid.parent p proc q hproc (hbecomes.life hlife) hparent
      refine ⟨isRunning_of_step h hrunning ?_, hlt, hdescends.of_step h⟩
      rintro reaper rfl
      exact hexit q reaper rfl hparent
    · -- the parent ends, and one above it takes its place
      obtain ⟨⟨hrunning, habove⟩, -⟩ := ite_none_right_eq_some.mp h
      obtain ⟨procx, hprocx, hrunningx⟩ := hrunning
      obtain ⟨hq, hrunning⟩ := habove q (hreaper ▸ hparent)
      obtain ⟨-, hltx, hdescendsx⟩ := hvalid.parent p proc x hproc (hbecomes.life hlife) hx
      obtain ⟨hlt, hdescends⟩ := hvalid.above hprocx (by simp [hrunningx]) hq
      refine ⟨isRunning_of_step h hrunning ?_, Nat.lt_trans hlt hltx,
        Descends.of_step h (hdescendsx.trans hdescends)⟩
      rintro reaper' heq
      cases heq
      exact Nat.lt_irrefl _ hlt
  · obtain ⟨creator, number, sibling, procc, rfl, hcreator, hrunning, -, rfl⟩ := hmade
    have hmade : t'.Descends t.length creator := .single ⟨_, hp, rfl⟩
    have hltc : creator < t.length := (List.getElem?_eq_some_iff.mp hcreator).1
    cases sibling with
    | true =>
      obtain ⟨hrunning', hlt, hdescends⟩ :=
        hvalid.parent creator procc q hcreator (by simp [hrunning]) hparent
      exact ⟨isRunning_of_step h hrunning' (by simp), Nat.lt_trans hlt hltc,
        hmade.trans (hdescends.of_step h)⟩
    | false =>
      obtain rfl := some.inj hparent
      exact ⟨isRunning_of_step h ⟨procc, hcreator, hrunning⟩ (by simp), hltc, hmade⟩

theorem Valid.leader_step (hvalid : t.Valid) (h : t.step e = some t') :
    ∀ (p : ℕ) proc, t'[p]? = some proc → proc.session < t'.length := by
  have hlength : t.length ≤ t'.length := by
    obtain ⟨new, -, rfl⟩ | ⟨f, hf, -⟩ := step_eq_some h
    · simp
    · refine Nat.le_of_not_lt fun hlt => ?_
      have hlast := hf t'.length
      rw [getElem?_eq_none Nat.le.refl, getElem?_eq_getElem hlt] at hlast
      cases hlast
  intro p proc' hp
  obtain ⟨proc, hproc, hbecomes⟩ | ⟨-, creator, _, _, procc, -, hcreator, -, -, rfl⟩ :=
    step_getElem? h hp
  · obtain ⟨hsame, -⟩ | ⟨-, -, hsession, -⟩ := hbecomes.sessions
    · exact hsame ▸ Nat.lt_of_lt_of_le (hvalid.leader p proc hproc) hlength
    · exact hsession ▸ (List.getElem?_eq_some_iff.mp hp).1
  · exact Nat.lt_of_lt_of_le (hvalid.leader creator procc hcreator) hlength

/-- The number of a process stays, and so does the number of its session, unless it makes one. A
process that is made is in the session of its creator. -/
theorem sessionNumber_of_step (hvalid : t.Valid) (h : t.step e = some t')
    (hp : t'[p]? = some proc') :
    (∃ proc, t[p]? = some proc ∧ (proc'.life ≠ .reaped → proc.life ≠ .reaped) ∧
      (t'.sessionNumber p = t.sessionNumber p ∨
        e = .setsid p ∧ t'.sessionNumber p = some proc.number)) ∨
    ∃ creator number sibling, e = .fork creator number sibling ∧ t.isRunning creator ∧
      t'.Descends p creator ∧ t'.sessionNumber p = t.sessionNumber creator := by
  have hnumber {q : ℕ} {proc : Process ι} (hproc : t[q]? = some proc) :
      (t'[q]?).map (·.number) = some proc.number := by
    obtain ⟨proc', hproc', hbecomes⟩ := getElem?_of_step h hproc
    rw [hproc', map_some, hbecomes.number]
  have hleader {q : ℕ} {proc : Process ι} (hproc : t[q]? = some proc) :
      (t'[proc.session]?).map (·.number) = t.sessionNumber q := by
    have hlt := hvalid.leader q proc hproc
    rw [sessionNumber, hproc, bind_some, getElem?_eq_getElem hlt]
    exact hnumber (getElem?_eq_getElem hlt)
  obtain ⟨proc, hproc, hbecomes⟩ | ⟨-, creator, number, sibling, procc, rfl, hcreator, hrunning,
    -, rfl⟩ := step_getElem? h hp
  · refine .inl ⟨proc, hproc, hbecomes.life, ?_⟩
    obtain ⟨hsame, -⟩ | ⟨rfl, -, hsession, -⟩ := hbecomes.sessions
    · left
      rw [sessionNumber, hp, bind_some, hsame, hleader hproc]
    · right
      rw [sessionNumber, hp, bind_some, hsession, hnumber hproc]
      exact ⟨rfl, rfl⟩
  · refine .inr ⟨creator, number, sibling, rfl, ⟨procc, hcreator, hrunning⟩,
      .single ⟨_, hp, rfl⟩, ?_⟩
    have hsession := hleader hcreator
    rw [sessionNumber, hp]
    exact hsession

theorem Valid.step (hvalid : t.Valid) (h : t.step e = some t') : t'.Valid where
  leader := hvalid.leader_step h
  unique := hvalid.unique_step h
  parent := hvalid.parent_step h

end Table

end AgentSight.Processes
