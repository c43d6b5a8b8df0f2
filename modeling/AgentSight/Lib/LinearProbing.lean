import Mathlib.Algebra.Group.Fin.Basic
import Mathlib.Algebra.Ring.Nat
import Mathlib.Data.Fintype.Card

/-!
# Open addressing with linear probing

A table of `N` slots, each empty or holding one key, where a key is looked for from its
*home* slot forward, cyclically, until it or an empty slot is met. Deletion empties the
slot and re-inserts, one after the other, the keys that follow it up to the next empty
slot.

The invariant is stated in the coordinates of an *origin*: `Placed home o T` says that,
counting slots from `o`, no probe path wraps and every slot on the path from a key's home
to the key is occupied. In a table with an empty slot the origin is the slot after it; a
full table needs the existential (`WellFormed.placed`), because there occupancy alone says
nothing about paths and a deletion would not preserve it. The origin of a full table is
the slot after the one that was filled last.

Main results: `WellFormed.probe_eq_some_iff` (lookup is exact), `WellFormed.insert`,
`WellFormed.remove` and `mem_remove_iff` (deletion removes that key and no other).
-/

namespace LinearProbing

open Option

variable {d i : ℕ}

/-! ### Cyclic slots -/

section Slots

variable {N : ℕ} [NeZero N]

/-- The slot `d` places after `a`, cyclically. -/
def slot (a : Fin N) (d : ℕ) : Fin N := a + Fin.ofNat N d

/-- The number of places from `a` forward to `b`, cyclically. -/
def dist (a b : Fin N) : ℕ := (b - a).val

omit [NeZero N] in
theorem dist_lt (a b : Fin N) : dist a b < N := (b - a).isLt

@[simp]
theorem slot_zero (a : Fin N) : slot a 0 = a := by
  simp [slot]

@[simp]
theorem slot_dist (a b : Fin N) : slot a (dist a b) = b := by
  simp [slot, dist]

@[simp]
theorem dist_slot (a : Fin N) (h : d < N) : dist a (slot a d) = d := by
  simp [slot, dist, Nat.mod_eq_of_lt h]

theorem slot_slot (a : Fin N) (d e : ℕ) : slot (slot a d) e = slot a (d + e) := by
  simp [slot, Fin.ext_iff, Fin.val_add, Nat.add_assoc]

theorem slot_add_size (a : Fin N) (d : ℕ) : slot a (d + N) = slot a d := by
  simp [slot, Fin.ext_iff]

/-- The distance is the number of steps, when that is less than a full turn. -/
theorem dist_eq_of_slot {a b : Fin N} (h : slot a d = b) (hd : d < N) : dist a b = d := by
  rw [← h, dist_slot a hd]

theorem slot_inj {a : Fin N} {e : ℕ} (hd : d < N) (he : e < N) : slot a d = slot a e ↔ d = e := by
  refine ⟨fun h => ?_, fun h => h ▸ rfl⟩
  rw [← dist_slot a hd, ← dist_slot a he, h]

/-- Between two slots that an origin does not separate, distances subtract. -/
theorem dist_eq_sub {o a b : Fin N} (h : dist o a ≤ dist o b) : dist a b = dist o b - dist o a := by
  refine dist_eq_of_slot ?_ (lt_of_le_of_lt (Nat.sub_le _ _) (dist_lt o b))
  calc slot a (dist o b - dist o a)
      = slot (slot o (dist o a)) (dist o b - dist o a) := by rw [slot_dist]
    _ = b := by rw [slot_slot, Nat.add_sub_cancel' h, slot_dist]

/-- Going on from `b` to `a` completes the turn. -/
theorem dist_eq_size_sub {a b : Fin N} (h : 0 < dist b a) : dist a b = N - dist b a := by
  refine dist_eq_of_slot ?_ (by have := dist_lt b a; omega)
  calc slot a (N - dist b a) = slot (slot b (dist b a)) (N - dist b a) := by rw [slot_dist]
    _ = slot b (0 + N) := by rw [slot_slot]; congr 1; have := dist_lt b a; omega
    _ = b := by rw [slot_add_size, slot_zero]

/-- Seen from the slot after it, a slot is the last of the turn. -/
theorem dist_slot_one_self (p : Fin N) : dist (slot p 1) p = N - 1 := by
  have hN := Nat.pos_of_neZero N
  refine dist_eq_of_slot ?_ (by omega)
  rw [slot_slot, show 1 + (N - 1) = 0 + N by omega, slot_add_size, slot_zero]

/-- Stepping forward from `a` is stepping further from the origin. -/
theorem slot_eq_slot_origin (o a : Fin N) (d : ℕ) : slot a d = slot o (dist o a + d) := by
  conv_lhs => rw [← slot_dist o a]
  exact slot_slot o _ d

end Slots

/-! ### The probe loop -/

section Probe

variable {N : ℕ} [NeZero N] (stop : Fin N → Bool) (a : Fin N)

/-- Visit the slots `i, i + 1, …` places after `a`, `fuel` of them at most, and return the
first at which `stop` holds. -/
def probeFrom (i : ℕ) : ℕ → Option (Fin N)
  | 0 => none
  | fuel + 1 => if stop (slot a i) then some (slot a i) else probeFrom (i + 1) fuel

/-- One full turn of the table from `a`. -/
def probe : Option (Fin N) := probeFrom stop a 0 N

variable {stop a}

theorem probeFrom_eq_some_iff {fuel : ℕ} {s : Fin N} :
    probeFrom stop a i fuel = some s ↔ ∃ d, i ≤ d ∧ d < i + fuel ∧ slot a d = s ∧ stop s = true ∧
        ∀ e, i ≤ e → e < d → stop (slot a e) = false := by
  -- on the fuel: the search stops at this slot or goes on to the next
  induction fuel generalizing i with
  | zero =>
    simp only [probeFrom, reduceCtorEq, Nat.add_zero, false_iff, not_exists]
    omega
  | succ fuel ih =>
    by_cases hs : stop (slot a i) = true
    · simp only [probeFrom, hs, if_true, some.injEq]
      constructor
      · rintro rfl
        exact ⟨i, le_rfl, by omega, rfl, hs, fun e h1 h2 => by omega⟩
      · rintro ⟨d, h1, -, rfl, -, hmin⟩
        rcases Nat.eq_or_lt_of_le h1 with rfl | hlt
        · rfl
        · rw [hmin i le_rfl hlt] at hs
          simp at hs
    · simp only [probeFrom, hs, Bool.false_eq_true, if_false, ih]
      constructor
      · rintro ⟨d, h1, h2, h3, h4, h5⟩
        refine ⟨d, by omega, by omega, h3, h4, fun e he hed => ?_⟩
        rcases Nat.eq_or_lt_of_le he with rfl | hlt
        · simpa using hs
        · exact h5 e hlt hed
      · rintro ⟨d, h1, h2, h3, h4, h5⟩
        refine ⟨d, ?_, by omega, h3, h4, fun e he hed => h5 e (by omega) hed⟩
        rcases Nat.eq_or_lt_of_le h1 with rfl | hlt
        · exact absurd (h3 ▸ h4) hs
        · exact hlt

theorem probe_eq_some_iff {s : Fin N} :
    probe stop a = some s ↔ stop s = true ∧ ∀ d < dist a s, stop (slot a d) = false := by
  rw [probe, probeFrom_eq_some_iff]
  constructor
  · rintro ⟨d, -, hd, rfl, hs, hmin⟩
    rw [dist_slot a (by omega)]
    exact ⟨hs, fun e he => hmin e (Nat.zero_le e) he⟩
  · rintro ⟨hs, hmin⟩
    exact ⟨dist a s, Nat.zero_le _, by simpa using dist_lt a s, slot_dist a s, hs,
      fun e _ he => hmin e he⟩

/-- A slot that stops the probe is found, or an earlier one is. -/
theorem probe_isSome_of_stop {s : Fin N} (hs : stop s = true) : ∃ s', probe stop a = some s' := by
  classical
  have hex : ∃ d, stop (slot a d) = true := ⟨dist a s, by rwa [slot_dist]⟩
  have hle : Nat.find hex ≤ dist a s := Nat.find_min' hex (by rwa [slot_dist])
  have hlt : Nat.find hex < N := lt_of_le_of_lt hle (dist_lt a s)
  refine ⟨slot a (Nat.find hex), probe_eq_some_iff.mpr ⟨Nat.find_spec hex, fun d hd => ?_⟩⟩
  rw [dist_slot a hlt] at hd
  simpa using Nat.find_min hex hd

theorem probe_eq_none_iff : probe stop a = none ↔ ∀ s, stop s = false := by
  constructor
  · intro h s
    by_contra hs
    obtain ⟨s', hs'⟩ := probe_isSome_of_stop (a := a) (by simpa using hs)
    simp [h] at hs'
  · intro h
    rw [eq_none_iff_forall_ne_some]
    intro s hs
    have := (probe_eq_some_iff.mp hs).1
    simp [h s] at this

end Probe

/-! ### Tables and their invariant -/

variable {N : ℕ} {K : Type*}

/-- What each slot holds. -/
abbrev Table (N : ℕ) (K : Type*) := Fin N → Option K

/-- The key is in some slot. -/
def Mem (T : Table N K) (k : K) : Prop := ∃ s, T s = some k

/-- Store a key in a slot. -/
def put (T : Table N K) (s : Fin N) (k : K) : Table N K := Function.update T s (some k)

/-- Empty a slot. -/
def clear (T : Table N K) (s : Fin N) : Table N K := Function.update T s none

/-- The slots a probe for room stops at. -/
def isHole (T : Table N K) (s : Fin N) : Bool := (T s).isNone

@[simp]
theorem put_self (T : Table N K) (s : Fin N) (k : K) : put T s k s = some k := by
  simp [put]

@[simp]
theorem clear_self (T : Table N K) (s : Fin N) : clear T s s = none := by
  simp [clear]

variable {T U : Table N K} {k k' : K}

theorem put_of_ne {s s' : Fin N} (h : s' ≠ s) : put T s k s' = T s' := by
  simp [put, h]

theorem clear_of_ne {s s' : Fin N} (h : s' ≠ s) : clear T s s' = T s' := by
  simp [clear, h]

@[simp]
theorem isHole_eq_true {s : Fin N} : isHole T s = true ↔ T s = none := by
  simp [isHole]

@[simp]
theorem isHole_eq_false {s : Fin N} : isHole T s = false ↔ T s ≠ none := by
  simp [isHole, isSome_iff_ne_none]

/-- Storing a key in a hole adds that key and keeps the others. -/
theorem mem_put_iff {s : Fin N} (hs : T s = none) : Mem (put T s k) k' ↔ k' = k ∨ Mem T k' := by
  constructor
  · rintro ⟨s', hs'⟩
    by_cases heq : s' = s
    · subst heq
      rw [put_self, some.injEq] at hs'
      exact Or.inl hs'.symm
    · exact Or.inr ⟨s', by rwa [put_of_ne heq] at hs'⟩
  · rintro (rfl | ⟨s', hs'⟩)
    · exact ⟨s, put_self T s _⟩
    · refine ⟨s', ?_⟩
      rw [put_of_ne]
      · exact hs'
      · rintro rfl
        simp [hs] at hs'

variable [NeZero N] (home : K → Fin N)

/-- In the coordinates of the origin `o`, no probe path wraps, and every slot from a key's
home to the key is occupied. -/
def Placed (o : Fin N) (T : Table N K) : Prop :=
  ∀ s k, T s = some k → dist o (home k) ≤ dist o s ∧
    ∀ x, dist o (home k) ≤ x → x < dist o s → T (slot o x) ≠ none

/-- The table invariant: no key is stored twice, and some origin places every key. -/
structure WellFormed (T : Table N K) : Prop where
  inj : ∀ {s s' k}, T s = some k → T s' = some k → s = s'
  placed : ∃ o, Placed home o T

variable {home}

/-- Under any origin, the slots on the probe path of a stored key are occupied. -/
theorem Placed.path {o : Fin N} (h : Placed home o T) {s : Fin N}
    (hs : T s = some k) (hd : d < dist (home k) s) : T (slot (home k) d) ≠ none := by
  obtain ⟨hle, hocc⟩ := h s k hs
  rw [dist_eq_sub hle] at hd
  rw [slot_eq_slot_origin o]
  exact hocc _ (by omega) (by omega)

/-- An empty slot can always serve as the end of the table. -/
theorem Placed.of_hole {o p : Fin N} (h : Placed home o T) (hp : T p = none) :
    Placed home (slot p 1) T := by
  intro s k hs
  have hpath : ∀ d < dist (home k) s, T (slot (home k) d) ≠ none := fun d hd => h.path hs hd
  have hle : dist (slot p 1) (home k) ≤ dist (slot p 1) s := by
    by_contra hlt
    -- otherwise the path from `home k` to `s` runs over the hole
    have hlast := dist_slot_one_self p
    have hhp : dist (home k) p = N - 1 - dist (slot p 1) (home k) := by
      rw [dist_eq_sub (o := slot p 1) (by have := dist_lt (slot p 1) (home k); omega), hlast]
    have hsk : dist s (home k) = dist (slot p 1) (home k) - dist (slot p 1) s :=
      dist_eq_sub (by omega)
    have hks : dist (home k) s = N - dist s (home k) := dist_eq_size_sub (by omega)
    have := dist_lt (slot p 1) (home k)
    exact hpath (dist (home k) p) (by omega) (by rwa [slot_dist])
  refine ⟨hle, fun x hx1 hx2 => ?_⟩
  have := hpath (x - dist (slot p 1) (home k)) (by rw [dist_eq_sub hle]; omega)
  rwa [slot_eq_slot_origin (slot p 1), Nat.add_sub_cancel' hx1] at this

/-! ### Lookup -/

section Lookup

variable [DecidableEq K]

/-- A lookup stops at an empty slot or at the key. -/
def stopsAt (T : Table N K) (k : K) (s : Fin N) : Bool := T s = none || T s = some k

/-- A stored key is found where it is stored. -/
theorem WellFormed.probe_of_mem (h : WellFormed home T) {s : Fin N}
    (hs : T s = some k) : probe (stopsAt T k) (home k) = some s := by
  obtain ⟨o, ho⟩ := h.placed
  refine probe_eq_some_iff.mpr ⟨by simp [stopsAt, hs], fun d hd => ?_⟩
  have hocc := ho.path hs hd
  have hne : T (slot (home k) d) ≠ some k := by
    intro hc
    have hdN : d < N := hd.trans (dist_lt _ _)
    rw [← h.inj hc hs, dist_slot (home k) hdN] at hd
    exact lt_irrefl d hd
  simp [stopsAt, hocc, hne]

/-- Lookup is exact: the probe from the home of `k` stops at a slot holding `k` exactly when
that slot holds `k`. -/
theorem WellFormed.probe_iff (h : WellFormed home T) {s : Fin N} :
    (probe (stopsAt T k) (home k) = some s ∧ T s ≠ none) ↔ T s = some k := by
  constructor
  · rintro ⟨hp, hs⟩
    have := (probe_eq_some_iff.mp hp).1
    simpa [stopsAt, hs] using this
  · intro hs
    exact ⟨h.probe_of_mem hs, by simp [hs]⟩

end Lookup

/-! ### Insertion -/

/-- Insertion at the first hole after the home slot keeps the invariant. The origin becomes
the slot after the one just filled. -/
theorem WellFormed.insert (h : WellFormed home T) {s : Fin N}
    (hk : ¬ Mem T k) (hs : probe (isHole T) (home k) = some s) :
    WellFormed home (put T s k) := by
  obtain ⟨hhole, hmin⟩ := probe_eq_some_iff.mp hs
  rw [isHole_eq_true] at hhole
  obtain ⟨o, ho⟩ := h.placed
  refine ⟨fun {s₁ s₂ k'} h₁ h₂ => ?_, slot s 1, fun s' k' hs' => ?_⟩
  · by_cases e₁ : s₁ = s <;> by_cases e₂ : s₂ = s
    · rw [e₁, e₂]
    · rw [e₁, put_self] at h₁
      rw [put_of_ne e₂, ← h₁] at h₂
      exact absurd ⟨s₂, h₂⟩ hk
    · rw [e₂, put_self] at h₂
      rw [put_of_ne e₁, ← h₂] at h₁
      exact absurd ⟨s₁, h₁⟩ hk
    · rw [put_of_ne e₁] at h₁
      rw [put_of_ne e₂] at h₂
      exact h.inj h₁ h₂
  · by_cases he : s' = s
    · subst he
      rw [put_self, some.injEq] at hs'
      subst hs'
      -- seen from the slot after it, the filled slot is the farthest one
      have hle : dist (slot s' 1) (home k) ≤ dist (slot s' 1) s' := by
        rw [dist_slot_one_self]
        have := dist_lt (slot s' 1) (home k)
        omega
      refine ⟨hle, fun x hx1 hx2 => ?_⟩
      have hd := hmin (x - dist (slot s' 1) (home k)) (by rw [dist_eq_sub hle]; omega)
      rw [slot_eq_slot_origin (slot s' 1), Nat.add_sub_cancel' hx1, isHole_eq_false] at hd
      rw [put_of_ne]
      · exact hd
      · intro hc
        rw [hc] at hd
        exact hd hhole
    · rw [put_of_ne he] at hs'
      obtain ⟨hle, hocc⟩ := ho.of_hole hhole s' k' hs'
      refine ⟨hle, fun x hx1 hx2 => ?_⟩
      have hd := hocc x hx1 hx2
      rw [put_of_ne]
      · exact hd
      · intro hc
        rw [hc] at hd
        exact hd hhole

/-! ### Capacity -/

section Capacity

variable {T : Table N K} {S : Finset K}

/-- There is a hole exactly when fewer keys than slots are stored. -/
theorem WellFormed.exists_hole_iff (h : WellFormed home T) (hS : ∀ k, k ∈ S ↔ Mem T k) :
    (∃ s, T s = none) ↔ S.card < N := by
  constructor
  · rintro ⟨s, hs⟩
    choose f hf using fun k : S => (hS k).mp k.2
    have hinj : Function.Injective f := fun k₁ k₂ h => by
      have h₁ := hf k₁
      rw [h, hf k₂, some.injEq] at h₁
      exact Subtype.ext h₁.symm
    have hns : ¬ Function.Surjective f := fun hsurj => by
      obtain ⟨k, rfl⟩ := hsurj s
      simp [hf k] at hs
    simpa using Fintype.card_lt_of_injective_not_surjective f hinj hns
  · classical
    intro hlt
    by_contra hfull
    push Not at hfull
    choose g hg using fun s => ne_none_iff_exists'.mp (hfull s)
    have hinj : Function.Injective g := fun s₁ s₂ e => h.inj (hg s₁) (by rw [e]; exact hg s₂)
    have hsub : Finset.univ.image g ⊆ S := by
      intro k hk
      obtain ⟨s, -, rfl⟩ := Finset.mem_image.mp hk
      exact (hS _).mpr ⟨s, hg s⟩
    have hcard := Finset.card_le_card hsub
    rw [Finset.card_image_of_injective _ hinj, Finset.card_univ, Fintype.card_fin] at hcard
    omega

end Capacity

/-! ### Deletion -/

/-- Store a key at the first hole after its home slot. -/
def reinsert (home : K → Fin N) (T : Table N K) (k : K) : Table N K :=
  match probe (isHole T) (home k) with
  | some s => put T s k
  | none => T

/-- Re-insert the keys found `n, n + 1, …` places after `idx`, stopping at a hole. -/
def rehash (home : K → Fin N) (idx : Fin N) (T : Table N K) (n : ℕ) : ℕ → Table N K
  | 0 => T
  | fuel + 1 =>
    match T (slot idx n) with
    | none => T
    | some k => rehash home idx (reinsert home (clear T (slot idx n)) k) (n + 1) fuel

omit [NeZero N] in
/-- A key that is taken out of its only slot is nowhere in the table. -/
theorem not_mem_clear {s : Fin N}
    (hinj : ∀ {s s' k}, T s = some k → T s' = some k → s = s') (hs : T s = some k) :
    ¬ Mem (clear T s) k := by
  rintro ⟨s', hs'⟩
  by_cases e : s' = s
  · simp [e] at hs'
  · rw [clear_of_ne e] at hs'
    exact e (hinj hs' hs)

/-- Moving a key keeps the keys in distinct slots. -/
theorem reinsert_clear_inj {s : Fin N}
    (hinj : ∀ {s s' k}, T s = some k → T s' = some k → s = s') (hs : T s = some k)
    {s₁ s₂ : Fin N} (h₁ : reinsert home (clear T s) k s₁ = some k')
    (h₂ : reinsert home (clear T s) k s₂ = some k') : s₁ = s₂ := by
  -- what the cleared table still holds, the table held, and it is another key
  have hcl : ∀ {s' k'}, clear T s s' = some k' → T s' = some k' ∧ k' ≠ k := by
    intro s' k' h
    refine ⟨?_, ?_⟩
    · by_cases e : s' = s
      · simp [e] at h
      · rwa [clear_of_ne e] at h
    · rintro rfl
      exact not_mem_clear hinj hs ⟨s', h⟩
  cases hp : probe (isHole (clear T s)) (home k) with
  | none =>
    simp only [reinsert, hp] at h₁ h₂
    exact hinj (hcl h₁).1 (hcl h₂).1
  | some p =>
    simp only [reinsert, hp] at h₁ h₂
    by_cases e₁ : s₁ = p <;> by_cases e₂ : s₂ = p
    · rw [e₁, e₂]
    · rw [e₁, put_self, some.injEq] at h₁
      rw [put_of_ne e₂] at h₂
      exact absurd h₁.symm (hcl h₂).2
    · rw [e₂, put_self, some.injEq] at h₂
      rw [put_of_ne e₁] at h₁
      exact absurd h₂.symm (hcl h₁).2
    · rw [put_of_ne e₁] at h₁
      rw [put_of_ne e₂] at h₂
      exact hinj (hcl h₁).1 (hcl h₂).1

/-- Empty the slot `idx` and re-insert the rest of its cluster, one turn at most. -/
def remove (home : K → Fin N) (T : Table N K) (idx : Fin N) : Table N K :=
  rehash home idx (clear T idx) 1 (N - 1)

/-- The loop invariant of `rehash`, in the coordinates of `o`, before the key at coordinate
`j` is moved; `i` is the coordinate of the emptied slot. Below `i` and from `j` on the table
is still `T`, and everything below `j` is placed. -/
private structure Shifting (home : K → Fin N) (o : Fin N) (T : Table N K) (i : ℕ)
    (U : Table N K) (j : ℕ) : Prop where
  lt : i < j
  inj : ∀ {s s' k}, U s = some k → U s' = some k → s = s'
  mem : ∀ k, Mem U k ↔ Mem (clear T (slot o i)) k
  outside : ∀ x < N, x < i ∨ j ≤ x → U (slot o x) = T (slot o x)
  placed : ∀ x < j, ∀ k, x < N → U (slot o x) = some k → dist o (home k) ≤ x ∧
    ∀ y, dist o (home k) ≤ y → y < x → U (slot o y) ≠ none

private theorem Shifting.start {o : Fin N} (h : WellFormed home T)
    (ho : Placed home o T) (hi : i < N) :
    Shifting home o T i (clear T (slot o i)) (i + 1) := by
  have hne : ∀ {x}, x < N → x ≠ i → clear T (slot o i) (slot o x) = T (slot o x) :=
    fun {x} hx hxi => clear_of_ne (mt (slot_inj hx hi).mp hxi)
  refine ⟨by omega, fun {s s' k} h₁ h₂ => ?_, fun k => Iff.rfl, fun x hx hout => hne hx (by omega),
    fun x hx k hxN hk => ?_⟩
  · have aux : ∀ {s}, clear T (slot o i) s = some k → T s = some k := by
      intro s hs
      by_cases e : s = slot o i
      · simp [e] at hs
      · rwa [clear_of_ne e] at hs
    exact h.inj (aux h₁) (aux h₂)
  · by_cases e : x = i
    · simp [e] at hk
    · rw [hne hxN e] at hk
      obtain ⟨hle, hocc⟩ := ho _ _ hk
      rw [dist_slot o hxN] at hle hocc
      exact ⟨hle, fun y hy1 hy2 => by rw [hne (by omega) (by omega)]; exact hocc y hy1 hy2⟩

/-- When the loop meets a hole, or the end of the table, every key is placed. -/
private theorem Shifting.placed_of_stop {o : Fin N} {j : ℕ}
    (hT : Placed home o T) (h : Shifting home o T i U j)
    (hstop : j = N ∨ (j < N ∧ U (slot o j) = none)) : Placed home o U := by
  intro s k hs
  rw [← slot_dist o s] at hs
  have hsN := dist_lt o s
  rcases Nat.lt_or_ge (dist o s) j with hlt | hge
  · exact h.placed _ hlt k hsN hs
  · rcases hstop with rfl | ⟨hjN, hj⟩
    · omega
    · -- the hole at `j` was already a hole of `T`, so the path starts after it
      have hT_hole : T (slot o j) = none := by rw [← h.outside j hjN (Or.inr le_rfl), hj]
      rw [h.outside _ hsN (Or.inr hge)] at hs
      obtain ⟨hle, hocc⟩ := hT _ _ hs
      rw [dist_slot o hsN] at hle hocc
      have hne : dist o s ≠ j := by
        intro e
        rw [e, hT_hole] at hs
        simp at hs
      have hhome : j < dist o (home k) := by
        by_contra hc
        exact hocc j (by omega) (by omega) hT_hole
      exact ⟨hle, fun y hy1 hy2 => by
        rw [h.outside y (by omega) (Or.inr (by omega))]; exact hocc y hy1 hy2⟩

/-- One turn of the loop: the key at coordinate `j` moves to the first hole after its home,
which lies between the emptied slot and `j`. -/
private theorem Shifting.step {o : Fin N} {j : ℕ}
    (hT : Placed home o T) (h : Shifting home o T i U j) (hj : j < N)
    (hk : U (slot o j) = some k) :
    Shifting home o T i (reinsert home (clear U (slot o j)) k) (j + 1) := by
  have hkT : T (slot o j) = some k := by rw [← h.outside j hj (Or.inr le_rfl), hk]
  obtain ⟨hhome, hpath⟩ := hT _ _ hkT
  rw [dist_slot o hj] at hhome hpath
  obtain ⟨p, hp⟩ : ∃ p, probe (isHole (clear U (slot o j))) (home k) = some p :=
    probe_isSome_of_stop (s := slot o j) (by simp)
  obtain ⟨hhole, hmin⟩ := probe_eq_some_iff.mp hp
  rw [isHole_eq_true] at hhole
  -- the coordinate of the hole
  have hpj : dist (home k) p ≤ j - dist o (home k) := by
    by_contra hc
    have := hmin (j - dist o (home k)) (by omega)
    rw [slot_eq_slot_origin o (home k), Nat.add_sub_cancel' hhome] at this
    simp at this
  obtain ⟨q, hq⟩ : ∃ q, q = dist o (home k) + dist (home k) p := ⟨_, rfl⟩
  have hqp : slot o q = p := by rw [hq, ← slot_eq_slot_origin o, slot_dist]
  have hqj : q ≤ j := by omega
  have hocc : ∀ y, dist o (home k) ≤ y → y < q → clear U (slot o j) (slot o y) ≠ none := by
    intro y hy1 hy2
    have := hmin (y - dist o (home k)) (by omega)
    rwa [slot_eq_slot_origin o (home k), Nat.add_sub_cancel' hy1, isHole_eq_false] at this
  have hclear : ∀ {x}, x < N → x ≠ j → clear U (slot o j) (slot o x) = U (slot o x) :=
    fun {x} hx hxj => clear_of_ne (mt (slot_inj hx hj).mp hxj)
  have hij := h.lt
  have hqi : i ≤ q := by
    by_contra hc
    have hTq : T (slot o q) = none := by
      rw [← h.outside q (by omega) (Or.inl (by omega)), ← hclear (by omega) (by omega), hqp]
      exact hhole
    exact hpath q (by omega) (by omega) hTq
  have hR : reinsert home (clear U (slot o j)) k = put (clear U (slot o j)) (slot o q) k := by
    simp [reinsert, hp, hqp]
  have hput : ∀ {x}, x < N → x ≠ q → put (clear U (slot o j)) (slot o q) k (slot o x) =
      clear U (slot o j) (slot o x) :=
    fun {x} hx hxq => put_of_ne (mt (slot_inj hx (by omega)).mp hxq)
  have hholeq : clear U (slot o j) (slot o q) = none := by rw [hqp]; exact hhole
  have hcl : ∀ {s k'}, clear U (slot o j) s = some k' → U s = some k' := by
    intro s k' hs
    by_cases e : s = slot o j
    · simp [e] at hs
    · rwa [clear_of_ne e] at hs
  rw [hR]
  refine ⟨by omega, fun {s s' k'} h₁ h₂ => ?_, fun k' => ?_, fun x hx hout => ?_,
    fun x hx k' hxN hk' => ?_⟩
  · rw [← hR] at h₁ h₂
    exact reinsert_clear_inj h.inj hk h₁ h₂
  · rw [mem_put_iff hholeq, ← h.mem k']
    constructor
    · rintro (rfl | ⟨s, hs⟩)
      · exact ⟨_, hk⟩
      · exact ⟨s, hcl hs⟩
    · rintro ⟨s, hs⟩
      by_cases e : s = slot o j
      · rw [e, hk, some.injEq] at hs
        exact Or.inl hs.symm
      · exact Or.inr ⟨s, by rwa [clear_of_ne e]⟩
  · rw [hput hx (by omega), hclear hx (by omega), h.outside x hx (by omega)]
  · by_cases e : x = q
    · subst e
      rw [put_self, some.injEq] at hk'
      subst hk'
      exact ⟨by omega, fun y hy1 hy2 => by
        rw [hput (by omega) (by omega)]; exact hocc y hy1 hy2⟩
    · rw [hput hxN e] at hk'
      have hxj : x ≠ j := by
        rintro rfl
        simp at hk'
      rw [hclear hxN hxj] at hk'
      obtain ⟨hle, hoccx⟩ := h.placed x (by omega) k' hxN hk'
      refine ⟨hle, fun y hy1 hy2 => ?_⟩
      by_cases ey : y = q
      · simp [ey]
      · rw [hput (by omega) ey, hclear (by omega) (by omega)]
        exact hoccx y hy1 hy2

/-- In a well-placed table, taking a key out and re-inserting it changes nothing. -/
private theorem Placed.reinsert_eq {o : Fin N} (h : Placed home o U) {s : Fin N}
    (hs : U s = some k) : reinsert home (clear U s) k = U := by
  have hp : probe (isHole (clear U s)) (home k) = some s := by
    refine probe_eq_some_iff.mpr ⟨by simp, fun d hd => ?_⟩
    rw [isHole_eq_false, clear_of_ne]
    · exact h.path hs hd
    · intro e
      have hdN : d < N := hd.trans (dist_lt _ _)
      rw [← e, dist_slot _ hdN] at hd
      exact lt_irrefl d hd
  simp only [reinsert, hp]
  funext s'
  by_cases e : s' = s
  · rw [e, put_self, hs]
  · rw [put_of_ne e, clear_of_ne e]

private theorem Placed.rehash_eq {o : Fin N} (h : Placed home o U) (idx : Fin N)
    (n fuel : ℕ) : rehash home idx U n fuel = U := by
  induction fuel generalizing n with
  | zero => rfl
  | succ fuel ih =>
    cases hs : U (slot idx n) with
    | none => simp [rehash, hs]
    | some k => simp [rehash, hs, h.reinsert_eq hs, ih]

/-- The whole loop. Up to the end of the table (in the coordinates of `o`) it maintains
`Shifting`; past it, the table is placed and the remaining turns change nothing. -/
private theorem Shifting.rehash {o : Fin N} (hT : Placed home o T) {idx : Fin N} {n fuel : ℕ}
    (h : Shifting home o T (dist o idx) U (dist o idx + n))
    (hj : dist o idx + n ≤ N) (hn : n + fuel = N) :
    WellFormed home (rehash home idx U n fuel) ∧
      ∀ k, Mem (LinearProbing.rehash home idx U n fuel) k ↔ Mem (clear T idx) k := by
  have hmem : ∀ {U : Table N K} {j}, Shifting home o T (dist o idx) U j →
      ∀ k, Mem U k ↔ Mem (clear T idx) k := fun hU k => by rw [hU.mem k, slot_dist]
  induction fuel generalizing U n with
  | zero =>
    exact ⟨⟨h.inj, o, h.placed_of_stop hT (Or.inl (by omega))⟩, hmem h⟩
  | succ fuel ih =>
    rcases Nat.eq_or_lt_of_le hj with hjN | hjN
    · have hp := h.placed_of_stop hT (Or.inl hjN)
      rw [hp.rehash_eq]
      exact ⟨⟨h.inj, o, hp⟩, hmem h⟩
    · have hslot : slot idx n = slot o (dist o idx + n) := slot_eq_slot_origin o idx n
      cases hs : U (slot idx n) with
      | none =>
        simp only [LinearProbing.rehash, hs]
        rw [hslot] at hs
        exact ⟨⟨h.inj, o, h.placed_of_stop hT (Or.inr ⟨hjN, hs⟩)⟩, hmem h⟩
      | some k =>
        simp only [LinearProbing.rehash, hs]
        rw [hslot] at hs ⊢
        exact ih (h.step hT hjN hs) (by omega) (by omega)

section Remove

variable {T : Table N K} {idx : Fin N} {k : K}

private theorem WellFormed.remove_spec (h : WellFormed home T) (idx : Fin N) :
    WellFormed home (LinearProbing.remove home T idx) ∧
      ∀ k, Mem (LinearProbing.remove home T idx) k ↔ Mem (clear T idx) k := by
  obtain ⟨o, ho⟩ := h.placed
  have hlt := dist_lt o idx
  have hstart := Shifting.start h ho hlt
  rw [slot_dist] at hstart
  exact hstart.rehash ho (by omega) (by omega)

/-- Deletion keeps the invariant, whatever the layout of the cluster and also in a full
table. -/
theorem WellFormed.remove (h : WellFormed home T) (idx : Fin N) :
    WellFormed home (LinearProbing.remove home T idx) :=
  (h.remove_spec idx).1

/-- Deletion removes the key of the slot and no other. -/
theorem WellFormed.mem_remove_iff (h : WellFormed home T) (hk : T idx = some k) :
    Mem (LinearProbing.remove home T idx) k' ↔ Mem T k' ∧ k' ≠ k := by
  rw [(h.remove_spec idx).2]
  constructor
  · rintro ⟨s, hs⟩
    by_cases e : s = idx
    · simp [e] at hs
    · rw [clear_of_ne e] at hs
      refine ⟨⟨s, hs⟩, ?_⟩
      rintro rfl
      exact e (h.inj hs hk)
  · rintro ⟨⟨s, hs⟩, hne⟩
    refine ⟨s, ?_⟩
    rw [clear_of_ne]
    · exact hs
    · rintro rfl
      rw [hk, some.injEq] at hs
      exact hne hs.symm

end Remove

end LinearProbing
