import AgentSight.Http.Event

/-!
# UTF-8 decoding

Facts about the decoder of `Http/Event.lean`: it reads back the encoding of every character,
wherever it stands, and a text decodes piece by piece.
-/

namespace AgentSight.Http

open List UInt8

/-- The characters and invalid parts of a whole text. -/
def utf8Chars (bytes : List UInt8) : List (Option Char) := decodeChars bytes.length bytes

theorem fromUtf8Lossy_eq (bytes : List UInt8) :
    fromUtf8Lossy bytes =
      String.ofList ((utf8Chars bytes).map (·.getD (Char.ofNat 0xFFFD))) := rfl

/-- Decoding a character takes at least its first byte. -/
theorem length_decodeChar (b : UInt8) (rest : List UInt8) :
    (decodeChar b rest).2.length ≤ rest.length := by
  unfold decodeChar
  dsimp only
  repeat' split
  all_goals simp [length_cons, length_nil]
  all_goals omega

/-- More fuel than bytes changes nothing. -/
theorem decodeChars_of_le {fuel : ℕ} {bytes : List UInt8} (h : bytes.length ≤ fuel) :
    decodeChars fuel bytes = utf8Chars bytes := by
  unfold utf8Chars
  induction fuel using Nat.strong_induction_on generalizing bytes with
  | _ fuel ih =>
    cases bytes with
    | nil => cases fuel <;> rfl
    | cons b rest =>
      obtain ⟨n, rfl⟩ : ∃ n, fuel = n + 1 := ⟨fuel - 1, by simp at h; omega⟩
      have hlen := length_decodeChar b rest
      simp only [length_cons] at h
      simp only [decodeChars, length_cons]
      rw [ih n (by omega) (by omega), ih rest.length (by omega) hlen]

theorem utf8Chars_cons (b : UInt8) (rest : List UInt8) :
    utf8Chars (b :: rest) = (decodeChar b rest).1 :: utf8Chars (decodeChar b rest).2 := by
  have h : utf8Chars (b :: rest) =
      (decodeChar b rest).1 :: decodeChars rest.length (decodeChar b rest).2 := rfl
  rw [h, decodeChars_of_le (length_decodeChar b rest)]

variable {b : UInt8}

/-- An ASCII byte is its own character. -/
theorem utf8Chars_ascii (h : b.toNat < 0x80) (rest : List UInt8) :
    utf8Chars (b :: rest) = some (Char.ofNat b.toNat) :: utf8Chars rest := by
  have hlt : b < 0x80 := UInt8.lt_iff_toNat_lt.mpr (by simpa using h)
  have hchar : decodeChar b rest = (some (Char.ofNat b.toNat), rest) := by
    unfold decodeChar
    rw [if_pos hlt]
  rw [utf8Chars_cons, hchar]

/-- A run of ASCII bytes decodes to its characters. -/
theorem utf8Chars_ascii_append {bytes : List UInt8} (h : ∀ b ∈ bytes, b.toNat < 0x80)
    (rest : List UInt8) :
    utf8Chars (bytes ++ rest) =
      bytes.map (fun b => some (Char.ofNat b.toNat)) ++ utf8Chars rest := by
  induction bytes with
  | nil => rfl
  | cons b bytes ih =>
    rw [cons_append, utf8Chars_ascii (h b mem_cons_self),
      ih fun c hc => h c (mem_cons_of_mem _ hc)]
    rfl

variable {n m : ℕ}

theorem toNat_ofNat_of_lt (h : n < 256) : (UInt8.ofNat n).toNat = n := by
  exact Nat.mod_eq_of_lt h

theorem isContinuation_ofNat (h : n < 0x40) :
    isContinuation (UInt8.ofNat (n + 0x80)) = true := by
  have hn := toNat_ofNat_of_lt (n := n + 0x80) (by omega)
  simp only [isContinuation, le_iff_toNat_le, Bool.and_eq_true, decide_eq_true_eq, hn,
    reduceToNat]
  omega

/-- The byte that continues a character with the six bits of `n`. -/
def continuation (n : ℕ) : UInt8 := UInt8.ofNat (n + 0x80)

theorem toNat_continuation (h : n < 0x40) : (continuation n).toNat = n + 0x80 :=
  toNat_ofNat_of_lt (by omega)

theorem isContinuation_continuation (h : n < 0x40) :
    isContinuation (continuation n) = true := isContinuation_ofNat h

variable {base : ℕ}

/-- The lead bytes `base + n` of a range. -/
theorem lead_mem_iff {low high : UInt8} (h : n + base < 256) :
    (low ≤ UInt8.ofNat (n + base) && UInt8.ofNat (n + base) ≤ high) = true ↔
      low.toNat ≤ n + base ∧ n + base ≤ high.toNat := by
  simp only [le_iff_toNat_le, Bool.and_eq_true, decide_eq_true_eq, toNat_ofNat_of_lt h]

theorem not_lead_lt (h : n + base < 256) (hbase : 0x80 ≤ base) :
    ¬ UInt8.ofNat (n + base) < 0x80 := by
  simp only [lt_iff_toNat_lt, toNat_ofNat_of_lt h, reduceToNat]
  omega

/-- The first lead byte of a range raises the least continuation byte after it. -/
theorem bound_le_continuation (lead bound : UInt8) (h : n + base < 256) (hm : m < 0x40)
    (hbound : n + base = lead.toNat → bound.toNat ≤ m + 0x80) :
    (if UInt8.ofNat (n + base) = lead then bound else 0x80) ≤ continuation m := by
  rw [le_iff_toNat_le, toNat_continuation hm]
  split
  · next hlead => exact hbound (hlead ▸ (toNat_ofNat_of_lt h).symm)
  · simp

/-- The last lead byte of a range lowers the greatest continuation byte after it. -/
theorem continuation_le_bound (lead bound : UInt8) (h : n + base < 256) (hm : m < 0x40)
    (hbound : n + base = lead.toNat → m + 0x80 ≤ bound.toNat) :
    continuation m ≤ if UInt8.ofNat (n + base) = lead then bound else 0xBF := by
  rw [le_iff_toNat_le, toNat_continuation hm]
  split
  · next hlead => exact hbound (hlead ▸ (toNat_ofNat_of_lt h).symm)
  · simpa using by omega

theorem decodeChar_two (hn : 2 ≤ n ∧ n < 0x20) (hm : m < 0x40) (rest : List UInt8) :
    decodeChar (UInt8.ofNat (n + 0xC0)) (continuation m :: rest) =
      (some (Char.ofNat (n * 64 + m)), rest) := by
  have hlt : n + 0xC0 < 256 := by omega
  have hsum : (n + 0xC0) % 32 * 64 + (m + 0x80) % 64 = n * 64 + m := by omega
  unfold decodeChar
  rw [if_neg (not_lead_lt hlt (by omega)), if_pos ((lead_mem_iff hlt).mpr (by simp; omega))]
  simp only [isContinuation_continuation hm, if_true, codePoint, List.foldl,
    toNat_ofNat_of_lt hlt, toNat_continuation hm, hsum]

theorem decodeChar_three {k : ℕ} (hn : n < 0x10) (hm : m < 0x40) (hk : k < 0x40)
    (hoverlong : n = 0 → 0x20 ≤ m) (hsurrogate : n = 13 → m < 0x20) (rest : List UInt8) :
    decodeChar (UInt8.ofNat (n + 0xE0)) (continuation m :: continuation k :: rest) =
      (some (Char.ofNat ((n * 64 + m) * 64 + k)), rest) := by
  have hlt : n + 0xE0 < 256 := by omega
  have hsum : ((n + 0xE0) % 16 * 64 + (m + 0x80) % 64) * 64 + (k + 0x80) % 64 =
      (n * 64 + m) * 64 + k := by omega
  have hlow := bound_le_continuation 0xE0 0xA0 hlt hm (by simp; omega)
  have hhigh := continuation_le_bound 0xED 0x9F hlt hm (by simp; omega)
  unfold decodeChar
  rw [if_neg (not_lead_lt hlt (by omega)), if_neg (mt (lead_mem_iff hlt).mp (by simp)),
    if_pos ((lead_mem_iff hlt).mpr (by simp; omega))]
  simp only [hlow, hhigh, decide_true, Bool.and_self, isContinuation_continuation hk, if_true,
    codePoint, List.foldl, toNat_ofNat_of_lt hlt, toNat_continuation hm, toNat_continuation hk,
    hsum]

theorem decodeChar_four {k j : ℕ} (hn : n ≤ 4) (hm : m < 0x40) (hk : k < 0x40)
    (hj : j < 0x40) (hoverlong : n = 0 → 0x10 ≤ m) (hrange : n = 4 → m < 0x10)
    (rest : List UInt8) :
    decodeChar (UInt8.ofNat (n + 0xF0))
        (continuation m :: continuation k :: continuation j :: rest) =
      (some (Char.ofNat (((n * 64 + m) * 64 + k) * 64 + j)), rest) := by
  have hlt : n + 0xF0 < 256 := by omega
  have hsum : (((n + 0xF0) % 8 * 64 + (m + 0x80) % 64) * 64 + (k + 0x80) % 64) * 64 +
      (j + 0x80) % 64 = ((n * 64 + m) * 64 + k) * 64 + j := by omega
  have hlow := bound_le_continuation 0xF0 0x90 hlt hm (by simp; omega)
  have hhigh := continuation_le_bound 0xF4 0x8F hlt hm (by simp; omega)
  unfold decodeChar
  rw [if_neg (not_lead_lt hlt (by omega)), if_neg (mt (lead_mem_iff hlt).mp (by simp)),
    if_neg (mt (lead_mem_iff hlt).mp (by simp)), if_pos ((lead_mem_iff hlt).mpr (by simp; omega))]
  simp only [hlow, hhigh, decide_true, Bool.and_self, isContinuation_continuation hk,
    isContinuation_continuation hj, if_true, codePoint, List.foldl, toNat_ofNat_of_lt hlt,
    toNat_continuation hm, toNat_continuation hk, toNat_continuation hj, hsum]

theorem utf8EncodeChar_eq (c : Char) :
    String.utf8EncodeChar c =
      if c.toNat ≤ 0x7F then [UInt8.ofNat c.toNat]
      else if c.toNat ≤ 0x7FF then
        [UInt8.ofNat (c.toNat / 64 % 0x20 + 0xC0), continuation (c.toNat % 0x40)]
      else if c.toNat ≤ 0xFFFF then
        [UInt8.ofNat (c.toNat / 4096 % 0x10 + 0xE0), continuation (c.toNat / 64 % 0x40),
          continuation (c.toNat % 0x40)]
      else
        [UInt8.ofNat (c.toNat / 262144 % 0x08 + 0xF0), continuation (c.toNat / 4096 % 0x40),
          continuation (c.toNat / 64 % 0x40), continuation (c.toNat % 0x40)] := rfl

/-- **The encoding of a character decodes to it**, whatever follows. -/
theorem utf8Chars_encode (c : Char) (rest : List UInt8) :
    utf8Chars (String.utf8EncodeChar c ++ rest) = some c :: utf8Chars rest := by
  have hvalid : c.toNat < 0xD800 ∨ (0xDFFF < c.toNat ∧ c.toNat < 0x110000) := c.valid
  have hchar : ∀ n, n = c.toNat → Char.ofNat n = c := by
    rintro n rfl
    exact Char.ofNat_toNat c
  rw [utf8EncodeChar_eq]
  by_cases h1 : c.toNat ≤ 0x7F
  · have hone := toNat_ofNat_of_lt (n := c.toNat) (by omega)
    rw [if_pos h1, singleton_append, utf8Chars_ascii (by omega), hchar _ hone]
  rw [if_neg h1]
  by_cases h2 : c.toNat ≤ 0x7FF
  · rw [if_pos h2, cons_append, singleton_append, utf8Chars_cons,
      decodeChar_two (by omega) (by omega), hchar _ (by omega)]
  rw [if_neg h2]
  by_cases h3 : c.toNat ≤ 0xFFFF
  · rw [if_pos h3, cons_append, cons_append, singleton_append, utf8Chars_cons,
      decodeChar_three (by omega) (by omega) (by omega) (by omega) (by omega),
      hchar _ (by omega)]
  · rw [if_neg h3, cons_append, cons_append, cons_append, singleton_append,
      utf8Chars_cons, decodeChar_four (by omega) (by omega) (by omega) (by omega) (by omega)
        (by omega), hchar _ (by omega)]

/-! ### Texts in pieces -/

/-- The text goes on with an ASCII byte or ends. -/
def StartsAscii (rest : List UInt8) : Prop := ∀ b ∈ rest.head?, b.toNat < 0x80

theorem startsAscii_cons (h : b.toNat < 0x80) (rest : List UInt8) :
    StartsAscii (b :: rest) := by
  intro c hc
  obtain rfl : b = c := by simpa using hc
  exact h

theorem not_le_ascii {c low : UInt8} (hc : c.toNat < 0x80) (hlow : 0x80 ≤ low.toNat) :
    ¬ low ≤ c := by
  rw [le_iff_toNat_le]
  omega

variable {rest : List UInt8}

/-- A character does not reach beyond a byte that is ASCII. -/
theorem decodeChar_append (b : UInt8) (l : List UInt8)
    (hrest : StartsAscii rest) :
    decodeChar b (l ++ rest) = ((decodeChar b l).1, (decodeChar b l).2 ++ rest) := by
  cases rest with
  | nil => simp
  | cons a rest =>
    have ha : a.toNat < 0x80 := hrest a rfl
    have hcont : isContinuation a = false := by
      have hlow : ¬ 0x80 ≤ a := not_le_ascii ha (by decide)
      simp [isContinuation, hlow]
    have hthree : ¬ (if b = 0xE0 then 0xA0 else 0x80 : UInt8) ≤ a := by
      apply not_le_ascii ha
      split <;> decide
    have hfour : ¬ (if b = 0xF0 then 0x90 else 0x80 : UInt8) ≤ a := by
      apply not_le_ascii ha
      split <;> decide
    unfold decodeChar
    match l with
    | [] =>
      simp only [nil_append, hcont, hthree, hfour, decide_false, Bool.false_and,
        Bool.false_eq_true, if_false]
      split_ifs <;> rfl
    | [c] =>
      simp only [cons_append, nil_append, hcont, Bool.false_eq_true, if_false]
      split_ifs <;> rfl
    | [c, d] =>
      simp only [cons_append, nil_append, hcont, Bool.false_eq_true, if_false]
      split_ifs <;> rfl
    | c :: d :: e :: l =>
      simp only [cons_append]
      split_ifs <;> rfl

/-- **A text decodes piece by piece** where a piece ends before an ASCII byte. -/
theorem utf8Chars_append (l : List UInt8) (hrest : StartsAscii rest) :
    utf8Chars (l ++ rest) = utf8Chars l ++ utf8Chars rest := by
  induction hn : l.length using Nat.strong_induction_on generalizing l with
  | _ n ih =>
    cases l with
    | nil => rfl
    | cons b l =>
      have hlen := length_decodeChar b l
      simp only [length_cons] at hn
      rw [cons_append, utf8Chars_cons, utf8Chars_cons, decodeChar_append b l hrest,
        ih _ (by omega) _ rfl, cons_append]

theorem toNat_ofNat_of_valid (h : n < 0xD800 ∨ 0xDFFF < n ∧ n < 0x110000) :
    (Char.ofNat n).toNat = n := by
  unfold Char.ofNat
  rw [dif_pos h]
  rfl

/-- What starts with a byte beyond ASCII is a character beyond ASCII. -/
theorem le_toNat_decodeChar (hb : 0x80 ≤ b.toNat) {c : Char}
    (h : (decodeChar b rest).1 = some c) : 0x80 ≤ c.toNat := by
  have hvalid : ∀ n, 0x80 ≤ n ∧ (n < 0xD800 ∨ 0xDFFF < n ∧ n < 0x110000) →
      some (Char.ofNat n) = some c → 0x80 ≤ c.toNat := by
    rintro n ⟨hn, hvalid⟩ heq
    rw [← Option.some_inj.mp heq, toNat_ofNat_of_valid hvalid]
    exact hn
  have hascii : ¬ b < 0x80 := by
    rw [UInt8.lt_iff_toNat_lt]
    simpa using hb
  unfold decodeChar at h
  rw [if_neg hascii] at h
  simp only [isContinuation, Bool.and_eq_true, decide_eq_true_eq, UInt8.le_iff_toNat_le,
    UInt8.reduceToNat, ← UInt8.toNat_inj, codePoint, List.foldl] at h
  -- the bytes that are there; the bounds of the first continuation byte depend on the lead
  match rest with
  | [] => split_ifs at h
  | [d] | [d, e] | d :: e :: f :: rest =>
    simp only [apply_ite UInt8.toNat, UInt8.reduceToNat] at h
    split_ifs at h <;> exact hvalid _ (by omega) h

/-- The characters of `String::from_utf8_lossy`. -/
def lossyChars (bytes : List UInt8) : List Char :=
  (utf8Chars bytes).map (·.getD (Char.ofNat 0xFFFD))

theorem lossyChars_append (l : List UInt8) (hrest : StartsAscii rest) :
    lossyChars (l ++ rest) = lossyChars l ++ lossyChars rest := by
  rw [lossyChars, utf8Chars_append l hrest, map_append]
  rfl

theorem lossyChars_ascii (h : b.toNat < 0x80) (rest : List UInt8) :
    lossyChars (b :: rest) = Char.ofNat b.toNat :: lossyChars rest := by
  rw [lossyChars, utf8Chars_ascii h]
  rfl

theorem decodeChar_suffix (b : UInt8) (rest : List UInt8) : (decodeChar b rest).2 <:+ rest := by
  unfold decodeChar
  dsimp only
  repeat' split
  all_goals simp [suffix_cons_iff]

/-- Bytes beyond ASCII decode to characters beyond ASCII, be they valid or not. -/
theorem le_toNat_of_mem_lossyChars {l : List UInt8} (h : ∀ b ∈ l, 0x80 ≤ b.toNat) :
    ∀ c ∈ lossyChars l, 0x80 ≤ c.toNat := by
  induction hn : l.length using Nat.strong_induction_on generalizing l with
  | _ n ih =>
    cases l with
    | nil => simp [lossyChars, utf8Chars, decodeChars]
    | cons b l =>
      have hlen := length_decodeChar b l
      have hchars : lossyChars (b :: l) =
          (decodeChar b l).1.getD (Char.ofNat 0xFFFD) :: lossyChars (decodeChar b l).2 := by
        rw [lossyChars, utf8Chars_cons]
        rfl
      simp only [length_cons] at hn
      rw [hchars, forall_mem_cons]
      refine ⟨?_, ih _ (by omega) (fun a ha => h a ?_) rfl⟩
      · cases hchar : (decodeChar b l).1 with
        | none => decide
        | some c => exact le_toNat_decodeChar (h b mem_cons_self) hchar
      · exact mem_cons_of_mem _ ((decodeChar_suffix b l).subset ha)

/-- A text is an ASCII byte before a text, or a run beyond ASCII before a text that starts with
an ASCII byte. -/
theorem ascii_induction {P : List UInt8 → Prop} (nil : P [])
    (ascii : ∀ b rest, b.toNat < 0x80 → P rest → P (b :: rest))
    (beyond : ∀ l rest, (∀ b ∈ l, 0x80 ≤ b.toNat) → StartsAscii rest → P rest → P (l ++ rest))
    (bytes : List UInt8) : P bytes := by
  induction hn : bytes.length using Nat.strong_induction_on generalizing bytes with
  | _ n ih =>
    cases bytes with
    | nil => exact nil
    | cons b rest =>
      by_cases hb : b.toNat < 0x80
      · exact ascii b rest hb (ih rest.length (by simp at hn; omega) rest rfl)
      · have hsplit := takeWhile_append_dropWhile (p := fun b : UInt8 => 0x80 ≤ b.toNat)
          (l := b :: rest)
        have hstart : StartsAscii ((b :: rest).dropWhile fun b : UInt8 => 0x80 ≤ b.toNat) := by
          intro c hc
          have hhead := head?_dropWhile_not (fun b : UInt8 => 0x80 ≤ b.toNat) (b :: rest)
          rw [hc] at hhead
          simpa using hhead
        rw [← hsplit]
        refine beyond _ _ (fun c hc => by simpa using mem_takeWhile_imp hc) hstart
          (ih _ ?_ _ rfl)
        have hle := length_dropWhile_le (fun b : UInt8 => 0x80 ≤ b.toNat) rest
        rw [dropWhile_cons_of_pos (by simpa using hb)]
        simp only [length_cons] at hn
        omega

/-- The ASCII characters of a text are its ASCII bytes. -/
theorem mem_lossyChars_ascii {c : Char} (hc : c.toNat < 0x80) (bytes : List UInt8) :
    c ∈ lossyChars bytes ↔ UInt8.ofNat c.toNat ∈ bytes := by
  have hnat := toNat_ofNat_of_lt (n := c.toNat) (by omega)
  induction bytes using ascii_induction with
  | nil => simp [lossyChars, utf8Chars, decodeChars]
  | ascii b rest hb ih =>
    rw [lossyChars_ascii hb, mem_cons, mem_cons]
    refine or_congr ⟨?_, ?_⟩ ih
    · rintro rfl
      rw [toNat_ofNat_of_valid (by omega), UInt8.ofNat_toNat]
    · intro h
      rw [← h, hnat, Char.ofNat_toNat]
  | beyond l rest hl hrest ih =>
    have hchar : c ∉ lossyChars l := fun h => by
      have := le_toNat_of_mem_lossyChars hl c h
      omega
    have hbyte : UInt8.ofNat c.toNat ∉ l := fun h => by
      have := hl _ h
      omega
    rw [lossyChars_append l hrest, mem_append, mem_append]
    exact or_congr (by simp [hchar, hbyte]) ih

end AgentSight.Http
