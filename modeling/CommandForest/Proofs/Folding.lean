import CommandForest.Proofs.Layout
import CommandForest.Proofs.LowerCase

/-!
# CommandForest.Proofs.Folding

Words are compared without the blanks around them and in lower case.  Folding
a word twice is the same as folding it once:

* lower-case forms contain nothing that has another lower-case form
  (`lower_lower`);
* a text that has no blank at either end gets none by being lower-cased
  (`trim_lower_trim`).

Both are read off the rows of the case table: no row takes a character to a
capital or to a blank (`misses_capitals`, `misses_reserved`).
-/

namespace CommandForest.Text

/-! ## The case table -/

/-- Whether a row takes no character to any `step`-th code point from `first`
to `last`.  Where the ranges meet, capitals and their lower-case forms take
turns. -/
def misses (row : Nat × Nat × Nat × Int) (first last step : Nat) : Bool :=
  let lo := (row.1 + row.2.2.2).toNat
  bif Nat.ble first (row.2.1 + row.2.2.2).toNat && Nat.ble lo last then
    (row.2.2.1 % 2 == 0 || row.1 == row.2.1) && step % 2 == 0 && (lo + first) % 2 == 1
  else true

/-- Blanks, the capitals of ASCII, and the two capitals without a row. -/
def reservedRanges : List (Nat × Nat) :=
  [(0x9, 0xD), (0x20, 0x20), (0x41, 0x5A), (0x85, 0x85), (0xA0, 0xA0), (0x130, 0x130),
   (0x3A3, 0x3A3), (0x1680, 0x1680), (0x2000, 0x200A), (0x2028, 0x2029), (0x202F, 0x202F),
   (0x205F, 0x205F), (0x3000, 0x3000)]

/-- No row takes a character to a capital. -/
theorem misses_capitals {row other : Nat × Nat × Nat × Int} (hrow : row ∈ lowerRanges)
    (hother : other ∈ lowerRanges) : misses row other.1 other.2.1 other.2.2.1 = true := by
  have hall : (lowerRanges.all fun row => lowerRanges.all fun other =>
      misses row other.1 other.2.1 other.2.2.1) = true := by
    decide +kernel
  exact List.all_eq_true.mp (List.all_eq_true.mp hall row hrow) other hother

/-- No row takes a character to a reserved code point. -/
theorem misses_reserved {row : Nat × Nat × Nat × Int} (hrow : row ∈ lowerRanges)
    {range : Nat × Nat} (hrange : range ∈ reservedRanges) :
    misses row range.1 range.2 1 = true := by
  have hall : (lowerRanges.all fun row => reservedRanges.all fun range =>
      misses row range.1 range.2 1) = true := by
    decide +kernel
  exact List.all_eq_true.mp (List.all_eq_true.mp hall row hrow) range hrange

theorem zero_le_shifted : ∀ row ∈ lowerRanges, 0 ≤ (row.1 : Int) + row.2.2.2 := by
  decide +kernel

theorem not_taken_of_misses {row : Nat × Nat × Nat × Int} {first last step : Nat}
    (hmisses : misses row first last step = true) (hrow : row ∈ lowerRanges) {n : Nat}
    (hfirst : row.1 ≤ n) (hlast : n ≤ row.2.1) (hstep : (n - row.1) % row.2.2.1 = 0)
    (hlow : first ≤ (n + row.2.2.2).toNat) (hhigh : (n + row.2.2.2).toNat ≤ last) :
    ((n + row.2.2.2).toNat - first) % step ≠ 0 := by
  have hnonneg := zero_le_shifted row hrow
  have hlo : first ≤ (row.2.1 + row.2.2.2).toNat := by omega
  have hhi : (row.1 + row.2.2.2).toNat ≤ last := by omega
  simp only [misses, Nat.ble_eq_true_of_le hlo, Nat.ble_eq_true_of_le hhi, Bool.and_self, cond_true,
    Bool.and_eq_true, Bool.or_eq_true, beq_iff_eq] at hmisses
  obtain ⟨⟨heven, hstep'⟩, hodd⟩ := hmisses
  have hdistance : (n - row.1) % 2 = 0 := by
    rcases heven with heven | hsingle
    · exact Nat.mod_eq_zero_of_dvd
        (Nat.dvd_trans (Nat.dvd_of_mod_eq_zero heven) (Nat.dvd_of_mod_eq_zero hstep))
    · omega
  intro hzero
  have htwo : ((n + row.2.2.2).toNat - first) % 2 = 0 :=
    Nat.mod_eq_zero_of_dvd
      (Nat.dvd_trans (Nat.dvd_of_mod_eq_zero hstep') (Nat.dvd_of_mod_eq_zero hzero))
  omega

/-! ## Characters -/

/-- A character that is its own lower-case form wherever it stands. -/
def IsLower (c : Char) : Prop := c ≠ 'Σ' ∧ c ≠ 'İ' ∧ lowerChar c = c

theorem lowerAt_of_isLower {c : Char} (h : IsLower c) (before after : List Char) :
    lowerAt before c after = [c] := by
  simp [lowerAt, h.1, h.2.1, h.2.2]

/-- No range of reserved code points contains this one. -/
def Unreserved (n : Nat) : Prop := ∀ range ∈ reservedRanges, ¬ (range.1 ≤ n ∧ n ≤ range.2)

theorem Unreserved.isBlank {c : Char} (h : Unreserved c.toNat) : isBlank c = false := by
  simp only [Unreserved, reservedRanges, List.forall_mem_cons, List.not_mem_nil] at h
  simp only [Text.isBlank, Bool.or_eq_false_iff, Bool.and_eq_false_iff, decide_eq_false_iff_not,
    beq_eq_false_iff_ne]
  omega

theorem Unreserved.ne {c d : Char} (h : Unreserved c.toNat)
    (hd : ∃ range ∈ reservedRanges, range.1 ≤ d.toNat ∧ d.toNat ≤ range.2) : c ≠ d := by
  rintro rfl
  obtain ⟨range, hrange, hin⟩ := hd
  exact h range hrange hin

theorem toLower_of_unreserved {c : Char} (h : Unreserved c.toNat) : c.toLower = c := by
  refine dif_neg ?_
  rintro ⟨hlow, hhigh⟩
  refine h (0x41, 0x5A) (by decide) ⟨?_, ?_⟩
  · exact UInt32.le_iff_toNat_le.mp hlow
  · exact UInt32.le_iff_toNat_le.mp hhigh

/-- A number is the code point of its character, unless it is none. -/
theorem ofNat_cases (n : Nat) : (Char.ofNat n).toNat = n ∨ Char.ofNat n = '\x00' := by
  by_cases h : n.isValidChar
  · refine .inl ?_
    rw [Char.ofNat, dif_pos h]
    rfl
  · refine .inr ?_
    rw [Char.ofNat, dif_neg h]
    rfl

/-- What a character beyond ASCII becomes is read off one row of the table, or
it stays as it is. -/
theorem lowerChar_cases {c : Char} (hc : ¬ c.toNat < 0x80) :
    lowerChar c = c ∨ ∃ row ∈ lowerRanges, row.1 ≤ c.toNat ∧ c.toNat ≤ row.2.1 ∧
      (c.toNat - row.1) % row.2.2.1 = 0 ∧ lowerChar c = shifted c.toNat row.2.2.2 := by
  rw [lowerChar, if_neg hc]
  split
  · next first last step shift hfind =>
    obtain ⟨hrange, hmem⟩ := And.intro (List.find?_some hfind) (List.mem_of_find?_eq_some hfind)
    simp only [Bool.and_eq_true, decide_eq_true_eq] at hrange
    split
    · next hstep => exact .inr ⟨_, hmem, hrange.1, hrange.2, eq_of_beq hstep, rfl⟩
    · exact .inl rfl
  · exact .inl rfl

/-- **A row** takes characters to such as stay as they are. -/
theorem isLower_shifted {row : Nat × Nat × Nat × Int} (hrow : row ∈ lowerRanges) {n : Nat}
    (hfirst : row.1 ≤ n) (hlast : n ≤ row.2.1) (hstep : (n - row.1) % row.2.2.1 = 0) :
    IsLower (shifted n row.2.2.2) ∧ isBlank (shifted n row.2.2.2) = false := by
  rcases ofNat_cases (n + row.2.2.2).toNat with hcode | hnone
  · have hfree : Unreserved (shifted n row.2.2.2).toNat := by
      rw [shifted, hcode]
      intro range hrange hin
      exact not_taken_of_misses (misses_reserved hrow hrange) hrow hfirst hlast hstep hin.1 hin.2
        (Nat.mod_one _)
    refine ⟨⟨hfree.ne (by decide), hfree.ne (by decide), ?_⟩, hfree.isBlank⟩
    by_cases hascii : (shifted n row.2.2.2).toNat < 0x80
    · rw [lowerChar, if_pos hascii]
      exact toLower_of_unreserved hfree
    · rcases lowerChar_cases hascii with hsame | ⟨other, hother, hfirst', hlast', hstep', -⟩
      · exact hsame
      · rw [shifted, hcode] at hfirst' hlast' hstep'
        exact absurd hstep' (not_taken_of_misses (misses_capitals hrow hother) hrow hfirst hlast
          hstep hfirst' hlast')
  · rw [shifted, hnone]
    exact ⟨⟨by decide, by decide, by decide⟩, by decide⟩

theorem toLower_ascii : ∀ n < 0x80, (Char.ofNat n).toLower.toNat < 0x80 ∧
    (Char.ofNat n).toLower.toLower = (Char.ofNat n).toLower ∧
    (isBlank (Char.ofNat n) = false → isBlank (Char.ofNat n).toLower = false) := by
  decide

theorem ne_of_ascii {c d : Char} (hc : c.toNat < 0x80) (hd : 0x80 ≤ d.toNat) : c ≠ d := by
  rintro rfl
  omega

/-- **The lower-case form** of a character is its own lower-case form, and is
only blank if the character is. -/
theorem isLower_lowerChar {c : Char} (hsigma : c ≠ 'Σ') (hdotted : c ≠ 'İ') :
    IsLower (lowerChar c) ∧ (isBlank c = false → isBlank (lowerChar c) = false) := by
  by_cases hc : c.toNat < 0x80
  · obtain ⟨hascii, htwice, hblank⟩ := toLower_ascii c.toNat hc
    rw [Char.ofNat_toNat] at hascii htwice hblank
    have hhere : lowerChar c = c.toLower := by rw [lowerChar, if_pos hc]
    rw [hhere]
    refine ⟨⟨ne_of_ascii hascii (by decide), ne_of_ascii hascii (by decide), ?_⟩, hblank⟩
    rw [lowerChar, if_pos hascii, htwice]
  · rcases lowerChar_cases hc with hsame | ⟨row, hrow, hfirst, hlast, hstep, hshifted⟩
    · rw [hsame]
      exact ⟨⟨hsigma, hdotted, hsame⟩, fun h => h⟩
    · rw [hshifted]
      obtain ⟨hlower, hblank⟩ := isLower_shifted hrow hfirst hlast hstep
      exact ⟨hlower, fun _ => hblank⟩

/-- Whatever stands around a character, its form is made of characters that
are their own lower-case forms, and none of them is blank unless it is. -/
theorem of_mem_lowerAt {before after : List Char} {c d : Char} (h : d ∈ lowerAt before c after) :
    IsLower d ∧ (isBlank c = false → isBlank d = false) := by
  have hforms : ∀ d ∈ ['ς', 'σ', 'i', '\u0307'],
      (d ≠ 'Σ' ∧ d ≠ 'İ' ∧ lowerChar d = d) ∧ isBlank d = false := by
    simp only [List.forall_mem_cons, List.not_mem_nil, false_implies, implies_true]
    decide +kernel
  rw [lowerAt] at h
  split at h
  · refine ⟨(hforms d ?_).1, fun _ => (hforms d ?_).2⟩ <;>
      · rw [List.mem_singleton.mp h, lowerSigma]
        split <;> simp
  · split at h
    · have hd := hforms d (List.mem_append_right ['ς', 'σ'] h)
      exact ⟨hd.1, fun _ => hd.2⟩
    · next hsigma hdotted =>
      rw [List.mem_singleton.mp h]
      exact isLower_lowerChar (by simpa using hsigma) (by simpa using hdotted)

theorem lowerAt_ne_nil (before : List Char) (c : Char) (after : List Char) :
    lowerAt before c after ≠ [] := by
  rw [lowerAt]
  split
  · simp
  · split <;> simp

/-! ## Texts -/

theorem lowerFrom_of_isLower {s : List Char} (h : ∀ c ∈ s, IsLower c) (before : List Char) :
    lowerFrom before s = s := by
  induction s generalizing before with
  | nil => rfl
  | cons c s ih =>
      obtain ⟨hc, hs⟩ := List.forall_mem_cons.mp h
      rw [lowerFrom_cons, lowerAt_of_isLower hc, ih hs]
      rfl

theorem isLower_of_mem_lowerFrom {before s : List Char} {d : Char} (h : d ∈ lowerFrom before s) :
    IsLower d := by
  induction s generalizing before with
  | nil => contradiction
  | cons c s ih =>
      rw [lowerFrom_cons, List.mem_append] at h
      rcases h with h | h
      · exact (of_mem_lowerAt h).1
      · exact ih h

/-- **Lower-casing** a second time changes nothing. -/
theorem lower_lower (s : List Char) : lower (lower s) = lower s :=
  lowerFrom_of_isLower (fun _ => isLower_of_mem_lowerFrom) []

theorem lowerFrom_ne_nil {before s : List Char} (h : s ≠ []) : lowerFrom before s ≠ [] := by
  cases s with
  | nil => exact absurd rfl h
  | cons c s => simp [lowerFrom_cons, lowerAt_ne_nil]

/-- A text does not start with a blank in lower case unless it does so
already. -/
theorem isBlank_of_head?_lower {before s : List Char}
    (h : ∀ c, s.head? = some c → isBlank c = false) {d : Char}
    (hd : (lowerFrom before s).head? = some d) : isBlank d = false := by
  cases s with
  | nil => simp [lowerFrom] at hd
  | cons c s =>
      rw [lowerFrom_cons, List.head?_append_of_ne_nil _ (lowerAt_ne_nil before c s)] at hd
      exact (of_mem_lowerAt (List.mem_of_head? hd)).2 (h c rfl)

/-- A text does not end with a blank in lower case unless it does so
already. -/
theorem isBlank_of_getLast?_lower {before s : List Char}
    (h : ∀ c, s.getLast? = some c → isBlank c = false) {d : Char}
    (hd : (lowerFrom before s).getLast? = some d) : isBlank d = false := by
  induction s generalizing before with
  | nil => simp [lowerFrom] at hd
  | cons c s ih =>
      rw [lowerFrom_cons] at hd
      by_cases hs : s = []
      · subst hs
        rw [lowerFrom, List.append_nil] at hd
        exact (of_mem_lowerAt (List.mem_of_getLast? hd)).2 (h c rfl)
      · rw [List.getLast?_append_of_ne_nil _ (lowerFrom_ne_nil hs)] at hd
        refine ih (fun e he => h e ?_) hd
        rw [← he, List.getLast?_cons_of_ne_nil hs]

/-- **Trimming** has nothing to do in the lower-case form of a trimmed text. -/
theorem trim_lower_trim (s : List Char) : trim (lower (trim s)) = lower (trim s) := by
  obtain ⟨hhead, hlast⟩ := trim_eq_self_iff.mp (trim_trim s)
  exact trim_eq_self_iff.mpr
    ⟨fun _ => isBlank_of_head?_lower hhead, fun _ => isBlank_of_getLast?_lower hlast⟩

/-- **Folding** a word a second time changes nothing. -/
theorem lowered_trimmed_idem (s : String) :
    lowered (trimmed (lowered (trimmed s))) = lowered (trimmed s) := by
  simp only [lowered, trimmed, String.toList_ofList, trim_lower_trim, lower_lower]

end CommandForest.Text
