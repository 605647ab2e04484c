import CommandForest.Text.LowerCase
import Mathlib.Data.List.Basic

/-!
# CommandForest.Proofs.LowerCase

The lower-case form of two texts joined by a colon.  A colon does not count as
an end of a word, so a capital sigma next to it looks across it: the form of
the whole is the forms of the parts, with a colon between them, unless a sigma
turns at the colon (`lower_append_colon_iff`).
-/

namespace CommandForest.Text

/-! ## The nearest character that counts -/

/-- Characters that are passed over in the search for a letter. -/
def isPassedOver (c : Char) : Bool := inRanges caseIgnorableRanges c.toNat

theorem meetsCased_cons (c : Char) (s : List Char) :
    meetsCased (c :: s) =
      if isPassedOver c then meetsCased s else inRanges casedRanges c.toNat := by
  rw [meetsCased, List.dropWhile_cons]
  cases h : isPassedOver c with
  | true => simp only [isPassedOver] at h; rw [h]; rfl
  | false => simp only [isPassedOver] at h; rw [h]; rfl

theorem meetsCased_append (s t : List Char) :
    meetsCased (s ++ t) = if s.all isPassedOver then meetsCased t else meetsCased s := by
  induction s with
  | nil => rfl
  | cons c s ih =>
      rw [List.cons_append, meetsCased_cons, meetsCased_cons, List.all_cons, ih]
      cases isPassedOver c <;> simp

/-- There is no letter among characters that are passed over. -/
theorem meetsCased_of_all {s : List Char} (h : s.all isPassedOver = true) :
    meetsCased s = false := by
  have happend := meetsCased_append s []
  rw [List.append_nil, if_pos h] at happend
  exact happend

theorem isPassedOver_colon : isPassedOver ':' = true := by decide +kernel

theorem isPassedOver_sigma : isPassedOver 'Σ' = false := by decide +kernel

/-! ## What stands around a text -/

/-- The form of one character between what precedes and what follows it. -/
def lowerAt (before : List Char) (c : Char) (after : List Char) : List Char :=
  if c == 'Σ' then [lowerSigma before after]
  else if c == 'İ' then ['i', '\u0307']
  else [lowerChar c]

theorem lowerFrom_cons (before : List Char) (c : Char) (rest : List Char) :
    lowerFrom before (c :: rest) = lowerAt before c rest ++ lowerFrom (c :: before) rest := rfl

/-- Only a capital sigma has two forms. -/
theorem lowerAt_eq_iff {before before' after after' : List Char} {c : Char} :
    lowerAt before c after = lowerAt before' c after' ↔
      (c = 'Σ' → (meetsCased before && !meetsCased after) =
        (meetsCased before' && !meetsCased after')) := by
  by_cases hc : c = 'Σ'
  · subst hc
    simp only [lowerAt, lowerSigma, beq_self_eq_true, if_true, forall_const, List.cons.injEq,
      and_true]
    cases (meetsCased before && !meetsCased after) <;>
      cases (meetsCased before' && !meetsCased after') <;> decide
  · simp [lowerAt, hc]

/-- The forms of a character are equally long. -/
theorem lowerAt_append_eq_iff {before before' after after' u v : List Char} {c : Char} :
    lowerAt before c after ++ u = lowerAt before' c after' ++ v ↔
      lowerAt before c after = lowerAt before' c after' ∧ u = v := by
  have hlength : (lowerAt before c after).length = (lowerAt before' c after').length := by
    rw [lowerAt, lowerAt]
    split
    · rfl
    · rfl
  constructor
  · intro h
    exact List.append_inj h hlength
  · rintro ⟨hc, rfl⟩
    rw [hc]

/-- Of what precedes a text, it only counts whether a letter is nearest. -/
theorem lowerFrom_congr {before before' : List Char} (h : meetsCased before = meetsCased before')
    (s : List Char) : lowerFrom before s = lowerFrom before' s := by
  induction s generalizing before before' with
  | nil => rfl
  | cons c s ih =>
      have hnext : meetsCased (c :: before) = meetsCased (c :: before') := by
        rw [meetsCased_cons, meetsCased_cons, h]
      rw [lowerFrom_cons, lowerFrom_cons, ih hnext, lowerAt_append_eq_iff, lowerAt_eq_iff, h]
      exact ⟨fun _ => rfl, rfl⟩

/-! ## Sigmas at the ends of a text -/

/-- A capital sigma ends a word, at the end of a text that follows `before`. -/
def EndsInSigma (before s : List Char) : Prop :=
  ∃ xs ys, s = xs ++ 'Σ' :: ys ∧ meetsCased (xs.reverse ++ before) = true ∧
    ys.all isPassedOver = true

/-- A capital sigma stands alone at the start of a text. -/
def StartsWithLoneSigma (s : List Char) : Prop :=
  ∃ xs ys, s = xs ++ 'Σ' :: ys ∧ xs.all isPassedOver = true ∧ meetsCased ys = false

theorem endsInSigma_cons_iff {before : List Char} {c : Char} {s : List Char} :
    EndsInSigma before (c :: s) ↔
      (c = 'Σ' ∧ meetsCased before = true ∧ s.all isPassedOver = true) ∨
        EndsInSigma (c :: before) s := by
  constructor
  · rintro ⟨xs, ys, heq, hbefore, hafter⟩
    cases xs with
    | nil =>
        cases heq
        exact .inl ⟨rfl, hbefore, hafter⟩
    | cons x xs =>
        cases heq
        rw [List.reverse_cons, List.append_assoc] at hbefore
        exact .inr ⟨xs, ys, rfl, hbefore, hafter⟩
  · rintro (⟨rfl, hbefore, hafter⟩ | ⟨xs, ys, rfl, hbefore, hafter⟩)
    · exact ⟨[], s, rfl, hbefore, hafter⟩
    · refine ⟨c :: xs, ys, rfl, ?_, hafter⟩
      rw [List.reverse_cons, List.append_assoc]
      exact hbefore

theorem startsWithLoneSigma_cons_iff {c : Char} {s : List Char} :
    StartsWithLoneSigma (c :: s) ↔
      (c = 'Σ' ∧ meetsCased s = false) ∨ (isPassedOver c = true ∧ StartsWithLoneSigma s) := by
  constructor
  · rintro ⟨xs, ys, heq, hbefore, hafter⟩
    cases xs with
    | nil =>
        cases heq
        exact .inl ⟨rfl, hafter⟩
    | cons x xs =>
        cases heq
        rw [List.all_cons, Bool.and_eq_true] at hbefore
        exact .inr ⟨hbefore.1, xs, ys, rfl, hbefore.2, hafter⟩
  · rintro (⟨rfl, hafter⟩ | ⟨hc, xs, ys, rfl, hbefore, hafter⟩)
    · exact ⟨[], s, rfl, rfl, hafter⟩
    · exact ⟨c :: xs, ys, rfl, by rw [List.all_cons, hc, hbefore]; rfl, hafter⟩

/-! ## Joining -/

/-- A text keeps its form in front of another unless it ends in a sigma and a
letter follows. -/
theorem lowerFrom_append_eq_iff (before s t u : List Char) :
    lowerFrom before (s ++ t) = lowerFrom before s ++ u ↔
      ¬ (EndsInSigma before s ∧ meetsCased t = true) ∧ lowerFrom (s.reverse ++ before) t = u := by
  induction s generalizing before with
  | nil =>
      have hnone : ¬ EndsInSigma before [] := by
        rintro ⟨xs, ys, heq, -⟩
        cases xs <;> cases heq
      simp [hnone, lowerFrom]
  | cons c s ih =>
      rw [List.cons_append, lowerFrom_cons, lowerFrom_cons, List.append_assoc,
        lowerAt_append_eq_iff, ih, lowerAt_eq_iff, endsInSigma_cons_iff, meetsCased_append,
        List.reverse_cons, List.append_assoc, List.singleton_append]
      -- the first character sees the text that follows only through the rest of its own
      have hhead : (c = 'Σ' → (meetsCased before && !if s.all isPassedOver = true then
            meetsCased t else meetsCased s) = (meetsCased before && !meetsCased s)) ↔
          ¬ ((c = 'Σ' ∧ meetsCased before = true ∧ s.all isPassedOver = true) ∧
            meetsCased t = true) := by
        cases hall : s.all isPassedOver with
        | false => simp
        | true =>
            rw [if_pos rfl, meetsCased_of_all hall]
            cases meetsCased before <;> cases meetsCased t <;> simp
      rw [hhead, or_and_right, not_or]
      exact and_assoc.symm

/-- A text keeps its form after another unless it starts with a lone sigma and
a letter precedes. -/
theorem lowerFrom_eq_lower_iff (before s : List Char) :
    lowerFrom before s = lower s ↔ ¬ (meetsCased before = true ∧ StartsWithLoneSigma s) := by
  induction s generalizing before with
  | nil =>
      have hnone : ¬ StartsWithLoneSigma [] := by
        rintro ⟨xs, ys, heq, -⟩
        cases xs <;> cases heq
      simp [hnone, lowerFrom]
  | cons c s ih =>
      rw [lower, lowerFrom_cons, lowerFrom_cons, lowerAt_append_eq_iff, lowerAt_eq_iff,
        startsWithLoneSigma_cons_iff]
      cases hc : isPassedOver c with
      | true =>
          have hne : c ≠ 'Σ' := by
            rintro rfl
            rw [isPassedOver_sigma] at hc
            contradiction
          have hbefore : meetsCased (c :: before) = meetsCased before := by
            rw [meetsCased_cons, if_pos hc]
          have halone : lowerFrom [c] s = lower s :=
            lowerFrom_congr (by rw [meetsCased_cons, if_pos hc]) s
          rw [halone, ih, hbefore]
          simp [hne]
      | false =>
          have htail : lowerFrom (c :: before) s = lowerFrom [c] s := by
            refine lowerFrom_congr ?_ s
            rw [meetsCased_cons, meetsCased_cons, hc]
            rfl
          have hnil : meetsCased [] = false := rfl
          rw [hnil]
          cases meetsCased before <;> cases meetsCased s <;> simp [htail]

/-- A capital sigma next to the colon has another form in the whole text than
in its part. -/
def TurnsAtColon (s t : List Char) : Prop :=
  (EndsInSigma [] s ∧ meetsCased t = true) ∨
    (meetsCased s.reverse = true ∧ StartsWithLoneSigma t)

/-- **The form of two texts joined by a colon**: the forms of both, unless a
sigma turns at the colon. -/
theorem lower_append_colon_iff (s t : List Char) :
    lower (s ++ ':' :: t) = lower s ++ ':' :: lower t ↔ ¬ TurnsAtColon s t := by
  have hcolon : lowerAt (s.reverse ++ []) ':' t = [':'] := rfl
  have hacross : ∀ u : List Char, meetsCased (':' :: u) = meetsCased u := fun u => by
    rw [meetsCased_cons, if_pos isPassedOver_colon]
  rw [lower, lower, lowerFrom_append_eq_iff, lowerFrom_cons, hcolon, List.singleton_append,
    List.cons.injEq, lowerFrom_eq_lower_iff, hacross, hacross, List.append_nil, TurnsAtColon,
    not_or]
  simp

/-- Nothing turns without a capital sigma. -/
theorem not_turnsAtColon {s t : List Char} (hs : 'Σ' ∉ s) (ht : 'Σ' ∉ t) : ¬ TurnsAtColon s t := by
  rintro (⟨⟨xs, ys, rfl, -⟩, -⟩ | ⟨-, xs, ys, rfl, -⟩)
  · exact hs (by simp)
  · exact ht (by simp)

end CommandForest.Text
