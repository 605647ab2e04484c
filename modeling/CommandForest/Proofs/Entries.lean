import CommandForest.Labels
import Mathlib.Data.List.Nodup

/-!
# CommandForest.Proofs.Entries

What a table of labels holds after a series of registrations.  Two rules share
the one table: under a qualified label the last registration counts, and under
a plain label the first.  As labels may hold a colon, the plain label of one
registration can be the qualified label of another.

`get?_add` says what one registration does to each key, and `get?_addAll` what
a series does.  Under a key stands the entry of

* the last registration that has it as its qualified label;
* or else, what stood there before;
* or else, the first registration that has it as its plain label.
-/

namespace CommandForest

namespace Labels

/-! ## Registrations -/

/-- A registration: a root command, the label it is offered under, and what the
host says about it. -/
structure Call where
  qualifier : String
  label : String
  description : String
  root : CommandId

namespace Call

/-- The key that is always stored. -/
def qualified (c : Call) : String := qualifiedKey c.qualifier c.label

/-- The key that is stored if it is free. -/
def plain (c : Call) : String := Text.lowered c.label

/-- What is stored. -/
def entry (c : Call) : LabelEntry := ⟨c.root, c.description⟩

theorem plain_ne_qualified (c : Call) : c.plain ≠ c.qualified := by
  intro h
  have hlength := congrArg String.length h
  have hcolon : (":" : String).length = 1 := rfl
  rw [plain, qualified, qualifiedKey, String.length_append, String.length_append] at hlength
  omega

end Call

/-- The table after a registration, and its answer. -/
def add (ls : Labels) (c : Call) : Labels × Bool :=
  ls.register c.qualifier c.label c.description c.root

/-- The table after some registrations. -/
def addAll (ls : Labels) (calls : List Call) : Labels :=
  calls.foldl (fun ls c => (ls.add c).1) ls

/-! ## One registration -/

theorem get?_put (ls : Labels) (key other : String) (entry : LabelEntry) :
    (ls.put key entry).get? other = if other = key then some entry else ls.get? other := by
  by_cases h : other = key
  · rw [if_pos h, h, get?_put_self]
  · rw [if_neg h, get?_put_of_ne ls entry h]

/-- The qualified label never stands in the way of the plain one. -/
theorem add_eq (ls : Labels) (c : Call) :
    ls.add c =
      if (ls.get? c.plain).isSome then (ls.put c.qualified c.entry, false)
      else ((ls.put c.qualified c.entry).put c.plain c.entry, true) := by
  rw [← get?_put_of_ne ls c.entry c.plain_ne_qualified]
  rfl

/-- A registration is answered by whether its plain label was free. -/
theorem snd_add (ls : Labels) (c : Call) : (ls.add c).2 = (ls.get? c.plain).isNone := by
  rw [add_eq]
  cases ls.get? c.plain <;> rfl

/-- A registration replaces what stands under its qualified label, and stands
under its plain label where nothing stood before. -/
theorem get?_add (ls : Labels) (c : Call) (key : String) :
    (ls.add c).1.get? key =
      if key = c.qualified then some c.entry
      else if key = c.plain then (ls.get? key).or (some c.entry)
      else ls.get? key := by
  rw [add_eq]
  by_cases hplain : key = c.plain
  · have hqualified : key ≠ c.qualified := fun h => c.plain_ne_qualified (hplain.symm.trans h)
    subst hplain
    rw [if_neg hqualified, if_pos rfl]
    cases h : ls.get? c.plain with
    | none => simp [get?_put_self]
    | some old => simp [get?_put, hqualified, h]
  · cases h : ls.get? c.plain <;> simp [get?_put, hplain]

/-! ## A series of registrations -/

/-- The registration whose entry stands under a key in the end: the last one
with this qualified label, or else the first one with this plain label. -/
def owner? (calls : List Call) (key : String) : Option Call :=
  (calls.reverse.find? fun c => c.qualified == key).or (calls.find? fun c => c.plain == key)

/-- **A series of registrations**, from any table. -/
theorem get?_addAll (ls : Labels) (calls : List Call) (key : String) :
    (ls.addAll calls).get? key =
      ((calls.reverse.find? fun c => c.qualified == key).map Call.entry).or
        ((ls.get? key).or ((calls.find? fun c => c.plain == key).map Call.entry)) := by
  induction calls generalizing ls with
  | nil => simp [addAll]
  | cons c calls ih =>
      have hstep : ls.addAll (c :: calls) = (ls.add c).1.addAll calls := rfl
      rw [hstep, ih, List.reverse_cons, List.find?_append, List.find?_singleton, get?_add,
        List.find?_cons]
      cases calls.reverse.find? fun c => c.qualified == key with
      | some last => rfl
      | none =>
          by_cases hqualified : key = c.qualified
          · simp [hqualified]
          · have hnotLast : (c.qualified == key) = false := by simpa using Ne.symm hqualified
            rw [if_neg hqualified, hnotLast]
            by_cases hplain : key = c.plain
            · subst hplain
              cases ls.get? c.plain <;> simp
            · have hnotFirst : (c.plain == key) = false := by simpa using Ne.symm hplain
              simp [hplain, hnotFirst]

/-- The keys that a registration stores. -/
def stored (ls : Labels) (c : Call) : List String :=
  c.qualified :: if (ls.add c).2 then [c.plain] else []

/-- The keys that a series of registrations stores. -/
def storedAll (ls : Labels) : List Call → List String
  | [] => []
  | c :: calls => ls.stored c ++ (ls.add c).1.storedAll calls

/-- Something stands under a key if it did before or the key was stored. -/
theorem isSome_get?_add_iff (ls : Labels) (c : Call) (key : String) :
    ((ls.add c).1.get? key).isSome = true ↔ (ls.get? key).isSome = true ∨ key ∈ ls.stored c := by
  rw [get?_add, stored, snd_add]
  by_cases hqualified : key = c.qualified
  · simp [hqualified]
  · by_cases hplain : key = c.plain
    · subst hplain
      cases ls.get? c.plain <;> simp [hqualified]
    · cases ls.get? c.plain <;> simp [hqualified, hplain]

theorem isSome_get?_addAll_iff (ls : Labels) (calls : List Call) (key : String) :
    ((ls.addAll calls).get? key).isSome = true ↔
      (ls.get? key).isSome = true ∨ key ∈ ls.storedAll calls := by
  induction calls generalizing ls with
  | nil => simp [addAll, storedAll]
  | cons c calls ih =>
      have hstep : ls.addAll (c :: calls) = (ls.add c).1.addAll calls := rfl
      rw [hstep, ih, isSome_get?_add_iff, storedAll, List.mem_append, or_assoc]

/-! ## Tables with the same entries -/

/-- No key has two entries. -/
def Distinct (ls : Labels) : Prop := (ls.entries.map Prod.fst).Nodup

theorem Distinct.put {ls : Labels} (h : ls.Distinct) (key : String) (entry : LabelEntry) :
    (ls.put key entry).Distinct := by
  rw [Distinct, Labels.put, List.map_cons, List.nodup_cons]
  constructor
  · intro hmem
    obtain ⟨old, hold, hkey⟩ := List.mem_map.mp hmem
    have hne := (List.mem_filter.mp hold).2
    simp [hkey] at hne
  · exact h.sublist (List.filter_sublist.map Prod.fst)

theorem Distinct.add {ls : Labels} (h : ls.Distinct) (c : Call) : (ls.add c).1.Distinct := by
  rw [add_eq]
  split
  · exact h.put _ _
  · exact (h.put _ _).put _ _

theorem Distinct.addAll {ls : Labels} (h : ls.Distinct) (calls : List Call) :
    (ls.addAll calls).Distinct := by
  induction calls generalizing ls with
  | nil => exact h
  | cons c calls ih => exact ih (h.add c)

theorem Distinct.mem_entries_iff {ls : Labels} (h : ls.Distinct) {key : String}
    {entry : LabelEntry} : (key, entry) ∈ ls.entries ↔ ls.get? key = some entry := by
  rw [get?, List.lookup_eq_some_iff]
  constructor
  · intro hmem
    obtain ⟨before, after, heq⟩ := List.append_of_mem hmem
    refine ⟨before, after, heq, fun old hold => ?_⟩
    rw [Distinct, heq, List.map_append, List.nodup_append] at h
    have hne := h.2.2 old.1 (List.mem_map_of_mem hold) key (by simp)
    simpa using Ne.symm hne
  · rintro ⟨before, after, heq, -⟩
    rw [heq]
    exact List.mem_append_right before List.mem_cons_self

/-- Tables that hold the same list the same, in the order of the labels. -/
theorem Distinct.sorted_eq {ls other : Labels} (h : ls.Distinct) (hother : other.Distinct)
    (hsame : ∀ key, other.get? key = ls.get? key) : other.sorted = ls.sorted := by
  have hperm : other.entries.Perm ls.entries := by
    rw [List.perm_ext_iff_of_nodup (List.Nodup.of_map _ hother) (List.Nodup.of_map _ h)]
    intro ⟨key, entry⟩
    rw [hother.mem_entries_iff, h.mem_entries_iff, hsame]
  have hsorted : ∀ entries : List (String × LabelEntry),
      (entries.mergeSort fun a b => a.1 ≤ b.1).Pairwise fun a b => a.1 ≤ b.1 := by
    intro entries
    have hpairwise : (entries.mergeSort fun a b => a.1 ≤ b.1).Pairwise
        fun a b => decide (a.1 ≤ b.1) = true := List.pairwise_mergeSort
      (fun a b c hab hbc => by
        simpa using String.le_trans (by simpa using hab) (by simpa using hbc))
      (fun a b => by simpa using String.le_total a.1 b.1) entries
    simpa using hpairwise
  refine List.Perm.eq_of_pairwise ?_ (hsorted other.entries) (hsorted ls.entries)
    (((other.entries.mergeSort_perm _).trans hperm).trans (ls.entries.mergeSort_perm _).symm)
  rintro ⟨key, entry⟩ ⟨key', entry'⟩ hmem hmem' hle hge
  -- one key, so one entry
  obtain rfl : key = key' := String.le_antisymm hle hge
  rw [sorted, List.mem_mergeSort, hother.mem_entries_iff, hsame] at hmem
  rw [sorted, List.mem_mergeSort, h.mem_entries_iff, hmem] at hmem'
  rw [Option.some.inj hmem']

/-! ## From the empty table -/

theorem distinct_empty : ({} : Labels).Distinct := List.nodup_nil

/-- **What a table holds** after a series of registrations: under every key the
entry of the last registration that has it as its qualified label, or else of
the first one that has it as its plain label.  A registration is answered by
whether no earlier one has stored its plain label, in either form.  The same
series again leaves all entries as they are, and the list of them. -/
theorem entries_after_registrations (calls : List Call) :
    (∀ key, (({} : Labels).addAll calls).get? key = (owner? calls key).map Call.entry) ∧
    (∀ before c, ((({} : Labels).addAll before).add c).2 = true ↔
      c.plain ∉ ({} : Labels).storedAll before) ∧
    (∀ key, ((({} : Labels).addAll calls).addAll calls).get? key =
      (({} : Labels).addAll calls).get? key) ∧
    ((({} : Labels).addAll calls).addAll calls).sorted = (({} : Labels).addAll calls).sorted := by
  have hagain : ∀ key, ((({} : Labels).addAll calls).addAll calls).get? key =
      (({} : Labels).addAll calls).get? key := by
    intro key
    rw [get?_addAll, get?_addAll]
    cases (calls.reverse.find? fun c => c.qualified == key).map Call.entry with
    | some entry => rfl
    | none => cases (calls.find? fun c => c.plain == key).map Call.entry <;> rfl
  refine ⟨fun key => ?_, fun before c => ?_, hagain, ?_⟩
  · have hempty : ({} : Labels).get? key = none := rfl
    rw [get?_addAll, hempty, Option.none_or, owner?, Option.map_or]
  · have hstored := isSome_get?_addAll_iff {} before c.plain
    have hempty : ({} : Labels).get? c.plain = none := rfl
    rw [snd_add, ← not_congr (hstored.trans (by simp [hempty]))]
    simp
  · have hdistinct := distinct_empty.addAll calls
    exact hdistinct.sorted_eq (hdistinct.addAll calls) hagain

end Labels

end CommandForest
