import CommandForest.Proofs.Change

/-!
# CommandForest.Proofs.Kinds

The kinds of converted values.  A parameter says which kind of value it yields,
and conversion keeps to that: one value for each parameter, of the kind it
yields (`kinds_of_convertAll`), as long as only the last parameter takes the
rest of the line.

What a parameter yields can depend on the providers in scope.  It no longer
does once the parameter is fixed (`Parameter.Fixed`), which binding sees to
when it compares signatures (`Command.fixed_of_bind`).
-/

namespace CommandForest

/-! ## One word -/

namespace Parameter

/-- **A converted word** has the kind that its parameter yields. -/
theorem yields_of_convert {p : Parameter} {scope : Providers} {token : String} {v : Value}
    (h : p.convert scope token = .value v) : p.yields scope = some v.kind := by
  rw [convert] at h
  rw [yields]
  cases hkind : p.kind with
  | string | multistring =>
      rw [hkind] at h
      cases h
      rfl
  | int =>
      rw [hkind] at h
      cases hread : Number.readInt64 token.toList with
      | none => rw [hread] at h; contradiction
      | some n =>
          rw [hread] at h
          cases h
          rfl
  | double =>
      rw [hkind] at h
      dsimp only at h
      cases hread : (Number.readBinary64 token.toList).filter Number.Binary64.isFinite with
      | none => rw [hread] at h; contradiction
      | some x =>
          rw [hread] at h
          cases h
          rfl
  | custom name =>
      rw [hkind] at h
      dsimp only at h ⊢
      cases hprovider : p.provider? scope with
      | none => rw [hprovider] at h; contradiction
      | some provider =>
          rw [hprovider] at h
          dsimp only at h
          cases hpayload : provider.payload? token with
          | none => rw [hpayload] at h; contradiction
          | some payload =>
              rw [hpayload] at h
              cases h
              rw [Option.map_some, Value.kind, Provider.kind_of_payload? hpayload]

theorem yields_of_takesRest {p : Parameter} (h : p.takesRest = true) (scope : Providers) :
    p.yields scope = some .string := by
  have hkind : p.kind = .multistring := by simpa [takesRest] using h
  rw [yields, hkind]

end Parameter

/-! ## A list of words -/

namespace Conversion

theorem run_of_takesRest {scope : Providers} {position : Nat} {p : Parameter}
    {parameters : List Parameter} (h : p.takesRest = true) (tokens : List String) :
    run scope position (p :: parameters) tokens = ⟨some [restOfLine tokens], [], none⟩ := by
  cases tokens <;> rw [run, if_pos h]

/-- One value for each parameter, of the kind that it yields. -/
theorem kinds_of_run {scope : Providers} {parameters : List Parameter}
    (hrest : ∀ p ∈ parameters.dropLast, p.takesRest = false) {position : Nat}
    {tokens : List String} {values : List Value}
    (h : (run scope position parameters tokens).values = some values) :
    parameters.map (fun p => p.yields scope) = values.map fun v => some v.kind := by
  induction parameters generalizing position tokens values with
  | nil =>
      rw [run] at h
      cases h
      rfl
  | cons p parameters ih =>
      obtain ⟨hfirst, hothers⟩ := Line.forall_mem_dropLast_cons.mp hrest
      cases htakes : p.takesRest with
      | true =>
          have hlast : parameters = [] := by
            by_contra hne
            rw [hfirst hne] at htakes
            contradiction
          rw [run_of_takesRest htakes] at h
          cases h
          simp [hlast, Parameter.yields_of_takesRest htakes, restOfLine, Value.kind]
      | false =>
          cases tokens with
          | nil =>
              rw [run, htakes] at h
              contradiction
          | cons token tokens =>
              rw [run, htakes] at h
              cases hconvert : p.convert scope token with
              | refused => simp [hconvert] at h
              | unresolved provider => simp [hconvert] at h
              | value v =>
                  simp only [hconvert, Bool.false_eq_true, if_false] at h
                  obtain ⟨later, hlater, rfl⟩ := Option.map_eq_some_iff.mp h
                  rw [List.map_cons, List.map_cons, ih hothers hlater,
                    Parameter.yields_of_convert hconvert]

end Conversion

/-- **Converted words**: one value for each parameter, of the kind that it
yields. -/
theorem Command.kinds_of_convertAll {c : Command} (hrest : c.RestIsLast) {tokens : List String}
    {values : List Value} (h : (convertAll c.providers c.parameters tokens).values = some values) :
    c.slots = values.map fun v => some v.kind := by
  rw [convertAll] at h
  split at h
  · exact Conversion.kinds_of_run hrest h
  · contradiction

/-! ## Fixed parameters -/

/-- The parameter has settled, unless it never asks for a provider. -/
def Parameter.Fixed (p : Parameter) : Prop :=
  ∀ name, p.kind = .custom name → p.settled.isSome = true

namespace Parameter

/-- A fixed parameter does not look at what is in scope. -/
theorem Fixed.yields_eq {p : Parameter} (h : p.Fixed) (scope other : Providers) :
    p.yields scope = p.yields other := by
  rw [yields, yields]
  cases hkind : p.kind with
  | string | int | double | multistring => rfl
  | custom name =>
      obtain ⟨q, hq⟩ := Option.isSome_iff_exists.mp (h name hkind)
      simp [provider?, hkind, hq]

/-- A fixed parameter stays as it is. -/
theorem Fixed.settle_eq {p : Parameter} (h : p.Fixed) (scope : Providers) : p.settle scope = p := by
  have hsettled : (p.provider? scope <|> p.settled) = p.settled := by
    rw [provider?]
    cases hkind : p.kind with
    | string | int | double | multistring => rfl
    | custom name =>
        obtain ⟨q, hq⟩ := Option.isSome_iff_exists.mp (h name hkind)
        simp [hq]
  rw [settle, hsettled]

/-- A parameter whose provider is there is fixed by settling. -/
theorem fixed_settle {p : Parameter} {scope : Providers}
    (h : ∀ name, p.kind = .custom name → (p.provider? scope).isSome = true) :
    (p.settle scope).Fixed := by
  intro name hkind
  obtain ⟨q, hq⟩ := Option.isSome_iff_exists.mp (h name hkind)
  simp [settle, hq]

theorem yields_settle (p : Parameter) (scope : Providers) :
    (p.settle scope).yields scope = p.yields scope := by
  have hkind : (p.settle scope).kind = p.kind := rfl
  simp only [yields, hkind, provider?_settle]

end Parameter

namespace Command

/-- All parameters of the command are fixed. -/
def Fixed (c : Command) : Prop := ∀ p ∈ c.parameters, p.Fixed

theorem Fixed.parameters_settle {c : Command} (h : c.Fixed) (positions : List Nat) :
    (c.settle positions).parameters = c.parameters := by
  apply List.ext_getElem?
  intro i
  rw [settle, List.getElem?_mapIdx]
  cases hi : c.parameters[i]? with
  | none => rfl
  | some p =>
      have hp := h p (List.mem_of_getElem? hi)
      simp [hp.settle_eq]

/-- The parameters of a command with fixed parameters stay as they are. -/
theorem Fixed.parameters_of_becomes {c d : Command} {provider : Option Provider}
    {handlers : Option Handlers} (h : c.Fixed) (hd : c.Becomes provider handlers d) :
    d.parameters = c.parameters := by
  obtain ⟨positions, hpositions⟩ := hd.parameters
  rw [hpositions, h.parameters_settle]

/-- Every custom parameter of the command finds a provider. -/
def FindsProviders (c : Command) : Prop :=
  ∀ p ∈ c.parameters, ∀ name, p.kind = .custom name → (p.provider? c.providers).isSome = true

/-- Slots that are all known and fit are the declared kinds. -/
theorem eq_map_some_of_compatible {slots : List (Option ValueKind)} {declared : List ValueKind}
    (h : compatible slots declared = true) (hknown : ∀ slot ∈ slots, slot.isSome = true) :
    slots = declared.map some := by
  simp only [compatible, Bool.and_eq_true, decide_eq_true_eq, List.all_eq_true] at h
  obtain ⟨hlength, hall⟩ := h
  apply List.ext_getElem (by simpa using hlength)
  intro i hslot hdeclared
  have hi : i < declared.length := by simpa using hdeclared
  have hmem : (slots[i], declared[i]) ∈ slots.zip declared := by
    rw [← List.getElem_zip (h := by simp; omega)]
    exact List.getElem_mem _
  have hfits := hall _ hmem
  have hsome := hknown _ (List.getElem_mem hslot)
  cases hvalue : slots[i] with
  | none => rw [hvalue] at hsome; contradiction
  | some kind =>
      rw [hvalue] at hfits
      simpa using hfits

theorem FindsProviders.isSome_of_mem_slots {c : Command} (h : c.FindsProviders) :
    ∀ slot ∈ c.slots, slot.isSome = true := by
  intro slot hslot
  obtain ⟨p, hp, rfl⟩ := List.mem_map.mp hslot
  rw [Parameter.yields]
  cases hkind : p.kind with
  | string | int | double | multistring => rfl
  | custom name => simpa using h p hp name hkind

/-- A command is bound to a handler with a signature after the comparison of
the two. -/
theorem checked_of_resolve {c : Command} {handlers : Handlers} {handler : Handler}
    {declared : List ValueKind} (h : c.resolve handlers = .bound handler)
    (hsignature : handler.signature = some declared) :
    c.checksSignature handlers = true ∧ compatible c.slots declared = true := by
  rw [resolve] at h
  rw [checksSignature]
  cases hfound : c.hook.bind handlers.find? with
  | none => rw [hfound] at h; contradiction
  | some found =>
      rw [hfound] at h
      dsimp only at h
      cases hown : found.signature with
      | none =>
          rw [hown] at h
          cases h
          rw [hsignature] at hown
          contradiction
      | some kinds =>
          rw [hown] at h
          dsimp only at h
          split at h
          · next hcompatible =>
              cases h
              rw [hsignature] at hown
              cases hown
              simp [hsignature, hcompatible]
          · contradiction

theorem slots_settleAll (c : Command) : c.settleAll.slots = c.slots := by
  simp only [slots, settleAll, List.map_map]
  exact List.map_congr_left fun p _ => p.yields_settle c.providers

/-- **Binding** fixes the parameters of a command whose providers are there,
and they yield what its handler declares. -/
theorem fixed_of_bind {c : Command} {handlers : Handlers} {handler : Handler}
    {declared : List ValueKind} (hfinds : c.FindsProviders)
    (h : (c.bind handlers).binding = .bound handler)
    (hsignature : handler.signature = some declared) :
    (c.bind handlers).Fixed ∧ (c.bind handlers).slots = declared.map some := by
  obtain ⟨hchecks, hcompatible⟩ := checked_of_resolve h hsignature
  have hslots := eq_map_some_of_compatible hcompatible hfinds.isSome_of_mem_slots
  have hbind : c.bind handlers = { c.settleAll with binding := c.resolve handlers } := by
    rw [bind, if_pos hchecks]
  rw [hbind]
  constructor
  · intro p hp
    obtain ⟨q, hq, rfl⟩ := List.mem_map.mp hp
    exact Parameter.fixed_settle (hfinds q hq)
  · exact c.slots_settleAll.trans hslots

end Command

end CommandForest
