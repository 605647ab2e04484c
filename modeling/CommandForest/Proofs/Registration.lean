import CommandForest.Proofs.Change
import CommandForest.Proofs.Entries
import CommandForest.Proofs.LowerCase

/-!
# CommandForest.Proofs.Registration

Where a root can be found once it is registered (`resolve_after_register`).
The root stands under each of its aliases with the qualifier in front, and
under the alias alone unless another root stood there before.

A qualified label is stored in the lower-case form of its two parts, and looked
up in that of the whole.  These are the same key unless a capital sigma turns
at the colon; if one does, the root is not found under the qualified label as
it was written (`not_forall_resolve_as_written`).
-/

namespace CommandForest

namespace Labels

/-- Under the qualified label of a registration stands the entry of one of the
series, whatever stood there before. -/
theorem exists_get?_qualified (ls : Labels) {calls : List Call} {c : Call} (hc : c ∈ calls) :
    ∃ d ∈ calls, (ls.addAll calls).get? c.qualified = some d.entry := by
  have hfound : (calls.reverse.find? fun d => d.qualified == c.qualified).isSome = true :=
    List.find?_isSome.mpr ⟨c, List.mem_reverse.mpr hc, beq_self_eq_true _⟩
  obtain ⟨d, hd⟩ := Option.isSome_iff_exists.mp hfound
  refine ⟨d, List.mem_reverse.mp (List.mem_of_find?_eq_some hd), ?_⟩
  rw [get?_addAll, hd]
  rfl

/-- Under the plain label of a registration stands something, and the entry of
one of the series if nothing stood there before. -/
theorem exists_get?_plain (ls : Labels) {calls : List Call} {c : Call} (hc : c ∈ calls) :
    ∃ entry, (ls.addAll calls).get? c.plain = some entry ∧
      (ls.get? c.plain = none → ∃ d ∈ calls, d.entry = entry) := by
  have hfound : (calls.find? fun d => d.plain == c.plain).isSome = true :=
    List.find?_isSome.mpr ⟨c, hc, beq_self_eq_true _⟩
  obtain ⟨first, hfirst⟩ := Option.isSome_iff_exists.mp hfound
  rw [get?_addAll, hfirst]
  cases hlast : calls.reverse.find? fun d => d.qualified == c.plain with
  | some last =>
      exact ⟨last.entry, rfl, fun _ =>
        ⟨last, List.mem_reverse.mp (List.mem_of_find?_eq_some hlast), rfl⟩⟩
  | none =>
      cases hold : ls.get? c.plain with
      | some old => exact ⟨old, rfl, fun hfree => nomatch hfree⟩
      | none => exact ⟨first.entry, rfl, fun _ => ⟨first, List.mem_of_find?_eq_some hfirst, rfl⟩⟩

/-- A qualified label is looked up under the key it is stored under unless a
sigma turns at the colon. -/
theorem lowered_qualified_iff (qualifier label : String) :
    Text.lowered (qualifier ++ ":" ++ label) = qualifiedKey qualifier label ↔
      ¬ Text.TurnsAtColon qualifier.toList label.toList := by
  rw [← Text.lower_append_colon_iff, Text.lowered, qualifiedKey, ← String.toList_inj]
  simp [Text.lowered]

end Labels

theorem Command.aliases_bind (c : Command) (handlers : Handlers) :
    (c.bind handlers).aliases = c.aliases := by
  rw [bind]
  dsimp only
  split <;> rfl

namespace Forest

/-- The registrations of the aliases of a root. -/
theorem WellFormed.exists_addAll_of_register {f : Forest} (hf : f.WellFormed) {labels : Labels}
    {root : CommandId} {qualifier : String} {handlers : Handlers} {r : Registration}
    (h : f.register labels root qualifier handlers = .ok r) :
    ∃ c description, f.find? root = some c ∧
      r.labels = labels.addAll (c.aliases.map fun a => ⟨qualifier, a, description, root⟩) := by
  have hbind := exists_bind_of_register h
  have hfind := hf.find?_of_bind hbind root
  rw [register, hbind] at h
  dsimp only at h
  cases hc : f.find? root with
  | none =>
      rw [hfind, hc] at h
      contradiction
  | some c =>
      have haliases : (if root ∈ f.descendants root then c.bind handlers else c).aliases =
          c.aliases := by
        split
        · exact c.aliases_bind handlers
        · rfl
      rw [hfind, hc, Option.map_some] at h
      dsimp only at h
      have hlabels := congrArg Registration.labels (Except.ok.inj h)
      dsimp only at hlabels
      rw [haliases] at hlabels
      refine ⟨c, r.forest.description (if root ∈ f.descendants root then c.bind handlers else c),
        rfl, ?_⟩
      rw [← hlabels, Labels.addAll, List.foldl_map]
      rfl

/-- **Where a registered root is found**: under each of its aliases with the
qualifier in front, in the key that is stored, and so under the qualified label
as it is written if that has the same key, that is, if no sigma turns at the
colon; and under the alias alone unless another root stood there before. -/
theorem resolve_after_register {f : Forest} (hf : f.Reachable) {labels : Labels}
    {root : CommandId} {qualifier : String} {handlers : Handlers} {r : Registration}
    (h : f.register labels root qualifier handlers = .ok r) :
    ∃ c, f.find? root = some c ∧ ∀ a ∈ c.aliases,
      (r.labels.get? (Labels.qualifiedKey qualifier a)).map LabelEntry.root = some root ∧
      (¬ Text.TurnsAtColon qualifier.toList a.toList →
        r.labels.resolve (qualifier ++ ":" ++ a) = some root) ∧
      (Text.TurnsAtColon qualifier.toList a.toList →
        Text.lowered (qualifier ++ ":" ++ a) ≠ Labels.qualifiedKey qualifier a) ∧
      (∃ other, r.labels.resolve a = some other) ∧
      (labels.resolve a = none → r.labels.resolve a = some root) := by
  obtain ⟨c, description, hc, hlabels⟩ := hf.wellFormed.exists_addAll_of_register h
  refine ⟨c, hc, fun a ha => ?_⟩
  let calls : List Labels.Call := c.aliases.map fun a => ⟨qualifier, a, description, root⟩
  have hmem : (⟨qualifier, a, description, root⟩ : Labels.Call) ∈ calls :=
    List.mem_map_of_mem ha
  -- whichever registration an entry comes from, it is of this root
  have hroot : ∀ d ∈ calls, d.entry.root = root := by
    intro d hd
    obtain ⟨a', -, rfl⟩ := List.mem_map.mp hd
    rfl
  have hqualified : (r.labels.get? (Labels.qualifiedKey qualifier a)).map LabelEntry.root =
      some root := by
    obtain ⟨d, hd, hget⟩ := labels.exists_get?_qualified hmem
    have hkey : r.labels.get? (Labels.qualifiedKey qualifier a) = some d.entry := by
      rw [hlabels]
      exact hget
    rw [hkey, Option.map_some, hroot d hd]
  obtain ⟨entry, hget, hfree⟩ := labels.exists_get?_plain hmem
  have hplain : r.labels.resolve a = some entry.root := by
    rw [Labels.resolve, hlabels]
    exact congrArg (Option.map LabelEntry.root) hget
  refine ⟨hqualified, fun hturns => ?_, fun hturns => ?_, ⟨entry.root, hplain⟩, fun hnone => ?_⟩
  · rw [Labels.resolve, (Labels.lowered_qualified_iff qualifier a).mpr hturns]
    exact hqualified
  · exact fun hsame => (Labels.lowered_qualified_iff qualifier a).mp hsame hturns
  · obtain ⟨d, hd, rfl⟩ := hfree (Option.map_eq_none_iff.mp hnone)
    rw [hplain, hroot d hd]

/-- A root with two names. -/
def pinger : Forest := ({} : Forest).run [.appendRoot { aliases := ["Ping", "p"] }]

theorem reachable_pinger : pinger.Reachable := Reachable.empty.run _

/-- The first name is taken by another root, and found with the qualifier; the
second is free. -/
theorem resolve_after_register_pinger :
    ∃ r, pinger.register ⟨[("ping", ⟨7, "another"⟩)]⟩ 0 "Demo" {} = .ok r ∧
      r.labels.resolve "Demo:Ping" = some 0 ∧ r.labels.resolve "P" = some 0 := by
  let labels : Labels := ⟨[("ping", ⟨7, "another"⟩)]⟩
  obtain ⟨r, hr⟩ := exists_register labels "Demo" {} (show pinger.has 0 = true from rfl)
  obtain ⟨c, hc, hall⟩ := resolve_after_register reachable_pinger hr
  cases hc
  obtain ⟨-, hwritten, -⟩ := hall "Ping" (by decide)
  obtain ⟨-, -, -, -, hfree⟩ := hall "p" (by decide)
  exact ⟨r, hr, hwritten (Text.not_turnsAtColon (by decide) (by decide)), hfree (by decide)⟩

/-- The sigma at the end of a qualifier is stored as one that ends a word, and
looked up as one that a letter follows. -/
theorem not_forall_resolve_as_written :
    ¬ ∀ (f : Forest), f.Reachable → ∀ (labels : Labels) (root : CommandId) (qualifier : String)
      (handlers : Handlers) (r : Registration) (c : Command) (a : String),
      f.register labels root qualifier handlers = .ok r → f.find? root = some c → a ∈ c.aliases →
      r.labels.resolve (qualifier ++ ":" ++ a) = some root := by
  intro h
  have hfound := h pinger reachable_pinger {} 0 "ΑΣ" {} _ _ "p" rfl rfl (by decide)
  exact absurd hfound (by decide +kernel)

end Forest

end CommandForest
