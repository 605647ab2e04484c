import CommandForest.Proofs.Afresh
import CommandForest.Proofs.Numbering

/-!
# CommandForest.Proofs.Scope

Which provider a command sees under a name, read off the history of its forest
(`provider_in_scope`):

* the one that was given last, of those with this name that were given to the
  command or to a command above it while it was there (`Forest.GivenAt`);
* without any, what it saw when it was added: a copy what its original saw at
  that moment, and a command of a definition nothing
  (`Step.newcomerSees`).

Commands never move, so it makes no difference whether "above" is meant at the
time of the gift or at the end of the run (`GrowsTo.below_iff`).
-/

namespace CommandForest

namespace Forest

/-! ## Growing -/

theorem GrowsTo.size_le {f g : Forest} (h : f.GrowsTo g) : f.size ≤ g.size := by
  rcases Nat.lt_or_ge g.size f.size with hlt | hge
  · obtain ⟨c, hc⟩ := exists_find?_of_lt hlt
    obtain ⟨d, hd, -⟩ := h.kept g.size c hc
    exact absurd (lt_size_of_find? hd) (Nat.lt_irrefl _)
  · exact hge

/-- **Commands never move**: what stood above a command stands above it
later on, and nothing else does. -/
theorem GrowsTo.below_iff {f g : Forest} (h : f.GrowsTo g) (hf : f.WellFormed) (hg : g.WellFormed)
    {a n : Nat} (hn : n < f.size) : g.Below a n ↔ f.Below a n := by
  constructor
  · rintro ⟨above, htrail⟩
    -- climb from the lower end, whose parent is the same in both forests
    induction n using Nat.strongRecOn generalizing above with
    | ind n ih =>
        rcases htrail.cases_last with ⟨-, rfl⟩ | ⟨init, p, e, -, hinit, he, hmem⟩
        · exact .refl f n
        · obtain ⟨c, hc⟩ := exists_find?_of_lt hn
          obtain ⟨d, hd, hparent, -⟩ := h.kept n c hc
          obtain ⟨d', hd', hp⟩ := (hg.mem_children p e he n).mp hmem
          cases hd.symm.trans hd'
          have hlt : p < n := hg.lt_of_mem_children he hmem
          obtain ⟨b, hb⟩ := exists_find?_of_lt (Nat.lt_trans hlt hn)
          have hchild : n ∈ b.children :=
            (hf.mem_children p b hb n).mpr ⟨c, hc, hparent.symm.trans hp⟩
          exact (ih p hlt (Nat.lt_trans hlt hn) init hinit).trans (.child hb hchild)
  · rintro ⟨above, htrail⟩
    clear hn
    induction htrail with
    | here id => exact .refl g id
    | @down id k n c above hc hk _ ih =>
        obtain ⟨d, hd, -, hchildren⟩ := h.kept id c hc
        exact (Below.child hd (hchildren.subset hk)).trans ih

/-! ## One step -/

/-- A step leaves every command in its place. -/
theorem WellFormed.growsTo_take {f : Forest} (hf : f.WellFormed) (s : Step) :
    f.GrowsTo (f.take s) := by
  rw [Forest.take]
  cases s.operation? f with
  | none => exact .refl f
  | some op => exact hf.growsTo_perform op

/-- The provider that a step gives to a command. -/
def Step.provides (f : Forest) (n : CommandId) : Step → Option Provider
  | .operation op => op.provides f n
  | .copy _ _ => none

/-- What the newcomers of a step see under a name: a copy sees what its
original sees, a command that is appended what it comes with, which is nothing
unless it stood in a forest before, and those of a definition see nothing. -/
def Step.newcomerSees (f : Forest) (name : String) : Step → Option Provider
  | .copy source _ => (f.find? source).bind fun c => c.providers.find? name
  | .operation (.appendRoot c) | .operation (.appendUnder _ c) => c.providers.find? name
  | .operation _ => none

/-- **What a command sees** changes with the provider that it is given. -/
theorem WellFormed.exists_providers_take {f : Forest} (hf : f.WellFormed) (s : Step)
    {n : CommandId} {c : Command} (hc : f.find? n = some c) :
    ∃ d, (f.take s).find? n = some d ∧
      d.providers = (s.provides f n).elim c.providers c.providers.insert := by
  cases s with
  | operation op =>
      obtain ⟨d, hd, hbecomes⟩ := hf.becomes_perform op hc
      exact ⟨d, hd, hbecomes.providers⟩
  | copy source parent =>
      rw [Forest.take, Step.operation?]
      cases f.find? source with
      | none => exact ⟨c, hc, rfl⟩
      | some e =>
          cases parent with
          | none =>
              obtain ⟨d, hd, hbecomes⟩ := hf.becomes_perform (.appendRoot e) hc
              exact ⟨d, hd, hbecomes.providers⟩
          | some p =>
              obtain ⟨d, hd, hbecomes⟩ := hf.becomes_perform (.appendUnder p e) hc
              exact ⟨d, hd, hbecomes.providers⟩

/-- Newcomers of an operation see what they are brought with. -/
theorem find?_providers_of_perform {f : Forest} (op : Operation) {n : CommandId} {d : Command}
    (hn : f.size ≤ n) (hd : (f.perform op).find? n = some d) (name : String) :
    d.providers.find? name = (Step.operation op).newcomerSees f name := by
  obtain ⟨c, hbrings, parent, children, rfl⟩ := exists_brings_of_find?_perform op hn hd
  cases op with
  | load source =>
      obtain ⟨e, he, hmem⟩ := hbrings
      show c.providers.find? name = none
      rw [(Declaration.isDeclared_of_read he c hmem).providers]
      rfl
  | appendRoot e | appendUnder _ e =>
      obtain rfl : c = e := hbrings
      rfl
  | provide | bind | register | registerRoots | setMessages | execute | complete | help
  | helpLines => exact absurd hbrings id

/-- **What a newcomer sees** is settled by the step that adds it. -/
theorem find?_providers_of_take {f : Forest} (s : Step) {n : CommandId} {d : Command}
    (hn : f.size ≤ n) (hd : (f.take s).find? n = some d) (name : String) :
    d.providers.find? name = s.newcomerSees f name := by
  cases s with
  | operation op => exact find?_providers_of_perform op hn hd name
  | copy source parent =>
      rw [Forest.take, Step.operation?] at hd
      rw [Step.newcomerSees]
      cases hc : f.find? source with
      | none =>
          rw [hc] at hd
          exact absurd (lt_size_of_find? hd) (Nat.not_lt.mpr hn)
      | some c =>
          rw [hc] at hd
          cases parent with
          | none => exact find?_providers_of_perform (.appendRoot c) hn hd name
          | some p => exact find?_providers_of_perform (.appendUnder p c) hn hd name

/-! ## Runs -/

/-- The forest before the step of this number, in a run that starts without
commands. -/
def before (steps : List Step) (i : Nat) : Forest := (steps.take i).foldl take {}

/-- The step of this number gave the provider to the command: it was given, and
not refused, to the command or to one above it, and the command was there. -/
def GivenAt (steps : List Step) (i : Nat) (n : CommandId) (p : Provider) : Prop :=
  ∃ a g, steps[i]? = some (.operation (.provide a p)) ∧ (before steps i).provide a p = .ok g ∧
    (steps.foldl take {}).Below a n ∧ n < (before steps i).size

theorem wellFormed_foldl_take {f : Forest} (hf : f.WellFormed) (steps : List Step) :
    (steps.foldl take f).WellFormed := by
  induction steps generalizing f with
  | nil => exact hf
  | cons s steps ih => exact ih (hf.take s)

theorem growsTo_foldl_take {f : Forest} (hf : f.WellFormed) (steps : List Step) :
    f.GrowsTo (steps.foldl take f) := by
  induction steps generalizing f with
  | nil => exact .refl f
  | cons s steps ih => exact (hf.growsTo_take s).trans (ih (hf.take s))

theorem wellFormed_before (steps : List Step) (i : Nat) : (before steps i).WellFormed :=
  wellFormed_foldl_take wellFormed_empty _

theorem growsTo_of_before (steps : List Step) (i : Nat) :
    (before steps i).GrowsTo (steps.foldl take {}) := by
  have hrun : steps.foldl take {} = (steps.drop i).foldl take (before steps i) := by
    rw [before, ← List.foldl_append, List.take_append_drop]
  rw [hrun]
  exact growsTo_foldl_take (wellFormed_before steps i) _

/-- A gift, seen from the forest it is made in. -/
theorem givenAt_iff {steps : List Step} {i : Nat} {n : CommandId} {p : Provider} :
    GivenAt steps i n p ↔
      ∃ s, steps[i]? = some s ∧ s.provides (before steps i) n = some p := by
  have hwf := wellFormed_before steps i
  have hbelow : ∀ a : CommandId, n < (before steps i).size →
      ((steps.foldl take {}).Below a n ↔ (before steps i).Below a n) := fun a =>
    (growsTo_of_before steps i).below_iff hwf (wellFormed_foldl_take wellFormed_empty steps)
  constructor
  · rintro ⟨a, g, hs, hgiven, habove, hn⟩
    refine ⟨_, hs, ?_⟩
    have hknown : (before steps i).has a = true := by
      rw [provide] at hgiven
      split at hgiven
      · assumption
      · contradiction
    have hmem : n ∈ (before steps i).descendants a :=
      hwf.mem_descendants_iff.mpr ⟨has_iff.mp hknown, (hbelow a hn).mp habove⟩
    exact if_pos hmem
  · rintro ⟨s, hs, hp⟩
    cases s with
    | copy => contradiction
    | operation op =>
        cases op with
        | provide a q =>
            rw [Step.provides, Operation.provides] at hp
            split at hp
            · next hmem =>
                cases hp
                obtain ⟨⟨c, hc⟩, habove⟩ := hwf.mem_descendants_iff.mp hmem
                obtain ⟨d, hd⟩ := habove.exists_find? hwf hc
                have hn := lt_size_of_find? hd
                exact ⟨a, _, hs, if_pos (has_iff.mpr ⟨c, hc⟩), (hbelow a hn).mpr habove, hn⟩
            · contradiction
        | load | appendRoot | appendUnder | bind | register | registerRoots | setMessages
        | execute | complete | help | helpLines => contradiction

/-! ## What is in scope -/

theorem before_append_of_le {steps : List Step} (later : List Step) {i : Nat}
    (h : i ≤ steps.length) : before (steps ++ later) i = before steps i := by
  rw [before, before, List.take_append_of_le_length h]

theorem before_length (steps later : List Step) :
    before (steps ++ later) steps.length = steps.foldl take {} := by
  rw [before_append_of_le later (Nat.le_refl _), before, List.take_length]

/-- A gift in a run is one of its last step, or was one before that step. -/
theorem givenAt_concat_iff {steps : List Step} {s : Step} {i : Nat} {n : CommandId}
    {p : Provider} :
    GivenAt (steps ++ [s]) i n p ↔
      GivenAt steps i n p ∨ (i = steps.length ∧ s.provides (steps.foldl take {}) n = some p) := by
  rw [givenAt_iff, givenAt_iff]
  rcases Nat.lt_trichotomy i steps.length with hlt | rfl | hgt
  · have hne : i ≠ steps.length := Nat.ne_of_lt hlt
    rw [List.getElem?_append_left hlt, before_append_of_le [s] (Nat.le_of_lt hlt)]
    simp [hne]
  · rw [before_length]
    simp
  · have hnone : (steps ++ [s])[i]? = none := by
      rw [List.getElem?_eq_none_iff, List.length_append, List.length_singleton]
      omega
    have hne : i ≠ steps.length := Nat.ne_of_gt hgt
    simp [hnone, List.getElem?_eq_none (Nat.le_of_lt hgt), hne]

theorem GivenAt.lt_length {steps : List Step} {i : Nat} {n : CommandId} {p : Provider}
    (h : GivenAt steps i n p) : i < steps.length := by
  obtain ⟨a, g, hs, -⟩ := h
  exact (List.getElem?_eq_some_iff.mp hs).choose

/-- The command was given providers of this name, and the last of them is what
it sees. -/
def LastGift (steps : List Step) (n : CommandId) (name : String) (seen : Option Provider) : Prop :=
  ∃ i p, GivenAt steps i n p ∧ p.name = name ∧
    (∀ j q, i < j → GivenAt steps j n q → q.name ≠ name) ∧ seen = some p

/-- The command was given no provider of this name, and sees what it saw when a
step added it. -/
def NoGift (steps : List Step) (n : CommandId) (name : String) (seen : Option Provider) : Prop :=
  (∀ i p, GivenAt steps i n p → p.name ≠ name) ∧
    ∃ k s, steps[k]? = some s ∧ (before steps k).size ≤ n ∧ n < (before steps (k + 1)).size ∧
      seen = s.newcomerSees (before steps k) name

section

variable {steps : List Step} {s : Step} {n : CommandId} {name : String} {seen : Option Provider}
  (hs : ∀ p, s.provides (steps.foldl take {}) n = some p → p.name ≠ name)

include hs

/-- A step that gives nothing of the name leaves the last gift the last. -/
theorem LastGift.concat (h : LastGift steps n name seen) :
    LastGift (steps ++ [s]) n name seen := by
  obtain ⟨i, p, hp, hname, hlast, hseen⟩ := h
  refine ⟨i, p, givenAt_concat_iff.mpr (.inl hp), hname, fun j q hj hq => ?_, hseen⟩
  rcases givenAt_concat_iff.mp hq with hq | ⟨-, hq⟩
  · exact hlast j q hj hq
  · exact hs q hq

theorem NoGift.concat (h : NoGift steps n name seen) : NoGift (steps ++ [s]) n name seen := by
  obtain ⟨hnone, k, t, ht, hge, hlt, hseen⟩ := h
  have hk : k < steps.length := (List.getElem?_eq_some_iff.mp ht).choose
  refine ⟨fun i p hp => ?_, k, t, by rw [List.getElem?_append_left hk, ht], ?_⟩
  · rcases givenAt_concat_iff.mp hp with hp | ⟨-, hp⟩
    · exact hnone i p hp
    · exact hs p hp
  · rw [before_append_of_le [s] (Nat.le_of_lt hk), before_append_of_le [s] hk]
    exact ⟨hge, hlt, hseen⟩

end

/-- A newcomer was given nothing yet. -/
theorem noGift_of_newcomer {steps : List Step} {s : Step} {n : CommandId} {c : Command}
    (hn : (steps.foldl take {}).size ≤ n) (hc : ((steps.foldl take {}).take s).find? n = some c)
    (name : String) : NoGift (steps ++ [s]) n name (c.providers.find? name) := by
  constructor
  · intro i p hp
    have hi := hp.lt_length
    rw [List.length_append, List.length_singleton] at hi
    obtain ⟨a, g, -, -, -, hlt⟩ := hp
    rw [before_append_of_le [s] (Nat.le_of_lt_succ hi)] at hlt
    exact absurd (Nat.lt_of_lt_of_le hlt (growsTo_of_before steps i).size_le) (Nat.not_lt.mpr hn)
  · have hafter : before (steps ++ [s]) (steps.length + 1) = (steps.foldl take {}).take s := by
      rw [before, List.take_of_length_le (by simp), List.foldl_append]
      rfl
    refine ⟨steps.length, s, by simp, ?_⟩
    rw [hafter, before_length]
    exact ⟨hn, lt_size_of_find? hc, find?_providers_of_take s hn hc name⟩

/-- **Whatever a command sees** is the last gift of that name, or was there
when it was added. -/
theorem lastGift_or_noGift (steps : List Step) {n : CommandId} {c : Command}
    (hc : (steps.foldl take {}).find? n = some c) (name : String) :
    LastGift steps n name (c.providers.find? name) ∨
      NoGift steps n name (c.providers.find? name) := by
  induction steps using List.reverseRecOn generalizing c with
  | nil => contradiction
  | append_singleton steps s ih =>
      rw [List.foldl_append, List.foldl_cons, List.foldl_nil] at hc
      rcases Nat.lt_or_ge n (steps.foldl take {}).size with hlt | hge
      · obtain ⟨e, he⟩ := exists_find?_of_lt hlt
        have hwf := wellFormed_foldl_take wellFormed_empty steps
        obtain ⟨d, hd, hproviders⟩ := hwf.exists_providers_take s he
        cases hc.symm.trans hd
        by_cases hgift : ∃ p, s.provides (steps.foldl take {}) n = some p ∧ p.name = name
        · obtain ⟨p, hp, rfl⟩ := hgift
          have hlast : GivenAt (steps ++ [s]) steps.length n p :=
            givenAt_concat_iff.mpr (.inr ⟨rfl, hp⟩)
          refine .inl ⟨steps.length, p, hlast, rfl, fun j q hj hq => ?_, ?_⟩
          · have hle := hq.lt_length
            rw [List.length_append, List.length_singleton] at hle
            omega
          · rw [hproviders, hp]
            exact e.providers.find?_insert_self p
        · have hother : ∀ p, s.provides (steps.foldl take {}) n = some p → p.name ≠ name :=
            fun p hp hname => hgift ⟨p, hp, hname⟩
          have hsame : c.providers.find? name = e.providers.find? name := by
            rw [hproviders]
            cases hp : s.provides (steps.foldl take {}) n with
            | none => rfl
            | some p => exact e.providers.find?_insert_of_ne (hother p hp)
          rw [hsame]
          exact (ih he).imp (LastGift.concat hother) (NoGift.concat hother)
      · exact .inr (noGift_of_newcomer hge hc name)

/-- **Scope of providers**: after any run, a command sees under a name the
provider that was given last, of those with this name that were given to it or
to a command above it while it was there.  If there is none, it sees what it saw
when it was added: a copy what its original saw, a declared command nothing.
Giving a provider changes no command but the one it is given to and those below,
and if it is refused nothing changes. -/
theorem provider_in_scope (steps : List Step) :
    let f := steps.foldl take {}
    (∀ n c name, f.find? n = some c →
      (∀ i p, GivenAt steps i n p → p.name = name →
        (∀ j q, i < j → GivenAt steps j n q → q.name ≠ name) →
        c.providers.find? name = some p) ∧
      ((∀ i p, GivenAt steps i n p → p.name ≠ name) →
        ∃ k s, steps[k]? = some s ∧ (before steps k).size ≤ n ∧
          n < (before steps (k + 1)).size ∧
          c.providers.find? name = s.newcomerSees (before steps k) name)) ∧
    (∀ a p g, f.provide a p = .ok g → ∀ n, ¬ f.Below a n → g.find? n = f.find? n) ∧
    (∀ a p e, f.provide a p = .error e → f.take (.operation (.provide a p)) = f) := by
  intro f
  have hwf : f.WellFormed := wellFormed_foldl_take wellFormed_empty steps
  refine ⟨fun n c name hc => ⟨fun i p hp hname hlast => ?_, fun hnone => ?_⟩, ?_, ?_⟩
  · rcases lastGift_or_noGift steps hc name with ⟨j, q, hq, hqname, hqlast, hseen⟩ | ⟨hnone, -⟩
    · -- neither gift came after the other, and a step gives one provider
      have hij : i = j := by
        rcases Nat.lt_trichotomy i j with hlt | heq | hgt
        · exact absurd hqname (hlast j q hlt hq)
        · exact heq
        · exact absurd hname (hqlast i p hgt hp)
      subst hij
      obtain ⟨s, hs, hsp⟩ := givenAt_iff.mp hp
      obtain ⟨t, ht, htq⟩ := givenAt_iff.mp hq
      cases hs.symm.trans ht
      rw [hseen, ← htq, hsp]
    · exact absurd hname (hnone i p hp)
  · rcases lastGift_or_noGift steps hc name with ⟨i, p, hp, hname, -⟩ | ⟨-, hadded⟩
    · exact absurd hname (hnone i p hp)
    · exact hadded
  · intro a p g hg n hn
    have hnot : n ∉ f.descendants a := fun hmem => hn (hwf.mem_descendants_iff.mp hmem).2
    rw [hwf.find?_of_provide hg]
    simp only [if_neg hnot]
    exact Option.map_id'
  · intro a p e he
    show f.perform (.provide a p) = f
    rw [perform, he]

/-- A shop and two commands below it.  The first gets a provider of its own in
place of the one of the shop, and is then copied below the second, which came
too late for either. -/
def shop : List Step := [
  .operation (.appendRoot { aliases := ["shop"] }),
  .operation (.appendUnder 0 { aliases := ["buy"] }),
  .operation (.provide 0 (.anyText "item" none)),
  .operation (.appendUnder 0 { aliases := ["sell"] }),
  .operation (.provide 1 (.evenWord "item" none)),
  .copy 1 (some 2),
  .operation (.provide 9 (.anyText "item" none))]

/-- Nothing was given to the copy. -/
theorem not_givenAt_shop_copy (i : Nat) (p : Provider) : ¬ GivenAt shop i 3 p := by
  rw [givenAt_iff]
  rintro ⟨s, hs, hp⟩
  match i with
  | 0 | 1 | 2 | 3 | 4 | 5 | 6 => cases hs; cases hp
  | i + 7 => contradiction

/-- The first command sees its own provider, and so does its copy, although the
command that the copy stands below sees none. -/
theorem provider_in_scope_shop :
    ∃ buy copied, (shop.foldl take {}).find? 1 = some buy ∧
      (shop.foldl take {}).find? 3 = some copied ∧ copied.parent = some 2 ∧
      buy.providers.find? "item" = some (.evenWord "item" none) ∧
      copied.providers.find? "item" = some (.evenWord "item" none) := by
  obtain ⟨hseen, -⟩ := provider_in_scope shop
  have hgiven : GivenAt shop 4 1 (.evenWord "item" none) :=
    givenAt_iff.mpr ⟨_, rfl, rfl⟩
  have hlast : ∀ j q, 4 < j → GivenAt shop j 1 q → q.name ≠ "item" := by
    intro j q hj hq
    obtain ⟨s, hs, hp⟩ := givenAt_iff.mp hq
    match j with
    | 5 | 6 => cases hs; cases hp
    | j + 7 => contradiction
  refine ⟨_, _, rfl, rfl, rfl, (hseen 1 _ "item" rfl).1 4 _ hgiven rfl hlast, ?_⟩
  obtain ⟨k, s, hs, hge, hlt, hcopied⟩ :=
    (hseen 3 _ "item" rfl).2 fun i p hp => absurd hp (not_givenAt_shop_copy i p)
  match k with
  | 0 | 1 | 2 | 3 | 4 => exact absurd hlt (by decide)
  | 5 => cases hs; exact hcopied
  | 6 => exact absurd hge (by decide)
  | k + 7 => contradiction

end Forest

end CommandForest
