import CommandForest.Proofs.Preorder
import CommandForest.Proofs.RoundTrip
import Mathlib.Data.List.Sort

/-!
# CommandForest.Proofs.Construction

Outlines undo construction.  A forest is built from outlines by one addition
after the other, each of a single command, in any order that has

* parents before their children,
* and the children of each command, as well as the roots, in their order
  (`Constructs`).

Each addition leaves the earlier commands their heads and parents
(`Forest.BuiltFrom.insert`).  The children of a command are then the later
additions under it, so that its outline is the one it was added with, by
induction from the last addition to the first (`Forest.BuiltFrom.outline?_eq`).
To go depth first is one such order (`Outline.constructs_additionsOfAll`), and
the one in which declarations are planted.
-/

namespace CommandForest

/-! ## Heads -/

namespace Outline

mutual

/-- An outline whose parameters can all be read. -/
def Readable : Outline → Prop
  | ⟨_, parameters, _, _, _, _, _, children⟩ =>
    (∀ token ∈ parameters, (Parameter.read? token.toList).isSome = true) ∧ ReadableAll children

/-- Outlines whose parameters can all be read. -/
def ReadableAll : List Outline → Prop
  | [] => True
  | o :: rest => Readable o ∧ ReadableAll rest

end

mutual

/-- How many commands an outline has, with those below. -/
def count : Outline → Nat
  | ⟨_, _, _, _, _, _, _, children⟩ => countAll children + 1

/-- How many commands several outlines have. -/
def countAll : List Outline → Nat
  | [] => 0
  | o :: rest => o.count + countAll rest

end

theorem readable_iff (o : Outline) : o.Readable ↔
    (∀ token ∈ o.parameters, (Parameter.read? token.toList).isSome = true) ∧
      ReadableAll o.children := by
  cases o
  rw [Readable]

theorem readableAll_iff {os : List Outline} : ReadableAll os ↔ ∀ o ∈ os, o.Readable := by
  induction os with
  | nil => simp [ReadableAll]
  | cons o rest ih => simp [ReadableAll, ih]

/-- The command of an outline, without what is below it, or its first malformed
parameter. -/
def command? (o : Outline) : Except String Command :=
  (readParameters o.parameters).map fun parameters =>
    { aliases := o.aliases, parameters := parameters, hook := o.hook, permission := o.permission,
      audience := o.audience, help := o.help, hidesSubcommands := o.hidesSubcommands }

/-- Parameters that can be read are written as they were. -/
theorem exists_readParameters {tokens : List String}
    (h : ∀ token ∈ tokens, (Parameter.read? token.toList).isSome = true) :
    ∃ ps, readParameters tokens = .ok ps ∧ ps.map Parameter.token = tokens := by
  induction tokens with
  | nil => exact ⟨[], rfl, rfl⟩
  | cons token rest ih =>
      obtain ⟨hfirst, hrest⟩ := List.forall_mem_cons.mp h
      obtain ⟨p, hp⟩ := Option.isSome_iff_exists.mp hfirst
      obtain ⟨ps, hread, htokens⟩ := ih hrest
      refine ⟨p :: ps, ?_, ?_⟩
      · rw [readParameters, hp, hread]
        rfl
      · rw [List.map_cons, htokens, String.toList_inj.mp (Parameter.token_of_read? hp)]

/-- The command of an outline with readable parameters has this outline. -/
theorem Readable.exists_command? {o : Outline} (h : o.Readable) :
    ∃ c, o.command? = .ok c ∧ ofCommand c o.children = o := by
  obtain ⟨ps, hread, htokens⟩ := exists_readParameters (o.readable_iff.mp h).1
  refine ⟨_, by rw [command?, hread]; rfl, ?_⟩
  cases o
  rw [ofCommand, htokens]

end Outline

/-! ## Additions -/

/-- An outline whose command is added under another, or as a root, without what
is below it. -/
structure Addition where
  parent : Option CommandId
  outline : Outline

namespace Addition

/-- The outlines that are added under a command, or as roots, in order. -/
def under (parent : Option CommandId) (as : List Addition) : List Outline :=
  (as.filter fun a => a.parent = parent).map outline

/-- The numbers of these outlines among all that are added. -/
def places (parent : Option CommandId) (as : List Addition) : List CommandId :=
  (as.zipIdx.filter fun e => e.1.parent = parent).map Prod.snd

/-- An order in which a forest can be built: parents come first, and the roots
and the children of every command come in their order. -/
structure Constructs (os : List Outline) (as : List Addition) : Prop where
  older : ∀ (k : Nat) a, as[k]? = some a → ∀ p : Nat, a.parent = some p → p < k
  roots : under none as = os
  below : ∀ (k : Nat) a, as[k]? = some a → under (some k) as = a.outline.children

theorem under_append (parent : Option CommandId) (as bs : List Addition) :
    under parent (as ++ bs) = under parent as ++ under parent bs := by
  rw [under, List.filter_append, List.map_append]
  rfl

theorem mem_places {parent : Option CommandId} {as : List Addition} {k : Nat} :
    k ∈ places parent as ↔ ∃ a, as[k]? = some a ∧ a.parent = parent := by
  simp [places, List.mem_zipIdx_iff_getElem?]

theorem pairwise_places (parent : Option CommandId) (as : List Addition) :
    (places parent as).Pairwise fun i j : Nat => i < j := by
  have hall : (as.zipIdx.map Prod.snd).Pairwise fun i j : Nat => i < j := by
    rw [List.zipIdx_map_snd]
    exact List.pairwise_lt_range'
  exact hall.sublist (List.filter_sublist.map Prod.snd)

/-- What is found in each place was added there. -/
theorem filterMap_places {parent : Option CommandId} {as : List Addition}
    {find? : CommandId → Option Outline}
    (h : ∀ (k : Nat) a, as[k]? = some a → a.parent = parent → find? k = some a.outline) :
    (places parent as).filterMap find? = under parent as := by
  have hfound : ∀ e ∈ as.zipIdx.filter fun e => e.1.parent = parent,
      (find? ∘ Prod.snd) e = (some ∘ outline ∘ Prod.fst) e := by
    intro e he
    obtain ⟨hmem, hparent⟩ := List.mem_filter.mp he
    exact h e.2 e.1 (List.mem_zipIdx_iff_getElem?.mp hmem) (by simpa using hparent)
  calc (places parent as).filterMap find?
      = (as.zipIdx.filter fun e => e.1.parent = parent).map (outline ∘ Prod.fst) := by
        rw [places, List.filterMap_map, List.filterMap_congr hfound, List.filterMap_eq_map]
    _ = under parent (as.zipIdx.map Prod.fst) := by
        rw [under, List.filter_map, List.map_map]
        rfl
    _ = under parent as := by rw [List.zipIdx_map_fst]

theorem mem_under {as : List Addition} {k : Nat} {a : Addition} (ha : as[k]? = some a) :
    a.outline ∈ under a.parent as :=
  List.mem_map_of_mem (List.mem_filter.mpr ⟨List.mem_of_getElem? ha, by simp⟩)

/-- All outlines that are added can be read, if those of the roots can. -/
theorem Constructs.readable {os : List Outline} {as : List Addition} (h : Constructs os as)
    (hread : Outline.ReadableAll os) {k : Nat} {a : Addition} (ha : as[k]? = some a) :
    a.outline.Readable := by
  -- parents have earlier numbers
  induction k using Nat.strongRecOn generalizing a with
  | ind k ih =>
      have hmem := mem_under ha
      cases hparent : a.parent with
      | none =>
          rw [hparent, h.roots] at hmem
          exact Outline.readableAll_iff.mp hread _ hmem
      | some p =>
          have hlt := h.older k a ha p hparent
          have hk : k < as.length := (List.getElem?_eq_some_iff.mp ha).1
          have hp : as[p]? = some as[p] := List.getElem?_eq_getElem (hlt.trans hk)
          have habove := ((Outline.readable_iff _).mp (ih p hlt hp)).2
          rw [hparent, h.below p _ hp] at hmem
          exact Outline.readableAll_iff.mp habove _ hmem

end Addition

/-! ## Building -/

namespace Forest

/-- Appends a command under a parent that must exist, or as a root. -/
def append (f : Forest) (c : Command) :
    Option CommandId → Except UnknownCommand (CommandId × Forest)
  | some parent => f.appendUnder parent c
  | none => .ok (f.appendRoot c)

/-- Adds outlines one after the other and lists their numbers, up to a malformed
parameter or an unknown parent. -/
def addEach (f : Forest) : List Addition → Except String (List CommandId × Forest)
  | [] => .ok ([], f)
  | a :: rest =>
    match a.outline.command? with
    | .error token => .error token
    | .ok c =>
      match f.append c a.parent with
      | .error e => .error e.message
      | .ok (id, grown) => (grown.addEach rest).map fun (ids, last) => (id :: ids, last)

theorem append_eq (f : Forest) (c : Command) {parent : Option CommandId}
    (h : ∀ p : Nat, parent = some p → p < f.size) :
    f.append c parent = .ok (f.size, f.insert c parent) := by
  cases parent with
  | none => rfl
  | some p =>
      have hp : f.has p = true := decide_eq_true (h p rfl)
      rw [append, appendUnder, if_pos hp]

/-- One addition, whose number is the size before. -/
theorem addEach_cons {f : Forest} {a : Addition} {c : Command} (hc : a.outline.command? = .ok c)
    (h : ∀ p : Nat, a.parent = some p → p < f.size) (rest : List Addition) :
    f.addEach (a :: rest) =
      ((f.insert c a.parent).addEach rest).map fun (ids, last) => (f.size :: ids, last) := by
  rw [addEach, hc]
  simp only [f.append_eq c h]

/-- A forest that was built by additions: each command has the head and the
parent of its addition. -/
structure BuiltFrom (as : List Addition) (f : Forest) : Prop where
  wellFormed : f.WellFormed
  size : f.size = as.length
  find? : ∀ (k : Nat) a, as[k]? = some a → ∃ c, f.find? k = some c ∧ c.parent = a.parent ∧
    Outline.ofCommand c a.outline.children = a.outline

namespace BuiltFrom

variable {as : List Addition} {f : Forest}

/-- **One addition** leaves the earlier commands their heads and parents. -/
theorem insert (hf : BuiltFrom as f) {a : Addition} {c : Command}
    (hc : Outline.ofCommand c a.outline.children = a.outline)
    (h : ∀ p : Nat, a.parent = some p → p < f.size) :
    BuiltFrom (as ++ [a]) (f.insert c a.parent) where
  wellFormed := hf.wellFormed.insert c h
  size := by rw [size_insert, hf.size, List.length_append, List.length_singleton]
  find? := by
    intro k b hb
    rw [find?_insert f c h]
    by_cases hk : k = f.size
    · rw [hk, hf.size, List.getElem?_concat_length] at hb
      cases hb
      exact ⟨_, if_pos hk, rfl, hc⟩
    · have hlt : k < as.length := by
        have := (List.getElem?_eq_some_iff.mp hb).1
        rw [List.length_append, List.length_singleton] at this
        have := hf.size
        omega
      rw [List.getElem?_append_left hlt] at hb
      obtain ⟨d, hd, hparent, houtline⟩ := hf.find? k b hb
      rw [if_neg hk, hd]
      refine ⟨_, rfl, ?_, ?_⟩
      · dsimp only
        split <;> exact hparent
      · dsimp only
        split <;> exact houtline

/-- **A run of additions** with readable parameters and parents that come first
goes through. -/
theorem exists_addEach (hf : BuiltFrom as f) {rest : List Addition}
    (hread : ∀ a ∈ rest, a.outline.Readable)
    (holder : ∀ (k : Nat) a, (as ++ rest)[k]? = some a → ∀ p : Nat, a.parent = some p → p < k) :
    ∃ g, f.addEach rest = .ok (List.range' as.length rest.length, g) ∧
      BuiltFrom (as ++ rest) g := by
  induction rest generalizing as f with
  | nil => exact ⟨f, rfl, by rwa [List.append_nil]⟩
  | cons a rest ih =>
      obtain ⟨hhere, hlater⟩ := List.forall_mem_cons.mp hread
      obtain ⟨c, hc, houtline⟩ := hhere.exists_command?
      have hparent : ∀ p : Nat, a.parent = some p → p < f.size := by
        rw [hf.size]
        exact holder as.length a (by simp)
      obtain ⟨g, hg, hbuilt⟩ := ih (hf.insert houtline hparent) hlater (by simpa using holder)
      refine ⟨g, ?_, by simpa using hbuilt⟩
      rw [addEach_cons hc hparent, hg, hf.size]
      simp [Except.map, List.range'_succ]

/-- The commands with a parent, or without one, are those that were added with
it. -/
theorem mem_places_iff (hf : BuiltFrom as f) (parent : Option CommandId) (k : Nat) :
    k ∈ Addition.places parent as ↔ ∃ c, f.find? k = some c ∧ c.parent = parent := by
  rw [Addition.mem_places]
  constructor
  · rintro ⟨a, ha, hparent⟩
    obtain ⟨c, hc, hsame, -⟩ := hf.find? k a ha
    exact ⟨c, hc, hsame.trans hparent⟩
  · rintro ⟨c, hc, hparent⟩
    have hlt : k < as.length := hf.size ▸ lt_size_of_find? hc
    obtain ⟨d, hd, hsame, -⟩ := hf.find? k as[k] (List.getElem?_eq_getElem hlt)
    cases hc.symm.trans hd
    exact ⟨as[k], List.getElem?_eq_getElem hlt, hsame.symm.trans hparent⟩

theorem roots_eq (hf : BuiltFrom as f) : f.roots = Addition.places none as := by
  refine hf.wellFormed.roots_sorted.eq_of_mem_iff (Addition.pairwise_places none as) fun k => ?_
  rw [hf.mem_places_iff, hf.wellFormed.mem_roots]

theorem children_eq (hf : BuiltFrom as f) {k : Nat} {c : Command} (hc : f.find? k = some c) :
    c.children = Addition.places (some k) as := by
  refine (hf.wellFormed.children_sorted k c hc).eq_of_mem_iff
    (Addition.pairwise_places (some k) as) fun j => ?_
  rw [hf.mem_places_iff, hf.wellFormed.mem_children k c hc]

end BuiltFrom

/-- The outline of a command, with those of its children. -/
theorem WellFormed.outline?_eq {f : Forest} (hf : f.WellFormed) (id : CommandId) :
    f.outline? id =
      (f.find? id).map fun c => .ofCommand c (c.children.filterMap f.outline?) := by
  rw [outline?, hf.branch?_eq, Option.map_map]
  congr 1
  funext c
  rw [Function.comp_apply, Branch.outline, Branch.outlines_eq_map, List.map_filterMap]
  rfl

/-- **The outline of every command** is the one it was added with. -/
theorem BuiltFrom.outline?_eq {os : List Outline} {as : List Addition} {f : Forest}
    (hf : BuiltFrom as f) (h : Addition.Constructs os as) {k : Nat} {a : Addition}
    (ha : as[k]? = some a) : f.outline? k = some a.outline := by
  -- children have later numbers
  induction hn : as.length - k using Nat.strongRecOn generalizing k a with
  | ind n ih =>
      obtain ⟨c, hc, -, houtline⟩ := hf.find? k a ha
      have hbelow : c.children.filterMap f.outline? = a.outline.children := by
        rw [hf.children_eq hc, ← h.below k a ha]
        refine Addition.filterMap_places fun j b hb hparent => ?_
        have hlt := h.older j b hb k hparent
        have hj : j < as.length := (List.getElem?_eq_some_iff.mp hb).1
        exact ih (as.length - j) (by omega) hb rfl
      rw [hf.wellFormed.outline?_eq, hc, Option.map_some, hbelow, houtline]

/-! ## Counting -/

end Forest

namespace Branch

mutual

theorem length_ids : (b : Branch) → b.ids.length = b.outline.count
  | mk id c bs => by
      rw [ids, outline, Outline.ofCommand, Outline.count, List.length_cons, length_idsOfAll bs]

theorem length_idsOfAll : (bs : List Branch) →
    (idsOfAll bs).length = Outline.countAll (outlines bs)
  | [] => rfl
  | b :: bs => by
      rw [idsOfAll, outlines, Outline.countAll, List.length_append, length_ids b,
        length_idsOfAll bs]

end

end Branch

namespace Forest

/-- A forest has as many commands as its outlines. -/
theorem WellFormed.size_eq {f : Forest} (hf : f.WellFormed) :
    f.size = Outline.countAll f.outlines := by
  have hflat := hf.flatMap_descendants fun _ => hf.exists_find?_of_mem_roots
  rw [outlines, ← Branch.length_idsOfAll, branches, ← hflat, hf.perm_range.length_eq,
    List.length_range]

end Forest

/-! ## Depth first -/

namespace Outline

mutual

/-- The additions of an outline as number `base`, depth first. -/
def additions (base : CommandId) (parent : Option CommandId) : Outline → List Addition
  | ⟨aliases, parameters, hook, permission, audience, help, hidesSubcommands, children⟩ =>
    ⟨parent,
      ⟨aliases, parameters, hook, permission, audience, help, hidesSubcommands, children⟩⟩ ::
      additionsOfAll (base + 1) (some base) children

/-- The additions of several outlines from the number `base` on. -/
def additionsOfAll (base : CommandId) (parent : Option CommandId) : List Outline → List Addition
  | [] => []
  | o :: rest => o.additions base parent ++ additionsOfAll (base + o.count) parent rest

end

mutual

@[simp] theorem length_additions (base : CommandId) (parent : Option CommandId) :
    (o : Outline) → (o.additions base parent).length = o.count
  | ⟨_, _, _, _, _, _, _, children⟩ => by
      rw [additions, count, List.length_cons, length_additionsOfAll _ _ children]

@[simp] theorem length_additionsOfAll (base : CommandId) (parent : Option CommandId) :
    (os : List Outline) → (additionsOfAll base parent os).length = countAll os
  | [] => rfl
  | o :: rest => by
      rw [additionsOfAll, countAll, List.length_append, length_additions,
        length_additionsOfAll _ _ rest]

end

open Addition (under under_append)

mutual

/-- Under a command that is not among those added stands only what is put there
from the start. -/
theorem under_additions (base : Nat) (parent : Option CommandId) {q : Option CommandId} :
    (o : Outline) → (∀ n : Nat, q = some n → n < base ∨ base + o.count ≤ n) →
      under q (o.additions base parent) = if parent = q then [o] else []
  | ⟨aliases, parameters, hook, permission, audience, help, hidesSubcommands, children⟩, h => by
      have hbase : some base ≠ q := by
        rintro rfl
        have := h base rfl
        rw [count] at this
        omega
      have hbelow := under_additionsOfAll (base + 1) (some base) (q := q) children fun n hn => by
        have := h n hn
        rw [count] at this
        omega
      rw [if_neg hbase] at hbelow
      rw [additions, ← List.singleton_append, under_append, hbelow, List.append_nil, under]
      by_cases hq : parent = q
      · simp [hq]
      · simp [hq]

theorem under_additionsOfAll (base : Nat) (parent : Option CommandId) {q : Option CommandId} :
    (os : List Outline) → (∀ n : Nat, q = some n → n < base ∨ base + countAll os ≤ n) →
      under q (additionsOfAll base parent os) = if parent = q then os else []
  | [], _ => by simp [additionsOfAll, under]
  | o :: rest, h => by
      rw [countAll] at h
      rw [additionsOfAll, under_append,
        under_additions base parent o fun n hn => by have := h n hn; omega,
        under_additionsOfAll (base + o.count) parent rest fun n hn => by have := h n hn; omega]
      split <;> rfl

end

/-- A numbered addition comes after its parent, and what is below it comes under
its number. -/
structure InOrder (as : List Addition) (e : Addition × Nat) : Prop where
  older : ∀ p : Nat, e.1.parent = some p → p < e.2
  below : under (some e.2) as = e.1.outline.children

theorem InOrder.append_right {as bs : List Addition} {e : Addition × Nat} (h : InOrder as e)
    (hbs : under (some e.2) bs = []) : InOrder (as ++ bs) e :=
  ⟨h.older, by rw [under_append, h.below, hbs, List.append_nil]⟩

theorem InOrder.append_left {as bs : List Addition} {e : Addition × Nat} (h : InOrder bs e)
    (has : under (some e.2) as = []) : InOrder (as ++ bs) e :=
  ⟨h.older, by rw [under_append, h.below, has, List.nil_append]⟩

mutual

theorem inOrder_additions (base : Nat) (parent : Option CommandId)
    (h : ∀ p : Nat, parent = some p → p < base) : (o : Outline) →
      ∀ e ∈ (o.additions base parent).zipIdx base, InOrder (o.additions base parent) e
  | ⟨aliases, parameters, hook, permission, audience, help, hidesSubcommands, children⟩, e, he => by
      let top : Addition := ⟨parent,
        ⟨aliases, parameters, hook, permission, audience, help, hidesSubcommands, children⟩⟩
      have htop : ∀ n : Nat, base ≤ n → under (some n) [top] = [] := by
        intro n hn
        have hne : parent ≠ some n := fun hp => Nat.not_lt.mpr hn (h n hp)
        simp [under, top, hne]
      have hsplit : additions base parent top.outline =
          [top] ++ additionsOfAll (base + 1) (some base) children := by
        rw [additions]
        rfl
      show InOrder (additions base parent top.outline) e
      change e ∈ (additions base parent top.outline).zipIdx base at he
      rw [hsplit, List.zipIdx_append, List.mem_append] at he
      rw [hsplit]
      rcases he with he | he
      · obtain rfl : e = (top, base) := by simpa using he
        refine ⟨h, ?_⟩
        rw [under_append, htop base (Nat.le_refl base), List.nil_append,
          under_additionsOfAll _ _ _ fun n hn => .inl (by cases hn; omega), if_pos rfl]
      · have hlow := List.le_snd_of_mem_zipIdx he
        rw [List.length_singleton] at he hlow
        refine (inOrder_additionsOfAll (base + 1) (some base) (fun p hp => ?_) children e
          he).append_left (htop e.2 (by omega))
        cases hp
        omega

theorem inOrder_additionsOfAll (base : Nat) (parent : Option CommandId)
    (h : ∀ p : Nat, parent = some p → p < base) : (os : List Outline) →
      ∀ e ∈ (additionsOfAll base parent os).zipIdx base, InOrder (additionsOfAll base parent os) e
  | [], e, he => by cases he
  | o :: rest, e, he => by
      have hne : ∀ n : Nat, base ≤ n → parent ≠ some n := fun n hn hp =>
        Nat.not_lt.mpr hn (h n hp)
      rw [additionsOfAll, List.zipIdx_append, List.mem_append, length_additions] at he
      rw [additionsOfAll]
      rcases he with he | he
      · have hlow := List.le_snd_of_mem_zipIdx he
        have hhigh := List.snd_lt_of_mem_zipIdx he
        rw [length_additions] at hhigh
        refine (inOrder_additions base parent h o e he).append_right ?_
        rw [under_additionsOfAll _ _ _ fun n hn => .inl (by cases hn; omega), if_neg (hne e.2 hlow)]
      · have hlow := List.le_snd_of_mem_zipIdx he
        refine (inOrder_additionsOfAll (base + o.count) parent (fun p hp => ?_) rest e
          he).append_left ?_
        · have := h p hp
          omega
        · rw [under_additions _ _ _ fun n hn => .inr (by cases hn; omega),
            if_neg (hne e.2 (by omega))]

end

/-- **To go depth first** is an order in which a forest can be built. -/
theorem constructs_additionsOfAll (os : List Outline) :
    Addition.Constructs os (additionsOfAll 0 none os) := by
  have hinOrder : ∀ (k : Nat) a, (additionsOfAll 0 none os)[k]? = some a →
      InOrder (additionsOfAll 0 none os) (a, k) := fun k a ha =>
    inOrder_additionsOfAll 0 none (by simp) os (a, k) (List.mem_zipIdx_iff_getElem?.mpr ha)
  refine ⟨fun k a ha => (hinOrder k a ha).older, ?_, fun k a ha => (hinOrder k a ha).below⟩
  rw [under_additionsOfAll _ _ _ (by simp), if_pos rfl]

end Outline

namespace Forest

open Outline (additionsOfAll countAll declareAll ReadableAll)

/-- Additions one after the other. -/
theorem addEach_append {f g : Forest} {as : List Addition} {ids : List CommandId}
    (h : f.addEach as = .ok (ids, g)) (bs : List Addition) :
    f.addEach (as ++ bs) = (g.addEach bs).map fun (more, last) => (ids ++ more, last) := by
  induction as generalizing f ids with
  | nil =>
      cases h
      rw [List.nil_append]
      cases g.addEach bs <;> rfl
  | cons a as ih =>
      rw [addEach] at h
      rw [List.cons_append, addEach]
      cases hc : a.outline.command? with
      | error token => rw [hc] at h; contradiction
      | ok c =>
          rw [hc] at h
          dsimp only at h ⊢
          cases happend : f.append c a.parent with
          | error e => rw [happend] at h; contradiction
          | ok answer =>
              rw [happend] at h
              obtain ⟨⟨later, last⟩, hlater, hall⟩ := map_eq_ok_iff.mp h
              cases hall
              dsimp only
              rw [ih hlater]
              cases last.addEach bs <;> rfl

mutual

/-- Adding an outline depth first plants its declaration. -/
theorem addEach_additions (f : Forest) {parent : Option CommandId}
    (h : ∀ p : Nat, parent = some p → p < f.size) : (o : Outline) → o.Readable →
      ∃ d, o.declare = .ok d ∧ (f.plant parent d).size = f.size + o.count ∧
        f.addEach (o.additions f.size parent) =
          .ok (List.range' f.size o.count, f.plant parent d)
  | ⟨aliases, parameters, hook, permission, audience, help, hidesSubcommands, children⟩, ho => by
      rw [Outline.Readable] at ho
      obtain ⟨ps, hread, -⟩ := Outline.exists_readParameters ho.1
      let c : Command :=
        { aliases, parameters := ps, hook, permission, audience, help, hidesSubcommands }
      have hc : (Outline.mk aliases parameters hook permission audience help hidesSubcommands
          children).command? = .ok c := by
        rw [Outline.command?, hread]
        rfl
      have hgrown : (f.insert c parent).size = f.size + 1 := size_insert f c parent
      have hbelow : ∀ p : Nat, some f.size = some p → p < (f.insert c parent).size := by
        intro p hp
        cases hp
        omega
      obtain ⟨ds, hds, hsize, hall⟩ :=
        addEach_additionsOfAll (f.insert c parent) hbelow children ho.2
      rw [hgrown] at hsize hall
      refine ⟨.mk c ds, ?_, ?_, ?_⟩
      · rw [Outline.declare, hread]
        dsimp only
        rw [hds]
        rfl
      · rw [plant, hsize, Outline.count, Nat.add_assoc, Nat.add_comm 1]
      · rw [Outline.additions, addEach_cons hc h, hall, plant, Outline.count,
          List.range'_succ]
        rfl

/-- Adding outlines depth first plants their declarations. -/
theorem addEach_additionsOfAll (f : Forest) {parent : Option CommandId}
    (h : ∀ p : Nat, parent = some p → p < f.size) : (os : List Outline) → ReadableAll os →
      ∃ ds, declareAll os = .ok ds ∧ (f.plantAll parent ds).size = f.size + countAll os ∧
        f.addEach (additionsOfAll f.size parent os) =
          .ok (List.range' f.size (countAll os), f.plantAll parent ds)
  | [], _ => ⟨[], rfl, rfl, rfl⟩
  | o :: rest, hos => by
      rw [Outline.ReadableAll] at hos
      obtain ⟨d, hd, hsize, hadd⟩ := addEach_additions f h o hos.1
      obtain ⟨ds, hds, hsizes, hall⟩ := addEach_additionsOfAll (f.plant parent d)
        (fun p hp => by have := h p hp; omega) rest hos.2
      refine ⟨d :: ds, ?_, ?_, ?_⟩
      · rw [Outline.declareAll, hd, hds]
        rfl
      · rw [plantAll, hsizes, hsize, Outline.countAll, Nat.add_assoc]
      · rw [hsize] at hall
        rw [additionsOfAll, addEach_append hadd, hall, plantAll, Outline.countAll,
          ← List.range'_append_1]
        rfl

end

/-- **Outlines undo construction.**  Outlines whose parameters can all be read
are built into a forest in any order that has parents first and siblings in
order.  The forest then has these very outlines and as many commands as they
have, and the outline of every command is the one it was added with.  To go
depth first is such an order, which plants the declarations of the outlines. -/
theorem outlines_of_additions {os : List Outline} (h : ReadableAll os) :
    (∀ as, Addition.Constructs os as →
      ∃ f, ({} : Forest).addEach as = .ok (List.range as.length, f) ∧ f.outlines = os ∧
        f.size = countAll os ∧ ∀ k : Nat, f.outline? k = as[k]?.map Addition.outline) ∧
    Addition.Constructs os (additionsOfAll 0 none os) ∧
    ∃ ds, declareAll os = .ok ds ∧ ({} : Forest).addEach (additionsOfAll 0 none os) =
      .ok (List.range (countAll os), ({} : Forest).plantAll none ds) := by
  refine ⟨fun as has => ?_, Outline.constructs_additionsOfAll os, ?_⟩
  · have hempty : BuiltFrom [] ({} : Forest) := ⟨wellFormed_empty, rfl, by simp⟩
    obtain ⟨f, hadd, hf⟩ := hempty.exists_addEach
      (fun a ha => by
        obtain ⟨k, hk⟩ := List.getElem?_of_mem ha
        exact has.readable h hk)
      (by simpa using has.older)
    rw [List.nil_append] at hf
    have houtlines : f.outlines = os := by
      rw [outlines_eq_filterMap, hf.roots_eq, ← has.roots]
      exact Addition.filterMap_places fun k a ha _ => hf.outline?_eq has ha
    refine ⟨f, by rw [hadd, List.range_eq_range']; rfl, houtlines,
      by rw [hf.wellFormed.size_eq, houtlines], fun k => ?_⟩
    cases ha : as[k]? with
    | some a => exact hf.outline?_eq has ha
    | none =>
        have hnone : f.find? k = none := by
          rw [find?_eq_none_iff, hf.size]
          exact List.getElem?_eq_none_iff.mp ha
        rw [hf.wellFormed.outline?_eq, hnone]
        rfl
  · have hnone : ∀ p : Nat, none = some p → p < ({} : Forest).size := fun p hp => by cases hp
    obtain ⟨ds, hds, -, hadd⟩ := addEach_additionsOfAll {} hnone os h
    exact ⟨ds, hds, by rw [List.range_eq_range']; exact hadd⟩

/-- A light with two names, one of them empty. -/
def light : Outline := { aliases := ["light", ""], parameters := ["*color:shade", "int::watts"] }

/-- A house with a light and a nameless door. -/
def house : Outline := { aliases := ["house"], children := [light, { aliases := [] }] }

/-- The house is followed by a gate, and only then by what is below it. -/
def houseByLevels : List Addition :=
  [⟨none, house⟩, ⟨none, { aliases := ["gate"] }⟩, ⟨some 0, light⟩, ⟨some 0, { aliases := [] }⟩]

/-- The house and the gate come back, and the light is number 2. -/
theorem outlines_of_additions_house :
    ∃ f, ({} : Forest).addEach houseByLevels = .ok ([0, 1, 2, 3], f) ∧
      f.outlines = [house, { aliases := ["gate"] }] ∧ f.size = 4 ∧ f.outline? 2 = some light := by
  have hread : ReadableAll [house, { aliases := ["gate"] }] :=
    ⟨⟨by decide, ⟨by decide, trivial⟩, ⟨by decide, trivial⟩, trivial⟩, ⟨by decide, trivial⟩,
      trivial⟩
  have hconstructs : Addition.Constructs [house, { aliases := ["gate"] }] houseByLevels := by
    have hall : ∀ e ∈ houseByLevels.zipIdx, (∀ p ∈ e.1.parent, p < e.2) ∧
        Addition.under (some e.2) houseByLevels = e.1.outline.children := by
      decide +kernel
    have hplaced := fun (k : Nat) a (ha : houseByLevels[k]? = some a) =>
      hall (a, k) (List.mem_zipIdx_iff_getElem?.mpr ha)
    exact ⟨fun k a ha => (hplaced k a ha).1, by decide +kernel, fun k a ha => (hplaced k a ha).2⟩
  obtain ⟨f, hadd, houtlines, hsize, hfind⟩ :=
    (outlines_of_additions hread).1 houseByLevels hconstructs
  exact ⟨f, hadd, houtlines, hsize, hfind 2⟩

end Forest

end CommandForest
