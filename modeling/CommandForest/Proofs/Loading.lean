import CommandForest.Proofs.Change
import CommandForest.Proofs.OnePass

/-!
# CommandForest.Proofs.Loading

A definition is loaded as a whole or not at all, and into any forest alike:

* the numbers of planted commands count from the size of the forest, so
  planting further back shifts every link and changes nothing else
  (`Declaration.cellsOfAll_shift`);
* reading looks at no forest, so an error is the same everywhere, and nothing
  is planted before it (`Forest.load_eq`);
* commands are read in the order of their headers, so header lines increase
  with the numbers (`Definition.inLineOrder_of_read`).
-/

namespace CommandForest

/-! ## Shifted numbers -/

/-- The command among commands whose numbers are greater by `k`. -/
def Command.shift (k : Nat) (c : Command) : Command :=
  { c with
    parent := c.parent.map fun n : Nat => n + k
    children := c.children.map fun n : Nat => n + k }

namespace Declaration

theorem places_shift (k base : Nat) (ds : List Declaration) :
    places (base + k) ds = (places base ds).map fun n : Nat => n + k := by
  induction ds generalizing base with
  | nil => rfl
  | cons d ds ih => rw [places, places, List.map_cons, ← ih, Nat.add_right_comm]

mutual

theorem cells_shift (k base : Nat) (parent : Option CommandId) : (d : Declaration) →
    d.cells (base + k) (parent.map fun n : Nat => n + k) =
      (d.cells base parent).map (Command.shift k)
  | .mk c ds => by
      have hbelow := cellsOfAll_shift k (base + 1) (some base) ds
      rw [Option.map_some] at hbelow
      rw [cells, cells, List.map_cons, ← hbelow, Nat.add_right_comm, places_shift]
      rfl

/-- **Planting further back** shifts the links. -/
theorem cellsOfAll_shift (k base : Nat) (parent : Option CommandId) : (ds : List Declaration) →
    cellsOfAll (base + k) (parent.map fun n : Nat => n + k) ds =
      (cellsOfAll base parent ds).map (Command.shift k)
  | [] => rfl
  | d :: ds => by
      rw [cellsOfAll, cellsOfAll, List.map_append, ← cells_shift, ← cellsOfAll_shift,
        Nat.add_right_comm]

end

mutual

theorem map_line_cells (base : Nat) (parent : Option CommandId) : (d : Declaration) →
    (d.cells base parent).map Command.line = d.commands.map Command.line
  | .mk c ds => by
      rw [cells, commands, List.map_cons, List.map_cons, map_line_cellsOfAll]

/-- Planted commands keep the lines of their headers. -/
theorem map_line_cellsOfAll (base : Nat) (parent : Option CommandId) :
    (ds : List Declaration) →
    (cellsOfAll base parent ds).map Command.line = (commandsOfAll ds).map Command.line
  | [] => rfl
  | d :: ds => by
      rw [cellsOfAll, commandsOfAll, List.map_append, List.map_append, map_line_cells,
        map_line_cellsOfAll]

end

end Declaration

/-! ## Header lines -/

/-- The commands come from different lines, in the order of the lines, from
`first` on and before `next`. -/
def InLineOrder (first next : Nat) (cs : List Command) : Prop :=
  ∃ numbers : List Nat, cs.map Command.line = numbers.map some ∧
    numbers.Pairwise (· < ·) ∧ ∀ n ∈ numbers, first ≤ n ∧ n < next

namespace InLineOrder

theorem nil (first next : Nat) : InLineOrder first next [] :=
  ⟨[], rfl, .nil, fun _ hn => absurd hn List.not_mem_nil⟩

theorem single {n : Nat} {c : Command} (h : c.line = some n) : InLineOrder n (n + 1) [c] :=
  ⟨[n], by rw [List.map_singleton, h]; rfl, List.pairwise_singleton _ _,
    fun m hm => by rw [List.mem_singleton.mp hm]; omega⟩

theorem mono {first next earlier later : Nat} {cs : List Command}
    (h : InLineOrder first next cs) (hearlier : earlier ≤ first) (hlater : next ≤ later) :
    InLineOrder earlier later cs := by
  obtain ⟨numbers, hlines, hsorted, hbounds⟩ := h
  refine ⟨numbers, hlines, hsorted, fun n hn => ?_⟩
  exact ⟨Nat.le_trans hearlier (hbounds n hn).1, Nat.lt_of_lt_of_le (hbounds n hn).2 hlater⟩

theorem append {first mid next : Nat} {cs ds : List Command} (hc : InLineOrder first mid cs)
    (hd : InLineOrder mid next ds) (hfirst : first ≤ mid) (hnext : mid ≤ next) :
    InLineOrder first next (cs ++ ds) := by
  obtain ⟨ms, hmlines, hmsorted, hm⟩ := hc
  obtain ⟨ns, hnlines, hnsorted, hn⟩ := hd
  refine ⟨ms ++ ns, by rw [List.map_append, List.map_append, hmlines, hnlines],
    List.pairwise_append.mpr ⟨hmsorted, hnsorted, fun m hmem n hmem' => ?_⟩, fun n hmem => ?_⟩
  · exact Nat.lt_of_lt_of_le (hm m hmem).2 (hn n hmem').1
  · rcases List.mem_append.mp hmem with hmem | hmem
    · exact ⟨(hm n hmem).1, Nat.lt_of_lt_of_le (hm n hmem).2 hnext⟩
    · exact ⟨Nat.le_trans hfirst (hn n hmem).1, (hn n hmem).2⟩

/-- Only the lines of the commands count. -/
theorem congr {first next : Nat} {cs ds : List Command} (h : InLineOrder first next cs)
    (hlines : ds.map Command.line = cs.map Command.line) : InLineOrder first next ds := by
  rw [InLineOrder, hlines]
  exact h

/-- Later commands come from later lines. -/
theorem getElem?_lt {first next : Nat} {cs : List Command} (h : InLineOrder first next cs)
    {i j : Nat} (hij : i < j) {c d : Command} (hc : cs[i]? = some c) (hd : cs[j]? = some d) :
    ∃ l m, c.line = some l ∧ d.line = some m ∧ l < m := by
  obtain ⟨numbers, hlines, hsorted, -⟩ := h
  have hat : ∀ {k : Nat} {e : Command}, cs[k]? = some e →
      ∃ n, numbers[k]? = some n ∧ e.line = some n := by
    intro k e he
    have hline : (cs.map Command.line)[k]? = some e.line := by rw [List.getElem?_map, he]; rfl
    rw [hlines, List.getElem?_map, Option.map_eq_some_iff] at hline
    obtain ⟨n, hn, hline⟩ := hline
    exact ⟨n, hn, hline.symm⟩
  obtain ⟨l, hl, hcl⟩ := hat hc
  obtain ⟨m, hm, hdm⟩ := hat hd
  obtain ⟨hi, rfl⟩ := List.getElem?_eq_some_iff.mp hl
  obtain ⟨hj, rfl⟩ := List.getElem?_eq_some_iff.mp hm
  exact ⟨_, _, hcl, hdm, List.pairwise_iff_getElem.mp hsorted i j hi hj hij⟩

end InLineOrder

namespace Line

/-- A command comes from the line of its header. -/
theorem line_of_readHeader {l : Line} {c : Command} (h : l.readHeader = .ok c) :
    c.line = some l.number := by
  obtain ⟨aliases, tokens, ps, -, -, -, rfl⟩ := readHeader_eq_ok_iff.mp h
  rfl

/-- Directives leave the line of the header alone. -/
theorem line_of_describe {l : Line} {c d : Command} (h : l.describe c = .ok d) :
    d.line = c.line := by
  rw [describe] at h
  cases hdirective : l.directive? with
  | none =>
      rw [hdirective] at h
      cases h
      rfl
  | some directive =>
      rw [hdirective] at h
      cases directive with
      | users word =>
          dsimp only [Directive.apply] at h
          split at h
          · cases h
            rfl
          · contradiction
      | hook | permission | help | hidesub =>
          cases h
          rfl

end Line

/-- The header lines of a command that was read, and of those inside it, are in
order and before all lines that are left. -/
theorem Declaration.inLineOrder_of_readBody {fuel first header k : Nat} {c : Command}
    {below : List Declaration} {texts : List (List Char)} {rest : List Line} {d : Declaration}
    (h : readBody fuel header c below (Line.numbered k texts) = .ok (.closed d rest))
    (hfirst : first ≤ k) (hhere : InLineOrder first k (c :: commandsOfAll below)) :
    ∃ next more, rest = Line.numbered next more ∧ k ≤ next ∧
      InLineOrder first next d.commands := by
  induction fuel generalizing first header k c below texts rest d with
  | zero => cases texts <;> cases h
  | succ fuel ih =>
      cases texts with
      | nil => cases h
      | cons text texts =>
          rw [Line.numbered, readBody] at h
          split at h
          · -- a header: the command it opens is read first
            cases hchild : Line.readHeader ⟨k, Text.trim text⟩ with
            | error e => rw [hchild] at h; cases h
            | ok child =>
                rw [hchild] at h
                dsimp only at h
                cases hread : readBody fuel k child [] (Line.numbered (k + 1) texts) with
                | error e => rw [hread] at h; cases h
                | ok reading =>
                    rw [hread] at h
                    cases reading with
                    | unclosed command line => cases h
                    | closed inner after =>
                        obtain ⟨mid, others, rfl, hmid, hinner⟩ := ih hread (Nat.le_succ k)
                          (.single (Line.line_of_readHeader hchild))
                        have hboth : InLineOrder first mid
                            (c :: commandsOfAll (below ++ [inner])) := by
                          rw [commandsOfAll_append, commandsOfAll, commandsOfAll, List.append_nil]
                          exact hhere.append hinner hfirst (by omega)
                        obtain ⟨next, more, hrest, hnext, hall⟩ := ih h (by omega) hboth
                        exact ⟨next, more, hrest, by omega, hall⟩
          · split at h
            · cases h
              exact ⟨k + 1, texts, rfl, Nat.le_succ k,
                hhere.mono (Nat.le_refl first) (Nat.le_succ k)⟩
            · cases hline : Line.describe ⟨k, Text.trim text⟩ c with
              | error e => rw [hline] at h; cases h
              | ok c' =>
                  rw [hline] at h
                  have hdescribed : InLineOrder first (k + 1) (c' :: commandsOfAll below) :=
                    (hhere.mono (Nat.le_refl first) (Nat.le_succ k)).congr (by
                      rw [List.map_cons, List.map_cons, Line.line_of_describe hline])
                  obtain ⟨next, more, hrest, hnext, hall⟩ := ih h (by omega) hdescribed
                  exact ⟨next, more, hrest, by omega, hall⟩

theorem Definition.inLineOrder_of_readLines {fuel limit k : Nat} {texts : List (List Char)}
    {d : Definition} (h : readLines fuel limit (Line.numbered k texts) = .ok d) :
    ∃ next, k ≤ next ∧ InLineOrder k next (Declaration.commandsOfAll d.commands) := by
  induction fuel generalizing limit k texts d with
  | zero => cases h; exact ⟨k, Nat.le_refl k, .nil k k⟩
  | succ fuel ih =>
      cases limit with
      | zero => cases h; exact ⟨k, Nat.le_refl k, .nil k k⟩
      | succ limit =>
          cases texts with
          | nil => cases h; exact ⟨k, Nat.le_refl k, .nil k k⟩
          | cons text texts =>
              rw [Line.numbered, readLines] at h
              split at h
              · rw [Declaration.read] at h
                cases hchild : Line.readHeader ⟨k, Text.trim text⟩ with
                | error e => rw [hchild] at h; cases h
                | ok child =>
                    rw [hchild] at h
                    dsimp only at h
                    split at h
                    · cases h
                    · cases h; exact ⟨k, Nat.le_refl k, .nil k k⟩
                    · next inner after hread =>
                        obtain ⟨more, hmore, rfl⟩ := map_eq_ok_iff.mp h
                        obtain ⟨mid, others, rfl, hmid, hinner⟩ :=
                          Declaration.inLineOrder_of_readBody hread (Nat.le_succ k)
                            (.single (Line.line_of_readHeader hchild))
                        obtain ⟨next, hnext, hlater⟩ := ih hmore
                        exact ⟨next, by omega, hinner.append hlater (by omega) hnext⟩
              · obtain ⟨next, hnext, hall⟩ := ih h
                exact ⟨next, by omega, hall.mono (Nat.le_succ k) (Nat.le_refl next)⟩

/-- **Commands are read in order**: their header lines increase. -/
theorem Definition.inLineOrder_of_read {source : String} {d : Definition}
    (h : Definition.read source = .ok d) :
    ∃ next, InLineOrder 1 next (Declaration.commandsOfAll d.commands) := by
  obtain ⟨next, -, hall⟩ := Definition.inLineOrder_of_readLines h
  exact ⟨next, hall⟩

namespace Forest

/-! ## Loading -/

theorem find?_extend_of_le (f : Forest) (cells : List Command) {n : Nat} (h : f.size ≤ n) :
    (f.extend cells).find? n = cells[n - f.size]? := by
  rw [find?, extend, Array.getElem?_append_right h, List.getElem?_toArray]
  rfl

/-- A forest after a load, in closed form. -/
theorem load_eq (f : Forest) (source : String) :
    f.load source = (Definition.read source).map fun d =>
      (Declaration.places f.size d.commands,
        (f.adopt (Declaration.places f.size d.commands) none).extend
          (Declaration.cellsOfAll f.size none d.commands), d.report) := by
  rw [load]
  congr 1
  funext d
  rw [plantRoots_eq, plantAll_eq f none (by simp)]

/-- **Loading** is all or nothing, and the same everywhere: it fails where the
source fails on its own, and leaves the forest as it is; otherwise the commands
of the source are put behind those of the forest, their links shifted by its
size.  They come with nothing but what the source says, and in the order of its
lines. -/
theorem load_appends_parsed (f : Forest) (source : String) :
    (∀ e, f.load source = .error e ↔ ({} : Forest).load source = .error e) ∧
    (∀ e, ({} : Forest).load source = .error e → f.perform (.load source) = f) ∧
    (∀ ids parsed report, ({} : Forest).load source = .ok (ids, parsed, report) →
      ids = parsed.roots ∧
      ∃ g, f.load source = .ok (parsed.roots.map fun n : Nat => n + f.size, g, report) ∧
        f.perform (.load source) = g ∧
        g.commands = f.commands ++ parsed.commands.map (Command.shift f.size) ∧
        g.roots = f.roots ++ parsed.roots.map (fun n : Nat => n + f.size) ∧
        g.messages = f.messages ∧
        (∀ n d, f.size ≤ n → g.find? n = some d → d.providers = {} ∧ d.binding = .unbound) ∧
        (∀ i j c d, f.size ≤ i → i < j → g.find? i = some c → g.find? j = some d →
          ∃ l m, c.line = some l ∧ d.line = some m ∧ l < m)) := by
  rw [load_eq f, load_eq {}]
  cases hread : Definition.read source with
  | error e =>
      have hkept : f.perform (.load source) = f := by
        rw [perform, load_eq, hread]
        rfl
      exact ⟨fun _ => Iff.rfl, fun _ _ => hkept, fun _ _ _ h => by contradiction⟩
  | ok d =>
      refine ⟨fun _ => ⟨fun h => by contradiction, fun h => by contradiction⟩,
        fun _ h => by contradiction, ?_⟩
      intro ids parsed report h
      cases h
      have hplaces : Declaration.places f.size d.commands =
          (Declaration.places 0 d.commands).map fun n : Nat => n + f.size := by
        rw [← Declaration.places_shift, Nat.zero_add]
      have hcells : Declaration.cellsOfAll f.size none d.commands =
          (Declaration.cellsOfAll 0 none d.commands).map (Command.shift f.size) := by
        rw [← Declaration.cellsOfAll_shift, Nat.zero_add]
        rfl
      obtain ⟨next, hlines⟩ := Definition.inLineOrder_of_read hread
      have hnew : ∀ {n : Nat} {c : Command}, f.size ≤ n →
          ((f.adopt (Declaration.places f.size d.commands) none).extend
            (Declaration.cellsOfAll f.size none d.commands)).find? n = some c →
          (Declaration.cellsOfAll f.size none d.commands)[n - f.size]? = some c := by
        intro n c hn hc
        rw [find?_extend_of_le _ _ (by rw [size_adopt]; exact hn), size_adopt] at hc
        exact hc
      refine ⟨rfl, _, congrArg Except.ok (Prod.ext hplaces rfl), ?_, ?_, ?_, rfl, ?_, ?_⟩
      · rw [perform, load_eq, hread]
        rfl
      · show f.commands ++ (Declaration.cellsOfAll f.size none d.commands).toArray =
          f.commands ++ (#[] ++ (Declaration.cellsOfAll 0 none d.commands).toArray).map _
        rw [hcells]
        simp
      · show f.roots ++ Declaration.places f.size d.commands =
          f.roots ++ ([] ++ Declaration.places 0 d.commands).map _
        rw [hplaces, List.nil_append]
      · intro n c hn hc
        obtain ⟨e, he, parent, children, rfl⟩ :=
          Declaration.mem_cellsOfAll _ _ _ (List.mem_of_getElem? (hnew hn hc))
        have hdeclared := Declaration.isDeclared_of_read hread e he
        exact ⟨hdeclared.providers, hdeclared.binding⟩
      · intro i j c e hi hij hc he
        exact (hlines.congr (Declaration.map_line_cellsOfAll _ _ _)).getElem?_lt
          (Nat.sub_lt_sub_right hi hij) (hnew hi hc)
          (hnew (Nat.le_trans hi (Nat.le_of_lt hij)) he)

/-- A hut with a door. -/
def hut : String := "hut \x7b\n door,gate \x7b\n \x7d\n\x7d"

/-- A forest with one command. -/
def shed : Forest := ({} : Forest).run [.appendRoot { aliases := ["shed"] }]

/-- The hut stands behind what is there already, with its door.  With a second
door that has no name, nothing is added. -/
theorem load_appends_parsed_hut :
    (∃ g report, shed.load hut = .ok ([1], g, report) ∧ g.roots = [0, 1] ∧
      g.commands.map Command.children = #[[], [2], []] ∧
      ∀ c d, g.find? 1 = some c → g.find? 2 = some d →
        ∃ l m, c.line = some l ∧ d.line = some m ∧ l < m) ∧
    shed.perform (.load (hut ++ "\n\x7b")) = shed := by
  constructor
  · obtain ⟨-, -, hparsed⟩ := load_appends_parsed shed hut
    obtain ⟨⟨ids, parsed, report⟩, hload⟩ : ∃ answer, ({} : Forest).load hut = .ok answer :=
      ⟨_, rfl⟩
    have halone : (({} : Forest).load hut).toOption.map
        (fun answer => (answer.2.1.roots, answer.2.1.commands.map Command.children)) =
        some ([0], #[[1], []]) := by
      decide +kernel
    rw [hload] at halone
    obtain ⟨hroots, hchildren⟩ := Prod.mk.inj (Option.some.inj halone)
    obtain ⟨-, g, hg, -, hcommands, hgroots, -, -, hlines⟩ := hparsed ids parsed report hload
    rw [hroots] at hg hgroots
    refine ⟨g, report, hg, hgroots, ?_, ?_⟩
    · have hshift : (parsed.commands.map (Command.shift shed.size)).map Command.children =
          (parsed.commands.map Command.children).map (List.map fun n : Nat => n + shed.size) := by
        simp [Command.shift]
      rw [hcommands, Array.map_append, hshift, hchildren]
      decide +kernel
    · exact fun c d => hlines 1 2 c d (by decide) (by decide)
  · obtain ⟨-, hatomic, -⟩ := load_appends_parsed shed (hut ++ "\n\x7b")
    obtain ⟨e, he⟩ : ∃ e, ({} : Forest).load (hut ++ "\n\x7b") = .error e := ⟨_, rfl⟩
    exact hatomic e he

end Forest

end CommandForest
