import SchemaClosure.Proofs.Yaml.Spelling
import SchemaClosure.Yaml.Reading

/-!
# Reading the graph of a JSON text

A graph whose root stands for a tree is read from the root on without a fault (`Reading.ofGraph_done`), and then every
node that was met stands for what its content says (`Graph.part`), with all below it met. The invariant
(`Reading.Sound`) allows for the lists and mappings that wait for their turn; the nodes not met and those that wait
bound the steps.
-/

namespace SchemaClosure.Yaml

open Json (Tree)
open Json.Tree

/-! ## What nodes should be read as -/

namespace Graph

/-- The text of a scalar. -/
def nodeText (g : Graph) (n : Nat) : String :=
  match (g.node n).content with
  | .text s => s
  | _ => ""

/-- The entries of a mapping with the texts of their keys. -/
def keyed (g : Graph) (parts : List (Nat × Nat)) (entries : List (Scalar × Nat)) : List (Scalar × Nat) :=
  parts.foldl (fun entries part => (Scalar.text (g.nodeText part.1)).put part.2 entries) entries

/-- What a node stands for where nothing is shared. -/
def part (g : Graph) (n : Nat) : Reading.Part :=
  match (g.node n).content with
  | .text s => .scalar ((scalarValue none (g.node n).tag s).toOption.getD .null)
  | .items parts => .items parts
  | .entries parts => .entries (g.keyed parts [])

theorem part_ne_waiting (g : Graph) (n : Nat) : g.part n ≠ .waiting := by
  unfold part
  split <;> exact fun h => by cases h

/-- The nodes of the items of a list or of the values of a mapping. -/
def below (g : Graph) (n : Nat) : List Nat :=
  match (g.node n).content with
  | .text _ => []
  | .items parts => parts
  | .entries parts => parts.map (·.2)

end Graph

/-- A node that stands for a list or a mapping. -/
def Holds (g : Graph) (n : Nat) : Prop := ∃ t, Spells g n t ∧ t.hasParts = true

namespace Reading

/-- The lists and mappings that are not read yet; `reading` are those whose turn it is. -/
def pending (r : Reading) (reading : List Nat) : List Nat := reading ++ (r.now ++ r.later)

/-- A state of reading a graph in which nothing is shared: what was met stands for what it should, with all that is
below it met, or it is not read yet. -/
structure Sound (g : Graph) (r : Reading) (reading : List Nat) : Prop where
  graph : r.graph = g
  size : r.parts.size = g.nodes.size
  met : ∀ n p, r.part? n = some p →
    p = g.part n ∧ (∀ m ∈ g.below n, r.part? m ≠ none) ∨ p = .waiting ∧ n ∈ r.pending reading
  holds : ∀ n ∈ r.pending reading, Holds g n

/-- The nodes that were not met. -/
def unmet (r : Reading) : Nat := r.parts.toList.countP (·.isNone)

/-- The state in which more nodes were met, and those that wait for their turn were noted. -/
structure Grows (r r' : Reading) : Prop where
  now : r'.now = r.now
  parts : ∀ n p, r.part? n = some p → r'.part? n = some p
  weight : r'.unmet + r'.later.length ≤ r.unmet + r.later.length

theorem Grows.refl (r : Reading) : Grows r r := ⟨rfl, fun _ _ h => h, Nat.le_refl _⟩

theorem Grows.trans {r r' r'' : Reading} (h : Grows r r') (h' : Grows r' r'') : Grows r r'' :=
  ⟨h'.now.trans h.now, fun n p hp => h'.parts n p (h.parts n p hp), h'.weight.trans h.weight⟩

theorem Grows.met {r r' : Reading} (h : Grows r r') {n : Nat} (hn : r.part? n ≠ none) : r'.part? n ≠ none := by
  obtain ⟨p, hp⟩ := Option.ne_none_iff_exists'.1 hn
  rw [h.parts n p hp]
  exact Option.some_ne_none p

theorem part?_eq {r : Reading} {n : Nat} (hn : n < r.parts.size) : r.part? n = r.parts[n] := by
  rw [part?, Array.getElem?_eq_getElem hn, Option.join_some]

theorem part?_set (r : Reading) {n : Nat} (hn : n < r.parts.size) (p : Part) (m : Nat) :
    (r.set n p).part? m = if m = n then some p else r.part? m := by
  simp only [set, part?, Array.getElem?_setIfInBounds, hn, if_true]
  split
  · rename_i h
    rw [if_pos h.symm, Option.join_some]
  · rename_i h
    rw [if_neg (Ne.symm h)]

/-- A node that is met is one less that was not. -/
theorem unmet_set {r : Reading} {n : Nat} (hn : n < r.parts.size) (p : Part) :
    (r.set n p).unmet + (if r.part? n = none then 1 else 0) = r.unmet := by
  have hn' : n < r.parts.toList.length := hn
  rw [unmet, set, Array.toList_setIfInBounds, List.countP_set hn', unmet, part?_eq hn, ← Array.getElem_toList hn']
  cases hp : r.parts.toList[n] with
  | some q => simp
  | none =>
    have hpos : 0 < r.parts.toList.countP (·.isNone) :=
      List.countP_pos_iff.2 ⟨_, List.getElem_mem hn', by rw [hp]; rfl⟩
    have hone : (none : Option Part).isNone = true := rfl
    rw [if_pos hone, if_pos rfl, if_neg (by simp)]
    omega

/-! ## Scalars -/

/-- The node of a scalar with a value. -/
def IsScalar (g : Graph) (n : Nat) (s : Scalar) : Prop :=
  ∃ tag text, g.node n = ⟨tag, false, .text text⟩ ∧ scalarValue none tag text = .ok s

theorem IsScalar.part {g : Graph} {n : Nat} {s : Scalar} (h : IsScalar g n s) : g.part n = .scalar s := by
  obtain ⟨tag, text, hnode, hvalue⟩ := h
  rw [Graph.part, hnode]
  dsimp only
  rw [hvalue]
  rfl

theorem IsScalar.below {g : Graph} {n : Nat} {s : Scalar} (h : IsScalar g n s) : g.below n = [] := by
  obtain ⟨tag, text, hnode, -⟩ := h
  rw [Graph.below, hnode]

theorem IsScalar.scalarOf_eq {g : Graph} {n : Nat} {s : Scalar} (h : IsScalar g n s) : scalarOf g n = .ok s := by
  obtain ⟨tag, text, hnode, hvalue⟩ := h
  have htext : g.text (g.nodes.size + 1) n = .ok text := by rw [Graph.text, hnode]
  have hmark : g.mark? n = none := by rw [Graph.mark?, hnode]; rfl
  rw [scalarOf, htext, hmark, hnode]
  cases tag <;> exact hvalue

/-- The nodes of words and literals are scalars. -/
theorem isScalar_of_spells {g : Graph} {n : Nat} {t : Tree} (h : Spells g n t) (ht : t.hasParts = false) :
    ∃ s, IsScalar g n s := by
  cases t with
  | word w =>
    obtain ⟨-, hnode, s, hs⟩ := h
    exact ⟨s, _, _, hnode, hs⟩
  | literal s => exact ⟨_, _, _, h.2, rfl⟩
  | list _ => cases ht
  | mapping _ => cases ht

theorem isScalar_of_spellsText {g : Graph} {n : Nat} {s : String} (h : SpellsText g n s) :
    IsScalar g n (.text (Text.units s)) :=
  ⟨_, _, h.2, rfl⟩

theorem IsScalar.eq {g : Graph} {n : Nat} {s s' : Scalar} (h : IsScalar g n s) (h' : IsScalar g n s') : s = s' := by
  have := h.part.symm.trans h'.part
  exact Part.scalar.inj this

theorem not_isScalar_of_holds {g : Graph} {n : Nat} (h : Holds g n) (s : Scalar) : ¬IsScalar g n s := by
  rintro ⟨tag, text, hnode, -⟩
  obtain ⟨t, hspells, hparts⟩ := h
  cases t with
  | word _ => cases hparts
  | literal _ => cases hparts
  | list _ =>
    obtain ⟨-, parts, hlist, -⟩ := hspells
    rw [hnode] at hlist
    cases hlist
  | mapping _ =>
    obtain ⟨-, parts, hmapping, -⟩ := hspells
    rw [hnode] at hmapping
    cases hmapping

theorem hasParts_of_spells {g : Graph} {n : Nat} {t : Tree} (h : Spells g n t) (ht : t.hasParts = true) :
    hasParts (g.node n).tag = true := by
  cases t with
  | word _ => cases ht
  | literal _ => cases ht
  | list _ =>
    obtain ⟨-, parts, hlist, -⟩ := h
    rw [hlist]
    rfl
  | mapping _ =>
    obtain ⟨-, parts, hmapping, -⟩ := h
    rw [hmapping]
    rfl

theorem lt_size_of_spells {g : Graph} {n : Nat} {t : Tree} (h : Spells g n t) : n < g.nodes.size := by
  cases t <;> exact h.1

/-- A scalar that was not met yet is met. -/
theorem IsScalar.meet_eq {g : Graph} {r : Reading} {n : Nat} {s : Scalar} (h : IsScalar g n s) (hg : r.graph = g)
    (hnone : r.part? n = none) : meet n r = .ok (some s, r.set n (.scalar s)) := by
  have hscalar := h.scalarOf_eq
  obtain ⟨tag, text, hnode, hvalue⟩ := h
  subst hg
  rw [meet, hnone]
  dsimp only
  rw [hnode, hscalar]
  cases tag <;> first | rfl | cases hvalue

/-! ## Meeting nodes -/

/-- One more node is met, and at most one more waits. -/
theorem grows_set {r : Reading} {n : Nat} (hn : n < r.parts.size) (hnone : r.part? n = none) (p : Part)
    {later : List Nat} (hlater : later.length ≤ r.later.length + 1) : Grows r { r.set n p with later } := by
  refine ⟨rfl, fun m q hq => ?_, ?_⟩
  · rw [← hq]
    refine (part?_set r hn p m).trans (if_neg ?_)
    rintro rfl
    rw [hnone] at hq
    cases hq
  · have hunmet := unmet_set hn p
    rw [if_pos hnone] at hunmet
    show (r.set n p).unmet + later.length ≤ _
    omega

/-- One more node is met: a scalar at once, a list or mapping to be read later. -/
theorem Sound.set {g : Graph} {r : Reading} {reading : List Nat} (h : r.Sound g reading) {n : Nat}
    (hn : n < g.nodes.size) (hnone : r.part? n = none) {p : Part} {later : List Nat}
    (hlater : ∀ m, m ∈ later ↔ m ∈ r.later ∨ m = n ∧ p = .waiting)
    (hp : p = g.part n ∧ g.below n = [] ∨ p = .waiting ∧ Holds g n) :
    Sound g { r.set n p with later } reading := by
  have hn' : n < r.parts.size := h.size.symm ▸ hn
  have hmet : ∀ m, r.part? m ≠ none → part? { r.set n p with later } m ≠ none := by
    intro m hm
    rw [show part? { r.set n p with later } m = _ from part?_set r hn' p m]
    split
    · exact Option.some_ne_none p
    · exact hm
  have hpending : ∀ m, m ∈ pending { r.set n p with later } reading ↔
      m ∈ r.pending reading ∨ m = n ∧ p = .waiting := by
    intro m
    simp only [pending, List.mem_append, hlater, Reading.set]
    tauto
  refine ⟨h.graph, ?_, fun m q hq => ?_, fun m hm => ?_⟩
  · exact Array.size_setIfInBounds.trans h.size
  · rw [show part? { r.set n p with later } m = _ from part?_set r hn' p m] at hq
    split at hq
    · rename_i hm
      obtain rfl := Option.some.inj hq
      subst hm
      rcases hp with ⟨hp, hbelow⟩ | ⟨hp, -⟩
      · exact .inl ⟨hp, hbelow ▸ List.forall_mem_nil _⟩
      · exact .inr ⟨hp, (hpending m).2 (.inr ⟨rfl, hp⟩)⟩
    · rcases h.met m q hq with ⟨hq, hbelow⟩ | ⟨hq, hm⟩
      · exact .inl ⟨hq, fun k hk => hmet k (hbelow k hk)⟩
      · exact .inr ⟨hq, (hpending m).2 (.inl hm)⟩
  · rcases (hpending m).1 hm with hm | ⟨rfl, hwaiting⟩
    · exact h.holds m hm
    · rcases hp with ⟨hp, -⟩ | ⟨-, hholds⟩
      · exact absurd (hp.symm.trans hwaiting) (Graph.part_ne_waiting g m)
      · exact hholds

/-- A node is met. -/
theorem Sound.meet {g : Graph} {r : Reading} {reading : List Nat} (h : r.Sound g reading) {n : Nat} {t : Tree}
    (ht : Spells g n t) :
    ∃ found r', meet n r = .ok (found, r') ∧ r'.Sound g reading ∧ r.Grows r' ∧ r'.part? n ≠ none ∧
      ∀ s, IsScalar g n s → found = some s := by
  have hn := lt_size_of_spells ht
  cases hpart : r.part? n with
  | some p =>
    have hmet : r.part? n ≠ none := by
      rw [hpart]
      exact Option.some_ne_none p
    cases p with
    | scalar s =>
      refine ⟨some s, r, by rw [Reading.meet, hpart], h, Grows.refl r, hmet, fun s' hs' => ?_⟩
      rcases h.met n _ hpart with ⟨hp, -⟩ | ⟨hp, -⟩
      · rw [hs'.part] at hp
        exact congrArg some (Part.scalar.inj hp)
      · cases hp
    | _ =>
      refine ⟨none, r, by rw [Reading.meet, hpart], h, Grows.refl r, hmet, fun s' hs' => ?_⟩
      rcases h.met n _ hpart with ⟨hp, -⟩ | ⟨-, hn⟩
      · rw [hs'.part] at hp
        cases hp
      · exact absurd hs' (not_isScalar_of_holds (h.holds n hn) s')
  | none =>
    have hn' : n < r.parts.size := h.size.symm ▸ hn
    have hmet : ∀ (p : Part) (later : List Nat), part? { r.set n p with later } n ≠ none := by
      intro p later
      rw [show part? { r.set n p with later } n = _ from part?_set r hn' p n, if_pos rfl]
      exact Option.some_ne_none p
    cases hparts : t.hasParts with
    | true =>
      have hholds : Holds g n := ⟨t, ht, hparts⟩
      refine ⟨none, { r.set n .waiting with later := n :: r.later }, ?_,
        h.set hn hpart (fun m => by simp [or_comm]) (.inr ⟨rfl, hholds⟩), grows_set hn' hpart _ (Nat.le_refl _),
        hmet _ _, fun s hs => absurd hs (not_isScalar_of_holds hholds s)⟩
      rw [Reading.meet, hpart, h.graph]
      exact if_pos (hasParts_of_spells ht hparts)
    | false =>
      obtain ⟨s, hs⟩ := isScalar_of_spells ht hparts
      exact ⟨some s, r.set n (.scalar s), hs.meet_eq h.graph hpart,
        h.set hn hpart (fun m => by simp) (.inl ⟨hs.part.symm, hs.below⟩), grows_set hn' hpart _ (Nat.le_succ _),
        hmet _ _, fun s' hs' => congrArg some (hs.eq hs')⟩

/-- The items of a list are met. -/
theorem Sound.items {g : Graph} {reading : List Nat} {n : Nat} (items : List Tree) : ∀ {r : Reading} {parts : List Nat},
    r.Sound g reading → SpellsItems g n parts items →
      ∃ r', r.items parts = .ok r' ∧ r'.Sound g reading ∧ r.Grows r' ∧ ∀ m ∈ parts, r'.part? m ≠ none := by
  induction items with
  | nil =>
    rintro r parts h rfl
    exact ⟨r, rfl, h, Grows.refl r, List.forall_mem_nil _⟩
  | cons t rest ih =>
    rintro r parts h ⟨m, more, rfl, -, ht, hrest⟩
    obtain ⟨found, r₁, hmeet, hsound₁, hgrows₁, hmet, -⟩ := h.meet ht
    obtain ⟨r₂, hitems, hsound₂, hgrows₂, hall⟩ := ih hsound₁ hrest
    refine ⟨r₂, ?_, hsound₂, hgrows₁.trans hgrows₂, List.forall_mem_cons.2 ⟨hgrows₂.met hmet, hall⟩⟩
    rw [Reading.items] at hitems ⊢
    simp only [List.foldlM_cons, hmeet, bind, Except.bind]
    exact hitems

/-- The entries of a mapping are met one after the other, by a step that meets the key and the value of one. -/
theorem Sound.foldlM_entries {g : Graph} {reading : List Nat} {n : Nat}
    {step : List (Scalar × Nat) × Reading → Nat × Nat → Except Fault (List (Scalar × Nat) × Reading)}
    (hstep : ∀ {r r₁ r₂ : Reading} {key value : Nat} {s : Scalar} {found : Option Scalar}
      (before : List (Scalar × Nat)), Reading.meet key r = .ok (some s, r₁) → Reading.meet value r₁ = .ok (found, r₂) →
        step (before, r) (key, value) = .ok (s.put value before, r₂))
    (entries : List (String × Tree)) : ∀ {r : Reading} {parts : List (Nat × Nat)} {before : List (Scalar × Nat)},
    r.Sound g reading → SpellsEntries g n parts entries →
      ∃ r', parts.foldlM step (before, r) = .ok (g.keyed parts before, r') ∧ r'.Sound g reading ∧ r.Grows r' ∧
        ∀ m ∈ parts.map (·.2), r'.part? m ≠ none := by
  induction entries with
  | nil =>
    rintro r parts before h rfl
    exact ⟨r, rfl, h, Grows.refl r, List.forall_mem_nil _⟩
  | cons entry rest ih =>
    rintro r parts before h ⟨k, m, more, rfl, -, -, hs, ht, hrest⟩
    obtain ⟨found₁, r₁, hmeet₁, hsound₁, hgrows₁, -, hfound⟩ := h.meet (t := .literal entry.1) hs
    obtain rfl := hfound _ (isScalar_of_spellsText hs)
    obtain ⟨found₂, r₂, hmeet₂, hsound₂, hgrows₂, hmet, -⟩ := hsound₁.meet ht
    obtain ⟨r₃, hentries, hsound₃, hgrows₃, hall⟩ := ih hsound₂ hrest
    refine ⟨r₃, ?_, hsound₃, (hgrows₁.trans hgrows₂).trans hgrows₃,
      List.forall_mem_cons.2 ⟨hgrows₃.met hmet, hall⟩⟩
    rw [List.foldlM_cons, hstep before hmeet₁ hmeet₂]
    have hkey : g.nodeText k = Text.units entry.1 := by rw [Graph.nodeText, hs.2]
    rw [Graph.keyed, List.foldl_cons, hkey]
    exact hentries

theorem Sound.entries {g : Graph} {reading : List Nat} {n : Nat} {entries : List (String × Tree)} {r : Reading}
    {parts : List (Nat × Nat)} (h : r.Sound g reading) (hentries : SpellsEntries g n parts entries) :
    ∃ r', r.entries parts = .ok (g.keyed parts [], r') ∧ r'.Sound g reading ∧ r.Grows r' ∧
      ∀ m ∈ parts.map (·.2), r'.part? m ≠ none := by
  unfold Reading.entries
  refine h.foldlM_entries ?_ entries hentries
  intro r r₁ r₂ key value s found before hkey hvalue
  simp only [hkey, hvalue, bind, Except.bind]
  rfl

/-! ## Reading lists and mappings -/

theorem cutMerge?_eq_none {g : Graph} {n : Nat} (entries : List (String × Tree)) : ∀ {parts : List (Nat × Nat)},
    SpellsEntries g n parts entries → g.cutMerge? parts = none := by
  induction entries with
  | nil =>
    rintro parts rfl
    rfl
  | cons entry rest ih =>
    rintro parts ⟨k, m, more, rfl, -, -, hs, -, hrest⟩
    rw [Graph.cutMerge?, hs.2, ih hrest]
    rfl

theorem nameKeys_eq {g : Graph} {n : Nat} (entries : List (String × Tree)) : ∀ {parts : List (Nat × Nat)},
    SpellsEntries g n parts entries → g.nameKeys parts = g := by
  induction entries with
  | nil =>
    rintro parts rfl
    rfl
  | cons entry rest ih =>
    rintro parts ⟨k, m, more, rfl, -, -, hs, -, hrest⟩
    have hstr : ¬(g.node k).tag = .value := by
      rw [hs.2]
      exact fun h => by cases h
    rw [Graph.nameKeys, List.foldl_cons]
    dsimp only
    rw [if_neg hstr]
    exact ih hrest

/-- Filling in what is there changes nothing. -/
theorem fill_eq {g : Graph} {n : Nat} {content : Node.Content} (h : (g.node n).content = content) :
    g.fill n content = g := by
  have hnodes : g.nodes.modify n ({ · with content }) = g.nodes := by
    refine Array.ext_getElem? fun m => ?_
    rw [Array.getElem?_modify]
    split
    · rename_i hm
      subst hm
      cases hnode : g.nodes[n]? with
      | none => rfl
      | some x =>
        rw [Graph.node, Array.getD_eq_getD_getElem?, hnode] at h
        rw [← h]
        rfl
    · rfl
  rw [Graph.fill, Graph.modify, hnodes]

/-- Without merge keys a mapping stays as it is. -/
theorem flatten_eq {g : Graph} {n : Nat} {parts : List (Nat × Nat)} {entries : List (String × Tree)}
    (hnode : (g.node n).content = .entries parts) (h : SpellsEntries g n parts entries) (fuel : Nat) :
    g.flatten fuel n = .ok g := by
  rw [Graph.flatten, Graph.flattenFrom, hnode]
  dsimp only
  rw [cutMerge?_eq_none entries h]
  dsimp only
  rw [nameKeys_eq entries h, List.nil_append, fill_eq hnode]

/-- The state where no more lists and mappings wait than before, and nothing that was met is forgotten. -/
structure Advances (r r' : Reading) : Prop where
  now : r'.now = r.now
  met : ∀ n, r.part? n ≠ none → r'.part? n ≠ none
  weight : r'.unmet + r'.later.length ≤ r.unmet + r.later.length

theorem Grows.advances {r r' : Reading} (h : r.Grows r') : r.Advances r' :=
  ⟨h.now, fun _ => h.met, h.weight⟩

theorem Advances.trans {r r' r'' : Reading} (h : r.Advances r') (h' : r'.Advances r'') : r.Advances r'' :=
  ⟨h'.now.trans h.now, fun n hn => h'.met n (h.met n hn), h'.weight.trans h.weight⟩

/-- A list or mapping is read once all below it is met. -/
theorem Sound.finish {g : Graph} {r : Reading} {n : Nat} (h : r.Sound g [n]) (hn : n < g.nodes.size)
    (hbelow : ∀ m ∈ g.below n, r.part? m ≠ none) :
    (r.set n (g.part n)).Sound g [] ∧ r.Advances (r.set n (g.part n)) := by
  have hn' : n < r.parts.size := h.size.symm ▸ hn
  have hmet : ∀ m, r.part? m ≠ none → (r.set n (g.part n)).part? m ≠ none := by
    intro m hm
    rw [part?_set r hn']
    split
    · exact Option.some_ne_none _
    · exact hm
  refine ⟨⟨h.graph, ?_, ?_, fun m hm => h.holds m (List.mem_cons_of_mem n hm)⟩, rfl, hmet, ?_⟩
  · rw [Reading.set, Array.size_setIfInBounds, h.size]
  · intro m p hp
    rw [part?_set r hn'] at hp
    split at hp
    · rename_i hm
      subst hm
      exact .inl ⟨(Option.some.inj hp).symm, fun k hk => hmet k (hbelow k hk)⟩
    · rename_i hm
      rcases h.met m p hp with ⟨hp, hbelow⟩ | ⟨hp, hpending⟩
      · exact .inl ⟨hp, fun k hk => hmet k (hbelow k hk)⟩
      · exact .inr ⟨hp, (List.mem_cons.1 hpending).resolve_left hm⟩
  · have := unmet_set hn' (g.part n)
    show (r.set n (g.part n)).unmet + r.later.length ≤ _
    omega

/-- Reading a list or mapping whose turn it is. -/
theorem Sound.read {g : Graph} {r : Reading} {n : Nat} (h : r.Sound g [n]) (fuel : Nat) :
    ∃ r', r.read fuel n = .ok r' ∧ r'.Sound g [] ∧ r.Advances r' := by
  obtain ⟨t, ht, hparts⟩ := h.holds n List.mem_cons_self
  have hn := lt_size_of_spells ht
  cases t with
  | word _ => cases hparts
  | literal _ => cases hparts
  | list items =>
    obtain ⟨-, parts, hnode, hspells⟩ := ht
    obtain ⟨r₁, hitems, hsound, hgrows, hmet⟩ := h.items items hspells
    have hbelow : g.below n = parts := by rw [Graph.below, hnode]
    have hpart : g.part n = .items parts := by rw [Graph.part, hnode]
    obtain ⟨hdone, hadvances⟩ := hsound.finish hn (hbelow ▸ hmet)
    refine ⟨_, ?_, hdone, hgrows.advances.trans hadvances⟩
    rw [Reading.read, h.graph, hnode, hpart]
    simp only [hitems, bind, Except.bind]
    rfl
  | mapping entries =>
    obtain ⟨-, parts, hnode, hspells⟩ := ht
    obtain ⟨r₁, hentries, hsound, hgrows, hmet⟩ := h.entries hspells
    have hbelow : g.below n = parts.map (·.2) := by rw [Graph.below, hnode]
    have hpart : g.part n = .entries (g.keyed parts []) := by rw [Graph.part, hnode]
    obtain ⟨hdone, hadvances⟩ := hsound.finish hn (hbelow ▸ hmet)
    refine ⟨_, ?_, hdone, hgrows.advances.trans hadvances⟩
    have hmapping : r.mapping fuel n = .ok (g.keyed parts [], r₁) := by
      have hcontent : (g.node n).content = .entries parts := by rw [hnode]
      have hsame : ({ r with graph := g } : Reading) = r := by rw [← h.graph]
      rw [Reading.mapping, h.graph, flatten_eq hcontent hspells]
      simp only [bind, Except.bind, hcontent, hsame, hentries]
    rw [Reading.read, h.graph, hnode, hpart]
    simp only [hmapping, bind, Except.bind]
    rfl

/-- Whether the state is sound does not hang on the order in which nodes wait. -/
theorem Sound.of_pending {g : Graph} {r : Reading} {reading : List Nat} (h : r.Sound g reading) (r' : Reading)
    (reading' : List Nat) (hgraph : r'.graph = r.graph) (hparts : r'.parts = r.parts)
    (hpending : ∀ n, n ∈ r'.pending reading' ↔ n ∈ r.pending reading) : r'.Sound g reading' := by
  have hpart : ∀ n, r'.part? n = r.part? n := fun n => by rw [part?, hparts, part?]
  refine ⟨hgraph.trans h.graph, hparts ▸ h.size, fun n p hp => ?_, fun n hn => h.holds n ((hpending n).1 hn)⟩
  simp only [hpart, hpending] at hp ⊢
  exact h.met n p hp

/-- One step reads the first node of those that wait in their order. -/
theorem readAll_succ {r : Reading} {n : Nat} {waiting : List Nat} (h : r.now ++ r.later.reverse = n :: waiting)
    (fuel steps : Nat) : ∃ now later, now ++ later.reverse = waiting ∧
      r.readAll fuel (steps + 1) = read fuel n { r with now, later } >>= readAll fuel steps := by
  obtain ⟨graph, parts, now, later⟩ := r
  cases now with
  | cons m now =>
    obtain ⟨rfl, hwaiting⟩ := List.cons.inj h
    exact ⟨now, later, hwaiting, rfl⟩
  | nil =>
    have hreverse : later.reverse = n :: waiting := h
    refine ⟨waiting, [], List.append_nil _, ?_⟩
    cases later with
    | nil => cases hreverse
    | cons m others =>
      rw [readAll]
      dsimp only
      rw [hreverse]

/-- All that waits is read. -/
theorem Sound.readAll {g : Graph} (fuel steps : Nat) : ∀ {r : Reading}, r.Sound g [] →
    r.now.length + (r.unmet + r.later.length) ≤ steps →
      ∃ r', r.readAll fuel steps = .ok r' ∧ r'.Sound g [] ∧ r'.pending [] = [] ∧
        ∀ n, r.part? n ≠ none → r'.part? n ≠ none := by
  induction steps with
  | zero =>
    intro r h hsteps
    have hnow : r.now = [] := List.length_eq_zero_iff.1 (by omega)
    have hlater : r.later = [] := List.length_eq_zero_iff.1 (by omega)
    exact ⟨r, rfl, h, by rw [pending, hnow, hlater]; rfl, fun _ hn => hn⟩
  | succ steps ih =>
    intro r h hsteps
    cases hwaiting : r.now ++ r.later.reverse with
    | nil =>
      rw [List.append_eq_nil_iff, List.reverse_eq_nil_iff] at hwaiting
      obtain ⟨hnow, hlater⟩ := hwaiting
      refine ⟨r, ?_, h, by rw [pending, hnow, hlater]; rfl, fun _ hn => hn⟩
      rw [Reading.readAll, hnow, hlater]
    | cons n waiting =>
      obtain ⟨now, later, hrest, hstep⟩ := readAll_succ hwaiting fuel steps
      have hlength : (now ++ later.reverse).length + 1 = (r.now ++ r.later.reverse).length := by
        rw [hrest, hwaiting, List.length_cons]
      have hpending : ∀ m, m ∈ pending { r with now, later } [n] ↔ m ∈ r.pending [] := by
        intro m
        have hmem : m ∈ r.now ++ r.later.reverse ↔ m ∈ n :: (now ++ later.reverse) := by rw [hwaiting, hrest]
        simpa [pending] using hmem.symm
      obtain ⟨r₁, hread, hsound₁, hadvances⟩ :=
        (h.of_pending { r with now, later } [n] rfl rfl hpending).read fuel
      have hweight : r₁.unmet + r₁.later.length ≤ r.unmet + later.length := hadvances.weight
      have hnow : r₁.now = now := hadvances.now
      simp only [List.length_append, List.length_reverse] at hlength
      obtain ⟨r₂, hall, hsound₂, hdone, hmet⟩ := ih hsound₁ (by rw [hnow]; omega)
      refine ⟨r₂, ?_, hsound₂, hdone, fun m hm => hmet m (hadvances.met m hm)⟩
      rw [hstep]
      simp only [hread, bind, Except.bind]
      exact hall

/-- The state in which all that a reading came to was read: what was met stands for what it should, with all that is
below it met. -/
structure Done (g : Graph) (r : Reading) : Prop where
  graph : r.graph = g
  part : ∀ n, r.part? n ≠ none → r.part? n = some (g.part n)
  below : ∀ n, r.part? n ≠ none → ∀ m ∈ g.below n, r.part? m ≠ none

theorem Sound.done {g : Graph} {r : Reading} (h : r.Sound g []) (hpending : r.pending [] = []) : r.Done g := by
  have hmet : ∀ n, r.part? n ≠ none → r.part? n = some (g.part n) ∧ ∀ m ∈ g.below n, r.part? m ≠ none := by
    intro n hn
    obtain ⟨p, hp⟩ := Option.ne_none_iff_exists'.1 hn
    rcases h.met n p hp with ⟨rfl, hbelow⟩ | ⟨-, hwaits⟩
    · exact ⟨hp, hbelow⟩
    · rw [hpending] at hwaits
      cases hwaits
  exact ⟨h.graph, fun n hn => (hmet n hn).1, fun n hn => (hmet n hn).2⟩

end Reading

end SchemaClosure.Yaml
