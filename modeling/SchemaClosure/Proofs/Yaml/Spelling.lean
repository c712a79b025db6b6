import SchemaClosure.Proofs.Yaml.Scanning
import SchemaClosure.Yaml.Grammar

/-!
# The graph of a JSON text

The tokens of a tree are read as a node that stands for the tree (`Grammar.node_reads`): a scalar for a word or a
literal, and a list or mapping whose parts stand for those of the tree. Nothing that is read later changes nodes that
are there (`Graph.Keeps`), but for the content of the list or mapping that is being read.
-/

namespace SchemaClosure.Yaml

open Json (Tree)
open Json.Tree

/-- The node of a number stands for a text. -/
def SpellsText (g : Graph) (n : Nat) (s : String) : Prop :=
  n < g.nodes.size ∧ g.node n = ⟨.str, false, .text (Text.units s)⟩

mutual

/-- The node of a number, with what is below it, stands for a tree. Parts have greater numbers than what holds them,
and nothing is shared. -/
def Spells (g : Graph) (n : Nat) : Tree → Prop
  | .word w => n < g.nodes.size ∧ g.node n = ⟨Tag.ofPlain w, false, .text w⟩ ∧ ∃ s, wordValue? w = .ok s
  | .literal s => SpellsText g n s
  | .list items => n < g.nodes.size ∧ ∃ parts, g.node n = ⟨.list, false, .items parts⟩ ∧ SpellsItems g n parts items
  | .mapping entries =>
    n < g.nodes.size ∧ ∃ parts, g.node n = ⟨.map, false, .entries parts⟩ ∧ SpellsEntries g n parts entries

/-- The nodes of some numbers stand for the items of a list. -/
def SpellsItems (g : Graph) (n : Nat) (parts : List Nat) : List Tree → Prop
  | [] => parts = []
  | t :: rest => ∃ m more, parts = m :: more ∧ n < m ∧ Spells g m t ∧ SpellsItems g n more rest

/-- The nodes of some numbers stand for the entries of a mapping. -/
def SpellsEntries (g : Graph) (n : Nat) (parts : List (Nat × Nat)) : List (String × Tree) → Prop
  | [] => parts = []
  | (s, t) :: rest => ∃ k m more, parts = (k, m) :: more ∧ n < k ∧ n < m ∧ SpellsText g k s ∧ Spells g m t ∧
      SpellsEntries g n more rest

end

namespace Graph

theorem node_add (g : Graph) (x : Node) (m : Nat) :
    (g.add x).2.node m = if m = g.nodes.size then x else g.node m := by
  simp only [add, node, Array.getD_eq_getD_getElem?, Array.getElem?_push]
  split <;> rfl

@[simp] theorem size_add (g : Graph) (x : Node) : (g.add x).2.nodes.size = g.nodes.size + 1 := Array.size_push x

@[simp] theorem size_fill (g : Graph) (n : Nat) (content : Node.Content) :
    (g.fill n content).nodes.size = g.nodes.size :=
  Array.size_modify

theorem node_fill (g : Graph) {n : Nat} (hn : n < g.nodes.size) (content : Node.Content) (m : Nat) :
    (g.fill n content).node m = if m = n then { g.node n with content } else g.node m := by
  simp only [fill, modify, node, Array.getD_eq_getD_getElem?, Array.getElem?_modify]
  split
  · rename_i h
    subst h
    simp [hn]
  · rename_i h
    rw [if_neg (Ne.symm h)]

/-- The graph still has the nodes of another one from a number on. -/
structure Keeps (b : Nat) (g g' : Graph) : Prop where
  size : g.nodes.size ≤ g'.nodes.size
  node : ∀ m, b ≤ m → m < g.nodes.size → g'.node m = g.node m

theorem Keeps.refl (b : Nat) (g : Graph) : Keeps b g g := ⟨Nat.le_refl _, fun _ _ _ => rfl⟩

theorem Keeps.trans {b : Nat} {g g' g'' : Graph} (h : Keeps b g g') (h' : Keeps b g' g'') : Keeps b g g'' :=
  ⟨h.size.trans h'.size, fun m hb hm => (h'.node m hb (hm.trans_le h.size)).trans (h.node m hb hm)⟩

theorem keeps_add (g : Graph) (x : Node) : Keeps 0 g (g.add x).2 :=
  ⟨by simp, fun m _ hm => by rw [node_add, if_neg hm.ne]⟩

theorem keeps_fill (g : Graph) {n : Nat} (hn : n < g.nodes.size) (content : Node.Content) :
    Keeps (n + 1) g (g.fill n content) :=
  ⟨by simp, fun m hm _ => by rw [node_fill g hn, if_neg (by omega)]⟩

/-- What is behind the nodes of a graph may be filled in. -/
theorem Keeps.fill {g g' : Graph} (h : Keeps 0 g g') {n : Nat} (hn : g.nodes.size ≤ n) (hn' : n < g'.nodes.size)
    (content : Node.Content) : Keeps 0 g (g'.fill n content) :=
  ⟨by simpa using h.size, fun m hm hlt => by rw [node_fill g' hn', if_neg (by omega), h.node m hm hlt]⟩

end Graph

theorem SpellsText.keep {b : Nat} {g g' : Graph} (h : Graph.Keeps b g g') {s : String} {n : Nat} (hb : b ≤ n)
    (hs : SpellsText g n s) : SpellsText g' n s :=
  ⟨hs.1.trans_le h.size, (h.node n hb hs.1).trans hs.2⟩

mutual

theorem Spells.keep {b : Nat} {g g' : Graph} (h : Graph.Keeps b g g') (t : Tree) {n : Nat} (hb : b ≤ n)
    (ht : Spells g n t) : Spells g' n t := by
  match t with
  | .word w => exact ⟨ht.1.trans_le h.size, (h.node n hb ht.1).trans ht.2.1, ht.2.2⟩
  | .literal s => exact SpellsText.keep h hb ht
  | .list items =>
    obtain ⟨hn, parts, hnode, hparts⟩ := ht
    exact ⟨hn.trans_le h.size, parts, (h.node n hb hn).trans hnode,
      SpellsItems.keep h items (Nat.le_succ_of_le hb) hparts⟩
  | .mapping entries =>
    obtain ⟨hn, parts, hnode, hparts⟩ := ht
    exact ⟨hn.trans_le h.size, parts, (h.node n hb hn).trans hnode,
      SpellsEntries.keep h entries (Nat.le_succ_of_le hb) hparts⟩

theorem SpellsItems.keep {b : Nat} {g g' : Graph} (h : Graph.Keeps b g g') (items : List Tree) {n : Nat}
    {parts : List Nat} (hb : b ≤ n + 1) (hitems : SpellsItems g n parts items) : SpellsItems g' n parts items := by
  match items with
  | [] => exact hitems
  | t :: rest =>
    obtain ⟨m, more, hparts, hm, ht, hrest⟩ := hitems
    exact ⟨m, more, hparts, hm, Spells.keep h t (hb.trans hm) ht, SpellsItems.keep h rest hb hrest⟩

theorem SpellsEntries.keep {b : Nat} {g g' : Graph} (h : Graph.Keeps b g g') (entries : List (String × Tree)) {n : Nat}
    {parts : List (Nat × Nat)} (hb : b ≤ n + 1) (hentries : SpellsEntries g n parts entries) :
    SpellsEntries g' n parts entries := by
  match entries with
  | [] => exact hentries
  | (s, t) :: rest =>
    obtain ⟨k, m, more, hparts, hk, hm, hs, ht, hrest⟩ := hentries
    exact ⟨k, m, more, hparts, hk, hm, hs.keep h (hb.trans hk),
      Spells.keep h t (hb.trans hm) ht, SpellsEntries.keep h rest hb hrest⟩

end

namespace Grammar

theorem peek_cons {g : Grammar} {x : Token} {more : List Token} (h : g.rest = x :: more) : g.peek = .ok (some x) := by
  rw [peek, h]

/-- A token with which a scalar, or a list or mapping in brackets, starts. -/
def startsNode : Token → Bool
  | .scalar _ _ => true
  | .flowSequenceStart => true
  | .flowMappingStart => true
  | _ => false

theorem properties_eq {g : Grammar} {x : Token} {more : List Token} (h : g.rest = x :: more)
    (hx : startsNode x = true) : g.properties = .ok (⟨none, none⟩, g) := by
  have hpeek := peek_cons h
  cases x with
  | scalar | flowSequenceStart | flowMappingStart =>
    simp [properties, anchor?, tag?, hpeek, bind, Except.bind, pure, Except.pure]
  | _ => cases hx

theorem node_scalar {g : Grammar} {text : String} {plain : Bool} {more : List Token}
    (h : g.rest = .scalar text plain :: more) (block indentless : Bool) (fuel : Nat) :
    node block indentless false (fuel + 1) g =
      .ok (g.next.add ⟨none, none⟩ ⟨scalarTag none text plain, false, .text text⟩) := by
  rw [node, peek_cons h]
  simp [properties_eq h rfl, peek_cons h, hasAnchor, bind, Except.bind, pure, Except.pure]

theorem node_flowSequence {g : Grammar} {more : List Token} (h : g.rest = .flowSequenceStart :: more)
    (block indentless : Bool) (fuel : Nat) :
    node block indentless false (fuel + 1) g = do
      let (n, g) := g.next.add ⟨none, none⟩ ⟨.list, false, .items []⟩
      let (parts, g) ← flowSequence false true fuel g
      return (n, g.fill n (.items parts)) := by
  rw [node, peek_cons h]
  simp [properties_eq h rfl, peek_cons h, hasAnchor, collectionTag, bind, Except.bind, pure, Except.pure]

theorem node_flowMapping {g : Grammar} {more : List Token} (h : g.rest = .flowMappingStart :: more)
    (block indentless : Bool) (fuel : Nat) :
    node block indentless false (fuel + 1) g = do
      let (n, g) := g.next.add ⟨none, none⟩ ⟨.map, false, .entries []⟩
      let (parts, g) ← flowMapping false true fuel g
      return (n, g.fill n (.entries parts)) := by
  rw [node, peek_cons h]
  simp [properties_eq h rfl, peek_cons h, hasAnchor, collectionTag, bind, Except.bind, pure, Except.pure]

/-- The state behind some tokens, with more nodes than before. -/
structure Reads (g : Grammar) (more : List Token) (g' : Grammar) : Prop where
  rest : g'.rest = more
  fault : g'.fault = g.fault
  keeps : Graph.Keeps 0 g.graph g'.graph

theorem Reads.trans {g g' g'' : Grammar} {more more' : List Token} (h : g.Reads more g') (h' : g'.Reads more' g'') :
    g.Reads more' g'' :=
  ⟨h'.rest, h'.fault.trans h.fault, h.keeps.trans h'.keeps⟩

theorem rest_next {g : Grammar} {x : Token} {more : List Token} (h : g.rest = x :: more) : g.next.rest = more := by
  rw [next, h]
  rfl

theorem reads_next {g : Grammar} {x : Token} {more : List Token} (h : g.rest = x :: more) : g.Reads more g.next :=
  ⟨rest_next h, rfl, Graph.Keeps.refl 0 _⟩

/-- One more node. -/
theorem reads_add {g : Grammar} (x : Node) :
    ∃ g', g.add ⟨none, none⟩ x = (g.graph.nodes.size, g') ∧ g.Reads g.rest g' ∧
      g.graph.nodes.size < g'.graph.nodes.size ∧ g'.graph.node g.graph.nodes.size = x := by
  refine ⟨(g.add ⟨none, none⟩ x).2, rfl, ⟨rfl, rfl, Graph.keeps_add g.graph x⟩, ?_, ?_⟩
  · show _ < (g.graph.add x).2.nodes.size
    simp
  · show (g.graph.add x).2.node _ = x
    rw [Graph.node_add, if_pos rfl]

/-- A tree starts with a token of a node. -/
theorem exists_tokens_cons (t : Tree) : ∃ x more, t.tokens = x :: more ∧ startsNode x = true := by
  cases t <;> exact ⟨_, _, rfl, rfl⟩

/-- The state behind the comma in front of a part. -/
def behindComma (first : Bool) (g : Grammar) : Grammar := if first then g else g.next

theorem reads_behindComma {g : Grammar} {first : Bool} {more : List Token} (h : g.rest = commaToken first ++ more) :
    g.Reads more (g.behindComma first) := by
  cases first with
  | true => exact ⟨h, rfl, Graph.Keeps.refl 0 _⟩
  | false => exact reads_next h

theorem flowSequence_nil {g : Grammar} {more : List Token} (h : g.rest = .flowSequenceEnd :: more) (first : Bool)
    (fuel : Nat) : flowSequence false first (fuel + 1) g = .ok ([], g.next) := by
  rw [flowSequence, sees, peek_cons h]
  rfl

theorem sees_of_peek {g : Grammar} {x : Token} {more : List Token} (h : g.rest = x :: more) (tokens : List Token) :
    g.sees tokens = .ok (tokens.contains x) := by
  rw [sees, peek_cons h]
  rfl

theorem expect_comma {g : Grammar} {more : List Token} (h : g.rest = .flowEntry :: more) :
    g.expect .flowEntry = .ok g.next := by
  rw [expect, peek_cons h]
  rfl

theorem flowSequence_cons {g : Grammar} {first : Bool} {x : Token} {more : List Token}
    (h : g.rest = commaToken first ++ x :: more) (hx : startsNode x = true) (fuel : Nat) :
    flowSequence false first (fuel + 1) g = do
      let (item, g) ← node false false false fuel (g.behindComma first)
      let (items, g) ← flowSequence false false fuel g
      return (item :: items, g) := by
  have hpeek := peek_cons (reads_behindComma h).rest
  cases first with
  | true =>
    rw [flowSequence, sees_of_peek (show g.rest = x :: more from h)]
    cases x with
    | scalar | flowSequenceStart | flowMappingStart =>
      simp [bind, Except.bind, pure, Except.pure, show g.peek = _ from hpeek, behindComma]
    | _ => cases hx
  | false =>
    rw [flowSequence, sees_of_peek h]
    cases x with
    | scalar | flowSequenceStart | flowMappingStart =>
      simp [bind, Except.bind, pure, Except.pure, show g.next.peek = _ from hpeek, behindComma,
        expect_comma h]
    | _ => cases hx

theorem flowMapping_nil {g : Grammar} {more : List Token} (h : g.rest = .flowMappingEnd :: more) (first : Bool)
    (fuel : Nat) : flowMapping false first (fuel + 1) g = .ok ([], g.next) := by
  rw [flowMapping, sees_of_peek h]
  rfl

theorem flowMapping_cons {g : Grammar} {first : Bool} {more : List Token}
    (h : g.rest = commaToken first ++ .key :: more) (fuel : Nat) :
    flowMapping false first (fuel + 1) g = do
      let (key, g) ←
        optionalNode false false false [.value, .flowEntry, .flowMappingEnd] fuel (g.behindComma first).next
      let (value, g) ← flowValue false .flowMappingEnd fuel g
      let (entries, g) ← flowMapping false false fuel g
      return ((key, value) :: entries, g) := by
  have hpeek := peek_cons (reads_behindComma h).rest
  cases first with
  | true =>
    rw [flowMapping, sees_of_peek (show g.rest = .key :: more from h)]
    simp [bind, Except.bind, pure, Except.pure, show g.peek = _ from hpeek, behindComma]
  | false =>
    rw [flowMapping, sees_of_peek h]
    simp [bind, Except.bind, pure, Except.pure, show g.next.peek = _ from hpeek, behindComma,
        expect_comma h]

/-- A node where one is written. -/
theorem optionalNode_eq {g : Grammar} {x : Token} {more : List Token} (h : g.rest = x :: more)
    (hx : startsNode x = true) {ends : List Token} (hends : ∀ y ∈ ends, startsNode y = false)
    (block indentless : Bool) (fuel : Nat) :
    optionalNode block indentless false ends (fuel + 1) g = node block indentless false fuel g := by
  have hnot : ends.contains x = false := by
    rw [List.contains_eq_mem, decide_eq_false_iff_not]
    intro hmem
    exact Bool.false_ne_true ((hends x hmem).symm.trans hx)
  rw [optionalNode, sees_of_peek h, hnot]
  rfl

theorem flowValue_eq {g : Grammar} {more : List Token} (h : g.rest = .value :: more) (closing : Token) (fuel : Nat) :
    flowValue false closing (fuel + 1) g = optionalNode false false false [.flowEntry, closing] fuel g.next := by
  rw [flowValue, sees_of_peek h]
  rfl

/-- A new node whose content is filled in once its parts are read. -/
theorem reads_fill {g g₁ g₂ : Grammar} {x : Node} {before more : List Token} (h₁ : g.Reads before g₁)
    (hsize : g.graph.nodes.size < g₁.graph.nodes.size) (hnode : g₁.graph.node g.graph.nodes.size = x)
    (h₂ : g₁.Reads more g₂) (content : Node.Content) :
    g.Reads more (g₂.fill g.graph.nodes.size content) ∧
      g.graph.nodes.size < (g₂.fill g.graph.nodes.size content).graph.nodes.size ∧
      (g₂.fill g.graph.nodes.size content).graph.node g.graph.nodes.size = { x with content } ∧
      Graph.Keeps (g.graph.nodes.size + 1) g₂.graph (g₂.fill g.graph.nodes.size content).graph := by
  have hlt : g.graph.nodes.size < g₂.graph.nodes.size := hsize.trans_le h₂.keeps.size
  refine ⟨⟨h₂.rest, h₂.fault.trans h₁.fault, (h₁.keeps.trans h₂.keeps).fill (Nat.le_refl _) hlt content⟩, ?_, ?_,
    Graph.keeps_fill g₂.graph hlt content⟩
  · exact hlt.trans_eq (Graph.size_fill _ _ _).symm
  · show (g₂.graph.fill _ content).node _ = _
    rw [Graph.node_fill _ hlt, if_pos rfl, h₂.keeps.node _ (Nat.zero_le _) hsize, hnode]

/-- The token of a scalar is read as a node. -/
theorem scalar_reads {text : String} {plain : Bool} {g : Grammar} {more : List Token}
    (h : g.rest = .scalar text plain :: more) (block indentless : Bool) (fuel : Nat) :
    ∃ n g', node block indentless false (fuel + 1) g = .ok (n, g') ∧ g.Reads more g' ∧ g.graph.nodes.size ≤ n ∧
      n < g'.graph.nodes.size ∧ g'.graph.node n = ⟨scalarTag none text plain, false, .text text⟩ := by
  obtain ⟨g', hadd, hreads, hsize, hnode⟩ := reads_add (g := g.next) ⟨scalarTag none text plain, false, .text text⟩
  refine ⟨_, g', (node_scalar h _ _ fuel).trans (congrArg _ hadd), (reads_next h).trans ?_, Nat.le_refl _, hsize, hnode⟩
  rwa [rest_next h] at hreads

mutual

/-- The tokens of a tree are read as a node that stands for it. -/
theorem node_reads (t : Tree) (ht : t.Readable) (block indentless : Bool) (fuel : Nat) {g : Grammar}
    {more : List Token} (h : g.rest = t.tokens ++ more) (hfuel : 3 * t.tokens.length ≤ fuel) :
    ∃ n g', node block indentless false fuel g = .ok (n, g') ∧ g.Reads more g' ∧ g.graph.nodes.size ≤ n ∧
      Spells g'.graph n t := by
  obtain ⟨x, others, htokens, -⟩ := exists_tokens_cons t
  obtain ⟨fuel, rfl⟩ : ∃ others, fuel = others + 1 := ⟨fuel - 1, by rw [htokens, List.length_cons] at hfuel; omega⟩
  match t with
  | .word w =>
    obtain ⟨n, g', hnode, hreads, hn, hlt, hspelled⟩ := scalar_reads h block indentless fuel
    exact ⟨n, g', hnode, hreads, hn, hlt, hspelled, ht.2⟩
  | .literal s => exact scalar_reads h block indentless fuel
  | .list items =>
    rw [tokens, List.append_assoc, List.cons_append] at h
    simp only [tokens, List.length_append, List.length_cons, List.length_nil] at hfuel
    obtain ⟨g₁, hadd, hreads₁, hsize, hnode⟩ := reads_add (g := g.next) ⟨.list, false, .items []⟩
    obtain ⟨parts, g₂, hparts, hreads₂, hspells⟩ :=
      items_read items ht fuel (hreads₁.rest.trans (rest_next h)) (by omega) hsize
    obtain ⟨hreads, hlt, hfilled, hkeeps⟩ :=
      reads_fill ((reads_next h).trans hreads₁) hsize hnode hreads₂ (.items parts)
    refine ⟨_, g₂.fill g.graph.nodes.size (.items parts), ?_, hreads, Nat.le_refl _, hlt, parts, hfilled,
      SpellsItems.keep hkeeps items (Nat.le_refl _) hspells⟩
    rw [node_flowSequence h, hadd]
    simp only [hparts, bind, Except.bind]
    rfl
  | .mapping entries =>
    rw [tokens, List.append_assoc, List.cons_append] at h
    simp only [tokens, List.length_append, List.length_cons, List.length_nil] at hfuel
    obtain ⟨g₁, hadd, hreads₁, hsize, hnode⟩ := reads_add (g := g.next) ⟨.map, false, .entries []⟩
    obtain ⟨parts, g₂, hparts, hreads₂, hspells⟩ :=
      entries_read entries ht fuel (hreads₁.rest.trans (rest_next h)) (by omega) hsize
    obtain ⟨hreads, hlt, hfilled, hkeeps⟩ :=
      reads_fill ((reads_next h).trans hreads₁) hsize hnode hreads₂ (.entries parts)
    refine ⟨_, g₂.fill g.graph.nodes.size (.entries parts), ?_, hreads, Nat.le_refl _, hlt, parts, hfilled,
      SpellsEntries.keep hkeeps entries (Nat.le_refl _) hspells⟩
    rw [node_flowMapping h, hadd]
    simp only [hparts, bind, Except.bind]
    rfl

theorem items_read (items : List Tree) (hitems : ReadableItems items) (fuel : Nat) {first : Bool} {g : Grammar}
    {more : List Token} {b : Nat} (h : g.rest = itemsTokens first items ++ (.flowSequenceEnd :: more))
    (hfuel : 3 * (itemsTokens first items).length + 3 ≤ fuel) (hb : b < g.graph.nodes.size) :
    ∃ parts g', flowSequence false first fuel g = .ok (parts, g') ∧ g.Reads more g' ∧
      SpellsItems g'.graph b parts items := by
  obtain ⟨fuel, rfl⟩ : ∃ others, fuel = others + 1 := ⟨fuel - 1, by omega⟩
  match items with
  | [] => exact ⟨[], g.next, flowSequence_nil h first fuel, reads_next h, rfl⟩
  | t :: rest =>
    obtain ⟨x, others, htokens, hx⟩ := exists_tokens_cons t
    have hlength : 0 < t.tokens.length := by
      rw [htokens]
      exact Nat.succ_pos _
    rw [itemsTokens, List.append_assoc, List.append_assoc] at h
    simp only [itemsTokens, List.length_append] at hfuel
    have hcomma := reads_behindComma h
    obtain ⟨n, g₁, hnode, hreads₁, hn, ht⟩ := node_reads t hitems.1 false false fuel hcomma.rest (by omega)
    have hsize := hcomma.keeps.size.trans hreads₁.keeps.size
    obtain ⟨parts, g₂, hparts, hreads₂, hrest⟩ := items_read rest hitems.2 fuel hreads₁.rest (by omega)
      (hb.trans_le hsize)
    refine ⟨n :: parts, g₂, ?_, (hcomma.trans hreads₁).trans hreads₂, n, parts, rfl,
      hb.trans_le (hcomma.keeps.size.trans hn), Spells.keep hreads₂.keeps t (Nat.zero_le _) ht, hrest⟩
    rw [htokens, List.cons_append] at h
    rw [flowSequence_cons h hx]
    simp only [hnode, hparts, bind, Except.bind]
    rfl

theorem entries_read (entries : List (String × Tree)) (hentries : ReadableEntries entries) (fuel : Nat)
    {first : Bool} {g : Grammar} {more : List Token} {b : Nat}
    (h : g.rest = entriesTokens first entries ++ (.flowMappingEnd :: more))
    (hfuel : 3 * (entriesTokens first entries).length + 3 ≤ fuel) (hb : b < g.graph.nodes.size) :
    ∃ parts g', flowMapping false first fuel g = .ok (parts, g') ∧ g.Reads more g' ∧
      SpellsEntries g'.graph b parts entries := by
  obtain ⟨fuel, rfl⟩ : ∃ others, fuel = others + 1 := ⟨fuel - 1, by omega⟩
  match entries with
  | [] => exact ⟨[], g.next, flowMapping_nil h first fuel, reads_next h, rfl⟩
  | (s, t) :: rest =>
    obtain ⟨x, others, htokens, hx⟩ := exists_tokens_cons t
    simp only [entriesTokens, List.length_append, List.length_cons, List.length_nil] at hfuel
    obtain ⟨fuel, rfl⟩ : ∃ others, fuel = others + 2 := ⟨fuel - 2, by omega⟩
    simp only [entriesTokens, List.append_assoc, List.cons_append, List.nil_append] at h
    have hcomma := reads_behindComma h
    have hkey := (hcomma.trans (reads_next hcomma.rest))
    obtain ⟨k, g₁, hnode₁, hreads₁, hk, hs⟩ := scalar_reads hkey.rest false false fuel
    have hvalue := reads_next hreads₁.rest
    obtain ⟨m, g₂, hnode₂, hreads₂, hm, ht⟩ := node_reads t hentries.2.1 false false fuel hvalue.rest (by omega)
    obtain ⟨parts, g₃, hparts, hreads₃, hrest⟩ := entries_read rest hentries.2.2 (fuel + 2) hreads₂.rest (by omega)
      (hb.trans_le (((hkey.trans hreads₁).trans hvalue).trans hreads₂).keeps.size)
    refine ⟨(k, m) :: parts, g₃, ?_, (((hkey.trans hreads₁).trans hvalue).trans hreads₂).trans hreads₃, k, m, parts,
      rfl, hb.trans_le (hkey.keeps.size.trans hk), hb.trans_le (((hkey.trans hreads₁).trans hvalue).keeps.size.trans hm),
      SpellsText.keep ((hvalue.trans hreads₂).trans hreads₃).keeps (Nat.zero_le _) hs,
      Spells.keep hreads₃.keeps t (Nat.zero_le _) ht, hrest⟩
    have hmore := hvalue.rest
    rw [htokens, List.cons_append] at hmore
    rw [flowMapping_cons h, optionalNode_eq hkey.rest rfl (by decide)]
    simp only [hnode₁, bind, Except.bind]
    rw [flowValue_eq hreads₁.rest, optionalNode_eq hmore hx (by decide)]
    simp only [hnode₂, hparts]
    rfl

end

end Grammar

end SchemaClosure.Yaml
