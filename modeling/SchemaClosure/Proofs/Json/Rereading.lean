import SchemaClosure.Proofs.Json.Words
import SchemaClosure.Proofs.Schema.Entries
import SchemaClosure.Proofs.Yaml.Value

/-!
# What is read where JSON text was written

JSON text read as YAML gives the value that was written with its scalars as they are read again, and with every key
as a text (`Value.reread`). Two keys that come to the same text become one. That is the value itself, up to marks,
exactly if every key is a text of its own and every decimal number has a point in its text
(`Value.reread_eq_unmarked_iff`). The text can be read if no key takes more than 1024 characters (`Yaml.parse_render`).
-/

namespace SchemaClosure

/-! ## Conditions on values -/

namespace Value

mutual

/-- Whether all scalars in a value are as asked for, and the keys of each mapping. Sets, which have no JSON text, are
left out. -/
def all (scalar : Scalar → Bool) (keys : List Scalar → Bool) : Value → Bool
  | .scalar s => scalar s
  | .list _ items => allItems scalar keys items
  | .mapping _ entries => keys (entries.map Prod.fst) && allEntries scalar keys entries
  | .set _ _ => true
  | .knot _ body => all scalar keys body
  | .again _ => true

/-- Whether all items of a list are as asked for. -/
def allItems (scalar : Scalar → Bool) (keys : List Scalar → Bool) : List Value → Bool
  | [] => true
  | v :: rest => all scalar keys v && allItems scalar keys rest

/-- Whether the values of all entries of a mapping are as asked for. -/
def allEntries (scalar : Scalar → Bool) (keys : List Scalar → Bool) : List (Scalar × Value) → Bool
  | [] => true
  | (_, v) :: rest => all scalar keys v && allEntries scalar keys rest

end

end Value

namespace Scalar

/-- Whether a scalar is no text with characters beyond the basic plane. -/
def isBasic : Scalar → Bool
  | .text s => s.toList.all (Text.code · < 0x10000)
  | _ => true

/-- Whether the literal of a key is short enough to be told by the colon behind it. -/
def isShortKey (k : Scalar) : Bool :=
  match Json.keyText? k with
  | .ok s => (Json.literal s).toList.length ≤ 1024
  | .error _ => true

/-- Whether a scalar is read again as what it is, unless it is a text. -/
def isFaithful : Scalar → Bool
  | .float x => (x.text Json.spelling).toList.contains '.'
  | .nan _ => false
  | _ => true

/-- What is read where JSON text spells a key. -/
def rereadKey (k : Scalar) : Scalar := .text (Text.units ((Json.keyText? k).toOption.getD ""))

end Scalar

namespace Value

/-- Whether no text in a value has characters beyond the basic plane. -/
def isBasic (v : Value) : Bool := v.all Scalar.isBasic (·.all Scalar.isBasic)

/-- Whether the JSON text of a value can be read: its decimal numbers are proper ones, and its keys are short. -/
def isReadable (v : Value) : Bool := v.all Scalar.isProper (·.all Scalar.isShortKey)

/-- Whether a value is read again as it is: each key is a text of its own, and each decimal number has a point
in its text. -/
def isFaithful (v : Value) : Bool :=
  v.all Scalar.isFaithful fun keys => keys.all Scalar.isText && decide keys.Nodup

mutual

/-- What is read where the JSON text of a value was written. -/
def reread : Value → Value
  | .scalar s => .scalar s.reread
  | .list _ items => .list none (rereadItems items)
  | .mapping _ entries => .mapping none (Mapping.ofEntries (rereadEntries entries))
  | .set _ elements => .set none elements
  | .knot _ body => reread body
  | .again mark => .again mark

/-- The items of a list as they are read again. -/
def rereadItems : List Value → List Value
  | [] => []
  | v :: rest => reread v :: rereadItems rest

/-- The entries of a mapping as they are read again. -/
def rereadEntries : List (Scalar × Value) → List (Scalar × Value)
  | [] => []
  | (k, v) :: rest => (k.rereadKey, reread v) :: rereadEntries rest

end

mutual

/-- A value without the marks of its lists and mappings. -/
def unmarked : Value → Value
  | .scalar s => .scalar s
  | .list _ items => .list none (unmarkedItems items)
  | .mapping _ entries => .mapping none (unmarkedEntries entries)
  | .set _ elements => .set none elements
  | .knot _ body => unmarked body
  | .again mark => .again mark

/-- The items of a list without marks. -/
def unmarkedItems : List Value → List Value
  | [] => []
  | v :: rest => unmarked v :: unmarkedItems rest

/-- The entries of a mapping without marks. -/
def unmarkedEntries : List (Scalar × Value) → List (Scalar × Value)
  | [] => []
  | (k, v) :: rest => (k, unmarked v) :: unmarkedEntries rest

end

end Value

/-! ## Reading again -/

open Json.Tree (ReadableItems ReadableEntries itemValues entryValues)

namespace Json

theorem tree?_scalar {s : Scalar} {t : Tree} (h : tree? (.scalar s) = .ok t) (hs : s.isProper = true) :
    t.Readable ∧ t.value = .scalar s.reread := by
  have hword : ∀ {s : Scalar}, (word? s).map Tree.word = .ok t → s.isProper = true →
      t.Readable ∧ t.value = .scalar s.reread := by
    intro s h hs
    obtain ⟨w, hw, rfl⟩ := map_eq_ok_iff.1 h
    obtain ⟨hword, hvalue⟩ := wordValue_word? hw hs
    have hvalue' : Tree.wordValue? w = .ok s.reread := hvalue
    refine ⟨⟨hword, _, hvalue'⟩, ?_⟩
    rw [Tree.value, hvalue']
    rfl
  cases s with
  | text s =>
    cases h
    exact ⟨trivial, rfl⟩
  | _ => exact hword h hs

mutual

/-- The tree of a value is readable, and it is read as the value is read again. -/
theorem tree?_reread (v : Value) {t : Tree} (h : tree? v = .ok t) (hv : v.isReadable = true) :
    t.Readable ∧ t.value = v.reread := by
  match v with
  | .scalar s => exact tree?_scalar h hv
  | .list _ items =>
    rw [tree?, map_eq_ok_iff] at h
    obtain ⟨trees, hitems, rfl⟩ := h
    obtain ⟨hreadable, hvalues⟩ := trees?_reread items hitems hv
    exact ⟨hreadable, by rw [Tree.value, hvalues, Value.reread]⟩
  | .mapping _ entries =>
    rw [tree?, map_eq_ok_iff] at h
    obtain ⟨trees, hentries, rfl⟩ := h
    rw [Value.isReadable, Value.all, Bool.and_eq_true] at hv
    obtain ⟨hreadable, hvalues⟩ := entryTrees?_reread entries hentries hv.1 hv.2
    exact ⟨hreadable, by rw [Tree.value, hvalues, Value.reread]⟩
  | .set _ _ => cases h
  | .knot _ body => exact tree?_reread body h hv
  | .again _ => cases h

theorem trees?_reread (items : List Value) {trees : List Tree} (h : trees? items = .ok trees)
    (hitems : Value.allItems Scalar.isProper (·.all Scalar.isShortKey) items = true) :
    ReadableItems trees ∧ itemValues trees = Value.rereadItems items := by
  match items with
  | [] =>
    cases h
    exact ⟨trivial, rfl⟩
  | v :: rest =>
    rw [Value.allItems, Bool.and_eq_true] at hitems
    simp only [trees?, bind_eq_ok_iff] at h
    obtain ⟨t, ht, others, hothers, h⟩ := h
    cases h
    obtain ⟨hreadable, hvalue⟩ := tree?_reread v ht hitems.1
    obtain ⟨hreadables, hvalues⟩ := trees?_reread rest hothers hitems.2
    exact ⟨⟨hreadable, hreadables⟩, by rw [itemValues, hvalue, hvalues, Value.rereadItems]⟩

theorem entryTrees?_reread (entries : List (Scalar × Value)) {trees : List (String × Tree)}
    (h : entryTrees? entries = .ok trees) (hkeys : (entries.map Prod.fst).all Scalar.isShortKey = true)
    (hentries : Value.allEntries Scalar.isProper (·.all Scalar.isShortKey) entries = true) :
    ReadableEntries trees ∧ entryValues trees = Value.rereadEntries entries := by
  match entries with
  | [] =>
    cases h
    exact ⟨trivial, rfl⟩
  | (k, v) :: rest =>
    rw [Value.allEntries, Bool.and_eq_true] at hentries
    rw [List.map_cons, List.all_cons, Bool.and_eq_true] at hkeys
    simp only [entryTrees?, bind_eq_ok_iff] at h
    obtain ⟨s, hs, t, ht, others, hothers, h⟩ := h
    cases h
    obtain ⟨hreadable, hvalue⟩ := tree?_reread v ht hentries.1
    obtain ⟨hreadables, hvalues⟩ := entryTrees?_reread rest hothers hkeys.2 hentries.2
    have hshort : (literal s).toList.length ≤ 1024 := by
      have := hkeys.1
      rw [Scalar.isShortKey, hs] at this
      exact of_decide_eq_true this
    have hkey : k.rereadKey = .text (Text.units s) := by rw [Scalar.rereadKey, hs]; rfl
    exact ⟨⟨hshort, hreadable, hreadables⟩, by rw [entryValues, hvalue, hvalues, Value.rereadEntries, hkey]⟩

end

end Json

theorem Text.units_of_isBasic {s : String} (h : (Scalar.text s).isBasic = true) : Text.units s = s :=
  Text.units_eq fun c hc => of_decide_eq_true (List.all_eq_true.1 h c hc)

theorem Scalar.reread_eq_self_iff {s : Scalar} (h : s.isBasic = true) : s.reread = s ↔ s.isFaithful = true := by
  cases s with
  | text s => simp [reread, isFaithful, Text.units_of_isBasic h]
  | float x =>
    rw [reread, isFaithful, List.contains_eq_mem, decide_eq_true_eq]
    split
    · rename_i hpoint
      exact ⟨fun _ => hpoint, fun _ => rfl⟩
    · rename_i hpoint
      exact ⟨fun h => (by cases h), fun h => absurd h hpoint⟩
  | nan origin => exact ⟨fun h => (by cases h), fun h => (by cases h)⟩
  | _ => exact ⟨fun _ => rfl, fun _ => rfl⟩

/-- A text is the same key when it is read again. -/
theorem Scalar.rereadKey_text {s : String} (h : (Scalar.text s).isBasic = true) : (Scalar.text s).rereadKey = .text s :=
  congrArg Scalar.text (Text.units_of_isBasic h)

theorem Scalar.rereadKey_of_isText {k : Scalar} (htext : k.isText = true) (hbasic : k.isBasic = true) :
    k.rereadKey = k := by
  cases k with
  | text s => exact rereadKey_text hbasic
  | _ => cases htext

/-- Texts are one and the same key only if they are equal. -/
theorem Mapping.distinct_iff_nodup {m : Mapping} (h : ∀ k ∈ m.map Prod.fst, k.isText = true) :
    m.Distinct ↔ (m.map Prod.fst).Nodup := by
  have hsame : ∀ {a b : Scalar}, a.isText = true → b.isText = true → (a.same b = false ↔ a ≠ b) := by
    intro a b ha hb
    cases a with
    | text s =>
      cases b with
      | text t => simp [Scalar.same]
      | _ => cases hb
    | _ => cases ha
  unfold Distinct List.Nodup
  exact List.Pairwise.iff_of_mem fun ha hb => hsame (h _ ha) (h _ hb)

namespace Value

theorem keys_unmarkedEntries (entries : List (Scalar × Value)) :
    (unmarkedEntries entries).map Prod.fst = entries.map Prod.fst := by
  induction entries with
  | nil => rfl
  | cons entry rest ih => rw [unmarkedEntries, List.map_cons, List.map_cons, ih]

theorem keys_rereadEntries (entries : List (Scalar × Value)) :
    (rereadEntries entries).map Prod.fst = entries.map (·.1.rereadKey) := by
  induction entries with
  | nil => rfl
  | cons entry rest ih => rw [rereadEntries, List.map_cons, List.map_cons, ih]

/-- Keys that are put together come from the entries. -/
theorem mem_keys_ofEntries {entries : List (Scalar × Value)} {k : Scalar}
    (h : k ∈ (Mapping.ofEntries entries).map Prod.fst) : k ∈ entries.map Prod.fst := by
  have hupdate : ∀ {news m : Mapping}, k ∈ (m.update news).map Prod.fst →
      k ∈ m.map Prod.fst ∨ k ∈ news.map Prod.fst := by
    intro news
    induction news with
    | nil => exact fun h => .inl h
    | cons entry rest ih =>
      intro m h
      rw [List.map_cons, List.mem_cons]
      rcases ih h with h | h
      · rw [Mapping.keys_put] at h
        split at h
        · exact .inl h
        · rcases List.mem_append.1 h with h | h
          · exact .inl h
          · exact .inr (.inl (List.mem_singleton.1 h))
      · exact .inr (.inr h)
  exact (hupdate h).resolve_left List.not_mem_nil

theorem isText_of_mem_rereadEntries {entries : List (Scalar × Value)} {k : Scalar}
    (h : k ∈ (rereadEntries entries).map Prod.fst) : k.isText = true := by
  rw [keys_rereadEntries] at h
  obtain ⟨entry, -, rfl⟩ := List.mem_map.1 h
  rfl

/-- Keys that are texts of their own stay as they are. -/
theorem ofEntries_rereadEntries {entries : List (Scalar × Value)}
    (htext : (entries.map Prod.fst).all Scalar.isText = true)
    (hbasic : (entries.map Prod.fst).all Scalar.isBasic = true) (hnodup : (entries.map Prod.fst).Nodup) :
    Mapping.ofEntries (rereadEntries entries) = rereadEntries entries := by
  have hkeys : (rereadEntries entries).map Prod.fst = entries.map Prod.fst := by
    rw [keys_rereadEntries]
    refine List.map_congr_left fun entry hentry => ?_
    have hmem := List.mem_map_of_mem (f := Prod.fst) hentry
    exact Scalar.rereadKey_of_isText (List.all_eq_true.1 htext _ hmem) (List.all_eq_true.1 hbasic _ hmem)
  have hdistinct : Mapping.Distinct (rereadEntries entries) :=
    (Mapping.distinct_iff_nodup fun k hk => isText_of_mem_rereadEntries hk).2 (hkeys ▸ hnodup)
  exact Mapping.update_of_distinct (m := []) hdistinct

mutual

/-- **A value is read again as it is**, up to marks, exactly if each key is a text of its own and each decimal number
has a point in its text. -/
theorem reread_eq_unmarked_iff (v : Value) (h : v.isBasic = true) : v.reread = v.unmarked ↔ v.isFaithful = true := by
  match v with
  | .scalar s =>
    rw [reread, unmarked, Value.scalar.injEq]
    exact Scalar.reread_eq_self_iff h
  | .list _ items =>
    rw [reread, unmarked, Value.list.injEq, eq_self, true_and]
    exact rereadItems_eq_unmarkedItems_iff items h
  | .mapping _ entries =>
    rw [isBasic, all, Bool.and_eq_true] at h
    have ih := rereadEntries_eq_unmarkedEntries_iff entries h.1 h.2
    rw [reread, unmarked, Value.mapping.injEq, eq_self, true_and, isFaithful, all]
    simp only [Bool.and_eq_true, decide_eq_true_eq]
    constructor
    · intro heq
      have hkeys : (Mapping.ofEntries (rereadEntries entries)).map Prod.fst = entries.map Prod.fst := by
        rw [heq, keys_unmarkedEntries]
      have htext : ∀ k ∈ (Mapping.ofEntries (rereadEntries entries)).map Prod.fst, k.isText = true :=
        fun k hk => isText_of_mem_rereadEntries (mem_keys_ofEntries hk)
      have hdistinct : Mapping.Distinct (Mapping.ofEntries (rereadEntries entries)) :=
        Mapping.Distinct.update (m := []) List.Pairwise.nil _
      have hnodup := (Mapping.distinct_iff_nodup htext).1 hdistinct
      rw [hkeys] at htext hnodup
      have hall := List.all_eq_true.2 htext
      refine ⟨⟨hall, hnodup⟩, ?_⟩
      rw [ofEntries_rereadEntries hall h.1 hnodup] at heq
      exact (ih hall).1 heq
    · rintro ⟨⟨htext, hnodup⟩, hvalues⟩
      rw [ofEntries_rereadEntries htext h.1 hnodup]
      exact (ih htext).2 hvalues
  | .set _ _ => exact ⟨fun _ => rfl, fun _ => rfl⟩
  | .knot _ body => exact reread_eq_unmarked_iff body h
  | .again _ => exact ⟨fun _ => rfl, fun _ => rfl⟩

theorem rereadItems_eq_unmarkedItems_iff (items : List Value)
    (h : allItems Scalar.isBasic (·.all Scalar.isBasic) items = true) : rereadItems items = unmarkedItems items ↔
      allItems Scalar.isFaithful (fun keys => keys.all Scalar.isText && decide keys.Nodup) items = true := by
  match items with
  | [] => exact ⟨fun _ => rfl, fun _ => rfl⟩
  | v :: rest =>
    rw [allItems, Bool.and_eq_true] at h
    rw [rereadItems, unmarkedItems, List.cons.injEq, allItems, Bool.and_eq_true, reread_eq_unmarked_iff v h.1,
      rereadItems_eq_unmarkedItems_iff rest h.2]
    rfl

theorem rereadEntries_eq_unmarkedEntries_iff (entries : List (Scalar × Value))
    (hkeys : (entries.map Prod.fst).all Scalar.isBasic = true)
    (h : allEntries Scalar.isBasic (·.all Scalar.isBasic) entries = true)
    (htext : (entries.map Prod.fst).all Scalar.isText = true) : rereadEntries entries = unmarkedEntries entries ↔
      allEntries Scalar.isFaithful (fun keys => keys.all Scalar.isText && decide keys.Nodup) entries = true := by
  match entries with
  | [] => exact ⟨fun _ => rfl, fun _ => rfl⟩
  | (k, v) :: rest =>
    rw [allEntries, Bool.and_eq_true] at h
    rw [List.map_cons, List.all_cons, Bool.and_eq_true] at hkeys htext
    rw [rereadEntries, unmarkedEntries, List.cons.injEq, Prod.mk.injEq, Scalar.rereadKey_of_isText htext.1 hkeys.1,
      eq_self, true_and, allEntries, Bool.and_eq_true, reread_eq_unmarked_iff v h.1,
      rereadEntries_eq_unmarkedEntries_iff rest hkeys.2 h.2 htext.2]
    rfl

end

end Value

end SchemaClosure
