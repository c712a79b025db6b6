import SchemaClosure.Proofs.Json.Tree
import SchemaClosure.Proofs.Yaml.Lexing
import SchemaClosure.Yaml.Scalar

/-!
# The tokens of a JSON text

The text of a tree whose words have values and whose keys are short is scanned as the tokens of the tree
(`Tokens.of_chars`). A part is scanned at any depth of brackets, with whatever stands behind it (`Lexer.scan`), by the
recursion of the tree.
-/

namespace SchemaClosure

namespace Json.Tree

open Yaml (Token isWord)

/-- The comma in front of a part that is not the first one. -/
def commaToken (first : Bool) : List Token := if first then [] else [.flowEntry]

mutual

/-- The tokens of a tree. -/
def tokens : Tree → List Token
  | .word w => [.scalar w true]
  | .literal s => [.scalar (Text.units s) false]
  | .list items => .flowSequenceStart :: itemsTokens true items ++ [.flowSequenceEnd]
  | .mapping entries => .flowMappingStart :: entriesTokens true entries ++ [.flowMappingEnd]

/-- The tokens of the items of a list. -/
def itemsTokens (first : Bool) : List Tree → List Token
  | [] => []
  | t :: rest => commaToken first ++ t.tokens ++ itemsTokens false rest

/-- The tokens of the entries of a mapping. -/
def entriesTokens (first : Bool) : List (String × Tree) → List Token
  | [] => []
  | (k, t) :: rest =>
    commaToken first ++ [.key, .scalar (Text.units k) false, .value] ++ t.tokens ++ entriesTokens false rest

end

/-- The value of a word. -/
def wordValue? (w : String) : Except Fault Scalar := Yaml.scalarValue none (Yaml.Tag.ofPlain w) w

mutual

/-- Words are words with a value, and keys can be told by the colons behind them. -/
def Readable : Tree → Prop
  | .word w => isWord w.toList = true ∧ ∃ s, wordValue? w = .ok s
  | .literal _ => True
  | .list items => ReadableItems items
  | .mapping entries => ReadableEntries entries

/-- All items of a list are readable. -/
def ReadableItems : List Tree → Prop
  | [] => True
  | t :: rest => t.Readable ∧ ReadableItems rest

/-- All entries of a mapping are readable. -/
def ReadableEntries : List (String × Tree) → Prop
  | [] => True
  | (k, t) :: rest => (Json.literal k).toList.length ≤ 1024 ∧ t.Readable ∧ ReadableEntries rest

end

/-- Whether a tree is a list or a mapping. -/
def hasParts : Tree → Bool
  | .list _ => true
  | .mapping _ => true
  | _ => false

theorem isBlank_of_mem_line {k : Nat} {x : Char} (h : x ∈ line k) : Yaml.isBlank x = true := by
  rcases List.mem_cons.1 h with rfl | h
  · rfl
  · rw [List.eq_of_mem_replicate h]
    rfl

theorem dropWhile_line (k : Nat) (rest : List Char) :
    (line k ++ rest).dropWhile Yaml.isBlank = rest.dropWhile Yaml.isBlank :=
  Yaml.dropWhile_isBlank_append (fun _ => isBlank_of_mem_line) rest

theorem dropWhile_lastLine (k : Nat) (empty : Bool) (rest : List Char) :
    (lastLine k empty ++ rest).dropWhile Yaml.isBlank = rest.dropWhile Yaml.isBlank := by
  cases empty with
  | true => rfl
  | false => exact dropWhile_line k rest

end Json.Tree

namespace Yaml.Lexer

open Json.Tree

theorem Inside.congr {l : Lexer} {d : Nat} {tokens : List Token} {text text' : List Char}
    (h : l.Inside d tokens text) (htext : text.dropWhile isBlank = text'.dropWhile isBlank) :
    l.Inside d tokens text' :=
  { h with text := h.text.trans htext }

theorem ends_closing {x : Char} (hx : x = ']' ∨ x = '\x7d') (k : Nat) (empty : Bool) (rest : List Char) :
    (lastLine k empty ++ ([x] ++ rest)).dropWhile isBlank = x :: rest ∧ Ends (lastLine k empty ++ ([x] ++ rest)) := by
  have hdrop : (lastLine k empty ++ ([x] ++ rest)).dropWhile isBlank = x :: rest := by
    rw [dropWhile_lastLine]
    exact List.dropWhile_cons_of_neg (by rcases hx with rfl | rfl <;> decide)
  exact ⟨hdrop, x, rest, hdrop, .inr hx⟩

theorem not_isBlank_of_startsToken {x : Char} (h : startsToken x = true) : ¬isBlank x = true := by
  intro hx
  rcases isBlank_iff.1 hx with rfl | rfl <;> cases h

theorem dropWhile_literal (s : String) (rest : List Char) :
    ((Json.literal s).toList ++ rest).dropWhile isBlank = (Json.literal s).toList ++ rest := by
  obtain ⟨more, hmore⟩ := exists_literal_cons s rest
  rw [hmore]
  rfl

/-- What stands in front of a part: the comma, unless it is the first one, where a key is allowed already. -/
theorem Inside.leads_part {l : Lexer} {d : Nat} {tokens : List Token} {first : Bool} {k : Nat} {rest : List Char}
    (h : l.Inside d tokens (comma first ++ (line k ++ rest))) (hfirst : first = true → l.keyAllowed = true) :
    ∃ l', l.Leads l' ∧ l'.Inside d ((commaToken first).reverse ++ tokens) rest ∧ l'.keyAllowed = true := by
  cases first with
  | true => exact ⟨l, Leads.refl l, h.congr (dropWhile_line k rest), hfirst rfl⟩
  | false =>
    have hcomma : (comma false ++ (line k ++ rest)).dropWhile Yaml.isBlank = ',' :: (line k ++ rest) := rfl
    obtain ⟨l', hleads, hinside, hallowed⟩ := h.leads_comma hcomma
    exact ⟨l', hleads, hinside.congr (dropWhile_line k rest), hallowed⟩

mutual

/-- **A tree** is scanned as its tokens: at any depth of brackets if it has brackets of its own, else inside of some. -/
theorem scan (t : Json.Tree) (ht : t.Readable) {l : Lexer} {d k : Nat} {tokens : List Token} {rest : List Char}
    (h : l.Inside d tokens (t.chars k ++ rest)) (hplace : t.hasParts = true ∨ d ≠ 0 ∧ Ends rest) :
    ∃ l', l.Leads l' ∧ l'.Inside d (t.tokens.reverse ++ tokens) rest := by
  match t with
  | .word w =>
    obtain ⟨hd, hrest⟩ := hplace.resolve_left Bool.false_ne_true
    obtain ⟨d, rfl⟩ := Nat.exists_eq_succ_of_ne_zero hd
    have hword : isWord w.toList = true := ht.1
    obtain ⟨-, x, more, hcons⟩ := isWord_cons hword
    have htext : (w.toList ++ rest).dropWhile isBlank = w.toList ++ rest := by
      rw [hcons] at hword ⊢
      exact List.dropWhile_cons_of_neg (not_isBlank_of_startsToken (startsToken_of_isWord hword))
    obtain ⟨l', hleads, hinside⟩ := h.leads_word htext hword hrest
    rw [String.ofList_toList] at hinside
    exact ⟨l', hleads, hinside⟩
  | .literal s =>
    exact h.leads_literal (dropWhile_literal s rest)
  | .list items =>
    rw [chars, List.append_assoc, List.append_assoc, List.cons_append] at h
    obtain ⟨hclosing, hends⟩ := ends_closing (.inl rfl) k items.isEmpty rest
    obtain ⟨l₁, hleads₁, hinside₁, hallowed⟩ := h.leads_open (.inl ⟨rfl, rfl⟩) rfl
    obtain ⟨l₂, hleads₂, hinside₂⟩ := scanItems items ht hinside₁ hends fun _ => hallowed
    obtain ⟨l₃, hleads₃, hinside₃⟩ := hinside₂.leads_close (.inl ⟨rfl, rfl⟩) hclosing
    refine ⟨l₃, (hleads₁.trans hleads₂).trans hleads₃, ?_⟩
    simpa [Json.Tree.tokens] using hinside₃
  | .mapping entries =>
    rw [chars, List.append_assoc, List.append_assoc, List.cons_append] at h
    obtain ⟨hclosing, hends⟩ := ends_closing (.inr rfl) k entries.isEmpty rest
    obtain ⟨l₁, hleads₁, hinside₁, hallowed⟩ := h.leads_open (.inr ⟨rfl, rfl⟩) rfl
    obtain ⟨l₂, hleads₂, hinside₂⟩ := scanEntries entries ht hinside₁ hends fun _ => hallowed
    obtain ⟨l₃, hleads₃, hinside₃⟩ := hinside₂.leads_close (.inr ⟨rfl, rfl⟩) hclosing
    refine ⟨l₃, (hleads₁.trans hleads₂).trans hleads₃, ?_⟩
    simpa [Json.Tree.tokens] using hinside₃

theorem scanItems (items : List Json.Tree) (hitems : ReadableItems items) {l : Lexer} {d k : Nat}
    {tokens : List Token} {first : Bool} {rest : List Char}
    (h : l.Inside (d + 1) tokens (itemsChars first k items ++ rest)) (hrest : Ends rest)
    (hfirst : first = true → l.keyAllowed = true) :
    ∃ l', l.Leads l' ∧ l'.Inside (d + 1) ((itemsTokens first items).reverse ++ tokens) rest := by
  match items with
  | [] => exact ⟨l, Leads.refl l, h⟩
  | t :: others =>
    simp only [itemsChars, List.append_assoc] at h
    have hends : Ends (itemsChars false k others ++ rest) := by
      cases others with
      | nil => exact hrest
      | cons _ _ => exact ⟨_, _, rfl, .inl rfl⟩
    obtain ⟨l₁, hleads₁, hinside₁, -⟩ := h.leads_part hfirst
    obtain ⟨l₂, hleads₂, hinside₂⟩ := scan t hitems.1 hinside₁ (.inr ⟨Nat.succ_ne_zero d, hends⟩)
    obtain ⟨l₃, hleads₃, hinside₃⟩ := scanItems others hitems.2 hinside₂ hrest (fun h => by cases h)
    refine ⟨l₃, (hleads₁.trans hleads₂).trans hleads₃, ?_⟩
    simpa [itemsTokens] using hinside₃

theorem scanEntries (entries : List (String × Json.Tree)) (hentries : ReadableEntries entries) {l : Lexer} {d k : Nat}
    {tokens : List Token} {first : Bool} {rest : List Char}
    (h : l.Inside (d + 1) tokens (entriesChars first k entries ++ rest)) (hrest : Ends rest)
    (hfirst : first = true → l.keyAllowed = true) :
    ∃ l', l.Leads l' ∧ l'.Inside (d + 1) ((entriesTokens first entries).reverse ++ tokens) rest := by
  match entries with
  | [] => exact ⟨l, Leads.refl l, h⟩
  | (s, t) :: others =>
    simp only [entriesChars, List.append_assoc, List.cons_append] at h
    have hends : Ends (entriesChars false k others ++ rest) := by
      cases others with
      | nil => exact hrest
      | cons _ _ => exact ⟨_, _, rfl, .inl rfl⟩
    obtain ⟨l₁, hleads₁, hinside₁, hallowed⟩ := h.leads_part hfirst
    obtain ⟨l₂, hleads₂, hinside₂⟩ := hinside₁.leads_key hallowed (dropWhile_literal s _) hentries.1
    have hvalue : l₂.Inside (d + 1)
        (.value :: .scalar (Text.units s) false :: .key :: ((commaToken first).reverse ++ tokens))
        (t.chars k ++ (entriesChars false k others ++ rest)) := hinside₂.congr rfl
    obtain ⟨l₃, hleads₃, hinside₃⟩ := scan t hentries.2.1 hvalue (.inr ⟨Nat.succ_ne_zero d, hends⟩)
    obtain ⟨l₄, hleads₄, hinside₄⟩ := scanEntries others hentries.2.2 hinside₃ hrest (fun h => by cases h)
    refine ⟨l₄, ((hleads₁.trans hleads₂).trans hleads₃).trans hleads₄, ?_⟩
    simpa [entriesTokens] using hinside₄

end

end Yaml.Lexer

namespace Json.Tree

open Yaml (isAllowed)

theorem isAllowed_of_isShown {x : Char} (h : isShown x = true) : isAllowed x = true := by
  rw [isShown, Bool.and_eq_true, decide_eq_true_eq, decide_eq_true_eq] at h
  simp [isAllowed, h]

theorem isAllowed_of_mem_line {k : Nat} {x : Char} (h : x ∈ line k) : isAllowed x = true := by
  rcases Yaml.isBlank_iff.1 (isBlank_of_mem_line h) with rfl | rfl <;> rfl

theorem isAllowed_of_isWordChar {x : Char} (h : Yaml.isWordChar x = true) : isAllowed x = true := by
  simp only [Yaml.isWordChar, Bool.or_eq_true, decide_eq_true_eq] at h
  rcases h with ((h | rfl) | rfl) | rfl
  · exact isAllowed_of_isShown (Yaml.Lexer.isShown_of_isAlphanum h)
  · rfl
  · rfl
  · rfl

theorem all_isAllowed_line (k : Nat) : (line k).all isAllowed = true :=
  List.all_eq_true.2 fun _ => isAllowed_of_mem_line

theorem all_isAllowed_lastLine (k : Nat) (empty : Bool) : (lastLine k empty).all isAllowed = true := by
  cases empty with
  | true => rfl
  | false => exact all_isAllowed_line k

theorem all_isAllowed_comma (first : Bool) : (comma first).all isAllowed = true := by
  cases first <;> rfl

theorem all_isAllowed_literal (s : String) : (Json.literal s).toList.all isAllowed = true :=
  List.all_eq_true.2 fun _ hx => isAllowed_of_isShown (isShown_of_mem_literal hx)

mutual

/-- The characters of a tree may stand in a text. -/
theorem all_isAllowed_chars (t : Tree) (ht : t.Readable) (k : Nat) : (t.chars k).all isAllowed = true := by
  match t with
  | .word w => exact List.all_eq_true.2 fun x hx => isAllowed_of_isWordChar ((Yaml.isWord_cons ht.1).1 x hx)
  | .literal s => exact all_isAllowed_literal s
  | .list items =>
    simp only [chars, List.all_append, List.all_cons, List.all_nil, all_isAllowed_itemsChars items ht,
      all_isAllowed_lastLine]
    rfl
  | .mapping entries =>
    simp only [chars, List.all_append, List.all_cons, List.all_nil, all_isAllowed_entriesChars entries ht,
      all_isAllowed_lastLine]
    rfl

theorem all_isAllowed_itemsChars (items : List Tree) (hitems : ReadableItems items) (first : Bool) (k : Nat) :
    (itemsChars first k items).all isAllowed = true := by
  match items with
  | [] => rfl
  | t :: rest =>
    simp only [itemsChars, List.all_append, all_isAllowed_comma, all_isAllowed_line,
      all_isAllowed_chars t hitems.1 k, all_isAllowed_itemsChars rest hitems.2, Bool.and_self]

theorem all_isAllowed_entriesChars (entries : List (String × Tree)) (hentries : ReadableEntries entries) (first : Bool)
    (k : Nat) : (entriesChars first k entries).all isAllowed = true := by
  match entries with
  | [] => rfl
  | (s, t) :: rest =>
    simp only [entriesChars, List.all_append, List.all_cons, all_isAllowed_comma, all_isAllowed_line,
      all_isAllowed_literal, all_isAllowed_chars t hentries.2.1 k, all_isAllowed_entriesChars rest hentries.2.2]
    rfl

end

end Json.Tree

namespace Yaml

open Json.Tree

end Yaml

end SchemaClosure
