import SchemaClosure.Proofs.Inspect.Blocks
import SchemaClosure.Proofs.Text.Dotted
import SchemaClosure.Proofs.Text.Unstyling

/-!
# Styles only add to a listing

A title or a caption with its style is the title or caption once styles are dropped (`unstyled_style`), and nothing else
in a listing has a style of its own. So the styles left in a styled listing are those in the names that it shows, as in
the listing without styles (`Subject.unstyled_listing`), and where the names have none, the listing without styles is
what is left (`Subject.unstyled_listing_of_plain`).
-/

namespace SchemaClosure

namespace Listing

open Text (Plain unstyled plain_append unstyled_append unstyled_plain_append unstyled_plain plain_join plain_int)

/-! ## Lines -/

/-- The codes around a text go away, and no style that the text begins goes on behind it. -/
theorem unstyled_style (code : String) (h : ∀ c ∈ code.toList, Chars.isStyleArgument c = true) (s t : String) :
    unstyled (style code true s ++ t) = unstyled s ++ unstyled t := by
  have hcode (arguments : String) (h : ∀ c ∈ arguments.toList, Chars.isStyleArgument c = true) (t : String) :
      unstyled ("\x1b[" ++ arguments ++ "m" ++ t) = unstyled t := by
    have hlist : ("\x1b[" ++ arguments ++ "m" ++ t).toList =
        Chars.escape :: '[' :: (arguments.toList ++ 'm' :: t.toList) := by simp [Chars.escape]
    rw [unstyled, hlist, Chars.unstyled_code h, unstyled]
  -- whatever the text begins, the escape character of the code behind it ends
  have hbreaks : Chars.Breaks ("\x1b[0m" ++ t).toList := by
    rw [String.toList_append]
    exact Chars.breaks_cons (c := '\x1b') (by decide) _
  have hend : unstyled ("\x1b[0m" ++ t) = unstyled t := hcode "0" (by simp [Chars.isStyleArgument]) t
  calc unstyled (style code true s ++ t)
      = unstyled ("\x1b[" ++ code ++ "m" ++ (s ++ ("\x1b[0m" ++ t))) := by
        simp only [style, if_true, String.append_assoc]
    _ = unstyled (s ++ ("\x1b[0m" ++ t)) := hcode code h _
    _ = unstyled s ++ unstyled t := by rw [unstyled_append hbreaks, hend]

theorem plain_indent (depth : Nat) : Plain (indent depth) := Text.plain_repeated (by decide) _

theorem plain_connector (depth : Nat) : Plain (connector depth) := by
  cases depth with
  | zero => decide
  | succ depth => exact plain_append.2 ⟨plain_indent depth, by decide⟩

theorem unstyled_title (styled : Bool) (depth : Nat) (title : String) :
    unstyled (connector depth ++ bold styled title) = connector depth ++ unstyled title := by
  rw [unstyled_plain_append (plain_connector depth)]
  cases styled with
  | false => rfl
  | true =>
    have hstyle := unstyled_style "1" (by simp [Chars.isStyleArgument]) title ""
    rw [String.append_empty] at hstyle
    rw [bold, hstyle, unstyled_plain (s := "") (by decide), String.append_empty]

theorem unstyled_caption (styled : Bool) (depth : Nat) {caption : String} (h : Plain caption) (text : String) :
    unstyled (indent depth ++ gray styled caption ++ text) = indent depth ++ caption ++ unstyled text := by
  rw [String.append_assoc, unstyled_plain_append (plain_indent depth), String.append_assoc]
  cases styled with
  | false => exact congrArg _ (unstyled_plain_append h text)
  | true => rw [gray, unstyled_style "90" (by simp [Chars.isStyleArgument]), unstyled_plain h]

theorem unstyled_block (styled : Bool) (depth : Nat) (title holder : String) {more : List (String × String)}
    (h : ∀ line ∈ more, Plain line.1) :
    (block styled depth title holder more).map unstyled = (connector depth ++ unstyled title)
      :: (("parent: ", holder) :: more).map (fun (caption, text) => indent depth ++ caption ++ unstyled text)
      ++ [""] := by
  have hcaptions : ∀ line ∈ ("parent: ", holder) :: more, Plain line.1 :=
    List.forall_mem_cons.2 ⟨show Plain "parent: " by decide, h⟩
  have hlines : (("parent: ", holder) :: more).map (unstyled ∘ fun (caption, text) =>
        indent depth ++ gray styled caption ++ text) =
      (("parent: ", holder) :: more).map fun (caption, text) => indent depth ++ caption ++ unstyled text :=
    List.map_congr_left fun line hline => unstyled_caption styled depth (hcaptions line hline) line.2
  have hempty : unstyled "" = "" := unstyled_plain (by decide)
  rw [block, List.map_append, List.map_cons, List.map_map, unstyled_title, List.map_singleton, hempty, hlines]

theorem Item.plain_captions (item : Item) : ∀ line ∈ item.details, Plain line.1 := by
  match item with
  | .root _ => simp [details]
  | .node (.space _ _ _ _) => simp [details]
  | .node (.type t) =>
    cases h : t.kind with
    | message => simp [details, h]
    | enum =>
      simp only [details, h, List.forall_mem_singleton]
      decide
  | .field f =>
    simp only [details, List.forall_mem_cons, List.forall_mem_map]
    exact ⟨by decide, fun _ _ => by decide⟩

theorem map_unstyled_lines (styled : Bool) (depth : Nat) (visits : List Visit) :
    (lines styled depth visits).map unstyled = (lines false depth visits).map unstyled := by
  simp only [lines, Visit.block, List.map_flatMap, unstyled_block _ _ _ _ (Item.plain_captions _)]

theorem map_checked (f : String → String) (writable : Bool) (listing : String) :
    (checked writable listing).map f = checked writable (f listing) := by
  cases writable <;> rfl

/-- **Styles only add.** The styles left in a styled listing are those in the listing without styles. -/
theorem Subject.unstyled_listing (n : Subject) :
    (n.listing? true).map unstyled = (n.listing? false).map unstyled := by
  rw [listing?_eq_lines, listing?_eq_lines, map_checked, map_checked, Text.unstyled_lines, Text.unstyled_lines,
    map_unstyled_lines true]

/-! ## Names without styles -/

/-- The names, the declared type and the rule in the block of an item. -/
def Item.words : Item → List String
  | .root _ => []
  | .node (.space _ fullName _ _) => [fullName]
  | .node (.type t) => t.owner :: t.name :: t.values.map (·.1)
  | .field f => f.name :: f.typeName :: f.rule.toList ++ f.resolved.toList.flatMap fun key => [key.owner, key.name]

theorem plain_address {key : TypeAddress} (howner : Plain key.owner) (hname : Plain key.name) : Plain key.text := by
  rw [TypeAddress.text]
  split
  · exact hname
  · exact plain_append.2 ⟨plain_append.2 ⟨howner, by decide⟩, hname⟩

theorem plain_fieldType {f : Field} (htype : Plain f.typeName) (hrule : ∀ rule ∈ f.rule, Plain rule) :
    Plain (fieldType f) := by
  refine plain_join (by decide) fun part hpart => ?_
  rcases List.mem_append.1 hpart with hpart | hpart
  · rcases List.mem_append.1 hpart with hpart | hpart
    · exact hrule part (by simpa using (List.mem_filter.1 hpart).1)
    · exact List.mem_singleton.1 hpart ▸ htype
  · obtain ⟨n, -, rfl⟩ := List.mem_map.1 hpart
    exact plain_append.2 ⟨by decide, plain_int n⟩

namespace Item

variable {item : Item} (h : ∀ w ∈ item.words, Plain w)

include h

theorem plain_label : Plain item.label := by
  match item with
  | .root _ => exact show Plain rootLabel by decide
  | .node (.space _ fullName _ _) => exact h fullName (by simp [words])
  | .node (.type t) => exact plain_address (h t.owner (by simp [words])) (h t.name (by simp [words]))
  | .field f => exact h f.name (by simp [words])

theorem plain_title {holder : String} (hholder : Plain holder) : Plain (item.title holder) := by
  have hlabel := plain_label h
  match item with
  | .root _ => exact show Plain "Root" by decide
  | .node (.space _ fullName _ _) => exact plain_append.2 ⟨show Plain "Namespace " by decide, hlabel⟩
  | .node (.type t) =>
    have hkind : Plain (kindWord t.kind) := by cases t.kind <;> decide
    exact plain_append.2 ⟨plain_append.2 ⟨hkind, show Plain " " by decide⟩, hlabel⟩
  | .field f =>
    exact plain_append.2 ⟨plain_append.2 ⟨plain_append.2 ⟨show Plain "Field " by decide, hholder⟩,
      show Plain "." by decide⟩, hlabel⟩

theorem plain_details : ∀ line ∈ item.details, Plain line.2 := by
  match item with
  | .root _ => simp [details]
  | .node (.space _ _ _ _) => simp [details]
  | .node (.type t) =>
    cases hkind : t.kind with
    | message => simp [details, hkind]
    | enum =>
      simp only [details, hkind, List.forall_mem_singleton]
      refine plain_join (by decide) fun value hvalue => ?_
      obtain ⟨⟨name, n⟩, hmem, rfl⟩ := List.mem_map.1 hvalue
      have hname : Plain name := h name (by simpa [words] using .inr (.inr ⟨n, hmem⟩))
      exact plain_append.2 ⟨plain_append.2 ⟨hname, show Plain "=" by decide⟩, plain_int n⟩
  | .field f =>
    simp only [details, List.forall_mem_cons, List.forall_mem_map]
    refine ⟨plain_fieldType (h f.typeName (by simp [words])) fun rule hrule => h rule ?_, fun key hkey => ?_⟩
    · simp [words, Option.mem_def.1 hrule]
    · have hresolved : f.resolved = some key := Option.mem_toList.1 hkey
      exact plain_address (h key.owner (by simp [words, hresolved])) (h key.name (by simp [words, hresolved]))

end Item

theorem Visit.plain_plainLines {v : Visit} (hholder : Plain v.holder) (h : ∀ w ∈ v.item.words, Plain w) :
    ∀ line ∈ v.plainLines, Plain line := by
  have hcaptions : ∀ line ∈ ("parent: ", v.holder) :: v.item.details, Plain line.1 :=
    List.forall_mem_cons.2 ⟨show Plain "parent: " by decide, v.item.plain_captions⟩
  have htexts : ∀ line ∈ ("parent: ", v.holder) :: v.item.details, Plain line.2 :=
    List.forall_mem_cons.2 ⟨hholder, Item.plain_details h⟩
  intro line hline
  rcases List.mem_append.1 hline with hline | hline
  · rcases List.mem_cons.1 hline with rfl | hline
    · exact plain_append.2 ⟨plain_connector _, Item.plain_title h hholder⟩
    · obtain ⟨line, hmem, rfl⟩ := List.mem_map.1 hline
      exact plain_append.2 ⟨plain_append.2 ⟨plain_indent _, hcaptions line hmem⟩, htexts line hmem⟩
  · exact List.mem_singleton.1 hline ▸ by decide

namespace Subject

/-- No name, declared type or rule in the listing has an escape character. -/
def Plain (n : Subject) : Prop := ∀ v ∈ n.preorder, ∀ w ∈ v.item.words, Text.Plain w

theorem plain_holderOf {fullName : String} (h : Text.Plain fullName) : Text.Plain (holderOf fullName) := by
  rw [holderOf]
  split
  · rename_i before name hcut
    obtain ⟨⟨start, last⟩, hsplit, heq⟩ := Option.map_eq_some_iff.1 hcut
    cases heq
    split
    · exact show Text.Plain rootLabel by decide
    · have hmem : Chars.escape ∈ start → Chars.escape ∈ fullName.toList := by
        rw [(Chars.splitLast?_eq_some hsplit).1]
        exact List.mem_append_left _
      exact fun hc => h (hmem (by simpa using hc))
  · exact show Text.Plain rootLabel by decide

theorem plain_holder {n : Subject} (h : ∀ w ∈ n.item.words, Text.Plain w) : Text.Plain n.holder := by
  cases n with
  | whole schema => exact show Text.Plain "-" by decide
  | space ns => exact plain_holderOf (Item.plain_label h)
  | type t => exact h t.owner (by simp [item, Item.words])

theorem Plain.holder {n : Subject} (h : n.Plain) : ∀ v ∈ n.preorder, Text.Plain v.holder := by
  intro v hv
  rcases List.eq_nil_or_concat v.path with hpath | ⟨path, k, hpath⟩
  · have htop := Item.mem_visits_iff.1 hv
    rw [hpath, Item.at?, Option.some.injEq, Prod.mk.injEq] at htop
    exact htop.1 ▸ plain_holder (htop.2 ▸ h v hv)
  · obtain ⟨above, habove, -, -, hholder⟩ := Item.exists_above hv (hpath.trans List.concat_eq_append)
    exact hholder ▸ Item.plain_label (h above habove)

/-- **Dropping the styles of a listing gives the listing without styles** where no name has an escape character. -/
theorem unstyled_listing_of_plain (n : Subject) (h : n.Plain) :
    (n.listing? true).map unstyled = n.listing? false := by
  have hlines : ∀ line ∈ lines false 0 n.preorder, Text.Plain line := by
    intro line hline
    obtain ⟨v, hv, hline⟩ := List.mem_flatMap.1 hline
    exact Visit.plain_plainLines (h.holder v hv) (h v hv) line (v.block_false ▸ hline)
  rw [unstyled_listing, listing?_eq_lines, map_checked, unstyled_plain (plain_join (by decide) hlines)]

/-- A namespace whose names look like what follows the escape character of a style. -/
def bracketed : Namespace :=
  ⟨"[1m", "[1m", [],
    [.type ⟨"0m", "[1m", .enum, [], [("m", 0)], []⟩,
      .type ⟨"90m", "[1m", .message, [⟨"[0m", "0m", some 1, some "[", some ⟨"[1m", "0m"⟩, []⟩], [], []⟩]⟩

theorem unstyled_listing_of_plain_bracketed : Plain (.space bracketed) ∧
    ((space bracketed).listing? true).map unstyled = (space bracketed).listing? false := by
  have hplain : Plain (.space bracketed) := by
    simp [Plain, preorder, item, bracketed, Namespace.toNode, Item.visits_eq, Item.parts, Visit.below, Visit.under,
      Item.words, Text.Plain, Chars.escape]
  exact ⟨hplain, unstyled_listing_of_plain _ hplain⟩

end Subject

end Listing

end SchemaClosure
