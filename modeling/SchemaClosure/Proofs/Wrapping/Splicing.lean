import SchemaClosure.Proofs.Text.Replacing
import SchemaClosure.Wrapping.Splice

/-!
# What wrapping a text gives

The result of wrapping is described apart from the steps that build it (`WrapSettings.Wrapped`): the name of the
dependency stands at every placeholder for it, the lines of the text stand at the first placeholder for the text, each
behind as many spaces as that placeholder, the comment stands in front, and all line ends that have two characters are
made one. Every template and text have exactly one such result, and it is what wrapping gives
(`WrapSettings.wrapped_iff`). The text and the comment go into the result as they are: no placeholder is looked for in
them.
-/

namespace SchemaClosure

namespace Chars

/-! ## Lines -/

theorem join_append (c : Char) (front line : List Char) (lines : List (List Char)) :
    join c ((front ++ line) :: lines) = front ++ join c (line :: lines) := by
  cases lines <;> simp [join]

/-- What stands behind the indent of the first line. -/
theorem flatMap_indent (indent : List Char) {s line : List Char} {lines : List (List Char)}
    (h : split '\n' s = line :: lines) :
    (s.flatMap fun c => if c = '\n' then c :: indent else [c]) = join '\n' (line :: lines.map (indent ++ ·)) := by
  induction s generalizing line lines with
  | nil =>
    cases h
    rfl
  | cons c rest ih =>
    obtain ⟨next, others, hrest⟩ := List.exists_cons_of_ne_nil (split_ne_nil '\n' rest)
    have ih := ih hrest
    rw [split, hrest] at h
    rw [List.flatMap_cons, ih]
    by_cases hc : c = '\n'
    · rw [if_pos hc] at h ⊢
      cases h
      rw [List.map_cons, join, join_append, hc]
      rfl
    · rw [if_neg hc] at h ⊢
      cases h
      rw [join_cons_cons]
      rfl

/-- Every line goes behind the indent, the empty ones and the one behind the last line feed as well. -/
theorem indentLines_eq (indent s : List Char) :
    indentLines indent s = join '\n' ((split '\n' s).map (indent ++ ·)) := by
  obtain ⟨line, lines, hlines⟩ := List.exists_cons_of_ne_nil (split_ne_nil '\n' s)
  rw [indentLines, flatMap_indent indent hlines, hlines, List.map_cons, join_append]

/-- Line ends are made one character by replacing every pair of a carriage return and a line feed. -/
theorem joinLineEnds_eq_replace (s : List Char) : joinLineEnds s = replace ['\r', '\n'] ['\n'] s := by
  fun_induction joinLineEnds s with
  | case1 rest ih =>
    have hne : ['\r', '\n'] ≠ [] := List.cons_ne_nil _ _
    have hpair : replace ['\r', '\n'] ['\n'] ('\r' :: '\n' :: rest) = '\n' :: replace ['\r', '\n'] ['\n'] rest :=
      replace_append hne rest
    rw [ih]
    exact hpair.symm
  | case2 c rest hpair ih =>
    have hstarts : ¬ ['\r', '\n'] <+: c :: rest := by
      rintro ⟨more, hmore⟩
      rw [List.cons_append, List.cons.injEq] at hmore
      exact hpair more hmore.1.symm hmore.2.symm
    rw [replace_cons hstarts, ih]
  | case3 => rfl

/-! ## The place of the text -/

/-- A text takes the first place of a word in a template. Each of its lines stands behind as many spaces as the word, and
these go with the word; a template without the word stays as it is. -/
inductive Spliced (word text template : List Char) : List Char → Prop
  | absent : ¬ word <:+: template → Spliced word text template template
  | present {before after : List Char} {k : Nat} :
    FirstAt word template (before ++ List.replicate k ' ') after → before.getLast? ≠ some ' ' →
    Spliced word text template
      (before ++ join '\n' ((split '\n' text).map (List.replicate k ' ' ++ ·)) ++ after)

variable {word text template result : List Char}

/-- Every text ends in some number of spaces. -/
theorem exists_trailing_spaces (s : List Char) :
    ∃ before k, s = before ++ List.replicate k ' ' ∧ before.getLast? ≠ some ' ' := by
  induction s using List.reverseRecOn with
  | nil => exact ⟨[], 0, rfl, by simp⟩
  | append_singleton s c ih =>
    by_cases hc : c = ' '
    · obtain ⟨before, k, hs, hbefore⟩ := ih
      exact ⟨before, k + 1, by rw [hs, hc, List.replicate_succ', List.append_assoc], hbefore⟩
    · exact ⟨s ++ [c], 0, by simp, by simpa using hc⟩

/-- The spaces at the end of a text are found. -/
theorem trailing_spaces {before : List Char} (h : before.getLast? ≠ some ' ') (k : Nat) :
    (before ++ List.replicate k ' ').reverse.takeWhile (· = ' ') = List.replicate k ' ' ∧
      ((before ++ List.replicate k ' ').reverse.dropWhile (· = ' ')).reverse = before := by
  have hspaces : ∀ c ∈ List.replicate k ' ', decide (c = ' ') = true := by
    intro c hc
    simpa using List.eq_of_mem_replicate hc
  have hstop : before.reverse.takeWhile (· = ' ') = [] ∧ before.reverse.dropWhile (· = ' ') = before.reverse := by
    cases hreverse : before.reverse with
    | nil => exact ⟨rfl, rfl⟩
    | cons c rest =>
      have hc : c ≠ ' ' := by
        rintro rfl
        rw [← List.head?_reverse, hreverse] at h
        exact h rfl
      exact ⟨List.takeWhile_cons_of_neg (by simpa using hc), List.dropWhile_cons_of_neg (by simpa using hc)⟩
  rw [List.reverse_append, List.reverse_replicate]
  constructor
  · rw [List.takeWhile_append_of_pos hspaces, hstop.1, List.append_nil]
  · rw [List.dropWhile_append_of_pos hspaces, hstop.2, List.reverse_reverse]

/-- **Splicing** puts a text at the first place of a word, and there is one way to do so. -/
theorem spliced_iff (hne : word ≠ []) : Spliced word text template result ↔ result = splice word text template := by
  have hsplice : ∀ {result}, Spliced word text template result → result = splice word text template := by
    rintro result (habsent | ⟨hfirst, hbefore⟩)
    · rw [splice, (cutAt?_eq_none_iff hne).2 habsent]
    · obtain ⟨htake, hdrop⟩ := trailing_spaces hbefore _
      rw [splice, (cutAt?_eq_some_iff hne).2 hfirst]
      dsimp only
      rw [htake, hdrop, indentLines_eq]
  refine ⟨hsplice, ?_⟩
  rintro rfl
  by_cases hword : word <:+: template
  · obtain ⟨front, after, hfirst⟩ := exists_firstAt hne hword
    obtain ⟨before, k, rfl, hbefore⟩ := exists_trailing_spaces front
    exact hsplice (.present hfirst hbefore) ▸ .present hfirst hbefore
  · exact hsplice (.absent hword) ▸ .absent hword

end Chars

namespace WrapSettings

open Chars

/-- What is made of a text that may be left out; an empty one counts as left out. -/
inductive Given {α : Type} (text? : Option String) (own : String → α) (other : α) : α → Prop
  | own {s : String} : text? = some s → s ≠ "" → Given text? own other (own s)
  | other : text? = none ∨ text? = some "" → Given text? own other other

theorem given_iff {α : Type} {text? : Option String} {own : String → α} {other a : α} :
    Given text? own other a ↔ a = ((text?.filter (· ≠ "")).map own).getD other := by
  constructor
  · rintro (⟨rfl, hne⟩ | rfl | rfl)
    · rw [Option.filter_some_pos (by simpa using hne)]
      rfl
    · rfl
    · rfl
  · rintro rfl
    cases text? with
    | none => exact .other (.inl rfl)
    | some s =>
      by_cases hs : s = ""
      · subst hs
        exact .other (.inr rfl)
      · rw [Option.filter_some_pos (by simpa using hs)]
        exact .own rfl hs

variable {options : WrapSettings}

theorem given_dependency_iff {name : String} :
    Given options.dependency id "protobufjs" name ↔ name = options.dependencyName := by
  rw [given_iff, Option.map_id_apply]
  rfl

/-- The comment that a text for checkers makes. -/
def commentOf (lint : String) : List Char := "/*".toList ++ lint.toList ++ "*/\n".toList

theorem given_comment_iff {comment : List Char} :
    Given options.lint commentOf [] comment ↔ comment = options.comment := by
  rw [given_iff, WrapSettings.comment]
  cases options.lint.filter (· ≠ "") <;> rfl

/-- What wrapping a text in a template gives. -/
def Wrapped (options : WrapSettings) (template text result : List Char) : Prop :=
  ∃ name comment named filled, Given options.dependency id "protobufjs" name ∧ Given options.lint commentOf [] comment ∧
    Replaced "$DEPENDENCY".toList (Json.literal name).toList template named ∧
    Spliced "$OUTPUT;".toList text named filled ∧ Replaced "\r\n".toList "\n".toList (comment ++ filled) result

/-- The result is unique, and it is what filling the template gives. -/
theorem wrapped_iff {template text result : String} :
    Wrapped options template.toList text.toList result.toList ↔ options.fill template text = result := by
  have hdependency : "$DEPENDENCY".toList = '$' :: "DEPENDENCY".toList := rfl
  have hpair : "\r\n".toList = ['\r', '\n'] := rfl
  have hfeed : "\n".toList = ['\n'] := rfl
  have houtput : "$OUTPUT;".toList ≠ [] := by decide
  have hnamed : ∀ {new named}, Replaced "$DEPENDENCY".toList new template.toList named ↔
      named = replace "$DEPENDENCY".toList new template.toList := by
    rw [hdependency]
    exact replaced_iff (by decide)
  have hended : ∀ {filled}, Replaced "\r\n".toList "\n".toList filled result.toList ↔
      String.ofList (joinLineEnds filled) = result := by
    intro filled
    rw [hpair, hfeed, replaced_iff (by decide), joinLineEnds_eq_replace, ← String.toList_inj, String.toList_ofList]
    exact eq_comm
  constructor
  · rintro ⟨name, comment, named, filled, hname, hcomment, hreplaced, hspliced, hresult⟩
    rw [given_dependency_iff] at hname
    rw [given_comment_iff] at hcomment
    rw [hnamed] at hreplaced
    rw [spliced_iff houtput] at hspliced
    rw [← hended.1 hresult, hspliced, hreplaced, hcomment, hname]
    rfl
  · intro h
    exact ⟨_, _, _, _, given_dependency_iff.2 rfl, given_comment_iff.2 rfl, hnamed.2 rfl, (spliced_iff houtput).2 rfl,
      hended.2 h⟩

/-- **What wrapping gives**, for every template and every text; and what it gives for the template that is named. -/
theorem wrap_splices (options : WrapSettings) (text : String) :
    (∀ template result, options.fill template text = result ↔
      Wrapped options template.toList text.toList result.toList) ∧
    ∀ fs home result, options.wrap fs home text = .ok result ↔
      ∃ template, Wrapper.load fs home options.wrapper = .ok template ∧
        Wrapped options template.toList text.toList result.toList := by
  refine ⟨fun template result => wrapped_iff.symm, fun fs home result => ?_⟩
  unfold wrap
  simp only [wrapped_iff]
  cases Wrapper.load fs home options.wrapper with
  | error e => simp [Except.map]
  | ok template => simp [Except.map]

end WrapSettings

end SchemaClosure
