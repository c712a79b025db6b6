import SchemaClosure.Proofs.Json.Literal
import SchemaClosure.Proofs.Wrapping.Splicing

/-!
# Line ends of wrapped texts

Making line ends one character goes over the text once, so a carriage return in front of a line end of two characters
takes the place of the one that is dropped (`Chars.pair_infix_joinLineEnds_iff`). A template that is read from a file has
no carriage return. A wrapped text is therefore without line ends of two characters iff there is no such
excess of carriage returns in the comment, nor in the text together with what stands behind its place in the template
(`WrapSettings.wrap_normal_iff`).
-/

namespace SchemaClosure

namespace Chars

variable {s t : List Char}

/-! ## One pass over the line ends -/

theorem feed_prefix_joinLineEnds_iff : ['\n'] <+: joinLineEnds s ↔ ['\n'] <+: s ∨ ['\r', '\n'] <+: s := by
  fun_cases joinLineEnds s with
  | case1 rest => simp [List.cons_prefix_cons]
  | case2 c rest hpair =>
    have hnot : ¬ ['\r', '\n'] <+: c :: rest := by
      rintro ⟨more, hmore⟩
      rw [List.cons_append, List.cons.injEq] at hmore
      exact hpair more hmore.1.symm hmore.2.symm
    simp [List.cons_prefix_cons, hnot]
  | case3 => simp

/-- **A line end of two characters is left** iff a carriage return stood in front of one. -/
theorem pair_infix_joinLineEnds_iff : ['\r', '\n'] <:+: joinLineEnds s ↔ ['\r', '\r', '\n'] <:+: s := by
  fun_induction joinLineEnds s with
  | case1 rest ih =>
    simp only [List.infix_cons_iff, List.cons_prefix_cons, ih]
    simp
  | case2 c rest hpair ih =>
    have hfeed : c = '\r' → ¬ ['\n'] <+: rest := by
      rintro rfl ⟨more, hmore⟩
      exact hpair more rfl hmore.symm
    rw [List.infix_cons_iff, List.infix_cons_iff, ih, List.cons_prefix_cons, List.cons_prefix_cons,
      feed_prefix_joinLineEnds_iff]
    refine or_congr_left (and_congr_right fun hc => ?_)
    exact or_iff_right (hfeed hc.symm)
  | case3 => simp

/-! ## An excess of carriage returns -/

/-- A carriage return stands in front of a line end of two characters. -/
def Excess (s : List Char) : Prop := ['\r', '\r', '\n'] <:+: s

instance (s : List Char) : Decidable (Excess s) := inferInstanceAs (Decidable (_ <:+: _))

theorem Excess.mem (h : Excess s) : '\r' ∈ s := h.subset (by simp)

/-- An excess lies on one side of a place, or over it. -/
theorem excess_append_iff : Excess (s ++ t) ↔ Excess s ∨ Excess t ∨
    ['\r'] <:+ s ∧ ['\r', '\n'] <+: t ∨ ['\r', '\r'] <:+ s ∧ ['\n'] <+: t := by
  unfold Excess
  rw [List.infix_append_iff]
  constructor
  · rintro (hs | ht | ⟨front, back, hsplit, hfront, hback⟩)
    · exact .inl hs
    · exact .inr (.inl ht)
    · match front with
      | [] => exact .inr (.inl (hsplit ▸ hback.isInfix))
      | [x] =>
        cases hsplit
        exact .inr (.inr (.inl ⟨hfront, hback⟩))
      | [x, y] =>
        cases hsplit
        exact .inr (.inr (.inr ⟨hfront, hback⟩))
      | x :: y :: z :: front =>
        simp only [List.cons_append, List.cons.injEq, List.nil_eq, List.append_eq_nil_iff] at hsplit
        obtain ⟨rfl, rfl, rfl, rfl, -⟩ := hsplit
        exact .inl hfront.isInfix
  · rintro (hs | ht | ⟨hs, ht⟩ | ⟨hs, ht⟩)
    · exact .inl hs
    · exact .inr (.inl ht)
    · exact .inr (.inr ⟨_, _, rfl, hs, ht⟩)
    · exact .inr (.inr ⟨_, _, rfl, hs, ht⟩)

theorem excess_append_right (h : '\r' ∉ s) : Excess (s ++ t) ↔ Excess t := by
  rw [excess_append_iff]
  have hs : ¬ Excess s := fun hs => h hs.mem
  have hone : ¬ ['\r'] <:+ s := fun hends => h (hends.subset (by simp))
  have htwo : ¬ ['\r', '\r'] <:+ s := fun hends => h (hends.subset (by simp))
  simp [hs, hone, htwo]

theorem getLast?_of_suffix (front : List Char) (h : front ++ ['\r'] <:+ s) : s.getLast? = some '\r' := by
  obtain ⟨start, rfl⟩ := h
  rw [← List.append_assoc]
  simp

/-- Behind a text that does not end in a carriage return an excess lies on one side. -/
theorem excess_append_left (h : s.getLast? ≠ some '\r') : Excess (s ++ t) ↔ Excess s ∨ Excess t := by
  have hone : ¬ ['\r'] <:+ s := fun hends => h (getLast?_of_suffix [] hends)
  have htwo : ¬ ['\r', '\r'] <:+ s := fun hends => h (getLast?_of_suffix ['\r'] hends)
  rw [excess_append_iff]
  simp [hone, htwo]

/-- What an indent puts between the lines does not come in between. -/
theorem prefix_indented_iff {word : List Char} (hword : '\n' ∉ word.dropLast) (indent s after : List Char) :
    word <+: (s.flatMap fun c => if c = '\n' then c :: indent else [c]) ++ after ↔ word <+: s ++ after := by
  induction word generalizing s with
  | nil => simp
  | cons w word ih =>
    cases s with
    | nil => rfl
    | cons c rest =>
      by_cases hc : c = '\n'
      · subst hc
        cases word with
        | nil => simp [List.cons_prefix_cons]
        | cons x word =>
          have hw : w ≠ '\n' := by
            rintro rfl
            simp at hword
          simp [List.cons_prefix_cons, hw]
      · have hword' : '\n' ∉ word.dropLast := by
          cases word with
          | nil => simp
          | cons x word => exact fun h => hword (by simp [h])
        simp [hc, List.cons_prefix_cons, ih hword' rest]

theorem excess_indented_iff {indent : List Char} (hindent : '\r' ∉ indent) (s after : List Char) :
    Excess ((s.flatMap fun c => if c = '\n' then c :: indent else [c]) ++ after) ↔ Excess (s ++ after) := by
  induction s with
  | nil => rfl
  | cons c rest ih =>
    by_cases hc : c = '\n'
    · subst hc
      have hfeed : '\r' ∉ '\n' :: indent := by simp [hindent]
      have hleft := excess_append_right (t := (rest.flatMap fun c => if c = '\n' then c :: indent else [c]) ++ after)
        hfeed
      have hright := excess_append_right (s := ['\n']) (t := rest ++ after) (by simp)
      simp only [List.flatMap_cons, if_true, List.cons_append, List.append_assoc, List.nil_append] at hleft hright ⊢
      rw [hleft, hright, ih]
    · have hstarts := @prefix_indented_iff ['\r', '\r', '\n'] (by simp) indent (c :: rest) after
      simp only [List.flatMap_cons, if_neg hc, List.cons_append, List.nil_append] at hstarts ⊢
      unfold Excess at ih ⊢
      rw [List.infix_cons_iff, List.infix_cons_iff, hstarts, ih]

end Chars

/-! ## What is read from files -/

namespace FileSystem

theorem not_mem_lineFeeds (s : List Char) : '\r' ∉ lineFeeds s := by
  fun_induction lineFeeds s with
  | case1 rest ih => simp [ih]
  | case2 rest _ ih => simp [ih]
  | case3 c rest _ hc ih =>
    rw [List.mem_cons, not_or]
    exact ⟨fun h => hc h.symm, ih⟩
  | case4 => simp

/-- Every line end of a file is read as a line feed. -/
theorem not_mem_of_read {fs : FileSystem} {p : Path} {text : String} (h : fs.read p = .ok text) : '\r' ∉ text.toList := by
  unfold read at h
  repeat' split at h
  all_goals cases h
  rw [String.toList_ofList]
  exact not_mem_lineFeeds _

end FileSystem

/-- A template has no carriage return, wherever it comes from. -/
theorem Wrapper.not_mem_of_load {fs : FileSystem} {home : Option Path} {name template : String}
    (h : load fs home name = .ok template) : '\r' ∉ template.toList := by
  have hcustom : ∀ {template}, loadCustom fs home name = .ok template → '\r' ∉ template.toList := by
    intro template h
    unfold loadCustom at h
    dsimp only at h
    split at h
    · cases h
    · split at h <;> cases h
      exact FileSystem.not_mem_of_read ‹_›
  unfold load at h
  split at h
  · cases h
  · split at h <;> cases h
    exact FileSystem.not_mem_of_read ‹_›
  · exact hcustom h

/-! ## Wrapped texts -/

namespace WrapSettings

open Chars

/-- A carriage return too many comes into the result, with the comment or with the text and what stands behind its place
in the template. -/
inductive HasExcess (options : WrapSettings) (template text : List Char) : Prop
  | comment {lint : String} : options.lint = some lint → Excess lint.toList → HasExcess options template text
  | text {named before after : List Char} :
    Replaced "$DEPENDENCY".toList (Json.literal options.dependencyName).toList template named →
    FirstAt "$OUTPUT;".toList named before after → Excess (text ++ after) → HasExcess options template text

theorem getLast?_comment (options : WrapSettings) : options.comment.getLast? ≠ some '\r' := by
  have hgiven := given_comment_iff.2 (rfl : options.comment = _)
  generalize options.comment = comment at hgiven ⊢
  cases hgiven with
  | own _ _ =>
    rw [commentOf, List.getLast?_append]
    simp
  | other _ => simp

/-- The marks around the comment add no excess. -/
theorem excess_comment_iff (options : WrapSettings) :
    Excess options.comment ↔ ∃ lint, options.lint = some lint ∧ Excess lint.toList := by
  have hgiven := given_comment_iff.2 (rfl : options.comment = _)
  generalize options.comment = comment at hgiven ⊢
  cases hgiven with
  | @own lint hlint _ =>
    have hend : ¬ Excess "*/\n".toList ∧ ¬ ['\r', '\n'] <+: "*/\n".toList ∧ ¬ ['\n'] <+: "*/\n".toList := by decide
    rw [commentOf, List.append_assoc, excess_append_right (by decide), excess_append_iff, hlint]
    simp only [hend, and_false, or_false, Option.some.injEq, exists_eq_left']
  | other hnone =>
    refine iff_of_false (by decide) ?_
    rintro ⟨lint, hlint, hexcess⟩
    rcases hnone with hnone | hempty
    · cases hnone.symm.trans hlint
    · cases hempty.symm.trans hlint
      exact absurd hexcess (by decide)

variable {options : WrapSettings} {template text : List Char}

/-- The name of a dependency brings no carriage return into a template. -/
theorem not_mem_named {named : List Char} (htemplate : '\r' ∉ template)
    (h : Replaced "$DEPENDENCY".toList (Json.literal options.dependencyName).toList template named) : '\r' ∉ named := by
  have hdependency : "$DEPENDENCY".toList = '$' :: "DEPENDENCY".toList := rfl
  rw [hdependency, replaced_iff (by decide)] at h
  intro hmem
  rcases mem_of_mem_replace (h ▸ hmem) with hmem | hmem
  · exact absurd (Json.isShown_of_mem_literal hmem) (by decide)
  · exact htemplate hmem

/-- What is filled in has an excess iff the text has, with what stands behind its place. -/
theorem excess_spliced_iff {named filled : List Char} (hnamed : '\r' ∉ named)
    (h : Spliced "$OUTPUT;".toList text named filled) :
    Excess filled ↔ ∃ before after, FirstAt "$OUTPUT;".toList named before after ∧ Excess (text ++ after) := by
  have hne : "$OUTPUT;".toList ≠ [] := by decide
  cases h with
  | absent habsent =>
    refine iff_of_false (fun hexcess => hnamed hexcess.mem) ?_
    rintro ⟨before, after, hfirst, -⟩
    exact habsent ⟨before, after, hfirst.eq.symm⟩
  | @present before after k hfirst _ =>
    have hbefore : '\r' ∉ before ++ List.replicate k ' ' := by
      intro hmem
      refine hnamed ?_
      rw [hfirst.eq, List.append_assoc]
      exact List.mem_append_left _ hmem
    rw [List.mem_append, not_or] at hbefore
    rw [← indentLines_eq, indentLines, List.append_assoc, excess_append_right hbefore.1, List.append_assoc,
      excess_append_right hbefore.2, excess_indented_iff hbefore.2]
    constructor
    · exact fun hexcess => ⟨_, after, hfirst, hexcess⟩
    · rintro ⟨front, behind, hother, hexcess⟩
      -- the first place of the word is unique
      have hsame := ((cutAt?_eq_some_iff hne).2 hother).symm.trans ((cutAt?_eq_some_iff hne).2 hfirst)
      cases hsame
      exact hexcess

/-- **Line ends of wrapped texts** are normal iff no excess of carriage returns comes into them. -/
theorem wrap_normal_iff {fs : FileSystem} {home : Option Path} {template : String}
    (hload : Wrapper.load fs home options.wrapper = .ok template) (text : String) :
    ∃ result, options.wrap fs home text = .ok result ∧
      (¬ "\r\n".toList <:+: result.toList ↔ ¬ options.HasExcess template.toList text.toList) := by
  refine ⟨options.fill template text, by rw [wrap, hload]; rfl, not_congr ?_⟩
  have hpair : "\r\n".toList = ['\r', '\n'] := rfl
  obtain ⟨name, comment, named, filled, hname, hcomment, hnamed, hspliced, hresult⟩ :=
    wrapped_iff.2 (rfl : options.fill template text = _)
  obtain rfl := given_dependency_iff.1 hname
  obtain rfl := given_comment_iff.1 hcomment
  have hreturn := not_mem_named (Wrapper.not_mem_of_load hload) hnamed
  rw [hpair, replaced_iff (by decide)] at hresult
  rw [hpair, hresult, show "\n".toList = ['\n'] from rfl, ← joinLineEnds_eq_replace, pair_infix_joinLineEnds_iff]
  change Excess _ ↔ _
  rw [excess_append_left options.getLast?_comment, excess_comment_iff, excess_spliced_iff hreturn hspliced]
  constructor
  · rintro (⟨lint, hlint, hexcess⟩ | ⟨before, after, hfirst, hexcess⟩)
    · exact .comment hlint hexcess
    · exact .text hnamed hfirst hexcess
  · rintro (⟨hlint, hexcess⟩ | ⟨hother, hfirst, hexcess⟩)
    · exact .inl ⟨_, hlint, hexcess⟩
    · have hdependency : "$DEPENDENCY".toList = '$' :: "DEPENDENCY".toList := rfl
      rw [hdependency, replaced_iff (by decide)] at hnamed hother
      exact .inr ⟨_, _, (hother.trans hnamed.symm) ▸ hfirst, hexcess⟩

/-- A directory with a template that is nothing but the place of the text. -/
def plainFiles : FileSystem :=
  { home := [], program := ["opt"], limit := none, entries := [(["plain.tmpl"], .file (some "$OUTPUT;"))] }

/-- The settings that name it, without a comment. -/
def plain : WrapSettings := ⟨"plain.tmpl", none, some ""⟩

theorem wrap_normal_plain : Wrapper.load plainFiles none plain.wrapper = .ok "$OUTPUT;" ∧
    ∃ result, plain.wrap plainFiles none "a\r\nb" = .ok result ∧ ¬ "\r\n".toList <:+: result.toList := by
  have hload : Wrapper.load plainFiles none plain.wrapper = .ok "$OUTPUT;" := by decide +kernel
  obtain ⟨result, hresult, hnormal⟩ := wrap_normal_iff hload "a\r\nb"
  refine ⟨hload, result, hresult, hnormal.2 ?_⟩
  rintro (⟨hlint, hexcess⟩ | ⟨hnamed, hfirst, hexcess⟩)
  · cases hlint
    exact absurd hexcess (by decide)
  · have hreturn := not_mem_named (Wrapper.not_mem_of_load hload) hnamed
    rw [hfirst.eq] at hreturn
    rw [excess_append_left (by decide)] at hexcess
    rcases hexcess with hexcess | hexcess
    · exact absurd hexcess (by decide)
    · exact hreturn (List.mem_append_right _ hexcess.mem)

/-- One pass leaves a line end of two characters where a carriage return stands in front of one. -/
theorem wrap_doubled_return : ∃ result, plain.wrap plainFiles none "a\r\r\nb" = .ok result ∧
    "\r\n".toList <:+: result.toList :=
  ⟨"a\r\nb", by decide +kernel, by decide⟩

end WrapSettings

end SchemaClosure
