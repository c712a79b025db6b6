import Mathlib.Data.List.SplitBy
import SchemaClosure.Proofs.Json.Words
import SchemaClosure.Proofs.Schema.Declaration
import SchemaClosure.Proofs.Text.CodePoint
import SchemaClosure.Proofs.Text.Replacing
import SchemaClosure.Schema.Format

/-!
# Documents in ASCII

Both formats escape what is not ASCII: in JSON every text is a literal (`Json.ascii_literal`), and in YAML a text with
such a character stands between double quotes, where it is escaped (`Yaml.Sheet.Ascii.scalar`). So the text of a schema
is always ASCII, and has octets (`Schema.ascii_dump`).
-/

namespace SchemaClosure

open Text (Ascii ascii_append ascii_chars_iff ascii_ofList)

/-! ## Numbers, days and octets -/

theorem Text.toNat_lt_of_isDigit {c : Char} (h : c.isDigit = true) : c.toNat < 0x80 := by
  simp only [Char.isDigit, Bool.and_eq_true, decide_eq_true_eq] at h
  exact Nat.lt_of_le_of_lt (UInt32.le_iff_toNat_le.1 h.2) (by decide)

theorem Text.ascii_toDigits (n : Nat) : ∀ c ∈ Nat.toDigits 10 n, c.toNat < 0x80 :=
  fun _ hc => toNat_lt_of_isDigit (Numeral.isDigit_of_mem_toDigits hc)

theorem Text.ascii_replicate {c : Char} (h : c.toNat < 0x80) (n : Nat) : ∀ x ∈ List.replicate n c, x.toNat < 0x80 :=
  fun _ hx => List.eq_of_mem_replicate hx ▸ h

theorem Text.ascii_replace {word new s : String} (hnew : Ascii new) (hs : Ascii s) : Ascii (replace word new s) := by
  refine ascii_ofList.2 fun c hc => ?_
  rcases Chars.mem_of_mem_replace hc with hc | hc
  · exact hnew c hc
  · exact hs c hc

theorem Text.ascii_digits (width n : Nat) : ∀ c ∈ digits 10 width n, c.toNat < 0x80 :=
  List.forall_mem_append.2 ⟨ascii_replicate (by decide) _, ascii_toDigits n⟩

theorem Text.ascii_decimal (width n : Nat) : Ascii (decimal width n) :=
  ascii_ofList.2 (ascii_digits width n)

theorem ascii_toString (n : Int) : Ascii (toString n) := by
  rw [Json.toString_int, ascii_ofList, Yaml.signed]
  split
  · exact List.forall_mem_cons.2 ⟨by decide, Text.ascii_toDigits _⟩
  · exact Text.ascii_toDigits _

theorem Date.ascii_text (d : Date) : Ascii d.text := by
  simp only [text, ascii_append, Text.ascii_decimal, true_and, and_true]
  decide

theorem Instant.ascii_text {between : String} (h : Ascii between) (t : Instant) : Ascii (t.text between) := by
  have hoffset : ∀ o, Ascii (offsetText o) := by
    intro o
    have hsign : Ascii (if o < 0 then "-" else "+") := by split <;> decide
    simp only [offsetText, ascii_append, Text.ascii_decimal, hsign, true_and, and_true]
    decide
  have hfraction : Ascii (if t.microsecond = 0 then "" else "." ++ Text.decimal 6 t.microsecond) := by
    split
    · decide
    · exact ascii_append.2 ⟨by decide, Text.ascii_decimal _ _⟩
  simp only [text, ascii_append, Date.ascii_text, Text.ascii_decimal, h, hfraction, true_and, and_true]
  refine ⟨by decide, ?_⟩
  cases t.offset with
  | none => decide
  | some o => exact hoffset o

namespace Binary64

theorem Decimal.ascii_text (least greatest : Int) (r : Decimal) : ∀ c ∈ r.text least greatest, c.toNat < 0x80 := by
  have hdigits := Text.ascii_toDigits r.digits
  unfold text
  dsimp only
  generalize Nat.toDigits 10 r.digits = digits at hdigits ⊢
  have htake : ∀ k, ∀ c ∈ digits.take k, c.toNat < 0x80 := fun k c hc => hdigits c (List.mem_of_mem_take hc)
  have hdrop : ∀ k, ∀ c ∈ digits.drop k, c.toNat < 0x80 := fun k c hc => hdigits c (List.mem_of_mem_drop hc)
  have hpoint : '.'.toNat < 0x80 := by decide
  split
  · have hsign : (if (digits.length : Int) + r.exponent - 1 < 0 then '-' else '+').toNat < 0x80 := by split <;> decide
    have htail : ∀ c ∈ if digits.length = 1 then [] else '.' :: digits.drop 1, c.toNat < 0x80 := by
      split
      · exact List.forall_mem_nil _
      · exact List.forall_mem_cons.2 ⟨hpoint, hdrop 1⟩
    exact List.forall_mem_append.2 ⟨List.forall_mem_append.2 ⟨List.forall_mem_append.2 ⟨htake 1, htail⟩,
      List.forall_mem_cons.2 ⟨by decide, List.forall_mem_singleton.2 hsign⟩⟩, Text.ascii_digits 2 _⟩
  · have hfront : ∀ c ∈ ['0', '.'], c.toNat < 0x80 := ascii_chars_iff.1 (by decide)
    have hback : ∀ c ∈ ['.', '0'], c.toNat < 0x80 := ascii_chars_iff.1 (by decide)
    have hzeros : ∀ n, ∀ c ∈ List.replicate n '0', c.toNat < 0x80 := Text.ascii_replicate (by decide)
    split
    · exact List.forall_mem_append.2 ⟨List.forall_mem_append.2 ⟨hfront, hzeros _⟩, hdigits⟩
    · split
      · exact List.forall_mem_append.2 ⟨List.forall_mem_append.2 ⟨hdigits, hzeros _⟩, hback⟩
      · exact List.forall_mem_append.2 ⟨htake _, List.forall_mem_cons.2 ⟨hpoint, hdrop _⟩⟩

/-- A number is spelled in ASCII if a nan and the infinities are. -/
theorem ascii_text (style : Spelling) (hnan : Ascii style.nan) (hinfinity : Ascii style.infinity)
    (hminus : Ascii style.minusInfinity) (x : Binary64) : Ascii (x.text style) := by
  cases x with
  | nan => exact hnan
  | infinite negative => cases negative <;> assumption
  | finite negative m e =>
    have hbody : ∀ c ∈ if m = 0 then ['0', '.', '0'] else (shortest m e).text style.leastPoint style.greatestPoint,
        c.toNat < 0x80 := by
      split
      · exact ascii_chars_iff.1 (by decide)
      · exact Decimal.ascii_text _ _ _
    rw [text, ascii_ofList]
    split
    · exact List.forall_mem_cons.2 ⟨by decide, hbody⟩
    · exact hbody

end Binary64

namespace Base64

theorem toNat_digit_lt (n : Nat) : (digit n).toNat < 0x80 := by
  have halphabet : ∀ c ∈ alphabet, c.toNat < 0x80 := ascii_chars_iff.1 (by decide)
  rw [digit]
  cases hc : alphabet[n % 64]? with
  | none => decide
  | some c => exact halphabet c (List.mem_of_getElem? hc)

theorem ascii_digits (octets : List UInt8) : ∀ c ∈ digits octets, c.toNat < 0x80 := by
  have hpad : '='.toNat < 0x80 := by decide
  induction octets using digits.induct with
  | case1 => exact List.forall_mem_nil _
  | case2 a => simp [digits, toNat_digit_lt]
  | case3 a b => simp [digits, toNat_digit_lt]
  | case4 a b c rest ih => simpa [digits, toNat_digit_lt] using ih

theorem ascii_inLines {s : List Char} (h : ∀ c ∈ s, c.toNat < 0x80) (room : Nat) :
    ∀ c ∈ inLines room s, c.toNat < 0x80 := by
  have hbreak : '\n'.toNat < 0x80 := by decide
  induction room, s using inLines.induct with
  | case1 => exact List.forall_mem_nil _
  | case2 room c => exact List.forall_mem_append.2 ⟨h, List.forall_mem_singleton.2 hbreak⟩
  | case3 room c rest hne hroom ih =>
    rw [List.forall_mem_cons] at h
    rw [inLines, if_pos hroom]
    · exact List.forall_mem_cons.2 ⟨h.1, List.forall_mem_cons.2 ⟨hbreak, ih h.2⟩⟩
    · exact hne
  | case4 room c rest hne hroom ih =>
    rw [List.forall_mem_cons] at h
    rw [inLines, if_neg hroom]
    · exact List.forall_mem_cons.2 ⟨h.1, ih h.2⟩
    · exact hne

theorem ascii_encode (octets : List UInt8) : Ascii (encode octets) :=
  ascii_ofList.2 (ascii_inLines (ascii_digits octets) 76)

end Base64

/-! ## JSON -/

namespace Json

theorem ascii_literal (s : String) : Ascii (literal s) := by
  intro c hc
  have hshown := isShown_of_mem_literal hc
  simp only [isShown, Bool.and_eq_true, decide_eq_true_eq] at hshown
  omega

theorem ascii_word? {s : Scalar} {w : String} (h : word? s = .ok w) : Ascii w := by
  have htext : ∀ x : Binary64, Ascii (x.text spelling) := Binary64.ascii_text _ (by decide) (by decide) (by decide)
  cases s with
  | null => cases h; decide
  | bool b => cases h; cases b <;> decide
  | int n =>
    rw [word?, Numeral.text?] at h
    split at h
    · cases h
      exact ascii_toString n
    · cases h
  | float x => cases h; exact htext x
  | nan _ => cases h; exact htext .nan
  | text s => cases h
  | bytes o => cases h
  | date m d => cases h
  | instant m t => cases h

theorem ascii_scalar? {s : Scalar} {w : String} (h : scalar? s = .ok w) : Ascii w := by
  rw [scalar?.eq_def] at h
  split at h
  · cases h
    exact ascii_literal _
  · exact ascii_word? h

theorem ascii_key? {s : Scalar} {w : String} (h : key? s = .ok w) : Ascii w := by
  rw [key?.eq_def] at h
  split at h
  · cases h
    exact ascii_literal _
  · obtain ⟨word, -, rfl⟩ := map_eq_ok_iff.1 h
    exact ascii_literal _

theorem ascii_enclose {openWith closeWith : String} (hopen : Ascii openWith) (hclose : Ascii closeWith) (depth : Nat)
    {items : List String} (h : ∀ item ∈ items, Ascii item) : Ascii (enclose openWith closeWith depth items) := by
  have hline : ∀ d, Ascii ("\n" ++ String.ofList (List.replicate (2 * d) ' ')) := fun d =>
    ascii_append.2 ⟨by decide, ascii_ofList.2 (Text.ascii_replicate (by decide) (2 * d))⟩
  cases items with
  | nil => exact ascii_append.2 ⟨hopen, hclose⟩
  | cons first rest =>
    rw [List.forall_mem_cons] at h
    have hrest : Ascii (String.join (rest.map fun item =>
        "," ++ ("\n" ++ String.ofList (List.replicate (2 * (depth + 1)) ' ')) ++ item)) := by
      intro c hc
      rw [String.toList_join, List.mem_flatMap] at hc
      obtain ⟨line, hmem, hc⟩ := hc
      obtain ⟨item, hitem, rfl⟩ := List.mem_map.1 hmem
      exact ascii_append.2 ⟨ascii_append.2 ⟨by decide, hline (depth + 1)⟩, h.2 item hitem⟩ c hc
    exact ascii_append.2 ⟨ascii_append.2 ⟨ascii_append.2 ⟨ascii_append.2 ⟨ascii_append.2 ⟨hopen, hline (depth + 1)⟩,
      h.1⟩, hrest⟩, hline depth⟩, hclose⟩

mutual

theorem ascii_renderAt? {depth : Nat} (v : Value) {text : String} (h : renderAt? depth v = .ok text) : Ascii text := by
  match v with
  | .scalar s => exact ascii_scalar? h
  | .list mark items =>
    obtain ⟨texts, htexts, rfl⟩ := map_eq_ok_iff.1 h
    exact ascii_enclose (by decide) (by decide) depth (ascii_renderItems? items htexts)
  | .mapping mark entries =>
    obtain ⟨texts, htexts, rfl⟩ := map_eq_ok_iff.1 h
    exact ascii_enclose (by decide) (by decide) depth (ascii_renderEntries? entries htexts)
  | .set mark elements => cases h
  | .knot mark body => exact ascii_renderAt? body h
  | .again mark => cases h

theorem ascii_renderItems? {depth : Nat} (items : List Value) {texts : List String}
    (h : renderItems? depth items = .ok texts) : ∀ text ∈ texts, Ascii text := by
  match items with
  | [] =>
    cases h
    exact List.forall_mem_nil _
  | v :: rest =>
    simp only [renderItems?, bind_eq_ok_iff] at h
    obtain ⟨first, hfirst, others, hothers, h⟩ := h
    cases h
    exact List.forall_mem_cons.2 ⟨ascii_renderAt? v hfirst, ascii_renderItems? rest hothers⟩

theorem ascii_renderEntries? {depth : Nat} (entries : List (Scalar × Value)) {texts : List String}
    (h : renderEntries? depth entries = .ok texts) : ∀ text ∈ texts, Ascii text := by
  match entries with
  | [] =>
    cases h
    exact List.forall_mem_nil _
  | (k, v) :: rest =>
    simp only [renderEntries?, bind_eq_ok_iff] at h
    obtain ⟨key, hkey, value, hvalue, others, hothers, h⟩ := h
    cases h
    have hentry : Ascii (key ++ ": " ++ value) :=
      ascii_append.2 ⟨ascii_append.2 ⟨ascii_key? hkey, by decide⟩, ascii_renderAt? v hvalue⟩
    exact List.forall_mem_cons.2 ⟨hentry, ascii_renderEntries? rest hothers⟩

end

end Json

/-! ## YAML -/

namespace Yaml

namespace Spelled

theorem toNat_lt_of_isSimple {c : Char} (h : Style.isSimple c = true) : c.toNat < 0x80 := by
  simp only [Style.isSimple, Bool.or_eq_true, Bool.and_eq_true, decide_eq_true_eq] at h
  rcases h with rfl | h
  · decide
  · omega

/-- A text that is not written between double quotes is ASCII. -/
theorem ascii_of_style (s : String) (h : Style.ofText s ≠ .double) : Ascii s := by
  have hsimple : s.toList.all Style.isSimple = true := by
    rw [Style.ofText] at h
    split at h
    · rename_i hplain
      simp only [Style.allowsPlain, Bool.and_eq_true] at hplain
      tauto
    · split at h
      · rename_i hsingle
        rw [Style.allowsSingle, Bool.and_eq_true] at hsingle
        exact hsingle.1
      · exact absurd rfl h
  exact fun c hc => toNat_lt_of_isSimple (List.all_eq_true.1 hsimple c hc)

/-- What stands without escapes is ASCII. -/
theorem ascii_text (x : Scalar) (h : (of x).style ≠ .double) : Ascii (of x).text := by
  have hfloat : ∀ x : Binary64, Ascii (floatText x) := by
    intro x
    have htext := Binary64.ascii_text ⟨".nan", ".inf", "-.inf", -3, 16⟩ (by decide) (by decide) (by decide) x
    rw [floatText]
    split
    · exact htext
    · exact Text.ascii_replace (by decide) htext
  cases x with
  | null => decide
  | bool b => cases b <;> decide
  | int n => exact ascii_toString n
  | float x => exact hfloat x
  | nan _ => exact hfloat .nan
  | text s => exact ascii_of_style s h
  | bytes o => exact Base64.ascii_encode o
  | date m d => exact d.ascii_text
  | instant m t => exact t.ascii_text (by decide)

end Spelled

/-- What is written on the sheet is ASCII. -/
def Sheet.Ascii (s : Sheet) : Prop := Text.Ascii s.text

namespace Sheet

variable {s : Sheet} {word : String}

theorem Ascii.put (h : s.Ascii) (hword : Text.Ascii word) : (s.put word).Ascii := ascii_append.2 ⟨h, hword⟩

theorem Ascii.spacedMark (h : s.Ascii) (hword : Text.Ascii word) : (s.spacedMark word).Ascii := by
  refine h.put ?_
  split
  · exact hword
  · exact ascii_append.2 ⟨by decide, hword⟩

theorem Ascii.breakLine (h : s.Ascii) : s.breakLine.Ascii := ascii_append.2 ⟨h, by decide⟩

theorem Ascii.indentTo (h : s.Ascii) (indent : Nat) : (s.indentTo indent).Ascii := by
  have hspaces : ∀ n, Text.Ascii (Text.repeated n ' ') := fun n =>
    ascii_ofList.2 (Text.ascii_replicate (by decide) n)
  have hline :
      (if !s.fresh || indent < s.column || (s.column == indent && !s.spaced) then s.breakLine else s).Ascii := by
    split
    · exact h.breakLine
    · exact h
  unfold Sheet.indentTo
  extract_lets line
  split
  · exact ascii_append.2 ⟨hline, hspaces _⟩
  · exact hline

theorem Ascii.resume (h : s.Ascii) (indent : Nat) : (s.resume indent).Ascii := h.indentTo indent

/-! ### Scalars -/

theorem mem_of_mem_runs {chars run : List Char} (hrun : run ∈ runs chars) {c : Char} (hc : c ∈ run) : c ∈ chars := by
  have hflat : (runs chars).flatten = chars := List.flatten_splitBy _ _
  exact hflat ▸ List.mem_flatten.2 ⟨run, hrun, hc⟩

theorem Ascii.plain (h : s.Ascii) (indent : Nat) (folds : Bool) {text : String} (htext : Text.Ascii text) :
    (s.plain indent folds text).Ascii := by
  unfold Sheet.plain
  dsimp only
  refine List.foldlRecOn _ _ (h.spacedMark (by decide)) fun s hs run hrun => ?_
  split
  · exact hs.resume indent
  · exact hs.put (ascii_ofList.2 fun c hc => htext c (mem_of_mem_runs hrun hc))

theorem Ascii.singlePieces {indent : Nat} {folds : Bool} {pieces : List (List Char)} (h : s.Ascii) (first : Bool)
    (hpieces : ∀ run ∈ pieces, ∀ c ∈ run, c.toNat < 0x80) : (singlePieces indent folds first pieces s).Ascii := by
  induction pieces generalizing s first with
  | nil => exact h
  | cons run rest ih =>
    rw [List.forall_mem_cons] at hpieces
    rw [Sheet.singlePieces]
    refine ih ?_ false hpieces.2
    split
    · exact (List.foldlRecOn run _ h fun s hs _ _ => hs.breakLine).breakLine.indentTo indent
    · split
      · exact h.indentTo indent
      · exact h.put (Text.ascii_replace (by decide) (ascii_ofList.2 hpieces.1))

theorem ascii_hex (width n : Nat) : Text.Ascii (String.ofList ((Text.digits 16 width n).map Char.toUpper)) := by
  have hupper : ∀ d < 16, (Nat.digitChar d).toUpper.toNat < 0x80 := by decide
  refine ascii_ofList.2 fun x hx => ?_
  obtain ⟨y, hy, rfl⟩ := List.mem_map.1 hx
  rcases List.mem_append.1 hy with hy | hy
  · rw [List.eq_of_mem_replicate hy]
    decide
  · obtain ⟨d, hd, rfl⟩ := Json.digit_of_mem_toDigits hy
    exact hupper d hd

theorem ascii_escapeOf (n : Nat) : Text.Ascii (escapeOf n) := by
  have hletters : ∀ entry ∈ letterEscapes, entry.2.toNat < 0x80 := by decide
  unfold escapeOf
  cases hletter : letterEscapes.lookup n with
  | some letter =>
    obtain ⟨before, after, heq, -⟩ := List.lookup_eq_some_iff.1 hletter
    have hmem : (n, letter) ∈ letterEscapes := by
      rw [heq]
      exact List.mem_append_right before List.mem_cons_self
    exact ascii_ofList.2 (List.forall_mem_cons.2 ⟨by decide, List.forall_mem_singleton.2 (hletters _ hmem)⟩)
  | none =>
    dsimp only
    split
    · exact ascii_append.2 ⟨by decide, ascii_hex 2 n⟩
    · split
      · exact ascii_append.2 ⟨by decide, ascii_hex 4 n⟩
      · exact ascii_append.2 ⟨by decide, ascii_hex 8 n⟩

theorem Ascii.foldDouble (h : s.Ascii) (indent : Nat) (next : Option Char) : (s.foldDouble indent next).Ascii := by
  have hmark : Text.Ascii "\\" := by decide
  have hline := (h.put hmark).resume indent
  unfold Sheet.foldDouble
  dsimp only
  split
  · exact hline.put (by decide)
  · exact hline

theorem Ascii.doubleChars {indent : Nat} {folds first : Bool} {pending chars : List Char} (h : s.Ascii)
    (hpending : ∀ c ∈ pending, c.toNat < 0x80) : (doubleChars indent folds first pending chars s).Ascii := by
  have hflushed : ∀ {s : Sheet} {pending : List Char}, s.Ascii → (∀ c ∈ pending, c.toNat < 0x80) →
      (s.put (String.ofList pending.reverse)).Ascii := fun hs hp =>
    hs.put (ascii_ofList.2 fun c hc => hp c (List.mem_reverse.1 hc))
  induction chars generalizing s first pending with
  | nil => exact hflushed h hpending
  | cons c rest ih =>
    rw [Sheet.doubleChars]
    dsimp only
    split
    · refine ih ?_ (List.forall_mem_nil _)
      have hescape : Text.Ascii (escape c) := ascii_escapeOf _
      have hescaped := (hflushed h hpending).put hescape
      split
      · exact hescaped.foldDouble indent rest.head?
      · exact hescaped
    · rename_i hplain
      have hc : c.toNat < 0x80 := by
        simp only [isEscaped, Bool.or_eq_true, Bool.not_eq_true', Bool.and_eq_false_iff, decide_eq_true_eq,
          decide_eq_false_iff_not] at hplain
        omega
      split
      · exact ih ((hflushed h hpending).foldDouble indent (some c)) (List.forall_mem_singleton.2 hc)
      · exact ih h (List.forall_mem_cons.2 ⟨hc, hpending⟩)

theorem Ascii.literal (h : s.Ascii) (indent : Nat) {text : String} (htext : Text.Ascii text) :
    (s.literal indent text).Ascii := by
  unfold Sheet.literal
  refine List.foldlRecOn _ _ (h.spacedMark (by decide)).breakLine fun s hs line hline => ?_
  refine ((hs.indentTo indent).put fun c hc => ?_).breakLine
  obtain ⟨piece, hpiece, rfl⟩ := List.mem_map.1 ((List.dropLast_sublist _).subset hline)
  rw [String.toList_ofList] at hc
  exact htext c (Chars.mem_of_mem_split hpiece hc)

/-- A scalar is written in ASCII whatever its text. -/
theorem Ascii.scalar (h : s.Ascii) (indent : Nat) (folds : Bool) (x : Scalar) :
    (s.scalar indent folds (.of x)).Ascii := by
  have htag : (if (Spelled.of x).showsTag then s.spacedMark (Spelled.of x).tagName else s).Ascii := by
    split
    · rename_i htag
      refine h.spacedMark ?_
      rw [of_decide_eq_true htag]
      decide
    · exact h
  have htext := Spelled.ascii_text x
  unfold Sheet.scalar
  dsimp only
  split
  · rename_i hstyle
    exact htag.plain indent folds (htext (by simp [hstyle]))
  · rename_i hstyle
    refine ((htag.spacedMark (by decide)).singlePieces true fun run hrun c hc => ?_).put (by decide)
    exact htext (by simp [hstyle]) c (mem_of_mem_runs hrun hc)
  · exact ((htag.spacedMark (by decide)).doubleChars (List.forall_mem_nil _)).put (by decide)
  · rename_i hstyle
    exact htag.literal indent (htext (by simp [hstyle]))

theorem Ascii.entryMark (h : s.Ascii) (hword : Text.Ascii word) : (s.entryMark word).Ascii := h.spacedMark hword

end Sheet

/-! ### Values -/

namespace Page

variable {p : Page}

theorem ascii_anchorName (place : Nat) : Ascii (anchorName place) :=
  ascii_append.2 ⟨by decide, Text.ascii_decimal 3 _⟩

theorem ascii_shared (h : p.sheet.Ascii) (mark : Option Mark) {body : Page → Page}
    (hbody : ∀ q : Page, q.sheet.Ascii → (body q).sheet.Ascii) : (p.shared mark body).sheet.Ascii := by
  have hmarked : ∀ {sign : String} (place : Nat), Ascii sign → (p.sheet.spacedMark (sign ++ anchorName place)).Ascii :=
    fun place hsign => h.spacedMark (ascii_append.2 ⟨hsign, ascii_anchorName place⟩)
  unfold shared referenceOf
  cases mark with
  | none => exact hbody p h
  | some m =>
    by_cases hanchored : p.anchored.contains m
    · by_cases hwritten : p.written.contains m
      · simp only [hanchored, hwritten, if_true]
        exact hmarked _ (by decide)
      · simp only [hanchored, hwritten, if_true]
        exact hbody _ (hmarked _ (by decide))
    · simp only [hanchored]
      exact hbody p h

theorem ascii_scalar (h : p.sheet.Ascii) (indent : Nat) (folds : Bool) (x : Scalar) :
    (p.scalar indent folds x).sheet.Ascii :=
  ascii_shared h _ fun _ hq => hq.scalar indent folds x

theorem ascii_key (h : p.sheet.Ascii) (indent : Nat) (x : Scalar) : (p.key indent x).sheet.Ascii := by
  have hline := h.indentTo indent
  unfold key
  dsimp only
  split
  · exact (ascii_scalar (p := p.onSheet (·.indentTo indent)) hline _ _ x).put (by decide)
  · have hasked : (p.onSheet fun s => (s.indentTo indent).entryMark "?").sheet.Ascii := hline.entryMark (by decide)
    exact ((ascii_scalar hasked _ _ x).indentTo indent).entryMark (by decide)

mutual

theorem ascii_value {p : Page} (outer : Option Nat) (indent : Nat) (h : p.sheet.Ascii) (v : Value) :
    (p.value outer indent v).sheet.Ascii := by
  have hbrackets : ∀ {first last : String} {q : Page}, Ascii first → Ascii last → q.sheet.Ascii →
      (q.onSheet fun s => (s.spacedMark first).mark last).sheet.Ascii :=
    fun hfirst hlast hq => (hq.spacedMark hfirst).put hlast
  match v with
  | .scalar x => exact ascii_scalar h indent true x
  | .list mark items =>
    refine ascii_shared h mark fun q hq => ?_
    split
    · exact hbrackets (by decide) (by decide) hq
    · exact ascii_items _ hq items
  | .mapping mark entries =>
    refine ascii_shared h mark fun q hq => ?_
    split
    · exact hbrackets (by decide) (by decide) hq
    · exact ascii_entries _ hq entries
  | .set mark elements =>
    refine ascii_shared h mark fun q hq => ?_
    have htag : (q.onSheet (·.spacedMark "!!set")).sheet.Ascii := hq.spacedMark (by decide)
    dsimp only
    split
    · exact hbrackets (by decide) (by decide) htag
    · exact List.foldlRecOn (motive := fun p : Page => p.sheet.Ascii) elements _ htag fun p hp x _ =>
        ascii_scalar (ascii_key hp indent x) _ _ .null
  | .knot mark body => exact ascii_value outer indent h body
  | .again mark => exact ascii_shared h (some mark) fun _ hq => hq

theorem ascii_items {p : Page} (indent : Nat) (h : p.sheet.Ascii) (items : List Value) :
    (p.items indent items).sheet.Ascii := by
  match items with
  | [] => exact h
  | v :: rest =>
    have hitem : (p.onSheet fun s => (s.indentTo indent).entryMark "-").sheet.Ascii :=
      (h.indentTo indent).entryMark (by decide)
    exact ascii_items indent (ascii_value none (indent + 2) hitem v) rest

theorem ascii_entries {p : Page} (indent : Nat) (h : p.sheet.Ascii) (entries : List (Scalar × Value)) :
    (p.entries indent entries).sheet.Ascii := by
  match entries with
  | [] => exact h
  | (k, v) :: rest => exact ascii_entries indent (ascii_value (some indent) (indent + 2) (ascii_key h indent k) v) rest

end

end Page

theorem ascii_render (v : Value) : Ascii (render v) := by
  have hblank : Sheet.blank.Ascii := List.forall_mem_nil _
  exact (Page.ascii_value none 0 hblank v).indentTo 0

end Yaml

namespace Schema

variable {schema : Schema} {text : String}

theorem ascii_dumpAs? {f : Format} (h : schema.dumpAs? f = .ok text) : Ascii text := by
  cases f with
  | yaml =>
    rw [dumpAs?, Yaml.render?] at h
    split at h
    · cases h
      exact Yaml.ascii_render _
    · cases h
  | json =>
    obtain ⟨document, hdocument, rfl⟩ := map_eq_ok_iff.1 h
    exact ascii_append.2 ⟨Json.ascii_renderAt? _ hdocument, by decide⟩

/-- The text of a schema is ASCII in both formats. -/
theorem ascii_dump {format : String} (h : schema.dump format = .ok text) : Ascii text := by
  unfold dump at h
  split at h
  · cases h
  · rename_i f _
    cases hdocument : schema.dumpAs? f with
    | error reason =>
      rw [hdocument] at h
      cases h
    | ok document =>
      rw [hdocument] at h
      cases h
      exact ascii_dumpAs? hdocument

end Schema

end SchemaClosure
