import Mathlib.Data.List.DropRight
import SchemaClosure.Proofs.Json.Tree
import SchemaClosure.Proofs.Yaml.Quoted
import SchemaClosure.Proofs.Yaml.Words
import SchemaClosure.Yaml.Token.Lexer

/-!
# Tokens of a JSON text

Between brackets the lexer reads a JSON text token by token. Its state there (`Lexer.Inside`) says which tokens were
read and which text is left, up to blanks in front; each kind of token leads (`Lexer.Leads`) from one such state to the
next: brackets, commas, literals, keys with their colons (`Inside.leads_key`) and words. A literal of more than 1024
characters cannot be a key.
-/

namespace SchemaClosure.Yaml

namespace Lexer

/-! ### Blanks -/

/-- The state `n` characters further on. -/
def passed (l : Lexer) (n : Nat) (allowed : Bool) : Lexer :=
  { l with cursor := l.cursor.skip n, keyAllowed := allowed }

theorem passed_passed (l : Lexer) (m n : Nat) (a b : Bool) : (l.passed m a).passed n b = l.passed (m + n) b := by
  simp [passed, Cursor.skip_skip]

/-- Behind the spaces something else stands, or nothing. -/
theorem passBlank_stop {l : Lexer} {left : List Char} (hleft : l.cursor.skipSpaces.rest = left)
    (hstop : ∀ y, left.head? = some y → y ≠ '#' ∧ isBreak y = false) (fuel : Nat) :
    passBlank (fuel + 1) l = l.moveTo l.cursor.skipSpaces := by
  have hcomment : l.cursor.skipSpaces.skipComment = l.cursor.skipSpaces := by
    rw [Cursor.skipComment, Cursor.peek, hleft, if_neg]
    exact fun hsharp => (hstop '#' hsharp).1 rfl
  have hbreak : l.cursor.skipSpaces.lineBreak? = none := by
    cases left with
    | nil => rw [Cursor.lineBreak?, hleft]
    | cons y after => exact Cursor.lineBreak?_eq_none hleft (hstop y rfl).2
  rw [passBlank, hcomment, hbreak]

/-- Behind the spaces the line ends. -/
theorem passBlank_newline {l : Lexer} {after : List Char} (hleft : l.cursor.skipSpaces.rest = '\n' :: after)
    (fuel : Nat) :
    passBlank (fuel + 1) l =
      passBlank fuel { l with cursor := l.cursor.skipSpaces.next, keyAllowed := l.keyAllowed || l.depth = 0 } := by
  have hcomment : l.cursor.skipSpaces.skipComment = l.cursor.skipSpaces := by
    rw [Cursor.skipComment, Cursor.peek, hleft]
    rfl
  rw [passBlank, hcomment, Cursor.lineBreak?_newline hleft]

/-- Blanks in front of the next character are passed: spaces first, then the end of the line and what follows. -/
theorem passBlank_eq (rest : List Char) (hrest : ∀ x, rest.head? = some x → x ≠ '#' ∧ isBreak x = false)
    {fuel : Nat} : ∀ {l : Lexer}, l.cursor.rest.dropWhile isBlank = rest → l.cursor.rest.length < fuel →
    ∃ allowed, (l.keyAllowed = true → allowed = true) ∧
      passBlank fuel l = l.passed (l.cursor.rest.takeWhile isBlank).length allowed := by
  induction fuel with
  | zero =>
    intro l _ hfuel
    exact absurd hfuel (Nat.not_lt_zero _)
  | succ fuel ih =>
    intro l hl hfuel
    have hcursor : l.cursor.skipSpaces = l.cursor.skip (l.cursor.rest.takeWhile (· = ' ')).length := rfl
    have hleft : l.cursor.skipSpaces.rest = l.cursor.rest.dropWhile (· = ' ') := Cursor.rest_skipWhile _ _
    have hhead := List.head?_dropWhile_not (· = ' ') l.cursor.rest
    have hlength := congrArg List.length (List.takeWhile_append_dropWhile (p := (· = ' ')) (l := l.cursor.rest))
    rw [dropWhile_isBlank] at hl
    rw [takeWhile_isBlank, List.length_append]
    rw [List.length_append] at hlength
    generalize l.cursor.rest.dropWhile (· = ' ') = left at *
    generalize (l.cursor.rest.takeWhile (· = ' ')).length = spaces at *
    by_cases hnewline : left.head? = some '\n'
    · obtain ⟨after, rfl⟩ := List.head?_eq_some_iff.1 hnewline
      have hnext : l.cursor.skipSpaces.next = l.cursor.skip (spaces + 1) := by
        rw [hcursor, Cursor.next_eq_skip, Cursor.skip_skip]
      have hafter : (l.passed (spaces + 1) (l.keyAllowed || l.depth = 0)).cursor.rest = after := by
        show (l.cursor.skip _).rest = after
        rw [← hnext, Cursor.rest_next, hleft]
        rfl
      obtain ⟨allowed, hallowed, hpass⟩ := ih (l := l.passed (spaces + 1) (l.keyAllowed || l.depth = 0))
        (by rw [hafter]; exact hl) (by rw [hafter]; rw [List.length_cons] at hlength; omega)
      refine ⟨allowed, fun h => hallowed (by simp [passed, h]), ?_⟩
      rw [passBlank_newline hleft, hnext]
      refine hpass.trans ?_
      rw [passed_passed, hafter, List.takeWhile_cons_of_pos rfl, List.length_cons]
      congr 1
      omega
    · have hblank : ∀ x, left.head? = some x → ¬isBlank x = true := by
        intro x hx
        rw [hx] at hhead hnewline
        rw [isBlank_iff, not_or]
        exact ⟨by simpa using hhead, fun hx => hnewline (congrArg some hx)⟩
      obtain ⟨hnone, hsame⟩ := blanks_eq_nil hblank
      rw [hnone, passBlank_stop hleft (by rwa [← hsame, hl]), hcursor]
      exact ⟨l.keyAllowed, id, rfl⟩

/-! ### States in brackets -/

/-- A state in brackets, in which no block collection is open. `text` is what is left, up to blanks in front. -/
structure Inside (l : Lexer) (d : Nat) (tokens : List Token) (text : List Char) : Prop where
  depth : l.depth = d
  indent : l.indent = -1
  indents : l.indents = []
  pushed : l.pushed = tokens
  count : l.count = tokens.length
  optional : ∀ k ∈ l.keyStarts, k.required = false
  text : l.cursor.rest.dropWhile isBlank = text.dropWhile isBlank

/-- The state at the next token. -/
def arrived (l : Lexer) (allowed : Bool) : Lexer :=
  let l := l.passed (l.cursor.rest.takeWhile isBlank).length allowed
  { l with keyStarts := l.keyStarts.filter (!l.isStale ·) }

theorem Inside.arrived {l : Lexer} {d : Nat} {tokens : List Token} {text : List Char}
    (h : l.Inside d tokens text) (allowed : Bool) : (l.arrived allowed).Inside d tokens text where
  depth := h.depth
  indent := h.indent
  indents := h.indents
  pushed := h.pushed
  count := h.count
  optional := fun k hk => h.optional k (List.mem_filter.1 hk).1
  text := by
    show ((l.cursor.skip _).rest).dropWhile isBlank = _
    rw [Cursor.rest_skip, Cursor.drop_length_takeWhile, ← h.text, List.dropWhile_idempotent]

theorem rest_arrived (l : Lexer) (allowed : Bool) :
    (l.arrived allowed).cursor.rest = l.cursor.rest.dropWhile isBlank := by
  show (l.cursor.skip _).rest = _
  rw [Cursor.rest_skip, Cursor.drop_length_takeWhile]

/-- Where no blank stands the next token does. -/
theorem cursor_arrived {l : Lexer} {x : Char} {rest : List Char} (hrest : l.cursor.rest = x :: rest)
    (hx : isBlank x = false) (allowed : Bool) : (l.arrived allowed).cursor = l.cursor := by
  have hnone : ¬isBlank x = true := by
    rw [hx]
    exact Bool.false_ne_true
  show l.cursor.skip (l.cursor.rest.takeWhile isBlank).length = l.cursor
  rw [hrest, List.takeWhile_cons_of_neg hnone]
  rfl

/-- The start of a key is kept unless it is stale. -/
theorem keyStarts_arrived {l : Lexer} {allowed : Bool} (hcursor : (l.arrived allowed).cursor = l.cursor)
    {k : KeyStart} {others : List KeyStart} (hstarts : l.keyStarts = k :: others) (hfresh : l.isStale k = false) :
    ∃ kept, (l.arrived allowed).keyStarts = k :: kept := by
  have hfresh' : (l.arrived allowed).isStale k = false := by rwa [isStale, hcursor]
  show ∃ kept, l.keyStarts.filter _ = k :: kept
  rw [hstarts]
  exact ⟨_, List.filter_cons_of_pos (by rw [Bool.not_eq_true']; exact hfresh')⟩

/-- The first character of a token: one that shows, and not that of a comment. -/
def startsToken (x : Char) : Bool := Json.isShown x && x ≠ ' ' && x ≠ '#'

/-- What is blank in front of the next token, or of the end, is passed. -/
theorem Inside.dropStale_toToken {l : Lexer} {d : Nat} {tokens : List Token} {text : List Char}
    (h : l.Inside d tokens text) (hnext : ∀ x, (text.dropWhile isBlank).head? = some x → startsToken x = true) :
    ∃ allowed, (l.keyAllowed = true → allowed = true) ∧ l.toToken.dropStale = .ok (l.arrived allowed) := by
  have hnext' : ∀ x, (text.dropWhile isBlank).head? = some x → x ≠ '#' ∧ Json.isShown x = true := by
    intro x hx
    have := hnext x hx
    simp only [startsToken, Bool.and_eq_true, decide_eq_true_eq] at this
    exact ⟨this.2, this.1.1⟩
  obtain ⟨allowed, hallowed, hpass⟩ := passBlank_eq (text.dropWhile isBlank)
    (fun x hx => (hnext' x hx).imp_right isBreak_of_isShown) h.text (Nat.lt_succ_self _)
  have hmark : l.cursor.peek ≠ some byteOrderMark := by
    intro hhead
    obtain ⟨after, hafter⟩ := List.head?_eq_some_iff.1 hhead
    have htext := h.text
    rw [hafter, List.dropWhile_cons_of_neg (by decide)] at htext
    exact absurd (hnext' byteOrderMark (by rw [← htext]; rfl)).2 (by decide)
  have htoken : l.toToken = l.passed (l.cursor.rest.takeWhile isBlank).length allowed := by
    rw [toToken, if_neg (by simp [hmark])]
    exact hpass
  refine ⟨allowed, hallowed, ?_⟩
  rw [dropStale, if_neg, htoken]
  · rfl
  · intro hany
    obtain ⟨k, hk, hstale⟩ := List.any_eq_true.1 hany
    rw [htoken] at hk
    rw [Bool.and_eq_true] at hstale
    exact Bool.false_ne_true ((h.optional k hk).symm.trans hstale.2)

theorem Inside.unwind_eq {l : Lexer} {d : Nat} {tokens : List Token} {text : List Char} (h : l.Inside d tokens text)
    (column : Int) : l.unwind column = l := by
  rw [unwind, h.indents, unwindTo]

/-- A step passes what is blank and reads a token. -/
theorem Inside.step_eq {l : Lexer} {d : Nat} {tokens : List Token} {text : List Char}
    (h : l.Inside d tokens text) {x : Char} {rest : List Char} (htext : text.dropWhile isBlank = x :: rest)
    (hx : startsToken x = true) :
    ∃ allowed, (l.keyAllowed = true → allowed = true) ∧
      l.step = ((l.arrived allowed).token x).map (·, false) := by
  obtain ⟨allowed, hallowed, hdrop⟩ := h.dropStale_toToken (by
    rw [htext]
    exact fun y hy => Option.some.inj hy ▸ hx)
  have hpeek : (l.arrived allowed).cursor.peek = some x := by
    rw [Cursor.peek, rest_arrived, h.text, htext]
    rfl
  refine ⟨allowed, hallowed, ?_⟩
  rw [step, hdrop]
  simp only [bind, Except.bind, (h.arrived allowed).unwind_eq, hpeek]
  cases (l.arrived allowed).token x <;> rfl

/-! ### Steps -/

/-- Reading goes on from the one state to the other, with characters to spare. -/
def Leads (l l' : Lexer) : Prop :=
  ∀ fuel, l.cursor.rest.length < fuel → ∃ fuel', l'.cursor.rest.length < fuel' ∧ run fuel l = run fuel' l'

theorem Leads.refl (l : Lexer) : l.Leads l := fun fuel h => ⟨fuel, h, rfl⟩

theorem Leads.trans {l l' l'' : Lexer} (h : l.Leads l') (h' : l'.Leads l'') : l.Leads l'' := by
  intro fuel hfuel
  obtain ⟨fuel', hfuel', hrun⟩ := h fuel hfuel
  obtain ⟨fuel'', hfuel'', hrun'⟩ := h' fuel' hfuel'
  exact ⟨fuel'', hfuel'', hrun.trans hrun'⟩

theorem Leads.of_step {l l' : Lexer} (h : l.step = .ok (l', false))
    (hlt : l'.cursor.rest.length < l.cursor.rest.length) : l.Leads l' := by
  intro fuel hfuel
  obtain ⟨fuel, rfl⟩ := Nat.exists_eq_succ_of_ne_zero (Nat.ne_zero_of_lt hfuel)
  exact ⟨fuel, by omega, by rw [run, h]⟩

/-- A step that reads a token from its first character on. -/
theorem Inside.leads {l : Lexer} {d : Nat} {tokens : List Token} {text : List Char}
    (h : l.Inside d tokens text) {x : Char} {rest : List Char} (htext : text.dropWhile isBlank = x :: rest)
    (hx : startsToken x = true) {P : Lexer → Prop}
    (hread : ∀ here : Lexer, here.Inside d tokens (x :: rest) → here.cursor.rest = x :: rest →
      (l.keyAllowed = true → here.keyAllowed = true) →
      ∃ l', here.token x = .ok l' ∧ l'.cursor.rest.length < (x :: rest).length ∧ P l') :
    ∃ l', l.Leads l' ∧ P l' := by
  obtain ⟨allowed, hallowed, hstep⟩ := h.step_eq htext hx
  have hrest : (l.arrived allowed).cursor.rest = x :: rest := by rw [rest_arrived, h.text, htext]
  have hinside := h.arrived allowed
  have hinside' : (l.arrived allowed).Inside d tokens (x :: rest) :=
    ⟨hinside.depth, hinside.indent, hinside.indents, hinside.pushed, hinside.count, hinside.optional, by rw [hrest]⟩
  obtain ⟨l', htoken, hlength, hP⟩ := hread _ hinside' hrest hallowed
  refine ⟨l', Leads.of_step (by rw [hstep, htoken]; rfl) (Nat.lt_of_lt_of_le hlength ?_), hP⟩
  rw [← htext, ← h.text]
  exact (List.dropWhile_sublist _).length_le

theorem Inside.dropKeyStart_eq {l : Lexer} {d : Nat} {tokens : List Token} {text : List Char}
    (h : l.Inside d tokens text) :
    l.dropKeyStart = .ok { l with keyStarts := l.keyStarts.filter (·.depth ≠ l.depth) } := by
  rw [dropKeyStart, if_neg]
  intro hany
  obtain ⟨k, hk, hrequired⟩ := List.any_eq_true.1 hany
  rw [Bool.and_eq_true] at hrequired
  exact Bool.false_ne_true ((h.optional k hk).symm.trans hrequired.2)

/-- The start of a key at the place. -/
def keyHere (l : Lexer) : KeyStart := ⟨l.count, l.depth, false, l.cursor.index, l.cursor.line, l.cursor.column⟩

/-- A key may have started here, unless none is allowed. -/
theorem Inside.markKeyStart_eq {l : Lexer} {d : Nat} {tokens : List Token} {text : List Char}
    (h : l.Inside d tokens text) :
    ∃ starts, l.markKeyStart = .ok { l with keyStarts := starts } ∧ (∀ k ∈ starts, k.required = false) ∧
      (l.keyAllowed = true → ∃ others, starts = l.keyHere :: others) := by
  by_cases hallowed : l.keyAllowed = true
  · have hrequired : (l.depth = 0 && l.indent = (l.cursor.column : Int)) = false := by
      rw [h.indent]
      simp
    refine ⟨l.keyHere :: l.keyStarts.filter (·.depth ≠ l.depth), ?_, ?_, fun _ => ⟨_, rfl⟩⟩
    · rw [markKeyStart, h.dropKeyStart_eq, if_neg (by simp [hallowed])]
      simp only [hrequired, bind, Except.bind]
      rfl
    · intro k hk
      rcases List.mem_cons.1 hk with rfl | hk
      · rfl
      · exact h.optional k (List.mem_filter.1 hk).1
  · refine ⟨l.keyStarts, ?_, h.optional, fun h => absurd h hallowed⟩
    rw [markKeyStart, if_pos (by simpa using hallowed)]
    rfl

/-- The state behind one more token. -/
theorem Inside.behind {l l' : Lexer} {d d' : Nat} {tokens : List Token} {text rest : List Char} {t : Token}
    (h : l.Inside d tokens text) (hdepth : l'.depth = d')
    (hsame : l'.indent = l.indent ∧ l'.indents = l.indents ∧ l'.pushed = t :: l.pushed ∧ l'.count = l.count + 1)
    (hoptional : ∀ k ∈ l'.keyStarts, k.required = false)
    (hrest : l'.cursor.rest.dropWhile isBlank = rest.dropWhile isBlank) : l'.Inside d' (t :: tokens) rest where
  depth := hdepth
  indent := hsame.1.trans h.indent
  indents := hsame.2.1.trans h.indents
  pushed := by rw [hsame.2.2.1, h.pushed]
  count := by rw [hsame.2.2.2, h.count, List.length_cons]
  optional := hoptional
  text := hrest

theorem rest_sign {l : Lexer} {x : Char} {rest : List Char} (h : l.cursor.rest = x :: rest) (t : Token) :
    (l.sign t 1).cursor.rest = rest := by
  show (l.cursor.skip 1).rest = rest
  rw [Cursor.rest_skip, h]
  rfl

/-- An opening bracket. -/
theorem Inside.leads_open {l : Lexer} {d : Nat} {tokens : List Token} {text : List Char} (h : l.Inside d tokens text)
    {x : Char} {t : Token} (hx : x = '[' ∧ t = .flowSequenceStart ∨ x = '\x7b' ∧ t = .flowMappingStart)
    {rest : List Char} (htext : text.dropWhile isBlank = x :: rest) :
    ∃ l', l.Leads l' ∧ l'.Inside (d + 1) (t :: tokens) rest ∧ l'.keyAllowed = true := by
  refine h.leads htext (by rcases hx with ⟨rfl, -⟩ | ⟨rfl, -⟩ <;> rfl) fun here hhere hrest _ => ?_
  have htoken : here.token x = here.openFlow t := by
    rcases hx with ⟨rfl, rfl⟩ | ⟨rfl, rfl⟩ <;> simp [token, Cursor.atDocumentMark, hrest]
  obtain ⟨starts, hmark, hoptional, -⟩ := hhere.markKeyStart_eq
  have hbehind := rest_sign hrest t
  rw [htoken, openFlow, hmark]
  exact ⟨_, rfl, hbehind.symm ▸ Nat.lt_succ_self _,
    hhere.behind (congrArg (· + 1) hhere.depth) ⟨rfl, rfl, rfl, rfl⟩ hoptional (congrArg _ hbehind), rfl⟩

/-- A closing bracket. -/
theorem Inside.leads_close {l : Lexer} {d : Nat} {tokens : List Token} {text : List Char}
    (h : l.Inside (d + 1) tokens text) {x : Char} {t : Token}
    (hx : x = ']' ∧ t = .flowSequenceEnd ∨ x = '\x7d' ∧ t = .flowMappingEnd)
    {rest : List Char} (htext : text.dropWhile isBlank = x :: rest) :
    ∃ l', l.Leads l' ∧ l'.Inside d (t :: tokens) rest := by
  refine h.leads htext (by rcases hx with ⟨rfl, -⟩ | ⟨rfl, -⟩ <;> rfl) fun here hhere hrest _ => ?_
  have htoken : here.token x = here.closeFlow t := by
    rcases hx with ⟨rfl, rfl⟩ | ⟨rfl, rfl⟩ <;> simp [token, Cursor.atDocumentMark, hrest]
  have hbehind := rest_sign hrest t
  rw [htoken, closeFlow, hhere.dropKeyStart_eq]
  exact ⟨_, rfl, hbehind.symm ▸ Nat.lt_succ_self _,
    hhere.behind (congrArg (· - 1) hhere.depth) ⟨rfl, rfl, rfl, rfl⟩
      (fun k hk => hhere.optional k (List.mem_filter.1 hk).1) (congrArg _ hbehind)⟩

/-- A comma. -/
theorem Inside.leads_comma {l : Lexer} {d : Nat} {tokens : List Token} {text : List Char}
    (h : l.Inside d tokens text) {rest : List Char} (htext : text.dropWhile isBlank = ',' :: rest) :
    ∃ l', l.Leads l' ∧ l'.Inside d (.flowEntry :: tokens) rest ∧ l'.keyAllowed = true := by
  refine h.leads htext rfl fun here hhere hrest _ => ?_
  have htoken : here.token ',' = here.flowEntry := by
    simp [token, Cursor.atDocumentMark, hrest]
  have hallowed : Inside { here with keyAllowed := true } d tokens (',' :: rest) :=
    ⟨hhere.depth, hhere.indent, hhere.indents, hhere.pushed, hhere.count, hhere.optional, hhere.text⟩
  have hbehind := rest_sign hrest .flowEntry
  rw [htoken, flowEntry, hallowed.dropKeyStart_eq]
  exact ⟨_, rfl, hbehind.symm ▸ Nat.lt_succ_self _,
    hhere.behind hhere.depth ⟨rfl, rfl, rfl, rfl⟩
      (fun k hk => hhere.optional k (List.mem_filter.1 hk).1) (congrArg _ hbehind), rfl⟩

theorem exists_literal_cons (s : String) (rest : List Char) :
    ∃ more, (Json.literal s).toList ++ rest = '"' :: more := by
  rw [Json.literal, String.toList_ofList]
  exact ⟨_, rfl⟩

theorem atom_eq {l l' : Lexer} {read : Cursor → Except Fault (Token × Cursor)} {t : Token} {c : Cursor}
    (hmark : l.markKeyStart = .ok l') (hread : read l'.cursor = .ok (t, c)) :
    l.atom read = .ok { (l'.moveTo c).push t with keyAllowed := false } := by
  rw [atom, hmark]
  simp only [bind, Except.bind, hread]
  rfl

/-- A literal. The start of a key is remembered in front of it if one is allowed. -/
theorem Inside.token_literal {l : Lexer} {d : Nat} {tokens : List Token} {text : List Char}
    (h : l.Inside d tokens text) {s : String} {rest : List Char}
    (hrest : l.cursor.rest = (Json.literal s).toList ++ rest) :
    ∃ l', l.token '"' = .ok l' ∧ l'.cursor = l.cursor.skip (Json.literal s).toList.length ∧
      l'.Inside d (.scalar (Text.units s) false :: tokens) rest ∧
      (l.keyAllowed = true → ∃ others, l'.keyStarts = l.keyHere :: others) := by
  obtain ⟨more, hmore⟩ := exists_literal_cons s rest
  have htoken : l.token '"' = l.atom fun c => do
      let read ← Quoted.read true c
      return (.scalar read.1 false, read.2) := by
    rw [hmore] at hrest
    simp [token, Cursor.atDocumentMark, hrest]
  have hread := Quoted.read_literal hrest
  have hbehind : (l.cursor.skip (Json.literal s).toList.length).rest = rest := by
    rw [Cursor.rest_skip, hrest, List.drop_left]
  generalize (Json.literal s).toList.length = n at *
  obtain ⟨starts, hmark, hoptional, hhere⟩ := h.markKeyStart_eq
  exact ⟨_, htoken.trans (atom_eq hmark (by rw [hread]; rfl)), rfl,
    h.behind h.depth ⟨rfl, rfl, rfl, rfl⟩ hoptional (congrArg _ hbehind), hhere⟩

theorem length_literal_pos (s : String) : 0 < (Json.literal s).toList.length := by
  rw [Json.literal, String.toList_ofList]
  exact Nat.succ_pos _

theorem Inside.leads_literal {l : Lexer} {d : Nat} {tokens : List Token} {text : List Char}
    (h : l.Inside d tokens text) {s : String} {rest : List Char}
    (htext : text.dropWhile isBlank = (Json.literal s).toList ++ rest) :
    ∃ l', l.Leads l' ∧ l'.Inside d (.scalar (Text.units s) false :: tokens) rest := by
  obtain ⟨more, hmore⟩ := exists_literal_cons s rest
  refine h.leads (htext.trans hmore) rfl fun here hhere hrest _ => ?_
  rw [← hmore] at hrest
  obtain ⟨l', htoken, hcursor, hinside, -⟩ := hhere.token_literal hrest
  refine ⟨l', htoken, ?_, hinside⟩
  have := length_literal_pos s
  rw [hcursor, Cursor.rest_skip, hrest, List.drop_left, ← hmore, List.length_append]
  omega

theorem value_eq {l : Lexer} {k : KeyStart} (hflow : l.depth ≠ 0)
    (hfind : l.keyStarts.find? (·.depth = l.depth) = some k) :
    l.value = .ok { ({ l with keyStarts := l.keyStarts.filter (·.depth ≠ l.depth) }.insert k.token .key).sign .value 1
      with keyAllowed := false } := by
  have hflow' : ¬({ l with keyStarts := l.keyStarts.filter (·.depth ≠ l.depth) }.insert k.token .key).depth = 0 := hflow
  rw [value, hfind]
  dsimp only
  rw [if_neg hflow']
  rfl

/-- A colon right behind a token with which a key may have started: this is now known to be one. -/
theorem Inside.leads_colon {l : Lexer} {d : Nat} {t : Token} {tokens : List Token} {rest : List Char}
    (h : l.Inside (d + 1) (t :: tokens) (':' :: rest)) (hrest : l.cursor.rest = ':' :: rest) {k : KeyStart}
    {others : List KeyStart} (hstarts : l.keyStarts = k :: others) (hdepth : k.depth = d + 1)
    (hfresh : l.isStale k = false) (hnumber : k.token + 1 = l.count) :
    ∃ l', l.Leads l' ∧ l'.Inside (d + 1) (.value :: t :: .key :: tokens) rest := by
  have hcolon : (':' :: rest).dropWhile isBlank = ':' :: rest := rfl
  obtain ⟨allowed, -, hstep⟩ := h.step_eq hcolon rfl
  have hinside := h.arrived allowed
  have hcursor := cursor_arrived hrest rfl allowed
  obtain ⟨kept, hkept⟩ := keyStarts_arrived hcursor hstarts hfresh
  have hflow : (l.arrived allowed).depth ≠ 0 := by
    rw [hinside.depth]
    exact Nat.succ_ne_zero d
  have hfind : (l.arrived allowed).keyStarts.find? (·.depth = (l.arrived allowed).depth) = some k := by
    rw [hkept, hinside.depth]
    exact List.find?_cons_of_pos (decide_eq_true hdepth)
  have htoken : (l.arrived allowed).token ':' = (l.arrived allowed).value := by
    simp [token, Cursor.atDocumentMark, hcursor, hrest, hflow]
  have hleft : ((l.arrived allowed).cursor.skip 1).rest = rest := by
    rw [hcursor, Cursor.rest_skip, hrest]
    rfl
  have hbehind : (l.arrived allowed).count - k.token = 1 := by
    rw [hinside.count, ← h.count]
    omega
  rw [htoken, value_eq hflow hfind] at hstep
  refine ⟨_, Leads.of_step hstep ?_, hinside.depth, hinside.indent, hinside.indents, ?_, ?_, ?_, congrArg _ hleft⟩
  · show ((l.arrived allowed).cursor.skip 1).rest.length < _
    rw [hleft, hrest]
    exact Nat.lt_succ_self _
  · simp [sign, moveTo, push, insert, hbehind, hinside.pushed]
  · simp [sign, moveTo, push, insert, hinside.count]
  · exact fun k' hk' => hinside.optional k' (List.mem_filter.1 hk').1

/-- Behind a literal of at most 1024 characters a key may still have started in front of it. -/
theorem isStale_keyHere {here l : Lexer} {s : String} {rest : List Char}
    (hrest : here.cursor.rest = (Json.literal s).toList ++ rest) (hs : (Json.literal s).toList.length ≤ 1024)
    (hcursor : l.cursor = here.cursor.skip (Json.literal s).toList.length) : l.isStale here.keyHere = false := by
  have hindex : l.cursor.index = here.cursor.index + (Json.literal s).toList.length := by
    rw [hcursor, Cursor.index_skip]
    rw [hrest, List.length_append]
    exact Nat.le_add_right _ _
  have hline : l.cursor.line = here.cursor.line := by
    rw [hcursor, Cursor.line_skip]
    intro x hx
    rw [hrest, List.take_left] at hx
    exact isBreak_of_isShown (Json.isShown_of_mem_literal hx)
  have hnear : ¬1024 < l.cursor.index - here.cursor.index := by omega
  simp [isStale, keyHere, hline, hnear]

/-- A literal of at most 1024 characters with a colon behind it is a key, where one is allowed. -/
theorem Inside.leads_key {l : Lexer} {d : Nat} {tokens : List Token} {text : List Char}
    (h : l.Inside (d + 1) tokens text) (hallowed : l.keyAllowed = true) {s : String} {rest : List Char}
    (htext : text.dropWhile isBlank = (Json.literal s).toList ++ ':' :: rest)
    (hs : (Json.literal s).toList.length ≤ 1024) :
    ∃ l', l.Leads l' ∧ l'.Inside (d + 1) (.value :: .scalar (Text.units s) false :: .key :: tokens) rest := by
  obtain ⟨more, hmore⟩ := exists_literal_cons s (':' :: rest)
  have hfirst : ∃ l', l.Leads l' ∧ ∃ k others, l'.keyStarts = k :: others ∧ k.depth = d + 1 ∧ l'.isStale k = false ∧
      k.token + 1 = l'.count ∧ l'.cursor.rest = ':' :: rest ∧
      l'.Inside (d + 1) (.scalar (Text.units s) false :: tokens) (':' :: rest) := by
    refine h.leads (htext.trans hmore) rfl fun here hhere hrest hkey => ?_
    rw [← hmore] at hrest
    obtain ⟨l', htoken, hcursor, hinside, hstarts⟩ := hhere.token_literal hrest
    obtain ⟨others, hstarts⟩ := hstarts (hkey hallowed)
    have hleft : l'.cursor.rest = ':' :: rest := by
      rw [hcursor, Cursor.rest_skip, hrest, List.drop_left]
    refine ⟨l', htoken, ?_, here.keyHere, others, hstarts, hhere.depth, isStale_keyHere hrest hs hcursor, ?_, hleft,
      hinside⟩
    · have := length_literal_pos s
      rw [hleft, ← hmore, List.length_append]
      omega
    · rw [hinside.count, keyHere, hhere.count]
      rfl
  obtain ⟨l', hleads, k, others, hstarts, hdepth, hfresh, hnumber, hrest, hinside⟩ := hfirst
  obtain ⟨l'', hleads', hinside'⟩ := hinside.leads_colon hrest hstarts hdepth hfresh hnumber
  exact ⟨l'', hleads.trans hleads', hinside'⟩

/-- A word starts with a letter or digit, or with a minus sign in front of one. -/
theorem startsWord {w : List Char} (h : isWord w = true) :
    (∃ x more, w = x :: more ∧ x.isAlphanum = true) ∨ ∃ x more, w = '-' :: x :: more ∧ x.isAlphanum = true := by
  unfold isWord at h
  rw [Bool.and_eq_true] at h
  split at h
  · exact .inr ⟨_, _, rfl, h.2⟩
  · exact .inl ⟨_, _, rfl, h.2⟩
  · cases h.2

theorem isAlphanum_ne {x : Char} (hx : x.isAlphanum = true) {y : Char} (hy : y.isAlphanum = false) : x ≠ y := by
  rintro rfl
  exact Bool.false_ne_true (hy.symm.trans hx)

theorem isShown_of_isAlphanum {x : Char} (hx : x.isAlphanum = true) : Json.isShown x = true := by
  have hval : x.val.toNat = x.toNat := rfl
  unfold Char.isAlphanum Char.isAlpha Char.isUpper Char.isLower Char.isDigit at hx
  simp only [Bool.or_eq_true, Bool.and_eq_true, decide_eq_true_eq, ge_iff_le, UInt32.le_iff_toNat_le, hval] at hx
  simp only [Json.isShown, Bool.and_eq_true, decide_eq_true_eq]
  simp at hx
  omega

theorem startsToken_of_isWord {x : Char} {more : List Char} (h : isWord (x :: more) = true) : startsToken x = true := by
  rcases startsWord h with ⟨y, _, heq, hy⟩ | ⟨y, _, heq, -⟩
  · obtain ⟨rfl, -⟩ := List.cons.inj heq
    simp [startsToken, isShown_of_isAlphanum hy, isAlphanum_ne hy (y := ' ') rfl, isAlphanum_ne hy (y := '#') rfl]
  · obtain ⟨rfl, -⟩ := List.cons.inj heq
    rfl

/-- A word in brackets is read as a plain scalar. -/
theorem token_word {l : Lexer} {x : Char} {more rest : List Char} (hw : isWord (x :: more) = true)
    (hrest : l.cursor.rest = x :: more ++ rest) (hflow : l.depth ≠ 0) : l.token x = l.plain := by
  rcases startsWord hw with ⟨x', more', heq, hx⟩ | ⟨y, more', heq, hy⟩
  · obtain ⟨rfl, rfl⟩ := List.cons.inj heq
    have hne : ∀ {y : Char}, y.isAlphanum = false → x ≠ y := isAlphanum_ne hx
    have hends : endsMark (some x) = false := endsMark_of_isWordChar (by simp [isWordChar, hx])
    have hmark : l.cursor.atDocumentMark = false := by
      simp [Cursor.atDocumentMark, hrest, @hne '-' rfl, @hne '.' rfl]
    simp [token, startsPlain, hflow, hmark, hends, @hne '-' rfl, @hne '?' rfl, @hne ':' rfl, @hne ',' rfl,
      @hne '[' rfl, @hne ']' rfl, @hne '\x7b' rfl, @hne '\x7d' rfl, @hne '#' rfl, @hne '&' rfl, @hne '*' rfl,
      @hne '!' rfl, @hne '|' rfl, @hne '>' rfl, @hne '\'' rfl, @hne '"' rfl, @hne '%' rfl, @hne '@' rfl,
      @hne '\x60' rfl]
  · obtain ⟨rfl, rfl⟩ := List.cons.inj heq
    have hends : endsMark (some y) = false := endsMark_of_isWordChar (by simp [isWordChar, hy])
    have hminus : y ≠ '-' := isAlphanum_ne hy rfl
    have hmark : l.cursor.atDocumentMark = false := by
      simp [Cursor.atDocumentMark, hrest, hminus]
    simp [token, startsPlain, Cursor.peekAt, hrest, hflow, hmark, hends]

/-- A word. -/
theorem Inside.leads_word {l : Lexer} {d : Nat} {tokens : List Token} {text : List Char}
    (h : l.Inside (d + 1) tokens text) {w rest : List Char} (htext : text.dropWhile isBlank = w ++ rest)
    (hw : isWord w = true) (hrest : Ends rest) :
    ∃ l', l.Leads l' ∧ l'.Inside (d + 1) (.scalar (String.ofList w) true :: tokens) rest := by
  obtain ⟨-, x, more, rfl⟩ := isWord_cons hw
  refine h.leads htext (startsToken_of_isWord hw) fun here hhere hplace _ => ?_
  have hflow : here.depth ≠ 0 := by
    rw [hhere.depth]
    exact Nat.succ_ne_zero d
  obtain ⟨starts, hmark, hoptional, -⟩ := hhere.markKeyStart_eq
  obtain ⟨broken, c', hread, hc'⟩ := Plain.read_word hplace hw hrest (here.indent + 1)
  refine ⟨{ (here.moveTo c').push (.scalar (String.ofList (x :: more)) true) with
    keyStarts := starts, keyAllowed := broken }, ?_, ?_, ?_⟩
  · rw [token_word hw hplace hflow, plain, hmark]
    simp only [bind, Except.bind, decide_eq_true hflow, hread]
    rfl
  · show c'.rest.length < (x :: (more ++ rest)).length
    have := (List.dropWhile_sublist isBlank (l := rest)).length_le
    rw [hc', List.length_cons, List.length_append]
    omega
  · refine hhere.behind hhere.depth ⟨rfl, rfl, rfl, rfl⟩ hoptional ?_
    show c'.rest.dropWhile isBlank = _
    rw [hc', List.dropWhile_idempotent]

end Lexer
end SchemaClosure.Yaml
