import SchemaClosure.Number.Numeral
import SchemaClosure.Text.Pieces

/-!
# Tags

What kind of value a node denotes. A plain scalar without a tag takes it from the form of its text
(`Tag.ofPlain`): null, truth values, integers to several bases, decimal numbers, days and times, the
merge key and the value key are told from ordinary text.
-/

namespace SchemaClosure.Yaml

/-- The kind of value that a node denotes. -/
inductive Tag where
  | null
  | bool
  | int
  | float
  | str
  | binary
  | timestamp
  | list
  | map
  | set
  | orderedMap
  | pairs
  | merge
  | value
  | other
  deriving DecidableEq, Repr

def standardStem : String := "tag:yaml.org,2002:"

namespace Tag

def ofName (name : String) : Tag :=
  match name with
  | "tag:yaml.org,2002:null" => .null
  | "tag:yaml.org,2002:bool" => .bool
  | "tag:yaml.org,2002:int" => .int
  | "tag:yaml.org,2002:float" => .float
  | "tag:yaml.org,2002:str" => .str
  | "tag:yaml.org,2002:binary" => .binary
  | "tag:yaml.org,2002:timestamp" => .timestamp
  | "tag:yaml.org,2002:seq" => .list
  | "tag:yaml.org,2002:map" => .map
  | "tag:yaml.org,2002:set" => .set
  | "tag:yaml.org,2002:omap" => .orderedMap
  | "tag:yaml.org,2002:pairs" => .pairs
  | "tag:yaml.org,2002:merge" => .merge
  | "tag:yaml.org,2002:value" => .value
  | _ => .other

def truthWords : List (String × Bool) :=
  [("yes", true), ("no", false), ("true", true), ("false", false), ("on", true), ("off", false)]

/-- Whether a text is one of the words in small letters, with a capital, or in capitals. -/
def isWordOf (words : List String) (s : String) : Bool :=
  words.any fun w => s = w || s = w.capitalize || s = w.toUpper

end Tag

namespace Form

def isDigitOrLine (c : Char) : Bool := c.isDigit || c = '_'

/-- A non-empty text of characters with a property. -/
def someOf (p : Char → Bool) (s : List Char) : Bool := !s.isEmpty && s.all p

/-- The number behind a colon in a numeral to base 60: below 60, of one digit or two. -/
def isSixtieth : List Char → Bool
  | [a] => a.isDigit
  | [a, b] => '0' ≤ a && a ≤ '5' && b.isDigit
  | _ => false

/-- The form of an integer. -/
def isInt (s : List Char) : Bool :=
  match (Numeral.cutSign s).2 with
  | '0' :: rest =>
    rest.isEmpty
    || (match rest with
        | 'b' :: bits => someOf (fun c => c = '0' || c = '1' || c = '_') bits
        | 'x' :: digits =>
          someOf (fun c => isDigitOrLine c || ('a' ≤ c && c ≤ 'f') || ('A' ≤ c && c ≤ 'F')) digits
        | _ => someOf (fun c => ('0' ≤ c && c ≤ '7') || c = '_') rest)
  | c :: rest =>
    c.isDigit
    && (let digits := rest.dropWhile isDigitOrLine
        match digits with
        | [] => true
        | ':' :: more => (Chars.split ':' more).all isSixtieth
        | _ => false)
  | [] => false

/-- The form of an exponent, if there is one. -/
def isExponent : List Char → Bool
  | [] => true
  | e :: sign :: digits =>
    (e = 'e' || e = 'E') && (sign = '-' || sign = '+') && someOf Char.isDigit digits
  | _ => false

/-- The form of a decimal number, of infinity or of a nan. -/
def isFloat (s : List Char) : Bool :=
  let (_, unsigned) := Numeral.cutSign s
  let named (words : List String) (s : List Char) := words.any fun w => w.toList = s
  match unsigned with
  | '.' :: rest =>
    named ["inf", "Inf", "INF"] rest
    || (unsigned = s && named ["nan", "NaN", "NAN"] rest)
    || (unsigned = s && (rest.head?.any Char.isDigit) && isExponent (rest.dropWhile isDigitOrLine))
  | c :: rest =>
    c.isDigit
    && (match rest.dropWhile isDigitOrLine with
        | '.' :: part => isExponent (part.dropWhile isDigitOrLine)
        | ':' :: more =>
          match Chars.splitLast? '.' more with
          | some (sixtieths, part) =>
            (Chars.split ':' sixtieths).all isSixtieth && part.all isDigitOrLine
          | none => false
        | _ => false)
  | [] => false

/-- One or two digits and the rest. -/
def upToTwo : List Char → Option (List Char × List Char)
  | a :: b :: rest =>
    if a.isDigit then (if b.isDigit then some ([a, b], rest) else some ([a], b :: rest)) else none
  | [a] => if a.isDigit then some ([a], []) else none
  | [] => none

/-- Exactly `n` digits and the rest. -/
def digits? (n : Nat) (s : List Char) : Option (List Char × List Char) :=
  if (s.take n).length = n && (s.take n).all Char.isDigit then some (s.take n, s.drop n) else none

/-- The rest behind a character. -/
def behind? (c : Char) : List Char → Option (List Char)
  | x :: rest => if x = c then some rest else none
  | [] => none

/-- The digits of a time of day: hour, minute, second, and a fraction that may be empty. -/
structure ClockDigits where
  hour : List Char
  minute : List Char
  second : List Char
  fraction : List Char
  /-- The offset: none, zero by its letter, or a sign with hours and minutes. -/
  zone : Option (Option (Bool × List Char × List Char))

/-- The digits of a day, and of a time of day on it. -/
structure TimeDigits where
  year : List Char
  month : List Char
  day : List Char
  clock : Option ClockDigits

/-- The offset behind a time of day. -/
def zone? (s : List Char) : Option (Option (Option (Bool × List Char × List Char))) :=
  match s, s.dropWhile fun c => c = ' ' || c = '\t' with
  | [], _ => some none
  | _, ['Z'] => some (some none)
  | _, sign :: rest =>
    if sign = '-' || sign = '+' then do
      let (hours, rest) ← upToTwo rest
      match rest with
      | [] => some (some (some (sign = '-', hours, [])))
      | rest => do
        let (minutes, rest) ← digits? 2 (← behind? ':' rest)
        guard rest.isEmpty
        some (some (some (sign = '-', hours, minutes)))
    else none
  | _, [] => none

/-- The time of day behind a day. -/
def clock? (s : List Char) : Option ClockDigits := do
  let (hour, rest) ← upToTwo s
  let (minute, rest) ← digits? 2 (← behind? ':' rest)
  let (second, rest) ← digits? 2 (← behind? ':' rest)
  let (fraction, rest) :=
    match rest with
    | '.' :: rest => (rest.takeWhile Char.isDigit, rest.dropWhile Char.isDigit)
    | rest => ([], rest)
  let zone ← zone? rest
  return ⟨hour, minute, second, fraction, zone⟩

/-- A day, or a day and a time of day behind a `T` or white space. -/
def time? (s : List Char) : Option TimeDigits := do
  let (year, rest) ← digits? 4 s
  let (month, rest) ← upToTwo (← behind? '-' rest)
  let (day, rest) ← upToTwo (← behind? '-' rest)
  match rest with
  | [] => return ⟨year, month, day, none⟩
  | c :: after =>
    let rest :=
      if c = 'T' || c = 't' then some after
      else if c = ' ' || c = '\t' then some (after.dropWhile fun c => c = ' ' || c = '\t')
      else none
    let clock ← clock? (← rest)
    return ⟨year, month, day, some clock⟩

/-- The form of a day or time: a day alone has two digits for its month and two for its day. -/
def isTime (s : List Char) : Bool :=
  match time? s with
  | none => false
  | some t => t.clock.isSome || (t.month.length = 2 && t.day.length = 2)

/-- The marks of tags, anchors and references, which stand for no value by themselves. -/
def marks : List String := ["!", "&", "*"]

/-- The text without a line break at its end. -/
def dropBreak (s : List Char) : List Char :=
  match s.reverse with
  | '\n' :: rest => rest.reverse
  | _ => s

end Form

/-- The tag that a plain scalar takes from its text. -/
def Tag.ofPlain (text : String) : Tag :=
  let chars := Form.dropBreak text.toList
  let s := String.ofList chars
  if text = "" then .null
  else if s = "~" || isWordOf ["null"] s then .null
  else if isWordOf (truthWords.map (·.1)) s then .bool
  else if Form.isFloat chars then .float
  else if Form.isInt chars then .int
  else if s = "<<" then .merge
  else if s = "=" then .value
  else if Form.isTime chars then .timestamp
  else if Form.marks.contains s then .other
  else .str

end SchemaClosure.Yaml
