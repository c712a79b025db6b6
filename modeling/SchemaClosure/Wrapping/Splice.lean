import SchemaClosure.Json.Text
import SchemaClosure.Wrapping.Template

/-!
# Splicing text into a template

The name of the dependency replaces its placeholder everywhere as a string literal; the text replaces
the first placeholder for it, every line indented like the placeholder. A comment for checkers may
stand in front, and the lines of the result end in line feeds.
-/

namespace SchemaClosure

namespace Chars

/-- The text with `indent` before every line; a line feed at the end starts a line, too. -/
def indentLines (indent : List Char) (s : List Char) : List Char :=
  indent ++ s.flatMap fun c => if c = '\n' then c :: indent else [c]

/-- Line feeds in place of pairs of a carriage return and a line feed. -/
def joinLineEnds : List Char → List Char
  | '\r' :: '\n' :: rest => '\n' :: joinLineEnds rest
  | c :: rest => c :: joinLineEnds rest
  | [] => []

/-- Replaces the first occurrence of `word` by `text`, every line of it behind as many spaces as stand
in front of `word`, which go with it. -/
def splice (word text template : List Char) : List Char :=
  match cutAt? word template with
  | none => template
  | some (before, after) =>
    let spaces := before.reverse.takeWhile (· = ' ')
    let rest := (before.reverse.dropWhile (· = ' ')).reverse
    rest ++ indentLines spaces text ++ after

end Chars

/-- How a text is wrapped. Where no dependency is given, or an empty one, the default is taken; without
a text for checkers there is no comment. -/
structure WrapSettings where
  wrapper : String
  dependency : Option String
  lint : Option String
  deriving DecidableEq, Repr

namespace WrapSettings

def defaultDependency : String := "protobufjs"

def defaultLint : String :=
  "eslint-disable block-scoped-var, id-length, no-control-regex, no-magic-numbers, "
    ++ "no-prototype-builtins, no-redeclare, no-shadow, no-var, sort-vars"

def standard : WrapSettings := ⟨Wrapper.defaultName, none, some defaultLint⟩

def dependencyName (options : WrapSettings) : String :=
  (options.dependency.filter (· ≠ "")).getD defaultDependency

/-- The comment in front of the result. -/
def comment (options : WrapSettings) : List Char :=
  match options.lint.filter (· ≠ "") with
  | none => []
  | some lint => "/*".toList ++ lint.toList ++ "*/\n".toList

/-- A text spliced into a template. -/
def fill (options : WrapSettings) (template text : String) : String :=
  let literal := (Json.literal options.dependencyName).toList
  let template := Chars.replace "$DEPENDENCY".toList literal template.toList
  String.ofList <| Chars.joinLineEnds <|
    options.comment ++ Chars.splice "$OUTPUT;".toList text.toList template

/-- A text spliced into the template that the options name. -/
def wrap (options : WrapSettings) (fs : FileSystem) (home : Option Path) (text : String) :
    Except Wrapper.Error String :=
  (Wrapper.load fs home options.wrapper).map fun template => options.fill template text

end WrapSettings

end SchemaClosure
