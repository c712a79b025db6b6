import SchemaClosure.Document.Fault
import SchemaClosure.Schema.Basic

/-!
# Listing a schema

A schema, namespace or type as indented text. Every node is a block: a title, the full name of what
holds it, and what belongs to its kind; an empty line ends the block and the blocks of what it
holds follow, indented by two more spaces. Titles and captions may carry terminal styles.
-/

namespace SchemaClosure

namespace Listing

/-- Text between the terminal code of a style and the code that ends all styles. -/
def style (code : String) (styled : Bool) (text : String) : String :=
  if styled then "\x1b[" ++ code ++ "m" ++ text ++ "\x1b[0m" else text

def bold (styled : Bool) (text : String) : String := style "1" styled text

def gray (styled : Bool) (text : String) : String := style "90" styled text

/-- What stands as the holder of a top-level namespace. -/
def rootLabel : String := "<root>"

def indent (depth : Nat) : String := Text.repeated (2 * depth) ' '

/-- What stands before the title at a depth. -/
def connector : Nat → String
  | 0 => ""
  | depth + 1 => indent depth ++ "└ "

/-- The lines of a block: the title, the holder, further captions with their text, an empty one. -/
def block (styled : Bool) (depth : Nat) (title holder : String) (more : List (String × String)) :
    List String :=
  (connector depth ++ bold styled title)
    :: (("parent: ", holder) :: more).map (fun (caption, text) =>
        indent depth ++ gray styled caption ++ text)
    ++ [""]

/-- The rule, the declared type and the number of a field. -/
def fieldType (f : Field) : String :=
  Text.join " " <| (f.rule.toList.filter (!·.isEmpty)) ++ [f.typeName]
    ++ f.id.toList.map fun n => "= " ++ toString n

def field (styled : Bool) (depth : Nat) (owner : String) (f : Field) : String :=
  Text.join "\n" <| block styled depth s!"Field {owner}.{f.name}" owner <|
    ("type  : ", fieldType f) :: f.resolved.toList.map fun key => ("target: ", key.text)

def type (styled : Bool) (depth : Nat) (holder : String) (t : TypeDecl) : String :=
  let kind := match t.kind with
    | .enum => "Enum"
    | .message => "Message"
  let values := match t.kind with
    | .enum => [("values: ", Text.join ", " (t.values.map fun (name, n) => s!"{name}={n}"))]
    | .message => []
  Text.join "\n" <| block styled depth s!"{kind} {t.fullName}" holder values
    ++ t.fields.map (field styled (depth + 1) t.fullName)

mutual

def node (styled : Bool) (depth : Nat) (holder : String) : Node → String
  | .type t => type styled depth holder t
  | .space _ fullName _ children =>
    Text.join "\n" <| block styled depth s!"Namespace {fullName}" holder []
      ++ nodes styled (depth + 1) fullName children

/-- Types and namespaces that the namespace `holder` names holds. -/
def nodes (styled : Bool) (depth : Nat) (holder : String) : List Node → List String
  | [] => []
  | child :: rest => node styled depth holder child :: nodes styled depth holder rest

end

/-- The full name of what holds the namespace of a full name. -/
def holderOf (fullName : String) : String :=
  match Text.cutLast? '.' fullName with
  | some (holder, _) => if holder.isEmpty then rootLabel else holder
  | none => rootLabel

end Listing

namespace Listing

/-- Whether every integer in the listing of a type has a text: the numbers of its fields, and those of its
values if it is an enum. -/
def typeIsWritable (t : TypeDecl) : Bool :=
  let values := match t.kind with
    | .enum => t.values.map (·.2)
    | .message => []
  (t.fields.filterMap (·.id) ++ values).all fun n => (Scalar.int n).isWritable

mutual

/-- Whether every integer in the listing of a type or namespace has a text. -/
def isWritable : Node → Bool
  | .type t => typeIsWritable t
  | .space _ _ _ children => areWritable children

/-- Whether every integer in the listings of some types and namespaces has a text. -/
def areWritable : List Node → Bool
  | [] => true
  | node :: rest => isWritable node && areWritable rest

end

/-- A listing whose integers all have a text. -/
def checked (writable : Bool) (listing : String) : Except Unwritable String :=
  if writable then .ok listing else .error .numberTooLong

end Listing

def TypeDecl.listing (styled : Bool) (t : TypeDecl) : String :=
  Listing.type styled 0 t.owner t

/-- The listing of a type whose integers all have a text. -/
def TypeDecl.listing? (styled : Bool) (t : TypeDecl) : Except Unwritable String :=
  Listing.checked (Listing.typeIsWritable t) (t.listing styled)

def Namespace.listing (styled : Bool) (ns : Namespace) : String :=
  Listing.node styled 0 (Listing.holderOf ns.fullName) ns.toNode

/-- The listing of a namespace whose integers all have a text. -/
def Namespace.listing? (styled : Bool) (ns : Namespace) : Except Unwritable String :=
  Listing.checked (Listing.areWritable ns.children) (ns.listing styled)

def Schema.listing (styled : Bool) (schema : Schema) : String :=
  Text.join "\n" <| Listing.block styled 0 "Root" "-" []
    ++ Listing.nodes styled 1 Listing.rootLabel (schema.namespaces.map Namespace.toNode)

/-- The listing of a schema whose integers all have a text. -/
def Schema.listing? (styled : Bool) (schema : Schema) : Except Unwritable String :=
  let nodes := schema.namespaces.map Namespace.toNode
  Listing.checked (Listing.areWritable nodes) (schema.listing styled)

end SchemaClosure
