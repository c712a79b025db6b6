/-!
# Base 64

Octets as text of 64 characters, six bits each. The text is written in lines of 76 characters, each
with a line break behind it; reading passes over all other characters and stops at the padding.
-/

namespace SchemaClosure.Base64

/-- The characters in the order of their values. -/
def alphabet : List Char :=
  "ABCDEFGHIJKLMNOPQRSTUVWXYZabcdefghijklmnopqrstuvwxyz0123456789+/".toList

def value? (c : Char) : Option Nat := alphabet.findIdx? (· = c)

def digit (n : Nat) : Char := (alphabet[n % 64]?).getD 'A'

/-- The characters for octets, three at a time. -/
def digits : List UInt8 → List Char
  | [] => []
  | [a] => [digit (a.toNat / 4), digit (a.toNat % 4 * 16), '=', '=']
  | [a, b] =>
    [digit (a.toNat / 4), digit (a.toNat % 4 * 16 + b.toNat / 16), digit (b.toNat % 16 * 4), '=']
  | a :: b :: c :: rest =>
    digit (a.toNat / 4) :: digit (a.toNat % 4 * 16 + b.toNat / 16)
      :: digit (b.toNat % 16 * 4 + c.toNat / 64) :: digit (c.toNat % 64) :: digits rest

/-- Lines of at most 76 characters; `room` is what is left of the line. -/
def inLines : Nat → List Char → List Char
  | _, [] => []
  | _, [c] => [c, '\n']
  | room, c :: rest =>
    if room ≤ 1 then c :: '\n' :: inLines 76 rest else c :: inLines (room - 1) rest

/-- The text of octets, each line ended. -/
def encode (octets : List UInt8) : String :=
  String.ofList (inLines 76 (digits octets))

/-- Reads characters. `place` counts the characters of the group of four that are read, `left` holds
the bits of the last one that are not used yet, `pads` counts the padding behind it, and `acc` holds
the octets, last one first. -/
def decodeFrom (place left pads : Nat) (acc : List UInt8) : List Char → Option (List UInt8)
  | [] => if place = 0 then some acc.reverse else none
  | '=' :: rest =>
    if 2 ≤ place && 4 ≤ place + pads + 1 then some acc.reverse
    else decodeFrom place left (if 2 ≤ place then pads + 1 else pads) acc rest
  | c :: rest =>
    match value? c with
    | none => decodeFrom place left pads acc rest
    | some v =>
      match place with
      | 0 => decodeFrom 1 v 0 acc rest
      | 1 => decodeFrom 2 (v % 16) 0 ((left * 4 + v / 16).toUInt8 :: acc) rest
      | 2 => decodeFrom 3 (v % 4) 0 ((left * 16 + v / 4).toUInt8 :: acc) rest
      | _ => decodeFrom 0 0 0 ((left * 64 + v).toUInt8 :: acc) rest

/-- The octets that a text denotes, unless it ends inside of a group. -/
def decode? (s : String) : Option (List UInt8) :=
  decodeFrom 0 0 0 [] s.toList

end SchemaClosure.Base64
