import HfmcBot.Types

/-!
# JSON values

What `serde_json::from_str` makes of a body, and the accessors the parsers of
`live.rs` go through.  The text of a number that is not an integer is kept as it
was written; nothing reads it.
-/

namespace HfmcBot

/-- A JSON number, sorted as the library sorts it. -/
inductive JsonNumber
  | posInt (n : UInt64)
  | negInt (n : Int64)
  | float (literal : String)
  deriving DecidableEq

/-- `serde_json::Value`.  An object lists its members; a parsed one names none of
them twice. -/
inductive Json
  | null
  | bool (b : Bool)
  | number (n : JsonNumber)
  | string (s : String)
  | array (elems : List Json)
  | object (members : List (String × Json))

namespace Json

/-- The member of an object; nothing else has any. -/
def get (v : Json) (name : String) : Option Json :=
  match v with
  | object members => members.lookup name
  | _ => none

def asStr : Json → Option String
  | string s => some s
  | _ => none

def asU64 : Json → Option UInt64
  | number (.posInt n) => some n
  | _ => none

def asArray : Json → Option (List Json)
  | array elems => some elems
  | _ => none

def isNull : Json → Bool
  | null => true
  | _ => false

end Json

def dropPlus : List Char → List Char
  | '+' :: rest => rest
  | chars => chars

/-- `str::parse::<u64>`: decimal digits, a plus sign before them is allowed. -/
def parseU64 (s : String) : Option UInt64 :=
  let digits := dropPlus s.toList
  let value := digits.foldl (fun n c => 10 * n + (c.toNat - 48)) 0
  if digits ≠ [] ∧ digits.all Char.isDigit ∧ value < 2 ^ 64 then some (UInt64.ofNat value)
  else none

end HfmcBot
