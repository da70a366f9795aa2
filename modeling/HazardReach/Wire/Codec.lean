import HazardReach.Wire.Reader

/-!
Codecs: a writer and a reader of the same values.
-/
namespace HazardReach.Wire

/-- Numbers of type `α` take part in faults only. -/
structure Codec (α β : Type) where
  write : β → String
  read : Reader α β

namespace Codec

variable {α β γ : Type}

def encode (c : Codec α β) (x : β) : String := c.write x

def decode (c : Codec α β) (text : String) : Except (WireFault α) β :=
  match (do let x ← c.read; skipBlanks; return x : Reader α β).run text.toList with
  | .ok (x, []) => .ok x
  | .ok (_, _ :: _) => .error .malformed
  | .error fault => .error fault

/-- Values with another shape; some of those that are read may be refused. -/
def refine (c : Codec α β) (shape : γ → β) (accept : β → Except (WireFault α) γ) : Codec α γ where
  write x := c.write (shape x)
  read := do
    match accept (← c.read) with
    | .ok x => return x
    | .error fault => throw fault

def number [NumberText α] : Codec α α where
  write := NumberText.wire
  read := Wire.number

def hexDigit (n : Nat) : Char := if n < 10 then Char.ofNat (48 + n) else Char.ofNat (87 + n)

/-- Quotes, backslashes and control characters are escaped, and nothing else. -/
def escape (c : Char) : List Char :=
  if c = '"' then ['\\', '"']
  else if c = '\\' then ['\\', '\\']
  else if c = '\x08' then ['\\', 'b']
  else if c = '\x0c' then ['\\', 'f']
  else if c = '\n' then ['\\', 'n']
  else if c = '\r' then ['\\', 'r']
  else if c = '\t' then ['\\', 't']
  else if c.toNat < 0x20 then
    ['\\', 'u', '0', '0', hexDigit (c.toNat / 16), hexDigit (c.toNat % 16)]
  else [c]

def quote (s : String) : String := "\"" ++ String.ofList (s.toList.flatMap escape) ++ "\""

def string : Codec α String where
  write := quote
  read := Wire.string

def id : Codec α SiteId where
  write x := toString x
  read := do
    match (← numberParts).natural32? with
    | some n => return ⟨n⟩
    | none => malformed

/-- Items up to the closing bracket, at least one. -/
def items (item : Reader α β) : (fuel : Nat) → Reader α (List β)
  | 0 => malformed
  | fuel + 1 => do
    let x ← item
    if (← peek?) == some ',' then
      symbol ','
      return x :: (← items item fuel)
    else
      symbol ']'
      return [x]

def list (c : Codec α β) : Codec α (List β) where
  write xs := "[" ++ ",".intercalate (xs.map c.write) ++ "]"
  read := do
    symbol '['
    if (← peek?) == some ']' then
      symbol ']'
      return []
    else items c.read (← get).length

def pair (c : Codec α β) (d : Codec α γ) : Codec α (β × γ) where
  write p := "[" ++ c.write p.1 ++ "," ++ d.write p.2 ++ "]"
  read := do
    symbol '['
    let x ← c.read
    symbol ','
    let y ← d.read
    symbol ']'
    return (x, y)

def optional (c : Codec α β) : Codec α (Option β) where
  write
    | none => "null"
    | some x => c.write x
  read := do
    if (← peek?) == some 'n' then
      literal ['n', 'u', 'l', 'l']
      return none
    else return some (← c.read)

/-- One of a list of values, by name. The name may also be the key of an object that holds null. -/
def choice (values : List β) (name : β → String) : Codec α β where
  write x := quote (name x)
  read := do
    let named : Reader α β := do
      let key ← Wire.string
      match values.find? (name · == key) with
      | some x => return x
      | none => malformed
    if (← peek?) == some '{' then
      symbol '{'
      let x ← named
      symbol ':'
      skipBlanks
      literal ['n', 'u', 'l', 'l']
      symbol '}'
      return x
    else named

/-- Members up to the closing brace, at least one. -/
def members (value : Reader α β) : (fuel : Nat) → Reader α (List (String × β))
  | 0 => malformed
  | fuel + 1 => do
    let key ← Wire.string
    symbol ':'
    let x ← value
    if (← peek?) == some ',' then
      symbol ','
      return (key, x) :: (← members value fuel)
    else
      symbol '}'
      return [(key, x)]

/-- Values under any keys, in the order of the text. -/
def dictionary (c : Codec α β) : Codec α (List (String × β)) where
  write xs := "\x7b" ++ ",".intercalate (xs.map fun x => quote x.1 ++ ":" ++ c.write x.2) ++ "\x7d"
  read := do
    symbol '{'
    if (← peek?) == some '}' then
      symbol '}'
      return []
    else members c.read (← get).length

end Codec

end HazardReach.Wire
