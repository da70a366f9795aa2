import HazardReach.Error

/-!
Reading texts from the front.

A reader takes what it needs off the text and leaves the rest, so that the first fault in reading
order is the one that is reported. Blanks are skipped in front of every token. Values of unknown
members are skipped: they have to be well formed, but numbers may be out of range and escapes may
leave half a surrogate pair.
-/
namespace HazardReach.Wire

abbrev Reader (α : Type) := StateT (List Char) (Except (WireFault α))

variable {α β : Type}

def malformed : Reader α β := throw .malformed

def isBlank (c : Char) : Bool := c == ' ' || c == '\t' || c == '\n' || c == '\r'

def skipBlanks : Reader α Unit := modify (List.dropWhile isBlank)

/-- The first character of the next token, left in place. -/
def peek? : Reader α (Option Char) := do
  skipBlanks
  return (← get).head?

/-- Takes the next character, which must follow without blanks. -/
def next : Reader α Char := do
  match ← get with
  | [] => malformed
  | c :: rest => set rest; return c

/-- Takes a token of one character. -/
def symbol (c : Char) : Reader α Unit := do
  skipBlanks
  if (← next) != c then malformed

def literal : List Char → Reader α Unit
  | [] => return ()
  | c :: word => do
    if (← next) != c then malformed
    literal word

def digits : Reader α (List Char) := do
  let text ← get
  set (text.dropWhile Char.isDigit)
  return text.takeWhile Char.isDigit

def someDigits : Reader α (List Char) := do
  let ds ← digits
  if ds.isEmpty then malformed else return ds

def optionalChar (p : Char → Bool) : Reader α (Option Char) := do
  match ← get with
  | c :: rest => if p c then set rest; return some c else return none
  | [] => return none

/-! ### Numbers -/

def digitValue (c : Char) : Nat := c.toNat - '0'.toNat

def digitsValue (ds : List Char) : Nat := ds.foldl (fun n c => 10 * n + digitValue c) 0

def maxSignificand : Nat := 18446744073709551615

/-- Appends digits to a significand while it stays in range. -/
def appendDigits : Nat → List Char → Nat × List Char
  | n, [] => (n, [])
  | n, c :: rest =>
    let m := 10 * n + digitValue c
    if m ≤ maxSignificand then appendDigits m rest else (n, c :: rest)

structure NumberParts where
  negative : Bool
  whole : List Char
  fraction : Option (List Char)
  exponent : Option (Bool × List Char)

namespace NumberParts

/-- Digits before the point that do not fit count as powers of ten; those behind it are dropped. -/
def significand (p : NumberParts) : Nat × Int :=
  let (n, left) := appendDigits 0 p.whole
  let fraction := p.fraction.getD []
  let (n, dropped) := appendDigits n fraction
  (n, (left.length : Int) - (fraction.length - dropped.length : Nat))

def decimalExponent (p : NumberParts) : Int :=
  match p.exponent with
  | none => 0
  | some (negative, ds) => if negative then -(digitsValue ds : Int) else digitsValue ds

/-- The whole number below `2 ^ 32` that is written without a point, an exponent or a sign. -/
def natural32? (p : NumberParts) : Option UInt32 :=
  if p.negative || p.fraction.isSome || p.exponent.isSome then none
  else
    let n := digitsValue p.whole
    if n < UInt32.size then some (UInt32.ofNat n) else none

def value? [NumberText α] (p : NumberParts) : Option α :=
  let (n, shift) := p.significand
  NumberText.ofDecimal? p.negative n (shift + p.decimalExponent)

end NumberParts

/-- A zero in front stands alone. -/
def wholeDigits : Reader α (List Char) := do
  let ds ← someDigits
  if ds.head? == some '0' && ds.length != 1 then malformed else return ds

def fractionDigits : Reader α (Option (List Char)) := do
  match ← optionalChar (· == '.') with
  | some _ => return some (← someDigits)
  | none => return none

def exponentDigits : Reader α (Option (Bool × List Char)) := do
  match ← optionalChar fun c => c == 'e' || c == 'E' with
  | some _ =>
    let sign ← optionalChar fun c => c == '+' || c == '-'
    return some (sign == some '-', ← someDigits)
  | none => return none

def numberParts : Reader α NumberParts := do
  skipBlanks
  let sign ← optionalChar (· == '-')
  let whole ← wholeDigits
  let fraction ← fractionDigits
  let exponent ← exponentDigits
  return { negative := sign.isSome, whole, fraction, exponent }

def number [NumberText α] : Reader α α := do
  match (← numberParts).value? with
  | some x => return x
  | none => malformed

/-! ### Strings -/

def escaped? : Char → Option Char
  | '"' => some '"'
  | '\\' => some '\\'
  | '/' => some '/'
  | 'b' => some '\x08'
  | 'f' => some '\x0c'
  | 'n' => some '\n'
  | 'r' => some '\r'
  | 't' => some '\t'
  | _ => none

def hexValue? (c : Char) : Option Nat :=
  if '0' ≤ c && c ≤ '9' then some (c.toNat - '0'.toNat)
  else if 'a' ≤ c && c ≤ 'f' then some (c.toNat - 'a'.toNat + 10)
  else if 'A' ≤ c && c ≤ 'F' then some (c.toNat - 'A'.toNat + 10)
  else none

def hexUnit? (a b c d : Char) : Option Nat := do
  let high := (← hexValue? a) * 16 + (← hexValue? b)
  let low := (← hexValue? c) * 16 + (← hexValue? d)
  return high * 256 + low

def isHighSurrogate (n : Nat) : Bool := 0xD800 ≤ n && n < 0xDC00

def isLowSurrogate (n : Nat) : Bool := 0xDC00 ≤ n && n < 0xE000

def joinSurrogates (high low : Nat) : Char :=
  Char.ofNat (0x10000 + (high - 0xD800) * 0x400 + (low - 0xDC00))

def before (c : Char) (read : Option (List Char × List Char)) : Option (List Char × List Char) :=
  read.map fun (cs, rest) => (c :: cs, rest)

/-- The characters up to the closing quote, and the rest. Control characters have to be escaped. -/
def quoted? : List Char → Option (List Char × List Char)
  | [] => none
  | '"' :: rest => some ([], rest)
  | '\\' :: 'u' :: a :: b :: c :: d :: rest =>
    match hexUnit? a b c d with
    | none => none
    | some n =>
      if isHighSurrogate n then
        match rest with
        | '\\' :: 'u' :: e :: f :: g :: h :: rest =>
          match hexUnit? e f g h with
          | none => none
          | some m =>
            if isLowSurrogate m then before (joinSurrogates n m) (quoted? rest) else none
        | _ => none
      else if isLowSurrogate n then none
      else before (Char.ofNat n) (quoted? rest)
  | '\\' :: c :: rest =>
    match escaped? c with
    | none => none
    | some c => before c (quoted? rest)
  | c :: rest =>
    if c.toNat < 0x20 then none else before c (quoted? rest)

/-- The text behind the closing quote, where any four digits may follow `\u`. -/
def pastQuote? : List Char → Option (List Char)
  | [] => none
  | '"' :: rest => some rest
  | '\\' :: 'u' :: a :: b :: c :: d :: rest =>
    if (hexUnit? a b c d).isSome then pastQuote? rest else none
  | '\\' :: c :: rest => if (escaped? c).isSome then pastQuote? rest else none
  | c :: rest => if c.toNat < 0x20 then none else pastQuote? rest

def advance : Option (β × List Char) → Reader α β
  | some (x, rest) => do set rest; return x
  | none => malformed

def string : Reader α String := do
  symbol '"'
  return String.ofList (← advance (quoted? (← get)))

def skipString : Reader α Unit := do
  symbol '"'
  advance ((pastQuote? (← get)).map ((), ·))

/-! ### Skipping -/

mutual

/-- Skips a value of any form. The fuel bounds the tokens that are left. -/
def skipValue : (fuel : Nat) → Reader α Unit
  | 0 => malformed
  | fuel + 1 => do
    match ← peek? with
    | some '"' => skipString
    | some '[' =>
      symbol '['
      if (← peek?) == some ']' then symbol ']' else skipItems fuel
    | some '{' =>
      symbol '{'
      if (← peek?) == some '}' then symbol '}' else skipMembers fuel
    | some 't' => literal ['t', 'r', 'u', 'e']
    | some 'f' => literal ['f', 'a', 'l', 's', 'e']
    | some 'n' => literal ['n', 'u', 'l', 'l']
    | _ => discard numberParts

def skipItems : (fuel : Nat) → Reader α Unit
  | 0 => malformed
  | fuel + 1 => do
    skipValue fuel
    if (← peek?) == some ',' then symbol ','; skipItems fuel else symbol ']'

def skipMembers : (fuel : Nat) → Reader α Unit
  | 0 => malformed
  | fuel + 1 => do
    skipString
    symbol ':'
    skipValue fuel
    if (← peek?) == some ',' then symbol ','; skipMembers fuel else symbol '}'

end

def skip : Reader α Unit := do skipValue ((← get).length + 1)

end HazardReach.Wire
