import HazardReach.Wire.Codec

/-!
Records: objects with known members, or arrays of the same values in order.

In an object, members come in any order, unknown ones are skipped and known ones may not be
repeated. An array may end early. What is missing is filled in where the field allows it.
-/
namespace HazardReach.Wire

/-- The two forms in which a record is read. -/
inductive Form where
  | object
  | array
  deriving DecidableEq, Repr

def Row : List Type → Type
  | [] => Unit
  | β :: βs => β × Row βs

def Slots : List Type → Type
  | [] => Unit
  | β :: βs => Option β × Slots βs

inductive Fields (α : Type) : List Type → Type 1 where
  | nil : Fields α []
  /-- `absent` fills in for a missing value, and values that satisfy `hidden` are not written. -/
  | cons {β : Type} {βs : List Type} (name : String) (codec : Codec α β)
      (absent : Form → Option β) (hidden : β → Bool) (rest : Fields α βs) : Fields α (β :: βs)

namespace Fields

variable {α β : Type} {βs : List Type}

def required (name : String) (codec : Codec α β) (rest : Fields α βs) : Fields α (β :: βs) :=
  .cons name codec (fun _ => none) (fun _ => false) rest

def withDefault (name : String) (codec : Codec α β) (value : β) (rest : Fields α βs) :
    Fields α (β :: βs) :=
  .cons name codec (fun _ => some value) (fun _ => false) rest

def noSlots : {βs : List Type} → Fields α βs → Slots βs
  | _, nil => ()
  | _, cons _ _ _ _ rest => (none, rest.noSlots)

/-- The values of a record that was read in the given form, if nothing is missing. -/
def fill? (form : Form) : {βs : List Type} → Fields α βs → Slots βs → Option (Row βs)
  | _, nil, _ => some ()
  | _, cons _ _ absent _ rest, (slot, slots) =>
    match slot.or (absent form), rest.fill? form slots with
    | some x, some row => some (x, row)
    | _, _ => none

def writeMembers : {βs : List Type} → Fields α βs → Row βs → List String
  | _, nil, _ => []
  | _, cons name codec _ hidden rest, (x, row) =>
    if hidden x then rest.writeMembers row
    else (Codec.quote name ++ ":" ++ codec.write x) :: rest.writeMembers row

/-- Reads the value of a member into its slot; a key that no field has is left to the caller. -/
def readMember? :
    {βs : List Type} → Fields α βs → String → Slots βs → Option (Reader α (Slots βs))
  | _, nil, _, _ => none
  | _, cons name codec _ _ rest, key, (slot, slots) =>
    if key == name then
      some do
        if slot.isSome then malformed
        return (some (← codec.read), slots)
    else (rest.readMember? key slots).map fun read => do return (slot, ← read)

/-- Members up to the closing brace, at least one. -/
def readMembers (fields : Fields α βs) : (fuel : Nat) → Slots βs → Reader α (Slots βs)
  | 0, _ => malformed
  | fuel + 1, slots => do
    let key ← Wire.string
    symbol ':'
    let slots ←
      match fields.readMember? key slots with
      | some read => read
      | none => do skip; pure slots
    if (← peek?) == some ',' then
      symbol ','
      fields.readMembers fuel slots
    else
      symbol '}'
      return slots

/-- Elements up to the closing bracket, which is left in place. -/
def readElements : {βs : List Type} → Fields α βs → (first : Bool) → Reader α (Slots βs)
  | _, nil, _ => return ()
  | _, cons _ codec _ _ rest, first => do
    if (← peek?) == some ']' then return (none, rest.noSlots)
    if !first then symbol ','
    let x ← codec.read
    return (some x, ← rest.readElements false)

def readObject (fields : Fields α βs) : Reader α (Slots βs) := do
  symbol '{'
  if (← peek?) == some '}' then
    symbol '}'
    return fields.noSlots
  else fields.readMembers (← get).length fields.noSlots

def readArray (fields : Fields α βs) : Reader α (Slots βs) := do
  symbol '['
  let slots ← fields.readElements true
  symbol ']'
  return slots

end Fields

def Codec.record {α : Type} {βs : List Type} (fields : Fields α βs) : Codec α (Row βs) where
  write row := "\x7b" ++ ",".intercalate (fields.writeMembers row) ++ "\x7d"
  read := do
    let (form, slots) ←
      if (← peek?) == some '[' then pure (Form.array, ← fields.readArray)
      else pure (Form.object, ← fields.readObject)
    match fields.fill? form slots with
    | some row => return row
    | none => malformed

end HazardReach.Wire
