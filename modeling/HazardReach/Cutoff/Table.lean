import Std.Data.HashMap
import Std.Data.TreeMap
import HazardReach.Cutoff.Basic
import HazardReach.Cutoff.Curve

/-!
Cutoffs by tectonic region type.

A region type without an entry of its own has the cutoff of the default entry. Curves are built
with the table and never on look-up. Entries are listed in the order of their keys.
-/
namespace HazardReach

structure CutoffTable (α : Type) where
  entries : Std.TreeMap String (Cutoff α)
  curves : Std.HashMap String (Curve α)

namespace CutoffTable

variable {α : Type}

/-- The key that stands for every region type without an entry. -/
def defaultRegion : String := "default"

def empty : CutoffTable α := ⟨∅, ∅⟩

def size (t : CutoffTable α) : Nat := t.entries.size

def isEmpty (t : CutoffTable α) : Bool := t.entries.isEmpty

def toList (t : CutoffTable α) : List (String × Cutoff α) := t.entries.toList

def contains (t : CutoffTable α) (region : String) : Bool := t.entries.contains region

/-- Replaces an earlier entry of the region type, and its curve. -/
def insert (t : CutoffTable α) (region : String) (cutoff : Cutoff α) : CutoffTable α where
  entries := t.entries.insert region cutoff
  curves :=
    match cutoff with
    | .fixed _ => t.curves.erase region
    | .byMagnitude pairs =>
      match Curve.ofKnots? pairs with
      | some curve => t.curves.insert region curve
      | none => t.curves.erase region

/-- The entry that answers for a region type, with its key. -/
def resolve? (t : CutoffTable α) (region : String) : Option (String × Cutoff α) :=
  match t.entries[region]? with
  | some cutoff => some (region, cutoff)
  | none => (t.entries[defaultRegion]?).map fun cutoff => (defaultRegion, cutoff)

section Construction

variable [Scalar α]

/-- Adds entries from the left; the first one that is refused ends it. -/
def insertAll (t : CutoffTable α) :
    List (String × Cutoff α) → Except (BadEntry α) (CutoffTable α)
  | [] => .ok t
  | (region, cutoff) :: rest =>
    match cutoff.check with
    | .ok cutoff => (t.insert region cutoff).insertAll rest
    | .error fault => .error ⟨region, fault⟩

def ofEntries (entries : List (String × Cutoff α)) : Except (BadEntry α) (CutoffTable α) :=
  empty.insertAll entries

/-- One distance for every region type. -/
def fixed (km : α) : Except (BadEntry α) (CutoffTable α) :=
  ofEntries [(defaultRegion, .fixed km)]

/-- The cutoff of a region type in kilometres. Without a magnitude, an entry that is given by
magnitude answers with the distance at its largest one. -/
def get (t : CutoffTable α) (region : String) (magnitude : Option α) : Except (Error α) α :=
  match t.resolve? region, magnitude with
  | none, _ => .error (.missingRegion region)
  | some (_, .fixed km), _ => .ok km
  | some (key, .byMagnitude pairs), none =>
    match pairs.getLast? with
    | some p => .ok p.2
    | none => .error (.badEntry ⟨key, .other "empty"⟩)
  | some (key, .byMagnitude _), some magnitude =>
    match t.curves[key]? with
    | some curve => .ok (curve.value magnitude)
    | none => .error (.badEntry ⟨key, .other "missing interpolator"⟩)

def same (t u : CutoffTable α) : Bool :=
  t.toList.isEqv u.toList fun p q => p.1 == q.1 && p.2.same q.2

end Construction

def display [NumberText α] (t : CutoffTable α) : String :=
  let entry (p : String × Cutoff α) := "'" ++ p.1 ++ "': " ++ p.2.display
  "\x7b" ++ ", ".intercalate (t.toList.map entry) ++ "\x7d"

end CutoffTable

end HazardReach
