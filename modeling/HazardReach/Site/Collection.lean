import Std.Data.HashMap
import HazardReach.Sphere.Mesh

/-!
Site collections.

A collection is a complete set of sites, or a view of one that holds positions into it. A view of a
view is a view of the same set, so that every collection leads back to the set it came from in one
step. Positions of a view ascend, and a view of everything is the set itself.
-/
namespace HazardReach

/-- Sites with distinct identifiers, and the position of each identifier among them. -/
structure SiteSet (α : Type) where
  /-- Tells apart sets that were built separately from equal sites. -/
  origin : Nat
  sites : Array (Site α)
  positions : Std.HashMap SiteId Nat

structure SiteCollection (α : Type) where
  whole : SiteSet α
  /-- Ascending positions of a proper view; absent for the complete set. -/
  selection : Option (List Nat)

/-- The values whose entry in the mask is true. -/
def masked {β : Type} (values : List β) (mask : List Bool) : List β :=
  ((values.zip mask).filter (·.2)).map (·.1)

@[simp] theorem masked_nil {β : Type} (mask : List Bool) : masked ([] : List β) mask = [] := rfl

@[simp] theorem masked_cons {β : Type} (x : β) (xs : List β) (b : Bool) (mask : List Bool) :
    masked (x :: xs) (b :: mask) = if b then x :: masked xs mask else masked xs mask := by
  cases b <;> rfl

/-- Whether ascending numbers hold `i`, found by halving. -/
def bisect (i : Nat) (numbers : List Nat) : Bool :=
  match hsplit : numbers.drop (numbers.length / 2) with
  | [] => false
  | middle :: above =>
    if i = middle then true
    else if i < middle then bisect i (numbers.take (numbers.length / 2))
    else bisect i above
termination_by numbers.length
decreasing_by
  · have hlength := congrArg List.length hsplit
    rw [List.length_drop, List.length_cons] at hlength
    rw [List.length_take]
    omega
  · have hlength := congrArg List.length hsplit
    rw [List.length_drop, List.length_cons] at hlength
    omega

/-- Values without those that repeat the one before them. -/
def unrepeated {β : Type} [BEq β] : List β → List β
  | x :: y :: rest => if x == y then unrepeated (y :: rest) else x :: unrepeated (y :: rest)
  | values => values

/-- Values by ascending key, each once. -/
def ascending {β : Type} [BEq β] (key : β → Nat) (values : List β) : List β :=
  unrepeated (values.mergeSort fun x y => decide (key x ≤ key y))

namespace SiteSet

variable {α : Type}

/-- Positions of the sites from `i` on. Of several faulty sites the first is reported. -/
def index [Scalar α] :
    List (Site α) → (i : Nat) → Std.HashMap SiteId Nat → Except SitesFault (Std.HashMap SiteId Nat)
  | [], _, positions => .ok positions
  | s :: rest, i, positions =>
    if !s.isFinite then .error (.notFinite s.id)
    else if positions.contains s.id then .error (.repeatedId s.id)
    else index rest (i + 1) (positions.insert s.id i)

/-- Positions of identifiers; the first unknown one is reported. -/
def resolve (set : SiteSet α) : List SiteId → Except SitesFault (List Nat)
  | [] => .ok []
  | id :: rest =>
    match set.positions[id]? with
    | none => .error (.unknownId id)
    | some i => (set.resolve rest).map (i :: ·)

end SiteSet

namespace SiteCollection

variable {α : Type}

def ofSites [Scalar α] (origin : Nat) (sites : List (Site α)) :
    Except SitesFault (SiteCollection α) :=
  (SiteSet.index sites 0 {}).map fun positions => ⟨⟨origin, sites.toArray, positions⟩, none⟩

/-- Sites at sea level, numbered from zero in the given order. -/
def ofLocations [Scalar α] (origin : Nat) (locations : List (α × α)) :
    Except SitesFault (SiteCollection α) :=
  if UInt32.size < locations.length then .error .tooMany
  else ofSites origin (locations.zipIdx.map fun ((lon, lat), i) => ⟨⟨UInt32.ofNat i⟩, lon, lat, 0⟩)

def places (c : SiteCollection α) : List Nat :=
  c.selection.getD (List.range c.whole.sites.size)

def toList (c : SiteCollection α) : List (Site α) :=
  match c.selection with
  | none => c.whole.sites.toList
  | some selection => selection.filterMap (c.whole.sites[·]?)

def size (c : SiteCollection α) : Nat :=
  match c.selection with
  | none => c.whole.sites.size
  | some selection => selection.length

def isEmpty (c : SiteCollection α) : Bool := c.size == 0

def ids (c : SiteCollection α) : List SiteId := c.toList.map (·.id)

def lons (c : SiteCollection α) : List α := c.toList.map (·.lon)

def lats (c : SiteCollection α) : List α := c.toList.map (·.lat)

def depths (c : SiteCollection α) : List α := c.toList.map (·.depth)

def mesh [Scalar α] (c : SiteCollection α) : Mesh α := .ofPoints (c.toList.map Site.location)

def contains (c : SiteCollection α) (id : SiteId) : Bool :=
  match c.whole.positions[id]?, c.selection with
  | none, _ => false
  | some _, none => true
  | some i, some selection => bisect i selection

def get? (c : SiteCollection α) (id : SiteId) : Option (Site α) :=
  if c.contains id then (c.whole.positions[id]?).bind (c.whole.sites[·]?) else none

def atSeaLevel [Scalar α] (c : SiteCollection α) : Bool := c.toList.all Site.atSeaLevel

def complete (c : SiteCollection α) : SiteCollection α := ⟨c.whole, none⟩

def isComplete (c : SiteCollection α) : Bool := c.selection.isNone

/-- Both collections lead back to one set. -/
def sameOrigin (c d : SiteCollection α) : Bool := c.whole.origin == d.whole.origin

/-- The same sites in the same order, whatever set they lead back to. -/
def same [Scalar α] (c d : SiteCollection α) : Bool := c.toList.isEqv d.toList Site.same

/-- The members whose entry in the mask is true; the collection itself when all are, and nothing
when none is. -/
def keep (c : SiteCollection α) (mask : List Bool) :
    Except SitesFault (Option (SiteCollection α)) :=
  if mask.length ≠ c.size then .error (.maskLength mask.length c.size)
  else if mask.all id then .ok (some c)
  else if !mask.any id then .ok none
  else .ok (some ⟨c.whole, some (masked c.places mask)⟩)

/-- The view of the complete set that holds the given identifiers, in the order of the set; nothing
for no identifiers. -/
def select (c : SiteCollection α) (ids : List SiteId) :
    Except SitesFault (Option (SiteCollection α)) :=
  (c.whole.resolve ids).map fun positions =>
    if positions.isEmpty then none
    else
      let places := ascending id positions
      if places.length = c.whole.sites.size then some c.complete
      else some ⟨c.whole, some places⟩

@[simp] theorem whole_complete (c : SiteCollection α) : c.complete.whole = c.whole := rfl

@[simp] theorem isComplete_complete (c : SiteCollection α) : c.complete.isComplete = true := rfl

@[simp] theorem complete_complete (c : SiteCollection α) : c.complete.complete = c.complete := rfl

@[simp] theorem sameOrigin_complete (c : SiteCollection α) : c.complete.sameOrigin c = true := by
  simp [sameOrigin]

def summary (c : SiteCollection α) : String :=
  "SiteCollection \x7b len: " ++ toString c.size ++ ", complete_len: "
    ++ toString c.whole.sites.size ++ ", .. \x7d"

end SiteCollection

end HazardReach
