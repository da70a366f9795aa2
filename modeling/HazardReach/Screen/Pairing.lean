import HazardReach.Screen.Basic

/-!
Pairings: a screen at work on a list of sources, one source at a time.

`next?` looks at sources from the front until one of them gives a pair or an error. What it gives
for a source is `answer`, which depends on nothing but the screen, the sites and that source.
-/
namespace HazardReach

/-- The sources a screen has not looked at yet, and the sites to choose from. -/
structure Pairing (α : Type) where
  screen : Screen α
  sites : Option (SiteCollection α)
  pending : List (Source α)

abbrev Paired (α : Type) := Except (Error α) (AffectedSites α)

/-- Sites of the caller come before those of the screen. -/
def Screen.pair {α : Type} (screen : Screen α) (sources : List (Source α))
    (sites : Option (SiteCollection α)) : Pairing α :=
  ⟨screen, sites.or screen.sites, sources⟩

namespace Pairing

variable {α : Type} [Scalar α]

/-- What a source adds to the sequence of pairs, if anything. -/
def answer (screen : Screen α) (sites : Option (SiteCollection α)) (source : Source α) :
    Option (Paired α) :=
  match sites with
  | none => some (.error ((Error.badSites .noCollection).inSource source.id))
  | some sites =>
    match screen.affected source sites with
    | .error e => some (.error e)
    | .ok none => none
    | .ok (some pair) => some (.ok pair)

def nextOf (screen : Screen α) (sites : Option (SiteCollection α)) :
    List (Source α) → Option (Paired α × Pairing α)
  | [] => none
  | source :: rest =>
    match answer screen sites source with
    | some pair => some (pair, ⟨screen, sites, rest⟩)
    | none => nextOf screen sites rest

/-- The next pair, and the pairing that is left behind it. -/
def next? (p : Pairing α) : Option (Paired α × Pairing α) := nextOf p.screen p.sites p.pending

def take : Nat → Pairing α → List (Paired α) × Pairing α
  | 0, p => ([], p)
  | n + 1, p =>
    match p.next? with
    | none => ([], { p with pending := [] })
    | some (pair, p) =>
      let (pairs, p) := take n p
      (pair :: pairs, p)

def sizeHint (p : Pairing α) : Nat × Nat := (0, p.pending.length)

def toList (p : Pairing α) : List (Paired α) := (p.take p.pending.length).1

/-- Taking pairs one by one answers each source in turn. -/
theorem take_eq_filterMap (screen : Screen α) (sites : Option (SiteCollection α))
    (pending : List (Source α)) (n : Nat) (h : pending.length ≤ n) :
    (take n ⟨screen, sites, pending⟩).1 = pending.filterMap (answer screen sites) := by
  induction pending generalizing n with
  | nil => cases n <;> rfl
  | cons source rest ih =>
    cases n with
    | zero => simp at h
    | succ n =>
      have hn : rest.length ≤ n := by simpa using h
      rw [List.filterMap_cons]
      cases hs : answer screen sites source with
      | some pair => simp [take, next?, nextOf, hs, ih n hn]
      | none =>
        rw [← ih (n + 1) (by omega)]
        simp [take, next?, nextOf, hs]

theorem toList_eq_filterMap (p : Pairing α) :
    p.toList = p.pending.filterMap (answer p.screen p.sites) :=
  take_eq_filterMap p.screen p.sites p.pending _ (Nat.le_refl _)

end Pairing

namespace Screen

variable {α : Type} [Scalar α]

def closeSites (screen : Screen α) (source : Source α) :
    Except (Error α) (Option (SiteCollection α)) :=
  match (screen.pair [source] none).next? with
  | none => .ok none
  | some (.ok pair, _) => .ok (some pair.sites)
  | some (.error e, _) => .error e

end Screen

end HazardReach
