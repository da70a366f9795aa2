import HazardReach.Proofs.Site.Origin
import HazardReach.Source.MultiPointSource

/-! Sources that do not ask where sites come from: what they find among the sites of a collection is
the same under any origin. Boxes and sources at points are such sources. -/
namespace HazardReach

variable {α : Type}

/-- Under another origin the source finds the same sites, under this origin. -/
def Source.IgnoresOrigin (source : Source α) : Prop :=
  ∀ (km : α) (c : SiteCollection α) (origin : Nat),
    source.sitesWithin km (c.withOrigin origin) =
      (source.sitesWithin km c).map (Option.map (·.withOrigin origin))

theorem SiteCollection.search_withOrigin (c : SiteCollection α) (origin : Nat) (mask : List Bool) :
    (if (c.withOrigin origin).isEmpty then (.ok none : Except (Error α) _)
      else ((c.withOrigin origin).keep mask).mapError .badSites) =
      (if c.isEmpty then (.ok none : Except (Error α) _)
        else (c.keep mask).mapError .badSites).map (Option.map (·.withOrigin origin)) := by
  have hempty : (c.withOrigin origin).isEmpty = c.isEmpty := rfl
  rw [hempty, keep_withOrigin]
  split
  · rfl
  · cases c.keep mask <;> rfl

variable [Scalar α]

theorem Source.ofBox_ignoresOrigin (id regionType : String) (b : Box α) :
    (Source.ofBox id regionType b).IgnoresOrigin :=
  fun _ c origin => c.search_withOrigin origin _

variable [Trig α]

theorem PointSource.ignoresOrigin (s : PointSource α) : s.toSource.IgnoresOrigin := by
  intro km c origin
  simp only [toSource]
  cases Source.checkReach km with
  | error e => rfl
  | ok _ => exact c.search_withOrigin origin _

theorem MultiPointSource.ignoresOrigin (s : MultiPointSource α) : s.toSource.IgnoresOrigin := by
  intro km c origin
  simp only [toSource]
  cases Source.checkReach km with
  | error e => rfl
  | ok _ =>
    cases s.checkLocations with
    | error e => rfl
    | ok _ => exact c.search_withOrigin origin _

end HazardReach
