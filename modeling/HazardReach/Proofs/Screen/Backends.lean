import HazardReach.Proofs.Double.Turning
import HazardReach.Proofs.Screen.Pairs

/-! One kind of index in place of the other. A tree puts the edges of a rectangle in order and a
scan takes them as they are, and either reports in an order of its own. A screen asks only for
rectangles with their edges in order and sorts what is reported, so that its answers show nothing
of this. -/
namespace HazardReach

variable {α : Type} [Scalar α]

/-- Every rectangle is answered with the entries inside a region that belongs to it, in any order
and any number of times. -/
def SiteIndex.Reports (index : SiteIndex α) (region : Box α → Box α)
    (entries : List (IndexEntry α)) : Prop :=
  ∀ rect id, id ∈ index.within rect ↔ ∃ e ∈ entries, inside (region rect) e = true ∧ e.id = id

theorem SiteIndex.scan_reports (entries : List (IndexEntry α)) :
    (scan entries).Reports id entries := by
  intro rect id
  simp only [scan, List.mem_map, List.mem_filter, and_assoc]
  rfl

theorem SiteIndex.tree_reports (entries : List (IndexEntry α)) :
    (tree entries).Reports envelope entries := by
  intro rect id
  simp only [tree, List.mem_map, List.mem_filter, and_assoc]

namespace Screen

variable {screen : Screen α} {source : Source α} {make other : List (IndexEntry α) → SiteIndex α}

/-- The screen with its index made anew from the same entries, if it has one. -/
def reindexed (screen : Screen α) (make : List (IndexEntry α) → SiteIndex α) : Screen α :=
  { screen with
    index := screen.index.bind fun _ => screen.sites.map fun own => make (indexEntries own).1 }

theorem reindexed_build (own : Option (SiteCollection α)) (cutoffs : CutoffTable α)
    (make : List (IndexEntry α) → SiteIndex α) :
    (build own cutoffs .tree).reindexed SiteIndex.tree = build own cutoffs .tree ∧
      (build own cutoffs .tree).reindexed SiteIndex.scan = build own cutoffs .scan ∧
      (build own cutoffs .scan).reindexed make = (build own cutoffs .tree).reindexed make := by
  cases own with
  | none => exact ⟨rfl, rfl, rfl⟩
  | some own =>
    cases hempty : cutoffs.isEmpty <;> cases hsea : own.atSeaLevel <;>
      simp [build, buildIndex, reindexed, hempty, hsea]

theorem queryIndex_congr (screen : Screen α) {index index' : SiteIndex α} (c : SiteCollection α)
    (h : ∀ b, screen.affectedBox source = .ok b → ∀ rect ∈ screen.frame.split b, ∀ id,
      id ∈ index.within rect ↔ id ∈ index'.within rect) :
    screen.queryIndex index source c = screen.queryIndex index' source c := by
  cases hbox : screen.affectedBox source with
  | error e => rw [queryIndex_error index hbox, queryIndex_error index' hbox]
  | ok b =>
    have hkey : ∀ x y : SiteId, x.val.toNat = y.val.toNat → x = y :=
      fun _ _ h => congrArg SiteId.mk (UInt32.toNat_inj.mp h)
    have hfound : ascending (fun id : SiteId => id.val.toNat)
        (((screen.frame.split b).flatMap index.within).filter c.contains) =
          ascending (fun id : SiteId => id.val.toNat)
            (((screen.frame.split b).flatMap index'.within).filter c.contains) := by
      apply ascending_congr hkey
      intro id
      simp only [List.mem_filter, List.mem_flatMap]
      refine and_congr_left fun _ => exists_congr fun rect => and_congr_right fun hrect => ?_
      exact h b hbox rect hrect id
    unfold queryIndex
    rw [hbox]
    exact congrArg (fun found => (c.select found).mapError Error.badSites) hfound

theorem search_reindexed_congr (c : SiteCollection α)
    (h : ∀ own, screen.sites = some own → ∀ b, screen.affectedBox source = .ok b →
      ∀ rect ∈ screen.frame.split b, ∀ id,
        id ∈ (make (indexEntries own).1).within rect ↔
          id ∈ (other (indexEntries own).1).within rect) :
    (screen.reindexed make).search source c = (screen.reindexed other).search source c := by
  unfold search reindexed
  cases screen.index with
  | none => rfl
  | some index =>
    cases hown : screen.sites with
    | none => rfl
    | some own => exact screen.queryIndex_congr c (h own hown)

theorem toList_reindexed_congr {sources : List (Source α)} (sites : Option (SiteCollection α))
    (h : ∀ source ∈ sources, ∀ own, screen.sites = some own →
      ∀ b, screen.affectedBox source = .ok b → ∀ rect ∈ screen.frame.split b, ∀ id,
        id ∈ (make (indexEntries own).1).within rect ↔
          id ∈ (other (indexEntries own).1).within rect) :
    ((screen.reindexed make).pair sources sites).toList =
      ((screen.reindexed other).pair sources sites).toList := by
  rw [Pairing.toList_eq_filterMap, Pairing.toList_eq_filterMap]
  apply List.filterMap_congr
  intro source hsource
  change Pairing.answer (screen.reindexed make) (sites.or screen.sites) source =
    Pairing.answer (screen.reindexed other) (sites.or screen.sites) source
  cases sites.or screen.sites with
  | none => rfl
  | some c => exact answer_congr rfl (search_reindexed_congr c (h source hsource))

theorem usesIndex_reindexed (own : Option (SiteCollection α)) (cutoffs : CutoffTable α)
    (kind : IndexKind) (make : List (IndexEntry α) → SiteIndex α) :
    ((build own cutoffs kind).reindexed make).usesIndex =
      (build own cutoffs kind).usesIndex := by
  cases own with
  | none => rfl
  | some own =>
    change Option.isSome ((build (some own) cutoffs kind).index.bind fun _ => some _) = _
    cases hindex : (build (some own) cutoffs kind).index <;> simp [usesIndex, hindex]

end Screen

section Turning

variable [TurningScalar α]

/-- Rectangles with their edges in order are answered with the entries inside them. -/
def SiteIndex.ReportsInside (index : SiteIndex α) (entries : List (IndexEntry α)) : Prop :=
  ∀ rect : Box α, rect.west ≤ rect.east → rect.south ≤ rect.north →
    ∀ id, id ∈ index.within rect ↔ ∃ e ∈ entries, inside rect e = true ∧ e.id = id

theorem SiteIndex.Reports.inside_of_envelope {index : SiteIndex α} {entries : List (IndexEntry α)}
    (h : index.Reports envelope entries) : index.ReportsInside entries := by
  intro rect hlon hlat id
  rw [h rect id, inside_envelope hlon hlat]

namespace Screen

variable {sources : List (Source α)}

theorem toList_reindexed_eq {screen : Screen α} {make other : List (IndexEntry α) → SiteIndex α}
    {sites : Option (SiteCollection α)}
    (hmake : ∀ entries, (make entries).ReportsInside entries)
    (hother : ∀ entries, (other entries).ReportsInside entries)
    (hboxes : ∀ source ∈ sources, ∀ km b, screen.cutoffs.get source.regionType none = .ok km →
      source.box km = .ok b → b.InRange) :
    ((screen.reindexed make).pair sources sites).toList =
      ((screen.reindexed other).pair sources sites).toList := by
  apply toList_reindexed_congr
  intro source hsource own hown placed hplaced rect hrect id
  rcases screen.affectedBox_cases source with
    ⟨e, -, hfail⟩ | ⟨km, e, -, -, hfail⟩ | ⟨km, b, hkm, hbox, hok⟩
  · cases hfail.symm.trans hplaced
  · cases hfail.symm.trans hplaced
  · -- A box in range is cut into rectangles on which any two kinds of index agree.
    obtain rfl := Except.ok.inj (hok.symm.trans hplaced)
    have hb := hboxes source hsource km b hkm hbox
    have hedges := screen.frame.edges_of_mem_split hb hrect
    have hlat : rect.south ≤ rect.north := by
      rw [hedges.2.1, hedges.2.2]
      exact hb.lat
    rw [hmake _ rect hedges.1 hlat, hother _ rect hedges.1 hlat]

/-- Trees and scans are interchangeable, in whatever order they report, where the boxes of the
sources are in range or missing. -/
theorem tree_eq_scan (own : Option (SiteCollection α)) (cutoffs : CutoffTable α)
    (sites : Option (SiteCollection α)) {tree scan : List (IndexEntry α) → SiteIndex α}
    (htree : ∀ entries, (tree entries).Reports SiteIndex.envelope entries)
    (hscan : ∀ entries, (scan entries).Reports id entries)
    (hboxes : ∀ source ∈ sources, ∀ km b, cutoffs.get source.regionType none = .ok km →
      source.box km = .ok b → b.InRange) :
    (((build own cutoffs .tree).reindexed tree).pair sources sites).toList =
      (((build own cutoffs .scan).reindexed scan).pair sources sites).toList ∧
    ((build own cutoffs .tree).reindexed tree).usesIndex =
      ((build own cutoffs .scan).reindexed scan).usesIndex ∧
    ((build own cutoffs .tree).reindexed tree).movedLongitudes =
      ((build own cutoffs .scan).reindexed scan).movedLongitudes ∧
    (((build own cutoffs .tree).reindexed tree).pair sources sites).toList =
      ((build own cutoffs .tree).pair sources sites).toList ∧
    (((build own cutoffs .scan).reindexed scan).pair sources sites).toList =
      ((build own cutoffs .scan).pair sources sites).toList := by
  have hequal : ∀ {make other : List (IndexEntry α) → SiteIndex α},
      (∀ entries, (make entries).ReportsInside entries) →
      (∀ entries, (other entries).ReportsInside entries) →
      (((build own cutoffs .tree).reindexed make).pair sources sites).toList =
        (((build own cutoffs .tree).reindexed other).pair sources sites).toList :=
    fun hmake hother => toList_reindexed_eq hmake hother hboxes
  have htree : ∀ entries, (tree entries).ReportsInside entries :=
    fun entries => (htree entries).inside_of_envelope
  have hscan : ∀ entries, (scan entries).ReportsInside entries :=
    fun entries rect _ _ => hscan entries rect
  obtain ⟨hplain, hplain', hsame⟩ := reindexed_build own cutoffs scan
  have husesIndex := usesIndex_reindexed own cutoffs .tree
  rw [hsame]
  refine ⟨hequal htree hscan, (husesIndex tree).trans (husesIndex scan).symm, rfl, ?_, ?_⟩
  · have hmodel := hequal htree fun entries => (SiteIndex.tree_reports entries).inside_of_envelope
    rw [hplain] at hmodel
    exact hmodel
  · have hmodel := hequal hscan fun entries rect _ _ => SiteIndex.scan_reports entries rect
    rw [hplain'] at hmodel
    exact hmodel

end Screen

end Turning

/-- A tree that reports the other way round. -/
def SiteIndex.backwards (entries : List (IndexEntry α)) : SiteIndex α :=
  ⟨entries.length, fun rect => ((tree entries).within rect).reverse⟩

theorem SiteIndex.backwards_reports (entries : List (IndexEntry α)) :
    (backwards entries).Reports envelope entries := by
  intro rect id
  rw [← tree_reports entries rect id]
  exact List.mem_reverse

namespace Screen

/-- Doubles on both sides of the date line: a tree that reports backwards, and a site so close to
the zero meridian that it is moved to the end of the frame. -/
theorem tree_eq_scan_of_reversed :
    ∃ (own : SiteCollection Float) (cutoffs : CutoffTable Float),
      own.toList = [⟨⟨0⟩, 179, 0, 0⟩, ⟨⟨1⟩, -179, 0, 0⟩, ⟨⟨2⟩, -1e-20, 0, 0⟩] ∧
      (SiteIndex.backwards (own.entries .positive)).within ⟨170, -10, 360, 10⟩ =
        [⟨2⟩, ⟨1⟩, ⟨0⟩] ∧
      ((build (some own) cutoffs .tree).reindexed SiteIndex.backwards).usesIndex = true ∧
      ((build (some own) cutoffs .tree).reindexed SiteIndex.backwards).movedLongitudes = true ∧
      ((build (some own) cutoffs .tree).reindexed SiteIndex.backwards).Pairs
        [.ofBox "box" "any" ⟨170, -10, -170, 10⟩] none (.ofBox "box" "any" ⟨170, -10, -170, 10⟩)
        ⟨⟨1⟩, -179, 0, 0⟩ := by
  obtain ⟨own, cutoffs, hown, hlist, huse, hget⟩ :=
    exists_usesIndex (α := Float) [⟨⟨0⟩, 179, 0, 0⟩, ⟨⟨1⟩, -179, 0, 0⟩, ⟨⟨2⟩, -1e-20, 0, 0⟩] .scan
      100 (by decide) (by decide) (by decide) (by decide) (by decide)
  have hframe : (build (some own) cutoffs .scan).frame = .positive := by
    rw [frame_build huse, SiteCollection.frame, SiteCollection.lons, hlist]
    decide +kernel
  have hb : (⟨170, -10, -170, 10⟩ : Box Float).InRange := by
    constructor <;> decide
  have hpairs : (build (some own) cutoffs .scan).Pairs [.ofBox "box" "any" ⟨170, -10, -170, 10⟩]
      none (.ofBox "box" "any" ⟨170, -10, -170, 10⟩) ⟨⟨1⟩, -179, 0, 0⟩ := by
    rw [pairs_iff_finds hown hown huse rfl (fun _ ht => ht) (List.mem_singleton_self _) (hget _)
      rfl hb, hframe]
    refine ⟨by simp [hlist], by decide, ?_⟩
    unfold Frame.Finds
    decide +kernel
  have hboxes : ∀ source ∈ [Source.ofBox "box" "any" (⟨170, -10, -170, 10⟩ : Box Float)],
      ∀ km b, cutoffs.get source.regionType none = .ok km → source.box km = .ok b →
        b.InRange := by
    intro source hsource km b hkm hbox
    rw [List.mem_singleton.mp hsource] at hbox
    rw [← Except.ok.inj hbox]
    exact hb
  obtain ⟨hequal, huses, hmoves, -, hscan⟩ :=
    tree_eq_scan (some own) cutoffs none SiteIndex.backwards_reports SiteIndex.scan_reports hboxes
  refine ⟨own, cutoffs, hlist, ?_, ?_, ?_, ?_⟩
  · rw [SiteCollection.entries, hlist]
    decide +kernel
  · rw [huses, usesIndex_reindexed]
    exact huse
  · rw [hmoves]
    change ((build (some own) cutoffs .scan).frame == .positive) = true
    rw [hframe]
    rfl
  · unfold Pairs
    rw [hequal, hscan]
    exact hpairs

end Screen

end HazardReach
