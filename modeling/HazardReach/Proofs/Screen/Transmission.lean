import HazardReach.Proofs.Double.Turning
import HazardReach.Proofs.Frame.Resolved
import HazardReach.Proofs.Screen.Pairs
import HazardReach.Proofs.Site.Origin

/-! What a screen loses on its way to another process. Its index answers for its own sites only,
while sources that search by their boxes take the sites they are given. The pairs of box sources
are the same on both sides when the screen has no index, or when the collection it is given is part
of its own and has its longitudes in range. Rounding may bring an edge of a box and a site together
in the frame of the index; this is said of boxes that the frame resolves. -/
namespace HazardReach

/-- What is seen of a pair: the source, the number of its sites and their identifiers. -/
def Paired.listing {α : Type} (paired : Paired α) :
    Except (Error α) (Source α × Nat × List SiteId) :=
  paired.map fun pair => (pair.source, pair.siteCount, pair.sites.ids)

/-- A source that is a box: it has the box at every distance, and searches by it. -/
structure Source.IsBox {α : Type} [Scalar α] (source : Source α) (b : Box α) : Prop where
  box : ∀ km, source.box km = .ok b
  sitesWithin : ∀ km (c : SiteCollection α), c.Built →
    ∃ r, source.sitesWithin km c = .ok r ∧ c.Part (fun s => b.contains s.lon s.lat) r

theorem Source.ofBox_isBox {α : Type} [Scalar α] (id regionType : String) (b : Box α) :
    (Source.ofBox id regionType b).IsBox b := by
  refine ⟨fun _ => rfl, ?_⟩
  intro km c hc
  exact hc.wellFormed.search_filter Error.badSites fun s => b.contains s.lon s.lat

namespace Screen

section Listing

variable {α : Type} [Scalar α] {screen other : Screen α} {own own' c : SiteCollection α}
  {source : Source α} {P Q : Site α → Prop}

/-- The sequence of pairs, as far as it is seen. -/
def listing (screen : Screen α) (sources : List (Source α)) (sites : Option (SiteCollection α)) :
    List (Except (Error α) (Source α × Nat × List SiteId)) :=
  (screen.pair sources sites).toList.map Paired.listing

theorem listing_eq (sources : List (Source α)) :
    screen.listing sources (some c) =
      sources.filterMap fun source =>
        (Pairing.answer screen (some c) source).map Paired.listing := by
  unfold listing
  rw [Pairing.toList_eq_filterMap, List.map_filterMap]
  rfl

theorem listing_singleton :
    screen.listing [source] (some c) =
      ((Pairing.answer screen (some c) source).map Paired.listing).toList := by
  rw [listing_eq, List.filterMap_cons]
  cases (Pairing.answer screen (some c) source).map Paired.listing <;> rfl

theorem answer_of_part (hown : screen.sites = some own) {r : Option (SiteCollection α)}
    {p : Site α → Bool} (hsearch : screen.search source c = .ok r) (hr : c.Part p r) :
    (Pairing.answer screen (some c) source).map Paired.listing =
      (SiteCollection.present (c.toList.filter p)).map fun found =>
        .ok (source, found.length, found.map (·.id)) := by
  rw [answer_of_search hown hsearch, ← hr.toList]
  cases r with
  | none => rfl
  | some d =>
    simp only [Option.map_some, Paired.listing, Except.map, SiteCollection.ids,
      (hr.wellFormed d rfl).length_toList]

theorem Gives.answer_congr (h : screen.Gives source c P) (h' : other.Gives source c Q)
    (hown : screen.sites = some own) (hown' : other.sites = some own')
    (hPQ : ∀ s ∈ c.toList, P s ↔ Q s) :
    (Pairing.answer screen (some c) source).map Paired.listing =
      (Pairing.answer other (some c) source).map Paired.listing := by
  obtain ⟨r, p, hsearch, hr, hp⟩ := h
  obtain ⟨r', q, hsearch', hr', hq⟩ := h'
  rw [answer_of_part hown hsearch hr, answer_of_part hown' hsearch' hr']
  have hfilter : c.toList.filter p = c.toList.filter q := by
    apply List.filter_congr
    intro s hs
    rw [Bool.eq_iff_iff, hp s hs, hq s hs]
    exact hPQ s hs
  rw [hfilter]

omit [Scalar α] in
private theorem ids_eq_of_present {found found' : List (Site α)}
    (h : (SiteCollection.present found).map (fun found =>
        (.ok (source, found.length, found.map (·.id)) : Except (Error α) _)) =
      (SiteCollection.present found').map fun found =>
        .ok (source, found.length, found.map (·.id))) :
    found.map (·.id) = found'.map (·.id) := by
  cases found with
  | nil =>
    cases found' with
    | nil => rfl
    | cons s rest => contradiction
  | cons s rest =>
    cases found' with
    | nil => contradiction
    | cons t rest' =>
      have hseen := Except.ok.inj (Option.some.inj h)
      exact congrArg (fun seen => seen.2.2) hseen

theorem Gives.iff_of_answer (hc : c.WellFormed) (h : screen.Gives source c P)
    (h' : other.Gives source c Q) (hown : screen.sites = some own)
    (hown' : other.sites = some own')
    (hanswer : (Pairing.answer screen (some c) source).map Paired.listing =
      (Pairing.answer other (some c) source).map Paired.listing) {s : Site α}
    (hs : s ∈ c.toList) : P s ↔ Q s := by
  obtain ⟨r, p, hsearch, hr, hp⟩ := h
  obtain ⟨r', q, hsearch', hr', hq⟩ := h'
  rw [answer_of_part hown hsearch hr, answer_of_part hown' hsearch' hr'] at hanswer
  have hids (p : Site α → Bool) :
      s ∈ c.toList.filter p ↔ s.id ∈ (c.toList.filter p).map (·.id) := by
    refine ⟨List.mem_map_of_mem, ?_⟩
    intro hid
    obtain ⟨t, ht, hid⟩ := List.mem_map.mp hid
    rw [hc.eq_of_id hc rfl hs (List.mem_filter.mp ht).1 hid.symm]
    exact ht
  have hsame := ids_eq_of_present hanswer
  rw [← hp s hs, ← hq s hs]
  have hmem : s ∈ c.toList.filter p ↔ s ∈ c.toList.filter q := by
    rw [hids p, hids q, hsame]
  simpa only [List.mem_filter, hs, true_and] using hmem

theorem index_transmitted (screen : Screen α) : screen.transmitted.index = none := by
  rw [transmitted, build_none]

theorem answer_transmitted (h : screen.index = none) :
    Pairing.answer screen.transmitted (some c) source = Pairing.answer screen (some c) source := by
  have hsites : screen.transmitted.sites = screen.sites := rfl
  have hsearch : screen.transmitted.search source c = screen.search source c := by
    unfold search
    rw [index_transmitted, h]
    rfl
  exact answer_congr hsites hsearch

theorem transmitted_gives (screen : Screen α) (hempty : screen.cutoffs.isEmpty = false) {km : α}
    {b : Box α} (hkm : screen.cutoffs.get source.regionType none = .ok km)
    (hbox : source.IsBox b) (hc : c.Built) :
    screen.transmitted.Gives source c fun s => b.contains s.lon s.lat = true := by
  obtain ⟨r, hr, hpart⟩ := hbox.sitesWithin km c hc
  exact gives_of_sitesWithin (index_transmitted screen) hempty hkm hr hpart

theorem answer_of_get_error {index : SiteIndex α} {e : Error α}
    (hown : screen.sites = some own) (hindex : screen.index = some index)
    (hempty : screen.cutoffs.isEmpty = false)
    (hkm : screen.cutoffs.get source.regionType none = .error e) :
    Pairing.answer screen.transmitted (some c) source = Pairing.answer screen (some c) source := by
  have hsearch : screen.search source c = .error e := by
    unfold search queryIndex affectedBox
    rw [hindex, hkm]
    rfl
  have hsearch' : screen.transmitted.search source c = .error e := by
    unfold search
    rw [index_transmitted]
    change (if screen.cutoffs.isEmpty then Except.ok (some c)
      else do source.sitesWithin (← screen.cutoffs.get source.regionType none) c) = .error e
    rw [hempty, hkm]
    rfl
  have hown' : screen.transmitted.sites = some own := hown
  rw [answer_of_error hown hsearch, answer_of_error hown' hsearch']

end Listing

section Turning

variable {α : Type} [Scalar α] [TurningScalar α] {own c : SiteCollection α}
  {cutoffs : CutoffTable α} {kind : IndexKind}

open Scalar ComparedScalar TurningScalar

/-- Between an index over `own` and the boxes themselves nothing is seen of members of `own` in
range and off the cut, if the frame resolves them. -/
theorem answer_transmitted_of_subset (hown : own.Built) (hc : c.Built)
    (hcut : ∀ s ∈ c.toList,
      (s.lon == 0) = false ∧ (s.lon == -180) = false ∧ (s.lon == 180) = false)
    (huse : (build (some own) cutoffs kind).usesIndex = true)
    (hsub : ∀ s ∈ c.toList, s ∈ own.toList ∧ -180 ≤ s.lon ∧ s.lon ≤ 180) {source : Source α}
    {b : Box α} (hbox : source.IsBox b) (hb : b.InRange)
    (hresolves : ∀ s ∈ c.toList, (build (some own) cutoffs kind).frame.Resolves b s.lon) :
    (Pairing.answer (build (some own) cutoffs kind) (some c) source).map Paired.listing =
      (Pairing.answer (build (some own) cutoffs kind).transmitted (some c) source).map
        Paired.listing := by
  obtain ⟨index, hindex⟩ := exists_indexes huse
  have hempty := (usesIndex_build_iff.mp huse).1
  cases hkm : cutoffs.get source.regionType none with
  | error e => rw [answer_of_get_error hindex.sites_eq hindex.index_eq hempty hkm]
  | ok km =>
    have hid : ∀ s ∈ c.toList, ∀ t ∈ own.toList, t.id = s.id → t = s := by
      intro s hs t ht hid
      exact hown.wellFormed.eq_of_id hown.wellFormed rfl ht (hsub s hs).1 hid
    have hgives := hindex.gives hc.wellFormed hid hkm (hbox.box km) hb
    have hgives' := transmitted_gives (build (some own) cutoffs kind) hempty hkm hbox hc
    apply hgives.answer_congr hgives' hindex.sites_eq hindex.sites_eq
    intro s hs
    obtain ⟨hmem, hlow, hhigh⟩ := hsub s hs
    obtain ⟨hzero, hwest, heast⟩ := hcut s hs
    have hlow := lt_of_le_of_not_beq hlow (not_beq_comm hwest)
    have hhigh := lt_of_le_of_not_beq hhigh heast
    rw [Frame.finds_iff_spans _ hb hlow hhigh hzero (hresolves s hs), Box.contains_iff_spans]
    simp only [hmem, true_and]

theorem finds_iff_of_answer (hown : own.Built) (hc : c.Built) (horigin : c.whole = own.whole)
    (huse : (build (some own) cutoffs kind).usesIndex = true) {source : Source α} {b : Box α}
    (hbox : source.IsBox b) (hb : b.InRange) {km : α}
    (hkm : cutoffs.get source.regionType none = .ok km)
    (hanswer : (Pairing.answer (build (some own) cutoffs kind) (some c) source).map Paired.listing =
      (Pairing.answer (build (some own) cutoffs kind).transmitted (some c) source).map
        Paired.listing) {s : Site α} (hs : s ∈ c.toList) :
    (s ∈ own.toList ∧ (b.south ≤ s.lat ∧ s.lat ≤ b.north) ∧
      (build (some own) cutoffs kind).frame.Finds b s.lon) ↔ b.contains s.lon s.lat = true := by
  obtain ⟨index, hindex⟩ := exists_indexes huse
  have hempty := (usesIndex_build_iff.mp huse).1
  have hid : ∀ s ∈ c.toList, ∀ t ∈ own.toList, t.id = s.id → t = s := by
    intro s hs t ht hid
    exact hown.wellFormed.eq_of_id hc.wellFormed horigin ht hs hid
  have hgives := hindex.gives hc.wellFormed hid hkm (hbox.box km) hb
  have hgives' := transmitted_gives (build (some own) cutoffs kind) hempty hkm hbox hc
  exact hgives.iff_of_answer hc.wellFormed hgives' hindex.sites_eq hindex.sites_eq hanswer hs

theorem mem_of_answer_transmitted (hown : own.Built) (hc : c.Built) (horigin : c.whole = own.whole)
    (haccepted : cutoffs.Accepted) (huse : (build (some own) cutoffs kind).usesIndex = true)
    (hanswer : ∀ (source : Source α) (b : Box α), source.IsBox b → b.InRange →
      (b.west = 180 ∨ b.west = -180) → (b.east = 180 ∨ b.east = -180) →
      (Pairing.answer (build (some own) cutoffs kind) (some c) source).map Paired.listing =
        (Pairing.answer (build (some own) cutoffs kind).transmitted (some c) source).map
          Paired.listing) {s : Site α} (hs : s ∈ c.toList) (heast : (s.lon == 180) = false) :
    s ∈ own.toList ∧ -180 ≤ s.lon ∧ s.lon ≤ 180 := by
  obtain ⟨region, km, hkm⟩ := haccepted.exists_get (usesIndex_build_iff.mp huse).1
  have hfinite := hc.isFinite_of_mem hs
  simp only [Site.isFinite, Bool.and_eq_true] at hfinite
  have hlon : s.lon ≤ s.lon := le_self_of_finite hfinite.1.1
  have hlat : s.lat ≤ s.lat := le_self_of_finite hfinite.1.2
  have hhalf : -180 ≤ (180 : α) ∧ (180 : α) ≤ 180 :=
    ⟨le_of_lt Frame.neg_half_lt_half, (le_self zero_le_half).2⟩
  have hneg : -180 ≤ (-180 : α) ∧ (-180 : α) ≤ 180 := ⟨(le_self hhalf.1).1, hhalf.1⟩
  -- Both sides agree on the site for every such box around its latitude.
  have hagree (west east : α) (hw : west = 180 ∨ west = -180) (he : east = 180 ∨ east = -180) :
      (s ∈ own.toList ∧
        (build (some own) cutoffs kind).frame.Finds ⟨west, s.lat, east, s.lat⟩ s.lon) ↔
          (⟨west, s.lat, east, s.lat⟩ : Box α).Spans s.lon := by
    have hb : (⟨west, s.lat, east, s.lat⟩ : Box α).InRange :=
      ⟨by rcases hw with rfl | rfl <;> assumption, by rcases he with rfl | rfl <;> assumption, hlat⟩
    have hbox := Source.ofBox_isBox "" region (⟨west, s.lat, east, s.lat⟩ : Box α)
    have hiff := finds_iff_of_answer hown hc horigin huse hbox hb hkm (hanswer _ _ hbox hb hw he) hs
    rw [Box.contains_iff_spans] at hiff
    simpa only [hlat, and_self, true_and] using hiff
  have hwrapped := hagree 180 (-180) (.inl rfl) (.inr rfl)
  have hmeridian := hagree 180 180 (.inl rfl) (.inl rfl)
  have hfull := hagree (-180) 180 (.inr rfl) (.inl rfl)
  rw [Frame.finds_dateLine_iff _ rfl (.inr rfl), Box.spans_of_wraps Frame.neg_half_lt_half]
    at hwrapped
  rw [Frame.finds_dateLine_iff _ rfl (.inl rfl), Box.spans_of_not_wraps (not_lt_of_le hhalf.2)]
    at hmeridian
  rw [Box.spans_of_not_wraps (not_lt_of_le hhalf.1)] at hfull
  have hnot : ¬(180 ≤ s.lon ∨ s.lon ≤ -180) := by
    intro h
    have hon := hmeridian.mp (hwrapped.mpr h)
    rw [beq_iff.mpr ⟨hon.2, hon.1⟩] at heast
    contradiction
  rw [not_or] at hnot
  have hhigh := (le_total hlon hhalf.2).resolve_right hnot.1
  have hlow := (le_total hlon hneg.1).resolve_left hnot.2
  exact ⟨(hfull.mpr ⟨hlow, hhigh⟩).1, hlow, hhigh⟩

/-- Sources that are boxes, with the members resolved, are paired alike before and after the
transmission just when the screen uses no index, or its index answers for every member of the
collection. -/
theorem transmitted_listing_iff {entries : List (String × Cutoff α)} (hown : own.Built)
    (hc : c.Built) (horigin : c.whole = own.whole)
    (hcut : ∀ s ∈ c.toList,
      (s.lon == 0) = false ∧ (s.lon == -180) = false ∧ (s.lon == 180) = false)
    (htable : CutoffTable.ofEntries entries = .ok cutoffs) :
    (∀ sources : List (Source α),
      (∀ source ∈ sources, ∃ b : Box α, source.IsBox b ∧ b.InRange ∧
        ((build (some own) cutoffs kind).usesIndex = true →
          ∀ s ∈ c.toList, (build (some own) cutoffs kind).frame.Resolves b s.lon)) →
        (build (some own) cutoffs kind).listing sources (some c) =
          (build (some own) cutoffs kind).transmitted.listing sources (some c)) ↔
      ((build (some own) cutoffs kind).usesIndex = true →
        ∀ s ∈ c.toList, s ∈ own.toList ∧ -180 ≤ s.lon ∧ s.lon ≤ 180) := by
  apply Iff.intro
  · intro h huse s hs
    apply mem_of_answer_transmitted hown hc horigin (CutoffTable.accepted_of_ofEntries htable)
      huse ?_ hs (hcut s hs).2.2
    intro source b hbox hb hwest heast
    have hresolves (_ : (build (some own) cutoffs kind).usesIndex = true) :
        ∀ s ∈ c.toList, (build (some own) cutoffs kind).frame.Resolves b s.lon :=
      fun s _ => Frame.resolves_dateLine _ hwest heast s.lon
    have hone := h [source] (by simpa using ⟨b, hbox, hb, hresolves⟩)
    rw [listing_singleton, listing_singleton] at hone
    simpa using congrArg List.head? hone
  · intro h sources hsources
    rw [listing_eq, listing_eq]
    apply List.filterMap_congr
    intro source hsource
    obtain ⟨b, hbox, hb, hresolves⟩ := hsources source hsource
    by_cases huse : (build (some own) cutoffs kind).usesIndex = true
    · exact answer_transmitted_of_subset hown hc hcut huse (h huse) hbox hb (hresolves huse)
    · have hnone : (build (some own) cutoffs kind).index = none := by
        simpa [usesIndex] using huse
      rw [answer_transmitted hnone]

end Turning

section Double

theorem exists_first_of_two {α : Type} [Scalar α] {s t : Site α} (hids : s.id ≠ t.id)
    (hfinite : ∀ u ∈ [s, t], u.isFinite = true) (hs : (s.depth == 0) = true)
    (ht : (t.depth == 0) = true) (km : α) (hkm : Scalar.isExtent km = true) :
    ∃ (all own : SiteCollection α) (cutoffs : CutoffTable α), all.Built ∧ own.Built ∧
      all.whole = own.whole ∧ all.toList = [s, t] ∧ own.toList = [s] ∧
      CutoffTable.fixed km = .ok cutoffs ∧ (∀ region, cutoffs.get region none = .ok km) ∧
      ∀ kind ≠ .none, (build (some all) cutoffs kind).usesIndex = true ∧
        (build (some own) cutoffs kind).usesIndex = true := by
  have hfirst : [s, t].filter (fun u => u.id == s.id) = [s] := by
    simp [hids.symm]
  obtain ⟨all, own, hall, hown, horigin, hlist, hpart⟩ :=
    SiteCollection.exists_part [s, t] (fun u => u.id == s.id) hfinite
      (by simpa using hids) (by simp [hfirst])
  rw [hfirst] at hpart
  obtain ⟨cutoffs, htable, hempty, hget⟩ := CutoffTable.exists_fixed hkm
  refine ⟨all, own, cutoffs, hall, hown, horigin, hlist, hpart, htable, (hget · none), ?_⟩
  intro kind hkind
  have hsea : all.atSeaLevel = true := by
    rw [SiteCollection.atSeaLevel_iff, hlist]
    simp [hs, ht]
  have hsea' : own.atSeaLevel = true := by
    rw [SiteCollection.atSeaLevel_iff, hpart]
    simp [hs]
  exact ⟨usesIndex_build_iff.mpr ⟨hempty, hsea, hkind⟩,
    usesIndex_build_iff.mpr ⟨hempty, hsea', hkind⟩⟩

/-- A caller that narrows the sites of the screen sees nothing of the transmission. The box goes
from the date line past the zero meridian, where the frame is cut. -/
theorem transmitted_listing_of_part :
    ∃ (all own : SiteCollection Float) (cutoffs : CutoffTable Float),
      all.toList = [⟨⟨0⟩, -179.5, 0, 0⟩, ⟨⟨1⟩, 179.5, 0, 0⟩] ∧
      own.toList = [⟨⟨0⟩, -179.5, 0, 0⟩] ∧ (build (some all) cutoffs .tree).usesIndex = true ∧
      (build (some all) cutoffs .tree).listing [.ofBox "box" "any" ⟨-179.9, -10, 10.1, 10⟩]
          (some own) =
        (build (some all) cutoffs .tree).transmitted.listing
          [.ofBox "box" "any" ⟨-179.9, -10, 10.1, 10⟩] (some own) := by
  obtain ⟨all, own, cutoffs, hall, hown, horigin, hlist, hpart, htable, -, huse⟩ :=
    exists_first_of_two (α := Float) (s := ⟨⟨0⟩, -179.5, 0, 0⟩) (t := ⟨⟨1⟩, 179.5, 0, 0⟩)
      (by decide) (by decide) (by decide) (by decide) 100 (by decide)
  have huse := (huse .tree (by decide)).1
  have hframe : (build (some all) cutoffs .tree).frame = .positive := by
    rw [frame_build huse, SiteCollection.frame, SiteCollection.lons, hlist]
    decide +kernel
  have hresolves : Frame.positive.Resolves (⟨-179.9, -10, 10.1, 10⟩ : Box Float) (-179.5) := by
    constructor
    case back => decide +kernel
    all_goals
      unfold Frame.Apart
      decide +kernel
  refine ⟨all, own, cutoffs, hlist, hpart, huse, ?_⟩
  apply (transmitted_listing_iff hall hown horigin.symm ?_ htable).mpr
  · intro _ s hs
    rw [hpart, List.mem_singleton] at hs
    rw [hs, hlist]
    exact ⟨List.mem_cons_self, by decide, by decide⟩
  · intro source hsource
    rw [List.mem_singleton.mp hsource]
    refine ⟨_, Source.ofBox_isBox _ _ _, by constructor <;> decide, ?_⟩
    intro _ s hs
    rw [hpart, List.mem_singleton] at hs
    rw [hs, hframe]
    exact hresolves
  · intro s hs
    rw [hpart, List.mem_singleton] at hs
    rw [hs]
    decide

/-- A caller that widens the sites of the screen gets more of them behind the transmission. -/
theorem listing_ne_transmitted :
    ∃ (all own : SiteCollection Float) (cutoffs : CutoffTable Float), all.Built ∧ own.Built ∧
      all.whole = own.whole ∧ all.toList = [⟨⟨0⟩, 10, 0, 0⟩, ⟨⟨1⟩, 20, 0, 0⟩] ∧
      own.toList = [⟨⟨0⟩, 10, 0, 0⟩] ∧ CutoffTable.fixed 100 = .ok cutoffs ∧
      (build (some own) cutoffs .scan).usesIndex = true ∧
      (build (some own) cutoffs .scan).listing [.ofBox "box" "any" ⟨0, -10, 30, 10⟩] (some all) ≠
        (build (some own) cutoffs .scan).transmitted.listing
          [.ofBox "box" "any" ⟨0, -10, 30, 10⟩] (some all) := by
  obtain ⟨all, own, cutoffs, hall, hown, horigin, hlist, hpart, htable, hget, huse⟩ :=
    exists_first_of_two (α := Float) (s := ⟨⟨0⟩, 10, 0, 0⟩) (t := ⟨⟨1⟩, 20, 0, 0⟩) (by decide)
      (by decide) (by decide) (by decide) 100 (by decide)
  have huse := (huse .scan (by decide)).2
  refine ⟨all, own, cutoffs, hall, hown, horigin, hlist, hpart, htable, huse, ?_⟩
  intro hlisting
  rw [listing_singleton, listing_singleton] at hlisting
  have hb : (⟨0, -10, 30, 10⟩ : Box Float).InRange := by
    constructor <;> decide
  have hlast : (⟨⟨1⟩, 20, 0, 0⟩ : Site Float) ∈ all.toList := by simp [hlist]
  have hiff := finds_iff_of_answer hown hall horigin huse (Source.ofBox_isBox "box" "any" _) hb
    (hget _) (by simpa using congrArg List.head? hlisting) hlast
  have hmem := (hiff.mpr (by decide)).1
  simp [hpart] at hmem

end Double

end Screen

end HazardReach
