import HazardReach.Proofs.Cutoff.Table
import HazardReach.Proofs.Screen.Answer
import HazardReach.Proofs.Screen.Index

/-! Pairs of a screen, by what its search gives for a source: a part of the collection it searches,
in the order of the collection. A pair is left out only where that part is empty. -/
namespace HazardReach.Screen

variable {α : Type} [Scalar α]

/-- The sequence of pairs has the source together with the site. -/
def Pairs (screen : Screen α) (sources : List (Source α)) (sites : Option (SiteCollection α))
    (source : Source α) (s : Site α) : Prop :=
  ∃ pair, .ok pair ∈ (screen.pair sources sites).toList ∧ pair.source = source ∧
    s ∈ pair.sites.toList

/-- The search for a source gives the sites of `c` with the property, and nothing if there are
none. -/
def Gives (screen : Screen α) (source : Source α) (c : SiteCollection α) (P : Site α → Prop) :
    Prop :=
  ∃ r p, screen.search source c = .ok r ∧ c.Part p r ∧ ∀ s ∈ c.toList, p s = true ↔ P s

variable {screen : Screen α} {own c : SiteCollection α} {source : Source α}

theorem Gives.pairs_iff {P : Site α → Prop} (h : screen.Gives source c P)
    (hown : screen.sites = some own) {sites : Option (SiteCollection α)}
    (hsites : sites.or (some own) = some c) {sources : List (Source α)}
    (hsource : source ∈ sources) {s : Site α} :
    screen.Pairs sources sites source s ↔ s ∈ c.toList ∧ P s := by
  obtain ⟨r, p, hsearch, hr, hp⟩ := h
  have hanswer := answer_of_search hown hsearch
  have hlist : (screen.pair sources sites).toList =
      sources.filterMap (Pairing.answer screen (some c)) := by
    rw [Pairing.toList_eq_filterMap, pair, hown, hsites]
  unfold Pairs
  rw [hlist]
  have hmem : s ∈ c.toList ∧ P s ↔ ∃ d ∈ r, s ∈ d.toList := by
    rw [hr.mem_iff]
    exact and_congr_right fun hs => (hp s hs).symm
  rw [hmem]
  apply Iff.intro
  · intro hpairs
    obtain ⟨pair, hpair, rfl, hs⟩ := hpairs
    obtain ⟨other, -, hother⟩ := List.mem_filterMap.mp hpair
    have hsame : pair.source = other := congrArg AffectedSites.source (eq_of_answer hother).1
    rw [← hsame, hanswer, Option.map_eq_some_iff] at hother
    obtain ⟨d, hd, hfound⟩ := hother
    rw [← Except.ok.inj hfound] at hs
    exact ⟨d, hd, hs⟩
  · intro hfound
    obtain ⟨d, rfl, hs⟩ := hfound
    exact ⟨⟨source, d, d.size⟩, List.mem_filterMap.mpr ⟨source, hsource, hanswer⟩, rfl, hs⟩

theorem gives_of_sitesWithin (hindex : screen.index = none)
    (hempty : screen.cutoffs.isEmpty = false) {km : α}
    (hkm : screen.cutoffs.get source.regionType none = .ok km) {r : Option (SiteCollection α)}
    {p : Site α → Bool} (hsearch : source.sitesWithin km c = .ok r) (hr : c.Part p r) :
    screen.Gives source c fun s => p s = true := by
  refine ⟨r, p, ?_, hr, fun _ _ => Iff.rfl⟩
  rw [search_eq_sitesWithin hindex hempty hkm, hsearch]

theorem Indexes.gives [TurningScalar α] {index : SiteIndex α} (h : screen.Indexes own index)
    (hc : c.WellFormed) (hid : ∀ s ∈ c.toList, ∀ t ∈ own.toList, t.id = s.id → t = s) {km : α}
    {b : Box α} (hkm : screen.cutoffs.get source.regionType none = .ok km)
    (hbox : source.box km = .ok b) (hb : b.InRange) :
    screen.Gives source c fun s =>
      s ∈ own.toList ∧ (b.south ≤ s.lat ∧ s.lat ≤ b.north) ∧ screen.frame.Finds b s.lon := by
  obtain ⟨r, p, hquery, hr, -, hp⟩ := queryIndex_ok hc index (affectedBox_eq hkm hbox)
  have hsearch : screen.search source c = .ok r := by
    unfold search
    rw [h.index_eq]
    exact hquery
  refine ⟨r, p, hsearch, hr, ?_⟩
  intro s hs
  rw [hp s hs, h.mem_query hb]
  apply Iff.intro
  · intro hfound
    obtain ⟨t, ht, heq, hreach⟩ := hfound
    have hts := hid s hs t ht heq
    rw [hts] at ht hreach
    exact ⟨ht, hreach⟩
  · intro hreach
    exact ⟨s, hreach.1, rfl, hreach.2⟩

variable {cutoffs : CutoffTable α} {kind : IndexKind}

/-- The members that are paired with a source are those that its box reaches in the frame. -/
theorem pairs_iff_finds [TurningScalar α] (hown : own.Built) (hc : c.Built)
    (huse : (build (some own) cutoffs kind).usesIndex = true)
    {sites : Option (SiteCollection α)} (hsites : sites.or (some own) = some c)
    (hmem : ∀ t ∈ c.toList, t ∈ own.toList) {sources : List (Source α)}
    (hsource : source ∈ sources) {km : α} {b : Box α}
    (hkm : cutoffs.get source.regionType none = .ok km) (hbox : source.box km = .ok b)
    (hb : b.InRange) {s : Site α} :
    (build (some own) cutoffs kind).Pairs sources sites source s ↔
      s ∈ c.toList ∧ (b.south ≤ s.lat ∧ s.lat ≤ b.north) ∧
        (build (some own) cutoffs kind).frame.Finds b s.lon := by
  obtain ⟨index, hindex⟩ := exists_indexes huse
  have hid : ∀ t ∈ c.toList, ∀ u ∈ own.toList, u.id = t.id → u = t := by
    intro t ht u hu hid
    exact hown.wellFormed.eq_of_id hown.wellFormed rfl hu (hmem t ht) hid
  have hgives := hindex.gives hc.wellFormed hid hkm hbox hb
  rw [hgives.pairs_iff hindex.sites_eq hsites hsource]
  apply and_congr_right
  intro hs
  simp only [hmem s hs, true_and]

theorem exists_usesIndex (members : List (Site α)) (kind : IndexKind) (km : α)
    (hfinite : ∀ t ∈ members, t.isFinite = true) (hsea : ∀ t ∈ members, (t.depth == 0) = true)
    (hnodup : (members.map (·.id)).Nodup) (hkind : kind ≠ .none)
    (hkm : Scalar.isExtent km = true) :
    ∃ (own : SiteCollection α) (cutoffs : CutoffTable α), own.Built ∧ own.toList = members ∧
      (build (some own) cutoffs kind).usesIndex = true ∧
        ∀ region, cutoffs.get region none = .ok km := by
  obtain ⟨positions, hown⟩ := SiteCollection.ofSites_ok 0 hfinite hnodup
  have hmembers := (SiteCollection.wellFormed_of_ofSites hown).2
  obtain ⟨cutoffs, -, hempty, hget⟩ := CutoffTable.exists_fixed hkm
  refine ⟨_, cutoffs, .sites hown, hmembers, usesIndex_build_iff.mpr ⟨hempty, ?_, hkind⟩,
    (hget · none)⟩
  rw [SiteCollection.atSeaLevel_iff, hmembers]
  exact hsea

end HazardReach.Screen
