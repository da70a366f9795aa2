import HazardReach.Proofs.Screen.Reach
import HazardReach.Proofs.Site.Membership
import HazardReach.Proofs.Source.Points
import HazardReach.Proofs.Sphere.Real

/-! What a search gives: members of the collection it was given, in its order, as a view of the same
set. Identifiers that an index reports from elsewhere do no harm, and what fails is the table or the
geometry of the source, never the collection. -/
namespace HazardReach

variable {α : Type} [Scalar α]

namespace SiteCollection

omit [Scalar α]

/-- Members of `c` in its order, as a view of its set. -/
structure Within (d c : SiteCollection α) : Prop where
  whole : d.whole = c.whole
  wellFormed : d.WellFormed
  sublist : d.toList.Sublist c.toList

theorem WellFormed.within_self {c : SiteCollection α} (h : c.WellFormed) : c.Within c :=
  ⟨rfl, h, List.Sublist.refl _⟩

theorem Part.within {c d : SiteCollection α} {p : Site α → Bool} (h : c.Part p (some d))
    (hwhole : d.whole = c.whole) : d.Within c ∧ d.toList ≠ [] := by
  obtain ⟨hne, htoList⟩ := present_eq_some_iff.mp h.toList.symm
  rw [htoList] at hne
  refine ⟨⟨hwhole, h.wellFormed d rfl, ?_⟩, hne⟩
  rw [← htoList]
  exact List.filter_sublist

theorem WellFormed.search_within {c d : SiteCollection α} (h : c.WellFormed) {ε : Type}
    {tag : SitesFault → ε} {p : Site α → Bool}
    (hsearch : (if c.isEmpty then (.ok none : Except ε _)
      else (c.keep (c.toList.map p)).mapError tag) = .ok (some d)) :
    d.Within c ∧ d.toList ≠ [] := by
  obtain ⟨r, hr, hpart⟩ := h.search_filter tag p
  obtain rfl : r = some d := Except.ok.inj (hr.symm.trans hsearch)
  apply hpart.within
  split at hsearch
  · cases Except.ok.inj hsearch
  · cases hkeep : c.keep (c.toList.map p) with
    | error e =>
      rw [hkeep] at hsearch
      contradiction
    | ok r =>
      rw [hkeep] at hsearch
      obtain rfl : r = some d := Except.ok.inj hsearch
      exact whole_of_keep hkeep

end SiteCollection

/-- A source that narrows the collection it is given, and fails for its geometry only. -/
structure Source.Narrows (source : Source α) : Prop where
  within : ∀ {km : α} {c d : SiteCollection α}, c.WellFormed →
    source.sitesWithin km c = .ok (some d) → d.Within c ∧ d.toList ≠ []
  geometry_of_sitesWithin : ∀ {km : α} {c : SiteCollection α} {e : Error α}, c.WellFormed →
    source.sitesWithin km c = .error e → ∃ fault, e = .geometry fault
  geometry_of_box : ∀ {km : α} {e : Error α},
    source.box km = .error e → ∃ fault, e = .geometry fault

theorem Source.OfPoints.narrows [Trig α] {source : Source α} {locations : List (Point α)}
    {radius : α} (h : source.OfPoints locations radius) : source.Narrows where
  within := by
    intro km c d hc hsearch
    rcases h.sitesWithin_cases km hc with ⟨fault, hfault, -⟩ | heq
    · rw [hfault] at hsearch
      contradiction
    · exact hc.search_within (heq.symm.trans hsearch)
  geometry_of_sitesWithin := by
    intro km c e hc herror
    rcases h.sitesWithin_cases km hc with ⟨fault, hfault, -⟩ | heq
    · exact ⟨fault, Except.error.inj (herror.symm.trans hfault)⟩
    · obtain ⟨r, hr, -⟩ := hc.search_filter (Error.badSites (α := α))
        (·.isReached locations (km + radius))
      rw [heq, hr] at herror
      contradiction
  geometry_of_box := h.geometry_of_box

theorem Source.ofBox_narrows (id regionType : String) (b : Box α) :
    (Source.ofBox id regionType b).Narrows where
  within := fun hc hsearch => hc.search_within hsearch
  geometry_of_sitesWithin := by
    intro km c e hc herror
    obtain ⟨r, hr, -⟩ := hc.search_filter (Error.badSites (α := α))
      fun s => b.contains s.lon s.lat
    exact absurd (hr.symm.trans herror) (by simp)
  geometry_of_box := fun hbox => nomatch hbox

namespace Screen

variable {screen : Screen α} {source : Source α} {c d : SiteCollection α}

theorem search_within (hsource : source.Narrows) (hc : c.WellFormed)
    (h : screen.search source c = .ok (some d)) :
    d.Within c ∧ (screen.cutoffs.isEmpty = false → d.toList ≠ []) := by
  have hfound : d.Within c ∧ d.toList ≠ [] → d.Within c ∧
      (screen.cutoffs.isEmpty = false → d.toList ≠ []) := And.imp_right fun hne _ => hne
  rcases screen.search_cases source c with
    ⟨index, -, heq⟩ | ⟨-, hempty, heq⟩ | ⟨e, -, heq⟩ | ⟨km, -, heq⟩
  · cases hbox : screen.affectedBox source with
    | error e => cases (queryIndex_error index hbox).symm.trans (heq.symm.trans h)
    | ok b =>
      obtain ⟨r, p, hr, hpart, hwhole, -⟩ := queryIndex_ok hc index hbox
      obtain rfl : r = some d := Except.ok.inj (hr.symm.trans (heq.symm.trans h))
      exact hfound (hpart.within (hwhole d rfl))
  · obtain rfl := Option.some.inj (Except.ok.inj (heq.symm.trans h))
    exact ⟨hc.within_self, fun hne => absurd (hempty.symm.trans hne) (by simp)⟩
  · cases heq.symm.trans h
  · exact hfound (hsource.within hc (heq.symm.trans h))

theorem kind_of_search (hsource : source.Narrows) (hc : c.WellFormed) {e : Error α}
    (h : screen.search source c = .error e) : e.kind ≠ .badSites := by
  have htable : screen.cutoffs.get source.regionType none = .error e → e.kind ≠ .badSites := by
    intro hget hkind
    rcases CutoffTable.kind_of_get hget with hkind' | hkind' <;> cases hkind.symm.trans hkind'
  rcases screen.search_cases source c with
    ⟨index, -, heq⟩ | ⟨-, -, heq⟩ | ⟨e', hget, heq⟩ | ⟨km, -, heq⟩
  · have hbox := affectedBox_of_queryIndex hc (heq.symm.trans h)
    rcases screen.affectedBox_cases source with
      ⟨e', hget, hfail⟩ | ⟨km, e', -, hfault, hfail⟩ | ⟨km, b, -, -, hok⟩
    · obtain rfl := Except.error.inj (hfail.symm.trans hbox)
      exact htable hget
    · obtain ⟨fault, rfl⟩ := hsource.geometry_of_box hfault
      rw [← Except.error.inj (hfail.symm.trans hbox)]
      nofun
    · cases hok.symm.trans hbox
  · cases heq.symm.trans h
  · obtain rfl := Except.error.inj (heq.symm.trans h)
    exact htable hget
  · obtain ⟨fault, rfl⟩ := hsource.geometry_of_sitesWithin hc (heq.symm.trans h)
    nofun

theorem mem_toList_pair {sources : List (Source α)} {item : Paired α} :
    item ∈ (screen.pair sources (some c)).toList ↔
      ∃ source ∈ sources, Pairing.answer screen (some c) source = some item := by
  rw [Pairing.toList_eq_filterMap, List.mem_filterMap]
  rfl

/-- A screen pairs a source with nothing but what it was offered: members of the collection, each
once and in its order, as a view of the same set. This holds whatever the index reports and however
the identifiers are shared. No error is about the collection, and a source that has a box can be
looked up in any index: of the members it gives those that are reported. -/
theorem pairs_within_offered [Trig α] {sources : List (Source α)} (hc : c.Built)
    (hsources : ∀ source ∈ sources,
      (∃ locations radius, source.OfPoints locations radius) ∨
        ∃ id regionType b, source = .ofBox id regionType b) :
    (∀ pair, .ok pair ∈ (screen.pair sources (some c)).toList →
      (∀ s ∈ pair.sites.toList, s ∈ c.toList) ∧ pair.sites.ids.Nodup ∧
        pair.sites.toList.Sublist c.toList ∧ pair.sites.whole = c.whole ∧
        pair.sites.sameOrigin c = true) ∧
    (∀ e, .error e ∈ (screen.pair sources (some c)).toList → e.kind ≠ .badSites) ∧
    ∀ (index : SiteIndex α) (source : Source α),
      (∀ e, screen.queryIndex index source c = .error e → screen.affectedBox source = .error e) ∧
      ∀ b, screen.affectedBox source = .ok b →
        ∃ r, screen.queryIndex index source c = .ok r ∧
          ∀ s, (∃ d ∈ r, s ∈ d.toList) ↔
            s ∈ c.toList ∧ s.id ∈ (screen.frame.split b).flatMap index.within := by
  have hwf := hc.wellFormed
  have hnarrows : ∀ source ∈ sources, source.Narrows := by
    intro source hsource
    rcases hsources source hsource with ⟨locations, radius, hpoints⟩ | ⟨id, regionType, b, rfl⟩
    · exact hpoints.narrows
    · exact Source.ofBox_narrows id regionType b
  refine ⟨?_, ?_, fun index source => ⟨fun e => affectedBox_of_queryIndex hwf, ?_⟩⟩
  · intro pair hpair
    obtain ⟨source, hsource, hanswer⟩ := mem_toList_pair.mp hpair
    have hwithin : pair.sites.Within c := by
      rcases (eq_of_answer hanswer).2 with ⟨-, hall⟩ | hsearch
      · rw [hall]
        exact hwf.within_self
      · exact (search_within (hnarrows source hsource) hwf hsearch).1
    refine ⟨fun s hs => hwithin.sublist.subset hs, hwithin.wellFormed.nodup_ids, hwithin.sublist,
      hwithin.whole, ?_⟩
    simp [SiteCollection.sameOrigin, hwithin.whole]
  · intro e he
    obtain ⟨source, hsource, hanswer⟩ := mem_toList_pair.mp he
    obtain ⟨cause, hsearch, rfl⟩ := eq_of_answer_error hanswer
    have hkind := kind_of_search (hnarrows source hsource) hwf hsearch
    exact hkind
  · intro b hbox
    obtain ⟨r, p, hr, hpart, -, hp⟩ := queryIndex_ok hwf index hbox
    refine ⟨r, hr, fun s => ?_⟩
    rw [hpart.mem_iff]
    exact and_congr_right fun hs => hp s hs

/-- The screen and the caller share an identifier but no set, and each has one of its own. -/
theorem pairs_within_foreign :
    ∃ (own c : SiteCollection ℝ) (cutoffs : CutoffTable ℝ) (pair : AffectedSites ℝ),
      own.Built ∧ c.Built ∧ own.sameOrigin c = false ∧ own.ids = [⟨0⟩, ⟨9⟩] ∧ c.ids = [⟨5⟩, ⟨0⟩] ∧
      (build (some own) cutoffs .scan).usesIndex = true ∧
      .ok pair ∈ ((build (some own) cutoffs .scan).pair [.ofBox "box" "any" ⟨0, -10, 30, 10⟩]
        (some c)).toList ∧
      ⟨⟨0⟩, 10, 0, 0⟩ ∈ pair.sites.toList ∧ pair.sites.toList.Sublist c.toList ∧
      pair.sites.whole = c.whole ∧ pair.sites.sameOrigin c = true := by
  obtain ⟨own, cutoffs, hown, hmembers, huse, hget⟩ :=
    exists_usesIndex (α := ℝ) [⟨⟨0⟩, 10, 0, 0⟩, ⟨⟨9⟩, 20, 0, 0⟩] .scan 100 (fun _ _ => rfl)
      (by simp) (by decide) (by decide) (Scalar.isExtent_exact_iff.mpr (by norm_num))
  obtain ⟨positions, hsites⟩ := SiteCollection.ofSites_ok (own.whole.origin + 1)
    (show ∀ s ∈ ([⟨⟨5⟩, 10, 0, 0⟩, ⟨⟨0⟩, 10, 0, 0⟩] : List (Site ℝ)), s.isFinite = true from
      fun _ _ => rfl) (by decide)
  have hc := SiteCollection.Built.sites hsites
  have hlist := (SiteCollection.wellFormed_of_ofSites hsites).2
  generalize hcollection : (⟨⟨own.whole.origin + 1, _, positions⟩, none⟩ : SiteCollection ℝ) = c
    at hc hlist
  have hb : (⟨0, -10, 30, 10⟩ : Box ℝ).InRange := Box.inRange_iff.mpr (by norm_num)
  have harc : (build (some own) cutoffs .scan).frame.Finds ⟨0, -10, 30, 10⟩ (10 : ℝ) := by
    rw [Frame.finds_iff_onArc _ hb (by norm_num) (by norm_num)]
    · exact ⟨0, by norm_num [Box.width, Box.wraps]⟩
    · intro hcut
      have hcut := hcut.eq_or
      norm_num at hcut
  have hpairs : (build (some own) cutoffs .scan).Pairs [.ofBox "box" "any" ⟨0, -10, 30, 10⟩]
      (some c) (.ofBox "box" "any" ⟨0, -10, 30, 10⟩) ⟨⟨0⟩, 10, 0, 0⟩ := by
    obtain ⟨index, hindex⟩ := exists_indexes huse
    have hgives := hindex.gives hc.wellFormed (by simp [hlist, hmembers]) (hget _)
      (show (Source.ofBox "box" "any" ⟨0, -10, 30, 10⟩).box (100 : ℝ) = .ok _ from rfl) hb
    rw [hgives.pairs_iff hindex.sites_eq rfl (List.mem_singleton_self _)]
    simp only [hlist, hmembers]
    exact ⟨by simp, by simp, by norm_num, harc⟩
  obtain ⟨pair, hpair, -, hs⟩ := hpairs
  have hoffered := (pairs_within_offered hc fun source hsource =>
    .inr ⟨_, _, _, List.mem_singleton.mp hsource⟩).1 pair hpair
  refine ⟨own, c, cutoffs, pair, hown, hc, ?_, ?_, ?_, huse, hpair, hs, hoffered.2.2⟩
  · simp [SiteCollection.sameOrigin, ← hcollection]
  · simp [SiteCollection.ids, hmembers]
  · simp [SiteCollection.ids, hlist]

end Screen

end HazardReach
