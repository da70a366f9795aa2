import HazardReach.Proofs.Screen.Search
import HazardReach.Proofs.Sphere.Turns

/-! The sequence of pairs, source by source. One step passes over the sources that give nothing and
stops behind the one that gives an item, so that a run of any length has looked at a front part of
the sources and no further, and its items are the answers to them. -/
namespace HazardReach

variable {α : Type} [Scalar α]

namespace Pairing

/-- One step ends without an item where no source has an answer, and else stops behind the first
source that has one. -/
theorem nextOf_cases (screen : Screen α) (sites : Option (SiteCollection α))
    (pending : List (Source α)) :
    (nextOf screen sites pending = none ∧ ∀ source ∈ pending, answer screen sites source = none) ∨
    ∃ skipped source rest item, pending = skipped ++ source :: rest ∧
      (∀ other ∈ skipped, answer screen sites other = none) ∧
      answer screen sites source = some item ∧
      nextOf screen sites pending = some (item, ⟨screen, sites, rest⟩) := by
  induction pending with
  | nil => exact .inl ⟨rfl, by simp⟩
  | cons source rest ih =>
    cases hanswer : answer screen sites source with
    | some item =>
      exact .inr ⟨[], source, rest, item, rfl, by simp, hanswer, by simp [nextOf, hanswer]⟩
    | none =>
      have hnext : nextOf screen sites (source :: rest) = nextOf screen sites rest := by
        simp [nextOf, hanswer]
      rcases ih with ⟨hnone, hall⟩ | ⟨skipped, found, behind, item, rfl, hskipped, hitem, hsome⟩
      · exact .inl ⟨hnext.trans hnone, List.forall_mem_cons.mpr ⟨hanswer, hall⟩⟩
      · exact .inr ⟨source :: skipped, found, behind, item, rfl,
          List.forall_mem_cons.mpr ⟨hanswer, hskipped⟩, hitem, hnext.trans hsome⟩

/-- What a run of `n` items has done when it has looked at `looked`: it gave the answers to these
sources, the last of them for its last item, or ran out of sources before. -/
structure Ran (p : Pairing α) (n : Nat) (looked : List (Source α)) : Prop where
  left_eq : (p.take n).2 = ⟨p.screen, p.sites, (p.take n).2.pending⟩
  pending_eq : p.pending = looked ++ (p.take n).2.pending
  items_eq : (p.take n).1 = looked.filterMap (answer p.screen p.sites)
  stops : (p.take n).1.length = n ∧
      (∀ source ∈ looked.getLast?, (answer p.screen p.sites source).isSome) ∨
    (p.take n).1.length < n ∧ (p.take n).2.pending = []

theorem Ran.exhausted {p : Pairing α} (n : Nat) (hnext : p.next? = none)
    (hall : ∀ source ∈ p.pending, answer p.screen p.sites source = none) :
    p.Ran (n + 1) p.pending := by
  have htake : p.take (n + 1) = ([], { p with pending := [] }) := by
    simp only [take, hnext]
  constructor <;> rw [htake]
  · simp
  · exact (List.filterMap_eq_nil_iff.mpr hall).symm
  · exact .inr ⟨by simp, rfl⟩

theorem Ran.step {p : Pairing α} {skipped rest looked : List (Source α)} {source : Source α}
    {item : Paired α} {n : Nat} (hpending : p.pending = skipped ++ source :: rest)
    (hskipped : ∀ other ∈ skipped, answer p.screen p.sites other = none)
    (hitem : answer p.screen p.sites source = some item)
    (hnext : p.next? = some (item, ⟨p.screen, p.sites, rest⟩))
    (hran : Ran ⟨p.screen, p.sites, rest⟩ n looked) :
    p.Ran (n + 1) (skipped ++ source :: looked) := by
  have htake : p.take (n + 1) = (item :: (take n ⟨p.screen, p.sites, rest⟩).1,
      (take n ⟨p.screen, p.sites, rest⟩).2) := by
    simp only [take, hnext]
  constructor <;> rw [htake]
  · exact hran.left_eq
  · rw [hpending, List.append_assoc, List.cons_append]
    congr 2
    exact hran.pending_eq
  · rw [List.filterMap_append, List.filterMap_eq_nil_iff.mpr hskipped,
      List.filterMap_cons_some hitem, hran.items_eq]
    rfl
  · rcases hran.stops with ⟨hlength, hlast⟩ | ⟨hlength, hleft⟩
    · refine .inl ⟨by simp [hlength], ?_⟩
      intro last hmem
      rw [List.getLast?_append, List.getLast?_cons, Option.some_or] at hmem
      obtain rfl := Option.some.inj hmem
      cases hlooked : looked.getLast? with
      | none => simp [hitem]
      | some found => exact hlast found hlooked
    · exact .inr ⟨by simpa using hlength, hleft⟩

theorem exists_ran (p : Pairing α) (n : Nat) : ∃ looked, p.Ran n looked := by
  induction n generalizing p with
  | zero => exact ⟨[], rfl, rfl, rfl, .inl ⟨rfl, by simp⟩⟩
  | succ n ih =>
    rcases nextOf_cases p.screen p.sites p.pending with
      ⟨hnone, hall⟩ | ⟨skipped, source, rest, item, hpending, hskipped, hitem, hsome⟩
    · exact ⟨p.pending, .exhausted n hnone hall⟩
    · obtain ⟨looked, hran⟩ := ih ⟨p.screen, p.sites, rest⟩
      exact ⟨_, hran.step hpending hskipped hitem hsome⟩

theorem toList_eq_append (p : Pairing α) (n : Nat) :
    p.toList = (p.take n).1 ++ (p.take n).2.toList := by
  obtain ⟨looked, hran⟩ := p.exists_ran n
  rw [toList_eq_filterMap, hran.items_eq, hran.left_eq, toList_eq_filterMap,
    ← List.filterMap_append, ← hran.pending_eq]

theorem items_take (p : Pairing α) (n : Nat) : (p.take n).1 = p.toList.take n := by
  obtain ⟨looked, hran⟩ := p.exists_ran n
  rw [p.toList_eq_append n]
  rcases hran.stops with ⟨hlength, -⟩ | ⟨hlength, hleft⟩
  · exact (List.take_left' hlength).symm
  · rw [toList_eq_filterMap, hleft, List.filterMap_nil, List.append_nil,
      List.take_of_length_le hlength.le]

theorem length_toList_le (p : Pairing α) : p.toList.length ≤ p.sizeHint.2 := by
  rw [toList_eq_filterMap]
  exact List.length_filterMap_le _ _

end Pairing

namespace Screen

variable {screen : Screen α} {sites : Option (SiteCollection α)}

/-- The whole sequence of pairs and errors for a list of sources. -/
def items (screen : Screen α) (sites : Option (SiteCollection α)) (sources : List (Source α)) :
    List (Paired α) :=
  (screen.pair sources sites).toList

theorem items_eq (screen : Screen α) (sites : Option (SiteCollection α))
    (sources : List (Source α)) :
    screen.items sites sources =
      sources.filterMap (Pairing.answer screen (sites.or screen.sites)) :=
  Pairing.toList_eq_filterMap _

theorem closeSites_eq (screen : Screen α) (source : Source α) :
    screen.closeSites source =
      match screen.items none [source] with
      | [] => .ok none
      | .ok pair :: _ => .ok (some pair.sites)
      | .error e :: _ => .error e := by
  rw [items_eq]
  unfold closeSites Pairing.next? pair
  simp only [Pairing.nextOf, List.filterMap_cons, List.filterMap_nil]
  cases Pairing.answer screen (Option.or none screen.sites) source with
  | none => rfl
  | some item => cases item <;> rfl

theorem answer_tagged {source : Source α} {e : Error α}
    (h : Pairing.answer screen sites source = some (.error e)) :
    ∃ cause : Error α, e = cause.inSource source.id := by
  cases sites with
  | none => exact ⟨_, (Except.error.inj (Option.some.inj h)).symm⟩
  | some c =>
    obtain ⟨cause, -, he⟩ := eq_of_answer_error h
    exact ⟨cause, he⟩

theorem answer_counted {source : Source α} {found : AffectedSites α}
    (h : Pairing.answer screen sites source = some (.ok found)) :
    found.source = source ∧ found.siteCount = found.sites.size := by
  cases sites with
  | none => cases Option.some.inj h
  | some c =>
    rw [(eq_of_answer h).1]
    exact ⟨rfl, rfl⟩

theorem siteCount_pos {own c : SiteCollection α} {source : Source α} {found : AffectedSites α}
    (hown : screen.sites = some own) (hempty : screen.cutoffs.isEmpty = false) (hc : c.Built)
    (hsource : source.Narrows)
    (h : Pairing.answer screen (some c) source = some (.ok found)) : 0 < found.siteCount := by
  rcases (eq_of_answer h).2 with ⟨hnone, -⟩ | hsearch
  · rw [hown] at hnone
    contradiction
  · obtain ⟨hwithin, hne⟩ := search_within hsource hc.wellFormed hsearch
    rw [(answer_counted h).2, ← hwithin.wellFormed.length_toList]
    exact List.length_pos_iff.mpr (hne hempty)

theorem items_of_no_sites (h : screen.sites = none) (sites : Option (SiteCollection α))
    (sources : List (Source α)) :
    screen.items sites sources = sources.map fun source =>
      match sites with
      | some c => .ok ⟨source, c, c.size⟩
      | none => .error ((Error.badSites .noCollection).inSource source.id) := by
  rw [items_eq, h, Option.or_none, ← List.filterMap_eq_map]
  apply List.filterMap_congr
  intro source hsource
  cases sites with
  | none => rfl
  | some c => exact answer_of_no_sites h

theorem items_of_empty {own c : SiteCollection α} (hown : screen.sites = some own)
    (hindex : screen.index = none) (hempty : screen.cutoffs.isEmpty = true)
    (hchosen : sites.or (some own) = some c) (sources : List (Source α)) :
    screen.items sites sources = sources.map fun source => .ok ⟨source, c, c.size⟩ := by
  rw [items_eq, hown, hchosen, ← List.filterMap_eq_map]
  apply List.filterMap_congr
  intro source hsource
  have hsearch : screen.search source c = .ok (some c) := by
    unfold search
    rw [hindex, hempty]
    rfl
  exact answer_of_search hown hsearch

theorem index_build_of_isEmpty {own : Option (SiteCollection α)} {cutoffs : CutoffTable α}
    (hempty : cutoffs.isEmpty = true) (kind : IndexKind) :
    (build own cutoffs kind).index = none := by
  unfold build
  rw [hempty]
  cases own <;> rfl

/-- The screen answers each source on its own, in order, with at most one item. -/
structure AnswersInOrder (screen : Screen α) (sites : Option (SiteCollection α)) : Prop where
  eq_filterMap : ∀ sources, screen.items sites sources =
    sources.filterMap (Pairing.answer screen (sites.or screen.sites))
  append : ∀ front back, screen.items sites (front ++ back) =
    screen.items sites front ++ screen.items sites back
  /-- The items of other sources stay what they are beside one that fails. -/
  failing : ∀ front source back e,
    Pairing.answer screen (sites.or screen.sites) source = some (.error e) →
    (∃ cause : Error α, e = cause.inSource source.id) ∧
      screen.items sites (front ++ source :: back) =
        screen.items sites front ++ .error e :: screen.items sites back
  /-- Taking items looks no further than the source that gives the last one. -/
  taken : ∀ sources n, (∃ looked, (screen.pair sources sites).Ran n looked) ∧
    ((screen.pair sources sites).take n).1 = (screen.items sites sources).take n
  /-- The number of items to come is bounded at every moment. -/
  sizeHint : ∀ sources n,
    ((screen.pair sources sites).take n).2.toList.length ≤
      ((screen.pair sources sites).take n).2.sizeHint.2
  closeSites : ∀ source, screen.closeSites source =
    match screen.items none [source] with
    | [] => .ok none
    | .ok found :: _ => .ok (some found.sites)
    | .error e :: _ => .error e
  counted : ∀ sources found, .ok found ∈ screen.items sites sources →
    found.source ∈ sources ∧ found.siteCount = found.sites.size

theorem answersInOrder (screen : Screen α) (sites : Option (SiteCollection α)) :
    screen.AnswersInOrder sites where
  eq_filterMap := screen.items_eq sites
  append front back := by simp only [items_eq, List.filterMap_append]
  failing front source back e h := by
    refine ⟨answer_tagged h, ?_⟩
    simp only [items_eq, List.filterMap_append, List.filterMap_cons_some h]
  taken sources n := ⟨Pairing.exists_ran _ n, Pairing.items_take _ n⟩
  sizeHint sources n := Pairing.length_toList_le _
  closeSites := screen.closeSites_eq
  counted sources found h := by
    rw [items_eq] at h
    obtain ⟨source, hsource, hanswer⟩ := List.mem_filterMap.mp h
    obtain ⟨hsame, hcount⟩ := answer_counted hanswer
    rw [hsame]
    exact ⟨hsource, hcount⟩

/-- Every screen answers its sources in order and one by one. Over sites of its own and a table with
entries it pairs sources at points with one site at least, and with an empty table every source with
all the sites that are chosen. Without sites it passes every source through with those of the
caller, or fails for every source where there are none. -/
theorem items_build [Trig α] (own : Option (SiteCollection α)) (cutoffs : CutoffTable α)
    (kind : IndexKind) (sites : Option (SiteCollection α)) (sources : List (Source α)) :
    (build own cutoffs kind).AnswersInOrder sites ∧
    (∀ c, sites.or own = some c → c.Built → own ≠ none → cutoffs.isEmpty = false →
      ∀ found, .ok found ∈ (build own cutoffs kind).items sites sources →
        (∃ locations radius, found.source.OfPoints locations radius) → 0 < found.siteCount) ∧
    (∀ c, sites.or own = some c → own ≠ none → cutoffs.isEmpty = true →
      (build own cutoffs kind).items sites sources =
        sources.map fun source => .ok ⟨source, c, c.size⟩) ∧
    (own = none → (build own cutoffs kind).items sites sources =
      sources.map fun source =>
        match sites with
        | some c => .ok ⟨source, c, c.size⟩
        | none => .error ((Error.badSites .noCollection).inSource source.id)) := by
  refine ⟨answersInOrder _ sites, ?_, ?_, ?_⟩
  · intro c hchosen hc hown hempty found hfound hsource
    obtain ⟨mine, rfl⟩ := Option.ne_none_iff_exists'.mp hown
    rw [items_eq] at hfound
    obtain ⟨source, -, hanswer⟩ := List.mem_filterMap.mp hfound
    change Pairing.answer _ (sites.or (some mine)) source = _ at hanswer
    rw [hchosen] at hanswer
    rw [(answer_counted hanswer).1] at hsource
    obtain ⟨locations, radius, hpoints⟩ := hsource
    exact siteCount_pos rfl hempty hc hpoints.narrows hanswer
  · intro c hchosen hown hempty
    obtain ⟨mine, rfl⟩ := Option.ne_none_iff_exists'.mp hown
    exact items_of_empty rfl (index_build_of_isEmpty hempty kind) hempty hchosen sources
  · intro hown
    rw [hown]
    exact items_of_no_sites rfl sites sources

private theorem answer_point {own : SiteCollection ℝ} {cutoffs : CutoffTable ℝ} {t : Site ℝ}
    (hown : own.Built) (hlist : own.toList = [t]) (hempty : cutoffs.isEmpty = false)
    (hget : ∀ region, cutoffs.get region none = .ok 100) (s : PointSource ℝ) :
    (s.location.epicentral t.location ≤ 100 + s.maxRuptureRadius →
      ∃ found, found.source = s.toSource ∧
        Pairing.answer (build (some own) cutoffs .none) (some own) s.toSource =
          some (.ok found)) ∧
    (¬s.location.epicentral t.location ≤ 100 + s.maxRuptureRadius →
      Pairing.answer (build (some own) cutoffs .none) (some own) s.toSource = none) := by
  have hbox := s.box_eq (show (0 : ℝ) ≤ 100 by norm_num)
  obtain ⟨r, hr, hpart⟩ := (Source.OfPoints.point s).sitesWithin hbox hown.wellFormed
  have hanswer : Pairing.answer (build (some own) cutoffs .none) (some own) s.toSource =
      r.map fun d => .ok ⟨s.toSource, d, d.size⟩ := by
    refine answer_of_search rfl ?_
    rw [search_eq_sitesWithin (index_build_none own cutoffs) hempty (hget _), hr]
  have htoList := hpart.toList
  rw [hlist] at htoList
  constructor
  · intro hnear
    rw [List.filter_eq_self.mpr (by simpa [Site.isReached_iff] using hnear)] at htoList
    obtain ⟨d, rfl, -⟩ := Option.map_eq_some_iff.mp htoList
    exact ⟨_, rfl, hanswer⟩
  · intro hfar
    rw [List.filter_eq_nil_iff.mpr (by simpa [Site.isReached_iff] using hfar)] at htoList
    rw [hanswer, Option.map_eq_none_iff.mp htoList]
    rfl

section Mixed

/-- A source without a location. -/
def nowhere [Trig α] : Source α := MultiPointSource.toSource ⟨"broken", "any", [], [], 0, 0, 0⟩

def atZeroMeridian [Trig α] : Source α :=
  PointSource.toSource ⟨"far", "any", ⟨0, 0, 0⟩, [], 0, 0, 0⟩

def atDateLine [Trig α] : Source α :=
  PointSource.toSource ⟨"near", "any", ⟨180, 0, 0⟩, [], 0, 0, 0⟩

private theorem answer_nowhere {own : SiteCollection ℝ} {cutoffs : CutoffTable ℝ}
    (hempty : cutoffs.isEmpty = false) (hget : ∀ region, cutoffs.get region none = .ok 100) :
    Pairing.answer (build (some own) cutoffs .none) (some own) nowhere =
      some (.error (.inSource "broken" (.geometry .noLocations))) := by
  have hreach : Source.checkReach (100 : ℝ) = .ok () :=
    Source.checkReach_ok_iff.mpr (by norm_num)
  refine answer_of_error rfl ?_
  rw [search_eq_sitesWithin (index_build_none own cutoffs) hempty (hget _)]
  simp only [nowhere, MultiPointSource.toSource, hreach]
  rfl

theorem items_mixed :
    ∃ (own : SiteCollection ℝ) (cutoffs : CutoffTable ℝ) (found : AffectedSites ℝ),
      own.toList = [⟨⟨0⟩, 180, 0, 0⟩] ∧ cutoffs.get "any" none = .ok 100 ∧
      (build (some own) cutoffs .none).items none [nowhere, atZeroMeridian, atDateLine] =
        [.error (.inSource "broken" (.geometry .noLocations)), .ok found] ∧
      found.source = atDateLine ∧ 0 < found.siteCount ∧
      (build (some own) .empty .tree).items none [nowhere] = [.ok ⟨nowhere, own, own.size⟩] ∧
      (build none cutoffs .none).items none [nowhere] =
        [.error (.inSource "broken" (.badSites .noCollection))] := by
  obtain ⟨own, cutoffs, hown, hlist, huse, hget⟩ :=
    exists_usesIndex (α := ℝ) [⟨⟨0⟩, 180, 0, 0⟩] .scan 100 (fun _ _ => rfl) (by simp) (by simp)
      (by decide) (Scalar.isExtent_exact_iff.mpr (by norm_num))
  have hempty := (usesIndex_build_iff.mp huse).1
  have hfar : Pairing.answer (build (some own) cutoffs .none) (some own) atZeroMeridian = none := by
    apply (answer_point hown hlist hempty hget _).2
    change ¬Sphere.distance 0 0 180 0 ≤ 100 + (0 : ℝ)
    have hpi := Real.pi_gt_three
    have hacross := Sphere.distance_across_pole 0 (le_refl (0 : ℝ)) (by norm_num)
    rw [zero_add] at hacross
    rw [hacross]
    linarith
  obtain ⟨found, hsource, hnear⟩ :
      ∃ found, found.source = atDateLine ∧
        Pairing.answer (build (some own) cutoffs .none) (some own) atDateLine =
          some (.ok found) := by
    apply (answer_point hown hlist hempty hget _).1
    change Sphere.distance 180 0 180 0 ≤ 100 + (0 : ℝ)
    rw [Sphere.distance_refl]
    norm_num
  obtain ⟨horder, hpositive, -⟩ :=
    items_build (some own) cutoffs .none none [nowhere, atZeroMeridian, atDateLine]
  have hrest : (build (some own) cutoffs .none).items none [atZeroMeridian, atDateLine] =
      [.ok found] := by
    rw [horder.eq_filterMap]
    change [atZeroMeridian, atDateLine].filterMap
      (Pairing.answer (build (some own) cutoffs .none) (some own)) = _
    rw [List.filterMap_cons_none hfar, List.filterMap_cons_some hnear, List.filterMap_nil]
  have hitems : (build (some own) cutoffs .none).items none [nowhere, atZeroMeridian, atDateLine] =
      [.error (.inSource "broken" (.geometry .noLocations)), .ok found] := by
    have hfailing := (horder.failing [] nowhere [atZeroMeridian, atDateLine] _
      (answer_nowhere hempty hget)).2
    rw [hrest] at hfailing
    exact hfailing
  refine ⟨own, cutoffs, found, hlist, hget _, hitems, hsource, ?_, ?_, ?_⟩
  · refine hpositive own rfl hown (by simp) hempty found (by simp [hitems]) ?_
    rw [hsource]
    exact ⟨_, _, .point _⟩
  · exact (items_build (some own) .empty .tree none [nowhere]).2.2.1 own rfl (by simp) rfl
  · exact (items_build none cutoffs .none none [nowhere]).2.2.2 rfl

end Mixed

end Screen

end HazardReach
