import HazardReach.Proofs.Site.Collection
import HazardReach.Screen.Pairing

/-! What a screen does for one source, case by case: how it comes to the box that it asks for, to
what an index gives for the box, to the result of its search and to its answer. -/
namespace HazardReach.Screen

variable {α : Type} [Scalar α] {screen : Screen α} {own c : SiteCollection α} {source : Source α}

theorem build_none (own : Option (SiteCollection α)) (cutoffs : CutoffTable α) :
    build own cutoffs .none = ⟨own, cutoffs, none, .signed⟩ := by
  unfold build
  cases own with
  | none => rfl
  | some c =>
    have hindex : buildIndex c .none = (none, .signed) := by
      unfold buildIndex
      cases c.atSeaLevel <;> rfl
    dsimp only
    rw [hindex, ite_self]

theorem affectedBox_eq {km : α} {b : Box α}
    (hkm : screen.cutoffs.get source.regionType none = .ok km) (hbox : source.box km = .ok b) :
    screen.affectedBox source = .ok (screen.frame.place b) := by
  simp only [affectedBox, bind, Except.bind, hkm, hbox]
  rfl

theorem affectedBox_cases (screen : Screen α) (source : Source α) :
    (∃ e, screen.cutoffs.get source.regionType none = .error e ∧
      screen.affectedBox source = .error e) ∨
    (∃ km e, screen.cutoffs.get source.regionType none = .ok km ∧ source.box km = .error e ∧
      screen.affectedBox source = .error e) ∨
    ∃ km b, screen.cutoffs.get source.regionType none = .ok km ∧ source.box km = .ok b ∧
      screen.affectedBox source = .ok (screen.frame.place b) := by
  cases hkm : screen.cutoffs.get source.regionType none with
  | error e =>
    refine .inl ⟨e, rfl, ?_⟩
    simp only [affectedBox, bind, Except.bind, hkm]
  | ok km =>
    cases hbox : source.box km with
    | error e =>
      refine .inr (.inl ⟨km, e, rfl, hbox, ?_⟩)
      simp only [affectedBox, bind, Except.bind, hkm, hbox]
    | ok b => exact .inr (.inr ⟨km, b, rfl, hbox, affectedBox_eq hkm hbox⟩)

/-- Of what an index reports only members are looked up, so that nothing is unknown. -/
theorem queryIndex_ok (hc : c.WellFormed) (index : SiteIndex α) {b : Box α}
    (hbox : screen.affectedBox source = .ok b) :
    ∃ r p, screen.queryIndex index source c = .ok r ∧ c.Part p r ∧ (∀ d ∈ r, d.whole = c.whole) ∧
      ∀ s ∈ c.toList, p s = true ↔ s.id ∈ (screen.frame.split b).flatMap index.within := by
  let found := ascending (fun id : SiteId => id.val.toNat)
    (((screen.frame.split b).flatMap index.within).filter c.contains)
  have hfound : ∀ id, id ∈ found ↔
      id ∈ (screen.frame.split b).flatMap index.within ∧ c.contains id = true := by
    intro id
    rw [mem_ascending, List.mem_filter]
  obtain ⟨r, hselect, hpart⟩ := hc.select_contained fun id hid => ((hfound id).mp hid).2
  refine ⟨r, _, ?_, hpart, ?_, ?_⟩
  · unfold queryIndex
    rw [hbox]
    change (c.select found).mapError Error.badSites = _
    rw [hselect]
    rfl
  · rintro d rfl
    exact SiteCollection.whole_of_select hselect
  · intro s hs
    rw [List.contains_iff_mem, hfound]
    exact and_iff_left (hc.mem_toList_iff.mp hs).2

theorem queryIndex_error (index : SiteIndex α) {e : Error α}
    (hbox : screen.affectedBox source = .error e) :
    screen.queryIndex index source c = .error e := by
  unfold queryIndex
  rw [hbox]
  rfl

theorem affectedBox_of_queryIndex (hc : c.WellFormed) {index : SiteIndex α} {e : Error α}
    (h : screen.queryIndex index source c = .error e) : screen.affectedBox source = .error e := by
  cases hbox : screen.affectedBox source with
  | ok b =>
    obtain ⟨r, -, hr, -⟩ := queryIndex_ok hc index hbox
    rw [hr] at h
    contradiction
  | error e' =>
    rw [queryIndex_error index hbox] at h
    rw [Except.error.inj h]

/-- A search asks the index, takes everything where the table is empty, or leaves the source to its
own geometry at the cutoff of its region type. -/
theorem search_cases (screen : Screen α) (source : Source α) (c : SiteCollection α) :
    (∃ index, screen.index = some index ∧
      screen.search source c = screen.queryIndex index source c) ∨
    (screen.index = none ∧ screen.cutoffs.isEmpty = true ∧
      screen.search source c = .ok (some c)) ∨
    (∃ e, screen.cutoffs.get source.regionType none = .error e ∧
      screen.search source c = .error e) ∨
    ∃ km, screen.cutoffs.get source.regionType none = .ok km ∧
      screen.search source c = source.sitesWithin km c := by
  unfold search
  cases screen.index with
  | some index => exact .inl ⟨index, rfl, rfl⟩
  | none =>
    cases screen.cutoffs.isEmpty with
    | true => exact .inr (.inl ⟨rfl, rfl, rfl⟩)
    | false =>
      cases screen.cutoffs.get source.regionType none with
      | error e => exact .inr (.inr (.inl ⟨e, rfl, rfl⟩))
      | ok km => exact .inr (.inr (.inr ⟨km, rfl, rfl⟩))

theorem search_eq_sitesWithin (hindex : screen.index = none)
    (hempty : screen.cutoffs.isEmpty = false) {km : α}
    (hkm : screen.cutoffs.get source.regionType none = .ok km) (c : SiteCollection α) :
    screen.search source c = source.sitesWithin km c := by
  unfold search
  rw [hindex, hempty, hkm]
  rfl

theorem answer_of_search (hown : screen.sites = some own) {r : Option (SiteCollection α)}
    (h : screen.search source c = .ok r) :
    Pairing.answer screen (some c) source = r.map fun d => .ok ⟨source, d, d.size⟩ := by
  have haffected : screen.affected source c = .ok (r.map fun d => ⟨source, d, d.size⟩) := by
    unfold affected
    rw [hown, h]
    rfl
  simp only [Pairing.answer, haffected]
  cases r <;> rfl

theorem answer_of_error (hown : screen.sites = some own) {e : Error α}
    (h : screen.search source c = .error e) :
    Pairing.answer screen (some c) source = some (.error (e.inSource source.id)) := by
  have haffected : screen.affected source c = .error (e.inSource source.id) := by
    unfold affected
    rw [hown, h]
    rfl
  simp only [Pairing.answer, haffected]

theorem answer_of_no_sites (hown : screen.sites = none) :
    Pairing.answer screen (some c) source = some (.ok ⟨source, c, c.size⟩) := by
  simp [Pairing.answer, affected, hown]

theorem answer_congr {other : Screen α} (hsites : screen.sites = other.sites)
    (hsearch : screen.search source c = other.search source c) :
    Pairing.answer screen (some c) source = Pairing.answer other (some c) source := by
  have haffected : screen.affected source c = other.affected source c := by
    unfold affected
    rw [hsites, hsearch]
  simp only [Pairing.answer, haffected]

theorem answer_cases (screen : Screen α) (source : Source α) (c : SiteCollection α) :
    (screen.sites = none ∧
      Pairing.answer screen (some c) source = some (.ok ⟨source, c, c.size⟩)) ∨
    (∃ e, screen.search source c = .error e ∧
      Pairing.answer screen (some c) source = some (.error (e.inSource source.id))) ∨
    ∃ r, screen.search source c = .ok r ∧
      Pairing.answer screen (some c) source = r.map fun d => .ok ⟨source, d, d.size⟩ := by
  cases hown : screen.sites with
  | none => exact .inl ⟨rfl, answer_of_no_sites hown⟩
  | some own =>
    cases hsearch : screen.search source c with
    | error e => exact .inr (.inl ⟨e, rfl, answer_of_error hown hsearch⟩)
    | ok r => exact .inr (.inr ⟨r, rfl, answer_of_search hown hsearch⟩)

theorem eq_of_answer {pair : AffectedSites α}
    (h : Pairing.answer screen (some c) source = some (.ok pair)) :
    pair = ⟨source, pair.sites, pair.sites.size⟩ ∧
      ((screen.sites = none ∧ pair.sites = c) ∨
        screen.search source c = .ok (some pair.sites)) := by
  rcases answer_cases screen source c with ⟨hown, heq⟩ | ⟨e, -, heq⟩ | ⟨r, hsearch, heq⟩
  · obtain rfl := Except.ok.inj (Option.some.inj (heq.symm.trans h))
    exact ⟨rfl, .inl ⟨hown, rfl⟩⟩
  · cases Option.some.inj (heq.symm.trans h)
  · rw [heq, Option.map_eq_some_iff] at h
    obtain ⟨d, rfl, hd⟩ := h
    obtain rfl := Except.ok.inj hd
    exact ⟨rfl, .inr hsearch⟩

theorem eq_of_answer_error {e : Error α}
    (h : Pairing.answer screen (some c) source = some (.error e)) :
    ∃ cause, screen.search source c = .error cause ∧ e = cause.inSource source.id := by
  rcases answer_cases screen source c with ⟨hown, heq⟩ | ⟨cause, hsearch, heq⟩ | ⟨r, -, heq⟩
  · cases Option.some.inj (heq.symm.trans h)
  · exact ⟨cause, hsearch, Except.error.inj (Option.some.inj (h.symm.trans heq))⟩
  · rw [heq, Option.map_eq_some_iff] at h
    obtain ⟨d, -, hd⟩ := h
    contradiction

end HazardReach.Screen
