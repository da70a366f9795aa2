import HazardReach.Proofs.Double
import HazardReach.Proofs.Site.Narrowing
import HazardReach.Proofs.Site.Origin
import HazardReach.Proofs.Wire.Forms
import Mathlib.Data.List.Induction

/-! The forms that collections are made of. A form is accepted when its sites are finite and have
identifiers of their own, and its selection, if it has one, names some of them and nothing else. Of
any other form the first thing that is wrong is reported, sites before selections. The collection
keeps of a selection only which sites it names. -/
namespace HazardReach

variable {α : Type} [Scalar α]

theorem Site.same_self [LawfulScalar α] {s : Site α} (h : s.isFinite = true) : s.same s = true := by
  unfold isFinite at h
  simp only [Bool.and_eq_true] at h
  obtain ⟨⟨hlon, hlat⟩, hdepth⟩ := h
  unfold same
  rw [LawfulScalar.beq_self hlon, LawfulScalar.beq_self hlat, LawfulScalar.beq_self hdepth,
    beq_self_eq_true]
  rfl

namespace SiteSet

/-- Finite sites with identifiers of their own. -/
structure Sound (sites : List (Site α)) : Prop where
  finite : ∀ s ∈ sites, s.isFinite = true
  distinct : (sites.map (·.id)).Nodup

/-- What is wrong with a site that follows others. -/
inductive Faulty (before : List (Site α)) (s : Site α) : SitesFault → Prop where
  | notFinite (hfinite : s.isFinite = false) : Faulty before s (.notFinite s.id)
  | repeatedId (hfinite : s.isFinite = true) (hid : s.id ∈ before.map (·.id)) :
      Faulty before s (.repeatedId s.id)

/-- What is wrong with the first site that is not finite or repeats an identifier. -/
def FirstFault (sites : List (Site α)) (fault : SitesFault) : Prop :=
  ∃ before s after, sites = before ++ s :: after ∧ Sound before ∧ Faulty before s fault

theorem FirstFault.append {sites : List (Site α)} {fault : SitesFault}
    (h : FirstFault sites fault) (more : List (Site α)) : FirstFault (sites ++ more) fault := by
  obtain ⟨before, s, after, hsplit, hbefore, hfault⟩ := h
  refine ⟨before, s, after ++ more, ?_, hbefore, hfault⟩
  rw [hsplit, List.append_assoc, List.cons_append]

theorem Sound.concat {sites : List (Site α)} (h : Sound sites) {s : Site α}
    (hfinite : s.isFinite = true) (hid : s.id ∉ sites.map (·.id)) : Sound (sites ++ [s]) where
  finite := List.forall_mem_append.mpr ⟨h.finite, List.forall_mem_singleton.mpr hfinite⟩
  distinct := by
    rw [List.map_append, List.map_singleton, ← List.concat_eq_append]
    exact h.distinct.concat hid

theorem sound_or_firstFault (sites : List (Site α)) :
    Sound sites ∨ ∃ fault, FirstFault sites fault := by
  induction sites using List.reverseRecOn with
  | nil => exact .inl ⟨by simp, .nil⟩
  | append_singleton sites s ih =>
    rcases ih with hsound | ⟨fault, hfault⟩
    · cases hfinite : s.isFinite with
      | false => exact .inr ⟨_, sites, s, [], rfl, hsound, .notFinite hfinite⟩
      | true =>
        by_cases hid : s.id ∈ sites.map (·.id)
        · exact .inr ⟨_, sites, s, [], rfl, hsound, .repeatedId hfinite hid⟩
        · exact .inl (hsound.concat hfinite hid)
    · exact .inr ⟨fault, hfault.append [s]⟩

theorem index_of_firstFault {sites : List (Site α)} {fault : SitesFault}
    (h : FirstFault sites fault) : index sites 0 {} = .error fault := by
  obtain ⟨before, s, after, rfl, hbefore, hfault⟩ := h
  obtain ⟨positions, hinverse, hindex⟩ :=
    index_append Inverse.nil hbefore.finite hbefore.distinct (s :: after)
  refine hindex.trans ?_
  cases hfault with
  | notFinite hfinite => rw [index, if_pos (by simp [hfinite])]
  | repeatedId hfinite hid =>
    have hknown : positions.contains s.id = true := by
      rw [Std.HashMap.contains_iff_mem]
      exact (hinverse.mem_iff s.id).mpr hid
    rw [index, if_neg (by simp [hfinite]), if_pos hknown]

omit [Scalar α] in
theorem resolve_of_unknown {set : SiteSet α} {before : List SiteId} {id : SiteId}
    (hbefore : ∀ known ∈ before, known ∈ set.positions) (hid : id ∉ set.positions)
    (after : List SiteId) : set.resolve (before ++ id :: after) = .error (.unknownId id) := by
  induction before with
  | nil =>
    rw [Std.HashMap.mem_iff_isSome_getElem?, Option.not_isSome_iff_eq_none] at hid
    rw [List.nil_append, resolve, hid]
  | cons known before ih =>
    rw [List.forall_mem_cons] at hbefore
    obtain ⟨i, hi⟩ := Option.isSome_iff_exists.mp
      (Std.HashMap.mem_iff_isSome_getElem?.mp hbefore.1)
    rw [List.cons_append, resolve, hi, ih hbefore.2]
    rfl

end SiteSet

namespace SiteCollection

theorem ofSites_of_firstFault (origin : Nat) {sites : List (Site α)} {fault : SitesFault}
    (h : SiteSet.FirstFault sites fault) : ofSites origin sites = .error fault := by
  rw [ofSites, SiteSet.index_of_firstFault h]
  rfl

theorem Built.same_withOrigin [LawfulScalar α] {c : SiteCollection α} (h : c.Built)
    (origin : Nat) : c.same (c.withOrigin origin) = true := by
  unfold same
  rw [toList_withOrigin]
  apply isEqv_self
  intro s hs
  exact Site.same_self (h.isFinite s (h.wellFormed.mem_toList_iff.mp hs).1)

theorem Built.eq_withOrigin {c d : SiteCollection α} (hc : c.Built) (hd : d.WellFormed)
    {origin : Nat} (hcomplete : ofSites origin c.complete.toList = .ok d.complete)
    (hlist : d.toList = c.toList) : d = c.withOrigin origin := by
  have hsame : d.complete = c.complete.withOrigin origin :=
    Except.ok.inj (hcomplete.symm.trans (hc.ofSites_eq origin))
  have hwhole : d.whole = (c.withOrigin origin).whole := by
    rw [← whole_complete d, hsame]
    rfl
  exact (hc.wellFormed.withOrigin origin).eq_of_toList hd hwhole hlist

end SiteCollection

namespace Wire.SitesForm

/-- The sites that a form selects, which are all of them when it names none. -/
def selected (form : SitesForm α) : List (Site α) :=
  match form.selection with
  | none => form.sites
  | some ids => form.sites.filter fun s => ids.contains s.id

structure Acceptable (form : SitesForm α) : Prop where
  sites : SiteSet.Sound form.sites
  selection : ∀ ids ∈ form.selection, ids ≠ [] ∧ ∀ id ∈ ids, id ∈ form.sites.map (·.id)

/-- What is reported of a form that no collection is made of. -/
inductive Refused (form : SitesForm α) : WireFault α → Prop where
  | badSite {fault : SitesFault} (h : SiteSet.FirstFault form.sites fault) :
      Refused form (.badSites fault)
  | emptySelection (hsites : SiteSet.Sound form.sites) (hselection : form.selection = some []) :
      Refused form .emptySelection
  | unknownId {before after : List SiteId} {id : SiteId} (hsites : SiteSet.Sound form.sites)
      (hselection : form.selection = some (before ++ id :: after))
      (hbefore : ∀ known ∈ before, known ∈ form.sites.map (·.id))
      (hid : id ∉ form.sites.map (·.id)) : Refused form (.badSites (.unknownId id))

/-- Forms of the same sites, of which they name the same, in whatever order and however often. -/
structure SameSelection (form other : SitesForm α) : Prop where
  sites : other.sites = form.sites
  selection : Option.Rel (fun ids ids' => ∀ id, id ∈ ids ↔ id ∈ ids') form.selection
    other.selection

variable {form : SitesForm α}

theorem acceptable_or_refused (form : SitesForm α) :
    form.Acceptable ∨ ∃ fault, form.Refused fault := by
  rcases SiteSet.sound_or_firstFault form.sites with hsites | ⟨fault, hfault⟩
  · cases hselection : form.selection with
    | none => exact .inl ⟨hsites, by simp [hselection]⟩
    | some ids =>
      by_cases hnone : ids = []
      · exact .inr ⟨_, .emptySelection hsites (by rw [hselection, hnone])⟩
      cases hunknown : ids.find? fun id => !(form.sites.map (·.id)).contains id with
      | none =>
        have hknown : ∀ id ∈ ids, id ∈ form.sites.map (·.id) := by
          simpa using List.find?_eq_none.mp hunknown
        refine .inl ⟨hsites, ?_⟩
        intro named hnamed
        obtain rfl : ids = named := Option.some.inj (hselection.symm.trans hnamed)
        exact ⟨hnone, hknown⟩
      | some id =>
        obtain ⟨hid, before, after, hsplit, hbefore⟩ := List.find?_eq_some_iff_append.mp hunknown
        rw [hsplit] at hselection
        refine .inr ⟨_, .unknownId hsites hselection ?_ ?_⟩
        · simpa using hbefore
        · simpa using hid
  · exact .inr ⟨_, .badSite hfault⟩

theorem Refused.toCollection_eq {fault : WireFault α} (h : form.Refused fault) (origin : Nat) :
    form.toCollection origin = .error fault := by
  cases h with
  | badSite hfault =>
    unfold toCollection
    rw [SiteCollection.ofSites_of_firstFault origin hfault]
    rfl
  | emptySelection hsites hselection =>
    obtain ⟨positions, hcomplete⟩ := SiteCollection.ofSites_ok origin hsites.finite hsites.distinct
    rw [SiteCollection.toCollection_of_ofSites hcomplete, hselection]
    rfl
  | @unknownId before after id hsites hselection hbefore hid =>
    obtain ⟨positions, hcomplete⟩ := SiteCollection.ofSites_ok origin hsites.finite hsites.distinct
    have hset := (SiteCollection.wellFormed_of_ofSites hcomplete).1.whole
    simp only [← hset.mem_iff] at hbefore hid
    have hselect : SiteCollection.select ⟨⟨origin, form.sites.toArray, positions⟩, none⟩
        (before ++ id :: after) = .error (.unknownId id) := by
      rw [SiteCollection.select, SiteSet.resolve_of_unknown hbefore hid]
      rfl
    rw [SiteCollection.toCollection_of_ofSites hcomplete, hselection]
    dsimp only
    rw [hselect]

theorem Acceptable.toCollection_ok (h : form.Acceptable) (origin : Nat) :
    ∃ c, form.toCollection origin = .ok c ∧ c.toList = form.selected ∧
      SiteCollection.ofSites origin form.sites = .ok c.complete := by
  obtain ⟨positions, hcomplete⟩ :=
    SiteCollection.ofSites_ok origin h.sites.finite h.sites.distinct
  obtain ⟨hwf, hlist⟩ := SiteCollection.wellFormed_of_ofSites hcomplete
  rw [SiteCollection.toCollection_of_ofSites hcomplete]
  unfold selected
  cases hselection : form.selection with
  | none => exact ⟨_, rfl, hlist, hcomplete⟩
  | some ids =>
    obtain ⟨hne, hknown⟩ := h.selection ids hselection
    have hids : ∀ id ∈ ids, id ∈ positions := fun id hid =>
      (hwf.whole.mem_iff id).mpr (hknown id hid)
    obtain ⟨r, hselect, hnarrowed⟩ := hwf.select_narrowed hids
    have hpicked : (form.sites.filter fun s => ids.contains s.id) ≠ [] := by
      obtain ⟨id, hid⟩ := List.exists_mem_of_ne_nil _ hne
      obtain ⟨s, hs, rfl⟩ := List.mem_map.mp (hknown id hid)
      exact List.ne_nil_of_mem (List.mem_filter.mpr ⟨hs, List.contains_iff_mem.mpr hid⟩)
    have htoList := hnarrowed.toList
    rw [SiteCollection.present_of_ne_nil hpicked, Option.map_eq_some_iff] at htoList
    obtain ⟨c, rfl, hc⟩ := htoList
    dsimp only
    rw [hselect]
    refine ⟨c, rfl, hc, ?_⟩
    rw [hcomplete, SiteCollection.complete, hnarrowed.whole c rfl]

section SameSelection

variable {other : SitesForm α}

omit [Scalar α] in
theorem SameSelection.selected_eq (h : form.SameSelection other) :
    other.selected = form.selected := by
  obtain ⟨hsites, hselection⟩ := h
  unfold selected
  rw [hsites]
  generalize form.selection = own, other.selection = named at hselection
  cases hselection with
  | none => rfl
  | some hids =>
    apply List.filter_congr
    intro s hs
    rw [Bool.eq_iff_iff, List.contains_iff_mem, List.contains_iff_mem, hids]

theorem SameSelection.acceptable (h : form.SameSelection other) (haccepted : form.Acceptable) :
    other.Acceptable := by
  obtain ⟨hsound, hnamed⟩ := haccepted
  refine ⟨h.sites ▸ hsound, ?_⟩
  have hselection := h.selection
  rw [h.sites]
  generalize form.selection = own, other.selection = named at hselection hnamed
  cases hselection with
  | none => simp
  | @some ids ids' hids =>
    obtain ⟨hne, hknown⟩ := hnamed ids rfl
    obtain ⟨id, hid⟩ := List.exists_mem_of_ne_nil _ hne
    intro named hnamed
    obtain rfl : ids' = named := Option.some.inj hnamed
    exact ⟨List.ne_nil_of_mem ((hids id).mp hid), fun id hid => hknown id ((hids id).mpr hid)⟩

end SameSelection

section Accepted

variable {origin : Nat} {c : SiteCollection α} (h : form.toCollection origin = .ok c)

include h

theorem acceptable_of_ok : form.Acceptable := by
  rcases acceptable_or_refused form with haccepted | ⟨fault, hrefused⟩
  · exact haccepted
  · rw [hrefused.toCollection_eq] at h
    contradiction

theorem toList_of_ok : c.toList = form.selected := by
  obtain ⟨d, hd, hlist, -⟩ := (acceptable_of_ok h).toCollection_ok origin
  rwa [Except.ok.inj (h.symm.trans hd)]

theorem ofSites_of_ok : SiteCollection.ofSites origin form.sites = .ok c.complete := by
  obtain ⟨d, hd, -, hcomplete⟩ := (acceptable_of_ok h).toCollection_ok origin
  rwa [Except.ok.inj (h.symm.trans hd)]

theorem sites_of_ok : c.complete.toList = form.sites :=
  (SiteCollection.wellFormed_of_ofSites (ofSites_of_ok h)).2

theorem isComplete_iff_of_ok :
    c.isComplete = true ↔ ∀ ids ∈ form.selection, ∀ s ∈ form.sites, s.id ∈ ids := by
  have hwf := SiteCollection.wellFormed_of_toCollection h
  rw [hwf.isComplete_iff, ← hwf.length_toList, ← hwf.complete.length_toList, sites_of_ok h,
    toList_of_ok h]
  unfold selected
  cases form.selection with
  | none => simp
  | some ids => simp [List.length_filter_eq_length_iff]

theorem SameSelection.toCollection_eq {other : SitesForm α} (hsame : form.SameSelection other)
    (origin' : Nat) : other.toCollection origin' = .ok (c.withOrigin origin') := by
  have haccepted := hsame.acceptable (acceptable_of_ok h)
  obtain ⟨d, hd, hlist, hcomplete⟩ := haccepted.toCollection_ok origin'
  rw [hsame.sites, ← sites_of_ok h] at hcomplete
  rw [hsame.selected_eq, ← toList_of_ok h] at hlist
  rw [hd, SiteCollection.Built.eq_withOrigin (.read h)
    (SiteCollection.wellFormed_of_toCollection hd) hcomplete hlist]

end Accepted

/-- A collection is made of a form exactly when the sites of the form are finite and have distinct
identifiers and its selection is absent or names some of them and nothing else; otherwise what is
reported is the first fault. The members are the selected sites in the order of the form. Selections
that name the same sites make the same collection, one that names every site makes the complete
set, and a collection that is written and read again is made anew, under the new origin. -/
theorem toCollection_acceptance [LawfulScalar α] [NumberText α] (form : SitesForm α)
    (origin : Nat) :
    (∀ text, sitesFormCodec.decode text = .ok form →
      (sitesCodec origin).decode text = form.toCollection origin) ∧
    ((∃ c, form.toCollection origin = .ok c) ↔ form.Acceptable) ∧
    (∀ fault, form.toCollection origin = .error fault ↔ form.Refused fault) ∧
    ∀ c, form.toCollection origin = .ok c →
      c.toList = form.selected ∧ c.complete.toList = form.sites ∧
      (c.isComplete = true ↔ ∀ ids ∈ form.selection, ∀ s ∈ form.sites, s.id ∈ ids) ∧
      (c.isComplete = true → toCollection origin ⟨form.sites, none⟩ = .ok c) ∧
      (∀ other, form.SameSelection other → ∀ origin',
        other.toCollection origin' = .ok (c.withOrigin origin') ∧
          c.same (c.withOrigin origin') = true) ∧
      ∀ origin', ∃ d, (ofCollection c).toCollection origin' = .ok d ∧
        d.toList = c.toList ∧ d.complete.toList = c.complete.toList ∧
        d.isComplete = c.isComplete ∧
        ((∀ s ∈ form.sites, ∀ x ∈ s.numbers, ReadsBack x) →
          (sitesCodec origin').decode ((sitesCodec origin').encode c) = .ok d) := by
  refine ⟨fun text htext => Codec.decode_refine htext _ _, ⟨?_, ?_⟩, ?_, ?_⟩
  · rintro ⟨c, hc⟩
    exact acceptable_of_ok hc
  · intro haccepted
    obtain ⟨c, hc, -⟩ := haccepted.toCollection_ok origin
    exact ⟨c, hc⟩
  · intro fault
    refine ⟨?_, fun hrefused => hrefused.toCollection_eq origin⟩
    intro herror
    rcases acceptable_or_refused form with haccepted | ⟨fault', hrefused⟩
    · obtain ⟨c, hc, -⟩ := haccepted.toCollection_ok origin
      rw [hc] at herror
      contradiction
    · rwa [Except.error.inj (herror.symm.trans (hrefused.toCollection_eq origin))]
  · intro c hc
    have hbuilt : c.Built := .read hc
    refine ⟨toList_of_ok hc, sites_of_ok hc, isComplete_iff_of_ok hc, ?_, ?_, ?_⟩
    · intro hcomplete
      have hself : c.complete = c :=
        SiteCollection.complete_eq_self (Option.isNone_iff_eq_none.mp hcomplete)
      have hsites : SiteCollection.ofSites origin (mk form.sites none).sites = .ok c := by
        rw [ofSites_of_ok hc, hself]
      exact SiteCollection.toCollection_of_ofSites hsites
    · intro other hsame origin'
      exact ⟨hsame.toCollection_eq hc origin', hbuilt.same_withOrigin origin'⟩
    · intro origin'
      have hagain := hbuilt.toCollection_ofCollection origin'
      refine ⟨c.withOrigin origin', hagain, c.toList_withOrigin origin', ?_,
        c.isComplete_withOrigin origin', ?_⟩
      · rw [SiteCollection.complete_withOrigin, SiteCollection.toList_withOrigin]
      · intro hnumbers
        rw [← sites_of_ok hc, SiteCollection.toList_complete] at hnumbers
        exact (sites_carried hnumbers hagain).decode_eq

theorem toCollection_of_repeated : ∃ (form other : SitesForm Float) (c d : SiteCollection Float),
    form.sites.map (·.id) = [⟨7⟩, ⟨3⟩, ⟨5⟩] ∧ form.selection = some [⟨5⟩, ⟨7⟩, ⟨5⟩] ∧
    other.sites = form.sites ∧ other.selection = some [⟨7⟩, ⟨5⟩] ∧
    form.toCollection 0 = .ok c ∧ c.ids = [⟨7⟩, ⟨5⟩] ∧ c.isComplete = false ∧
    other.toCollection 1 = .ok (c.withOrigin 1) ∧ c.same (c.withOrigin 1) = true ∧
    (sitesCodec 2).decode ((sitesCodec 2).encode c) = .ok d ∧ d.ids = [⟨7⟩, ⟨5⟩] ∧
    d.complete.ids = [⟨7⟩, ⟨3⟩, ⟨5⟩] := by
  obtain ⟨-, haccept, -, hspec⟩ := toCollection_acceptance (α := Float)
    ⟨[⟨⟨7⟩, 10.5, 45, 0⟩, ⟨⟨3⟩, 11, 46, 0⟩, ⟨⟨5⟩, 12, 47, 0⟩], some [⟨5⟩, ⟨7⟩, ⟨5⟩]⟩ 0
  obtain ⟨c, hc⟩ := haccept.mpr ⟨⟨by decide, by decide⟩, by
    rintro _ ⟨⟩
    exact ⟨by decide, by decide⟩⟩
  obtain ⟨hmembers, hsites, hcomplete, -, hsame, hagain⟩ := hspec c hc
  have hids : c.ids = [⟨7⟩, ⟨5⟩] := by
    rw [SiteCollection.ids, hmembers]
    rfl
  obtain ⟨hother, hequal⟩ := hsame ⟨_, some [⟨7⟩, ⟨5⟩]⟩ ⟨rfl, .some fun id => by simp; tauto⟩ 1
  obtain ⟨d, -, hlist, hall, -, hdecode⟩ := hagain 2
  refine ⟨⟨_, some [⟨5⟩, ⟨7⟩, ⟨5⟩]⟩, ⟨_, some [⟨7⟩, ⟨5⟩]⟩, c, d, rfl, rfl, rfl, rfl, hc, hids, ?_,
    hother, hequal, hdecode ?_, ?_, ?_⟩
  · rw [Bool.eq_false_iff, ne_eq, hcomplete]
    intro h
    exact absurd (h _ rfl ⟨⟨3⟩, 11, 46, 0⟩ (by simp)) (by decide)
  · simp only [List.forall_mem_cons, Site.numbers]
    exact ⟨⟨rfl, rfl, rfl, by simp⟩, ⟨rfl, rfl, rfl, by simp⟩, ⟨rfl, rfl, rfl, by simp⟩, by simp⟩
  · rw [SiteCollection.ids, hlist]
    exact hids
  · rw [SiteCollection.ids, hall, hsites]
    rfl

end Wire.SitesForm

end HazardReach
