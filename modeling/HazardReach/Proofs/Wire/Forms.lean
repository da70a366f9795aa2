import HazardReach.Proofs.Wire.Record

/-! The wire forms of cutoffs, sites, tables and screens. What is written of each is read back when
its numbers are; what is built anew from it is left to the form. -/
namespace HazardReach

variable {α : Type}

def Cutoff.numbers : Cutoff α → List α
  | fixed km => [km]
  | byMagnitude pairs => pairs.flatMap fun p => [p.1, p.2]

def Site.numbers (s : Site α) : List α := [s.lon, s.lat, s.depth]

/-- The numbers that are written of a screen: those of its complete set and of its table. -/
def Screen.numbers (screen : Screen α) : List α :=
  (screen.sites.elim [] fun c => c.whole.sites.toList.flatMap Site.numbers) ++
    screen.cutoffs.toList.flatMap fun entry => entry.2.numbers

namespace Wire

variable [Scalar α] [NumberText α]

omit [Scalar α] in
theorem pairs_carried {pairs : List (α × α)} (h : ∀ p ∈ pairs, ReadsBack p.1 ∧ ReadsBack p.2) :
    (Codec.list (.pair .number .number)).Carries pairs pairs :=
  .list (List.forall₂_same.mpr fun p hp => .pair (.number (h p hp).1) (.number (h p hp).2))

omit [Scalar α] in
/-- A number is not taken for a list of pairs, and a list of pairs is. -/
theorem cutoff_carried {cutoff : Cutoff α} (h : ∀ x ∈ cutoff.numbers, ReadsBack x) :
    cutoffCodec.Carries cutoff cutoff := by
  cases cutoff with
  | fixed km =>
    have hkm := h km (List.mem_singleton_self km)
    refine ⟨?_, (Codec.Carries.number hkm).opens⟩
    intro s rest hrest hs
    obtain ⟨d, t, hd, hsign⟩ := hkm.head
    have hfirst := hs.trans (trimmed_append hd rest)
    have hne : d ≠ '[' := by
      rintro rfl
      contradiction
    unfold cutoffCodec
    rw [run_ite_peek_ne hfirst hne, run_bind_ok (hkm.reads.run_behind hrest hs hfirst)]
    rfl
  | byMagnitude pairs =>
    have hpairs := pairs_carried fun p hp =>
      ⟨h p.1 (List.mem_flatMap.mpr ⟨p, hp, by simp⟩), h p.2 (List.mem_flatMap.mpr ⟨p, hp, by simp⟩)⟩
    refine ⟨?_, hpairs.opens⟩
    intro s rest hrest hs
    obtain ⟨t, ht⟩ := trimmed_write_list (.pair .number .number) pairs
    have hfirst := hs.trans (trimmed_append ht rest)
    unfold cutoffCodec
    rw [run_ite_peek_eq hfirst, run_bind_ok (hpairs.reads.run_behind hrest hs hfirst)]
    rfl

theorem site_carried {s : Site α} (h : ∀ x ∈ s.numbers, ReadsBack x) :
    siteCodec.Carries s s := by
  simp only [Site.numbers, List.forall_mem_cons] at h
  obtain ⟨hlon, hlat, hdepth, -⟩ := h
  refine .refine (y := (s.id, s.lon, s.lat, s.depth, ()))
    (.record (of_decide_eq_true rfl) ?_) rfl
  exact .required (.id _) (.required (.number hlon) (.required (.number hlat)
    (.withDefault (.number hdepth) trivial)))

theorem sitesForm_carried {form : SitesForm α}
    (h : ∀ s ∈ form.sites, ∀ x ∈ s.numbers, ReadsBack x) : sitesFormCodec.Carries form form := by
  have hsites : (Codec.list siteCodec).Carries form.sites form.sites :=
    .list (List.forall₂_same.mpr fun s hs => site_carried (h s hs))
  refine .refine (y := (form.sites, form.selection, ()))
    (.record (of_decide_eq_true rfl) (.required hsites ⟨?_, trivial⟩)) rfl
  cases form.selection with
  | none => rfl
  | some ids =>
    obtain ⟨t, ht⟩ := trimmed_write_list .id ids
    exact .optional_some (.list (List.forall₂_same.mpr fun id _ => .id id)) ht (by decide)

theorem sites_carried {c d : SiteCollection α} {origin : Nat}
    (h : ∀ s ∈ c.whole.sites.toList, ∀ x ∈ s.numbers, ReadsBack x)
    (hform : (SitesForm.ofCollection c).toCollection origin = .ok d) :
    (sitesCodec origin).Carries c d :=
  .refine (sitesForm_carried h) hform

theorem trimmed_write_sites (origin : Nat) (c : SiteCollection α) :
    ∃ t, trimmed ((sitesCodec origin).write c).toList = '{' :: t :=
  trimmed_write_record _ _

theorem table_carried {t u : CutoffTable α}
    (h : ∀ entry ∈ t.toList, ∀ x ∈ entry.2.numbers, ReadsBack x)
    (hform : tableOfForm t.toList = .ok u) : (tableCodec : Codec α _).Carries t u := by
  refine .refine (.dictionary (List.forall₂_same.mpr fun entry hentry => ⟨rfl, ?_⟩)) hform
  exact cutoff_carried (h entry hentry)

theorem screen_carried {screen : Screen α} {origin : Nat} {sites : Option (SiteCollection α)}
    {cutoffs : CutoffTable α} (h : ∀ x ∈ screen.numbers, ReadsBack x)
    (hsites : Option.Rel (fun c d => (SitesForm.ofCollection c).toCollection origin = .ok d)
      screen.sites sites)
    (hcutoffs : tableOfForm screen.cutoffs.toList = .ok cutoffs) :
    (screenCodec origin).Carries screen (.build sites cutoffs .none) := by
  simp only [Screen.numbers, List.forall_mem_append, List.forall_mem_flatMap] at h
  obtain ⟨hnumbers, hentries⟩ := h
  have hown : (Codec.optional (sitesCodec origin)).Carries screen.sites sites := by
    generalize screen.sites = own at hnumbers hsites ⊢
    cases hsites with
    | none => exact .optional_none _
    | @some c d hform =>
      rw [Option.elim_some, List.forall_mem_flatMap] at hnumbers
      obtain ⟨t, ht⟩ := trimmed_write_sites origin c
      exact .optional_some (sites_carried hnumbers hform) ht (by decide)
  exact .refine (y := (sites, cutoffs, ()))
    (.record (of_decide_eq_true rfl) ⟨hown, .required (table_carried hentries hcutoffs) trivial⟩)
    rfl

end Wire

end HazardReach
