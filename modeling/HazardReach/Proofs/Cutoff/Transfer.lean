import HazardReach.Proofs.Cutoff.Entries

/-! Tables made anew from their own entries. Every entry of an accepted table passes the check as it
is, so that the new table has the same entries and the same curves, and gives the same answers. -/
namespace HazardReach

variable {α : Type}

theorem Cutoff.same_self [Scalar α] [LawfulScalar α] {cutoff : Cutoff α} (h : cutoff.Valid) :
    cutoff.same cutoff = true := by
  cases cutoff with
  | fixed km => exact LawfulScalar.beq_self h.1
  | byMagnitude pairs =>
    apply isEqv_self
    intro p hp
    have hfinite := h.2.1 p hp
    rw [LawfulScalar.beq_self hfinite.1, LawfulScalar.beq_self hfinite.2.1]
    rfl

namespace CutoffTable

theorem toList_foldl_insert (t : Std.TreeMap String (Cutoff α)) :
    (t.toList.foldl (fun t p => t.insert p.1 p.2) (∅ : Std.TreeMap String (Cutoff α))).toList =
      t.toList := by
  apply Std.TreeMap.Equiv.toList_eq
  apply Std.TreeMap.Equiv.of_forall_constGet?_eq
  intro region
  rw [getElem?_foldl_insert, lastGiven?_toList, Std.TreeMap.getElem?_emptyc, Option.or_none]

/-- Tables that agree in their entries and curves. -/
structure Agrees (t u : CutoffTable α) : Prop where
  entries : ∀ region : String, t.entries[region]? = u.entries[region]?
  curves : ∀ region : String, t.curves[region]? = u.curves[region]?

theorem Agrees.toList {t u : CutoffTable α} (h : t.Agrees u) : t.toList = u.toList :=
  Std.TreeMap.Equiv.toList_eq (Std.TreeMap.Equiv.of_forall_constGet?_eq h.entries)

theorem Agrees.isEmpty {t u : CutoffTable α} (h : t.Agrees u) : t.isEmpty = u.isEmpty :=
  Std.TreeMap.Equiv.isEmpty_eq (Std.TreeMap.Equiv.of_forall_constGet?_eq h.entries)

variable [Scalar α]

theorem exists_insertAll {entries : List (String × Cutoff α)}
    (h : ∀ entry ∈ entries, ∃ cutoff, entry.2.check = .ok cutoff) (t : CutoffTable α) :
    ∃ u, t.insertAll entries = .ok u := by
  induction entries generalizing t with
  | nil => exact ⟨t, rfl⟩
  | cons entry rest ih =>
    rw [List.forall_mem_cons] at h
    obtain ⟨⟨cutoff, hcheck⟩, hrest⟩ := h
    rw [← Prod.eta entry, insertAll_cons hcheck]
    exact ih hrest _

theorem Agrees.get {t u : CutoffTable α} (h : t.Agrees u) (region : String)
    (magnitude : Option α) : t.get region magnitude = u.get region magnitude := by
  have hresolve : t.resolve? region = u.resolve? region := by
    unfold resolve?
    rw [h.entries, h.entries]
  unfold CutoffTable.get
  rw [hresolve]
  simp only [h.curves]

variable [LawfulScalar α] {entries : List (String × Cutoff α)} {t u : CutoffTable α}

theorem Keeps.check_entry (h : t.Keeps entries) {region : String} {cutoff : Cutoff α}
    (hentry : t.entries[region]? = some cutoff) : cutoff.check = .ok cutoff := by
  obtain ⟨given, -, hcheck⟩ := h.exists_given hentry
  exact Cutoff.check_of_check hcheck

/-- What keeps the entries of a table agrees with the table. -/
theorem Keeps.agrees (ht : t.Keeps entries) (hu : u.Keeps t.toList) : u.Agrees t := by
  have hentries (region : String) : u.entries[region]? = t.entries[region]? := by
    have hgiven := lastGiven?_toList t.entries region
    cases hentry : t.entries[region]? with
    | none => exact hu.given region (hgiven.trans hentry)
    | some cutoff =>
      obtain ⟨passed, hcheck, hpassed⟩ := hu.passes region cutoff (hgiven.trans hentry)
      rw [ht.check_entry hentry] at hcheck
      rw [hpassed, ← Except.ok.inj hcheck]
  refine ⟨hentries, fun region => Option.ext fun curve => ?_⟩
  rw [hu.curved, ht.curved, hentries]

theorem Keeps.exists_ofEntries (h : t.Keeps entries) :
    ∃ u, ofEntries t.toList = .ok u ∧ u.Agrees t := by
  have hpasses : ∀ entry ∈ t.toList, ∃ cutoff, entry.2.check = .ok cutoff := by
    intro entry hentry
    exact ⟨_, h.check_entry (Std.TreeMap.mem_toList_iff_getElem?_eq_some.mp hentry)⟩
  obtain ⟨u, hu⟩ := exists_insertAll hpasses empty
  exact ⟨u, hu, h.agrees (keeps_of_ofEntries hu)⟩

theorem Keeps.exists_tableOfForm (h : t.Keeps entries) :
    ∃ u, Wire.tableOfForm t.toList = .ok u ∧ u.Agrees t := by
  obtain ⟨u, hu, hagrees⟩ := h.exists_ofEntries
  refine ⟨u, ?_, hagrees⟩
  simp only [Wire.tableOfForm, CutoffTable.toList, toList_foldl_insert]
  rw [← CutoffTable.toList, hu]
  rfl

theorem Keeps.same_of_agrees (ht : t.Keeps entries) (h : u.Agrees t) : u.same t = true := by
  unfold same
  rw [h.toList]
  apply isEqv_self
  intro entry hentry
  have hvalid := ht.valid (Std.TreeMap.mem_toList_iff_getElem?_eq_some.mp hentry)
  rw [beq_self_eq_true, Cutoff.same_self hvalid]
  rfl

end CutoffTable

end HazardReach
