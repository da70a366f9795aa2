import HazardReach.Proofs.Cutoff.Check

/-! Accepted tables. Every entry of an accepted table gives a distance, so that a table with
entries answers for some region type. -/
namespace HazardReach

variable {α : Type} [Scalar α]

namespace Cutoff

/-- Entries that give a distance where no magnitude is known. -/
def Accepted : Cutoff α → Prop
  | fixed _ => True
  | byMagnitude pairs => pairs ≠ []

theorem accepted_of_check {cutoff result : Cutoff α} (h : cutoff.check = .ok result) :
    result.Accepted := by
  obtain ⟨km, -, rfl, -⟩ | ⟨pairs, -, rfl, hne, -, -⟩ := check_cases h
  · trivial
  · exact sorted_ne_nil hne

end Cutoff

namespace CutoffTable

def Accepted (t : CutoffTable α) : Prop :=
  ∀ (region : String) (cutoff : Cutoff α), t.entries[region]? = some cutoff → cutoff.Accepted

theorem accepted_of_insertAll {entries : List (String × Cutoff α)} {t result : CutoffTable α}
    (ht : t.Accepted) (h : t.insertAll entries = .ok result) : result.Accepted := by
  induction entries generalizing t with
  | nil =>
    rw [← Except.ok.inj h]
    exact ht
  | cons entry rest ih =>
    unfold insertAll at h
    split at h
    · rename_i cutoff hcheck
      apply ih ?_ h
      intro region found hfound
      change (t.entries.insert entry.1 cutoff)[region]? = some found at hfound
      rw [Std.TreeMap.getElem?_insert] at hfound
      split at hfound
      · rw [← Option.some.inj hfound]
        exact Cutoff.accepted_of_check hcheck
      · exact ht region found hfound
    · contradiction

theorem accepted_of_ofEntries {entries : List (String × Cutoff α)} {t : CutoffTable α}
    (h : ofEntries entries = .ok t) : t.Accepted := by
  apply accepted_of_insertAll ?_ h
  intro region cutoff hcutoff
  change (∅ : Std.TreeMap String (Cutoff α))[region]? = some cutoff at hcutoff
  rw [Std.TreeMap.getElem?_emptyc] at hcutoff
  contradiction

theorem Accepted.exists_get {t : CutoffTable α} (h : t.Accepted) (hne : t.isEmpty = false) :
    ∃ region km, t.get region none = .ok km := by
  obtain ⟨region, hregion⟩ := Std.TreeMap.isEmpty_eq_false_iff_exists_mem.mp hne
  obtain ⟨cutoff, hcutoff⟩ :=
    Option.isSome_iff_exists.mp (Std.TreeMap.mem_iff_isSome_getElem?.mp hregion)
  have haccepted := h region cutoff hcutoff
  refine ⟨region, ?_⟩
  unfold get resolve?
  rw [hcutoff]
  cases cutoff with
  | fixed km => exact ⟨km, rfl⟩
  | byMagnitude pairs =>
    simp only [List.getLast?_eq_some_getLast haccepted]
    exact ⟨_, rfl⟩

theorem kind_of_get {t : CutoffTable α} {region : String} {magnitude : Option α} {e : Error α}
    (h : t.get region magnitude = .error e) : e.kind = .missingRegion ∨ e.kind = .badEntry := by
  unfold get at h
  split at h
  · rw [← Except.error.inj h]
    exact .inl rfl
  · contradiction
  · split at h
    · contradiction
    · rw [← Except.error.inj h]
      exact .inr rfl
  · split at h
    · contradiction
    · rw [← Except.error.inj h]
      exact .inr rfl

theorem exists_fixed {km : α} (h : Scalar.isExtent km = true) :
    ∃ t, fixed km = .ok t ∧ t.isEmpty = false ∧
      ∀ region magnitude, t.get region magnitude = .ok km := by
  refine ⟨empty.insert defaultRegion (.fixed km), ?_, ?_, ?_⟩
  · simp only [fixed, ofEntries, insertAll, Cutoff.check, h, if_true]
  · exact Std.TreeMap.isEmpty_insert
  · intro region magnitude
    have hentry : ∀ key, (empty.insert defaultRegion (.fixed km)).entries[key]? =
        if compare defaultRegion key = .eq then some (Cutoff.fixed km) else none := by
      intro key
      change ((∅ : Std.TreeMap String (Cutoff α)).insert defaultRegion (.fixed km))[key]? = _
      rw [Std.TreeMap.getElem?_insert, Std.TreeMap.getElem?_emptyc]
    unfold get resolve?
    rw [hentry, hentry, if_pos Std.ReflCmp.compare_self]
    by_cases hregion : compare defaultRegion region = .eq
    · rw [if_pos hregion]
    · rw [if_neg hregion]
      rfl

end CutoffTable

end HazardReach
