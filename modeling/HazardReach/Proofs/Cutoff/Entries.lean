import HazardReach.Proofs.Cutoff.Check
import HazardReach.Proofs.Double
import HazardReach.Proofs.Wire.Reading
import HazardReach.Wire.Forms
import Mathlib.Tactic.Common

/-! The entries of a table, and what it answers. A table is made by adding entries from the left, or
by reading a text, where the last of repeated keys counts before anything is checked. Both ways it
holds the last entry given for each key, checked, and a curve for just the entries that are given by
magnitude, so that looking up fails for want of an entry only. -/
namespace HazardReach

open Scalar

variable {α : Type}

namespace CutoffTable

/-- The last entry given for a region type. -/
def lastGiven? (entries : List (String × Cutoff α)) (region : String) : Option (Cutoff α) :=
  (entries.reverse.find? (·.1 == region)).map (·.2)

section LastGiven

variable {entries rest : List (String × Cutoff α)} {region key : String} {cutoff : Cutoff α}

theorem lastGiven?_cons :
    lastGiven? ((key, cutoff) :: rest) region =
      (lastGiven? rest region).or (if key = region then some cutoff else none) := by
  unfold lastGiven?
  rw [List.reverse_cons, List.find?_append, Option.map_or, List.find?_singleton]
  by_cases h : key = region <;> simp [h]

theorem isSome_lastGiven?_iff :
    (lastGiven? entries region).isSome = true ↔ ∃ given, (region, given) ∈ entries := by
  unfold lastGiven?
  rw [Option.isSome_map, List.find?_isSome]
  constructor
  · rintro ⟨⟨_, given⟩, hmem, hkey⟩
    obtain rfl := eq_of_beq hkey
    exact ⟨given, List.mem_reverse.mp hmem⟩
  · rintro ⟨given, hmem⟩
    exact ⟨_, List.mem_reverse.mpr hmem, beq_self_eq_true region⟩

theorem getElem?_foldl_insert (entries : List (String × Cutoff α))
    (t : Std.TreeMap String (Cutoff α)) (region : String) :
    (entries.foldl (fun t p => t.insert p.1 p.2) t)[region]? =
      (lastGiven? entries region).or t[region]? := by
  induction entries generalizing t with
  | nil => rfl
  | cons entry rest ih =>
    rw [List.foldl_cons, ih, Std.TreeMap.getElem?_insert, lastGiven?_cons, Option.or_assoc]
    congr 1
    by_cases h : entry.1 = region
    · rw [if_pos h, h, if_pos Std.ReflCmp.compare_self, Option.some_or]
    · rw [if_neg h, if_neg (mt Std.LawfulEqCmp.eq_of_compare h), Option.none_or]

theorem lastGiven?_toList (t : Std.TreeMap String (Cutoff α)) (region : String) :
    lastGiven? t.toList region = t[region]? := by
  unfold lastGiven?
  cases hfind : t.toList.reverse.find? (·.1 == region) with
  | none =>
    cases hentry : t[region]? with
    | none => rfl
    | some cutoff =>
      have hmem := List.mem_reverse.mpr (Std.TreeMap.mem_toList_iff_getElem?_eq_some.mpr hentry)
      exact absurd (beq_self_eq_true region) (List.find?_eq_none.mp hfind _ hmem)
  | some entry =>
    have hmem := List.mem_reverse.mp (List.mem_of_find?_eq_some hfind)
    have hbeq := List.find?_some hfind
    have hkey : entry.1 = region := eq_of_beq hbeq
    rw [← hkey, Std.TreeMap.mem_toList_iff_getElem?_eq_some.mp hmem]
    rfl

end LastGiven

/-- Every curve goes through the pairs of its entry, and every entry by magnitude has one. -/
def Curved (t : CutoffTable α) : Prop :=
  ∀ (region : String) (curve : Curve α), t.curves[region]? = some curve ↔
    t.entries[region]? = some (Cutoff.byMagnitude curve.knots)

theorem curved_empty : (empty : CutoffTable α).Curved := by
  intro region curve
  have hentries : (empty : CutoffTable α).entries[region]? = none := Std.TreeMap.getElem?_emptyc
  have hcurves : (empty : CutoffTable α).curves[region]? = none := Std.HashMap.getElem?_empty
  rw [hentries, hcurves]
  simp

theorem getElem?_entries_insert (t : CutoffTable α) (key region : String) (cutoff : Cutoff α) :
    (t.insert key cutoff).entries[region]? =
      if key = region then some cutoff else t.entries[region]? := by
  change (t.entries.insert key cutoff)[region]? = _
  rw [Std.TreeMap.getElem?_insert]
  by_cases h : key = region
  · rw [if_pos h, h, if_pos Std.ReflCmp.compare_self]
  · rw [if_neg h, if_neg (mt Std.LawfulEqCmp.eq_of_compare h)]

theorem getElem?_curves_insert (t : CutoffTable α) (key region : String) (cutoff : Cutoff α)
    (curve : Curve α) :
    (t.insert key cutoff).curves[region]? = some curve ↔
      if key = region then cutoff = .byMagnitude curve.knots
      else t.curves[region]? = some curve := by
  unfold insert
  cases cutoff with
  | fixed km =>
    simp only [Std.HashMap.getElem?_erase, beq_iff_eq]
    split <;> simp
  | byMagnitude pairs =>
    simp only [Cutoff.byMagnitude.injEq, ← Curve.ofKnots?_eq_some_iff]
    cases Curve.ofKnots? pairs with
    | none =>
      simp only [Std.HashMap.getElem?_erase, beq_iff_eq]
      split <;> simp
    | some made =>
      simp only [Std.HashMap.getElem?_insert, beq_iff_eq]
      split <;> simp

theorem Curved.insert {t : CutoffTable α} (h : t.Curved) (key : String) (cutoff : Cutoff α) :
    (t.insert key cutoff).Curved := by
  intro region curve
  rw [getElem?_curves_insert, getElem?_entries_insert]
  split
  · rw [Option.some.injEq]
  · exact h region curve

section Resolution

variable {t : CutoffTable α} {region : String} {cutoff : Cutoff α}

theorem contains_iff : t.contains region = true ↔ ∃ cutoff, t.entries[region]? = some cutoff := by
  rw [contains, Std.TreeMap.contains_iff_mem, Std.TreeMap.mem_iff_isSome_getElem?,
    Option.isSome_iff_exists]

theorem contains_eq_false_iff : t.contains region = false ↔ t.entries[region]? = none := by
  rw [Bool.eq_false_iff, ne_eq, contains_iff, not_exists, Option.eq_none_iff_forall_ne_some]

theorem entries_of_resolve? {key : String} (h : t.resolve? region = some (key, cutoff)) :
    t.entries[key]? = some cutoff := by
  unfold resolve? at h
  split at h
  · rename_i hentry
    obtain ⟨rfl, rfl⟩ := Prod.mk.inj (Option.some.inj h)
    exact hentry
  · obtain ⟨found, hfound, heq⟩ := Option.map_eq_some_iff.mp h
    obtain ⟨rfl, rfl⟩ := Prod.mk.inj heq
    exact hfound

theorem resolve?_of_entry (h : t.entries[region]? = some cutoff) :
    t.resolve? region = some (region, cutoff) := by
  unfold resolve?
  rw [h]

theorem resolve?_eq_none_iff :
    t.resolve? region = none ↔ t.contains region = false ∧ t.contains defaultRegion = false := by
  rw [contains_eq_false_iff, contains_eq_false_iff]
  unfold resolve?
  cases t.entries[region]? <;> simp

theorem resolve?_eq_default (h : t.contains region = false) :
    t.resolve? region = t.resolve? defaultRegion := by
  rw [contains_eq_false_iff] at h
  unfold resolve?
  rw [h]
  cases t.entries[defaultRegion]? <;> rfl

end Resolution

section Construction

variable [Scalar α] {entries : List (String × Cutoff α)} {t u : CutoffTable α}

/-- A table that keeps what it was given: the last entry of each key, checked, and the curves of
those by magnitude. -/
structure Keeps (t : CutoffTable α) (entries : List (String × Cutoff α)) : Prop where
  passes : ∀ region given, lastGiven? entries region = some given →
    ∃ cutoff, given.check = .ok cutoff ∧ t.entries[region]? = some cutoff
  given : ∀ region, lastGiven? entries region = none → t.entries[region]? = none
  curved : t.Curved

theorem insertAll_cons {region : String} {given cutoff : Cutoff α}
    (h : given.check = .ok cutoff) :
    t.insertAll ((region, given) :: entries) = (t.insert region cutoff).insertAll entries := by
  rw [insertAll, h]

theorem insertAll_spec (h : t.insertAll entries = .ok u) (ht : t.Curved) :
    u.Curved ∧ ∀ region, match lastGiven? entries region with
      | some given => ∃ cutoff, given.check = .ok cutoff ∧ u.entries[region]? = some cutoff
      | none => u.entries[region]? = t.entries[region]? := by
  induction entries generalizing t with
  | nil =>
    rw [← Except.ok.inj h]
    exact ⟨ht, fun region => rfl⟩
  | cons entry rest ih =>
    unfold insertAll at h
    split at h
    · rename_i cutoff hcheck
      obtain ⟨hcurved, hrest⟩ := ih h (ht.insert _ _)
      refine ⟨hcurved, ?_⟩
      intro region
      have hregion := hrest region
      rw [lastGiven?_cons]
      cases hlast : lastGiven? rest region with
      | some given =>
        rw [hlast] at hregion
        exact hregion
      | none =>
        rw [hlast, getElem?_entries_insert] at hregion
        rw [Option.none_or]
        by_cases hkey : entry.1 = region
        · rw [if_pos hkey] at hregion ⊢
          exact ⟨cutoff, hcheck, hregion⟩
        · rw [if_neg hkey] at hregion ⊢
          exact hregion
    · contradiction

theorem keeps_of_ofEntries (h : ofEntries entries = .ok t) : t.Keeps entries := by
  obtain ⟨hcurved, hentries⟩ := insertAll_spec h curved_empty
  refine ⟨?_, ?_, hcurved⟩
  · intro region given hgiven
    have hregion := hentries region
    rw [hgiven] at hregion
    exact hregion
  · intro region hnone
    have hregion := hentries region
    rw [hnone] at hregion
    exact hregion.trans Std.TreeMap.getElem?_emptyc

/-- What a text gives is what its entries give: checking only the last of each key loses none. -/
theorem keeps_of_tableOfForm (h : Wire.tableOfForm entries = .ok t) : t.Keeps entries := by
  unfold Wire.tableOfForm at h
  cases htable : ofEntries
      (entries.foldl (fun t p => t.insert p.1 p.2) (∅ : Std.TreeMap String (Cutoff α))).toList with
  | error e =>
    simp only [htable] at h
    contradiction
  | ok made =>
    simp only [htable] at h
    rw [← Except.ok.inj h]
    have hlast (region : String) : lastGiven? (entries.foldl (fun t p => t.insert p.1 p.2)
        (∅ : Std.TreeMap String (Cutoff α))).toList region = lastGiven? entries region := by
      rw [lastGiven?_toList, getElem?_foldl_insert, Std.TreeMap.getElem?_emptyc, Option.or_none]
    have hkeeps := keeps_of_ofEntries htable
    refine ⟨?_, ?_, hkeeps.curved⟩
    · intro region given
      rw [← hlast]
      exact hkeeps.passes region given
    · intro region
      rw [← hlast]
      exact hkeeps.given region

variable {region : String} {cutoff : Cutoff α}

theorem Keeps.exists_given (h : t.Keeps entries) (hentry : t.entries[region]? = some cutoff) :
    ∃ given, lastGiven? entries region = some given ∧ given.check = .ok cutoff := by
  cases hgiven : lastGiven? entries region with
  | none =>
    rw [h.given region hgiven] at hentry
    contradiction
  | some given =>
    obtain ⟨made, hcheck, hmade⟩ := h.passes region given hgiven
    rw [hmade] at hentry
    rw [← Option.some.inj hentry]
    exact ⟨given, rfl, hcheck⟩

theorem Keeps.contains_iff_given (h : t.Keeps entries) :
    t.contains region = true ↔ ∃ given, (region, given) ∈ entries := by
  rw [← isSome_lastGiven?_iff, contains_iff]
  constructor
  · rintro ⟨cutoff, hentry⟩
    obtain ⟨given, hgiven, -⟩ := h.exists_given hentry
    rw [hgiven]
    rfl
  · intro hsome
    obtain ⟨given, hgiven⟩ := Option.isSome_iff_exists.mp hsome
    obtain ⟨cutoff, -, hentry⟩ := h.passes region given hgiven
    exact ⟨cutoff, hentry⟩

theorem Keeps.resolve?_of_given (h : t.Keeps entries) {key : String} {given : Cutoff α}
    (hkey : key = region ∨ t.contains region = false ∧ key = defaultRegion)
    (hgiven : lastGiven? entries key = some given) :
    ∃ cutoff, given.check = .ok cutoff ∧ t.resolve? region = some (key, cutoff) := by
  obtain ⟨cutoff, hcheck, hentry⟩ := h.passes key given hgiven
  refine ⟨cutoff, hcheck, ?_⟩
  obtain rfl | ⟨hregion, rfl⟩ := hkey
  · exact resolve?_of_entry hentry
  · rw [resolve?_eq_default hregion]
    exact resolve?_of_entry hentry

variable {magnitude : Option α} {km : α}

theorem get_of_gives {key : String} (ht : t.Curved)
    (hresolve : t.resolve? region = some (key, cutoff)) (h : cutoff.Gives magnitude km) :
    t.get region magnitude = .ok km := by
  unfold get
  rw [hresolve]
  cases h with
  | fixed => rfl
  | largest hlast => simp only [hlast]
  | onCurve =>
    have hcurve := (ht _ _).mpr (entries_of_resolve? hresolve)
    simp only [hcurve]

theorem get_of_unresolved (hresolve : t.resolve? region = none) :
    t.get region magnitude = .error (.missingRegion region) := by
  unfold get
  rw [hresolve]

theorem Keeps.get_fixed (h : t.Keeps entries) {key : String}
    (hkey : key = region ∨ t.contains region = false ∧ key = defaultRegion)
    (hgiven : lastGiven? entries key = some (.fixed km)) (magnitude : Option α) :
    t.get region magnitude = .ok km := by
  obtain ⟨cutoff, hcheck, hresolve⟩ := h.resolve?_of_given hkey hgiven
  cases cutoff with
  | fixed km' =>
    obtain rfl : km' = km := Cutoff.reorders_of_check hcheck
    exact get_of_gives h.curved hresolve .fixed
  | byMagnitude pairs => exact (Cutoff.reorders_of_check hcheck).elim

section Lawful

variable [LawfulScalar α]

theorem Keeps.valid (h : t.Keeps entries) (hentry : t.entries[region]? = some cutoff) :
    cutoff.Valid := by
  obtain ⟨given, -, hcheck⟩ := h.exists_given hentry
  exact Cutoff.valid_of_check hcheck

theorem Keeps.get_cases (h : t.Keeps entries) (region : String) (magnitude : Option α) :
    (t.resolve? region = none ∧ t.get region magnitude = .error (.missingRegion region)) ∨
      ∃ key cutoff km, t.resolve? region = some (key, cutoff) ∧ cutoff.Valid ∧
        cutoff.Gives magnitude km ∧ t.get region magnitude = .ok km := by
  cases hresolve : t.resolve? region with
  | none => exact .inl ⟨rfl, get_of_unresolved hresolve⟩
  | some found =>
    right
    have hvalid := h.valid (entries_of_resolve? hresolve)
    obtain ⟨km, hgives⟩ := hvalid.exists_gives magnitude
    exact ⟨_, _, km, rfl, hvalid, hgives, get_of_gives h.curved hresolve hgives⟩

theorem Keeps.exists_curve (h : t.Keeps entries) {key : String} {pairs : List (α × α)}
    (hkey : key = region ∨ t.contains region = false ∧ key = defaultRegion)
    (hgiven : lastGiven? entries key = some (.byMagnitude pairs)) :
    ∃ curve : Curve α, curve.knots.Perm pairs ∧ (curve.knots.Pairwise fun p q => p.1 < q.1) ∧
      (∀ magnitude, t.get region (some magnitude) = .ok (curve.value magnitude)) ∧
      ∃ top, curve.knots.getLast? = some top ∧ t.get region none = .ok top.2 := by
  obtain ⟨cutoff, hcheck, hresolve⟩ := h.resolve?_of_given hkey hgiven
  have hvalid := Cutoff.valid_of_check hcheck
  cases cutoff with
  | fixed km => exact (Cutoff.reorders_of_check hcheck).elim
  | byMagnitude knots =>
    cases knots with
    | nil => exact absurd rfl hvalid.1
    | cons first rest =>
      have hlast := List.getLast?_eq_some_getLast hvalid.1
      refine ⟨⟨first, rest⟩, Cutoff.reorders_of_check hcheck, hvalid.2.2, ?_, _, hlast, ?_⟩
      · intro magnitude
        exact get_of_gives h.curved hresolve (@Cutoff.Gives.onCurve α _ ⟨first, rest⟩ magnitude)
      · exact get_of_gives h.curved hresolve (.largest hlast)

theorem Keeps.get_nonneg (h : t.Keeps entries) (hget : t.get region none = .ok km) : 0 ≤ km := by
  obtain ⟨-, hmissing⟩ | ⟨key, cutoff, given, -, hvalid, hgives, hgiven⟩ := h.get_cases region none
  · rw [hmissing] at hget
    contradiction
  · rw [hgiven] at hget
    rw [← Except.ok.inj hget]
    cases hgives with
    | fixed => exact hvalid.2
    | largest hlast => exact (hvalid.2.1 _ (List.mem_of_getLast? hlast)).2.2

end Lawful

theorem entries_of_same {u : CutoffTable α} (h : t.same u = true) (region : String) :
    Option.Rel Cutoff.AlikeEntries t.entries[region]? u.entries[region]? := by
  have hlists := forall₂_of_isEqv h
  rw [← lastGiven?_toList t.entries, ← lastGiven?_toList u.entries]
  change List.Forall₂ _ t.entries.toList u.entries.toList at hlists
  generalize t.entries.toList = ps at hlists ⊢
  generalize u.entries.toList = qs at hlists ⊢
  induction hlists with
  | nil => exact .none
  | @cons p q rest rest' hpq hrest ih =>
    rw [Bool.and_eq_true] at hpq
    have hkey : p.1 = q.1 := eq_of_beq hpq.1
    rw [lastGiven?_cons, lastGiven?_cons, ← hkey]
    generalize lastGiven? rest region = c at ih ⊢
    generalize lastGiven? rest' region = d at ih ⊢
    cases ih with
    | some hlast => exact .some hlast
    | none =>
      rw [Option.none_or, Option.none_or]
      split
      · exact .some (Cutoff.alike_of_same hpq.2)
      · exact .none

theorem resolve?_of_same {u : CutoffTable α} (h : t.same u = true) (region : String) :
    Option.Rel (fun p q => p.2.AlikeEntries q.2) (t.resolve? region) (u.resolve? region) := by
  have hregion := entries_of_same h region
  have hdefault := entries_of_same h defaultRegion
  unfold resolve?
  revert hregion hdefault
  generalize t.entries[region]? = c
  generalize u.entries[region]? = d
  generalize t.entries[defaultRegion]? = c'
  generalize u.entries[defaultRegion]? = d'
  intro hregion hdefault
  cases hregion with
  | some hcd => exact .some hcd
  | none =>
    cases hdefault with
    | some hcd => exact .some hcd
    | none => exact .none

end Construction

/-! ### Tables however they were obtained -/

/-- Tables made of entries, and tables read off the front of a text with the entries in it. -/
inductive Obtained [Scalar α] [NumberText α] :
    List (String × Cutoff α) → CutoffTable α → Prop where
  | made {entries : List (String × Cutoff α)} {t : CutoffTable α} (h : ofEntries entries = .ok t) :
    Obtained entries t
  | read {text rest : List Char} {entries : List (String × Cutoff α)} {t : CutoffTable α}
    (hentries : (Wire.Codec.dictionary Wire.cutoffCodec).read.run text = .ok (entries, rest))
    (htable : Wire.tableCodec.read.run text = .ok (t, rest)) : Obtained entries t

theorem Obtained.keeps [Scalar α] [NumberText α] {entries : List (String × Cutoff α)}
    {t : CutoffTable α} (h : Obtained entries t) : t.Keeps entries := by
  cases h with
  | made h => exact keeps_of_ofEntries h
  | read hentries htable =>
    unfold Wire.tableCodec at htable
    rw [Wire.Codec.run_refine _ _ hentries] at htable
    cases hform : Wire.tableOfForm entries with
    | error fault =>
      rw [hform] at htable
      contradiction
    | ok made =>
      rw [hform] at htable
      obtain ⟨rfl, -⟩ := Prod.mk.inj (Except.ok.inj htable)
      exact keeps_of_tableOfForm hform

section Lawful

variable [Scalar α] [LawfulScalar α] {entries : List (String × Cutoff α)} {t u : CutoffTable α}

theorem Keeps.entry (h : t.Keeps entries) {region : String} {cutoff : Cutoff α}
    (hentry : t.entries[region]? = some cutoff) :
    cutoff.Valid ∧ ∃ given, lastGiven? entries region = some given ∧ cutoff.Reorders given := by
  obtain ⟨given, hgiven, hcheck⟩ := h.exists_given hentry
  exact ⟨h.valid hentry, given, hgiven, Cutoff.reorders_of_check hcheck⟩

theorem Keeps.contains_curves_iff (h : t.Keeps entries) (region : String) :
    t.curves.contains region = true ↔ ∃ pairs, t.entries[region]? = some (.byMagnitude pairs) := by
  rw [Std.HashMap.contains_eq_isSome_getElem?, Option.isSome_iff_exists]
  constructor
  · rintro ⟨curve, hcurve⟩
    exact ⟨_, (h.curved region curve).mp hcurve⟩
  · rintro ⟨pairs, hentry⟩
    cases pairs with
    | nil => exact absurd rfl (h.valid hentry).1
    | cons first rest => exact ⟨⟨first, rest⟩, (h.curved region ⟨first, rest⟩).mpr hentry⟩

theorem Keeps.get_error_iff (h : t.Keeps entries) (region : String) (magnitude : Option α) :
    (∃ e, t.get region magnitude = .error e) ↔
      t.contains region = false ∧ t.contains defaultRegion = false := by
  rw [← resolve?_eq_none_iff]
  obtain ⟨hresolve, hmissing⟩ | ⟨key, cutoff, km, hresolve, -, -, hgiven⟩ :=
    h.get_cases region magnitude
  · rw [hmissing, hresolve]
    simp
  · rw [hgiven, hresolve]
    simp

theorem Keeps.error_of_get (h : t.Keeps entries) {region : String} {magnitude : Option α}
    {e : Error α} (hget : t.get region magnitude = .error e) : e = .missingRegion region := by
  obtain ⟨-, hmissing⟩ | ⟨key, cutoff, km, -, -, -, hgiven⟩ := h.get_cases region magnitude
  · rw [hmissing] at hget
    exact (Except.error.inj hget).symm
  · rw [hgiven] at hget
    contradiction

theorem Keeps.get_eq_default (h : t.Keeps entries) {region : String}
    (hregion : t.contains region = false) (magnitude : Option α) :
    t.get region magnitude =
      (t.get defaultRegion magnitude).mapError fun _ => .missingRegion region := by
  have hresolve := resolve?_eq_default hregion
  obtain ⟨hnone, hmissing⟩ | ⟨key, cutoff, km, hsome, -, hgives, hgiven⟩ :=
    h.get_cases defaultRegion magnitude
  · rw [hmissing, get_of_unresolved (hresolve.trans hnone)]
    rfl
  · rw [hgiven, get_of_gives h.curved (hresolve.trans hsome) hgives]
    rfl

theorem Keeps.get_of_same {given : List (String × Cutoff α)} (h : t.Keeps entries)
    (h' : u.Keeps given) (hsame : t.same u = true) (region : String) (magnitude : Option α) :
    t.get region magnitude = u.get region magnitude ∨
      ∃ x y, t.get region magnitude = .ok x ∧ u.get region magnitude = .ok y ∧
        (x == y) = true := by
  have hresolved := resolve?_of_same hsame region
  obtain ⟨hnone, hmissing⟩ | ⟨key, c, x, hc, hvalid, hx, hgetx⟩ := h.get_cases region magnitude
  · obtain ⟨-, hmissing'⟩ | ⟨key', d, y, hd, -⟩ := h'.get_cases region magnitude
    · exact .inl (hmissing.trans hmissing'.symm)
    · rw [hnone, hd] at hresolved
      contradiction
  · obtain ⟨hnone, -⟩ | ⟨key', d, y, hd, -, hy, hgety⟩ := h'.get_cases region magnitude
    · rw [hc, hnone] at hresolved
      contradiction
    · rw [hc, hd] at hresolved
      cases hresolved with | some halike =>
      obtain heq | hbeq := hx.alike hy hvalid halike
      · exact .inl (by rw [hgetx, hgety, heq])
      · exact .inr ⟨x, y, hgetx, hgety, hbeq⟩

/-- However a table was obtained, it holds the last entry given for each key, checked and sorted,
with a curve through the pairs of just the entries by magnitude. Looking up fails just when neither
the region type nor the default is a key; without an entry of its own a region type gets what the
default gets; and tables that compare equal give the same, up to the sign of a zero. -/
theorem Obtained.lookup [NumberText α] {given : List (String × Cutoff α)} (ht : Obtained entries t)
    (hu : Obtained given u) :
    (∀ (region : String) (cutoff : Cutoff α), t.entries[region]? = some cutoff → cutoff.Valid ∧
      ∃ last, lastGiven? entries region = some last ∧ cutoff.Reorders last) ∧
    (∀ region : String, t.contains region = true ↔ ∃ cutoff, (region, cutoff) ∈ entries) ∧
    (∀ region : String, t.curves.contains region = true ↔
      ∃ pairs, t.entries[region]? = some (.byMagnitude pairs)) ∧
    (∀ (region : String) (curve : Curve α), t.curves[region]? = some curve ↔
      t.entries[region]? = some (.byMagnitude curve.knots)) ∧
    (∀ (region : String) (magnitude : Option α), (∃ e, t.get region magnitude = .error e) ↔
      t.contains region = false ∧ t.contains defaultRegion = false) ∧
    (∀ (region : String) (magnitude : Option α) (e : Error α),
      t.get region magnitude = .error e → e = .missingRegion region) ∧
    (∀ (region : String) (magnitude : Option α), t.contains region = false →
      t.get region magnitude =
        (t.get defaultRegion magnitude).mapError fun _ => .missingRegion region) ∧
    (t.same u = true → ∀ (region : String) (magnitude : Option α),
      t.get region magnitude = u.get region magnitude ∨
        ∃ x y, t.get region magnitude = .ok x ∧ u.get region magnitude = .ok y ∧
          (x == y) = true) := by
  have hkeeps := ht.keeps
  refine ⟨fun _ _ => hkeeps.entry, fun _ => hkeeps.contains_iff_given,
    hkeeps.contains_curves_iff, hkeeps.curved, hkeeps.get_error_iff, ?_, ?_,
    hkeeps.get_of_same hu.keeps⟩
  · intro region magnitude e hget
    exact hkeeps.error_of_get hget
  · intro region magnitude hregion
    exact hkeeps.get_eq_default hregion magnitude

end Lawful

theorem lookup_of_zeros : ∃ t u : CutoffTable Float,
    ofEntries [(defaultRegion, .fixed 3), (defaultRegion, .byMagnitude [(7, 300), (-0.0, 100)])] =
      .ok t ∧
    ofEntries [(defaultRegion, .byMagnitude [(0, 100), (7, 300)])] = .ok u ∧
    t.same u = true ∧
    ∀ (region : String) (magnitude : Option Float),
      t.get region magnitude = u.get region magnitude ∨
        ∃ x y, t.get region magnitude = .ok x ∧ u.get region magnitude = .ok y ∧
          (x == y) = true := by
  have hlast : Cutoff.check (.byMagnitude [((7 : Float), (300 : Float)), (-0.0, 100)]) =
      .ok (.byMagnitude [(-0.0, 100), (7, 300)]) := by
    have hle : Scalar.totalLE (7 : Float) (-0.0) = false := by decide
    apply Cutoff.check_byMagnitude (by decide) (by decide) _ (by decide)
    simp [Cutoff.sorted, List.mergeSort, hle]
  have hother : Cutoff.check (.byMagnitude [((0 : Float), (100 : Float)), (7, 300)]) =
      .ok (.byMagnitude [(0, 100), (7, 300)]) :=
    Cutoff.check_byMagnitude (by decide) (by decide) (List.mergeSort_of_pairwise (by decide))
      (by decide)
  have hscalar : Cutoff.check (.fixed (3 : Float)) = .ok (.fixed 3) :=
    Cutoff.check_fixed (by decide)
  have ht : ofEntries [(defaultRegion, .fixed 3),
      (defaultRegion, .byMagnitude [((7 : Float), (300 : Float)), (-0.0, 100)])] =
      .ok ((empty.insert defaultRegion (.fixed 3)).insert defaultRegion
        (.byMagnitude [(-0.0, 100), (7, 300)])) := by
    rw [ofEntries, insertAll_cons hscalar, insertAll_cons hlast, insertAll]
  have hu : ofEntries [(defaultRegion, .byMagnitude [((0 : Float), (100 : Float)), (7, 300)])] =
      .ok (empty.insert defaultRegion (.byMagnitude [(0, 100), (7, 300)])) := by
    rw [ofEntries, insertAll_cons hother, insertAll]
  have hsame : CutoffTable.same ((empty.insert defaultRegion (.fixed (3 : Float))).insert
      defaultRegion (.byMagnitude [(-0.0, 100), (7, 300)]))
      (empty.insert defaultRegion (.byMagnitude [(0, 100), (7, 300)])) = true := by
    decide
  have hlookup := (Obtained.made ht).lookup (.made hu)
  exact ⟨_, _, ht, hu, hsame, hlookup.2.2.2.2.2.2.2 hsame⟩

/-- The two zeros compare equal as cutoffs, and are told apart by what is looked up. -/
theorem get_tells_zeros_apart : ∃ t u : CutoffTable Float,
    ofEntries [(defaultRegion, .fixed 0)] = .ok t ∧
    ofEntries [(defaultRegion, .fixed (-0.0))] = .ok u ∧ t.same u = true ∧
    t.get "any" none ≠ u.get "any" none := by
  refine ⟨empty.insert defaultRegion (.fixed 0), empty.insert defaultRegion (.fixed (-0.0)),
    ?_, ?_, ?_, ?_⟩
  · rw [ofEntries, insertAll_cons (Cutoff.check_fixed (by decide)), insertAll]
  · rw [ofEntries, insertAll_cons (Cutoff.check_fixed (by decide)), insertAll]
  · decide
  · intro h
    exact absurd (Except.ok.inj h) (by decide)

end CutoffTable

end HazardReach
