import HazardReach.Proofs.Frame.Edges
import HazardReach.Proofs.Site.Collection
import HazardReach.Screen.Pairing

/-! The index of a screen. Its entries are the sites of the screen in the frame of the index, and
either kind of index answers a rectangle with the entries inside it. Asked for a box, it gives the
sites between the latitudes of the box that the frame finds. -/
namespace HazardReach

variable {α : Type} [Scalar α]

namespace SiteIndex

/-- A rectangle with its edges in order is answered with the entries inside it. -/
def Answers (index : SiteIndex α) (entries : List (IndexEntry α)) : Prop :=
  ∀ rect : Box α, rect.west ≤ rect.east → rect.south ≤ rect.north →
    index.within rect = (entries.filter (inside rect)).map (·.id)

theorem scan_answers (entries : List (IndexEntry α)) : (scan entries).Answers entries :=
  fun _ _ _ => rfl

section Compared

variable [ComparedScalar α] {x y : α} {rect : Box α}

open Scalar ComparedScalar

theorem ordered_of_le (h : x ≤ y) (z : α) :
    ((ordered x y).1 ≤ z ↔ x ≤ z) ∧ (z ≤ (ordered x y).2 ↔ z ≤ y) := by
  unfold ordered
  rw [if_neg (not_lt_of_le h)]
  refine ⟨?_, Iff.rfl⟩
  split
  · exact Iff.rfl
  · rename_i hlt
    exact ⟨le_trans h, le_trans (le_of_not_lt (le_self h).1 (le_self h).2 hlt)⟩

theorem inside_envelope (hlon : rect.west ≤ rect.east) (hlat : rect.south ≤ rect.north) :
    inside (envelope rect) = inside rect := by
  funext e
  have hlon := ordered_of_le hlon e.lon
  have hlat := ordered_of_le hlat e.lat
  rw [Bool.eq_iff_iff]
  simp only [inside, envelope, Bool.and_eq_true, decide_eq_true_eq, hlon, hlat]

theorem tree_answers (entries : List (IndexEntry α)) : (tree entries).Answers entries := by
  intro rect hlon hlat
  change (entries.filter (inside (envelope rect))).map (·.id) = _
  rw [inside_envelope hlon hlat]

end Compared

end SiteIndex

namespace SiteCollection

def frame (c : SiteCollection α) : Frame :=
  if Longitude.crossDateLine c.lons then .positive else .signed

def entries (c : SiteCollection α) (frame : Frame) : List (IndexEntry α) :=
  c.toList.map fun s => ⟨s.id, frame.lon s.lon, s.lat⟩

theorem atSeaLevel_iff (c : SiteCollection α) :
    c.atSeaLevel = true ↔ ∀ s ∈ c.toList, (s.depth == 0) = true := by
  unfold atSeaLevel Site.atSeaLevel
  rw [List.all_eq_true]

end SiteCollection

namespace Screen

theorem indexEntries_eq (c : SiteCollection α) : indexEntries c = (c.entries c.frame, c.frame) := by
  unfold indexEntries Longitude.joined SiteCollection.frame
  cases Longitude.crossDateLine c.lons with
  | true =>
    simp only [if_true, SiteCollection.lons, List.map_map, List.zipWith_map_right,
      List.zipWith_self]
    rfl
  | false =>
    simp only [Bool.false_eq_true, if_false, SiteCollection.lons, List.zipWith_map_right,
      List.zipWith_self]
    rfl

/-- The screen asks its index for the sites of `own`. -/
structure Indexes (screen : Screen α) (own : SiteCollection α) (index : SiteIndex α) : Prop where
  sites_eq : screen.sites = some own
  index_eq : screen.index = some index
  frame_eq : screen.frame = own.frame
  answers : index.Answers (own.entries screen.frame)

theorem build_eq (own : SiteCollection α) (cutoffs : CutoffTable α) (kind : IndexKind) :
    build (some own) cutoffs kind =
      let answer := if cutoffs.isEmpty then (none, .signed) else buildIndex own kind
      ⟨some own, cutoffs, answer.1, answer.2⟩ := rfl

theorem usesIndex_build_iff {own : SiteCollection α} {cutoffs : CutoffTable α} {kind : IndexKind} :
    (build (some own) cutoffs kind).usesIndex = true ↔
      cutoffs.isEmpty = false ∧ own.atSeaLevel = true ∧ kind ≠ .none := by
  rw [build_eq]
  unfold usesIndex buildIndex
  rw [indexEntries_eq]
  cases cutoffs.isEmpty with
  | true => simp
  | false =>
    cases own.atSeaLevel with
    | false => simp
    | true => cases kind <;> simp

theorem index_build_none (own : SiteCollection α) (cutoffs : CutoffTable α) :
    (build (some own) cutoffs .none).index = none := by
  cases hindex : (build (some own) cutoffs .none).index with
  | none => rfl
  | some index =>
    have huse : (build (some own) cutoffs .none).usesIndex = true := by
      rw [usesIndex, hindex]
      rfl
    exact absurd rfl (usesIndex_build_iff.mp huse).2.2

theorem exists_indexes [ComparedScalar α] {own : SiteCollection α} {cutoffs : CutoffTable α}
    {kind : IndexKind} (h : (build (some own) cutoffs kind).usesIndex = true) :
    ∃ index, (build (some own) cutoffs kind).Indexes own index := by
  have huse := usesIndex_build_iff.mp h
  rw [build_eq]
  unfold buildIndex
  rw [indexEntries_eq, huse.1, huse.2.1]
  cases kind with
  | none => exact absurd rfl huse.2.2
  | scan => exact ⟨_, rfl, rfl, rfl, SiteIndex.scan_answers _⟩
  | tree => exact ⟨_, rfl, rfl, rfl, SiteIndex.tree_answers _⟩

theorem frame_build [ComparedScalar α] {own : SiteCollection α} {cutoffs : CutoffTable α}
    {kind : IndexKind} (h : (build (some own) cutoffs kind).usesIndex = true) :
    (build (some own) cutoffs kind).frame = own.frame := by
  obtain ⟨index, hindex⟩ := exists_indexes h
  exact hindex.frame_eq

theorem inside_iff {rect : Box α} {e : IndexEntry α} :
    SiteIndex.inside rect e = true ↔
      (rect.west ≤ e.lon ∧ e.lon ≤ rect.east) ∧ rect.south ≤ e.lat ∧ e.lat ≤ rect.north := by
  simp only [SiteIndex.inside, Bool.and_eq_true, decide_eq_true_eq, and_assoc]

theorem Indexes.mem_query [TurningScalar α] {screen : Screen α} {own : SiteCollection α}
    {index : SiteIndex α} (h : screen.Indexes own index) {b : Box α} (hb : b.InRange)
    {id : SiteId} :
    id ∈ (screen.frame.split (screen.frame.place b)).flatMap index.within ↔
      ∃ s ∈ own.toList, s.id = id ∧ (b.south ≤ s.lat ∧ s.lat ≤ b.north) ∧
        screen.frame.Finds b s.lon := by
  have hwithin : ∀ rect ∈ screen.frame.split (screen.frame.place b),
      (id ∈ index.within rect ↔ ∃ s ∈ own.toList, s.id = id ∧ (b.south ≤ s.lat ∧ s.lat ≤ b.north) ∧
        rect.west ≤ screen.frame.lon s.lon ∧ screen.frame.lon s.lon ≤ rect.east) := by
    intro rect hrect
    have hedges := screen.frame.edges_of_mem_split hb hrect
    have hlat : rect.south ≤ rect.north := by
      rw [hedges.2.1, hedges.2.2]
      exact hb.lat
    rw [h.answers rect hedges.1 hlat, ← hedges.2.1, ← hedges.2.2]
    simp only [SiteCollection.entries, List.mem_map, List.mem_filter, inside_iff]
    apply Iff.intro
    · intro he
      obtain ⟨e, ⟨⟨s, hs, rfl⟩, hlon, hlat⟩, hid⟩ := he
      exact ⟨s, hs, hid, hlat, hlon⟩
    · intro hs
      obtain ⟨s, hs, hid, hlat, hlon⟩ := hs
      exact ⟨_, ⟨⟨s, hs, rfl⟩, hlon, hlat⟩, hid⟩
  rw [List.mem_flatMap]
  apply Iff.intro
  · intro hrect
    obtain ⟨rect, hrect, hid⟩ := hrect
    obtain ⟨s, hs, hid, hlat, hlon⟩ := (hwithin rect hrect).mp hid
    exact ⟨s, hs, hid, hlat, rect, hrect, hlon⟩
  · intro hs
    obtain ⟨s, hs, hid, hlat, rect, hrect, hlon⟩ := hs
    exact ⟨rect, hrect, (hwithin rect hrect).mpr ⟨s, hs, hid, hlat, hlon⟩⟩

end Screen

end HazardReach
