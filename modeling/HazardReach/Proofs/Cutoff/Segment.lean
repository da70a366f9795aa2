import HazardReach.Proofs.Cutoff.Curve
import HazardReach.Proofs.Cutoff.Faults

/-! The shape of a curve over exact numbers. Between two neighbouring knots a curve is the chord of
both, before the first knot and past the last one it goes on along the chord at that end, and a
single knot makes it constant. Which chord it follows is told by counting the knots that are
reached. -/
namespace HazardReach

variable {K : Type} [LinearOrder K]

/-- The number of the knot at which the chord for `x` begins: the last knot that `x` has reached,
short of the last of all, or the first one if it has reached none. -/
def segment (knots : List (K × K)) (x : K) : Nat :=
  min (knots.countP (fun p => decide (p.1 ≤ x)) - 1) (knots.length - 2)

section Segment

variable {knots : List (K × K)} {p q : K × K} {x : K} {i : Nat}

theorem lt_of_getElem? (h : knots.Pairwise fun p q => p.1 < q.1) {j : Nat}
    (hp : knots[i]? = some p) (hq : knots[j]? = some q) (hij : i < j) : p.1 < q.1 := by
  obtain ⟨hi, rfl⟩ := List.getElem?_eq_some_iff.mp hp
  obtain ⟨hj, rfl⟩ := List.getElem?_eq_some_iff.mp hq
  exact List.pairwise_iff_getElem.mp h i j hi hj hij

theorem lt_of_neighbours (h : knots.Pairwise fun p q => p.1 < q.1) (hp : knots[i]? = some p)
    (hq : knots[i + 1]? = some q) : p.1 < q.1 :=
  lt_of_getElem? h hp hq (Nat.lt_succ_self i)

theorem le_iff_lt_countP (h : knots.Pairwise fun p q => p.1 < q.1) (hp : knots[i]? = some p) :
    p.1 ≤ x ↔ i < knots.countP fun p => decide (p.1 ≤ x) := by
  induction knots generalizing i with
  | nil => contradiction
  | cons first rest ih =>
    obtain ⟨hfirst, hrest⟩ := List.pairwise_cons.mp h
    by_cases hreached : first.1 ≤ x
    · rw [List.countP_cons, if_pos (decide_eq_true hreached)]
      cases i with
      | zero =>
        rw [← Option.some.inj hp]
        exact iff_of_true hreached (Nat.succ_pos _)
      | succ i => rw [ih hrest hp, Nat.succ_lt_succ_iff]
    · have hnone : ∀ q ∈ first :: rest, ¬q.1 ≤ x := by
        rw [List.forall_mem_cons]
        exact ⟨hreached, fun q hq hle => hreached ((hfirst q hq).le.trans hle)⟩
      have hcount : (first :: rest).countP (fun p => decide (p.1 ≤ x)) = 0 := by
        rw [List.countP_eq_zero]
        intro q hq hle
        exact hnone q hq (of_decide_eq_true hle)
      rw [hcount]
      exact iff_of_false (hnone p (List.mem_of_getElem? hp)) (Nat.not_lt_zero i)

/-- The chord that is counted out begins where `x` has come to and ends where it has not, except
that it may be the first or the last one. -/
theorem exists_segment (h : knots.Pairwise fun p q => p.1 < q.1) (hlength : 2 ≤ knots.length)
    (x : K) :
    ∃ p q, knots[segment knots x]? = some p ∧ knots[segment knots x + 1]? = some q ∧
      p.1 < q.1 ∧ (segment knots x = 0 ∨ p.1 ≤ x) ∧
        (x ≤ q.1 ∨ segment knots x + 2 = knots.length) := by
  have hle : segment knots x + 2 ≤ knots.length := by
    unfold segment
    omega
  have hp := List.getElem?_eq_getElem (show segment knots x < knots.length by omega)
  have hq := List.getElem?_eq_getElem (show segment knots x + 1 < knots.length by omega)
  refine ⟨_, _, hp, hq, lt_of_neighbours h hp hq, ?_, ?_⟩
  · rw [le_iff_lt_countP h hp]
    unfold segment
    omega
  · rw [or_iff_not_imp_right]
    intro hinner
    apply le_of_lt
    rw [← not_le, le_iff_lt_countP h hq]
    unfold segment at hinner ⊢
    omega

end Segment

variable [Field K]

/-- The point at `x` and `y` is on the line through both pairs. -/
def OnLine (p q : K × K) (x y : K) : Prop := (y - p.2) * (q.1 - p.1) = (q.2 - p.2) * (x - p.1)

/-- A function whose graph is the chords between neighbouring knots, of which the first and the last
go on for ever. -/
structure RunsThrough (knots : List (K × K)) (f : K → K) : Prop where
  single : ∀ p, knots = [p] → ∀ x, f x = p.2
  knot : ∀ p ∈ knots, f p.1 = p.2
  between : ∀ (i : Nat) (p q : K × K), knots[i]? = some p → knots[i + 1]? = some q →
    ∀ x, p.1 ≤ x → x ≤ q.1 → OnLine p q x (f x) ∧ min p.2 q.2 ≤ f x ∧ f x ≤ max p.2 q.2
  before : ∀ p q : K × K, knots[0]? = some p → knots[1]? = some q →
    ∀ x, x < p.1 → OnLine p q x (f x)
  after : ∀ (i : Nat) (p q : K × K), knots[i]? = some p → knots[i + 1]? = some q →
    i + 2 = knots.length → ∀ x, q.1 < x → OnLine p q x (f x)
  /-- Where there is a chord at all, the one that is counted out is there and is not vertical. -/
  counted : 2 ≤ knots.length → ∀ x, ∃ p q : K × K, knots[segment knots x]? = some p ∧
    knots[segment knots x + 1]? = some q ∧ q.1 - p.1 ≠ 0 ∧
      f x = p.2 + (x - p.1) * (q.2 - p.2) / (q.1 - p.1)

namespace Curve

variable [FloorRing K] {p q : K × K} {rest : List (K × K)} {x : K}

/-- A chord is followed from its left knot, or from ever if it is the first one, to its right knot,
or for ever if it is the last one. Induction on the knots ahead; a chord ahead is come to only past
the knots before it. -/
theorem follow_eq_line (h : (p :: q :: rest).Pairwise fun p q => p.1 < q.1) {i : Nat} {a b : K × K}
    (ha : (p :: q :: rest)[i]? = some a) (hb : (p :: q :: rest)[i + 1]? = some b)
    (hlow : i = 0 ∨ a.1 ≤ x) (hhigh : x ≤ b.1 ∨ i + 2 = (p :: q :: rest).length) :
    follow x p q rest = line a b x := by
  induction rest generalizing p q i with
  | nil =>
    obtain ⟨hi, -⟩ := List.getElem?_eq_some_iff.mp hb
    obtain rfl : i = 0 := by
      simp only [List.length_cons, List.length_nil] at hi
      omega
    obtain rfl := Option.some.inj ha
    obtain rfl := Option.some.inj hb
    rfl
  | cons r rest ih =>
    obtain ⟨hp, htail⟩ := List.pairwise_cons.mp h
    rw [follow]
    cases i with
    | zero =>
      obtain rfl := Option.some.inj ha
      obtain rfl := Option.some.inj hb
      have hx : x ≤ q.1 := by
        apply hhigh.resolve_right
        simp
      by_cases hreached : q.1 ≤ x
      · obtain rfl := le_antisymm hx hreached
        have hnext := (List.pairwise_cons.mp htail).1 r List.mem_cons_self
        rw [if_pos le_rfl, follow_left hnext, line_right (hp q List.mem_cons_self)]
      · rw [if_neg hreached]
    | succ i =>
      rw [List.getElem?_cons_succ] at ha hb
      have hax : a.1 ≤ x := hlow.resolve_left (Nat.succ_ne_zero i)
      have hqa : q.1 ≤ a.1 := by
        obtain rfl | hmem := List.mem_cons.mp (List.mem_of_getElem? ha)
        · exact le_rfl
        · exact ((List.pairwise_cons.mp htail).1 a hmem).le
      rw [if_pos (hqa.trans hax)]
      exact ih htail ha hb (.inr hax) (hhigh.imp_right fun hend => Nat.succ.inj hend)

theorem value_eq_line {c : Curve K} (h : c.knots.Pairwise fun p q => p.1 < q.1) {i : Nat}
    (hp : c.knots[i]? = some p) (hq : c.knots[i + 1]? = some q) (hlow : i = 0 ∨ p.1 ≤ x)
    (hhigh : x ≤ q.1 ∨ i + 2 = c.knots.length) : c.value x = line p q x := by
  obtain ⟨first, rest⟩ := c
  cases rest with
  | nil => contradiction
  | cons second rest => exact follow_eq_line h hp hq hlow hhigh

theorem value_single {c : Curve K} (h : c.knots = [p]) (x : K) : c.value x = p.2 := by
  obtain ⟨first, rest⟩ := c
  obtain ⟨rfl, rfl⟩ := List.cons.inj h
  rfl

theorem value_knot {c : Curve K} (h : c.knots.Pairwise fun p q => p.1 < q.1) (hp : p ∈ c.knots) :
    c.value p.1 = p.2 := by
  obtain ⟨i, hp⟩ := List.mem_iff_getElem?.mp hp
  cases hnext : c.knots[i + 1]? with
  | some q =>
    have hlt := lt_of_neighbours h hp hnext
    rw [value_eq_line h hp hnext (.inr le_rfl) (.inl hlt.le), line_left]
  | none =>
    obtain ⟨hi, -⟩ := List.getElem?_eq_some_iff.mp hp
    have hend : c.knots.length = i + 1 := le_antisymm (List.getElem?_eq_none_iff.mp hnext) hi
    cases i with
    | zero =>
      obtain ⟨q, hq⟩ := List.length_eq_one_iff.mp hend
      rw [hq] at hp
      rw [value_single hq, Option.some.inj hp]
    | succ i =>
      have hbefore := List.getElem?_eq_getElem (show i < c.knots.length by omega)
      have hlt := lt_of_neighbours h hbefore hp
      rw [value_eq_line h hbefore hp (.inr hlt.le) (.inl le_rfl), line_right hlt]

variable [IsStrictOrderedRing K]

theorem onLine_line (hlt : p.1 < q.1) (x : K) : OnLine p q x (line p q x) := by
  have hrun : q.1 - p.1 ≠ 0 := (sub_pos.mpr hlt).ne'
  unfold OnLine line
  rw [add_sub_cancel_left, div_mul_cancel₀ _ hrun, mul_comm]

theorem line_between (hlt : p.1 < q.1) (hlow : p.1 ≤ x) (hhigh : x ≤ q.1) :
    min p.2 q.2 ≤ line p q x ∧ line p q x ≤ max p.2 q.2 := by
  have hrun : 0 < q.1 - p.1 := sub_pos.mpr hlt
  have hline : line p q x = p.2 + (x - p.1) / (q.1 - p.1) * (q.2 - p.2) := by
    unfold line
    rw [mul_div_right_comm]
  have hnonneg : 0 ≤ (x - p.1) / (q.1 - p.1) := div_nonneg (sub_nonneg.mpr hlow) hrun.le
  have hle : (x - p.1) / (q.1 - p.1) ≤ 1 := (div_le_one hrun).mpr (sub_le_sub_right hhigh _)
  rw [hline]
  generalize (x - p.1) / (q.1 - p.1) = t at hnonneg hle
  rcases le_total p.2 q.2 with h | h
  · rw [min_eq_left h, max_eq_right h]
    constructor <;> nlinarith
  · rw [min_eq_right h, max_eq_left h]
    constructor <;> nlinarith

theorem value_runsThrough {c : Curve K} (h : c.knots.Pairwise fun p q => p.1 < q.1) :
    RunsThrough c.knots c.value := by
  constructor
  case single => exact fun p hp x => value_single hp x
  case knot => exact fun p hp => value_knot h hp
  case between =>
    intro i p q hp hq x hlow hhigh
    have hlt := lt_of_neighbours h hp hq
    rw [value_eq_line h hp hq (.inr hlow) (.inl hhigh)]
    exact ⟨onLine_line hlt x, line_between hlt hlow hhigh⟩
  case before =>
    intro p q hp hq x hx
    have hlt := lt_of_neighbours h hp hq
    rw [value_eq_line h hp hq (.inl rfl) (.inl (hx.trans hlt).le)]
    exact onLine_line hlt x
  case after =>
    intro i p q hp hq hend x hx
    have hlt := lt_of_neighbours h hp hq
    rw [value_eq_line h hp hq (.inr (hlt.trans hx).le) (.inr hend)]
    exact onLine_line hlt x
  case counted =>
    intro hlength x
    obtain ⟨p, q, hp, hq, hpq, hlow, hhigh⟩ := exists_segment h hlength x
    exact ⟨p, q, hp, hq, (sub_pos.mpr hpq).ne', value_eq_line h hp hq hlow hhigh⟩

end Curve

namespace CutoffTable

variable [FloorRing K] [IsStrictOrderedRing K] [NumberText K]

/-- The cutoffs of a region type that is answered by pairs run through these pairs in order of their
magnitudes, and without a magnitude the last of them answers. -/
theorem Obtained.get_runsThrough {entries : List (String × Cutoff K)} {t : CutoffTable K}
    (ht : Obtained entries t) {region key : String} {pairs : List (K × K)}
    (hkey : key = region ∨ t.contains region = false ∧ key = defaultRegion)
    (hgiven : lastGiven? entries key = some (.byMagnitude pairs)) :
    ∃ (knots : List (K × K)) (f : K → K), knots.Perm pairs ∧
      (knots.Pairwise fun p q => p.1 < q.1) ∧ RunsThrough knots f ∧
      (∀ magnitude, t.get region (some magnitude) = .ok (f magnitude)) ∧
      ∃ top, knots.getLast? = some top ∧ t.get region none = .ok top.2 ∧
        t.get region (some top.1) = .ok top.2 := by
  obtain ⟨curve, hperm, hascending, hget, top, htop, hnone⟩ := ht.keeps.exists_curve hkey hgiven
  have hruns := Curve.value_runsThrough hascending
  refine ⟨curve.knots, curve.value, hperm, hascending, hruns, hget, top, htop, hnone, ?_⟩
  rw [hget, hruns.knot top (List.mem_of_getLast? htop)]

theorem get_runsThrough_falling : ∃ t : CutoffTable ℚ,
    ofEntries [(defaultRegion, .byMagnitude [(8, 250), (5, 100), (7, 300)])] = .ok t ∧
    t.contains "any" = false ∧ t.get "any" none = .ok 250 ∧
    t.get "any" (some 9) = .ok 200 := by
  obtain ⟨t, ht, hother⟩ := exists_ofEntries_default
    (show ¬(Cutoff.byMagnitude [((8 : ℚ), (250 : ℚ)), (5, 100), (7, 300)]).Faulty by decide)
  have hregion : t.contains "any" = false := hother _ (by decide)
  obtain ⟨knots, f, hperm, hascending, hruns, hget, top, htop, hnone, -⟩ :=
    Obtained.get_runsThrough (.made ht) (.inr ⟨hregion, rfl⟩) rfl
  have hsorted : knots.Perm [(5, 100), (7, 300), (8, 250)] := hperm.trans (by decide)
  obtain rfl := hsorted.eq_of_pairwise (fun _ _ _ _ hlt hgt => absurd hgt hlt.asymm) hascending
    (by decide)
  rw [← Option.some.inj htop] at hnone
  have hline := hruns.after 1 _ _ rfl rfl rfl 9 (by norm_num)
  have hvalue : f 9 = 200 := by
    unfold OnLine at hline
    linarith
  exact ⟨t, ht, hregion, hnone, by rw [hget, hvalue]⟩

end CutoffTable

end HazardReach
