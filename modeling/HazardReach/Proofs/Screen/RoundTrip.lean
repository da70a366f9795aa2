import HazardReach.Proofs.Cutoff.Transfer
import HazardReach.Proofs.Double
import HazardReach.Proofs.Screen.Sequence
import HazardReach.Proofs.Screen.Transmission
import HazardReach.Proofs.Source.Origin
import HazardReach.Proofs.Wire.Forms

/-! Screens over the wire. What is read of the text that a screen is written as is the screen as it
is transmitted: its collection under a new origin, a table that compares equal and gives the same
distances, and no index. -/
namespace HazardReach

variable {α : Type}

/-- A pair whose sites are taken from a collection of another origin; errors stay as they are. -/
def Paired.withOrigin (paired : Paired α) (origin : Nat) : Paired α :=
  paired.map fun pair => { pair with sites := pair.sites.withOrigin origin }

variable [Scalar α]

theorem Site.isFinite_of_mem_numbers {s : Site α} (h : s.isFinite = true) {x : α}
    (hx : x ∈ s.numbers) : Scalar.isFinite x = true := by
  simp only [isFinite, Bool.and_eq_true] at h
  simp only [numbers, List.mem_cons, List.not_mem_nil, or_false] at hx
  obtain rfl | rfl | rfl := hx
  · exact h.1.1
  · exact h.1.2
  · exact h.2

theorem Cutoff.Valid.isFinite_of_mem_numbers {cutoff : Cutoff α} (h : cutoff.Valid) {x : α}
    (hx : x ∈ cutoff.numbers) : Scalar.isFinite x = true := by
  cases cutoff with
  | fixed km =>
    obtain rfl := List.mem_singleton.mp hx
    exact h.1
  | byMagnitude pairs =>
    obtain ⟨p, hp, hx⟩ := List.mem_flatMap.mp hx
    have hfinite := h.2.1 p hp
    simp only [List.mem_cons, List.not_mem_nil, or_false] at hx
    obtain rfl | rfl := hx
    · exact hfinite.1
    · exact hfinite.2.1

namespace Screen

section Items

variable {screen other : Screen α} {c : SiteCollection α} {source : Source α}

theorem search_eq_of_agrees (hindex : screen.index = none) (hindex' : other.index = none)
    (hcutoffs : screen.cutoffs.Agrees other.cutoffs) (source : Source α) (c : SiteCollection α) :
    screen.search source c = other.search source c := by
  unfold search
  rw [hindex, hindex', hcutoffs.isEmpty, hcutoffs.get]

theorem answer_eq_of_agrees (hindex : screen.index = none) (hindex' : other.index = none)
    (hcutoffs : screen.cutoffs.Agrees other.cutoffs)
    (hsites : screen.sites.isNone = other.sites.isNone) (sites : Option (SiteCollection α))
    (source : Source α) :
    Pairing.answer screen sites source = Pairing.answer other sites source := by
  unfold Pairing.answer affected
  simp only [hsites, search_eq_of_agrees hindex hindex' hcutoffs]

theorem answer_withOrigin (hindex : screen.index = none) (hsource : source.IgnoresOrigin)
    (c : SiteCollection α) (origin : Nat) :
    Pairing.answer screen (some (c.withOrigin origin)) source =
      (Pairing.answer screen (some c) source).map (·.withOrigin origin) := by
  have hsearch : screen.search source (c.withOrigin origin) =
      (screen.search source c).map (Option.map (·.withOrigin origin)) := by
    unfold search
    rw [hindex]
    dsimp only
    split
    · rfl
    · cases screen.cutoffs.get source.regionType none with
      | error e => rfl
      | ok km => exact hsource km c origin
  unfold Pairing.answer affected
  dsimp only
  rw [hsearch]
  cases screen.sites.isNone with
  | true => rfl
  | false =>
    cases screen.search source c with
    | error e => rfl
    | ok r => cases r <;> rfl

theorem items_eq_of_agrees (hindex : screen.index = none) (hindex' : other.index = none)
    (hcutoffs : screen.cutoffs.Agrees other.cutoffs)
    (hsites : screen.sites.isNone = other.sites.isNone) {sites sites' : Option (SiteCollection α)}
    (hchosen : sites.or screen.sites = sites'.or other.sites) (sources : List (Source α)) :
    screen.items sites sources = other.items sites' sources := by
  rw [items_eq, items_eq, hchosen]
  exact List.filterMap_congr fun source _ =>
    answer_eq_of_agrees hindex hindex' hcutoffs hsites _ source

theorem items_withOrigin (hindex : screen.index = none) (origin : Nat) {sources : List (Source α)}
    (hsources : ∀ source ∈ sources, source.IgnoresOrigin) :
    screen.items (screen.sites.map (·.withOrigin origin)) sources =
      (screen.items none sources).map (·.withOrigin origin) := by
  rw [items_eq, items_eq, List.map_filterMap]
  apply List.filterMap_congr
  intro source hsource
  cases screen.sites with
  | none => rfl
  | some c => exact answer_withOrigin hindex (hsources source hsource) c origin

theorem transmitted_build {own : Option (SiteCollection α)} {cutoffs : CutoffTable α}
    {kind : IndexKind} (h : (build own cutoffs kind).usesIndex = false) :
    (build own cutoffs kind).transmitted = build own cutoffs kind := by
  change build own cutoffs .none = build own cutoffs kind
  rw [build_none]
  unfold build at h ⊢
  cases own with
  | none => rfl
  | some c =>
    unfold buildIndex at h ⊢
    dsimp only at h ⊢
    cases hempty : cutoffs.isEmpty with
    | true => rfl
    | false =>
      rw [hempty] at h
      cases hsea : c.atSeaLevel with
      | false => rfl
      | true =>
        rw [hsea] at h
        cases kind with
        | none => rfl
        | tree => contradiction
        | scan => contradiction

end Items

section Wire

variable [NumberText α]

/-- The screens that can be had: built over a collection and a table, transmitted, or read. -/
inductive Obtained : Screen α → Prop where
  | built {own : Option (SiteCollection α)} {entries : List (String × Cutoff α)}
      {cutoffs : CutoffTable α} (hown : ∀ c ∈ own, c.Built)
      (hcutoffs : CutoffTable.Obtained entries cutoffs) (kind : IndexKind) :
      Obtained (build own cutoffs kind)
  | transmitted {screen : Screen α} (h : Obtained screen) : Obtained screen.transmitted
  | read {origin : Nat} {text : String} {screen : Screen α}
      (h : (Wire.screenCodec origin).decode text = .ok screen) : Obtained screen

theorem exists_build_of_decode {origin : Nat} {text : String} {screen : Screen α}
    (h : (Wire.screenCodec origin).decode text = .ok screen) :
    ∃ own entries cutoffs, screen = build own cutoffs .none ∧ (∀ c ∈ own, c.Built) ∧
      cutoffs.Keeps entries := by
  obtain ⟨⟨own, cutoffs, _⟩, hrow, hbuild⟩ := (Wire.Codec.yields_of_decode h).of_refine
  obtain ⟨hown, hcutoffs, -⟩ := hrow.of_record
  obtain hcutoffs | ⟨form, hmissing⟩ := hcutoffs
  · obtain ⟨entries, -, htable⟩ := hcutoffs.of_refine
    refine ⟨own, entries, cutoffs, (Except.ok.inj hbuild).symm, ?_,
      CutoffTable.keeps_of_tableOfForm htable⟩
    rintro c rfl
    obtain hown | ⟨form, hmissing⟩ := hown
    · exact .of_yields hown.of_optional
    · dsimp only at hmissing
      split at hmissing
      · cases Option.some.inj hmissing
      · contradiction
  · contradiction

theorem Obtained.exists_build {screen : Screen α} (h : screen.Obtained) :
    ∃ own entries cutoffs kind, screen = build own cutoffs kind ∧ (∀ c ∈ own, c.Built) ∧
      cutoffs.Keeps entries := by
  induction h with
  | built hown hcutoffs kind => exact ⟨_, _, _, kind, rfl, hown, hcutoffs.keeps⟩
  | transmitted h ih =>
    obtain ⟨own, entries, cutoffs, kind, rfl, hown, hcutoffs⟩ := ih
    exact ⟨own, entries, cutoffs, .none, rfl, hown, hcutoffs⟩
  | read h =>
    obtain ⟨own, entries, cutoffs, rfl, hown, hcutoffs⟩ := exists_build_of_decode h
    exact ⟨own, entries, cutoffs, .none, rfl, hown, hcutoffs⟩

variable {own : Option (SiteCollection α)} {entries : List (String × Cutoff α)}
  {cutoffs : CutoffTable α} {kind : IndexKind}

theorem build_carried (origin : Nat) (hown : ∀ c ∈ own, c.Built) {received : CutoffTable α}
    (hcutoffs : Wire.tableOfForm cutoffs.toList = .ok received)
    (hnumbers : ∀ x ∈ (build own cutoffs kind).numbers, Wire.ReadsBack x) :
    (Wire.screenCodec origin).Carries (build own cutoffs kind)
      (build (own.map (·.withOrigin origin)) received .none) := by
  apply Wire.screen_carried hnumbers _ hcutoffs
  change Option.Rel _ own (own.map (·.withOrigin origin))
  cases own with
  | none => exact .none
  | some c => exact .some ((hown c rfl).toCollection_ofCollection origin)

variable [LawfulScalar α]

omit [NumberText α] in
theorem isFinite_of_mem_numbers (hown : ∀ c ∈ own, c.Built) (hcutoffs : cutoffs.Keeps entries)
    {x : α} (hx : x ∈ (build own cutoffs kind).numbers) : Scalar.isFinite x = true := by
  change x ∈ (own.elim [] fun c => c.whole.sites.toList.flatMap Site.numbers) ++
    cutoffs.toList.flatMap fun entry => entry.2.numbers at hx
  obtain hx | hx := List.mem_append.mp hx
  · cases own with
    | none => contradiction
    | some c =>
      obtain ⟨s, hs, hx⟩ := List.mem_flatMap.mp hx
      exact s.isFinite_of_mem_numbers ((hown c rfl).isFinite s hs) hx
  · obtain ⟨entry, hentry, hx⟩ := List.mem_flatMap.mp hx
    have hvalid := hcutoffs.valid (Std.TreeMap.mem_toList_iff_getElem?_eq_some.mp hentry)
    exact hvalid.isFinite_of_mem_numbers hx

theorem Obtained.exists_received {screen : Screen α} (h : screen.Obtained) (origin : Nat)
    (hnumbers : ∀ x ∈ screen.numbers, Scalar.isFinite x = true → Wire.ReadsBack x) :
    ∃ received : Screen α, (Wire.screenCodec origin).Carries screen received ∧
      received.index = none ∧ received.sites = screen.sites.map (·.withOrigin origin) ∧
      received.cutoffs.Agrees screen.cutoffs ∧ received.cutoffs.same screen.cutoffs = true ∧
      ∀ other, (Wire.screenCodec other).Carries received
        { received with sites := received.sites.map (·.withOrigin other) } := by
  obtain ⟨own, entries, cutoffs, kind, rfl, hown, hcutoffs⟩ := h.exists_build
  obtain ⟨table, htable, hagrees⟩ := hcutoffs.exists_tableOfForm
  have hreads : ∀ x ∈ (build own cutoffs kind).numbers, Wire.ReadsBack x :=
    fun x hx => hnumbers x hx (isFinite_of_mem_numbers hown hcutoffs hx)
  refine ⟨build (own.map (·.withOrigin origin)) table .none,
    build_carried origin hown htable hreads, index_transmitted (build _ table .none), rfl, hagrees,
    hcutoffs.same_of_agrees hagrees, fun other => ?_⟩
  have hown' : ∀ c ∈ own.map (·.withOrigin origin), c.Built := by
    intro c hc
    obtain ⟨d, hd, rfl⟩ := Option.mem_map.mp hc
    exact (hown d hd).withOrigin origin
  have htable' : Wire.tableOfForm table.toList = .ok table := by
    rw [hagrees.toList, htable]
  have hsame : (build (own.map (·.withOrigin origin)) table .none).numbers =
      (build own cutoffs kind).numbers := by
    change (own.map (·.withOrigin origin)).elim [] _ ++ table.toList.flatMap _ = _
    rw [hagrees.toList]
    cases own <;> rfl
  have hcarried : (Wire.screenCodec other).Carries
      (build (own.map (·.withOrigin origin)) table .none)
      (build ((own.map (·.withOrigin origin)).map (·.withOrigin other)) table .none) :=
    build_carried other hown' htable' (by rwa [hsame])
  rw [build_none, build_none] at hcarried
  rw [build_none]
  exact hcarried

/-- Whatever screen it is, its text is decoded where its finite numbers are read back, to a screen
without an index. The collection has the same identifiers and the same complete set and is complete
or not as before; the table compares equal and gives the same distances; and the pairs and errors
are those of the transmitted screen, which is the screen itself if it has no index. Over the sites
of the screens themselves, pairs lead to the origin that was given on decoding. Once decoded, a
screen stays what it is. -/
theorem Obtained.decode_encode {screen : Screen α} (h : screen.Obtained) (origin : Nat)
    (hnumbers : ∀ x ∈ screen.numbers, Scalar.isFinite x = true → Wire.ReadsBack x) :
    ∃ received : Screen α,
      (Wire.screenCodec origin).decode ((Wire.screenCodec origin).encode screen) = .ok received ∧
      received.usesIndex = false ∧
      Option.Rel (fun c d => c.ids = d.ids ∧ c.complete.toList = d.complete.toList ∧
        c.isComplete = d.isComplete) received.sites screen.sites ∧
      (received.cutoffs.same screen.cutoffs = true ∧ ∀ (region : String) (magnitude : Option α),
        received.cutoffs.get region magnitude = screen.cutoffs.get region magnitude) ∧
      (∀ (sources : List (Source α)) (c : SiteCollection α),
        received.items (some c) sources = screen.transmitted.items (some c) sources) ∧
      (∀ sources : List (Source α), received.items none sources =
        screen.transmitted.items (screen.sites.map (·.withOrigin origin)) sources) ∧
      (∀ sources : List (Source α), (∀ source ∈ sources, source.IgnoresOrigin) →
        received.items none sources =
          (screen.transmitted.items none sources).map (·.withOrigin origin)) ∧
      (screen.usesIndex = false → screen.transmitted = screen) ∧
      ∀ other : Nat, (Wire.screenCodec other).decode ((Wire.screenCodec other).encode received) =
        .ok { received with sites := received.sites.map (·.withOrigin other) } := by
  obtain ⟨received, hcarried, hindex, hsites, hagrees, hsame, hagain⟩ :=
    h.exists_received origin hnumbers
  have hnone : received.sites.isNone = screen.sites.isNone := by
    rw [hsites, Option.isNone_map]
  have hitems (sites : Option (SiteCollection α)) {sites' : Option (SiteCollection α)}
      (hchosen : sites.or received.sites = sites'.or screen.sites) (sources : List (Source α)) :
      received.items sites sources = screen.transmitted.items sites' sources :=
    items_eq_of_agrees hindex (index_transmitted screen) hagrees hnone hchosen sources
  have hown : ∀ sources : List (Source α), received.items none sources =
      screen.transmitted.items (screen.sites.map (·.withOrigin origin)) sources := by
    refine hitems none ?_
    rw [hsites, Option.none_or]
    cases screen.sites <;> rfl
  refine ⟨received, hcarried.decode_eq, ?_, ?_, ⟨hsame, hagrees.get⟩, ?_, hown, ?_, ?_,
    fun other => (hagain other).decode_eq⟩
  · rw [usesIndex, hindex]
    rfl
  · rw [hsites]
    cases screen.sites with
    | none => exact .none
    | some c => exact .some (by simp)
  · intro sources c
    exact hitems (some c) rfl sources
  · intro sources hsources
    rw [hown]
    exact items_withOrigin (index_transmitted screen) origin hsources
  · intro huse
    obtain ⟨own, entries, cutoffs, kind, rfl, -, -⟩ := h.exists_build
    exact transmitted_build huse

end Wire

theorem decode_encode_of_view : ∃ (own : SiteCollection Float) (cutoffs : CutoffTable Float)
    (received : Screen Float),
    own.complete.ids = [⟨7⟩, ⟨3⟩] ∧ own.ids = [⟨7⟩] ∧ cutoffs.get "any" none = .ok 300 ∧
    (build (some own) cutoffs .tree).usesIndex = true ∧
    (Wire.screenCodec 1).decode ((Wire.screenCodec 1).encode (build (some own) cutoffs .tree)) =
      .ok received ∧
    received.usesIndex = false ∧ received.cutoffs.get "any" none = .ok 300 ∧
    (∃ d, received.sites = some d ∧ d.ids = [⟨7⟩] ∧ d.complete.toList = own.complete.toList ∧
      d.isComplete = false) ∧
    ∀ s : PointSource Float, received.items none [s.toSource] =
      ((build (some own) cutoffs .tree).transmitted.items none [s.toSource]).map
        (·.withOrigin 1) := by
  obtain ⟨positions, hall⟩ := @SiteCollection.ofSites_ok Float _ 0
    [⟨⟨7⟩, 10.5, 45, 0⟩, ⟨⟨3⟩, 11, 46, 0⟩] (by decide) (by decide)
  have hview := SiteCollection.Built.keep (.sites hall)
    (show SiteCollection.keep _ [true, false] = .ok (some ⟨_, some [0]⟩) from rfl)
  have hcheck : Cutoff.check (.byMagnitude [((7 : Float), (300 : Float)), (5, 100)]) =
      .ok (.byMagnitude [(5, 100), (7, 300)]) := by
    have hle : Scalar.totalLE (7 : Float) 5 = false := by decide
    apply Cutoff.check_byMagnitude (by decide) (by decide) _ (by decide)
    simp [Cutoff.sorted, List.mergeSort, hle]
  have htable : CutoffTable.ofEntries
      [(CutoffTable.defaultRegion, .byMagnitude [((7 : Float), (300 : Float)), (5, 100)])] =
      .ok (CutoffTable.empty.insert CutoffTable.defaultRegion
        (.byMagnitude [(5, 100), (7, 300)])) := by
    rw [CutoffTable.ofEntries, CutoffTable.insertAll_cons hcheck, CutoffTable.insertAll]
  have hsea : SiteCollection.atSeaLevel
      (⟨⟨0, #[⟨⟨7⟩, 10.5, 45, 0⟩, ⟨⟨3⟩, 11, 46, 0⟩], positions⟩, some [0]⟩ : SiteCollection Float) =
      true := by
    change ([⟨⟨7⟩, 10.5, 45, 0⟩] : List (Site Float)).all Site.atSeaLevel = true
    decide
  have hreads : ∀ x ∈ ([10.5, 45, 0, 11, 46, 0, 5, 100, 7, 300] : List Float),
      Wire.ReadsBack x := by
    simp only [List.forall_mem_cons]
    exact ⟨rfl, rfl, rfl, rfl, rfl, rfl, rfl, rfl, rfl, rfl, by simp⟩
  have hscreen := Obtained.built (fun c hc => Option.some.inj hc ▸ hview) (.made htable) .tree
  obtain ⟨received, hdecode, huse, hsites, ⟨-, hget⟩, -, -, hitems, -⟩ :=
    hscreen.decode_encode 1 fun x hx _ => hreads x hx
  generalize hsome : received.sites = found at hsites
  cases hsites with | @some d c hd =>
  refine ⟨_, _, received, rfl, rfl, rfl, ?_, hdecode, huse, (hget _ _).trans rfl,
    ⟨d, hsome, hd.1, hd.2.1, hd.2.2⟩, ?_⟩
  · unfold usesIndex build buildIndex
    dsimp only
    rw [hsea]
    rfl
  · intro s
    exact hitems _ (List.forall_mem_singleton.mpr s.ignoresOrigin)

end Screen

end HazardReach
