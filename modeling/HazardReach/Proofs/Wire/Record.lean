import HazardReach.Proofs.Wire.Codec

/-! Records carried as objects. Every member that is written is read into the slot of its field,
where the names of the fields are distinct, and what is not written is filled in. -/
namespace HazardReach.Wire

variable {α β : Type} {βs : List Type}

namespace Fields

def names : {βs : List Type} → Fields α βs → List String
  | _, nil => []
  | _, cons name _ _ _ rest => name :: rest.names

/-- The members that are written: their keys and the texts of their values. -/
def written : {βs : List Type} → Fields α βs → Row βs → List (String × List Char)
  | _, nil, _ => []
  | _, cons name codec _ hidden rest, (x, row) =>
    if hidden x then rest.written row
    else (name, (codec.write x).toList) :: rest.written row

/-- Values that are not written are those that fill in for missing ones. -/
def Carries : {βs : List Type} → Fields α βs → Row βs → Row βs → Prop
  | _, nil, _, _ => True
  | _, cons _ codec absent hidden rest, (x, row), (y, row') =>
    (if hidden x then absent .object = some y else codec.Carries x y) ∧ rest.Carries row row'

theorem Carries.required {name : String} {codec : Codec α β} {rest : Fields α βs} {x y : β}
    {row row' : Row βs} (hx : codec.Carries x y) (hrest : rest.Carries row row') :
    (required name codec rest).Carries (x, row) (y, row') :=
  ⟨hx, hrest⟩

theorem Carries.withDefault {name : String} {codec : Codec α β} {value : β} {rest : Fields α βs}
    {x y : β} {row row' : Row βs} (hx : codec.Carries x y) (hrest : rest.Carries row row') :
    (withDefault name codec value rest).Carries (x, row) (y, row') :=
  ⟨hx, hrest⟩

/-- The slots behind the last member. -/
def filled : {βs : List Type} → Fields α βs → Row βs → Row βs → Slots βs
  | _, nil, _, _ => ()
  | _, cons _ _ _ hidden rest, (x, row), (y, row') =>
    (if hidden x then none else some y, rest.filled row row')

theorem fill?_filled (fields : Fields α βs) {row row' : Row βs} (h : fields.Carries row row') :
    fields.fill? .object (fields.filled row row') = some row' := by
  induction fields with
  | nil => rfl
  | cons name codec absent hidden rest ih =>
    obtain ⟨x, row⟩ := row
    obtain ⟨y, row'⟩ := row'
    have hslot : (if hidden x then none else some y).or (absent .object) = some y := by
      have hx := h.1
      split
      · rename_i hhidden
        rw [if_pos hhidden] at hx
        rw [Option.none_or, hx]
      · rfl
    simp only [filled, fill?, hslot, ih h.2]

theorem keys_written (fields : Fields α βs) (row : Row βs) :
    ∀ m ∈ fields.written row, m.1 ∈ fields.names := by
  induction fields with
  | nil => simp [written]
  | cons name codec absent hidden rest ih =>
    obtain ⟨x, row⟩ := row
    intro m hm
    rw [written] at hm
    split at hm
    · exact List.mem_cons_of_mem _ (ih row m hm)
    · obtain rfl | hm := List.mem_cons.mp hm
      · exact List.mem_cons_self
      · exact List.mem_cons_of_mem _ (ih row m hm)

theorem toList_writeMembers (fields : Fields α βs) (row : Row βs) :
    (fields.writeMembers row).map String.toList =
      (fields.written row).map fun m => memberText m.1 m.2 := by
  induction fields with
  | nil => rfl
  | cons name codec absent hidden rest ih =>
    obtain ⟨x, row⟩ := row
    rw [writeMembers, written]
    split
    · exact ih row
    · rw [List.map_cons, List.map_cons, toList_member, ih row]

/-- Members that are read one after the other, and what they make of the slots. -/
inductive ReadsMembers (fields : Fields α βs) :
    List (String × List Char) → Slots βs → Slots βs → Prop where
  | nil (slots : Slots βs) : ReadsMembers fields [] slots slots
  | cons {key : String} {text : List Char} {members : List (String × List Char)}
    {slots next last : Slots βs} {read : Reader α (Slots βs)}
    (hfield : fields.readMember? key slots = some read) (hread : Reads read text next)
    (hrest : ReadsMembers fields members next last) :
    ReadsMembers fields ((key, text) :: members) slots last

theorem ReadsMembers.behind {name : String} {codec : Codec α β} {absent : Form → Option β}
    {hidden : β → Bool} {rest : Fields α βs} {members : List (String × List Char)}
    {slots last : Slots βs} (h : rest.ReadsMembers members slots last)
    (hkeys : ∀ m ∈ members, m.1 ≠ name) (slot : Option β) :
    (Fields.cons name codec absent hidden rest).ReadsMembers members (slot, slots)
      (slot, last) := by
  induction h with
  | nil slots => apply ReadsMembers.nil
  | @cons key text members slots next last read hfield hread hrest ih =>
    rw [List.forall_mem_cons] at hkeys
    apply ReadsMembers.cons _ (hread.map fun slots => (slot, slots)) (ih hkeys.2)
    rw [readMember?, if_neg (by simpa using hkeys.1), hfield]
    rfl

theorem readsMembers_written (fields : Fields α βs) {row row' : Row βs}
    (hnames : fields.names.Nodup) (h : fields.Carries row row') :
    fields.ReadsMembers (fields.written row) fields.noSlots (fields.filled row row') := by
  induction fields with
  | nil => apply ReadsMembers.nil
  | cons name codec absent hidden rest ih =>
    obtain ⟨x, row⟩ := row
    obtain ⟨y, row'⟩ := row'
    obtain ⟨hname, hnames⟩ := List.nodup_cons.mp hnames
    have hkeys : ∀ m ∈ rest.written row, m.1 ≠ name := by
      rintro m hm rfl
      exact hname (rest.keys_written row m hm)
    have hrest := ih hnames h.2
    have hx := h.1
    rw [written, filled, noSlots]
    by_cases hhidden : hidden x = true
    · rw [if_pos hhidden, if_pos hhidden]
      exact hrest.behind hkeys none
    · rw [if_neg hhidden] at hx
      rw [if_neg hhidden, if_neg hhidden]
      refine .cons ?_ (hx.reads.map fun y => (some y, rest.noSlots)) (hrest.behind hkeys (some y))
      rw [readMember?, if_pos (beq_self_eq_true name)]
      rfl

theorem run_readMembers_last {fields : Fields α βs} {slots last : Slots βs} {key : String}
    {text s rest : List Char} {read : Reader α (Slots βs)} (fuel : Nat)
    (hs : trimmed s = memberText key text ++ '}' :: rest)
    (hfield : fields.readMember? key slots = some read) (hread : Reads read text last) :
    (fields.readMembers (fuel + 1) slots).run s = .ok (last, rest) := by
  have hclose : trimmed ('}' :: rest) = '}' :: rest := rfl
  unfold readMembers
  rw [run_key key text hs]
  simp only [hfield]
  rw [run_bind_ok (hread.run _ (.cons (by decide) rest)),
    run_ite_peek_ne hclose (by decide), run_bind_ok (run_symbol hclose)]
  rfl

theorem run_readMembers_more {fields : Fields α βs} {slots next : Slots βs} {key : String}
    {text s t : List Char} {read : Reader α (Slots βs)} (fuel : Nat)
    (hs : trimmed s = memberText key text ++ ',' :: t)
    (hfield : fields.readMember? key slots = some read) (hread : Reads read text next) :
    (fields.readMembers (fuel + 1) slots).run s = (fields.readMembers fuel next).run t := by
  have hcomma : trimmed (',' :: t) = ',' :: t := rfl
  rw [readMembers, run_key key text hs]
  simp only [hfield]
  rw [run_bind_ok (hread.run _ (.cons (by decide) t)),
    run_ite_peek_eq hcomma, run_bind_ok (run_symbol hcomma)]

theorem ReadsMembers.run {fields : Fields α βs} {members : List (String × List Char)}
    {slots last : Slots βs} (h : fields.ReadsMembers members slots last)
    {key : String} {text : List Char} {before : Slots βs} {read : Reader α (Slots βs)}
    (hfield : fields.readMember? key before = some read) (hread : Reads read text slots)
    {fuel : Nat} (hfuel : members.length < fuel) {s rest : List Char}
    (hs : trimmed s = memberText key text ++
      ((members.map fun m => memberText m.1 m.2).flatMap (',' :: ·) ++ '}' :: rest)) :
    (fields.readMembers fuel before).run s = .ok (last, rest) := by
  induction h generalizing key text before read fuel s with
  | nil slots =>
    obtain ⟨fuel, rfl⟩ := Nat.exists_eq_add_one_of_ne_zero (Nat.ne_zero_of_lt hfuel)
    exact run_readMembers_last fuel hs hfield hread
  | cons hfield' hread' hrest ih =>
    obtain ⟨fuel, rfl⟩ := Nat.exists_eq_add_one_of_ne_zero (Nat.ne_zero_of_lt hfuel)
    rw [List.map_cons, List.flatMap_cons, List.append_assoc] at hs
    rw [run_readMembers_more fuel hs hfield hread]
    exact ih hfield' hread' (by simpa using hfuel) (trimmed_memberText _ _ _)

theorem toList_write_record (fields : Fields α βs) (row : Row βs) :
    ((Codec.record fields).write row).toList =
      '{' :: ([','].intercalate ((fields.written row).map fun m => memberText m.1 m.2) ++
        ['}']) := by
  unfold Codec.record
  rw [String.toList_append, String.toList_append, String.toList_intercalate, toList_writeMembers]
  rfl

theorem ReadsMembers.run_readObject {fields : Fields α βs} {members : List (String × List Char)}
    {last : Slots βs} (h : fields.ReadsMembers members fields.noSlots last) {s rest : List Char}
    (hs : trimmed s = '{' :: ([','].intercalate (members.map fun m => memberText m.1 m.2) ++
      '}' :: rest)) : fields.readObject.run s = .ok (last, rest) := by
  unfold readObject
  rw [run_bind_ok (run_symbol hs)]
  cases h with
  | nil =>
    have hclose : trimmed ([','].intercalate [] ++ '}' :: rest) = '}' :: rest := rfl
    rw [List.map_nil, run_ite_peek_eq hclose, run_bind_ok (run_symbol rfl)]
    rfl
  | @cons key text members slots next last read hfield hread hrest =>
    rw [List.map_cons, intercalate_comma, List.append_assoc]
    have hfirst := trimmed_memberText key text
      ((members.map fun m => memberText m.1 m.2).flatMap (',' :: ·) ++ '}' :: rest)
    obtain ⟨t, ht⟩ := exists_memberText_append key text
      ((members.map fun m => memberText m.1 m.2).flatMap (',' :: ·) ++ '}' :: rest)
    rw [run_ite_peek_ne (hfirst.trans ht) (by decide), run_bind_ok (run_get _), ← ht]
    refine hrest.run hfield hread ?_ hfirst
    have hfuel := length_lt_listed (memberText key text)
      (members.map fun m => memberText m.1 m.2) '}' rest
    rwa [List.length_map] at hfuel

/-! ### What is read -/

/-- Every value is read by the codec of its field, or fills in for a missing one. -/
def Yields : {βs : List Type} → Fields α βs → Row βs → Prop
  | _, nil, _ => True
  | _, cons _ codec absent _ rest, (x, row) =>
    (codec.Yields x ∨ ∃ form, absent form = some x) ∧ rest.Yields row

/-- Every value in a slot is read by the codec of its field. -/
def YieldsSlots : {βs : List Type} → Fields α βs → Slots βs → Prop
  | _, nil, _ => True
  | _, cons _ codec _ _ rest, (slot, slots) =>
    (∀ x ∈ slot, codec.Yields x) ∧ rest.YieldsSlots slots

theorem yieldsSlots_noSlots (fields : Fields α βs) : fields.YieldsSlots fields.noSlots := by
  induction fields with
  | nil => trivial
  | cons name codec absent hidden rest ih => exact ⟨by simp, ih⟩

theorem YieldsSlots.readMember? {fields : Fields α βs} {slots next : Slots βs} {key : String}
    {read : Reader α (Slots βs)} {s s' : List Char} (h : fields.YieldsSlots slots)
    (hfield : fields.readMember? key slots = some read) (hread : read.run s = .ok (next, s')) :
    fields.YieldsSlots next := by
  induction fields generalizing s s' with
  | nil => contradiction
  | cons name codec absent hidden rest ih =>
    obtain ⟨slot, slots⟩ := slots
    rw [Fields.readMember?] at hfield
    split at hfield
    · obtain rfl := Option.some.inj hfield
      cases slot with
      | some x => contradiction
      | none =>
        obtain ⟨x, s₁, hx, hpure⟩ := run_bind_eq_ok_iff.mp hread
        obtain ⟨rfl, -⟩ := Prod.mk.inj (Except.ok.inj hpure)
        refine ⟨?_, h.2⟩
        rintro y ⟨⟩
        exact ⟨_, _, hx⟩
    · obtain ⟨read', hfield', rfl⟩ := Option.map_eq_some_iff.mp hfield
      obtain ⟨next', s₁, hread', hpure⟩ := run_bind_eq_ok_iff.mp hread
      obtain ⟨rfl, -⟩ := Prod.mk.inj (Except.ok.inj hpure)
      exact ⟨h.1, ih h.2 hfield' hread'⟩

theorem YieldsSlots.readMembers {fields : Fields α βs} {slots last : Slots βs} {fuel : Nat}
    {s s' : List Char} (h : fields.YieldsSlots slots)
    (hread : (fields.readMembers fuel slots).run s = .ok (last, s')) :
    fields.YieldsSlots last := by
  induction fuel generalizing slots s with
  | zero => contradiction
  | succ fuel ih =>
    -- Behind a member there are further ones, or the slots are what is read.
    have htail {next : Slots βs} (hnext : fields.YieldsSlots next) {t : List Char}
        (hrest : (peek? >>= fun found => if found == some ',' then
            (symbol ',' >>= fun _ => fields.readMembers fuel next)
          else (symbol '}' >>= fun _ => pure next)).run t = .ok (last, s')) :
        fields.YieldsSlots last := by
      obtain ⟨found, t₁, -, hbranch⟩ := run_bind_eq_ok_iff.mp hrest
      split at hbranch
      · obtain ⟨_, t₂, -, hmore⟩ := run_bind_eq_ok_iff.mp hbranch
        exact ih hnext hmore
      · obtain ⟨_, t₂, -, hpure⟩ := run_bind_eq_ok_iff.mp hbranch
        obtain ⟨rfl, -⟩ := Prod.mk.inj (Except.ok.inj hpure)
        exact hnext
    rw [Fields.readMembers] at hread
    obtain ⟨key, s₁, -, hcolon⟩ := run_bind_eq_ok_iff.mp hread
    obtain ⟨_, s₂, -, hvalue⟩ := run_bind_eq_ok_iff.mp hcolon
    dsimp only at hvalue
    split at hvalue
    · rename_i read hfield
      obtain ⟨next, s₃, hmember, hrest⟩ := run_bind_eq_ok_iff.mp hvalue
      exact htail (h.readMember? hfield hmember) hrest
    · obtain ⟨_, s₃, -, hrest⟩ := run_bind_eq_ok_iff.mp hvalue
      rw [pure_bind] at hrest
      exact htail h hrest

theorem yieldsSlots_of_readElements {fields : Fields α βs} {first : Bool} {slots : Slots βs}
    {s s' : List Char} (h : (fields.readElements first).run s = .ok (slots, s')) :
    fields.YieldsSlots slots := by
  induction fields generalizing first s s' with
  | nil => trivial
  | cons name codec absent hidden rest ih =>
    have helement {t : List Char}
        (hread : (codec.read >>= fun x => rest.readElements false >>= fun slots =>
          pure (some x, slots)).run t = .ok (slots, s')) :
        (cons name codec absent hidden rest).YieldsSlots slots := by
      obtain ⟨x, t₁, hx, hmore⟩ := run_bind_eq_ok_iff.mp hread
      obtain ⟨slots', t₂, hslots, hpure⟩ := run_bind_eq_ok_iff.mp hmore
      obtain ⟨rfl, -⟩ := Prod.mk.inj (Except.ok.inj hpure)
      refine ⟨?_, ih hslots⟩
      rintro y ⟨⟩
      exact ⟨_, _, hx⟩
    rw [readElements] at h
    obtain ⟨found, s₁, -, hbranch⟩ := run_bind_eq_ok_iff.mp h
    generalize (found == some ']') = ended at hbranch
    cases ended with
    | true =>
      obtain ⟨rfl, -⟩ := Prod.mk.inj (Except.ok.inj hbranch)
      exact (cons name codec absent hidden rest).yieldsSlots_noSlots
    | false =>
      cases first with
      | true => exact helement hbranch
      | false =>
        obtain ⟨_, s₂, -, hread⟩ := run_bind_eq_ok_iff.mp hbranch
        exact helement hread

theorem yieldsSlots_of_readObject {fields : Fields α βs} {slots : Slots βs} {s s' : List Char}
    (h : fields.readObject.run s = .ok (slots, s')) : fields.YieldsSlots slots := by
  obtain ⟨_, s₁, -, hbody⟩ := run_bind_eq_ok_iff.mp h
  obtain ⟨found, s₂, -, hbranch⟩ := run_bind_eq_ok_iff.mp hbody
  split at hbranch
  · obtain ⟨_, s₃, -, hpure⟩ := run_bind_eq_ok_iff.mp hbranch
    obtain ⟨rfl, -⟩ := Prod.mk.inj (Except.ok.inj hpure)
    exact fields.yieldsSlots_noSlots
  · obtain ⟨text, s₃, -, hmembers⟩ := run_bind_eq_ok_iff.mp hbranch
    exact fields.yieldsSlots_noSlots.readMembers hmembers

theorem yieldsSlots_of_readArray {fields : Fields α βs} {slots : Slots βs} {s s' : List Char}
    (h : fields.readArray.run s = .ok (slots, s')) : fields.YieldsSlots slots := by
  obtain ⟨_, s₁, -, hbody⟩ := run_bind_eq_ok_iff.mp h
  obtain ⟨read, s₂, hread, hclose⟩ := run_bind_eq_ok_iff.mp hbody
  obtain ⟨_, s₃, -, hpure⟩ := run_bind_eq_ok_iff.mp hclose
  obtain ⟨rfl, -⟩ := Prod.mk.inj (Except.ok.inj hpure)
  exact yieldsSlots_of_readElements hread

theorem YieldsSlots.fill? {fields : Fields α βs} {slots : Slots βs} {form : Form} {row : Row βs}
    (h : fields.YieldsSlots slots) (hfill : fields.fill? form slots = some row) :
    fields.Yields row := by
  induction fields with
  | nil => trivial
  | cons name codec absent hidden rest ih =>
    obtain ⟨slot, slots⟩ := slots
    rw [Fields.fill?] at hfill
    split at hfill
    · rename_i x row' hx hrow
      obtain rfl := Option.some.inj hfill
      refine ⟨?_, ih h.2 hrow⟩
      cases slot with
      | some y =>
        obtain rfl := Option.some.inj hx
        exact .inl (h.1 y rfl)
      | none => exact .inr ⟨form, hx⟩
    · contradiction

end Fields

theorem Codec.Yields.of_record {fields : Fields α βs} {row : Row βs}
    (h : (Codec.record fields).Yields row) : fields.Yields row := by
  obtain ⟨s, rest, h⟩ := h
  obtain ⟨found, s₁, -, hbranch⟩ := run_bind_eq_ok_iff.mp h
  dsimp only at hbranch
  split at hbranch
  · obtain ⟨slots, s₂, hslots, hrow⟩ := run_bind_eq_ok_iff.mp hbranch
    rw [pure_bind] at hrow
    split at hrow
    · rename_i hfill
      obtain ⟨rfl, -⟩ := Prod.mk.inj (Except.ok.inj hrow)
      exact (Fields.yieldsSlots_of_readArray hslots).fill? hfill
    · contradiction
  · obtain ⟨slots, s₂, hslots, hrow⟩ := run_bind_eq_ok_iff.mp hbranch
    rw [pure_bind] at hrow
    split at hrow
    · rename_i hfill
      obtain ⟨rfl, -⟩ := Prod.mk.inj (Except.ok.inj hrow)
      exact (Fields.yieldsSlots_of_readObject hslots).fill? hfill
    · contradiction

theorem trimmed_write_record (fields : Fields α βs) (row : Row βs) :
    ∃ t, trimmed ((Codec.record fields).write row).toList = '{' :: t := by
  rw [Fields.toList_write_record]
  exact ⟨_, trimmed_cons (by decide) _⟩

theorem Codec.Carries.record {fields : Fields α βs}
    {row row' : Row βs} (hnames : fields.names.Nodup) (h : fields.Carries row row') :
    (Codec.record fields).Carries row row' := by
  constructor
  · intro s rest hrest hs
    rw [Fields.toList_write_record, List.cons_append, List.append_assoc, List.singleton_append,
      trimmed_cons (by decide)] at hs
    have hobject := (fields.readsMembers_written hnames h).run_readObject
      ((trimmed_cons (by decide) ([','].intercalate
        ((fields.written row).map fun m => memberText m.1 m.2) ++ '}' :: rest)))
    unfold Codec.record
    dsimp only
    rw [run_ite_peek_ne hs (by decide), run_bind_ok hobject, pure_bind]
    simp only [Fields.fill?_filled fields h]
    rfl
  · obtain ⟨t, ht⟩ := trimmed_write_record fields row
    exact ⟨'{', t, ht, by decide⟩

end HazardReach.Wire
