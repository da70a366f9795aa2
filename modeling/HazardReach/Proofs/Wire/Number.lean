import HazardReach.Proofs.Wire.Reading
import Mathlib.Data.List.TakeWhile

/-! Numbers and identifiers. A reader of numbers never looks behind the character that ends one, so
that a number that is read back on its own is read back within any text. -/
namespace HazardReach.Wire

variable {α β γ : Type}

/-! ### Readers that stop where a value ends -/

/-- What the reader does is the same when an end and more is added to the text. -/
def Stable (r : Reader α β) : Prop :=
  ∀ s x s' rest, r.run s = .ok (x, s') → Ends rest → r.run (s ++ rest) = .ok (x, s' ++ rest)

theorem Stable.pure (x : β) : Stable (pure x : Reader α β) := by
  rintro s y s' rest h -
  obtain ⟨rfl, rfl⟩ := Prod.mk.inj (Except.ok.inj h)
  rfl

theorem Stable.malformed : Stable (malformed : Reader α β) := by
  rintro s y s' rest h -
  contradiction

theorem Stable.bind {r : Reader α β} {f : β → Reader α γ} (hr : Stable r)
    (hf : ∀ x, Stable (f x)) : Stable (r >>= f) := by
  intro s y s'' rest h hrest
  obtain ⟨x, s', hread, hthen⟩ := run_bind_eq_ok_iff.mp h
  rw [run_bind_ok (hr s x s' rest hread hrest)]
  exact hf x s' y s'' rest hthen hrest

theorem Stable.ite {p : Prop} [Decidable p] {a b : Reader α β} (ha : Stable a) (hb : Stable b) :
    Stable (if p then a else b) := by
  split
  · exact ha
  · exact hb

theorem dropWhile_append_of_ends {p : Char → Bool} (hp : enders.any p = false)
    (s : List Char) {rest : List Char} (hrest : Ends rest) :
    (s ++ rest).dropWhile p = s.dropWhile p ++ rest := by
  rw [List.dropWhile_append]
  split
  · rename_i hempty
    rw [List.isEmpty_iff.mp hempty, List.nil_append, hrest.dropWhile hp]
  · rfl

theorem takeWhile_append_of_ends {p : Char → Bool} (hp : enders.any p = false)
    (s : List Char) {rest : List Char} (hrest : Ends rest) :
    (s ++ rest).takeWhile p = s.takeWhile p := by
  rw [List.takeWhile_append]
  split
  · rename_i hall
    rw [hrest.takeWhile hp, List.append_nil, (List.takeWhile_prefix p).eq_of_length hall]
  · rfl

theorem stable_skipBlanks : Stable (skipBlanks : Reader α Unit) := by
  intro s x s' rest h hrest
  obtain ⟨-, rfl⟩ := Prod.mk.inj (Except.ok.inj h)
  change Except.ok ((), (s ++ rest).dropWhile isBlank) = .ok (_, s.dropWhile isBlank ++ rest)
  rw [dropWhile_append_of_ends rfl s hrest]

theorem stable_digits : Stable (digits : Reader α (List Char)) := by
  intro s x s' rest h hrest
  obtain ⟨rfl, rfl⟩ := Prod.mk.inj (Except.ok.inj h)
  change Except.ok ((s ++ rest).takeWhile Char.isDigit, (s ++ rest).dropWhile Char.isDigit) =
    .ok (s.takeWhile Char.isDigit, s.dropWhile Char.isDigit ++ rest)
  rw [takeWhile_append_of_ends rfl s hrest, dropWhile_append_of_ends rfl s hrest]

theorem run_optionalChar_cons (p : Char → Bool) (c : Char) (s : List Char) :
    (optionalChar p : Reader α (Option Char)).run (c :: s) =
      if p c then .ok (some c, s) else .ok (none, c :: s) := by
  have hget : (get : Reader α (List Char)).run (c :: s) = .ok (c :: s, c :: s) := rfl
  unfold optionalChar
  rw [run_bind_ok hget]
  dsimp only
  split <;> rfl

theorem stable_optionalChar {p : Char → Bool} (hp : enders.any p = false) :
    Stable (optionalChar p : Reader α (Option Char)) := by
  intro s x s' rest h hrest
  cases s with
  | nil =>
    obtain ⟨rfl, rfl⟩ := Prod.mk.inj (Except.ok.inj h)
    cases rest with
    | nil => exact h
    | cons c rest =>
      rw [List.nil_append, run_optionalChar_cons, if_neg (List.any_eq_false.mp hp c (hrest c rfl))]
  | cons c s =>
    rw [run_optionalChar_cons] at h
    rw [List.cons_append, run_optionalChar_cons]
    split at h
    · rename_i hc
      obtain ⟨rfl, rfl⟩ := Prod.mk.inj (Except.ok.inj h)
      rw [if_pos hc]
    · rename_i hc
      obtain ⟨rfl, rfl⟩ := Prod.mk.inj (Except.ok.inj h)
      rw [if_neg hc]
      rfl

theorem stable_someDigits : Stable (someDigits : Reader α (List Char)) :=
  .bind stable_digits fun _ => .ite .malformed (.pure _)

theorem stable_wholeDigits : Stable (wholeDigits : Reader α (List Char)) :=
  .bind stable_someDigits fun _ => .ite .malformed (.pure _)

theorem stable_fractionDigits : Stable (fractionDigits : Reader α (Option (List Char))) := by
  apply Stable.bind (stable_optionalChar rfl)
  intro point
  cases point with
  | none => exact .pure _
  | some c => exact .bind stable_someDigits fun _ => .pure _

theorem stable_exponentDigits : Stable (exponentDigits : Reader α (Option (Bool × List Char))) := by
  apply Stable.bind (stable_optionalChar rfl)
  intro mark
  cases mark with
  | none => exact .pure _
  | some c =>
    exact .bind (stable_optionalChar rfl) fun _ => .bind stable_someDigits fun _ => .pure _

theorem stable_numberParts : Stable (numberParts : Reader α NumberParts) :=
  .bind stable_skipBlanks fun _ => .bind (stable_optionalChar rfl) fun _ =>
    .bind stable_wholeDigits fun _ => .bind stable_fractionDigits fun _ =>
      .bind stable_exponentDigits fun _ => .pure _

theorem run_numberParts_trimmed (s : List Char) :
    (numberParts : Reader α NumberParts).run (trimmed s) = numberParts.run s := by
  have hblanks : (skipBlanks : Reader α Unit).run (trimmed s) = .ok ((), trimmed s) := by
    rw [run_skipBlanks, trimmed_trimmed]
  unfold numberParts
  rw [run_bind_ok hblanks, run_bind_ok (run_skipBlanks s)]

/-- What is made of a number that stands alone is made of it within any text. -/
theorem reads_of_parts {f : NumberParts → Reader α β} (hf : ∀ p, Stable (f p)) {text : List Char}
    {x : β} (h : (numberParts >>= f).run text = .ok (x, [])) :
    Reads (numberParts >>= f) text x := by
  intro s rest hrest hs
  have hread := (Stable.bind stable_numberParts hf) text x [] rest h hrest
  have hsame : (numberParts >>= f).run s = (numberParts >>= f).run (text ++ rest) := by
    rw [StateT.run_bind, StateT.run_bind, ← run_numberParts_trimmed s, hs, run_numberParts_trimmed]
  rw [hsame, hread, List.nil_append]

theorem head_of_parts {s s' : List Char} {p : NumberParts}
    (h : (numberParts : Reader α NumberParts).run s = .ok (p, s')) :
    ∃ c t, trimmed s = c :: t ∧ (c = '-' ∨ c.isDigit = true) := by
  unfold numberParts at h
  rw [run_bind_ok (run_skipBlanks s)] at h
  cases htrimmed : trimmed s with
  | nil =>
    rw [htrimmed] at h
    contradiction
  | cons c t =>
    refine ⟨c, t, rfl, ?_⟩
    rw [htrimmed] at h
    by_cases hc : c = '-'
    · exact .inl hc
    · right
      have hsign : (optionalChar (· == '-') : Reader α (Option Char)).run (c :: t) =
          .ok (none, c :: t) := by
        rw [run_optionalChar_cons, if_neg (by simpa using hc)]
      rw [run_bind_ok hsign] at h
      obtain ⟨ds, s₁, hwhole, -⟩ := run_bind_eq_ok_iff.mp h
      obtain ⟨ds', s₂, hsome, -⟩ := run_bind_eq_ok_iff.mp hwhole
      cases hdigit : c.isDigit with
      | true => rfl
      | false =>
        have hdigits : (digits : Reader α (List Char)).run (c :: t) =
            .ok ([], (c :: t).dropWhile Char.isDigit) := by
          change Except.ok ((c :: t).takeWhile Char.isDigit, (c :: t).dropWhile Char.isDigit) = _
          rw [List.takeWhile_cons_of_neg (by simp [hdigit])]
        unfold someDigits at hsome
        rw [run_bind_ok hdigits] at hsome
        contradiction

/-! ### Numbers -/

/-- The text of the number is read as this number. -/
def ReadsBack [NumberText α] (x : α) : Prop :=
  (number : Reader α α).run (NumberText.wire x).toList = .ok (x, [])

section Numbers

variable [NumberText α]

theorem ReadsBack.reads {x : α} (h : ReadsBack x) :
    Reads (number : Reader α α) (NumberText.wire x).toList x := by
  refine reads_of_parts (fun p => ?_) h
  cases (p.value? : Option α) with
  | none => exact .malformed
  | some y => exact .pure y

theorem ReadsBack.head {x : α} (h : ReadsBack x) :
    ∃ c t, trimmed (NumberText.wire x).toList = c :: t ∧ (c = '-' ∨ c.isDigit = true) := by
  obtain ⟨p, s', hparts, -⟩ := run_bind_eq_ok_iff.mp h
  exact head_of_parts hparts

end Numbers

/-! ### Identifiers -/

theorem head?_toDigits_ne_zero {n : Nat} (h : 0 < n) : (Nat.toDigits 10 n).head? ≠ some '0' := by
  induction n using Nat.strongRecOn with
  | ind n ih =>
    rw [Nat.toDigits_eq_if (by decide)]
    split
    · rename_i hlt
      have hdigit : ∀ n < 10, 0 < n → n.digitChar ≠ '0' := by decide
      simpa using hdigit n hlt h
    · rename_i hge
      have hne : Nat.toDigits 10 (n / 10) ≠ [] := Nat.toDigits_ne_nil
      have hfront := ih (n / 10) (by omega) (by omega)
      rw [List.head?_eq_some_head hne] at hfront
      rw [List.head?_append, List.head?_eq_some_head hne]
      exact hfront

theorem head?_toDigits (n : Nat) :
    (Nat.toDigits 10 n).head? ≠ some '0' ∨ (Nat.toDigits 10 n).length = 1 := by
  cases n with
  | zero => exact .inr rfl
  | succ n => exact .inl (head?_toDigits_ne_zero (Nat.succ_pos n))

theorem isBlank_of_isDigit {c : Char} (h : c.isDigit = true) : isBlank c = false := by
  rw [Bool.eq_false_iff]
  intro hblank
  simp only [isBlank, Bool.or_eq_true, beq_iff_eq] at hblank
  obtain ((rfl | rfl) | rfl) | rfl := hblank <;> contradiction

theorem run_numberParts_of_digits {ds : List Char} (hne : ds ≠ [])
    (hdigits : ∀ c ∈ ds, c.isDigit = true) (hzero : ds.head? ≠ some '0' ∨ ds.length = 1) :
    (numberParts : Reader α NumberParts).run ds = .ok (⟨false, ds, none, none⟩, []) := by
  obtain ⟨c, t, rfl⟩ := List.exists_cons_of_ne_nil hne
  have hc : c.isDigit = true := hdigits c List.mem_cons_self
  have hblanks : (skipBlanks : Reader α Unit).run (c :: t) = .ok ((), c :: t) := by
    rw [run_skipBlanks, trimmed_cons (isBlank_of_isDigit hc)]
  have hsign : (optionalChar (· == '-') : Reader α (Option Char)).run (c :: t) =
      .ok (none, c :: t) := by
    rw [run_optionalChar_cons, if_neg]
    rintro h
    rw [eq_of_beq h] at hc
    contradiction
  have hrun : (digits : Reader α (List Char)).run (c :: t) = .ok (c :: t, []) := by
    change Except.ok ((c :: t).takeWhile Char.isDigit, (c :: t).dropWhile Char.isDigit) = _
    rw [List.takeWhile_eq_self_iff.mpr hdigits, List.dropWhile_eq_nil_iff.mpr hdigits]
  have hsome : (someDigits : Reader α (List Char)).run (c :: t) = .ok (c :: t, []) := by
    unfold someDigits
    rw [run_bind_ok hrun]
    rfl
  have hwhole : (wholeDigits : Reader α (List Char)).run (c :: t) = .ok (c :: t, []) := by
    unfold wholeDigits
    rw [run_bind_ok hsome, if_neg]
    · rfl
    · simpa [imp_iff_not_or] using hzero
  unfold numberParts
  rw [run_bind_ok hblanks, run_bind_ok hsign, run_bind_ok hwhole]
  rfl

theorem digitsValue_toDigits (n : Nat) : digitsValue (Nat.toDigits 10 n) = n :=
  Nat.ofDigitChars_eq_foldl.symm.trans Nat.ofDigitChars_ten_toDigits

theorem natural32?_toDigits (n : UInt32) :
    NumberParts.natural32? ⟨false, Nat.toDigits 10 n.toNat, none, none⟩ = some n := by
  unfold NumberParts.natural32?
  simp only [digitsValue_toDigits]
  simp [n.toNat_lt]

theorem run_numberParts_toString (id : SiteId) :
    (numberParts : Reader α NumberParts).run (toString id).toList =
      .ok (⟨false, Nat.toDigits 10 id.val.toNat, none, none⟩, []) := by
  have hdigits : (toString id).toList = Nat.toDigits 10 id.val.toNat := Nat.toList_repr
  rw [hdigits]
  exact run_numberParts_of_digits Nat.toDigits_ne_nil
    (fun c hc => Nat.isDigit_of_mem_toDigits (by decide) (by decide) hc) (head?_toDigits _)

theorem reads_id (id : SiteId) :
    Reads (Codec.id : Codec α SiteId).read (toString id).toList id := by
  refine reads_of_parts (fun p => ?_) ?_
  · cases p.natural32? with
    | none => exact .malformed
    | some n => exact .pure _
  · rw [run_bind_ok (run_numberParts_toString id), natural32?_toDigits]
    rfl

end HazardReach.Wire
