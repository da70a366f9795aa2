import HazardReach.Wire.Codec

/-! Readers step by step. A value is followed by the end of the text or by the character that ends
it or leads on to the next one, and blanks in front of it do not matter. -/
namespace HazardReach.Wire

variable {α β γ : Type}

theorem run_bind_ok {r : Reader α β} {f : β → Reader α γ} {s rest : List Char} {x : β}
    (h : r.run s = .ok (x, rest)) : (r >>= f).run s = (f x).run rest := by
  rw [StateT.run_bind, h]
  rfl

theorem run_bind_eq_ok_iff {r : Reader α β} {f : β → Reader α γ} {s rest : List Char} {y : γ} :
    (r >>= f).run s = .ok (y, rest) ↔
      ∃ x s', r.run s = .ok (x, s') ∧ (f x).run s' = .ok (y, rest) := by
  cases h : r.run s with
  | error fault =>
    rw [StateT.run_bind, h]
    simp [bind, Except.bind]
  | ok read =>
    obtain ⟨x, s'⟩ := read
    rw [run_bind_ok h]
    constructor
    · intro hrest
      exact ⟨x, s', rfl, hrest⟩
    · rintro ⟨x', t, hread, hrest⟩
      obtain ⟨rfl, rfl⟩ := Prod.mk.inj (Except.ok.inj hread)
      exact hrest

theorem Codec.run_refine {c : Codec α β} {s rest : List Char} {y : β} (shape : γ → β)
    (accept : β → Except (WireFault α) γ) (h : c.read.run s = .ok (y, rest)) :
    (c.refine shape accept).read.run s = (accept y).map (·, rest) := by
  unfold refine
  simp only
  rw [run_bind_ok h]
  cases accept y <;> rfl

/-! ### Blanks, and what ends a value -/

/-- The text without the blanks in front of it. -/
def trimmed (s : List Char) : List Char := s.dropWhile isBlank

theorem trimmed_cons {c : Char} (h : isBlank c = false) (s : List Char) :
    trimmed (c :: s) = c :: s := by
  rw [trimmed, List.dropWhile_cons_of_neg (by simpa using h)]

theorem isBlank_of_trimmed {s t : List Char} {c : Char} (h : trimmed s = c :: t) :
    isBlank c = false := by
  have hhead := List.head?_dropWhile_not isBlank s
  rw [← trimmed, h] at hhead
  simpa using hhead

@[simp] theorem trimmed_trimmed (s : List Char) : trimmed (trimmed s) = trimmed s := by
  cases h : trimmed s with
  | nil => rfl
  | cons c t => exact trimmed_cons (isBlank_of_trimmed h) t

theorem trimmed_append {s t : List Char} {c : Char} (h : trimmed s = c :: t)
    (rest : List Char) : trimmed (s ++ rest) = c :: (t ++ rest) := by
  unfold trimmed at h ⊢
  rw [List.dropWhile_append, h]
  rfl

/-- The characters that may stand behind a value. -/
def enders : List Char := [',', ']', '}']

/-- The text ends, or goes on behind a value. -/
def Ends (rest : List Char) : Prop := ∀ c ∈ rest.head?, c ∈ enders

theorem Ends.nil : Ends [] := by simp [Ends]

theorem Ends.cons {c : Char} (h : c ∈ enders) (rest : List Char) : Ends (c :: rest) := by
  simpa [Ends] using h

theorem Ends.dropWhile {rest : List Char} (h : Ends rest) {p : Char → Bool}
    (hp : enders.any p = false) : rest.dropWhile p = rest := by
  cases rest with
  | nil => rfl
  | cons c rest => exact List.dropWhile_cons_of_neg (List.any_eq_false.mp hp c (h c rfl))

theorem Ends.takeWhile {rest : List Char} (h : Ends rest) {p : Char → Bool}
    (hp : enders.any p = false) : rest.takeWhile p = [] := by
  cases rest with
  | nil => rfl
  | cons c rest => exact List.takeWhile_cons_of_neg (List.any_eq_false.mp hp c (h c rfl))

/-! ### Steps -/

section Steps

variable {s t : List Char} {c d : Char}

theorem run_skipBlanks (s : List Char) :
    (skipBlanks : Reader α Unit).run s = .ok ((), trimmed s) := rfl

theorem run_get (s : List Char) : (get : Reader α (List Char)).run s = .ok (s, s) := rfl

theorem run_peek? (s : List Char) :
    (peek? : Reader α (Option Char)).run s = .ok ((trimmed s).head?, trimmed s) := rfl

theorem run_ite_peek_eq {a b : Reader α β} (h : trimmed s = c :: t) :
    (peek? >>= fun found => if found == some c then a else b).run s = a.run (c :: t) := by
  rw [run_bind_ok (run_peek? s), h, List.head?_cons, if_pos (beq_self_eq_true _)]

theorem run_ite_peek_ne {a b : Reader α β} (h : trimmed s = d :: t) (hne : d ≠ c) :
    (peek? >>= fun found => if found == some c then a else b).run s = b.run (d :: t) := by
  rw [run_bind_ok (run_peek? s), h, List.head?_cons, if_neg (by simpa using hne)]

theorem run_symbol (h : trimmed s = c :: t) : (symbol c : Reader α Unit).run s = .ok ((), t) := by
  have hblanks : (skipBlanks : Reader α Unit).run s = .ok ((), c :: t) := by
    rw [run_skipBlanks, h]
  have hnext : (next : Reader α Char).run (c :: t) = .ok (c, t) := rfl
  unfold symbol
  rw [run_bind_ok hblanks, run_bind_ok hnext, bne_self_eq_false]
  rfl

theorem run_literal (word s : List Char) :
    (literal word : Reader α Unit).run (word ++ s) = .ok ((), s) := by
  induction word with
  | nil => rfl
  | cons c word ih =>
    have hnext : (next : Reader α Char).run (c :: (word ++ s)) = .ok (c, word ++ s) := rfl
    rw [literal, List.cons_append, run_bind_ok hnext, bne_self_eq_false]
    exact ih

end Steps

/-- The reader takes just this text, whatever ends it and whatever blanks are in front of it. -/
def Reads (r : Reader α β) (text : List Char) (x : β) : Prop :=
  ∀ s rest, Ends rest → trimmed s = trimmed (text ++ rest) → r.run s = .ok (x, rest)

theorem Reads.run {r : Reader α β} {text : List Char} {x : β} (h : Reads r text x)
    (rest : List Char) (hrest : Ends rest) : r.run (text ++ rest) = .ok (x, rest) :=
  h _ rest hrest rfl

theorem Reads.run_behind {r : Reader α β} {text s t rest : List Char} {x : β} {c : Char}
    (h : Reads r text x) (hrest : Ends rest) (hs : trimmed s = trimmed (text ++ rest))
    (hfirst : trimmed s = c :: t) : r.run (c :: t) = .ok (x, rest) := by
  apply h (c :: t) rest hrest
  rw [← hfirst, trimmed_trimmed, hs]

theorem Reads.map {r : Reader α β} {text : List Char} {x : β} (h : Reads r text x) (f : β → γ) :
    Reads (r >>= fun x => pure (f x)) text (f x) := by
  intro s rest hrest hs
  rw [run_bind_ok (h s rest hrest hs)]
  rfl

theorem Codec.decode_of_run {c : Codec α β} {text : String} {s : List Char} {x : β}
    (h : c.read.run text.toList = .ok (x, s)) (hs : trimmed s = []) : c.decode text = .ok x := by
  have hrun : (do let x ← c.read; skipBlanks; return x : Reader α β).run text.toList =
      .ok (x, []) := by
    rw [run_bind_ok h, run_bind_ok (run_skipBlanks s), hs]
    rfl
  unfold decode
  rw [hrun]

theorem Codec.decode_of_run_error {c : Codec α β} {text : String} {fault : WireFault α}
    (h : c.read.run text.toList = .error fault) : c.decode text = .error fault := by
  have hrun : (do let x ← c.read; skipBlanks; return x : Reader α β).run text.toList =
      .error fault := by
    rw [StateT.run_bind, h]
    rfl
  unfold decode
  rw [hrun]

theorem Codec.decode_of_reads {c : Codec α β} {text : String} {x : β}
    (h : Reads c.read text.toList x) : c.decode text = .ok x := by
  have hread := h text.toList [] .nil (by rw [List.append_nil])
  exact decode_of_run hread rfl

end HazardReach.Wire
