import HazardReach.Proofs.Wire.Reading

/-! Strings. Each character is read back from the way it is written, so that the whole string is
read up to its closing quote. -/
namespace HazardReach.Wire

variable {α β : Type}

theorem hexUnit?_hexDigit {n : Nat} (h : n < 0x20) :
    hexUnit? '0' '0' (Codec.hexDigit (n / 16)) (Codec.hexDigit (n % 16)) = some n := by
  have hall : ∀ n < 0x20,
      hexUnit? '0' '0' (Codec.hexDigit (n / 16)) (Codec.hexDigit (n % 16)) = some n := by decide
  exact hall n h

theorem quoted?_escape (c : Char) (rest : List Char) :
    quoted? (Codec.escape c ++ rest) = before c (quoted? rest) := by
  fun_cases Codec.escape c with
  | case1 h | case2 _ h | case3 _ _ h | case4 _ _ _ h | case5 _ _ _ _ h | case6 _ _ _ _ _ h
  | case7 _ _ _ _ _ _ h =>
    rw [h]
    rfl
  | case8 _ _ _ _ _ _ _ hcontrol =>
    have hhigh : isHighSurrogate c.toNat = false := by
      simp only [isHighSurrogate, Bool.and_eq_false_iff, decide_eq_false_iff_not]
      omega
    have hlow : isLowSurrogate c.toNat = false := by
      simp only [isLowSurrogate, Bool.and_eq_false_iff, decide_eq_false_iff_not]
      omega
    simp only [List.cons_append, List.nil_append, quoted?, hexUnit?_hexDigit hcontrol, hhigh, hlow,
      Bool.false_eq_true, if_false, Char.ofNat_toNat]
  | case9 hquote hback _ _ _ _ _ hcontrol =>
    rw [List.singleton_append, quoted?, if_neg hcontrol]
    · exact hquote
    · intro a b c d rest h
      exact absurd h hback
    · intro c rest h
      exact absurd h hback

theorem quoted?_flatMap_escape (cs rest : List Char) :
    quoted? (cs.flatMap Codec.escape ++ '"' :: rest) = some (cs, rest) := by
  induction cs with
  | nil => rfl
  | cons c cs ih =>
    rw [List.flatMap_cons, List.append_assoc, quoted?_escape, ih]
    rfl

theorem toList_quote (text : String) :
    (Codec.quote text).toList = '"' :: (text.toList.flatMap Codec.escape ++ ['"']) := by
  simp only [Codec.quote, String.toList_append, String.toList_ofList]
  rfl

theorem run_string (text : String) {s : List Char} (rest : List Char)
    (h : trimmed s = (Codec.quote text).toList ++ rest) :
    (string : Reader α String).run s = .ok (text, rest) := by
  rw [toList_quote, List.cons_append, List.append_assoc, List.singleton_append] at h
  unfold string
  rw [run_bind_ok (run_symbol h)]
  rw [run_bind_ok (run_get _), quoted?_flatMap_escape]
  change Except.ok (String.ofList text.toList, rest) = _
  rw [String.ofList_toList]

/-- A member of an object: its key, quoted, and its value. -/
def memberText (key : String) (value : List Char) : List Char :=
  (Codec.quote key).toList ++ ':' :: value

theorem toList_member (key value : String) :
    (Codec.quote key ++ ":" ++ value).toList = memberText key value.toList := by
  simp only [String.toList_append, memberText, List.append_assoc]
  rfl

theorem exists_memberText_append (key : String) (value rest : List Char) :
    ∃ t, memberText key value ++ rest = '"' :: t := by
  unfold memberText
  rw [toList_quote]
  exact ⟨_, rfl⟩

theorem trimmed_memberText (key : String) (value rest : List Char) :
    trimmed (memberText key value ++ rest) = memberText key value ++ rest := by
  obtain ⟨t, ht⟩ := exists_memberText_append key value rest
  rw [ht]
  exact trimmed_cons (by decide) t

theorem run_key {f : String → Reader α β} (key : String) (value : List Char) {s rest : List Char}
    (h : trimmed s = memberText key value ++ rest) :
    (string >>= fun key => symbol ':' >>= fun _ => f key).run s = (f key).run (value ++ rest) := by
  have hkey : trimmed s = (Codec.quote key).toList ++ ':' :: (value ++ rest) := by
    rw [h, memberText, List.append_assoc, List.cons_append]
  rw [run_bind_ok (run_string key _ hkey), run_bind_ok (run_symbol rfl)]

end HazardReach.Wire
