import HazardReach.Proofs.Wire.Number
import HazardReach.Proofs.Wire.Text
import HazardReach.Wire.Forms
import Mathlib.Data.List.Forall2

/-! Values carried by codecs: what is read of the text that was written. Each way to put codecs
together carries what its parts carry. -/
namespace HazardReach.Wire

variable {α β γ : Type}

/-- Written as `x`, read as `y`. Within a list the text is not taken for the end of it. -/
structure Codec.Carries (c : Codec α β) (x y : β) : Prop where
  reads : Reads c.read (c.write x).toList y
  opens : ∃ d t, trimmed (c.write x).toList = d :: t ∧ d ≠ ']'

namespace Codec.Carries

variable {c : Codec α β} {d : Codec α γ} {x y : β}

theorem decode_eq (h : c.Carries x y) : c.decode (c.encode x) = .ok y := decode_of_reads h.reads

theorem refine {z z' : γ} {shape : γ → β} {accept : β → Except (WireFault α) γ}
    (h : c.Carries (shape z) y) (haccept : accept y = .ok z') :
    (c.refine shape accept).Carries z z' where
  reads s rest hrest hs := by
    rw [run_refine shape accept (h.reads s rest hrest hs), haccept]
    rfl
  opens := h.opens

theorem number [NumberText α] {x : α} (h : ReadsBack x) : Codec.number.Carries x x where
  reads := h.reads
  opens := by
    obtain ⟨d, t, hd, hsign⟩ := h.head
    refine ⟨d, t, hd, ?_⟩
    rintro rfl
    contradiction

theorem id (x : SiteId) : (Codec.id : Codec α SiteId).Carries x x where
  reads := reads_id x
  opens := by
    obtain ⟨d, t, hd, hsign⟩ := head_of_parts (run_numberParts_toString (α := α) x)
    refine ⟨d, t, hd, ?_⟩
    rintro rfl
    contradiction

end Codec.Carries

/-! ### What is read -/

/-- Values that are read off the front of some text. -/
def Codec.Yields (c : Codec α β) (x : β) : Prop := ∃ s rest, c.read.run s = .ok (x, rest)

theorem Codec.exists_run_of_decode {c : Codec α β} {text : String} {x : β}
    (h : c.decode text = .ok x) : ∃ s, c.read.run text.toList = .ok (x, s) ∧ trimmed s = [] := by
  unfold decode at h
  split at h
  · rename_i y hrun
    obtain ⟨z, s, hread, hrest⟩ := run_bind_eq_ok_iff.mp hrun
    obtain ⟨rfl, hs⟩ := Prod.mk.inj (Except.ok.inj hrest)
    rw [← Except.ok.inj h]
    exact ⟨s, hread, hs⟩
  · contradiction
  · contradiction

theorem Codec.yields_of_decode {c : Codec α β} {text : String} {x : β}
    (h : c.decode text = .ok x) : c.Yields x := by
  obtain ⟨s, hread, -⟩ := exists_run_of_decode h
  exact ⟨_, s, hread⟩

theorem Codec.decode_refine {c : Codec α β} {text : String} {y : β} (h : c.decode text = .ok y)
    (shape : γ → β) (accept : β → Except (WireFault α) γ) :
    (c.refine shape accept).decode text = accept y := by
  obtain ⟨s, hread, hs⟩ := exists_run_of_decode h
  have hrun := run_refine shape accept hread
  cases haccept : accept y with
  | error fault =>
    rw [haccept] at hrun
    exact decode_of_run_error hrun
  | ok z =>
    rw [haccept] at hrun
    exact decode_of_run hrun hs

theorem Codec.Yields.of_refine {c : Codec α β} {shape : γ → β}
    {accept : β → Except (WireFault α) γ} {z : γ} (h : (c.refine shape accept).Yields z) :
    ∃ y, c.Yields y ∧ accept y = .ok z := by
  obtain ⟨s, rest, h⟩ := h
  obtain ⟨y, s', hread, haccept⟩ := run_bind_eq_ok_iff.mp h
  refine ⟨y, ⟨s, s', hread⟩, ?_⟩
  cases hy : accept y with
  | error fault =>
    rw [hy] at haccept
    contradiction
  | ok z' =>
    rw [hy] at haccept
    obtain ⟨rfl, -⟩ := Prod.mk.inj (Except.ok.inj haccept)
    rfl

theorem Codec.Yields.of_optional {c : Codec α β} {x : β} (h : c.optional.Yields (some x)) :
    c.Yields x := by
  obtain ⟨s, rest, h⟩ := h
  obtain ⟨found, s', -, h⟩ := run_bind_eq_ok_iff.mp h
  split at h
  · obtain ⟨_, _, -, h⟩ := run_bind_eq_ok_iff.mp h
    obtain ⟨h, -⟩ := Prod.mk.inj (Except.ok.inj h)
    contradiction
  · obtain ⟨y, s'', hread, h⟩ := run_bind_eq_ok_iff.mp h
    obtain ⟨h, -⟩ := Prod.mk.inj (Except.ok.inj h)
    rw [← Option.some.inj h]
    exact ⟨_, _, hread⟩

/-! ### Lists -/

theorem intercalate_comma (text : List Char) (texts : List (List Char)) :
    [','].intercalate (text :: texts) = text ++ texts.flatMap (',' :: ·) := by
  induction texts generalizing text with
  | nil => simp [List.intercalate]
  | cons t ts ih =>
    rw [List.intercalate_cons_cons, ih, List.flatMap_cons]
    simp

/-- A text has room for every value that is listed in it. -/
theorem length_lt_listed (text : List Char) (texts : List (List Char)) (close : Char)
    (rest : List Char) :
    texts.length < (text ++ (texts.flatMap (',' :: ·) ++ close :: rest)).length := by
  induction texts with
  | nil =>
    simp only [List.length_append, List.length_cons, List.length_nil]
    omega
  | cons t ts ih =>
    simp only [List.flatMap_cons, List.length_append, List.length_cons] at ih ⊢
    omega

theorem run_items_last {r : Reader α β} {s rest : List Char} {x : β} (fuel : Nat)
    (h : r.run s = .ok (x, ']' :: rest)) :
    (Codec.items r (fuel + 1)).run s = .ok ([x], rest) := by
  have hclose : trimmed (']' :: rest) = ']' :: rest := rfl
  unfold Codec.items
  rw [run_bind_ok h, run_ite_peek_ne hclose (by decide), run_bind_ok (run_symbol hclose)]
  rfl

theorem run_items_more {r : Reader α β} {s t rest : List Char} {x : β} {xs : List β} {fuel : Nat}
    (h : r.run s = .ok (x, ',' :: t)) (hmore : (Codec.items r fuel).run t = .ok (xs, rest)) :
    (Codec.items r (fuel + 1)).run s = .ok (x :: xs, rest) := by
  have hcomma : trimmed (',' :: t) = ',' :: t := rfl
  unfold Codec.items
  rw [run_bind_ok h, run_ite_peek_eq hcomma, run_bind_ok (run_symbol hcomma), run_bind_ok hmore]
  rfl

theorem run_items {r : Reader α β} {texts : List (List Char)} {ys : List β}
    (h : List.Forall₂ (Reads r) texts ys) {text : List Char} {y : β} (hy : Reads r text y)
    {fuel : Nat} (hfuel : texts.length < fuel) {s rest : List Char}
    (hs : trimmed s = trimmed (text ++ (texts.flatMap (',' :: ·) ++ ']' :: rest))) :
    (Codec.items r fuel).run s = .ok (y :: ys, rest) := by
  induction h generalizing text y fuel s with
  | nil =>
    obtain ⟨fuel, rfl⟩ := Nat.exists_eq_add_one_of_ne_zero (Nat.ne_zero_of_lt hfuel)
    exact run_items_last fuel (hy s _ (.cons (by decide) rest) hs)
  | @cons text' z texts zs hz htexts ih =>
    obtain ⟨fuel, rfl⟩ := Nat.exists_eq_add_one_of_ne_zero (Nat.ne_zero_of_lt hfuel)
    rw [List.flatMap_cons, List.append_assoc] at hs
    apply run_items_more (hy s _ (.cons (by decide) _) hs)
    exact ih hz (by simpa using hfuel) rfl

theorem toList_write_list (c : Codec α β) (xs : List β) :
    ((Codec.list c).write xs).toList =
      '[' :: ([','].intercalate (xs.map fun x => (c.write x).toList) ++ [']']) := by
  simp only [Codec.list, String.toList_append, String.toList_intercalate, List.map_map]
  rfl

theorem trimmed_write_list (c : Codec α β) (xs : List β) :
    ∃ t, trimmed ((Codec.list c).write xs).toList = '[' :: t := by
  rw [toList_write_list]
  exact ⟨_, trimmed_cons (by decide) _⟩

theorem Codec.Carries.list {c : Codec α β} {xs ys : List β} (h : List.Forall₂ c.Carries xs ys) :
    (Codec.list c).Carries xs ys := by
  constructor
  · intro s rest hrest hs
    rw [toList_write_list, List.cons_append, List.append_assoc, List.singleton_append,
      trimmed_cons (by decide)] at hs
    unfold Codec.list
    rw [run_bind_ok (run_symbol hs)]
    cases h with
    | nil =>
      have hclose : trimmed ([','].intercalate [] ++ ']' :: rest) = ']' :: rest := rfl
      rw [List.map_nil, run_ite_peek_eq hclose, run_bind_ok (run_symbol rfl)]
      rfl
    | @cons x y xs ys hx hxs =>
      obtain ⟨d, t, hd, hne⟩ := hx.opens
      rw [List.map_cons, intercalate_comma, List.append_assoc]
      have hfirst := trimmed_append hd
        ((xs.map fun x => (c.write x).toList).flatMap (',' :: ·) ++ ']' :: rest)
      rw [run_ite_peek_ne hfirst hne, run_bind_ok (run_get _)]
      have htexts : List.Forall₂ (Reads c.read) (xs.map fun x => (c.write x).toList) ys :=
        List.forall₂_map_left_iff.mpr (hxs.imp fun _ _ h => h.reads)
      apply run_items htexts hx.reads
      · exact length_lt_listed (d :: t) _ ']' rest
      · rw [← hfirst, trimmed_trimmed]
  · obtain ⟨t, ht⟩ := trimmed_write_list c xs
    exact ⟨'[', t, ht, by decide⟩

/-! ### Pairs, options and dictionaries -/

theorem toList_write_pair (c : Codec α β) (d : Codec α γ) (x : β) (y : γ) :
    ((Codec.pair c d).write (x, y)).toList =
      '[' :: ((c.write x).toList ++ ',' :: ((d.write y).toList ++ [']'])) := by
  simp only [Codec.pair, String.toList_append]
  simp

theorem Codec.Carries.pair {c : Codec α β} {d : Codec α γ} {x x' : β} {y y' : γ}
    (hx : c.Carries x x') (hy : d.Carries y y') : (Codec.pair c d).Carries (x, y) (x', y') := by
  constructor
  · intro s rest hrest hs
    rw [toList_write_pair, List.cons_append, List.append_assoc, List.cons_append,
      List.append_assoc, List.singleton_append, trimmed_cons (by decide)] at hs
    unfold Codec.pair
    rw [run_bind_ok (run_symbol hs), run_bind_ok (hx.reads.run _ (.cons (by decide) _)),
      run_bind_ok (run_symbol rfl), run_bind_ok (hy.reads.run _ (.cons (by decide) _)),
      run_bind_ok (run_symbol rfl)]
    rfl
  · rw [toList_write_pair]
    exact ⟨'[', _, trimmed_cons (by decide) _, by decide⟩

theorem Codec.Carries.optional_none (c : Codec α β) : c.optional.Carries none none := by
  have htext : (c.optional.write none).toList = ['n', 'u', 'l', 'l'] := by
    change "null".toList = _
    rfl
  constructor
  · intro s rest hrest hs
    rw [htext] at hs
    have hnull := hs.trans (trimmed_cons (by decide) _)
    unfold optional
    rw [run_ite_peek_eq hnull]
    exact run_bind_ok (run_literal ['n', 'u', 'l', 'l'] rest)
  · rw [htext]
    exact ⟨'n', _, trimmed_cons (by decide) _, by decide⟩

theorem Codec.Carries.optional_some {c : Codec α β} {x y : β} (h : c.Carries x y) {d : Char}
    {t : List Char} (hd : trimmed (c.write x).toList = d :: t) (hne : d ≠ 'n') :
    c.optional.Carries (some x) (some y) where
  reads s rest hrest hs := by
    have hfirst := hs.trans (trimmed_append hd rest)
    unfold optional
    rw [run_ite_peek_ne hfirst hne, run_bind_ok (h.reads.run_behind hrest hs hfirst)]
    rfl
  opens := h.opens

theorem run_members_last {r : Reader α β} {s rest value : List Char} {key : String} {x : β}
    (fuel : Nat) (hs : trimmed s = memberText key value ++ '}' :: rest) (h : Reads r value x) :
    (Codec.members r (fuel + 1)).run s = .ok ([(key, x)], rest) := by
  have hclose : trimmed ('}' :: rest) = '}' :: rest := rfl
  unfold Codec.members
  rw [run_key key value hs, run_bind_ok (h.run _ (.cons (by decide) rest)),
    run_ite_peek_ne hclose (by decide), run_bind_ok (run_symbol hclose)]
  rfl

theorem run_members_more {r : Reader α β} {s t rest value : List Char} {key : String} {x : β}
    {xs : List (String × β)} {fuel : Nat} (hs : trimmed s = memberText key value ++ ',' :: t)
    (h : Reads r value x) (hmore : (Codec.members r fuel).run t = .ok (xs, rest)) :
    (Codec.members r (fuel + 1)).run s = .ok ((key, x) :: xs, rest) := by
  have hcomma : trimmed (',' :: t) = ',' :: t := rfl
  unfold Codec.members
  rw [run_key key value hs, run_bind_ok (h.run _ (.cons (by decide) t)),
    run_ite_peek_eq hcomma, run_bind_ok (run_symbol hcomma), run_bind_ok hmore]
  rfl

theorem run_members {r : Reader α β} {members : List (String × List Char)}
    {ys : List (String × β)}
    (h : List.Forall₂ (fun m y => m.1 = y.1 ∧ Reads r m.2 y.2) members ys)
    {key : String} {value : List Char} {y : β} (hy : Reads r value y)
    {fuel : Nat} (hfuel : members.length < fuel) {s rest : List Char}
    (hs : trimmed s = memberText key value ++
      ((members.map fun m => memberText m.1 m.2).flatMap (',' :: ·) ++ '}' :: rest)) :
    (Codec.members r fuel).run s = .ok ((key, y) :: ys, rest) := by
  induction h generalizing key value y fuel s with
  | nil =>
    obtain ⟨fuel, rfl⟩ := Nat.exists_eq_add_one_of_ne_zero (Nat.ne_zero_of_lt hfuel)
    exact run_members_last fuel hs hy
  | @cons m z members zs hz hmembers ih =>
    obtain ⟨fuel, rfl⟩ := Nat.exists_eq_add_one_of_ne_zero (Nat.ne_zero_of_lt hfuel)
    rw [List.map_cons, List.flatMap_cons, List.append_assoc] at hs
    apply run_members_more hs hy
    rw [← Prod.eta z, ← hz.1]
    apply ih hz.2 (by simpa using hfuel)
    exact trimmed_memberText _ _ _

theorem toList_write_dictionary (c : Codec α β) (xs : List (String × β)) :
    ((Codec.dictionary c).write xs).toList =
      '{' :: ([','].intercalate (xs.map fun x => memberText x.1 (c.write x.2).toList) ++
        ['}']) := by
  have hmembers : (xs.map fun x => Codec.quote x.1 ++ ":" ++ c.write x.2).map String.toList =
      xs.map fun x => memberText x.1 (c.write x.2).toList := by
    rw [List.map_map]
    exact List.map_congr_left fun x _ => toList_member x.1 _
  unfold Codec.dictionary
  rw [String.toList_append, String.toList_append, String.toList_intercalate, hmembers]
  rfl

theorem Codec.Carries.dictionary {c : Codec α β} {xs ys : List (String × β)}
    (h : List.Forall₂ (fun x y => x.1 = y.1 ∧ c.Carries x.2 y.2) xs ys) :
    (Codec.dictionary c).Carries xs ys := by
  constructor
  · intro s rest hrest hs
    rw [toList_write_dictionary, List.cons_append, List.append_assoc, List.singleton_append,
      trimmed_cons (by decide)] at hs
    unfold Codec.dictionary
    rw [run_bind_ok (run_symbol hs)]
    cases h with
    | nil =>
      have hclose : trimmed ([','].intercalate [] ++ '}' :: rest) = '}' :: rest := rfl
      rw [List.map_nil, run_ite_peek_eq hclose, run_bind_ok (run_symbol rfl)]
      rfl
    | @cons x y xs ys hx hxs =>
      rw [List.map_cons, intercalate_comma, List.append_assoc]
      have hfirst := trimmed_memberText x.1 (c.write x.2).toList
        ((xs.map fun x => memberText x.1 (c.write x.2).toList).flatMap (',' :: ·) ++ '}' :: rest)
      obtain ⟨t, ht⟩ := exists_memberText_append x.1 (c.write x.2).toList
        ((xs.map fun x => memberText x.1 (c.write x.2).toList).flatMap (',' :: ·) ++ '}' :: rest)
      rw [run_ite_peek_ne (hfirst.trans ht) (by decide), run_bind_ok (run_get _), ← Prod.eta y,
        ← hx.1]
      have hmembers : List.Forall₂ (fun m y => m.1 = y.1 ∧ Reads c.read m.2 y.2)
          (xs.map fun x => (x.1, (c.write x.2).toList)) ys :=
        List.forall₂_map_left_iff.mpr (hxs.imp fun _ _ h => ⟨h.1, h.2.reads⟩)
      rw [← ht]
      apply run_members hmembers hx.2.reads
      · have hfuel := length_lt_listed (memberText x.1 (c.write x.2).toList)
          (xs.map fun x => memberText x.1 (c.write x.2).toList) '}' rest
        rwa [List.length_map] at hfuel ⊢
      · rw [hfirst, List.map_map]
        rfl
  · rw [toList_write_dictionary]
    exact ⟨'{', _, trimmed_cons (by decide) _, by decide⟩

end HazardReach.Wire
