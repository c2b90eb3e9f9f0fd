import Mathlib.Data.List.Basic

/-!
# Lines

A list is cut behind every element that ends a line; what is behind the last one is a line if it is
not empty.

* `flatten_lines`: the lines make up the list.
* `lines_split`: the list, cut between two of its lines.
* `lines_part`: lines that follow one another are the lines of what they make up.
* `lines_drop`: the lines behind some pieces of the list, as it is split at the end marks.
-/

namespace Stablemate.Lines

variable {α : Type*} {stop : α → Bool} {l l' r : List α} {a : α} {k : ℕ}

/-- The lines of a list; what ends a line belongs to it. -/
def lines (stop : α → Bool) : List α → List (List α)
  | [] => []
  | a :: l =>
    if stop a then [a] :: lines stop l
    else
      match lines stop l with
      | [] => [[a]]
      | x :: xs => (a :: x) :: xs

@[simp] theorem lines_nil : lines stop [] = [] := rfl

theorem lines_cons_stop (ha : stop a = true) : lines stop (a :: l) = [a] :: lines stop l := by
  rw [lines, if_pos ha]

/-- An element in front of the first line. -/
def onto (a : α) : List (List α) → List (List α)
  | [] => [[a]]
  | x :: xs => (a :: x) :: xs

theorem lines_cons (ha : stop a = false) : lines stop (a :: l) = onto a (lines stop l) := by
  rw [lines, if_neg (by simp [ha])]
  cases lines stop l with
  | nil => rfl
  | cons x xs => rfl

theorem flatten_onto (a : α) (xs : List (List α)) : (onto a xs).flatten = a :: xs.flatten := by
  cases xs with
  | nil => rfl
  | cons x xs => rfl

theorem flatten_lines (stop : α → Bool) (l : List α) : (lines stop l).flatten = l := by
  induction l with
  | nil => rfl
  | cons a l ih =>
    cases ha : stop a with
    | true => rw [lines_cons_stop ha, List.flatten_cons, ih, List.singleton_append]
    | false => rw [lines_cons ha, flatten_onto, ih]

/-- A line that an end mark ends. -/
theorem lines_line (hl : ∀ c ∈ l, stop c = false) (ha : stop a = true) (r : List α) :
    lines stop (l ++ a :: r) = (l ++ [a]) :: lines stop r := by
  induction l with
  | nil => exact lines_cons_stop ha
  | cons c l ih =>
    rw [List.cons_append, lines_cons (hl c List.mem_cons_self), ih fun d hd => hl d (List.mem_cons_of_mem c hd)]
    rfl

theorem lines_last (hl : ∀ c ∈ l, stop c = false) (hne : l ≠ []) : lines stop l = [l] := by
  induction l with
  | nil => exact absurd rfl hne
  | cons c l ih =>
    rw [lines_cons (hl c List.mem_cons_self)]
    cases l with
    | nil => rfl
    | cons d l =>
      rw [ih (fun e he => hl e (List.mem_cons_of_mem c he)) (List.cons_ne_nil d l)]
      rfl

/-- **A list is one line without an end mark, or a line and the rest.** -/
theorem first_line (stop : α → Bool) (l : List α) :
    (∀ c ∈ l, stop c = false) ∨ ∃ p a r, l = p ++ a :: r ∧ (∀ c ∈ p, stop c = false) ∧ stop a = true := by
  induction l with
  | nil => exact .inl fun c hc => absurd hc List.not_mem_nil
  | cons b l ih =>
    cases hb : stop b with
    | true => exact .inr ⟨[], b, l, rfl, fun c hc => absurd hc List.not_mem_nil, hb⟩
    | false =>
      rcases ih with hall | ⟨p, a, r, rfl, hp, ha⟩
      · exact .inl (List.forall_mem_cons.2 ⟨hb, hall⟩)
      · exact .inr ⟨b :: p, a, r, rfl, List.forall_mem_cons.2 ⟨hb, hp⟩, ha⟩

/-- **A list, cut between two of its lines.** -/
theorem lines_split : ∀ {k : ℕ} {l : List α}, k < (lines stop l).length →
    ∃ h r, l = h ++ r ∧ lines stop h = (lines stop l).take k ∧ lines stop r = (lines stop l).drop k ∧
      (h = [] ∨ ∃ p a, h = p ++ [a] ∧ stop a = true) := by
  intro k
  induction k with
  | zero => exact fun {l} _ => ⟨[], l, rfl, rfl, rfl, .inl rfl⟩
  | succ k ih =>
    intro l hk
    rcases first_line stop l with hall | ⟨p, a, r, rfl, hp, ha⟩
    · cases l with
      | nil => simp at hk
      | cons c l =>
        rw [lines_last hall (List.cons_ne_nil c l)] at hk
        simp at hk
    · rw [lines_line hp ha] at hk ⊢
      obtain ⟨h, r', rfl, htake, hdrop, hend⟩ := ih (l := r) (Nat.lt_of_succ_lt_succ hk)
      refine ⟨p ++ a :: h, r', by simp, ?_, ?_, .inr ?_⟩
      · rw [lines_line hp ha, htake, List.take_succ_cons]
      · rw [hdrop, List.drop_succ_cons]
      · rcases hend with rfl | ⟨q, b, rfl, hb⟩
        · exact ⟨p, a, rfl, ha⟩
        · exact ⟨p ++ a :: q, b, by simp, hb⟩

/-- A list has a line for each end mark, and one for what is behind the last. -/
theorem length_lines (l : List α) :
    (lines stop l).length = l.countP stop + if l.getLast?.all stop then 0 else 1 := by
  induction l with
  | nil => rfl
  | cons a l ih =>
    cases ha : stop a with
    | true =>
      rw [lines_cons_stop ha, List.length_cons, ih, List.countP_cons_of_pos ha]
      cases l with
      | nil => simp [ha]
      | cons b l => rw [List.getLast?_cons_cons]; omega
    | false =>
      rw [lines_cons ha, List.countP_cons_of_neg (by simp [ha])]
      cases l with
      | nil => simp [onto, ha]
      | cons b l =>
        have hlen : (onto a (lines stop (b :: l))).length = (lines stop (b :: l)).length := by
          cases hlines : lines stop (b :: l) with
          | nil =>
            have hflat := flatten_lines stop (b :: l)
            rw [hlines] at hflat
            cases hflat
          | cons x xs => rfl
        rw [hlen, ih, List.getLast?_cons_cons]

/-- Some of the first lines are the lines of what they make up. -/
theorem lines_take (stop : α → Bool) (k : ℕ) (l : List α) : lines stop ((lines stop l).take k).flatten = (lines stop l).take k := by
  rcases Nat.lt_or_ge k (lines stop l).length with hk | hk
  · obtain ⟨h, r, -, htake, -, -⟩ := lines_split hk
    rw [← htake, flatten_lines]
  · rw [List.take_of_length_le hk, flatten_lines]

theorem lines_flatten_drop (k : ℕ) (l : List α) : lines stop ((lines stop l).drop k).flatten = (lines stop l).drop k := by
  rcases Nat.lt_or_ge k (lines stop l).length with hk | hk
  · obtain ⟨h, r, -, -, hdrop, -⟩ := lines_split hk
    rw [← hdrop, flatten_lines]
  · rw [List.drop_of_length_le hk]
    rfl

/-- **So are any that follow one another.** -/
theorem lines_part (j k : ℕ) (l : List α) :
    lines stop (((lines stop l).take k).drop j).flatten = ((lines stop l).take k).drop j := by
  have htake := lines_take stop k l
  calc lines stop (((lines stop l).take k).drop j).flatten
      = lines stop ((lines stop ((lines stop l).take k).flatten).drop j).flatten := by rw [htake]
    _ = (lines stop ((lines stop l).take k).flatten).drop j := lines_flatten_drop j _
    _ = ((lines stop l).take k).drop j := by rw [htake]

/-! ## Pieces -/

section Pieces

variable [BEq α] [LawfulBEq α]

/-- **Behind some pieces stand the lines behind as many lines.** -/
theorem lines_drop : ∀ (k : ℕ) (l : List α),
    lines (· == a) ([a].intercalate ((l.splitOn a).drop k)) = (lines (· == a) l).drop k := by
  intro k
  induction k with
  | zero => intro l; rw [List.drop_zero, List.intercalate_splitOn, List.drop_zero]
  | succ k ih =>
    intro l
    rcases first_line (· == a) l with hall | ⟨p, b, r, rfl, hp, hb⟩
    · rw [List.splitOn_eq_singleton_of_beq_eq_false hall, List.drop_succ_cons, List.drop_nil]
      cases l with
      | nil => rfl
      | cons c l => rw [lines_last hall (List.cons_ne_nil c l)]; simp
    · rw [List.splitOn_append_cons_of_forall_mem_beq_eq_false hp b hb, lines_line hp hb, List.drop_succ_cons,
        List.drop_succ_cons, ih]

omit [LawfulBEq α] in
/-- A piece that is not empty is on a line. -/
theorem lt_length_lines : ∀ {k : ℕ} {l x : List α}, (l.splitOn a)[k]? = some x → x ≠ [] → k < (lines (· == a) l).length := by
  intro k
  induction k with
  | zero =>
    intro l x hx hne
    rcases first_line (· == a) l with hall | ⟨p, b, r, rfl, hp, hb⟩
    · rw [List.splitOn_eq_singleton_of_beq_eq_false hall] at hx
      obtain rfl := Option.some.inj hx
      rw [lines_last hall hne]
      exact Nat.zero_lt_one
    · rw [lines_line hp hb]
      exact Nat.zero_lt_succ _
  | succ k ih =>
    intro l x hx hne
    rcases first_line (· == a) l with hall | ⟨p, b, r, rfl, hp, hb⟩
    · rw [List.splitOn_eq_singleton_of_beq_eq_false hall] at hx
      cases hx
    · rw [List.splitOn_append_cons_of_forall_mem_beq_eq_false hp b hb] at hx
      rw [lines_line hp hb]
      exact Nat.succ_lt_succ (ih hx hne)

end Pieces

end Stablemate.Lines
