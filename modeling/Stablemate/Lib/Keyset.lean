import Mathlib.Data.List.Sort

/-!
# Keyset pagination

The rows of a table are read page by page: the first `limit` rows past a cursor, in the
order of their keys, and then on from the key of the last one, until a page is empty.

* `page_append`: what is past a cursor is a page, and what is past the page's last key.
* `scan_eq`: with distinct keys, the pages together are the rows past the first cursor, in
  order, each once.
-/

namespace Stablemate.Keyset

variable {α κ : Type*} [LinearOrder κ] {key : α → κ} {rows : List α}

/-- The rows past the cursor, in the order of their keys. -/
def past (key : α → κ) (rows : List α) (after : κ) : List α :=
  (rows.filter fun a => after < key a).insertionSort fun a b => key a ≤ key b

/-- One page. -/
def page (key : α → κ) (limit : ℕ) (rows : List α) (after : κ) : List α :=
  (past key rows after).take limit

/-- Page after page, `fuel` of them at most. -/
def scan (key : α → κ) (limit : ℕ) (rows : List α) : ℕ → κ → List α
  | 0, _ => []
  | fuel + 1, after =>
    match (page key limit rows after).getLast? with
    | none => []
    | some last => page key limit rows after ++ scan key limit rows fuel (key last)

theorem mem_past {after : κ} {a : α} : a ∈ past key rows after ↔ a ∈ rows ∧ after < key a := by
  simp [past]

theorem length_past_le (key : α → κ) (rows : List α) (after : κ) : (past key rows after).length ≤ rows.length := by
  simpa [past] using List.length_filter_le _ rows

theorem past_perm (rows : List α) (after : κ) :
    (past key rows after).Perm (rows.filter fun a => after < key a) :=
  List.perm_insertionSort _ _

/-- With distinct keys they are in strict order. -/
theorem pairwise_past (hnodup : (rows.map key).Nodup) (after : κ) :
    (past key rows after).Pairwise fun a b => key a < key b := by
  have htotal : Std.Total fun a b : α => key a ≤ key b := ⟨fun a b => le_total (key a) (key b)⟩
  have htrans : IsTrans α fun a b => key a ≤ key b := ⟨fun _ _ _ => le_trans⟩
  have hle : (past key rows after).Pairwise fun a b => key a ≤ key b := List.pairwise_insertionSort _ _
  have hne : (past key rows after).Pairwise fun a b => key a ≠ key b := by
    have hfilter : ((rows.filter fun a => after < key a).map key).Nodup :=
      hnodup.sublist (List.filter_sublist.map key)
    exact List.pairwise_map.1 (((past_perm rows after).map key).nodup_iff.2 hfilter)
  exact hle.imp₂ (fun _ _ hle hne => lt_of_le_of_ne hle hne) hne

/-- In a strictly ordered list, what is past the last of the first `n` is the rest. -/
theorem filter_lt_of_take {l : List α} (hl : l.Pairwise fun a b => key a < key b) {n : ℕ} {last : α}
    (hlast : (l.take n).getLast? = some last) : (l.filter fun a => key last < key a) = l.drop n := by
  obtain ⟨init, hinit⟩ := List.getLast?_eq_some_iff.1 hlast
  rw [← List.take_append_drop n l, List.pairwise_append, hinit] at hl
  obtain ⟨htake, -, hcross⟩ := hl
  have hfront : (l.take n).filter (fun a => key last < key a) = [] := by
    rw [hinit]
    refine List.filter_eq_nil_iff.2 fun a ha => ?_
    rcases List.mem_append.1 ha with ha | ha
    · have := (List.pairwise_append.1 htake).2.2 a ha last (List.mem_singleton_self last)
      simpa using this.le
    · obtain rfl := List.mem_singleton.1 ha
      simp
  have hback : (l.drop n).filter (fun a => key last < key a) = l.drop n :=
    List.filter_eq_self.2 fun a ha =>
      decide_eq_true (hcross last (List.mem_append_right _ (List.mem_singleton_self last)) a ha)
  calc l.filter (fun a => key last < key a)
      = (l.take n ++ l.drop n).filter fun a => key last < key a := by rw [List.take_append_drop]
    _ = l.drop n := by rw [List.filter_append, hfront, hback, List.nil_append]

/-- **What is past a cursor is a page, and what is past the page's last key.** -/
theorem page_append (hnodup : (rows.map key).Nodup) {limit : ℕ} {after : κ} {last : α}
    (hlast : (page key limit rows after).getLast? = some last) :
    page key limit rows after ++ past key rows (key last) = past key rows after := by
  have hmem : last ∈ past key rows after := List.mem_of_mem_take (List.mem_of_getLast? hlast)
  have hafter : after < key last := (mem_past.1 hmem).2
  have hpair := pairwise_past hnodup after
  -- both are the rows past `last`, in strict order
  have hrest : past key rows (key last) = (past key rows after).drop limit := by
    refine List.Perm.eq_of_pairwise (fun a b _ _ hab hba => absurd hba hab.asymm)
      (pairwise_past hnodup _) (hpair.sublist (List.drop_sublist _ _)) ?_
    rw [← filter_lt_of_take hpair hlast]
    refine (past_perm rows _).trans (((past_perm rows after).filter _).trans ?_).symm
    rw [List.filter_filter]
    refine List.Perm.of_eq (List.filter_congr fun a _ => ?_)
    by_cases ha : key last < key a
    · simp [ha, hafter.trans ha]
    · simp [ha]
  rw [hrest, page, List.take_append_drop]

/-- **With distinct keys, the pages together are the rows past the cursor, in order.** -/
theorem scan_eq (hnodup : (rows.map key).Nodup) {limit : ℕ} (hlimit : 0 < limit) : ∀ {fuel : ℕ} {after : κ},
    (past key rows after).length < fuel → scan key limit rows fuel after = past key rows after
  | fuel + 1, after, hfuel => by
    -- a page that is not empty leaves fewer rows past its last key
    rw [scan]
    cases hlast : (page key limit rows after).getLast? with
    | none =>
      have hnil : page key limit rows after = [] := List.getLast?_eq_none_iff.1 hlast
      rcases List.take_eq_nil_iff.1 hnil with h | h
      · omega
      · exact h.symm
    | some last =>
      have happend := page_append hnodup hlast
      have hpos : (page key limit rows after).length ≠ 0 := fun h => by
        rw [List.length_eq_zero_iff.1 h] at hlast
        cases hlast
      have hlength := congrArg List.length happend
      rw [List.length_append] at hlength
      dsimp only
      rw [scan_eq hnodup hlimit (by omega), happend]

end Stablemate.Keyset
