import Mathlib.Algebra.BigOperators.Group.List.Basic
import Stablemate.Proof.WorkList

/-!
# Selection, claiming and counting

* `ordered_stable`: the working order is a stable sort by the order of the rows.
* `candidates_perm`, `mem_candidates_qualified`: which rows are candidates.
* `statusSum_eq`: what the counts count.
* `selection_agrees`: the three read one list in one way.
-/

namespace Stablemate.WorkList

variable {P : Type*} {items : List (WorkItem P)} {kind : KindFilter} {scheme : Scheme} {skip : List Text} {strict : Bool}

/-- No status has two meanings. -/
structure Scheme.Disjoint (s : Scheme) : Prop where
  done_active : ∀ status ∈ s.done, status ∉ s.active
  done_blocked : ∀ status ∈ s.done, status ∉ s.blocked
  active_blocked : ∀ status ∈ s.active, status ∉ s.blocked

/-! ## The working order -/

/-- **The working order** goes by the order of the rows, and keeps equal ones as they are stored. -/
structure StableOrder (rows order : List (WorkItem P)) : Prop where
  perm : order.Perm rows
  sorted : order.Pairwise fun a b => a.key ≤ b.key
  stable : ∀ k : ℚ, (order.filter fun it => it.key = k) = rows.filter fun it => it.key = k

/-- Rows without an order have the key 0. -/
theorem key_of_none (h : (items.any fun it => it.order.isSome) = false) : ∀ it ∈ items, it.key = 0 := by
  intro it hit
  have hnone : it.order = none := by simpa using List.any_eq_false.1 h it hit
  unfold WorkItem.key
  rw [hnone]
  rfl

theorem sorted_ordered (items : List (WorkItem P)) : (ordered items).Pairwise fun a b => a.key ≤ b.key := by
  unfold ordered
  split
  · exact List.pairwise_insertionSort _ _
  · rename_i hno
    have hkeys := key_of_none (Bool.eq_false_iff.2 hno)
    refine List.Pairwise.imp_of_mem ?_ (List.pairwise_of_forall fun _ _ => trivial)
    intro a b ha hb _
    rw [hkeys a ha, hkeys b hb]

theorem ordered_stable (items : List (WorkItem P)) : StableOrder items (ordered items) := by
  refine ⟨ordered_perm items, sorted_ordered items, fun k => ?_⟩
  have hperm : ((ordered items).filter fun it => it.key = k).Perm (items.filter fun it => it.key = k) :=
    (ordered_perm items).filter _
  unfold ordered at hperm ⊢
  split at hperm
  · rename_i hsome
    rw [if_pos hsome]
    -- the rows of one key are sorted already, so the sort keeps them as they are
    have hpair : (items.filter fun it => it.key = k).Pairwise fun a b => a.key ≤ b.key := by
      refine List.Pairwise.imp_of_mem ?_ (List.pairwise_of_forall fun _ _ => trivial)
      intro a b ha hb _
      have hka : a.key = k := by simpa using (List.mem_filter.1 ha).2
      have hkb : b.key = k := by simpa using (List.mem_filter.1 hb).2
      rw [hka, hkb]
    have hsub := (List.sublist_insertionSort hpair (List.filter_sublist)).filter fun it : WorkItem P => it.key = k
    rw [List.filter_filter] at hsub
    simp only [Bool.and_self] at hsub
    exact (hsub.eq_of_length hperm.length_eq.symm).symm
  · rename_i hno
    rw [if_neg hno]

/-! ## The candidates -/

/-- Open and not skipped. -/
def Scheme.qualifies (s : Scheme) (skip : List Text) (it : WorkItem P) : Bool :=
  !s.isDone it && !s.isBlocked it && !skip.contains it.id

theorem Scheme.Disjoint.open_of_active (h : scheme.Disjoint) {it : WorkItem P} (hactive : scheme.isActive it = true) :
    scheme.isDone it = false ∧ scheme.isBlocked it = false := by
  unfold Scheme.isActive at hactive
  unfold Scheme.isDone Scheme.isBlocked
  rw [List.contains_iff_mem] at hactive
  refine ⟨Bool.eq_false_iff.2 fun hno => ?_, Bool.eq_false_iff.2 fun hno => ?_⟩
  · exact h.done_active _ (List.contains_iff_mem.1 hno) hactive
  · exact h.active_blocked _ hactive (List.contains_iff_mem.1 hno)

/-- **Without `strict`** the candidates are the rows that are open and not skipped. -/
theorem candidates_perm (h : scheme.Disjoint) (skip : List Text) (kind : KindFilter) (items : List (WorkItem P)) :
    (candidates scheme skip kind false items).Perm ((ofKind items kind).filter (scheme.qualifies skip)) := by
  have hsplit : candidates scheme skip kind false items =
      ((ordered (ofKind items kind)).filter (scheme.qualifies skip)).filter (fun it => scheme.isActive it) ++
        ((ordered (ofKind items kind)).filter (scheme.qualifies skip)).filter fun it => !scheme.isActive it := by
    rw [List.filter_filter, List.filter_filter]
    show ((ordered (ofKind items kind)).filter fun it => scheme.isActive it && !skip.contains it.id) ++
      ((ordered (ofKind items kind)).filter fun it => scheme.isPending it && !skip.contains it.id) = _
    refine congrArg₂ (· ++ ·) (List.filter_congr fun it _ => ?_) (List.filter_congr fun it _ => ?_)
    · unfold Scheme.qualifies
      cases hactive : scheme.isActive it with
      | false => rfl
      | true =>
        obtain ⟨hdone, hblocked⟩ := h.open_of_active hactive
        rw [hdone, hblocked]
        rfl
    · unfold Scheme.qualifies Scheme.isPending
      simp only [Bool.and_assoc]
  rw [hsplit]
  exact (List.filter_append_perm _ _).trans ((ordered_perm _).filter _)

/-- A strict claim takes at most one row that is not active. -/
theorem pendingCandidates_strict (scheme : Scheme) (skip : List Text) (rows : List (WorkItem P)) :
    pendingCandidates scheme skip true rows = [] ∨ ∃ it, pendingCandidates scheme skip true rows = [it] := by
  unfold pendingCandidates
  rw [if_pos rfl]
  split
  · split
    · exact .inr ⟨_, rfl⟩
    · exact .inl rfl
  · exact .inl rfl

/-- A row that a strict claim takes as pending is the first that is not done, and is not skipped. -/
theorem strict_pending {rows : List (WorkItem P)} {it : WorkItem P} (h : it ∈ pendingCandidates scheme skip true rows) :
    (rows.find? fun it => !scheme.isDone it) = some it ∧ skip.contains it.id = false := by
  unfold pendingCandidates at h
  rw [if_pos rfl] at h
  split at h
  · rename_i first hfirst
    split at h
    · rename_i hopen
      obtain rfl := List.mem_singleton.1 h
      simp only [Bool.and_eq_true, Bool.not_eq_true'] at hopen
      exact ⟨hfirst, hopen.2⟩
    · cases h
  · cases h

theorem pendingCandidates_sublist (rows : List (WorkItem P)) : (pendingCandidates scheme skip strict rows).Sublist rows := by
  cases strict with
  | false => exact List.filter_sublist
  | true =>
    rcases pendingCandidates_strict scheme skip rows with hnil | ⟨it, hone⟩
    · rw [hnil]
      exact List.nil_sublist _
    · have hmem : it ∈ rows := (mem_pendingCandidates (hone ▸ List.mem_cons_self)).1
      rw [hone]
      exact List.singleton_sublist.2 hmem

/-- A strict claim takes none that another would not take. -/
theorem candidates_sublist : (candidates scheme skip kind true items).Sublist (candidates scheme skip kind false items) := by
  unfold candidates
  refine List.Sublist.append (List.Sublist.refl _) ?_
  show (pendingCandidates scheme skip true _).Sublist (pendingCandidates scheme skip false _)
  have hsub : ∀ it ∈ pendingCandidates scheme skip true (ordered (ofKind items kind)),
      it ∈ pendingCandidates scheme skip false (ordered (ofKind items kind)) := by
    intro it hit
    obtain ⟨hmem, hpending⟩ := mem_pendingCandidates hit
    exact List.mem_filter.2 ⟨hmem, by rw [hpending, (strict_pending hit).2]; rfl⟩
  rcases pendingCandidates_strict scheme skip (ordered (ofKind items kind)) with hnil | ⟨it, hone⟩
  · rw [hnil]
    exact List.nil_sublist _
  · rw [hone] at hsub ⊢
    exact List.singleton_sublist.2 (hsub it List.mem_cons_self)

/-! ## The counts -/

theorem sum_indicator {t : Text} : ∀ {statuses : List Text}, statuses.Nodup →
    (statuses.map fun status => if t = status then 1 else 0).sum = if t ∈ statuses then 1 else 0 := by
  intro statuses
  induction statuses with
  | nil => exact fun _ => rfl
  | cons status statuses ih =>
    intro h
    rw [List.nodup_cons] at h
    rw [List.map_cons, List.sum_cons, ih h.2]
    by_cases ht : t = status
    · subst ht
      rw [if_pos rfl, if_neg h.1, if_pos List.mem_cons_self]
    · simp [ht]

theorem sum_count_dedup (statuses texts : List Text) :
    (statuses.dedup.map fun status => texts.count status).sum = texts.countP fun t => statuses.contains t := by
  induction texts with
  | nil => simp
  | cons t texts ih =>
    have hone := sum_indicator (t := t) (List.nodup_dedup statuses)
    rw [List.countP_cons, ← ih]
    simp only [List.count_cons, List.sum_map_add, beq_iff_eq, List.contains_iff_mem]
    rw [hone]
    simp only [List.mem_dedup]

/-- **A bucket counts the rows** whose status means it. -/
theorem statusSum_eq (statuses : List Text) (rows : List (WorkItem P)) :
    statusSum statuses rows = rows.countP fun it => statuses.contains it.status := by
  unfold statusSum
  rw [sum_count_dedup, List.countP_map]
  rfl

/-- Every row has one meaning. -/
theorem length_eq_buckets (h : scheme.Disjoint) (rows : List (WorkItem P)) :
    rows.length = rows.countP (fun it => scheme.isDone it) + rows.countP (fun it => scheme.isActive it) +
      rows.countP (fun it => scheme.isBlocked it) + rows.countP (fun it => scheme.isPending it) := by
  induction rows with
  | nil => rfl
  | cons it rows ih =>
    have hone : (if scheme.isDone it = true then 1 else 0) + (if scheme.isActive it = true then 1 else 0) +
        (if scheme.isBlocked it = true then 1 else 0) + (if scheme.isPending it = true then 1 else 0) = 1 := by
      have hda : scheme.isDone it = true → scheme.isActive it = false := by
        intro hdone
        refine Bool.eq_false_iff.2 fun hno => ?_
        exact h.done_active _ (List.contains_iff_mem.1 hdone) (List.contains_iff_mem.1 hno)
      have hdb : scheme.isDone it = true → scheme.isBlocked it = false := by
        intro hdone
        refine Bool.eq_false_iff.2 fun hno => ?_
        exact h.done_blocked _ (List.contains_iff_mem.1 hdone) (List.contains_iff_mem.1 hno)
      have hab : scheme.isActive it = true → scheme.isBlocked it = false := fun hactive =>
        (h.open_of_active hactive).2
      unfold Scheme.isPending
      cases hd : scheme.isDone it <;> cases ha : scheme.isActive it <;> cases hb : scheme.isBlocked it <;> simp_all
    simp only [List.length_cons, List.countP_cons]
    omega

/-- Open rows are active or pending. -/
theorem countP_qualifies (h : scheme.Disjoint) (rows : List (WorkItem P)) :
    rows.countP (scheme.qualifies []) =
      rows.countP (fun it => scheme.isActive it) + rows.countP (fun it => scheme.isPending it) := by
  induction rows with
  | nil => rfl
  | cons it rows ih =>
    have hone : (if scheme.qualifies [] it = true then 1 else 0) =
        (if scheme.isActive it = true then 1 else 0) + (if scheme.isPending it = true then 1 else 0) := by
      have hopen : scheme.isActive it = true → scheme.isDone it = false ∧ scheme.isBlocked it = false :=
        h.open_of_active
      unfold Scheme.qualifies Scheme.isPending
      cases hd : scheme.isDone it <;> cases ha : scheme.isActive it <;> cases hb : scheme.isBlocked it <;> simp_all
    simp only [List.countP_cons]
    omega

/-! ## The three readers -/

/-- **What selecting, claiming and counting have in common.** -/
structure Agrees (scheme : Scheme) (skip : List Text) (kind : KindFilter) (strict : Bool)
    (category : Option (WorkItem P → Text)) (items : List (WorkItem P)) : Prop where
  claim : ∀ n : ℤ, nextRows scheme skip kind strict n items = (candidates scheme skip kind strict items).take n.toNat ∧
    (nextRows scheme skip kind strict n items).length = min n.toNat (candidates scheme skip kind strict items).length
  first : ∀ n : ℤ, 1 ≤ n → select_next scheme skip kind strict items = (nextRows scheme skip kind strict n items).head?
  qualified : ∀ it ∈ candidates scheme skip kind strict items, it.isKind kind = true ∧ scheme.isDone it = false ∧
    scheme.isBlocked it = false ∧ it.id ∉ skip
  once : (candidates scheme skip kind strict items).Subperm items
  all : strict = false → (candidates scheme skip kind strict items).Perm ((ofKind items kind).filter (scheme.qualifies skip))
  order : StableOrder (ofKind items kind) (ordered (ofKind items kind))
  active_first : ∃ actives others, candidates scheme skip kind strict items = actives ++ others ∧
    actives.Sublist (ordered (ofKind items kind)) ∧ (∀ it ∈ actives, scheme.isActive it = true) ∧
    others.Sublist (ordered (ofKind items kind)) ∧ ∀ it ∈ others, scheme.isActive it = false
  strict_only : strict = true → ∀ it ∈ candidates scheme skip kind strict items, scheme.isActive it = false →
    ∃ pre post, ordered (ofKind items kind) = pre ++ it :: post ∧ ∀ y ∈ pre, scheme.isDone y = true
  drained : skip = [] → strict = false → (select_next scheme skip kind strict items = none ↔
    (counts scheme category kind items).pending + (counts scheme category kind items).active = 0)
  total : (counts scheme category kind items).total = (counts scheme category kind items).done +
    (counts scheme category kind items).active + (counts scheme category kind items).blocked +
      (counts scheme category kind items).pending
  pending : (counts scheme category kind items).pending = (ofKind items kind).countP fun it => scheme.isPending it

theorem mem_candidates_qualified (h : scheme.Disjoint) {it : WorkItem P}
    (hit : it ∈ candidates scheme skip kind strict items) : it ∈ (ofKind items kind).filter (scheme.qualifies skip) := by
  have hopen : it ∈ candidates scheme skip kind false items := by
    cases strict with
    | false => exact hit
    | true => exact candidates_sublist.subset hit
  exact (candidates_perm h skip kind items).subset hopen

/-- **Selection, claiming and counting agree.** -/
theorem selection_agrees (scheme : Scheme) (h : scheme.Disjoint) (skip : List Text) (kind : KindFilter) (strict : Bool)
    (category : Option (WorkItem P → Text)) (items : List (WorkItem P)) :
    Agrees scheme skip kind strict category items := by
  have hclaim : ∀ n : ℤ, nextRows scheme skip kind strict n items =
      (candidates scheme skip kind strict items).take n.toNat := by
    intro n
    unfold nextRows
    split
    · have hzero : n.toNat = 0 := by omega
      rw [hzero, List.take_zero]
    · rfl
  have hpending : (counts scheme category kind items).pending =
      ((ofKind items kind).countP fun it => scheme.isPending it : ℕ) := by
    have hlen := length_eq_buckets h (ofKind items kind)
    have hdone : statusSum scheme.done (ofKind items kind) = (ofKind items kind).countP fun it => scheme.isDone it :=
      statusSum_eq scheme.done _
    have hactive : statusSum scheme.active (ofKind items kind) = (ofKind items kind).countP fun it => scheme.isActive it :=
      statusSum_eq scheme.active _
    have hblocked : statusSum scheme.blocked (ofKind items kind) =
        (ofKind items kind).countP fun it => scheme.isBlocked it := statusSum_eq scheme.blocked _
    show ((ofKind items kind).length : ℤ) - statusSum scheme.done (ofKind items kind) -
      statusSum scheme.active (ofKind items kind) - statusSum scheme.blocked (ofKind items kind) = _
    rw [hdone, hactive, hblocked]
    omega
  have hnonstrict : (candidates scheme skip kind strict items).Subperm ((ofKind items kind).filter (scheme.qualifies skip)) := by
    have hperm := candidates_perm h skip kind items
    cases strict with
    | false => exact hperm.subperm
    | true => exact candidates_sublist.subperm.trans hperm.subperm
  constructor
  case claim =>
    intro n
    rw [hclaim]
    exact ⟨rfl, List.length_take⟩
  case first =>
    intro n hn
    obtain ⟨m, hm⟩ : ∃ m, n.toNat = m + 1 := ⟨n.toNat - 1, by omega⟩
    rw [hclaim, hm]
    unfold select_next
    cases candidates scheme skip kind strict items <;> rfl
  case qualified =>
    intro it hit
    have hmem := mem_candidates_qualified h hit
    rw [List.mem_filter, mem_ofKind] at hmem
    obtain ⟨⟨-, hkind⟩, hq⟩ := hmem
    unfold Scheme.qualifies at hq
    simp only [Bool.and_eq_true, Bool.not_eq_true'] at hq
    exact ⟨hkind, hq.1.1, hq.1.2, fun hno => by rw [List.contains_iff_mem.2 hno] at hq; cases hq.2⟩
  case once =>
    exact hnonstrict.trans (List.filter_sublist.trans List.filter_sublist).subperm
  case all =>
    rintro rfl
    exact candidates_perm h skip kind items
  case order => exact ordered_stable _
  case active_first =>
    refine ⟨_, _, rfl, List.filter_sublist, fun it hit => ?_, ?_, fun it hit => ?_⟩
    · have hactive := (List.mem_filter.1 hit).2
      rw [Bool.and_eq_true] at hactive
      exact hactive.1
    · exact pendingCandidates_sublist _
    · have hp := (mem_pendingCandidates hit).2
      unfold Scheme.isPending at hp
      simp only [Bool.and_eq_true, Bool.not_eq_true'] at hp
      exact hp.1.1
  case strict_only =>
    rintro rfl it hit hactive
    rcases List.mem_append.1 hit with hit | hit
    · have hno := (List.mem_filter.1 hit).2
      rw [hactive] at hno
      cases hno
    · obtain ⟨-, pre, post, hrows, hpre⟩ := List.find?_eq_some_iff_append.1 (strict_pending hit).1
      exact ⟨pre, post, hrows, fun y hy => by simpa using hpre y hy⟩
  case drained =>
    rintro rfl rfl
    have hempty : select_next scheme [] kind false items = none ↔
        (ofKind items kind).countP (scheme.qualifies []) = 0 := by
      unfold select_next
      rw [List.head?_eq_none_iff, List.countP_eq_length_filter, List.length_eq_zero_iff]
      have hperm := candidates_perm h [] kind items
      exact ⟨fun hnil => (hnil ▸ hperm).nil_eq.symm, fun hnil => (hnil ▸ hperm).eq_nil⟩
    have hactive : (counts scheme category kind items).active =
        ((ofKind items kind).countP fun it => scheme.isActive it : ℕ) := congrArg Nat.cast (statusSum_eq scheme.active _)
    rw [hempty, countP_qualifies h, hpending, hactive]
    omega
  case total =>
    show ((ofKind items kind).length : ℤ) = statusSum scheme.done (ofKind items kind) +
      statusSum scheme.active (ofKind items kind) + statusSum scheme.blocked (ofKind items kind) +
        ((ofKind items kind).length - statusSum scheme.done (ofKind items kind) -
          statusSum scheme.active (ofKind items kind) - statusSum scheme.blocked (ofKind items kind))
    omega
  case pending => exact hpending

/-- A row that is filed, with an order. -/
def filed (id status : String) (order : Option ℚ) : WorkItem Unit :=
  ⟨id.toList, status.toList, "story".toList, order, 0, [], ()⟩

theorem selection_agrees_backlog :
    Agrees DEFAULT_SCHEME [] none false none [filed "a" "pending" (some 2), filed "b" "done" none, filed "c" "active" none] ∧
      select_next DEFAULT_SCHEME [] none false
        [filed "a" "pending" (some 2), filed "b" "done" none, filed "c" "active" none] = some (filed "c" "active" none) := by
  have hdisjoint : DEFAULT_SCHEME.Disjoint := ⟨by decide, by decide, by decide⟩
  exact ⟨selection_agrees DEFAULT_SCHEME hdisjoint [] none false none _, by decide⟩

end Stablemate.WorkList
