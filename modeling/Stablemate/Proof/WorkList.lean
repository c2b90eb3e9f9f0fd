import Stablemate.Lib.Lists
import Stablemate.Model.WorkList

/-!
# Rows keep their place

An operation of the work list rewrites rows one by one (`Keeps`), so it changes neither
which rows are of a kind nor their working order.

* `ordered_map`, `ofKind_map`: rewriting rows and putting them in order commute.
* `nextRows_eq`, `candidates_nil`: what the claim takes, and what it means that it takes nothing.
* `settle_held`, `mark_eq`, `requeue_eq`: the updates as rewritings.
-/

namespace Stablemate.WorkList

variable {P : Type*} {items : List (WorkItem P)} {kind : KindFilter} {scheme : Scheme}

/-! ## Rewriting rows -/

/-- `f` changes neither what a row is nor where it stands. -/
structure Keeps (f : WorkItem P → WorkItem P) : Prop where
  id : ∀ it, (f it).id = it.id
  kind : ∀ it, (f it).kind = it.kind
  order : ∀ it, (f it).order = it.order
  content : ∀ it, (f it).content = it.content

variable {f : WorkItem P → WorkItem P}

theorem Keeps.isKind (hf : Keeps f) (it : WorkItem P) : (f it).isKind kind = it.isKind kind := by
  unfold WorkItem.isKind; rw [hf.kind]

theorem Keeps.map_id (hf : Keeps f) (items : List (WorkItem P)) :
    (items.map f).map (·.id) = items.map (·.id) := by
  rw [List.map_map]
  exact List.map_congr_left fun it _ => hf.id it

theorem keeps_id : Keeps fun it : WorkItem P => it :=
  ⟨fun _ => rfl, fun _ => rfl, fun _ => rfl, fun _ => rfl⟩

theorem keeps_ite {p : WorkItem P → Prop} [DecidablePred p] (hf : Keeps f) :
    Keeps fun it => if p it then f it else it where
  id it := by split; exacts [hf.id it, rfl]
  kind it := by split; exacts [hf.kind it, rfl]
  order it := by split; exacts [hf.order it, rfl]
  content it := by split; exacts [hf.content it, rfl]

theorem keeps_status (status : Text) : Keeps fun it : WorkItem P => { it with status := status } :=
  ⟨fun _ => rfl, fun _ => rfl, fun _ => rfl, fun _ => rfl⟩

theorem keeps_mark (status : Text) (note : Option Text) :
    Keeps fun it : WorkItem P => { it with status := status, note := note.getD it.note } :=
  ⟨fun _ => rfl, fun _ => rfl, fun _ => rfl, fun _ => rfl⟩

theorem keeps_requeue (note : Text) :
    Keeps fun it : WorkItem P => { it with status := [], laps := 0, note := note } :=
  ⟨fun _ => rfl, fun _ => rfl, fun _ => rfl, fun _ => rfl⟩

theorem keeps_claimed (status : Text) : Keeps fun it : WorkItem P => it.claimed status :=
  ⟨fun _ => rfl, fun _ => rfl, fun _ => rfl, fun _ => rfl⟩

theorem ofKind_map (hf : Keeps f) : ofKind (items.map f) kind = (ofKind items kind).map f := by
  unfold ofKind
  rw [List.filter_map]
  congr 1
  exact List.filter_congr fun it _ => hf.isKind it

theorem ordered_map (hf : Keeps f) : ordered (items.map f) = (ordered items).map f := by
  have hany : ((items.map f).any fun it => it.order.isSome) = items.any fun it => it.order.isSome := by
    rw [List.any_map]
    congr 1
    funext it
    exact congrArg Option.isSome (hf.order it)
  unfold ordered
  rw [hany]
  split
  · refine (List.map_insertionSort _ _ f items fun a _ b _ => ?_).symm
    simp [WorkItem.key, hf.order]
  · rfl

@[simp] theorem mem_ordered {it : WorkItem P} : it ∈ ordered items ↔ it ∈ items := by
  unfold ordered
  split
  · exact List.mem_insertionSort _
  · rfl

theorem ordered_perm (items : List (WorkItem P)) : (ordered items).Perm items := by
  unfold ordered
  split
  · exact List.perm_insertionSort _ _
  · exact List.Perm.refl _

@[simp] theorem mem_ofKind {it : WorkItem P} :
    it ∈ ofKind items kind ↔ it ∈ items ∧ it.isKind kind = true := by
  simp [ofKind]

/-- The rows of a kind in working order have distinct ids, as the list has. -/
theorem nodup_ordered_ids (kind : KindFilter) (h : (items.map (·.id)).Nodup) :
    ((ordered (ofKind items kind)).map (·.id)).Nodup := by
  refine ((ordered_perm _).map _).nodup_iff.2 ?_
  exact h.sublist (List.filter_sublist.map _)

/-! ## What a status means -/

section Status

variable {it : WorkItem P}

theorem Scheme.Proper.not_active_done (h : scheme.Proper) (hit : it.status = DONE) :
    scheme.isActive it = false := by
  simpa [Scheme.isActive, hit] using h.done_active _ h.done

theorem Scheme.Proper.not_active_blocked (h : scheme.Proper) (hit : it.status = BLOCKED) :
    scheme.isActive it = false := by
  simpa [Scheme.isActive, hit] using fun ha => h.active_blocked _ ha h.blocked

theorem Scheme.Proper.not_done_active (h : scheme.Proper) (hit : it.status = ACTIVE) :
    scheme.isDone it = false := by
  simpa [Scheme.isDone, hit] using fun hd => h.done_active _ hd h.active

theorem Scheme.Proper.not_done_blocked (h : scheme.Proper) (hit : it.status = BLOCKED) :
    scheme.isDone it = false := by
  simpa [Scheme.isDone, hit] using fun hd => h.done_blocked _ hd h.blocked

theorem Scheme.Proper.not_done_of_blocked (h : scheme.Proper) (hit : scheme.isBlocked it = true) :
    scheme.isDone it = false := by
  simp only [Scheme.isDone, Scheme.isBlocked, List.contains_iff_mem] at hit ⊢
  simpa using fun hd => h.done_blocked _ hd hit

theorem Scheme.Proper.not_active_of_done (h : scheme.Proper) (hit : scheme.isDone it = true) :
    scheme.isActive it = false := by
  simp only [Scheme.isDone, Scheme.isActive, List.contains_iff_mem] at hit ⊢
  simpa using h.done_active _ hit

end Status

/-! ## What the claim takes -/

variable {skip : List Text} {strict : Bool} {n : ℤ}

theorem nextRows_eq (hn : 1 ≤ n) : nextRows scheme skip kind strict n items =
    (candidates scheme skip kind strict items).take n.toNat :=
  if_neg (by omega)

theorem mem_pendingCandidates {rows : List (WorkItem P)} {it : WorkItem P}
    (h : it ∈ pendingCandidates scheme skip strict rows) :
    it ∈ rows ∧ scheme.isPending it = true := by
  unfold pendingCandidates at h
  split at h
  · split at h
    · rename_i first hfirst
      split at h
      · rename_i hopen
        rw [List.mem_singleton] at h
        subst h
        have hdone := List.find?_some hfirst
        simp only [Bool.and_eq_true, Bool.not_eq_true'] at hopen hdone
        exact ⟨List.mem_of_find?_eq_some hfirst, by simp [Scheme.isPending, hopen, hdone]⟩
      · cases h
    · cases h
  · rw [List.mem_filter, Bool.and_eq_true] at h
    exact ⟨h.1, h.2.1⟩

/-- A candidate is a row of the kind, and is active or pending. -/
theorem mem_candidates {it : WorkItem P} (h : it ∈ candidates scheme skip kind strict items) :
    it ∈ items ∧ it.isKind kind = true ∧
      (scheme.isActive it = true ∨ scheme.isPending it = true) := by
  unfold candidates at h
  rcases List.mem_append.1 h with h | h
  · simp only [List.mem_filter, mem_ordered, mem_ofKind, Bool.and_eq_true] at h
    exact ⟨h.1.1, h.1.2, .inl h.2.1⟩
  · obtain ⟨h1, h2⟩ := mem_pendingCandidates h
    rw [mem_ordered, mem_ofKind] at h1
    exact ⟨h1.1, h1.2, .inr h2⟩

/-- With nothing to skip, the candidates are the active rows and the pending candidates. -/
theorem candidates_eq : candidates scheme [] kind strict items =
    (ordered (ofKind items kind)).filter scheme.isActive ++
      pendingCandidates scheme [] strict (ordered (ofKind items kind)) := by
  simp [candidates]

/-- A list with a row that is not done has a first one. -/
theorem exists_first_open {rows : List (WorkItem P)} {it : WorkItem P} (hmem : it ∈ rows)
    (hdone : ¬ scheme.isDone it = true) : ∃ first pre post,
      (rows.find? fun it => !scheme.isDone it) = some first ∧ rows = pre ++ first :: post ∧
      (it = first ∨ it ∈ post) := by
  have hfound : (rows.find? fun it => !scheme.isDone it).isSome := by
    rw [List.find?_isSome]
    exact ⟨it, hmem, by simpa using hdone⟩
  obtain ⟨first, hfirst⟩ := Option.isSome_iff_exists.1 hfound
  obtain ⟨-, pre, post, rfl, hdones⟩ := List.find?_eq_some_iff_append.1 hfirst
  refine ⟨first, pre, post, hfirst, rfl, ?_⟩
  rcases List.mem_append.1 hmem with hpre | hrest
  · exact absurd (by simpa using hdones it hpre) hdone
  · exact List.mem_cons.1 hrest

/-- A pending row that a strict claim takes has only done rows before it. -/
theorem strict_candidate {it : WorkItem P} {pre post : List (WorkItem P)}
    (h : it ∈ candidates scheme skip kind true items) (hit : scheme.isActive it = false)
    (hrows : ordered (ofKind items kind) = pre ++ it :: post) (hpre : it ∉ pre) :
    ∀ y ∈ pre, scheme.isDone y = true := by
  intro y hy
  by_contra hdone
  unfold candidates at h
  rcases List.mem_append.1 h with h | h
  · simp [hit] at h
  · -- the first row that is not done would stand before it
    obtain ⟨first, -, -, hfirst, -, -⟩ := exists_first_open hy hdone
    unfold pendingCandidates at h
    rw [if_pos rfl, hrows, List.find?_append, hfirst] at h
    dsimp only [Option.or] at h
    split at h
    · rw [List.mem_singleton] at h
      exact hpre (h ▸ List.mem_of_find?_eq_some hfirst)
    · cases h

/-- In a strict list with no candidates, a row that is open comes after a blocked one. -/
theorem after_blocked {rows : List (WorkItem P)} {it : WorkItem P}
    (hnil : pendingCandidates scheme [] true rows = []) (hnot : ∀ y ∈ rows, scheme.isActive y = false)
    (hmem : it ∈ rows) (hdone : ¬ scheme.isDone it = true) (hblocked : ¬ scheme.isBlocked it = true) :
    ∃ y pre post, rows = pre ++ it :: post ∧ y ∈ pre ∧ scheme.isBlocked y = true := by
  obtain ⟨first, pre, post, hfirst, hrows, hplace⟩ := exists_first_open hmem hdone
  unfold pendingCandidates at hnil
  rw [if_pos rfl, hfirst] at hnil
  have hactive := hnot first (List.mem_of_find?_eq_some hfirst)
  have hfirstBlocked : scheme.isBlocked first = true := by
    by_contra hno
    simp [hactive, hno] at hnil
  rcases hplace with rfl | hpost
  · exact absurd hfirstBlocked hblocked
  · obtain ⟨mid, post', rfl⟩ := List.append_of_mem hpost
    exact ⟨first, pre ++ first :: mid, post', by rw [hrows]; simp, by simp, hfirstBlocked⟩

/-- With nothing to skip, a claim that finds nothing leaves no row open: each is done or
blocked, or, in a strict drain, comes after a blocked one. -/
theorem candidates_nil {it : WorkItem P} (h : candidates scheme [] kind strict items = [])
    (hmem : it ∈ items) (hkind : it.isKind kind = true) :
    scheme.isActive it = false ∧
      (scheme.isDone it = true ∨ scheme.isBlocked it = true ∨
        strict = true ∧ ∃ y pre post, ordered (ofKind items kind) = pre ++ it :: post ∧ y ∈ pre ∧
          scheme.isBlocked y = true) := by
  rw [candidates_eq] at h
  obtain ⟨hactive, hpending⟩ := List.append_eq_nil_iff.1 h
  have hrow : it ∈ ordered (ofKind items kind) := mem_ordered.2 (mem_ofKind.2 ⟨hmem, hkind⟩)
  have hnot : ∀ y ∈ ordered (ofKind items kind), scheme.isActive y = false := by
    simpa using hactive
  refine ⟨hnot it hrow, ?_⟩
  by_cases hdone : scheme.isDone it = true
  · exact .inl hdone
  right
  by_cases hblocked : scheme.isBlocked it = true
  · exact .inl hblocked
  right
  cases strict with
  | true => exact ⟨rfl, after_blocked hpending hnot hrow hdone hblocked⟩
  | false =>
    -- a row that is none of these is pending, and would be a candidate
    have hcand : it ∈ (ordered (ofKind items kind)).filter fun it =>
        scheme.isPending it && !([] : List Text).contains it.id := by
      refine List.mem_filter.2 ⟨hrow, ?_⟩
      simp [Scheme.isPending, hnot it hrow, hdone, hblocked]
    have hnil : (ordered (ofKind items kind)).filter (fun it =>
        scheme.isPending it && !([] : List Text).contains it.id) = [] := hpending
    rw [hnil] at hcand
    cases hcand

/-- The claim takes distinct rows. -/
theorem nodup_nextRows_ids (h : (items.map (·.id)).Nodup) :
    ((nextRows scheme skip kind strict n items).map (·.id)).Nodup := by
  have hrows := nodup_ordered_ids kind h
  have hpend : (pendingCandidates scheme skip strict (ordered (ofKind items kind))).Sublist
      (ordered (ofKind items kind)) := by
    unfold pendingCandidates
    split
    · split
      · rename_i first hfirst
        split
        · exact List.singleton_sublist.2 (List.mem_of_find?_eq_some hfirst)
        · exact List.nil_sublist _
      · exact List.nil_sublist _
    · exact List.filter_sublist
  have hcand : ((candidates scheme skip kind strict items).map (·.id)).Nodup := by
    unfold candidates
    dsimp only
    rw [List.map_append, List.nodup_append]
    refine ⟨hrows.sublist (List.filter_sublist.map _), hrows.sublist (hpend.map _), ?_⟩
    rintro id hida id' hidb rfl
    obtain ⟨a, ha, rfl⟩ := List.mem_map.1 hida
    obtain ⟨b, hb, hab⟩ := List.mem_map.1 hidb
    obtain ⟨hbmem, hbpend⟩ := mem_pendingCandidates hb
    rw [List.mem_filter, Bool.and_eq_true] at ha
    -- one row cannot be active and pending
    obtain rfl : b = a := eq_of_key hrows hbmem ha.1 hab
    simp [Scheme.isPending, ha.2.1] at hbpend
  unfold nextRows
  split
  · exact List.nodup_nil
  · exact hcand.sublist ((List.take_sublist _ _).map _)

/-! ## Updates as rewritings -/

/-- Settling the rows of a kind that satisfy `p` rewrites exactly these. -/
theorem settle_held (h : (items.map (·.id)).Nodup) (p : WorkItem P → Bool) (status : Text) :
    settle (((ofKind items kind).filter p).map (·.id)) status kind items =
      items.map fun it => if it.isKind kind = true ∧ p it = true then { it with status := status } else it := by
  unfold settle update
  refine List.map_congr_left fun it hit => ?_
  by_cases hkind : it.isKind kind = true
  · have hcontains : (((ofKind items kind).filter p).map (·.id)).contains it.id = p it := by
      rw [Bool.eq_iff_iff, List.contains_iff_mem, List.mem_map]
      constructor
      · rintro ⟨row, hrow, hid⟩
        rw [List.mem_filter, mem_ofKind] at hrow
        obtain rfl : row = it := eq_of_key h hrow.1.1 hit hid
        exact hrow.2
      · intro hp
        exact ⟨it, List.mem_filter.2 ⟨mem_ofKind.2 ⟨hit, hkind⟩, hp⟩, rfl⟩
    rw [hcontains]
    simp [hkind]
  · simp [hkind]

theorem mark_eq (id status : Text) (note : Option Text) : mark id status kind note items =
    items.map fun it => if it.id = id ∧ it.isKind kind = true then
      { it with status := status, note := note.getD it.note } else it := by
  unfold mark update
  refine List.map_congr_left fun it _ => ?_
  simp

theorem requeue_eq (id note : Text) : requeue [id] note kind items =
    items.map fun it => if it.id = id ∧ it.isKind kind = true then
      { it with status := [], laps := 0, note := note } else it := by
  unfold requeue update
  refine List.map_congr_left fun it _ => ?_
  simp

end Stablemate.WorkList
