import Stablemate.Lib.Gap
import Stablemate.Model.Places
import Stablemate.Proof.Findings

/-!
# Stories and follow-ups keep their places

* `Spread`: the ids are distinct, and so are the places, all of them positive. New items between two
  bounds with nothing between them leave it so (`Spread.added`).
* `gap_spec`: between the place `start` and the next one there is nothing.
* `holds_follow_ups`: follow-ups come after their family and before what stood after it.
* `holds_replan`: a replan keeps what is done and files the rest between what is done and what follows.
* `places_kept`: **every list of a run has its items in distinct places**, when no replan puts a story
  on a follow-up of its epic that is still to be worked.
-/

namespace Stablemate.Coder

open Cut (Holds holds_bind holds_pure holds_foldlM)
open WorkList (ofKind prune)

variable {s t : State} {it : Item} {batch new : List Item} {xs : List ℚ} {start stop : ℚ}

/-! ## The least and the greatest -/

/-- The outermost of some values is one of them, and none lies further out. -/
theorem outermost_cases {pick : ℚ → ℚ → ℚ} {R : ℚ → ℚ → Prop} (hrefl : ∀ x, R x x) (htrans : ∀ x y z, R x y → R y z → R x z)
    (hpick : ∀ x y, pick x y = x ∨ pick x y = y) (hleft : ∀ x y, R x (pick x y)) (hright : ∀ x y, R y (pick x y)) :
    ∀ xs : List ℚ, (xs = [] ∧ xs.foldl (fun m x => some (m.elim x (pick x))) none = none) ∨
      ∃ m ∈ xs, xs.foldl (fun m x => some (m.elim x (pick x))) none = some m ∧ ∀ x ∈ xs, R x m := by
  have hfold : ∀ (xs : List ℚ) (a : ℚ), ∃ m, xs.foldl (fun m x => some (m.elim x (pick x))) (some a) = some m ∧
      (m = a ∨ m ∈ xs) ∧ R a m ∧ ∀ x ∈ xs, R x m := by
    intro xs
    induction xs with
    | nil => exact fun a => ⟨a, rfl, .inl rfl, hrefl a, fun x hx => absurd hx List.not_mem_nil⟩
    | cons y xs ih =>
      intro a
      obtain ⟨m, hm, hmem, hbound, hall⟩ := ih (pick y a)
      refine ⟨m, hm, ?_, htrans _ _ _ (hright y a) hbound, fun x hx => ?_⟩
      · rcases hmem with heq | hmem
        · rcases hpick y a with hpicked | hpicked
          · exact .inr (List.mem_cons.2 (.inl (heq.trans hpicked)))
          · exact .inl (heq.trans hpicked)
        · exact .inr (List.mem_cons_of_mem y hmem)
      · rcases List.mem_cons.1 hx with rfl | hx
        · exact htrans _ _ _ (hleft x a) hbound
        · exact hall x hx
  intro xs
  cases xs with
  | nil => exact .inl ⟨rfl, rfl⟩
  | cons a xs =>
    obtain ⟨m, hm, hmem, hbound, hall⟩ := hfold xs a
    refine .inr ⟨m, List.mem_cons.2 hmem, hm, fun x hx => ?_⟩
    rcases List.mem_cons.1 hx with rfl | hx
    · exact hbound
    · exact hall x hx

theorem maximum_cases (xs : List ℚ) :
    (xs = [] ∧ maximum xs = none) ∨ ∃ m ∈ xs, maximum xs = some m ∧ ∀ x ∈ xs, x ≤ m :=
  outermost_cases (R := (· ≤ ·)) le_refl (fun _ _ _ => le_trans) max_choice le_max_left le_max_right xs

theorem minimum_cases (xs : List ℚ) :
    (xs = [] ∧ minimum xs = none) ∨ ∃ m ∈ xs, minimum xs = some m ∧ ∀ x ∈ xs, m ≤ x :=
  outermost_cases (R := (· ≥ ·)) le_refl (fun _ _ _ hxy hyz => hyz.trans hxy) min_choice min_le_left min_le_right xs

/-- **Nothing stands between** a place and the next one, or the end if there is none. -/
theorem gap_spec (xs : List ℚ) {last : ℚ} (hlast : start < last)
    (hstop : stop = (minimum (xs.filter (start < ·))).getD last) : start < stop ∧ ∀ x ∈ xs, x ≤ start ∨ stop ≤ x := by
  rcases minimum_cases (xs.filter (start < ·)) with ⟨hnil, hnone⟩ | ⟨m, hm, hsome, hall⟩
  · rw [hnone] at hstop
    refine ⟨hstop ▸ hlast, fun x hx => .inl (not_lt.1 fun hlt => ?_)⟩
    have hmem : x ∈ xs.filter (start < ·) := List.mem_filter.2 ⟨hx, decide_eq_true hlt⟩
    rw [hnil] at hmem
    exact List.not_mem_nil hmem
  · rw [hsome] at hstop
    obtain rfl : stop = m := hstop
    refine ⟨of_decide_eq_true (List.mem_filter.1 hm).2, fun x hx => ?_⟩
    rcases le_or_gt x start with hle | hlt
    · exact .inl hle
    · exact .inr (hall x (List.mem_filter.2 ⟨hx, decide_eq_true hlt⟩))

/-! ## Lists with distinct places -/

/-- **A list of stories and follow-ups in distinct places.** -/
structure Spread (s : State) : Prop where
  ids : (s.items.map (·.id)).Nodup
  kinds : ∀ it ∈ s.items, it.kind ∈ PROGRESS_KINDS
  positive : ∀ it ∈ s.items, ∃ q, it.order = some q ∧ 0 < q
  places : (s.items.map (·.key)).Nodup

/-- Items in rising places between two bounds. -/
structure Rising (start stop : ℚ) (batch : List Item) : Prop where
  sorted : (batch.map (·.key)).Pairwise (· < ·)
  between : ∀ it ∈ batch, ∃ q, it.order = some q ∧ start < q ∧ q < stop

theorem Rising.key (h : Rising start stop batch) (hit : it ∈ batch) : start < it.key ∧ it.key < stop := by
  obtain ⟨q, hq, hbounds⟩ := h.between it hit
  unfold WorkList.WorkItem.key
  rwa [hq]

theorem Rising.sublist (h : Rising start stop batch) (hsub : new.Sublist batch) : Rising start stop new :=
  ⟨h.sorted.sublist (hsub.map _), fun it hit => h.between it (hsub.subset hit)⟩

/-- Items that are given the places of a gap. -/
theorem rising_mapIdx {α : Type} {entries : List α} {f : ℕ → α → Item} (h : start < stop)
    (hf : ∀ i a, (f i a).order = some (place start stop entries.length i)) :
    Rising start stop (entries.mapIdx f) := by
  have hkey : ∀ i a, (f i a).key = place start stop entries.length i := by
    intro i a
    unfold WorkList.WorkItem.key
    rw [hf]
    rfl
  refine ⟨List.pairwise_iff_getElem.2 fun i j hi hj hij => ?_, fun it hit => ?_⟩
  · rw [List.getElem_map, List.getElem_map, List.getElem_mapIdx, List.getElem_mapIdx, hkey, hkey]
    exact place_strictMono h _ hij
  · obtain ⟨i, hi, rfl⟩ := List.mem_mapIdx.1 hit
    exact ⟨_, hf i _, lt_place h _ i, place_lt h hi⟩

theorem Spread.key_pos (h : Spread s) (hit : it ∈ s.items) : 0 < it.key := by
  obtain ⟨q, hq, hpos⟩ := h.positive it hit
  unfold WorkList.WorkItem.key
  rwa [hq]

/-- All of the list is progress. -/
theorem Spread.progress (h : Spread s) : ofKind s.items (some PROGRESS_KINDS) = s.items :=
  List.filter_eq_self.2 fun it hit => List.contains_iff_mem.2 (h.kinds it hit)

/-- **New items at free places.** -/
theorem Spread.added (h : Spread s) (hnone : repeated (s.items.map (·.id)) new = none)
    (hkinds : ∀ it ∈ new, it.kind ∈ PROGRESS_KINDS) (hstart : 0 ≤ start) (hnew : Rising start stop new)
    (hfree : ∀ it ∈ s.items, ∀ it' ∈ new, it.key ≠ it'.key) : Spread (added s new) := by
  obtain ⟨hnodup, hfresh⟩ := repeated_none hnone
  have hrow : ∀ it ∈ s.items ++ new, it ∈ s.items ∨ it ∈ new := fun it hit => List.mem_append.1 hit
  refine ⟨?_, fun it hit => (hrow it hit).elim (h.kinds it) (hkinds it), fun it hit => ?_, ?_⟩
  · show ((s.items ++ new).map (·.id)).Nodup
    rw [List.map_append, List.nodup_append]
    refine ⟨h.ids, hnodup, ?_⟩
    rintro a ha b hb rfl
    obtain ⟨it, hit, rfl⟩ := List.mem_map.1 hb
    exact hfresh it hit ha
  · rcases hrow it hit with hit | hit
    · exact h.positive it hit
    · obtain ⟨q, hq, hlt, -⟩ := hnew.between it hit
      exact ⟨q, hq, hstart.trans_lt hlt⟩
  · show ((s.items ++ new).map (·.key)).Nodup
    rw [List.map_append, List.nodup_append]
    refine ⟨h.places, hnew.sorted.imp ne_of_lt, ?_⟩
    rintro a ha b hb rfl
    obtain ⟨it, hit, hkey⟩ := List.mem_map.1 ha
    obtain ⟨it', hit', hkey'⟩ := List.mem_map.1 hb
    exact hfree it hit it' hit' (hkey.trans hkey'.symm)

/-- Rows that keep what they are and where they stand. -/
theorem Spread.map (h : Spread s) {f : Item → Item} (hf : WorkList.Keeps f) : Spread { s with items := s.items.map f } := by
  refine ⟨?_, ?_, ?_, ?_⟩
  · show ((s.items.map f).map (·.id)).Nodup
    rw [hf.map_id]
    exact h.ids
  · intro it hit
    obtain ⟨row, hrow, rfl⟩ := List.mem_map.1 hit
    exact (hf.kind row).symm ▸ h.kinds row hrow
  · intro it hit
    obtain ⟨row, hrow, rfl⟩ := List.mem_map.1 hit
    exact (hf.order row).symm ▸ h.positive row hrow
  · have hkeys : (s.items.map f).map (·.key) = s.items.map (·.key) := by
      rw [List.map_map]
      exact List.map_congr_left fun row _ => congrArg (Option.getD · 0) (hf.order row)
    show ((s.items.map f).map (·.key)).Nodup
    rw [hkeys]
    exact h.places

theorem Spread.filter (h : Spread s) (p : Item → Bool) : Spread { s with items := s.items.filter p } :=
  ⟨h.ids.sublist (List.filter_sublist.map _), fun it hit => h.kinds it (List.mem_filter.1 hit).1,
    fun it hit => h.positive it (List.mem_filter.1 hit).1, h.places.sublist (List.filter_sublist.map _)⟩

/-! ## Filing -/

section Filing

variable {caller : Text}

/-- What of a batch is new stands in its order. -/
theorem fresh_sublist {stored : List Item} (h : fresh stored caller batch = .ok new) : new.Sublist batch := by
  have hall : ∀ acc new : List Item, batch.foldlM (freshStep stored caller) acc = .ok new →
      ∃ rest, new = acc ++ rest ∧ rest.Sublist batch := by
    clear h
    induction batch with
    | nil =>
      intro acc new h
      obtain rfl := Except.ok.inj h
      exact ⟨[], (List.append_nil acc).symm, .slnil⟩
    | cons it batch ih =>
      intro acc new h
      rw [List.foldlM_cons] at h
      cases hstep : freshStep stored caller acc it with
      | error e =>
        rw [hstep] at h
        cases h
      | ok next =>
        rw [hstep] at h
        obtain ⟨rest, rfl, hsub⟩ := ih next new h
        rcases (freshStep_ok hstep).2 with rfl | ⟨rfl, -⟩
        · exact ⟨it :: rest, by rw [List.append_assoc, List.singleton_append], hsub.cons_cons it⟩
        · exact ⟨rest, rfl, hsub.cons it⟩
  obtain ⟨rest, rfl, hsub⟩ := hall [] new h
  exact hsub

/-- **What `file` leaves**: the list as it was, or with new items of the batch behind it. -/
theorem holds_file_sublist : Holds (fun _ => True) (fun t => t = s)
    (fun t new => t = added s new ∧ new.Sublist batch ∧ repeated (s.items.map (·.id)) new = none) (file batch caller) s := by
  have hall : ofKind s.items none = s.items := List.filter_true _
  unfold file
  apply holds_bind
  apply holds_items
  rw [hall]
  apply holds_bind
  apply holds_lift
  · exact fun new hnew => holds_add (fun _ => rfl) (fun _ => trivial) fun hrep => ⟨rfl, fresh_sublist hnew, hrep⟩
  · exact fun _ _ => rfl

/-- Items with ids that are not there are all filed. -/
theorem holds_file_all (batch : List Item) (caller : Text) (hcheck : ∀ it ∈ batch, _check FILERS it.kind caller (lit "file") = .ok ())
    (hfree : ∀ it ∈ batch, it.id ∉ s.items.map (·.id)) (hnodup : (batch.map (·.id)).Nodup) :
    Holds (fun _ => True) (fun _ => False)
      (fun t new => t = added s batch ∧ new = batch ∧ repeated (s.items.map (·.id)) batch = none) (file batch caller) s := by
  have hnew : ∀ (rest acc : List Item), rest ⊆ batch → rest.foldlM (freshStep s.items caller) acc = .ok (acc ++ rest) := by
    intro rest
    induction rest with
    | nil => exact fun acc _ => congrArg Except.ok (List.append_nil acc).symm
    | cons it rest ih =>
      intro acc hsub
      have hit := hsub List.mem_cons_self
      have hfind : s.items.find? (fun known => known.id = it.id) = none := by
        rw [List.find?_eq_none]
        intro known hknown heq
        exact hfree it hit (List.mem_map.2 ⟨known, hknown, of_decide_eq_true heq⟩)
      have hstep : freshStep s.items caller acc it = .ok (acc ++ [it]) := by
        unfold freshStep
        rw [hcheck it hit, hfind]
        rfl
      rw [List.foldlM_cons, hstep]
      refine (ih (acc ++ [it]) fun a ha => hsub (List.mem_cons_of_mem it ha)).trans ?_
      rw [List.append_assoc, List.singleton_append]
  have hrep : ∀ (rest : List Item) (seen : List Text), (∀ it ∈ rest, it.id ∉ seen) → (rest.map (·.id)).Nodup →
      repeated seen rest = none := by
    intro rest
    induction rest with
    | nil => exact fun _ _ _ => rfl
    | cons it rest ih =>
      intro seen hseen hids
      obtain ⟨hnot, hids⟩ := List.nodup_cons.1 hids
      unfold repeated
      rw [if_neg (fun hmem => hseen it List.mem_cons_self (List.contains_iff_mem.1 hmem))]
      refine ih _ (fun other hother hmem => ?_) hids
      rcases List.mem_append.1 hmem with hmem | hmem
      · exact hseen other (List.mem_cons_of_mem it hother) hmem
      · exact hnot (List.mem_map.2 ⟨other, hother, List.mem_singleton.1 hmem⟩)
  have hall : ofKind s.items none = s.items := List.filter_true _
  unfold file
  apply holds_bind
  apply holds_items
  rw [hall]
  apply holds_bind
  apply holds_lift
  · intro new hok
    obtain rfl := Except.ok.inj ((hnew batch [] fun _ h => h).symm.trans hok)
    have hnone := hrep batch _ hfree hnodup
    exact holds_add (fun hne => hne hnone) (fun _ => trivial) fun _ => ⟨rfl, rfl, hnone⟩
  · intro e herror
    have hok := hnew batch [] fun _ h => h
    unfold fresh at herror
    rw [hok] at herror
    cases herror

end Filing

/-! ## Follow-ups -/

section FollowUps

variable {parent : Item} {follow_ups : List FollowUp} {caller parent_id : Text}

/-- The item itself and its follow-ups. -/
def InFamily (parent_id : Text) (it : Item) : Prop := it.id = parent_id ∨ it.content.parent = some parent_id

/-- **Where new follow-ups stand**: after their family, and before all that stood after it. -/
structure FollowsUp (s : State) (parent_id : Text) (new : List Item) (t : State) : Prop where
  items : t.items = s.items ++ new
  own : ∀ it ∈ new, it.kind = FOLLOW_UP ∧ it.content.parent = some parent_id
  after : ∀ it ∈ new, ∀ other ∈ s.items, InFamily parent_id other → other.key < it.key
  before : ∀ it ∈ new, ∀ other ∈ s.items, (∀ kin ∈ s.items, InFamily parent_id kin → kin.key < other.key) →
    it.key < other.key

theorem FollowsUp.none (s : State) (parent_id : Text) : FollowsUp s parent_id [] s :=
  ⟨(List.append_nil _).symm, fun _ hit => absurd hit List.not_mem_nil, fun _ hit => absurd hit List.not_mem_nil,
    fun _ hit => absurd hit List.not_mem_nil⟩

/-- Follow-ups of an item on the list are put into the gap behind its family. -/
theorem holds_follow_ups (follow_ups : List FollowUp) (h : Spread s) (hparent : parent ∈ s.items) :
    Holds (fun _ => True) (fun _ => False) (fun t made => t = s ∧ ∃ start stop, 0 ≤ start ∧ Rising start stop made ∧
      (∀ it ∈ made, it.kind = FOLLOW_UP ∧ it.content.parent = some parent.id) ∧
      (∀ other ∈ s.items, InFamily parent.id other → other.key ≤ start) ∧
      (∃ kin ∈ s.items, InFamily parent.id kin ∧ kin.key = start) ∧
      ∀ other ∈ s.items, other.key ≤ start ∨ stop ≤ other.key) (follow_up_items parent follow_ups) s := by
  unfold follow_up_items
  apply holds_bind
  apply holds_items
  rw [h.progress]
  apply holds_pure
  have hkin : ∀ other, other ∈ s.items.filter (fun it => decide (it.id = parent.id ∨ it.content.parent = some parent.id)) ↔
      other ∈ s.items ∧ InFamily parent.id other := by
    intro other
    rw [List.mem_filter, decide_eq_true_eq]
    rfl
  have hself := (hkin parent).2 ⟨hparent, .inl rfl⟩
  -- the family has a last member, the parent if no other
  rcases maximum_cases ((s.items.filter fun it => it.id = parent.id ∨ it.content.parent = some parent.id).map (·.key)) with
    ⟨hnil, -⟩ | ⟨start, hmem, hsome, hall⟩
  · exact absurd (List.mem_map.2 ⟨parent, hself, rfl⟩) (hnil ▸ List.not_mem_nil)
  · obtain ⟨last, hlast, rfl⟩ := List.mem_map.1 hmem
    obtain ⟨hin, hfamily⟩ := (hkin last).1 hlast
    have hend : last.key < last.key + follow_ups.length + 1 := by
      have hlen : (0 : ℚ) ≤ follow_ups.length := Nat.cast_nonneg _
      linarith
    have hgap := gap_spec (s.items.map (·.key)) hend rfl
    rw [hsome]
    refine ⟨rfl, last.key, _, (h.key_pos hin).le, rising_mapIdx hgap.1 fun i a => rfl, fun it hit => ?_, fun other hother hother' => ?_,
      ⟨last, hin, hfamily, rfl⟩, fun other hother => hgap.2 _ (List.mem_map.2 ⟨other, hother, rfl⟩)⟩
    · obtain ⟨i, hi, rfl⟩ := List.mem_mapIdx.1 hit
      exact ⟨rfl, rfl⟩
    · exact hall _ (List.mem_map.2 ⟨other, (hkin other).2 ⟨hother, hother'⟩, rfl⟩)

end FollowUps

/-! ## Replans -/

section Replan

variable {epic : Text} {entries : List Entry} {row : Item}

/-- A story of the epic that is still to be worked. -/
def isOpenStory (epic : Text) (it : Item) : Bool := it.kind = STORY && it.content.epic = some epic && !SCHEME.isDone it

/-- The list without these. -/
def cleared (s : State) (epic : Text) : State := { s with items := s.items.filter fun it => !isOpenStory epic it }

/-- The entries that are filed. -/
def wantedOf (s : State) (epic : Text) (entries : List Entry) : List Entry :=
  entries.filter fun entry => !((ofKind (cleared s epic).items (some [STORY])).map (·.id)).contains entry.slug

def oursOf (s : State) (epic : Text) : List Item := s.items.filter fun it => it.content.epic = some epic

def othersOf (s : State) (epic : Text) : List ℚ := (s.items.filter fun it => it.content.epic ≠ some epic).map (·.key)

def settledOf (s : State) (epic : Text) : List ℚ := ((oursOf s epic).filter (SCHEME.isDone ·)).map (·.key)

/-- The places of other epics before the epic's first item. -/
def beforeOf (s : State) (epic : Text) : List ℚ :=
  (minimum ((oursOf s epic).map (·.key))).elim [] fun first => (othersOf s epic).filter (· < first)

/-- **The gap** that a replan files into: behind what is done of the epic, or else behind what stands before it... -/
def gapStart (s : State) (epic : Text) : ℚ := (maximum (settledOf s epic)).getD ((maximum (beforeOf s epic)).getD 0)

/-- ...and before the next item of another epic. -/
def gapStop (s : State) (epic : Text) (n : ℕ) : ℚ :=
  (minimum ((othersOf s epic).filter (gapStart s epic < ·))).getD
    ((maximum (s.items.map (·.key))).getD (gapStart s epic) + n + 1)

/-- The rows that pruning the open stories among some items drops. -/
def covers (pre : List Item) (row : Item) : Bool :=
  pre.any fun it => (it.kind = STORY ∧ !SCHEME.isDone it) && (row.id == it.id && row.isKind (some [STORY]))

/-- The loop drops the open stories of the epic. -/
theorem holds_prunes (h : Spread s) : Holds (fun _ => True) (fun _ => False) (fun t (_ : Unit) => t = cleared s epic)
    ((oursOf s epic).foldlM (fun _ it =>
      if it.kind = STORY ∧ !SCHEME.isDone it then edit false (prune it.id (some [STORY])) else pure ()) ()) s := by
  have hloop := holds_foldlM (I := fun _ => True) (E := fun _ => False) (b := ()) (s := s) (l := oursOf s epic)
    (J := fun rest (_ : Unit) t => ∃ pre, oursOf s epic = pre ++ rest ∧
      t = { s with items := s.items.filter fun row => !covers pre row })
    (f := fun (_ : Unit) (it : Item) =>
      if it.kind = STORY ∧ !SCHEME.isDone it then edit false (prune it.id (some [STORY])) else pure ())
    (fun it rest _ t hpre => by
      obtain ⟨pre, hours, rfl⟩ := hpre
      have hsnoc : oursOf s epic = (pre ++ [it]) ++ rest := by rw [hours, List.append_assoc, List.singleton_append]
      split
      · next hopen =>
        refine holds_edit trivial ⟨pre ++ [it], hsnoc, ?_⟩
        have hrows : prune it.id (some [STORY]) (s.items.filter fun row => !covers pre row) =
            s.items.filter fun row => !covers (pre ++ [it]) row := by
          unfold prune
          rw [List.filter_filter]
          refine List.filter_congr fun row _ => ?_
          unfold covers
          rw [List.any_append, List.any_cons, List.any_nil, decide_eq_true hopen, Bool.true_and, Bool.or_false,
            Bool.not_or, Bool.and_comm]
        rw [hrows]
      · next hclosed =>
        refine holds_pure ⟨pre ++ [it], hsnoc, ?_⟩
        have hrows : (s.items.filter fun row => !covers pre row) = s.items.filter fun row => !covers (pre ++ [it]) row := by
          refine List.filter_congr fun row _ => ?_
          unfold covers
          rw [List.any_append, List.any_cons, List.any_nil, decide_eq_false hclosed, Bool.false_and, Bool.or_false,
            Bool.or_false]
        rw [hrows])
    ⟨[], rfl, by
      have hall : (s.items.filter fun row => !covers [] row) = s.items := List.filter_eq_self.2 fun _ _ => rfl
      rw [hall]⟩
  apply hloop.mono
  rintro t - ⟨pre, hours, rfl⟩
  rw [List.append_nil] at hours
  subst hours
  -- ids are distinct, so a row that is dropped is itself an open story of the epic
  have hrows : (s.items.filter fun row => !covers (oursOf s epic) row) = s.items.filter fun row => !isOpenStory epic row := by
    refine List.filter_congr fun row hrow => congrArg (! ·) (Bool.eq_iff_iff.2 ⟨fun hcovers => ?_, fun hopen => ?_⟩)
    · obtain ⟨it, hit, hboth⟩ := List.any_eq_true.1 hcovers
      obtain ⟨hopen, hsame⟩ := Bool.and_eq_true_iff.1 hboth
      obtain ⟨hitems, hepic⟩ := List.mem_filter.1 hit
      obtain ⟨hkind, hdone⟩ := of_decide_eq_true hopen
      have hid : row.id = it.id := eq_of_beq (Bool.and_eq_true_iff.1 hsame).1
      obtain rfl := eq_of_key h.ids hrow hitems hid
      unfold isOpenStory
      rw [hepic, decide_eq_true hkind, hdone]
      rfl
    · unfold isOpenStory at hopen
      rw [Bool.and_eq_true, Bool.and_eq_true, decide_eq_true_eq, decide_eq_true_eq] at hopen
      obtain ⟨⟨hkind, hepic⟩, hdone⟩ := hopen
      refine List.any_eq_true.2 ⟨row, List.mem_filter.2 ⟨hrow, decide_eq_true hepic⟩, ?_⟩
      rw [decide_eq_true ⟨hkind, hdone⟩, beq_self_eq_true]
      unfold WorkList.WorkItem.isKind
      rw [hkind]
      rfl
  unfold cleared
  rw [hrows]

/-- **What a replan does** is to file the wanted entries into the gap of the list without the open stories. -/
theorem holds_replan (h : Spread s) {E : State → Prop} {Q : State → List Item → Prop}
    (hfile : Holds (fun _ => True) E Q
      (file (story_items (wantedOf s epic entries) (gapStart s epic)
        (some (gapStop s epic (wantedOf s epic entries).length))) (lit "amendment")) (cleared s epic)) :
    Holds (fun _ => True) E Q (amend epic entries) s := by
  unfold amend
  apply holds_bind
  apply holds_items
  rw [h.progress]
  apply holds_bind
  apply ((holds_prunes h).raising fun _ hno => hno.elim).mono
  rintro t - rfl
  apply holds_bind
  apply holds_items
  exact hfile

/-- **The gap of a replan.** -/
structure Gap (s : State) (epic : Text) (start stop : ℚ) : Prop where
  nonneg : 0 ≤ start
  lt : start < stop
  others : ∀ x ∈ othersOf s epic, x ≤ start ∨ stop ≤ x
  settled : ∀ x ∈ settledOf s epic, x ≤ start
  last : settledOf s epic ≠ [] → start ∈ settledOf s epic
  before : settledOf s epic = [] → ∀ x ∈ beforeOf s epic, x ≤ start
  none : settledOf s epic = [] → start = 0 ∨ start ∈ beforeOf s epic

theorem gap_of_replan (h : Spread s) (epic : Text) (n : ℕ) : Gap s epic (gapStart s epic) (gapStop s epic n) := by
  have hsettled : settledOf s epic ⊆ s.items.map (·.key) := by
    intro x hx
    obtain ⟨it, hit, rfl⟩ := List.mem_map.1 hx
    exact List.mem_map.2 ⟨it, (List.mem_filter.1 (List.mem_filter.1 hit).1).1, rfl⟩
  have hbefore : beforeOf s epic ⊆ s.items.map (·.key) := by
    intro x hx
    unfold beforeOf at hx
    cases hfirst : minimum ((oursOf s epic).map (·.key)) with
    | none =>
      rw [hfirst] at hx
      cases hx
    | some first =>
      rw [hfirst] at hx
      obtain ⟨it, hit, rfl⟩ := List.mem_map.1 (List.mem_filter.1 hx).1
      exact List.mem_map.2 ⟨it, (List.mem_filter.1 hit).1, rfl⟩
  have hpos : ∀ x ∈ s.items.map (·.key), 0 < x := by
    intro x hx
    obtain ⟨it, hit, rfl⟩ := List.mem_map.1 hx
    exact h.key_pos hit
  -- the start is the place of an item, or the very front
  have hstart : (gapStart s epic = 0 ∨ gapStart s epic ∈ s.items.map (·.key)) ∧ (∀ x ∈ settledOf s epic, x ≤ gapStart s epic) ∧
      (settledOf s epic ≠ [] → gapStart s epic ∈ settledOf s epic) ∧
      (settledOf s epic = [] → ∀ x ∈ beforeOf s epic, x ≤ gapStart s epic) ∧
      (settledOf s epic = [] → gapStart s epic = 0 ∨ gapStart s epic ∈ beforeOf s epic) := by
    unfold gapStart
    rcases maximum_cases (settledOf s epic) with ⟨hnil, hnone⟩ | ⟨m, hm, hsome, hall⟩
    · rw [hnone, hnil]
      rcases maximum_cases (beforeOf s epic) with ⟨hnil', hnone'⟩ | ⟨b, hb, hsome', hall'⟩
      · rw [hnone', hnil']
        exact ⟨.inl rfl, fun x hx => absurd hx List.not_mem_nil, fun hne => absurd rfl hne,
          fun _ x hx => absurd hx List.not_mem_nil, fun _ => .inl rfl⟩
      · rw [hsome']
        exact ⟨.inr (hbefore hb), fun x hx => absurd hx List.not_mem_nil, fun hne => absurd rfl hne, fun _ => hall',
          fun _ => .inr hb⟩
    · rw [hsome]
      exact ⟨.inr (hsettled hm), hall, fun _ => hm, fun hnil => absurd hm (hnil ▸ List.not_mem_nil),
        fun hnil => absurd hm (hnil ▸ List.not_mem_nil)⟩
  obtain ⟨hplace, hle, hlast, hfront, hnone⟩ := hstart
  have hend : gapStart s epic < (maximum (s.items.map (·.key))).getD (gapStart s epic) + n + 1 := by
    have hn : (0 : ℚ) ≤ n := Nat.cast_nonneg n
    have hmax : gapStart s epic ≤ (maximum (s.items.map (·.key))).getD (gapStart s epic) := by
      rcases maximum_cases (s.items.map (·.key)) with ⟨-, hno⟩ | ⟨m, hm, hsome, hall⟩
      · rw [hno]
        exact le_rfl
      · rw [hsome]
        rcases hplace with hzero | hmem
        · exact hzero ▸ (hpos m hm).le
        · exact hall _ hmem
    linarith
  have hgap := gap_spec (othersOf s epic) hend rfl
  refine ⟨?_, hgap.1, hgap.2, hle, hlast, hfront, hnone⟩
  rcases hplace with hzero | hmem
  · exact hzero.ge
  · exact (hpos _ hmem).le

/-- **No follow-up of the epic that is still to be worked stands at one of the places** that the gap is divided into. -/
def Clear (s : State) (epic : Text) (entries : List Entry) : Prop :=
  ∀ it ∈ s.items, it.kind = FOLLOW_UP → it.content.epic = some epic → SCHEME.isDone it = false →
    ∀ i < (wantedOf s epic entries).length,
      it.key ≠ place (gapStart s epic) (gapStop s epic (wantedOf s epic entries).length) (wantedOf s epic entries).length i

instance decidableClear (s : State) (epic : Text) (entries : List Entry) : Decidable (Clear s epic entries) :=
  inferInstanceAs (Decidable (∀ it ∈ s.items, _))

/-- The stories that a replan files rise through the gap. -/
theorem rising_stories (h : Spread s) (epic : Text) (entries : List Entry) : Rising (gapStart s epic) (gapStop s epic (wantedOf s epic entries).length)
    (story_items (wantedOf s epic entries) (gapStart s epic) (some (gapStop s epic (wantedOf s epic entries).length))) :=
  rising_mapIdx (gap_of_replan h epic _).lt fun _ _ => rfl

/-- What stays on the list stands at none of their places. -/
theorem Spread.replanned (h : Spread s) (hclear : Clear s epic entries)
    (hsub : new.Sublist (story_items (wantedOf s epic entries) (gapStart s epic)
      (some (gapStop s epic (wantedOf s epic entries).length))))
    (hnone : repeated ((cleared s epic).items.map (·.id)) new = none) : Spread (Coder.added (cleared s epic) new) := by
  have hgap := gap_of_replan h epic (wantedOf s epic entries).length
  have hrising := (rising_stories h epic entries).sublist hsub
  refine (h.filter _).added hnone (fun it hit => ?_) hgap.nonneg hrising fun it hit it' hit' heq => ?_
  · obtain ⟨i, hi, rfl⟩ := List.mem_mapIdx.1 (hsub.subset hit)
    exact List.mem_cons_self
  · obtain ⟨hitem, hkeep⟩ := List.mem_filter.1 hit
    obtain ⟨hlow, hhigh⟩ := hrising.key hit'
    rw [← heq] at hlow hhigh
    by_cases hepic : it.content.epic = some epic
    · by_cases hdone : SCHEME.isDone it = true
      · have hmem : it.key ∈ settledOf s epic :=
          List.mem_map.2 ⟨it, List.mem_filter.2 ⟨List.mem_filter.2 ⟨hitem, decide_eq_true hepic⟩, hdone⟩, rfl⟩
        exact absurd (hgap.settled _ hmem) (not_le.2 hlow)
      · -- an item of the epic that is to be worked and stays is a follow-up
        have hkind : it.kind = FOLLOW_UP := by
          rcases List.mem_cons.1 (h.kinds it hitem) with hstory | hkind
          · unfold isOpenStory at hkeep
            simp [hstory, hepic, hdone] at hkeep
          · exact List.mem_singleton.1 hkind
        obtain ⟨i, hi, rfl⟩ := List.mem_mapIdx.1 (hsub.subset hit')
        exact hclear it hitem hkind hepic (Bool.eq_false_iff.2 hdone) i hi heq
    · have hmem : it.key ∈ othersOf s epic := List.mem_map.2 ⟨it, List.mem_filter.2 ⟨hitem, decide_eq_true hepic⟩, rfl⟩
      rcases hgap.others _ hmem with hle | hle
      · exact absurd hle (not_le.2 hlow)
      · exact absurd hle (not_le.2 hhigh)

/-- The entry's story is done. -/
def doneEntry (s : State) (entry : Entry) : Bool := s.items.any fun it => it.kind = STORY && SCHEME.isDone it && it.id = entry.slug

/-- No entry has the id of a follow-up, or of a story of another epic that is still to be worked. -/
def Own (s : State) (epic : Text) (entries : List Entry) : Prop :=
  ∀ entry ∈ entries, ∀ it ∈ s.items, it.id = entry.slug →
    it.kind = STORY ∧ (it.content.epic = some epic ∨ SCHEME.isDone it = true)

instance decidableOwn (s : State) (epic : Text) (entries : List Entry) : Decidable (Own s epic entries) :=
  inferInstanceAs (Decidable (∀ entry ∈ entries, ∀ it ∈ s.items, _))

/-- Something of the epic is done. -/
def Begun (s : State) (epic : Text) : Prop := ∃ it ∈ s.items, it.content.epic = some epic ∧ SCHEME.isDone it = true

/-- **What a replan leaves**: the epic's stories are those that are done and the entries that are not, and the
new ones stand in their order where the epic's work goes on. -/
structure Replanned (s : State) (epic : Text) (entries : List Entry) (new : List Item) (t : State) : Prop where
  items : t.items = (s.items.filter fun it => !isOpenStory epic it) ++ new
  stories : (t.items.filter fun it => it.kind = STORY ∧ it.content.epic = some epic).map (·.id) =
    (s.items.filter fun it => it.kind = STORY ∧ it.content.epic = some epic ∧ SCHEME.isDone it).map (·.id) ++
      (entries.filter fun entry => !doneEntry s entry).map (·.slug)
  once : (t.items.map (·.id)).Nodup
  refiled : new.map (·.id) = (entries.filter fun entry => !doneEntry s entry).map (·.slug)
  rising : (new.map (·.key)).Pairwise (· < ·)
  after_done : ∀ it ∈ new, ∀ other ∈ s.items, other.content.epic = some epic → SCHEME.isDone other = true → other.key < it.key
  before_rest : Begun s epic → ∀ it ∈ new, ∀ other ∈ s.items, other.content.epic ≠ some epic →
    (∀ done ∈ s.items, done.content.epic = some epic → SCHEME.isDone done = true → done.key < other.key) → it.key < other.key
  after_front : ¬ Begun s epic → ∀ it ∈ new, ∀ other ∈ s.items, other.content.epic ≠ some epic →
    (∃ own ∈ s.items, own.content.epic = some epic) → (∀ own ∈ s.items, own.content.epic = some epic → other.key < own.key) →
    other.key < it.key
  before_back : ¬ Begun s epic → ∀ it ∈ new, ∀ other ∈ s.items, other.content.epic ≠ some epic →
    ((∃ own ∈ s.items, own.content.epic = some epic) → ∃ own ∈ s.items, own.content.epic = some epic ∧ own.key < other.key) →
    it.key < other.key

/-- The wanted entries are those that are not done. -/
theorem wantedOf_eq (hown : Own s epic entries) : wantedOf s epic entries = entries.filter fun entry => !doneEntry s entry := by
  unfold wantedOf
  refine List.filter_congr fun entry hentry => congrArg (! ·) (Bool.eq_iff_iff.2 ?_)
  unfold doneEntry
  rw [List.contains_iff_mem, List.mem_map, List.any_eq_true]
  constructor
  · rintro ⟨it, hit, hid⟩
    obtain ⟨hkept, hkind⟩ := List.mem_filter.1 hit
    obtain ⟨hitem, hkeep⟩ := List.mem_filter.1 hkept
    obtain ⟨hstory, hepic | hdone⟩ := hown entry hentry it hitem hid
    · refine ⟨it, hitem, ?_⟩
      unfold isOpenStory at hkeep
      simpa [hstory, hepic, hid] using hkeep
    · exact ⟨it, hitem, by simp [hstory, hdone, hid]⟩
  · rintro ⟨it, hitem, hboth⟩
    simp only [Bool.and_eq_true, decide_eq_true_eq] at hboth
    obtain ⟨⟨hstory, hdone⟩, hid⟩ := hboth
    refine ⟨it, List.mem_filter.2 ⟨List.mem_filter.2 ⟨hitem, ?_⟩, ?_⟩, hid⟩
    · simp [isOpenStory, hdone]
    · exact List.contains_iff_mem.2 (List.mem_singleton.2 hstory)

theorem map_id_story_items (entries : List Entry) (start : ℚ) (stop : Option ℚ) :
    (story_items entries start stop).map (·.id) = entries.map (·.slug) := by
  unfold story_items
  refine List.ext_getElem (by simp) fun i hi hi' => ?_
  rw [List.getElem_map, List.getElem_mapIdx, List.getElem_map]

theorem mem_oursOf : it ∈ oursOf s epic ↔ it ∈ s.items ∧ it.content.epic = some epic := by
  unfold oursOf
  rw [List.mem_filter, decide_eq_true_eq]

theorem mem_othersOf (hit : it ∈ s.items) (hepic : it.content.epic ≠ some epic) : it.key ∈ othersOf s epic :=
  List.mem_map.2 ⟨it, List.mem_filter.2 ⟨hit, decide_eq_true hepic⟩, rfl⟩

theorem settledOf_eq_nil (h : ¬ Begun s epic) : settledOf s epic = [] := by
  rw [List.eq_nil_iff_forall_not_mem]
  intro x hx
  obtain ⟨it, hit, -⟩ := List.mem_map.1 hx
  obtain ⟨hours, hdone⟩ := List.mem_filter.1 hit
  obtain ⟨hitem, hepic⟩ := mem_oursOf.1 hours
  exact h ⟨it, hitem, hepic, hdone⟩

/-- Before the epic's first item stands what stands before all of them. -/
theorem mem_beforeOf {x : ℚ} (hx : x ∈ othersOf s epic) :
    x ∈ beforeOf s epic ↔ (∃ own ∈ s.items, own.content.epic = some epic) ∧
      ∀ own ∈ s.items, own.content.epic = some epic → x < own.key := by
  unfold beforeOf
  rcases minimum_cases ((oursOf s epic).map (·.key)) with ⟨hnil, hnone⟩ | ⟨first, hfirst, hsome, hall⟩
  · rw [hnone]
    refine iff_of_false List.not_mem_nil fun ⟨⟨own, hown, hepic⟩, _⟩ => ?_
    have hmem := List.mem_map_of_mem (f := (·.key)) (mem_oursOf.2 ⟨hown, hepic⟩)
    rw [hnil] at hmem
    exact List.not_mem_nil hmem
  · obtain ⟨own, hown, rfl⟩ := List.mem_map.1 hfirst
    rw [hsome, Option.elim_some, List.mem_filter, decide_eq_true_eq]
    constructor
    · rintro ⟨-, hlt⟩
      exact ⟨⟨own, mem_oursOf.1 hown⟩, fun other hother hepic =>
        hlt.trans_le (hall _ (List.mem_map.2 ⟨other, mem_oursOf.2 ⟨hother, hepic⟩, rfl⟩))⟩
    · rintro ⟨-, hlt⟩
      exact ⟨hx, hlt own (mem_oursOf.1 hown).1 (mem_oursOf.1 hown).2⟩

/-- The wanted entries in the gap are what a replan should leave. -/
theorem replanned_of_filed (h : Spread s) (hepic : ∀ entry ∈ entries, entry.epic = epic) (hown : Own s epic entries)
    (hnew : new = story_items (wantedOf s epic entries) (gapStart s epic)
      (some (gapStop s epic (wantedOf s epic entries).length)))
    (hspread : Spread (added (cleared s epic) new)) : Replanned s epic entries new (added (cleared s epic) new) := by
  have hgap := gap_of_replan h epic (wantedOf s epic entries).length
  have hrising : Rising (gapStart s epic) (gapStop s epic (wantedOf s epic entries).length) new := hnew ▸ rising_stories h epic entries
  have hids : new.map (·.id) = (entries.filter fun entry => !doneEntry s entry).map (·.slug) := by
    rw [hnew, map_id_story_items, wantedOf_eq hown]
  have hbehind : ∀ it ∈ new, ∀ other ∈ s.items, other.content.epic ≠ some epic → gapStart s epic < other.key →
      it.key < other.key := by
    intro it hit other hother hne hlt
    rcases hgap.others _ (mem_othersOf hother hne) with hle | hle
    · exact absurd hle (not_le.2 hlt)
    · exact (hrising.key hit).2.trans_le hle
  refine ⟨rfl, ?_, hspread.ids, hids, hrising.sorted, ?_, ?_, ?_, ?_⟩
  · have hkept : ((cleared s epic).items.filter fun it => it.kind = STORY ∧ it.content.epic = some epic) =
        s.items.filter fun it => it.kind = STORY ∧ it.content.epic = some epic ∧ SCHEME.isDone it := by
      unfold cleared
      rw [List.filter_filter]
      refine List.filter_congr fun it _ => ?_
      by_cases hkind : it.kind = STORY <;> by_cases hours : it.content.epic = some epic <;> simp [isOpenStory, hkind, hours]
    have hall : (new.filter fun it => it.kind = STORY ∧ it.content.epic = some epic) = new := by
      refine List.filter_eq_self.2 fun it hit => decide_eq_true ?_
      rw [hnew] at hit
      obtain ⟨i, hi, rfl⟩ := List.mem_mapIdx.1 hit
      have hmem := (List.mem_filter.1 (List.getElem_mem hi)).1
      exact ⟨rfl, congrArg some (hepic _ hmem)⟩
    show (((cleared s epic).items ++ new).filter _).map _ = _
    rw [List.filter_append, List.map_append, hkept, hall, hids]
  · intro it hit other hother hours hdone
    have hmem : other.key ∈ settledOf s epic :=
      List.mem_map.2 ⟨other, List.mem_filter.2 ⟨mem_oursOf.2 ⟨hother, hours⟩, hdone⟩, rfl⟩
    exact (hgap.settled _ hmem).trans_lt (hrising.key hit).1
  · rintro ⟨done, hdone, hours, hisDone⟩ it hit other hother hne hafter
    have hmem : done.key ∈ settledOf s epic :=
      List.mem_map.2 ⟨done, List.mem_filter.2 ⟨mem_oursOf.2 ⟨hdone, hours⟩, hisDone⟩, rfl⟩
    obtain ⟨last, hlast, hkey⟩ := List.mem_map.1 (hgap.last (List.ne_nil_of_mem hmem))
    obtain ⟨hlast, hlastDone⟩ := List.mem_filter.1 hlast
    obtain ⟨hitem, hlastEpic⟩ := mem_oursOf.1 hlast
    exact hbehind it hit other hother hne (hkey ▸ hafter last hitem hlastEpic hlastDone)
  · intro hbegun it hit other hother hne hexists hfront
    have hmem := (mem_beforeOf (mem_othersOf hother hne)).2 ⟨hexists, hfront⟩
    exact (hgap.before (settledOf_eq_nil hbegun) _ hmem).trans_lt (hrising.key hit).1
  · intro hbegun it hit other hother hne hafter
    refine hbehind it hit other hother hne ?_
    rcases hgap.none (settledOf_eq_nil hbegun) with hzero | hmem
    · exact hzero ▸ h.key_pos hother
    · -- the start stands before the epic's first item, and the other item does not
      have hother' : gapStart s epic ∈ othersOf s epic := by
        unfold beforeOf at hmem
        cases hfirst : minimum ((oursOf s epic).map (·.key)) with
        | none =>
          rw [hfirst] at hmem
          cases hmem
        | some first =>
          rw [hfirst] at hmem
          exact (List.mem_filter.1 hmem).1
      obtain ⟨hexists, hfront⟩ := (mem_beforeOf hother').1 hmem
      obtain ⟨own, hownItem, hownEpic, hlt⟩ := hafter hexists
      exact (hfront own hownItem hownEpic).trans hlt

/-- **A replan of an epic's entries does not raise, and leaves what it should.** -/
theorem holds_replanned (h : Spread s) (hslugs : (entries.map (·.slug)).Nodup) (hepic : ∀ entry ∈ entries, entry.epic = epic)
    (hclear : Clear s epic entries) (hown : Own s epic entries) :
    Holds (fun _ => True) (fun _ => False) (fun t new => Spread t ∧ Replanned s epic entries new t) (amend epic entries) s := by
  have hids := map_id_story_items (wantedOf s epic entries) (gapStart s epic)
    (some (gapStop s epic (wantedOf s epic entries).length))
  -- no row that stays has the id of a wanted entry
  have hfree : ∀ entry ∈ wantedOf s epic entries, entry.slug ∉ (cleared s epic).items.map (·.id) := by
    intro entry hentry hmem
    obtain ⟨it, hit, hid⟩ := List.mem_map.1 hmem
    obtain ⟨hin, hnot⟩ := List.mem_filter.1 hentry
    have hstory := (hown entry hin it (List.mem_filter.1 hit).1 hid).1
    have hkept : entry.slug ∈ (ofKind (cleared s epic).items (some [STORY])).map (·.id) :=
      List.mem_map.2 ⟨it, List.mem_filter.2 ⟨hit, List.contains_iff_mem.2 (List.mem_singleton.2 hstory)⟩, hid⟩
    rw [List.contains_iff_mem.2 hkept] at hnot
    cases hnot
  apply holds_replan h
  refine (holds_file_all _ _ (fun it hit => ?_) (fun it hit => ?_) ?_).mono ?_
  · obtain ⟨i, hi, rfl⟩ := List.mem_mapIdx.1 hit
    rfl
  · have hmem := List.mem_map_of_mem (f := (·.id)) hit
    rw [hids] at hmem
    obtain ⟨entry, hentry, hslug⟩ := List.mem_map.1 hmem
    exact hslug ▸ hfree entry hentry
  · rw [hids]
    exact hslugs.sublist (List.filter_sublist.map _)
  · rintro t new ⟨rfl, rfl, hnone⟩
    have hspread := h.replanned hclear (List.Sublist.refl _) hnone
    exact ⟨hspread, replanned_of_filed h hepic hown rfl hspread⟩

end Replan

/-! ## Runs -/

/-- A move that puts no story on a follow-up, and whose entries are the epic's. -/
def Fits (s : State) : Move → Prop
  | .amend epic entries => Clear s epic entries ∧ Own s epic entries
  | _ => True

instance decidableFits (s : State) : ∀ m : Move, Decidable (Fits s m)
  | .amend epic entries => inferInstanceAs (Decidable (Clear s epic entries ∧ Own s epic entries))
  | .follow_up _ _ _ | .claim _ _ _ _ _ | .standing _ _ _ => .isTrue trivial

theorem holds_find_item {I E : State → Prop} {Q : State → Option Item → Prop} {item_id : Text}
    (h : Q s (s.items.find? fun it => it.id = item_id)) : Holds I E Q (find item_id) s := by
  have hall : ofKind s.items none = s.items := List.filter_true _
  unfold find
  apply holds_bind
  apply holds_items
  rw [hall]
  exact holds_pure h

/-- Follow-ups that are filed find their places. -/
theorem holds_follow_up_item (h : Spread s) (parent_id : Text) (follow_ups : List FollowUp) (caller : Text) :
    Holds (fun _ => True) (fun t => t = s) (fun t _ => Spread t ∧ ∃ new, FollowsUp s parent_id new t)
      (moving (.follow_up parent_id follow_ups caller)) s := by
  unfold moving
  apply holds_bind
  apply holds_find_item
  cases hfind : s.items.find? (fun it => it.id = parent_id) with
  | none => exact holds_pure ⟨h, [], FollowsUp.none s parent_id⟩
  | some parent =>
    have hparent := List.mem_of_find?_eq_some hfind
    have hid : parent.id = parent_id := by simpa using List.find?_some hfind
    apply holds_bind
    apply ((holds_follow_ups follow_ups h hparent).raising fun _ hno => hno.elim).mono
    rintro t made ⟨rfl, start, stop, hstart, hrising, hown, hfamily, ⟨last, hlast, hkin, hkey⟩, hgap⟩
    apply holds_bind
    apply holds_file_sublist.mono
    rintro u new ⟨rfl, hsub, hnone⟩
    apply holds_pure
    have hnew := hrising.sublist hsub
    rw [hid] at hown hfamily hkin
    refine ⟨h.added hnone (fun it hit => ?_) hstart hnew fun it hit it' hit' heq => ?_, new, rfl,
      fun it hit => hown it (hsub.subset hit), fun it hit other hother hin => ?_, fun it hit other hother hall => ?_⟩
    · rw [(hown it (hsub.subset hit)).1]
      exact List.mem_cons_of_mem _ List.mem_cons_self
    · obtain ⟨hlow, hhigh⟩ := hnew.key hit'
      rcases hgap it hit with hle | hle
      · exact absurd (heq ▸ hle) (not_le.2 hlow)
      · exact absurd (heq ▸ hle) (not_le.2 hhigh)
    · exact (hfamily other hother hin).trans_lt (hnew.key hit).1
    · have hlt := hall last hlast hkin
      rcases hgap other hother with hle | hle
      · exact absurd (hkey ▸ hle) (not_le.2 hlt)
      · exact (hnew.key hit).2.trans_le hle

/-- A replan leaves distinct places, whether it raises or not. -/
theorem holds_amend_spread (h : Spread s) {epic : Text} {entries : List Entry} (hclear : Clear s epic entries) :
    Holds (fun _ => True) Spread (fun t _ => Spread t) (amend epic entries) s := by
  apply holds_replan h
  apply (holds_file_sublist.raising fun t ht => ht ▸ h.filter _).mono
  rintro t new ⟨rfl, hsub, hnone⟩
  exact h.replanned hclear hsub hnone

/-- **One move keeps the places distinct.** -/
theorem spread_moved {m : Move} (h : Spread s) (hfits : Fits s m) (hmoved : moved s m = some t) : Spread t := by
  obtain rfl := Option.some.inj hmoved
  cases m with
  | follow_up parent_id follow_ups caller =>
    exact (((holds_follow_up_item h parent_id follow_ups caller).mono fun _ _ hQ => hQ.1).raising fun _ ht => ht ▸ h).leaves
  | claim kind skip strict n status => exact h.map (WorkList.keeps_ite (WorkList.keeps_claimed status))
  | standing ids status kind =>
    have hmove : Holds (fun _ => True) Spread (fun t _ => Spread t) (move ids status kind (lit "standing")) s := by
      unfold move
      apply holds_bind
      apply holds_lift
      · exact fun _ _ => holds_edit trivial (h.map (WorkList.keeps_ite (WorkList.keeps_status status)))
      · exact fun _ _ => h
    exact hmove.leaves
  | amend epic entries =>
    have hamend : Holds (fun _ => True) Spread (fun t _ => Spread t) (moving (.amend epic entries)) s :=
      holds_bind ((holds_amend_spread h hfits.1).mono fun _ _ ht => holds_pure ht)
    exact hamend.leaves

/-- The stories of a launch stand in their order. -/
theorem spread_launched {launch : List Entry} (hslugs : (launch.map (·.slug)).Nodup) : Spread (launched launch) := by
  have hids := map_id_story_items launch 0 none
  have hempty : Spread ⟨[], []⟩ :=
    ⟨List.nodup_nil, fun _ hit => absurd hit List.not_mem_nil, fun _ hit => absurd hit List.not_mem_nil, List.nodup_nil⟩
  have hend : (0 : ℚ) < launch.length + 1 := by positivity
  have hrising : Rising 0 (launch.length + 1) (story_items launch 0 none) := by
    refine rising_mapIdx hend fun i entry => congrArg some ?_
    show (0 : ℚ) + 1 * ((i : ℚ) + 1) = place (0 : ℚ) (launch.length + 1) launch.length i
    unfold place
    rw [sub_zero, div_self hend.ne']
  have hfile := holds_file_all (s := ⟨[], []⟩) (story_items launch 0 none) (lit "launch")
    (fun it hit => by
      obtain ⟨i, hi, rfl⟩ := List.mem_mapIdx.1 hit
      rfl) (fun _ _ => List.not_mem_nil) (hids ▸ hslugs)
  have hspread : Holds (fun _ => True) Spread (fun t _ => Spread t)
      (file (story_items launch 0 none) (lit "launch")) ⟨[], []⟩ := by
    apply (hfile.raising fun _ hno => hno.elim).mono
    rintro t new ⟨rfl, rfl, hnone⟩
    refine hempty.added hnone (fun it hit => ?_) le_rfl hrising fun it hit => absurd hit List.not_mem_nil
    obtain ⟨i, hi, rfl⟩ := List.mem_mapIdx.1 hit
    exact List.mem_cons_self
  exact hspread.leaves

/-- **Work keeps its place**, in every run whose replans put no story on a follow-up of the epic that is still to be
worked and have entries of the epic's own: the places are distinct, new follow-ups come right after their family, and a
replan leaves the epic's stories in order where its work goes on. -/
theorem places_kept (launch : List Entry) (ms : List Move) (s : State) (hslugs : (launch.map (·.slug)).Nodup)
    (halong : Run.Along moved Fits (launched launch) ms) (hrun : Run.run moved (launched launch) ms = some s) :
    ((∀ it ∈ s.items, it.order.isSome) ∧ (s.items.map (·.order)).Nodup) ∧
    (∀ parent_id follow_ups caller t, moved s (.follow_up parent_id follow_ups caller) = some t →
      ∃ new, FollowsUp s parent_id new t) ∧
    ∀ epic entries t, (entries.map (·.slug)).Nodup → (∀ entry ∈ entries, entry.epic = epic) →
      Fits s (.amend epic entries) → moved s (.amend epic entries) = some t → ∃ new, Replanned s epic entries new t := by
  have hinv : ∀ s m t, Spread s → Fits s m → moved s m = some t → Spread t := fun s m t => spread_moved
  have h : Spread s := Run.inv_run_of hinv halong (spread_launched hslugs) hrun
  refine ⟨⟨fun it hit => ?_, ?_⟩, fun parent_id follow_ups caller t hmoved => ?_,
    fun epic entries t hnodup hepic hfits hmoved => ?_⟩
  · obtain ⟨q, hq, -⟩ := h.positive it hit
    rw [hq]
    rfl
  · have hkeys : (s.items.map (·.order)).map (Option.getD · 0) = s.items.map (·.key) := List.map_map
    exact List.Nodup.of_map _ (hkeys ▸ h.places)
  · obtain rfl := Option.some.inj hmoved
    have hfollow : Holds (fun _ => True) (fun t => ∃ new, FollowsUp s parent_id new t)
        (fun t _ => ∃ new, FollowsUp s parent_id new t) (moving (.follow_up parent_id follow_ups caller)) s := by
      apply ((holds_follow_up_item h parent_id follow_ups caller).mono fun _ _ hQ => hQ.2).raising
      rintro t rfl
      exact ⟨[], FollowsUp.none t parent_id⟩
    exact hfollow.leaves
  · obtain rfl := Option.some.inj hmoved
    have hamend : Holds (fun _ => True) (fun _ => False) (fun t _ => ∃ new, Replanned s epic entries new t)
        (moving (.amend epic entries)) s :=
      holds_bind ((holds_replanned h hnodup hepic hfits.1 hfits.2).mono fun _ new hQ => holds_pure ⟨new, hQ.2⟩)
    exact hamend.never.elim fun _ ht => ht

/-- An entry of an epic, by its slug. -/
def entry (slug epic : String) : Entry := ⟨lit slug, lit epic, lit slug⟩

/-- Two epics; the first story is done and gets a follow-up, and its epic is planned again. -/
def again (wanted : List Entry) : List Move :=
  [.follow_up (lit "a") [⟨lit "t", lit "r", []⟩] (lit "dev"), .standing [lit "a"] DONE STORY, .amend (lit "E") wanted]

/-- Two wanted stories go around the follow-up. -/
theorem places_kept_two : ∃ s,
    Run.run moved (launched [entry "a" "E", entry "b" "E", entry "c" "F"]) (again [entry "a" "E", entry "b" "E", entry "d" "E"]) =
      some s ∧ (s.items.map (·.order)).Nodup := by
  refine ⟨_, rfl, (places_kept [entry "a" "E", entry "b" "E", entry "c" "F"]
    (again [entry "a" "E", entry "b" "E", entry "d" "E"]) _ ?_ ?_ rfl).1.2⟩
  · decide
  · with_unfolding_all decide

/-- Of three, one comes to stand on it. -/
theorem refiled_onto_follow_up : ∃ s,
    Run.run moved (launched [entry "a" "E", entry "b" "E", entry "c" "F"])
      (again [entry "a" "E", entry "b" "E", entry "d" "E", entry "e" "E"]) = some s ∧ ¬ (s.items.map (·.order)).Nodup := by
  refine ⟨_, rfl, ?_⟩
  with_unfolding_all decide

end Stablemate.Coder
