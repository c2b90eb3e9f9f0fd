import Mathlib.Data.List.Basic
import Mathlib.Order.Basic

/-!
# Breadth-first search

`out` gives the edges that leave a node and `dst` where an edge leads.

* `search`: a queue of nodes, each with the whole path to it, which stops as soon as it sees the target.
  `search_run`: the path it comes out with is a walk of the fewest edges, and it comes out with none only
  when there is no walk. `search_isSome`: it ends.
* `spread`: what can be reached from some nodes at all, with `mem_spread` and `spread_isSome`.

The queue holds paths of at most two lengths, the shorter ones first (`Frontier`).
-/

namespace Stablemate.Bfs

variable {α ε : Type*}

/-- A list of edges that leads from a node to another. -/
def Walk (out : α → List ε) (dst : ε → α) : α → List ε → α → Prop
  | a, [], b => a = b
  | a, e :: es, b => e ∈ out a ∧ Walk out dst (dst e) es b

section Walk

variable {out : α → List ε} {dst : ε → α} {a b c : α} {es fs : List ε}

@[simp] theorem walk_nil : Walk out dst a [] b ↔ a = b := Iff.rfl

@[simp] theorem walk_cons {e : ε} : Walk out dst a (e :: es) b ↔ e ∈ out a ∧ Walk out dst (dst e) es b := Iff.rfl

theorem Walk.append (h : Walk out dst a es b) (h' : Walk out dst b fs c) : Walk out dst a (es ++ fs) c := by
  induction es generalizing a with
  | nil =>
    obtain rfl : a = b := h
    exact h'
  | cons e es ih => exact ⟨h.1, ih h.2⟩

theorem Walk.concat {e : ε} (h : Walk out dst a es b) (he : e ∈ out b) : Walk out dst a (es ++ [e]) (dst e) :=
  h.append ⟨he, rfl⟩

/-- A walk that is not empty has a last edge. -/
theorem Walk.last_cases (h : Walk out dst a es b) :
    es = [] ∧ a = b ∨ ∃ fs e c, es = fs ++ [e] ∧ Walk out dst a fs c ∧ e ∈ out c ∧ dst e = b := by
  induction es generalizing a with
  | nil => exact .inl ⟨rfl, h⟩
  | cons e es ih =>
    right
    rcases ih h.2 with ⟨rfl, hb⟩ | ⟨fs, f, c, rfl, hfs, hf, hb⟩
    · exact ⟨[], e, a, rfl, rfl, h.1, hb⟩
    · exact ⟨e :: fs, f, c, rfl, ⟨h.1, hfs⟩, hf, hb⟩

/-- A set that every edge stays in is not left. -/
theorem Walk.mem_of_closed {s : List α} (h : Walk out dst a es b) (hs : ∀ c ∈ s, ∀ e ∈ out c, dst e ∈ s) (ha : a ∈ s) :
    b ∈ s := by
  induction es generalizing a with
  | nil =>
    obtain rfl : a = b := h
    exact ha
  | cons e es ih => exact ih h.2 (hs a ha e h.1)

end Walk

/-! ## What holds of the queue -/

/-- What holds of the queue while the edges `es` out of `a` are looked at: a node is in `seen` when a walk of at most
`d` edges leads to it, and the paths in the queue are shortest walks of `d` or `d + 1` edges. -/
structure Frontier (out : α → List ε) (dst : ε → α) (target start : α) (d : ℕ) (a : α) (es : List ε)
    (queue : List (α × List ε)) (seen : List α) : Prop where
  walks : ∀ x ∈ queue, Walk out dst start x.2 x.1
  least : ∀ x ∈ queue, ∀ q, Walk out dst start q x.1 → x.2.length ≤ q.length
  level : ∀ x ∈ queue, d ≤ x.2.length ∧ x.2.length ≤ d + 1
  sorted : queue.Pairwise fun x y => x.2.length ≤ y.2.length
  near : ∀ q b, Walk out dst start q b → q.length ≤ d → b ∈ seen
  closed : ∀ b ∈ seen, ∀ e ∈ out b, dst e ∈ seen ∨ b ∈ queue.map Prod.fst ∨ b = a ∧ e ∈ es
  unseen : target ∉ seen

variable {out : α → List ε} {dst : ε → α} {target start a : α} {d : ℕ} {es path : List ε} {queue queue' : List (α × List ε)}
  {seen seen' starts wait : List α}

/-- A walk of the fewest edges. -/
def Shortest (out : α → List ε) (dst : ε → α) (start : α) (path : List ε) (b : α) : Prop :=
  Walk out dst start path b ∧ ∀ q, Walk out dst start q b → path.length ≤ q.length

/-- A node that is not seen is further away than `d`. -/
theorem Frontier.far (h : Frontier out dst target start d a es queue seen) {b : α} (hb : b ∉ seen) {q : List ε}
    (hq : Walk out dst start q b) : d + 1 ≤ q.length := by
  by_contra hlt
  exact hb (h.near q b hq (by omega))

/-- An edge to a node that is seen is passed over. -/
theorem Frontier.skip {e : ε} (h : Frontier out dst target start d a (e :: es) queue seen) (he : dst e ∈ seen) :
    Frontier out dst target start d a es queue seen where
  walks := h.walks
  least := h.least
  level := h.level
  sorted := h.sorted
  near := h.near
  closed b hb f hf := by
    rcases h.closed b hb f hf with hseen | hqueue | ⟨rfl, hmem⟩
    · exact .inl hseen
    · exact .inr (.inl hqueue)
    · rcases List.mem_cons.1 hmem with rfl | hmem
      · exact .inl he
      · exact .inr (.inr ⟨rfl, hmem⟩)
  unseen := h.unseen

/-- An edge to a new node puts it at the end of the queue. -/
theorem Frontier.push {e : ε} (h : Frontier out dst target start d a (e :: es) queue seen) (hpath : Walk out dst start path a)
    (hlen : path.length = d) (hout : e ∈ out a) (he : dst e ∉ seen) (hne : dst e ≠ target) :
    Frontier out dst target start d a es (queue ++ [(dst e, path ++ [e])]) (dst e :: seen) where
  walks x hx := by
    rcases List.mem_append.1 hx with hx | hx
    · exact h.walks x hx
    · obtain rfl := List.mem_singleton.1 hx
      exact hpath.concat hout
  least x hx q hq := by
    rcases List.mem_append.1 hx with hx | hx
    · exact h.least x hx q hq
    · obtain rfl := List.mem_singleton.1 hx
      have hfar := h.far he hq
      simp only [List.length_append, List.length_singleton]
      omega
  level x hx := by
    rcases List.mem_append.1 hx with hx | hx
    · exact h.level x hx
    · obtain rfl := List.mem_singleton.1 hx
      simp only [List.length_append, List.length_singleton]
      omega
  sorted := by
    refine List.pairwise_append.2 ⟨h.sorted, List.pairwise_singleton _ _, fun x hx y hy => ?_⟩
    obtain rfl := List.mem_singleton.1 hy
    have hlevel := h.level x hx
    simp only [List.length_append, List.length_singleton]
    omega
  near q b hq hle := List.mem_cons_of_mem _ (h.near q b hq hle)
  closed b hb f hf := by
    rcases List.mem_cons.1 hb with rfl | hb
    · exact .inr (.inl (by simp))
    · rcases h.closed b hb f hf with hseen | hqueue | ⟨rfl, hmem⟩
      · exact .inl (List.mem_cons_of_mem _ hseen)
      · exact .inr (.inl (by simp [hqueue]))
      · rcases List.mem_cons.1 hmem with rfl | hmem
        · exact .inl List.mem_cons_self
        · exact .inr (.inr ⟨rfl, hmem⟩)
  unseen := fun hmem => (List.mem_cons.1 hmem).elim (fun heq => hne heq.symm) h.unseen

/-- The node at the front of the queue is taken off it, and all of its edges are still to be looked at. -/
theorem Frontier.pop {x : α × List ε} {b : α} (h : Frontier out dst target start d b [] (x :: queue) seen) :
    Frontier out dst target start d x.1 (out x.1) queue seen where
  walks y hy := h.walks y (List.mem_cons_of_mem _ hy)
  least y hy := h.least y (List.mem_cons_of_mem _ hy)
  level y hy := h.level y (List.mem_cons_of_mem _ hy)
  sorted := (List.pairwise_cons.1 h.sorted).2
  near := h.near
  closed c hc e he := by
    rcases h.closed c hc e he with hseen | hqueue | ⟨-, hmem⟩
    · exact .inl hseen
    · rw [List.map_cons] at hqueue
      rcases List.mem_cons.1 hqueue with rfl | hqueue
      · exact .inr (.inr ⟨rfl, he⟩)
      · exact .inr (.inl hqueue)
    · exact absurd hmem List.not_mem_nil
  unseen := h.unseen

/-- When the front of the queue is of the greater length, all nodes of that distance are seen: the last node before
one of them is not in the queue any more, where all paths are longer. -/
theorem Frontier.promote {x : α × List ε} {b : α} (h : Frontier out dst target start d b [] (x :: queue) seen)
    (hx : x.2.length = d + 1) : Frontier out dst target start (d + 1) b [] (x :: queue) seen := by
  have hall : ∀ y ∈ x :: queue, y.2.length = d + 1 := by
    intro y hy
    have hlevel := h.level y hy
    rcases List.mem_cons.1 hy with rfl | hmem
    · exact hx
    · have hle := (List.pairwise_cons.1 h.sorted).1 y hmem
      omega
  refine ⟨h.walks, h.least, fun y hy => ?_, h.sorted, fun q c hq hle => ?_, h.closed, h.unseen⟩
  · have hlen := hall y hy
    omega
  · rcases hq.last_cases with ⟨rfl, rfl⟩ | ⟨fs, e, c', rfl, hfs, he, rfl⟩
    · exact h.near [] start rfl (Nat.zero_le d)
    · rw [List.length_append, List.length_singleton] at hle
      have hseen : c' ∈ seen := h.near fs c' hfs (by omega)
      rcases h.closed c' hseen e he with hmem | hqueue | ⟨-, hmem⟩
      · exact hmem
      · obtain ⟨y, hy, rfl⟩ := List.mem_map.1 hqueue
        have hlen := hall y hy
        have hleast := h.least y hy fs hfs
        omega
      · exact absurd hmem List.not_mem_nil

theorem frontier_start (hne : start ≠ target) : Frontier out dst target start 0 start [] [(start, [])] [start] where
  walks x hx := by
    obtain rfl := List.mem_singleton.1 hx
    rfl
  least x hx q _ := by
    obtain rfl := List.mem_singleton.1 hx
    exact Nat.zero_le _
  level x hx := by
    obtain rfl := List.mem_singleton.1 hx
    exact ⟨Nat.zero_le _, Nat.zero_le _⟩
  sorted := List.pairwise_singleton _ _
  near q b hq hle := by
    obtain rfl := List.length_eq_zero_iff.1 (Nat.le_zero.1 hle)
    exact List.mem_singleton.2 (Eq.symm hq)
  closed b hb e _ := .inr (.inl (by simpa using hb))
  unseen hmem := hne (List.mem_singleton.1 hmem).symm

/-! ## The search for a target -/

section Search

variable [DecidableEq α] (out dst target)

/-- The edges out of one node: the path to the target, or the queue and the nodes that are seen. -/
def scan (path : List ε) : List ε → List (α × List ε) → List α → Except (List ε) (List (α × List ε) × List α)
  | [], queue, seen => .ok (queue, seen)
  | e :: es, queue, seen =>
    if dst e ∈ seen then scan path es queue seen
    else if dst e = target then .error (path ++ [e])
    else scan path es (queue ++ [(dst e, path ++ [e])]) (dst e :: seen)

/-- The loop over the queue; nothing when the fuel runs out. -/
def search : ℕ → List (α × List ε) → List α → Option (Option (List ε))
  | 0, _, _ => none
  | _ + 1, [], _ => some none
  | fuel + 1, x :: queue, seen =>
    match scan dst target x.2 (out x.1) queue seen with
    | .error path => some (some path)
    | .ok (queue, seen) => search fuel queue seen

variable {out dst target}

/-- **The edges out of one node**: the loop over them stops with a shortest walk, or keeps what holds of the queue. -/
theorem scan_spec (hpath : Walk out dst start path a) (hlen : path.length = d) (hes : es ⊆ out a)
    (h : Frontier out dst target start d a es queue seen) :
    (∀ p, scan dst target path es queue seen = .error p → Shortest out dst start p target) ∧
      ∀ queue' seen', scan dst target path es queue seen = .ok (queue', seen') →
        Frontier out dst target start d a [] queue' seen' := by
  induction es generalizing queue seen with
  | nil =>
    refine ⟨fun p hp => (by cases hp), fun queue' seen' hok => ?_⟩
    cases hok
    exact h
  | cons e es ih =>
    obtain ⟨hout, hes⟩ := List.cons_subset.1 hes
    unfold scan
    by_cases he : dst e ∈ seen
    · rw [if_pos he]
      exact ih hes (h.skip he)
    · rw [if_neg he]
      by_cases htarget : dst e = target
      · rw [if_pos htarget]
        refine ⟨fun p hp => ?_, fun _ _ hok => (by cases hok)⟩
        cases hp
        refine ⟨htarget ▸ hpath.concat hout, fun q hq => ?_⟩
        have hfar := h.far h.unseen hq
        simp only [List.length_append, List.length_singleton]
        omega
      · rw [if_neg htarget]
        exact ih hes (h.push hpath hlen hout he htarget)

/-- **One round** of the search. -/
theorem Frontier.step {x : α × List ε} {b : α} (h : Frontier out dst target start d b [] (x :: queue) seen) :
    (∀ p, scan dst target x.2 (out x.1) queue seen = .error p → Shortest out dst start p target) ∧
      ∀ queue' seen', scan dst target x.2 (out x.1) queue seen = .ok (queue', seen') →
        ∃ d', Frontier out dst target start d' x.1 [] queue' seen' := by
  have hwalk := h.walks x List.mem_cons_self
  have hlevel := h.level x List.mem_cons_self
  rcases Nat.eq_or_lt_of_le hlevel.1 with hlen | hlt
  · obtain ⟨herror, hok⟩ := scan_spec hwalk hlen.symm (List.Subset.refl _) h.pop
    exact ⟨herror, fun queue' seen' heq => ⟨d, hok queue' seen' heq⟩⟩
  · have hlen : x.2.length = d + 1 := by omega
    obtain ⟨herror, hok⟩ := scan_spec hwalk hlen (List.Subset.refl _) (h.promote hlen).pop
    exact ⟨herror, fun queue' seen' heq => ⟨d + 1, hok queue' seen' heq⟩⟩

/-- **A run of the search** comes out with a shortest walk, or there is no walk. -/
theorem search_run {b : α} {fuel : ℕ} {r : Option (List ε)} (h : Frontier out dst target start d b [] queue seen)
    (hr : search out dst target fuel queue seen = some r) :
    (∀ p, r = some p → Shortest out dst start p target) ∧ (r = none → ∀ q, ¬ Walk out dst start q target) := by
  induction fuel generalizing d b queue seen with
  | zero => cases hr
  | succ fuel ih =>
    cases queue with
    | nil =>
      cases hr
      refine ⟨fun p hp => (by cases hp), fun _ q hq => h.unseen ?_⟩
      have hclosed : ∀ c ∈ seen, ∀ e ∈ out c, dst e ∈ seen := by
        intro c hc e he
        rcases h.closed c hc e he with hmem | hmem | ⟨-, hmem⟩
        · exact hmem
        · exact absurd hmem List.not_mem_nil
        · exact absurd hmem List.not_mem_nil
      exact hq.mem_of_closed hclosed (h.near [] start rfl (Nat.zero_le d))
    | cons x queue =>
      obtain ⟨herror, hok⟩ := h.step
      rw [search] at hr
      split at hr
      · rename_i p hp
        cases hr
        exact ⟨fun p' hp' => Option.some.inj hp' ▸ herror p hp, fun hnone => (by cases hnone)⟩
      · rename_i queue' seen' hnext
        obtain ⟨d', hd'⟩ := hok queue' seen' hnext
        exact ih hd' hr

variable {nodes : List α}

/-- How many of the nodes are not seen yet. -/
def unseenCount (nodes seen : List α) : ℕ := (nodes.filter fun b => b ∉ seen).length

theorem unseenCount_cons_lt {b : α} (hb : b ∈ nodes) (hnew : b ∉ seen) :
    unseenCount nodes (b :: seen) < unseenCount nodes seen := by
  unfold unseenCount
  induction nodes with
  | nil => exact absurd hb List.not_mem_nil
  | cons c nodes ih =>
    have hmono : (nodes.filter fun c => c ∉ b :: seen).length ≤ (nodes.filter fun c => c ∉ seen).length :=
      (List.monotone_filter_right nodes (by
        intro c hc
        simp only [decide_eq_true_eq, List.mem_cons, not_or] at hc ⊢
        exact hc.2)).length_le
    by_cases hc : c = b
    · subst hc
      rw [List.filter_cons_of_neg (by simp), List.filter_cons_of_pos (by simpa using hnew), List.length_cons]
      omega
    · have hlt := ih ((List.mem_cons.1 hb).resolve_left fun h => hc h.symm)
      by_cases hseen : c ∈ seen
      · rw [List.filter_cons_of_neg (by simp [hseen]), List.filter_cons_of_neg (by simpa using hseen)]
        exact hlt
      · rw [List.filter_cons_of_pos (by simpa [hc] using hseen), List.filter_cons_of_pos (by simpa using hseen),
          List.length_cons, List.length_cons]
        omega

/-- What is pushed was not seen before, so a round makes the measure no greater. -/
theorem scan_measure (hes : ∀ e ∈ es, dst e ∈ nodes) (h : scan dst target path es queue seen = .ok (queue', seen')) :
    queue'.length + unseenCount nodes seen' ≤ queue.length + unseenCount nodes seen := by
  induction es generalizing queue seen with
  | nil =>
    cases h
    exact Nat.le_refl _
  | cons e es ih =>
    have hes' : ∀ f ∈ es, dst f ∈ nodes := fun f hf => hes f (List.mem_cons_of_mem _ hf)
    unfold scan at h
    split at h
    · exact ih hes' h
    · rename_i hnew
      split at h
      · cases h
      · have hle := ih hes' h
        have hlt := unseenCount_cons_lt (hes e List.mem_cons_self) hnew
        rw [List.length_append, List.length_singleton] at hle
        omega

/-- **The search ends.** -/
theorem search_isSome (hnodes : ∀ a, ∀ e ∈ out a, dst e ∈ nodes) {fuel : ℕ}
    (hfuel : queue.length + unseenCount nodes seen < fuel) : (search out dst target fuel queue seen).isSome := by
  induction fuel generalizing queue seen with
  | zero => omega
  | succ fuel ih =>
    cases queue with
    | nil => rfl
    | cons x queue =>
      rw [search]
      split
      · rfl
      · rename_i queue' seen' hnext
        have hle := scan_measure (hnodes x.1) hnext
        rw [List.length_cons] at hfuel
        exact ih (by omega)

end Search

/-! ## All that can be reached -/

/-- What holds between two rounds of `spread`. -/
structure Spreading (out : α → List ε) (dst : ε → α) (starts wait seen : List α) : Prop where
  starts_seen : starts ⊆ seen
  wait_seen : wait ⊆ seen
  reached : ∀ b ∈ seen, ∃ s ∈ starts, ∃ q, Walk out dst s q b
  closed : ∀ b ∈ seen, b ∈ wait ∨ ∀ e ∈ out b, dst e ∈ seen

theorem spreading_start (starts : List α) : Spreading out dst starts starts starts where
  starts_seen := List.Subset.refl _
  wait_seen := List.Subset.refl _
  reached b hb := ⟨b, hb, [], rfl⟩
  closed _ hb := .inl hb

section Spread

variable [DecidableEq α]

/-- A node is put in the queue when it is new. -/
def look (state : List α × List α) (b : α) : List α × List α :=
  if b ∈ state.2 then state else (state.1 ++ [b], b :: state.2)

/-- The loop over the queue; nothing when the fuel runs out. -/
def spread (out : α → List ε) (dst : ε → α) : ℕ → List α → List α → Option (List α)
  | 0, _, _ => none
  | _ + 1, [], seen => some seen
  | fuel + 1, a :: queue, seen =>
    let state := ((out a).map dst).foldl look (queue, seen)
    spread out dst fuel state.1 state.2

variable {nodes bs : List α}

theorem mem_look_seen (bs : List α) (state : List α × List α) (b : α) :
    b ∈ (bs.foldl look state).2 ↔ b ∈ state.2 ∨ b ∈ bs := by
  induction bs generalizing state with
  | nil => simp
  | cons c bs ih =>
    rw [List.foldl_cons, ih, List.mem_cons]
    by_cases hc : c ∈ state.2
    · have hlook : look state c = state := if_pos hc
      rw [hlook]
      constructor
      · rintro (h | h)
        · exact .inl h
        · exact .inr (.inr h)
      · rintro (h | rfl | h)
        · exact .inl h
        · exact .inl hc
        · exact .inr h
    · have hlook : look state c = (state.1 ++ [c], c :: state.2) := if_neg hc
      rw [hlook, List.mem_cons]
      constructor
      · rintro ((rfl | h) | h)
        · exact .inr (.inl rfl)
        · exact .inl h
        · exact .inr (.inr h)
      · rintro (h | rfl | h)
        · exact .inl (.inr h)
        · exact .inl (.inl rfl)
        · exact .inr h

/-- What is seen after a loop and was not before is in the queue, and nothing leaves the queue. -/
theorem mem_look_queue (bs : List α) (state : List α × List α) :
    (∀ b ∈ state.1, b ∈ (bs.foldl look state).1) ∧
      ∀ b ∈ (bs.foldl look state).2, b ∈ state.2 ∨ b ∈ (bs.foldl look state).1 := by
  induction bs generalizing state with
  | nil => exact ⟨fun b hb => hb, fun b hb => .inl hb⟩
  | cons c bs ih =>
    rw [List.foldl_cons]
    obtain ⟨hkeep, hnew⟩ := ih (look state c)
    by_cases hc : c ∈ state.2
    · have hlook : look state c = state := if_pos hc
      rw [hlook] at hkeep hnew ⊢
      exact ⟨hkeep, hnew⟩
    · have hlook : look state c = (state.1 ++ [c], c :: state.2) := if_neg hc
      rw [hlook] at hkeep hnew ⊢
      refine ⟨fun b hb => hkeep b (List.mem_append_left _ hb), fun b hb => ?_⟩
      rcases hnew b hb with hmem | hmem
      · rcases List.mem_cons.1 hmem with rfl | hmem
        · exact .inr (hkeep b (List.mem_append_right _ (List.mem_singleton.2 rfl)))
        · exact .inl hmem
      · exact .inr hmem

theorem mem_of_look_queue (bs : List α) (state : List α × List α) :
    ∀ b ∈ (bs.foldl look state).1, b ∈ state.1 ∨ b ∈ bs := by
  induction bs generalizing state with
  | nil => exact fun b hb => .inl hb
  | cons c bs ih =>
    intro b hb
    rcases ih (look state c) b hb with hmem | hmem
    · unfold look at hmem
      split at hmem
      · exact .inl hmem
      · rcases List.mem_append.1 hmem with hmem | hmem
        · exact .inl hmem
        · exact .inr (List.mem_singleton.1 hmem ▸ List.mem_cons_self)
    · exact .inr (List.mem_cons_of_mem _ hmem)

theorem look_measure (hbs : bs ⊆ nodes) (state : List α × List α) :
    (bs.foldl look state).1.length + unseenCount nodes (bs.foldl look state).2 ≤
      state.1.length + unseenCount nodes state.2 := by
  induction bs generalizing state with
  | nil => exact Nat.le_refl _
  | cons b bs ih =>
    obtain ⟨hb, hbs⟩ := List.cons_subset.1 hbs
    rw [List.foldl_cons]
    refine Nat.le_trans (ih hbs (look state b)) ?_
    unfold look
    split
    · exact Nat.le_refl _
    · rename_i hnew
      have hlt := unseenCount_cons_lt hb hnew
      simp only [List.length_append, List.length_singleton]
      omega

theorem spread_isSome (hnodes : ∀ a, ∀ e ∈ out a, dst e ∈ nodes) {fuel : ℕ}
    (hfuel : wait.length + unseenCount nodes seen < fuel) : (spread out dst fuel wait seen).isSome := by
  induction fuel generalizing wait seen with
  | zero => omega
  | succ fuel ih =>
    cases wait with
    | nil => rfl
    | cons a wait =>
      rw [spread]
      have hsub : (out a).map dst ⊆ nodes := by
        intro b hb
        obtain ⟨e, he, rfl⟩ := List.mem_map.1 hb
        exact hnodes a e he
      have hle := look_measure hsub (wait, seen)
      rw [List.length_cons] at hfuel
      dsimp only at hle
      exact ih (by omega)

theorem Spreading.step {a : α} (h : Spreading out dst starts (a :: wait) seen) :
    Spreading out dst starts (((out a).map dst).foldl look (wait, seen)).1 (((out a).map dst).foldl look (wait, seen)).2 := by
  have hseen := mem_look_seen ((out a).map dst) (wait, seen)
  obtain ⟨hkeep, hnew⟩ := mem_look_queue ((out a).map dst) (wait, seen)
  have ha : a ∈ seen := h.wait_seen List.mem_cons_self
  refine ⟨fun b hb => (hseen b).2 (.inl (h.starts_seen hb)), ?_, fun b hb => ?_, fun b hb => ?_⟩
  · intro b hb
    rcases mem_of_look_queue _ _ b hb with hmem | hmem
    · exact (hseen b).2 (.inl (h.wait_seen (List.mem_cons_of_mem _ hmem)))
    · exact (hseen b).2 (.inr hmem)
  · rcases (hseen b).1 hb with hmem | hmem
    · exact h.reached b hmem
    · obtain ⟨e, he, rfl⟩ := List.mem_map.1 hmem
      obtain ⟨s, hs, q, hq⟩ := h.reached a ha
      exact ⟨s, hs, q ++ [e], hq.concat he⟩
  · rcases hnew b hb with hmem | hmem
    · rcases h.closed b hmem with hwait | hall
      · rcases List.mem_cons.1 hwait with rfl | hwait
        · exact .inr fun e he => (hseen _).2 (.inr (List.mem_map_of_mem he))
        · exact .inl (hkeep b hwait)
      · exact .inr fun e he => (hseen _).2 (.inl (hall e he))
    · exact .inl hmem

/-- **A run of `spread`** sees what can be reached from the starts. -/
theorem mem_spread {fuel : ℕ} {all : List α} (h : Spreading out dst starts wait seen)
    (hr : spread out dst fuel wait seen = some all) (b : α) : b ∈ all ↔ ∃ s ∈ starts, ∃ q, Walk out dst s q b := by
  induction fuel generalizing wait seen with
  | zero => cases hr
  | succ fuel ih =>
    cases wait with
    | nil =>
      cases hr
      refine ⟨h.reached b, fun ⟨s, hs, q, hq⟩ => hq.mem_of_closed (fun c hc => ?_) (h.starts_seen hs)⟩
      exact (h.closed c hc).resolve_left List.not_mem_nil
    | cons a wait => exact ih h.step hr

end Spread

end Stablemate.Bfs
