import Stablemate.Model.Reach

/-!
# Screen routes are shortest and complete

* `isRoute_of_route`: a route is a chain of the fewest edges; `route_none_iff_not_reachable`: there is none exactly
  when `reachable_from` does not see the target.
* `through_a_door_spec`: the door that is opened is one of the fewest clicks.
* `routes_complete`: what `reachability_in` makes of a surface.
-/

namespace Stablemate.Reach

variable {links : Text → List (Text × Text)} {edges es : List Edge} {start target a b : Text} {by_id : Option Nodes}
  {hops : List Hop} {starts : List Text}

/-- A chain of edges of the list from one screen to another. -/
def Chain (edges : List Edge) : Text → List Edge → Text → Prop
  | a, [], b => a = b
  | a, e :: es, b => e ∈ edges ∧ e.from_ = a ∧ Chain edges e.to_ es b

theorem mem_index {e : Edge} : e ∈ _index edges a ↔ e ∈ edges ∧ e.from_ = a := by
  unfold _index
  rw [List.mem_filter, decide_eq_true_eq]

theorem mem_outgoing {e : Edge} : e ∈ outgoing edges a ↔ e ∈ edges ∧ e.from_ = a := by
  unfold outgoing
  rw [List.mem_insertionSort, mem_index]

/-- The edges that a search goes along make up chains, in whichever order it takes them. -/
theorem walk_iff_chain {out : Text → List Edge} (hout : ∀ a e, e ∈ out a ↔ e ∈ edges ∧ e.from_ = a) :
    Bfs.Walk out Edge.to_ a es b ↔ Chain edges a es b := by
  induction es generalizing a with
  | nil => rfl
  | cons e es ih =>
    rw [Bfs.walk_cons, ih, hout]
    exact and_assoc

theorem walk_outgoing : Bfs.Walk (outgoing edges) Edge.to_ a es b ↔ Chain edges a es b :=
  walk_iff_chain fun _ _ => mem_outgoing

theorem walk_index : Bfs.Walk (_index edges) Edge.to_ a es b ↔ Chain edges a es b :=
  walk_iff_chain fun _ _ => mem_index

/-! ## The two searches -/

theorem unseenCount_le (nodes seen : List Text) : Bfs.unseenCount nodes seen ≤ nodes.length := List.length_filter_le _ _

/-- **The search for a route ends.** -/
theorem route_loop_isSome (edges : List Edge) (start target : Text) : (route.loop edges start target).isSome := by
  have hnodes : ∀ a, ∀ e ∈ outgoing edges a, e.to_ ∈ edges.map Edge.to_ := fun a e he =>
    List.mem_map_of_mem (mem_outgoing.1 he).1
  refine Bfs.search_isSome hnodes ?_
  have hle := unseenCount_le (edges.map Edge.to_) [start]
  rw [List.length_map] at hle
  rw [List.length_singleton]
  omega

theorem reachable_from_loop_isSome (edges : List Edge) (starts : List Text) : (reachable_from.loop edges starts).isSome := by
  have hnodes : ∀ a, ∀ e ∈ _index edges a, e.to_ ∈ edges.map Edge.to_ := fun a e he =>
    List.mem_map_of_mem (mem_index.1 he).1
  refine Bfs.spread_isSome hnodes ?_
  have hle := unseenCount_le (edges.map Edge.to_) starts
  rw [List.length_map] at hle
  omega

/-- **All that clicks lead to.** -/
theorem mem_reachable_from : b ∈ reachable_from edges starts ↔ ∃ s ∈ starts, ∃ es, Chain edges s es b := by
  obtain ⟨all, hall⟩ := Option.isSome_iff_exists.1 (reachable_from_loop_isSome edges starts)
  have hget : reachable_from edges starts = all := by
    unfold reachable_from
    rw [hall]
    rfl
  rw [hget, Bfs.mem_spread (Bfs.spreading_start starts) hall b]
  simp only [walk_index]

/-- A chain of the fewest edges, taken by these hops. -/
structure IsRoute (edges : List Edge) (start : Text) (hops : List Hop) (target : Text) : Prop where
  chain : Chain edges start (hops.map Hop.edge) target
  least : ∀ es, Chain edges start es target → hops.length ≤ es.length

theorem map_edge_of (es : List Edge) : (es.map (Hop.of links by_id)).map Hop.edge = es := by
  rw [List.map_map]
  exact List.map_id es

/-- What the loop comes out with. -/
theorem route_loop_run (hne : start ≠ target) :
    (∀ es, (route.loop edges start target).join = some es →
        Chain edges start es target ∧ ∀ es', Chain edges start es' target → es.length ≤ es'.length) ∧
      ((route.loop edges start target).join = none → ∀ es, ¬ Chain edges start es target) := by
  obtain ⟨r, hr⟩ := Option.isSome_iff_exists.1 (route_loop_isSome edges start target)
  obtain ⟨hsome, hnone⟩ := Bfs.search_run (Bfs.frontier_start hne) hr
  rw [hr, Option.join_some]
  refine ⟨fun es hes => ?_, fun hes es hchain => hnone hes es (walk_outgoing.2 hchain)⟩
  obtain ⟨hwalk, hleast⟩ := hsome es hes
  exact ⟨walk_outgoing.1 hwalk, fun es' hes' => hleast es' (walk_outgoing.2 hes')⟩

/-- **A route is a chain of the fewest edges.** -/
theorem isRoute_of_route (h : route links edges start target by_id = some hops) : IsRoute edges start hops target := by
  unfold route at h
  split at h
  · rename_i heq
    cases h
    exact ⟨heq, fun _ _ => Nat.zero_le _⟩
  · rename_i hne
    obtain ⟨es, hes, rfl⟩ := Option.map_eq_some_iff.1 h
    obtain ⟨hchain, hleast⟩ := (route_loop_run hne).1 es hes
    refine ⟨?_, fun es' hes' => ?_⟩
    · rw [map_edge_of]
      exact hchain
    · rw [List.length_map]
      exact hleast es' hes'

/-- **There is no route exactly when no chain leads to the target.** -/
theorem route_eq_none_iff : route links edges start target by_id = none ↔ ∀ es, ¬ Chain edges start es target := by
  constructor
  · intro h
    unfold route at h
    split at h
    · cases h
    · rename_i hne
      exact (route_loop_run hne).2 (Option.map_eq_none_iff.1 h)
  · intro h
    by_contra hne
    obtain ⟨hops, hhops⟩ := Option.ne_none_iff_exists'.1 hne
    exact h _ (isRoute_of_route hhops).chain

theorem route_none_iff_not_reachable :
    route links edges start target by_id = none ↔ target ∉ reachable_from edges [start] := by
  rw [route_eq_none_iff, mem_reachable_from]
  simp

/-! ## Doors -/

section Doors

variable {doors : List (Text × Text)} {nodes : Nodes} {path : Text}

theorem through_a_door_eq_none_iff :
    _through_a_door links edges doors target nodes = none ↔
      ∀ door ∈ doors.map Prod.fst, ∀ es, ¬ Chain edges door es target := by
  unfold _through_a_door
  rw [Option.map_eq_none_iff, List.argmin_eq_none, List.filterMap_eq_nil_iff]
  simp only [Option.map_eq_none_iff, route_eq_none_iff, List.forall_mem_map]

/-- **The door that is opened**: its route leads to the target, and no other door has a shorter one. -/
theorem through_a_door_spec (h : _through_a_door links edges doors target nodes = some (path, hops)) :
    ∃ door, (door, path) ∈ doors ∧ IsRoute edges door hops target ∧
      ∀ door' ∈ doors.map Prod.fst, ∀ es, Chain edges door' es target → hops.length ≤ es.length := by
  unfold _through_a_door at h
  obtain ⟨entry, hentry, heq⟩ := Option.map_eq_some_iff.1 h
  obtain ⟨rfl, rfl⟩ := Prod.mk.inj heq
  obtain ⟨item, hitem, hroute⟩ := List.mem_filterMap.1 (List.argmin_mem hentry)
  obtain ⟨hops, hhops, rfl⟩ := Option.map_eq_some_iff.1 hroute
  refine ⟨item.1, hitem, isRoute_of_route hhops, fun door' hdoor' es hes => ?_⟩
  obtain ⟨item', hitem', rfl⟩ := List.mem_map.1 hdoor'
  -- the door has a route of its own, which was compared
  have hsome : route links edges item'.1 target (some nodes) ≠ none := fun hnone => route_eq_none_iff.1 hnone es hes
  obtain ⟨hops', hhops'⟩ := Option.ne_none_iff_exists'.1 hsome
  have hmem : Found.mk item'.1 item'.2 hops' ∈ doors.filterMap fun item =>
      (route links edges item.1 target (some nodes)).map fun hops => Found.mk item.1 item.2 hops :=
    List.mem_filterMap.2 ⟨item', hitem', by rw [hhops']; rfl⟩
  have hle := List.le_of_mem_argmin hmem hentry
  have hfew : hops.length ≤ hops'.length := by
    rcases Prod.Lex.le_iff.1 hle with hlt | ⟨heq, -⟩
    · exact Nat.le_of_lt hlt
    · exact Nat.le_of_eq heq
  exact Nat.le_trans hfew ((isRoute_of_route hhops').least es hes)

end Doors

/-! ## The screens of a surface -/

section Surface

variable {doors : List (Text × Text)} {nodes : Nodes} {r : Routing} {screen : Text} {done rest : List Text}

/-- Whether a screen is declared makes no difference to where it is put. -/
theorem declare_eq (links : Text → List (Text × Text)) (nodes : Nodes) (r : Routing) (screen : Text) :
    let r' := reachability_in.declare links nodes r screen
    r'.routed = r.routed ∧ r'.opens = r.opens ∧ r'.unreachable = r.unreachable := by
  unfold reachability_in.declare
  split
  · exact ⟨rfl, rfl, rfl⟩
  · exact ⟨rfl, rfl, rfl⟩

/-- What one round does: the screen has a route, or no door leads to it, or the best door does. -/
theorem place_cases (links : Text → List (Text × Text)) (nodes : Nodes) (edges : List Edge) (start : Text)
    (doors : List (Text × Text)) (r : Routing) (screen : Text) :
    let r' := reachability_in.place links nodes edges start doors r screen
    (∃ hops, route links edges start screen (some nodes) = some hops ∧ r'.routed = Dict.set r.routed screen hops ∧
        r'.opens = r.opens ∧ r'.unreachable = r.unreachable) ∨
      route links edges start screen (some nodes) = none ∧ _through_a_door links edges doors screen nodes = none ∧
        r'.routed = r.routed ∧ r'.opens = r.opens ∧ r'.unreachable = r.unreachable ++ [screen] ∨
      ∃ path hops, route links edges start screen (some nodes) = none ∧
        _through_a_door links edges doors screen nodes = some (path, hops) ∧ r'.routed = Dict.set r.routed screen hops ∧
        r'.opens = Dict.set r.opens screen path ∧ r'.unreachable = r.unreachable := by
  obtain ⟨hrouted, hopens, hunreachable⟩ := declare_eq links nodes r screen
  rw [← hrouted, ← hopens, ← hunreachable]
  unfold reachability_in.place
  dsimp only
  split
  · rename_i hops hroute
    exact .inl ⟨hops, hroute, rfl, rfl, rfl⟩
  · rename_i hroute
    split
    · rename_i hdoor
      exact .inr (.inl ⟨hroute, hdoor, rfl, rfl, rfl⟩)
    · rename_i path hops hdoor
      exact .inr (.inr ⟨path, hops, hroute, hdoor, rfl, rfl, rfl⟩)

/-- What holds when the screens `done` are placed. -/
structure Placed (links : Text → List (Text × Text)) (nodes : Nodes) (edges : List Edge) (start : Text)
    (doors : List (Text × Text)) (done : List Text) (r : Routing) : Prop where
  once : (r.routed.map Prod.fst ++ r.unreachable).Perm done
  stuck : ∀ s ∈ r.unreachable, route links edges start s (some nodes) = none ∧ _through_a_door links edges doors s nodes = none
  routed : ∀ item ∈ r.routed, route links edges start item.1 (some nodes) = some item.2 ∨
    ∃ path, _through_a_door links edges doors item.1 nodes = some (path, item.2)
  opened : ∀ item ∈ r.opens, route links edges start item.1 (some nodes) = none ∧
    ∃ hops, _through_a_door links edges doors item.1 nodes = some (item.2, hops) ∧ (item.1, hops) ∈ r.routed

theorem Placed.step (h : Placed links nodes edges start doors done r) (hnew : screen ∉ done) :
    Placed links nodes edges start doors (done ++ [screen]) (reachability_in.place links nodes edges start doors r screen) := by
  have hkeys : screen ∉ r.routed.map Prod.fst := fun hmem => hnew (h.once.mem_iff.1 (List.mem_append_left _ hmem))
  have hopen : screen ∉ r.opens.map Prod.fst := by
    intro hmem
    obtain ⟨item, hitem, rfl⟩ := List.mem_map.1 hmem
    obtain ⟨-, hops, -, hrouted⟩ := h.opened item hitem
    exact hkeys (List.mem_map_of_mem hrouted)
  have hput : ∀ hops, (((Dict.set r.routed screen hops).map Prod.fst) ++ r.unreachable).Perm (done ++ [screen]) := by
    intro hops
    rw [Dict.set_of_not_mem hkeys, List.map_append, List.append_assoc]
    refine (List.Perm.append_left _ List.perm_append_comm).trans ?_
    rw [← List.append_assoc]
    exact h.once.append_right _
  rcases place_cases links nodes edges start doors r screen with
    ⟨hops, hroute, hrouted, hopens, hunreachable⟩ | ⟨hroute, hdoor, hrouted, hopens, hunreachable⟩ |
    ⟨path, hops, hroute, hdoor, hrouted, hopens, hunreachable⟩
  · refine ⟨?_, ?_, ?_, ?_⟩
    · rw [hrouted, hunreachable]
      exact hput hops
    · rw [hunreachable]
      exact h.stuck
    · rw [hrouted, Dict.set_of_not_mem hkeys]
      intro item hitem
      rcases List.mem_append.1 hitem with hitem | hitem
      · exact h.routed item hitem
      · obtain rfl := List.mem_singleton.1 hitem
        exact .inl hroute
    · rw [hopens, hrouted, Dict.set_of_not_mem hkeys]
      intro item hitem
      obtain ⟨hnone, hops', hdoor, hmem⟩ := h.opened item hitem
      exact ⟨hnone, hops', hdoor, List.mem_append_left _ hmem⟩
  · refine ⟨?_, ?_, ?_, ?_⟩
    · rw [hrouted, hunreachable, ← List.append_assoc]
      exact h.once.append_right _
    · rw [hunreachable]
      intro s hs
      rcases List.mem_append.1 hs with hs | hs
      · exact h.stuck s hs
      · obtain rfl := List.mem_singleton.1 hs
        exact ⟨hroute, hdoor⟩
    · rw [hrouted]
      exact h.routed
    · rw [hopens, hrouted]
      exact h.opened
  · refine ⟨?_, ?_, ?_, ?_⟩
    · rw [hrouted, hunreachable]
      exact hput hops
    · rw [hunreachable]
      exact h.stuck
    · rw [hrouted, Dict.set_of_not_mem hkeys]
      intro item hitem
      rcases List.mem_append.1 hitem with hitem | hitem
      · exact h.routed item hitem
      · obtain rfl := List.mem_singleton.1 hitem
        exact .inr ⟨path, hdoor⟩
    · rw [hopens, hrouted, Dict.set_of_not_mem hkeys, Dict.set_of_not_mem hopen]
      intro item hitem
      rcases List.mem_append.1 hitem with hitem | hitem
      · obtain ⟨hnone, hops', hdoor', hmem⟩ := h.opened item hitem
        exact ⟨hnone, hops', hdoor', List.mem_append_left _ hmem⟩
      · obtain rfl := List.mem_singleton.1 hitem
        exact ⟨hroute, hops, hdoor, List.mem_append_right _ (List.mem_singleton.2 rfl)⟩

/-- **A run of the loop over screens.** -/
theorem Placed.run (h : Placed links nodes edges start doors done r) (hids : (done ++ rest).Nodup) :
    Placed links nodes edges start doors (done ++ rest) (rest.foldl (reachability_in.place links nodes edges start doors) r) := by
  induction rest generalizing done r with
  | nil =>
    rw [List.append_nil]
    exact h
  | cons screen rest ih =>
    have hnew : screen ∉ done := fun hmem => (List.disjoint_of_nodup_append hids) hmem List.mem_cons_self
    have hassoc : done ++ screen :: rest = (done ++ [screen]) ++ rest := (List.append_cons done screen rest)
    rw [List.foldl_cons, hassoc]
    exact ih (h.step hnew) (hassoc ▸ hids)

theorem placed_nil : Placed links nodes edges start doors [] {} where
  once := List.Perm.refl _
  stuck _ hs := absurd hs List.not_mem_nil
  routed _ hitem := absurd hitem List.not_mem_nil
  opened _ hitem := absurd hitem List.not_mem_nil

/-- A screen has no route from the start and through no door exactly when the search from all of them does not see it. -/
theorem stuck_iff :
    (route links edges start screen by_id = none ∧ _through_a_door links edges doors screen nodes = none) ↔
      screen ∉ reachable_from edges (start :: doors.map Prod.fst) := by
  rw [route_eq_none_iff, through_a_door_eq_none_iff, mem_reachable_from]
  simp only [List.exists_mem_cons_iff, not_or, not_exists, not_and]

end Surface

/-- What a report says of the screens of a surface. -/
structure Complete (nodes : List Node) (driver : Option Text) (start : Text) (report : Reachability) : Prop where
  started : report.start = start
  doors : report.doors = doorsOf nodes driver
  once : (report.routes.map Prod.fst ++ report.unreachable).Perm (screens_of nodes)
  unreachable : ∀ screen ∈ screens_of nodes, screen ∈ report.unreachable ↔
    screen ∉ reachable_from (navigation_edges nodes) (start :: report.doors.map Prod.fst)
  opened : ∀ item ∈ report.opens, ∃ door hops, (door, item.2) ∈ report.doors ∧ (item.1, hops) ∈ report.routes ∧
    Chain (navigation_edges nodes) door (hops.map Hop.edge) item.1 ∧
    ∀ origin ∈ start :: report.doors.map Prod.fst, ∀ es, Chain (navigation_edges nodes) origin es item.1 →
      hops.length ≤ es.length

variable {nodes : List Node} {surface given driver : Option Text} {root : Root}

theorem Placed.complete {r : Routing} {report : Reachability}
    (h : Placed links (byId nodes) (navigation_edges nodes) start (doorsOf nodes driver) (screens_of nodes) r)
    (hstart : report.start = start) (hdoors : report.doors = doorsOf nodes driver) (hroutes : report.routes = r.routed)
    (hopens : report.opens = r.opens) (hunreachable : report.unreachable = r.unreachable.insertionSort (· ≤ ·)) :
    Complete nodes driver start report := by
  refine ⟨hstart, hdoors, ?_, fun screen hscreen => ?_, fun item hitem => ?_⟩
  · rw [hroutes, hunreachable]
    exact ((List.perm_insertionSort _ _).append_left _).trans h.once
  · have hiff : (route links (navigation_edges nodes) start screen (some (byId nodes)) = none ∧
        _through_a_door links (navigation_edges nodes) (doorsOf nodes driver) screen (byId nodes) = none) ↔
          screen ∉ reachable_from (navigation_edges nodes) (start :: (doorsOf nodes driver).map Prod.fst) := stuck_iff
    rw [hdoors, hunreachable, List.mem_insertionSort, ← hiff]
    refine ⟨h.stuck screen, fun ⟨hroute, hdoor⟩ => ?_⟩
    -- a screen that is routed has a route or a door
    refine (List.mem_append.1 (h.once.mem_iff.2 hscreen)).resolve_left fun hmem => ?_
    obtain ⟨item, hitem, rfl⟩ := List.mem_map.1 hmem
    rcases h.routed item hitem with hsome | ⟨path, hsome⟩
    · rw [hroute] at hsome
      cases hsome
    · rw [hdoor] at hsome
      cases hsome
  · rw [hopens] at hitem
    rw [hdoors, hroutes]
    obtain ⟨hnone, hops, hdoor, hrouted⟩ := h.opened item hitem
    obtain ⟨door, hmem, hroute, hleast⟩ := through_a_door_spec hdoor
    refine ⟨door, hops, hmem, hrouted, hroute.chain, fun origin horigin es hes => ?_⟩
    rcases List.mem_cons.1 horigin with rfl | horigin
    · exact absurd hes (route_eq_none_iff.1 hnone es)
    · exact hleast origin horigin es hes

/-- **The screens of a surface** are each routed or not, by what can be reached from the start and the doors. -/
theorem complete_of_start (hids : (screens_of nodes).Nodup) (hstart : resolve_start nodes given driver root = .ok start) :
    ∃ report, reachability_in links nodes surface given driver root = .ok report ∧ Complete nodes driver start report := by
  unfold reachability_in
  rw [hstart]
  have hplaced : Placed links (byId nodes) (navigation_edges nodes) start (doorsOf nodes driver) (screens_of nodes)
      ((screens_of nodes).foldl
        (reachability_in.place links (byId nodes) (navigation_edges nodes) start (doorsOf nodes driver)) {}) :=
    placed_nil.run hids
  exact ⟨_, rfl, hplaced.complete rfl rfl rfl rfl rfl⟩

/-- **Screen routes are shortest and complete.** -/
theorem routes_complete (links : Text → List (Text × Text)) :
    (∀ (edges : List Edge) (start target : Text) (by_id : Option Nodes),
      (route.loop edges start target).isSome ∧ (∀ starts, (reachable_from.loop edges starts).isSome) ∧
        (∀ hops, route links edges start target by_id = some hops →
          Chain edges start (hops.map Hop.edge) target ∧ ∀ es, Chain edges start es target → hops.length ≤ es.length) ∧
        (route links edges start target by_id = none ↔ target ∉ reachable_from edges [start])) ∧
      ∀ (nodes : List Node) (surface given driver : Option Text) (root : Root) (start : Text),
        (screens_of nodes).Nodup → resolve_start nodes given driver root = .ok start →
          ∃ report, reachability_in links nodes surface given driver root = .ok report ∧ Complete nodes driver start report := by
  refine ⟨fun edges start target by_id => ?_, fun nodes surface given driver root start => complete_of_start⟩
  refine ⟨route_loop_isSome edges start target, reachable_from_loop_isSome edges, fun hops hhops => ?_,
    route_none_iff_not_reachable⟩
  have hroute := isRoute_of_route hhops
  exact ⟨hroute.chain, hroute.least⟩

/-- A screen with no bullets, or with an address to open it at. -/
def sampleScreen (id : Text) (bullets : List (Text × Value)) (edges : List NodeEdge) : Node :=
  { id := id, type := "screen".toList, kind := "file".toList, title := [], parent := [], bullets := bullets, edges := edges }

/-- A home screen, a screen with a door that leads to a third one, and one that nothing leads to. -/
def sampleNodes : List Node :=
  [sampleScreen "home.md".toList [] [],
    sampleScreen "list.md".toList [("entry".toList, .one "/list".toList)] [⟨"leads-to".toList, "item.md".toList, []⟩],
    sampleScreen "item.md".toList [] [], sampleScreen "lost.md".toList [] []]

theorem routes_complete_sample : ∃ report,
    reachability_in (fun _ => []) sampleNodes none (some "home.md".toList) none ⟨none, [], none, none⟩ = .ok report ∧
      Complete sampleNodes none "home.md".toList report :=
  (routes_complete fun _ => []).2 sampleNodes none (some "home.md".toList) none ⟨none, [], none, none⟩ "home.md".toList
    (by decide) rfl

end Stablemate.Reach
