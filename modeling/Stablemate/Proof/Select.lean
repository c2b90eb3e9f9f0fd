import Stablemate.Model.Select

/-!
# Story selection is sound and makes progress

* `dag_order_spec`, `dag_order_topo`: each slug of an epic is listed once, and where there is no
  cycle each story stands after the ones it depends on.
* `epic_cycle_spec`: `epic_cycle` finds a cycle exactly when there is one.
* `selection_sound`: and with unique slugs, no cycle and no foreign dependency, **a next story is
  given unless all are done or every unfinished one is skipped or waits for a skipped one**.
-/

namespace Stablemate.Select

open Dfs (Closed Edge Topo Cycle Acyclic)
open Relation (TransGen ReflTransGen)

variable {epic : Epic} {a b slug : Text} {s : Story} {skip : List Text}

/-! ## The stories by their slugs -/

theorem mem_slugs : slug ∈ epic.slugs ↔ slug ≠ [] ∧ ∃ s ∈ epic.stories, s.slug = slug := by
  unfold Epic.slugs
  rw [List.mem_eraseDups, List.mem_filter, decide_eq_true_eq, List.mem_map, and_comm]

theorem by_slug_spec (h : epic.by_slug slug = some s) : s ∈ epic.stories ∧ s.slug = slug ∧ slug ≠ [] := by
  unfold Epic.by_slug at h
  have hfound := List.find?_some (p := fun s : Story => decide (s.slug ≠ []) && decide (s.slug = slug)) h
  rw [Bool.and_eq_true, decide_eq_true_eq, decide_eq_true_eq] at hfound
  obtain ⟨hne, rfl⟩ := hfound
  exact ⟨List.mem_reverse.1 (List.mem_of_find?_eq_some h), rfl, hne⟩

theorem by_slug_isSome : (epic.by_slug slug).isSome ↔ slug ∈ epic.slugs := by
  unfold Epic.by_slug
  rw [mem_slugs, List.find?_isSome]
  constructor
  · rintro ⟨s, hs, hp⟩
    rw [Bool.and_eq_true, decide_eq_true_eq, decide_eq_true_eq] at hp
    obtain ⟨hne, rfl⟩ := hp
    exact ⟨hne, s, List.mem_reverse.1 hs, rfl⟩
  · rintro ⟨hne, s, hs, rfl⟩
    exact ⟨s, List.mem_reverse.2 hs, by simp [hne]⟩

/-- **The dependency graph of an epic.** The last story of a slug stands for it, and its
dependencies count when they are slugs of the epic. -/
def Depends (epic : Epic) (a b : Text) : Prop :=
  ∃ xs s ys, epic.stories = xs ++ s :: ys ∧ s.slug = a ∧ a ∉ ys.map Story.slug ∧ a ≠ [] ∧
    b ∈ s.dependencies ∧ b ∈ epic.slugs

/-- The story that stands for a slug is the last one with it. -/
theorem by_slug_eq_some_iff : epic.by_slug slug = some s ↔
    slug ≠ [] ∧ ∃ xs ys, epic.stories = xs ++ s :: ys ∧ s.slug = slug ∧ slug ∉ ys.map Story.slug := by
  unfold Epic.by_slug
  rw [List.find?_eq_some_iff_append]
  constructor
  · rintro ⟨hp, as, bs, heq, has⟩
    rw [Bool.and_eq_true, decide_eq_true_eq, decide_eq_true_eq] at hp
    obtain ⟨hne, rfl⟩ := hp
    refine ⟨hne, bs.reverse, as.reverse, ?_, rfl, ?_⟩
    · rw [List.reverse_eq_iff] at heq
      rw [heq]
      simp
    · rw [List.mem_map]
      rintro ⟨t, ht, hts⟩
      have hno := has t (List.mem_reverse.1 ht)
      simp [hts, hne] at hno
  · rintro ⟨hne, xs, ys, heq, rfl, hys⟩
    refine ⟨by simp [hne], ys.reverse, xs.reverse, by rw [heq]; simp, fun t ht => ?_⟩
    have hts : t.slug ≠ s.slug := fun h => hys (List.mem_map.2 ⟨t, List.mem_reverse.1 ht, h⟩)
    simp [hts]

theorem mem_deps : b ∈ epic.deps a ↔ ∃ s, epic.by_slug a = some s ∧ b ∈ s.dependencies ∧ b ∈ epic.slugs := by
  unfold Epic.deps
  cases h : epic.by_slug a with
  | none => simp
  | some s => simp [List.mem_filter, by_slug_isSome]

theorem edge_iff : Edge epic.deps a b ↔ Depends epic a b := by
  unfold Edge Depends
  rw [mem_deps]
  constructor
  · rintro ⟨s, hs, hb⟩
    obtain ⟨hne, xs, ys, heq, hslug, hys⟩ := by_slug_eq_some_iff.1 hs
    exact ⟨xs, s, ys, heq, hslug, hys, hne, hb⟩
  · rintro ⟨xs, s, ys, heq, hslug, hys, hne, hb⟩
    exact ⟨s, by_slug_eq_some_iff.2 ⟨hne, xs, ys, heq, hslug, hys⟩, hb⟩

theorem edge_eq : Edge epic.deps = Depends epic := funext fun _ => funext fun _ => propext edge_iff

theorem deps_closed (epic : Epic) : Closed epic.deps epic.slugs := by
  refine ⟨fun a _ b hb => ?_⟩
  obtain ⟨-, -, -, hb⟩ := mem_deps.1 hb
  exact hb

theorem mem_slugs_of_edge (h : Edge epic.deps a b) : a ∈ epic.slugs := by
  obtain ⟨s, hs, -⟩ := mem_deps.1 h
  exact by_slug_isSome.1 (hs ▸ rfl)

/-! ## The order -/

/-- Where `dag_order` begins. -/
theorem mem_starts : slug ∈ (epic.stories.map Story.slug).filter (· ≠ []) ↔ slug ∈ epic.slugs := by
  unfold Epic.slugs
  rw [List.mem_eraseDups]

/-- The stories that stand for slugs have these slugs. -/
theorem map_slug_filterMap {l : List Text} (h : ∀ slug ∈ l, slug ∈ epic.slugs) :
    (l.filterMap epic.by_slug).map Story.slug = l := by
  induction l with
  | nil => rfl
  | cons slug l ih =>
    obtain ⟨s, hs⟩ := Option.isSome_iff_exists.1 (by_slug_isSome.2 (h slug List.mem_cons_self))
    rw [List.filterMap_cons_some hs, List.map_cons, (by_slug_spec hs).2.1,
      ih fun t ht => h t (List.mem_cons_of_mem _ ht)]

/-- The search behind `dag_order` comes out with each slug once. -/
theorem order_spec (epic : Epic) : ∃ done,
    Dfs.visitAll epic.deps (fun _ _ => none) epic.depth ((epic.stories.map Story.slug).filter (· ≠ [])) =
      some (.ok done) ∧
    dag_order epic = some (done.filterMap epic.by_slug) ∧ done.Nodup ∧ ∀ slug, slug ∈ done ↔ slug ∈ epic.slugs := by
  have hsome := Dfs.visitAll_isSome (fun _ _ => none) (deps_closed epic)
    (fun slug hslug => mem_starts.1 hslug) (Nat.lt_succ_self epic.slugs.length)
  obtain ⟨out, hout⟩ := Option.isSome_iff_exists.1 hsome
  cases out with
  | error cycle =>
    obtain ⟨a, -, d, hd⟩ := Dfs.each_error hout
    exact absurd hd (Dfs.visit_ne_error (fun _ _ => rfl) _ _ _ _)
  | ok done =>
    obtain ⟨hnodup, hmem⟩ := Dfs.visitAll_covers (deps_closed epic) (fun _ => mem_starts) hout
    refine ⟨done, hout, ?_, hnodup, hmem⟩
    unfold dag_order Epic.depth
    rw [hout]

/-- **Each slug is listed once**, by the story that stands for it. -/
theorem dag_order_spec (epic : Epic) : ∃ order, dag_order epic = some order ∧ (order.map Story.slug).Nodup ∧
    (∀ slug, slug ∈ order.map Story.slug ↔ slug ≠ [] ∧ ∃ s ∈ epic.stories, s.slug = slug) ∧
    ∀ s ∈ order, epic.by_slug s.slug = some s := by
  obtain ⟨done, -, horder, hnodup, hmem⟩ := order_spec epic
  have hslugs := map_slug_filterMap fun slug h => (hmem slug).1 h
  refine ⟨_, horder, hslugs.symm ▸ hnodup, fun slug => ?_, fun s hs => ?_⟩
  · rw [hslugs, hmem, mem_slugs]
  · obtain ⟨slug, -, hslug⟩ := List.mem_filterMap.1 hs
    rw [(by_slug_spec hslug).2.1, hslug]

/-- What `epic_cycle` says of the graph. -/
theorem epic_cycle_spec (epic : Epic) : ∃ cycle, epic_cycle epic = some cycle ∧
    (cycle = [] ↔ Acyclic epic.deps) ∧ (cycle ≠ [] → Cycle epic.deps cycle) := by
  have hsome := Dfs.visitAll_isSome Dfs.cycleOf (deps_closed epic) (List.Subset.refl _)
    (Nat.lt_succ_self epic.slugs.length)
  have hiff := Dfs.visitAll_ok_iff_acyclic (deps_closed epic) (fun _ _ => mem_slugs_of_edge) (fun _ => Iff.rfl)
    (Nat.lt_succ_self epic.slugs.length)
  obtain ⟨out, hout⟩ := Option.isSome_iff_exists.1 hsome
  unfold epic_cycle Epic.depth
  cases out with
  | error cycle =>
    have hcycle := Dfs.cycle_of_error hout
    have hne : cycle ≠ [] := by
      obtain ⟨a, l, rfl⟩ := hcycle.closes
      exact List.cons_ne_nil _ _
    rw [hout]
    exact ⟨cycle, rfl, iff_of_false hne hcycle.not_acyclic, fun _ => hcycle⟩
  | ok done =>
    rw [hout]
    exact ⟨[], rfl, iff_of_true rfl (hiff.1 ⟨done, hout⟩), fun h => absurd rfl h⟩

/-- **Without a cycle a dependency stands before its dependent.** -/
theorem dag_order_topo {order : List Story} (h : Acyclic epic.deps) (horder : dag_order epic = some order)
    {xs ys : List Story} (heq : order = xs ++ s :: ys) {dep : Text} (hdep : dep ∈ s.dependencies)
    (hin : dep ∈ epic.slugs) : dep ∈ xs.map Story.slug := by
  obtain ⟨done, hout, horder', -, hmem⟩ := order_spec epic
  obtain rfl := Option.some.inj (horder.symm.trans horder')
  -- the search that stops at cycles does not stop, and so gives the same list
  obtain ⟨done', hdone'⟩ := (Dfs.visitAll_ok_iff_acyclic (deps_closed epic) (fun _ _ => mem_slugs_of_edge)
    (fun _ => mem_starts) (Nat.lt_succ_self epic.slugs.length)).2 h
  have hsame := Dfs.visitAll_of_ok Dfs.cycleOf_ne_none (fun _ _ => none) hdone'
  obtain rfl : done' = done := Except.ok.inj (Option.some.inj (hsame.symm.trans hout))
  have htopo := Dfs.visitAll_topo Dfs.cycleOf_ne_none hdone'
  have hslugs := map_slug_filterMap fun slug h => (hmem slug).1 h
  rw [heq, List.map_append, List.map_cons] at hslugs
  have hs : epic.by_slug s.slug = some s := by
    have hmem' : s ∈ done'.filterMap epic.by_slug := heq ▸ List.mem_append_right _ List.mem_cons_self
    obtain ⟨slug, -, hslug⟩ := List.mem_filterMap.1 hmem'
    rw [(by_slug_spec hslug).2.1, hslug]
  exact htopo _ _ _ hslugs.symm dep (mem_deps.2 ⟨s, hs, hdep, hin⟩)

/-! ## The report -/

theorem mem_doneSlugs : slug ∈ doneSlugs epic ↔ ∃ s ∈ epic.stories, is_done s.status = true ∧ s.slug = slug := by
  unfold doneSlugs
  rw [List.mem_eraseDups, List.mem_map]
  simp only [List.mem_filter, and_assoc]

theorem mem_unfinished : s ∈ unfinished epic ↔ s ∈ epic.stories ∧ s.slug ∉ doneSlugs epic := by
  unfold unfinished
  rw [List.mem_filter, Bool.not_eq_true', ← Bool.not_eq_true, List.contains_iff_mem]

/-- With unique slugs a story is done when its slug is. -/
theorem done_iff (hunique : (epic.stories.map Story.slug).Nodup) (hs : s ∈ epic.stories) :
    s.slug ∈ doneSlugs epic ↔ is_done s.status = true := by
  rw [mem_doneSlugs]
  constructor
  · rintro ⟨t, ht, hdone, heq⟩
    obtain rfl := List.inj_on_of_nodup_map hunique ht hs heq
    exact hdone
  · exact fun hdone => ⟨s, hs, hdone, rfl⟩

theorem runnable_iff : _runnable s (doneSlugs epic) skip = true ↔
    is_done s.status = false ∧ s.slug ∉ skip ∧ ∀ dep ∈ s.dependencies, dep ∈ doneSlugs epic := by
  unfold _runnable
  split
  · rename_i h
    rw [Bool.or_eq_true, List.contains_iff_mem] at h
    refine iff_of_false (fun hno => nomatch hno) ?_
    rintro ⟨hdone, hskip, -⟩
    rcases h with h | h
    · rw [hdone] at h
      cases h
    · exact hskip h
  · rename_i h
    rw [Bool.or_eq_true, not_or, List.contains_iff_mem, Bool.not_eq_true] at h
    rw [List.all_eq_true]
    simp only [List.contains_iff_mem]
    exact ⟨fun hall => ⟨h.1, h.2, hall⟩, fun hall => hall.2.2⟩

variable (skip) in
/-- The three ways a report on an epic with stories comes out. -/
theorem build_report_cases (hne : epic.stories ≠ []) :
    (∃ s ∈ epic.stories, _runnable s (doneSlugs epic) skip = true ∧ (build_report epic skip).state = .ready ∧
      (build_report epic skip).story = some (_story_dict epic s)) ∨
    ((∀ s ∈ epic.stories, _runnable s (doneSlugs epic) skip = false) ∧ unfinished epic = [] ∧
      (build_report epic skip).state = .done) ∨
    ((∀ s ∈ epic.stories, _runnable s (doneSlugs epic) skip = false) ∧ unfinished epic ≠ [] ∧
      (build_report epic skip).state = .blocked) := by
  unfold build_report
  dsimp only
  rw [if_neg hne]
  split
  · rename_i s hfind
    exact .inl ⟨s, List.mem_of_find?_eq_some hfind,
      List.find?_some (p := fun s => _runnable s (doneSlugs epic) skip) hfind, rfl, rfl⟩
  · rename_i hnone
    have hno : ∀ s ∈ epic.stories, _runnable s (doneSlugs epic) skip = false :=
      fun s hs => Bool.eq_false_iff.2 (List.find?_eq_none.1 hnone s hs)
    by_cases hrem : (unfinished epic).map Story.slug = []
    · rw [if_pos hrem]
      exact .inr (.inl ⟨hno, List.map_eq_nil_iff.1 hrem, rfl⟩)
    · rw [if_neg hrem]
      exact .inr (.inr ⟨hno, fun h => hrem (h ▸ rfl), rfl⟩)

/-- An epic whose stories have one slug each, whose dependencies all lie in it, and which has no cycle. -/
structure Sound (epic : Epic) : Prop where
  unique : (epic.stories.map Story.slug).Nodup
  inside : ∀ s ∈ epic.stories, ∀ dep ∈ s.dependencies, dep ∈ epic.slugs
  acyclic : ∀ a, ¬ TransGen (Depends epic) a a

/-- A story that is skipped, or that depends, directly or through others, on a skipped story that
is not done. -/
def Stuck (epic : Epic) (skip : List Text) (s : Story) : Prop :=
  s.slug ∈ skip ∨ ∃ dep ∈ s.dependencies, ∃ t ∈ epic.stories, is_done t.status = false ∧ t.slug ∈ skip ∧
    ReflTransGen (Depends epic) dep t.slug

theorem Sound.depends (h : Sound epic) (hs : s ∈ epic.stories) (hne : s.slug ≠ []) {dep : Text}
    (hdep : dep ∈ s.dependencies) : Depends epic s.slug dep := by
  obtain ⟨xs, ys, heq⟩ := List.append_of_mem hs
  refine ⟨xs, s, ys, heq, rfl, ?_, hne, hdep, h.inside s hs dep hdep⟩
  have hnodup := h.unique
  rw [heq, List.map_append, List.map_cons] at hnodup
  exact (List.nodup_cons.1 (List.nodup_append.1 hnodup).2.1).1

/-- A story that is not runnable for another reason waits for one that is not done. -/
theorem Sound.waits (h : Sound epic) (hno : _runnable s (doneSlugs epic) skip = false) (hs : s ∈ epic.stories)
    (hdone : is_done s.status = false) (hskip : s.slug ∉ skip) :
    ∃ t ∈ epic.stories, t.slug ∈ s.dependencies ∧ t.slug ≠ [] ∧ is_done t.status = false := by
  have hwait : ∃ dep ∈ s.dependencies, dep ∉ doneSlugs epic := by
    by_contra hall
    have hrun : _runnable s (doneSlugs epic) skip = true :=
      runnable_iff.2 ⟨hdone, hskip, fun dep hdep => by_contra fun hn => hall ⟨dep, hdep, hn⟩⟩
    rw [hno] at hrun
    cases hrun
  obtain ⟨dep, hdep, hopen⟩ := hwait
  obtain ⟨hne, t, ht, rfl⟩ := mem_slugs.1 (h.inside s hs dep hdep)
  exact ⟨t, ht, hdep, hne, Bool.eq_false_iff.2 fun hdone => hopen ((done_iff h.unique ht).2 hdone)⟩

/-- **No runnable story is overlooked.** The induction is on the rank that falls along dependencies:
an unfinished story waits for an unfinished one, unless it is skipped. -/
theorem Sound.stuck (h : Sound epic) (hno : ∀ s ∈ epic.stories, _runnable s (doneSlugs epic) skip = false) :
    ∀ s ∈ epic.stories, is_done s.status = false → Stuck epic skip s := by
  have hacyclic : Acyclic epic.deps := fun a ha => h.acyclic a (edge_eq ▸ ha)
  obtain ⟨rank, hrank⟩ := hacyclic.rank (deps_closed epic) fun _ _ => mem_slugs_of_edge
  -- one step from a story to one that is stuck already
  have step : ∀ s ∈ epic.stories, ∀ t ∈ epic.stories, is_done t.status = false → t.slug ∈ s.dependencies →
      t.slug ≠ [] → Stuck epic skip t → Stuck epic skip s := by
    intro s _ t ht htopen hdep hne hstuck
    rcases hstuck with hin | ⟨dep, hdep', u, hu, huopen, huskip, hlead⟩
    · exact .inr ⟨t.slug, hdep, t, ht, htopen, hin, .refl⟩
    · exact .inr ⟨t.slug, hdep, u, hu, huopen, huskip, hlead.head (h.depends ht hne hdep')⟩
  have named : ∀ n, ∀ s ∈ epic.stories, rank s.slug = n → is_done s.status = false → s.slug ≠ [] → Stuck epic skip s := by
    intro n
    induction n using Nat.strongRecOn with
    | ind n ih =>
      intro s hs hn hdone hne
      by_cases hskip : s.slug ∈ skip
      · exact .inl hskip
      obtain ⟨t, ht, hdep, htne, htopen⟩ := h.waits (hno s hs) hs hdone hskip
      have hlt : rank t.slug < n := hn ▸ hrank _ _ (edge_iff.2 (h.depends hs hne hdep))
      exact step s hs t ht htopen hdep htne (ih _ hlt t ht rfl htopen htne)
  intro s hs hdone
  by_cases hskip : s.slug ∈ skip
  · exact .inl hskip
  obtain ⟨t, ht, hdep, htne, htopen⟩ := h.waits (hno s hs) hs hdone hskip
  exact step s hs t ht htopen hdep htne (named _ t ht rfl htopen htne)

theorem unfinished_eq_nil_iff (hunique : (epic.stories.map Story.slug).Nodup) :
    unfinished epic = [] ↔ ∀ s ∈ epic.stories, is_done s.status = true := by
  rw [List.eq_nil_iff_forall_not_mem]
  constructor
  · intro h s hs
    by_contra hdone
    exact h s (mem_unfinished.2 ⟨hs, fun hin => hdone ((done_iff hunique hs).1 hin)⟩)
  · intro h s hs
    obtain ⟨hs, hin⟩ := mem_unfinished.1 hs
    exact hin ((done_iff hunique hs).2 (h s hs))

/-- What a build report says of a sound epic that has stories. -/
structure Progress (epic : Epic) (skip : List Text) (report : Report) : Prop where
  state : report.state = .ready ∨ report.state = .done ∨ report.state = .blocked
  ready : report.state = .ready → ∃ s ∈ epic.stories, report.story = some (_story_dict epic s) ∧
    is_done s.status = false ∧ s.slug ∉ skip ∧
    ∀ dep ∈ s.dependencies, ∃ t ∈ epic.stories, t.slug = dep ∧ is_done t.status = true
  done : report.state = .done ↔ ∀ s ∈ epic.stories, is_done s.status = true
  blocked : report.state = .blocked → ∀ s ∈ epic.stories, is_done s.status = false → Stuck epic skip s

theorem Sound.progress (h : Sound epic) (hne : epic.stories ≠ []) (skip : List Text) :
    Progress epic skip (build_report epic skip) := by
  have hall := unfinished_eq_nil_iff h.unique
  rcases build_report_cases skip hne with ⟨s, hs, hrun, hstate, hstory⟩ | ⟨-, hrem, hstate⟩ | ⟨hno, hrem, hstate⟩
  · obtain ⟨hopen, hskip, hdeps⟩ := runnable_iff.1 hrun
    refine ⟨.inl hstate, fun _ => ⟨s, hs, hstory, hopen, hskip, fun dep hdep => ?_⟩, ?_, fun hb => ?_⟩
    · obtain ⟨t, ht, hdone, heq⟩ := mem_doneSlugs.1 (hdeps dep hdep)
      exact ⟨t, ht, heq, hdone⟩
    · rw [hstate]
      refine iff_of_false (fun hno => nomatch hno) fun hdone => ?_
      rw [hdone s hs] at hopen
      cases hopen
    · rw [hstate] at hb
      cases hb
  · refine ⟨.inr (.inl hstate), fun hr => ?_, iff_of_true hstate (hall.1 hrem), fun hb => ?_⟩
    · rw [hstate] at hr
      cases hr
    · rw [hstate] at hb
      cases hb
  · refine ⟨.inr (.inr hstate), fun hr => ?_, ?_, fun _ => h.stuck hno⟩
    · rw [hstate] at hr
      cases hr
    · rw [hstate]
      exact iff_of_false (fun hno => nomatch hno) fun hdone => hrem (hall.2 hdone)

/-- What a graph's report on a name is, with `need="build"`. -/
theorem next_story_report_build {isDecimal : Char → Bool} {graph : Graph} {name : Text}
    (h : epic_by_name isDecimal graph name = some epic) (skip : List Text) :
    next_story_report isDecimal graph name skip "build".toList = .ok (build_report epic skip) := by
  unfold next_story_report
  rw [h]
  rfl

/-- **Story selection is sound and makes progress.** -/
theorem selection_sound (epic : Epic) :
    (∃ order, dag_order epic = some order ∧ (order.map Story.slug).Nodup ∧
      (∀ slug, slug ∈ order.map Story.slug ↔ slug ≠ [] ∧ ∃ s ∈ epic.stories, s.slug = slug) ∧
      (epic_cycle epic = some [] → ∀ xs s ys, order = xs ++ s :: ys →
        ∀ dep ∈ s.dependencies, dep ∈ epic.slugs → dep ∈ xs.map Story.slug)) ∧
    (∃ cycle, epic_cycle epic = some cycle ∧ (cycle = [] ↔ ∀ a, ¬ TransGen (Depends epic) a a) ∧
      (cycle ≠ [] → cycle.IsChain (Depends epic) ∧ ∃ a l, cycle = a :: (l ++ [a]))) ∧
    (Sound epic → epic.stories ≠ [] → ∀ (isDecimal : Char → Bool) (graph : Graph) (name : Text),
      epic_by_name isDecimal graph name = some epic → ∀ skip : List Text,
        ∃ report, next_story_report isDecimal graph name skip "build".toList = .ok report ∧
          Progress epic skip report) := by
  obtain ⟨cycle, hcycle, hiff, hreal⟩ := epic_cycle_spec epic
  obtain ⟨order, horder, hnodup, hmem, -⟩ := dag_order_spec epic
  refine ⟨⟨order, horder, hnodup, hmem, fun hnone xs s ys heq dep hdep hin => ?_⟩, ⟨cycle, hcycle, ?_, fun hne => ?_⟩, ?_⟩
  · obtain rfl : cycle = [] := Option.some.inj (hcycle.symm.trans hnone)
    exact dag_order_topo (hiff.1 rfl) horder heq hdep hin
  · rw [hiff, Acyclic, edge_eq]
  · obtain ⟨hedges, hcloses⟩ := hreal hne
    exact ⟨edge_eq ▸ hedges, hcloses⟩
  · intro hsound hne isDecimal graph name hname skip
    exact ⟨_, next_story_report_build hname skip, hsound.progress hne skip⟩

/-- Two stories, the first waiting for the second, which is skipped. -/
def pair : Epic where
  name := "e".toList
  stories := [{ slug := "a".toList, dependencies := ["b".toList] }, { slug := "b".toList }]

theorem pair_sound : Sound pair := by
  refine ⟨by decide, by decide, ?_⟩
  have hcycle : epic_cycle pair = some [] := by decide
  obtain ⟨cycle, hfound, hiff, -⟩ := epic_cycle_spec pair
  obtain rfl : cycle = [] := Option.some.inj (hfound.symm.trans hcycle)
  exact fun a ha => hiff.1 rfl a (edge_eq ▸ ha)

theorem selection_sound_pair : ∃ report,
    next_story_report (fun _ => false) ⟨[pair]⟩ "e".toList ["b".toList] "build".toList = .ok report ∧
      Progress pair ["b".toList] report :=
  (selection_sound pair).2.2 pair_sound (by decide) (fun _ => false) ⟨[pair]⟩ "e".toList (by decide)
    ["b".toList]

/-- Of the first story `a`, which a later one shadows, the searches see no dependency. -/
def shadowed : Epic where
  name := "e".toList
  stories := [{ slug := "a".toList, dependencies := ["b".toList] },
    { slug := "b".toList, dependencies := ["a".toList] }, { slug := "a".toList }]

/-- **An epic without stories is neither ready, done nor blocked**, and where slugs repeat the
dependencies of a shadowed story may close a cycle that is not reported. -/
theorem no_stories_report :
    (next_story_report (fun _ => false) ⟨[⟨"e".toList, []⟩]⟩ "e".toList [] "build".toList).toOption.map Report.state =
      some .noStories ∧
    epic_cycle shadowed = some [] ∧
    (∃ s ∈ shadowed.stories, s.slug = "a".toList ∧ "b".toList ∈ s.dependencies) ∧
    ∃ s ∈ shadowed.stories, s.slug = "b".toList ∧ "a".toList ∈ s.dependencies := by
  refine ⟨by decide, by decide, ⟨_, List.mem_cons_self, rfl, List.mem_cons_self⟩, ?_⟩
  exact ⟨_, List.mem_cons_of_mem _ List.mem_cons_self, rfl, List.mem_cons_self⟩

end Stablemate.Select
