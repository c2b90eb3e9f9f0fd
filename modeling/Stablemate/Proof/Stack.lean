import Stablemate.Lib.Checks
import Stablemate.Lib.Dfs
import Stablemate.Lib.Lists
import Stablemate.Model.Stack

/-!
# Services come up after what they need

* `visitAll_spec`: the search of `_check_cycles`, which goes on after an error, against one that stops at it.
* `closure_ok`: the order in which services come up, as the nodes of a search that are done.
* `started_in_order`: **cycles are reported exactly if there are any, and without errors what a list of targets
  brings up is what they reach, each service once and after its needs**.
-/

namespace Stablemate.Stack

variable {services : List (Text × Service)} {catalog : Catalog} {trail stack done done' : List Text} {ref x : Text}
variable {s s' : Search} {fuel : ℕ}

/-- The needs of a service that are known. -/
def knownNeeds (services : List (Text × Service)) (ref : Text) : List Text :=
  (needsOf services ref).filter fun need => need ∈ services.map Prod.fst

theorem closed_knownNeeds (services : List (Text × Service)) : Dfs.Closed (knownNeeds services) (services.map Prod.fst) :=
  ⟨fun _ _ _ hb => of_decide_eq_true (List.mem_filter.1 hb).2⟩

theorem mem_of_edge {a b : Text} (h : Dfs.Edge (knownNeeds services) a b) : a ∈ services.map Prod.fst := by
  by_contra hnot
  have hnone : needsOf services a = [] := by
    unfold needsOf
    rw [Dict.get_eq_none_iff.2 hnot]
    rfl
  unfold Dfs.Edge knownNeeds at h
  rw [hnone] at h
  cases h

/-! ## The search for cycles -/

/-- The services that are being visited are those of the trail. -/
def Greys (s : Search) (trail : List Text) : Prop := ∀ x, Dict.get s.state x = some 1 ↔ x ∈ trail

/-- The colours, if no error was found. -/
def Colours (s : Search) (trail done : List Text) : Prop :=
  ∀ x, Dict.get s.state x = if x ∈ trail then some 1 else if x ∈ done then some 2 else none

/-- What a visit or a loop of visits does, against a search `g` that stops at the first cycle. -/
structure Visited (services : List (Text × Service)) (g : List Text → Dfs.Outcome Text) (trail : List Text) (s s' : Search) :
    Prop where
  greys : Greys s' trail
  grown : ∃ new, s'.errors = s.errors ++ new ∧
    ∀ e ∈ new, ∃ cycle, e = cycleError cycle ∧ Dfs.Cycle (knownNeeds services) cycle
  agrees : ∀ done, Colours s trail done →
    (s'.errors.length = s.errors.length ∧ ∃ done', g done = some (.ok done') ∧ Colours s' trail done') ∨
      (s.errors.length < s'.errors.length ∧ ∃ cycle, g done = some (.error cycle))

theorem Visited.le {g : List Text → Dfs.Outcome Text} (h : Visited services g trail s s') : s.errors.length ≤ s'.errors.length := by
  obtain ⟨new, hnew, -⟩ := h.grown
  rw [hnew, List.length_append]
  omega

/-- Nothing was done, and the other search passes over. -/
theorem Visited.skip {g : List Text → Dfs.Outcome Text} (hgreys : Greys s trail)
    (hg : ∀ done, Colours s trail done → g done = some (.ok done)) : Visited services g trail s s :=
  ⟨hgreys, ⟨[], (List.append_nil _).symm, fun _ he => absurd he List.not_mem_nil⟩,
    fun done hdone => .inl ⟨rfl, done, hg done hdone, hdone⟩⟩

/-- One after the other. -/
theorem Visited.cons {f : Text → List Text → Dfs.Outcome Text} {a : Text} {as : List Text} {mid : Search}
    (h : Visited services (f a) trail s mid) (h' : Visited services (Dfs.each f as) trail mid s') :
    Visited services (Dfs.each f (a :: as)) trail s s' := by
  refine ⟨h'.greys, ?_, fun done hdone => ?_⟩
  · obtain ⟨new, hnew, hcycles⟩ := h.grown
    obtain ⟨new', hnew', hcycles'⟩ := h'.grown
    refine ⟨new ++ new', by rw [hnew', hnew, List.append_assoc], fun e he => ?_⟩
    rcases List.mem_append.1 he with he | he
    · exact hcycles e he
    · exact hcycles' e he
  · have hle := h'.le
    rcases h.agrees done hdone with ⟨hlen, next, hnext, hcolours⟩ | ⟨hlen, cycle, hcycle⟩
    · rw [Dfs.each_cons_ok hnext]
      rcases h'.agrees next hcolours with ⟨hlen', hok⟩ | ⟨hlen', herror⟩
      · exact .inl ⟨hlen'.trans hlen, hok⟩
      · exact .inr ⟨by omega, herror⟩
    · refine .inr ⟨by omega, cycle, ?_⟩
      rw [Dfs.each, hcycle]

/-- The trail of a visit: a walk along needs that comes to no service twice. -/
structure Trail (services : List (Text × Service)) (trail : List Text) : Prop where
  edges : trail.IsChain (Dfs.Edge (knownNeeds services))
  nodup : trail.Nodup
  known : trail ⊆ services.map Prod.fst

/-- What `visit` is shown to do of a service that was not visited. -/
def VisitSpec (services : List (Text × Service)) (fuel : ℕ) : Prop :=
  ∀ ref trail s, Trail services (trail ++ [ref]) → Greys s trail → Dict.get s.state ref = none →
    services.length < fuel + trail.length →
    ∃ s', _check_cycles.visit services fuel ref (trail ++ [ref]) s = some s' ∧
      Visited services (Dfs.visit (knownNeeds services) Dfs.cycleOf fuel trail ref) trail s s'

/-- There is fuel left while there are services that are not on the trail. -/
theorem Trail.fuel_pos (h : Trail services trail) (hfuel : services.length < fuel + trail.length) : ∃ n, fuel = n + 1 := by
  have hle := (h.nodup.subperm h.known).length_le
  rw [List.length_map] at hle
  exact ⟨fuel - 1, by omega⟩

/-- Of a service on the trail, the cycle is the part of the trail from it on. -/
theorem cycleOf_eq (last : Text) {need : Text} (hmem : need ∈ trail) : Dfs.cycleOf trail need = some (cycleOf last trail need) := by
  unfold cycleOf Dfs.cycleOf
  rw [if_pos hmem]
  -- the two compare texts by two instances
  have hidx : ∀ l : List Text, l.findIdx (fun x => decide (x = need)) = l.findIdx (fun x => x == need) := fun l =>
    congrArg (fun p => l.findIdx p) (funext fun x => Bool.eq_iff_iff.2 (by rw [decide_eq_true_eq, beq_iff_eq]))
  exact congrArg (fun n => some (trail.drop n ++ [need])) (hidx trail)

theorem look_spec (ih : VisitSpec services fuel) (htrail : Trail services trail) (hgreys : Greys s trail)
    (hfuel : services.length < fuel + trail.length) {last need : Text} (hedge : ∀ x ∈ trail.getLast?, Dfs.Edge (knownNeeds services) x need)
    (hknown : need ∈ services.map Prod.fst) :
    ∃ s', _check_cycles.look services (_check_cycles.visit services fuel) last trail s need = some s' ∧
      Visited services (Dfs.visit (knownNeeds services) Dfs.cycleOf fuel trail need) trail s s' := by
  obtain ⟨n, rfl⟩ := htrail.fuel_pos hfuel
  have hchain : (trail ++ [need]).IsChain (Dfs.Edge (knownNeeds services)) :=
    List.isChain_append.2 ⟨htrail.edges, .singleton need, fun x hx y hy => by
      obtain rfl := List.mem_singleton.1 (List.mem_of_mem_head? hy)
      exact hedge x hx⟩
  unfold _check_cycles.look
  rw [if_neg (not_not.2 hknown)]
  by_cases hgrey : Dict.get s.state need = some 1
  · -- an error, where the other search stops
    rw [if_pos hgrey]
    have hmem := (hgreys need).1 hgrey
    obtain ⟨cycle, hcycle, hgood⟩ := Dfs.cycleOf_cycle hmem hchain
    refine ⟨_, rfl, hgreys, ⟨[cycleError cycle], ?_, fun e he => ⟨cycle, List.mem_singleton.1 he, hgood⟩⟩, fun done _ => .inr ⟨?_, cycle, ?_⟩⟩
    · rw [Option.some.inj ((cycleOf_eq last hmem).symm.trans hcycle)]
    · dsimp only
      rw [List.length_append]
      exact Nat.lt_succ_self _
    · rw [Dfs.visit, if_pos hmem, hcycle]
  · rw [if_neg hgrey]
    have hnot : need ∉ trail := fun hmem => hgrey ((hgreys need).2 hmem)
    by_cases hwhite : Dict.get s.state need = none
    · rw [if_pos hwhite]
      refine ih need trail s ⟨hchain, ?_, ?_⟩ hgreys hwhite hfuel
      · refine List.nodup_append.2 ⟨htrail.nodup, List.nodup_singleton need, ?_⟩
        rintro x hx y hy rfl
        exact hnot (List.mem_singleton.1 hy ▸ hx)
      · exact List.append_subset.2 ⟨htrail.known, List.cons_subset.2 ⟨hknown, List.nil_subset _⟩⟩
    · rw [if_neg hwhite]
      refine ⟨s, rfl, .skip hgreys fun done hdone => ?_⟩
      have hcolour := hdone need
      rw [if_neg hnot] at hcolour
      have hmem : need ∈ done := by
        by_contra hmem
        rw [if_neg hmem] at hcolour
        exact hwhite hcolour
      rw [Dfs.visit, if_neg hnot, if_pos hmem]

/-- The loop over the needs of the service at the end of the trail. -/
theorem looks_spec (ih : VisitSpec services fuel) (htrail : Trail services trail) (hfuel : services.length < fuel + trail.length)
    (last : Text) (needs : List Text) (hedges : ∀ need ∈ needs, need ∈ services.map Prod.fst →
      ∀ x ∈ trail.getLast?, Dfs.Edge (knownNeeds services) x need) (s : Search) (hgreys : Greys s trail) :
    ∃ s', needs.foldlM (_check_cycles.look services (_check_cycles.visit services fuel) last trail) s = some s' ∧
      Visited services (Dfs.each (Dfs.visit (knownNeeds services) Dfs.cycleOf fuel trail)
        (needs.filter fun need => need ∈ services.map Prod.fst)) trail s s' := by
  induction needs generalizing s with
  | nil => exact ⟨s, rfl, .skip hgreys fun done _ => rfl⟩
  | cons need needs ihneeds =>
    have hrest := fun s hgreys => ihneeds (fun n hn => hedges n (List.mem_cons_of_mem _ hn)) s hgreys
    rw [List.foldlM_cons]
    by_cases hknown : need ∈ services.map Prod.fst
    · obtain ⟨mid, hmid, hvisited⟩ := look_spec ih htrail hgreys hfuel (hedges need List.mem_cons_self hknown) hknown
      obtain ⟨s', hs', hloop⟩ := hrest mid hvisited.greys
      refine ⟨s', ?_, ?_⟩
      · rw [hmid]
        exact hs'
      · rw [List.filter_cons_of_pos (by simpa using hknown)]
        exact hvisited.cons hloop
    · obtain ⟨s', hs', hloop⟩ := hrest s hgreys
      refine ⟨s', ?_, ?_⟩
      · have hskip : _check_cycles.look services (_check_cycles.visit services fuel) last trail s need = some s := by
          unfold _check_cycles.look
          rw [if_pos hknown]
        rw [hskip]
        exact hs'
      · rw [List.filter_cons_of_neg (by simpa using hknown)]
        exact hloop

/-- **A visit does what the other search does**, and goes on after an error. -/
theorem visit_spec (services : List (Text × Service)) : ∀ fuel, VisitSpec services fuel := by
  intro fuel
  induction fuel with
  | zero =>
    intro ref trail s htrail _ _ hfuel
    have hle := (htrail.nodup.subperm htrail.known).length_le
    rw [List.length_append, List.length_map, List.length_singleton] at hle
    omega
  | succ fuel ih =>
    intro ref trail s htrail hgreys hwhite hfuel
    have hnot : ref ∉ trail := fun hmem => by
      rw [(hgreys ref).2 hmem] at hwhite
      cases hwhite
    have hgreys' : Greys { s with state := Dict.set s.state ref 1 } (trail ++ [ref]) := by
      intro x
      rw [Dict.get_set, List.mem_append, List.mem_singleton]
      split
      · rename_i heq
        exact iff_of_true rfl (.inr heq.symm)
      · rename_i hne
        rw [hgreys x]
        exact ⟨.inl, fun h => h.resolve_right fun heq => hne heq.symm⟩
    have hfuel' : services.length < fuel + (trail ++ [ref]).length := by
      rw [List.length_append, List.length_singleton]
      omega
    have hedges : ∀ need ∈ needsOf services ref, need ∈ services.map Prod.fst →
        ∀ x ∈ (trail ++ [ref]).getLast?, Dfs.Edge (knownNeeds services) x need := by
      intro need hneed hknown x hx
      rw [List.getLast?_concat] at hx
      obtain rfl := Option.some.inj hx
      exact List.mem_filter.2 ⟨hneed, decide_eq_true hknown⟩
    obtain ⟨mid, hmid, hvisited⟩ := looks_spec ih htrail hfuel' ref _ hedges _ hgreys'
    refine ⟨{ mid with state := Dict.set mid.state ref 2 }, ?_, ?_, hvisited.grown, fun done hdone => ?_⟩
    · rw [_check_cycles.visit, hmid]
      rfl
    · intro x
      rw [Dict.get_set]
      split
      · rename_i heq
        subst heq
        exact iff_of_false (fun h => by cases h) hnot
      · rename_i hne
        rw [hvisited.greys x, List.mem_append, List.mem_singleton]
        exact ⟨fun h => h.resolve_right fun heq => hne heq.symm, .inl⟩
    · have hcolour := hdone ref
      rw [if_neg hnot, hwhite] at hcolour
      have hundone : ref ∉ done := fun hmem => by
        rw [if_pos hmem] at hcolour
        cases hcolour
      have hcolours : Colours { s with state := Dict.set s.state ref 1 } (trail ++ [ref]) done := by
        intro x
        rw [Dict.get_set]
        by_cases heq : ref = x
        · rw [if_pos heq, if_pos (by rw [heq]; exact List.mem_append_right _ List.mem_cons_self)]
        · have hmem : x ∈ trail ++ [ref] ↔ x ∈ trail := by
            rw [List.mem_append, List.mem_singleton]
            exact ⟨fun h => h.resolve_right fun h => heq h.symm, .inl⟩
          rw [if_neg heq, hdone x]
          simp only [hmem]
      rw [Dfs.visit, if_neg hnot, if_neg hundone]
      rcases hvisited.agrees done hcolours with ⟨hlen, next, hnext, hnext'⟩ | ⟨hlen, cycle, hcycle⟩
      · have hnext : Dfs.each (Dfs.visit (knownNeeds services) Dfs.cycleOf fuel (trail ++ [ref])) (knownNeeds services ref) done =
            some (.ok next) := hnext
        refine .inl ⟨hlen, next ++ [ref], by rw [hnext], fun x => ?_⟩
        have hx := hnext' x
        dsimp only at hx ⊢
        rw [Dict.get_set]
        by_cases heq : ref = x
        · rw [if_pos heq, if_neg (by rw [← heq]; exact hnot), if_pos (by rw [heq]; exact List.mem_append_right _ List.mem_cons_self)]
        · rw [if_neg heq, hx]
          simp only [List.mem_append, List.mem_singleton, show ¬ x = ref from fun h => heq h.symm, or_false]
      · have hcycle : Dfs.each (Dfs.visit (knownNeeds services) Dfs.cycleOf fuel (trail ++ [ref])) (knownNeeds services ref) done =
            some (.error cycle) := hcycle
        exact .inr ⟨hlen, cycle, by rw [hcycle]⟩

/-- The loop over the services. -/
theorem loop_spec (starts : List Text) (hstarts : ∀ ref ∈ starts, ref ∈ services.map Prod.fst) (s : Search) (hgreys : Greys s []) :
    ∃ s', starts.foldlM (fun s ref =>
        if Dict.get s.state ref = none then _check_cycles.visit services (services.length + 1) ref [ref] s else some s) s = some s' ∧
      Visited services (Dfs.each (Dfs.visit (knownNeeds services) Dfs.cycleOf (services.length + 1) []) starts) [] s s' := by
  induction starts generalizing s with
  | nil => exact ⟨s, rfl, .skip hgreys fun done _ => rfl⟩
  | cons ref starts ih =>
    have hrest := ih fun r hr => hstarts r (List.mem_cons_of_mem _ hr)
    rw [List.foldlM_cons]
    by_cases hwhite : Dict.get s.state ref = none
    · have htrail : Trail services ([] ++ [ref]) :=
        ⟨.singleton ref, List.nodup_singleton ref, List.cons_subset.2 ⟨hstarts ref List.mem_cons_self, List.nil_subset _⟩⟩
      obtain ⟨mid, hmid, hvisited⟩ := visit_spec services _ ref [] s htrail hgreys hwhite (Nat.lt_succ_self _)
      obtain ⟨s', hs', hloop⟩ := hrest mid hvisited.greys
      refine ⟨s', ?_, hvisited.cons hloop⟩
      rw [if_pos hwhite]
      rw [List.nil_append] at hmid
      rw [hmid]
      exact hs'
    · obtain ⟨s', hs', hloop⟩ := hrest s hgreys
      have hskip : Visited services (Dfs.visit (knownNeeds services) Dfs.cycleOf (services.length + 1) [] ref) [] s s := by
        refine .skip hgreys fun done hdone => ?_
        have hcolour := hdone ref
        rw [if_neg List.not_mem_nil] at hcolour
        have hmem : ref ∈ done := by
          by_contra hmem
          rw [if_neg hmem] at hcolour
          exact hwhite hcolour
        rw [Dfs.visit, if_neg List.not_mem_nil, if_pos hmem]
      refine ⟨s', ?_, hskip.cons hloop⟩
      rw [if_neg hwhite]
      exact hs'

/-- **The search reports cycles, and one at least exactly if there is one.** -/
theorem visitAll_spec (services : List (Text × Service)) (errors : List Text) :
    ∃ s new, _check_cycles.visitAll services ⟨[], errors⟩ = some s ∧ s.errors = errors ++ new ∧
      (∀ e ∈ new, ∃ cycle, e = cycleError cycle ∧ Dfs.Cycle (knownNeeds services) cycle) ∧
      (new = [] ↔ Dfs.Acyclic (knownNeeds services)) := by
  have hmem : ∀ ref, ref ∈ (services.map Prod.fst).insertionSort (· ≤ ·) ↔ ref ∈ services.map Prod.fst :=
    fun ref => List.mem_insertionSort _
  obtain ⟨s, hs, hvisited⟩ := loop_spec _ (fun ref href => (hmem ref).1 href) ⟨[], errors⟩ fun x => by simp
  obtain ⟨new, hnew, hcycles⟩ := hvisited.grown
  have hiff := Dfs.visitAll_ok_iff_acyclic (closed_knownNeeds services) (fun a b h => mem_of_edge h) hmem
    (show (services.map Prod.fst).length < services.length + 1 by rw [List.length_map]; exact Nat.lt_succ_self _)
  refine ⟨s, new, hs, hnew, hcycles, ?_⟩
  rw [← hiff, Dfs.visitAll]
  have hlen : s.errors.length = errors.length + new.length := by rw [hnew, List.length_append]
  rcases hvisited.agrees [] fun x => by simp with ⟨heq, done', hdone, -⟩ | ⟨hlt, cycle, hcycle⟩
  · have hzero : new.length = 0 := by
      dsimp only at heq
      omega
    exact iff_of_true (List.length_eq_zero_iff.1 hzero) ⟨done', hdone⟩
  · refine iff_of_false (fun hnil => ?_) ?_
    · rw [hnil, List.length_nil] at hlen
      dsimp only at hlt
      omega
    · rintro ⟨done', hdone⟩
      rw [hcycle] at hdone
      cases hdone

/-! ## The order of a closure -/

/-- What is seen and ordered, against a search that is at `stack`. -/
structure Sim (services : List (Text × Service)) (o : Order) (stack done : List Text) : Prop where
  seen : ∀ x, x ∈ o.seen ↔ x ∈ stack ∨ x ∈ done
  ordered : o.ordered = done.filterMap (Dict.get services)

/-- A search that passes over a service it is still at. -/
def passing (_ : List Text) (_ : Text) : Option (List Text) := none

/-- Every need is a service. -/
def AllKnown (services : List (Text × Service)) : Prop := ∀ ref, ∀ need ∈ needsOf services ref, need ∈ services.map Prod.fst

theorem AllKnown.knownNeeds_eq (h : AllKnown services) (ref : Text) : knownNeeds services ref = needsOf services ref :=
  List.filter_eq_self.2 fun need hneed => decide_eq_true (h ref need hneed)

theorem loop_sim (ih : ∀ stack ref done done' o, ref ∈ services.map Prod.fst → Sim services o stack done →
      Dfs.visit (knownNeeds services) passing fuel stack ref done = some (.ok done') →
      ∃ o', closure.visit services fuel ref o = .ok o' ∧ Sim services o' stack done')
    (refs : List Text) (hrefs : ∀ ref ∈ refs, ref ∈ services.map Prod.fst) {o : Order} (hsim : Sim services o stack done)
    (hout : Dfs.each (Dfs.visit (knownNeeds services) passing fuel stack) refs done = some (.ok done')) :
    ∃ o', refs.foldlM (fun o ref => closure.visit services fuel ref o) o = .ok o' ∧ Sim services o' stack done' := by
  induction refs generalizing o done with
  | nil =>
    cases hout
    exact ⟨o, rfl, hsim⟩
  | cons ref refs ihrefs =>
    obtain ⟨mid, hmid, hrest⟩ := Dfs.each_ok_cases hout
    obtain ⟨next, hnext, hsim'⟩ := ih stack ref done mid o (hrefs ref List.mem_cons_self) hsim hmid
    obtain ⟨o', ho', hsim''⟩ := ihrefs (fun r hr => hrefs r (List.mem_cons_of_mem _ hr)) hsim' hrest
    refine ⟨o', ?_, hsim''⟩
    rw [List.foldlM_cons, hnext]
    exact ho'

/-- **A visit of `closure` orders what the search does.** -/
theorem visit_sim (hknown : AllKnown services) : ∀ fuel stack ref done done' o, ref ∈ services.map Prod.fst → Sim services o stack done →
    Dfs.visit (knownNeeds services) passing fuel stack ref done = some (.ok done') →
    ∃ o', closure.visit services fuel ref o = .ok o' ∧ Sim services o' stack done' := by
  intro fuel
  induction fuel with
  | zero => intro stack ref done done' o _ _ h; cases h
  | succ fuel ih =>
    intro stack ref done done' o href hsim h
    rw [closure.visit]
    rcases Dfs.visit_ok_cases h with ⟨hstack, -, rfl⟩ | ⟨-, hdone, rfl⟩ | ⟨hstack, hdone, mid, hmid, rfl⟩
    · rw [if_pos ((hsim.seen ref).2 (.inl hstack))]
      exact ⟨o, rfl, hsim⟩
    · rw [if_pos ((hsim.seen ref).2 (.inr hdone))]
      exact ⟨o, rfl, hsim⟩
    · have hnew : ref ∉ o.seen := fun hmem => ((hsim.seen ref).1 hmem).elim hstack hdone
      rw [if_neg hnew]
      cases hget : Dict.get services ref with
      | none => exact absurd href (Dict.get_eq_none_iff.1 hget)
      | some service =>
        have hneeds : needsOf services ref = service.needs := by
          unfold needsOf
          rw [hget]
          rfl
        have hinner : Sim services { o with seen := ref :: o.seen } (stack ++ [ref]) done := by
          refine ⟨fun x => ?_, hsim.ordered⟩
          rw [List.mem_cons, hsim.seen x, List.mem_append, List.mem_singleton]
          exact or_comm.trans or_right_comm
        rw [hknown.knownNeeds_eq, hneeds] at hmid
        obtain ⟨o', ho', hsim'⟩ := loop_sim ih service.needs (fun need hneed => hknown ref need (hneeds ▸ hneed)) hinner hmid
        refine ⟨{ o' with ordered := o'.ordered ++ [service] }, ?_, fun x => ?_, ?_⟩
        · dsimp only
          rw [ho']
          rfl
        · rw [hsim'.seen x, List.mem_append, List.mem_append, List.mem_singleton]
          exact or_assoc.trans (or_congr_right or_comm)
        · have hone : [ref].filterMap (Dict.get services) = [service] := by simp [hget]
          rw [List.filterMap_append, hone, ← hsim'.ordered]

/-! ## Book needs -/

theorem get_replaced (services : List (Text × Service)) (ref : Text) (wanted : List Text) (x : Text) :
    Dict.get (replaced services ref wanted) x =
      (Dict.get services x).map fun service => if x = ref then service.alsoNeeds wanted else service := by
  unfold replaced
  induction services with
  | nil => rfl
  | cons item services ih =>
    rw [List.map_cons, Dict.get_cons, Dict.get_cons, ih]
    by_cases hx : item.1 = x
    · by_cases href : item.1 = ref
      · simp [hx, ← href]
      · simp [hx, show ¬ x = ref from hx ▸ href]
    · by_cases href : item.1 = ref
      · have hne : ¬ ref = x := href ▸ hx
        simp [href, hne]
      · simp [hx, href]

theorem mem_needsOf_replaced (href : ref ∈ services.map Prod.fst) (wanted : List Text) (need : Text) :
    need ∈ needsOf (replaced services ref wanted) x ↔ need ∈ needsOf services x ∨ x = ref ∧ need ∈ wanted := by
  unfold needsOf
  rw [get_replaced]
  cases hget : Dict.get services x with
  | none =>
    have hne : x ≠ ref := fun heq => Dict.get_eq_none_iff.1 hget (heq ▸ href)
    simp [hne]
  | some service =>
    by_cases heq : x = ref
    · simp [heq, Service.alsoNeeds]
    · simp [heq]

theorem mem_needsOf_foldl_replaceNeeds (wanted : List Text) (refs : List Text) (catalog : Catalog)
    (hrefs : ∀ ref ∈ refs, ref ∈ catalog.services.map Prod.fst) (need : Text) :
    need ∈ needsOf (refs.foldl (Catalog.replaceNeeds wanted) catalog).services x ↔
      need ∈ needsOf catalog.services x ∨ x ∈ refs ∧ need ∈ wanted := by
  induction refs generalizing catalog with
  | nil => simp
  | cons ref refs ih =>
    have hkeys : (catalog.replaceNeeds wanted ref).services.map Prod.fst = catalog.services.map Prod.fst := keys_replaced ..
    rw [List.foldl_cons, ih _ fun r hr => hkeys ▸ hrefs r (List.mem_cons_of_mem _ hr)]
    have hone : need ∈ needsOf (catalog.replaceNeeds wanted ref).services x ↔ _ :=
      mem_needsOf_replaced (hrefs ref List.mem_cons_self) wanted need
    rw [hone, List.mem_cons, or_and_right, or_assoc]

theorem foldl_replaceNeeds (wanted : List Text) (refs : List Text) (catalog : Catalog) :
    (refs.foldl (Catalog.replaceNeeds wanted) catalog).services.map Prod.fst = catalog.services.map Prod.fst ∧
      (refs.foldl (Catalog.replaceNeeds wanted) catalog).books = catalog.books ∧
      (refs.foldl (Catalog.replaceNeeds wanted) catalog).errors = catalog.errors := by
  induction refs generalizing catalog with
  | nil => exact ⟨rfl, rfl, rfl⟩
  | cons ref refs ih =>
    obtain ⟨hkeys, hbooks, herrors⟩ := ih (catalog.replaceNeeds wanted ref)
    exact ⟨hkeys.trans (keys_replaced ..), hbooks, herrors⟩

/-- A service needs another, by its own list or by its book's. -/
def Needs (catalog : Catalog) (ref need : Text) : Prop :=
  need ∈ needsOf catalog.services ref ∨
    ∃ item ∈ catalog.books, ref ∈ item.2.services ∧ ∃ name ∈ item.2.needs, name ≠ item.2.name ∧
      ∃ book, Dict.get catalog.books name = some book ∧ need ∈ book.services

theorem mem_wantedOf {books : List (Text × Book)} {book : Book} {need : Text} :
    need ∈ wantedOf books book ↔ ∃ name ∈ book.needs, name ≠ book.name ∧ ∃ b, Dict.get books name = some b ∧ need ∈ b.services := by
  unfold wantedOf
  rw [List.mem_flatMap]
  refine exists_congr fun name => and_congr_right fun _ => ?_
  by_cases hname : name = book.name
  · simp [hname]
  · cases hget : Dict.get books name with
    | none => simp [hname]
    | some b => simp [hname]

/-- What the loop over books leaves. -/
theorem foldl_expand (books items : List (Text × Book)) (catalog : Catalog)
    (hitems : ∀ item ∈ items, ∀ ref ∈ item.2.services, ref ∈ catalog.services.map Prod.fst) :
    (items.foldl (_expand_book_needs.expand books) catalog).books = catalog.books ∧
      ∀ x need, need ∈ needsOf (items.foldl (_expand_book_needs.expand books) catalog).services x ↔
        need ∈ needsOf catalog.services x ∨ ∃ item ∈ items, x ∈ item.2.services ∧ need ∈ wantedOf books item.2 := by
  induction items generalizing catalog with
  | nil => exact ⟨rfl, fun x need => by simp⟩
  | cons item items ih =>
    obtain ⟨hkeys, hbooks, -⟩ :=
      foldl_replaceNeeds (wantedOf books item.2) item.2.services (catalog.addErrors (needErrors books item.2))
    obtain ⟨hbooks', hneeds⟩ := ih (_expand_book_needs.expand books catalog item) fun i hi ref href =>
      hkeys.symm ▸ hitems i (List.mem_cons_of_mem _ hi) ref href
    refine ⟨hbooks'.trans hbooks, fun x need => ?_⟩
    have hone := mem_needsOf_foldl_replaceNeeds (wantedOf books item.2) item.2.services
      (catalog.addErrors (needErrors books item.2)) (hitems item List.mem_cons_self) need (x := x)
    have hitem : need ∈ needsOf (_expand_book_needs.expand books catalog item).services x ↔
        need ∈ needsOf catalog.services x ∨ x ∈ item.2.services ∧ need ∈ wantedOf books item.2 := hone
    rw [List.foldl_cons, hneeds x need, hitem]
    simp only [List.mem_cons, exists_eq_or_imp, or_assoc]

theorem keys_expand (catalog : Catalog) : (_expand_book_needs catalog).services.map Prod.fst = catalog.services.map Prod.fst := by
  unfold _expand_book_needs
  generalize catalog.books = books
  have hkeys : ∀ (items : List (Text × Book)) (c : Catalog),
      (items.foldl (_expand_book_needs.expand books) c).services.map Prod.fst = c.services.map Prod.fst := by
    intro items
    induction items with
    | nil => exact fun c => rfl
    | cons item items ih =>
      intro c
      exact (ih _).trans (foldl_replaceNeeds (wantedOf books item.2) item.2.services (c.addErrors (needErrors books item.2))).1
  exact hkeys books catalog

/-- **After the expansion the services have the needs of their books too.** -/
theorem mem_needsOf_expand (catalog : Catalog) (ref need : Text) :
    need ∈ needsOf (_expand_book_needs catalog).services ref ↔ Needs catalog ref need := by
  obtain ⟨-, hneeds⟩ := foldl_expand catalog.books catalog.books catalog catalog.known
  unfold _expand_book_needs Needs
  rw [hneeds ref need]
  simp only [mem_wantedOf]

/-! ## The claim -/

/-- A need among the services that are there. -/
def KnownNeed (catalog : Catalog) (ref need : Text) : Prop := Needs catalog ref need ∧ need ∈ catalog.services.map Prod.fst

/-- A closed chain of needs. -/
def ClosedChain (catalog : Catalog) (cycle : List Text) : Prop :=
  cycle.IsChain (KnownNeed catalog) ∧ ∃ ref l, cycle = ref :: (l ++ [ref])

/-- The services that a target names: a `book:service`, or those of a book. -/
def Names (catalog : Catalog) (target ref : Text) : Prop :=
  (':' ∈ target ∧ ref = target ∧ ref ∈ catalog.services.map Prod.fst) ∨
    ':' ∉ target ∧ ∃ book, Dict.get catalog.books target = some book ∧ ref ∈ book.services

/-- A target that is no `book:service` and no book. -/
def NoTarget (catalog : Catalog) (target : Text) : Prop :=
  (':' ∈ target → target ∉ catalog.services.map Prod.fst) ∧ (':' ∉ target → Dict.get catalog.books target = none)

/-- What targets bring up, of the services of the checked catalog `c`. -/
structure Brought (catalog c : Catalog) (targets : List Text) (ordered : List Service) : Prop where
  stored : ∀ service ∈ ordered, Dict.get c.services service.ref = some service
  reached : ∀ ref, ref ∈ ordered.map (·.ref) ↔
    ∃ target ∈ targets, ∃ root, Names catalog target root ∧ Relation.ReflTransGen (Needs catalog) root ref
  once : (ordered.map (·.ref)).Nodup
  after : ∀ front service back, ordered = front ++ service :: back →
    ∀ need, Needs catalog service.ref need → need ∈ front.map (·.ref)

theorem resolve_ok {refs : List Text} {target : Text} (h : resolve_target catalog target = .ok refs) (ref : Text) :
    ref ∈ refs ↔ Names catalog target ref := by
  unfold resolve_target at h
  unfold Names
  split at h
  · rename_i hcolon
    split at h
    · rename_i hmem
      obtain rfl := (Except.ok.inj h).symm
      rw [List.mem_singleton]
      constructor
      · rintro rfl
        exact .inl ⟨hcolon, rfl, hmem⟩
      · rintro (⟨-, heq, -⟩ | ⟨hno, -⟩)
        · exact heq
        · exact absurd hcolon hno
    · cases h
  · rename_i hcolon
    cases hget : Dict.get catalog.books target with
    | none =>
      rw [hget] at h
      cases h
    | some book =>
      rw [hget] at h
      obtain rfl := (Except.ok.inj h).symm
      simp [hcolon]

theorem resolve_cases (catalog : Catalog) (target : Text) :
    (∃ refs, resolve_target catalog target = .ok refs ∧ ¬ NoTarget catalog target) ∨
      (∃ argument, resolve_target catalog target = .error (.keyError argument)) ∧ NoTarget catalog target := by
  unfold resolve_target NoTarget
  by_cases hcolon : ':' ∈ target
  · rw [if_pos hcolon]
    by_cases hmem : target ∈ catalog.services.map Prod.fst
    · rw [if_pos hmem]
      exact .inl ⟨_, rfl, fun h => h.1 hcolon hmem⟩
    · rw [if_neg hmem]
      exact .inr ⟨⟨_, rfl⟩, fun _ => hmem, fun hno => absurd hcolon hno⟩
  · rw [if_neg hcolon]
    cases hget : Dict.get catalog.books target with
    | none => exact .inr ⟨⟨_, rfl⟩, fun h => absurd h hcolon, fun _ => rfl⟩
    | some book => exact .inl ⟨_, rfl, fun h => by simpa using h.2 hcolon⟩

/-! ## Targets in turn -/

/-- What a target resolves to, where it does. -/
def rootsOf (catalog : Catalog) (target : Text) : List Text := (resolve_target catalog target).toOption.getD []

theorem Names.known {target : Text} (h : Names catalog target ref) : ref ∈ catalog.services.map Prod.fst := by
  rcases h with ⟨-, -, hmem⟩ | ⟨-, book, hget, hmem⟩
  · exact hmem
  · exact catalog.known _ (Dict.mem_of_get hget) ref hmem

theorem bring_sim (hknown : AllKnown catalog.services) {target : Text} (htarget : ¬ NoTarget catalog target) {o : Order}
    (hsim : Sim catalog.services o [] done)
    (hout : Dfs.each (Dfs.visit (knownNeeds catalog.services) passing (catalog.services.length + 1) []) (rootsOf catalog target) done =
      some (.ok done')) :
    ∃ o', closure.bring catalog o target = .ok o' ∧ Sim catalog.services o' [] done' := by
  rcases resolve_cases catalog target with ⟨refs, hrefs, -⟩ | ⟨-, hno⟩
  · unfold rootsOf at hout
    rw [hrefs] at hout
    obtain ⟨o', ho', hsim'⟩ := loop_sim (visit_sim hknown _) refs (fun ref href => ((resolve_ok hrefs ref).1 href).known) hsim hout
    refine ⟨o', ?_, hsim'⟩
    unfold closure.bring
    rw [hrefs]
    exact ho'
  · exact absurd hno htarget

/-- The loop over targets that are there. -/
theorem brings_sim (hknown : AllKnown catalog.services) (targets : List Text) (htargets : ∀ t ∈ targets, ¬ NoTarget catalog t) {o : Order}
    (hsim : Sim catalog.services o [] done)
    (hout : Dfs.each (Dfs.visit (knownNeeds catalog.services) passing (catalog.services.length + 1) [])
      (targets.flatMap (rootsOf catalog)) done = some (.ok done')) :
    ∃ o', targets.foldlM (closure.bring catalog) o = .ok o' ∧ Sim catalog.services o' [] done' := by
  induction targets generalizing o done with
  | nil =>
    cases hout
    exact ⟨o, rfl, hsim⟩
  | cons target targets ih =>
    rw [List.flatMap_cons] at hout
    obtain ⟨mid, hmid, hrest⟩ := Dfs.each_append_cases hout
    obtain ⟨next, hnext, hsim'⟩ := bring_sim hknown (htargets target List.mem_cons_self) hsim hmid
    obtain ⟨o', ho', hsim''⟩ := ih (fun t ht => htargets t (List.mem_cons_of_mem _ ht)) hsim' hrest
    refine ⟨o', ?_, hsim''⟩
    rw [List.foldlM_cons, hnext]
    exact ho'

/-- The search of one target ends. -/
theorem exists_searched (catalog : Catalog) (target : Text) (done : List Text) :
    ∃ done', Dfs.each (Dfs.visit (knownNeeds catalog.services) passing (catalog.services.length + 1) []) (rootsOf catalog target) done =
      some (.ok done') := by
  have hroots : ∀ ref ∈ rootsOf catalog target, ref ∈ catalog.services.map Prod.fst := by
    intro ref href
    unfold rootsOf at href
    rcases resolve_cases catalog target with ⟨refs, hrefs, -⟩ | ⟨⟨argument, herror⟩, -⟩
    · rw [hrefs] at href
      exact ((resolve_ok hrefs ref).1 href).known
    · rw [herror] at href
      cases href
  have hvisit : ∀ ref ∈ rootsOf catalog target, ∀ d,
      (Dfs.visit (knownNeeds catalog.services) passing (catalog.services.length + 1) [] ref d).isSome := by
    intro ref href d
    refine Dfs.visit_isSome (closed_knownNeeds catalog.services) _ [] ref d (hroots ref href) (List.nil_subset _) .nil ?_
    rw [List.length_map, List.length_nil]
    omega
  obtain ⟨out, hout⟩ := Option.isSome_iff_exists.1 (Dfs.each_isSome hvisit : (Dfs.each _ _ done).isSome)
  cases out with
  | ok done' => exact ⟨done', hout⟩
  | error cycle =>
    obtain ⟨ref, -, d, hd⟩ := Dfs.each_error hout
    exact absurd hd (Dfs.visit_ne_error (fun _ _ => rfl) _ _ _ _)

/-- A target that is not there raises, whatever comes before and after it. -/
theorem brings_error (hknown : AllKnown catalog.services) (targets : List Text) (hno : ∃ t ∈ targets, NoTarget catalog t) {o : Order}
    (hsim : Sim catalog.services o [] done) : ∃ argument, targets.foldlM (closure.bring catalog) o = .error (.keyError argument) := by
  induction targets generalizing o done with
  | nil =>
    obtain ⟨t, ht, -⟩ := hno
    cases ht
  | cons target targets ih =>
    rw [List.foldlM_cons]
    by_cases hhead : NoTarget catalog target
    · rcases resolve_cases catalog target with ⟨refs, -, hnot⟩ | ⟨⟨argument, herror⟩, -⟩
      · exact absurd hhead hnot
      · refine ⟨argument, ?_⟩
        have hbring : closure.bring catalog o target = .error (.keyError argument) := by
          unfold closure.bring
          rw [herror]
          rfl
        rw [hbring]
        rfl
    · obtain ⟨t, ht, hbad⟩ := hno
      have hrest : ∃ t ∈ targets, NoTarget catalog t := by
        rcases List.mem_cons.1 ht with rfl | ht
        · exact absurd hbad hhead
        · exact ⟨t, ht, hbad⟩
      obtain ⟨mid, hmid⟩ := exists_searched catalog target done
      obtain ⟨next, hnext, hsim'⟩ := bring_sim hknown hhead hsim hmid
      rw [hnext]
      exact ih hrest hsim'

/-! ## Catalogs without errors -/

theorem allKnown_of_no_errors (h : (_check_needs catalog).errors = []) : AllKnown catalog.services := by
  have hnil := (List.append_eq_nil_iff.1 h).2
  intro ref need hneed
  unfold needsOf at hneed
  cases hget : Dict.get catalog.services ref with
  | none =>
    rw [hget] at hneed
    cases hneed
  | some service =>
    rw [hget] at hneed
    by_contra hnot
    have hitem := List.flatMap_eq_nil_iff.1 hnil _ (Dict.mem_of_get hget)
    have hmem : need ∈ service.needs.filter fun need => need ∉ catalog.services.map Prod.fst :=
      List.mem_filter.2 ⟨hneed, decide_eq_true hnot⟩
    rw [List.map_eq_nil_iff.1 hitem] at hmem
    cases hmem

/-- The references of services that were looked up. -/
theorem refs_of_lookup (catalog : Catalog) (refs : List Text) (hrefs : ∀ ref ∈ refs, ref ∈ catalog.services.map Prod.fst) :
    (refs.filterMap (Dict.get catalog.services)).map (·.ref) = refs := by
  induction refs with
  | nil => rfl
  | cons ref refs ih =>
    cases hget : Dict.get catalog.services ref with
    | none => exact absurd (hrefs ref List.mem_cons_self) (Dict.get_eq_none_iff.1 hget)
    | some service =>
      rw [List.filterMap_cons_some hget, List.map_cons, ih fun r hr => hrefs r (List.mem_cons_of_mem _ hr)]
      rw [show service.ref = ref from catalog.keyed _ (Dict.mem_of_get hget)]

/-- **What targets of a catalog without unknown needs and cycles bring up.** -/
theorem closure_ok (hknown : AllKnown catalog.services) (hacyclic : Dfs.Acyclic (knownNeeds catalog.services)) {targets : List Text}
    (htargets : ∀ t ∈ targets, ¬ NoTarget catalog t) :
    ∃ refs, closure catalog targets = .ok (refs.filterMap (Dict.get catalog.services)) ∧ refs.Nodup ∧
      (∀ ref ∈ refs, ref ∈ catalog.services.map Prod.fst) ∧ Dfs.Topo (knownNeeds catalog.services) refs ∧
      ∀ ref, ref ∈ refs ↔ ∃ target ∈ targets, ∃ root, Names catalog target root ∧
        Relation.ReflTransGen (Dfs.Edge (knownNeeds catalog.services)) root ref := by
  have hroots : ∀ target ∈ targets, ∀ ref, ref ∈ rootsOf catalog target ↔ Names catalog target ref := by
    intro target htarget ref
    unfold rootsOf
    rcases resolve_cases catalog target with ⟨refs, hrefs, -⟩ | ⟨-, hno⟩
    · rw [hrefs]
      exact resolve_ok hrefs ref
    · exact absurd hno (htargets target htarget)
  have hstarts : targets.flatMap (rootsOf catalog) ⊆ catalog.services.map Prod.fst := by
    intro ref href
    obtain ⟨target, htarget, hmem⟩ := List.mem_flatMap.1 href
    exact ((hroots target htarget ref).1 hmem).known
  obtain ⟨done, hdone, hnodup, htopo, hmem⟩ := Dfs.visitAll_reaches hacyclic (closed_knownNeeds catalog.services) hstarts
    (show (catalog.services.map Prod.fst).length < catalog.services.length + 1 by rw [List.length_map]; exact Nat.lt_succ_self _) passing
  have hfirst : Sim catalog.services ⟨[], []⟩ [] [] := ⟨fun x => by simp, rfl⟩
  obtain ⟨o, ho, hsim⟩ := brings_sim hknown targets htargets hfirst hdone
  refine ⟨done, ?_, hnodup, fun ref href => ?_, htopo, fun ref => ?_⟩
  · unfold closure
    rw [ho, ← hsim.ordered]
    rfl
  · obtain ⟨root, hroot, hpath⟩ := (hmem ref).1 href
    rcases Relation.ReflTransGen.cases_tail hpath with rfl | ⟨mid, -, hedge⟩
    · exact hstarts hroot
    · exact of_decide_eq_true (List.mem_filter.1 hedge).2
  · rw [hmem ref]
    constructor
    · rintro ⟨root, hroot, hpath⟩
      obtain ⟨target, htarget, hin⟩ := List.mem_flatMap.1 hroot
      exact ⟨target, htarget, root, (hroots target htarget root).1 hin, hpath⟩
    · rintro ⟨target, htarget, root, hname, hpath⟩
      exact ⟨root, List.mem_flatMap.2 ⟨target, htarget, (hroots target htarget root).2 hname⟩, hpath⟩

/-- What the checks leave of a catalog: the expanded one, with what they found. -/
theorem checked_spec (catalog : Catalog) :
    ∃ c new, checked catalog = some c ∧ c.books = catalog.books ∧ c.services = (_expand_book_needs catalog).services ∧
      c.errors = (_check_needs (_expand_book_needs catalog)).errors ++ new ∧
      (∀ e ∈ new, ∃ cycle, e = cycleError cycle ∧ Dfs.Cycle (knownNeeds c.services) cycle) ∧
      (new = [] ↔ Dfs.Acyclic (knownNeeds c.services)) := by
  obtain ⟨s, new, hs, hnew, hcycles, hiff⟩ :=
    visitAll_spec (_expand_book_needs catalog).services (_check_needs (_expand_book_needs catalog)).errors
  refine ⟨{ _check_needs (_expand_book_needs catalog) with errors := s.errors }, new, ?_, ?_, rfl, hnew, hcycles, hiff⟩
  · exact congrArg (Option.map fun s : Search => { _check_needs (_expand_book_needs catalog) with errors := s.errors }) hs
  · exact (foldl_expand catalog.books catalog.books catalog catalog.known).1

/-- **Services come up after what they need.** The checks report cycles, each a closed chain of needs, and one at least
exactly if there is one among the services that are there; and where a catalog has no errors, targets bring up what they
reach, each service once and after its needs, in any order of the targets the same services, and a target that is no
service and no book raises. -/
theorem started_in_order (catalog : Catalog) :
    ∃ c new, checked catalog = some c ∧ c.errors = (_check_needs (_expand_book_needs catalog)).errors ++ new ∧
      (new ≠ [] ↔ ∃ ref, Relation.TransGen (KnownNeed catalog) ref ref) ∧
      (∀ e ∈ new, ∃ cycle, e = cycleError cycle ∧ ClosedChain catalog cycle) ∧
      (c.errors = [] → ∀ targets,
        ((∀ t ∈ targets, ¬ NoTarget catalog t) → ∃ ordered, closure c targets = .ok ordered ∧ Brought catalog c targets ordered ∧
          ∀ targets', targets'.Perm targets → ∃ ordered', closure c targets' = .ok ordered' ∧ ordered'.Perm ordered) ∧
        ((∃ t ∈ targets, NoTarget catalog t) → ∃ argument, closure c targets = .error (.keyError argument))) := by
  obtain ⟨c, new, hchecked, hbooks, hservices, herrors, hcycles, hiff⟩ := checked_spec catalog
  have hkeys : c.services.map Prod.fst = catalog.services.map Prod.fst := by
    rw [hservices]
    exact keys_expand catalog
  have hneeds : ∀ ref need, need ∈ needsOf c.services ref ↔ Needs catalog ref need := by
    rw [hservices]
    exact mem_needsOf_expand catalog
  have hedge : Dfs.Edge (knownNeeds c.services) = KnownNeed catalog := by
    funext ref need
    unfold Dfs.Edge knownNeeds KnownNeed
    rw [List.mem_filter, decide_eq_true_eq, hneeds, hkeys]
  have hno : ∀ t, NoTarget c t ↔ NoTarget catalog t := by
    intro t
    unfold NoTarget
    rw [hkeys, hbooks]
  have hnames : ∀ t root, Names c t root ↔ Names catalog t root := by
    intro t root
    unfold Names
    rw [hkeys, hbooks]
  refine ⟨c, new, hchecked, herrors, ?_, ?_, fun hnone targets => ?_⟩
  · rw [Ne, hiff, Dfs.Acyclic, hedge, not_forall_not]
  · intro e he
    obtain ⟨cycle, heq, hgood⟩ := hcycles e he
    exact ⟨cycle, heq, hedge ▸ hgood.edges, hgood.closes⟩
  · rw [herrors] at hnone
    obtain ⟨hbefore, hnew⟩ := List.append_eq_nil_iff.1 hnone
    have hknown : AllKnown c.services := by
      rw [hservices]
      exact allKnown_of_no_errors hbefore
    have hacyclic := hiff.1 hnew
    -- with no unknown need the two relations are one
    have hall : Dfs.Edge (knownNeeds c.services) = Needs catalog := by
      funext ref need
      unfold Dfs.Edge
      rw [hknown.knownNeeds_eq, hneeds]
    constructor
    · intro htargets
      obtain ⟨refs, hclosure, hnodup, hin, htopo, hmem⟩ := closure_ok hknown hacyclic fun t ht => mt (hno t).1 (htargets t ht)
      have hrefs := refs_of_lookup c refs hin
      refine ⟨_, hclosure, ⟨fun service hservice => ?_, fun ref => ?_, ?_, ?_⟩, fun targets' hperm => ?_⟩
      · obtain ⟨ref, href, hget⟩ := List.mem_filterMap.1 hservice
        rw [show service.ref = ref from c.keyed _ (Dict.mem_of_get hget)]
        exact hget
      · rw [hrefs, hmem ref]
        simp only [hall, hnames]
      · rw [hrefs]
        exact hnodup
      · intro front service back heq need hneed
        have hsplit : refs = front.map (·.ref) ++ service.ref :: back.map (·.ref) := by
          rw [← hrefs, heq, List.map_append, List.map_cons]
        exact htopo _ _ _ hsplit need (show Dfs.Edge (knownNeeds c.services) service.ref need from hall ▸ hneed)
      · obtain ⟨refs', hclosure', hnodup', -, -, hmem'⟩ :=
          closure_ok hknown hacyclic fun t ht => mt (hno t).1 (htargets t (hperm.mem_iff.1 ht))
        refine ⟨_, hclosure', List.Perm.filterMap _ ((List.perm_ext_iff_of_nodup hnodup' hnodup).2 fun ref => ?_)⟩
        rw [hmem' ref, hmem ref]
        simp only [hperm.mem_iff]
    · rintro ⟨t, ht, hbad⟩
      obtain ⟨argument, herror⟩ := brings_error hknown targets ⟨t, ht, (hno t).2 hbad⟩ (⟨fun x => by simp, rfl⟩ : Sim c.services ⟨[], []⟩ [] [])
      refine ⟨argument, ?_⟩
      unfold closure
      rw [herror]
      rfl

end Stablemate.Stack
