import Mathlib.Data.List.Basic
import Mathlib.Data.List.Chain
import Mathlib.Data.List.Nodup
import Mathlib.Data.List.Perm.Subperm
import Mathlib.Logic.Relation

/-!
# Depth-first search by recursion

`visit` goes through the successors of a node before it adds the node to those that are done.
What it does at a node that is on its stack is a parameter: `back` gives the cycle to stop with,
or nothing when the node is passed over.

* `visitAll_isSome`: as much fuel as there are nodes, and one more, is enough.
* `visitAll_covers`: a search that passes over reaches each node once.
* `cycle_of_error`, `visitAll_topo`: a search that stops gives a cycle, and one that does not has
  put each node after its successors; `visitAll_of_ok`: then passing over makes no difference.
* `visitAll_reaches`: what a search of a part does.
* `visitAll_ok_iff_acyclic`: it stops exactly when there is a cycle; `Acyclic.rank`: without one
  the nodes have a rank that falls along edges.
-/

namespace Stablemate.Dfs

variable {α : Type*}

/-- What a search comes out with: a cycle, or the nodes that are done; nothing without fuel. -/
abbrev Outcome (α : Type*) := Option (Except (List α) (List α))

/-- A loop over nodes, up to the first cycle. -/
def each (f : α → List α → Outcome α) : List α → List α → Outcome α
  | [], done => some (.ok done)
  | a :: as, done =>
    match f a done with
    | some (.ok done) => each f as done
    | other => other

section Each

variable {f g : α → List α → Outcome α} {as done done' cycle : List α}

theorem each_cons_ok {a : α} (h : f a done = some (.ok done')) : each f (a :: as) done = each f as done' := by
  rw [each, h]

/-- A loop that comes out well has been through all of its nodes. -/
theorem each_ok_cases {a : α} {out : List α} (h : each f (a :: as) done = some (.ok out)) :
    ∃ mid, f a done = some (.ok mid) ∧ each f as mid = some (.ok out) := by
  unfold each at h
  split at h
  · exact ⟨_, by assumption, h⟩
  · rename_i hno
    exact absurd h (hno out)

theorem each_append_cases {bs out : List α} (h : each f (as ++ bs) done = some (.ok out)) :
    ∃ mid, each f as done = some (.ok mid) ∧ each f bs mid = some (.ok out) := by
  induction as generalizing done with
  | nil => exact ⟨done, rfl, h⟩
  | cons a as ih =>
    obtain ⟨next, hnext, hrest⟩ := each_ok_cases h
    obtain ⟨mid, hmid, hout⟩ := ih hrest
    exact ⟨mid, by rw [each_cons_ok hnext, hmid], hout⟩

theorem each_isSome (h : ∀ a ∈ as, ∀ done, (f a done).isSome) : (each f as done).isSome := by
  induction as generalizing done with
  | nil => rfl
  | cons a as ih =>
    unfold each
    split
    · exact ih fun b hb => h b (List.mem_cons_of_mem _ hb)
    · exact h a List.mem_cons_self _

/-- What every round does to the list, the loop does. -/
theorem each_rel {R : List α → List α → Prop} (hrefl : ∀ d, R d d) (htrans : ∀ c d e, R c d → R d e → R c e)
    (h : ∀ a ∈ as, ∀ d d', f a d = some (.ok d') → R d d') (hout : each f as done = some (.ok done')) : R done done' := by
  induction as generalizing done with
  | nil =>
    cases hout
    exact hrefl _
  | cons a as ih =>
    obtain ⟨mid, hmid, hrest⟩ := each_ok_cases hout
    exact htrans _ _ _ (h a List.mem_cons_self _ _ hmid) (ih (fun b hb => h b (List.mem_cons_of_mem _ hb)) hrest)

theorem each_error (hout : each f as done = some (.error cycle)) : ∃ a ∈ as, ∃ d, f a d = some (.error cycle) := by
  induction as generalizing done with
  | nil => cases hout
  | cons a as ih =>
    unfold each at hout
    split at hout
    · obtain ⟨b, hb, d, hd⟩ := ih hout
      exact ⟨b, List.mem_cons_of_mem _ hb, d, hd⟩
    · exact ⟨a, List.mem_cons_self, done, hout⟩

theorem each_congr_ok (h : ∀ a ∈ as, ∀ d d', f a d = some (.ok d') → g a d = some (.ok d'))
    (hout : each f as done = some (.ok done')) : each g as done = some (.ok done') := by
  induction as generalizing done with
  | nil => exact hout
  | cons a as ih =>
    obtain ⟨mid, hmid, hrest⟩ := each_ok_cases hout
    rw [each_cons_ok (h a List.mem_cons_self _ _ hmid)]
    exact ih (fun b hb => h b (List.mem_cons_of_mem _ hb)) hrest

/-- A loop leaves each of its nodes done, when each round does and keeps what was done. -/
theorem each_mem (hkeep : ∀ b ∈ as, ∀ d d', f b d = some (.ok d') → d ⊆ d')
    (hmem : ∀ b ∈ as, ∀ d d', f b d = some (.ok d') → b ∈ d') (hout : each f as done = some (.ok done')) : as ⊆ done' := by
  induction as generalizing done with
  | nil => exact List.nil_subset _
  | cons b as ih =>
    obtain ⟨mid, hmid, hrest⟩ := each_ok_cases hout
    have hkeep' : ∀ c ∈ as, ∀ d d', f c d = some (.ok d') → d ⊆ d' := fun c hc => hkeep c (List.mem_cons_of_mem _ hc)
    have hsub : mid ⊆ done' :=
      each_rel (R := fun d d' => d ⊆ d') (fun _ => List.Subset.refl _) (fun _ _ _ => List.Subset.trans) hkeep' hrest
    exact List.cons_subset.2 ⟨hsub (hmem b List.mem_cons_self _ _ hmid),
      ih hkeep' (fun c hc => hmem c (List.mem_cons_of_mem _ hc)) hrest⟩

end Each

section Grown

variable {nodes stack done done' : List α}

/-- What is done grows at its end, by nodes that were neither done nor on the stack. -/
structure Grown (nodes stack done done' : List α) : Prop where
  grown : ∃ new, done' = done ++ new ∧ new.Nodup ∧ ∀ b ∈ new, b ∉ done ∧ b ∉ stack ∧ b ∈ nodes

theorem Grown.refl (d : List α) : Grown nodes stack d d :=
  ⟨[], (List.append_nil d).symm, .nil, fun _ h => absurd h List.not_mem_nil⟩

theorem Grown.trans {d e : List α} (h : Grown nodes stack done d) (h' : Grown nodes stack d e) :
    Grown nodes stack done e := by
  obtain ⟨new, rfl, hnew, hmem⟩ := h.grown
  obtain ⟨new', rfl, hnew', hmem'⟩ := h'.grown
  refine ⟨new ++ new', List.append_assoc _ _ _, List.nodup_append.2 ⟨hnew, hnew', ?_⟩, ?_⟩
  · rintro x hx y hy rfl
    exact (hmem' x hy).1 (List.mem_append_right _ hx)
  · intro b hb
    rcases List.mem_append.1 hb with hb | hb
    · exact hmem b hb
    · obtain ⟨hd, hs, hn⟩ := hmem' b hb
      exact ⟨fun h => hd (List.mem_append_left _ h), hs, hn⟩

theorem Grown.subset (h : Grown nodes stack done done') : done ⊆ done' := by
  obtain ⟨new, rfl, -⟩ := h.grown
  exact List.subset_append_left _ _

end Grown

/-! ## Edges -/

/-- `b` is a successor of `a`. -/
def Edge (succ : α → List α) (a b : α) : Prop := b ∈ succ a

/-- A walk along edges that ends where it began. -/
structure Cycle (succ : α → List α) (cycle : List α) : Prop where
  edges : cycle.IsChain (Edge succ)
  closes : ∃ a l, cycle = a :: (l ++ [a])

def Acyclic (succ : α → List α) : Prop := ∀ a, ¬ Relation.TransGen (Edge succ) a a

/-- Along a walk the first node leads to the last one. -/
theorem leads_of_isChain {succ : α → List α} : ∀ {l : List α} {a b : α}, (a :: (l ++ [b])).IsChain (Edge succ) →
    Relation.TransGen (Edge succ) a b := by
  intro l
  induction l with
  | nil =>
    intro a b h
    exact .single (List.isChain_cons_cons.1 h).1
  | cons c l ih =>
    intro a b h
    obtain ⟨hedge, hrest⟩ := List.isChain_cons_cons.1 h
    exact (ih hrest).head hedge

theorem Cycle.not_acyclic {succ : α → List α} {cycle : List α} (h : Cycle succ cycle) : ¬ Acyclic succ := by
  obtain ⟨hedges, a, l, rfl⟩ := h
  exact fun hacyclic => hacyclic a (leads_of_isChain hedges)

/-- Each node of the list stands after all of its successors. -/
def Topo (succ : α → List α) (l : List α) : Prop := ∀ xs b ys, l = xs ++ b :: ys → ∀ c ∈ succ b, c ∈ xs

theorem topo_nil (succ : α → List α) : Topo succ [] := by
  intro xs b ys h
  cases xs <;> cases h

theorem Topo.concat {succ : α → List α} {l : List α} {a : α} (h : Topo succ l) (ha : succ a ⊆ l) :
    Topo succ (l ++ [a]) := by
  intro xs b ys heq
  rcases List.eq_nil_or_concat ys with rfl | ⟨ys, c, rfl⟩
  · obtain ⟨rfl, hab⟩ := List.append_inj' heq rfl
    obtain rfl := (List.cons.inj hab).1
    exact fun c hc => ha hc
  · rw [List.concat_eq_append, ← List.cons_append, ← List.append_assoc] at heq
    exact h xs b ys (List.append_inj' heq rfl).1

/-! ## The search -/

variable [DecidableEq α]

/-- One node, its successors first. -/
def visit (succ : α → List α) (back : List α → α → Option (List α)) : ℕ → List α → α → List α → Outcome α
  | 0, _, _, _ => none
  | fuel + 1, stack, a, done =>
    if a ∈ stack then
      match back stack a with
      | some cycle => some (.error cycle)
      | none => some (.ok done)
    else if a ∈ done then some (.ok done)
    else
      match each (visit succ back fuel (stack ++ [a])) (succ a) done with
      | some (.ok done) => some (.ok (done ++ [a]))
      | other => other

def visitAll (succ : α → List α) (back : List α → α → Option (List α)) (fuel : ℕ) (starts : List α) : Outcome α :=
  each (visit succ back fuel []) starts []

/-- The part of the stack from the node on, and the node again. -/
def cycleOf (stack : List α) (a : α) : Option (List α) := some (stack.drop (stack.idxOf a) ++ [a])

variable {succ : α → List α} {back : List α → α → Option (List α)} {fuel : ℕ}
variable {stack done done' starts cycle nodes : List α} {a b c : α}

/-! ## What a visit can do -/

theorem visit_ok_cases (h : visit succ back (fuel + 1) stack a done = some (.ok done')) :
    (a ∈ stack ∧ back stack a = none ∧ done' = done) ∨ (a ∉ stack ∧ a ∈ done ∧ done' = done) ∨
    (a ∉ stack ∧ a ∉ done ∧ ∃ mid, each (visit succ back fuel (stack ++ [a])) (succ a) done = some (.ok mid) ∧
      done' = mid ++ [a]) := by
  unfold visit at h
  split at h
  · rename_i hstack
    split at h
    · cases h
    · rename_i hback
      cases h
      exact .inl ⟨hstack, hback, rfl⟩
  · rename_i hstack
    split at h
    · rename_i hdone
      cases h
      exact .inr (.inl ⟨hstack, hdone, rfl⟩)
    · rename_i hdone
      split at h
      · rename_i mid hmid
        cases h
        exact .inr (.inr ⟨hstack, hdone, mid, hmid, rfl⟩)
      · rename_i hno
        exact absurd h (hno done')

theorem visit_error_cases (h : visit succ back (fuel + 1) stack a done = some (.error cycle)) :
    (a ∈ stack ∧ back stack a = some cycle) ∨
    (a ∉ stack ∧ each (visit succ back fuel (stack ++ [a])) (succ a) done = some (.error cycle)) := by
  unfold visit at h
  split at h
  · rename_i hstack
    split at h
    · rename_i hback
      cases h
      exact .inl ⟨hstack, hback⟩
    · cases h
  · rename_i hstack
    split at h
    · cases h
    · split at h
      · cases h
      · exact .inr ⟨hstack, h⟩

/-- Nodes that the search stays among. -/
structure Closed (succ : α → List α) (nodes : List α) : Prop where
  closed : ∀ a ∈ nodes, ∀ b ∈ succ a, b ∈ nodes

theorem visit_isSome (hnodes : Closed succ nodes) :
    ∀ (fuel : ℕ) (stack : List α) (a : α) (done : List α), a ∈ nodes → stack ⊆ nodes → stack.Nodup →
      nodes.length < fuel + stack.length → (visit succ back fuel stack a done).isSome := by
  intro fuel
  induction fuel with
  | zero =>
    intro stack a done ha hsub hnodup hlen
    have hle := (hnodup.subperm hsub).length_le
    omega
  | succ fuel ih =>
    intro stack a done ha hsub hnodup hlen
    unfold visit
    split
    · split <;> rfl
    · rename_i hstack
      split
      · rfl
      · have hinner : (each (visit succ back fuel (stack ++ [a])) (succ a) done).isSome := by
          refine each_isSome fun b hb d => ih (stack ++ [a]) b d (hnodes.closed a ha b hb) ?_ ?_ ?_
          · exact List.append_subset.2 ⟨hsub, List.cons_subset.2 ⟨ha, List.nil_subset _⟩⟩
          · exact List.nodup_append.2 ⟨hnodup, List.nodup_singleton a, fun x hx y hy heq =>
              hstack (List.mem_singleton.1 hy ▸ heq ▸ hx)⟩
          · rw [List.length_append, List.length_singleton]
            omega
        split
        · rfl
        · exact hinner

variable (back) in
/-- **Fuel for every node and one more is enough.** -/
theorem visitAll_isSome (hnodes : Closed succ nodes) (hstarts : starts ⊆ nodes) (hfuel : nodes.length < fuel) :
    (visitAll succ back fuel starts).isSome :=
  each_isSome fun a ha d => visit_isSome hnodes fuel [] a d (hstarts ha) (List.nil_subset _) .nil hfuel

/-- A search that passes over comes out well. -/
theorem visit_ne_error (hback : ∀ s a, back s a = none) :
    ∀ (fuel : ℕ) (stack : List α) (a : α) (done : List α), visit succ back fuel stack a done ≠ some (.error cycle) := by
  intro fuel
  induction fuel with
  | zero => intro stack a done h; cases h
  | succ fuel ih =>
    intro stack a done h
    rcases visit_error_cases h with ⟨-, hb⟩ | ⟨-, hinner⟩
    · rw [hback] at hb
      cases hb
    · obtain ⟨b, -, d, hd⟩ := each_error hinner
      exact ih _ _ _ hd

/-! ## The nodes that are done -/

theorem visit_grown (hnodes : Closed succ nodes) :
    ∀ (fuel : ℕ) (stack : List α) (a : α) (done done' : List α), a ∈ nodes →
      visit succ back fuel stack a done = some (.ok done') → Grown nodes stack done done' := by
  intro fuel
  induction fuel with
  | zero => intro stack a done done' _ h; cases h
  | succ fuel ih =>
    intro stack a done done' ha h
    rcases visit_ok_cases h with ⟨-, -, rfl⟩ | ⟨-, -, rfl⟩ | ⟨hstack, hdone, mid, hmid, rfl⟩
    · exact .refl _
    · exact .refl _
    · have hinner : Grown nodes (stack ++ [a]) done mid :=
        each_rel .refl (fun _ _ _ => .trans)
          (fun b hb d d' hd => ih (stack ++ [a]) b d d' (hnodes.closed a ha b hb) hd) hmid
      obtain ⟨new, rfl, hnew, hmem⟩ := hinner.grown
      refine ⟨new ++ [a], List.append_assoc _ _ _, List.nodup_append.2 ⟨hnew, List.nodup_singleton a, ?_⟩, ?_⟩
      · -- the node itself was on the stack of the inner search
        rintro x hx y hy rfl
        obtain rfl := List.mem_singleton.1 hy
        exact (hmem x hx).2.1 (List.mem_append_right _ List.mem_cons_self)
      · intro b hb
        rcases List.mem_append.1 hb with hb | hb
        · obtain ⟨hd, hs, hn⟩ := hmem b hb
          exact ⟨hd, fun h => hs (List.mem_append_left _ h), hn⟩
        · obtain rfl := List.mem_singleton.1 hb
          exact ⟨hdone, hstack, ha⟩

theorem visit_subset : ∀ (fuel : ℕ) (stack : List α) (a : α) (done done' : List α),
    visit succ back fuel stack a done = some (.ok done') → done ⊆ done' := by
  intro fuel
  induction fuel with
  | zero => intro stack a done done' h; cases h
  | succ fuel ih =>
    intro stack a done done' h
    rcases visit_ok_cases h with ⟨-, -, rfl⟩ | ⟨-, -, rfl⟩ | ⟨-, -, mid, hmid, rfl⟩
    · exact List.Subset.refl _
    · exact List.Subset.refl _
    · have hsub : done ⊆ mid := each_rel (R := fun d d' => d ⊆ d') (fun _ => List.Subset.refl _)
        (fun _ _ _ => List.Subset.trans) (fun b _ d d' hd => ih _ b d d' hd) hmid
      exact List.Subset.trans hsub (List.subset_append_left _ _)

/-- A visit leaves its node done, or had it on the stack. -/
theorem visit_mem (h : visit succ back fuel stack a done = some (.ok done')) :
    a ∈ done' ∨ a ∈ stack ∧ back stack a = none := by
  cases fuel with
  | zero => cases h
  | succ fuel =>
    rcases visit_ok_cases h with ⟨hs, hb, -⟩ | ⟨-, hd, rfl⟩ | ⟨-, -, mid, -, rfl⟩
    · exact .inr ⟨hs, hb⟩
    · exact .inl hd
    · exact .inl (List.mem_append_right _ List.mem_cons_self)

/-- **A search over all nodes does each of them once.** -/
theorem visitAll_covers (hnodes : Closed succ nodes) (hstarts : ∀ a, a ∈ starts ↔ a ∈ nodes)
    (h : visitAll succ back fuel starts = some (.ok done)) : done.Nodup ∧ ∀ a, a ∈ done ↔ a ∈ nodes := by
  have hgrown : ∀ b ∈ starts, ∀ d d', visit succ back fuel [] b d = some (.ok d') → Grown nodes [] d d' :=
    fun b hb d d' hd => visit_grown hnodes fuel [] b d d' ((hstarts b).1 hb) hd
  obtain ⟨new, hnew, hnodup, hmem⟩ := (each_rel .refl (fun _ _ _ => .trans) hgrown h).grown
  rw [List.nil_append] at hnew
  subst hnew
  have hall : starts ⊆ done := by
    refine each_mem (fun b hb d d' hd => (hgrown b hb d d' hd).subset) (fun b _ d d' hd => ?_) h
    exact (visit_mem hd).resolve_right fun hs => absurd hs.1 List.not_mem_nil
  exact ⟨hnodup, fun a => ⟨fun ha => (hmem a ha).2.2, fun ha => hall ((hstarts a).2 ha)⟩⟩

/-! ## Cycles -/

theorem cycleOf_cycle (hstack : a ∈ stack) (hedges : (stack ++ [a]).IsChain (Edge succ)) :
    ∃ cycle, cycleOf stack a = some cycle ∧ Cycle succ cycle := by
  have hlt : stack.idxOf a < stack.length := List.idxOf_lt_length_of_mem hstack
  refine ⟨_, rfl, ?_, a, stack.drop (stack.idxOf a + 1), ?_⟩
  · have hdrop := hedges.drop (stack.idxOf a)
    rwa [List.drop_append_of_le_length hlt.le] at hdrop
  · rw [List.drop_eq_getElem_cons hlt, List.getElem_idxOf hlt, List.cons_append]

/-- **A search that stops has found a cycle.** -/
theorem visit_cycle : ∀ (fuel : ℕ) (stack : List α) (a : α) (done : List α), (stack ++ [a]).IsChain (Edge succ) →
    visit succ cycleOf fuel stack a done = some (.error cycle) → Cycle succ cycle := by
  intro fuel
  induction fuel with
  | zero => intro stack a done _ h; cases h
  | succ fuel ih =>
    intro stack a done hedges h
    rcases visit_error_cases h with ⟨hstack, hcycle⟩ | ⟨-, hinner⟩
    · obtain ⟨found, hfound, hgood⟩ := cycleOf_cycle hstack hedges
      rw [hfound] at hcycle
      cases hcycle
      exact hgood
    · obtain ⟨b, hb, d, hd⟩ := each_error hinner
      refine ih (stack ++ [a]) b d ?_ hd
      rw [List.append_assoc]
      exact List.isChain_append_cons_cons.2 ⟨hedges, hb, .singleton b⟩

theorem cycle_of_error (h : visitAll succ cycleOf fuel starts = some (.error cycle)) : Cycle succ cycle := by
  obtain ⟨a, -, d, hd⟩ := each_error h
  exact visit_cycle fuel [] a d (.singleton a) hd

/-! ## Successors first -/

/-- In such a list an edge leads to the front. -/
theorem Topo.idxOf_lt {l : List α} (h : Topo succ l) (ha : a ∈ l) (hedge : Edge succ a b) :
    b ∈ l ∧ l.idxOf b < l.idxOf a := by
  obtain ⟨xs, ys, rfl, hnot⟩ := List.eq_append_cons_of_mem ha
  have hb := h xs a ys rfl b hedge
  refine ⟨List.mem_append_left _ hb, ?_⟩
  rw [List.idxOf_append_of_mem hb, List.idxOf_append_of_notMem hnot]
  exact (List.idxOf_lt_length_of_mem hb).trans_le (Nat.le_add_right _ _)

theorem Topo.idxOf_lt_of_transGen {l : List α} (h : Topo succ l) (ha : a ∈ l)
    (hab : Relation.TransGen (Edge succ) a b) : b ∈ l ∧ l.idxOf b < l.idxOf a := by
  induction hab with
  | single hedge => exact h.idxOf_lt ha hedge
  | tail _ hedge ih =>
    obtain ⟨hmem, hlt⟩ := h.idxOf_lt ih.1 hedge
    exact ⟨hmem, hlt.trans ih.2⟩

section Stopping

variable (hback : ∀ s a, back s a ≠ none)

include hback

/-- A visit that would have stopped at the stack leaves the list in order. -/
theorem visit_topo : ∀ (fuel : ℕ) (stack : List α) (a : α) (done done' : List α), Topo succ done →
    visit succ back fuel stack a done = some (.ok done') → Topo succ done' := by
  intro fuel
  induction fuel with
  | zero => intro stack a done done' _ h; cases h
  | succ fuel ih =>
    intro stack a done done' htopo h
    rcases visit_ok_cases h with ⟨-, hb, -⟩ | ⟨-, -, rfl⟩ | ⟨-, -, mid, hmid, rfl⟩
    · exact absurd hb (hback _ _)
    · exact htopo
    · have hnodes : ∀ b ∈ succ a, ∀ d d', visit succ back fuel (stack ++ [a]) b d = some (.ok d') → b ∈ d' := by
        intro b _ d d' hd
        exact (visit_mem hd).resolve_right fun hs => hback _ _ hs.2
      have hkeep : ∀ b ∈ succ a, ∀ d d', visit succ back fuel (stack ++ [a]) b d = some (.ok d') → d ⊆ d' :=
        fun b _ d d' hd => visit_subset fuel _ b d d' hd
      exact (each_rel (R := fun d d' => Topo succ d → Topo succ d') (fun _ h => h) (fun _ _ _ h h' hd => h' (h hd))
        (fun b _ d d' hd htopo => ih _ b d d' htopo hd) hmid htopo).concat (each_mem hkeep hnodes hmid)

/-- Where it would have stopped and did not, the rule for the stack makes no difference. -/
theorem visit_of_ok (back' : List α → α → Option (List α)) : ∀ (fuel : ℕ) (stack : List α) (a : α) (done done' : List α),
    visit succ back fuel stack a done = some (.ok done') → visit succ back' fuel stack a done = some (.ok done') := by
  intro fuel
  induction fuel with
  | zero => intro stack a done done' h; cases h
  | succ fuel ih =>
    intro stack a done done' h
    rcases visit_ok_cases h with ⟨-, hb, -⟩ | ⟨hstack, hdone, rfl⟩ | ⟨hstack, hdone, mid, hmid, rfl⟩
    · exact absurd hb (hback _ _)
    · rw [visit, if_neg hstack, if_pos hdone]
    · have hmid' : each (visit succ back' fuel (stack ++ [a])) (succ a) done = some (.ok mid) :=
        each_congr_ok (fun b _ d d' hd => ih _ b d d' hd) hmid
      rw [visit, if_neg hstack, if_neg hdone, hmid']

theorem visitAll_of_ok (back' : List α → α → Option (List α)) (h : visitAll succ back fuel starts = some (.ok done)) :
    visitAll succ back' fuel starts = some (.ok done) :=
  each_congr_ok (fun a _ d d' hd => visit_of_ok hback back' fuel [] a d d' hd) h

theorem visitAll_topo (h : visitAll succ back fuel starts = some (.ok done)) : Topo succ done :=
  each_rel (R := fun d d' => Topo succ d → Topo succ d') (fun _ h => h) (fun _ _ _ h h' hd => h' (h hd))
    (fun a _ d d' hd htopo => visit_topo hback fuel [] a d d' htopo hd) h (topo_nil succ)

end Stopping

theorem cycleOf_ne_none (s : List α) (a : α) : cycleOf s a ≠ none := fun h => (nomatch h)

/-- Edges that stay among the nodes leave a cycle there. -/
theorem acyclic_of_topo {l : List α} (h : Topo succ l) (hall : ∀ a b, Edge succ a b → a ∈ l) : Acyclic succ := by
  intro a haa
  obtain ⟨b, hab, -⟩ := Relation.TransGen.head'_iff.1 haa
  exact lt_irrefl _ (h.idxOf_lt_of_transGen (hall a b hab) haa).2

/-- **The search finds no cycle exactly when there is none.** -/
theorem visitAll_ok_iff_acyclic (hnodes : Closed succ nodes) (hedges : ∀ a b, Edge succ a b → a ∈ nodes)
    (hstarts : ∀ a, a ∈ starts ↔ a ∈ nodes) (hfuel : nodes.length < fuel) :
    (∃ done, visitAll succ cycleOf fuel starts = some (.ok done)) ↔ Acyclic succ := by
  constructor
  · rintro ⟨done, h⟩
    have hmem := (visitAll_covers hnodes hstarts h).2
    exact acyclic_of_topo (visitAll_topo cycleOf_ne_none h) fun a b hab => (hmem a).2 (hedges a b hab)
  · intro hacyclic
    have hsome := visitAll_isSome cycleOf hnodes (fun a ha => (hstarts a).1 ha) hfuel
    obtain ⟨out, hout⟩ := Option.isSome_iff_exists.1 hsome
    cases out with
    | error cycle => exact absurd hacyclic (cycle_of_error hout).not_acyclic
    | ok done => exact ⟨done, hout⟩

/-- **Without a cycle a search does what its starts reach, each node once and after its successors.** -/
theorem visitAll_reaches (h : Acyclic succ) (hnodes : Closed succ nodes) (hstarts : starts ⊆ nodes) (hfuel : nodes.length < fuel)
    (back : List α → α → Option (List α)) :
    ∃ done, visitAll succ back fuel starts = some (.ok done) ∧ done.Nodup ∧ Topo succ done ∧
      ∀ a, a ∈ done ↔ ∃ s ∈ starts, Relation.ReflTransGen (Edge succ) s a := by
  classical
  obtain ⟨out, hout⟩ := Option.isSome_iff_exists.1 (visitAll_isSome cycleOf hnodes hstarts hfuel)
  cases out with
  | error cycle => exact absurd h (cycle_of_error hout).not_acyclic
  | ok done =>
    have htopo := visitAll_topo cycleOf_ne_none hout
    -- the nodes that are reached are closed too, so the search stays among them
    let reached := nodes.filter fun a => ∃ s ∈ starts, Relation.ReflTransGen (Edge succ) s a
    have hreached : Closed succ reached := by
      refine ⟨fun a ha b hb => ?_⟩
      obtain ⟨hmem, hreach⟩ := List.mem_filter.1 ha
      obtain ⟨s, hs, hsa⟩ := of_decide_eq_true hreach
      exact List.mem_filter.2 ⟨hnodes.closed a hmem b hb, decide_eq_true ⟨s, hs, hsa.tail hb⟩⟩
    have hgrown : ∀ b ∈ starts, ∀ d d', visit succ cycleOf fuel [] b d = some (.ok d') → Grown reached [] d d' :=
      fun b hb d d' hd => visit_grown hreached fuel [] b d d'
        (List.mem_filter.2 ⟨hstarts hb, decide_eq_true ⟨b, hb, .refl⟩⟩) hd
    obtain ⟨new, hnew, hnodup, hmem⟩ := (each_rel .refl (fun _ _ _ => .trans) hgrown hout).grown
    rw [List.nil_append] at hnew
    subst hnew
    have hall : starts ⊆ done := by
      refine each_mem (fun b hb d d' hd => (hgrown b hb d d' hd).subset) (fun b _ d d' hd => ?_) hout
      exact (visit_mem hd).resolve_right fun hs => absurd hs.1 List.not_mem_nil
    refine ⟨done, visitAll_of_ok cycleOf_ne_none back hout, hnodup, htopo, fun a => ⟨fun ha => ?_, ?_⟩⟩
    · exact of_decide_eq_true (List.mem_filter.1 (hmem a ha).2.2).2
    · rintro ⟨s, hs, hsa⟩
      induction hsa with
      | refl => exact hall hs
      | tail _ hedge ih => exact (htopo.idxOf_lt ih hedge).1

theorem Acyclic.rank (h : Acyclic succ) (hnodes : Closed succ nodes) (hedges : ∀ a b, Edge succ a b → a ∈ nodes) :
    ∃ rank : α → ℕ, ∀ a b, Edge succ a b → rank b < rank a := by
  obtain ⟨done, hdone⟩ := (visitAll_ok_iff_acyclic hnodes hedges (fun _ => Iff.rfl) (Nat.lt_succ_self _)).2 h
  have hmem := (visitAll_covers hnodes (fun _ => Iff.rfl) hdone).2
  have htopo := visitAll_topo cycleOf_ne_none hdone
  exact ⟨done.idxOf, fun a b hab => (htopo.idxOf_lt ((hmem a).2 (hedges a b hab)) hab).2⟩

end Stablemate.Dfs
