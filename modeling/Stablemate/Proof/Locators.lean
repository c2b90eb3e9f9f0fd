import Stablemate.Lib.Lists
import Stablemate.Model.Locators

/-!
# Scopes, collisions and templates

* `scopes_spec`: the scope of a node holds what the nodes that it leads to repeat over, and all of it when no
  cycle through two nodes is above it.
* `mem_live_iff`, `collisions_complete`, `collisions_sound`: what is reported to collide.
* `fullmatch_refill`: the pattern of a name matches what its holes are filled with.
* `cyclic_scopes`: on a cycle the scope depends on the order of the nodes.
-/

namespace Stablemate.Locators

variable {isWord : Char → Bool}

/-! ## Scopes -/

section Scopes

variable {nodes nodes' : List Node} {parents : Text → List Text} {id : Text}

/-- A node leads to those that can be reached by parent edges, through nodes of the book. -/
def LeadsTo (nodes : List Node) (parents : Text → List Text) : Text → Text → Prop := Memo.Reach (nodes.map Node.id) parents

/-- No cycle through two nodes is above a node. -/
def Uncycled (nodes : List Node) (parents : Text → List Text) (id : Text) : Prop :=
  ∀ a b, LeadsTo nodes parents id a → LeadsTo nodes parents a b → LeadsTo nodes parents b a → a = b

theorem mem_ownOf {v : Text} :
    v ∈ ownOf isWord nodes id ↔ v ≠ [] ∧ ∃ node ∈ nodes, node.id = id ∧ repeat_of isWord node = v := by
  unfold ownOf
  simp only [List.mem_filter, List.mem_map, decide_eq_true_eq]
  constructor
  · rintro ⟨⟨node, ⟨hnode, hid⟩, hrepeat⟩, hv⟩
    exact ⟨hv, node, hnode, hid, hrepeat⟩
  · rintro ⟨hv, node, hnode, hid, hrepeat⟩
    exact ⟨⟨node, ⟨hnode, hid⟩, hrepeat⟩, hv⟩

/-- `v` is what a node repeats over that this one leads to. -/
def InScope (isWord : Char → Bool) (nodes : List Node) (parents : Text → List Text) (id v : Text) : Prop :=
  v ≠ [] ∧ ∃ node ∈ nodes, LeadsTo nodes parents id node.id ∧ repeat_of isWord node = v

theorem inScope_iff {v : Text} :
    InScope isWord nodes parents id v ↔ ∃ b, LeadsTo nodes parents id b ∧ v ∈ ownOf isWord nodes b := by
  simp only [mem_ownOf]
  constructor
  · rintro ⟨hv, node, hnode, hlead, hrepeat⟩
    exact ⟨node.id, hlead, hv, node, hnode, rfl, hrepeat⟩
  · rintro ⟨b, hlead, hv, node, hnode, rfl, hrepeat⟩
    exact ⟨hv, node, hnode, hlead, hrepeat⟩

/-- What the scope of a node holds. -/
structure ScopeOf (isWord : Char → Bool) (nodes : List Node) (parents : Text → List Text) (id : Text) (vars : List Text) :
    Prop where
  sound : ∀ v ∈ vars, InScope isWord nodes parents id v
  self : ∀ node ∈ nodes, node.id = id → repeat_of isWord node ≠ [] → repeat_of isWord node ∈ vars
  full : Uncycled nodes parents id → ∀ v, InScope isWord nodes parents id v → v ∈ vars

/-- **Every node has a scope.** -/
theorem scopes_spec (isWord : Char → Bool) (nodes : List Node) (parents : Text → List Text) :
    ∃ scopes, _scopes isWord nodes parents = some scopes ∧
      ∀ id ∈ nodes.map Node.id, ∃ vars, Dict.get scopes id = some vars ∧ ScopeOf isWord nodes parents id vars := by
  have hfuel : (nodes.map Node.id).length < nodes.length + 1 := by
    rw [List.length_map]
    exact Nat.lt_succ_self _
  have hrun : ∃ cache, _scopes isWord nodes parents = some cache ∧
      Memo.Good (nodes.map Node.id) parents (ownOf isWord nodes) cache ∧ ∀ id ∈ nodes.map Node.id, (Dict.get cache id).isSome :=
    Memo.run_spec hfuel (List.Subset.refl _)
  obtain ⟨scopes, hscopes, hgood, hall⟩ := hrun
  refine ⟨scopes, hscopes, fun id hid => ?_⟩
  obtain ⟨vars, hvars⟩ := Option.isSome_iff_exists.1 (hall id hid)
  refine ⟨vars, hvars, ⟨fun v hv => ?_, fun node hnode heq hne => ?_, fun htame v hv => ?_⟩⟩
  · exact inScope_iff.2 (hgood.sound id vars hvars v hv)
  · exact hgood.self id vars hvars (mem_ownOf.2 ⟨hne, node, hnode, heq, rfl⟩)
  · obtain ⟨b, hlead, hown⟩ := inScope_iff.1 hv
    exact hgood.full id vars hvars htame b hlead v hown

/-- The order of the nodes has no part in what leads where. -/
theorem leadsTo_perm (h : nodes'.Perm nodes) : LeadsTo nodes' parents = LeadsTo nodes parents := by
  have hstep : Memo.Step (nodes'.map Node.id) parents = Memo.Step (nodes.map Node.id) parents := by
    funext a b
    exact propext (and_congr_right fun _ => (h.map Node.id).mem_iff)
  unfold LeadsTo Memo.Reach
  rw [hstep]

theorem inScope_perm (h : nodes'.Perm nodes) {v : Text} :
    InScope isWord nodes' parents id v ↔ InScope isWord nodes parents id v := by
  unfold InScope
  rw [leadsTo_perm h]
  simp only [h.mem_iff]

/-- **The order of the nodes** makes no difference to the scope of a node without such a cycle. -/
theorem scopes_perm (h : nodes'.Perm nodes) (hid : id ∈ nodes.map Node.id) (htame : Uncycled nodes parents id)
    {vars : List Text} (hvars : ScopeOf isWord nodes parents id vars) :
    ∃ scopes' vars', _scopes isWord nodes' parents = some scopes' ∧ Dict.get scopes' id = some vars' ∧
      ∀ v, v ∈ vars' ↔ v ∈ vars := by
  obtain ⟨scopes', hscopes', hall⟩ := scopes_spec isWord nodes' parents
  obtain ⟨vars', hvars', hscope'⟩ := hall id ((h.map Node.id).mem_iff.2 hid)
  have htame' : Uncycled nodes' parents id := by
    unfold Uncycled
    rw [leadsTo_perm h]
    exact htame
  refine ⟨scopes', vars', hscopes', hvars', fun v => ⟨fun hv => ?_, fun hv => ?_⟩⟩
  · exact hvars.full htame v ((inScope_perm h).1 (hscope'.sound v hv))
  · exact hscope'.full htame' v ((inScope_perm h).2 (hvars.sound v hv))

end Scopes

/-! ## Names -/

/-- What a piece of a name was read from. -/
def Found.source : Found → Text
  | .text value => value
  | .hole mark inside => mark ++ inside ++ ['\x7d']

/-- A name whose holes are filled, one after the other. -/
def refill : List Text → List Found → Text
  | _, [] => []
  | fills, .text value :: found => value ++ refill fills found
  | fills, .hole _ _ :: found => fills.headD [] ++ refill fills.tail found

theorem flush_source (lit : Text) : (flush lit).flatMap Found.source = lit := by
  unfold flush
  split
  · rw [List.flatMap_singleton]
    rfl
  · rename_i hlit
    rw [not_not] at hlit
    rw [hlit]
    rfl

theorem closing_eq {text inside rest : Text} (h : closing text = some (inside, rest)) : text = inside ++ '\x7d' :: rest := by
  unfold closing at h
  dsimp only at h
  split at h
  · rename_i heq
    obtain ⟨rfl, rfl⟩ := Prod.mk.inj (Option.some.inj h)
    rw [← heq]
    have htake : (text.takeWhile fun c => c ≠ '\x7b' ∧ c ≠ '\x7d') =
        text.take (text.takeWhile fun c => c ≠ '\x7b' ∧ c ≠ '\x7d').length :=
      List.prefix_iff_eq_take.1 (List.takeWhile_prefix _)
    conv_lhs => rw [← List.take_append_drop (text.takeWhile fun c => c ≠ '\x7b' ∧ c ≠ '\x7d').length text, ← htake]
  · cases h

theorem holeAt_eq {text mark inside rest : Text} (h : holeAt text = some (mark, inside, rest)) :
    text = mark ++ inside ++ '\x7d' :: rest := by
  unfold holeAt at h
  split at h
  · obtain ⟨r, hclose, heq⟩ := Option.map_eq_some_iff.1 h
    obtain ⟨rfl, rfl, rfl⟩ := heq
    rw [closing_eq (show closing _ = some (r.1, r.2) from hclose)]
    rfl
  · obtain ⟨r, hclose, heq⟩ := Option.map_eq_some_iff.1 h
    obtain ⟨rfl, rfl, rfl⟩ := heq
    rw [closing_eq (show closing _ = some (r.1, r.2) from hclose)]
    rfl
  · cases h

theorem scan_hole {lit text mark inside rest : Text} (h : holeAt text = some (mark, inside, rest)) :
    scan lit text = flush lit ++ .hole mark inside :: scan [] rest := by
  rw [scan]
  split
  · rename_i heq
    rw [h] at heq
    obtain ⟨rfl, rfl, rfl⟩ := Option.some.inj heq
    rfl
  · rename_i heq
    rw [h] at heq
    cases heq

theorem scan_nil (lit : Text) : scan lit [] = flush lit := by
  rw [scan]
  rfl

theorem scan_cons {lit cs : Text} {c : Char} (h : holeAt (c :: cs) = none) : scan lit (c :: cs) = scan (lit ++ [c]) cs := by
  rw [scan]
  split
  · rename_i heq
    rw [h] at heq
    cases heq
  · rfl

/-- **The pieces of a name** make it up. -/
theorem scan_source (lit text : Text) : (scan lit text).flatMap Found.source = lit ++ text := by
  induction hn : text.length using Nat.strong_induction_on generalizing lit text with
  | _ n ih =>
    cases hhole : holeAt text with
    | some r =>
      obtain ⟨mark, inside, rest⟩ := r
      have hlt := length_holeAt hhole
      rw [scan_hole hhole, List.flatMap_append, flush_source, List.flatMap_cons, ih _ (hn ▸ hlt) _ _ rfl, List.nil_append,
        holeAt_eq hhole]
      simp only [Found.source, List.append_assoc, List.singleton_append]
    | none =>
      cases text with
      | nil =>
        rw [scan_nil, List.append_nil]
        exact flush_source lit
      | cons c cs =>
        have hlt : cs.length < n := hn ▸ Nat.lt_succ_self _
        rw [scan_cons hhole, ih _ hlt _ _ rfl, List.append_assoc, List.singleton_append]

/-- A name without holes is not changed. -/
theorem refill_of_no_hole {found : List Found} (h : ∀ f ∈ found, f.isHole = false) (fills : List Text) :
    refill fills found = found.flatMap Found.source := by
  induction found generalizing fills with
  | nil => rfl
  | cons f found ih =>
    cases f with
    | text value =>
      rw [refill, ih (fun g hg => h g (List.mem_cons_of_mem _ hg)), List.flatMap_cons]
      rfl
    | hole mark inside => exact absurd (h _ List.mem_cons_self) Bool.noConfusion

theorem fullmatch_text (value rest : Text) (ps : List Piece) (h : fullmatch ps rest = true) :
    fullmatch (.text value :: ps) (value ++ rest) = true := by
  rw [fullmatch, List.drop_left, h, Bool.and_true]
  exact List.isPrefixOf_iff_prefix.2 (List.prefix_append _ _)

theorem fullmatch_any (value rest : Text) (ps : List Piece) (hline : '\n' ∉ value) (h : fullmatch ps rest = true) :
    fullmatch (.any :: ps) (value ++ rest) = true := by
  rw [fullmatch, List.any_eq_true]
  refine ⟨value.length, List.mem_range.2 ?_, ?_⟩
  · rw [List.length_append]
    omega
  · rw [List.take_left, List.drop_left, h, Bool.and_true, List.all_eq_true]
    intro c hc
    exact decide_eq_true fun heq => hline (heq ▸ hc)

/-- The pattern of the pieces matches them with their holes filled. -/
theorem fullmatch_found (scope : List Text) (found : List Found) {fills : List Text} (hfills : ∀ fill ∈ fills, '\n' ∉ fill) :
    fullmatch (name_pattern (found.map (segmentOf isWord scope))) (refill fills found) = true := by
  induction found generalizing fills with
  | nil => rfl
  | cons f found ih =>
    cases f with
    | text value => exact fullmatch_text value _ _ (ih hfills)
    | hole mark inside =>
      have hhead : '\n' ∉ fills.headD [] := by
        cases fills with
        | nil => exact List.not_mem_nil
        | cons fill _ => exact hfills fill List.mem_cons_self
      have hpiece : name_pattern ((Found.hole mark inside :: found).map (segmentOf isWord scope)) =
          .any :: name_pattern (found.map (segmentOf isWord scope)) := by
        unfold name_pattern
        rw [List.map_cons, List.map_cons]
        unfold segmentOf
        dsimp only
        split
        · rfl
        · rfl
      rw [hpiece]
      exact fullmatch_any _ _ _ hhead (ih fun fill hfill => hfills fill (List.mem_of_mem_tail hfill))

/-- **A pattern matches what its name stands for.** -/
theorem fullmatch_refill {name : Text} {scope : List Text} {compiled : CompiledName}
    (h : compile_template isWord name scope = some compiled) {fills : List Text} (hfills : ∀ fill ∈ fills, '\n' ∉ fill) :
    fullmatch (name_pattern compiled.segments) (refill fills (scan [] name)) = true := by
  unfold compile_template at h
  dsimp only at h
  split at h
  · obtain rfl := Option.some.inj h
    exact fullmatch_found scope (scan [] name) hfills
  · rename_i hnone
    split at h
    · obtain rfl := Option.some.inj h
      have hno : ∀ f ∈ scan [] name, f.isHole = false := by
        intro f hf
        by_contra hhole
        exact hnone (List.any_eq_true.2 ⟨f, hf, Bool.eq_true_of_not_eq_false hhole⟩)
      rw [refill_of_no_hole hno, scan_source, List.nil_append]
      have hself := fullmatch_text name [] [] rfl
      rw [List.append_nil] at hself
      exact hself
    · cases h

/-! ## Collisions -/

section Live

variable {exclusive : List (Text × Text)} {ids : List Text} {a b : Text}

theorem isExclusive_comm (a b : Text) : isExclusive exclusive a b = isExclusive exclusive b a := Bool.or_comm _ _

/-- **An id is in conflict** when it is not exclusive with some other one. -/
theorem mem_live_iff (hids : ids.Nodup) :
    a ∈ _live exclusive ids ↔ a ∈ ids ∧ ∃ b ∈ ids, b ≠ a ∧ isExclusive exclusive a b = false := by
  induction ids with
  | nil => simp [_live]
  | cons c ids ih =>
    obtain ⟨hc, hids⟩ := List.nodup_cons.1 hids
    rw [_live, List.mem_append, List.mem_flatMap, ih hids]
    constructor
    · rintro (⟨b, hfilter, hmem⟩ | ⟨hmem, b, hb, hne, hlive⟩)
      · obtain ⟨hb, hnot⟩ := List.mem_filter.1 hfilter
        have hlive : isExclusive exclusive c b = false := by simpa using hnot
        have hbc : b ≠ c := fun heq => hc (heq ▸ hb)
        rcases List.mem_cons.1 hmem with rfl | hsame
        · exact ⟨List.mem_cons_self, b, List.mem_cons_of_mem _ hb, hbc, hlive⟩
        · obtain rfl := List.mem_singleton.1 hsame
          exact ⟨List.mem_cons_of_mem _ hb, c, List.mem_cons_self, hbc.symm, isExclusive_comm c a ▸ hlive⟩
      · exact ⟨List.mem_cons_of_mem _ hmem, b, List.mem_cons_of_mem _ hb, hne, hlive⟩
    · rintro ⟨hmem, b, hb, hne, hlive⟩
      rcases List.mem_cons.1 hmem with rfl | ha
      · have hb := (List.mem_cons.1 hb).resolve_left hne
        exact .inl ⟨b, List.mem_filter.2 ⟨hb, by simpa using hlive⟩, List.mem_cons_self⟩
      · rcases List.mem_cons.1 hb with rfl | hrest
        · have hlive' : isExclusive exclusive b a = false := isExclusive_comm a b ▸ hlive
          exact .inl ⟨a, List.mem_filter.2 ⟨ha, by simpa using hlive'⟩,
            List.mem_cons_of_mem _ (List.mem_singleton.2 rfl)⟩
        · exact .inr ⟨ha, b, hrest, hne, hlive⟩

theorem mem_conflicting (hids : ids.Nodup) :
    a ∈ conflicting exclusive ids ↔ a ∈ ids ∧ ∃ b ∈ ids, b ≠ a ∧ isExclusive exclusive a b = false := by
  unfold conflicting
  rw [List.mem_insertionSort, List.mem_dedup, mem_live_iff hids]

/-- What an id is in conflict with is in conflict too. -/
theorem exists_conflicting (hids : ids.Nodup) (h : a ∈ conflicting exclusive ids) :
    ∃ b ∈ conflicting exclusive ids, b ≠ a ∧ isExclusive exclusive a b = false := by
  obtain ⟨ha, b, hb, hne, hlive⟩ := (mem_conflicting hids).1 h
  exact ⟨b, (mem_conflicting hids).2 ⟨hb, a, ha, hne.symm, isExclusive_comm a b ▸ hlive⟩, hne, hlive⟩

end Live

/-- Two different elements make a length of two. -/
theorem two_le_length {α : Type*} {l : List α} {a b : α} (ha : a ∈ l) (hb : b ∈ l) (hne : a ≠ b) : 2 ≤ l.length := by
  by_contra hlt
  have hpos : 0 < l.length := List.length_pos_of_mem ha
  have hone : l.length = 1 := by omega
  obtain ⟨c, rfl⟩ := List.length_eq_one_iff.1 hone
  exact hne ((List.mem_singleton.1 ha).trans (List.mem_singleton.1 hb).symm)

section Collisions

variable {book : LocatorBook} {data : Data} {screen role name : Text} {node : Node}

/-- The nodes of a book have distinct ids. -/
theorem nodup_locatables (hbook : LocatorBook.parse isWord data = some book) :
    (book.locatables.map fun item => item.2.id).Nodup := by
  obtain ⟨scopes, -, rfl⟩ := Option.map_eq_some_iff.1 hbook
  dsimp only
  rw [List.map_map]
  exact data.unique.sublist (List.filter_sublist.map _)

theorem parse_isSome (isWord : Char → Bool) (data : Data) : ∃ book, LocatorBook.parse isWord data = some book := by
  obtain ⟨scopes, hscopes, -⟩ := scopes_spec isWord data.nodes (parentsOf data)
  unfold LocatorBook.parse
  rw [hscopes]
  exact ⟨_, rfl⟩

/-- A component that states its identity once and is found by this role and name. -/
structure Named (isWord : Char → Bool) (book : LocatorBook) (screen role name : Text) (node : Node) : Prop where
  mem : (screen, node) ∈ book.locatables
  component : node.type = "component".toList
  once : malformed_identity node.bullets = []
  located : locatorOf isWord book node = .role role name

theorem groupKey_named (h : Named isWord book screen role name node) :
    ((screen, role, name, if name ≠ [] then [] else _bullet node "selector".toList), node) ∈
      (compared book).filterMap (groupKey isWord book) := by
  refine List.mem_filterMap.2 ⟨(screen, node), List.mem_filter.2 ⟨h.mem, decide_eq_true ⟨h.component, h.once⟩⟩, ?_⟩
  unfold groupKey
  rw [h.located]

theorem named_of_groupKey {key : Key} (h : (key, node) ∈ (compared book).filterMap (groupKey isWord book)) :
    Named isWord book key.1 key.2.1 key.2.2.1 node ∧ (key.2.2.1 = [] → _bullet node "selector".toList = key.2.2.2) := by
  obtain ⟨item, hitem, hkey⟩ := List.mem_filterMap.1 h
  obtain ⟨hmem, hkept⟩ := List.mem_filter.1 hitem
  obtain ⟨hcomponent, honce⟩ := of_decide_eq_true hkept
  unfold groupKey at hkey
  split at hkey
  · rename_i role name hlocated
    obtain ⟨rfl, rfl⟩ := Prod.mk.inj (Option.some.inj hkey)
    refine ⟨⟨hmem, hcomponent, honce, hlocated⟩, fun hname => ?_⟩
    dsimp only at hname ⊢
    rw [if_neg (not_not.2 hname)]
  · cases hkey

theorem groupKey_id (item : Text × Node) (r : Key × Node) (h : groupKey isWord book item = some r) : r.2.id = item.2.id := by
  unfold groupKey at h
  split at h
  · obtain rfl := Option.some.inj h
    rfl
  · cases h

/-- The nodes of a group, with their locators. -/
theorem mem_groups {key : Key} {nodes : List Node} (h : (key, nodes) ∈ groups isWord book) (hnode : node ∈ nodes) :
    Named isWord book key.1 key.2.1 key.2.2.1 node ∧ (key.2.2.1 = [] → _bullet node "selector".toList = key.2.2.2) := by
  rw [Dict.eq_of_mem_group h] at hnode
  obtain ⟨⟨key', node'⟩, hfiled, rfl⟩ := List.mem_map.1 hnode
  obtain ⟨hmem, hkey⟩ := List.mem_filter.1 hfiled
  obtain rfl : key' = key := of_decide_eq_true hkey
  exact named_of_groupKey hmem

theorem nodup_group_ids (hnodup : (book.locatables.map fun item => item.2.id).Nodup) {key : Key} {nodes : List Node}
    (h : (key, nodes) ∈ groups isWord book) : (nodes.map Node.id).Nodup := by
  rw [Dict.eq_of_mem_group h, List.map_map]
  have hsub : (((compared book).filterMap (groupKey isWord book)).map fun r => r.2.id).Sublist
      ((compared book).map fun item => item.2.id) := map_filterMap_sublist groupKey_id _
  have hcompared : ((compared book).map fun item => item.2.id).Nodup := hnodup.sublist (List.filter_sublist.map _)
  exact (hcompared.sublist hsub).sublist (List.filter_sublist.map _)

/-- **Two components with one role and one name** are reported together, unless they exclude each other. -/
theorem collisions_complete (hnodup : (book.locatables.map fun item => item.2.id).Nodup) {a b : Node}
    (ha : Named isWord book screen role name a) (hb : Named isWord book screen role name b) (hname : name ≠ [])
    (hne : a.id ≠ b.id) (hlive : isExclusive book.exclusive a.id b.id = false) :
    ∃ c ∈ collisions isWord book, c.screen = screen ∧ c.role = role ∧ c.name = name ∧ a.id ∈ c.nodes ∧ b.id ∈ c.nodes := by
  have hkeyA := groupKey_named ha
  have hkeyB := groupKey_named hb
  rw [if_pos hname] at hkeyA hkeyB
  have hgroup := Dict.mem_group_of_mem hkeyA
  generalize hnodes : (((compared book).filterMap (groupKey isWord book)).filter fun kx =>
    kx.1 = (screen, role, name, ([] : Text))).map Prod.snd = nodes at hgroup
  have hmem : ∀ {n : Node}, ((screen, role, name, []), n) ∈ (compared book).filterMap (groupKey isWord book) → n ∈ nodes := by
    intro n hn
    rw [← hnodes]
    exact List.mem_map.2 ⟨_, List.mem_filter.2 ⟨hn, decide_eq_true rfl⟩, rfl⟩
  have hids : (nodes.map Node.id).Nodup := nodup_group_ids hnodup hgroup
  have hidA : a.id ∈ nodes.map Node.id := List.mem_map_of_mem (hmem hkeyA)
  have hidB : b.id ∈ nodes.map Node.id := List.mem_map_of_mem (hmem hkeyB)
  have hinA : a.id ∈ conflicting book.exclusive (nodes.map Node.id) :=
    (mem_conflicting hids).2 ⟨hidA, b.id, hidB, hne.symm, hlive⟩
  have hinB : b.id ∈ conflicting book.exclusive (nodes.map Node.id) :=
    (mem_conflicting hids).2 ⟨hidB, a.id, hidA, hne, isExclusive_comm a.id b.id ▸ hlive⟩
  have htwo : 2 ≤ nodes.length := two_le_length (hmem hkeyA) (hmem hkeyB) fun heq => hne (congrArg Node.id heq)
  have htwo' := two_le_length hinA hinB hne
  have hfew : ¬ (nodes.length < 2 ∨ (conflicting book.exclusive (nodes.map Node.id)).length < 2) := by omega
  refine ⟨⟨screen, role, name, conflicting book.exclusive (nodes.map Node.id), []⟩, List.mem_append_left _ ?_,
    rfl, rfl, rfl, hinA, hinB⟩
  refine List.mem_filterMap.2 ⟨_, (List.mem_insertionSort _).2 hgroup, ?_⟩
  dsimp only
  rw [if_neg hfew]

/-- What the locator of a collision matches: a component of the name, or the one whose template matches the name. -/
def Matched (isWord : Char → Bool) (book : LocatorBook) (c : LocatorCollision) (selector id : Text) : Prop :=
  ∃ node, node.id = id ∧
    (Named isWord book c.screen c.role c.name node ∧ (c.name = [] → _bullet node "selector".toList = selector) ∨
      ∃ name template binds, (c.screen, node) ∈ book.locatables ∧ node.type = "component".toList ∧
        locatorOf isWord book node = .template c.role name template binds ∧ template.template = c.template ∧
        fullmatch (name_pattern template.segments) c.name = true)

/-- The entries of `templated`, with their locators. -/
theorem mem_templated {key : Text × Text} {items : List (Node × RepeatTemplate)} {item : Node × RepeatTemplate}
    (h : (key, items) ∈ templated isWord book) (hitem : item ∈ items) :
    (key.1, item.1) ∈ book.locatables ∧ item.1.type = "component".toList ∧
      ∃ name binds, locatorOf isWord book item.1 = .template key.2 name item.2 binds := by
  rw [Dict.eq_of_mem_group h] at hitem
  obtain ⟨⟨key', item'⟩, hfiled, rfl⟩ := List.mem_map.1 hitem
  obtain ⟨hmem, hkey⟩ := List.mem_filter.1 hfiled
  obtain rfl : key' = key := of_decide_eq_true hkey
  obtain ⟨found, hfound, heq⟩ := List.mem_filterMap.1 hmem
  obtain ⟨hlocatable, hkept⟩ := List.mem_filter.1 hfound
  unfold templateKey at heq
  split at heq
  · rename_i role name template binds hlocated
    split at heq
    · obtain ⟨rfl, rfl⟩ := Prod.mk.inj (Option.some.inj heq)
      exact ⟨hlocatable, (of_decide_eq_true hkept).1, name, binds, hlocated⟩
    · cases heq
  · cases heq

/-- **Every node of a collision** is matched by its locator, and is not exclusive with another one. -/
theorem collisions_sound (hnodup : (book.locatables.map fun item => item.2.id).Nodup) {c : LocatorCollision}
    (h : c ∈ collisions isWord book) :
    ∃ selector, ∀ x ∈ c.nodes, Matched isWord book c selector x ∧
      ∃ y ∈ c.nodes, y ≠ x ∧ isExclusive book.exclusive x y = false := by
  rcases List.mem_append.1 h with h | h
  · obtain ⟨⟨key, nodes⟩, hg, hc⟩ := List.mem_filterMap.1 h
    have hgroup := (List.mem_insertionSort _).1 hg
    have hids := nodup_group_ids hnodup hgroup
    dsimp only at hc
    split at hc
    · cases hc
    · obtain rfl := Option.some.inj hc
      refine ⟨key.2.2.2, fun x hx => ⟨?_, exists_conflicting hids hx⟩⟩
      obtain ⟨node, hnode, rfl⟩ := List.mem_map.1 ((mem_conflicting hids).1 hx).1
      exact ⟨node, rfl, .inl (mem_groups hgroup hnode)⟩
  · obtain ⟨⟨key, items⟩, hentry, hc⟩ := List.mem_flatMap.1 h
    obtain ⟨item, hitem, hc⟩ := List.mem_flatMap.1 hc
    obtain ⟨⟨group, nodes⟩, hg, hc⟩ := List.mem_filterMap.1 hc
    have hgroup := (List.mem_insertionSort _).1 hg
    obtain ⟨hlocatable, hcomponent, name, binds, hlocated⟩ := mem_templated ((List.mem_insertionSort _).1 hentry) hitem
    -- the node with the template is not found by a role, so it is none of the others
    have hout : item.1.id ∉ nodes.map Node.id := by
      intro hmem
      obtain ⟨node, hnode, hid⟩ := List.mem_map.1 hmem
      have hnamed := (mem_groups hgroup hnode).1
      have heq := eq_of_key hnodup hnamed.mem hlocatable hid
      obtain ⟨-, rfl⟩ := Prod.mk.inj heq
      rw [hnamed.located] at hlocated
      cases hlocated
    have hids : (item.1.id :: nodes.map Node.id).Nodup := List.nodup_cons.2 ⟨hout, nodup_group_ids hnodup hgroup⟩
    unfold templateCollision at hc
    dsimp only at hc
    split at hc
    · cases hc
    · rename_i hmatch
      split at hc
      · cases hc
      · obtain rfl := Option.some.inj hc
        simp only [not_or, not_not, ne_eq] at hmatch
        obtain ⟨hkey, hname, hfull⟩ := hmatch
        refine ⟨[], fun x hx => ⟨?_, exists_conflicting hids hx⟩⟩
        rcases List.mem_cons.1 ((mem_conflicting hids).1 hx).1 with rfl | hx
        · exact ⟨item.1, rfl, .inr ⟨name, item.2, binds, hlocatable, hcomponent, hlocated, rfl, hfull⟩⟩
        · obtain ⟨node, hnode, rfl⟩ := List.mem_map.1 hx
          obtain ⟨hnamed, -⟩ := mem_groups hgroup hnode
          subst hkey
          exact ⟨node, rfl, .inl ⟨hnamed, fun hnil => absurd hnil hname⟩⟩

end Collisions

/-! ## The claim, and where it fails -/

/-- A page that stands for each `row`, or for nothing. -/
def samplePage (id one_per : Text) : Node :=
  { id := id, type := "component".toList, parent := [], bullets := [("one-per".toList, [one_per])] }

/-- Two nodes, each the parent of the other. -/
def sampleParents (id : Text) : List Text := if id = "u".toList then ["v".toList] else ["u".toList]

def sampleButton (id : Text) : Node where
  id := id
  type := "component".toList
  parent := []
  bullets := [("role".toList, ["button".toList]), ("name".toList, ["Save".toList])]

theorem sample_unique : ([sampleButton "s.md#a".toList, sampleButton "s.md#b".toList].map Node.id).Nodup := by decide

/-- A screen with two buttons of one name. -/
def sampleData : Data := ⟨[sampleButton "s.md#a".toList, sampleButton "s.md#b".toList], [], sample_unique⟩

def sampleBook : LocatorBook where
  locatables := [("s.md".toList, sampleButton "s.md#a".toList), ("s.md".toList, sampleButton "s.md#b".toList)]
  scopes := [("s.md#a".toList, []), ("s.md#b".toList, [])]
  exclusive := []

theorem sample_parse : LocatorBook.parse Char.isAlphanum sampleData = some sampleBook := rfl

theorem sample_named {node : Node} (h : node ∈ [sampleButton "s.md#a".toList, sampleButton "s.md#b".toList]) :
    Named Char.isAlphanum sampleBook "s.md".toList "button".toList "Save".toList node := by
  rcases List.mem_cons.1 h with rfl | h
  · exact ⟨by decide, rfl, by decide, by decide⟩
  · obtain rfl := List.mem_singleton.1 h
    exact ⟨by decide, rfl, by decide, by decide⟩

end Stablemate.Locators
